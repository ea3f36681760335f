import Noted.Imslp.Files
import Noted.Transactions

/-!
# Send to Noted (internal/app/shortcut.go)

A PDF from the iOS Shortcut becomes a draft in three transactions: one starts the
draft, one attaches the file, and one deletes the draft again when the file did not
arrive. Between them stand the store and the reads of the draft, each of which may
fail, and so may a transaction. PostgreSQL takes no U+0000 in a text or in JSON, and no
text that is not UTF-8.
-/

namespace Noted

open Library Imslp

variable (s : Service)

section Storage

def storable (t : Text) : Bool := !t.contains (Char.ofNat 0)

def storableString (s : GoString) : Bool := validUTF8 s && storable (asText s)

def PieceInput.storable (input : PieceInput) : Bool :=
  [input.opus, input.musicKey, input.title, input.composer, input.sourceURL, input.listeningURL,
    input.notes, input.aliases].all Noted.storable && input.status.all Noted.storable

def DraftMetadata.storable (metadata : DraftMetadata) : Bool :=
  metadata.input.storable && metadata.provenance.title.all Noted.storable &&
    metadata.provenance.composer.all Noted.storable && metadata.base.all PieceInput.storable

end Storage

/-- The limits, the breaker, the lookups found before, and what the lookup of this
call meets. -/
structure FileSearch where
  cfg : Controls
  limits : CacheLimits
  breaker : Breaker
  files : FileCache
  lookup : Lookup

def FileSearch.work (search : FileSearch) (filename : Bytes) : Option IMSLPWork :=
  match imslpFileNumberOf (asText (runes filename)) with
  | none => none
  | some number =>
    (resolveFile search.cfg search.limits number search.lookup search.breaker search.files).1.map
      Subtype.val

def FileSearch.Finds (search : FileSearch) (filename : Bytes) (w : FoundWork) : Prop :=
  ∃ number, imslpFileNumberOf (asText (runes filename)) = some number ∧
    Imslp.Finds number search.lookup search.breaker search.files w

/-- What the call meets in the database and in the store: the times of its
transactions, the UUIDs, the saved object, and which of the steps that can fail for
reasons of their own do not. -/
structure Backend where
  created : Time
  attached : Time
  removed : Time
  fresh : Fresh
  sourceFresh : Fresh
  object : Option Object
  readsNew : Bool
  attaches : Bool
  readsAttached : Bool
  removes : Bool

/-- The result; the draft's path is made of its id. -/
structure ShortcutImport where
  draftId : Id
  title : Text
  composer : Text
  filename : Text
  headline : Text
  message : Text
  deriving DecidableEq

section Calls

def readPDF (data : Bytes) : Except Error ImportBytes := do
  refuse (s.importLimit < data.length) .importLimit
  refuse ((utf8 "%PDF-".toList).isPrefixOf data = false)
    (.invalid "only PDF files can be sent")
  validateImportBytes s.decoders data

def sourceOf (work : Option IMSLPWork) : GoString := (work.map IMSLPWork.url).getD []

def createShortcut (owner : Id) (work : Option IMSLPWork) (b : Backend) (db : Db) :
    Except Error Db := do
  let db ← createImport owner ⟨.absent, sourceOf work⟩ work b.fresh b.created db
  refuse ((newMetadata (sourceOf work) work).storable = false) .database
  pure db

def readDraft (reads : Bool) (owner id : Id) (now : Time) (db : Db) : Except Error ImportDraft := do
  refuse (reads = false) .database
  getImport s owner id now db

def storeSource (owner : Id) (d : ImportDraft) (filename : GoString) (file : ImportBytes)
    (object : Object) (b : Backend) (db : Db) : Except Error Db := do
  let db ← attachWrites owner d (asText filename) file object b.sourceFresh b.attached db
  refuse (storableString filename = false ∨
    (attachedMetadata d.row.metadata (asText filename)).storable = false) .database
  refuse (b.attaches = false) .database
  pure db

/-- `attachSource`: an object that is not used is queued for deletion. -/
def attachShortcut (owner id : Id) (filename : GoString) (revision : Int) (file : ImportBytes)
    (size : Nat) (b : Backend) (db : Db) : Except Error ImportDraft × Db :=
  match attachChecks s owner id revision size b.attached db with
  | .error e => (.error e, db)
  | .ok d =>
    match b.object with
    | none => (.error .assetStore, db)
    | some object =>
      match storeSource owner d filename file object b db with
      | .error e => (.error e, db.enqueue b.attached object.key)
      | .ok db => (readDraft s b.readsAttached owner id b.attached db, db)

/-- `DeleteImport`, whose failure is only logged. -/
def removeShortcut (owner id : Id) (b : Backend) (db : Db) : Db :=
  match deleteImport owner id b.removed db with
  | .error _ => db
  | .ok removed => if b.removes then removed else db

def shortcutResult (d : DraftRow) (filename : Text) : ShortcutImport where
  draftId := d.id
  title := d.metadata.input.title
  composer := d.metadata.input.composer
  filename := filename
  headline :=
    (if d.metadata.input.title = [] then "Untitled score".toList else d.metadata.input.title) ++
      if d.metadata.input.composer = [] then []
      else " — ".toList ++ d.metadata.input.composer
  message := "New draft created.".toList

def shortcutImport (owner : Id) (filename : Bytes) (data : Bytes) (search : FileSearch) (b : Backend)
    (db : Db) : Except Error ShortcutImport × Db :=
  match readPDF s data with
  | .error e => (.error e, db)
  | .ok file =>
    match createShortcut owner (search.work filename) b db with
    | .error e => (.error e, db)
    | .ok db =>
      match readDraft s b.readsNew owner b.fresh.id b.created db with
      | .error e => (.error e, db)
      | .ok d =>
        match attachShortcut s owner d.row.id (runes filename) d.row.revision file data.length b
            db with
        | (.error e, db) => (.error e, removeShortcut owner d.row.id b db)
        | (.ok attached, db) => (.ok (shortcutResult attached.row (asText (runes filename))), db)

end Calls

structure IMSLPWork.Fits (w : IMSLPWork) : Prop where
  url : GoString.len w.url ≤ 2000
  title : GoString.len w.title ≤ 300 → storable (asText w.title) = true
  composer : GoString.len w.composer ≤ 300 → storable (asText w.composer) = true

variable {s} {owner id : Id} {filename : Text} {name : GoString} {bytes data : Bytes}
  {file : ImportBytes} {search : FileSearch} {b : Backend} {db db' : Db} {work : Option IMSLPWork}

section Works

theorem FileSearch.work_eq_some {w : IMSLPWork} :
    search.work bytes = some w ↔ ∃ f, search.Finds bytes f ∧ f.1 = w := by
  unfold FileSearch.work FileSearch.Finds
  cases imslpFileNumberOf (asText (runes bytes)) with
  | none => simp
  | some number =>
    simp only [Option.map_eq_some_iff, resolveFile_eq_some, Option.some.injEq, exists_eq_left']

theorem storable_iff {t : Text} : storable t = true ↔ Char.ofNat 0 ∉ t := by
  simp [storable]

theorem storableString_runes :
    storableString (runes bytes) = true ↔ ∃ t, bytes = utf8 t ∧ storable t = true := by
  rw [storableString, Bool.and_eq_true, validUTF8_runes]
  constructor
  · intro h
    obtain ⟨⟨t, rfl⟩, hstorable⟩ := h
    rw [runes_utf8, asText_goString] at hstorable
    exact ⟨t, rfl, hstorable⟩
  · intro h
    obtain ⟨t, rfl, hstorable⟩ := h
    rw [runes_utf8, asText_goString]
    exact ⟨⟨t, rfl⟩, hstorable⟩

theorem storable_of_parse {raw : GoString} {u : Url.URL} (h : Url.Parse raw = some u)
    (hhash : '#' ∉ asText raw) : storable (asText raw) = true := by
  obtain ⟨found, hparse, -⟩ := Option.bind_eq_some_iff.mp h
  have hwhole : raw.takeWhile (fun c => decide (Letter.char c ≠ '#')) = raw := by
    rw [List.takeWhile_eq_self_iff]
    intro c hc
    simp only [ne_eq, decide_not, Bool.not_eq_true', decide_eq_false_iff_not]
    intro heq
    exact hhash (List.mem_map.mpr ⟨c, hc, heq⟩)
  rw [hwhole] at hparse
  unfold Url.parse at hparse
  split_ifs at hparse with hctl
  all_goals
    rw [storable_iff]
    intro hnul
    apply hctl
    rw [Url.containsCTL, List.any_eq_true]
    exact ⟨Char.ofNat 0, hnul, by decide⟩

theorem FoundWork.parses (w : FoundWork) : ∃ u, Url.Parse w.1.url = some u := by
  have hvalid := w.valid.1
  unfold validIMSLPWorkURL at hvalid
  split at hvalid
  · cases hvalid
  · rename_i u hu
    exact ⟨u, hu⟩

theorem FoundWork.storable_url (w : FoundWork) : storable (asText w.1.url) = true := by
  obtain ⟨u, hu⟩ := FoundWork.parses w
  exact storable_of_parse hu w.valid.2

theorem FoundWork.isWorkLink (w : FoundWork) :
    isWorkLink w.1.url = true ↔ GoString.len w.1.url ≤ 2000 := by
  have hvalid := w.valid.1
  unfold validIMSLPWorkURL at hvalid
  unfold Noted.isWorkLink
  split at hvalid
  · cases hvalid
  · simp_all

theorem newMetadata_storable (w : FoundWork) :
    (newMetadata w.1.url (some w.1)).storable = true ↔
      (GoString.len w.1.title ≤ 300 → storable (asText w.1.title) = true) ∧
        (GoString.len w.1.composer ≤ 300 → storable (asText w.1.composer) = true) := by
  have hurl := FoundWork.storable_url w
  have hnil : storable [] = true := rfl
  by_cases htitle : GoString.len w.1.title ≤ 300 <;>
    by_cases hcomposer : GoString.len w.1.composer ≤ 300 <;>
    simp [newMetadata, prefilled, DraftMetadata.storable, PieceInput.storable, htitle, hcomposer,
      hurl, hnil]
  exact fun hcomposer htitle => ⟨htitle, hcomposer⟩

end Works

/-- A working database and store: the steps succeed, the UUIDs and the storage key
are new, a source belongs to a draft, and the call takes less than a week. -/
structure Works (s : Service) (data : Bytes) (b : Backend) (db : Db) (object : Object) : Prop where
  readsNew : b.readsNew = true
  attaches : b.attaches = true
  readsAttached : b.readsAttached = true
  week : b.attached < b.created + sevenDays
  saved : b.object = some object
  object_eq : object = ⟨object.key, data.length, s.sha256 data⟩
  key_new : ∀ a ∈ db.assets, a.storageKey ≠ object.key
  draft_new : ∀ d ∈ db.drafts, d.id ≠ b.fresh.id
  asset_new : ∀ a ∈ db.assets, a.id ≠ b.sourceFresh.assetId
  sources : ∀ x ∈ db.draftSources, db.hasDraft x.draftId = true

/-- The call succeeded, and the owner has one more open draft, whose only source is
the PDF. -/
structure Filed (owner : Id) (filename : Text) (file : ImportBytes) (object : Object) (b : Backend)
    (db : Db) (result : Except Error ShortcutImport × Db) : Prop where
  ok : ∃ r, result.1 = .ok r ∧ r.draftId = b.fresh.id ∧ r.filename = filename
  draft : ∃ d ∈ result.2.drafts, d.id = b.fresh.id ∧ d.userId = owner ∧ d.finalized = false ∧
    b.attached < d.updatedAt + sevenDays
  others : ∀ d, d.id ≠ b.fresh.id → (d ∈ result.2.drafts ↔ d ∈ db.drafts)
  count : result.2.openDrafts owner b.attached = db.openDrafts owner b.attached + 1
  sources : result.2.draftAssets owner b.fresh.id =
    [attachedAsset owner filename file object b.sourceFresh.assetId b.attached]

section Steps

def shortcutDraft (owner : Id) (work : Option IMSLPWork) (b : Backend) : DraftRow :=
  startedDraft owner ⟨none, 0, newMetadata (sourceOf work) work, ⟨1, []⟩, []⟩ b.fresh.id b.created

theorem createShortcut_eq_ok : createShortcut owner work b db = .ok db' ↔
    (sourceOf work = [] ∨ isWorkLink (sourceOf work) = true) ∧
      db.openDrafts owner b.created < maxOpenDrafts ∧
      (newMetadata (sourceOf work) work).storable = true ∧
      db.insertDraft (shortcutDraft owner work b) = .ok db' := by
  simp only [createShortcut, createImport, draftStart, bind_eq_ok, refuse_eq_ok, exists_const,
    validateIMSLP_eq_ok, not_le, pure_eq_ok, Except.ok.injEq, Bool.not_eq_false, Prod.exists,
    Prod.mk.injEq, shortcutDraft]
  constructor
  · intro h
    obtain ⟨db₁, ⟨hlink, hopen, start, db₂, ⟨rfl, rfl⟩, db₃, hinsert, hsources⟩, hstorable, rfl⟩ := h
    obtain rfl : db₃ = db₁ := by simpa [List.foldlM] using hsources
    exact ⟨hlink, hopen, hstorable, hinsert⟩
  · intro h
    obtain ⟨hlink, hopen, hstorable, hinsert⟩ := h
    exact ⟨db', ⟨hlink, hopen, _, db, ⟨rfl, rfl⟩, db', hinsert, rfl⟩, hstorable, rfl⟩

theorem readDraft_eq_ok {reads : Bool} {id : Id} {now : Time} {d : ImportDraft} :
    readDraft s reads owner id now db = .ok d ↔ reads = true ∧
      (d.row ∈ db.drafts ∧ d.row.id = id ∧ d.row.userId = owner ∧
        now < d.row.updatedAt + sevenDays) ∧
      d.sources = db.draftAssets owner id ∧ d.maxFileBytes = s.importLimit := by
  simp only [readDraft, getImport, bind_eq_ok, refuse_eq_ok, exists_const, Bool.not_eq_false,
    Db.draftTx_eq_ok]

theorem fileTitle_storable (h : storable filename = true) : storable (fileTitle filename) = true := by
  rw [storable_iff] at h ⊢
  intro hmem
  apply h
  unfold fileTitle at hmem
  split_ifs at hmem
  · exact List.mem_of_mem_take hmem
  · exact hmem

theorem attachedMetadata_storable {metadata : DraftMetadata} (hfile : storable filename = true)
    (h : metadata.storable = true) : (attachedMetadata metadata filename).storable = true := by
  unfold attachedMetadata
  split_ifs
  · have htitle := fileTitle_storable hfile
    simp only [DraftMetadata.storable, PieceInput.storable, Bool.and_eq_true] at h ⊢
    simp_all
  · exact h

theorem storeSource_eq_ok {d : ImportDraft} {object : Object} :
    storeSource owner d name file object b db = .ok db' ↔
      attachWrites owner d (asText name) file object b.sourceFresh b.attached db = .ok db' ∧
        (storableString name = true ∧
          (attachedMetadata d.row.metadata (asText name)).storable = true) ∧
        b.attaches = true := by
  simp only [storeSource, bind_eq_ok, refuse_eq_ok, exists_const, not_or, Bool.not_eq_false,
    pure_eq_ok, Except.ok.injEq]
  constructor
  · intro h
    obtain ⟨db₁, hwrites, hstorable, hattaches, rfl⟩ := h
    exact ⟨hwrites, hstorable, hattaches⟩
  · intro h
    obtain ⟨hwrites, hstorable, hattaches⟩ := h
    exact ⟨db', hwrites, hstorable, hattaches, rfl⟩

theorem attachChecks_eq_ok {id : Id} {revision : Int} {size : Nat} {now : Time} {d : ImportDraft} :
    attachChecks s owner id revision size now db = .ok d ↔ db.draftTx s owner id now = .ok d ∧
      (d.row.finalized = false ∧ (d.row.revision : Int) = revision) ∧
      (d.sources.map AssetRow.size).sum + size ≤ 200 * 2 ^ 20 := by
  simp only [attachChecks, bind_eq_ok, refuse_eq_ok, exists_const, not_or, Bool.not_eq_true, ne_eq,
    not_not, not_lt, pure_eq_ok, Except.ok.injEq]
  constructor
  · intro h
    obtain ⟨found, hfound, hopen, hsize, rfl⟩ := h
    exact ⟨hfound, hopen, hsize⟩
  · intro h
    obtain ⟨hfound, hopen, hsize⟩ := h
    exact ⟨d, hfound, hopen, hsize, rfl⟩

end Steps

section New

variable {db₁ : Db} {object : Object}

theorem insertDraft_rows (h : db.insertDraft (shortcutDraft owner work b) = .ok db₁) :
    (∀ d ∈ db.drafts, d.id ≠ b.fresh.id) ∧
      db₁.drafts.rows = db.drafts.rows ++ [shortcutDraft owner work b] ∧
      db₁ = { db with drafts := db₁.drafts } := by
  obtain ⟨-, drafts, hdrafts, rfl⟩ := Db.insertDraft_eq_ok.mp h
  obtain ⟨hnew, hrows⟩ := Table.insert?_eq_some.mp hdrafts
  exact ⟨hnew, hrows, rfl⟩

theorem shortcutDraft_mem (h : db.insertDraft (shortcutDraft owner work b) = .ok db₁) :
    shortcutDraft owner work b ∈ db₁.drafts := by
  rw [← Table.mem_rows, (insertDraft_rows h).2.1]
  simp

theorem draftAssets_new (h : db.insertDraft (shortcutDraft owner work b) = .ok db₁)
    (hsources : ∀ x ∈ db.draftSources, db.hasDraft x.draftId = true) :
    db₁.draftAssets owner b.fresh.id = [] := by
  obtain ⟨hnew, -, heq⟩ := insertDraft_rows h
  rw [List.eq_nil_iff_forall_not_mem]
  intro a ha
  obtain ⟨-, -, hsource⟩ := Db.mem_draftAssets.mp ha
  rw [heq] at hsource
  obtain ⟨o, d, hd, hid, -⟩ := Db.hasDraft_iff.mp (hsources _ hsource)
  exact hnew d hd hid

theorem attachChecks_new (h : db.insertDraft (shortcutDraft owner work b) = .ok db₁)
    (hworks : Works s data b db object) :
    attachChecks s owner b.fresh.id 0 data.length b.attached db₁ =
      .ok ⟨shortcutDraft owner work b, [], s.importLimit⟩ ↔ data.length ≤ 200 * 2 ^ 20 := by
  have hsources := draftAssets_new h hworks.sources
  have hmem := shortcutDraft_mem h
  have hfound : db₁.draftTx s owner b.fresh.id b.attached =
      .ok ⟨shortcutDraft owner work b, [], s.importLimit⟩ :=
    Db.draftTx_eq_ok.mpr ⟨⟨hmem, rfl, rfl, hworks.week⟩, hsources.symm, rfl⟩
  simp [attachChecks_eq_ok, hfound, shortcutDraft, startedDraft]

def filedDraft (owner : Id) (work : Option IMSLPWork) (filename : Text) (file : ImportBytes)
    (b : Backend) : DraftRow :=
  (savedDraft (attachedMetadata (shortcutDraft owner work b).metadata filename)
    (attachedManifest ⟨1, []⟩ b.sourceFresh file.pages) b.attached).apply (shortcutDraft owner work b)

structure Added (owner : Id) (work : Option IMSLPWork) (filename : Text) (file : ImportBytes)
    (object : Object) (b : Backend) (db db' : Db) : Prop where
  drafts : db'.drafts.rows = db.drafts.rows ++ [filedDraft owner work filename file b]
  assets : ∀ a, a ∈ db'.assets ↔ a ∈ db.assets ∨
    a = attachedAsset owner filename file object b.sourceFresh.assetId b.attached
  sources : ∀ x, x ∈ db'.draftSources ↔ x ∈ db.draftSources ∨
    x = ⟨b.fresh.id, b.sourceFresh.assetId⟩

theorem storeSource_new (h : db.insertDraft (shortcutDraft owner work b) = .ok db₁)
    (hworks : Works s data b db object) (hmetadata : (shortcutDraft owner work b).metadata.storable =
      true) (hfile : storableString name = true) :
    ∃ db₂, storeSource owner ⟨shortcutDraft owner work b, [], s.importLimit⟩ name file object b
      db₁ = .ok db₂ ∧ Added owner work (asText name) file object b db db₂ := by
  have hstorable : storable (asText name) = true := (Bool.and_eq_true _ _ ▸ hfile).2
  obtain ⟨hnew, hrows, heq⟩ := insertDraft_rows h
  have hmem := shortcutDraft_mem h
  let asset := attachedAsset owner (asText name) file object b.sourceFresh.assetId b.attached
  have hassets : db₁.assets = db.assets := by rw [heq]
  have hdraftSources : db₁.draftSources = db.draftSources := by rw [heq]
  obtain ⟨assets, hinsert⟩ : ∃ assets, db₁.assets.insert? asset = some assets := by
    apply Table.exists_insert?
    rw [hassets]
    exact hworks.asset_new
  obtain ⟨draftSources, hsource⟩ : ∃ draftSources,
      db₁.draftSources.insert? ⟨b.fresh.id, b.sourceFresh.assetId⟩ = some draftSources := by
    apply Table.exists_insert?
    rw [hdraftSources]
    intro x hx hkey
    obtain ⟨o, d, hd, hid, -⟩ := Db.hasDraft_iff.mp (hworks.sources x hx)
    apply hnew d hd
    rw [hid, hkey]
  have hasset : db₁.insertAsset asset = .ok { db₁ with assets := assets } := by
    apply Db.insertAsset_eq_ok.mpr
    refine ⟨?_, assets, hinsert, rfl⟩
    rw [hassets]
    exact hworks.key_new
  have hdraft : Db.hasDraft { db₁ with assets := assets } b.fresh.id = true :=
    Db.hasDraft_iff.mpr ⟨owner, shortcutDraft owner work b, hmem, rfl, rfl⟩
  have hhas : Db.hasAsset { db₁ with assets := assets } b.sourceFresh.assetId = true :=
    Db.hasAsset_iff.mpr ⟨owner, asset, (Table.mem_insert? hinsert).mpr (Or.inr rfl), rfl, rfl⟩
  have hlink : Db.insertDraftSource { db₁ with assets := assets }
      ⟨b.fresh.id, b.sourceFresh.assetId⟩ =
        .ok { db₁ with assets := assets, draftSources := draftSources } :=
    Db.insertDraftSource_eq_ok.mpr ⟨⟨hdraft, hhas⟩, draftSources, hsource, rfl⟩
  have hwrites : attachWrites owner ⟨shortcutDraft owner work b, [], s.importLimit⟩ (asText name)
      file object b.sourceFresh b.attached db₁ =
        .ok (Db.updateDraft { db₁ with assets := assets, draftSources := draftSources } b.fresh.id
          (savedDraft (attachedMetadata (shortcutDraft owner work b).metadata (asText name))
            (attachedManifest ⟨1, []⟩ b.sourceFresh file.pages) b.attached)) :=
    bind_eq_ok.mpr ⟨_, hasset, bind_eq_ok.mpr ⟨_, hlink, rfl⟩⟩
  refine ⟨_, storeSource_eq_ok.mpr ⟨hwrites, ⟨hfile,
    attachedMetadata_storable hstorable hmetadata⟩,
    hworks.attaches⟩, ⟨?_, ?_, ?_⟩⟩
  · simp only [Db.updateDraft_drafts, Table.modify, hrows, List.map_append, List.map_cons,
      List.map_nil]
    congr 1
    · conv_rhs => rw [← List.map_id db.drafts.rows]
      apply List.map_congr_left
      intro d hd
      simp [hnew d hd]
    · simp [filedDraft, shortcutDraft, startedDraft]
  · intro a
    rw [Db.updateDraft_assets, Table.mem_insert? hinsert, hassets]
  · intro x
    rw [Db.updateDraft_draftSources, Table.mem_insert? hsource, hdraftSources]

theorem Added.draftAssets (h : Added owner work filename file object b db db')
    (hworks : Works s data b db object) : db'.draftAssets owner b.fresh.id =
      [attachedAsset owner filename file object b.sourceFresh.assetId b.attached] := by
  have hnodup : (db'.draftAssets owner b.fresh.id).Nodup := List.Nodup.of_map _ Db.nodup_draftAssets
  apply List.perm_singleton.mp
  apply (List.perm_ext_iff_of_nodup hnodup (List.nodup_singleton _)).mpr
  intro a
  rw [Db.mem_draftAssets, h.assets, h.sources, List.mem_singleton]
  constructor
  · intro ha
    obtain ⟨ha | rfl, -, hsource | hsource⟩ := ha
    · obtain ⟨o, d, hd, hid, -⟩ := Db.hasDraft_iff.mp (hworks.sources _ hsource)
      exact absurd hid (hworks.draft_new d hd)
    · exact absurd (congrArg DraftSource.assetId hsource) (hworks.asset_new a ha)
    · rfl
    · rfl
  · intro ha
    subst ha
    exact ⟨Or.inr rfl, rfl, Or.inr rfl⟩

theorem Added.mem_drafts (h : Added owner work filename file object b db db') {d : DraftRow} :
    d ∈ db'.drafts ↔ d ∈ db.drafts ∨ d = filedDraft owner work filename file b := by
  rw [← Table.mem_rows, h.drafts, List.mem_append, List.mem_singleton, Table.mem_rows]

theorem filedDraft_open : b.attached < (filedDraft owner work filename file b).updatedAt + sevenDays := by
  exact Nat.lt_add_of_pos_right (by decide : 0 < sevenDays)

theorem Added.filed (h : Added owner work filename file object b db db')
    (hworks : Works s data b db object) : Filed owner filename file object b db
      (.ok (shortcutResult (filedDraft owner work filename file b) filename), db') := by
  refine ⟨⟨_, rfl, rfl, rfl⟩, ?_, ?_, ?_, h.draftAssets hworks⟩
  · exact ⟨filedDraft owner work filename file b, h.mem_drafts.mpr (Or.inr rfl), rfl, rfl, rfl,
      filedDraft_open⟩
  · intro d hd
    rw [h.mem_drafts]
    constructor
    · intro hmem
      obtain hmem | rfl := hmem
      · exact hmem
      · exact absurd rfl hd
    · exact Or.inl
  · have hopen : b.attached < (filedDraft owner work filename file b).updatedAt + sevenDays :=
      filedDraft_open
    have hrow : (filedDraft owner work filename file b).userId = owner ∧
        (filedDraft owner work filename file b).finalized = false := ⟨rfl, rfl⟩
    simp only [Db.openDrafts, h.drafts, List.countP_append]
    simp [hrow, hopen]

end New

section Outcome

variable {object : Object}

theorem attachShortcut_ok {id : Id} {revision : Int} {size : Nat} {d : ImportDraft}
    (h : attachShortcut s owner id name revision file size b db = (.ok d, db')) :
    ∃ found object, attachChecks s owner id revision size b.attached db = .ok found ∧
      b.object = some object ∧
      storeSource owner found name file object b db = .ok db' := by
  unfold attachShortcut at h
  split at h
  · simp at h
  rename_i found hfound
  split at h
  · simp at h
  rename_i object hobject
  split at h
  · simp at h
  rename_i stored hstored
  obtain ⟨-, rfl⟩ := Prod.mk.inj h
  exact ⟨found, object, hfound, hobject, hstored⟩

theorem shortcutImport_ok {r : ShortcutImport}
    (h : shortcutImport s owner bytes data search b db = (.ok r, db')) :
    ∃ file db₁ d attached, readPDF s data = .ok file ∧
      createShortcut owner (search.work bytes) b db = .ok db₁ ∧
      readDraft s b.readsNew owner b.fresh.id b.created db₁ = .ok d ∧
      attachShortcut s owner d.row.id (runes bytes) d.row.revision file data.length b db₁ =
        (.ok attached, db') := by
  unfold shortcutImport at h
  split at h
  · simp at h
  rename_i file hfile
  split at h
  · simp at h
  rename_i db₁ hcreate
  split at h
  · simp at h
  rename_i d hd
  split at h
  · simp at h
  rename_i attached db₂ hattach
  obtain ⟨-, rfl⟩ := Prod.mk.inj h
  exact ⟨file, db₁, d, attached, hfile, hcreate, hd, hattach⟩

theorem readDraft_new {db₁ : Db} (h : db.insertDraft (shortcutDraft owner work b) = .ok db₁)
    {d : ImportDraft} (hd : readDraft s b.readsNew owner b.fresh.id b.created db₁ = .ok d) :
    d.row = shortcutDraft owner work b := by
  obtain ⟨-, ⟨hmem, hid, -⟩, -⟩ := readDraft_eq_ok.mp hd
  exact Table.eq_of_key hmem (shortcutDraft_mem h) hid

theorem work_fits_iff : ((sourceOf (search.work bytes) = [] ∨
      isWorkLink (sourceOf (search.work bytes)) = true) ∧
    (newMetadata (sourceOf (search.work bytes)) (search.work bytes)).storable = true) ↔
      ∀ w, search.Finds bytes w → w.1.Fits := by
  cases hwork : search.work bytes with
  | none =>
    refine iff_of_true ⟨Or.inl rfl, by decide⟩ ?_
    intro w hw
    have hsome := FileSearch.work_eq_some.mpr ⟨w, hw, rfl⟩
    rw [hwork] at hsome
    cases hsome
  | some found =>
    obtain ⟨w, hw, rfl⟩ := FileSearch.work_eq_some.mp hwork
    have hurl : sourceOf (some w.1) = w.1.url := rfl
    have hlink : (w.1.url = [] ∨ isWorkLink w.1.url = true) ↔ GoString.len w.1.url ≤ 2000 := by
      rw [FoundWork.isWorkLink]
      refine or_iff_right_of_imp ?_
      intro hnil
      simp [hnil, GoString.len]
    rw [hurl, hlink, newMetadata_storable]
    constructor
    · intro h w' hw'
      obtain ⟨hlen, htitle, hcomposer⟩ := h
      have hsame := FileSearch.work_eq_some.mpr ⟨w', hw', rfl⟩
      rw [hwork] at hsame
      rw [← Option.some.inj hsame]
      exact ⟨hlen, htitle, hcomposer⟩
    · intro h
      have hfits := h w hw
      exact ⟨hfits.url, hfits.title, hfits.composer⟩

theorem shortcutImport_filed (hpdf : readPDF s data = .ok file)
    (hopen : db.openDrafts owner b.created < maxOpenDrafts) (hworks : Works s data b db object)
    (hsize : data.length ≤ 200 * 2 ^ 20) (hfile : storableString (runes bytes) = true)
    (hfits : ∀ w, search.Finds bytes w → w.1.Fits) :
    Filed owner (asText (runes bytes)) file object b db
      (shortcutImport s owner bytes data search b db) := by
  obtain ⟨hlink, hstorable⟩ := work_fits_iff.mpr hfits
  obtain ⟨drafts, hinsert⟩ := Table.exists_insert? (t := db.drafts)
    (r := shortcutDraft owner (search.work bytes) b) hworks.draft_new
  have hdraft : db.insertDraft (shortcutDraft owner (search.work bytes) b) =
      .ok { db with drafts := drafts } := by
    refine Db.insertDraft_eq_ok.mpr ⟨?_, drafts, hinsert, rfl⟩
    intro id hid
    cases hid
  have hcreate := createShortcut_eq_ok.mpr ⟨hlink, hopen, hstorable, hdraft⟩
  have hread : readDraft s b.readsNew owner b.fresh.id b.created { db with drafts := drafts } =
      .ok ⟨shortcutDraft owner (search.work bytes) b, [], s.importLimit⟩ := by
    refine readDraft_eq_ok.mpr ⟨hworks.readsNew, ⟨shortcutDraft_mem hdraft, rfl, rfl, ?_⟩, ?_, rfl⟩
    · exact Nat.lt_add_of_pos_right (by decide : 0 < sevenDays)
    · exact (draftAssets_new hdraft hworks.sources).symm
  have hchecks := (attachChecks_new hdraft hworks).mpr hsize
  obtain ⟨db₂, hstore, hadded⟩ := storeSource_new hdraft hworks hstorable hfile
  have hreread : readDraft s b.readsAttached owner b.fresh.id b.attached db₂ =
      .ok ⟨filedDraft owner (search.work bytes) (asText (runes bytes)) file b,
        db₂.draftAssets owner b.fresh.id, s.importLimit⟩ :=
    readDraft_eq_ok.mpr ⟨hworks.readsAttached, ⟨hadded.mem_drafts.mpr (Or.inr rfl), rfl, rfl,
      filedDraft_open⟩, rfl, rfl⟩
  have hattach : attachShortcut s owner b.fresh.id (runes bytes) 0 file data.length b
      { db with drafts := drafts } =
        (.ok ⟨filedDraft owner (search.work bytes) (asText (runes bytes)) file b,
          db₂.draftAssets owner b.fresh.id, s.importLimit⟩, db₂) := by
    simp only [attachShortcut, hchecks, hworks.saved, hstore, hreread]
  have hresult : shortcutImport s owner bytes data search b db =
      (.ok (shortcutResult (filedDraft owner (search.work bytes) (asText (runes bytes)) file b)
        (asText (runes bytes))), db₂) := by
    simp only [shortcutImport, hpdf, hcreate, hread]
    rw [show (shortcutDraft owner (search.work bytes) b).id = b.fresh.id from rfl,
      show ((shortcutDraft owner (search.work bytes) b).revision : Int) = 0 from rfl, hattach]
  rw [hresult]
  exact hadded.filed hworks

theorem filed_iff (hpdf : readPDF s data = .ok file)
    (hopen : db.openDrafts owner b.created < maxOpenDrafts) (hworks : Works s data b db object) :
    Filed owner (asText (runes bytes)) file object b db
        (shortcutImport s owner bytes data search b db) ↔
      data.length ≤ 200 * 2 ^ 20 ∧ storableString (runes bytes) = true ∧
        ∀ w, search.Finds bytes w → w.1.Fits := by
  constructor
  · intro h
    obtain ⟨r, hr, -⟩ := h.ok
    obtain ⟨file', db₁, d, attached, hfile', hcreate, hd, hattach⟩ :=
      shortcutImport_ok (Prod.ext hr rfl)
    obtain ⟨hlink, -, hstorable, hinsert⟩ := createShortcut_eq_ok.mp hcreate
    obtain ⟨found, object', hchecks, -, hstore⟩ := attachShortcut_ok hattach
    obtain ⟨-, ⟨hfile, -⟩, -⟩ := storeSource_eq_ok.mp hstore
    obtain ⟨-, -, hsize⟩ := attachChecks_eq_ok.mp hchecks
    refine ⟨?_, hfile, work_fits_iff.mp ⟨hlink, hstorable⟩⟩
    omega
  · intro h
    exact shortcutImport_filed hpdf hopen hworks h.1 h.2.1 h.2.2

end Outcome

section Removal

def Removable (owner id : Id) (db : Db) : Prop :=
  ∃ d ∈ db.drafts, d.id = id ∧ d.userId = owner ∧ d.finalized = false

theorem attachWrites_removable {id : Id} {d : ImportDraft} {object : Object}
    (h : attachWrites owner d filename file object b.sourceFresh b.attached db = .ok db')
    (hdb : Removable owner id db) : Removable owner id db' := by
  simp only [attachWrites, bind_eq_ok, pure_eq_ok, Except.ok.injEq] at h
  obtain ⟨db₁, hasset, db₂, hsource, rfl⟩ := h
  obtain ⟨-, assets, -, rfl⟩ := Db.insertAsset_eq_ok.mp hasset
  obtain ⟨-, draftSources, -, rfl⟩ := Db.insertDraftSource_eq_ok.mp hsource
  obtain ⟨row, hrow, hid, howner, hopen⟩ := hdb
  refine ⟨_, Db.mem_updateDraft.mpr ⟨row, hrow, rfl⟩, ?_⟩
  split_ifs
  · exact ⟨hid, howner, hopen⟩
  · exact ⟨hid, howner, hopen⟩

theorem attachShortcut_removable {id : Id} {revision : Int} {size : Nat} (hdb : Removable owner id db) :
    Removable owner id (attachShortcut s owner id name revision file size b db).2 := by
  unfold attachShortcut
  split
  · exact hdb
  split
  · exact hdb
  split
  · exact hdb
  · rename_i stored hstored
    exact attachWrites_removable (storeSource_eq_ok.mp hstored).1 hdb

theorem removeShortcut_gone {id : Id} (hremoves : b.removes = true) (hdb : Removable owner id db) :
    ∀ d ∈ (removeShortcut owner id b db).drafts, d.id ≠ id := by
  obtain ⟨row, hrow, hid, howner, hopen⟩ := hdb
  have hdelete : deleteImport owner id b.removed db =
      .ok ((db.deleteDrafts fun d => d.id == id && d.userId == owner).collectOrphans b.removed) :=
    bind_eq_ok.mpr ⟨row, demand_eq_ok.mpr (Db.draft?_eq_some.mpr ⟨hrow, hid, howner⟩),
      bind_eq_ok.mpr ⟨⟨⟩, refuse_of_not (by simp [hopen]), rfl⟩⟩
  simp only [removeShortcut, hdelete, hremoves, if_true, Db.collectOrphans_drafts,
    Db.deleteDrafts_drafts, Table.mem_delete]
  intro d hd heq
  obtain ⟨hd, hkept⟩ := hd
  obtain rfl := Table.eq_of_key hd hrow (heq.trans hid.symm)
  simp [heq, howner] at hkept

/-- After a failure the draft is gone, unless the call could not read it after its
own transaction. -/
theorem shortcutImport_gone_iff {db₁ : Db} (hpdf : readPDF s data = .ok file)
    (hcreate : createShortcut owner (search.work bytes) b db = .ok db₁)
    (hremoves : b.removes = true)
    (hfailed : (shortcutImport s owner bytes data search b db).1.isOk = false) :
    (∀ d ∈ (shortcutImport s owner bytes data search b db).2.drafts, d.id ≠ b.fresh.id) ↔
      b.readsNew = true := by
  obtain ⟨-, -, -, hinsert⟩ := createShortcut_eq_ok.mp hcreate
  have hmem := shortcutDraft_mem hinsert
  constructor
  · intro h
    by_contra hreads
    have hread : readDraft s b.readsNew owner b.fresh.id b.created db₁ = .error .database := by
      rw [Bool.not_eq_true] at hreads
      rw [readDraft, hreads]
      rfl
    simp only [shortcutImport, hpdf, hcreate, hread] at h
    exact h _ hmem rfl
  · intro hreads
    have hread : ∃ d, readDraft s b.readsNew owner b.fresh.id b.created db₁ = .ok d :=
      ⟨⟨shortcutDraft owner (search.work bytes) b, _, _⟩, readDraft_eq_ok.mpr ⟨hreads,
        ⟨hmem, rfl, rfl, Nat.lt_add_of_pos_right (by decide : 0 < sevenDays)⟩, rfl, rfl⟩⟩
    obtain ⟨d, hd⟩ := hread
    have hrow := readDraft_new hinsert hd
    have hremovable : Removable owner b.fresh.id db₁ := ⟨_, hmem, rfl, rfl, rfl⟩
    have hid : d.row.id = b.fresh.id := by rw [hrow]; rfl
    have hattached : Removable owner b.fresh.id (attachShortcut s owner b.fresh.id (runes bytes)
        d.row.revision file data.length b db₁).2 := attachShortcut_removable hremovable
    rw [← hid] at hattached ⊢
    simp only [shortcutImport, hpdf, hcreate, hd] at hfailed ⊢
    generalize attachShortcut s owner d.row.id (runes bytes) d.row.revision file data.length b db₁ =
      outcome at hattached hfailed ⊢
    obtain ⟨result, db₂⟩ := outcome
    cases result with
    | ok attached => cases hfailed
    | error e => exact removeShortcut_gone hremoves hattached

end Removal

/-- Send to Noted files a PDF exactly when the PDF is at most 200 MiB, its name is UTF-8
without U+0000, and the work that IMSLP names, if it names one, has a link of at most
2000 bytes and no U+0000 in what the draft takes from it. A failure after the draft
was made deletes it, unless the failure is that the call cannot read its new draft. -/
theorem shortcutImport_files (s : Service) (owner : Id) (filename data : Bytes)
    (search : FileSearch) (b : Backend) (db : Db) :
    (∀ file object, readPDF s data = .ok file → db.openDrafts owner b.created < maxOpenDrafts →
      Works s data b db object →
      (Filed owner (asText (runes filename)) file object b db
          (shortcutImport s owner filename data search b db) ↔
        data.length ≤ 200 * 2 ^ 20 ∧ (∃ name, filename = utf8 name ∧ storable name = true) ∧
          ∀ w, search.Finds filename w → w.1.Fits)) ∧
    ∀ file db₁, readPDF s data = .ok file →
      createShortcut owner (search.work filename) b db = .ok db₁ → b.removes = true →
      (shortcutImport s owner filename data search b db).1.isOk = false →
      ((∀ d ∈ (shortcutImport s owner filename data search b db).2.drafts, d.id ≠ b.fresh.id) ↔
        b.readsNew = true) := by
  refine ⟨?_, ?_⟩
  · intro file object hpdf hopen hworks
    rw [← storableString_runes]
    exact filed_iff hpdf hopen hworks
  · intro file db₁ hpdf hcreate hremoves hfailed
    exact shortcutImport_gone_iff hpdf hcreate hremoves hfailed

section Sent

def plainSearch (location : Text) : FileSearch :=
  ⟨defaults, ⟨86400, 100⟩, ⟨0, false, 0, false⟩, [],
    ⟨1, 2, true, .response 302 (utf8 location) 0⟩⟩

def plainBackend : Backend where
  created := 10
  attached := 20
  removed := 30
  fresh := plainFresh 1
  sourceFresh := plainFresh 2
  object := some (plainObject 7)
  readsNew := true
  attaches := true
  readsAttached := true
  removes := true

theorem plainBackend_works :
    Works plainService plainPDF plainBackend emptyLibrary.db (plainObject 7) := by
  constructor <;> simp [plainBackend, emptyLibrary, plainObject, sevenDays]

def sentName : Text := "IMSLP01240-Debussy.pdf".toList

def clairDeLune : Text := "//imslp.org/wiki/Clair_de_lune_(Debussy,_Claude)#IMSLP01240".toList

theorem shortcutImport_files_debussy :
    Filed 1 sentName ⟨.pdf, 1, 0, 0⟩ (plainObject 7) plainBackend emptyLibrary.db
        (shortcutImport plainService 1 (utf8 sentName) plainPDF (plainSearch clairDeLune)
          plainBackend emptyLibrary.db) ∧
      ∀ d ∈ (shortcutImport plainService 1 (utf8 sentName) plainPDF (plainSearch clairDeLune)
        { plainBackend with object := none } emptyLibrary.db).2.drafts, d.id ≠ 2 := by
  refine ⟨?_, ?_⟩
  · have hname : asText (runes (utf8 sentName)) = sentName := by rw [runes_utf8, asText_goString]
    rw [← hname]
    refine ((shortcutImport_files plainService 1 (utf8 sentName) plainPDF (plainSearch clairDeLune)
      plainBackend emptyLibrary.db).1 ⟨.pdf, 1, 0, 0⟩ (plainObject 7) (by decide +kernel)
      (by decide +kernel) plainBackend_works).mpr ?_
    refine ⟨by decide, ⟨sentName, rfl, by decide +kernel⟩, ?_⟩
    intro w hw
    have hfound : (plainSearch clairDeLune).work (utf8 sentName) =
        some ⟨goString "Clair de lune".toList, goString "Debussy, Claude".toList,
          goString "https://imslp.org/wiki/Clair_de_lune_(Debussy,_Claude)".toList⟩ := by
      decide +kernel
    have hsame := FileSearch.work_eq_some.mpr ⟨w, hw, rfl⟩
    rw [hfound] at hsame
    rw [← Option.some.inj hsame]
    constructor <;> decide +kernel
  · obtain ⟨db₁, hcreate⟩ : ∃ db₁, createShortcut 1 ((plainSearch clairDeLune).work (utf8 sentName))
        { plainBackend with object := none } emptyLibrary.db = .ok db₁ := by
      cases hcreate : createShortcut 1 ((plainSearch clairDeLune).work (utf8 sentName))
        { plainBackend with object := none } emptyLibrary.db with
      | ok db₁ => exact ⟨db₁, rfl⟩
      | error e =>
        have hok : (createShortcut 1 ((plainSearch clairDeLune).work (utf8 sentName))
          { plainBackend with object := none } emptyLibrary.db).isOk = true := by decide +kernel
        rw [hcreate] at hok
        cases hok
    exact ((shortcutImport_files plainService 1 (utf8 sentName) plainPDF (plainSearch clairDeLune)
      { plainBackend with object := none } emptyLibrary.db).2 ⟨.pdf, 1, 0, 0⟩ db₁
      (by decide +kernel) hcreate rfl (by decide +kernel)).mpr rfl

/-- A redirect to a work whose title is 500 clefs is refused as the new draft's link. -/
theorem not_shortcutImport_files :
    ∃ location, (readPDF plainService plainPDF = .ok ⟨.pdf, 1, 0, 0⟩ ∧
      emptyLibrary.db.openDrafts 1 plainBackend.created < maxOpenDrafts ∧
      Works plainService plainPDF plainBackend emptyLibrary.db (plainObject 7)) ∧
      ¬ Filed 1 sentName ⟨.pdf, 1, 0, 0⟩ (plainObject 7) plainBackend emptyLibrary.db
        (shortcutImport plainService 1 (utf8 sentName) plainPDF (plainSearch location) plainBackend
          emptyLibrary.db) := by
  refine ⟨"/wiki/".toList ++ List.replicate 500 '𝄞' ++ "_(Last,_First)".toList,
    ⟨by decide +kernel, by decide +kernel, plainBackend_works⟩, ?_⟩
  intro h
  obtain ⟨r, hr, -⟩ := h.ok
  have hfailed : (shortcutImport plainService 1 (utf8 sentName) plainPDF (plainSearch
      ("/wiki/".toList ++ List.replicate 500 '𝄞' ++ "_(Last,_First)".toList)) plainBackend
        emptyLibrary.db).1.isOk = false := by decide +kernel
  rw [hr] at hfailed
  cases hfailed

end Sent

end Noted
