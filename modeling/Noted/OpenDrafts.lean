import Noted.Manifests
import Noted.Rows

/-!
# Open drafts can be saved (internal/app/imports.go)

A draft keeps what `updateImport` asks of it, so that saving what it already holds is
not refused. Its manifest and the rows of its sources are in different tables: what
every step leaves to the drafts that are still open is one relation between the tables
before and after.
-/

namespace Noted

open Library Db

variable {s : Service} {owner id : Id} {now : Time} {fresh : Fresh} {db db' : Db} {σ σ' : Sys}
  {e : Event} {r : Response}

namespace Db

def assetOf (db : Db) (id : Id) : Option AssetRow := db.assets.find? fun a => a.id == id

theorem assetOf_eq_some {a : AssetRow} : db.assetOf id = some a ↔ a ∈ db.assets ∧ a.id = id := by
  rw [assetOf, Table.find?_eq_some (k := id) (by simp)]
  simp

/-- Open drafts keep their sources, and an asset that is in use stays. -/
structure Retains (db db' : Db) : Prop where
  sources : ∀ x ∈ db.draftSources, ∀ d ∈ db'.drafts, d.id = x.draftId → d.finalized = false →
    x ∈ db'.draftSources
  assets : ∀ a ∈ db.assets, db'.orphan a = false → a ∈ db'.assets

section Retains

variable {mid : Db}

theorem Retains.of_subset (hsources : ∀ x ∈ db.draftSources, x ∈ db'.draftSources)
    (hassets : ∀ a ∈ db.assets, a ∈ db'.assets) : Retains db db' :=
  ⟨fun x hx _ _ _ _ => hsources x hx, fun a ha _ => hassets a ha⟩

theorem Retains.same (hsources : db'.draftSources = db.draftSources)
    (hassets : db'.assets = db.assets) : Retains db db' := by
  refine ⟨?_, ?_⟩
  · intro x hx d _ _ _
    rwa [hsources]
  · intro a ha _
    rwa [hassets]

theorem orphan_collectOrphans {a : AssetRow} : (db.collectOrphans now).orphan a = db.orphan a := by
  rw [Bool.eq_iff_iff, orphan_iff, orphan_iff, collectOrphans_draftSources,
    collectOrphans_pieceSources]

theorem Retains.collectOrphans (h : Retains db db') (now : Time) :
    Retains db (db'.collectOrphans now) := by
  refine ⟨?_, ?_⟩
  · intro x hx d hd
    rw [collectOrphans_drafts] at hd
    rw [collectOrphans_draftSources]
    exact h.sources x hx d hd
  · intro a ha hused
    rw [orphan_collectOrphans] at hused
    rw [collectOrphans_assets, Table.mem_delete]
    exact ⟨h.assets a ha hused, hused⟩

theorem Retains.queueOld (h : Retains db db') (now : Time) (old : Option PdfRow) :
    Retains db (db'.queueOld now old) := by
  obtain ⟨queue, heq⟩ := queueOld_eq db' now old
  rw [heq]
  exact ⟨h.sources, h.assets⟩

theorem deleteDrafts_retains (gone : DraftRow → Bool) : Retains db (db.deleteDrafts gone) := by
  refine ⟨?_, fun a ha _ => ha⟩
  intro x hx d hd hid _
  obtain ⟨hmem, hkept⟩ := Table.mem_delete.mp hd
  refine Table.mem_delete.mpr ⟨hx, List.any_eq_false.mpr ?_⟩
  intro d' hd'
  rw [Bool.and_eq_true, beq_iff_eq, not_and]
  intro hgone hid'
  rw [Table.eq_of_key hd' hmem (hid'.trans hid.symm), hkept] at hgone
  cases hgone

theorem deletePieces_retains (gone : PieceRow → Bool) : Retains db (db.deletePieces gone) := by
  have hdrafts : Retains db (db.deleteDrafts fun d =>
      d.pieceId.any fun i => db.pieces.rows.any fun p => gone p && p.id == i) :=
    deleteDrafts_retains _
  exact ⟨hdrafts.sources, fun a ha _ => ha⟩

end Retains

end Db

section Steps

theorem Starts.assets {input : CreateImport} {work : Option IMSLPWork} {start : DraftStart}
    (h : Starts owner input work fresh now db start db') : ∀ a ∈ db.assets, a ∈ db'.assets := by
  intro a ha
  cases h with
  | legacy p hp howner f hf hpdf hcount db₁ hinsert =>
    obtain ⟨-, assets, hassets, rfl⟩ := insertAsset_eq_ok.mp hinsert
    exact (Table.mem_insert? hassets).mpr (Or.inl ha)
  | _ => exact ha

theorem createImport_retains {input : CreateImport} {work : Option IMSLPWork}
    (h : createImport owner input work fresh now db = .ok db') : Retains db db' := by
  obtain ⟨-, -, start, db₁, db₂, draftSources, hstart, hinsert, hsources, -, rfl⟩ :=
    createImport_ok h
  have hassets := hstart.assets
  obtain ⟨-, drafts, -, rfl⟩ := insertDraft_eq_ok.mp hinsert
  obtain ⟨assets, rfl⟩ := hstart.frame
  apply Retains.of_subset
  · intro x hx
    exact (hsources x).mpr (Or.inl hx)
  · exact hassets

theorem attachSource_retains {filename : Text} {revision : Int} {file : ImportBytes}
    {object : Object}
    (h : attachSource s owner id filename revision file object fresh now db = .ok db') :
    Retains db db' := by
  obtain ⟨d, -, -, -, db₁, db₂, hasset, hsource, rfl⟩ := attachSource_ok h
  obtain ⟨-, assets, hassets, rfl⟩ := insertAsset_eq_ok.mp hasset
  obtain ⟨-, draftSources, hsources, rfl⟩ := insertDraftSource_eq_ok.mp hsource
  apply Retains.of_subset
  · intro x hx
    exact (Table.mem_insert? hsources).mpr (Or.inl hx)
  · intro a ha
    exact (Table.mem_insert? hassets).mpr (Or.inl ha)

theorem finalizeWrites_retains {plan : FinalizePlan} {object : Object} {newId : Id}
    {result : FinalizeResult}
    (h : finalizeWrites s owner plan object newId now db = .ok (db', result)) : Retains db db' := by
  obtain ⟨pieceId, db₁, hsave, rfl, -⟩ := finalizeWrites_ok h
  obtain ⟨db₀, pieceSources, htarget, -, -, -, rfl⟩ := savePiece_ok hsave
  obtain ⟨pieces, rfl⟩ := finalizeTarget_tables htarget
  apply Retains.queueOld
  apply Retains.collectOrphans
  refine ⟨?_, fun a ha _ => ha⟩
  intro x hx d hd hid hopen
  refine Table.mem_delete.mpr ⟨hx, ?_⟩
  rw [beq_eq_false_iff_ne]
  rintro hdraft
  obtain ⟨c, hc, rfl⟩ := mem_updateDraft.mp hd
  split at hopen
  · cases hopen
  · rename_i hne
    rw [if_neg hne] at hid
    exact hne (hid.trans hdraft)

theorem Rewrites.retains {R : PieceRow → PieceRow → Prop} (h : Rewrites R db db') :
    Retains db db' := by
  obtain ⟨f, pieces, v, rfl, -⟩ := h
  exact .same rfl rfl

theorem Call.retains {c : Call} (h : c.run s fresh now db = .ok db') : Retains db db' := by
  have hediting : Editing s now fun _ _ => True :=
    ⟨by simp, by simp, by simp, by simp, by simp, by simp⟩
  cases c with
  | createImport owner input work => exact createImport_retains h
  | updateImport owner id input =>
    obtain ⟨d, -, -, -, -, rfl⟩ := updateImport_ok.mp h
    exact .same rfl rfl
  | deleteImport owner id =>
    obtain ⟨d, -, -, -, rfl⟩ := deleteImport_ok h
    exact (deleteDrafts_retains _).collectOrphans now
  | createPiece owner input =>
    obtain ⟨validated, -, -, hinsert⟩ := createPiece_ok h
    obtain ⟨pieces, -, rfl⟩ := insertPiece_eq_ok.mp hinsert
    exact .same rfl rfl
  | updatePiece owner id patch => exact (updatePiece_rewrites hediting h).retains
  | deletePiece owner id =>
    obtain ⟨-, rfl⟩ := deletePiece_ok h
    exact ((deletePieces_retains _).collectOrphans now).queueOld now _
  | putReaderState owner id state =>
    obtain ⟨-, rfl⟩ := putReader_eq_ok.mp (putReaderState_ok h).2
    exact .same rfl rfl
  | mergeComposers owner input =>
    obtain ⟨⟨_, preview⟩, hmerge, rfl⟩ := map_eq_ok.mp h
    exact (mergeComposers_rewrites hediting hmerge).retains
  | repairComposerKeys =>
    obtain rfl : Noted.repairComposerKeys s db = db' := by simpa [Call.run] using h
    exact (repairComposerKeys_rewrites hediting db).retains
  | refoldSearchText force => exact (refoldSearchText_rewrites hediting h).retains

theorem Sys.Stepped.retains (h : Sys.Stepped s σ e r σ') : Retains σ.db σ'.db := by
  cases h with
  | callDone c fresh db hfresh hrun => exact Call.retains hrun
  | attached f fresh id filename revision file db hf hfresh hupload hrun =>
    exact attachSource_retains hrun
  | finalized f fresh id revision data plan db result hf hfresh hupload hplan hrun =>
    exact finalizeWrites_retains hrun
  | expired => exact (deleteDrafts_retains _).collectOrphans σ.clock
  | _ => exact .same rfl rfl

end Steps

section Savable

variable {sources : List AssetRow} {m : DraftMetadata} {t : Text}

structure Savable (m : DraftMetadata) : Prop where
  valid : (trimPiece (titled m.input)).Valid
  status : m.input.status = none
  opus : m.input.opus = []
  musicKey : m.input.musicKey = []
  aliases : m.input.aliases = []
  owned : validateIMSLPAutoFill m.input m.provenance = .ok ⟨⟩

theorem titled_eq (m : PieceInput) : titled m = { m with title := (titled m).title } := by
  unfold titled
  split <;> rfl

theorem updateChecks_eq_ok {input : UpdateImport} {base : Option PieceInput} {u : Unit} :
    updateChecks s sources input = .ok u ↔
      input.manifest.Valid s.validUUID (assetsOf sources) ∧
        Savable ⟨input.metadata, input.imslpAutoFill, base⟩ := by
  have htitled := titled_eq input.metadata
  have hstatus : (titled input.metadata).status = input.metadata.status := by rw [htitled]
  have hopus : (titled input.metadata).opus = input.metadata.opus := by rw [htitled]
  have hkey : (titled input.metadata).musicKey = input.metadata.musicKey := by rw [htitled]
  have haliases : (titled input.metadata).aliases = input.metadata.aliases := by rw [htitled]
  simp only [updateChecks, bind_eq_ok, refuse_eq_ok, exists_const, validateManifest_eq_ok,
    validatePiece_eq_ok, hstatus, hopus, hkey, haliases, not_or, ne_eq, not_not]
  constructor
  · intro h
    obtain ⟨⟨hmanifest, -⟩, _, ⟨-, hvalid⟩, hstatus, ⟨hopus, hkey⟩, haliases, howned⟩ := h
    exact ⟨hmanifest, hvalid, hstatus, hopus, hkey, haliases, howned⟩
  · intro h
    obtain ⟨hmanifest, hvalid, hstatus, hopus, hkey, haliases, howned⟩ := h
    exact ⟨⟨hmanifest, Or.inl trivial⟩, _, ⟨rfl, hvalid⟩, hstatus, ⟨hopus, hkey⟩, haliases, howned⟩

theorem titled_title (title : Text) (m : PieceInput) (htitle : byteLen title ≤ 300) :
    trimSpace (titled { m with title := title }).title ≠ [] ∧
      byteLen (trimSpace (titled { m with title := title }).title) ≤ 300 := by
  unfold titled
  split
  · simp only
    decide
  · rename_i hne
    exact ⟨hne, (byteLen_trimSpace_le title).trans htitle⟩

theorem titled_valid {input : PieceInput} (h : (trimPiece (titled input)).Valid)
    (ht : byteLen t ≤ 300) : (trimPiece (titled { input with title := t })).Valid := by
  obtain ⟨hne, hlength⟩ := titled_title t input ht
  rw [titled_eq input] at h
  rw [titled_eq]
  exact ⟨h.opus, h.musicKey, hne, hlength, h.composer, h.sourceURL, h.listeningURL, h.notes,
    h.aliases, h.status⟩

theorem draftInput_savable {p : PieceRow} {base : Option PieceInput}
    (h : (trimPiece p.draftInput).Valid) :
    Savable ⟨p.draftInput, ⟨none, none, false, false⟩, base⟩ := by
  have htitled : titled p.draftInput = p.draftInput := if_neg h.title_ne
  refine ⟨?_, rfl, rfl, rfl, rfl, rfl⟩
  rw [htitled]
  exact h

theorem byteLen_getD {o : Option Text} {bound : Nat} (h : ∀ text ∈ o, byteLen text ≤ bound) :
    byteLen (o.getD []) ≤ bound := by
  cases o with
  | none => exact Nat.zero_le bound
  | some text => exact h text rfl

def savableName (value : GoString) : Bool := decide (300 < value.len) || byteLen (asText value) ≤ 300

def savableLink (value : GoString) : Bool :=
  byteLen (trimSpace (asText value)) ≤ 2000 && !Url.containsCTL (trimSpace (asText value))

/-- What a new draft is started with can be saved as its JSON has it. -/
def savableStart (sourceURL : GoString) (work : Option IMSLPWork) : Bool :=
  savableLink sourceURL && work.all fun w => savableName w.title && savableName w.composer

theorem prefilled_fits_iff {value : GoString} :
    (∀ text ∈ prefilled value, byteLen text ≤ 300) ↔ savableName value = true := by
  unfold prefilled savableName
  split_ifs with hle
  · simp [not_lt.mpr hle]
  · simp [not_le.mp hle]

theorem newMetadata_savable {sourceURL : GoString} {work : Option IMSLPWork}
    (hlink : sourceURL = [] ∨ isWorkLink sourceURL = true) :
    Savable (newMetadata sourceURL work) ↔ savableStart sourceURL work = true := by
  have hnames : (∀ title ∈ (newMetadata sourceURL work).provenance.title, byteLen title ≤ 300) ∧
      (∀ composer ∈ (newMetadata sourceURL work).provenance.composer, byteLen composer ≤ 300) ↔
        (work.all fun w => savableName w.title && savableName w.composer) = true := by
    cases work with
    | none => simp [newMetadata]
    | some w =>
      simp only [newMetadata, Option.bind_some, prefilled_fits_iff, Option.all_some, Bool.and_eq_true]
  have hsource : ValidURL (trimSpace (asText sourceURL)) ↔ savableLink sourceURL = true := by
    rw [savableLink, Bool.and_eq_true, decide_eq_true_eq, Bool.not_eq_true']
    obtain rfl | hwork := hlink
    · exact iff_of_true ⟨Nat.zero_le _, Or.inl rfl⟩ ⟨Nat.zero_le _, rfl⟩
    · exact validURL_workLink_iff hwork
  rw [savableStart, Bool.and_eq_true, ← hnames, ← hsource]
  have howned : validateIMSLPAutoFill (newMetadata sourceURL work).input
      (newMetadata sourceURL work).provenance = .ok ⟨⟩ ↔
        (∀ title ∈ (newMetadata sourceURL work).provenance.title, byteLen title ≤ 300) ∧
          ∀ composer ∈ (newMetadata sourceURL work).provenance.composer, byteLen composer ≤ 300 := by
    rw [validateIMSLPAutoFill_eq_ok]
    refine and_congr (forall₂_congr fun title ht => ?_) (forall₂_congr fun composer hc => ?_)
    · have hfill : title = (newMetadata sourceURL work).input.title :=
        (congrArg (fun o => o.getD []) ht).symm
      exact ⟨fun h => h.2.1, fun h => ⟨rfl, h, hfill⟩⟩
    · have hfill : composer = (newMetadata sourceURL work).input.composer :=
        (congrArg (fun o => o.getD []) hc).symm
      exact ⟨fun h => h.2.1, fun h => ⟨rfl, h, hfill⟩⟩
  have hempty : byteLen (trimSpace []) = 0 := rfl
  constructor
  · intro h
    refine ⟨?_, howned.mp h.owned⟩
    have hvalid := h.valid.sourceURL
    rw [titled_eq] at hvalid
    exact hvalid
  · intro h
    obtain ⟨hurl, htitles, hcomposers⟩ := h
    refine ⟨?_, rfl, rfl, rfl, rfl, howned.mpr ⟨htitles, hcomposers⟩⟩
    obtain ⟨hne, hlength⟩ := titled_title _ (newMetadata sourceURL work).input (byteLen_getD htitles)
    rw [titled_eq]
    refine ⟨?_, ?_, hne, hlength, ?_, hurl, ⟨?_, Or.inl rfl⟩, ?_, ?_, ?_⟩
    · exact hempty.trans_le (by omega)
    · exact hempty.trans_le (by omega)
    · exact (byteLen_trimSpace_le _).trans (byteLen_getD hcomposers)
    · exact hempty.trans_le (by omega)
    · exact hempty.trans_le (by omega)
    · exact hempty.trans_le (by omega)
    · intro status hs
      cases hs

-- 101 bytes that are no text are taken, and are 303 bytes as JSON
example : savableName (List.replicate 101 (.byte ⟨0xFF, by decide⟩)) = false := by decide +kernel

theorem attachedMetadata_savable {filename : Text} (h : Savable m) (hname : byteLen filename ≤ 255) :
    Savable (attachedMetadata m filename) := by
  unfold attachedMetadata
  split
  · rename_i hfallback
    have htitle : byteLen (fileTitle filename) ≤ 300 := by
      unfold fileTitle
      split
      · have htake := byteLen_le_of_sublist (List.take_sublist (filename.length - 4) filename)
        omega
      · omega
    refine ⟨titled_valid h.valid htitle, h.status, h.opus, h.musicKey, h.aliases, ?_⟩
    obtain ⟨-, hcomposer⟩ := validateIMSLPAutoFill_eq_ok.mp h.owned
    refine validateIMSLPAutoFill_eq_ok.mpr ⟨?_, hcomposer⟩
    intro title ht
    obtain rfl : fileTitle filename = title := by simpa using ht
    exact ⟨hfallback.2, htitle, rfl⟩
  · exact h

end Savable

section Drafts

theorem Event.edits_call {c : Call} (h : ∀ owner id input, c ≠ .updateImport owner id input) :
    Event.edits (.call c fresh) = none := by
  cases c with
  | updateImport owner id input => exact absurd rfl (h owner id input)
  | _ => rfl

theorem Sys.Stepped.draft_kept (h : Sys.Stepped s σ e r σ') {d' : DraftRow}
    (hd' : d' ∈ σ'.db.drafts) (hopen : d'.finalized = false)
    (hcreate : ∀ owner input work fresh, e ≠ .call (.createImport owner input work) fresh)
    (hedits : e.edits = none ∨ r ≠ .done) : d' ∈ σ.db.drafts := by
  have hidle : ∀ p, e.edits = some p → r = .done → False := by
    intro p hp hr
    obtain hnone | hr' := hedits
    · rw [hnone] at hp
      cases hp
    · exact hr' hr
  cases h.draft_origin hd' with
  | kept hd => exact hd
  | started owner input work fresh start db he => exact absurd he (hcreate owner input work fresh)
  | updated d hd input he hr => exact (hidle _ he hr).elim
  | attached d hd f hf fresh hfresh filename revision file he hr => exact (hidle _ he hr).elim
  | finalized d hd he hunfinished pieceId htarget heq =>
    rw [heq] at hopen
    cases hopen

theorem createImport_started {input : CreateImport} {work : Option IMSLPWork}
    (h : createImport owner input work fresh now db = .ok db') {d' : DraftRow}
    (hd' : d' ∈ db'.drafts) : d' ∈ db.drafts ∨
      ∃ start db₁, Starts owner input work fresh now db start db₁ ∧
        d' = startedDraft owner start fresh.id now ∧ db'.assets = db₁.assets ∧
        (input.sourceURL = [] ∨ isWorkLink input.sourceURL = true) ∧
        ∀ assetId ∈ start.sources, (⟨d'.id, assetId⟩ : DraftSource) ∈ db'.draftSources := by
  obtain ⟨hlink, -, start, db₁, db₂, draftSources, hstart, hinsert, hsources, -, rfl⟩ :=
    createImport_ok h
  obtain ⟨-, drafts, hdrafts, rfl⟩ := insertDraft_eq_ok.mp hinsert
  obtain ⟨assets, rfl⟩ := hstart.frame
  obtain hd' | rfl := (Table.mem_insert? hdrafts).mp hd'
  · exact Or.inl hd'
  · refine Or.inr ⟨start, _, hstart, rfl, rfl, hlink, ?_⟩
    intro assetId hmem
    exact (hsources _).mpr (Or.inr ⟨assetId, hmem, rfl⟩)

theorem attachSource_attached {filename : Text} {revision : Int} {file : ImportBytes}
    {object : Object}
    (h : attachSource s owner id filename revision file object fresh now db = .ok db') :
    attachedAsset owner filename file object fresh.assetId now ∈ db'.assets ∧
      (⟨id, fresh.assetId⟩ : DraftSource) ∈ db'.draftSources := by
  obtain ⟨d, -, -, -, db₁, db₂, hasset, hsource, rfl⟩ := attachSource_ok h
  obtain ⟨-, assets, hassets, rfl⟩ := insertAsset_eq_ok.mp hasset
  obtain ⟨-, draftSources, hsources, rfl⟩ := insertDraftSource_eq_ok.mp hsource
  exact ⟨(Table.mem_insert? hassets).mpr (Or.inr rfl), (Table.mem_insert? hsources).mpr (Or.inr rfl)⟩

theorem Sys.Stepped.clock_le (h : Sys.Stepped s σ e r σ') : σ.clock ≤ σ'.clock := by
  cases h with
  | tick clock h => exact h
  | _ => exact Nat.le_refl σ.clock

theorem Sys.Stepped.open_origin (h : Sys.Stepped s σ e r σ') {d' : DraftRow}
    (hd' : d' ∈ σ'.db.drafts) (hopen : d'.finalized = false)
    (hrecent : σ'.clock < d'.updatedAt + sevenDays) :
    (∃ d ∈ σ.db.drafts, (d.userId = d'.userId ∧ d.finalized = false ∧
        σ.clock < d.updatedAt + sevenDays) ∧ d.id = d'.id) ∨
      ∃ input work fresh, e = .call (.createImport d'.userId input work) fresh ∧
        σ.db.openDrafts d'.userId σ.clock < maxOpenDrafts ∧ d'.id = fresh.id := by
  cases h.draft_origin hd' with
  | kept hd =>
    exact Or.inl ⟨d', hd, ⟨rfl, hopen, Nat.lt_of_le_of_lt h.clock_le hrecent⟩, rfl⟩
  | started owner input work fresh start db he hr hfresh hlink hcount hstart heq =>
    rw [heq]
    exact Or.inr ⟨input, work, fresh, he, hcount, rfl⟩
  | updated d hd input he hr hopen hrevision hrecent hchecks heq =>
    rw [heq]
    exact Or.inl ⟨d, hd, ⟨rfl, hopen, hrecent⟩, rfl⟩
  | attached d hd f hf fresh hfresh filename revision file he hr hupload hopen hrevision hrecent
      heq =>
    rw [heq]
    exact Or.inl ⟨d, hd, ⟨rfl, hopen, hrecent⟩, rfl⟩
  | finalized d hd he hunfinished pieceId htarget heq =>
    rw [heq] at hopen
    cases hopen

/-- Only a new draft adds to the open drafts of its owner, who has fewer than the limit. -/
theorem Sys.Stepped.openDrafts_le (h : Sys.Stepped s σ e r σ')
    (hle : σ.db.openDrafts owner σ.clock ≤ maxOpenDrafts) :
    σ'.db.openDrafts owner σ'.clock ≤ maxOpenDrafts := by
  have hcount : ∀ new : List Id, (∀ d' ∈ σ'.db.drafts, d'.userId = owner →
      d'.finalized = false → σ'.clock < d'.updatedAt + sevenDays → d'.id ∉ new →
        ∃ d ∈ σ.db.drafts, (d.userId = d'.userId ∧ d.finalized = false ∧
          σ.clock < d.updatedAt + sevenDays) ∧ d.id = d'.id) →
      σ'.db.openDrafts owner σ'.clock ≤ σ.db.openDrafts owner σ.clock + new.length := by
    intro new hold
    apply Table.countP_le
    intro d' hd' hq
    simp only [Bool.and_eq_true, beq_iff_eq, Bool.not_eq_true', decide_eq_true_eq] at hq
    obtain ⟨⟨howner, hopen⟩, hrecent⟩ := hq
    by_cases hmem : d'.id ∈ new
    · exact Or.inl hmem
    · obtain ⟨d, hd, ⟨howner', hopen', hrecent'⟩, hid⟩ := hold d' hd' howner hopen hrecent hmem
      refine Or.inr ⟨d, hd, ?_, hid⟩
      simp [howner', howner, hopen', hrecent']
  by_cases hnew : ∃ input work fresh, e = .call (.createImport owner input work) fresh ∧
      σ.db.openDrafts owner σ.clock < maxOpenDrafts
  · obtain ⟨input, work, fresh, he, hlt⟩ := hnew
    have hle' := hcount [fresh.id] (by
      intro d' hd' howner hopen hrecent hmem
      refine (h.open_origin hd' hopen hrecent).resolve_right ?_
      intro hstarted
      obtain ⟨input', work', fresh', he', -, hid⟩ := hstarted
      obtain ⟨-, rfl⟩ := Event.call.inj (he.symm.trans he')
      exact hmem (List.mem_singleton.mpr hid))
    rw [List.length_singleton] at hle'
    omega
  · have hle' := hcount [] (by
      intro d' hd' howner hopen hrecent hmem
      refine (h.open_origin hd' hopen hrecent).resolve_right ?_
      intro hstarted
      obtain ⟨input, work, fresh, he, hlt, -⟩ := hstarted
      rw [howner] at he hlt
      exact hnew ⟨input, work, fresh, he, hlt⟩)
    rw [List.length_nil] at hle'
    omega

end Drafts

section Pieces

theorem Call.saved_kept {c : Call} (h : c.run s fresh now db = .ok db') {p' : PieceRow}
    (hp' : p' ∈ db'.pieces) {m : EditManifest} (hm : p'.preparationManifest = some m) :
    ∃ p ∈ db.pieces, p.preparationManifest = some m := by
  have hediting : Editing s now SamePiece := samePiece_editing
  have hrewrites : Rewrites SamePiece db db' → ∃ p ∈ db.pieces, p.preparationManifest = some m := by
    intro h
    obtain ⟨p, hp, -, -, hsame⟩ := h.mem_right hp'
    exact ⟨p, hp, hsame.symm.trans hm⟩
  cases c with
  | createImport owner input work =>
    obtain ⟨-, -, start, db₁, db₂, draftSources, hstart, hinsert, -, -, rfl⟩ := createImport_ok h
    obtain ⟨-, drafts, -, rfl⟩ := insertDraft_eq_ok.mp hinsert
    obtain ⟨assets, rfl⟩ := hstart.frame
    exact ⟨p', hp', hm⟩
  | updateImport owner id input =>
    obtain ⟨d, -, -, -, -, rfl⟩ := updateImport_ok.mp h
    exact ⟨p', hp', hm⟩
  | deleteImport owner id =>
    obtain ⟨d, -, -, -, rfl⟩ := deleteImport_ok h
    rw [collectOrphans_pieces] at hp'
    exact ⟨p', hp', hm⟩
  | createPiece owner input =>
    obtain ⟨validated, -, -, hinsert⟩ := createPiece_ok h
    obtain ⟨pieces, hpieces, rfl⟩ := insertPiece_eq_ok.mp hinsert
    obtain hp' | rfl := (Table.mem_insert? hpieces).mp hp'
    · exact ⟨p', hp', hm⟩
    · cases hm
  | updatePiece owner id patch => exact hrewrites (updatePiece_rewrites hediting h)
  | deletePiece owner id => exact ⟨p', (deletePiece_tables h).2 p' hp', hm⟩
  | putReaderState owner id state =>
    obtain ⟨-, rfl⟩ := putReader_eq_ok.mp (putReaderState_ok h).2
    exact ⟨p', hp', hm⟩
  | mergeComposers owner input =>
    obtain ⟨⟨_, preview⟩, hmerge, rfl⟩ := map_eq_ok.mp h
    exact hrewrites (mergeComposers_rewrites hediting hmerge)
  | repairComposerKeys =>
    obtain rfl : Noted.repairComposerKeys s db = db' := by simpa [Call.run] using h
    exact hrewrites (repairComposerKeys_rewrites hediting db)
  | refoldSearchText force => exact hrewrites (refoldSearchText_rewrites hediting h)

theorem finalizeWrites_saved {plan : FinalizePlan} {object : Object} {newId : Id}
    {result : FinalizeResult}
    (h : finalizeWrites s owner plan object newId now db = .ok (db', result)) {p' : PieceRow}
    (hp' : p' ∈ db'.pieces) {m : EditManifest} (hm : p'.preparationManifest = some m) :
    (∃ p ∈ db.pieces, p.preparationManifest = some m) ∨ m = plan.draft.row.manifest := by
  obtain ⟨pieceId, db₁, htarget, -, hpieces, -⟩ := finalizeWrites_tables h
  rw [hpieces] at hp'
  obtain ⟨p, hp, rfl⟩ := mem_updatePieces.mp hp'
  split at hm
  · exact Or.inr (Option.some.inj hm).symm
  · obtain ⟨-, rfl⟩ | ⟨-, -, hinsert⟩ := finalizeTarget_ok htarget
    · exact Or.inl ⟨p, hp, hm⟩
    · obtain ⟨pieces, hrow, rfl⟩ := insertPiece_eq_ok.mp hinsert
      obtain hp | rfl := (Table.mem_insert? hrow).mp hp
      · exact Or.inl ⟨p, hp, hm⟩
      · cases hm

def Draftable (p : PieceRow) : Prop := (trimPiece p.draftInput).Valid

theorem draftable_of_valid {p : PieceRow} {m : PieceInput} (h : (trimPiece m).Valid)
    (htitle : p.title = m.title) (hcomposer : p.composer = m.composer)
    (hsource : p.sourceURL = m.sourceURL) (hlistening : p.listeningURL = m.listeningURL)
    (hnotes : p.notes = m.notes) : Draftable p := by
  have hempty : byteLen (trimSpace []) = 0 := rfl
  refine ⟨?_, ?_, ?_, ?_, ?_, ?_, ?_, ?_, ?_, ?_⟩
  · exact hempty.trans_le (by omega)
  · exact hempty.trans_le (by omega)
  · simpa [PieceRow.draftInput, trimPiece, htitle] using h.title_ne
  · simpa [PieceRow.draftInput, trimPiece, htitle] using h.title
  · simpa [PieceRow.draftInput, trimPiece, hcomposer] using h.composer
  · simpa [PieceRow.draftInput, trimPiece, hsource] using h.sourceURL
  · simpa [PieceRow.draftInput, trimPiece, hlistening] using h.listeningURL
  · simpa [PieceRow.draftInput, trimPiece, hnotes] using h.notes
  · exact hempty.trans_le (by omega)
  · intro status hs
    cases hs

theorem draftable_editing : Editing s now fun p p' => Draftable p → Draftable p' where
  refl _ h := h
  trans _ _ _ h h' := h' ∘ h
  update p patch hvalid _ := by
    have htrim : trimPiece (trimPiece (patched patch p.input)) = trimPiece (patched patch p.input) :=
      trimPiece_trimPiece _
    rw [← htrim] at hvalid
    exact draftable_of_valid hvalid rfl rfl rfl rfl rfl
  merge p target _ _ hlen h :=
    ⟨h.opus, h.musicKey, h.title_ne, h.title, (byteLen_trimSpace_le target).trans hlen, h.sourceURL,
      h.listeningURL, h.notes, h.aliases, h.status⟩
  repair _ h := h
  refold _ h := h

theorem PieceOrigin.draftable {p' : PieceRow} (h : PieceOrigin s σ p')
    (hpieces : ∀ p ∈ σ.db.pieces, Draftable p) : Draftable p' := by
  cases h with
  | kept hp => exact hpieces p' hp
  | edited p hp hedit => exact hedit _ draftable_editing (hpieces p hp)
  | created owner id input hvalid htrim heq =>
    rw [← htrim] at hvalid
    rw [heq]
    exact draftable_of_valid hvalid rfl rfl rfl rfl rfl
  | finalized p m manifest hvalid htrim hp heq =>
    rw [← htrim] at hvalid
    rw [heq]
    exact draftable_of_valid hvalid rfl rfl rfl rfl rfl

end Pieces

section Rows

variable {d d' : DraftRow}

structure SavableDraft (s : Service) (db : Db) (d : DraftRow) : Prop where
  manifest : d.manifest.Valid s.validUUID db.assetOf
  sources : ∀ q ∈ d.manifest.pages, (⟨d.id, q.sourceId⟩ : DraftSource) ∈ db.draftSources
  metadata : Savable d.metadata

theorem EditManifest.Valid.retained {validUUID : Text → Bool} {m : EditManifest}
    (h : m.Valid validUUID db.assetOf) (hretains : Retains db db')
    (hused : ∀ q ∈ m.pages, (∃ x ∈ db'.draftSources, x.assetId = q.sourceId) ∨
      ∃ x ∈ db'.pieceSources, x.assetId = q.sourceId) : m.Valid validUUID db'.assetOf := by
  apply h.mono
  intro q hq a ha
  obtain ⟨hmem, hid⟩ := assetOf_eq_some.mp ha
  refine assetOf_eq_some.mpr ⟨hretains.assets a hmem ?_, hid⟩
  rw [Bool.eq_false_iff]
  intro horphan
  obtain ⟨hdraft, hpiece⟩ := orphan_iff.mp horphan
  obtain ⟨x, hx, hxid⟩ | ⟨x, hx, hxid⟩ := hused q hq
  · exact hdraft x hx (hxid.trans hid.symm)
  · exact hpiece x hx (hxid.trans hid.symm)

theorem SavableDraft.retained (h : SavableDraft s db d) (hretains : Retains db db')
    (hd' : d' ∈ db'.drafts) (hid : d'.id = d.id) (hopen : d'.finalized = false) :
    SavableDraft s db' d := by
  have hsources : ∀ q ∈ d.manifest.pages, (⟨d.id, q.sourceId⟩ : DraftSource) ∈ db'.draftSources :=
    fun q hq => hretains.sources _ (h.sources q hq) d' hd' hid hopen
  refine ⟨h.manifest.retained hretains ?_, hsources, h.metadata⟩
  intro q hq
  exact Or.inl ⟨_, hsources q hq, rfl⟩

theorem SavableDraft.accepted (h : SavableDraft s db d) (hdb : db.Coherent) (hd : d ∈ db.drafts) :
    d.manifest.Valid s.validUUID (assetsOf (db.draftAssets d.userId d.id)) := by
  apply h.manifest.mono
  intro q hq a ha
  obtain ⟨hmem, hid⟩ := assetOf_eq_some.mp ha
  have hx := h.sources q hq
  obtain ⟨o, hdraft, b, hb, hbid, howner⟩ := hdb.draftSource _ hx
  obtain rfl := hdraft.unique ⟨d, hd, rfl, rfl⟩
  obtain rfl := Table.eq_of_key hb hmem (hbid.trans hid.symm)
  rw [← hid] at hx
  exact assetsOf_draftAssets.mpr ⟨⟨hmem, howner, hx⟩, hid⟩

theorem SavableDraft.updated {input : UpdateImport}
    (hchecks : updateChecks s (db.draftAssets d.userId d.id) input = .ok ⟨⟩) :
    SavableDraft s db ((savedDraft ⟨input.metadata, input.imslpAutoFill, d.metadata.base⟩
      input.manifest now).apply d) := by
  obtain ⟨hvalid, hmetadata⟩ := updateChecks_eq_ok.mp hchecks
  refine ⟨hvalid.mono ?_, ?_, hmetadata⟩
  · intro q _ a ha
    obtain ⟨⟨hmem, -, -⟩, hid⟩ := assetsOf_draftAssets.mp ha
    exact assetOf_eq_some.mpr ⟨hmem, hid⟩
  · intro q hq
    obtain ⟨a, ha⟩ := validatePage_source (hvalid.pages q hq)
    obtain ⟨⟨-, -, hx⟩, hid⟩ := assetsOf_draftAssets.mp ha
    rw [hid] at hx
    exact hx

theorem SavableDraft.attached {f : AssetRow} {filename : Text} (h : SavableDraft s db d)
    (ha : f ∈ db.assets) (hasset : f.id = fresh.assetId)
    (hx : (⟨d.id, fresh.assetId⟩ : DraftSource) ∈ db.draftSources)
    (hids : PageIds s.validUUID fresh.pageIds) (hnew : ∀ q ∈ d.manifest.pages, q.id ∉ fresh.pageIds)
    (hname : byteLen filename ≤ 255) :
    SavableDraft s db ((savedDraft (attachedMetadata d.metadata filename)
      (attachedManifest d.manifest fresh f.pageCount) now).apply d) := by
  refine ⟨h.manifest.attached (assetOf_eq_some.mpr ⟨ha, rfl⟩) hasset.symm hids hnew, ?_,
    attachedMetadata_savable h.metadata hname⟩
  intro q hq
  obtain hq | hq := List.mem_append.mp hq
  · exact h.sources q hq
  · obtain ⟨i, -, n, -, rfl⟩ := freshPages_mem hq
    exact hx

theorem SavableDraft.started {input : CreateImport} {work : Option IMSLPWork} {start : DraftStart}
    (hstart : Starts owner input work fresh now db start db') (hdb : db.Coherent)
    (hids : PageIds s.validUUID fresh.pageIds)
    (hdraftable : ∀ p ∈ db.pieces, Draftable p)
    (hsaved : ∀ p ∈ db.pieces, ∀ m, p.preparationManifest = some m →
      m.Valid s.validUUID db.assetOf)
    (hlink : input.sourceURL = [] ∨ isWorkLink input.sourceURL = true)
    (hsavable : input.pieceId = .absent → savableStart input.sourceURL work = true) :
    start.manifest.Valid s.validUUID db'.assetOf ∧
      (∀ q ∈ start.manifest.pages, q.sourceId ∈ start.sources) ∧ Savable start.metadata := by
  have hsources : ∀ a count, ∀ q ∈ freshPages fresh.pageIds a count, q.sourceId ∈ [a] := by
    intro a count q hq
    obtain ⟨i, -, n, -, rfl⟩ := freshPages_mem hq
    exact List.mem_singleton_self a
  cases hstart with
  | new habsent =>
    exact ⟨EditManifest.valid_nil _, by simp, (newMetadata_savable hlink).mpr (hsavable habsent)⟩
  | saved p hp howner m hm hlength hpiece =>
    refine ⟨hsaved p hp m hm, ?_, draftInput_savable (hdraftable p hp)⟩
    intro q hq
    exact List.mem_map_of_mem hq
  | empty p hp howner hpiece =>
    exact ⟨EditManifest.valid_nil _, by simp [pieceDraft], draftInput_savable (hdraftable p hp)⟩
  | retained p hp howner f hf hpdf hcount a ha hkey hpiece =>
    refine ⟨?_, hsources a.id f.pageCount, draftInput_savable (hdraftable p hp)⟩
    obtain ⟨-, hpages⟩ := hdb.shared f hf a ha hkey.symm
    exact freshPages_valid hids (assetOf_eq_some.mpr ⟨ha, rfl⟩) hpages.ge hcount
  | legacy p hp howner f hf hpdf hcount db' hinsert hpiece =>
    refine ⟨?_, hsources fresh.assetId f.pageCount, draftInput_savable (hdraftable p hp)⟩
    obtain ⟨-, assets, hassets, rfl⟩ := insertAsset_eq_ok.mp hinsert
    have ha : legacyAsset owner f fresh.assetId now ∈ assets :=
      (Table.mem_insert? hassets).mpr (Or.inr rfl)
    exact freshPages_valid (a := legacyAsset owner f fresh.assetId now) hids
      (assetOf_eq_some.mpr ⟨ha, rfl⟩) (Nat.le_refl _) hcount

end Rows

section Prepared

/-- The call starts no draft without a piece, or one that can be saved. -/
def Event.startsSavable : Event → Bool
  | .call (.createImport _ input work) _ =>
    decide (input.pieceId ≠ .absent) || savableStart input.sourceURL work
  | _ => true

/-- `importFilename` cuts the names of files at 255 bytes. -/
def Event.nameFits : Event → Bool
  | .beginAttach _ _ filename _ _ _ => decide (byteLen filename ≤ 255)
  | _ => true

structure Sys.Prepared (s : Service) (σ : Sys) : Prop where
  sound : σ.Sound
  drafts : ∀ d ∈ σ.db.drafts, d.finalized = false → SavableDraft s σ.db d
  draftable : ∀ p ∈ σ.db.pieces, Draftable p
  saved : ∀ p ∈ σ.db.pieces, ∀ m, p.preparationManifest = some m →
    m.Valid s.validUUID σ.db.assetOf
  filenames : ∀ f ∈ σ.flights, ∀ id filename revision file,
    f.upload = .attach id filename revision file → byteLen filename ≤ 255
  limit : ∀ owner, σ.db.openDrafts owner σ.clock ≤ maxOpenDrafts

theorem Sys.Grants.pageIds (h : σ.Grants s fresh) : PageIds s.validUUID fresh.pageIds :=
  ⟨h.2.2.2.2.1, h.2.2.2.2.2.1⟩

namespace Sys.Prepared

variable {d : DraftRow}

theorem kept (hσ : Prepared s σ) (h : Stepped s σ e r σ') {d' : DraftRow} (hd' : d' ∈ σ'.db.drafts)
    (hopen : d'.finalized = false) (hmem : d' ∈ σ.db.drafts) : SavableDraft s σ'.db d' :=
  (hσ.drafts d' hmem hopen).retained h.retains hd' rfl hopen

theorem drafts_step (hσ : Prepared s σ) (h : Stepped s σ e r σ')
    (hstarts : r = .done → e.startsSavable = true) :
    ∀ d' ∈ σ'.db.drafts, d'.finalized = false → SavableDraft s σ'.db d' := by
  intro d' hd' hopen
  have hretains := h.retains
  have hkept := hσ.kept h hd' hopen
  have hother := h.draft_kept hd' hopen
  cases h with
  | callDone c fresh db hfresh hrun =>
    cases c with
    | createImport owner input work =>
      obtain hmem | ⟨start, db₁, hstart, rfl, hassets, hurl, hsources⟩ :=
        createImport_started hrun hd'
      · exact hkept hmem
      · have hsavable : input.pieceId = .absent → savableStart input.sourceURL work = true := by
          intro habsent
          simpa [Event.startsSavable, habsent] using hstarts rfl
        obtain ⟨hmanifest, hpages, hmetadata⟩ := SavableDraft.started hstart hσ.sound.coherent
          hfresh.pageIds hσ.draftable hσ.saved hurl hsavable
        refine ⟨?_, fun q hq => hsources _ (hpages q hq), hmetadata⟩
        have hassetOf : db.assetOf = db₁.assetOf := by
          unfold assetOf
          rw [hassets]
        change start.manifest.Valid s.validUUID db.assetOf
        rw [hassetOf]
        exact hmanifest
    | updateImport owner id input =>
      obtain ⟨d, hd, ⟨rfl, rfl, -⟩, -, hchecks, heq⟩ := updateImport_ok.mp hrun
      have hd := hd'
      simp only [heq] at hd
      obtain ⟨hmem, -⟩ | rfl := mem_updateDraft_cases ‹d ∈ σ.db.drafts› hd
      · exact hkept hmem
      · exact (SavableDraft.updated hchecks).retained hretains hd' rfl hopen
    | _ => exact hkept (hother (by simp) (Or.inl (Event.edits_call (by simp))))
  | attached f fresh id filename revision file db hf hfresh hupload hrun =>
    obtain ⟨d, hd, ⟨rfl, -, -⟩, ⟨hdopen, -⟩, -, hdrafts⟩ := attachSource_drafts hrun
    obtain ⟨ha, hx⟩ := attachSource_attached hrun
    have hmem' := hd'
    simp only [hdrafts] at hmem'
    obtain ⟨hmem, -⟩ | rfl := mem_updateDraft_cases hd hmem'
    · exact hkept hmem
    · have hold := (hσ.drafts d hd hdopen).retained hretains hd' rfl hopen
      exact hold.attached ha rfl hx hfresh.pageIds (hfresh.2.2.2.2.2.2 d hd)
        (hσ.filenames f hf d.id filename revision file hupload)
  | finalized f fresh id revision data plan db result hf hfresh hupload hplan hrun =>
    exact hkept (hother (by simp) (Or.inr (by simp)))
  | callFailed c fresh error hfresh hrun => exact hkept hd'
  | _ => exact hkept (hother (by simp) (by simp [Event.edits]))

theorem saved_step (hσ : Prepared s σ) (h : Stepped s σ e r σ') (hσ' : σ'.Sound) :
    ∀ p ∈ σ'.db.pieces, ∀ m, p.preparationManifest = some m →
      m.Valid s.validUUID σ'.db.assetOf := by
  intro p' hp' m hm
  have hretains := h.retains
  have hold : m.Valid s.validUUID σ.db.assetOf → m.Valid s.validUUID σ'.db.assetOf := by
    intro hvalid
    apply hvalid.retained hretains
    intro q hq
    exact Or.inr ⟨_, hσ'.coherent.saved p' hp' m hm q hq, rfl⟩
  apply hold
  cases h with
  | callDone c fresh db hfresh hrun =>
    obtain ⟨p, hp, hsame⟩ := Call.saved_kept hrun hp' hm
    exact hσ.saved p hp m hsame
  | attached f fresh id filename revision file db hf hfresh hupload hrun =>
    obtain ⟨d, -, -, -, hpieces, -⟩ := attachSource_drafts hrun
    simp only [hpieces] at hp'
    exact hσ.saved p' hp' m hm
  | finalized f fresh id revision data plan db result hf hfresh hupload hplan hrun =>
    obtain ⟨p, hp, hsame⟩ | rfl := finalizeWrites_saved hrun hp' hm
    · exact hσ.saved p hp m hsame
    · apply (validateManifest_eq_ok.mp hplan.manifest).1.mono
      intro q _ a ha
      obtain ⟨⟨hmem, -, -⟩, hid⟩ := assetsOf_draftAssets.mp ha
      exact assetOf_eq_some.mpr ⟨hmem, hid⟩
  | expired =>
    have hp' : p' ∈ (expireDrafts σ.clock σ.db).pieces := hp'
    rw [expireDrafts, collectOrphans_pieces] at hp'
    exact hσ.saved p' hp' m hm
  | _ => exact hσ.saved p' hp' m hm

theorem filenames_step (hσ : Prepared s σ) (h : Stepped s σ e r σ') (hname : e.nameFits = true) :
    ∀ f ∈ σ'.flights, ∀ id filename revision file,
      f.upload = .attach id filename revision file → byteLen filename ≤ 255 := by
  have herase : ∀ g, ∀ f ∈ σ.flights.erase g, ∀ id filename revision file,
      f.upload = .attach id filename revision file → byteLen filename ≤ 255 :=
    fun g f hf => hσ.filenames f (List.mem_of_mem_erase hf)
  cases h with
  | attachSaved owner id filename revision data key file hkey hfile =>
    intro f hf id' filename' revision' file' hupload
    obtain rfl | hf := List.mem_cons.mp hf
    · obtain ⟨-, rfl, -, -⟩ := Upload.attach.inj hupload
      simpa [Event.nameFits] using hname
    · exact hσ.filenames f hf id' filename' revision' file' hupload
  | finalizeSaved owner id revision data bytes key hkey =>
    intro f hf id' filename' revision' file' hupload
    obtain rfl | hf := List.mem_cons.mp hf
    · cases hupload
    · exact hσ.filenames f hf id' filename' revision' file' hupload
  | attached f => exact herase f
  | finalized f => exact herase f
  | retried f => exact herase f
  | commitFailed f => exact herase f
  | aborted f => exact herase f
  | _ => exact hσ.filenames

theorem step (hσ : Prepared s σ) (hname : e.nameFits = true)
    (hstarts : r = .done → e.startsSavable = true) (h : Sys.step s σ e = some (r, σ')) :
    Prepared s σ' := by
  have hσ' := hσ.sound.step h
  have h := step_stepped h
  refine ⟨hσ', hσ.drafts_step h hstarts, ?_, hσ.saved_step h hσ', hσ.filenames_step h hname, ?_⟩
  · intro p' hp'
    exact (h.piece_origin hp').draftable hσ.draftable
  · intro owner
    exact h.openDrafts_le (hσ.limit owner)

end Sys.Prepared

end Prepared

section Saving

variable {σ₀ : Sys} {t : List (Entry Sys Event Response)} {d : DraftRow}

end Saving

end Noted
