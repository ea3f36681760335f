import Noted.Integrity

/-!
# What each transaction does

For every operation, what it has found and the tables it leaves when it succeeds.
The invariants are proved from these and do not unfold an operation.
-/

namespace Noted

open Library Db

variable {s : Service} {owner id : Id} {now : Time} {fresh : Fresh} {db db' : Db}

section Sources

theorem keepDraftSources_ok {draftId : Id} {ids : List Id}
    (h : ids.foldlM (fun db assetId => db.keepDraftSource ⟨draftId, assetId⟩) db = .ok db') :
    ∃ draftSources, db' = { db with draftSources := draftSources } ∧
      (∀ x, x ∈ draftSources ↔ x ∈ db.draftSources ∨ ∃ assetId ∈ ids, x = ⟨draftId, assetId⟩) ∧
      ∀ assetId ∈ ids, ∃ o, db.OwnsAsset o assetId := by
  induction ids generalizing db with
  | nil =>
    obtain rfl : db = db' := by simpa [List.foldlM] using h
    exact ⟨db.draftSources, rfl, by simp, by simp⟩
  | cons assetId ids ih =>
    rw [List.foldlM_cons] at h
    obtain ⟨mid, hmid, h⟩ := bind_eq_ok.mp h
    obtain ⟨⟨-, hasset⟩, rfl⟩ := keepDraftSource_eq_ok.mp hmid
    obtain ⟨draftSources, rfl, hmem, hassets⟩ := ih h
    refine ⟨draftSources, rfl, ?_, ?_⟩
    · intro x
      rw [hmem x]
      simp only [mem_keepSource, List.mem_cons, exists_eq_or_imp]
      tauto
    · intro other hother
      obtain rfl | hother := List.mem_cons.mp hother
      · exact hasAsset_iff.mp hasset
      · exact hassets other hother

theorem keepPieceSources_ok {pieceId : Id} {pages : List PageEdit}
    (h : pages.foldlM (fun db p => db.keepPieceSource ⟨pieceId, p.sourceId⟩) db = .ok db') :
    ∃ pieceSources, db' = { db with pieceSources := pieceSources } ∧
      (∀ x, x ∈ pieceSources ↔ x ∈ db.pieceSources ∨ ∃ p ∈ pages, x = ⟨pieceId, p.sourceId⟩) ∧
      ∀ p ∈ pages, ∃ o, db.OwnsAsset o p.sourceId := by
  induction pages generalizing db with
  | nil =>
    obtain rfl : db = db' := by simpa [List.foldlM] using h
    exact ⟨db.pieceSources, rfl, by simp, by simp⟩
  | cons p pages ih =>
    rw [List.foldlM_cons] at h
    obtain ⟨mid, hmid, h⟩ := bind_eq_ok.mp h
    obtain ⟨⟨-, hasset⟩, rfl⟩ := keepPieceSource_eq_ok.mp hmid
    obtain ⟨pieceSources, rfl, hmem, hassets⟩ := ih h
    refine ⟨pieceSources, rfl, ?_, ?_⟩
    · intro x
      rw [hmem x]
      simp only [mem_keepSource, List.mem_cons, exists_eq_or_imp]
      tauto
    · intro other hother
      obtain rfl | hother := List.mem_cons.mp hother
      · exact hasAsset_iff.mp hasset
      · exact hassets other hother

end Sources

section Create

variable {input : CreateImport} {work : Option IMSLPWork} {start : DraftStart}

def pieceDraft (p : PieceRow) (manifest : EditManifest) (sources : List Id) : DraftStart :=
  ⟨some p.id, p.contentRevision, ⟨p.draftInput, ⟨none, none, false, false⟩, some p.draftInput⟩,
    manifest, sources⟩

/-- The ways a draft starts: empty; from a saved manifest; from a piece without a
PDF; from a legacy PDF whose asset is there, or that gets one. -/
inductive Starts (owner : Id) (input : CreateImport) (work : Option IMSLPWork) (fresh : Fresh)
    (now : Time) (db : Db) : DraftStart → Db → Prop
  | new (h : input.pieceId = .absent) :
      Starts owner input work fresh now db ⟨none, 0, newMetadata input.sourceURL work, ⟨1, []⟩, []⟩ db
  | saved (p : PieceRow) (hp : p ∈ db.pieces) (howner : p.userId = owner) (m : EditManifest)
      (hm : p.preparationManifest = some m) (hlength : m.pages.length ≤ maxPreparedPages)
      (hpiece : input.pieceId = .piece p.id) :
      Starts owner input work fresh now db (pieceDraft p m (m.pages.map PageEdit.sourceId)) db
  | empty (p : PieceRow) (hp : p ∈ db.pieces) (howner : p.userId = owner)
      (hpiece : input.pieceId = .piece p.id) :
      Starts owner input work fresh now db (pieceDraft p ⟨1, []⟩ []) db
  | retained (p : PieceRow) (hp : p ∈ db.pieces) (howner : p.userId = owner) (f : PdfRow)
      (hf : f ∈ db.pdfs) (hpdf : f.pieceId = p.id) (hcount : f.pageCount ≤ maxPreparedPages)
      (a : AssetRow) (ha : a ∈ db.assets) (hkey : a.storageKey = f.storageKey)
      (hpiece : input.pieceId = .piece p.id) :
      Starts owner input work fresh now db
        (pieceDraft p ⟨1, freshPages fresh.pageIds a.id f.pageCount⟩ [a.id]) db
  | legacy (p : PieceRow) (hp : p ∈ db.pieces) (howner : p.userId = owner) (f : PdfRow)
      (hf : f ∈ db.pdfs) (hpdf : f.pieceId = p.id) (hcount : f.pageCount ≤ maxPreparedPages)
      (db' : Db) (hinsert : db.insertAsset (legacyAsset owner f fresh.assetId now) = .ok db')
      (hpiece : input.pieceId = .piece p.id) :
      Starts owner input work fresh now db
        (pieceDraft p ⟨1, freshPages fresh.pageIds fresh.assetId f.pageCount⟩ [fresh.assetId]) db'

theorem draftStart_starts (h : draftStart owner input work fresh now db = .ok (start, db')) :
    Starts owner input work fresh now db start db' := by
  unfold draftStart at h
  split at h
  · rename_i habsent
    obtain ⟨rfl, rfl⟩ : _ = start ∧ db = db' := by simpa using h
    exact .new habsent
  · cases h
  · rename_i i hpiece
    obtain ⟨p, hfound, h⟩ := bind_eq_ok.mp h
    obtain ⟨hp, rfl, howner⟩ := piece?_eq_some.mp (demand_eq_ok.mp hfound)
    obtain ⟨⟨manifest, sources, db₁⟩, hstart, h⟩ := bind_eq_ok.mp h
    obtain ⟨rfl, rfl⟩ : _ = start ∧ db₁ = db' := by simpa using h
    unfold pieceStart at hstart
    split at hstart
    · rename_i m hm
      simp only [bind_eq_ok, refuse_eq_ok, pure_eq_ok, Except.ok.injEq, Prod.mk.injEq,
        exists_const] at hstart
      obtain ⟨hlength, rfl, rfl, rfl⟩ := hstart
      exact .saved p hp howner m hm (Nat.le_of_not_lt hlength) hpiece
    · split at hstart
      · simp only [pure_eq_ok, Except.ok.injEq, Prod.mk.injEq] at hstart
        obtain ⟨rfl, rfl, rfl⟩ := hstart
        exact .empty p hp howner hpiece
      · rename_i f hf
        obtain ⟨hf, hpdf⟩ := pdf?_eq_some.mp hf
        simp only [bind_eq_ok, refuse_eq_ok, exists_const] at hstart
        obtain ⟨hcount, ⟨db₂, assetId⟩, hretain, hstart⟩ := hstart
        simp only [pure_eq_ok, Except.ok.injEq, Prod.mk.injEq] at hstart
        obtain ⟨rfl, rfl, rfl⟩ := hstart
        unfold retainAsset at hretain
        split at hretain
        · rename_i a ha
          obtain ⟨rfl, rfl⟩ : db = db₂ ∧ a.id = assetId := by simpa using hretain
          exact .retained p hp howner f hf hpdf (Nat.le_of_not_lt hcount) a (Table.mem_of_find? ha)
            (by simpa [legacyAsset] using Table.prop_of_find? ha) hpiece
        · obtain ⟨db₃, hinsert, hretain⟩ := bind_eq_ok.mp hretain
          obtain ⟨rfl, rfl⟩ : db₃ = db₂ ∧ fresh.assetId = assetId := by
            simpa [legacyAsset] using hretain
          exact .legacy p hp howner f hf hpdf (Nat.le_of_not_lt hcount) db₃ hinsert hpiece

theorem createImport_ok (h : createImport owner input work fresh now db = .ok db') :
    (input.sourceURL = [] ∨ isWorkLink input.sourceURL = true) ∧
      db.openDrafts owner now < maxOpenDrafts ∧
      ∃ start db₁ db₂ draftSources, Starts owner input work fresh now db start db₁ ∧
        db₁.insertDraft (startedDraft owner start fresh.id now) = .ok db₂ ∧
        (∀ x, x ∈ draftSources ↔ x ∈ db₁.draftSources ∨
          ∃ assetId ∈ start.sources, x = ⟨fresh.id, assetId⟩) ∧
        (∀ assetId ∈ start.sources, ∃ o, db₁.OwnsAsset o assetId) ∧
        db' = { db₂ with draftSources := draftSources } := by
  simp only [createImport, bind_eq_ok, refuse_eq_ok, exists_const, validateIMSLP_eq_ok,
    Nat.not_le] at h
  obtain ⟨hlink, hopen, ⟨start, db₁⟩, hstart, db₂, hdraft, h⟩ := h
  obtain ⟨draftSources, rfl, hmem, hassets⟩ := keepDraftSources_ok h
  refine ⟨hlink, hopen, start, db₁, db₂, draftSources, draftStart_starts hstart, hdraft, ?_⟩
  obtain ⟨-, drafts, -, rfl⟩ := insertDraft_eq_ok.mp hdraft
  exact ⟨hmem, hassets, rfl⟩

end Create

section Edit

variable {revision : Int} {d : ImportDraft}

theorem updateImport_ok {input : UpdateImport} : updateImport s owner id input now db = .ok db' ↔
    ∃ d ∈ db.drafts, (d.id = id ∧ d.userId = owner ∧ now < d.updatedAt + sevenDays) ∧
      (d.finalized = false ∧ (d.revision : Int) = input.revision) ∧
      updateChecks s (db.draftAssets owner id) input = .ok ⟨⟩ ∧
      db' = db.updateDraft id
        (savedDraft ⟨input.metadata, input.imslpAutoFill, d.metadata.base⟩ input.manifest now) := by
  simp only [updateImport, bind_eq_ok, refuse_eq_ok, exists_const, draftTx_eq_ok, not_or,
    Bool.not_eq_true, ne_eq, not_not, pure_eq_ok, Except.ok.injEq]
  constructor
  · intro h
    obtain ⟨d, ⟨⟨hd, hrow⟩, hsources, -⟩, hopen, ⟨⟩, hchecks, rfl⟩ := h
    rw [hsources] at hchecks
    exact ⟨d.row, hd, hrow, hopen, hchecks, rfl⟩
  · intro h
    obtain ⟨d, hd, hrow, hopen, hchecks, rfl⟩ := h
    exact ⟨⟨d, db.draftAssets owner id, s.importLimit⟩, ⟨⟨hd, hrow⟩, rfl, rfl⟩, hopen, ⟨⟩, hchecks, rfl⟩

theorem attachChecks_ok {size : Nat} (h : attachChecks s owner id revision size now db = .ok d) :
    (d.row ∈ db.drafts ∧ d.row.id = id ∧ d.row.userId = owner ∧ now < d.row.updatedAt + sevenDays) ∧
      (d.row.finalized = false ∧ (d.row.revision : Int) = revision) ∧
      d.sources = db.draftAssets owner id := by
  simp only [attachChecks, bind_eq_ok, refuse_eq_ok, exists_const, draftTx_eq_ok, not_or,
    Bool.not_eq_true, ne_eq, not_not, pure_eq_ok, Except.ok.injEq] at h
  obtain ⟨d, ⟨hrow, hsources, -⟩, hopen, -, rfl⟩ := h
  exact ⟨hrow, hopen, hsources⟩

theorem attachSource_ok {filename : Text} {file : ImportBytes} {object : Object}
    (h : attachSource s owner id filename revision file object fresh now db = .ok db') :
    ∃ d ∈ db.drafts, (d.id = id ∧ d.userId = owner ∧ now < d.updatedAt + sevenDays) ∧
      (d.finalized = false ∧ (d.revision : Int) = revision) ∧
      ∃ db₁ db₂, db.insertAsset (attachedAsset owner filename file object fresh.assetId now) = .ok db₁ ∧
        db₁.insertDraftSource ⟨id, fresh.assetId⟩ = .ok db₂ ∧
        db' = db₂.updateDraft id (savedDraft (attachedMetadata d.metadata filename)
          (attachedManifest d.manifest fresh file.pages) now) := by
  simp only [attachSource, attachWrites, bind_eq_ok] at h
  obtain ⟨d, hd, db₁, hasset, db₂, hsource, h⟩ := h
  obtain ⟨⟨hmem, rfl, howner, hopen⟩, hrevision, -⟩ := attachChecks_ok hd
  exact ⟨d.row, hmem, ⟨rfl, howner, hopen⟩, hrevision, db₁, db₂, hasset, hsource, by simpa using h.symm⟩

theorem deleteImport_ok (h : deleteImport owner id now db = .ok db') :
    ∃ d ∈ db.drafts, (d.id = id ∧ d.userId = owner) ∧ d.finalized = false ∧
      db' = (db.deleteDrafts fun d => d.id == id && d.userId == owner).collectOrphans now := by
  simp only [deleteImport, bind_eq_ok, refuse_eq_ok, demand_eq_ok, exists_const, pure_eq_ok,
    Except.ok.injEq, draft?_eq_some, Bool.not_eq_true] at h
  obtain ⟨d, ⟨hd, hrow⟩, hopen, rfl⟩ := h
  exact ⟨d, hd, hrow, hopen, rfl⟩

end Edit

section Finalize

variable {plan : FinalizePlan} {result : FinalizeResult} {object : Object} {newId pieceId : Id}
  {revision : Int} {data : Bytes} {metadata : PieceInput}

theorem finalizedPiece_ok (h : finalizedPiece owner id db = .ok result) :
    ∃ p ∈ db.pieces, (p.id = id ∧ p.userId = owner) ∧ result.piece = db.toPiece p := by
  simp only [finalizedPiece, bind_eq_ok, demand_eq_ok, piece?_eq_some, pure_eq_ok,
    Except.ok.injEq] at h
  obtain ⟨p, ⟨hp, hrow⟩, rfl⟩ := h
  exact ⟨p, hp, hrow, rfl⟩

theorem finalizedPiece_id (h : finalizedPiece owner id db = .ok result) : result.piece.id = id := by
  obtain ⟨p, -, ⟨hid, -⟩, hpiece⟩ := finalizedPiece_ok h
  rw [hpiece]
  exact hid

structure Planned (s : Service) (owner id : Id) (revision : Int) (data : Bytes) (now : Time)
    (db : Db) (plan : FinalizePlan) : Prop where
  draft_mem : plan.draft.row ∈ db.drafts
  draft_id : plan.draft.row.id = id
  draft_owner : plan.draft.row.userId = owner
  draft_open : now < plan.draft.row.updatedAt + sevenDays
  revision : (plan.draft.row.revision : Int) = revision
  unfinished : plan.draft.row.finalized = false ∨ plan.draft.row.pieceId = none
  manifest : validateManifest s.validUUID plan.draft.row.manifest (db.draftAssets owner id) false =
    .ok ⟨⟩
  metadata : ∃ m, validatePiece plan.draft.row.metadata.input = .ok m ∧
    finalizePlan owner plan.draft m db = .ok plan
  size : data.length ≤ s.importLimit
  file : ∃ file, validateImportBytes s.decoders data = .ok file ∧ file.mime = .pdf ∧
    file.pages = plan.draft.row.manifest.pages.length

theorem finalizePlan_draft {d : ImportDraft} (h : finalizePlan owner d metadata db = .ok plan) :
    plan.draft = d := by
  unfold finalizePlan at h
  split at h
  · simp only [bind_eq_ok, pure_eq_ok, Except.ok.injEq] at h
    obtain ⟨-, -, -, -, rfl⟩ := h
    rfl
  · obtain rfl : _ = plan := by simpa using h
    rfl

theorem finalizeChecks_save (h : finalizeChecks s owner id revision data now db = .ok (.save plan)) :
    Planned s owner id revision data now db plan := by
  simp only [finalizeChecks, bind_eq_ok, refuse_eq_ok, exists_const, draftTx_eq_ok, ne_eq,
    not_not] at h
  obtain ⟨d, ⟨⟨hmem, hid, howner, hopen⟩, hsources, -⟩, hrevision, h⟩ := h
  split at h
  · simp [bind_eq_ok] at h
  · rename_i hretry
    simp only [bind_eq_ok, refuse_eq_ok, exists_const, pure_eq_ok, Except.ok.injEq,
      Finalization.save.injEq, not_or, not_not, not_lt] at h
    obtain ⟨⟨⟩, hmanifest, m, hm, hdata, file, hfile, hpages, plan', hplan, rfl⟩ := h
    obtain rfl := finalizePlan_draft hplan
    refine ⟨hmem, hid, howner, hopen, hrevision, ?_, ?_, ⟨m, hm, hplan⟩, hdata, file, hfile, hpages⟩
    · cases hf : plan'.draft.row.finalized with
      | false => exact Or.inl rfl
      | true =>
        cases hp : plan'.draft.row.pieceId with
        | none => exact Or.inr rfl
        | some i => exact absurd hp (hretry i hf)
    · rw [← hsources]
      exact hmanifest

theorem finalizeChecks_done
    (h : finalizeChecks s owner id revision data now db = .ok (.done result)) :
    ∃ d ∈ db.drafts, (d.id = id ∧ d.userId = owner ∧ now < d.updatedAt + sevenDays) ∧
      (d.revision : Int) = revision ∧ d.finalized = true ∧
      ∃ pieceId, d.pieceId = some pieceId ∧ finalizedPiece owner pieceId db = .ok result := by
  simp only [finalizeChecks, bind_eq_ok, refuse_eq_ok, exists_const, draftTx_eq_ok, ne_eq,
    not_not] at h
  obtain ⟨d, ⟨⟨hmem, hid, howner, hopen⟩, -, -⟩, hrevision, h⟩ := h
  split at h
  · rename_i pieceId hf hp
    simp only [bind_eq_ok, pure_eq_ok, Except.ok.injEq, Finalization.done.injEq] at h
    obtain ⟨r, hr, rfl⟩ := h
    exact ⟨d.row, hmem, ⟨hid, howner, hopen⟩, hrevision, hf, pieceId, hp, hr⟩
  · simp [bind_eq_ok] at h

theorem mergedMetadata_ok {current : PieceRow} {d : DraftRow} {saved : PieceInput}
    (h : mergedMetadata current d metadata = .ok saved) (hvalid : metadata.Valid)
    (htrim : trimPiece metadata = metadata) :
    current.contentRevision = d.baseRevision ∧ ∃ m : PieceInput, m.Valid ∧ trimPiece m = m ∧
      (∀ base, d.metadata.base = some base →
        m = trimPiece (mergeDraftMetadata current.draftInput base metadata)) ∧
      saved = { m with
        aliases := current.aliases, opus := current.opus, musicKey := current.musicKey } := by
  simp only [mergedMetadata, bind_eq_ok, refuse_eq_ok, exists_const, ne_eq, not_not] at h
  obtain ⟨hrevision, h⟩ := h
  refine ⟨hrevision, ?_⟩
  split at h
  · rename_i base hbase
    simp only [bind_eq_ok, pure_eq_ok, Except.ok.injEq] at h
    obtain ⟨m, hm, rfl⟩ := h
    obtain ⟨rfl, hmvalid⟩ := validatePiece_eq_ok.mp hm
    refine ⟨_, hmvalid, trimPiece_trimPiece _, ?_, rfl⟩
    intro base' hbase'
    rw [Option.some.inj (hbase.symm.trans hbase')]
  · rename_i hbase
    simp only [bind_eq_ok, refuse_eq_ok, exists_const, pure_eq_ok, Except.ok.injEq] at h
    obtain ⟨-, rfl⟩ := h
    refine ⟨metadata, hvalid, htrim, ?_, rfl⟩
    intro base hbase'
    rw [hbase] at hbase'
    cases hbase'

inductive Targets (owner : Id) (plan : FinalizePlan) (metadata : PieceInput) (db : Db) : Prop
  | piece (current : PieceRow) (hp : current ∈ db.pieces) (howner : current.userId = owner)
      (hid : plan.draft.row.pieceId = some current.id)
      (hmerge : mergedMetadata current plan.draft.row metadata = .ok plan.metadata)
      (hold : plan.old = db.pdf? current.id)
  | new (hid : plan.draft.row.pieceId = none)
      (hmetadata : plan.metadata = { metadata with aliases := [], opus := [], musicKey := [] })
      (hold : plan.old = none)

theorem finalizePlan_targets {d : ImportDraft}
    (h : finalizePlan owner d metadata db = .ok plan) : Targets owner plan metadata db := by
  have hdraft := finalizePlan_draft h
  unfold finalizePlan at h
  split at h
  · rename_i pieceId hid
    simp only [bind_eq_ok, demand_eq_ok, piece?_eq_some, pure_eq_ok, Except.ok.injEq] at h
    obtain ⟨current, ⟨hp, rfl, howner⟩, saved, hmerge, rfl⟩ := h
    exact .piece current hp howner hid hmerge rfl
  · rename_i hid
    obtain rfl : _ = plan := by simpa using h
    exact .new hid rfl rfl

/-- The database after a finalization has written its piece, of which `db` is the
one with the piece's row. -/
def pieceSaved (s : Service) (plan : FinalizePlan) (object : Object) (pieceId : Id) (now : Time)
    (pieceSources : Table fun x : PieceSource => x) (db : Db) : Db :=
  { db.updatePieces (fun p => p.id == pieceId)
      (finalizedChange s plan.metadata plan.draft.row.manifest now) with
    pdfs := db.pdfs.put (finalizedPdf plan pieceId object now)
    pieceSources := pieceSources
    readers :=
      if (plan.old.map PdfRow.checksumSHA256).getD [] ≠ object.checksum then
        (db.resetReader pieceId).readers
      else db.readers }

theorem finalizeTarget_ok {db₁ : Db}
    (h : finalizeTarget owner plan newId now db = .ok (pieceId, db₁)) :
    (plan.draft.row.pieceId = some pieceId ∧ db₁ = db) ∨
      (plan.draft.row.pieceId = none ∧ pieceId = newId ∧
        db.insertPiece (titledPiece owner newId plan.metadata.title now) = .ok db₁) := by
  unfold finalizeTarget at h
  split at h
  · rename_i i hi
    obtain ⟨rfl, rfl⟩ : i = pieceId ∧ db = db₁ := by simpa using h
    exact Or.inl ⟨hi, rfl⟩
  · rename_i hnone
    obtain ⟨db₂, hinsert, h⟩ := bind_eq_ok.mp h
    obtain ⟨rfl, rfl⟩ : newId = pieceId ∧ db₂ = db₁ := by simpa using h
    exact Or.inr ⟨hnone, rfl, hinsert⟩

theorem savePiece_ok (h : savePiece s owner plan object newId now db = .ok (pieceId, db')) :
    ∃ db₁ pieceSources, finalizeTarget owner plan newId now db = .ok (pieceId, db₁) ∧
      ((∃ o, db₁.OwnsPiece o pieceId) ∧
        ∀ f ∈ db₁.pdfs, f.storageKey = object.key → f.pieceId = pieceId) ∧
      (∀ x, x ∈ pieceSources ↔ (x ∈ db₁.pieceSources ∧ x.pieceId ≠ pieceId) ∨
        ∃ p ∈ plan.draft.row.manifest.pages, x = ⟨pieceId, p.sourceId⟩) ∧
      (∀ p ∈ plan.draft.row.manifest.pages, ∃ o, db₁.OwnsAsset o p.sourceId) ∧
      db' = pieceSaved s plan object pieceId now pieceSources db₁ := by
  simp only [savePiece, bind_eq_ok] at h
  obtain ⟨⟨i, db₁⟩, htarget, db₂, hupsert, db₃, hsources, h⟩ := h
  dsimp only at hupsert hsources h
  obtain ⟨hpiece, hkeys, rfl⟩ := upsertPdf_eq_ok.mp hupsert
  obtain ⟨pieceSources, rfl, hmem, hassets⟩ := keepPieceSources_ok hsources
  obtain ⟨o, howns⟩ := hasPiece_iff.mp hpiece
  have heq : (i, pieceSaved s plan object i now pieceSources db₁) = (pieceId, db') := by
    rw [← Except.ok.injEq (ε := Error), ← h]
    unfold pieceSaved
    split
    · rfl
    · rfl
  obtain ⟨rfl, rfl⟩ := Prod.mk.inj heq
  refine ⟨db₁, pieceSources, htarget, ⟨⟨o, ownsPiece_updatePieces.mp howns⟩, hkeys⟩, ?_, hassets, rfl⟩
  intro x
  rw [hmem x]
  simp [deletePieceSources]

theorem finalizeWrites_ok
    (h : finalizeWrites s owner plan object newId now db = .ok (db', result)) :
    ∃ pieceId db₁, savePiece s owner plan object newId now db = .ok (pieceId, db₁) ∧
      db' = closeDraft plan.draft.row.id pieceId plan.old now db₁ ∧
      finalizedPiece owner pieceId db' = .ok result := by
  simp only [finalizeWrites, bind_eq_ok, pure_eq_ok, Except.ok.injEq, Prod.mk.injEq] at h
  obtain ⟨⟨pieceId, db₁⟩, hsave, r, hresult, rfl, rfl⟩ := h
  exact ⟨pieceId, db₁, hsave, rfl, hresult⟩

end Finalize

section Rewrites

variable {R : PieceRow → PieceRow → Prop}

/-- The pieces change row by row, each as `R` says, and nothing else changes but
the fold version. -/
def Rewrites (R : PieceRow → PieceRow → Prop) (db db' : Db) : Prop :=
  ∃ f pieces foldVersion, db' = { db with pieces := pieces, foldVersion := foldVersion } ∧
    pieces.rows = db.pieces.rows.map f ∧ ∀ p ∈ db.pieces, R p (f p)

theorem Rewrites.refl (hrefl : ∀ p, R p p) (db : Db) : Rewrites R db db :=
  ⟨fun p => p, db.pieces, db.foldVersion, rfl, by simp, fun p _ => hrefl p⟩

theorem Rewrites.trans (htrans : ∀ p q r, R p q → R q r → R p r) {mid : Db}
    (h : Rewrites R db mid) (h' : Rewrites R mid db') : Rewrites R db db' := by
  obtain ⟨f, pieces, v, rfl, hrows, hf⟩ := h
  obtain ⟨f', pieces', v', rfl, hrows', hf'⟩ := h'
  refine ⟨f' ∘ f, pieces', v', rfl, ?_, ?_⟩
  · rw [hrows', ← List.map_map]
    exact congrArg _ hrows
  · intro p hp
    have hmem : f p ∈ pieces.rows := by
      rw [hrows]
      exact List.mem_map_of_mem hp
    exact htrans p (f p) _ (hf p hp) (hf' (f p) hmem)

theorem Rewrites.updatePieces (hrefl : ∀ p, R p p) {where_ : PieceRow → Bool} {change : PieceChange}
    (hR : ∀ p ∈ db.pieces, where_ p = true → R p (change.apply p)) :
    Rewrites R db (db.updatePieces where_ change) := by
  refine ⟨fun p => if where_ p then change.apply p else p, (db.updatePieces where_ change).pieces,
    db.foldVersion, rfl, rfl, ?_⟩
  intro p hp
  by_cases hw : where_ p = true
  · simp only [hw, if_true]
    exact hR p hp hw
  · simp only [hw]
    exact hrefl p

theorem Rewrites.foldl {α : Type*} (hrefl : ∀ p, R p p) (htrans : ∀ p q r, R p q → R q r → R p r)
    {f : Db → α → Db} (hf : ∀ db a, Rewrites R db (f db a)) (l : List α) (db : Db) :
    Rewrites R db (l.foldl f db) := by
  induction l generalizing db with
  | nil => exact Rewrites.refl hrefl db
  | cons a l ih => exact Rewrites.trans htrans (hf db a) (ih (f db a))

theorem Rewrites.mem_right (h : Rewrites R db db') {p' : PieceRow} (hp : p' ∈ db'.pieces) :
    ∃ p ∈ db.pieces, R p p' := by
  obtain ⟨f, pieces, v, rfl, hrows, hf⟩ := h
  rw [← Table.mem_rows, hrows, List.mem_map] at hp
  obtain ⟨p, hp, rfl⟩ := hp
  exact ⟨p, hp, hf p hp⟩

theorem Rewrites.mem_left (h : Rewrites R db db') {p : PieceRow} (hp : p ∈ db.pieces) :
    ∃ p' ∈ db'.pieces, R p p' := by
  obtain ⟨f, pieces, v, rfl, hrows, hf⟩ := h
  refine ⟨f p, ?_, hf p hp⟩
  rw [← Table.mem_rows, hrows]
  exact List.mem_map_of_mem hp

/-- What the library's writers may do to a row, whichever they are. -/
structure Editing (s : Service) (now : Time) (R : PieceRow → PieceRow → Prop) : Prop where
  refl : ∀ p, R p p
  trans : ∀ p q r, R p q → R q r → R p r
  update : ∀ p patch, (trimPiece (patched patch p.input)).Valid →
    R p ((updatedPiece s (trimPiece (patched patch p.input)) now).apply p)
  merge : ∀ p target, target ≠ [] → trimSpace target = target → byteLen target ≤ 300 →
    R p ((mergedPiece s target now).apply p)
  repair : ∀ p, R p ((repairedPiece s).apply p)
  refold : ∀ p, R p ((refoldedPiece s).apply p)

theorem updatePiece_ok {patch : PiecePatch} (h : updatePiece s owner id patch now db = .ok db') :
    ∃ current ∈ db.pieces, (current.id = id ∧ current.userId = owner) ∧
      (trimPiece (patched patch current.input)).Valid ∧
      db' = db.updatePieces (fun p => p.id == id && p.userId == owner)
        (updatedPiece s (trimPiece (patched patch current.input)) now) := by
  simp only [updatePiece, bind_eq_ok, demand_eq_ok, piece?_eq_some, pure_eq_ok, Except.ok.injEq,
    validatePiece_eq_ok] at h
  obtain ⟨current, ⟨hp, hrow⟩, input, ⟨rfl, hvalid⟩, rfl⟩ := h
  exact ⟨current, hp, hrow, hvalid, rfl⟩

theorem updatePiece_rewrites {patch : PiecePatch} (hR : Editing s now R)
    (h : updatePiece s owner id patch now db = .ok db') : Rewrites R db db' := by
  obtain ⟨current, hcurrent, ⟨rfl, rfl⟩, hvalid, rfl⟩ := updatePiece_ok h
  apply Rewrites.updatePieces hR.refl
  intro p hp hwhere
  simp only [Bool.and_eq_true, beq_iff_eq] at hwhere
  obtain rfl := Table.eq_of_key hp hcurrent hwhere.1
  exact hR.update p patch hvalid

theorem validateComposerMerge_ok {input output : ComposerMerge}
    (h : validateComposerMerge input = .ok output) :
    output.target ≠ [] ∧ trimSpace output.target = output.target ∧ byteLen output.target ≤ 300 := by
  simp only [validateComposerMerge, bind_eq_ok, refuse_eq_ok, exists_const, pure_eq_ok,
    Except.ok.injEq, not_or, not_lt] at h
  obtain ⟨-, -, ⟨hne, hlen⟩, rfl⟩ := h
  exact ⟨hne, trimSpace_trimSpace _, hlen⟩

theorem mergeComposers_rewrites {input : ComposerMerge} {preview : ComposerPreview}
    (hR : Editing s now R) (h : mergeComposers s owner input now db = .ok (db', preview)) :
    Rewrites R db db' := by
  simp only [mergeComposers, bind_eq_ok, refuse_eq_ok, exists_const, pure_eq_ok, Except.ok.injEq,
    Prod.mk.injEq] at h
  obtain ⟨merge, hmerge, -, p, -, -, rfl, rfl⟩ := h
  obtain ⟨hne, htrim, hlen⟩ := validateComposerMerge_ok hmerge
  apply Rewrites.foldl hR.refl hR.trans
  intro db piece
  apply Rewrites.updatePieces hR.refl
  intro q _ _
  exact hR.merge q merge.target hne htrim hlen

theorem repairComposerKeys_rewrites (hR : Editing s now R) (db : Db) :
    Rewrites R db (repairComposerKeys s db) := by
  apply Rewrites.foldl hR.refl hR.trans
  intro db stale
  apply Rewrites.updatePieces hR.refl
  intro p _ _
  exact hR.repair p

theorem refoldSearchText_rewrites {force : Bool} (hR : Editing s now R)
    (h : refoldSearchText s force db = .ok db') : Rewrites R db db' := by
  simp only [refoldSearchText, bind_eq_ok, refuse_eq_ok, exists_const] at h
  obtain ⟨-, h⟩ := h
  split at h
  · obtain rfl : db = db' := by simpa using h
    exact Rewrites.refl hR.refl db
  · obtain rfl : _ = db' := by simpa using h
    exact ⟨(refoldedPiece s).apply, (db.updatePieces (fun _ => true) (refoldedPiece s)).pieces,
      searchFoldVersion, rfl, by simp [Table.modify], fun p _ => hR.refold p⟩

end Rewrites

section Library

theorem createPiece_ok {input : PieceInput} (h : createPiece s owner input id now db = .ok db') :
    ∃ validated : PieceInput, validated.Valid ∧ trimPiece validated = validated ∧
      db.insertPiece (createdPiece s owner id validated now) = .ok db' := by
  simp only [createPiece, bind_eq_ok] at h
  obtain ⟨validated, hvalidated, h⟩ := h
  have hagain := validatePiece_validated hvalidated
  exact ⟨validated, hagain.2, hagain.1, h⟩

theorem deletePiece_ok (h : deletePiece owner id now db = .ok db') :
    db.OwnsPiece owner id ∧
      db' = ((db.deletePieces fun p => p.id == id && p.userId == owner).collectOrphans now).queueOld
        now (db.pdf? id) := by
  simp only [deletePiece, bind_eq_ok, demand_eq_ok, piece?_eq_some, pure_eq_ok,
    Except.ok.injEq] at h
  obtain ⟨p, ⟨hp, rfl, howner⟩, rfl⟩ := h
  exact ⟨⟨p, hp, rfl, howner⟩, rfl⟩

theorem putReaderState_ok {state : ReaderState}
    (h : putReaderState owner id state now db = .ok db') :
    db.OwnsPiece owner id ∧ db.putReader (readerRow id state now) = .ok db' := by
  simp only [putReaderState, bind_eq_ok, demand_eq_ok, piece?_eq_some, refuse_eq_ok,
    exists_const] at h
  obtain ⟨⟨⟩, -, p, ⟨hp, rfl, howner⟩, f, -, -, h⟩ := h
  exact ⟨⟨p, hp, rfl, howner⟩, h⟩

end Library

end Noted
