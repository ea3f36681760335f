import Noted.Transactions

/-!
# Every transaction keeps the tables coherent
-/

namespace Noted

open Library Db

variable {s : Service} {owner id : Id} {now : Time} {fresh : Fresh} {db db' : Db}

section Create

variable {input : CreateImport} {work : Option IMSLPWork} {start : DraftStart} {db₁ : Db}

theorem Starts.coherent (h : Starts owner input work fresh now db start db₁) (hdb : db.Coherent) :
    db₁.Coherent := by
  cases h with
  | new habsent => exact hdb
  | saved p hp howner m hm hlength => exact hdb
  | empty p hp howner => exact hdb
  | retained p hp howner f hf hpdf hcount a ha hkey => exact hdb
  | legacy p hp howner f hf hpdf hcount db' hinsert =>
    apply hdb.insertAsset hinsert
    intro g hg hkey
    obtain rfl : g = f := hdb.pdfKeys g hg f hf hkey
    exact ⟨⟨p, hp, hpdf.symm, howner⟩, rfl⟩

theorem Starts.ownsPiece (h : Starts owner input work fresh now db start db₁) :
    ∀ i, start.pieceId = some i → db₁.OwnsPiece owner i := by
  intro i hi
  cases h with
  | new habsent => cases hi
  | saved p hp howner => exact ⟨p, hp, Option.some.inj hi, howner⟩
  | empty p hp howner => exact ⟨p, hp, Option.some.inj hi, howner⟩
  | retained p hp howner => exact ⟨p, hp, Option.some.inj hi, howner⟩
  | legacy p hp howner f hf hpdf hcount db' hinsert =>
    obtain ⟨-, assets, -, rfl⟩ := insertAsset_eq_ok.mp hinsert
    exact ⟨p, hp, Option.some.inj hi, howner⟩

theorem Db.Coherent.ownsSaved (hdb : db.Coherent) {p : PieceRow} (hp : p ∈ db.pieces)
    {m : EditManifest} (hm : p.preparationManifest = some m) {q : PageEdit} (hq : q ∈ m.pages) :
    db.OwnsAsset p.userId q.sourceId := by
  obtain ⟨o, hpiece, hasset⟩ := hdb.pieceSource _ (hdb.saved p hp m hm q hq)
  rwa [hpiece.unique ⟨p, hp, rfl, rfl⟩] at hasset

theorem Starts.ownsAsset (h : Starts owner input work fresh now db start db₁) (hdb : db.Coherent) :
    ∀ assetId ∈ start.sources, db₁.OwnsAsset owner assetId := by
  intro assetId hassetId
  cases h with
  | new habsent => cases hassetId
  | saved p hp howner m hm hlength =>
    obtain ⟨q, hq, rfl⟩ := List.mem_map.mp hassetId
    rw [← howner]
    exact hdb.ownsSaved hp hm hq
  | empty p hp howner => cases hassetId
  | retained p hp howner f hf hpdf hcount a ha hkey =>
    obtain rfl := List.mem_singleton.mp hassetId
    have hpiece := (hdb.shared f hf a ha hkey.symm).1
    exact ⟨a, ha, rfl, hpiece.unique ⟨p, hp, hpdf.symm, howner⟩⟩
  | legacy p hp howner f hf hpdf hcount db' hinsert =>
    obtain rfl := List.mem_singleton.mp hassetId
    obtain ⟨-, assets, hassets, rfl⟩ := insertAsset_eq_ok.mp hinsert
    exact ⟨_, (Table.mem_insert? hassets).mpr (Or.inr rfl), rfl, rfl⟩

theorem createImport_coherent (hdb : db.Coherent)
    (h : createImport owner input work fresh now db = .ok db') : db'.Coherent := by
  obtain ⟨-, -, start, db₁, db₂, draftSources, hstart, hinsert, hmem, -, rfl⟩ := createImport_ok h
  have hdb₁ := hstart.coherent hdb
  have hdb₂ := hdb₁.insertDraft hinsert hstart.ownsPiece
  obtain ⟨-, drafts, hdrafts, rfl⟩ := insertDraft_eq_ok.mp hinsert
  refine ⟨hdb₂.pdf, hdb₂.reader, hdb₂.draft, ?_, hdb₂.pieceSource, hdb₂.pdfKeys, hdb₂.assetKeys,
    hdb₂.shared, hdb₂.saved⟩
  intro x hx
  obtain hx | ⟨assetId, hassetId, rfl⟩ := (hmem x).mp hx
  · exact hdb₂.draftSource x hx
  · exact ⟨owner, ⟨_, (Table.mem_insert? hdrafts).mpr (Or.inr rfl), rfl, rfl⟩,
      hstart.ownsAsset hdb assetId hassetId⟩

end Create

section Edit

theorem Db.Coherent.updateDraft_same {change : DraftChange} (hdb : db.Coherent)
    (hsame : ∀ d, (change.apply d).pieceId = d.pieceId) : (db.updateDraft id change).Coherent := by
  apply hdb.updateDraft
  intro d hd _ i hi
  rw [hsame] at hi
  exact hdb.draft d hd i hi

theorem updateImport_coherent {input : UpdateImport} (hdb : db.Coherent)
    (h : updateImport s owner id input now db = .ok db') : db'.Coherent := by
  obtain ⟨d, -, -, -, -, rfl⟩ := updateImport_ok.mp h
  exact hdb.updateDraft_same fun _ => rfl

theorem attachSource_coherent {filename : Text} {revision : Int} {file : ImportBytes}
    {object : Object} (hdb : db.Coherent) (hkey : ∀ f ∈ db.pdfs, f.storageKey ≠ object.key)
    (h : attachSource s owner id filename revision file object fresh now db = .ok db') :
    db'.Coherent := by
  obtain ⟨d, hd, ⟨rfl, rfl, -⟩, -, db₁, db₂, hasset, hsource, rfl⟩ := attachSource_ok h
  have hdb₁ : db₁.Coherent := by
    apply hdb.insertAsset hasset
    intro f hf heq
    exact absurd heq (hkey f hf)
  apply Db.Coherent.updateDraft_same _ fun _ => rfl
  apply hdb₁.insertDraftSource hsource
  obtain ⟨-, assets, hassets, rfl⟩ := insertAsset_eq_ok.mp hasset
  exact ⟨d.userId, ⟨d, hd, rfl, rfl⟩, _, (Table.mem_insert? hassets).mpr (Or.inr rfl), rfl, rfl⟩

theorem deleteImport_coherent (hdb : db.Coherent) (h : deleteImport owner id now db = .ok db') :
    db'.Coherent := by
  obtain ⟨d, -, -, -, rfl⟩ := deleteImport_ok h
  exact (hdb.deleteDrafts _).collectOrphans now

theorem expireDrafts_coherent (hdb : db.Coherent) (now : Time) : (expireDrafts now db).Coherent :=
  (hdb.deleteDrafts _).collectOrphans now

end Edit

section Library

def SamePiece (p p' : PieceRow) : Prop :=
  p'.id = p.id ∧ p'.userId = p.userId ∧ p'.preparationManifest = p.preparationManifest

theorem samePiece_editing : Editing s now SamePiece where
  refl _ := ⟨rfl, rfl, rfl⟩
  trans _ _ _ h h' := ⟨h'.1.trans h.1, h'.2.1.trans h.2.1, h'.2.2.trans h.2.2⟩
  update _ _ _ := ⟨rfl, rfl, rfl⟩
  merge _ _ _ _ _ := ⟨rfl, rfl, rfl⟩
  repair _ := ⟨rfl, rfl, rfl⟩
  refold _ := ⟨rfl, rfl, rfl⟩

theorem Rewrites.ownsPiece (h : Rewrites SamePiece db db') {o i : Id} :
    db'.OwnsPiece o i ↔ db.OwnsPiece o i := by
  constructor
  · intro howns
    obtain ⟨p', hp', rfl, rfl⟩ := howns
    obtain ⟨p, hp, hid, howner, -⟩ := h.mem_right hp'
    exact ⟨p, hp, hid.symm, howner.symm⟩
  · intro howns
    obtain ⟨p, hp, rfl, rfl⟩ := howns
    obtain ⟨p', hp', hid, howner, -⟩ := h.mem_left hp
    exact ⟨p', hp', hid, howner⟩

theorem Db.Coherent.rewrites (hdb : db.Coherent) (h : Rewrites SamePiece db db') : db'.Coherent := by
  have howns : ∀ o i, db.OwnsPiece o i → db'.OwnsPiece o i := fun o i => h.ownsPiece.mpr
  have hmem : ∀ p' ∈ db'.pieces, _ := fun _ hp' => h.mem_right hp'
  obtain ⟨f, pieces, v, rfl, -⟩ := h
  refine ⟨?_, ?_, ?_, hdb.draftSource, ?_, hdb.pdfKeys, hdb.assetKeys, ?_, ?_⟩
  · intro f hf
    exact (hdb.pdf f hf).imp fun o => howns o _
  · intro r hr
    exact (hdb.reader r hr).imp fun o => howns o _
  · intro d hd i hi
    exact howns _ _ (hdb.draft d hd i hi)
  · intro x hx
    exact (hdb.pieceSource x hx).imp fun o => And.imp_left (howns o _)
  · intro f hf a ha hkey
    exact (hdb.shared f hf a ha hkey).imp_left (howns _ _)
  · intro p' hp' m hm q hq
    obtain ⟨p, hp, hid, -, hmanifest⟩ := hmem p' hp'
    rw [hmanifest] at hm
    rw [hid]
    exact hdb.saved p hp m hm q hq

theorem createPiece_coherent {input : PieceInput} (hdb : db.Coherent)
    (h : createPiece s owner input id now db = .ok db') : db'.Coherent := by
  obtain ⟨validated, -, -, hinsert⟩ := createPiece_ok h
  exact hdb.insertPiece hinsert rfl

theorem Db.Coherent.queueOld (hdb : db.Coherent) (old : Option PdfRow) (now : Time) :
    (db.queueOld now old).Coherent := by
  cases old with
  | none => exact hdb
  | some f => exact hdb.queueKey now f.storageKey

theorem deletePiece_coherent (hdb : db.Coherent) (h : deletePiece owner id now db = .ok db') :
    db'.Coherent := by
  obtain ⟨-, rfl⟩ := deletePiece_ok h
  exact ((hdb.deletePieces _).collectOrphans now).queueOld _ now

theorem putReaderState_coherent {state : ReaderState} (hdb : db.Coherent)
    (h : putReaderState owner id state now db = .ok db') : db'.Coherent :=
  hdb.putReader (putReaderState_ok h).2

end Library

section Finalize

variable {plan : FinalizePlan} {object : Object} {pieceId newId : Id} {result : FinalizeResult}

theorem ownsAsset_of_valid {m : EditManifest} {allowEmpty : Bool}
    (h : validateManifest s.validUUID m (db.draftAssets owner id) allowEmpty = .ok ⟨⟩)
    {q : PageEdit} (hq : q ∈ m.pages) : db.OwnsAsset owner q.sourceId := by
  obtain ⟨hvalid, -⟩ := validateManifest_eq_ok.mp h
  obtain ⟨a, ha⟩ := validatePage_source (hvalid.pages q hq)
  obtain ⟨⟨hmem, howner, -⟩, hid⟩ := assetsOf_draftAssets.mp ha
  exact ⟨a, hmem, hid, howner⟩

theorem pieceSaved_coherent {pieceSources : Table fun x : PieceSource => x} (hdb : db.Coherent)
    (hpiece : db.OwnsPiece owner pieceId)
    (hpdf : ∀ f ∈ db.pdfs, f.storageKey = object.key → f.pieceId = pieceId)
    (hasset : ∀ a ∈ db.assets, a.storageKey ≠ object.key)
    (hmem : ∀ x, x ∈ pieceSources ↔ (x ∈ db.pieceSources ∧ x.pieceId ≠ pieceId) ∨
      ∃ p ∈ plan.draft.row.manifest.pages, x = ⟨pieceId, p.sourceId⟩)
    (hsources : ∀ p ∈ plan.draft.row.manifest.pages, db.OwnsAsset owner p.sourceId) :
    (pieceSaved s plan object pieceId now pieceSources db).Coherent := by
  have howns : ∀ o i, db.OwnsPiece o i →
      (pieceSaved s plan object pieceId now pieceSources db).OwnsPiece o i :=
    fun o i h => ownsPiece_updatePieces.mpr h
  refine ⟨?_, ?_, ?_, hdb.draftSource, ?_, ?_, hdb.assetKeys, ?_, ?_⟩
  · intro f hf
    obtain rfl | ⟨hf, -⟩ := Table.mem_put.mp hf
    · exact ⟨owner, howns _ _ hpiece⟩
    · exact (hdb.pdf f hf).imp fun o => howns o _
  · have hreset : ∀ r ∈ (db.resetReader pieceId).readers, ∃ o, db.OwnsPiece o r.pieceId := by
      intro r hr
      rw [resetReader_readers, Table.mem_modify] at hr
      obtain ⟨q, hq, rfl⟩ := hr
      have hreader := hdb.reader q hq
      split
      · exact hreader
      · exact hreader
    intro r hr
    change r ∈ (if _ then _ else _) at hr
    split at hr
    · exact (hreset r hr).imp fun o => howns o _
    · exact (hdb.reader r hr).imp fun o => howns o _
  · intro d hd i hi
    exact howns _ _ (hdb.draft d hd i hi)
  · intro x hx
    obtain ⟨hx, -⟩ | ⟨p, hp, rfl⟩ := (hmem x).mp hx
    · exact (hdb.pieceSource x hx).imp fun o => And.imp_left (howns o _)
    · exact ⟨owner, howns _ _ hpiece, hsources p hp⟩
  · intro f hf g hg hkey
    obtain rfl | ⟨hold, hfne⟩ := Table.mem_put.mp hf
    · obtain rfl | ⟨hg, hgne⟩ := Table.mem_put.mp hg
      · rfl
      · exact absurd (hpdf g hg hkey.symm) hgne
    · obtain rfl | ⟨hg, hgne⟩ := Table.mem_put.mp hg
      · exact absurd (hpdf f hold hkey) hfne
      · exact hdb.pdfKeys f hold g hg hkey
  · intro f hf a ha hkey
    obtain rfl | ⟨hf, -⟩ := Table.mem_put.mp hf
    · exact absurd hkey.symm (hasset a ha)
    · exact (hdb.shared f hf a ha hkey).imp_left (howns _ _)
  · intro p hp m hm q hq
    obtain ⟨p₀, hp₀, rfl⟩ := mem_updatePieces.mp hp
    refine (hmem _).mpr ?_
    by_cases hid : p₀.id = pieceId
    · rw [if_pos (by simpa using hid)] at hm ⊢
      obtain rfl : plan.draft.row.manifest = m := Option.some.inj hm
      exact Or.inr ⟨q, hq, by rw [← hid]; rfl⟩
    · rw [if_neg (by simpa using hid)] at hm ⊢
      exact Or.inl ⟨hdb.saved p₀ hp₀ m hm q hq, hid⟩

theorem closeDraft_coherent {draftId : Id} {old : Option PdfRow} (hdb : db.Coherent)
    (hpiece : db.OwnsPiece owner pieceId) (hdraft : db.OwnsDraft owner draftId) :
    (closeDraft draftId pieceId old now db).Coherent := by
  apply Db.Coherent.queueOld
  apply Coherent.collectOrphans
  apply Coherent.deleteDraftSources
  apply hdb.updateDraft
  intro d hd hid i hi
  obtain rfl : pieceId = i := Option.some.inj hi
  rwa [OwnsDraft.unique ⟨d, hd, hid, rfl⟩ hdraft]

theorem finalizeTarget_coherent (hdb : db.Coherent) {db₁ : Db}
    (hmetadata : ∃ m, finalizePlan owner plan.draft m db = .ok plan)
    (h : finalizeTarget owner plan newId now db = .ok (pieceId, db₁)) :
    db₁.Coherent ∧ db₁.OwnsPiece owner pieceId := by
  obtain ⟨m, hplan⟩ := hmetadata
  obtain ⟨hid, rfl⟩ | ⟨hid, rfl, hinsert⟩ := finalizeTarget_ok h
  · cases finalizePlan_targets hplan with
    | piece current hp howner hid' =>
      obtain rfl : pieceId = current.id := Option.some.inj (hid.symm.trans hid')
      exact ⟨hdb, current, hp, rfl, howner⟩
    | new hid' =>
      rw [hid] at hid'
      cases hid'
  · refine ⟨hdb.insertPiece hinsert rfl, ?_⟩
    obtain ⟨pieces, hpieces, rfl⟩ := insertPiece_eq_ok.mp hinsert
    exact ⟨_, (Table.mem_insert? hpieces).mpr (Or.inr rfl), rfl, rfl⟩

theorem finalizeTarget_tables {db₁ : Db}
    (h : finalizeTarget owner plan newId now db = .ok (pieceId, db₁)) :
    ∃ pieces, db₁ = db.setPieces pieces := by
  obtain ⟨-, rfl⟩ | ⟨-, -, hinsert⟩ := finalizeTarget_ok h
  · exact ⟨db₁.pieces, rfl⟩
  · obtain ⟨pieces, -, rfl⟩ := insertPiece_eq_ok.mp hinsert
    exact ⟨pieces, rfl⟩

theorem finalizeWrites_coherent {revision : Int} {data : Bytes} (hdb : db.Coherent)
    (hplan : Planned s owner id revision data now db plan)
    (hasset : ∀ a ∈ db.assets, a.storageKey ≠ object.key)
    (h : finalizeWrites s owner plan object newId now db = .ok (db', result)) : db'.Coherent := by
  obtain ⟨pieceId, db₂, hsave, rfl, -⟩ := finalizeWrites_ok h
  obtain ⟨db₁, pieceSources, htarget, ⟨-, hpdf⟩, hmem, -, rfl⟩ := savePiece_ok hsave
  obtain ⟨m, -, hm⟩ := hplan.metadata
  obtain ⟨hdb₁, hpiece⟩ := finalizeTarget_coherent hdb ⟨m, hm⟩ htarget
  obtain ⟨pieces, rfl⟩ := finalizeTarget_tables htarget
  have hsources : ∀ p ∈ plan.draft.row.manifest.pages, db.OwnsAsset owner p.sourceId :=
    fun p hp => ownsAsset_of_valid hplan.manifest hp
  apply closeDraft_coherent (pieceSaved_coherent hdb₁ hpiece hpdf hasset hmem hsources)
    (ownsPiece_updatePieces.mpr hpiece)
  exact ⟨plan.draft.row, hplan.draft_mem, rfl, hplan.draft_owner⟩

end Finalize

theorem Call.coherent {c : Call} (hdb : db.Coherent)
    (h : c.run s fresh now db = .ok db') : db'.Coherent := by
  have hediting : Editing s now SamePiece := samePiece_editing
  cases c with
  | createImport owner input work => exact createImport_coherent hdb h
  | updateImport owner id input => exact updateImport_coherent hdb h
  | deleteImport owner id => exact deleteImport_coherent hdb h
  | createPiece owner input => exact createPiece_coherent hdb h
  | updatePiece owner id patch => exact hdb.rewrites (updatePiece_rewrites hediting h)
  | deletePiece owner id => exact deletePiece_coherent hdb h
  | putReaderState owner id state => exact putReaderState_coherent hdb h
  | mergeComposers owner input =>
    obtain ⟨⟨_, preview⟩, hmerge, rfl⟩ := map_eq_ok.mp h
    exact hdb.rewrites (mergeComposers_rewrites hediting hmerge)
  | repairComposerKeys =>
    obtain rfl : Noted.repairComposerKeys s db = db' := by simpa [Call.run] using h
    exact hdb.rewrites (repairComposerKeys_rewrites hediting db)
  | refoldSearchText force =>
    exact hdb.rewrites (refoldSearchText_rewrites hediting h)

end Noted
