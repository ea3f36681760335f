import Noted.System

/-!
# Referential integrity

What the foreign keys, the unique keys and the owner conditions of the statements
keep between the tables: a PDF, a reading place, a draft and a source belong to a
piece or a draft that is there and has their owner, and a key that a PDF shares
with an asset is shared within one owner.
-/

namespace Noted

open Library

namespace Db

variable (db : Db)

def OwnsPiece (owner id : Id) : Prop := ∃ p ∈ db.pieces, p.id = id ∧ p.userId = owner

def OwnsDraft (owner id : Id) : Prop := ∃ d ∈ db.drafts, d.id = id ∧ d.userId = owner

def OwnsAsset (owner id : Id) : Prop := ∃ a ∈ db.assets, a.id = id ∧ a.userId = owner

structure Coherent : Prop where
  pdf : ∀ f ∈ db.pdfs, ∃ owner, db.OwnsPiece owner f.pieceId
  reader : ∀ r ∈ db.readers, ∃ owner, db.OwnsPiece owner r.pieceId
  draft : ∀ d ∈ db.drafts, ∀ id, d.pieceId = some id → db.OwnsPiece d.userId id
  draftSource : ∀ x ∈ db.draftSources, ∃ owner, db.OwnsDraft owner x.draftId ∧
    db.OwnsAsset owner x.assetId
  pieceSource : ∀ x ∈ db.pieceSources, ∃ owner, db.OwnsPiece owner x.pieceId ∧
    db.OwnsAsset owner x.assetId
  pdfKeys : ∀ f ∈ db.pdfs, ∀ g ∈ db.pdfs, f.storageKey = g.storageKey → f = g
  assetKeys : ∀ a ∈ db.assets, ∀ b ∈ db.assets, a.storageKey = b.storageKey → a = b
  shared : ∀ f ∈ db.pdfs, ∀ a ∈ db.assets, f.storageKey = a.storageKey →
    db.OwnsPiece a.userId f.pieceId ∧ a.pageCount = f.pageCount
  saved : ∀ p ∈ db.pieces, ∀ m, p.preparationManifest = some m →
    ∀ q ∈ m.pages, (⟨p.id, q.sourceId⟩ : PieceSource) ∈ db.pieceSources

section Queries

variable {db} {owner id key : Nat} {now : Time}

theorem piece?_eq_some {p : PieceRow} :
    db.piece? owner id = some p ↔ p ∈ db.pieces ∧ p.id = id ∧ p.userId = owner := by
  rw [piece?, Table.find?_eq_some (k := id) (by simp +contextual)]
  simp

theorem pdf?_eq_some {f : PdfRow} : db.pdf? id = some f ↔ f ∈ db.pdfs ∧ f.pieceId = id := by
  rw [pdf?, Table.find?_eq_some (k := id) (by simp)]
  simp

theorem reader?_eq_some {r : ReaderRow} :
    db.reader? id = some r ↔ r ∈ db.readers ∧ r.pieceId = id := by
  rw [reader?, Table.find?_eq_some (k := id) (by simp)]
  simp

theorem draft?_eq_some {d : DraftRow} :
    db.draft? owner id = some d ↔ d ∈ db.drafts ∧ d.id = id ∧ d.userId = owner := by
  rw [draft?, Table.find?_eq_some (k := id) (by simp +contextual)]
  simp

theorem draftTx_eq_ok {s : Service} {d : ImportDraft} : db.draftTx s owner id now = .ok d ↔
    (d.row ∈ db.drafts ∧ d.row.id = id ∧ d.row.userId = owner ∧ now < d.row.updatedAt + sevenDays) ∧
      d.sources = db.draftAssets owner id ∧ d.maxFileBytes = s.importLimit := by
  simp only [draftTx, bind_eq_ok, demand_eq_ok, pure_eq_ok, Except.ok.injEq]
  constructor
  · intro h
    obtain ⟨row, hrow, rfl⟩ := h
    rw [Table.find?_eq_some (k := id) (by simp +contextual)] at hrow
    simpa [and_assoc] using hrow
  · intro h
    obtain ⟨hrow, hsources, hmax⟩ := h
    refine ⟨d.row, ?_, ?_⟩
    · rw [Table.find?_eq_some (k := id) (by simp +contextual)]
      simpa [and_assoc] using hrow
    · cases d
      simp_all

theorem mem_draftAssets {a : AssetRow} : a ∈ db.draftAssets owner id ↔
    a ∈ db.assets ∧ a.userId = owner ∧ (⟨id, a.id⟩ : DraftSource) ∈ db.draftSources := by
  simp [draftAssets, Table.mem_rows]

theorem nodup_draftAssets : ((db.draftAssets owner id).map AssetRow.id).Nodup := by
  have hperm := List.mergeSort_perm (db.assets.rows.filter fun a =>
    a.userId == owner && db.draftSources.rows.contains ⟨id, a.id⟩)
    fun a b => a.createdAt < b.createdAt || (a.createdAt == b.createdAt && a.id ≤ b.id)
  rw [draftAssets, (hperm.map AssetRow.id).nodup_iff]
  exact db.assets.nodup.sublist (List.filter_sublist.map AssetRow.id)

theorem assetsOf_draftAssets {a : AssetRow} {assetId : Id} :
    assetsOf (db.draftAssets owner id) assetId = some a ↔
      (a ∈ db.assets ∧ a.userId = owner ∧ (⟨id, a.id⟩ : DraftSource) ∈ db.draftSources) ∧
        a.id = assetId := by
  rw [assetsOf_eq_some nodup_draftAssets, mem_draftAssets]

theorem hasPiece_iff : db.hasPiece id = true ↔ ∃ owner, db.OwnsPiece owner id := by
  simp [hasPiece, OwnsPiece, Table.mem_rows]

theorem hasAsset_iff : db.hasAsset id = true ↔ ∃ owner, db.OwnsAsset owner id := by
  simp [hasAsset, OwnsAsset, Table.mem_rows]

theorem hasDraft_iff : db.hasDraft id = true ↔ ∃ owner, db.OwnsDraft owner id := by
  simp [hasDraft, OwnsDraft, Table.mem_rows]

theorem pdfHolds_iff : db.pdfHolds key = true ↔ ∃ f ∈ db.pdfs, f.storageKey = key := by
  simp [pdfHolds, Table.mem_rows]

theorem assetHolds_iff : db.assetHolds key = true ↔ ∃ a ∈ db.assets, a.storageKey = key := by
  simp [assetHolds, Table.mem_rows]

theorem orphan_iff {a : AssetRow} : db.orphan a = true ↔
    (∀ x ∈ db.draftSources, x.assetId ≠ a.id) ∧ ∀ x ∈ db.pieceSources, x.assetId ≠ a.id := by
  simp [orphan, Table.mem_rows]

theorem OwnsPiece.unique {owner' : Id} (h : db.OwnsPiece owner id) (h' : db.OwnsPiece owner' id) :
    owner = owner' := by
  obtain ⟨p, hp, hid, rfl⟩ := h
  obtain ⟨q, hq, hqid, rfl⟩ := h'
  rw [Table.eq_of_key hp hq (hid.trans hqid.symm)]

theorem OwnsDraft.unique {owner' : Id} (h : db.OwnsDraft owner id) (h' : db.OwnsDraft owner' id) :
    owner = owner' := by
  obtain ⟨d, hd, hid, rfl⟩ := h
  obtain ⟨e, he, heid, rfl⟩ := h'
  rw [Table.eq_of_key hd he (hid.trans heid.symm)]

theorem OwnsAsset.unique {owner' : Id} (h : db.OwnsAsset owner id) (h' : db.OwnsAsset owner' id) :
    owner = owner' := by
  obtain ⟨a, ha, hid, rfl⟩ := h
  obtain ⟨b, hb, hbid, rfl⟩ := h'
  rw [Table.eq_of_key ha hb (hid.trans hbid.symm)]

end Queries

section Statements

variable {db} {db' : Db} {owner id key : Nat} {now : Time}

theorem insertPiece_eq_ok {row : PieceRow} : db.insertPiece row = .ok db' ↔
    ∃ pieces, db.pieces.insert? row = some pieces ∧ db' = db.setPieces pieces := by
  simp only [insertPiece, bind_eq_ok, demand_eq_ok, pure_eq_ok, Except.ok.injEq,
    eq_comm (b := db')]

theorem upsertPdf_eq_ok {row : PdfRow} : db.upsertPdf row = .ok db' ↔
    db.hasPiece row.pieceId = true ∧
      (∀ f ∈ db.pdfs, f.storageKey = row.storageKey → f.pieceId = row.pieceId) ∧
      db' = { db with pdfs := db.pdfs.put row } := by
  simp only [upsertPdf, bind_eq_ok, refuse_eq_ok, pure_eq_ok, Except.ok.injEq, exists_const,
    Bool.not_eq_false, eq_comm (b := db')]
  simp [Table.mem_rows]

theorem putReader_eq_ok {row : ReaderRow} : db.putReader row = .ok db' ↔
    db.hasPiece row.pieceId = true ∧ db' = { db with readers := db.readers.put row } := by
  simp only [putReader, bind_eq_ok, refuse_eq_ok, pure_eq_ok, Except.ok.injEq, exists_const,
    Bool.not_eq_false, eq_comm (b := db')]

theorem insertDraft_eq_ok {row : DraftRow} : db.insertDraft row = .ok db' ↔
    (∀ id, row.pieceId = some id → db.hasPiece id = true) ∧
      ∃ drafts, db.drafts.insert? row = some drafts ∧ db' = { db with drafts := drafts } := by
  simp only [insertDraft, bind_eq_ok, refuse_eq_ok, demand_eq_ok, pure_eq_ok, Except.ok.injEq,
    exists_const, eq_comm (b := db')]
  cases row.pieceId <;> simp

theorem insertAsset_eq_ok {row : AssetRow} : db.insertAsset row = .ok db' ↔
    (∀ a ∈ db.assets, a.storageKey ≠ row.storageKey) ∧
      ∃ assets, db.assets.insert? row = some assets ∧ db' = { db with assets := assets } := by
  simp only [insertAsset, bind_eq_ok, refuse_eq_ok, demand_eq_ok, pure_eq_ok, Except.ok.injEq,
    exists_const, eq_comm (b := db'), assetHolds_iff, not_exists, not_and, ne_eq]

theorem insertDraftSource_eq_ok {x : DraftSource} : db.insertDraftSource x = .ok db' ↔
    (db.hasDraft x.draftId = true ∧ db.hasAsset x.assetId = true) ∧
      ∃ draftSources, db.draftSources.insert? x = some draftSources ∧
        db' = { db with draftSources := draftSources } := by
  simp only [insertDraftSource, bind_eq_ok, refuse_eq_ok, demand_eq_ok, pure_eq_ok,
    Except.ok.injEq, exists_const, not_or, Bool.not_eq_false, eq_comm (b := db')]

theorem keepDraftSource_eq_ok {x : DraftSource} : db.keepDraftSource x = .ok db' ↔
    (db.hasDraft x.draftId = true ∧ db.hasAsset x.assetId = true) ∧
      db' = { db with draftSources := db.draftSources.put x } := by
  simp only [keepDraftSource, bind_eq_ok, refuse_eq_ok, pure_eq_ok, Except.ok.injEq, exists_const,
    not_or, Bool.not_eq_false, eq_comm (b := db')]

theorem keepPieceSource_eq_ok {x : PieceSource} : db.keepPieceSource x = .ok db' ↔
    (db.hasPiece x.pieceId = true ∧ db.hasAsset x.assetId = true) ∧
      db' = { db with pieceSources := db.pieceSources.put x } := by
  simp only [keepPieceSource, bind_eq_ok, refuse_eq_ok, pure_eq_ok, Except.ok.injEq, exists_const,
    not_or, Bool.not_eq_false, eq_comm (b := db')]

theorem mem_keepSource {α : Type*} [DecidableEq α] {t : Table fun x : α => x} {x y : α} :
    y ∈ t.put x ↔ y = x ∨ y ∈ t := by
  rw [Table.mem_put]
  by_cases h : y = x
  · simp [h]
  · simp [h]

theorem mem_updatePieces {where_ : PieceRow → Bool} {change : PieceChange} {p : PieceRow} :
    p ∈ (db.updatePieces where_ change).pieces ↔
      ∃ q ∈ db.pieces, p = if where_ q then change.apply q else q := by
  rw [updatePieces_pieces, Table.mem_modify]

theorem mem_updateDraft {change : DraftChange} {d : DraftRow} :
    d ∈ (db.updateDraft id change).drafts ↔
      ∃ e ∈ db.drafts, d = if e.id = id then change.apply e else e := by
  rw [updateDraft_drafts, Table.mem_modify]
  simp

@[simp] theorem ownsPiece_updatePieces {where_ : PieceRow → Bool} {change : PieceChange} :
    (db.updatePieces where_ change).OwnsPiece owner id ↔ db.OwnsPiece owner id := by
  constructor
  · intro h
    obtain ⟨p, hp, hid, howner⟩ := h
    obtain ⟨q, hq, rfl⟩ := mem_updatePieces.mp hp
    refine ⟨q, hq, ?_⟩
    split at hid <;> split at howner <;> simp_all [change.id_eq, change.userId_eq]
  · intro h
    obtain ⟨q, hq, hid, howner⟩ := h
    refine ⟨_, mem_updatePieces.mpr ⟨q, hq, rfl⟩, ?_⟩
    split <;> simp [change.id_eq, change.userId_eq, hid, howner]

@[simp] theorem ownsDraft_updateDraft {draftId : Id} {change : DraftChange} :
    (db.updateDraft draftId change).OwnsDraft owner id ↔ db.OwnsDraft owner id := by
  constructor
  · intro h
    obtain ⟨d, hd, hid, howner⟩ := h
    obtain ⟨e, he, rfl⟩ := mem_updateDraft.mp hd
    refine ⟨e, he, ?_⟩
    split at hid <;> split at howner <;> simp_all [change.id_eq, change.userId_eq]
  · intro h
    obtain ⟨e, he, hid, howner⟩ := h
    refine ⟨_, mem_updateDraft.mpr ⟨e, he, rfl⟩, ?_⟩
    split <;> simp [change.id_eq, change.userId_eq, hid, howner]

end Statements

section Collect

variable {db} {now : Time} {key : Key}

theorem enqueue_foldl (now : Time) (keys : List Key) (db : Db) :
    ∃ queue, keys.foldl (fun db key => db.enqueue now key) db = { db with queue := queue } ∧
      ∀ k, (∃ q ∈ queue, q.storageKey = k) ↔ (∃ q ∈ db.queue, q.storageKey = k) ∨ k ∈ keys := by
  induction keys generalizing db with
  | nil => exact ⟨db.queue, rfl, by simp⟩
  | cons key keys ih =>
    obtain ⟨queue, heq, hqueue⟩ := ih (db.enqueue now key)
    refine ⟨queue, heq, ?_⟩
    intro k
    rw [hqueue k, List.mem_cons]
    simp only [enqueue_queue, Table.mem_insertNew]
    constructor
    · intro h
      obtain ⟨q, hq | ⟨rfl, -⟩, rfl⟩ | h := h
      · exact Or.inl ⟨q, hq, rfl⟩
      · exact Or.inr (Or.inl rfl)
      · exact Or.inr (Or.inr h)
    · intro h
      obtain ⟨q, hq, rfl⟩ | rfl | h := h
      · exact Or.inl ⟨q, Or.inl hq, rfl⟩
      · by_cases hfree : ∀ q ∈ db.queue, q.storageKey ≠ k
        · exact Or.inl ⟨⟨k, now, 0⟩, Or.inr ⟨rfl, hfree⟩, rfl⟩
        · simp only [not_forall, not_not] at hfree
          obtain ⟨q, hq, hk⟩ := hfree
          exact Or.inl ⟨q, Or.inl hq, hk⟩
      · exact Or.inr h

/-- The assets that are in use stay, and the keys of the others are queued, but for
those of a saved PDF. -/
theorem collectOrphans_eq (db : Db) (now : Time) : ∃ queue,
    db.collectOrphans now = { db with assets := db.assets.delete db.orphan, queue := queue } ∧
      ∀ k, (∃ q ∈ queue, q.storageKey = k) ↔ (∃ q ∈ db.queue, q.storageKey = k) ∨
        ∃ a ∈ db.assets, db.orphan a = true ∧ db.pdfHolds k = false ∧ a.storageKey = k := by
  obtain ⟨queue, heq, hqueue⟩ := enqueue_foldl now
    ((db.assets.rows.filter fun a => db.orphan a && !db.pdfHolds a.storageKey).map
      AssetRow.storageKey) { db with assets := db.assets.delete db.orphan }
  refine ⟨queue, heq, ?_⟩
  intro k
  rw [hqueue k]
  refine or_congr Iff.rfl ?_
  simp only [List.mem_map, List.mem_filter, Table.mem_rows, Bool.and_eq_true, Bool.not_eq_true']
  constructor
  · intro h
    obtain ⟨a, ⟨ha, horphan, hpdf⟩, rfl⟩ := h
    exact ⟨a, ha, horphan, hpdf, rfl⟩
  · intro h
    obtain ⟨a, ha, horphan, hpdf, rfl⟩ := h
    exact ⟨a, ⟨ha, horphan, hpdf⟩, rfl⟩

theorem queueKey_eq (db : Db) (now : Time) (key : Key) : ∃ queue, db.queueKey now key = { db with queue := queue } ∧
    ∀ k, (∃ q ∈ queue, q.storageKey = k) ↔ (∃ q ∈ db.queue, q.storageKey = k) ∨
      (k = key ∧ db.referenced key = false) := by
  unfold queueKey
  split
  · rename_i h
    exact ⟨db.queue, rfl, by simp [h]⟩
  · rename_i h
    obtain ⟨queue, heq, hqueue⟩ := enqueue_foldl now [key] db
    refine ⟨queue, heq, ?_⟩
    intro k
    rw [hqueue k]
    simp [h]

section Frame

variable (db) (now) (key)

@[simp] theorem collectOrphans_pieces : (db.collectOrphans now).pieces = db.pieces := by
  obtain ⟨queue, heq, -⟩ := collectOrphans_eq db now
  rw [heq]

@[simp] theorem collectOrphans_pdfs : (db.collectOrphans now).pdfs = db.pdfs := by
  obtain ⟨queue, heq, -⟩ := collectOrphans_eq db now
  rw [heq]

@[simp] theorem collectOrphans_readers : (db.collectOrphans now).readers = db.readers := by
  obtain ⟨queue, heq, -⟩ := collectOrphans_eq db now
  rw [heq]

@[simp] theorem collectOrphans_drafts : (db.collectOrphans now).drafts = db.drafts := by
  obtain ⟨queue, heq, -⟩ := collectOrphans_eq db now
  rw [heq]

@[simp] theorem collectOrphans_assets :
    (db.collectOrphans now).assets = db.assets.delete db.orphan := by
  obtain ⟨queue, heq, -⟩ := collectOrphans_eq db now
  rw [heq]

@[simp] theorem collectOrphans_draftSources :
    (db.collectOrphans now).draftSources = db.draftSources := by
  obtain ⟨queue, heq, -⟩ := collectOrphans_eq db now
  rw [heq]

@[simp] theorem collectOrphans_pieceSources :
    (db.collectOrphans now).pieceSources = db.pieceSources := by
  obtain ⟨queue, heq, -⟩ := collectOrphans_eq db now
  rw [heq]

theorem queueOld_eq (old : Option PdfRow) :
    ∃ queue, db.queueOld now old = { db with queue := queue } := by
  cases old with
  | none => exact ⟨db.queue, rfl⟩
  | some f =>
    obtain ⟨queue, heq, -⟩ := queueKey_eq db now f.storageKey
    exact ⟨queue, heq⟩

end Frame

end Collect

section Coherence

variable {db} {db' : Db} {owner id : Id} {now : Time}

theorem Coherent.insertPiece {row : PieceRow} (h : db.Coherent)
    (hok : db.insertPiece row = .ok db') (hnew : row.preparationManifest = none) :
    db'.Coherent := by
  obtain ⟨pieces, hinsert, rfl⟩ := insertPiece_eq_ok.mp hok
  have hgrow : ∀ owner id, db.OwnsPiece owner id → (db.setPieces pieces).OwnsPiece owner id := by
    intro owner id howns
    obtain ⟨p, hp, hrest⟩ := howns
    exact ⟨p, (Table.mem_insert? hinsert).mpr (Or.inl hp), hrest⟩
  refine ⟨?_, ?_, ?_, h.draftSource, ?_, h.pdfKeys, h.assetKeys, ?_, ?_⟩
  · intro f hf
    exact (h.pdf f hf).imp fun o => hgrow o _
  · intro r hr
    exact (h.reader r hr).imp fun o => hgrow o _
  · intro d hd i hi
    exact hgrow _ _ (h.draft d hd i hi)
  · intro x hx
    exact (h.pieceSource x hx).imp fun o => And.imp_left (hgrow o _)
  · intro f hf a ha hkey
    exact (h.shared f hf a ha hkey).imp_left (hgrow _ _)
  · intro p hp m hm
    obtain hp | rfl := (Table.mem_insert? hinsert).mp hp
    · exact h.saved p hp m hm
    · rw [hnew] at hm
      cases hm

theorem Coherent.putReader {row : ReaderRow} (h : db.Coherent)
    (hok : db.putReader row = .ok db') : db'.Coherent := by
  obtain ⟨hpiece, rfl⟩ := putReader_eq_ok.mp hok
  refine ⟨h.pdf, ?_, h.draft, h.draftSource, h.pieceSource, h.pdfKeys, h.assetKeys,
    h.shared, h.saved⟩
  intro r hr
  obtain rfl | ⟨hr, -⟩ := Table.mem_put.mp hr
  · exact hasPiece_iff.mp hpiece
  · exact h.reader r hr

theorem Coherent.insertDraft {row : DraftRow} (h : db.Coherent)
    (hok : db.insertDraft row = .ok db')
    (howner : ∀ i, row.pieceId = some i → db.OwnsPiece row.userId i) : db'.Coherent := by
  obtain ⟨-, drafts, hinsert, rfl⟩ := insertDraft_eq_ok.mp hok
  refine ⟨h.pdf, h.reader, ?_, ?_, h.pieceSource, h.pdfKeys, h.assetKeys, h.shared,
    h.saved⟩
  · intro d hd i hi
    obtain hd | rfl := (Table.mem_insert? hinsert).mp hd
    · exact h.draft d hd i hi
    · exact howner i hi
  · intro x hx
    obtain ⟨o, ⟨d, hd, hrest⟩, hasset⟩ := h.draftSource x hx
    exact ⟨o, ⟨d, (Table.mem_insert? hinsert).mpr (Or.inl hd), hrest⟩, hasset⟩

theorem Coherent.updateDraft {change : DraftChange} (h : db.Coherent)
    (howner : ∀ d ∈ db.drafts, d.id = id → ∀ i, (change.apply d).pieceId = some i →
      db.OwnsPiece d.userId i) : (db.updateDraft id change).Coherent := by
  refine ⟨h.pdf, h.reader, ?_, ?_, h.pieceSource, h.pdfKeys, h.assetKeys, h.shared,
    h.saved⟩
  · intro d hd i hi
    obtain ⟨e, he, rfl⟩ := mem_updateDraft.mp hd
    by_cases hid : e.id = id
    · rw [if_pos hid] at hi ⊢
      rw [change.userId_eq]
      exact howner e he hid i hi
    · rw [if_neg hid] at hi ⊢
      exact h.draft e he i hi
  · intro x hx
    obtain ⟨o, hdraft, hasset⟩ := h.draftSource x hx
    exact ⟨o, ownsDraft_updateDraft.mpr hdraft, hasset⟩

theorem Coherent.deleteDrafts (h : db.Coherent) (gone : DraftRow → Bool) :
    (db.deleteDrafts gone).Coherent := by
  refine ⟨h.pdf, h.reader, ?_, ?_, h.pieceSource, h.pdfKeys, h.assetKeys, h.shared,
    h.saved⟩
  · intro d hd i hi
    rw [deleteDrafts_drafts, Table.mem_delete] at hd
    exact h.draft d hd.1 i hi
  · intro x hx
    rw [deleteDrafts_draftSources, Table.mem_delete] at hx
    obtain ⟨hx, hkept⟩ := hx
    obtain ⟨o, ⟨d, hd, hid, howner⟩, hasset⟩ := h.draftSource x hx
    refine ⟨o, ⟨d, ?_, hid, howner⟩, hasset⟩
    rw [deleteDrafts_drafts, Table.mem_delete]
    refine ⟨hd, ?_⟩
    have hno := List.any_eq_false.mp hkept d hd
    simpa [hid] using hno

theorem Coherent.insertAsset {row : AssetRow} (h : db.Coherent)
    (hok : db.insertAsset row = .ok db')
    (hshared : ∀ f ∈ db.pdfs, f.storageKey = row.storageKey →
      db.OwnsPiece row.userId f.pieceId ∧ row.pageCount = f.pageCount) : db'.Coherent := by
  obtain ⟨hfree, assets, hinsert, rfl⟩ := insertAsset_eq_ok.mp hok
  have hgrow : ∀ owner id, db.OwnsAsset owner id →
      ({ db with assets := assets } : Db).OwnsAsset owner id := by
    intro owner id howns
    obtain ⟨a, ha, hrest⟩ := howns
    exact ⟨a, (Table.mem_insert? hinsert).mpr (Or.inl ha), hrest⟩
  refine ⟨h.pdf, h.reader, h.draft, ?_, ?_, h.pdfKeys, ?_, ?_, h.saved⟩
  · intro x hx
    exact (h.draftSource x hx).imp fun o => And.imp_right (hgrow o _)
  · intro x hx
    exact (h.pieceSource x hx).imp fun o => And.imp_right (hgrow o _)
  · intro a ha b hb hkey
    obtain ha | rfl := (Table.mem_insert? hinsert).mp ha
    · obtain hb | rfl := (Table.mem_insert? hinsert).mp hb
      · exact h.assetKeys a ha b hb hkey
      · exact absurd hkey (hfree a ha)
    · obtain hb | rfl := (Table.mem_insert? hinsert).mp hb
      · exact absurd hkey.symm (hfree b hb)
      · rfl
  · intro f hf a ha hkey
    obtain ha | rfl := (Table.mem_insert? hinsert).mp ha
    · exact h.shared f hf a ha hkey
    · exact hshared f hf hkey

theorem Coherent.addDraftSource {x : DraftSource} {draftSources : Table fun s : DraftSource => s}
    (h : db.Coherent) (hsub : ∀ y ∈ draftSources, y = x ∨ y ∈ db.draftSources)
    (howner : ∃ o, db.OwnsDraft o x.draftId ∧ db.OwnsAsset o x.assetId) :
    ({ db with draftSources := draftSources } : Db).Coherent := by
  refine ⟨h.pdf, h.reader, h.draft, ?_, h.pieceSource, h.pdfKeys, h.assetKeys, h.shared,
    h.saved⟩
  intro y hy
  obtain rfl | hy := hsub y hy
  · exact howner
  · exact h.draftSource y hy

theorem Coherent.insertDraftSource {x : DraftSource} (h : db.Coherent)
    (hok : db.insertDraftSource x = .ok db')
    (howner : ∃ o, db.OwnsDraft o x.draftId ∧ db.OwnsAsset o x.assetId) : db'.Coherent := by
  obtain ⟨-, draftSources, hinsert, rfl⟩ := insertDraftSource_eq_ok.mp hok
  apply h.addDraftSource _ howner
  intro y hy
  exact ((Table.mem_insert? hinsert).mp hy).symm

theorem Coherent.deleteDraftSources (h : db.Coherent) (id : Id) :
    (db.deleteDraftSources id).Coherent := by
  refine ⟨h.pdf, h.reader, h.draft, ?_, h.pieceSource, h.pdfKeys, h.assetKeys, h.shared,
    h.saved⟩
  intro x hx
  rw [deleteDraftSources_draftSources, Table.mem_delete] at hx
  exact h.draftSource x hx.1

theorem ownsPiece_deletePieces {gone : PieceRow → Bool} {o i : Id} (howns : db.OwnsPiece o i)
    (hkept : (db.pieces.rows.any fun p => gone p && p.id == i) = false) :
    (db.deletePieces gone).OwnsPiece o i := by
  obtain ⟨p, hp, rfl, howner⟩ := howns
  refine ⟨p, ?_, rfl, howner⟩
  have hno := List.any_eq_false.mp hkept p hp
  exact Table.mem_delete.mpr ⟨hp, by simpa using hno⟩

theorem Coherent.deletePieces (h : db.Coherent) (gone : PieceRow → Bool) :
    (db.deletePieces gone).Coherent := by
  have hd := h.deleteDrafts fun d =>
    d.pieceId.any fun i => db.pieces.rows.any fun p => gone p && p.id == i
  refine ⟨?_, ?_, ?_, hd.draftSource, ?_, ?_, h.assetKeys, ?_, ?_⟩
  · intro f hf
    obtain ⟨hf, hkept⟩ := Table.mem_delete.mp hf
    exact (h.pdf f hf).imp fun o ho => ownsPiece_deletePieces ho hkept
  · intro r hr
    obtain ⟨hr, hkept⟩ := Table.mem_delete.mp hr
    exact (h.reader r hr).imp fun o ho => ownsPiece_deletePieces ho hkept
  · intro d hd i hi
    obtain ⟨hd, hkept⟩ := Table.mem_delete.mp hd
    rw [hi, Option.any_some] at hkept
    exact ownsPiece_deletePieces (h.draft d hd i hi) hkept
  · intro x hx
    obtain ⟨hx, hkept⟩ := Table.mem_delete.mp hx
    obtain ⟨o, hpiece, hasset⟩ := h.pieceSource x hx
    exact ⟨o, ownsPiece_deletePieces hpiece hkept, hasset⟩
  · intro f hf g hg hkey
    exact h.pdfKeys f (Table.mem_delete.mp hf).1 g (Table.mem_delete.mp hg).1 hkey
  · intro f hf a ha hkey
    obtain ⟨hf, hkept⟩ := Table.mem_delete.mp hf
    exact (h.shared f hf a ha hkey).imp_left fun ho => ownsPiece_deletePieces ho hkept
  · intro p hp m hm q hq
    obtain ⟨hp, hkept⟩ := Table.mem_delete.mp hp
    refine Table.mem_delete.mpr ⟨h.saved p hp m hm q hq, ?_⟩
    apply List.any_eq_false.mpr
    intro p' hp'
    rw [Bool.and_eq_true, beq_iff_eq, not_and]
    intro hgone hid
    rw [Table.eq_of_key hp' hp hid, hkept] at hgone
    cases hgone

theorem Coherent.queue (h : db.Coherent) (queue : Table QueueRow.storageKey) :
    ({ db with queue := queue } : Db).Coherent :=
  ⟨h.pdf, h.reader, h.draft, h.draftSource, h.pieceSource, h.pdfKeys, h.assetKeys,
    h.shared, h.saved⟩

theorem Coherent.queueKey (h : db.Coherent) (now : Time) (key : Key) :
    (db.queueKey now key).Coherent := by
  obtain ⟨queue, heq, -⟩ := queueKey_eq db now key
  rw [heq]
  exact h.queue queue

theorem Coherent.collectOrphans (h : db.Coherent) (now : Time) :
    (db.collectOrphans now).Coherent := by
  obtain ⟨queue, heq, -⟩ := collectOrphans_eq db now
  rw [heq]
  refine ⟨h.pdf, h.reader, h.draft, ?_, ?_, h.pdfKeys, ?_, ?_, h.saved⟩
  · intro x hx
    obtain ⟨o, hdraft, a, ha, hid, howner⟩ := h.draftSource x hx
    refine ⟨o, hdraft, a, Table.mem_delete.mpr ⟨ha, ?_⟩, hid, howner⟩
    rw [Bool.eq_false_iff]
    intro horphan
    exact (orphan_iff.mp horphan).1 x hx hid.symm
  · intro x hx
    obtain ⟨o, hpiece, a, ha, hid, howner⟩ := h.pieceSource x hx
    refine ⟨o, hpiece, a, Table.mem_delete.mpr ⟨ha, ?_⟩, hid, howner⟩
    rw [Bool.eq_false_iff]
    intro horphan
    exact (orphan_iff.mp horphan).2 x hx hid.symm
  · intro a ha b hb hkey
    exact h.assetKeys a (Table.mem_delete.mp ha).1 b (Table.mem_delete.mp hb).1 hkey
  · intro f hf a ha hkey
    exact h.shared f hf a (Table.mem_delete.mp ha).1 hkey

end Coherence

end Db

end Noted
