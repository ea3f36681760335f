import Noted.Library.Selection
import Noted.Assets

/-!
# The rows of an owner

Every row belongs to one owner: a piece, a draft and an asset by a column, the others by
the piece or the draft they are about. The statements of the service commute with the
selection of an owner's rows, the collection of orphans included, and a statement about
rows of somebody else leaves it as it is.

The view of an owner has each piece under the filing key that the library uses for it,
so that a repair of stale keys does not show.
-/

namespace Noted

open Library Db

attribute [ext] Db

variable (s : Service)

section Definitions

variable (owner : Id) (db : Db)

def Db.ownsPiece (owner id : Id) : Bool := db.pieces.rows.any fun p => p.id == id && p.userId == owner

def Db.ownsDraft (owner id : Id) : Bool := db.drafts.rows.any fun d => d.id == id && d.userId == owner

/-- The rows of an owner. The queue is nobody's. -/
@[simps] def Db.ownRows : Db where
  pieces := db.pieces.filter fun p => p.userId == owner
  pdfs := db.pdfs.filter fun f => db.ownsPiece owner f.pieceId
  readers := db.readers.filter fun r => db.ownsPiece owner r.pieceId
  drafts := db.drafts.filter fun d => d.userId == owner
  assets := db.assets.filter fun a => a.userId == owner
  draftSources := db.draftSources.filter fun x => db.ownsDraft owner x.draftId
  pieceSources := db.pieceSources.filter fun x => db.ownsPiece owner x.pieceId
  queue := ∅
  foldVersion := db.foldVersion

def PieceRow.filed (p : PieceRow) : PieceRow :=
  { p with
    composerSort := filingKey s p
    composerSortSource := p.composer
    composerSortVersion := composerKeyVersion }

def filedPiece : Db.PieceChange where
  apply := PieceRow.filed s
  id_eq _ := rfl
  userId_eq _ := rfl

def Db.filed : Db := db.updatePieces (fun _ => true) (filedPiece s)

/-- What an owner can learn from the database. -/
def Db.view : Db := (db.ownRows owner).filed s

end Definitions

variable {s} {owner id : Id} {db : Db} {now : Time}

section Owners

theorem ownsPiece_iff : db.ownsPiece owner id = true ↔ db.OwnsPiece owner id := by
  simp [Db.ownsPiece, OwnsPiece, Table.mem_rows]

theorem ownsDraft_iff : db.ownsDraft owner id = true ↔ db.OwnsDraft owner id := by
  simp [Db.ownsDraft, OwnsDraft, Table.mem_rows]

theorem not_ownsPiece_iff : db.ownsPiece owner id = false ↔ ¬db.OwnsPiece owner id := by
  rw [← ownsPiece_iff, Bool.not_eq_true]

theorem not_ownsDraft_iff : db.ownsDraft owner id = false ↔ ¬db.OwnsDraft owner id := by
  rw [← ownsDraft_iff, Bool.not_eq_true]

theorem ownsPiece_congr {db' : Db} (h : db'.OwnsPiece owner id ↔ db.OwnsPiece owner id) :
    db'.ownsPiece owner id = db.ownsPiece owner id := by
  rw [Bool.eq_iff_iff, ownsPiece_iff, ownsPiece_iff, h]

theorem ownsDraft_congr {db' : Db} (h : db'.OwnsDraft owner id ↔ db.OwnsDraft owner id) :
    db'.ownsDraft owner id = db.ownsDraft owner id := by
  rw [Bool.eq_iff_iff, ownsDraft_iff, ownsDraft_iff, h]

@[simp] theorem ownsPiece_ownRows :
    (db.ownRows owner).ownsPiece owner id = db.ownsPiece owner id := by
  rw [Bool.eq_iff_iff, ownsPiece_iff, ownsPiece_iff]
  simp only [OwnsPiece, ownRows_pieces, Table.mem_filter, beq_iff_eq]
  exact exists_congr fun p => by tauto

@[simp] theorem ownsDraft_ownRows :
    (db.ownRows owner).ownsDraft owner id = db.ownsDraft owner id := by
  rw [Bool.eq_iff_iff, ownsDraft_iff, ownsDraft_iff]
  simp only [OwnsDraft, ownRows_drafts, Table.mem_filter, beq_iff_eq]
  exact exists_congr fun d => by tauto

@[simp] theorem ownRows_ownRows : (db.ownRows owner).ownRows owner = db.ownRows owner := by
  ext1
  · exact Table.filter_self _ _
  · simp only [ownRows_pdfs, ownsPiece_ownRows, Table.filter_self]
  · simp only [ownRows_readers, ownsPiece_ownRows, Table.filter_self]
  · exact Table.filter_self _ _
  · exact Table.filter_self _ _
  · simp only [ownRows_draftSources, ownsDraft_ownRows, Table.filter_self]
  · simp only [ownRows_pieceSources, ownsPiece_ownRows, Table.filter_self]
  · rfl
  · rfl

theorem ownRows_eq {db' : Db} (hpiece : ∀ id, db'.OwnsPiece owner id ↔ db.OwnsPiece owner id)
    (hdraft : ∀ id, db'.OwnsDraft owner id ↔ db.OwnsDraft owner id) :
    db'.ownRows owner =
      { pieces := db'.pieces.filter fun p => p.userId == owner
        pdfs := db'.pdfs.filter fun f => db.ownsPiece owner f.pieceId
        readers := db'.readers.filter fun r => db.ownsPiece owner r.pieceId
        drafts := db'.drafts.filter fun d => d.userId == owner
        assets := db'.assets.filter fun a => a.userId == owner
        draftSources := db'.draftSources.filter fun x => db.ownsDraft owner x.draftId
        pieceSources := db'.pieceSources.filter fun x => db.ownsPiece owner x.pieceId
        queue := ∅
        foldVersion := db'.foldVersion } := by
  have hp : db'.ownsPiece owner = db.ownsPiece owner :=
    funext fun id => ownsPiece_congr (hpiece id)
  have hd : db'.ownsDraft owner = db.ownsDraft owner :=
    funext fun id => ownsDraft_congr (hdraft id)
  rw [ownRows, hp, hd]

end Owners

section Updates

variable {where_ : PieceRow → Bool} {change : PieceChange} {draftId pieceId assetId : Id}
  {dchange : DraftChange}

@[simp] theorem ownRows_updatePieces :
    (db.updatePieces where_ change).ownRows owner =
      (db.ownRows owner).updatePieces where_ change := by
  rw [ownRows_eq (fun _ => ownsPiece_updatePieces) fun _ => by rfl]
  ext1
  · exact Table.filter_modify change.id_eq fun p _ => by rw [change.userId_eq]
  all_goals rfl

@[simp] theorem ownRows_updateDraft :
    (db.updateDraft draftId dchange).ownRows owner =
      (db.ownRows owner).updateDraft draftId dchange := by
  rw [ownRows_eq (fun _ => by rfl) fun _ => ownsDraft_updateDraft]
  ext1
  case drafts => exact Table.filter_modify dchange.id_eq fun d _ => by rw [dchange.userId_eq]
  all_goals rfl

@[simp] theorem ownRows_resetReader :
    (db.resetReader pieceId).ownRows owner = (db.ownRows owner).resetReader pieceId := by
  ext1
  case readers =>
    apply Table.filter_modify
    · intro r
      rfl
    · intro r _
      rfl
  all_goals rfl

@[simp] theorem ownRows_queueOld (old : Option PdfRow) :
    (db.queueOld now old).ownRows owner = db.ownRows owner := by
  obtain ⟨queue, heq⟩ := queueOld_eq db now old
  rw [heq]
  rfl

end Updates

section Deletes

variable {draftId pieceId : Id} {goneDraft : DraftRow → Bool} {gonePiece : PieceRow → Bool}

@[simp] theorem ownRows_deleteDraftSources :
    (db.deleteDraftSources draftId).ownRows owner =
      (db.ownRows owner).deleteDraftSources draftId := by
  ext1
  case draftSources => exact Table.filter_delete _ _ _
  all_goals rfl

@[simp] theorem ownRows_deleteDrafts :
    (db.deleteDrafts goneDraft).ownRows owner = (db.ownRows owner).deleteDrafts goneDraft := by
  ext1
  case drafts => exact Table.filter_delete _ _ _
  case draftSources => exact Table.filter_delete_refs db.drafts db.draftSources DraftSource.draftId _ _
  all_goals rfl

theorem deleteDrafts_congr {gone gone' : DraftRow → Bool} (h : ∀ d ∈ db.drafts, gone d = gone' d) :
    db.deleteDrafts gone = db.deleteDrafts gone' := by
  ext1
  case drafts => exact Table.delete_congr h
  case draftSources =>
    refine Table.delete_congr fun x _ => ?_
    rw [Bool.eq_iff_iff, List.any_eq_true, List.any_eq_true]
    refine exists_congr fun d => and_congr_right fun hd => ?_
    rw [h d hd]
  all_goals rfl

theorem ownRows_deletePieces (hdb : db.Coherent) :
    (db.deletePieces gonePiece).ownRows owner = (db.ownRows owner).deletePieces gonePiece := by
  have hdrafts : ∀ d ∈ (db.ownRows owner).drafts,
      (d.pieceId.any fun id => db.pieces.rows.any fun p => gonePiece p && p.id == id) =
        d.pieceId.any fun id =>
          (db.ownRows owner).pieces.rows.any fun p => gonePiece p && p.id == id := by
    intro d hd
    rw [ownRows_drafts, Table.mem_filter, beq_iff_eq] at hd
    cases hid : d.pieceId with
    | none => rfl
    | some id =>
      obtain ⟨p, hp, hpid, howner⟩ := hdb.draft d hd.1 id hid
      rw [Option.any_some, Option.any_some, Bool.eq_iff_iff, List.any_eq_true, List.any_eq_true]
      refine exists_congr fun q => ?_
      simp only [ownRows_pieces, Table.filter_rows, List.mem_filter, Bool.and_eq_true, beq_iff_eq]
      constructor
      · rintro ⟨hq, hgone, hqid⟩
        obtain rfl := Table.eq_of_key hq hp (hqid.trans hpid.symm)
        exact ⟨⟨hq, howner.trans hd.2⟩, hgone, hqid⟩
      · rintro ⟨⟨hq, -⟩, hgone, hqid⟩
        exact ⟨hq, hgone, hqid⟩
  have hown : (db.deleteDrafts fun d => d.pieceId.any fun id =>
        db.pieces.rows.any fun p => gonePiece p && p.id == id).ownRows owner =
      (db.ownRows owner).deleteDrafts fun d => d.pieceId.any fun id =>
        (db.ownRows owner).pieces.rows.any fun p => gonePiece p && p.id == id :=
    ownRows_deleteDrafts.trans (deleteDrafts_congr hdrafts)
  have hkept := congrArg Db.drafts hown
  have hsources := congrArg Db.draftSources hown
  ext1
  case pieces => exact Table.filter_delete _ _ _
  case pdfs => exact Table.filter_delete_refs db.pieces db.pdfs PdfRow.pieceId _ _
  case readers => exact Table.filter_delete_refs db.pieces db.readers ReaderRow.pieceId _ _
  case pieceSources =>
    exact Table.filter_delete_refs db.pieces db.pieceSources PieceSource.pieceId _ _
  case drafts => exact hkept
  case draftSources => exact hsources
  all_goals rfl

end Deletes

section Inserts

variable {pieceRow : PieceRow} {draftRow : DraftRow} {assetRow : AssetRow} {pdfRow : PdfRow}
  {readerRow : ReaderRow} {draftSource : DraftSource} {pieceSource : PieceSource}

theorem ownsPiece_put (hne : id ≠ pieceRow.id) :
    (db.setPieces (db.pieces.put pieceRow)).OwnsPiece owner id ↔ db.OwnsPiece owner id := by
  simp only [OwnsPiece, setPieces_pieces, Table.mem_put]
  refine exists_congr fun p => ?_
  constructor
  · rintro ⟨rfl | ⟨hp, -⟩, hid, howner⟩
    · exact absurd hid.symm hne
    · exact ⟨hp, hid, howner⟩
  · rintro ⟨hp, hid, howner⟩
    refine ⟨Or.inr ⟨hp, ?_⟩, hid, howner⟩
    rw [hid]
    exact hne

theorem ownsDraft_put (hne : id ≠ draftRow.id) :
    ({ db with drafts := db.drafts.put draftRow } : Db).OwnsDraft owner id ↔
      db.OwnsDraft owner id := by
  simp only [OwnsDraft, Table.mem_put]
  refine exists_congr fun d => ?_
  constructor
  · rintro ⟨rfl | ⟨hd, -⟩, hid, howner⟩
    · exact absurd hid.symm hne
    · exact ⟨hd, hid, howner⟩
  · rintro ⟨hd, hid, howner⟩
    refine ⟨Or.inr ⟨hd, ?_⟩, hid, howner⟩
    rw [hid]
    exact hne

theorem ownRows_putPiece (hdb : db.Coherent) (hnew : ∀ p ∈ db.pieces, p.id ≠ pieceRow.id) :
    (db.setPieces (db.pieces.put pieceRow)).ownRows owner = (db.ownRows owner).setPieces
      ((db.pieces.put pieceRow).filter fun p => p.userId == owner) := by
  have howned : ∀ o id, db.OwnsPiece o id →
      (db.setPieces (db.pieces.put pieceRow)).ownsPiece owner id = db.ownsPiece owner id := by
    rintro o id ⟨p, hp, rfl, -⟩
    exact ownsPiece_congr (ownsPiece_put (hnew p hp))
  ext1
  case pdfs =>
    refine Table.filter_congr fun f hf => ?_
    obtain ⟨o, ho⟩ := hdb.pdf f hf
    exact howned o _ ho
  case readers =>
    refine Table.filter_congr fun r hr => ?_
    obtain ⟨o, ho⟩ := hdb.reader r hr
    exact howned o _ ho
  case pieceSources =>
    refine Table.filter_congr fun x hx => ?_
    obtain ⟨o, ho, -⟩ := hdb.pieceSource x hx
    exact howned o _ ho
  all_goals rfl

theorem ownRows_putDraft (hdb : db.Coherent) (hnew : ∀ d ∈ db.drafts, d.id ≠ draftRow.id) :
    ({ db with drafts := db.drafts.put draftRow } : Db).ownRows owner = { db.ownRows owner with
      drafts := (db.drafts.put draftRow).filter fun d => d.userId == owner } := by
  ext1
  case draftSources =>
    refine Table.filter_congr fun x hx => ?_
    obtain ⟨o, ⟨d, hd, hid, -⟩, -⟩ := hdb.draftSource x hx
    refine ownsDraft_congr (ownsDraft_put ?_)
    rw [← hid]
    exact hnew d hd
  all_goals rfl

end Inserts

section Collect

theorem orphan_ownRows (hdb : db.Coherent) {a : AssetRow} (ha : a ∈ db.assets)
    (howner : a.userId = owner) : (db.ownRows owner).orphan a = db.orphan a := by
  have hasset : db.OwnsAsset owner a.id := ⟨a, ha, rfl, howner⟩
  rw [Bool.eq_iff_iff, orphan_iff, orphan_iff]
  refine and_congr ?_ ?_
  · constructor
    · intro h x hx heq
      obtain ⟨o, hdraft, hsource⟩ := hdb.draftSource x hx
      rw [heq] at hsource
      obtain rfl := hsource.unique hasset
      exact h x (Table.mem_filter.mpr ⟨hx, ownsDraft_iff.mpr hdraft⟩) heq
    · intro h x hx
      exact h x (Table.mem_filter.mp hx).1
  · constructor
    · intro h x hx heq
      obtain ⟨o, hpiece, hsource⟩ := hdb.pieceSource x hx
      rw [heq] at hsource
      obtain rfl := hsource.unique hasset
      exact h x (Table.mem_filter.mpr ⟨hx, ownsPiece_iff.mpr hpiece⟩) heq
    · intro h x hx
      exact h x (Table.mem_filter.mp hx).1

theorem ownRows_collectOrphans (hdb : db.Coherent) :
    (db.collectOrphans now).ownRows owner = { db.ownRows owner with
      assets := (db.ownRows owner).assets.delete (db.ownRows owner).orphan } := by
  obtain ⟨queue, heq, -⟩ := collectOrphans_eq db now
  rw [heq]
  ext1
  case assets =>
    refine (Table.filter_delete _ _ _).trans (Table.delete_congr fun a ha => ?_)
    obtain ⟨ha, howner⟩ := Table.mem_filter.mp ha
    exact (orphan_ownRows hdb ha (beq_iff_eq.mp howner)).symm
  all_goals rfl

end Collect

section Filed

variable {where_ : PieceRow → Bool} {change : PieceChange} {p : PieceRow}

@[simp] theorem filed_id : (p.filed s).id = p.id := rfl

theorem filed_of_fresh (h : staleComposer p = false) : p.filed s = p := by
  have hrow : p.composerSortVersion = composerKeyVersion ∧ p.composerSortSource = p.composer := by
    simpa [staleComposer] using h
  rw [PieceRow.filed, filingKey, h, if_neg Bool.false_ne_true]
  cases p
  dsimp only at hrow
  obtain ⟨rfl, rfl⟩ := hrow
  rfl

theorem filingKey_filed : filingKey s (p.filed s) = filingKey s p := by
  have hfresh : staleComposer (p.filed s) = false := by simp [staleComposer, PieceRow.filed]
  rw [filingKey, hfresh]
  rfl

@[simp] theorem filed_filed : (p.filed s).filed s = p.filed s := by
  rw [PieceRow.filed, filingKey_filed]
  rfl

theorem mem_filed : p ∈ (db.filed s).pieces ↔ ∃ q ∈ db.pieces, p = q.filed s := by
  rw [Db.filed, mem_updatePieces]
  rfl

theorem filed_rows : (db.filed s).pieces.rows = db.pieces.rows.map (PieceRow.filed s) := by
  simp [Db.filed, Table.modify, filedPiece]

@[simp] theorem db_filed_filed : (db.filed s).filed s = db.filed s := by
  ext1
  case pieces =>
    apply Table.ext
    rw [filed_rows, filed_rows, List.map_map]
    exact List.map_congr_left fun p _ => filed_filed
  all_goals rfl

theorem filed_updatePieces (hwhere : ∀ p, where_ (p.filed s) = where_ p)
    (happly : ∀ p, change.apply (p.filed s) = (change.apply p).filed s) :
    (db.updatePieces where_ change).filed s = (db.filed s).updatePieces where_ change := by
  ext1
  case pieces =>
    exact (Table.modify_modify_all change.id_eq (filedPiece s).id_eq (fun p _ => hwhere p)
      fun p _ => happly p).symm
  all_goals rfl

theorem filed_setPieces (pieces : Table PieceRow.id) : (db.setPieces pieces).filed s =
    (db.filed s).setPieces (pieces.modify (fun _ => true) (filedPiece s).apply
      (filedPiece s).id_eq) := rfl

theorem ownRows_filed : (db.filed s).ownRows owner = (db.ownRows owner).filed s :=
  ownRows_updatePieces

end Filed

section View

variable {p : PieceRow} {d : DraftRow} {a : AssetRow} {f : PdfRow} {r : ReaderRow}

@[simp] theorem view_view : (db.view s owner).view s owner = db.view s owner := by
  rw [Db.view, Db.view, ownRows_filed, ownRows_ownRows, db_filed_filed]

theorem mem_view_pieces :
    p ∈ (db.view s owner).pieces ↔ ∃ q ∈ db.pieces, q.userId = owner ∧ p = q.filed s := by
  rw [Db.view, mem_filed]
  simp [and_assoc]

theorem mem_view_drafts : d ∈ (db.view s owner).drafts ↔ d ∈ db.drafts ∧ d.userId = owner := by
  simp [Db.view, Db.filed]

theorem mem_view_assets : a ∈ (db.view s owner).assets ↔ a ∈ db.assets ∧ a.userId = owner := by
  simp [Db.view, Db.filed]

theorem mem_view_pdfs :
    f ∈ (db.view s owner).pdfs ↔ f ∈ db.pdfs ∧ db.OwnsPiece owner f.pieceId := by
  simp [Db.view, Db.filed, ownsPiece_iff]

theorem mem_view_readers :
    r ∈ (db.view s owner).readers ↔ r ∈ db.readers ∧ db.OwnsPiece owner r.pieceId := by
  simp [Db.view, Db.filed, ownsPiece_iff]

theorem mem_view_draftSources {x : DraftSource} :
    x ∈ (db.view s owner).draftSources ↔ x ∈ db.draftSources ∧ db.OwnsDraft owner x.draftId := by
  simp [Db.view, Db.filed, ownsDraft_iff]

theorem mem_view_pieceSources {x : PieceSource} :
    x ∈ (db.view s owner).pieceSources ↔ x ∈ db.pieceSources ∧ db.OwnsPiece owner x.pieceId := by
  simp [Db.view, Db.filed, ownsPiece_iff]

theorem view_ownsPiece {o : Id} :
    (db.view s owner).OwnsPiece o id ↔ db.OwnsPiece owner id ∧ o = owner := by
  simp only [OwnsPiece, mem_view_pieces]
  constructor
  · rintro ⟨_, ⟨p, hp, howner, rfl⟩, hid, ho⟩
    exact ⟨⟨p, hp, hid, howner⟩, ho.symm.trans howner⟩
  · rintro ⟨⟨p, hp, hid, howner⟩, rfl⟩
    exact ⟨_, ⟨p, hp, howner, rfl⟩, hid, howner⟩

theorem view_ownsDraft {o : Id} :
    (db.view s owner).OwnsDraft o id ↔ db.OwnsDraft owner id ∧ o = owner := by
  simp only [OwnsDraft, mem_view_drafts]
  constructor
  · rintro ⟨d, ⟨hd, howner⟩, hid, ho⟩
    exact ⟨⟨d, hd, hid, howner⟩, ho.symm.trans howner⟩
  · rintro ⟨⟨d, hd, hid, howner⟩, rfl⟩
    exact ⟨d, ⟨hd, howner⟩, hid, howner⟩

theorem view_ownsAsset {o : Id} :
    (db.view s owner).OwnsAsset o id ↔ db.OwnsAsset owner id ∧ o = owner := by
  simp only [OwnsAsset, mem_view_assets]
  constructor
  · rintro ⟨a, ⟨ha, howner⟩, hid, ho⟩
    exact ⟨⟨a, ha, hid, howner⟩, ho.symm.trans howner⟩
  · rintro ⟨⟨a, ha, hid, howner⟩, rfl⟩
    exact ⟨a, ⟨ha, howner⟩, hid, howner⟩

/-- The rows of one owner refer to each other alone. -/
theorem Db.Coherent.view (hdb : db.Coherent) : (db.view s owner).Coherent := by
  constructor
  · intro f hf
    exact ⟨owner, view_ownsPiece.mpr ⟨(mem_view_pdfs.mp hf).2, rfl⟩⟩
  · intro r hr
    exact ⟨owner, view_ownsPiece.mpr ⟨(mem_view_readers.mp hr).2, rfl⟩⟩
  · intro d hd i hi
    obtain ⟨hmem, rfl⟩ := mem_view_drafts.mp hd
    exact view_ownsPiece.mpr ⟨hdb.draft d hmem i hi, rfl⟩
  · intro x hx
    obtain ⟨hx, hdraft⟩ := mem_view_draftSources.mp hx
    obtain ⟨o, ho, hasset⟩ := hdb.draftSource x hx
    obtain rfl := ho.unique hdraft
    exact ⟨o, view_ownsDraft.mpr ⟨hdraft, rfl⟩, view_ownsAsset.mpr ⟨hasset, rfl⟩⟩
  · intro x hx
    obtain ⟨hx, hpiece⟩ := mem_view_pieceSources.mp hx
    obtain ⟨o, ho, hasset⟩ := hdb.pieceSource x hx
    obtain rfl := ho.unique hpiece
    exact ⟨o, view_ownsPiece.mpr ⟨hpiece, rfl⟩, view_ownsAsset.mpr ⟨hasset, rfl⟩⟩
  · intro f hf g hg
    exact hdb.pdfKeys f (mem_view_pdfs.mp hf).1 g (mem_view_pdfs.mp hg).1
  · intro a ha b hb
    exact hdb.assetKeys a (mem_view_assets.mp ha).1 b (mem_view_assets.mp hb).1
  · intro f hf a ha hkey
    obtain ⟨hmem, rfl⟩ := mem_view_assets.mp ha
    obtain ⟨hpiece, hcount⟩ := hdb.shared f (mem_view_pdfs.mp hf).1 a hmem hkey
    exact ⟨view_ownsPiece.mpr ⟨hpiece, rfl⟩, hcount⟩
  · intro p hp m hm q hq
    obtain ⟨q', hmem, howner, rfl⟩ := mem_view_pieces.mp hp
    exact mem_view_pieceSources.mpr ⟨hdb.saved q' hmem m hm q hq, q', hmem, rfl, howner⟩

end View

end Noted
