import Noted.Isolation.Queries
import Noted.Rows

/-!
# What an owner's transactions do to the view

A transaction of an owner does to the owner's view what it does to the database: run on
the view, it is refused for the same reason or leaves the same view. Nothing that it
checks or writes depends on a row of somebody else.
-/

namespace Noted

open Library Db

variable {s : Service} {owner id : Id} {db db' : Db} {now : Time} {fresh : Fresh}

section Statements

variable {where_ : PieceRow → Bool} {change : PieceChange} {dchange : DraftChange}
  {gonePiece : PieceRow → Bool} {goneDraft : DraftRow → Bool} {old : Option PdfRow}

theorem view_updatePieces (hwhere : ∀ p, where_ (p.filed s) = where_ p)
    (happly : ∀ p, change.apply (p.filed s) = (change.apply p).filed s) :
    (db.updatePieces where_ change).view s owner = (db.view s owner).updatePieces where_ change := by
  rw [Db.view, ownRows_updatePieces, filed_updatePieces hwhere happly, ← Db.view]

theorem view_updateDraft : (db.updateDraft id dchange).view s owner =
    (db.view s owner).updateDraft id dchange := by
  rw [Db.view, ownRows_updateDraft]
  rfl

theorem view_resetReader : (db.resetReader id).view s owner = (db.view s owner).resetReader id := by
  rw [Db.view, ownRows_resetReader]
  rfl

theorem view_deleteDraftSources : (db.deleteDraftSources id).view s owner =
    (db.view s owner).deleteDraftSources id := by
  rw [Db.view, ownRows_deleteDraftSources]
  rfl

theorem view_deleteDrafts : (db.deleteDrafts goneDraft).view s owner =
    (db.view s owner).deleteDrafts goneDraft := by
  rw [Db.view, ownRows_deleteDrafts]
  rfl

theorem view_queueOld : (db.queueOld now old).view s owner = db.view s owner := by
  rw [Db.view, ownRows_queueOld, ← Db.view]

theorem view_deletePieces (hdb : db.Coherent) (hgone : ∀ p, gonePiece (p.filed s) = gonePiece p) :
    (db.deletePieces gonePiece).view s owner = (db.view s owner).deletePieces gonePiece := by
  have hremoved : ∀ i, ((db.view s owner).pieces.rows.any fun p => gonePiece p && p.id == i) =
      (db.ownRows owner).pieces.rows.any fun p => gonePiece p && p.id == i := by
    intro i
    rw [Db.view, filed_rows, List.any_map]
    congr 1
    funext p
    simp [hgone]
  rw [Db.view, ownRows_deletePieces hdb]
  unfold deletePieces
  simp only [hremoved]
  ext1
  case pieces =>
    apply Table.ext
    rw [filed_rows]
    change _ = (((db.ownRows owner).filed s).pieces.rows.filter _)
    rw [filed_rows, List.filter_map]
    congr 1
    refine List.filter_congr fun p _ => ?_
    rw [Function.comp_apply, hgone]
  all_goals rfl

theorem view_collectOrphans (hdb : db.Coherent) : (db.collectOrphans now).view s owner =
    { db.view s owner with assets := (db.view s owner).assets.delete (db.view s owner).orphan } := by
  rw [Db.view, ownRows_collectOrphans hdb]
  rfl

end Statements

section Inserts

variable {pieceRow : PieceRow} {draftRow : DraftRow} {assetRow : AssetRow} {pdfRow : PdfRow}
  {readerRow : ReaderRow}

theorem view_putPiece (hdb : db.Coherent) (hnew : ∀ p ∈ db.pieces, p.id ≠ pieceRow.id)
    (howner : pieceRow.userId = owner) : (db.setPieces (db.pieces.put pieceRow)).view s owner =
      (db.view s owner).setPieces ((db.view s owner).pieces.put (pieceRow.filed s)) := by
  rw [Db.view, ownRows_putPiece hdb hnew,
    Table.filter_put_of (by simpa using howner) fun p hp h => absurd h (hnew p hp),
    filed_setPieces, Table.modify_put]
  rfl

theorem view_putDraft (hdb : db.Coherent) (hnew : ∀ d ∈ db.drafts, d.id ≠ draftRow.id)
    (howner : draftRow.userId = owner) :
    ({ db with drafts := db.drafts.put draftRow } : Db).view s owner =
      { db.view s owner with drafts := (db.view s owner).drafts.put draftRow } := by
  rw [Db.view, ownRows_putDraft hdb hnew,
    Table.filter_put_of (by simpa using howner) fun d hd h => absurd h (hnew d hd)]
  rfl

theorem view_putAsset (hnew : ∀ a ∈ db.assets, a.id ≠ assetRow.id)
    (howner : assetRow.userId = owner) :
    ({ db with assets := db.assets.put assetRow } : Db).view s owner =
      { db.view s owner with assets := (db.view s owner).assets.put assetRow } := by
  ext1
  case assets =>
    exact Table.filter_put_of (by simpa using howner) fun a ha h => absurd h (hnew a ha)
  all_goals rfl

theorem view_putReader (howns : db.OwnsPiece owner readerRow.pieceId) :
    ({ db with readers := db.readers.put readerRow } : Db).view s owner =
      { db.view s owner with readers := (db.view s owner).readers.put readerRow } := by
  ext1
  case readers =>
    refine Table.filter_put_of (ownsPiece_iff.mpr howns) fun r _ h => ownsPiece_iff.mpr ?_
    rwa [h]
  all_goals rfl

end Inserts

section Bind

universe u v

variable {ε : Type u} {α β γ : Type v} {x : Except ε α} {f g : α → Except ε β} {h : β → γ}

theorem map_bind_congr (hfg : ∀ a, x = .ok a → h <$> f a = h <$> g a) :
    h <$> (x >>= f) = h <$> (x >>= g) := by
  cases x with
  | error e => rfl
  | ok a => exact hfg a rfl

theorem map_bind_related {δ κ : Type v} {y : Except ε δ} {k : α → κ} {l : δ → κ}
    {g : δ → Except ε β} {m : β → γ} (hxy : k <$> x = l <$> y)
    (hfg : ∀ a b, x = .ok a → y = .ok b → k a = l b → m <$> f a = m <$> g b) :
    m <$> (x >>= f) = m <$> (y >>= g) := by
  cases x with
  | error e =>
    cases y with
    | error e' =>
      obtain rfl : e = e' := Except.error.inj hxy
      rfl
    | ok b => cases hxy
  | ok a =>
    cases y with
    | error e' => cases hxy
    | ok b => exact hfg a b rfl rfl (Except.ok.inj hxy)

end Bind

/-- A transaction does to the view of an owner what it does to the database. -/
def Local (s : Service) (owner : Id) (tx : Db → Except Error Db) (db : Db) : Prop :=
  Db.view s owner <$> tx db = Db.view s owner <$> tx (db.view s owner)

def viewed {α : Type} (s : Service) (owner : Id) (p : Db × α) : Db × α := (p.1.view s owner, p.2)

section Edit

theorem updateImport_local {input : UpdateImport} (hdb : db.Coherent) :
    Local s owner (updateImport s owner id input now) db := by
  unfold Local updateImport
  rw [draftTx_view hdb]
  refine map_bind_congr fun d _ => map_bind_congr fun _ _ => map_bind_congr fun _ _ => ?_
  refine congrArg Except.ok ?_
  rw [view_updateDraft, view_updateDraft, view_view]

theorem deleteImport_local (hdb : db.Coherent) : Local s owner (deleteImport owner id now) db := by
  unfold Local deleteImport
  rw [draft?_view]
  refine map_bind_congr fun d _ => map_bind_congr fun _ _ => ?_
  refine congrArg Except.ok ?_
  rw [view_collectOrphans (hdb.deleteDrafts _), view_collectOrphans (hdb.view.deleteDrafts _),
    view_deleteDrafts, view_deleteDrafts, view_view]

theorem expireDrafts_view (hdb : db.Coherent) : (expireDrafts now db).view s owner =
    (expireDrafts now (db.view s owner)).view s owner := by
  unfold expireDrafts
  rw [view_collectOrphans (hdb.deleteDrafts _), view_collectOrphans (hdb.view.deleteDrafts _),
    view_deleteDrafts, view_deleteDrafts, view_view]

end Edit

section Library

theorem insertPiece_eq {row : PieceRow} (hnew : ∀ p ∈ db.pieces, p.id ≠ row.id) :
    db.insertPiece row = .ok (db.setPieces (db.pieces.put row)) := by
  rw [insertPiece, Table.insert?_eq_put hnew]
  rfl

theorem view_pieces_ne {i : Id} (hnew : ∀ p ∈ db.pieces, p.id ≠ i) :
    ∀ p ∈ (db.view s owner).pieces, p.id ≠ i := by
  intro p hp
  obtain ⟨q, hq, -, rfl⟩ := mem_view_pieces.mp hp
  exact hnew q hq

theorem createPiece_local {input : PieceInput} (hdb : db.Coherent)
    (hnew : ∀ p ∈ db.pieces, p.id ≠ id) : Local s owner (createPiece s owner input id now) db := by
  unfold Local createPiece
  refine map_bind_congr fun validated _ => ?_
  rw [insertPiece_eq hnew, insertPiece_eq (view_pieces_ne hnew)]
  have hrow : (createdPiece s owner id validated now).userId = owner := rfl
  refine congrArg Except.ok ?_
  rw [view_putPiece hdb hnew hrow, view_putPiece hdb.view (view_pieces_ne hnew) hrow, view_view]

theorem updatedPiece_filed {input : PieceInput} (p : PieceRow) :
    (updatedPiece s input now).apply (p.filed s) = ((updatedPiece s input now).apply p).filed s := by
  have hfresh : staleComposer ((updatedPiece s input now).apply p) = false := by
    simp [staleComposer, updatedPiece]
  rw [filed_of_fresh hfresh]
  rfl

theorem updatePiece_local {patch : PiecePatch} : Local s owner (updatePiece s owner id patch now) db := by
  unfold Local updatePiece
  rw [piece?_view]
  cases hfound : db.piece? owner id with
  | none => rfl
  | some p =>
    rw [Option.map_some, demand_some, demand_some, ok_bind, ok_bind]
    refine map_bind_congr fun input _ => congrArg Except.ok ?_
    rw [view_updatePieces (fun _ => rfl) updatedPiece_filed,
      view_updatePieces (fun _ => rfl) updatedPiece_filed, view_view]

theorem deletePiece_local (hdb : db.Coherent) : Local s owner (deletePiece owner id now) db := by
  unfold Local deletePiece
  rw [piece?_view]
  cases hfound : db.piece? owner id with
  | none => rfl
  | some p =>
    rw [Option.map_some, demand_some, demand_some, ok_bind, ok_bind]
    refine congrArg Except.ok ?_
    rw [view_queueOld, view_queueOld, view_collectOrphans (hdb.deletePieces _),
      view_collectOrphans (hdb.view.deletePieces _), view_deletePieces hdb fun _ => rfl,
      view_deletePieces hdb.view fun _ => rfl, view_view]

theorem putReaderState_local {state : ReaderState} :
    Local s owner (putReaderState owner id state now) db := by
  unfold Local putReaderState
  rw [piece?_view]
  refine map_bind_congr fun _ _ => ?_
  cases hfound : db.piece? owner id with
  | none => rfl
  | some p =>
    have howns := ownsPiece_of_find hfound
    obtain ⟨hp, rfl, -⟩ := piece?_eq_some.mp hfound
    rw [Option.map_some, demand_some, demand_some, ok_bind, ok_bind, filed_id, pdf?_view howns]
    refine map_bind_congr fun f _ => map_bind_congr fun _ _ => ?_
    have hview : (db.view s owner).OwnsPiece owner p.id := view_ownsPiece.mpr ⟨howns, rfl⟩
    rw [putReader_eq_ok.mpr ⟨hasPiece_iff.mpr ⟨owner, howns⟩, rfl⟩,
      putReader_eq_ok.mpr ⟨hasPiece_iff.mpr ⟨owner, hview⟩, rfl⟩]
    refine congrArg Except.ok ?_
    rw [view_putReader howns, view_putReader hview, view_view]

theorem mergedPiece_filed {target : Text} (p : PieceRow) :
    (mergedPiece s target now).apply (p.filed s) = ((mergedPiece s target now).apply p).filed s := by
  have hfresh : staleComposer ((mergedPiece s target now).apply p) = false := by
    simp [staleComposer, mergedPiece]
  rw [filed_of_fresh hfresh]
  rfl

theorem mergePieces_view {target : Text} (pieces : List ComposerPiece) (db : Db) :
    (pieces.foldl (fun db piece => db.updatePieces (fun p => p.id == piece.id && p.userId == owner)
        (mergedPiece s target now)) db).view s owner =
      pieces.foldl (fun db piece => db.updatePieces (fun p => p.id == piece.id && p.userId == owner)
        (mergedPiece s target now)) (db.view s owner) := by
  induction pieces generalizing db with
  | nil => rfl
  | cons piece pieces ih =>
    rw [List.foldl_cons, List.foldl_cons, ih, view_updatePieces (fun _ => rfl) mergedPiece_filed]

theorem mergeComposers_local {input : ComposerMerge} :
    Local s owner (fun db => Prod.fst <$> mergeComposers s owner input now db) db := by
  unfold Local mergeComposers
  simp only [composerPreview_view, map_bind]
  refine bind_congr fun merge => bind_congr fun _ => bind_congr fun preview => bind_congr fun _ => ?_
  refine congrArg Except.ok ?_
  change Db.view s owner (preview.pieces.foldl _ db) = Db.view s owner (preview.pieces.foldl _ _)
  rw [mergePieces_view, mergePieces_view, view_view]

end Library

section Assets

variable {row : AssetRow}

theorem insertAsset_eq (hkey : ∀ a ∈ db.assets, a.storageKey ≠ row.storageKey)
    (hnew : ∀ a ∈ db.assets, a.id ≠ row.id) :
    db.insertAsset row = .ok { db with assets := db.assets.put row } :=
  insertAsset_eq_ok.mpr ⟨hkey, _, Table.insert?_eq_put hnew, rfl⟩

theorem view_assets_ne {α : Type*} {f : AssetRow → α} {x : α} (hnew : ∀ a ∈ db.assets, f a ≠ x) :
    ∀ a ∈ (db.view s owner).assets, f a ≠ x :=
  fun a ha => hnew a (mem_view_assets.mp ha).1

theorem retainAsset_view (hdb : db.Coherent) {f : PdfRow} (hf : f ∈ db.pdfs)
    (howns : db.OwnsPiece owner f.pieceId) (hkey : row.storageKey = f.storageKey)
    (howner : row.userId = owner) (hnew : ∀ a ∈ db.assets, a.id ≠ row.id) :
    viewed s owner <$> db.retainAsset row =
      viewed s owner <$> (db.view s owner).retainAsset row := by
  have hfind : ((db.view s owner).assets.find? fun a => a.storageKey == row.storageKey) =
      db.assets.find? fun a => a.storageKey == row.storageKey := by
    apply Table.find?_filter
    intro a ha hshared
    rw [beq_iff_eq, hkey] at hshared
    rw [beq_iff_eq, (hdb.shared f hf a ha hshared.symm).1.unique howns]
  rw [retainAsset, retainAsset, hfind]
  cases hfound : db.assets.find? fun a => a.storageKey == row.storageKey with
  | some a =>
    refine congrArg Except.ok ?_
    rw [viewed, viewed, view_view]
  | none =>
    have hfree : ∀ a ∈ db.assets, a.storageKey ≠ row.storageKey := by
      simpa using Table.find?_eq_none.mp hfound
    dsimp only
    rw [insertAsset_eq hfree hnew, insertAsset_eq (view_assets_ne hfree) (view_assets_ne hnew)]
    refine congrArg Except.ok ?_
    rw [viewed, viewed, view_putAsset hnew howner, view_putAsset (view_assets_ne hnew) howner,
      view_view]

end Assets

section Create

variable {input : CreateImport} {work : Option IMSLPWork} {start : DraftStart}

theorem pieceStart_view (hdb : db.Coherent) {p : PieceRow} (hp : p ∈ db.pieces)
    (howner : p.userId = owner) (hnew : ∀ a ∈ db.assets, a.id ≠ fresh.assetId) :
    (fun p : EditManifest × List Id × Db => (p.1, p.2.1, p.2.2.view s owner)) <$>
        pieceStart owner p fresh now db =
      (fun p : EditManifest × List Id × Db => (p.1, p.2.1, p.2.2.view s owner)) <$>
        pieceStart owner (p.filed s) fresh now (db.view s owner) := by
  have howns : db.OwnsPiece owner p.id := ⟨p, hp, rfl, howner⟩
  have hsaved : (p.filed s).preparationManifest = p.preparationManifest := rfl
  unfold pieceStart
  rw [hsaved, filed_id, pdf?_view howns]
  cases p.preparationManifest with
  | some m =>
    refine map_bind_congr fun _ _ => congrArg Except.ok ?_
    dsimp only
    rw [view_view]
  | none =>
    cases hpdf : db.pdf? p.id with
    | none =>
      refine congrArg Except.ok ?_
      dsimp only
      rw [view_view]
    | some f =>
      obtain ⟨hf, hid⟩ := pdf?_eq_some.mp hpdf
      refine map_bind_congr fun _ _ => ?_
      have hretained : viewed s owner <$> db.retainAsset (legacyAsset owner f fresh.assetId now) =
          viewed s owner <$> (db.view s owner).retainAsset (legacyAsset owner f fresh.assetId now) :=
        retainAsset_view hdb hf (hid ▸ howns) rfl rfl hnew
      refine map_bind_related hretained ?_
      rintro ⟨db₁, i⟩ ⟨v₁, j⟩ - - heq
      obtain ⟨hview, rfl⟩ := Prod.mk.inj heq
      refine congrArg Except.ok ?_
      dsimp only
      rw [hview]

theorem draftStart_view (hdb : db.Coherent) (hnew : ∀ a ∈ db.assets, a.id ≠ fresh.assetId) :
    (fun p : DraftStart × Db => (p.1, p.2.view s owner)) <$>
        draftStart owner input work fresh now db =
      (fun p : DraftStart × Db => (p.1, p.2.view s owner)) <$>
        draftStart owner input work fresh now (db.view s owner) := by
  unfold draftStart
  cases input.pieceId with
  | absent =>
    refine congrArg Except.ok ?_
    dsimp only
    rw [view_view]
  | malformed => rfl
  | piece i =>
    dsimp only
    rw [piece?_view]
    cases hfound : db.piece? owner i with
    | none => rfl
    | some p =>
      obtain ⟨hp, -, howner⟩ := piece?_eq_some.mp hfound
      rw [Option.map_some, demand_some, demand_some, ok_bind, ok_bind]
      refine map_bind_related (pieceStart_view hdb hp howner hnew) ?_
      rintro ⟨m, ids, db₁⟩ ⟨m', ids', v₁⟩ - - heq
      simp only [Prod.mk.injEq] at heq
      obtain ⟨rfl, rfl, hview⟩ := heq
      refine congrArg Except.ok ?_
      dsimp only
      rw [hview]
      rfl

theorem keepDraftSources_eq {draftId : Id} {ids : List Id} (hdraft : db.hasDraft draftId = true)
    (hassets : ∀ a ∈ ids, db.hasAsset a = true) :
    ids.foldlM (fun db assetId => db.keepDraftSource ⟨draftId, assetId⟩) db =
      .ok { db with
        draftSources := db.draftSources.putAll (ids.map fun a => ⟨draftId, a⟩) } := by
  induction ids generalizing db with
  | nil => rfl
  | cons a ids ih =>
    have ha := hassets a List.mem_cons_self
    rw [List.foldlM_cons, keepDraftSource_eq_ok.mpr ⟨⟨hdraft, ha⟩, rfl⟩, ok_bind]
    exact ih hdraft fun b hb => hassets b (List.mem_cons_of_mem a hb)

def draftWritten (row : DraftRow) (sources : List Id) (db : Db) : Db :=
  { db with
    drafts := db.drafts.put row
    draftSources := db.draftSources.putAll (sources.map fun a => ⟨row.id, a⟩) }

theorem insertDraft_eq {row : DraftRow} (hnew : ∀ d ∈ db.drafts, d.id ≠ row.id)
    (hpiece : ∀ i, row.pieceId = some i → db.hasPiece i = true) :
    db.insertDraft row = .ok { db with drafts := db.drafts.put row } :=
  insertDraft_eq_ok.mpr ⟨hpiece, _, Table.insert?_eq_put hnew, rfl⟩

def writeDraft (row : DraftRow) (sources : List Id) (db : Db) : Except Error Db := do
  let db ← db.insertDraft row
  sources.foldlM (fun (db : Db) assetId => db.keepDraftSource ⟨row.id, assetId⟩) db

theorem writeDraft_eq {row : DraftRow} {sources : List Id} (hnew : ∀ d ∈ db.drafts, d.id ≠ row.id)
    (hpiece : ∀ i, row.pieceId = some i → db.OwnsPiece row.userId i)
    (hsources : ∀ a ∈ sources, db.OwnsAsset row.userId a) :
    writeDraft row sources db = .ok (draftWritten row sources db) := by
  rw [writeDraft, insertDraft_eq hnew fun i hi => hasPiece_iff.mpr ⟨_, hpiece i hi⟩, ok_bind,
    keepDraftSources_eq]
  · rfl
  · exact hasDraft_iff.mpr ⟨row.userId, row, Table.mem_put.mpr (Or.inl rfl), rfl, rfl⟩
  · intro a ha
    exact hasAsset_iff.mpr ⟨_, hsources a ha⟩

theorem view_draftWritten {row : DraftRow} {sources : List Id} (hdb : db.Coherent)
    (hnew : ∀ d ∈ db.drafts, d.id ≠ row.id) (howner : row.userId = owner) :
    (draftWritten row sources db).view s owner = draftWritten row sources (db.view s owner) := by
  have hput := view_putDraft (s := s) hdb hnew howner
  have hsources : (draftWritten row sources db).view s owner =
      { ({ db with drafts := db.drafts.put row } : Db).view s owner with
        draftSources := (({ db with drafts := db.drafts.put row } : Db).view s owner).draftSources.putAll
          (sources.map fun a => ⟨row.id, a⟩) } := by
    ext1
    case draftSources =>
      refine Table.filter_putAll ?_ fun x y h => by rw [h]
      intro x hx
      obtain ⟨a, -, rfl⟩ := List.mem_map.mp hx
      exact ownsDraft_iff.mpr ⟨row, Table.mem_put.mpr (Or.inl rfl), rfl, howner⟩
    all_goals rfl
  rw [hsources, hput]
  rfl

theorem createImport_local (hdb : db.Coherent) (hassets : ∀ a ∈ db.assets, a.id ≠ fresh.assetId)
    (hdrafts : ∀ d ∈ db.drafts, d.id ≠ fresh.id) :
    Local s owner (createImport owner input work fresh now) db := by
  unfold Local createImport
  rw [openDrafts_view]
  refine map_bind_congr fun _ _ => map_bind_congr fun _ _ => ?_
  refine map_bind_related (draftStart_view hdb hassets) ?_
  rintro ⟨start, db₁⟩ ⟨start', v₁⟩ hstart hstart' heq
  obtain ⟨rfl, hview⟩ := Prod.mk.inj heq
  have hstart := draftStart_starts hstart
  have hstart' := draftStart_starts hstart'
  have hnew : ∀ d ∈ db₁.drafts, d.id ≠ fresh.id := by
    obtain ⟨assets, rfl⟩ := hstart.frame
    exact hdrafts
  have hnew' : ∀ d ∈ v₁.drafts, d.id ≠ fresh.id := by
    obtain ⟨assets, rfl⟩ := hstart'.frame
    intro d hd
    exact hdrafts d ((mem_view_drafts (s := s)).mp hd).1
  change Db.view s owner <$> writeDraft (startedDraft owner start fresh.id now) start.sources db₁ =
    Db.view s owner <$> writeDraft (startedDraft owner start fresh.id now) start.sources v₁
  rw [writeDraft_eq hnew hstart.ownsPiece (hstart.ownsAsset hdb),
    writeDraft_eq hnew' hstart'.ownsPiece (hstart'.ownsAsset hdb.view)]
  have hrow : (startedDraft owner start fresh.id now).userId = owner := rfl
  refine congrArg Except.ok ?_
  rw [view_draftWritten (hstart.coherent hdb) hnew hrow,
    view_draftWritten (hstart'.coherent hdb.view) hnew' hrow]
  exact congrArg _ hview

end Create

section Attach

variable {revision : Int} {size : Nat} {filename : Text} {file : ImportBytes} {object : Object}

theorem attachChecks_view (hdb : db.Coherent) :
    attachChecks s owner id revision size now (db.view s owner) =
      attachChecks s owner id revision size now db := by
  rw [attachChecks, attachChecks, draftTx_view hdb]

def sourceWritten (asset : AssetRow) (draftId : Id) (change : DraftChange) (db : Db) : Db :=
  ({ db with
    assets := db.assets.put asset
    draftSources := db.draftSources.put ⟨draftId, asset.id⟩ } : Db).updateDraft draftId change

theorem attachWrites_eq {d : ImportDraft} (hdb : db.Coherent)
    (hdraft : db.OwnsDraft owner d.row.id) (hkey : ∀ a ∈ db.assets, a.storageKey ≠ object.key)
    (hnew : ∀ a ∈ db.assets, a.id ≠ fresh.assetId) :
    attachWrites owner d filename file object fresh now db =
      .ok (sourceWritten (attachedAsset owner filename file object fresh.assetId now) d.row.id
        (savedDraft (attachedMetadata d.row.metadata filename)
          (attachedManifest d.row.manifest fresh file.pages) now) db) := by
  have hsource : ∀ x ∈ db.draftSources, x ≠ ⟨d.row.id, fresh.assetId⟩ := by
    rintro x hx rfl
    obtain ⟨o, -, a, ha, hid, -⟩ := hdb.draftSource _ hx
    exact hnew a ha hid
  have hasset : ({ db with assets := db.assets.put (attachedAsset owner filename file object
      fresh.assetId now) } : Db).OwnsAsset owner fresh.assetId :=
    ⟨_, Table.mem_put.mpr (Or.inl rfl), rfl, rfl⟩
  rw [attachWrites, insertAsset_eq hkey hnew, ok_bind]
  refine bind_eq_ok.mpr ⟨_, insertDraftSource_eq_ok.mpr ⟨⟨hasDraft_iff.mpr ⟨owner, hdraft⟩,
    hasAsset_iff.mpr ⟨owner, hasset⟩⟩, _, Table.insert?_eq_put hsource, rfl⟩, rfl⟩

theorem view_sourceWritten {asset : AssetRow} {draftId : Id} {change : DraftChange}
    (hnew : ∀ a ∈ db.assets, a.id ≠ asset.id) (howner : asset.userId = owner)
    (hdraft : db.OwnsDraft owner draftId) :
    (sourceWritten asset draftId change db).view s owner =
      sourceWritten asset draftId change (db.view s owner) := by
  rw [sourceWritten, view_updateDraft]
  congr 1
  ext1
  case assets =>
    exact Table.filter_put_of (by simpa using howner) fun a ha h => absurd h (hnew a ha)
  case draftSources =>
    refine Table.filter_put_of (ownsDraft_iff.mpr hdraft) fun x _ h => ?_
    obtain rfl : x = ⟨draftId, asset.id⟩ := h
    exact ownsDraft_iff.mpr hdraft
  all_goals rfl

theorem attachSource_local (hdb : db.Coherent) (hkey : ∀ a ∈ db.assets, a.storageKey ≠ object.key)
    (hnew : ∀ a ∈ db.assets, a.id ≠ fresh.assetId) :
    Local s owner (attachSource s owner id filename revision file object fresh now) db := by
  unfold Local attachSource
  rw [attachChecks_view hdb]
  refine map_bind_congr fun d hd => ?_
  obtain ⟨⟨hmem, -, howner, -⟩, -⟩ := attachChecks_ok hd
  have hdraft : db.OwnsDraft owner d.row.id := ⟨d.row, hmem, rfl, howner⟩
  have hdraft' : (db.view s owner).OwnsDraft owner d.row.id := view_ownsDraft.mpr ⟨hdraft, rfl⟩
  rw [attachWrites_eq hdb hdraft hkey hnew,
    attachWrites_eq hdb.view hdraft' (view_assets_ne hkey) (view_assets_ne hnew)]
  have hrow : (attachedAsset owner filename file object fresh.assetId now).userId = owner := rfl
  refine congrArg Except.ok ?_
  rw [view_sourceWritten hnew hrow hdraft, view_sourceWritten (view_assets_ne hnew) hrow hdraft',
    view_view]

end Attach

section Finalize

variable {plan : FinalizePlan} {object : Object} {newId pieceId : Id} {revision : Int}
  {data : Bytes} {metadata : PieceInput}

theorem finalizePlan_view {d : ImportDraft} :
    finalizePlan owner d metadata (db.view s owner) = finalizePlan owner d metadata db := by
  unfold finalizePlan
  split
  · rename_i i _
    rw [piece?_view]
    cases hfound : db.piece? owner i with
    | none => rfl
    | some p =>
      have howns := ownsPiece_of_find hfound
      obtain ⟨-, rfl, -⟩ := piece?_eq_some.mp hfound
      rw [Option.map_some, demand_some, demand_some, ok_bind, ok_bind, pdf?_view howns]
      rfl
  · rfl

theorem finalizeChecks_view (hdb : db.Coherent) :
    finalizeChecks s owner id revision data now (db.view s owner) =
      finalizeChecks s owner id revision data now db := by
  unfold finalizeChecks
  simp only [draftTx_view hdb, finalizedPiece_view, finalizePlan_view]

structure Writable (owner : Id) (plan : FinalizePlan) (object : Object) (db : Db) : Prop where
  coherent : db.Coherent
  pdfs : ∀ f ∈ db.pdfs, f.storageKey ≠ object.key
  assets : ∀ a ∈ db.assets, a.storageKey ≠ object.key
  sources : ∀ p ∈ plan.draft.row.manifest.pages, db.OwnsAsset owner p.sourceId

theorem Writable.view (h : Writable owner plan object db) :
    Writable owner plan object (db.view s owner) where
  coherent := h.coherent.view
  pdfs f hf := h.pdfs f (mem_view_pdfs.mp hf).1
  assets a ha := h.assets a (mem_view_assets.mp ha).1
  sources p hp := view_ownsAsset.mpr ⟨h.sources p hp, rfl⟩

def pieceWritten (s : Service) (plan : FinalizePlan) (object : Object) (pieceId : Id) (now : Time)
    (db : Db) : Db :=
  pieceSaved s plan object pieceId now ((db.deletePieceSources pieceId).pieceSources.putAll
    (plan.draft.row.manifest.pages.map fun p => ⟨pieceId, p.sourceId⟩)) db

theorem keepPieceSources_eq {pages : List PageEdit} (hpiece : db.hasPiece pieceId = true)
    (hassets : ∀ p ∈ pages, db.hasAsset p.sourceId = true) :
    pages.foldlM (fun (db : Db) p => db.keepPieceSource ⟨pieceId, p.sourceId⟩) db =
      .ok { db with
        pieceSources := db.pieceSources.putAll (pages.map fun p => ⟨pieceId, p.sourceId⟩) } := by
  induction pages generalizing db with
  | nil => rfl
  | cons p pages ih =>
    have hp := hassets p List.mem_cons_self
    rw [List.foldlM_cons, keepPieceSource_eq_ok.mpr ⟨⟨hpiece, hp⟩, rfl⟩, ok_bind]
    exact ih hpiece fun q hq => hassets q (List.mem_cons_of_mem p hq)

theorem savePiece_eq {db₁ : Db} (htarget : finalizeTarget owner plan newId now db = .ok (pieceId, db₁))
    (hwritable : Writable owner plan object db₁) (hpiece : db₁.OwnsPiece owner pieceId) :
    savePiece s owner plan object newId now db =
      .ok (pieceId, pieceWritten s plan object pieceId now db₁) := by
  have hhas : db₁.hasPiece pieceId = true := hasPiece_iff.mpr ⟨owner, hpiece⟩
  have hupdated : (db₁.updatePieces (fun p => p.id == pieceId)
      (finalizedChange s plan.metadata plan.draft.row.manifest now)).hasPiece pieceId = true :=
    hasPiece_iff.mpr ⟨owner, ownsPiece_updatePieces.mpr hpiece⟩
  rw [savePiece, htarget, ok_bind]
  refine bind_eq_ok.mpr ⟨_, upsertPdf_eq_ok.mpr ⟨hupdated, ?_, rfl⟩, ?_⟩
  · intro f hf hkey
    exact absurd hkey (hwritable.pdfs f hf)
  refine bind_eq_ok.mpr ⟨_, keepPieceSources_eq hupdated ?_, ?_⟩
  · intro p hp
    exact hasAsset_iff.mpr ⟨owner, hwritable.sources p hp⟩
  unfold pieceWritten pieceSaved
  split
  · rfl
  · rfl

theorem finalizedChange_filed {m : EditManifest} (p : PieceRow) :
    (finalizedChange s metadata m now).apply (p.filed s) =
      ((finalizedChange s metadata m now).apply p).filed s := by
  have hfresh : staleComposer ((finalizedChange s metadata m now).apply p) = false := by
    simp [staleComposer, finalizedChange]
  rw [filed_of_fresh hfresh]
  rfl

theorem view_pieceWritten (hpiece : db.OwnsPiece owner pieceId) :
    (pieceWritten s plan object pieceId now db).view s owner =
      pieceWritten s plan object pieceId now (db.view s owner) := by
  have hown : ∀ i, (pieceWritten s plan object pieceId now db).OwnsPiece owner i ↔
      db.OwnsPiece owner i := fun _ => ownsPiece_updatePieces
  have hpieces : (db.updatePieces (fun p => p.id == pieceId)
        (finalizedChange s plan.metadata plan.draft.row.manifest now)).view s owner =
      (db.view s owner).updatePieces (fun p => p.id == pieceId)
        (finalizedChange s plan.metadata plan.draft.row.manifest now) :=
    view_updatePieces (fun _ => rfl) finalizedChange_filed
  have hrows := congrArg Db.pieces hpieces
  have hreset : (db.resetReader pieceId).readers.filter (fun r => db.ownsPiece owner r.pieceId) =
      ((db.view s owner).resetReader pieceId).readers := congrArg Db.readers view_resetReader
  rw [Db.view, ownRows_eq hown fun _ => by rfl]
  ext1
  case pieces => exact hrows
  case pdfs =>
    refine Table.filter_put_of (ownsPiece_iff.mpr hpiece) fun f _ h => ownsPiece_iff.mpr ?_
    rwa [h]
  case readers =>
    change (if _ then _ else _ : Table ReaderRow.pieceId).filter _ = if _ then _ else _
    split
    · exact hreset
    · rfl
  case pieceSources =>
    refine (Table.filter_putAll ?_ fun x y h => by rw [h]).trans (congrArg (Table.putAll · _)
      (Table.filter_delete _ _ _))
    intro x hx
    obtain ⟨p, -, rfl⟩ := List.mem_map.mp hx
    exact ownsPiece_iff.mpr hpiece
  all_goals rfl

def draftClosed (draftId pieceId : Id) (now : Time) (db : Db) : Db :=
  (db.updateDraft draftId (finalizedDraft pieceId now)).deleteDraftSources draftId

theorem pieceWritten_coherent (h : Writable owner plan object db) (hpiece : db.OwnsPiece owner pieceId)
    (hdraft : db.OwnsDraft owner id) :
    (draftClosed id pieceId now (pieceWritten s plan object pieceId now db)).Coherent := by
  have hsaved : (pieceWritten s plan object pieceId now db).Coherent := by
    apply pieceSaved_coherent h.coherent hpiece (fun f hf hkey => absurd hkey (h.pdfs f hf)) h.assets
      _ h.sources
    intro x
    rw [Table.mem_putAll, List.mem_map, deletePieceSources_pieceSources, Table.mem_delete,
      beq_eq_false_iff_ne]
    simp only [eq_comm]
  apply Coherent.deleteDraftSources
  apply hsaved.updateDraft
  intro d hd hid i hi
  obtain rfl : pieceId = i := Option.some.inj hi
  rw [OwnsDraft.unique ⟨d, hd, hid, rfl⟩ hdraft]
  exact ownsPiece_updatePieces.mpr hpiece

theorem view_closeDraft {old : Option PdfRow} (hdb : (draftClosed id pieceId now db).Coherent) :
    (closeDraft id pieceId old now db).view s owner =
      { draftClosed id pieceId now (db.view s owner) with
        assets := (draftClosed id pieceId now (db.view s owner)).assets.delete
          (draftClosed id pieceId now (db.view s owner)).orphan } := by
  have hclosed : (draftClosed id pieceId now db).view s owner =
      draftClosed id pieceId now (db.view s owner) := by
    rw [draftClosed, view_deleteDraftSources, view_updateDraft]
    rfl
  rw [closeDraft, view_queueOld, ← draftClosed, view_collectOrphans hdb, hclosed]

theorem finalizeTarget_view (hdb : db.Coherent) (hnew : ∀ p ∈ db.pieces, p.id ≠ newId) :
    ∃ i db₁ v₁, finalizeTarget owner plan newId now db = .ok (i, db₁) ∧
      finalizeTarget owner plan newId now (db.view s owner) = .ok (i, v₁) ∧
      db₁.view s owner = v₁.view s owner := by
  unfold finalizeTarget
  cases plan.draft.row.pieceId with
  | some i => exact ⟨i, db, db.view s owner, rfl, rfl, view_view.symm⟩
  | none =>
    have hrow : (titledPiece owner newId plan.metadata.title now).userId = owner := rfl
    refine ⟨newId, _, _, bind_eq_ok.mpr ⟨_, insertPiece_eq hnew, rfl⟩,
      bind_eq_ok.mpr ⟨_, insertPiece_eq (view_pieces_ne hnew), rfl⟩, ?_⟩
    rw [view_putPiece hdb hnew hrow, view_putPiece hdb.view (view_pieces_ne hnew) hrow, view_view]

theorem Writable.target {db₁ : Db} (h : Writable owner plan object db)
    (hplan : Planned s owner id revision data now db plan)
    (htarget : finalizeTarget owner plan newId now db = .ok (pieceId, db₁)) :
    Writable owner plan object db₁ ∧ db₁.OwnsPiece owner pieceId ∧
      db₁.OwnsDraft owner plan.draft.row.id := by
  obtain ⟨m, -, hm⟩ := hplan.metadata
  obtain ⟨hdb₁, hpiece⟩ := finalizeTarget_coherent h.coherent ⟨m, hm⟩ htarget
  obtain ⟨pieces, rfl⟩ := finalizeTarget_tables htarget
  exact ⟨⟨hdb₁, h.pdfs, h.assets, h.sources⟩, hpiece, _, hplan.draft_mem, rfl, hplan.draft_owner⟩

theorem finalizeWrites_local (h : Writable owner plan object db)
    (hplan : Planned s owner id revision data now db plan)
    (hplan' : Planned s owner id revision data now (db.view s owner) plan)
    (hnew : ∀ p ∈ db.pieces, p.id ≠ newId) :
    viewed s owner <$> finalizeWrites s owner plan object newId now db =
      viewed s owner <$> finalizeWrites s owner plan object newId now (db.view s owner) := by
  obtain ⟨i, db₁, v₁, htarget, htarget', hview⟩ := finalizeTarget_view (s := s) h.coherent hnew
  obtain ⟨hwritable, hpiece, hdraft⟩ := h.target hplan htarget
  obtain ⟨hwritable', hpiece', hdraft'⟩ := h.view.target hplan' htarget'
  have hclosed : (closeDraft plan.draft.row.id i plan.old now
        (pieceWritten s plan object i now db₁)).view s owner =
      (closeDraft plan.draft.row.id i plan.old now
        (pieceWritten s plan object i now v₁)).view s owner := by
    rw [view_closeDraft (pieceWritten_coherent hwritable hpiece hdraft),
      view_closeDraft (pieceWritten_coherent hwritable' hpiece' hdraft'), view_pieceWritten hpiece,
      view_pieceWritten hpiece', hview]
  rw [finalizeWrites, finalizeWrites, savePiece_eq htarget hwritable hpiece,
    savePiece_eq htarget' hwritable' hpiece', ok_bind, ok_bind]
  dsimp only
  rw [← finalizedPiece_view (s := s), hclosed, finalizedPiece_view]
  refine map_bind_congr fun result _ => congrArg Except.ok ?_
  rw [viewed, viewed, hclosed]

end Finalize

section Maintenance

theorem refoldedPiece_filed (p : PieceRow) :
    (refoldedPiece s).apply (p.filed s) = ((refoldedPiece s).apply p).filed s := rfl

theorem refoldSearchText_local {force : Bool} : Local s owner (refoldSearchText s force) db := by
  have hversion : (db.view s owner).foldVersion = db.foldVersion := rfl
  have hrefolded : ∀ db : Db, ({ db.updatePieces (fun _ => true) (refoldedPiece s) with
        foldVersion := searchFoldVersion } : Db).view s owner =
      { (db.view s owner).updatePieces (fun _ => true) (refoldedPiece s) with
        foldVersion := searchFoldVersion } := by
    intro db
    rw [← view_updatePieces (fun _ => rfl) refoldedPiece_filed]
    rfl
  unfold Local refoldSearchText
  rw [hversion]
  refine map_bind_congr fun _ _ => ?_
  split
  · exact congrArg Except.ok view_view.symm
  · refine congrArg Except.ok ?_
    rw [hrefolded, hrefolded, view_view]

def Repairable (s : Service) (p : PieceRow) : Prop :=
  staleComposer p = true ∨ p.composerSort = composerSortKey s.unicode p.composer

theorem repairedPiece_filed {p : PieceRow} (h : Repairable s p) :
    ((repairedPiece s).apply p).filed s = p.filed s := by
  have hfresh : staleComposer ((repairedPiece s).apply p) = false := by
    simp [staleComposer, repairedPiece]
  have hkey : filingKey s p = composerSortKey s.unicode p.composer := by
    unfold filingKey
    split
    · rfl
    · rename_i hfiled
      exact h.resolve_left hfiled
  rw [filed_of_fresh hfresh, PieceRow.filed, hkey]
  rfl

theorem staleBatch_mem {p : PieceRow} (hp : p ∈ staleBatch db) :
    p ∈ db.pieces ∧ staleComposer p = true := by
  have hmem := List.mem_mergeSort.mp (List.mem_of_mem_take hp)
  exact List.mem_filter.mp hmem

theorem updatePieces_filed {where_ : PieceRow → Bool}
    (h : ∀ p ∈ db.pieces, where_ p = true → Repairable s p) :
    (db.updatePieces where_ (repairedPiece s)).filed s = db.filed s := by
  ext1
  case pieces =>
    apply Table.ext
    rw [filed_rows, filed_rows, updatePieces_pieces, Table.modify, List.map_map]
    refine List.map_congr_left fun p hp => ?_
    rw [Function.comp_apply]
    split
    · exact repairedPiece_filed (h p hp ‹_›)
    · rfl
  all_goals rfl

theorem repairs_filed (batch : List PieceRow)
    (h : ∀ p ∈ db.pieces, ∀ q ∈ batch, p.id = q.id → Repairable s p) :
    (batch.foldl (fun (db : Db) stale => db.updatePieces
      (fun p => p.id == stale.id && p.composer == stale.composer) (repairedPiece s)) db).filed s =
        db.filed s := by
  induction batch generalizing db with
  | nil => rfl
  | cons q batch ih =>
    rw [List.foldl_cons, ih]
    · apply updatePieces_filed
      intro p hp hwhere
      rw [Bool.and_eq_true, beq_iff_eq] at hwhere
      exact h p hp q List.mem_cons_self hwhere.1
    · intro p' hp' r hr hid
      obtain ⟨p, hp, rfl⟩ := mem_updatePieces.mp hp'
      split at hid
      · rename_i hwhere
        rw [if_pos hwhere]
        exact Or.inr rfl
      · rename_i hwhere
        rw [if_neg hwhere]
        exact h p hp r (List.mem_cons_of_mem q hr) hid

theorem repairComposerKeys_filed : (repairComposerKeys s db).filed s = db.filed s := by
  apply repairs_filed
  intro p hp q hq hid
  obtain ⟨hmem, hstale⟩ := staleBatch_mem hq
  rw [Table.eq_of_key hp hmem hid]
  exact Or.inl hstale

theorem repairComposerKeys_view :
    (repairComposerKeys s db).view s owner = db.view s owner := by
  rw [Db.view, ← ownRows_filed, repairComposerKeys_filed, ownRows_filed, ← Db.view]

end Maintenance

end Noted
