import Noted.Isolation.Writes
import Noted.Used

/-!
# What a transaction of somebody else does to an owner's rows

Nothing. It names pieces, drafts and assets of its own owner, and the collection of
orphans at its end finds none of another owner: every asset was in use before it.
-/

namespace Noted

open Library Db

variable {s : Service} {owner other id : Id} {db db' : Db} {now : Time} {fresh : Fresh}

section Statements

variable {where_ : PieceRow → Bool} {change : PieceChange} {dchange : DraftChange}
  {gonePiece : PieceRow → Bool} {goneDraft : DraftRow → Bool}

theorem updatePieces_others (h : ∀ p ∈ db.pieces, where_ p = true → p.userId ≠ other) :
    (db.updatePieces where_ change).ownRows other = db.ownRows other := by
  rw [ownRows_updatePieces]
  ext1
  case pieces =>
    apply Table.modify_eq_self
    · exact change.id_eq
    · intro p hp hwhere
      obtain ⟨hp, howner⟩ := Table.mem_filter.mp hp
      exact absurd (beq_iff_eq.mp howner) (h p hp hwhere)
  all_goals rfl

theorem updateDraft_others (hdraft : db.OwnsDraft owner id) (hne : owner ≠ other) :
    (db.updateDraft id dchange).ownRows other = db.ownRows other := by
  rw [ownRows_updateDraft]
  ext1
  case drafts =>
    apply Table.modify_eq_self
    · exact dchange.id_eq
    · intro d hd hid
      obtain ⟨hd, howner⟩ := Table.mem_filter.mp hd
      exact absurd (hdraft.unique ⟨d, hd, beq_iff_eq.mp hid, beq_iff_eq.mp howner⟩) hne
  all_goals rfl

theorem resetReader_others (hpiece : db.OwnsPiece owner id) (hne : owner ≠ other) :
    (db.resetReader id).ownRows other = db.ownRows other := by
  rw [ownRows_resetReader]
  ext1
  case readers =>
    apply Table.modify_eq_self
    · intro r
      rfl
    · intro r hr hid
      have howns := ownsPiece_iff.mp (Table.mem_filter.mp hr).2
      rw [beq_iff_eq.mp hid] at howns
      exact absurd (hpiece.unique howns) hne
  all_goals rfl

theorem deleteDraftSources_others (hdraft : db.OwnsDraft owner id) (hne : owner ≠ other) :
    (db.deleteDraftSources id).ownRows other = db.ownRows other := by
  rw [ownRows_deleteDraftSources]
  ext1
  case draftSources =>
    refine Table.delete_eq_self fun x hx => beq_eq_false_iff_ne.mpr ?_
    rintro rfl
    exact hne (hdraft.unique (ownsDraft_iff.mp (Table.mem_filter.mp hx).2))
  all_goals rfl

theorem deleteDrafts_others (h : ∀ d, goneDraft d = true → d.userId ≠ other) :
    (db.deleteDrafts goneDraft).ownRows other = db.ownRows other := by
  have hkept : ∀ d ∈ (db.ownRows other).drafts, goneDraft d = false := by
    intro d hd
    rw [Bool.eq_false_iff]
    intro hgone
    exact h d hgone (beq_iff_eq.mp (Table.mem_filter.mp hd).2)
  rw [ownRows_deleteDrafts]
  ext1
  case drafts => exact Table.delete_eq_self hkept
  case draftSources =>
    refine Table.delete_eq_self fun x _ => List.any_eq_false.mpr fun d hd => ?_
    rw [hkept d hd, Bool.false_and]
    exact Bool.false_ne_true
  all_goals rfl

theorem deletePieces_others (hdb : db.Coherent) (h : ∀ p, gonePiece p = true → p.userId ≠ other) :
    (db.deletePieces gonePiece).ownRows other = db.ownRows other := by
  have hkept : ∀ p ∈ (db.ownRows other).pieces, gonePiece p = false := by
    intro p hp
    rw [Bool.eq_false_iff]
    intro hgone
    exact h p hgone (beq_iff_eq.mp (Table.mem_filter.mp hp).2)
  have hremoved : ∀ i,
      ((db.ownRows other).pieces.rows.any fun p => gonePiece p && p.id == i) = false := by
    intro i
    rw [List.any_eq_false]
    intro p hp
    rw [hkept p hp, Bool.false_and]
    exact Bool.false_ne_true
  have hdrafts : ∀ d : DraftRow, (d.pieceId.any fun _ => false) = false := by
    intro d
    cases d.pieceId with
    | none => rfl
    | some i => rfl
  rw [ownRows_deletePieces hdb]
  unfold deletePieces
  simp only [hremoved]
  ext1
  case pieces => exact Table.delete_eq_self hkept
  case drafts => exact Table.delete_eq_self fun d _ => hdrafts d
  case draftSources =>
    refine Table.delete_eq_self fun x _ => List.any_eq_false.mpr fun d _ => ?_
    dsimp only
    rw [hdrafts d, Bool.false_and]
    exact Bool.false_ne_true
  case assets => rfl
  case queue => rfl
  case foldVersion => rfl
  all_goals exact Table.delete_eq_self fun _ _ => rfl

theorem Db.Used.ownRows (hused : db.Used) (hdb : db.Coherent) : (db.ownRows owner).Used := by
  intro a ha
  obtain ⟨hmem, howner⟩ := Table.mem_filter.mp ha
  rw [← orphan_eq_false, orphan_ownRows hdb hmem (beq_iff_eq.mp howner), orphan_eq_false]
  exact hused a hmem

theorem collectOrphans_others (hdb : db.Coherent) (hused : (db.ownRows other).Used) :
    (db.collectOrphans now).ownRows other = db.ownRows other := by
  rw [ownRows_collectOrphans hdb]
  ext1
  case assets => exact Table.delete_eq_self fun a ha => orphan_eq_false.mpr (hused a ha)
  all_goals rfl

end Statements

section Calls

structure Kept (db : Db) : Prop where
  coherent : db.Coherent
  used : db.Used

theorem Kept.collect (h : Kept db) (hdb' : db'.Coherent) (hrows : db'.ownRows other = db.ownRows other) :
    (db'.collectOrphans now).ownRows other = db.ownRows other := by
  rw [collectOrphans_others hdb' (hrows ▸ h.used.ownRows h.coherent), hrows]

theorem updateImport_others {input : UpdateImport} (hne : owner ≠ other)
    (h : updateImport s owner id input now db = .ok db') : db'.ownRows other = db.ownRows other := by
  obtain ⟨d, hd, ⟨hid, howner, -⟩, -, -, rfl⟩ := updateImport_ok.mp h
  exact updateDraft_others ⟨d, hd, hid, howner⟩ hne

theorem deleteImport_others (hdb : Kept db) (hne : owner ≠ other)
    (h : deleteImport owner id now db = .ok db') : db'.ownRows other = db.ownRows other := by
  obtain ⟨d, -, -, -, rfl⟩ := deleteImport_ok h
  refine hdb.collect (hdb.coherent.deleteDrafts _) (deleteDrafts_others fun d hgone => ?_)
  rw [Bool.and_eq_true, beq_iff_eq, beq_iff_eq] at hgone
  rw [hgone.2]
  exact hne

theorem createPiece_others {input : PieceInput} (hdb : db.Coherent) (hne : owner ≠ other)
    (hnew : ∀ p ∈ db.pieces, p.id ≠ id) (h : createPiece s owner input id now db = .ok db') :
    db'.ownRows other = db.ownRows other := by
  obtain ⟨validated, -, -, hinsert⟩ := createPiece_ok h
  rw [insertPiece_eq hnew] at hinsert
  obtain rfl := Except.ok.inj hinsert
  rw [ownRows_putPiece hdb hnew]
  ext1
  case pieces =>
    exact Table.filter_put_of_not (beq_eq_false_iff_ne.mpr hne) fun p hp hid => absurd hid (hnew p hp)
  all_goals rfl

theorem updatePiece_others {patch : PiecePatch} (hne : owner ≠ other)
    (h : updatePiece s owner id patch now db = .ok db') : db'.ownRows other = db.ownRows other := by
  obtain ⟨current, -, -, -, rfl⟩ := updatePiece_ok h
  refine updatePieces_others fun p _ hwhere => ?_
  rw [Bool.and_eq_true, beq_iff_eq, beq_iff_eq] at hwhere
  rw [hwhere.2]
  exact hne

theorem deletePiece_others (hdb : Kept db) (hne : owner ≠ other)
    (h : deletePiece owner id now db = .ok db') : db'.ownRows other = db.ownRows other := by
  obtain ⟨-, rfl⟩ := deletePiece_ok h
  rw [ownRows_queueOld]
  refine hdb.collect (hdb.coherent.deletePieces _) (deletePieces_others hdb.coherent fun p hgone => ?_)
  rw [Bool.and_eq_true, beq_iff_eq, beq_iff_eq] at hgone
  rw [hgone.2]
  exact hne

theorem putReaderState_others {state : ReaderState} (hne : owner ≠ other)
    (h : putReaderState owner id state now db = .ok db') : db'.ownRows other = db.ownRows other := by
  obtain ⟨hpiece, hput⟩ := putReaderState_ok h
  obtain ⟨-, rfl⟩ := putReader_eq_ok.mp hput
  have hforeign : db.ownsPiece other id = false :=
    not_ownsPiece_iff.mpr fun howns => hne (hpiece.unique howns)
  ext1
  case readers =>
    refine Table.filter_put_of_not hforeign fun r _ hid => ?_
    rw [show r.pieceId = id from hid]
    exact hforeign
  all_goals rfl

theorem mergeComposers_others {input : ComposerMerge} {preview : ComposerPreview}
    (hne : owner ≠ other) (h : mergeComposers s owner input now db = .ok (db', preview)) :
    db'.ownRows other = db.ownRows other := by
  simp only [mergeComposers, bind_eq_ok, refuse_eq_ok, exists_const, pure_eq_ok, Except.ok.injEq,
    Prod.mk.injEq] at h
  obtain ⟨merge, -, -, p, -, -, rfl, rfl⟩ := h
  -- each piece of the preview is one update
  generalize p.pieces = pieces
  induction pieces generalizing db with
  | nil => rfl
  | cons piece pieces ih =>
    rw [List.foldl_cons, ih]
    refine updatePieces_others fun p _ hwhere => ?_
    rw [Bool.and_eq_true, beq_iff_eq, beq_iff_eq] at hwhere
    rw [hwhere.2]
    exact hne

end Calls

section Create

variable {input : CreateImport} {work : Option IMSLPWork} {start : DraftStart}

theorem retainAsset_others {row : AssetRow} (hne : row.userId ≠ other)
    (hnew : ∀ a ∈ db.assets, a.id ≠ row.id) (h : db.insertAsset row = .ok db') :
    db'.ownRows other = db.ownRows other := by
  obtain ⟨hkey, -⟩ := insertAsset_eq_ok.mp h
  rw [insertAsset_eq hkey hnew] at h
  obtain rfl := Except.ok.inj h
  ext1
  case assets =>
    exact Table.filter_put_of_not (beq_eq_false_iff_ne.mpr hne) fun a ha hid => absurd hid (hnew a ha)
  all_goals rfl

theorem Starts.others (hstart : Starts owner input work fresh now db start db') (hne : owner ≠ other)
    (hnew : ∀ a ∈ db.assets, a.id ≠ fresh.assetId) : db'.ownRows other = db.ownRows other := by
  cases hstart with
  | new _ => rfl
  | saved _ => rfl
  | empty _ => rfl
  | retained _ => rfl
  | legacy p hp howner f hf hpdf hcount _ hinsert => exact retainAsset_others hne hnew hinsert

theorem draftWritten_others {row : DraftRow} {sources : List Id} (hdb : db.Coherent)
    (hnew : ∀ d ∈ db.drafts, d.id ≠ row.id) (hne : row.userId ≠ other) :
    (draftWritten row sources db).ownRows other = db.ownRows other := by
  have hput : ({ db with drafts := db.drafts.put row } : Db).ownRows other = { db.ownRows other with
      drafts := (db.drafts.put row).filter fun d => d.userId == other } := ownRows_putDraft hdb hnew
  have hdrafts : (db.drafts.put row).filter (fun d => d.userId == other) =
      db.drafts.filter fun d => d.userId == other :=
    Table.filter_put_of_not (beq_eq_false_iff_ne.mpr hne) fun d hd hid => absurd hid (hnew d hd)
  have hforeign : ({ db with drafts := db.drafts.put row } : Db).ownsDraft other row.id = false := by
    refine not_ownsDraft_iff.mpr fun howns => hne ?_
    exact OwnsDraft.unique ⟨row, Table.mem_put.mpr (Or.inl rfl), rfl, rfl⟩ howns
  have hsources : (draftWritten row sources db).ownRows other =
      ({ db with drafts := db.drafts.put row } : Db).ownRows other := by
    ext1
    case draftSources =>
      refine Table.filter_putAll_of_not ?_ fun x y h => by rw [h]
      intro x hx
      obtain ⟨a, -, rfl⟩ := List.mem_map.mp hx
      exact hforeign
    all_goals rfl
  rw [hsources, hput, hdrafts]
  rfl

theorem createImport_others (hdb : db.Coherent) (hne : owner ≠ other)
    (hassets : ∀ a ∈ db.assets, a.id ≠ fresh.assetId) (hdrafts : ∀ d ∈ db.drafts, d.id ≠ fresh.id)
    (h : createImport owner input work fresh now db = .ok db') :
    db'.ownRows other = db.ownRows other := by
  simp only [createImport, bind_eq_ok, refuse_eq_ok, exists_const, validateIMSLP_eq_ok,
    Nat.not_le] at h
  obtain ⟨-, -, ⟨start, db₁⟩, hstart, h⟩ := h
  have hstart := draftStart_starts hstart
  have hnew : ∀ d ∈ db₁.drafts, d.id ≠ fresh.id := by
    obtain ⟨assets, rfl⟩ := hstart.frame
    exact hdrafts
  have hwrite : writeDraft (startedDraft owner start fresh.id now) start.sources db₁ = .ok db' :=
    bind_eq_ok.mpr h
  rw [writeDraft_eq hnew hstart.ownsPiece (hstart.ownsAsset hdb)] at hwrite
  obtain rfl := Except.ok.inj hwrite
  rw [draftWritten_others (hstart.coherent hdb) hnew hne, hstart.others hne hassets]

end Create

section Attach

variable {revision : Int} {filename : Text} {file : ImportBytes} {object : Object}

theorem sourceWritten_others {asset : AssetRow} {draftId : Id} {change : DraftChange}
    (hnew : ∀ a ∈ db.assets, a.id ≠ asset.id) (howner : asset.userId = owner) (hne : owner ≠ other)
    (hdraft : db.OwnsDraft owner draftId) :
    (sourceWritten asset draftId change db).ownRows other = db.ownRows other := by
  have hforeign : db.ownsDraft other draftId = false :=
    not_ownsDraft_iff.mpr fun howns => hne (hdraft.unique howns)
  have hupdate : (sourceWritten asset draftId change db).ownRows other = ({ db with
      assets := db.assets.put asset
      draftSources := db.draftSources.put ⟨draftId, asset.id⟩ } : Db).ownRows other :=
    updateDraft_others hdraft hne
  rw [hupdate]
  ext1
  case assets =>
    refine Table.filter_put_of_not ?_ fun a ha hid => absurd hid (hnew a ha)
    rw [howner]
    exact beq_eq_false_iff_ne.mpr hne
  case draftSources =>
    refine Table.filter_put_of_not hforeign fun x _ h => ?_
    obtain rfl : x = ⟨draftId, asset.id⟩ := h
    exact hforeign
  all_goals rfl

theorem attachSource_others (hdb : db.Coherent) (hne : owner ≠ other)
    (hkey : ∀ a ∈ db.assets, a.storageKey ≠ object.key)
    (hnew : ∀ a ∈ db.assets, a.id ≠ fresh.assetId)
    (h : attachSource s owner id filename revision file object fresh now db = .ok db') :
    db'.ownRows other = db.ownRows other := by
  obtain ⟨d, hd, hwrite⟩ := bind_eq_ok.mp h
  obtain ⟨⟨hmem, -, howner, -⟩, -⟩ := attachChecks_ok hd
  have hdraft : db.OwnsDraft owner d.row.id := ⟨d.row, hmem, rfl, howner⟩
  rw [attachWrites_eq hdb hdraft hkey hnew] at hwrite
  obtain rfl := Except.ok.inj hwrite
  exact sourceWritten_others hnew rfl hne hdraft

end Attach

section Finalize

variable {plan : FinalizePlan} {object : Object} {newId pieceId : Id} {revision : Int}
  {data : Bytes} {result : FinalizeResult}

theorem pieceWritten_others (hpiece : db.OwnsPiece owner pieceId) (hne : owner ≠ other) :
    (pieceWritten s plan object pieceId now db).ownRows other = db.ownRows other := by
  have hown : ∀ i, (pieceWritten s plan object pieceId now db).OwnsPiece other i ↔
      db.OwnsPiece other i := fun _ => ownsPiece_updatePieces
  have hforeign : db.ownsPiece other pieceId = false :=
    not_ownsPiece_iff.mpr fun howns => hne (hpiece.unique howns)
  have hreset := congrArg Db.readers (resetReader_others hpiece hne)
  have hupdate : (db.updatePieces (fun p => p.id == pieceId) (finalizedChange s plan.metadata
      plan.draft.row.manifest now)).ownRows other = db.ownRows other := by
    refine updatePieces_others fun p hp hwhere howner => ?_
    exact hne (hpiece.unique ⟨p, hp, beq_iff_eq.mp hwhere, howner⟩)
  have hpieces := congrArg Db.pieces hupdate
  rw [ownRows_eq hown fun _ => by rfl]
  ext1
  case pieces => exact hpieces
  case pdfs =>
    refine Table.filter_put_of_not hforeign fun f _ h => ?_
    rw [show f.pieceId = pieceId from h]
    exact hforeign
  case readers =>
    change (if _ then _ else _ : Table ReaderRow.pieceId).filter _ = _
    split
    · exact hreset
    · rfl
  case pieceSources =>
    refine (Table.filter_putAll_of_not ?_ fun x y h => by rw [h]).trans ?_
    · intro x hx
      obtain ⟨p, -, rfl⟩ := List.mem_map.mp hx
      exact hforeign
    · refine (Table.filter_delete _ _ _).trans (Table.delete_eq_self fun x hx => ?_)
      refine beq_eq_false_iff_ne.mpr ?_
      rintro rfl
      have howns := (Table.mem_filter.mp hx).2
      rw [hforeign] at howns
      cases howns
  all_goals rfl

theorem finalizeTarget_others {db₁ : Db} (hdb : db.Coherent) (hne : owner ≠ other)
    (hnew : ∀ p ∈ db.pieces, p.id ≠ newId)
    (h : finalizeTarget owner plan newId now db = .ok (pieceId, db₁)) :
    db₁.ownRows other = db.ownRows other := by
  obtain ⟨-, rfl⟩ | ⟨-, rfl, hinsert⟩ := finalizeTarget_ok h
  · rfl
  · rw [insertPiece_eq hnew] at hinsert
    obtain rfl := Except.ok.inj hinsert
    rw [ownRows_putPiece hdb hnew]
    ext1
    case pieces =>
      exact Table.filter_put_of_not (beq_eq_false_iff_ne.mpr hne) fun p hp hid =>
        absurd hid (hnew p hp)
    all_goals rfl

theorem finalizeWrites_others (h : Writable owner plan object db) (hused : db.Used)
    (hplan : Planned s owner id revision data now db plan) (hne : owner ≠ other)
    (hnew : ∀ p ∈ db.pieces, p.id ≠ newId)
    (hrun : finalizeWrites s owner plan object newId now db = .ok (db', result)) :
    db'.ownRows other = db.ownRows other := by
  obtain ⟨i, db₂, hsave, rfl, -⟩ := finalizeWrites_ok hrun
  obtain ⟨db₁, -, htarget, -⟩ := savePiece_ok hsave
  obtain ⟨hwritable, hpiece, hdraft⟩ := h.target hplan htarget
  rw [savePiece_eq htarget hwritable hpiece] at hsave
  obtain ⟨-, rfl⟩ := Prod.mk.inj (Except.ok.inj hsave)
  have hwritten : (pieceWritten s plan object i now db₁).ownRows other = db.ownRows other :=
    (pieceWritten_others hpiece hne).trans (finalizeTarget_others h.coherent hne hnew htarget)
  have hclosed : (draftClosed plan.draft.row.id i now
      (pieceWritten s plan object i now db₁)).ownRows other = db.ownRows other := by
    have hdraft : (pieceWritten s plan object i now db₁).OwnsDraft owner plan.draft.row.id := hdraft
    rw [draftClosed, deleteDraftSources_others (ownsDraft_updateDraft.mpr hdraft) hne,
      updateDraft_others hdraft hne, hwritten]
  rw [closeDraft, ownRows_queueOld, ← draftClosed]
  exact Kept.collect ⟨h.coherent, hused⟩ (pieceWritten_coherent hwritable hpiece hdraft) hclosed

end Finalize

end Noted
