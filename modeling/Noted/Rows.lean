import Noted.Lifecycle

/-!
# Where rows come from

Each row of a draft or a piece after a step was there before it, or is new, or is
an old row that one writer changed. Whatever holds of rows through every step is
proved from these two inversions.
-/

namespace Noted

open Library Db

def Event.edits : Event → Option (Id × Int)
  | .call (.updateImport _ id input) _ => some (id, input.revision)
  | .commit f _ =>
    match f.upload with
    | .attach id _ revision _ => some (id, revision)
    | .finalize _ _ _ => none
  | _ => none

def Event.finalizes : Event → Option (Id × Int)
  | .beginFinalize _ id revision _ _ => some (id, revision)
  | .commit f _ | .abort f =>
    match f.upload with
    | .attach _ _ _ _ => none
    | .finalize id revision _ => some (id, revision)
  | _ => none

variable {s : Service} {owner id : Id} {now : Time} {fresh : Fresh} {db db' : Db} {σ σ' : Sys}
  {e : Event} {r : Response}

section Tables

variable {plan : FinalizePlan} {object : Object} {newId : Id} {result : FinalizeResult}

theorem Starts.frame {input : CreateImport} {work : Option IMSLPWork} {start : DraftStart}
    (h : Starts owner input work fresh now db start db') :
    ∃ assets, db' = { db with assets := assets } := by
  cases h with
  | new habsent => exact ⟨db.assets, rfl⟩
  | saved p hp howner m hm hlength => exact ⟨db.assets, rfl⟩
  | empty p hp howner => exact ⟨db.assets, rfl⟩
  | retained p hp howner f hf hpdf hcount a ha hkey => exact ⟨db.assets, rfl⟩
  | legacy p hp howner f hf hpdf hcount db₁ hinsert =>
    obtain ⟨-, assets, -, rfl⟩ := insertAsset_eq_ok.mp hinsert
    exact ⟨assets, rfl⟩

theorem attachSource_drafts {filename : Text} {revision : Int} {file : ImportBytes}
    (h : attachSource s owner id filename revision file object fresh now db = .ok db') :
    ∃ d ∈ db.drafts, (d.id = id ∧ d.userId = owner ∧ now < d.updatedAt + sevenDays) ∧
      (d.finalized = false ∧ (d.revision : Int) = revision) ∧ db'.pieces = db.pieces ∧
      db'.drafts = (db.updateDraft id (savedDraft (attachedMetadata d.metadata filename)
        (attachedManifest d.manifest fresh file.pages) now)).drafts := by
  obtain ⟨d, hd, hrow, hrevision, db₁, db₂, hasset, hsource, rfl⟩ := attachSource_ok h
  obtain ⟨-, assets, -, rfl⟩ := insertAsset_eq_ok.mp hasset
  obtain ⟨-, draftSources, -, rfl⟩ := insertDraftSource_eq_ok.mp hsource
  exact ⟨d, hd, hrow, hrevision, rfl, rfl⟩

theorem deletePiece_tables (h : deletePiece owner id now db = .ok db') :
    (∀ d ∈ db'.drafts, d ∈ db.drafts) ∧ ∀ p ∈ db'.pieces, p ∈ db.pieces := by
  obtain ⟨-, rfl⟩ := deletePiece_ok h
  obtain ⟨queue, heq⟩ := queueOld_eq
    ((db.deletePieces fun p => p.id == id && p.userId == owner).collectOrphans now) now (db.pdf? id)
  rw [heq]
  constructor
  · intro d hd
    rw [collectOrphans_drafts] at hd
    exact (Table.mem_delete.mp hd).1
  · intro p hp
    rw [collectOrphans_pieces] at hp
    exact (Table.mem_delete.mp hp).1

theorem finalizeWrites_tables
    (h : finalizeWrites s owner plan object newId now db = .ok (db', result)) :
    ∃ pieceId db₁, finalizeTarget owner plan newId now db = .ok (pieceId, db₁) ∧
      finalizedPiece owner pieceId db' = .ok result ∧
      db'.pieces = (db₁.updatePieces (fun p => p.id == pieceId)
        (finalizedChange s plan.metadata plan.draft.row.manifest now)).pieces ∧
      db'.drafts = (db.updateDraft plan.draft.row.id (finalizedDraft pieceId now)).drafts := by
  obtain ⟨pieceId, db₂, hsave, rfl, hresult⟩ := finalizeWrites_ok h
  obtain ⟨db₁, pieceSources, htarget, -, -, -, rfl⟩ := savePiece_ok hsave
  refine ⟨pieceId, db₁, htarget, hresult, ?_, ?_⟩
  · obtain ⟨queue, heq⟩ := queueOld_eq ((((pieceSaved s plan object pieceId now pieceSources
      db₁).updateDraft plan.draft.row.id (finalizedDraft pieceId now)).deleteDraftSources
        plan.draft.row.id).collectOrphans now) now plan.old
    rw [closeDraft, heq]
    exact collectOrphans_pieces _ _
  · obtain ⟨queue, heq⟩ := queueOld_eq ((((pieceSaved s plan object pieceId now pieceSources
      db₁).updateDraft plan.draft.row.id (finalizedDraft pieceId now)).deleteDraftSources
        plan.draft.row.id).collectOrphans now) now plan.old
    rw [closeDraft, heq]
    obtain ⟨pieces, rfl⟩ := finalizeTarget_tables htarget
    exact collectOrphans_drafts _ _

end Tables

section Drafts

inductive DraftOrigin (s : Service) (σ : Sys) (e : Event) (r : Response) (d' : DraftRow) : Prop
  | kept (hd : d' ∈ σ.db.drafts) (hidle : r = .done → ∀ v, e.edits ≠ some (d'.id, v))
  | started (owner : Id) (input : CreateImport) (work : Option IMSLPWork) (fresh : Fresh)
      (start : DraftStart) (db : Db) (he : e = .call (.createImport owner input work) fresh)
      (hr : r = .done) (hfresh : σ.Grants s fresh)
      (hlink : input.sourceURL = [] ∨ isWorkLink input.sourceURL = true)
      (hcount : σ.db.openDrafts owner σ.clock < maxOpenDrafts)
      (hstart : Starts owner input work fresh σ.clock σ.db start db)
      (hd' : d' = startedDraft owner start fresh.id σ.clock)
  | updated (d : DraftRow) (hd : d ∈ σ.db.drafts) (input : UpdateImport)
      (he : e.edits = some (d.id, input.revision)) (hr : r = .done)
      (hopen : d.finalized = false) (hrevision : (d.revision : Int) = input.revision)
      (hrecent : σ.clock < d.updatedAt + sevenDays)
      (hchecks : updateChecks s (σ.db.draftAssets d.userId d.id) input = .ok ⟨⟩)
      (hd' : d' = (savedDraft ⟨input.metadata, input.imslpAutoFill, d.metadata.base⟩ input.manifest
        σ.clock).apply d)
  | attached (d : DraftRow) (hd : d ∈ σ.db.drafts) (f : Flight) (hf : f ∈ σ.flights)
      (fresh : Fresh) (hfresh : σ.Grants s fresh) (filename : Text) (revision : Int)
      (file : ImportBytes) (he : e.edits = some (d.id, revision)) (hr : r = .done)
      (hupload : f.upload = .attach d.id filename revision file)
      (hopen : d.finalized = false) (hrevision : (d.revision : Int) = revision)
      (hrecent : σ.clock < d.updatedAt + sevenDays)
      (hd' : d' = (savedDraft (attachedMetadata d.metadata filename)
        (attachedManifest d.manifest fresh file.pages) σ.clock).apply d)
  | finalized (d : DraftRow) (hd : d ∈ σ.db.drafts) (he : e.finalizes = some (d.id, (d.revision : Int)))
      (hunfinished : d.finalized = false ∨ d.pieceId = none) (pieceId : Id)
      (htarget : d.pieceId = none ∨ d.pieceId = some pieceId)
      (hd' : d' = (finalizedDraft pieceId σ.clock).apply d)

theorem mem_updateDraft_cases {change : DraftChange} {d d' : DraftRow} (hd : d ∈ db.drafts)
    (h : d' ∈ (db.updateDraft d.id change).drafts) :
    (d' ∈ db.drafts ∧ d'.id ≠ d.id) ∨ d' = change.apply d := by
  obtain ⟨c, hc, rfl⟩ := mem_updateDraft.mp h
  by_cases hid : c.id = d.id
  · rw [if_pos hid, Table.eq_of_key hc hd hid]
    exact Or.inr rfl
  · rw [if_neg hid]
    exact Or.inl ⟨hc, hid⟩

theorem Call.draft_origin {c : Call} {d' : DraftRow} (hfresh : σ.Grants s fresh)
    (h : c.run s fresh σ.clock σ.db = .ok db') (hd' : d' ∈ db'.drafts) :
    DraftOrigin s σ (.call c fresh) .done d' := by
  have hediting : Editing s σ.clock fun _ _ => True :=
    ⟨by simp, by simp, by simp, by simp, by simp, by simp⟩
  have hrewrites : ∀ db', Rewrites (fun _ _ => True) σ.db db' → d' ∈ db'.drafts →
      (∀ v, Event.edits (.call c fresh) ≠ some (d'.id, v)) →
      DraftOrigin s σ (.call c fresh) .done d' := by
    intro db' h hd' hidle
    obtain ⟨f, pieces, v, rfl, -⟩ := h
    exact .kept hd' fun _ => hidle
  cases c with
  | createImport owner input work =>
    obtain ⟨hlink, hcount, start, db₁, db₂, draftSources, hstart, hinsert, hsources, -, rfl⟩ :=
      createImport_ok h
    obtain ⟨-, drafts, hdrafts, rfl⟩ := insertDraft_eq_ok.mp hinsert
    obtain ⟨assets, rfl⟩ := hstart.frame
    obtain hd' | rfl := (Table.mem_insert? hdrafts).mp hd'
    · exact .kept hd' fun _ _ => by simp [Event.edits]
    · exact .started owner input work fresh start _ rfl rfl hfresh hlink hcount hstart rfl
  | updateImport owner id input =>
    obtain ⟨d, hd, ⟨rfl, rfl, hrecent⟩, ⟨hopen, hrevision⟩, hchecks, rfl⟩ := updateImport_ok.mp h
    obtain ⟨hd', hne⟩ | rfl := mem_updateDraft_cases hd hd'
    · refine .kept hd' fun _ v heq => ?_
      exact hne (congrArg Prod.fst (Option.some.inj heq)).symm
    · exact .updated d hd input rfl rfl hopen hrevision hrecent hchecks rfl
  | deleteImport owner id =>
    obtain ⟨d, -, -, -, rfl⟩ := deleteImport_ok h
    rw [collectOrphans_drafts] at hd'
    exact .kept (Table.mem_delete.mp hd').1 fun _ _ => by simp [Event.edits]
  | createPiece owner input =>
    obtain ⟨validated, -, -, hinsert⟩ := createPiece_ok h
    obtain ⟨pieces, -, rfl⟩ := insertPiece_eq_ok.mp hinsert
    exact .kept hd' fun _ _ => by simp [Event.edits]
  | updatePiece owner id patch =>
    exact hrewrites db' (updatePiece_rewrites hediting h) hd' (by simp [Event.edits])
  | deletePiece owner id =>
    exact .kept ((deletePiece_tables h).1 d' hd') fun _ _ => by simp [Event.edits]
  | putReaderState owner id state =>
    obtain ⟨-, rfl⟩ := putReader_eq_ok.mp (putReaderState_ok h).2
    exact .kept hd' fun _ _ => by simp [Event.edits]
  | mergeComposers owner input =>
    obtain ⟨⟨_, preview⟩, hmerge, rfl⟩ := map_eq_ok.mp h
    exact hrewrites _ (mergeComposers_rewrites hediting hmerge) hd' (by simp [Event.edits])
  | repairComposerKeys =>
    obtain rfl : Noted.repairComposerKeys s σ.db = db' := by simpa [Call.run] using h
    exact hrewrites _ (repairComposerKeys_rewrites hediting σ.db) hd' (by simp [Event.edits])
  | refoldSearchText force =>
    exact hrewrites db' (refoldSearchText_rewrites hediting h) hd' (by simp [Event.edits])

theorem Sys.Stepped.draft_origin (h : Sys.Stepped s σ e r σ') {d' : DraftRow}
    (hd' : d' ∈ σ'.db.drafts) : DraftOrigin s σ e r d' := by
  cases h with
  | callDone c fresh db hfresh hrun => exact Call.draft_origin hfresh hrun hd'
  | attached f fresh id filename revision file db hf hfresh hupload hrun =>
    obtain ⟨d, hd, ⟨rfl, -, hrecent⟩, ⟨hopen, hrevision⟩, -, hdrafts⟩ := attachSource_drafts hrun
    rw [hdrafts] at hd'
    have he : Event.edits (.commit f fresh) = some (d.id, revision) := by simp [Event.edits, hupload]
    obtain ⟨hd', hne⟩ | rfl := mem_updateDraft_cases hd hd'
    · refine .kept hd' fun _ v heq => ?_
      rw [he] at heq
      exact hne (congrArg Prod.fst (Option.some.inj heq)).symm
    · exact .attached d hd f hf fresh hfresh filename revision file he rfl hupload hopen hrevision
        hrecent rfl
  | finalized f fresh id revision data plan db result hf hfresh hupload hplan hrun =>
    obtain ⟨pieceId, db₁, htarget, -, -, hdrafts⟩ := finalizeWrites_tables hrun
    have htarget := (finalizeTarget_ok htarget).elim (fun h => Or.inr h.1) fun h => Or.inl h.1
    rw [hdrafts] at hd'
    have hid := hplan.draft_id
    have hrevision := hplan.revision
    obtain ⟨hd', -⟩ | rfl := mem_updateDraft_cases hplan.draft_mem hd'
    · exact .kept hd' fun hdone => by cases hdone
    · exact .finalized _ hplan.draft_mem (by simp [Event.finalizes, hupload, hid, hrevision]) hplan.unfinished
        pieceId htarget rfl
  | expired =>
    have hd' : d' ∈ (expireDrafts σ.clock σ.db).drafts := hd'
    rw [expireDrafts, collectOrphans_drafts] at hd'
    exact .kept (Table.mem_delete.mp hd').1 fun _ _ => by simp [Event.edits]
  | commitFailed f fresh e => exact .kept hd' fun hdone => by cases hdone
  | retried f fresh id revision data result => exact .kept hd' fun hdone => by cases hdone
  | callFailed c fresh e => exact .kept hd' fun hdone => by cases hdone
  | _ => exact .kept hd' fun _ _ => by simp [Event.edits]

end Drafts

section Pieces

inductive PieceOrigin (s : Service) (σ : Sys) (p' : PieceRow) : Prop
  | kept (hp : p' ∈ σ.db.pieces)
  | edited (p : PieceRow) (hp : p ∈ σ.db.pieces) (hedit : ∀ R, Editing s σ.clock R → R p p')
  | created (owner id : Id) (input : PieceInput) (hvalid : input.Valid)
      (htrim : trimPiece input = input) (hp' : p' = createdPiece s owner id input σ.clock)
  | finalized (p : PieceRow) (m : PieceInput) (manifest : EditManifest) (hvalid : m.Valid)
      (htrim : trimPiece m = m)
      (hp : p ∈ σ.db.pieces ∨ ∃ owner id, p = titledPiece owner id m.title σ.clock)
      (hp' : p' = (finalizedChange s
        { m with aliases := p.aliases, opus := p.opus, musicKey := p.musicKey } manifest
        σ.clock).apply p)

theorem Rewrites.origin {p' : PieceRow}
    (h : ∀ R, Editing s σ.clock R → Rewrites R σ.db db') (hp' : p' ∈ db'.pieces) :
    PieceOrigin s σ p' := by
  have hsame : Editing s σ.clock SamePiece := samePiece_editing
  obtain ⟨p, hp, hid, -⟩ := (h SamePiece hsame).mem_right hp'
  refine .edited p hp ?_
  intro R hR
  -- the key makes the row that every relation finds the same one
  have hboth : Editing s σ.clock fun p p' => R p p' ∧ p'.id = p.id := by
    refine ⟨?_, ?_, ?_, ?_, ?_, ?_⟩
    · exact fun p => ⟨hR.refl p, rfl⟩
    · exact fun p q r h h' => ⟨hR.trans p q r h.1 h'.1, h'.2.trans h.2⟩
    · exact fun p patch hvalid => ⟨hR.update p patch hvalid, rfl⟩
    · exact fun p target hne htrim hlen => ⟨hR.merge p target hne htrim hlen, rfl⟩
    · exact fun p => ⟨hR.repair p, rfl⟩
    · exact fun p => ⟨hR.refold p, rfl⟩
  obtain ⟨q, hq, hqR, hqid⟩ := (h _ hboth).mem_right hp'
  rwa [Table.eq_of_key hp hq (hid.symm.trans hqid)]

theorem Call.piece_origin {c : Call} {p' : PieceRow} (h : c.run s fresh σ.clock σ.db = .ok db')
    (hp' : p' ∈ db'.pieces) : PieceOrigin s σ p' := by
  cases c with
  | createImport owner input work =>
    obtain ⟨-, -, start, db₁, db₂, draftSources, hstart, hinsert, -, -, rfl⟩ := createImport_ok h
    obtain ⟨-, drafts, -, rfl⟩ := insertDraft_eq_ok.mp hinsert
    obtain ⟨assets, rfl⟩ := hstart.frame
    exact .kept hp'
  | updateImport owner id input =>
    obtain ⟨d, -, -, -, -, rfl⟩ := updateImport_ok.mp h
    exact .kept hp'
  | deleteImport owner id =>
    obtain ⟨d, -, -, -, rfl⟩ := deleteImport_ok h
    rw [collectOrphans_pieces] at hp'
    exact .kept hp'
  | createPiece owner input =>
    obtain ⟨validated, hvalid, htrim, hinsert⟩ := createPiece_ok h
    obtain ⟨pieces, hpieces, rfl⟩ := insertPiece_eq_ok.mp hinsert
    obtain hp' | rfl := (Table.mem_insert? hpieces).mp hp'
    · exact .kept hp'
    · exact .created owner fresh.id validated hvalid htrim rfl
  | updatePiece owner id patch =>
    exact Rewrites.origin (fun R hR => updatePiece_rewrites hR h) hp'
  | deletePiece owner id => exact .kept ((deletePiece_tables h).2 p' hp')
  | putReaderState owner id state =>
    obtain ⟨-, rfl⟩ := putReader_eq_ok.mp (putReaderState_ok h).2
    exact .kept hp'
  | mergeComposers owner input =>
    obtain ⟨⟨_, preview⟩, hmerge, rfl⟩ := map_eq_ok.mp h
    exact Rewrites.origin (fun R hR => mergeComposers_rewrites hR hmerge) hp'
  | repairComposerKeys =>
    obtain rfl : Noted.repairComposerKeys s σ.db = db' := by simpa [Call.run] using h
    exact Rewrites.origin (fun R hR => repairComposerKeys_rewrites hR σ.db) hp'
  | refoldSearchText force =>
    exact Rewrites.origin (fun R hR => refoldSearchText_rewrites hR h) hp'

theorem finalizeWrites_origin {revision : Int} {data : Bytes} {plan : FinalizePlan} {object : Object}
    {newId : Id} {result : FinalizeResult} {p' : PieceRow}
    (hplan : Planned s owner id revision data σ.clock σ.db plan)
    (h : finalizeWrites s owner plan object newId σ.clock σ.db = .ok (db', result))
    (hp' : p' ∈ db'.pieces) : PieceOrigin s σ p' := by
  obtain ⟨pieceId, db₁, htarget, -, hpieces, -⟩ := finalizeWrites_tables h
  obtain ⟨m, hm, hfinal⟩ := hplan.metadata
  obtain ⟨htrim, hvalid⟩ := validatePiece_validated hm
  have htargets := finalizePlan_targets hfinal
  rw [hpieces] at hp'
  obtain ⟨p, hp, rfl⟩ := mem_updatePieces.mp hp'
  by_cases hid : p.id = pieceId
  · rw [if_pos (by simpa using hid)]
    obtain ⟨hsome, rfl⟩ | ⟨hnone, rfl, hinsert⟩ := finalizeTarget_ok htarget
    · cases htargets with
      | piece current hcurrent howner hcid hmerge hold =>
        obtain rfl : pieceId = current.id := Option.some.inj (hsome.symm.trans hcid)
        obtain rfl := Table.eq_of_key hp hcurrent hid
        obtain ⟨-, m', hvalid', htrim', -, hsaved⟩ := mergedMetadata_ok hmerge hvalid htrim
        exact .finalized p m' plan.draft.row.manifest hvalid' htrim' (Or.inl hp) (by rw [hsaved])
      | new hnone =>
        rw [hsome] at hnone
        cases hnone
    · cases htargets with
      | piece current hcurrent howner hcid =>
        rw [hnone] at hcid
        cases hcid
      | new _ hmetadata _ =>
        obtain ⟨pieces, hrow, rfl⟩ := insertPiece_eq_ok.mp hinsert
        obtain hp | rfl := (Table.mem_insert? hrow).mp hp
        · exact absurd hid ((Table.insert?_eq_some.mp hrow).1 p hp)
        · refine .finalized (titledPiece owner pieceId m.title σ.clock) m plan.draft.row.manifest
            hvalid htrim (Or.inr ⟨owner, pieceId, rfl⟩) ?_
          rw [hmetadata]
          rfl
  · rw [if_neg (by simpa using hid)]
    obtain ⟨-, rfl⟩ | ⟨-, rfl, hinsert⟩ := finalizeTarget_ok htarget
    · exact .kept hp
    · obtain ⟨pieces, hrow, rfl⟩ := insertPiece_eq_ok.mp hinsert
      obtain hp | rfl := (Table.mem_insert? hrow).mp hp
      · exact .kept hp
      · exact absurd rfl hid

theorem Sys.Stepped.piece_origin (h : Sys.Stepped s σ e r σ') {p' : PieceRow}
    (hp' : p' ∈ σ'.db.pieces) : PieceOrigin s σ p' := by
  cases h with
  | callDone c fresh db hfresh hrun => exact Call.piece_origin hrun hp'
  | attached f fresh id filename revision file db hf hfresh hupload hrun =>
    obtain ⟨d, -, -, -, hpieces, -⟩ := attachSource_drafts hrun
    rw [hpieces] at hp'
    exact .kept hp'
  | finalized f fresh id revision data plan db result hf hfresh hupload hplan hrun =>
    exact finalizeWrites_origin hplan hrun hp'
  | expired =>
    have hp' : p' ∈ (expireDrafts σ.clock σ.db).pieces := hp'
    rw [expireDrafts, collectOrphans_pieces] at hp'
    exact .kept hp'
  | _ => exact .kept hp'

end Pieces

end Noted
