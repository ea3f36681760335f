import Noted.Rows

/-!
# Ids are generated once

The id of a piece, of a draft or of an asset is one that the service generated, so that
a new id is the id of no row.
-/

namespace Noted

open Library Db

variable {s : Service} {σ σ' : Sys} {e : Event} {r : Response} {owner id : Id} {now : Time}
  {fresh : Fresh} {db db' : Db}

/-- The rows after a transaction have the keys of rows before it, or the ids that it
generated. -/
structure NewRows (fresh : Fresh) (db db' : Db) : Prop where
  pieces : ∀ p' ∈ db'.pieces, (∃ p ∈ db.pieces, p.id = p'.id) ∨ p'.id = fresh.id
  drafts : ∀ d' ∈ db'.drafts, (∃ d ∈ db.drafts, d.id = d'.id) ∨ d'.id = fresh.id
  assets : ∀ a' ∈ db'.assets, a' ∈ db.assets ∨ a'.id = fresh.assetId

theorem NewRows.of_mem (hpieces : ∀ p ∈ db'.pieces, p ∈ db.pieces)
    (hdrafts : ∀ d ∈ db'.drafts, d ∈ db.drafts) (hassets : ∀ a ∈ db'.assets, a ∈ db.assets) :
    NewRows fresh db db' where
  pieces p hp := Or.inl ⟨p, hpieces p hp, rfl⟩
  drafts d hd := Or.inl ⟨d, hdrafts d hd, rfl⟩
  assets a ha := Or.inl (hassets a ha)

theorem NewRows.refl : NewRows fresh db db := .of_mem (fun _ h => h) (fun _ h => h) fun _ h => h

theorem Rewrites.newRows (h : Rewrites SamePiece db db') : NewRows fresh db db' := by
  have hpieces : ∀ p' ∈ db'.pieces, ∃ p ∈ db.pieces, p.id = p'.id := by
    intro p' hp'
    obtain ⟨p, hp, hid, -⟩ := h.mem_right hp'
    exact ⟨p, hp, hid.symm⟩
  obtain ⟨f, pieces, v, rfl, -⟩ := h
  exact ⟨fun p hp => Or.inl (hpieces p hp), fun d hd => Or.inl ⟨d, hd, rfl⟩, fun a ha => Or.inl ha⟩

theorem updateDraft_keys {change : DraftChange} {d' : DraftRow}
    (h : d' ∈ (db.updateDraft id change).drafts) : ∃ d ∈ db.drafts, d.id = d'.id := by
  obtain ⟨d, hd, rfl⟩ := mem_updateDraft.mp h
  refine ⟨d, hd, ?_⟩
  split
  · exact (change.id_eq d).symm
  · rfl

theorem createImport_newRows {input : CreateImport} {work : Option IMSLPWork}
    (h : createImport owner input work fresh now db = .ok db') : NewRows fresh db db' := by
  obtain ⟨-, -, start, db₁, db₂, draftSources, hstart, hinsert, -, -, rfl⟩ := createImport_ok h
  obtain ⟨-, drafts, hdrafts, rfl⟩ := insertDraft_eq_ok.mp hinsert
  have hassets : ∀ a ∈ db₁.assets, a ∈ db.assets ∨ a.id = fresh.assetId := by
    cases hstart with
    | legacy p hp howner f hf hpdf hcount _ hasset =>
      obtain ⟨-, assets, hassets, rfl⟩ := insertAsset_eq_ok.mp hasset
      exact fun a ha => ((Table.mem_insert? hassets).mp ha).imp_right fun heq => by rw [heq]; rfl
    | _ => exact fun a ha => Or.inl ha
  obtain ⟨assets, rfl⟩ := hstart.frame
  refine ⟨fun p hp => Or.inl ⟨p, hp, rfl⟩, fun d hd => ?_, hassets⟩
  obtain hd | rfl := (Table.mem_insert? hdrafts).mp hd
  · exact Or.inl ⟨d, hd, rfl⟩
  · exact Or.inr rfl

theorem Call.newRows {c : Call} (h : c.run s fresh now db = .ok db') : NewRows fresh db db' := by
  have hediting : Editing s now SamePiece := samePiece_editing
  cases c with
  | createImport owner input work => exact createImport_newRows h
  | updateImport owner id input =>
    obtain ⟨d, -, -, -, -, rfl⟩ := updateImport_ok.mp h
    exact ⟨fun p hp => Or.inl ⟨p, hp, rfl⟩, fun d hd => Or.inl (updateDraft_keys hd),
      fun a ha => Or.inl ha⟩
  | deleteImport owner id =>
    obtain ⟨d, -, -, -, rfl⟩ := deleteImport_ok h
    refine .of_mem ?_ ?_ ?_
    · simp
    · simp +contextual
    · simp +contextual
  | createPiece owner input =>
    obtain ⟨validated, -, -, hinsert⟩ := createPiece_ok h
    obtain ⟨pieces, hpieces, rfl⟩ := insertPiece_eq_ok.mp hinsert
    refine ⟨fun p hp => ?_, fun d hd => Or.inl ⟨d, hd, rfl⟩, fun a ha => Or.inl ha⟩
    obtain hp | rfl := (Table.mem_insert? hpieces).mp hp
    · exact Or.inl ⟨p, hp, rfl⟩
    · exact Or.inr rfl
  | updatePiece owner id patch => exact (updatePiece_rewrites hediting h).newRows
  | deletePiece owner id =>
    obtain ⟨hdrafts, hpieces⟩ := deletePiece_tables h
    refine .of_mem hpieces hdrafts ?_
    obtain ⟨-, rfl⟩ := deletePiece_ok h
    obtain ⟨queue, heq⟩ := queueOld_eq
      ((db.deletePieces fun p => p.id == id && p.userId == owner).collectOrphans now) now (db.pdf? id)
    intro a ha
    rw [heq, collectOrphans_assets] at ha
    exact (Table.mem_delete.mp ha).1
  | putReaderState owner id state =>
    obtain ⟨-, rfl⟩ := putReader_eq_ok.mp (putReaderState_ok h).2
    exact .of_mem (fun _ h => h) (fun _ h => h) fun _ h => h
  | mergeComposers owner input =>
    obtain ⟨⟨_, preview⟩, hmerge, rfl⟩ := map_eq_ok.mp h
    exact (mergeComposers_rewrites hediting hmerge).newRows
  | repairComposerKeys =>
    obtain rfl : Noted.repairComposerKeys s db = db' := by simpa [Call.run] using h
    exact (repairComposerKeys_rewrites hediting db).newRows
  | refoldSearchText force => exact (refoldSearchText_rewrites hediting h).newRows

theorem attachSource_newRows {filename : Text} {revision : Int} {file : ImportBytes}
    {object : Object}
    (h : attachSource s owner id filename revision file object fresh now db = .ok db') :
    NewRows fresh db db' := by
  obtain ⟨d, -, -, -, db₁, db₂, hasset, hsource, rfl⟩ := attachSource_ok h
  obtain ⟨-, assets, hassets, rfl⟩ := insertAsset_eq_ok.mp hasset
  obtain ⟨-, draftSources, hsources, rfl⟩ := insertDraftSource_eq_ok.mp hsource
  have hdrafts : ∀ d' ∈ (db.updateDraft id (savedDraft (attachedMetadata d.metadata filename)
      (attachedManifest d.manifest fresh file.pages) now)).drafts, ∃ d ∈ db.drafts, d.id = d'.id :=
    fun _ => updateDraft_keys
  refine ⟨fun p hp => Or.inl ⟨p, hp, rfl⟩, fun d hd => Or.inl (hdrafts d hd), ?_⟩
  exact fun a ha => ((Table.mem_insert? hassets).mp ha).imp_right fun heq => by rw [heq]; rfl

theorem finalizeWrites_newRows {plan : FinalizePlan} {object : Object} {result : FinalizeResult}
    (h : finalizeWrites s owner plan object fresh.id now db = .ok (db', result)) :
    NewRows fresh db db' := by
  obtain ⟨pieceId, db₁, htarget, -, hpieces, hdrafts⟩ := finalizeWrites_tables h
  refine ⟨?_, ?_, ?_⟩
  · intro p' hp'
    rw [hpieces] at hp'
    obtain ⟨q, hq, rfl⟩ := mem_updatePieces.mp hp'
    have hold : (∃ p ∈ db.pieces, p.id = q.id) ∨ q.id = fresh.id := by
      obtain ⟨-, rfl⟩ | ⟨-, -, hinsert⟩ := finalizeTarget_ok htarget
      · exact Or.inl ⟨q, hq, rfl⟩
      · obtain ⟨pieces, hinserted, rfl⟩ := insertPiece_eq_ok.mp hinsert
        obtain hq | rfl := (Table.mem_insert? hinserted).mp hq
        · exact Or.inl ⟨q, hq, rfl⟩
        · exact Or.inr rfl
    split
    · exact hold
    · exact hold
  · intro d hd
    rw [hdrafts] at hd
    exact Or.inl (updateDraft_keys hd)
  · obtain ⟨i, db₂, hsave, rfl, -⟩ := finalizeWrites_ok h
    obtain ⟨db₃, pieceSources, htarget', -, -, -, rfl⟩ := savePiece_ok hsave
    obtain ⟨pieces, rfl⟩ := finalizeTarget_tables htarget'
    intro a ha
    obtain ⟨queue, heq⟩ := queueOld_eq ((((pieceSaved s plan object i now pieceSources
      (db.setPieces pieces)).updateDraft plan.draft.row.id (finalizedDraft i now)).deleteDraftSources
        plan.draft.row.id).collectOrphans now) now plan.old
    rw [closeDraft, heq] at ha
    change a ∈ (Db.collectOrphans _ now).assets at ha
    rw [collectOrphans_assets] at ha
    exact Or.inl (Table.mem_delete.mp ha).1

structure Generated (σ : Sys) : Prop where
  pieces : ∀ p ∈ σ.db.pieces, p.id ∈ σ.ids
  drafts : ∀ d ∈ σ.db.drafts, d.id ∈ σ.ids
  assets : ∀ a ∈ σ.db.assets, a.id ∈ σ.ids

theorem Generated.rows (hσ : Generated σ) (h : NewRows fresh σ.db db) (flights : List Flight) :
    Generated { σ.spend fresh with db := db, flights := flights } := by
  have hold : ∀ id ∈ σ.ids, id ∈ (σ.spend fresh).ids := fun id hid =>
    List.mem_cons_of_mem _ (List.mem_cons_of_mem _ hid)
  have hfirst : fresh.id ∈ (σ.spend fresh).ids := List.mem_cons_self
  have hsecond : fresh.assetId ∈ (σ.spend fresh).ids := List.mem_cons_of_mem _ List.mem_cons_self
  refine ⟨?_, ?_, ?_⟩
  · intro p' hp'
    obtain ⟨p, hp, heq⟩ | heq := h.pieces p' hp'
    · exact heq ▸ hold _ (hσ.pieces p hp)
    · exact heq ▸ hfirst
  · intro d' hd'
    obtain ⟨d, hd, heq⟩ | heq := h.drafts d' hd'
    · exact heq ▸ hold _ (hσ.drafts d hd)
    · exact heq ▸ hfirst
  · intro a ha
    obtain ha | heq := h.assets a ha
    · exact hold _ (hσ.assets a ha)
    · exact heq ▸ hsecond

theorem Generated.spent (hσ : Generated σ) (fresh : Fresh) : Generated (σ.spend fresh) :=
  hσ.rows NewRows.refl σ.flights

theorem Sys.Stepped.generated (h : Sys.Stepped s σ e r σ') (hσ : Generated σ) : Generated σ' := by
  cases h with
  | callDone c fresh db hfresh hrun =>
    exact hσ.rows (Call.newRows hrun) σ.flights
  | callFailed c fresh e hfresh hrun => exact hσ.spent fresh
  | attached f fresh id filename revision file db hf hfresh hupload hrun =>
    exact hσ.rows (attachSource_newRows hrun) _
  | finalized f fresh id revision data plan db result hf hfresh hupload hplan hrun =>
    exact hσ.rows (finalizeWrites_newRows hrun) _
  | retried f fresh => exact ⟨(hσ.spent fresh).pieces, (hσ.spent fresh).drafts, (hσ.spent fresh).assets⟩
  | commitFailed f fresh =>
    exact ⟨(hσ.spent fresh).pieces, (hσ.spent fresh).drafts, (hσ.spent fresh).assets⟩
  | expired =>
    have hassets : ∀ a ∈ (expireDrafts σ.clock σ.db).assets, a ∈ σ.db.assets := by
      intro a ha
      rw [expireDrafts, collectOrphans_assets] at ha
      exact (Table.mem_delete.mp ha).1
    have hdrafts : ∀ d ∈ (expireDrafts σ.clock σ.db).drafts, d ∈ σ.db.drafts := by
      intro d hd
      rw [expireDrafts, collectOrphans_drafts] at hd
      exact (Table.mem_delete.mp hd).1
    have hpieces : ∀ p ∈ (expireDrafts σ.clock σ.db).pieces, p ∈ σ.db.pieces := by
      intro p hp
      rwa [expireDrafts, collectOrphans_pieces] at hp
    exact ⟨fun p hp => hσ.pieces p (hpieces p hp), fun d hd => hσ.drafts d (hdrafts d hd),
      fun a ha => hσ.assets a (hassets a ha)⟩
  | _ => exact ⟨hσ.pieces, hσ.drafts, hσ.assets⟩

theorem Initial.generated (h : Initial σ) : Generated σ where
  pieces p hp := (h.pieces p hp).2.2
  drafts d hd := absurd (h.drafts ▸ hd) (Table.not_mem_empty d)
  assets a ha := absurd (h.assets ▸ ha) (Table.not_mem_empty a)

theorem Reachable.generated (h : Reachable s σ) : Generated σ := by
  obtain ⟨σ₀, t, hinitial, hrun⟩ := h
  exact hrun.invariant (fun hσ hstep => (Sys.step_stepped hstep).generated hσ) hinitial.generated

end Noted
