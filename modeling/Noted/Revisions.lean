import Noted.Finalize

/-!
# Optimistic revisions of a draft

`updateImport` and an upload succeed only at the revision the draft has, and raise
it by one; nothing else changes it. So a revision is used up once, and what a
finalization saves is what its client has read.
-/

namespace Noted

open Library Db

variable {s : Service} {σ σ' σ₀ : Sys} {e : Event} {r : Response} {draft : Id}
  {t : List (Entry Sys Event Response)}

section Accepted

def accepts (draft : Id) (v : Int) (x : Entry Sys Event Response) : Bool :=
  x.event.edits == some (draft, v) && x.response == .done

def accepted (draft : Id) (x : Entry Sys Event Response) : Bool :=
  x.event.edits.any (fun p => p.1 == draft) && x.response == .done

theorem accepts_iff {v : Int} {x : Entry Sys Event Response} :
    accepts draft v x = true ↔ x.event.edits = some (draft, v) ∧ x.response = .done := by
  rw [accepts, Bool.and_eq_true, beq_iff_eq, beq_iff_eq]

theorem edits_of_finalizes {p : Id × Int} (h : e.finalizes = some p) : e.edits = none := by
  cases e with
  | commit f fresh =>
    cases hupload : f.upload with
    | attach id filename revision file => simp [Event.finalizes, hupload] at h
    | finalize id revision data => simp [Event.edits, hupload]
  | beginFinalize owner id revision data key => rfl
  | abort f => rfl
  | _ => simp [Event.finalizes] at h

/-- An edit that succeeds has found the draft open and at its revision. -/
theorem Sys.Stepped.edit_outcome {v : Int} (h : Sys.Stepped s σ e .done σ')
    (he : e.edits = some (draft, v)) :
    ∃ d ∈ σ.db.drafts, d.id = draft ∧ (d.revision : Int) = v ∧ d.finalized = false ∧
      ∃ metadata manifest, σ'.db.drafts =
        (σ.db.updateDraft draft (savedDraft metadata manifest σ.clock)).drafts := by
  cases h with
  | callDone c fresh db hfresh hrun =>
    cases c with
    | updateImport owner id input =>
      obtain ⟨rfl, rfl⟩ : id = draft ∧ input.revision = v := by simpa [Event.edits] using he
      obtain ⟨d, hd, ⟨hid, -, -⟩, ⟨hopen, hrevision⟩, -, rfl⟩ := updateImport_ok.mp hrun
      exact ⟨d, hd, hid, hrevision, hopen, _, _, rfl⟩
    | _ => simp [Event.edits] at he
  | attached f fresh id filename revision file db hf hfresh hupload hrun =>
    obtain ⟨rfl, rfl⟩ : id = draft ∧ revision = v := by simpa [Event.edits, hupload] using he
    obtain ⟨d, hd, ⟨hid, -, -⟩, ⟨hopen, hrevision⟩, -, hdrafts⟩ := attachSource_drafts hrun
    exact ⟨d, hd, hid, hrevision, hopen, _, _, hdrafts⟩
  | _ => simp [Event.edits] at he

/-- The revision `v` of the draft is used up. -/
def Passed (draft : Id) (v : Int) (σ : Sys) : Prop :=
  draft ∈ σ.ids ∧ ∀ d ∈ σ.db.drafts, d.id = draft → v < d.revision

theorem Passed.step {v : Int} (hσ : Passed draft v σ) (h : Sys.step s σ e = some (r, σ')) :
    Passed draft v σ' := by
  refine (Sys.step_stepped h).keeps_draft ?_ hσ
  intro d d' hrewritten hd
  cases hrewritten with
  | kept heq => rwa [heq]
  | saved metadata manifest hopen hbase heq =>
    subst heq
    simp only [savedDraft]
    omega
  | finalized pieceId hunfinished htarget heq =>
    subst heq
    exact hd

theorem accepts_passes {v : Int} (hσ : Issued σ) (h : Sys.step s σ e = some (r, σ'))
    (haccepts : accepts draft v ⟨σ, e, r, σ'⟩ = true) : ¬Passed draft v σ ∧ Passed draft v σ' := by
  obtain ⟨he, rfl⟩ := accepts_iff.mp haccepts
  have hstepped := Sys.step_stepped h
  obtain ⟨d, hd, hid, hrevision, -, metadata, manifest, hdrafts⟩ := hstepped.edit_outcome he
  constructor
  · intro hpassed
    have hlt := hpassed.2 d hd hid
    omega
  · refine ⟨hid ▸ hstepped.ids (hσ d hd), ?_⟩
    intro d' hd' hid'
    rw [hdrafts, ← hid] at hd'
    obtain ⟨-, hne⟩ | rfl := mem_updateDraft_cases hd hd'
    · exact absurd (hid'.trans hid.symm) hne
    · simp only [savedDraft]
      omega

theorem Issued.revision_step (hσ : Issued σ) (h : Sys.step s σ e = some (r, σ')) {d d' : DraftRow}
    (hd : d ∈ σ.db.drafts) (hd' : d' ∈ σ'.db.drafts) (hid : d.id = draft) (hid' : d'.id = draft) :
    d'.revision = d.revision + if accepted draft ⟨σ, e, r, σ'⟩ then 1 else 0 := by
  cases (Sys.step_stepped h).draft_origin hd' with
  | kept hkept hidle =>
    obtain rfl := Table.eq_of_key hd hkept (hid.trans hid'.symm)
    have hnot : accepted draft ⟨σ, e, r, σ'⟩ = false := by
      rw [Bool.eq_false_iff]
      intro haccepted
      rw [accepted, Bool.and_eq_true, Option.any_eq_true, beq_iff_eq] at haccepted
      obtain ⟨⟨⟨i, v⟩, he, hi⟩, hr⟩ := haccepted
      obtain rfl : i = draft := by simpa using hi
      rw [← hid] at he
      exact hidle hr v he
    simp [hnot]
  | started owner input work fresh start db he hr hfresh hlink hcount hstart heq =>
    subst heq
    exact absurd (hid.trans hid'.symm) (hfresh.not_issued hσ d hd)
  | updated c hc input he hr hopen hrevision hrecent hchecks heq =>
    subst heq
    obtain rfl := Table.eq_of_key hd hc (hid.trans hid'.symm)
    simp [accepted, he, hr, hid, savedDraft]
  | attached c hc f hf fresh hfresh filename revision file he hr hupload hopen hrevision hrecent heq =>
    subst heq
    obtain rfl := Table.eq_of_key hd hc (hid.trans hid'.symm)
    simp [accepted, he, hr, hid, savedDraft]
  | finalized c hc he hunfinished pieceId htarget heq =>
    subst heq
    obtain rfl := Table.eq_of_key hd hc (hid.trans hid'.symm)
    simp [accepted, edits_of_finalizes he, finalizedDraft]

end Accepted

section Closed

def Closed (draft : Id) (σ : Sys) : Prop :=
  draft ∈ σ.ids ∧ ∀ d ∈ σ.db.drafts, d.id = draft → d.finalized = true

theorem Closed.step (hσ : Closed draft σ) (h : Sys.step s σ e = some (r, σ')) : Closed draft σ' := by
  refine (Sys.step_stepped h).keeps_draft ?_ hσ
  intro d d' hrewritten hd
  cases hrewritten with
  | kept heq => rwa [heq]
  | saved metadata manifest hopen hbase heq =>
    subst heq
    exact hd
  | finalized pieceId hunfinished htarget heq =>
    subst heq
    rfl

theorem Closed.not_accepts {v : Int} (hσ : Closed draft σ) (h : Sys.step s σ e = some (r, σ')) :
    accepts draft v ⟨σ, e, r, σ'⟩ = false := by
  rw [Bool.eq_false_iff]
  intro haccepts
  obtain ⟨he, rfl⟩ := accepts_iff.mp haccepts
  obtain ⟨d, hd, hid, -, hopen, -⟩ := (Sys.step_stepped h).edit_outcome he
  rw [hσ.2 d hd hid] at hopen
  cases hopen

end Closed

section Saved

def PieceInput.draftFields (m : PieceInput) : PieceInput :=
  { m with opus := [], musicKey := [], status := none, aliases := [] }

/-- What a finalization saves of a draft: its manifest as it is, and its metadata
trimmed, merged into the draft's piece if it has one. -/
structure SavedFrom (d : DraftRow) (before after : Db) (pieceId : Id) : Prop where
  manifest : ∀ p ∈ after.pieces, p.id = pieceId → p.preparationManifest = some d.manifest
  new : d.pieceId = none → ∀ p ∈ after.pieces, p.id = pieceId →
    p.draftInput = (trimPiece d.metadata.input).draftFields
  merged : d.pieceId = some pieceId → ∃ p ∈ before.pieces, p.id = pieceId ∧
    ∃ m, mergedMetadata p d (trimPiece d.metadata.input) = .ok m ∧
      ∀ p' ∈ after.pieces, p'.id = pieceId → p'.draftInput = m.draftFields
  target : d.pieceId = none ∨ d.pieceId = some pieceId
  found : ∃ p ∈ after.pieces, p.id = pieceId

theorem Saves.savedFrom {owner newId pieceId : Id} {revision : Int} {data : Bytes} {now : Time}
    {db db' : Db} {plan : FinalizePlan} (h : Saves s owner plan newId now db db' pieceId)
    (hplan : Planned s owner draft revision data now db plan) :
    SavedFrom plan.draft.row db db' pieceId := by
  obtain ⟨m, hm, hfinal⟩ := hplan.metadata
  obtain ⟨rfl, -⟩ := validatePiece_eq_ok.mp hm
  have htargets := finalizePlan_targets hfinal
  cases h with
  | revised p hp howner hid htarget hrows =>
    have hmem : ∀ p' ∈ db'.pieces, p'.id = pieceId →
        p' = (finalizedChange s plan.metadata plan.draft.row.manifest now).apply p := by
      intro p' hp' hid'
      rw [← Table.mem_rows, hrows, List.mem_map] at hp'
      obtain ⟨q, hq, rfl⟩ := hp'
      by_cases hqid : q.id = pieceId
      · rw [if_pos hqid, Table.eq_of_key hq hp (hqid.trans hid.symm)]
      · rw [if_neg hqid] at hid'
        exact absurd hid' hqid
    have hfound : (finalizedChange s plan.metadata plan.draft.row.manifest now).apply p ∈ db'.pieces := by
      rw [← Table.mem_rows, hrows, List.mem_map]
      exact ⟨p, hp, by rw [if_pos hid]⟩
    refine ⟨?_, ?_, ?_, Or.inr htarget, _, hfound, hid⟩
    · intro p' hp' hid'
      rw [hmem p' hp' hid']
      rfl
    · intro hnone
      rw [htarget] at hnone
      cases hnone
    · intro _
      cases htargets with
      | piece current hcurrent howner' hid' hmerge hold =>
        obtain rfl : pieceId = current.id := Option.some.inj (htarget.symm.trans hid')
        refine ⟨current, hcurrent, rfl, plan.metadata, hmerge, ?_⟩
        intro p' hp' hid''
        rw [hmem p' hp' hid'']
        rfl
      | new hnone =>
        rw [htarget] at hnone
        cases hnone
  | created hid htarget hnew hrows =>
    subst hid
    have hmem : ∀ p' ∈ db'.pieces, p'.id = newId →
        p' = (finalizedChange s plan.metadata plan.draft.row.manifest now).apply
          (titledPiece owner newId plan.metadata.title now) := by
      intro p' hp' hid'
      rw [← Table.mem_rows, hrows, List.mem_append, List.mem_singleton] at hp'
      obtain hp' | hp' := hp'
      · exact absurd hid' (hnew p' hp')
      · exact hp'
    refine ⟨?_, ?_, ?_, Or.inl htarget, (finalizedChange s plan.metadata plan.draft.row.manifest
      now).apply (titledPiece owner newId plan.metadata.title now), ?_, rfl⟩
    · intro p' hp' hid'
      rw [hmem p' hp' hid']
      rfl
    · intro _ p' hp' hid'
      cases htargets with
      | piece current hcurrent howner' hid' =>
        rw [htarget] at hid'
        cases hid'
      | new hnone hmetadata hold =>
        rw [hmem p' hp' hid']
        simp [finalizedChange, PieceRow.draftInput, PieceInput.draftFields, hmetadata]
    · intro hsome
      rw [htarget] at hsome
      cases hsome
    · rw [← Table.mem_rows, hrows]
      exact List.mem_append_right _ List.mem_cons_self

end Saved

/-- A step that fails changes no table. -/
theorem Sys.Stepped.failed_db {error : Error} (h : Sys.Stepped s σ e (.failed error) σ') :
    σ'.db = σ.db := by
  cases h <;> rfl

/-- No edit of a draft is overwritten or finalized unseen. -/
theorem optimistic_revisions (hinitial : Initial σ₀) (hrun : Run (Sys.step s) σ₀ t σ) (draft : Id) :
    (∀ v, t.countP (accepts draft v) ≤ 1) ∧
      (∀ x ∈ t, ∀ d ∈ x.before.db.drafts, ∀ d' ∈ x.after.db.drafts, d.id = draft → d'.id = draft →
        d'.revision = d.revision + if accepted draft x then 1 else 0) ∧
      (∀ x ∈ t, savesDraft draft x = true → ∃ d ∈ x.before.db.drafts, d.id = draft ∧
        x.event.finalizes = some (draft, (d.revision : Int)) ∧
        ∃ result, x.response = .finalized result ∧
          SavedFrom d x.before.db x.after.db result.piece.id) ∧
      (∀ x ∈ t, ∀ error, x.response = .failed error → x.after.db = x.before.db) ∧
      ∀ t₁ x t₂, t = t₁ ++ x :: t₂ →
        (∃ d ∈ x.before.db.drafts, d.id = draft ∧ d.finalized = true) →
        ∀ y ∈ x :: t₂, ∀ v, accepts draft v y = false := by
  have hissued := hinitial.issued
  have hkeep : ∀ {σ : Sys} {e r σ'}, Issued σ → Sys.step s σ e = some (r, σ') → Issued σ' :=
    fun hσ h => hσ.step h
  refine ⟨?_, ?_, ?_, ?_, ?_⟩
  · intro v
    exact (hrun.countP_le_one hkeep (fun _ h hpassed => Passed.step hpassed h) accepts_passes
      hissued).1
  · intro x hx d hd d' hd' hid hid'
    obtain ⟨hσ, h⟩ := hrun.at_mem hkeep hissued hx
    exact hσ.revision_step h hd hd' hid hid'
  · intro x hx hsaves
    obtain ⟨hσ, h⟩ := hrun.at_mem hkeep hissued hx
    obtain ⟨revision, he⟩ := savesDraft_finalizes hsaves
    cases (Sys.step_stepped h).finalize_outcome he with
    | saved owner data plan object fresh result hfresh hplan hr hrun =>
      refine ⟨plan.draft.row, hplan.draft_mem, hplan.draft_id, ?_, result, hr,
        (finalizeWrites_saves hplan hrun).savedFrom hplan⟩
      rw [hplan.revision]
      exact he
    | retried d hd hid hfinal result hpiece hr hdb => simp [savesDraft, hdb] at hsaves
    | failed error hr hdb hobject => simp [savesDraft, hdb] at hsaves
    | uploaded owner data plan hplan hr hdb => simp [savesDraft, hdb] at hsaves
  · intro x hx error hr
    obtain ⟨hσ, h⟩ := hrun.at_mem hkeep hissued hx
    rw [hr] at h
    exact (Sys.step_stepped h).failed_db
  · intro t₁ x t₂ ht hfinal y hy v
    subst ht
    obtain ⟨hprior, hstep, hrest⟩ := hrun.at_entry
    obtain ⟨d, hd, rfl, hfinal⟩ := hfinal
    have hclosed : Closed d.id x.before := by
      refine ⟨hprior.invariant hkeep hissued d hd, ?_⟩
      intro d' hd' hid
      rwa [Table.eq_of_key hd' hd hid]
    have htail : Run (Sys.step s) x.before (x :: t₂) σ := (Run.nil.snoc hstep).trans hrest
    obtain ⟨hσ, h⟩ := htail.at_mem (fun hσ h => Closed.step hσ h) hclosed hy
    exact hσ.not_accepts h

section Example

def titledEvents : List Event :=
  [.call (.createImport 1 ⟨.absent, []⟩ none) (plainFresh 1),
    .beginAttach 1 2 "score.pdf".toList 0 plainPDF 7,
    .commit (plainAttach 2 0 7) (plainFresh 2),
    .call (.updateImport 1 2 ⟨1, { (newMetadata [] none).input with title := " Prelude ".toList },
      ⟨none, none, true, false⟩, ⟨1, freshPages (plainFresh 2).pageIds 5 1⟩⟩) (plainFresh 3),
    .beginFinalize 1 2 2 plainPDF 8,
    .commit (plainFinalize 2 2 8) (plainFresh 4)]

/-- The title is saved without its blanks, so not exactly as the draft has it. -/
theorem not_savedExactly : ∃ t σ, Initial emptyLibrary ∧
    Run (Sys.step plainService) emptyLibrary t σ ∧ ∃ x ∈ t, savesDraft 2 x = true ∧
      ∃ d ∈ x.before.db.drafts, d.id = 2 ∧ x.event.finalizes = some (2, (d.revision : Int)) ∧
        ∃ p ∈ x.after.db.pieces, finalizedAs 2 x = some p.id ∧ p.title ≠ d.metadata.input.title := by
  obtain ⟨t, σ, hrun, ht⟩ : ∃ t σ, Run (Sys.step plainService) emptyLibrary t σ ∧
      (t.any fun x => savesDraft 2 x && x.before.db.drafts.rows.any fun d =>
        d.id == 2 && x.event.finalizes == some (2, (d.revision : Int)) &&
          x.after.db.pieces.rows.any fun p =>
            finalizedAs 2 x == some p.id && p.title != d.metadata.input.title) = true :=
    exists_run titledEvents (by decide +kernel)
  simp only [List.any_eq_true, Bool.and_eq_true, beq_iff_eq, bne_iff_ne, Table.mem_rows] at ht
  obtain ⟨x, hx, hsaves, d, hd, ⟨hid, he⟩, p, hp, hpiece, htitle⟩ := ht
  exact ⟨t, σ, emptyLibrary_initial, hrun, x, hx, hsaves, d, hd, hid, he, p, hp, hpiece, htitle⟩

theorem optimistic_revisions_titled : ∃ t σ, Run (Sys.step plainService) emptyLibrary t σ ∧
    t.countP (accepted 2) = 2 ∧ t.countP (accepts 2 1) ≤ 1 := by
  obtain ⟨t, σ, hrun, ht⟩ : ∃ t σ, Run (Sys.step plainService) emptyLibrary t σ ∧
      (t.countP (accepted 2) == 2) = true := exists_run titledEvents (by decide +kernel)
  exact ⟨t, σ, hrun, beq_iff_eq.mp ht, (optimistic_revisions emptyLibrary_initial hrun 2).1 1⟩

end Example

end Noted
