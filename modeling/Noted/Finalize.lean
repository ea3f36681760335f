import Noted.Rows

/-!
# A draft is finalized once

Only one step of the calls of `finalizeImport` on a draft can write. It settles the
draft on its piece, and a settled draft stays settled while it is there: its id is
never generated again.
-/

namespace Noted

open Library Db

variable {s : Service} {σ σ' σ₀ : Sys} {e : Event} {r : Response} {draft pieceId : Id}

section Ids

theorem Sys.Stepped.ids (h : Sys.Stepped s σ e r σ') {id : Id} (hid : id ∈ σ.ids) : id ∈ σ'.ids := by
  have hspend : ∀ fresh, id ∈ (σ.spend fresh).ids := fun fresh =>
    List.mem_cons_of_mem _ (List.mem_cons_of_mem _ hid)
  cases h with
  | callDone c fresh => exact hspend fresh
  | callFailed c fresh => exact hspend fresh
  | attached f fresh => exact hspend fresh
  | finalized f fresh => exact hspend fresh
  | retried f fresh => exact hspend fresh
  | commitFailed f fresh => exact hspend fresh
  | _ => exact hid

theorem Sys.Stepped.fresh_ids {c : Call} {fresh : Fresh}
    (h : Sys.Stepped s σ (.call c fresh) r σ') : fresh.id ∈ σ'.ids := by
  cases h with
  | callDone => exact List.mem_cons_self
  | callFailed => exact List.mem_cons_self

def Issued (σ : Sys) : Prop := ∀ d ∈ σ.db.drafts, d.id ∈ σ.ids

theorem Initial.issued (h : Initial σ) : Issued σ := by
  intro d hd
  rw [h.drafts] at hd
  exact absurd hd (Table.not_mem_empty d)

theorem Issued.step (hσ : Issued σ) (h : Sys.step s σ e = some (r, σ')) : Issued σ' := by
  have hstepped := Sys.step_stepped h
  intro d' hd'
  cases hstepped.draft_origin hd' with
  | kept hd => exact hstepped.ids (hσ d' hd)
  | started owner input work fresh start db he hr hfresh hlink hcount hstart heq =>
    subst he heq
    exact hstepped.fresh_ids
  | updated d hd input he hr hopen hrevision hrecent hchecks heq =>
    subst heq
    exact hstepped.ids (hσ d hd)
  | attached d hd f hf fresh hfresh filename revision file he hr hupload hopen hrevision hrecent heq =>
    subst heq
    exact hstepped.ids (hσ d hd)
  | finalized d hd he hunfinished pieceId htarget heq =>
    subst heq
    exact hstepped.ids (hσ d hd)

theorem Sys.Grants.not_issued {fresh : Fresh} (h : σ.Grants s fresh) (hσ : Issued σ) :
    ∀ d ∈ σ.db.drafts, d.id ≠ fresh.id := by
  rintro d hd heq
  exact h.2.1 (heq ▸ hσ d hd)

end Ids

section Kept

theorem attachedMetadata_base (metadata : DraftMetadata) (filename : Text) :
    (attachedMetadata metadata filename).base = metadata.base := by
  unfold attachedMetadata
  split
  · rfl
  · rfl

inductive Rewritten (now : Time) (d d' : DraftRow) : Prop
  | kept (heq : d' = d)
  | saved (metadata : DraftMetadata) (manifest : EditManifest) (hopen : d.finalized = false)
      (hbase : metadata.base = d.metadata.base)
      (heq : d' = (savedDraft metadata manifest now).apply d)
  | finalized (pieceId : Id) (hunfinished : d.finalized = false ∨ d.pieceId = none)
      (htarget : d.pieceId = none ∨ d.pieceId = some pieceId)
      (heq : d' = (finalizedDraft pieceId now).apply d)

theorem Sys.Stepped.rewritten (h : Sys.Stepped s σ e r σ') {d' : DraftRow}
    (hd' : d' ∈ σ'.db.drafts) (hissued : d'.id ∈ σ.ids) :
    ∃ d ∈ σ.db.drafts, d.id = d'.id ∧ Rewritten σ.clock d d' := by
  cases h.draft_origin hd' with
  | kept hd => exact ⟨d', hd, rfl, .kept rfl⟩
  | started owner input work fresh start db he hr hfresh hlink hcount hstart heq =>
    subst heq
    exact absurd hissued hfresh.2.1
  | updated d hd input he hr hopen hrevision hrecent hchecks heq =>
    subst heq
    exact ⟨d, hd, rfl, .saved ⟨input.metadata, input.imslpAutoFill, d.metadata.base⟩
      input.manifest hopen rfl rfl⟩
  | attached d hd f hf fresh hfresh filename revision file he hr hupload hopen hrevision hrecent heq =>
    subst heq
    exact ⟨d, hd, rfl, .saved _ _ hopen (attachedMetadata_base d.metadata filename) rfl⟩
  | finalized d hd he hunfinished pieceId htarget heq =>
    subst heq
    exact ⟨d, hd, rfl, .finalized pieceId hunfinished htarget rfl⟩

theorem Sys.Stepped.keeps_draft {P : DraftRow → Prop} (h : Sys.Stepped s σ e r σ')
    (hP : ∀ d d', Rewritten σ.clock d d' → P d → P d')
    (hσ : draft ∈ σ.ids ∧ ∀ d ∈ σ.db.drafts, d.id = draft → P d) :
    draft ∈ σ'.ids ∧ ∀ d ∈ σ'.db.drafts, d.id = draft → P d := by
  refine ⟨h.ids hσ.1, ?_⟩
  intro d' hd' hid
  obtain ⟨d, hd, hsame, hrewritten⟩ := h.rewritten hd' (hid ▸ hσ.1)
  exact hP d d' hrewritten (hσ.2 d hd (hsame.trans hid))

theorem Sys.Stepped.started {owner : Id} {input : CreateImport} {work : Option IMSLPWork}
    {fresh : Fresh} (hσ : Issued σ)
    (h : Sys.Stepped s σ (.call (.createImport owner input work) fresh) .done σ') {d : DraftRow}
    (hd : d ∈ σ'.db.drafts) (hid : d.id = fresh.id) :
    ∃ start db, Starts owner input work fresh σ.clock σ.db start db ∧
      d = startedDraft owner start fresh.id σ.clock := by
  cases h with
  | callDone c fresh db hfresh hrun =>
    cases Call.draft_origin hfresh hrun hd with
    | kept hold => exact absurd hid (hfresh.not_issued hσ d hold)
    | started owner' input' work' fresh' start db' he hr hfresh' hlink hcount hstart heq =>
      obtain ⟨hcall, rfl⟩ := Event.call.inj he
      obtain ⟨rfl, rfl, rfl⟩ := Call.createImport.inj hcall
      exact ⟨start, db', hstart, heq⟩
    | updated c hc input' he => simp [Event.edits] at he
    | attached c hc f hf fresh' hfresh' filename revision file he => simp [Event.edits] at he
    | finalized c hc he => simp [Event.finalizes] at he

end Kept

section Outcome

inductive FinalizeOutcome (s : Service) (σ : Sys) (draft : Id) (revision : Int) (e : Event)
    (r : Response) (σ' : Sys) : Prop
  | saved (owner : Id) (data : Bytes) (plan : FinalizePlan) (object : Object) (fresh : Fresh)
      (result : FinalizeResult) (hfresh : σ.Grants s fresh)
      (hplan : Planned s owner draft revision data σ.clock σ.db plan)
      (hr : r = .finalized result)
      (hrun : finalizeWrites s owner plan object fresh.id σ.clock σ.db = .ok (σ'.db, result))
  | retried (d : DraftRow) (hd : d ∈ σ.db.drafts) (hid : d.id = draft) (hfinal : d.finalized = true)
      (result : FinalizeResult) (hpiece : d.pieceId = some result.piece.id)
      (hr : r = .finalized result) (hdb : σ'.db = σ.db)
  | failed (error : Error) (hr : r = .failed error) (hdb : σ'.db = σ.db)
      (hobject : ∀ f fresh, e = .commit f fresh ∨ e = .abort f → f.object.key ∈ σ'.unqueued)
  | uploaded (owner : Id) (data : Bytes) (plan : FinalizePlan)
      (hplan : Planned s owner draft revision data σ.clock σ.db plan) (hr : r = .done)
      (hdb : σ'.db = σ.db)

theorem finalizeChecks_retried {owner id : Id} {revision : Int} {data : Bytes} {now : Time} {db : Db}
    {result : FinalizeResult}
    (h : finalizeChecks s owner id revision data now db = .ok (.done result)) :
    ∃ d ∈ db.drafts, d.id = id ∧ d.finalized = true ∧ d.pieceId = some result.piece.id := by
  obtain ⟨d, hd, ⟨hid, -, -⟩, -, hfinal, pieceId, hpiece, hresult⟩ := finalizeChecks_done h
  rw [← finalizedPiece_id hresult] at hpiece
  exact ⟨d, hd, hid, hfinal, hpiece⟩

theorem Sys.Stepped.finalize_outcome {revision : Int} (h : Sys.Stepped s σ e r σ')
    (he : e.finalizes = some (draft, revision)) : FinalizeOutcome s σ draft revision e r σ' := by
  cases h with
  | finalizeRefused owner id revision data key error =>
    refine .failed error rfl rfl ?_
    intro f fresh hf
    obtain hf | hf := hf <;> cases hf
  | finalizeRetried owner id revision data key result hchecks =>
    obtain ⟨rfl, rfl⟩ : id = draft ∧ revision = _ := by simpa [Event.finalizes] using he
    obtain ⟨d, hd, hid, hfinal, hpiece⟩ := finalizeChecks_retried hchecks
    exact .retried d hd hid hfinal result hpiece rfl rfl
  | finalizeSaved owner id revision data bytes key hkey plan hplan =>
    obtain ⟨rfl, rfl⟩ : id = draft ∧ revision = _ := by simpa [Event.finalizes] using he
    exact .uploaded owner data plan hplan rfl rfl
  | attached f fresh id filename revision file db hf hfresh hupload =>
    simp [Event.finalizes, hupload] at he
  | finalized f fresh id revision data plan db result hf hfresh hupload hplan hrun =>
    obtain ⟨rfl, rfl⟩ : id = draft ∧ revision = _ := by simpa [Event.finalizes, hupload] using he
    exact .saved f.owner data plan f.object fresh result hfresh hplan rfl hrun
  | retried f fresh id revision data result hf hfresh hupload hchecks =>
    obtain ⟨rfl, rfl⟩ : id = draft ∧ revision = _ := by simpa [Event.finalizes, hupload] using he
    obtain ⟨d, hd, hid, hfinal, hpiece⟩ := finalizeChecks_retried hchecks
    exact .retried d hd hid hfinal result hpiece rfl rfl
  | commitFailed f fresh error =>
    refine .failed error rfl rfl ?_
    intro g fresh' hg
    obtain hg | hg := hg
    · obtain ⟨rfl, rfl⟩ := Event.commit.inj hg
      exact List.mem_cons_self
    · cases hg
  | aborted f =>
    refine .failed .database rfl rfl ?_
    intro g fresh' hg
    obtain hg | hg := hg
    · cases hg
    · obtain rfl := Event.abort.inj hg
      exact List.mem_cons_self
  | _ => simp [Event.finalizes] at he

end Outcome

section Writes

variable {owner newId : Id} {revision : Int} {data : Bytes} {now : Time} {db db' : Db}
  {plan : FinalizePlan} {object : Object} {result : FinalizeResult}

/-- The rows of pieces that a finalization leaves: it changes one, or adds one. -/
inductive Saves (s : Service) (owner : Id) (plan : FinalizePlan) (newId : Id) (now : Time)
    (db db' : Db) (pieceId : Id) : Prop
  | revised (p : PieceRow) (hp : p ∈ db.pieces) (howner : p.userId = owner) (hid : p.id = pieceId)
      (htarget : plan.draft.row.pieceId = some pieceId)
      (hrows : db'.pieces.rows = db.pieces.rows.map fun q =>
        if q.id = pieceId then
          (finalizedChange s plan.metadata plan.draft.row.manifest now).apply q
        else q)
  | created (hid : newId = pieceId) (htarget : plan.draft.row.pieceId = none)
      (hnew : ∀ p ∈ db.pieces, p.id ≠ newId)
      (hrows : db'.pieces.rows = db.pieces.rows ++
        [(finalizedChange s plan.metadata plan.draft.row.manifest now).apply
          (titledPiece owner newId plan.metadata.title now)])

theorem finalizeWrites_saves (hplan : Planned s owner draft revision data now db plan)
    (h : finalizeWrites s owner plan object newId now db = .ok (db', result)) :
    Saves s owner plan newId now db db' result.piece.id := by
  obtain ⟨pieceId, db₁, htarget, hresult, hpieces, -⟩ := finalizeWrites_tables h
  rw [finalizedPiece_id hresult]
  obtain ⟨m, -, hm⟩ := hplan.metadata
  obtain ⟨hid, rfl⟩ | ⟨hnone, rfl, hinsert⟩ := finalizeTarget_ok htarget
  · cases finalizePlan_targets hm with
    | piece current hp howner hid' =>
      obtain rfl : pieceId = current.id := Option.some.inj (hid.symm.trans hid')
      refine .revised current hp howner rfl hid ?_
      rw [hpieces]
      simp [Table.modify]
    | new hnone =>
      rw [hid] at hnone
      cases hnone
  · obtain ⟨pieces, hrow, rfl⟩ := insertPiece_eq_ok.mp hinsert
    obtain ⟨hnew, hrows⟩ := Table.insert?_eq_some.mp hrow
    refine .created rfl hnone hnew ?_
    have hold : ∀ q ∈ db.pieces.rows, (if (q.id == pieceId) = true then
        (finalizedChange s plan.metadata plan.draft.row.manifest now).apply q else q) = q := by
      intro q hq
      rw [if_neg]
      rw [beq_iff_eq]
      exact hnew q hq
    rw [hpieces]
    change List.map _ pieces.rows = _
    rw [hrows, List.map_append, List.map_congr_left hold]
    simp [titledPiece]

theorem finalizeWrites_settled (hplan : Planned s owner draft revision data now db plan)
    (h : finalizeWrites s owner plan object newId now db = .ok (db', result)) :
    ∀ d ∈ db'.drafts, d.id = draft → d.finalized = true ∧ d.pieceId = some result.piece.id := by
  obtain ⟨pieceId, db₁, -, hresult, -, hdrafts⟩ := finalizeWrites_tables h
  rw [finalizedPiece_id hresult, hdrafts, hplan.draft_id]
  intro d hd hid
  obtain ⟨c, -, rfl⟩ := mem_updateDraft.mp hd
  by_cases hc : c.id = draft
  · rw [if_pos hc]
    exact ⟨rfl, rfl⟩
  · rw [if_neg hc] at hid
    exact absurd hid hc

end Writes

section Settled

def Settled (draft pieceId : Id) (σ : Sys) : Prop :=
  draft ∈ σ.ids ∧ ∀ d ∈ σ.db.drafts, d.id = draft → d.finalized = true ∧ d.pieceId = some pieceId

theorem Settled.step (hσ : Settled draft pieceId σ) (h : Sys.step s σ e = some (r, σ')) :
    Settled draft pieceId σ' := by
  refine (Sys.step_stepped h).keeps_draft ?_ hσ
  intro d d' hrewritten hd
  cases hrewritten with
  | kept heq => rwa [heq]
  | saved metadata manifest hopen =>
    rw [hd.1] at hopen
    cases hopen
  | finalized pieceId' hunfinished => simp [hd.1, hd.2] at hunfinished

theorem Planned.not_settled {owner : Id} {revision : Int} {data : Bytes} {plan : FinalizePlan}
    (h : Planned s owner draft revision data σ.clock σ.db plan) : ¬∃ i, Settled draft i σ := by
  rintro ⟨i, -, hsettled⟩
  obtain ⟨hfinal, hpiece⟩ := hsettled _ h.draft_mem h.draft_id
  have hunfinished := h.unfinished
  simp [hfinal, hpiece] at hunfinished

end Settled

section Once

variable {t : List (Entry Sys Event Response)}

def Db.library (db : Db) : List PieceRow × List PdfRow × List PieceSource × List ReaderRow :=
  (db.pieces.rows, db.pdfs.rows, db.pieceSources.rows, db.readers.rows)

def finalizes (draft : Id) (x : Entry Sys Event Response) : Prop :=
  ∃ revision, x.event.finalizes = some (draft, revision)

def finalizedAs (draft : Id) (x : Entry Sys Event Response) : Option Id :=
  match x.event.finalizes, x.response with
  | some (id, _), .finalized result => if id = draft then some result.piece.id else none
  | _, _ => none

def savesDraft (draft : Id) (x : Entry Sys Event Response) : Bool :=
  x.event.finalizes.any (fun p => p.1 == draft) && x.before.db.library != x.after.db.library

theorem savesDraft_finalizes {x : Entry Sys Event Response} (h : savesDraft draft x = true) :
    finalizes draft x := by
  rw [savesDraft, Bool.and_eq_true, Option.any_eq_true] at h
  obtain ⟨⟨⟨id, revision⟩, he, hid⟩, -⟩ := h
  obtain rfl : id = draft := by simpa using hid
  exact ⟨revision, he⟩

/-- A step that changes the library settles its draft, which was not settled before. -/
theorem savesDraft_settles (hσ : Issued σ) (h : Sys.step s σ e = some (r, σ'))
    (hsaves : savesDraft draft ⟨σ, e, r, σ'⟩ = true) :
    (¬∃ i, Settled draft i σ) ∧ ∃ i, Settled draft i σ' := by
  obtain ⟨revision, he⟩ := savesDraft_finalizes hsaves
  have hstepped := Sys.step_stepped h
  cases hstepped.finalize_outcome he with
  | saved owner data plan object fresh result hfresh hplan hr hrun =>
    refine ⟨hplan.not_settled, result.piece.id, ?_, finalizeWrites_settled hplan hrun⟩
    rw [← hplan.draft_id]
    exact hstepped.ids (hσ _ hplan.draft_mem)
  | retried d hd hid hfinal result hpiece hr hdb => simp [savesDraft, hdb] at hsaves
  | failed error hr hdb hobject => simp [savesDraft, hdb] at hsaves
  | uploaded owner data plan hplan hr hdb => simp [savesDraft, hdb] at hsaves

theorem finalizedAs_eq_some {x : Entry Sys Event Response} {i : Id} (h : finalizedAs draft x = some i) :
    ∃ revision result, x.event.finalizes = some (draft, revision) ∧
      x.response = .finalized result ∧ result.piece.id = i := by
  unfold finalizedAs at h
  split at h
  · rename_i id revision result he hr
    obtain ⟨rfl, hi⟩ := Option.ite_none_right_eq_some.mp h
    exact ⟨revision, result, he, hr, Option.some.inj hi⟩
  · cases h

theorem finalizedAs_settled (hσ : Issued σ) (h : Sys.step s σ e = some (r, σ')) {i : Id}
    (hi : finalizedAs draft ⟨σ, e, r, σ'⟩ = some i) : Settled draft i σ' := by
  obtain ⟨revision, result, he, hr, rfl⟩ := finalizedAs_eq_some hi
  have hstepped := Sys.step_stepped h
  cases hstepped.finalize_outcome he with
  | saved owner data plan object fresh result' hfresh hplan hr' hrun =>
    obtain rfl : result = result' := Response.finalized.inj (hr.symm.trans hr')
    refine ⟨?_, finalizeWrites_settled hplan hrun⟩
    rw [← hplan.draft_id]
    exact hstepped.ids (hσ _ hplan.draft_mem)
  | retried d hd hid hfinal result' hpiece hr' hdb =>
    obtain rfl : result = result' := Response.finalized.inj (hr.symm.trans hr')
    subst hid
    refine ⟨hstepped.ids (hσ d hd), ?_⟩
    intro d' hd' heq
    rw [hdb] at hd'
    rw [Table.eq_of_key hd' hd heq]
    exact ⟨hfinal, hpiece⟩
  | failed error hr' => cases hr.symm.trans hr'
  | uploaded owner data plan hplan hr' => cases hr.symm.trans hr'

theorem Settled.agree (hσ : Settled draft pieceId σ) (h : Sys.step s σ e = some (r, σ')) {i : Id}
    (hi : finalizedAs draft ⟨σ, e, r, σ'⟩ = some i) : i = pieceId := by
  obtain ⟨revision, result, he, hr, rfl⟩ := finalizedAs_eq_some hi
  cases (Sys.step_stepped h).finalize_outcome he with
  | saved owner data plan object fresh result' hfresh hplan =>
    exact absurd ⟨pieceId, hσ⟩ hplan.not_settled
  | retried d hd hid hfinal result' hpiece hr' =>
    obtain rfl : result = result' := Response.finalized.inj (hr.symm.trans hr')
    exact Option.some.inj (hpiece.symm.trans (hσ.2 d hd hid).2)
  | failed error hr' => cases hr.symm.trans hr'
  | uploaded owner data plan hplan hr' => cases hr.symm.trans hr'

/-- One piece is added, or the content revision of the draft's piece goes up by one. -/
inductive SavedOnce (draft pieceId : Id) (before after : Db) : Prop
  | created (p : PieceRow) (hid : p.id = pieceId)
      (hdraft : ∃ d ∈ before.drafts, d.id = draft ∧ d.pieceId = none)
      (hrows : after.pieces.rows = before.pieces.rows ++ [p])
  | revised (p p' : PieceRow) (hp : p ∈ before.pieces) (hid : p.id = pieceId)
      (hid' : p'.id = pieceId)
      (hdraft : ∃ d ∈ before.drafts, d.id = draft ∧ d.pieceId = some pieceId)
      (hrevision : p'.contentRevision = p.contentRevision + 1)
      (hrows : after.pieces.rows = before.pieces.rows.map fun q => if q.id = pieceId then p' else q)

theorem Saves.savedOnce {owner newId : Id} {revision : Int} {data : Bytes} {now : Time} {db db' : Db}
    {plan : FinalizePlan} (h : Saves s owner plan newId now db db' pieceId)
    (hplan : Planned s owner draft revision data now db plan) :
    SavedOnce draft pieceId db db' := by
  cases h with
  | revised p hp howner hid htarget hrows =>
    refine .revised p ((finalizedChange s plan.metadata plan.draft.row.manifest now).apply p) hp hid
      hid ⟨_, hplan.draft_mem, hplan.draft_id, htarget⟩ rfl ?_
    · rw [hrows]
      apply List.map_congr_left
      intro q hq
      by_cases hqid : q.id = pieceId
      · rw [if_pos hqid, if_pos hqid, Table.eq_of_key hq hp (hqid.trans hid.symm)]
      · rw [if_neg hqid, if_neg hqid]
  | created hid htarget hnew hrows =>
    exact .created _ hid ⟨_, hplan.draft_mem, hplan.draft_id, htarget⟩ hrows

/-- Of all the calls that finalize a draft, repeated and concurrent, one changes the
library, all that succeed answer with one piece, and one that fails has changed
nothing and hands its object to the queue. -/
theorem finalize_once (hinitial : Initial σ₀) (hrun : Run (Sys.step s) σ₀ t σ) (draft : Id) :
    t.countP (savesDraft draft) ≤ 1 ∧
      (∀ x ∈ t, savesDraft draft x = true → ∃ result, x.response = .finalized result ∧
        SavedOnce draft result.piece.id x.before.db x.after.db) ∧
      (∀ x ∈ t, ∀ y ∈ t, finalizes draft x → finalizes draft y → ∀ p q,
        x.response = .finalized p → y.response = .finalized q → p.piece.id = q.piece.id) ∧
      ∀ x ∈ t, finalizes draft x → (∀ result, x.response ≠ .finalized result) →
        x.after.db = x.before.db ∧ ∀ error, x.response = .failed error →
          ∀ f fresh, x.event = .commit f fresh ∨ x.event = .abort f →
            f.object.key ∈ x.after.unqueued := by
  have hissued := hinitial.issued
  have hkeep : ∀ {σ : Sys} {e r σ'}, Issued σ → Sys.step s σ e = some (r, σ') → Issued σ' :=
    fun hσ h => hσ.step h
  refine ⟨?_, ?_, ?_, ?_⟩
  · refine (hrun.countP_le_one (P := fun σ => ∃ i, Settled draft i σ) hkeep ?_
      savesDraft_settles hissued).1
    intro σ e r σ' _ h hsettled
    obtain ⟨i, hi⟩ := hsettled
    exact ⟨i, hi.step h⟩
  · intro x hx hsaves
    obtain ⟨hσ, h⟩ := hrun.at_mem hkeep hissued hx
    obtain ⟨revision, he⟩ := savesDraft_finalizes hsaves
    cases (Sys.step_stepped h).finalize_outcome he with
    | saved owner data plan object fresh result hfresh hplan hr hrun =>
      exact ⟨result, hr, (finalizeWrites_saves hplan hrun).savedOnce hplan⟩
    | retried d hd hid hfinal result hpiece hr hdb => simp [savesDraft, hdb] at hsaves
    | failed error hr hdb hobject => simp [savesDraft, hdb] at hsaves
    | uploaded owner data plan hplan hr hdb => simp [savesDraft, hdb] at hsaves
  · intro x hx y hy hfx hfy p q hp hq
    obtain ⟨v, hv⟩ := hfx
    obtain ⟨w, hw⟩ := hfy
    refine (hrun.values_agree (finalizedAs draft) (Settled draft) hkeep
      (fun _ h hsettled => hsettled.step h) (fun hσ h => finalizedAs_settled hσ h)
      (fun _ h hsettled => hsettled.agree h) hissued).2 x hx y hy _ _ ?_ ?_
    · simp [finalizedAs, hv, hp]
    · simp [finalizedAs, hw, hq]
  · intro x hx hfinalizes hnot
    obtain ⟨hσ, h⟩ := hrun.at_mem hkeep hissued hx
    obtain ⟨revision, he⟩ := hfinalizes
    cases (Sys.step_stepped h).finalize_outcome he with
    | saved owner data plan object fresh result hfresh hplan hr hrun => exact absurd hr (hnot result)
    | retried d hd hid hfinal result hpiece hr hdb => exact absurd hr (hnot result)
    | failed error hr hdb hobject => exact ⟨hdb, fun _ _ => hobject⟩
    | uploaded owner data plan hplan hr hdb =>
      refine ⟨hdb, ?_⟩
      intro error heq
      cases hr.symm.trans heq

theorem finalize_once_retried : ∃ t σ, Run (Sys.step plainService) emptyLibrary t σ ∧
    (t.countP fun x => finalizedAs 2 x == some 6) = 2 ∧ t.countP (savesDraft 2) ≤ 1 := by
  obtain ⟨t, σ, hrun, ht⟩ : ∃ t σ, Run (Sys.step plainService) emptyLibrary t σ ∧
      ((t.countP fun x => finalizedAs 2 x == some 6) == 2) = true :=
    exists_run (plainEvents ++ [.beginFinalize 1 2 1 plainPDF 9]) (by decide +kernel)
  exact ⟨t, σ, hrun, beq_iff_eq.mp ht, (finalize_once emptyLibrary_initial hrun 2).1⟩

end Once

end Noted
