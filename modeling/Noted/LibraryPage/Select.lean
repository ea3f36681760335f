import Noted.LibraryPage.Rows

/-!
# The status select of a library row (library.store.ts, library-list-item.component)

The select of one row beside the store: the row that the page last rendered, which is
also the value that the select was last bound to, and the value that it shows. The page
is rendered some time after the store changes, and writes the select only where the
bound value changes. A save that fails writes it directly. Status saves are the row's
only updates, and one that fails has changed nothing on the server.
-/

namespace Noted.LibraryPage

open Library

structure RowSelect where
  store : RowStore
  shown : PieceSummary
  control : Text
  deriving DecidableEq

/-- The user chooses a status in the select, the server carries a save out, its answer or
its failure arrives, and the page is rendered with a row of the piece. -/
inductive SelectEvent
  | choose (status : Text)
  | apply (q : RowUpdate)
  | answer (q : RowUpdate)
  | fail (q : RowUpdate)
  | render (row : PieceSummary)
  deriving DecidableEq

abbrev RowStore.Shows (σ : RowStore) (status : Text) : Prop :=
  ∀ row ∈ σ.rows, row.id = σ.server.id → row.status = status

def RowStore.requested (before after : RowStore) : List Text := after.saving.diff before.saving

namespace RowSelect

variable (σ : RowSelect)

/-- The value of the select after a failure: the failed save of the latest choice puts
back the last saved status. -/
def restored (q : RowUpdate) : Text :=
  match σ.store.statusSaves with
  | none => σ.control
  | some pending =>
    if q.change.status? = some pending.latest then pending.saved.status else σ.control

/-- A choice is made on the row as it stands. The response is what has been sent. -/
def step (σ : RowSelect) (e : SelectEvent) : Option (List Text × RowSelect) :=
  match e with
  | .choose status =>
    if σ.store.Shows σ.shown.status then
      some (σ.store.requested (σ.store.changeStatus σ.shown status),
        ⟨σ.store.changeStatus σ.shown status, σ.shown, status⟩)
    else none
  | .apply q => (σ.store.step (.apply q)).map fun p => ([], { σ with store := p.2 })
  | .answer q =>
    (σ.store.step (.answer q)).map fun p =>
      ((σ.store.settle q).requested p.2, { σ with store := p.2 })
  | .fail q =>
    if q.answer = none then
      (σ.store.step (.fail q)).map fun p =>
        ((σ.store.settle q).requested p.2, { σ with store := p.2, control := σ.restored q })
    else none
  | .render row =>
    if row ∈ σ.store.rows ∧ row.id = σ.store.server.id then
      some ([], { σ with
        shown := row
        control := if row.status = σ.shown.status then σ.control else row.status })
    else none

/-- The answer to a save of the latest choice finds the row with its status, or the page
has last rendered another. -/
def rendered : SelectEvent → Bool
  | .answer ⟨.status status, _⟩ =>
    σ.store.statusSaves.map StatusSave.latest != some status || decide (σ.store.Shows status) ||
      σ.shown.status != status
  | _ => true

def chosen? : SelectEvent → Option Text
  | .choose status => if status = σ.shown.status then none else some status
  | _ => none

end RowSelect

def SelectEvent.saved? : SelectEvent → Option Text
  | .answer q => q.change.status?
  | _ => none

def chosen (t : List (Entry RowSelect SelectEvent (List Text))) : List Text :=
  t.filterMap fun x => x.before.chosen? x.event

def sent (t : List (Entry RowSelect SelectEvent (List Text))) : List Text :=
  t.flatMap fun x => x.response

/-- The status of the last save that succeeded in a run, or the first. -/
def lastSaved (first : Text) (t : List (Entry RowSelect SelectEvent (List Text))) : Text :=
  Run.lastOf SelectEvent.saved? first t

/-- A status save is under way: it was the last one sent, and the choices since wait. The
row has the latest choice, or was put back to the last saved status by a failure. -/
structure Busy (saved : Text) (chosen sent : List Text) (σ : RowStore) (p : StatusSave)
    (q : RowUpdate) (status : Text) : Prop where
  only : σ.updates = [q]
  change : q.change = .status status
  last : sent.getLast? = some status
  savedId : p.saved.id = σ.server.id
  savedStatus : p.saved.status = saved
  latest : chosen.getLast? = some p.latest
  queued : ∃ done, chosen = done ++ p.queue ∧ sent.Sublist done
  shows : σ.Shows p.latest ∨ (σ.Shows p.saved.status ∧ status = p.latest)
  server : (q.answer = none ∧ σ.server.status = saved) ∨
    ∃ row, q.answer = some row ∧ row.status = status ∧ σ.server.status = status

structure Saved (saved : Text) (chosen sent : List Text) (σ : RowSelect) : Prop where
  tracked : σ.store.Tracked
  shownId : σ.shown.id = σ.store.server.id
  idle : σ.store.statusSaves = none → σ.store.updates = [] ∧ σ.store.server.status = saved ∧
    σ.store.Shows saved ∧ sent.Sublist chosen ∧ sent.getLast? = chosen.getLast?
  busy : ∀ p, σ.store.statusSaves = some p →
    ∃ q status, Busy saved chosen sent σ.store p q status

/-- Where the row has the status last rendered, so does the select. -/
def Bound (σ : RowSelect) : Prop :=
  σ.store.Shows σ.shown.status → σ.control = σ.shown.status

section Steps

variable {saved status : Text} {chosen sent : List Text} {σ σ' : RowSelect} {τ : RowStore}
  {p : StatusSave} {q : RowUpdate} {row piece : PieceSummary}

theorem shows_replaceRow (hid : piece.id = τ.server.id) : (τ.replaceRow piece).Shows piece.status := by
  intro row hrow hrowid
  rw [RowStore.mem_replaceRow hrow (hrowid.trans hid.symm)]

theorem status_unique (h : ∃ row ∈ τ.rows, row.id = τ.server.id) {a b : Text} (ha : τ.Shows a)
    (hb : τ.Shows b) : a = b := by
  obtain ⟨row, hrow, hid⟩ := h
  exact (ha row hrow hid).symm.trans (hb row hrow hid)

theorem diff_self (l : List Text) : l.diff l = [] := by
  induction l with
  | nil => rfl
  | cons a l ih => rw [List.diff_cons, List.erase_cons_head, ih]

theorem requested_of_saving {before after : RowStore} (hbefore : before.saving = []) :
    before.requested after = after.saving := by
  rw [RowStore.requested, hbefore, List.diff_nil]

theorem requested_changeStatus (h : τ.Tracked) (hne : status ≠ piece.status) :
    τ.requested (τ.changeStatus piece status) = if τ.statusSaves = none then [status] else [] := by
  rw [RowStore.changeStatus, if_neg hne]
  cases hsaves : τ.statusSaves with
  | none =>
    have hsaving : τ.saving = [] := h.idle hsaves
    rw [requested_of_saving hsaving, RowStore.saving_send_status, if_pos rfl]
    exact congrArg (List.cons status) hsaving
  | some p =>
    rw [RowStore.requested, RowStore.saving_replaceRow, if_neg (by simp)]
    exact diff_self τ.saving

theorem Saved.nextSave {shown : PieceSummary} {control : Text} {done : List Text}
    (hlisted : ∃ row ∈ τ.rows, row.id = τ.server.id) (hupdates : τ.updates = [])
    (hlast : (status :: p.queue).getLast? = some p.latest)
    (hshown : shown.id = τ.server.id) (hsavedId : p.saved.id = τ.server.id)
    (hsaved : p.saved.status = saved) (hserver : τ.server.status = saved)
    (hsent : sent.getLast? = some status) (hlatest : chosen.getLast? = some p.latest)
    (hqueued : chosen = done ++ p.queue) (hsub : sent.Sublist done)
    (hshows : τ.Shows p.latest ∨ τ.Shows p.saved.status)
    (hidle : p.latest = status → τ.Shows saved) :
    Saved saved chosen (sent ++ τ.requested (τ.nextSave p)) ⟨τ.nextSave p, shown, control⟩ := by
  have hsaving : τ.saving = [] := by rw [RowStore.saving, hupdates]; rfl
  have hanswers : ∀ q ∈ τ.updates, ∀ row, q.answer = some row → row.id = τ.server.id := by
    intro q hq
    rw [hupdates] at hq
    cases hq
  have htracked := RowStore.Tracked.nextSave hlisted hanswers hsaving hlast
  rw [requested_of_saving hsaving]
  obtain ⟨hnil, heq, hnext⟩ | ⟨skipped, queue, hsplit, -, hnext⟩ := τ.nextSave_cases hlast
  · rw [hnext] at htracked ⊢
    have hnothing : RowStore.saving { τ with statusSaves := none } = [] := hsaving
    rw [hnothing, List.append_nil]
    refine ⟨htracked, hshown, fun _ => ⟨hupdates, hserver, hidle heq, ?_, ?_⟩, fun p' hp' => ?_⟩
    · rw [hqueued, hnil, List.append_nil]
      exact hsub
    · rw [hsent, hlatest, heq]
    · cases hp'
  · rw [hnext] at htracked ⊢
    have hone : RowStore.saving ({ τ with
        statusSaves := some { p with queue := queue } }.send (.status p.latest)) = [p.latest] := by
      rw [RowStore.saving_send_status]
      exact congrArg _ hsaving
    rw [hone]
    refine ⟨htracked, hshown, fun hnone => ?_, fun p' hp' => ?_⟩
    · cases hnone
    · obtain rfl := Option.some.inj hp'
      refine ⟨⟨.status p.latest, none⟩, p.latest, ?_, rfl, List.getLast?_concat, hsavedId,
        hsaved, hlatest, ⟨done ++ skipped ++ [p.latest], ?_, ?_⟩, ?_, Or.inl ⟨rfl, hserver⟩⟩
      · exact congrArg (List.cons _) hupdates
      · rw [hqueued, hsplit]
        simp
      · rw [List.append_assoc]
        exact hsub.append (List.sublist_append_right _ _)
      · exact hshows.imp id fun h => ⟨h, rfl⟩

theorem Saved.changeStatus (h : Saved saved chosen sent σ)
    (hshows : σ.store.Shows σ.shown.status) (hne : status ≠ σ.shown.status) :
    Saved saved (chosen ++ [status])
      (sent ++ σ.store.requested (σ.store.changeStatus σ.shown status))
      ⟨σ.store.changeStatus σ.shown status, σ.shown, status⟩ := by
  have htracked := h.tracked.changeStatus h.shownId status
  have hid : PieceSummary.id { σ.shown with status := status } = σ.store.server.id := h.shownId
  rw [requested_changeStatus h.tracked hne]
  rw [RowStore.changeStatus, if_neg hne] at htracked ⊢
  cases hsaves : σ.store.statusSaves with
  | none =>
    obtain ⟨hupdates, hserver, hsaved, hsub, hlast⟩ := h.idle hsaves
    rw [hsaves] at htracked
    dsimp only at htracked ⊢
    rw [if_pos rfl]
    refine ⟨htracked, h.shownId, fun hnone => ?_, fun p hp => ?_⟩
    · cases hnone
    · obtain rfl := Option.some.inj hp
      refine ⟨⟨.status status, none⟩, status, ?_, rfl, List.getLast?_concat, h.shownId,
        status_unique h.tracked.listed hshows hsaved, List.getLast?_concat,
        ⟨chosen ++ [status], (List.append_nil _).symm, hsub.append (List.Sublist.refl _)⟩,
        Or.inl ?_, Or.inl ⟨rfl, hserver⟩⟩
      · exact congrArg (List.cons _) hupdates
      · exact shows_replaceRow (τ := { σ.store with statusSaves := _ }) hid
  | some p =>
    obtain ⟨q, running, hbusy⟩ := h.busy p hsaves
    rw [hsaves] at htracked
    dsimp only at htracked ⊢
    rw [if_neg (by simp), List.append_nil]
    refine ⟨htracked, h.shownId, fun hnone => ?_, fun p' hp' => ?_⟩
    · cases hnone
    · obtain rfl := Option.some.inj hp'
      obtain ⟨done, hqueued, hsub⟩ := hbusy.queued
      refine ⟨q, running, hbusy.only, hbusy.change, hbusy.last, hbusy.savedId, hbusy.savedStatus,
        List.getLast?_concat, ⟨done, by rw [hqueued, List.append_assoc], hsub⟩, Or.inl ?_,
        hbusy.server⟩
      exact shows_replaceRow (τ := { σ.store with statusSaves := _ }) hid

theorem Saved.applied (h : Saved saved chosen sent σ) (hq : q ∈ σ.store.updates) :
    Saved saved chosen sent { σ with store := σ.store.applied q } := by
  have hserverId : (σ.store.applied q).server.id = σ.store.server.id := RowChange.apply_id _ _
  have hshows : ∀ status, σ.store.Shows status → (σ.store.applied q).Shows status := by
    intro status hstatus row hrow hid
    exact hstatus row hrow (hid.trans hserverId)
  refine ⟨h.tracked.applied hq, h.shownId.trans hserverId.symm, fun hnone => ?_, fun p hp => ?_⟩
  · rw [(h.idle hnone).1] at hq
    cases hq
  · obtain ⟨q', status, hbusy⟩ := h.busy p hp
    rw [hbusy.only, List.mem_singleton] at hq
    subst hq
    refine ⟨⟨q.change, some (q.change.apply σ.store.server)⟩, status, ?_, hbusy.change,
      hbusy.last, hbusy.savedId.trans hserverId.symm, hbusy.savedStatus, hbusy.latest, hbusy.queued,
      hbusy.shows.imp (hshows _) (And.imp_left (hshows _)), Or.inr ⟨_, rfl, ?_, ?_⟩⟩
    · rw [RowStore.applied, hbusy.only, List.erase_cons_head]
    · rw [hbusy.change]
      rfl
    · rw [RowStore.applied, hbusy.change]
      rfl

theorem Saved.under_way (h : Saved saved chosen sent σ) (hq : q ∈ σ.store.updates) :
    ∃ p status, σ.store.statusSaves = some p ∧ Busy saved chosen sent σ.store p q status := by
  cases hsaves : σ.store.statusSaves with
  | none =>
    rw [(h.idle hsaves).1] at hq
    cases hq
  | some p =>
    obtain ⟨q', status, hbusy⟩ := h.busy p hsaves
    obtain rfl : q = q' := by
      rw [hbusy.only] at hq
      exact List.mem_singleton.mp hq
    exact ⟨p, status, rfl, hbusy⟩

theorem Busy.shows_saved {store : RowStore} (h : Busy saved chosen sent store p q status)
    (hne : p.latest ≠ status) : store.Shows p.latest := by
  obtain hlatest | ⟨-, heq⟩ := h.shows
  · exact hlatest
  · exact absurd heq.symm hne

theorem Saved.answered (h : Saved saved chosen sent σ) (hq : q ∈ σ.store.updates)
    (hrow : q.answer = some row) (hanswered : σ.store.answered q row = some τ) :
    ∃ status, q.change = .status status ∧
      Saved status chosen (sent ++ (σ.store.settle q).requested τ) { σ with store := τ } := by
  have hid := h.tracked.answers q hq row hrow
  obtain ⟨p, status, hsaves, hbusy⟩ := h.under_way hq
  refine ⟨status, hbusy.change, ?_⟩
  rw [RowStore.answered, hbusy.change, hsaves] at hanswered
  obtain rfl := Option.some.inj hanswered
  obtain ⟨-, hlast⟩ := h.tracked.running hq hbusy.change hsaves
  obtain ⟨hnone, -⟩ | ⟨row', hrow', hstatus, hserver⟩ := hbusy.server
  · rw [hnone] at hrow
    cases hrow
  obtain rfl := Option.some.inj (hrow.symm.trans hrow')
  obtain ⟨done, hqueued, hsub⟩ := hbusy.queued
  have hsettled : (σ.store.settle q).updates = [] := by
    rw [RowStore.settle, hbusy.only, List.erase_cons_head]
  have hresult : ∀ store : RowStore, store.updates = [] → store.server = σ.store.server →
      (∃ row ∈ store.rows, row.id = σ.store.server.id) →
      (store.Shows p.latest ∨ store.Shows status) → (p.latest = status → store.Shows status) →
      Saved status chosen (sent ++ store.requested (store.nextSave { p with saved := row }))
        ⟨store.nextSave { p with saved := row }, σ.shown, σ.control⟩ := by
    intro store hupdates hsame hlisted hshows hidle
    refine Saved.nextSave (by rw [hsame]; exact hlisted) hupdates hlast
      (by rw [hsame]; exact h.shownId) (by rw [hsame]; exact hid) hstatus
      (by rw [hsame]; exact hserver) hbusy.last hbusy.latest hqueued hsub ?_ hidle
    rw [hstatus]
    exact hshows
  unfold RowStore.saveStatus
  dsimp only
  split_ifs with hlatest
  · have hshows : ((σ.store.settle q).replaceRow row).Shows status := by
      rw [← hstatus]
      exact shows_replaceRow (τ := σ.store.settle q) hid
    exact hresult _ hsettled rfl (h.tracked.listed_replaceRow hid) (Or.inr hshows)
      fun _ => hshows
  · exact hresult _ hsettled rfl h.tracked.listed (Or.inl (hbusy.shows_saved hlatest))
      fun heq => absurd heq hlatest

theorem Saved.failed (h : Saved saved chosen sent σ) (hq : q ∈ σ.store.updates)
    (hnone : q.answer = none) (hfailed : σ.store.failed q = some τ) (control : Text) :
    Saved saved chosen (sent ++ (σ.store.settle q).requested τ) ⟨τ, σ.shown, control⟩ := by
  obtain ⟨p, status, hsaves, hbusy⟩ := h.under_way hq
  rw [RowStore.failed, hbusy.change, hsaves] at hfailed
  obtain rfl := Option.some.inj hfailed
  obtain ⟨-, hlast⟩ := h.tracked.running hq hbusy.change hsaves
  obtain ⟨-, hserver⟩ | ⟨row, hrow, -⟩ := hbusy.server
  case inr =>
    rw [hnone] at hrow
    cases hrow
  obtain ⟨done, hqueued, hsub⟩ := hbusy.queued
  have hsettled : (σ.store.settle q).updates = [] := by
    rw [RowStore.settle, hbusy.only, List.erase_cons_head]
  unfold RowStore.failStatus
  dsimp only
  split_ifs with hlatest
  · have hshows : ((σ.store.settle q).replaceRow p.saved).Shows p.saved.status :=
      shows_replaceRow (τ := σ.store.settle q) hbusy.savedId
    exact Saved.nextSave (h.tracked.listed_replaceRow hbusy.savedId) hsettled hlast h.shownId
      hbusy.savedId hbusy.savedStatus hserver hbusy.last hbusy.latest hqueued hsub
      (Or.inr hshows) fun _ => hbusy.savedStatus ▸ hshows
  · exact Saved.nextSave h.tracked.listed hsettled hlast h.shownId
      hbusy.savedId hbusy.savedStatus hserver hbusy.last hbusy.latest hqueued hsub
      (Or.inl (hbusy.shows_saved hlatest)) fun heq => absurd heq hlatest

theorem RowSelect.step_cases {e : SelectEvent} {r : List Text} (hstep : σ.step e = some (r, σ')) :
    (∃ status, e = .choose status ∧ σ.store.Shows σ.shown.status ∧
      r = σ.store.requested (σ.store.changeStatus σ.shown status) ∧
      σ' = ⟨σ.store.changeStatus σ.shown status, σ.shown, status⟩) ∨
    (∃ q, e = .apply q ∧ q ∈ σ.store.updates ∧ r = [] ∧
      σ' = { σ with store := σ.store.applied q }) ∨
    (∃ q row τ, e = .answer q ∧ q ∈ σ.store.updates ∧ q.answer = some row ∧
      σ.store.answered q row = some τ ∧ r = (σ.store.settle q).requested τ ∧
      σ' = { σ with store := τ }) ∨
    (∃ q τ, e = .fail q ∧ q ∈ σ.store.updates ∧ q.answer = none ∧ σ.store.failed q = some τ ∧
      r = (σ.store.settle q).requested τ ∧ σ' = ⟨τ, σ.shown, σ.restored q⟩) ∨
    (∃ row, e = .render row ∧ row ∈ σ.store.rows ∧ row.id = σ.store.server.id ∧ r = [] ∧
      σ' = ⟨σ.store, row, if row.status = σ.shown.status then σ.control else row.status⟩) := by
  cases e with
  | choose status =>
    obtain ⟨hshows, heq⟩ := Option.ite_none_right_eq_some.mp hstep
    cases heq
    exact Or.inl ⟨status, rfl, hshows, rfl, rfl⟩
  | apply q =>
    obtain ⟨p, hp, heq⟩ := Option.map_eq_some_iff.mp hstep
    cases heq
    obtain ⟨⟨hq, -⟩, heq⟩ := Option.ite_none_right_eq_some.mp hp
    cases heq
    exact Or.inr (Or.inl ⟨q, rfl, hq, rfl, rfl⟩)
  | answer q =>
    obtain ⟨p, hp, heq⟩ := Option.map_eq_some_iff.mp hstep
    cases heq
    obtain ⟨hq, hanswer⟩ := Option.ite_none_right_eq_some.mp hp
    obtain ⟨row, hrow, hmap⟩ := Option.bind_eq_some_iff.mp hanswer
    obtain ⟨τ, hτ, heq⟩ := Option.map_eq_some_iff.mp hmap
    cases heq
    exact Or.inr (Or.inr (Or.inl ⟨q, row, τ, rfl, hq, hrow, hτ, rfl, rfl⟩))
  | fail q =>
    obtain ⟨hnone, hmap⟩ := Option.ite_none_right_eq_some.mp hstep
    obtain ⟨p, hp, heq⟩ := Option.map_eq_some_iff.mp hmap
    cases heq
    obtain ⟨hq, hfailed⟩ := Option.ite_none_right_eq_some.mp hp
    obtain ⟨τ, hτ, heq⟩ := Option.map_eq_some_iff.mp hfailed
    cases heq
    exact Or.inr (Or.inr (Or.inr (Or.inl ⟨q, τ, rfl, hq, hnone, hτ, rfl, rfl⟩)))
  | render row =>
    obtain ⟨⟨hrow, hid⟩, heq⟩ := Option.ite_none_right_eq_some.mp hstep
    cases heq
    exact Or.inr (Or.inr (Or.inr (Or.inr ⟨row, rfl, hrow, hid, rfl, rfl⟩)))

theorem Saved.step {e : SelectEvent} {r : List Text} (h : Saved saved chosen sent σ)
    (hstep : σ.step e = some (r, σ')) :
    Saved (e.saved?.getD saved) (chosen ++ (σ.chosen? e).toList) (sent ++ r) σ' := by
  obtain ⟨status, rfl, hshows, rfl, rfl⟩ | ⟨q, rfl, hq, rfl, rfl⟩ |
    ⟨q, row, τ, rfl, hq, hrow, hτ, rfl, rfl⟩ | ⟨q, τ, rfl, hq, hnone, hτ, rfl, rfl⟩ |
    ⟨row, rfl, -, hid, rfl, rfl⟩ := RowSelect.step_cases hstep
  · by_cases hsame : status = σ.shown.status
    · have hnothing : σ.store.requested σ.store = [] := diff_self σ.store.saving
      rw [RowStore.changeStatus, if_pos hsame, hnothing, RowSelect.chosen?, if_pos hsame,
        Option.toList_none, List.append_nil, List.append_nil]
      exact ⟨h.tracked, h.shownId, h.idle, h.busy⟩
    · rw [RowSelect.chosen?, if_neg hsame, Option.toList_some]
      exact h.changeStatus hshows hsame
  · have hchosen : σ.chosen? (.apply q) = none := rfl
    rw [hchosen, Option.toList_none, List.append_nil, List.append_nil]
    exact h.applied hq
  · obtain ⟨status, hchange, hsaved⟩ := h.answered hq hrow hτ
    have hchosen : σ.chosen? (.answer q) = none := rfl
    have hstatus : (SelectEvent.answer q).saved? = some status := by
      rw [SelectEvent.saved?, hchange]
      rfl
    rw [hstatus, hchosen, Option.toList_none, List.append_nil]
    exact hsaved
  · have hchosen : σ.chosen? (.fail q) = none := rfl
    rw [hchosen, Option.toList_none, List.append_nil]
    exact h.failed hq hnone hτ (σ.restored q)
  · have hchosen : σ.chosen? (.render row) = none := rfl
    rw [hchosen, Option.toList_none, List.append_nil, List.append_nil]
    exact ⟨h.tracked, hid, h.idle, h.busy⟩

theorem nextSave_rows (τ : RowStore) (p : StatusSave) :
    (τ.nextSave p).rows = τ.rows ∧ (τ.nextSave p).server = τ.server := by
  unfold RowStore.nextSave
  cases p.queue.dropWhile (· ≠ p.latest) <;> exact ⟨rfl, rfl⟩

theorem shows_nextSave {p : StatusSave} : (τ.nextSave p).Shows status ↔ τ.Shows status := by
  obtain ⟨hrows, hserver⟩ := nextSave_rows τ p
  rw [RowStore.Shows, hrows, hserver]

theorem Saved.answered_shows (h : Saved saved chosen sent σ) (hq : q ∈ σ.store.updates)
    (hrow : q.answer = some row) (hanswered : σ.store.answered q row = some τ) :
    ∃ p status, σ.store.statusSaves = some p ∧ q.change = .status status ∧
      ((p.latest = status ∧ τ.Shows status) ∨ ∀ s, τ.Shows s ↔ σ.store.Shows s) := by
  have hid := h.tracked.answers q hq row hrow
  obtain ⟨p, status, hsaves, hbusy⟩ := h.under_way hq
  refine ⟨p, status, hsaves, hbusy.change, ?_⟩
  rw [RowStore.answered, hbusy.change, hsaves] at hanswered
  obtain rfl := Option.some.inj hanswered
  obtain ⟨hnone, -⟩ | ⟨row', hrow', hstatus, -⟩ := hbusy.server
  · rw [hnone] at hrow
    cases hrow
  obtain rfl := Option.some.inj (hrow.symm.trans hrow')
  unfold RowStore.saveStatus
  dsimp only
  simp only [shows_nextSave]
  split_ifs with hlatest
  · left
    refine ⟨hlatest, ?_⟩
    rw [← hstatus]
    exact shows_replaceRow (τ := σ.store.settle q) hid
  · exact Or.inr fun s => Iff.rfl

theorem Saved.failed_shows (h : Saved saved chosen sent σ) (hq : q ∈ σ.store.updates)
    (hfailed : σ.store.failed q = some τ) :
    τ.Shows (σ.restored q) ∨ (σ.restored q = σ.control ∧ ∀ s, τ.Shows s ↔ σ.store.Shows s) := by
  obtain ⟨p, status, hsaves, hbusy⟩ := h.under_way hq
  have hcontrol : σ.restored q = if status = p.latest then p.saved.status else σ.control := by
    simp only [RowSelect.restored, hsaves, hbusy.change, RowChange.status?, Option.some.injEq]
  rw [RowStore.failed, hbusy.change, hsaves] at hfailed
  obtain rfl := Option.some.inj hfailed
  unfold RowStore.failStatus
  dsimp only
  simp only [shows_nextSave]
  rw [hcontrol]
  split_ifs with hlatest hlatest' hlatest'
  · exact Or.inl (shows_replaceRow (τ := σ.store.settle q) hbusy.savedId)
  · exact absurd hlatest.symm hlatest'
  · exact absurd hlatest'.symm hlatest
  · exact Or.inr ⟨rfl, fun s => Iff.rfl⟩

theorem Bound.step {e : SelectEvent} {r : List Text} (h : Bound σ)
    (hsaved : Saved saved chosen sent σ) (hrendered : σ.rendered e = true)
    (hstep : σ.step e = some (r, σ')) : Bound σ' := by
  have hafter := (hsaved.step hstep).tracked.listed
  obtain ⟨status, rfl, hshows, rfl, rfl⟩ | ⟨q, rfl, hq, rfl, rfl⟩ |
    ⟨q, row, τ, rfl, hq, hrow, hτ, rfl, rfl⟩ | ⟨q, τ, rfl, hq, hnone, hτ, rfl, rfl⟩ |
    ⟨row, rfl, hrow, hid, rfl, rfl⟩ := RowSelect.step_cases hstep
  · intro hnow
    by_cases hsame : status = σ.shown.status
    · exact hsame
    · have hchosen : (σ.store.changeStatus σ.shown status).Shows status := by
        have hid : PieceSummary.id { σ.shown with status := status } = σ.store.server.id :=
          hsaved.shownId
        rw [RowStore.changeStatus, if_neg hsame]
        cases σ.store.statusSaves with
        | none => exact shows_replaceRow (τ := { σ.store with statusSaves := _ }) hid
        | some p => exact shows_replaceRow (τ := { σ.store with statusSaves := _ }) hid
      exact status_unique hafter hchosen hnow
  · intro hnow
    refine h fun row hrow hid => hnow row hrow ?_
    exact hid.trans (RowChange.apply_id _ _).symm
  · intro hnow
    obtain ⟨p, status, hsaves, hchange, ⟨hlatest, hshows⟩ | hsame⟩ :=
      hsaved.answered_shows hq hrow hτ
    · have hstatus : status = σ.shown.status := status_unique hafter hshows hnow
      obtain ⟨change, answer⟩ := q
      dsimp only at hchange
      subst hchange
      simp only [RowSelect.rendered, hsaves, Option.map_some, hlatest, bne_self_eq_false,
        Bool.false_or, Bool.or_eq_true, decide_eq_true_eq, bne_iff_ne, ne_eq] at hrendered
      obtain hbefore | hother := hrendered
      · rw [hstatus] at hbefore
        exact h hbefore
      · exact absurd hstatus.symm hother
    · exact h ((hsame _).mp hnow)
  · intro hnow
    obtain hshows | ⟨hcontrol, hsame⟩ := hsaved.failed_shows hq hτ
    · exact status_unique hafter hshows hnow
    · exact hcontrol.trans (h ((hsame _).mp hnow))
  · intro hnow
    dsimp only at hnow ⊢
    split_ifs with hsame
    · rw [hsame] at hnow ⊢
      exact h hnow
    · rfl

theorem requested_nextSave (hupdates : τ.updates = [])
    (hlast : (status :: p.queue).getLast? = some p.latest) :
    ∀ s ∈ τ.requested (τ.nextSave p), s = p.latest := by
  have hsaving : τ.saving = [] := by rw [RowStore.saving, hupdates]; rfl
  rw [requested_of_saving hsaving]
  intro s hs
  obtain ⟨-, -, hnext⟩ | ⟨skipped, queue, -, -, hnext⟩ := τ.nextSave_cases hlast
  · rw [hnext] at hs
    have hnothing : RowStore.saving { τ with statusSaves := none } = [] := hsaving
    rw [hnothing] at hs
    cases hs
  · rw [hnext, RowStore.saving_send_status] at hs
    obtain rfl | hs := List.mem_cons.mp hs
    · rfl
    · have hnothing : RowStore.saving
          { τ with statusSaves := some { p with queue := queue } } = [] := hsaving
      rw [hnothing] at hs
      cases hs

theorem Saved.sent_latest {e : SelectEvent} {r : List Text} (h : Saved saved chosen sent σ)
    (hstep : σ.step e = some (r, σ')) :
    ∀ s ∈ r, (chosen ++ (σ.chosen? e).toList).getLast? = some s := by
  intro s hs
  have hsettled : ∀ q ∈ σ.store.updates, (σ.store.settle q).updates = [] := by
    intro q hq
    obtain ⟨p, status, -, hbusy⟩ := h.under_way hq
    rw [RowStore.settle, hbusy.only]
    exact List.erase_cons_head _ _
  obtain ⟨status, rfl, hshows, rfl, rfl⟩ | ⟨q, rfl, hq, rfl, rfl⟩ |
    ⟨q, row, τ, rfl, hq, hrow, hτ, rfl, rfl⟩ | ⟨q, τ, rfl, hq, hnone, hτ, rfl, rfl⟩ |
    ⟨row, rfl, -, hid, rfl, rfl⟩ := RowSelect.step_cases hstep
  · by_cases hsame : status = σ.shown.status
    · rw [RowStore.changeStatus, if_pos hsame, RowStore.requested, diff_self] at hs
      cases hs
    · rw [RowSelect.chosen?, if_neg hsame, Option.toList_some, List.getLast?_concat]
      rw [requested_changeStatus h.tracked hsame] at hs
      split_ifs at hs
      · rw [List.mem_singleton.mp hs]
      · cases hs
  · cases hs
  · have hchosen : σ.chosen? (.answer q) = none := rfl
    rw [hchosen, Option.toList_none, List.append_nil]
    obtain ⟨p, status, hsaves, hbusy⟩ := h.under_way hq
    obtain ⟨-, hlast⟩ := h.tracked.running hq hbusy.change hsaves
    rw [RowStore.answered, hbusy.change, hsaves] at hτ
    obtain rfl := Option.some.inj hτ
    rw [hbusy.latest]
    unfold RowStore.saveStatus at hs
    dsimp only at hs
    split_ifs at hs
    · exact congrArg some (requested_nextSave (τ := (σ.store.settle q).replaceRow row)
        (p := { p with saved := row }) (hsettled q hq) hlast s hs).symm
    · exact congrArg some (requested_nextSave (τ := σ.store.settle q)
        (p := { p with saved := row }) (hsettled q hq) hlast s hs).symm
  · have hchosen : σ.chosen? (.fail q) = none := rfl
    rw [hchosen, Option.toList_none, List.append_nil]
    obtain ⟨p, status, hsaves, hbusy⟩ := h.under_way hq
    obtain ⟨-, hlast⟩ := h.tracked.running hq hbusy.change hsaves
    rw [RowStore.failed, hbusy.change, hsaves] at hτ
    obtain rfl := Option.some.inj hτ
    rw [hbusy.latest]
    unfold RowStore.failStatus at hs
    dsimp only at hs
    split_ifs at hs
    · exact congrArg some (requested_nextSave (τ := (σ.store.settle q).replaceRow p.saved)
        (hsettled q hq) hlast s hs).symm
    · exact congrArg some (requested_nextSave (τ := σ.store.settle q)
        (hsettled q hq) hlast s hs).symm
  · cases hs

end Steps

def openedSelect (allPieces : List PieceSummary) (offered : Option PieceSummary)
    (server : PieceSummary) : RowSelect :=
  ⟨opened allPieces offered server, server, server.status⟩

section Runs

variable {allPieces : List PieceSummary} {offered : Option PieceSummary} {server : PieceSummary}
  {t : List (Entry RowSelect SelectEvent (List Text))} {σ : RowSelect}

theorem chosen_snoc (t : List (Entry RowSelect SelectEvent (List Text)))
    (x : Entry RowSelect SelectEvent (List Text)) :
    chosen (t ++ [x]) = chosen t ++ (x.before.chosen? x.event).toList := by
  rw [chosen, List.filterMap_append]
  cases h : x.before.chosen? x.event <;> simp [chosen, h]

theorem sent_snoc (t : List (Entry RowSelect SelectEvent (List Text)))
    (x : Entry RowSelect SelectEvent (List Text)) : sent (t ++ [x]) = sent t ++ x.response := by
  simp [sent]

theorem run_saved (hlisted : server ∈ allPieces)
    (hrows : ∀ row ∈ allPieces ++ offered.toList, row.id = server.id → row = server)
    (h : Run RowSelect.step (openedSelect allPieces offered server) t σ) :
    Saved (lastSaved server.status t) (chosen t) (sent t) σ := by
  induction h with
  | nil =>
    refine ⟨opened_tracked hlisted, rfl, fun _ => ⟨rfl, rfl, ?_, List.Sublist.refl _, rfl⟩, ?_⟩
    · intro row hrow hid
      rw [hrows row hrow hid]
      rfl
    · intro p hp
      cases hp
  | snoc _ hlast ih =>
    rw [chosen_snoc, sent_snoc, lastSaved, Run.lastOf_snoc]
    exact ih.step hlast

theorem run_bound (hlisted : server ∈ allPieces)
    (hrows : ∀ row ∈ allPieces ++ offered.toList, row.id = server.id → row = server)
    (h : Run RowSelect.step (openedSelect allPieces offered server) t σ)
    (hrendered : ∀ x ∈ t, x.before.rendered x.event = true) : Bound σ := by
  induction h with
  | nil => exact fun _ => rfl
  | snoc hprior hlast ih =>
    have hbefore := ih fun x hx => hrendered x (List.mem_append_left _ hx)
    exact hbefore.step (run_saved hlisted hrows hprior)
      (hrendered _ (List.mem_append_right _ (List.mem_singleton_self _))) hlast

end Runs

/-- Of a row's status saves one at most is under way, each is the latest choice when it is
sent, and once none is left the last choice has been sent and the row and the server have
the status of the last save that succeeded. A page rendered with that row shows it in the
select too, if no save was answered with the status last rendered while a failed one had
put the row back. -/
theorem statusSaves_agree {allPieces : List PieceSummary} {offered : Option PieceSummary}
    {server : PieceSummary} (hlisted : server ∈ allPieces)
    (hrows : ∀ row ∈ allPieces ++ offered.toList, row.id = server.id → row = server)
    {t : List (Entry RowSelect SelectEvent (List Text))} {σ : RowSelect}
    (h : Run RowSelect.step (openedSelect allPieces offered server) t σ) :
    σ.store.updates.length ≤ 1 ∧ (sent t).Sublist (chosen t) ∧
    (∀ u x v, t = u ++ x :: v → ∀ status ∈ x.response,
      (chosen (u ++ [x])).getLast? = some status) ∧
    (σ.store.updates = [] → (sent t).getLast? = (chosen t).getLast? ∧
      σ.store.server.status = lastSaved server.status t ∧
      σ.store.Shows (lastSaved server.status t)) ∧
    ((∀ x ∈ t, x.before.rendered x.event = true) → σ.store.updates = [] →
      σ.store.Shows σ.shown.status → σ.shown.status = lastSaved server.status t ∧
        σ.control = lastSaved server.status t) := by
  have hsaved := run_saved hlisted hrows h
  have hidle : σ.store.updates = [] → σ.store.statusSaves = none := by
    intro hdone
    cases hsaves : σ.store.statusSaves with
    | none => rfl
    | some p =>
      obtain ⟨q, status, hbusy⟩ := hsaved.busy p hsaves
      rw [hbusy.only] at hdone
      cases hdone
  refine ⟨?_, ?_, ?_, ?_, ?_⟩
  · cases hsaves : σ.store.statusSaves with
    | none =>
      rw [(hsaved.idle hsaves).1]
      exact Nat.zero_le _
    | some p =>
      obtain ⟨q, status, hbusy⟩ := hsaved.busy p hsaves
      rw [hbusy.only]
      exact Nat.le_refl _
  · cases hsaves : σ.store.statusSaves with
    | none => exact (hsaved.idle hsaves).2.2.2.1
    | some p =>
      obtain ⟨q, status, hbusy⟩ := hsaved.busy p hsaves
      obtain ⟨done, hqueued, hsub⟩ := hbusy.queued
      rw [hqueued]
      exact hsub.trans (List.sublist_append_left _ _)
  · intro u x v ht status hstatus
    subst ht
    obtain ⟨hprior, hstep, -⟩ := h.at_entry
    rw [chosen_snoc]
    exact (run_saved hlisted hrows hprior).sent_latest hstep status hstatus
  · intro hdone
    obtain ⟨-, hserver, hshows, -, hlast⟩ := hsaved.idle (hidle hdone)
    exact ⟨hlast, hserver, hshows⟩
  · intro hrendered hdone hshown
    obtain ⟨-, -, hshows, -, -⟩ := hsaved.idle (hidle hdone)
    have hstatus := status_unique hsaved.tracked.listed hshown hshows
    have hcontrol := run_bound hlisted hrows h hrendered hshown
    exact ⟨hstatus, hcontrol.trans hstatus⟩

section PutBack

def nocturneWith (status : Text) : PieceSummary := { nocturne with status := status }

def failedFirst : List SelectEvent :=
  [.choose "playing".toList, .render (nocturneWith "playing".toList), .choose "shelved".toList,
    .render (nocturneWith "shelved".toList), .choose "playing".toList,
    .render (nocturneWith "playing".toList), .fail ⟨.status "playing".toList, none⟩]

def savedLast : List SelectEvent :=
  [.apply ⟨.status "playing".toList, none⟩,
    .answer ⟨.status "playing".toList, some (nocturneWith "playing".toList)⟩,
    .render (nocturneWith "playing".toList)]

theorem statusSaves_agree_rendered : ∃ t σ,
    Run RowSelect.step (openedSelect [nocturne] none nocturne) t σ ∧ σ.store.updates = [] ∧
      sent t = ["playing".toList, "playing".toList] ∧ σ.control = lastSaved nocturne.status t := by
  obtain ⟨t, σ, hrun, hall⟩ : ∃ t σ,
      Run RowSelect.step (openedSelect [nocturne] none nocturne) t σ ∧
        (t.all (fun x => x.before.rendered x.event) && σ.store.updates.isEmpty &&
          decide (σ.store.Shows σ.shown.status) &&
          sent t == ["playing".toList, "playing".toList]) = true :=
    exists_run (failedFirst ++ .render nocturne :: savedLast) (by decide +kernel)
  simp only [Bool.and_eq_true, List.all_eq_true, List.isEmpty_iff, decide_eq_true_eq,
    beq_iff_eq] at hall
  obtain ⟨⟨⟨hrendered, hdone⟩, hshown⟩, hsent⟩ := hall
  obtain ⟨-, -, -, -, hagree⟩ := statusSaves_agree (List.mem_singleton_self nocturne)
    (by decide) hrun
  exact ⟨t, σ, hrun, hdone, hsent, (hagree hrendered hdone hshown).2⟩

/-- Without that the page finds the row as it last rendered it, and leaves the select with
the status that was put back. -/
theorem not_statusSaves_agree : ¬ ∀ t σ,
    Run RowSelect.step (openedSelect [nocturne] none nocturne) t σ → σ.store.updates = [] →
      σ.store.Shows σ.shown.status → σ.control = lastSaved nocturne.status t := by
  intro hall
  obtain ⟨t, σ, hrun, hwrong⟩ : ∃ t σ,
      Run RowSelect.step (openedSelect [nocturne] none nocturne) t σ ∧
        (σ.store.updates.isEmpty && decide (σ.store.Shows σ.shown.status) &&
          σ.control != lastSaved nocturne.status t) = true :=
    exists_run (failedFirst ++ savedLast) (by decide +kernel)
  simp only [Bool.and_eq_true, List.isEmpty_iff, decide_eq_true_eq, bne_iff_ne] at hwrong
  obtain ⟨⟨hdone, hshown⟩, hne⟩ := hwrong
  exact hne (hall t σ hrun hdone hshown)

end PutBack

end Noted.LibraryPage
