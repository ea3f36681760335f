import Noted.Library.Runs

/-!
# Saving a draft from the page (prepare.component.ts)

The page's copy of a draft, its flags, and the requests it has on the way to the
server. What runs up to the next `await` is one step; the continuations of those who
wait for `pendingSave` are steps of their own, in any order with the user's, the
timer's and the server's. A draft's content is everything that an edit can change.
-/

namespace Noted.Autosave

open Library

variable {α : Type*}

/-- Who calls `persist`: the timer or a handler that only shows an error; `close`,
which then navigates; or `canLeave`. -/
inductive Caller
  | background
  | close
  | leave
  deriving DecidableEq

structure Waiter where
  caller : Caller
  own : Bool
  deriving DecidableEq

/-- An `updateImport` on its way, with whether the server has carried it out. -/
structure Request (α : Type*) where
  content : α
  revision : Nat
  applied : Bool
  deriving DecidableEq

/-- `discard` waits for the save under way, and then for `deleteImport`. -/
inductive Discard
  | idle
  | waiting
  | deleting
  deriving DecidableEq

/-- The page, the requests and the server's draft; `acked` and `told` are the content
and the revision that the server last answered. -/
structure Editor (α : Type*) where
  content : α
  revision : Nat
  dirty : Bool
  timer : Bool
  pendingSave : Bool
  discard : Discard
  left : Bool
  waiting : List Waiter
  ready : List (Waiter × Bool)
  requests : List (Request α)
  stored : α
  storedRevision : Nat
  deleted : Bool
  acked : α
  told : Nat

inductive Event (α : Type*)
  | edit (content : α)
  | timer
  | persist
  | close
  | canLeave
  | discard
  | apply (q : Request α)
  | succeed (q : Request α)
  | fail (q : Request α)
  | resume (w : Waiter) (ok confirmed : Bool)
  | delete
  | deleteDone (applied ok : Bool)
  | otherSaves (content : α)
  | otherDeletes
  deriving DecidableEq

inductive Response
  | done
  | left (warned : Bool)
  deriving DecidableEq

namespace Editor

variable (σ : Editor α)

def hasUnsavedChanges : Bool := σ.discard == .idle && (σ.dirty || σ.pendingSave)

/-- Without a save to wait for or to start, `persist` returns in a later microtask. -/
def persist (c : Caller) : Editor α :=
  if σ.pendingSave then { σ with timer := false, waiting := ⟨c, false⟩ :: σ.waiting }
  else if σ.dirty then
    { σ with
      timer := false
      dirty := false
      pendingSave := true
      requests := ⟨σ.content, σ.revision, false⟩ :: σ.requests
      waiting := ⟨c, true⟩ :: σ.waiting }
  else { σ with timer := false, ready := (⟨c, true⟩, true) :: σ.ready }

def mark (content : α) : Editor α :=
  if σ.discard = .idle then { σ with content := content, dirty := true, timer := true }
  else { σ with content := content }

def leave (warned : Bool) : Response × Editor α :=
  (.left warned, { σ with left := true, timer := false })

def canLeave : Response × Editor α :=
  if σ.hasUnsavedChanges then (.done, σ.persist .leave) else σ.leave false

def settle [DecidableEq α] (q : Request α) (ok : Bool) : Editor α :=
  { σ with
    requests := σ.requests.erase q
    pendingSave := false
    ready := σ.waiting.map (·, ok) ++ σ.ready
    waiting := [] }

def returnTo (c : Caller) (ok confirmed : Bool) : Response × Editor α :=
  match c, ok with
  | .background, _ => (.done, σ)
  | .close, true => σ.canLeave
  | .close, false => (.done, σ)
  | .leave, true => σ.leave false
  | .leave, false => if confirmed then σ.leave true else (.done, σ)

/-- Who has started the save returns; another one looks for newer edits first. -/
def resume (w : Waiter) (ok confirmed : Bool) : Response × Editor α :=
  if ok = true ∧ w.own = false ∧ σ.dirty = true then (.done, σ.persist w.caller)
  else σ.returnTo w.caller ok confirmed

def step [DecidableEq α] (σ : Editor α) (e : Event α) : Option (Response × Editor α) :=
  match e with
  | .edit content => if σ.left = false then some (.done, σ.mark content) else none
  | .timer => if σ.timer = true then some (.done, σ.persist .background) else none
  | .persist => if σ.left = false then some (.done, σ.persist .background) else none
  | .close =>
    if σ.left = false ∧ σ.discard = .idle then some (.done, σ.persist .close) else none
  | .canLeave => if σ.left = false then some σ.canLeave else none
  | .discard =>
    if σ.left = false ∧ σ.discard = .idle then
      some (.done, { σ with discard := .waiting, timer := false, dirty := false })
    else none
  | .apply q =>
    if q ∈ σ.requests ∧ q.applied = false ∧ q.revision = σ.storedRevision ∧ σ.deleted = false then
      some (.done, { σ with
        requests := { q with applied := true } :: σ.requests.erase q
        stored := q.content
        storedRevision := σ.storedRevision + 1 })
    else none
  | .succeed q =>
    if q ∈ σ.requests ∧ q.applied = true ∧ σ.deleted = false then
      some (.done, { σ.settle q true with
        revision := σ.storedRevision, acked := q.content, told := σ.storedRevision })
    else none
  | .fail q =>
    if q ∈ σ.requests then
      some (.done, { σ.settle q false with dirty := σ.discard == .idle })
    else none
  | .resume w ok confirmed =>
    if (w, ok) ∈ σ.ready then
      some ({ σ with ready := σ.ready.erase (w, ok) }.resume w ok confirmed)
    else none
  | .delete =>
    if σ.discard = .waiting ∧ σ.pendingSave = false then
      some (.done, { σ with discard := .deleting, dirty := false })
    else none
  | .deleteDone applied ok =>
    if σ.discard = .deleting then
      some (.done, { σ with discard := .idle, deleted := σ.deleted || applied || ok })
    else none
  | .otherSaves content =>
    if σ.deleted = false then
      some (.done, { σ with stored := content, storedRevision := σ.storedRevision + 1 })
    else none
  | .otherDeletes => some (.done, { σ with deleted := true })

end Editor

def loaded (content : α) (revision : Nat) : Editor α where
  content := content
  revision := revision
  dirty := false
  timer := false
  pendingSave := false
  discard := .idle
  left := false
  waiting := []
  ready := []
  requests := []
  stored := content
  storedRevision := revision
  deleted := false
  acked := content
  told := revision

/-- Where the two paths that lose edits are not taken: a `deleteImport` that fails
finds the content that the server has acknowledged, and when `canLeave` has waited
for its save, nothing is unsaved then. -/
def Editor.careful [DecidableEq α] (σ : Editor α) : Event α → Bool
  | .deleteDone false false => σ.content == σ.acked
  | .resume ⟨.leave, own⟩ true _ => (!own && σ.dirty) || !σ.hasUnsavedChanges
  | _ => true

structure Sound (σ : Editor α) : Prop where
  flight : σ.pendingSave = true → ∃ q, σ.requests = [q]
  idle : σ.pendingSave = false → σ.requests = []
  told : σ.revision = σ.told
  carried : ∀ q ∈ σ.requests, q.revision = σ.told
  calm : σ.discard ≠ .idle → σ.dirty = false
  deleting : σ.discard = .deleting → σ.pendingSave = false
  sent : σ.discard = .idle → σ.dirty = false → ∀ q ∈ σ.requests, q.content = σ.content
  saved : σ.discard = .idle → σ.deleted = false → σ.dirty = false → σ.pendingSave = false →
    σ.content = σ.acked

section Steps

variable {σ σ' : Editor α} {e : Event α} {r : Response}

theorem loaded_sound (content : α) (revision : Nat) : Sound (loaded content revision) := by
  refine ⟨?_, fun _ => rfl, rfl, ?_, fun _ => rfl, fun _ => rfl, ?_, fun _ _ _ _ => rfl⟩
  · intro hpending
    cases hpending
  · intro q hq
    cases hq
  · intro _ _ q hq
    cases hq

theorem Sound.frame (hσ : Sound σ) (timer left : Bool) (waiting : List Waiter)
    (ready : List (Waiter × Bool)) (stored : α) (storedRevision : Nat) :
    Sound { σ with
      timer := timer, left := left, waiting := waiting, ready := ready, stored := stored
      storedRevision := storedRevision } :=
  ⟨hσ.flight, hσ.idle, hσ.told, hσ.carried, hσ.calm, hσ.deleting, hσ.sent, hσ.saved⟩

theorem Sound.persist (hσ : Sound σ) (c : Caller) : Sound (σ.persist c) := by
  unfold Editor.persist
  split_ifs with hpending hdirty
  · exact hσ.frame false σ.left (⟨c, false⟩ :: σ.waiting) σ.ready σ.stored σ.storedRevision
  · have hnone := hσ.idle ((Bool.not_eq_true _).mp hpending)
    have hidle : σ.discard = .idle := by
      by_contra hne
      have hclean := hσ.calm hne
      rw [hdirty] at hclean
      cases hclean
    refine ⟨?_, ?_, hσ.told, ?_, ?_, ?_, ?_, ?_⟩
    · intro _
      exact ⟨⟨σ.content, σ.revision, false⟩, by simp [hnone]⟩
    · intro hfalse
      cases hfalse
    · intro q hq
      simp only [hnone, List.mem_singleton] at hq
      rw [hq]
      exact hσ.told
    · intro hne
      exact absurd hidle hne
    · intro hdeleting
      rw [hidle] at hdeleting
      cases hdeleting
    · intro _ _ q hq
      simp only [hnone, List.mem_singleton] at hq
      rw [hq]
    · intro _ _ _ hfalse
      cases hfalse
  · exact hσ.frame false σ.left σ.waiting _ σ.stored σ.storedRevision

theorem Sound.leave (hσ : Sound σ) (warned : Bool) : Sound (σ.leave warned).2 :=
  hσ.frame false true σ.waiting σ.ready σ.stored σ.storedRevision

theorem Sound.canLeave (hσ : Sound σ) : Sound σ.canLeave.2 := by
  unfold Editor.canLeave
  split_ifs
  · exact hσ.persist .leave
  · exact hσ.leave false

theorem Sound.returnTo (hσ : Sound σ) (c : Caller) (ok confirmed : Bool) :
    Sound (σ.returnTo c ok confirmed).2 := by
  unfold Editor.returnTo
  split
  · exact hσ
  · exact hσ.canLeave
  · exact hσ
  · exact hσ.leave false
  · split_ifs
    · exact hσ.leave true
    · exact hσ

theorem Sound.resume (hσ : Sound σ) (w : Waiter) (ok confirmed : Bool) :
    Sound (σ.resume w ok confirmed).2 := by
  unfold Editor.resume
  split_ifs
  · exact hσ.persist w.caller
  · exact hσ.returnTo w.caller ok confirmed

theorem Sound.mark (hσ : Sound σ) (content : α) : Sound (σ.mark content) := by
  unfold Editor.mark
  split_ifs with hidle
  · refine ⟨hσ.flight, hσ.idle, hσ.told, hσ.carried, ?_, hσ.deleting, ?_, ?_⟩
    · intro hne
      exact absurd hidle hne
    · intro _ hclean
      cases hclean
    · intro _ _ hclean
      cases hclean
  · refine ⟨hσ.flight, hσ.idle, hσ.told, hσ.carried, hσ.calm, hσ.deleting, ?_, ?_⟩
    · intro hnow
      exact absurd hnow hidle
    · intro hnow
      exact absurd hnow hidle

theorem Sound.requests_eq (hσ : Sound σ) {q : Request α} (hq : q ∈ σ.requests) :
    σ.requests = [q] := by
  cases hpending : σ.pendingSave with
  | false =>
    rw [hσ.idle hpending] at hq
    cases hq
  | true =>
    obtain ⟨q', hone⟩ := hσ.flight hpending
    rw [hone, List.mem_singleton] at hq
    rw [hone, hq]

theorem Sound.content_eq (hσ : Sound σ) (hclean : σ.hasUnsavedChanges = false)
    (hidle : σ.discard = .idle) (hkept : σ.deleted = false) : σ.content = σ.acked := by
  simp only [Editor.hasUnsavedChanges, hidle, beq_self_eq_true, Bool.true_and,
    Bool.or_eq_false_iff] at hclean
  exact hσ.saved hidle hkept hclean.1 hclean.2

theorem canLeave_silent (h : σ.canLeave = (.left false, σ')) : σ.hasUnsavedChanges = false := by
  unfold Editor.canLeave at h
  split_ifs at h with hunsaved
  · cases h
  · exact (Bool.not_eq_true _).mp hunsaved

variable [DecidableEq α]

theorem Sound.step (hσ : Sound σ) (hcareful : σ.careful e = true) (h : σ.step e = some (r, σ')) :
    Sound σ' := by
  cases e with
  | edit content =>
    simp only [Editor.step, Option.ite_none_right_eq_some, Option.some.injEq, Prod.mk.injEq] at h
    obtain ⟨-, -, rfl⟩ := h
    exact hσ.mark content
  | timer =>
    simp only [Editor.step, Option.ite_none_right_eq_some, Option.some.injEq, Prod.mk.injEq] at h
    obtain ⟨-, -, rfl⟩ := h
    exact hσ.persist .background
  | persist =>
    simp only [Editor.step, Option.ite_none_right_eq_some, Option.some.injEq, Prod.mk.injEq] at h
    obtain ⟨-, -, rfl⟩ := h
    exact hσ.persist .background
  | close =>
    simp only [Editor.step, Option.ite_none_right_eq_some, Option.some.injEq, Prod.mk.injEq] at h
    obtain ⟨-, -, rfl⟩ := h
    exact hσ.persist .close
  | canLeave =>
    simp only [Editor.step, Option.ite_none_right_eq_some, Option.some.injEq] at h
    obtain ⟨-, h⟩ := h
    have hleave := hσ.canLeave
    rwa [h] at hleave
  | discard =>
    simp only [Editor.step, Option.ite_none_right_eq_some, Option.some.injEq, Prod.mk.injEq] at h
    obtain ⟨-, -, rfl⟩ := h
    refine ⟨hσ.flight, hσ.idle, hσ.told, hσ.carried, fun _ => rfl, ?_, ?_, ?_⟩
    · intro hdeleting
      cases hdeleting
    · intro hidle
      cases hidle
    · intro hidle
      cases hidle
  | apply q =>
    simp only [Editor.step, Option.ite_none_right_eq_some, Option.some.injEq, Prod.mk.injEq] at h
    obtain ⟨⟨hq, -⟩, -, rfl⟩ := h
    have hone := hσ.requests_eq hq
    have hnext : σ.requests.erase q = [] := by simp [hone]
    refine ⟨?_, ?_, hσ.told, ?_, hσ.calm, hσ.deleting, ?_, hσ.saved⟩
    · intro _
      exact ⟨{ q with applied := true }, by simp [hnext]⟩
    · intro hidle
      rw [hσ.idle hidle] at hq
      cases hq
    · intro q' hq'
      simp only [hnext, List.mem_singleton] at hq'
      rw [hq']
      exact hσ.carried q hq
    · intro hidle hclean q' hq'
      simp only [hnext, List.mem_singleton] at hq'
      rw [hq']
      exact hσ.sent hidle hclean q hq
  | succeed q =>
    simp only [Editor.step, Option.ite_none_right_eq_some, Option.some.injEq, Prod.mk.injEq] at h
    obtain ⟨⟨hq, -⟩, -, rfl⟩ := h
    have hnext : σ.requests.erase q = [] := by simp [hσ.requests_eq hq]
    refine ⟨?_, fun _ => hnext, rfl, ?_, hσ.calm, fun _ => rfl, ?_, ?_⟩
    · intro hpending
      cases hpending
    · intro q' hq'
      simp only [Editor.settle, hnext] at hq'
      cases hq'
    · intro _ _ q' hq'
      simp only [Editor.settle, hnext] at hq'
      cases hq'
    · intro hidle _ hclean _
      exact (hσ.sent hidle hclean q hq).symm
  | fail q =>
    simp only [Editor.step, Option.ite_none_right_eq_some, Option.some.injEq, Prod.mk.injEq] at h
    obtain ⟨hq, -, rfl⟩ := h
    have hnext : σ.requests.erase q = [] := by simp [hσ.requests_eq hq]
    refine ⟨?_, fun _ => hnext, hσ.told, ?_, ?_, fun _ => rfl, ?_, ?_⟩
    · intro hpending
      cases hpending
    · intro q' hq'
      simp only [Editor.settle, hnext] at hq'
      cases hq'
    · intro hne
      simpa [Editor.settle] using hne
    · intro _ _ q' hq'
      simp only [Editor.settle, hnext] at hq'
      cases hq'
    · intro hidle _ hclean
      simp only [Editor.settle] at hidle hclean
      rw [hidle] at hclean
      cases hclean
  | resume w ok confirmed =>
    simp only [Editor.step, Option.ite_none_right_eq_some, Option.some.injEq] at h
    obtain ⟨-, h⟩ := h
    have hresumed := (hσ.frame σ.timer σ.left σ.waiting (σ.ready.erase (w, ok)) σ.stored
      σ.storedRevision).resume w ok confirmed
    rwa [h] at hresumed
  | delete =>
    simp only [Editor.step, Option.ite_none_right_eq_some, Option.some.injEq, Prod.mk.injEq] at h
    obtain ⟨⟨-, hsettled⟩, -, rfl⟩ := h
    refine ⟨hσ.flight, hσ.idle, hσ.told, hσ.carried, fun _ => rfl, fun _ => hsettled, ?_, ?_⟩
    · intro hidle
      cases hidle
    · intro hidle
      cases hidle
  | deleteDone applied ok =>
    simp only [Editor.step, Option.ite_none_right_eq_some, Option.some.injEq, Prod.mk.injEq] at h
    obtain ⟨hdeleting, -, rfl⟩ := h
    have hnone := hσ.idle (hσ.deleting hdeleting)
    refine ⟨hσ.flight, hσ.idle, hσ.told, hσ.carried, ?_, ?_, ?_, ?_⟩
    · intro hne
      exact absurd rfl hne
    · intro hidle
      cases hidle
    · intro _ _ q hq
      rw [hnone] at hq
      cases hq
    · intro _ hkept _ _
      simp only [Bool.or_eq_false_iff] at hkept
      obtain ⟨⟨-, rfl⟩, rfl⟩ := hkept
      exact beq_iff_eq.mp hcareful
  | otherSaves content =>
    simp only [Editor.step, Option.ite_none_right_eq_some, Option.some.injEq, Prod.mk.injEq] at h
    obtain ⟨-, -, rfl⟩ := h
    exact hσ.frame σ.timer σ.left σ.waiting σ.ready content (σ.storedRevision + 1)
  | otherDeletes =>
    simp only [Editor.step, Option.some.injEq, Prod.mk.injEq] at h
    obtain ⟨-, rfl⟩ := h
    refine ⟨hσ.flight, hσ.idle, hσ.told, hσ.carried, hσ.calm, hσ.deleting, hσ.sent, ?_⟩
    intro _ hkept
    cases hkept

theorem left_silent (hcareful : σ.careful e = true) (h : σ.step e = some (.left false, σ')) :
    σ.hasUnsavedChanges = false := by
  cases e with
  | canLeave =>
    simp only [Editor.step, Option.ite_none_right_eq_some, Option.some.injEq] at h
    exact canLeave_silent h.2
  | resume w ok confirmed =>
    simp only [Editor.step, Option.ite_none_right_eq_some, Option.some.injEq] at h
    obtain ⟨-, h⟩ := h
    obtain ⟨caller, own⟩ := w
    unfold Editor.resume at h
    split_ifs at h with hagain
    · cases h
    cases caller with
    | background => cases h
    | close =>
      cases ok with
      | false => cases h
      | true =>
        have hclean := canLeave_silent h
        exact hclean
    | leave =>
      cases ok with
      | false => cases confirmed <;> cases h
      | true =>
        -- the save of `canLeave` has ended
        have hnot : (!own && σ.dirty) = false := by
          rw [Bool.eq_false_iff]
          intro hdirty
          rw [Bool.and_eq_true, Bool.not_eq_true'] at hdirty
          exact hagain ⟨rfl, hdirty⟩
        change ((!own && σ.dirty) || !σ.hasUnsavedChanges) = true at hcareful
        simpa [hnot] using hcareful
  | _ =>
    simp only [Editor.step, Option.ite_none_right_eq_some, Option.some.injEq, Prod.mk.injEq] at h
    simp at h

end Steps

section Runs

variable [DecidableEq α] {content : α} {revision : Nat} {σ : Editor α}
  {t : List (Entry (Editor α) (Event α) Response)}

/-- In a run of such steps at most one `updateImport` is under way, and it names the
revision that the page was told last; content that the server has not acknowledged
counts as unsaved; and a page left without a warning has none. -/
theorem autosave_keeps (h : Run Editor.step (loaded content revision) t σ)
    (hcareful : ∀ x ∈ t, x.before.careful x.event = true) :
    σ.requests.length ≤ 1 ∧ (∀ q ∈ σ.requests, q.revision = σ.told) ∧
      (σ.content ≠ σ.acked → σ.deleted = false → σ.discard = .idle →
        σ.hasUnsavedChanges = true) ∧
      ∀ x ∈ t, x.response = .left false → x.before.discard = .idle → x.before.deleted = false →
        x.before.content = x.before.acked := by
  have hsound := loaded_sound content revision
  have hσ : Sound σ := h.invariant_of Sound.step hsound hcareful
  refine ⟨?_, hσ.carried, ?_, ?_⟩
  · cases hpending : σ.pendingSave with
    | false => simp [hσ.idle hpending]
    | true =>
      obtain ⟨q, hone⟩ := hσ.flight hpending
      simp [hone]
  · intro hne hkept hidle
    by_contra hclean
    exact hne (hσ.content_eq ((Bool.not_eq_true _).mp hclean) hidle hkept)
  · intro x hx hleft hidle hkept
    obtain ⟨hbefore, hsteps, hstep⟩ := h.at_mem_of Sound.step hsound hcareful hx
    rw [hleft] at hstep
    exact hbefore.content_eq (left_silent hsteps hstep) hidle hkept

end Runs

section Lost

def savedEvents : List (Event Nat) :=
  [.edit 1, .canLeave, .apply ⟨1, 0, false⟩, .succeed ⟨1, 0, true⟩, .resume ⟨.leave, true⟩ true false]

theorem autosave_keeps_saved : ∃ t σ, Run Editor.step (loaded 0 0) t σ ∧ σ.acked = 1 ∧
    σ.requests.length ≤ 1 ∧ ∃ x ∈ t, x.response = .left false ∧
      x.before.content = x.before.acked := by
  obtain ⟨t, σ, hrun, h⟩ : ∃ t σ, Run Editor.step (loaded 0 0) t σ ∧
      (t.all (fun x => x.before.careful x.event) && σ.acked == 1 &&
        t.any fun x => x.response == .left false && x.before.discard == .idle &&
          !x.before.deleted) = true := exists_run savedEvents (by decide +kernel)
  simp only [Bool.and_eq_true, List.all_eq_true, List.any_eq_true, beq_iff_eq,
    Bool.not_eq_true'] at h
  obtain ⟨⟨hcareful, hacked⟩, x, hx, ⟨hleft, hidle⟩, hkept⟩ := h
  have hkeeps := autosave_keeps hrun hcareful
  exact ⟨t, σ, hrun, hacked, hkeeps.1, x, hx, hleft, hkeeps.2.2.2 x hx hleft hidle hkept⟩

/-- An edit is given up by a discard whose `deleteImport` fails; and an edit made
while `canLeave` waits for its save is left behind. -/
theorem not_autosave_keeps :
    (∃ t σ, Run Editor.step (loaded 0 0) t σ ∧ σ.content ≠ σ.acked ∧ σ.deleted = false ∧
      σ.discard = .idle ∧ σ.hasUnsavedChanges = false) ∧
    ∃ t σ, Run Editor.step (loaded 0 0) t σ ∧ ∃ x ∈ t, x.response = .left false ∧
      x.before.discard = .idle ∧ x.before.deleted = false ∧ x.before.content ≠ x.before.acked := by
  constructor
  · obtain ⟨t, σ, hrun, h⟩ : ∃ t σ, Run Editor.step (loaded 0 0) t σ ∧
        (σ.content != σ.acked && !σ.deleted && σ.discard == .idle && !σ.hasUnsavedChanges) =
          true := exists_run [.edit 1, .discard, .delete, .deleteDone false false] (by decide +kernel)
    simp only [Bool.and_eq_true, bne_iff_ne, Bool.not_eq_true', beq_iff_eq] at h
    obtain ⟨⟨⟨hne, hkept⟩, hidle⟩, hclean⟩ := h
    exact ⟨t, σ, hrun, hne, hkept, hidle, hclean⟩
  · obtain ⟨t, σ, hrun, h⟩ : ∃ t σ, Run Editor.step (loaded 0 0) t σ ∧
        (t.any fun x => x.response == .left false && x.before.discard == .idle &&
          !x.before.deleted && x.before.content != x.before.acked) = true :=
      exists_run [.edit 1, .canLeave, .edit 2, .apply ⟨1, 0, false⟩, .succeed ⟨1, 0, true⟩,
        .resume ⟨.leave, true⟩ true false] (by decide +kernel)
    simp only [List.any_eq_true, Bool.and_eq_true, bne_iff_ne, Bool.not_eq_true',
      beq_iff_eq] at h
    obtain ⟨x, hx, ⟨⟨hleft, hidle⟩, hkept⟩, hne⟩ := h
    exact ⟨t, σ, hrun, x, hx, hleft, hidle, hkept, hne⟩

end Lost

end Noted.Autosave
