import Mathlib.Data.List.Perm.Subperm
import Noted.Library.Runs

/-!
# The screen wake lock of the reader (screen-wake-lock.ts)

`ScreenWakeLock` asks the browser for a lock and cannot take a request back, so that
grants come late: after the reader was left, or while the page is hidden. A generation
says which request is the latest, and every grant that is not wanted any more is
released. A sentinel is named by the generation of the request it was granted to.
-/

namespace Noted.Reader

open Library

/-- The fields of the class, and the page's visibility. What the browser knows stands
below: the requests it has not answered, the sentinels it has granted, those of them that
`release` was called on, and those it has reported released. -/
structure ScreenWakeLock where
  provider : Bool
  active : Bool
  visible : Bool
  generation : Nat
  pendingGeneration : Option Nat
  sentinel : Option Nat
  requests : List Nat
  granted : List Nat
  released : List Nat
  reported : List Nat
  deriving DecidableEq

/-- What can happen. A request may throw, and so may `addEventListener` on a sentinel;
the flags say that they do not. -/
inductive WakeLockEvent
  | start (requests : Bool)
  | stop
  | visibilityChange (visible requests : Bool)
  | readerActivity (requests : Bool)
  | grant (generation : Nat) (listens : Bool)
  | refuse (generation : Nat)
  | release (generation : Nat)
  deriving DecidableEq

namespace ScreenWakeLock

variable (σ : ScreenWakeLock)

def new (provider visible : Bool) : ScreenWakeLock :=
  ⟨provider, false, visible, 0, none, none, [], [], [], []⟩

def acquire (requests : Bool) : ScreenWakeLock :=
  if !σ.active || !σ.visible || !σ.provider || σ.sentinel.isSome || σ.pendingGeneration.isSome then
    σ
  else if requests then
    { σ with
      generation := σ.generation + 1
      pendingGeneration := some (σ.generation + 1)
      requests := (σ.generation + 1) :: σ.requests }
  else { σ with generation := σ.generation + 1, pendingGeneration := none }

def releaseSilently (generation : Nat) : ScreenWakeLock :=
  { σ with released := generation :: σ.released }

def settlePending (generation : Nat) : ScreenWakeLock :=
  if σ.pendingGeneration = some generation then { σ with pendingGeneration := none } else σ

def acceptSentinel (generation : Nat) (listens : Bool) : ScreenWakeLock :=
  let σ := σ.settlePending generation
  if generation ≠ σ.generation || !σ.active || !σ.visible || σ.sentinel.isSome then
    σ.releaseSilently generation
  else if listens then { σ with sentinel := some generation }
  else σ.releaseSilently generation

def receive (generation : Nat) : ScreenWakeLock :=
  { σ with
    requests := σ.requests.erase generation
    granted := generation :: σ.granted }

def invalidatePendingRequest : ScreenWakeLock :=
  { σ with generation := σ.generation + 1, pendingGeneration := none }

def releaseHeldLock : ScreenWakeLock :=
  match σ.sentinel with
  | none => σ
  | some generation => { σ with sentinel := none }.releaseSilently generation

def start (requests : Bool) : ScreenWakeLock :=
  if σ.active then σ else { σ with active := true }.acquire requests

def stop : ScreenWakeLock :=
  if σ.active then { σ with active := false }.invalidatePendingRequest.releaseHeldLock else σ

/-- The handlers are there only while the lock is active. -/
def visibilityChange (visible requests : Bool) : ScreenWakeLock :=
  let σ := { σ with visible := visible }
  if !σ.active then σ
  else if visible then σ.acquire requests
  else σ.invalidatePendingRequest.releaseHeldLock

def readerActivity (requests : Bool) : ScreenWakeLock :=
  if σ.active then σ.acquire requests else σ

/-- The listener ignores a sentinel that is not held. -/
def onRelease (generation : Nat) : ScreenWakeLock :=
  if σ.sentinel = some generation then { σ with sentinel := none } else σ

def step (σ : ScreenWakeLock) (e : WakeLockEvent) : Option (Unit × ScreenWakeLock) :=
  match e with
  | .start requests => some ((), σ.start requests)
  | .stop => some ((), σ.stop)
  | .visibilityChange visible requests => some ((), σ.visibilityChange visible requests)
  | .readerActivity requests => some ((), σ.readerActivity requests)
  | .grant generation listens =>
    if generation ∈ σ.requests then
      some ((), (σ.receive generation).acceptSentinel generation listens)
    else none
  | .refuse generation =>
    if generation ∈ σ.requests then
      some ((), { σ with requests := σ.requests.erase generation }.settlePending generation)
    else none
  | .release generation =>
    if generation ∈ σ.granted then
      some ((), { σ with reported := generation :: σ.reported }.onRelease generation)
    else none

def keeps (generation : Nat) : Bool :=
  (σ.acceptSentinel generation true).sentinel == some generation

/-- A sentinel is held only by an active lock on a visible page, and every other has been
released. The requests, answered or not, are of generations up to the latest, each of
another. -/
structure Sound : Prop where
  held : ∀ n, σ.sentinel = some n → n ∈ σ.granted ∧ σ.active = true ∧ σ.visible = true
  accounted : ∀ n ∈ σ.granted, σ.sentinel = some n ∨ n ∈ σ.released ∨ n ∈ σ.reported
  current : ∀ n ∈ σ.requests ++ σ.granted, n ≤ σ.generation
  distinct : (σ.requests ++ σ.granted).Nodup

end ScreenWakeLock

def WakeLockEvent.started? : WakeLockEvent → Option Bool
  | .start _ => some true
  | .stop => some false
  | _ => none

def WakeLockEvent.visible? : WakeLockEvent → Option Bool
  | .visibilityChange visible _ => some visible
  | _ => none

namespace ScreenWakeLock

section Facts

variable {σ σ' : ScreenWakeLock} {e : WakeLockEvent} {r : Unit} {n : Nat}
  {requests visible listens : Bool}

theorem Sound.of_eq (h : σ.Sound) (hsentinel : σ'.sentinel = σ.sentinel)
    (hactive : σ'.active = σ.active) (hvisible : σ'.visible = σ.visible)
    (hgranted : σ'.granted = σ.granted) (hreleased : σ'.released = σ.released)
    (hreported : σ'.reported = σ.reported)
    (hcurrent : ∀ n ∈ σ'.requests ++ σ.granted, n ≤ σ'.generation)
    (hdistinct : (σ'.requests ++ σ.granted).Nodup) : σ'.Sound := by
  refine ⟨?_, ?_, ?_, ?_⟩
  · rw [hsentinel, hactive, hvisible, hgranted]
    exact h.held
  · rw [hsentinel, hgranted, hreleased, hreported]
    exact h.accounted
  · rw [hgranted]
    exact hcurrent
  · rw [hgranted]
    exact hdistinct

theorem Sound.new (provider visible : Bool) : (ScreenWakeLock.new provider visible).Sound := by
  refine ⟨?_, ?_, ?_, List.nodup_nil⟩
  · intro n hn
    cases hn
  · intro n hn
    cases hn
  · intro n hn
    cases hn

theorem Sound.acquire (h : σ.Sound) : (σ.acquire requests).Sound := by
  unfold ScreenWakeLock.acquire
  split_ifs
  · exact h
  · -- The new request is of a generation that no other has.
    refine h.of_eq rfl rfl rfl rfl rfl rfl ?_ ?_
    · intro n hn
      obtain rfl | hn := List.mem_cons.mp hn
      · exact Nat.le_refl _
      · exact Nat.le_succ_of_le (h.current n hn)
    · refine List.nodup_cons.mpr ⟨fun hmem => ?_, h.distinct⟩
      have hle := h.current _ hmem
      omega
  · exact h.of_eq rfl rfl rfl rfl rfl rfl (fun n hn => Nat.le_succ_of_le (h.current n hn))
      h.distinct

theorem Sound.settlePending (h : σ.Sound) : (σ.settlePending n).Sound := by
  unfold ScreenWakeLock.settlePending
  split_ifs
  · exact h.of_eq rfl rfl rfl rfl rfl rfl h.current h.distinct
  · exact h

theorem Sound.releaseHeldLock
    (haccounted : ∀ n ∈ σ.granted, σ.sentinel = some n ∨ n ∈ σ.released ∨ n ∈ σ.reported)
    (hcurrent : ∀ n ∈ σ.requests ++ σ.granted, n ≤ σ.generation)
    (hdistinct : (σ.requests ++ σ.granted).Nodup) : σ.releaseHeldLock.Sound := by
  unfold ScreenWakeLock.releaseHeldLock
  cases hsentinel : σ.sentinel with
  | none =>
    rw [hsentinel] at haccounted
    refine ⟨?_, ?_, hcurrent, hdistinct⟩
    · intro n hn
      rw [hsentinel] at hn
      cases hn
    · rw [hsentinel]
      exact haccounted
  | some held =>
    refine ⟨?_, ?_, hcurrent, hdistinct⟩
    · intro n hn
      cases hn
    · intro n hn
      obtain hheld | hreleased | hreported := haccounted n hn
      · obtain rfl := Option.some.inj (hsentinel.symm.trans hheld)
        exact Or.inr (Or.inl (List.mem_cons_self ..))
      · exact Or.inr (Or.inl (List.mem_cons_of_mem _ hreleased))
      · exact Or.inr (Or.inr hreported)

theorem Sound.start (h : σ.Sound) : (σ.start requests).Sound := by
  unfold ScreenWakeLock.start
  split_ifs
  · exact h
  · refine Sound.acquire ⟨fun n hn => ?_, h.accounted, h.current, h.distinct⟩
    obtain ⟨hgranted, -, hvisible⟩ := h.held n hn
    exact ⟨hgranted, rfl, hvisible⟩

theorem Sound.stop (h : σ.Sound) : σ.stop.Sound := by
  unfold ScreenWakeLock.stop
  split_ifs
  · exact Sound.releaseHeldLock h.accounted (fun n hn => Nat.le_succ_of_le (h.current n hn))
      h.distinct
  · exact h

theorem Sound.visibilityChange (h : σ.Sound) : (σ.visibilityChange visible requests).Sound := by
  unfold ScreenWakeLock.visibilityChange
  dsimp only
  split_ifs with hactive hvisible
  · -- An inactive lock holds nothing.
    refine ⟨fun n hn => ?_, h.accounted, h.current, h.distinct⟩
    obtain ⟨-, hheld, -⟩ := h.held n hn
    rw [hheld] at hactive
    cases hactive
  · refine Sound.acquire ⟨fun n hn => ?_, h.accounted, h.current, h.distinct⟩
    obtain ⟨hgranted, hheld, -⟩ := h.held n hn
    exact ⟨hgranted, hheld, hvisible⟩
  · exact Sound.releaseHeldLock h.accounted (fun n hn => Nat.le_succ_of_le (h.current n hn))
      h.distinct

theorem Sound.readerActivity (h : σ.Sound) : (σ.readerActivity requests).Sound := by
  unfold ScreenWakeLock.readerActivity
  split_ifs
  · exact h.acquire
  · exact h

theorem settlePending_eq (σ : ScreenWakeLock) (n : Nat) :
    ∃ pending, σ.settlePending n = { σ with pendingGeneration := pending } := by
  unfold ScreenWakeLock.settlePending
  split_ifs
  · exact ⟨none, rfl⟩
  · exact ⟨σ.pendingGeneration, rfl⟩

/-- A sentinel just granted is released, or held by an active lock on a visible page that
held none and asked for it last. -/
theorem acceptSentinel_cases (σ : ScreenWakeLock) (n : Nat) (listens : Bool) :
    (∃ pending, σ.acceptSentinel n listens =
      { σ with pendingGeneration := pending }.releaseSilently n) ∨
    (∃ pending, σ.acceptSentinel n listens =
      { σ with pendingGeneration := pending, sentinel := some n } ∧
      n = σ.generation ∧ σ.active = true ∧ σ.visible = true ∧ σ.sentinel = none) := by
  obtain ⟨pending, hpending⟩ := settlePending_eq σ n
  unfold ScreenWakeLock.acceptSentinel
  rw [hpending]
  dsimp only
  split_ifs with hrefused
  · exact Or.inl ⟨pending, rfl⟩
  · right
    simp only [Bool.or_eq_true, decide_eq_true_eq, Bool.not_eq_true', not_or, not_not,
      Bool.not_eq_true, Bool.not_eq_false, Option.isSome_eq_false_iff,
      Option.isNone_iff_eq_none] at hrefused
    obtain ⟨⟨⟨hlatest, hactive⟩, hvisible⟩, hnone⟩ := hrefused
    exact ⟨pending, rfl, hlatest, hactive, hvisible, hnone⟩
  · exact Or.inl ⟨pending, rfl⟩

theorem Sound.acceptSentinel (h : σ.Sound) (hn : n ∈ σ.requests) :
    ((σ.receive n).acceptSentinel n listens).Sound := by
  -- The request is the same one, now answered.
  have hperm : (σ.requests.erase n ++ n :: σ.granted).Perm (σ.requests ++ σ.granted) :=
    List.perm_middle.trans ((List.perm_cons_erase hn).symm.append_right σ.granted)
  have hcurrent : ∀ m ∈ σ.requests.erase n ++ n :: σ.granted, m ≤ σ.generation :=
    fun m hm => h.current m (hperm.mem_iff.mp hm)
  have hdistinct : (σ.requests.erase n ++ n :: σ.granted).Nodup := hperm.nodup_iff.mpr h.distinct
  obtain ⟨pending, heq⟩ | ⟨pending, heq, -, hactive, hvisible, hnone⟩ :=
    acceptSentinel_cases (σ.receive n) n listens
  · rw [heq]
    refine ⟨fun m hm => ?_, fun m hm => ?_, hcurrent, hdistinct⟩
    · exact (h.held m hm).imp (List.mem_cons_of_mem _) id
    · obtain rfl | hm := List.mem_cons.mp hm
      · exact Or.inr (Or.inl (List.mem_cons_self ..))
      · exact (h.accounted m hm).imp id (Or.imp (List.mem_cons_of_mem _) id)
  · rw [heq]
    refine ⟨fun m hm => ?_, fun m hm => ?_, hcurrent, hdistinct⟩
    · obtain rfl := Option.some.inj hm
      exact ⟨List.mem_cons_self .., hactive, hvisible⟩
    · obtain rfl | hm := List.mem_cons.mp hm
      · exact Or.inl rfl
      · obtain hheld | hrest := h.accounted m hm
        · exact absurd (hnone.symm.trans hheld) (by simp)
        · exact Or.inr hrest

theorem Sound.onRelease (h : σ.Sound) :
    ({ σ with reported := n :: σ.reported }.onRelease n).Sound := by
  unfold ScreenWakeLock.onRelease
  split_ifs with hheld
  · refine ⟨fun m hm => ?_, ?_, h.current, h.distinct⟩
    · cases hm
    · intro m hm
      obtain hm | hreleased | hreported := h.accounted m hm
      · obtain rfl := Option.some.inj (hm.symm.trans hheld)
        exact Or.inr (Or.inr (List.mem_cons_self ..))
      · exact Or.inr (Or.inl hreleased)
      · exact Or.inr (Or.inr (List.mem_cons_of_mem _ hreported))
  · refine ⟨h.held, fun m hm => ?_, h.current, h.distinct⟩
    exact (h.accounted m hm).imp id (Or.imp id (List.mem_cons_of_mem _))

theorem Sound.step (h : σ.Sound) (hstep : σ.step e = some (r, σ')) : σ'.Sound := by
  cases e with
  | start requests =>
    cases hstep
    exact h.start
  | stop =>
    cases hstep
    exact h.stop
  | visibilityChange visible requests =>
    cases hstep
    exact h.visibilityChange
  | readerActivity requests =>
    cases hstep
    exact h.readerActivity
  | grant n listens =>
    obtain ⟨hn, heq⟩ := Option.ite_none_right_eq_some.mp hstep
    cases heq
    exact h.acceptSentinel hn
  | refuse n =>
    obtain ⟨-, heq⟩ := Option.ite_none_right_eq_some.mp hstep
    cases heq
    have hsub : (σ.requests.erase n ++ σ.granted).Sublist (σ.requests ++ σ.granted) :=
      List.erase_sublist.append_right σ.granted
    exact Sound.settlePending (h.of_eq rfl rfl rfl rfl rfl rfl
      (fun m hm => h.current m (hsub.subset hm)) (h.distinct.sublist hsub))
  | release n =>
    obtain ⟨-, heq⟩ := Option.ite_none_right_eq_some.mp hstep
    cases heq
    exact h.onRelease

theorem Sound.eq_generation (h : σ.Sound) (hn : n ∈ σ.requests) (hkeeps : σ.keeps n = true) :
    n = σ.generation := by
  have hheld : (σ.acceptSentinel n true).sentinel = some n := by simpa [keeps] using hkeeps
  obtain ⟨pending, heq⟩ | ⟨pending, -, hlatest, -⟩ := acceptSentinel_cases σ n true
  · rw [heq] at hheld
    have hgranted := (h.held n hheld).1
    exact absurd rfl ((List.nodup_append.mp h.distinct).2.2 n hn n hgranted)
  · exact hlatest

theorem Sound.keeps_le_one (h : σ.Sound) : (σ.requests.filter σ.keeps).length ≤ 1 := by
  have hnodup : (σ.requests.filter σ.keeps).Nodup := (List.nodup_append.mp h.distinct).1.filter _
  have hsub : σ.requests.filter σ.keeps ⊆ [σ.generation] := by
    intro n hn
    obtain ⟨hmem, hkeeps⟩ := List.mem_filter.mp hn
    exact List.mem_singleton.mpr (h.eq_generation hmem hkeeps)
  exact (List.subperm_of_subset hnodup hsub).length_le

theorem acquire_active : (σ.acquire requests).active = σ.active := by
  unfold acquire
  split_ifs <;> rfl

theorem acquire_visible : (σ.acquire requests).visible = σ.visible := by
  unfold acquire
  split_ifs <;> rfl

theorem releaseHeldLock_active : σ.releaseHeldLock.active = σ.active := by
  unfold releaseHeldLock
  cases σ.sentinel <;> rfl

theorem releaseHeldLock_visible : σ.releaseHeldLock.visible = σ.visible := by
  unfold releaseHeldLock
  cases σ.sentinel <;> rfl

theorem settlePending_active : (σ.settlePending n).active = σ.active := by
  obtain ⟨pending, heq⟩ := settlePending_eq σ n
  rw [heq]

theorem settlePending_visible : (σ.settlePending n).visible = σ.visible := by
  obtain ⟨pending, heq⟩ := settlePending_eq σ n
  rw [heq]

theorem acceptSentinel_active : (σ.acceptSentinel n listens).active = σ.active := by
  obtain ⟨pending, heq⟩ | ⟨pending, heq, -⟩ := acceptSentinel_cases σ n listens
  · rw [heq, releaseSilently]
  · rw [heq]

theorem acceptSentinel_visible : (σ.acceptSentinel n listens).visible = σ.visible := by
  obtain ⟨pending, heq⟩ | ⟨pending, heq, -⟩ := acceptSentinel_cases σ n listens
  · rw [heq, releaseSilently]
  · rw [heq]

theorem onRelease_active : (σ.onRelease n).active = σ.active := by
  unfold onRelease
  split_ifs <;> rfl

theorem onRelease_visible : (σ.onRelease n).visible = σ.visible := by
  unfold onRelease
  split_ifs <;> rfl

theorem step_active (hstep : σ.step e = some (r, σ')) :
    σ'.active = e.started?.getD σ.active := by
  cases e with
  | start requests =>
    cases hstep
    unfold start
    split_ifs with hactive
    · exact hactive
    · exact acquire_active
  | stop =>
    cases hstep
    unfold stop
    split_ifs with hactive
    · exact releaseHeldLock_active
    · exact Bool.eq_false_iff.mpr hactive
  | visibilityChange visible requests =>
    cases hstep
    unfold visibilityChange
    dsimp only
    split_ifs
    · rfl
    · exact acquire_active
    · exact releaseHeldLock_active
  | readerActivity requests =>
    cases hstep
    unfold readerActivity
    split_ifs
    · exact acquire_active
    · rfl
  | grant n listens =>
    obtain ⟨-, heq⟩ := Option.ite_none_right_eq_some.mp hstep
    cases heq
    exact acceptSentinel_active
  | refuse n =>
    obtain ⟨-, heq⟩ := Option.ite_none_right_eq_some.mp hstep
    cases heq
    exact settlePending_active
  | release n =>
    obtain ⟨-, heq⟩ := Option.ite_none_right_eq_some.mp hstep
    cases heq
    exact onRelease_active

theorem step_visible (hstep : σ.step e = some (r, σ')) :
    σ'.visible = e.visible?.getD σ.visible := by
  cases e with
  | start requests =>
    cases hstep
    unfold start
    split_ifs
    · rfl
    · exact acquire_visible
  | stop =>
    cases hstep
    unfold stop
    split_ifs
    · exact releaseHeldLock_visible
    · rfl
  | visibilityChange visible requests =>
    cases hstep
    unfold visibilityChange
    dsimp only
    split_ifs
    · rfl
    · exact acquire_visible
    · exact releaseHeldLock_visible
  | readerActivity requests =>
    cases hstep
    unfold readerActivity
    split_ifs
    · exact acquire_visible
    · rfl
  | grant n listens =>
    obtain ⟨-, heq⟩ := Option.ite_none_right_eq_some.mp hstep
    cases heq
    exact acceptSentinel_visible
  | refuse n =>
    obtain ⟨-, heq⟩ := Option.ite_none_right_eq_some.mp hstep
    cases heq
    exact settlePending_visible
  | release n =>
    obtain ⟨-, heq⟩ := Option.ite_none_right_eq_some.mp hstep
    cases heq
    exact onRelease_visible

end Facts

end ScreenWakeLock

/-- At every moment the lock holds a sentinel only after a start with no stop behind it,
and on a page last turned visible; all others it was granted have been released, so
that no two are out; and no two requests under way can still bring one. -/
theorem wakeLock_safe (provider visible : Bool) {σ : ScreenWakeLock}
    {t : List (Entry ScreenWakeLock WakeLockEvent Unit)}
    (hrun : Run ScreenWakeLock.step (ScreenWakeLock.new provider visible) t σ) :
    (σ.sentinel.isSome = true →
      Run.lastOf WakeLockEvent.started? false t = true ∧
      Run.lastOf WakeLockEvent.visible? visible t = true) ∧
    (∀ n ∈ σ.granted, σ.sentinel = some n ∨ n ∈ σ.released ∨ n ∈ σ.reported) ∧
    (σ.granted.filter fun n => n ∉ σ.released ∧ n ∉ σ.reported).length ≤ 1 ∧
    (σ.requests.filter σ.keeps).length ≤ 1 := by
  have hsound := hrun.invariant (fun h hstep => h.step hstep)
    (ScreenWakeLock.Sound.new provider visible)
  refine ⟨?_, hsound.accounted, ?_, hsound.keeps_le_one⟩
  · intro hheld
    obtain ⟨n, hn⟩ := Option.isSome_iff_exists.mp hheld
    obtain ⟨-, hactive, hvisible⟩ := hsound.held n hn
    have hstarted : σ.active = Run.lastOf WakeLockEvent.started? false t :=
      hrun.eq_lastOf fun hstep => ScreenWakeLock.step_active hstep
    have hshown : σ.visible = Run.lastOf WakeLockEvent.visible? visible t :=
      hrun.eq_lastOf fun hstep => ScreenWakeLock.step_visible hstep
    exact ⟨hstarted ▸ hactive, hshown ▸ hvisible⟩
  · have hnodup := (List.nodup_append.mp hsound.distinct).2.1.filter
      fun n => decide (n ∉ σ.released ∧ n ∉ σ.reported)
    have hsub : (σ.granted.filter fun n => n ∉ σ.released ∧ n ∉ σ.reported) ⊆
        σ.sentinel.toList := by
      intro n hn
      obtain ⟨hmem, hout⟩ := List.mem_filter.mp hn
      obtain ⟨hreleased, hreported⟩ := of_decide_eq_true hout
      obtain hheld | hgone | hgone := hsound.accounted n hmem
      · exact Option.mem_toList.mpr hheld
      · exact absurd hgone hreleased
      · exact absurd hgone hreported
    refine Nat.le_trans (List.subperm_of_subset hnodup hsub).length_le ?_
    cases σ.sentinel <;> simp

theorem wakeLock_safe_late : ∃ t σ,
    Run ScreenWakeLock.step (ScreenWakeLock.new true true) t σ ∧
      σ.sentinel = some 3 ∧ Run.lastOf WakeLockEvent.started? false t = true ∧
      (σ.granted.filter fun n => n ∉ σ.released ∧ n ∉ σ.reported).length ≤ 1 := by
  -- The grant of a request from before the page was hidden comes last.
  obtain ⟨t, σ, hrun, hheld⟩ : ∃ t σ,
      Run ScreenWakeLock.step (ScreenWakeLock.new true true) t σ ∧
        (σ.sentinel == some 3) = true :=
    exists_run [.start true, .visibilityChange false true, .visibilityChange true true,
      .grant 3 true, .grant 1 true] (by decide +kernel)
  have hsentinel : σ.sentinel = some 3 := by simpa using hheld
  obtain ⟨hholds, -, hout, -⟩ := wakeLock_safe true true hrun
  exact ⟨t, σ, hrun, hsentinel, (hholds (by rw [hsentinel]; rfl)).1, hout⟩

end Noted.Reader
