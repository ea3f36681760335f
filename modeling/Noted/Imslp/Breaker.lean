import Mathlib.Algebra.Order.Ring.Rat
import Mathlib.Tactic.NormNum
import Noted.Library.Runs

/-!
# The circuit breaker (internal/app/imslp.go)

Times are exact seconds since Go's zero time, and so are durations. A request to
IMSLP passes the source's `admit`, then the outbound limiter, which may refuse it, and then
reports its outcome to `record`. The search and the file lookup share the breaker,
and each of the three is one step under the searcher's lock.
-/

namespace Noted.Imslp

open Library

section Config

def setDefault {α : Type*} [LinearOrder α] [Zero α] (value fallback : α) : α :=
  if value ≤ 0 then fallback else value

theorem setDefault_pos {α : Type*} [LinearOrder α] [Zero α] {value fallback : α}
    (h : 0 < fallback) : 0 < setDefault value fallback := by
  unfold setDefault
  split_ifs with hvalue
  · exact h
  · exact not_le.mp hvalue

structure IMSLPSearchConfig where
  outboundRate : ℚ
  outboundBurst : Int
  outboundConcurrency : Int
  outboundMaxWait : ℚ
  breakerFailures : Int
  breakerCooldown : ℚ

structure Controls extends IMSLPSearchConfig where
  outboundRate_pos : 0 < outboundRate
  outboundBurst_pos : 0 < outboundBurst
  outboundConcurrency_pos : 0 < outboundConcurrency
  outboundMaxWait_pos : 0 < outboundMaxWait
  breakerFailures_pos : 0 < breakerFailures
  breakerCooldown_pos : 0 < breakerCooldown

def IMSLPSearchConfig.withDefaults (cfg : IMSLPSearchConfig) : Controls where
  outboundRate := setDefault cfg.outboundRate 5
  outboundBurst := setDefault cfg.outboundBurst 5
  outboundConcurrency := setDefault cfg.outboundConcurrency 4
  outboundMaxWait := setDefault cfg.outboundMaxWait 2
  breakerFailures := setDefault cfg.breakerFailures 3
  breakerCooldown := setDefault cfg.breakerCooldown 60
  outboundRate_pos := setDefault_pos (by norm_num)
  outboundBurst_pos := setDefault_pos (by norm_num)
  outboundConcurrency_pos := setDefault_pos (by norm_num)
  outboundMaxWait_pos := setDefault_pos (by norm_num)
  breakerFailures_pos := setDefault_pos (by norm_num)
  breakerCooldown_pos := setDefault_pos (by norm_num)

def defaults : Controls := IMSLPSearchConfig.withDefaults ⟨0, 0, 0, 0, 0, 0⟩

end Config

structure Breaker where
  failures : Nat
  isOpen : Bool
  openUntil : ℚ
  probing : Bool
  deriving DecidableEq

structure Outcome where
  failed : Bool
  retryAfter : ℚ
  deriving DecidableEq

namespace Breaker

def admitRequest (now : ℚ) (b : Breaker) : (Bool × Bool) × Breaker :=
  if b.isOpen = false then ((false, true), b)
  else if now < b.openUntil ∨ b.probing = true then ((false, false), b)
  else ((true, true), { b with probing := true })

def abandonProbe (probe : Bool) (b : Breaker) : Breaker :=
  if probe = false then b else { b with probing := false }

def record (cfg : Controls) (probe : Bool) (outcome : Outcome) (now : ℚ) (b : Breaker) : Breaker :=
  let b := if probe = true then { b with probing := false } else b
  if outcome.failed = false then
    if b.isOpen = true ∧ probe = false then b
    else { b with failures := 0, isOpen := false }
  else
    let b := { b with failures := b.failures + 1 }
    if b.isOpen = false ∧ (b.failures : Int) < cfg.breakerFailures ∧ outcome.retryAfter = 0 then b
    else
      let cooldown := if 0 < outcome.retryAfter then outcome.retryAfter else cfg.breakerCooldown
      { b with isOpen := true, openUntil := max b.openUntil (now + cooldown) }

end Breaker

/-- A request that was admitted and has not ended; `out` is set once the limiter
has let it go out. -/
structure Request where
  id : Nat
  probe : Bool
  out : Bool
  deriving DecidableEq

structure Searcher where
  clock : ℚ
  breaker : Breaker
  requests : List Request

inductive Event
  | tick (clock : ℚ)
  | admitRequest (id : Nat)
  | refuse (r : Request)
  | goOut (r : Request)
  | record (r : Request) (outcome : Outcome)
  deriving DecidableEq

inductive Answer
  | done
  | admitted (r : Request)
  | unavailable
  deriving DecidableEq

namespace Searcher

def start (clock : ℚ) : Searcher where
  clock := clock
  breaker := ⟨0, false, 0, false⟩
  requests := []

def admitRequest (σ : Searcher) (id : Nat) : Answer × Searcher :=
  match σ.breaker.admitRequest σ.clock with
  | ((probe, true), b) =>
    (.admitted ⟨id, probe, false⟩,
      { σ with breaker := b, requests := ⟨id, probe, false⟩ :: σ.requests })
  | ((_, false), b) => (.unavailable, { σ with breaker := b })

/-- `attempt` and `resolveFile`: `refuse` and `goOut` are the two answers of
`acquireOutbound`. -/
def step (cfg : Controls) (σ : Searcher) (e : Event) : Option (Answer × Searcher) :=
  match e with
  | .tick clock => if σ.clock ≤ clock then some (.done, { σ with clock := clock }) else none
  | .admitRequest id => some (σ.admitRequest id)
  | .refuse r =>
    if r ∈ σ.requests ∧ r.out = false then
      some (.unavailable, { σ with
        breaker := σ.breaker.abandonProbe r.probe, requests := σ.requests.erase r })
    else none
  | .goOut r =>
    if r ∈ σ.requests ∧ r.out = false then
      some (.done, { σ with requests := { r with out := true } :: σ.requests.erase r })
    else none
  | .record r outcome =>
    if r ∈ σ.requests ∧ r.out = true then
      some (.done, { σ with
        breaker := σ.breaker.record cfg r.probe outcome σ.clock, requests := σ.requests.erase r })
    else none

end Searcher

section Record

namespace Breaker

variable {cfg : Controls} {probe : Bool} {outcome : Outcome} {now : ℚ} {b : Breaker}

@[simp]
theorem record_probing :
    (b.record cfg probe outcome now).probing = if probe = true then false else b.probing := by
  unfold record
  dsimp only
  split_ifs <;> rfl

theorem record_openUntil : b.openUntil ≤ (b.record cfg probe outcome now).openUntil := by
  unfold record
  dsimp only
  split_ifs <;> simp

theorem record_closed (hopen : b.isOpen = true)
    (h : (b.record cfg probe outcome now).isOpen = false) :
    probe = true ∧ outcome.failed = false := by
  unfold record at h
  dsimp only at h
  split_ifs at h <;> simp_all

theorem record_success (hprobe : probe = true) (hfailed : outcome.failed = false) :
    (b.record cfg probe outcome now).isOpen = false := by
  simp [record, hprobe, hfailed]

theorem record_retryAfter (hfailed : outcome.failed = true) (hretry : 0 < outcome.retryAfter) :
    (b.record cfg probe outcome now).isOpen = true ∧
      now + outcome.retryAfter ≤ (b.record cfg probe outcome now).openUntil := by
  unfold record
  simp [hfailed, hretry, hretry.ne']

theorem record_counted
    (hclosed : (b.record cfg probe outcome now).isOpen = false) :
    ((b.record cfg probe outcome now).failures : Int) < cfg.breakerFailures := by
  have hpos := cfg.breakerFailures_pos
  unfold record at hclosed ⊢
  dsimp only at hclosed ⊢
  split_ifs at hclosed ⊢ <;> simp_all

theorem record_failures_of_failed (hfailed : outcome.failed = true) :
    (b.record cfg probe outcome now).failures = b.failures + 1 := by
  unfold record
  dsimp only
  split_ifs <;> simp_all

theorem record_failures_of_late (hfailed : outcome.failed = false) (hopen : b.isOpen = true)
    (hprobe : probe = false) : (b.record cfg probe outcome now).failures = b.failures := by
  simp [record, hfailed, hopen, hprobe]

end Breaker

end Record

namespace Searcher

variable {cfg : Controls} {σ σ' : Searcher} {e : Event} {a : Answer}

inductive Stepped (cfg : Controls) (σ : Searcher) : Event → Answer → Searcher → Prop
  | ticked (clock : ℚ) (hclock : σ.clock ≤ clock) :
      Stepped cfg σ (.tick clock) .done { σ with clock := clock }
  | passed (id : Nat) (hclosed : σ.breaker.isOpen = false) :
      Stepped cfg σ (.admitRequest id) (.admitted ⟨id, false, false⟩)
        { σ with requests := ⟨id, false, false⟩ :: σ.requests }
  | probed (id : Nat) (hopen : σ.breaker.isOpen = true) (hdue : σ.breaker.openUntil ≤ σ.clock)
      (hidle : σ.breaker.probing = false) :
      Stepped cfg σ (.admitRequest id) (.admitted ⟨id, true, false⟩)
        { σ with
          breaker := { σ.breaker with probing := true }
          requests := ⟨id, true, false⟩ :: σ.requests }
  | turnedAway (id : Nat) (hopen : σ.breaker.isOpen = true)
      (hwait : σ.clock < σ.breaker.openUntil ∨ σ.breaker.probing = true) :
      Stepped cfg σ (.admitRequest id) .unavailable σ
  | refused (r : Request) (hr : r ∈ σ.requests) (hout : r.out = false) :
      Stepped cfg σ (.refuse r) .unavailable
        { σ with breaker := σ.breaker.abandonProbe r.probe, requests := σ.requests.erase r }
  | wentOut (r : Request) (hr : r ∈ σ.requests) (hout : r.out = false) :
      Stepped cfg σ (.goOut r) .done
        { σ with requests := { r with out := true } :: σ.requests.erase r }
  | recorded (r : Request) (outcome : Outcome) (hr : r ∈ σ.requests) (hout : r.out = true) :
      Stepped cfg σ (.record r outcome) .done
        { σ with
          breaker := σ.breaker.record cfg r.probe outcome σ.clock
          requests := σ.requests.erase r }

theorem stepped (h : step cfg σ e = some (a, σ')) : Stepped cfg σ e a σ' := by
  cases e with
  | tick clock =>
    simp only [step] at h
    split_ifs at h with hclock
    obtain ⟨rfl, rfl⟩ := Prod.mk.inj (Option.some.inj h)
    exact .ticked clock hclock
  | admitRequest id =>
    simp only [step, admitRequest, Breaker.admitRequest] at h
    split_ifs at h with hclosed hwait
    · obtain ⟨rfl, rfl⟩ := Prod.mk.inj (Option.some.inj h)
      exact .passed id hclosed
    · obtain ⟨rfl, rfl⟩ := Prod.mk.inj (Option.some.inj h)
      exact .turnedAway id (by simpa using hclosed) hwait
    · obtain ⟨rfl, rfl⟩ := Prod.mk.inj (Option.some.inj h)
      obtain ⟨hdue, hidle⟩ := not_or.mp hwait
      exact .probed id (by simpa using hclosed) (not_lt.mp hdue) (by simpa using hidle)
  | refuse r =>
    simp only [step] at h
    split_ifs at h with hr
    obtain ⟨rfl, rfl⟩ := Prod.mk.inj (Option.some.inj h)
    exact .refused r hr.1 hr.2
  | goOut r =>
    simp only [step] at h
    split_ifs at h with hr
    obtain ⟨rfl, rfl⟩ := Prod.mk.inj (Option.some.inj h)
    exact .wentOut r hr.1 hr.2
  | record r outcome =>
    simp only [step] at h
    split_ifs at h with hr
    obtain ⟨rfl, rfl⟩ := Prod.mk.inj (Option.some.inj h)
    exact .recorded r outcome hr.1 hr.2

def probes (σ : Searcher) : Nat := σ.requests.countP Request.probe

theorem probes_erase {r : Request} (hr : r ∈ σ.requests) :
    (σ.requests.erase r).countP Request.probe = σ.probes - if r.probe = true then 1 else 0 := by
  have hperm := (List.perm_cons_erase hr).countP_eq Request.probe
  rw [probes, hperm, List.countP_cons]
  omega

theorem probes_pos {r : Request} (hr : r ∈ σ.requests) (hprobe : r.probe = true) :
    0 < σ.probes := List.countP_pos_iff.mpr ⟨r, hr, hprobe⟩

/-- The probe slot is taken by the one probe in flight, and a closed breaker has not
counted enough failures to open. -/
structure Sound (cfg : Controls) (σ : Searcher) : Prop where
  probes_eq : σ.probes = if σ.breaker.probing = true then 1 else 0
  counted : σ.breaker.isOpen = false → (σ.breaker.failures : Int) < cfg.breakerFailures

theorem start_sound (clock : ℚ) : Sound cfg (start clock) where
  probes_eq := by simp [start, probes]
  counted := by
    intro _
    exact cfg.breakerFailures_pos

theorem Sound.ended {r : Request} (hσ : Sound cfg σ) (hr : r ∈ σ.requests) :
    (σ.requests.erase r).countP Request.probe =
      if r.probe = true then 0 else if σ.breaker.probing = true then 1 else 0 := by
  have heq := hσ.probes_eq
  rw [probes_erase hr]
  by_cases hprobe : r.probe = true
  · have hpos := probes_pos hr hprobe
    rw [if_pos hprobe, if_pos hprobe]
    split_ifs at heq <;> omega
  · rw [if_neg hprobe, if_neg hprobe, Nat.sub_zero, heq]

theorem Sound.step (hσ : Sound cfg σ) (h : step cfg σ e = some (a, σ')) : Sound cfg σ' := by
  have hprobes := hσ.probes_eq
  cases stepped h with
  | ticked clock hclock => exact ⟨hprobes, hσ.counted⟩
  | passed id hclosed =>
    constructor
    · simpa [probes] using hprobes
    · exact hσ.counted
  | probed id hopen hdue hidle =>
    constructor
    · simpa [probes, hidle] using hprobes
    · intro hclosed
      exact absurd hclosed (by simp [hopen])
  | turnedAway id hopen hwait => exact hσ
  | refused r hr hout =>
    constructor
    · rw [probes, hσ.ended hr, Breaker.abandonProbe]
      cases r.probe <;> simp
    · intro hclosed
      unfold Breaker.abandonProbe at hclosed ⊢
      split_ifs at hclosed ⊢
      · exact hσ.counted hclosed
      · exact hσ.counted hclosed
  | wentOut r hr hout =>
    constructor
    · have hpos := probes_pos hr
      rw [probes, List.countP_cons, probes_erase hr, ← hprobes]
      cases hprobe : r.probe with
      | true =>
        have := hpos hprobe
        simp
        omega
      | false => simp
    · exact hσ.counted
  | recorded r outcome hr hout =>
    constructor
    · rw [probes, hσ.ended hr, Breaker.record_probing]
      cases r.probe <;> simp
    · exact Breaker.record_counted

end Searcher

section Safety

open Searcher

variable {cfg : Controls} {clock : ℚ} {σ : Searcher} {t : List (Entry Searcher Event Answer)}

/-- A success that sets the count of failures back. -/
def resets (x : Entry Searcher Event Answer) : Bool :=
  match x.event with
  | .record r outcome => !outcome.failed && (r.probe || !x.before.breaker.isOpen)
  | _ => false

def fails (x : Entry Searcher Event Answer) : Bool :=
  match x.event with
  | .record _ outcome => outcome.failed
  | _ => false

structure Guarded (x : Entry Searcher Event Answer) : Prop where
  admitted : ∀ r, x.response = .admitted r → x.before.breaker.isOpen = true →
    x.before.breaker.openUntil ≤ x.before.clock ∧ r.probe = true ∧ x.before.probes = 0
  openUntil_le : x.before.breaker.openUntil ≤ x.after.breaker.openUntil
  closed : x.before.breaker.isOpen = true → x.after.breaker.isOpen = false →
    ∃ r outcome, x.event = .record r outcome ∧ r.probe = true ∧ outcome.failed = false
  freed : ∀ r, r.probe = true → (x.event = .refuse r ∨ ∃ outcome, x.event = .record r outcome) →
    x.after.breaker.probing = false

theorem Searcher.Sound.guarded {e : Event} {a : Answer} {σ' : Searcher} (hσ : Sound cfg σ)
    (h : Searcher.step cfg σ e = some (a, σ')) : Guarded ⟨σ, e, a, σ'⟩ := by
  cases stepped h with
  | ticked clock hclock => constructor <;> simp_all
  | passed id hclosed => constructor <;> simp_all
  | probed id hopen hdue hidle =>
    have hnone := hσ.probes_eq
    constructor <;> simp_all
  | turnedAway id hopen hwait => constructor <;> simp_all
  | refused r hr hout =>
    constructor
    · simp
    · unfold Breaker.abandonProbe
      split_ifs <;> exact le_rfl
    · intro hopen hclosed
      unfold Breaker.abandonProbe at hclosed
      split_ifs at hclosed <;> simp_all
    · intro r' hprobe hend
      obtain rfl : r = r' := by simpa using hend
      simp [Breaker.abandonProbe, hprobe]
  | wentOut r hr hout => constructor <;> simp_all
  | recorded r outcome hr hout =>
    constructor
    · simp
    · exact Breaker.record_openUntil
    · intro hopen hclosed
      exact ⟨r, outcome, rfl, Breaker.record_closed hopen hclosed⟩
    · intro r' hprobe hend
      obtain rfl : r = r' := by simpa using hend
      simp [hprobe]

/-- The count of failures covers those recorded since it was set back. -/
theorem failures_ge {m : Searcher} {v : List (Entry Searcher Event Answer)}
    (h : Run (Searcher.step cfg) m v σ) (hv : ∀ x ∈ v, resets x = false) :
    v.countP fails ≤ σ.breaker.failures := by
  induction h with
  | nil => simp
  | @snoc v m' e a σ' _ hlast ih =>
    have hprior := ih fun x hx => hv x (List.mem_append_left _ hx)
    have hkeeps := hv ⟨m', e, a, σ'⟩ (by simp)
    rw [List.countP_append, List.countP_singleton]
    cases stepped hlast with
    | ticked clock hclock => simpa [fails] using hprior
    | passed id hclosed => simpa [fails] using hprior
    | probed id hopen hdue hidle => simpa [fails] using hprior
    | turnedAway id hopen hwait => simpa [fails] using hprior
    | refused r hr hout =>
      cases hprobe : r.probe <;> simpa [fails, Breaker.abandonProbe, hprobe] using hprior
    | wentOut r hr hout => simpa [fails] using hprior
    | recorded r outcome hr hout =>
      cases hfailed : outcome.failed with
      | true =>
        rw [Breaker.record_failures_of_failed hfailed]
        simp only [fails, hfailed, if_true]
        omega
      | false =>
        obtain ⟨hprobe, hopen⟩ : r.probe = false ∧ m'.breaker.isOpen = true := by
          simpa [resets, hfailed] using hkeeps
        rw [Breaker.record_failures_of_late hfailed hopen hprobe]
        simpa [fails, hfailed] using hprior

/-- At most one probe is in flight, every step is guarded, and after as many failures
as the configuration names, with no success that set the count back, the breaker is
open. -/
theorem breaker_safe (h : Run (Searcher.step cfg) (start clock) t σ) :
    σ.probes ≤ 1 ∧ (∀ x ∈ t, Guarded x) ∧
      ∀ u v, t = u ++ v → (∀ x ∈ v, resets x = false) →
        cfg.breakerFailures ≤ (v.countP fails : Int) → σ.breaker.isOpen = true := by
  have hsound : Sound cfg σ := h.invariant Sound.step (start_sound clock)
  refine ⟨?_, ?_, ?_⟩
  · rw [hsound.probes_eq]
    split_ifs <;> omega
  · intro x hx
    obtain ⟨hbefore, hstep⟩ := h.at_mem Sound.step (start_sound clock) hx
    exact hbefore.guarded hstep
  · rintro u v rfl hv hcount
    obtain ⟨m, -, hrest⟩ := h.split
    have hge := failures_ge hrest hv
    by_contra hopen
    have hlt := hsound.counted (by simpa using hopen)
    omega

def probedEvents : List Event :=
  [.admitRequest 1, .admitRequest 2, .admitRequest 3, .goOut ⟨1, false, false⟩,
    .goOut ⟨2, false, false⟩, .goOut ⟨3, false, false⟩, .record ⟨1, false, true⟩ ⟨true, 0⟩,
    .record ⟨2, false, true⟩ ⟨true, 0⟩, .record ⟨3, false, true⟩ ⟨true, 0⟩, .admitRequest 4,
    .tick 61, .admitRequest 5, .admitRequest 6, .goOut ⟨5, true, false⟩,
    .record ⟨5, true, true⟩ ⟨false, 0⟩, .admitRequest 7]

theorem breaker_safe_probed :
    ∃ t σ, Run (Searcher.step defaults) (start 1) t σ ∧ t.countP fails = 3 ∧ σ.probes ≤ 1 ∧
      ∀ x ∈ t, Guarded x := by
  obtain ⟨t, σ, hrun, hp⟩ : ∃ t σ, Run (Searcher.step defaults) (start 1) t σ ∧
      (t.countP fails == 3) = true := exists_run probedEvents (by decide +kernel)
  obtain ⟨hprobes, hguarded, -⟩ := breaker_safe hrun
  exact ⟨t, σ, hrun, beq_iff_eq.mp hp, hprobes, hguarded⟩

end Safety

section RetryAfter

open Searcher

variable {cfg : Controls} {clock due : ℚ} {σ m : Searcher} {t u v : List (Entry Searcher Event Answer)}

def probeSucceeds (x : Entry Searcher Event Answer) : Bool :=
  match x.event with
  | .record r outcome => r.probe && !outcome.failed
  | _ => false

def Paused (due : ℚ) (σ : Searcher) : Prop :=
  σ.breaker.isOpen = true ∧ due ≤ σ.breaker.openUntil

theorem Paused.step {e : Event} {a : Answer} (hσ : Paused due σ)
    (h : Searcher.step cfg σ e = some (a, m)) (hprobe : probeSucceeds ⟨σ, e, a, m⟩ = false) :
    Paused due m := by
  obtain ⟨hopen, hdue⟩ := hσ
  cases stepped h with
  | ticked clock hclock => exact ⟨hopen, hdue⟩
  | passed id hclosed => exact ⟨hopen, hdue⟩
  | probed id _ _ hidle => exact ⟨hopen, hdue⟩
  | turnedAway id _ hwait => exact ⟨hopen, hdue⟩
  | refused r hr hout =>
    unfold Paused Breaker.abandonProbe
    cases r.probe <;> exact ⟨hopen, hdue⟩
  | wentOut r hr hout => exact ⟨hopen, hdue⟩
  | recorded r outcome hr hout =>
    constructor
    · by_contra hclosed
      obtain ⟨hr, hok⟩ := Breaker.record_closed hopen (by simpa using hclosed)
      simp [probeSucceeds, hr, hok] at hprobe
    · exact hdue.trans Breaker.record_openUntil

theorem paused_of_retryAfter {r : Request} {outcome : Outcome} {a : Answer}
    (h : Searcher.step cfg σ (.record r outcome) = some (a, m)) (hfailed : outcome.failed = true)
    (hretry : 0 < outcome.retryAfter) : Paused (σ.clock + outcome.retryAfter) m := by
  cases stepped h with
  | recorded _ _ hr hout => exact Breaker.record_retryAfter hfailed hretry

theorem Paused.admitted {id : Nat} {r : Request} (hσ : Paused due σ)
    (h : Searcher.step cfg σ (.admitRequest id) = some (.admitted r, m)) : due ≤ σ.clock := by
  obtain ⟨hopen, hdue⟩ := hσ
  have hstep := stepped h
  generalize he : Event.admitRequest id = e at hstep
  generalize ha : Answer.admitted r = a at hstep
  cases hstep with
  | passed id hclosed => simp [hopen] at hclosed
  | probed id _ huntil hidle => exact hdue.trans huntil
  | _ => simp_all

theorem clock_le (h : Run (Searcher.step cfg) m v σ) : m.clock ≤ σ.clock := by
  induction h with
  | nil => exact le_rfl
  | snoc _ hlast ih =>
    refine ih.trans ?_
    cases stepped hlast with
    | ticked clock hclock => exact hclock
    | _ => exact le_rfl

/-- The pause lasts to its end, or at least until a probe's success is recorded. -/
theorem Paused.run (h : Run (Searcher.step cfg) m v σ) (hm : Paused due m)
    (hv : ∀ y ∈ v, probeSucceeds y = true → due ≤ y.before.clock) (hclock : σ.clock < due) :
    Paused due σ := by
  induction h with
  | nil => exact hm
  | @snoc v s e a s' hprior hlast ih =>
    have hle : s.clock ≤ s'.clock := clock_le (Run.nil.snoc hlast)
    have hlt : s.clock < due := hle.trans_lt hclock
    have hs := ih (fun y hy => hv y (List.mem_append_left _ hy)) hlt
    apply hs.step hlast
    by_contra hprobe
    have hlate := hv ⟨s, e, a, s'⟩ (by simp) (by simpa using hprobe)
    exact absurd hlate (not_le.mpr hlt)

theorem admit_closed (id : Nat) (hclosed : σ.breaker.isOpen = false) :
    Searcher.step cfg σ (.admitRequest id) = some (.admitted ⟨id, false, false⟩,
      { σ with requests := ⟨id, false, false⟩ :: σ.requests }) := by
  simp [Searcher.step, Searcher.admitRequest, Breaker.admitRequest, hclosed]

theorem admitted_of_probeSucceeds {e : Event} {a : Answer}
    (h : Searcher.step cfg σ e = some (a, m)) (hprobe : probeSucceeds ⟨σ, e, a, m⟩ = true)
    (id : Nat) :
    m.clock = σ.clock ∧ ∃ r m', Searcher.step cfg m (.admitRequest id) = some (.admitted r, m') := by
  cases stepped h with
  | recorded r outcome hr hout =>
    obtain ⟨hr, hok⟩ : r.probe = true ∧ outcome.failed = false := by
      simpa [probeSucceeds] using hprobe
    exact ⟨rfl, _, _, admit_closed id (Breaker.record_success hr hok)⟩
  | _ => simp [probeSucceeds] at hprobe

/-- After a 429, at every point of the run a request that arrives is admitted only
once the time the 429 asked for has passed, if and only if no probe's success is
recorded within that time. -/
theorem retryAfter_honoured {x : Entry Searcher Event Answer} {r : Request} {outcome : Outcome}
    (h : Run (Searcher.step cfg) (start clock) (u ++ x :: v) σ)
    (hx : x.event = .record r outcome) (hfailed : outcome.failed = true)
    (hretry : 0 < outcome.retryAfter) :
    (∀ w m id r' m', w <+: v → Run (Searcher.step cfg) x.after w m →
        Searcher.step cfg m (.admitRequest id) = some (.admitted r', m') →
        x.before.clock + outcome.retryAfter ≤ m.clock) ↔
      ∀ y ∈ v, probeSucceeds y = true → x.before.clock + outcome.retryAfter ≤ y.before.clock := by
  obtain ⟨-, hrecord, hrest⟩ := h.at_entry
  obtain ⟨s, e, a, s'⟩ := x
  obtain rfl : e = .record r outcome := hx
  constructor
  · intro hall y hy hprobe
    obtain ⟨w, w', rfl⟩ := List.append_of_mem hy
    obtain ⟨hfirst, hlast, -⟩ := hrest.at_entry
    obtain ⟨hclock, r', m', hadmit⟩ := admitted_of_probeSucceeds hlast hprobe 0
    rw [← hclock]
    exact hall (w ++ [y]) y.after 0 r' m' ⟨w', by simp⟩ (hfirst.snoc hlast) hadmit
  · intro hall w m id r' m' hw hrun hadmit
    by_contra hearly
    have hpaused := paused_of_retryAfter hrecord hfailed hretry
    have hm := hpaused.run hrun (fun y hy => hall y (hw.subset hy)) (not_le.mp hearly)
    exact hearly (hm.admitted hadmit)

/-- Two requests are out when the first one's 429 opens the breaker for a second; the
other's 429 asks for a minute while a probe is out, and then the probe succeeds. -/
def overtakenEvents : List Event :=
  [.admitRequest 1, .admitRequest 2, .goOut ⟨1, false, false⟩, .goOut ⟨2, false, false⟩,
    .record ⟨1, false, true⟩ ⟨true, 1⟩, .tick 2, .admitRequest 3, .goOut ⟨3, true, false⟩, .tick 3,
    .record ⟨2, false, true⟩ ⟨true, 60⟩, .tick 4, .record ⟨3, true, true⟩ ⟨false, 0⟩,
    .admitRequest 4]

def overtakes (t : List (Entry Searcher Event Answer)) : Bool :=
  match t with
  | [_, _, _, _, _, _, _, _, _, x, _, _, y] =>
    x.event == .record ⟨2, false, true⟩ ⟨true, 60⟩ && y.response == .admitted ⟨4, false, false⟩ &&
      decide (y.before.clock < x.before.clock + 60)
  | _ => false

/-- The last request goes out at second 4, although the second 429 asked for quiet
until second 63. -/
theorem not_retryAfter_kept :
    ¬ ∀ (cfg : Controls) (clock : ℚ) (u v : List (Entry Searcher Event Answer))
      (x : Entry Searcher Event Answer) (σ : Searcher) (r : Request) (outcome : Outcome),
      Run (Searcher.step cfg) (start clock) (u ++ x :: v) σ → x.event = .record r outcome →
      outcome.failed = true → 0 < outcome.retryAfter →
      ∀ y ∈ v, ∀ r', y.response = .admitted r' →
        x.before.clock + outcome.retryAfter ≤ y.before.clock := by
  intro hall
  obtain ⟨t, σ, hrun, hp⟩ : ∃ t σ, Run (Searcher.step defaults) (start 1) t σ ∧
      overtakes t = true := exists_run overtakenEvents (by decide +kernel)
  unfold overtakes at hp
  split at hp
  · rename_i a b c d e f g i j x k l y
    simp only [Bool.and_eq_true, beq_iff_eq, decide_eq_true_eq] at hp
    obtain ⟨⟨hx, hy⟩, hearly⟩ := hp
    have hlate := hall defaults 1 [a, b, c, d, e, f, g, i, j] [k, l, y] x σ _ _ hrun hx rfl
      (by norm_num) y (by simp) _ hy
    exact absurd hlate (not_le.mpr hearly)
  · cases hp

def honouredEvents : List Event :=
  [.admitRequest 1, .goOut ⟨1, false, false⟩, .record ⟨1, false, true⟩ ⟨true, 60⟩,
    .admitRequest 2, .tick 61, .admitRequest 3, .goOut ⟨3, true, false⟩,
    .record ⟨3, true, true⟩ ⟨false, 0⟩, .admitRequest 4]

def honours (t : List (Entry Searcher Event Answer)) : Bool :=
  match t with
  | [_, _, x, k, l, y, m, n, o] =>
    x.event == .record ⟨1, false, true⟩ ⟨true, 60⟩ && y.event == .admitRequest 3 &&
      y.response == .admitted ⟨3, true, false⟩ &&
      [k, l, y, m, n, o].all fun z =>
        !probeSucceeds z || decide (x.before.clock + 60 ≤ z.before.clock)
  | _ => false

theorem retryAfter_honoured_probed :
    ∃ t σ x y, Run (Searcher.step defaults) (start 1) t σ ∧ x ∈ t ∧
      x.event = .record ⟨1, false, true⟩ ⟨true, 60⟩ ∧ x.before.clock + 60 ≤ y.before.clock ∧
      y ∈ t ∧ y.response = .admitted ⟨3, true, false⟩ := by
  obtain ⟨t, σ, hrun, hp⟩ : ∃ t σ, Run (Searcher.step defaults) (start 1) t σ ∧
      honours t = true := exists_run honouredEvents (by decide +kernel)
  unfold honours at hp
  split at hp
  · rename_i a b x k l y m n o
    simp only [Bool.and_eq_true, beq_iff_eq, List.all_eq_true, Bool.or_eq_true,
      Bool.not_eq_true', decide_eq_true_eq] at hp
    obtain ⟨⟨⟨hx, he⟩, hy⟩, hv⟩ := hp
    have hcondition : ∀ z ∈ [k, l, y, m, n, o], probeSucceeds z = true →
        x.before.clock + 60 ≤ z.before.clock := by
      intro z hz hprobe
      obtain hno | hle := hv z hz
      · rw [hno] at hprobe
        cases hprobe
      · exact hle
    obtain ⟨hfirst, hadmit, -⟩ := Run.at_entry (t := [k, l]) (x := y) (u := [m, n, o])
      (Run.at_entry (t := [a, b]) (x := x) (u := [k, l, y, m, n, o]) hrun).2.2
    rw [he, hy] at hadmit
    have hlate := (retryAfter_honoured (u := [a, b]) (v := [k, l, y, m, n, o]) hrun hx rfl
      (by norm_num)).mpr hcondition [k, l] y.before 3 _ _ ⟨[y, m, n, o], rfl⟩ hfirst hadmit
    exact ⟨_, σ, x, y, hrun, by simp, hx, hlate, by simp, hy⟩
  · cases hp

end RetryAfter

end Noted.Imslp
