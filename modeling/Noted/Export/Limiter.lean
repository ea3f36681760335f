import Noted.UserLimiter

/-!
# The limit of exports (internal/app/export_limit.go)

An owner has one export at a time and starts one every five minutes. The users of the
limiter are pointers, which the release functions keep: here addresses of a heap. A
release function works once, and the sweep deletes users that are idle and not active.
Tokens and times are exact numbers of seconds, and time 0 is Go's zero time.
-/

namespace Noted.Export

open Library
open Imslp (TokenBucket)

structure ExportUser where
  bucket : TokenBucket
  active : Bool
  seen : ℚ
  deriving DecidableEq

/-- A release function: whose export it ends, and the user that it keeps. -/
structure ReleaseFunc (Owner : Type*) where
  owner : Owner
  user : Nat
  deriving DecidableEq

/-- The limiter, the clock, and the release functions it has returned, each with its
`sync.Once`. -/
structure ExportLimiter (Owner : Type*) where
  clock : ℚ
  heap : Nat → ExportUser
  next : Nat
  users : Owner → Option Nat
  nextSweep : ℚ
  exports : List (ReleaseFunc Owner)
  done : Nat → Bool

inductive ExportEvent (Owner : Type*)
  | tick (clock : ℚ)
  | acquire (owner : Owner)
  | release (n : Nat)
  deriving DecidableEq

inductive ExportAnswer
  | done
  | started (n : Nat)
  | refused (wait : ℚ)
  deriving DecidableEq

namespace ExportUser

def new : ExportUser := ⟨⟨0, 0⟩, false, 0⟩

/-- What `acquire` does with the user: the wait if it refuses, and the user after it. -/
def acquire (now : ℚ) (u : ExportUser) : Option ℚ × ExportUser :=
  let u := { u with seen := now, bucket := u.bucket.refill now (1 / 300) 1 }
  if u.active = true then (some 1, u)
  else
    let allowed := u.bucket.allow now (1 / 300) 1
    let u := { u with bucket := allowed.2 }
    if allowed.1 = true then (none, { u with active := true })
    else (some ((1 - u.bucket.tokens) * 300 + 1 / 1000), u)

end ExportUser

namespace ExportLimiter

variable {Owner : Type*}

def start (clock : ℚ) : ExportLimiter Owner where
  clock := clock
  heap := fun _ => .new
  next := 0
  users := fun _ => none
  nextSweep := 0
  exports := []
  done := fun _ => false

def sweep (σ : ExportLimiter Owner) : ExportLimiter Owner :=
  if σ.nextSweep ≤ σ.clock then
    { σ with
      users := fun id => (σ.users id).filter fun u =>
        (σ.heap u).active || decide (σ.clock - (σ.heap u).seen < 600)
      nextSweep := σ.clock + 600 }
  else σ

variable [DecidableEq Owner]

def lookup (owner : Owner) (σ : ExportLimiter Owner) : Nat × ExportLimiter Owner :=
  match σ.users owner with
  | some u => (u, σ)
  | none =>
    (σ.next,
      { σ with
        heap := Function.update σ.heap σ.next .new
        next := σ.next + 1
        users := Function.update σ.users owner (some σ.next) })

def acquire (owner : Owner) (σ : ExportLimiter Owner) : ExportAnswer × ExportLimiter Owner :=
  let p := σ.sweep.lookup owner
  let result := (p.2.heap p.1).acquire σ.clock
  let σ := { p.2 with heap := Function.update p.2.heap p.1 result.2 }
  match result.1 with
  | some wait => (.refused wait, σ)
  | none => (.started σ.exports.length, { σ with exports := σ.exports ++ [⟨owner, p.1⟩] })

def release (n : Nat) (e : ReleaseFunc Owner) (σ : ExportLimiter Owner) : ExportLimiter Owner :=
  if σ.done n = true then σ
  else
    { σ with
      done := Function.update σ.done n true
      heap := Function.update σ.heap e.user
        { σ.heap e.user with active := false, seen := σ.clock } }

def step (σ : ExportLimiter Owner) (e : ExportEvent Owner) :
    Option (ExportAnswer × ExportLimiter Owner) :=
  match e with
  | .tick clock => if σ.clock ≤ clock then some (.done, { σ with clock := clock }) else none
  | .acquire owner => some (σ.acquire owner)
  | .release n => σ.exports[n]?.map fun e => (.done, σ.release n e)

end ExportLimiter

section Bucket

variable {b : TokenBucket} {now later rate : ℚ} {burst : Int}

theorem refill_last (h : b.last ≤ now) : (b.refill now rate burst).last = now := by
  unfold TokenBucket.refill
  split_ifs with hzero hlater
  · rfl
  · rfl
  · linarith

theorem refill_self (hnow : 0 < now) (h : b.last = now) : b.refill now rate burst = b := by
  have hzero : ¬b.last = 0 := by
    rw [h]
    exact hnow.ne'
  have hlater : ¬0 < now - b.last := by
    rw [h, sub_self]
    exact lt_irrefl 0
  rw [TokenBucket.refill, if_neg hzero, if_neg hlater]

theorem refill_gained {since : ℚ} (hlast : 0 < b.last) (hle : b.last ≤ now)
    (h : b.tokens ≤ (b.last - since) * rate) :
    (b.refill now rate burst).tokens ≤ (now - since) * rate := by
  unfold TokenBucket.refill
  split_ifs with hzero hlater
  · exact absurd hzero hlast.ne'
  · have hsum : (now - since) * rate = (b.last - since) * rate + (now - b.last) * rate := by ring
    have hmin := min_le_right (burst : ℚ) (b.tokens + (now - b.last) * rate)
    dsimp only
    linarith
  · have hsame : b.last = now := by linarith
    rwa [hsame] at h

/-- The bucket has a token from this time on, if no token is taken before. -/
def ReadyAt (rate full : ℚ) (b : TokenBucket) : Prop :=
  1 ≤ b.tokens ∨ 1 ≤ b.tokens + (full - b.last) * rate

theorem ReadyAt.refill {full : ℚ} (h : ReadyAt rate full b) (hrate : 0 ≤ rate)
    (hlast : 0 < b.last) : ReadyAt rate full (b.refill now rate 1) := by
  unfold TokenBucket.refill
  split_ifs with hzero hlater
  · exact absurd hzero hlast.ne'
  · by_cases hfull : 1 ≤ b.tokens + (now - b.last) * rate
    · left
      exact le_min (by norm_num) hfull
    · right
      have hgain := mul_nonneg hlater.le hrate
      have htokens : min ((1 : Int) : ℚ) (b.tokens + (now - b.last) * rate) =
          b.tokens + (now - b.last) * rate := by
        apply min_eq_right
        push_cast
        linarith
      obtain hone | hone := h
      · exact absurd (by linarith) hfull
      · dsimp only
        rw [htokens]
        linarith
  · exact h

theorem ReadyAt.tokens {full : ℚ} (h : ReadyAt rate full b) (hrate : 0 ≤ rate)
    (hlast : 0 < b.last) (hle : b.last ≤ now) (hfull : full ≤ now) :
    1 ≤ (b.refill now rate 1).tokens := by
  have hready : ReadyAt rate full (b.refill now rate 1) := h.refill hrate hlast
  obtain hone | hone := hready
  · exact hone
  · rw [refill_last hle] at hone
    have hgain := mul_nonneg (sub_nonneg.mpr hfull) hrate
    linarith

end Bucket

namespace ExportUser

variable {now : ℚ} {u : ExportUser}

theorem acquire_busy (h : u.active = true) :
    u.acquire now = (some 1, ⟨u.bucket.refill now (1 / 300) 1, true, now⟩) := by
  simp [acquire, h]

theorem allow_refilled (hnow : 0 < now) (hlast : u.bucket.last ≤ now) :
    (u.bucket.refill now (1 / 300) 1).allow now (1 / 300) 1 =
      if (u.bucket.refill now (1 / 300) 1).tokens < 1
      then (false, u.bucket.refill now (1 / 300) 1)
      else (true, { u.bucket.refill now (1 / 300) 1 with
        tokens := (u.bucket.refill now (1 / 300) 1).tokens - 1 }) := by
  rw [TokenBucket.allow, refill_self hnow (refill_last hlast)]

theorem acquire_early (hnow : 0 < now) (hlast : u.bucket.last ≤ now) (h : u.active = false)
    (hlow : (u.bucket.refill now (1 / 300) 1).tokens < 1) :
    u.acquire now = (some ((1 - (u.bucket.refill now (1 / 300) 1).tokens) * 300 + 1 / 1000),
      ⟨u.bucket.refill now (1 / 300) 1, false, now⟩) := by
  unfold acquire
  dsimp only
  rw [allow_refilled hnow hlast, if_pos hlow, h]
  rfl

theorem acquire_start (hnow : 0 < now) (hlast : u.bucket.last ≤ now) (h : u.active = false)
    (hfull : 1 ≤ (u.bucket.refill now (1 / 300) 1).tokens) :
    u.acquire now = (none,
      ⟨{ u.bucket.refill now (1 / 300) 1 with
        tokens := (u.bucket.refill now (1 / 300) 1).tokens - 1 }, true, now⟩) := by
  unfold acquire
  dsimp only
  rw [allow_refilled hnow hlast, if_neg (not_lt.mpr hfull), h]
  rfl

end ExportUser

namespace ExportLimiter

variable {Owner : Type*} {owner : Owner} {n : Nat} {u : Nat} {clock : ℚ}
  {σ τ σ' : ExportLimiter Owner} {e : ExportEvent Owner} {a : ExportAnswer}

def Active (σ : ExportLimiter Owner) (n : Nat) (e : ReleaseFunc Owner) : Prop :=
  σ.exports[n]? = some e ∧ σ.done n = false

def Idle (σ : ExportLimiter Owner) (u : Nat) : Prop :=
  (σ.heap u).active = false ∧ 600 ≤ σ.clock - (σ.heap u).seen

/-- The sweep and the lookup of `acquire`: users that are idle may be gone, and the owner
has the user `u`, an old one or a new one. -/
structure Entered (σ : ExportLimiter Owner) (owner : Owner) (u : Nat) (τ : ExportLimiter Owner) :
    Prop where
  clock : τ.clock = σ.clock
  exports : τ.exports = σ.exports
  done : τ.done = σ.done
  mine : τ.users owner = some u
  others : ∀ o, o ≠ owner → τ.users o = σ.users o ∨
    τ.users o = none ∧ ∃ v, σ.users o = some v ∧ σ.Idle v
  user : σ.users owner = some u ∧ τ.heap = σ.heap ∧ τ.next = σ.next ∨
    u = σ.next ∧ τ.heap = Function.update σ.heap σ.next .new ∧ τ.next = σ.next + 1 ∧
      (σ.users owner = none ∨ ∃ v, σ.users owner = some v ∧ σ.Idle v)

theorem sweep_users (o : Owner) : σ.sweep.users o = σ.users o ∨
    σ.sweep.users o = none ∧ ∃ v, σ.users o = some v ∧ σ.Idle v := by
  unfold sweep
  split_ifs with hdue
  · cases huser : σ.users o with
    | none =>
      left
      simp [huser]
    | some v =>
      by_cases hkept : ((σ.heap v).active || decide (σ.clock - (σ.heap v).seen < 600)) = true
      · left
        simp only [huser, Option.filter_some, hkept, if_true]
      · right
        rw [Bool.not_eq_true, Bool.or_eq_false_iff, decide_eq_false_iff_not, not_lt] at hkept
        refine ⟨?_, v, rfl, hkept⟩
        have hgone : ((σ.heap v).active || decide (σ.clock - (σ.heap v).seen < 600)) = false := by
          simpa using hkept
        simp only [huser, Option.filter_some, hgone, Bool.false_eq_true, if_false]
  · exact Or.inl rfl

theorem sweep_rest : σ.sweep.clock = σ.clock ∧ σ.sweep.heap = σ.heap ∧ σ.sweep.next = σ.next ∧
    σ.sweep.exports = σ.exports ∧ σ.sweep.done = σ.done := by
  unfold sweep
  split_ifs
  · exact ⟨rfl, rfl, rfl, rfl, rfl⟩
  · exact ⟨rfl, rfl, rfl, rfl, rfl⟩

variable [DecidableEq Owner]

theorem entered (σ : ExportLimiter Owner) (owner : Owner) :
    Entered σ owner (σ.sweep.lookup owner).1 (σ.sweep.lookup owner).2 := by
  obtain ⟨hclock, hheap, hnext, hexports, hdone⟩ := sweep_rest (σ := σ)
  cases huser : σ.sweep.users owner with
  | some u =>
    have hlookup : σ.sweep.lookup owner = (u, σ.sweep) := by
      simp only [lookup, huser]
    have hold : σ.users owner = some u := by
      obtain hsame | ⟨hnone, -⟩ := sweep_users (σ := σ) owner
      · rw [← hsame, huser]
      · rw [huser] at hnone
        cases hnone
    rw [hlookup]
    exact ⟨hclock, hexports, hdone, huser, fun o _ => sweep_users o, Or.inl ⟨hold, hheap, hnext⟩⟩
  | none =>
    have hlookup : σ.sweep.lookup owner = (σ.sweep.next,
        { σ.sweep with
          heap := Function.update σ.sweep.heap σ.sweep.next .new
          next := σ.sweep.next + 1
          users := Function.update σ.sweep.users owner (some σ.sweep.next) }) := by
      simp only [lookup, huser]
    have hgone : σ.users owner = none ∨ ∃ v, σ.users owner = some v ∧ σ.Idle v := by
      obtain hsame | ⟨-, hidle⟩ := sweep_users (σ := σ) owner
      · exact Or.inl (hsame.symm.trans huser)
      · exact Or.inr hidle
    rw [hlookup]
    constructor
    · exact hclock
    · exact hexports
    · exact hdone
    · exact Function.update_self _ _ _
    · intro o ho
      have hsame : Function.update σ.sweep.users owner (some σ.sweep.next) o = σ.sweep.users o :=
        Function.update_of_ne ho _ _
      dsimp only
      rw [hsame]
      exact sweep_users o
    · right
      dsimp only
      rw [hheap, hnext]
      exact ⟨rfl, rfl, rfl, hgone⟩

/-- What a step can do. `acquire` leaves the owner with the user `u`, whose bucket is
filled and which was seen now. -/
inductive Stepped (σ : ExportLimiter Owner) :
    ExportEvent Owner → ExportAnswer → ExportLimiter Owner → Prop
  | ticked (clock : ℚ) (hclock : σ.clock ≤ clock) :
      Stepped σ (.tick clock) .done { σ with clock := clock }
  | busy (owner : Owner) (u : Nat) (τ : ExportLimiter Owner) (h : Entered σ owner u τ)
      (hactive : (τ.heap u).active = true) :
      Stepped σ (.acquire owner) (.refused 1)
        { τ with
          heap := Function.update τ.heap u
            ⟨(τ.heap u).bucket.refill σ.clock (1 / 300) 1, true, σ.clock⟩ }
  | early (owner : Owner) (u : Nat) (τ : ExportLimiter Owner) (h : Entered σ owner u τ)
      (hactive : (τ.heap u).active = false)
      (hlow : ((τ.heap u).bucket.refill σ.clock (1 / 300) 1).tokens < 1) :
      Stepped σ (.acquire owner)
        (.refused ((1 - ((τ.heap u).bucket.refill σ.clock (1 / 300) 1).tokens) * 300 + 1 / 1000))
        { τ with
          heap := Function.update τ.heap u
            ⟨(τ.heap u).bucket.refill σ.clock (1 / 300) 1, false, σ.clock⟩ }
  | started (owner : Owner) (u : Nat) (τ : ExportLimiter Owner) (h : Entered σ owner u τ)
      (hactive : (τ.heap u).active = false)
      (hfull : 1 ≤ ((τ.heap u).bucket.refill σ.clock (1 / 300) 1).tokens) :
      Stepped σ (.acquire owner) (.started σ.exports.length)
        { τ with
          heap := Function.update τ.heap u
            ⟨{ (τ.heap u).bucket.refill σ.clock (1 / 300) 1 with
              tokens := ((τ.heap u).bucket.refill σ.clock (1 / 300) 1).tokens - 1 }, true, σ.clock⟩
          exports := σ.exports ++ [⟨owner, u⟩] }
  | released (n : Nat) (f : ReleaseFunc Owner) (h : σ.Active n f) :
      Stepped σ (.release n) .done
        { σ with
          done := Function.update σ.done n true
          heap := Function.update σ.heap f.user
            { σ.heap f.user with active := false, seen := σ.clock } }
  | again (n : Nat) (h : σ.done n = true) : Stepped σ (.release n) .done σ

structure Timed (σ : ExportLimiter Owner) : Prop where
  clock_pos : 0 < σ.clock
  last_pos : ∀ {o v}, σ.users o = some v → 0 < (σ.heap v).bucket.last
  last_le : ∀ {o v}, σ.users o = some v → (σ.heap v).bucket.last ≤ σ.clock
  seen_le : ∀ {o v}, σ.users o = some v → (σ.heap v).seen ≤ σ.clock
  tokens_le : ∀ {o v}, σ.users o = some v → (σ.heap v).bucket.tokens ≤ 1

omit [DecidableEq Owner] in
theorem Timed.entered_last (h : Timed σ) (hτ : Entered σ owner u τ) :
    (τ.heap u).bucket.last ≤ σ.clock := by
  obtain ⟨hold, hheap, -⟩ | ⟨rfl, hheap, -⟩ := hτ.user
  · rw [hheap]
    exact h.last_le hold
  · rw [hheap, Function.update_self]
    exact h.clock_pos.le

omit [DecidableEq Owner] in
theorem Timed.filled_le (h : Timed σ) (hτ : Entered σ owner u τ) :
    ((τ.heap u).bucket.refill σ.clock (1 / 300) 1).tokens ≤ 1 := by
  have htokens : (τ.heap u).bucket.tokens ≤ ((1 : Int) : ℚ) := by
    push_cast
    obtain ⟨hold, hheap, -⟩ | ⟨rfl, hheap, -⟩ := hτ.user
    · rw [hheap]
      exact h.tokens_le hold
    · rw [hheap, Function.update_self]
      exact zero_le_one
  have hfilled := TokenBucket.refill_tokens σ.clock (1 / 300) htokens
  push_cast at hfilled
  exact hfilled

theorem stepped (hσ : Timed σ) (h : σ.step e = some (a, σ')) : Stepped σ e a σ' := by
  cases e with
  | tick clock =>
    simp only [step] at h
    split_ifs at h with hclock
    obtain ⟨rfl, rfl⟩ := Prod.mk.inj (Option.some.inj h)
    exact .ticked clock hclock
  | acquire owner =>
    have hτ := entered σ owner
    have hlast := hσ.entered_last hτ
    simp only [step, acquire] at h
    generalize (σ.sweep.lookup owner).1 = u at h hτ hlast
    generalize (σ.sweep.lookup owner).2 = τ at h hτ hlast
    cases hactive : (τ.heap u).active with
    | true =>
      rw [ExportUser.acquire_busy hactive] at h
      obtain ⟨rfl, rfl⟩ := Prod.mk.inj (Option.some.inj h)
      exact .busy owner u τ hτ hactive
    | false =>
      by_cases hlow : ((τ.heap u).bucket.refill σ.clock (1 / 300) 1).tokens < 1
      · rw [ExportUser.acquire_early hσ.clock_pos hlast hactive hlow] at h
        obtain ⟨rfl, rfl⟩ := Prod.mk.inj (Option.some.inj h)
        exact .early owner u τ hτ hactive hlow
      · rw [ExportUser.acquire_start hσ.clock_pos hlast hactive (not_lt.mp hlow), hτ.exports] at h
        obtain ⟨rfl, rfl⟩ := Prod.mk.inj (Option.some.inj h)
        exact .started owner u τ hτ hactive (not_lt.mp hlow)
  | release n =>
    obtain ⟨f, hf, heq⟩ := Option.map_eq_some_iff.mp h
    obtain ⟨rfl, rfl⟩ := Prod.mk.inj heq
    unfold release
    split_ifs with hdone
    · exact .again n hdone
    · exact .released n f ⟨hf, Bool.eq_false_iff.mpr hdone⟩

section Invariants

omit [DecidableEq Owner]

theorem Entered.old {o : Owner} {v : Nat} (hτ : Entered σ owner u τ) (h : τ.users o = some v)
    (hv : v ≠ u) : σ.users o = some v ∧ τ.heap v = σ.heap v := by
  have howner : o ≠ owner := by
    rintro rfl
    rw [hτ.mine] at h
    exact hv (Option.some.inj h).symm
  constructor
  · obtain hsame | ⟨hnone, -⟩ := hτ.others o howner
    · rw [← hsame, h]
    · rw [h] at hnone
      cases hnone
  · obtain ⟨-, hheap, -⟩ | ⟨rfl, hheap, -⟩ := hτ.user
    · rw [hheap]
    · rw [hheap, Function.update_of_ne hv]

theorem Timed.acquired {r : ExportUser} (h : Timed σ) (hτ : Entered σ owner u τ)
    (hlast : r.bucket.last = σ.clock) (hseen : r.seen = σ.clock) (htokens : r.bucket.tokens ≤ 1) :
    Timed { τ with heap := Function.update τ.heap u r } := by
  have hold : ∀ {o v}, τ.users o = some v → v = u ∨ σ.users o = some v ∧ τ.heap v = σ.heap v := by
    intro o v huser
    by_cases hv : v = u
    · exact Or.inl hv
    · exact Or.inr (hτ.old huser hv)
  have hpos : 0 < τ.clock := hτ.clock ▸ h.clock_pos
  constructor
  · exact hpos
  · intro o v huser
    obtain rfl | ⟨hσ, hheap⟩ := hold huser
    · simpa [hlast] using h.clock_pos
    · by_cases hv : v = u
      · simpa [hv, hlast] using h.clock_pos
      · simpa [hv, hheap] using h.last_pos hσ
  · intro o v huser
    obtain rfl | ⟨hσ, hheap⟩ := hold huser
    · simp [hlast, hτ.clock]
    · by_cases hv : v = u
      · simp [hv, hlast, hτ.clock]
      · simpa [hv, hheap, hτ.clock] using h.last_le hσ
  · intro o v huser
    obtain rfl | ⟨hσ, hheap⟩ := hold huser
    · simp [hseen, hτ.clock]
    · by_cases hv : v = u
      · simp [hv, hseen, hτ.clock]
      · simpa [hv, hheap, hτ.clock] using h.seen_le hσ
  · intro o v huser
    obtain rfl | ⟨hσ, hheap⟩ := hold huser
    · simpa using htokens
    · by_cases hv : v = u
      · simpa [hv] using htokens
      · simpa [hv, hheap] using h.tokens_le hσ

/-- An owner has a user for itself, and the active users are those of the exports that
were not released, one for each owner. -/
structure Sound (σ : ExportLimiter Owner) : Prop where
  users_lt : ∀ {o v}, σ.users o = some v → v < σ.next
  injective : ∀ {o o' v}, σ.users o = some v → σ.users o' = some v → o = o'
  done_lt : ∀ {n}, σ.done n = true → n < σ.exports.length
  active : ∀ {n f}, σ.Active n f → σ.users f.owner = some f.user ∧ (σ.heap f.user).active = true
  single : ∀ {n m f g}, σ.Active n f → σ.Active m g → f.owner = g.owner → n = m
  busy : ∀ {o v}, σ.users o = some v → (σ.heap v).active = true →
    ∃ n f, σ.Active n f ∧ f.owner = o

theorem Entered.active_iff {n : Nat} {f : ReleaseFunc Owner} (hτ : Entered σ owner u τ) :
    τ.Active n f ↔ σ.Active n f := by
  unfold Active
  rw [hτ.exports, hτ.done]

theorem Sound.entered (h : Sound σ) (hτ : Entered σ owner u τ) : Sound τ := by
  have hnew : ∀ {o v}, τ.users o = some v → v = u → o = owner := by
    intro o v huser hv
    subst hv
    by_contra howner
    obtain hsame | ⟨hnone, -⟩ := hτ.others o howner
    · rw [huser] at hsame
      obtain ⟨hold, -⟩ | ⟨rfl, -⟩ := hτ.user
      · exact howner (h.injective hsame.symm hold)
      · exact absurd (h.users_lt hsame.symm) (lt_irrefl _)
    · rw [huser] at hnone
      cases hnone
  constructor
  · intro o v huser
    by_cases hv : v = u
    · obtain ⟨hold, -, hnext⟩ | ⟨rfl, -, hnext, -⟩ := hτ.user
      · rw [hnext, hv]
        exact h.users_lt hold
      · omega
    · have hlt := h.users_lt (hτ.old huser hv).1
      obtain ⟨-, -, hnext⟩ | ⟨-, -, hnext, -⟩ := hτ.user
      · omega
      · omega
  · intro o o' v huser huser'
    by_cases hv : v = u
    · rw [hnew huser hv, hnew huser' hv]
    · exact h.injective (hτ.old huser hv).1 (hτ.old huser' hv).1
  · intro n hn
    rw [hτ.done] at hn
    rw [hτ.exports]
    exact h.done_lt hn
  · intro n f hf
    obtain ⟨huser, hactive⟩ := h.active (hτ.active_iff.mp hf)
    by_cases howner : f.owner = owner
    · subst howner
      obtain ⟨hold, hheap, -⟩ | ⟨-, -, -, hnone | ⟨v, hv, hidle, -⟩⟩ := hτ.user
      · obtain rfl := Option.some.inj (huser.symm.trans hold)
        rw [hheap]
        exact ⟨hτ.mine, hactive⟩
      · rw [huser] at hnone
        cases hnone
      · obtain rfl := Option.some.inj (huser.symm.trans hv)
        rw [hactive] at hidle
        cases hidle
    · obtain hsame | ⟨-, v, hv, hidle, -⟩ := hτ.others f.owner howner
      · rw [huser] at hsame
        have hu : f.user ≠ u := fun heq => howner (hnew hsame heq)
        rw [(hτ.old hsame hu).2]
        exact ⟨hsame, hactive⟩
      · obtain rfl := Option.some.inj (huser.symm.trans hv)
        rw [hactive] at hidle
        cases hidle
  · intro n m f g hf hg
    exact h.single (hτ.active_iff.mp hf) (hτ.active_iff.mp hg)
  · intro o v huser hactive
    have hold : σ.users o = some v ∧ (σ.heap v).active = true := by
      by_cases hv : v = u
      · obtain rfl := hnew huser hv
        obtain ⟨hold, hheap, -⟩ | ⟨hnext, hheap, -⟩ := hτ.user
        · rw [hv]
          rw [hv, hheap] at hactive
          exact ⟨hold, hactive⟩
        · rw [hv, hheap, hnext, Function.update_self] at hactive
          cases hactive
      · obtain ⟨hσ, hheap⟩ := hτ.old huser hv
        rw [hheap] at hactive
        exact ⟨hσ, hactive⟩
    obtain ⟨n, f, hf, howner⟩ := h.busy hold.1 hold.2
    exact ⟨n, f, hτ.active_iff.mpr hf, howner⟩

theorem Sound.update {r : ExportUser} (h : Sound σ) (hr : r.active = (σ.heap u).active) :
    Sound { σ with heap := Function.update σ.heap u r } := by
  have hsame : ∀ v, (Function.update σ.heap u r v).active = (σ.heap v).active := by
    intro v
    by_cases hv : v = u
    · rw [hv, Function.update_self, hr]
    · rw [Function.update_of_ne hv]
  constructor
  · exact h.users_lt
  · exact h.injective
  · exact h.done_lt
  · intro n f hf
    obtain ⟨huser, hactive⟩ := h.active hf
    exact ⟨huser, (hsame f.user).trans hactive⟩
  · exact h.single
  · intro o v huser hactive
    exact h.busy huser ((hsame v).symm.trans hactive)

theorem active_snoc {f g : ReleaseFunc Owner} {m : Nat} (hσ : Sound σ)
    {heap : Nat → ExportUser} :
    ({ σ with heap := heap, exports := σ.exports ++ [f] } : ExportLimiter Owner).Active m g ↔
      σ.Active m g ∨ m = σ.exports.length ∧ g = f := by
  unfold Active
  dsimp only
  rw [List.getElem?_append]
  have hfresh : σ.done σ.exports.length = false := by
    rw [Bool.eq_false_iff]
    exact fun hdone => lt_irrefl _ (hσ.done_lt hdone)
  split_ifs with hm
  · constructor
    · exact Or.inl
    · rintro (h | ⟨rfl, -⟩)
      · exact h
      · exact absurd hm (lt_irrefl _)
  · have hnone : σ.exports[m]? = none := List.getElem?_eq_none (not_lt.mp hm)
    rw [hnone, List.getElem?_singleton]
    split_ifs with hlast
    · have hm' : m = σ.exports.length := by omega
      subst hm'
      simp [hfresh, eq_comm]
    · simp
      omega

theorem Sound.start {r : ExportUser} (h : Sound σ) (huser : σ.users owner = some u)
    (hidle : (σ.heap u).active = false) (hr : r.active = true) :
    Sound { σ with
      heap := Function.update σ.heap u r, exports := σ.exports ++ [⟨owner, u⟩] } := by
  have hnone : ∀ {n f}, σ.Active n f → f.owner ≠ owner := by
    intro n f hf howner
    obtain ⟨hown, hactive⟩ := h.active hf
    rw [howner, huser] at hown
    obtain rfl := Option.some.inj hown
    rw [hidle] at hactive
    cases hactive
  constructor
  · exact h.users_lt
  · exact h.injective
  · intro n hn
    have hlt := h.done_lt hn
    rw [List.length_append]
    omega
  · intro n f hf
    obtain hf | ⟨rfl, rfl⟩ := (active_snoc h).mp hf
    · obtain ⟨hown, hactive⟩ := h.active hf
      refine ⟨hown, ?_⟩
      have hne : f.user ≠ u := by
        rintro heq
        rw [heq] at hown
        exact hnone hf (h.injective hown huser)
      dsimp only
      rw [Function.update_of_ne hne]
      exact hactive
    · dsimp only
      rw [Function.update_self]
      exact ⟨huser, hr⟩
  · intro n m f g hf hg howner
    obtain hf | ⟨rfl, rfl⟩ := (active_snoc h).mp hf
    · obtain hg | ⟨rfl, rfl⟩ := (active_snoc h).mp hg
      · exact h.single hf hg howner
      · exact absurd howner (hnone hf)
    · obtain hg | ⟨rfl, rfl⟩ := (active_snoc h).mp hg
      · exact absurd howner.symm (hnone hg)
      · rfl
  · intro o v hv hactive
    dsimp only at hv hactive
    by_cases heq : v = u
    · rw [heq] at hv
      obtain rfl := h.injective hv huser
      exact ⟨σ.exports.length, _, (active_snoc h).mpr (Or.inr ⟨rfl, rfl⟩), rfl⟩
    · rw [Function.update_of_ne heq] at hactive
      obtain ⟨n, f, hf, hown⟩ := h.busy hv hactive
      exact ⟨n, f, (active_snoc h).mpr (Or.inl hf), hown⟩

theorem active_release {g : ReleaseFunc Owner} {m : Nat} {heap : Nat → ExportUser} :
    ({ σ with done := Function.update σ.done n true, heap := heap } : ExportLimiter Owner).Active
      m g ↔ σ.Active m g ∧ m ≠ n := by
  unfold Active
  by_cases hm : m = n
  · simp [hm]
  · simp [hm]

theorem Sound.release {f : ReleaseFunc Owner} {r : ExportUser} (h : Sound σ) (hf : σ.Active n f)
    (hr : r.active = false) :
    Sound { σ with
      done := Function.update σ.done n true, heap := Function.update σ.heap f.user r } := by
  constructor
  · exact h.users_lt
  · exact h.injective
  · intro m hm
    by_cases heq : m = n
    · rw [heq]
      exact (List.getElem?_eq_some_iff.mp hf.1).1
    · dsimp only at hm
      rw [Function.update_of_ne heq] at hm
      exact h.done_lt hm
  · intro m g hg
    obtain ⟨hg, hne⟩ := active_release.mp hg
    obtain ⟨hown, hactive⟩ := h.active hg
    refine ⟨hown, ?_⟩
    have huser : g.user ≠ f.user := by
      intro heq
      rw [heq] at hown
      exact hne (h.single hg hf (h.injective hown (h.active hf).1))
    dsimp only
    rw [Function.update_of_ne huser]
    exact hactive
  · intro m k g g' hg hg' howner
    exact h.single (active_release.mp hg).1 (active_release.mp hg').1 howner
  · intro o v hv hactive
    dsimp only at hv hactive
    have hne : v ≠ f.user := by
      intro heq
      rw [heq, Function.update_self, hr] at hactive
      cases hactive
    rw [Function.update_of_ne hne] at hactive
    obtain ⟨m, g, hg, hown⟩ := h.busy hv hactive
    refine ⟨m, g, active_release.mpr ⟨hg, ?_⟩, hown⟩
    rintro rfl
    have hsame : g = f := Option.some.inj (hg.1.symm.trans hf.1)
    rw [← hown, hsame] at hv
    exact hne (Option.some.inj (hv.symm.trans (h.active hf).1))

end Invariants

section Steps

theorem Timed.step (h : Timed σ) (hstep : σ.step e = some (a, σ')) : Timed σ' := by
  cases stepped h hstep with
  | ticked clock hclock =>
    exact ⟨h.clock_pos.trans_le hclock, h.last_pos, fun hv => (h.last_le hv).trans hclock,
      fun hv => (h.seen_le hv).trans hclock, h.tokens_le⟩
  | busy owner u τ hτ hactive =>
    exact h.acquired hτ (refill_last (h.entered_last hτ)) rfl (h.filled_le hτ)
  | early owner u τ hτ hactive hlow =>
    exact h.acquired hτ (refill_last (h.entered_last hτ)) rfl (h.filled_le hτ)
  | started owner u τ hτ hactive hfull =>
    have hle := h.filled_le hτ
    obtain ⟨hpos, hlast_pos, hlast, hseen, htokens⟩ := h.acquired hτ
      (r := ⟨{ (τ.heap u).bucket.refill σ.clock (1 / 300) 1 with
        tokens := ((τ.heap u).bucket.refill σ.clock (1 / 300) 1).tokens - 1 }, true, σ.clock⟩)
      (refill_last (h.entered_last hτ)) rfl (by dsimp only; linarith)
    exact ⟨hpos, hlast_pos, hlast, hseen, htokens⟩
  | released n f hf =>
    have hkept : ∀ v, (Function.update σ.heap f.user
        { σ.heap f.user with active := false, seen := σ.clock } v).bucket = (σ.heap v).bucket := by
      intro v
      by_cases hv : v = f.user
      · rw [hv, Function.update_self]
      · rw [Function.update_of_ne hv]
    constructor
    · exact h.clock_pos
    · intro o v hv
      dsimp only
      rw [hkept]
      exact h.last_pos hv
    · intro o v hv
      dsimp only
      rw [hkept]
      exact h.last_le hv
    · intro o v hv
      by_cases heq : v = f.user
      · simp [heq]
      · simpa [heq] using h.seen_le hv
    · intro o v hv
      dsimp only
      rw [hkept]
      exact h.tokens_le hv
  | again n hdone => exact h

theorem Sound.step (h : Sound σ) (hσ : Timed σ) (hstep : σ.step e = some (a, σ')) :
    Sound σ' := by
  cases stepped hσ hstep with
  | ticked clock hclock => exact ⟨h.users_lt, h.injective, h.done_lt, h.active, h.single, h.busy⟩
  | busy owner u τ hτ hactive => exact (h.entered hτ).update hactive.symm
  | early owner u τ hτ hactive hlow => exact (h.entered hτ).update hactive.symm
  | started owner u τ hτ hactive hfull =>
    rw [← hτ.exports]
    exact (h.entered hτ).start hτ.mine hactive rfl
  | released n f hf => exact h.release hf rfl
  | again n hdone => exact h

end Steps

section Rest

def startedAt (owner : Owner) (x : Entry (ExportLimiter Owner) (ExportEvent Owner) ExportAnswer) :
    Option ℚ :=
  match x.event, x.response with
  | .acquire o, .started _ => if o = owner then some x.before.clock else none
  | _, _ => none

def starts (owner : Owner)
    (t : List (Entry (ExportLimiter Owner) (ExportEvent Owner) ExportAnswer)) : List ℚ :=
  t.filterMap (startedAt owner)

/-- Since a start of an owner its bucket has gained what it holds, and an owner without a
user has rested. -/
structure Rested (begun : Owner → List ℚ) (σ : ExportLimiter Owner) : Prop where
  gained : ∀ {o v s}, s ∈ begun o → σ.users o = some v →
    (σ.heap v).bucket.tokens ≤ ((σ.heap v).bucket.last - s) * (1 / 300) ∧ s ≤ (σ.heap v).seen
  gone : ∀ {o s}, s ∈ begun o → σ.users o = none → 300 ≤ σ.clock - s

omit [DecidableEq Owner]

variable {begun : Owner → List ℚ}

theorem Rested.idle {o : Owner} {v : Nat} {s : ℚ} (h : Rested begun σ) (hs : s ∈ begun o)
    (huser : σ.users o = some v) (hidle : σ.Idle v) : 300 ≤ σ.clock - s := by
  have hseen := (h.gained hs huser).2
  have hpast := hidle.2
  linarith

theorem Rested.filled {s : ℚ} (h : Rested begun σ) (hσ : Timed σ) (hτ : Entered σ owner u τ)
    (hs : s ∈ begun owner) :
    ((τ.heap u).bucket.refill σ.clock (1 / 300) 1).tokens ≤
      (((τ.heap u).bucket.refill σ.clock (1 / 300) 1).last - s) * (1 / 300) := by
  rw [refill_last (hσ.entered_last hτ)]
  obtain ⟨hold, hheap, -⟩ | ⟨-, -, -, hgone⟩ := hτ.user
  · rw [hheap]
    exact refill_gained (hσ.last_pos hold) (hσ.last_le hold) (h.gained hs hold).1
  · have hrest : 300 ≤ σ.clock - s := by
      obtain hnone | ⟨v, hv, hidle⟩ := hgone
      · exact h.gone hs hnone
      · exact h.idle hs hv hidle
    have hle := hσ.filled_le hτ
    linarith

theorem Rested.acquired {r : ExportUser} (h : Rested begun σ) (hsound : Sound σ)
    (hτ : Entered σ owner u τ) (hseen : r.seen = σ.clock)
    (hpast : ∀ {s}, s ∈ begun owner → s ≤ σ.clock)
    (hr : ∀ {s}, s ∈ begun owner → r.bucket.tokens ≤ (r.bucket.last - s) * (1 / 300)) :
    Rested begun { τ with heap := Function.update τ.heap u r } := by
  have hinjective : ∀ {o v}, τ.users o = some v → o ≠ owner → v ≠ u := by
    intro o v huser howner heq
    rw [heq] at huser
    exact howner ((hsound.entered hτ).injective huser hτ.mine)
  constructor
  · intro o v s hs huser
    dsimp only at huser ⊢
    by_cases howner : o = owner
    · subst howner
      obtain rfl := Option.some.inj (hτ.mine.symm.trans huser)
      rw [Function.update_self, hseen]
      exact ⟨hr hs, hpast hs⟩
    · have hne := hinjective huser howner
      obtain ⟨hold, hheap⟩ := hτ.old huser hne
      rw [Function.update_of_ne hne, hheap]
      exact h.gained hs hold
  · intro o s hs hnone
    dsimp only at hnone ⊢
    rw [hτ.clock]
    by_cases howner : o = owner
    · subst howner
      rw [hτ.mine] at hnone
      cases hnone
    · obtain hsame | ⟨-, v, hv, hidle⟩ := hτ.others o howner
      · exact h.gone hs (hsame.symm.trans hnone)
      · exact h.idle hs hv hidle

theorem Rested.start {heap : Nat → ExportUser} {exports : List (ReleaseFunc Owner)}
    {later : Owner → List ℚ} {now : ℚ}
    (h : Rested begun { τ with heap := heap })
    (hmine : τ.users owner = some u) (hlast : (heap u).bucket.last = now)
    (hseen : (heap u).seen = now) (hempty : (heap u).bucket.tokens ≤ 0)
    (hlater : ∀ {o s}, s ∈ later o → s ∈ begun o ∨ o = owner ∧ s = now) :
    Rested later { τ with heap := heap, exports := exports } := by
  constructor
  · intro o v s hs huser
    obtain hs | ⟨rfl, rfl⟩ := hlater hs
    · exact h.gained hs huser
    · obtain rfl := Option.some.inj (hmine.symm.trans huser)
      dsimp only
      rw [hlast, hseen, sub_self, zero_mul]
      exact ⟨hempty, le_rfl⟩
  · intro o s hs hnone
    obtain hs | ⟨rfl, -⟩ := hlater hs
    · exact h.gone hs hnone
    · dsimp only at hnone
      rw [hmine] at hnone
      cases hnone

end Rest

section Runs

variable {t v w : List (Entry (ExportLimiter Owner) (ExportEvent Owner) ExportAnswer)}
  {x : Entry (ExportLimiter Owner) (ExportEvent Owner) ExportAnswer}

theorem starts_snoc : starts owner (t ++ [x]) = starts owner t ++ (startedAt owner x).toList := by
  rw [starts, List.filterMap_append, starts]
  cases h : startedAt owner x <;> simp [h]

theorem startedAt_started {o : Owner} :
    startedAt o ⟨σ, .acquire owner, .started n, σ'⟩ = if owner = o then some σ.clock else none :=
  rfl

structure Spaced (t : List (Entry (ExportLimiter Owner) (ExportEvent Owner) ExportAnswer))
    (σ : ExportLimiter Owner) : Prop where
  timed : Timed σ
  sound : Sound σ
  rested : Rested (fun o => starts o t) σ
  past : ∀ {o s}, s ∈ starts o t → s ≤ σ.clock
  paced : ∀ o, (starts o t).Pairwise fun s s' => s + 300 ≤ s'

theorem spaced_start (hclock : 0 < clock) : Spaced [] (start clock : ExportLimiter Owner) where
  timed := ⟨hclock, nofun, nofun, nofun, nofun⟩
  sound := ⟨nofun, nofun, nofun, nofun, nofun, nofun⟩
  rested := ⟨nofun, nofun⟩
  past := nofun
  paced _ := List.Pairwise.nil

theorem Spaced.quiet (h : Spaced t σ) (hstep : σ.step e = some (a, σ'))
    (hnone : ∀ o, startedAt o ⟨σ, e, a, σ'⟩ = none) (hclock : σ.clock ≤ σ'.clock)
    (hrested : Rested (fun o => starts o t) σ') : Spaced (t ++ [⟨σ, e, a, σ'⟩]) σ' := by
  have hsame : ∀ o, starts o (t ++ [⟨σ, e, a, σ'⟩]) = starts o t := by
    intro o
    rw [starts_snoc, hnone, Option.toList_none, List.append_nil]
  refine ⟨h.timed.step hstep, h.sound.step h.timed hstep, ?_, ?_, ?_⟩
  · simpa only [hsame] using hrested
  · intro o s hs
    rw [hsame] at hs
    exact (h.past hs).trans hclock
  · intro o
    rw [hsame]
    exact h.paced o

/-- A start has a whole token, so the owner's last start is five minutes ago. -/
theorem Spaced.begin {r : ExportUser} {exports : List (ReleaseFunc Owner)} (h : Spaced t σ)
    (hτ : Entered σ owner u τ)
    (hstep : σ.step (.acquire owner) = some (.started n,
      { τ with heap := Function.update τ.heap u r, exports := exports }))
    (hfull : 1 ≤ ((τ.heap u).bucket.refill σ.clock (1 / 300) 1).tokens)
    (hr : r.bucket = { (τ.heap u).bucket.refill σ.clock (1 / 300) 1 with
      tokens := ((τ.heap u).bucket.refill σ.clock (1 / 300) 1).tokens - 1 })
    (hseen : r.seen = σ.clock) :
    Spaced (t ++ [⟨σ, .acquire owner, .started n,
      { τ with heap := Function.update τ.heap u r, exports := exports }⟩])
      { τ with heap := Function.update τ.heap u r, exports := exports } := by
  have hle := h.timed.filled_le hτ
  have hlast : ((τ.heap u).bucket.refill σ.clock (1 / 300) 1).last = σ.clock :=
    refill_last (h.timed.entered_last hτ)
  have hrlast : r.bucket.last = σ.clock := by
    rw [hr]
    exact hlast
  have hempty : r.bucket.tokens ≤ 0 := by
    rw [hr]
    dsimp only
    linarith
  have hrested : Rested (fun o => starts o t) { τ with heap := Function.update τ.heap u r } := by
    refine h.rested.acquired h.sound hτ hseen h.past fun hs => ?_
    have hfilled := h.rested.filled h.timed hτ hs
    rw [hr]
    dsimp only
    linarith
  have hstarts : ∀ o, starts o (t ++ [⟨σ, .acquire owner, .started n,
      { τ with heap := Function.update τ.heap u r, exports := exports }⟩]) =
        starts o t ++ if owner = o then [σ.clock] else [] := by
    intro o
    rw [starts_snoc, startedAt_started]
    by_cases howner : owner = o
    · rw [if_pos howner, if_pos howner]
      rfl
    · rw [if_neg howner, if_neg howner]
      rfl
  have hlater : ∀ {o s}, s ∈ starts o t ++ (if owner = o then [σ.clock] else []) →
      s ∈ starts o t ∨ o = owner ∧ s = σ.clock := by
    intro o s hs
    obtain hs | hs := List.mem_append.mp hs
    · exact Or.inl hs
    · split_ifs at hs with howner
      · exact Or.inr ⟨howner.symm, List.mem_singleton.mp hs⟩
      · cases hs
  have hself : Function.update τ.heap u r u = r := Function.update_self _ _ _
  refine ⟨h.timed.step hstep, h.sound.step h.timed hstep, ?_, ?_, ?_⟩
  · have hbegun : ∀ {o s}, s ∈ starts o (t ++ [⟨σ, .acquire owner, .started n,
        { τ with heap := Function.update τ.heap u r, exports := exports }⟩]) →
        s ∈ starts o t ∨ o = owner ∧ s = σ.clock := by
      intro o s hs
      rw [hstarts] at hs
      exact hlater hs
    exact hrested.start hτ.mine (hself.symm ▸ hrlast) (hself.symm ▸ hseen) (hself.symm ▸ hempty)
      hbegun
  · intro o s hs
    rw [hstarts] at hs
    dsimp only
    rw [hτ.clock]
    obtain hs | ⟨-, rfl⟩ := hlater hs
    · exact h.past hs
    · exact le_rfl
  · intro o
    rw [hstarts]
    split_ifs with howner
    · subst howner
      refine List.pairwise_append.mpr ⟨h.paced owner, List.pairwise_singleton _ _, ?_⟩
      intro s hs s' hs'
      rw [List.mem_singleton.mp hs']
      have hfilled := h.rested.filled h.timed hτ hs
      rw [hlast] at hfilled
      linarith
    · rw [List.append_nil]
      exact h.paced o

theorem Spaced.step (h : Spaced t σ) (hstep : σ.step e = some (a, σ')) :
    Spaced (t ++ [⟨σ, e, a, σ'⟩]) σ' := by
  cases stepped h.timed hstep with
  | ticked clock hclock =>
    refine h.quiet hstep (fun _ => rfl) hclock ⟨h.rested.gained, ?_⟩
    intro o s hs hnone
    have hgone := h.rested.gone hs hnone
    dsimp only
    linarith
  | busy owner u τ hτ hactive =>
    refine h.quiet hstep (fun _ => rfl) hτ.clock.ge ?_
    exact h.rested.acquired h.sound hτ rfl h.past fun hs => h.rested.filled h.timed hτ hs
  | early owner u τ hτ hactive hlow =>
    refine h.quiet hstep (fun _ => rfl) hτ.clock.ge ?_
    exact h.rested.acquired h.sound hτ rfl h.past fun hs => h.rested.filled h.timed hτ hs
  | started owner u τ hτ hactive hfull =>
    exact h.begin hτ hstep hfull rfl rfl
  | released n f hf =>
    refine h.quiet hstep (fun _ => rfl) le_rfl ⟨?_, h.rested.gone⟩
    intro o v s hs huser
    obtain ⟨htokens, hseen⟩ := h.rested.gained hs huser
    by_cases hv : v = f.user
    · subst hv
      dsimp only
      rw [Function.update_self]
      exact ⟨htokens, h.past hs⟩
    · dsimp only
      rw [Function.update_of_ne hv]
      exact ⟨htokens, hseen⟩
  | again n hdone => exact h.quiet hstep (fun _ => rfl) le_rfl h.rested

theorem run_spaced (h : Run step (start clock) t σ) (hclock : 0 < clock) : Spaced t σ := by
  induction h with
  | nil => exact spaced_start hclock
  | snoc _ hlast ih => exact ih.step hlast

def Ready (owner : Owner) (full : ℚ) (σ : ExportLimiter Owner) : Prop :=
  ∀ v, σ.users owner = some v →
    (σ.heap v).active = false ∧ ReadyAt (1 / 300) full (σ.heap v).bucket

omit [DecidableEq Owner] in
theorem Entered.ready {full : ℚ} (hτ : Entered σ owner u τ) (h : Ready owner full σ)
    (hσ : Timed σ) :
    (τ.heap u).active = false ∧
      ReadyAt (1 / 300) full ((τ.heap u).bucket.refill σ.clock (1 / 300) 1) := by
  obtain ⟨hold, hheap, -⟩ | ⟨rfl, hheap, -⟩ := hτ.user
  · obtain ⟨hactive, hready⟩ := h u hold
    rw [hheap]
    exact ⟨hactive, hready.refill (by norm_num) (hσ.last_pos hold)⟩
  · rw [hheap, Function.update_self]
    refine ⟨rfl, Or.inl ?_⟩
    norm_num [ExportUser.new, TokenBucket.refill]

theorem Ready.step {full : ℚ} (h : Ready owner full σ) (hσ : Timed σ) (hsound : Sound σ)
    (hstep : σ.step e = some (a, σ')) (hnone : startedAt owner ⟨σ, e, a, σ'⟩ = none) :
    Ready owner full σ' := by
  have hother : ∀ {o u v τ} {r : ExportUser}, Entered σ o u τ → o ≠ owner →
      τ.users owner = some v → (Function.update τ.heap u r v).active = false ∧
        ReadyAt (1 / 300) full (Function.update τ.heap u r v).bucket := by
    intro o u v τ r hτ ho hv
    have hne : v ≠ u := by
      rintro rfl
      exact ho ((hsound.entered hτ).injective hτ.mine hv)
    obtain ⟨hold, hheap⟩ := hτ.old hv hne
    rw [Function.update_of_ne hne, hheap]
    exact h v hold
  intro v hv
  cases stepped hσ hstep with
  | ticked clock hclock => exact h v hv
  | busy o u τ hτ hactive =>
    by_cases ho : o = owner
    · subst ho
      exact absurd ((hτ.ready h hσ).1.symm.trans hactive) (by decide)
    · exact hother hτ ho hv
  | early o u τ hτ hactive hlow =>
    by_cases ho : o = owner
    · subst ho
      obtain rfl := Option.some.inj (hτ.mine.symm.trans hv)
      dsimp only
      rw [Function.update_self]
      exact ⟨rfl, (hτ.ready h hσ).2⟩
    · exact hother hτ ho hv
  | started o u τ hτ hactive hfull =>
    by_cases ho : o = owner
    · subst ho
      rw [startedAt_started, if_pos rfl] at hnone
      cases hnone
    · exact hother hτ ho hv
  | released n f hf =>
    obtain ⟨hactive, hready⟩ := h v hv
    have hne : v ≠ f.user := by
      rintro rfl
      exact absurd (hactive.symm.trans (hsound.active hf).2) (by decide)
    dsimp only
    rw [Function.update_of_ne hne]
    exact ⟨hactive, hready⟩
  | again n hdone => exact h v hv

theorem Ready.run {full : ℚ} (h : Ready owner full σ) (hσ : Timed σ) (hsound : Sound σ)
    (hrun : Run ExportLimiter.step σ w τ) (hnone : ∀ y ∈ w, startedAt owner y = none) :
    Timed τ ∧ Ready owner full τ := by
  suffices hall : Timed τ ∧ Sound τ ∧ Ready owner full τ from ⟨hall.1, hall.2.2⟩
  induction hrun with
  | nil => exact ⟨hσ, hsound, h⟩
  | snoc _ hlast ih =>
    obtain ⟨htimed, hkept, hready⟩ := ih fun y hy => hnone y (List.mem_append_left _ hy)
    have hquiet := hnone _ (List.mem_append_right _ (List.mem_singleton_self _))
    exact ⟨htimed.step hlast, hkept.step htimed hlast, hready.step htimed hkept hlast hquiet⟩

theorem Ready.starts {full : ℚ} (h : Ready owner full σ) (hσ : Timed σ) (hfull : full ≤ σ.clock) :
    ∃ n σ', σ.step (.acquire owner) = some (.started n, σ') := by
  have hstep : σ.step (.acquire owner) = some ((σ.acquire owner).1, (σ.acquire owner).2) := rfl
  generalize (σ.acquire owner).1 = a at hstep
  generalize (σ.acquire owner).2 = σ' at hstep
  cases stepped hσ hstep with
  | busy _ u τ hτ hactive => exact absurd ((hτ.ready h hσ).1.symm.trans hactive) (by decide)
  | early _ u τ hτ hactive hlow =>
    have hready := (hτ.ready h hσ).2
    obtain hone | hone := hready
    · exact absurd hone (not_le.mpr hlow)
    · rw [refill_last (hσ.entered_last hτ)] at hone
      linarith
  | started _ u τ hτ hactive hfull => exact ⟨_, _, hstep⟩

/-- After a refusal for the rate the owner can start again when the wait is over. -/
theorem ready_of_refused {wait : ℚ} (hσ : Timed σ) (hsound : Sound σ)
    (hstep : σ.step (.acquire owner) = some (.refused wait, σ'))
    (hidle : ∀ n f, σ.Active n f → f.owner ≠ owner) : Ready owner (σ.clock + wait) σ' := by
  intro v hv
  cases stepped hσ hstep with
  | busy _ u τ hτ hactive =>
    obtain ⟨n, f, hf, howner⟩ := (hsound.entered hτ).busy hτ.mine hactive
    exact absurd howner (hidle n f (hτ.active_iff.mp hf))
  | early _ u τ hτ hactive hlow =>
    obtain rfl := Option.some.inj (hτ.mine.symm.trans hv)
    dsimp only
    rw [Function.update_self]
    refine ⟨rfl, Or.inr ?_⟩
    dsimp only
    rw [refill_last (hσ.entered_last hτ)]
    linarith

/-- At every moment an owner has at most one active export, and the limiter holds its
active user; the owner's starts are five minutes apart; a release ends its own export
once and no other; and an owner that was refused for the rate, and starts no export in
between, can start one when the wait is over. -/
theorem export_limited (h : Run step (start clock) t σ) (hclock : 0 < clock) :
    (∀ n m f g, σ.Active n f → σ.Active m g → f.owner = g.owner → n = m) ∧
      (∀ n f, σ.Active n f →
        ∃ u, σ.users f.owner = some u ∧ (σ.heap u).active = true) ∧
      (∀ owner, (starts owner t).Pairwise fun s s' => s + 300 ≤ s') ∧
      (∀ x ∈ t, ∀ n, x.event = .release n → (x.before.done n = true → x.after = x.before) ∧
        ∀ m f, m ≠ n → (x.after.Active m f ↔ x.before.Active m f)) ∧
      ∀ v x w owner wait, t = v ++ x :: w → x.event = .acquire owner →
        x.response = .refused wait → (∀ n f, x.before.Active n f → f.owner ≠ owner) →
        (∀ y ∈ w, startedAt owner y = none) → x.before.clock + wait ≤ σ.clock →
        ∃ n σ', σ.step (.acquire owner) = some (.started n, σ') := by
  have hspaced := run_spaced h hclock
  refine ⟨fun n m f g => hspaced.sound.single, ?_, hspaced.paced, ?_, ?_⟩
  · intro n f hf
    exact ⟨f.user, hspaced.sound.active hf⟩
  · intro x hx n hevent
    obtain ⟨v, w, rfl⟩ := List.append_of_mem hx
    obtain ⟨hprior, hstep, -⟩ := h.at_entry
    rw [hevent] at hstep
    generalize x.response = a at hstep
    generalize x.after = σ' at hstep
    cases stepped (run_spaced hprior hclock).timed hstep with
    | released _ f hf =>
      refine ⟨fun hdone => absurd (hf.2.symm.trans hdone) (by decide), ?_⟩
      intro m g hm
      exact active_release.trans (and_iff_left hm)
    | again _ hdone => exact ⟨fun _ => rfl, fun _ _ _ => Iff.rfl⟩
  · rintro v x w owner wait rfl hevent hresponse hidle hnone hwait
    obtain ⟨hprior, hstep, hrest⟩ := h.at_entry
    have hbefore := run_spaced hprior hclock
    rw [hevent, hresponse] at hstep
    have hready := ready_of_refused hbefore.timed hbefore.sound hstep hidle
    have hafter := hbefore.step hstep
    obtain ⟨htimed, hkept⟩ := hready.run hafter.timed hafter.sound hrest hnone
    exact hkept.starts htimed hwait

def staleEvents : List (ExportEvent Nat) :=
  [.acquire 0, .acquire 0, .release 0, .acquire 0, .tick 700, .acquire 0, .release 0, .acquire 0]

theorem export_limited_stale :
    ∃ t σ, Run step (start 1 : ExportLimiter Nat) t σ ∧ starts 0 t = [1, 700] ∧
      (starts 0 t).Pairwise (fun s s' => s + 300 ≤ s') ∧
      t.map Entry.response = [.started 0, .refused 1, .done, .refused (300 + 1 / 1000), .done,
        .started 1, .done, .refused 1] := by
  obtain ⟨t, σ, hrun, hp⟩ : ∃ t σ, Run step (start 1 : ExportLimiter Nat) t σ ∧
      (starts 0 t == [1, 700] &&
        t.map Entry.response == [.started 0, .refused 1, .done, .refused (300 + 1 / 1000), .done,
          .started 1, .done, .refused 1]) = true :=
    exists_run staleEvents (by decide +kernel)
  simp only [Bool.and_eq_true, beq_iff_eq] at hp
  exact ⟨t, σ, hrun, hp.1, (export_limited hrun (by norm_num)).2.2.1 0, hp.2⟩

end Runs

end ExportLimiter

end Noted.Export
