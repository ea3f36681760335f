import Mathlib.Algebra.Order.Field.Basic
import Mathlib.Data.List.Count
import Mathlib.Tactic.Linarith
import Mathlib.Tactic.FieldSimp
import Mathlib.Tactic.Ring

/-!
# Pacing

A token bucket that may run into debt gives each taker a due time, the moment when
the debt is paid. However the takers arrive, the due times obey the bucket's rate:
in every window at most the burst and what the rate adds are due.
-/

namespace Noted.Library

section Windows

variable {K : Type*} [LinearOrder K]

def within (l : List K) (a b : K) : Nat := l.countP fun x => a ≤ x ∧ x ≤ b

def since (l : List K) (a : K) : Nat := l.countP fun x => a ≤ x

theorem within_append (l l' : List K) (a b : K) :
    within (l ++ l') a b = within l a b + within l' a b := List.countP_append

theorem since_append (l l' : List K) (a : K) : since (l ++ l') a = since l a + since l' a :=
  List.countP_append

theorem within_le_since (l : List K) (a b : K) : within l a b ≤ since l a := by
  apply List.countP_mono_left
  intro x _ hx
  simp only [decide_eq_true_eq] at hx ⊢
  exact hx.1

theorem within_perm {l l' : List K} (h : l.Perm l') (a b : K) : within l a b = within l' a b :=
  h.countP_eq _

end Windows

variable {K : Type*} [Field K] [LinearOrder K] [IsStrictOrderedRing K]
  {burst rate level last now : K} {due : List K}

/-- The due times that a bucket has given out, with its level at a time: they obey the
rate in every window, and those from any time on, with the level, are within what the
bucket can have held since. -/
structure Paced (burst rate level last : K) (due : List K) : Prop where
  window : ∀ a b, a ≤ b → (within due a b : K) ≤ burst + rate * (b - a)
  backlog : ∀ a, since due a = 0 ∨ (since due a : K) + level ≤ burst + rate * (last - a)

namespace Paced

theorem nil (hburst : 0 ≤ burst) (hrate : 0 ≤ rate) : Paced burst rate level last [] where
  window := by
    intro a b hab
    have := mul_nonneg hrate (sub_nonneg.mpr hab)
    simp only [within, List.countP_nil, Nat.cast_zero]
    linarith
  backlog := by
    intro a
    exact Or.inl rfl

theorem refill {level' : K} (h : Paced burst rate level last due)
    (hlevel : level' ≤ level + rate * (now - last)) : Paced burst rate level' now due where
  window := h.window
  backlog := by
    intro a
    obtain hnone | hsome := h.backlog a
    · exact Or.inl hnone
    · right
      linarith

/-- When a token taken now is due. -/
def dueAt (rate level now : K) : K := if level < 1 then now + (1 - level) / rate else now

theorem debt_le (hrate : 0 < rate) : 1 - level ≤ rate * (dueAt rate level now - now) := by
  unfold dueAt
  split_ifs with hlevel
  · field_simp
    linarith
  · have : level ≥ 1 := not_lt.mp hlevel
    linarith

/-- Of a token that is due at `a` or later, a bucket within its burst holds no more
than it can have gained before. -/
theorem level_le {a : K} (hburst : 1 ≤ burst) (hrate : 0 < rate) (hlevel : level ≤ burst)
    (ha : a ≤ dueAt rate level now) : level ≤ burst + rate * (now - a) := by
  obtain hle | hlt := le_or_gt a now
  · have := mul_nonneg hrate.le (sub_nonneg.mpr hle)
    linarith
  · have hdebt : level < 1 := by
      by_contra hfull
      rw [dueAt, if_neg hfull] at ha
      exact absurd ha (not_le.mpr hlt)
    rw [dueAt, if_pos hdebt] at ha
    have hwait : a - now ≤ (1 - level) / rate := by linarith
    have hgain := mul_le_mul_of_nonneg_left hwait hrate.le
    rw [mul_div_cancel₀ _ hrate.ne'] at hgain
    linarith

/-- A token taken now, from a bucket that holds no more than its burst. -/
theorem take (h : Paced burst rate level now due) (hburst : 1 ≤ burst) (hrate : 0 < rate)
    (hlevel : level ≤ burst) :
    Paced burst rate (level - 1) now (due ++ [dueAt rate level now]) := by
  have hbacklog : ∀ a, since (due ++ [dueAt rate level now]) a = 0 ∨
      (since (due ++ [dueAt rate level now]) a : K) + (level - 1) ≤ burst + rate * (now - a) := by
    intro a
    have hlast : since [dueAt rate level now] a = if a ≤ dueAt rate level now then 1 else 0 := by
      simp [since, List.countP_cons]
    rw [since_append, hlast]
    obtain hnone | hsome := h.backlog a
    · rw [hnone]
      split_ifs with ha
      · have hfits := level_le hburst hrate hlevel ha
        right
        push_cast
        linarith
      · exact Or.inl rfl
    · right
      split_ifs with ha
      · push_cast
        linarith
      · push_cast
        linarith
  constructor
  · intro a b hab
    by_cases hin : a ≤ dueAt rate level now ∧ dueAt rate level now ≤ b
    · -- all that is due from `a` on is within the debt of the last taker
      have hle : (within (due ++ [dueAt rate level now]) a b : K) ≤
          since (due ++ [dueAt rate level now]) a := by
        exact_mod_cast within_le_since _ a b
      have hgain := mul_nonneg hrate.le (sub_nonneg.mpr hab)
      have hend : rate * (dueAt rate level now - now) ≤ rate * (b - now) := by
        apply mul_le_mul_of_nonneg_left _ hrate.le
        linarith [hin.2]
      have hdebt : 1 - level ≤ rate * (dueAt rate level now - now) := debt_le hrate
      have hsplit : rate * (b - a) = rate * (b - now) + rate * (now - a) := by ring
      obtain hnone | hsome := hbacklog a
      · rw [hnone, Nat.cast_zero] at hle
        linarith
      · linarith
    · have hlast : within [dueAt rate level now] a b = 0 := by
        simpa [within, List.countP_cons] using hin
      rw [within_append, hlast, Nat.add_zero]
      exact h.window a b hab
  · exact hbacklog

end Paced

end Noted.Library
