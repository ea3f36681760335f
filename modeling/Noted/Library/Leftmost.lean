import Mathlib.Data.List.Infix

/-!
# The leftmost match

A search that tries a match at each position of a list from the left, as a regular
expression without an anchor at its start does. It gives what stands before the match,
and what the match reads.
-/

namespace Noted.Library.Leftmost

variable {α β : Type*}

def leftmost (f : List α → Option β) : List α → Option (List α × β)
  | [] => (f []).map fun b => ([], b)
  | a :: as =>
    match f (a :: as) with
    | some b => some ([], b)
    | none => (leftmost f as).map fun m => (a :: m.1, m.2)

variable {f : List α → Option β} {before rest text : List α} {b : β}

theorem leftmost_here (h : f text = some b) : leftmost f text = some ([], b) := by
  cases text with
  | nil => simp [leftmost, h]
  | cons a as => simp [leftmost, h]

theorem leftmost_skip {a : α} {as : List α} (h : f (a :: as) = none) :
    leftmost f (a :: as) = (leftmost f as).map fun m => (a :: m.1, m.2) := by
  simp [leftmost, h]

theorem leftmost_of (hrest : f rest = some b)
    (hnone : ∀ skipped c, before = skipped ++ c → c ≠ [] → f (c ++ rest) = none) :
    leftmost f (before ++ rest) = some (before, b) := by
  induction before with
  | nil => exact leftmost_here hrest
  | cons a as ih =>
    have hhere : f (a :: (as ++ rest)) = none := hnone [] (a :: as) rfl (List.cons_ne_nil a as)
    rw [List.cons_append, leftmost_skip hhere,
      ih fun skipped c hc => hnone (a :: skipped) c (by rw [hc, List.cons_append])]
    rfl

theorem leftmost_le (hrest : f rest = some b) :
    ∃ found c, leftmost f (before ++ rest) = some (found, c) ∧ found <+: before := by
  induction before with
  | nil => exact ⟨[], b, leftmost_here hrest, List.prefix_rfl⟩
  | cons a as ih =>
    obtain ⟨found, c, hfound, hle⟩ := ih
    cases hhere : f (a :: (as ++ rest)) with
    | some d => exact ⟨[], d, leftmost_here hhere, List.nil_prefix⟩
    | none =>
      refine ⟨a :: found, c, ?_, (List.prefix_cons_inj a).mpr hle⟩
      rw [List.cons_append, leftmost_skip hhere, hfound]
      rfl

end Noted.Library.Leftmost
