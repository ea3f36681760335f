import Mathlib.Algebra.Order.Group.Int
import Mathlib.Tactic.NormNum
import Mathlib.Data.Int.Order.Basic

/-!
# 64-bit numbers that wrap

The exact value of a sum, a product or a quotient of signed 64-bit numbers, when it
fits in 64 bits.
-/

namespace Noted.Library.Wrapping

variable {a b : Int64}

def Fits (n : Int) : Prop := -2 ^ 63 ≤ n ∧ n < 2 ^ 63

theorem fits_toInt (a : Int64) : Fits a.toInt := ⟨Int64.le_toInt a, Int64.toInt_lt a⟩

theorem toInt_pos (h : 0 < a) : 0 < a.toInt := Int64.lt_iff_toInt_lt.mp h

theorem pos_of_toInt (h : 0 < a.toInt) : 0 < a := Int64.lt_iff_toInt_lt.mpr h

theorem toInt_min (a b : Int64) : (min a b).toInt = min a.toInt b.toInt := by
  change (if a ≤ b then a else b).toInt = min a.toInt b.toInt
  split_ifs with h
  · rw [min_eq_left (Int64.le_iff_toInt_le.mp h)]
  · rw [min_eq_right (le_of_not_ge fun hle => h (Int64.le_iff_toInt_le.mpr hle))]

theorem toInt_ofInt {n : Int} (h : Fits n) : (Int64.ofInt n).toInt = n :=
  Int64.toInt_ofInt_of_le h.1 h.2

theorem bmod_of_fits {n : Int} (h : Fits n) : n.bmod (2 ^ 64) = n := by
  obtain ⟨hlow, hhigh⟩ := h
  exact Int.bmod_eq_of_le (by omega) (by omega)

theorem toInt_add (h : Fits (a.toInt + b.toInt)) : (a + b).toInt = a.toInt + b.toInt := by
  rw [Int64.toInt_add, bmod_of_fits h]

theorem toInt_mul (h : Fits (a.toInt * b.toInt)) : (a * b).toInt = a.toInt * b.toInt := by
  rw [Int64.toInt_mul, bmod_of_fits h]

theorem toInt_div (ha : 0 ≤ a.toInt) (hb : 0 ≤ b.toInt) : (a / b).toInt = a.toInt / b.toInt := by
  have hfits := fits_toInt a
  have hle : a.toInt / b.toInt ≤ a.toInt := Int.ediv_le_self _ ha
  have hnonneg : 0 ≤ a.toInt / b.toInt := Int.ediv_nonneg ha hb
  rw [Int64.toInt_div, Int.tdiv_eq_ediv_of_nonneg ha]
  exact bmod_of_fits ⟨by omega, hle.trans_lt hfits.2⟩

end Noted.Library.Wrapping
