import Mathlib.Data.List.Basic
import Mathlib.Tactic.NormNum

/-!
# Numbers in an array of bytes

A number is read at an offset, in either byte order, and a read that does not lie in the
array fails. A part of the array that lies between others is read as it is on its own.
-/

namespace Noted.Library.DataView

/-- The number that bytes write: the highest first, or the lowest when `little`. -/
def number (little : Bool) (bytes : List UInt8) : Nat :=
  (if little then bytes.reverse else bytes).foldl (fun n b => 256 * n + b.toNat) 0

def window (v : List UInt8) (offset size : Nat) : List UInt8 := (v.drop offset).take size

inductive RangeError
  | outsideBounds
  deriving DecidableEq

def getUint (size : Nat) (v : List UInt8) (offset : Nat) (little : Bool) :
    Except RangeError Nat :=
  if offset + size ≤ v.length then .ok (number little (window v offset size))
  else .error .outsideBounds

section Numbers

variable {little : Bool} {a b : List UInt8}

theorem foldr_inj (hlength : a.length = b.length)
    (h : a.foldr (fun c n => 256 * n + c.toNat) 0 = b.foldr (fun c n => 256 * n + c.toNat) 0) :
    a = b := by
  induction a generalizing b with
  | nil => exact (List.length_eq_zero_iff.mp hlength.symm).symm
  | cons c cs ih =>
    cases b with
    | nil => simp at hlength
    | cons d ds =>
      rw [List.foldr_cons, List.foldr_cons] at h
      have hc := c.toNat_lt
      have hd := d.toNat_lt
      have hfirst : c = d := UInt8.toNat_inj.mp (by omega)
      have hrest := ih (Nat.succ.inj hlength) (by omega)
      rw [hfirst, hrest]

theorem number_inj (hlength : a.length = b.length) (h : number little a = number little b) :
    a = b := by
  cases little with
  | false =>
    simp only [number, Bool.false_eq_true, if_false, List.foldl_eq_foldr_reverse] at h
    exact List.reverse_injective (foldr_inj (by simpa using hlength) h)
  | true =>
    simp only [number, if_true, List.foldl_eq_foldr_reverse, List.reverse_reverse] at h
    exact foldr_inj hlength h

end Numbers

section Windows

variable {before part after : List UInt8} {i size : Nat}

theorem length_window {v : List UInt8} (h : i + size ≤ v.length) :
    (window v i size).length = size := by
  rw [window, List.length_take, List.length_drop]
  omega

theorem window_append_right (before v : List UInt8) (i size : Nat) :
    window (before ++ v) (before.length + i) size = window v i size := by
  rw [window, window, List.drop_length_add_append]

theorem window_append_left (h : i + size ≤ part.length) :
    window (part ++ after) i size = window part i size := by
  rw [window, window, List.drop_append_of_le_length (by omega), List.take_append_of_le_length]
  rw [List.length_drop]
  omega

theorem window_part (h : i + size ≤ part.length) :
    window (before ++ (part ++ after)) (before.length + i) size = window part i size := by
  rw [window_append_right, window_append_left h]

end Windows

section Reads

variable {v before part after : List UInt8} {i size offset : Nat} {little : Bool}

theorem getUint_ok (h : offset + size ≤ v.length) :
    getUint size v offset little = .ok (number little (window v offset size)) := if_pos h

theorem getUint_part (h : i + size ≤ part.length) :
    getUint size (before ++ (part ++ after)) (before.length + i) little =
      .ok (number little (window part i size)) := by
  rw [getUint_ok (by simp only [List.length_append]; omega), window_part h]

end Reads

end Noted.Library.DataView
