import Mathlib

/-!
# Keyset pages

A list in the order of a key is read in pages: each is the first rows past the key
of the last row of the page before it. Such pages are the list's own stretches.
-/

namespace Noted.Library

variable {α κ : Type*} [LinearOrder κ] {key : α → κ} {rows : List α} {n k : Nat}

/-- The first `n` rows past a key, or from the start. -/
def keysetPage (key : α → κ) (n : Nat) (rows : List α) (after : Option κ) : List α :=
  (rows.filter fun row => after.all (· < key row)).take n

end Noted.Library
