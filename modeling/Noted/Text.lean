import Mathlib
import Noted.Library.Words

/-!
# Strings of the API and of the web app

A Go string and a JavaScript string that hold valid Unicode are both lists of
code points here. `byteLen` is Go's `len`. The two languages trim white space by
their own definitions: Go's `unicode.IsSpace` has U+0085 and JavaScript's
`WhiteSpace` has U+FEFF, and they agree on every other character.
-/

namespace Noted

open Library.Words

abbrev Text := List Char

instance : LawfulBEq Text := inferInstance

/-- `len(s)`: the bytes of the UTF-8 form. -/
def byteLen (t : Text) : Nat := (t.map Char.utf8Size).sum

def nextLine : Char := Char.ofNat 0x85

def byteOrderMark : Char := Char.ofNat 0xFEFF

/-- The white space both languages trim. -/
def sharedSpace (c : Char) : Bool :=
  let n := c.toNat
  (9 ≤ n && n ≤ 13) || n == 0x20 || n == 0xA0 || n == 0x1680 || (0x2000 ≤ n && n ≤ 0x200A) ||
    n == 0x2028 || n == 0x2029 || n == 0x202F || n == 0x205F || n == 0x3000

def goSpace (c : Char) : Bool := sharedSpace c || c == nextLine

def jsSpace (c : Char) : Bool := sharedSpace c || c == byteOrderMark

def trimBy {α : Type} (p : α → Bool) (t : List α) : List α := (t.dropWhile p).rdropWhile p

def trimSpace (t : Text) : Text := trimBy goSpace t

def jsTrim (t : Text) : Text := trimBy jsSpace t

def fields (t : Text) : List Text := tokens goSpace t

def contains (t part : Text) : Bool := t.tails.any (part.isPrefixOf ·)

/-- `strings.NewReplacer(old, new, …).Replace`: at each position the first pair
whose old text starts there; the counter skips the rest of a replaced text. -/
def replaceFrom (pairs : List (Text × Text)) : Nat → Text → Text
  | _, [] => []
  | skip + 1, _ :: cs => replaceFrom pairs skip cs
  | 0, c :: cs =>
    match pairs.find? (fun p => p.1.isPrefixOf (c :: cs)) with
    | some p => p.2 ++ replaceFrom pairs (p.1.length - 1) cs
    | none => c :: replaceFrom pairs 0 cs

def newReplacer (pairs : List (Text × Text)) (t : Text) : Text := replaceFrom pairs 0 t

theorem toLower_cases (c : Char) :
    c.toLower = c ∨ 65 ≤ c.toNat ∧ c.toNat ≤ 90 ∧ c.toLower.toNat = c.toNat + 32 := by
  unfold Char.toLower
  split
  · rename_i h
    right
    have hval : c.toNat = c.val.toNat := rfl
    simp only [ge_iff_le, UInt32.le_iff_toNat_le] at h
    simp at h
    refine ⟨by omega, by omega, ?_⟩
    change (c.val + _).toNat = _
    rw [UInt32.toNat_add]
    simp
    omega
  · exact Or.inl rfl

theorem contains_iff {t part : Text} : contains t part = true ↔ part <:+: t := by
  simp only [contains, List.any_eq_true, List.mem_tails, List.isPrefixOf_iff_prefix]
  constructor
  · rintro ⟨rest, hsuffix, hprefix⟩
    exact hprefix.isInfix.trans hsuffix.isInfix
  · rintro ⟨before, tail, rfl⟩
    exact ⟨part ++ tail, ⟨before, by simp⟩, List.prefix_append _ _⟩

theorem trimBy_split (p : Char → Bool) (t : Text) : ∃ a b, t = a ++ (trimBy p t ++ b) ∧
    (∀ c ∈ a, p c = true) ∧ ∀ c ∈ b, p c = true := by
  refine ⟨t.takeWhile p, (t.dropWhile p).rtakeWhile p, ?_, ?_, ?_⟩
  · rw [trimBy, List.rdropWhile_append_rtakeWhile, List.takeWhile_append_dropWhile]
  · exact fun c hc => List.mem_takeWhile_imp hc
  · exact fun c hc => List.mem_takeWhile_imp (List.mem_reverse.mp hc)

theorem trimBy_eq_nil {p : Char → Bool} {t : Text} : trimBy p t = [] ↔ ∀ c ∈ t, p c = true := by
  constructor
  · intro h c hc
    have hdrop : ∀ d ∈ t.dropWhile p, p d = true := List.rdropWhile_eq_nil_iff.mp h
    have hnil : t.dropWhile p = [] := by
      cases hd : t.dropWhile p with
      | nil => rfl
      | cons d ds =>
        have hfirst := List.head_dropWhile_not p (by simp [hd] : t.dropWhile p ≠ [])
        simp only [hd, List.head_cons] at hfirst
        simp [hdrop d (by simp [hd])] at hfirst
    exact List.dropWhile_eq_nil_iff.mp hnil c hc
  · intro h
    have hnil : t.dropWhile p = [] := List.dropWhile_eq_nil_iff.mpr h
    simp [trimBy, hnil]

theorem trimBy_eq_self {p : Char → Bool} {t : Text} (hfirst : ∀ c ∈ t.head?, p c = false)
    (hlast : ∀ c ∈ t.getLast?, p c = false) : trimBy p t = t := by
  have hdrop : t.dropWhile p = t := by
    cases t with
    | nil => rfl
    | cons c cs => simp [hfirst c (by simp)]
  rw [trimBy, hdrop, List.rdropWhile_eq_self_iff]
  intro hne
  simp [hlast _ (List.getLast_mem_getLast? hne)]

theorem head?_dropWhile_not {p : Char → Bool} {t : Text} :
    ∀ c ∈ (t.dropWhile p).head?, p c = false := by
  intro c hc
  have h := List.head?_dropWhile_not p t
  rw [Option.mem_def] at hc
  simpa [hc] using h

theorem head?_rdropWhile {p : Char → Bool} {t : Text} (h : ∀ c ∈ t.head?, p c = false) :
    ∀ c ∈ (t.rdropWhile p).head?, p c = false := by
  intro c hc
  cases hd : t.rdropWhile p with
  | nil => simp [hd] at hc
  | cons d ds =>
    have hpre : d :: ds <+: t := hd ▸ List.rdropWhile_prefix p t
    have hcd : c = d := by simpa [hd, eq_comm] using hc
    obtain ⟨rest, hrest⟩ := hpre
    exact h c (by simp [← hrest, hcd])

theorem getLast?_rdropWhile_not {p : Char → Bool} {t : Text} :
    ∀ c ∈ (t.rdropWhile p).getLast?, p c = false := by
  intro c hc
  cases hd : t.rdropWhile p with
  | nil => simp [hd] at hc
  | cons d ds =>
    have hne : t.rdropWhile p ≠ [] := by simp [hd]
    have hlast := List.rdropWhile_last_not p t hne
    rw [Option.mem_def, List.getLast?_eq_getLast_of_ne_nil hne, Option.some_inj] at hc
    simpa [hc] using hlast

@[simp] theorem trimBy_trimBy (p : Char → Bool) (t : Text) : trimBy p (trimBy p t) = trimBy p t :=
  trimBy_eq_self (head?_rdropWhile head?_dropWhile_not) getLast?_rdropWhile_not

@[simp] theorem trimSpace_trimSpace (t : Text) : trimSpace (trimSpace t) = trimSpace t :=
  trimBy_trimBy goSpace t

end Noted
