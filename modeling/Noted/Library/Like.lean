import Mathlib.Data.List.Infix

/-!
# SQL LIKE patterns

A pattern is read once into items, as `LIKE … ESCAPE` does: `%` stands for any
characters, `_` for one, and the escape character makes the next one literal. A
pattern that ends with its escape character is an error (`none`).
-/

namespace Noted.Library.Like

inductive Item
  | any
  | one
  | lit (c : Char)
  deriving DecidableEq

def item (c : Char) : Item := if c = '%' then .any else if c = '_' then .one else .lit c

def items (escape : Char) : List Char → Option (List Item)
  | [] => some []
  | [c] => if c = escape then none else some [item c]
  | c :: d :: ds =>
    if c = escape then (items escape ds).map (.lit d :: ·)
    else (items escape (d :: ds)).map (item c :: ·)

def accepts : List Item → List Char → Bool
  | [], text => text.isEmpty
  | .any :: is, text => text.tails.any (accepts is ·)
  | .one :: is, text =>
    match text with
    | [] => false
    | _ :: cs => accepts is cs
  | .lit c :: is, text =>
    match text with
    | [] => false
    | d :: cs => c == d && accepts is cs

def like (escape : Char) (text pattern : List Char) : Option Bool :=
  (items escape pattern).map (accepts · text)

def quote (escape : Char) (text : List Char) : List Char :=
  text.flatMap fun c => if c = escape ∨ c = '%' ∨ c = '_' then [escape, c] else [c]

theorem items_cons {escape c : Char} (hc : c ≠ escape) (cs : List Char) :
    items escape (c :: cs) = (items escape cs).map (item c :: ·) := by
  cases cs <;> simp [items, hc]

theorem items_quote (escape : Char) (text rest : List Char) :
    items escape (quote escape text ++ rest) =
      (items escape rest).map (text.map .lit ++ ·) := by
  induction text with
  | nil => simp [quote]
  | cons c cs ih =>
    by_cases hc : c = escape ∨ c = '%' ∨ c = '_'
    · have hq : quote escape (c :: cs) = escape :: c :: quote escape cs := by simp [quote, hc]
      rw [hq, List.cons_append, List.cons_append, items, if_pos rfl, ih]
      cases items escape rest <;> simp
    · have hq : quote escape (c :: cs) = c :: quote escape cs := by simp [quote, hc]
      simp only [not_or] at hc
      rw [hq, List.cons_append, items_cons hc.1, ih]
      cases items escape rest <;> simp [item, hc.2.1, hc.2.2]

theorem accepts_any (is : List Item) (text : List Char) :
    accepts (.any :: is) text ↔ ∃ rest, rest <:+ text ∧ accepts is rest := by
  simp [accepts, List.mem_tails]

theorem accepts_lits (word : List Char) (is : List Item) (text : List Char) :
    accepts (word.map .lit ++ is) text ↔ ∃ rest, text = word ++ rest ∧ accepts is rest := by
  induction word generalizing text with
  | nil => simp
  | cons c cs ih =>
    cases text with
    | nil => simp [accepts]
    | cons d ds =>
      simp only [List.map_cons, List.cons_append, accepts, Bool.and_eq_true, beq_iff_eq, ih,
        List.cons.injEq]
      constructor
      · rintro ⟨rfl, rest, rfl, h⟩
        exact ⟨rest, ⟨rfl, rfl⟩, h⟩
      · rintro ⟨rest, ⟨rfl, rfl⟩, h⟩
        exact ⟨rfl, rest, rfl, h⟩

/-- A quoted text between two `%` is a substring test. -/
theorem like_contains {escape : Char} (he : escape ≠ '%') (text word : List Char) :
    like escape text ('%' :: quote escape word ++ ['%']) = some (decide (word <:+: text)) := by
  have hany : items escape ['%'] = some [.any] := by simp [items, item, he.symm]
  have hitems : items escape ('%' :: quote escape word ++ ['%']) =
      some (.any :: (word.map .lit ++ [.any])) := by
    rw [List.cons_append, items_cons he.symm, items_quote, hany]
    simp [item]
  rw [like, hitems, Option.map_some, Option.some_inj, Bool.eq_iff_iff, decide_eq_true_iff,
    accepts_any]
  constructor
  · rintro ⟨rest, hrest, h⟩
    obtain ⟨tail, rfl, -⟩ := (accepts_lits _ _ _).mp h
    exact (List.prefix_append word tail).isInfix.trans hrest.isInfix
  · rintro ⟨before, tail, rfl⟩
    refine ⟨word ++ tail, ⟨before, by simp⟩, (accepts_lits _ _ _).mpr ⟨tail, rfl, ?_⟩⟩
    exact (accepts_any _ _).mpr ⟨[], List.nil_suffix, rfl⟩

end Noted.Library.Like
