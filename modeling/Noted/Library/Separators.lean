import Mathlib
import Noted.Library.Words

/-!
# Functions of a text that read its pieces apart

A function breaks at an element when its value on a text is its value on what stands
before the element, followed by its value on what stands after. Such a function is its
values on the pieces of the text, and does not see the separators that a trim removes.
-/

namespace Noted.Library.Words

variable {α β : Type*} {p : α → Bool} {f : List α → List β}

/-- `f` reads the two sides of a `c` apart. -/
def Breaks (f : List α → List β) (c : α) : Prop := ∀ a b, f (a ++ c :: b) = f a ++ f b

theorem tokens_breaks {c : α} (hc : p c = true) : Breaks (tokens p) c :=
  fun a b => tokens_append_cons a b hc

theorem tokens_append_separators {seps : List α} (hne : seps ≠ [])
    (h : ∀ c ∈ seps, p c = true) (a b : List α) :
    tokens p (a ++ (seps ++ b)) = tokens p a ++ tokens p b := by
  induction seps generalizing a with
  | nil => exact absurd rfl hne
  | cons c cs ih =>
    rw [List.cons_append, tokens_append_cons a _ (h c (by simp))]
    by_cases hcs : cs = []
    · rw [hcs, List.nil_append]
    · have hrest := ih hcs (fun d hd => h d (by simp [hd])) []
      rw [List.nil_append, tokens_nil, List.nil_append] at hrest
      rw [hrest]

section Pieces

variable (hnil : f [] = []) (h : ∀ c, p c = true → Breaks f c) (text : List α)
include hnil h

theorem Breaks.flatMap_tokens : (tokens p text).flatMap f = f text := by
  induction hlen : text.length using Nat.strong_induction_on generalizing text with
  | _ n ih =>
  by_cases hc : ∃ c ∈ text, p c = true
  · obtain ⟨c, hc, hp⟩ := hc
    obtain ⟨a, b, rfl⟩ := List.append_of_mem hc
    rw [List.length_append, List.length_cons] at hlen
    have ha := ih a.length (by omega) a rfl
    have hb := ih b.length (by omega) b rfl
    rw [tokens_append_cons a b hp, List.flatMap_append, ha, hb, h c hp a b]
  · have hnone : ∀ c ∈ text, p c = false := by
      intro c hmem
      rw [Bool.eq_false_iff]
      exact fun hp => hc ⟨c, hmem, hp⟩
    by_cases hempty : text = []
    · rw [hempty, tokens_nil, List.flatMap_nil, hnil]
    · rw [tokens_word hempty hnone, List.flatMap_singleton]

theorem Breaks.dropWhile : f (text.dropWhile p) = f text := by
  induction text with
  | nil => rfl
  | cons c cs ih =>
    rw [List.dropWhile_cons]
    split_ifs with hc
    · have hcut := h c hc [] cs
      rw [List.nil_append, hnil, List.nil_append] at hcut
      rw [ih, hcut]
    · rfl

theorem Breaks.rdropWhile : f (text.rdropWhile p) = f text := by
  induction text using List.reverseRecOn with
  | nil => rfl
  | append_singleton cs c ih =>
    rw [List.rdropWhile_concat]
    split_ifs with hc
    · rw [ih, h c hc cs [], hnil, List.append_nil]
    · rfl

end Pieces

end Noted.Library.Words
