import Mathlib.Data.List.Infix

/-!
# Words of a list

`spans p` lists the maximal runs of elements that satisfy `p`, each with what
comes before and after it, as a leftmost-longest scan finds them. `tokens p`
are the nonempty pieces between the elements that satisfy `p`. The lemmas say
how both behave at a separator, and when a padded piece is an infix.
-/

namespace Noted.Library.Words

variable {α : Type*}

structure Span (α : Type*) where
  before : List α
  word : List α
  after : List α
  deriving DecidableEq

/-- The scan of `spans`: `before` is all that was read ahead of the run `word`. -/
def spansFrom (p : α → Bool) (before word : List α) : List α → List (Span α)
  | [] => if word.isEmpty then [] else [⟨before, word, []⟩]
  | c :: cs =>
    if p c then spansFrom p before (word ++ [c]) cs
    else if word.isEmpty then spansFrom p (before ++ [c]) [] cs
    else ⟨before, word, c :: cs⟩ :: spansFrom p (before ++ word ++ [c]) [] cs

def spans (p : α → Bool) (text : List α) : List (Span α) := spansFrom p [] [] text

def tokens (p : α → Bool) (text : List α) : List (List α) :=
  (text.splitOnP p).filter fun w => !w.isEmpty

def Span.extend (s : Span α) (tail : List α) : Span α := { s with after := s.after ++ tail }

def Span.prepend (s : Span α) (head : List α) : Span α := { s with before := head ++ s.before }

@[simp] theorem Span.extend_word (s : Span α) (t : List α) : (s.extend t).word = s.word := rfl

@[simp] theorem Span.extend_before (s : Span α) (t : List α) :
    (s.extend t).before = s.before := rfl

@[simp] theorem Span.prepend_word (s : Span α) (h : List α) : (s.prepend h).word = s.word := rfl

@[simp] theorem Span.prepend_after (s : Span α) (h : List α) :
    (s.prepend h).after = s.after := rfl

section Spans

variable {p : α → Bool}

theorem spansFrom_prepend (h b w text : List α) :
    spansFrom p (h ++ b) w text = (spansFrom p b w text).map (·.prepend h) := by
  induction text generalizing b w with
  | nil => by_cases hw : w.isEmpty <;> simp [spansFrom, hw, Span.prepend]
  | cons c cs ih =>
    by_cases hc : p c
    · simp [spansFrom, hc, ih]
    · by_cases hw : w.isEmpty
      · simp [spansFrom, hc, hw, List.append_assoc, ih]
      · simp [spansFrom, hc, hw, List.append_assoc, ih, Span.prepend]

theorem spansFrom_eq_spans (b text : List α) :
    spansFrom p b [] text = (spans p text).map (·.prepend b) := by
  simpa [spans] using spansFrom_prepend (p := p) b [] [] text

theorem spansFrom_append_cons (b w x y : List α) {c : α} (hc : p c = false) :
    spansFrom p b w (x ++ c :: y) =
      (spansFrom p b w x).map (·.extend (c :: y)) ++ spansFrom p (b ++ w ++ x ++ [c]) [] y := by
  induction x generalizing b w with
  | nil =>
    by_cases hw : w.isEmpty
    · simp_all [spansFrom]
    · simp [spansFrom, hc, hw, Span.extend]
  | cons d ds ih =>
    by_cases hd : p d
    · simp [spansFrom, hd, ih, List.append_assoc]
    · by_cases hw : w.isEmpty
      · have hw' : w = [] := by simpa using hw
        simp [spansFrom, hd, hw', ih, List.append_assoc]
      · simp [spansFrom, hd, hw, ih, List.append_assoc, Span.extend]

theorem spans_append_cons (x y : List α) {c : α} (hc : p c = false) :
    spans p (x ++ c :: y) =
      (spans p x).map (·.extend (c :: y)) ++ (spans p y).map (·.prepend (x ++ [c])) := by
  rw [spans, spansFrom_append_cons [] [] x y hc, ← spansFrom_eq_spans]
  simp [spans]

theorem spansFrom_sound {b w text : List α} (hw : ∀ c ∈ w, p c = true) {s : Span α}
    (hs : s ∈ spansFrom p b w text) :
    b ++ w ++ text = s.before ++ s.word ++ s.after ∧ s.word ≠ [] ∧ ∀ c ∈ s.word, p c = true := by
  induction text generalizing b w with
  | nil =>
    by_cases he : w.isEmpty
    · simp [spansFrom, he] at hs
    · simp only [spansFrom, he, Bool.false_eq_true, ↓reduceIte, List.mem_singleton] at hs
      subst hs
      exact ⟨by simp, by simpa using he, hw⟩
  | cons c cs ih =>
    by_cases hc : p c
    · have hw' : ∀ d ∈ w ++ [c], p d = true := by
        intro d hd
        rcases List.mem_append.mp hd with hd | hd
        · exact hw d hd
        · simpa [List.mem_singleton.mp hd] using hc
      have h := ih hw' (by simpa [spansFrom, hc] using hs)
      exact ⟨by simpa using h.1, h.2⟩
    · by_cases he : w.isEmpty
      · have he' : w = [] := by simpa using he
        have h := ih (b := b ++ [c]) (w := []) (by simp) (by simpa [spansFrom, hc, he] using hs)
        exact ⟨by simpa [he'] using h.1, h.2⟩
      · simp only [spansFrom, hc, he, Bool.false_eq_true, ↓reduceIte, List.mem_cons] at hs
        rcases hs with rfl | hs
        · exact ⟨rfl, by simpa using he, hw⟩
        · have h := ih (b := b ++ w ++ [c]) (w := []) (by simp) hs
          exact ⟨by simpa using h.1, h.2⟩

theorem spans_sound {text : List α} {s : Span α} (hs : s ∈ spans p text) :
    text = s.before ++ s.word ++ s.after ∧ s.word ≠ [] ∧ ∀ c ∈ s.word, p c = true := by
  simpa using spansFrom_sound (b := []) (w := []) (by simp) hs

theorem exists_mem_spansFrom {b w text : List α} {c : α}
    (h : c ∈ w ∨ (c ∈ text ∧ p c = true)) : ∃ s ∈ spansFrom p b w text, c ∈ s.word := by
  induction text generalizing b w with
  | nil =>
    obtain hc | ⟨hc, -⟩ := h
    · have hw : w.isEmpty = false := by simpa using List.ne_nil_of_mem hc
      exact ⟨⟨b, w, []⟩, by simp [spansFrom, hw], hc⟩
    · cases hc
  | cons d ds ih =>
    by_cases hd : p d
    · have h' : c ∈ w ++ [d] ∨ (c ∈ ds ∧ p c = true) := by
        simp only [List.mem_cons, List.mem_append] at h ⊢
        tauto
      simpa [spansFrom, hd] using ih h'
    · have hne : c ∈ d :: ds ∧ p c = true → c ∈ ds ∧ p c = true := by
        intro hc
        refine ⟨(List.mem_cons.mp hc.1).resolve_left ?_, hc.2⟩
        intro heq
        exact hd (heq ▸ hc.2)
      obtain hc | hc := h
      · have hw : w.isEmpty = false := by simpa using List.ne_nil_of_mem hc
        exact ⟨⟨b, w, d :: ds⟩, by simp [spansFrom, hd, hw], hc⟩
      · obtain ⟨s, hs, hmem⟩ := ih (b := b ++ w ++ [d]) (w := []) (Or.inr (hne hc))
        by_cases hw : w.isEmpty
        · have hw' : w = [] := by simpa using hw
          subst hw'
          exact ⟨s, by simpa [spansFrom, hd] using hs, hmem⟩
        · refine ⟨s, ?_, hmem⟩
          simpa [spansFrom, hd, hw] using Or.inr (by simpa using hs)

theorem exists_mem_spans {text : List α} {c : α} (hc : c ∈ text) (hp : p c = true) :
    ∃ s ∈ spans p text, c ∈ s.word :=
  exists_mem_spansFrom (Or.inr ⟨hc, hp⟩)

theorem spansFrom_flatMap_word (b w text : List α) :
    (spansFrom p b w text).flatMap Span.word = w ++ text.filter p := by
  induction text generalizing b w with
  | nil =>
    cases w with
    | nil => rfl
    | cons c cs => simp [spansFrom]
  | cons d ds ih =>
    by_cases hd : p d
    · simp [spansFrom, hd, ih]
    · cases w with
      | nil => simp [spansFrom, hd, ih]
      | cons c cs => simp [spansFrom, hd, ih]

theorem spans_flatMap_word (text : List α) :
    (spans p text).flatMap Span.word = text.filter p := by
  simpa [spans] using spansFrom_flatMap_word (p := p) [] [] text

theorem spansFrom_word (b w text : List α) (hne : w ++ text ≠ []) (h : ∀ c ∈ text, p c = true) :
    spansFrom p b w text = [⟨b, w ++ text, []⟩] := by
  induction text generalizing w with
  | nil =>
    have hw : w.isEmpty = false := by simpa using hne
    simp [spansFrom, hw]
  | cons c cs ih =>
    have hc := h c (by simp)
    have ht := ih (w ++ [c]) (by simp) (fun d hd => h d (by simp [hd]))
    simp [spansFrom, hc, ht]

theorem spans_word {text : List α} (hne : text ≠ []) (h : ∀ c ∈ text, p c = true) :
    spans p text = [⟨[], text, []⟩] := by
  simpa [spans] using spansFrom_word (p := p) [] [] text (by simpa using hne) h

end Spans

section Tokens

variable {p : α → Bool}

@[simp] theorem tokens_nil : tokens p [] = [] := by simp [tokens]

theorem tokens_append_cons (x y : List α) {c : α} (hc : p c = true) :
    tokens p (x ++ c :: y) = tokens p x ++ tokens p y := by
  simp [tokens, List.splitOnP_append_cons x y hc]

theorem tokens_word {w : List α} (hne : w ≠ []) (h : ∀ c ∈ w, p c = false) :
    tokens p w = [w] := by
  simp [tokens, List.splitOnP_eq_singleton h, hne]

theorem mem_tokens {text w : List α} : w ∈ tokens p text ↔ w ∈ text.splitOnP p ∧ w ≠ [] := by
  simp [tokens]

theorem not_of_mem_splitOnP {text w : List α} (hw : w ∈ text.splitOnP p) :
    ∀ c ∈ w, p c = false := by
  induction text generalizing w with
  | nil =>
    intro c hc
    simp [List.mem_singleton.mp (by simpa using hw)] at hc
  | cons d ds ih =>
    rw [List.splitOnP_cons_eq_if_modifyHead] at hw
    split at hw
    · rcases List.mem_cons.mp hw with rfl | hw
      · simp
      · exact ih hw
    · rename_i hd
      obtain ⟨v, vs, hv⟩ := List.exists_cons_of_ne_nil (List.splitOnP_ne_nil p ds)
      rw [hv, List.modifyHead_cons, List.mem_cons] at hw
      rcases hw with rfl | hw
      · intro c hc
        rcases List.mem_cons.mp hc with rfl | hc
        · simpa using hd
        · exact ih (by simp [hv]) c hc
      · exact ih (by simp [hv, hw])

theorem infix_of_mem_splitOnP {text w : List α} (hw : w ∈ text.splitOnP p) : w <:+: text := by
  suffices h : ∀ v ws, text.splitOnP p = v :: ws → v <+: text ∧ ∀ w ∈ ws, w <:+: text by
    obtain ⟨v, ws, hv⟩ := List.exists_cons_of_ne_nil (List.splitOnP_ne_nil p text)
    obtain ⟨hfirst, hrest⟩ := h v ws hv
    rcases List.mem_cons.mp (hv ▸ hw) with rfl | hw
    · exact hfirst.isInfix
    · exact hrest w hw
  clear hw w
  induction text with
  | nil =>
    intro v ws h
    obtain ⟨rfl, rfl⟩ := by simpa using h
    simp
  | cons d ds ih =>
    intro v ws h
    obtain ⟨u, us, hu⟩ := List.exists_cons_of_ne_nil (List.splitOnP_ne_nil p ds)
    obtain ⟨hfirst, hrest⟩ := ih u us hu
    rw [List.splitOnP_cons_eq_if_modifyHead, hu] at h
    split at h
    · obtain ⟨rfl, rfl⟩ := List.cons.inj h
      refine ⟨List.nil_prefix, fun w hw => ?_⟩
      rcases List.mem_cons.mp hw with rfl | hw
      · exact hfirst.isInfix.trans (List.suffix_cons d ds).isInfix
      · exact (hrest w hw).trans (List.suffix_cons d ds).isInfix
    · rw [List.modifyHead_cons] at h
      obtain ⟨rfl, rfl⟩ := List.cons.inj h
      exact ⟨List.cons_prefix_cons.mpr ⟨rfl, hfirst⟩,
        fun w hw => (hrest w hw).trans (List.suffix_cons d ds).isInfix⟩

theorem infix_append_cons {w x y : List α} {c : α} (hc : c ∉ w) :
    w <:+: x ++ c :: y ↔ w <:+: x ∨ w <:+: y := by
  constructor
  · rintro ⟨s, e, h⟩
    rw [List.append_assoc, List.append_eq_append_iff] at h
    obtain ⟨z, hx, hz⟩ | ⟨z, hs, hz⟩ := h
    · rw [List.append_eq_append_iff] at hz
      obtain ⟨u, rfl, -⟩ | ⟨u, hw, hu⟩ := hz
      · left
        rw [hx]
        exact ⟨s, u, by simp⟩
      · cases u with
        | nil =>
          left
          rw [hx, hw]
          exact ⟨s, [], by simp⟩
        | cons d u =>
          obtain ⟨rfl, -⟩ := List.cons.inj hu
          simp [hw] at hc
    · cases z with
      | nil =>
        cases w with
        | nil => exact Or.inl ⟨[], x, rfl⟩
        | cons d w =>
          obtain ⟨rfl, -⟩ := List.cons.inj hz
          simp at hc
      | cons d z =>
        obtain ⟨rfl, rfl⟩ := List.cons.inj hz
        exact Or.inr ⟨z, e, by simp⟩
  · intro h
    cases h with
    | inl h => exact h.trans (List.prefix_append x _).isInfix
    | inr h => exact h.trans ⟨x ++ [c], [], by simp⟩

/-- What holds no separator lies in a text exactly when it lies in one of its pieces. -/
theorem infix_iff_exists_tokens {w text : List α} (hne : w ≠ [])
    (hw : ∀ c ∈ w, p c = false) : w <:+: text ↔ ∃ v ∈ tokens p text, w <:+: v := by
  constructor
  · intro h
    induction hlen : text.length using Nat.strong_induction_on generalizing text with
    | _ n ih =>
    by_cases hc : ∃ c ∈ text, p c = true
    · obtain ⟨c, hc, hp⟩ := hc
      obtain ⟨x, y, rfl⟩ := List.append_of_mem hc
      have hcw : c ∉ w := by
        intro hmem
        simp [hw c hmem] at hp
      rw [List.length_append, List.length_cons] at hlen
      rw [tokens_append_cons x y hp]
      obtain h | h := (infix_append_cons hcw).mp h
      · obtain ⟨v, hv, hin⟩ := ih x.length (by omega) h rfl
        exact ⟨v, List.mem_append_left _ hv, hin⟩
      · obtain ⟨v, hv, hin⟩ := ih y.length (by omega) h rfl
        exact ⟨v, List.mem_append_right _ hv, hin⟩
    · have hnone : ∀ c ∈ text, p c = false := by
        intro c hmem
        rw [Bool.eq_false_iff]
        exact fun hp => hc ⟨c, hmem, hp⟩
      have htext : text ≠ [] := by
        intro hnil
        rw [hnil] at h
        exact hne (List.infix_nil.mp h)
      exact ⟨text, by simp [tokens_word htext hnone], h⟩
  · intro h
    obtain ⟨v, hv, h⟩ := h
    exact h.trans (infix_of_mem_splitOnP (mem_tokens.mp hv).1)

theorem not_of_mem_tokens {text w : List α} (hw : w ∈ tokens p text) : ∀ c ∈ w, p c = false :=
  not_of_mem_splitOnP (mem_tokens.mp hw).1

theorem exists_mem_tokens {text : List α} {c : α} (hc : c ∈ text) (hp : p c = false) :
    ∃ w ∈ tokens p text, c ∈ w := by
  suffices h : ∃ w ∈ text.splitOnP p, c ∈ w by
    obtain ⟨w, hw, hcw⟩ := h
    exact ⟨w, mem_tokens.mpr ⟨hw, List.ne_nil_of_mem hcw⟩, hcw⟩
  induction text with
  | nil => simp at hc
  | cons d ds ih =>
    rw [List.splitOnP_cons_eq_if_modifyHead]
    split
    · rename_i hd
      rcases List.mem_cons.mp hc with rfl | hc
      · simp [hp] at hd
      · obtain ⟨w, hw, hcw⟩ := ih hc
        exact ⟨w, List.mem_cons_of_mem _ hw, hcw⟩
    · obtain ⟨v, vs, hv⟩ := List.exists_cons_of_ne_nil (List.splitOnP_ne_nil p ds)
      rw [hv] at ih ⊢
      rcases List.mem_cons.mp hc with rfl | hc
      · exact ⟨c :: v, by simp, by simp⟩
      · obtain ⟨w, hw, hcw⟩ := ih hc
        rcases List.mem_cons.mp hw with rfl | hw
        · exact ⟨d :: w, by simp, by simp [hcw]⟩
        · exact ⟨w, by simp [hw], hcw⟩

theorem splitOnP_congr {q : α → Bool} {text : List α} (h : ∀ c ∈ text, p c = q c) :
    text.splitOnP p = text.splitOnP q := by
  induction text with
  | nil => simp
  | cons c cs ih =>
    simp [List.splitOnP_cons_eq_if_modifyHead, h c (by simp), ih (fun d hd => h d (by simp [hd]))]

end Tokens

section Padding

variable {c : α}

theorem cons_prefix_of_not_mem {w x z : List α} (hw : c ∉ w) (hx : c ∉ x)
    (h : w ++ [c] <+: x ++ c :: z) : w = x := by
  obtain ⟨t, ht⟩ := h
  have hlen : w.length = x.length := by
    rcases Nat.lt_trichotomy w.length x.length with hlt | heq | hgt
    · have hc : (w ++ [c] ++ t)[w.length]? = some c := by simp
      rw [ht, List.getElem?_append_left hlt] at hc
      exact absurd (List.mem_of_getElem? hc) hx
    · exact heq
    · have hc : (x ++ c :: z)[x.length]? = some c := by simp
      rw [← ht, List.append_assoc, List.getElem?_append_left hgt] at hc
      exact absurd (List.mem_of_getElem? hc) hw
  have h' : w ++ ([c] ++ t) = x ++ (c :: z) := by simpa using ht
  exact (List.append_inj h' hlen).1

theorem prefix_of_prefix_append_cons {w x z : List α} (hw : c ∉ w) (h : w <+: x ++ c :: z) :
    w <+: x := by
  induction x generalizing w with
  | nil =>
    cases w with
    | nil => exact List.nil_prefix
    | cons d w => exact absurd (List.cons_prefix_cons.mp h).1 (by rintro rfl; simp at hw)
  | cons e x ih =>
    cases w with
    | nil => exact List.nil_prefix
    | cons d w =>
      obtain ⟨rfl, hpre⟩ := List.cons_prefix_cons.mp h
      exact List.cons_prefix_cons.mpr ⟨rfl, ih (fun hm => hw (by simp [hm])) hpre⟩

theorem infix_of_not_mem {w x z : List α} (hx : c ∉ x) (h : c :: w <:+: x ++ z) :
    c :: w <:+: z := by
  induction x with
  | nil => simpa using h
  | cons d x ih =>
    simp only [List.mem_cons, not_or] at hx
    rw [List.cons_append, List.infix_cons_iff] at h
    rcases h with h | h
    · exact absurd (List.cons_prefix_cons.mp h).1 hx.1
    · exact ih hx.2 h

variable [BEq α] [LawfulBEq α]

/-- A piece between separators is one of the pieces of the split exactly when it
is found with a separator on both sides. -/
theorem mem_splitOn_iff {text w : List α} (hw : c ∉ w) :
    w ∈ text.splitOn c ↔ c :: w ++ [c] <:+: c :: text ++ [c] := by
  induction h : text.length using Nat.strong_induction_on generalizing text with
  | _ n ih =>
  by_cases hc : c ∈ text
  · obtain ⟨x, y, rfl, hx⟩ := List.eq_append_cons_of_mem hc
    rw [List.splitOn_append_cons_self_of_not_mem hx, List.mem_cons,
      ih y.length (by simp at h; omega) rfl]
    constructor
    · rintro (rfl | hin)
      · exact ⟨[], y ++ [c], by simp⟩
      · exact hin.trans ⟨c :: x, [], by simp⟩
    · intro hin
      rw [show c :: (x ++ c :: y) ++ [c] = c :: (x ++ (c :: y ++ [c])) by simp,
        List.infix_cons_iff] at hin
      rcases hin with hin | hin
      · left
        have hpre : w ++ [c] <+: x ++ c :: (y ++ [c]) := by
          simpa using hin
        exact cons_prefix_of_not_mem hw hx hpre
      · right
        have hin' : c :: (w ++ [c]) <:+: x ++ (c :: y ++ [c]) := by simpa using hin
        simpa using infix_of_not_mem hx hin'
  · rw [List.splitOn_eq_singleton hc, List.mem_singleton]
    constructor
    · rintro rfl
      exact List.infix_rfl
    · intro hin
      rw [show c :: text ++ [c] = c :: (text ++ [c]) by simp, List.infix_cons_iff] at hin
      rcases hin with hin | hin
      · exact cons_prefix_of_not_mem (z := []) hw hc (by simpa using hin)
      · have hin' : c :: (w ++ [c]) <:+: text ++ [c] := by simpa using hin
        have hlen := (infix_of_not_mem hc hin').length_le
        simp at hlen

theorem exists_prefix_splitOn_iff {text w : List α} (hw : c ∉ w) :
    (∃ v ∈ text.splitOn c, w <+: v) ↔ c :: w <:+: c :: text := by
  induction h : text.length using Nat.strong_induction_on generalizing text with
  | _ n ih =>
  by_cases hc : c ∈ text
  · obtain ⟨x, y, rfl, hx⟩ := List.eq_append_cons_of_mem hc
    rw [List.splitOn_append_cons_self_of_not_mem hx]
    simp only [List.mem_cons, exists_eq_or_imp]
    rw [ih y.length (by simp at h; omega) rfl,
      @List.infix_cons_iff _ (c :: w) c (x ++ c :: y), List.cons_prefix_cons]
    constructor
    · rintro (hpre | hin)
      · exact Or.inl ⟨rfl, hpre.trans (List.prefix_append _ _)⟩
      · exact Or.inr (hin.trans (List.suffix_append _ _).isInfix)
    · rintro (⟨-, hpre⟩ | hin)
      · exact Or.inl (prefix_of_prefix_append_cons hw hpre)
      · exact Or.inr (infix_of_not_mem hx hin)
  · rw [List.splitOn_eq_singleton hc]
    simp only [List.mem_singleton, exists_eq_left, List.infix_cons_iff, List.cons_prefix_cons,
      true_and]
    constructor
    · exact Or.inl
    · rintro (hpre | hin)
      · exact hpre
      · have hin' : c :: w <:+: text ++ [] := by simpa using hin
        simpa using infix_of_not_mem hc hin'

end Padding

end Noted.Library.Words
