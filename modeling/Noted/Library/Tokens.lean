import Noted.Library.Words

/-!
# Runs and pieces

The runs of the elements that satisfy a predicate are the pieces between the others, and
pieces follow a map of the elements and a filter that keeps every separator.
-/

namespace Noted.Library.Words

variable {α β : Type*} {p q k : α → Bool} {text : List α}

theorem tokens_congr (h : ∀ c ∈ text, p c = q c) : tokens p text = tokens q text := by
  rw [tokens, tokens, splitOnP_congr h]

theorem spansFrom_map_word (before word : List α) (hword : ∀ c ∈ word, p c = true) :
    (spansFrom p before word text).map Span.word = tokens (fun c => !p c) (word ++ text) := by
  induction text generalizing before word with
  | nil =>
    by_cases hw : word = []
    · simp [spansFrom, hw]
    · rw [List.append_nil, tokens_word hw fun c hc => by simp [hword c hc]]
      simp [spansFrom, hw]
  | cons c cs ih =>
    by_cases hc : p c = true
    · have hmore : ∀ d ∈ word ++ [c], p d = true := by
        intro d hd
        obtain hd | hd := List.mem_append.mp hd
        · exact hword d hd
        · rwa [List.mem_singleton.mp hd]
      rw [spansFrom, if_pos hc, ih before (word ++ [c]) hmore, List.append_assoc,
        List.singleton_append]
    · have hsep : (!p c) = true := by simp [hc]
      have hrest : ∀ b, (spansFrom p b [] cs).map Span.word = tokens (fun c => !p c) cs :=
        fun b => by simpa using ih b [] (by simp)
      rw [spansFrom, if_neg hc, tokens_append_cons word cs hsep]
      by_cases hw : word = []
      · simp [hw, hrest]
      · rw [tokens_word hw fun d hd => by simp [hword d hd]]
        simp [hw, hrest]

theorem spans_map_word (p : α → Bool) (text : List α) :
    (spans p text).map Span.word = tokens (fun c => !p c) text :=
  spansFrom_map_word [] [] (by simp)

theorem splitOnP_map (p : β → Bool) (f : α → β) (text : List α) :
    (text.map f).splitOnP p = (text.splitOnP fun c => p (f c)).map fun w => w.map f := by
  induction text with
  | nil => simp
  | cons c cs ih =>
    obtain ⟨w, ws, hws⟩ := List.exists_cons_of_ne_nil
      (List.splitOnP_ne_nil (fun c => p (f c)) cs)
    by_cases hc : p (f c) = true
    · simp [List.splitOnP_cons_eq_if_modifyHead, hc, ih]
    · simp [List.splitOnP_cons_eq_if_modifyHead, hc, ih, hws]

theorem tokens_map (p : β → Bool) (f : α → β) (text : List α) :
    tokens p (text.map f) = (tokens (fun c => p (f c)) text).map fun w => w.map f := by
  rw [tokens, splitOnP_map, List.filter_map, tokens]
  congr 2
  funext w
  simp

theorem splitOnP_filter (h : ∀ c, k c = false → p c = false) :
    (text.filter k).splitOnP p = (text.splitOnP p).map (List.filter k) := by
  induction text with
  | nil => simp
  | cons c cs ih =>
    obtain ⟨w, ws, hws⟩ := List.exists_cons_of_ne_nil (List.splitOnP_ne_nil p cs)
    cases hk : k c with
    | false =>
      have hc := h c hk
      simp [List.splitOnP_cons_eq_if_modifyHead, hk, hc, ih, hws]
    | true =>
      by_cases hc : p c = true
      · simp [List.splitOnP_cons_eq_if_modifyHead, hk, hc, ih]
      · simp [List.splitOnP_cons_eq_if_modifyHead, hk, hc, ih, hws]

theorem filter_mem_tokens (h : ∀ c, k c = false → p c = false) {w : List α}
    (hw : w ∈ tokens p text) (hne : w.filter k ≠ []) : w.filter k ∈ tokens p (text.filter k) := by
  rw [mem_tokens, splitOnP_filter h]
  exact ⟨List.mem_map_of_mem (mem_tokens.mp hw).1, hne⟩

theorem tokens_filter (h : ∀ c, k c = false → p c = false)
    (hne : ∀ w ∈ tokens p text, w.filter k ≠ []) :
    tokens p (text.filter k) = (tokens p text).map (List.filter k) := by
  rw [tokens, splitOnP_filter h, List.filter_map, tokens]
  congr 1
  refine List.filter_congr fun w hw => ?_
  by_cases hnil : w = []
  · simp [hnil]
  · have hkept := hne w (mem_tokens.mpr ⟨hw, hnil⟩)
    simp only [Function.comp_apply]
    rw [List.isEmpty_eq_false_iff.mpr hkept, List.isEmpty_eq_false_iff.mpr hnil]

end Noted.Library.Words
