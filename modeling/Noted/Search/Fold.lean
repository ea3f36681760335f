import Noted.Search.Browser

/-!
# Folding in the two languages

The API folds rune by rune and the web app with replacements over the whole
text. Both are the words of letters and numbers of the normalized text, marks
aside, joined by single spaces, so they are one function.
-/

namespace Noted.Search

open Library.Words

variable (U : UnicodeTables)

section Replacer

variable {pairs : List (Text × Text)}

def replaceChar (pairs : List (Text × Text)) (c : Char) : Text :=
  ((pairs.find? fun p => p.1 == [c]).map Prod.snd).getD [c]

theorem find?_singleton (h : ∀ p ∈ pairs, p.1.length = 1) (c : Char) (cs : Text) :
    pairs.find? (fun p => p.1.isPrefixOf (c :: cs)) = pairs.find? (fun p => p.1 == [c]) := by
  induction pairs with
  | nil => rfl
  | cons p ps ih =>
    obtain ⟨d, hd⟩ := List.length_eq_one_iff.mp (h p (by simp))
    have htail := ih fun q hq => h q (by simp [hq])
    have hhead : [d].isPrefixOf (c :: cs) = ([d] == [c]) := by simp [List.isPrefixOf]
    simp only [List.find?_cons, hd, htail, hhead]

theorem newReplacer_singletons (h : ∀ p ∈ pairs, p.1.length = 1) (text : Text) :
    newReplacer pairs text = text.flatMap (replaceChar pairs) := by
  induction text with
  | nil => rfl
  | cons c cs ih =>
    rw [newReplacer, replaceFrom, find?_singleton h, List.flatMap_cons, ← ih]
    cases hf : pairs.find? (fun p => p.1 == [c]) with
    | none => simp [replaceChar, hf, newReplacer]
    | some p =>
      have hlen := h p (List.mem_of_find?_eq_some hf)
      simp [replaceChar, hf, newReplacer, hlen]

end Replacer

theorem likeEscape_eq_quote (text : Text) : likeEscape text = Library.Like.quote '\\' text := by
  rw [likeEscape, newReplacer_singletons (by decide), Library.Like.quote]
  congr 1
  funext c
  by_cases h1 : c = '\\'
  · subst h1; decide
  · by_cases h2 : c = '%'
    · subst h2; decide
    · by_cases h3 : c = '_'
      · subst h3; decide
      · simp [replaceChar, List.find?, beq_false_of_ne (Ne.symm h1), beq_false_of_ne (Ne.symm h2),
          beq_false_of_ne (Ne.symm h3), h1, h2, h3]

theorem replaceChar_leftovers (c : Char) : replaceChar foldLeftovers c = Browser.leftover c := by
  unfold Browser.leftover
  split
  all_goals first | rfl | skip
  rename_i h1 h2 h3 h4 h5 h6 h7 h8 h9 h10 h11 h12 h13
  simp [replaceChar, foldLeftovers, List.find?, beq_false_of_ne, Ne.symm h1, Ne.symm h2,
    Ne.symm h3, Ne.symm h4, Ne.symm h5, Ne.symm h6, Ne.symm h7, Ne.symm h8, Ne.symm h9,
    Ne.symm h10, Ne.symm h11, Ne.symm h12, Ne.symm h13]

theorem numberSigns_eq (text : Text) :
    newReplacer numberSigns text = Browser.replaceNumberSigns text := by
  fun_induction Browser.replaceNumberSigns text with
  | case1 => rfl
  | case2 c => simp [newReplacer, replaceFrom, numberSigns, List.find?, List.isPrefixOf]
  | case3 c d ds h ih =>
    have hfind : ∃ p, numberSigns.find? (fun p => p.1.isPrefixOf (c :: d :: ds)) = some p ∧
        p.2 = "no ".toList ∧ p.1.length = 2 := by
      obtain ⟨rfl | rfl, rfl | rfl⟩ := h <;>
        simp [numberSigns, List.find?, List.isPrefixOf]
    obtain ⟨p, hp, htext, hlen⟩ := hfind
    rw [newReplacer, replaceFrom, hp]
    simp [htext, hlen, replaceFrom, ← ih, newReplacer]
  | case4 c d ds h ih =>
    have hfind : numberSigns.find? (fun p => p.1.isPrefixOf (c :: d :: ds)) = none := by
      simp only [not_and_or, not_or] at h
      rcases h with ⟨h1, h2⟩ | ⟨h1, h2⟩ <;>
        simp [numberSigns, List.find?, List.isPrefixOf, beq_false_of_ne (Ne.symm h1),
          beq_false_of_ne (Ne.symm h2)]
    rw [newReplacer, replaceFrom, hfind]
    simp [← ih, newReplacer]

/-- The final sigma and U+0130 aside, JavaScript lowers one character at a time. -/
theorem leftover_toLowerFrom (before text : Text) (h : dottedI ∉ text) :
    (Browser.toLowerFrom U before text).flatMap Browser.leftover =
      (text.map U.lower).flatMap Browser.leftover := by
  induction text generalizing before with
  | nil => rfl
  | cons c cs ih =>
    simp only [List.mem_cons, not_or] at h
    rw [Browser.toLowerFrom, List.flatMap_append, ih _ h.2, List.map_cons, List.flatMap_cons]
    congr 1
    by_cases hs : c = 'Σ'
    · subst hs
      rw [if_pos rfl, U.lower_sigma]
      split <;> rfl
    · rw [if_neg hs, if_neg (Ne.symm h.1)]
      simp

/-- Both languages normalize a text to the same one. -/
theorem normalized_eq (text : Text) : Browser.normalized U text = normalizedSearch U text := by
  rw [Browser.normalized, Browser.toLowerCase, leftover_toLowerFrom U _ _ (U.nfkd_dottedI _),
    normalizedSearch, newReplacer_singletons (by decide), numberSigns_eq,
    show replaceChar foldLeftovers = Browser.leftover from funext replaceChar_leftovers]

section Fold

def unmarked (text : Text) : Text := (normalizedSearch U text).filter fun c => !U.isMark c

def separator (c : Char) : Bool := !U.isWordRune c

def foldWords (text : Text) : List Text := tokens (separator U) (unmarked U text)

def spaced (words : List Text) : Text := words.flatMap (' ' :: ·)

theorem joinWords_cons (w : Text) (ws : List Text) : joinWords (w :: ws) = w ++ spaced ws := by
  induction ws generalizing w with
  | nil => simp [joinWords, spaced]
  | cons v vs ih =>
    have h := ih v
    rw [joinWords] at h
    rw [joinWords, List.intercalate_cons_cons, h]
    simp [spaced]

theorem foldRunes_written (text : Text) :
    let kept := text.filter fun c => !U.isMark c
    foldRunes U true true text = spaced (tokens (separator U) kept) ∧
    ∀ p ps, kept.splitOnP (separator U) = p :: ps →
      foldRunes U false true text = p ++ spaced (ps.filter fun w => !w.isEmpty) := by
  induction text with
  | nil => simp [foldRunes, spaced]
  | cons r rs ih =>
    dsimp only at ih ⊢
    by_cases hm : U.isMark r
    · simpa [foldRunes, hm] using ih
    · obtain ⟨p, ps, hp⟩ := List.exists_cons_of_ne_nil
        (List.splitOnP_ne_nil (separator U) (rs.filter fun c => !U.isMark c))
      have hr := ih.2 p ps hp
      by_cases hw : U.isLetter r || U.isNumber r
      · have hsep : separator U r = false := by simp [separator, UnicodeTables.isWordRune, hw]
        simp [foldRunes, hm, hw, tokens, List.splitOnP_cons_eq_if_modifyHead, hsep, hp, hr, spaced]
      · have hsep : separator U r = true := by simp [separator, UnicodeTables.isWordRune, hw]
        simp [foldRunes, hm, hw, tokens, List.splitOnP_cons_eq_if_modifyHead, hsep, ih.1, spaced]

theorem foldRunes_fresh (gap : Bool) (text : Text) :
    foldRunes U gap false text =
      joinWords (tokens (separator U) (text.filter fun c => !U.isMark c)) := by
  induction text generalizing gap with
  | nil => rfl
  | cons r rs ih =>
    by_cases hm : U.isMark r
    · simpa [foldRunes, hm] using ih gap
    · by_cases hw : U.isLetter r || U.isNumber r
      · obtain ⟨p, ps, hp⟩ := List.exists_cons_of_ne_nil
          (List.splitOnP_ne_nil (separator U) (rs.filter fun c => !U.isMark c))
        have hsep : separator U r = false := by simp [separator, UnicodeTables.isWordRune, hw]
        have hr := (foldRunes_written U rs).2 p ps hp
        simp [foldRunes, hm, hw, tokens, List.splitOnP_cons_eq_if_modifyHead, hsep, hp, hr,
          joinWords_cons]
      · have hsep : separator U r = true := by simp [separator, UnicodeTables.isWordRune, hw]
        simp [foldRunes, hm, hw, tokens, List.splitOnP_cons_eq_if_modifyHead, hsep, ih]

theorem foldSearch_eq (text : Text) : foldSearch U text = joinWords (foldWords U text) :=
  foldRunes_fresh U false _

theorem rdropWhile_cons (p : Char → Bool) (c : Char) (cs : Text) :
    (c :: cs).rdropWhile p =
      if cs.rdropWhile p = [] ∧ p c = true then [] else c :: cs.rdropWhile p := by
  simp only [List.rdropWhile, List.reverse_cons, List.dropWhile_append, List.reverse_eq_nil_iff]
  by_cases h : List.dropWhile p cs.reverse = []
  · by_cases hc : p c <;> simp [h, hc]
  · simp [h]

theorem rune_not_space {c : Char} (h : U.isWordRune c = true) : jsSpace c = false :=
  (U.isWordRune_not_space h).2

theorem collapse_trimmed (text : Text) :
    (Browser.collapse U true text).rdropWhile jsSpace = joinWords (tokens (separator U) text) ∧
    ∀ p ps, text.splitOnP (separator U) = p :: ps →
      (Browser.collapse U false text).rdropWhile jsSpace =
        p ++ spaced (ps.filter fun w => !w.isEmpty) := by
  induction text with
  | nil => simp [Browser.collapse, joinWords, spaced]
  | cons c cs ih =>
    obtain ⟨p, ps, hp⟩ := List.exists_cons_of_ne_nil (List.splitOnP_ne_nil (separator U) cs)
    have hfalse := ih.2 p ps hp
    by_cases hw : U.isWordRune c
    · have hsep : separator U c = false := by simp [separator, hw]
      have hs := rune_not_space U hw
      simp [Browser.collapse, hw, rdropWhile_cons, hs, hfalse, tokens,
        List.splitOnP_cons_eq_if_modifyHead, hsep, hp, joinWords_cons]
    · have hsep : separator U c = true := by simp [separator, hw]
      have hspace : jsSpace ' ' = true := by decide
      have hrest : (tokens (separator U) cs) = (cs.splitOnP (separator U)).filter
        (fun w => !w.isEmpty) := rfl
      simp only [Browser.collapse, hw, Bool.false_eq_true, ↓reduceIte, rdropWhile_cons, ih.1, hspace,
        and_true, List.splitOnP_cons_eq_if_modifyHead, hsep, List.cons.injEq]
      refine ⟨by simp [tokens, List.splitOnP_cons_eq_if_modifyHead, hsep], ?_⟩
      rintro _ _ ⟨rfl, rfl⟩
      rw [← hrest]
      cases ht : tokens (separator U) cs with
      | nil => simp [joinWords, spaced]
      | cons w ws =>
        have hw' : w ≠ [] := (mem_tokens.mp (ht ▸ List.mem_cons_self : w ∈ tokens _ cs)).2
        simp [joinWords_cons, hw', spaced]

theorem jsTrim_collapse (text : Text) :
    jsTrim (Browser.collapse U false text) = joinWords (tokens (separator U) text) := by
  cases text with
  | nil => rfl
  | cons c cs =>
    by_cases hw : U.isWordRune c
    · obtain ⟨p, ps, hp⟩ := List.exists_cons_of_ne_nil
        (List.splitOnP_ne_nil (separator U) cs)
      have hsep : separator U c = false := by simp [separator, hw]
      have hs := rune_not_space U hw
      have hsplit : (c :: cs).splitOnP (separator U) = (c :: p) :: ps := by
        simp [List.splitOnP_cons_eq_if_modifyHead, hsep, hp]
      have hdrop : (Browser.collapse U false (c :: cs)).dropWhile jsSpace =
          Browser.collapse U false (c :: cs) := by
        simp [Browser.collapse, hw, hs]
      rw [jsTrim, trimBy, hdrop, (collapse_trimmed U (c :: cs)).2 _ _ hsplit, tokens, hsplit]
      simp [joinWords_cons]
    · have hsep : separator U c = true := by simp [separator, hw]
      have hfirst : ∀ t, (Browser.collapse U true t).dropWhile jsSpace =
          Browser.collapse U true t := by
        intro t
        induction t with
        | nil => rfl
        | cons d ds ih =>
          by_cases hd : U.isWordRune d
          · simp [Browser.collapse, hd, rune_not_space U hd]
          · simpa [Browser.collapse, hd] using ih
      have hspace : jsSpace ' ' = true := by decide
      rw [jsTrim, trimBy, Browser.collapse, if_neg hw]
      simp only [Bool.false_eq_true, ↓reduceIte, List.dropWhile_cons, hspace, hfirst]
      rw [(collapse_trimmed U cs).1]
      simp [tokens, List.splitOnP_cons_eq_if_modifyHead, hsep]

/-- The web app's fold and the API's are one function. -/
theorem fold_eq_foldSearch (text : Text) : Browser.fold U text = foldSearch U text := by
  rw [Browser.fold, Browser.foldLetters, jsTrim_collapse, normalized_eq, foldSearch_eq]
  rfl

end Fold

end Noted.Search
