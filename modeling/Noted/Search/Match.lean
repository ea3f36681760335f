import Noted.Search.Index
import Noted.Search.Agreement

/-!
# The three matchers

A term is matched by a LIKE clause in the database, by `matchesSearchTerm` in
the API and by its namesake in the web app. A key is a whole word or a word's
prefix and any other term a part of the text. The three agree on every index
text, because its only white space is the space.
-/

namespace Noted.Search

open Library.Words
open Library (Like.like Like.quote)

variable (U : UnicodeTables)

section Keys

theorem isKeyTerm_eq (term : Text) : Browser.isKeyTerm term = isKeyTerm term := by
  cases term with
  | nil => rfl
  | cons c rest =>
    rw [Bool.eq_iff_iff]
    simp only [Browser.isKeyTerm, isKeyTerm, Bool.and_eq_true, isNote_iff, decide_eq_true_iff,
      List.contains_iff_mem, List.mem_cons, List.not_mem_nil, Bool.or_eq_true, beq_iff_eq,
      or_false, or_assoc]

theorem isKeyTerm_runes {term : Text} (h : isKeyTerm term = true) :
    term ≠ [] ∧ ' ' ∉ term := by
  cases term with
  | nil => simp [isKeyTerm] at h
  | cons c rest =>
    simp only [isKeyTerm, Bool.and_eq_true, Bool.or_eq_true, beq_iff_eq, or_assoc] at h
    have hc : c ≠ ' ' := by
      rintro rfl
      exact absurd h.1 (by decide)
    refine ⟨by simp, ?_⟩
    rw [List.mem_cons, not_or]
    refine ⟨hc.symm, ?_⟩
    rcases h.2 with rfl | rfl | rfl | rfl | rfl | rfl | rfl | rfl <;> decide

end Keys

section Clause

theorem like_clause_contains (text word : Text) :
    Like.like '\\' text ("%".toList ++ likeEscape word ++ "%".toList) =
      some (contains text word) := by
  have h := Library.Like.like_contains (by decide : '\\' ≠ '%') text word
  rw [likeEscape_eq_quote]
  refine h.trans ?_
  rw [Option.some_inj, Bool.eq_iff_iff, decide_eq_true_iff, contains_iff]

theorem likeEscape_spaced (word suffix : Text) (hs : suffix = [] ∨ suffix = [' ']) :
    likeEscape (' ' :: word ++ suffix) = ' ' :: likeEscape word ++ suffix := by
  rw [likeEscape_eq_quote, likeEscape_eq_quote]
  rcases hs with rfl | rfl <;> simp [Like.quote]

theorem likeClause_key (text : Text) {term : Text} (h : isKeyTerm term = true) :
    likeClause text term = some (contains (' ' :: text ++ [' '])
      (' ' :: term ++ if hasMode term then [' '] else [])) := by
  have hsuffix : (if hasMode term then [' '] else []) = [] ∨
      (if hasMode term then [' '] else []) = [' '] := by
    cases hasMode term <;> simp
  rw [← like_clause_contains, likeEscape_spaced term _ hsuffix]
  cases hm : hasMode term <;> simp [likeClause, searchPattern, h, hm, SearchColumn.read]

theorem likeClause_other (text : Text) {term : Text} (h : isKeyTerm term = false) :
    likeClause text term = some (contains text term) := by
  rw [← like_clause_contains]
  simp [likeClause, searchPattern, h, SearchColumn.read]

end Clause

section Agree

theorem fields_eq_splitOn {index : Text} (h : isIndexText U index) :
    fields index = (index.splitOn ' ').filter fun w => !w.isEmpty := by
  rw [fields, tokens, splitOnP_congr fun c hc => isIndexRune_goSpace U (h c hc),
    List.splitOn_eq_splitOnP]

/-- The web app splits at every space and the API leaves out the empty pieces. -/
theorem any_fields_eq {index : Text} (h : isIndexText U index) (p : Text → Bool)
    (hp : p [] = false) : (fields index).any p = (index.splitOn ' ').any p := by
  rw [fields_eq_splitOn U h, List.any_filter, Bool.eq_iff_iff]
  simp only [List.any_eq_true, Bool.and_eq_true, Bool.not_eq_true']
  constructor
  · rintro ⟨w, hw, -, hpw⟩
    exact ⟨w, hw, hpw⟩
  · rintro ⟨w, hw, hpw⟩
    refine ⟨w, hw, ?_, hpw⟩
    cases w with
    | nil => simp [hp] at hpw
    | cons c cs => rfl

theorem wholeWord_iff {text term : Text} (hspace : ' ' ∉ term) :
    contains (' ' :: text ++ [' ']) (' ' :: term ++ [' ']) = true ↔ term ∈ text.splitOn ' ' := by
  rw [contains_iff, mem_splitOn_iff hspace]

theorem wordPrefix_iff {text term : Text} (hspace : ' ' ∉ term) :
    contains (' ' :: text ++ [' ']) (' ' :: term) = true ↔ ∃ v ∈ text.splitOn ' ', term <+: v := by
  rw [contains_iff, exists_prefix_splitOn_iff hspace, List.infix_concat_iff]
  constructor
  · rintro (hlast | hin)
    · rcases List.suffix_concat_iff.mp hlast with hnil | ⟨t, ht, -⟩
      · simp at hnil
      · cases t with
        | nil =>
          rw [ht]
          exact ⟨[], text, rfl⟩
        | cons c cs =>
          have hterm : term = cs ++ [' '] := by simpa using (List.cons.inj ht).2
          simp [hterm] at hspace
    · exact hin
  · exact Or.inr

theorem likeClause_eq {index : Text} (h : isIndexText U index) (term : Text) :
    likeClause index term = some (matchesSearchTerm index term) := by
  cases hk : isKeyTerm term with
  | false => rw [likeClause_other index hk, matchesSearchTerm, hk]; rfl
  | true =>
    obtain ⟨hne, hspace⟩ := isKeyTerm_runes hk
    rw [likeClause_key index hk, Option.some_inj, matchesSearchTerm, hk, Bool.eq_iff_iff]
    have hempty : (([] : Text) == term || (!hasMode term && term.isPrefixOf [])) = false := by
      cases term with
      | nil => exact absurd rfl hne
      | cons c cs => simp
    simp only [Bool.not_true, Bool.false_eq_true, ↓reduceIte]
    rw [any_fields_eq U h _ hempty]
    simp only [List.any_eq_true, Bool.or_eq_true, beq_iff_eq, Bool.and_eq_true, Bool.not_eq_true',
      List.isPrefixOf_iff_prefix]
    cases hm : hasMode term with
    | true =>
      rw [if_pos rfl, wholeWord_iff hspace]
      simp
    | false =>
      rw [if_neg (by simp), List.append_nil, wordPrefix_iff hspace]
      constructor
      · rintro ⟨v, hv, hpre⟩
        exact ⟨v, hv, Or.inr ⟨rfl, hpre⟩⟩
      · rintro ⟨v, hv, rfl | ⟨-, hpre⟩⟩
        · exact ⟨v, hv, List.prefix_rfl⟩
        · exact ⟨v, hv, hpre⟩

theorem browser_matchesSearchTerm_eq {index : Text} (h : isIndexText U index) (term : Text) :
    Browser.matchesSearchTerm index term = matchesSearchTerm index term := by
  rw [Browser.matchesSearchTerm, matchesSearchTerm, isKeyTerm_eq]
  cases hk : isKeyTerm term with
  | false => rfl
  | true =>
    obtain ⟨hne, -⟩ := isKeyTerm_runes hk
    have hempty : (([] : Text) == term || (!hasMode term && term.isPrefixOf [])) = false := by
      cases term with
      | nil => exact absurd rfl hne
      | cons c cs => simp
    rw [any_fields_eq U h _ hempty]
    rfl

/-- The database, the API and the web app give one answer for every term and every index
text, whichever of the two programs made it. -/
theorem matchers_agree {texts : List Text} {index : Text}
    (hindex : index = searchIndex U texts ∨ index = Browser.searchIndex U texts) (term : Text) :
    likeClause index term = some (matchesSearchTerm index term) ∧
      Browser.matchesSearchTerm index term = matchesSearchTerm index term := by
  have hrunes : isIndexText U index := by
    rcases hindex with rfl | rfl
    · exact searchIndex_runes U texts
    · exact browser_searchIndex_runes U texts
  exact ⟨likeClause_eq U hrunes term, browser_matchesSearchTerm_eq U hrunes term⟩

theorem matchers_agree_cSharpMinor :
    likeClause (searchIndex basicTables ["Prelude in C# minor".toList]) "csharpminor".toList =
        some (matchesSearchTerm (searchIndex basicTables ["Prelude in C# minor".toList])
          "csharpminor".toList) ∧
      Browser.matchesSearchTerm (searchIndex basicTables ["Prelude in C# minor".toList])
          "csharpminor".toList =
        matchesSearchTerm (searchIndex basicTables ["Prelude in C# minor".toList])
          "csharpminor".toList :=
  matchers_agree basicTables (Or.inl rfl) _

end Agree

end Noted.Search
