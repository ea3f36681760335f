import Noted.Composers
import Noted.LibraryPage.View
import Noted.Search.PerField

/-!
# A longer search

A query that is typed on may be read in another way: "cis" is a word, "cis moll" is
C♯ minor. A piece that matches the longer query matches each term of the shorter one
that the longer one keeps, and only those: a term that lies in one of its terms, and
for a key that is one of its terms or one of them without its mode. All that is read
before the last words is read the same.
-/

namespace Noted.LibraryPage

open Library.Words Search

variable (U : UnicodeTables) (collate : Text → Text → Ordering)

def keeps (u t : Text) : Bool :=
  if isKeyTerm t then u == t || (!hasMode t && isKeyTerm u && t.isPrefixOf u) else contains u t

def matchesPiece (piece : PieceSummary) (term : Text) : Bool :=
  Browser.matchesSearchTerm piece.searchText term

section Kept

variable {index t u : Text}

theorem keeps_self (t : Text) : keeps t t = true := by
  unfold keeps
  split
  · simp
  · exact contains_iff.mpr List.infix_rfl

theorem browser_matches_other (h : isKeyTerm t = false) :
    Browser.matchesSearchTerm index t = true ↔ t <:+: index := by
  rw [Browser.matchesSearchTerm, isKeyTerm_eq, h, Bool.not_false, if_pos rfl, contains_iff]

theorem browser_matches_key (h : isKeyTerm t = true) :
    Browser.matchesSearchTerm index t = true ↔
      ∃ w ∈ index.splitOn ' ', w = t ∨ (hasMode t = false ∧ t <+: w) := by
  rw [Browser.matchesSearchTerm, isKeyTerm_eq, h, Bool.not_true, if_neg Bool.false_ne_true,
    List.any_eq_true]
  refine exists_congr fun w => and_congr_right fun _ => ?_
  rw [Bool.or_eq_true, beq_iff_eq, Bool.and_eq_true, Bool.not_eq_true',
    List.isPrefixOf_iff_prefix]
  rfl

theorem infix_of_matches (h : Browser.matchesSearchTerm index u = true) : u <:+: index := by
  cases hkey : isKeyTerm u with
  | false => exact (browser_matches_other hkey).mp h
  | true =>
    obtain ⟨w, hw, hword⟩ := (browser_matches_key hkey).mp h
    have hin := infix_of_mem_splitOn hw
    obtain rfl | ⟨-, hprefix⟩ := hword
    · exact hin
    · exact hprefix.isInfix.trans hin

theorem matches_of_keeps (hkeeps : keeps u t = true)
    (h : Browser.matchesSearchTerm index u = true) : Browser.matchesSearchTerm index t = true := by
  unfold keeps at hkeeps
  split at hkeeps
  · rename_i hkey
    simp only [Bool.or_eq_true, Bool.and_eq_true, beq_iff_eq, Bool.not_eq_true',
      List.isPrefixOf_iff_prefix] at hkeeps
    obtain rfl | ⟨⟨hmode, hkeyU⟩, hprefix⟩ := hkeeps
    · exact h
    · obtain ⟨w, hw, hword⟩ := (browser_matches_key hkeyU).mp h
      refine (browser_matches_key hkey).mpr ⟨w, hw, Or.inr ⟨hmode, ?_⟩⟩
      obtain rfl | ⟨-, hlonger⟩ := hword
      · exact hprefix
      · exact hprefix.trans hlonger
  · rename_i hkey
    rw [browser_matches_other (Bool.not_eq_true _ ▸ hkey)]
    exact (contains_iff.mp hkeeps).trans (infix_of_matches h)

/-- The word of a text that matches a term and no other term than it must. -/
def onlyMatch (u : Text) : Text := if isKeyTerm u then u else '-' :: u

theorem onlyMatch_space (h : ' ' ∉ u) : ' ' ∉ onlyMatch u := by
  unfold onlyMatch
  split
  · exact h
  · rw [List.mem_cons, not_or]
    exact ⟨by decide, h⟩

variable {terms : List Text}

theorem splitOn_onlyMatches (hspace : ∀ u ∈ terms, ' ' ∉ u) (hne : terms ≠ []) :
    (joinWords (terms.map onlyMatch)).splitOn ' ' = terms.map onlyMatch := by
  refine List.splitOn_intercalate ' ' ?_ (by simpa using hne)
  intro w hw
  obtain ⟨u, hu, rfl⟩ := List.mem_map.mp hw
  exact onlyMatch_space (hspace u hu)

theorem matches_onlyMatch (hspace : ∀ u ∈ terms, ' ' ∉ u) (hu : u ∈ terms) :
    Browser.matchesSearchTerm (joinWords (terms.map onlyMatch)) u = true := by
  have hmem : onlyMatch u ∈ (joinWords (terms.map onlyMatch)).splitOn ' ' := by
    rw [splitOn_onlyMatches hspace (List.ne_nil_of_mem hu)]
    exact List.mem_map.mpr ⟨u, hu, rfl⟩
  cases hkey : isKeyTerm u with
  | true =>
    rw [onlyMatch, if_pos hkey] at hmem
    exact (browser_matches_key hkey).mpr ⟨u, hmem, Or.inl rfl⟩
  | false =>
    rw [onlyMatch, hkey, if_neg Bool.false_ne_true] at hmem
    rw [browser_matches_other hkey]
    exact (List.suffix_cons '-' u).isInfix.trans (infix_of_mem_splitOn hmem)

theorem keeps_of_onlyMatch (hspace : ∀ u ∈ terms, ' ' ∉ u) (hword : isWord U t)
    (h : Browser.matchesSearchTerm (joinWords (terms.map onlyMatch)) t = true) :
    ∃ u ∈ terms, keeps u t = true := by
  have hne : terms ≠ [] := by
    rintro rfl
    exact hword.1 (List.infix_nil.mp (infix_of_matches h))
  have hdash : '-' ∉ t := by
    intro hmem
    have hrune := hword.2 '-' hmem
    rw [U.isWordRune_ascii (by decide)] at hrune
    exact absurd hrune (by decide)
  cases hkey : isKeyTerm t with
  | true =>
    obtain ⟨w, hw, hmatch⟩ := (browser_matches_key hkey).mp h
    rw [splitOn_onlyMatches hspace hne] at hw
    obtain ⟨u, hu, rfl⟩ := List.mem_map.mp hw
    refine ⟨u, hu, ?_⟩
    unfold keeps
    rw [if_pos hkey]
    unfold onlyMatch at hmatch
    cases hkeyU : isKeyTerm u with
    | true =>
      rw [if_pos hkeyU] at hmatch
      obtain rfl | ⟨hmode, hprefix⟩ := hmatch
      · simp
      · simp [hmode, List.isPrefixOf_iff_prefix.mpr hprefix]
    | false =>
      -- no key starts with the dash before a term that is no key
      rw [hkeyU, if_neg Bool.false_ne_true] at hmatch
      exfalso
      obtain heq | ⟨-, hprefix⟩ := hmatch
      · exact hdash (heq ▸ List.mem_cons_self)
      · cases t with
        | nil => exact hword.1 rfl
        | cons c cs =>
          rw [List.cons_prefix_cons] at hprefix
          exact hdash ( hprefix.1 ▸ List.mem_cons_self)
  | false =>
    have hin := (browser_matches_other hkey).mp h
    have hsplit : ∀ c ∈ t, (c == ' ') = false := by
      intro c hc
      rw [beq_eq_false_iff_ne]
      rintro rfl
      exact isWord_no_space U hword hc
    obtain ⟨v, hv, hin⟩ := (infix_iff_exists_tokens (p := (· == ' ')) hword.1 hsplit).mp hin
    have hv' := (mem_tokens.mp hv).1
    rw [← List.splitOn_eq_splitOnP, splitOn_onlyMatches hspace hne] at hv'
    obtain ⟨u, hu, rfl⟩ := List.mem_map.mp hv'
    refine ⟨u, hu, ?_⟩
    unfold keeps
    rw [hkey, if_neg Bool.false_ne_true, contains_iff]
    unfold onlyMatch at hin
    split at hin
    · exact hin
    · have hafter : t <:+: [] ++ '-' :: u := hin
      obtain hnil | hu' := (infix_append_cons hdash).mp hafter
      · exact absurd (List.infix_nil.mp hnil) hword.1
      · exact hu'

end Kept

section Scan

variable {opusParts : Bool}

theorem readTerm_skip (w : Word) (rest : List Word) : (readTerm opusParts w rest).2 ≤ 2 := by
  unfold readTerm
  dsimp only
  generalize (if shortCatalogue w.text && !w.shortAllowed then []
    else mapGet catalogues w.text) = catalogue
  split_ifs <;> simp

/-- A turn of the scan reads two words ahead. -/
theorem readTerm_ahead (w : Word) {rest rest' : List Word} (h : rest.take 2 = rest'.take 2) :
    readTerm opusParts w rest = readTerm opusParts w rest' := by
  have hat : ∀ k < 2, wordAt rest k = wordAt rest' k := by
    intro k hk
    have htake := congrArg (fun l : List Word => l[k]?) h
    simp only [List.getElem?_take, hk, if_true] at htake
    simp only [wordAt, htake]
  unfold readTerm
  rw [hat 0 (by decide), hat 1 (by decide)]

/-- Two texts that start with the same words are read the same up to the last two of them. -/
theorem scanTerms_common (ws rest rest' : List Word) :
    ∃ k T, k ≤ ws.length ∧ ws.length ≤ k + 2 ∧
      scanTerms opusParts 0 (ws ++ rest) = T ++ scanTerms opusParts 0 (ws.drop k ++ rest) ∧
      scanTerms opusParts 0 (ws ++ rest') = T ++ scanTerms opusParts 0 (ws.drop k ++ rest') := by
  induction hlen : ws.length using Nat.strong_induction_on generalizing ws with
  | _ n ih =>
  by_cases hshort : ws.length ≤ 2
  · exact ⟨0, [], by omega, by omega, rfl, rfl⟩
  · cases ws with
    | nil => simp at hshort
    | cons w ws =>
      rw [List.length_cons] at hlen hshort
      have htake : (ws ++ rest).take 2 = (ws ++ rest').take 2 := by
        rw [List.take_append_of_le_length (by omega), List.take_append_of_le_length (by omega)]
      have hread : readTerm opusParts w (ws ++ rest') = readTerm opusParts w (ws ++ rest) :=
        (readTerm_ahead w htake).symm
      have hskip : (readTerm opusParts w (ws ++ rest)).2 ≤ 2 := readTerm_skip w (ws ++ rest)
      obtain ⟨k, T, hk, hlast, hT, hT'⟩ := ih (ws.drop (readTerm opusParts w (ws ++ rest)).2).length
        (by rw [List.length_drop]; omega) _ rfl
      rw [List.length_drop] at hk hlast
      refine ⟨(readTerm opusParts w (ws ++ rest)).2 + k + 1,
        (readTerm opusParts w (ws ++ rest)).1 ++ T, by omega, by omega, ?_, ?_⟩
      · rw [List.cons_append, scanTerms, scanTerms_drop opusParts (by omega), hT,
          List.append_assoc, List.drop_succ_cons, List.drop_drop]
      · rw [List.cons_append, scanTerms, hread, scanTerms_drop opusParts (by omega), hT',
          List.append_assoc, List.drop_succ_cons, List.drop_drop]

end Scan

section Words

theorem wordsBy_before (a b : Text) : ∃ rest,
    wordsBy U Browser.spanAllowed (a ++ ' ' :: b) = wordsBy U Browser.spanAllowed a ++ rest := by
  rw [wordsBy, normalizedSearch_space, spans_append_cons _ _ U.inWord_space, List.flatMap_append]
  refine ⟨_, congrArg (· ++ _) ?_⟩
  rw [List.flatMap_map]
  refine List.flatMap_congr fun s _ => ?_
  have hallowed : Browser.spanAllowed (s.extend (' ' :: normalizedSearch U b)) =
      Browser.spanAllowed s := by
    unfold Browser.spanAllowed Span.extend
    cases s.after <;> rfl
  rw [hallowed]
  rfl

end Words

section Narrowing

variable {q s : Text}

theorem searchTerms_common (a b s : Text) :
    ∃ k T, k ≤ (wordsBy U Browser.spanAllowed a).length ∧
      (wordsBy U Browser.spanAllowed a).length ≤ k + 2 ∧
      Browser.searchTerms U (a ++ ' ' :: b) =
        T ++ scanTerms false 0 ((Browser.catalogueWords U (a ++ ' ' :: b)).drop k) ∧
      Browser.searchTerms U (a ++ ' ' :: b ++ s) =
        T ++ scanTerms false 0 ((Browser.catalogueWords U (a ++ ' ' :: b ++ s)).drop k) := by
  obtain ⟨rest, hrest⟩ := wordsBy_before U a b
  obtain ⟨rest', hrest'⟩ := wordsBy_before U a (b ++ s)
  obtain ⟨k, T, hk, hlast, hT, hT'⟩ := @scanTerms_common false
    (wordsBy U Browser.spanAllowed a) rest rest'
  have hassoc : a ++ ' ' :: b ++ s = a ++ ' ' :: (b ++ s) := by simp
  refine ⟨k, T, hk, hlast, ?_, ?_⟩
  · rw [Browser.searchTerms, Browser.catalogueTerms, scanTerms_eq, browser_catalogueWords_eq,
      hrest, hT, List.drop_append_of_le_length hk]
  · rw [hassoc, Browser.searchTerms, Browser.catalogueTerms, scanTerms_eq,
      browser_catalogueWords_eq, hrest', hT', List.drop_append_of_le_length hk]

theorem matches_kept {t : Text} (hterms : ∀ u ∈ Browser.searchTerms U (q ++ s), ' ' ∉ u)
    (hword : isWord U t) :
    (∀ piece : PieceSummary, (∀ u ∈ Browser.searchTerms U (q ++ s), matchesPiece piece u = true) →
      matchesPiece piece t = true) ↔
      ∃ u ∈ Browser.searchTerms U (q ++ s), keeps u t = true := by
  constructor
  · intro h
    let piece : PieceSummary :=
      { id := default
        title := []
        composer := []
        aliases := []
        favorite := false
        status := statusPlaying
        listeningURL := []
        pdfPages := none
        lastPlayedAt := none
        createdAt := default
        searchText := joinWords ((Browser.searchTerms U (q ++ s)).map onlyMatch) }
    exact keeps_of_onlyMatch U hterms hword
      (h piece fun u hu => matches_onlyMatch hterms hu)
  · intro h piece hpiece
    obtain ⟨u, hu, hkeeps⟩ := h
    exact matches_of_keeps hkeeps (hpiece u hu)

theorem filter_narrows {pieces : List PieceSummary} {filter : LibraryFilter} {sort : LibrarySort}
    (hkeeps : ∀ t ∈ Browser.searchTerms U q,
      ∃ u ∈ Browser.searchTerms U (q ++ s), keeps u t = true)
    (hshelved : filter = .current → Browser.searchTerms U q = [] →
      ∀ p ∈ pieces, p.status ≠ LibraryFilter.shelved.value) :
    ∀ p ∈ filterAndSort U collate pieces ⟨q ++ s, filter, sort⟩,
      p ∈ filterAndSort U collate pieces ⟨q, filter, sort⟩ := by
  intro p hp
  rw [mem_filterAndSort] at hp ⊢
  obtain ⟨hmem, hfilter, hmatches⟩ := hp
  refine ⟨hmem, ?_, ?_⟩
  · cases filter with
    | current =>
      by_cases hq : Browser.searchTerms U q = []
      · simp [inFilter, hshelved rfl hq p hmem]
      · simp [inFilter, List.length_pos_iff, hq]
    | all | favorites | learning | playing | shelved => exact hfilter
  · intro t ht
    obtain ⟨u, hu, hkeeps⟩ := hkeeps t ht
    exact matches_of_keeps hkeeps (hmatches u hu)

/-- Typing more narrows the search as far as it keeps what was typed: a piece that matches
the longer query matches exactly the kept terms of the shorter one; when all are kept the
longer query finds no other pieces, unless the shorter one is no search and hides the
shelved ones; and what is read before the last words is kept. -/
theorem narrows (q s : Text) :
    (∀ t ∈ Browser.searchTerms U q, isWord U t →
      (∀ u ∈ Browser.searchTerms U (q ++ s), ' ' ∉ u) →
      ((∀ piece : PieceSummary,
          (∀ u ∈ Browser.searchTerms U (q ++ s), matchesPiece piece u = true) →
            matchesPiece piece t = true) ↔
        ∃ u ∈ Browser.searchTerms U (q ++ s), keeps u t = true)) ∧
    ((∀ t ∈ Browser.searchTerms U q,
        ∃ u ∈ Browser.searchTerms U (q ++ s), keeps u t = true) →
      ∀ pieces filter sort,
        (filter = .current → Browser.searchTerms U q = [] →
          ∀ p ∈ pieces, p.status ≠ LibraryFilter.shelved.value) →
        ∀ p ∈ filterAndSort U collate pieces ⟨q ++ s, filter, sort⟩,
          p ∈ filterAndSort U collate pieces ⟨q, filter, sort⟩) ∧
    ∀ a b, q = a ++ ' ' :: b →
      ∃ k T, (wordsBy U Browser.spanAllowed a).length ≤ k + 2 ∧
        Browser.searchTerms U q = T ++ scanTerms false 0 ((Browser.catalogueWords U q).drop k) ∧
        ∀ t ∈ T, ∃ u ∈ Browser.searchTerms U (q ++ s), keeps u t = true := by
  refine ⟨?_, ?_, ?_⟩
  · intro t _ hword hterms
    exact matches_kept U hterms hword
  · intro hkeeps pieces filter sort hshelved
    exact filter_narrows U collate hkeeps hshelved
  · intro a b hq
    subst hq
    obtain ⟨k, T, -, hlast, hT, hT'⟩ := searchTerms_common U a b s
    refine ⟨k, T, hlast, hT, ?_⟩
    intro t ht
    refine ⟨t, ?_, keeps_self t⟩
    rw [hT']
    exact List.mem_append_left _ ht

def preludeInCSharp : PieceSummary where
  id := default
  title := "Prelude in C# minor".toList
  composer := []
  aliases := []
  favorite := false
  status := statusPlaying
  listeningURL := []
  pdfPages := none
  lastPlayedAt := none
  createdAt := default
  searchText := Browser.searchIndex basicTables ["Prelude in C# minor".toList]

/-- Typing "cis moll" brings back the piece in C♯ minor that "cis" hid. -/
theorem not_narrows_cis :
    preludeInCSharp ∈ filterAndSort basicTables compareText [preludeInCSharp]
        ⟨"cis moll".toList, .all, .title⟩ ∧
      preludeInCSharp ∉ filterAndSort basicTables compareText [preludeInCSharp]
        ⟨"cis".toList, .all, .title⟩ := by
  have hlong : (Browser.searchTerms basicTables "cis moll".toList).all
      (fun t => Browser.matchesSearchTerm preludeInCSharp.searchText t) = true := by
    decide +kernel
  have hshort : (Browser.searchTerms basicTables "cis".toList).all
      (fun t => Browser.matchesSearchTerm preludeInCSharp.searchText t) = false := by
    decide +kernel
  constructor
  · rw [mem_filterAndSort]
    exact ⟨List.mem_singleton_self _, rfl, List.all_eq_true.mp hlong⟩
  · rw [mem_filterAndSort]
    intro h
    rw [List.all_eq_true.mpr h.2.2] at hshort
    cases hshort

end Narrowing

end Noted.LibraryPage
