import Noted.LibraryPage.View
import Noted.Search.PerField
import Noted.Validation

/-!
# What counts as a search

The API asks whether a query has search terms, the store of the library page whether
it folds to something, and the page's filter again whether it has terms. The tests
agree when every run of letters, numbers and marks of the normalized query folds to
one word. A combining mark with no letter before it is a run that folds to nothing:
it leaves an empty term.
-/

namespace Noted

open Library Search

def parseStatusFilter (U : UnicodeTables) (value query : Text) :
    Except Error (Option (List Text)) := do
  let value := trimSpace value
  if value = [] ∧ 0 < (searchTerms U query).length then pure none
  else if value = [] then pure (some [statusLearning, statusPlaying])
  else if value = "all".toList then pure none
  else
    let statuses := (value.splitOn ',').map trimSpace
    refuse (statuses.any (!validStatus ·))
      (.invalid "status must be all or a comma-separated list of learning, playing and shelved")
    pure (some statuses.eraseDups)

namespace Search

open Library.Words

variable (U : UnicodeTables)

section Words

def Spelled (p : Char → Bool) (w : Text) : Prop := w ≠ [] ∧ ∀ c ∈ w, p c = true

variable {p : Char → Bool} (hp : ∀ c, c.isLower = true → p c = true)
include hp

omit hp in
theorem readTerm_nonempty (opusParts : Bool) {w : Word} (rest : List Word) (hw : w.text ≠ []) :
    ∀ t ∈ (readTerm opusParts w rest).1, t ≠ [] := by
  have hkey : mapGet germanKeys w.text ≠ [] →
      (mapGet germanKeys w.text).filter (· ≠ ' ') ≠ [] := by
    intro hne
    exact (isLetters_chars (isLetters_mapGet (f := List.filter (· ≠ ' ')) (by decide)
      ((mapGet_ne_nil germanKeys_ne_nil _).mp hne))).1
  unfold readTerm
  dsimp only
  generalize (if shortCatalogue w.text && !w.shortAllowed then []
    else mapGet catalogues w.text) = catalogue
  split_ifs with hhob hnumber hpart hgerman
  · simp [hhob.1]
  · simp [hnumber.1]
  · simp [hnumber.1]
  · simp only [List.mem_singleton, forall_eq]
    exact List.append_ne_nil_of_left_ne_nil (hkey hgerman.1) _
  all_goals simp [hw]

theorem readTerm_spelled (opusParts : Bool) {w : Word} {rest : List Word} (hw : Spelled p w.text)
    (hrest : ∀ v ∈ rest, Spelled p v.text) : ∀ t ∈ (readTerm opusParts w rest).1, Spelled p t :=
  fun t ht => ⟨readTerm_nonempty opusParts rest hw.1 t ht,
    readTerm_made hp opusParts hw.2 (fun v hv => (hrest v hv).2) t ht⟩

theorem scanTerms_spelled (opusParts : Bool) (skip : Nat) {words : List Word}
    (h : ∀ w ∈ words, Spelled p w.text) : ∀ t ∈ scanTerms opusParts skip words, Spelled p t := by
  induction words generalizing skip with
  | nil => cases skip <;> simp [scanTerms]
  | cons w ws ih =>
    have hws : ∀ v ∈ ws, Spelled p v.text := fun v hv => h v (List.mem_cons_of_mem _ hv)
    cases skip with
    | succ skip => exact ih skip hws
    | zero =>
      intro t ht
      obtain ht | ht := List.mem_append.mp ht
      · exact readTerm_spelled hp opusParts (h w List.mem_cons_self) hws t ht
      · exact ih _ hws t ht

omit hp in
theorem splitWord_spelled {word : Text} (h : Spelled p word) (allowed : Bool) :
    ∀ w ∈ splitWord word allowed, Spelled p w.text := by
  intro w hw
  unfold splitWord at hw
  split at hw
  · rename_i head number hg
    obtain ⟨rfl, hnumber⟩ := gluedCatalogue_eq hg
    obtain ⟨c, cs, rfl, -⟩ := gluedCatalogue_head hg
    obtain ⟨d, ds, rfl, -⟩ := catalogueNumber_head hnumber
    split at hw
    · obtain rfl | rfl : w = ⟨c :: cs, allowed⟩ ∨ w = ⟨d :: ds, false⟩ := by simpa using hw
      · exact ⟨by simp, fun e he => h.2 e (List.mem_append_left _ he)⟩
      · exact ⟨by simp, fun e he => h.2 e (List.mem_append_right _ he)⟩
    · obtain rfl := List.mem_singleton.mp hw
      exact h
  · obtain rfl := List.mem_singleton.mp hw
    exact h

omit hp in
theorem wordsBy_spelled {q : Text} (allowed : Span Char → Bool)
    (h : ∀ s ∈ spans U.inWord (normalizedSearch U q), Spelled p (foldSearch U s.word)) :
    ∀ w ∈ wordsBy U allowed q, Spelled p w.text := by
  intro w hw
  obtain ⟨s, hs, hw⟩ := List.mem_flatMap.mp hw
  exact splitWord_spelled (h s hs) _ w hw

end Words

section Scan

theorem readTerm_ne_nil (opusParts : Bool) (w : Word) (rest : List Word) :
    (readTerm opusParts w rest).1 ≠ [] := by
  unfold readTerm
  dsimp only
  split_ifs <;> exact List.cons_ne_nil _ _

theorem scanTerms_eq_nil {opusParts : Bool} {words : List Word} :
    scanTerms opusParts 0 words = [] ↔ words = [] := by
  cases words with
  | nil => simp [scanTerms]
  | cons w ws => simp [scanTerms, readTerm_ne_nil]

theorem splitWord_ne_nil (word : Text) (allowed : Bool) : splitWord word allowed ≠ [] := by
  unfold splitWord
  split
  · split <;> exact List.cons_ne_nil _ _
  · exact List.cons_ne_nil _ _

end Scan

section Unread

theorem gluedCatalogue_lower {word head number : Text}
    (h : gluedCatalogue word = some (head, number)) : ∀ c ∈ head, c.isLower = true := by
  simp only [gluedCatalogue] at h
  split at h
  · obtain ⟨rfl, -⟩ := by simpa using h
    exact fun c hc => List.mem_takeWhile_imp hc
  · cases h

theorem englishFlat_cases {w : Text} (h : englishFlat w = true) :
    ∃ c, w = [c, 'b'] ∧ isNote c = true := by
  unfold englishFlat at h
  split at h
  · exact ⟨_, rfl, h⟩
  · cases h

/-- The fold of a run that is not one word. -/
def unread (w : Text) : Bool := w.isEmpty || w.contains ' '

theorem unread_joinWords {words : List Text} (h : ¬∃ w, words = [w]) :
    unread (joinWords words) = true := by
  match words with
  | [] => rfl
  | [w] => exact absurd ⟨w, rfl⟩ h
  | v :: w :: ws => simp [unread, joinWords_space v w ws]

theorem unread_not_word {w : Text} (h : unread w = true) : ¬isWord U w := by
  intro hw
  simp only [unread, Bool.or_eq_true, List.isEmpty_iff, List.contains_iff_mem] at h
  obtain h | h := h
  · exact hw.1 h
  · exact isWord_no_space U hw h

variable {w : Text} (h : unread w = true)
include h

theorem unread_letters : isLetters w = false := by
  rw [Bool.eq_false_iff]
  intro hletters
  obtain ⟨hne, hall⟩ := isLetters_chars hletters
  simp only [unread, Bool.or_eq_true, List.isEmpty_iff, List.contains_iff_mem] at h
  obtain h | h := h
  · exact hne h
  · exact absurd (hall ' ' h) (by decide)

theorem unread_number : catalogueNumber w = false := by
  rw [Bool.eq_false_iff]
  intro hnumber
  simp only [unread, Bool.or_eq_true, List.isEmpty_iff, List.contains_iff_mem] at h
  obtain rfl | h := h
  · cases hnumber
  · obtain hdigit | hlower := catalogueNumber_chars hnumber ' ' h
    · exact absurd hdigit (by decide)
    · exact absurd hlower (by decide)

theorem unread_ne {v : Text} (hv : isLetters v = true) : w ≠ v := by
  intro heq
  rw [heq] at h
  exact absurd hv (Bool.eq_false_iff.mp (unread_letters h))

theorem unread_mapGet {m : List (Text × Text)} (hm : ∀ p ∈ m, isLetters p.1 = true) :
    mapGet m w = [] := by
  cases hk : m.lookup w with
  | none => simp [mapGet, hk]
  | some v =>
    have hletters := isLetters_key hm (by rw [hk]; rfl : (m.lookup w).isSome = true)
    rw [unread_letters h] at hletters
    cases hletters

theorem unread_glued : gluedCatalogue w = none := by
  cases hg : gluedCatalogue w with
  | none => rfl
  | some p =>
    obtain ⟨head, number⟩ := p
    obtain ⟨hword, hnumber⟩ := gluedCatalogue_eq hg
    obtain ⟨c, cs, hhead, -⟩ := gluedCatalogue_head hg
    simp only [unread, Bool.or_eq_true, List.isEmpty_iff, List.contains_iff_mem] at h
    obtain h | h := h
    · simp [hword, hhead] at h
    · rw [hword, List.mem_append] at h
      obtain h | h := h
      · have hlower : ' '.isLower = true := gluedCatalogue_lower hg ' ' h
        exact absurd hlower (by decide)
      · obtain hdigit | hlower := catalogueNumber_chars hnumber ' ' h
        · exact absurd hdigit (by decide)
        · exact absurd hlower (by decide)

theorem unread_roman : romanNumeral w = false := by
  rw [Bool.eq_false_iff]
  intro hroman
  have hletters := isLetters_roman hroman
  rw [unread_letters h] at hletters
  cases hletters

theorem unread_not_absorbable : absorbable w = false := by
  have hmode := unread_mapGet h (m := germanModes) (by decide)
  have hmajor := unread_ne h (v := "major".toList) (by decide)
  have hminor := unread_ne h (v := "minor".toList) (by decide)
  have hsharp := unread_ne h (v := "sharp".toList) (by decide)
  have hflat := unread_ne h (v := "flat".toList) (by decide)
  have hm := unread_ne h (v := "m".toList) (by decide)
  simp [absorbable, unread_roman h, unread_number h, hmode] at *
  exact ⟨hmajor, hminor, hsharp, hflat, hm⟩

theorem unread_not_note : ¬(byteLen w = 1 ∧ contains "abcdefg".toList w = true) := by
  intro hnote
  obtain ⟨c, rfl⟩ := byteLen_eq_one hnote.1
  have hletters := isLetters_note (c := c) hnote.2
  rw [unread_letters h] at hletters
  cases hletters

theorem unread_not_flat : englishFlat w = false := by
  rw [Bool.eq_false_iff]
  intro hflat
  obtain ⟨c, rfl, hc⟩ := englishFlat_cases hflat
  have hletters := isLetters_note hc
  have hall : isLetters [c, 'b'] = true := by
    obtain ⟨-, hlower⟩ := isLetters_chars hletters
    simp [isLetters, hlower c (List.mem_singleton_self c)]
  rw [unread_letters h] at hall
  cases hall

theorem readTerm_unread (opusParts : Bool) (allowed : Bool) (rest : List Word) :
    readTerm opusParts ⟨w, allowed⟩ rest = ([w], 0) := by
  have hcat : (if shortCatalogue w && !allowed then [] else mapGet catalogues w) = [] := by
    split
    · rfl
    · exact unread_mapGet h (by decide)
  have hkey := unread_mapGet h (m := germanKeys) (by decide)
  have hnote := unread_not_note h
  unfold readTerm
  dsimp only
  rw [hcat, hkey, unread_not_flat h]
  rw [if_neg (by rintro ⟨hhob, -⟩; cases hhob), if_neg (by simp), if_neg (by simp),
    if_neg (by simp), if_neg (fun hn => hnote ⟨hn.1, hn.2.1⟩),
    if_neg (fun hn => hnote ⟨hn.1, hn.2.1⟩)]

end Unread

section Queries

variable {q : Text}

/-- Every run of letters, numbers and marks of the normalized query folds to one word. -/
def RunsFold (q : Text) : Prop :=
  ∀ s ∈ spans U.inWord (normalizedSearch U q), ∃ w, foldWords U s.word = [w]

theorem foldSearch_of_one {t w : Text} (h : foldWords U t = [w]) :
    foldSearch U t = w ∧ isWord U w := by
  refine ⟨by simp [foldSearch_eq, h, joinWords], ?_⟩
  have hmem : w ∈ foldWords U t := by simp [h]
  exact isWord_of_mem_foldWords U hmem

theorem scanTerms_words (h : RunsFold U q) (allowed : Span Char → Bool) :
    ∀ t ∈ scanTerms false 0 (wordsBy U allowed q), isWord U t := by
  have hlower : ∀ c : Char, c.isLower = true → U.isWordRune c = true := by
    intro c hc
    exact (isWord_letters U (w := [c]) (by simp [isLetters, hc])).2 c (List.mem_singleton_self c)
  refine scanTerms_spelled hlower false 0 (wordsBy_spelled U allowed ?_)
  intro s hs
  obtain ⟨v, hv⟩ := h s hs
  obtain ⟨hfold, hword⟩ := foldSearch_of_one U hv
  rw [hfold]
  exact hword

theorem wordsBy_eq_nil (allowed : Span Char → Bool) :
    wordsBy U allowed q = [] ↔ spans U.inWord (normalizedSearch U q) = [] := by
  rw [wordsBy, List.flatMap_eq_nil_iff]
  constructor
  · intro h
    rw [List.eq_nil_iff_forall_not_mem]
    intro s hs
    exact splitWord_ne_nil _ _ (h s hs)
  · intro h
    simp [h]

theorem foldWords_of_no_spans (h : spans U.inWord (normalizedSearch U q) = []) :
    foldWords U q = [] := by
  rw [List.eq_nil_iff_forall_not_mem]
  intro w hw
  obtain ⟨hne, hrunes⟩ := isWord_of_mem_foldWords U hw
  obtain ⟨c, hc⟩ := List.exists_mem_of_ne_nil w hne
  have hmem : c ∈ unmarked U q :=
    (infix_of_mem_splitOnP (mem_tokens.mp hw).1).subset hc
  have hin : c ∈ normalizedSearch U q := (List.mem_filter.mp hmem).1
  obtain ⟨s, hs, -⟩ := exists_mem_spans hin (U.isWordRune_inWord (hrunes c hc))
  rw [h] at hs
  cases hs

theorem foldSearch_eq_nil : foldSearch U q = [] ↔ foldWords U q = [] := by
  rw [foldSearch_eq]
  exact joinWords_eq_nil fun w hw => (isWord_of_mem_foldWords U hw).1

theorem spans_of_foldWords (h : RunsFold U q) (hfold : foldWords U q = []) :
    spans U.inWord (normalizedSearch U q) = [] := by
  rw [List.eq_nil_iff_forall_not_mem]
  intro s hs
  obtain ⟨w, hw⟩ := h s hs
  have hnil := foldSearch_marks U (span_marks U hfold s hs)
  rw [foldSearch_eq_nil, hw] at hnil
  cases hnil

theorem mem_terms_of_unread {s : Span Char} (hs : s ∈ spans U.inWord (normalizedSearch U q))
    (hunread : unread (foldSearch U s.word) = true) (allowed : Span Char → Bool)
    (opusParts : Bool) : foldSearch U s.word ∈ scanTerms opusParts 0 (wordsBy U allowed q) := by
  obtain ⟨before, after, hspans⟩ := List.append_of_mem hs
  have hwords : wordsBy U allowed q =
      before.flatMap (fun s => splitWord (foldSearch U s.word) (allowed s)) ++
        ⟨foldSearch U s.word, allowed s⟩ ::
          after.flatMap (fun s => splitWord (foldSearch U s.word) (allowed s)) := by
    rw [wordsBy, hspans, List.flatMap_append, List.flatMap_cons]
    simp [splitWord, unread_glued hunread]
  obtain ⟨terms, hterms⟩ := @scanTerms_append opusParts
    (before.flatMap fun s => splitWord (foldSearch U s.word) (allowed s))
    (⟨foldSearch U s.word, allowed s⟩ ::
      after.flatMap (fun s => splitWord (foldSearch U s.word) (allowed s)))
    (unread_not_absorbable hunread)
  rw [hwords, hterms, scanTerms, readTerm_unread hunread]
  simp

/-- The terms of a query are words, there are none exactly when the query folds to
nothing, and the three tests for a search agree. -/
structure WellFormed (q : Text) : Prop where
  terms : ∀ t ∈ searchTerms U q, isWord U t
  browserTerms : ∀ t ∈ Browser.searchTerms U q, isWord U t
  empty : searchTerms U q = [] ↔ foldSearch U q = []
  browserEmpty : Browser.searchTerms U q = [] ↔ Browser.fold U q = []
  /-- The API drops the status filter when the page's store says it is searching. -/
  server : parseStatusFilter U [] q = .ok none ↔ LibraryPage.searching U q = true
  /-- So does the page's filter. -/
  filter : 0 < (Browser.searchTerms U q).length ↔ LibraryPage.searching U q = true

theorem browser_searchTerms_eq_scan :
    Browser.searchTerms U q = scanTerms false 0 (wordsBy U Browser.spanAllowed q) := by
  rw [← browser_catalogueWords_eq, ← scanTerms_eq]
  rfl

theorem parseStatusFilter_nil : parseStatusFilter U [] q = .ok none ↔ searchTerms U q ≠ [] := by
  have htrim : trimSpace [] = [] := rfl
  rw [parseStatusFilter, htrim]
  by_cases h : searchTerms U q = []
  · simp [h, pure, Except.pure]
  · simp [h, List.length_pos_iff, pure, Except.pure]

/-- A query is searched for as it is understood exactly when its runs fold to words. -/
theorem wellFormed_iff (q : Text) : WellFormed U q ↔ RunsFold U q := by
  constructor
  · intro h s hs
    by_contra hbad
    have hunread : unread (foldSearch U s.word) = true := by
      rw [foldSearch_eq]
      exact unread_joinWords hbad
    exact unread_not_word U hunread
      (h.terms _ (mem_terms_of_unread U hs hunread spanAllowed false))
  · intro h
    have hnone : ∀ allowed, scanTerms false 0 (wordsBy U allowed q) = [] ↔
        foldSearch U q = [] := by
      intro allowed
      rw [scanTerms_eq_nil, wordsBy_eq_nil, foldSearch_eq_nil]
      exact ⟨foldWords_of_no_spans U, spans_of_foldWords U h⟩
    have hserver : searchTerms U q = [] ↔ foldSearch U q = [] := hnone spanAllowed
    have hbrowser : Browser.searchTerms U q = [] ↔ foldSearch U q = [] := by
      rw [browser_searchTerms_eq_scan]
      exact hnone Browser.spanAllowed
    have hsearching : LibraryPage.searching U q = true ↔ foldSearch U q ≠ [] := by
      simp [LibraryPage.searching, fold_eq_foldSearch]
    refine ⟨?_, ?_, hserver, ?_, ?_, ?_⟩
    · exact scanTerms_words U h spanAllowed
    · rw [browser_searchTerms_eq_scan]
      exact scanTerms_words U h Browser.spanAllowed
    · rw [fold_eq_foldSearch]
      exact hbrowser
    · rw [parseStatusFilter_nil, hsearching]
      exact not_congr hserver
    · rw [hsearching, List.length_pos_iff]
      exact not_congr hbrowser

theorem not_runsFold_of_marks {s : Span Char} (hs : s ∈ spans U.inWord (normalizedSearch U q))
    (hmarks : ∀ c ∈ s.word, U.isMark c = true) : ¬RunsFold U q := by
  intro h
  obtain ⟨w, hw⟩ := h s hs
  have hnil := foldSearch_marks U hmarks
  rw [foldSearch_eq_nil, hw] at hnil
  cases hnil

/-- An accent alone is a search for the empty term to the API and to the page's filter,
and no search to the store. -/
theorem not_wellFormed_accent :
    ¬WellFormed basicTables [Char.ofNat 0x301] ∧
      Browser.searchTerms basicTables [Char.ofNat 0x301] = [[]] ∧
      LibraryPage.searching basicTables [Char.ofNat 0x301] = false := by
  have hterms : Browser.searchTerms basicTables [Char.ofNat 0x301] = [[]] := by decide +kernel
  have hsearching : LibraryPage.searching basicTables [Char.ofNat 0x301] = false := by
    decide +kernel
  refine ⟨?_, hterms, hsearching⟩
  intro h
  have hfilter := h.filter
  rw [hterms, hsearching] at hfilter
  simp at hfilter

section EmptyTerms

/-- No run of the normalized query folds to nothing. -/
def NoEmptyRun (q : Text) : Prop :=
  ∀ s ∈ spans U.inWord (normalizedSearch U q), foldWords U s.word ≠ []

theorem empty_term_iff : [] ∉ Browser.searchTerms U q ↔ NoEmptyRun U q := by
  rw [browser_searchTerms_eq_scan]
  constructor
  · intro h s hs hnil
    have hfold : foldSearch U s.word = [] := (foldSearch_eq_nil U).mpr hnil
    have hunread : unread (foldSearch U s.word) = true := by
      rw [hfold]
      rfl
    exact h (hfold ▸ mem_terms_of_unread U hs hunread Browser.spanAllowed false)
  · intro h hmem
    have hspelled := scanTerms_spelled (p := fun _ => true) (fun _ _ => rfl) false 0
      (wordsBy_spelled U Browser.spanAllowed fun s hs =>
        ⟨fun hnil => h s hs ((foldSearch_eq_nil U).mp hnil), fun _ _ => rfl⟩)
    exact (hspelled [] hmem).1 rfl

end EmptyTerms

end Queries

end Search

end Noted
