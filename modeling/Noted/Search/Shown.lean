import Noted.Search.Spans

/-!
# The matches a row shows

The filter matches a term against the index: a word of the text's fold, a number or key
that the parse joins, or a number within an opus. The highlighter looks for it in the
words of the fold, and among the numbers and keys of the words as the text writes them. So
a row may not show a term that matches inside a number or key, or in a number within an
opus, and none of a query with an empty term.
-/

namespace Noted.LibraryPage

open Library Library.Words
open Search (Word foldWords matchesWord MadeOf)
open Browser (FoldedWord foldWithOffsets folded foldedWords searchTermSpans joinedTerms
  opusPartTerms shows catalogueWords pushWords writtenAllowed)
open Browser.Utf16 (PerCharacter)

variable (U : UnicodeTables)

section Ways

def numbers (text : Text) : List Text := joinedTerms 0 (catalogueWords U text)

/-- The numbers within an opus that the index has. -/
def opusParts (text : Text) : List Text := opusPartTerms 0 (catalogueWords U text)

def writtenWords (text : Text) : List Word :=
  (List.zipWith (fun w s => pushWords w (writtenAllowed text s.word)) (foldWords U text)
    (spans (fun f => f.char != ' ') (foldWithOffsets U text))).flatten

def writtenNumbers (text : Text) : List Text := joinedTerms 0 (writtenWords U text)

def InWord (text t : Text) : Prop := ∃ w ∈ foldWords U text, t <:+: w

/-- A term is a number or key as the text is written, or the head of a key. -/
def IsNumber (text t : Text) : Prop := ∃ u ∈ writtenNumbers U text, shows u t = true

/-- The matches that the highlighter does not look for. -/
inductive MatchesInside (text t : Text) : Prop
  /-- The term is a proper part of a number or key. -/
  | number (u : Text) : u ∈ numbers U text → t <:+: u → t ≠ u → Browser.isKeyTerm t = false →
      MatchesInside text t
  /-- The term is in a number within an opus. -/
  | opusPart (u : Text) : u ∈ opusParts U text → t <:+: u → MatchesInside text t
  /-- The term is a number or key, or the head of a key, as only the index has it. -/
  | unwritten (u : Text) : u ∈ numbers U text → u ∉ writtenNumbers U text →
      shows u t = true → MatchesInside text t

end Ways

section Words

variable {U} {text t : Text}

theorem foldedWords_toWord (hper : PerCharacter U) (text : Text) :
    (foldedWords U text).map FoldedWord.toWord = writtenWords U text := by
  rw [writtenWords, ← Browser.written_fold hper, List.zipWith_map_left, List.zipWith_self,
    ← List.flatMap_def, foldedWords, List.map_flatMap]
  exact List.flatMap_congr fun s _ => Browser.foldedWord_words s.word

theorem inWord_iff (hper : PerCharacter U) (hne : t ≠ []) (hspace : ' ' ∉ t) :
    t <:+: folded (foldWithOffsets U text) ↔ InWord U text t := by
  rw [InWord, ← Browser.tokens_folded hper]
  refine infix_iff_exists_tokens hne fun c hc => ?_
  have hchar : c ≠ ' ' := by
    rintro rfl
    exact hspace hc
  simp [hchar]

theorem catalogueWords_made (hper : PerCharacter U) (hset : Browser.Settled U) :
    ∀ w ∈ catalogueWords U text, MadeOf U.isWordRune w.text := by
  intro w hw
  obtain ⟨s, hs, hw⟩ := List.mem_flatMap.mp hw
  rw [Search.pushWords_eq] at hw
  refine Search.splitWord_made ?_ _ w hw
  rw [Browser.fold_run hper hset s hs]
  intro c hc
  obtain ⟨hc, hmark⟩ := List.mem_filter.mp hc
  obtain hrune | hm := U.inWord_cases ((spans_sound hs).2.2 c hc)
  · exact hrune
  · simp [hm] at hmark

theorem catalogueTerms_made (hper : PerCharacter U) (hset : Browser.Settled U)
    (opusParts : Bool) :
    ∀ t ∈ Browser.catalogueTerms U text opusParts, MadeOf U.isWordRune t := by
  intro t ht
  rw [Browser.catalogueTerms, Search.scanTerms_eq] at ht
  exact Search.scanTerms_made (Search.isWordRune_lower U) opusParts 0 (catalogueWords_made hper hset) t ht

theorem made_no_space (h : MadeOf U.isWordRune t) : ' ' ∉ t := by
  intro hc
  simpa using h ' ' hc

theorem inWord_of_word (hper : PerCharacter U) (hset : Browser.Settled U) (hne : t ≠ [])
    {word : Text} (hword : word ∈ (catalogueWords U text).map Word.text) (ht : t <:+: word) :
    InWord U text t := by
  obtain ⟨w, hw, rfl⟩ := List.mem_map.mp hword
  obtain ⟨s, hs, hw⟩ := List.mem_flatMap.mp hw
  rw [Search.pushWords_eq] at hw
  have hin := ht.trans (Search.infix_of_mem_splitWord _ _ w hw)
  refine ⟨_, Browser.fold_mem_foldWords hper hset hs ?_, hin⟩
  intro hnil
  rw [hnil, List.infix_nil] at hin
  exact hne hin

end Words

section Matches

variable {U} {text t : Text}

theorem matchesWord_cases {u : Text} (h : matchesWord u t = true) :
    shows u t = true ∨ (t <:+: u ∧ t ≠ u ∧ Browser.isKeyTerm t = false) := by
  rw [shows, Bool.or_eq_true, Bool.and_eq_true, beq_iff_eq]
  by_cases hsame : u = t
  · exact Or.inl (Or.inl hsame)
  · cases hkey : Browser.isKeyTerm t with
    | true => exact Or.inl (Or.inr ⟨rfl, h⟩)
    | false =>
      rw [matchesWord, ← Search.isKeyTerm_eq, hkey, if_neg (by simp), contains_iff] at h
      exact Or.inr ⟨h, fun heq => hsame heq.symm, rfl⟩

theorem matchesWord_of_shows {u : Text} (h : shows u t = true) : matchesWord u t = true := by
  rw [shows, Bool.or_eq_true, Bool.and_eq_true, beq_iff_eq] at h
  obtain rfl | h := h
  · rw [matchesWord]
    split
    · simp
    · exact contains_iff.mpr List.infix_rfl
  · exact h.2

theorem matchesWord_of_infix {u : Text} (hkey : Browser.isKeyTerm t = false) (h : t <:+: u) :
    matchesWord u t = true := by
  rw [matchesWord, ← Search.isKeyTerm_eq, hkey, if_neg (by simp)]
  exact contains_iff.mpr h

theorem infix_of_matchesWord {u : Text} (h : matchesWord u t = true) : t <:+: u := by
  rw [matchesWord] at h
  split at h
  · rw [Bool.or_eq_true, beq_iff_eq, Bool.and_eq_true, List.isPrefixOf_iff_prefix] at h
    obtain rfl | ⟨-, h⟩ := h
    · exact List.infix_rfl
    · exact h.isInfix
  · exact contains_iff.mp h

theorem opusPart_not_key {u : Text} (hu : u ∈ opusParts U text) (h : t <:+: u) :
    Browser.isKeyTerm t = false := by
  rw [Bool.eq_false_iff]
  intro hkey
  rw [Search.isKeyTerm_eq] at hkey
  cases t with
  | nil => cases hkey
  | cons c rest =>
    rw [Search.isKeyTerm, Bool.and_eq_true] at hkey
    have hnote := Browser.opusPartTerms_no_note hu c (h.subset List.mem_cons_self)
    rw [hkey.1] at hnote
    cases hnote

/-- What the index matches: a word of the fold, or a term of the index parse. -/
theorem matches_iff (hper : PerCharacter U) (hset : Browser.Settled U) (hne : t ≠ [])
    (hspace : ' ' ∉ t) :
    Browser.matchesSearchTerm (Browser.searchIndex U [text]) t = true ↔
      (∃ w ∈ foldWords U text, matchesWord w t = true) ∨
        ∃ u ∈ Browser.catalogueTerms U text true, matchesWord u t = true := by
  have hfields : ∀ u ∈ Browser.catalogueTerms U text true, u ≠ [] → fields u = [u] :=
    fun u hu hunil =>
      Search.fields_of_isWord U ⟨hunil, catalogueTerms_made hper hset true u hu⟩
  rw [Search.browser_matches_iff_words U hne hspace]
  simp only [List.mem_singleton, exists_eq_left, Search.indexWords, List.mem_append, or_and_right,
    exists_or, List.mem_flatMap]
  refine or_congr Iff.rfl ⟨?_, ?_⟩
  · rintro ⟨w, ⟨u, hu, hw⟩, hmatch⟩
    have hunil : u ≠ [] := by
      rintro rfl
      cases hw
    rw [hfields u hu hunil, List.mem_singleton] at hw
    exact ⟨u, hu, hw ▸ hmatch⟩
  · rintro ⟨u, hu, hmatch⟩
    have hunil : u ≠ [] := by
      rintro rfl
      exact hne (List.infix_nil.mp (infix_of_matchesWord hmatch))
    refine ⟨u, ⟨u, hu, ?_⟩, hmatch⟩
    rw [hfields u hu hunil]
    exact List.mem_singleton_self u

/-- A term that the index matches stands in a word of the fold, or is a number or key as
it is written, or the highlighter does not look for the match. -/
theorem matches_cases (hper : PerCharacter U) (hset : Browser.Settled U) (hne : t ≠ [])
    (hspace : ' ' ∉ t)
    (h : Browser.matchesSearchTerm (Browser.searchIndex U [text]) t = true) :
    InWord U text t ∨ IsNumber U text t ∨ MatchesInside U text t := by
  obtain ⟨w, hw, hmatch⟩ | ⟨u, hu, hmatch⟩ := (matches_iff hper hset hne hspace).mp h
  · exact Or.inl ⟨w, hw, infix_of_matchesWord hmatch⟩
  · obtain hword | hnumber | hpart := Browser.mem_scanTerms 0 (catalogueWords U text) u hu
    · exact Or.inl (inWord_of_word hper hset hne hword (infix_of_matchesWord hmatch))
    · obtain hshows | ⟨hin, hproper, hkey⟩ := matchesWord_cases hmatch
      · by_cases hwritten : u ∈ writtenNumbers U text
        · exact Or.inr (Or.inl ⟨u, hwritten, hshows⟩)
        · exact Or.inr (Or.inr (.unwritten u hnumber hwritten hshows))
      · exact Or.inr (Or.inr (.number u hnumber hin hproper hkey))
    · exact Or.inr (Or.inr (.opusPart u hpart (infix_of_matchesWord hmatch)))

theorem MatchesInside.matches (hper : PerCharacter U) (hset : Browser.Settled U) (hne : t ≠ [])
    (hspace : ' ' ∉ t) (h : MatchesInside U text t) :
    Browser.matchesSearchTerm (Browser.searchIndex U [text]) t = true := by
  have hnumber := Browser.joinedTerms_subset 0 (catalogueWords U text)
  have hpart := Browser.opusPartTerms_subset 0 (catalogueWords U text)
  rw [matches_iff hper hset hne hspace]
  right
  cases h with
  | number u hu hin hproper hkey => exact ⟨u, hnumber hu, matchesWord_of_infix hkey hin⟩
  | opusPart u hu hin =>
    exact ⟨u, hpart hu, matchesWord_of_infix (opusPart_not_key hu hin) hin⟩
  | unwritten u hu hwritten hshows => exact ⟨u, hnumber hu, matchesWord_of_shows hshows⟩

theorem writtenNumbers_eq (hper : PerCharacter U) (hset : Browser.Settled U)
    (hruns : Search.NoEmptyRun U text)
    (hflags : Browser.flagsAgree (Browser.runs U text) = true) :
    writtenNumbers U text = numbers U text := by
  have hfold := (Browser.runs_fold hper hset hruns).trans (Browser.written_fold hper text).symm
  obtain ⟨hnormalized, hwritten⟩ := Browser.runs_words text hfold
  have halike := Browser.alike_runs hflags
  rw [Browser.runs, hnormalized, hwritten] at halike
  rw [writtenNumbers, ← foldedWords_toWord hper]
  exact (halike.joinedTerms 0).symm

end Matches

section Shown

variable {text query t : Text} {turns : Nat}

theorem mem_places {start : Nat} {word : Text} {found : List Nat}
    (h : places text word turns start = some found) : ∀ i ∈ found, word <+: text.drop i := by
  induction turns generalizing start found with
  | zero => cases h
  | succ turns ih =>
    rw [places] at h
    split at h
    · obtain rfl := Option.some.inj h
      simp
    · rename_i i hi
      obtain ⟨rest, hrest, rfl⟩ := Option.map_eq_some_iff.mp h
      intro j hj
      obtain rfl | hj := List.mem_cons.mp hj
      · exact (indexOf_spec hi).2.2
      · exact ih hrest j hj

theorem findWord_ne_nil {word : Text} {found : List Nat} (hlong : isLetter word = false)
    (h : findWord turns text word = some found) : found ≠ [] ↔ word <:+: text := by
  obtain ⟨all, hall, rfl⟩ := Option.map_eq_some_iff.mp h
  dsimp only
  rw [hlong, Bool.not_false, Bool.and_true]
  split
  · rw [← indexOf_isSome_iff]
    cases indexOf text word 0 <;> simp
  · rename_i hne
    refine iff_of_true (by simpa using hne) ?_
    obtain ⟨i, hi⟩ := List.exists_mem_of_ne_nil _ (fun hnil => hne (List.isEmpty_iff.mpr hnil))
    exact (mem_places hall i (List.mem_filter.mp hi).1).isInfix.trans (List.drop_suffix i text).isInfix

theorem ne_nil_of_long (h : 1 < utf16Length t) : t ≠ [] := by
  rintro rfl
  simp [utf16Length] at h

theorem comesFrom_iff (hper : PerCharacter U) {found : List Range} (hlong : 1 < utf16Length t)
    (hspace : ' ' ∉ t) (hfound : foundRanges turns (foldWithOffsets U text) t = some found) :
    (∃ r, ComesFrom U turns text t r) ↔ InWord U text t ∨ IsNumber U text t := by
  have hne := ne_nil_of_long hlong
  have hletter : isLetter t = false := by
    simp only [isLetter, beq_eq_false_iff_ne]
    omega
  have hnote : ∀ c, Search.isNote c = true → t ≠ [c] := by
    intro c hc heq
    have hsmall : utf16Length [c] = 1 := by
      rcases Search.isNote_cases hc with rfl | rfl | rfl | rfl | rfl | rfl | rfl <;> decide
    rw [heq, hsmall] at hlong
    omega
  obtain ⟨at', hat, hranges⟩ := Option.map_eq_some_iff.mp hfound
  have hiff := findWord_ne_nil hletter hat
  have hnil : found ≠ [] ↔ t <:+: folded (foldWithOffsets U text) := by
    rw [← hiff, ← hranges, ne_eq, List.map_eq_nil_iff]
  have hspans := Browser.scanSpans_terms hnote 0 (foldedWords U text)
  rw [foldedWords_toWord hper] at hspans
  rw [← inWord_iff hper hne hspace, IsNumber, writtenNumbers, ← hspans]
  constructor
  · intro h
    obtain ⟨r, found', hfound', hr⟩ := h
    obtain rfl : found = found' := Option.some.inj (hfound.symm.trans hfound')
    obtain hr | ⟨-, s, hs, hterm, -⟩ := hr
    · exact Or.inl (hnil.mp (List.ne_nil_of_mem hr))
    · exact Or.inr (List.mem_map.mpr ⟨s, hs, hterm⟩)
  · intro h
    by_cases hempty : found = []
    · obtain hin | hspan := h
      · exact absurd hempty (hnil.mpr hin)
      · obtain ⟨s, hs, hterm⟩ := List.mem_map.mp hspan
        exact ⟨spanRange s, found, hfound, Or.inr ⟨hempty, s, hs, hterm, rfl⟩⟩
    · obtain ⟨r, hr⟩ := List.exists_mem_of_ne_nil found hempty
      exact ⟨r, found, hfound, Or.inl hr⟩

theorem ne_nil_of_within {r : Range} (h : r.Within text) : text ≠ [] := by
  rintro rfl
  obtain ⟨hstart, hstop⟩ := h
  rw [List.length_nil] at hstop
  omega

theorem within_of_comesFrom {r : Range} (hne : t ≠ []) (h : ComesFrom U turns text t r)
    (hturns : (foldWithOffsets U text).length < turns) : r.Within text := by
  obtain ⟨found, hfound, hr⟩ := h
  obtain ⟨found', hfound', hwithin⟩ := foundRanges_of_ne_nil U text hne hturns
  obtain rfl : found = found' := Option.some.inj (hfound.symm.trans hfound')
  obtain hr | ⟨-, s, hs, -, rfl⟩ := hr
  · exact hwithin r hr
  · exact Browser.searchTermSpans_within U text s hs

/-- A term has a range of the text that is marked, and comes from the term. -/
def Marked (text query t : Text) : Prop :=
  ∃ turns parts r, matchParts U turns text query = some parts ∧ ComesFrom U turns text t r ∧
    r.Within text ∧ ∀ i, r.covers i = true → (MarkedPart.allMarks parts)[i]? = some true

def EveryMatchShown (text query : Text) : Prop :=
  ∀ t ∈ Browser.searchTerms U query, 1 < utf16Length t →
    Browser.matchesSearchTerm (Browser.searchIndex U [text]) t = true → Marked U text query t

theorem marked_iff (hper : PerCharacter U) (hlong : 1 < utf16Length t) (hspace : ' ' ∉ t)
    (ht : t ∈ Browser.searchTerms U query) :
    Marked U text query t ↔
      Search.NoEmptyRun U query ∧ (InWord U text t ∨ IsNumber U text t) := by
  have hne := ne_nil_of_long hlong
  constructor
  · intro h
    obtain ⟨turns, parts, r, hparts, hcomes, hwithin, -⟩ := h
    have htext := ne_nil_of_within hwithin
    refine ⟨?_, ?_⟩
    · rw [← Search.empty_term_iff]
      intro hmem
      rw [matchParts_of_empty_term U htext hmem] at hparts
      cases hparts
    · obtain ⟨found, hfound, -⟩ := id hcomes
      exact (comesFrom_iff U hper hlong hspace hfound).mp ⟨r, hcomes⟩
  · intro h
    obtain ⟨hrun, hshown⟩ := h
    have hturns : (foldWithOffsets U text).length < (foldWithOffsets U text).length + 1 :=
      Nat.lt_succ_self _
    obtain ⟨found, hfound, -⟩ := foundRanges_of_ne_nil U text hne hturns
    obtain ⟨r, hr⟩ := (comesFrom_iff U hper hlong hspace hfound).mpr hshown
    have hwithin := within_of_comesFrom U hne hr hturns
    obtain ⟨parts, ranges, hparts, hpartition, hcomes⟩ := matchParts_spec U
      (ne_nil_of_within hwithin) ((Search.empty_term_iff U).mpr hrun) hturns
    refine ⟨_, parts, r, hparts, hr, hwithin, ?_⟩
    intro i hi
    have hlt : i < text.length := by
      simp only [Range.covers, Bool.and_eq_true, decide_eq_true_iff] at hi
      have hstop := hwithin.2
      omega
    rw [hpartition.marked, List.getElem?_map, List.getElem?_range hlt, Option.map_some,
      Option.some_inj, List.any_eq_true]
    exact ⟨r, hcomes t ht r hr, hi⟩

/-- A row shows every match exactly when a query that it matches has no empty term, and
what matches inside a number or key, or in a number within an opus, also stands in a word
or is a number or key of its own. The index has no other numbers and keys than the text
as written where the two scanners agree. -/
theorem everyMatchShown_iff (hper : PerCharacter U) (hset : Browser.Settled U)
    (text query : Text) :
    (EveryMatchShown U text query ↔
      (∀ t ∈ Browser.searchTerms U query, 1 < utf16Length t →
        Browser.matchesSearchTerm (Browser.searchIndex U [text]) t = true →
          Search.NoEmptyRun U query) ∧
      ∀ t ∈ Browser.searchTerms U query, 1 < utf16Length t → MatchesInside U text t →
        InWord U text t ∨ IsNumber U text t) ∧
    (Search.NoEmptyRun U text → Browser.flagsAgree (Browser.runs U text) = true →
      writtenNumbers U text = numbers U text) := by
  refine ⟨?_, writtenNumbers_eq hper hset⟩
  have hspace : ∀ t ∈ Browser.searchTerms U query, ' ' ∉ t := fun t ht =>
    made_no_space (catalogueTerms_made hper hset false t ht)
  constructor
  · intro h
    refine ⟨?_, ?_⟩
    · intro t ht hlong hmatch
      exact ((marked_iff U hper hlong (hspace t ht) ht).mp (h t ht hlong hmatch)).1
    · intro t ht hlong hinside
      have hmatch := hinside.matches hper hset (ne_nil_of_long hlong) (hspace t ht)
      exact ((marked_iff U hper hlong (hspace t ht) ht).mp (h t ht hlong hmatch)).2
  · intro h t ht hlong hmatch
    obtain ⟨hrun, hinside⟩ := h
    refine (marked_iff U hper hlong (hspace t ht) ht).mpr ⟨hrun t ht hlong hmatch, ?_⟩
    obtain hword | hnumber | hin :=
      matches_cases hper hset (ne_nil_of_long hlong) (hspace t ht) hmatch
    · exact Or.inl hword
    · exact Or.inr hnumber
    · exact hinside t ht hlong hin

theorem everyMatchShown_prelude :
    EveryMatchShown basicTables "Prelude Op. 28/4".toList "prel opus 28".toList := by
  have hterms : Browser.searchTerms basicTables "prel opus 28".toList =
      ["prel".toList, "op28".toList] := by decide +kernel
  refine (everyMatchShown_iff basicTables Browser.Utf16.perCharacter_basicTables
    Browser.settled_basicTables _ _).1.mpr ⟨?_, ?_⟩
  · intro t _ _ _
    unfold Search.NoEmptyRun
    decide +kernel
  · intro t ht _ _
    rw [hterms, List.mem_cons, List.mem_singleton] at ht
    obtain rfl | rfl := ht
    · exact Or.inl ⟨"prelude".toList, by decide +kernel, ⟨[], "ude".toList, rfl⟩⟩
    · exact Or.inr ⟨"op28".toList, by decide +kernel, by decide⟩

/-- The index reads the number within an opus, which the row does not show. -/
theorem not_everyMatchShown_no4 :
    ¬EveryMatchShown basicTables "Op. 28/4".toList "no 4".toList := by
  intro h
  have hterm : "no4".toList ∈ Browser.searchTerms basicTables "no 4".toList := by
    decide +kernel
  have hmarked := h _ hterm (by decide) (by decide +kernel)
  rw [marked_iff basicTables Browser.Utf16.perCharacter_basicTables (by decide) (by decide)
    hterm] at hmarked
  have hwords : (foldWords basicTables "Op. 28/4".toList).any
      (fun w => contains w "no4".toList) = false := by decide +kernel
  have hnumbers : (writtenNumbers basicTables "Op. 28/4".toList).any
      (fun u => shows u "no4".toList) = false := by decide +kernel
  obtain ⟨w, hw, hin⟩ | ⟨u, hu, hshows⟩ := hmarked.2
  · exact List.any_eq_false.mp hwords w hw (contains_iff.mpr hin)
  · exact List.any_eq_false.mp hnumbers u hu hshows

end Shown

end Noted.LibraryPage
