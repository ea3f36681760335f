import Noted.Search.Finding

/-!
# A piece is found by its fields

The words of an index are the words of the folds and of the catalogue terms of
its fields, whatever their order, so a term matches the index of some fields
exactly when it matches the index of one of them. A field's own terms always
match: the index parse reads a number after an opus as a part, and the query
parse keeps the same number as it is typed.
-/

namespace Noted.Search

open Library.Words

variable (U : UnicodeTables)

section Matching

/-- How a term matches one word of an index. -/
def matchesWord (word term : Text) : Bool :=
  if isKeyTerm term then word == term || (!hasMode term && term.isPrefixOf word)
  else contains word term

theorem matchesSearchTerm_iff {index term : Text} (hindex : isIndexText U index)
    (hne : term ≠ []) (hspace : ' ' ∉ term) :
    matchesSearchTerm index term = true ↔ ∃ w ∈ fields index, matchesWord w term = true := by
  unfold matchesSearchTerm matchesWord
  cases hkey : isKeyTerm term with
  | true => simp [List.any_eq_true]
  | false =>
    simp only [Bool.not_false, ↓reduceIte, Bool.false_eq_true, contains_iff]
    by_cases hrunes : ∀ c ∈ term, goSpace c = false
    · exact infix_iff_exists_tokens hne hrunes
    · -- A term with other white space is in no index text.
      rw [not_forall] at hrunes
      obtain ⟨c, hc⟩ := hrunes
      rw [Classical.not_imp, Bool.not_eq_false] at hc
      have hnot : ¬ term <:+: index := by
        intro hin
        have hgo := isIndexRune_goSpace U (hindex c (hin.subset hc.1))
        rw [hc.2] at hgo
        have hblank : c = ' ' := by simpa using hgo.symm
        exact hspace (hblank ▸ hc.1)
      refine iff_of_false hnot ?_
      rintro ⟨w, hw, hin⟩
      exact hnot (hin.trans (infix_of_mem_splitOnP (mem_tokens.mp hw).1))

end Matching

section Index

def SeenAreKept (acc : Text × List Text) : Prop :=
  ∀ t ∈ acc.2, ∀ w ∈ fields t, w ∈ fields acc.1

theorem SeenAreKept.addTerm {acc : Text × List Text} (h : SeenAreKept acc) (t : Text) :
    SeenAreKept (addTerm acc t) ∧
      ∀ w, w ∈ fields (Search.addTerm acc t).1 ↔ w ∈ fields acc.1 ∨ w ∈ fields t := by
  obtain ⟨index, seen⟩ := acc
  by_cases hs : t ∈ seen
  · have hsame : Search.addTerm (index, seen) t = (index, seen) := by simp [Search.addTerm, hs]
    rw [hsame]
    refine ⟨h, ?_⟩
    intro w
    constructor
    · exact Or.inl
    · intro hw
      exact hw.elim id (h t hs w)
  · have hfields := fields_addTerm index t seen hs
    have hseen : (Search.addTerm (index, seen) t).2 = t :: seen := by simp [Search.addTerm, hs]
    refine ⟨?_, ?_⟩
    · intro s hsmem w hw
      rw [hfields, List.mem_append]
      rw [hseen] at hsmem
      cases List.mem_cons.mp hsmem with
      | inl heq => exact Or.inr (heq ▸ hw)
      | inr hold => exact Or.inl (h s hold w hw)
    · intro w
      rw [hfields, List.mem_append]

theorem SeenAreKept.foldl {acc : Text × List Text} (h : SeenAreKept acc) (terms : List Text)
    (w : Text) : w ∈ fields (terms.foldl Search.addTerm acc).1 ↔
      w ∈ fields acc.1 ∨ ∃ t ∈ terms, w ∈ fields t := by
  induction terms generalizing acc with
  | nil => simp
  | cons t ts ih =>
    obtain ⟨hkept, hstep⟩ := h.addTerm t
    rw [List.foldl_cons, ih hkept, hstep]
    simp [or_assoc]

theorem fields_base (texts : List Text) :
    fields (baseIndex U texts) = texts.flatMap (foldWords U) := by
  rw [baseIndex_eq]
  apply fields_joinWords
  intro w hw
  exact isWord_of_mem_base U hw

theorem fields_of_mem_fields {t w : Text} (h : w ∈ fields t) : fields w = [w] :=
  tokens_word (mem_tokens.mp h).2 (not_of_mem_tokens h)

theorem base_kept (texts : List Text) :
    SeenAreKept (baseIndex U texts, fields (baseIndex U texts)) := by
  intro t ht w hw
  rw [fields_of_mem_fields ht, List.mem_singleton] at hw
  exact hw ▸ ht

theorem browser_base_kept (texts : List Text) :
    SeenAreKept (baseIndex U texts, (baseIndex U texts).splitOn ' ') := by
  intro t ht w hw
  by_cases hne : t = []
  · rw [hne] at hw
    simp [fields] at hw
  · apply base_kept U texts t _ w hw
    rw [fields_eq_splitOn U (baseIndex_runes U texts), List.mem_filter]
    exact ⟨ht, by simpa using hne⟩

def indexWords (terms : Text → List Text) (text : Text) : List Text :=
  foldWords U text ++ (terms text).flatMap fields

theorem mem_fields_searchIndex_iff (texts : List Text) (w : Text) :
    w ∈ fields (searchIndex U texts) ↔
      ∃ f ∈ texts, w ∈ indexWords U (catalogueTerms U · true) f := by
  have h := (base_kept U texts).foldl (texts.flatMap (catalogueTerms U · true)) w
  refine h.trans ?_
  rw [fields_base]
  simp only [indexWords, List.mem_append, List.mem_flatMap, and_or_left, exists_or]
  aesop

theorem mem_fields_browser_searchIndex_iff (texts : List Text) (w : Text) :
    w ∈ fields (Browser.searchIndex U texts) ↔
      ∃ f ∈ texts, w ∈ indexWords U (Browser.catalogueTerms U · true) f := by
  rw [browser_searchIndex_eq_foldl]
  have h := (browser_base_kept U texts).foldl
    (texts.flatMap (Browser.catalogueTerms U · true)) w
  refine h.trans ?_
  rw [fields_base]
  simp only [indexWords, List.mem_append, List.mem_flatMap, and_or_left, exists_or]
  aesop

end Index

section PerField

variable {term : Text}

theorem matches_iff_words (hne : term ≠ []) (hspace : ' ' ∉ term) (texts : List Text) :
    matchesSearchTerm (searchIndex U texts) term = true ↔
      ∃ f ∈ texts, ∃ w ∈ indexWords U (catalogueTerms U · true) f, matchesWord w term = true := by
  rw [matchesSearchTerm_iff U (searchIndex_runes U texts) hne hspace]
  constructor
  · rintro ⟨w, hw, hmatch⟩
    obtain ⟨f, hf, hw⟩ := (mem_fields_searchIndex_iff U texts w).mp hw
    exact ⟨f, hf, w, hw, hmatch⟩
  · rintro ⟨f, hf, w, hw, hmatch⟩
    exact ⟨w, (mem_fields_searchIndex_iff U texts w).mpr ⟨f, hf, hw⟩, hmatch⟩

theorem browser_matches_iff_words (hne : term ≠ []) (hspace : ' ' ∉ term) (texts : List Text) :
    Browser.matchesSearchTerm (Browser.searchIndex U texts) term = true ↔
      ∃ f ∈ texts, ∃ w ∈ indexWords U (Browser.catalogueTerms U · true) f,
        matchesWord w term = true := by
  have hrunes := browser_searchIndex_runes U texts
  rw [browser_matchesSearchTerm_eq U hrunes, matchesSearchTerm_iff U hrunes hne hspace]
  constructor
  · rintro ⟨w, hw, hmatch⟩
    obtain ⟨f, hf, hw⟩ := (mem_fields_browser_searchIndex_iff U texts w).mp hw
    exact ⟨f, hf, w, hw, hmatch⟩
  · rintro ⟨f, hf, w, hw, hmatch⟩
    exact ⟨w, (mem_fields_browser_searchIndex_iff U texts w).mpr ⟨f, hf, hw⟩, hmatch⟩

/-- No term is made by two fields together, none is lost because another field has it, and
the order of the fields does not matter. -/
theorem matches_per_field (hne : term ≠ []) (hspace : ' ' ∉ term) (texts : List Text) :
    (matchesSearchTerm (searchIndex U texts) term = true ↔
      ∃ f ∈ texts, matchesSearchTerm (searchIndex U [f]) term = true) ∧
    (Browser.matchesSearchTerm (Browser.searchIndex U texts) term = true ↔
      ∃ f ∈ texts, Browser.matchesSearchTerm (Browser.searchIndex U [f]) term = true) ∧
    ∀ texts', texts.Perm texts' →
      matchesSearchTerm (searchIndex U texts') term =
        matchesSearchTerm (searchIndex U texts) term ∧
      Browser.matchesSearchTerm (Browser.searchIndex U texts') term =
        Browser.matchesSearchTerm (Browser.searchIndex U texts) term := by
  refine ⟨?_, ?_, ?_⟩
  · simp only [matches_iff_words U hne hspace, List.mem_singleton, exists_eq_left]
  · simp only [browser_matches_iff_words U hne hspace, List.mem_singleton, exists_eq_left]
  · intro texts' hperm
    constructor
    · rw [Bool.eq_iff_iff, matches_iff_words U hne hspace, matches_iff_words U hne hspace]
      simp only [hperm.mem_iff]
    · rw [Bool.eq_iff_iff, browser_matches_iff_words U hne hspace,
        browser_matches_iff_words U hne hspace]
      simp only [hperm.mem_iff]

theorem matches_per_field_op24 :
    ¬ matchesSearchTerm (searchIndex basicTables ["Waltz, Op.".toList, "24 Preludes".toList])
      "op24".toList = true := by
  rw [(matches_per_field basicTables (by decide) (by decide) _).1]
  decide

end PerField

section OwnText

theorem isNote_digit {d : Char} (hdigit : d.isDigit = true) : isNote d = false := by
  rw [Bool.eq_false_iff]
  intro hnote
  have hletter := isNote_iff.mp hnote
  have hlow : 97 ≤ d.toNat := hletter.1
  simp only [Char.isDigit, Bool.and_eq_true, decide_eq_true_iff, UInt32.le_iff_toNat_le] at hdigit
  have hval : d.toNat = d.val.toNat := rfl
  have hhigh : d.val.toNat ≤ 57 := by simpa using hdigit.2
  omega

theorem number_not_flat {t : Text} (h : catalogueNumber t = true) : englishFlat t = false := by
  obtain ⟨d, ds, rfl, hdigit⟩ := catalogueNumber_head h
  unfold englishFlat
  split
  · rename_i c heq
    rw [← (List.cons.inj heq).1]
    exact isNote_digit hdigit
  · rfl

theorem readTerm_number (opusParts : Bool) {w : Word} (h : catalogueNumber w.text = true)
    (rest : List Word) : readTerm opusParts w rest = ([w.text], 0) := by
  have hdigit := catalogueNumber_digit h
  have hcat := mapGet_of_digit catalogues_no_digit hdigit
  have hkey := mapGet_of_digit germanKeys_no_digit hdigit
  have hflat := number_not_flat h
  obtain ⟨d, ds, hd, hdigit⟩ := catalogueNumber_head h
  have hnote := isNote_digit hdigit
  have hsingle : ¬ (byteLen w.text = 1 ∧ contains "abcdefg".toList w.text = true) := by
    rintro ⟨hlen, hin⟩
    obtain ⟨c, hc⟩ := byteLen_eq_one hlen
    rw [hc] at hd hin
    rw [(List.cons.inj hd).1] at hin
    exact Bool.eq_false_iff.mp hnote hin
  simp only [readTerm, hcat, hkey, hflat, ite_self, ne_eq, not_true_eq_false, false_and,
    Bool.false_eq_true, ↓reduceIte, (by decide : ([] : Text) ≠ "hob".toList)]
  rw [if_neg (fun h => hsingle ⟨h.1, h.2.1⟩), if_neg (fun h => hsingle ⟨h.1, h.2.1⟩)]

/-- The two parses read a word alike, or the index parse also takes the number in an opus. -/
theorem readTerm_opusParts (w : Word) (rest : List Word) :
    readTerm false w rest = readTerm true w rest ∨
      ∃ term, opusPart (wordAt rest 1) = true ∧ readTerm false w rest = ([term], 1) ∧
        readTerm true w rest = ([term, "no".toList ++ wordAt rest 1], 2) := by
  unfold readTerm
  dsimp only
  generalize (if shortCatalogue w.text && !w.shortAllowed then []
      else mapGet catalogues w.text) = catalogue
  by_cases hhob : catalogue = "hob".toList ∧ romanNumeral (wordAt rest 0) = true ∧
      catalogueNumber (wordAt rest 1) = true
  · left
    rw [if_pos hhob, if_pos hhob]
  · rw [if_neg hhob, if_neg hhob]
    by_cases hnumber : catalogue ≠ [] ∧ catalogueNumber (wordAt rest 0) = true
    · rw [if_pos hnumber, if_pos hnumber]
      by_cases hpart : catalogue = "op".toList ∧ opusPart (wordAt rest 1) = true
      · right
        refine ⟨catalogue ++ wordAt rest 0, hpart.2, ?_, ?_⟩
        · exact if_neg (by simp)
        · exact if_pos ⟨rfl, hpart⟩
      · left
        rw [if_neg (by simp), if_neg (fun h => hpart h.2)]
    · left
      rw [if_neg hnumber, if_neg hnumber]

theorem exists_of_wordAt {rest : List Word} {k : Nat} (h : wordAt rest k ≠ []) :
    ∃ w, rest[k]? = some w ∧ w.text = wordAt rest k := by
  unfold wordAt at h ⊢
  cases hk : rest[k]? with
  | none => simp [hk] at h
  | some w => exact ⟨w, rfl, rfl⟩

theorem readTerm_opus (w : Word) (rest : List Word) :
    readTerm false w rest = readTerm true w rest ∨
      ∃ term v x tail, rest = v :: x :: tail ∧ opusPart x.text = true ∧
        readTerm false w rest = ([term], 1) ∧
        readTerm true w rest = ([term, "no".toList ++ x.text], 2) := by
  refine (readTerm_opusParts w rest).imp_right ?_
  rintro ⟨term, hpart, hfalse, htrue⟩
  have hne : wordAt rest 1 ≠ [] := by
    intro hnil
    rw [hnil] at hpart
    cases hpart
  obtain ⟨y, hy, htext⟩ := exists_of_wordAt hne
  match rest, hy with
  | v :: x :: tail, hy =>
    obtain rfl : x = y := by simpa using hy
    rw [← htext] at hpart htrue
    exact ⟨term, v, x, tail, rfl, hpart, hfalse, htrue⟩

/-- Each term of the query parse is a term of the index parse or a number that the index
parse reads as an opus part. -/
theorem scanTerms_kept (skip : Nat) (ws : List Word) :
    ∀ t ∈ scanTerms false skip ws, ∃ t' ∈ scanTerms true skip ws,
      t = t' ∨ (opusPart t = true ∧ t <:+: t') := by
  induction hlen : ws.length using Nat.strong_induction_on generalizing skip ws with
  | _ n ih =>
  cases ws with
  | nil => cases skip <;> simp [scanTerms]
  | cons w rest =>
    rw [List.length_cons] at hlen
    cases skip with
    | succ skip => exact ih rest.length (by omega) skip rest rfl
    | zero =>
      intro t ht
      obtain hsame | ⟨term, v, x, tail, rfl, hpart, hfalse, htrue⟩ := readTerm_opus w rest
      · rw [scanTerms, hsame] at ht
        rw [scanTerms]
        rcases List.mem_append.mp ht with ht | ht
        · exact ⟨t, List.mem_append_left _ ht, Or.inl rfl⟩
        · obtain ⟨t', ht', h⟩ := ih rest.length (by omega) _ rest rfl t ht
          exact ⟨t', List.mem_append_right _ ht', h⟩
      · rw [scanTerms, hfalse] at ht
        simp only [scanTerms, readTerm_number false (opusPart_catalogueNumber hpart),
          List.cons_append, List.nil_append, List.mem_cons] at ht
        rw [scanTerms, htrue]
        simp only [scanTerms, List.cons_append, List.nil_append]
        rcases ht with rfl | rfl | ht
        · exact ⟨_, List.mem_cons_self, Or.inl rfl⟩
        · exact ⟨_, List.mem_cons_of_mem _ List.mem_cons_self,
            Or.inr ⟨hpart, (List.suffix_append _ _).isInfix⟩⟩
        · obtain ⟨t', ht', h⟩ := ih tail.length (by simp at hlen; omega) 0 tail rfl t ht
          exact ⟨t', List.mem_cons_of_mem _ (List.mem_cons_of_mem _ ht'), h⟩

theorem opusPart_not_key {t : Text} (h : opusPart t = true) : isKeyTerm t = false := by
  obtain ⟨d, ds, rfl, hdigit⟩ := catalogueNumber_head (opusPart_catalogueNumber h)
  simp [isKeyTerm, isNote_digit hdigit]

theorem foldl_addTerm_keeps (acc : Text × List Text) (h : ∀ t ∈ acc.2, t <:+: acc.1)
    (terms : List Text) :
    acc.1 <:+: (terms.foldl addTerm acc).1 ∧ ∀ t ∈ terms, t <:+: (terms.foldl addTerm acc).1 := by
  induction terms generalizing acc with
  | nil => exact ⟨List.infix_rfl, by simp⟩
  | cons t ts ih =>
    have hold : acc.1 <:+: (addTerm acc t).1 := by
      unfold addTerm
      split
      · exact List.infix_rfl
      · rw [List.append_assoc]
        exact (List.prefix_append _ _).isInfix
    have hnew : t <:+: (addTerm acc t).1 := by
      unfold addTerm
      split
      · rename_i hs
        exact h t hs
      · exact (List.suffix_append _ _).isInfix
    have hseen : ∀ s ∈ (addTerm acc t).2, s <:+: (addTerm acc t).1 := by
      intro s hs
      by_cases hmem : t ∈ acc.2
      · have hsame : addTerm acc t = acc := by simp [addTerm, hmem]
        rw [hsame] at hs ⊢
        exact h s hs
      · have hcons : (addTerm acc t).2 = t :: acc.2 := by simp [addTerm, hmem]
        rw [hcons] at hs
        cases List.mem_cons.mp hs with
        | inl heq => exact heq ▸ hnew
        | inr hin => exact (h s hin).trans hold
    obtain ⟨hkeep, hall⟩ := ih (addTerm acc t) hseen
    refine ⟨hold.trans hkeep, ?_⟩
    intro s hs
    cases List.mem_cons.mp hs with
    | inl heq => exact heq ▸ hnew.trans hkeep
    | inr hin => exact hall s hin

theorem matchesSearchTerm_of_kept {index t t' : Text} (hindex : t' <:+: index)
    (hword : isWord U t' → t' ∈ fields index) (hrunes : isIndexText U t')
    (h : t = t' ∨ (opusPart t = true ∧ t <:+: t')) : matchesSearchTerm index t = true := by
  cases hkey : isKeyTerm t with
  | false =>
    rw [matchesSearchTerm, hkey]
    rw [Bool.not_false, if_pos rfl, contains_iff]
    cases h with
    | inl heq => exact heq ▸ hindex
    | inr hpart => exact hpart.2.trans hindex
  | true =>
    have heq : t = t' := by
      cases h with
      | inl heq => exact heq
      | inr hpart =>
        rw [opusPart_not_key hpart.1] at hkey
        cases hkey
    obtain ⟨hne, hspace⟩ := isKeyTerm_runes hkey
    rw [heq] at hne hspace ⊢
    apply matchesSearchTerm_of_mem
    apply hword
    refine ⟨hne, ?_⟩
    intro c hc
    have hrune := hrunes c hc
    have hblank : c ≠ ' ' := by
      intro hblank
      exact hspace (hblank ▸ hc)
    simpa [isIndexRune, hblank] using hrune

theorem infix_of_mem_splitOn {index t : Text} (h : t ∈ index.splitOn ' ') : t <:+: index := by
  rw [List.splitOn_eq_splitOnP] at h
  exact infix_of_mem_splitOnP h

/-- A field's own text always finds it. -/
theorem own_terms_match {texts : List Text} {f : Text} (hf : f ∈ texts) :
    (∀ t ∈ searchTerms U f, matchesSearchTerm (searchIndex U texts) t = true) ∧
      ∀ t ∈ Browser.searchTerms U f,
        Browser.matchesSearchTerm (Browser.searchIndex U texts) t = true := by
  constructor
  · intro t ht
    obtain ⟨t', ht', h⟩ := scanTerms_kept 0 _ t ht
    have hterm : t' ∈ catalogueTerms U f true := ht'
    have hinfix := (foldl_addTerm_keeps (baseIndex U texts, fields (baseIndex U texts))
      (fun s hs => infix_of_mem_splitOnP (mem_tokens.mp hs).1)
      (texts.flatMap (catalogueTerms U · true))).2 t' (List.mem_flatMap.mpr ⟨f, hf, hterm⟩)
    exact matchesSearchTerm_of_kept U hinfix ((mem_fields_searchIndex U hf).2 t' hterm)
      (catalogueTerms_runes U f true t' hterm) h
  · intro t ht
    rw [Browser.searchTerms, Browser.catalogueTerms, scanTerms_eq] at ht
    obtain ⟨t', ht', h⟩ := scanTerms_kept 0 _ t ht
    have hterm : t' ∈ Browser.catalogueTerms U f true := by
      rw [Browser.catalogueTerms, scanTerms_eq]
      exact ht'
    have hinfix := (foldl_addTerm_keeps (baseIndex U texts, (baseIndex U texts).splitOn ' ')
      (fun s hs => infix_of_mem_splitOn hs)
      (texts.flatMap (Browser.catalogueTerms U · true))).2 t' (List.mem_flatMap.mpr ⟨f, hf, hterm⟩)
    rw [← browser_searchIndex_eq_foldl] at hinfix
    rw [browser_matchesSearchTerm_eq U (browser_searchIndex_runes U texts)]
    exact matchesSearchTerm_of_kept U hinfix (mem_fields_browser_searchIndex U hf t' hterm)
      (browser_catalogueTerms_runes U f true t' hterm) h

theorem own_terms_match_op28 :
    (∀ t ∈ searchTerms basicTables "Prelude Op.28/4".toList,
      matchesSearchTerm (searchIndex basicTables ["Chopin".toList, "Prelude Op.28/4".toList]) t =
        true) ∧
      ∀ t ∈ Browser.searchTerms basicTables "Prelude Op.28/4".toList,
        Browser.matchesSearchTerm
          (Browser.searchIndex basicTables ["Chopin".toList, "Prelude Op.28/4".toList]) t = true :=
  own_terms_match basicTables (by decide)

end OwnText

end Noted.Search
