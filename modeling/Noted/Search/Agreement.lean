import Mathlib.Tactic.IntervalCases
import Noted.Search.Index

/-!
# The two searches compared

The scans of the two languages are one function of the words. The words agree up
to one flag: whether the first word of a text may be a short catalogue head (S, D
or L) without a dot after it depends on what each language calls white space.
`shortHeadMismatch` is exactly the case in which that flag changes the terms.
-/

namespace Noted.Search

open Library.Words

variable (U : UnicodeTables)

section Scan

theorem mapGet_ne_nil {m : List (Text × Text)} (h : ∀ p ∈ m, p.2 ≠ []) (key : Text) :
    mapGet m key ≠ [] ↔ (m.lookup key).isSome := by
  cases hk : m.lookup key with
  | none => simp [mapGet, hk]
  | some v =>
    have hmem : (key, v) ∈ m := by
      obtain ⟨l₁, l₂, rfl, -⟩ := List.lookup_eq_some_iff.mp hk
      simp
    simpa [mapGet, hk] using h _ hmem

theorem catalogues_ne_nil : ∀ p ∈ catalogues, p.2 ≠ [] := by decide

theorem germanKeys_ne_nil : ∀ p ∈ germanKeys, p.2 ≠ [] := by decide

theorem germanModes_ne_nil : ∀ p ∈ germanModes, p.2 ≠ [] := by decide

theorem isNote_iff {c : Char} : isNote c = true ↔ 'a' ≤ c ∧ c ≤ 'g' := by
  rw [isNote, contains_iff, List.singleton_infix_iff]
  constructor
  · intro h
    simp only [String.reduceToList, List.mem_cons, List.not_mem_nil, or_false] at h
    rcases h with rfl | rfl | rfl | rfl | rfl | rfl | rfl <;> decide
  · rintro ⟨h1, h2⟩
    have hlow : 97 ≤ c.toNat := h1
    have hhigh : c.toNat ≤ 103 := h2
    have hc : c = Char.ofNat c.toNat := (Char.ofNat_toNat c).symm
    generalize c.toNat = n at hlow hhigh hc
    subst hc
    interval_cases n <;> decide

theorem byteLen_eq_one {w : Text} (h : byteLen w = 1) : ∃ c, w = [c] := by
  match w with
  | [] => simp [byteLen] at h
  | [c] => exact ⟨c, rfl⟩
  | c :: d :: cs =>
    have hc := Char.utf8Size_pos c
    have hd := Char.utf8Size_pos d
    simp [byteLen] at h
    omega

theorem singleNote_iff (w : Text) :
    Browser.singleNote w = true ↔ byteLen w = 1 ∧ contains "abcdefg".toList w = true := by
  constructor
  · intro h
    match w with
    | [c] =>
      have hnote : isNote c = true := isNote_iff.mpr (by simpa [Browser.singleNote] using h)
      refine ⟨?_, hnote⟩
      have hmem := contains_iff.mp hnote
      rw [List.singleton_infix_iff] at hmem
      simp only [String.reduceToList, List.mem_cons, List.not_mem_nil, or_false] at hmem
      rcases hmem with rfl | rfl | rfl | rfl | rfl | rfl | rfl <;> decide
  · rintro ⟨hlen, hin⟩
    obtain ⟨c, rfl⟩ := byteLen_eq_one hlen
    simpa [Browser.singleNote] using isNote_iff.mp hin

theorem shortCatalogue_eq (w : Text) : Browser.shortCatalogue w = shortCatalogue w := by
  rw [Bool.eq_iff_iff]
  simp [Browser.shortCatalogue, shortCatalogue, or_assoc]

theorem catalogue_option (short : Bool) (word : Text) :
    let o := if short then none else Browser.CATALOGUES.lookup word
    let c := if short then [] else mapGet catalogues word
    o.getD [] = c ∧ (o.isSome = true ↔ c ≠ []) ∧ ∀ v ≠ [], (o == some v) = true ↔ c = v := by
  cases short with
  | true => exact ⟨rfl, by simp, fun v hv => by simpa using hv.symm⟩
  | false =>
    refine ⟨rfl, (mapGet_ne_nil catalogues_ne_nil word).symm, fun v hv => ?_⟩
    have h := mapGet_ne_nil catalogues_ne_nil word
    simp only [Bool.false_eq_true, ↓reduceIte, mapGet, beq_iff_eq] at h ⊢
    change List.lookup word catalogues = some v ↔ _
    cases hl : List.lookup word catalogues with
    | none => simpa using hv.symm
    | some u => simp

/-- The two parsers make the same choice at every word. -/
theorem readTerm_eq (opusParts : Bool) (w : Word) (rest : List Word) :
    Browser.readTerm opusParts w rest = readTerm opusParts w rest := by
  unfold Browser.readTerm readTerm
  dsimp only
  rw [shortCatalogue_eq]
  obtain ⟨hget, hsome, heq⟩ := catalogue_option (shortCatalogue w.text && !w.shortAllowed) w.text
  generalize (shortCatalogue w.text && !w.shortAllowed) = short at hget hsome heq ⊢
  refine ite_congr (propext ?_) (fun h => ?_) fun _ => ?_
  · simp only [Bool.and_eq_true, heq _ (by decide : "hob".toList ≠ []), and_assoc]
  · rw [h.1]
  refine ite_congr (propext ?_) (fun _ => ?_) fun _ => ?_
  · simp only [Bool.and_eq_true, hsome]
  · refine ite_congr (propext ?_) (fun _ => ?_) fun _ => ?_
    · simp only [Bool.and_eq_true, heq _ (by decide : "op".toList ≠ []), and_assoc]
    all_goals rw [hget]
  refine ite_congr (propext ?_) (fun _ => rfl) fun _ => ?_
  · rw [Bool.and_eq_true, mapGet_ne_nil germanKeys_ne_nil, mapGet_ne_nil germanModes_ne_nil]
    rfl
  refine ite_congr rfl (fun _ => ?_) fun _ => ?_
  · simp only [Bool.or_eq_true, beq_iff_eq]
  refine ite_congr (propext ?_) (fun _ => ?_) fun _ => ?_
  · simp only [Bool.and_eq_true, Bool.or_eq_true, beq_iff_eq, singleNote_iff, and_assoc]
  · by_cases h1 : wordAt rest 1 = "major".toList
    · simp [h1]
    · by_cases h2 : wordAt rest 1 = "minor".toList
      · simp [h2]
      · by_cases h3 : wordAt rest 1 = "m".toList
        · simp [h3]
        · have hnot : ["major".toList, "minor".toList, "m".toList].contains (wordAt rest 1) = false := by
            simpa using ⟨h1, h2, h3⟩
          rw [hnot, if_neg (not_or.mpr ⟨h1, h2⟩), if_neg h3]
          simp
  refine ite_congr (propext ?_) (fun _ => rfl) fun _ => rfl
  simp only [Bool.and_eq_true, Bool.or_eq_true, beq_iff_eq, singleNote_iff, and_assoc]

theorem scanTerms_eq (opusParts : Bool) (skip : Nat) (ws : List Word) :
    Browser.scanTerms opusParts skip ws = scanTerms opusParts skip ws := by
  induction ws generalizing skip with
  | nil => cases skip <;> rfl
  | cons w ws ih =>
    cases skip with
    | zero => simp [Browser.scanTerms, scanTerms, readTerm_eq, ih]
    | succ skip => simp [Browser.scanTerms, scanTerms, ih]

theorem pushWords_eq (word : Text) (allowed : Bool) :
    Browser.pushWords word allowed = splitWord word allowed := by
  unfold Browser.pushWords splitWord
  cases gluedCatalogue word with
  | none => rfl
  | some p =>
    refine ite_congr (propext ?_) (fun _ => rfl) fun _ => rfl
    rw [mapGet_ne_nil catalogues_ne_nil, shortCatalogue_eq, Bool.and_eq_true, Bool.or_eq_true,
      Bool.not_eq_true']
    rfl

end Scan

section Flags

theorem blank_iff {p : Char → Bool} {t : Text} :
    (trimBy p t).isEmpty = true ↔ ∀ c ∈ t, p c = true := by
  rw [List.isEmpty_iff, trimBy_eq_nil]

theorem spanAllowed_of_word {s : Span Char} (h : ∃ c ∈ s.before, U.inWord c = true) :
    Browser.spanAllowed s = spanAllowed s := by
  obtain ⟨c, hc, hw⟩ := h
  obtain ⟨hgo, hjs⟩ := U.inWord_not_space hw
  have h1 : (trimSpace s.before).isEmpty = false := by
    rw [Bool.eq_false_iff]
    intro hblank
    simp [blank_iff.mp hblank c hc] at hgo
  have h2 : (jsTrim s.before).isEmpty = false := by
    rw [Bool.eq_false_iff]
    intro hblank
    simp [blank_iff.mp hblank c hc] at hjs
  rw [Browser.spanAllowed, spanAllowed, h1, h2]

theorem spansFrom_before {p : Char → Bool} {b w text : Text} {s : Span Char}
    (h : ∃ c ∈ b, p c = true) (hs : s ∈ spansFrom p b w text) :
    ∃ c ∈ s.before, p c = true := by
  obtain ⟨c, hc, hp⟩ := h
  rw [show b = b ++ [] by simp, spansFrom_prepend] at hs
  obtain ⟨r, -, rfl⟩ := List.mem_map.mp hs
  exact ⟨c, by simp [Span.prepend, hc], hp⟩

theorem spansFrom_tail {p : Char → Bool} {b w text : Text} (hw : ∀ c ∈ w, p c = true) :
    ∀ s ∈ (spansFrom p b w text).tail, ∃ c ∈ s.before, p c = true := by
  induction text generalizing b w with
  | nil =>
    intro s hs
    by_cases he : w.isEmpty <;> simp [spansFrom, he] at hs
  | cons c cs ih =>
    intro s hs
    by_cases hc : p c
    · refine ih (w := w ++ [c]) ?_ s (by simpa [spansFrom, hc] using hs)
      intro d hd
      rcases List.mem_append.mp hd with hd | hd
      · exact hw d hd
      · simpa [List.mem_singleton.mp hd] using hc
    · by_cases he : w.isEmpty
      · exact ih (w := []) (by simp) s (by simpa [spansFrom, hc, he] using hs)
      · obtain ⟨d, hd⟩ := List.exists_mem_of_ne_nil w (by simpa using he)
        refine spansFrom_before ⟨d, ?_, hw d hd⟩ (by simpa [spansFrom, hc, he] using hs)
        simp [hd]

theorem spans_tail {p : Char → Bool} {text : Text} {first : Span Char} {rest : List (Span Char)}
    (h : spans p text = first :: rest) : ∀ s ∈ rest, ∃ c ∈ s.before, p c = true := by
  intro s hs
  rw [spans] at h
  exact spansFrom_tail (b := []) (w := []) (by simp) s (by rw [h]; exact hs)

end Flags

section FirstWord

theorem shortCatalogue_cases {w : Text} (h : shortCatalogue w = true) :
    w = "s".toList ∨ w = "d".toList ∨ w = "l".toList := by
  simpa [shortCatalogue, or_assoc] using h

theorem catalogueNumber_head {n : Text} (h : catalogueNumber n = true) :
    ∃ d ds, n = d :: ds ∧ d.isDigit = true := by
  cases n with
  | nil => simp [catalogueNumber] at h
  | cons d ds =>
    refine ⟨d, ds, rfl, ?_⟩
    by_contra hd
    simp [catalogueNumber, hd] at h

theorem catalogueNumber_chars {n : Text} (h : catalogueNumber n = true) :
    ∀ c ∈ n, c.isDigit = true ∨ c.isLower = true := by
  intro c hc
  rw [catalogueNumber, Bool.and_eq_true, Bool.or_eq_true, Bool.and_eq_true] at h
  rw [← List.takeWhile_append_dropWhile (p := Char.isDigit) (l := n), List.mem_append] at hc
  rcases hc with hc | hc
  · exact Or.inl (List.mem_takeWhile_imp hc)
  · rcases h.2 with he | ⟨-, hl⟩
    · simp [List.isEmpty_iff.mp he] at hc
    · exact Or.inr (List.all_eq_true.mp hl c hc)

theorem catalogueNumber_ne {n w : Text} (h : catalogueNumber n = true)
    (hw : catalogueNumber w = false) : n ≠ w := by
  rintro rfl
  simp [hw] at h

theorem mapGet_of_digit {m : List (Text × Text)} (hm : ∀ p ∈ m, p.1.any Char.isDigit = false)
    {w : Text} (hw : ∃ c ∈ w, c.isDigit = true) : mapGet m w = [] := by
  have hnone : m.lookup w = none := by
    rw [List.lookup_eq_none_iff]
    intro p hp
    rw [bne_iff_ne]
    rintro rfl
    obtain ⟨c, hc, hdigit⟩ := hw
    exact List.any_eq_false.mp (hm p hp) c hc hdigit
  simp [mapGet, hnone]

theorem catalogues_no_digit : ∀ p ∈ catalogues, p.1.any Char.isDigit = false := by decide

theorem germanKeys_no_digit : ∀ p ∈ germanKeys, p.1.any Char.isDigit = false := by decide

theorem germanModes_no_digit : ∀ p ∈ germanModes, p.1.any Char.isDigit = false := by decide

theorem catalogueNumber_digit {n : Text} (h : catalogueNumber n = true) :
    ∃ c ∈ n, c.isDigit = true := by
  obtain ⟨d, ds, rfl, hd⟩ := catalogueNumber_head h
  exact ⟨d, by simp, hd⟩

theorem readTerm_short_false (opusParts : Bool) {w : Text} (hw : shortCatalogue w = true)
    {rest : List Word} (hn : catalogueNumber (wordAt rest 0) = true) :
    readTerm opusParts ⟨w, false⟩ rest = ([w], 0) := by
  have hmode := mapGet_of_digit germanModes_no_digit (catalogueNumber_digit hn)
  have hsharp := catalogueNumber_ne hn (by decide : catalogueNumber "sharp".toList = false)
  have hflat := catalogueNumber_ne hn (by decide : catalogueNumber "flat".toList = false)
  have hmajor := catalogueNumber_ne hn (by decide : catalogueNumber "major".toList = false)
  have hminor := catalogueNumber_ne hn (by decide : catalogueNumber "minor".toList = false)
  have hflatword : englishFlat w = false := by
    rcases shortCatalogue_cases hw with rfl | rfl | rfl <;> rfl
  simp only [readTerm, hw, hmode, hsharp, hflat, hmajor, hminor, hflatword]
  simp

theorem readTerm_short_true (opusParts : Bool) {w : Text} (hw : shortCatalogue w = true)
    {rest : List Word} (hn : catalogueNumber (wordAt rest 0) = true) :
    readTerm opusParts ⟨w, true⟩ rest = ([w ++ wordAt rest 0], 1) := by
  have hcat : mapGet catalogues w = w := by
    rcases shortCatalogue_cases hw with rfl | rfl | rfl <;> rfl
  have hhob : w ≠ "hob".toList := by
    rcases shortCatalogue_cases hw with rfl | rfl | rfl <;> decide
  have hop : w ≠ "op".toList := by
    rcases shortCatalogue_cases hw with rfl | rfl | rfl <;> decide
  have hne : w ≠ [] := by
    rcases shortCatalogue_cases hw with rfl | rfl | rfl <;> decide
  simp only [readTerm, hcat, hn, Bool.not_true, Bool.and_false, Bool.false_eq_true, ↓reduceIte]
  rw [if_neg (fun h => hhob h.1), if_pos ⟨hne, trivial⟩, if_neg (fun h => hop h.2.1)]

theorem readTerm_flag (opusParts : Bool) {w : Text} {rest : List Word}
    (h : shortCatalogue w = true → catalogueNumber (wordAt rest 0) = false) (a b : Bool) :
    readTerm opusParts ⟨w, a⟩ rest = readTerm opusParts ⟨w, b⟩ rest := by
  suffices hfalse : ∀ a, readTerm opusParts ⟨w, a⟩ rest = readTerm opusParts ⟨w, true⟩ rest by
    rw [hfalse a, hfalse b]
  intro a
  cases hw : shortCatalogue w with
  | false => simp only [readTerm, hw, Bool.false_and]
  | true =>
    have hhob : mapGet catalogues w ≠ "hob".toList := by
      rcases shortCatalogue_cases hw with rfl | rfl | rfl <;> decide
    cases a with
    | true => rfl
    | false =>
      simp only [readTerm, hw, h hw, Bool.not_true, Bool.not_false, Bool.and_true, Bool.and_false,
        Bool.false_eq_true, ↓reduceIte, and_false, hhob, false_and]
      simp only [ne_eq, false_and, ↓reduceIte, (by decide : ([] : Text) ≠ "hob".toList)]

theorem gluedCatalogue_eq {word head number : Text}
    (h : gluedCatalogue word = some (head, number)) :
    word = head ++ number ∧ catalogueNumber number = true := by
  simp only [gluedCatalogue] at h
  split at h
  · rename_i hc
    obtain ⟨rfl, rfl⟩ := by simpa using h
    exact ⟨(List.takeWhile_append_dropWhile).symm, (Bool.and_eq_true_iff.mp hc).2⟩
  · cases h

theorem readTerm_glued (opusParts : Bool) {head number : Text} (hh : shortCatalogue head = true)
    (hn : catalogueNumber number = true) (allowed : Bool) (rest : List Word) :
    readTerm opusParts ⟨head ++ number, allowed⟩ rest = ([head ++ number], 0) := by
  have hdigit : ∃ c ∈ head ++ number, c.isDigit = true := by
    obtain ⟨c, hc, hd⟩ := catalogueNumber_digit hn
    exact ⟨c, List.mem_append_right _ hc, hd⟩
  have hcat := mapGet_of_digit catalogues_no_digit hdigit
  have hkey := mapGet_of_digit germanKeys_no_digit hdigit
  obtain ⟨d, ds, rfl, hd⟩ := catalogueNumber_head hn
  obtain ⟨c, rfl⟩ : ∃ c, head = [c] := by
    rcases shortCatalogue_cases hh with rfl | rfl | rfl <;> exact ⟨_, rfl⟩
  have hflat : englishFlat ([c] ++ d :: ds) = false := by
    have hb : d ≠ 'b' := by rintro rfl; simp at hd
    cases ds with
    | nil => simp [englishFlat, hb]
    | cons e es => simp [englishFlat]
  have hlen : byteLen ([c] ++ d :: ds) ≠ 1 := by
    have hc := Char.utf8Size_pos c
    have hd := Char.utf8Size_pos d
    simp [byteLen]
    omega
  simp only [readTerm, hcat, hkey, hflat, hlen, ite_self, ne_eq, not_true_eq_false, false_and,
    Bool.false_eq_true, ↓reduceIte, (by decide : ([] : Text) ≠ "hob".toList)]

/-- A short head with its number glued to it is one term, split or not. -/
theorem scanTerms_splitWord_glued (opusParts : Bool) {word head number : Text}
    (hg : gluedCatalogue word = some (head, number)) (hh : shortCatalogue head = true)
    (allowed : Bool) (rest : List Word) :
    scanTerms opusParts 0 (splitWord word allowed ++ rest) = word :: scanTerms opusParts 0 rest := by
  obtain ⟨rfl, hn⟩ := gluedCatalogue_eq hg
  have hne : mapGet catalogues head ≠ [] := by
    rcases shortCatalogue_cases hh with rfl | rfl | rfl <;> decide
  cases allowed with
  | true =>
    have hread : readTerm opusParts ⟨head, true⟩ (⟨number, false⟩ :: rest) = ([head ++ number], 1) :=
      readTerm_short_true opusParts hh hn
    simp [splitWord, hg, hne, scanTerms, hread]
  | false =>
    have hread := readTerm_glued opusParts hh hn false rest
    simp [splitWord, hg, hh, scanTerms, hread]

theorem shortCatalogue_no_digit {w : Text} (h : ∃ c ∈ w, c.isDigit = true) :
    shortCatalogue w = false := by
  rw [Bool.eq_false_iff]
  intro hs
  obtain ⟨c, hc, hd⟩ := h
  rcases shortCatalogue_cases hs with rfl | rfl | rfl <;> simp_all

theorem gluedCatalogue_head {word head number : Text}
    (h : gluedCatalogue word = some (head, number)) :
    ∃ c cs, head = c :: cs ∧ c.isLower = true := by
  simp only [gluedCatalogue] at h
  split at h
  · rename_i hc
    obtain ⟨rfl, -⟩ := by simpa using h
    cases hw : word.takeWhile Char.isLower with
    | nil => simp [hw] at hc
    | cons c cs =>
      have hmem : c ∈ word.takeWhile Char.isLower := by simp [hw]
      exact ⟨c, cs, rfl, List.mem_takeWhile_imp hmem⟩
  · cases h

theorem digit_not_lower {c : Char} (hd : c.isDigit = true) : ¬c.isLower = true := by
  have hval : c.toNat = c.val.toNat := rfl
  simp only [Char.isDigit, Char.isLower, Bool.and_eq_true, decide_eq_true_iff,
    UInt32.le_iff_toNat_le] at hd ⊢
  simp at hd ⊢
  omega

theorem gluedCatalogue_digit {word head number : Text}
    (h : gluedCatalogue word = some (head, number)) : ∃ c ∈ word, c.isDigit = true := by
  obtain ⟨rfl, hn⟩ := gluedCatalogue_eq h
  obtain ⟨c, hc, hd⟩ := catalogueNumber_digit hn
  exact ⟨c, List.mem_append_right _ hc, hd⟩

theorem scanTerms_cons_flag (opusParts : Bool) {w : Text} {rest : List Word}
    (h : shortCatalogue w = true → catalogueNumber (wordAt rest 0) = false) (a b : Bool) :
    scanTerms opusParts 0 (⟨w, a⟩ :: rest) = scanTerms opusParts 0 (⟨w, b⟩ :: rest) := by
  rw [scanTerms, scanTerms, readTerm_flag opusParts h a b]

theorem scanTerms_first (opusParts : Bool) (w : Text) (a b : Bool) (rest : List Word) :
    scanTerms opusParts 0 (splitWord w a ++ rest) = scanTerms opusParts 0 (splitWord w b ++ rest) ↔
      ¬(shortCatalogue w = true ∧ catalogueNumber (wordAt rest 0) = true ∧ a ≠ b) := by
  cases hg : gluedCatalogue w with
  | some p =>
    obtain ⟨head, number⟩ := p
    have hw := shortCatalogue_no_digit (gluedCatalogue_digit hg)
    refine iff_of_true ?_ (by simp [hw])
    cases hh : shortCatalogue head with
    | true =>
      rw [scanTerms_splitWord_glued opusParts hg hh, scanTerms_splitWord_glued opusParts hg hh]
    | false =>
      by_cases hc : mapGet catalogues head = []
      · simpa [splitWord, hg, hc] using scanTerms_cons_flag opusParts (by simp [hw]) a b
      · simpa [splitWord, hg, hc, hh] using scanTerms_cons_flag opusParts (by simp [hh]) a b
  | none =>
    simp only [splitWord, hg, List.cons_append, List.nil_append]
    by_cases h : shortCatalogue w = true ∧ catalogueNumber (wordAt rest 0) = true
    · obtain ⟨hw, hn⟩ := h
      have hne : w ≠ w ++ wordAt rest 0 := by
        obtain ⟨d, ds, hd, -⟩ := catalogueNumber_head hn
        simp [hd]
      cases a <;> cases b <;>
        simp [hw, hn, hne, hne.symm, scanTerms, readTerm_short_false opusParts hw hn,
          readTerm_short_true opusParts hw hn]
    · refine iff_of_true (scanTerms_cons_flag opusParts (fun hw => ?_) a b) fun hc => h ⟨hc.1, hc.2.1⟩
      simpa [hw] using h

end FirstWord

section Mismatch

theorem joinWords_space (v w : Text) (ws : List Text) : ' ' ∈ joinWords (v :: w :: ws) := by
  simp [joinWords_cons, spaced]

def isShortHead (words : List Text) : Bool :=
  match words with
  | [w] => shortCatalogue w
  | _ => false

def isNumberWord (words : List Text) : Bool :=
  match words with
  | [w] => catalogueNumber w
  | _ => false

theorem isShortHead_eq (words : List Text) :
    isShortHead words = shortCatalogue (joinWords words) := by
  match words with
  | [] => rfl
  | [w] => simp [isShortHead, joinWords]
  | v :: w :: ws =>
    have hspace := joinWords_space v w ws
    rw [isShortHead, eq_comm, Bool.eq_false_iff]
    intro h
    rcases shortCatalogue_cases h with h | h | h <;> simp [h] at hspace
    simp

theorem isNumberWord_eq (words : List Text) :
    isNumberWord words = catalogueNumber (joinWords words) := by
  match words with
  | [] => rfl
  | [w] => simp [isNumberWord, joinWords]
  | v :: w :: ws =>
    rw [isNumberWord, eq_comm, Bool.eq_false_iff]
    intro h
    rcases catalogueNumber_chars h ' ' (joinWords_space v w ws) with hd | hl
    · simp at hd
    · simp at hl
    simp

/-- The texts whose first word is a short head without a dot after it, with a
number word after it and before it only characters that one language trims and
the other does not. -/
def shortHeadMismatch (text : Text) : Bool :=
  match spans U.inWord (normalizedSearch U text) with
  | first :: second :: _ =>
    isShortHead (foldWords U first.word) && !".".toList.isPrefixOf first.after &&
      ((trimSpace first.before).isEmpty != (jsTrim first.before).isEmpty) &&
      isNumberWord (foldWords U second.word)
  | _ => false

theorem wordAt_splitWord (w : Text) (a : Bool) (rest : List Word) :
    catalogueNumber (wordAt (splitWord w a ++ rest) 0) = catalogueNumber w := by
  have hsame : catalogueNumber (wordAt (⟨w, a⟩ :: rest) 0) = catalogueNumber w := rfl
  cases hg : gluedCatalogue w with
  | none => simpa [splitWord, hg] using hsame
  | some p =>
    obtain ⟨head, number⟩ := p
    by_cases hc : mapGet catalogues head ≠ [] ∧ (shortCatalogue head = false ∨ a = true)
    · have hw : catalogueNumber w = false := by
        obtain ⟨c, cs, hhead, hlower⟩ := gluedCatalogue_head hg
        rw [Bool.eq_false_iff]
        intro h
        obtain ⟨d, ds, hd, hdigit⟩ := catalogueNumber_head h
        obtain ⟨rfl, -⟩ := gluedCatalogue_eq hg
        rw [hhead, List.cons_append, List.cons.injEq] at hd
        exact digit_not_lower hdigit (hd.1 ▸ hlower)
      have hhead : catalogueNumber head = false := by
        rw [Bool.eq_false_iff]
        intro h
        exact hc.1 (mapGet_of_digit catalogues_no_digit (catalogueNumber_digit h))
      simp [splitWord, hg, hc, wordAt, hw, hhead]
    · simpa [splitWord, hg, hc] using hsame

theorem flatMap_words_tail {text : Text} {first : Span Char} {rest : List (Span Char)}
    (h : spans U.inWord (normalizedSearch U text) = first :: rest) :
    rest.flatMap (fun s => Browser.pushWords (Browser.fold U s.word) (Browser.spanAllowed s)) =
      rest.flatMap fun s => splitWord (foldSearch U s.word) (spanAllowed s) := by
  refine List.flatMap_congr fun s hs => ?_
  rw [fold_eq_foldSearch, pushWords_eq, spanAllowed_of_word U (spans_tail h s hs)]

theorem catalogueTerms_iff (text : Text) (opusParts : Bool) :
    Browser.catalogueTerms U text opusParts = catalogueTerms U text opusParts ↔
      shortHeadMismatch U text = false := by
  rw [Browser.catalogueTerms, catalogueTerms, scanTerms_eq, Browser.catalogueWords, catalogueWords,
    normalized_eq, shortHeadMismatch]
  cases h : spans U.inWord (normalizedSearch U text) with
  | nil => simp
  | cons first rest =>
    rw [List.flatMap_cons, List.flatMap_cons, flatMap_words_tail U h, fold_eq_foldSearch,
      pushWords_eq, scanTerms_first]
    cases rest with
    | nil => simp [wordAt, catalogueNumber]
    | cons second rest =>
      rw [List.flatMap_cons, wordAt_splitWord]
      simp only [isShortHead_eq, isNumberWord_eq, ← foldSearch_eq, Browser.spanAllowed, spanAllowed]
      cases ".".toList.isPrefixOf first.after <;>
        cases (trimSpace first.before).isEmpty <;> cases (jsTrim first.before).isEmpty <;> simp

end Mismatch

section Marks

theorem replaceNumberSigns_eq_self {t : Text} (h : ∀ c ∈ t, c ≠ 'n' ∧ c ≠ 'N') :
    Browser.replaceNumberSigns t = t := by
  fun_induction Browser.replaceNumberSigns t with
  | case1 => rfl
  | case2 c => rfl
  | case3 c d ds hsign ih =>
    obtain ⟨hn, hN⟩ := h c (by simp)
    exact absurd hsign.1 (by simp [hn, hN])
  | case4 c d ds hsign ih => rw [ih fun e he => h e (by simp [he])]

theorem not_mark_ascii {c : Char} (h : U.isMark c = true) {d : Char} (hd : isASCII d = true) :
    c ≠ d := by
  rintro rfl
  simp [U.mark_ascii c hd] at h

theorem leftover_mark {c : Char} (h : U.isMark c = true) : Browser.leftover c = [c] := by
  have hletter : ∀ d ∈ "øłßæœđðþıς".toList, c ≠ d := by
    rintro d hd rfl
    simpa [U.mark_not_letter c h] using U.letter_leftover c hd
  have hsharp : c ≠ '♯' := by
    rintro rfl
    simp [U.mark_accidental] at h
  have hflat : c ≠ '♭' := by
    rintro rfl
    simp [U.mark_accidental] at h
  have hsign : c ≠ '#' := not_mark_ascii U h (by decide)
  unfold Browser.leftover
  split <;> simp_all

theorem foldSearch_marks {t : Text} (h : ∀ c ∈ t, U.isMark c = true) : foldSearch U t = [] := by
  have hsigns : Browser.replaceNumberSigns t = t :=
    replaceNumberSigns_eq_self fun c hc =>
      ⟨not_mark_ascii U (h c hc) (by decide), not_mark_ascii U (h c hc) (by decide)⟩
  have hmarks : ∀ c ∈ normalizedSearch U t, U.isMark c = true := by
    intro c hc
    rw [normalizedSearch, newReplacer_singletons (by decide), numberSigns_eq, hsigns] at hc
    obtain ⟨d, hd, hc⟩ := List.mem_flatMap.mp hc
    obtain ⟨e, he, rfl⟩ := List.mem_map.mp hd
    have hlower := U.lower_mark e (U.nfkd_marks t h e he)
    rw [replaceChar_leftovers, leftover_mark U hlower, List.mem_singleton] at hc
    rwa [hc]
  have hnone : unmarked U t = [] := by
    rw [unmarked, List.filter_eq_nil_iff]
    intro c hc
    simp [hmarks c hc]
  simp [foldSearch_eq, foldWords, hnone, joinWords]

theorem span_marks {text : Text} (h : foldWords U text = []) :
    ∀ s ∈ spans U.inWord (normalizedSearch U text), ∀ c ∈ s.word, U.isMark c = true := by
  intro s hs c hc
  obtain ⟨htext, -, hword⟩ := spans_sound hs
  rcases U.inWord_cases (hword c hc) with hrune | hmark
  · by_contra hm
    have hmem : c ∈ unmarked U text := by
      rw [unmarked, List.mem_filter, htext]
      exact ⟨by simp [hc], by simpa using hm⟩
    obtain ⟨w, hw, -⟩ := exists_mem_tokens (p := separator U) hmem (by simp [separator, hrune])
    rw [foldWords] at h
    simp [h] at hw
  · exact hmark

theorem scanTerms_nil_words (opusParts : Bool) {words : List Word} (h : ∀ w ∈ words, w.text = []) :
    ∀ t ∈ scanTerms opusParts 0 words, t = [] := by
  induction words with
  | nil => simp [scanTerms]
  | cons w ws ih =>
    have hw := h w (by simp)
    have hread : readTerm opusParts w ws = ([[]], 0) := by
      simp [readTerm, hw, mapGet, catalogues, germanKeys, List.lookup, englishFlat, byteLen]
    intro t ht
    rw [scanTerms, hread, List.mem_append] at ht
    rcases ht with ht | ht
    · simpa using ht
    · exact ih (fun v hv => h v (by simp [hv])) t ht

theorem catalogueTerms_nil {text : Text} (h : foldWords U text = []) (opusParts : Bool) :
    ∀ t ∈ catalogueTerms U text opusParts, t = [] := by
  refine scanTerms_nil_words opusParts fun w hw => ?_
  obtain ⟨s, hs, hw⟩ := List.mem_flatMap.mp hw
  have hsplit : splitWord ([] : Text) (spanAllowed s) = [⟨[], spanAllowed s⟩] := rfl
  rw [foldSearch_marks U (span_marks U h s hs), hsplit, List.mem_singleton] at hw
  rw [hw]

end Marks

section Index

theorem addTerm_eq (acc : Text × List Text) (t : Text) : Browser.addTerm acc t = addTerm acc t := by
  unfold Browser.addTerm addTerm
  refine ite_congr (propext List.contains_iff_mem) (fun _ => rfl) fun _ => ?_
  cases h : acc.1 <;> simp

theorem foldl_addTerm_nil (seen : List Text) {terms : List Text} (h : ∀ t ∈ terms, t = []) :
    (terms.foldl addTerm ([], seen)).1 = [] := by
  induction terms generalizing seen with
  | nil => rfl
  | cons t ts ih =>
    obtain rfl := h t (by simp)
    have htail := fun seen => ih seen fun s hs => h s (by simp [hs])
    by_cases hs : [] ∈ seen
    · simpa [addTerm, hs] using htail seen
    · simpa [addTerm, hs] using htail ([] :: seen)

theorem browser_searchIndex_eq_foldl (texts : List Text) :
    Browser.searchIndex U texts =
      ((texts.flatMap (Browser.catalogueTerms U · true)).foldl addTerm
        (baseIndex U texts, (baseIndex U texts).splitOn ' ')).1 := by
  have hbase : [' '].intercalate ((texts.map (Browser.fold U)).filter fun f => !f.isEmpty) =
      baseIndex U texts := by
    rw [show Browser.fold U = foldSearch U from funext (fold_eq_foldSearch U), baseIndex, joinWords]
    congr 2
    funext f
    cases f <;> rfl
  rw [Browser.searchIndex, hbase, List.foldl_flatMap,
    show Browser.addTerm = addTerm from funext fun acc => funext (addTerm_eq acc)]

theorem browser_catalogueTerms_runes (text : Text) (opusParts : Bool) :
    ∀ t ∈ Browser.catalogueTerms U text opusParts, isIndexText U t := by
  rw [Browser.catalogueTerms, scanTerms_eq]
  refine scanTerms_made (isIndexRune_lower U) opusParts 0 fun w hw => ?_
  obtain ⟨s, -, hw⟩ := List.mem_flatMap.mp hw
  rw [pushWords_eq, fold_eq_foldSearch] at hw
  exact splitWord_made (foldSearch_runes U s.word) _ w hw

theorem browser_searchIndex_runes (texts : List Text) :
    isIndexText U (Browser.searchIndex U texts) := by
  rw [browser_searchIndex_eq_foldl]
  refine foldl_addTerm_runes U (baseIndex_runes U texts) fun t ht => ?_
  obtain ⟨text, -, ht⟩ := List.mem_flatMap.mp ht
  exact browser_catalogueTerms_runes U text true t ht

theorem searchIndex_eq {texts : List Text}
    (h : ∀ text ∈ texts, Browser.catalogueTerms U text true = catalogueTerms U text true) :
    Browser.searchIndex U texts = searchIndex U texts := by
  rw [browser_searchIndex_eq_foldl, List.flatMap_congr h]
  change _ = ((texts.flatMap (catalogueTerms U · true)).foldl addTerm
    (baseIndex U texts, fields (baseIndex U texts))).1
  by_cases hwords : texts.flatMap (foldWords U) = []
  · have hbase : baseIndex U texts = [] := by rw [baseIndex_eq, hwords]; rfl
    have hterms : ∀ t ∈ texts.flatMap (catalogueTerms U · true), t = [] := by
      intro t ht
      obtain ⟨text, htext, ht⟩ := List.mem_flatMap.mp ht
      exact catalogueTerms_nil U (List.flatMap_eq_nil_iff.mp hwords text htext) true t ht
    rw [hbase, foldl_addTerm_nil _ hterms, foldl_addTerm_nil _ hterms]
  · have hall : ∀ w ∈ texts.flatMap (foldWords U), isWord U w := fun w => isWord_of_mem_base U
    rw [baseIndex_eq, splitOn_joinWords U hall hwords, fields_joinWords U hall]

def SameSearch (texts : List Text) : Prop :=
  (∀ s ∈ texts, foldSearch U s = Browser.fold U s ∧
    ∀ opusParts, catalogueTerms U s opusParts = Browser.catalogueTerms U s opusParts) ∧
  searchIndex U texts = Browser.searchIndex U texts

/-- The two searches are one function on exactly the texts without a mismatched
short head. -/
theorem sameSearch_iff (texts : List Text) :
    SameSearch U texts ↔ ∀ s ∈ texts, shortHeadMismatch U s = false := by
  constructor
  · rintro ⟨hall, -⟩ s hs
    exact (catalogueTerms_iff U s true).mp ((hall s hs).2 true).symm
  · intro h
    refine ⟨fun s hs => ⟨(fold_eq_foldSearch U s).symm, fun opusParts => ?_⟩, ?_⟩
    · exact ((catalogueTerms_iff U s opusParts).mpr (h s hs)).symm
    · exact (searchIndex_eq U fun s hs => (catalogueTerms_iff U s true).mpr (h s hs)).symm

/-- A byte order mark before a short head: JavaScript trims it and Go does not. -/
theorem not_sameSearch_byteOrderMark :
    ¬SameSearch basicTables [byteOrderMark :: "S 12".toList] := by
  intro h
  have hterms := (h.1 (byteOrderMark :: "S 12".toList) (List.mem_singleton.mpr rfl)).2 false
  exact absurd hterms (by decide)

end Index

end Noted.Search
