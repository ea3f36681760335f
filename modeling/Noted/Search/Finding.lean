import Noted.Search.Spelling

/-!
# Finding a piece by any spelling

A spelling as typed becomes the words `Spelling.words` after normalization,
wherever it stands: a space is a boundary for every step, and the gaps of a
spelling hold no letter, number or mark. So the index of a text that holds one
spelling has the term as a word, and another spelling alone is that term.
-/

namespace Noted.Search

open Library.Words

variable (U : UnicodeTables)

section Normalized

theorem replaceNumberSigns_space (a b : Text) :
    Browser.replaceNumberSigns (a ++ ' ' :: b) =
      Browser.replaceNumberSigns a ++ ' ' :: Browser.replaceNumberSigns b := by
  have hspace : ∀ b, Browser.replaceNumberSigns (' ' :: b) = ' ' :: Browser.replaceNumberSigns b := by
    intro b
    cases b <;> simp [Browser.replaceNumberSigns]
  fun_induction Browser.replaceNumberSigns a with
  | case1 => simpa using hspace b
  | case2 c => simp [Browser.replaceNumberSigns, hspace]
  | case3 c d ds h ih => simp [Browser.replaceNumberSigns, h, ih]
  | case4 c d ds h ih => simpa [Browser.replaceNumberSigns, h] using ih

theorem normalizedSearch_space (a b : Text) :
    normalizedSearch U (a ++ ' ' :: b) = normalizedSearch U a ++ ' ' :: normalizedSearch U b := by
  have hspace : U.lower ' ' = ' ' := U.lower_ascii ' ' (by decide)
  have hkeep : replaceChar foldLeftovers ' ' = [' '] := rfl
  simp only [normalizedSearch, numberSigns_eq, replaceNumberSigns_space,
    U.nfkd_inert _ ' ' _ (by decide), newReplacer_singletons
      (by decide : ∀ p ∈ foldLeftovers, p.1.length = 1), List.map_append, List.map_cons, hspace,
    List.flatMap_append, List.flatMap_cons, hkeep, List.cons_append, List.nil_append]

def normalRune (c : Char) : Text :=
  if c = '#' ∨ c = '♯' then " sharp ".toList
  else if c = '♭' then " flat ".toList
  else [c.toLower]

theorem isASCII_toLower {c : Char} (hc : isASCII c = true) : isASCII c.toLower = true := by
  have hnat : c.toNat < 128 := by simpa [isASCII] using hc
  rcases toLower_cases c with he | ⟨-, hle, he⟩
  · rw [he]
    exact hc
  · simp only [isASCII, he, decide_eq_true_iff]
    omega

theorem leftover_ascii {c : Char} (hc : isASCII c = true) (hne : c ≠ '#') :
    Browser.leftover c = [c] := by
  unfold Browser.leftover
  split <;> first | rfl | (exfalso; revert hc; decide) | exact absurd rfl hne

theorem replaceChar_inert {c : Char} (h : inert c = true) :
    replaceChar foldLeftovers (U.lower c) = normalRune c := by
  rw [replaceChar_leftovers]
  by_cases hsharp : c = '♯'
  · subst hsharp
    rw [U.lower_sharp]
    rfl
  by_cases hflat : c = '♭'
  · subst hflat
    rw [U.lower_flat]
    rfl
  by_cases hsign : c = '#'
  · subst hsign
    rw [U.lower_ascii '#' (by decide)]
    rfl
  have hc : isASCII c = true := by simpa [inert, hsharp, hflat] using h
  have hlower := isASCII_toLower hc
  have hne : c.toLower ≠ '#' := by
    intro he
    rcases toLower_cases c with hs | ⟨hge, -, hs⟩
    · exact hsign (hs ▸ he)
    · rw [he] at hs
      simp at hs
      omega
  rw [U.lower_ascii c hc, leftover_ascii hlower hne, normalRune, if_neg (by simp [hsign, hsharp]),
    if_neg hflat]

theorem normalizedSearch_inert {t : Text} (h : ∀ c ∈ t, inert c = true) :
    normalizedSearch U t = t.flatMap normalRune := by
  have hsigns : Browser.replaceNumberSigns t = t := by
    fun_induction Browser.replaceNumberSigns t with
    | case1 => rfl
    | case2 c => rfl
    | case3 c d ds hsign ih =>
      have hd := h d (by simp)
      rcases hsign.2 with rfl | rfl <;> exact absurd hd (by decide)
    | case4 c d ds hsign ih => rw [ih fun e he => h e (by simp [he])]
  rw [normalizedSearch, numberSigns_eq, hsigns, U.nfkd_of_inert h,
    newReplacer_singletons (by decide), List.flatMap_map]
  exact List.flatMap_congr fun c hc => replaceChar_inert U (h c hc)

theorem normalizedSearch_numberSign {n o : Char} (hn : n = 'n' ∨ n = 'N') (ho : o = '°' ∨ o = 'º')
    {t : Text} (h : ∀ c ∈ t, inert c = true) :
    normalizedSearch U (n :: o :: t) = "no ".toList ++ t.flatMap normalRune := by
  have hno : ∀ c ∈ "no ".toList ++ t, inert c = true := by
    intro c hc
    rcases List.mem_append.mp hc with hc | hc
    · exact List.all_eq_true.mp (by decide : "no ".toList.all inert = true) c hc
    · exact h c hc
  have hsame : Browser.replaceNumberSigns (n :: o :: t) =
      Browser.replaceNumberSigns ("no ".toList ++ t) := by
    rcases hn with rfl | rfl <;> rcases ho with rfl | rfl <;> cases t <;>
      simp [Browser.replaceNumberSigns]
  have heq := normalizedSearch_inert U hno
  rw [normalizedSearch, numberSigns_eq, hsame, ← numberSigns_eq, ← normalizedSearch, heq,
    List.flatMap_append]
  rfl

end Normalized

section Runs

def runs (t : Text) : List Text := (spans U.inWord t).map Span.word

theorem runs_append_cons (x y : Text) {c : Char} (hc : U.inWord c = false) :
    runs U (x ++ c :: y) = runs U x ++ runs U y := by
  simp [runs, spans_append_cons x y hc, Function.comp_def]

theorem runs_nil : runs U [] = [] := rfl

theorem runs_gap {g : Text} (hg : ∀ c ∈ g, U.inWord c = false) (y : Text) :
    runs U (g ++ y) = runs U y := by
  induction g with
  | nil => rfl
  | cons c cs ih =>
    have h := runs_append_cons U [] (cs ++ y) (hg c (by simp))
    simpa [runs_nil, ih fun d hd => hg d (by simp [hd])] using h

theorem runs_word {w : Text} (hne : w ≠ []) (hw : ∀ c ∈ w, U.inWord c = true) :
    runs U w = [w] := by
  simp [runs, spans_word hne hw]

theorem runs_word_gap {w g : Text} (hne : w ≠ []) (hw : ∀ c ∈ w, U.inWord c = true)
    (hgne : g ≠ []) (hg : ∀ c ∈ g, U.inWord c = false) (y : Text) :
    runs U (w ++ (g ++ y)) = w :: runs U y := by
  cases g with
  | nil => exact absurd rfl hgne
  | cons c cs =>
    have hc := hg c (by simp)
    rw [List.cons_append, runs_append_cons U w _ hc, runs_word U hne hw,
      runs_gap U fun d hd => hg d (by simp [hd])]
    rfl

end Runs

section Typed

def isTyped (t : Text) : Prop := t ≠ [] ∧ ∀ c ∈ lower t, c.isLower = true ∨ c.isDigit = true

theorem isTyped_alphanum {t : Text} (h : isTyped t) : ∀ c ∈ t, c.toLower.isAlphanum = true := by
  intro c hc
  have hmem : c.toLower ∈ lower t := List.mem_map_of_mem hc
  rcases h.2 _ hmem with hl | hd
  · simp [Char.isAlphanum, Char.isAlpha, hl]
  · simp [Char.isAlphanum, hd]

theorem isTyped_inert {t : Text} (h : isTyped t) : ∀ c ∈ t, inert c = true := by
  intro c hc
  have hlt := (alphanum_toNat (isTyped_alphanum h c hc)).2
  have hc : isASCII c = true := by
    rcases toLower_cases c with he | ⟨-, hle, -⟩
    · rw [he] at hlt
      simpa [isASCII] using hlt
    · simp only [isASCII, decide_eq_true_iff]
      omega
  simp [inert, hc]

theorem isTyped_normal {t : Text} (h : isTyped t) : t.flatMap normalRune = lower t := by
  have hrune : ∀ c ∈ t, normalRune c = [c.toLower] := by
    intro c hc
    have ha := isTyped_alphanum h c hc
    have hsign : c ≠ '#' := by rintro rfl; exact absurd ha (by decide)
    have hsharp : c ≠ '♯' := by rintro rfl; exact absurd ha (by decide)
    have hflat : c ≠ '♭' := by rintro rfl; exact absurd ha (by decide)
    rw [normalRune, if_neg (by simp [hsign, hsharp]), if_neg hflat]
  rw [List.flatMap_congr hrune, lower, List.map_eq_flatMap]

theorem isTyped_inWord {t : Text} (h : isTyped t) :
    lower t ≠ [] ∧ ∀ c ∈ lower t, U.isWordRune c = true ∧ U.inWord c = true := by
  refine ⟨by simpa [lower] using h.1, fun c hc => ?_⟩
  obtain ⟨d, hd, rfl⟩ := List.mem_map.mp hc
  have ha := isTyped_alphanum h d hd
  have hascii : isASCII d.toLower = true := by simpa [isASCII] using (alphanum_toNat ha).2
  rw [U.isWordRune_ascii hascii, U.inWord_ascii hascii]
  exact ⟨ha, ha⟩

theorem lower_lower (t : Text) : lower (lower t) = lower t := by
  rw [lower, lower, List.map_map]
  exact List.map_congr_left fun c _ => c.toLower_toLower_eq_toLower

theorem isTyped_lower {t : Text} (h : isTyped t) : isTyped (lower t) := by
  refine ⟨by simpa [lower] using h.1, ?_⟩
  rw [lower_lower]
  exact h.2

theorem isTyped_append {s t : Text} (hs : isTyped s) (ht : isTyped t) : isTyped (s ++ t) := by
  refine ⟨by simp [hs.1], fun c hc => ?_⟩
  rw [lower, List.map_append] at hc
  rcases List.mem_append.mp hc with hc | hc
  · exact hs.2 c hc
  · exact ht.2 c hc

theorem foldSearch_lower {t : Text} (h : isTyped t) : foldSearch U (lower t) = lower t := by
  obtain ⟨hne, hword⟩ := isTyped_inWord U h
  have hnorm : normalizedSearch U (lower t) = lower t := by
    rw [normalizedSearch_inert U (isTyped_inert (isTyped_lower h)), isTyped_normal (isTyped_lower h),
      lower_lower]
  have hunmarked : unmarked U (lower t) = lower t := by
    rw [unmarked, hnorm, List.filter_eq_self]
    intro c hc
    have ha : c.isLower = true ∨ c.isDigit = true := h.2 c hc
    have hascii : isASCII c = true := by
      have hal : c.isAlphanum = true := by
        rcases ha with hl | hd
        · simp [Char.isAlphanum, Char.isAlpha, hl]
        · simp [Char.isAlphanum, hd]
      simpa [isASCII] using (alphanum_toNat hal).2
    simp [U.mark_ascii c hascii]
  rw [foldSearch_eq, foldWords, hunmarked, tokens_word hne fun c hc => by simp [separator, hword c hc]]
  simp [joinWords]

theorem isGap_rune {g : Text} (h : isGap g = true) :
    ∀ c ∈ g, isASCII c = true ∧ c.isAlphanum = false ∧ c ≠ '#' := by
  intro c hc
  have hc' := List.all_eq_true.mp h c hc
  simp only [Bool.and_eq_true, Bool.not_eq_true', bne_iff_ne] at hc'
  exact ⟨hc'.1.1, hc'.1.2, hc'.2⟩

theorem isGap_inert {g : Text} (h : isGap g = true) : ∀ c ∈ g, inert c = true := by
  intro c hc
  simp [inert, (isGap_rune h c hc).1]

theorem isGap_normal {g : Text} (h : isGap g = true) : g.flatMap normalRune = g := by
  have hrune : ∀ c ∈ g, normalRune c = [c] := by
    intro c hc
    obtain ⟨hascii, halnum, hsign⟩ := isGap_rune h c hc
    have hsharp : c ≠ '♯' := by rintro rfl; exact absurd hascii (by decide)
    have hflat : c ≠ '♭' := by rintro rfl; exact absurd hascii (by decide)
    have hupper : c.toLower = c := by
      rcases toLower_cases c with he | ⟨hge, hle, -⟩
      · exact he
      · have hval : c.toNat = c.val.toNat := rfl
        simp only [Char.isAlphanum, Char.isAlpha, Char.isUpper, Bool.or_eq_false_iff,
          decide_eq_false_iff_not, UInt32.le_iff_toNat_le] at halnum
        simp at halnum
        omega
    rw [normalRune, if_neg (by simp [hsign, hsharp]), if_neg hflat, hupper]
  rw [List.flatMap_congr hrune]
  simp

theorem isGap_inWord {g : Text} (h : isGap g = true) : ∀ c ∈ g, U.inWord c = false := by
  intro c hc
  obtain ⟨hascii, halnum, -⟩ := isGap_rune h c hc
  rw [U.inWord_ascii hascii, halnum]

end Typed

section Words

/-- The words of a text for one way to tell where short heads may stand. -/
def wordsBy (allowed : Span Char → Bool) (text : Text) : List Word :=
  (spans U.inWord (normalizedSearch U text)).flatMap fun s =>
    splitWord (foldSearch U s.word) (allowed s)

theorem browser_catalogueWords_eq : Browser.catalogueWords U = wordsBy U Browser.spanAllowed := by
  funext text
  rw [Browser.catalogueWords, wordsBy, normalized_eq]
  exact List.flatMap_congr fun s _ => by rw [fold_eq_foldSearch, pushWords_eq]

/-- A word of the normalized text that every surrounding splits into the same words. -/
def SplitsAs (r : Text) (ws : List Text) : Prop :=
  ∀ allowed, (splitWord (foldSearch U r) allowed).map Word.text = ws

theorem splitsAs_word {t : Text} (h : isTyped t) (hg : gluedCatalogue (lower t) = none) :
    SplitsAs U (lower t) [lower t] := by
  intro allowed
  simp [foldSearch_lower U h, splitWord, hg]

theorem gluedCatalogue_letters {w : Text} (h : ∀ c ∈ w, c.isDigit = false) :
    gluedCatalogue w = none := by
  cases hg : gluedCatalogue w with
  | none => rfl
  | some p =>
    obtain ⟨c, hc, hd⟩ := gluedCatalogue_digit hg
    simp [h c hc] at hd

theorem gluedCatalogue_number {n : Text} (h : catalogueNumber n = true) :
    gluedCatalogue n = none := by
  cases hg : gluedCatalogue n with
  | none => rfl
  | some p =>
    obtain ⟨d, ds, rfl, hd⟩ := catalogueNumber_head h
    obtain ⟨c, cs, hhead, hl⟩ := gluedCatalogue_head hg
    have heq := (gluedCatalogue_eq hg).1
    rw [hhead, List.cons_append, List.cons.injEq] at heq
    exact absurd (heq.1 ▸ hl) (digit_not_lower hd)

theorem gluedCatalogue_append {head n : Text} (hne : head ≠ [])
    (hhead : ∀ c ∈ head, c.isLower = true) (hn : catalogueNumber n = true) :
    gluedCatalogue (head ++ n) = some (head, n) := by
  obtain ⟨d, ds, rfl, hd⟩ := catalogueNumber_head hn
  have hl : d.isLower = false := by simpa using digit_not_lower hd
  have htake : (head ++ d :: ds).takeWhile Char.isLower = head := by
    rw [List.takeWhile_append_of_pos hhead]
    simp [hl]
  have hdrop : (head ++ d :: ds).dropWhile Char.isLower = d :: ds := by
    rw [List.dropWhile_append_of_pos hhead]
    simp [hl]
  simp [gluedCatalogue, htake, hdrop, hne, hn]

theorem splitsAs_glued {head n : Text} (hh : isTyped head) (hn : isTyped n)
    (hhead : ∀ c ∈ lower head, c.isLower = true)
    (hcat : (catalogues.lookup (lower head)).isSome = true)
    (hshort : shortCatalogue (lower head) = false) (hnumber : catalogueNumber (lower n) = true) :
    SplitsAs U (lower (head ++ n)) [lower head, lower n] := by
  intro allowed
  have hg := gluedCatalogue_append (isTyped_inWord U hh).1 hhead hnumber
  rw [foldSearch_lower U (isTyped_append hh hn)]
  have hlower : lower (head ++ n) = lower head ++ lower n := by simp [lower]
  rw [hlower, splitWord, hg]
  simp [(mapGet_ne_nil catalogues_ne_nil _).mpr hcat, hshort]

theorem map_text_wordsBy {ss : List (Span Char)} {pieces : List (Text × List Text)}
    (hruns : ss.map Span.word = pieces.map Prod.fst) (h : ∀ p ∈ pieces, SplitsAs U p.1 p.2)
    (allowed : Span Char → Bool) :
    (ss.flatMap fun s => splitWord (foldSearch U s.word) (allowed s)).map Word.text =
      pieces.flatMap Prod.snd := by
  induction ss generalizing pieces with
  | nil =>
    have hnil : pieces = [] := by simpa using hruns.symm
    simp [hnil]
  | cons s ss ih =>
    cases pieces with
    | nil => simp at hruns
    | cons p pieces =>
      simp only [List.map_cons, List.cons.injEq] at hruns
      have htail := ih hruns.2 fun q hq => h q (by simp [hq])
      rw [List.flatMap_cons, List.map_append, htail, hruns.1, h p (by simp), List.flatMap_cons]

theorem wordsBy_context (allowed : Span Char → Bool) (a b : Text) {t : Text}
    {pieces : List (Text × List Text)}
    (hruns : runs U (normalizedSearch U t) = pieces.map Prod.fst)
    (h : ∀ p ∈ pieces, SplitsAs U p.1 p.2) :
    ∃ before words after, wordsBy U allowed (a ++ ' ' :: t ++ ' ' :: b) = before ++ (words ++ after) ∧
      words.map Word.text = pieces.flatMap Prod.snd := by
  rw [wordsBy, List.append_assoc, List.cons_append, normalizedSearch_space, normalizedSearch_space,
    spans_append_cons _ _ U.inWord_space, spans_append_cons _ _ U.inWord_space, List.map_append,
    List.flatMap_append, List.flatMap_append]
  refine ⟨_, _, _, rfl, map_text_wordsBy U ?_ h allowed⟩
  simpa [runs, Function.comp_def] using hruns

end Words

section Found

def isLetters (w : Text) : Bool := !w.isEmpty && w.all Char.isLower

theorem isLetters_chars {w : Text} (h : isLetters w = true) :
    w ≠ [] ∧ ∀ c ∈ w, c.isLower = true := by
  rw [isLetters, Bool.and_eq_true, List.all_eq_true] at h
  exact ⟨by simpa using h.1, h.2⟩

theorem letters_piece {t : Text} (h : isLetters (lower t) = true) :
    isTyped t ∧ SplitsAs U (lower t) [lower t] := by
  obtain ⟨hne, hall⟩ := isLetters_chars h
  have htyped : isTyped t := ⟨by simpa [lower] using hne, fun c hc => Or.inl (hall c hc)⟩
  refine ⟨htyped, splitsAs_word U htyped (gluedCatalogue_letters fun c hc => ?_)⟩
  rw [Bool.eq_false_iff]
  exact fun hd => digit_not_lower hd (hall c hc)

theorem number_piece {n : Text} (h : catalogueNumber (lower n) = true) :
    isTyped n ∧ SplitsAs U (lower n) [lower n] := by
  have htyped : isTyped n := by
    refine ⟨?_, fun c hc => (catalogueNumber_chars h c hc).symm⟩
    rintro rfl
    simp [lower, catalogueNumber] at h
  exact ⟨htyped, splitsAs_word U htyped (gluedCatalogue_number h)⟩

theorem isLetters_key {m : List (Text × Text)} (hm : ∀ p ∈ m, isLetters p.1 = true) {w : Text}
    (h : (m.lookup w).isSome = true) : isLetters w = true := by
  obtain ⟨v, hv⟩ := Option.isSome_iff_exists.mp h
  obtain ⟨l₁, l₂, hl, -⟩ := List.lookup_eq_some_iff.mp hv
  exact hm (w, v) (by simp [hl])

theorem isLetters_roman {w : Text} (h : romanNumeral w = true) : isLetters w = true := by
  rw [romanNumeral, Bool.and_eq_true, List.all_eq_true] at h
  rw [isLetters, Bool.and_eq_true, List.all_eq_true]
  refine ⟨h.1, fun c hc => ?_⟩
  have hcase := h.2 c hc
  simp only [Bool.or_eq_true, beq_iff_eq] at hcase
  rcases hcase with ((rfl | rfl) | rfl) | rfl <;> decide

theorem isLetters_note {c : Char} (h : isNote c = true) : isLetters [c] = true := by
  rcases isNote_cases h with rfl | rfl | rfl | rfl | rfl | rfl | rfl <;> decide

theorem isLetters_mode {m : Text} (h : Spelling.isMode m = true ∨ m = "m".toList) :
    isLetters m = true := by
  rcases h with h | rfl
  · rcases isMode_cases h with rfl | rfl <;> decide
  · decide

theorem typed_append_inert {v g t : Text} (hv : isTyped v) (hg : isGap g = true)
    (ht : ∀ c ∈ t, inert c = true) : ∀ c ∈ v ++ (g ++ t), inert c = true := by
  intro c hc
  rcases List.mem_append.mp hc with hc | hc
  · exact isTyped_inert hv c hc
  · rcases List.mem_append.mp hc with hc | hc
    · exact isGap_inert hg c hc
    · exact ht c hc

theorem runs_typed {v : Text} (hv : isTyped v) : runs U (normalizedSearch U v) = [lower v] := by
  obtain ⟨hne, hword⟩ := isTyped_inWord U hv
  rw [normalizedSearch_inert U (isTyped_inert hv), isTyped_normal hv,
    runs_word U hne fun c hc => (hword c hc).2]

theorem runs_typed_gap {v g t : Text} (hv : isTyped v) (hg : isGap g = true)
    (hne : g.isEmpty = false) (ht : ∀ c ∈ t, inert c = true) :
    runs U (normalizedSearch U (v ++ (g ++ t))) = lower v :: runs U (normalizedSearch U t) := by
  obtain ⟨hvne, hword⟩ := isTyped_inWord U hv
  rw [normalizedSearch_inert U (typed_append_inert hv hg ht), normalizedSearch_inert U ht,
    List.flatMap_append, List.flatMap_append, isTyped_normal hv, isGap_normal hg,
    runs_word_gap U hvne (fun c hc => (hword c hc).2) (by simpa using hne) (isGap_inWord U hg)]

theorem runs_sign {v g₁ g₂ m : Text} {c : Char} (hv : isTyped v) (hg₁ : isGap g₁ = true)
    (hc : c = '#' ∨ c = '♯' ∨ c = '♭') (hg₂ : isGap g₂ = true) (hm : isTyped m) :
    runs U (normalizedSearch U (v ++ (g₁ ++ ([c] ++ (g₂ ++ m))))) =
      [lower v, Spelling.accidentalWord c, lower m] := by
  have hinert : ∀ d ∈ [c] ++ (g₂ ++ m), inert d = true := by
    intro d hd
    rcases List.mem_append.mp hd with hd | hd
    · obtain rfl := List.mem_singleton.mp hd
      rcases hc with rfl | rfl | rfl <;> decide
    · rcases List.mem_append.mp hd with hd | hd
      · exact isGap_inert hg₂ d hd
      · exact isTyped_inert hm d hd
  have hnorm : [c].flatMap normalRune = ' ' :: Spelling.accidentalWord c ++ [' '] := by
    rcases hc with rfl | rfl | rfl <;> decide
  have hspace : ∀ d ∈ ([' '] : Text), U.inWord d = false := by simp
  have hacc : Spelling.accidentalWord c ≠ [] ∧
      ∀ d ∈ Spelling.accidentalWord c, U.inWord d = true := by
    have hplain : ∀ w : Text, isLetters w = true → w ≠ [] ∧ ∀ d ∈ w, U.inWord d = true := by
      intro w hw
      obtain ⟨hne, hall⟩ := isLetters_chars hw
      refine ⟨hne, fun d hd => ?_⟩
      rw [U.inWord_ascii (lower_isASCII (hall d hd))]
      simp [Char.isAlphanum, Char.isAlpha, hall d hd]
    rcases hc with rfl | rfl | rfl <;> exact hplain _ (by decide)
  obtain ⟨hvne, hvword⟩ := isTyped_inWord U hv
  obtain ⟨hmne, hmword⟩ := isTyped_inWord U hm
  have htext : (v ++ (g₁ ++ ([c] ++ (g₂ ++ m)))).flatMap normalRune =
      lower v ++ ((g₁ ++ [' ']) ++ (Spelling.accidentalWord c ++ ((' ' :: g₂) ++ lower m))) := by
    rw [List.flatMap_append, List.flatMap_append, List.flatMap_append, List.flatMap_append,
      isTyped_normal hv, isGap_normal hg₁, isGap_normal hg₂, isTyped_normal hm, hnorm]
    simp
  rw [normalizedSearch_inert U (typed_append_inert hv hg₁ hinert), htext,
    runs_word_gap U hvne (fun d hd => (hvword d hd).2) (by simp) ?_,
    runs_word_gap U hacc.1 hacc.2 (by simp) ?_,
    runs_word U hmne fun d hd => (hmword d hd).2]
  · intro d hd
    rcases List.mem_cons.mp hd with rfl | hd
    · simp
    · exact isGap_inWord U hg₂ d hd
  · intro d hd
    rcases List.mem_append.mp hd with hd | hd
    · exact isGap_inWord U hg₁ d hd
    · exact hspace d hd

/-- The runs of a spelling, with the words each is split into. -/
def SpelledBy (s : Spelling) (pieces : List (Text × List Text)) : Prop :=
  runs U (normalizedSearch U s.text) = pieces.map Prod.fst ∧
    (∀ p ∈ pieces, SplitsAs U p.1 p.2) ∧ pieces.flatMap Prod.snd = s.words

theorem splitsAs_pair {v w : Text} (hv : SplitsAs U v [v]) (hw : SplitsAs U w [w]) :
    ∀ p ∈ [(v, [v]), (w, [w])], SplitsAs U p.1 p.2 := by
  simp [hv, hw]

theorem splitsAs_triple {u v w : Text} (hu : SplitsAs U u [u]) (hv : SplitsAs U v [v])
    (hw : SplitsAs U w [w]) : ∀ p ∈ [(u, [u]), (v, [v]), (w, [w])], SplitsAs U p.1 p.2 := by
  simp [hu, hv, hw]

theorem splitsAs_letters {w : Text} (h : isLetters w = true) : SplitsAs U w [w] := by
  obtain ⟨-, hall⟩ := isLetters_chars h
  have hlower : lower w = w := by
    have hsame : ∀ c ∈ w, c.toLower = c := by
      intro c hc
      rcases toLower_cases c with he | ⟨hge, hle, -⟩
      · exact he
      · have hl := hall c hc
        have hval : c.toNat = c.val.toNat := rfl
        simp only [Char.isLower, Bool.and_eq_true, decide_eq_true_iff,
          UInt32.le_iff_toNat_le] at hl
        simp at hl
        omega
    rw [lower, List.map_congr_left hsame, List.map_id']
  have hpiece := (letters_piece U (t := w) (by rw [hlower]; exact h)).2
  rwa [hlower] at hpiece

theorem catalogues_letters : ∀ p ∈ catalogues, isLetters p.1 = true ∧ isLetters p.2 = true := by
  decide

theorem Spelling.spelledBy {s : Spelling} (h : s.accepted = true) : ∃ pieces, SpelledBy U s pieces := by
  cases s with
  | number head gap digits =>
    simp only [accepted, Bool.and_eq_true, Bool.not_eq_true'] at h
    obtain ⟨⟨⟨hhead, hshort⟩, hgap⟩, hdigits⟩ := h
    have hletters := isLetters_key (fun p hp => (catalogues_letters p hp).1) hhead
    obtain ⟨hht, hhs⟩ := letters_piece U hletters
    obtain ⟨hdt, hds⟩ := number_piece U hdigits
    cases hempty : gap.isEmpty with
    | true =>
      obtain rfl := List.isEmpty_iff.mp hempty
      refine ⟨[(lower (head ++ digits), [lower head, lower digits])], ?_, ?_, rfl⟩
      · exact runs_typed U (isTyped_append hht hdt)
      · simpa using splitsAs_glued U hht hdt (isLetters_chars hletters).2 hhead hshort hdigits
    | false =>
      refine ⟨[(lower head, [lower head]), (lower digits, [lower digits])], ?_,
        splitsAs_pair U hhs hds, rfl⟩
      rw [text, runs_typed_gap U hht hgap hempty (isTyped_inert hdt), runs_typed U hdt]
      rfl
  | numberSign n o gap digits =>
    simp only [accepted, Bool.and_eq_true, Bool.or_eq_true, beq_iff_eq] at h
    obtain ⟨⟨⟨hn, ho⟩, hgap⟩, hdigits⟩ := h
    obtain ⟨hdt, hds⟩ := number_piece U hdigits
    have hno := letters_piece U (t := "no".toList) (by decide)
    have hlowerno : lower "no".toList = "no".toList := by decide
    refine ⟨[("no".toList, ["no".toList]), (lower digits, [lower digits])], ?_,
      splitsAs_pair U (splitsAs_letters U (by decide)) hds, rfl⟩
    have hinert : ∀ c ∈ gap ++ digits, inert c = true := by
      intro c hc
      rcases List.mem_append.mp hc with hc | hc
      · exact isGap_inert hgap c hc
      · exact isTyped_inert hdt c hc
    have hnorm : normalizedSearch U (n :: o :: (gap ++ digits)) =
        normalizedSearch U ("no".toList ++ ((' ' :: gap) ++ digits)) := by
      rw [normalizedSearch_numberSign U hn ho hinert, normalizedSearch_inert U
        (typed_append_inert hno.1 (by simpa [isGap, isASCII] using hgap) (isTyped_inert hdt))]
      simp [normalRune]
    rw [text, hnorm, runs_typed_gap U hno.1 (by simpa [isGap, isASCII] using hgap) rfl
      (isTyped_inert hdt), runs_typed U hdt, hlowerno]
    rfl
  | hoboken head gap₁ roman gap₂ digits =>
    simp only [accepted, Bool.and_eq_true, Bool.not_eq_true', beq_iff_eq] at h
    obtain ⟨⟨⟨⟨⟨⟨hhead, hgap₁⟩, hne₁⟩, hroman⟩, hgap₂⟩, hne₂⟩, hdigits⟩ := h
    obtain ⟨hht, hhs⟩ := letters_piece U (t := head) (by rw [hhead]; decide)
    obtain ⟨hrt, hrs⟩ := letters_piece U (isLetters_roman hroman)
    obtain ⟨hdt, hds⟩ := number_piece U hdigits
    refine ⟨[(lower head, [lower head]), (lower roman, [lower roman]),
      (lower digits, [lower digits])], ?_, splitsAs_triple U hhs hrs hds, rfl⟩
    rw [text, runs_typed_gap U hht hgap₁ hne₁ (typed_append_inert hrt hgap₂ (isTyped_inert hdt)),
      runs_typed_gap U hrt hgap₂ hne₂ (isTyped_inert hdt), runs_typed U hdt]
    rfl
  | natural note gap mode =>
    simp only [accepted, Bool.and_eq_true, Bool.not_eq_true'] at h
    obtain ⟨⟨⟨hnote, hgap⟩, hne⟩, hmode⟩ := h
    obtain ⟨hnt, hns⟩ := letters_piece U (t := [note]) (isLetters_note hnote)
    obtain ⟨hmt, hms⟩ := letters_piece U (isLetters_mode (Or.inl hmode))
    refine ⟨[(lower [note], [lower [note]]), (lower mode, [lower mode])], ?_,
      splitsAs_pair U hns hms, rfl⟩
    rw [text, runs_typed_gap U hnt hgap hne (isTyped_inert hmt), runs_typed U hmt]
    rfl
  | sign note gap₁ accidental gap₂ mode =>
    simp only [accepted, Bool.and_eq_true, Bool.or_eq_true, beq_iff_eq, or_assoc] at h
    obtain ⟨⟨⟨⟨hnote, hgap₁⟩, hacc⟩, hgap₂⟩, hmode⟩ := h
    obtain ⟨hnt, hns⟩ := letters_piece U (t := [note]) (isLetters_note hnote)
    obtain ⟨hmt, hms⟩ := letters_piece U (isLetters_mode hmode)
    have has : SplitsAs U (accidentalWord accidental) [accidentalWord accidental] := by
      refine splitsAs_letters U ?_
      rcases hacc with rfl | rfl | rfl <;> decide
    refine ⟨[(lower [note], [lower [note]]), (accidentalWord accidental, [accidentalWord accidental]),
      (lower mode, [lower mode])], ?_, splitsAs_triple U hns has hms, rfl⟩
    rw [text, runs_sign U hnt hgap₁ hacc hgap₂ hmt]
    rfl
  | word note gap₁ accidental gap₂ mode =>
    simp only [accepted, Bool.and_eq_true, Bool.not_eq_true', Bool.or_eq_true, beq_iff_eq] at h
    obtain ⟨⟨⟨⟨⟨⟨hnote, hgap₁⟩, hne₁⟩, hacc⟩, hgap₂⟩, hne₂⟩, hmode⟩ := h
    obtain ⟨hnt, hns⟩ := letters_piece U (t := [note]) (isLetters_note hnote)
    obtain ⟨hat, has⟩ := letters_piece U (t := accidental)
      (by rcases hacc with hacc | hacc <;> rw [hacc] <;> decide)
    obtain ⟨hmt, hms⟩ := letters_piece U (isLetters_mode hmode)
    refine ⟨[(lower [note], [lower [note]]), (lower accidental, [lower accidental]),
      (lower mode, [lower mode])], ?_, splitsAs_triple U hns has hms, rfl⟩
    rw [text, runs_typed_gap U hnt hgap₁ hne₁ (typed_append_inert hat hgap₂ (isTyped_inert hmt)),
      runs_typed_gap U hat hgap₂ hne₂ (isTyped_inert hmt), runs_typed U hmt]
    rfl
  | flat note b gap mode =>
    simp only [accepted, Bool.and_eq_true, Bool.not_eq_true', beq_iff_eq] at h
    obtain ⟨⟨⟨⟨hnote, hb⟩, hgap⟩, hne⟩, hmode⟩ := h
    have hletters : isLetters (lower [note, b]) = true := by
      have hl := (isLetters_chars (isLetters_note hnote)).2 note.toLower (by simp)
      simp [lower, isLetters, hb, hl]
    obtain ⟨hnt, hns⟩ := letters_piece U hletters
    obtain ⟨hmt, hms⟩ := letters_piece U (isLetters_mode (Or.inl hmode))
    refine ⟨[(lower [note, b], [lower [note, b]]), (lower mode, [lower mode])], ?_,
      splitsAs_pair U hns hms, rfl⟩
    rw [text, runs_typed_gap U hnt hgap hne (isTyped_inert hmt), runs_typed U hmt]
    rfl
  | german name gap mode =>
    simp only [accepted, Bool.and_eq_true, Bool.not_eq_true'] at h
    obtain ⟨⟨⟨hname, hgap⟩, hne⟩, hmode⟩ := h
    obtain ⟨hnt, hns⟩ := letters_piece U
      (isLetters_key (by decide : ∀ p ∈ germanKeys, isLetters p.1 = true) hname)
    obtain ⟨hmt, hms⟩ := letters_piece U
      (isLetters_key (by decide : ∀ p ∈ germanModes, isLetters p.1 = true) hmode)
    refine ⟨[(lower name, [lower name]), (lower mode, [lower mode])], ?_,
      splitsAs_pair U hns hms, rfl⟩
    rw [text, runs_typed_gap U hnt hgap hne (isTyped_inert hmt), runs_typed U hmt]
    rfl

theorem isWord_append {v w : Text} (hv : isWord U v) (hw : isWord U w) : isWord U (v ++ w) := by
  refine ⟨by simp [hv.1], fun c hc => ?_⟩
  rcases List.mem_append.mp hc with hc | hc
  · exact hv.2 c hc
  · exact hw.2 c hc

theorem isWord_typed {t : Text} (h : isTyped t) : isWord U (lower t) :=
  ⟨(isTyped_inWord U h).1, fun c hc => ((isTyped_inWord U h).2 c hc).1⟩

theorem isWord_letters {w : Text} (h : isLetters w = true) : isWord U w := by
  obtain ⟨hne, hall⟩ := isLetters_chars h
  exact ⟨hne, fun c hc => isWordRune_lower U c (hall c hc)⟩

theorem isLetters_mapGet {m : List (Text × Text)} {f : Text → Text}
    (hm : ∀ p ∈ m, isLetters (f p.2) = true) {w : Text} (h : (m.lookup w).isSome = true) :
    isLetters (f (mapGet m w)) = true := by
  obtain ⟨v, hv⟩ := Option.isSome_iff_exists.mp h
  obtain ⟨l₁, l₂, hl, -⟩ := List.lookup_eq_some_iff.mp hv
  have hv' := hm (w, v) (by simp [hl])
  simpa [mapGet, hv] using hv'

theorem isLetters_modeWord {m : Text} (h : Spelling.isMode m = true ∨ m = "m".toList) :
    isLetters (Spelling.modeWord m) = true := by
  rcases h with h | rfl
  · rcases isMode_cases h with rfl | rfl <;> decide
  · decide

theorem Spelling.isWord_term {s : Spelling} (h : s.accepted = true) : isWord U s.term := by
  cases s with
  | number head gap digits =>
    simp only [accepted, Bool.and_eq_true] at h
    have hcat := isLetters_mapGet (f := id) (fun p hp => (catalogues_letters p hp).2) h.1.1.1
    exact isWord_append U (isWord_letters U hcat) (isWord_typed U (number_piece U h.2).1)
  | numberSign n o gap digits =>
    simp only [accepted, Bool.and_eq_true] at h
    exact isWord_append U (isWord_letters U (by decide)) (isWord_typed U (number_piece U h.2).1)
  | hoboken head gap₁ roman gap₂ digits =>
    simp only [accepted, Bool.and_eq_true] at h
    exact isWord_append U (isWord_append U (isWord_letters U (by decide))
      (isWord_letters U (isLetters_roman h.1.1.1.2))) (isWord_typed U (number_piece U h.2).1)
  | natural note gap mode =>
    simp only [accepted, Bool.and_eq_true] at h
    exact isWord_append U (isWord_letters U (isLetters_note h.1.1.1))
      (isWord_letters U (isLetters_mode (Or.inl h.2)))
  | sign note gap₁ accidental gap₂ mode =>
    simp only [accepted, Bool.and_eq_true, Bool.or_eq_true, beq_iff_eq, or_assoc] at h
    refine isWord_append U (isWord_append U (isWord_letters U (isLetters_note h.1.1.1.1))
      (isWord_letters U ?_)) (isWord_letters U (isLetters_modeWord h.2))
    rcases h.1.1.2 with rfl | rfl | rfl <;> decide
  | word note gap₁ accidental gap₂ mode =>
    simp only [accepted, Bool.and_eq_true, Bool.or_eq_true, beq_iff_eq] at h
    refine isWord_append U (isWord_append U (isWord_letters U (isLetters_note h.1.1.1.1.1.1))
      (isWord_letters U ?_)) (isWord_letters U (isLetters_modeWord h.2))
    rcases h.1.1.1.2 with hacc | hacc <;> rw [hacc] <;> decide
  | flat note b gap mode =>
    simp only [accepted, Bool.and_eq_true] at h
    exact isWord_append U (isWord_append U (isWord_letters U (isLetters_note h.1.1.1.1))
      (isWord_letters U (by decide))) (isWord_letters U (isLetters_mode (Or.inl h.2)))
  | german name gap mode =>
    simp only [accepted, Bool.and_eq_true] at h
    have hkey := isLetters_mapGet (f := List.filter (· ≠ ' '))
      (by decide : ∀ p ∈ germanKeys, isLetters (p.2.filter (· ≠ ' ')) = true) h.1.1.1
    have hmode := isLetters_mapGet (f := id)
      (by decide : ∀ p ∈ germanModes, isLetters p.2 = true) h.2
    exact isWord_append U (isWord_letters U hkey) (isWord_letters U hmode)

theorem Spelling.terms_alone (allowed : Span Char → Bool) {s : Spelling} (h : s.accepted = true) :
    scanTerms false 0 (wordsBy U allowed s.text) = [s.term] := by
  obtain ⟨pieces, hruns, hsplits, hwords⟩ := s.spelledBy U h
  exact (s.reads h).alone _ ((map_text_wordsBy U hruns hsplits allowed).trans hwords)

theorem Spelling.mem_terms (allowed : Span Char → Bool) (opusParts : Bool) (a b : Text)
    {s : Spelling} (h : s.accepted = true) :
    s.term ∈ scanTerms opusParts 0 (wordsBy U allowed (a ++ ' ' :: s.text ++ ' ' :: b)) := by
  obtain ⟨pieces, hruns, hsplits, hwords⟩ := s.spelledBy U h
  obtain ⟨before, words, after, htext, hmap⟩ := wordsBy_context U allowed a b hruns hsplits
  have hreads := s.reads h
  rw [hwords] at hmap
  have hfirst : absorbable (wordAt (words ++ after) 0) = false := by
    rw [← hreads.first, ← hmap]
    cases words with
    | nil =>
      have hnil : s.words = [] := by simpa using hmap.symm
      cases s <;> simp [Spelling.words] at hnil
    | cons w ws => rfl
  obtain ⟨_, hscan⟩ := scanTerms_append opusParts before hfirst
  obtain ⟨_, hterm⟩ := hreads.inContext opusParts words after hmap
  rw [htext, hscan, hterm]
  simp

theorem mem_fields_browser_searchIndex {texts : List Text} {text : Text} (htext : text ∈ texts) :
    ∀ t ∈ Browser.catalogueTerms U text true, isWord U t →
      t ∈ fields (Browser.searchIndex U texts) := by
  have hseen : SeenAreWords U (baseIndex U texts, (baseIndex U texts).splitOn ' ') := by
    intro t ht hword
    rw [fields_eq_splitOn U (baseIndex_runes U texts), List.mem_filter]
    exact ⟨ht, by simpa using hword.1⟩
  intro t ht hword
  rw [browser_searchIndex_eq_foldl]
  exact (foldl_addTerm_seen U hseen _).2 t (List.mem_flatMap.mpr ⟨text, htext, ht⟩) hword

theorem matchesSearchTerm_of_mem {index term : Text} (h : term ∈ fields index) :
    matchesSearchTerm index term = true := by
  unfold matchesSearchTerm
  split
  · rw [contains_iff]
    obtain ⟨hmem, -⟩ := mem_tokens.mp h
    exact infix_of_mem_splitOnP hmem
  · exact List.any_eq_true.mpr ⟨term, h, by simp⟩

/-- A piece is found whichever spelling was stored and whichever was typed: the
index has the term as a whole word, and every spelling of the same number or key
is exactly that term as a query. -/
theorem spelling_found {stored typed : Spelling} (hstored : stored.accepted = true)
    (htyped : typed.accepted = true) (hsame : typed.term = stored.term) (a b : Text)
    {texts : List Text} (htexts : a ++ ' ' :: stored.text ++ ' ' :: b ∈ texts) :
    stored.term ∈ fields (searchIndex U texts) ∧
      stored.term ∈ (Browser.searchIndex U texts).splitOn ' ' ∧
      searchTerms U typed.text = [stored.term] ∧ Browser.searchTerms U typed.text = [stored.term] ∧
      matchesSearchTerm (searchIndex U texts) stored.term = true := by
  have hword := stored.isWord_term U hstored
  have hserver : stored.term ∈ fields (searchIndex U texts) :=
    (mem_fields_searchIndex U htexts).2 _ (stored.mem_terms U spanAllowed true a b hstored) hword
  have hbrowser : stored.term ∈ fields (Browser.searchIndex U texts) := by
    refine mem_fields_browser_searchIndex U htexts _ ?_ hword
    rw [Browser.catalogueTerms, scanTerms_eq, browser_catalogueWords_eq]
    exact stored.mem_terms U Browser.spanAllowed true a b hstored
  refine ⟨hserver, ?_, ?_, ?_, matchesSearchTerm_of_mem hserver⟩
  · rw [fields_eq_splitOn U (browser_searchIndex_runes U texts)] at hbrowser
    exact List.mem_of_mem_filter hbrowser
  · rw [← hsame]
    exact typed.terms_alone U spanAllowed htyped
  · rw [Browser.searchTerms, Browser.catalogueTerms, scanTerms_eq, browser_catalogueWords_eq,
      ← hsame]
    exact typed.terms_alone U Browser.spanAllowed htyped

theorem spelling_found_k331 :
    let stored : Spelling := .number "KV".toList " ".toList "331".toList
    let typed : Spelling := .number "K".toList ".".toList "331".toList
    let texts := ["Sonata op".toList ++ ' ' :: stored.text ++ ' ' :: "minor".toList]
    stored.term ∈ fields (searchIndex basicTables texts) ∧
      stored.term ∈ (Browser.searchIndex basicTables texts).splitOn ' ' ∧
      searchTerms basicTables typed.text = [stored.term] ∧
      Browser.searchTerms basicTables typed.text = [stored.term] ∧
      matchesSearchTerm (searchIndex basicTables texts) stored.term = true :=
  spelling_found basicTables (by decide) (by decide) (by decide) "Sonata op".toList "minor".toList
    (List.mem_singleton.mpr rfl)

end Found

end Noted.Search
