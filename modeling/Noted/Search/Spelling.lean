import Noted.Search.Match

/-!
# Spellings of catalogue numbers and keys

`Spelling` lists the ways to write a catalogue number or a key that the parser
reads, and `Spelling.term` the one term each of them stands for. The scan of the
words never uses up the first word of a spelling for the text before it, and
reads the words of a spelling as its term whatever follows.
-/

namespace Noted.Search

open Library.Words

section Scan

def absorbable (w : Text) : Bool :=
  romanNumeral w || catalogueNumber w || !(mapGet germanModes w).isEmpty ||
    ["major".toList, "minor".toList, "sharp".toList, "flat".toList, "m".toList].contains w

theorem opusPart_catalogueNumber {w : Text} (h : opusPart w = true) : catalogueNumber w = true := by
  simp only [opusPart, Bool.and_eq_true, decide_eq_true_iff] at h
  have htake : w.takeWhile Char.isDigit = w := List.takeWhile_eq_self_iff.mpr
    (List.all_eq_true.mp h.2)
  have hdrop : w.dropWhile Char.isDigit = [] := List.dropWhile_eq_nil_iff.mpr
    (List.all_eq_true.mp h.2)
  have hne : w ≠ [] := by
    rintro rfl
    simp at h
  simp [catalogueNumber, htake, hdrop, hne]

theorem absorbable_number {w : Text} (h : catalogueNumber w = true) : absorbable w = true := by
  simp [absorbable, h]

theorem absorbable_roman {w : Text} (h : romanNumeral w = true) : absorbable w = true := by
  simp [absorbable, h]

theorem absorbable_german {w : Text} (h : mapGet germanModes w ≠ []) : absorbable w = true := by
  simp [absorbable, h]

theorem readTerm_absorbs (opusParts : Bool) (w : Word) (rest : List Word) :
    ∀ k < (readTerm opusParts w rest).2, absorbable (wordAt rest k) = true := by
  have hone : absorbable (wordAt rest 0) = true → ∀ k < 1, absorbable (wordAt rest k) = true := by
    intro h k hk
    obtain rfl : k = 0 := by omega
    exact h
  have htwo : absorbable (wordAt rest 0) = true → absorbable (wordAt rest 1) = true →
      ∀ k < 2, absorbable (wordAt rest k) = true := by
    intro h0 h1 k hk
    obtain rfl | rfl : k = 0 ∨ k = 1 := by omega
    · exact h0
    · exact h1
  have hmode : ∀ v : Text, v = "major".toList ∨ v = "minor".toList → absorbable v = true := by
    rintro v (rfl | rfl) <;> decide
  have haccidental : ∀ v : Text, v = "sharp".toList ∨ v = "flat".toList → absorbable v = true := by
    rintro v (rfl | rfl) <;> decide
  unfold readTerm
  dsimp only
  generalize (if shortCatalogue w.text && !w.shortAllowed then []
      else mapGet catalogues w.text) = catalogue
  split_ifs with hhob hnumber hpart hgerman hflat hflatmode hsharp hsharpmode hm hnatural
  · exact htwo (absorbable_roman hhob.2.1) (absorbable_number hhob.2.2)
  · exact htwo (absorbable_number hnumber.2)
      (absorbable_number (opusPart_catalogueNumber hpart.2.2))
  · exact hone (absorbable_number hnumber.2)
  · exact hone (absorbable_german hgerman.2)
  · exact hone (hmode _ hflatmode)
  · intro k hk
    omega
  · exact htwo (haccidental _ hsharp.2.2) (hmode _ hsharpmode)
  · exact htwo (haccidental _ hsharp.2.2) (by rw [hm]; decide)
  · exact hone (haccidental _ hsharp.2.2)
  · exact hone (hmode _ hnatural.2.2)
  · intro k hk
    omega

theorem scanTerms_drop (opusParts : Bool) {skip : Nat} {ws : List Word} (h : skip ≤ ws.length)
    (rest : List Word) :
    scanTerms opusParts skip (ws ++ rest) = scanTerms opusParts 0 (ws.drop skip ++ rest) := by
  induction skip generalizing ws with
  | zero => rfl
  | succ skip ih =>
    cases ws with
    | nil => simp at h
    | cons w ws => simpa [scanTerms] using ih (by simpa using h)

theorem wordAt_append (ws rest : List Word) : wordAt (ws ++ rest) ws.length = wordAt rest 0 := by
  simp [wordAt, List.getElem?_append_right]

/-- The scan of the words before a word that no term uses up ends at that word. -/
theorem scanTerms_append (opusParts : Bool) (ws : List Word) {rest : List Word}
    (h : absorbable (wordAt rest 0) = false) :
    ∃ terms, scanTerms opusParts 0 (ws ++ rest) = terms ++ scanTerms opusParts 0 rest := by
  induction hlen : ws.length using Nat.strong_induction_on generalizing ws with
  | _ n ih =>
  cases ws with
  | nil => exact ⟨[], rfl⟩
  | cons w ws =>
    have hskip : (readTerm opusParts w (ws ++ rest)).2 ≤ ws.length := by
      by_contra hlt
      have hab := readTerm_absorbs opusParts w (ws ++ rest) ws.length (by omega)
      rw [wordAt_append, h] at hab
      exact absurd hab (by simp)
    obtain ⟨terms, hterms⟩ := ih (ws.drop (readTerm opusParts w (ws ++ rest)).2).length
      (by simp at hlen ⊢; omega) _ rfl
    refine ⟨(readTerm opusParts w (ws ++ rest)).1 ++ terms, ?_⟩
    rw [List.cons_append, scanTerms, scanTerms_drop opusParts hskip, hterms, List.append_assoc]

end Scan

section Spellings

def lower (t : Text) : Text := t.map Char.toLower

/-- What may stand between the parts of a spelling: ASCII, and neither a letter,
a digit nor the sharp sign. -/
def isGap (g : Text) : Bool := g.all fun c => isASCII c && !c.isAlphanum && c != '#'

inductive Spelling
  | number (head gap digits : Text)
  | numberSign (n o : Char) (gap digits : Text)
  | hoboken (head gap₁ roman gap₂ digits : Text)
  | natural (note : Char) (gap mode : Text)
  | sign (note : Char) (gap₁ : Text) (accidental : Char) (gap₂ mode : Text)
  | word (note : Char) (gap₁ accidental gap₂ mode : Text)
  | flat (note b : Char) (gap mode : Text)
  | german (name gap mode : Text)
  deriving DecidableEq

namespace Spelling

def text : Spelling → Text
  | number head gap digits => head ++ (gap ++ digits)
  | numberSign n o gap digits => n :: o :: (gap ++ digits)
  | hoboken head gap₁ roman gap₂ digits => head ++ (gap₁ ++ (roman ++ (gap₂ ++ digits)))
  | natural note gap mode => [note] ++ (gap ++ mode)
  | sign note gap₁ accidental gap₂ mode => [note] ++ (gap₁ ++ ([accidental] ++ (gap₂ ++ mode)))
  | word note gap₁ accidental gap₂ mode => [note] ++ (gap₁ ++ (accidental ++ (gap₂ ++ mode)))
  | flat note b gap mode => [note, b] ++ (gap ++ mode)
  | german name gap mode => name ++ (gap ++ mode)

def accidentalWord (c : Char) : Text := if c = '♭' then "flat".toList else "sharp".toList

def modeWord (m : Text) : Text := if m = "m".toList then "minor".toList else m

def words : Spelling → List Text
  | number head _ digits => [lower head, lower digits]
  | numberSign _ _ _ digits => ["no".toList, lower digits]
  | hoboken head _ roman _ digits => [lower head, lower roman, lower digits]
  | natural note _ mode => [[note.toLower], lower mode]
  | sign note _ accidental _ mode => [[note.toLower], accidentalWord accidental, lower mode]
  | word note _ accidental _ mode => [[note.toLower], lower accidental, lower mode]
  | flat note b _ mode => [[note.toLower, b.toLower], lower mode]
  | german name _ mode => [lower name, lower mode]

def term : Spelling → Text
  | number head _ digits => mapGet catalogues (lower head) ++ lower digits
  | numberSign _ _ _ digits => "no".toList ++ lower digits
  | hoboken _ _ roman _ digits => "hob".toList ++ lower roman ++ lower digits
  | natural note _ mode => [note.toLower] ++ lower mode
  | sign note _ accidental _ mode =>
    [note.toLower] ++ accidentalWord accidental ++ modeWord (lower mode)
  | word note _ accidental _ mode => [note.toLower] ++ lower accidental ++ modeWord (lower mode)
  | flat note _ _ mode => [note.toLower] ++ "flat".toList ++ lower mode
  | german name _ mode =>
    (mapGet germanKeys (lower name)).filter (· ≠ ' ') ++ mapGet germanModes (lower mode)

def isMode (m : Text) : Bool := m == "major".toList || m == "minor".toList

/-- The spellings in use: the catalogues but S, D and L with a number, Hoboken's
with a roman group too, and the keys, in any letter case. -/
def accepted : Spelling → Bool
  | number head gap digits =>
    (catalogues.lookup (lower head)).isSome && !shortCatalogue (lower head) && isGap gap &&
      catalogueNumber (lower digits)
  | numberSign n o gap digits =>
    (n == 'n' || n == 'N') && (o == '°' || o == 'º') && isGap gap &&
      catalogueNumber (lower digits)
  | hoboken head gap₁ roman gap₂ digits =>
    lower head == "hob".toList && isGap gap₁ && !gap₁.isEmpty && romanNumeral (lower roman) &&
      isGap gap₂ && !gap₂.isEmpty && catalogueNumber (lower digits)
  | natural note gap mode => isNote note.toLower && isGap gap && !gap.isEmpty && isMode (lower mode)
  | sign note gap₁ accidental gap₂ mode =>
    isNote note.toLower && isGap gap₁ &&
      (accidental == '#' || accidental == '♯' || accidental == '♭') && isGap gap₂ &&
      (isMode (lower mode) || lower mode == "m".toList)
  | word note gap₁ accidental gap₂ mode =>
    isNote note.toLower && isGap gap₁ && !gap₁.isEmpty &&
      (lower accidental == "sharp".toList || lower accidental == "flat".toList) && isGap gap₂ &&
      !gap₂.isEmpty && (isMode (lower mode) || lower mode == "m".toList)
  | flat note b gap mode =>
    isNote note.toLower && b.toLower == 'b' && isGap gap && !gap.isEmpty && isMode (lower mode)
  | german name gap mode =>
    (germanKeys.lookup (lower name)).isSome && isGap gap && !gap.isEmpty &&
      (germanModes.lookup (lower mode)).isSome

end Spelling

end Spellings

section Reading

/-- A spelling's words are read as its term wherever they stand, and alone they
are nothing else. -/
structure Reads (ws : List Text) (term : Text) : Prop where
  first : absorbable (ws.headD []) = false
  inContext : ∀ (opusParts : Bool) (words rest : List Word), words.map Word.text = ws →
    ∃ terms, scanTerms opusParts 0 (words ++ rest) = term :: terms
  alone : ∀ words : List Word, words.map Word.text = ws → scanTerms false 0 words = [term]

theorem map_text_two {words : List Word} {v w : Text} (h : words.map Word.text = [v, w]) :
    ∃ a b, words = [⟨v, a⟩, ⟨w, b⟩] := by
  match words with
  | [⟨_, a⟩, ⟨_, b⟩] =>
    obtain ⟨rfl, rfl⟩ := by simpa using h
    exact ⟨a, b, rfl⟩

theorem map_text_three {words : List Word} {u v w : Text}
    (h : words.map Word.text = [u, v, w]) : ∃ a b c, words = [⟨u, a⟩, ⟨v, b⟩, ⟨w, c⟩] := by
  match words with
  | [⟨_, a⟩, ⟨_, b⟩, ⟨_, c⟩] =>
    obtain ⟨rfl, rfl, rfl⟩ := by simpa using h
    exact ⟨a, b, c, rfl⟩

theorem Reads.of_two {v w term : Text} (hfirst : absorbable v = false)
    (h : ∀ opusParts a b rest, ∃ more k,
      readTerm opusParts ⟨v, a⟩ (⟨w, b⟩ :: rest) = (term :: more, k))
    (halone : ∀ a b, readTerm false ⟨v, a⟩ [⟨w, b⟩] = ([term], 1)) : Reads [v, w] term where
  first := hfirst
  inContext opusParts words rest hwords := by
    obtain ⟨a, b, rfl⟩ := map_text_two hwords
    obtain ⟨more, k, hread⟩ := h opusParts a b rest
    exact ⟨more ++ scanTerms opusParts k (⟨w, b⟩ :: rest), by simp [scanTerms, hread]⟩
  alone words hwords := by
    obtain ⟨a, b, rfl⟩ := map_text_two hwords
    simp [scanTerms, halone]

theorem Reads.of_three {u v w term : Text} (hfirst : absorbable u = false)
    (h : ∀ opusParts a b c rest,
      readTerm opusParts ⟨u, a⟩ (⟨v, b⟩ :: ⟨w, c⟩ :: rest) = ([term], 2)) : Reads [u, v, w] term where
  first := hfirst
  inContext opusParts words rest hwords := by
    obtain ⟨a, b, c, rfl⟩ := map_text_three hwords
    exact ⟨scanTerms opusParts 0 rest, by simp [scanTerms, h]⟩
  alone words hwords := by
    obtain ⟨a, b, c, rfl⟩ := map_text_three hwords
    simp [scanTerms, h]

theorem digit_not_roman {n : Text} (h : catalogueNumber n = true) : romanNumeral n = false := by
  obtain ⟨d, ds, rfl, hd⟩ := catalogueNumber_head h
  rw [Bool.eq_false_iff]
  intro hr
  simp only [romanNumeral, List.isEmpty_cons, Bool.not_false, Bool.true_and, List.all_cons,
    Bool.and_eq_true, Bool.or_eq_true, beq_iff_eq] at hr
  rcases hr.1 with ((rfl | rfl) | rfl) | rfl <;> simp at hd

theorem reads_number {head n : Text} (hhead : (catalogues.lookup head).isSome = true)
    (hshort : shortCatalogue head = false) (hn : catalogueNumber n = true) :
    Reads [head, n] (mapGet catalogues head ++ n) := by
  have hcat : mapGet catalogues head ≠ [] := (mapGet_ne_nil catalogues_ne_nil head).mpr hhead
  have hroman := digit_not_roman hn
  refine .of_two ?_ (fun opusParts a b rest => ?_) fun a b => ?_
  · have hall : ∀ p ∈ catalogues, shortCatalogue p.1 = false → absorbable p.1 = false := by decide
    obtain ⟨v, hv⟩ := Option.isSome_iff_exists.mp hhead
    obtain ⟨l₁, l₂, hl, -⟩ := List.lookup_eq_some_iff.mp hv
    exact hall (head, v) (by simp [hl]) hshort
  · have hnext : wordAt (⟨n, b⟩ :: rest) 0 = n := rfl
    simp only [readTerm, hnext, hshort, hroman, hn, hcat, Bool.false_and, Bool.false_eq_true,
      ↓reduceIte, false_and, and_false, ne_eq, not_false_eq_true, and_self]
    split
    · exact ⟨_, _, rfl⟩
    · exact ⟨_, _, rfl⟩
  · have hnext : wordAt [⟨n, b⟩] 0 = n := rfl
    simp only [readTerm, hnext, hshort, hroman, hn, hcat, Bool.false_and, Bool.false_eq_true,
      ↓reduceIte, false_and, and_false, ne_eq, not_false_eq_true, and_self]

theorem reads_hoboken {roman n : Text} (hroman : romanNumeral roman = true)
    (hn : catalogueNumber n = true) :
    Reads ["hob".toList, roman, n] ("hob".toList ++ roman ++ n) := by
  refine .of_three (by decide) fun opusParts a b c rest => ?_
  have hnext : wordAt (⟨roman, b⟩ :: ⟨n, c⟩ :: rest) 0 = roman := rfl
  have hthird : wordAt (⟨roman, b⟩ :: ⟨n, c⟩ :: rest) 1 = n := rfl
  have hshort : shortCatalogue "hob".toList = false := by decide
  have hcat : mapGet catalogues "hob".toList = "hob".toList := by decide
  simp only [readTerm, hnext, hthird, hshort, hcat, hroman, hn, Bool.false_and,
    Bool.false_eq_true, ↓reduceIte, and_self]

theorem isNote_cases {c : Char} (h : isNote c = true) :
    c = 'a' ∨ c = 'b' ∨ c = 'c' ∨ c = 'd' ∨ c = 'e' ∨ c = 'f' ∨ c = 'g' := by
  simpa [isNote, contains_iff, List.singleton_infix_iff] using h

theorem isMode_cases {m : Text} (h : Spelling.isMode m = true) :
    m = "major".toList ∨ m = "minor".toList := by
  simpa [Spelling.isMode] using h

theorem isMode_skips {m : Text} (h : Spelling.isMode m = true) :
    romanNumeral m = false ∧ catalogueNumber m = false ∧ mapGet germanModes m = [] ∧
      m ≠ "sharp".toList ∧ m ≠ "flat".toList := by
  rcases isMode_cases h with rfl | rfl <;> decide

theorem absorbable_note {c : Char} (h : isNote c = true) : absorbable [c] = false := by
  rcases isNote_cases h with rfl | rfl | rfl | rfl | rfl | rfl | rfl <;> decide

theorem byteLen_note {c : Char} (h : isNote c = true) : byteLen [c] = 1 := by
  rcases isNote_cases h with rfl | rfl | rfl | rfl | rfl | rfl | rfl <;> decide

theorem reads_natural {c : Char} {m : Text} (hc : isNote c = true)
    (hm : Spelling.isMode m = true) : Reads [[c], m] ([c] ++ m) := by
  obtain ⟨hroman, hnumber, hgerman, hsharp, hflat⟩ := isMode_skips hm
  have hread : ∀ opusParts a b rest,
      readTerm opusParts ⟨[c], a⟩ (⟨m, b⟩ :: rest) = ([[c] ++ m], 1) := by
    intro opusParts a b rest
    have hnext : wordAt (⟨m, b⟩ :: rest) 0 = m := rfl
    have hnote : contains "abcdefg".toList [c] = true := hc
    have hb : englishFlat [c] = false := rfl
    simp only [readTerm, hnext, hroman, hnumber, hgerman, hb, hsharp, hflat, byteLen_note hc, hnote,
      Bool.false_eq_true, false_and, and_false, ↓reduceIte, ne_eq, not_true_eq_false, or_self,
      isMode_cases hm, and_self]
  exact .of_two (absorbable_note hc) (fun opusParts a b rest => ⟨[], 1, hread opusParts a b rest⟩)
    fun a b => hread false a b []

theorem reads_accidental {c : Char} {x m : Text} (hc : isNote c = true)
    (hx : x = "sharp".toList ∨ x = "flat".toList)
    (hm : Spelling.isMode m = true ∨ m = "m".toList) :
    Reads [[c], x, m] ([c] ++ x ++ Spelling.modeWord m) := by
  refine .of_three (absorbable_note hc) fun opusParts a b d rest => ?_
  have hnext : wordAt (⟨x, b⟩ :: ⟨m, d⟩ :: rest) 0 = x := rfl
  have hthird : wordAt (⟨x, b⟩ :: ⟨m, d⟩ :: rest) 1 = m := rfl
  have hnote : contains "abcdefg".toList [c] = true := hc
  have hb : englishFlat [c] = false := rfl
  have hskip : romanNumeral x = false ∧ catalogueNumber x = false ∧ mapGet germanModes x = [] := by
    rcases hx with rfl | rfl <;> decide
  simp only [readTerm, hnext, hthird, hskip, hb, byteLen_note hc, hnote, hx, Bool.false_eq_true,
    false_and, and_false, ↓reduceIte, ne_eq, not_true_eq_false, and_self]
  rcases hm with hm | rfl
  · have hne : m ≠ "m".toList := by
      rcases isMode_cases hm with rfl | rfl <;> decide
    simp only [isMode_cases hm, ↓reduceIte, Spelling.modeWord, hne]
  · rfl

theorem reads_flat {c : Char} {m : Text} (hc : isNote c = true) (hm : Spelling.isMode m = true) :
    Reads [[c, 'b'], m] ([c] ++ "flat".toList ++ m) := by
  obtain ⟨hroman, hnumber, hgerman, -, -⟩ := isMode_skips hm
  have hread : ∀ opusParts a b rest, readTerm opusParts ⟨[c, 'b'], a⟩ (⟨m, b⟩ :: rest) =
      ([[c] ++ "flat".toList ++ m], 1) := by
    intro opusParts a b rest
    have hnext : wordAt (⟨m, b⟩ :: rest) 0 = m := rfl
    have hb : englishFlat [c, 'b'] = true := hc
    have htake : [c, 'b'].take 1 = [c] := rfl
    simp only [readTerm, hnext, hroman, hnumber, hgerman, hb, htake, Bool.false_eq_true, false_and,
      and_false, ↓reduceIte, ne_eq, not_true_eq_false, isMode_cases hm]
  refine .of_two ?_ (fun opusParts a b rest => ⟨[], 1, hread opusParts a b rest⟩)
    fun a b => hread false a b []
  rcases isNote_cases hc with rfl | rfl | rfl | rfl | rfl | rfl | rfl <;> decide

theorem reads_german {k m : Text} (hk : (germanKeys.lookup k).isSome = true)
    (hm : (germanModes.lookup m).isSome = true) :
    Reads [k, m] ((mapGet germanKeys k).filter (· ≠ ' ') ++ mapGet germanModes m) := by
  have hkey := (mapGet_ne_nil germanKeys_ne_nil k).mpr hk
  have hmode := (mapGet_ne_nil germanModes_ne_nil m).mpr hm
  have hskip : romanNumeral m = false ∧ catalogueNumber m = false := by
    have hall : ∀ p ∈ germanModes, romanNumeral p.1 = false ∧ catalogueNumber p.1 = false := by
      decide
    obtain ⟨v, hv⟩ := Option.isSome_iff_exists.mp hm
    obtain ⟨l₁, l₂, hl, -⟩ := List.lookup_eq_some_iff.mp hv
    exact hall (m, v) (by simp [hl])
  have hread : ∀ opusParts a b rest, readTerm opusParts ⟨k, a⟩ (⟨m, b⟩ :: rest) =
      ([(mapGet germanKeys k).filter (· ≠ ' ') ++ mapGet germanModes m], 1) := by
    intro opusParts a b rest
    have hnext : wordAt (⟨m, b⟩ :: rest) 0 = m := rfl
    simp only [readTerm, hnext, hskip, hkey, hmode, Bool.false_eq_true, false_and,
      and_false, ↓reduceIte, ne_eq, not_false_eq_true, and_self]
  refine .of_two ?_ (fun opusParts a b rest => ⟨[], 1, hread opusParts a b rest⟩)
    fun a b => hread false a b []
  have hall : ∀ p ∈ germanKeys, absorbable p.1 = false := by decide
  obtain ⟨v, hv⟩ := Option.isSome_iff_exists.mp hk
  obtain ⟨l₁, l₂, hl, -⟩ := List.lookup_eq_some_iff.mp hv
  exact hall (k, v) (by simp [hl])

/-- The words of every accepted spelling are read as its term. -/
theorem Spelling.reads {s : Spelling} (h : s.accepted = true) : Reads s.words s.term := by
  cases s with
  | number head gap digits =>
    simp only [accepted, Bool.and_eq_true, Bool.not_eq_true'] at h
    exact reads_number h.1.1.1 h.1.1.2 h.2
  | numberSign n o gap digits =>
    simp only [accepted, Bool.and_eq_true] at h
    have hno : (catalogues.lookup "no".toList).isSome = true := by decide
    exact reads_number hno (by decide) h.2
  | hoboken head gap₁ roman gap₂ digits =>
    simp only [accepted, Bool.and_eq_true, beq_iff_eq] at h
    rw [words, h.1.1.1.1.1.1]
    exact reads_hoboken h.1.1.1.2 h.2
  | natural note gap mode =>
    simp only [accepted, Bool.and_eq_true] at h
    exact reads_natural h.1.1.1 h.2
  | sign note gap₁ accidental gap₂ mode =>
    simp only [accepted, Bool.and_eq_true, Bool.or_eq_true, beq_iff_eq] at h
    refine reads_accidental h.1.1.1.1 ?_ h.2
    by_cases hf : accidental = '♭' <;> simp [accidentalWord, hf]
  | word note gap₁ accidental gap₂ mode =>
    simp only [accepted, Bool.and_eq_true, Bool.or_eq_true, beq_iff_eq] at h
    exact reads_accidental h.1.1.1.1.1.1 h.1.1.1.2 h.2
  | flat note b gap mode =>
    simp only [accepted, Bool.and_eq_true, beq_iff_eq] at h
    rw [words, h.1.1.1.2]
    exact reads_flat h.1.1.1.1 h.2
  | german name gap mode =>
    simp only [accepted, Bool.and_eq_true] at h
    exact reads_german h.1.1.1 h.2

end Reading

end Noted.Search
