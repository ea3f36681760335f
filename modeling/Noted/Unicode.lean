import Noted.Text

/-!
# Unicode tables

Both languages read the Unicode tables of their runtimes: the NFKD normal form,
the lower case mapping and the general categories L, N and M. They are a
parameter here. The fields below the tables are properties of every version of
the Unicode standard: ASCII characters and the two accidentals are starters
without a decomposition, so NFKD splits at them; U+0130 has a decomposition, so
it never survives NFKD; no letter, number or mark is white space; and NFKD and
the lower case keep marks marks.
-/

namespace Noted

def dottedI : Char := Char.ofNat 0x130

def combiningDot : Char := Char.ofNat 0x307

def isASCII (c : Char) : Bool := c.toNat < 128

/-- A starter without a decomposition: NFKD keeps it and reorders nothing across it. -/
def inert (c : Char) : Bool := isASCII c || c == '♯' || c == '♭'

structure UnicodeTables where
  nfkd : Text → Text
  lower : Char → Char
  isLetter : Char → Bool
  isNumber : Char → Bool
  isMark : Char → Bool
  /-- `Cased` and `Case_Ignorable`, for JavaScript's final sigma. -/
  isCased : Char → Bool
  isCaseIgnorable : Char → Bool
  nfkd_nil : nfkd [] = []
  nfkd_inert : ∀ a c b, inert c = true → nfkd (a ++ c :: b) = nfkd a ++ c :: nfkd b
  nfkd_dottedI : ∀ t, dottedI ∉ nfkd t
  lower_ascii : ∀ c, isASCII c = true → lower c = c.toLower
  lower_sigma : lower 'Σ' = 'σ'
  lower_sharp : lower '♯' = '♯'
  lower_flat : lower '♭' = '♭'
  letter_ascii : ∀ c, isASCII c = true → isLetter c = c.isAlpha
  number_ascii : ∀ c, isASCII c = true → isNumber c = c.isDigit
  mark_ascii : ∀ c, isASCII c = true → isMark c = false
  letter_not_space : ∀ c, isLetter c = true → goSpace c = false ∧ jsSpace c = false
  number_not_space : ∀ c, isNumber c = true → goSpace c = false ∧ jsSpace c = false
  mark_not_space : ∀ c, isMark c = true → goSpace c = false ∧ jsSpace c = false
  mark_not_letter : ∀ c, isMark c = true → isLetter c = false
  mark_accidental : isMark '♯' = false ∧ isMark '♭' = false
  letter_leftover : ∀ c ∈ "øłßæœđðþıς".toList, isLetter c = true
  nfkd_marks : ∀ t, (∀ c ∈ t, isMark c = true) → ∀ c ∈ nfkd t, isMark c = true
  lower_mark : ∀ c, isMark c = true → isMark (lower c) = true

namespace UnicodeTables

variable (U : UnicodeTables)

/-- `[\p{L}\p{N}]`. -/
def isWordRune (c : Char) : Bool := U.isLetter c || U.isNumber c

/-- `[\p{L}\p{N}\p{M}]`. -/
def inWord (c : Char) : Bool := U.isLetter c || U.isNumber c || U.isMark c

theorem isWordRune_ascii {c : Char} (hc : isASCII c = true) : U.isWordRune c = c.isAlphanum := by
  simp [isWordRune, U.letter_ascii c hc, U.number_ascii c hc, Char.isAlphanum]

theorem inWord_ascii {c : Char} (hc : isASCII c = true) : U.inWord c = c.isAlphanum := by
  simp [inWord, U.letter_ascii c hc, U.number_ascii c hc, U.mark_ascii c hc, Char.isAlphanum]

@[simp] theorem isWordRune_space : U.isWordRune ' ' = false := U.isWordRune_ascii (by decide)

@[simp] theorem inWord_space : U.inWord ' ' = false := U.inWord_ascii (by decide)

theorem isWordRune_not_space {c : Char} (h : U.isWordRune c = true) :
    goSpace c = false ∧ jsSpace c = false := by
  rcases Bool.or_eq_true _ _ ▸ h with h | h
  · exact U.letter_not_space c h
  · exact U.number_not_space c h

theorem inWord_not_space {c : Char} (h : U.inWord c = true) :
    goSpace c = false ∧ jsSpace c = false := by
  rcases Bool.or_eq_true _ _ ▸ h with h | h
  · exact U.isWordRune_not_space h
  · exact U.mark_not_space c h

theorem isWordRune_inWord {c : Char} (h : U.isWordRune c = true) : U.inWord c = true := by
  simp only [inWord, Bool.or_eq_true]
  exact Or.inl (by simpa [isWordRune] using h)

theorem inWord_cases {c : Char} (h : U.inWord c = true) :
    U.isWordRune c = true ∨ U.isMark c = true := by
  simpa [inWord, isWordRune, or_assoc] using h

theorem nfkd_of_inert {t : Text} (h : ∀ c ∈ t, inert c = true) : U.nfkd t = t := by
  induction t with
  | nil => exact U.nfkd_nil
  | cons c cs ih =>
    have hc := U.nfkd_inert [] c cs (h c (by simp))
    rw [List.nil_append, U.nfkd_nil, List.nil_append] at hc
    rw [hc, ih fun d hd => h d (by simp [hd])]

end UnicodeTables

section Basic

/-- NFKD of the texts whose only decomposable character is U+0130. -/
def basicNFKD (t : Text) : Text :=
  t.flatMap fun c => if c = dottedI then ['I', combiningDot] else [c]

def basicLower (c : Char) : Char := if c = 'Σ' then 'σ' else if isASCII c then c.toLower else c

def basicMark (c : Char) : Bool := 0x300 ≤ c.toNat && c.toNat ≤ 0x36F

def basicLetters : Text := "Σσøłßæœđðþıς".toList

def basicLetter (c : Char) : Bool := c.isAlpha || basicLetters.contains c

theorem alphanum_toNat {c : Char} (h : c.isAlphanum = true) : 47 < c.toNat ∧ c.toNat < 128 := by
  have hval : c.toNat = c.val.toNat := rfl
  simp only [Char.isAlphanum, Char.isAlpha, Char.isUpper, Char.isLower, Char.isDigit,
    Bool.or_eq_true, Bool.and_eq_true, decide_eq_true_iff, UInt32.le_iff_toNat_le] at h
  simp at h
  omega

theorem not_space_of_alphanum {c : Char} (h : c.isAlphanum = true) :
    goSpace c = false ∧ jsSpace c = false := by
  obtain ⟨hlow, hhigh⟩ := alphanum_toNat h
  have hnl : c ≠ nextLine := by rintro rfl; simp [nextLine] at hhigh
  have hbom : c ≠ byteOrderMark := by rintro rfl; simp [byteOrderMark] at hhigh
  have hshared : sharedSpace c = false := by
    simp [sharedSpace]
    omega
  simp [goSpace, jsSpace, hshared, hnl, hbom]

theorem not_space_of_mark {c : Char} (h : basicMark c = true) :
    goSpace c = false ∧ jsSpace c = false := by
  simp only [basicMark, Bool.and_eq_true, decide_eq_true_iff] at h
  have hnl : c ≠ nextLine := by rintro rfl; simp [nextLine] at h
  have hbom : c ≠ byteOrderMark := by rintro rfl; simp [byteOrderMark] at h
  have hshared : sharedSpace c = false := by
    simp [sharedSpace]
    omega
  simp [goSpace, jsSpace, hshared, hnl, hbom]

theorem basicLower_mark {c : Char} (h : basicMark c = true) : basicLower c = c := by
  simp only [basicMark, Bool.and_eq_true, decide_eq_true_iff] at h
  have hs : c ≠ 'Σ' := by rintro rfl; simp at h
  have ha : isASCII c = false := by
    simp [isASCII]
    omega
  simp [basicLower, hs, ha]

/-- Tables that agree with the standard on ASCII, U+0130, the Greek sigmas, the
letters the search folds itself and the marks U+0300 to U+036F, and know no
other letters. -/
def basicTables : UnicodeTables where
  nfkd := basicNFKD
  lower := basicLower
  isLetter := basicLetter
  isNumber := Char.isDigit
  isMark := basicMark
  isCased := basicLetter
  isCaseIgnorable := basicMark
  nfkd_nil := rfl
  nfkd_inert a c b hc := by
    have hd : c ≠ dottedI := by rintro rfl; simp [dottedI, inert, isASCII] at hc
    simp [basicNFKD, hd]
  nfkd_dottedI t := by
    intro h
    simp only [basicNFKD, List.mem_flatMap] at h
    obtain ⟨c, -, hc⟩ := h
    by_cases hd : c = dottedI
    · simp [hd, dottedI, combiningDot] at hc
    · simp [hd, Ne.symm hd] at hc
  lower_ascii c hc := by
    have hs : c ≠ 'Σ' := by rintro rfl; simp [isASCII] at hc
    simp [basicLower, hs, hc]
  lower_sigma := rfl
  lower_sharp := rfl
  lower_flat := rfl
  letter_ascii c hc := by
    have hall : basicLetters.all (fun d => !isASCII d) = true := by decide
    have hnot : basicLetters.contains c = false := by
      rw [Bool.eq_false_iff, ne_eq, List.contains_iff_mem]
      intro hmem
      have := List.all_eq_true.mp hall c hmem
      simp [hc] at this
    rw [basicLetter, hnot, Bool.or_false]
  number_ascii _ _ := rfl
  mark_ascii c hc := by
    simp only [isASCII, decide_eq_true_iff] at hc
    simp [basicMark]
    omega
  letter_not_space c h := by
    rw [basicLetter, Bool.or_eq_true, List.contains_iff_mem] at h
    rcases h with h | h
    · exact not_space_of_alphanum (by simp [Char.isAlphanum, h])
    · have hall : basicLetters.all (fun d => !goSpace d && !jsSpace d) = true := by decide
      simpa using List.all_eq_true.mp hall c h
  number_not_space c h := not_space_of_alphanum (by simp [Char.isAlphanum, h])
  mark_not_space _ h := not_space_of_mark h
  mark_not_letter c h := by
    rw [Bool.eq_false_iff, ne_eq, basicLetter, Bool.or_eq_true, List.contains_iff_mem]
    rintro (hl | hl)
    · have hlow := (alphanum_toNat (by simp [Char.isAlphanum, hl] : c.isAlphanum = true)).2
      simp only [basicMark, Bool.and_eq_true, decide_eq_true_iff] at h
      omega
    · have hall : basicLetters.all (fun d => !basicMark d) = true := by decide
      have := List.all_eq_true.mp hall c hl
      simp [h] at this
  mark_accidental := ⟨rfl, rfl⟩
  letter_leftover := List.all_eq_true.mp (by decide)
  nfkd_marks t h := by
    intro c hc
    simp only [basicNFKD, List.mem_flatMap] at hc
    obtain ⟨d, hd, hc⟩ := hc
    have hmark := h d hd
    have hne : d ≠ dottedI := by rintro rfl; simp [basicMark, dottedI] at hmark
    simpa [hne] using (by simpa [hne] using hc : c = d) ▸ hmark
  lower_mark c h := by rw [basicLower_mark h]; exact h

end Basic

end Noted
