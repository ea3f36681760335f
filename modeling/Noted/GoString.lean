import Noted.Text

/-!
# Strings that need not be text

A Go string is bytes. A loop over its runes, a regular expression and the white space
of `strings.TrimSpace` read U+FFFD for each byte that is no part of a character, and
JSON has U+FFFD in its place; `len` counts the byte, and PostgreSQL refuses it. The
functions of the source that take such strings are over `Letter`s here, of which the
characters of a `Text` are the others.
-/

namespace Noted

abbrev Bytes := List UInt8

def utf8 (t : Text) : Bytes := t.flatMap String.utf8EncodeChar

class Letter (α : Type) where
  /-- The character that is read. -/
  char : α → Char
  ofChar : Char → α
  bytes : α → Bytes

instance : Letter Char := ⟨id, id, String.utf8EncodeChar⟩

/-- A character, or a byte that is no part of one. -/
inductive Rune
  | char (c : Char)
  | byte (b : { b : UInt8 // 0x80 ≤ b })
  deriving DecidableEq

def Rune.bytes : Rune → Bytes
  | .char c => String.utf8EncodeChar c
  | .byte b => [b.1]

def runeError : Char := Char.ofNat 0xFFFD

def Rune.read : Rune → Char
  | .char c => c
  | .byte _ => runeError

instance : Letter Rune := ⟨Rune.read, .char, Rune.bytes⟩

abbrev GoString := List Rune

def goString (t : Text) : GoString := t.map .char

def GoString.len (s : GoString) : Nat := (s.map fun r => r.bytes.length).sum

section Letters

variable {α : Type} [Letter α]

def asText (t : List α) : Text := t.map Letter.char

def trimRunes (t : List α) : List α := trimBy (fun c => goSpace (Letter.char c)) t

@[simp] theorem char_char (c : Char) : Letter.char c = c := rfl

@[simp] theorem bytes_char (c : Char) : Letter.bytes c = String.utf8EncodeChar c := rfl

@[simp] theorem asText_text (t : Text) : asText t = t := List.map_id t

@[simp] theorem trimRunes_text (t : Text) : trimRunes t = trimSpace t := rfl

@[simp] theorem asText_goString (t : Text) : asText (goString t) = t := by
  simp [asText, goString, Function.comp_def, Letter.char, Rune.read]

@[simp] theorem asText_cons (c : α) (cs : List α) : asText (c :: cs) = Letter.char c :: asText cs :=
  rfl

theorem asText_takeWhile (p : Char → Bool) (t : List α) :
    asText (t.takeWhile fun c => p (Letter.char c)) = (asText t).takeWhile p :=
  List.takeWhile_map.symm

theorem asText_dropWhile (p : Char → Bool) (t : List α) :
    asText (t.dropWhile fun c => p (Letter.char c)) = (asText t).dropWhile p :=
  List.dropWhile_map.symm

theorem asText_drop (n : Nat) (t : List α) : asText (t.drop n) = (asText t).drop n := List.map_drop

theorem asText_reverse (t : List α) : asText t.reverse = (asText t).reverse := List.map_reverse

theorem asText_tail (t : List α) : asText t.tail = (asText t).tail := List.map_tail

theorem asText_length (t : List α) : (asText t).length = t.length := List.length_map _

end Letters

section Decoding

/-- The code point of a form as long as its first byte says. -/
def runeCode (bytes : Bytes) : Nat :=
  let first := (bytes.getD 0 0).toNat
  let low := fun n => (bytes.getD n 0).toNat % 64
  if first < 0x80 then first
  else if first < 0xE0 then first % 32 * 64 + low 1
  else if first < 0xF0 then (first % 16 * 64 + low 1) * 64 + low 2
  else ((first % 8 * 64 + low 1) * 64 + low 2) * 64 + low 3

/-- The character whose UTF-8 form the bytes start with. -/
def decodeRune (bytes : Bytes) : Option Char :=
  let code := runeCode bytes
  let c := Char.ofNat code
  if c.toNat = code ∧ (String.utf8EncodeChar c).isPrefixOf bytes then some c else none

/-- The counter skips the rest of a character. -/
def runesFrom : Nat → Bytes → GoString
  | _, [] => []
  | skip + 1, _ :: bytes => runesFrom skip bytes
  | 0, b :: bytes =>
    if h : b < 0x80 then .char (Char.ofNat b.toNat) :: runesFrom 0 bytes
    else
      match decodeRune (b :: bytes) with
      | some c => .char c :: runesFrom (c.utf8Size - 1) bytes
      | none => .byte ⟨b, UInt8.not_lt.mp h⟩ :: runesFrom 0 bytes

def runes (bytes : Bytes) : GoString := runesFrom 0 bytes

def validUTF8 (s : GoString) : Bool := s.all fun r => r matches .char _

section Forms

theorem runeCode_utf8 (c : Char) (rest : Bytes) :
    runeCode (String.utf8EncodeChar c ++ rest) = c.toNat := by
  have hval : c.val.toNat = c.toNat := rfl
  have hmax : c.toNat ≤ 0x10FFFF := by
    have hvalid := c.valid
    simp only [UInt32.isValidChar, Nat.isValidChar] at hvalid
    omega
  unfold String.utf8EncodeChar runeCode
  simp only [hval]
  generalize c.toNat = n at hmax ⊢
  by_cases h1 : n ≤ 0x7f
  · simp only [if_pos h1, List.singleton_append, List.getD_cons_zero, UInt8.toNat_ofNat']
    split_ifs <;> omega
  by_cases h2 : n ≤ 0x7ff
  · simp only [if_neg h1, if_pos h2, List.cons_append, List.getD_cons_zero, List.getD_cons_succ,
      UInt8.toNat_ofNat']
    split_ifs <;> omega
  by_cases h3 : n ≤ 0xffff
  · simp only [if_neg h1, if_neg h2, if_pos h3, List.cons_append, List.getD_cons_zero,
      List.getD_cons_succ, UInt8.toNat_ofNat']
    split_ifs <;> omega
  · simp only [if_neg h1, if_neg h2, if_neg h3, List.cons_append, List.getD_cons_zero,
      List.getD_cons_succ, UInt8.toNat_ofNat']
    split_ifs <;> omega

theorem decodeRune_utf8 (c : Char) (rest : Bytes) :
    decodeRune (String.utf8EncodeChar c ++ rest) = some c := by
  simp [decodeRune, runeCode_utf8, Char.ofNat_toNat]

theorem decodeRune_eq_some {bytes : Bytes} {c : Char} (h : decodeRune bytes = some c) :
    String.utf8EncodeChar c <+: bytes := by
  simp only [decodeRune, Option.ite_none_right_eq_some, Option.some.injEq] at h
  obtain ⟨⟨-, hprefix⟩, rfl⟩ := h
  exact List.isPrefixOf_iff_prefix.mp hprefix

theorem runesFrom_append (skipped rest : Bytes) :
    runesFrom skipped.length (skipped ++ rest) = runesFrom 0 rest := by
  induction skipped with
  | nil => rfl
  | cons b bytes ih => exact ih

theorem runes_ascii {b : UInt8} (h : b < 0x80) (bytes : Bytes) :
    runes (b :: bytes) = .char (Char.ofNat b.toNat) :: runes bytes := by
  simp [runes, runesFrom, h]

theorem utf8EncodeChar_ascii {b : UInt8} (h : b < 0x80) :
    String.utf8EncodeChar (Char.ofNat b.toNat) = [b] := by
  have hlt : b.toNat < 128 := UInt8.lt_iff_toNat_lt.mp h
  have hvalid : Nat.isValidChar b.toNat := Or.inl (by omega)
  have hval : (Char.ofNat b.toNat).val.toNat = b.toNat := by
    simp [Char.ofNat, hvalid, Char.ofNatAux]
  simp only [String.utf8EncodeChar, hval, if_pos (Nat.le_of_lt_succ hlt)]
  simp

theorem runes_char (c : Char) (rest : Bytes) :
    runes (String.utf8EncodeChar c ++ rest) = .char c :: runes rest := by
  have hdecode := decodeRune_utf8 c rest
  have hcode := runeCode_utf8 c rest
  have hlength := String.length_utf8EncodeChar c
  cases hform : String.utf8EncodeChar c with
  | nil => exact absurd hform String.utf8EncodeChar_ne_nil
  | cons b bs =>
    rw [hform] at hdecode hcode hlength
    by_cases hb : b < 0x80
    · have hfirst : b.toNat = c.toNat := by
        have hlt : b.toNat < 0x80 := UInt8.lt_iff_toNat_lt.mp hb
        simpa [runeCode, hlt] using hcode
      obtain rfl : Char.ofNat b.toNat = c := by rw [hfirst, Char.ofNat_toNat]
      obtain rfl : bs = [] := by simpa [utf8EncodeChar_ascii hb] using hform
      exact runes_ascii hb rest
    · have hskip : c.utf8Size - 1 = bs.length := by simp [← hlength]
      rw [List.cons_append] at hdecode
      simp only [runes, List.cons_append, runesFrom, dif_neg hb, hdecode, hskip, runesFrom_append]

end Forms

theorem runes_utf8 (t : Text) : runes (utf8 t) = goString t := by
  induction t with
  | nil => rfl
  | cons c cs ih => rw [utf8, List.flatMap_cons, runes_char, ← utf8, ih]; rfl

theorem flatMap_runes (bytes : Bytes) : (runes bytes).flatMap Rune.bytes = bytes := by
  induction hlen : bytes.length using Nat.strong_induction_on generalizing bytes with
  | _ n ih =>
  cases bytes with
  | nil => rfl
  | cons b rest =>
    have hrest := ih rest.length (by simp [← hlen]) rest rfl
    by_cases hb : b < 0x80
    · rw [runes_ascii hb, List.flatMap_cons, hrest, Rune.bytes, utf8EncodeChar_ascii hb]
      rfl
    cases hdecode : decodeRune (b :: rest) with
    | none =>
      have hrunes : runes (b :: rest) = .byte ⟨b, UInt8.not_lt.mp hb⟩ :: runes rest := by
        simp only [runes, runesFrom, dif_neg hb, hdecode]
      rw [hrunes, List.flatMap_cons, hrest]
      rfl
    | some c =>
      obtain ⟨tail, htail⟩ := decodeRune_eq_some hdecode
      have hshort : tail.length < n := by
        have hpos := c.utf8Size_pos
        have hsum := congrArg List.length htail
        rw [List.length_append, String.length_utf8EncodeChar] at hsum
        omega
      rw [← htail, runes_char, List.flatMap_cons, ih tail.length hshort tail rfl]
      rfl

theorem validUTF8_runes {bytes : Bytes} :
    validUTF8 (runes bytes) = true ↔ ∃ t, bytes = utf8 t := by
  constructor
  · intro h
    refine ⟨asText (runes bytes), ?_⟩
    conv_lhs => rw [← flatMap_runes bytes]
    rw [utf8, asText, List.flatMap_map]
    refine List.flatMap_congr fun r hr => ?_
    have hchar := List.all_eq_true.mp h r hr
    cases r with
    | char c => rfl
    | byte b => cases hchar
  · intro h
    obtain ⟨t, rfl⟩ := h
    rw [runes_utf8]
    simp [validUTF8, goString]

end Decoding

end Noted
