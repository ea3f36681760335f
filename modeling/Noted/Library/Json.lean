import Mathlib.Data.List.Basic
import Mathlib.Data.List.DropRight
import Mathlib.Tactic.Ring

/-!
# The texts of JSON values

Quoted texts, decimal numbers and lists as a JSON writer prints them. Each printer can be
read back from the front of a longer text, so a value's text determines the value.
-/

namespace Noted.Library.Json

section Strings

def quoteMark : Char := Char.ofNat 34

def escapes : List (Char × Char) :=
  [(quoteMark, quoteMark), ('\\', '\\'), (Char.ofNat 8, 'b'), (Char.ofNat 9, 't'),
    (Char.ofNat 10, 'n'), (Char.ofNat 12, 'f'), (Char.ofNat 13, 'r')]

def escape (c : Char) : List Char :=
  match escapes.lookup c with
  | some letter => ['\\', letter]
  | none =>
    if c.toNat < 32 then
      ['\\', 'u', '0', '0', Nat.digitChar (c.toNat / 16), Nat.digitChar (c.toNat % 16)]
    else [c]

def quote (text : List Char) : List Char := quoteMark :: (text.flatMap escape ++ [quoteMark])

def hexValue (c : Char) : Nat := if c.isDigit then c.toNat - 48 else c.toNat - 87

def unescape : List Char → Option (Char × List Char)
  | [] => none
  | c :: rest =>
    if c ≠ '\\' then some (c, rest)
    else match rest with
      | 'u' :: _ :: _ :: high :: low :: rest =>
        some (Char.ofNat (16 * hexValue high + hexValue low), rest)
      | letter :: rest => (escapes.find? fun e => e.2 == letter).map fun e => (e.1, rest)
      | [] => none

theorem hexValue_digitChar : ∀ n < 16, hexValue (Nat.digitChar n) = n := by decide

theorem unescape_letter : ∀ e ∈ escapes, ∀ rest,
    unescape ('\\' :: e.2 :: rest) = some (e.1, rest) := by
  intro e he rest
  simp only [escapes, List.mem_cons, List.not_mem_nil, or_false] at he
  obtain rfl | rfl | rfl | rfl | rfl | rfl | rfl := he <;> rfl

theorem unescape_escape (c : Char) (rest : List Char) :
    unescape (escape c ++ rest) = some (c, rest) := by
  unfold escape
  cases h : escapes.lookup c with
  | some letter =>
    have hmem : (c, letter) ∈ escapes := by
      obtain ⟨before, after, heq, -⟩ := List.lookup_eq_some_iff.mp h
      simp [heq]
    exact unescape_letter (c, letter) hmem rest
  | none =>
    dsimp only
    by_cases hc : c.toNat < 32
    · have hhigh := hexValue_digitChar (c.toNat / 16) (by omega)
      have hlow := hexValue_digitChar (c.toNat % 16) (by omega)
      have hvalue : 16 * (c.toNat / 16) + c.toNat % 16 = c.toNat := Nat.div_add_mod _ _
      rw [if_pos hc]
      simp [unescape, hhigh, hlow, hvalue]
    · have hne : c ≠ '\\' := by
        rintro rfl
        exact absurd h (by decide)
      rw [if_neg hc]
      simp [unescape, hne]

theorem escape_inj {c d : Char} {s t : List Char} (h : escape c ++ s = escape d ++ t) :
    c = d ∧ s = t := by
  have hread := congrArg unescape h
  rw [unescape_escape, unescape_escape, Option.some.injEq] at hread
  exact Prod.mk.inj hread

theorem escape_ne_quoteMark (c : Char) (s t : List Char) : escape c ++ s ≠ quoteMark :: t := by
  intro h
  have hread := congrArg unescape h
  have hmark : unescape (quoteMark :: t) = some (quoteMark, t) := rfl
  rw [unescape_escape, hmark, Option.some.injEq] at hread
  obtain ⟨rfl, rfl⟩ := Prod.mk.inj hread
  have hlength := congrArg List.length h
  simp [escape, escapes] at hlength

theorem quote_inj {a b s t : List Char} (h : quote a ++ s = quote b ++ t) : a = b ∧ s = t := by
  simp only [quote, List.cons_append, List.append_assoc, List.nil_append, List.cons.injEq,
    true_and] at h
  induction a generalizing b with
  | nil =>
    cases b with
    | nil => exact ⟨rfl, (List.cons.inj h).2⟩
    | cons d ds =>
      rw [List.flatMap_cons, List.append_assoc] at h
      exact absurd h.symm (escape_ne_quoteMark d _ _)
  | cons c cs ih =>
    cases b with
    | nil =>
      rw [List.flatMap_cons, List.append_assoc] at h
      exact absurd h (escape_ne_quoteMark c _ _)
    | cons d ds =>
      simp only [List.flatMap_cons, List.append_assoc] at h
      obtain ⟨rfl, hrest⟩ := escape_inj h
      obtain ⟨rfl, hend⟩ := ih hrest
      exact ⟨rfl, hend⟩

end Strings

section Reading

variable {α : Type*} {p : α → Bool} {a b s t : List α}

theorem run_inj (ha : ∀ c ∈ a, p c = true) (hb : ∀ c ∈ b, p c = true)
    (hs : ∀ c ∈ s.head?, p c = false) (ht : ∀ c ∈ t.head?, p c = false)
    (h : a ++ s = b ++ t) : a = b ∧ s = t := by
  induction a generalizing b with
  | nil =>
    cases b with
    | nil => exact ⟨rfl, h⟩
    | cons d ds =>
      have hd := hb d List.mem_cons_self
      rw [hs d (by rw [← List.nil_append s, h]; rfl)] at hd
      cases hd
  | cons c cs ih =>
    cases b with
    | nil =>
      have hc := ha c List.mem_cons_self
      rw [ht c (by rw [← List.nil_append t, ← h]; rfl)] at hc
      cases hc
    | cons d ds =>
      obtain ⟨rfl, hrest⟩ := List.cons.inj h
      obtain ⟨rfl, hend⟩ := ih (fun e he => ha e (List.mem_cons_of_mem _ he))
        (fun e he => hb e (List.mem_cons_of_mem _ he)) hrest
      exact ⟨rfl, hend⟩

theorem rdropWhile_inj {z : α} (hz : ∀ c, p c = true → c = z) (hlength : a.length = b.length)
    (h : a.rdropWhile p = b.rdropWhile p) : a = b := by
  have hend : ∀ l : List α, l.rtakeWhile p =
      List.replicate (l.length - (l.rdropWhile p).length) z := by
    intro l
    have hlen : (l.rdropWhile p).length + (l.rtakeWhile p).length = l.length := by
      rw [← List.length_append, List.rdropWhile_append_rtakeWhile]
    rw [← Nat.eq_sub_of_add_eq' hlen]
    exact List.eq_replicate_of_mem fun c hc => hz c (List.mem_rtakeWhile_imp hc)
  rw [← List.rdropWhile_append_rtakeWhile (p := p) (l := a),
    ← List.rdropWhile_append_rtakeWhile (p := p) (l := b), hend, hend, h, hlength]

end Reading

section Decimals

/-- A number with so many decimals at most, in units of the last one. -/
structure Decimal (places : Nat) where
  units : Int
  deriving DecidableEq

variable {places m n : Nat}

def decimals (places fraction : Nat) : List Char :=
  let digits := Nat.toDigits 10 fraction
  List.replicate (places - digits.length) '0' ++ digits

def afterPoint (decimals : List Char) : List Char :=
  if decimals = [] then [] else '.' :: decimals

/-- The whole part and the decimals, without zeros at the end. -/
def sizeText (places size : Nat) : List Char :=
  Nat.toDigits 10 (size / 10 ^ places) ++
    afterPoint ((decimals places (size % 10 ^ places)).rdropWhile (· == '0'))

def Decimal.text (d : Decimal places) : List Char :=
  if d.units < 0 then '-' :: sizeText places d.units.natAbs else sizeText places d.units.natAbs

theorem toDigits_inj (h : Nat.toDigits 10 m = Nat.toDigits 10 n) : m = n := by
  have hread := congrArg (fun t => Nat.ofDigitChars 10 t 0) h
  simpa only [Nat.ofDigitChars_ten_toDigits] using hread

theorem isDigit_toDigits : ∀ c ∈ Nat.toDigits 10 n, c.isDigit = true := fun _ hc =>
  Nat.isDigit_of_mem_toDigits (by omega) le_rfl hc

theorem length_decimals (hplaces : 0 < places) (hn : n < 10 ^ places) :
    (decimals places n).length = places := by
  have hle := (Nat.length_toDigits_le_iff (by omega) hplaces).mpr hn
  simp only [decimals, List.length_append, List.length_replicate]
  omega

theorem decimals_inj (h : decimals places m = decimals places n) : m = n := by
  have hread := congrArg (fun t => Nat.ofDigitChars 10 t 0) h
  simpa only [decimals, Nat.ofDigitChars_append, Nat.ofDigitChars_replicate_zero, Nat.mul_zero,
    Nat.ofDigitChars_ten_toDigits] using hread

theorem isDigit_decimals : ∀ c ∈ decimals places n, c.isDigit = true := by
  intro c hc
  obtain hc | hc := List.mem_append.mp hc
  · rw [List.eq_of_mem_replicate hc]
    rfl
  · exact isDigit_toDigits c hc

theorem afterPoint_inj {s t : List Char} (h : afterPoint s = afterPoint t) : s = t := by
  unfold afterPoint at h
  split at h <;> split at h
  · simp_all
  · cases h
  · cases h
  · exact (List.cons.inj h).2

theorem afterPoint_head (t : List Char) : ∀ c ∈ (afterPoint t).head?, c.isDigit = false := by
  intro c hc
  unfold afterPoint at hc
  split at hc
  · cases hc
  · obtain rfl : '.' = c := by simpa using hc
    rfl

theorem sizeText_inj (hplaces : 0 < places) (h : sizeText places m = sizeText places n) :
    m = n := by
  obtain ⟨hwhole, hpoint⟩ :=
    run_inj isDigit_toDigits isDigit_toDigits (afterPoint_head _) (afterPoint_head _) h
  have hfraction := afterPoint_inj hpoint
  have hpos : 0 < 10 ^ places := Nat.pow_pos (by omega)
  have hlength : (decimals places (m % 10 ^ places)).length =
      (decimals places (n % 10 ^ places)).length := by
    rw [length_decimals hplaces (Nat.mod_lt m hpos), length_decimals hplaces (Nat.mod_lt n hpos)]
  have hrest := decimals_inj
    (rdropWhile_inj (z := '0') (fun c hc => by simpa using hc) hlength hfraction)
  rw [← Nat.div_add_mod m (10 ^ places), ← Nat.div_add_mod n (10 ^ places),
    toDigits_inj hwhole, hrest]

theorem sizeText_head (places n : Nat) :
    ∃ c cs, sizeText places n = c :: cs ∧ c.isDigit = true := by
  obtain ⟨c, cs, hcs⟩ := List.exists_cons_of_ne_nil
    (Nat.toDigits_ne_nil (n := n / 10 ^ places) (b := 10))
  refine ⟨c, _, by rw [sizeText, hcs, List.cons_append], ?_⟩
  exact isDigit_toDigits c (hcs ▸ List.mem_cons_self)

theorem sizeText_ne_minus (t : List Char) : sizeText places n ≠ '-' :: t := by
  intro h
  obtain ⟨c, cs, hcs, hc⟩ := sizeText_head places n
  obtain rfl : c = '-' := (List.cons.inj (hcs.symm.trans h)).1
  cases hc

theorem Decimal.text_inj (hplaces : 0 < places) {d e : Decimal places} (h : d.text = e.text) :
    d = e := by
  have hunits : d.units = e.units := by
    unfold Decimal.text at h
    split at h <;> split at h
    · have hsize := sizeText_inj hplaces (List.cons.inj h).2
      omega
    · exact absurd h.symm (sizeText_ne_minus _)
    · exact absurd h (sizeText_ne_minus _)
    · have hsize := sizeText_inj hplaces h
      omega
  cases d
  cases e
  exact congrArg Decimal.mk hunits

example : (Decimal.mk (-500000) : Decimal 6).text = "-0.5".toList := by decide

end Decimals

section Values

inductive Value (ν : Type) where
  | text (t : List Char)
  | number (n : ν)
  | flag (b : Bool)
  | list (items : List (Value ν))

variable {ν : Type} (print : ν → List Char)

mutual

/-- `JSON.stringify`, with the printer of the numbers. -/
def stringify : Value ν → List Char
  | .text t => quote t
  | .number n => print n
  | .flag b => if b then "true".toList else "false".toList
  | .list [] => "[]".toList
  | .list (v :: vs) => '[' :: (stringify v ++ moreItems vs)

def moreItems : List (Value ν) → List Char
  | [] => [']']
  | v :: vs => ',' :: (stringify v ++ moreItems vs)

end

def numeric (c : Char) : Bool := c.isDigit || c == '-' || c == '.'

structure Prints : Prop where
  injective : Function.Injective print
  nonempty : ∀ n, print n ≠ []
  numeric : ∀ n, ∀ c ∈ print n, numeric c = true

/-- What may stand behind a value. -/
def Stops (rest : List Char) : Prop := ∀ c ∈ rest.head?, c = ',' ∨ c = ']'

theorem stops_moreItems (vs : List (Value ν)) (rest : List Char) :
    Stops (moreItems print vs ++ rest) := by
  intro c hc
  cases vs with
  | nil =>
    obtain rfl : ']' = c := by simpa [moreItems] using hc
    exact Or.inr rfl
  | cons v vs =>
    obtain rfl : ',' = c := by simpa [moreItems] using hc
    exact Or.inl rfl

def kind : Value ν → Nat
  | .text _ => 0
  | .number _ => 1
  | .flag _ => 2
  | .list _ => 3

def kindOf (c : Char) : Nat :=
  if c = quoteMark then 0 else if numeric c = true then 1 else if c = '[' then 3
  else if c = ']' then 4 else 2

variable {print}

theorem kindOf_stringify (h : Prints print) (v : Value ν) :
    ∃ c cs, stringify print v = c :: cs ∧ kindOf c = kind v := by
  cases v with
  | text t => exact ⟨quoteMark, _, rfl, rfl⟩
  | number n =>
    obtain ⟨c, cs, hcs⟩ := List.exists_cons_of_ne_nil (h.nonempty n)
    have hc := h.numeric n c (hcs ▸ List.mem_cons_self)
    have hne : c ≠ quoteMark := by
      rintro rfl
      cases hc
    exact ⟨c, cs, hcs, by simp [kindOf, kind, hne, hc]⟩
  | flag b => cases b <;> exact ⟨_, _, rfl, rfl⟩
  | list items => cases items <;> exact ⟨'[', _, rfl, rfl⟩

theorem kind_eq (h : Prints print) {v w : Value ν} {s t : List Char}
    (heq : stringify print v ++ s = stringify print w ++ t) : kind v = kind w := by
  obtain ⟨c, cs, hcs, hv⟩ := kindOf_stringify h v
  obtain ⟨d, ds, hds, hw⟩ := kindOf_stringify h w
  rw [hcs, hds] at heq
  obtain rfl : c = d := (List.cons.inj heq).1
  rw [← hv, ← hw]

theorem stringify_ne_bracket (h : Prints print) (v : Value ν) (s t : List Char) :
    stringify print v ++ s ≠ ']' :: t := by
  intro heq
  obtain ⟨c, cs, hcs, hc⟩ := kindOf_stringify h v
  rw [hcs] at heq
  obtain rfl : c = ']' := (List.cons.inj heq).1
  have hfour : kindOf ']' = 4 := rfl
  cases v <;> simp [kind, hfour] at hc

theorem not_numeric_of_stops {s : List Char} (h : Stops s) :
    ∀ c ∈ s.head?, numeric c = false := by
  intro c hc
  obtain rfl | rfl := h c hc <;> rfl

mutual

/-- A value is read back from the front of a text. -/
theorem stringify_inj (h : Prints print) (v w : Value ν) {s t : List Char} (hs : Stops s)
    (ht : Stops t) (heq : stringify print v ++ s = stringify print w ++ t) : v = w ∧ s = t := by
  have hkind := kind_eq h heq
  match v, w with
  | .text a, .text b =>
    obtain ⟨rfl, hrest⟩ := quote_inj heq
    exact ⟨rfl, hrest⟩
  | .number m, .number n =>
    obtain ⟨hmn, hrest⟩ := run_inj (h.numeric m) (h.numeric n) (not_numeric_of_stops hs)
      (not_numeric_of_stops ht) heq
    exact ⟨congrArg Value.number (h.injective hmn), hrest⟩
  | .flag a, .flag b =>
    cases a <;> cases b <;> simp_all [stringify]
  | .list [], .list [] => exact ⟨rfl, by simpa [stringify] using heq⟩
  | .list [], .list (w :: ws) =>
    have hitems : ']' :: s = stringify print w ++ (moreItems print ws ++ t) := by
      simpa [stringify] using heq
    exact absurd hitems.symm (stringify_ne_bracket h w _ _)
  | .list (v :: vs), .list [] =>
    have hitems : stringify print v ++ (moreItems print vs ++ s) = ']' :: t := by
      simpa [stringify] using heq
    exact absurd hitems (stringify_ne_bracket h v _ _)
  | .list (v :: vs), .list (w :: ws) =>
    have hitems : stringify print v ++ (moreItems print vs ++ s) =
        stringify print w ++ (moreItems print ws ++ t) := by
      simpa [stringify] using heq
    obtain ⟨rfl, hmore⟩ := stringify_inj h v w (stops_moreItems print vs s)
      (stops_moreItems print ws t) hitems
    obtain ⟨rfl, hrest⟩ := moreItems_inj h vs ws hmore
    exact ⟨rfl, hrest⟩

theorem moreItems_inj (h : Prints print) (vs ws : List (Value ν)) {s t : List Char}
    (heq : moreItems print vs ++ s = moreItems print ws ++ t) : vs = ws ∧ s = t := by
  match vs, ws with
  | [], [] => exact ⟨rfl, (List.cons.inj heq).2⟩
  | [], w :: ws => cases heq
  | v :: vs, [] => cases heq
  | v :: vs, w :: ws =>
    have hitems : stringify print v ++ (moreItems print vs ++ s) =
        stringify print w ++ (moreItems print ws ++ t) := by
      simpa [moreItems] using heq
    obtain ⟨rfl, hmore⟩ := stringify_inj h v w (stops_moreItems print vs s)
      (stops_moreItems print ws t) hitems
    obtain ⟨rfl, hrest⟩ := moreItems_inj h vs ws hmore
    exact ⟨rfl, hrest⟩

end

theorem stringify_injective (h : Prints print) : Function.Injective (stringify print) := by
  intro v w heq
  have hnil : Stops [] := fun c hc => by cases hc
  exact (stringify_inj h v w hnil hnil (by simpa using heq)).1

theorem prints_text {places : Nat} (hplaces : 0 < places) :
    Prints (Decimal.text : Decimal places → List Char) := by
  have hsize : ∀ n, ∀ c ∈ sizeText places n, numeric c = true := by
    intro n c hc
    have hdigit : c.isDigit = true → numeric c = true := fun hc => by simp [numeric, hc]
    obtain hc | hc := List.mem_append.mp hc
    · exact hdigit (isDigit_toDigits c hc)
    · unfold afterPoint at hc
      split at hc
      · cases hc
      · obtain rfl | hc := List.mem_cons.mp hc
        · rfl
        · exact hdigit (isDigit_decimals c ((List.rdropWhile_prefix _ _).subset hc))
  refine ⟨fun d e => Decimal.text_inj hplaces, ?_, ?_⟩
  · intro d
    obtain ⟨c, cs, hcs, -⟩ := sizeText_head places d.units.natAbs
    unfold Decimal.text
    split <;> simp [hcs]
  · intro d c hc
    unfold Decimal.text at hc
    split at hc
    · obtain rfl | hc := List.mem_cons.mp hc
      · rfl
      · exact hsize _ c hc
    · exact hsize _ c hc

end Values

end Noted.Library.Json
