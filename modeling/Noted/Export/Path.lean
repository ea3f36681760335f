import Mathlib.Data.Nat.Digits.Defs
import Noted.Library.Attempt
import Noted.Text

/-!
# The path of an exported score, and a cell of the table (internal/app/export.go)

`exportScorePath` makes a file name of a title, of the start of the piece's id and of
its place in the export; `exportCSVCell` keeps a cell from being read as a formula.
What Unicode calls a format character, and `uuid.Parse`, are parameters.
-/

namespace Noted.Export

def isControl (c : Char) : Bool := c.toNat < 0x20 || (0x7F ≤ c.toNat && c.toNat < 0xA0)

structure UUID where
  bytes : List UInt8
  length_eq : bytes.length = 16
  deriving DecidableEq

def hexByte (b : UInt8) : Text := [Nat.digitChar (b.toNat / 16), Nat.digitChar (b.toNat % 16)]

def UUID.toText (u : UUID) : Text :=
  let group (start count : Nat) : Text := ((u.bytes.drop start).take count).flatMap hexByte
  group 0 4 ++ '-' :: group 4 2 ++ '-' :: group 6 2 ++ '-' :: group 8 2 ++ '-' :: group 10 6

def itoa (n : Nat) : Text := Nat.toDigits 10 n

section Path

variable {ε : Type} (isFormat : Char → Bool) (parse : Text → Except ε UUID)

/-- The loop over the title: control and format characters are left out, those that a
file system keeps for itself are replaced, and the name ends at 120 bytes. -/
def scoreName (name : Text) : Text → Text
  | [] => name
  | r :: rest =>
    if isControl r || isFormat r then scoreName name rest
    else
      let r := if "/\\<>:\"|?*".toList.contains r then '-' else r
      if byteLen name + r.utf8Size > 120 then name else scoreName (name ++ [r]) rest

def scoreBase (title : Text) : Text :=
  let base := trimBy (" .".toList.contains ·) (scoreName isFormat [] title)
  if base.isEmpty then "score".toList else base

def exportScorePath (title id : Text) (ordinal : Nat) : Except ε Text := do
  let parsed ← parse id
  pure ("scores/score-".toList ++ scoreBase isFormat title ++ '-' :: parsed.toText.take 8 ++
    '-' :: itoa ordinal ++ ".pdf".toList)

end Path

/-- The first byte of a character outside of ASCII is none of the four. -/
def exportCSVCell (value : Text) : Text :=
  let significant := value.dropWhile fun r => goSpace r || isControl r
  if "\t".toList.isPrefixOf value || "\r".toList.isPrefixOf value || "\n".toList.isPrefixOf value ||
      significant.head?.any ("=+-@".toList.contains ·) then
    "'".toList ++ value
  else value

def plain (c : Char) : Bool := c != '/' && c != '\\' && !isControl c

/-- A single name directly under scores/, without separators or control characters. -/
def ScoreName (path : Text) : Prop :=
  ∃ name, path = "scores/".toList ++ name ∧ "score-".toList <+: name ∧
    ∀ c ∈ name, plain c = true

section Facts

variable {ε : Type} {isFormat : Char → Bool} {parse : Text → Except ε UUID} {title id path : Text}
  {name t : Text} {m n : Nat}

theorem plain_digitChar (h : n < 16) : plain (Nat.digitChar n) = true := by
  interval_cases n <;> decide

theorem plain_hexByte (b : UInt8) : ∀ c ∈ hexByte b, plain c = true := by
  intro c hc
  have hlt := b.toNat_lt
  obtain rfl | hc := List.mem_cons.mp hc
  · exact plain_digitChar (by omega)
  · rw [List.mem_singleton.mp hc]
    exact plain_digitChar (by omega)

theorem plain_toText (u : UUID) : ∀ c ∈ u.toText, plain c = true := by
  have hgroup : ∀ start count : Nat, ∀ c ∈ ((u.bytes.drop start).take count).flatMap hexByte,
      plain c = true := by
    intro start count c hc
    obtain ⟨b, -, hb⟩ := List.mem_flatMap.mp hc
    exact plain_hexByte b c hb
  intro c hc
  simp only [UUID.toText, List.mem_append, List.mem_cons] at hc
  rcases hc with (((hc | rfl | hc) | rfl | hc) | rfl | hc) | rfl | hc
  all_goals first | exact hgroup _ _ c hc | decide

theorem isDigit_itoa (n : Nat) : ∀ c ∈ itoa n, c.isDigit = true := by
  intro c hc
  exact Nat.isDigit_of_mem_toDigits (by omega) (by omega) hc

theorem plain_of_isDigit {c : Char} (h : c.isDigit = true) : plain c = true := by
  have hrange : 48 ≤ c.toNat ∧ c.toNat ≤ 57 := by
    simpa [Char.isDigit, UInt32.le_iff_toNat_le] using h
  have hslash : c ≠ '/' := by
    rintro rfl
    revert hrange
    decide
  have hback : c ≠ '\\' := by
    rintro rfl
    revert hrange
    decide
  have hcontrol : isControl c = false := by
    simp only [isControl, Bool.or_eq_false_iff, decide_eq_false_iff_not, Bool.and_eq_false_iff]
    omega
  simp [plain, hslash, hback, hcontrol]

theorem plain_scoreName (hname : ∀ c ∈ name, plain c = true) :
    ∀ c ∈ scoreName isFormat name t, plain c = true := by
  induction t generalizing name with
  | nil => exact hname
  | cons r rest ih =>
    have hadd : ∀ c, plain c = true → ∀ c' ∈
        (if byteLen name + c.utf8Size > 120 then name else scoreName isFormat (name ++ [c]) rest),
        plain c' = true := by
      intro c hc
      split_ifs
      · exact hname
      · refine ih fun c' hc' => ?_
        obtain hold | hnew := List.mem_append.mp hc'
        · exact hname c' hold
        · rw [List.mem_singleton.mp hnew]
          exact hc
    rw [scoreName]
    split_ifs with hskip hspecial
    · exact ih hname
    · exact hadd '-' (by decide)
    · refine hadd r ?_
      simp only [Bool.or_eq_true, not_or, Bool.not_eq_true] at hskip
      have hslash : r ≠ '/' := by
        rintro rfl
        exact hspecial (by decide)
      have hback : r ≠ '\\' := by
        rintro rfl
        exact hspecial (by decide)
      simp [plain, hskip.1, hslash, hback]

theorem plain_scoreBase (title : Text) : ∀ c ∈ scoreBase isFormat title, plain c = true := by
  unfold scoreBase
  dsimp only
  split_ifs
  · exact List.all_eq_true.mp (by decide)
  · intro c hc
    have hin : c ∈ scoreName isFormat [] title := by
      unfold trimBy at hc
      exact (List.dropWhile_suffix _).subset ((List.rdropWhile_prefix _ _).subset hc)
    exact plain_scoreName (by simp) c hin

theorem exportScorePath_eq_ok (h : exportScorePath isFormat parse title id n = .ok path) :
    ∃ parsed, parse id = .ok parsed ∧
      path = "scores/score-".toList ++ scoreBase isFormat title ++ '-' :: parsed.toText.take 8 ++
        '-' :: itoa n ++ ".pdf".toList := by
  obtain ⟨parsed, hparsed, hpath⟩ := Library.bind_eq_ok.mp h
  exact ⟨parsed, hparsed, (Except.ok.inj hpath).symm⟩

theorem exportScorePath_name (h : exportScorePath isFormat parse title id n = .ok path) :
    ScoreName path := by
  obtain ⟨parsed, -, rfl⟩ := exportScorePath_eq_ok h
  refine ⟨"score-".toList ++ scoreBase isFormat title ++ '-' :: parsed.toText.take 8 ++
    '-' :: itoa n ++ ".pdf".toList, rfl, ?_, ?_⟩
  · simp only [List.append_assoc]
    exact List.prefix_append _ _
  · intro c hc
    simp only [List.mem_append, List.mem_cons] at hc
    rcases hc with (((hc | hc) | rfl | hc) | rfl | hc) | hc
    · exact List.all_eq_true.mp (by decide : "score-".toList.all plain = true) c hc
    · exact plain_scoreBase title c hc
    · decide
    · exact plain_toText parsed c (List.mem_of_mem_take hc)
    · decide
    · exact plain_of_isDigit (isDigit_itoa n c hc)
    · exact List.all_eq_true.mp (by decide : ".pdf".toList.all plain = true) c hc

theorem itoa_of_path {a b : Text} (h : a ++ '-' :: itoa m ++ ".pdf".toList =
    b ++ '-' :: itoa n ++ ".pdf".toList) : m = n := by
  have hdigits : ∀ k, '-' ∉ itoa k := by
    intro k hdash
    have h := isDigit_itoa k '-' hdash
    revert h
    decide
  have hsame := List.append_cancel_right h
  have hrev := congrArg List.reverse hsame
  simp only [List.reverse_append, List.reverse_cons, List.append_assoc, List.cons_append,
    List.nil_append] at hrev
  have htake := congrArg (List.takeWhile (· ≠ '-')) hrev
  have hall : ∀ k, ∀ c ∈ (itoa k).reverse, decide (c ≠ '-') = true := by
    intro k c hc
    have hne : c ≠ '-' := by
      rintro rfl
      exact hdigits k (List.mem_reverse.mp hc)
    simpa using hne
  rw [List.takeWhile_append_of_pos (hall m), List.takeWhile_append_of_pos (hall n)] at htake
  simp only [List.takeWhile_cons, ne_eq, not_true_eq_false, decide_false, Bool.false_eq_true,
    if_false, List.append_nil, List.reverse_inj] at htake
  have hvalue := congrArg (Nat.ofDigitChars 10 · 0) htake
  simpa [itoa] using hvalue

theorem exportScorePath_injective {title' id' : Text}
    (h : exportScorePath isFormat parse title id m = .ok path)
    (h' : exportScorePath isFormat parse title' id' n = .ok path) : m = n := by
  obtain ⟨parsed, -, hpath⟩ := exportScorePath_eq_ok h
  obtain ⟨parsed', -, hpath'⟩ := exportScorePath_eq_ok h'
  exact itoa_of_path (hpath.symm.trans hpath')

theorem exportCSVCell_path (h : ScoreName path) : exportCSVCell path = path := by
  obtain ⟨name, rfl, -, -⟩ := h
  have hpath : "scores/".toList ++ name = 's' :: ("cores/".toList ++ name) := rfl
  unfold exportCSVCell
  rw [hpath, List.dropWhile_cons_of_neg (by decide)]
  exact if_neg (by simp)

end Facts

end Noted.Export
