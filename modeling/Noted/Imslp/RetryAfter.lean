import Noted.Imslp.Breaker
import Noted.Library.Wrapping
import Noted.Text

/-!
# Retry-After (internal/app/imslp.go)

A 429 of IMSLP may say how long to wait, in seconds or as a date. Durations are 64-bit
numbers of nanoseconds that wrap, and instants are exact numbers of nanoseconds. The
parser of HTTP dates is a parameter.
-/

namespace Noted.Imslp

open Library.Wrapping

def digitValue (c : Char) : Int := c.toNat - '0'.toNat

def readDigits (digits : Text) : Option Int :=
  if digits.isEmpty = false ∧ digits.all Char.isDigit = true then
    some (digits.foldl (fun n c => 10 * n + digitValue c) 0)
  else none

def readInteger : Text → Option Int
  | '+' :: digits => readDigits digits
  | '-' :: digits => (readDigits digits).map fun n => -n
  | digits => readDigits digits

def atoi (text : Text) : Option Int64 :=
  match readInteger text with
  | none => none
  | some n => if -2 ^ 63 ≤ n ∧ n < 2 ^ 63 then some (Int64.ofInt n) else none

def second : Int64 := 1000000000

/-- `at.Sub(now)`, which saturates. -/
def timeSub (at_ now : Int) : Int64 := Int64.ofInt (max (-2 ^ 63) (min (2 ^ 63 - 1) (at_ - now)))

/-- `parseTime` is `http.ParseTime`, and `now` is read twice from a clock that stands still. -/
def retryAfter (parseTime : Text → Option Int) (maxRetryAfter : Int64) (now : Int)
    (header : Text) : Int64 :=
  let fromDate :=
    match parseTime header with
    | some at_ => if now < at_ then timeSub at_ now else maxRetryAfter
    | none => maxRetryAfter
  let delay :=
    match atoi (trimSpace header) with
    | some seconds => if 0 < seconds then seconds * second else fromDate
    | none => fromDate
  min delay maxRetryAfter

/-- An HTTP date begins with the name of a day. -/
def BeginsWithDay (parseTime : Text → Option Int) : Prop :=
  ∀ text at_, parseTime text = some at_ → ∃ c ∈ text.head?, c.isAlpha = true

def inSeconds (d : Int64) : ℚ := d.toInt / 1000000000

/-- The delay is within its bound, a number of seconds is the delay up to the bound, and
the breaker stays open for the delay that `record` is given. -/
structure ReadsDelay (maxRetryAfter : Int64) (header : Text) (delay : Int64) : Prop where
  pos : 0 < delay
  le : delay ≤ maxRetryAfter
  seconds : ∀ n, readInteger (trimSpace header) = some n → 0 < n →
    delay.toInt = min (n * 1000000000) maxRetryAfter.toInt
  opens : ∀ (cfg : Controls) (probe : Bool) (now : ℚ) (b : Breaker),
    (b.record cfg probe ⟨true, inSeconds delay⟩ now).isOpen = true ∧
      (b.record cfg probe ⟨true, inSeconds delay⟩ now).openUntil =
        max b.openUntil (now + inSeconds delay)

/-- The seconds in the header are too many to be read, or few enough to be a duration, or
they wrap to a duration that the bound still caps. -/
def SecondsFit (maxRetryAfter : Int64) (header : Text) : Prop :=
  ∀ n, readInteger (trimSpace header) = some n → 0 < n → n < 2 ^ 63 →
    n * 1000000000 < 2 ^ 63 ∨ maxRetryAfter.toInt ≤ (n * 1000000000).bmod (2 ^ 64)

namespace Breaker

theorem record_delay (cfg : Controls) (probe : Bool) {retryAfter : ℚ} (now : ℚ)
    (b : Breaker) (h : 0 < retryAfter) :
    (b.record cfg probe ⟨true, retryAfter⟩ now).isOpen = true ∧
      (b.record cfg probe ⟨true, retryAfter⟩ now).openUntil =
        max b.openUntil (now + retryAfter) := by
  cases probe <;> simp [record, h, h.ne']

end Breaker

section Durations

theorem inSeconds_pos {d : Int64} (h : 0 < d) : 0 < inSeconds d := by
  have hd : (0 : ℚ) < d.toInt := by exact_mod_cast toInt_pos h
  exact div_pos hd (by norm_num)

theorem timeSub_pos {at_ now : Int} (h : now < at_) : 0 < timeSub at_ now := by
  apply pos_of_toInt
  rw [timeSub, toInt_ofInt ⟨by omega, by omega⟩]
  omega

theorem toInt_second : second.toInt = 1000000000 := by decide

theorem toInt_seconds (n : Int64) : (n * second).toInt = (n.toInt * 1000000000).bmod (2 ^ 64) := by
  rw [Int64.toInt_mul, toInt_second]

theorem min_bmod_iff {s m : Int} (hs : 0 < s) (hm : 0 < m) (hmax : m < 2 ^ 63) :
    (0 < min (s.bmod (2 ^ 64)) m ∧ min (s.bmod (2 ^ 64)) m = min s m) ↔
      s < 2 ^ 63 ∨ m ≤ s.bmod (2 ^ 64) := by
  by_cases hfits : s < 2 ^ 63
  · rw [bmod_of_fits ⟨by omega, hfits⟩]
    exact ⟨fun _ => Or.inl hfits, fun _ => ⟨lt_min hs hm, rfl⟩⟩
  · rw [min_eq_right (by omega : m ≤ s)]
    constructor
    · exact fun h => Or.inr (min_eq_right_iff.mp h.2)
    · intro h
      rw [min_eq_right (h.resolve_left hfits)]
      exact ⟨hm, rfl⟩

end Durations

section Numbers

variable {text header : Text} {n : Int}

theorem readDigits_head {c : Char} {cs : Text} (h : readDigits (c :: cs) = some n) :
    c.isDigit = true := by
  unfold readDigits at h
  split_ifs at h with hdigits
  rw [List.all_cons, Bool.and_eq_true] at hdigits
  exact hdigits.2.1

theorem isAlpha_toNat {c : Char} (h : c.isAlpha = true) : 65 ≤ c.toNat ∧ c.toNat ≤ 122 := by
  simp only [Char.isAlpha, Char.isUpper, Char.isLower, Bool.or_eq_true, Bool.and_eq_true,
    decide_eq_true_eq, ge_iff_le, UInt32.le_iff_toNat_le] at h
  have hA : 'A'.val.toNat = 65 := rfl
  have ha : 'a'.val.toNat = 97 := rfl
  have hZ : 'Z'.val.toNat = 90 := rfl
  have hz : 'z'.val.toNat = 122 := rfl
  change 65 ≤ c.val.toNat ∧ c.val.toNat ≤ 122
  omega

theorem isDigit_toNat {c : Char} (h : c.isDigit = true) : c.toNat ≤ 57 := by
  simp only [Char.isDigit, Bool.and_eq_true, decide_eq_true_eq, UInt32.le_iff_toNat_le] at h
  exact h.2

theorem isDigit_not_alpha {c : Char} (h : c.isDigit = true) : c.isAlpha = false := by
  by_contra halpha
  have hlow := (isAlpha_toNat (Bool.eq_true_of_not_eq_false halpha)).1
  have hhigh := isDigit_toNat h
  omega

theorem isAlpha_not_space {c : Char} (h : c.isAlpha = true) : goSpace c = false := by
  obtain ⟨hlow, hhigh⟩ := isAlpha_toNat h
  have hline : c ≠ nextLine := by
    rintro rfl
    exact absurd hhigh (by decide)
  simp only [goSpace, sharedSpace, Bool.or_eq_false_iff, Bool.and_eq_false_iff,
    decide_eq_false_iff_not, beq_eq_false_iff_ne]
  exact ⟨by omega, hline⟩

theorem readInteger_head (h : readInteger text = some n) :
    ∃ c cs, text = c :: cs ∧ c.isAlpha = false := by
  unfold readInteger at h
  split at h
  · exact ⟨_, _, rfl, by decide⟩
  · exact ⟨_, _, rfl, by decide⟩
  · cases text with
    | nil => simp [readDigits] at h
    | cons c cs => exact ⟨c, cs, rfl, isDigit_not_alpha (readDigits_head h)⟩

theorem trimSpace_head {c d : Char} {ds : Text} (hc : c ∈ header.head?)
    (halpha : c.isAlpha = true) (htrim : trimSpace header = d :: ds) : d = c := by
  cases header with
  | nil => simp at hc
  | cons e es =>
    obtain rfl : e = c := by simpa using hc
    have hdrop : (e :: es).dropWhile goSpace = e :: es := by
      simp [isAlpha_not_space halpha]
    have hpre : d :: ds <+: e :: es := by
      rw [← htrim, trimSpace, trimBy, hdrop]
      exact List.rdropWhile_prefix goSpace (e :: es)
    exact (List.cons_prefix_cons.mp hpre).1

theorem parseTime_of_number {parseTime : Text → Option Int} (hday : BeginsWithDay parseTime)
    (h : readInteger (trimSpace header) = some n) : parseTime header = none := by
  cases hparse : parseTime header with
  | none => rfl
  | some at_ =>
    obtain ⟨c, hc, halpha⟩ := hday header at_ hparse
    obtain ⟨d, ds, htrim, hnot⟩ := readInteger_head h
    rw [trimSpace_head hc halpha htrim, halpha] at hnot
    exact absurd hnot (by decide)

theorem atoi_pos {n : Int64} (h : atoi text = some n) (hpos : 0 < n) :
    ∃ m, readInteger text = some m ∧ 0 < m ∧ m < 2 ^ 63 := by
  unfold atoi at h
  split at h
  · cases h
  · split_ifs at h with hfits
    refine ⟨_, ‹_›, ?_, hfits.2⟩
    rw [← Option.some.inj h] at hpos
    have hvalue := toInt_pos hpos
    rwa [toInt_ofInt hfits] at hvalue

end Numbers

section Delay

variable {parseTime : Text → Option Int} {maxRetryAfter : Int64} {header : Text}

theorem readsDelay_of {delay : Int64} (hpos : 0 < delay) (hle : delay ≤ maxRetryAfter)
    (hseconds : ∀ n, readInteger (trimSpace header) = some n → 0 < n →
      delay.toInt = min (n * 1000000000) maxRetryAfter.toInt) :
    ReadsDelay maxRetryAfter header delay where
  pos := hpos
  le := hle
  seconds := hseconds
  opens cfg probe now b := Breaker.record_delay cfg probe now b (inSeconds_pos hpos)

theorem retryAfter_le (parseTime : Text → Option Int) (maxRetryAfter : Int64) (now : Int)
    (header : Text) : retryAfter parseTime maxRetryAfter now header ≤ maxRetryAfter := by
  rw [retryAfter, Int64.le_iff_toInt_le, toInt_min]
  exact min_le_right _ _

theorem retryAfter_seconds {n : Int} (parseTime : Text → Option Int) (maxRetryAfter : Int64)
    (now : Int) (hn : readInteger (trimSpace header) = some n) (hpos : 0 < n)
    (hfits : n < 2 ^ 63) :
    (retryAfter parseTime maxRetryAfter now header).toInt =
      min ((n * 1000000000).bmod (2 ^ 64)) maxRetryAfter.toInt := by
  have hatoi : atoi (trimSpace header) = some (Int64.ofInt n) := by
    simp [atoi, hn]
    omega
  have hvalue : (Int64.ofInt n).toInt = n := toInt_ofInt ⟨by omega, hfits⟩
  have hofInt : 0 < Int64.ofInt n := pos_of_toInt (by rwa [hvalue])
  simp only [retryAfter, hatoi, hofInt, if_true]
  rw [toInt_min, toInt_seconds, hvalue]

theorem retryAfter_date (parseTime : Text → Option Int) (maxRetryAfter : Int64) (now : Int)
    (hnone : ∀ n, readInteger (trimSpace header) = some n → 0 < n → 2 ^ 63 ≤ n) :
    retryAfter parseTime maxRetryAfter now header = maxRetryAfter ∨
      ∃ at_, parseTime header = some at_ ∧ now < at_ ∧
        retryAfter parseTime maxRetryAfter now header = min (timeSub at_ now) maxRetryAfter := by
  have hseconds : ∀ seconds, atoi (trimSpace header) = some seconds → ¬ 0 < seconds := by
    intro seconds h hpos
    obtain ⟨n, hn, hnpos, hfits⟩ := atoi_pos h hpos
    exact absurd hfits (not_lt.mpr (hnone n hn hnpos))
  have hself : min maxRetryAfter maxRetryAfter = maxRetryAfter := by
    apply Int64.toInt_inj.mp
    rw [toInt_min, min_self]
  have hdate : retryAfter parseTime maxRetryAfter now header =
      min (match parseTime header with
        | some at_ => if now < at_ then timeSub at_ now else maxRetryAfter
        | none => maxRetryAfter) maxRetryAfter := by
    cases hatoi : atoi (trimSpace header) with
    | none => simp [retryAfter, hatoi]
    | some seconds => simp [retryAfter, hatoi, hseconds seconds hatoi]
  rw [hdate]
  cases hparse : parseTime header with
  | none => exact Or.inl hself
  | some at_ =>
    by_cases hlater : now < at_
    · exact Or.inr ⟨at_, rfl, hlater, by simp [hlater]⟩
    · exact Or.inl (by simp [hlater, hself])

/-- The delay read from a header is safe exactly when its seconds fit. -/
theorem readsDelay_iff (parseTime : Text → Option Int) (maxRetryAfter : Int64) (now : Int)
    (header : Text) (hday : BeginsWithDay parseTime) (hmax : 0 < maxRetryAfter) :
    ReadsDelay maxRetryAfter header (retryAfter parseTime maxRetryAfter now header) ↔
      SecondsFit maxRetryAfter header := by
  have hbound : maxRetryAfter.toInt < 2 ^ 63 := Int64.toInt_lt maxRetryAfter
  by_cases hread : ∃ n, readInteger (trimSpace header) = some n ∧ 0 < n ∧ n < 2 ^ 63
  · obtain ⟨n, hn, hpos, hfits⟩ := hread
    have hmin := retryAfter_seconds parseTime maxRetryAfter now hn hpos hfits
    have hiff := min_bmod_iff (s := n * 1000000000) (by omega) (toInt_pos hmax) hbound
    constructor
    · intro h m hm _ _
      obtain rfl : n = m := Option.some.inj (hn.symm.trans hm)
      have hposmin := toInt_pos h.pos
      have hseconds := h.seconds n hn hpos
      rw [hmin] at hposmin hseconds
      exact hiff.mp ⟨hposmin, hseconds⟩
    · intro h
      obtain ⟨hposmin, hseconds⟩ := hiff.mpr (h n hn hpos hfits)
      rw [← hmin] at hposmin hseconds
      refine readsDelay_of (pos_of_toInt hposmin) (retryAfter_le ..) fun m hm _ => ?_
      obtain rfl : n = m := Option.some.inj (hn.symm.trans hm)
      exact hseconds
  · have hnone : ∀ n, readInteger (trimSpace header) = some n → 0 < n → 2 ^ 63 ≤ n := by
      intro n hn hpos
      exact not_lt.mp fun hfits => hread ⟨n, hn, hpos, hfits⟩
    refine iff_of_true ?_ fun n hn hpos hfits => absurd hfits (not_lt.mpr (hnone n hn hpos))
    rcases retryAfter_date parseTime maxRetryAfter now hnone with hcap | ⟨at_, hparse, hlater, hmin⟩
    · rw [hcap]
      refine readsDelay_of hmax (Int64.le_refl _) fun n hn hpos => ?_
      rw [min_eq_right (by have := hnone n hn hpos; omega)]
    · refine readsDelay_of (pos_of_toInt ?_) (retryAfter_le ..) fun n hn _ => ?_
      · rw [hmin, toInt_min]
        exact lt_min (toInt_pos (timeSub_pos hlater)) (toInt_pos hmax)
      · simp [parseTime_of_number hday hn] at hparse

theorem readsDelay_two_minutes :
    ReadsDelay (300 * second) "120".toList
      (retryAfter (fun _ => none) (300 * second) 0 "120".toList) := by
  have hday : BeginsWithDay fun _ => none := by
    intro text at_ h
    cases h
  refine (readsDelay_iff (fun _ => none) (300 * second) 0 "120".toList hday (by decide)).mpr ?_
  intro n hn hpos hfits
  have hread : readInteger (trimSpace "120".toList) = some 120 := by decide +kernel
  obtain rfl : 120 = n := Option.some.inj (hread.symm.trans hn)
  exact Or.inl (by decide)

/-- So many seconds wrap to a negative delay. -/
theorem not_readsDelay_wrapped :
    ¬ ReadsDelay (60 * second) "9223372037".toList
      (retryAfter (fun _ => none) (60 * second) 0 "9223372037".toList) := by
  intro h
  exact absurd h.pos (by decide +kernel)

end Delay

end Noted.Imslp
