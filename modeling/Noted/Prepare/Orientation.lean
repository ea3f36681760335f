import Noted.Library.Attempt
import Noted.Library.DataView
import Noted.Types

/-!
# The EXIF orientation of a photo (processing-algorithms.ts)

`jpegOrientation` walks the segments of a JPEG to its EXIF segment and reads the
directory in it. A read outside the file throws, and offsets are exact.
-/

namespace Noted.Orientation

open Library Library.DataView

section Definitions

def getUint8 (v : Bytes) (i : Nat) : Except RangeError Nat := getUint 1 v i false

def getUint16 (v : Bytes) (i : Nat) (little : Bool) : Except RangeError Nat := getUint 2 v i little

def getUint32 (v : Bytes) (i : Nat) (little : Bool) : Except RangeError Nat := getUint 4 v i little

/-- The loop over the entries: how many are left, and the number of the next. -/
def entries (v : Bytes) (little : Bool) (ifd : Nat) : Nat → Nat → Except RangeError (Option Nat)
  | 0, _ => pure (some 1)
  | left + 1, n => do
    let q := ifd + 2 + n * 12
    if (← getUint16 v q little) ≠ 0x112 then
      entries v little ifd left (n + 1)
    else if (← getUint16 v (q + 2) little) ≠ 3 then
      pure none
    else if (← getUint32 v (q + 4) little) ≠ 1 then
      pure none
    else
      let orientation ← getUint16 v (q + 8) little
      pure (if 1 ≤ orientation ∧ orientation ≤ 8 then some orientation else none)

/-- The EXIF segment at `p`, which ends at `final`. -/
def exifOrientation (v : Bytes) (p length final : Nat) : Except RangeError (Option Nat) :=
  if length < 16 then pure none
  else do
    let t := p + 10
    let order ← getUint16 v t false
    let little := order == 0x4949
    if little = false ∧ order ≠ 0x4d4d then
      pure none
    else if (← getUint16 v (t + 2) little) ≠ 42 then
      pure none
    else
      let ifd := t + (← getUint32 v (t + 4) little)
      if ifd < t ∨ final < ifd + 2 then
        pure none
      else
        let count ← getUint16 v ifd little
        if 1024 < count ∨ final < ifd + 2 + count * 12 then pure none
        else entries v little ifd count 0

def signed (v : Bytes) (p marker length : Nat) : Except RangeError Bool :=
  if marker ≠ 0xe1 ∨ length < 8 then pure false
  else do
    if (← getUint32 v (p + 4) false) ≠ 0x45786966 then pure false
    else return (← getUint16 v (p + 8) false) == 0

/-- What the loop does at one segment: return, or go on at the next. -/
inductive Turn
  | done (orientation : Option Nat)
  | next (p : Nat)
  deriving DecidableEq

def turn (v : Bytes) (p : Nat) : Except RangeError Turn := do
  if (← getUint8 v p) ≠ 0xff then
    return .done none
  else
    let marker ← getUint8 v (p + 1)
    if marker = 0xda ∨ marker = 0xd9 then
      return .done (some 1)
    else
      let length ← getUint16 v (p + 2) false
      let final := p + 2 + length
      if length < 2 ∨ v.length < final then
        return .done none
      else if (← signed v p marker length) = true then
        return .done (← exifOrientation v p length final)
      else
        return .next final

end Definitions

section Reads

variable {v : Bytes} {i p q n left length final ifd : Nat} {little : Bool}

def Oriented (r : Option Nat) : Prop := ∀ o ∈ r, 1 ≤ o ∧ o ≤ 8

theorem getUint8_ok (h : i + 1 ≤ v.length) :
    getUint8 v i = .ok (number false (window v i 1)) := getUint_ok h

theorem getUint16_ok (h : i + 2 ≤ v.length) :
    getUint16 v i little = .ok (number little (window v i 2)) := getUint_ok h

theorem getUint32_ok (h : i + 4 ≤ v.length) :
    getUint32 v i little = .ok (number little (window v i 4)) := getUint_ok h

theorem entries_safe (h : ifd + 2 + (n + left) * 12 ≤ v.length) :
    ∃ r, entries v little ifd left n = .ok r ∧ Oriented r := by
  induction left generalizing n with
  | zero => exact ⟨some 1, rfl, by simp [Oriented]⟩
  | succ left ih =>
    rw [entries]
    simp (disch := omega) only [getUint16_ok, getUint32_ok, ok_bind]
    split_ifs with htag htype hcount hvalue
    · exact ih (by omega)
    · exact ⟨none, rfl, by simp [Oriented]⟩
    · exact ⟨none, rfl, by simp [Oriented]⟩
    · exact ⟨_, rfl, by simpa [Oriented] using hvalue⟩
    · exact ⟨none, rfl, by simp [Oriented]⟩

theorem exifOrientation_safe (hlength : final = p + 2 + length) (hfinal : final ≤ v.length) :
    ∃ r, exifOrientation v p length final = .ok r ∧ Oriented r := by
  have hnone : Oriented none := by simp [Oriented]
  unfold exifOrientation
  split_ifs with hshort
  · exact ⟨none, rfl, hnone⟩
  · simp (disch := omega) only [getUint16_ok, getUint32_ok, ok_bind]
    split_ifs with horder hmagic hifd
    · exact ⟨none, rfl, hnone⟩
    · exact ⟨none, rfl, hnone⟩
    · exact ⟨none, rfl, hnone⟩
    · simp (disch := omega) only [getUint16_ok, ok_bind]
      split_ifs with hcount
      · exact ⟨none, rfl, hnone⟩
      · exact entries_safe (by omega)

theorem signed_safe (marker : Nat) (hlength : p + 2 + length ≤ v.length) :
    ∃ b, signed v p marker length = .ok b := by
  unfold signed
  split_ifs with hmarker
  · exact ⟨false, rfl⟩
  · simp (disch := omega) only [getUint16_ok, getUint32_ok, ok_bind]
    split_ifs
    · exact ⟨false, rfl⟩
    · exact ⟨_, rfl⟩

def Turn.Safe (v : Bytes) (p : Nat) : Turn → Prop
  | .done r => Oriented r
  | .next q => p + 4 ≤ q ∧ q ≤ v.length

theorem turn_safe (h : p + 4 ≤ v.length) : ∃ s, turn v p = .ok s ∧ s.Safe v p := by
  rw [turn]
  simp (disch := omega) only [getUint8_ok, getUint16_ok, ok_bind]
  split_ifs with hff hscan hlength
  · exact ⟨.done none, rfl, by simp [Turn.Safe, Oriented]⟩
  · exact ⟨.done (some 1), rfl, by simp [Turn.Safe, Oriented]⟩
  · exact ⟨.done none, rfl, by simp [Turn.Safe, Oriented]⟩
  · rw [not_or, not_lt, not_lt] at hlength
    obtain ⟨b, hb⟩ := signed_safe (number false (window v (p + 1) 1)) hlength.2
    rw [hb, ok_bind]
    cases b with
    | true =>
      obtain ⟨r, hr, horiented⟩ := exifOrientation_safe rfl hlength.2
      exact ⟨.done r, by rw [if_pos rfl, hr]; rfl, horiented⟩
    | false => exact ⟨.next _, rfl, by omega, hlength.2⟩

end Reads

/-- The loop goes on while a marker and a length are left. -/
def walk (v : Bytes) (p : Nat) : Except RangeError (Option Nat) :=
  if _hp : p + 4 ≤ v.length then
    match _hturn : turn v p with
    | .error e => .error e
    | .ok (.done r) => .ok r
    | .ok (.next q) => walk v q
  else .ok none
termination_by v.length - p
decreasing_by
  obtain ⟨s, hs, hsafe⟩ := turn_safe _hp
  rw [_hturn] at hs
  cases hs
  have := hsafe.1
  omega

def jpegOrientation (v : Bytes) : Except RangeError (Option Nat) := do
  if v.length < 4 then
    return none
  else if (← getUint16 v 0 false) ≠ 0xffd8 then
    return none
  else
    walk v 2

section Walk

variable {v : Bytes} {p q : Nat} {r : Option Nat}

theorem walk_done (hp : p + 4 ≤ v.length) (h : turn v p = .ok (.done r)) : walk v p = .ok r := by
  rw [walk, dif_pos hp]
  split
  · simp_all
  · simp_all
  · simp_all

theorem walk_next (hp : p + 4 ≤ v.length) (h : turn v p = .ok (.next q)) :
    walk v p = walk v q := by
  rw [walk, dif_pos hp]
  split
  · simp_all
  · simp_all
  · simp_all

theorem walk_safe (v : Bytes) (p : Nat) : ∃ r, walk v p = .ok r ∧ Oriented r := by
  induction hn : v.length - p using Nat.strong_induction_on generalizing p with
  | _ n ih =>
    by_cases hp : p + 4 ≤ v.length
    · obtain ⟨s, hs, hsafe⟩ := turn_safe hp
      cases s with
      | done r => exact ⟨r, walk_done hp hs, hsafe⟩
      | next q =>
        rw [walk_next hp hs]
        exact ih (v.length - q) (by have := hsafe.1; omega) q rfl
    · rw [walk, dif_neg hp]
      exact ⟨none, rfl, by simp [Oriented]⟩

/-- Every read of a file is within it, whatever its bytes. -/
theorem jpegOrientation_safe (v : Bytes) : ∃ r, jpegOrientation v = .ok r ∧ Oriented r := by
  unfold jpegOrientation
  split_ifs with hshort
  · exact ⟨none, rfl, by simp [Oriented]⟩
  · simp (disch := omega) only [getUint16_ok, ok_bind]
    split_ifs
    · exact ⟨none, rfl, by simp [Oriented]⟩
    · exact walk_safe v 2

end Walk

/-- A segment of a JPEG with its marker; its length counts itself. -/
structure Segment where
  marker : UInt8
  payload : Bytes

namespace Segment

def header (s : Segment) : Bytes :=
  [0xff, s.marker, UInt8.ofNat ((s.payload.length + 2) / 256), UInt8.ofNat (s.payload.length + 2)]

def bytes (s : Segment) : Bytes := s.header ++ s.payload

structure WellFormed (s : Segment) : Prop where
  not_scan : s.marker ≠ 0xda
  not_final : s.marker ≠ 0xd9
  fits : s.payload.length + 2 < 65536

def exifSignature : Bytes := [0x45, 0x78, 0x69, 0x66, 0, 0]

def IsExif (s : Segment) : Prop := s.marker = 0xe1 ∧ exifSignature <+: s.payload

end Segment

structure HoldsOrientation (tiff : Bytes) (little : Bool) (ifd count k o : Nat) : Prop where
  order : window tiff 0 2 = if little then [0x49, 0x49] else [0x4d, 0x4d]
  magic : number little (window tiff 2 2) = 42
  offset : number little (window tiff 4 4) = ifd
  entries : number little (window tiff ifd 2) = count
  count_le : count ≤ 1024
  complete : ifd + 2 + count * 12 ≤ tiff.length
  lt : k < count
  first : ∀ j < k, number little (window tiff (ifd + 2 + j * 12) 2) ≠ 0x112
  tag : number little (window tiff (ifd + 2 + k * 12) 2) = 0x112
  short : number little (window tiff (ifd + 2 + k * 12 + 2) 2) = 3
  single : number little (window tiff (ifd + 2 + k * 12 + 4) 4) = 1
  value : number little (window tiff (ifd + 2 + k * 12 + 8) 2) = o
  orientation : 1 ≤ o ∧ o ≤ 8

section Entries

variable {tiff before after : Bytes} {little : Bool} {ifd count k o n left : Nat}

theorem getUint16_part {i : Nat} (h : i + 2 ≤ tiff.length) :
    getUint16 (before ++ (tiff ++ after)) (before.length + i) little =
      .ok (number little (window tiff i 2)) := getUint_part h

theorem getUint32_part {i : Nat} (h : i + 4 ≤ tiff.length) :
    getUint32 (before ++ (tiff ++ after)) (before.length + i) little =
      .ok (number little (window tiff i 4)) := getUint_part h

theorem entries_found (h : HoldsOrientation tiff little ifd count k o) (hn : n ≤ k)
    (hleft : n + left = count) :
    entries (before ++ (tiff ++ after)) little (before.length + ifd) left n = .ok (some o) := by
  have hcomplete := h.complete
  have hlt := h.lt
  induction left generalizing n with
  | zero => omega
  | succ left ih =>
    rw [entries]
    simp only [add_assoc before.length]
    simp (disch := omega) only [getUint16_part, getUint32_part, ok_bind]
    rcases hn.lt_or_eq with hbefore | rfl
    · rw [if_pos (h.first n hbefore)]
      exact ih (by omega) (by omega)
    · rw [if_neg (not_not_intro h.tag), if_neg (not_not_intro h.short),
        if_neg (not_not_intro h.single), h.value, if_pos h.orientation]
      rfl

end Entries

section Segments

variable {before after tiff : Bytes} {s : Segment}

theorem bytes_length (s : Segment) : s.bytes.length = s.payload.length + 4 := by
  simp only [Segment.bytes, Segment.header, List.length_append, List.length_cons, List.length_nil]
  omega

theorem window_payload (s : Segment) (i size : Nat) :
    window s.bytes (4 + i) size = window s.payload i size :=
  window_append_right s.header s.payload i size

theorem readMark : getUint8 (before ++ (s.bytes ++ after)) before.length = .ok 0xff := by
  have h : 0 + 1 ≤ s.bytes.length := by rw [bytes_length]; omega
  exact getUint_part h

theorem readMarker :
    getUint8 (before ++ (s.bytes ++ after)) (before.length + 1) = .ok s.marker.toNat := by
  have h : 1 + 1 ≤ s.bytes.length := by rw [bytes_length]; omega
  have hnumber : number false (window s.bytes 1 1) = s.marker.toNat := by
    simp [window, Segment.bytes, Segment.header, number]
  rw [← hnumber]
  exact getUint_part h

theorem readLength (hs : s.WellFormed) :
    getUint16 (before ++ (s.bytes ++ after)) (before.length + 2) false =
      .ok (s.payload.length + 2) := by
  have h : 2 + 2 ≤ s.bytes.length := by rw [bytes_length]; omega
  have hfits := hs.fits
  have hnumber : number false (window s.bytes 2 2) = s.payload.length + 2 := by
    simp only [window, Segment.bytes, Segment.header, number, List.cons_append, List.nil_append,
      List.drop_succ_cons, List.drop_zero, List.take_succ_cons, List.take_zero, List.foldl_cons,
      List.foldl_nil, UInt8.toNat_ofNat', Bool.false_eq_true, if_false]
    omega
  rw [← hnumber]
  exact getUint_part h

theorem turn_segment (hs : s.WellFormed) :
    turn (before ++ (s.bytes ++ after)) before.length = (do
      if (← signed (before ++ (s.bytes ++ after)) before.length s.marker.toNat
          (s.payload.length + 2)) = true then
        return .done (← exifOrientation (before ++ (s.bytes ++ after)) before.length
          (s.payload.length + 2) (before.length + 2 + (s.payload.length + 2)))
      else return .next (before ++ s.bytes).length) := by
  have hscan : ¬ (s.marker.toNat = 0xda ∨ s.marker.toNat = 0xd9) := by
    rintro (h | h)
    · exact hs.not_scan (UInt8.toNat_inj.mp h)
    · exact hs.not_final (UInt8.toNat_inj.mp h)
  have hbounds : ¬ (s.payload.length + 2 < 2 ∨
      (before ++ (s.bytes ++ after)).length < before.length + 2 + (s.payload.length + 2)) := by
    simp only [List.length_append, bytes_length]
    omega
  have hfinal : before.length + 2 + (s.payload.length + 2) = (before ++ s.bytes).length := by
    simp only [List.length_append, bytes_length]
    omega
  rw [turn, readMark, readMarker, readLength hs]
  simp only [ok_bind, ne_eq, not_true_eq_false, if_false, if_neg hscan, if_neg hbounds]
  rw [hfinal]

theorem take_six {payload : Bytes} :
    payload.take 6 = window payload 0 4 ++ window payload 4 2 := by
  rw [window, window, List.drop_zero, ← List.take_add]

theorem signature_iff {payload : Bytes} (h : 6 ≤ payload.length) :
    Segment.exifSignature <+: payload ↔
      window payload 0 4 = [0x45, 0x78, 0x69, 0x66] ∧ window payload 4 2 = [0, 0] := by
  rw [List.prefix_iff_eq_take]
  change [0x45, 0x78, 0x69, 0x66] ++ [0, 0] = payload.take 6 ↔ _
  rw [take_six]
  constructor
  · intro heq
    have hparts := List.append_inj heq.symm (length_window (by omega))
    exact hparts
  · rintro ⟨hfirst, hsecond⟩
    rw [hfirst, hsecond]

theorem readPayload32 {i : Nat} (h : i + 4 ≤ s.payload.length) :
    getUint32 (before ++ (s.bytes ++ after)) (before.length + (4 + i)) false =
      .ok (number false (window s.payload i 4)) := by
  rw [← window_payload]
  exact getUint32_part (by rw [bytes_length]; omega)

theorem readPayload16 {i : Nat} (h : i + 2 ≤ s.payload.length) :
    getUint16 (before ++ (s.bytes ++ after)) (before.length + (4 + i)) false =
      .ok (number false (window s.payload i 2)) := by
  rw [← window_payload]
  exact getUint16_part (by rw [bytes_length]; omega)

theorem signed_segment (before after : Bytes) (s : Segment) :
    ∃ b, signed (before ++ (s.bytes ++ after)) before.length s.marker.toNat
      (s.payload.length + 2) = .ok b ∧ (b = true ↔ s.IsExif) := by
  unfold signed
  split_ifs with hother
  · refine ⟨false, rfl, iff_of_false Bool.false_ne_true ?_⟩
    rintro ⟨hmarker, hsignature⟩
    rcases hother with hne | hshort
    · exact hne (by rw [hmarker]; rfl)
    · have := hsignature.length_le
      simp only [Segment.exifSignature, List.length_cons, List.length_nil] at this
      omega
  · rw [not_or, not_not, not_lt] at hother
    have hmarker : s.marker = 0xe1 := UInt8.toNat_inj.mp hother.1
    have hlong : 6 ≤ s.payload.length := by omega
    have hfirst : number false (window s.payload 0 4) = 0x45786966 ↔
        window s.payload 0 4 = [0x45, 0x78, 0x69, 0x66] :=
      ⟨fun h => number_inj (length_window (by omega)) (h.trans (by rfl)), fun h => by rw [h]; rfl⟩
    have hsecond : number false (window s.payload 4 2) = 0 ↔ window s.payload 4 2 = [0, 0] :=
      ⟨fun h => number_inj (length_window (by omega)) (h.trans (by rfl)), fun h => by rw [h]; rfl⟩
    rw [readPayload32 (i := 0) (by omega), ok_bind]
    split_ifs with hexif
    · refine ⟨false, rfl, iff_of_false Bool.false_ne_true fun h => hexif ?_⟩
      exact hfirst.mpr ((signature_iff hlong).mp h.2).1
    · rw [readPayload16 (i := 4) (by omega), ok_bind]
      refine ⟨_, rfl, ?_⟩
      rw [beq_iff_eq, hsecond, Segment.IsExif, signature_iff hlong]
      exact ⟨fun h => ⟨hmarker, hfirst.mp (not_not.mp hexif), h⟩, fun h => h.2.2⟩

end Segments

section Files

variable {before after tiff : Bytes} {s : Segment} {little : Bool} {ifd count k o : Nat}

theorem turn_passes (hs : s.WellFormed) (hexif : ¬ s.IsExif) :
    turn (before ++ (s.bytes ++ after)) before.length = .ok (.next (before ++ s.bytes).length) := by
  obtain ⟨b, hb, hsigned⟩ := signed_segment before after s
  have hfalse : b = false := Bool.eq_false_of_not_eq_true fun h => hexif (hsigned.mp h)
  rw [turn_segment hs, hb, hfalse]
  rfl

theorem HoldsOrientation.header (h : HoldsOrientation tiff little ifd count k o) :
    14 ≤ tiff.length := by
  have hcomplete := h.complete
  have hlt := h.lt
  omega

theorem HoldsOrientation.byteOrder (h : HoldsOrientation tiff little ifd count k o) :
    (number false (window tiff 0 2) == 0x4949) = little ∧
      ¬ (little = false ∧ number false (window tiff 0 2) ≠ 0x4d4d) := by
  rw [h.order]
  cases little with
  | false => exact ⟨rfl, fun hne => hne.2 rfl⟩
  | true => exact ⟨rfl, fun hne => Bool.noConfusion hne.1⟩

/-- The TIFF part that starts ten bytes into a segment is read in its own offsets. -/
theorem exifOrientation_tiff (h : HoldsOrientation tiff little ifd count k o) {p length : Nat}
    (hp : p + 10 = before.length) (hlength : length = tiff.length + 8) :
    exifOrientation (before ++ (tiff ++ after)) p length (p + 2 + length) = .ok (some o) := by
  have hheader := h.header
  have hcomplete := h.complete
  have hcount := h.count_le
  obtain ⟨horder, hknown⟩ := h.byteOrder
  have hstart : before.length = before.length + 0 := rfl
  have hifd : ¬ (before.length + ifd < before.length ∨ p + 2 + length < before.length + ifd + 2) := by
    omega
  have hentries : ¬ (1024 < count ∨ p + 2 + length < before.length + ifd + 2 + count * 12) := by
    omega
  have horderRead : getUint16 (before ++ (tiff ++ after)) before.length false =
      .ok (number false (window tiff 0 2)) := by
    have hread : 0 + 2 ≤ tiff.length := by omega
    exact getUint16_part hread
  rw [exifOrientation, if_neg (by omega), hp]
  simp only [horderRead, ok_bind, horder, if_neg hknown]
  simp (disch := omega) only [getUint16_part, getUint32_part, ok_bind]
  rw [h.magic, h.offset]
  simp (disch := omega) only [getUint16_part, ok_bind, if_neg hifd, h.entries, if_neg hentries]
  exact entries_found h (Nat.zero_le k) (Nat.zero_add count)

theorem turn_found (hs : s.WellFormed) (hmarker : s.marker = 0xe1)
    (hpayload : s.payload = Segment.exifSignature ++ tiff)
    (h : HoldsOrientation tiff little ifd count k o) :
    turn (before ++ (s.bytes ++ after)) before.length = .ok (.done (some o)) := by
  obtain ⟨b, hb, hsigned⟩ := signed_segment before after s
  have htrue : b = true := hsigned.mpr ⟨hmarker, hpayload ▸ List.prefix_append _ _⟩
  have hfile : before ++ (s.bytes ++ after) =
      (before ++ (s.header ++ Segment.exifSignature)) ++ (tiff ++ after) := by
    simp only [Segment.bytes, hpayload, List.append_assoc]
  have hread : exifOrientation (before ++ (s.bytes ++ after)) before.length
      (s.payload.length + 2) (before.length + 2 + (s.payload.length + 2)) = .ok (some o) := by
    rw [hfile]
    refine exifOrientation_tiff h ?_ ?_
    · simp [Segment.header, Segment.exifSignature]
    · simp [hpayload, Segment.exifSignature]
  rw [turn_segment hs, hb, htrue]
  simp only [ok_bind, if_true, hread]
  rfl

theorem walk_found {segments : List Segment}
    (hsegments : ∀ s ∈ segments, s.WellFormed ∧ ¬ s.IsExif) (hs : s.WellFormed)
    (hmarker : s.marker = 0xe1) (hpayload : s.payload = Segment.exifSignature ++ tiff)
    (h : HoldsOrientation tiff little ifd count k o) :
    walk (before ++ (segments.flatMap Segment.bytes ++ (s.bytes ++ after))) before.length =
      .ok (some o) := by
  induction segments generalizing before with
  | nil =>
    refine walk_done ?_ (turn_found hs hmarker hpayload h)
    simp [bytes_length]
    omega
  | cons first rest ih =>
    obtain ⟨hwell, hexif⟩ := hsegments first (List.mem_cons_self ..)
    have hfile : before ++ ((first :: rest).flatMap Segment.bytes ++ (s.bytes ++ after)) =
        before ++ (first.bytes ++ (rest.flatMap Segment.bytes ++ (s.bytes ++ after))) := by
      simp only [List.flatMap_cons, List.append_assoc]
    have hmore : walk ((before ++ first.bytes) ++
        (rest.flatMap Segment.bytes ++ (s.bytes ++ after))) (before ++ first.bytes).length =
          .ok (some o) := ih fun s' hs' => hsegments s' (List.mem_cons_of_mem _ hs')
    rw [hfile, walk_next ?_ (turn_passes hwell hexif), ← List.append_assoc, hmore]
    simp [bytes_length]
    omega

/-- Reading an orientation never leaves the file and gives none or one of 1 to 8; and the
orientation that the first EXIF segment of a JPEG holds is found, whatever stands before and
after the segment. -/
theorem jpegOrientation_reads :
    (∀ v : Bytes, ∃ r, jpegOrientation v = .ok r ∧ Oriented r) ∧
    ∀ (segments : List Segment) (s : Segment) (tiff rest : Bytes) (little : Bool)
      (ifd count k o : Nat), (∀ s ∈ segments, s.WellFormed ∧ ¬ s.IsExif) → s.WellFormed →
      s.marker = 0xe1 → s.payload = Segment.exifSignature ++ tiff →
      HoldsOrientation tiff little ifd count k o →
      jpegOrientation ([0xff, 0xd8] ++ (segments.flatMap Segment.bytes ++ (s.bytes ++ rest))) =
        .ok (some o) := by
  refine ⟨jpegOrientation_safe, fun segments s tiff rest little ifd count k o hsegments hs hmarker
    hpayload h => ?_⟩
  have hlong : ¬ ([0xff, 0xd8] ++ (segments.flatMap Segment.bytes ++ (s.bytes ++ rest)) :
      Bytes).length < 4 := by
    simp [bytes_length]
    omega
  have hstart : getUint16 ([0xff, 0xd8] ++ (segments.flatMap Segment.bytes ++ (s.bytes ++ rest)))
      0 false = .ok 0xffd8 := by
    rw [getUint16_ok (by omega)]
    rfl
  rw [jpegOrientation, if_neg hlong, hstart]
  change walk _ ([0xff, 0xd8] : Bytes).length = _
  exact walk_found hsegments hs hmarker hpayload h

def littleTiff : Bytes :=
  [0x49, 0x49, 42, 0, 8, 0, 0, 0, 2, 0,
    0x00, 0x01, 3, 0, 1, 0, 0, 0, 40, 0, 0, 0,
    0x12, 0x01, 3, 0, 1, 0, 0, 0, 6, 0, 0, 0]

theorem littleTiff_holds : HoldsOrientation littleTiff true 8 2 1 6 := by
  constructor <;> decide

theorem jpegOrientation_reads_six :
    jpegOrientation ([0xff, 0xd8] ++ (([⟨0xe0, [1, 2, 3]⟩] : List Segment).flatMap Segment.bytes ++
      ((⟨0xe1, Segment.exifSignature ++ littleTiff⟩ : Segment).bytes ++ [0xff, 0xda, 0, 2]))) =
        .ok (some 6) := by
  refine jpegOrientation_reads.2 [⟨0xe0, [1, 2, 3]⟩] ⟨0xe1, Segment.exifSignature ++ littleTiff⟩
    littleTiff [0xff, 0xda, 0, 2] true 8 2 1 6 ?_ (by constructor <;> decide) rfl rfl
    littleTiff_holds
  intro s hs
  obtain rfl := List.mem_singleton.mp hs
  exact ⟨by constructor <;> decide, fun h => absurd h.1 (by decide)⟩

end Files

end Noted.Orientation
