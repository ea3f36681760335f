import Noted.Library.Wrapping
import Noted.Validation

/-!
# Fax images of an uploaded PDF (internal/app/import_validation.go)

`ValidateImportBytes` looks at every stream of the PDF whose only filter is
`CCITTFaxDecode`. The integers of a dictionary are 64-bit numbers, and products of them
wrap. The Group 4 decoder is a parameter.
-/

namespace Noted.Ccitt

open Library Library.Wrapping

/-- A stream with the entries the check reads, and of its first filter the parameters. -/
structure StreamDict where
  soleFilter : Option Text
  width : Option Int64
  height : Option Int64
  k : Option Int64
  columns : Option Int64
  rows : Option Int64
  encodedByteAlign : Option Bool
  raw : Bytes

structure Decoded where
  bytes : Nat
  failed : Bool
  deriving DecidableEq

def copyLimited (limit : Int64) (reader : Decoded) : Int64 × Bool :=
  if (reader.bytes : Int) < limit.toInt then (Int64.ofInt reader.bytes, reader.failed)
  else (max limit 0, false)

variable (newReader : Bytes → Int64 → Int64 → Bool → Decoded)

section Check

def StreamDict.hasSoleFilterNamed (sd : StreamDict) (name : Text) : Bool :=
  sd.soleFilter = some name

def StreamDict.decodingColumns (sd : StreamDict) : Int64 := sd.columns.getD 1728

def StreamDict.decodingRows (sd : StreamDict) (h : Int64) : Int64 :=
  match sd.rows with
  | some value => if value ≠ 0 then value else h
  | none => h

def want (columns rows : Int64) : Int64 := (columns + 7) / 8 * rows

def validateGroup4 (sd : StreamDict) (h : Int64) : Except Error Unit := do
  let columns := sd.decodingColumns
  let rows := sd.decodingRows h
  refuse (columns ≤ 0 ∨ rows ≤ 0 ∨ 100000000 / rows < columns)
    (.invalid "PDF CCITT image must have supported decoding dimensions")
  let copied := copyLimited (want columns rows + 1)
    (newReader sd.raw columns rows (sd.encodedByteAlign.getD false))
  refuse (copied.2 = true ∨ copied.1 ≠ want columns rows)
    (.invalid "PDF must contain complete CCITT image data")

def StreamDict.group4 (sd : StreamDict) : Bool := sd.k.any (· < 0)

def validateCCITT (sd : StreamDict) : Except Error Unit := do
  let w ← demand sd.width (.invalid "PDF image must have supported dimensions")
  let h ← demand sd.height (.invalid "PDF image must have supported dimensions")
  refuse (w ≤ 0 ∨ h ≤ 0 ∨ 100000000 < w * h)
    (.invalid "PDF image must have supported dimensions")
  if sd.group4 = true then validateGroup4 newReader sd h else pure ()

def validateStreams : List StreamDict → Except Error Unit
  | [] => pure ()
  | sd :: table => do
    if sd.hasSoleFilterNamed "CCITTFaxDecode".toList then validateCCITT newReader sd
    validateStreams table

end Check

section Bounds

variable {newReader : Bytes → Int64 → Int64 → Bool → Decoded} {sd : StreamDict}
  {columns rows w h : Int64}

def imageBytes (columns rows : Int) : Int := (columns + 7) / 8 * rows

/-- A Group 4 image is decoded within the limit, and no number on the way wraps. -/
structure Group4Bounded (columns rows : Int64) : Prop where
  columns_pos : 0 < columns
  rows_pos : 0 < rows
  product : columns.toInt * rows.toInt ≤ 100000000
  padded : (columns + 7).toInt = columns.toInt + 7
  whole : (want columns rows).toInt = imageBytes columns.toInt rows.toInt
  limit : (want columns rows + 1).toInt = imageBytes columns.toInt rows.toInt + 1

structure DecodingBounded (sd : StreamDict) (w h : Int64) : Prop where
  width : sd.width = some w
  height : sd.height = some h
  width_pos : 0 < w
  heightpos : 0 < h
  product : w.toInt * h.toInt ≤ 100000000
  area : (w * h).toInt = w.toInt * h.toInt
  group4 : sd.group4 = true → Group4Bounded sd.decodingColumns (sd.decodingRows h)

structure Group4Complete (newReader : Bytes → Int64 → Int64 → Bool → Decoded) (sd : StreamDict)
    (h : Int64) : Prop where
  columns_pos : 0 < sd.decodingColumns
  rows_pos : 0 < sd.decodingRows h
  product : sd.decodingColumns.toInt * (sd.decodingRows h).toInt ≤ 100000000
  bytes : ((newReader sd.raw sd.decodingColumns (sd.decodingRows h)
    (sd.encodedByteAlign.getD false)).bytes : Int) =
      imageBytes sd.decodingColumns.toInt (sd.decodingRows h).toInt
  failed : (newReader sd.raw sd.decodingColumns (sd.decodingRows h)
    (sd.encodedByteAlign.getD false)).failed = false

/-- A size beyond the limit does not wrap below it, or the Group 4 check refuses the
image. -/
def DimensionsFit (newReader : Bytes → Int64 → Int64 → Bool → Decoded) (sd : StreamDict) : Prop :=
  ∀ w h, sd.width = some w → sd.height = some h → 0 < w → 0 < h →
    100000000 < w.toInt * h.toInt →
      100000000 < (w.toInt * h.toInt).bmod (2 ^ 64) ∨
        sd.group4 = true ∧ ¬ Group4Complete newReader sd h

theorem not_le_zero : ¬ w ≤ 0 ↔ 0 < w := by
  rw [Int64.le_iff_toInt_le, Int64.lt_iff_toInt_lt, not_le]

theorem imageBytes_le {columns rows : Int} (hcolumns : 0 < columns) (hrows : 0 < rows)
    (hproduct : columns * rows ≤ 100000000) :
    0 ≤ imageBytes columns rows ∧ imageBytes columns rows ≤ 100000000 := by
  constructor
  · exact mul_nonneg (by omega) hrows.le
  · calc (columns + 7) / 8 * rows
        ≤ columns * rows := mul_le_mul_of_nonneg_right (by omega) hrows.le
      _ ≤ 100000000 := hproduct

theorem group4Bounded (hcolumns : 0 < columns) (hrows : 0 < rows)
    (hproduct : columns.toInt * rows.toInt ≤ 100000000) : Group4Bounded columns rows := by
  have hc := toInt_pos hcolumns
  have hr := toInt_pos hrows
  have hcle : columns.toInt ≤ 100000000 := by nlinarith
  have hseven : (7 : Int64).toInt = 7 := rfl
  have height : (8 : Int64).toInt = 8 := rfl
  have hone : (1 : Int64).toInt = 1 := rfl
  have hpadded : (columns + 7).toInt = columns.toInt + 7 := by
    rw [toInt_add (by rw [hseven]; exact ⟨by omega, by omega⟩), hseven]
  have hdiv : ((columns + 7) / 8).toInt = (columns.toInt + 7) / 8 := by
    rw [toInt_div (by omega) (by omega), hpadded, height]
  have hbytes := imageBytes_le hc hr hproduct
  have hwant : (want columns rows).toInt = imageBytes columns.toInt rows.toInt := by
    rw [want, toInt_mul (by rw [hdiv]; exact ⟨by unfold imageBytes at hbytes; omega,
      by unfold imageBytes at hbytes; omega⟩), hdiv, imageBytes]
  refine ⟨hcolumns, hrows, hproduct, hpadded, hwant, ?_⟩
  rw [toInt_add (by rw [hwant, hone]; exact ⟨by omega, by omega⟩), hwant, hone]

theorem divided_limit (hrows : 0 < rows) :
    ¬ 100000000 / rows < columns ↔ columns.toInt * rows.toInt ≤ 100000000 := by
  have hr := toInt_pos hrows
  have hlimit : (100000000 : Int64).toInt = 100000000 := rfl
  rw [Int64.lt_iff_toInt_lt, toInt_div (by decide) hr.le, hlimit, not_lt,
    Int.le_ediv_iff_mul_le hr]

theorem copyLimited_complete {want : Int64} {reader : Decoded} (hwant : 0 ≤ want.toInt)
    (hlimit : (want + 1).toInt = want.toInt + 1) :
    ¬ ((copyLimited (want + 1) reader).2 = true ∨ (copyLimited (want + 1) reader).1 ≠ want) ↔
      (reader.bytes : Int) = want.toInt ∧ reader.failed = false := by
  have hfits := fits_toInt (want + 1)
  rw [hlimit] at hfits
  unfold copyLimited
  rw [hlimit]
  split_ifs with hshort
  · have hbytes : (Int64.ofInt reader.bytes).toInt = reader.bytes :=
      toInt_ofInt ⟨by omega, hshort.trans hfits.2⟩
    rw [not_or, not_ne_iff, Bool.not_eq_true, ← Int64.toInt_inj, hbytes, and_comm]
  · have hmax : max (want + 1) 0 = want + 1 := by
      change (if want + 1 ≤ 0 then 0 else want + 1) = want + 1
      rw [if_neg]
      rw [Int64.le_iff_toInt_le, hlimit]
      change ¬ want.toInt + 1 ≤ 0
      omega
    have hmore : want + 1 ≠ want := by
      intro h
      have := congrArg Int64.toInt h
      omega
    refine iff_of_false (fun h => h (Or.inr ?_)) fun h => ?_
    · rwa [hmax]
    · omega

theorem Group4Bounded.copied (hb : Group4Bounded columns rows) (reader : Decoded) :
    ¬ ((copyLimited (want columns rows + 1) reader).2 = true ∨
        (copyLimited (want columns rows + 1) reader).1 ≠ want columns rows) ↔
      (reader.bytes : Int) = imageBytes columns.toInt rows.toInt ∧ reader.failed = false := by
  have hnonneg := (imageBytes_le (toInt_pos hb.columns_pos) (toInt_pos hb.rows_pos) hb.product).1
  rw [copyLimited_complete (by rwa [hb.whole]) (by rw [hb.limit, hb.whole]), hb.whole]

theorem validateGroup4_ok :
    validateGroup4 newReader sd h = .ok () ↔ Group4Complete newReader sd h := by
  rw [validateGroup4, bind_eq_ok]
  simp only [refuse_eq_ok]
  constructor
  · rintro ⟨-, hdimensions, hcopy⟩
    rw [not_or, not_or, not_le_zero, not_le_zero] at hdimensions
    obtain ⟨hcolumns, hrows, hlimit⟩ := hdimensions
    have hproduct := (divided_limit hrows).mp hlimit
    obtain ⟨hbytes, hfailed⟩ := ((group4Bounded hcolumns hrows hproduct).copied _).mp hcopy
    exact ⟨hcolumns, hrows, hproduct, hbytes, hfailed⟩
  · intro hc
    have hb := group4Bounded hc.columns_pos hc.rows_pos hc.product
    refine ⟨⟨⟩, ?_, (hb.copied _).mpr ⟨hc.bytes, hc.failed⟩⟩
    rw [not_or, not_or, not_le_zero, not_le_zero]
    exact ⟨hc.columns_pos, hc.rows_pos, (divided_limit hc.rows_pos).mpr hc.product⟩

theorem area_le : ¬ 100000000 < w * h ↔ (w.toInt * h.toInt).bmod (2 ^ 64) ≤ 100000000 := by
  have hlimit : (100000000 : Int64).toInt = 100000000 := rfl
  rw [Int64.lt_iff_toInt_lt, not_lt, Int64.toInt_mul, hlimit]

theorem validateCCITT_ok :
    validateCCITT newReader sd = .ok () ↔ ∃ w h, sd.width = some w ∧ sd.height = some h ∧
      0 < w ∧ 0 < h ∧ (w.toInt * h.toInt).bmod (2 ^ 64) ≤ 100000000 ∧
        (sd.group4 = true → Group4Complete newReader sd h) := by
  simp only [validateCCITT, bind_eq_ok, demand_eq_ok, refuse_eq_ok, not_or, not_le_zero, area_le]
  constructor
  · rintro ⟨w, hw, h, hh, -, ⟨hwpos, hhpos, harea⟩, hgroup4⟩
    refine ⟨w, h, hw, hh, hwpos, hhpos, harea, fun hk => ?_⟩
    rw [if_pos hk] at hgroup4
    exact validateGroup4_ok.mp hgroup4
  · rintro ⟨w, h, hw, hh, hwpos, hhpos, harea, hgroup4⟩
    refine ⟨w, hw, h, hh, ⟨⟩, ⟨hwpos, hhpos, harea⟩, ?_⟩
    split_ifs with hk
    · exact validateGroup4_ok.mpr (hgroup4 hk)
    · rfl

theorem decodingBounded_of_fit (hfit : DimensionsFit newReader sd)
    (haccepted : validateCCITT newReader sd = .ok ()) : ∃ w h, DecodingBounded sd w h := by
  obtain ⟨w, h, hw, hh, hwpos, hhpos, harea, hgroup4⟩ := validateCCITT_ok.mp haccepted
  have hproduct : w.toInt * h.toInt ≤ 100000000 := by
    by_contra hlarge
    rcases hfit w h hw hh hwpos hhpos (not_le.mp hlarge) with hwrapped | ⟨hk, hrefused⟩
    · exact absurd harea (not_le.mpr hwrapped)
    · exact hrefused (hgroup4 hk)
  have hnonneg : 0 < w.toInt * h.toInt := mul_pos (toInt_pos hwpos) (toInt_pos hhpos)
  refine ⟨w, h, hw, hh, hwpos, hhpos, hproduct, toInt_mul ⟨by omega, by omega⟩, fun hk => ?_⟩
  have hc := hgroup4 hk
  exact group4Bounded hc.columns_pos hc.rows_pos hc.product

/-- The limits hold of what the check accepts exactly when no accepted size wraps. -/
theorem decodingBounded_iff (newReader : Bytes → Int64 → Int64 → Bool → Decoded)
    (sd : StreamDict) :
    (validateCCITT newReader sd = .ok () → ∃ w h, DecodingBounded sd w h) ↔
      DimensionsFit newReader sd := by
  refine ⟨fun hbounded w h hw hh hwpos hhpos hlarge => ?_, decodingBounded_of_fit⟩
  by_contra hwraps
  rw [not_or, not_lt, not_and, not_not] at hwraps
  obtain ⟨w', h', hb⟩ :=
    hbounded (validateCCITT_ok.mpr ⟨w, h, hw, hh, hwpos, hhpos, hwraps.1, hwraps.2⟩)
  obtain rfl : w = w' := Option.some.inj (hw.symm.trans hb.width)
  obtain rfl : h = h' := Option.some.inj (hh.symm.trans hb.height)
  exact absurd hb.product (not_le.mpr hlarge)

/-- A size of 2^32 by 2^32 wraps to nothing. -/
theorem not_decodingBounded_wrapped : ∃ sd : StreamDict,
    validateCCITT (fun _ _ _ _ => ⟨0, false⟩) sd = .ok () ∧ ¬ ∃ w h, DecodingBounded sd w h := by
  refine ⟨⟨some "CCITTFaxDecode".toList, some 4294967296, some 4294967296, none, none, none, none,
    []⟩, by decide, ?_⟩
  rintro ⟨w, h, hb⟩
  obtain rfl : 4294967296 = w := Option.some.inj hb.width
  obtain rfl : 4294967296 = h := Option.some.inj hb.height
  exact absurd hb.product (by decide)

end Bounds

section Streams

variable {newReader : Bytes → Int64 → Int64 → Bool → Decoded} {table : List StreamDict}

theorem validateStreams_bounded (haccepted : validateStreams newReader table = .ok ()) :
    ∀ sd ∈ table, sd.hasSoleFilterNamed "CCITTFaxDecode".toList = true →
      DimensionsFit newReader sd → ∃ w h, DecodingBounded sd w h := by
  induction table with
  | nil => simp
  | cons sd table ih =>
    have hboth : (sd.hasSoleFilterNamed "CCITTFaxDecode".toList = true →
        validateCCITT newReader sd = .ok ()) ∧ validateStreams newReader table = .ok () := by
      rw [validateStreams] at haccepted
      split_ifs at haccepted with hfilter
      · obtain ⟨_, hfirst, hrest⟩ := bind_eq_ok.mp haccepted
        exact ⟨fun _ => hfirst, hrest⟩
      · exact ⟨fun h => absurd h hfilter, haccepted⟩
    intro sd' hmem hfilter hfit
    rcases List.mem_cons.mp hmem with rfl | htable
    · exact decodingBounded_of_fit hfit (hboth.1 hfilter)
    · exact ih hboth.2 sd' htable hfilter hfit

end Streams

end Noted.Ccitt
