import Mathlib.Data.Rat.Floor
import Mathlib.Data.Rat.Cast.CharZero
import Noted.Library.Json
import Noted.Manifests
import Noted.Prepare.Layout

/-!
# The key of a prepared page (prepare-processing.ts)

`preparedPhotoKey` is the text under which a prepared photo page is kept for the next
build. Numbers are exact; the ones that the server accepts are far below 10²¹, so that
none is written with an exponent.
-/

namespace Noted.Layout

variable {K : Type*} (F : Type*) [Field F]

def Margins.list (m : Margins K) : List K := [m.top, m.right, m.bottom, m.left]

def Edges.list (e : Edges K) : List K := [e.left, e.top, e.right, e.bottom]

theorem Margins.list_inj {m n : Margins K} (h : m.list = n.list) : m = n := by
  cases m
  cases n
  simpa [Margins.list] using h

theorem Edges.list_inj {e f : Edges K} (h : e.list = f.list) : e = f := by
  cases e
  cases f
  simpa [Edges.list] using h

def Margins.over (m : Margins ℚ) : Margins F := ⟨m.top, m.right, m.bottom, m.left⟩

def Edges.over (e : Edges ℚ) : Edges F := ⟨e.left, e.top, e.right, e.bottom⟩

def PageEdit.over (edit : PageEdit ℚ) : PageEdit F where
  fitEdges := edit.fitEdges
  margins := edit.margins.map (Margins.over F)
  angle := edit.angle.map fun x : ℚ => (x : F)
  rotation := edit.rotation
  outputWidth := edit.outputWidth.map fun x : ℚ => (x : F)
  outputHeight := edit.outputHeight.map fun x : ℚ => (x : F)
  scale := edit.scale.map fun x : ℚ => (x : F)
  x := edit.x.map fun x : ℚ => (x : F)
  y := edit.y.map fun x : ℚ => (x : F)
  crop := edit.crop.map (Edges.over F)

theorem marginsOrNone_over (edit : PageEdit ℚ) :
    (edit.over F).marginsOrNone = Margins.over F edit.marginsOrNone := by
  unfold PageEdit.marginsOrNone PageEdit.over
  cases edit.margins <;> simp [Margins.over]

/-- Edits that differ at most in how they write what `pageLayout` reads. -/
structure SameReading (edit edit' : PageEdit ℚ) : Prop where
  fitEdges : edit.fitEdges = edit'.fitEdges
  margins : edit.marginsOrNone = edit'.marginsOrNone
  angle : edit.angle.getD 0 = edit'.angle.getD 0
  rotation : edit.rotation.getD 0 = edit'.rotation.getD 0
  canvas : edit.fitEdges = false → edit.outputWidth.getD 0 = edit'.outputWidth.getD 0 ∧
    edit.outputHeight.getD 0 = edit'.outputHeight.getD 0
  scale : edit.fitEdges = false → orElse edit.scale 1 = orElse edit'.scale 1
  offset : edit.fitEdges = false → edit.x.getD 0 = edit'.x.getD 0 ∧
    edit.y.getD 0 = edit'.y.getD 0

section Reading

variable {F} [LinearOrder F] [IsStrictOrderedRing F] {edit edit' : PageEdit ℚ}

theorem orElse_over (value : Option ℚ) (fallback : F) :
    orElse (value.map fun x : ℚ => (x : F)) fallback =
      if value.getD 0 = 0 then fallback else ((value.getD 0 : ℚ) : F) := by
  cases value with
  | none => simp [orElse]
  | some x => simp [orElse]

theorem orElse_eq (value : Option ℚ) (fallback : ℚ) :
    orElse value fallback = if value.getD 0 = 0 then fallback else value.getD 0 := by
  cases value with
  | none => simp [orElse]
  | some x => simp [orElse]

theorem orElse_scale (value : Option ℚ) :
    orElse (value.map fun x : ℚ => (x : F)) 1 = ((orElse value 1 : ℚ) : F) := by
  rw [orElse_over, orElse_eq]
  split <;> simp

theorem SameReading.pageLayout_eq (h : SameReading edit edit') (T : Trig F) (width height : F) :
    pageLayout T width height (edit.over F) = pageLayout T width height (edit'.over F) := by
  have hmargins : (edit.over F).marginsOrNone = (edit'.over F).marginsOrNone := by
    rw [marginsOrNone_over, marginsOrNone_over, h.margins]
  have hangle : orElse (edit.over F).angle 0 = orElse (edit'.over F).angle 0 := by
    simp only [PageEdit.over, orElse_over, h.angle]
  have hrotation : (edit.over F).rotation.getD 0 = (edit'.over F).rotation.getD 0 := h.rotation
  have hdegrees : (edit.over F).degrees = (edit'.over F).degrees := by
    rw [PageEdit.degrees, PageEdit.degrees, hangle, hrotation]
  have hfit : (edit.over F).fitEdges = (edit'.over F).fitEdges := h.fitEdges
  cases hfitted : edit'.fitEdges with
  | true =>
    have hleft : (edit.over F).fitEdges = true := hfit.trans hfitted
    have hright : (edit'.over F).fitEdges = true := hfitted
    simp only [pageLayout, hleft, hright, hmargins, hdegrees, hrotation, if_true]
  | false =>
    have hleft : (edit.over F).fitEdges = false := hfit.trans hfitted
    have hright : (edit'.over F).fitEdges = false := hfitted
    obtain ⟨hwidth, hheight⟩ := h.canvas hleft
    obtain ⟨hx, hy⟩ := h.offset hleft
    have hscale := h.scale hleft
    have hcanvas : ∀ w : F,
        orElse (edit.over F).outputWidth w = orElse (edit'.over F).outputWidth w := by
      intro w
      simp only [PageEdit.over, orElse_over, hwidth]
    have hcanvas' : ∀ w : F,
        orElse (edit.over F).outputHeight w = orElse (edit'.over F).outputHeight w := by
      intro w
      simp only [PageEdit.over, orElse_over, hheight]
    have hoffset : orElse (edit.over F).x 0 = orElse (edit'.over F).x 0 ∧
        orElse (edit.over F).y 0 = orElse (edit'.over F).y 0 := by
      simp only [PageEdit.over, orElse_over, hx, hy, and_self]
    have hscaled : orElse (edit.over F).scale 1 = orElse (edit'.over F).scale 1 := by
      simp only [PageEdit.over, orElse_scale, hscale]
    simp only [pageLayout, hleft, hright, hmargins, hdegrees, hrotation, hcanvas, hcanvas',
      hoffset.1, hoffset.2, hscaled]

end Reading

end Noted.Layout

namespace Noted.Prepare

open Library.Json (Decimal Value stringify)
open Layout (Edges Margins Trig orElse pageLayout)

abbrev Fixed := Decimal 6

section Key

structure ImportAsset where
  id : Id
  checksum : Text
  mime : Text

/-- A `PageEdit` as the browser keeps it; `none` is an absent field. `PhotoEdit.sent` is the
`PageEdit` that the server then reads. -/
structure PhotoEdit extends Layout.PageEdit ℚ where
  id : Text
  sourceId : Id
  page : Int
  paperCleanupStrength : Option ℚ
  paperCleanup : Bool
  corners : Option (List (List ℚ))

def fixed (n : Int) : Fixed := ⟨n * 10 ^ 6⟩

def toFixed (value : ℚ) : Fixed where
  units := if value < 0 then -⌊-value * 10 ^ 6 + 1 / 2⌋ else ⌊value * 10 ^ 6 + 1 / 2⌋

def finite (value : Option ℚ) (fallback : Fixed) : Fixed := (value.map toFixed).getD fallback

def vector (value : Option (List ℚ)) (fallback : List Fixed) : List Fixed :=
  fallback.mapIdx fun index item => finite (value.bind fun v => v[index]?) item

def points (value : Option (List (List ℚ))) : List (List Fixed) :=
  (value.getD []).map fun point => [finite point[0]? (fixed 0), finite point[1]? (fixed 0)]

def cleanupStrength (edit : PhotoEdit) : ℚ :=
  edit.paperCleanupStrength.getD (if edit.paperCleanup then 1 else 0)

/-- `((finite(edit.rotation) % 360) + 360) % 360` -/
def keyRotation (rotation : Option Int) : Fixed :=
  let turn := (fixed 360).units
  let r := (finite (rotation.map fun r : Int => (r : ℚ)) (fixed 0)).units
  ⟨(r.tmod turn + turn).tmod turn⟩

def numbers (values : List Fixed) : Value Fixed := .list (values.map .number)

def keyValue (source : ImportAsset) (edit : PhotoEdit) : Value Fixed :=
  let strength := cleanupStrength edit
  let rotation := keyRotation edit.rotation
  let fitEdges := edit.fitEdges
  .list [
    .text "prepared-photo-v1".toList,
    .text source.checksum,
    .text source.mime,
    .number (fixed edit.page),
    .number (finite (some strength) (fixed 0)),
    .number rotation,
    .number (finite edit.angle (fixed 0)),
    .number (if fitEdges then fixed 0 else finite edit.x (fixed 0)),
    .number (if fitEdges then fixed 0 else finite edit.y (fixed 0)),
    .number (if fitEdges then fixed 1 else finite (some (orElse edit.scale 1)) (fixed 0)),
    .flag fitEdges,
    numbers (vector (edit.margins.map Margins.list) [fixed 0, fixed 0, fixed 0, fixed 0]),
    numbers (vector (edit.crop.map Edges.list) [fixed 0, fixed 0, fixed 1, fixed 1]),
    .list ((points edit.corners).map numbers),
    .number (if fitEdges then fixed 0 else finite edit.outputWidth (fixed 0)),
    .number (if fitEdges then fixed 0 else finite edit.outputHeight (fixed 0))]

def preparedPhotoKey (source : ImportAsset) (edit : PhotoEdit) : Text :=
  stringify Decimal.text (keyValue source edit)

end Key

section Accepted

def SixDecimals (x : ℚ) : Prop := ∃ n : Int, x = n / 10 ^ 6

def PhotoEdit.numbers (edit : PhotoEdit) : List ℚ :=
  edit.angle.toList ++ edit.x.toList ++ edit.y.toList ++ edit.scale.toList ++
    edit.outputWidth.toList ++ edit.outputHeight.toList ++ edit.paperCleanupStrength.toList ++
    (edit.margins.map Margins.list).getD [] ++ (edit.crop.map Edges.list).getD [] ++
    (edit.corners.getD []).flatten

def PhotoEdit.sent (edit : PhotoEdit) : Noted.PageEdit where
  margins := (edit.margins.map Margins.list).getD []
  fitEdges := edit.fitEdges
  paperCleanupStrength := edit.paperCleanupStrength
  paperCleanup := edit.paperCleanup
  id := edit.id
  sourceId := edit.sourceId
  page := edit.page
  angle := edit.angle.getD 0
  rotation := edit.rotation.getD 0
  outputWidth := edit.outputWidth.getD 0
  outputHeight := edit.outputHeight.getD 0
  scale := edit.scale.getD 0
  x := edit.x.getD 0
  y := edit.y.getD 0
  crop := (edit.crop.map Edges.list).getD []
  corners := edit.corners.getD []

/-- An edit that the server accepts for some source, with six decimals at most. -/
structure Accepted (edit : PhotoEdit) : Prop where
  adjusted : ∃ a, edit.sent.Adjusted a
  decimals : ∀ x ∈ edit.numbers, SixDecimals x

end Accepted

section Numbers

def Fixed.value (x : Fixed) : ℚ := x.units / 10 ^ 6

variable {value value' : Option ℚ} {fallback : Fixed} {x : ℚ}

theorem toFixed_millionths (n : Int) : toFixed (n / 10 ^ 6) = ⟨n⟩ := by
  have hhalf : ⌊(1 / 2 : ℚ)⌋ = 0 := by norm_num
  have hsize : ∀ m : Int, ⌊(m : ℚ) + 1 / 2⌋ = m := by
    intro m
    rw [Int.floor_intCast_add, hhalf, add_zero]
  have hpos : (n : ℚ) / 10 ^ 6 * 10 ^ 6 = n := by norm_num
  have hneg : -((n : ℚ) / 10 ^ 6) * 10 ^ 6 = ((-n : Int) : ℚ) := by
    push_cast
    norm_num
  simp only [toFixed, hpos, hneg, hsize, neg_neg, ite_self]

theorem value_toFixed (h : SixDecimals x) : (toFixed x).value = x := by
  obtain ⟨n, rfl⟩ := h
  rw [toFixed_millionths]
  rfl

theorem value_finite (h : ∀ x ∈ value, SixDecimals x) :
    (finite value fallback).value = value.getD fallback.value := by
  cases value with
  | none => rfl
  | some x => exact value_toFixed (h x rfl)

theorem finite_inj (h : ∀ x ∈ value, SixDecimals x) (h' : ∀ x ∈ value', SixDecimals x)
    (heq : finite value fallback = finite value' fallback) :
    value.getD fallback.value = value'.getD fallback.value := by
  rw [← value_finite h, ← value_finite h', heq]

theorem finite_some_inj {y : ℚ} (hx : SixDecimals x) (hy : SixDecimals y)
    (heq : finite (some x) fallback = finite (some y) fallback) : x = y := by
  have heq : toFixed x = toFixed y := heq
  rw [← value_toFixed hx, ← value_toFixed hy, heq]

theorem value_fixed (n : Int) : (fixed n).value = n := by
  have hunits : (((n * 10 ^ 6 : Int) : ℚ)) / 10 ^ 6 = n := by
    push_cast
    norm_num
  exact hunits

theorem finite_whole (r : Option Int) :
    finite (r.map fun r : Int => (r : ℚ)) (fixed 0) = fixed (r.getD 0) := by
  cases r with
  | none => rfl
  | some n =>
    have hn : ((n : Int) : ℚ) = ((n * 10 ^ 6 : Int) : ℚ) / 10 ^ 6 := (value_fixed n).symm
    simp only [finite, Option.map_some, Option.getD_some, hn, toFixed_millionths, fixed]

theorem keyRotation_eq {r : Option Int} (hr : 0 ≤ r.getD 0 ∧ r.getD 0 ≤ 270) :
    keyRotation r = fixed (r.getD 0) := by
  rw [keyRotation, finite_whole]
  generalize r.getD 0 = n at hr
  obtain ⟨hlow, hhigh⟩ := hr
  have hturn : (fixed 360).units = 360000000 := rfl
  have hunits : (fixed n).units = n * 1000000 := rfl
  have honce : (n * 1000000).tmod 360000000 = n * 1000000 :=
    Int.tmod_eq_of_lt (by omega) (by omega)
  have htwice : (n * 1000000 + 360000000).tmod 360000000 = n * 1000000 := by
    rw [Int.tmod_eq_emod_of_nonneg (by omega)]
    omega
  simp only [hturn, hunits, honce, htwice]
  rfl

theorem value_vector {values : Option (List ℚ)} {fallback : List Fixed}
    (hlength : ∀ v ∈ values, v.length = fallback.length)
    (hsix : ∀ v ∈ values, ∀ x ∈ v, SixDecimals x) :
    (vector values fallback).map Fixed.value = values.getD (fallback.map Fixed.value) := by
  cases values with
  | none =>
    apply List.ext_getElem
    · simp [vector]
    · intro i h₁ h₂
      simp [vector, finite]
  | some v =>
    have hv := hlength v rfl
    apply List.ext_getElem
    · simp [vector, hv]
    · intro i h₁ h₂
      have hi : i < v.length := by simpa [vector, hv] using h₁
      have hmem := hsix v rfl v[i] (List.getElem_mem hi)
      simp [vector, finite, hi, value_toFixed hmem]

theorem value_points {corners : Option (List (List ℚ))}
    (hlength : ∀ point ∈ corners.getD [], point.length = 2)
    (hsix : ∀ point ∈ corners.getD [], ∀ x ∈ point, SixDecimals x) :
    (points corners).map (fun point => point.map Fixed.value) = corners.getD [] := by
  rw [points, List.map_map]
  refine (List.map_congr_left ?_).trans (List.map_id _)
  intro point hpoint
  obtain ⟨x, y, rfl⟩ := List.length_eq_two.mp (hlength point hpoint)
  have hx := hsix _ hpoint x (by simp)
  have hy := hsix _ hpoint y (by simp)
  simp [finite, value_toFixed hx, value_toFixed hy]

theorem numbers_inj {xs ys : List Fixed} (h : numbers xs = numbers ys) : xs = ys :=
  List.map_injective_iff.mpr (fun _ _ h => Value.number.inj h) (Value.list.inj h)

end Numbers

section Reuse

/-- What `build` takes from an edit. -/
structure SameBuild (edit edit' : PhotoEdit) : Prop where
  /-- The photo's corners and the ink check ask for it. -/
  fitEdges : edit.fitEdges = edit'.fitEdges
  strength : cleanupStrength edit = cleanupStrength edit'
  corners : edit.corners.getD [] = edit'.corners.getD []
  crop : edit.edges = edit'.edges
  layout : ∀ (F : Type) [Field F] [LinearOrder F] [IsStrictOrderedRing F] (T : Trig F)
    (width height : F),
    pageLayout T width height (edit.over F) = pageLayout T width height (edit'.over F)

variable {source source' : ImportAsset} {edit edit' : PhotoEdit}

theorem preparedPhotoKey_inj (h : preparedPhotoKey source edit = preparedPhotoKey source' edit') :
    keyValue source edit = keyValue source' edit' :=
  Library.Json.stringify_injective (Library.Json.prints_text (by omega)) h

theorem Accepted.rotation (h : Accepted edit) :
    0 ≤ edit.rotation.getD 0 ∧ edit.rotation.getD 0 ≤ 270 := by
  obtain ⟨a, ha⟩ := h.adjusted
  exact ha.rotation.2

theorem Accepted.corner (h : Accepted edit) :
    ∀ point ∈ edit.corners.getD [], point.length = 2 := by
  obtain ⟨a, ha⟩ := h.adjusted
  intro point hpoint
  have hne : edit.sent.corners ≠ [] := List.ne_nil_of_mem hpoint
  exact ((ha.corners hne).2.points point hpoint).1

theorem sixDecimals_int (n : Int) : SixDecimals n := ⟨n * 10 ^ 6, by push_cast; norm_num⟩

theorem Accepted.optional (h : Accepted edit) {value : Option ℚ}
    (hvalue : value ∈ [edit.angle, edit.x, edit.y, edit.outputWidth, edit.outputHeight]) :
    ∀ x ∈ value, SixDecimals x := by
  intro x hx
  have hsome : value = some x := hx
  simp only [List.mem_cons, List.not_mem_nil, or_false] at hvalue
  obtain rfl | rfl | rfl | rfl | rfl := hvalue <;>
    exact h.decimals x (by simp [PhotoEdit.numbers, hsome])

theorem Accepted.strength (h : Accepted edit) : SixDecimals (cleanupStrength edit) := by
  unfold cleanupStrength
  cases hstrength : edit.paperCleanupStrength with
  | some x => exact h.decimals x (by simp [PhotoEdit.numbers, hstrength])
  | none =>
    cases edit.paperCleanup
    · exact sixDecimals_int 0
    · exact sixDecimals_int 1

theorem Accepted.scale (h : Accepted edit) : SixDecimals (orElse edit.scale 1) := by
  rw [Layout.orElse_eq]
  split
  · exact sixDecimals_int 1
  · cases hscale : edit.scale with
    | none => exact sixDecimals_int 0
    | some x => exact h.decimals x (by simp [PhotoEdit.numbers, hscale])

theorem fixed_inj {m n : Int} (h : fixed m = fixed n) : m = n := by
  have hvalue : (m : ℚ) = n := by rw [← value_fixed m, ← value_fixed n, h]
  exact_mod_cast hvalue

theorem margins_list (m : Option (Margins ℚ)) :
    (m.map Margins.list).getD [0, 0, 0, 0] = Margins.list (m.getD ⟨0, 0, 0, 0⟩) := by
  cases m <;> rfl

theorem crop_list (e : Option (Edges ℚ)) :
    (e.map Edges.list).getD [0, 0, 1, 1] = Edges.list (e.getD ⟨0, 0, 1, 1⟩) := by
  cases e <;> rfl

theorem Accepted.margins (h : Accepted edit) :
    (vector (edit.margins.map Margins.list) [fixed 0, fixed 0, fixed 0, fixed 0]).map Fixed.value =
      Margins.list edit.marginsOrNone := by
  rw [value_vector, List.map_cons, List.map_cons, List.map_cons, List.map_singleton, value_fixed]
  · exact margins_list edit.margins
  · intro v hv
    obtain ⟨m, -, rfl⟩ := Option.map_eq_some_iff.mp hv
    rfl
  · intro v hv x hx
    have hlist : edit.margins.map Margins.list = some v := hv
    exact h.decimals x (by simp [PhotoEdit.numbers, hlist, hx])

theorem Accepted.crop (h : Accepted edit) :
    (vector (edit.crop.map Edges.list) [fixed 0, fixed 0, fixed 1, fixed 1]).map Fixed.value =
      Edges.list edit.edges := by
  rw [value_vector, List.map_cons, List.map_cons, List.map_cons, List.map_singleton, value_fixed,
    value_fixed]
  · exact crop_list edit.crop
  · intro v hv
    obtain ⟨e, -, rfl⟩ := Option.map_eq_some_iff.mp hv
    rfl
  · intro v hv x hx
    have hlist : edit.crop.map Edges.list = some v := hv
    exact h.decimals x (by simp [PhotoEdit.numbers, hlist, hx])

theorem Accepted.points (h : Accepted edit) :
    (points edit.corners).map (fun point => point.map Fixed.value) = edit.corners.getD [] := by
  refine value_points h.corner ?_
  intro point hpoint x hx
  have hflat : x ∈ (edit.corners.getD []).flatten := List.mem_flatten.mpr ⟨point, hpoint, hx⟩
  exact h.decimals x (List.mem_append_right _ hflat)

/-- An accepted edit's key keeps everything that the page is built from. -/
theorem sameBuild_of_key (h : Accepted edit) (h' : Accepted edit')
    (hkey : keyValue source edit = keyValue source' edit') :
    source.checksum = source'.checksum ∧ source.mime = source'.mime ∧ edit.page = edit'.page ∧
      SameBuild edit edit' := by
  simp only [keyValue, Value.list.injEq, List.cons.injEq, Value.text.injEq, Value.number.injEq,
    Value.flag.injEq, true_and, and_true] at hkey
  obtain ⟨hchecksum, hmime, hpage, hstrength, hrotation, hangle, hx, hy, hscale, hfit, hmargins,
    hcrop, hcorners, hwidth, hheight⟩ := hkey
  have hread : ∀ {value value' : Option ℚ},
      value ∈ [edit.angle, edit.x, edit.y, edit.outputWidth, edit.outputHeight] →
      value' ∈ [edit'.angle, edit'.x, edit'.y, edit'.outputWidth, edit'.outputHeight] →
      finite value (fixed 0) = finite value' (fixed 0) → value.getD 0 = value'.getD 0 := by
    intro value value' hvalue hvalue' heq
    have hzero := finite_inj (h.optional hvalue) (h'.optional hvalue') heq
    rwa [value_fixed, Int.cast_zero] at hzero
  have hreading : Layout.SameReading edit.toPageEdit edit'.toPageEdit := by
    refine ⟨hfit, ?_, hread (by simp) (by simp) hangle, ?_, ?_, ?_, ?_⟩
    · exact Layout.Margins.list_inj
        (by rw [← h.margins, ← h'.margins, numbers_inj hmargins])
    · rw [keyRotation_eq h.rotation, keyRotation_eq h'.rotation] at hrotation
      exact fixed_inj hrotation
    all_goals
      intro hfitted
      have hfitted' : edit'.fitEdges = false := hfit.symm.trans hfitted
      simp only [hfitted, hfitted', Bool.false_eq_true, if_false] at hx hy hscale hwidth hheight
    · exact ⟨hread (by simp) (by simp) hwidth, hread (by simp) (by simp) hheight⟩
    · exact finite_some_inj h.scale h'.scale hscale
    · exact ⟨hread (by simp) (by simp) hx, hread (by simp) (by simp) hy⟩
  refine ⟨hchecksum, hmime, fixed_inj hpage, hfit, ?_, ?_, ?_, ?_⟩
  · exact finite_some_inj h.strength h'.strength hstrength
  · have hlists := List.map_injective_iff.mpr (fun _ _ h => numbers_inj h) hcorners
    rw [← h.points, ← h'.points, hlists]
  · exact Layout.Edges.list_inj (by rw [← h.crop, ← h'.crop, numbers_inj hcrop])
  · intro F _ _ _ T width height
    exact hreading.pageLayout_eq T width height

/-- A prepared page that its key finds was built from the same content with the same
result; the ids in the source and the edit are not in the key. -/
theorem preparedPhotoKey_determines (h : Accepted edit) (h' : Accepted edit') :
    (preparedPhotoKey source edit = preparedPhotoKey source' edit' →
      source.checksum = source'.checksum ∧ source.mime = source'.mime ∧
        edit.page = edit'.page ∧ SameBuild edit edit') ∧
    (∀ (assetId : Id) (pageId : Text) (sourceId : Id),
      preparedPhotoKey { source with id := assetId }
          { edit with id := pageId, sourceId := sourceId } =
        preparedPhotoKey source edit) ∧
    (¬SameBuild edit edit' →
      preparedPhotoKey source edit ≠ preparedPhotoKey source' edit') := by
  have hkey : preparedPhotoKey source edit = preparedPhotoKey source' edit' →
      source.checksum = source'.checksum ∧ source.mime = source'.mime ∧
        edit.page = edit'.page ∧ SameBuild edit edit' :=
    fun heq => sameBuild_of_key h h' (preparedPhotoKey_inj heq)
  exact ⟨hkey, fun _ _ _ => rfl, fun hdiffers heq => hdiffers (hkey heq).2.2.2⟩

def turnedPhoto (paperCleanupStrength : Option ℚ) (paperCleanup : Bool) : PhotoEdit where
  fitEdges := false
  margins := none
  angle := none
  rotation := some 90
  outputWidth := none
  outputHeight := none
  scale := none
  x := none
  y := none
  crop := some ⟨0, 0, 1 / 2, 1⟩
  id := "page".toList
  sourceId := 1
  page := 0
  paperCleanupStrength := paperCleanupStrength
  paperCleanup := paperCleanup
  corners := none

theorem accepted_turnedPhoto {paperCleanupStrength : Option ℚ}
    (h : ∀ x ∈ paperCleanupStrength, x = 1) (paperCleanup : Bool) :
    Accepted (turnedPhoto paperCleanupStrength paperCleanup) := by
  have hcrop : CropBox [0, 0, 1 / 2, 1] := ⟨rfl, by decide +kernel, by norm_num, by norm_num⟩
  have hstrength : ∀ x ∈ paperCleanupStrength, 0 ≤ x ∧ x ≤ 1 := by
    intro x hx
    rw [h x hx]
    norm_num
  refine ⟨⟨⟨1, 1, 0, [], .jpeg, 0, [], 1, 0, 0, 0⟩, ?_⟩, ?_⟩
  · constructor
    case crop => exact fun _ => hcrop
    case strength => exact hstrength
    all_goals simp [PhotoEdit.sent, turnedPhoto]
  · intro x hx
    simp only [PhotoEdit.numbers, turnedPhoto, Option.toList_none, List.nil_append, Option.map_none,
      Option.getD_none, List.append_nil, Option.map_some, Option.getD_some, List.flatten_nil,
      Edges.list, List.mem_append, Option.mem_toList, List.mem_cons, List.not_mem_nil,
      or_false] at hx
    obtain hx | rfl | rfl | rfl | rfl := hx
    · rw [h x hx]
      exact sixDecimals_int 1
    · exact sixDecimals_int 0
    · exact sixDecimals_int 0
    · exact ⟨500000, by norm_num⟩
    · exact sixDecimals_int 1

theorem preparedPhotoKey_determines_legacy :
    let source : ImportAsset := ⟨1, "abc123".toList, "image/jpeg".toList⟩
    preparedPhotoKey source (turnedPhoto none true) =
        preparedPhotoKey source (turnedPhoto (some 1) false) ∧
      SameBuild (turnedPhoto none true) (turnedPhoto (some 1) false) := by
  intro source
  have hkey : preparedPhotoKey source (turnedPhoto none true) =
      preparedPhotoKey source (turnedPhoto (some 1) false) := by decide +kernel
  have hold : Accepted (turnedPhoto none true) := accepted_turnedPhoto (by simp) true
  have hnew : Accepted (turnedPhoto (some 1) false) := accepted_turnedPhoto (by simp) false
  have h := (preparedPhotoKey_determines hold hnew).1 hkey
  exact ⟨hkey, h.2.2.2⟩

end Reuse

end Noted.Prepare
