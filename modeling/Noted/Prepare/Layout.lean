import Mathlib.Analysis.SpecialFunctions.Trigonometric.Basic
import Mathlib.Tactic.Linarith
import Mathlib.Tactic.Ring
import Noted.Library.Attempt

/-!
# The layout of a page (processing-algorithms.ts, processing.worker.ts)

`pageLayout` places a source region on the output page, and `build` draws it there. It
checks first that no ink is cut off, unless the edges are fitted. Coordinates are exact
numbers of an ordered field, with a sine and a cosine on it.
-/

namespace Noted.Layout

open Library

/-- `Math.PI`, `Math.cos` and `Math.sin`, exact. -/
structure Trig (K : Type*) [Field K] where
  pi : K
  cos : K → K
  sin : K → K
  sin_sq_add_cos_sq : ∀ r, sin r ^ 2 + cos r ^ 2 = 1

noncomputable def Trig.real : Trig ℝ where
  pi := Real.pi
  cos := Real.cos
  sin := Real.sin
  sin_sq_add_cos_sq := Real.sin_sq_add_cos_sq

structure Margins (K : Type*) where
  top : K
  right : K
  bottom : K
  left : K

structure Edges (K : Type*) where
  left : K
  top : K
  right : K
  bottom : K

/-- The fields of the browser's `PageEdit` that place the page; `none` is an absent field.
`Prepare.PhotoEdit` has the others. -/
structure PageEdit (K : Type*) where
  fitEdges : Bool
  margins : Option (Margins K)
  angle : Option K
  rotation : Option Int
  outputWidth : Option K
  outputHeight : Option K
  scale : Option K
  x : Option K
  y : Option K
  crop : Option (Edges K)

structure PageLayout (K : Type*) where
  scale : K
  angle : K
  baseWidth : K
  baseHeight : K
  outputWidth : K
  outputHeight : K
  center : K × K
  transform : K → K → K × K

section Definitions

variable {K : Type*} [Field K] [LinearOrder K]

def orElse (value : Option K) (fallback : K) : K :=
  match value with
  | none => fallback
  | some v => if v = 0 then fallback else v

def PageEdit.marginsOrNone (edit : PageEdit K) : Margins K := edit.margins.getD ⟨0, 0, 0, 0⟩

def PageEdit.degrees (edit : PageEdit K) : K := orElse edit.angle 0 + (edit.rotation.getD 0 : Int)

def pageLayout (T : Trig K) (width height : K) (edit : PageEdit K) : PageLayout K :=
  let scale := if edit.fitEdges then 1 else orElse edit.scale 1
  let angle := edit.degrees
  let r := angle * T.pi / 180
  let quarter := (edit.rotation.getD 0).tmod 180 ≠ 0
  let baseWidth :=
    if edit.fitEdges then |width * T.cos r| + |height * T.sin r|
    else orElse edit.outputWidth (if quarter then height else width)
  let baseHeight :=
    if edit.fitEdges then |width * T.sin r| + |height * T.cos r|
    else orElse edit.outputHeight (if quarter then width else height)
  let m := edit.marginsOrNone
  let cx := width / 2
  let cy := height / 2
  let dx := (if edit.fitEdges then 0 else orElse edit.x 0) * baseWidth
  let dy := -(if edit.fitEdges then 0 else orElse edit.y 0) * baseHeight
  let transform (x y : K) : K × K :=
    (m.left + baseWidth / 2 + dx + scale * ((x - cx) * T.cos r - (y - cy) * T.sin r),
      m.bottom + baseHeight / 2 + dy + scale * ((x - cx) * T.sin r + (y - cy) * T.cos r))
  { scale
    angle
    baseWidth
    baseHeight
    outputWidth := baseWidth + m.left + m.right
    outputHeight := baseHeight + m.top + m.bottom
    center := transform cx cy
    transform }

structure Canvas where
  width : Nat
  height : Nat
  data : Nat → Nat

def Canvas.ink (c : Canvas) (x y : Nat) : Bool :=
  let n := (y * c.width + x) * 4
  !(c.data (n + 3) < 128 || min (c.data n) (min (c.data (n + 1)) (c.data (n + 2))) > 200)

/-- A point more than 0.75 outside a page. -/
def beyond (outputWidth outputHeight : K) (p : K × K) : Bool :=
  p.1 < -(3 / 4) || p.2 < -(3 / 4) || p.1 > outputWidth + 3 / 4 || p.2 > outputHeight + 3 / 4

def Edges.cropped (edges : Edges K) (u v : K) : Bool :=
  u < edges.left || u > edges.right || v < edges.top || v > edges.bottom

def inkOutsidePage (c : Canvas) (pageWidth pageHeight : K) (edges : Edges K)
    (transform : K → K → K × K) (outputWidth outputHeight : K) : Bool :=
  (List.range c.height).any fun y => (List.range c.width).any fun x =>
    let u := ((x : K) + 1 / 2) / c.width
    let v := ((y : K) + 1 / 2) / c.height
    c.ink x y && !edges.cropped u v &&
      beyond outputWidth outputHeight
        (transform ((u - edges.left) * pageWidth) ((edges.bottom - v) * pageHeight))

structure Box (K : Type*) where
  x : K
  y : K
  width : K
  height : K
  deriving DecidableEq

/-- A page of a source: how it is turned, its boxes, and its render. -/
structure SourcePage (K : Type*) where
  rotation : Int
  media : Box K
  crop : Box K
  rendered : Canvas

/-- A page of the built PDF: a copy with its rotation, or a new canvas on which the
region is drawn. -/
inductive BuiltPage (K : Type*)
  | copied (rotation : Int)
  | drawn (width height x y scale angle : K)

def needsGeometry (edit : PageEdit K) : Bool :=
  edit.margins.any (fun m => m.top ≠ 0 || m.right ≠ 0 || m.bottom ≠ 0 || m.left ≠ 0) ||
    edit.fitEdges || orElse edit.angle 0 ≠ 0 || orElse edit.x 0 ≠ 0 || orElse edit.y 0 ≠ 0 ||
    orElse edit.scale 1 ≠ 1 || edit.crop.isSome || orElse edit.outputWidth 0 ≠ 0

def PageEdit.edges (edit : PageEdit K) : Edges K := edit.crop.getD ⟨0, 0, 1, 1⟩

/-- The layout of the region that `embedPage` cuts out. -/
def regionLayout (T : Trig K) (page : SourcePage K) (edit : PageEdit K) : PageLayout K :=
  let edges := edit.edges
  let w := page.media.width
  let h := page.media.height
  pageLayout T (edges.right * w - edges.left * w) ((1 - edges.top) * h - (1 - edges.bottom) * h)
    edit

def cutsInk (T : Trig K) (page : SourcePage K) (edit : PageEdit K) : Bool :=
  let layout := regionLayout T page edit
  inkOutsidePage page.rendered page.media.width page.media.height edit.edges layout.transform
    layout.outputWidth layout.outputHeight

/-- One page of `build`; `skips` are the edits whose ink is not checked. -/
def buildPageWith (skips : PageEdit K → Bool) (T : Trig K) (page : SourcePage K)
    (edit : PageEdit K) : Except String (BuiltPage K) := do
  if needsGeometry edit = false then
    return .copied ((page.rotation + edit.rotation.getD 0).tmod 360)
  refuse (page.rotation.tmod 360 ≠ 0 ∨ page.media.x ≠ 0 ∨ page.media.y ≠ 0 ∨
    page.crop ≠ page.media)
    ("This PDF already has a page rotation or crop. Reorder, extract and quarter-turn rotation " ++
      "are supported; fine adjustments need a normalized source PDF.")
  let layout := regionLayout T page edit
  refuse (skips edit = false ∧ cutsInk T page edit = true)
    ("This adjustment would cut off page content. Reduce scale or position, or explicitly crop " ++
      "the unwanted content first.")
  let origin := layout.transform 0 0
  return .drawn layout.outputWidth layout.outputHeight origin.1 origin.2 layout.scale layout.angle

/-- `build` checks the ink unless the edges are fitted. -/
def buildPage (T : Trig K) (page : SourcePage K) (edit : PageEdit K) :
    Except String (BuiltPage K) :=
  buildPageWith (fun edit => edit.fitEdges) T page edit

end Definitions

section Rectangle

variable {K : Type*} [Field K] [LinearOrder K] [IsStrictOrderedRing K]
  {width height a b x y : K}

def InRegion (width height x y : K) : Prop := (0 ≤ x ∧ x ≤ width) ∧ 0 ≤ y ∧ y ≤ height

theorem abs_sub_half (h : 0 ≤ x ∧ x ≤ width) : |x - width / 2| ≤ width / 2 := by
  rw [abs_le]
  constructor <;> linarith [h.1, h.2]

/-- A linear form on a rectangle about its centre is at most half the form of its sides. -/
theorem abs_form_le (h : InRegion width height x y) (a b : K) :
    |(x - width / 2) * a + (y - height / 2) * b| ≤ (|width * a| + |height * b|) / 2 := by
  obtain ⟨hx, hy⟩ := h
  have hwidth : |width * a| = width * |a| := by rw [abs_mul, abs_of_nonneg (hx.1.trans hx.2)]
  have hheight : |height * b| = height * |b| := by rw [abs_mul, abs_of_nonneg (hy.1.trans hy.2)]
  calc |(x - width / 2) * a + (y - height / 2) * b|
      ≤ |(x - width / 2) * a| + |(y - height / 2) * b| := abs_add_le _ _
    _ = |x - width / 2| * |a| + |y - height / 2| * |b| := by rw [abs_mul, abs_mul]
    _ ≤ width / 2 * |a| + height / 2 * |b| :=
        add_le_add (mul_le_mul_of_nonneg_right (abs_sub_half hx) (abs_nonneg a))
          (mul_le_mul_of_nonneg_right (abs_sub_half hy) (abs_nonneg b))
    _ = (|width * a| + |height * b|) / 2 := by rw [hwidth, hheight]; ring

theorem end_attained (hwidth : 0 ≤ width) (a : K) :
    ∃ x, (0 ≤ x ∧ x ≤ width) ∧ (x - width / 2) * a = |width * a| / 2 := by
  rcases le_total 0 a with ha | ha
  · refine ⟨width, ⟨hwidth, le_rfl⟩, ?_⟩
    rw [abs_of_nonneg (mul_nonneg hwidth ha)]
    ring
  · refine ⟨0, ⟨le_rfl, hwidth⟩, ?_⟩
    rw [abs_of_nonpos (mul_nonpos_of_nonneg_of_nonpos hwidth ha)]
    ring

theorem form_attained (hwidth : 0 ≤ width) (hheight : 0 ≤ height) (a b : K) :
    ∃ x y, InRegion width height x y ∧
      (x - width / 2) * a + (y - height / 2) * b = (|width * a| + |height * b|) / 2 := by
  obtain ⟨x, hx, hxa⟩ := end_attained hwidth a
  obtain ⟨y, hy, hyb⟩ := end_attained hheight b
  exact ⟨x, y, ⟨hx, hy⟩, by rw [hxa, hyb]; ring⟩

theorem form_attained_neg (hwidth : 0 ≤ width) (hheight : 0 ≤ height) (a b : K) :
    ∃ x y, InRegion width height x y ∧
      (x - width / 2) * a + (y - height / 2) * b = -((|width * a| + |height * b|) / 2) := by
  obtain ⟨x, y, hxy, h⟩ := form_attained hwidth hheight (-a) (-b)
  refine ⟨x, y, hxy, ?_⟩
  have hwidth' : |width * -a| = |width * a| := by rw [mul_neg, abs_neg]
  have hheight' : |height * -b| = |height * b| := by rw [mul_neg, abs_neg]
  rw [hwidth', hheight'] at h
  linarith

end Rectangle

section Fitted

variable {K : Type*} [Field K] [LinearOrder K] {T : Trig K} {width height : K} {edit : PageEdit K}

structure Margins.Nonneg (m : Margins K) : Prop where
  top : 0 ≤ m.top
  right : 0 ≤ m.right
  bottom : 0 ≤ m.bottom
  left : 0 ≤ m.left

/-- The region is drawn within a rectangle of the output page, and touches its sides. -/
structure FittedPage (layout : PageLayout K) (m : Margins K) (width height : K) : Prop where
  across : ∀ x y, InRegion width height x y →
    m.left ≤ (layout.transform x y).1 ∧ (layout.transform x y).1 ≤ m.left + layout.baseWidth
  along : ∀ x y, InRegion width height x y →
    m.bottom ≤ (layout.transform x y).2 ∧ (layout.transform x y).2 ≤ m.bottom + layout.baseHeight
  pageAcross : 0 ≤ m.left ∧ m.left + layout.baseWidth ≤ layout.outputWidth
  pageAlong : 0 ≤ m.bottom ∧ m.bottom + layout.baseHeight ≤ layout.outputHeight
  left : ∃ x y, InRegion width height x y ∧ (layout.transform x y).1 = m.left
  right : ∃ x y, InRegion width height x y ∧
    (layout.transform x y).1 = m.left + layout.baseWidth
  bottom : ∃ x y, InRegion width height x y ∧ (layout.transform x y).2 = m.bottom
  top : ∃ x y, InRegion width height x y ∧
    (layout.transform x y).2 = m.bottom + layout.baseHeight

def PageEdit.radians (T : Trig K) (edit : PageEdit K) : K := edit.degrees * T.pi / 180

theorem baseWidth_fitted [IsStrictOrderedRing K] (T : Trig K) (width height : K)
    (hfit : edit.fitEdges = true) :
    (pageLayout T width height edit).baseWidth =
      |width * T.cos (edit.radians T)| + |height * -T.sin (edit.radians T)| := by
  simp only [pageLayout, hfit, if_true, PageEdit.radians, mul_neg, abs_neg]

theorem baseHeight_fitted (T : Trig K) (width height : K) (hfit : edit.fitEdges = true) :
    (pageLayout T width height edit).baseHeight =
      |width * T.sin (edit.radians T)| + |height * T.cos (edit.radians T)| := by
  simp only [pageLayout, hfit, if_true, PageEdit.radians]

/-- Fitted edges leave no scale and no position: a point is drawn at a linear form of its
distance from the centre. -/
theorem transform_fitted (hfit : edit.fitEdges = true) (x y : K) :
    (pageLayout T width height edit).transform x y =
      (edit.marginsOrNone.left + (pageLayout T width height edit).baseWidth / 2 +
          ((x - width / 2) * T.cos (edit.radians T) +
            (y - height / 2) * -T.sin (edit.radians T)),
        edit.marginsOrNone.bottom + (pageLayout T width height edit).baseHeight / 2 +
          ((x - width / 2) * T.sin (edit.radians T) +
            (y - height / 2) * T.cos (edit.radians T))) := by
  simp only [pageLayout, hfit, if_true, PageEdit.radians]
  apply Prod.ext <;> ring

theorem fittedPage [IsStrictOrderedRing K] (hfit : edit.fitEdges = true) (hwidth : 0 ≤ width)
    (hheight : 0 ≤ height) (hmargins : edit.marginsOrNone.Nonneg) :
    FittedPage (pageLayout T width height edit) edit.marginsOrNone width height := by
  have hbw := baseWidth_fitted T width height hfit
  have hbh := baseHeight_fitted T width height hfit
  refine ⟨?_, ?_, ⟨hmargins.left, ?_⟩, ⟨hmargins.bottom, ?_⟩, ?_, ?_, ?_, ?_⟩
  · intro x y hxy
    have h := abs_le.mp (abs_form_le hxy (T.cos (edit.radians T)) (-T.sin (edit.radians T)))
    rw [← hbw] at h
    rw [transform_fitted hfit]
    constructor <;> dsimp only <;> linarith [h.1, h.2]
  · intro x y hxy
    have h := abs_le.mp (abs_form_le hxy (T.sin (edit.radians T)) (T.cos (edit.radians T)))
    rw [← hbh] at h
    rw [transform_fitted hfit]
    constructor <;> dsimp only <;> linarith [h.1, h.2]
  · exact le_add_of_le_of_nonneg (add_comm _ _).le hmargins.right
  · have htop := hmargins.top
    dsimp only [pageLayout]
    linarith
  · obtain ⟨x, y, hxy, h⟩ :=
      form_attained_neg hwidth hheight (T.cos (edit.radians T)) (-T.sin (edit.radians T))
    refine ⟨x, y, hxy, ?_⟩
    rw [transform_fitted hfit, h, ← hbw]
    ring
  · obtain ⟨x, y, hxy, h⟩ :=
      form_attained hwidth hheight (T.cos (edit.radians T)) (-T.sin (edit.radians T))
    refine ⟨x, y, hxy, ?_⟩
    rw [transform_fitted hfit, h, ← hbw]
    ring
  · obtain ⟨x, y, hxy, h⟩ :=
      form_attained_neg hwidth hheight (T.sin (edit.radians T)) (T.cos (edit.radians T))
    refine ⟨x, y, hxy, ?_⟩
    rw [transform_fitted hfit, h, ← hbh]
    ring
  · obtain ⟨x, y, hxy, h⟩ :=
      form_attained hwidth hheight (T.sin (edit.radians T)) (T.cos (edit.radians T))
    refine ⟨x, y, hxy, ?_⟩
    rw [transform_fitted hfit, h, ← hbh]
    ring

end Fitted

section InkCheck

variable {K : Type*} [Field K] [LinearOrder K] [IsStrictOrderedRing K] {T : Trig K}
  {page : SourcePage K} {edit : PageEdit K}

theorem inRegion_of_not_cropped {edges : Edges K} {u v pageWidth pageHeight : K}
    (hwidth : 0 ≤ pageWidth) (hheight : 0 ≤ pageHeight) (h : edges.cropped u v = false) :
    InRegion ((edges.right - edges.left) * pageWidth) ((edges.bottom - edges.top) * pageHeight)
      ((u - edges.left) * pageWidth) ((edges.bottom - v) * pageHeight) := by
  simp only [Edges.cropped, Bool.or_eq_false_iff, decide_eq_false_iff_not, not_lt, gt_iff_lt] at h
  obtain ⟨⟨⟨hleft, hright⟩, htop⟩, hbottom⟩ := h
  constructor
  · exact ⟨mul_nonneg (sub_nonneg.mpr hleft) hwidth,
      mul_le_mul_of_nonneg_right (sub_le_sub_right hright _) hwidth⟩
  · exact ⟨mul_nonneg (sub_nonneg.mpr hbottom) hheight,
      mul_le_mul_of_nonneg_right (sub_le_sub_left htop _) hheight⟩

theorem inkOutsidePage_eq_false {c : Canvas} {pageWidth pageHeight : K} {edges : Edges K}
    {transform : K → K → K × K} {outputWidth outputHeight : K} (hwidth : 0 ≤ pageWidth)
    (hheight : 0 ≤ pageHeight)
    (hon : ∀ x y, InRegion ((edges.right - edges.left) * pageWidth)
        ((edges.bottom - edges.top) * pageHeight) x y →
      beyond outputWidth outputHeight (transform x y) = false) :
    inkOutsidePage c pageWidth pageHeight edges transform outputWidth outputHeight = false := by
  rw [inkOutsidePage, List.any_eq_false]
  intro j _
  rw [Bool.not_eq_true, List.any_eq_false]
  intro i _
  dsimp only
  cases hcrop : edges.cropped (((i : K) + 1 / 2) / c.width) (((j : K) + 1 / 2) / c.height) with
  | true => simp
  | false =>
    rw [hon _ _ (inRegion_of_not_cropped hwidth hheight hcrop), Bool.and_false]
    exact Bool.false_ne_true

theorem FittedPage.not_beyond {layout : PageLayout K} {m : Margins K} {width height x y : K}
    (h : FittedPage layout m width height) (hxy : InRegion width height x y) :
    beyond layout.outputWidth layout.outputHeight (layout.transform x y) = false := by
  have hacross := h.across x y hxy
  have halong := h.along x y hxy
  have hpage := h.pageAcross
  have hpage' := h.pageAlong
  simp only [beyond, Bool.or_eq_false_iff, decide_eq_false_iff_not, not_lt, gt_iff_lt]
  refine ⟨⟨⟨?_, ?_⟩, ?_⟩, ?_⟩ <;> linarith

theorem cutsInk_fitted (hfit : edit.fitEdges = true) (hwidth : 0 ≤ page.media.width)
    (hheight : 0 ≤ page.media.height) (hmargins : edit.marginsOrNone.Nonneg) :
    cutsInk T page edit = false := by
  rw [cutsInk]
  refine inkOutsidePage_eq_false hwidth hheight fun x y hxy => ?_
  have hregion : regionLayout T page edit =
      pageLayout T ((edit.edges.right - edit.edges.left) * page.media.width)
        ((edit.edges.bottom - edit.edges.top) * page.media.height) edit := by
    rw [regionLayout]
    congr 1 <;> ring
  rw [hregion]
  exact (fittedPage hfit (hxy.1.1.trans hxy.1.2) (hxy.2.1.trans hxy.2.2) hmargins).not_beyond hxy

def checkedPage (T : Trig K) (page : SourcePage K) (edit : PageEdit K) :
    Except String (BuiltPage K) :=
  buildPageWith (fun _ => false) T page edit

theorem buildPage_eq_checkedPage (T : Trig K) (hwidth : 0 ≤ page.media.width)
    (hheight : 0 ≤ page.media.height) (hmargins : edit.marginsOrNone.Nonneg) :
    buildPage T page edit = checkedPage T page edit := by
  cases hfit : edit.fitEdges with
  | false => simp only [buildPage, checkedPage, buildPageWith, hfit]
  | true =>
    have hink := cutsInk_fitted (T := T) hfit hwidth hheight hmargins
    simp [buildPage, checkedPage, buildPageWith, hink]

/-- A page with fitted edges is drawn whole: the ink check that `build` skips for it would
find nothing. -/
theorem fitted_never_clips (T : Trig K) (edit : PageEdit K) (hmargins : edit.marginsOrNone.Nonneg) :
    (edit.fitEdges = true → ∀ width height : K, 0 ≤ width → 0 ≤ height →
      FittedPage (pageLayout T width height edit) edit.marginsOrNone width height) ∧
    ∀ page : SourcePage K, 0 ≤ page.media.width → 0 ≤ page.media.height →
      (edit.fitEdges = true → cutsInk T page edit = false) ∧
      buildPage T page edit = checkedPage T page edit := by
  refine ⟨fun hfit width height hwidth hheight => fittedPage hfit hwidth hheight hmargins,
    fun page hwidth hheight => ⟨fun hfit => cutsInk_fitted hfit hwidth hheight hmargins, ?_⟩⟩
  exact buildPage_eq_checkedPage T hwidth hheight hmargins

end InkCheck

section Turned

def threeFourFive : Trig ℚ where
  pi := 3
  cos _ := 3 / 5
  sin _ := 4 / 5
  sin_sq_add_cos_sq _ := by norm_num

def leftover (K : Type*) [Field K] : PageEdit K where
  fitEdges := true
  margins := some ⟨10, 20, 30, 40⟩
  angle := some 5
  rotation := some 90
  outputWidth := some 10
  outputHeight := none
  scale := some 2
  x := some (3 / 10)
  y := some (3 / 10)
  crop := none

theorem leftover_nonneg (K : Type*) [Field K] [LinearOrder K] [IsStrictOrderedRing K] :
    (leftover K).marginsOrNone.Nonneg := by
  constructor <;> norm_num [leftover, PageEdit.marginsOrNone]

theorem fitted_never_clips_leftover :
    FittedPage (pageLayout Trig.real 600 800 (leftover ℝ)) ⟨10, 20, 30, 40⟩ 600 800 ∧
      FittedPage (pageLayout threeFourFive 600 800 (leftover ℚ)) ⟨10, 20, 30, 40⟩ 600 800 ∧
      (pageLayout threeFourFive 600 800 (leftover ℚ)).outputWidth = 1060 := by
  refine ⟨(fitted_never_clips Trig.real (leftover ℝ) (leftover_nonneg ℝ)).1 rfl 600 800
    (by norm_num) (by norm_num),
    (fitted_never_clips threeFourFive (leftover ℚ) (leftover_nonneg ℚ)).1 rfl 600 800
      (by norm_num) (by norm_num), ?_⟩
  norm_num [pageLayout, leftover, threeFourFive, PageEdit.marginsOrNone]

def blackPage : SourcePage ℚ where
  rotation := 0
  media := ⟨0, 0, 100, 100⟩
  crop := ⟨0, 0, 100, 100⟩
  rendered := ⟨2, 2, fun n => if n % 4 = 3 then 255 else 0⟩

/-- Without fitted edges the same edit cuts off ink, and the page is refused. -/
example : cutsInk threeFourFive blackPage { leftover ℚ with fitEdges := false } = true := by
  decide +kernel

end Turned

end Noted.Layout
