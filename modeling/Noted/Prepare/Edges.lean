import Mathlib.Data.List.GetD
import Mathlib.Tactic.Linarith
import Mathlib.Tactic.Ring
import Noted.Manifests

/-!
# The edges of a page (prepare-edges.component.ts)

The corners that the page edge editor moves. Coordinates are fractions of the page,
exact; a length is compared by its square.
-/

namespace Noted.PageEditor

/-- A crop stays a rectangle; the corners of a photo are a perspective quad. -/
inductive EdgeMode
  | crop
  | corners
  deriving DecidableEq

def clamp (lowest highest value : Rat) : Rat := max lowest (min highest value)

def coordinate (points : List (List Rat)) (index axis : Nat) : Rat :=
  (points.getD index []).getD axis 0

def rectangle (l t r b : Rat) : List (List Rat) := [[l, t], [r, t], [r, b], [l, b]]

def gap : Rat := 50001 / 1000000

def sideSquared (points : List (List Rat)) (i : Nat) : Rat :=
  (coordinate points ((i + 1) % 4) 0 - coordinate points i 0) ^ 2 +
    (coordinate points ((i + 1) % 4) 1 - coordinate points i 1) ^ 2

/-- A coordinate kept away from the anchor's, on its side of it. -/
def awayFrom (anchor : Rat) (before : Bool) (value : Rat) : Rat :=
  if before then min value (anchor - gap) else max value (anchor + gap)

/-- `moveEdgeCorner`: `none` where the move is rejected. -/
def moveEdgeCorner (points : List (List Rat)) (mode : EdgeMode) (index : Nat) (x y : Rat)
    (asRectangle : Bool) : Option (List (List Rat)) :=
  let x := clamp 0 1 x
  let y := clamp 0 1 y
  if mode = .crop ∨ asRectangle = true then
    let anchorX := coordinate points ((index + 2) % 4) 0
    let anchorY := coordinate points ((index + 2) % 4) 1
    let left := index == 0 || index == 3
    let top := decide (index < 2)
    let x := awayFrom anchorX left x
    let y := awayFrom anchorY top y
    if x < 0 ∨ 1 < x ∨ y < 0 ∨ 1 < y then none
    else
      some (rectangle (if left then x else anchorX) (if top then y else anchorY)
        (if left then anchorX else x) (if top then anchorY else y))
  else
    let next := points.set index [x, y]
    -- Crossed, collapsed, or nearly collinear quads are rejected.
    if (List.range 4).any fun i =>
        sideSquared next i < (5 / 100) ^ 2 || cornerTurn next i ≤ 25 / 10000 then none
    else some next

section Shapes

/-- A rectangle of the page at least 5% wide and tall. -/
structure Box (l t r b : Rat) : Prop where
  left : 0 ≤ l
  right : r ≤ 1
  top : 0 ≤ t
  bottom : b ≤ 1
  width : 5 / 100 ≤ r - l
  height : 5 / 100 ≤ b - t

theorem Box.unit {l t r b : Rat} (h : Box l t r b) :
    (0 ≤ l ∧ l ≤ 1) ∧ (0 ≤ t ∧ t ≤ 1) ∧ (0 ≤ r ∧ r ≤ 1) ∧ 0 ≤ b ∧ b ≤ 1 := by
  obtain ⟨hl, hr, ht, hb, hw, hh⟩ := h
  refine ⟨⟨hl, ?_⟩, ⟨ht, ?_⟩, ⟨?_, hr⟩, ?_, hb⟩ <;> linarith

theorem Box.cropBox {l t r b : Rat} (h : Box l t r b) : CropBox [l, t, r, b] := by
  obtain ⟨hl, ht, hr, hb⟩ := h.unit
  refine ⟨rfl, ?_, h.width, h.height⟩
  simp [unitValues, hl, ht, hr, hb]

theorem box_of_cropBox {crop : List Rat} (h : CropBox crop) :
    Box (crop.getD 0 0) (crop.getD 1 0) (crop.getD 2 0) (crop.getD 3 0) := by
  obtain ⟨hlength, hunit, hwidth, hheight⟩ := h
  match crop, hlength with
  | [l, t, r, b], _ =>
    simp only [unitValues, List.all_cons, List.all_nil, Bool.and_true, Bool.and_eq_true,
      decide_eq_true_eq] at hunit
    obtain ⟨hl, ht, hr, hb⟩ := hunit
    exact ⟨hl.1, hr.2, ht.1, hb.2, hwidth, hheight⟩

theorem cornerTurn_rectangle (l t r b : Rat) {i : Nat} (hi : i < 4) :
    cornerTurn (rectangle l t r b) i = (r - l) * (b - t) := by
  have hcases : i = 0 ∨ i = 1 ∨ i = 2 ∨ i = 3 := by omega
  obtain rfl | rfl | rfl | rfl := hcases <;> simp [cornerTurn, rectangle] <;> ring

theorem Box.clockwise {l t r b : Rat} (h : Box l t r b) : Clockwise (rectangle l t r b) := by
  obtain ⟨hl, ht, hr, hb⟩ := h.unit
  refine ⟨rfl, ?_, ?_⟩
  · simp [rectangle, unitValues, hl, ht, hr, hb]
  · intro i hi
    rw [cornerTurn_rectangle l t r b hi]
    have harea : (5 / 100 : Rat) * (5 / 100) ≤ (r - l) * (b - t) :=
      mul_le_mul h.width h.height (by norm_num) (le_trans (by norm_num) h.width)
    linarith

theorem coordinate_unit {points : List (List Rat)} (h : Clockwise points) {i axis : Nat}
    (hi : i < 4) (haxis : axis < 2) :
    0 ≤ coordinate points i axis ∧ coordinate points i axis ≤ 1 := by
  have hlt : i < points.length := by
    rw [h.length]
    exact hi
  obtain ⟨htwo, hunit⟩ := h.points _ (List.getElem_mem hlt)
  rw [unitValues, List.all_eq_true] at hunit
  have hlt' : axis < points[i].length := by
    rw [htwo]
    exact haxis
  have hvalue := hunit _ (List.getElem_mem hlt')
  rw [coordinate, List.getD_eq_getElem _ _ hlt, List.getD_eq_getElem _ _ hlt']
  simpa using hvalue

end Shapes

/-- What the pending edges are while they are moved: for a photo what the server asks
of corners, for a PDF page a rectangle. -/
inductive Fits : EdgeMode → List (List Rat) → Prop
  | crop {l t r b : Rat} (h : Box l t r b) : Fits .crop (rectangle l t r b)
  | corners {points : List (List Rat)} (h : Clockwise points) : Fits .corners points

theorem Fits.clockwise {mode : EdgeMode} {points : List (List Rat)} (h : Fits mode points) :
    Clockwise points := by
  cases h with
  | crop h => exact h.clockwise
  | corners h => exact h

theorem Fits.of_box {l t r b : Rat} (h : Box l t r b) (mode : EdgeMode) :
    Fits mode (rectangle l t r b) := by
  cases mode with
  | crop => exact .crop h
  | corners => exact .corners h.clockwise

section Moves

variable {points next : List (List Rat)} {mode : EdgeMode} {index : Nat} {x y : Rat}
  {asRectangle : Bool}

theorem clamp_unit (value : Rat) : 0 ≤ clamp 0 1 value ∧ clamp 0 1 value ≤ 1 := by
  unfold clamp
  exact ⟨le_max_left 0 _, max_le (by norm_num) (min_le_left 1 _)⟩

theorem span {anchor value value' : Rat} {before : Bool} (hanchor : 0 ≤ anchor ∧ anchor ≤ 1)
    (hvalue : 0 ≤ value ∧ value ≤ 1) (hgap : value = awayFrom anchor before value') :
    0 ≤ (if before then value else anchor) ∧ (if before then anchor else value) ≤ 1 ∧
      5 / 100 ≤ (if before then anchor else value) - if before then value else anchor := by
  have hmin : (5 / 100 : Rat) ≤ gap := by norm_num [gap]
  cases before with
  | true =>
    have hle : value ≤ anchor - gap := hgap.trans_le (min_le_right _ _)
    exact ⟨hvalue.1, hanchor.2, by simp only [if_true]; linarith⟩
  | false =>
    have hle : anchor + gap ≤ value := (le_max_right _ _).trans_eq hgap.symm
    exact ⟨hanchor.1, hvalue.2, by simp only [Bool.false_eq_true, if_false]; linarith⟩

/-- Moving a corner keeps the edges fit, in either mode. -/
theorem Fits.moveEdgeCorner (h : Fits mode points)
    (hmove : moveEdgeCorner points mode index x y asRectangle = some next) : Fits mode next := by
  unfold PageEditor.moveEdgeCorner at hmove
  simp only at hmove
  split at hmove
  · have hopposite : (index + 2) % 4 < 4 := by omega
    have hanchorX := coordinate_unit h.clockwise hopposite (by omega : 0 < 2)
    have hanchorY := coordinate_unit h.clockwise hopposite (by omega : 1 < 2)
    split at hmove
    · cases hmove
    · rename_i hunit
      rw [not_or, not_or, not_or, not_lt, not_lt, not_lt, not_lt] at hunit
      obtain ⟨hx, hx', hy, hy'⟩ := hunit
      obtain ⟨hl, hr, hw⟩ := span hanchorX ⟨hx, hx'⟩ rfl
      obtain ⟨ht, hb, hh⟩ := span hanchorY ⟨hy, hy'⟩ rfl
      cases hmove
      exact .of_box ⟨hl, hr, ht, hb, hw, hh⟩ mode
  · rename_i hmode
    rw [not_or] at hmode
    split at hmove
    · cases hmove
    · rename_i hany
      cases hmove
      cases h with
      | crop h => exact absurd rfl hmode.1
      | corners h =>
        refine .corners ⟨?_, ?_, ?_⟩
        · rw [List.length_set, h.length]
        · intro c hc
          obtain hc | rfl := List.mem_or_eq_of_mem_set hc
          · exact h.points c hc
          · simp [unitValues, clamp_unit]
        · intro i hi
          apply lt_of_not_ge
          intro hturn
          apply hany
          rw [List.any_eq_true]
          refine ⟨i, List.mem_range.mpr hi, ?_⟩
          rw [Bool.or_eq_true, decide_eq_true_eq, decide_eq_true_eq]
          exact Or.inr (hturn.trans (by norm_num))

end Moves

end Noted.PageEditor
