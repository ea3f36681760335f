import Mathlib.Algebra.Order.Ring.Rat
import Noted.Integrity

/-!
# Manifests the server accepts (internal/app/import_validation.go)

What `validateManifest` asks of the adjustments of one page, and the changes of a
manifest that it goes on to accept: pages left out or in another order, a page put in
another's place, and the pages of a new source at the end.
-/

namespace Noted

open Library

section Adjustments

/-- The corners of a photo: four points of it whose every turn is clockwise. -/
structure Clockwise (corners : List (List Rat)) : Prop where
  length : corners.length = 4
  points : ∀ c ∈ corners, c.length = 2 ∧ unitValues c = true
  turns : ∀ i < 4, 1 / 10000 < cornerTurn corners i

structure CropBox (crop : List Rat) : Prop where
  length : crop.length = 4
  unit : unitValues crop = true
  width : 5 / 100 ≤ crop.getD 2 0 - crop.getD 0 0
  height : 5 / 100 ≤ crop.getD 3 0 - crop.getD 1 0

structure PageEdit.Adjusted (a : AssetRow) (p : PageEdit) : Prop where
  angle : p.angle.abs ≤ 10
  rotation : p.rotation % 90 = 0 ∧ 0 ≤ p.rotation ∧ p.rotation ≤ 270
  scale : 0 ≤ p.scale ∧ p.scale ≤ 3
  offset : p.x.abs ≤ 1 ∧ p.y.abs ≤ 1
  output : p.outputWidth ≠ 0 ∨ p.outputHeight ≠ 0 → (36 ≤ p.outputWidth ∧
    p.outputWidth ≤ 14400) ∧ 36 ≤ p.outputHeight ∧ p.outputHeight ≤ 14400
  crop : p.crop ≠ [] → CropBox p.crop
  margins_length : p.margins ≠ [] → p.margins.length = 4
  margins : ∀ margin ∈ p.margins, 0 ≤ margin ∧ margin ≤ 142
  strength : ∀ strength ∈ p.paperCleanupStrength, 0 ≤ strength ∧ strength ≤ 1
  cleanup : p.paperCleanup = true ∨ p.paperCleanupStrength ≠ none → a.mime ≠ .pdf
  corners : p.corners ≠ [] → a.mime ≠ .pdf ∧ Clockwise p.corners

theorem validateCorners_eq_ok {a : AssetRow} {corners : List (List Rat)} {u : Unit} :
    validateCorners a corners = .ok u ↔ (corners ≠ [] → a.mime ≠ .pdf ∧ Clockwise corners) := by
  simp only [validateCorners, bind_eq_ok, refuse_eq_ok, exists_const]
  constructor
  · intro h hne
    obtain ⟨hlength, hpoints, hturns⟩ := h
    have hlength' : ¬(a.mime = .pdf ∨ corners.length ≠ 4) := fun h' => hlength ⟨hne, h'⟩
    rw [not_or, not_not] at hlength'
    refine ⟨hlength'.1, hlength'.2, ?_, ?_⟩
    · simpa using hpoints
    · intro i hi
      apply lt_of_not_ge
      intro hturn
      exact hturns ⟨hne, List.any_eq_true.mpr ⟨i, List.mem_range.mpr hi, by simpa using hturn⟩⟩
  · intro h
    by_cases hne : corners = []
    · simp [hne]
    · obtain ⟨hmime, h⟩ := h hne
      refine ⟨?_, ?_, ?_⟩
      · simp [hmime, h.length]
      · simpa using h.points
      · intro hany
        obtain ⟨i, hi, hturn⟩ := List.any_eq_true.mp hany.2
        exact absurd (h.turns i (List.mem_range.mp hi)) (not_lt_of_ge (by simpa using hturn))

theorem validateAdjustments_eq_ok {a : AssetRow} {p : PageEdit} {u : Unit} :
    validateAdjustments a p = .ok u ↔ p.Adjusted a := by
  simp only [validateAdjustments, bind_eq_ok, refuse_eq_ok, exists_const, validateCorners_eq_ok]
  constructor
  · intro h
    obtain ⟨hbounds, houtput, hcrop, hlength, hmargins, hstrength, hcleanup, hcorners⟩ := h
    simp only [not_or, not_lt, not_not] at hbounds
    obtain ⟨hangle, hquarter, hrotation, hrotation', hscale, hscale', hx, hy⟩ := hbounds
    refine ⟨hangle, ⟨hquarter, hrotation, hrotation'⟩, ⟨hscale, hscale'⟩, ⟨hx, hy⟩, ?_, ?_, ?_, ?_,
      ?_, ?_, hcorners⟩
    · intro hne
      simpa [not_or, and_assoc] using not_and.mp houtput hne
    · intro hne
      have hbox := not_and.mp hcrop hne
      simp only [not_or, not_not, not_lt, Bool.not_eq_false] at hbox
      exact ⟨hbox.1, hbox.2.1, hbox.2.2.1, hbox.2.2.2⟩
    · intro hne
      exact not_not.mp (not_and.mp hlength hne)
    · simpa using hmargins
    · intro strength hs
      have hs' : p.paperCleanupStrength = some strength := hs
      simpa [hs'] using hstrength
    · intro hclean
      exact not_and.mp hcleanup hclean
  · intro h
    refine ⟨?_, ?_, ?_, ?_, ?_, ?_, ?_, h.corners⟩
    · simp only [not_or, not_lt, not_not]
      exact ⟨h.angle, h.rotation.1, h.rotation.2.1, h.rotation.2.2, h.scale.1, h.scale.2,
        h.offset.1, h.offset.2⟩
    · rw [not_and]
      intro hne
      simpa [not_or, and_assoc] using h.output hne
    · rw [not_and]
      intro hne
      obtain ⟨hfour, hunit, hwidth, hheight⟩ := h.crop hne
      simp only [not_or, not_not, not_lt, Bool.not_eq_false]
      exact ⟨hfour, hunit, hwidth, hheight⟩
    · rw [not_and, not_not]
      exact h.margins_length
    · simpa using h.margins
    · have hs := h.strength
      cases hst : p.paperCleanupStrength with
      | none => simp
      | some strength => simpa using hs strength hst
    · rw [not_and]
      exact h.cleanup

theorem validatePage_eq_ok {assets : Id → Option AssetRow} {p : PageEdit} {u : Unit} :
    validatePage assets p = .ok u ↔ ∃ a, assets p.sourceId = some a ∧
      (0 ≤ p.page ∧ p.page < a.pageCount) ∧ p.Adjusted a := by
  simp only [validatePage, bind_eq_ok, demand_eq_ok, refuse_eq_ok, exists_const,
    validateAdjustments_eq_ok, not_or, not_lt, not_le]

end Adjustments

section Changes

variable {validUUID : Text → Bool} {assets : Id → Option AssetRow} {manifest : EditManifest}
  {pages : List PageEdit} {p p' : PageEdit}

theorem EditManifest.Valid.subperm (h : manifest.Valid validUUID assets)
    (hpages : pages.Subperm manifest.pages) :
    EditManifest.Valid validUUID assets { manifest with pages := pages } := by
  have hmem : ∀ p ∈ pages, p ∈ manifest.pages := fun p hp => hpages.subset hp
  refine ⟨h.version, hpages.length_le.trans h.length, ?_, ?_, ?_⟩
  · obtain ⟨l, hperm, hsub⟩ := hpages
    exact (hperm.map PageEdit.id).nodup_iff.mp (h.ids.sublist (hsub.map PageEdit.id))
  · intro p hp
    exact h.uuids p (hmem p hp)
  · intro p hp
    exact h.pages p (hmem p hp)

theorem EditManifest.Valid.set (h : manifest.Valid validUUID assets) {i : Nat}
    (hp : manifest.pages[i]? = some p) (hid : p'.id = p.id)
    (hpage : validatePage assets p' = .ok ⟨⟩) :
    EditManifest.Valid validUUID assets { manifest with pages := manifest.pages.set i p' } := by
  obtain ⟨hi, rfl⟩ := List.getElem?_eq_some_iff.mp hp
  refine ⟨h.version, ?_, ?_, ?_, ?_⟩
  · rw [List.length_set]
    exact h.length
  · have hids : (manifest.pages.set i p').map PageEdit.id = manifest.pages.map PageEdit.id := by
      rw [List.map_set, hid, ← List.getElem_map PageEdit.id (h := by simpa using hi),
        List.set_getElem_self]
    rw [hids]
    exact h.ids
  · intro q hq
    obtain hq | rfl := List.mem_or_eq_of_mem_set hq
    · exact h.uuids q hq
    · rw [hid]
      exact h.uuids _ (List.getElem_mem hi)
  · intro q hq
    obtain hq | rfl := List.mem_or_eq_of_mem_set hq
    · exact h.pages q hq
    · exact hpage

end Changes

section Sources

variable {validUUID : Text → Bool} {assets : Id → Option AssetRow} {manifest : EditManifest}
  {ids : List Text} {sourceId : Id} {count : Nat} {p : PageEdit}

theorem freshPages_ids : (freshPages ids sourceId count).map PageEdit.id = ids.take count := by
  apply List.ext_getElem
  · simp [freshPages]
  · intro i hi hi'
    simp [freshPages, PageEdit.fresh]

theorem freshPages_mem (hp : p ∈ freshPages ids sourceId count) :
    ∃ id ∈ ids, ∃ n < count, p = PageEdit.fresh id sourceId n := by
  obtain ⟨n, hn, rfl⟩ := List.mem_mapIdx.mp hp
  rw [List.length_take] at hn
  refine ⟨_, List.mem_of_mem_take (List.getElem_mem (by simpa using hn)), n, ?_, rfl⟩
  omega

structure PageIds (validUUID : Text → Bool) (ids : List Text) : Prop where
  nodup : ids.Nodup
  uuids : ∀ id ∈ ids, validUUID id = true

theorem freshPages_valid (hids : PageIds validUUID ids) {a : AssetRow} (ha : assets a.id = some a)
    (hcount : count ≤ a.pageCount) (hmax : count ≤ maxPreparedPages) :
    EditManifest.Valid validUUID assets ⟨1, freshPages ids a.id count⟩ := by
  refine ⟨rfl, ?_, ?_, ?_, ?_⟩
  · simp only [freshPages, List.length_mapIdx, List.length_take]
    omega
  · rw [freshPages_ids]
    exact hids.nodup.sublist (List.take_sublist count ids)
  · intro p hp
    obtain ⟨id, hid, n, hn, rfl⟩ := freshPages_mem hp
    exact hids.uuids id hid
  · intro p hp
    obtain ⟨id, hid, n, hn, rfl⟩ := freshPages_mem hp
    exact validatePage_fresh ha (by omega)

/-- `attachSource` appends pages of the new source up to the limit. -/
theorem EditManifest.Valid.attached (h : manifest.Valid validUUID assets) {fresh : Fresh}
    {a : AssetRow} (ha : assets a.id = some a) (hasset : fresh.assetId = a.id)
    (hids : PageIds validUUID fresh.pageIds)
    (hnew : ∀ p ∈ manifest.pages, p.id ∉ fresh.pageIds) :
    (attachedManifest manifest fresh a.pageCount).Valid validUUID assets := by
  have hlength := h.length
  have hfresh : EditManifest.Valid validUUID assets ⟨1, freshPages fresh.pageIds a.id
      (min a.pageCount (maxPreparedPages - manifest.pages.length))⟩ := by
    apply freshPages_valid hids ha (Nat.min_le_left _ _)
    omega
  refine ⟨h.version, ?_, ?_, ?_, ?_⟩
  · simp only [attachedManifest, freshPages, List.length_append, List.length_mapIdx,
      List.length_take]
    omega
  · rw [attachedManifest, hasset, List.map_append, List.nodup_append]
    refine ⟨h.ids, hfresh.ids, ?_⟩
    intro id hid id' hid'
    obtain ⟨p, hp, rfl⟩ := List.mem_map.mp hid
    rintro rfl
    rw [freshPages_ids] at hid'
    exact hnew p hp (List.mem_of_mem_take hid')
  · intro p hp
    rw [attachedManifest, hasset] at hp
    obtain hp | hp := List.mem_append.mp hp
    · exact h.uuids p hp
    · exact hfresh.uuids p hp
  · intro p hp
    rw [attachedManifest, hasset] at hp
    obtain hp | hp := List.mem_append.mp hp
    · exact h.pages p hp
    · exact hfresh.pages p hp

end Sources

end Noted
