import Noted.Library.Runs

/-!
# What has begun and not ended

A condition that holds after a run and did not at its start was brought about by a
step of the run, and no step since has ended it, if every step that leads to it
either begins it or finds it and does not end it.
-/

namespace Noted.Library

variable {σ ε ρ ν : Type*} {step : σ → ε → Option (ρ × σ)} {s s' : σ} {t u v : List (Entry σ ε ρ)}
  {x : Entry σ ε ρ}

/-- A step of one kind happened, and none of another kind has followed it. -/
def Since (began ended : Entry σ ε ρ → Prop) (t : List (Entry σ ε ρ)) : Prop :=
  ∃ u x v, t = u ++ x :: v ∧ began x ∧ ∀ y ∈ v, ¬ended y

namespace Since

variable {began began' ended ended' : Entry σ ε ρ → Prop}

theorem here (h : began x) : Since began ended (t ++ [x]) := ⟨t, x, [], rfl, h, by simp⟩

theorem snoc (h : Since began ended t) (hx : ¬ended x) : Since began ended (t ++ [x]) := by
  obtain ⟨u, y, v, rfl, hy, hv⟩ := h
  refine ⟨u, y, v ++ [x], by simp, hy, ?_⟩
  intro z hz
  obtain hz | hz := List.mem_append.mp hz
  · exact hv z hz
  · rwa [List.mem_singleton.mp hz]

theorem mono (h : Since began ended t) (hbegan : ∀ x ∈ t, began x → began' x)
    (hended : ∀ x ∈ t, ended' x → ended x) : Since began' ended' t := by
  obtain ⟨u, y, v, rfl, hy, hv⟩ := h
  refine ⟨u, y, v, rfl, hbegan y (by simp) hy, ?_⟩
  intro z hz hend
  exact hv z hz (hended z (by simp [hz]) hend)

theorem after (h : Since began ended (u ++ x :: v)) (hx : ended x) (hdiff : ¬began x) :
    Since began ended v := by
  obtain ⟨u', y, v', heq, hy, hv⟩ := h
  obtain ⟨w, rfl, hw⟩ | ⟨w, hu, hw⟩ := List.append_eq_append_iff.mp heq
  · cases w with
    | nil =>
      obtain ⟨rfl, rfl⟩ := List.cons.inj hw
      exact absurd hy hdiff
    | cons z w =>
      obtain ⟨rfl, rfl⟩ := List.cons.inj hw
      exact ⟨w, y, v', rfl, hy, hv⟩
  · cases w with
    | nil =>
      obtain ⟨rfl, rfl⟩ := List.cons.inj hw
      exact absurd hy hdiff
    | cons z w =>
      obtain ⟨rfl, rfl⟩ := List.cons.inj hw
      exact absurd hx (hv x (by simp))

end Since

/-- The step lemma of a condition gives its run lemma. -/
theorem Run.since {I P : σ → Prop} {began ended : Entry σ ε ρ → Prop}
    (hI : ∀ {s e r s'}, I s → step s e = some (r, s') → I s')
    (hstep : ∀ {s e r s'}, I s → step s e = some (r, s') → P s' →
      began ⟨s, e, r, s'⟩ ∨ P s ∧ ¬ended ⟨s, e, r, s'⟩)
    (h : Run step s t s') (hs : I s) (hnot : ¬P s) (hP : P s') : Since began ended t := by
  induction h with
  | nil => exact absurd hP hnot
  | @snoc t m e r s'' hprior hlast ih =>
    obtain hbegan | ⟨hm, hended⟩ := hstep (hprior.invariant hI hs) hlast hP
    · exact .here hbegan
    · exact (ih hm).snoc hended

theorem Run.of_since {P : σ → Prop} {began ended : Entry σ ε ρ → Prop}
    (hbegan : ∀ {s e r s'}, step s e = some (r, s') → began ⟨s, e, r, s'⟩ → P s')
    (hkeep : ∀ {s e r s'}, step s e = some (r, s') → ¬ended ⟨s, e, r, s'⟩ → P s → P s')
    (h : Run step s t s') (hsince : Since began ended t) : P s' := by
  obtain ⟨u, x, v, rfl, hx, hv⟩ := hsince
  obtain ⟨-, hstep, hrest⟩ := h.at_entry
  have hnow : P x.after := hbegan hstep hx
  clear h
  induction hrest with
  | nil => exact hnow
  | @snoc w m e r s'' hprior hlast ih =>
    have hm : P m := ih fun y hy => hv y (List.mem_append_left _ hy)
    exact hkeep hlast (hv _ (by simp)) hm

theorem eq_of_nodup_filterMap {f : Entry σ ε ρ → Option ν} {u' v' : List (Entry σ ε ρ)}
    {y : Entry σ ε ρ} {a : ν} (hnodup : ((u ++ x :: v).filterMap f).Nodup)
    (heq : u ++ x :: v = u' ++ y :: v') (hx : f x = some a) (hy : f y = some a) : x = y := by
  have hmem : ∀ w w' : List (Entry σ ε ρ), ∀ z z' : Entry σ ε ρ, f z = some a → f z' = some a →
      z' ∈ w' → ¬((w ++ z :: w').filterMap f).Nodup := by
    intro w w' z z' hz hz' hw' hno
    rw [List.filterMap_append, List.filterMap_cons_some hz] at hno
    have htail := (List.nodup_append.mp hno).2.1
    exact (List.nodup_cons.mp htail).1 (List.mem_filterMap.mpr ⟨z', hw', hz'⟩)
  obtain ⟨w, rfl, hw⟩ | ⟨w, rfl, hw⟩ := List.append_eq_append_iff.mp heq
  · cases w with
    | nil => exact (List.cons.inj hw).1
    | cons z w =>
      obtain ⟨rfl, rfl⟩ := List.cons.inj hw
      exact absurd hnodup (hmem u _ x y hx hy (by simp))
  · cases w with
    | nil => exact (List.cons.inj hw).1.symm
    | cons z w =>
      obtain ⟨rfl, rfl⟩ := List.cons.inj hw
      rw [heq] at hnodup
      exact absurd hnodup (hmem u' _ y x hy hx (by simp))

end Noted.Library
