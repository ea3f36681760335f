import Mathlib.Data.List.Induction

/-!
# Runs of a state machine

A step takes a state and an event to a response and the next state, or is not
enabled. A run is a sequence of steps, and its trace records each of them with the
states around it. What every step keeps, every run keeps; a step that can happen
only before a lasting condition holds, and brings it about, happens at most once;
and steps that name a value which later states remember all name one value.
-/

namespace Noted.Library

variable {σ ε ρ ν : Type*} {step : σ → ε → Option (ρ × σ)}

structure Entry (σ ε ρ : Type*) where
  before : σ
  event : ε
  response : ρ
  after : σ

inductive Run (step : σ → ε → Option (ρ × σ)) (s : σ) : List (Entry σ ε ρ) → σ → Prop
  | nil : Run step s [] s
  | snoc {t s' e r s''} : Run step s t s' → step s' e = some (r, s'') →
      Run step s (t ++ [⟨s', e, r, s''⟩]) s''

namespace Run

variable {s s' : σ} {t u : List (Entry σ ε ρ)} {x : Entry σ ε ρ} {I P : σ → Prop}

theorem invariant (hstep : ∀ {s e r s'}, P s → step s e = some (r, s') → P s')
    (h : Run step s t s') (hs : P s) : P s' := by
  induction h with
  | nil => exact hs
  | snoc _ hlast ih => exact hstep ih hlast

theorem eq_of_nil (h : Run step s [] s') : s' = s := by
  generalize ht : ([] : List (Entry σ ε ρ)) = t at h
  cases h with
  | nil => rfl
  | snoc => simp at ht

theorem trans {m : σ} (h : Run step s t m) (h' : Run step m u s') : Run step s (t ++ u) s' := by
  induction h' with
  | nil => simpa using h
  | snoc _ hlast ih =>
    rw [← List.append_assoc]
    exact ih.snoc hlast

theorem split (h : Run step s (t ++ u) s') : ∃ m, Run step s t m ∧ Run step m u s' := by
  induction u using List.reverseRecOn generalizing s' with
  | nil => exact ⟨s', by simpa using h, .nil⟩
  | append_singleton u p ih =>
    rw [← List.append_assoc] at h
    generalize hw : t ++ u ++ [p] = w at h
    cases h with
    | nil => simp at hw
    | @snoc v m e r _ hprior hlast =>
      obtain ⟨rfl, hp⟩ := List.append_inj' hw rfl
      obtain rfl : p = ⟨m, e, r, s'⟩ := by simpa using hp
      obtain ⟨n, hn, hn'⟩ := ih hprior
      exact ⟨n, hn, hn'.snoc hlast⟩

theorem at_entry (h : Run step s (t ++ x :: u) s') :
    Run step s t x.before ∧ step x.before x.event = some (x.response, x.after) ∧
      Run step x.after u s' := by
  rw [List.append_cons] at h
  obtain ⟨m', hfirst, hrest⟩ := h.split
  generalize hw : t ++ [x] = w at hfirst
  cases hfirst with
  | nil => simp at hw
  | @snoc v m e r _ hprior hlast =>
    obtain ⟨rfl, hp⟩ := List.append_inj' hw rfl
    obtain rfl : x = ⟨m, e, r, m'⟩ := by simpa using hp
    exact ⟨hprior, hlast, hrest⟩

theorem at_mem (hstep : ∀ {s e r s'}, P s → step s e = some (r, s') → P s')
    (h : Run step s t s') (hs : P s) (hx : x ∈ t) :
    P x.before ∧ step x.before x.event = some (x.response, x.after) := by
  obtain ⟨u, v, rfl⟩ := List.append_of_mem hx
  obtain ⟨hprior, hlast, -⟩ := h.at_entry
  exact ⟨hprior.invariant hstep hs, hlast⟩

section Conditions

variable {C : σ → ε → Prop}

/-- What every step that meets a condition keeps, a run of such steps keeps. -/
theorem invariant_of (hstep : ∀ {s e r s'}, P s → C s e → step s e = some (r, s') → P s')
    (h : Run step s t s') (hs : P s) (hall : ∀ x ∈ t, C x.before x.event) : P s' := by
  induction h with
  | nil => exact hs
  | snoc _ hlast ih =>
    have hC := hall _ (List.mem_append_right _ (List.mem_singleton_self _))
    exact hstep (ih fun x hx => hall x (List.mem_append_left _ hx)) hC hlast

theorem at_mem_of (hstep : ∀ {s e r s'}, P s → C s e → step s e = some (r, s') → P s')
    (h : Run step s t s') (hs : P s) (hall : ∀ x ∈ t, C x.before x.event) (hx : x ∈ t) :
    P x.before ∧ C x.before x.event ∧ step x.before x.event = some (x.response, x.after) := by
  have hC := hall x hx
  obtain ⟨u, v, rfl⟩ := List.append_of_mem hx
  obtain ⟨hprior, hlast, -⟩ := h.at_entry
  refine ⟨hprior.invariant_of hstep hs ?_, hC, hlast⟩
  intro y hy
  exact hall y (List.mem_append_left _ hy)

end Conditions

/-- Steps of a kind that need a condition not to hold, and make it hold for good,
happen at most once in a run, and not at all after it holds. -/
theorem countP_le_one {hit : Entry σ ε ρ → Bool}
    (hI : ∀ {s e r s'}, I s → step s e = some (r, s') → I s')
    (hkeep : ∀ {s e r s'}, I s → step s e = some (r, s') → P s → P s')
    (hhit : ∀ {s e r s'}, I s → step s e = some (r, s') → hit ⟨s, e, r, s'⟩ = true → ¬P s ∧ P s')
    (h : Run step s t s') (hs : I s) :
    t.countP hit ≤ 1 ∧ (0 < t.countP hit → P s') ∧ (P s → t.countP hit = 0 ∧ P s') := by
  induction h with
  | nil => simp
  | @snoc t m e r s'' hprior hlast ih =>
    obtain ⟨hle, hpos, hzero⟩ := ih
    have hm : I m := hprior.invariant hI hs
    rw [List.countP_append, List.countP_singleton]
    cases hh : hit ⟨m, e, r, s''⟩ with
    | true =>
      obtain ⟨hnot, hnow⟩ := hhit hm hlast hh
      have hnone : t.countP hit = 0 := by
        by_contra hne
        exact hnot (hpos (by omega))
      refine ⟨by simp [hnone], fun _ => hnow, ?_⟩
      intro hp
      exact absurd (hzero hp).2 hnot
    | false =>
      simp only [Bool.false_eq_true, if_false, Nat.add_zero]
      refine ⟨hle, fun h => hkeep hm hlast (hpos h), ?_⟩
      intro hp
      exact ⟨(hzero hp).1, hkeep hm hlast (hzero hp).2⟩

theorem values_agree (value : Entry σ ε ρ → Option ν) (Q : ν → σ → Prop)
    (hI : ∀ {s e r s'}, I s → step s e = some (r, s') → I s')
    (hkeep : ∀ {s e r s' v}, I s → step s e = some (r, s') → Q v s → Q v s')
    (hvalue : ∀ {s e r s' v}, I s → step s e = some (r, s') → value ⟨s, e, r, s'⟩ = some v → Q v s')
    (hagree : ∀ {s e r s' v w}, I s → step s e = some (r, s') → Q v s →
      value ⟨s, e, r, s'⟩ = some w → w = v)
    (h : Run step s t s') (hs : I s) :
    (∀ x ∈ t, ∀ v, value x = some v → Q v s') ∧
      ∀ x ∈ t, ∀ y ∈ t, ∀ v w, value x = some v → value y = some w → v = w := by
  induction h with
  | nil => simp
  | @snoc t m e r s'' hprior hlast ih =>
    obtain ⟨hremember, hsame⟩ := ih
    have hm : I m := hprior.invariant hI hs
    constructor
    · intro x hx v hv
      obtain hx | hx := List.mem_append.mp hx
      · exact hkeep hm hlast (hremember x hx v hv)
      · obtain rfl : x = ⟨m, e, r, s''⟩ := by simpa using hx
        exact hvalue hm hlast hv
    · intro x hx y hy v w hv hw
      obtain hx | hx := List.mem_append.mp hx
      · obtain hy | hy := List.mem_append.mp hy
        · exact hsame x hx y hy v w hv hw
        · obtain rfl : y = ⟨m, e, r, s''⟩ := by simpa using hy
          exact (hagree hm hlast (hremember x hx v hv) hw).symm
      · obtain rfl : x = ⟨m, e, r, s''⟩ := by simpa using hx
        obtain hy | hy := List.mem_append.mp hy
        · exact hagree hm hlast (hremember y hy w hw) hv
        · obtain rfl : y = ⟨m, e, r, s''⟩ := by simpa using hy
          exact Option.some.inj (hv.symm.trans hw)

def lastOf (value : ε → Option ν) (first : ν) (t : List (Entry σ ε ρ)) : ν :=
  (t.filterMap fun x => value x.event).getLastD first

theorem lastOf_snoc (value : ε → Option ν) (first : ν) :
    lastOf value first (t ++ [x]) = (value x.event).getD (lastOf value first t) := by
  have hlast : ([x].filterMap fun y => value y.event) = (value x.event).toList := by
    cases h : value x.event <;> simp [h]
  rw [lastOf, List.filterMap_append, hlast]
  cases value x.event with
  | none => rw [Option.toList_none, List.append_nil]; rfl
  | some v => rw [Option.toList_some, List.getLastD_concat]; rfl

theorem eq_lastOf {value : ε → Option ν} {part : σ → ν}
    (hpart : ∀ {s e r s'}, step s e = some (r, s') → part s' = (value e).getD (part s))
    (h : Run step s t s') : part s' = lastOf value (part s) t := by
  induction h with
  | nil => rfl
  | snoc _ hlast ih => rw [lastOf_snoc, hpart hlast, ih]

end Run

section Replay

def replay (step : σ → ε → Option (ρ × σ)) : σ → List ε → Option (List (Entry σ ε ρ) × σ)
  | s, [] => some ([], s)
  | s, e :: es =>
    match step s e with
    | none => none
    | some (r, s') => (replay step s' es).map fun p => (⟨s, e, r, s'⟩ :: p.1, p.2)

theorem run_of_replay {s s' : σ} {es : List ε} {t : List (Entry σ ε ρ)}
    (h : replay step s es = some (t, s')) : Run step s t s' := by
  induction es generalizing s t with
  | nil =>
    obtain ⟨rfl, rfl⟩ : t = [] ∧ s' = s := by simpa [replay, eq_comm] using h
    exact .nil
  | cons e es ih =>
    unfold replay at h
    split at h
    · cases h
    · rename_i r m hm
      obtain ⟨p, hp, heq⟩ := Option.map_eq_some_iff.mp h
      obtain ⟨rfl, rfl⟩ : ⟨s, e, r, m⟩ :: p.1 = t ∧ p.2 = s' := by simpa using heq
      have hfirst : Run step s [⟨s, e, r, m⟩] m := Run.nil.snoc hm
      exact hfirst.trans (ih hp)

/-- A list of events whose run can be computed, and what the run is like. -/
theorem exists_run {s : σ} (es : List ε) {p : List (Entry σ ε ρ) → σ → Bool}
    (h : ((replay step s es).any fun q => p q.1 q.2) = true) :
    ∃ t s', Run step s t s' ∧ p t s' = true := by
  obtain ⟨⟨t, s'⟩, hreplay, hp⟩ := (Option.any_eq_true _ _).mp h
  exact ⟨t, s', run_of_replay hreplay, hp⟩

end Replay

end Noted.Library
