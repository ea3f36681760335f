import Noted.Library.Runs

/-!
# What one participant sees of a run

Some events of a system concern a participant, and a view of a state is what the
participant can learn from it. If the other events leave the view as it is, and events
that are the same to the participant give one response and one view in any two states
that look alike at one time, then the other events of a run do not matter: the view at
the start and the events that concern the participant settle every response to them.
-/

namespace Noted.Library

variable {σ ε ρ τ ω κ : Type*} {step : σ → ε → Option (ρ × σ)} {I : σ → Prop}
  {concern : ε → Option κ} {time : σ → τ} {view : σ → ω}

/-- The unwinding conditions, for states of an invariant. -/
structure Unwinds (step : σ → ε → Option (ρ × σ)) (I : σ → Prop) (concern : ε → Option κ)
    (time : σ → τ) (view : σ → ω) : Prop where
  invariant : ∀ {s e r s'}, I s → step s e = some (r, s') → I s'
  others : ∀ {s e r s'}, I s → step s e = some (r, s') → concern e = none → view s' = view s
  own : ∀ {s₁ s₂ e₁ e₂ r₁ r₂ s₁' s₂' c}, I s₁ → I s₂ → step s₁ e₁ = some (r₁, s₁') →
    step s₂ e₂ = some (r₂, s₂') → concern e₁ = some c → concern e₂ = some c →
    time s₁ = time s₂ → view s₁ = view s₂ → r₁ = r₂ ∧ view s₁' = view s₂'

def ownEvents (concern : ε → Option κ) (time : σ → τ) (t : List (Entry σ ε ρ)) : List (τ × κ) :=
  t.filterMap fun x => (concern x.event).map fun c => (time x.before, c)

def ownResponses (concern : ε → Option κ) (t : List (Entry σ ε ρ)) : List ρ :=
  t.filterMap fun x => (concern x.event).map fun _ => x.response

section Entries

variable {t u : List (Entry σ ε ρ)} {x : Entry σ ε ρ} {c : κ}

theorem ownEvents_snoc (hx : concern x.event = some c) :
    ownEvents concern time (t ++ [x]) = ownEvents concern time t ++ [(time x.before, c)] := by
  simp [ownEvents, hx]

theorem ownEvents_snoc_other (hx : concern x.event = none) :
    ownEvents concern time (t ++ [x]) = ownEvents concern time t := by
  simp [ownEvents, hx]

theorem ownResponses_snoc (hx : concern x.event = some c) :
    ownResponses concern (t ++ [x]) = ownResponses concern t ++ [x.response] := by
  simp [ownResponses, hx]

theorem ownResponses_snoc_other (hx : concern x.event = none) :
    ownResponses concern (t ++ [x]) = ownResponses concern t := by
  simp [ownResponses, hx]

theorem ownResponses_append_other (h : ∀ z ∈ u, concern z.event = none) :
    ownResponses concern (t ++ u) = ownResponses concern t := by
  have hnil : ownResponses concern u = [] := by
    rw [ownResponses, List.filterMap_eq_nil_iff]
    intro z hz
    rw [h z hz, Option.map_none]
  rw [ownResponses, List.filterMap_append, ← ownResponses, ← ownResponses, hnil, List.append_nil]

theorem idle_of_ownEvents (h : ownEvents concern time t = []) :
    ∀ z ∈ t, concern z.event = none := by
  intro z hz
  have hnone := List.filterMap_eq_nil_iff.mp h z hz
  exact Option.map_eq_none_iff.mp hnone

theorem exists_last_own {l : List (τ × κ)} {o : τ × κ}
    (h : ownEvents concern time t = l ++ [o]) : ∃ u y v, t = u ++ y :: v ∧
      ownEvents concern time u = l ∧ time y.before = o.1 ∧ concern y.event = some o.2 ∧
      ∀ z ∈ v, concern z.event = none := by
  induction t using List.reverseRecOn with
  | nil => simp [ownEvents] at h
  | append_singleton t x ih =>
    cases hx : concern x.event with
    | some c =>
      rw [ownEvents_snoc hx] at h
      obtain ⟨hl, ho⟩ := List.append_inj' h rfl
      obtain rfl := List.singleton_inj.mp ho
      exact ⟨t, x, [], rfl, hl, rfl, hx, by simp⟩
    | none =>
      rw [ownEvents_snoc_other hx] at h
      obtain ⟨u, y, v, rfl, hu, htime, hy, hv⟩ := ih h
      refine ⟨u, y, v ++ [x], by simp, hu, htime, hy, ?_⟩
      intro z hz
      obtain hz | hz := List.mem_append.mp hz
      · exact hv z hz
      · rwa [List.mem_singleton.mp hz]

end Entries

namespace Unwinds

variable {s s' s₁ s₁' s₂ s₂' : σ} {t t₁ t₂ : List (Entry σ ε ρ)}

/-- A run of other events leaves the view as it is. -/
theorem idle (h : Unwinds step I concern time view) (hrun : Run step s t s') (hs : I s)
    (hidle : ∀ z ∈ t, concern z.event = none) : view s' = view s := by
  induction hrun with
  | nil => rfl
  | snoc hprior hlast ih =>
    have hm := hprior.invariant h.invariant hs
    rw [h.others hm hlast (hidle _ (List.mem_append_right _ (List.mem_singleton_self _)))]
    exact ih fun z hz => hidle z (List.mem_append_left _ hz)

/-- Two runs with the same own events, from states that look alike, give the same responses
to them and end in states that look alike. -/
theorem agree (h : Unwinds step I concern time view) (hrun₁ : Run step s₁ t₁ s₁')
    (hrun₂ : Run step s₂ t₂ s₂') (hI₁ : I s₁) (hI₂ : I s₂) (hview : view s₁ = view s₂)
    (hsame : ownEvents concern time t₁ = ownEvents concern time t₂) :
    ownResponses concern t₁ = ownResponses concern t₂ ∧ view s₁' = view s₂' := by
  induction hrun₁ generalizing t₂ s₂' with
  | nil =>
    have hidle := idle_of_ownEvents hsame.symm
    refine ⟨?_, hview.trans (h.idle hrun₂ hI₂ hidle).symm⟩
    exact (ownResponses_append_other (t := []) hidle).symm
  | @snoc t m e r s'' hprior hlast ih =>
    have hm := hprior.invariant h.invariant hI₁
    cases he : concern e with
    | none =>
      rw [ownEvents_snoc_other he] at hsame
      obtain ⟨hresponses, hafter⟩ := ih hrun₂ hsame
      rw [ownResponses_snoc_other he, h.others hm hlast he]
      exact ⟨hresponses, hafter⟩
    | some c =>
      rw [ownEvents_snoc he] at hsame
      obtain ⟨u, y, v, rfl, hu, htime, hy, hv⟩ := exists_last_own hsame.symm
      obtain ⟨hbefore, hstep, hrest⟩ := hrun₂.at_entry
      have hym := hbefore.invariant h.invariant hI₂
      obtain ⟨hresponses, hafter⟩ := ih hbefore hu.symm
      obtain ⟨rfl, hlook⟩ := h.own hm hym hlast hstep he hy htime.symm hafter
      rw [ownResponses_snoc he, List.append_cons u y v, ownResponses_append_other hv,
        ownResponses_snoc hy, hresponses]
      exact ⟨rfl, hlook.trans (h.idle hrest (h.invariant hym hstep) hv).symm⟩

end Unwinds

end Noted.Library
