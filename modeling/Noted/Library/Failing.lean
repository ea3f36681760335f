/-!
# Computations that may fail midway

A computation that changes a state and may fail keeps the changes that it made
before. Its specification says from which states it is run, what holds where it
succeeds, and what holds where it fails; a chain is specified link by link.
-/

namespace Noted.Library

def Failing (σ ε α : Type) := σ → Except ε α × σ

namespace Failing

variable {σ ε α β : Type}

instance : Monad (Failing σ ε) where
  pure a := fun s => (.ok a, s)
  bind x f := fun s =>
    match x s with
    | (.ok a, s') => f a s'
    | (.error e, s') => (.error e, s')

def fail (e : ε) : Failing σ ε α := fun s => (.error e, s)

def change (f : σ → σ) : Failing σ ε Unit := fun s => (.ok (), f s)

def ofExcept : Except ε α → Failing σ ε α
  | .ok a => pure a
  | .error e => fail e

def looking (f : σ → Failing σ ε α) : Failing σ ε α := fun s => f s s

/-- `last` is run in any case, and an error of both is joined. -/
def deferring (x : Failing σ ε α) (last : Failing σ ε Unit) (join : ε → ε → ε) :
    Failing σ ε α := fun s =>
  match x s with
  | (.ok a, s') => ((last >>= fun _ => pure a) : Failing σ ε α) s'
  | (.error e, s') =>
    match last s' with
    | (.ok _, s'') => (.error e, s'')
    | (.error e', s'') => (.error (join e e'), s'')

/-- From a state with `P`, the result and the state after it have `Q`, or the error and
the state after it `E`. -/
def Spec (P : σ → Prop) (x : Failing σ ε α) (Q : α → σ → Prop) (E : ε → σ → Prop) : Prop :=
  ∀ s, P s → (∀ a s', x s = (.ok a, s') → Q a s') ∧ ∀ e s', x s = (.error e, s') → E e s'

section Rules

variable {P P' : σ → Prop} {x : Failing σ ε α} {Q Q' : α → σ → Prop} {E : ε → σ → Prop}

theorem bind_ok {f : α → Failing σ ε β} {s s' : σ} {a : α} (h : x s = (.ok a, s')) :
    (x >>= f) s = f a s' := by
  simp only [bind, h]

theorem bind_error {f : α → Failing σ ε β} {s s' : σ} {e : ε} (h : x s = (.error e, s')) :
    (x >>= f) s = (.error e, s') := by
  simp only [bind, h]

theorem Spec.pure {a : α} (h : ∀ s, P s → Q a s) : Spec P (pure a : Failing σ ε α) Q E := by
  intro s hs
  refine ⟨?_, ?_⟩
  · intro b s' hb
    cases hb
    exact h s hs
  · intro e s' he
    cases he

theorem Spec.fail {e : ε} (h : ∀ s, P s → E e s) : Spec P (fail e : Failing σ ε α) Q E := by
  intro s hs
  refine ⟨?_, ?_⟩
  · intro b s' hb
    cases hb
  · intro e' s' he
    cases he
    exact h s hs

theorem Spec.change {f : σ → σ} {Q : Unit → σ → Prop} (h : ∀ s, P s → Q () (f s)) :
    Spec P (change f : Failing σ ε Unit) Q E := by
  intro s hs
  refine ⟨?_, ?_⟩
  · intro b s' hb
    cases hb
    exact h s hs
  · intro e s' he
    cases he

theorem Spec.bind {f : α → Failing σ ε β} {R : β → σ → Prop} (hx : Spec P x Q E)
    (hf : ∀ a, Spec (Q a) (f a) R E) : Spec P (x >>= f) R E := by
  intro s hs
  obtain ⟨hok, herror⟩ := hx s hs
  rcases hresult : x s with ⟨e | a, s'⟩
  · rw [bind_error hresult]
    refine ⟨?_, ?_⟩
    · intro b t hb
      cases hb
    · intro e' t he
      cases he
      exact herror e s' hresult
  · rw [bind_ok hresult]
    exact hf a s' (hok a s' hresult)

theorem Spec.mono (h : Spec P x Q E) (hP : ∀ s, P' s → P s) (hQ : ∀ a s, Q a s → Q' a s) :
    Spec P' x Q' E := by
  intro s hs
  obtain ⟨hok, herror⟩ := h s (hP s hs)
  exact ⟨fun a s' ha => hQ a s' (hok a s' ha), herror⟩

theorem Spec.of_post (h : Spec P x Q E) (hQ : ∀ a s, Q a s → Q' a s) : Spec P x Q' E :=
  h.mono (fun _ hP => hP) hQ

theorem Spec.assume {p : Prop} (h : p → Spec P x Q E) : Spec (fun s => p ∧ P s) x Q E := by
  intro s hs
  exact h hs.1 s hs.2

theorem Spec.witness {ι : Type} {P : ι → σ → Prop} (h : ∀ i, Spec (P i) x Q E) :
    Spec (fun s => ∃ i, P i s) x Q E := by
  intro s hs
  obtain ⟨i, hi⟩ := hs
  exact h i s hi

theorem Spec.looking {f : σ → Failing σ ε α} (h : ∀ t, P t → Spec (fun s => s = t) (f t) Q E) :
    Spec P (looking f) Q E := by
  intro s hs
  exact h s hs s rfl

theorem Spec.ofExcept {y : Except ε α} (hok : ∀ a, y = .ok a → ∀ s, P s → Q a s)
    (herror : ∀ e, y = .error e → ∀ s, P s → E e s) :
    Spec P (ofExcept y : Failing σ ε α) Q E := by
  cases y with
  | ok a => exact Spec.pure (hok a rfl)
  | error e => exact Spec.fail (herror e rfl)

theorem Spec.deferring {last : Failing σ ε Unit} {join : ε → ε → ε} {E' : ε → σ → Prop}
    (hx : Spec P x Q E') (hlast : ∀ a, Spec (Q a) last (fun _ => Q' a) E)
    (hfailed : ∀ e, Spec (E' e) last (fun _ => E e) fun e' => E (join e e')) :
    Spec P (deferring x last join) Q' E := by
  intro s hs
  obtain ⟨hok, herror⟩ := hx s hs
  unfold Failing.deferring
  rcases hresult : x s with ⟨e | a, s'⟩
  · obtain ⟨hclosed, hunclosed⟩ := hfailed e s' (herror e s' hresult)
    dsimp only
    rcases hclose : last s' with ⟨e' | u, s''⟩
    · refine ⟨?_, ?_⟩
      · intro b t hb
        cases hb
      · intro e'' t he
        cases he
        exact hunclosed e' s'' hclose
    · refine ⟨?_, ?_⟩
      · intro b t hb
        cases hb
      · intro e'' t he
        cases he
        exact hclosed u s'' hclose
  · have hrest : Spec (Q a) (last >>= fun _ => (Pure.pure a : Failing σ ε α)) Q' E :=
      (hlast a).bind fun _ => Spec.pure fun _ h => h
    exact hrest s' (hok a s' hresult)

end Rules

end Failing

end Noted.Library
