import Mathlib.Logic.Basic

/-!
# Computations that may be refused

A computation in `Except` is a chain of attempts; `refuse` is the check that
stops it and `demand` the lookup that must find something. The lemmas take a
chain that succeeded, or one that failed, apart at its binds.
-/

namespace Noted.Library

universe u v

variable {ε : Type u} {α β : Type v}

def refuse (c : Prop) [Decidable c] (e : ε) : Except ε PUnit := if c then .error e else .ok ⟨⟩

def demand (o : Option α) (e : ε) : Except ε α :=
  match o with
  | none => .error e
  | some a => .ok a

section Refuse

variable {c : Prop} [Decidable c] {e e' : ε} {u : PUnit}

@[simp] theorem refuse_eq_ok : refuse c e = .ok u ↔ ¬c := by
  unfold refuse
  split <;> simp_all

@[simp] theorem refuse_eq_error : refuse c e = .error e' ↔ c ∧ e = e' := by
  unfold refuse
  split <;> simp_all

theorem refuse_of_not (h : ¬c) : (refuse c e : Except ε PUnit) = .ok ⟨⟩ := if_neg h

theorem refuse_of (h : c) : (refuse c e : Except ε PUnit) = .error e := if_pos h

@[simp] theorem demand_eq_ok {o : Option α} {a : α} : demand o e = .ok a ↔ o = some a := by
  cases o <;> simp [demand]

@[simp] theorem demand_eq_error {o : Option α} : demand o e = .error e' ↔ o = none ∧ e = e' := by
  cases o <;> simp [demand]

@[simp] theorem demand_some {a : α} : demand (some a) e = .ok a := rfl

@[simp] theorem demand_none : demand (none : Option α) e = .error e := rfl

end Refuse

section Bind

variable {x : Except ε α} {f : α → Except ε β} {b : β} {e : ε}

theorem bind_eq_ok : (x >>= f) = .ok b ↔ ∃ a, x = .ok a ∧ f a = .ok b := by
  cases x with
  | error e => simp [bind, Except.bind]
  | ok a => simp [bind, Except.bind]

theorem map_eq_ok {g : α → β} : (g <$> x) = .ok b ↔ ∃ a, x = .ok a ∧ g a = b := by
  cases x with
  | error e => simp [Functor.map, Except.map]
  | ok a => simp [Functor.map, Except.map]

@[simp] theorem ok_bind (a : α) (f : α → Except ε β) : ((.ok a : Except ε α) >>= f) = f a := rfl

@[simp] theorem error_bind (e : ε) (f : α → Except ε β) :
    ((.error e : Except ε α) >>= f) = .error e := rfl

@[simp] theorem pure_eq_ok (a : α) : (pure a : Except ε α) = .ok a := rfl

end Bind

section Fold

theorem mem_of_mapM_eq_ok {α β : Type v} {f : α → Except ε β} {l : List α} {l' : List β} {b : β}
    (h : l.mapM f = .ok l') (hb : b ∈ l') : ∃ a ∈ l, f a = .ok b := by
  induction l generalizing l' with
  | nil =>
    obtain rfl : [] = l' := by simpa using h
    cases hb
  | cons a l ih =>
    rw [List.mapM_cons] at h
    obtain ⟨c, hc, h⟩ := bind_eq_ok.mp h
    obtain ⟨cs, hcs, h⟩ := bind_eq_ok.mp h
    obtain rfl : c :: cs = l' := by simpa using h
    obtain rfl | hb := List.mem_cons.mp hb
    · exact ⟨a, List.mem_cons_self, hc⟩
    · obtain ⟨a', ha', hfa⟩ := ih hcs hb
      exact ⟨a', List.mem_cons_of_mem a ha', hfa⟩

end Fold

end Noted.Library
