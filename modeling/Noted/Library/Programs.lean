import Noted.Library.Runs

/-!
# Programs that run at the same time

A program makes calls, and goes on with the answer of each. Programs of a pool share a
state, which the calls read and write, and any of them may make its next call. A rule
says which call a program may make after which answers; a pool whose programs keep to it
keeps to it in every run, however the calls of the programs are mixed.
-/

namespace Noted.Library

universe u v

variable {C : Type u} {R : C → Type v} {α β σ τ χ : Type v}

inductive Program (R : C → Type v) (α : Type v)
  | done (a : α)
  | call (c : C) (next : R c → Program R α)

/-- The calls that a program has made, with their answers. -/
abbrev Past (R : C → Type v) := List (Sigma R)

namespace Program

def bind (p : Program R α) (f : α → Program R β) : Program R β :=
  match p with
  | .done a => f a
  | .call c next => .call c fun r => (next r).bind f

instance : Monad (Program R) where
  pure := .done
  bind := .bind

def perform (c : C) : Program R (R c) := .call c .done

/-- Each call that a program makes after its past keeps to a rule, and what it comes to
meets a condition. -/
def Meets (rule : Past R → C → Prop) (post : Past R → α → Prop) : Past R → Program R α → Prop
  | past, .done a => post past a
  | past, .call c next => rule past c ∧ ∀ r, Meets rule post (past ++ [⟨c, r⟩]) (next r)

variable {rule : Past R → C → Prop} {post post' : Past R → α → Prop} {past : Past R}

@[simp] theorem meets_pure {a : α} : Meets rule post past (pure a) ↔ post past a := Iff.rfl

@[simp] theorem meets_perform {c : C} {post : Past R → R c → Prop} :
    Meets rule post past (perform c) ↔ rule past c ∧ ∀ r, post (past ++ [⟨c, r⟩]) r := Iff.rfl

@[simp] theorem meets_bind {f : α → Program R β} {post : Past R → β → Prop} {p : Program R α} :
    Meets rule post past (p >>= f) ↔
      Meets rule (fun past a => Meets rule post past (f a)) past p := by
  change Meets rule post past (p.bind f) ↔ _
  induction p generalizing past with
  | done a => exact Iff.rfl
  | call c next ih =>
    simp only [bind, Meets]
    exact and_congr_right fun _ => forall_congr' fun r => ih r

theorem Meets.mono {p : Program R α} (h : Meets rule post past p)
    (hpost : ∀ more a, post (past ++ more) a → post' (past ++ more) a) :
    Meets rule post' past p := by
  induction p generalizing past with
  | done a => simpa [Meets] using hpost [] a (by simpa [Meets] using h)
  | call c next ih =>
    refine ⟨h.1, fun r => ih r (h.2 r) fun more a hmore => ?_⟩
    have hlong := hpost (⟨c, r⟩ :: more) a (by simpa using hmore)
    simpa using hlong

end Program

/-- A program of a pool, the task it was begun for, and how far it is. -/
structure Thread (R : C → Type v) (τ α : Type v) where
  task : τ
  past : Past R
  left : Program R α

structure Pool (R : C → Type v) (σ τ α : Type v) where
  shared : σ
  threads : List (Thread R τ α)

namespace Pool

inductive Event (τ χ : Type v)
  | begin (task : τ)
  /-- The next call of a thread, and what is left open about its answer. -/
  | advance (n : Nat) (choice : χ)

variable (main : τ → Program R α) (exec : (c : C) → χ → σ → Option (R c × σ))

def step (p : Pool R σ τ α) : Event τ χ → Option (Option (Sigma R) × Pool R σ τ α)
  | .begin task => some (none, { p with threads := p.threads ++ [⟨task, [], main task⟩] })
  | .advance n choice =>
    match p.threads[n]? with
    | some ⟨task, past, .call c next⟩ =>
      (exec c choice p.shared).map fun q =>
        (some ⟨c, q.1⟩, ⟨q.2, p.threads.set n ⟨task, past ++ [⟨c, q.1⟩], next q.1⟩⟩)
    | _ => none

inductive Move (p : Pool R σ τ α) : Event τ χ → Option (Sigma R) → Pool R σ τ α → Prop
  | begin (task : τ) :
      Move p (.begin task) none { p with threads := p.threads ++ [⟨task, [], main task⟩] }
  | advance {n choice task past c next r s}
      (hthread : p.threads[n]? = some ⟨task, past, .call c next⟩)
      (hexec : exec c choice p.shared = some (r, s)) :
      Move p (.advance n choice) (some ⟨c, r⟩)
        ⟨s, p.threads.set n ⟨task, past ++ [⟨c, r⟩], next r⟩⟩

variable {main exec} {p q : Pool R σ τ α} {e : Event τ χ} {a : Option (Sigma R)} {n : Nat}
  {t : List (Entry (Pool R σ τ α) (Event τ χ) (Option (Sigma R)))} {th : Thread R τ α}

theorem move_of_step (h : step main exec p e = some (a, q)) : Move main exec p e a q := by
  cases e with
  | begin task =>
    obtain ⟨rfl, rfl⟩ := Prod.mk.inj (Option.some.inj h)
    exact .begin task
  | advance n choice =>
    simp only [step] at h
    split at h
    · rename_i task past c next hthread
      obtain ⟨⟨r, s⟩, hexec, heq⟩ := Option.map_eq_some_iff.mp h
      obtain ⟨rfl, rfl⟩ := Prod.mk.inj heq
      exact .advance hthread hexec
    · cases h

theorem threads_cases (h : Move main exec p e a q) (hth : q.threads[n]? = some th) :
    p.threads[n]? = some th ∨
      (∃ task, e = .begin task ∧ n = p.threads.length ∧ th = ⟨task, [], main task⟩) ∨
      ∃ choice task past c next r, e = .advance n choice ∧ a = some ⟨c, r⟩ ∧
        p.threads[n]? = some ⟨task, past, .call c next⟩ ∧
        th = ⟨task, past ++ [⟨c, r⟩], next r⟩ := by
  cases h with
  | begin task =>
    by_cases hn : n < p.threads.length
    · rw [List.getElem?_append_left hn] at hth
      exact Or.inl hth
    · rw [List.getElem?_append_right (by omega)] at hth
      obtain ⟨hlen, hnew⟩ := List.getElem?_eq_some_iff.mp hth
      simp only [List.length_singleton] at hlen
      exact Or.inr (Or.inl ⟨task, rfl, by omega, by simpa using hnew.symm⟩)
  | @advance m choice task past c next r s hthread hexec =>
    by_cases hm : m = n
    · subst hm
      have hlen := (List.getElem?_eq_some_iff.mp hthread).1
      rw [List.getElem?_set_self hlen, Option.some_inj] at hth
      exact Or.inr (Or.inr ⟨choice, task, past, c, next, r, rfl, rfl, hthread, hth.symm⟩)
    · rw [List.getElem?_set_ne hm] at hth
      exact Or.inl hth

section Rules

variable {rule : τ → Past R → C → Prop} {post : τ → Past R → α → Prop}

def Keeps (rule : τ → Past R → C → Prop) (post : τ → Past R → α → Prop) (p : Pool R σ τ α) :
    Prop :=
  ∀ (n : Nat) (th : Thread R τ α), p.threads[n]? = some th →
    th.left.Meets (rule th.task) (post th.task) th.past

theorem keeps_step (hmain : ∀ task, (main task).Meets (rule task) (post task) [])
    (hp : Keeps rule post p) (h : step main exec p e = some (a, q)) : Keeps rule post q := by
  intro n th hth
  obtain hold | ⟨task, rfl, rfl, rfl⟩ | ⟨choice, task, past, c, next, r, rfl, rfl, hold, rfl⟩ :=
    threads_cases (move_of_step h) hth
  · exact hp n th hold
  · exact hmain task
  · exact (hp n _ hold).2 r

variable {s : σ} {x : Entry (Pool R σ τ α) (Event τ χ) (Option (Sigma R))} {c : C} {r : R c}
  {choice : χ}

theorem Keeps.of_call (hp : Keeps rule post x.before)
    (h : step main exec x.before x.event = some (x.response, x.after))
    (hevent : x.event = .advance n choice) (hresponse : x.response = some ⟨c, r⟩) :
    ∃ th, x.before.threads[n]? = some th ∧ rule th.task th.past c ∧
      exec c choice x.before.shared = some (r, x.after.shared) := by
  obtain ⟨before, event, response, after⟩ := x
  subst hevent hresponse
  have hmove : Move main exec before (.advance n choice) (some ⟨c, r⟩) after := move_of_step h
  cases hmove with
  | advance hthread hexec => exact ⟨_, hthread, (hp n _ hthread).1, hexec⟩

end Rules

section Shared

/-- What every call keeps of the shared state, every run keeps. -/
theorem shared_invariant {I : σ → Prop}
    (hexec : ∀ {c choice s r s'}, I s → exec c choice s = some (r, s') → I s')
    (hp : I p.shared) (h : step main exec p e = some (a, q)) : I q.shared := by
  cases move_of_step h with
  | begin => exact hp
  | advance _ hcall => exact hexec hp hcall

end Shared

section Remembering

variable {I : σ → Prop} {F : Sigma R → σ → Prop}

/-- What a thread has been answered is still so. -/
def Remembers (F : Sigma R → σ → Prop) (p : Pool R σ τ α) : Prop :=
  ∀ (n : Nat) (th : Thread R τ α), p.threads[n]? = some th → ∀ o ∈ th.past, F o p.shared

theorem remembers_step
    (hnew : ∀ {c choice s r s'}, I s → exec c choice s = some (r, s') → F ⟨c, r⟩ s')
    (hkeep : ∀ {c choice s r s' o}, I s → exec c choice s = some (r, s') → F o s → F o s')
    (hI : I p.shared) (hp : Remembers F p) (h : step main exec p e = some (a, q)) :
    Remembers F q := by
  intro n th hth o ho
  have hcases := threads_cases (move_of_step h) hth
  cases move_of_step h with
  | begin task =>
    obtain hold | ⟨task', -, -, rfl⟩ | ⟨_, _, _, _, _, _, he, -⟩ := hcases
    · exact hp n th hold o ho
    · cases ho
    · cases he
  | @advance m choice task past c next r s hthread hexec =>
    obtain hold | ⟨_, he, -⟩ | ⟨_, _, past', c', next', r', -, ha, hold, rfl⟩ := hcases
    · exact hkeep hI hexec (hp n th hold o ho)
    · cases he
    · obtain ho | ho := List.mem_append.mp ho
      · exact hkeep hI hexec (hp n _ hold o ho)
      · obtain rfl := List.mem_singleton.mp ho
        rw [← Option.some.inj ha]
        exact hnew hI hexec

end Remembering

section Pasts

/-- The call of a step with its answer, if it is a step of the thread. -/
def answerOf (n : Nat) (x : Entry (Pool R σ τ α) (Event τ χ) (Option (Sigma R))) :
    Option (Sigma R) :=
  match x.event with
  | .advance m _ => if m = n then x.response else none
  | .begin _ => none

theorem answerOf_eq_some {x : Entry (Pool R σ τ α) (Event τ χ) (Option (Sigma R))}
    {o : Sigma R} : answerOf n x = some o ↔
      ∃ choice, x.event = .advance n choice ∧ x.response = some o := by
  obtain ⟨before, event, response, after⟩ := x
  cases event with
  | begin => simp [answerOf]
  | advance m choice =>
    by_cases hm : m = n
    · simp [answerOf, hm]
    · simp [answerOf, hm]

/-- The past of a thread is what the steps of the run have answered it. -/
theorem pasts_of_run {s : σ} (h : Run (step main exec) ⟨s, []⟩ t p) (n : Nat) :
    t.filterMap (answerOf n) = ((p.threads[n]?).map Thread.past).getD [] := by
  induction h with
  | nil => simp
  | @snoc t m e r q hprior hlast ih =>
    rw [List.filterMap_append, ih]
    cases move_of_step hlast with
    | begin task =>
      by_cases hn : n < m.threads.length
      · simp [answerOf, List.getElem?_append_left hn]
      · rw [List.getElem?_append_right (by omega), List.getElem?_eq_none (by omega)]
        cases hk : n - m.threads.length with
        | zero => simp [answerOf]
        | succ k => simp [answerOf]
    | @advance k choice task past c next r s hthread hexec =>
      by_cases hk : k = n
      · subst hk
        have hlen := (List.getElem?_eq_some_iff.mp hthread).1
        simp [answerOf, hthread, List.getElem?_set_self hlen]
      · simp [answerOf, hk, List.getElem?_set_ne hk]

theorem mem_past {s : σ} (h : Run (step main exec) ⟨s, []⟩ t p) (hth : p.threads[n]? = some th)
    {o : Sigma R} : o ∈ th.past ↔ ∃ x ∈ t, answerOf n x = some o := by
  have hpast := pasts_of_run h n
  rw [hth, Option.map_some, Option.getD_some] at hpast
  rw [← hpast, List.mem_filterMap]

end Pasts

end Pool

end Noted.Library
