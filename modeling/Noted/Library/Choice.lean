import Mathlib.Data.List.Basic
import Mathlib.Data.Option.Basic

/-!
# A choice remembered by a server and named in an address

A page shows one of several values. It opens on the value its address names, or else
on the one that the server remembers, which arrives later; a value chosen meanwhile
wins, and is saved. Saves run one at a time, and one that is no longer shown is
skipped. The address names the value shown, but leaves it out where it is the default
and also the one remembered. The address reopens the value shown unless the save of
the default fails after a save of another value that the page took no note of.
-/

namespace Noted.Library

structure Choice (α : Type*) where
  addressed : Option α
  shown : α
  remembered : α
  chosen : Bool
  saved : Bool
  deriving DecidableEq

inductive Load (α : Type*)
  | sent
  | read (stored : α)
  | arrived
  deriving DecidableEq

def Load.map {α β : Type*} (f : α → β) : Load α → Load β
  | .sent => .sent
  | .read stored => .read (f stored)
  | .arrived => .arrived

/-- A choice with what the server remembers, the save under way, whether the server
has carried it out, and the saves behind it. -/
structure Remembered (α : Type*) extends Choice α where
  server : α
  load : Load α
  running : Option (α × Bool)
  queue : List α

variable {α : Type*} {v x d : α}

namespace Choice

def opened (d : α) (addressed : Option α) : Choice α where
  addressed := addressed
  shown := addressed.getD d
  remembered := d
  chosen := false
  saved := false

variable (c : Choice α)

def choose (v : α) : Choice α := { c with chosen := true, shown := v }

/-- A choice made since wins, and one that has been saved over a slower read too. -/
def arrive (stored : α) : Choice α :=
  if c.chosen = false then
    { c with remembered := stored, shown := if c.addressed.isNone then stored else c.shown }
  else if c.saved = false then { c with remembered := stored }
  else c

variable [DecidableEq α]

/-- A save that has succeeded is taken note of only while its value is shown. -/
def succeed (v : α) : Choice α :=
  if v = c.shown then { c with saved := true, remembered := v } else c

def named (d : α) : Option α :=
  if (c.addressed.isSome || c.chosen) ∧ (c.shown ≠ d ∨ c.shown ≠ c.remembered) then some c.shown
  else none

end Choice

section Choice

variable {c : Choice α}

@[simp] theorem Choice.arrive_addressed : (c.arrive x).addressed = c.addressed := by
  unfold arrive
  split_ifs <;> rfl

@[simp] theorem Choice.arrive_chosen : (c.arrive x).chosen = c.chosen := by
  unfold arrive
  split_ifs <;> rfl

@[simp] theorem Choice.arrive_saved : (c.arrive x).saved = c.saved := by
  unfold arrive
  split_ifs <;> rfl

theorem Choice.arrive_shown_of_chosen (h : c.chosen = true) : (c.arrive x).shown = c.shown := by
  unfold arrive
  rw [if_neg (by simp [h])]
  split_ifs <;> rfl

theorem Choice.arrive_of_saved (hchosen : c.chosen = true) (hsaved : c.saved = true) :
    c.arrive x = c := by
  simp [arrive, hchosen, hsaved]

theorem Choice.arrive_remembered (h : c.saved = false) : (c.arrive x).remembered = x := by
  unfold arrive
  rw [if_pos h]
  split_ifs <;> rfl

section Succeed

variable [DecidableEq α]

@[simp] theorem Choice.succeed_shown : (c.succeed v).shown = c.shown := by
  unfold succeed
  split_ifs <;> rfl

@[simp] theorem Choice.succeed_addressed : (c.succeed v).addressed = c.addressed := by
  unfold succeed
  split_ifs <;> rfl

@[simp] theorem Choice.succeed_chosen : (c.succeed v).chosen = c.chosen := by
  unfold succeed
  split_ifs <;> rfl

end Succeed

theorem Choice.shown_of_opened (d : α) (addressed : Option α) (stored : α) :
    ((opened d addressed).arrive stored).shown = addressed.getD stored := by
  cases addressed <;> rfl

end Choice

namespace Remembered

def opened (d : α) (addressed : Option α) (server : α) : Remembered α where
  toChoice := .opened d addressed
  server := server
  load := .sent
  running := none
  queue := []

variable (r : Remembered α)

def saves : List α := (r.running.map Prod.fst).toList ++ r.queue

/-- What the page takes to be remembered once the read has arrived. -/
def expected : α :=
  match r.load with
  | .sent => if r.saved then r.remembered else r.server
  | .read x => if r.saved then r.remembered else x
  | .arrived => r.remembered

/-- Until a choice, what is shown and remembered follows the server, and the last of
the saves is the value shown. -/
structure Sound (r : Remembered α) : Prop where
  idle : r.chosen = false → r.saves = [] ∧ r.saved = false ∧ r.expected = r.server ∧
    (r.load = .arrived → r.addressed = none → r.shown = r.server)
  last : ∀ v, r.saves.getLast? = some v → v = r.shown
  applied : ∀ v, r.running = some (v, true) → r.server = v

section Saves

variable {r : Remembered α}

theorem saves_of_running {b : Bool} (h : r.running = some (v, b)) : r.saves = v :: r.queue := by
  simp [saves, h]

theorem saves_of_idle (h : r.running = none) : r.saves = r.queue := by
  simp [saves, h]

theorem expected_read (h : r.load = .sent) :
    ({ r with load := .read r.server } : Remembered α).expected = r.expected := by
  simp [expected, h]

theorem expected_arrive (h : r.load = .read x) (hsaved : r.saved = true → r.chosen = true) :
    ({ r with toChoice := r.arrive x, load := .arrived } : Remembered α).expected = r.expected := by
  simp only [expected, h]
  cases hs : r.saved with
  | false => simpa using Choice.arrive_remembered hs
  | true => simp [Choice.arrive_of_saved (hsaved hs) hs]

theorem expected_arrived (h : r.load = .arrived) : r.expected = r.remembered := by
  simp [expected, h]

theorem Sound.saved_chosen (h : r.Sound) (hsaved : r.saved = true) : r.chosen = true := by
  by_contra hnot
  rw [(h.idle ((Bool.not_eq_true _).mp hnot)).2.1] at hsaved
  cases hsaved

theorem Sound.chosen_of_saves (h : r.Sound) (hne : r.saves ≠ []) : r.chosen = true := by
  by_contra hnot
  exact hne (h.idle ((Bool.not_eq_true _).mp hnot)).1

theorem Sound.expected_arrive (h : r.Sound) (hload : r.load = .read x) :
    ({ r with toChoice := r.arrive x, load := .arrived } : Remembered α).expected = r.expected :=
  Remembered.expected_arrive hload h.saved_chosen

theorem opened_sound (d : α) (addressed : Option α) (server : α) :
    (opened d addressed server).Sound := by
  refine ⟨?_, ?_, ?_⟩
  · intro _
    refine ⟨rfl, rfl, rfl, ?_⟩
    intro harrived
    cases harrived
  · intro v hv
    cases hv
  · intro v hv
    cases hv

theorem Sound.of_chosen (hchosen : r.chosen = true)
    (hlast : ∀ v, r.saves.getLast? = some v → v = r.shown)
    (happlied : ∀ v, r.running = some (v, true) → r.server = v) : r.Sound := by
  refine ⟨?_, hlast, happlied⟩
  intro hnot
  rw [hchosen] at hnot
  cases hnot

theorem Sound.choose (h : r.Sound) (v : α) :
    ({ r with toChoice := r.choose v, queue := r.queue ++ [v] } : Remembered α).Sound := by
  refine Sound.of_chosen rfl ?_ h.applied
  intro w hw
  have hv : v = w := by simpa [saves, ← List.append_assoc] using hw
  exact hv.symm

theorem Sound.queue_ne_nil {queue : List α} (h : r.Sound) (hidle : r.running = none)
    (hqueue : r.queue = v :: queue) (hne : v ≠ r.shown) : queue ≠ [] := by
  intro hnil
  refine hne (h.last v ?_)
  rw [saves_of_idle hidle, hqueue, hnil]
  rfl

theorem Sound.skip {queue : List α} (h : r.Sound) (hidle : r.running = none)
    (hqueue : r.queue = v :: queue) (hne : v ≠ r.shown) :
    ({ r with queue := queue } : Remembered α).Sound := by
  have hsaves : r.saves = v :: queue := by rw [saves_of_idle hidle, hqueue]
  have hsaves' : ({ r with queue := queue } : Remembered α).saves = queue := saves_of_idle hidle
  refine Sound.of_chosen (h.chosen_of_saves (by simp [hsaves])) ?_ ?_
  · intro u hu
    refine h.last u ?_
    rw [hsaves, List.getLast?_cons_of_ne_nil (h.queue_ne_nil hidle hqueue hne), ← hsaves']
    exact hu
  · intro u hu
    rw [hidle] at hu
    cases hu

theorem Sound.start {queue : List α} (h : r.Sound) (hidle : r.running = none)
    (hqueue : r.queue = v :: queue) :
    ({ r with running := some (v, false), queue := queue } : Remembered α).Sound := by
  have hsaves : r.saves = v :: queue := by rw [saves_of_idle hidle, hqueue]
  refine Sound.of_chosen (h.chosen_of_saves (by simp [hsaves])) ?_ ?_
  · intro w hw
    refine h.last w ?_
    rw [hsaves]
    exact hw
  · intro w hw
    cases hw

theorem Sound.apply (h : r.Sound) (hrunning : r.running = some (v, false)) :
    ({ r with running := some (v, true), server := v } : Remembered α).Sound := by
  have hsaves := saves_of_running hrunning
  refine Sound.of_chosen (h.chosen_of_saves (by simp [hsaves])) ?_ ?_
  · intro w hw
    refine h.last w ?_
    rw [hsaves]
    exact hw
  · intro w hw
    exact (Prod.mk.inj (Option.some.inj hw)).1

theorem Sound.ended {b : Bool} {c : Choice α} (h : r.Sound) (hrunning : r.running = some (v, b))
    (hshown : c.shown = r.shown) (hchosen : c.chosen = r.chosen) :
    ({ r with toChoice := c, running := none } : Remembered α).Sound := by
  have hsaves := saves_of_running hrunning
  have hsaves' : ({ r with toChoice := c, running := none } : Remembered α).saves = r.queue :=
    saves_of_idle rfl
  refine Sound.of_chosen (hchosen.trans (h.chosen_of_saves (by simp [hsaves]))) ?_ ?_
  · intro w hw
    rw [hsaves'] at hw
    refine (h.last w ?_).trans hshown.symm
    rw [hsaves, List.getLast?_cons_of_ne_nil]
    · exact hw
    · intro hnil
      rw [hnil] at hw
      cases hw
  · intro w hw
    cases hw

theorem Sound.read (h : r.Sound) (hload : r.load = .sent) :
    ({ r with load := .read r.server } : Remembered α).Sound := by
  refine ⟨?_, h.last, h.applied⟩
  intro hnot
  obtain ⟨hnil, hsaved, hexpected, -⟩ := h.idle hnot
  refine ⟨hnil, hsaved, (expected_read hload).trans hexpected, ?_⟩
  intro harrived
  cases harrived

theorem Sound.arrive (h : r.Sound) (hload : r.load = .read x) :
    ({ r with toChoice := r.arrive x, load := .arrived } : Remembered α).Sound := by
  cases hchosen : r.chosen with
  | false =>
    obtain ⟨hnil, hsaved, hserver, -⟩ := h.idle hchosen
    have hx : x = r.server := by simpa [expected, hload, hsaved] using hserver
    refine ⟨?_, ?_, h.applied⟩
    · intro _
      refine ⟨hnil, by simpa using hsaved, (h.expected_arrive hload).trans hserver, ?_⟩
      intro _ haddressed
      rw [Choice.arrive_addressed] at haddressed
      simp [Choice.arrive, hchosen, haddressed, hx]
    · intro w hw
      have hlast : r.saves.getLast? = some w := hw
      rw [hnil] at hlast
      cases hlast
  | true =>
    refine Sound.of_chosen (by simpa using hchosen) ?_ h.applied
    intro w hw
    exact (h.last w hw).trans (Choice.arrive_shown_of_chosen hchosen).symm

end Saves

variable [DecidableEq α]

/-- The default is shown and will be taken to be remembered, and the server has
another value. -/
def mistaken (d : α) : Bool := r.shown == d && r.expected == d && r.server != d

/-- What a step does to the choice, apart from the user's choosing and a failed save. -/
inductive Kind
  | quiet
  | choose
  | fail
  deriving DecidableEq

inductive Step (r : Remembered α) : Kind → Remembered α → Prop
  | stay : Step r .quiet r
  | choose (w : α) : Step r .choose { r with toChoice := r.choose w, queue := r.queue ++ [w] }
  | skip {w queue} : r.running = none → r.queue = w :: queue → w ≠ r.shown →
      Step r .quiet { r with queue := queue }
  | start {w queue} : r.running = none → r.queue = w :: queue → w = r.shown →
      Step r .quiet { r with running := some (w, false), queue := queue }
  | apply {w} : r.running = some (w, false) →
      Step r .quiet { r with running := some (w, true), server := w }
  | succeed {w} : r.running = some (w, true) →
      Step r .quiet { r with toChoice := r.succeed w, running := none }
  | fail {w} : r.running = some (w, false) → Step r .fail { r with running := none }
  | read : r.load = .sent → Step r .quiet { r with load := .read r.server }
  | arrive {y} : r.load = .read y →
      Step r .quiet { r with toChoice := r.arrive y, load := .arrived }

def Right (d : α) (r : Remembered α) : Prop :=
  r.chosen = true → r.saves = [] → r.mistaken d = false

/-- A save that fails as the last to come, while the page is mistaken. -/
def losing (d : α) (r : Remembered α) : Bool :=
  r.running.isSome && r.queue.isEmpty && r.mistaken d

structure Stuck (d : α) (r : Remembered α) : Prop where
  chosen : r.chosen = true
  done : r.saves = []
  wrong : r.mistaken d = true

variable {r r' : Remembered α} {k : Kind}

theorem mistaken_congr (hshown : r'.shown = r.shown) (hexpected : r'.expected = r.expected)
    (hserver : r'.server = r.server) : r'.mistaken d = r.mistaken d := by
  rw [mistaken, hshown, hexpected, hserver, mistaken]

theorem not_mistaken (h : r.server = r.shown) : r.mistaken d = false := by
  rw [mistaken, h]
  cases hd : r.shown == d with
  | false => simp
  | true => simp [beq_iff_eq.mp hd]

theorem Sound.step (h : r.Sound) (hstep : r.Step k r') : r'.Sound := by
  cases hstep with
  | stay => exact h
  | choose v => exact h.choose v
  | skip hidle hqueue hne => exact h.skip hidle hqueue hne
  | start hidle hqueue _ => exact h.start hidle hqueue
  | apply hrunning => exact h.apply hrunning
  | succeed hrunning => exact h.ended hrunning Choice.succeed_shown Choice.succeed_chosen
  | fail hrunning => exact h.ended hrunning rfl rfl
  | read hload => exact h.read hload
  | arrive hload => exact h.arrive hload

theorem opened_right (d : α) (addressed : Option α) (server : α) :
    (opened d addressed server).Right d := by
  intro hchosen
  cases hchosen

theorem right_of_saves (hne : r.saves ≠ []) : r.Right d := by
  intro _ hnil
  exact absurd hnil hne

theorem Right.of_eq (h : r.Right d) (hchosen : r'.chosen = r.chosen) (hsaves : r'.saves = r.saves)
    (hmistaken : r'.mistaken d = r.mistaken d) : r'.Right d := by
  intro hc hnil
  rw [hmistaken]
  exact h (hchosen ▸ hc) (hsaves ▸ hnil)

theorem Sound.right_succeed (h : r.Sound) (hrunning : r.running = some (v, true)) :
    ({ r with toChoice := r.succeed v, running := none } : Remembered α).Right d := by
  intro _ hnil
  rw [saves_of_idle rfl] at hnil
  have hqueue : r.queue = [] := hnil
  have hv : v = r.shown := h.last v (by rw [saves_of_running hrunning, hqueue]; rfl)
  refine not_mistaken ?_
  rw [Choice.succeed_shown, ← hv]
  exact h.applied v hrunning

theorem mistaken_read (h : r.load = .sent) :
    ({ r with load := .read r.server } : Remembered α).mistaken d = r.mistaken d :=
  mistaken_congr rfl (expected_read h) rfl

theorem Sound.mistaken_arrive (h : r.Sound) (hchosen : r.chosen = true) (hload : r.load = .read x) :
    ({ r with toChoice := r.arrive x, load := .arrived } : Remembered α).mistaken d =
      r.mistaken d :=
  mistaken_congr (Choice.arrive_shown_of_chosen hchosen) (h.expected_arrive hload) rfl

/-- A failed save apart, a step makes no mistake. -/
theorem Right.step (hr : r.Right d) (h : r.Sound) (hstep : r.Step k r')
    (hkeeps : k = .fail → r.losing d = false) : r'.Right d := by
  cases hstep with
  | stay => exact hr
  | choose v => exact right_of_saves (by simp [saves])
  | @skip w queue hidle hqueue hne =>
    refine right_of_saves ?_
    have hsaves : ({ r with queue := queue } : Remembered α).saves = queue := saves_of_idle hidle
    rw [hsaves]
    exact h.queue_ne_nil hidle hqueue hne
  | start hidle hqueue _ => exact right_of_saves (by simp [saves])
  | apply hrunning => exact right_of_saves (by simp [saves])
  | succeed hrunning => exact h.right_succeed hrunning
  | fail hrunning =>
    intro _ hnil
    rw [saves_of_idle rfl] at hnil
    have hqueue : r.queue = [] := hnil
    have hmistaken : r.mistaken d = false := by simpa [losing, hrunning, hqueue] using hkeeps rfl
    exact hmistaken
  | read hload => exact hr.of_eq rfl rfl (mistaken_read hload)
  | @arrive x hload =>
    intro hchosen hnil
    rw [Choice.arrive_chosen] at hchosen
    rw [h.mistaken_arrive hchosen hload]
    exact hr hchosen hnil

/-- Opened again on the address it names, the page shows the same value. -/
theorem Sound.reopens (h : r.Sound) (hr : r.Right d) (hload : r.load = .arrived)
    (hdone : r.saves = []) : (r.named d).getD r.server = r.shown := by
  unfold Choice.named
  split_ifs with hnamed
  · rfl
  rw [Option.getD_none]
  cases hchosen : r.chosen with
  | false =>
    obtain ⟨-, -, hexpected, hopened⟩ := h.idle hchosen
    cases haddressed : r.addressed with
    | none => exact (hopened hload haddressed).symm
    | some w =>
      rw [expected_arrived hload] at hexpected
      simp only [haddressed, Option.isSome_some, Bool.true_or, true_and, not_or, not_not] at hnamed
      exact hexpected.symm.trans hnamed.2.symm
  | true =>
    simp only [hchosen, Bool.or_true, true_and, not_or, not_not] at hnamed
    obtain ⟨hdefault, hremembered⟩ := hnamed
    have hright := hr hchosen hdone
    rw [mistaken, expected_arrived hload, ← hremembered, hdefault] at hright
    simpa [hdefault] using hright

theorem Sound.named_choose (h : r.Sound) (hload : r.load = .arrived)
    (hne : r.shown ≠ r.remembered) : (r.choose r.shown).named d = r.named d := by
  have hexplicit : (r.addressed.isSome || r.chosen) = true := by
    cases hchosen : r.chosen with
    | true => simp
    | false =>
      obtain ⟨-, -, hexpected, hopened⟩ := h.idle hchosen
      rw [expected_arrived hload] at hexpected
      cases haddressed : r.addressed with
      | none => exact absurd ((hopened hload haddressed).trans hexpected.symm) hne
      | some w => simp
  simp [Choice.named, Choice.choose, hexplicit]

theorem Stuck.not_reopens (h : r.Stuck d) (hload : r.load = .arrived) :
    (r.named d).getD r.server ≠ r.shown := by
  have hwrong := h.wrong
  simp only [mistaken, expected_arrived hload, Bool.and_eq_true, beq_iff_eq, bne_iff_ne] at hwrong
  obtain ⟨⟨hshown, hremembered⟩, hserver⟩ := hwrong
  rw [Choice.named, if_neg (by simp [hshown, hremembered]), Option.getD_none, hshown]
  exact hserver

theorem Sound.stuck_of_fail (h : r.Sound) (hstep : r.Step .fail r') (hlosing : r.losing d = true) :
    r'.Stuck d := by
  cases hstep with
  | fail hrunning =>
    simp only [losing, Bool.and_eq_true, List.isEmpty_iff] at hlosing
    obtain ⟨⟨-, hnil⟩, hwrong⟩ := hlosing
    exact ⟨h.chosen_of_saves (by simp [saves_of_running hrunning]),
      (saves_of_idle rfl).trans hnil, hwrong⟩

/-- Without a save to come, only the user's next choice ends it. -/
theorem Stuck.step (h : r.Stuck d) (hr : r.Sound) (hstep : r.Step k r') (hk : k ≠ .choose) :
    r'.Stuck d := by
  have hempty := h.done
  cases hstep with
  | stay => exact h
  | choose v => exact absurd rfl hk
  | skip hidle hqueue _ =>
    rw [saves_of_idle hidle, hqueue] at hempty
    cases hempty
  | start hidle hqueue _ =>
    rw [saves_of_idle hidle, hqueue] at hempty
    cases hempty
  | apply hrunning =>
    rw [saves_of_running hrunning] at hempty
    cases hempty
  | succeed hrunning =>
    rw [saves_of_running hrunning] at hempty
    cases hempty
  | fail hrunning =>
    rw [saves_of_running hrunning] at hempty
    cases hempty
  | read hload =>
    refine ⟨h.chosen, h.done, ?_⟩
    rw [mistaken_read hload]
    exact h.wrong
  | arrive hload =>
    refine ⟨by simpa using h.chosen, h.done, ?_⟩
    rw [hr.mistaken_arrive h.chosen hload]
    exact h.wrong

end Remembered

end Noted.Library
