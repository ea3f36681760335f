import Mathlib.Data.List.Perm.Subperm
import Noted.Library.Runs
import Noted.Text

/-!
# The client of a processing worker (prepare-processing.ts)

`ProcessingWorkerClient` runs one request at a time on a worker of its own and gives a
promise for each. A request that is stopped loses its worker with it, so that what the
old worker still says finds no one to take it. Workers, and the promises that `run` has
returned, are numbered as they come; a request's id is the number of its promise.
-/

namespace Noted.Prepare

open Library

inductive ProcessingStopReason
  | superseded
  | cancelled
  | destroyed
  deriving DecidableEq

inductive ProcessingError
  | stopped (reason : ProcessingStopReason)
  | message (text : Text)
  deriving DecidableEq

/-- A response, with what it has of a result left to the flag that it has one. -/
structure ProcessingResponse where
  requestId : Option Nat
  progress : Text
  result : Bool
  error : Option Text
  deriving DecidableEq

inductive Settlement
  | resolved (response : ProcessingResponse)
  | rejected (error : ProcessingError)
  deriving DecidableEq

/-- A response that ends its request: no progress, but a result or an error. -/
def ProcessingResponse.final (response : ProcessingResponse) : Bool :=
  response.progress == [] && (response.result || response.error.isSome)

def ProcessingResponse.settlement (response : ProcessingResponse) : Settlement :=
  match response.error with
  | some (first :: rest) => .rejected (.message (first :: rest))
  | _ => .resolved response

/-- The fields of the client, with the workers made so far, those of them that were
terminated, and the promises returned and settled. -/
structure ProcessingWorkerClient where
  worker : Option Nat
  active : Option Nat
  destroyed : Bool
  workers : Nat
  terminated : List Nat
  returned : Nat
  settled : List (Nat × Settlement)
  deriving DecidableEq

/-- A call, or something that a worker says. Making a worker and posting a message to it
may throw; the errors stand for that. -/
inductive ClientEvent
  | run (made posted : Option Text)
  | cancel
  | supersede
  | destroy
  | message (worker : Nat) (response : ProcessingResponse)
  | error (worker : Nat)
  deriving DecidableEq

namespace ProcessingWorkerClient

variable (c : ProcessingWorkerClient)

def new : ProcessingWorkerClient := ⟨none, none, false, 0, [], 0, []⟩

def releaseWorker : ProcessingWorkerClient :=
  { c with worker := none, terminated := c.worker.toList ++ c.terminated }

def settle (id : Nat) (settlement : Settlement) : ProcessingWorkerClient :=
  { c with settled := (id, settlement) :: c.settled }

def stop (error : ProcessingError) : ProcessingWorkerClient :=
  match c.active with
  | none => c
  | some id => { c with active := none }.releaseWorker.settle id (.rejected error)

def stopActive (reason : ProcessingStopReason) : ProcessingWorkerClient := c.stop (.stopped reason)

def ensureWorker : ProcessingWorkerClient :=
  match c.worker with
  | some _ => c
  | none => { c with worker := some c.workers, workers := c.workers + 1 }

def post (posted : Option Text) : ProcessingWorkerClient :=
  match posted with
  | none => { c with active := some c.returned, returned := c.returned + 1 }
  | some text =>
    { c with returned := c.returned + 1 }.releaseWorker.settle c.returned
      (.rejected (.message text))

/-- A worker that cannot be made leaves `run` without a promise. -/
def run (made posted : Option Text) : ProcessingWorkerClient :=
  if c.destroyed then
    { c with returned := c.returned + 1 }.settle c.returned (.rejected (.stopped .destroyed))
  else
    let c := c.stopActive .superseded
    if c.worker = none ∧ made ≠ none then c else c.ensureWorker.post posted

def destroy : ProcessingWorkerClient :=
  let c := { c with destroyed := true }
  if c.active = none then c.releaseWorker else c.stopActive .destroyed

def onerror (worker : Nat) : ProcessingWorkerClient :=
  if c.worker ≠ some worker then c
  else
    match c.active with
    | none => c.releaseWorker
    | some id =>
      { c with active := none }.releaseWorker.settle id
        (.rejected (.message "Page processing could not start. Please reload.".toList))

/-- The response is for the active request: it has its id, or none. -/
def receives (worker : Nat) (response : ProcessingResponse) : Option Nat :=
  if c.worker ≠ some worker then none
  else c.active.filter fun id => response.requestId.all (· == id)

def receive (worker : Nat) (response : ProcessingResponse) : ProcessingWorkerClient :=
  match c.receives worker response with
  | none => c
  | some id =>
    if response.progress ≠ [] then c
    else
      match response.error with
      | none => if response.result then { c with active := none }.settle id (.resolved response) else c
      | some [] => { c with active := none }.settle id (.resolved response)
      | some text => { c with active := none }.releaseWorker.settle id (.rejected (.message text))

def progress (worker : Nat) (response : ProcessingResponse) : Option (Nat × Text) :=
  if response.progress = [] then none
  else (c.receives worker response).map fun id => (id, response.progress)

def step (c : ProcessingWorkerClient) (e : ClientEvent) :
    Option (Option (Nat × Text) × ProcessingWorkerClient) :=
  match e with
  | .run made posted => some (none, c.run made posted)
  | .cancel => some (none, c.stopActive .cancelled)
  | .supersede => some (none, c.stopActive .superseded)
  | .destroy => some (none, c.destroy)
  | .message worker response =>
    if worker < c.workers then some (c.progress worker response, c.receive worker response) else none
  | .error worker => if worker < c.workers then some (none, c.onerror worker) else none

end ProcessingWorkerClient

/-- How an event may settle the promise `id`: with a response that has this id or none,
or with the error that the event stands for. -/
inductive Settles (c : ProcessingWorkerClient) : ClientEvent → Nat → Settlement → Prop
  | superseding {made posted : Option Text} {id : Nat} (h : id < c.returned) :
      Settles c (.run made posted) id (.rejected (.stopped .superseded))
  | refused {made posted : Option Text} (h : c.destroyed = true) :
      Settles c (.run made posted) c.returned (.rejected (.stopped .destroyed))
  | unposted {made : Option Text} {text : Text} :
      Settles c (.run made (some text)) c.returned (.rejected (.message text))
  | cancel {id : Nat} : Settles c .cancel id (.rejected (.stopped .cancelled))
  | supersede {id : Nat} : Settles c .supersede id (.rejected (.stopped .superseded))
  | destroy {id : Nat} : Settles c .destroy id (.rejected (.stopped .destroyed))
  | error {id worker : Nat} (h : c.worker = some worker) : Settles c (.error worker) id
      (.rejected (.message "Page processing could not start. Please reload.".toList))
  | failed {id worker : Nat} {response : ProcessingResponse} {text : Text}
      (h : c.worker = some worker) (hid : response.requestId.all (· == id) = true)
      (herror : response.error = some text) :
      Settles c (.message worker response) id (.rejected (.message text))
  | answered {id worker : Nat} {response : ProcessingResponse} (h : c.worker = some worker)
      (hid : response.requestId.all (· == id) = true) :
      Settles c (.message worker response) id (.resolved response)

/-- The events that end the active request `id`, and how they settle its promise. -/
inductive Ends (c : ProcessingWorkerClient) (id : Nat) : ClientEvent → Settlement → Prop
  | superseding {made posted : Option Text} :
      Ends c id (.run made posted) (.rejected (.stopped .superseded))
  | cancel : Ends c id .cancel (.rejected (.stopped .cancelled))
  | supersede : Ends c id .supersede (.rejected (.stopped .superseded))
  | destroy : Ends c id .destroy (.rejected (.stopped .destroyed))
  | error {worker : Nat} (h : c.worker = some worker) : Ends c id (.error worker)
      (.rejected (.message "Page processing could not start. Please reload.".toList))
  | answered {worker : Nat} {response : ProcessingResponse} (h : c.worker = some worker)
      (hid : response.requestId.all (· == id) = true) (hfinal : response.final = true) :
      Ends c id (.message worker response) response.settlement

namespace ProcessingWorkerClient

variable (c : ProcessingWorkerClient)

def settledIds : List Nat := c.settled.map Prod.fst

/-- Every promise but the active request's is settled, once; every worker but the
client's has been terminated, and a destroyed client has none. -/
structure Sound : Prop where
  settled : ∀ id < c.returned, c.active ≠ some id → id ∈ c.settledIds
  once : c.settledIds.Nodup
  active : ∀ id, c.active = some id → id < c.returned ∧ id ∉ c.settledIds
  returned : ∀ id ∈ c.settledIds, id < c.returned
  workers : ∀ w < c.workers, c.worker = some w ∨ w ∈ c.terminated
  gone : c.destroyed = true → c.worker = none ∧ c.active = none

/-- The active request has a worker, and the client's worker has not been terminated. -/
structure Manned : Prop where
  active : c.active ≠ none → c.worker ≠ none
  worker : ∀ w, c.worker = some w → w < c.workers ∧ w ∉ c.terminated
  terminated : ∀ w ∈ c.terminated, w < c.workers

end ProcessingWorkerClient

namespace ProcessingWorkerClient

section Facts

variable {c c' : ProcessingWorkerClient} {e : ClientEvent} {r : Option (Nat × Text)} {id : Nat}

theorem Sound.new : ProcessingWorkerClient.new.Sound := by
  refine ⟨?_, List.nodup_nil, ?_, ?_, ?_, ?_⟩
  · intro id hid
    cases hid
  · intro id hid
    cases hid
  · intro id hid
    cases hid
  · intro w hw
    cases hw
  · intro h
    cases h

theorem Sound.releaseWorker (h : c.Sound) (hactive : c.active = none) : c.releaseWorker.Sound := by
  refine ⟨h.settled, h.once, h.active, h.returned, ?_, fun _ => ⟨rfl, hactive⟩⟩
  intro w hw
  right
  obtain hworker | hterminated := h.workers w hw
  · exact List.mem_append_left _ (Option.mem_toList.mpr hworker)
  · exact List.mem_append_right _ hterminated

theorem Sound.finish (h : c.Sound) (hactive : c.active = some id) (s : Settlement) :
    ({ c with active := none }.settle id s).Sound := by
  obtain ⟨hlt, hfresh⟩ := h.active id hactive
  refine ⟨?_, List.nodup_cons.mpr ⟨hfresh, h.once⟩, ?_, ?_, h.workers, ?_⟩
  · intro other hother _
    by_cases hsame : other = id
    · rw [hsame]
      exact List.mem_cons_self ..
    · refine List.mem_cons_of_mem _ (h.settled other hother ?_)
      rw [hactive]
      exact fun heq => hsame (Option.some.inj heq).symm
  · intro other hother
    cases hother
  · intro other hother
    obtain rfl | hother := List.mem_cons.mp hother
    · exact hlt
    · exact h.returned other hother
  · intro hdestroyed
    exact ⟨(h.gone hdestroyed).1, rfl⟩

theorem Sound.stop (h : c.Sound) (error : ProcessingError) : (c.stop error).Sound := by
  unfold ProcessingWorkerClient.stop
  cases hactive : c.active with
  | none => exact h
  | some id => exact (h.finish hactive (.rejected error)).releaseWorker rfl

theorem stop_active (error : ProcessingError) : (c.stop error).active = none := by
  unfold ProcessingWorkerClient.stop
  cases hactive : c.active with
  | none => exact hactive
  | some id => rfl

theorem stop_destroyed (error : ProcessingError) : (c.stop error).destroyed = c.destroyed := by
  unfold ProcessingWorkerClient.stop
  cases c.active <;> rfl

theorem stop_returned (error : ProcessingError) : (c.stop error).returned = c.returned := by
  unfold ProcessingWorkerClient.stop
  cases c.active <;> rfl

theorem Sound.ensureWorker (h : c.Sound) (hdestroyed : c.destroyed = false) :
    c.ensureWorker.Sound := by
  unfold ProcessingWorkerClient.ensureWorker
  cases hworker : c.worker with
  | some w => exact h
  | none =>
    refine ⟨h.settled, h.once, h.active, h.returned, ?_, ?_⟩
    · intro w hw
      obtain hlt | rfl := Nat.lt_succ_iff_lt_or_eq.mp hw
      · obtain hnow | hterminated := h.workers w hlt
        · rw [hworker] at hnow
          cases hnow
        · exact Or.inr hterminated
      · exact Or.inl rfl
    · intro htrue
      rw [hdestroyed] at htrue
      cases htrue

theorem ensureWorker_frame : c.ensureWorker.active = c.active ∧
    c.ensureWorker.destroyed = c.destroyed ∧ c.ensureWorker.settled = c.settled ∧
    c.ensureWorker.returned = c.returned := by
  unfold ProcessingWorkerClient.ensureWorker
  cases c.worker <;> exact ⟨rfl, rfl, rfl, rfl⟩

theorem Sound.refuse (h : c.Sound) (s : Settlement) :
    ({ c with returned := c.returned + 1 }.settle c.returned s).Sound := by
  have hfresh : c.returned ∉ c.settledIds := fun hmem => Nat.lt_irrefl _ (h.returned _ hmem)
  refine ⟨?_, List.nodup_cons.mpr ⟨hfresh, h.once⟩, ?_, ?_, h.workers, h.gone⟩
  · intro id hid hne
    obtain hlt | rfl := Nat.lt_succ_iff_lt_or_eq.mp hid
    · exact List.mem_cons_of_mem _ (h.settled id hlt hne)
    · exact List.mem_cons_self ..
  · intro id hid
    obtain ⟨hlt, hopen⟩ := h.active id hid
    refine ⟨Nat.lt_succ_of_lt hlt, fun hmem => ?_⟩
    obtain rfl | hmem := List.mem_cons.mp hmem
    · exact Nat.lt_irrefl _ hlt
    · exact hopen hmem
  · intro id hid
    obtain rfl | hid := List.mem_cons.mp hid
    · exact Nat.lt_succ_self _
    · exact Nat.lt_succ_of_lt (h.returned id hid)

theorem Sound.post (h : c.Sound) (hactive : c.active = none) (hdestroyed : c.destroyed = false)
    (posted : Option Text) : (c.post posted).Sound := by
  cases posted with
  | none =>
    refine ⟨?_, h.once, ?_, ?_, h.workers, ?_⟩
    · intro id hid hne
      obtain hlt | rfl := Nat.lt_succ_iff_lt_or_eq.mp hid
      · refine h.settled id hlt ?_
        rw [hactive]
        exact nofun
      · exact absurd rfl hne
    · intro id hid
      obtain rfl := Option.some.inj hid
      exact ⟨Nat.lt_succ_self _, fun hmem => Nat.lt_irrefl _ (h.returned _ hmem)⟩
    · exact fun id hid => Nat.lt_succ_of_lt (h.returned id hid)
    · intro htrue
      rw [show c.destroyed = true from htrue] at hdestroyed
      cases hdestroyed
  | some text => exact (h.refuse (.rejected (.message text))).releaseWorker hactive

theorem Sound.run (h : c.Sound) (made posted : Option Text) : (c.run made posted).Sound := by
  unfold ProcessingWorkerClient.run
  split_ifs with hdestroyed
  · exact h.refuse _
  · have hfalse : c.destroyed = false := Bool.eq_false_iff.mpr hdestroyed
    have hstopped : (c.stopActive .superseded).Sound := h.stop _
    have hstill : (c.stopActive .superseded).destroyed = false := (stop_destroyed _).trans hfalse
    dsimp only
    split_ifs
    · exact hstopped
    · obtain ⟨hactive, hdestroyed', -, -⟩ := ensureWorker_frame (c := c.stopActive .superseded)
      exact (hstopped.ensureWorker hstill).post (hactive.trans (stop_active _))
        (hdestroyed'.trans hstill) posted

theorem Sound.destroy (h : c.Sound) : c.destroy.Sound := by
  have hgone : ∀ c' : ProcessingWorkerClient, c'.Sound → c'.active = none → c'.worker = none →
      ({ c' with destroyed := true } : ProcessingWorkerClient).Sound :=
    fun c' h' hactive hworker =>
      ⟨h'.settled, h'.once, h'.active, h'.returned, h'.workers, fun _ => ⟨hworker, hactive⟩⟩
  unfold ProcessingWorkerClient.destroy
  dsimp only
  split_ifs with hactive
  · exact hgone c.releaseWorker (h.releaseWorker hactive) hactive rfl
  · obtain ⟨id, hid⟩ := Option.ne_none_iff_exists'.mp hactive
    simp only [stopActive, ProcessingWorkerClient.stop, hid]
    exact hgone _ ((h.finish hid _).releaseWorker rfl) rfl rfl

theorem Sound.onerror (h : c.Sound) (worker : Nat) : (c.onerror worker).Sound := by
  unfold ProcessingWorkerClient.onerror
  split_ifs
  · exact h
  · cases hactive : c.active with
    | none => exact h.releaseWorker hactive
    | some id => exact (h.finish hactive _).releaseWorker rfl

theorem receives_eq_some {worker : Nat} {response : ProcessingResponse}
    (h : c.receives worker response = some id) :
    c.worker = some worker ∧ c.active = some id ∧ response.requestId.all (· == id) = true := by
  unfold receives at h
  split_ifs at h with hworker
  obtain ⟨hactive, hid⟩ := Option.filter_eq_some_iff.mp h
  exact ⟨not_not.mp hworker, hactive, hid⟩

theorem receive_cases (c : ProcessingWorkerClient) (worker : Nat) (response : ProcessingResponse) :
    c.receive worker response = c ∨
    ∃ id, c.receives worker response = some id ∧
      (c.receive worker response = { c with active := none }.settle id (.resolved response) ∨
      ∃ text, response.error = some text ∧
        c.receive worker response =
          { c with active := none }.releaseWorker.settle id (.rejected (.message text))) := by
  unfold receive
  cases hid : c.receives worker response with
  | none => exact Or.inl rfl
  | some id =>
    by_cases hprogress : response.progress ≠ []
    · exact Or.inl (if_pos hprogress)
    · simp only [if_neg hprogress]
      cases herror : response.error with
      | none =>
        dsimp only
        split_ifs
        · exact Or.inr ⟨id, rfl, Or.inl rfl⟩
        · exact Or.inl rfl
      | some text =>
        cases text with
        | nil => exact Or.inr ⟨id, rfl, Or.inl rfl⟩
        | cons first rest => exact Or.inr ⟨id, rfl, Or.inr ⟨_, rfl, rfl⟩⟩

theorem Sound.receive (h : c.Sound) (worker : Nat) (response : ProcessingResponse) :
    (c.receive worker response).Sound := by
  obtain heq | ⟨id, hid, heq | ⟨text, -, heq⟩⟩ := receive_cases c worker response
  · rw [heq]
    exact h
  · rw [heq]
    exact h.finish (receives_eq_some hid).2.1 _
  · rw [heq]
    exact (h.finish (receives_eq_some hid).2.1 _).releaseWorker rfl

theorem Sound.step (h : c.Sound) (hstep : c.step e = some (r, c')) : c'.Sound := by
  cases e with
  | run made posted =>
    cases hstep
    exact h.run made posted
  | cancel =>
    cases hstep
    exact h.stop _
  | supersede =>
    cases hstep
    exact h.stop _
  | destroy =>
    cases hstep
    exact h.destroy
  | message worker response =>
    obtain ⟨-, heq⟩ := Option.ite_none_right_eq_some.mp hstep
    cases heq
    exact h.receive worker response
  | error worker =>
    obtain ⟨-, heq⟩ := Option.ite_none_right_eq_some.mp hstep
    cases heq
    exact h.onerror worker

theorem Manned.new : ProcessingWorkerClient.new.Manned := by
  refine ⟨fun h => absurd rfl h, ?_, ?_⟩
  · intro w hw
    cases hw
  · intro w hw
    cases hw

theorem Manned.releaseWorker (h : c.Manned) (hactive : c.active = none) :
    c.releaseWorker.Manned := by
  refine ⟨fun hne => absurd hactive hne, ?_, ?_⟩
  · intro w hw
    cases hw
  · intro w hw
    obtain hw | hw := List.mem_append.mp hw
    · exact (h.worker w (Option.mem_toList.mp hw)).1
    · exact h.terminated w hw

theorem Manned.finish (h : c.Manned) (id : Nat) (s : Settlement) :
    ({ c with active := none }.settle id s).Manned :=
  ⟨fun hne => absurd rfl hne, h.worker, h.terminated⟩

theorem Manned.stop (h : c.Manned) (error : ProcessingError) : (c.stop error).Manned := by
  unfold ProcessingWorkerClient.stop
  cases hactive : c.active with
  | none => exact h
  | some id => exact (h.finish id (.rejected error)).releaseWorker rfl

theorem Manned.ensureWorker (h : c.Manned) :
    c.ensureWorker.Manned ∧ c.ensureWorker.worker ≠ none := by
  unfold ProcessingWorkerClient.ensureWorker
  cases hworker : c.worker with
  | some w =>
    refine ⟨h, ?_⟩
    rw [hworker]
    exact nofun
  | none =>
    refine ⟨⟨fun _ => nofun, ?_, fun w hw => Nat.lt_succ_of_lt (h.terminated w hw)⟩, nofun⟩
    intro w hw
    obtain rfl := Option.some.inj hw
    exact ⟨Nat.lt_succ_self _, fun hmem => Nat.lt_irrefl _ (h.terminated _ hmem)⟩

theorem Manned.post (h : c.Manned) (hactive : c.active = none) (hworker : c.worker ≠ none)
    (posted : Option Text) : (c.post posted).Manned := by
  cases posted with
  | none => exact ⟨fun _ => hworker, h.worker, h.terminated⟩
  | some text =>
    have hrefused : ({ c with returned := c.returned + 1 }.settle c.returned
        (.rejected (.message text))).Manned :=
      ⟨h.active, h.worker, h.terminated⟩
    exact hrefused.releaseWorker hactive

theorem Manned.run (h : c.Manned) (made posted : Option Text) : (c.run made posted).Manned := by
  unfold ProcessingWorkerClient.run
  split_ifs
  · exact ⟨h.active, h.worker, h.terminated⟩
  · have hstopped : (c.stopActive .superseded).Manned := h.stop _
    dsimp only
    split_ifs
    · exact hstopped
    · obtain ⟨hmanned, hworker⟩ := hstopped.ensureWorker
      obtain ⟨hactive, -⟩ := ensureWorker_frame (c := c.stopActive .superseded)
      exact hmanned.post (hactive.trans (stop_active _)) hworker posted

theorem Manned.destroy (h : c.Manned) : c.destroy.Manned := by
  have hdestroyed : ({ c with destroyed := true } : ProcessingWorkerClient).Manned :=
    ⟨h.active, h.worker, h.terminated⟩
  unfold ProcessingWorkerClient.destroy
  dsimp only
  split_ifs with hactive
  · exact hdestroyed.releaseWorker hactive
  · exact hdestroyed.stop _

theorem Manned.onerror (h : c.Manned) (worker : Nat) : (c.onerror worker).Manned := by
  unfold ProcessingWorkerClient.onerror
  split_ifs
  · exact h
  · cases hactive : c.active with
    | none => exact h.releaseWorker hactive
    | some id => exact (h.finish id _).releaseWorker rfl

theorem Manned.receive (h : c.Manned) (worker : Nat) (response : ProcessingResponse) :
    (c.receive worker response).Manned := by
  obtain heq | ⟨id, -, heq | ⟨text, -, heq⟩⟩ := receive_cases c worker response
  · rw [heq]
    exact h
  · rw [heq]
    exact h.finish id _
  · rw [heq]
    exact (h.finish id _).releaseWorker rfl

theorem Manned.step (h : c.Manned) (hstep : c.step e = some (r, c')) : c'.Manned := by
  cases e with
  | run made posted =>
    cases hstep
    exact h.run made posted
  | cancel =>
    cases hstep
    exact h.stop _
  | supersede =>
    cases hstep
    exact h.stop _
  | destroy =>
    cases hstep
    exact h.destroy
  | message worker response =>
    obtain ⟨-, heq⟩ := Option.ite_none_right_eq_some.mp hstep
    cases heq
    exact h.receive worker response
  | error worker =>
    obtain ⟨-, heq⟩ := Option.ite_none_right_eq_some.mp hstep
    cases heq
    exact h.onerror worker

theorem receives_of {worker : Nat} {response : ProcessingResponse} (hworker : c.worker = some worker)
    (hactive : c.active = some id) (hid : response.requestId.all (· == id) = true) :
    c.receives worker response = some id := by
  unfold receives
  rw [if_neg (not_not.mpr hworker), hactive]
  exact Option.filter_eq_some_iff.mpr ⟨rfl, hid⟩

/-- A final response that is received settles the active request. -/
theorem receive_final {worker : Nat} {response : ProcessingResponse}
    (h : c.receives worker response = some id) (hfinal : response.final = true) :
    (c.receive worker response).settled = (id, response.settlement) :: c.settled := by
  obtain ⟨hprogress, hends⟩ := Bool.and_eq_true_iff.mp hfinal
  rw [receive, h]
  simp only [if_neg (not_not.mpr (beq_iff_eq.mp hprogress)), ProcessingResponse.settlement]
  cases herror : response.error with
  | none =>
    rw [herror, Option.isSome_none, Bool.or_false] at hends
    simp only [hends, if_true]
    rfl
  | some text => cases text <;> rfl

/-- A response with progress is reported, and changes nothing. -/
theorem receive_progress {worker : Nat} {response : ProcessingResponse}
    (h : c.receives worker response = some id) (hprogress : response.progress ≠ []) :
    c.receive worker response = c ∧
      c.progress worker response = some (id, response.progress) := by
  rw [receive, progress, h, if_neg hprogress]
  exact ⟨if_pos hprogress, rfl⟩

theorem stop_settled (hactive : c.active = some id) (error : ProcessingError) :
    (c.stop error).settled = (id, .rejected error) :: c.settled := by
  unfold ProcessingWorkerClient.stop
  rw [hactive]
  rfl

theorem post_settled (posted : Option Text) : c.settled <:+ (c.post posted).settled := by
  cases posted with
  | none => exact List.suffix_rfl
  | some text => exact List.suffix_cons ..

theorem ends_settled {s : Settlement} (h : c.Sound) (hactive : c.active = some id)
    (hends : Ends c id e s) (hstep : c.step e = some (r, c')) : (id, s) ∈ c'.settled := by
  have hstopped : ∀ error, (id, .rejected error) ∈ (c.stop error).settled := by
    intro error
    rw [stop_settled hactive]
    exact List.mem_cons_self ..
  cases hends with
  | superseding =>
    cases hstep
    have hdestroyed : ¬c.destroyed = true := by
      intro hdestroyed
      rw [(h.gone hdestroyed).2] at hactive
      cases hactive
    rw [run, if_neg hdestroyed]
    dsimp only
    split_ifs
    · exact hstopped _
    · obtain ⟨-, -, hsettled, -⟩ := ensureWorker_frame (c := c.stopActive .superseded)
      refine (post_settled _).subset ?_
      rw [hsettled]
      exact hstopped _
  | cancel =>
    cases hstep
    exact hstopped _
  | supersede =>
    cases hstep
    exact hstopped _
  | destroy =>
    cases hstep
    unfold destroy
    have hne : ¬c.active = none := by
      rw [hactive]
      exact nofun
    dsimp only
    have hsettled := stop_settled (c := { c with destroyed := true }) hactive (.stopped .destroyed)
    rw [if_neg hne, stopActive, hsettled]
    exact List.mem_cons_self ..
  | error hworker =>
    obtain ⟨-, heq⟩ := Option.ite_none_right_eq_some.mp hstep
    cases heq
    rw [onerror, if_neg (not_not.mpr hworker), hactive]
    exact List.mem_cons_self ..
  | answered hworker hid hfinal =>
    obtain ⟨-, heq⟩ := Option.ite_none_right_eq_some.mp hstep
    cases heq
    rw [receive_final (receives_of hworker hactive hid) hfinal]
    exact List.mem_cons_self ..

def Adds (c : ProcessingWorkerClient) (e : ClientEvent) (c' : ProcessingWorkerClient) : Prop :=
  ∃ new, c'.settled = new ++ c.settled ∧ ∀ p ∈ new, Settles c e p.1 p.2

theorem Adds.nothing (h : c'.settled = c.settled) : Adds c e c' := ⟨[], h, nofun⟩

theorem Adds.one {s : Settlement} (h : c'.settled = (id, s) :: c.settled) (hs : Settles c e id s) :
    Adds c e c' := by
  refine ⟨[(id, s)], h, fun p hp => ?_⟩
  obtain rfl := List.mem_singleton.mp hp
  exact hs

theorem adds_stop {error : ProcessingError} (hs : ∀ id, c.active = some id →
    Settles c e id (.rejected error)) : Adds c e (c.stop error) := by
  unfold ProcessingWorkerClient.stop
  cases hactive : c.active with
  | none => exact Adds.nothing rfl
  | some id => exact Adds.one rfl (hs id hactive)

theorem adds_run (h : c.Sound) (made posted : Option Text) :
    Adds c (.run made posted) (c.run made posted) := by
  unfold ProcessingWorkerClient.run
  split_ifs with hdestroyed
  · exact Adds.one rfl (.refused hdestroyed)
  · have hstopped : Adds c (.run made posted) (c.stopActive .superseded) :=
      adds_stop fun id hid => .superseding (h.active id hid).1
    dsimp only
    split_ifs
    · exact hstopped
    · obtain ⟨-, -, hsettled, hreturned⟩ := ensureWorker_frame (c := c.stopActive .superseded)
      obtain ⟨new, hnew, hsettles⟩ := hstopped
      have hsame : (c.stopActive .superseded).returned = c.returned := stop_returned _
      cases posted with
      | none => exact ⟨new, hsettled.trans hnew, hsettles⟩
      | some text =>
        refine ⟨(c.returned, .rejected (.message text)) :: new, ?_, fun p hp => ?_⟩
        · rw [List.cons_append, ← hnew, ← hsettled, ← hsame, ← hreturned]
          rfl
        · obtain rfl | hp := List.mem_cons.mp hp
          · exact .unposted
          · exact hsettles p hp

theorem adds_step (h : c.Sound) (hstep : c.step e = some (r, c')) : Adds c e c' := by
  cases e with
  | run made posted =>
    cases hstep
    exact adds_run h made posted
  | cancel =>
    cases hstep
    exact adds_stop fun id _ => .cancel
  | supersede =>
    cases hstep
    exact adds_stop fun id _ => .supersede
  | destroy =>
    cases hstep
    unfold ProcessingWorkerClient.destroy
    dsimp only
    split_ifs with hactive
    · exact Adds.nothing rfl
    · obtain ⟨id, hid⟩ := Option.ne_none_iff_exists'.mp hactive
      simp only [stopActive, ProcessingWorkerClient.stop, hid]
      exact Adds.one rfl .destroy
  | message worker response =>
    obtain ⟨-, heq⟩ := Option.ite_none_right_eq_some.mp hstep
    cases heq
    obtain heq | ⟨id, hid, heq | ⟨text, herror, heq⟩⟩ := receive_cases c worker response
    · exact Adds.nothing (congrArg settled heq)
    · obtain ⟨hworker, -, hall⟩ := receives_eq_some hid
      exact Adds.one (congrArg settled heq) (.answered hworker hall)
    · obtain ⟨hworker, -, hall⟩ := receives_eq_some hid
      exact Adds.one (congrArg settled heq) (.failed hworker hall herror)
  | error worker =>
    obtain ⟨-, heq⟩ := Option.ite_none_right_eq_some.mp hstep
    cases heq
    unfold ProcessingWorkerClient.onerror
    split_ifs with hworker
    · exact Adds.nothing rfl
    · cases hactive : c.active with
      | none => exact Adds.nothing rfl
      | some id => exact Adds.one rfl (.error (not_not.mp hworker))

theorem step_destroyed (h : c.destroyed = true) (hstep : c.step e = some (r, c')) :
    c'.destroyed = true := by
  cases e with
  | run made posted =>
    cases hstep
    rw [run, if_pos h]
    exact h
  | cancel =>
    cases hstep
    exact (stop_destroyed _).trans h
  | supersede =>
    cases hstep
    exact (stop_destroyed _).trans h
  | destroy =>
    cases hstep
    unfold destroy
    dsimp only
    split_ifs
    · rfl
    · exact stop_destroyed _
  | message worker response =>
    obtain ⟨-, heq⟩ := Option.ite_none_right_eq_some.mp hstep
    cases heq
    obtain heq | ⟨id, -, heq | ⟨text, -, heq⟩⟩ := receive_cases c worker response
    · rw [heq]
      exact h
    · rw [heq]
      exact h
    · rw [heq]
      exact h
  | error worker =>
    obtain ⟨-, heq⟩ := Option.ite_none_right_eq_some.mp hstep
    cases heq
    unfold onerror
    split_ifs
    · exact h
    · cases c.active <;> exact h

theorem destroy_destroyed (c : ProcessingWorkerClient) : c.destroy.destroyed = true := by
  unfold destroy
  dsimp only
  split_ifs
  · rfl
  · exact stop_destroyed _

section Runs

variable {t : List (Entry ProcessingWorkerClient ClientEvent (Option (Nat × Text)))}

theorem run_sound (h : Run ProcessingWorkerClient.step new t c) : c.Sound :=
  h.invariant (fun hc hstep => hc.step hstep) Sound.new

theorem run_manned (h : Run ProcessingWorkerClient.step new t c) : c.Manned :=
  h.invariant (fun hc hstep => hc.step hstep) Manned.new

/-- What is settled was settled by an event of the run. -/
theorem run_settles (h : Run ProcessingWorkerClient.step new t c) :
    ∀ p ∈ c.settled, ∃ x ∈ t, p ∉ x.before.settled ∧ p ∈ x.after.settled ∧
      Settles x.before x.event p.1 p.2 := by
  induction h with
  | nil =>
    intro p hp
    cases hp
  | @snoc t c e r c' hprior hlast ih =>
    obtain ⟨new, hnew, hsettles⟩ := adds_step (run_sound hprior) hlast
    intro p hp
    by_cases hbefore : p ∈ c.settled
    · obtain ⟨x, hx, hfacts⟩ := ih p hbefore
      exact ⟨x, List.mem_append_left _ hx, hfacts⟩
    · refine ⟨⟨c, e, r, c'⟩, List.mem_append_right _ (List.mem_singleton_self _), hbefore, hp, ?_⟩
      rw [hnew] at hp
      obtain hp | hp := List.mem_append.mp hp
      · exact hsettles p hp
      · exact absurd hp hbefore

end Runs

end Facts

end ProcessingWorkerClient

def ClientEvent.carriesId : ClientEvent → Bool
  | .message _ response => response.requestId.isSome
  | _ => true

section Runs

open ProcessingWorkerClient

variable {t : List (Entry ProcessingWorkerClient ClientEvent (Option (Nat × Text)))}
  {c : ProcessingWorkerClient}

/-- Every promise is settled at most once, by an event that may settle it, and all but the
active request's are settled. That one has a live worker: each event that ends it settles
its promise, the worker's final response among them, while progress is only reported.
After a call of `destroy` every worker is terminated, and `run` returns a rejected
promise. -/
theorem workerClient_answers (h : Run ProcessingWorkerClient.step new t c) :
    (c.settledIds.Nodup ∧ ∀ x ∈ t, x.before.settled <:+ x.after.settled) ∧
    (∀ p ∈ c.settled, ∃ x ∈ t, p ∉ x.before.settled ∧ p ∈ x.after.settled ∧
      Settles x.before x.event p.1 p.2) ∧
    ((∀ x ∈ t, x.event.carriesId = true) → ∀ id response,
      (id, .resolved response) ∈ c.settled → response.requestId = some id) ∧
    ((List.range c.returned).filter fun id => id ∉ c.settledIds).length ≤ 1 ∧
    (∀ id < c.returned, c.active ≠ some id → id ∈ c.settledIds) ∧
    (∀ id, c.active = some id → ∃ w < c.workers, c.worker = some w ∧ w ∉ c.terminated) ∧
    (∀ x ∈ t, ∀ id, x.before.active = some id →
      (∀ s, Ends x.before id x.event s → (id, s) ∈ x.after.settled) ∧
      ∀ worker response, x.event = .message worker response → x.before.worker = some worker →
        response.requestId.all (· == id) = true → response.progress ≠ [] →
        x.after = x.before ∧ x.response = some (id, response.progress)) ∧
    ∀ u x v, t = u ++ x :: v → x.event = .destroy → (∀ w < c.workers, w ∈ c.terminated) ∧
      ∀ y ∈ v, ∀ made posted, y.event = .run made posted →
        (y.before.returned, .rejected (.stopped .destroyed)) ∈ y.after.settled := by
  have hsound := run_sound h
  refine ⟨⟨hsound.once, ?_⟩, run_settles h, ?_, ?_, hsound.settled, ?_, ?_, ?_⟩
  · intro x hx
    obtain ⟨hbefore, hstep⟩ := h.at_mem (fun hc hstep => hc.step hstep) Sound.new hx
    obtain ⟨new, hnew, -⟩ := adds_step hbefore hstep
    exact ⟨new, hnew.symm⟩
  · intro hcarry id response hp
    obtain ⟨x, hx, -, -, hsettles⟩ := run_settles h _ hp
    have hid := hcarry x hx
    generalize x.event = e at hsettles hid
    cases hsettles with
    | answered _ hall =>
      obtain ⟨id', hid'⟩ := Option.isSome_iff_exists.mp hid
      rw [hid', Option.all_some, beq_iff_eq] at hall
      rw [hid', hall]
  · have hsub : ((List.range c.returned).filter fun id => id ∉ c.settledIds) ⊆
        c.active.toList := by
      intro id hid
      obtain ⟨hmem, hopen⟩ := List.mem_filter.mp hid
      by_contra hactive
      refine of_decide_eq_true hopen (hsound.settled id (List.mem_range.mp hmem) ?_)
      exact fun heq => hactive (Option.mem_toList.mpr heq)
    refine ((List.nodup_range.filter _).subperm hsub).length_le.trans ?_
    cases c.active <;> simp
  · intro id hactive
    have hmanned := run_manned h
    obtain ⟨w, hworker⟩ := Option.ne_none_iff_exists'.mp (hmanned.active (by simp [hactive]))
    obtain ⟨hlt, hlive⟩ := hmanned.worker w hworker
    exact ⟨w, hlt, hworker, hlive⟩
  · intro x hx id hactive
    obtain ⟨hbefore, hstep⟩ := h.at_mem (fun hc hstep => hc.step hstep) Sound.new hx
    refine ⟨fun s hends => ends_settled hbefore hactive hends hstep, ?_⟩
    intro worker response hevent hworker hid hprogress
    rw [hevent] at hstep
    obtain ⟨-, heq⟩ := Option.ite_none_right_eq_some.mp hstep
    obtain ⟨hresponse, hafter⟩ := Prod.mk.inj (Option.some.inj heq)
    obtain ⟨hsame, hreported⟩ :=
      receive_progress (receives_of hworker hactive hid) hprogress
    exact ⟨hafter.symm.trans hsame, hresponse.symm.trans hreported⟩
  · intro u x v ht hdestroy
    subst ht
    obtain ⟨-, hstep, hrest⟩ := h.at_entry
    have hafter : x.after.destroyed = true := by
      rw [hdestroy] at hstep
      obtain ⟨-, heq⟩ := Prod.mk.inj (Option.some.inj hstep)
      rw [← heq]
      exact destroy_destroyed _
    have hkeeps : ∀ {s e r s'}, ProcessingWorkerClient.destroyed s = true →
        ProcessingWorkerClient.step s e = some (r, s') → s'.destroyed = true :=
      fun hs hstep => step_destroyed hs hstep
    refine ⟨fun w hw => ?_, fun y hy made posted hrun => ?_⟩
    · have hgone := (hsound.gone (hrest.invariant (P := fun c => c.destroyed = true) hkeeps hafter)).1
      obtain hworker | hterminated := hsound.workers w hw
      · rw [hgone] at hworker
        cases hworker
      · exact hterminated
    · obtain ⟨hbefore, hnext⟩ := hrest.at_mem (P := fun c => c.destroyed = true) hkeeps hafter hy
      rw [hrun] at hnext
      obtain ⟨-, heq⟩ := Prod.mk.inj (Option.some.inj hnext)
      rw [← heq, ProcessingWorkerClient.run, if_pos hbefore]
      exact List.mem_cons_self ..

theorem workerClient_answers_late : ∃ t c, Run ProcessingWorkerClient.step new t c ∧
    c.settled = [(1, .resolved ⟨some 1, [], true, none⟩), (0, .rejected (.stopped .superseded))] ∧
      c.settledIds.Nodup := by
  obtain ⟨t, c, hrun, hlate⟩ : ∃ t c, Run ProcessingWorkerClient.step new t c ∧
      (c.settled == [(1, .resolved ⟨some 1, [], true, none⟩),
        (0, .rejected (.stopped .superseded))]) = true :=
    exists_run [.run none none, .run none none, .message 0 ⟨some 0, [], true, none⟩, .error 0,
      .message 1 ⟨some 1, "Reading".toList, false, none⟩, .message 1 ⟨some 1, [], true, none⟩]
      (by decide +kernel)
  obtain ⟨⟨honce, -⟩, -⟩ := workerClient_answers hrun
  exact ⟨t, c, hrun, beq_iff_eq.mp hlate, honce⟩

end Runs

end Noted.Prepare
