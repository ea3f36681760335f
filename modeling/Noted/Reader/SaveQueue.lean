import Noted.Library.Runs
import Noted.Types

/-!
# Saving the place in a score (reader.component.ts)

`saveNow` captures where the reader stands. One request is on its way at a time, and
while it is, the latest state captured waits in `pendingReaderState`. What up to the next
callback runs is one step: `finish` sends the state that waits in the step that ends the
request before it. A piece is loaded in two phases, up to `loadedPDFChecksum` and from
there to the end, and several loads may be under way.
-/

namespace Noted.Reader

open Library

/-- `ReaderState` of models.ts, less `updatedAt`, which the reader never sends. -/
structure ReaderState extends Noted.ReaderState where
  pieceId : Text
  deriving DecidableEq

structure View where
  mode : Text
  currentPage : Int
  scrollTop : Rat
  zoom : Rat
  speed : Rat
  paused : Bool
  deriving DecidableEq

/-- The fields of the component that saving reads or writes, the loads that have not set
the checksum and those that have, the requests under way, and what the server holds. -/
structure ReaderComponent where
  pieceId : Text
  loading : Bool
  error : Text
  readerStateSaveBlocked : Bool
  readerStateSaveInFlight : Bool
  pendingReaderState : Option ReaderState
  loadedPDFChecksum : Text
  destroyed : Bool
  fetching : Nat
  rendering : Nat
  requests : List ReaderState
  server : ReaderState
  deriving DecidableEq

inductive ReaderEvent
  | saveNow (view : View)
  | destroy (view : View)
  | reload
  | loaded (checksum : Text)
  | opened
  | loadFailed (message : Text) (fetched : Bool)
  | complete (state : ReaderState)
  | conflict (state : ReaderState)
  | fail (state : ReaderState) (applied : Bool)
  deriving DecidableEq

def ReaderEvent.endangers : ReaderEvent → Bool
  | .reload | .conflict _ | .fail .. => true
  | _ => false

structure Queued where
  captured : Option ReaderState
  sent : Option ReaderState
  deriving DecidableEq

def pdfChangedMessage : Text :=
  "This score changed while it was open. Reload it before continuing.".toList

namespace ReaderComponent

variable (σ : ReaderComponent)

def opening (pieceId : Text) (server : ReaderState) : ReaderComponent :=
  ⟨pieceId, true, [], false, false, none, [], false, 1, 0, [], server⟩

def load : ReaderComponent :=
  { σ with
    loading := true
    error := []
    readerStateSaveBlocked := false
    pendingReaderState := none
    loadedPDFChecksum := []
    fetching := σ.fetching + 1 }

def capture (view : View) : ReaderState where
  pieceId := σ.pieceId
  pdfChecksumSHA256 := σ.loadedPDFChecksum
  mode := view.mode
  lastPage := view.currentPage
  scrollPosition := if view.mode = "scroll".toList then view.scrollTop else 0
  zoom := view.zoom
  scrollSpeed := view.speed
  scrollPaused := view.paused

def flushReaderStateSave : Option ReaderState × ReaderComponent :=
  if σ.readerStateSaveInFlight || σ.readerStateSaveBlocked then (none, σ)
  else
    match σ.pendingReaderState with
    | none => (none, σ)
    | some state =>
      (some state,
        { σ with
          pendingReaderState := none
          readerStateSaveInFlight := true
          requests := state :: σ.requests })

def saves : Bool :=
  !(σ.pieceId.isEmpty || σ.loadedPDFChecksum.isEmpty || σ.loading || !σ.error.isEmpty ||
    σ.readerStateSaveBlocked)

def saveNow (view : View) : Queued × ReaderComponent :=
  if σ.saves then
    let state := σ.capture view
    let (sent, σ) := { σ with pendingReaderState := some state }.flushReaderStateSave
    (⟨some state, sent⟩, σ)
  else (⟨none, none⟩, σ)

def finish : Queued × ReaderComponent :=
  let (sent, σ) := { σ with readerStateSaveInFlight := false }.flushReaderStateSave
  (⟨none, sent⟩, σ)

def answered (state : ReaderState) : ReaderComponent :=
  { σ with requests := σ.requests.erase state }

/-- The error handler's branch for 409: the piece's PDF is not the state's any more. -/
def refused (state : ReaderState) : ReaderComponent :=
  if σ.loadedPDFChecksum = state.pdfChecksumSHA256 then
    { σ with
      readerStateSaveBlocked := true
      pendingReaderState := none
      error := pdfChangedMessage }
  else σ

def step (σ : ReaderComponent) (e : ReaderEvent) : Option (Queued × ReaderComponent) :=
  match e with
  | .saveNow view => some (σ.saveNow view)
  | .destroy view => some ({ σ with destroyed := true }.saveNow view)
  | .reload => some (⟨none, none⟩, σ.load)
  | .loaded checksum =>
    if 0 < σ.fetching then
      some (⟨none, none⟩,
        { σ with
          loadedPDFChecksum := checksum
          fetching := σ.fetching - 1
          rendering := σ.rendering + 1 })
    else none
  | .opened =>
    if 0 < σ.rendering then
      some (⟨none, none⟩, { σ with loading := false, rendering := σ.rendering - 1 })
    else none
  | .loadFailed message false =>
    if 0 < σ.fetching then
      some (⟨none, none⟩,
        { σ with error := message, loading := false, fetching := σ.fetching - 1 })
    else none
  | .loadFailed message true =>
    if 0 < σ.rendering then
      some (⟨none, none⟩,
        { σ with error := message, loading := false, rendering := σ.rendering - 1 })
    else none
  | .complete state =>
    if state ∈ σ.requests then some ({ σ.answered state with server := state }.finish) else none
  | .conflict state =>
    if state ∈ σ.requests then some ((σ.answered state).refused state).finish else none
  | .fail state applied =>
    if state ∈ σ.requests then
      some ({ σ.answered state with server := if applied then state else σ.server }.finish)
    else none

/-- A request is under way while the flag says so, a state waits only behind one, and
none waits while saving is blocked. -/
structure Orderly : Prop where
  inFlight : σ.readerStateSaveInFlight = !σ.requests.isEmpty
  single : σ.requests.length ≤ 1
  behind : σ.pendingReaderState ≠ none → σ.requests ≠ []
  blocked : σ.readerStateSaveBlocked = true → σ.pendingReaderState = none

/-- What the server will hold when the requests under way have been answered, and the
state that waits has been saved. -/
def latest : ReaderState :=
  (σ.pendingReaderState.or σ.requests.head?).getD σ.server

inductive Moves (σ σ' : ReaderComponent) (e : ReaderEvent) : Queued → Prop
  | stay : σ'.requests = σ.requests → σ'.pendingReaderState = σ.pendingReaderState →
      σ'.server = σ.server → Moves σ σ' e ⟨none, none⟩
  | drop : e.endangers = true → σ'.requests = σ.requests → σ'.pendingReaderState = none →
      Moves σ σ' e ⟨none, none⟩
  | send (state : ReaderState) : σ.requests = [] → σ'.requests = [state] →
      σ'.pendingReaderState = none → Moves σ σ' e ⟨some state, some state⟩
  | wait (state : ReaderState) : σ'.requests = σ.requests →
      σ'.pendingReaderState = some state → Moves σ σ' e ⟨some state, none⟩
  | next (state : ReaderState) : σ.requests = [state] →
      σ'.requests = σ.pendingReaderState.toList → σ'.pendingReaderState = none →
      (e.endangers = false → σ'.server = state) → Moves σ σ' e ⟨none, σ.pendingReaderState⟩
  | refuse : e.endangers = true → σ'.requests = [] → σ'.pendingReaderState = none →
      Moves σ σ' e ⟨none, none⟩

section Facts

variable {σ σ' : ReaderComponent} {e : ReaderEvent} {r : Queued} {state : ReaderState} {view : View}

theorem flush_inFlight (h : σ.readerStateSaveInFlight = true) :
    σ.flushReaderStateSave = (none, σ) := by
  rw [flushReaderStateSave, h]
  rfl

theorem flush_blocked (h : σ.readerStateSaveBlocked = true) :
    σ.flushReaderStateSave = (none, σ) := by
  rw [flushReaderStateSave, h, Bool.or_true]
  rfl

theorem flush_idle (hflag : σ.readerStateSaveInFlight = false)
    (hopen : σ.readerStateSaveBlocked = false) :
    σ.flushReaderStateSave = (σ.pendingReaderState,
      { σ with
        pendingReaderState := none
        readerStateSaveInFlight := σ.pendingReaderState.isSome
        requests := σ.pendingReaderState.toList ++ σ.requests }) := by
  rw [flushReaderStateSave, hflag, hopen]
  cases hpending : σ.pendingReaderState with
  | none =>
    rw [if_neg (by decide)]
    exact congrArg (Prod.mk none) (by cases σ; simp_all)
  | some state => rfl

theorem saves_eq_true : σ.saves = true ↔ σ.pieceId ≠ [] ∧ σ.loadedPDFChecksum ≠ [] ∧
    σ.loading = false ∧ σ.error = [] ∧ σ.readerStateSaveBlocked = false := by
  simp [saves, and_assoc]

theorem Orderly.requests_eq (h : σ.Orderly) (hmem : state ∈ σ.requests) :
    σ.requests = [state] := by
  have hlength : σ.requests.length = 1 :=
    Nat.le_antisymm h.single (List.length_pos_of_mem hmem)
  obtain ⟨only, honly⟩ := List.length_eq_one_iff.mp hlength
  rw [honly] at hmem
  rw [honly, List.mem_singleton.mp hmem]

theorem Orderly.of_eq (h : σ.Orderly)
    (hflag : σ'.readerStateSaveInFlight = σ.readerStateSaveInFlight)
    (hrequests : σ'.requests = σ.requests)
    (hpending : σ'.pendingReaderState = none ∨
      σ'.pendingReaderState = σ.pendingReaderState ∧
        σ'.readerStateSaveBlocked = σ.readerStateSaveBlocked) : σ'.Orderly := by
  refine ⟨?_, ?_, ?_, ?_⟩
  · rw [hflag, hrequests]
    exact h.inFlight
  · rw [hrequests]
    exact h.single
  · intro hne
    rw [hrequests]
    apply h.behind
    obtain hnone | ⟨hsame, -⟩ := hpending
    · exact absurd hnone hne
    · rwa [hsame] at hne
  · intro hblocked
    obtain hnone | ⟨hsame, hstill⟩ := hpending
    · exact hnone
    · rw [hsame]
      exact h.blocked (hstill ▸ hblocked)

theorem Moves.of_eq {τ : ReaderComponent} (h : Moves σ σ' e r)
    (hrequests : σ.requests = τ.requests)
    (hpending : σ.pendingReaderState = τ.pendingReaderState)
    (hserver : σ.server = τ.server) : Moves τ σ' e r := by
  cases h with
  | stay hr hp hs => exact .stay (hr.trans hrequests) (hp.trans hpending) (hs.trans hserver)
  | drop he hr hp => exact .drop he (hr.trans hrequests) hp
  | send state hnone hr hp => exact .send state (hrequests.symm.trans hnone) hr hp
  | wait state hr hp => exact .wait state (hr.trans hrequests) hp
  | next state hone hr hp hs =>
    rw [hpending] at hr ⊢
    exact .next state (hrequests.symm.trans hone) hr hp hs
  | refuse he hr hp => exact .refuse he hr hp

theorem orderly_opening (pieceId : Text) (server : ReaderState) :
    (opening pieceId server).Orderly :=
  ⟨by rfl, Nat.zero_le 1, fun h => absurd rfl h, fun _ => rfl⟩

theorem Orderly.load (h : σ.Orderly) : σ.load.Orderly := h.of_eq rfl rfl (Or.inl rfl)

theorem Orderly.saveNow (h : σ.Orderly) :
    (σ.saveNow view).2.Orderly ∧ Moves σ (σ.saveNow view).2 e (σ.saveNow view).1 := by
  by_cases hsaves : σ.saves = true
  · have hopen : σ.readerStateSaveBlocked = false := (saves_eq_true.mp hsaves).2.2.2.2
    cases hflag : σ.readerStateSaveInFlight with
    | false =>
      have hnone : σ.requests = [] := by simpa [hflag] using h.inFlight
      have heq : σ.saveNow view = (⟨some (σ.capture view), some (σ.capture view)⟩,
          { σ with
            pendingReaderState := none
            readerStateSaveInFlight := true
            requests := σ.capture view :: σ.requests }) := by
        rw [ReaderComponent.saveNow, if_pos hsaves]
        dsimp only
        rw [flush_idle (by exact hflag) (by exact hopen)]
        rfl
      rw [heq, hnone]
      refine ⟨⟨rfl, Nat.le_refl 1, fun hne => absurd rfl hne, fun _ => rfl⟩, ?_⟩
      exact .send _ hnone rfl rfl
    | true =>
      have hsome : σ.requests ≠ [] := by
        have hflag' := h.inFlight
        rw [hflag] at hflag'
        intro hnil
        rw [hnil] at hflag'
        cases hflag'
      have heq : σ.saveNow view = (⟨some (σ.capture view), none⟩,
          { σ with pendingReaderState := some (σ.capture view) }) := by
        rw [ReaderComponent.saveNow, if_pos hsaves]
        dsimp only
        rw [flush_inFlight (by exact hflag)]
      rw [heq]
      refine ⟨⟨h.inFlight, h.single, fun _ => hsome, fun hblocked => ?_⟩, .wait _ rfl rfl⟩
      exact absurd (hopen.symm.trans hblocked) (by decide)
  · rw [ReaderComponent.saveNow, if_neg hsaves]
    exact ⟨h, .stay rfl rfl rfl⟩

theorem finish_blocked (hblocked : σ.readerStateSaveBlocked = true) :
    σ.finish = (⟨none, none⟩, { σ with readerStateSaveInFlight := false }) := by
  unfold finish
  rw [flush_blocked (by exact hblocked)]

theorem finish_eq (hnone : σ.requests = [])
    (hblocked : σ.readerStateSaveBlocked = true → σ.pendingReaderState = none) :
    σ.finish = (⟨none, σ.pendingReaderState⟩,
      { σ with
        pendingReaderState := none
        readerStateSaveInFlight := σ.pendingReaderState.isSome
        requests := σ.pendingReaderState.toList }) := by
  by_cases hopen : σ.readerStateSaveBlocked = true
  · rw [finish_blocked hopen, hblocked hopen]
    cases σ
    simp_all
  · unfold finish
    rw [flush_idle rfl (by exact Bool.eq_false_iff.mpr hopen)]
    dsimp only
    rw [hnone, List.append_nil]

theorem Orderly.finish {τ : ReaderComponent} (hrequests : σ.requests = [state])
    (hnone : τ.requests = [])
    (hblocked : τ.readerStateSaveBlocked = true → τ.pendingReaderState = none)
    (hpending : τ.pendingReaderState = σ.pendingReaderState ∨
      e.endangers = true ∧ τ.pendingReaderState = none)
    (hserver : e.endangers = false → τ.server = state) :
    τ.finish.2.Orderly ∧ Moves σ τ.finish.2 e τ.finish.1 := by
  rw [finish_eq hnone hblocked]
  constructor
  · refine ⟨?_, ?_, fun hne => absurd rfl hne, fun _ => rfl⟩
    · cases τ.pendingReaderState <;> rfl
    · cases τ.pendingReaderState with
      | none => exact Nat.zero_le 1
      | some state => exact Nat.le_refl 1
  · obtain hsame | ⟨hendangers, hdropped⟩ := hpending
    · rw [hsame]
      exact .next state hrequests rfl rfl hserver
    · rw [hdropped]
      exact .refuse hendangers rfl rfl

theorem Orderly.answered (h : σ.Orderly) (hmem : state ∈ σ.requests) :
    (σ.answered state).requests = [] := by
  rw [ReaderComponent.answered, h.requests_eq hmem, List.erase_cons_head]

theorem refused_other (hother : σ.loadedPDFChecksum ≠ state.pdfChecksumSHA256) :
    σ.refused state = σ := if_neg hother

theorem refused_requests : (σ.refused state).requests = σ.requests := by
  unfold refused
  split_ifs <;> rfl

theorem refused_blocked
    (h : σ.readerStateSaveBlocked = true → σ.pendingReaderState = none) :
    (σ.refused state).readerStateSaveBlocked = true → (σ.refused state).pendingReaderState = none := by
  unfold refused
  split_ifs
  · exact fun _ => rfl
  · exact h

theorem refused_pending : (σ.refused state).pendingReaderState = σ.pendingReaderState ∨
    (σ.refused state).pendingReaderState = none := by
  unfold refused
  split_ifs
  · exact Or.inr rfl
  · exact Or.inl rfl

theorem Orderly.step (h : σ.Orderly) (hstep : σ.step e = some (r, σ')) :
    σ'.Orderly ∧ Moves σ σ' e r := by
  have key : ∀ p : Queued × ReaderComponent, p.2.Orderly ∧ Moves σ p.2 e p.1 →
      some p = some (r, σ') → σ'.Orderly ∧ Moves σ σ' e r := by
    intro p hp heq
    obtain rfl := Option.some.inj heq
    exact hp
  have quiet : ∀ τ : ReaderComponent, some ((⟨none, none⟩ : Queued), τ) = some (r, σ') →
      τ.readerStateSaveInFlight = σ.readerStateSaveInFlight → τ.requests = σ.requests →
      τ.pendingReaderState = σ.pendingReaderState →
      τ.readerStateSaveBlocked = σ.readerStateSaveBlocked → τ.server = σ.server →
      σ'.Orderly ∧ Moves σ σ' e r := by
    intro τ heq hflag hrequests hpending hblocked hserver
    have horderly : τ.Orderly := h.of_eq hflag hrequests (Or.inr ⟨hpending, hblocked⟩)
    exact key (⟨none, none⟩, τ) ⟨horderly, .stay hrequests hpending hserver⟩ heq
  cases e with
  | saveNow view => exact key _ h.saveNow hstep
  | destroy view =>
    have hdestroyed : { σ with destroyed := true }.Orderly := h.of_eq rfl rfl (Or.inr ⟨rfl, rfl⟩)
    have hsaved : ({ σ with destroyed := true }.saveNow view).2.Orderly ∧
        Moves { σ with destroyed := true } ({ σ with destroyed := true }.saveNow view).2
          (.destroy view) ({ σ with destroyed := true }.saveNow view).1 :=
      hdestroyed.saveNow
    exact key _ ⟨hsaved.1, hsaved.2.of_eq rfl rfl rfl⟩ hstep
  | reload => exact key (⟨none, none⟩, σ.load) ⟨h.load, .drop rfl rfl rfl⟩ hstep
  | loaded checksum =>
    obtain ⟨-, heq⟩ := Option.ite_none_right_eq_some.mp hstep
    exact quiet _ heq rfl rfl rfl rfl rfl
  | opened =>
    obtain ⟨-, heq⟩ := Option.ite_none_right_eq_some.mp hstep
    exact quiet _ heq rfl rfl rfl rfl rfl
  | loadFailed message fetched =>
    cases fetched with
    | false =>
      obtain ⟨-, heq⟩ := Option.ite_none_right_eq_some.mp hstep
      exact quiet _ heq rfl rfl rfl rfl rfl
    | true =>
      obtain ⟨-, heq⟩ := Option.ite_none_right_eq_some.mp hstep
      exact quiet _ heq rfl rfl rfl rfl rfl
  | complete state =>
    obtain ⟨hmem, heq⟩ := Option.ite_none_right_eq_some.mp hstep
    refine key _ ?_ heq
    exact Orderly.finish (h.requests_eq hmem) (h.answered hmem) h.blocked (Or.inl rfl) fun _ => rfl
  | conflict state =>
    obtain ⟨hmem, heq⟩ := Option.ite_none_right_eq_some.mp hstep
    have hnone : ((σ.answered state).refused state).requests = [] := by
      rw [refused_requests, h.answered hmem]
    refine key _ ?_ heq
    exact Orderly.finish (h.requests_eq hmem) hnone (refused_blocked h.blocked)
      (refused_pending.imp id (And.intro rfl)) (by simp [ReaderEvent.endangers])
  | fail state applied =>
    obtain ⟨hmem, heq⟩ := Option.ite_none_right_eq_some.mp hstep
    refine key _ ?_ heq
    exact Orderly.finish (h.requests_eq hmem) (h.answered hmem) h.blocked (Or.inl rfl)
      (by simp [ReaderEvent.endangers])

theorem Moves.latest (h : Moves σ σ' e r) (hsafe : e.endangers = false) :
    σ'.latest = r.captured.getD σ.latest := by
  unfold ReaderComponent.latest
  cases h with
  | stay hrequests hpending hserver =>
    rw [hrequests, hpending, hserver]
    rfl
  | drop hendangers => exact absurd (hsafe.symm.trans hendangers) (by decide)
  | send state hnone hrequests hpending =>
    rw [hrequests, hpending]
    rfl
  | wait state hrequests hpending =>
    rw [hpending]
    rfl
  | next state hone hrequests hpending hserver =>
    rw [hrequests, hpending, hserver hsafe, hone]
    cases σ.pendingReaderState <;> rfl
  | refuse hendangers => exact absurd (hsafe.symm.trans hendangers) (by decide)

theorem Moves.ordered (h : Moves σ σ' e r) {sent captured : List ReaderState}
    (hsub : (sent ++ σ.pendingReaderState.toList).Sublist captured) :
    (sent ++ r.sent.toList ++ σ'.pendingReaderState.toList).Sublist
      (captured ++ r.captured.toList) := by
  have hsent : sent.Sublist captured := (List.sublist_append_left _ _).trans hsub
  cases h with
  | stay hrequests hpending =>
    rw [hpending]
    simpa using hsub
  | drop _ hrequests hpending =>
    rw [hpending]
    simpa using hsent
  | send state hnone hrequests hpending =>
    rw [hpending]
    simpa using hsent.append_right [state]
  | wait state hrequests hpending =>
    rw [hpending]
    simpa using hsent.append_right [state]
  | next state hone hrequests hpending =>
    rw [hpending]
    simpa using hsub
  | refuse _ hrequests hpending =>
    rw [hpending]
    simpa using hsent

theorem saveNow_blocked (hblocked : σ.readerStateSaveBlocked = true) :
    σ.saveNow view = (⟨none, none⟩, σ) := by
  have hsaves : ¬ σ.saves = true := by
    intro h
    exact absurd (hblocked.symm.trans (saves_eq_true.mp h).2.2.2.2) (by decide)
  rw [saveNow, if_neg hsaves]

/-- While saving is blocked nothing is sent, and only a reload ends that. -/
theorem blocked_step (hstep : σ.step e = some (r, σ')) (hblocked : σ.readerStateSaveBlocked = true)
    (hreload : e ≠ .reload) : r.sent = none ∧ σ'.readerStateSaveBlocked = true := by
  have finished : ∀ τ : ReaderComponent, τ.readerStateSaveBlocked = true →
      some τ.finish = some (r, σ') → r.sent = none ∧ σ'.readerStateSaveBlocked = true := by
    intro τ hτ heq
    rw [finish_blocked hτ] at heq
    cases heq
    exact ⟨rfl, hτ⟩
  cases e with
  | saveNow view =>
    have heq : some (σ.saveNow view) = some (r, σ') := hstep
    rw [saveNow_blocked hblocked] at heq
    cases heq
    exact ⟨rfl, hblocked⟩
  | destroy view =>
    have heq : some ({ σ with destroyed := true }.saveNow view) = some (r, σ') := hstep
    rw [saveNow_blocked (by exact hblocked)] at heq
    cases heq
    exact ⟨rfl, hblocked⟩
  | reload => exact absurd rfl hreload
  | loaded checksum =>
    obtain ⟨-, heq⟩ := Option.ite_none_right_eq_some.mp hstep
    cases heq
    exact ⟨rfl, hblocked⟩
  | opened =>
    obtain ⟨-, heq⟩ := Option.ite_none_right_eq_some.mp hstep
    cases heq
    exact ⟨rfl, hblocked⟩
  | loadFailed message fetched =>
    cases fetched with
    | false =>
      obtain ⟨-, heq⟩ := Option.ite_none_right_eq_some.mp hstep
      cases heq
      exact ⟨rfl, hblocked⟩
    | true =>
      obtain ⟨-, heq⟩ := Option.ite_none_right_eq_some.mp hstep
      cases heq
      exact ⟨rfl, hblocked⟩
  | complete state =>
    obtain ⟨-, heq⟩ := Option.ite_none_right_eq_some.mp hstep
    exact finished { σ.answered state with server := state } hblocked heq
  | conflict state =>
    obtain ⟨-, heq⟩ := Option.ite_none_right_eq_some.mp hstep
    refine finished _ ?_ heq
    unfold refused
    split_ifs
    · rfl
    · exact hblocked
  | fail state applied =>
    obtain ⟨-, heq⟩ := Option.ite_none_right_eq_some.mp hstep
    exact finished { σ.answered state with server := if applied then state else σ.server }
      hblocked heq

theorem conflict_loaded (hstep : σ.step (.conflict state) = some (r, σ'))
    (hloaded : σ.loadedPDFChecksum = state.pdfChecksumSHA256) :
    r.sent = none ∧ σ'.readerStateSaveBlocked = true := by
  obtain ⟨-, heq⟩ := Option.ite_none_right_eq_some.mp hstep
  rw [refused, if_pos (by exact hloaded), finish_blocked rfl] at heq
  cases heq
  exact ⟨rfl, rfl⟩

theorem Orderly.conflict_other (h : σ.Orderly) (hstep : σ.step (.conflict state) = some (r, σ'))
    (hother : σ.loadedPDFChecksum ≠ state.pdfChecksumSHA256) :
    r.sent = σ.pendingReaderState ∧ σ'.readerStateSaveBlocked = σ.readerStateSaveBlocked ∧
      σ'.error = σ.error := by
  obtain ⟨hmem, heq⟩ := Option.ite_none_right_eq_some.mp hstep
  rw [refused_other (by exact hother), finish_eq (h.answered hmem) h.blocked] at heq
  cases heq
  exact ⟨rfl, rfl, rfl⟩

end Facts

end ReaderComponent

open ReaderComponent

variable {t : List (Entry ReaderComponent ReaderEvent Queued)} {σ σ' : ReaderComponent}
  {pieceId : Text} {server : ReaderState}

def captured (t : List (Entry ReaderComponent ReaderEvent Queued)) : List ReaderState :=
  t.flatMap fun x => x.response.captured.toList

def sent (t : List (Entry ReaderComponent ReaderEvent Queued)) : List ReaderState :=
  t.flatMap fun x => x.response.sent.toList

theorem run_orderly (h : Run step (opening pieceId server) t σ) : σ.Orderly :=
  h.invariant (fun hs hstep => (hs.step hstep).1) (orderly_opening pieceId server)

theorem run_ordered (h : Run step (opening pieceId server) t σ) :
    (sent t ++ σ.pendingReaderState.toList).Sublist (captured t) := by
  induction h with
  | nil => exact List.Sublist.refl _
  | snoc hprior hlast ih =>
    have hmoves := ((run_orderly hprior).step hlast).2
    have hordered := hmoves.ordered ih
    simpa [sent, captured] using hordered

theorem run_latest (h : Run step (opening pieceId server) t σ)
    (hsafe : ∀ x ∈ t, x.event.endangers = false) : σ.latest = (captured t).getLastD server := by
  induction h with
  | nil => rfl
  | @snoc t m e r s' hprior hlast ih =>
    have hmoves := ((run_orderly hprior).step hlast).2
    have hlatest := hmoves.latest (hsafe ⟨m, e, r, s'⟩ (by simp))
    have happend : captured (t ++ [⟨m, e, r, s'⟩]) = captured t ++ r.captured.toList := by
      simp [captured]
    rw [hlatest, ih fun x hx => hsafe x (List.mem_append_left _ hx), happend]
    cases r.captured with
    | none => rw [Option.toList_none, List.append_nil]; rfl
    | some state => rw [Option.toList_some, List.getLastD_concat]; rfl

theorem run_blocked (h : Run step σ t σ') (hblocked : σ.readerStateSaveBlocked = true)
    (hreload : ∀ x ∈ t, x.event ≠ .reload) :
    sent t = [] ∧ σ'.readerStateSaveBlocked = true := by
  induction h with
  | nil => exact ⟨rfl, hblocked⟩
  | @snoc t m e r s' hprior hlast ih =>
    obtain ⟨hnone, hstill⟩ := ih fun x hx => hreload x (List.mem_append_left _ hx)
    obtain ⟨hsent, hafter⟩ := blocked_step hlast hstill (hreload ⟨m, e, r, s'⟩ (by simp))
    refine ⟨?_, hafter⟩
    have happend : sent (t ++ [⟨m, e, r, s'⟩]) = sent t ++ r.sent.toList := by simp [sent]
    rw [happend, hnone, hsent]
    rfl

/-- One save is on its way at a time, saves go out in the order in which the places were
captured, and the server ends with the last place. After the 409 of a state of the
loaded PDF nothing goes out before a reload, and the 409 of another state blocks nothing:
what waits goes out then as after every answer. -/
theorem saveQueue_delivers (h : Run step (opening pieceId server) t σ) :
    σ.requests.length ≤ 1 ∧ (sent t).Sublist (captured t) ∧
      ((∀ x ∈ t, x.event.endangers = false) → σ.requests = [] →
        σ.server = (captured t).getLastD server) ∧
      (∀ u x v state, t = u ++ x :: v → x.event = .conflict state →
        x.before.loadedPDFChecksum = state.pdfChecksumSHA256 →
        (∀ y ∈ v, y.event ≠ .reload) → sent (x :: v) = []) ∧
      ∀ u x v state, t = u ++ x :: v → x.event = .conflict state →
        x.before.loadedPDFChecksum ≠ state.pdfChecksumSHA256 →
        x.response.sent = x.before.pendingReaderState ∧
          x.after.readerStateSaveBlocked = x.before.readerStateSaveBlocked ∧
          x.after.error = x.before.error := by
  have horderly := run_orderly h
  refine ⟨horderly.single, ?_, ?_, ?_, ?_⟩
  · exact (List.sublist_append_left _ _).trans (run_ordered h)
  · intro hsafe hidle
    rw [← run_latest h hsafe, latest, hidle]
    cases hpending : σ.pendingReaderState with
    | none => rfl
    | some state =>
      have hbehind := horderly.behind (by rw [hpending]; simp)
      exact absurd hidle hbehind
  · intro u x v state ht hevent hloaded hreload
    subst ht
    obtain ⟨-, hstep, hrest⟩ := h.at_entry
    rw [hevent] at hstep
    obtain ⟨hnone, hblocked⟩ := conflict_loaded hstep hloaded
    have hv := (run_blocked hrest hblocked hreload).1
    have hcons : sent (x :: v) = x.response.sent.toList ++ sent v := rfl
    rw [hcons, hnone, hv]
    rfl
  · intro u x v state ht hevent hother
    subst ht
    obtain ⟨hprior, hstep, -⟩ := h.at_entry
    rw [hevent] at hstep
    exact (run_orderly hprior).conflict_other hstep hother

theorem saveQueue_delivers_left : ∃ t σ,
    Run step (opening "p".toList ⟨⟨"a".toList, "page".toList, 1, 0, 1, 1, false⟩, "p".toList⟩) t σ ∧
      σ.destroyed = true ∧ σ.requests = [] ∧ (sent t).length = 2 ∧ (captured t).length = 3 ∧
      σ.server.lastPage = 4 := by
  let view (page : Int) : View := ⟨"page".toList, page, 0, 1, 1, false⟩
  let start := opening "p".toList ⟨⟨"a".toList, "page".toList, 1, 0, 1, 1, false⟩, "p".toList⟩
  let saved (page : Int) : ReaderState :=
    ⟨⟨"a".toList, "page".toList, page, 0, 1, 1, false⟩, "p".toList⟩
  obtain ⟨t, σ, hrun, h⟩ : ∃ t σ, Run step start t σ ∧
      (σ.destroyed && σ.requests.isEmpty && (sent t).length == 2 &&
        captured t == [saved 2, saved 3, saved 4] &&
        t.all fun x => !x.event.endangers) = true :=
    exists_run [.loaded "a".toList, .opened, .saveNow (view 2), .saveNow (view 3),
      .destroy (view 4), .complete (saved 2), .complete (saved 4)] (by decide +kernel)
  simp only [Bool.and_eq_true, List.isEmpty_iff, beq_iff_eq, List.all_eq_true,
    Bool.not_eq_true'] at h
  obtain ⟨⟨⟨⟨hdestroyed, hidle⟩, hsent⟩, hcaptured⟩, hsafe⟩ := h
  refine ⟨t, σ, hrun, hdestroyed, hidle, hsent, by rw [hcaptured]; rfl, ?_⟩
  rw [(saveQueue_delivers hrun).2.2.1 hsafe hidle, hcaptured]
  rfl

end Noted.Reader
