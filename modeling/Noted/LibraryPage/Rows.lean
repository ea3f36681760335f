import Noted.Library.Runs
import Noted.Types

/-!
# The favorite and the status of a library row (library.store.ts)

The store's rows, the updates of one piece on their way to the server and back, and
the server's row of it. What runs up to the next `await` is one step, and so is what
an answer sets off: the rest of `saveStatus` and the start of the next save. The
handlers are given any row of the piece, shown now or earlier, and the server carries
out the updates in any order.
-/

namespace Noted.LibraryPage

open Library

inductive RowChange
  | favorite (chosen : Bool)
  | status (chosen : Text)
  deriving DecidableEq

def RowChange.apply (row : PieceSummary) : RowChange → PieceSummary
  | .favorite chosen => { row with favorite := chosen }
  | .status chosen => { row with status := chosen }

/-- An `updatePiece` on its way, with its answer once the server has carried it out. -/
structure RowUpdate where
  change : RowChange
  answer : Option PieceSummary
  deriving DecidableEq

/-- A row's status saves: the latest choice, the last saved row and the choices that
wait behind the save under way. -/
structure StatusSave where
  latest : Text
  saved : PieceSummary
  queue : List Text
  deriving DecidableEq

/-- The store's rows, the status saves and the updates of one piece, and the server's
row of it. -/
structure RowStore where
  allPieces : List PieceSummary
  offered : Option PieceSummary
  statusSaves : Option StatusSave
  updates : List RowUpdate
  server : PieceSummary
  deriving DecidableEq

inductive RowEvent
  | toggleFavorite (piece : PieceSummary)
  | changeStatus (piece : PieceSummary) (status : Text)
  | apply (q : RowUpdate)
  | answer (q : RowUpdate)
  | fail (q : RowUpdate)
  deriving DecidableEq

namespace RowStore

variable (σ : RowStore)

def replaceRow (piece : PieceSummary) : RowStore :=
  { σ with
    allPieces := σ.allPieces.map fun row => if row.id = piece.id then piece else row
    offered := σ.offered.map fun row => if row.id = piece.id then piece else row }

def send (change : RowChange) : RowStore := { σ with updates := ⟨change, none⟩ :: σ.updates }

def toggleFavorite (piece : PieceSummary) : RowStore := σ.send (.favorite !piece.favorite)

def changeStatus (piece : PieceSummary) (status : Text) : RowStore :=
  if status = piece.status then σ
  else
    match σ.statusSaves with
    | none =>
      ({ σ with statusSaves := some ⟨status, piece, []⟩ }.replaceRow
        { piece with status := status }).send (.status status)
    | some pending =>
      { σ with
        statusSaves := some { pending with
          latest := status
          queue := pending.queue ++ [status] } }.replaceRow { piece with status := status }

/-- The saves that wait: each but the latest choice's returns at once, and the entry
goes with the last of them. -/
def nextSave (pending : StatusSave) : RowStore :=
  match pending.queue.dropWhile (· ≠ pending.latest) with
  | [] => { σ with statusSaves := none }
  | status :: queue =>
    { σ with statusSaves := some { pending with queue := queue } }.send (.status status)

def settle (q : RowUpdate) : RowStore := { σ with updates := σ.updates.erase q }

/-- The answer of a status save is shown only while its choice is the latest. -/
def saveStatus (pending : StatusSave) (status : Text) (row : PieceSummary) : RowStore :=
  (if pending.latest = status then σ.replaceRow row else σ).nextSave { pending with saved := row }

/-- A failed save of the latest choice puts back the last saved row. -/
def failStatus (pending : StatusSave) (status : Text) : RowStore :=
  (if pending.latest = status then σ.replaceRow pending.saved else σ).nextSave pending

def answered (q : RowUpdate) (row : PieceSummary) : Option RowStore :=
  match q.change with
  | .favorite _ => some ((σ.settle q).replaceRow row)
  | .status status =>
    σ.statusSaves.map fun pending => (σ.settle q).saveStatus pending status row

def failed (q : RowUpdate) : Option RowStore :=
  match q.change with
  | .favorite _ => some (σ.settle q)
  | .status status => σ.statusSaves.map fun pending => (σ.settle q).failStatus pending status

def applied (q : RowUpdate) : RowStore :=
  { σ with
    server := q.change.apply σ.server
    updates := ⟨q.change, some (q.change.apply σ.server)⟩ :: σ.updates.erase q }

def step (σ : RowStore) (e : RowEvent) : Option (Unit × RowStore) :=
  match e with
  | .toggleFavorite piece =>
    if piece.id = σ.server.id then some ((), σ.toggleFavorite piece) else none
  | .changeStatus piece status =>
    if piece.id = σ.server.id then some ((), σ.changeStatus piece status) else none
  | .apply q =>
    if q ∈ σ.updates ∧ q.answer = none then some ((), σ.applied q) else none
  | .answer q =>
    if q ∈ σ.updates then q.answer.bind fun row => (σ.answered q row).map ((), ·) else none
  | .fail q => if q ∈ σ.updates then (σ.failed q).map ((), ·) else none

end RowStore

def agrees (a b : PieceSummary) : Bool := a.favorite == b.favorite && a.status == b.status

/-- An update whose answer can still be what the server has: it is yet to be carried
out, or was answered with the server's favorite and status. -/
def RowUpdate.current (server : PieceSummary) (q : RowUpdate) : Bool :=
  q.answer.all fun row => agrees row server

def RowChange.status? : RowChange → Option Text
  | .favorite _ => none
  | .status chosen => some chosen

def RowEvent.isFailure : RowEvent → Bool
  | .fail _ => true
  | _ => false

def RowEvent.isAction : RowEvent → Bool
  | .toggleFavorite _ | .changeStatus _ _ => true
  | _ => false

namespace RowStore

variable (σ : RowStore)

def rows : List PieceSummary := σ.allPieces ++ σ.offered.toList

/-- The row shown, in the list and under Continue, has the server's favorite and status. -/
def Converged : Prop := ∀ row ∈ σ.rows, row.id = σ.server.id → agrees row σ.server = true

/-- An answer is still to come that can be what the server has. -/
def awaits : Bool :=
  σ.updates.any (RowUpdate.current σ.server) || σ.statusSaves.any fun p => !p.queue.isEmpty

/-- An answer that is not what the server has does not come as the last that could be:
another update is on its way, or a status waits to be saved, whose answer replaces it. -/
def fresh : RowEvent → Bool
  | .answer q => q.current σ.server || (σ.settle q).awaits
  | _ => true

def saving : List Text := σ.updates.filterMap fun q => q.change.status?

/-- A piece's row is listed, answers are rows of it, and one status save is on its way
exactly while there is an entry, with the latest choice the last of its queue. -/
structure Tracked : Prop where
  listed : ∃ row ∈ σ.rows, row.id = σ.server.id
  answers : ∀ q ∈ σ.updates, ∀ row, q.answer = some row → row.id = σ.server.id
  idle : σ.statusSaves = none → σ.saving = []
  busy : ∀ p, σ.statusSaves = some p →
    ∃ status, σ.saving = [status] ∧ (status :: p.queue).getLast? = some p.latest

/-- The row shown is wrong, and no answer to come can correct it. -/
structure Stuck : Prop where
  wrong : ∃ row ∈ σ.rows, row.id = σ.server.id ∧ agrees row σ.server = false
  nothing : σ.awaits = false

end RowStore

section Rows

variable {σ σ' : RowStore} {e : RowEvent} {r : Unit} {piece row : PieceSummary} {q : RowUpdate}
  {pending : StatusSave} {status : Text}

@[simp] theorem RowStore.rows_replaceRow (σ : RowStore) (piece : PieceSummary) :
    (σ.replaceRow piece).rows = σ.rows.map fun row => if row.id = piece.id then piece else row := by
  cases h : σ.offered with
  | none => simp [rows, replaceRow, h]
  | some row => simp [rows, replaceRow, h]

@[simp] theorem RowStore.replaceRow_updates : (σ.replaceRow piece).updates = σ.updates := rfl

@[simp] theorem RowStore.replaceRow_statusSaves :
    (σ.replaceRow piece).statusSaves = σ.statusSaves := rfl

@[simp] theorem RowStore.replaceRow_server : (σ.replaceRow piece).server = σ.server := rfl

theorem RowStore.saving_replaceRow : (σ.replaceRow piece).saving = σ.saving := rfl

theorem RowStore.saving_send_status : (σ.send (.status status)).saving = status :: σ.saving := rfl

@[simp] theorem RowChange.apply_id (row : PieceSummary) (c : RowChange) : (c.apply row).id = row.id := by
  cases c <;> rfl

theorem RowStore.mem_replaceRow (h : row ∈ (σ.replaceRow piece).rows) (hid : row.id = piece.id) :
    row = piece := by
  rw [rows_replaceRow] at h
  obtain ⟨old, hold, rfl⟩ := List.mem_map.mp h
  split_ifs at hid ⊢ with hsame
  · rfl
  · exact absurd hid hsame

theorem RowStore.piece_mem_replaceRow (h : ∃ row ∈ σ.rows, row.id = piece.id) :
    piece ∈ (σ.replaceRow piece).rows := by
  obtain ⟨old, hold, hid⟩ := h
  rw [rows_replaceRow]
  exact List.mem_map.mpr ⟨old, hold, by simp [hid]⟩

theorem RowStore.converged_replaceRow (hid : piece.id = σ.server.id)
    (h : agrees piece σ.server = true) : (σ.replaceRow piece).Converged := by
  intro row hrow hrowid
  rw [replaceRow_server] at hrowid ⊢
  rw [mem_replaceRow hrow (hrowid.trans hid.symm)]
  exact h

theorem getLast?_dropWhile {latest : Text} {queue : List Text}
    (h : queue.getLast? = some latest) :
    ∃ rest, queue.dropWhile (· ≠ latest) = latest :: rest ∧
      (latest :: rest).getLast? = some latest := by
  induction queue with
  | nil => cases h
  | cons status queue ih =>
    by_cases heq : status = latest
    · subst heq
      exact ⟨queue, by simp, h⟩
    · cases queue with
      | nil => exact absurd (by simpa using h) heq
      | cons next queue =>
        rw [List.getLast?_cons_cons] at h
        obtain ⟨rest, hrest, hlast⟩ := ih h
        refine ⟨rest, ?_, hlast⟩
        rw [List.dropWhile_cons_of_pos (by simpa using heq)]
        exact hrest

theorem RowStore.nextSave_cases (σ : RowStore)
    (hlast : (status :: pending.queue).getLast? = some pending.latest) :
    (pending.queue = [] ∧ pending.latest = status ∧
      σ.nextSave pending = { σ with statusSaves := none }) ∨
    (∃ skipped queue, pending.queue = skipped ++ pending.latest :: queue ∧
      (pending.latest :: queue).getLast? = some pending.latest ∧
      σ.nextSave pending = { σ with statusSaves := some { pending with queue := queue } }.send
        (.status pending.latest)) := by
  cases hqueue : pending.queue with
  | nil =>
    left
    rw [hqueue] at hlast
    exact ⟨rfl, by simpa using hlast.symm, by simp [nextSave, hqueue]⟩
  | cons next queue =>
    right
    rw [hqueue, List.getLast?_cons_cons] at hlast
    obtain ⟨rest, hrest, hlatest⟩ := getLast?_dropWhile hlast
    have hsplit := List.takeWhile_append_dropWhile (p := (· ≠ pending.latest)) (l := next :: queue)
    rw [hrest] at hsplit
    refine ⟨_, rest, hsplit.symm, hlatest, ?_⟩
    rw [nextSave, hqueue, hrest]

theorem RowStore.saving_settle (hq : q ∈ σ.updates) :
    σ.saving.Perm (q.change.status?.toList ++ (σ.settle q).saving) := by
  have h := (List.perm_cons_erase hq).filterMap fun q : RowUpdate => q.change.status?
  rw [List.filterMap_cons] at h
  unfold saving
  cases hstatus : q.change.status? with
  | none =>
    rw [hstatus] at h
    exact h
  | some status =>
    rw [hstatus] at h
    exact h

theorem RowStore.saving_settle_favorite {b : Bool} (hq : q ∈ σ.updates)
    (hchange : q.change = .favorite b) : σ.saving.Perm (σ.settle q).saving := by
  have h := saving_settle hq
  rw [hchange] at h
  exact h

namespace RowStore.Tracked

theorem of_saving (h : σ.Tracked) (hrows : ∃ row ∈ σ'.rows, row.id = σ'.server.id)
    (hanswers : ∀ q ∈ σ'.updates, ∀ row, q.answer = some row → row.id = σ'.server.id)
    (hsaves : σ'.statusSaves = σ.statusSaves) (hsaving : σ.saving.Perm σ'.saving) :
    σ'.Tracked := by
  refine ⟨hrows, hanswers, ?_, ?_⟩
  · intro hnone
    rw [h.idle (hsaves ▸ hnone)] at hsaving
    exact List.nil_perm.mp hsaving
  · intro p hp
    obtain ⟨status, hone, hlast⟩ := h.busy p (hsaves ▸ hp)
    rw [hone] at hsaving
    exact ⟨status, List.perm_singleton.mp hsaving.symm, hlast⟩

theorem listed_replaceRow (h : σ.Tracked) (hid : piece.id = σ.server.id) :
    ∃ row ∈ (σ.replaceRow piece).rows, row.id = σ.server.id := by
  refine ⟨piece, piece_mem_replaceRow ?_, hid⟩
  rw [hid]
  exact h.listed

theorem toggleFavorite (h : σ.Tracked) (piece : PieceSummary) :
    (σ.toggleFavorite piece).Tracked := by
  refine h.of_saving h.listed ?_ rfl (List.Perm.refl _)
  intro q hq row hrow
  obtain rfl | hq := List.mem_cons.mp hq
  · cases hrow
  · exact h.answers q hq row hrow

theorem changeStatus (h : σ.Tracked) (hid : piece.id = σ.server.id) (status : Text) :
    (σ.changeStatus piece status).Tracked := by
  unfold RowStore.changeStatus
  split_ifs
  · exact h
  have hid' : PieceSummary.id { piece with status := status } = σ.server.id := hid
  have hlisted := h.listed_replaceRow hid'
  cases hsaves : σ.statusSaves with
  | none =>
    refine ⟨hlisted, ?_, ?_, ?_⟩
    · intro q hq row hrow
      obtain rfl | hq := List.mem_cons.mp hq
      · cases hrow
      · exact h.answers q hq row hrow
    · intro hnone
      cases hnone
    · intro p hp
      obtain rfl := Option.some.inj hp
      refine ⟨status, ?_, rfl⟩
      rw [saving_send_status, saving_replaceRow]
      exact congrArg _ (h.idle hsaves)
  | some pending =>
    obtain ⟨running, hone, hlast⟩ := h.busy pending hsaves
    refine ⟨hlisted, h.answers, ?_, ?_⟩
    · intro hnone
      cases hnone
    · intro p hp
      obtain rfl := Option.some.inj hp
      refine ⟨running, hone, ?_⟩
      rw [← List.cons_append]
      exact List.getLast?_concat

theorem applied (h : σ.Tracked) (hq : q ∈ σ.updates) : (σ.applied q).Tracked := by
  refine h.of_saving ?_ ?_ rfl ?_
  · obtain ⟨row, hrow, hid⟩ := h.listed
    exact ⟨row, hrow, by simp [RowStore.applied, hid]⟩
  · intro q' hq' row hrow
    have hid : (σ.applied q).server.id = σ.server.id := RowChange.apply_id _ _
    rw [hid]
    obtain rfl | hq' := List.mem_cons.mp hq'
    · obtain rfl := Option.some.inj hrow
      exact RowChange.apply_id _ _
    · exact h.answers q' (List.mem_of_mem_erase hq') row hrow
  · refine (saving_settle hq).trans ?_
    simp only [saving, RowStore.applied, List.filterMap_cons]
    cases q.change <;> exact List.Perm.refl _

theorem favorite {b : Bool} (h : σ.Tracked) (hq : q ∈ σ.updates) (hchange : q.change = .favorite b)
    (hid : row.id = σ.server.id) : ((σ.settle q).replaceRow row).Tracked := by
  refine h.of_saving ?_ ?_ rfl (saving_settle_favorite hq hchange)
  · exact h.listed_replaceRow hid
  · intro q' hq' row' hrow'
    exact h.answers q' (List.mem_of_mem_erase hq') row' hrow'

theorem running (h : σ.Tracked) (hq : q ∈ σ.updates) (hchange : q.change = .status status)
    (hsaves : σ.statusSaves = some pending) :
    (σ.settle q).saving = [] ∧ (status :: pending.queue).getLast? = some pending.latest := by
  obtain ⟨status', hone, hlast⟩ := h.busy pending hsaves
  have hperm := saving_settle hq
  rw [hone, hchange] at hperm
  have heq := List.singleton_perm.mp hperm
  simp only [RowChange.status?, Option.toList_some, List.singleton_append, List.cons.injEq] at heq
  obtain ⟨rfl, hnil⟩ := heq
  exact ⟨hnil.symm, hlast⟩

theorem nextSave (hlisted : ∃ row ∈ σ.rows, row.id = σ.server.id)
    (hanswers : ∀ q ∈ σ.updates, ∀ row, q.answer = some row → row.id = σ.server.id)
    (hsaving : σ.saving = []) (hlast : (status :: pending.queue).getLast? = some pending.latest) :
    (σ.nextSave pending).Tracked := by
  obtain ⟨-, -, heq⟩ | ⟨skipped, queue, -, hqueue, heq⟩ := nextSave_cases σ hlast
  · rw [heq]
    refine ⟨hlisted, hanswers, fun _ => hsaving, ?_⟩
    intro p hp
    cases hp
  · rw [heq]
    refine ⟨hlisted, ?_, ?_, ?_⟩
    · intro q hq row hrow
      obtain rfl | hq := List.mem_cons.mp hq
      · cases hrow
      · exact hanswers q hq row hrow
    · intro hnone
      cases hnone
    · intro p hp
      obtain rfl := Option.some.inj hp
      refine ⟨pending.latest, ?_, hqueue⟩
      rw [saving_send_status]
      exact congrArg _ hsaving

theorem saveStatus (h : σ.Tracked) (hq : q ∈ σ.updates) (hchange : q.change = .status status)
    (hsaves : σ.statusSaves = some pending) (hid : row.id = σ.server.id) :
    ((σ.settle q).saveStatus pending status row).Tracked := by
  obtain ⟨hsaving, hlast⟩ := h.running hq hchange hsaves
  have hanswers : ∀ q' ∈ (σ.settle q).updates, ∀ row, q'.answer = some row →
      row.id = σ.server.id := by
    intro q' hq' row' hrow'
    exact h.answers q' (List.mem_of_mem_erase hq') row' hrow'
  unfold RowStore.saveStatus
  split_ifs with hlatest
  · exact nextSave (h.listed_replaceRow hid) hanswers hsaving hlast
  · exact nextSave h.listed hanswers hsaving hlast

theorem answered (h : σ.Tracked) (hq : q ∈ σ.updates) (hrow : q.answer = some row)
    (hstep : σ.answered q row = some σ') : σ'.Tracked := by
  have hid := h.answers q hq row hrow
  unfold RowStore.answered at hstep
  cases hchange : q.change with
  | favorite b =>
    rw [hchange] at hstep
    obtain rfl := Option.some.inj hstep
    exact h.favorite hq hchange hid
  | status status =>
    rw [hchange] at hstep
    obtain ⟨pending, hsaves, rfl⟩ := Option.map_eq_some_iff.mp hstep
    exact h.saveStatus hq hchange hsaves hid

end RowStore.Tracked

theorem RowStore.step_cases (hstep : σ.step e = some (r, σ')) (hfail : e.isFailure = false) :
    (∃ piece, e = .toggleFavorite piece ∧ piece.id = σ.server.id ∧ σ' = σ.toggleFavorite piece) ∨
    (∃ piece status, e = .changeStatus piece status ∧ piece.id = σ.server.id ∧
      σ' = σ.changeStatus piece status) ∨
    (∃ q, e = .apply q ∧ q ∈ σ.updates ∧ q.answer = none ∧ σ' = σ.applied q) ∨
    (∃ q row, e = .answer q ∧ q ∈ σ.updates ∧ q.answer = some row ∧
      σ.answered q row = some σ') := by
  cases e with
  | toggleFavorite piece =>
    obtain ⟨hid, heq⟩ := Option.ite_none_right_eq_some.mp hstep
    exact Or.inl ⟨piece, rfl, hid, (Prod.mk.inj (Option.some.inj heq)).2.symm⟩
  | changeStatus piece status =>
    obtain ⟨hid, heq⟩ := Option.ite_none_right_eq_some.mp hstep
    exact Or.inr (Or.inl ⟨piece, status, rfl, hid, (Prod.mk.inj (Option.some.inj heq)).2.symm⟩)
  | apply q =>
    obtain ⟨⟨hq, hnone⟩, heq⟩ := Option.ite_none_right_eq_some.mp hstep
    refine Or.inr (Or.inr (Or.inl ⟨q, rfl, hq, hnone, ?_⟩))
    exact (Prod.mk.inj (Option.some.inj heq)).2.symm
  | answer q =>
    obtain ⟨hq, heq⟩ := Option.ite_none_right_eq_some.mp hstep
    obtain ⟨row, hrow, heq⟩ := Option.bind_eq_some_iff.mp heq
    obtain ⟨τ, hτ, heq⟩ := Option.map_eq_some_iff.mp heq
    refine Or.inr (Or.inr (Or.inr ⟨q, row, rfl, hq, hrow, ?_⟩))
    rw [hτ, (Prod.mk.inj heq).2]
  | fail q => cases hfail

theorem RowStore.Tracked.step (h : σ.Tracked) (hfail : e.isFailure = false)
    (hstep : σ.step e = some (r, σ')) : σ'.Tracked := by
  obtain ⟨piece, rfl, hid, rfl⟩ | ⟨piece, status, rfl, hid, rfl⟩ | ⟨q, rfl, hq, hnone, rfl⟩ |
    ⟨q, row, rfl, hq, hrow, hanswered⟩ := step_cases hstep hfail
  · exact h.toggleFavorite piece
  · exact h.changeStatus hid status
  · exact h.applied hq
  · exact h.answered hq hrow hanswered

theorem agrees_self (row : PieceSummary) : agrees row row = true := by
  simp [agrees]

@[simp] theorem RowStore.awaits_send (c : RowChange) : (σ.send c).awaits = true := by
  simp [awaits, send, RowUpdate.current]

theorem RowStore.awaits_applied (σ : RowStore) (q : RowUpdate) : (σ.applied q).awaits = true := by
  simp [awaits, applied, RowUpdate.current, agrees_self]

theorem RowStore.awaits_queued (hsaves : σ.statusSaves = some pending) (hne : pending.queue ≠ []) :
    σ.awaits = true := by
  simp [awaits, hsaves, hne]

theorem RowStore.awaits_changeStatus (hne : status ≠ piece.status) :
    (σ.changeStatus piece status).awaits = true := by
  rw [changeStatus, if_neg hne]
  cases hsaves : σ.statusSaves with
  | none => exact awaits_send _
  | some pending => exact awaits_queued rfl (by simp)

theorem RowStore.awaits_updates (hsaves : σ.statusSaves = some pending) (hnil : pending.queue = []) :
    σ.awaits = σ.updates.any (RowUpdate.current σ.server) := by
  simp [awaits, hsaves, hnil]

theorem RowStore.settled_answered (h : σ.Tracked) (hq : q ∈ σ.updates) (hrow : q.answer = some row)
    (hanswered : σ.answered q row = some σ')
    (hfresh : q.current σ.server = true ∨ (σ.settle q).awaits = true) :
    σ'.Converged ∨ σ'.awaits = true := by
  have hid := h.answers q hq row hrow
  have hcurrent : q.current σ.server = agrees row σ.server := by
    rw [RowUpdate.current, hrow, Option.all_some]
  rw [hcurrent] at hfresh
  unfold answered at hanswered
  cases hchange : q.change with
  | favorite b =>
    rw [hchange] at hanswered
    obtain rfl := Option.some.inj hanswered
    exact hfresh.imp (converged_replaceRow hid) id
  | status status =>
    rw [hchange] at hanswered
    obtain ⟨pending, hsaves, rfl⟩ := Option.map_eq_some_iff.mp hanswered
    obtain ⟨-, hlast⟩ := h.running hq hchange hsaves
    have hlast' : (status :: StatusSave.queue { pending with saved := row }).getLast? =
        some (StatusSave.latest { pending with saved := row }) := hlast
    obtain ⟨hnil, hlatest, heq⟩ | ⟨skipped, queue, -, -, heq⟩ :=
      nextSave_cases (if pending.latest = status then (σ.settle q).replaceRow row else σ.settle q) hlast'
    · rw [saveStatus, heq, if_pos hlatest]
      refine hfresh.imp (converged_replaceRow (σ := σ.settle q) hid) ?_
      intro hawaits
      rw [awaits_updates (σ := σ.settle q) hsaves hnil] at hawaits
      exact Bool.or_eq_true_iff.mpr (Or.inl hawaits)
    · rw [saveStatus, heq]
      exact Or.inr (awaits_send _)

theorem RowStore.settled_step (h : σ.Tracked) (hfail : e.isFailure = false)
    (hfresh : σ.fresh e = true) (hσ : σ.Converged ∨ σ.awaits = true)
    (hstep : σ.step e = some (r, σ')) : σ'.Converged ∨ σ'.awaits = true := by
  obtain ⟨piece, rfl, hid, rfl⟩ | ⟨piece, status, rfl, hid, rfl⟩ | ⟨q, rfl, hq, hnone, rfl⟩ |
    ⟨q, row, rfl, hq, hrow, hanswered⟩ := step_cases hstep hfail
  · exact Or.inr (awaits_send _)
  · by_cases heq : status = piece.status
    · rw [changeStatus, if_pos heq]
      exact hσ
    · exact Or.inr (awaits_changeStatus heq)
  · exact Or.inr (awaits_applied σ q)
  · exact settled_answered h hq hrow hanswered ((Bool.or_eq_true _ _).mp hfresh)

theorem RowStore.stuck_answered (h : σ.Tracked) (hq : q ∈ σ.updates) (hrow : q.answer = some row)
    (hanswered : σ.answered q row = some σ') (hstale : q.current σ.server = false)
    (hnothing : (σ.settle q).awaits = false) : σ'.Stuck := by
  have hid := h.answers q hq row hrow
  have hwrong : agrees row σ.server = false := by
    simpa only [RowUpdate.current, hrow, Option.all_some] using hstale
  have hmem : row ∈ ((σ.settle q).replaceRow row).rows := by
    refine piece_mem_replaceRow ?_
    rw [hid]
    exact h.listed
  unfold answered at hanswered
  cases hchange : q.change with
  | favorite b =>
    rw [hchange] at hanswered
    obtain rfl := Option.some.inj hanswered
    exact ⟨⟨row, hmem, hid, hwrong⟩, hnothing⟩
  | status status =>
    rw [hchange] at hanswered
    obtain ⟨pending, hsaves, rfl⟩ := Option.map_eq_some_iff.mp hanswered
    obtain ⟨-, hlast⟩ := h.running hq hchange hsaves
    have hlast' : (status :: StatusSave.queue { pending with saved := row }).getLast? =
        some (StatusSave.latest { pending with saved := row }) := hlast
    obtain ⟨hnil, hlatest, heq⟩ | ⟨skipped, queue, hsplit, -, -⟩ :=
      nextSave_cases (if pending.latest = status then (σ.settle q).replaceRow row else σ.settle q) hlast'
    · rw [saveStatus, heq, if_pos hlatest]
      refine ⟨⟨row, hmem, hid, hwrong⟩, ?_⟩
      rw [awaits_updates (σ := σ.settle q) hsaves hnil] at hnothing
      exact Bool.or_eq_false_iff.mpr ⟨hnothing, rfl⟩
    · have hne : pending.queue ≠ [] := by
        intro hnil
        exact List.append_ne_nil_of_right_ne_nil skipped (List.cons_ne_nil _ _)
          (hsplit.symm.trans hnil)
      rw [awaits_queued (σ := σ.settle q) hsaves hne] at hnothing
      cases hnothing

theorem RowStore.stuck_of_not_fresh (h : σ.Tracked) (hfail : e.isFailure = false)
    (hfresh : σ.fresh e = false) (hstep : σ.step e = some (r, σ')) : σ'.Stuck := by
  obtain ⟨piece, rfl, hid, rfl⟩ | ⟨piece, status, rfl, hid, rfl⟩ | ⟨q, rfl, hq, hnone, rfl⟩ |
    ⟨q, row, rfl, hq, hrow, hanswered⟩ := step_cases hstep hfail
  · cases hfresh
  · cases hfresh
  · cases hfresh
  · obtain ⟨hstale, hnothing⟩ := Bool.or_eq_false_iff.mp hfresh
    exact stuck_answered h hq hrow hanswered hstale hnothing

theorem RowStore.Stuck.not_current (hσ : σ.Stuck) (hq : q ∈ σ.updates) :
    q.current σ.server = false := by
  have hnone := (Bool.or_eq_false_iff.mp hσ.nothing).1
  exact Bool.eq_false_iff.mpr (List.any_eq_false.mp hnone q hq)

theorem RowStore.Stuck.settle (hσ : σ.Stuck) (q : RowUpdate) : (σ.settle q).awaits = false := by
  obtain ⟨hupdates, hqueue⟩ := Bool.or_eq_false_iff.mp hσ.nothing
  refine Bool.or_eq_false_iff.mpr ⟨?_, hqueue⟩
  rw [List.any_eq_false] at hupdates ⊢
  intro q' hq'
  exact hupdates q' (List.mem_of_mem_erase hq')

theorem RowStore.Stuck.step (h : σ.Tracked) (hfail : e.isFailure = false)
    (haction : e.isAction = false) (hσ : σ.Stuck) (hstep : σ.step e = some (r, σ')) : σ'.Stuck := by
  obtain ⟨piece, rfl, hid, rfl⟩ | ⟨piece, status, rfl, hid, rfl⟩ | ⟨q, rfl, hq, hnone, rfl⟩ |
    ⟨q, row, rfl, hq, hrow, hanswered⟩ := step_cases hstep hfail
  · cases haction
  · cases haction
  · have hcurrent := hσ.not_current hq
    rw [RowUpdate.current, hnone] at hcurrent
    cases hcurrent
  · exact stuck_answered h hq hrow hanswered (hσ.not_current hq) (hσ.settle q)

theorem RowStore.Tracked.not_awaits (h : σ.Tracked) (hdone : σ.updates = []) :
    σ.awaits = false := by
  cases hsaves : σ.statusSaves with
  | none => simp [awaits, hdone, hsaves]
  | some pending =>
    obtain ⟨status, hone, -⟩ := h.busy pending hsaves
    simp [saving, hdone] at hone

end Rows

def opened (allPieces : List PieceSummary) (offered : Option PieceSummary)
    (server : PieceSummary) : RowStore where
  allPieces := allPieces
  offered := offered
  statusSaves := none
  updates := []
  server := server

section Runs

variable {allPieces : List PieceSummary} {offered : Option PieceSummary} {server : PieceSummary}
  {t u : List (Entry RowStore RowEvent Unit)} {x : Entry RowStore RowEvent Unit} {σ : RowStore}

theorem opened_tracked (hlisted : server ∈ allPieces) :
    (opened allPieces offered server).Tracked := by
  refine ⟨⟨server, List.mem_append_left _ hlisted, rfl⟩, ?_, fun _ => rfl, ?_⟩
  · intro q hq
    cases hq
  · intro p hp
    cases hp

theorem opened_converged
    (hrows : ∀ row ∈ allPieces ++ offered.toList, row.id = server.id → row = server) :
    (opened allPieces offered server).Converged := by
  intro row hrow hid
  rw [hrows row hrow hid]
  exact agrees_self server

theorem run_settled (hlisted : server ∈ allPieces)
    (hrows : ∀ row ∈ allPieces ++ offered.toList, row.id = server.id → row = server)
    (h : Run RowStore.step (opened allPieces offered server) t σ)
    (hfail : ∀ x ∈ t, x.event.isFailure = false) (hfresh : ∀ x ∈ t, x.before.fresh x.event = true) :
    σ.Tracked ∧ (σ.Converged ∨ σ.awaits = true) := by
  refine h.invariant_of (P := fun s => s.Tracked ∧ (s.Converged ∨ s.awaits = true))
    (C := fun s (e : RowEvent) => e.isFailure = false ∧ s.fresh e = true) ?_
    ⟨opened_tracked hlisted, Or.inl (opened_converged hrows)⟩ ?_
  · intro s e r s' hs hC hstep
    exact ⟨hs.1.step hC.1 hstep, RowStore.settled_step hs.1 hC.1 hC.2 hs.2 hstep⟩
  · intro x hx
    exact ⟨hfail x hx, hfresh x hx⟩

theorem run_tracked (hlisted : server ∈ allPieces)
    (h : Run RowStore.step (opened allPieces offered server) t σ)
    (hfail : ∀ x ∈ t, x.event.isFailure = false) : σ.Tracked := by
  refine h.invariant_of (P := RowStore.Tracked) (C := fun _ e => e.isFailure = false) ?_
    (opened_tracked hlisted) hfail
  intro s e r s' hs hC hstep
  exact hs.step hC hstep

theorem run_stuck (hx : x.before.Tracked) (hstep : x.before.step x.event = some (x.response, x.after))
    (hxfail : x.event.isFailure = false) (hxfresh : x.before.fresh x.event = false)
    (h : Run RowStore.step x.after u σ) (hfail : ∀ y ∈ u, y.event.isFailure = false)
    (haction : ∀ y ∈ u, y.event.isAction = false) : σ.Stuck := by
  have hafter : x.after.Tracked ∧ x.after.Stuck :=
    ⟨hx.step hxfail hstep, RowStore.stuck_of_not_fresh hx hxfail hxfresh hstep⟩
  have hrun : σ.Tracked ∧ σ.Stuck := by
    refine h.invariant_of (P := fun s => s.Tracked ∧ s.Stuck)
      (C := fun _ (e : RowEvent) => e.isFailure = false ∧ e.isAction = false) ?_ hafter ?_
    · intro s e r s' hs hC hnext
      exact ⟨hs.1.step hC.1 hnext, hs.2.step hs.1 hC.1 hC.2 hnext⟩
    · intro y hy
      exact ⟨hfail y hy, haction y hy⟩
  exact hrun.2

end Runs

/-- The row shown ends as the server's when every answer is fresh, and an answer that is
not leaves it wrong until the user's next choice. -/
theorem rows_converge {allPieces : List PieceSummary} {offered : Option PieceSummary}
    {server : PieceSummary} (hlisted : server ∈ allPieces)
    (hrows : ∀ row ∈ allPieces ++ offered.toList, row.id = server.id → row = server)
    {t : List (Entry RowStore RowEvent Unit)} {σ : RowStore}
    (h : Run RowStore.step (opened allPieces offered server) t σ)
    (hfail : ∀ x ∈ t, x.event.isFailure = false) (hdone : σ.updates = []) :
    ((∀ x ∈ t, x.before.fresh x.event = true) → σ.Converged) ∧
      ∀ v x u, t = v ++ x :: u → x.before.fresh x.event = false →
        (∀ y ∈ u, y.event.isAction = false) → ¬σ.Converged := by
  refine ⟨?_, ?_⟩
  · intro hfresh
    obtain ⟨htracked, hconverged | hawaits⟩ := run_settled hlisted hrows h hfail hfresh
    · exact hconverged
    · rw [htracked.not_awaits hdone] at hawaits
      cases hawaits
  · rintro v x u rfl hfresh haction hconverged
    obtain ⟨hprior, hstep, hrest⟩ := h.at_entry
    have htracked := run_tracked hlisted hprior fun y hy => hfail y (List.mem_append_left _ hy)
    have hstuck := run_stuck htracked hstep (hfail x (by simp)) hfresh hrest
      (fun y hy => hfail y (by simp [hy])) haction
    obtain ⟨row, hrow, hid, hwrong⟩ := hstuck.wrong
    rw [hconverged row hrow hid] at hwrong
    cases hwrong

section Crossing

def nocturne : PieceSummary where
  id := 1
  title := "Nocturne".toList
  composer := []
  aliases := []
  favorite := false
  status := "learning".toList
  listeningURL := []
  pdfPages := none
  lastPlayedAt := none
  createdAt := 0
  searchText := "nocturne".toList

def chosenFavorite : RowUpdate := ⟨.favorite true, none⟩

def chosenStatus : RowUpdate := ⟨.status "playing".toList, none⟩

def chosenBoth : List RowEvent :=
  [.toggleFavorite nocturne, .changeStatus nocturne "playing".toList, .apply chosenFavorite,
    .apply chosenStatus]

def answeredFavorite : RowUpdate :=
  ⟨.favorite true, some { nocturne with favorite := true }⟩

def answeredStatus : RowUpdate :=
  ⟨.status "playing".toList,
    some { nocturne with favorite := true, status := "playing".toList }⟩

theorem rows_converge_in_order : ∃ t σ, Run RowStore.step (opened [nocturne] none nocturne) t σ ∧
    σ.server.status = "playing".toList ∧ σ.Converged := by
  obtain ⟨t, σ, hrun, h⟩ : ∃ t σ, Run RowStore.step (opened [nocturne] none nocturne) t σ ∧
      (t.all (fun x => !x.event.isFailure) && t.all (fun x => x.before.fresh x.event) &&
        σ.updates == [] && σ.server.status == "playing".toList) = true :=
    exists_run (chosenBoth ++ [.answer answeredFavorite, .answer answeredStatus])
      (by decide +kernel)
  simp only [Bool.and_eq_true, List.all_eq_true, Bool.not_eq_true', beq_iff_eq] at h
  obtain ⟨⟨⟨hfail, hfresh⟩, hdone⟩, hstatus⟩ := h
  have hconverge := rows_converge (List.mem_singleton_self nocturne)
    (fun row hrow _ => by simpa using hrow) hrun hfail hdone
  exact ⟨t, σ, hrun, hstatus, hconverge.1 hfresh⟩

/-- The favorite's answer comes last, and shows the status it was before. -/
theorem not_rows_converge : ∃ t σ, Run RowStore.step (opened [nocturne] none nocturne) t σ ∧
    (∀ x ∈ t, x.event.isFailure = false) ∧ σ.updates = [] ∧ ¬σ.Converged := by
  obtain ⟨t, σ, hrun, h⟩ : ∃ t σ, Run RowStore.step (opened [nocturne] none nocturne) t σ ∧
      (t.all (fun x => !x.event.isFailure) && σ.updates == [] &&
        σ.rows.any fun row => row.id == σ.server.id && !agrees row σ.server) = true :=
    exists_run (chosenBoth ++ [.answer answeredStatus, .answer answeredFavorite])
      (by decide +kernel)
  simp only [Bool.and_eq_true, List.all_eq_true, List.any_eq_true, Bool.not_eq_true',
    beq_iff_eq] at h
  obtain ⟨⟨hfail, hdone⟩, row, hrow, hid, hwrong⟩ := h
  refine ⟨t, σ, hrun, hfail, hdone, ?_⟩
  intro hconverged
  rw [hconverged row hrow hid] at hwrong
  cases hwrong

end Crossing

end Noted.LibraryPage
