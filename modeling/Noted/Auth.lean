import Noted.Library.Pending
import Noted.Library.Runs
import Noted.Unicode

/-!
# Users and their Google identities (internal/auth/service.go)

The transactions of `AuthenticateGoogle` and `EnsureDevelopmentUser` over the users
table. A statement sees the committed rows. It writes a row that its transaction
commits later, and waits for a row that another transaction has written and not
committed, when both are one row or meet in a unique index.
-/

namespace Noted.Auth

open Library

structure GoogleIdentity where
  subject : Text
  email : Text
  displayName : Text
  avatarURL : Text
  verified : Bool
  deriving DecidableEq

inductive AuthProvider
  | development
  | google
  deriving DecidableEq

structure UserRow where
  id : Text
  email : Text
  displayName : Text
  avatarURL : Option Text
  authProvider : AuthProvider
  authSubject : Option Text
  deriving DecidableEq

structure User where
  id : Text
  email : Text
  displayName : Text
  avatarURL : Text
  deriving DecidableEq

def UserRow.user (r : UserRow) : User := ⟨r.id, r.email, r.displayName, r.avatarURL.getD []⟩

/-- Two rows have one key of a unique index: `email`, or `auth_provider` and
`auth_subject` where the subject is not null. -/
def UserRow.meets (r s : UserRow) : Bool :=
  r.email == s.email ||
    (r.authProvider == s.authProvider && r.authSubject.isSome && r.authSubject == s.authSubject)

def UserRow.boundTo (subject : Text) (r : UserRow) : Bool :=
  r.authProvider == .google && r.authSubject == some subject

abbrev Users := Table UserRow.id

structure Service where
  tables : UnicodeTables
  allowedEmails : List Text
  /-- PostgreSQL's `lower`, in the collation of the database. -/
  lower : Text → Text

namespace Service

variable (s : Service)

def normalizeEmail (value : Text) : Text := (trimSpace value).map s.tables.lower

def allowed (email : Text) : Bool := (s.allowedEmails.map s.normalizeEmail).contains email

def btrim (value : Text) : Text := trimBy (· == ' ') value

/-- The CHECK constraints of the table. -/
def admits (r : UserRow) : Bool :=
  r.email == s.lower (btrim r.email) && 1 ≤ (btrim r.displayName).length &&
    (btrim r.displayName).length ≤ 300

def googleRow (identity : GoogleIdentity) (id : Text) : UserRow :=
  let email := s.normalizeEmail identity.email
  let displayName := trimSpace identity.displayName
  let avatarURL := trimSpace identity.avatarURL
  { id := id
    email := email
    displayName := if displayName = [] then email else displayName
    avatarURL := if avatarURL = [] then none else some avatarURL
    authProvider := .google
    authSubject := some identity.subject }

def developmentRow (email id : Text) : UserRow :=
  { id := id
    email := s.normalizeEmail email
    displayName := "Local learner".toList
    avatarURL := none
    authProvider := .development
    authSubject := none }

end Service

inductive Request
  | google (identity : GoogleIdentity)
  | development (email : Text)
  deriving DecidableEq

inductive Phase
  | begun
  /-- The UPDATE of AuthenticateGoogle found no row. -/
  | missed
  /-- A row is written and not committed. -/
  | written (row : UserRow)
  | done
  deriving DecidableEq

structure Call where
  request : Request
  phase : Phase
  deriving DecidableEq

structure State where
  users : Users
  calls : List Call

inductive Event
  | start (request : Request)
  /-- The next statement of a call; `newID` is its `uuid.NewString()`. -/
  | statement (call : Nat) (newID : Text)
  /-- The commit of a call, which may lose its answer. -/
  | commit (call : Nat) (answered : Bool)
  /-- A lost connection, a cancelled context or a deadlock. -/
  | abort (call : Nat)
  deriving DecidableEq

inductive Failure
  | emailNotAllowed
  | identityConflict
  | other
  deriving DecidableEq

inductive Answer
  | pending
  | user (u : User)
  | failed (e : Failure)
  deriving DecidableEq

inductive Effect
  | waits
  | noRow
  | writes (row : UserRow)
  /-- 23505, a unique index. -/
  | violates
  /-- 23514, a CHECK constraint. -/
  | refused

namespace State

def written (σ : State) (call : Nat) : Option UserRow :=
  match σ.calls[call]? with
  | some ⟨_, .written row⟩ => some row
  | _ => none

/-- Another call has written such a row, or replaced such a row. -/
def locked (σ : State) (call : Nat) (p : UserRow → Bool) : Bool :=
  (List.range σ.calls.length).any fun n =>
    n != call && (σ.written n).any fun w => p w || σ.users.rows.any fun r => r.id == w.id && p r

def store (σ : State) (call : Nat) (fresh : Bool) (row : UserRow) : Effect :=
  if σ.locked call fun r => r.id == row.id || r.meets row then .waits
  else if σ.users.rows.any fun r => if r.id = row.id then fresh else r.meets row then .violates
  else .writes row

/-- `UPDATE users … WHERE auth_provider='google' AND auth_subject=$4` -/
def update (s : Service) (σ : State) (call : Nat) (identity : GoogleIdentity) : Effect :=
  match σ.users.find? (UserRow.boundTo identity.subject) with
  | none => .noRow
  | some r =>
    let row := s.googleRow identity r.id
    let row :=
      { r with
        email := row.email
        displayName := row.displayName
        avatarURL := row.avatarURL }
    if s.admits row then σ.store call false row else .refused

/-- `INSERT INTO users … ON CONFLICT(email) DO UPDATE`, with the row that the update
makes of the one in its way, if it applies to it. -/
def insert (s : Service) (σ : State) (call : Nat) (row : UserRow)
    (onConflict : UserRow → Option UserRow) : Effect :=
  if !s.admits row then .refused
  else if σ.locked call fun r => r.email == row.email then .waits
  else
    match σ.users.rows.find? fun r => r.email == row.email with
    | none => σ.store call true row
    | some r =>
      match onConflict r with
      | none => .noRow
      | some row => σ.store call false row

def takeOver (excluded r : UserRow) : Option UserRow :=
  if r.authProvider = .development ∨
      (r.authProvider = .google ∧
        (r.authSubject = none ∨ r.authSubject = excluded.authSubject)) then
    some
      { r with
        displayName := excluded.displayName
        avatarURL := excluded.avatarURL
        authProvider := .google
        authSubject := excluded.authSubject }
  else none

def set (σ : State) (call : Nat) (request : Request) (phase : Phase) : State :=
  { σ with calls := σ.calls.set call ⟨request, phase⟩ }

def follow (σ : State) (call : Nat) (request : Request) (noRow : Phase × Answer)
    (conflict : Failure) : Effect → Option (Answer × State)
  | .waits => none
  | .noRow => some (noRow.2, σ.set call request noRow.1)
  | .writes row => some (.pending, σ.set call request (.written row))
  | .violates => some (.failed conflict, σ.set call request .done)
  | .refused => some (.failed .other, σ.set call request .done)

def statement (s : Service) (σ : State) (call : Nat) (newID : Text) :
    Option (Answer × State) :=
  match σ.calls[call]? with
  | some ⟨.google identity, .begun⟩ =>
    σ.follow call (.google identity) (.missed, .pending) .identityConflict
      (σ.update s call identity)
  | some ⟨.google identity, .missed⟩ =>
    σ.follow call (.google identity) (.done, .failed .identityConflict) .identityConflict
      (σ.insert s call (s.googleRow identity newID) (takeOver (s.googleRow identity newID)))
  | some ⟨.development email, .begun⟩ =>
    σ.follow call (.development email) (.done, .failed .other) .other
      (σ.insert s call (s.developmentRow email newID) some)
  | _ => none

def start (s : Service) (σ : State) (request : Request) : Answer × State :=
  match request with
  | .google identity =>
    if !identity.verified || trimSpace identity.subject == [] ||
        !s.allowed (s.normalizeEmail identity.email) then
      (.failed .emailNotAllowed, { σ with calls := σ.calls ++ [⟨request, .done⟩] })
    else (.pending, { σ with calls := σ.calls ++ [⟨request, .begun⟩] })
  | .development _ => (.pending, { σ with calls := σ.calls ++ [⟨request, .begun⟩] })

def commit (σ : State) (call : Nat) (answered : Bool) : Option (Answer × State) :=
  match σ.calls[call]? with
  | some ⟨request, .written row⟩ =>
    some (if answered then .user row.user else .failed .other,
      { (σ.set call request .done) with users := σ.users.put row })
  | _ => none

def abort (σ : State) (call : Nat) : Option (Answer × State) :=
  match σ.calls[call]? with
  | some ⟨_, .done⟩ => none
  | some ⟨request, _⟩ => some (.failed .other, σ.set call request .done)
  | none => none

end State

def step (s : Service) (σ : State) : Event → Option (Answer × State)
  | .start request => some (σ.start s request)
  | .statement call newID => σ.statement s call newID
  | .commit call answered => σ.commit call answered
  | .abort call => σ.abort call

def callOf (x : Entry State Event Answer) : Nat :=
  match x.event with
  | .start _ => x.before.calls.length
  | .statement call _ => call
  | .commit call _ => call
  | .abort call => call

def signsIn (x : Entry State Event Answer) : Option (Text × Text) :=
  match x.response, (x.before.calls[callOf x]?).map Call.request with
  | .user u, some (.google identity) => some (identity.subject, u.id)
  | _, _ => none

/-- The unique indexes of the table. -/
def Meets (r s : UserRow) : Prop := r.meets s = true

def Keeps (r s : UserRow) : Prop := ∀ subject, r.boundTo subject = true → s.boundTo subject = true

inductive Move (σ : State) : Event → Answer → State → Prop
  | start {request phase a}
      (h : (phase = .begun ∧ a = .pending) ∨ (phase = .done ∧ a = .failed .emailNotAllowed)) :
      Move σ (.start request) a { σ with calls := σ.calls ++ [⟨request, phase⟩] }
  | miss {n newID request phase} (hcall : σ.calls[n]? = some ⟨request, phase⟩)
      (hphase : phase ≠ .done) : Move σ (.statement n newID) .pending (σ.set n request .missed)
  | write {n newID request phase row} (hcall : σ.calls[n]? = some ⟨request, phase⟩)
      (hphase : phase ≠ .done) (hrow : Writable Meets Keeps σ.users σ.written n row)
      (hbound : ∀ identity, request = .google identity → row.boundTo identity.subject = true) :
      Move σ (.statement n newID) .pending (σ.set n request (.written row))
  | fail {n newID request phase failure} (hcall : σ.calls[n]? = some ⟨request, phase⟩)
      (hphase : phase ≠ .done) :
      Move σ (.statement n newID) (.failed failure) (σ.set n request .done)
  | commit {n answered request row} (hcall : σ.calls[n]? = some ⟨request, .written row⟩) :
      Move σ (.commit n answered) (if answered then .user row.user else .failed .other)
        { (σ.set n request .done) with users := σ.users.put row }
  | abort {n request phase} (hcall : σ.calls[n]? = some ⟨request, phase⟩)
      (hphase : phase ≠ .done) : Move σ (.abort n) (.failed .other) (σ.set n request .done)

variable {s : Service} {σ σ' : State} {e : Event} {a : Answer} {n m : Nat} {row row' : UserRow}
  {request : Request} {phase : Phase} {newID : Text}

section Rows

theorem Meets.symm (r s : UserRow) (h : Meets r s) : Meets s r := by
  simp only [Meets, UserRow.meets, Bool.or_eq_true, Bool.and_eq_true, beq_iff_eq] at h ⊢
  obtain h | ⟨⟨hprovider, hsome⟩, hsubject⟩ := h
  · exact Or.inl h.symm
  · exact Or.inr ⟨⟨hprovider.symm, hsubject ▸ hsome⟩, hsubject.symm⟩

theorem Keeps.refl (r : UserRow) : Keeps r r := fun _ h => h

theorem boundTo_iff {subject : Text} {r : UserRow} :
    r.boundTo subject = true ↔ r.authProvider = .google ∧ r.authSubject = some subject := by
  simp [UserRow.boundTo]

theorem meets_of_boundTo {subject : Text} {r s : UserRow} (hr : r.boundTo subject = true)
    (hs : s.boundTo subject = true) : Meets r s := by
  rw [boundTo_iff] at hr hs
  simp [Meets, UserRow.meets, hr.1, hr.2, hs.1, hs.2]

theorem boundTo_unique {subject subject' : Text} {r : UserRow} (h : r.boundTo subject = true)
    (h' : r.boundTo subject' = true) : subject' = subject := by
  rw [boundTo_iff] at h h'
  simpa [h.2, eq_comm] using h'.2

theorem googleRow_boundTo (identity : GoogleIdentity) (id : Text) :
    (s.googleRow identity id).boundTo identity.subject = true := by
  simp [boundTo_iff, Service.googleRow]

/-- The conflict clause takes over only a row that no other subject has. -/
theorem takeOver_spec {excluded r r' : UserRow} (h : State.takeOver excluded r = some r') :
    r'.id = r.id ∧ (excluded.authProvider = .google → Keeps r r') ∧
      ∀ subject, excluded.boundTo subject = true → r'.boundTo subject = true := by
  unfold State.takeOver at h
  split at h
  · rename_i hcond
    obtain rfl := Option.some.inj h
    refine ⟨rfl, ?_, ?_⟩
    · intro hgoogle subject hr
      rw [boundTo_iff] at hr ⊢
      obtain hdev | ⟨-, hnone | hsame⟩ := hcond
      · simp [hr.1] at hdev
      · simp [hr.2] at hnone
      · exact ⟨rfl, hsame ▸ hr.2⟩
    · intro subject hex
      exact boundTo_iff.mpr ⟨rfl, (boundTo_iff.mp hex).2⟩
  · cases h

end Rows

namespace State

theorem written_eq_some :
    σ.written n = some row ↔ ∃ request, σ.calls[n]? = some ⟨request, .written row⟩ := by
  unfold written
  split
  · rename_i request w h
    simp [h]
  · rename_i h
    constructor
    · intro hnone
      cases hnone
    · intro hex
      obtain ⟨request, hrow⟩ := hex
      exact absurd hrow (h request row)

theorem written_of_phase (h : σ.calls[n]? = some ⟨request, phase⟩)
    (hphase : ∀ row, phase ≠ .written row) : σ.written n = none := by
  rw [Option.eq_none_iff_forall_not_mem]
  intro row hrow
  obtain ⟨request', hrow⟩ := written_eq_some.mp hrow
  rw [h, Option.some_inj] at hrow
  injection hrow with hreq hph
  exact hphase row hph

theorem written_set_ne (h : m ≠ n) : (σ.set n request phase).written m = σ.written m := by
  simp [written, set, List.getElem?_set_ne h.symm]

theorem calls_set (h : n < σ.calls.length) :
    (σ.set n request phase).calls[n]? = some ⟨request, phase⟩ := by
  simp [set, h]

theorem of_not_locked {p : UserRow → Bool} (h : σ.locked n p = false) (hm : m ≠ n)
    {w : UserRow} (hw : σ.written m = some w) :
    p w = false ∧ ∀ r ∈ σ.users, r.id = w.id → p r = false := by
  have hlen : m < σ.calls.length := by
    obtain ⟨request, hcall⟩ := written_eq_some.mp hw
    exact (List.getElem?_eq_some_iff.mp hcall).1
  have hnone := List.any_eq_false.mp h m (List.mem_range.mpr hlen)
  simp only [hw, Option.any_some, Bool.and_eq_true, bne_iff_ne, ne_eq, hm, not_false_eq_true,
    true_and, Bool.or_eq_true, not_or, Bool.not_eq_true, List.any_eq_false, not_and,
    beq_iff_eq] at hnone
  exact hnone

theorem store_writes {fresh : Bool} (h : σ.store n fresh row = .writes row')
    (hkeeps : ∀ r ∈ σ.users, r.id = row.id → fresh = false → Keeps r row) :
    row' = row ∧ Writable Meets Keeps σ.users σ.written n row := by
  unfold store at h
  split at h
  · cases h
  · rename_i hfree
    split at h
    · cases h
    · rename_i hclear
      injection h with heq
      have hclear := List.any_eq_false.mp (Bool.not_eq_true _ ▸ hclear)
      refine ⟨heq.symm, ?_, ?_, ?_⟩
      · intro m hm w hw
        have hno := (of_not_locked (Bool.not_eq_true _ ▸ hfree) hm hw).1
        simp only [Bool.or_eq_false_iff, beq_eq_false_iff_ne] at hno
        exact ⟨hno.1, by simp [Meets, hno.2]⟩
      · intro r hr hne
        have hno := hclear r hr
        simpa [Meets, hne] using hno
      · intro r hr hid
        have hno := hclear r hr
        exact hkeeps r hr hid (by simpa [hid] using hno)

theorem update_writes {identity : GoogleIdentity} (h : σ.update s n identity = .writes row) :
    Writable Meets Keeps σ.users σ.written n row ∧ row.boundTo identity.subject = true := by
  unfold update at h
  split at h
  · cases h
  · rename_i r hr
    dsimp only at h
    split at h
    · have hbound := Table.prop_of_find? hr
      obtain ⟨rfl, hrow⟩ := store_writes h fun r' hr' hid _ => by
        obtain rfl := Table.eq_of_key hr' (Table.mem_of_find? hr) hid
        exact fun subject hsubject => hsubject
      exact ⟨hrow, hbound⟩
    · cases h

theorem insert_writes {onConflict : UserRow → Option UserRow}
    (h : σ.insert s n row onConflict = .writes row')
    (hconflict : ∀ r r', onConflict r = some r' → r'.id = r.id ∧ Keeps r r') :
    Writable Meets Keeps σ.users σ.written n row' ∧
      (row' = row ∨ ∃ r, onConflict r = some row') := by
  unfold insert at h
  split at h
  · cases h
  · split at h
    · cases h
    · split at h
      · obtain ⟨rfl, hrow⟩ := store_writes h fun _ _ _ hfresh => by cases hfresh
        exact ⟨hrow, Or.inl rfl⟩
      · rename_i r hr
        split at h
        · cases h
        · rename_i r' hr'
          obtain ⟨hid, hkeeps⟩ := hconflict r r' hr'
          obtain ⟨rfl, hrow⟩ := store_writes h fun q hq hqid _ => by
            have hmem : r ∈ σ.users := List.mem_of_find?_eq_some hr
            obtain rfl := Table.eq_of_key hq hmem (hqid.trans hid)
            exact hkeeps
          exact ⟨hrow, Or.inr ⟨r, hr'⟩⟩

end State

theorem move_of_follow {noRow : Phase × Answer} {conflict : Failure} {effect : Effect}
    (hcall : σ.calls[n]? = some ⟨request, phase⟩) (hphase : phase ≠ .done)
    (hnoRow : noRow = (.missed, .pending) ∨ ∃ failure, noRow = (.done, .failed failure))
    (hwrites : ∀ row, effect = .writes row →
      Writable Meets Keeps σ.users σ.written n row ∧
        ∀ identity, request = .google identity → row.boundTo identity.subject = true)
    (h : σ.follow n request noRow conflict effect = some (a, σ')) :
    Move σ (.statement n newID) a σ' := by
  cases effect with
  | waits => cases h
  | noRow =>
    obtain ⟨rfl, rfl⟩ : noRow.2 = a ∧ σ.set n request noRow.1 = σ' := by
      simpa [State.follow] using h
    obtain rfl | ⟨failure, rfl⟩ := hnoRow
    · exact .miss hcall hphase
    · exact .fail hcall hphase
  | writes row =>
    obtain ⟨rfl, rfl⟩ : .pending = a ∧ σ.set n request (.written row) = σ' := by
      simpa [State.follow] using h
    exact .write hcall hphase (hwrites row rfl).1 (hwrites row rfl).2
  | violates =>
    obtain ⟨rfl, rfl⟩ : .failed conflict = a ∧ σ.set n request .done = σ' := by
      simpa [State.follow] using h
    exact .fail hcall hphase
  | refused =>
    obtain ⟨rfl, rfl⟩ : .failed .other = a ∧ σ.set n request .done = σ' := by
      simpa [State.follow] using h
    exact .fail hcall hphase

theorem move_of_step (h : step s σ e = some (a, σ')) : Move σ e a σ' := by
  cases e with
  | start request =>
    simp only [step, State.start, Option.some_inj] at h
    cases request with
    | google identity =>
      dsimp only at h
      split at h
      · obtain ⟨rfl, rfl⟩ := Prod.mk.inj h
        exact .start (Or.inr ⟨rfl, rfl⟩)
      · obtain ⟨rfl, rfl⟩ := Prod.mk.inj h
        exact .start (Or.inl ⟨rfl, rfl⟩)
    | development email =>
      obtain ⟨rfl, rfl⟩ := Prod.mk.inj h
      exact .start (Or.inl ⟨rfl, rfl⟩)
  | statement n newID =>
    simp only [step, State.statement] at h
    split at h
    · rename_i identity hcall
      refine move_of_follow hcall (by simp) (Or.inl rfl) ?_ h
      intro row hrow
      obtain ⟨hwritable, hbound⟩ := State.update_writes hrow
      refine ⟨hwritable, ?_⟩
      intro identity' heq
      obtain rfl := Request.google.inj heq
      exact hbound
    · rename_i identity hcall
      refine move_of_follow hcall (by simp) (Or.inr ⟨_, rfl⟩) ?_ h
      intro row hrow
      obtain ⟨hwritable, horigin⟩ := State.insert_writes hrow fun r r' hr' => by
        obtain ⟨hid, hkeeps, -⟩ := takeOver_spec hr'
        exact ⟨hid, hkeeps rfl⟩
      refine ⟨hwritable, ?_⟩
      intro identity' heq
      obtain rfl := Request.google.inj heq
      obtain rfl | ⟨r, hr⟩ := horigin
      · exact googleRow_boundTo identity newID
      · exact (takeOver_spec hr).2.2 identity.subject (googleRow_boundTo identity newID)
    · rename_i email hcall
      refine move_of_follow hcall (by simp) (Or.inr ⟨_, rfl⟩) ?_ h
      intro row hrow
      obtain ⟨hwritable, -⟩ := State.insert_writes hrow fun r r' hr' => by
        obtain rfl := Option.some.inj hr'
        exact ⟨rfl, Keeps.refl r⟩
      exact ⟨hwritable, fun identity heq => by cases heq⟩
    · cases h
  | commit n answered =>
    simp only [step, State.commit] at h
    split at h
    · rename_i request row hcall
      obtain ⟨rfl, rfl⟩ := Prod.mk.inj (Option.some.inj h)
      exact .commit hcall
    · cases h
  | abort n =>
    simp only [step, State.abort] at h
    split at h
    · cases h
    · rename_i request phase hphase hcall
      obtain ⟨rfl, rfl⟩ := Prod.mk.inj (Option.some.inj h)
      exact .abort hcall hphase
    · cases h

namespace State

theorem calls_set_cases {c : Call} (h : (σ.set n request phase).calls[m]? = some c) :
    (m = n ∧ c = ⟨request, phase⟩) ∨ (m ≠ n ∧ σ.calls[m]? = some c) := by
  by_cases hm : m = n
  · subst hm
    have hlen := (List.getElem?_eq_some_iff.mp h).1
    rw [calls_set (by simpa [set] using hlen), Option.some_inj] at h
    exact Or.inl ⟨rfl, h.symm⟩
  · exact Or.inr ⟨hm, by simpa [set, List.getElem?_set_ne (Ne.symm hm)] using h⟩

theorem calls_start_cases {c : Call}
    (h : (σ.calls ++ [(⟨request, phase⟩ : Call)])[m]? = some c) :
    σ.calls[m]? = some c ∨ (m = σ.calls.length ∧ c = ⟨request, phase⟩) := by
  by_cases hm : m < σ.calls.length
  · rw [List.getElem?_append_left hm] at h
    exact Or.inl h
  · rw [List.getElem?_append_right (by omega)] at h
    obtain ⟨hlen, hc⟩ := List.getElem?_eq_some_iff.mp h
    simp only [List.length_singleton] at hlen
    exact Or.inr ⟨by omega, by simpa using hc.symm⟩

theorem written_start (hphase : ∀ row, phase ≠ .written row) :
    ({ σ with calls := σ.calls ++ [⟨request, phase⟩] } : State).written = σ.written := by
  funext m
  apply Option.ext
  intro row
  rw [written_eq_some, written_eq_some]
  constructor
  · intro h
    obtain ⟨request', h⟩ := h
    obtain hold | ⟨-, hnew⟩ := calls_start_cases h
    · exact ⟨request', hold⟩
    · injection hnew with hreq hph
      exact absurd hph.symm (hphase row)
  · intro h
    obtain ⟨request', h⟩ := h
    have hlen := (List.getElem?_eq_some_iff.mp h).1
    exact ⟨request', by simpa [List.getElem?_append_left hlen] using h⟩

end State

theorem lt_of_call {c : Call} (h : σ.calls[n]? = some c) : n < σ.calls.length :=
  (List.getElem?_eq_some_iff.mp h).1

/-- What holds in every state: every written row may be committed next, and one of
AuthenticateGoogle is bound to the subject that signs in. -/
structure Consistent (σ : State) : Prop where
  pending : Pending Meets Keeps σ.users σ.written
  bound : ∀ (n : Nat) (identity : GoogleIdentity) (row : UserRow),
    σ.calls[n]? = some ⟨.google identity, .written row⟩ → row.boundTo identity.subject = true

namespace Consistent

theorem start {users : Users} (h : ClashFree Meets users) : Consistent ⟨users, []⟩ where
  pending := Pending.empty h fun _ => rfl
  bound _ _ _ h := by cases h

theorem release (h : Consistent σ) (hcall : n < σ.calls.length)
    (hphase : ∀ row, phase ≠ .written row) : Consistent (σ.set n request phase) where
  pending :=
    h.pending.release (State.written_of_phase (State.calls_set hcall) hphase)
      fun _ hm => State.written_set_ne hm
  bound m identity row hm := by
    obtain ⟨-, heq⟩ | ⟨-, hold⟩ := State.calls_set_cases hm
    · injection heq with hreq hph
      exact absurd hph.symm (hphase row)
    · exact h.bound m identity row hold

theorem step (h : Consistent σ) (hstep : step s σ e = some (a, σ')) : Consistent σ' := by
  cases move_of_step hstep with
  | @start request phase a hphase =>
    have hnew : ∀ row, phase ≠ .written row := by
      intro row heq
      obtain ⟨hbegun, -⟩ | ⟨hdone, -⟩ := hphase
      · rw [hbegun] at heq
        cases heq
      · rw [hdone] at heq
        cases heq
    refine ⟨?_, ?_⟩
    · rw [State.written_start hnew]
      exact h.pending
    · intro m identity row hm
      obtain hold | ⟨-, heq⟩ := State.calls_start_cases hm
      · exact h.bound m identity row hold
      · injection heq with hreq hph
        exact absurd hph.symm (hnew row)
  | miss hcall hphase => exact h.release (lt_of_call hcall) (by simp)
  | fail hcall hphase => exact h.release (lt_of_call hcall) (by simp)
  | abort hcall hphase => exact h.release (lt_of_call hcall) (by simp)
  | @write n newID request phase row hcall hphase hrow hbound =>
    refine ⟨?_, ?_⟩
    · refine h.pending.write Meets.symm hrow ?_ fun m hm => State.written_set_ne hm
      exact State.written_eq_some.mpr ⟨request, State.calls_set (lt_of_call hcall)⟩
    · intro m identity w hm
      obtain ⟨-, heq⟩ | ⟨-, hold⟩ := State.calls_set_cases hm
      · injection heq with hreq hph
        obtain rfl := Phase.written.inj hph
        exact hbound identity hreq.symm
      · exact h.bound m identity w hold
  | @commit n answered request row hcall =>
    have hreleased : Consistent (σ.set n request .done) := h.release (lt_of_call hcall) (by simp)
    refine ⟨?_, hreleased.bound⟩
    refine h.pending.commit Meets.symm (State.written_eq_some.mpr ⟨request, hcall⟩) ?_
      fun m hm => State.written_set_ne hm
    exact State.written_of_phase (State.calls_set (lt_of_call hcall)) (by simp)

theorem eq_of_meets (h : Consistent σ) {r r' : UserRow} (hr : r ∈ σ.users) (hr' : r' ∈ σ.users)
    (hmeets : Meets r r') : r = r' := by
  by_contra hne
  have hid : r.id ≠ r'.id := fun hid => hne (Table.eq_of_key hr hr' hid)
  exact h.pending.free r hr r' hr' hid hmeets

end Consistent

def Bound (id subject : Text) (σ : State) : Prop :=
  ∃ r ∈ σ.users, r.id = id ∧ r.boundTo subject = true

theorem Bound.step {id subject : Text} (h : Consistent σ) (hb : Bound id subject σ)
    (hstep : Auth.step s σ e = some (a, σ')) : Bound id subject σ' := by
  cases move_of_step hstep with
  | start | miss | fail | abort | write => exact hb
  | @commit n answered request row hcall =>
    obtain ⟨r, hr, hid, hbound⟩ := hb
    obtain ⟨r', hr', hid', hkeeps⟩ :=
      h.pending.kept Keeps.refl (State.written_eq_some.mpr ⟨request, hcall⟩) hr
    exact ⟨r', hr', hid'.trans hid, hkeeps subject hbound⟩

theorem signsIn_spec {x : Entry State Event Answer} (h : Consistent x.before)
    (hstep : Auth.step s x.before x.event = some (x.response, x.after)) {subject id : Text}
    (hsign : signsIn x = some (subject, id)) :
    Bound id subject x.after ∧ ∃ row, x.before.written (callOf x) = some row ∧ row.id = id ∧
      row.boundTo subject = true := by
  obtain ⟨before, event, response, after⟩ := x
  have hmove : Move before event response after := move_of_step hstep
  cases hmove with
  | start hphase =>
    obtain ⟨-, rfl⟩ | ⟨-, rfl⟩ := hphase
    · cases hsign
    · cases hsign
  | miss hcall | fail hcall | abort hcall | write hcall => cases hsign
  | @commit n answered request row hcall =>
    cases answered with
    | false => cases hsign
    | true =>
      cases request with
      | development email => simp [signsIn, callOf, hcall] at hsign
      | google identity =>
        obtain ⟨rfl, rfl⟩ : identity.subject = subject ∧ row.id = id := by
          simpa [signsIn, callOf, hcall, UserRow.user] using hsign
        have hbound := h.bound n identity row hcall
        refine ⟨⟨row, Table.mem_put.mpr (Or.inl rfl), rfl, hbound⟩, row, ?_, rfl, hbound⟩
        exact State.written_eq_some.mpr ⟨.google identity, hcall⟩

def Done (n : Nat) (σ : State) : Prop := ∃ request, σ.calls[n]? = some ⟨request, .done⟩

theorem Done.step {n : Nat} (h : Done n σ) (hstep : Auth.step s σ e = some (a, σ')) :
    Done n σ' := by
  obtain ⟨request, h⟩ := h
  have hset : ∀ {m request' phase}, σ.calls[m]? = some ⟨request', phase⟩ → phase ≠ .done →
      ∀ phase', Done n (σ.set m request' phase') := by
    intro m request' phase hm hphase phase'
    have hne : m ≠ n := by
      intro heq
      rw [heq, h, Option.some_inj] at hm
      injection hm with hreq hph
      exact hphase hph.symm
    exact ⟨request, by simpa [State.set, List.getElem?_set_ne hne] using h⟩
  cases move_of_step hstep with
  | start => exact ⟨request, by simpa [List.getElem?_append_left (lt_of_call h)] using h⟩
  | miss hcall hphase | fail hcall hphase | abort hcall hphase | write hcall hphase =>
    exact hset hcall hphase _
  | commit hcall => exact hset hcall (by simp) _

theorem done_of_answer {x : Entry State Event Answer}
    (hstep : Auth.step s x.before x.event = some (x.response, x.after))
    (h : x.response ≠ .pending) : ¬Done (callOf x) x.before ∧ Done (callOf x) x.after := by
  have hopen : ∀ {n request phase}, x.before.calls[n]? = some ⟨request, phase⟩ →
      phase ≠ .done → ¬Done n x.before := by
    intro n request phase hcall hphase hdone
    obtain ⟨request', hdone⟩ := hdone
    rw [hdone, Option.some_inj] at hcall
    injection hcall with hreq hph
    exact hphase hph.symm
  obtain ⟨before, event, response, after⟩ := x
  have hmove : Move before event response after := move_of_step hstep
  cases hmove with
  | @start request phase a hphase =>
    obtain ⟨-, rfl⟩ | ⟨rfl, -⟩ := hphase
    · exact absurd rfl h
    · constructor
      · intro hdone
        obtain ⟨request', hdone⟩ := hdone
        exact absurd (lt_of_call hdone) (by simp [callOf])
      · exact ⟨request, by simp [callOf]⟩
  | miss | write => exact absurd rfl h
  | @fail n newID request phase failure hcall hphase =>
    exact ⟨hopen hcall hphase, request, State.calls_set (lt_of_call hcall)⟩
  | @abort n request phase hcall hphase =>
    exact ⟨hopen hcall hphase, request, State.calls_set (lt_of_call hcall)⟩
  | @commit n answered request row hcall =>
    exact ⟨hopen hcall (by simp), request, State.calls_set (lt_of_call hcall)⟩

theorem users_of_answer {x : Entry State Event Answer}
    (hstep : Auth.step s x.before x.event = some (x.response, x.after))
    (h : x.response = .pending ∨ x.response = .failed .identityConflict ∨
      x.response = .failed .emailNotAllowed) : x.after.users = x.before.users := by
  obtain ⟨before, event, response, after⟩ := x
  have hmove : Move before event response after := move_of_step hstep
  cases hmove with
  | start | miss | fail | abort | write => rfl
  | @commit n answered request row hcall =>
    cases answered with
    | false => simp at h
    | true => simp at h

/-- In every interleaving of the transactions, over every table that meets its unique
indexes: users do not share an email or a Google subject; a user that is bound to a
subject stays bound to it and to no other; a subject signs in as one user; and a call
that is refused changes nothing. -/
theorem google_identity_bound {users : Users} (hstart : ClashFree Meets users)
    {t : List (Entry State Event Answer)} (h : Run (step s) ⟨users, []⟩ t σ) :
    (∀ r ∈ σ.users, ∀ r' ∈ σ.users,
      r.email = r'.email ∨ (∃ subject, r.boundTo subject = true ∧ r'.boundTo subject = true) →
        r = r') ∧
    (∀ x ∈ t, ∀ r ∈ x.before.users, ∀ subject, r.boundTo subject = true →
      ∃ r' ∈ σ.users, r'.id = r.id ∧ ∀ subject', r'.boundTo subject' = true ↔
        subject' = subject) ∧
    (∀ x ∈ t, ∀ y ∈ t, ∀ subject id id', signsIn x = some (subject, id) →
      signsIn y = some (subject, id') → id' = id) ∧
    ∀ x ∈ t, x.response = .failed .identityConflict ∨ x.response = .failed .emailNotAllowed →
      ∀ y ∈ t, callOf y = callOf x → y.after.users = y.before.users := by
  have hconsistent := Consistent.start hstart
  have hstep : ∀ {σ e a σ'}, Consistent σ → step s σ e = some (a, σ') → Consistent σ' :=
    fun h hs => h.step hs
  refine ⟨?_, ?_, ?_, ?_⟩
  · intro r hr r' hr' hshare
    refine (h.invariant hstep hconsistent).eq_of_meets hr hr' ?_
    obtain hemail | ⟨subject, hbound, hbound'⟩ := hshare
    · simp [Meets, UserRow.meets, hemail]
    · exact meets_of_boundTo hbound hbound'
  · intro x hx r hr subject hbound
    obtain ⟨before, later, rfl⟩ := List.append_of_mem hx
    obtain ⟨hprior, hat, hlater⟩ := h.at_entry
    have hbefore := hprior.invariant hstep hconsistent
    have hkept : Consistent σ ∧ Bound r.id subject σ :=
      hlater.invariant (P := fun σ => Consistent σ ∧ Bound r.id subject σ)
        (fun hP hs => ⟨hP.1.step hs, hP.2.step hP.1 hs⟩)
        ⟨hbefore.step hat, Bound.step hbefore ⟨r, hr, rfl, hbound⟩ hat⟩
    obtain ⟨-, r', hr', hid, hbound'⟩ := hkept
    refine ⟨r', hr', hid, ?_⟩
    intro subject'
    constructor
    · exact boundTo_unique hbound'
    · rintro rfl
      exact hbound'
  · intro x hx y hy subject id id' hxid hyid
    refine (h.values_agree (I := Consistent)
      (fun z => (signsIn z).bind fun p => if p.1 = subject then some p.2 else none)
      (fun id σ => Bound id subject σ) hstep (fun hI hs hQ => hQ.step hI hs) ?_ ?_
      hconsistent).2 y hy x hx id' id (by simp [hyid]) (by simp [hxid])
    · intro σ e a σ' id hI hs hvalue
      obtain ⟨p, hp, hid⟩ := Option.bind_eq_some_iff.mp hvalue
      split at hid
      · rename_i hsubject
        obtain rfl := Option.some.inj hid
        exact hsubject ▸ (signsIn_spec hI hs hp).1
      · cases hid
    · intro σ e a σ' id w hI hs hQ hvalue
      obtain ⟨p, hp, hid⟩ := Option.bind_eq_some_iff.mp hvalue
      split at hid
      · rename_i hsubject
        obtain rfl := Option.some.inj hid
        obtain ⟨-, row, hrow, hrowid, hbound⟩ := signsIn_spec hI hs hp
        obtain ⟨r, hr, hrid, hrbound⟩ := hQ
        by_contra hne
        have hclash := (hI.pending.writable _ row hrow).rows r hr
          (fun hid => hne (by rw [← hrowid, ← hrid, hid]))
        exact hclash (meets_of_boundTo hrbound (hsubject ▸ hbound))
      · cases hid
  · intro x hx hrefused y hy hcall
    obtain ⟨-, hystep⟩ := h.at_mem hstep hconsistent hy
    apply users_of_answer hystep
    by_cases hpending : y.response = .pending
    · exact Or.inl hpending
    · -- both answer the call, so their answers are one
      right
      have hsame := (h.values_agree (I := Consistent)
        (fun z => if callOf z = callOf x ∧ z.response ≠ .pending then some z.response else none)
        (fun _ σ => Done (callOf x) σ) hstep (fun _ hs hQ => hQ.step hs) ?_ ?_
        hconsistent).2 x hx y hy x.response y.response ?_ (by simp [hcall, hpending])
      · rw [← hsame]
        exact hrefused
      · intro σ e a σ' v _ hs hvalue
        split at hvalue
        · rename_i hz
          exact hz.1 ▸ (done_of_answer hs hz.2).2
        · cases hvalue
      · intro σ e a σ' v w _ hs hQ hvalue
        split at hvalue
        · rename_i hz
          exact absurd (hz.1 ▸ hQ) (done_of_answer hs hz.2).1
        · cases hvalue
      · obtain hx' | hx' := hrefused
        · simp [hx']
        · simp [hx']

def basicService : Service where
  tables := basicTables
  allowedEmails := ["ada@example.org".toList]
  lower t := t.map Char.toLower

def ada : GoogleIdentity where
  subject := "1842".toList
  email := " Ada@example.org".toList
  displayName := []
  avatarURL := []
  verified := true

theorem google_identity_bound_race :
    ∃ t σ, Run (step basicService) ⟨∅, []⟩ t σ ∧
      t.filterMap signsIn = [("1842".toList, "a".toList), ("1842".toList, "a".toList)] ∧
      ∃ x ∈ t, x.response = .failed .identityConflict ∧
        ∀ y ∈ t, callOf y = callOf x → y.after.users = y.before.users := by
  obtain ⟨t, σ, hrun, hp⟩ : ∃ t σ, Run (step basicService) ⟨∅, []⟩ t σ ∧
      (t.filterMap signsIn == [("1842".toList, "a".toList), ("1842".toList, "a".toList)] &&
        t.any fun x => x.response == .failed .identityConflict) = true :=
    exists_run
      [.start (.google ada), .start (.google ada), .start (.google { ada with subject := ['7'] }),
        .statement 0 [], .statement 1 [], .statement 2 [], .statement 0 "a".toList, .commit 0 true,
        .statement 1 "b".toList, .commit 1 true, .statement 2 "c".toList]
      (by decide +kernel)
  rw [Bool.and_eq_true, beq_iff_eq, List.any_eq_true] at hp
  obtain ⟨hsigns, x, hx, hconflict⟩ := hp
  have hfree : ClashFree Meets (∅ : Users) := fun r hr => absurd hr (Table.not_mem_empty r)
  have hresponse : x.response = .failed .identityConflict := by simpa using hconflict
  refine ⟨t, σ, hrun, hsigns, x, hx, hresponse, ?_⟩
  exact (google_identity_bound hfree hrun).2.2.2 x hx (Or.inl hresponse)

end Noted.Auth
