import Noted.Sessions.Runs

/-!
# Whom a request acts for

The main results on sessions, login states and shortcut tokens.
-/

namespace Noted.Sessions

open Library

variable {tokenHash : Text → Text} {users : Auth.Users} {t u v : List Step} {s : System}
  {x y : Step} {n : Nat} {th : RequestThread} {o : Sigma Call.Reply}

/-- In the step, a statement is answered that leaves no such row. -/
def Ended (ended : Statement → Prop) (x : Step) : Prop :=
  ∃ q a, x.response = some ⟨.sql q, some a⟩ ∧ ended q

/-- In the step, a Google callback stores the session: the browser held the cookie of the
state, the state was there, and Google named a verified identity that may use the service,
to which the user of the session is bound. -/
def CreatedBySignIn (tokenHash : Text → Text) (row : SessionRow) (x : Step) : Prop :=
  ∃ n th r, Made x n th ⟨.sql (.insertSession row), r⟩ ∧ Consumed tokenHash th.task th.past ∧
    Names th x.before.shared.auth row.userID ∧
      ∃ value now, Drew th.past value ∧ Read th.past now ∧ row.tokenHash = tokenHash value ∧
        row.expiresAt = now + th.task.config.sessionTTL

theorem createdBySignIn_of_stands (hfree : ClashFree Auth.Meets users)
    (hrun : Run (step tokenHash) (start users) (t ++ u) s) {row : SessionRow}
    (h : Stands (· = .insertSession row) row.EndedBy t) :
    Since (CreatedBySignIn tokenHash row) (Ended row.EndedBy) t := by
  refine h.mono ?_ fun _ _ hended => hended
  rintro x hx ⟨n, th, q, r, hmade, rfl⟩
  obtain ⟨w, w', rfl⟩ := List.append_of_mem hx
  have hrun' : Run (step tokenHash) (start users) (w ++ x :: (w' ++ u)) s := by simpa using hrun
  obtain ⟨user, value, now, hsigned, hdrew, hread, rfl⟩ := (rule_of_made hrun' hmade).allows
  have hnames := SignedIn.names hfree hrun'.at_entry.1 hmade.thread hsigned
  obtain ⟨identity, hidentified, -⟩ := hsigned
  exact ⟨n, th, r, hmade, hidentified.toConsumed, hnames, value, now, hdrew, hread, rfl, rfl⟩

/-- A request acts for a user only with the session of its cookie, which answered it before
it expired: the session was created by a Google sign-in of that user, and no logout,
revocation or expiry was answered between; and the user's email may use the service now. -/
theorem acts_in_session (hfree : ClashFree Auth.Meets users)
    (hrun : Run (step tokenHash) (start users) (u ++ x :: v) s) (h : Made x n th o)
    (hmode : th.task.config.authMode = .google) {id : Text} (hactor : o.1.actor = some id) :
    ∃ (user : Auth.User) (value : Text) (now : Time) (row : SessionRow),
      th.task.request.sessionCookie = some value ∧
      th.task.config.auth.allowed (th.task.config.auth.normalizeEmail user.email) = true ∧
      user.id = id ∧ row.userID = id ∧ row.tokenHash = tokenHash value ∧ now < row.expiresAt ∧
      ∃ u₁ y u₂, u = u₁ ++ y :: u₂ ∧
        Answers n (.sql (.resolveSession (tokenHash value) now))
          (some (some (user, row.expiresAt))) y ∧
        Since (CreatedBySignIn tokenHash row) (Ended row.EndedBy) u₁ := by
  obtain ⟨user, hacts, rfl⟩ := (rule_of_made hrun h).acts hactor
  obtain ⟨expiresAt, ⟨-, value, now, hcookie, hmem⟩, hallowed⟩ | ⟨hdevelopment, -⟩ := hacts
  · obtain ⟨u₁, y, u₂, rfl, hanswers⟩ := answers_of_mem hrun h hmem
    have hrun' : Run (step tokenHash) (start users) (u₁ ++ y :: (u₂ ++ x :: v)) s := by
      simpa using hrun
    have hresolved := congrArg Prod.fst (Option.some.inj (run_of_answers hrun' hanswers))
    obtain ⟨row, hrow, hhash, hlive, rfl, hid⟩ := resolveSession_eq_some hresolved
    refine ⟨user, value, now, row, hcookie, hallowed, rfl, hid, hhash, hlive, u₁, y, u₂, rfl,
      hanswers, ?_⟩
    exact createdBySignIn_of_stands hfree hrun' (stands_session hrun'.at_entry.1 hrow)
  · rw [hmode] at hdevelopment
    cases hdevelopment

section Example

def stateToken : Text := "Sokivuhqg3lAw_T2sg3bVyErI_2ji1tMe72D2Cxgh4k".toList

def sessionToken : Text := "ZlgQdqYlivghB7BO5yj2Pwp1QOtOBsSiJx-IrSzetLo".toList

def bearer : Text := "C8E0kBKjs-tSW4Qk4GbEQu1ld5Pcd-2PdDCu7Lx2B4I".toList

def knownHash (value : Text) : Text :=
  if value = stateToken then
    "78a21a7be5809c229c754c18913ec66a9fc6bfe49ab19ddd95523483f7370f56".toList
  else if value = sessionToken then
    "67a78edb2e27b0b4113e2014ef301633d11c2db34f4032c455b44ade7e6fcc16".toList
  else if value = bearer then
    "bc9d531d5294eec36dd3398041fc85c9c4f2bd3de27d78c90e1829a642b4723c".toList
  else []

def exampleConfig : Config where
  auth := Auth.basicService
  authMode := .google
  devUserEmail := []
  frontendURL := "https://noted.test/".toList
  allowedOrigin := "https://noted.test".toList
  sessionTTL := 7776000000000

def exampleRequest (method : String) (route : Route) : Request where
  route := route
  method := method.toList
  origin := []
  returnTo := []
  error := []
  state := []
  code := []
  stateCookie := none
  sessionCookie := none
  authorization := []

def signInEvents : List Event :=
  [.begin ⟨exampleConfig,
      { exampleRequest "GET" .startGoogleLogin with returnTo := "/pieces/7".toList }⟩,
    .advance 0 (.token stateToken), .advance 0 (.time 1000), .advance 0 .ok, .advance 0 .ok,
    .begin ⟨exampleConfig,
      { exampleRequest "GET" .googleCallback with
        state := stateToken
        stateCookie := some stateToken
        code := "4/0A".toList }⟩,
    .advance 1 (.time 2000), .advance 1 .ok, .advance 1 (.identity (some Auth.ada)),
    .advance 1 .ok, .advance 1 (.newID "a".toList), .advance 1 (.newID "a".toList),
    .advance 1 (.commit true), .advance 1 (.token sessionToken), .advance 1 (.time 3000),
    .advance 1 .ok, .advance 1 .ok, .advance 1 (.time 3000)]

/-- A user signs in, creates a shortcut token and imports with it, and signs out while a
request is made with the session. -/
def exampleEvents : List Event :=
  signInEvents ++
    [.begin ⟨exampleConfig,
        { exampleRequest "POST" .createShortcutToken with sessionCookie := some sessionToken }⟩,
      .advance 2 (.time 4000), .advance 2 .ok, .advance 2 (.time 4000), .advance 2 (.token bearer),
      .advance 2 (.time 4000), .advance 2 .ok,
      .begin ⟨exampleConfig,
        { exampleRequest "POST" .shortcutImport with
          authorization := "Bearer ".toList ++ bearer }⟩,
      .advance 3 .ok, .advance 3 (.time 5000), .advance 3 .ok, .advance 3 (.handled 201 .empty),
      .begin ⟨exampleConfig,
        { exampleRequest "GET" (.api "pieces".toList) with sessionCookie := some sessionToken }⟩,
      .advance 4 (.time 6000),
      .begin ⟨exampleConfig,
        { exampleRequest "DELETE" .logout with sessionCookie := some sessionToken }⟩,
      .advance 5 .ok, .advance 4 .ok]

theorem empty_clashFree : ClashFree Auth.Meets (∅ : Auth.Users) :=
  fun r hr => absurd hr (Table.not_mem_empty r)

theorem acts_in_session_example :
    ∃ u x v s, Run (step knownHash) (start ∅) (u ++ x :: v) s ∧
      (x.response.bind fun o => o.1.actor) = some "a".toList ∧
      ∃ row : SessionRow, row.userID = "a".toList ∧ row.tokenHash = knownHash sessionToken ∧
        ∃ u₁ y u₂, u = u₁ ++ y :: u₂ ∧
          Since (CreatedBySignIn knownHash row) (Ended row.EndedBy) u₁ := by
  obtain ⟨t, s, hrun, hp⟩ : ∃ t s, Run (step knownHash) (start ∅) t s ∧
      ((t.any fun x => x.response.any fun o => o.1.actor == some "a".toList) &&
        t.all fun x => x.before.threads.all fun th => th.task.config.authMode == .google &&
          (th.task.request.sessionCookie.all (· == sessionToken))) = true :=
    exists_run exampleEvents (by decide +kernel)
  rw [Bool.and_eq_true, List.all_eq_true] at hp
  obtain ⟨u, x, v, n, th, o, rfl, hmade, hactor⟩ := exists_made hrun hp.1
  have hth := List.all_eq_true.mp (hp.2 x (by simp)) th (List.mem_of_getElem? hmade.thread)
  rw [Bool.and_eq_true, beq_iff_eq] at hth
  rw [beq_iff_eq] at hactor
  obtain ⟨user, value, now, row, hcookie, -, -, hid, hhash, -, u₁, y, u₂, hu, -, hsince⟩ :=
    acts_in_session empty_clashFree hrun hmade hth.1 hactor
  have hvalue : value = sessionToken := by simpa [hcookie] using hth.2
  refine ⟨u, x, v, s, hrun, ?_, row, hid, hvalue ▸ hhash, u₁, y, u₂, hu, hsince⟩
  rw [hmade.response]
  exact hactor

end Example

def IssuedByLogin (tokenHash : Text → Text) (row : LoginStateRow) (x : Step) : Prop :=
  ∃ n th r, Made x n th ⟨.sql (.insertState row), r⟩ ∧
    th.task.request.route = .startGoogleLogin ∧
      ∃ value now, Drew th.past value ∧ Read th.past now ∧
        row = ⟨tokenHash value, safeReturnPath th.task.request.returnTo, now + stateLifetime⟩

theorem issuedByLogin_of_stands (hrun : Run (step tokenHash) (start users) (t ++ u) s)
    {row : LoginStateRow} (h : Stands (· = .insertState row) row.EndedBy t) :
    Since (IssuedByLogin tokenHash row) (Ended row.EndedBy) t := by
  refine h.mono ?_ fun _ _ hended => hended
  rintro x hx ⟨n, th, q, r, hmade, rfl⟩
  obtain ⟨w, w', rfl⟩ := List.append_of_mem hx
  have hrun' : Run (step tokenHash) (start users) (w ++ x :: (w' ++ u)) s := by simpa using hrun
  obtain ⟨hroute, hissued⟩ := (rule_of_made hrun' hmade).allows
  exact ⟨n, th, r, hmade, hroute, hissued⟩

theorem state_of_consumed {hash path : Text} {now : Time}
    (hrun : Run (step tokenHash) (start users) (u ++ x :: v) s)
    (h : Answers n (.sql (.consumeState hash now)) (some (some path)) x) :
    ∃ row : LoginStateRow, row.stateHash = hash ∧ now < row.expiresAt ∧ row.returnPath = path ∧
      Stands (· = .insertState row) row.EndedBy u := by
  have hconsumed := congrArg Prod.fst (Option.some.inj (run_of_answers hrun h))
  obtain ⟨row, hrow, hhash, hlive, hpath⟩ := consumeState_eq_some hconsumed
  exact ⟨row, hhash, hlive, hpath, stands_state hrun.at_entry.1 hrow⟩

/-- A login state signs in once, within ten minutes, and only where its cookie is: the start
of a sign-in drew it for the path that it returns to, and nothing consumed it before. -/
theorem state_consumed_once (hdistinct : Distinct tokenHash u)
    (hrun : Run (step tokenHash) (start users) (u ++ x :: v) s) {hash path : Text} {now : Time}
    (h : Made x n th ⟨.sql (.consumeState hash now), some (some path)⟩) :
    Presented th.task ∧ hash = tokenHash th.task.request.state ∧
      (∃ row : LoginStateRow, row.stateHash = hash ∧ now < row.expiresAt ∧ row.returnPath = path ∧
        Since (IssuedByLogin tokenHash row) (Ended row.EndedBy) u) ∧
      ∀ y ∈ u, ∀ m later path',
        ¬Answers m (.sql (.consumeState hash later)) (some (some path')) y := by
  obtain ⟨hpresented, -, hstate⟩ := (rule_of_made hrun h).allows
  obtain ⟨choice, hevent⟩ := h.event
  obtain ⟨row, hhash, hlive, hpath, hstands⟩ :=
    state_of_consumed hrun (Pool.answerOf_eq_some.mpr ⟨choice, hevent, h.response⟩)
  refine ⟨hpresented, hstate, ⟨row, hhash, hlive, hpath, issuedByLogin_of_stands hrun hstands⟩, ?_⟩
  intro y hy m later path' hearlier
  have hprior := hrun.at_entry.1
  obtain ⟨w, w', rfl⟩ := List.append_of_mem hy
  obtain ⟨row', hhash', hlive', -, hstands'⟩ := state_of_consumed hprior hearlier
  have hstores : ∀ r : LoginStateRow, r.stateHash = hash → ∀ q, q = Statement.insertState r →
      (Call.sql q).stores = some hash := by
    rintro r rfl q rfl
    rfl
  -- both rows are the one that was stored under the hash
  obtain ⟨q, hq, hq'⟩ := hstands.meet hdistinct hprior hstands' (List.subset_append_left w _)
    (hstores row hhash) (hstores row' hhash')
  obtain rfl := Statement.insertState.inj (hq.symm.trans hq')
  obtain ⟨z, hz, hstored⟩ := hstands'.stored (hstores row hhash)
  have hended : Ended row.EndedBy y :=
    ⟨.consumeState hash later, _, (Pool.answerOf_eq_some.mp hearlier).choose_spec.2,
      hhash.symm, hlive'⟩
  exact not_restored hdistinct hprior (hstores row hhash) hstands hz hstored hended

section Example

def consumesState : Sigma Call.Reply → Bool
  | ⟨.sql (.consumeState _ _), some (some path)⟩ => path == "/pieces/7".toList
  | _ => false

theorem eq_of_consumesState {o : Sigma Call.Reply} (h : consumesState o = true) :
    ∃ hash now, o = ⟨.sql (.consumeState hash now), some (some "/pieces/7".toList)⟩ := by
  unfold consumesState at h
  split at h
  · rename_i hash now path
    rw [beq_iff_eq] at h
    exact ⟨hash, now, h ▸ rfl⟩
  · cases h

theorem state_consumed_once_example :
    ∃ u x v s, Run (step knownHash) (start ∅) (u ++ x :: v) s ∧
      (∃ row : LoginStateRow, row.stateHash = knownHash stateToken ∧
        row.returnPath = "/pieces/7".toList ∧
        Since (IssuedByLogin knownHash row) (Ended row.EndedBy) u) ∧
      ∀ y ∈ u, ∀ m later path,
        ¬Answers m (.sql (.consumeState (knownHash stateToken) later)) (some (some path)) y := by
  obtain ⟨t, s, hrun, hp⟩ : ∃ t s, Run (step knownHash) (start ∅) t s ∧
      ((t.any fun x => x.response.any consumesState) &&
        (decide (t.filterMap (drawnHash knownHash)).Nodup &&
        t.all fun x => x.before.threads.all fun th =>
          th.task.request.stateCookie.all (· == stateToken))) = true :=
    exists_run signInEvents (by decide +kernel)
  rw [Bool.and_eq_true, Bool.and_eq_true, decide_eq_true_eq, List.all_eq_true] at hp
  obtain ⟨hany, hnodup, hall⟩ := hp
  obtain ⟨u, x, v, n, th, o, rfl, hmade, ho⟩ := exists_made hrun hany
  obtain ⟨hash, now, rfl⟩ := eq_of_consumesState ho
  have hth := List.all_eq_true.mp (hall x (by simp)) th (List.mem_of_getElem? hmade.thread)
  obtain ⟨hpresented, rfl, ⟨row, hhash, -, hpath, hissued⟩, honce⟩ :=
    state_consumed_once (Distinct.left hnodup) hrun hmade
  have hstate : th.task.request.state = stateToken := by simpa [hpresented.cookie] using hth
  rw [hstate] at hhash honce
  exact ⟨u, x, v, s, hrun, ⟨row, hhash, hpath, hissued⟩, honce⟩

end Example

theorem session_stays_ended (hdistinct : Distinct tokenHash (u ++ x :: v))
    (hrun : Run (step tokenHash) (start users) (u ++ x :: v) s) {row : SessionRow}
    (hrow : row ∈ x.before.shared.userSessions) (hended : Ended row.EndedBy x) (hy : y ∈ v)
    (m : Nat) (now : Time) (found : Auth.User × Time) :
    ¬Answers m (.sql (.resolveSession row.tokenHash now)) (some (some found)) y := by
  intro hanswer
  obtain ⟨w, w', rfl⟩ := List.append_of_mem hy
  have hrun' : Run (step tokenHash) (start users) ((u ++ x :: w) ++ y :: w') s := by
    simpa using hrun
  have hdistinct' : Distinct tokenHash (u ++ x :: w) := by
    refine Distinct.left (v := y :: w') ?_
    simpa using hdistinct
  have hresolved := congrArg Prod.fst (Option.some.inj (run_of_answers hrun' hanswer))
  obtain ⟨row', hrow', hhash, -⟩ := resolveSession_eq_some hresolved
  have hstands := stands_session hrun.at_entry.1 hrow
  have hstands' := stands_session hrun'.at_entry.1 hrow'
  have hstores : ∀ r : SessionRow, r.tokenHash = row.tokenHash → ∀ q,
      q = Statement.insertSession r → (Call.sql q).stores = some row.tokenHash := by
    rintro r hr q rfl
    exact congrArg some hr
  obtain ⟨q, hq, hq'⟩ := hstands'.meet hdistinct' hrun'.at_entry.1 hstands
    (List.subset_append_left u _) (hstores row' hhash) (hstores row rfl)
  obtain rfl : row = row' := Statement.insertSession.inj (hq'.symm.trans hq)
  obtain ⟨z, hz, hstored⟩ := hstands.stored (hstores row rfl)
  exact not_restored hdistinct' hrun'.at_entry.1 (hstores row rfl) hstands' hz hstored hended

theorem stores_token {row : ShortcutTokenRow} {hash : Text} (h : row.tokenHash = hash)
    (q : Statement) (hq : ∃ row', row'.Same row ∧ q = .replaceShortcutToken row') :
    (Call.sql q).stores = some hash := by
  obtain ⟨row', hsame, rfl⟩ := hq
  exact congrArg some (hsame.2.1.trans h)

theorem token_of_hash {row row' : ShortcutTokenRow} (hdistinct : Distinct tokenHash t)
    (hrun : Run (step tokenHash) (start users) t s)
    (h : Stands (fun q => ∃ r, r.Same row ∧ q = .replaceShortcutToken r) row.EndedBy t)
    (h' : Stands (fun q => ∃ r, r.Same row' ∧ q = .replaceShortcutToken r) row'.EndedBy u)
    (hsub : u ⊆ t) (hhash : row'.tokenHash = row.tokenHash) :
    ∃ r : ShortcutTokenRow, r.Same row ∧ r.Same row' := by
  obtain ⟨q, ⟨r, hr, hq⟩, r', hr', hq'⟩ :=
    h.meet hdistinct hrun h' hsub (stores_token rfl) (stores_token hhash)
  obtain rfl := Statement.replaceShortcutToken.inj (hq.symm.trans hq')
  exact ⟨r, hr, hr'⟩

theorem token_stays_ended (hdistinct : Distinct tokenHash (u ++ x :: v))
    (hrun : Run (step tokenHash) (start users) (u ++ x :: v) s) {row : ShortcutTokenRow}
    (hrow : row ∈ x.before.shared.shortcutTokens) (hended : Ended row.EndedBy x) (hy : y ∈ v)
    (m : Nat) (found : Text × Auth.User) :
    ¬Answers m (.sql (.resolveShortcutToken row.tokenHash)) (some (some found)) y := by
  intro hanswer
  obtain ⟨w, w', rfl⟩ := List.append_of_mem hy
  have hrun' : Run (step tokenHash) (start users) ((u ++ x :: w) ++ y :: w') s := by
    simpa using hrun
  have hdistinct' : Distinct tokenHash (u ++ x :: w) := by
    refine Distinct.left (v := y :: w') ?_
    simpa using hdistinct
  have hresolved := congrArg Prod.fst (Option.some.inj (run_of_answers hrun' hanswer))
  obtain ⟨row', hrow', hhash, -⟩ := resolveShortcutToken_eq_some hresolved
  have hstands := stands_token hrun.at_entry.1 hrow
  have hstands' := stands_token hrun'.at_entry.1 hrow'
  obtain ⟨r, hr, hr'⟩ := token_of_hash hdistinct' hrun'.at_entry.1 hstands' hstands
    (List.subset_append_left u _) hhash.symm
  obtain ⟨z, hz, hstored⟩ := hstands.stored (stores_token rfl)
  obtain ⟨q, a, hresponse, hend⟩ := hended
  have hend' : row'.EndedBy q := (hr.endedBy q).mp ((hr'.endedBy q).mpr hend)
  exact not_restored hdistinct' hrun'.at_entry.1 (stores_token hhash) hstands' hz hstored
    ⟨q, a, hresponse, hend'⟩

/-- After a logout, a revocation, an expiry, or a shortcut token's replacement or deletion is
answered, no request is answered with that session or that token again. -/
theorem ended_stays_ended (hdistinct : Distinct tokenHash (u ++ x :: v))
    (hrun : Run (step tokenHash) (start users) (u ++ x :: v) s) :
    (∀ row ∈ x.before.shared.userSessions, Ended row.EndedBy x → ∀ y ∈ v, ∀ m now found,
      ¬Answers m (.sql (.resolveSession row.tokenHash now)) (some (some found)) y) ∧
    ∀ row ∈ x.before.shared.shortcutTokens, Ended row.EndedBy x → ∀ y ∈ v, ∀ m found,
      ¬Answers m (.sql (.resolveShortcutToken row.tokenHash)) (some (some found)) y := by
  constructor
  · intro row hrow hended y hy m now found
    exact session_stays_ended hdistinct hrun hrow hended hy m now found
  · intro row hrow hended y hy m found
    exact token_stays_ended hdistinct hrun hrow hended hy m found

section Example

def deletesSession : Sigma Call.Reply → Bool
  | ⟨.sql (.deleteSession hash), some _⟩ => hash == knownHash sessionToken
  | _ => false

theorem ended_of_deletesSession {x : Step} (hx : x.response.any deletesSession = true)
    {row : SessionRow} (hrow : row.tokenHash = knownHash sessionToken) : Ended row.EndedBy x := by
  obtain ⟨o, ho, hdeletes⟩ := (Option.any_eq_true _ _).mp hx
  unfold deletesSession at hdeletes
  split at hdeletes
  · rw [beq_iff_eq] at hdeletes
    exact ⟨_, _, ho, hdeletes.trans hrow.symm⟩
  · cases hdeletes

theorem ended_stays_ended_example :
    ∃ u x v y s, Run (step knownHash) (start ∅) (u ++ x :: (v ++ [y])) s ∧
      x.response.any deletesSession = true ∧
      ∀ now found, ¬Answers 4 (.sql (.resolveSession (knownHash sessionToken) now))
        (some (some found)) y := by
  obtain ⟨t, s, hrun, hp⟩ : ∃ t s, Run (step knownHash) (start ∅) t s ∧
      ((t.dropLast.any fun x => x.response.any deletesSession &&
          x.before.shared.userSessions.rows.any (·.tokenHash == knownHash sessionToken)) &&
        decide (t.filterMap (drawnHash knownHash)).Nodup) = true :=
    exists_run exampleEvents (by decide +kernel)
  rw [Bool.and_eq_true, decide_eq_true_eq, List.any_eq_true] at hp
  obtain ⟨⟨x, hx, hdeletes⟩, hnodup⟩ := hp
  rw [Bool.and_eq_true, List.any_eq_true] at hdeletes
  obtain ⟨hdeletes, row, hrow, hhash⟩ := hdeletes
  rw [beq_iff_eq] at hhash
  obtain rfl | ⟨w, y, rfl⟩ := List.eq_nil_or_concat t
  · cases hx
  · rw [List.concat_eq_append, List.dropLast_concat] at hx
    obtain ⟨u, v, rfl⟩ := List.append_of_mem hx
    have hrun' : Run (step knownHash) (start ∅) (u ++ x :: (v ++ [y])) s := by simpa using hrun
    have hdistinct : Distinct knownHash (u ++ x :: (v ++ [y])) := by simpa [Distinct] using hnodup
    refine ⟨u, x, v, y, s, hrun', hdeletes, fun now found => ?_⟩
    have hended := (ended_stays_ended hdistinct hrun').1 row hrow
      (ended_of_deletesSession hdeletes hhash) y (by simp) 4 now found
    rwa [hhash] at hended

end Example

/-- In the step, a request that acts for the user stores the shortcut token, drawn by it. -/
def IssuedTo (tokenHash : Text → Text) (row : ShortcutTokenRow) (x : Step) : Prop :=
  ∃ n th row' r, Made x n th ⟨.sql (.replaceShortcutToken row'), r⟩ ∧ row'.Same row ∧
    th.task.request.route = .createShortcutToken ∧
      ∃ user value now, Acts tokenHash th.task th.past user ∧ user.id = row.userID ∧
        Drew th.past value ∧ Read th.past now ∧ row' = ⟨user.id, tokenHash value, now, none⟩

theorem issuedTo_of_stands (hrun : Run (step tokenHash) (start users) (t ++ u) s)
    {row : ShortcutTokenRow}
    (h : Stands (fun q => ∃ row', row'.Same row ∧ q = .replaceShortcutToken row') row.EndedBy t) :
    ∃ w x w', t = w ++ x :: w' ∧ IssuedTo tokenHash row x ∧ ∀ y ∈ w', ¬Ended row.EndedBy y := by
  obtain ⟨w, x, w', rfl, ⟨n, th, q, r, hmade, row', hsame, rfl⟩, hlater⟩ := h
  have hrun' : Run (step tokenHash) (start users) (w ++ x :: (w' ++ u)) s := by simpa using hrun
  obtain ⟨hroute, user, value, now, hacts, hdrew, hread, rfl⟩ := (rule_of_made hrun' hmade).allows
  exact ⟨w, x, w', rfl, ⟨n, th, _, r, hmade, hsame, hroute, user, value, now, hacts, hsame.1,
    hdrew, hread, rfl⟩, hlater⟩

/-- The import of a shortcut runs only for the owner of the bearer token, who may use the
service: the owner created the token in a session, and had not replaced or deleted it when it
answered the request. -/
theorem import_bears_token (hrun : Run (step tokenHash) (start users) (u ++ x :: v) s)
    {user : Auth.User} {r : Nat × Body} (h : Made x n th ⟨.handle .shortcutImport user, r⟩) :
    shortcutOwnerAllowed th.task.config user = true ∧
      ∃ (token : Text) (row : ShortcutTokenRow),
        bearerToken th.task.request.authorization = some token ∧ row.tokenHash = tokenHash token ∧
        row.userID = user.id ∧ ∃ u₁ y u₂, u = u₁ ++ y :: u₂ ∧
          Answers n (.sql (.resolveShortcutToken (tokenHash token)))
            (some (some (tokenHash token, user))) y ∧
          Since (IssuedTo tokenHash row) (Ended row.EndedBy) u₁ := by
  obtain ⟨-, hbears⟩ := (rule_of_made hrun h).allows
  rw [if_pos rfl] at hbears
  obtain ⟨-, hallowed, token, htoken, hmem⟩ := hbears
  obtain ⟨u₁, y, u₂, rfl, hanswers⟩ := answers_of_mem hrun h hmem
  have hrun' : Run (step tokenHash) (start users) (u₁ ++ y :: (u₂ ++ x :: v)) s := by
    simpa using hrun
  have hresolved := congrArg Prod.fst (Option.some.inj (run_of_answers hrun' hanswers))
  obtain ⟨row, hrow, hhash, hid⟩ := resolveShortcutToken_eq_some hresolved
  exact ⟨hallowed, token, row, htoken, hhash, hid, u₁, y, u₂, rfl, hanswers,
    issuedTo_of_stands hrun' (stands_token hrun'.at_entry.1 hrow)⟩

section Example

def importsAs (id : Text) : Sigma Call.Reply → Bool
  | ⟨.handle .shortcutImport user, _⟩ => user.id == id
  | _ => false

theorem eq_of_importsAs {id : Text} {o : Sigma Call.Reply} (h : importsAs id o = true) :
    ∃ user r, user.id = id ∧ o = ⟨.handle .shortcutImport user, r⟩ := by
  unfold importsAs at h
  split at h
  · exact ⟨_, _, beq_iff_eq.mp h, rfl⟩
  · cases h

theorem import_bears_token_example :
    ∃ u x v s, Run (step knownHash) (start ∅) (u ++ x :: v) s ∧
      x.response.any (importsAs "a".toList) = true ∧
      ∃ row : ShortcutTokenRow, row.userID = "a".toList ∧ ∃ u₁ y u₂, u = u₁ ++ y :: u₂ ∧
        Since (IssuedTo knownHash row) (Ended row.EndedBy) u₁ := by
  obtain ⟨t, s, hrun, hp⟩ : ∃ t s, Run (step knownHash) (start ∅) t s ∧
      (t.any fun x => x.response.any (importsAs "a".toList)) = true :=
    exists_run exampleEvents (by decide +kernel)
  obtain ⟨u, x, v, n, th, o, rfl, hmade, ho⟩ := exists_made hrun hp
  obtain ⟨user, r, hid, rfl⟩ := eq_of_importsAs ho
  obtain ⟨-, token, row, -, -, huser, u₁, y, u₂, hu, -, hsince⟩ := import_bears_token hrun hmade
  refine ⟨u, x, v, s, hrun, ?_, row, huser.trans hid, u₁, y, u₂, hu, hsince⟩
  rw [hmade.response]
  exact ho

end Example

theorem owner_of_bears (hdistinct : Distinct tokenHash (u ++ x :: v))
    (hrun : Run (step tokenHash) (start users) (u ++ x :: v) s) {row : ShortcutTokenRow}
    (hrow : row ∈ s.shared.shortcutTokens) (h : Made x n th o) {user : Auth.User} {token : Text}
    (hbears : Bears tokenHash th.task th.past user)
    (htoken : bearerToken th.task.request.authorization = some token)
    (hhash : row.tokenHash = tokenHash token) : user.id = row.userID := by
  obtain ⟨-, -, token', htoken', hmem⟩ := hbears
  obtain rfl := Option.some.inj (htoken.symm.trans htoken')
  obtain ⟨u₁, y, u₂, rfl, hanswers⟩ := answers_of_mem hrun h hmem
  have hrun' : Run (step tokenHash) (start users) (u₁ ++ y :: (u₂ ++ x :: v)) s := by
    simpa using hrun
  have hresolved := congrArg Prod.fst (Option.some.inj (run_of_answers hrun' hanswers))
  obtain ⟨row', hrow', hhash', hid⟩ := resolveShortcutToken_eq_some hresolved
  obtain ⟨r, hr, hr'⟩ := token_of_hash hdistinct hrun (stands_token hrun hrow)
    (stands_token hrun'.at_entry.1 hrow') (by simp) (hhash'.trans hhash.symm)
  rw [← hid, ← hr'.1, hr.1]

/-- The last use of a shortcut token is one of this token, never of the one it replaced, and
by a request that was answered with the owner of the token. -/
theorem last_use_of_token (hrun : Run (step tokenHash) (start users) t s) {row : ShortcutTokenRow}
    (hrow : row ∈ s.shared.shortcutTokens) {now : Time} (huse : row.lastUsedAt = some now) :
    Since (fun x => ∃ n th r token, Made x n th ⟨.sql (.touchShortcutToken row.tokenHash now), r⟩ ∧
        bearerToken th.task.request.authorization = some token ∧ row.tokenHash = tokenHash token ∧
        ∃ user, Bears tokenHash th.task th.past user ∧
          (Distinct tokenHash t → user.id = row.userID))
      (Ended row.EndedBy) t := by
  have hstands : Stands
      (fun q => q = .touchShortcutToken row.tokenHash now ∨
        ∃ row', row'.lastUsedAt = some now ∧ q = .replaceShortcutToken row') row.EndedBy t := by
    refine stands (P := fun db => ∃ row' ∈ db.shortcutTokens, row'.Same row ∧
      row'.lastUsedAt = some now) hrun ?_ (fun _ _ h => h) ?_ ⟨row, hrow, ⟨rfl, rfl, rfl⟩, huse⟩
    · intro q db a db' hq hP
      obtain ⟨row', hrow', hsame, huse'⟩ := hP
      obtain rfl | ⟨old, hold, hsame', hended, hlast⟩ := run_shortcutTokens hq hrow'
      · exact Or.inl (Or.inr ⟨row', huse', rfl⟩)
      · obtain hkept | ⟨later, hlater, rfl⟩ := hlast
        · refine Or.inr ⟨⟨old, hold, hsame'.trans hsame, hkept.symm.trans huse'⟩, ?_⟩
          rwa [← hsame.endedBy q]
        · left
          left
          rw [huse', Option.some.injEq] at hlater
          rw [hlater, hsame.2.1]
    · rintro ⟨row', hrow', -⟩
      exact Table.not_mem_empty _ hrow'
  refine hstands.mono ?_ fun _ _ hended => hended
  rintro x hx ⟨n, th, q, r, hmade, hq⟩
  obtain ⟨w, w', rfl⟩ := List.append_of_mem hx
  have hrule := rule_of_made hrun hmade
  obtain rfl | ⟨row', huse', rfl⟩ := hq
  · obtain ⟨-, user, token, hbears, htoken, hhash⟩ := hrule.allows
    refine ⟨n, th, r, token, hmade, htoken, hhash, user, hbears, fun hdistinct => ?_⟩
    exact owner_of_bears hdistinct hrun hrow hmade hbears htoken hhash
  · obtain ⟨-, user, value, later, -, -, -, rfl⟩ := hrule.allows
    cases huse'

theorem last_use_of_token_example :
    ∃ t s, Run (step knownHash) (start ∅) t s ∧ ∃ row ∈ s.shared.shortcutTokens,
      row.lastUsedAt = some 5000 ∧
      Since (fun x => ∃ n th r token,
          Made x n th ⟨.sql (.touchShortcutToken row.tokenHash 5000), r⟩ ∧
          bearerToken th.task.request.authorization = some token ∧
          row.tokenHash = knownHash token ∧ ∃ user, Bears knownHash th.task th.past user ∧
            (Distinct knownHash t → user.id = row.userID))
        (Ended row.EndedBy) t := by
  obtain ⟨t, s, hrun, hp⟩ : ∃ t s, Run (step knownHash) (start ∅) t s ∧
      s.shared.shortcutTokens.rows.any (·.lastUsedAt == some 5000) = true :=
    exists_run
      (p := fun _ (s : System) => s.shared.shortcutTokens.rows.any (·.lastUsedAt == some 5000))
      exampleEvents (by decide +kernel)
  obtain ⟨row, hrow, huse⟩ := List.any_eq_true.mp hp
  rw [beq_iff_eq] at huse
  exact ⟨t, s, hrun, row, hrow, huse, last_use_of_token hrun hrow huse⟩

theorem passes_of_run (hrun : Run (step tokenHash) (start users) t s)
    (hth : s.threads[n]? = some th) (hpast : th.past ≠ []) : Passes th.task := by
  have hall : Pool.Keeps (Rule tokenHash) (Outcome tokenHash) s ∧
      ∀ (n : Nat) (th : RequestThread), s.threads[n]? = some th → th.past ≠ [] →
        Passes th.task := by
    refine hrun.invariant (P := fun s => Pool.Keeps (Rule tokenHash) (Outcome tokenHash) s ∧
      ∀ (n : Nat) (th : RequestThread), s.threads[n]? = some th → th.past ≠ [] →
        Passes th.task) ?_ ⟨keeps_of_run .nil, fun n th h => by cases h⟩
    intro p e a q hp hstep
    refine ⟨Pool.keeps_step (fun task => main_meets tokenHash task) hp.1 hstep, ?_⟩
    intro n th hth hpast
    obtain hold | ⟨task, -, -, rfl⟩ | ⟨_, task, past, c, next, r, -, -, hold, rfl⟩ :=
      Pool.threads_cases (Pool.move_of_step hstep) hth
    · exact hp.2 n th hold hpast
    · exact absurd rfl hpast
    · exact (hp.1 n _ hold).1.passes
  exact hall.2 n th hth hpast

/-- Whatever the other requests do: a request makes calls only if it reaches the handler of
its route, as one that would change state from a foreign origin does not; and what a response
says is so. A session cookie is of a session that the request created or that answered it,
and ends with it; a callback either redirects into the application with a session, or counts
one failure and sets none. -/
theorem response_outcome (hrun : Run (step tokenHash) (start users) t s)
    (hth : s.threads[n]? = some th) :
    (th.past ≠ [] → Passes th.task) ∧
      ∀ response, th.left = .done response → Outcome tokenHash th.task th.past response := by
  refine ⟨passes_of_run hrun hth, ?_⟩
  intro response hleft
  have hkeeps := keeps_of_run hrun n th hth
  rwa [hleft] at hkeeps

section Example

def signedIn : Prog Response → Bool
  | .done response => response.sessionCookie.isSome &&
      response.location == some (.frontend "https://noted.test/pieces/7".toList)
  | _ => false

theorem eq_of_signedIn {left : Prog Response} (h : signedIn left = true) :
    ∃ response, left = .done response ∧ response.sessionCookie.isSome = true ∧
      response.location = some (.frontend "https://noted.test/pieces/7".toList) := by
  unfold signedIn at h
  split at h
  · rw [Bool.and_eq_true, beq_iff_eq] at h
    exact ⟨_, rfl, h⟩
  · cases h

theorem response_outcome_example :
    ∃ t s th response, Run (step knownHash) (start ∅) t s ∧ s.threads[1]? = some th ∧
      th.left = .done response ∧ response.sessionCookie.isSome = true ∧
      Passes th.task ∧ Outcome knownHash th.task th.past response := by
  obtain ⟨t, s, hrun, hp⟩ : ∃ t s, Run (step knownHash) (start ∅) t s ∧
      s.threads[1]?.any (fun th : RequestThread => !th.past.isEmpty && signedIn th.left) = true :=
    exists_run (p := fun _ (s : System) =>
        s.threads[1]?.any (fun th : RequestThread => !th.past.isEmpty && signedIn th.left))
      signInEvents (by decide +kernel)
  obtain ⟨th, hth, hdone⟩ := (Option.any_eq_true _ _).mp hp
  rw [Bool.and_eq_true, Bool.not_eq_true', List.isEmpty_eq_false_iff] at hdone
  obtain ⟨response, hleft, hcookie, -⟩ := eq_of_signedIn hdone.2
  obtain ⟨hpasses, houtcome⟩ := response_outcome hrun hth
  exact ⟨t, s, th, response, hrun, hth, hleft, hcookie, hpasses hdone.1, houtcome response hleft⟩

end Example

/-- A completed sign-in redirects to where its start asked for, on the application's own host:
its URL is the application's with the path of a start in this run. -/
theorem callback_returns (hrun : Run (step tokenHash) (start users) t s)
    (hth : s.threads[n]? = some th) {response : Response} (hleft : th.left = .done response)
    {url : Text} (hlocation : response.location = some (.frontend url)) :
    ∃ x ∈ t, ∃ m start row r, Made x m start ⟨.sql (.insertState row), r⟩ ∧
      start.task.request.route = .startGoogleLogin ∧
      row.stateHash = tokenHash th.task.request.state ∧
      url = trimRightSlash th.task.config.frontendURL ++
        safeReturnPath start.task.request.returnTo ∧
      LocalPath (safeReturnPath start.task.request.returnTo) := by
  have houtcome := (response_outcome hrun hth).2 response hleft
  obtain ⟨now, path, hmem, rfl⟩ := houtcome.location url hlocation
  obtain ⟨y, hy, hanswer⟩ := (Pool.mem_past hrun hth).mp hmem
  obtain ⟨u, v, rfl⟩ := List.append_of_mem hy
  obtain ⟨row, hhash, -, hpath, hstands⟩ := state_of_consumed hrun hanswer
  obtain ⟨w, x, w', rfl, hissued, -⟩ := issuedByLogin_of_stands hrun hstands
  obtain ⟨m, start, r, hmade, hroute, value, later, -, -, rfl⟩ := hissued
  refine ⟨x, by simp, m, start, _, r, hmade, hroute, hhash, ?_, safeReturnPath_local _⟩
  rw [← hpath, safeReturnPath_idem]

theorem callback_returns_example :
    ∃ t s, Run (step knownHash) (start ∅) t s ∧ ∃ x ∈ t, ∃ m start row r,
      Made x m start ⟨.sql (.insertState row), r⟩ ∧ start.task.request.route = .startGoogleLogin ∧
      "https://noted.test/pieces/7".toList =
        trimRightSlash exampleConfig.frontendURL ++ safeReturnPath start.task.request.returnTo := by
  obtain ⟨t, s, hrun, hp⟩ : ∃ t s, Run (step knownHash) (start ∅) t s ∧
      s.threads[1]?.any (fun th => th.task.config.frontendURL == exampleConfig.frontendURL &&
        signedIn th.left) = true :=
    exists_run (p := fun _ (s : System) => s.threads[1]?.any (fun th =>
        th.task.config.frontendURL == exampleConfig.frontendURL && signedIn th.left))
      signInEvents (by decide +kernel)
  obtain ⟨th, hth, hdone⟩ := (Option.any_eq_true _ _).mp hp
  rw [Bool.and_eq_true, beq_iff_eq] at hdone
  obtain ⟨response, hleft, -, hlocation⟩ := eq_of_signedIn hdone.2
  obtain ⟨x, hx, m, start, row, r, hmade, hroute, -, hurl, -⟩ :=
    callback_returns hrun hth hleft hlocation
  rw [hdone.1] at hurl
  exact ⟨t, s, hrun, x, hx, m, start, row, r, hmade, hroute, hurl⟩

end Noted.Sessions
