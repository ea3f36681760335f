import Noted.Sessions.Access

/-!
# What is stored answers until it is ended

Every session and every shortcut token has its user, since no statement removes one. A
session, a login state or a shortcut token that was stored therefore answers the next
request that presents it in time, unless a statement that ends it was made in between.
-/

namespace Noted.Sessions

open Library

variable {db db' : Db} {q : Statement} {a : q.Result}

section Keeping

theorem session_kept (h : q.run db = some (a, db')) {row : SessionRow}
    (hrow : row ∈ db.userSessions) (hended : ¬row.EndedBy q) : row ∈ db'.userSessions := by
  cases q with
  | insertSession new =>
    obtain ⟨db'', hdb, heq⟩ := Option.map_eq_some_iff.mp h
    obtain ⟨-, rfl⟩ := Prod.mk.inj heq
    obtain ⟨t, ht, rfl⟩ := insertSession_eq_some hdb
    exact (Table.mem_insert? ht).mpr (Or.inl hrow)
  | deleteExpiredSessions now =>
    obtain ⟨-, rfl⟩ := Prod.mk.inj (Option.some.inj h)
    exact Table.mem_delete.mpr ⟨hrow, by simpa [SessionRow.EndedBy] using hended⟩
  | deleteUserSessions id | deleteSession hash =>
    obtain ⟨-, rfl⟩ := Prod.mk.inj (Option.some.inj h)
    exact Table.mem_delete.mpr ⟨hrow, beq_eq_false_iff_ne.mpr (Ne.symm hended)⟩
  | _ =>
    obtain ⟨-, -, heq | ⟨_, hq⟩ | ⟨_, hq⟩ | ⟨_, hq⟩ | ⟨_, hq⟩, -⟩ := run_keeps h
    · rwa [heq]
    · cases hq
    · cases hq
    · cases hq
    · cases hq

theorem state_kept (h : q.run db = some (a, db')) {row : LoginStateRow}
    (hrow : row ∈ db.loginStates) (hended : ¬row.EndedBy q) : row ∈ db'.loginStates := by
  cases q with
  | insertState new =>
    obtain ⟨db'', hdb, heq⟩ := Option.map_eq_some_iff.mp h
    obtain ⟨-, rfl⟩ := Prod.mk.inj heq
    obtain ⟨t, ht, rfl⟩ := insertState_eq_some hdb
    exact (Table.mem_insert? ht).mpr (Or.inl hrow)
  | deleteExpiredStates now =>
    obtain ⟨-, rfl⟩ := Prod.mk.inj (Option.some.inj h)
    exact Table.mem_delete.mpr ⟨hrow, by simpa [LoginStateRow.EndedBy] using hended⟩
  | consumeState hash now =>
    obtain ⟨-, rfl⟩ := Prod.mk.inj (Option.some.inj h)
    refine Table.mem_delete.mpr ⟨hrow, Bool.eq_false_iff.mpr fun hconsumed => hended ?_⟩
    simp only [Bool.and_eq_true, beq_iff_eq, decide_eq_true_eq] at hconsumed
    exact ⟨hconsumed.1.symm, hconsumed.2⟩
  | _ =>
    obtain ⟨-, heq | ⟨_, hq⟩ | ⟨_, _, hq⟩ | ⟨_, hq⟩, -, -⟩ := run_keeps h
    · rwa [heq]
    · cases hq
    · cases hq
    · cases hq

theorem token_kept (h : q.run db = some (a, db')) {row : ShortcutTokenRow}
    (hrow : row ∈ db.shortcutTokens) (hended : ¬row.EndedBy q) :
    ∃ row' ∈ db'.shortcutTokens, row.Same row' := by
  cases q with
  | replaceShortcutToken new =>
    obtain ⟨db'', hdb, heq⟩ := Option.map_eq_some_iff.mp h
    obtain ⟨-, rfl⟩ := Prod.mk.inj heq
    obtain ⟨t, ht, rfl⟩ := replaceShortcutToken_eq_some hdb
    have hkept : row ∈ db.shortcutTokens.delete fun r => r.userID == new.userID :=
      Table.mem_delete.mpr ⟨hrow, beq_eq_false_iff_ne.mpr (Ne.symm hended)⟩
    exact ⟨row, (Table.mem_insert? ht).mpr (Or.inl hkept), rfl, rfl, rfl⟩
  | deleteShortcutToken id =>
    obtain ⟨-, rfl⟩ := Prod.mk.inj (Option.some.inj h)
    have hkept : row ∈ db.shortcutTokens.delete fun r => r.userID == id :=
      Table.mem_delete.mpr ⟨hrow, beq_eq_false_iff_ne.mpr (Ne.symm hended)⟩
    exact ⟨row, hkept, rfl, rfl, rfl⟩
  | touchShortcutToken hash now =>
    obtain ⟨-, rfl⟩ := Prod.mk.inj (Option.some.inj h)
    refine ⟨_, mem_touchShortcutToken.mpr ⟨row, hrow, rfl⟩, ?_⟩
    split
    · exact ⟨rfl, rfl, rfl⟩
    · exact ⟨rfl, rfl, rfl⟩
  | _ =>
    obtain ⟨-, -, -, heq | ⟨_, hq⟩ | ⟨_, hq⟩ | ⟨_, _, hq⟩⟩ := run_keeps h
    · exact ⟨row, heq ▸ hrow, rfl, rfl, rfl⟩
    · cases hq
    · cases hq
    · cases hq

end Keeping

def HasUser (db : Db) (id : Text) : Prop := ∃ u ∈ db.auth.users, u.id = id

/-- The foreign keys of the tables, and the unique index on the hashes of shortcut tokens. -/
structure Sound (db : Db) : Prop where
  sessions : ∀ r ∈ db.userSessions, HasUser db r.userID
  tokens : ∀ r ∈ db.shortcutTokens, HasUser db r.userID
  unique : ∀ r ∈ db.shortcutTokens, ∀ r' ∈ db.shortcutTokens, r.tokenHash = r'.tokenHash → r = r'

theorem HasUser.user? {id : Text} (h : HasUser db id) : ∃ user, db.user? id = some user := by
  obtain ⟨u, hu, hid⟩ := h
  cases hfind : db.auth.users.find? fun u => u.id == id with
  | none =>
    have hno := Table.find?_eq_none.mp hfind u hu
    simp [hid] at hno
  | some u' => exact ⟨u'.user, by simp [Db.user?, hfind]⟩

theorem hasUser_of_user? {id : Text} (h : (db.user? id).isSome = true) : HasUser db id := by
  obtain ⟨user, huser⟩ := Option.isSome_iff_exists.mp h
  obtain ⟨u, hu, -⟩ := Option.map_eq_some_iff.mp huser
  have hid := Table.prop_of_find? hu
  exact ⟨u, Table.mem_of_find? hu, beq_iff_eq.mp hid⟩

theorem user_stays {c : Auth.Service} {σ σ' : Auth.State} {e : Auth.Event} {answer : Auth.Answer}
    (hstep : Auth.step c σ e = some (answer, σ')) {u : Auth.UserRow} (hu : u ∈ σ.users) :
    ∃ u' ∈ σ'.users, u'.id = u.id := by
  cases Auth.move_of_step hstep with
  | start | miss | write | fail | abort => exact ⟨u, hu, rfl⟩
  | @commit n answered request row hcall =>
    by_cases hid : u.id = row.id
    · exact ⟨row, Table.mem_put.mpr (Or.inl rfl), hid.symm⟩
    · exact ⟨u, Table.mem_put.mpr (Or.inr ⟨hu, hid⟩), rfl⟩

theorem HasUser.of_auth {c : Auth.Service} {auth : Auth.State} {e : Auth.Event}
    {answer : Auth.Answer} (hstep : Auth.step c db.auth e = some (answer, auth)) {id : Text}
    (h : HasUser db id) : HasUser { db with auth := auth } id := by
  obtain ⟨u, hu, rfl⟩ := h
  exact user_stays hstep hu

theorem HasUser.of_run (hrun : q.run db = some (a, db')) {id : Text} (h : HasUser db id) :
    HasUser db' id := by
  rwa [HasUser, (run_keeps hrun).1]

theorem Sound.run (hsound : Sound db) (hrun : q.run db = some (a, db')) : Sound db' where
  sessions r hr := by
    obtain rfl | ⟨hold, -⟩ := run_userSessions hrun hr
    · refine HasUser.of_run hrun (hasUser_of_user? ?_)
      obtain ⟨db'', hdb, -⟩ := Option.map_eq_some_iff.mp hrun
      unfold Db.insertSession at hdb
      split at hdb
      · assumption
      · cases hdb
    · exact (hsound.sessions r hold).of_run hrun
  tokens r hr := by
    obtain rfl | ⟨old, hold, hsame, -⟩ := run_shortcutTokens hrun hr
    · refine HasUser.of_run hrun (hasUser_of_user? ?_)
      obtain ⟨db'', hdb, -⟩ := Option.map_eq_some_iff.mp hrun
      simp only [Db.replaceShortcutToken] at hdb
      split at hdb
      · rename_i hcond
        exact (Bool.and_eq_true_iff.mp hcond).1
      · cases hdb
    · rw [← hsame.1]
      exact (hsound.tokens old hold).of_run hrun
  unique := by
    cases q with
    | replaceShortcutToken new =>
      obtain ⟨db'', hdb, heq⟩ := Option.map_eq_some_iff.mp hrun
      obtain ⟨-, rfl⟩ := Prod.mk.inj heq
      have hfree : ∀ r ∈ db.shortcutTokens.delete fun r => r.userID == new.userID,
          r.tokenHash ≠ new.tokenHash := by
        intro r hr hhash
        simp only [Db.replaceShortcutToken] at hdb
        split at hdb
        · rename_i hcond
          obtain ⟨-, hnone⟩ := Bool.and_eq_true_iff.mp hcond
          rw [Bool.not_eq_true', ← Bool.not_eq_true, List.any_eq_true] at hnone
          exact hnone ⟨r, hr, beq_iff_eq.mpr hhash⟩
        · cases hdb
      obtain ⟨t, ht, rfl⟩ := replaceShortcutToken_eq_some hdb
      intro r hr r' hr' hhash
      obtain hr | rfl := (Table.mem_insert? ht).mp hr
      · obtain hr' | rfl := (Table.mem_insert? ht).mp hr'
        · exact hsound.unique r (Table.mem_delete.mp hr).1 r' (Table.mem_delete.mp hr').1 hhash
        · exact absurd hhash (hfree r hr)
      · obtain hr' | rfl := (Table.mem_insert? ht).mp hr'
        · exact absurd hhash.symm (hfree r' hr')
        · rfl
    | deleteShortcutToken id =>
      obtain ⟨-, rfl⟩ := Prod.mk.inj (Option.some.inj hrun)
      intro r hr r' hr'
      exact hsound.unique r (Table.mem_delete.mp hr).1 r' (Table.mem_delete.mp hr').1
    | touchShortcutToken hash now =>
      obtain ⟨-, rfl⟩ := Prod.mk.inj (Option.some.inj hrun)
      have htouched : ∀ r ∈ (db.touchShortcutToken hash now).shortcutTokens,
          ∃ old ∈ db.shortcutTokens, old.tokenHash = r.tokenHash ∧
            r = if old.tokenHash == hash then { old with lastUsedAt := some now } else old := by
        intro r hr
        obtain ⟨old, hold, rfl⟩ := mem_touchShortcutToken.mp hr
        refine ⟨old, hold, ?_, rfl⟩
        split
        · rfl
        · rfl
      intro r hr r' hr' hhash
      obtain ⟨old, hold, hsame, rfl⟩ := htouched r hr
      obtain ⟨old', hold', hsame', rfl⟩ := htouched r' hr'
      rw [hsound.unique old hold old' hold' (hsame.trans (hhash.trans hsame'.symm))]
    | _ =>
      obtain ⟨-, -, -, heq | ⟨_, hq⟩ | ⟨_, hq⟩ | ⟨_, _, hq⟩⟩ := run_keeps hrun
      · rw [heq]
        exact hsound.unique
      · cases hq
      · cases hq
      · cases hq

theorem Sound.exec {call : Call} {r : call.Reply} {choice : Choice} (hsound : Sound db)
    (h : exec call choice db = some (r, db')) : Sound db' := by
  cases effect_of_exec h with
  | idle | failed => exact hsound
  | carried hrun => exact hsound.run hrun
  | authStart hstep | authNext hstep =>
    exact ⟨fun r hr => (hsound.sessions r hr).of_auth hstep,
      fun r hr => (hsound.tokens r hr).of_auth hstep, hsound.unique⟩

section Runs

variable {tokenHash : Text → Text} {users : Auth.Users} {t u v : List Step} {s : System}
  {x : Step} {n : Nat}

theorem sound_of_run (hrun : Run (step tokenHash) (start users) t s) : Sound s.shared := by
  refine hrun.invariant (P := fun s => Sound s.shared) ?_ ⟨?_, ?_, ?_⟩
  · intro p e a q hp hstep
    exact Pool.shared_invariant (fun hI hexec => Sound.exec hI hexec) hp hstep
  · exact fun r hr => absurd hr (Table.not_mem_empty r)
  · exact fun r hr => absurd hr (Table.not_mem_empty r)
  · exact fun r hr => absurd hr (Table.not_mem_empty r)

/-- In the step, a statement is made that leaves no such row, whether or not it is answered. -/
def Attempted (ended : Statement → Prop) (x : Step) : Prop :=
  ∃ q r, x.response = some ⟨.sql q, r⟩ ∧ ended q

def Carried (q : Statement) (x : Step) : Prop := ∃ a, x.response = some ⟨.sql q, some a⟩

/-- A condition on the tables that a statement brings about, and that no other ends. -/
theorem holds_of_since {P : Db → Prop} {began : Statement} {ended : Statement → Prop}
    (hbegan : ∀ {db a db'}, began.run db = some (a, db') → P db')
    (hkeep : ∀ {q : Statement} {db a db'}, q.run db = some (a, db') → ¬ended q → P db → P db')
    (hauth : ∀ db auth, P db → P { db with auth := auth })
    (hrun : Run (step tokenHash) (start users) t s)
    (h : Since (Carried began) (Attempted ended) t) : P s.shared := by
  refine hrun.of_since (P := fun s => P s.shared) ?_ ?_ h
  · intro p e r p' hstep hcarried
    obtain ⟨a, hresponse⟩ := hcarried
    cases Pool.move_of_step hstep with
    | begin => cases hresponse
    | advance hthread hexec =>
      obtain ⟨rfl, heq⟩ := Sigma.mk.inj (Option.some.inj hresponse)
      obtain rfl := eq_of_heq heq
      exact hbegan (attempt_answered hexec)
  · intro p e r p' hstep hended hp
    cases Pool.move_of_step hstep with
    | begin => exact hp
    | @advance m choice task past c next r db' hthread hexec =>
      have heffect : Effect p.shared c r db' := effect_of_exec hexec
      cases heffect with
      | idle | failed => exact hp
      | carried hsql => exact hkeep hsql (fun hend => hended ⟨_, _, rfl, hend⟩) hp
      | authStart | authNext => exact hauth _ _ hp

theorem session_answers (hrun : Run (step tokenHash) (start users) (u ++ x :: v) s)
    {row : SessionRow} (hlive : Since (Carried (.insertSession row)) (Attempted row.EndedBy) u)
    {now : Time} (hnow : now < row.expiresAt) {found : Option (Auth.User × Time)}
    (h : Answers n (.sql (.resolveSession row.tokenHash now)) (some found) x) :
    ∃ user, found = some (user, row.expiresAt) ∧ user.id = row.userID := by
  have hprior := hrun.at_entry.1
  have hrow : row ∈ x.before.shared.userSessions := by
    refine holds_of_since (P := fun db => row ∈ db.userSessions) ?_ ?_ (fun _ _ h => h) hprior hlive
    · intro db a db' hinsert
      obtain ⟨db'', hdb, heq⟩ := Option.map_eq_some_iff.mp hinsert
      obtain ⟨-, rfl⟩ := Prod.mk.inj heq
      obtain ⟨t, ht, rfl⟩ := insertSession_eq_some hdb
      exact (Table.mem_insert? ht).mpr (Or.inr rfl)
    · exact fun hq hended hrow => session_kept hq hrow hended
  obtain ⟨user, huser⟩ := ((sound_of_run hprior).sessions row hrow).user?
  have hfind : (x.before.shared.userSessions.find? fun r =>
      r.tokenHash == row.tokenHash && decide (now < r.expiresAt)) = some row := by
    refine (Table.find?_eq_some (k := row.tokenHash) ?_).mpr ⟨hrow, by simp [hnow]⟩
    intro r hr
    exact beq_iff_eq.mp (Bool.and_eq_true_iff.mp hr).1
  have hfound : x.before.shared.resolveSession row.tokenHash now = found :=
    congrArg Prod.fst (Option.some.inj (run_of_answers hrun h))
  refine ⟨user, ?_, user?_eq_some huser⟩
  rw [← hfound]
  simp [Db.resolveSession, hfind, huser]

theorem state_answers (hrun : Run (step tokenHash) (start users) (u ++ x :: v) s)
    {row : LoginStateRow} (hlive : Since (Carried (.insertState row)) (Attempted row.EndedBy) u)
    {now : Time} (hnow : now < row.expiresAt) {found : Option Text}
    (h : Answers n (.sql (.consumeState row.stateHash now)) (some found) x) :
    found = some row.returnPath := by
  have hrow : row ∈ x.before.shared.loginStates := by
    refine holds_of_since (P := fun db => row ∈ db.loginStates) ?_ ?_ (fun _ _ h => h)
      hrun.at_entry.1 hlive
    · intro db a db' hinsert
      obtain ⟨db'', hdb, heq⟩ := Option.map_eq_some_iff.mp hinsert
      obtain ⟨-, rfl⟩ := Prod.mk.inj heq
      obtain ⟨t, ht, rfl⟩ := insertState_eq_some hdb
      exact (Table.mem_insert? ht).mpr (Or.inr rfl)
    · exact fun hq hended hrow => state_kept hq hrow hended
  have hfind : (x.before.shared.loginStates.find? fun r =>
      r.stateHash == row.stateHash && decide (now < r.expiresAt)) = some row := by
    refine (Table.find?_eq_some (k := row.stateHash) ?_).mpr ⟨hrow, by simp [hnow]⟩
    intro r hr
    exact beq_iff_eq.mp (Bool.and_eq_true_iff.mp hr).1
  have hfound : (x.before.shared.consumeState row.stateHash now).1 = found :=
    congrArg Prod.fst (Option.some.inj (run_of_answers hrun h))
  rw [← hfound]
  simp [Db.consumeState, hfind]

theorem token_answers (hrun : Run (step tokenHash) (start users) (u ++ x :: v) s)
    {row : ShortcutTokenRow}
    (hlive : Since (Carried (.replaceShortcutToken row)) (Attempted row.EndedBy) u)
    {found : Option (Text × Auth.User)}
    (h : Answers n (.sql (.resolveShortcutToken row.tokenHash)) (some found) x) :
    ∃ user, found = some (row.tokenHash, user) ∧ user.id = row.userID := by
  have hprior := hrun.at_entry.1
  obtain ⟨row', hrow', huserID, hhash, -⟩ :
      ∃ row' ∈ x.before.shared.shortcutTokens, row.Same row' := by
    refine holds_of_since (P := fun db => ∃ row' ∈ db.shortcutTokens, row.Same row') ?_ ?_
      (fun _ _ h => h) hprior hlive
    · intro db a db' hreplace
      obtain ⟨db'', hdb, heq⟩ := Option.map_eq_some_iff.mp hreplace
      obtain ⟨-, rfl⟩ := Prod.mk.inj heq
      obtain ⟨t, ht, rfl⟩ := replaceShortcutToken_eq_some hdb
      exact ⟨row, (Table.mem_insert? ht).mpr (Or.inr rfl), rfl, rfl, rfl⟩
    · intro q db a db' hq hended hold
      obtain ⟨old, hold, hsame⟩ := hold
      obtain ⟨new, hnew, hsame'⟩ := token_kept hq hold fun hend => hended ((hsame.endedBy q).mpr hend)
      exact ⟨new, hnew, hsame.trans hsame'⟩
  have hsound := sound_of_run hprior
  obtain ⟨user, huser⟩ := (hsound.tokens row' hrow').user?
  have hfind : (x.before.shared.shortcutTokens.find? fun r => r.tokenHash == row.tokenHash) =
      some row' := by
    cases hfound : x.before.shared.shortcutTokens.find? fun r => r.tokenHash == row.tokenHash with
    | none =>
      have hno := Table.find?_eq_none.mp hfound row' hrow'
      simp [hhash] at hno
    | some r =>
      have hr := Table.prop_of_find? hfound
      rw [hsound.unique r (Table.mem_of_find? hfound) row' hrow' ((beq_iff_eq.mp hr).trans hhash)]
  have hfound : x.before.shared.resolveShortcutToken row.tokenHash = found :=
    congrArg Prod.fst (Option.some.inj (run_of_answers hrun h))
  refine ⟨user, ?_, (user?_eq_some huser).trans huserID.symm⟩
  rw [← hfound, Db.resolveShortcutToken, hfind, hhash]
  simp [huser]

/-- A session that a callback stored, a state that a sign-in stored and a shortcut token that
its user created answer whoever presents them in time, until a statement that ends them is
made: nobody is signed out, sent back or turned away by what other requests do. -/
theorem stored_answers (hrun : Run (step tokenHash) (start users) (u ++ x :: v) s) :
    (∀ row : SessionRow, Since (Carried (.insertSession row)) (Attempted row.EndedBy) u →
      ∀ now < row.expiresAt, ∀ found,
        Answers n (.sql (.resolveSession row.tokenHash now)) (some found) x →
          ∃ user, found = some (user, row.expiresAt) ∧ user.id = row.userID) ∧
    (∀ row : LoginStateRow, Since (Carried (.insertState row)) (Attempted row.EndedBy) u →
      ∀ now < row.expiresAt, ∀ found,
        Answers n (.sql (.consumeState row.stateHash now)) (some found) x →
          found = some row.returnPath) ∧
    ∀ row : ShortcutTokenRow,
      Since (Carried (.replaceShortcutToken row)) (Attempted row.EndedBy) u → ∀ found,
        Answers n (.sql (.resolveShortcutToken row.tokenHash)) (some found) x →
          ∃ user, found = some (row.tokenHash, user) ∧ user.id = row.userID := by
  refine ⟨?_, ?_, ?_⟩
  · intro row hlive now hnow found h
    exact session_answers hrun hlive hnow h
  · intro row hlive now hnow found h
    exact state_answers hrun hlive hnow h
  · intro row hlive found h
    exact token_answers hrun hlive h

end Runs

section Example

def exampleToken : ShortcutTokenRow := ⟨"a".toList, knownHash bearer, 4000, none⟩

def createsToken : Sigma Call.Reply → Bool
  | ⟨.sql (.replaceShortcutToken row), some _⟩ => row == exampleToken
  | _ => false

def presentsToken : Sigma Call.Reply → Bool
  | ⟨.sql (.resolveShortcutToken hash), some _⟩ => hash == exampleToken.tokenHash
  | _ => false

theorem carried_of_createsToken {y : Step} (h : y.response.any createsToken = true) :
    Carried (.replaceShortcutToken exampleToken) y := by
  obtain ⟨o, ho, hcreates⟩ := (Option.any_eq_true _ _).mp h
  unfold createsToken at hcreates
  split at hcreates
  · rw [beq_iff_eq] at hcreates
    subst hcreates
    exact ⟨_, ho⟩
  · cases hcreates

theorem eq_of_presentsToken {o : Sigma Call.Reply} (h : presentsToken o = true) :
    ∃ found, o = ⟨.sql (.resolveShortcutToken exampleToken.tokenHash), some found⟩ := by
  unfold presentsToken at h
  split at h
  · rw [beq_iff_eq] at h
    subst h
    exact ⟨_, rfl⟩
  · cases h

def usesToken : List Step → Bool
  | [y, z, x] =>
    y.response.any createsToken && z.response.isNone && x.response.any presentsToken
  | _ => false

theorem eq_of_usesToken {w : List Step} (h : usesToken w = true) :
    ∃ y z x, w = [y, z, x] ∧ y.response.any createsToken = true ∧ z.response = none ∧
      x.response.any presentsToken = true := by
  unfold usesToken at h
  split at h
  · rw [Bool.and_eq_true, Bool.and_eq_true, Option.isNone_iff_eq_none] at h
    exact ⟨_, _, _, rfl, h.1.1, h.1.2, h.2⟩
  · cases h

theorem stored_answers_example :
    ∃ u x v s n user, Run (step knownHash) (start ∅) (u ++ x :: v) s ∧
      Answers n (.sql (.resolveShortcutToken exampleToken.tokenHash))
        (some (some (exampleToken.tokenHash, user))) x ∧ user.id = "a".toList := by
  obtain ⟨t, s, hrun, hp⟩ : ∃ t s, Run (step knownHash) (start ∅) t s ∧
      usesToken (t.drop 24) = true :=
    exists_run (p := fun t _ => usesToken (t.drop 24)) (exampleEvents.take 27) (by decide +kernel)
  obtain ⟨y, z, x, hw, hy, hz, hx⟩ := eq_of_usesToken hp
  have ht : t = (t.take 24 ++ y :: [z]) ++ x :: [] := by
    calc t = t.take 24 ++ t.drop 24 := (List.take_append_drop 24 t).symm
      _ = _ := by rw [hw]; simp
  rw [ht] at hrun
  obtain ⟨o, ho, hpresents⟩ := (Option.any_eq_true _ _).mp hx
  obtain ⟨found, rfl⟩ := eq_of_presentsToken hpresents
  obtain ⟨n, th, hmade⟩ := made_of_response hrun ho
  obtain ⟨choice, hevent⟩ := hmade.event
  have hanswer := Pool.answerOf_eq_some.mpr ⟨choice, hevent, ho⟩
  have hlive : Since (Carried (.replaceShortcutToken exampleToken))
      (Attempted exampleToken.EndedBy) (t.take 24 ++ y :: [z]) := by
    refine ⟨_, y, [z], rfl, carried_of_createsToken hy, ?_⟩
    intro z' hz' hattempted
    obtain ⟨q, r, hresponse, -⟩ := hattempted
    rw [List.mem_singleton.mp hz', hz] at hresponse
    cases hresponse
  obtain ⟨user, rfl, hid⟩ := (stored_answers hrun).2.2 exampleToken hlive found hanswer
  exact ⟨_, x, [], s, n, user, hrun, hanswer, hid⟩

end Example

end Noted.Sessions
