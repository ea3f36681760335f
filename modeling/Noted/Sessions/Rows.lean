import Noted.Library.Since
import Noted.Sessions.Handlers

/-!
# What a call does to the rows

For each table, a row after a statement is one that the statement has put there, or one
that was there and that the statement has not ended.
-/

namespace Noted.Sessions

open Library

def SessionRow.EndedBy (row : SessionRow) : Statement → Prop
  | .deleteSession tokenHash => tokenHash = row.tokenHash
  | .deleteUserSessions userID => userID = row.userID
  | .deleteExpiredSessions now => row.expiresAt ≤ now
  | _ => False

/-- The statement leaves no such state: it consumes it, or removes it as expired. -/
def LoginStateRow.EndedBy (row : LoginStateRow) : Statement → Prop
  | .consumeState stateHash now => stateHash = row.stateHash ∧ now < row.expiresAt
  | .deleteExpiredStates now => row.expiresAt ≤ now
  | _ => False

def ShortcutTokenRow.EndedBy (row : ShortcutTokenRow) : Statement → Prop
  | .replaceShortcutToken new => new.userID = row.userID
  | .deleteShortcutToken userID => userID = row.userID
  | _ => False

/-- Two rows are of one token; only the use that they record may differ. -/
def ShortcutTokenRow.Same (row row' : ShortcutTokenRow) : Prop :=
  row.userID = row'.userID ∧ row.tokenHash = row'.tokenHash ∧ row.createdAt = row'.createdAt

theorem ShortcutTokenRow.Same.trans {r r' r'' : ShortcutTokenRow} (h : r.Same r')
    (h' : r'.Same r'') : r.Same r'' :=
  ⟨h.1.trans h'.1, h.2.1.trans h'.2.1, h.2.2.trans h'.2.2⟩

theorem ShortcutTokenRow.Same.endedBy {r r' : ShortcutTokenRow} (h : r.Same r') (q : Statement) :
    r.EndedBy q ↔ r'.EndedBy q := by
  cases q <;> simp [ShortcutTokenRow.EndedBy, h.1]

variable {db db' : Db} {choice : Choice} {q : Statement} {a : q.Result}

section Statements

theorem insertState_eq_some {row : LoginStateRow} (h : db.insertState row = some db') :
    ∃ t, db.loginStates.insert? row = some t ∧ db' = { db with loginStates := t } := by
  unfold Db.insertState at h
  split at h
  · obtain ⟨t, ht, heq⟩ := Option.map_eq_some_iff.mp h
    exact ⟨t, ht, heq.symm⟩
  · cases h

theorem insertSession_eq_some {row : SessionRow} (h : db.insertSession row = some db') :
    ∃ t, db.userSessions.insert? row = some t ∧ db' = { db with userSessions := t } := by
  unfold Db.insertSession at h
  split at h
  · obtain ⟨t, ht, heq⟩ := Option.map_eq_some_iff.mp h
    exact ⟨t, ht, heq.symm⟩
  · cases h

theorem replaceShortcutToken_eq_some {row : ShortcutTokenRow}
    (h : db.replaceShortcutToken row = some db') :
    ∃ t, (db.shortcutTokens.delete fun r => r.userID == row.userID).insert? row = some t ∧
      db' = { db with shortcutTokens := t } := by
  simp only [Db.replaceShortcutToken] at h
  split at h
  · obtain ⟨t, ht, heq⟩ := Option.map_eq_some_iff.mp h
    exact ⟨t, ht, heq.symm⟩
  · cases h

theorem mem_touchShortcutToken {hash : Text} {now : Time} {row : ShortcutTokenRow} :
    row ∈ (db.touchShortcutToken hash now).shortcutTokens ↔
      ∃ old ∈ db.shortcutTokens,
        row = if old.tokenHash == hash then { old with lastUsedAt := some now } else old := by
  have hmodify : row ∈ db.shortcutTokens.modify (fun r => r.tokenHash == hash)
      (fun r => { r with lastUsedAt := some now }) (fun _ => rfl) ↔ _ := Table.mem_modify
  exact hmodify

theorem run_keeps (h : q.run db = some (a, db')) :
    db'.auth = db.auth ∧
      (db'.loginStates = db.loginStates ∨ (∃ row, q = .insertState row) ∨
        (∃ hash now, q = .consumeState hash now) ∨ ∃ now, q = .deleteExpiredStates now) ∧
      (db'.userSessions = db.userSessions ∨ (∃ row, q = .insertSession row) ∨
        (∃ hash, q = .deleteSession hash) ∨ (∃ id, q = .deleteUserSessions id) ∨
          ∃ now, q = .deleteExpiredSessions now) ∧
      (db'.shortcutTokens = db.shortcutTokens ∨ (∃ row, q = .replaceShortcutToken row) ∨
        (∃ id, q = .deleteShortcutToken id) ∨ ∃ hash now, q = .touchShortcutToken hash now) := by
  cases q with
  | insertState row =>
    obtain ⟨db'', hdb, heq⟩ := Option.map_eq_some_iff.mp h
    obtain ⟨-, rfl⟩ := Prod.mk.inj heq
    obtain ⟨t, -, rfl⟩ := insertState_eq_some hdb
    simp
  | insertSession row =>
    obtain ⟨db'', hdb, heq⟩ := Option.map_eq_some_iff.mp h
    obtain ⟨-, rfl⟩ := Prod.mk.inj heq
    obtain ⟨t, -, rfl⟩ := insertSession_eq_some hdb
    simp
  | replaceShortcutToken row =>
    obtain ⟨db'', hdb, heq⟩ := Option.map_eq_some_iff.mp h
    obtain ⟨-, rfl⟩ := Prod.mk.inj heq
    obtain ⟨t, -, rfl⟩ := replaceShortcutToken_eq_some hdb
    simp
  | deleteExpiredStates now | consumeState hash now | deleteExpiredSessions now
  | resolveSession hash now | deleteUserSessions id | deleteSession hash | readShortcutToken id
  | deleteShortcutToken id | resolveShortcutToken hash | touchShortcutToken hash now =>
    obtain ⟨-, rfl⟩ := Prod.mk.inj (Option.some.inj h)
    simp [Db.touchShortcutToken]

theorem run_userSessions (h : q.run db = some (a, db')) {row : SessionRow}
    (hrow : row ∈ db'.userSessions) :
    q = .insertSession row ∨ (row ∈ db.userSessions ∧ ¬row.EndedBy q) := by
  cases q with
  | insertSession new =>
    obtain ⟨db'', hdb, heq⟩ := Option.map_eq_some_iff.mp h
    obtain ⟨-, rfl⟩ := Prod.mk.inj heq
    obtain ⟨t, ht, rfl⟩ := insertSession_eq_some hdb
    obtain hold | rfl := (Table.mem_insert? ht).mp hrow
    · exact Or.inr ⟨hold, id⟩
    · exact Or.inl rfl
  | deleteExpiredSessions now | deleteUserSessions id | deleteSession hash =>
    obtain ⟨-, rfl⟩ := Prod.mk.inj (Option.some.inj h)
    obtain ⟨hold, hkept⟩ := Table.mem_delete.mp hrow
    refine Or.inr ⟨hold, fun hended => ?_⟩
    simp [SessionRow.EndedBy] at hended
    simp [hended] at hkept
  | _ =>
    obtain ⟨-, -, heq | ⟨_, hq⟩ | ⟨_, hq⟩ | ⟨_, hq⟩ | ⟨_, hq⟩, -⟩ := run_keeps h
    · exact Or.inr ⟨heq ▸ hrow, id⟩
    · cases hq
    · cases hq
    · cases hq
    · cases hq

theorem run_loginStates (h : q.run db = some (a, db')) {row : LoginStateRow}
    (hrow : row ∈ db'.loginStates) :
    q = .insertState row ∨ (row ∈ db.loginStates ∧ ¬row.EndedBy q) := by
  cases q with
  | insertState new =>
    obtain ⟨db'', hdb, heq⟩ := Option.map_eq_some_iff.mp h
    obtain ⟨-, rfl⟩ := Prod.mk.inj heq
    obtain ⟨t, ht, rfl⟩ := insertState_eq_some hdb
    obtain hold | rfl := (Table.mem_insert? ht).mp hrow
    · exact Or.inr ⟨hold, id⟩
    · exact Or.inl rfl
  | deleteExpiredStates now | consumeState hash now =>
    obtain ⟨-, rfl⟩ := Prod.mk.inj (Option.some.inj h)
    obtain ⟨hold, hkept⟩ := Table.mem_delete.mp hrow
    refine Or.inr ⟨hold, fun hended => ?_⟩
    simp [LoginStateRow.EndedBy] at hended
    simp [hended] at hkept
  | _ =>
    obtain ⟨-, heq | ⟨_, hq⟩ | ⟨_, _, hq⟩ | ⟨_, hq⟩, -, -⟩ := run_keeps h
    · exact Or.inr ⟨heq ▸ hrow, id⟩
    · cases hq
    · cases hq
    · cases hq

theorem run_shortcutTokens (h : q.run db = some (a, db')) {row : ShortcutTokenRow}
    (hrow : row ∈ db'.shortcutTokens) :
    q = .replaceShortcutToken row ∨
      ∃ old ∈ db.shortcutTokens, old.Same row ∧ ¬row.EndedBy q ∧
        (row.lastUsedAt = old.lastUsedAt ∨ ∃ now, row.lastUsedAt = some now ∧
          q = .touchShortcutToken row.tokenHash now) := by
  cases q with
  | replaceShortcutToken new =>
    obtain ⟨db'', hdb, heq⟩ := Option.map_eq_some_iff.mp h
    obtain ⟨-, rfl⟩ := Prod.mk.inj heq
    obtain ⟨t, ht, rfl⟩ := replaceShortcutToken_eq_some hdb
    obtain hold | rfl := (Table.mem_insert? ht).mp hrow
    · obtain ⟨hold, hkept⟩ := Table.mem_delete.mp hold
      refine Or.inr ⟨row, hold, ⟨rfl, rfl, rfl⟩, fun hended => ?_, Or.inl rfl⟩
      simp only [ShortcutTokenRow.EndedBy] at hended
      simp [hended] at hkept
    · exact Or.inl rfl
  | deleteShortcutToken id =>
    obtain ⟨-, rfl⟩ := Prod.mk.inj (Option.some.inj h)
    obtain ⟨hold, hkept⟩ := Table.mem_delete.mp hrow
    refine Or.inr ⟨row, hold, ⟨rfl, rfl, rfl⟩, fun hended => ?_, Or.inl rfl⟩
    simp only [ShortcutTokenRow.EndedBy] at hended
    simp [hended] at hkept
  | touchShortcutToken hash now =>
    obtain ⟨-, rfl⟩ := Prod.mk.inj (Option.some.inj h)
    obtain ⟨old, hold, heq⟩ := mem_touchShortcutToken.mp hrow
    right
    split at heq
    · rename_i hhash
      subst heq
      refine ⟨old, hold, ⟨rfl, rfl, rfl⟩, id, Or.inr ⟨now, rfl, ?_⟩⟩
      rw [beq_iff_eq.mp hhash]
    · subst heq
      exact ⟨row, hold, ⟨rfl, rfl, rfl⟩, id, Or.inl rfl⟩
  | _ =>
    obtain ⟨-, -, -, heq | ⟨_, hq⟩ | ⟨_, hq⟩ | ⟨_, _, hq⟩⟩ := run_keeps h
    · exact Or.inr ⟨row, heq ▸ hrow, ⟨rfl, rfl, rfl⟩, id, Or.inl rfl⟩
    · cases hq
    · cases hq
    · cases hq

end Statements

section Lookups

theorem user?_eq_some {id : Text} {user : Auth.User} (h : db.user? id = some user) :
    user.id = id := by
  obtain ⟨u, hu, rfl⟩ := Option.map_eq_some_iff.mp h
  have hid := Table.prop_of_find? hu
  exact beq_iff_eq.mp hid

theorem resolveSession_eq_some {hash : Text} {now : Time} {user : Auth.User} {expiresAt : Time}
    (h : db.resolveSession hash now = some (user, expiresAt)) :
    ∃ row ∈ db.userSessions, row.tokenHash = hash ∧ now < row.expiresAt ∧
      row.expiresAt = expiresAt ∧ row.userID = user.id := by
  obtain ⟨row, hrow, h⟩ := Option.bind_eq_some_iff.mp h
  obtain ⟨u, hu, heq⟩ := Option.map_eq_some_iff.mp h
  obtain ⟨rfl, rfl⟩ := Prod.mk.inj heq
  have hlive := Table.prop_of_find? hrow
  simp only [Bool.and_eq_true, beq_iff_eq, decide_eq_true_eq] at hlive
  exact ⟨row, Table.mem_of_find? hrow, hlive.1, hlive.2, rfl, (user?_eq_some hu).symm⟩

theorem consumeState_eq_some {hash path : Text} {now : Time}
    (h : (db.consumeState hash now).1 = some path) :
    ∃ row ∈ db.loginStates, row.stateHash = hash ∧ now < row.expiresAt ∧ row.returnPath = path := by
  obtain ⟨row, hrow, rfl⟩ := Option.map_eq_some_iff.mp h
  have hlive := Table.prop_of_find? hrow
  simp only [Bool.and_eq_true, beq_iff_eq, decide_eq_true_eq] at hlive
  exact ⟨row, Table.mem_of_find? hrow, hlive.1, hlive.2, rfl⟩

theorem resolveShortcutToken_eq_some {hash stored : Text} {user : Auth.User}
    (h : db.resolveShortcutToken hash = some (stored, user)) :
    ∃ row ∈ db.shortcutTokens, row.tokenHash = hash ∧ row.userID = user.id := by
  obtain ⟨row, hrow, h⟩ := Option.bind_eq_some_iff.mp h
  obtain ⟨u, hu, heq⟩ := Option.map_eq_some_iff.mp h
  obtain ⟨-, rfl⟩ := Prod.mk.inj heq
  have hhash := Table.prop_of_find? hrow
  exact ⟨row, Table.mem_of_find? hrow, beq_iff_eq.mp hhash, (user?_eq_some hu).symm⟩

end Lookups

section Calls

theorem attempt_cases {answer : Option q.Result} (h : attempt q choice db = some (answer, db')) :
    (∃ a, q.run db = some (a, db') ∧ (answer = some a ∨ answer = none)) ∨
      (answer = none ∧ db' = db) := by
  unfold attempt at h
  split at h
  · rename_i a db'' hrun
    obtain ⟨rfl, rfl⟩ := Prod.mk.inj (Option.some.inj h)
    exact Or.inl ⟨a, hrun, Or.inl rfl⟩
  · obtain ⟨rfl, rfl⟩ := Prod.mk.inj (Option.some.inj h)
    exact Or.inr ⟨rfl, rfl⟩
  · rename_i a db'' hrun
    obtain ⟨rfl, rfl⟩ := Prod.mk.inj (Option.some.inj h)
    exact Or.inl ⟨a, hrun, Or.inr rfl⟩
  · obtain ⟨rfl, rfl⟩ := Prod.mk.inj (Option.some.inj h)
    exact Or.inr ⟨rfl, rfl⟩
  · cases h

theorem attempt_answered (h : attempt q choice db = some (some a, db')) :
    q.run db = some (a, db') := by
  obtain ⟨a', hrun, hanswer | hanswer⟩ | ⟨hanswer, -⟩ := attempt_cases h
  · rwa [Option.some.inj hanswer]
  · cases hanswer
  · cases hanswer

theorem authStep_eq_some {s : Auth.Service} {e : Auth.Event} {a : Auth.Answer}
    (h : authStep s e db = some (a, db')) :
    Auth.step s db.auth e = some (a, db'.auth) ∧ db' = { db with auth := db'.auth } := by
  obtain ⟨⟨a', auth⟩, hstep, heq⟩ := Option.map_eq_some_iff.mp h
  obtain ⟨rfl, rfl⟩ := Prod.mk.inj heq
  exact ⟨hstep, rfl⟩

def Call.Idle : Call → Prop
  | .sql _ | .authStart _ _ | .authNext _ _ => False
  | _ => True

inductive Effect (before : Db) : (c : Call) → c.Reply → Db → Prop
  | idle {c : Call} {r : c.Reply} (h : c.Idle) : Effect before c r before
  | carried {p : Statement} {result : p.Result} {answer : Option p.Result} {after : Db}
      (hrun : p.run before = some (result, after))
      (hanswer : answer = some result ∨ answer = none) : Effect before (.sql p) answer after
  | failed {p : Statement} : Effect before (.sql p) none before
  | authStart {s : Auth.Service} {request : Auth.Request} {answer : Auth.Answer}
      {auth : Auth.State} (h : Auth.step s before.auth (.start request) = some (answer, auth)) :
      Effect before (.authStart s request) (before.auth.calls.length, answer)
        { before with auth := auth }
  | authNext {s : Auth.Service} {call : Nat} {e : Auth.Event} {answer : Auth.Answer}
      {auth : Auth.State} (h : Auth.step s before.auth e = some (answer, auth))
      (hcall : Auth.callOf ⟨before.auth, e, answer, auth⟩ = call) :
      Effect before (.authNext s call) answer { before with auth := auth }

theorem effect_of_exec {c : Call} {r : c.Reply} (h : exec c choice db = some (r, db')) :
    Effect db c r db' := by
  cases c with
  | sql q =>
    obtain ⟨a, hrun, hanswer⟩ | ⟨rfl, rfl⟩ := attempt_cases (q := q) h
    · exact .carried hrun hanswer
    · exact .failed
  | authStart s request =>
    simp only [exec] at h
    obtain ⟨⟨a, db''⟩, hstep, heq⟩ := Option.map_eq_some_iff.mp h
    obtain ⟨rfl, rfl⟩ := Prod.mk.inj heq
    obtain ⟨hauth, hdb⟩ := authStep_eq_some hstep
    rw [hdb]
    exact .authStart hauth
  | authNext s call =>
    simp only [exec] at h
    obtain ⟨e, he, hstep⟩ := Option.bind_eq_some_iff.mp h
    obtain ⟨hauth, hdb⟩ := authStep_eq_some hstep
    rw [hdb]
    refine .authNext hauth ?_
    unfold authEvent at he
    split at he
    · rw [← Option.some.inj he]; rfl
    · rw [← Option.some.inj he]; rfl
    · rw [← Option.some.inj he]; rfl
    · cases he
  | now | randomToken | exchangeGoogleIdentity | handle =>
    cases choice with
    | time | token | identity | handled =>
      first
        | (obtain ⟨rfl, rfl⟩ := Prod.mk.inj (Option.some.inj h)
           exact .idle trivial)
        | cases h
    | ok | lost | newID | commit | abort => cases h

end Calls

end Noted.Sessions
