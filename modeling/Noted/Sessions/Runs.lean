import Noted.Sessions.Identities
import Noted.Sessions.Keeping

/-!
# Sessions over whole runs

Requests of any clients are served at the same time, and any of them may make its next
call, fail, or be slow. A session answers only in the name of the user that Google named
to the callback which created it; a login state signs in once; what a user has ended
stays ended.
-/

namespace Noted.Sessions

open Library

variable {tokenHash : Text → Text} {users : Auth.Users} {t u v : List Step} {s : System}
  {x : Step} {n : Nat} {o : Sigma Call.Reply}

abbrev RequestThread := Thread Call.Reply Task Response

structure Made (x : Step) (n : Nat) (th : RequestThread) (o : Sigma Call.Reply) : Prop where
  event : ∃ choice, x.event = .advance n choice
  response : x.response = some o
  thread : x.before.threads[n]? = some th

def Answers (n : Nat) (c : Call) (r : c.Reply) (x : Step) : Prop :=
  Pool.answerOf n x = some ⟨c, r⟩

theorem keeps_of_run (hrun : Run (step tokenHash) (start users) t s) :
    Pool.Keeps (Rule tokenHash) (Outcome tokenHash) s := by
  refine hrun.invariant ?_ ?_
  · intro p e a q hp h
    exact Pool.keeps_step (fun task => main_meets tokenHash task) hp h
  · intro n th hth
    cases hth

theorem rule_of_made {th : RequestThread}
    (hrun : Run (step tokenHash) (start users) (u ++ x :: v) s) (h : Made x n th o) :
    Rule tokenHash th.task th.past o.1 := by
  obtain ⟨hprior, hstep, -⟩ := hrun.at_entry
  obtain ⟨⟨choice, hevent⟩, hresponse, hthread⟩ := h
  obtain ⟨th', hthread', hrule, -⟩ := (keeps_of_run hprior).of_call hstep hevent hresponse
  obtain rfl := Option.some.inj (hthread'.symm.trans hthread)
  exact hrule

theorem run_of_answers {q : Statement} {a : q.Result}
    (hrun : Run (step tokenHash) (start users) (u ++ x :: v) s)
    (h : Answers n (.sql q) (some a) x) :
    q.run x.before.shared = some (a, x.after.shared) := by
  obtain ⟨hprior, hstep, -⟩ := hrun.at_entry
  obtain ⟨choice, hevent, hresponse⟩ := Pool.answerOf_eq_some.mp h
  obtain ⟨-, -, -, hexec⟩ := (keeps_of_run hprior).of_call hstep hevent hresponse
  exact attempt_answered hexec

theorem made_of_response (hrun : Run (step tokenHash) (start users) (u ++ x :: v) s)
    (h : x.response = some o) : ∃ n th, Made x n th o := by
  obtain ⟨-, hstep, -⟩ := hrun.at_entry
  obtain ⟨before, event, response, after⟩ := x
  have hmove : Pool.Move (main tokenHash) exec before event response after :=
    Pool.move_of_step hstep
  cases hmove with
  | begin => cases h
  | advance hthread => exact ⟨_, _, ⟨_, rfl⟩, h, hthread⟩

theorem exists_made (hrun : Run (step tokenHash) (start users) t s)
    {f : Sigma Call.Reply → Bool} (h : (t.any fun x => x.response.any f) = true) :
    ∃ u x v n th o, t = u ++ x :: v ∧ Made x n th o ∧ f o = true := by
  obtain ⟨x, hx, hf⟩ := List.any_eq_true.mp h
  obtain ⟨o, ho, hf⟩ := (Option.any_eq_true _ _).mp hf
  obtain ⟨u, v, rfl⟩ := List.append_of_mem hx
  obtain ⟨n, th, hmade⟩ := made_of_response hrun ho
  exact ⟨u, x, v, n, th, o, rfl, hmade, hf⟩

theorem answers_of_mem {th : RequestThread} {c : Call} {r : c.Reply}
    (hrun : Run (step tokenHash) (start users) (u ++ x :: v) s) (h : Made x n th o)
    (hmem : ⟨c, r⟩ ∈ th.past) : ∃ u₁ y u₂, u = u₁ ++ y :: u₂ ∧ Answers n c r y := by
  obtain ⟨y, hy, hanswer⟩ := (Pool.mem_past hrun.at_entry.1 h.thread).mp hmem
  obtain ⟨u₁, u₂, rfl⟩ := List.append_of_mem hy
  exact ⟨u₁, y, u₂, rfl, hanswer⟩

section Tables

variable {P : Db → Prop} {began ended : Statement → Prop}

/-- A statement of one kind was made, and none of another kind has been answered since. -/
def Stands (began ended : Statement → Prop) (t : List Step) : Prop :=
  Since (fun x => ∃ n th q r, Made x n th ⟨.sql q, r⟩ ∧ began q)
    (fun x => ∃ q a, x.response = some ⟨.sql q, some a⟩ ∧ ended q) t

theorem stands (hrun : Run (step tokenHash) (start users) t s)
    (hsql : ∀ {q : Statement} {db a db'}, q.run db = some (a, db') → P db' →
      began q ∨ P db ∧ ¬ended q)
    (hauth : ∀ db auth, P { db with auth := auth } → P db) (hnot : ¬P (start users).shared)
    (hP : P s.shared) : Stands began ended t := by
  refine hrun.since (I := fun _ => True) (P := fun s => P s.shared) (fun _ _ => trivial) ?_ trivial
    hnot hP
  intro p e a q _ hstep hq
  cases Pool.move_of_step hstep with
  | begin task =>
    refine Or.inr ⟨hq, ?_⟩
    rintro ⟨_, _, h, -⟩
    cases h
  | @advance n choice task past c next r db' hthread hexec =>
    have heffect : Effect p.shared c r db' := effect_of_exec hexec
    have hnone : (∀ q, c ≠ .sql q) → ¬∃ q a, (some ⟨c, r⟩ : Option (Sigma Call.Reply)) =
        some ⟨.sql q, some a⟩ ∧ ended q := by
      rintro hc ⟨q, a, h, -⟩
      exact hc q (congrArg Sigma.fst (Option.some.inj h))
    change P db' at hq
    cases heffect with
    | idle hidle => exact Or.inr ⟨hq, hnone (by rintro q rfl; exact hidle)⟩
    | failed =>
      refine Or.inr ⟨hq, ?_⟩
      rintro ⟨q, a, h, -⟩
      cases h
    | authStart => exact Or.inr ⟨hauth _ _ hq, hnone (by simp)⟩
    | authNext => exact Or.inr ⟨hauth _ _ hq, hnone (by simp)⟩
    | @carried q result answer after hsqlrun hanswer =>
      obtain hbegan | ⟨hp, hended⟩ := hsql hsqlrun hq
      · exact Or.inl ⟨n, _, q, _, ⟨⟨choice, rfl⟩, rfl, hthread⟩, hbegan⟩
      · refine Or.inr ⟨hp, ?_⟩
        rintro ⟨q', a, h, hend⟩
        obtain rfl : q = q' := by
          have heq := congrArg Sigma.fst (Option.some.inj h)
          simpa using heq
        exact hended hend

theorem stands_session {row : SessionRow} (hrun : Run (step tokenHash) (start users) t s)
    (h : row ∈ s.shared.userSessions) : Stands (· = .insertSession row) row.EndedBy t :=
  stands (P := fun db => row ∈ db.userSessions) hrun (fun h => run_userSessions h) (fun _ _ h => h)
    (Table.not_mem_empty _) h

theorem stands_state {row : LoginStateRow} (hrun : Run (step tokenHash) (start users) t s)
    (h : row ∈ s.shared.loginStates) : Stands (· = .insertState row) row.EndedBy t :=
  stands (P := fun db => row ∈ db.loginStates) hrun (fun h => run_loginStates h) (fun _ _ h => h)
    (Table.not_mem_empty _) h

theorem stands_token {row : ShortcutTokenRow} (hrun : Run (step tokenHash) (start users) t s)
    (h : row ∈ s.shared.shortcutTokens) :
    Stands (fun q => ∃ row', row'.Same row ∧ q = .replaceShortcutToken row') row.EndedBy t := by
  refine stands (P := fun db => ∃ row' ∈ db.shortcutTokens, row'.Same row) hrun ?_
    (fun _ _ h => h) ?_ ⟨row, h, rfl, rfl, rfl⟩
  · intro q db a db' hq hP
    obtain ⟨row', hrow', hsame⟩ := hP
    obtain rfl | ⟨old, hold, hsame', hended, -⟩ := run_shortcutTokens hq hrow'
    · exact Or.inl ⟨row', hsame, rfl⟩
    · refine Or.inr ⟨⟨old, hold, hsame'.trans hsame⟩, ?_⟩
      rwa [← hsame.endedBy q]
  · intro h
    obtain ⟨row', hrow', -⟩ := h
    exact Table.not_mem_empty _ hrow'

end Tables

section Signing

variable {th : RequestThread} {user : Auth.User}

theorem remembers_of_run (hfree : ClashFree Auth.Meets users)
    (hrun : Run (step tokenHash) (start users) t s) :
    Auth.Consistent s.shared.auth ∧ Pool.Remembers Remembered s := by
  refine hrun.invariant (P := fun s => Auth.Consistent s.shared.auth ∧ Pool.Remembers Remembered s)
    ?_ ⟨Auth.Consistent.start hfree, fun n th h => by cases h⟩
  intro p e a q hp h
  refine ⟨Pool.shared_invariant (I := fun db => Auth.Consistent db.auth) ?_ hp.1 h,
    Pool.remembers_step (I := fun db => Auth.Consistent db.auth) ?_ ?_ hp.1 hp.2 h⟩
  · exact fun hI hexec => consistent_of_exec hI hexec
  · exact fun hI hexec => remembered_new hI hexec
  · exact fun hI hexec ho => remembered_stays hI hexec ho

/-- Google has named a verified identity that may use the service, to which the user of the
sign-in is bound. -/
def Names (th : RequestThread) (auth : Auth.State) (userID : Text) : Prop :=
  ∃ identity, ⟨.exchangeGoogleIdentity (trimSpace th.task.request.code), some identity⟩ ∈ th.past ∧
    Verified th.task.config.auth identity ∧ Auth.Bound userID identity.subject auth

theorem SignedIn.names (hfree : ClashFree Auth.Meets users)
    (hrun : Run (step tokenHash) (start users) t s) (hth : s.threads[n]? = some th)
    (h : SignedIn tokenHash th.task th.past user) : Names th s.shared.auth user.id := by
  obtain ⟨identity, hidentified, call, answer, hstart, hanswer⟩ := h
  obtain ⟨-, hremembers⟩ := remembers_of_run hfree hrun
  obtain ⟨⟨phase, hphase⟩, hno, hverified⟩ := hremembers n th hth _ hstart
  obtain rfl | ⟨rfl, hnext⟩ := hanswer
  · exact absurd rfl (hno user)
  · obtain ⟨request, hrequest, hbound⟩ := hremembers n th hth _ hnext
    obtain ⟨rfl, -⟩ := Auth.Call.mk.inj (Option.some.inj (hphase.symm.trans hrequest))
    exact ⟨identity, hidentified.exchanged, hverified identity rfl rfl, hbound identity rfl⟩

end Signing

section Storing

def drawnHash (tokenHash : Text → Text) (x : Step) : Option Text :=
  match x.response with
  | some ⟨.randomToken, some value⟩ => some (tokenHash value)
  | _ => none

def storedHash (x : Step) : Option Text := x.response.bind fun o => o.1.stores

/-- The random source draws no two tokens of one hash. -/
def Distinct (tokenHash : Text → Text) (t : List Step) : Prop :=
  (t.filterMap (drawnHash tokenHash)).Nodup

variable {y : Step} {hash : Text}

theorem drawn_of_stored (hrun : Run (step tokenHash) (start users) (u ++ x :: v) s)
    (hx : storedHash x = some hash) : ∃ n th o z, Made x n th o ∧ o.1.stores = some hash ∧
      Unstored th.past ∧ z ∈ u ∧ drawnHash tokenHash z = some hash ∧
        ∃ choice, z.event = .advance n choice := by
  obtain ⟨o, ho, hstores⟩ := Option.bind_eq_some_iff.mp hx
  obtain ⟨n, th, hmade⟩ := made_of_response hrun ho
  have hrule := rule_of_made hrun hmade
  obtain ⟨value, hdrew, rfl⟩ := hrule.drew hstores
  obtain ⟨z, hz, hanswer⟩ := (Pool.mem_past hrun.at_entry.1 hmade.thread).mp hdrew
  obtain ⟨choice, hevent, hresponse⟩ := Pool.answerOf_eq_some.mp hanswer
  refine ⟨n, th, o, z, hmade, hstores, hrule.once (by simp [hstores]), hz, ?_, choice, hevent⟩
  simp [drawnHash, hresponse]

theorem stored_once (hdistinct : Distinct tokenHash (u ++ x :: v))
    (hrun : Run (step tokenHash) (start users) (u ++ x :: v) s) (hx : storedHash x = some hash)
    (hy : y ∈ u) : storedHash y ≠ some hash := by
  intro hstored
  obtain ⟨n, th, o, z, hmade, hstores, hun, hz, hdrawn, choice, hevent⟩ := drawn_of_stored hrun hx
  obtain ⟨u₁, u₂, rfl⟩ := List.append_of_mem hy
  have hrun' : Run (step tokenHash) (start users) (u₁ ++ y :: (u₂ ++ x :: v)) s := by
    simpa using hrun
  obtain ⟨m, th', o', z', hmade', hstores', -, hz', hdrawn', choice', hevent'⟩ :=
    drawn_of_stored hrun' hstored
  obtain ⟨w₁, w₂, hw⟩ := List.append_of_mem (List.mem_append_left (x :: v) hz)
  obtain ⟨w₁', w₂', hw'⟩ := List.append_of_mem
    (List.mem_append_left (x :: v) (List.mem_append_left (y :: u₂) hz'))
  have hsame : z = z' :=
    eq_of_nodup_filterMap (hw ▸ hdistinct) (hw.symm.trans hw') hdrawn hdrawn'
  obtain rfl : n = m := by
    rw [hsame, hevent'] at hevent
    exact (Pool.Event.advance.inj hevent).1.symm
  obtain ⟨choice'', hevent''⟩ := hmade'.event
  have hpast : o' ∈ th.past := by
    refine (Pool.mem_past hrun.at_entry.1 hmade.thread).mpr ⟨y, by simp, ?_⟩
    exact Pool.answerOf_eq_some.mpr ⟨choice'', hevent'', hmade'.response⟩
  rw [hun o' hpast] at hstores'
  cases hstores'

theorem stored_unique (hdistinct : Distinct tokenHash t)
    (hrun : Run (step tokenHash) (start users) t s) (hx : x ∈ t) (hy : y ∈ t)
    (hstored : storedHash x = some hash) (hstored' : storedHash y = some hash) : x = y := by
  obtain ⟨u, v, rfl⟩ := List.append_of_mem hx
  obtain hy | hy := List.mem_append.mp hy
  · exact absurd hstored' (stored_once hdistinct hrun hstored hy)
  · obtain rfl | hy := List.mem_cons.mp hy
    · rfl
    · obtain ⟨v₁, v₂, rfl⟩ := List.append_of_mem hy
      have hdistinct' : Distinct tokenHash ((u ++ x :: v₁) ++ y :: v₂) := by simpa using hdistinct
      have hrun' : Run (step tokenHash) (start users) ((u ++ x :: v₁) ++ y :: v₂) s := by
        simpa using hrun
      exact absurd hstored (stored_once hdistinct' hrun' hstored' (by simp))

theorem Distinct.left (h : Distinct tokenHash (u ++ v)) : Distinct tokenHash u := by
  rw [Distinct, List.filterMap_append] at h
  exact (List.nodup_append.mp h).1

theorem storedHash_of_made {th : RequestThread} (h : Made x n th o) :
    storedHash x = o.1.stores := by
  simp [storedHash, h.response]

theorem Stands.meet {began ended began' ended' : Statement → Prop}
    (hdistinct : Distinct tokenHash t) (hrun : Run (step tokenHash) (start users) t s)
    (h : Stands began ended t) (h' : Stands began' ended' u) (hsub : u ⊆ t)
    (hbegan : ∀ q, began q → (Call.sql q).stores = some hash)
    (hbegan' : ∀ q, began' q → (Call.sql q).stores = some hash) : ∃ q, began q ∧ began' q := by
  obtain ⟨w, x, w', rfl, ⟨n, th, q, r, hmade, hq⟩, -⟩ := h
  obtain ⟨z, y, z', rfl, ⟨m, th', q', r', hmade', hq'⟩, -⟩ := h'
  have hx : storedHash x = some hash := (storedHash_of_made hmade).trans (hbegan q hq)
  have hy : storedHash y = some hash := (storedHash_of_made hmade').trans (hbegan' q' hq')
  obtain rfl : x = y := stored_unique hdistinct hrun (by simp) (hsub (by simp)) hx hy
  have heq : q = q' := by
    have hfst := congrArg Sigma.fst (Option.some.inj (hmade.response.symm.trans hmade'.response))
    simpa using hfst
  exact ⟨q, hq, heq ▸ hq'⟩

theorem Stands.stored {began ended : Statement → Prop} (h : Stands began ended t)
    (hbegan : ∀ q, began q → (Call.sql q).stores = some hash) :
    ∃ x ∈ t, storedHash x = some hash := by
  obtain ⟨w, x, w', rfl, ⟨n, th, q, r, hmade, hq⟩, -⟩ := h
  exact ⟨x, by simp, (storedHash_of_made hmade).trans (hbegan q hq)⟩

/-- What was stored once, and has ended, does not stand again. -/
theorem not_restored {began ended : Statement → Prop}
    (hdistinct : Distinct tokenHash (u ++ x :: v))
    (hrun : Run (step tokenHash) (start users) (u ++ x :: v) s)
    (hbegan : ∀ q, began q → (Call.sql q).stores = some hash)
    (hstands : Stands began ended (u ++ x :: v)) (hy : y ∈ u) (hstored : storedHash y = some hash) :
    ¬∃ q a, x.response = some ⟨.sql q, some a⟩ ∧ ended q := by
  intro hended
  have hnot : ¬∃ n th q r, Made x n th ⟨.sql q, r⟩ ∧ began q := by
    rintro ⟨n, th, q, r, hmade, hq⟩
    have hx : storedHash x = some hash := (storedHash_of_made hmade).trans (hbegan q hq)
    exact stored_once hdistinct hrun hx hy hstored
  obtain ⟨w, z, w', rfl, ⟨n, th, q, r, hmade, hq⟩, -⟩ := Since.after hstands hended hnot
  have hz : storedHash z = some hash := (storedHash_of_made hmade).trans (hbegan q hq)
  have hdistinct' : Distinct tokenHash ((u ++ x :: w) ++ z :: w') := by simpa using hdistinct
  have hrun' : Run (step tokenHash) (start users) ((u ++ x :: w) ++ z :: w') s := by
    simpa using hrun
  exact stored_once hdistinct' hrun' hz (by simp [hy]) hstored

end Storing

end Noted.Sessions
