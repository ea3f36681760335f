import Noted.Sessions.Rows

/-!
# The identity behind a sign-in

Whatever a transaction on the users has answered a request stays so: its call keeps its
identity, which was verified and on the list of emails when the transaction began, and
the user that it named stays bound to the Google subject.
-/

namespace Noted.Sessions

open Library

variable {c : Auth.Service} {σ σ' : Auth.State} {e : Auth.Event} {a : Auth.Answer} {n : Nat}
  {request : Auth.Request} {phase : Auth.Phase}

/-- What AuthenticateGoogle asks of an identity before its transaction begins. -/
structure Verified (c : Auth.Service) (identity : Auth.GoogleIdentity) : Prop where
  verified : identity.verified = true
  subject : trimSpace identity.subject ≠ []
  allowed : c.allowed (c.normalizeEmail identity.email) = true

theorem call_stays (hstep : Auth.step c σ e = some (a, σ'))
    (h : σ.calls[n]? = some ⟨request, phase⟩) :
    ∃ phase', σ'.calls[n]? = some ⟨request, phase'⟩ ∧ (phase = .done → phase' = .done) := by
  have hset : ∀ {m request' phase₁} phase₂, σ.calls[m]? = some ⟨request', phase₁⟩ →
      phase₁ ≠ .done → ∃ phase', (σ.set m request' phase₂).calls[n]? = some ⟨request, phase'⟩ ∧
        (phase = .done → phase' = .done) := by
    intro m request' phase₁ phase₂ hm hphase
    by_cases hne : m = n
    · subst hne
      obtain ⟨rfl, rfl⟩ := Auth.Call.mk.inj (Option.some.inj (hm.symm.trans h))
      exact ⟨phase₂, Auth.State.calls_set (Auth.lt_of_call h), fun hd => absurd hd hphase⟩
    · exact ⟨phase, by simpa [Auth.State.set, List.getElem?_set_ne hne] using h, id⟩
  cases Auth.move_of_step hstep with
  | start =>
    exact ⟨phase, by simpa [List.getElem?_append_left (Auth.lt_of_call h)] using h, id⟩
  | miss hcall hphase | write hcall hphase | fail hcall hphase | abort hcall hphase =>
    exact hset _ hcall hphase
  | commit hcall => exact hset _ hcall (by simp)

theorem start_spec (hstep : Auth.step c σ (.start request) = some (a, σ')) :
    (∃ phase, σ'.calls[σ.calls.length]? = some ⟨request, phase⟩) ∧ (∀ user, a ≠ .user user) ∧
      ∀ identity, request = .google identity → a = .pending → Verified c identity := by
  cases Auth.move_of_step hstep with
  | @start request phase a hphase =>
    refine ⟨⟨phase, by simp⟩, ?_, ?_⟩
    · intro user
      obtain ⟨-, rfl⟩ | ⟨-, rfl⟩ := hphase
      · simp
      · simp
    · rintro identity rfl rfl
      simp only [Auth.step, Auth.State.start, Option.some.injEq] at hstep
      split at hstep
      · cases (Prod.mk.inj hstep).1
      · rename_i hcond
        simp only [Bool.or_eq_true, Bool.not_eq_true', beq_iff_eq, not_or, Bool.not_eq_false]
          at hcond
        exact ⟨hcond.1.1, hcond.1.2, hcond.2⟩

theorem user_spec {user : Auth.User} (hconsistent : Auth.Consistent σ)
    (hstep : Auth.step c σ e = some (.user user, σ')) :
    ∃ request, σ'.calls[Auth.callOf ⟨σ, e, Auth.Answer.user user, σ'⟩]? = some ⟨request, .done⟩ ∧
      ∀ identity, request = .google identity → Auth.Bound user.id identity.subject σ' := by
  generalize ha : Auth.Answer.user user = a at hstep
  cases Auth.move_of_step hstep with
  | start h =>
    obtain ⟨-, rfl⟩ | ⟨-, rfl⟩ := h
    · cases ha
    · cases ha
  | miss | write | fail | abort => cases ha
  | @commit n answered request row hcall =>
    refine ⟨request, Auth.State.calls_set (Auth.lt_of_call hcall), ?_⟩
    rintro identity rfl
    cases answered with
    | false => cases ha
    | true =>
      obtain rfl := Auth.Answer.user.inj ha
      refine ⟨row, Table.mem_put.mpr (Or.inl rfl), rfl, ?_⟩
      exact hconsistent.bound n identity row hcall

def Remembered : Sigma Call.Reply → Db → Prop
  | ⟨.authStart c request, (call, answer)⟩, db =>
    (∃ phase, db.auth.calls[call]? = some ⟨request, phase⟩) ∧ (∀ user, answer ≠ .user user) ∧
      ∀ identity, request = .google identity → answer = .pending → Verified c identity
  | ⟨.authNext _ call, .user user⟩, db =>
    ∃ request, db.auth.calls[call]? = some ⟨request, .done⟩ ∧
      ∀ identity, request = .google identity → Auth.Bound user.id identity.subject db.auth
  | _, _ => True

variable {db db' : Db} {call : Call} {r : call.Reply} {choice : Choice} {o : Sigma Call.Reply}

/-- A call leaves the transactions as they are, or one of them takes a step. -/
theorem auth_of_exec (h : exec call choice db = some (r, db')) :
    db'.auth = db.auth ∨ ∃ c e a, Auth.step c db.auth e = some (a, db'.auth) := by
  cases effect_of_exec h with
  | idle | failed => exact Or.inl rfl
  | carried hrun => exact Or.inl (run_keeps hrun).1
  | authStart hstep => exact Or.inr ⟨_, _, _, hstep⟩
  | authNext hstep => exact Or.inr ⟨_, _, _, hstep⟩

theorem consistent_of_exec (hconsistent : Auth.Consistent db.auth)
    (h : exec call choice db = some (r, db')) : Auth.Consistent db'.auth := by
  obtain heq | ⟨c, e, a, hstep⟩ := auth_of_exec h
  · rwa [heq]
  · exact hconsistent.step hstep

theorem remembered_new (hconsistent : Auth.Consistent db.auth)
    (h : exec call choice db = some (r, db')) : Remembered ⟨call, r⟩ db' := by
  cases effect_of_exec h with
  | idle hidle =>
    cases call with
    | sql | authStart | authNext => exact hidle.elim
    | now | randomToken | exchangeGoogleIdentity | handle => trivial
  | carried | failed => trivial
  | authStart hstep => exact start_spec hstep
  | @authNext c n e answer auth hstep hcall =>
    cases answer with
    | pending => trivial
    | failed => trivial
    | user u =>
      subst hcall
      exact user_spec hconsistent hstep

theorem remembered_stays (hconsistent : Auth.Consistent db.auth)
    (h : exec call choice db = some (r, db')) (ho : Remembered o db) : Remembered o db' := by
  obtain heq | ⟨c, e, a, hstep⟩ := auth_of_exec h
  · unfold Remembered at ho ⊢
    split
    · rwa [heq]
    · rwa [heq]
    · trivial
  · unfold Remembered at ho ⊢
    split
    · obtain ⟨⟨phase, hphase⟩, hrest⟩ := ho
      obtain ⟨phase', hphase', -⟩ := call_stays hstep hphase
      exact ⟨⟨phase', hphase'⟩, hrest⟩
    · obtain ⟨request, hrequest, hbound⟩ := ho
      obtain ⟨phase', hphase', hdone⟩ := call_stays hstep hrequest
      rw [hdone rfl] at hphase'
      exact ⟨request, hphase', fun identity hi => (hbound identity hi).step hconsistent hstep⟩
    · trivial

end Noted.Sessions
