import Noted.Sessions.Rules

/-!
# The handlers keep to the rules

One lemma a function: what its callers may count on after it.
-/

namespace Noted.Sessions

open Library Program

variable {tokenHash : Text → Text} {task : Task} {past : Past Call.Reply} {user : Auth.User}

section Service

theorem newLoginState_meets {post : Past Call.Reply → Except AuthError Text → Prop}
    (hpasses : Passes task) (hroute : task.request.route = .startGoogleLogin)
    (hun : Unstored past) (herror : ∀ past' e, post past' (.error e))
    (hok : ∀ past' value now, ⟨.sql (.insertState ⟨tokenHash value,
      safeReturnPath task.request.returnTo, now + stateLifetime⟩), some ()⟩ ∈ past' →
      post past' (.ok value)) :
    (newLoginState tokenHash task.request.returnTo).Meets (Rule tokenHash task) post past := by
  simp only [newLoginState, meets_bind]
  refine perform_meets (rule_of_allows hpasses trivial rfl) fun past₁ r _ hdrew hun₁ => ?_
  cases r with
  | none => exact herror past₁ .internal
  | some value =>
    simp only [meets_bind]
    refine perform_meets (rule_of_allows hpasses trivial rfl) fun past₂ now hsub₂ hread hun₂ => ?_
    refine perform_meets (rule_of_allows hpasses trivial rfl) fun past₃ r hsub₃ _ hun₃ => ?_
    cases r with
    | none => exact herror past₃ .internal
    | some _ =>
      simp only [meets_bind]
      have hallows : Statement.Allowed tokenHash task past₃
          (.insertState ⟨tokenHash value,
          safeReturnPath task.request.returnTo, now + stateLifetime⟩) :=
        ⟨hroute, value, now, hsub₃ (hsub₂ hdrew), hsub₃ hread, rfl⟩
      refine perform_meets ⟨hpasses, hallows, fun _ => hun₃ rfl (hun₂ rfl (hun₁ rfl hun))⟩
        fun past₄ r _ hmem _ => ?_
      cases r with
      | none => exact herror past₄ .internal
      | some _ => exact hok past₄ value now hmem

theorem consumeLoginState_meets {post : Past Call.Reply → Except AuthError Text → Prop}
    (hpasses : Passes task) (hpresented : Presented task) (hun : Unstored past)
    (herror : ∀ past' e, post past' (.error e))
    (hok : ∀ past' now path, Unstored past' →
      ⟨.sql (.consumeState (tokenHash task.request.state) now), some (some path)⟩ ∈ past' →
      post past' (.ok (safeReturnPath path))) :
    (consumeLoginState tokenHash task.request.state).Meets (Rule tokenHash task) post past := by
  simp only [consumeLoginState, hpresented.state, if_false, meets_bind]
  refine perform_meets (rule_of_allows hpasses trivial rfl) fun past₁ now _ hread hun₁ => ?_
  refine perform_meets (rule_of_allows hpasses ⟨hpresented, hread, rfl⟩ rfl)
    fun past₂ r _ hmem hun₂ => ?_
  cases r with
  | none => exact herror past₂ .internal
  | some row =>
    cases row with
    | none => exact herror past₂ .invalidState
    | some path => exact hok past₂ now path (hun₂ rfl (hun₁ rfl hun)) hmem

theorem settle_meets {post : Past Call.Reply → Auth.Answer → Prop} (hpasses : Passes task)
    {call : Nat} (steps : Nat) (hun : Unstored past)
    (hpost : ∀ past' answer, past ⊆ past' → Unstored past' →
      (∀ user, answer = .user user → ⟨.authNext task.config.auth call, .user user⟩ ∈ past') →
      post past' answer) :
    (settle task.config call steps).Meets (Rule tokenHash task) post past := by
  induction steps generalizing past with
  | zero => exact hpost past _ (List.Subset.refl past) hun fun user h => by cases h
  | succ steps ih =>
    simp only [settle, meets_bind]
    refine perform_meets (rule_of_allows hpasses trivial rfl)
      fun past' answer hsub hmem hun' => ?_
    cases answer with
    | pending =>
      refine ih (hun' rfl hun) fun past'' answer hsub' hun'' hanswer => ?_
      exact hpost past'' answer (List.Subset.trans hsub hsub') hun'' hanswer
    | user u =>
      refine hpost past' (.user u) hsub (hun' rfl hun) fun user h => ?_
      obtain rfl := Auth.Answer.user.inj h
      exact hmem
    | failed e => exact hpost past' (.failed e) hsub (hun' rfl hun) fun user h => by cases h

theorem authenticate_meets {post : Past Call.Reply → Except AuthError Auth.User → Prop}
    {request : Auth.Request} (hpasses : Passes task)
    (hallows : Allows tokenHash task past (.authStart task.config.auth request))
    (hun : Unstored past) (herror : ∀ past' e, post past' (.error e))
    (hok : ∀ past' user, past ⊆ past' → Unstored past' → Authenticated task past' request user →
      post past' (.ok user)) :
    (authenticate task.config request).Meets (Rule tokenHash task) post past := by
  have hresult : ∀ past' call answer answer', past ⊆ past' → Unstored past' →
      ⟨.authStart task.config.auth request, (call, answer)⟩ ∈ past' →
      (∀ user, answer' = Auth.Answer.user user → answer = .user user ∨
        answer = .pending ∧ ⟨.authNext task.config.auth call, .user user⟩ ∈ past') →
      post past' (resultOf answer') := by
    intro past' call answer answer' hsub hun' hstart hanswer
    unfold resultOf
    split
    · exact hok past' _ hsub hun' ⟨call, answer, hstart, hanswer _ rfl⟩
    · exact herror past' _
    · exact herror past' _
    · exact herror past' _
  simp only [authenticate, meets_bind]
  refine perform_meets (rule_of_allows hpasses hallows rfl) fun past₁ r hsub₁ hstart hun₁ => ?_
  obtain ⟨call, answer⟩ := r
  dsimp only
  split
  · rename_i hpending
    refine meets_bind.mpr ?_
    refine settle_meets hpasses 3 (hun₁ rfl hun) fun past₂ answer' hsub₂ hun₂ hanswer => ?_
    exact hresult past₂ call answer answer' (List.Subset.trans hsub₁ hsub₂) hun₂ (hsub₂ hstart)
      fun user h => Or.inr ⟨hpending, hanswer user h⟩
  · exact hresult past₁ call answer answer hsub₁ (hun₁ rfl hun) hstart fun user h => Or.inl h

theorem newSession_meets {post : Past Call.Reply → Except AuthError (Text × Time) → Prop}
    (hpasses : Passes task) (hsigned : SignedIn tokenHash task past user)
    (hun : Unstored past) (herror : ∀ past' e, post past' (.error e))
    (hok : ∀ past' value expiresAt, past ⊆ past' →
      ⟨.sql (.insertSession ⟨user.id, tokenHash value, expiresAt⟩), some ()⟩ ∈ past' →
      post past' (.ok (value, expiresAt))) :
    (newSession tokenHash task.config user.id).Meets (Rule tokenHash task) post past := by
  simp only [newSession, meets_bind]
  refine perform_meets (rule_of_allows hpasses trivial rfl) fun past₁ r hsub₁ hdrew hun₁ => ?_
  cases r with
  | none => exact herror past₁ .internal
  | some value =>
    simp only [meets_bind]
    refine perform_meets (rule_of_allows hpasses trivial rfl) fun past₂ now hsub₂ hread hun₂ => ?_
    refine perform_meets (rule_of_allows hpasses trivial rfl) fun past₃ r hsub₃ _ hun₃ => ?_
    cases r with
    | none => exact herror past₃ .internal
    | some _ =>
      simp only [meets_bind]
      have hallows : Statement.Allowed tokenHash task past₃
          (.insertSession ⟨user.id, tokenHash value, now + task.config.sessionTTL⟩) :=
        ⟨user, value, now, ((hsigned.mono hsub₁).mono hsub₂).mono hsub₃, hsub₃ (hsub₂ hdrew),
          hsub₃ hread, rfl⟩
      refine perform_meets ⟨hpasses, hallows, fun _ => hun₃ rfl (hun₂ rfl (hun₁ rfl hun))⟩
        fun past₄ r hsub₄ hmem _ => ?_
      have hsub := List.Subset.trans hsub₁ (List.Subset.trans hsub₂ (List.Subset.trans hsub₃ hsub₄))
      cases r with
      | none => exact herror past₄ .internal
      | some _ => exact hok past₄ value _ hsub hmem

theorem resolveSession_meets {post : Past Call.Reply → Except AuthError (Auth.User × Time) → Prop}
    {value : Text} (hpasses : Passes task) (hmode : task.config.authMode = .google)
    (hcookie : task.request.sessionCookie = some value) (hun : Unstored past)
    (herror : ∀ past' e, post past' (.error e))
    (hok : ∀ past' user expiresAt, Unstored past' → Resolved tokenHash task past' user expiresAt →
      task.config.auth.allowed (task.config.auth.normalizeEmail user.email) = true →
      post past' (.ok (user, expiresAt))) :
    (resolveSession tokenHash task.config value).Meets (Rule tokenHash task) post past := by
  simp only [resolveSession]
  split
  · exact herror past .notAuthenticated
  · simp only [meets_bind]
    refine perform_meets (rule_of_allows hpasses trivial rfl) fun past₁ now _ hread hun₁ => ?_
    refine perform_meets (rule_of_allows hpasses ⟨hmode, hread, value, hcookie, rfl⟩ rfl)
      fun past₂ r _ hmem hun₂ => ?_
    cases r with
    | none => exact herror past₂ .internal
    | some row =>
      cases row with
      | none => exact herror past₂ .notAuthenticated
      | some found =>
        obtain ⟨user, expiresAt⟩ := found
        have hresolved : Resolved tokenHash task past₂ user expiresAt :=
          ⟨hmode, value, now, hcookie, hmem⟩
        have hun' := hun₂ rfl (hun₁ rfl hun)
        dsimp only
        split
        · rename_i hnot
          have hallows : Statement.Allowed tokenHash task past₂ (.deleteUserSessions user.id) :=
            ⟨user, expiresAt, hresolved, rfl, by simpa using hnot⟩
          simp only [meets_bind]
          refine perform_meets (rule_of_allows hpasses hallows rfl) fun past₃ r _ _ _ => ?_
          cases r with
          | none => exact herror past₃ .internal
          | some _ => exact herror past₃ .notAuthenticated
        · rename_i hallowed
          exact hok past₂ user expiresAt hun' hresolved (by simpa using hallowed)

theorem createShortcutToken_meets
    {post : Past Call.Reply → Except AuthError (Text × Time) → Prop}
    (hpasses : Passes task) (hroute : task.request.route = .createShortcutToken)
    (hacts : Acts tokenHash task past user) (hun : Unstored past)
    (hpost : ∀ past' result, past ⊆ past' → post past' result) :
    (createShortcutToken tokenHash user.id).Meets (Rule tokenHash task) post past := by
  simp only [createShortcutToken, meets_bind]
  refine perform_meets (rule_of_allows hpasses trivial rfl) fun past₁ r hsub₁ hdrew hun₁ => ?_
  cases r with
  | none => exact hpost past₁ _ hsub₁
  | some value =>
    simp only [meets_bind]
    refine perform_meets (rule_of_allows hpasses trivial rfl) fun past₂ now hsub₂ hread hun₂ => ?_
    have hallows : Statement.Allowed tokenHash task past₂
          (.replaceShortcutToken ⟨user.id, tokenHash value, now, none⟩) :=
      ⟨hroute, user, value, now, (hacts.mono hsub₁).mono hsub₂, hsub₂ hdrew, hread, rfl⟩
    refine perform_meets ⟨hpasses, hallows, fun _ => hun₂ rfl (hun₁ rfl hun)⟩
      fun past₃ r hsub₃ _ _ => ?_
    have hsub := List.Subset.trans hsub₁ (List.Subset.trans hsub₂ hsub₃)
    cases r with
    | none => exact hpost past₃ _ hsub
    | some _ => exact hpost past₃ _ hsub

theorem resolveShortcutToken_meets {post : Past Call.Reply → Except AuthError Auth.User → Prop}
    {token : Text} (hpasses : Passes task) (hroute : task.request.route = .shortcutImport)
    (htoken : bearerToken task.request.authorization = some token)
    (herror : ∀ past' e, post past' (.error e))
    (hok : ∀ past' user, ⟨.sql (.resolveShortcutToken (tokenHash token)),
      some (some (tokenHash token, user))⟩ ∈ past' → post past' (.ok user)) :
    (resolveShortcutToken tokenHash token).Meets (Rule tokenHash task) post past := by
  simp only [resolveShortcutToken]
  split
  · exact herror past .notAuthenticated
  · simp only [meets_bind]
    refine perform_meets (rule_of_allows hpasses ⟨hroute, token, htoken, rfl⟩ rfl)
      fun past' r _ hmem _ => ?_
    cases r with
    | none => exact herror past' .internal
    | some row =>
      cases row with
      | none => exact herror past' .notAuthenticated
      | some found =>
        obtain ⟨stored, user⟩ := found
        dsimp only
        split
        · exact herror past' .notAuthenticated
        · rename_i hstored
          obtain rfl : stored = tokenHash token := not_not.mp hstored
          exact hok past' user hmem

theorem deleteSession_meets {post : Past Call.Reply → Except AuthError Unit → Prop} {value : Text}
    (hpasses : Passes task) (hroute : task.request.route = .logout)
    (hcookie : task.request.sessionCookie = some value)
    (hpost : ∀ past' result, post past' result) :
    (deleteSession tokenHash value).Meets (Rule tokenHash task) post past := by
  simp only [deleteSession]
  split
  · exact hpost past _
  · simp only [meets_bind]
    refine perform_meets (rule_of_allows hpasses ⟨hroute, value, hcookie, rfl⟩ rfl)
      fun past' r _ _ _ => ?_
    cases r with
    | none => exact hpost past' _
    | some _ => exact hpost past' _

end Service

theorem cookie_fits {expiresAt now : Time} :
    Int.tdiv ((expiresAt : Int) - now) 1000000 * 1000000 < (expiresAt : Int) - now + 1000000 := by
  have hdiv := Int.tdiv_mul_add_tmod ((expiresAt : Int) - now) 1000000
  have hmod := Int.lt_tmod_of_pos ((expiresAt : Int) - now) (b := 1000000) (by omega)
  omega

theorem setSessionCookie_meets {post : Past Call.Reply → SetCookie → Prop} {value : Text}
    {expiresAt : Time} (hpasses : Passes task)
    (hpost : ∀ past' expires maxAge, past ⊆ past' → (Unstored past → Unstored past') →
      CookieOf past' expires maxAge expiresAt → post past' (.value value expires maxAge)) :
    (setSessionCookie value expiresAt).Meets (Rule tokenHash task) post past := by
  simp only [setSessionCookie, meets_bind]
  refine perform_meets (rule_of_allows hpasses trivial rfl) fun past₁ now hsub₁ hread hun₁ => ?_
  change Time at now
  split
  · refine meets_bind.mpr ?_
    refine perform_meets (rule_of_allows hpasses trivial rfl)
      fun past₂ later hsub₂ hread₂ hun₂ => ?_
    change Time at later
    refine hpost past₂ _ _ (List.Subset.trans hsub₁ hsub₂) (fun hun => hun₂ rfl (hun₁ rfl hun)) ?_
    by_cases hlive : later < expiresAt
    · have hlt : (later : Int) < expiresAt := Int.ofNat_lt.mpr hlive
      rw [if_pos hlive]
      exact ⟨rfl, ⟨later, hread₂, by omega⟩, fun h => by cases h⟩
    · rw [if_neg hlive]
      exact ⟨rfl, ⟨now, hsub₂ hread, cookie_fits⟩, fun _ => ⟨later, hread₂, Nat.not_lt.mp hlive⟩⟩
  · rename_i hne
    refine hpost past₁ _ _ hsub₁ (hun₁ rfl) ?_
    exact ⟨rfl, ⟨now, hread, cookie_fits⟩, fun h => absurd h hne⟩

theorem Outcome.plain {response : Response} (hstate : response.stateCookie = none)
    (hsession : ∀ value expires maxAge,
      response.sessionCookie ≠ some (.value value expires maxAge))
    (hlocation : response.location = none)
    (horigin : response.allowOrigin = none)
    (hroute : task.request.route = .googleCallback → task.config.authMode ≠ .google) :
    Outcome tokenHash task past response where
  location url h := by rw [hlocation] at h; cases h
  stateCookie value expires maxAge h := by rw [hstate] at h; cases h
  sessionCookie value expires maxAge h := absurd h (hsession value expires maxAge)
  callback _ h hmode := absurd hmode (hroute h)
  allowOrigin origin h := by rw [horigin] at h; cases h

section Handlers

theorem startGoogleLogin_meets (hpasses : Passes task)
    (hroute : task.request.route = .startGoogleLogin) (hun : Unstored past) :
    (startGoogleLogin tokenHash task.config task.request).Meets (Rule tokenHash task)
      (Outcome tokenHash task) past := by
  have hnot : task.request.route = .googleCallback → task.config.authMode ≠ .google := by
    rw [hroute]
    exact fun h => by cases h
  simp only [startGoogleLogin]
  split
  · exact .plain rfl (by simp [errorResponse]) rfl rfl hnot
  · refine meets_bind.mpr ?_
    refine newLoginState_meets hpasses hroute hun ?_ ?_
    · intro past' e
      exact .plain rfl (by simp [internalError, errorResponse]) rfl rfl hnot
    · intro past' value now hmem
      refine ⟨?_, fun _ _ _ h => (by cases h), fun _ h hmode => absurd hmode (hnot h),
        fun _ h => (by cases h), fun _ h => (by cases h)⟩
      intro value' expires maxAge h
      obtain ⟨rfl, -, -⟩ := SetCookie.value.inj (Option.some.inj h)
      exact ⟨now, hmem⟩

theorem Outcome.failure {failure : Failure} {response : Response} (hstatus : 400 ≤ response.status)
    (hsession : response.sessionCookie = none) (horigin : response.allowOrigin = none)
    (hlocation : response.location = none) :
    Outcome tokenHash task past (callbackFailure failure response) where
  stateCookie value expires maxAge h := by cases h
  sessionCookie value expires maxAge h := by rw [callbackFailure, hsession] at h; cases h
  callback _ _ _ := ⟨rfl, Or.inr ⟨hstatus, rfl, hsession, hlocation⟩⟩
  location url h := by rw [callbackFailure, hlocation] at h; cases h
  allowOrigin origin h := by rw [callbackFailure, horigin] at h; cases h

theorem Outcome.failed {failure : Failure} {status : Nat} {message : String}
    (hstatus : 400 ≤ status) :
    Outcome tokenHash task past (callbackFailure failure (errorResponse status message)) :=
  .failure hstatus rfl rfl rfl

theorem googleCallback_meets (hpasses : Passes task)
    (hroute : task.request.route = .googleCallback) (hun : Unstored past) :
    (googleCallback tokenHash task.config task.request).Meets (Rule tokenHash task)
      (Outcome tokenHash task) past := by
  have hinternal : ∀ past', Outcome tokenHash task past'
      (callbackFailure .oauthInternal internalError) := fun past' => .failed (by omega)
  simp only [googleCallback]
  split
  · rename_i hmode
    exact .plain rfl (by simp [errorResponse]) rfl rfl fun _ => hmode
  rename_i hmode
  split
  · exact .failed (by omega)
  split
  · exact .failed (by omega)
  rename_i hstate
  obtain ⟨hne, hcookie⟩ := not_or.mp hstate
  have hpresented : Presented task := ⟨hroute, not_not.mp hmode, hne, not_not.mp hcookie⟩
  refine meets_bind.mpr ?_
  refine consumeLoginState_meets hpasses hpresented hun ?_ ?_
  · intro past' e
    cases e with
    | invalidState => exact .failed (by omega)
    | notAuthenticated | emailNotAllowed | identityConflict | internal => exact hinternal past'
  intro past₁ now path hun₁ hmem
  have hconsumed : Consumed tokenHash task past₁ := ⟨hpresented, now, path, hmem⟩
  dsimp only
  split
  · exact .failed (by omega)
  refine meets_bind.mpr ?_
  refine perform_meets (rule_of_allows hpasses ⟨hconsumed, rfl⟩ rfl)
    fun past₂ r hsub₂ hexchanged hun₂ => ?_
  cases r with
  | none => exact .failed (by omega)
  | some identity =>
    have hidentified : Identified tokenHash task past₂ identity :=
      ⟨hconsumed.mono hsub₂, hexchanged⟩
    refine meets_bind.mpr ?_
    refine authenticate_meets hpasses ⟨rfl, hidentified⟩ (hun₂ rfl hun₁) ?_ ?_
    · intro past' e
      cases e with
      | emailNotAllowed | identityConflict => exact .failed (by omega)
      | notAuthenticated | invalidState | internal => exact hinternal past'
    intro past₃ user hsub₃ hun₃ hauthenticated
    have hsigned : SignedIn tokenHash task past₃ user :=
      ⟨identity, hidentified.mono hsub₃, hauthenticated⟩
    refine meets_bind.mpr ?_
    refine newSession_meets hpasses hsigned hun₃ (fun past' e => hinternal past') ?_
    intro past₄ value expiresAt hsub₄ hinserted
    refine meets_bind.mpr ?_
    refine setSessionCookie_meets hpasses fun past₅ expires maxAge hsub₅ _ hof => ?_
    refine ⟨fun _ _ _ h => (by cases h), ?_, ?_, ?_, fun _ h => (by cases h)⟩
    · intro value' expires' maxAge' h
      obtain ⟨rfl, rfl, rfl⟩ := SetCookie.value.inj (Option.some.inj h)
      exact ⟨expiresAt, hof, Or.inl ⟨user, (hsigned.mono hsub₄).mono hsub₅, hsub₅ hinserted⟩⟩
    · intro _ _ _
      exact ⟨rfl, Or.inl ⟨rfl, rfl, ⟨value, expires, maxAge, rfl⟩, _, rfl⟩⟩
    · intro url h
      have hsub := List.Subset.trans hsub₂ (List.Subset.trans hsub₃ (List.Subset.trans hsub₄ hsub₅))
      exact ⟨now, path, hsub hmem, (Location.frontend.inj (Option.some.inj h)).symm⟩

theorem resolveUser_meets
    {post : Past Call.Reply → Except AuthError (Auth.User × Option Time) → Prop}
    (hpasses : Passes task) (hun : Unstored past) (herror : ∀ past' e, post past' (.error e))
    (hok : ∀ past' user expiresAt, Unstored past' → Acts tokenHash task past' user →
      (∀ e, expiresAt = some e → Resolved tokenHash task past' user e) →
      post past' (.ok (user, expiresAt))) :
    (resolveUser tokenHash task.config task.request).Meets (Rule tokenHash task) post past := by
  simp only [resolveUser]
  split
  · rename_i hmode
    refine meets_bind.mpr ?_
    refine authenticate_meets hpasses ⟨rfl, hmode, rfl⟩ hun herror ?_
    intro past' user _ hun' hauthenticated
    exact hok past' user none hun' (Or.inr ⟨hmode, hauthenticated⟩) fun e h => by cases h
  · rename_i hmode
    split
    · rename_i value hcookie
      refine meets_bind.mpr ?_
      refine resolveSession_meets hpasses hmode hcookie hun herror ?_
      intro past' user expiresAt hun' hresolved hallowed
      refine hok past' user (some expiresAt) hun' (Or.inl ⟨expiresAt, hresolved, hallowed⟩) ?_
      intro e h
      rwa [← Option.some.inj h]
    · exact herror past .notAuthenticated

theorem refreshSessionCookie_meets {post : Past Call.Reply → Option SetCookie → Prop}
    {expiresAt : Option Time} (hpasses : Passes task)
    (hpost : ∀ past' cookie, past ⊆ past' → (Unstored past → Unstored past') →
      (∀ value expires maxAge, cookie = some (.value value expires maxAge) →
        ∃ e, expiresAt = some e ∧ CookieOf past' expires maxAge e ∧
          task.request.sessionCookie = some value) → post past' cookie) :
    (refreshSessionCookie task.request expiresAt).Meets (Rule tokenHash task) post past := by
  have hnone : post past none :=
    hpost past none (List.Subset.refl past) id fun _ _ _ h => by cases h
  cases expiresAt with
  | none => exact hnone
  | some e =>
    simp only [refreshSessionCookie]
    split
    · rename_i value hcookie
      split
      · exact hnone
      · refine meets_bind.mpr ?_
        refine setSessionCookie_meets hpasses fun past' expires maxAge hsub hun' hof => ?_
        refine hpost past' _ hsub hun' fun value' expires' maxAge' h => ?_
        obtain ⟨rfl, rfl, rfl⟩ := SetCookie.value.inj (Option.some.inj h)
        exact ⟨e, rfl, hof, hcookie⟩
    · exact hnone

theorem droppedCookie_ne (c : Config) (r : Request) (value : Text) (expires : Option Time)
    (maxAge : Int) : droppedCookie c r ≠ some (.value value expires maxAge) := by
  unfold droppedCookie
  split
  · simp
  · simp

theorem session_meets (hpasses : Passes task) (hroute : task.request.route ≠ .googleCallback)
    (hun : Unstored past) :
    (session tokenHash task.config task.request).Meets (Rule tokenHash task)
      (Outcome tokenHash task) past := by
  refine meets_bind.mpr ?_
  refine resolveUser_meets hpasses hun ?_ ?_
  · intro past' e
    cases e with
    | notAuthenticated => exact .plain rfl (droppedCookie_ne _ _) rfl rfl fun h => absurd h hroute
    | invalidState | emailNotAllowed | identityConflict | internal =>
      exact .plain rfl (by simp [internalError, errorResponse]) rfl rfl fun h =>
        absurd h hroute
  · intro past₁ user expiresAt _ _ hresolved
    refine meets_bind.mpr ?_
    refine refreshSessionCookie_meets hpasses fun past₂ cookie hsub _ hcookie => ?_
    refine ⟨fun _ _ _ h => (by cases h), ?_, fun _ h => absurd h hroute, fun _ h => (by cases h),
      fun _ h => (by cases h)⟩
    intro value expires maxAge h
    obtain ⟨e, he, hof, hvalue⟩ := hcookie value expires maxAge h
    exact ⟨e, hof, Or.inr ⟨hvalue, user, (hresolved e he).mono hsub⟩⟩

theorem logout_meets (hpasses : Passes task) (hroute : task.request.route = .logout) :
    (logout tokenHash task.request).Meets (Rule tokenHash task) (Outcome tokenHash task) past := by
  have hnot : task.request.route = .googleCallback → task.config.authMode ≠ .google := by
    rw [hroute]
    exact fun h => by cases h
  simp only [logout]
  split
  · exact .plain rfl (by simp) rfl rfl hnot
  · rename_i value hcookie
    refine meets_bind.mpr ?_
    refine deleteSession_meets hpasses hroute hcookie fun past' result => ?_
    cases result with
    | ok _ => exact .plain rfl (by simp) rfl rfl hnot
    | error _ => exact .plain rfl (by simp [internalError, errorResponse]) rfl rfl hnot

/-- What a handler behind the middleware comes to: it sets nothing but status and body. -/
def Bare (response : Response) : Prop :=
  response.stateCookie = none ∧ response.sessionCookie = none ∧ response.location = none ∧
    response.allowOrigin = none

theorem authenticatedUser_meets {next : Auth.User → Prog Response} (hpasses : Passes task)
    (hroute : task.request.route ≠ .googleCallback) (hun : Unstored past)
    (hnext : ∀ past' user, Unstored past' → Acts tokenHash task past' user →
      (next user).Meets (Rule tokenHash task)
        (fun past'' response => past' ⊆ past'' ∧ Bare response) past') :
    (authenticatedUser tokenHash task.config task.request next).Meets (Rule tokenHash task)
      (Outcome tokenHash task) past := by
  refine meets_bind.mpr ?_
  refine resolveUser_meets hpasses hun ?_ ?_
  · intro past' e
    cases e with
    | notAuthenticated => exact .plain rfl (droppedCookie_ne _ _) rfl rfl fun h => absurd h hroute
    | invalidState | emailNotAllowed | identityConflict | internal =>
      exact .plain rfl (by simp [internalError, errorResponse]) rfl rfl fun h =>
        absurd h hroute
  · intro past₁ user expiresAt hun₁ hacts hresolved
    refine meets_bind.mpr ?_
    refine refreshSessionCookie_meets hpasses fun past₂ cookie hsub hun₂ hcookie => ?_
    refine meets_bind.mpr ((hnext past₂ user (hun₂ hun₁) (hacts.mono hsub)).mono ?_)
    intro more response hbare
    obtain ⟨hsub', hstate, -, hlocation, horigin⟩ := hbare
    refine ⟨?_, ?_, fun _ h => absurd h hroute, ?_, ?_⟩
    · intro value expires maxAge h
      rw [hstate] at h
      cases h
    · intro value expires maxAge h
      obtain ⟨e, he, hof, hvalue⟩ := hcookie value expires maxAge h
      exact ⟨e, hof.mono hsub', Or.inr ⟨hvalue, user, ((hresolved e he).mono hsub).mono hsub'⟩⟩
    · intro url h
      rw [hlocation] at h
      cases h
    · intro origin h
      rw [horigin] at h
      cases h

theorem handle_meets {route : Route} (hpasses : Passes task)
    (hallows : Allows tokenHash task past (.handle route user)) :
    (handle route user).Meets (Rule tokenHash task)
      (fun past' response => past ⊆ past' ∧ Bare response) past := by
  refine meets_bind.mpr ?_
  exact perform_meets (rule_of_allows hpasses hallows rfl) fun past' r hsub _ _ =>
    ⟨hsub, rfl, rfl, rfl, rfl⟩

theorem shortcutTokenStatus_meets (hpasses : Passes task)
    (hroute : task.request.route = .shortcutTokenStatus) (hacts : Acts tokenHash task past user) :
    (shortcutTokenStatus user).Meets (Rule tokenHash task)
      (fun past' response => past ⊆ past' ∧ Bare response) past := by
  refine meets_bind.mpr ?_
  refine perform_meets (rule_of_allows hpasses ⟨hroute, user, hacts, rfl⟩ rfl)
    fun past' r hsub _ _ => ?_
  cases r with
  | none => exact ⟨hsub, rfl, rfl, rfl, rfl⟩
  | some row =>
    cases row with
    | none => exact ⟨hsub, rfl, rfl, rfl, rfl⟩
    | some row => exact ⟨hsub, rfl, rfl, rfl, rfl⟩

theorem createToken_meets (hpasses : Passes task)
    (hroute : task.request.route = .createShortcutToken) (hacts : Acts tokenHash task past user)
    (hun : Unstored past) :
    (createToken tokenHash user).Meets (Rule tokenHash task)
      (fun past' response => past ⊆ past' ∧ Bare response) past := by
  refine meets_bind.mpr ?_
  refine createShortcutToken_meets hpasses hroute hacts hun fun past' result hsub => ?_
  cases result with
  | ok _ => exact ⟨hsub, rfl, rfl, rfl, rfl⟩
  | error _ => exact ⟨hsub, rfl, rfl, rfl, rfl⟩

theorem deleteToken_meets (hpasses : Passes task)
    (hroute : task.request.route = .deleteShortcutToken) (hacts : Acts tokenHash task past user) :
    (deleteToken user).Meets (Rule tokenHash task)
      (fun past' response => past ⊆ past' ∧ Bare response) past := by
  refine meets_bind.mpr ?_
  refine perform_meets (rule_of_allows hpasses ⟨hroute, user, hacts, rfl⟩ rfl)
    fun past' r hsub _ _ => ?_
  cases r with
  | none => exact ⟨hsub, rfl, rfl, rfl, rfl⟩
  | some _ => exact ⟨hsub, rfl, rfl, rfl, rfl⟩

theorem shortcutUser_meets {next : Auth.User → Prog Response} (hpasses : Passes task)
    (hroute : task.request.route = .shortcutImport)
    (hnext : ∀ past' user, Bears tokenHash task past' user →
      (next user).Meets (Rule tokenHash task)
        (fun past'' response => past' ⊆ past'' ∧ Bare response) past') :
    (shortcutUser tokenHash task.config task.request next).Meets (Rule tokenHash task)
      (Outcome tokenHash task) past := by
  have hplain : ∀ past' response, Bare response → Outcome tokenHash task past' response := by
    intro past' response hbare
    obtain ⟨hstate, hsession, hlocation, horigin⟩ := hbare
    refine .plain hstate (by simp [hsession]) hlocation horigin ?_
    rw [hroute]
    exact fun h => by cases h
  simp only [shortcutUser]
  split
  · rename_i token htoken
    refine meets_bind.mpr ?_
    refine resolveShortcutToken_meets hpasses hroute htoken ?_ ?_
    · intro past' e
      cases e with
      | notAuthenticated => exact hplain _ _ ⟨rfl, rfl, rfl, rfl⟩
      | invalidState | emailNotAllowed | identityConflict | internal =>
        exact hplain _ _ ⟨rfl, rfl, rfl, rfl⟩
    · intro past₁ user hmem
      dsimp only
      split
      · exact hplain _ _ ⟨rfl, rfl, rfl, rfl⟩
      · rename_i hallowed
        have hbears : Bears tokenHash task past₁ user :=
          ⟨hroute, by simpa using hallowed, token, htoken, hmem⟩
        refine meets_bind.mpr ?_
        refine perform_meets (rule_of_allows hpasses trivial rfl)
          fun past₂ now hsub₂ hread _ => ?_
        refine meets_bind.mpr ?_
        refine perform_meets (rule_of_allows hpasses
          ⟨hread, user, token, hbears.mono hsub₂, htoken, rfl⟩ rfl) fun past₃ _ hsub₃ _ _ => ?_
        refine (hnext past₃ user ((hbears.mono hsub₂).mono hsub₃)).mono fun more response h => ?_
        exact hplain _ _ h.2
  · exact hplain _ _ ⟨rfl, rfl, rfl, rfl⟩

theorem serveRoute_meets (hpasses : Passes task) (hun : Unstored past) :
    (serveRoute tokenHash task.config task.request).Meets (Rule tokenHash task)
      (Outcome tokenHash task) past := by
  have hacting : ∀ {next : Auth.User → Prog Response}, task.request.route ≠ .googleCallback →
      (∀ past' user, Unstored past' → Acts tokenHash task past' user →
        (next user).Meets (Rule tokenHash task)
          (fun past'' response => past' ⊆ past'' ∧ Bare response) past') →
      (authenticatedUser tokenHash task.config task.request next).Meets (Rule tokenHash task)
        (Outcome tokenHash task) past :=
    fun hroute hnext => authenticatedUser_meets hpasses hroute hun hnext
  simp only [serveRoute]
  cases hroute : task.request.route with
  | startGoogleLogin => exact startGoogleLogin_meets hpasses hroute hun
  | googleCallback => exact googleCallback_meets hpasses hroute hun
  | session => exact session_meets hpasses (by simp [hroute]) hun
  | logout => exact logout_meets hpasses hroute
  | shortcutImport =>
    refine shortcutUser_meets hpasses hroute fun past' user hbears => ?_
    exact handle_meets hpasses ⟨hroute.symm, by rwa [if_pos rfl]⟩
  | shortcutTokenStatus =>
    exact hacting (by simp [hroute]) fun past' user _ hacts =>
      shortcutTokenStatus_meets hpasses hroute hacts
  | createShortcutToken =>
    exact hacting (by simp [hroute]) fun past' user hun' hacts =>
      createToken_meets hpasses hroute hacts hun'
  | deleteShortcutToken =>
    exact hacting (by simp [hroute]) fun past' user _ hacts =>
      deleteToken_meets hpasses hroute hacts
  | api name =>
    refine hacting (by simp [hroute]) fun past' user _ hacts => ?_
    exact handle_meets hpasses ⟨hroute.symm, by rwa [if_neg (by simp)]⟩

end Handlers

/-- Every request keeps to its rule, and its response says what is so. -/
theorem main_meets (tokenHash : Text → Text) (task : Task) :
    (main tokenHash task).Meets (Rule tokenHash task) (Outcome tokenHash task) [] := by
  have hplain : ∀ response : Response, response.stateCookie = none →
      response.sessionCookie = none → response.location = none →
      (∀ origin, response.allowOrigin = some origin →
        origin = task.config.allowedOrigin ∧ origin = task.request.origin) → ¬Passes task →
      Outcome tokenHash task [] response := by
    intro response hstate hsession hlocation horigin hnot
    refine ⟨?_, ?_, fun h => absurd h hnot, ?_, horigin⟩
    · intro value expires maxAge h
      rw [hstate] at h
      cases h
    · intro value expires maxAge h
      rw [hsession] at h
      cases h
    · intro url h
      rw [hlocation] at h
      cases h
  have hallowed : ∀ origin, (if task.request.origin ≠ [] ∧
      task.request.origin = task.config.allowedOrigin then some task.request.origin else none) =
        some origin → origin = task.config.allowedOrigin ∧ origin = task.request.origin := by
    intro origin h
    split at h
    · rename_i hcond
      obtain rfl := Option.some.inj h
      exact ⟨hcond.2, rfl⟩
    · cases h
  simp only [main, serve]
  split
  · rename_i hforeign
    refine hplain _ rfl rfl rfl (fun _ h => by cases h) fun hpasses => ?_
    exact hpasses.admitted hforeign
  · rename_i hadmitted
    split
    · rename_i hoptions
      exact hplain _ rfl rfl rfl hallowed fun hpasses => hpasses.method hoptions
    · rename_i hmethod
      split
      · rename_i hrefused
        refine hplain _ rfl rfl rfl hallowed fun hpasses => ?_
        rw [hpasses.takes] at hrefused
        cases hrefused
      · rename_i htakes
        have hpasses : Passes task := ⟨hadmitted, hmethod, by simpa using htakes⟩
        refine meets_bind.mpr ((serveRoute_meets hpasses fun o ho => ?_).mono ?_)
        · cases ho
        · intro more response h
          exact ⟨h.stateCookie, h.sessionCookie, h.callback, h.location, hallowed⟩

end Noted.Sessions
