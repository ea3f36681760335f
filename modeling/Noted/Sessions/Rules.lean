import Noted.Sessions.Handlers

/-!
# What a request may do, and when

The rule of a request says which calls it makes after which answers: whose name it acts
in, what it looks up, and what it stores. Every handler keeps to it.
-/

namespace Noted.Sessions

open Library Program

def Call.stores : Call → Option Text
  | .sql (.insertState row) => some row.stateHash
  | .sql (.insertSession row) => some row.tokenHash
  | .sql (.replaceShortcutToken row) => some row.tokenHash
  | _ => none

/-- The user in whose name a call of a session is made. -/
def Call.actor : Call → Option Text
  | .handle route user => if route = .shortcutImport then none else some user.id
  | .sql (.readShortcutToken userID) => some userID
  | .sql (.replaceShortcutToken row) => some row.userID
  | .sql (.deleteShortcutToken userID) => some userID
  | _ => none

variable (tokenHash : Text → Text) (task : Task) (past : Past Call.Reply)

def Admitted : Prop :=
  ¬((task.request.origin ≠ [] ∧ task.request.origin ≠ task.config.allowedOrigin) ∧
    isStateChangingMethod task.request.method = true)

structure Passes : Prop where
  admitted : Admitted task
  method : task.request.method ≠ "OPTIONS".toList
  takes : task.request.route.takes task.request.method = true

def Drew (value : Text) : Prop := ⟨.randomToken, some value⟩ ∈ past

def Read (now : Time) : Prop := ⟨.now, now⟩ ∈ past

def Unstored : Prop := ∀ o ∈ past, o.1.stores = none

/-- A callback in the browser that holds the state's cookie. -/
structure Presented : Prop where
  route : task.request.route = .googleCallback
  mode : task.config.authMode = .google
  state : task.request.state ≠ []
  cookie : task.request.stateCookie = some task.request.state

structure Consumed : Prop extends Presented task where
  consumed : ∃ now returnPath,
    ⟨.sql (.consumeState (tokenHash task.request.state) now), some (some returnPath)⟩ ∈ past

structure Identified (identity : Auth.GoogleIdentity) : Prop
    extends Consumed tokenHash task past where
  exchanged : ⟨.exchangeGoogleIdentity (trimSpace task.request.code), some identity⟩ ∈ past

def Authenticated (request : Auth.Request) (user : Auth.User) : Prop :=
  ∃ call answer, ⟨.authStart task.config.auth request, (call, answer)⟩ ∈ past ∧
    (answer = .user user ∨
      answer = .pending ∧ ⟨.authNext task.config.auth call, .user user⟩ ∈ past)

/-- Google has named the user to a callback whose state was there. -/
def SignedIn (user : Auth.User) : Prop :=
  ∃ identity, Identified tokenHash task past identity ∧
    Authenticated task past (.google identity) user

/-- The session of the request's cookie has answered. -/
def Resolved (user : Auth.User) (expiresAt : Time) : Prop :=
  task.config.authMode = .google ∧
    ∃ value now, task.request.sessionCookie = some value ∧
      ⟨.sql (.resolveSession (tokenHash value) now), some (some (user, expiresAt))⟩ ∈ past

def Acts (user : Auth.User) : Prop :=
  (∃ expiresAt, Resolved tokenHash task past user expiresAt ∧
      task.config.auth.allowed (task.config.auth.normalizeEmail user.email) = true) ∨
    (task.config.authMode = .development ∧
      Authenticated task past (.development task.config.devUserEmail) user)

def Bears (user : Auth.User) : Prop :=
  task.request.route = .shortcutImport ∧ shortcutOwnerAllowed task.config user = true ∧
    ∃ token, bearerToken task.request.authorization = some token ∧
      ⟨.sql (.resolveShortcutToken (tokenHash token)), some (some (tokenHash token, user))⟩ ∈ past

def Statement.Allowed : Statement → Prop
  | .insertState row =>
    task.request.route = .startGoogleLogin ∧
      ∃ value now, Drew past value ∧ Read past now ∧
        row = ⟨tokenHash value, safeReturnPath task.request.returnTo, now + stateLifetime⟩
  | .consumeState stateHash now =>
    Presented task ∧ Read past now ∧ stateHash = tokenHash task.request.state
  | .insertSession row =>
    ∃ user value now, SignedIn tokenHash task past user ∧ Drew past value ∧ Read past now ∧
      row = ⟨user.id, tokenHash value, now + task.config.sessionTTL⟩
  | .resolveSession hash now =>
    task.config.authMode = .google ∧ Read past now ∧
      ∃ value, task.request.sessionCookie = some value ∧ hash = tokenHash value
  | .deleteUserSessions userID =>
    ∃ user expiresAt, Resolved tokenHash task past user expiresAt ∧ user.id = userID ∧
      task.config.auth.allowed (task.config.auth.normalizeEmail user.email) = false
  | .deleteSession hash =>
    task.request.route = .logout ∧
      ∃ value, task.request.sessionCookie = some value ∧ hash = tokenHash value
  | .readShortcutToken userID =>
    task.request.route = .shortcutTokenStatus ∧
      ∃ user, Acts tokenHash task past user ∧ user.id = userID
  | .replaceShortcutToken row =>
    task.request.route = .createShortcutToken ∧
      ∃ user value now, Acts tokenHash task past user ∧ Drew past value ∧ Read past now ∧
        row = ⟨user.id, tokenHash value, now, none⟩
  | .deleteShortcutToken userID =>
    task.request.route = .deleteShortcutToken ∧
      ∃ user, Acts tokenHash task past user ∧ user.id = userID
  | .resolveShortcutToken hash =>
    task.request.route = .shortcutImport ∧
      ∃ token, bearerToken task.request.authorization = some token ∧ hash = tokenHash token
  | .touchShortcutToken hash now =>
    Read past now ∧ ∃ user token, Bears tokenHash task past user ∧
      bearerToken task.request.authorization = some token ∧ hash = tokenHash token
  | .deleteExpiredStates _ | .deleteExpiredSessions _ => True

def Allows : Call → Prop
  | .exchangeGoogleIdentity code =>
    Consumed tokenHash task past ∧ code = trimSpace task.request.code
  | .authStart s request =>
    s = task.config.auth ∧
      match request with
      | .google identity => Identified tokenHash task past identity
      | .development email =>
        task.config.authMode = .development ∧ email = task.config.devUserEmail
  | .handle route user =>
    route = task.request.route ∧
      if route = .shortcutImport then Bears tokenHash task past user
      else Acts tokenHash task past user
  | .sql q => q.Allowed tokenHash task past
  | .now | .randomToken | .authNext _ _ => True

/-- The rule of a request: it reaches its handler, the call is one it may make now, and it
stores at most one token. -/
structure Rule (c : Call) : Prop where
  passes : Passes task
  allows : Allows tokenHash task past c
  once : c.stores ≠ none → Unstored past

/-- The cookie ends with the session, or less than a second later, and is a session cookie
only when the session is over. -/
structure CookieOf (expires : Option Time) (maxAge : Int) (expiresAt : Time) : Prop where
  expires : expires = some expiresAt
  fits : ∃ now, Read past now ∧ maxAge * 1000000 < (expiresAt : Int) - now + 1000000
  ended : maxAge = 0 → ∃ now, Read past now ∧ expiresAt ≤ now

def CookieFrom (value : Text) (expiresAt : Time) : Prop :=
  (∃ user, SignedIn tokenHash task past user ∧
      ⟨.sql (.insertSession ⟨user.id, tokenHash value, expiresAt⟩), some ()⟩ ∈ past) ∨
    task.request.sessionCookie = some value ∧ ∃ user, Resolved tokenHash task past user expiresAt

def Returns (url : Text) : Prop :=
  ∃ now path, ⟨.sql (.consumeState (tokenHash task.request.state) now), some (some path)⟩ ∈ past ∧
    url = trimRightSlash task.config.frontendURL ++ safeReturnPath path

/-- A callback redirects to the application with a session for the user whom Google named, or
counts one failure and sets no session; either way it spends the cookie of its state. -/
def Settled (response : Response) : Prop :=
  response.stateCookie = some .clear ∧
    ((response.status = 302 ∧ response.failures = [] ∧
        (∃ value expires maxAge, response.sessionCookie = some (.value value expires maxAge)) ∧
        ∃ url, response.location = some (.frontend url)) ∨
      (400 ≤ response.status ∧ response.failures.length = 1 ∧ response.sessionCookie = none ∧
        response.location = none))

structure Outcome (response : Response) : Prop where
  stateCookie : ∀ value expires maxAge,
    response.stateCookie = some (.value value expires maxAge) →
      ∃ now, ⟨.sql (.insertState ⟨tokenHash value, safeReturnPath task.request.returnTo,
        now + stateLifetime⟩), some ()⟩ ∈ past
  sessionCookie : ∀ value expires maxAge,
    response.sessionCookie = some (.value value expires maxAge) →
      ∃ expiresAt, CookieOf past expires maxAge expiresAt ∧
        CookieFrom tokenHash task past value expiresAt
  callback : Passes task → task.request.route = .googleCallback →
    task.config.authMode = .google → Settled response
  location : ∀ url, response.location = some (.frontend url) → Returns tokenHash task past url
  allowOrigin : ∀ origin, response.allowOrigin = some origin →
    origin = task.config.allowedOrigin ∧ origin = task.request.origin

variable {tokenHash task past} {past' : Past Call.Reply} {user : Auth.User} {value : Text}
  {now expiresAt : Time} {identity : Auth.GoogleIdentity} {request : Auth.Request}

section Growing

variable (hsub : past ⊆ past')
include hsub

theorem Consumed.mono (h : Consumed tokenHash task past) : Consumed tokenHash task past' where
  toPresented := h.toPresented
  consumed := by
    obtain ⟨now, path, hmem⟩ := h.consumed
    exact ⟨now, path, hsub hmem⟩

theorem Identified.mono (h : Identified tokenHash task past identity) :
    Identified tokenHash task past' identity where
  toConsumed := h.toConsumed.mono hsub
  exchanged := hsub h.exchanged

theorem Authenticated.mono (h : Authenticated task past request user) :
    Authenticated task past' request user := by
  obtain ⟨call, answer, hstart, hnext⟩ := h
  exact ⟨call, answer, hsub hstart, hnext.imp_right fun hmem => ⟨hmem.1, hsub hmem.2⟩⟩

theorem SignedIn.mono (h : SignedIn tokenHash task past user) :
    SignedIn tokenHash task past' user := by
  obtain ⟨identity, hidentified, hauthenticated⟩ := h
  exact ⟨identity, hidentified.mono hsub, hauthenticated.mono hsub⟩

theorem Resolved.mono (h : Resolved tokenHash task past user expiresAt) :
    Resolved tokenHash task past' user expiresAt := by
  obtain ⟨hmode, value, now, hcookie, hmem⟩ := h
  exact ⟨hmode, value, now, hcookie, hsub hmem⟩

theorem Acts.mono (h : Acts tokenHash task past user) : Acts tokenHash task past' user := by
  obtain ⟨expiresAt, hresolved, hallowed⟩ | ⟨hmode, hauthenticated⟩ := h
  · exact Or.inl ⟨expiresAt, hresolved.mono hsub, hallowed⟩
  · exact Or.inr ⟨hmode, hauthenticated.mono hsub⟩

theorem Bears.mono (h : Bears tokenHash task past user) : Bears tokenHash task past' user := by
  obtain ⟨hroute, hallowed, token, htoken, hmem⟩ := h
  exact ⟨hroute, hallowed, token, htoken, hsub hmem⟩

theorem CookieOf.mono {expires : Option Time} {maxAge : Int}
    (h : CookieOf past expires maxAge expiresAt) : CookieOf past' expires maxAge expiresAt where
  expires := h.expires
  fits := by
    obtain ⟨now, hread, hfits⟩ := h.fits
    exact ⟨now, hsub hread, hfits⟩
  ended hzero := by
    obtain ⟨now, hread, hended⟩ := h.ended hzero
    exact ⟨now, hsub hread, hended⟩

end Growing

theorem rule_of_allows {c : Call} (hpasses : Passes task) (h : Allows tokenHash task past c)
    (hstores : c.stores = none) : Rule tokenHash task past c :=
  ⟨hpasses, h, fun hne => absurd hstores hne⟩

/-- One call: the past grows by it, and no token is stored that the call does not store. -/
theorem perform_meets {c : Call} {post : Past Call.Reply → c.Reply → Prop}
    (hrule : Rule tokenHash task past c)
    (hpost : ∀ past' r, past ⊆ past' → ⟨c, r⟩ ∈ past' →
      (c.stores = none → Unstored past → Unstored past') → post past' r) :
    (perform c).Meets (Rule tokenHash task) post past := by
  refine meets_perform.mpr ⟨hrule, fun r => hpost _ r ?_ ?_ ?_⟩
  · exact List.subset_append_left past _
  · exact List.mem_append_right _ (List.mem_singleton_self _)
  · intro hstores hun o ho
    obtain ho | ho := List.mem_append.mp ho
    · exact hun o ho
    · rwa [List.mem_singleton.mp ho]

theorem Rule.drew {c : Call} {hash : Text} (h : Rule tokenHash task past c)
    (hstores : c.stores = some hash) : ∃ value, Drew past value ∧ tokenHash value = hash := by
  cases c with
  | sql q =>
    cases q with
    | insertState row =>
      obtain ⟨-, value, now, hdrew, -, rfl⟩ := h.allows
      exact ⟨value, hdrew, Option.some.inj hstores⟩
    | insertSession row =>
      obtain ⟨user, value, now, -, hdrew, -, rfl⟩ := h.allows
      exact ⟨value, hdrew, Option.some.inj hstores⟩
    | replaceShortcutToken row =>
      obtain ⟨-, user, value, now, -, hdrew, -, rfl⟩ := h.allows
      exact ⟨value, hdrew, Option.some.inj hstores⟩
    | _ => cases hstores
  | _ => cases hstores

theorem Rule.acts {c : Call} {id : Text} (h : Rule tokenHash task past c)
    (hactor : c.actor = some id) : ∃ user, Acts tokenHash task past user ∧ user.id = id := by
  cases c with
  | sql q =>
    cases q with
    | readShortcutToken userID =>
      obtain ⟨-, user, hacts, rfl⟩ := h.allows
      exact ⟨user, hacts, Option.some.inj hactor⟩
    | replaceShortcutToken row =>
      obtain ⟨-, user, value, now, hacts, -, -, rfl⟩ := h.allows
      exact ⟨user, hacts, Option.some.inj hactor⟩
    | deleteShortcutToken userID =>
      obtain ⟨-, user, hacts, rfl⟩ := h.allows
      exact ⟨user, hacts, Option.some.inj hactor⟩
    | _ => cases hactor
  | handle route user =>
    obtain ⟨-, hacts⟩ := h.allows
    simp only [Call.actor] at hactor
    split at hactor
    · cases hactor
    · rename_i hroute
      rw [if_neg hroute] at hacts
      exact ⟨user, hacts, Option.some.inj hactor⟩
  | _ => cases hactor

end Noted.Sessions
