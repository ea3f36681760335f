import Noted.Sessions.Tables

/-!
# The handlers of sign-in and sessions (internal/auth and internal/httpapi)

The functions of `auth.Service` and the handlers that call them, as programs over the
calls of `Tables`. The errors of a statement are `internal`.
-/

namespace Noted.Sessions

open Library

abbrev Prog := Program Call.Reply

abbrev perform (c : Call) : Prog c.Reply := Program.perform c

abbrev query (q : Statement) : Prog (Option q.Result) := perform (.sql q)

structure Config where
  auth : Auth.Service
  authMode : AuthMode
  devUserEmail : Text
  frontendURL : Text
  allowedOrigin : Text
  sessionTTL : Time

/-- What the handlers read of an HTTP request; a query parameter that is missing is empty. -/
structure Request where
  route : Route
  method : Text
  origin : Text
  returnTo : Text
  error : Text
  state : Text
  code : Text
  stateCookie : Option Text
  sessionCookie : Option Text
  authorization : Text
  deriving DecidableEq

inductive AuthError
  | notAuthenticated
  | invalidState
  | emailNotAllowed
  | identityConflict
  | internal
  deriving DecidableEq

def stateLifetime : Time := 10 * 60 * 1000000

def safeReturnPath (value : Text) : Text :=
  let value := trimSpace value
  if value = [] ∨ !"/".toList.isPrefixOf value ∨ "//".toList.isPrefixOf value ∨
      value.any fun c => c == '\r' || c == '\n' then "/".toList
  else value

/-- A path that stays on the host it is appended to, and in its header. -/
def LocalPath (path : Text) : Prop :=
  "/".toList <+: path ∧ ¬"//".toList <+: path ∧ ∀ c ∈ path, c ≠ '\r' ∧ c ≠ '\n'

theorem safeReturnPath_local (value : Text) : LocalPath (safeReturnPath value) := by
  simp only [safeReturnPath]
  split
  · exact ⟨by decide, by decide, by simp⟩
  · rename_i h
    simp only [not_or, Bool.not_eq_true', Bool.not_eq_false, List.isPrefixOf_iff_prefix] at h
    exact ⟨h.2.1, h.2.2.1, by simpa using h.2.2.2⟩

theorem safeReturnPath_of_local {path : Text} (h : LocalPath path) (htrim : trimSpace path = path) :
    safeReturnPath path = path := by
  obtain ⟨hslash, hdouble, hbreak⟩ := h
  have hne : path ≠ [] := by
    rintro rfl
    simp at hslash
  simp only [safeReturnPath, htrim]
  rw [if_neg]
  simp only [not_or, Bool.not_eq_true', Bool.not_eq_false, List.isPrefixOf_iff_prefix]
  exact ⟨hne, hslash, hdouble, by simpa using hbreak⟩

theorem safeReturnPath_idem (value : Text) :
    safeReturnPath (safeReturnPath value) = safeReturnPath value := by
  refine safeReturnPath_of_local (safeReturnPath_local value) ?_
  simp only [safeReturnPath]
  split
  · decide
  · exact trimSpace_trimSpace value

/-- The CHECK constraint of the table refuses no path of a sign-in. -/
theorem admitted_safeReturnPath (stateHash value : Text) (expiresAt : Time) :
    (LoginStateRow.mk stateHash (safeReturnPath value) expiresAt).admitted = true := by
  obtain ⟨hslash, hdouble, -⟩ := safeReturnPath_local value
  rw [LoginStateRow.admitted, Bool.and_eq_true, Bool.not_eq_true', ← Bool.not_eq_true,
    List.isPrefixOf_iff_prefix, List.isPrefixOf_iff_prefix]
  exact ⟨hslash, hdouble⟩

section Service

variable (tokenHash : Text → Text) (c : Config)

def newLoginState (returnPath : Text) : Prog (Except AuthError Text) := do
  let returnPath := safeReturnPath returnPath
  let some value ← perform .randomToken | return .error .internal
  let now ← perform .now
  let some () ← query (.deleteExpiredStates now) | return .error .internal
  let some () ← query (.insertState ⟨tokenHash value, returnPath, now + stateLifetime⟩)
    | return .error .internal
  return .ok value

def consumeLoginState (value : Text) : Prog (Except AuthError Text) := do
  if value = [] then return .error .invalidState
  let now ← perform .now
  let some row ← query (.consumeState (tokenHash value) now) | return .error .internal
  let some returnPath := row | return .error .invalidState
  return .ok (safeReturnPath returnPath)

def settle (call : Nat) : Nat → Prog Auth.Answer
  | 0 => return .failed .other
  | steps + 1 => do
    match ← perform (.authNext c.auth call) with
    | .pending => settle call steps
    | answer => return answer

def resultOf : Auth.Answer → Except AuthError Auth.User
  | .user user => .ok user
  | .failed .emailNotAllowed => .error .emailNotAllowed
  | .failed .identityConflict => .error .identityConflict
  | _ => .error .internal

def authenticate (request : Auth.Request) : Prog (Except AuthError Auth.User) := do
  let (call, answer) ← perform (.authStart c.auth request)
  let answer ← if answer = .pending then settle c call 3 else pure answer
  return resultOf answer

def authenticateGoogle (identity : Auth.GoogleIdentity) : Prog (Except AuthError Auth.User) :=
  authenticate c (.google identity)

def ensureDevelopmentUser (email : Text) : Prog (Except AuthError Auth.User) :=
  authenticate c (.development email)

def newSession (userID : Text) : Prog (Except AuthError (Text × Time)) := do
  let some value ← perform .randomToken | return .error .internal
  let now ← perform .now
  let expiresAt := now + c.sessionTTL
  let some () ← query (.deleteExpiredSessions now) | return .error .internal
  let some () ← query (.insertSession ⟨userID, tokenHash value, expiresAt⟩)
    | return .error .internal
  return .ok (value, expiresAt)

def resolveSession (value : Text) : Prog (Except AuthError (Auth.User × Time)) := do
  if value = [] then return .error .notAuthenticated
  let now ← perform .now
  let some row ← query (.resolveSession (tokenHash value) now) | return .error .internal
  let some (user, expiresAt) := row | return .error .notAuthenticated
  if !c.auth.allowed (c.auth.normalizeEmail user.email) then
    let some () ← query (.deleteUserSessions user.id) | return .error .internal
    return .error .notAuthenticated
  return .ok (user, expiresAt)

def deleteSession (value : Text) : Prog (Except AuthError Unit) := do
  if value = [] then return .ok ()
  let some () ← query (.deleteSession (tokenHash value)) | return .error .internal
  return .ok ()

def createShortcutToken (userID : Text) : Prog (Except AuthError (Text × Time)) := do
  let some value ← perform .randomToken | return .error .internal
  let createdAt ← perform .now
  let some () ← query (.replaceShortcutToken ⟨userID, tokenHash value, createdAt, none⟩)
    | return .error .internal
  return .ok (value, createdAt)

def resolveShortcutToken (value : Text) : Prog (Except AuthError Auth.User) := do
  if value = [] then return .error .notAuthenticated
  let some row ← query (.resolveShortcutToken (tokenHash value)) | return .error .internal
  let some (stored, user) := row | return .error .notAuthenticated
  if stored ≠ tokenHash value then return .error .notAuthenticated
  return .ok user

end Service

def errorResponse (status : Nat) (message : String) : Response :=
  { status := status, body := .error message }

/-- `handleError` of an error that is none of the service's. -/
def internalError : Response := errorResponse 500 "internal server error"

/-- `int(time.Until(expiresAt).Seconds())`, at least one second before the expiry. -/
def setSessionCookie (value : Text) (expiresAt : Time) : Prog SetCookie := do
  let now ← perform .now
  let maxAge := Int.tdiv ((expiresAt : Int) - now) 1000000
  if maxAge = 0 then
    let now ← perform .now
    return .value value (some expiresAt) (if now < expiresAt then 1 else maxAge)
  return .value value (some expiresAt) maxAge

def trimRightSlash (t : Text) : Text := t.rdropWhile (· == '/')

section Handlers

variable (tokenHash : Text → Text) (c : Config) (r : Request)

def startGoogleLogin : Prog Response := do
  if c.authMode ≠ .google then return errorResponse 404 "google sign-in is not configured"
  let .ok state ← newLoginState tokenHash r.returnTo | return internalError
  return { status := 302, location := some (.google state),
           stateCookie := some (.value state none 600) }

/-- A callback that fails spends the state cookie and counts one failure. -/
def callbackFailure (failure : Failure) (response : Response) : Response :=
  { response with stateCookie := some .clear, failures := [failure] }

def googleCallback : Prog Response := do
  if c.authMode ≠ .google then return errorResponse 404 "google sign-in is not configured"
  if trimSpace r.error ≠ [] then
    return callbackFailure .oauthProviderError
      (errorResponse 401 "Google sign-in was not completed")
  if r.state = [] ∨ r.stateCookie ≠ some r.state then
    return callbackFailure .oauthInvalidState
      (errorResponse 401 "the sign-in request expired or was invalid")
  match ← consumeLoginState tokenHash r.state with
  | .error .invalidState =>
    return callbackFailure .oauthInvalidState
      (errorResponse 401 "the sign-in request expired or was already used")
  | .error _ => return callbackFailure .oauthInternal internalError
  | .ok returnPath =>
    let code := trimSpace r.code
    if code = [] then
      return callbackFailure .oauthMissingCode
        (errorResponse 401 "Google did not return an authorization code")
    let some identity ← perform (.exchangeGoogleIdentity code)
      | return callbackFailure .oauthExchange
          (errorResponse 502 "Google sign-in could not be completed")
    match ← authenticateGoogle c identity with
    | .error .emailNotAllowed =>
      return callbackFailure .loginNotAllowed
        (errorResponse 403 "this Google account is not allowed to use Noted")
    | .error .identityConflict =>
      return callbackFailure .loginIdentityConflict
        (errorResponse 409 "this email is linked to a different Google account")
    | .error _ => return callbackFailure .oauthInternal internalError
    | .ok user =>
      let .ok (token, expiresAt) ← newSession tokenHash c user.id
        | return callbackFailure .oauthInternal internalError
      let cookie ← setSessionCookie token expiresAt
      return { status := 302, stateCookie := some .clear, sessionCookie := some cookie,
               location := some (.frontend (trimRightSlash c.frontendURL ++ returnPath)) }

/-- The expiry is that of the session; in development there is none. -/
def resolveUser : Prog (Except AuthError (Auth.User × Option Time)) := do
  match c.authMode with
  | .development =>
    match ← ensureDevelopmentUser c c.devUserEmail with
    | .ok user => return .ok (user, none)
    | .error e => return .error e
  | .google =>
    let some value := r.sessionCookie | return .error .notAuthenticated
    match ← resolveSession tokenHash c value with
    | .ok (user, expiresAt) => return .ok (user, some expiresAt)
    | .error e => return .error e

def refreshSessionCookie : Option Time → Prog (Option SetCookie)
  | none => return none
  | some expiresAt => do
    let some value := r.sessionCookie | return none
    if value = [] then return none
    let cookie ← setSessionCookie value expiresAt
    return some cookie

/-- The cookie of a request that no session answers; a missing one is left alone. -/
def droppedCookie : Option SetCookie :=
  if c.authMode = .google ∧ r.sessionCookie.isSome then some .clear else none

def session : Prog Response := do
  match ← resolveUser tokenHash c r with
  | .error .notAuthenticated =>
    return { status := 200, body := .session c.authMode none, sessionCookie := droppedCookie c r }
  | .error _ => return internalError
  | .ok (user, expiresAt) =>
    let cookie ← refreshSessionCookie r expiresAt
    return { status := 200, body := .session c.authMode (some user), sessionCookie := cookie }

def logout : Prog Response := do
  match r.sessionCookie with
  | none => return { status := 204, sessionCookie := some .clear }
  | some value =>
    let .ok () ← deleteSession tokenHash value | return internalError
    return { status := 204, sessionCookie := some .clear }

def authenticatedUser (next : Auth.User → Prog Response) : Prog Response := do
  match ← resolveUser tokenHash c r with
  | .error .notAuthenticated =>
    return { errorResponse 401 "sign in to continue" with sessionCookie := droppedCookie c r }
  | .error _ => return internalError
  | .ok (user, expiresAt) =>
    let cookie ← refreshSessionCookie r expiresAt
    let response ← next user
    return { response with sessionCookie := cookie }

def shortcutTokenStatus (user : Auth.User) : Prog Response := do
  let some row ← query (.readShortcutToken user.id) | return internalError
  match row with
  | none => return { status := 200, body := .shortcutTokenStatus false none none }
  | some row =>
    return { status := 200, body := .shortcutTokenStatus true (some row.createdAt) row.lastUsedAt }

def createToken (user : Auth.User) : Prog Response := do
  let .ok (value, createdAt) ← createShortcutToken tokenHash user.id | return internalError
  return { status := 201, body := .shortcutToken value createdAt }

def deleteToken (user : Auth.User) : Prog Response := do
  let some () ← query (.deleteShortcutToken user.id) | return internalError
  return { status := 204 }

/-- The shape that `randomToken` issues: 32 bytes, base64url. -/
def tokenShaped (token : Text) : Bool :=
  byteLen token == 43 &&
    token.all fun x => ('A' ≤ x && x ≤ 'Z') || ('a' ≤ x && x ≤ 'z') || ('0' ≤ x && x ≤ '9') ||
      x == '-' || x == '_'

/-- Only ASCII letters fold to those of "Bearer". -/
def bearerToken (header : Text) : Option Text :=
  let scheme := header.takeWhile (· != ' ')
  match header.dropWhile (· != ' ') with
  | [] => none
  | _ :: token =>
    if scheme.map Char.toLower = "bearer".toList ∧ tokenShaped token then some token else none

def shortcutOwnerAllowed (user : Auth.User) : Bool :=
  let email := c.auth.normalizeEmail user.email
  match c.authMode with
  | .development => email != [] && email == c.devUserEmail
  | .google => c.auth.allowedEmails.contains email

def shortcutTokenInvalid : String := "This shortcut was turned off. Set it up again in Noted."

def shortcutRejected : Response :=
  { errorResponse 401 shortcutTokenInvalid with failures := [.loginShortcutToken] }

def shortcutUser (next : Auth.User → Prog Response) : Prog Response := do
  let some token := bearerToken r.authorization | return shortcutRejected
  match ← resolveShortcutToken tokenHash token with
  | .error .notAuthenticated => return shortcutRejected
  | .error _ => return internalError
  | .ok user =>
    if !shortcutOwnerAllowed c user then return shortcutRejected
    let now ← perform .now
    let _ ← query (.touchShortcutToken (tokenHash token) now)
    next user

def handle (route : Route) (user : Auth.User) : Prog Response := do
  let (status, body) ← perform (.handle route user)
  return { status := status, body := body }

/-- The handler of a route, behind the middleware that the router puts before it. -/
def serveRoute : Prog Response :=
  match r.route with
  | .startGoogleLogin => startGoogleLogin tokenHash c r
  | .googleCallback => googleCallback tokenHash c r
  | .session => session tokenHash c r
  | .logout => logout tokenHash r
  | .shortcutImport =>
    shortcutUser tokenHash c r (handle .shortcutImport)
  | .shortcutTokenStatus => authenticatedUser tokenHash c r shortcutTokenStatus
  | .createShortcutToken => authenticatedUser tokenHash c r (createToken tokenHash)
  | .deleteShortcutToken => authenticatedUser tokenHash c r deleteToken
  | .api name => authenticatedUser tokenHash c r (handle (.api name))

def isStateChangingMethod (method : Text) : Bool :=
  !List.contains ["GET".toList, "HEAD".toList, "OPTIONS".toList, "TRACE".toList] method

/-- `cors`, and the router behind it. -/
def serve : Prog Response := do
  let foreign := r.origin ≠ [] ∧ r.origin ≠ c.allowedOrigin
  if foreign ∧ isStateChangingMethod r.method then
    return errorResponse 403 "request origin is not allowed"
  let allowOrigin := if r.origin ≠ [] ∧ r.origin = c.allowedOrigin then some r.origin else none
  if r.method = "OPTIONS".toList then return { status := 204, allowOrigin := allowOrigin }
  if !r.route.takes r.method then return { status := 405, allowOrigin := allowOrigin }
  let response ← serveRoute tokenHash c r
  return { response with allowOrigin := allowOrigin }

end Handlers

structure Task where
  config : Config
  request : Request

abbrev System := Pool Call.Reply Db Task Response

abbrev Event := Pool.Event Task Choice

abbrev Step := Entry System Event (Option (Sigma Call.Reply))

def main (tokenHash : Text → Text) (task : Task) : Prog Response :=
  serve tokenHash task.config task.request

def step (tokenHash : Text → Text) : System → Event → Option (Option (Sigma Call.Reply) × System) :=
  Pool.step (main tokenHash) exec

def start (users : Auth.Users) : System := ⟨⟨⟨users, []⟩, ∅, ∅, ∅⟩, []⟩

end Noted.Sessions
