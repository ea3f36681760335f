import Noted.Auth
import Noted.Library.Programs
import Noted.Types

/-!
# Sign-ins, sessions and shortcut tokens in the database (internal/auth)

The rows of `oauth_login_states`, `user_sessions` and `shortcut_tokens`, beside the users
of `Auth`, and the calls that the handlers make: the statements, the clock, the random
source, Google, and the handlers of the service. A statement can fail, and one that lost
its connection may have been carried out. The transaction of `CreateShortcutToken` takes
effect at its commit. A token is stored as its hash.
-/

namespace Noted.Sessions

open Library

structure LoginStateRow where
  stateHash : Text
  returnPath : Text
  expiresAt : Time
  deriving DecidableEq

/-- `CHECK (return_path LIKE '/%' AND return_path NOT LIKE '//%')` -/
def LoginStateRow.admitted (r : LoginStateRow) : Bool :=
  "/".toList.isPrefixOf r.returnPath && !"//".toList.isPrefixOf r.returnPath

structure SessionRow where
  userID : Text
  tokenHash : Text
  expiresAt : Time
  deriving DecidableEq

structure ShortcutTokenRow where
  userID : Text
  tokenHash : Text
  createdAt : Time
  lastUsedAt : Option Time
  deriving DecidableEq

structure Db where
  auth : Auth.State
  loginStates : Table LoginStateRow.stateHash
  userSessions : Table SessionRow.tokenHash
  shortcutTokens : Table ShortcutTokenRow.userID

inductive Route
  | startGoogleLogin
  | googleCallback
  | session
  | logout
  | shortcutImport
  | shortcutTokenStatus
  | createShortcutToken
  | deleteShortcutToken
  /-- Another route of the group behind `authenticatedUser`. -/
  | api (name : Text)
  deriving DecidableEq

def Route.takes (method : Text) : Route → Bool
  | .startGoogleLogin | .googleCallback | .session | .shortcutTokenStatus => method == "GET".toList
  | .shortcutImport | .createShortcutToken => method == "POST".toList
  | .logout | .deleteShortcutToken => method == "DELETE".toList
  | .api _ => true

inductive SetCookie
  | value (value : Text) (expires : Option Time) (maxAge : Int)
  | clear
  deriving DecidableEq

inductive AuthMode
  | development
  | google
  deriving DecidableEq

inductive Location
  /-- Google's authorization endpoint, with the state of the request. -/
  | google (state : Text)
  | frontend (url : Text)
  deriving DecidableEq

inductive Body
  | empty
  | error (message : String)
  | session (authMode : AuthMode) (user : Option Auth.User)
  | shortcutToken (value : Text) (createdAt : Time)
  | shortcutTokenStatus (active : Bool) (createdAt lastUsedAt : Option Time)
  | other (content : Text)
  deriving DecidableEq

inductive Failure
  | oauthProviderError
  | oauthInvalidState
  | oauthMissingCode
  | oauthExchange
  | oauthInternal
  | loginNotAllowed
  | loginIdentityConflict
  | loginShortcutToken
  deriving DecidableEq

structure Response where
  status : Nat
  body : Body := .empty
  location : Option Location := none
  stateCookie : Option SetCookie := none
  sessionCookie : Option SetCookie := none
  allowOrigin : Option Text := none
  failures : List Failure := []
  deriving DecidableEq

inductive Statement
  | deleteExpiredStates (now : Time)
  | insertState (row : LoginStateRow)
  | consumeState (stateHash : Text) (now : Time)
  | deleteExpiredSessions (now : Time)
  | insertSession (row : SessionRow)
  | resolveSession (tokenHash : Text) (now : Time)
  | deleteUserSessions (userID : Text)
  | deleteSession (tokenHash : Text)
  | readShortcutToken (userID : Text)
  | replaceShortcutToken (row : ShortcutTokenRow)
  | deleteShortcutToken (userID : Text)
  | resolveShortcutToken (tokenHash : Text)
  | touchShortcutToken (tokenHash : Text) (now : Time)

@[reducible] def Statement.Result : Statement → Type
  | .consumeState _ _ => Option Text
  | .resolveSession _ _ => Option (Auth.User × Time)
  | .readShortcutToken _ => Option ShortcutTokenRow
  | .resolveShortcutToken _ => Option (Text × Auth.User)
  | .deleteExpiredStates _ | .insertState _ | .deleteExpiredSessions _ | .insertSession _
  | .deleteUserSessions _ | .deleteSession _ | .replaceShortcutToken _ | .deleteShortcutToken _
  | .touchShortcutToken _ _ => Unit

inductive Call
  | now
  | randomToken
  | exchangeGoogleIdentity (code : Text)
  | sql (q : Statement)
  | authStart (s : Auth.Service) (request : Auth.Request)
  | authNext (s : Auth.Service) (call : Nat)
  /-- A handler of the service runs for a user; it answers with a status and a body. -/
  | handle (route : Route) (user : Auth.User)

@[reducible] def Call.Reply : Call → Type
  | .now => Time
  | .randomToken => Option Text
  | .exchangeGoogleIdentity _ => Option Auth.GoogleIdentity
  | .sql q => Option q.Result
  | .authStart _ _ => Nat × Auth.Answer
  | .authNext _ _ => Auth.Answer
  | .handle _ _ => Nat × Body

/-- What is left open about the answer of a call. -/
inductive Choice
  | ok
  | lost (carriedOut : Bool)
  | time (now : Time)
  | token (value : Option Text)
  | identity (identity : Option Auth.GoogleIdentity)
  | newID (id : Text)
  | commit (answered : Bool)
  | abort
  | handled (status : Nat) (body : Body)

namespace Db

variable (db : Db)

def user? (id : Text) : Option Auth.User :=
  (db.auth.users.find? fun u => u.id == id).map Auth.UserRow.user

def insertState (row : LoginStateRow) : Option Db :=
  if row.admitted then (db.loginStates.insert? row).map fun t => { db with loginStates := t }
  else none

def consumeState (stateHash : Text) (now : Time) : Option Text × Db :=
  let live : LoginStateRow → Bool := fun r => r.stateHash == stateHash && decide (now < r.expiresAt)
  ((db.loginStates.find? live).map LoginStateRow.returnPath,
    { db with loginStates := db.loginStates.delete live })

def insertSession (row : SessionRow) : Option Db :=
  if (db.user? row.userID).isSome then
    (db.userSessions.insert? row).map fun t => { db with userSessions := t }
  else none

/-- `last_seen_at`, which nothing reads, is left out. -/
def resolveSession (tokenHash : Text) (now : Time) : Option (Auth.User × Time) :=
  (db.userSessions.find? fun r => r.tokenHash == tokenHash && decide (now < r.expiresAt)).bind
    fun r => (db.user? r.userID).map fun u => (u, r.expiresAt)

/-- The DELETE and the INSERT of `CreateShortcutToken`; a hash is unique over all users. -/
def replaceShortcutToken (row : ShortcutTokenRow) : Option Db :=
  let rest := db.shortcutTokens.delete fun r => r.userID == row.userID
  if (db.user? row.userID).isSome && !rest.rows.any fun r => r.tokenHash == row.tokenHash then
    (rest.insert? row).map fun t => { db with shortcutTokens := t }
  else none

def resolveShortcutToken (tokenHash : Text) : Option (Text × Auth.User) :=
  (db.shortcutTokens.find? fun r => r.tokenHash == tokenHash).bind
    fun r => (db.user? r.userID).map fun u => (r.tokenHash, u)

def touchShortcutToken (tokenHash : Text) (now : Time) : Db :=
  { db with
    shortcutTokens :=
      db.shortcutTokens.modify (fun r => r.tokenHash == tokenHash)
        (fun r => { r with lastUsedAt := some now }) fun _ => rfl }

end Db

/-- What a statement answers and leaves; one that violates a constraint changes nothing. -/
def Statement.run (db : Db) : (q : Statement) → Option (q.Result × Db)
  | .deleteExpiredStates now =>
    some ((), { db with loginStates := db.loginStates.delete fun r => decide (r.expiresAt ≤ now) })
  | .insertState row => (db.insertState row).map fun db' => ((), db')
  | .consumeState stateHash now => some (db.consumeState stateHash now)
  | .deleteExpiredSessions now =>
    let userSessions := db.userSessions.delete fun r => decide (r.expiresAt ≤ now)
    some ((), { db with userSessions := userSessions })
  | .insertSession row => (db.insertSession row).map fun db' => ((), db')
  | .resolveSession tokenHash now => some (db.resolveSession tokenHash now, db)
  | .deleteUserSessions userID =>
    some ((), { db with userSessions := db.userSessions.delete fun r => r.userID == userID })
  | .deleteSession tokenHash =>
    some ((), { db with userSessions := db.userSessions.delete fun r => r.tokenHash == tokenHash })
  | .readShortcutToken userID => some (db.shortcutTokens.find? fun r => r.userID == userID, db)
  | .replaceShortcutToken row => (db.replaceShortcutToken row).map fun db' => ((), db')
  | .deleteShortcutToken userID =>
    some ((), { db with shortcutTokens := db.shortcutTokens.delete fun r => r.userID == userID })
  | .resolveShortcutToken tokenHash => some (db.resolveShortcutToken tokenHash, db)
  | .touchShortcutToken tokenHash now => some ((), db.touchShortcutToken tokenHash now)

def attempt (q : Statement) (choice : Choice) (db : Db) : Option (Option q.Result × Db) :=
  match choice, q.run db with
  | .ok, some (a, db') => some (some a, db')
  | .ok, none => some (none, db)
  | .lost true, some (_, db') => some (none, db')
  | .lost _, _ => some (none, db)
  | _, _ => none

def authStep (s : Auth.Service) (e : Auth.Event) (db : Db) : Option (Auth.Answer × Db) :=
  (Auth.step s db.auth e).map fun (a, auth) => (a, { db with auth })

def authEvent (call : Nat) : Choice → Option Auth.Event
  | .newID id => some (.statement call id)
  | .commit answered => some (.commit call answered)
  | .abort => some (.abort call)
  | _ => none

def exec (c : Call) (choice : Choice) (db : Db) : Option (c.Reply × Db) :=
  match c, choice with
  | .now, .time now => some (now, db)
  | .randomToken, .token value => some (value, db)
  | .exchangeGoogleIdentity _, .identity identity => some (identity, db)
  | .sql q, choice => attempt q choice db
  | .authStart s request, _ =>
    (authStep s (.start request) db).map fun (a, db') => ((db.auth.calls.length, a), db')
  | .authNext s call, choice => (authEvent call choice).bind fun e => authStep s e db
  | .handle _ _, .handled status body => some ((status, body), db)
  | _, _ => none

end Noted.Sessions
