import Nexara.Sessions.Statements

/-!
# Signing in, refreshing, signing out

The handlers of `auth.go`, `auth_sessions.go`, `totp.go` and `users.go` that create, rotate and
revoke sessions, and the functions of `session.go` under them, as the roles of one system
(`sessions`). Redis mirrors, cookies, audit rows and logging are left out: nothing here reads them.
-/

namespace Nexara.Sessions

open Conc

/-- The refresh token a request presents. -/
inductive Token where
  | absent
  | tooLong
  | value (tokenHash : ℕ)

/-! ## The session manager -/

/-- A session, `ErrInvalidToken`, or a lookup that could not be made. -/
inductive Lookup where
  | found (id : ℕ) (session : Session)
  | invalid
  | failed (e : Err)

def validateRefreshToken (tokenHash : ℕ) : Code Lookup := do
  match (← db (.getSessionByTokenHash tokenHash) : Except Err (Option (ℕ × Session))) with
  | .error e => return .failed e
  | .ok none => return .invalid
  | .ok (some (id, session)) =>
    if session.isRevoked then return .invalid
    else do
      let now ← timeNow
      if session.expiresAt < now then return .invalid else return .found id session

/-- In seconds. -/
def previousTokenRevocationWindow : ℕ := 120

/-- In seconds. -/
def concurrentRefreshTolerance : ℕ := 10

/-- The session whose token was replaced within the window. -/
def findReplaced (tokenHash window : ℕ) : Code Lookup := do
  match (← db (.getSessionByPreviousTokenHash tokenHash window) :
    Except Err (Option (ℕ × Session))) with
  | .error e => return .failed e
  | .ok none => return .invalid
  | .ok (some (id, session)) => do
    let now ← timeNow
    if session.expiresAt < now then return .invalid else return .found id session

def findSessionForLogout (tokenHash : ℕ) : Code Lookup := do
  match ← validateRefreshToken tokenHash with
  | .found id session => return .found id session
  | .failed e => return .failed e
  | .invalid => findReplaced tokenHash previousTokenRevocationWindow

def refusalSparesCookie (tokenHash : ℕ) : Code Bool := do
  match ← findReplaced tokenHash concurrentRefreshTolerance with
  | .found _ _ => return true
  | .invalid | .failed _ => return false

inductive Creation where
  | session (id : ℕ)
  | refused
  | failed (e : Err)

def createSession (u epoch tokenHash : ℕ) (role : String) (ttl : ℕ) : Code Creation := do
  let now ← timeNow
  match (← db (.createSessionAtEpoch u epoch tokenHash (now + ttl) role) :
    Except Err (Option ℕ)) with
  | .error e => return .failed e
  | .ok none => return .refused
  | .ok (some id) => return .session id

/-- What came of a rotation: `ErrInvalidToken` when it changed no row. -/
inductive Rotation where
  | rotated | invalid
  | failed (e : Err)

def rotateRefreshToken (id : ℕ) (session : Session) (newTokenHash : ℕ) (role : String) :
    Code Rotation := do
  match (← db (.rotateSessionToken id session.tokenHash newTokenHash role) : Except Err ℕ) with
  | .error e => return .failed e
  | .ok 0 => return .invalid
  | .ok (_ + 1) => return .rotated

/-- Bump, list, revoke; the error of the first that fails. -/
def revokeAllUserSessionsIn (via : Via) (u : ℕ) : Code (Except Err (List ℕ)) := do
  match (← db (.bumpUserAuthEpoch via u) : Except Err ℕ) with
  | .error e => return .error e
  | .ok _ => do
    match (← db (.listUserSessions via u) : Except Err (List ℕ)) with
    | .error e => return .error e
    | .ok ids => do
      match (← db (.revokeAllUserSessions via u) : Except Err Unit) with
      | .error e => return .error e
      | .ok _ => return .ok ids

/-! ## Signing in -/

/-- 503 for a database that is away, 500 for one that refuses. -/
def dbFailed (e : Err) (unavailable message : String) : Code Unit :=
  if e.transient then respond 503 unavailable else respond 500 message

def signInSupersededMessage : String :=
  "Your sign-in could not be completed because your account's sessions were ended while it was " ++
  "in progress (a password change, a sign-out of all devices or a change to the account). " ++
  "Please sign in again."

def signInUnavailableMessage : String :=
  "The sign-in could not be completed right now because the service was too busy or " ++
  "unavailable. Nothing was issued, so you are not signed in; please sign in again shortly."

def signInFailedMessage : String :=
  "The sign-in could not be completed. Nothing was issued, so you are not signed in; please " ++
  "sign in again."

/-- End the session of the cookie that a sign-in replaces. -/
def endReplacedSession (cookie : Token) (keep : ℕ) : Code Unit := do
  match cookie with
  | .absent | .tooLong => return
  | .value tokenHash =>
    match ← validateRefreshToken tokenHash with
    | .invalid | .failed _ => return
    | .found id _ => do
      if id = keep then return
      else do let _ ← db (.revokeSession id)

/-- `epoch` is the one the credential check read. -/
def issueTokens (u : ℕ) (user : User) (epoch ttl : ℕ) (cookie : Token) : Code Unit := do
  match ← generateRefreshToken with
  | none => respond 500 "Failed to generate refresh token"
  | some refreshToken => do
    match ← createSession u epoch refreshToken user.role ttl with
    | .refused => respond 401 signInSupersededMessage
    | .failed e => dbFailed e signInUnavailableMessage signInFailedMessage
    | .session id => do
      if ← ext .generateAccessToken then do
        endReplacedSession cookie id
        answer { status := 200, message := "signed in", refreshToken := some refreshToken }
      else respond 500 "Failed to generate access token"

/-- The second step of a sign-in, which reads the user again and keeps the first step's epoch. -/
def verifyLogin (u epoch ttl : ℕ) (cookie : Token) : Code Unit := do
  match (← db (.getUserByID .pool u) : Except Err (Option User)) with
  | .error _ | .ok none => respond 500 "User not found"
  | .ok (some user) =>
    if !user.isActive then respond 403 "Account is disabled"
    else if user.authEpoch ≠ epoch then respond 401 "Invalid or expired pending token"
    else do
      if ← ext .checkCode then issueTokens u user epoch ttl cookie
      else respond 401 "Invalid TOTP code"

/-- A sign-in; the credential check reads the user's row. -/
def login (u ttl : ℕ) (totp : Bool) (cookie : Token) : Code Unit := do
  match (← db (.getUserByEmail u) : Except Err (Option User)) with
  | .error _ => respond 500 "Failed to look up user"
  | .ok none => respond 401 "Invalid email or password"
  | .ok (some user) =>
    if !user.isActive then respond 401 "Invalid email or password"
    else do
      if ← ext .checkPassword then
        if totp then verifyLogin u user.authEpoch ttl cookie
        else issueTokens u user user.authEpoch ttl cookie
      else respond 401 "Invalid email or password"

/-! ## Refreshing -/

def refreshDBFailed (e : Err) (message : String) : Code Unit :=
  dbFailed e "Could not verify the refresh token right now; please retry shortly" message

def refuseStaleRefresh (tokenHash : ℕ) : Code Unit := do
  if ← refusalSparesCookie tokenHash then
    respond 409 ("This session was refreshed by another request a moment ago; retry the refresh " ++
      "once with the newest refresh cookie.")
  else respond 401 "Invalid or expired refresh token"

def revokeRefusedSession (id : ℕ) : Code Unit := do let _ ← db (.revokeSession id)

/-- The rotation and the commit of a refresh, once its user is found to be in order. -/
def rotateAndCommit (tokenHash id : ℕ) (session : Session) (user : User) : Code Unit := do
  if ← ext .generateAccessToken then
    match ← generateRefreshToken with
    | none => do rollback; respond 500 "Failed to generate refresh token"
    | some newRefreshToken => do
      match ← rotateRefreshToken id session newRefreshToken user.role with
      | .invalid => do rollback; refuseStaleRefresh tokenHash
      | .failed e => do rollback; refreshDBFailed e "Failed to rotate refresh token"
      | .rotated => do
        match (← db .commit : Except Err Unit) with
        | .error e => refreshDBFailed e "Failed to commit refresh"
        | .ok _ =>
          answer { status := 200, message := "refreshed", refreshToken := some newRefreshToken }
  else do rollback; respond 500 "Failed to generate access token"

/-- A refresh from the user's read on, in its transaction. -/
def refreshIn (tokenHash id : ℕ) (session : Session) : Code Unit := do
  match (← db (.getUserByID .tx session.userID) : Except Err (Option User)) with
  | .error e => do rollback; refreshDBFailed e "Failed to load the user"
  | .ok none => do rollback; revokeRefusedSession id; respond 401 "User not found"
  | .ok (some user) =>
    if !user.isActive then do
      rollback; revokeRefusedSession id; respond 401 "Account is disabled"
    else if session.userRole ≠ "" ∧ session.userRole ≠ user.role then do
      rollback; revokeRefusedSession id; respond 401 "Role changed; please log in again"
    else rotateAndCommit tokenHash id session user

def refresh (token : Token) : Code Unit := do
  match token with
  | .absent => respond 401 "Refresh token is required"
  | .tooLong => respond 401 "Invalid or expired refresh token"
  | .value tokenHash =>
    match ← validateRefreshToken tokenHash with
    | .failed e => refreshDBFailed e "Failed to look up the session"
    | .invalid => refuseStaleRefresh tokenHash
    | .found id session => do
      match (← ext .loadPermissions : Except Err Unit) with
      | .error e => refreshDBFailed e "Failed to load permissions"
      | .ok _ => do
        match (← db .begin : Except Err Unit) with
        | .error e => refreshDBFailed e "Failed to start transaction"
        | .ok _ => refreshIn tokenHash id session

/-! ## Signing out -/

def logoutUnconfirmedMessage : String :=
  "The sign-out could not be confirmed and the session may still be active. A client that sent " ++
  "its refresh token in the request body can retry with it; otherwise sign in again and use " ++
  "\"Sign Out All Devices\"."

def logoutNotYoursMessage : String :=
  "This refresh token belongs to another user's session, not to the user of the access token or " ++
  "API key sent with it; nothing was revoked."

def loggedOut : String := "Logged out successfully"

/-- `caller` is the user the request names beside the token, if it names one. -/
def logout (token : Token) (caller : Option ℕ) : Code Unit := do
  match token with
  | .absent | .tooLong => respond 200 loggedOut
  | .value tokenHash =>
    match ← findSessionForLogout tokenHash with
    | .invalid => respond 200 loggedOut
    | .failed e => dbFailed e logoutUnconfirmedMessage logoutUnconfirmedMessage
    | .found id session =>
      if caller.any (· ≠ session.userID) then respond 403 logoutNotYoursMessage
      else do
        match (← db (.revokeSession id) : Except Err Unit) with
        | .error e => dbFailed e logoutUnconfirmedMessage "Failed to revoke session"
        | .ok _ => respond 200 loggedOut

def revokeSessionByID (u id : ℕ) : Code Unit := do
  match (← db (.getSessionByID id) : Except Err (Option (ℕ × Session))) with
  | .error _ => respond 500 "Failed to look up session"
  | .ok none => respond 404 "Session not found"
  | .ok (some (_, session)) => do
    if session.userID ≠ u then respond 404 "Session not found"
    else if session.isRevoked then respond 404 "Session not found"
    else do
      let now ← timeNow
      if session.expiresAt < now then respond 404 "Session not found"
      else
        match (← db (.revokeSession id) : Except Err Unit) with
        | .error _ => respond 500 "Failed to revoke session"
        | .ok _ => respond 200 "Session revoked"

def logoutAllUnconfirmedMessage : String :=
  "Your sessions could not be revoked right now and may still be active; you are still signed in " ++
  "here, so please try again shortly."

/-- Whose session the cookie names; it only decides whether the answer clears the cookie. -/
def lookUpCookie : Token → Code Unit
  | .absent | .tooLong => return
  | .value tokenHash => do let _ ← findSessionForLogout tokenHash

def logoutAll (u : ℕ) (cookie : Token) : Code Unit := do
  lookUpCookie cookie
  match ← revokeAllUserSessionsIn .pool u with
  | .error e => dbFailed e logoutAllUnconfirmedMessage "Failed to revoke sessions"
  | .ok _ => respond 200 "All sessions revoked"

/-! ## Changes of the account -/

def passwordNotChanged (e : Err) : Code Unit :=
  dbFailed e ("The database could not be reached or did not answer in time, and your password " ++
    "was NOT changed; please try again shortly.")
    "Failed to change the password; your password was NOT changed."

def passwordChangeUnconfirmedMessage : String :=
  "Your password change could not be confirmed: the new password may be in effect, with every " ++
  "session of yours, this one included, signed out. Try signing in with the new password; if it " ++
  "is refused, the old password is still in effect. Use \"Sign Out All Devices\" to be sure."

def passwordChanged : Code Unit := respond 200 "Password changed successfully"

/-- Reads the password back when a commit's outcome is unknown. -/
def settleCommit (u new : ℕ) (e : Err) : Code Unit := do
  match (← db (.getPasswordHashForSettle u) : Except Err (Option ℕ)) with
  | .error _ => dbFailed e passwordChangeUnconfirmedMessage passwordChangeUnconfirmedMessage
  | .ok none =>
    respond 409 ("Your account was removed while this request was being processed, so there is " ++
      "no password to change and none to sign in with.")
  | .ok (some stored) => if stored = new then passwordChanged else passwordNotChanged e

/-- The transaction of a password change: the new hash, the revoke-all and the commit. -/
def changePasswordIn (u expected new : ℕ) : Code Unit := do
  match (← db (.updatePassword u expected new) : Except Err ℕ) with
  | .error e => do rollback; passwordNotChanged e
  | .ok 0 => do
    rollback
    respond 409 ("Your password was changed by another request, or your account was removed, " ++
      "while this one was being processed; nothing was changed.")
  | .ok (_ + 1) => do
    match ← revokeAllUserSessionsIn .tx u with
    | .error e => do rollback; passwordNotChanged e
    | .ok _ => do
      match (← db .commit : Except Err Unit) with
      | .error e => if e.outcomeUnknown then settleCommit u new e else passwordNotChanged e
      | .ok _ => passwordChanged

def changePassword (u new : ℕ) : Code Unit := do
  match (← db (.getUserByID .pool u) : Except Err (Option User)) with
  | .error e => passwordNotChanged e
  | .ok none => respond 404 "User not found"
  | .ok (some user) => do
    if ← ext .checkPassword then
      if ← ext .hashPassword then
        match (← db .begin : Except Err Unit) with
        | .error e => passwordNotChanged e
        | .ok _ => changePasswordIn u user.passwordHash new
      else respond 400 "Failed to process password"
    else respond 401 "Current password is incorrect"

def deactivationNotDone (e : Err) : Code Unit :=
  dbFailed e ("The database could not be reached or did not answer in time, and the account was " ++
    "NOT changed: it is still active and its sessions are untouched. Please try again shortly.")
    "Failed to update the user; the account was NOT changed."

def deactivationUnconfirmedMessage : String :=
  "The change could not be confirmed: the account may now be deactivated, with every session of " ++
  "it ended, or may still be active. Check the account's state; repeating the request is safe."

def deactivate (u : ℕ) (role : Option String) : Code Unit := do
  match (← db .begin : Except Err Unit) with
  | .error e => deactivationNotDone e
  | .ok _ => do
    match (← db (.updateUserProfile .tx u (some false) role) : Except Err ℕ) with
    | .error e => do rollback; deactivationNotDone e
    | .ok 0 => do rollback; deactivationNotDone { transient := false }
    | .ok (_ + 1) => do
      match ← revokeAllUserSessionsIn .tx u with
      | .error e => do rollback; deactivationNotDone e
      | .ok _ => do
        match (← db .commit : Except Err Unit) with
        | .error e =>
          if e.outcomeUnknown then
            dbFailed e deactivationUnconfirmedMessage deactivationUnconfirmedMessage
          else deactivationNotDone e
        | .ok _ => respond 200 "deactivated"

/-- Another role, a reactivation, or a directory sync that deactivates: no session ends. -/
def updateUserProfile (u : ℕ) (isActive : Option Bool) (role : Option String) : Code Unit := do
  match (← db (.updateUserProfile .pool u isActive role) : Except Err ℕ) with
  | .error _ | .ok 0 => respond 500 "Failed to update user"
  | .ok (_ + 1) => respond 200 "updated"

/-! ## The system -/

inductive Role where
  | login (u ttl : ℕ) (totp : Bool) (cookie : Token)
  | refresh (token : Token)
  | logout (token : Token) (caller : Option ℕ)
  | revokeSessionByID (u id : ℕ)
  | logoutAll (u : ℕ) (cookie : Token)
  | changePassword (u new : ℕ)
  | deactivate (u : ℕ) (role : Option String)
  | updateUserProfile (u : ℕ) (isActive : Option Bool) (role : Option String)
  | wait (seconds : ℕ)

def code : Role → Code Unit
  | .login u ttl totp cookie => login u ttl totp cookie
  | .refresh token => refresh token
  | .logout token caller => logout token caller
  | .revokeSessionByID u id => revokeSessionByID u id
  | .logoutAll u cookie => logoutAll u cookie
  | .changePassword u new => changePassword u new
  | .deactivate u role => deactivate u role
  | .updateUserProfile u isActive role => updateUserProfile u isActive role
  | .wait seconds => Prog.stmt (S := sig) (.wait seconds)

abbrev sessions : System where
  sig := sig
  State := World
  Role := Role
  code := code
  Outcome := Stmt.Outcome
  exec := fun i _ => exec i

end Nexara.Sessions
