import Nexara.Conc.Protocol
import Nexara.Txn.Table

/-!
# What the session code does atomically

Users and their sessions, as tables under read committed, and the statements the handlers issue on
them: on the pool, each its own transaction, or in a transaction the handler has begun (`Via`).

A statement that fails has changed nothing, except that the reply of one that went through can be
lost (`Fate.lost`); a failed `COMMIT` has rolled back. Refresh tokens appear as their hashes, and a
new one was never used (`newToken`).
-/

namespace Nexara.Sessions

open Conc Txn

structure User where
  authEpoch : ℕ := 0
  isActive : Bool := true
  role : String := "user"
  passwordHash : ℕ := 0

structure Session where
  userID : ℕ
  tokenHash : ℕ
  previousTokenHash : Option ℕ := none
  rotatedAt : Option ℕ := none
  expiresAt : ℕ
  isRevoked : Bool := false
  userRole : String := ""

structure World where
  /-- In seconds. -/
  now : ℕ := 0
  users : Table User := []
  sessions : Table Session := []
  /-- The hash of the next token that is generated. -/
  nextToken : ℕ := 0
  /-- `now()` in the transaction a party has open. -/
  begun : ℕ → Option ℕ := fun _ => none

/-- Whether the database was away or too busy (`isTransientDBError`), and of a `COMMIT`, whether it
may have landed (`commitOutcomeUnknown`). -/
structure Err where
  transient : Bool
  outcomeUnknown : Bool := false

/-- Where a statement goes: to the pool, or to the party's transaction. -/
inductive Via where
  | pool | tx
  deriving DecidableEq

def Via.who (i : ℕ) : Via → Option ℕ
  | pool => none
  | tx => some i

/-! ## The database -/

inductive Db where
  | getUserByEmail (u : ℕ)
  | getUserByID (via : Via) (u : ℕ)
  | createSessionAtEpoch (u epoch tokenHash expiresAt : ℕ) (role : String)
  | getSessionByID (id : ℕ)
  | getSessionByTokenHash (tokenHash : ℕ)
  | getSessionByPreviousTokenHash (tokenHash windowSeconds : ℕ)
  | revokeSession (id : ℕ)
  | begin
  | commit
  | updatePassword (u expected new : ℕ)
  | getPasswordHashForSettle (u : ℕ)
  | updateUserProfile (via : Via) (u : ℕ) (isActive : Option Bool) (role : Option String)
  | bumpUserAuthEpoch (via : Via) (u : ℕ)
  | listUserSessions (via : Via) (u : ℕ)
  | revokeAllUserSessions (via : Via) (u : ℕ)
  | rotateSessionToken (id old new : ℕ) (role : String)
  deriving DecidableEq

/-- What a statement that succeeds answers; `none` is no row, and an update answers how many rows it
changed. -/
@[reducible] def Db.Row : Db → Type
  | getUserByEmail _ | getUserByID _ _ => Option User
  | createSessionAtEpoch _ _ _ _ _ | getPasswordHashForSettle _ => Option ℕ
  | getSessionByID _ | getSessionByTokenHash _ | getSessionByPreviousTokenHash _ _ =>
      Option (ℕ × Session)
  | revokeSession _ | begin | commit | revokeAllUserSessions _ _ => Unit
  | updatePassword _ _ _ | updateUserProfile _ _ _ _ | bumpUserAuthEpoch _ _
  | rotateSessionToken _ _ _ _ => ℕ
  | listUserSessions _ _ => List ℕ

namespace Session

def revoke (s : Session) : Session := { s with isRevoked := true }

/-- The `SET` list of `RotateSessionToken`; `clock` is `clock_timestamp()`. -/
def rotate (clock new : ℕ) (role : String) (s : Session) : Session :=
  { s with
    previousTokenHash := some s.tokenHash
    rotatedAt := some clock
    tokenHash := new
    userRole := role }

/-- The `WHERE` clause of `RotateSessionToken`, beyond the session's id. -/
def rotatable (now old : ℕ) (s : Session) : Bool :=
  s.tokenHash = old && !s.isRevoked && now < s.expiresAt

/-- The `WHERE` clause of `GetSessionByPreviousTokenHash`. -/
def replaced (now tokenHash windowSeconds : ℕ) (s : Session) : Bool :=
  s.previousTokenHash = some tokenHash && !s.isRevoked && now < s.expiresAt &&
    s.rotatedAt.any fun t => now < t + windowSeconds

end Session

namespace World

/-- `now()` in party `i`'s transaction: when it began. -/
def txNow (w : World) (i : ℕ) : ℕ := (w.begun i).getD w.now

/-- `now()` in a statement of party `i`. -/
def clock (w : World) (i : ℕ) : Via → ℕ
  | .pool => w.now
  | .tx => w.txNow i

def updateUsers (w : World) (who : Option ℕ) (p : ℕ → User → Bool) (set : User → User) :
    Option (ℕ × World) :=
  (w.users.update who p set).map fun x => (x.1, { w with users := x.2 })

def updateSessions (w : World) (who : Option ℕ) (p : ℕ → Session → Bool)
    (set : Session → Session) : Option (ℕ × World) :=
  (w.sessions.update who p set).map fun x => (x.1, { w with sessions := x.2 })

/-- The insert of `CreateSessionAtEpoch`, if the user's row still has that epoch and is active; it
waits for the row's lock. -/
def createSession (w : World) (u epoch : ℕ) (s : Session) : Option (Option ℕ × World) :=
  match w.users[u]? with
  | none => some (none, w)
  | some x =>
    if x.committed.authEpoch = epoch && x.committed.isActive then
      if x.locked none then none
      else some (some w.sessions.length, { w with sessions := w.sessions.insert s })
    else some (none, w)

def commit (w : World) (i : ℕ) : World :=
  { w with
    users := w.users.commit i
    sessions := w.sessions.commit i
    begun := Function.update w.begun i none }

def rollback (w : World) (i : ℕ) : World :=
  { w with
    users := w.users.rollback i
    sessions := w.sessions.rollback i
    begun := Function.update w.begun i none }

/-- The keys of a user's live sessions; `now` is `now()` where the statement runs. -/
def listUserSessions (w : World) (who : Option ℕ) (now u : ℕ) : List ℕ :=
  (w.sessions.zipIdx.filter fun x =>
    (x.1.seen who).userID = u && !(x.1.seen who).isRevoked && now < (x.1.seen who).expiresAt).map
    Prod.snd

end World

/-- A statement of party `i` that goes through; `none` while it waits for a row. -/
def Db.run (i : ℕ) (w : World) : (d : Db) → Option (d.Row × World)
  | .getUserByEmail u => some (w.users.get? none u, w)
  | .getUserByID via u => some (w.users.get? (via.who i) u, w)
  | .createSessionAtEpoch u epoch tokenHash expiresAt role =>
      w.createSession u epoch
        { userID := u, tokenHash := tokenHash, expiresAt := expiresAt, userRole := role }
  | .getSessionByID id => some ((w.sessions.get? none id).map (id, ·), w)
  | .getSessionByTokenHash h =>
      some (w.sessions.find? fun s => s.tokenHash = h && !s.isRevoked, w)
  | .getSessionByPreviousTokenHash h window =>
      some (w.sessions.find? (Session.replaced w.now h window), w)
  | .revokeSession id =>
      (w.updateSessions none (fun k _ => k = id) Session.revoke).map fun x => ((), x.2)
  | .begin => some ((), { w with begun := Function.update w.begun i (some w.now) })
  | .commit => some ((), w.commit i)
  | .updatePassword u expected new =>
      w.updateUsers (some i) (fun k v => k = u && v.passwordHash = expected)
        fun v => { v with passwordHash := new }
  | .getPasswordHashForSettle u =>
      if w.users[u]?.any (Row.locked none) then none
      else some ((w.users.get? none u).map User.passwordHash, w)
  | .updateUserProfile via u isActive role =>
      w.updateUsers (via.who i) (fun k _ => k = u)
        fun v => { v with isActive := isActive.getD v.isActive, role := role.getD v.role }
  | .bumpUserAuthEpoch via u =>
      w.updateUsers (via.who i) (fun k _ => k = u)
        fun v => { v with authEpoch := v.authEpoch + 1 }
  | .listUserSessions via u => some (w.listUserSessions (via.who i) (w.clock i via) u, w)
  | .revokeAllUserSessions via u =>
      (w.updateSessions (via.who i) (fun _ s => s.userID = u && !s.isRevoked)
        Session.revoke).map fun x => ((), x.2)
  | .rotateSessionToken id old new role =>
      w.updateSessions (some i) (fun k s => k = id && s.rotatable (w.txNow i) old)
        (Session.rotate w.now new role)

/-- What a statement that fails leaves. -/
def Db.fail (i : ℕ) (w : World) : Db → World
  | .commit => w.rollback i
  | _ => w

inductive Fate where
  | done
  | failed (e : Err)
  /-- It went through, and its reply was lost. -/
  | lost (e : Err)

def Db.exec (i : ℕ) (w : World) (d : Db) : Fate → Option (Except Err d.Row × World)
  | .done => (d.run i w).map fun x => (.ok x.1, x.2)
  | .failed e => some (.error e, d.fail i w)
  | .lost e => (d.run i w).map fun x => (.error e, x.2)

/-! ## Statements -/

/-- Checks whose answer nothing here decides. -/
inductive Ext where
  | checkPassword
  | checkCode
  | loadPermissions
  | generateAccessToken
  | hashPassword
  deriving DecidableEq

@[reducible] def Ext.Ans : Ext → Type
  | checkPassword | checkCode | generateAccessToken | hashPassword => Bool
  | loadPermissions => Except Err Unit

structure Response where
  status : ℕ
  message : String
  refreshToken : Option ℕ := none
  deriving DecidableEq

inductive Stmt where
  | db (d : Db)
  | rollback
  | now
  | ext (q : Ext)
  /-- `GenerateRefreshToken`. -/
  | newToken
  | respond (r : Response)
  | wait (seconds : ℕ)
  deriving DecidableEq

@[reducible] def Stmt.Ans : Stmt → Type
  | db d => Except Err d.Row
  | ext q => q.Ans
  | now => ℕ
  | newToken => Option ℕ
  | rollback | respond _ | wait _ => Unit

@[reducible] def Stmt.Outcome : Stmt → Type
  | db _ => Fate
  | ext q => q.Ans
  | newToken => Bool
  | now | rollback | respond _ | wait _ => Unit

abbrev sig : Sig := ⟨Stmt, Stmt.Ans⟩

abbrev Code (α : Type) := Prog sig α

def db (d : Db) : Code (Except Err d.Row) := Prog.stmt (S := sig) (.db d)

def rollback : Code Unit := Prog.stmt (S := sig) .rollback

def timeNow : Code ℕ := Prog.stmt (S := sig) .now

def ext (q : Ext) : Code q.Ans := Prog.stmt (S := sig) (.ext q)

def generateRefreshToken : Code (Option ℕ) := Prog.stmt (S := sig) .newToken

def answer (r : Response) : Code Unit := Prog.stmt (S := sig) (.respond r)

def respond (status : ℕ) (message : String) : Code Unit := answer { status, message }

def exec (i : ℕ) : (e : Stmt) → e.Outcome → World → Option (e.Ans × World)
  | .db d, o, w => d.exec i w o
  | .rollback, _, w => some ((), w.rollback i)
  | .now, _, w => some (w.now, w)
  | .ext _, a, w => some (a, w)
  | .newToken, true, w => some (some w.nextToken, { w with nextToken := w.nextToken + 1 })
  | .newToken, false, w => some (none, w)
  | .respond _, _, w => some ((), w)
  | .wait seconds, _, w => some ((), { w with now := w.now + seconds })

end Nexara.Sessions
