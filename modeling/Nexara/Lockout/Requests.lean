import Nexara.Conc.Protocol
import Nexara.Lockout.Budget

/-!
# The routes that check the current password

`ChangePassword` and `ProveCurrentPassword`: any number of requests for one account, on either
store, with time passing between their steps. What the database and the password hash answer is left
open. An attempt that could not be counted may have been counted all the same (`Fate.lost`); handing
back and clearing may not land.
-/

namespace Nexara.Lockout

open Conc

/-- The answer to a request; `retryAfter` is in seconds. -/
structure Response where
  status : ℕ
  message : String
  retryAfter : Option ℤ := none

inductive Stmt where
  | getUser
  | reserve
  | checkPassword
  /-- The new password's hash and the transaction of the change. -/
  | change
  | release (res : Reservation)
  | clear
  | respond (r : Response)
  | wait (ms : ℕ)

/-- What the account's row says of it. -/
structure Account where
  isActive : Bool := true
  /-- `AuthSource` is "local". -/
  isLocal : Bool := true

@[reducible] def Stmt.Ans : Stmt → Type
  | getUser => Except Response Account
  | reserve => Option Reservation
  | checkPassword => Bool
  | change => Except Response Unit
  /- Whether it landed, which no handler learns. -/
  | release _ | clear => Bool
  | respond _ | wait _ => Unit

/-- How an attempt to count turns out. -/
inductive Fate where
  | done
  | failed
  /-- It was counted, and its reply was lost. -/
  | lost

@[reducible] def Stmt.Outcome : Stmt → Type
  | reserve => Fate
  | e => e.Ans

abbrev sig : Sig := ⟨Stmt, Stmt.Ans⟩

abbrev Code (α : Type) := Prog sig α

def call (e : Stmt) : Code e.Ans := Prog.stmt (S := sig) e

def respond (status : ℕ) (message : String) : Code Unit := call (.respond { status, message })

/-! ## The handlers -/

/-- The words of a route. -/
structure PasswordProof where
  uncounted : String

def changePasswordProof : PasswordProof where
  uncounted := "Changing the password is unavailable right now because its attempt limit could " ++
    "not be checked, and your password was NOT changed; please try again shortly."

def totpSetupProof : PasswordProof where
  uncounted := "Two-factor authentication cannot be set up right now; nothing was changed. " ++
    "Please try again shortly."

def passwordLockedMessage (wait : ℤ) : String :=
  let minutes := max 1 ((wait + 60000 - 1) / 60000)
  let unit := if minutes = 1 then "minute" else "minutes"
  "Too many incorrect attempts at the current password. Changing the password and setting up " ++
    s!"two-factor authentication are locked for {minutes} more {unit}; you stay signed in and " ++
    "nothing else about the account is affected."

def passwordLocked (wait : ℤ) : Response where
  status := 429
  message := passwordLockedMessage wait
  retryAfter := some (max 1 ((wait + 1000 - 1) / 1000))

/-- Reads the account and counts the attempt: an admitted one, or the answer the request ends in. -/
def admitPasswordAttempt (proof : PasswordProof) : Code (Except Response Reservation) := do
  match (← call .getUser : Except Response Account) with
  | .error r => return .error r
  | .ok user =>
    if !user.isActive then return .error { status := 401, message := "Account is disabled" }
    else if !user.isLocal then
      return .error { status := 403, message := "Password is managed by your identity provider" }
    else do
      match (← call .reserve : Option Reservation) with
      | none => return .error { status := 503, message := proof.uncounted }
      | some attempt =>
        match attempt.admission with
        | .admitted | .admittedLast => return .ok attempt
        | .refused => return .error (passwordLocked attempt.retryAfter)

def refuseWrongPassword (attempt : Reservation) : Code Unit :=
  match attempt.admission with
  | .admittedLast => call (.respond (passwordLocked attempt.retryAfter))
  | _ => respond 403 "Current password is incorrect"

def handBackAttempt (attempt : Reservation) : Code Unit := do let _ ← call (.release attempt)

def forgetPasswordFailures : Code Unit := do let _ ← call .clear

def changePassword : Code Unit := do
  match ← admitPasswordAttempt changePasswordProof with
  | .error r => call (.respond r)
  | .ok attempt => do
    if ← call .checkPassword then
      match (← call .change : Except Response Unit) with
      | .error r => do handBackAttempt attempt; call (.respond r)
      | .ok _ => do forgetPasswordFailures; respond 200 "Password changed successfully"
    else refuseWrongPassword attempt

/-- The check of a two-factor setup, which then goes on. -/
def proveCurrentPassword : Code Unit := do
  match ← admitPasswordAttempt totpSetupProof with
  | .error r => call (.respond r)
  | .ok attempt => do
    if ← call .checkPassword then handBackAttempt attempt
    else refuseWrongPassword attempt

/-! ## The system -/

structure World (st : Store) where
  now : ℕ := 0
  state : st.State
  /-- The name of the next lock. -/
  nextToken : ℕ := 0

def World.reserve (cfg : Config) {st : Store} (w : World st) : Option Reservation × World st :=
  let (res, state) := st.reserve cfg w.now w.nextToken w.state
  (res, { w with state, nextToken := w.nextToken + 1 })

def exec (cfg : Config) {st : Store} :
    (e : Stmt) → e.Outcome → World st → Option (e.Ans × World st)
  | .getUser, a, w => some (a, w)
  | .reserve, .done, w => some (w.reserve cfg)
  | .reserve, .failed, w => some (none, w)
  | .reserve, .lost, w => some (none, (w.reserve cfg).2)
  | .checkPassword, a, w => some (a, w)
  | .change, a, w => some (a, w)
  | .release res, true, w => some (true, { w with state := st.release cfg w.now res w.state })
  | .release _, false, w => some (false, w)
  | .clear, true, w => some (true, { w with state := st.clear w.state })
  | .clear, false, w => some (false, w)
  | .respond _, _, w => some ((), w)
  | .wait ms, _, w => some ((), { w with now := w.now + ms })

inductive Role where
  | changePassword
  | proveCurrentPassword
  | wait (ms : ℕ)

def code : Role → Code Unit
  | .changePassword => changePassword
  | .proveCurrentPassword => proveCurrentPassword
  | .wait ms => call (.wait ms)

/-- Any number of requests for one account. -/
abbrev lockouts (cfg : Config) (st : Store) : System where
  sig := sig
  State := World st
  Role := Role
  code := code
  Outcome := Stmt.Outcome
  exec := fun _ _ => exec cfg

end Nexara.Lockout
