import Mathlib.Data.Vector.Defs
import Nexara.Conc.Protocol

/-!
# The second factor's endpoints

The handlers of `TOTPHandler` that test, set and clear a user's second factor, for one user, over
the keys in Redis (the pending logins with their attempt counters, the failure counter, the lock,
the secret of an enrolment) and the user's secret and recovery codes in the database. Each statement
is atomic and can fail without effect; the lock and the pending logins expire by parties of their
own. Whether an authenticator code is right is the environment's answer; whether a recovery code
matches a hash is `check`.
-/

namespace Nexara.Totp

open Conc

def totpMaxAttempts : ℕ := 5

def totpSetupMaxAttempts : ℕ := 5

def totpRecoveryCount : ℕ := 10

def totpLockoutThreshold : ℕ := 5

/-! ## Data -/

structure CodeRow where
  id : ℕ
  hash : String
  deriving DecidableEq

/-- `totpPendingLogin`, for this user. -/
structure Pending where
  authEpoch : Option Int
  deriving DecidableEq

/-- The fields of the user's row that `VerifyLogin` reads beside the secret. -/
structure UserRow where
  isActive : Bool
  secret : Option String
  authEpoch : Int

/-- What a request carries. -/
structure Input where
  code : String
  recoveryCode : String

structure Failure where
  status : ℕ
  message : String

/-- The answer of a handler: an error, or the recovery codes it hands out, if any. -/
abbrev Answer := Except Failure (List String)

def fail (status : ℕ) (message : String) : Answer := .error ⟨status, message⟩

def lockedMessage : String := "Too many failed 2FA attempts — try again in a few minutes"

/-- `^\d{6}$`. -/
def totpCodePattern (code : String) : Bool := code.length == 6 && code.all Char.isDigit

def Input.refused (input : Input) : Option Answer :=
  if input.code = "" ∧ input.recoveryCode = "" then
    some (fail 400 "TOTP code or recovery code is required")
  else if input.code ≠ "" ∧ totpCodePattern input.code = false then
    some (fail 400 "Code must be exactly 6 digits")
  else none

theorem Input.refused_error {input : Input} {refusal : Answer} (h : input.refused = some refusal) :
    ∃ failure, refusal = .error failure := by
  unfold Input.refused at h
  split_ifs at h <;> cases h <;> exact ⟨_, rfl⟩

def Input.wrong (input : Input) : Answer :=
  if input.code ≠ "" then fail 401 "Invalid TOTP code" else fail 401 "Invalid recovery code"

/-! ## Statements -/

inductive Stmt
  /-- Redis: a pending login and its counter. -/
  | incrAttempts (token : ℕ)
  | expireAttempts (token : ℕ)
  | getPending (token : ℕ)
  | delPending (token : ℕ)
  | setPending (token : ℕ) (pending : Pending)
  /-- Redis: the user's failures and lock. -/
  | existsLock
  | incrFail
  | expireFail
  | setLock
  | delFail
  | delFailAndLock
  | dropLock
  /-- Redis: an enrolment in progress. -/
  | getSetup
  | incrSetupAttempts
  | expireSetupAttempts
  | delSetup
  /-- The database. -/
  | getUser
  | getSecret
  | setSecret (secret : String)
  | clearSecret
  | listCodes
  | deleteCode (id : ℕ)
  | deleteAllCodes
  | insertCode (place : ℕ) (hash : String)
  /-- A code compared with the user's secret, and with the secret of an enrolment. -/
  | validateCode (secret code : String)
  | validateSetup (secret code : String)
  /-- A recovery code compared with the hashes that were listed. -/
  | compareCodes (rows : List CodeRow) (input : String)
  | generateCodes (count : ℕ)
  /-- The session of a login, or why it was refused. -/
  | issueTokens
  deriving DecidableEq

/-- A count, or an error; a key or a row that may be missing; whether a statement worked. -/
def Ans : Stmt → Type
  | .incrAttempts _ | .incrFail | .incrSetupAttempts => Option ℕ
  | .getPending _ => Option Pending
  | .existsLock => Bool
  | .getSetup => Option String
  | .getUser => Option UserRow
  | .getSecret => Option (Option String)
  | .setSecret _ | .clearSecret | .deleteCode _ | .insertCode _ _ => Bool
  | .listCodes => Option (List CodeRow)
  | .validateCode _ _ | .validateSetup _ _ => Option Bool
  | .compareCodes _ _ => Option ℕ
  | .generateCodes _ => Option (List (String × String))
  | .issueTokens => Option Failure
  | _ => Unit

abbrev sig : Sig := ⟨Stmt, Ans⟩

abbrev P (α : Type) := Prog sig α

abbrev call (e : Stmt) : P (Ans e) := Prog.stmt (S := sig) e

/-! ## The shared parts -/

def isUserTOTPLocked : P Bool := call .existsLock

def applyLock (fails : ℕ) : P Bool :=
  if totpLockoutThreshold ≤ fails then do
    call .setLock
    call .delFail
    pure true
  else pure false

def lockIfMany : Option ℕ → P Bool
  | none => pure false
  | some 1 => do
    call .expireFail
    applyLock 1
  | some fails => applyLock fails

def recordTOTPFailure : P Bool := do
  let fails ← call .incrFail
  lockIfMany fails

def clearTOTPFailures : P Unit := call .delFailAndLock

def consumeRecoveryCode (inputCode : String) : P Bool := do
  match (← call .listCodes : Option (List CodeRow)) with
  | none => pure false
  | some codes =>
    match (← call (.compareCodes codes inputCode) : Option ℕ) with
    | none => pure false
    | some id => call (.deleteCode id)

/-- Whether a code is right; nothing for an internal error. -/
def validateCodeOrRecovery (secret : String) (input : Input) : P (Option Bool) :=
  if input.code ≠ "" then call (.validateCode secret input.code)
  else do
    let consumed ← consumeRecoveryCode input.recoveryCode
    pure (some consumed)

theorem validateCodeOrRecovery_code {secret : String} {input : Input} (h : input.code ≠ "") :
    validateCodeOrRecovery secret input = call (.validateCode secret input.code) := if_pos h

theorem validateCodeOrRecovery_recovery {secret : String} {input : Input} (h : ¬input.code ≠ "") :
    validateCodeOrRecovery secret input =
      (consumeRecoveryCode input.recoveryCode >>= fun consumed => pure (some consumed)) := if_neg h

/-- The loop of the inserts, from a place on. -/
def insertCodes : ℕ → List String → P Bool
  | _, [] => pure true
  | place, hash :: hashes => do
    match (← call (.insertCode place hash) : Bool) with
    | false => pure false
    | true => insertCodes (place + 1) hashes

def storeCodes (codes : List (String × String)) : P Answer := do
  match (← insertCodes 0 (codes.map (·.2)) : Bool) with
  | false => pure (fail 500 "Failed to store recovery codes")
  | true => pure (.ok (codes.map (·.1)))

/-! ## `VerifyLogin` -/

/-- A wrong code is counted; the lock takes the pending login with it. -/
def refuseLogin (token : ℕ) (input : Input) : P Answer := do
  match (← recordTOTPFailure : Bool) with
  | true => do
    call (.delPending token)
    pure (fail 429 lockedMessage)
  | false => pure input.wrong

def completeLogin (token : ℕ) : P Answer := do
  call (.delPending token)
  clearTOTPFailures
  match (← call .issueTokens : Option Failure) with
  | none => pure (.ok [])
  | some failure => pure (.error failure)

def loginChecked (token : ℕ) (input : Input) : Option Bool → P Answer
  | none => pure (fail 500 "Failed to validate code")
  | some false => refuseLogin token input
  | some true => completeLogin token

def checkLogin (token : ℕ) (secret : String) (input : Input) : P Answer := do
  let valid ← validateCodeOrRecovery secret input
  loginChecked token input valid

/-- A pending login that can never succeed is destroyed. -/
def refusePending (token : ℕ) : P Answer := do
  call (.delPending token)
  pure (fail 401 "Invalid or expired pending token")

def verifyUser (token : ℕ) (epoch : Int) (input : Input) : P Answer := do
  match (← call .getUser : Option UserRow) with
  | none => pure (fail 500 "User not found")
  | some user =>
    if user.isActive = false then pure (fail 403 "Account is disabled")
    else
      match user.secret with
      | none => pure (fail 500 "TOTP not configured for user")
      | some secret =>
        if user.authEpoch ≠ epoch then refusePending token else checkLogin token secret input

def verifyPending (token : ℕ) (pending : Pending) (input : Input) : P Answer := do
  match (← isUserTOTPLocked : Bool) with
  | true => pure (fail 429 lockedMessage)
  | false =>
    match pending.authEpoch with
    | none => refusePending token
    | some epoch => verifyUser token epoch input

/-- After the token's attempt is counted. -/
def verifyCounted (token attempts : ℕ) (input : Input) : P Answer :=
  if totpMaxAttempts < attempts then do
    call (.delPending token)
    pure (fail 429 "Too many attempts — please log in again")
  else do
    match (← call (.getPending token) : Option Pending) with
    | none => pure (fail 401 "Invalid or expired pending token")
    | some pending => verifyPending token pending input

/-- The counter of a pending login, which runs out with it. -/
def verifyAttempt (token : ℕ) (input : Input) : Option ℕ → P Answer
  | none => pure (fail 500 "Failed to record attempt")
  | some 1 => do
    call (.expireAttempts token)
    verifyCounted token 1 input
  | some attempts => verifyCounted token attempts input

def verifyLogin (token : ℕ) (input : Input) : P Answer :=
  match input.refused with
  | some refusal => pure refusal
  | none => do
    let attempts ← call (.incrAttempts token)
    verifyAttempt token input attempts

/-! ## The other endpoints -/

def refuseCode (wrong : Answer) : P Answer := do
  match (← recordTOTPFailure : Bool) with
  | true => pure (fail 429 lockedMessage)
  | false => pure wrong

def clearFactor : P Answer := do
  match (← call .clearSecret : Bool) with
  | false => pure (fail 500 "Failed to disable TOTP")
  | true => do
    call .deleteAllCodes
    clearTOTPFailures
    pure (.ok [])

def disableChecked (input : Input) : Option Bool → P Answer
  | none => pure (fail 500 "Failed to validate code")
  | some false => refuseCode input.wrong
  | some true => clearFactor

def disable (input : Input) : P Answer :=
  match input.refused with
  | some refusal => pure refusal
  | none => do
    match (← isUserTOTPLocked : Bool) with
    | true => pure (fail 429 lockedMessage)
    | false =>
      match (← call .getSecret : Option (Option String)) with
      | none => pure (fail 500 "Failed to check TOTP status")
      | some none => pure (fail 400 "TOTP is not enabled")
      | some (some secret) => do
        let valid ← validateCodeOrRecovery secret input
        disableChecked input valid

def storeDrawn : Option (List (String × String)) → P Answer
  | none => pure (fail 500 "Failed to generate recovery codes")
  | some codes => storeCodes codes

def replaceCodes : P Answer := do
  clearTOTPFailures
  call .deleteAllCodes
  let drawn ← call (.generateCodes totpRecoveryCount)
  storeDrawn drawn

def regenerateChecked : Option Bool → P Answer
  | none => pure (fail 500 "Failed to validate code")
  | some false => refuseCode (fail 401 "Invalid TOTP code")
  | some true => replaceCodes

def regenerateRecoveryCodes (code : String) : P Answer := do
  match (← isUserTOTPLocked : Bool) with
  | true => pure (fail 429 lockedMessage)
  | false =>
    match (← call .getSecret : Option (Option String)) with
    | none => pure (fail 400 "TOTP is not enabled")
    | some none => pure (fail 400 "TOTP is not enabled")
    | some (some secret) => do
      let valid ← call (.validateCode secret code)
      regenerateChecked valid

/-- The codes that were drawn, if they were, in place of the stale ones. -/
def enableDrawn : Option (List (String × String)) → P Answer
  | none => pure (fail 500 "Failed to generate recovery codes")
  | some codes => do
    call .deleteAllCodes
    storeCodes codes

/-- Once the code is right: the secret is stored before the codes are drawn. -/
def enableFactor (secret : String) : P Answer := do
  call .delSetup
  match (← call (.setSecret secret) : Bool) with
  | false => pure (fail 500 "Failed to enable TOTP")
  | true => do
    let drawn ← call (.generateCodes totpRecoveryCount)
    enableDrawn drawn

/-- After the enrolment's attempt is counted. -/
def confirmCounted (secret : String) (attempts : ℕ) (code : String) : P Answer :=
  if totpSetupMaxAttempts < attempts then do
    call .delSetup
    pure (fail 429 "Too many failed attempts — please restart setup")
  else do
    match (← call (.validateSetup secret code) : Option Bool) with
    | none => pure (fail 500 "Failed to validate code")
    | some false => pure (fail 401 "Invalid TOTP code")
    | some true => enableFactor secret

/-- The counter of an enrolment, which runs out with it. -/
def confirmAttempt (secret code : String) : Option ℕ → P Answer
  | none => pure (fail 500 "Failed to record attempt")
  | some 1 => do
    call .expireSetupAttempts
    confirmCounted secret 1 code
  | some attempts => confirmCounted secret attempts code

def confirmSetup (code : String) : P Answer := do
  match (← call .getSetup : Option String) with
  | none => pure (fail 400 "No pending TOTP setup — start setup first")
  | some secret => do
    let attempts ← call .incrSetupAttempts
    confirmAttempt secret code attempts

/-- `own` says that an administrator names their own account. -/
def adminReset (own : Bool) : P Answer :=
  if own then
    pure (fail 403 ("Cannot reset your own TOTP via admin endpoint — " ++
      "use the self-service disable flow"))
  else do
    match (← call .getSecret : Option (Option String)) with
    | none => pure (fail 404 "User not found")
    | some none => pure (fail 400 "TOTP is not enabled for this user")
    | some (some _) =>
      match (← call .clearSecret : Bool) with
      | false => pure (fail 500 "Failed to reset TOTP")
      | true => do
        call .deleteAllCodes
        pure (.ok [])

/-! ## What the statements do -/

structure World where
  secret : Option String := none
  codes : List CodeRow := []
  nextId : ℕ := 0
  pending : ℕ → Option Pending := fun _ => none
  attempts : ℕ → ℕ := fun _ => 0
  fails : ℕ := 0
  lock : Bool := false
  setup : Option String := none
  setupAttempts : ℕ := 0

/-- What the code check, the user's row and the session's insert answer, which codes are drawn, and
that another statement fails. -/
def Outcome : Stmt → Type
  | .validateCode _ _ | .validateSetup _ _ => Option Bool
  | .getUser => Option (Bool × Int)
  | .generateCodes count => Option (List.Vector (String × String) count)
  | .issueTokens => Option Failure
  | _ => Bool

/-- Every statement works, and every authenticator code is right or wrong. -/
def works (valid : Bool) : (e : Stmt) → Outcome e
  | .validateCode _ _ | .validateSetup _ _ => some valid
  | .getUser => some (true, 0)
  | .generateCodes count => some (.replicate count ("n", "h"))
  | .issueTokens => none
  | .incrAttempts _ | .expireAttempts _ | .getPending _ | .delPending _ | .setPending _ _
  | .existsLock | .incrFail | .expireFail | .setLock | .delFail | .delFailAndLock | .dropLock
  | .getSetup | .incrSetupAttempts | .expireSetupAttempts | .delSetup | .getSecret | .setSecret _
  | .clearSecret | .listCodes | .deleteCode _ | .deleteAllCodes | .insertCode _ _
  | .compareCodes _ _ => false

/-- What a statement gives, or `failed` and no effect. -/
@[simp] def World.attempt {α : Type} (w : World) : Bool → α → α × World → α × World
  | true, failed, _ => (failed, w)
  | false, _, done => done

def setAt {α : Type} (f : ℕ → α) (t : ℕ) (x : α) : ℕ → α := fun t' => if t' = t then x else f t'

section

variable (check : String → String → Bool)

def matchCode (rows : List CodeRow) (input : String) : Option ℕ :=
  (rows.find? fun row => check row.hash input).map (·.id)

/-- A failed statement has no effect, and a failed look at the lock finds none. -/
def exec : (e : Stmt) → Outcome e → World → Ans e × World
  | .incrAttempts t, fails, w => w.attempt fails none
      (some (w.attempts t + 1), { w with attempts := setAt w.attempts t (w.attempts t + 1) })
  | .expireAttempts _, _, w => ((), w)
  | .getPending t, fails, w => w.attempt fails none (w.pending t, w)
  | .delPending t, fails, w => w.attempt fails ()
      ((), { w with pending := setAt w.pending t none, attempts := setAt w.attempts t 0 })
  | .setPending t p, _, w => ((), { w with pending := setAt w.pending t (some p) })
  | .existsLock, fails, w => w.attempt fails false (w.lock, w)
  | .incrFail, fails, w => w.attempt fails none (some (w.fails + 1), { w with fails := w.fails + 1 })
  | .expireFail, _, w => ((), w)
  | .setLock, fails, w => w.attempt fails () ((), { w with lock := true })
  | .delFail, fails, w => w.attempt fails () ((), { w with fails := 0 })
  | .delFailAndLock, fails, w => w.attempt fails () ((), { w with fails := 0, lock := false })
  | .dropLock, _, w => ((), { w with lock := false })
  | .getSetup, fails, w => w.attempt fails none (w.setup, w)
  | .incrSetupAttempts, fails, w => w.attempt fails none
      (some (w.setupAttempts + 1), { w with setupAttempts := w.setupAttempts + 1 })
  | .expireSetupAttempts, _, w => ((), w)
  | .delSetup, fails, w => w.attempt fails () ((), { w with setup := none, setupAttempts := 0 })
  | .getUser, row, w => match row with
    | none => (none, w)
    | some (active, epoch) => (some ⟨active, w.secret, epoch⟩, w)
  | .getSecret, fails, w => w.attempt fails none (some w.secret, w)
  | .setSecret secret, fails, w => w.attempt fails false (true, { w with secret := some secret })
  | .clearSecret, fails, w => w.attempt fails false (true, { w with secret := none })
  | .listCodes, fails, w => w.attempt fails none (some w.codes, w)
  | .deleteCode id, fails, w => w.attempt fails false
      (true, { w with codes := w.codes.filter fun row => row.id ≠ id })
  | .deleteAllCodes, fails, w => w.attempt fails () ((), { w with codes := [] })
  | .insertCode _ hash, fails, w => w.attempt fails false
      (true, { w with codes := w.codes ++ [⟨w.nextId, hash⟩], nextId := w.nextId + 1 })
  | .validateCode _ _, right, w => (right, w)
  | .validateSetup _ _, right, w => (right, w)
  | .compareCodes rows input, _, w => (matchCode check rows input, w)
  | .generateCodes _, drawn, w => (drawn.map (·.toList), w)
  | .issueTokens, refused, w => (refused, w)

/-! ## The system -/

inductive Role
  | verifyLogin (token : ℕ) (input : Input)
  | disable (input : Input)
  | regenerateRecoveryCodes (code : String)
  | confirmSetup (code : String)
  | adminReset (own : Bool)
  /-- A login's first step stores a pending login. -/
  | createPending (token : ℕ) (pending : Pending)
  /-- A pending login and the lock run out. -/
  | expirePending (token : ℕ)
  | expireLock

def Role.code : Role → P Unit
  | .verifyLogin token input => do
    let _ ← Totp.verifyLogin token input
    pure ()
  | .disable input => do
    let _ ← Totp.disable input
    pure ()
  | .regenerateRecoveryCodes code => do
    let _ ← Totp.regenerateRecoveryCodes code
    pure ()
  | .confirmSetup code => do
    let _ ← Totp.confirmSetup code
    pure ()
  | .adminReset own => do
    let _ ← Totp.adminReset own
    pure ()
  | .createPending token pending => call (.setPending token pending)
  | .expirePending token => call (.delPending token)
  | .expireLock => call .dropLock

def totp : System where
  sig := sig
  State := World
  Role := Role
  code := Role.code
  Outcome := Outcome
  exec := fun _ _ e o w => some (exec check e o w)

instance : DecidablePred (totp check).entry := fun _ => .isTrue trivial

end

end Nexara.Totp
