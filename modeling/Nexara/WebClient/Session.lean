import Nexara.Conc.Protocol

/-!
# The web client's sessions

`api-client.ts`: the access token that the module holds, the requests that carry it, the refreshes
that rotate it, and the sign-ins and sign-outs that begin and end a session. The code between two
`await`s runs without interruption, so every such piece that uses the module's variables is one
statement. A promise that several callers wait on (a refresh in flight) is an attempt in the
module's state: its own party settles it, and whoever awaits it is blocked until then.

The stored user in `localStorage`, which no session decision here reads, is left out.
-/

namespace Nexara.WebClient

open Conc

def refreshBackoffMs : Int := 5000

def refreshBackoffMaxMs : Int := 60000

def expiredTokenSkew : Int := 300

/-! ## Data -/

/-- `AuthResponse`, as far as the module uses one. -/
structure Session where
  accessToken : String
  expiresAt : Int
  userId : String

inductive Failure
  | staleSession
  | refreshRefused
  | refreshSkipped
  | refreshFailed (status : ℕ) (reason : String) (retryAfterMs : Int)
  | apiClient (status : ℕ) (message : String)
  /-- The network's error, or what a listener threw. -/
  | other (message : String)
  deriving DecidableEq

/-- How far a refresh in flight has come. -/
inductive Status
  | begun
  /-- It fails at once with the failure that is being waited out. -/
  | failing (failure : Failure)
  | taken
  | settled (result : Except Failure Session)

/-- A refresh: the session epoch it began under, and its promise. -/
structure Attempt where
  epoch : ℕ
  courtesy : Bool
  status : Status

/-- The module's variables. -/
structure Client where
  accessToken : Option String := none
  expiresAt : Int := 0
  userId : Option String := none
  refreshPromise : Option ℕ := none
  refreshIsCourtesy : Bool := false
  /-- Until when the next refresh is held off, and the failure that began the wait. -/
  refreshBackoff : Option (Int × Failure) := none
  sessionEpoch : ℕ := 0
  signedOut : Bool := false
  attempts : List Attempt := []
  /-- Which tokens were stored under which epoch: no code reads it. -/
  stored : List (ℕ × String) := []

structure Clock where
  now : Int
  monotonic : Int

/-- The token, unless it is one that a test for truth rejects. -/
def truthy (token : Option String) : Option String := token.filter fun t => t ≠ ""

namespace Client

/-! ## The module's functions, between two awaits -/

def writeTokens (c : Client) (res : Session) : Client :=
  { c with
    accessToken := some res.accessToken
    expiresAt := res.expiresAt
    userId := some res.userId
    stored := (c.sessionEpoch, res.accessToken) :: c.stored }

def storeTokens (c : Client) (res : Session) : Client :=
  writeTokens
    { c with
      sessionEpoch := c.sessionEpoch + 1
      signedOut := false
      refreshPromise := none
      refreshBackoff := none } res

def clearTokens (c : Client) : Client :=
  { c with
    sessionEpoch := c.sessionEpoch + 1
    signedOut := true
    refreshPromise := none
    refreshBackoff := none
    accessToken := none
    expiresAt := 0
    userId := none }

def beginAttempt (c : Client) (courtesy : Bool) (status : Status) : Client :=
  { c with
    attempts := c.attempts ++ [⟨c.sessionEpoch, courtesy, status⟩]
    refreshPromise := some c.attempts.length
    refreshIsCourtesy := courtesy }

/-- `startRefresh`, with what `refreshTokens` does before its first `await`. -/
def startRefresh (c : Client) (courtesy : Bool) (clock : Clock) : Client :=
  match c.refreshBackoff with
  | none => c.beginAttempt courtesy .begun
  | some (waitUntil, failure) =>
    if clock.monotonic < waitUntil then c.beginAttempt courtesy (.failing failure)
    else { c with refreshBackoff := none }.beginAttempt courtesy .begun

/-- The attempt that `refreshAhead` joins or begins, unless it is skipped. -/
def refreshAhead (c : Client) (clock : Clock) : Option ℕ × Client :=
  match c.refreshPromise with
  | none => (some c.attempts.length, c.startRefresh true clock)
  | some attempt => (if c.refreshIsCourtesy then some attempt else none, c)

def refreshNeeded (c : Client) (clock : Clock) : ℕ × Client :=
  match c.refreshPromise with
  | none => (c.attempts.length, c.startRefresh false clock)
  | some attempt => (attempt, c)

/-- Its second try, after a skip. -/
def retryNeeded (c : Client) (epoch : ℕ) (clock : Clock) : Option ℕ × Client :=
  if epoch ≠ c.sessionEpoch then (none, c)
  else
    match c.refreshPromise, c.refreshIsCourtesy with
    | some attempt, false => (some attempt, c)
    | _, _ => (some c.attempts.length, c.startRefresh false clock)

end Client

inductive Waiting
  | value (token : Option String)
  | ahead (attempt : Option ℕ)
  | needed (attempt : ℕ)

inductive FallBack
  | failed (failure : Failure)
  | held (token : Option String)
  | again (attempt : ℕ)

inductive Retry
  | stale
  | expired
  | replayed (token : String)
  | needed (attempt : ℕ)

inductive Applied
  | stale
  | rotated
  | began

namespace Client

def tokenFromRefresh (c : Client) (courtesy : Bool) (clock : Clock) : Waiting × Client :=
  match courtesy with
  | true => (.ahead (c.refreshAhead clock).1, (c.refreshAhead clock).2)
  | false => (.needed (c.refreshNeeded clock).1, (c.refreshNeeded clock).2)

def ensureValidToken (c : Client) (clock : Clock) : Waiting × Client :=
  match truthy c.accessToken with
  | none => if c.signedOut then (.value none, c) else c.tokenFromRefresh false clock
  | some token =>
    if 0 < c.expiresAt ∧ c.expiresAt - clock.now < 60 then
      c.tokenFromRefresh (decide (clock.now < c.expiresAt)) clock
    else (.value (some token), c)

def expiredBeyondSkew (c : Client) (clock : Clock) : Bool :=
  decide (expiredTokenSkew < clock.now - c.expiresAt)

/-- The `catch` of `tokenFromRefresh`, but for a refusal. -/
def fallBack (c : Client) (epoch : ℕ) (failure : Failure) (clock : Clock) : FallBack × Client :=
  if epoch ≠ c.sessionEpoch then (.failed .staleSession, c)
  else if failure = .refreshSkipped then
    if c.expiredBeyondSkew clock then
      (.again (c.refreshNeeded clock).1, (c.refreshNeeded clock).2)
    else (.held c.accessToken, c)
  else if c.accessToken ≠ none ∧ c.expiredBeyondSkew clock = false then (.held c.accessToken, c)
  else (.failed failure, c)

/-- `request` after a 401: a newer token that is held is replayed at once. -/
def unauthorized (c : Client) (epoch : ℕ) (sentToken : Option String) (clock : Clock) :
    Retry × Client :=
  if epoch ≠ c.sessionEpoch then (.stale, c)
  else if c.signedOut then (.expired, c)
  else
    match c.accessToken with
    | none => (.needed (c.refreshNeeded clock).1, (c.refreshNeeded clock).2)
    | some held =>
      if sentToken ≠ some held then (.replayed held, c)
      else (.needed (c.refreshNeeded clock).1, (c.refreshNeeded clock).2)

def asked : Failure → Int
  | .refreshFailed _ _ retryAfterMs => retryAfterMs
  | _ => 0

def failed (c : Client) (epoch : ℕ) (failure : Failure) (monotonic jitter : Int) :
    Failure × Client :=
  if epoch ≠ c.sessionEpoch then (.staleSession, c)
  else
    (failure, { c with
      refreshBackoff := some (monotonic + min (max (asked failure) (refreshBackoffMs + jitter))
        refreshBackoffMaxMs, failure) })

/-- A refusal ends the session it was for. -/
def refuse (c : Client) (epoch : ℕ) : Bool × Client :=
  if epoch ≠ c.sessionEpoch then (false, c) else (true, c.clearTokens)

/-- An answer rotates the session's tokens, or begins another user's session. -/
def applyAnswer (c : Client) (epoch : ℕ) (res : Session) : Applied × Client :=
  if epoch ≠ c.sessionEpoch then (.stale, c)
  else if c.userId ≠ none ∧ c.userId ≠ some res.userId then (.began, c.storeTokens res)
  else (.rotated, c.writeTokens res)

def setStatus (c : Client) (attempt : ℕ) (status : Status) : Client :=
  { c with attempts := c.attempts.modify attempt fun a => { a with status := status } }

/-- `confirmSession` up to its first `await`. -/
def confirmSession (c : Client) (clock : Clock) : Option (ℕ × ℕ) × Client :=
  if c.signedOut ∨ c.accessToken = none then (none, c)
  else (some (c.sessionEpoch, (c.refreshNeeded clock).1), (c.refreshNeeded clock).2)

/-- An attempt's `finally`: it forgets itself, and not a newer one. -/
def forget (c : Client) (attempt : ℕ) : Client :=
  { c with refreshPromise := if c.refreshPromise = some attempt then none else c.refreshPromise }

def settle (c : Client) (attempt : ℕ) (result : Except Failure Session) : Client :=
  (c.forget attempt).setStatus attempt (.settled result)

/-- What an attempt settled with, once it has. -/
def awaitAttempt (c : Client) (attempt : ℕ) : Option (Except Failure Session) :=
  match c.attempts[attempt]? with
  | some ⟨_, _, .settled result⟩ => some result
  | _ => none

end Client

/-! ## Statements -/

abbrev Response := Except String ℕ

inductive Lock
  | granted
  | skipped
  /-- No lock manager, or the wait ran out. -/
  | without

inductive RefreshAnswer
  | network (message : String)
  /-- 409 with `refresh_superseded`. -/
  | superseded (reason : String) (retryAfterMs : Int)
  /-- 401 or 403. -/
  | refused
  | error (status : ℕ) (reason : String) (retryAfterMs : Int)
  | notJson (status : ℕ)
  | session (status : ℕ) (res : Session)

/-- What a refresh finds of itself. -/
structure Taken where
  epoch : ℕ
  courtesy : Bool
  failing : Option Failure

/-- What a refresh that has begun finds, and that nobody has taken up. -/
def Attempt.take (a : Attempt) : Option Taken :=
  match a.status with
  | .begun => some ⟨a.epoch, a.courtesy, none⟩
  | .failing failure => some ⟨a.epoch, a.courtesy, some failure⟩
  | _ => none

/-- Only a courtesy refresh is skipped. -/
def Lock.possible : Lock → Bool → Bool
  | .skipped, false => false
  | _, _ => true

inductive Stmt
  /-- The call of a request: `tokenForRequest` up to its first `await`. -/
  | ensureValidToken
  | confirmSession
  | awaitAttempt (attempt : ℕ)
  | retryNeeded (epoch : ℕ)
  | fallBack (epoch : ℕ) (failure : Failure)
  /-- `tokenForRequest` with no token. -/
  | noToken
  /-- The check of the epoch and the `fetch`. -/
  | send (epoch : ℕ) (token : Option String)
  | sendHeld
  | response
  | unauthorized (epoch : ℕ) (sentToken : Option String)
  /-- The check of the epoch and the second `fetch`. -/
  | replay (epoch : ℕ) (token : String)
  | isCurrent (epoch : ℕ)
  /-- A refresh's own statements. -/
  | take (attempt : ℕ)
  | lock (courtesy : Bool)
  /-- The check of the epoch and the refresh's `fetch`. -/
  | postRefresh (epoch : ℕ)
  | refreshAnswer
  | failed (epoch : ℕ) (failure : Failure)
  | refuse (epoch : ℕ)
  | applyAnswer (epoch : ℕ) (res : Session)
  /-- What `onAuthFailure` or `onAuthRefresh` threw. -/
  | listener
  | settle (attempt : ℕ) (result : Except Failure Session)
  /-- A sign-in and a sign-out. -/
  | storeTokens (res : Session)
  | clearTokens

def Ans : Stmt → Type
  | .ensureValidToken => ℕ × Waiting
  | .confirmSession => Option (ℕ × ℕ)
  | .awaitAttempt _ => Except Failure Session
  | .retryNeeded _ => Option ℕ
  | .fallBack _ _ => FallBack
  | .noToken => Option ℕ
  | .send _ _ => Bool
  | .sendHeld => Option String
  | .response => Response
  | .unauthorized _ _ => Retry
  | .replay _ _ => Bool
  | .isCurrent _ => Bool
  | .take _ => Taken
  | .lock _ => Lock
  | .postRefresh _ => Bool
  | .refreshAnswer => RefreshAnswer
  | .failed _ _ => Failure
  | .refuse _ => Bool
  | .applyAnswer _ _ => Applied
  | .listener => Option String
  | .settle _ _ | .storeTokens _ | .clearTokens => Unit

abbrev sig : Sig := ⟨Stmt, Ans⟩

abbrev P (α : Type) := Prog sig α

abbrev call (e : Stmt) : P (Ans e) := Prog.stmt (S := sig) e

/-! ## Requests -/

def awaitNeeded (epoch attempt : ℕ) : P (Except Failure Session) := do
  match (← call (.awaitAttempt attempt) : Except Failure Session) with
  | .error .refreshSkipped =>
    match (← call (.retryNeeded epoch) : Option ℕ) with
    | none => pure (.error .staleSession)
    | some attempt' => call (.awaitAttempt attempt')
  | result => pure result

/-- The refresh that a token is waited for. -/
def awaitRefresh (epoch : ℕ) : Waiting → P (Except Failure Session)
  | .ahead (some attempt) => call (.awaitAttempt attempt)
  | .needed attempt => awaitNeeded epoch attempt
  | _ => pure (.error .refreshSkipped)

/-- `tokenFromRefresh` after its `await`; `again` is its call of itself. -/
def tokenFromResult (epoch : ℕ) (again : ℕ → P (Except Failure (Option String))) :
    Except Failure Session → P (Except Failure (Option String))
  | .ok refreshed => pure (.ok (some refreshed.accessToken))
  | .error .refreshRefused => pure (.ok none)
  | .error failure => do
    match (← call (.fallBack epoch failure) : FallBack) with
    | .failed failure' => pure (.error failure')
    | .held token => pure (.ok token)
    | .again attempt => again attempt

/-- `tokenFromRefresh` from its first `await` on; it calls itself at most so often. -/
def tokenFromRefresh : ℕ → ℕ → Waiting → P (Except Failure (Option String))
  | 0, epoch, waiting => do
    let result ← awaitRefresh epoch waiting
    tokenFromResult epoch (fun _ => pure (.error .refreshSkipped)) result
  | depth + 1, epoch, waiting => do
    let result ← awaitRefresh epoch waiting
    tokenFromResult epoch (fun attempt => tokenFromRefresh depth epoch (.needed attempt)) result

/-- `ensureValidToken` from its first `await` on. -/
def awaitToken (depth epoch : ℕ) : Waiting → P (Except Failure (Option String))
  | .value token => pure (.ok token)
  | waiting => tokenFromRefresh depth epoch waiting

def tokenFor (before : ℕ) : Except Failure (Option String) → P (Except Failure (Option String × ℕ))
  | .error failure => pure (.error failure)
  | .ok (some token) => pure (.ok (some token, before))
  | .ok none => do
    match (← call .noToken : Option ℕ) with
    | none => pure (.error .staleSession)
    | some epoch => pure (.ok (none, epoch))

def tokenForRequest (depth : ℕ) : P (Except Failure (Option String × ℕ)) := do
  let began ← call .ensureValidToken
  let token ← awaitToken depth began.1 began.2
  tokenFor began.1 token

/-- What a request ends with: a status, or a failure. -/
abbrev Reply := Except Failure ℕ

def sessionExpired : Reply := .error (.apiClient 401 "Session expired")

/-- The end of a request whose failure may be another session's. -/
def failCurrent (epoch : ℕ) (failure : Failure) : P Reply := do
  match (← call (.isCurrent epoch) : Bool) with
  | true => pure (.error failure)
  | false => pure (.error .staleSession)

def afterReplay (epoch : ℕ) : P Reply := do
  match (← call .response : Response) with
  | .ok status => pure (.ok status)
  | .error message => failCurrent epoch (.other message)

def replayWith (epoch : ℕ) : Except Failure Session → P Reply
  | .error .refreshRefused => pure sessionExpired
  | .error failure => failCurrent epoch failure
  | .ok refreshed => do
    match (← call (.replay epoch refreshed.accessToken) : Bool) with
    | false => pure (.error .staleSession)
    | true => afterReplay epoch

def retryUnauthorized (epoch : ℕ) : Retry → P Reply
  | .stale => pure (.error .staleSession)
  | .expired => pure sessionExpired
  | .replayed _ => afterReplay epoch
  | .needed attempt => do
    let result ← awaitNeeded epoch attempt
    replayWith epoch result

def afterSend (epoch : ℕ) (sentToken : Option String) : P Reply := do
  match (← call .response : Response) with
  | .error message => pure (.error (.other message))
  | .ok status =>
    if status = 401 then do
      let retry ← call (.unauthorized epoch sentToken)
      retryUnauthorized epoch retry
    else pure (.ok status)

/-- `request` with its default authentication. -/
def request (depth : ℕ) : P Reply := do
  match (← tokenForRequest depth : Except Failure (Option String × ℕ)) with
  | .error failure => pure (.error failure)
  | .ok (token, epoch) =>
    match (← call (.send epoch token) : Bool) with
    | false => pure (.error .staleSession)
    | true => afterSend epoch (truthy token)

def apiFetch (depth : ℕ) : P Reply := do
  match (← tokenForRequest depth : Except Failure (Option String × ℕ)) with
  | .error failure => pure (.error failure)
  | .ok (token, epoch) =>
    match (← call (.send epoch token) : Bool) with
    | false => pure (.error .staleSession)
    | true =>
      match (← call .response : Response) with
      | .ok status => pure (.ok status)
      | .error message => pure (.error (.other message))

/-- `request` with the token held: Sign out's request. -/
def signOutRequest : P Reply := do
  let _ ← call .sendHeld
  match (← call .response : Response) with
  | .ok status => pure (.ok status)
  | .error message => pure (.error (.other message))

def confirmSession (depth : ℕ) : P Unit := do
  match (← call .confirmSession : Option (ℕ × ℕ)) with
  | none => pure ()
  | some (epoch, attempt) => do
    let _ ← tokenFromRefresh depth epoch (.needed attempt)
    pure ()

/-! ## Refreshes -/

def settleFailed (attempt epoch : ℕ) (failure : Failure) : P Unit := do
  let failure' ← call (.failed epoch failure)
  call (.settle attempt (.error failure'))

/-- After a listener was told: what it threw is what the refresh fails with. -/
def settleTold (attempt : ℕ) (result : Except Failure Session) : P Unit := do
  match (← call .listener : Option String) with
  | none => call (.settle attempt result)
  | some thrown => call (.settle attempt (.error (.other thrown)))

/-- An answer that is not a refusal, once its body is read. -/
def readAnswer (attempt epoch : ℕ) (read : P Unit) : P Unit := do
  match (← call (.isCurrent epoch) : Bool) with
  | false => call (.settle attempt (.error .staleSession))
  | true => read

def notASession : String := "the server's answer was not a session"

def storeAnswer (attempt epoch : ℕ) (res : Session) : P Unit := do
  match (← call (.applyAnswer epoch res) : Applied) with
  | .stale => call (.settle attempt (.error .staleSession))
  | .rotated => settleTold attempt (.ok res)
  | .began => settleTold attempt (.ok res)

def takeAnswer (attempt epoch : ℕ) : RefreshAnswer → P Unit
  | .network message => settleFailed attempt epoch (.other message)
  | .refused => do
    match (← call (.refuse epoch) : Bool) with
    | false => call (.settle attempt (.error .staleSession))
    | true => settleTold attempt (.error .refreshRefused)
  | .superseded reason retryAfterMs => readAnswer attempt epoch
    (settleFailed attempt epoch (.refreshFailed 409 reason retryAfterMs))
  | .error status reason retryAfterMs => readAnswer attempt epoch
    (settleFailed attempt epoch (.refreshFailed status reason retryAfterMs))
  | .notJson status => readAnswer attempt epoch
    (settleFailed attempt epoch (.refreshFailed status notASession 0))
  | .session status res => readAnswer attempt epoch
    (if res.accessToken = "" then
      settleFailed attempt epoch (.refreshFailed status notASession 0)
    else storeAnswer attempt epoch res)

/-- An answer that was superseded is asked for once more. -/
def postRefresh (attempt epoch : ℕ) : P Unit := do
  match (← call (.postRefresh epoch) : Bool) with
  | false => call (.settle attempt (.error .staleSession))
  | true =>
    match (← call .refreshAnswer : RefreshAnswer) with
    | .superseded _ _ =>
      match (← call (.postRefresh epoch) : Bool) with
      | false => settleFailed attempt epoch .staleSession
      | true => do
        let answer ← call .refreshAnswer
        takeAnswer attempt epoch answer
    | answer => takeAnswer attempt epoch answer

def refreshTokens (attempt : ℕ) : P Unit := do
  let taken ← call (.take attempt)
  match taken.failing with
  | some failure => call (.settle attempt (.error failure))
  | none =>
    match (← call (.lock taken.courtesy) : Lock) with
    | .skipped => call (.settle attempt (.error .refreshSkipped))
    | .granted => postRefresh attempt taken.epoch
    | .without => postRefresh attempt taken.epoch

/-! ## The system -/

/-- What the environment decides: the clocks, the answers, the lock, what a listener throws. -/
def Outcome : Stmt → Type
  | .ensureValidToken | .confirmSession | .retryNeeded _ | .fallBack _ _ | .unauthorized _ _ => Clock
  | .response => Response
  | .lock _ => Lock
  | .refreshAnswer => RefreshAnswer
  | .failed _ _ => Int × Int
  | .listener => Option String
  | _ => Unit

def exec : (e : Stmt) → Outcome e → Client → Option (Ans e × Client)
  | .ensureValidToken, clock, c =>
    some ((c.sessionEpoch, (c.ensureValidToken clock).1), (c.ensureValidToken clock).2)
  | .confirmSession, clock, c => some (c.confirmSession clock)
  | .awaitAttempt attempt, _, c => (c.awaitAttempt attempt).map fun result => (result, c)
  | .retryNeeded epoch, clock, c => some (c.retryNeeded epoch clock)
  | .fallBack epoch failure, clock, c => some (c.fallBack epoch failure clock)
  | .noToken, _, c => some (if c.signedOut then some c.sessionEpoch else none, c)
  | .send epoch _, _, c => some (decide (epoch = c.sessionEpoch), c)
  | .sendHeld, _, c => some (c.accessToken, c)
  | .response, response, c => some (response, c)
  | .unauthorized epoch sentToken, clock, c => some (c.unauthorized epoch sentToken clock)
  | .replay epoch _, _, c => some (decide (epoch = c.sessionEpoch), c)
  | .isCurrent epoch, _, c => some (decide (epoch = c.sessionEpoch), c)
  | .take attempt, _, c => (c.attempts[attempt]?.bind Attempt.take).map fun taken =>
    (taken, c.setStatus attempt .taken)
  | .lock courtesy, lock, c => if Lock.possible lock courtesy then some (lock, c) else none
  | .postRefresh epoch, _, c => some (decide (epoch = c.sessionEpoch), c)
  | .refreshAnswer, answer, c => some (answer, c)
  | .failed epoch failure, times, c => some (c.failed epoch failure times.1 times.2)
  | .refuse epoch, _, c => some (c.refuse epoch)
  | .applyAnswer epoch res, _, c => some (c.applyAnswer epoch res)
  | .listener, thrown, c => some (thrown, c)
  | .settle attempt result, _, c => some ((), c.settle attempt result)
  | .storeTokens res, _, c => some ((), c.storeTokens res)
  | .clearTokens, _, c => some ((), c.clearTokens)

inductive Role
  | request (depth : ℕ)
  | apiFetch (depth : ℕ)
  | signOutRequest
  | confirmSession (depth : ℕ)
  /-- The party of a refresh, which waits until the attempt has begun. -/
  | refreshTokens (attempt : ℕ)
  | storeTokens (res : Session)
  | clearTokens

def Role.code : Role → P Unit
  | .request depth => do
    let _ ← WebClient.request depth
    pure ()
  | .apiFetch depth => do
    let _ ← WebClient.apiFetch depth
    pure ()
  | .signOutRequest => do
    let _ ← WebClient.signOutRequest
    pure ()
  | .confirmSession depth => WebClient.confirmSession depth
  | .refreshTokens attempt => WebClient.refreshTokens attempt
  | .storeTokens res => call (.storeTokens res)
  | .clearTokens => call .clearTokens

def webClient : System where
  sig := sig
  State := Client
  Role := Role
  code := Role.code
  Outcome := Outcome
  exec := fun _ _ e o c => exec e o c

instance : DecidablePred webClient.entry := fun _ => .isTrue trivial

end Nexara.WebClient
