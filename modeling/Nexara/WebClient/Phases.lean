import Nexara.WebClient.Session

/-!
# What a call and a refresh have done so far

A call resolves its token under the epoch it was made under, sends, and may replay once; a refresh is
taken up, answered and settled. `phases` reads off a party's own statements where it stands, with the
epoch it goes by, and all code follows it (`phases_followed`).
-/

namespace Nexara.WebClient

open Conc

/-- Where a party stands, with the epoch and the token it goes by. -/
inductive Phase
  | idle
  /-- A call awaits a refresh: `again` after a 401. -/
  | waiting (again : Bool) (epoch attempt : ℕ)
  | failing (again : Bool) (epoch : ℕ) (failure : Failure)
  | holding (again : Bool) (epoch : ℕ) (token : String)
  /-- No token came of it. -/
  | tokenless
  | anonymous (epoch : ℕ)
  | sent (epoch : ℕ) (token : Option String)
  /-- A refresh was taken up, and its answer applied. -/
  | refreshing (attempt epoch : ℕ)
  | applied (attempt epoch : ℕ) (res : Session)
  | over

namespace Phase

/-- A call that waits for a token. -/
def await (epoch : ℕ) : Waiting → Phase
  | .value none => .tokenless
  | .value (some token) => .holding false epoch token
  | .ahead none => .failing false epoch .refreshSkipped
  | .ahead (some attempt) => .waiting false epoch attempt
  | .needed attempt => .waiting false epoch attempt

/-- What a refresh that was awaited came to. -/
def result (again : Bool) (epoch : ℕ) : Except Failure Session → Phase
  | .ok res => .holding again epoch res.accessToken
  | .error failure => .failing again epoch failure

/-- The refresh that a call waits for has ended. -/
def awaited : Phase → Except Failure Session → Phase
  | .waiting again epoch _, res => result again epoch res
  | l, _ => l

/-- A skipped refresh is asked for once more, unless the session has changed. -/
def retried : Phase → Option ℕ → Phase
  | .failing again epoch _, none => .failing again epoch .staleSession
  | .failing again epoch _, some attempt => .waiting again epoch attempt
  | l, _ => l

/-- A call whose refresh failed falls back on the token it holds. -/
def fellBack (epoch : ℕ) : FallBack → Phase
  | .failed _ => .over
  | .held none => .tokenless
  | .held (some token) => .holding false epoch token
  | .again attempt => .waiting false epoch attempt

/-- A call goes on without a token, under the epoch it finds. -/
def unsigned : Option ℕ → Phase
  | none => .over
  | some epoch => .anonymous epoch

/-- A call was refused with a 401. -/
def retry (epoch : ℕ) : Retry → Phase
  | .needed attempt => .waiting true epoch attempt
  | _ => .over

/-- A refresh's answer is stored, unless its session is over. -/
def apply (res : Session) : Phase → Applied → Phase
  | l, .stale => l
  | .refreshing attempt epoch, _ => .applied attempt epoch res
  | l, _ => l

/-- The phase after a statement was answered. -/
def next (l : Phase) : (e : Stmt) → Ans e → Phase
  | .ensureValidToken, began => await began.1 began.2
  | .confirmSession, began => match (began : Option (ℕ × ℕ)) with
    | none => .over
    | some (epoch, attempt) => await epoch (.needed attempt)
  | .awaitAttempt _, res => l.awaited res
  | .retryNeeded _, attempt => l.retried attempt
  | .fallBack epoch _, fell => fellBack epoch fell
  | .noToken, epoch => unsigned epoch
  | .send epoch token, current => match (current : Bool) with
    | false => .over
    | true => .sent epoch token
  | .unauthorized epoch _, kind => retry epoch kind
  | .take attempt, taken => .refreshing attempt taken.epoch
  | .applyAnswer _ res, kind => l.apply res kind
  | .sendHeld, _ | .replay _ _, _ | .settle _ _, _ | .storeTokens _, _ | .clearTokens, _ => .over
  | .response, _ | .isCurrent _, _ | .lock _, _ | .postRefresh _, _ | .refreshAnswer, _
  | .failed _ _, _ | .refuse _, _ | .listener, _ => l

/-- What a party may do in a phase. -/
def may (r : Role) (l : Phase) : Stmt → Prop
  | .ensureValidToken | .confirmSession | .sendHeld | .storeTokens _ | .clearTokens => l = .idle
  | .take attempt => l = .idle ∧ r = .refreshTokens attempt
  | .awaitAttempt attempt => ∃ again epoch, l = .waiting again epoch attempt
  | .retryNeeded epoch => ∃ again, l = .failing again epoch .refreshSkipped
  | .fallBack epoch failure => l = .failing false epoch failure
  | .noToken => l = .tokenless ∨ ∃ epoch, l = .failing false epoch .refreshRefused
  | .send epoch (some token) => l = .holding false epoch token
  | .send epoch none => l = .anonymous epoch
  | .unauthorized epoch sentToken => ∃ token, l = .sent epoch token ∧ sentToken = truthy token
  | .replay epoch token => l = .holding true epoch token
  | .refuse epoch | .applyAnswer epoch _ =>
    ∃ attempt, l = .refreshing attempt epoch ∧ r = .refreshTokens attempt
  | .settle attempt (.ok res) => ∃ epoch, l = .applied attempt epoch res
  | .settle _ (.error _) | .response | .isCurrent _ | .lock _ | .postRefresh _ | .refreshAnswer
  | .failed _ _ | .listener => l ≠ .idle

end Phase

/-- The phases of calls and refreshes, as a protocol. -/
def phases : Protocol webClient where
  Loc := Phase
  init := .idle
  next := fun _ => Phase.next
  may := Phase.may

/-! ## All code follows -/

/-- A program that starts in one phase and ends in one that its result allows. -/
abbrev Leads {α : Type} (r : Role) (l : Phase) (p : P α) (Q : α → Phase → Prop) : Prop :=
  phases.Follows r p Q l

/-- Where a call stands once it has waited for a token. -/
def Resolved (epoch : ℕ) : Except Failure (Option String) → Phase → Prop
  | .ok (some token), l => l = .holding false epoch token
  | .ok none, l => l = .tokenless ∨ ∃ epoch, l = .failing false epoch .refreshRefused
  | .error _, l => l ≠ .idle

/-- Where a call stands once it has chosen its token and epoch. -/
def Chosen : Except Failure (Option String × ℕ) → Phase → Prop
  | .ok (some token, epoch), l => l = .holding false epoch token
  | .ok (none, epoch), l => l = .anonymous epoch
  | .error _, l => l ≠ .idle

section

variable {r : Role}

theorem leads_awaitNeeded (again : Bool) (epoch attempt : ℕ) :
    Leads r (.waiting again epoch attempt) (awaitNeeded epoch attempt) fun res l =>
      l = Phase.result again epoch res := by
  refine ⟨⟨again, epoch, rfl⟩, fun res => ?_⟩
  rcases (res : Except Failure Session) with failure | res
  · cases failure with
    | refreshSkipped =>
      refine ⟨⟨again, rfl⟩, fun attempt' => ?_⟩
      rcases (attempt' : Option ℕ) with _ | attempt'
      · rfl
      · exact ⟨⟨again, epoch, rfl⟩, fun _ => rfl⟩
    | _ => rfl
  · rfl

theorem leads_awaitRefresh (epoch : ℕ) {waiting : Waiting} (h : ∀ token, waiting ≠ .value token) :
    Leads r (Phase.await epoch waiting) (awaitRefresh epoch waiting) fun res l =>
      l = Phase.result false epoch res := by
  cases waiting with
  | value token => exact absurd rfl (h token)
  | ahead attempt =>
    cases attempt with
    | none => rfl
    | some attempt => exact ⟨⟨false, epoch, rfl⟩, fun _ => rfl⟩
  | needed attempt => exact leads_awaitNeeded false epoch attempt

theorem leads_tokenFromResult {epoch : ℕ} {again : ℕ → P (Except Failure (Option String))}
    (h : ∀ attempt, Leads r (.waiting false epoch attempt) (again attempt) (Resolved epoch))
    (res : Except Failure Session) :
    Leads r (Phase.result false epoch res) (tokenFromResult epoch again res) (Resolved epoch) := by
  rcases res with failure | res
  · cases failure with
    | refreshRefused => exact .inr ⟨epoch, rfl⟩
    | _ =>
      refine ⟨rfl, fun fell => ?_⟩
      rcases (fell : FallBack) with _ | token | attempt
      · exact nofun
      · cases token with
        | none => exact .inl rfl
        | some token => rfl
      · exact h attempt
  · rfl

theorem leads_tokenFromRefresh (epoch : ℕ) : ∀ (depth : ℕ) (waiting : Waiting),
    (∀ token, waiting ≠ .value token) →
    Leads r (Phase.await epoch waiting) (tokenFromRefresh depth epoch waiting) (Resolved epoch)
  | 0, _, h => (leads_awaitRefresh epoch h).seq fun res l hl => by
    subst hl
    exact leads_tokenFromResult (fun _ => Phase.noConfusion) res
  | depth + 1, _, h => (leads_awaitRefresh epoch h).seq fun res l hl => by
    subst hl
    exact leads_tokenFromResult
      (fun attempt => leads_tokenFromRefresh epoch depth (.needed attempt) nofun) res

theorem leads_awaitToken (depth epoch : ℕ) (waiting : Waiting) :
    Leads r (Phase.await epoch waiting) (awaitToken depth epoch waiting) (Resolved epoch) := by
  cases waiting with
  | value token =>
    cases token with
    | none => exact .inl rfl
    | some token => rfl
  | ahead attempt => exact leads_tokenFromRefresh epoch depth (.ahead attempt) nofun
  | needed attempt => exact leads_tokenFromRefresh epoch depth (.needed attempt) nofun

theorem leads_tokenForRequest (depth : ℕ) : Leads r .idle (tokenForRequest depth) Chosen := by
  refine ⟨rfl, fun began => ?_⟩
  refine (leads_awaitToken depth began.1 began.2).seq fun token l hl => ?_
  rcases token with failure | _ | token
  · exact hl
  · refine ⟨hl, fun epoch => ?_⟩
    rcases (epoch : Option ℕ) with _ | epoch
    · exact nofun
    · rfl
  · exact hl

variable {l : Phase}

theorem leads_failCurrent (hl : l ≠ .idle) (epoch : ℕ) (failure : Failure) :
    Leads r l (failCurrent epoch failure) fun _ _ => True := by
  refine ⟨hl, fun current => ?_⟩
  cases (current : Bool) <;> trivial

theorem leads_afterReplay (hl : l ≠ .idle) (epoch : ℕ) :
    Leads r l (afterReplay epoch) fun _ _ => True := by
  refine ⟨hl, fun response => ?_⟩
  rcases (response : Response) with message | status
  · exact leads_failCurrent hl epoch (.other message)
  · trivial

theorem leads_replayWith (epoch : ℕ) (res : Except Failure Session) :
    Leads r (Phase.result true epoch res) (replayWith epoch res) fun _ _ => True := by
  rcases res with failure | res
  · cases failure with
    | refreshRefused => trivial
    | _ => exact leads_failCurrent Phase.noConfusion epoch _
  · refine ⟨rfl, fun current => ?_⟩
    cases (current : Bool) with
    | false => trivial
    | true => exact leads_afterReplay Phase.noConfusion epoch

theorem leads_afterSend (epoch : ℕ) (token : Option String) :
    Leads r (.sent epoch token) (afterSend epoch (truthy token)) fun _ _ => True := by
  refine ⟨nofun, fun response => ?_⟩
  rcases (response : Response) with message | status
  · trivial
  · show Leads r (.sent epoch token) (if status = 401 then do
      let retry ← call (.unauthorized epoch (truthy token))
      retryUnauthorized epoch retry
    else pure (.ok status)) fun _ _ => True
    split_ifs
    · refine ⟨⟨token, rfl, rfl⟩, fun kind => ?_⟩
      rcases (kind : Retry) with _ | _ | token' | attempt
      · trivial
      · trivial
      · exact leads_afterReplay Phase.noConfusion epoch
      · exact (leads_awaitNeeded true epoch attempt).seq fun res l hl => by
          subst hl
          exact leads_replayWith epoch res
    · trivial

/-- Whatever a call does once it has chosen its token. -/
theorem leads_send {token : Option String} {epoch : ℕ} {p : P Reply}
    (hl : Chosen (.ok (token, epoch)) l) (h : Leads r (.sent epoch token) p fun _ _ => True) :
    Leads r l (do
      match (← call (.send epoch token) : Bool) with
      | false => pure (.error .staleSession)
      | true => p) fun _ _ => True := by
  refine ⟨?_, fun current => ?_⟩
  · cases token with
    | none | some token => exact hl
  · cases (current : Bool) with
    | false => trivial
    | true => exact h

theorem leads_request (depth : ℕ) : Leads r .idle (request depth) fun _ _ => True := by
  refine (leads_tokenForRequest depth).seq fun chosen l hl => ?_
  rcases chosen with failure | ⟨token, epoch⟩
  · trivial
  · exact leads_send hl (leads_afterSend epoch token)

theorem leads_response (hl : l ≠ .idle) : Leads r l (do
    match (← call .response : Response) with
    | .ok status => pure (.ok status)
    | .error message => pure (.error (.other message)) : P Reply) fun _ _ => True := by
  refine ⟨hl, fun response => ?_⟩
  rcases (response : Response) with _ | _ <;> trivial

theorem leads_apiFetch (depth : ℕ) : Leads r .idle (apiFetch depth) fun _ _ => True := by
  refine (leads_tokenForRequest depth).seq fun chosen l hl => ?_
  rcases chosen with failure | ⟨token, epoch⟩
  · trivial
  · exact leads_send hl (leads_response Phase.noConfusion)

theorem leads_confirmSession (depth : ℕ) :
    Leads r .idle (confirmSession depth) fun _ _ => True := by
  refine ⟨rfl, fun began => ?_⟩
  rcases (began : Option (ℕ × ℕ)) with _ | ⟨epoch, attempt⟩
  · trivial
  · exact (leads_tokenFromRefresh epoch depth (.needed attempt) nofun).seq
      fun _ _ _ => trivial

/-! ### Refreshes -/

theorem leads_settleFailed (hl : l ≠ .idle) (attempt epoch : ℕ) (failure : Failure) :
    Leads r l (settleFailed attempt epoch failure) fun _ _ => True :=
  ⟨hl, fun _ => ⟨hl, fun _ => trivial⟩⟩

theorem leads_settleTold (hl : l ≠ .idle) {attempt : ℕ}
    {res : Except Failure Session} (hmay : l.may r (.settle attempt res)) :
    Leads r l (settleTold attempt res) fun _ _ => True := by
  refine ⟨hl, fun thrown => ?_⟩
  rcases (thrown : Option String) with _ | thrown
  · exact ⟨hmay, fun _ => trivial⟩
  · exact ⟨hl, fun _ => trivial⟩

theorem leads_readAnswer (hl : l ≠ .idle) (attempt epoch : ℕ) {read : P Unit}
    (h : Leads r l read fun _ _ => True) :
    Leads r l (readAnswer attempt epoch read) fun _ _ => True := by
  refine ⟨hl, fun current => ?_⟩
  cases (current : Bool) with
  | false => exact ⟨hl, fun _ => trivial⟩
  | true => exact h

theorem leads_storeAnswer (attempt epoch : ℕ) (res : Session) :
    Leads (.refreshTokens attempt) (.refreshing attempt epoch) (storeAnswer attempt epoch res)
      fun _ _ => True := by
  refine ⟨⟨attempt, rfl, rfl⟩, fun kind => ?_⟩
  cases (kind : Applied) with
  | stale => exact ⟨nofun, fun _ => trivial⟩
  | rotated | began => exact leads_settleTold Phase.noConfusion ⟨epoch, rfl⟩

theorem leads_takeAnswer (attempt epoch : ℕ) (answer : RefreshAnswer) :
    Leads (.refreshTokens attempt) (.refreshing attempt epoch) (takeAnswer attempt epoch answer)
      fun _ _ => True := by
  have hl : Phase.refreshing attempt epoch ≠ .idle := Phase.noConfusion
  have hfail := fun failure =>
    leads_readAnswer (r := .refreshTokens attempt) hl attempt epoch
      (leads_settleFailed hl attempt epoch failure)
  cases answer with
  | network message => exact leads_settleFailed hl attempt epoch _
  | superseded reason retryAfterMs | error status reason retryAfterMs | notJson status =>
    exact hfail _
  | refused =>
    refine ⟨⟨attempt, rfl, rfl⟩, fun cleared => ?_⟩
    cases (cleared : Bool) with
    | false => exact ⟨hl, fun _ => trivial⟩
    | true => exact leads_settleTold hl hl
  | session status res =>
    refine leads_readAnswer hl attempt epoch ?_
    split_ifs
    · exact leads_settleFailed hl attempt epoch _
    · exact leads_storeAnswer attempt epoch res

theorem leads_postRefresh (attempt epoch : ℕ) :
    Leads (.refreshTokens attempt) (.refreshing attempt epoch) (postRefresh attempt epoch)
      fun _ _ => True := by
  have hl : Phase.refreshing attempt epoch ≠ .idle := Phase.noConfusion
  refine ⟨hl, fun current => ?_⟩
  cases (current : Bool) with
  | false => exact ⟨hl, fun _ => trivial⟩
  | true =>
    refine ⟨hl, fun answer => ?_⟩
    cases (answer : RefreshAnswer) with
    | superseded reason retryAfterMs =>
      refine ⟨hl, fun current => ?_⟩
      cases (current : Bool) with
      | false => exact leads_settleFailed hl attempt epoch _
      | true => exact ⟨hl, fun answer => leads_takeAnswer attempt epoch answer⟩
    | network message => exact leads_takeAnswer attempt epoch (.network message)
    | refused => exact leads_takeAnswer attempt epoch .refused
    | error status reason wait => exact leads_takeAnswer attempt epoch (.error status reason wait)
    | notJson status => exact leads_takeAnswer attempt epoch (.notJson status)
    | session status res => exact leads_takeAnswer attempt epoch (.session status res)

theorem leads_refreshTokens (attempt : ℕ) :
    Leads (.refreshTokens attempt) .idle (refreshTokens attempt) fun _ _ => True := by
  refine ⟨⟨rfl, rfl⟩, fun taken => ?_⟩
  obtain ⟨epoch, courtesy, failing⟩ := (taken : Taken)
  have hl : Phase.refreshing attempt epoch ≠ .idle := Phase.noConfusion
  cases failing with
  | some failure => exact ⟨hl, fun _ => trivial⟩
  | none =>
    refine ⟨hl, fun lock => ?_⟩
    cases (lock : Lock) with
    | skipped => exact ⟨hl, fun _ => trivial⟩
    | granted | without => exact leads_postRefresh attempt epoch

end

theorem phases_followed : phases.Followed fun _ => True := by
  intro r
  have hunit : ∀ {p : P Reply}, Leads r .idle p (fun _ _ => True) →
      Leads r .idle (p >>= fun _ => pure ()) fun _ _ => True := fun h => h.seq fun _ _ _ => trivial
  cases r with
  | request depth => exact hunit (leads_request depth)
  | apiFetch depth => exact hunit (leads_apiFetch depth)
  | signOutRequest => exact hunit ⟨rfl, fun _ => leads_response Phase.noConfusion⟩
  | confirmSession depth => exact leads_confirmSession depth
  | refreshTokens attempt => exact leads_refreshTokens attempt
  | storeTokens res | clearTokens => exact ⟨rfl, fun _ => trivial⟩

end Nexara.WebClient
