import Nexara.Sessions.Effects

/-!
# A revoke-all outlives no stale sign-in

A sign-in reads the user's epoch at its credential check and creates its session against that epoch,
at any later time. A revoke-all bumps the epoch, and then revokes. In the middle of it the user's
row is either committed with the new epoch, or written by the revoke-all's own transaction and
locked: so no session of an older epoch appears any more, and those that are there are revoked.
`Nexara.Sessions.RevokeAll` draws the conclusion.
-/

namespace Nexara.Sessions

open Conc Protocol Txn

/-! ## What happened in a run -/

/-- The user and the epoch a credential check reads. -/
def credential : (e : Stmt) → e.Ans → Option (ℕ × ℕ)
  | .db (.getUserByEmail u), .ok (some user) => some (u, user.authEpoch)
  | _, _ => none

/-- The user and the epoch of a session to be created. -/
def creation : Stmt → Option (ℕ × ℕ)
  | .db (.createSessionAtEpoch u epoch _ _ _) => some (u, epoch)
  | _ => none

/-- The user whose epoch party `j` bumps in state `w`, and the epoch it comes to. -/
def bump (j : ℕ) (w : World) : (e : Stmt) → e.Ans → Option (ℕ × ℕ)
  | .db (.bumpUserAuthEpoch via u), .ok _ =>
      (w.users.get? (via.who j) u).map fun user => (u, user.authEpoch + 1)
  | _, _ => none

/-- The last statement of a revoke-all on the pool, or the commit of its transaction. -/
def completion : (e : Stmt) → e.Ans → Bool
  | .db (.revokeAllUserSessions .pool _), .ok _ => true
  | .db .commit, .ok _ => true
  | _, _ => false

section

variable (log : sessions.Log)

/-- Party `i`'s credential check read epoch `epoch` of user `u`. -/
def Checked (i u epoch : ℕ) : Prop :=
  ∃ en ∈ log, en.party = i ∧ credential en.stmt en.ans = some (u, epoch)
deriving Decidable

/-- Party `i` created session `k` of user `u` against that epoch: the row is there after its insert,
whatever the party was told. -/
def Created (i u epoch k : ℕ) : sessions.Log → World → Prop
  | [], _ => False
  | en :: log, w => en.party = i ∧ creation en.stmt = some (u, epoch) ∧
      k = en.before.sessions.length ∧ k < w.sessions.length ∨ Created i u epoch k log en.before

/-- Party `j` bumped the epoch of user `u` to `b`. -/
def Bumped (j u b : ℕ) : Prop :=
  ∃ en ∈ log, en.party = j ∧ bump j en.before en.stmt en.ans = some (u, b)
deriving Decidable

/-- Party `j`'s revoke-all is over. -/
def Completed (j : ℕ) : Prop := ∃ en ∈ log, en.party = j ∧ completion en.stmt en.ans = true
deriving Decidable

instance (i u epoch k : ℕ) : ∀ log w, Decidable (Created i u epoch k log w)
  | [], _ => isFalse id
  | en :: log, _ =>
    have := instDecidableCreated i u epoch k log en.before
    inferInstanceAs (Decidable (_ ∨ _))

end

def World.Revoked (w : World) (k : ℕ) : Prop :=
  ∃ x, w.sessions[k]? = some x ∧ x.committed.isRevoked = true

/-! ## What a party remembers -/

inductive Stage where
  | fresh
  | bumped (via : Via) (u : ℕ)
  /-- In its transaction. -/
  | revoked (u : ℕ)
  | completed (u : ℕ)
  /-- It gave up. -/
  | failed
  /-- The party ended a transaction that was none. -/
  | ended

structure Memory where
  check : Option (ℕ × ℕ) := none
  stage : Stage := .fresh

def Stage.revoke : Stage → Stage
  | .bumped .pool u => .completed u
  | .bumped .tx u => .revoked u
  | s => s

def Stage.commit : Stage → Stage
  | .revoked u => .completed u
  | _ => .ended

def Stage.giveUp : Stage → Stage
  | .fresh | .ended => .ended
  | _ => .failed

def remember (m : Memory) : (e : Stmt) → e.Ans → Memory
  | .db (.getUserByEmail u), .ok (some user) => { m with check := some (u, user.authEpoch) }
  | .db (.bumpUserAuthEpoch via u), .ok _ => { m with stage := .bumped via u }
  | .db (.revokeAllUserSessions _ _), .ok _ => { m with stage := m.stage.revoke }
  | .db .commit, .ok _ => { m with stage := m.stage.commit }
  | .db .commit, .error _ => { m with stage := m.stage.giveUp }
  | .rollback, _ => { m with stage := m.stage.giveUp }
  | _, _ => m

/-- A session is created against the epoch that was read; a revoke-all bumps once, then revokes,
then commits. -/
def May (m : Memory) : Stmt → Prop
  | .db (.getUserByEmail _) => m.check = none
  | .db (.createSessionAtEpoch u epoch _ _ _) => m.check = some (u, epoch)
  | .db (.bumpUserAuthEpoch _ _) => m.stage = .fresh
  | .db (.revokeAllUserSessions via u) => m.stage = .bumped via u
  | .db .commit => m.stage = .fresh ∨ m.stage = .ended ∨ ∃ u, m.stage = .revoked u
  | .rollback => ∀ u, m.stage ≠ .completed u
  | _ => True

abbrev Epochs : Protocol sessions where
  Loc := Memory
  init := {}
  next := fun _ => remember
  may := fun _ => May

def Stmt.inert : Stmt → Bool
  | .db (.getUserByEmail _) | .db (.createSessionAtEpoch _ _ _ _ _)
  | .db (.bumpUserAuthEpoch _ _) | .db (.revokeAllUserSessions _ _) | .db .commit
  | .rollback => false
  | _ => true

theorem remember_of_inert {e : Stmt} (h : e.inert = true) (m : Memory) (a : e.Ans) :
    remember m e a = m := by
  cases e with
  | db d => cases d <;> first | rfl | cases h
  | rollback => cases h
  | _ => rfl

/-! ## The code follows -/

section

variable {r : Role} {m : Memory} {α β : Type}

attribute [local simp] db ext timeNow answer respond dbFailed rollback generateRefreshToken remember
  May Stage.revoke Stage.commit Stage.giveUp Prog.forall_except Option.forall validateRefreshToken
  findReplaced findSessionForLogout refuseStaleRefresh refusalSparesCookie revokeAllUserSessionsIn
  passwordNotChanged deactivationNotDone

theorem follows_issueTokens {u : ℕ} {user : User} {epoch ttl : ℕ} {cookie : Token}
    (hm : m.check = some (u, epoch)) :
    Epochs.Follows r (issueTokens u user epoch ttl cookie) (fun _ _ => True) m := by
  cases cookie <;> simp [issueTokens, createSession, endReplacedSession, hm]

theorem follows_changePasswordIn {u expected new : ℕ} (hm : m.stage = .fresh) :
    Epochs.Follows r (changePasswordIn u expected new) (fun _ _ => True) m := by
  refine follows_stmt trivial ?_
  rintro (e | _ | n) <;> simp [hm, settleCommit, passwordChanged]

theorem epochs_followed : Epochs.Followed fun _ => True := by
  intro r
  cases r with
  | login u ttl totp cookie => cases totp <;> simp [code, login, verifyLogin, follows_issueTokens]
  | refresh token =>
    cases token <;>
      simp [code, refresh, refreshDBFailed, refreshIn, revokeRefusedSession, rotateAndCommit]
  | logout token caller => cases token <;> simp [code, logout]
  | revokeSessionByID u id => simp [code, revokeSessionByID]
  | logoutAll u cookie => cases cookie <;> simp [code, logoutAll, lookUpCookie]
  | changePassword u new => simp [code, changePassword, follows_changePasswordIn]
  | deactivate u role =>
    refine follows_stmt trivial (Prog.forall_except.mpr ⟨by simp, fun _ => ?_⟩)
    refine follows_stmt trivial ?_
    rintro (e | _ | n) <;> simp
  | updateUserProfile u isActive role =>
    refine follows_stmt trivial ?_
    rintro (e | _ | n) <;> simp
  | wait seconds => simp [code]

end

end Nexara.Sessions
