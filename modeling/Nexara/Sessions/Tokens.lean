import Nexara.Sessions.Effects

/-!
# What a party knows of refresh tokens

A party that looks a session up by a token remembers which session it found, and under which hash; a
token that it generated is its own until it has put it into a session; and a refresh that has
rotated its session, and then committed, remembers the token it will hand out. All code follows
`Tokens` (`tokens_followed`).
-/

namespace Nexara.Sessions

open Conc Protocol

/-- How far a refresh has come with its rotation, and the token it rotated to. -/
inductive Rotating where
  | idle
  | rotated (new : ℕ)
  | committed (new : ℕ)

structure Held where
  /-- A token that was generated and is not in use. -/
  token : Option ℕ := none
  /-- The session found by a token: its key, the hash that was presented, and the session's. -/
  found : Option (ℕ × ℕ × ℕ) := none
  stage : Rotating := .idle

def Rotating.commit : Rotating → Rotating
  | .rotated new => .committed new
  | s => s

def Rotating.giveUp : Rotating → Rotating
  | .rotated _ => .idle
  | s => s

def Held.next (m : Held) : (e : Stmt) → e.Ans → Held
  | .db (.getSessionByTokenHash h), .ok (some (k, s)) =>
      { m with found := some (k, h, s.tokenHash) }
  | .newToken, some t => { m with token := some t }
  | .db (.createSessionAtEpoch _ _ _ _ _), _ => { m with token := none }
  | .db (.rotateSessionToken _ _ new _), .ok (_ + 1) =>
      { m with token := none, stage := .rotated new }
  | .db (.rotateSessionToken _ _ _ _), _ => { m with token := none }
  | .db .commit, .ok _ => { m with stage := m.stage.commit }
  | .db .commit, .error _ => { m with stage := m.stage.giveUp }
  | .rollback, _ => { m with stage := m.stage.giveUp }
  | _, _ => m

/-- The party has no token of its own and no rotation under way. -/
def Held.Free (m : Held) : Prop := m.token = none ∧ m.stage = .idle

def Held.May (r : Role) (m : Held) : Stmt → Prop
  | .db (.getSessionByTokenHash _) | .newToken => m.Free
  | .db (.createSessionAtEpoch _ _ h _ _) => m.token = some h ∧ m.stage = .idle
  | .db (.rotateSessionToken k old new _) =>
      m.token = some new ∧ m.stage = .idle ∧ ∃ h, m.found = some (k, h, old)
  | .db .commit | .rollback => ∀ new, m.stage ≠ .committed new
  | .respond a => ∀ h new, r = .refresh (.value h) → a.refreshToken = some new →
      m.stage = .committed new ∧ ∃ k old, m.found = some (k, h, old)
  | _ => True

abbrev Tokens : Protocol sessions where
  Loc := Held
  init := {}
  next := fun _ => Held.next
  may := Held.May

/-! ## The handlers follow it -/

section

variable {r : Role} {m : Held} {α β : Type}

attribute [local simp] db ext timeNow answer respond dbFailed refreshDBFailed rollback
  generateRefreshToken Held.next Held.May Held.Free Rotating.commit Rotating.giveUp
  Prog.forall_except Option.forall validateRefreshToken findReplaced findSessionForLogout
  refuseStaleRefresh refusalSparesCookie revokeAllUserSessionsIn passwordNotChanged
  deactivationNotDone

theorem tokens_issueTokens {u : ℕ} {user : User} {epoch ttl : ℕ} {cookie : Token}
    (hr : ∀ h, r ≠ .refresh (.value h)) :
    Tokens.Follows r (issueTokens u user epoch ttl cookie) (fun _ _ => True) {} := by
  cases cookie <;> simp [issueTokens, createSession, endReplacedSession, hr]

theorem tokens_followed : Tokens.Followed fun _ => True := by
  intro r
  cases r with
  | login u ttl totp cookie =>
    cases totp <;> simp [code, login, verifyLogin, tokens_issueTokens]
  | refresh token =>
    cases token <;> simp [code, refresh, refreshIn, revokeRefusedSession, rotateAndCommit]
  | logout token caller => cases token <;> simp [code, logout]
  | revokeSessionByID u id => simp [code, revokeSessionByID]
  | logoutAll u cookie => cases cookie <;> simp [code, logoutAll, lookUpCookie]
  | changePassword u new =>
    simp [code, changePassword, changePasswordIn]
    rintro user (_ | n) <;> simp [settleCommit, passwordChanged]
  | deactivate u role =>
    refine follows_stmt trivial (Prog.forall_except.mpr ⟨by simp, fun _ => ?_⟩)
    refine follows_stmt trivial ?_
    rintro (e | _ | n) <;> simp
  | updateUserProfile u isActive role =>
    refine follows_stmt trivial ?_
    rintro (e | _ | n) <;> simp
  | wait seconds => simp [code]

end

end Nexara.Sessions
