import Nexara.Sessions.Handlers

/-!
# What a statement does to the tables

Every statement of a party leaves both tables alone, updates one of them, inserts a session, or ends
the party's transaction (`exec_effect`). Epochs only grow and a session stays with its user and
stays revoked, so the versions of a row grow along `Aged` and `Later` (`exec_grown`).
-/

namespace Nexara.Sessions

open Conc Txn

/-- How a user's row may change. -/
def Aged (v v' : User) : Prop := v.authEpoch ≤ v'.authEpoch

/-- How a session's row may change. -/
structure Later (s s' : Session) : Prop where
  userID : s'.userID = s.userID
  revoked : s.isRevoked = true → s'.isRevoked = true

theorem Aged.refl (v : User) : Aged v v := Nat.le_refl _

theorem Aged.trans (v v' v'' : User) (h : Aged v v') (h' : Aged v' v'') : Aged v v'' :=
  Nat.le_trans h h'

theorem Later.refl (s : Session) : Later s s := ⟨rfl, id⟩

theorem Later.trans (s s' s'' : Session) (h : Later s s') (h' : Later s' s'') : Later s s'' :=
  ⟨h'.userID.trans h.userID, fun hs => h'.revoked (h.revoked hs)⟩

def Stmt.ends : Stmt → Bool
  | .rollback | .db .commit => true
  | _ => false

/-- The ways in which a statement of party `i` changes the tables. -/
inductive Effect (i : ℕ) (w : World) : Stmt → World → Prop
  | same {e : Stmt} {w' : World} (hu : w'.users = w.users) (hs : w'.sessions = w.sessions) :
      Effect i w e w'
  | user {e : Stmt} {w' : World} (via : Via) {p : ℕ → User → Bool} {set : User → User} {n : ℕ}
      (hset : ∀ v, Aged v (set v)) (h : w.users.update (via.who i) p set = some (n, w'.users))
      (hs : w'.sessions = w.sessions) : Effect i w e w'
  | revoke {e : Stmt} {w' : World} (via : Via) {p : ℕ → Session → Bool} {n : ℕ}
      (hu : w'.users = w.users)
      (h : w.sessions.update (via.who i) p Session.revoke = some (n, w'.sessions)) :
      Effect i w e w'
  | rotate {k old new n : ℕ} {role : String} {w' : World} (hu : w'.users = w.users)
      (h : w.sessions.update (some i) (fun l s => l = k && s.rotatable (w.txNow i) old)
        (Session.rotate w.now new role) = some (n, w'.sessions)) :
      Effect i w (.db (.rotateSessionToken k old new role)) w'
  | create {u epoch h x : ℕ} {role : String} {w' : World} {y : Row User}
      (hy : w.users[u]? = some y) (hlock : y.locked none = false) (hu : w'.users = w.users)
      (hs : w'.sessions = w.sessions.insert
        { userID := u, tokenHash := h, expiresAt := x, userRole := role }) :
      Effect i w (.db (.createSessionAtEpoch u epoch h x role)) w'
  | ends {e : Stmt} {w' : World} (he : e.ends = true) (hu : w.users.Ended i w'.users)
      (hs : w.sessions.Ended i w'.sessions) : Effect i w e w'

section

variable {i : ℕ} {w w' : World}

theorem updateUsers_effect (via : Via) {p : ℕ → User → Bool} {set : User → User} {n : ℕ} {e : Stmt}
    (hset : ∀ v, Aged v (set v)) (h : w.updateUsers (via.who i) p set = some (n, w')) :
    Effect i w e w' ∧ w'.nextToken = w.nextToken := by
  obtain ⟨⟨m, t⟩, ht, heq⟩ := Option.map_eq_some_iff.mp h
  cases heq
  exact ⟨.user via hset ht rfl, rfl⟩

theorem updateSessions_eq_some {who : Option ℕ} {p : ℕ → Session → Bool}
    {set : Session → Session} {n : ℕ} (h : w.updateSessions who p set = some (n, w')) :
    w'.users = w.users ∧ w'.nextToken = w.nextToken ∧
      w.sessions.update who p set = some (n, w'.sessions) := by
  obtain ⟨⟨m, t⟩, ht, heq⟩ := Option.map_eq_some_iff.mp h
  cases heq
  exact ⟨rfl, rfl, ht⟩

theorem createSession_eq_some {u epoch : ℕ} {s : Session} {r : Option ℕ}
    (h : w.createSession u epoch s = some (r, w')) :
    w' = w ∧ r = none ∨ ∃ x, w.users[u]? = some x ∧ x.committed.authEpoch = epoch ∧
      x.locked none = false ∧ r = some w.sessions.length ∧
      w' = { w with sessions := w.sessions.insert s } := by
  unfold World.createSession at h
  cases hx : w.users[u]? with
  | none => rw [hx] at h; cases h; exact .inl ⟨rfl, rfl⟩
  | some x =>
    rw [hx] at h
    dsimp only at h
    split_ifs at h with hmatch hlock
    · cases h
      rw [Bool.and_eq_true, decide_eq_true_eq] at hmatch
      exact .inr ⟨x, rfl, hmatch.1, by simpa using hlock, rfl, rfl⟩
    · cases h; exact .inl ⟨rfl, rfl⟩

theorem revoke_later (s : Session) : Later s s.revoke := ⟨rfl, fun _ => rfl⟩

theorem rotate_later (clock new : ℕ) (role : String) (s : Session) :
    Later s (s.rotate clock new role) := ⟨rfl, id⟩

/-- No statement of the database generates a token. -/
theorem run_effect {d : Db} {r : d.Row} (h : d.run i w = some (r, w')) :
    Effect i w (.db d) w' ∧ w'.nextToken = w.nextToken := by
  cases d with
  | createSessionAtEpoch u epoch tokenHash expiresAt role =>
    rcases createSession_eq_some h with ⟨rfl, -⟩ | ⟨x, hx, -, hlock, -, rfl⟩
    · exact ⟨.same rfl rfl, rfl⟩
    · exact ⟨.create hx hlock rfl rfl, rfl⟩
  | revokeSession id =>
    obtain ⟨⟨n, v⟩, hv, heq⟩ := Option.map_eq_some_iff.mp h
    cases heq
    obtain ⟨hu, hnext, hs⟩ := updateSessions_eq_some hv
    exact ⟨.revoke .pool hu hs, hnext⟩
  | revokeAllUserSessions via u =>
    obtain ⟨⟨n, v⟩, hv, heq⟩ := Option.map_eq_some_iff.mp h
    cases heq
    obtain ⟨hu, hnext, hs⟩ := updateSessions_eq_some hv
    exact ⟨.revoke via hu hs, hnext⟩
  | rotateSessionToken id old new role =>
    obtain ⟨hu, hnext, hs⟩ := updateSessions_eq_some h
    exact ⟨.rotate hu hs, hnext⟩
  | updatePassword u expected new =>
    refine updateUsers_effect .tx ?_ h
    exact fun v => Nat.le_refl v.authEpoch
  | updateUserProfile via u isActive role =>
    refine updateUsers_effect via ?_ h
    exact fun v => Nat.le_refl v.authEpoch
  | bumpUserAuthEpoch via u =>
    refine updateUsers_effect via ?_ h
    exact fun v => Nat.le_succ v.authEpoch
  | getPasswordHashForSettle u =>
    replace h : (if _ then none else some _) = some (r, w') := h
    split_ifs at h
    cases h
    exact ⟨.same rfl rfl, rfl⟩
  | commit => cases h; exact ⟨.ends rfl (Table.ended_commit i _) (Table.ended_commit i _), rfl⟩
  | _ => cases h; exact ⟨.same rfl rfl, rfl⟩

theorem db_exec_cases {d : Db} {o : Fate} {a : Except Err d.Row} (h : d.exec i w o = some (a, w')) :
    (∃ r, d.run i w = some (r, w') ∧ (a = .ok r ∨ ∃ e, a = .error e)) ∨
      w' = d.fail i w ∧ ∃ e, a = .error e := by
  cases o with
  | done =>
    obtain ⟨⟨r, v⟩, hr, heq⟩ := Option.map_eq_some_iff.mp h
    cases heq
    exact .inl ⟨r, hr, .inl rfl⟩
  | failed e => cases h; exact .inr ⟨rfl, e, rfl⟩
  | lost e =>
    obtain ⟨⟨r, v⟩, hr, heq⟩ := Option.map_eq_some_iff.mp h
    cases heq
    exact .inl ⟨r, hr, .inr ⟨e, rfl⟩⟩

theorem run_of_ok {d : Db} {o : Fate} {r : d.Row} (h : d.exec i w o = some (.ok r, w')) :
    d.run i w = some (r, w') := by
  rcases db_exec_cases h with ⟨r', hr, heq | ⟨e, heq⟩⟩ | ⟨-, e, heq⟩
  · cases heq; exact hr
  · cases heq
  · cases heq

theorem rollback_effect {e : Stmt} (he : e.ends = true) : Effect i w e (w.rollback i) :=
  .ends he (Table.ended_rollback i _) (Table.ended_rollback i _)

theorem exec_effect {e : Stmt} {o : e.Outcome} {a : e.Ans} (hx : exec i e o w = some (a, w')) :
    Effect i w e w' := by
  cases e with
  | db d =>
    rcases db_exec_cases hx with ⟨r, hr, -⟩ | ⟨rfl, -⟩
    · exact (run_effect hr).1
    · cases d with
      | commit => exact rollback_effect rfl
      | _ => exact .same rfl rfl
  | rollback => cases hx; exact rollback_effect rfl
  | newToken => cases o <;> cases hx <;> exact .same rfl rfl
  | _ => cases hx; exact .same rfl rfl

end

theorem exists_cons {i : ℕ} {en : sessions.Entry} {log : sessions.Log}
    {p : sessions.Entry → Prop} (h : ∃ en' ∈ en :: log, en'.party = i ∧ p en') :
    (en.party = i ∧ p en) ∨ ∃ en' ∈ log, en'.party = i ∧ p en' := by
  obtain ⟨en', hmem, h⟩ := h
  rcases List.mem_cons.mp hmem with rfl | hmem
  · exact .inl h
  · exact .inr ⟨en', hmem, h⟩

/-- Both tables have grown. -/
structure Grown (w w' : World) : Prop where
  users : w.users.Grown Aged w'.users
  sessions : w.sessions.Grown Later w'.sessions

/-- No open transaction would undo a bump or a revoke. -/
structure Sound (w : World) : Prop where
  users : w.users.Sound Aged
  sessions : w.sessions.Sound Later

/-- No transaction is open, so that nobody holds a row. -/
def World.Quiet (w : World) : Prop :=
  (∀ x ∈ w.users, x.pending = none) ∧ ∀ x ∈ w.sessions, x.pending = none

theorem World.Quiet.sound {w : World} (h : w.Quiet) : Sound w := by
  constructor
  · intro k x hx j a hp
    rw [h.1 x (List.mem_of_getElem? hx)] at hp
    cases hp
  · intro k x hx j a hp
    rw [h.2 x (List.mem_of_getElem? hx)] at hp
    cases hp

theorem Effect.grown {i : ℕ} {e : Stmt} {w w' : World} (h : Effect i w e w') (hw : Sound w) :
    Sound w' ∧ Grown w w' := by
  cases h with
  | same hu hs =>
    exact ⟨⟨hu ▸ hw.users, hs ▸ hw.sessions⟩,
      ⟨hu ▸ Table.Grown.refl Aged.refl _, hs ▸ Table.Grown.refl Later.refl _⟩⟩
  | user via hset h hs =>
    have hu := hw.users.update Aged.refl Aged.trans (fun _ v _ => hset v) h
    exact ⟨⟨hu.1, hs ▸ hw.sessions⟩, ⟨hu.2, hs ▸ Table.Grown.refl Later.refl _⟩⟩
  | revoke via hu h =>
    have hs := hw.sessions.update Later.refl Later.trans (fun _ s _ => revoke_later s) h
    exact ⟨⟨hu ▸ hw.users, hs.1⟩, ⟨hu ▸ Table.Grown.refl Aged.refl _, hs.2⟩⟩
  | rotate hu h =>
    have hs := hw.sessions.update Later.refl Later.trans (fun _ s _ => rotate_later _ _ _ s) h
    exact ⟨⟨hu ▸ hw.users, hs.1⟩, ⟨hu ▸ Table.Grown.refl Aged.refl _, hs.2⟩⟩
  | create hy hlock hu hs =>
    have hi := hw.sessions.insert Later.refl
    exact ⟨⟨hu ▸ hw.users, hs ▸ (hi _).1⟩, ⟨hu ▸ Table.Grown.refl Aged.refl _, hs ▸ (hi _).2⟩⟩
  | ends he hu hs =>
    have hu := hw.users.ended Aged.refl hu
    have hs := hw.sessions.ended Later.refl hs
    exact ⟨⟨hu.1, hs.1⟩, ⟨hu.2, hs.2⟩⟩

/-! ## Protocols -/

@[simp] theorem follows_rotateRefreshToken {P : Conc.Protocol sessions} {r : Role} {m : P.Loc}
    {id new : ℕ} {session : Session} {role : String} {Q : Rotation → P.Loc → Prop} :
    P.Follows r (rotateRefreshToken id session new role) Q m ↔
      let s := Stmt.db (.rotateSessionToken id session.tokenHash new role)
      P.may r m s ∧ (∀ e, Q (.failed e) (P.next r m s (.error e))) ∧
        Q .invalid (P.next r m s (.ok 0)) ∧ ∀ n, Q .rotated (P.next r m s (.ok (n + 1))) := by
  refine and_congr_right fun _ =>
    ⟨fun h => ⟨fun e => h (.error e), h (.ok 0), fun n => h (.ok (n + 1))⟩, ?_⟩
  rintro ⟨hfailed, hinvalid, hrotated⟩ (e | _ | n)
  exacts [hfailed e, hinvalid, hrotated n]

end Nexara.Sessions
