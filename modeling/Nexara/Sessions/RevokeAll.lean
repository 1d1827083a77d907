import Nexara.Sessions.Epoch

/-!
# What holds while a revoke-all runs

What a revoke-all that has bumped the epoch to `b` has ensured at each of its stages (`StageInv`),
kept by the statements of all other parties (`StageInv.frame`) and by its own (`StageInv.step`).
-/

namespace Nexara.Sessions

open Conc Protocol System Txn

/-- The user's epoch has come to `b`. -/
def World.Reached (w : World) (u b : ℕ) : Prop :=
  ∃ x, w.users[u]? = some x ∧ b ≤ x.committed.authEpoch

/-- Party `j`'s transaction has bumped the user's epoch to `b`, and holds the row. -/
def World.Holds (w : World) (j u b : ℕ) : Prop :=
  ∃ x v, w.users[u]? = some x ∧ x.pending = some (j, v) ∧ b ≤ v.authEpoch

/-- Party `j` sees all sessions of the user revoked. -/
def World.AllRevoked (w : World) (j u : ℕ) : Prop :=
  ∀ (k : ℕ) (x : Row Session), w.sessions[k]? = some x → x.committed.userID = u →
    (x.seen (some j)).isRevoked = true

/-- The sessions created against an epoch older than `b` are revoked. -/
def StaleRevoked (log : sessions.Log) (w : World) (u b : ℕ) : Prop :=
  ∀ i e k, Created i u e k log w → e < b → w.Revoked k

/-- What party `j` has ensured after it bumped the epoch of user `u` to `b`. -/
def StageInv (log : sessions.Log) (w : World) (j u b : ℕ) : Stage → Prop
  | .fresh | .ended => False
  | .bumped .pool v => v = u ∧ w.Reached u b
  | .bumped .tx v => v = u ∧ w.Holds j u b
  | .revoked v => v = u ∧ w.Holds j u b ∧ w.AllRevoked j u
  | .completed v => v = u ∧ w.Reached u b ∧ StaleRevoked log w u b
  | .failed => True

section

variable {i j u b : ℕ} {e : Stmt} {w w' : World}

theorem reached_of_grown (h : w.Reached u b) (hg : Grown w w') : w'.Reached u b := by
  obtain ⟨x, hx, hb⟩ := h
  obtain ⟨x', hx', hle⟩ := hg.users u x hx
  exact ⟨x', hx', Nat.le_trans hb hle⟩

theorem revoked_of_grown {k : ℕ} (h : w.Revoked k) (hg : Grown w w') : w'.Revoked k := by
  obtain ⟨x, hx, hr⟩ := h
  obtain ⟨x', hx', hl⟩ := hg.sessions k x hx
  exact ⟨x', hx', hl.revoked hr⟩

/-- Nobody else can write a user's row that a transaction holds, and its own party only raises the
epoch. -/
theorem holds_of_effect (h : w.Holds j u b) (he : Effect i w e w')
    (hj : j ≠ i ∨ e.ends = false) : w'.Holds j u b := by
  obtain ⟨x, v, hx, hp, hb⟩ := h
  cases he with
  | same hu hs | revoke via hu h | rotate hu h | create hy hlock hu hs =>
    exact ⟨x, v, hu ▸ hx, hp, hb⟩
  | user via hset h hs =>
    obtain ⟨x', v', hx', hp', -, rfl | ⟨-, rfl⟩⟩ := Table.pending_of_update h hx hp
    · exact ⟨x', v', hx', hp', hb⟩
    · exact ⟨x', _, hx', hp', Nat.le_trans hb (hset v)⟩
  | ends hends hu hs =>
    have hij : i ≠ j := (hj.resolve_right (by simp [hends])).symm
    exact ⟨x, v, hu.pending hx hp hij, hp, hb⟩

variable {x : Row Session}

theorem seen_revoked_of_put {s : Session} {who : Option ℕ} (hlock : x.locked who = false)
    (hs : Later (x.seen who) s) (h : (x.seen (some j)).isRevoked = true) :
    ((x.put who s).seen (some j)).isRevoked = true := by
  rcases Row.pending_of_not_locked hlock with hnone | ⟨l, a, rfl, hp⟩
  · -- nobody has written the row
    have hseen (who : Option ℕ) : x.seen who = x.committed := by simp [Row.seen, hnone]
    rw [hseen] at h hs
    cases who with
    | none => exact hs.revoked h
    | some l =>
      show (if some j = some l then s else x.committed).isRevoked = true
      split_ifs
      · exact hs.revoked h
      · exact h
  · show (if some j = some l then s else x.committed).isRevoked = true
    split_ifs with hjl
    · rw [hjl] at h
      exact hs.revoked h
    · simp only [Row.seen, hp, if_neg hjl] at h
      exact h

theorem userID_put {s : Session} {who : Option ℕ}
    (hs : Later (x.seen who) s) : (x.put who s).committed.userID = x.committed.userID := by
  cases who with
  | none => rw [Row.seen_of_none] at hs; exact hs.userID
  | some l => rfl

theorem seen_revoked_of_ended {x' : Row Session} (hx : x.Sound Later) (hji : j ≠ i)
    (hend : x.Ended i x') (h : x.committed.userID = u → (x.seen (some j)).isRevoked = true)
    (hid : x'.committed.userID = u) : (x'.seen (some j)).isRevoked = true := by
  obtain rfl | ⟨a, ha, hx'⟩ := hend
  · exact h hid
  · have hseen : x.seen (some j) = x.committed := by simp [Row.seen, ha, hji]
    have hlater : Later x.committed a := hx i a ha
    rw [hseen] at h
    obtain rfl | rfl := hx'
    · exact hlater.revoked (h (hlater.userID.symm.trans hid))
    · exact h hid

theorem allRevoked_of_update {who : Option ℕ} {p : ℕ → Session → Bool} {set : Session → Session}
    {n : ℕ} {t : Table Session} (h : w.AllRevoked j u)
    (hset : ∀ s, Later s (set s)) (hupd : w.sessions.update who p set = some (n, t)) {k : ℕ}
    {x' : Row Session} (hx' : t[k]? = some x') (hid : x'.committed.userID = u) :
    (x'.seen (some j)).isRevoked = true := by
  rw [Table.getElem?_of_update hupd] at hx'
  obtain ⟨x, hx, rfl⟩ := Option.map_eq_some_iff.mp hx'
  split_ifs at hid ⊢ with hmatch
  · rw [userID_put (hset _)] at hid
    exact seen_revoked_of_put (Table.not_locked_of_update hupd hx hmatch) (hset _) (h k x hx hid)
  · exact h k x hx hid

/-- What a transaction's party sees revoked stays so, and a user whose row is held gets no session.
-/
theorem allRevoked_of_effect (hw : Sound w) (h : w.AllRevoked j u) (hold : w.Holds j u b)
    (he : Effect i w e w') (hj : j ≠ i ∨ e.ends = false) : w'.AllRevoked j u := by
  cases he with
  | same hu hs | user via hset hu hs => exact fun k x hx => h k x (hs ▸ hx)
  | revoke via hu hupd =>
    exact fun k x hx hid => allRevoked_of_update h revoke_later hupd hx hid
  | rotate hu hupd =>
    exact fun k x hx hid => allRevoked_of_update h (rotate_later _ _ _) hupd hx hid
  | @create v epoch h' x' role _ y hy hlock hu hs =>
    intro k x hx hid
    rw [hs] at hx
    rcases Table.getElem?_insert hx with hx | ⟨-, rfl⟩
    · exact h k x hx hid
    · -- the new session is another user's: the row of this one is locked
      obtain ⟨z, v', hz, hp, -⟩ := hold
      have hvu : v = u := hid
      rw [hvu, hz] at hy
      cases hy
      rw [Row.locked_of_pending none hp nofun] at hlock
      cases hlock
  | ends hends hu hs =>
    have hji : j ≠ i := hj.resolve_right (by simp [hends])
    intro k x' hx' hid
    obtain ⟨x, hx, hend⟩ := hs.getElem? hx'
    exact seen_revoked_of_ended (hw.sessions k x hx) hji hend (h k x hx) hid

end

/-! ## The stages of a revoke-all -/

theorem reached_of_creation {i u epoch : ℕ} {e : Stmt} {o : e.Outcome} {a : e.Ans} {w w' : World}
    (hx : exec i e o w = some (a, w')) (he : creation e = some (u, epoch))
    (hlen : w.sessions.length < w'.sessions.length) :
    (∃ x, w.users[u]? = some x ∧ x.committed.authEpoch = epoch) ∧
      ∃ y, w'.sessions[w.sessions.length]? = some y ∧ y.committed.userID = u := by
  match e, a, he with
  | .db (.createSessionAtEpoch u epoch _ _ _), _, rfl =>
    rcases db_exec_cases hx with ⟨r, hrun, -⟩ | ⟨rfl, -⟩
    · rcases createSession_eq_some hrun with ⟨rfl, -⟩ | ⟨x, hu, hep, -, -, rfl⟩
      · exact absurd hlen (Nat.lt_irrefl _)
      · exact ⟨⟨x, hu, hep⟩, _, List.getElem?_concat_length, rfl⟩
    · exact absurd hlen (Nat.lt_irrefl _)

section

variable {i j u b : ℕ} {r : Role} {e : Stmt} {o : e.Outcome} {a : e.Ans} {w w' : World}
  {log : sessions.Log} {st : Stage}

/-- A stage survives what the other parties do, and what its own party does beside it. -/
theorem StageInv.frame (h : StageInv log w j u b st) (hw : Sound w)
    (hx : exec i e o w = some (a, w')) (hj : j ≠ i ∨ e.ends = false) :
    StageInv (⟨i, r, e, a, w⟩ :: log) w' j u b st := by
  have heff := exec_effect hx
  have hg := (heff.grown hw).2
  match st, h with
  | .failed, _ => trivial
  | .bumped .pool v, ⟨hv, hr⟩ => exact ⟨hv, reached_of_grown hr hg⟩
  | .bumped .tx v, ⟨hv, hh⟩ => exact ⟨hv, holds_of_effect hh heff hj⟩
  | .revoked v, ⟨hv, hh, hall⟩ =>
    exact ⟨hv, holds_of_effect hh heff hj, allRevoked_of_effect hw hall hh heff hj⟩
  | .completed v, ⟨hv, hr, hstale⟩ =>
    refine ⟨hv, reached_of_grown hr hg, fun l epoch k hc hlt => ?_⟩
    rcases hc with ⟨-, hnew, rfl, hlen⟩ | hold
    · -- a session created now is created against the new epoch
      obtain ⟨⟨x, hx', hep⟩, -⟩ := reached_of_creation hx hnew hlen
      obtain ⟨y, hy, hb⟩ := hr
      rw [hx'] at hy
      cases hy
      omega
    · exact revoked_of_grown (hstale l epoch k hold hlt) hg

theorem StageInv.of_bump {via : Via} {n : ℕ} {user : User} {fate : Fate}
    (hx : Db.exec i w (.bumpUserAuthEpoch via u) fate = some (.ok n, w'))
    (hu : w.users.get? (via.who i) u = some user) (hb : user.authEpoch + 1 = b) :
    StageInv log w' i u b (.bumped via u) := by
  obtain ⟨⟨m, t⟩, hupd, heq⟩ := Option.map_eq_some_iff.mp (run_of_ok hx)
  cases heq
  obtain ⟨x, hx, rfl⟩ := Option.map_eq_some_iff.mp hu
  have hx' := Table.getElem?_of_update hupd u
  rw [hx, Option.map_some, if_pos (by simp)] at hx'
  cases via with
  | pool => exact ⟨rfl, _, hx', Nat.le_of_eq hb.symm⟩
  | tx => exact ⟨rfl, _, _, hx', rfl, Nat.le_of_eq hb.symm⟩

theorem StageInv.of_bumped {m : Memory} (hx : exec i e o w = some (a, w'))
    (hb : bump i w e a = some (u, b)) : StageInv log w' i u b (remember m e a).stage := by
  cases e with
  | db d =>
    cases d with
    | bumpUserAuthEpoch via v =>
      cases a with
      | error _ => cases hb
      | ok n =>
        obtain ⟨user, huser, heq⟩ := Option.map_eq_some_iff.mp hb
        cases heq
        exact StageInv.of_bump hx huser rfl
    | _ => cases hb
  | _ => cases hb

section

variable {v : ℕ} {n : Unit}

theorem seen_revoked_of_revokeAll {via : Via}
    (hx : Db.run i w (.revokeAllUserSessions via v) = some (n, w')) (hw : Sound w) {k : ℕ}
    {x' : Row Session} (hx' : w'.sessions[k]? = some x') (hid : x'.committed.userID = v) :
    (x'.seen (via.who i)).isRevoked = true := by
  obtain ⟨⟨m, t⟩, hm, heq⟩ := Option.map_eq_some_iff.mp hx
  cases heq
  obtain ⟨⟨m', t'⟩, hupd, heq⟩ := Option.map_eq_some_iff.mp hm
  cases heq
  rw [Table.getElem?_of_update hupd] at hx'
  obtain ⟨x, hx, rfl⟩ := Option.map_eq_some_iff.mp hx'
  by_cases hmatch : ((x.seen (via.who i)).userID = v && !(x.seen (via.who i)).isRevoked) = true
  · rw [if_pos (by simpa using hmatch)]
    cases via with
    | pool => rfl
    | tx => simp [Row.put, Row.seen, Via.who, Session.revoke]
  · rw [if_neg (by simpa using hmatch)] at hid ⊢
    have huser : (x.seen (via.who i)).userID = v :=
      ((hw.sessions k x hx).seen Later.refl _).userID.trans hid
    simpa [huser] using hmatch

theorem StageInv.of_revoke {via : Via} {fate : Fate} (h : StageInv log w i u b (.bumped via v))
    (hw : Sound w) (hcreated : ∀ l epoch k, Created l u epoch k log w →
      ∃ x, w.sessions[k]? = some x ∧ x.committed.userID = u)
    (hx : Db.exec i w (.revokeAllUserSessions via v) fate = some (.ok n, w')) :
    StageInv (⟨i, r, .db (.revokeAllUserSessions via v), .ok n, w⟩ :: log) w' i u b
      (Stage.bumped via v).revoke := by
  have hframe : StageInv (⟨i, r, .db (.revokeAllUserSessions via v), .ok n, w⟩ :: log) w' i u b
      (.bumped via v) := h.frame hw hx (.inr rfl)
  have hrun := run_of_ok hx
  have hg := ((run_effect hrun).1.grown hw).2
  cases via with
  | pool =>
    obtain ⟨rfl, hr⟩ := hframe
    refine ⟨rfl, hr, fun l epoch k hc _ => ?_⟩
    rcases hc with ⟨-, hnew, -⟩ | hold
    · cases hnew
    · obtain ⟨x, hx, hid⟩ := hcreated l epoch k hold
      obtain ⟨x', hx', hlater⟩ := hg.sessions k x hx
      have hseen := seen_revoked_of_revokeAll hrun hw hx' (hlater.userID.trans hid)
      exact ⟨x', hx', by rwa [Via.who, Row.seen_of_none] at hseen⟩
  | tx =>
    obtain ⟨rfl, hh⟩ := hframe
    exact ⟨rfl, hh, fun k x' hx' hid => seen_revoked_of_revokeAll hrun hw hx' hid⟩

theorem StageInv.of_commit (h : StageInv log w i u b (.revoked v))
    (hcreated : ∀ l epoch k, Created l u epoch k log w →
      ∃ x, w.sessions[k]? = some x ∧ x.committed.userID = u) :
    StageInv (⟨i, r, .db .commit, .ok n, w⟩ :: log) (w.commit i) i u b (.completed v) := by
  obtain ⟨rfl, ⟨x, z, hx, hp, hb⟩, hall⟩ := h
  refine ⟨rfl, ⟨x.commit i, ?_, ?_⟩, fun l epoch k hc _ => ?_⟩
  · exact (Table.getElem?_commit i v w.users).trans (by rw [hx]; rfl)
  · simpa [Row.commit, hp] using hb
  · rcases hc with ⟨-, hnew, -⟩ | hold
    · cases hnew
    · obtain ⟨y, hy, hid⟩ := hcreated l epoch k hold
      have hseen := hall k y hy hid
      refine ⟨y.commit i, (Table.getElem?_commit i k w.sessions).trans (by rw [hy]; rfl), ?_⟩
      -- what the party saw is now committed, or was before
      obtain ⟨c, _ | ⟨l, s⟩⟩ := y
      · exact hseen
      · unfold Row.commit
        dsimp only
        split_ifs with hil
        · simpa [Row.seen, hil] using hseen
        · simpa [Row.seen, hil] using hseen

end

end

/-! ## Runs -/

section

variable {m : Memory} {e : Stmt} {a : e.Ans}

theorem check_remember {c : ℕ × ℕ} (hmay : May m e) (h : m.check = some c) :
    (remember m e a).check = some c := by
  by_cases hi : e.inert = true
  · rwa [remember_of_inert hi]
  match e, a with
  | .db (.getUserByEmail u), _ =>
    rw [hmay] at h
    cases h
  | .db (.createSessionAtEpoch _ _ _ _ _), _ | .db (.bumpUserAuthEpoch _ _), .ok _
  | .db (.bumpUserAuthEpoch _ _), .error _ | .db (.revokeAllUserSessions _ _), .ok _
  | .db (.revokeAllUserSessions _ _), .error _ | .db .commit, .ok _ | .db .commit, .error _
  | .rollback, _ => exact h

/-- A revoke-all that is over stays over. -/
def Stage.Over (st : Stage) : Prop := st = .ended ∨ ∃ u, st = .completed u

theorem over_remember (hmay : May m e) (h : m.stage.Over) : (remember m e a).stage.Over := by
  by_cases hi : e.inert = true
  · rwa [remember_of_inert hi]
  match e, a with
  | .db (.getUserByEmail _), .ok (some _) | .db (.getUserByEmail _), .ok none
  | .db (.getUserByEmail _), .error _ | .db (.createSessionAtEpoch _ _ _ _ _), _ => exact h
  | .db (.bumpUserAuthEpoch _ _), _ | .db (.revokeAllUserSessions via u), _ =>
    rw [hmay] at h
    rcases h with h | ⟨u, h⟩ <;> cases h
  | .db .commit, ans =>
    rcases h with h | ⟨u, h⟩
    · cases ans <;> exact .inl (by simp only [remember, h]; rfl)
    · replace hmay : m.stage = .fresh ∨ m.stage = .ended ∨ ∃ u, m.stage = .revoked u := hmay
      rw [h] at hmay
      rcases hmay with h | h | ⟨u, h⟩ <;> cases h
  | .rollback, _ =>
    rcases h with h | ⟨u, h⟩
    · exact .inl (by simp only [remember, h]; rfl)
    · exact absurd h (hmay u)

theorem over_of_completion (hmay : May m e) (h : completion e a = true) :
    (remember m e a).stage.Over := by
  match e, a, h with
  | .db (.revokeAllUserSessions .pool u), .ok _, _ =>
    replace hmay : m.stage = .bumped .pool u := hmay
    exact .inr ⟨u, by simp only [remember, hmay]; rfl⟩
  | .db .commit, .ok _, _ =>
    rcases hmay with h | h | ⟨u, h⟩
    · exact .inl (by simp only [remember, h]; rfl)
    · exact .inl (by simp only [remember, h]; rfl)
    · exact .inr ⟨u, by simp only [remember, h]; rfl⟩

end

/-- What the memories of the parties say about the tables. -/
structure EpochInv (log : sessions.Log) (w : World) : Prop where
  sound : Sound w
  checked : ∀ i u epoch, Checked log i u epoch → (Epochs.loc i log).check = some (u, epoch)
  created : ∀ i u epoch k, Created i u epoch k log w →
    (Epochs.loc i log).check = some (u, epoch) ∧
      ∃ x, w.sessions[k]? = some x ∧ x.committed.userID = u
  bumped : ∀ j u b, Bumped log j u b → StageInv log w j u b (Epochs.loc j log).stage
  completed : ∀ j, Completed log j → (Epochs.loc j log).stage.Over

theorem EpochInv.init {w : World} (h : w.Quiet) : EpochInv [] w where
  sound := h.sound
  checked := by simp [Checked]
  created := fun _ _ _ _ => False.elim
  bumped := by simp [Bumped]
  completed := by simp [Completed]

section

variable {i : ℕ} {r : Role} {e : Stmt} {o : e.Outcome} {a : e.Ans} {w w' : World}
  {log : sessions.Log}

theorem StageInv.step {u b : ℕ} (h : EpochInv log w)
    (hst : StageInv log w i u b (Epochs.loc i log).stage) (hmay : May (Epochs.loc i log) e)
    (hx : exec i e o w = some (a, w')) :
    StageInv (⟨i, r, e, a, w⟩ :: log) w' i u b (remember (Epochs.loc i log) e a).stage := by
  have hcreated := fun l epoch k hc => (h.created l u epoch k hc).2
  generalize Epochs.loc i log = m at hst hmay
  have hframe (he : e.ends = false) : StageInv (⟨i, r, e, a, w⟩ :: log) w' i u b m.stage :=
    hst.frame h.sound hx (.inr he)
  have hgiveUp (hopen : ∀ v, m.stage ≠ .completed v) :
      StageInv (⟨i, r, e, a, w⟩ :: log) w' i u b m.stage.giveUp := by
    cases hm : m.stage with
    | fresh | ended => rw [hm] at hst; exact hst.elim
    | completed v => exact absurd hm (hopen v)
    | _ => trivial
  cases e with
  | rollback => exact hgiveUp hmay
  | db d =>
    cases d with
    | getUserByEmail v => rcases a with _ | _ | user <;> exact hframe rfl
    | bumpUserAuthEpoch _ _ =>
      -- a party that has bumped does not bump again
      rw [hmay] at hst
      exact hst.elim
    | revokeAllUserSessions via v =>
      cases a with
      | error _ => exact hframe rfl
      | ok _ =>
        show StageInv _ w' i u b m.stage.revoke
        rw [hmay] at hst ⊢
        exact hst.of_revoke h.sound hcreated hx
    | commit =>
      rcases hmay with hm | hm | ⟨v, hm⟩
      · rw [hm] at hst; exact hst.elim
      · rw [hm] at hst; exact hst.elim
      · cases a with
        | error err => exact hgiveUp fun v => (by rw [hm]; nofun)
        | ok n =>
          show StageInv _ w' i u b m.stage.commit
          have hrun : Db.run i w .commit = some ((), w') := run_of_ok hx
          cases hrun
          rw [hm] at hst ⊢
          exact hst.of_commit hcreated
    | _ => exact hframe rfl
  | _ => exact hframe rfl

theorem EpochInv.step (h : EpochInv log w) (hmay : May (Epochs.loc i log) e)
    (hx : exec i e o w = some (a, w')) : EpochInv (⟨i, r, e, a, w⟩ :: log) w' := by
  obtain ⟨hsound, hg⟩ := (exec_effect hx).grown h.sound
  have hcheck {l : ℕ} {c : ℕ × ℕ} (hl : (Epochs.loc l log).check = some c) :
      (Epochs.loc l (⟨i, r, e, a, w⟩ :: log)).check = some c :=
    loc_cons (T := Epochs) (p := (·.check = some c)) (fun hil => check_remember (hil ▸ hmay) hl) fun _ => hl
  constructor
  · exact hsound
  · intro l u epoch hc
    rcases exists_cons hc with ⟨rfl, hnew⟩ | hold
    · rw [loc_self]
      match e, a, hnew with
      | .db (.getUserByEmail u), .ok (some user), rfl => rfl
    · exact hcheck (h.checked l u epoch hold)
  · intro l u epoch k hc
    rcases hc with ⟨rfl, hnew, rfl, hlen⟩ | hold
    · refine ⟨?_, (reached_of_creation hx hnew hlen).2⟩
      rw [loc_self]
      match e, a, hnew with
      | .db (.createSessionAtEpoch u epoch _ _ _), _, rfl => exact hmay
    · obtain ⟨hold, x, hx', hid⟩ := h.created l u epoch k hold
      obtain ⟨x', hx'', hlater⟩ := hg.sessions k x hx'
      exact ⟨hcheck hold, x', hx'', hlater.userID.trans hid⟩
  · intro j u b hb
    rcases exists_cons hb with ⟨rfl, hnew⟩ | hold
    · rw [loc_self]
      exact StageInv.of_bumped hx hnew
    · refine loc_cons (T := Epochs) (p := fun m => StageInv _ w' j u b m.stage) (fun hij => ?_) fun hij =>
        (h.bumped j u b hold).frame h.sound hx (.inl (Ne.symm hij))
      subst hij
      exact StageInv.step h (h.bumped i u b hold) hmay hx
  · intro j hc
    rcases exists_cons hc with ⟨rfl, hnew⟩ | hold
    · rw [loc_self]
      exact over_of_completion hmay hnew
    · exact loc_cons (T := Epochs) (p := (·.stage.Over))
        (fun hij => over_remember (hij ▸ hmay) (h.completed j hold)) fun _ => h.completed j hold

end

theorem epochInv_of_reach {w : World} (hw : w.Quiet) {pool : sessions.Pool}
    (hrun : sessions.Reach Cond.any (Pool.idle w) pool) : EpochInv pool.log pool.shared :=
  invariant epochs_followed (.init hw) (fun h _ hmay hx => h.step hmay hx)
    hrun

/-- **Revoke-all.** From a database nobody has locked: once a revoke-all has completed, every
session created by a sign-in whose credential check read an epoch older than its bump is revoked;
and a revoked session stays revoked. -/
theorem stale_sign_ins_revoked (w : World) (hw : w.Quiet) (pool : sessions.Pool)
    (hrun : sessions.Reach Cond.any (Pool.idle w) pool) :
    (∀ j u b, Bumped pool.log j u b → Completed pool.log j →
      ∀ i epoch v epoch' k, Checked pool.log i u epoch →
        Created i v epoch' k pool.log pool.shared → epoch < b → pool.shared.Revoked k) ∧
    ∀ pool', sessions.Reach Cond.any pool pool' →
      ∀ k, pool.shared.Revoked k → pool'.shared.Revoked k := by
  have hinv := epochInv_of_reach hw hrun
  constructor
  · intro j u b hb hc i epoch v epoch' k hchecked hcreated hlt
    -- the session was created against the epoch of the check
    have hcheck := hinv.checked i u epoch hchecked
    rw [(hinv.created i v epoch' k hcreated).1] at hcheck
    cases hcheck
    have hst := hinv.bumped j u b hb
    rcases hinv.completed j hc with hover | ⟨v, hover⟩
    · rw [hover] at hst
      exact hst.elim
    · rw [hover] at hst
      exact hst.2.2 i epoch k hcreated hlt
  · intro pool' hrun' k hk
    exact remains epochs_followed (P := fun _ w => w.Revoked k)
      (fun hc => epochInv_of_reach hw hc)
      (fun h _ _ _ hx hP =>
        revoked_of_grown hP ((exec_effect hx).grown h.sound).2) hrun hrun' hk

def oneUser : World := { users := [{ committed := {} }] }

def smoothly : sessions.Oracle
  | .db _ => .done
  | .ext .checkPassword => true
  | .ext .checkCode => true
  | .ext .loadPermissions => .ok ()
  | .ext .generateAccessToken => true
  | .ext .hashPassword => true
  | .newToken => true
  | .now => ()
  | .rollback => ()
  | .respond _ => ()
  | .wait _ => ()

def steps (i n : ℕ) : List sessions.Event := List.replicate n (.step i smoothly)

/-- A sign-in that has created its session when the user signs out of all devices. -/
theorem stale_sign_ins_revoked_logoutAll :
    oneUser.Quiet ∧ ∃ pool, sessions.Reach Cond.any (Pool.idle oneUser) pool ∧
      (Bumped pool.log 1 0 1 ∧ Completed pool.log 1 ∧ Checked pool.log 0 0 0 ∧
        Created 0 0 0 0 pool.log pool.shared) ∧ pool.shared.Revoked 0 := by
  have hquiet : oneUser.Quiet := by simp [World.Quiet, oneUser]
  obtain ⟨pool, hpool, hb, hc, hchecked, hcreated⟩ := exists_reach (M := sessions)
    Cond.any oneUser
    ([.start (.login 0 60 false .absent), .start (.logoutAll 0 .absent)] ++ steps 0 5 ++ steps 1 3)
    (fun pool => Bumped pool.log 1 0 1 ∧ Completed pool.log 1 ∧ Checked pool.log 0 0 0 ∧
        Created 0 0 0 0 pool.log pool.shared) (by decide +kernel)
  exact ⟨hquiet, pool, hpool, ⟨hb, hc, hchecked, hcreated⟩,
    (stale_sign_ins_revoked oneUser hquiet pool hpool).1 1 0 1 hb hc 0 0 0 0 0 hchecked hcreated
      Nat.zero_lt_one⟩

end Nexara.Sessions
