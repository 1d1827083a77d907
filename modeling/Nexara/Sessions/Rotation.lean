import Nexara.Sessions.Tokens

/-!
# What becomes of a session's token

A session gets to carry a token only by a statement that puts it there (`carries_of_effect`), and
its current token only moves on if rotations are to newer tokens (`Effect.advanced`). A refresh that
has rotated a session holds its row until it commits, and then the session is past the token that
was presented (`RotatingInv`).
-/

namespace Nexara.Sessions

open Conc Txn

/-- How a session's row changes when tokens are rotated in order. -/
structure Advanced (s s' : Session) : Prop where
  later : Later s s'
  token : s.tokenHash ≤ s'.tokenHash
  expiry : s'.expiresAt = s.expiresAt

theorem Advanced.refl (s : Session) : Advanced s s := ⟨Later.refl s, Nat.le_refl _, rfl⟩

theorem Advanced.trans (s s' s'' : Session) (h : Advanced s s') (h' : Advanced s' s'') :
    Advanced s s'' :=
  ⟨h.later.trans _ _ _ h'.later, Nat.le_trans h.token h'.token, h'.expiry.trans h.expiry⟩

/-! ## Which session carries a token -/

/-- The session's current token, or the one before. -/
def Session.Carries (s : Session) (h : ℕ) : Prop :=
  s.tokenHash = h ∨ s.previousTokenHash = some h

/-- Some version of session `k` carries the token. -/
def World.Carries (w : World) (k h : ℕ) : Prop :=
  ∃ x v, w.sessions[k]? = some x ∧ x.Version v ∧ v.Carries h

/-- Some version of session `k` carries the token, or did so. -/
def Carried (log : sessions.Log) (w : World) (k h : ℕ) : Prop :=
  w.Carries k h ∨ ∃ en ∈ log, en.before.Carries k h

/-- The session a statement puts a token into, and the token. -/
def stores (w : World) : Stmt → Option (ℕ × ℕ)
  | .db (.createSessionAtEpoch _ _ h _ _) => some (w.sessions.length, h)
  | .db (.rotateSessionToken k _ new _) => some (k, new)
  | _ => none

section

variable {i k h : ℕ} {e : Stmt} {w w' : World}

theorem version_of_update {who : Option ℕ} {p : ℕ → Session → Bool} {set : Session → Session}
    {n : ℕ} {t t' : Table Session} (hu : t.update who p set = some (n, t')) {x' : Row Session}
    (hx' : t'[k]? = some x') {v : Session} (hv : x'.Version v) :
    ∃ x, t[k]? = some x ∧ (x.Version v ∨ p k (x.seen who) = true ∧ v = set (x.seen who)) := by
  rw [Table.getElem?_of_update hu] at hx'
  obtain ⟨x, hx, rfl⟩ := Option.map_eq_some_iff.mp hx'
  refine ⟨x, hx, ?_⟩
  split_ifs at hv with hmatch
  · rcases Row.version_put hv with rfl | hv
    · exact .inr ⟨hmatch, rfl⟩
    · exact .inl hv
  · exact .inl hv

/-- The versions after a statement: old ones, old ones revoked, and one with a token it stores. -/
theorem version_of_effect (he : Effect i w e w') {x' : Row Session}
    (hx' : w'.sessions[k]? = some x') {v : Session} (hv : x'.Version v) :
    (∃ x s, w.sessions[k]? = some x ∧ x.Version s ∧ (v = s ∨ v = s.revoke)) ∨
    (∃ x old new role, e = .db (.rotateSessionToken k old new role) ∧
      w.sessions[k]? = some x ∧ (x.seen (some i)).tokenHash = old ∧
      v = (x.seen (some i)).rotate w.now new role) ∨
    ∃ u epoch hash x role, e = .db (.createSessionAtEpoch u epoch hash x role) ∧
      k = w.sessions.length ∧
      v = { userID := u, tokenHash := hash, expiresAt := x, userRole := role } := by
  cases he with
  | same hu hs | user via hset hu hs => exact .inl ⟨x', v, hs ▸ hx', hv, .inl rfl⟩
  | revoke via hu hupd =>
    obtain ⟨x, hx, hv | ⟨-, rfl⟩⟩ := version_of_update hupd hx' hv
    · exact .inl ⟨x, v, hx, hv, .inl rfl⟩
    · exact .inl ⟨x, _, hx, Row.version_seen _ x, .inr rfl⟩
  | @rotate l old new n role _ hu hupd =>
    obtain ⟨x, hx, hv | ⟨hp, rfl⟩⟩ := version_of_update hupd hx' hv
    · exact .inl ⟨x, v, hx, hv, .inl rfl⟩
    · simp only [Bool.and_eq_true, decide_eq_true_eq, Session.rotatable] at hp
      obtain ⟨rfl, ⟨hold, -⟩, -⟩ := hp
      exact .inr (.inl ⟨x, old, new, role, rfl, hx, hold, rfl⟩)
  | @create u epoch hash x role _ y hy hlock hu hs =>
    rw [hs] at hx'
    rcases Table.getElem?_insert hx' with hx' | ⟨rfl, rfl⟩
    · exact .inl ⟨x', v, hx', hv, .inl rfl⟩
    · rcases hv with rfl | ⟨j, hj⟩
      · exact .inr (.inr ⟨u, epoch, hash, x, role, rfl, rfl, rfl⟩)
      · cases hj
  | ends hends hu hs =>
    obtain ⟨x, hx, hend⟩ := hs.getElem? hx'
    exact .inl ⟨x, v, hx, hend.version hv, .inl rfl⟩

theorem carries_of_effect (he : Effect i w e w') (hc : w'.Carries k h) :
    w.Carries k h ∨ stores w e = some (k, h) := by
  obtain ⟨x', v, hx', hv, hcv⟩ := hc
  rcases version_of_effect he hx' hv with ⟨x, s, hx, hs, hvs⟩ |
    ⟨x, old, new, role, rfl, hx, hold, rfl⟩ | ⟨u, epoch, hash, ex, role, rfl, rfl, rfl⟩
  · rcases hvs with rfl | rfl
    · exact .inl ⟨x, _, hx, hs, hcv⟩
    · exact .inl ⟨x, s, hx, hs, hcv⟩
  · rcases hcv with rfl | hprev
    · exact .inr rfl
    · -- the token it had is now the previous one
      cases hprev
      exact .inl ⟨x, _, hx, Row.version_seen _ x, .inl rfl⟩
  · rcases hcv with rfl | hprev
    · exact .inr rfl
    · cases hprev

theorem carried_cons {log : sessions.Log} {r : Role} {a : e.Ans} (he : Effect i w e w')
    (hc : Carried (⟨i, r, e, a, w⟩ :: log) w' k h) :
    Carried log w k h ∨ stores w e = some (k, h) := by
  rcases hc with hc | ⟨en, hmem, hc⟩
  · exact (carries_of_effect he hc).imp_left .inl
  · rcases List.mem_cons.mp hmem with rfl | hmem
    · exact .inl (.inl hc)
    · exact .inl (.inr ⟨en, hmem, hc⟩)

theorem Carried.cons {log : sessions.Log} {r : Role} {a : e.Ans}
    (hc : Carried log w k h) : Carried (⟨i, r, e, a, w⟩ :: log) w' k h := by
  rcases hc with hc | ⟨en, hmem, hc⟩
  · exact .inr ⟨_, .head _, hc⟩
  · exact .inr ⟨en, .tail _ hmem, hc⟩

end

theorem Effect.advanced {i : ℕ} {e : Stmt} {w w' : World} (he : Effect i w e w')
    (hw : w.sessions.Sound Advanced)
    (hnew : ∀ k old new role, e = .db (.rotateSessionToken k old new role) → old < new) :
    w'.sessions.Sound Advanced ∧ w.sessions.Grown Advanced w'.sessions := by
  cases he with
  | same hu hs | user via hset h hs => rw [hs]; exact ⟨hw, Table.Grown.refl Advanced.refl _⟩
  | revoke via hu h =>
    exact hw.update Advanced.refl Advanced.trans
      (fun _ s _ => ⟨revoke_later s, Nat.le_refl _, rfl⟩) h
  | @rotate k old new n role _ hu h =>
    refine hw.update Advanced.refl Advanced.trans (fun l s hp => ?_) h
    have hlt := hnew k old new role rfl
    simp only [Bool.and_eq_true, decide_eq_true_eq, Session.rotatable] at hp
    exact ⟨rotate_later _ _ _ s, by rw [hp.2.1.1]; exact Nat.le_of_lt hlt, rfl⟩
  | create hy hlock hu hs => exact hs ▸ hw.insert Advanced.refl _
  | ends hends hu hs => exact hw.ended Advanced.refl hs

/-! ## Rotations -/

/-- Session `k` has moved on from the token. -/
def World.Past (w : World) (k h : ℕ) : Prop :=
  ∃ x, w.sessions[k]? = some x ∧ h < x.committed.tokenHash

/-- Party `i`'s transaction has rotated session `k` from token `h`, and holds its row. -/
def World.Rotates (w : World) (i k h new : ℕ) : Prop :=
  ∃ x v, w.sessions[k]? = some x ∧ x.pending = some (i, v) ∧ v.tokenHash = new ∧
    x.committed.tokenHash ≤ h ∧ h < new

/-- Session `k` is unrevoked, unexpired at the start of party `i`'s transaction, and `h` is its
token there. -/
def World.Rotatable (w : World) (i k h : ℕ) : Prop :=
  ∃ x, w.sessions[k]? = some x ∧ x.committed.isRevoked = false ∧
    (x.seen (some i)).rotatable (w.txNow i) h = true

def Rotated (log : sessions.Log) (i k h new : ℕ) : Prop :=
  ∃ en ∈ log, en.party = i ∧ (∃ role, en.stmt = .db (.rotateSessionToken k h new role)) ∧
    en.before.Rotatable i k h

/-- What a refresh has done at each stage of its rotation. -/
def RotatingInv (log : sessions.Log) (w : World) (i : ℕ) (m : Held) : Prop :=
  match m.stage with
  | .idle => True
  | .rotated new => ∃ k h, m.found = some (k, h, h) ∧ Rotated log i k h new ∧ w.Rotates i k h new
  | .committed new => ∃ k h, m.found = some (k, h, h) ∧ Rotated log i k h new ∧ w.Past k h

/-! ## What a statement does to its party's memory -/

def generated : (e : Stmt) → e.Ans → Option ℕ
  | .newToken, t => t
  | _, _ => none

def looked : (e : Stmt) → e.Ans → Option (ℕ × ℕ × ℕ)
  | .db (.getSessionByTokenHash h), .ok (some (k, s)) => some (k, h, s.tokenHash)
  | _, _ => none

section

variable {i : ℕ} {r : Role} {e : Stmt} {o : e.Outcome} {a : e.Ans} {w w' : World} {m : Held}

theorem token_of_stores {k h : ℕ} (hmay : m.May r e) (hs : stores w e = some (k, h)) :
    m.token = some h := by
  match e, hs with
  | .db (.createSessionAtEpoch _ _ _ _ _), rfl | .db (.rotateSessionToken _ _ _ _), rfl =>
    exact hmay.1

/-- A party's token after a statement was just generated, or it had it and has not used it. -/
theorem token_next {t : ℕ} (h : (m.next e a).token = some t) :
    generated e a = some t ∨ m.token = some t ∧ ∀ w, stores w e = none := by
  cases e with
  | newToken =>
    cases a with
    | none => exact .inr ⟨h, fun _ => rfl⟩
    | some t' => exact .inl h
  | db d =>
    cases d with
    | createSessionAtEpoch _ _ _ _ _ => cases h
    | rotateSessionToken _ _ _ _ => rcases a with _ | _ | n <;> cases h
    | getSessionByTokenHash _ => rcases a with _ | _ | ⟨k, s⟩ <;> exact .inr ⟨h, fun _ => rfl⟩
    | commit => cases a <;> exact .inr ⟨h, fun _ => rfl⟩
    | _ => exact .inr ⟨h, fun _ => rfl⟩
  | _ => exact .inr ⟨h, fun _ => rfl⟩

/-- What a party has found after a statement it found just now, with no token of its own, or
before. -/
theorem found_next {f : ℕ × ℕ × ℕ} (hmay : m.May r e) (h : (m.next e a).found = some f) :
    looked e a = some f ∧ (m.next e a).Free ∨ m.found = some f := by
  cases e with
  | newToken => cases a <;> exact .inr h
  | db d =>
    cases d with
    | rotateSessionToken _ _ _ _ => rcases a with _ | _ | n <;> exact .inr h
    | getSessionByTokenHash _ =>
      rcases a with _ | _ | ⟨k, s⟩
      · exact .inr h
      · exact .inr h
      · exact .inl ⟨h, hmay⟩
    | commit => cases a <;> exact .inr h
    | _ => exact .inr h
  | _ => exact .inr h

theorem next_of_committed {new : ℕ} (hmay : m.May r e) (h : m.stage = .committed new) :
    (m.next e a).stage = .committed new ∧ (m.next e a).found = m.found := by
  have hbusy : m.stage ≠ .idle := by rw [h]; nofun
  cases e with
  | newToken => exact absurd hmay.2 hbusy
  | rollback => exact absurd h (hmay new)
  | db d =>
    cases d with
    | rotateSessionToken _ _ _ _ => exact absurd hmay.2.1 hbusy
    | getSessionByTokenHash _ => exact absurd hmay.2 hbusy
    | commit => exact absurd h (hmay new)
    | _ => exact ⟨h, rfl⟩
  | _ => exact ⟨h, rfl⟩

section

variable (hx : exec i e o w = some (a, w'))

include hx

theorem generated_fresh {t : ℕ} (h : generated e a = some t) :
    t = w.nextToken ∧ w'.nextToken = t + 1 := by
  cases e with
  | newToken =>
    cases o with
    | true => cases hx; cases h; exact ⟨rfl, rfl⟩
    | false => cases hx; cases h
  | _ => cases h

theorem nextToken_le : w.nextToken ≤ w'.nextToken := by
  cases e with
  | db d =>
    rcases db_exec_cases hx with ⟨x, hrun, -⟩ | ⟨rfl, -⟩
    · exact Nat.le_of_eq (run_effect hrun).2.symm
    · cases d <;> exact Nat.le_refl _
  | newToken =>
    cases o with
    | true => cases hx; exact Nat.le_succ _
    | false => cases hx; exact Nat.le_refl _
  | _ => cases hx; exact Nat.le_refl _

theorem looked_carries {k h old : ℕ} (hl : looked e a = some (k, h, old)) :
    old = h ∧ w.Carries k h := by
  match e, a, hl with
  | .db (.getSessionByTokenHash h), .ok (some (k, s)), rfl =>
    have hrun := run_of_ok hx
    have hfind := (Prod.mk.inj (Option.some.inj hrun)).1
    obtain ⟨x, hxk, rfl, hp⟩ := Table.find?_eq_some hfind
    simp only [Bool.and_eq_true, decide_eq_true_eq] at hp
    exact ⟨hp.1, x, _, hxk, .inl rfl, .inl hp.1⟩

end

theorem Rotating.committed_giveUp {s : Rotating} {new : ℕ} (h : s.giveUp = .committed new) :
    s = .committed new := by
  cases s with
  | idle | rotated _ => cases h
  | committed new' => exact h

theorem Rotating.committed_commit {s : Rotating} {new : ℕ} (h : s.commit = .committed new) :
    s = .committed new ∨ s = .rotated new := by
  cases s with
  | idle => cases h
  | rotated _ => cases h; exact .inr rfl
  | committed new' => exact .inl h

/-- A refresh that is committed after a statement was so before, or had rotated and commits now. -/
theorem committed_next {new : ℕ} (hmay : m.May r e) (h : (m.next e a).stage = .committed new) :
    (m.stage = .committed new ∨ m.stage = .rotated new) ∧ (m.next e a).found = m.found := by
  have hidle (hm : m.stage = .idle) (hs : m.stage = .committed new) : False := by
    rw [hm] at hs
    cases hs
  cases e with
  | newToken => cases a <;> exact (hidle hmay.2 h).elim
  | rollback => exact ⟨.inl (Rotating.committed_giveUp h), rfl⟩
  | db d =>
    cases d with
    | rotateSessionToken _ _ _ _ =>
      rcases a with _ | _ | n
      · exact ⟨.inl h, rfl⟩
      · exact ⟨.inl h, rfl⟩
      · cases h
    | getSessionByTokenHash _ => rcases a with _ | _ | ⟨k, s⟩ <;> exact (hidle hmay.2 h).elim
    | commit =>
      cases a with
      | error _ => exact ⟨.inl (Rotating.committed_giveUp h), rfl⟩
      | ok _ => exact ⟨Rotating.committed_commit h, rfl⟩
    | _ => exact ⟨.inl h, rfl⟩
  | _ => exact ⟨.inl h, rfl⟩

end

/-! ## A refresh's rotation -/

section

variable {i j k h new : ℕ} {r : Role} {e : Stmt} {o : e.Outcome} {a : e.Ans} {w w' : World}
  {log : sessions.Log} {m : Held}

theorem past_of_grown (hp : w.Past k h) (hg : w.sessions.Grown Advanced w'.sessions) :
    w'.Past k h := by
  obtain ⟨x, hx, hlt⟩ := hp
  obtain ⟨x', hx', hadv⟩ := hg k x hx
  exact ⟨x', hx', Nat.lt_of_lt_of_le hlt hadv.token⟩

/-- The statement rotates no session. -/
def Stmt.rotates : Stmt → Bool
  | .db (.rotateSessionToken _ _ _ _) => true
  | _ => false

/-- The row a transaction has rotated stays until it ends, but for a revoke of its own. -/
theorem rotates_of_effect (hrot : w.Rotates j k h new) (he : Effect i w e w')
    (hj : j ≠ i ∨ e.ends = false ∧ e.rotates = false) : w'.Rotates j k h new := by
  obtain ⟨x, v, hx, hp, hv, hle, hlt⟩ := hrot
  cases he with
  | same hu hs | user via hset hupd hs => exact ⟨x, v, hs ▸ hx, hp, hv, hle, hlt⟩
  | revoke via hu hupd =>
    obtain ⟨x', v', hx', hp', hc, rfl | ⟨-, rfl⟩⟩ := Table.pending_of_update hupd hx hp
    · exact ⟨x', v', hx', hp', hv, hc ▸ hle, hlt⟩
    · exact ⟨x', v.revoke, hx', hp', hv, hc ▸ hle, hlt⟩
  | rotate hu hupd =>
    have hij : j ≠ i := hj.resolve_right fun hne => (by cases hne.2)
    obtain ⟨x', v', hx', hp', hc, rfl | ⟨hwho, -⟩⟩ := Table.pending_of_update hupd hx hp
    · exact ⟨x', v', hx', hp', hv, hc ▸ hle, hlt⟩
    · exact absurd (Option.some.inj hwho).symm hij
  | create hy hlock hu hs =>
    exact ⟨x, v, hs ▸ Table.getElem?_insert_of_some hx, hp, hv, hle, hlt⟩
  | ends hends hu hs =>
    have hij : i ≠ j := (hj.resolve_right (by simp [hends])).symm
    exact ⟨x, v, hs.pending hx hp hij, hp, hv, hle, hlt⟩

theorem Rotated.cons {en : sessions.Entry} (hrot : Rotated log i k h new) :
    Rotated (en :: log) i k h new := by
  obtain ⟨en', hmem, hen'⟩ := hrot
  exact ⟨en', .tail _ hmem, hen'⟩

theorem rotatingInv_of_idle (hm : m.stage = .idle) : RotatingInv log w i m := by
  unfold RotatingInv
  rw [hm]
  trivial

/-- What a refresh has done survives others' statements, and its own that do not concern its
rotation. -/
theorem RotatingInv.frame (hm : RotatingInv log w j m) (he : Effect i w e w')
    (hg : w.sessions.Grown Advanced w'.sessions) (hj : j ≠ i ∨ e.ends = false ∧ e.rotates = false) :
    RotatingInv (⟨i, r, e, a, w⟩ :: log) w' j m := by
  unfold RotatingInv at hm ⊢
  cases hstage : m.stage with
  | idle => trivial
  | rotated new =>
    rw [hstage] at hm
    obtain ⟨k, h, hfound, hrot, hw⟩ := hm
    exact ⟨k, h, hfound, hrot.cons, rotates_of_effect hw he hj⟩
  | committed new =>
    rw [hstage] at hm
    obtain ⟨k, h, hfound, hrot, hw⟩ := hm
    exact ⟨k, h, hfound, hrot.cons, past_of_grown hw hg⟩

theorem rotates_of_rotate {role : String} {n : ℕ} (hw : w.sessions.Sound Advanced)
    (hx : Db.run i w (.rotateSessionToken k h new role) = some (n + 1, w')) (hlt : h < new) :
    w.Rotatable i k h ∧ w'.Rotates i k h new := by
  obtain ⟨-, -, hupd⟩ := updateSessions_eq_some hx
  obtain ⟨l, x, hxl, hp⟩ := Table.exists_of_update hupd (Nat.succ_ne_zero n)
  have hx' := Table.getElem?_of_update hupd l
  rw [hxl, Option.map_some, if_pos hp] at hx'
  simp only [Bool.and_eq_true, decide_eq_true_eq] at hp
  obtain ⟨rfl, hrot⟩ := hp
  have hadv := (hw l x hxl).seen Advanced.refl (some i)
  have hcond := hrot
  simp only [Session.rotatable, Bool.and_eq_true, decide_eq_true_eq, Bool.not_eq_true'] at hcond
  refine ⟨⟨x, hxl, ?_, hrot⟩, _, _, hx', rfl, rfl, ?_, hlt⟩
  · -- what the transaction sees unrevoked was never revoked
    by_contra hrev
    have := hadv.later.revoked (by simpa using hrev)
    rw [hcond.1.2] at this
    cases this
  · exact hcond.1.1 ▸ hadv.token

theorem past_of_commit (hrot : w.Rotates i k h new) : (w.commit i).Past k h := by
  obtain ⟨x, v, hx, hp, rfl, -, hlt⟩ := hrot
  refine ⟨x.commit i, (Table.getElem?_commit i k w.sessions).trans (by rw [hx]; rfl), ?_⟩
  simpa [Row.commit, hp] using hlt

theorem RotatingInv.step (hm : RotatingInv log w i m) (hmay : m.May r e)
    (hw : w.sessions.Sound Advanced) (hg : w.sessions.Grown Advanced w'.sessions)
    (hfound : ∀ k h old, m.found = some (k, h, old) → old = h ∧ ∀ t, m.token = some t → h < t)
    (hx : exec i e o w = some (a, w')) :
    RotatingInv (⟨i, r, e, a, w⟩ :: log) w' i (m.next e a) := by
  have hframe (hne : e.ends = false ∧ e.rotates = false) :
      RotatingInv (⟨i, r, e, a, w⟩ :: log) w' i m := hm.frame (exec_effect hx) hg (.inr hne)
  have hgiveUp (hopen : ∀ new, m.stage ≠ .committed new) :
      RotatingInv (⟨i, r, e, a, w⟩ :: log) w' i { m with stage := m.stage.giveUp } := by
    apply rotatingInv_of_idle
    cases hs : m.stage with
    | committed new => exact absurd hs (hopen new)
    | _ => rfl
  cases e with
  | newToken =>
    cases a <;> exact rotatingInv_of_idle hmay.2
  | rollback => exact hgiveUp hmay
  | db d =>
    cases d with
    | createSessionAtEpoch _ _ _ _ _ => exact rotatingInv_of_idle hmay.2
    | getSessionByTokenHash _ => rcases a with _ | _ | ⟨k, s⟩ <;> exact rotatingInv_of_idle hmay.2
    | rotateSessionToken k old new role =>
      obtain ⟨htoken, hidle, h, hf⟩ := hmay
      rcases a with _ | _ | n
      · exact rotatingInv_of_idle hidle
      · exact rotatingInv_of_idle hidle
      · obtain ⟨rfl, hlt⟩ := hfound k h old hf
        obtain ⟨hrot, hrotates⟩ := rotates_of_rotate hw (run_of_ok hx) (hlt new htoken)
        exact ⟨k, _, hf, ⟨_, .head _, rfl, ⟨role, rfl⟩, hrot⟩, hrotates⟩
    | commit =>
      cases a with
      | error _ => exact hgiveUp hmay
      | ok _ =>
        have hrun : Db.run i w .commit = some ((), w') := run_of_ok hx
        cases hrun
        show RotatingInv _ _ i { m with stage := m.stage.commit }
        unfold RotatingInv at hm ⊢
        cases hs : m.stage with
        | idle => trivial
        | committed new => exact absurd hs (hmay new)
        | rotated new =>
          rw [hs] at hm
          obtain ⟨k, h, hf, hrot, hrotates⟩ := hm
          exact ⟨k, h, hf, hrot.cons, past_of_commit hrotates⟩
    | _ => exact hframe ⟨rfl, rfl⟩
  | _ => exact hframe ⟨rfl, rfl⟩

end

end Nexara.Sessions
