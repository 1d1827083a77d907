import Nexara.Conc.Alone
import Nexara.Sessions.Exchange
import Nexara.Sessions.RevokeAll

/-!
# Refresh tokens are exchanged once, and sign-outs reach their session

A sign-out looks for its session under the current tokens and then under the ones just replaced
(`Search`, the protocol `Signouts`). If the token names session `k` at both lookups, the search
cannot miss it: a session that the first lookup misses is revoked or already past the token
(`SearchInv`), and then the second one finds it. With what `TokenInv` says of refreshes this gives
`refresh_token_exchanged_once`.
-/

namespace Nexara.Sessions

open Conc Protocol System Txn

/-! ## The search of a sign-out -/

/-- How far a sign-out with token `h` has come. -/
inductive Search where
  | start
  /-- A lookup has found session `k`; its expiry is still to be checked. -/
  | checking (h k expiresAt : ℕ) (second : Bool)
  /-- The first lookup has found nothing. -/
  | missed (h : ℕ)
  | nothing (h : ℕ)
  | found (h k : ℕ)
  | ended (h k : ℕ)

/-- The expiry check of a lookup, at time `now`. -/
def Search.check (now : ℕ) : Search → Search
  | .checking h k expiresAt second =>
      if expiresAt < now then if second then .nothing h else .missed h else .found h k
  | m => m

def Search.next (h : ℕ) (m : Search) : (e : Stmt) → e.Ans → Search
  | .db (.getSessionByTokenHash _), .ok none => .missed h
  | .db (.getSessionByTokenHash _), .ok (some (k, s)) =>
      if s.isRevoked then .missed h else .checking h k s.expiresAt false
  | .db (.getSessionByPreviousTokenHash _ _), .ok none => .nothing h
  | .db (.getSessionByPreviousTokenHash _ _), .ok (some (k, s)) => .checking h k s.expiresAt true
  | .now, now => m.check now
  | .db (.revokeSession k), .ok _ => .ended h k
  | _, _ => m

/-- The search is over, and what it found is revoked. -/
def Search.Over (h : ℕ) (m : Search) : Prop := m = .nothing h ∨ ∃ k, m = .ended h k

def Search.May (h : ℕ) (m : Search) : Stmt → Prop
  | .db (.getSessionByTokenHash t) => m = .start ∧ t = h
  | .db (.getSessionByPreviousTokenHash t window) =>
      m = .missed h ∧ t = h ∧ window = previousTokenRevocationWindow
  | .now => ∃ k x second, m = .checking h k x second
  | .db (.revokeSession k) => m = .found h k
  | .respond a => a.status = 200 → m.Over h
  | _ => True

abbrev Signouts : Protocol sessions where
  Loc := Search
  init := .start
  next := fun r m e a => match r with
    | .logout (.value h) _ => m.next h e a
    | _ => m
  may := fun r m e => match r with
    | .logout (.value h) _ => m.May h e
    | _ => True

section

attribute [local simp] db timeNow respond answer dbFailed Search.next Search.May Search.check
  Search.Over Prog.forall_except Option.forall

theorem signouts_logout (h : ℕ) (caller : Option ℕ) :
    Signouts.Follows (.logout (.value h) caller) (logout (.value h) caller) (fun _ _ => True)
      .start := by
  simp +contextual [logout, findSessionForLogout, validateRefreshToken, findReplaced]

end

theorem signouts_followed : Signouts.Followed fun _ => True := by
  intro r
  match r with
  | .logout (.value h) caller => exact signouts_logout h caller
  | .logout .absent _ | .logout .tooLong _ | .login .. | .refresh _ | .revokeSessionByID ..
  | .logoutAll .. | .changePassword .. | .deactivate .. | .updateUserProfile .. | .wait _ =>
    exact follows_of_may (fun _ _ => trivial) _

/-! ## What the search cannot miss -/

/-- Session `k` has not expired. -/
def World.Unexpired (w : World) (k : ℕ) : Prop :=
  ∃ x, w.sessions[k]? = some x ∧ w.now < x.committed.expiresAt

instance (w : World) (k : ℕ) : Decidable (w.Unexpired k) :=
  decidable_of_iff (w.sessions[k]?.any fun x => w.now < x.committed.expiresAt)
    (by simp [World.Unexpired, Option.any_eq_true])

/-- The token is session `k`'s, or was replaced within the revocation window. -/
def World.Names (w : World) (k h : ℕ) : Prop :=
  ∃ x, w.sessions[k]? = some x ∧ (x.committed.tokenHash = h ∨
    x.committed.previousTokenHash = some h ∧
      x.committed.rotatedAt.any (fun t => w.now < t + previousTokenRevocationWindow) = true)

instance (w : World) (k h : ℕ) : Decidable (w.Names k h) :=
  decidable_of_iff (w.sessions[k]?.any fun x => x.committed.tokenHash = h ∨
    x.committed.previousTokenHash = some h ∧
      x.committed.rotatedAt.any (fun t => w.now < t + previousTokenRevocationWindow) = true)
    (by simp [World.Names, Option.any_eq_true])

/-- The statement looks a session up by a token. -/
def Stmt.looksUp : Stmt → Bool
  | .db (.getSessionByTokenHash _) | .db (.getSessionByPreviousTokenHash _ _) => true
  | _ => false

/-- Throughout party `i`'s lookups the token names session `k`, which does not expire before they
are over. -/
def Named (log : sessions.Log) (i k h : ℕ) : Prop :=
  ∀ en ∈ log, en.party = i →
    (en.stmt.looksUp = true → en.before.Names k h ∧ en.before.Unexpired k) ∧
      (en.stmt = .now → en.before.Unexpired k)
deriving Decidable

/-- What a search has come to, if its token names session `k` throughout. -/
def SearchInv (log : sessions.Log) (w : World) (i k : ℕ) : Search → Prop
  | .start => True
  | .checking h l expiresAt _ => Named log i k h → w.Revoked k ∨
      l = k ∧ ∃ x, w.sessions[k]? = some x ∧ x.committed.expiresAt = expiresAt
  | .missed h => Named log i k h → w.Revoked k ∨ w.Past k h
  | .nothing h => Named log i k h → w.Revoked k
  | .found h l => Named log i k h → w.Revoked k ∨ l = k ∧ ∃ x, w.sessions[k]? = some x
  | .ended h _ => Named log i k h → w.Revoked k

section

variable {i j k h : ℕ} {r : Role} {e : Stmt} {o : e.Outcome} {a : e.Ans} {w w' : World}
  {log : sessions.Log} {m : Search}

theorem Named.tail {en : sessions.Entry} (hn : Named (en :: log) i k h) : Named log i k h :=
  fun en' hmem => hn en' (.tail _ hmem)

theorem revoked_of_advanced (hr : w.Revoked k) (hg : w.sessions.Grown Advanced w'.sessions) :
    w'.Revoked k := by
  obtain ⟨x, hx, hrev⟩ := hr
  obtain ⟨x', hx', hadv⟩ := hg k x hx
  exact ⟨x', hx', hadv.later.revoked hrev⟩

/-- What a search has come to survives every statement that does not belong to it. -/
theorem SearchInv.frame {en : sessions.Entry} (hm : SearchInv log w i k m)
    (hg : w.sessions.Grown Advanced w'.sessions) : SearchInv (en :: log) w' i k m := by
  cases m with
  | start => trivial
  | checking h l x second =>
    intro hn
    rcases hm hn.tail with hr | ⟨rfl, y, hy, hexp⟩
    · exact .inl (revoked_of_advanced hr hg)
    · obtain ⟨y', hy', hadv⟩ := hg l y hy
      exact .inr ⟨rfl, y', hy', hadv.expiry.trans hexp⟩
  | missed h =>
    intro hn
    exact (hm hn.tail).imp (fun hr => revoked_of_advanced hr hg) fun hp => past_of_grown hp hg
  | nothing h | ended h l => exact fun hn => revoked_of_advanced (hm hn.tail) hg
  | found h l =>
    intro hn
    rcases hm hn.tail with hr | ⟨rfl, y, hy⟩
    · exact .inl (revoked_of_advanced hr hg)
    · obtain ⟨y', hy', -⟩ := hg l y hy
      exact .inr ⟨rfl, y', hy'⟩

theorem World.Names.carries (hn : w.Names k h) : w.Carries k h := by
  obtain ⟨x, hx, hcur | ⟨hprev, -⟩⟩ := hn
  · exact ⟨x, _, hx, .inl rfl, .inl hcur⟩
  · exact ⟨x, _, hx, .inl rfl, .inr hprev⟩

/-- A session that the token names is found by the first lookup, or past the token, or revoked. -/
theorem miss_current (ht : TokenInv log w) (hn : w.Names k h)
    (hfind : w.sessions.find? (fun s => s.tokenHash = h && !s.isRevoked) = none) :
    w.Revoked k ∨ w.Past k h := by
  obtain ⟨x, hx, hcur | ⟨hprev, -⟩⟩ := hn
  · have hp := Table.find?_eq_none hfind hx
    exact .inl ⟨x, hx, by simpa [hcur] using hp⟩
  · exact .inr ⟨x, hx, ht.previous k x _ h hx (.inl rfl) hprev⟩

/-- A session past the token that it still names is found by the second lookup, or revoked. -/
theorem miss_previous (hn : w.Names k h) (hu : w.Unexpired k) (hp : w.Past k h)
    (hfind : w.sessions.find? (Session.replaced w.now h previousTokenRevocationWindow) = none) :
    w.Revoked k := by
  obtain ⟨x, hx, hnamed⟩ := hn
  obtain ⟨y, hy, hexp⟩ := hu
  obtain ⟨z, hz, hlt⟩ := hp
  rw [hx] at hy hz
  cases hy
  cases hz
  rcases hnamed with hcur | ⟨hprev, hwindow⟩
  · omega
  · have hp := Table.find?_eq_none hfind hx
    simp only [Session.replaced, hprev, hexp, hwindow] at hp
    exact ⟨x, hx, by simpa using hp⟩

theorem Named.head (hn : Named (⟨i, r, e, a, w⟩ :: log) i k h) :
    (e.looksUp = true → w.Names k h ∧ w.Unexpired k) ∧ (e = .now → w.Unexpired k) :=
  hn _ (.head _) rfl

/-- A lookup that finds a session with the token has found the one that the token names. -/
theorem checking_of_carries (ht : TokenInv log w) (hg : w.sessions.Grown Advanced w'.sessions)
    (hn : w.Names k h) {l : ℕ} {x : Row Session} (hx : w.sessions[l]? = some x)
    (hc : x.committed.Carries h) :
    l = k ∧ ∃ y, w'.sessions[k]? = some y ∧ y.committed.expiresAt = x.committed.expiresAt := by
  obtain rfl : l = k := ht.unique l k h (.inl ⟨x, _, hx, .inl rfl, hc⟩) (.inl hn.carries)
  obtain ⟨y, hy, hadv⟩ := hg l x hx
  exact ⟨rfl, y, hy, hadv.expiry⟩

section

variable (ht : TokenInv log w) (hg : w.sessions.Grown Advanced w'.sessions)

include ht hg

theorem SearchInv.lookUp {x : Option (ℕ × Session)}
    (hx : Db.run i w (.getSessionByTokenHash h) = some (x, w')) :
    SearchInv (⟨i, r, .db (.getSessionByTokenHash h), .ok x, w⟩ :: log) w' i k
      (Search.start.next h (.db (.getSessionByTokenHash h)) (.ok x)) := by
  have hfind : w.sessions.find? (fun s => s.tokenHash = h && !s.isRevoked) = x :=
    (Prod.mk.inj (Option.some.inj hx)).1
  rcases x with _ | ⟨l, s⟩
  · intro hn
    rcases miss_current ht (hn.head.1 rfl).1 hfind with hr | hp
    · exact .inl (revoked_of_advanced hr hg)
    · exact .inr (past_of_grown hp hg)
  · obtain ⟨x, hxl, rfl, hp⟩ := Table.find?_eq_some hfind
    simp only [Bool.and_eq_true, decide_eq_true_eq, Bool.not_eq_true'] at hp
    show SearchInv _ w' i k (if x.committed.isRevoked then .missed h else _)
    rw [hp.2]
    intro hn
    exact .inr (checking_of_carries ht hg (hn.head.1 rfl).1 hxl (.inl hp.1))

theorem SearchInv.lookUpPrevious (hm : SearchInv log w i k (.missed h)) {x : Option (ℕ × Session)}
    (hx : Db.run i w (.getSessionByPreviousTokenHash h previousTokenRevocationWindow) =
      some (x, w')) :
    SearchInv (⟨i, r, .db (.getSessionByPreviousTokenHash h previousTokenRevocationWindow), .ok x,
        w⟩ :: log) w' i k
      ((Search.missed h).next h
        (.db (.getSessionByPreviousTokenHash h previousTokenRevocationWindow)) (.ok x)) := by
  have hfind : w.sessions.find? (Session.replaced w.now h previousTokenRevocationWindow) = x :=
    (Prod.mk.inj (Option.some.inj hx)).1
  rcases x with _ | ⟨l, s⟩
  · intro hn
    obtain ⟨hnames, hunexp⟩ := hn.head.1 rfl
    apply revoked_of_advanced _ hg
    rcases hm hn.tail with hr | hp
    · exact hr
    · exact miss_previous hnames hunexp hp hfind
  · obtain ⟨x, hxl, rfl, hp⟩ := Table.find?_eq_some hfind
    simp only [Session.replaced, Bool.and_eq_true, decide_eq_true_eq] at hp
    intro hn
    exact .inr (checking_of_carries ht hg (hn.head.1 rfl).1 hxl (.inr hp.1.1.1))

omit ht

theorem SearchInv.check {l x : ℕ} {second : Bool}
    (hm : SearchInv log w i k (.checking h l x second)) :
    SearchInv (⟨i, r, .now, w.now, w⟩ :: log) w' i k
      ((Search.checking h l x second).check w.now) := by
  have hexpired (hn : Named (⟨i, r, .now, w.now, w⟩ :: log) i k h) (hlt : x < w.now) :
      w'.Revoked k := by
    rcases hm hn.tail with hr | ⟨rfl, y, hy, rfl⟩
    · exact revoked_of_advanced hr hg
    · obtain ⟨z, hz, hexp⟩ := hn.head.2 rfl
      rw [hy] at hz
      cases hz
      omega
  show SearchInv _ w' i k (if x < w.now then if second then .nothing h else .missed h else _)
  split_ifs with hlt hsecond
  · exact fun hn => hexpired hn hlt
  · exact fun hn => .inl (hexpired hn hlt)
  · intro hn
    rcases hm hn.tail with hr | ⟨rfl, y, hy, -⟩
    · exact .inl (revoked_of_advanced hr hg)
    · obtain ⟨y', hy', -⟩ := hg l y hy
      exact .inr ⟨rfl, y', hy'⟩

theorem SearchInv.revoke {l : ℕ} {x : Unit} (hm : SearchInv log w i k (.found h l))
    (hx : Db.run i w (.revokeSession l) = some (x, w')) :
    SearchInv (⟨i, r, .db (.revokeSession l), .ok x, w⟩ :: log) w' i k (.ended h l) := by
  intro hn
  rcases hm hn.tail with hr | ⟨rfl, y, hy⟩
  · exact revoked_of_advanced hr hg
  · obtain ⟨⟨n, v⟩, hv, heq⟩ := Option.map_eq_some_iff.mp hx
    cases heq
    obtain ⟨-, -, hupd⟩ := updateSessions_eq_some hv
    have hy' := Table.getElem?_of_update hupd l
    rw [hy, Option.map_some, if_pos (by simp)] at hy'
    exact ⟨_, hy', rfl⟩

end

theorem SearchInv.step (ht : TokenInv log w) (hg : w.sessions.Grown Advanced w'.sessions)
    (hm : SearchInv log w i k m) (hmay : m.May h e) (hx : exec i e o w = some (a, w')) :
    SearchInv (⟨i, r, e, a, w⟩ :: log) w' i k (m.next h e a) := by
  cases e with
  | now =>
    obtain ⟨l, x, second, rfl⟩ := hmay
    cases hx
    exact hm.check hg
  | db d =>
    cases d with
    | getSessionByTokenHash t =>
      obtain ⟨rfl, rfl⟩ := hmay
      cases a with
      | error _ => trivial
      | ok x => exact SearchInv.lookUp ht hg (run_of_ok hx)
    | getSessionByPreviousTokenHash t window =>
      obtain ⟨rfl, rfl, rfl⟩ := hmay
      cases a with
      | error _ => exact hm.frame hg
      | ok x => exact hm.lookUpPrevious ht hg (run_of_ok hx)
    | revokeSession l =>
      subst hmay
      cases a with
      | error _ => exact hm.frame hg
      | ok x => exact hm.revoke hg (run_of_ok hx)
    | _ => exact hm.frame hg
  | _ => exact hm.frame hg

theorem over_next {h' : ℕ} (hm : m.Over h) (hmay : m.May h' e) : m.next h' e a = m := by
  have hover : ¬ (m = .start ∨ m = .missed h' ∨ (∃ l, m = .found h' l) ∨
      ∃ l x second, m = .checking h' l x second) := by
    rcases hm with rfl | ⟨l, rfl⟩ <;> simp
  cases e with
  | now => exact absurd (.inr (.inr (.inr hmay))) hover
  | db d =>
    cases d with
    | getSessionByTokenHash t => exact absurd (.inl hmay.1) hover
    | getSessionByPreviousTokenHash t window => exact absurd (.inr (.inl hmay.1)) hover
    | revokeSession l => exact absurd (.inr (.inr (.inl ⟨l, hmay⟩))) hover
    | _ => rfl
  | _ => rfl

end

/-! ## Runs -/

/-- The token of a sign-out that answers success. -/
def signOut : Role → Stmt → Option ℕ
  | .logout (.value h) _, .respond a => if a.status = 200 then some h else none
  | _, _ => none

/-- Party `i` is a sign-out with token `h` that answered success. -/
def SignedOut (log : sessions.Log) (i h : ℕ) : Prop :=
  ∃ en ∈ log, en.party = i ∧ signOut en.role en.stmt = some h
deriving Decidable

theorem signOut_eq_some {r : Role} {e : Stmt} {h : ℕ} (hs : signOut r e = some h) :
    ∃ caller ans, r = .logout (.value h) caller ∧ e = .respond ans ∧ ans.status = 200 := by
  match r, e, hs with
  | .logout (.value _) caller, .respond ans, hs =>
    replace hs : (if ans.status = 200 then _ else none) = some h := hs
    split_ifs at hs with hstatus
    cases hs
    exact ⟨caller, ans, rfl, rfl, hstatus⟩

structure SignOutInv (log : sessions.Log) (w : World) : Prop where
  search : ∀ i k, SearchInv log w i k (Signouts.loc i log)
  signedOut : ∀ i h, SignedOut log i h → (Signouts.loc i log).Over h

section

variable {i : ℕ} {r : Role} {e : Stmt} {o : e.Outcome} {a : e.Ans} {w w' : World}
  {log : sessions.Log}

theorem search_only_logout (r : Role) : (∃ h caller, r = .logout (.value h) caller) ∨
    ∀ (m : Search) (e : Stmt) (a : e.Ans), Signouts.next r m e a = m := by
  cases r with
  | logout token caller =>
    cases token with
    | value h => exact .inl ⟨h, caller, rfl⟩
    | _ => exact .inr fun _ _ _ => rfl
  | _ => exact .inr fun _ _ _ => rfl

theorem SignOutInv.step (ht : TokenInv log w) (ht' : TokenInv (⟨i, r, e, a, w⟩ :: log) w')
    (h : SignOutInv log w) (hmay : Signouts.may r (Signouts.loc i log) e)
    (hx : exec i e o w = some (a, w')) : SignOutInv (⟨i, r, e, a, w⟩ :: log) w' := by
  have hg : w.sessions.Grown Advanced w'.sessions := ht'.grown _ (.head _)
  constructor
  · intro j k
    refine loc_cons (T := Signouts) (p := SearchInv _ w' j k) (fun hij => ?_) fun _ => (h.search j k).frame hg
    subst hij
    rcases search_only_logout r with ⟨t, caller, rfl⟩ | hsame
    · exact (h.search i k).step ht hg hmay hx
    · rw [hsame]
      exact (h.search i k).frame hg
  · intro j t hs
    have hkept {j : ℕ} (hover : (Signouts.loc j log).Over t) :
        (Signouts.loc j (⟨i, r, e, a, w⟩ :: log)).Over t := by
      refine loc_cons (T := Signouts) (p := (·.Over t)) (fun hij => ?_) fun _ => hover
      subst hij
      rcases search_only_logout r with ⟨t', caller, rfl⟩ | hsame
      · show (Search.next t' (Signouts.loc i log) e a).Over t
        rwa [over_next hover hmay]
      · rwa [hsame]
    rcases exists_cons hs with ⟨rfl, hnew⟩ | hold
    · obtain ⟨caller, ans, hr, he, hstatus⟩ := signOut_eq_some hnew
      subst hr he
      exact hkept (hmay hstatus)
    · exact hkept (h.signedOut j t hold)

end

theorem SignOutInv.init (w : World) : SignOutInv [] w where
  search := fun _ _ => trivial
  signedOut := by simp [SignedOut]

section

variable {w : World} (hw : w.Distinct) {pool : sessions.Pool}
  (hrun : sessions.Reach Cond.any (Pool.idle w) pool)

include hw hrun

theorem signOutInv_of_reach : SignOutInv pool.log pool.shared :=
  remains signouts_followed (P := SignOutInv) (fun hc => tokenInv_of_reach hw hc)
    (fun ht ht' _ hmay hx h => h.step ht ht' hmay hx) .init hrun (.init w)

theorem revoked_of_signedOut {i k h : ℕ} (hs : SignedOut pool.log i h) (hn : Named pool.log i k h) :
    pool.shared.Revoked k := by
  have hinv := signOutInv_of_reach hw hrun
  have hsearch := hinv.search i k
  rcases hinv.signedOut i h hs with hover | ⟨l, hover⟩ <;> rw [hover] at hsearch <;>
    exact hsearch hn

end

/-! ## Which tokens are valid -/

/-- `ValidateRefreshToken`, run on the database as it is, can accept the token for session `k`. -/
def Passes (w : World) (h k : ℕ) : Prop :=
  ∃ i r log session log' w',
    Ends (M := sessions) i r (validateRefreshToken h) log w (.found k session) log' w'

/-- The condition of `GetSessionByTokenHash`. -/
def Session.current (h : ℕ) (s : Session) : Bool := s.tokenHash = h && !s.isRevoked

theorem run_getSessionByTokenHash {i h : ℕ} {w w' : World} {x : Option (ℕ × Session)}
    (hrun : Db.run i w (.getSessionByTokenHash h) = some (x, w')) :
    w.sessions.find? (Session.current h) = x ∧ w' = w := by
  cases hrun
  exact ⟨rfl, rfl⟩

theorem spec_validateRefreshToken (w : World) (h : ℕ) :
    Spec (M := sessions) (fun _ v => v = w) (validateRefreshToken h) fun res _ _ =>
      ∀ k s, res = .found k s →
        w.sessions.find? (Session.current h) = some (k, s) ∧ w.now ≤ s.expiresAt := by
  have hlook : Spec (M := sessions) (fun _ v => v = w) (db (.getSessionByTokenHash h))
      fun found _ v => v = w ∧ ∀ x, found = .ok x →
        w.sessions.find? (Session.current h) = x := by
    refine Spec.stmt fun i r o log v found v' hv hx => ?_
    subst hv
    rcases db_exec_cases hx with ⟨x, hrun, hfound⟩ | ⟨rfl, e, rfl⟩
    · obtain ⟨hfind, rfl⟩ := run_getSessionByTokenHash hrun
      refine ⟨rfl, fun y hy => ?_⟩
      subst hy
      rcases hfound with heq | ⟨e, heq⟩
      · cases heq
        exact hfind
      · cases heq
    · exact ⟨rfl, nofun⟩
  refine hlook.seq fun found => ?_
  rcases found with e | _ | ⟨k, s⟩
  · exact .pure fun _ _ _ => nofun
  · exact .pure fun _ _ _ => nofun
  · show Spec _ (if s.isRevoked then _ else _) _
    split_ifs
    · exact .pure fun _ _ _ => nofun
    · -- the clock is read on the same database
      have hnow : Spec (M := sessions) (fun _ v => v = w ∧ ∀ x,
          (.ok (some (k, s)) : Except Err _) = .ok x → w.sessions.find? (Session.current h) = x) timeNow
          fun now _ _ => now = w.now ∧ w.sessions.find? (Session.current h) = some (k, s) := by
        refine Spec.stmt fun i r o log v now v' hv hx => ?_
        obtain ⟨rfl, hfind⟩ := hv
        cases hx
        exact ⟨rfl, hfind _ rfl⟩
      refine hnow.seq fun now => ?_
      split_ifs with hexp
      · exact .pure fun _ _ _ => nofun
      · refine .pure fun _ _ hfind k' s' heq => ?_
        cases heq
        exact ⟨hfind.2, by omega⟩

theorem passes_iff {w : World} {h k : ℕ} : Passes w h k ↔
    ∃ s, w.sessions.find? (Session.current h) = some (k, s) ∧ w.now ≤ s.expiresAt := by
  constructor
  · rintro ⟨i, r, log, s, log', w', hend⟩
    exact ⟨s, spec_validateRefreshToken w h hend rfl k s rfl⟩
  · rintro ⟨s, hfind, hexp⟩
    have hrev : s.isRevoked = false := by
      obtain ⟨x, -, rfl, hp⟩ := Table.find?_eq_some hfind
      simp only [Session.current, Bool.and_eq_true, Bool.not_eq_true'] at hp
      exact hp.2
    have hx : exec 0 (.db (.getSessionByTokenHash h)) .done w = some (.ok (some (k, s)), w) := by
      show some (Except.ok (w.sessions.find? (Session.current h)), w) = _
      rw [hfind]
    let first : sessions.Entry :=
      ⟨0, .refresh (.value h), .db (.getSessionByTokenHash h), .ok (some (k, s)), w⟩
    refine ⟨0, .refresh (.value h), [], s, [⟨0, .refresh (.value h), .now, w.now, w⟩, first], w,
      .call (o := Fate.done) hx ?_⟩
    show Ends _ _ (if s.isRevoked then _ else _) _ _ _ _ _
    rw [hrev]
    refine .call (o := ()) rfl ?_
    show Ends _ _ (if s.expiresAt < w.now then _ else _) _ _ _ _ _
    rw [if_neg (by omega)]
    exact .pure

section

variable {log : sessions.Log} {w : World} {h k : ℕ} {x : Row Session}

theorem tokenHash_of_passes (hp : Passes w h k) :
    ∃ x, w.sessions[k]? = some x ∧ x.committed.tokenHash = h := by
  obtain ⟨s, hfind, -⟩ := passes_iff.mp hp
  obtain ⟨x, hx, rfl, hcur⟩ := Table.find?_eq_some hfind
  simp only [Session.current, Bool.and_eq_true, decide_eq_true_eq] at hcur
  exact ⟨x, hx, hcur.1⟩

theorem TokenInv.passes_iff_eq (ht : TokenInv log w) (hx : w.sessions[k]? = some x)
    (hrev : x.committed.isRevoked = false) (hexp : w.now ≤ x.committed.expiresAt) :
    Passes w h k ↔ h = x.committed.tokenHash := by
  constructor
  · intro hp
    obtain ⟨y, hy, hcur⟩ := tokenHash_of_passes hp
    rw [hx] at hy
    cases hy
    exact hcur.symm
  · rintro rfl
    have hcur : x.committed.current x.committed.tokenHash = true := by
      simp [Session.current, hrev]
    cases hfind : w.sessions.find? (Session.current x.committed.tokenHash) with
    | none =>
      rw [Table.find?_eq_none hfind hx] at hcur
      cases hcur
    | some found =>
      obtain ⟨l, s⟩ := found
      obtain ⟨y, hy, rfl, hp⟩ := Table.find?_eq_some hfind
      simp only [Session.current, Bool.and_eq_true, decide_eq_true_eq] at hp
      obtain rfl : l = k := ht.unique l k _ (.inl ⟨y, _, hy, .inl rfl, .inl hp.1⟩)
        (.inl ⟨x, _, hx, .inl rfl, .inl rfl⟩)
      rw [hx] at hy
      cases hy
      exact passes_iff.mpr ⟨_, hfind, hexp⟩

theorem TokenInv.not_passes (ht : TokenInv log w) (hc : Carried log w k h) (hp : w.Past k h)
    (l : ℕ) : ¬ Passes w h l := by
  intro hpass
  obtain ⟨y, hy, rfl⟩ := tokenHash_of_passes hpass
  obtain rfl : l = k := ht.unique l k _ (.inl ⟨y, _, hy, .inl rfl, .inl rfl⟩) hc
  obtain ⟨x, hx, hlt⟩ := hp
  rw [hx] at hy
  cases hy
  omega

end

section

variable {w : World} {c c' : sessions.Pool} {k h : ℕ}

theorem carried_of_reach (hc' : sessions.Reach Cond.any c c')
    (hk : c.shared.Carries k h) : Carried c'.log c'.shared k h := by
  rcases hc'.shared_eq_or_mem with heq | ⟨en, hmem, heq⟩
  · exact .inl (heq ▸ hk)
  · exact .inr ⟨en, hmem, heq ▸ hk⟩

section

variable (hw : w.Distinct) (hc : sessions.Reach Cond.any (Pool.idle w) c)
  (hc' : sessions.Reach Cond.any c c')

include hw hc hc'

theorem grown_of_reach : c.shared.sessions.Grown Advanced c'.shared.sessions := by
  rcases hc'.shared_eq_or_mem with heq | ⟨en, hmem, heq⟩
  · rw [heq]
    exact Table.Grown.refl Advanced.refl _
  · rw [← heq]
    exact (tokenInv_of_reach hw (hc.trans hc')).grown en hmem

theorem past_of_replaced {x x' : Row Session} (hx : c.shared.sessions[k]? = some x)
    (hcar : x.committed.Carries h) (hx' : c'.shared.sessions[k]? = some x')
    (hne : x'.committed.tokenHash ≠ h) : c'.shared.Past k h := by
  refine ⟨x', hx', ?_⟩
  obtain ⟨y, hy, hadv⟩ := grown_of_reach hw hc hc' k x hx
  rw [hx'] at hy
  cases hy
  have hle := hadv.token
  rcases hcar with hcur | hprev
  · omega
  · have hlt := (tokenInv_of_reach hw hc).previous k x _ h hx (.inl rfl) hprev
    omega

end

end

/-- **Refresh tokens.** From a database at rest with distinct tokens: of the refreshes that present
one token at most one answers with a new one; it has rotated a session that was unrevoked, and
unexpired when its transaction began; a live session's current token is accepted and no other; a
replaced token is never accepted again; and a sign-out that answers success has revoked the session
its token named at each lookup, if that did not expire meanwhile. -/
theorem refresh_token_exchanged_once (w : World) (hw : w.Distinct) (pool : sessions.Pool)
    (hrun : sessions.Reach Cond.any (Pool.idle w) pool) :
    (∀ i j h new new', Exchanged pool.log i h new → Exchanged pool.log j h new' →
      i = j ∧ new = new') ∧
    (∀ i h new, Exchanged pool.log i h new → ∃ k, Rotated pool.log i k h new) ∧
    (∀ (k : ℕ) (x : Row Session), pool.shared.sessions[k]? = some x →
      x.committed.isRevoked = false → pool.shared.now ≤ x.committed.expiresAt →
      ∀ h, Passes pool.shared h k ↔ h = x.committed.tokenHash) ∧
    (∀ pool' pool'' : sessions.Pool, sessions.Reach Cond.any pool pool' →
      sessions.Reach Cond.any pool' pool'' →
      ∀ (k h : ℕ) (x x' : Row Session), pool.shared.sessions[k]? = some x →
        x.committed.Carries h → pool'.shared.sessions[k]? = some x' →
        x'.committed.tokenHash ≠ h → ∀ l, ¬ Passes pool''.shared h l) ∧
    ∀ i k h, SignedOut pool.log i h → Named pool.log i k h → pool.shared.Revoked k := by
  have hinv := tokenInv_of_reach hw hrun
  refine ⟨?_, ?_, ?_, ?_, ?_⟩
  · intro i j h new new' hi hj
    obtain ⟨hsi, k, hfi⟩ := hinv.exchanged i h new hi
    obtain ⟨hsj, l, hfj⟩ := hinv.exchanged j h new' hj
    obtain rfl := hinv.exclusive i j k l h h h new new' hsi hsj hfi hfj
    rw [hsi] at hsj
    cases hsj
    exact ⟨rfl, rfl⟩
  · intro i h new hi
    obtain ⟨hstage, k, hf⟩ := hinv.exchanged i h new hi
    have hrot := hinv.rotating i
    unfold RotatingInv at hrot
    rw [hstage] at hrot
    obtain ⟨k', h', hf', hrot, -⟩ := hrot
    rw [hf] at hf'
    cases hf'
    exact ⟨k, hrot⟩
  · intro k x hx hrev hexp h
    exact hinv.passes_iff_eq hx hrev hexp
  · intro pool' pool'' hrun' hrun'' k h x x' hx hcar hx' hne
    have hpast := past_of_replaced hw hrun hrun' hx hcar hx' hne
    have hinv'' := tokenInv_of_reach hw ((hrun.trans hrun').trans hrun'')
    have hc := carried_of_reach (hrun'.trans hrun'') ⟨x, _, hx, .inl rfl, hcar⟩
    exact hinv''.not_passes hc (past_of_grown hpast (grown_of_reach hw (hrun.trans hrun') hrun''))
  · intro i k h hs hn
    exact revoked_of_signedOut hw hrun hs hn

def signedIn : World where
  users := [{ committed := {} }]
  sessions := [{ committed := { userID := 0, tokenHash := 0, expiresAt := 100 } }]
  nextToken := 1

theorem signedIn_distinct : signedIn.Distinct := by
  have hcarries : ∀ k h, signedIn.Carries k h → k = 0 ∧ h = 0 := by
    rintro k h ⟨x, v, hx, hv, hc⟩
    match k, hx with
    | 0, rfl =>
      rcases hv with rfl | ⟨j, hj⟩
      · rcases hc with rfl | hc
        · exact ⟨rfl, rfl⟩
        · cases hc
      · cases hj
  refine ⟨by simp [World.Quiet, signedIn], ?_, ?_, by simp [signedIn]⟩
  · intro k h hc
    rw [(hcarries k h hc).2]
    exact Nat.zero_lt_one
  · intro k l h hk hl
    rw [(hcarries k h hk).1, (hcarries l h hl).1]

/-- A refresh, and then a sign-out with the token it replaced. -/
theorem refresh_token_exchanged_once_signedIn :
    signedIn.Distinct ∧ ∃ pool, sessions.Reach Cond.any (Pool.idle signedIn) pool ∧
      (Exchanged pool.log 0 0 1 ∧ SignedOut pool.log 1 0 ∧ Named pool.log 1 0 0) ∧
      (∃ k, Rotated pool.log 0 k 0 1) ∧ pool.shared.Revoked 0 := by
  obtain ⟨pool, hpool, hex, hs, hn⟩ := exists_reach (M := sessions) Cond.any signedIn
    ([.start (.refresh (.value 0)), .start (.logout (.value 0) none)] ++ steps 0 10 ++ steps 1 5)
    (fun pool => Exchanged pool.log 0 0 1 ∧ SignedOut pool.log 1 0 ∧ Named pool.log 1 0 0)
    (by decide +kernel)
  obtain ⟨-, hrotated, -, -, hrevoked⟩ :=
    refresh_token_exchanged_once signedIn signedIn_distinct pool hpool
  exact ⟨signedIn_distinct, pool, hpool, ⟨hex, hs, hn⟩, hrotated 0 0 1 hex, hrevoked 1 0 0 hs hn⟩

/-- A session can expire while a refresh that began just before is in its transaction (10 s, under
the 15 s of `authDBTimeout`), and is rotated all the same; and a sign-out with an expired session's
token answers success and leaves it as it is. -/
theorem expired_session_exchanged : signedIn.Distinct ∧
    (∃ pool, sessions.Reach Cond.any (Pool.idle signedIn) pool ∧
      Exchanged pool.log 0 0 1 ∧ ∀ en ∈ pool.log, en.party = 0 → en.stmt.rotates = true →
        ∀ x ∈ en.before.sessions, x.committed.expiresAt ≤ en.before.now) ∧
    ∃ pool, sessions.Reach Cond.any (Pool.idle signedIn) pool ∧
      SignedOut pool.log 1 0 ∧
      (∀ en ∈ pool.log, en.party = 1 → en.stmt.looksUp = true → en.before.Names 0 0) ∧
      ∀ x ∈ pool.shared.sessions, x.committed.isRevoked = false :=
  ⟨signedIn_distinct, exists_reach _ _
      ([.start (.refresh (.value 0)), .start (.wait 95), .start (.wait 10)] ++ steps 1 1 ++
        steps 0 5 ++ steps 2 1 ++ steps 0 5) _ (by decide +kernel),
    exists_reach _ _
      ([.start (.wait 200), .start (.logout (.value 0) none)] ++ steps 0 1 ++ steps 1 4) _
      (by decide +kernel)⟩

/-- **Sessions only age.** A session keeps its user and its expiry, stays revoked once it is, and
its token only moves on; and no token it has carried is ever in another. -/
theorem sessions_only_age {w : World} (hw : w.Distinct) {pool pool' : sessions.Pool}
    (hrun : sessions.Reach Cond.any (Pool.idle w) pool)
    (hrun' : sessions.Reach Cond.any pool pool') :
    (∀ (k : ℕ) (x : Row Session), pool.shared.sessions[k]? = some x →
      ∃ x', pool'.shared.sessions[k]? = some x' ∧ Advanced x.committed x'.committed) ∧
    ∀ k l h, pool.shared.Carries k h → pool'.shared.Carries l h → k = l := by
  refine ⟨grown_of_reach hw hrun hrun', fun k l h hk hl => ?_⟩
  have hinv := tokenInv_of_reach hw (hrun.trans hrun')
  exact hinv.unique k l h (carried_of_reach hrun' hk) (.inl hl)

theorem sessions_only_age_refreshed : ∃ pool, sessions.Reach Cond.any (Pool.idle signedIn) pool ∧
    Exchanged pool.log 0 0 1 ∧ ∃ x, pool.shared.sessions[0]? = some x ∧
      Advanced { userID := 0, tokenHash := 0, expiresAt := 100 } x.committed := by
  obtain ⟨pool, hpool, hex⟩ := exists_reach (M := sessions) Cond.any signedIn
    ([.start (.refresh (.value 0))] ++ steps 0 10) (fun pool => Exchanged pool.log 0 0 1)
    (by decide +kernel)
  exact ⟨pool, hpool, hex, (sessions_only_age signedIn_distinct .init hpool).1 0 _ rfl⟩

end Nexara.Sessions
