import Mathlib.Data.List.Perm.Subperm
import Nexara.Lockout.Requests

/-!
# Handing an attempt back never enlarges the budget

Every attempt that may be checked was counted, and stays counted until its own request hands it
back. So the parties that hold one, or were found wrong, since the count was last reset are never
more than the count says (`HandInv`). A request that outlived a reset would hand back an attempt
that is no longer counted, and take off someone else's (`orderly`).
-/

namespace Nexara.Lockout

open Conc Protocol System

/-! ## What a request holds -/

inductive Attempt where
  | idle
  | held (res : Reservation)
  | right (res : Reservation)
  | wrong
  | over

def Attempt.check (ok : Bool) : Attempt → Attempt
  | .held res => if ok then .right res else .wrong
  | m => m

def Attempt.next (m : Attempt) : (e : Stmt) → e.Ans → Attempt
  | .reserve, some res => if res.admission = .refused then .over else .held res
  | .reserve, none => .over
  | .checkPassword, ok => m.check ok
  | .release _, _ => .over
  | .clear, _ => .over
  | _, _ => m

def Attempt.May (m : Attempt) : Stmt → Prop
  | .reserve => m = .idle
  | .checkPassword => ∃ res, m = .held res
  | .release res => m = .right res
  | .clear => ∃ res, m = .right res
  | _ => True

/-- The request has an attempt that it may still hand back. -/
def Attempt.inFlight : Attempt → Bool
  | .held _ | .right _ => true
  | _ => false

section

variable {cfg : Config} {st : Store}

variable (cfg st) in
abbrev Attempts : Protocol (lockouts cfg st) where
  Loc := Attempt
  init := .idle
  next := fun _ => Attempt.next
  may := fun _ => Attempt.May

variable {r : Role} {m : Attempt} {α β : Type} {p q : Code α} {f : α → Code β}

attribute [local simp] call respond Attempt.May Attempt.next Attempt.check Prog.forall_except
  Option.forall

theorem follows_admission {proof : PasswordProof} {Q : Except Response Reservation → Attempt → Prop}
    (herror : ∀ r m, Q (.error r) m) (hok : ∀ attempt, Q (.ok attempt) (.held attempt)) :
    (Attempts cfg st).Follows r (admitPasswordAttempt proof) Q .idle := by
  simp only [admitPasswordAttempt]
  simp [herror]
  rintro - - - ⟨_ | _ | _, _⟩ <;> simp [herror, hok]

theorem follows_refuse {attempt : Reservation} :
    (Attempts cfg st).Follows r (refuseWrongPassword attempt) (fun _ _ => True) m := by
  unfold refuseWrongPassword
  split <;> simp

theorem attempts_followed : (Attempts cfg st).Followed fun _ => True := by
  intro r
  cases r with
  | changePassword =>
    exact follows_bind.mpr (follows_admission (by simp)
      (by simp [handBackAttempt, forgetPasswordFailures, follows_refuse]))
  | proveCurrentPassword =>
    exact follows_bind.mpr (follows_admission (by simp) (by simp [handBackAttempt, follows_refuse]))
  | wait ms => simp [code]

end

/-! ## Resets -/

section

variable {cfg : Config} {st : Store}

/-- A lock runs out, or a change has cleared the count. -/
def lockResets (en : (lockouts cfg st).Entry) : Bool :=
  match en.stmt, en.ans with
  | .clear, landed => landed
  | .wait ms, _ =>
    (st.lockEnds en.before.now en.before.state).any (· ≤ en.before.now + ms)
  | _, _ => false

/-- The count's window ends. -/
def windowResets (en : (lockouts cfg st).Entry) : Bool :=
  match en.stmt with
  | .wait ms => (st.windowEnds en.before.now en.before.state).any (· ≤ en.before.now + ms)
  | _ => false

def resets (en : (lockouts cfg st).Entry) : Bool := lockResets en || windowResets en

/-- A password was checked and found wrong. -/
def foundWrong (en : (lockouts cfg st).Entry) : Bool :=
  match en.stmt, en.ans with
  | .checkPassword, ok => !ok
  | _, _ => false

/-- The wrong passwords checked since the last of these resets, by the requests they came with. -/
def wrongSince (p : (lockouts cfg st).Entry → Bool) (log : (lockouts cfg st).Log) : List ℕ :=
  ((log.takeWhile fun en => !p en).filter foundWrong).map Entry.party

def someInFlight (log : (lockouts cfg st).Log) : Bool :=
  log.any fun en => ((Attempts cfg st).loc en.party log).inFlight

def othersInFlight (i : ℕ) (log : (lockouts cfg st).Log) : Bool :=
  log.any fun en => en.party ≠ i && ((Attempts cfg st).loc en.party log).inFlight

/-- No window and no lock runs out while a request is in flight. -/
def unhurried : Cond (lockouts cfg st) := fun log _ _ e _ w =>
  match e with
  | .wait ms => !someInFlight log ||
      (st.windowEnds w.now w.state).all (w.now + ms < ·) &&
        (st.lockEnds w.now w.state).all (w.now + ms < ·)
  | _ => true

/-- Nor does a change clear the count under another request. -/
def orderly : Cond (lockouts cfg st) := fun log i r e o w =>
  unhurried log i r e o w &&
    match e with
    | .clear => !othersInFlight i log
    | _ => true

variable {log : (lockouts cfg st).Log} {p : (lockouts cfg st).Entry → Bool}
  {en : (lockouts cfg st).Entry}

theorem wrongSince_reset (h : p en = true) : wrongSince p (en :: log) = [] := by
  simp [wrongSince, h]

theorem wrongSince_wrong (h : p en = false) (hw : foundWrong en = true) :
    wrongSince p (en :: log) = en.party :: wrongSince p log := by
  simp [wrongSince, h, hw]

theorem wrongSince_other (h : p en = false) (hw : foundWrong en = false) :
    wrongSince p (en :: log) = wrongSince p log := by
  simp [wrongSince, h, hw]

theorem mem_of_inFlight {i : ℕ}
    (h : ((Attempts cfg st).loc i log).inFlight = true) : ∃ en ∈ log, en.party = i := by
  refine seen_of_loc (T := Attempts cfg st) fun heq => ?_
  rw [heq] at h
  cases h

theorem not_inFlight (h : someInFlight log = false) (i : ℕ) :
    ((Attempts cfg st).loc i log).inFlight = false := by
  by_contra hi
  rw [Bool.not_eq_false] at hi
  obtain ⟨en, hen, rfl⟩ := mem_of_inFlight hi
  have hno := List.any_eq_false.mp h en hen
  exact hno hi

theorem not_othersInFlight {i j : ℕ} (h : othersInFlight i log = false) (hji : j ≠ i) :
    ((Attempts cfg st).loc j log).inFlight = false := by
  by_contra hj
  rw [Bool.not_eq_false] at hj
  obtain ⟨en, hen, rfl⟩ := mem_of_inFlight hj
  have hno := List.any_eq_false.mp h en hen
  simp [hji, hj] at hno

end

/-! ## What the operations do to the count -/

section

variable {cfg : Config} {now token : ℕ} {b : Budget}

variable (token) in
theorem counted_reserve (hfit : b.Fits cfg) (hasOf : b.asOf now = b) :
    (b.reserve cfg now token).2.counted cfg =
      b.counted cfg + if (b.reserve cfg now token).1.admission = .refused then 0 else 1 := by
  have hcount {c ends : ℕ} (hc : c < cfg.threshold) :
      (Budget.count cfg now token c ends).2.counted cfg =
        c + if (Budget.count cfg now token c ends).1.admission = .refused then 0 else 1 := by
    by_cases hlast : cfg.threshold ≤ c + 1
    · simp only [Budget.count, if_pos hlast, Budget.counted, reduceCtorEq, if_false]
      omega
    · simp [Budget.count, hlast, Budget.counted]
  unfold Budget.reserve
  rw [hasOf]
  cases b with
  | fresh => exact hcount cfg.threshold_pos
  | counting c ends => exact hcount hfit.1
  | locked t ends => rfl

variable (cfg) in
theorem counted_release (hasOf : b.asOf now = b) (res : Reservation) :
    b.counted cfg ≤ (b.release cfg now res).counted cfg + 1 := by
  have hthr := cfg.threshold_pos
  unfold Budget.release
  rw [hasOf]
  split <;> try split_ifs
  all_goals simp only [Budget.counted]; omega

theorem counted_le (hfit : b.Fits cfg) : b.counted cfg ≤ cfg.threshold := by
  cases b with
  | fresh => exact Nat.zero_le _
  | counting c ends => exact Nat.le_of_lt hfit.1
  | locked t ends => exact Nat.le_refl _

theorem asOf_of_ends {now' : ℕ} (hw : b.windowEnds.all (now' < ·) = true)
    (hl : b.lockEnds.all (now' < ·) = true) : b.asOf now' = b := by
  cases b with
  | fresh => rfl
  | counting c ends => exact if_pos (by simpa [Budget.windowEnds] using hw)
  | locked t ends => exact if_pos (by simpa [Budget.lockEnds] using hl)

end

/-! ## The invariant -/

section

variable {cfg : Config} {st : Store}

/-- The requests found wrong since the last reset are known, and counted in `held`. -/
def KnownWrong (log : (lockouts cfg st).Log) (held : List ℕ) : Prop :=
  (wrongSince resets log).Nodup ∧
    ∀ i ∈ wrongSince resets log, i ∈ held ∧ (Attempts cfg st).loc i log = .wrong

/-- The account shows budget `b`; `held` are the requests counted in it and not handed back. -/
structure HandInv (log : (lockouts cfg st).Log) (w : World st) (b : Budget)
    (held : List ℕ) : Prop where
  shows' : st.Shows cfg w.now w.state b
  nodup : held.Nodup
  le : held.length ≤ b.counted cfg
  active : ∀ i ∈ held, (Attempts cfg st).loc i log ≠ .idle
  inFlight : ∀ i, ((Attempts cfg st).loc i log).inFlight = true → i ∈ held
  fits : ∀ i res, (Attempts cfg st).loc i log = .held res ∨ (Attempts cfg st).loc i log = .right res →
    res.Fits cfg
  wrong : KnownWrong log held

variable {log : (lockouts cfg st).Log} {w w' : World st} {b b' : Budget} {held held' : List ℕ}
  {i : ℕ} {r : Role} {e : Stmt} {o : e.Outcome} {a : e.Ans}

section

variable (h : HandInv log w b held)

include h

/-- A step that resets nothing, and the requests whose wrong passwords are known after it. -/
theorem HandInv.step_of (hshows : st.Shows cfg w'.now w'.state b') (hnodup : held'.Nodup)
    (hle : held'.length ≤ b'.counted cfg) (hsub : ∀ j ∈ held', j = i ∨ j ∈ held)
    (hkeep : ∀ j ∈ held, j ≠ i → j ∈ held')
    (hactive : i ∈ held' → ((Attempts cfg st).loc i log).next e a ≠ .idle)
    (hown : (((Attempts cfg st).loc i log).next e a).inFlight = true → i ∈ held')
    (hfits : ∀ res, ((Attempts cfg st).loc i log).next e a = .held res ∨
      ((Attempts cfg st).loc i log).next e a = .right res → res.Fits cfg)
    (hwrong : KnownWrong (⟨i, r, e, a, w⟩ :: log) held') :
    HandInv (⟨i, r, e, a, w⟩ :: log) w' b' held' := by
  have hloc j := loc_cons_eq (T := Attempts cfg st) i j r e a w log
  refine ⟨hshows, hnodup, hle, fun j hj => ?_, fun j hj => ?_, fun j res hj => ?_, hwrong⟩
  · have := h.active j
    grind
  · have := h.inFlight j
    grind
  · have := h.fits j
    grind

variable (hreset : resets (⟨i, r, e, a, w⟩ : (lockouts cfg st).Entry) = false)
  (hcheck : foundWrong (⟨i, r, e, a, w⟩ : (lockouts cfg st).Entry) = false)

include hreset hcheck

theorem HandInv.wrong_of (hkeep : ∀ j ∈ held, j ≠ i → j ∈ held')
    (hown : (Attempts cfg st).loc i log = .wrong →
      ((Attempts cfg st).loc i log).next e a = .wrong ∧ (i ∈ held → i ∈ held')) :
    KnownWrong (⟨i, r, e, a, w⟩ :: log) held' := by
  unfold KnownWrong
  rw [wrongSince_other hreset hcheck]
  refine ⟨h.wrong.1, fun j hj => ?_⟩
  have := h.wrong.2 j hj
  have := loc_cons_eq (T := Attempts cfg st) i j r e a w log
  grind

theorem HandInv.frame (hnext : ((Attempts cfg st).loc i log).next e a = (Attempts cfg st).loc i log)
    (hshows : st.Shows cfg w'.now w'.state b) : HandInv (⟨i, r, e, a, w⟩ :: log) w' b held := by
  refine h.step_of hshows h.nodup h.le (fun _ hj => .inr hj) (fun _ hj _ => hj) ?_ ?_ ?_
    (h.wrong_of hreset hcheck (fun _ hj _ => hj) fun hw => ⟨hnext.trans hw, id⟩)
  all_goals rw [hnext]
  exacts [h.active i, h.inFlight i, h.fits i]

theorem HandInv.leave (hnext : ((Attempts cfg st).loc i log).next e a = .over)
    (hm : (Attempts cfg st).loc i log ≠ .wrong) (hshows : st.Shows cfg w'.now w'.state b')
    (hle : b.counted cfg ≤ b'.counted cfg) :
    HandInv (⟨i, r, e, a, w⟩ :: log) w' b' held := by
  refine h.step_of hshows h.nodup (Nat.le_trans h.le hle) (fun _ hj => .inr hj) (fun _ hj _ => hj)
    (by simp [hnext]) (by simp [hnext, Attempt.inFlight]) (by simp [hnext]) ?_
  exact h.wrong_of hreset hcheck (fun _ hj _ => hj) fun hw => absurd hw hm

end

theorem HandInv.reset
    (hnext : (((Attempts cfg st).loc i log).next e a).inFlight = false)
    (hothers : ∀ j, j ≠ i → ((Attempts cfg st).loc j log).inFlight = false)
    (hreset : resets (⟨i, r, e, a, w⟩ : (lockouts cfg st).Entry) = true)
    (hshows : st.Shows cfg w'.now w'.state b') :
    HandInv (⟨i, r, e, a, w⟩ :: log) w' b' [] := by
  have hnone (j : ℕ) : ((Attempts cfg st).loc j (⟨i, r, e, a, w⟩ :: log)).inFlight = false := by
    have := loc_cons_eq (T := Attempts cfg st) i j r e a w log
    grind
  refine ⟨hshows, List.nodup_nil, Nat.zero_le _, by simp, by simp [hnone], fun j res hj => ?_, ?_⟩
  · have := hnone j
    rcases hj with hj | hj <;> rw [hj] at this <;> cases this
  · simp [KnownWrong, wrongSince_reset hreset]

section

variable (h : HandInv log w b held)

include h

theorem HandInv.reserve (hm : (Attempts cfg st).loc i log = .idle) :
    ∃ held', HandInv (⟨i, r, .reserve, (w.reserve cfg).1, w⟩ :: log) (w.reserve cfg).2
      (b.reserve cfg w.now w.nextToken).2 held' := by
  obtain ⟨hres, hshows⟩ := shows_reserve w.nextToken h.shows'
  have hcounted := counted_reserve w.nextToken h.shows'.fits h.shows'.asOf
  have hanswer : (w.reserve cfg).1 = some (b.reserve cfg w.now w.nextToken).1 := hres
  rw [hanswer]
  by_cases hrefused : (b.reserve cfg w.now w.nextToken).1.admission = .refused
  · refine ⟨held, h.leave rfl rfl ?_ (by simp [hm]) hshows (by omega)⟩
    simp [Attempt.next, hrefused]
  · rw [if_neg hrefused] at hcounted
    have hle := h.le
    have hnew : i ∉ held := fun hi => h.active i hi hm
    refine ⟨i :: held, h.step_of hshows (List.nodup_cons.mpr ⟨hnew, h.nodup⟩) ?_ (by simp)
      (by simp +contextual) ?_ (by simp) ?_ ?_⟩
    · rw [List.length_cons]
      omega
    · simp [Attempt.next, hrefused]
    · simpa [Attempt.next, hrefused] using (b.reserve_fits cfg w.now w.nextToken).1
    · exact h.wrong_of rfl rfl (fun _ hj _ => .tail _ hj) (by simp [hm])

theorem HandInv.reserveLost (hm : (Attempts cfg st).loc i log = .idle) :
    HandInv (⟨i, r, .reserve, none, w⟩ :: log) (w.reserve cfg).2
      (b.reserve cfg w.now w.nextToken).2 held := by
  have hcounted := counted_reserve w.nextToken h.shows'.fits h.shows'.asOf
  exact h.leave rfl rfl rfl (by rw [hm]; nofun) (shows_reserve w.nextToken h.shows').2 (by omega)

theorem HandInv.check {res : Reservation} {ok : Bool} (hm : (Attempts cfg st).loc i log = .held res) :
    HandInv (⟨i, r, .checkPassword, ok, w⟩ :: log) w b held := by
  have hmem : i ∈ held := h.inFlight i (by rw [hm]; rfl)
  have hnext : ((Attempts cfg st).loc i log).next .checkPassword ok =
      if ok then .right res else .wrong := by
    rw [hm]
    rfl
  refine h.step_of h.shows' h.nodup h.le (fun _ hj => .inr hj) (fun _ hj _ => hj) ?_
    (fun _ => hmem) ?_ ?_
  · cases ok <;> simp [hnext]
  · cases ok <;> simp [hnext, h.fits i res (.inl hm)]
  · cases ok with
    | true => exact h.wrong_of rfl rfl (fun _ hj _ => hj) (by simp [hm])
    | false =>
      have hnew : i ∉ wrongSince resets log := fun hi => by simpa [hm] using (h.wrong.2 i hi).2
      unfold KnownWrong
      rw [wrongSince_wrong rfl rfl]
      refine ⟨List.nodup_cons.mpr ⟨hnew, h.wrong.1⟩, fun j hj => ?_⟩
      have := loc_cons_eq (T := Attempts cfg st) i j r .checkPassword false w log
      have := h.wrong.2 j
      grind

theorem HandInv.release {res : Reservation} (hm : (Attempts cfg st).loc i log = .right res) :
    HandInv (⟨i, r, .release res, true, w⟩ :: log)
      { w with state := st.release cfg w.now res w.state } (b.release cfg w.now res)
      (held.erase i) := by
  have hmem : i ∈ held := h.inFlight i (by rw [hm]; rfl)
  have hcounted := counted_release cfg h.shows'.asOf res
  have hle := h.le
  have hlen := List.length_erase_of_mem hmem
  have hkeep : ∀ j ∈ held, j ≠ i → j ∈ held.erase i := fun j hj hji =>
    (List.mem_erase_of_ne hji).mpr hj
  refine h.step_of (shows_release (h.fits i res (.inr hm)) h.shows') (h.nodup.erase i) (by omega)
    (fun j hj => .inr (List.mem_of_mem_erase hj)) hkeep ?_ nofun ?_ ?_
  · simp [Attempt.next]
  · simp [Attempt.next]
  · exact h.wrong_of rfl rfl hkeep (by simp [hm])

end

theorem all_lt_of_any_le {x : Option ℕ} {t : ℕ} :
    (x.all fun ends => decide (t < ends)) = !x.any fun ends => decide (ends ≤ t) := by
  cases x with
  | none => rfl
  | some ends => by_cases h : ends ≤ t <;> simp [h, Nat.not_le.mp]

theorem HandInv.wait (h : HandInv log w b held) {ms : ℕ}
    (hok : unhurried log i r (.wait ms) () w = true) :
    ∃ held', HandInv (⟨i, r, .wait ms, (), w⟩ :: log) { w with now := w.now + ms }
      (b.asOf (w.now + ms)) held' := by
  obtain ⟨-, hwindow, hlock⟩ := h.shows'.reads
  have hshows := shows_later (Nat.le_add_right w.now ms) h.shows'
  have hresets : resets (⟨i, r, .wait ms, (), w⟩ : (lockouts cfg st).Entry) =
      (b.lockEnds.any (· ≤ w.now + ms) || b.windowEnds.any (· ≤ w.now + ms)) := by
    rw [← hwindow, ← hlock]
    rfl
  by_cases hreset : resets (⟨i, r, .wait ms, (), w⟩ : (lockouts cfg st).Entry) = true
  · -- something runs out, so nobody is in flight
    have hnone : someInFlight log = false := by
      simp only [unhurried, hwindow, hlock, all_lt_of_any_le] at hok
      rw [hresets] at hreset
      cases hsome : someInFlight log with
      | false => rfl
      | true =>
        rw [hsome] at hok
        cases hl : b.lockEnds.any (· ≤ w.now + ms) <;>
          cases hw : b.windowEnds.any (· ≤ w.now + ms) <;> simp [hl, hw] at hok hreset
    exact ⟨[], .reset (not_inFlight hnone i) (fun j _ => not_inFlight hnone j) hreset hshows⟩
  · rw [Bool.not_eq_true] at hreset
    have hends := hreset
    rw [hresets, Bool.or_eq_false_iff] at hends
    have hsame : b.asOf (w.now + ms) = b :=
      asOf_of_ends (by rw [all_lt_of_any_le, hends.2]; rfl) (by rw [all_lt_of_any_le, hends.1]; rfl)
    rw [hsame] at hshows ⊢
    exact ⟨held, h.frame hreset rfl rfl hshows⟩

variable (log w) in
def LockInv : Prop := ∃ b held, HandInv log w b held

theorem LockInv.step (h : LockInv log w) (hok : orderly log i r e o w = true)
    (hmay : ((Attempts cfg st).loc i log).May e) (hx : exec cfg e o w = some (a, w')) :
    LockInv (⟨i, r, e, a, w⟩ :: log) w' := by
  obtain ⟨b, held, h⟩ := h
  obtain ⟨hunhurried, hclear⟩ := Bool.and_eq_true_iff.mp hok
  cases e with
  | reserve =>
    cases o with
    | done =>
      cases hx
      exact ⟨_, h.reserve hmay⟩
    | failed =>
      cases hx
      exact ⟨b, held, h.leave rfl rfl rfl (by rw [hmay]; nofun) h.shows' (Nat.le_refl _)⟩
    | lost =>
      cases hx
      exact ⟨_, held, h.reserveLost hmay⟩
  | checkPassword =>
    obtain ⟨res, hm⟩ := hmay
    cases hx
    exact ⟨b, held, h.check hm⟩
  | release res =>
    have hm : (Attempts cfg st).loc i log = .right res := hmay
    cases o <;> cases hx
    · exact ⟨b, held, h.leave rfl rfl rfl (by simp [hm]) h.shows' (Nat.le_refl _)⟩
    · exact ⟨_, _, h.release hm⟩
  | clear =>
    obtain ⟨res, hm⟩ := hmay
    cases o <;> cases hx
    · exact ⟨b, held, h.leave rfl rfl rfl (by simp [hm]) h.shows' (Nat.le_refl _)⟩
    · have hothers : othersInFlight i log = false := by simpa using hclear
      exact ⟨.fresh, [], .reset rfl (fun j hji => not_othersInFlight hothers hji) rfl shows_clear⟩
  | wait ms =>
    cases hx
    exact ⟨_, h.wait hunhurried⟩
  | _ => cases hx; exact ⟨b, held, h.frame rfl rfl rfl h.shows'⟩

end

/-! ## Runs -/

def World.fresh (st : Store) (now : ℕ) : World st := { now, state := st.empty }

theorem LockInv.init {cfg : Config} {st : Store} (now : ℕ) :
    LockInv ([] : (lockouts cfg st).Log) (World.fresh st now) :=
  ⟨.fresh, [], shows_empty, List.nodup_nil, Nat.le_refl _, nofun,
    nofun, fun _ _ hj => (by rcases hj with hj | hj <;> cases hj),
    List.nodup_nil, nofun⟩

/-- **Handing back.** If no window, no lock and no other request's clear ends the count under a
request: since its last reset at most `threshold` passwords were found wrong, and the count, also
after a release, is at least their number. -/
theorem hand_back_keeps_budget (cfg : Config) (st : Store) (now : ℕ) (pool : (lockouts cfg st).Pool)
    (hrun : (lockouts cfg st).Reach orderly (Pool.idle (World.fresh st now)) pool) :
    (wrongSince resets pool.log).length ≤ cfg.threshold ∧
      ((wrongSince resets pool.log).length : ℤ) ≤
        st.count cfg pool.shared.now pool.shared.state := by
  have hinv : LockInv pool.log pool.shared :=
    invariant attempts_followed (.init now) (fun h => h.step) hrun
  obtain ⟨b, held, h⟩ := hinv
  have hsub : wrongSince resets pool.log ⊆ held := fun j hj => (h.wrong.2 j hj).1
  have hlen : (wrongSince resets pool.log).length ≤ held.length :=
    (List.subperm_of_subset h.wrong.1 hsub).length_le
  have hle := h.le
  have hthr := counted_le h.shows'.fits
  rw [h.shows'.reads.1]
  constructor <;> omega

def answering (ok commits : Bool) : (lockouts passwordLockout .redis).Oracle
  | .getUser => .ok {}
  | .reserve => .done
  | .checkPassword => ok
  | .change => if commits then .ok () else .error { status := 409, message := "changed meanwhile" }
  | .release _ => true
  | .clear => true
  | .respond _ => ()
  | .wait _ => ()

def guess (i : ℕ) : List (lockouts passwordLockout .redis).Event :=
  .start .changePassword :: List.replicate 4 (.step i (answering false false))

/-- A wrong guess, and then a change with the right password that does not commit. -/
theorem hand_back_keeps_budget_guess : ∃ pool,
    (lockouts passwordLockout .redis).Reach orderly (Pool.idle (World.fresh .redis 0)) pool ∧
      wrongSince resets pool.log = [0] ∧
      ((wrongSince resets pool.log).length : ℤ) ≤
        Store.redis.count passwordLockout pool.shared.now pool.shared.state := by
  obtain ⟨pool, hpool, hwrong⟩ := exists_reach (M := lockouts passwordLockout .redis) orderly
    (World.fresh .redis 0)
    (guess 0 ++ .start .changePassword :: List.replicate 6 (.step 1 (answering true false)))
    (fun pool => wrongSince resets pool.log = [0]) (by decide +kernel)
  exact ⟨pool, hpool, hwrong, (hand_back_keeps_budget passwordLockout .redis 0 pool hpool).2⟩

/-- A window that ends forgets four guesses: eight are checked before any lock. And an attempt that
is handed back after another request's clear takes off a guess counted since. -/
theorem hand_back_after_clear :
    (∃ pool, (lockouts passwordLockout .redis).Reach unhurried
        (Pool.idle (World.fresh .redis 0)) pool ∧
      (wrongSince lockResets pool.log).length = 8) ∧
    ∃ pool, (lockouts passwordLockout .redis).Reach unhurried
        (Pool.idle (World.fresh .redis 0)) pool ∧
      (wrongSince resets pool.log).length = 1 ∧
      Store.redis.count passwordLockout pool.shared.now pool.shared.state = 0 :=
  ⟨exists_reach _ _ (guess 0 ++ guess 1 ++ guess 2 ++ guess 3 ++
      [.start (.wait 3600000), .step 4 (answering true true)] ++
      guess 5 ++ guess 6 ++ guess 7 ++ guess 8) _ (by decide +kernel),
    exists_reach _ _
      (.start .changePassword :: List.replicate 3 (.step 0 (answering true false)) ++
      .start .changePassword :: List.replicate 6 (.step 1 (answering true true)) ++
      guess 2 ++ List.replicate 3 (.step 0 (answering true false))) _ (by decide +kernel)⟩

end Nexara.Lockout
