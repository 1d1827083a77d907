import Nexara.Lockout.Budget
import Mathlib.Tactic.Ring

/-!
# The two stores decide alike

`memoryPasswordLockout` is meant to make the decisions of the script. The process counts nanoseconds
and Redis whole milliseconds, so between two milliseconds a lock may be over in the one store and
not in the other (`stores_disagree_within_millisecond`). Calls that are whole milliseconds apart get
the same answers (`stores_agree`).
-/

namespace Nexara.Lockout

/-! ## Two clocks -/

/-- In nanoseconds. -/
def millisecond : ℕ := 1000000

def Config.scale (cfg : Config) (u : ℕ) (hu : 0 < u) : Config where
  threshold := cfg.threshold
  window := u * cfg.window
  duration := u * cfg.duration
  threshold_pos := cfg.threshold_pos
  duration_pos := Nat.mul_pos hu cfg.duration_pos
  duration_le := Nat.mul_le_mul_left u cfg.duration_le

namespace Store

/-- How many units of its clock the store counts in a millisecond. -/
def unit : Store → ℕ
  | redis => 1
  | memory => millisecond

theorem unit_pos (st : Store) : 0 < st.unit := by
  cases st <;> decide

/-- `passwordLockoutWindow.Milliseconds()`, or the durations themselves. -/
def config (cfg : Config) (st : Store) : Config := cfg.scale st.unit st.unit_pos

/-- What the store's clock shows at a time in nanoseconds. -/
def clock (now : ℕ) : Store → ℕ
  | redis => now / millisecond
  | memory => now

/-- `time.Duration(vals[2]) * time.Millisecond`, for Redis. -/
def nanoseconds (wait : ℤ) : Store → ℤ
  | redis => wait * millisecond
  | memory => wait

/-- What a `reserve` does to the accounts it is not for. -/
def sweepOthers (now : ℕ) : (st : Store) → st.State → st.State
  | redis, keys => keys
  | memory, entry => sweep now entry

def decision (st : Store) (res : Reservation) : Admission × ℤ × ℤ :=
  (res.admission, res.attempts, st.nanoseconds res.retryAfter)

end Store

/-! ## Sequences of calls -/

inductive Op where
  | reserve (account : ℕ)
  /-- Gives back what the `reserve` of this number answered. -/
  | release (account : ℕ) (reservation : ℕ)
  | clear (account : ℕ)

structure Call where
  now : ℕ
  op : Op

/-- The store's accounts, and the answers it has given. -/
structure Run (st : Store) where
  accounts : ℕ → st.State := fun _ => st.empty
  answers : List (Option Reservation) := []

namespace Run

variable (cfg : Config) (token : ℕ → ℕ) {st : Store}

/-- One call; `token` is what `uuid.NewString` gives the reserves in turn. -/
def step (r : Run st) (c : Call) : Run st :=
  match c.op with
  | .reserve a =>
    let (res, s) := st.reserve (st.config cfg) (st.clock c.now) (token r.answers.length) (r.accounts a)
    { accounts := fun b => if b = a then s else st.sweepOthers (st.clock c.now) (r.accounts b)
      answers := r.answers ++ [res] }
  | .release a k =>
    match r.answers[k]? with
    | some (some res) =>
      let s := st.release (st.config cfg) (st.clock c.now) res (r.accounts a)
      { r with accounts := Function.update r.accounts a s }
    | _ => r
  | .clear a => { r with accounts := Function.update r.accounts a (st.clear (r.accounts a)) }

variable (st) in
def after (calls : List Call) : Run st := calls.foldl (step cfg token) {}

def decisions (r : Run st) : List (Option (Admission × ℤ × ℤ)) := r.answers.map (Option.map st.decision)

end Run

/-! ## The budgets that both stores follow -/

/-- The answer with the time in units of `u` and the locks named by `token`. -/
def Reservation.on (token : ℕ → ℕ) (u : ℕ) (res : Reservation) : Reservation :=
  { res with retryAfter := u * res.retryAfter, token := res.token.map token }

namespace Budget

/-- The budget on a clock that shows `u * t + φ` at the time `t`, its lock named by `token`. -/
def on (token : ℕ → ℕ) (u φ : ℕ) : Budget → Budget
  | .fresh => .fresh
  | .counting c ends => .counting c (u * ends + φ)
  | .locked t ends => .locked (token t) (u * ends + φ)

variable {cfg : Config} {token : ℕ → ℕ} {u φ now : ℕ} (hu : 0 < u) {b : Budget}

include hu

theorem asOf_on : (b.on token u φ).asOf (u * now + φ) = (b.asOf now).on token u φ := by
  have hlt (ends : ℕ) : u * now + φ < u * ends + φ ↔ now < ends := by
    rw [Nat.add_lt_add_iff_right, Nat.mul_lt_mul_left hu]
  cases b <;> simp only [on, asOf, hlt] <;> split_ifs <;> rfl

theorem count_on {i c ends ends' : ℕ} (hends : ends' = u * ends + φ) :
    count (cfg.scale u hu) (u * now + φ) (token i) c ends' =
      ((count cfg now i c ends).1.on token u, (count cfg now i c ends).2.on token u φ) := by
  have hlock : u * now + φ + u * cfg.duration = u * (now + cfg.duration) + φ := by ring
  subst hends
  unfold count
  by_cases hlast : cfg.threshold ≤ c + 1 <;>
    simp [Config.scale, Reservation.on, on, hlock, hlast]

theorem reserve_on {i : ℕ} :
    (b.on token u φ).reserve (cfg.scale u hu) (u * now + φ) (token i) =
      ((b.reserve cfg now i).1.on token u, (b.reserve cfg now i).2.on token u φ) := by
  unfold reserve
  rw [asOf_on hu]
  cases b.asOf now with
  | fresh => exact count_on hu (by simp only [Config.scale]; ring)
  | counting c ends => exact count_on hu rfl
  | locked t ends =>
    have hwait : ((u * ends + φ : ℕ) : ℤ) - (u * now + φ : ℕ) = u * (ends - now) := by
      push_cast
      ring
    simp only [on, hwait]
    rfl

theorem release_on (htoken : token.Injective) {res : Reservation} :
    (b.on token u φ).release (cfg.scale u hu) (u * now + φ) (res.on token u) =
      (b.release cfg now res).on token u φ := by
  have hwin : u * now + φ + u * cfg.window = u * (now + cfg.window) + φ := by ring
  have hsame (t : ℕ) : res.token.map token = some (token t) ↔ res.token = some t := by
    rw [← Option.map_some, (Option.map_injective htoken).eq_iff]
  unfold release
  rw [asOf_on hu]
  cases b.asOf now <;> cases hadm : res.admission <;>
    simp only [on, Reservation.on, hadm, hsame, Config.scale, hwin] <;> split_ifs <;> rfl

end Budget

/-- What both stores stand for: the budgets of the accounts, and the answers. -/
structure Plan where
  budgets : ℕ → Budget := fun _ => .fresh
  answers : List Reservation := []

namespace Plan

variable (cfg : Config) (now : ℕ)

def later (p : Plan) : Plan := { p with budgets := fun a => (p.budgets a).asOf now }

def step (p : Plan) : Op → Plan
  | .reserve a =>
    let (res, b) := (p.budgets a).reserve cfg now p.answers.length
    { budgets := Function.update p.budgets a b, answers := p.answers ++ [res] }
  | .release a k =>
    match p.answers[k]? with
    | some res =>
      { p with budgets := Function.update p.budgets a ((p.budgets a).release cfg now res) }
    | none => p
  | .clear a => { p with budgets := Function.update p.budgets a .fresh }

end Plan

theorem shows_sweepOthers {cfg : Config} {now : ℕ} {st : Store} {s : st.State} {b : Budget}
    (h : st.Shows cfg now s b) : st.Shows cfg now (st.sweepOthers now s) b := by
  cases st with
  | redis => exact h
  | memory =>
    rcases s with _ | e
    · exact h
    · show Store.Shows cfg now .memory (sweep now (some e)) b
      cases b with
      | fresh =>
        rw [sweep_fresh h.2]
        rfl
      | counting c ends =>
        have hopen : now < e.windowEnds := by
          obtain ⟨-, -, hends, hlt, -⟩ := h
          omega
        simpa [sweep, Option.filter, hopen] using h
      | locked t ends =>
        have hlocked : now < e.lockedUntil := by
          obtain ⟨-, -, -, hends, hlt⟩ := h
          omega
        simpa [sweep, Option.filter, hlocked] using h

/-- The fraction of a millisecond that the store's clock shows. -/
def Store.phase (φ : ℕ) : Store → ℕ
  | redis => 0
  | memory => φ

theorem Store.clock_eq {φ t : ℕ} (ht : t % millisecond = φ) (st : Store) :
    st.clock t = st.unit * (t / millisecond) + st.phase φ := by
  cases st with
  | redis => exact (Nat.one_mul _).symm
  | memory => exact ht ▸ (Nat.div_add_mod t millisecond).symm

namespace Run

variable {cfg : Config} {token : ℕ → ℕ} {φ now : ℕ} {st : Store} {r : Run st} {p : Plan}

/-- The store shows the plan's budgets at a millisecond, and has answered as the plan has. -/
structure Tracks (cfg : Config) (token : ℕ → ℕ) (φ now : ℕ) (r : Run st) (p : Plan) : Prop where
  answers : r.answers = p.answers.map fun res => some (res.on token st.unit)
  fits : ∀ res ∈ p.answers, res.Fits cfg
  shows : ∀ a, st.Shows (st.config cfg) (st.unit * now + st.phase φ) (r.accounts a)
    ((p.budgets a).on token st.unit (st.phase φ))

theorem Tracks.later {now' : ℕ} (h : Tracks cfg token φ now r p) (hle : now ≤ now') :
    Tracks cfg token φ now' r (p.later now') where
  answers := h.answers
  fits := h.fits
  shows a := by
    rw [Plan.later, ← Budget.asOf_on st.unit_pos]
    exact shows_later (Nat.add_le_add_right (Nat.mul_le_mul_left _ hle) _) (h.shows a)

theorem Tracks.step (htoken : token.Injective) {c : Call} (hphase : c.now % millisecond = φ)
    (h : Tracks cfg token φ (c.now / millisecond) r p) :
    Tracks cfg token φ (c.now / millisecond) (r.step cfg token c)
      (p.step cfg (c.now / millisecond) c.op) := by
  obtain ⟨t, op⟩ := c
  have hclock := st.clock_eq hphase
  cases op with
  | reserve a =>
    have hlen : r.answers.length = p.answers.length := by simp [h.answers]
    have hres := shows_reserve (token p.answers.length) (h.shows a)
    rw [Store.config, Budget.reserve_on st.unit_pos] at hres
    refine ⟨?_, fun res hmem => ?_, fun b => ?_⟩
    · simp [Run.step, Plan.step, hclock, Store.config, hres.1, h.answers]
    · rcases List.mem_append.mp hmem with hmem | hmem
      · exact h.fits res hmem
      · rw [List.mem_singleton.mp hmem]
        exact (Budget.reserve_fits cfg _ _ _).1
    · simp only [Run.step, Plan.step, hlen, hclock, Function.update_apply]
      split_ifs with hb
      · exact hres.2
      · exact shows_sweepOthers (h.shows b)
  | release a k =>
    cases hk : p.answers[k]? with
    | none => simpa [Run.step, Plan.step, h.answers, hk] using h
    | some res =>
      have hfits : (res.on token st.unit).Fits (st.config cfg) := by
        have hres := h.fits res (List.mem_of_getElem? hk)
        unfold Reservation.Fits Reservation.on at *
        cases hadm : res.admission <;> simp_all [Store.config, Config.scale]
      have hrel := shows_release hfits (h.shows a)
      rw [Store.config, Budget.release_on st.unit_pos htoken] at hrel
      have hk' : r.answers[k]? = some (some (res.on token st.unit)) := by simp [h.answers, hk]
      simp only [Run.step, Plan.step, hk, hk']
      refine ⟨h.answers, h.fits, fun b => ?_⟩
      simp only [Function.update_apply, hclock]
      split_ifs with hb
      · exact hrel
      · exact h.shows b
  | clear a =>
    refine ⟨h.answers, h.fits, fun b => ?_⟩
    simp only [Run.step, Plan.step, Function.update_apply]
    split_ifs with hb
    · exact shows_clear
    · exact h.shows b

theorem exists_tracks (cfg : Config) {calls : List Call}
    (hmono : calls.Pairwise fun c d => c.now ≤ d.now)
    (hphase : ∀ c ∈ calls, c.now % millisecond = φ) :
    ∃ p : Plan, ∀ (st : Store) (token : ℕ → ℕ), token.Injective →
      ∃ now, Tracks cfg token φ now (after cfg token st calls) p := by
  suffices hgen : ∀ p now, (∀ c ∈ calls, now ≤ c.now) → ∃ p' : Plan, ∀ (st : Store)
      (token : ℕ → ℕ) (r : Run st), token.Injective →
      Tracks cfg token φ (now / millisecond) r p →
      ∃ now', Tracks cfg token φ now' (calls.foldl (step cfg token) r) p' by
    obtain ⟨p, hp⟩ := hgen {} 0 fun _ _ => Nat.zero_le _
    exact ⟨p, fun st token htoken => hp st token {} htoken ⟨rfl, by simp, fun _ => shows_empty⟩⟩
  induction calls with
  | nil => exact fun p now _ => ⟨p, fun st token r _ h => ⟨_, h⟩⟩
  | cons c calls ih =>
    intro p now hnow
    obtain ⟨hfirst, hmono⟩ := List.pairwise_cons.mp hmono
    have hle := Nat.div_le_div_right (c := millisecond) (hnow c (.head _))
    obtain ⟨p', hp'⟩ := ih hmono (fun d hd => hphase d (.tail _ hd))
      ((p.later (c.now / millisecond)).step cfg (c.now / millisecond) c.op) c.now hfirst
    exact ⟨p', fun st token r htoken h => hp' st token _ htoken
      ((h.later hle).step htoken (hphase c (.head _)))⟩

end Run

theorem Store.decision_on {token : ℕ → ℕ} {res : Reservation} (st : Store) :
    st.decision (res.on token st.unit) = (res.admission, res.attempts, res.retryAfter * millisecond) := by
  cases st <;> simp [decision, Reservation.on, nanoseconds, unit, mul_comm]

/-- **Calls that are whole milliseconds apart are answered alike by both stores.** -/
theorem stores_agree (cfg : Config) {token token' : ℕ → ℕ} (htoken : token.Injective)
    (htoken' : token'.Injective) {calls : List Call} {φ : ℕ}
    (hmono : calls.Pairwise fun c d => c.now ≤ d.now)
    (hphase : ∀ c ∈ calls, c.now % millisecond = φ) :
    (Run.after cfg token .redis calls).decisions =
      (Run.after cfg token' .memory calls).decisions := by
  obtain ⟨p, hp⟩ := Run.exists_tracks cfg hmono hphase
  have hanswers (st : Store) (token : ℕ → ℕ) (h : token.Injective) :
      (Run.after cfg token st calls).decisions = p.answers.map fun res =>
        some (res.admission, res.attempts, res.retryAfter * (millisecond : ℤ)) := by
    obtain ⟨now, htracks⟩ := hp st token h
    simp [Run.decisions, htracks.answers, st.decision_on]
  rw [hanswers _ _ htoken, hanswers _ _ htoken']

/-- Five attempts at one time, and one half an hour later. -/
def sixAttempts (first last : ℕ) : List Call :=
  List.replicate 5 ⟨first, .reserve 0⟩ ++ [⟨last, .reserve 0⟩]

theorem stores_agree_six :
    (Run.after passwordLockout id .redis (sixAttempts 900000 1799999900000)).decisions =
      (Run.after passwordLockout (· + 7) .memory (sixAttempts 900000 1799999900000)).decisions :=
  stores_agree passwordLockout (fun _ _ h => h) (fun _ _ h => Nat.add_right_cancel h)
    (by simp [sixAttempts]) (φ := 900000) (by simp [sixAttempts, millisecond])

/-- Half an hour after the millisecond of the lock, Redis counts the sixth attempt in a new budget;
the process still refuses it. -/
theorem stores_disagree_within_millisecond :
    (Run.after passwordLockout id .redis (sixAttempts 900000 1800000500000)).decisions[5]? =
        some (some (.admitted, 1, 0)) ∧
      (Run.after passwordLockout id .memory (sixAttempts 900000 1800000500000)).decisions[5]? =
        some (some (.refused, 0, 400000)) := by
  decide +kernel

end Nexara.Lockout
