import Nexara.Lockout.Stores

/-!
# The budget of attempts that both stores keep

What the lockout is for: an account is fresh, has some attempts counted until a time, or is locked
until a time (`Budget`). Both stores show such a budget at every moment (`Shows`), and their
operations do to it what those of `Budget` do, as does the passing of time (`shows_later`).
-/

namespace Nexara.Lockout

inductive Budget where
  | fresh
  | counting (count ends : ℕ)
  | locked (token ends : ℕ)

namespace Budget

variable (cfg : Config) (now : ℕ)

/-- The budget once what has run out is forgotten. -/
def asOf : Budget → Budget
  | .fresh => .fresh
  | .counting c ends => if now < ends then .counting c ends else .fresh
  | .locked t ends => if now < ends then .locked t ends else .fresh

/-- One more attempt on top of `c`, in a window that ends at `ends`. -/
def count (token c ends : ℕ) : Reservation × Budget :=
  if cfg.threshold ≤ c + 1 then
    ({ admission := .admittedLast, attempts := c + 1, retryAfter := cfg.duration,
       token := some token }, .locked token (now + cfg.duration))
  else ({ admission := .admitted, attempts := c + 1 }, .counting (c + 1) ends)

def reserve (token : ℕ) (b : Budget) : Reservation × Budget :=
  match b.asOf now with
  | .fresh => count cfg now token 0 (now + cfg.window)
  | .counting c ends => count cfg now token c ends
  | .locked t ends => ({ admission := .refused, retryAfter := ends - now }, .locked t ends)

def release (res : Reservation) (b : Budget) : Budget :=
  match res.admission, b.asOf now with
  | .admitted, .counting c ends => if c ≤ 1 then .fresh else .counting (c - 1) ends
  | .admittedLast, .locked t ends =>
    if res.token = some t then .counting (cfg.threshold - 1) (now + cfg.window) else .locked t ends
  | _, b => b

/-- How many attempts are counted; a lock stands for all of them. -/
def counted : Budget → ℕ
  | .fresh => 0
  | .counting c _ => c
  | .locked _ _ => cfg.threshold

def windowEnds : Budget → Option ℕ
  | .counting _ ends => some ends
  | _ => none

def lockEnds : Budget → Option ℕ
  | .locked _ ends => some ends
  | _ => none

/-- A count stays below the threshold, and is `0` only where one attempt locks. -/
def Fits : Budget → Prop
  | .counting c _ => c < cfg.threshold ∧ (c = 0 → cfg.threshold = 1)
  | _ => True

end Budget

/-- An attempt that was not the last leaves some, and the last one names its lock. -/
def Reservation.Fits (cfg : Config) (res : Reservation) : Prop :=
  match res.admission with
  | .refused => True
  | .admitted => 1 < cfg.threshold
  | .admittedLast => res.token.isSome = true

namespace Budget

variable {cfg : Config} {now token : ℕ}

theorem count_fits {c ends : ℕ} :
    (count cfg now token c ends).1.Fits cfg ∧ (count cfg now token c ends).2.Fits cfg := by
  unfold count
  split_ifs with hlast
  · exact ⟨rfl, trivial⟩
  · exact ⟨show 1 < cfg.threshold by omega, by omega, fun hc => by omega⟩

variable (now) in
theorem asOf_fits {b : Budget} (h : b.Fits cfg) : (b.asOf now).Fits cfg := by
  cases b <;> grind [asOf, Fits]

variable (cfg now token) in
theorem reserve_fits (b : Budget) :
    (b.reserve cfg now token).1.Fits cfg ∧ (b.reserve cfg now token).2.Fits cfg := by
  unfold reserve
  split
  · exact count_fits
  · exact count_fits
  · exact ⟨trivial, trivial⟩

variable (now) in
theorem release_fits {b : Budget} (h : b.Fits cfg) (res : Reservation) :
    (b.release cfg now res).Fits cfg := by
  have hasOf : (b.asOf now).Fits cfg := asOf_fits now h
  have hthr := cfg.threshold_pos
  unfold release
  split
  · next c ends _ heq =>
    rw [heq] at hasOf
    obtain ⟨hlt, -⟩ := hasOf
    split_ifs
    · trivial
    · refine ⟨by omega, fun hc => by omega⟩
  · split_ifs
    · refine ⟨by omega, fun hc => by omega⟩
    · trivial
  · exact hasOf

end Budget

/-! ## What the stores show -/

def Keys.Shows (now : ℕ) (keys : Keys) : Budget → Prop
  | .fresh => Key.get now keys.fail = none ∧ Key.get now keys.lock = none
  | .counting c ends =>
      Key.get now keys.fail = some ⟨c, some ends⟩ ∧ now < ends ∧ Key.get now keys.lock = none
  | .locked t ends =>
      Key.get now keys.fail = none ∧ Key.get now keys.lock = some ⟨t, some ends⟩ ∧ now < ends

def Entry.Shows (now : ℕ) (e : Entry) : Budget → Prop
  | .fresh => e.windowEnds ≤ now ∧ e.lockedUntil ≤ now
  | .counting c ends =>
      e.attempts = c ∧ e.windowEnds = ends ∧ now < ends ∧ e.lockedUntil ≤ now
  | .locked t ends =>
      e.windowEnds ≤ now ∧ e.lockToken = some t ∧ e.lockedUntil = ends ∧ now < ends

def Store.Shows (cfg : Config) (now : ℕ) : (st : Store) → st.State → Budget → Prop
  | .redis, keys, b => b.Fits cfg ∧ keys.Shows now b
  | .memory, some e, b => b.Fits cfg ∧ e.Shows now b
  | .memory, none, b => b = .fresh

section

variable {α : Type} {now : ℕ} {key : Option (Key α)} {v : α} {t : ℕ}

@[simp] theorem get_none : Key.get now (none : Option (Key α)) = none := rfl

theorem get_some_of_lt (h : now < t) : Key.get now (some ⟨v, some t⟩) = some ⟨v, some t⟩ := by
  simp [Key.get, h]

theorem get_some_of_le (h : t ≤ now) : Key.get now (some ⟨v, some t⟩) = none := by
  simp [Key.get, h]

theorem get_of_get_none {now' : ℕ} (hle : now ≤ now') (h : Key.get now key = none) :
    Key.get now' key = none := by
  rcases key with _ | ⟨v, _ | t⟩
  · rfl
  · simp [Key.get] at h
  · by_cases ht : now < t
    · rw [get_some_of_lt ht] at h
      cases h
    · exact get_some_of_le (by omega)

theorem eq_of_get_some {k : Key α} (h : Key.get now key = some k) : key = some k :=
  (Option.filter_eq_some_iff.mp h).1

end

/-! ## Redis keeps the budget -/

section

variable {cfg : Config} {now token : ℕ} {keys : Keys} {b : Budget}

theorem Keys.Shows.asOf (h : keys.Shows now b) : b.asOf now = b := by
  cases b with
  | fresh => rfl
  | counting c ends => exact if_pos h.2.1
  | locked t ends => exact if_pos h.2.2

theorem reserve_of_unlocked {fail : Key ℤ} (hlock : Key.get now keys.lock = none)
    (hincr : Key.incrBy 1 now keys.fail = fail) :
    reservePasswordAttempt cfg now token keys =
      if cfg.threshold ≤ fail.value then
        ((1, fail.value, (cfg.duration : ℤ)),
          { fail := none, lock := some ⟨token, some (now + cfg.duration)⟩ })
      else ((0, fail.value, 0),
        { keys with fail := some (if fail.value = 1 ∨ Key.pttl now (some fail) < 0
            then fail.pexpire now cfg.window else fail) }) := by
  have hwait : Key.pttl now keys.lock = -2 := by simp [Key.pttl, hlock]
  have hvalue (p : Prop) [Decidable p] :
      (if p then fail.pexpire now cfg.window else fail).value = fail.value := by
    split_ifs <;> rfl
  simp [reservePasswordAttempt, hwait, hincr, hvalue]

variable (token) in
theorem redis_reserve (hfit : b.Fits cfg) (h : keys.Shows now b) :
    (redisReserve cfg now token keys).1 = some (b.reserve cfg now token).1 ∧
      (redisReserve cfg now token keys).2.Shows now (b.reserve cfg now token).2 := by
  have hdur := cfg.duration_pos
  have hwin := cfg.duration_le
  cases b with
  | fresh =>
    obtain ⟨hfail, hlock⟩ := h
    have hincr : Key.incrBy 1 now keys.fail = { value := 1 } := by simp [Key.incrBy, hfail]
    unfold redisReserve
    rw [reserve_of_unlocked hlock hincr]
    by_cases hlast : cfg.threshold ≤ 1
    · have hlast' : (cfg.threshold : ℤ) ≤ 1 := by omega
      simp [Budget.reserve, Budget.asOf, Budget.count, hlast, hlast', Keys.Shows, get_some_of_lt,
        hdur]
    · have hlast' : ¬ (cfg.threshold : ℤ) ≤ 1 := by omega
      have hlt : now < now + cfg.window := by omega
      simp [Budget.reserve, Budget.asOf, Budget.count, hlast, hlast', Keys.Shows, get_some_of_lt,
        hlock, Key.pexpire, hlt]
  | counting c ends =>
    obtain ⟨hfail, hlt, hlock⟩ := h
    have hincr : Key.incrBy 1 now keys.fail = ⟨c + 1, some ends⟩ := by simp [Key.incrBy, hfail]
    unfold redisReserve
    rw [reserve_of_unlocked hlock hincr]
    by_cases hlast : cfg.threshold ≤ c + 1
    · have hlast' : (cfg.threshold : ℤ) ≤ c + 1 := by omega
      simp [Budget.reserve, Budget.asOf, Budget.count, hlast, hlast', hlt, Keys.Shows,
        get_some_of_lt, hdur]
    · -- the counter was there, so it keeps the window it has
      have hlast' : ¬ (cfg.threshold : ℤ) ≤ c + 1 := by omega
      have hc : c ≠ 0 := fun hc => by have := hfit.2 hc; omega
      have hkeep : ¬ ((c : ℤ) + 1 = 1 ∨ Key.pttl now (some (⟨c + 1, some ends⟩ : Key ℤ)) < 0) := by
        simp only [Key.pttl, get_some_of_lt hlt]
        omega
      rw [if_neg hlast', if_neg hkeep]
      simp [Budget.reserve, Budget.asOf, Budget.count, hlast, hlt, Keys.Shows, get_some_of_lt,
        hlock]
  | locked t ends =>
    obtain ⟨hfail, hlock, hlt⟩ := h
    have hwait : Key.pttl now keys.lock = ends - now := by simp [Key.pttl, hlock]
    simp [redisReserve, reservePasswordAttempt, hwait, Budget.reserve, Budget.asOf, hlt,
      Keys.Shows, hfail, hlock]

theorem redis_release {res : Reservation} (hres : res.Fits cfg) (h : keys.Shows now b) :
    (redisRelease cfg now res keys).Shows now (b.release cfg now res) := by
  have hwin := cfg.lt_window now
  have hcast : ((cfg.threshold - 1 : ℕ) : ℤ) = cfg.threshold - 1 :=
    Int.ofNat_sub cfg.threshold_pos
  unfold redisRelease Budget.release
  rw [h.asOf]
  cases hadm : res.admission with
  | refused => cases b <;> exact h
  | admitted =>
    -- a release that finds the counter gone leaves it gone
    cases b with
    | counting c ends =>
      obtain ⟨hfail, hlt, hlock⟩ := h
      by_cases hc : c ≤ 1
      · have hc' : (c : ℤ) + -1 ≤ 0 := by omega
        simp [releasePasswordAttempt, Key.incrBy, hfail, hc, hc', Keys.Shows, hlock]
      · have hc' : ¬ (c : ℤ) + -1 ≤ 0 := by omega
        have hcast : ((c - 1 : ℕ) : ℤ) = c + -1 := by omega
        simp only [releasePasswordAttempt, Key.incrBy, hfail, if_neg hc, if_neg hc']
        exact ⟨by rw [get_some_of_lt hlt, hcast], hlt, hlock⟩
    | _ => simp [Keys.Shows] at h; simp [releasePasswordAttempt, Key.incrBy, Keys.Shows, h]
  | admittedLast =>
    have hsome : res.token.isSome = true := by simpa [Reservation.Fits, hadm] using hres
    obtain ⟨t', htok⟩ := Option.isSome_iff_exists.mp hsome
    rw [htok]
    cases b with
    | locked t ends =>
      obtain ⟨hfail, hlock, hlt⟩ := h
      simp only [releasePasswordAttempt, hlock, Option.map_some, Option.some.injEq, eq_comm]
      split_ifs
      · exact ⟨by rw [get_some_of_lt hwin, hcast], hwin, rfl⟩
      · exact ⟨hfail, hlock, hlt⟩
    | _ => simp [Keys.Shows] at h; simp [releasePasswordAttempt, Keys.Shows, h]

theorem Keys.Shows.later {now' : ℕ} (hle : now ≤ now') (h : keys.Shows now b) :
    keys.Shows now' (b.asOf now') := by
  cases b with
  | fresh => exact ⟨get_of_get_none hle h.1, get_of_get_none hle h.2⟩
  | counting c ends =>
    obtain ⟨hfail, -, hlock⟩ := h
    rw [Budget.asOf]
    split_ifs with hlt
    · exact ⟨eq_of_get_some hfail ▸ get_some_of_lt hlt, hlt, get_of_get_none hle hlock⟩
    · exact ⟨eq_of_get_some hfail ▸ get_some_of_le (by omega), get_of_get_none hle hlock⟩
  | locked t ends =>
    obtain ⟨hfail, hlock, -⟩ := h
    rw [Budget.asOf]
    split_ifs with hlt
    · exact ⟨get_of_get_none hle hfail, eq_of_get_some hlock ▸ get_some_of_lt hlt, hlt⟩
    · exact ⟨get_of_get_none hle hfail, eq_of_get_some hlock ▸ get_some_of_le (by omega)⟩

end

/-! ## So does process memory -/

section

variable {cfg : Config} {now token : ℕ} {e : Entry} {entry : Option Entry} {b : Budget}

theorem Entry.Shows.asOf (h : e.Shows now b) : b.asOf now = b := by
  cases b with
  | fresh => rfl
  | counting c ends => exact if_pos h.2.2.1
  | locked t ends => exact if_pos h.2.2.2

theorem sweep_fresh (h : e.Shows now .fresh) : sweep now (some e) = none := by
  obtain ⟨hw, hl⟩ := h
  simp [sweep, hw, hl]

variable (cfg token) in
theorem countAttempt_shows {c ends : ℕ} (hc : e.attempts = c) (hends : e.windowEnds = ends)
    (hlt : now < ends) (hlock : e.lockedUntil ≤ now) :
    (countAttempt cfg now token e).1 = (Budget.count cfg now token c ends).1 ∧
      (countAttempt cfg now token e).2.Shows now (Budget.count cfg now token c ends).2 := by
  have hdur := cfg.duration_pos
  unfold countAttempt Budget.count
  rw [hc]
  by_cases hlast : cfg.threshold ≤ c + 1
  · have hlast' : (cfg.threshold : ℤ) ≤ c + 1 := by omega
    rw [if_pos hlast, if_pos hlast']
    refine ⟨rfl, ?_⟩
    simp [Entry.Shows, hdur]
  · have hlast' : ¬ (cfg.threshold : ℤ) ≤ c + 1 := by omega
    rw [if_neg hlast, if_neg hlast']
    refine ⟨rfl, ?_⟩
    simp [Entry.Shows, hends, hlt, hlock]

variable (cfg token) in
theorem memory_reserve_fresh (hentry : sweep now entry = none) :
    (memoryReserve cfg now token entry).1 = (Budget.fresh.reserve cfg now token).1 ∧
      ∃ e, (memoryReserve cfg now token entry).2 = some e ∧
        e.Shows now (Budget.fresh.reserve cfg now token).2 := by
  have hwin := cfg.lt_window now
  have hcount := countAttempt_shows cfg token (e := { windowEnds := now + cfg.window }) (c := 0) rfl
    rfl hwin (Nat.zero_le now)
  unfold memoryReserve
  rw [hentry]
  exact ⟨hcount.1, _, rfl, hcount.2⟩

variable (cfg token) in
theorem memory_reserve (h : e.Shows now b) :
    (memoryReserve cfg now token (some e)).1 = (b.reserve cfg now token).1 ∧
      ∃ e', (memoryReserve cfg now token (some e)).2 = some e' ∧
        e'.Shows now (b.reserve cfg now token).2 := by
  cases b with
  | fresh => exact memory_reserve_fresh cfg token (sweep_fresh h)
  | counting c ends =>
    obtain ⟨hc, hends, hlt, hlock⟩ := h
    have hsweep : sweep now (some e) = some e := by simp [sweep, Option.filter, hends, hlt]
    have hopen : (some e).filter (fun e => decide (now < e.lockedUntil)) = none := by
      simp [Option.filter, hlock]
    have hcurrent : Entry.current cfg now (some e) = e := by simp [Entry.current, hends, hlt]
    have hcount := countAttempt_shows cfg token hc hends hlt hlock
    unfold memoryReserve Budget.reserve
    rw [hsweep, hopen, hcurrent]
    simp only [Budget.asOf, if_pos hlt]
    exact ⟨hcount.1, _, rfl, hcount.2⟩
  | locked t ends =>
    obtain ⟨hwin, htok, hends, hlt⟩ := h
    have hsweep : sweep now (some e) = some e := by simp [sweep, Option.filter, hends, hlt]
    have hlocked : (some e).filter (fun e => decide (now < e.lockedUntil)) = some e := by
      simp [Option.filter, hends, hlt]
    unfold memoryReserve Budget.reserve
    rw [hsweep, hlocked]
    simp only [Budget.asOf, if_pos hlt, hends]
    exact ⟨trivial, e, rfl, hwin, htok, hends, hlt⟩

theorem memory_release {res : Reservation} (hres : res.Fits cfg) (hfit : b.Fits cfg)
    (h : e.Shows now b) :
    match memoryRelease cfg now res (some e) with
    | some e' => e'.Shows now (b.release cfg now res)
    | none => b.release cfg now res = .fresh := by
  have hwin := cfg.lt_window now
  have hcast : ((cfg.threshold - 1 : ℕ) : ℤ) = cfg.threshold - 1 :=
    Int.ofNat_sub cfg.threshold_pos
  unfold memoryRelease Budget.release
  rw [h.asOf]
  unfold Reservation.Fits at hres
  cases hadm : res.admission with
  | refused => cases b <;> exact h
  | admitted =>
    cases b with
    | counting c ends =>
      obtain ⟨hc, hends, hlt, hlock⟩ := h
      rw [hadm] at hres
      have hpos : c ≠ 0 := fun h0 => by have := hfit.2 h0; omega
      simp only [Entry.giveBack]
      split_ifs <;> simp [Entry.Shows] <;> omega
    | _ =>
      -- nothing is counted, or the lock has taken the count's place
      have hno : ¬ (0 < e.attempts ∧ now < e.windowEnds) := fun hlt => by
        have := h.1
        omega
      simp only [Entry.giveBack, if_neg hno]
      exact h
  | admittedLast =>
    cases b with
    | locked t ends =>
      obtain ⟨hw, ht, hends, hlt⟩ := h
      simp only [ht, hends, hlt, true_and, eq_comm]
      split_ifs
      · exact ⟨hcast.symm, rfl, hwin, Nat.zero_le now⟩
      · exact ⟨hw, ht, hends, hlt⟩
    | _ =>
      have hno : ¬ (now < e.lockedUntil ∧ e.lockToken = res.token) := fun hlt => by
        simp only [Entry.Shows] at h
        omega
      simp only [if_neg hno]
      exact h

theorem Entry.Shows.later {now' : ℕ} (hle : now ≤ now') (h : e.Shows now b) :
    e.Shows now' (b.asOf now') := by
  cases b <;> grind [Entry.Shows, Budget.asOf]

end

/-! ## The interface -/

section

variable {cfg : Config} {now token : ℕ} {st : Store} {s : st.State} {b : Budget}

theorem shows_empty : st.Shows cfg now st.empty .fresh := by
  cases st with
  | redis => exact ⟨trivial, rfl, rfl⟩
  | memory => rfl

theorem shows_clear : st.Shows cfg now (st.clear s) .fresh := by
  cases st with
  | redis => exact ⟨trivial, rfl, rfl⟩
  | memory => rfl

section

variable (h : st.Shows cfg now s b)

include h

theorem Store.Shows.fits : b.Fits cfg := by
  cases st with
  | redis => exact h.1
  | memory =>
    cases s with
    | some e => exact h.1
    | none =>
      obtain rfl : b = .fresh := h
      trivial

theorem Store.Shows.asOf : b.asOf now = b := by
  cases st with
  | redis => exact h.2.asOf
  | memory =>
    cases s with
    | some e => exact h.2.asOf
    | none =>
      obtain rfl : b = .fresh := h
      rfl

variable (token) in
/-- Both stores answer an attempt as the budget they show does, and show what is left of it. -/
theorem shows_reserve :
    (st.reserve cfg now token s).1 = some (b.reserve cfg now token).1 ∧
      st.Shows cfg now (st.reserve cfg now token s).2 (b.reserve cfg now token).2 := by
  have hfits := (b.reserve_fits cfg now token).2
  cases st with
  | redis =>
    obtain ⟨hres, hshows⟩ := redis_reserve token h.1 h.2
    exact ⟨hres, hfits, hshows⟩
  | memory =>
    have hmem : (memoryReserve cfg now token s).1 = (b.reserve cfg now token).1 ∧
        ∃ e, (memoryReserve cfg now token s).2 = some e ∧
          e.Shows now (b.reserve cfg now token).2 := by
      cases s with
      | some e => exact memory_reserve cfg token h.2
      | none =>
        replace h : b = .fresh := h
        subst h
        exact memory_reserve_fresh cfg token rfl
    obtain ⟨hres, e, he, hshows⟩ := hmem
    refine ⟨congrArg some hres, ?_⟩
    show Store.Shows cfg now .memory (memoryReserve cfg now token s).2 _
    rw [he]
    exact ⟨hfits, hshows⟩

end

theorem shows_release {res : Reservation} (hres : res.Fits cfg) (h : st.Shows cfg now s b) :
    st.Shows cfg now (st.release cfg now res s) (b.release cfg now res) := by
  have hfits := Budget.release_fits now h.fits res
  cases st with
  | redis => exact ⟨hfits, redis_release hres h.2⟩
  | memory =>
    cases s with
    | none =>
      obtain rfl : b = .fresh := h
      unfold Budget.release
      cases res.admission <;> rfl
    | some e =>
      have hmem := memory_release hres h.1 h.2
      show Store.Shows cfg now .memory (memoryRelease cfg now res (some e)) _
      cases hrel : memoryRelease cfg now res (some e) with
      | none =>
        rwa [hrel] at hmem
      | some e' =>
        rw [hrel] at hmem
        exact ⟨hfits, hmem⟩

theorem shows_later {now' : ℕ} (hle : now ≤ now') (h : st.Shows cfg now s b) :
    st.Shows cfg now' s (b.asOf now') := by
  have hfits := Budget.asOf_fits now' h.fits
  cases st with
  | redis => exact ⟨hfits, h.2.later hle⟩
  | memory =>
    cases s with
    | some e => exact ⟨hfits, h.2.later hle⟩
    | none =>
      obtain rfl : b = .fresh := h
      rfl

/-- The count can be read off the budget, and so can the ends of the window and of the lock. -/
theorem Store.Shows.reads (h : st.Shows cfg now s b) : st.count cfg now s = b.counted cfg ∧
    st.windowEnds now s = b.windowEnds ∧ st.lockEnds now s = b.lockEnds := by
  cases st with
  | redis =>
    cases b <;> simp [Store.Shows, Keys.Shows] at h <;> simp [Store.count, Budget.counted,
      Store.windowEnds, Store.lockEnds, Budget.windowEnds, Budget.lockEnds, h]
  | memory =>
    cases s with
    | none =>
      obtain rfl : b = .fresh := h
      exact ⟨rfl, rfl, rfl⟩
    | some e =>
      cases b <;> simp [Store.Shows, Entry.Shows] at h <;> simp [Store.count, Budget.counted,
        Store.windowEnds, Store.lockEnds, Budget.windowEnds, Budget.lockEnds, Option.filter, h,
        Nat.not_lt.mpr]

end

end Nexara.Lockout
