import Mathlib.Data.List.Basic
import Nexara.Lockout.Budget

/-!
# The lock cycle is the ceiling on guesses

At most `threshold` wrong passwords are checked in a cycle, which begins with the first attempt
counted on a fresh account and ends when the count is forgotten or the lock runs out; and two cycles
begin at least `duration` apart, since the window is no shorter than the lock (`Cycle`).
-/

namespace Nexara.Lockout

def Reservation.admits (res : Reservation) : Bool := res.admission ≠ .refused

/-! ## Sequences of attempts -/

/-- The answers to attempts at the given times, each with the token of the lock it would arm. -/
def Store.answers (cfg : Config) (st : Store) :
    List (ℕ × ℕ) → st.State → List (ℕ × Option Reservation)
  | [], _ => []
  | (now, token) :: calls, s =>
    (now, (st.reserve cfg now token s).1) ::
      answers cfg st calls (st.reserve cfg now token s).2

/-- How many attempts are admitted up to time `T`, on an account with no state. -/
def Store.admitted (cfg : Config) (st : Store) (calls : List (ℕ × ℕ)) (T : ℕ) : ℕ :=
  (st.answers cfg calls st.empty).countP fun x => x.1 ≤ T && x.2.any Reservation.admits

/-- The same for a budget. -/
def Budget.answers (cfg : Config) : List (ℕ × ℕ) → Budget → List (ℕ × Option Reservation)
  | [], _ => []
  | (now, token) :: calls, b =>
    (now, some (b.reserve cfg now token).1) :: answers cfg calls (b.reserve cfg now token).2

def Budget.after (cfg : Config) : List (ℕ × ℕ) → Budget → Budget
  | [], b => b
  | (now, token) :: calls, b => after cfg calls (b.reserve cfg now token).2

section

variable {cfg : Config} {st : Store} {s : st.State} {b : Budget}

theorem asOf_asOf {now : ℕ} : (b.asOf now).asOf now = b.asOf now := by
  cases b with
  | fresh => rfl
  | counting c ends | locked t ends =>
    by_cases h : now < ends <;> simp [Budget.asOf, h]

theorem reserve_asOf {now token : ℕ} :
    (b.asOf now).reserve cfg now token = b.reserve cfg now token := by
  unfold Budget.reserve
  rw [asOf_asOf]

theorem answers_eq : ∀ {calls : List (ℕ × ℕ)} {now : ℕ} {s : st.State} {b : Budget},
    st.Shows cfg now s b → calls.Pairwise (fun x y => x.1 ≤ y.1) →
      (∀ x ∈ calls, now ≤ x.1) → st.answers cfg calls s = b.answers cfg calls
  | [], _, _, _, _, _, _ => rfl
  | (now', token) :: calls, now, s, b, h, hsorted, hnow => by
    obtain ⟨hhead, htail⟩ := List.pairwise_cons.mp hsorted
    have hshows := shows_later (hnow _ (.head _)) h
    obtain ⟨hres, hafter⟩ := shows_reserve token hshows
    rw [reserve_asOf] at hres hafter
    unfold Store.answers Budget.answers
    rw [hres, answers_eq hafter htail hhead]

theorem answers_append {calls calls' : List (ℕ × ℕ)} : ∀ {b : Budget},
    b.answers cfg (calls ++ calls') = b.answers cfg calls ++ (b.after cfg calls).answers cfg calls' := by
  induction calls with
  | nil => exact rfl
  | cons x calls ih =>
    intro b
    obtain ⟨now, token⟩ := x
    simp only [List.cons_append, Budget.answers, Budget.after]
    rw [ih]

theorem after_append {calls calls' : List (ℕ × ℕ)} : ∀ {b : Budget},
    b.after cfg (calls ++ calls') = (b.after cfg calls).after cfg calls' := by
  induction calls with
  | nil => exact rfl
  | cons x calls ih => exact ih

end

/-! ## The bound -/

/-- After `n` admitted attempts up to `t`, `q` cycles are over, and the current one began at least
`q` durations after the start. -/
def Cycle (cfg : Config) (t n : ℕ) : Budget → Prop
  | .fresh => n = 0
  | .counting c ends => c < cfg.threshold ∧ ∃ q, q * cfg.duration + cfg.window ≤ ends ∧
      ends ≤ t + cfg.window ∧ n ≤ cfg.threshold * q + c
  | .locked _ ends => ∃ q, q * cfg.duration + cfg.duration ≤ ends ∧ ends ≤ t + cfg.duration ∧
      n ≤ cfg.threshold * q + cfg.threshold

section

variable {cfg : Config} {t n now token : ℕ} {b : Budget}

theorem cycle_count {c ends q : ℕ} (hc : c < cfg.threshold)
    (hstart : q * cfg.duration + cfg.window ≤ ends) (hends : ends ≤ now + cfg.window)
    (hn : n ≤ cfg.threshold * q + c) :
    (Budget.count cfg now token c ends).1.admits = true ∧
      Cycle cfg now (n + 1) (Budget.count cfg now token c ends).2 := by
  unfold Budget.count
  split_ifs with hlast
  · exact ⟨rfl, q, by omega, Nat.le_refl _, by omega⟩
  · exact ⟨rfl, by omega, q, hstart, hends, by omega⟩

theorem cycle_start {q : ℕ} (hq : q * cfg.duration ≤ now) (hn : n ≤ cfg.threshold * q) :
    (Budget.count cfg now token 0 (now + cfg.window)).1.admits = true ∧
      Cycle cfg now (n + 1) (Budget.count cfg now token 0 (now + cfg.window)).2 :=
  cycle_count (q := q) cfg.threshold_pos (by omega) (Nat.le_refl _) (by omega)

variable (token) in
theorem cycle_reserve (h : Cycle cfg t n b) (hle : t ≤ now) :
    Cycle cfg now (n + if (b.reserve cfg now token).1.admits then 1 else 0)
      (b.reserve cfg now token).2 := by
  have hwin := cfg.duration_le
  have hadmitted {c ends : ℕ} (hcount : (Budget.count cfg now token c ends).1.admits = true ∧
      Cycle cfg now (n + 1) (Budget.count cfg now token c ends).2) :
      Cycle cfg now (n + if (Budget.count cfg now token c ends).1.admits then 1 else 0)
        (Budget.count cfg now token c ends).2 := by
    rw [if_pos hcount.1]
    exact hcount.2
  unfold Budget.reserve
  cases b with
  | fresh =>
    replace h : n = 0 := h
    exact hadmitted (cycle_start (q := 0) (by omega) (by omega))
  | counting c ends =>
    obtain ⟨hc, q, hstart, hends, hn⟩ := h
    by_cases hlt : now < ends
    · simp only [Budget.asOf, if_pos hlt]
      exact hadmitted (cycle_count hc hstart (by omega) hn)
    · simp only [Budget.asOf, if_neg hlt]
      have hsucc : (q + 1) * cfg.duration ≤ now := by rw [Nat.succ_mul]; omega
      exact hadmitted (cycle_start hsucc (by rw [Nat.mul_succ]; omega))
  | locked tok ends =>
    obtain ⟨q, hstart, hends, hn⟩ := h
    by_cases hlt : now < ends
    · simp only [Budget.asOf, if_pos hlt]
      exact ⟨q, hstart, by omega, hn⟩
    · simp only [Budget.asOf, if_neg hlt]
      have hsucc : (q + 1) * cfg.duration ≤ now := by rw [Nat.succ_mul]; omega
      exact hadmitted (cycle_start hsucc (by rw [Nat.mul_succ]; omega))

/-- Not more cycles can have begun than there were durations. -/
theorem Cycle.bound {T : ℕ} (h : Cycle cfg t n b) (hle : t ≤ T) :
    n ≤ cfg.threshold * (T / cfg.duration + 1) := by
  have hbegun {q : ℕ} (hq : q * cfg.duration ≤ t) (hn : n ≤ cfg.threshold * q + cfg.threshold) :
      n ≤ cfg.threshold * (T / cfg.duration + 1) := by
    have hdiv : q ≤ T / cfg.duration :=
      (Nat.le_div_iff_mul_le cfg.duration_pos).mpr (Nat.le_trans hq hle)
    calc n ≤ cfg.threshold * (q + 1) := by rw [Nat.mul_succ]; exact hn
      _ ≤ cfg.threshold * (T / cfg.duration + 1) := Nat.mul_le_mul_left _ (by omega)
  cases b with
  | fresh =>
    replace h : n = 0 := h
    omega
  | counting c ends =>
    obtain ⟨hc, q, hstart, hends, hn⟩ := h
    exact hbegun (q := q) (by omega) (by omega)
  | locked tok ends =>
    obtain ⟨q, hstart, hends, hn⟩ := h
    exact hbegun (by omega) hn

theorem countP_late {T : ℕ} : ∀ {calls : List (ℕ × ℕ)} {b : Budget}, (∀ x ∈ calls, T < x.1) →
    (b.answers cfg calls).countP (fun x => x.1 ≤ T && x.2.any Reservation.admits) = 0
  | [], _, _ => rfl
  | (now, token) :: calls, b, hlate => by
    have hnow : ¬ now ≤ T := Nat.not_le.mpr (hlate _ (.head _))
    rw [Budget.answers, List.countP_cons_of_neg (by simp [hnow])]
    exact countP_late fun x hx => hlate x (.tail _ hx)

theorem countP_answers_le {T : ℕ} : ∀ {calls : List (ℕ × ℕ)} {t n : ℕ} {b : Budget},
    Cycle cfg t n b → t ≤ T → calls.Pairwise (fun x y => x.1 ≤ y.1) → (∀ x ∈ calls, t ≤ x.1) →
      n + (b.answers cfg calls).countP (fun x => x.1 ≤ T && x.2.any Reservation.admits) ≤
        cfg.threshold * (T / cfg.duration + 1)
  | [], t, n, b, h, hle, _, _ => h.bound hle
  | (now, token) :: calls, t, n, b, h, hle, hsorted, hfrom => by
    obtain ⟨hhead, htail⟩ := List.pairwise_cons.mp hsorted
    by_cases hnow : now ≤ T
    · have hstep := cycle_reserve token h (hfrom _ (.head _))
      have ih := countP_answers_le hstep hnow htail hhead
      rw [Budget.answers, List.countP_cons]
      simp only [hnow, decide_true, Bool.true_and, Option.any_some] at ih ⊢
      omega
    · have hlate : ∀ x ∈ (now, token) :: calls, T < x.1 := by
        intro x hx
        rcases List.mem_cons.mp hx with rfl | hx
        · exact Nat.not_le.mp hnow
        · exact Nat.lt_of_lt_of_le (Nat.not_le.mp hnow) (hhead x hx)
      rw [countP_late hlate]
      exact h.bound hle

end

/-! ## Tripping the lock -/

/-- A whole budget at the start of every lock cycle, up to time `T`. -/
def tripping (cfg : Config) (T : ℕ) : List (ℕ × ℕ) :=
  (List.range (T / cfg.duration + 1)).flatMap fun q =>
    List.replicate cfg.threshold (q * cfg.duration, 0)

section

variable {cfg : Config} {now T : ℕ} {b : Budget}

variable (cfg) in
theorem answers_replicate (hT : now ≤ T) : ∀ {m c ends : ℕ}, now < ends →
    c + (m + 1) = cfg.threshold →
    ((Budget.counting c ends).answers cfg (List.replicate (m + 1) (now, 0))).countP
        (fun x => x.1 ≤ T && x.2.any Reservation.admits) = m + 1 ∧
      (Budget.counting c ends).after cfg (List.replicate (m + 1) (now, 0)) =
        .locked 0 (now + cfg.duration)
  | 0, c, ends, hlt, hc => by
    have hlast : cfg.threshold ≤ c + 1 := by omega
    simp [Budget.answers, Budget.after, Budget.reserve, Budget.asOf, hlt, Budget.count, hlast,
      Reservation.admits, hT]
  | m + 1, c, ends, hlt, hc => by
    have hmore : ¬ cfg.threshold ≤ c + 1 := by omega
    obtain ⟨hcount, hafter⟩ := answers_replicate hT (c := c + 1) (m := m) hlt (by omega)
    have hreserve : (Budget.counting c ends).reserve cfg now 0 =
        ({ admission := .admitted, attempts := c + 1 }, .counting (c + 1) ends) := by
      simp [Budget.reserve, Budget.asOf, hlt, Budget.count, hmore]
    rw [List.replicate_succ, Budget.answers, Budget.after, hreserve]
    refine ⟨?_, hafter⟩
    rw [List.countP_cons_of_pos (by simp [Reservation.admits, hT]), hcount]

variable (cfg) in
theorem answers_cycle (hT : now ≤ T) (hfree : b.asOf now = .fresh) :
    (b.answers cfg (List.replicate cfg.threshold (now, 0))).countP
        (fun x => x.1 ≤ T && x.2.any Reservation.admits) = cfg.threshold ∧
      b.after cfg (List.replicate cfg.threshold (now, 0)) = .locked 0 (now + cfg.duration) := by
  obtain ⟨m, hm⟩ := Nat.exists_eq_succ_of_ne_zero (Nat.pos_iff_ne_zero.mp cfg.threshold_pos)
  have hlt := cfg.lt_window now
  -- the first attempt opens a window, as if nothing were counted in one that is open
  have hfirst : b.reserve cfg now 0 = (Budget.counting 0 (now + cfg.window)).reserve cfg now 0 := by
    unfold Budget.reserve
    rw [hfree]
    simp only [Budget.asOf, if_pos hlt]
  have hrest := answers_replicate cfg hT (c := 0) (m := m) hlt (by omega)
  rwa [hm, List.replicate_succ, Budget.answers, Budget.after, hfirst]

theorem answers_tripping : ∀ {n : ℕ}, n * cfg.duration ≤ T + cfg.duration →
    (Budget.fresh.answers cfg ((List.range n).flatMap fun q =>
        List.replicate cfg.threshold (q * cfg.duration, 0))).countP
        (fun x => x.1 ≤ T && x.2.any Reservation.admits) = cfg.threshold * n ∧
      (Budget.fresh.after cfg ((List.range n).flatMap fun q =>
        List.replicate cfg.threshold (q * cfg.duration, 0))).asOf (n * cfg.duration) = .fresh
  | 0, _ => ⟨rfl, rfl⟩
  | n + 1, hn => by
    rw [Nat.succ_mul] at hn
    obtain ⟨hcount, hfree⟩ := answers_tripping (n := n) (by omega)
    obtain ⟨hcycle, hlocked⟩ := answers_cycle cfg (T := T) (by omega) hfree
    rw [List.range_succ, List.flatMap_append, List.flatMap_singleton]
    constructor
    · rw [answers_append, List.countP_append, hcount, hcycle, Nat.mul_succ]
    · rw [after_append, hlocked, Nat.succ_mul]
      simp [Budget.asOf]

end

theorem tripping_sorted (cfg : Config) (T : ℕ) :
    (tripping cfg T).Pairwise fun x y => x.1 ≤ y.1 := by
  unfold tripping
  rw [List.pairwise_flatMap]
  constructor
  · intro q _
    exact List.pairwise_replicate.mpr (.inr (Nat.le_refl _))
  · refine List.pairwise_lt_range.imp fun {q q'} hlt => ?_
    intro x hx y hy
    rw [List.eq_of_mem_replicate hx, List.eq_of_mem_replicate hy]
    exact Nat.mul_le_mul_right _ (Nat.le_of_lt hlt)

/-- **The ceiling on guesses.** However paced, at most `threshold` wrong passwords are admitted for
each lock duration begun; and tripping the lock in every cycle gets as many. -/
theorem lock_cycle_is_ceiling (st : Store) (cfg : Config) (calls : List (ℕ × ℕ))
    (hcalls : calls.Pairwise fun x y => x.1 ≤ y.1) (T : ℕ) :
    st.admitted cfg calls T ≤ cfg.threshold * (T / cfg.duration + 1) ∧
      (tripping cfg T).Pairwise (fun x y => x.1 ≤ y.1) ∧
      st.admitted cfg (tripping cfg T) T = cfg.threshold * (T / cfg.duration + 1) := by
  have hanswers {calls : List (ℕ × ℕ)} (hcalls : calls.Pairwise fun x y => x.1 ≤ y.1) :
      st.answers cfg calls st.empty = Budget.fresh.answers cfg calls :=
    answers_eq (show st.Shows cfg 0 st.empty .fresh from shows_empty) hcalls fun _ _ =>
      Nat.zero_le _
  refine ⟨?_, tripping_sorted cfg T, ?_⟩
  · have hstart : Cycle cfg 0 0 .fresh := rfl
    have hbound := countP_answers_le hstart (Nat.zero_le T) hcalls fun _ _ => Nat.zero_le _
    unfold Store.admitted
    rw [hanswers hcalls]
    omega
  · have hle : (T / cfg.duration + 1) * cfg.duration ≤ T + cfg.duration := by
      rw [Nat.succ_mul]
      exact Nat.add_le_add_right (Nat.div_mul_le_self T cfg.duration) _
    unfold Store.admitted
    rw [hanswers (tripping_sorted cfg T)]
    exact (answers_tripping hle).1

/-- Six guesses at once and one more when the lock has run out: six of the seven are checked. -/
theorem lock_cycle_is_ceiling_seven :
    let calls := [(0, 0), (0, 1), (0, 2), (0, 3), (0, 4), (0, 5), (1800000, 6)]
    calls.Pairwise (fun x y => x.1 ≤ y.1) ∧
      Store.redis.admitted passwordLockout calls 1800000 = 6 ∧
      Store.redis.admitted passwordLockout calls 1800000 ≤
        passwordLockout.threshold * (1800000 / passwordLockout.duration + 1) := by
  intro calls
  have hsorted : calls.Pairwise (fun x y => x.1 ≤ y.1) := by decide
  exact ⟨hsorted, by decide +kernel,
    (lock_cycle_is_ceiling .redis passwordLockout calls hsorted 1800000).1⟩

end Nexara.Lockout
