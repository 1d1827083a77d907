import Mathlib.Tactic.FieldSimp
import Mathlib.Tactic.Linarith
import Mathlib.Tactic.Ring

/-!
# The rates of a counter

`counterRates` measures each reading of a counter from the highest one before it, so that a counter
that falls and returns adds nothing (`rates_account_for_bytes`). Times are in seconds.
-/

namespace Nexara.Alerts

structure RateReading where
  readAt : ℚ
  bps : ℚ
  deriving DecidableEq

/-- `peak` and `peakAt`, once there is a reading to measure from. -/
structure CounterBase where
  peak : ℚ
  peakAt : ℚ

/-- The loop of `counterRates` over the readings, oldest first: when, and the value if reported. -/
def ratesFrom : Option CounterBase → List (ℚ × Option ℚ) → List RateReading
  | _, [] => []
  | base, (_, none) :: rows => ratesFrom base rows
  | none, (t, some v) :: rows => ratesFrom (some ⟨v, t⟩) rows
  | some base, (t, some v) :: rows =>
    if v < base.peak then ratesFrom (some base) rows
    else
      let dt := t - base.peakAt
      let rates := ratesFrom (some ⟨v, t⟩) rows
      if dt > 0 then ⟨t, (v - base.peak) / dt⟩ :: rates else rates

def counterRates {T : Type} (rows : List T) (readAt : T → ℚ) (counter : T → Option ℚ) : List RateReading :=
  (ratesFrom none (rows.reverse.map fun row => (readAt row, counter row))).reverse

/-! ## Readings, oldest first -/

/-- What rates, oldest first, add up to, each over the time since the one before it. -/
def measured (since : ℚ) : List RateReading → ℚ
  | [] => 0
  | r :: rates => r.bps * (r.readAt - since) + measured r.readAt rates

def Increasing (since : ℚ) (times : List ℚ) : Prop := (since :: times).Pairwise (· < ·)

/-- The highest of a value and those reported. -/
def highest (v : ℚ) (rows : List (ℚ × Option ℚ)) : ℚ := (rows.filterMap (·.2)).foldl max v

theorem ratesFrom_some {base : CounterBase} {rows : List (ℚ × Option ℚ)}
    (h : Increasing base.peakAt (rows.map (·.1))) :
    (∀ r ∈ ratesFrom (some base) rows, 0 ≤ r.bps) ∧
      Increasing base.peakAt ((ratesFrom (some base) rows).map (·.readAt)) ∧
      measured base.peakAt (ratesFrom (some base) rows) = highest base.peak rows - base.peak := by
  induction rows generalizing base with
  | nil => simp [ratesFrom, Increasing, measured, highest]
  | cons row rows ih =>
    obtain ⟨t, value⟩ := row
    have hskip : Increasing base.peakAt (rows.map (·.1)) := h.sublist (by simp)
    have hnext : Increasing t (rows.map (·.1)) := h.sublist (by simp)
    have hlate : base.peakAt < t := by simpa using List.rel_of_pairwise_cons h (.head _)
    cases value with
    | none => simpa [ratesFrom, highest] using ih hskip
    | some v =>
      by_cases hv : v < base.peak
      · simpa [ratesFrom, hv, highest, max_eq_left hv.le] using ih hskip
      · obtain ⟨hnonneg, htimes, hsum⟩ := @ih ⟨v, t⟩ hnext
        have hdt : t - base.peakAt > 0 := by linarith
        simp only [ratesFrom, hv, hdt, if_true, if_false]
        refine ⟨?_, ?_, ?_⟩
        · rintro r (_ | ⟨_, hr⟩)
          · exact div_nonneg (by linarith) hdt.le
          · exact hnonneg r hr
        · refine List.pairwise_cons.2 ⟨?_, htimes⟩
          rintro t' (_ | ⟨_, ht'⟩)
          · exact hlate
          · exact hlate.trans (List.rel_of_pairwise_cons htimes ht')
        · have hmax : highest base.peak ((t, some v) :: rows) = highest v rows := by
            simp [highest, max_eq_right (not_lt.1 hv)]
          rw [hmax, measured, hsum, div_mul_cancel₀ _ hdt.ne']
          ring

theorem ratesFrom_none {rows : List (ℚ × Option ℚ)} (h : (rows.map (·.1)).Pairwise (· < ·)) :
    (∀ r ∈ ratesFrom none rows, 0 ≤ r.bps) ∧
      ((ratesFrom none rows).map (·.readAt)).Pairwise (· < ·) := by
  induction rows with
  | nil => simp [ratesFrom]
  | cons row rows ih =>
    obtain ⟨t, _ | v⟩ := row
    · exact ih h.tail
    · obtain ⟨hnonneg, htimes, -⟩ := @ratesFrom_some ⟨v, t⟩ rows h
      exact ⟨hnonneg, htimes.tail⟩

section

variable {base : Option CounterBase} {older newer : List (ℚ × Option ℚ)}

theorem ratesFrom_unreported (h : ∀ row ∈ older, row.2 = none) :
    ratesFrom base (older ++ newer) = ratesFrom base newer := by
  induction older with
  | nil => rfl
  | cons row older ih =>
    obtain ⟨t, _ | v⟩ := row
    · cases base <;> exact ih fun row hrow => h row (.tail _ hrow)
    · cases h _ (.head _)

theorem ratesFrom_skip {row : ℚ × Option ℚ}
    (h : ∀ v ∈ row.2, (∃ b ∈ base, v < b.peak) ∨ ∃ w ∈ older.filterMap (·.2), v < w) :
    ratesFrom base (older ++ row :: newer) = ratesFrom base (older ++ newer) := by
  induction older generalizing base with
  | nil =>
    obtain ⟨t, _ | v⟩ := row
    · cases base <;> rfl
    · obtain ⟨b, rfl, hlt⟩ : ∃ b, base = some b ∧ v < b.peak := by simpa using h
      simp [ratesFrom, hlt]
  | cons x older ih =>
    obtain ⟨t, _ | w⟩ := x
    · cases base <;> exact ih (by simpa using h)
    · cases base with
      | none => exact ih (by simpa using h)
      | some b =>
        have h : ∀ v ∈ row.2, v < b.peak ∨ v < w ∨ ∃ w ∈ older.filterMap (·.2), v < w := by
          simpa using h
        by_cases hw : w < b.peak
        · simp only [List.cons_append, ratesFrom, hw]
          refine ih fun v hv => ?_
          obtain hlt | hlt | hlt := h v hv
          exacts [.inl ⟨b, rfl, hlt⟩, .inl ⟨b, rfl, hlt.trans hw⟩, .inr hlt]
        · simp only [List.cons_append, ratesFrom, hw, if_false]
          rw [ih fun v hv => ?_]
          obtain hlt | hlt | hlt := h v hv
          exacts [.inl ⟨_, rfl, hlt.trans_le (not_lt.1 hw)⟩, .inl ⟨_, rfl, hlt⟩, .inr hlt]

end

/-! ## Rows, newest first -/

/-- **Every byte is counted once.** No rate is negative, their times decrease, and they add up to
what the highest reading is above the oldest one; readings that are unreported or below an earlier
one change nothing. -/
theorem rates_account_for_bytes {T : Type} (readAt : T → ℚ) (counter : T → Option ℚ) {rows : List T}
    (h : rows.Pairwise fun newer older => readAt older < readAt newer) :
    (∀ r ∈ counterRates rows readAt counter, 0 ≤ r.bps) ∧
    (counterRates rows readAt counter).Pairwise (fun newer older => older.readAt < newer.readAt) ∧
    (∀ newer oldest older first top, rows = newer ++ oldest :: older →
      (∀ row ∈ older, counter row = none) → counter oldest = some first →
      IsGreatest {v | ∃ row ∈ rows, counter row = some v} top →
      measured (readAt oldest) (counterRates rows readAt counter).reverse = top - first) ∧
    ∀ newer row older, rows = newer ++ row :: older →
      (∀ v ∈ counter row, ∃ row' ∈ older, ∃ w ∈ counter row', v < w) →
      counterRates (newer ++ older) readAt counter = counterRates rows readAt counter := by
  have htimes : ((rows.reverse.map fun row => (readAt row, counter row)).map (·.1)).Pairwise
      (· < ·) := by
    rwa [List.map_map, List.pairwise_map, List.pairwise_reverse]
  obtain ⟨hnonneg, hsorted⟩ := ratesFrom_none htimes
  refine ⟨fun r hr => hnonneg r (List.mem_reverse.1 hr), ?_, ?_, ?_⟩
  · rw [counterRates, List.pairwise_reverse]
    exact List.pairwise_map.1 hsorted
  · rintro newer oldest older first top rfl hunreported hfirst htop
    simp only [counterRates, List.reverse_reverse, List.reverse_append, List.reverse_cons, List.map_append,
      List.append_assoc, List.map_cons, List.cons_append, List.nil_append, hfirst] at htimes ⊢
    rw [ratesFrom_unreported (by simpa using hunreported), ratesFrom]
    obtain ⟨-, -, hsum⟩ := @ratesFrom_some ⟨first, readAt oldest⟩
      (newer.reverse.map fun row => (readAt row, counter row)) (htimes.sublist (by simp))
    have hhighest : (first :: (newer.reverse.map fun row => (readAt row, counter row)).filterMap
        (·.2)).max? = some top := by
      have hset : ∀ v, v ∈ first :: (newer.reverse.map fun row => (readAt row, counter row)).filterMap
          (·.2) ↔ ∃ row ∈ newer ++ oldest :: older, counter row = some v := by
        intro v
        simp
        grind
      rw [List.max?_eq_some_iff]
      exact ⟨(hset top).2 htop.1, fun v hv => htop.2 ((hset v).1 hv)⟩
    rw [hsum, highest]
    rw [Option.some_inj.1 hhighest]
  · rintro newer row older rfl hlow
    simp only [counterRates, List.reverse_append, List.reverse_cons, List.map_append, List.append_assoc,
      List.map_cons, List.cons_append, List.nil_append]
    rw [ratesFrom_skip]
    intro v hv
    obtain ⟨row', hrow', w, hw, hlt⟩ := hlow v hv
    exact .inr ⟨w, by simpa using ⟨row', hrow', hw⟩, hlt⟩

/-- A counter falls, is unreported, and returns. -/
def fallingRows : List (ℚ × Option ℚ) := [(4, some 9), (3, none), (2, some 1), (1, some 5)]

theorem rates_account_for_bytes_falling :
    counterRates fallingRows Prod.fst Prod.snd = [⟨4, 4 / 3⟩] ∧
      counterRates [(4, some 9), (3, none), (1, some 5)] Prod.fst Prod.snd =
        counterRates fallingRows Prod.fst Prod.snd := by
  refine ⟨by decide +kernel, ?_⟩
  have h : fallingRows.Pairwise fun newer older => older.1 < newer.1 := by decide +kernel
  exact (rates_account_for_bytes Prod.fst Prod.snd h).2.2.2 [(4, some 9), (3, none)] (2, some 1)
    [(1, some 5)] rfl (by simp)

end Nexara.Alerts
