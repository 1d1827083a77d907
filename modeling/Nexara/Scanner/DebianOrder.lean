import Mathlib.Data.List.TakeWhile
import Nexara.Scanner.DebianTracker

/-!
# The order of Debian versions

The order of deb-version(7), as the first place at which two versions differ: their epochs, then
what their upstream parts and their revisions have next to each other, character by character in the
runs without digits and number by number in the runs of digits (`places`). The code departs from it
at three kinds of places: where one part has ended and the other has zeros only, where a run has
ended and the other has a zero byte, and at epochs beyond an `int`. `orders_debian_versions_iff`
says when that does not matter.
-/

namespace Nexara.Scanner

open Go (Bytes bytes runes)

attribute [local irreducible] wrap

/-! ## The order -/

def value (ds : Bytes) : Nat := ds.foldl (fun n c => n * 10 + (c.toNat - 0x30)) 0

def runs : Bytes → List (Bytes × Bytes)
  | [] => []
  | c :: s =>
    if isDigit c then
      match runs s with
      | ([], ds) :: rs => ([], c :: ds) :: rs
      | rs => ([], [c]) :: rs
    else
      match runs s with
      | (cs, ds) :: rs => (c :: cs, ds) :: rs
      | [] => [([c], [])]

/-- Two things that are compared: epochs, what two runs have in one place (`none` after the end), or
the digits after them. -/
inductive Place
  | epochs (x y : Bytes)
  | chars (x y : Option UInt8)
  | numbers (x y : Bytes)

def runPlaces (x y : Option (Bytes × Bytes)) : List Place :=
  List.zipWithAll .chars (x.getD ([], [])).1 (y.getD ([], [])).1 ++
    [.numbers (x.getD ([], [])).2 (y.getD ([], [])).2]

def partPlaces (a b : Bytes) : List Place := (List.zipWithAll runPlaces (runs a) (runs b)).flatten

/-- `~`, the end of a run, letters, other characters. -/
def rank : Option UInt8 → Nat
  | none => 256
  | some c =>
    if c = 0x7e then 0
    else if (0x61 ≤ c ∧ c ≤ 0x7a) ∨ (0x41 ≤ c ∧ c ≤ 0x5a) then 512 + c.toNat
    else 768 + c.toNat

/-- The order of deb-version(7) at a place; no digits count as zero. -/
def Place.order : Place → Ordering
  | .epochs x y => compare (value x) (value y)
  | .chars x y => compare (rank x) (rank y)
  | .numbers x y => compare (value x) (value y)

/-- The verdict of the first place that has one. -/
def first (f : Place → Ordering) (ps : List Place) : Ordering :=
  ps.foldr (fun p o => (f p).then o) .eq

def partOrder (a b : Bytes) : Ordering := first Place.order (partPlaces a b)

def upstream (v : Bytes) : Bytes := (cutRevision (cutEpoch v).2).1

def revision (v : Bytes) : Option Bytes := (cutRevision (cutEpoch v).2).2

/-- Epochs as numbers, then upstream parts, then revisions, an absent one counting as `0`. -/
def debOrder (a b : Bytes) : Ordering :=
  (compare (value (cutEpoch a).1) (value (cutEpoch b).1)).then
    ((partOrder (upstream a) (upstream b)).then
      (partOrder ((revision a).getD (bytes "0")) ((revision b).getD (bytes "0"))))

/-- A version that is not empty and whose epoch, if it has one, is all digits. -/
def IsVersion (v : Bytes) : Prop := v ≠ [] ∧ (cutEpoch v).1.all isDigit = true
deriving Decidable

def verdict : Ordering → Int
  | .lt => -1
  | .eq => 0
  | .gt => 1

/-! ## Where the code departs from it -/

def places (a b : Bytes) : List Place :=
  .epochs (cutEpoch a).1 (cutEpoch b).1 ::
    (partPlaces (upstream a) (upstream b) ++
      partPlaces ((revision a).getD []) ((revision b).getD []))

/-- The code takes epochs as they are in an `int`, the end of a run for a zero byte, and no digits
for zeros. -/
def Place.seen : Place → Ordering
  | .epochs x y => compare (wrap (value x)) (wrap (value y))
  | .chars x y => if x.getD 0 = y.getD 0 then .eq else compare (rank x) (rank y)
  | .numbers x y =>
    (compare (value x) (value y)).then (compare (min 1 x.length) (min 1 y.length))

/-- The places at which what is seen is not the order. -/
def Place.Departs : Place → Prop
  | .epochs x y => compare (wrap (value x)) (wrap (value y)) ≠ compare (value x) (value y)
  | .chars x y => (x = none ∧ y = some 0) ∨ (x = some 0 ∧ y = none)
  | .numbers x y => value x = value y ∧ ((x = [] ∧ y ≠ []) ∨ (x ≠ [] ∧ y = []))

instance (p : Place) : Decidable p.Departs :=
  match p with
  | .epochs _ _ => inferInstanceAs (Decidable (_ ≠ _))
  | .chars _ _ => inferInstanceAs (Decidable (_ ∨ _))
  | .numbers _ _ => inferInstanceAs (Decidable (_ ∧ _))

/-- The first difference is ordinary, or it is a departure and what decides after it is the same for
the order and the code. -/
def Alike : List Place → Prop
  | [] => True
  | p :: ps =>
    (¬p.Departs ∧ (p.order ≠ .eq ∨ Alike ps)) ∨
      (p.Departs ∧ first Place.order (p :: ps) = first Place.seen (p :: ps))

instance Alike.decidable : (ps : List Place) → Decidable (Alike ps)
  | [] => .isTrue trivial
  | p :: ps =>
    have := Alike.decidable ps
    inferInstanceAs (Decidable ((¬p.Departs ∧ (p.order ≠ .eq ∨ Alike ps)) ∨
      (p.Departs ∧ first Place.order (p :: ps) = first Place.seen (p :: ps))))

section

variable (f : Place → Ordering)

@[simp] theorem first_nil : first f [] = .eq := rfl

@[simp] theorem first_cons (p : Place) (ps : List Place) :
    first f (p :: ps) = (f p).then (first f ps) := rfl

@[simp] theorem first_append (ps qs : List Place) :
    first f (ps ++ qs) = (first f ps).then (first f qs) := by
  induction ps with
  | nil => exact Ordering.eq_then.symm
  | cons p ps ih => rw [List.cons_append, first_cons, first_cons, ih, Ordering.then_assoc]

end

theorem rank_eq_end_iff (c : UInt8) : rank (some c) ≠ rank none := by
  simp only [rank]
  split_ifs <;> omega

theorem order_eq_seen_iff (p : Place) : p.order = p.seen ↔ ¬p.Departs := by
  unfold Place.order Place.seen Place.Departs
  cases p with
  | epochs x y => exact ⟨fun h hne => hne h.symm, fun h => (not_not.mp h).symm⟩
  | chars x y =>
    by_cases heq : x.getD 0 = y.getD 0
    · cases x with
      | none =>
        cases y with
        | none => simp
        | some d =>
          have hd : d = 0 := heq.symm
          simp [hd, (rank_eq_end_iff 0).symm]
      | some c =>
        cases y with
        | none =>
          have hc : c = 0 := heq
          simp [hc, rank_eq_end_iff 0]
        | some d =>
          have hcd : c = d := heq
          simp [hcd]
    · simp only [heq, if_false, true_iff]
      rintro (⟨rfl, rfl⟩ | ⟨rfl, rfl⟩) <;> exact heq rfl
  | numbers x y =>
    simp only
    by_cases heq : value x = value y
    · rw [heq]
      cases x <;> cases y <;> simp
      all_goals decide
    · have hne : compare (value x) (value y) ≠ .eq := fun h => heq (Nat.compare_eq_eq.mp h)
      simp only [heq, false_and, not_false_eq_true, iff_true]
      cases hc : compare (value x) (value y) with
      | eq => exact absurd hc hne
      | lt | gt => rfl

theorem first_eq_iff (ps : List Place) : first Place.order ps = first Place.seen ps ↔ Alike ps := by
  induction ps with
  | nil => simp only [first_nil, Alike]
  | cons p ps ih =>
    unfold Alike
    by_cases hdeparts : p.Departs
    · simp only [hdeparts, not_true_eq_false, false_and, true_and, false_or]
    · have heq := (order_eq_seen_iff p).mpr hdeparts
      simp only [hdeparts, ← ih, first_cons,
        ← heq]
      cases p.order <;> simp

theorem zipWithAll_cons {α β γ : Type} (f : Option α → Option β → γ) {xs : List α} {ys : List β}
    (h : xs ≠ [] ∨ ys ≠ []) :
    List.zipWithAll f xs ys = f xs.head? ys.head? :: List.zipWithAll f xs.tail ys.tail := by
  cases xs with
  | nil =>
    cases ys with
    | nil => simp at h
    | cons y ys => simp
  | cons x xs =>
    cases ys with
    | nil => cases xs <;> simp
    | cons y ys => simp

/-- An absent revision and the revision `0` are in the same order to every other. -/
theorem partOrder_absent (x y : Option Bytes) :
    partOrder (x.getD (bytes "0")) (y.getD (bytes "0")) = partOrder (x.getD []) (y.getD []) := by
  have hruns : runs (bytes "0") = [([], bytes "0")] := by decide
  have hzero : value (bytes "0") = value [] := by decide
  unfold partOrder partPlaces
  cases x with
  | none =>
    cases y with
    | none => decide
    | some b => cases hb : runs b <;> simp [hruns, hb, runs, runPlaces, Place.order, hzero]
  | some a =>
    cases y with
    | none => cases ha : runs a <;> simp [hruns, ha, runs, runPlaces, Place.order, hzero]
    | some b => rfl

theorem debOrder_eq (a b : Bytes) : debOrder a b = first Place.order (places a b) := by
  unfold debOrder places
  rw [partOrder_absent, first_cons, first_append]
  rfl

/-! ## Numbers -/

theorem value_cons (c : UInt8) (ds : Bytes) :
    value (c :: ds) = (c.toNat - 0x30) * 10 ^ ds.length + value ds := by
  have hacc : ∀ (ds : Bytes) (n : Nat), ds.foldl (fun n c => n * 10 + (c.toNat - 0x30)) n =
      n * 10 ^ ds.length + value ds := by
    intro ds
    induction ds with
    | nil => intro n; simp [value]
    | cons d ds ih =>
      intro n
      have hvalue : value (d :: ds) = _ := ih (0 * 10 + (d.toNat - 0x30))
      rw [List.foldl_cons, ih, hvalue, List.length_cons, Nat.pow_succ, Nat.zero_add,
        Nat.add_mul, Nat.mul_assoc, Nat.mul_comm 10, Nat.add_assoc]
  have hvalue : value (c :: ds) = _ := hacc ds (0 * 10 + (c.toNat - 0x30))
  rw [hvalue, Nat.zero_add]

theorem le_of_isDigit {c : UInt8} (h : isDigit c = true) : 0x30 ≤ c.toNat ∧ c.toNat ≤ 0x39 := by
  simp only [isDigit, Bool.and_eq_true, decide_eq_true_eq] at h
  exact h

theorem value_lt {ds : Bytes} (h : ∀ c ∈ ds, isDigit c = true) : value ds < 10 ^ ds.length := by
  induction ds with
  | nil => decide
  | cons c ds ih =>
    have hc : c.toNat - 0x30 ≤ 9 := by
      have hdigit := le_of_isDigit (h c (.head _))
      omega
    have hrest := ih fun d hd => h d (.tail _ hd)
    rw [value_cons, List.length_cons]
    have hlead := Nat.mul_le_mul_right (10 ^ ds.length) hc
    omega

variable {a b s : Bytes}

theorem compare_value (ha : ∀ c ∈ a, isDigit c = true)
    (hb : ∀ c ∈ b, isDigit c = true) (hlen : a.length = b.length) :
    compare (value a) (value b) = if a = b then .eq else if a < b then .lt else .gt := by
  induction a generalizing b with
  | nil =>
    cases b with
    | nil => rfl
    | cons d b => cases hlen
  | cons c a ih =>
    cases b with
    | nil => cases hlen
    | cons d b =>
      have hrest := ih (fun x hx => ha x (.tail _ hx))
        (fun x hx => hb x (.tail _ hx)) (Nat.succ.inj hlen)
      have hva := value_lt fun x hx => ha x (List.mem_cons_of_mem c hx)
      have hvb := value_lt fun x hx => hb x (List.mem_cons_of_mem d hx)
      have hc := le_of_isDigit (ha c (.head _))
      have hd := le_of_isDigit (hb d (.head _))
      rw [← Nat.succ.inj hlen] at hvb
      rw [value_cons, value_cons, ← Nat.succ.inj hlen]
      rcases Nat.lt_trichotomy c.toNat d.toNat with hlt | heq | hgt
      · have hstep := Nat.mul_le_mul_right (10 ^ a.length)
          (show c.toNat - 0x30 + 1 ≤ d.toNat - 0x30 by omega)
        rw [Nat.add_mul] at hstep
        rw [if_neg (fun h => by cases h; omega),
          if_pos (List.cons_lt_cons_iff.mpr (.inl (UInt8.lt_iff_toNat_lt.mpr hlt)))]
        exact Nat.compare_eq_lt.mpr (by omega)
      · cases UInt8.toNat_inj.mp heq
        simp only [List.cons.injEq, true_and, List.cons_lt_cons_iff, UInt8.lt_irrefl, false_or,
          ← hrest]
        rcases Nat.lt_trichotomy (value a) (value b) with h | h | h
        · rw [Nat.compare_eq_lt.mpr h, Nat.compare_eq_lt.mpr (Nat.add_lt_add_left h _)]
        · rw [h, Nat.compare_eq_eq.mpr rfl, Nat.compare_eq_eq.mpr rfl]
        · rw [Nat.compare_eq_gt.mpr h, Nat.compare_eq_gt.mpr (Nat.add_lt_add_left h _)]
      · have hstep := Nat.mul_le_mul_right (10 ^ a.length)
          (show d.toNat - 0x30 + 1 ≤ c.toNat - 0x30 by omega)
        rw [Nat.add_mul] at hstep
        rw [if_neg (fun h => by cases h; omega), if_neg]
        · exact Nat.compare_eq_gt.mpr (by omega)
        · rw [List.cons_lt_cons_iff, UInt8.lt_iff_toNat_lt]
          rintro (h | ⟨rfl, -⟩) <;> omega

/-- A number without its leading zeros: nothing, a zero, or a text that a nonzero digit begins. -/
theorem trimLeadingZeros_cases (s : Bytes) :
    trimLeadingZeros s = [] ∨ trimLeadingZeros s = [0x30] ∨
      ∃ c t, trimLeadingZeros s = c :: t ∧ c ≠ 0x30 := by
  fun_induction trimLeadingZeros s with
  | case1 c s ih => exact ih
  | case2 s h =>
    cases s with
    | nil => exact .inl rfl
    | cons c s =>
      by_cases hc : c = 0x30
      · cases s with
        | nil => exact .inr (.inl (by rw [hc]))
        | cons d s => exact absurd (by rw [hc]) (h d s)
      · exact .inr (.inr ⟨c, s, rfl, hc⟩)

theorem value_trimLeadingZeros (s : Bytes) : value (trimLeadingZeros s) = value s := by
  fun_induction trimLeadingZeros s with
  | case1 c s ih => rw [ih, value_cons 0x30]; simp
  | case2 s h => rfl

theorem trimLeadingZeros_eq_nil_iff (s : Bytes) : trimLeadingZeros s = [] ↔ s = [] := by
  fun_induction trimLeadingZeros s with
  | case1 c s ih => simpa using ih
  | case2 s h => exact Iff.rfl

theorem isDigit_of_mem_trimLeadingZeros (h : ∀ c ∈ s, isDigit c = true) :
    ∀ c ∈ trimLeadingZeros s, isDigit c = true := by
  fun_induction trimLeadingZeros s with
  | case1 c s ih => exact ih fun d hd => h d (.tail _ hd)
  | case2 s hs => exact h

theorem value_lt_of_length_lt (ha : ∀ c ∈ a, isDigit c = true) (hb : ∀ c ∈ b, isDigit c = true)
    (hlen : (trimLeadingZeros a).length < (trimLeadingZeros b).length) :
    value a < value b ∨ (a = [] ∧ b ≠ [] ∧ value a = value b) := by
  rw [← value_trimLeadingZeros a, ← value_trimLeadingZeros b]
  rcases trimLeadingZeros_cases b with hb' | hb' | ⟨c, t, hb', hc⟩
  · rw [hb'] at hlen
    exact absurd hlen (Nat.not_lt_zero _)
  · right
    rw [hb', List.length_singleton, Nat.lt_one_iff, List.length_eq_zero_iff] at hlen
    have hne : b ≠ [] := fun h => by rw [(trimLeadingZeros_eq_nil_iff b).mpr h] at hb'; cases hb'
    exact ⟨(trimLeadingZeros_eq_nil_iff a).mp hlen, hne, by rw [hlen, hb']; decide⟩
  · left
    have hva := value_lt (isDigit_of_mem_trimLeadingZeros ha)
    have hdigit := le_of_isDigit (isDigit_of_mem_trimLeadingZeros hb c (by simp [hb']))
    have hlead : 0x30 < c.toNat := by
      refine Nat.lt_of_le_of_ne hdigit.1 fun h => hc (UInt8.toNat_inj.mp ?_)
      rw [← h]
      rfl
    rw [hb'] at hlen
    rw [hb', value_cons]
    have hpow := Nat.pow_le_pow_right (by decide : 0 < 10) (Nat.le_of_lt_succ hlen)
    have hone := Nat.mul_le_mul_right (10 ^ t.length) (show 1 ≤ c.toNat - 0x30 by omega)
    omega

theorem verdict_then (o p : Ordering) :
    verdict (o.then p) = if verdict o = 0 then verdict p else verdict o := by
  cases o <;> rfl

theorem verdict_compare {α : Type} [LinearOrder α] (x y : α) :
    verdict (compare x y) = if x < y then -1 else if y < x then 1 else 0 := by
  rcases lt_trichotomy x y with h | rfl | h
  · rw [compare_lt_iff_lt.mpr h, if_pos h]
    rfl
  · rw [compare_eq_iff_eq.mpr rfl, if_neg (lt_irrefl x), if_neg (lt_irrefl x)]
    rfl
  · rw [compare_gt_iff_gt.mpr h, if_neg h.asymm, if_pos h]
    rfl

theorem compareDigits_eq {x y : Bytes} (hx : ∀ c ∈ x, isDigit c = true)
    (hy : ∀ c ∈ y, isDigit c = true) : compareDigits x y = verdict (Place.numbers x y).seen := by
  unfold compareDigits Place.seen
  simp only
  rcases Nat.lt_trichotomy (trimLeadingZeros x).length (trimLeadingZeros y).length with
    hlt | hlen | hgt
  · rw [if_pos (Nat.ne_of_lt hlt), if_pos hlt]
    rcases value_lt_of_length_lt hx hy hlt with h | ⟨rfl, hne, h⟩
    · rw [Nat.compare_eq_lt.mpr h]
      rfl
    · rw [Nat.compare_eq_eq.mpr h, Nat.compare_eq_lt.mpr]
      · rfl
      · have := List.length_pos_of_ne_nil hne
        simp only [List.length_nil]
        omega
  · have hvalue := compare_value (isDigit_of_mem_trimLeadingZeros hx)
      (isDigit_of_mem_trimLeadingZeros hy) hlen
    rw [value_trimLeadingZeros, value_trimLeadingZeros] at hvalue
    rw [if_neg (not_not.mpr hlen), hvalue]
    by_cases heq : trimLeadingZeros x = trimLeadingZeros y
    · have hnil : x = [] ↔ y = [] := by
        rw [← trimLeadingZeros_eq_nil_iff x, ← trimLeadingZeros_eq_nil_iff y, heq]
      have hmin : min 1 x.length = min 1 y.length := by
        simp only [← List.length_eq_zero_iff] at hnil
        omega
      rw [if_neg (not_not.mpr heq), if_pos heq, hmin, Nat.compare_eq_eq.mpr rfl]
      rfl
    · split_ifs <;> rfl
  · rw [if_pos (Nat.ne_of_gt hgt), if_neg (Nat.lt_asymm hgt)]
    rcases value_lt_of_length_lt hy hx hgt with h | ⟨rfl, hne, h⟩
    · rw [Nat.compare_eq_gt.mpr h]
      rfl
    · rw [Nat.compare_eq_eq.mpr h.symm, Nat.compare_eq_gt.mpr]
      · rfl
      · have := List.length_pos_of_ne_nil hne
        simp only [List.length_nil]
        omega

/-! ## Runs -/

theorem charOrder_lt_iff (x y : Option UInt8) :
    charOrder (x.getD 0) x.isSome < charOrder (y.getD 0) y.isSome ↔ rank x < rank y := by
  have hpresent : ∀ c : UInt8, c.toNat < 256 := fun c => c.toNat_lt
  cases x <;> cases y <;>
    simp only [charOrder, rank, Option.getD, Option.isSome, reduceCtorEq, if_false]
  case none.none => omega
  case none.some d =>
    split_ifs <;> omega
  case some.none c =>
    split_ifs <;> omega
  case some.some c d =>
    have hc := hpresent c
    have hd := hpresent d
    split_ifs <;> omega

theorem compareDebChar_eq (x y : Option UInt8) :
    compareDebChar x y = verdict (Place.chars x y).seen := by
  unfold compareDebChar Place.seen
  simp only [charOrder_lt_iff]
  by_cases heq : x.getD 0 = y.getD 0
  · rw [if_pos heq, if_pos heq]
    rfl
  · rw [if_neg heq, if_neg heq, verdict_compare]

theorem compareDebCharsFrom_eq {n : Nat} (h : max a.length b.length ≤ n) :
    compareDebCharsFrom n a b = verdict (first Place.seen (List.zipWithAll .chars a b)) := by
  induction n generalizing a b with
  | zero =>
    obtain ⟨rfl, rfl⟩ : a = [] ∧ b = [] := by simpa using h
    rfl
  | succ n ih =>
    rw [compareDebCharsFrom]
    by_cases hnil : a = [] ∧ b = []
    · obtain ⟨rfl, rfl⟩ := hnil
      rw [ih (by simp)]
      rfl
    · have hcons := zipWithAll_cons Place.chars (not_and_or.mp hnil)
      have htail : max a.tail.length b.tail.length ≤ n := by
        simp only [List.length_tail]
        omega
      rw [hcons, first_cons, verdict_then, ← compareDebChar_eq, ih htail]

theorem compareDebChars_eq (a b : Bytes) :
    compareDebChars a b = verdict (first Place.seen (List.zipWithAll .chars a b)) :=
  compareDebCharsFrom_eq (Nat.le_refl _)

theorem runs_cons_of_digit {c : UInt8} (hc : isDigit c = true) :
    runs (c :: s) = ([], c :: s.takeWhile isDigit) :: runs (s.dropWhile isDigit) := by
  induction s generalizing c with
  | nil => rw [runs, if_pos hc]; rfl
  | cons d s ih =>
    rw [runs, if_pos hc]
    cases hd : isDigit d with
    | true =>
      rw [ih hd, List.takeWhile_cons_of_pos hd, List.dropWhile_cons_of_pos hd]
    | false =>
      have hneg : ¬isDigit d = true := Bool.eq_false_iff.mp hd
      rw [List.takeWhile_cons_of_neg hneg, List.dropWhile_cons_of_neg hneg, runs, if_neg hneg]
      cases runs s <;> rfl

theorem runs_eq (h : s ≠ []) : runs s = (nonDigits s, digits s) :: runs (afterDigits s) := by
  induction s with
  | nil => exact absurd rfl h
  | cons c s ih =>
    unfold nonDigits digits afterDigits
    cases hc : isDigit c with
    | true =>
      simp only [List.takeWhile_cons, List.dropWhile_cons, hc, Bool.not_true, Bool.false_eq_true,
        if_false]
      exact runs_cons_of_digit hc
    | false =>
      simp only [List.takeWhile_cons, List.dropWhile_cons, hc]
      rw [runs, if_neg (Bool.eq_false_iff.mp hc)]
      by_cases hs : s = []
      · subst hs
        rfl
      · rw [ih hs]
        rfl

theorem head_runs (s : Bytes) : (runs s).head?.getD ([], []) = (nonDigits s, digits s) := by
  cases s with
  | nil => rfl
  | cons c s => rw [runs_eq (List.cons_ne_nil c s)]; rfl

theorem tail_runs (s : Bytes) : (runs s).tail = runs (afterDigits s) := by
  cases s with
  | nil => rfl
  | cons c s => rw [runs_eq (List.cons_ne_nil c s)]; rfl

theorem partPlaces_eq (h : a ≠ [] ∨ b ≠ []) : partPlaces a b =
    List.zipWithAll .chars (nonDigits a) (nonDigits b) ++
      .numbers (digits a) (digits b) :: partPlaces (afterDigits a) (afterDigits b) := by
  have hruns : runs a ≠ [] ∨ runs b ≠ [] :=
    h.imp (fun ha => by rw [runs_eq ha]; exact List.cons_ne_nil _ _)
      (fun hb => by rw [runs_eq hb]; exact List.cons_ne_nil _ _)
  unfold partPlaces
  rw [zipWithAll_cons _ hruns, List.flatten_cons, runPlaces, head_runs, head_runs, tail_runs,
    tail_runs, List.append_assoc]
  rfl

theorem length_afterDigits_le (s : Bytes) : (afterDigits s).length ≤ s.length :=
  ((List.dropWhile_sublist _).trans (List.dropWhile_sublist _)).length_le

theorem length_afterDigits_lt (h : s ≠ []) : (afterDigits s).length < s.length := by
  cases s with
  | nil => exact absurd rfl h
  | cons c s =>
    refine Nat.lt_succ_of_le ?_
    unfold afterDigits
    cases hc : isDigit c with
    | true =>
      simp only [List.dropWhile_cons, hc, Bool.not_true, Bool.false_eq_true, if_false]
      exact (List.dropWhile_sublist _).length_le
    | false =>
      simp only [List.dropWhile_cons, hc]
      exact length_afterDigits_le s

theorem isDigit_of_mem_digits : ∀ c ∈ digits s, isDigit c = true :=
  fun _ hc => List.mem_takeWhile_imp hc

theorem compareDebPartFrom_eq {n : Nat} (h : a.length + b.length ≤ n) :
    compareDebPartFrom n a b = verdict (first Place.seen (partPlaces a b)) := by
  induction n generalizing a b with
  | zero =>
    obtain ⟨rfl, rfl⟩ : a = [] ∧ b = [] := by simpa using h
    rfl
  | succ n ih =>
    rw [compareDebPartFrom]
    by_cases hnil : a = [] ∧ b = []
    · rw [hnil.1, hnil.2]
      rfl
    · have hsome := not_and_or.mp hnil
      have hle : (afterDigits a).length + (afterDigits b).length ≤ n := by
        have hea := length_afterDigits_le a
        have heb := length_afterDigits_le b
        rcases hsome with ha | hb
        · have hlt := length_afterDigits_lt ha
          omega
        · have hlt := length_afterDigits_lt hb
          omega
      rw [if_neg hnil, partPlaces_eq hsome, first_append, first_cons, verdict_then, verdict_then,
        ← compareDebChars_eq, ← compareDigits_eq isDigit_of_mem_digits isDigit_of_mem_digits,
        ← ih hle]
      simp only [ite_not]

theorem compareDebPart_eq (a b : Bytes) :
    compareDebPart a b = verdict (first Place.seen (partPlaces a b)) :=
  compareDebPartFrom_eq (Nat.le_refl _)

/-! ## Versions -/

theorem foldl_epoch {ds : Bytes} (h : ∀ c ∈ ds, isDigit c = true) (n : Nat) :
    (ds.map Go.ascii).foldl (fun epoch ch => wrap (epoch * 10 + ((ch.toNat : Int) - 0x30)))
      (wrap n) = wrap (ds.foldl (fun n c => n * 10 + (c.toNat - 0x30)) n : Nat) := by
  induction ds generalizing n with
  | nil => rw [List.map_nil, List.foldl_nil, List.foldl_nil]
  | cons c ds ih =>
    have hdigit := le_of_isDigit (h c (.head _))
    have hc : (Go.ascii c).toNat = c.toNat := Go.toNat_ascii (by omega)
    have hstep : ((n * 10 + (c.toNat - 0x30) : Nat) : Int) =
        n * 10 + ((c.toNat : Int) - 0x30) := by omega
    have hrest := ih (fun d hd => h d (List.mem_cons_of_mem c hd)) (n * 10 + (c.toNat - 0x30))
    rw [hstep] at hrest
    rw [List.map_cons, List.foldl_cons, List.foldl_cons, hc, wrap_wrap_mul_add, hrest]

theorem epochOf_runes {ds : Bytes} (h : ∀ c ∈ ds, isDigit c = true) :
    epochOf (runes ds) = wrap (value ds) := by
  have hascii : ∀ c ∈ ds, c.toNat < 0x80 := fun c hc => by
    have hdigit := le_of_isDigit (h c hc)
    omega
  have hstart := foldl_epoch h 0
  rw [Int.natCast_zero, wrap_zero] at hstart
  rw [Go.runes_of_lt hascii, epochOf, value, hstart]

theorem parseDebVersion_eq {v : Bytes} (h : IsVersion v) : parseDebVersion v =
    some ⟨wrap (value (cutEpoch v).1), upstream v, (revision v).getD []⟩ := by
  obtain ⟨hne, hdigits⟩ := h
  have hall := List.all_eq_true.mp hdigits
  have hrunes : (runes (cutEpoch v).1).all (fun ch => 0x30 ≤ ch.toNat && ch.toNat ≤ 0x39) := by
    rw [Go.runes_of_lt fun c hc => by have := le_of_isDigit (hall c hc); omega, List.all_map,
      List.all_eq_true]
    intro c hc
    have hdigit := le_of_isDigit (hall c hc)
    simp [Go.toNat_ascii (show c.toNat < 0x80 by omega), hdigit]
  unfold parseDebVersion
  simp only [if_neg hne, hrunes, epochOf_runes hall]
  rfl

/-- The code answers as the first place does at which it tells the versions apart. -/
theorem compareDebianVersion_eq (ha : IsVersion a) (hb : IsVersion b) :
    compareDebianVersion a b = some (verdict (first Place.seen (places a b))) := by
  unfold compareDebianVersion places
  rw [parseDebVersion_eq ha, parseDebVersion_eq hb, first_cons, first_append, verdict_then,
    verdict_then, ← compareDebPart_eq, ← compareDebPart_eq]
  rw [Place.seen, verdict_compare]
  rcases Int.lt_trichotomy (wrap (value (cutEpoch a).1)) (wrap (value (cutEpoch b).1)) with h | h | h
  · simp [h, Int.ne_of_lt h]
  · simp [h, apply_ite some]
  · simp [h, Int.ne_of_gt h, Int.lt_asymm h]

/-- Two versions are ordered as deb-version(7) says exactly when the places at which the code
departs from it do not matter. -/
theorem orders_debian_versions_iff {a b : Bytes} (ha : IsVersion a) (hb : IsVersion b) :
    compareDebianVersion a b = some (verdict (debOrder a b)) ↔ Alike (places a b) := by
  have hinj : ∀ o p : Ordering, verdict o = verdict p ↔ p = o := by decide
  rw [compareDebianVersion_eq ha hb, debOrder_eq, Option.some.injEq, hinj, first_eq_iff]

/-- A release candidate and a security update are before and after the version they belong to. -/
theorem orders_debian_versions_curl :
    compareDebianVersion (bytes "1:7.88~rc1-10") (bytes "1:7.88-10") =
        some (verdict (debOrder (bytes "1:7.88~rc1-10") (bytes "1:7.88-10"))) ∧
      compareDebianVersion (bytes "7.88.1-10+deb12u12") (bytes "7.88.1-10+deb12u5") =
        some (verdict (debOrder (bytes "7.88.1-10+deb12u12") (bytes "7.88.1-10+deb12u5"))) :=
  ⟨(orders_debian_versions_iff (by decide +kernel) (by decide +kernel)).mpr (by decide +kernel),
    (orders_debian_versions_iff (by decide +kernel) (by decide +kernel)).mpr (by decide +kernel)⟩

/-- The fixed version only adds a revision of zero: the order has them equal, the code has the
installed one older. -/
theorem zero_revision_taken_as_newer :
    IsVersion (bytes "1.0") ∧ IsVersion (bytes "1.0-0") ∧
      debOrder (bytes "1.0") (bytes "1.0-0") = .eq ∧
      compareDebianVersion (bytes "1.0") (bytes "1.0-0") = some (-1) := by
  decide +kernel

end Nexara.Scanner
