import Mathlib
import Nexara.Go.Splits
import Nexara.Go.Strconv

/-!
# Comparing virtio-win versions

`Compare` takes the numbers of two versions place by place, each read by `strconv.Atoi` with its
error dropped. A number of any length counts as the smaller of itself and `2^63 - 1`
(`compares_of_compare`), so two versions whose first different numbers are both at least that large may
compare as equal.
-/

namespace Nexara.Virtiowin

/-- `\d+` -/
def isNumber (s : String) : Bool := s ≠ "" && s.toList.all Char.isDigit

/-- The texts that `^\d+(?:\.\d+)*(?:-\d+)?$` matches. -/
def validVersion (v : String) : Bool :=
  match Go.cut v '-' with
  | none => (Go.split v '.').all isNumber
  | some (base, release) => (Go.split base '.').all isNumber && isNumber release

def splitRelease (v : String) : String × String := (Go.cut v '-').getD (v, "0")

/-- What is read at place `i`. -/
def partValue (parts : List String) (i : ℕ) : ℤ := parts[i]?.elim 0 Go.atoi

/-- The results -1, 0 and 1 are `lt`, `eq` and `gt`; the loop stops at the first that is not 0. -/
def compareNumericParts (a b : String) : Ordering :=
  let aParts := Go.split a '.'
  let bParts := Go.split b '.'
  (List.range (max aParts.length bParts.length)).foldr
    (fun i rest => (cmp (partValue aParts i) (partValue bParts i)).then rest) .eq

def compare (a b : String) : Ordering :=
  (compareNumericParts (splitRelease a).1 (splitRelease b).1).then
    (compareNumericParts (splitRelease a).2 (splitRelease b).2)

/-! ## Sequences of numbers -/

section

variable {f g : WithTop ℕ → ℕ} {i : WithTop ℕ}

def FirstDifference (f g : WithTop ℕ → ℕ) (i : WithTop ℕ) : Prop := (∀ j < i, f j = g j) ∧ f i ≠ g i

theorem FirstDifference.compares (h : FirstDifference f g i) :
    (cmp (f i) (g i)).Compares (toLex f) (toLex g) := by
  rcases lt_or_gt_of_ne h.2 with hlt | hgt
  · rw [(cmp_eq_lt_iff _ _).mpr hlt]
    exact ⟨i, h.1, hlt⟩
  · rw [(cmp_eq_gt_iff _ _).mpr hgt]
    exact ⟨i, fun j hj => (h.1 j hj).symm, hgt⟩

theorem exists_firstDifference (h : f ≠ g) : ∃ i, FirstDifference f g i := by
  obtain ⟨i, hi, hmin⟩ := WellFounded.has_min (wellFounded_lt (α := WithTop ℕ)) {i | f i ≠ g i}
    (Function.ne_iff.mp h)
  exact ⟨i, fun j hj => by_contra fun hne => hmin j hne hj, hi⟩

/-- The sequence with every number above `m` lowered to it. -/
def capped (m : ℕ) (f : WithTop ℕ → ℕ) (i : WithTop ℕ) : ℕ := min (f i) m

/-- A comparison of capped sequences is one of the sequences, unless their first different numbers
are both cut. -/
theorem compares_iff_of_capped {m : ℕ} {o : Ordering}
    (hcapped : o.Compares (toLex (capped m f)) (toLex (capped m g))) :
    o.Compares (toLex f) (toLex g) ↔ ∀ i, FirstDifference f g i → m ≤ min (f i) (g i) →
      (cmp (f i) (g i)).Compares (toLex (capped m f)) (toLex (capped m g)) := by
  constructor
  · intro h i hi _
    rwa [← h.inj hi.compares]
  · intro h
    by_cases hsame : f = g
    · subst hsame
      rw [hcapped.inj (show (Ordering.eq).Compares _ _ from rfl)]
      rfl
    · obtain ⟨i, hi⟩ := exists_firstDifference hsame
      suffices hc : (cmp (f i) (g i)).Compares (toLex (capped m f)) (toLex (capped m g)) by
        rw [hcapped.inj hc]
        exact hi.compares
      by_cases hlarge : m ≤ min (f i) (g i)
      · exact h i hi hlarge
      · -- one of the two numbers is read as it is
        have hcut : FirstDifference (capped m f) (capped m g) i :=
          ⟨fun j hj => congrArg (min · m) (hi.1 j hj), by have := hi.2; unfold capped; omega⟩
        have hcmp : cmp (capped m f i) (capped m g i) = cmp (f i) (g i) := by
          have hne := hi.2
          unfold capped cmp cmpUsing
          congr 1 <;> simp only [eq_iff_iff] <;> grind
        exact hcmp ▸ hcut.compares

/-- The loop over `n` places from `s`, and the place after them all. -/
theorem loop_compares (n : ℕ) : ∀ s : ℕ, (∀ j : ℕ, j < s → f j = g j) →
    (∀ j : ℕ, s + n ≤ j → f j = g j) →
    (((List.range' s n).foldr (fun (i : ℕ) rest => (cmp (f i) (g i)).then rest) .eq).then
      (cmp (f ⊤) (g ⊤))).Compares (toLex f) (toLex g) := by
  have hbelow : ∀ {i : WithTop ℕ}, (∀ j : ℕ, (j : WithTop ℕ) < i → f j = g j) → f i ≠ g i →
      FirstDifference f g i := by
    intro i heq hne
    refine ⟨fun j hj => ?_, hne⟩
    lift j to ℕ using ne_top_of_lt hj
    exact heq j hj
  induction n with
  | zero =>
    intro s hlow hend
    have hall : ∀ j : ℕ, f j = g j := fun j => (Nat.lt_or_ge j s).elim (hlow j) (hend j)
    by_cases htop : f ⊤ = g ⊤
    · rw [(cmp_eq_eq_iff _ _).mpr htop]
      funext j
      cases j with
      | top => exact htop
      | coe j => exact hall j
    · exact (hbelow (fun j _ => hall j) htop).compares
  | succ n ih =>
    intro s hlow hend
    rw [List.range'_succ, List.foldr_cons, Ordering.then_assoc]
    by_cases hs : f s = g s
    · -- the loop goes on
      rw [(cmp_eq_eq_iff _ _).mpr hs, Ordering.eq_then]
      refine ih (s + 1) (fun j hj => ?_) fun j hj => hend j (by omega)
      rcases Nat.lt_succ_iff_lt_or_eq.mp hj with hlt | rfl
      · exact hlow j hlt
      · exact hs
    · have hfirst := hbelow (fun j hj => hlow j (by exact_mod_cast hj)) hs
      convert hfirst.compares using 1
      rcases lt_or_gt_of_ne hs with hlt | hgt
      · rw [(cmp_eq_lt_iff _ _).mpr hlt, Ordering.lt_then]
      · rw [(cmp_eq_gt_iff _ _).mpr hgt, Ordering.gt_then]

end

/-! ## The numbers of a version -/

/-- The numbers in the order they count: the components, zeros past the last, and after them all the
release. -/
def numbers (v : String) : WithTop ℕ → ℕ
  | (i : ℕ) => (Go.split (splitRelease v).1 '.')[i]?.elim 0 fun s => Go.numeral s.toList
  | ⊤ => Go.numeral (splitRelease v).2.toList

/-- The largest `int`. -/
def maxInt : ℕ := 2 ^ 63 - 1

variable {a b v s : String}

theorem isNumber_iff : isNumber s = true ↔ s ≠ "" ∧ ∀ c ∈ s.toList, c.isDigit = true := by
  simp [isNumber]

theorem atoi_number (h : isNumber s = true) : Go.atoi s = (min (Go.numeral s.toList) maxInt : ℕ) := by
  obtain ⟨hne, hdigits⟩ := isNumber_iff.mp h
  have hread : Go.digits s.toList = some (Go.numeral s.toList) := by
    rw [Go.digits, if_pos ⟨by simpa using hne, List.all_eq_true.mpr hdigits⟩,
      Go.numeral_eq_readFrom]
    rfl
  unfold Go.atoi
  split
  · next hminus => exact absurd (hdigits '-' (hminus ▸ (.head _))) (by decide)
  · next hplus => exact absurd (hdigits '+' (hplus ▸ (.head _))) (by decide)
  · rw [hread]
    simp [maxInt]

theorem split_number (h : isNumber s = true) : Go.split s '.' = [s] := by
  refine Go.split_join (d := ".") rfl (List.cons_ne_nil s []) fun t ht hdot => ?_
  rw [List.mem_singleton.mp ht] at hdot
  exact absurd ((isNumber_iff.mp h).2 '.' hdot) (by decide)

theorem valid_parts (h : validVersion v = true) :
    (∀ s ∈ Go.split (splitRelease v).1 '.', isNumber s = true) ∧
      isNumber (splitRelease v).2 = true := by
  unfold validVersion at h
  unfold splitRelease
  cases hcut : Go.cut v '-' with
  | none => exact ⟨by simpa [hcut] using h, show isNumber "0" = true by decide⟩
  | some p => simpa [hcut] using h

theorem numbers_coe (v : String) (i : ℕ) : numbers v i =
    (Go.split (splitRelease v).1 '.')[i]?.elim 0 fun s => Go.numeral s.toList := rfl

theorem partValue_base (h : validVersion v = true) (i : ℕ) :
    partValue (Go.split (splitRelease v).1 '.') i = (capped maxInt (numbers v) i : ℕ) := by
  unfold partValue capped
  rw [numbers_coe]
  cases hi : (Go.split (splitRelease v).1 '.')[i]? with
  | none => rfl
  | some s => exact atoi_number ((valid_parts h).1 s (List.mem_of_getElem? hi))

theorem numbers_past {i : ℕ} (h : (Go.split (splitRelease v).1 '.').length ≤ i) :
    numbers v i = 0 := by
  rw [numbers_coe, List.getElem?_eq_none h]
  rfl

/-- Two valid versions compare as their capped numbers do, place by place. -/
theorem compares_of_compare {o : Ordering} (ha : validVersion a = true) (hb : validVersion b = true)
    (ho : compare a b = o) :
    o.Compares (toLex (capped maxInt (numbers a))) (toLex (capped maxInt (numbers b))) := by
  have hcast : ∀ m n : ℕ, cmp (m : ℤ) n = cmp m n := by simp [cmp, cmpUsing]
  have hrelease : compareNumericParts (splitRelease a).2 (splitRelease b).2 =
      cmp (capped maxInt (numbers a) ⊤) (capped maxInt (numbers b) ⊤) := by
    unfold compareNumericParts
    rw [split_number (valid_parts ha).2, split_number (valid_parts hb).2]
    show (cmp (Go.atoi _) (Go.atoi _)).then .eq = _
    rw [atoi_number (valid_parts ha).2, atoi_number (valid_parts hb).2, hcast]
    exact Ordering.then_eq
  unfold compare at ho
  rw [hrelease] at ho
  subst ho
  unfold compareNumericParts
  simp only [partValue_base ha, partValue_base hb, hcast, List.range_eq_range']
  have hpast : ∀ j : ℕ, max (Go.split (splitRelease a).1 '.').length
      (Go.split (splitRelease b).1 '.').length ≤ j →
      capped maxInt (numbers a) j = capped maxInt (numbers b) j := by
    intro j hj
    unfold capped
    rw [numbers_past (by omega), numbers_past (by omega)]
  -- or the lengths would be evaluated
  generalize max (Go.split (splitRelease a).1 '.').length _ = n at hpast ⊢
  exact loop_compares n 0 (fun j hj => absurd hj j.not_lt_zero) fun j hj => hpast j (by omega)

/-- **Versions compare as their numbers, up to the largest `int`.** -/
theorem compare_numbers_iff (ha : validVersion a = true) (hb : validVersion b = true) :
    (compare a b).Compares (toLex (capped maxInt (numbers a)))
        (toLex (capped maxInt (numbers b))) ∧
      ((compare a b).Compares (toLex (numbers a)) (toLex (numbers b)) ↔
        ∀ i, FirstDifference (numbers a) (numbers b) i →
          maxInt ≤ min (numbers a i) (numbers b i) →
          (cmp (numbers a i) (numbers b i)).Compares (toLex (capped maxInt (numbers a)))
            (toLex (capped maxInt (numbers b)))) := by
  generalize ho : compare a b = o
  have hcapped := compares_of_compare ha hb ho
  exact ⟨hcapped, compares_iff_of_capped hcapped⟩

theorem compare_numbers_iff_stable :
    validVersion "0.1.96" = true ∧ validVersion "0.1.302-1" = true ∧
      (compare "0.1.96" "0.1.302-1").Compares (toLex (capped maxInt (numbers "0.1.96")))
        (toLex (capped maxInt (numbers "0.1.302-1"))) :=
  ⟨by decide, by decide,
    (compare_numbers_iff (a := "0.1.96") (b := "0.1.302-1") (by decide) (by decide)).1⟩

/-- Two numbers that no `int` holds are read as the same one. -/
theorem long_numbers_compare_equal :
    validVersion "0.1.9223372036854775808" = true ∧ validVersion "0.1.9223372036854775809" = true ∧
      compare "0.1.9223372036854775808" "0.1.9223372036854775809" = .eq ∧
      numbers "0.1.9223372036854775808" 2 < numbers "0.1.9223372036854775809" 2 := by
  decide

end Nexara.Virtiowin
