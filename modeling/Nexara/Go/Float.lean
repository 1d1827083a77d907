import Mathlib.Algebra.Order.Field.Power
import Mathlib.Data.Rat.Floor
import Nexara.Go.Strconv

/-!
# Go's `float64`

A finite `float64` is a rational with 53 bits of mantissa. Comparisons follow IEEE 754: nothing is
below or above a NaN. The conversion to `int64` takes the number rounded to an integer; what it
yields when that is out of range Go leaves to the platform.
-/

namespace Go

/-- The rationals a `float64` holds. -/
def Representable (q : ℚ) : Prop :=
  ∃ m e : ℤ, |m| < 2 ^ 53 ∧ -1074 ≤ e ∧ e ≤ 971 ∧ q = m * 2 ^ e

structure Finite where
  val : ℚ
  representable : Representable val

inductive Float64 where
  | finite (x : Finite)
  | inf (negative : Bool)
  | nan

namespace Float64

def isFinite : Float64 → Bool
  | finite _ => true
  | _ => false

def lt : Float64 → Float64 → Bool
  | nan, _ | _, nan => false
  | finite x, finite y => x.val < y.val
  | finite _, inf negative => !negative
  | inf negative, finite _ => negative
  | inf negative, inf negative' => negative && !negative'

def le : Float64 → Float64 → Bool
  | nan, _ | _, nan => false
  | finite x, finite y => x.val ≤ y.val
  | finite _, inf negative => !negative
  | inf negative, finite _ => negative
  | inf negative, inf negative' => negative || !negative'

/-- The conversion to `int64` of the number rounded to an integer. -/
def toInt64 (indefinite : Int64) (round : ℚ → ℤ) : Float64 → Int64
  | finite x =>
    if -2 ^ 63 ≤ round x.val ∧ round x.val < 2 ^ 63 then Int64.ofInt (round x.val) else indefinite
  | _ => indefinite

end Float64

def trunc (q : ℚ) : ℤ := if 0 ≤ q then ⌊q⌋ else ⌈q⌉

theorem trunc_intCast (k : ℤ) : trunc k = k := by
  unfold trunc
  split_ifs <;> simp

def Finite.ofPow (m : ℤ) (e : ℕ) (hm : |m| < 2 ^ 53) (he : e ≤ 971) : Finite where
  val := m * 2 ^ e
  representable := ⟨m, e, hm, by omega, by omega, by rw [zpow_natCast]⟩

theorem Finite.abs_one_lt : |(1 : ℤ)| < 2 ^ 53 := by decide

/-- A `float64` below `2 ^ 63` stays below it when rounded up: one that is no integer is much
smaller. -/
theorem Finite.ceil_lt {x : Finite} (h : x.val < 2 ^ 63) : ⌈x.val⌉ < 2 ^ 63 := by
  obtain ⟨m, e, hm, -, -, hval⟩ := x.representable
  rcases le_or_gt 0 e with he | he
  · -- an integer
    obtain ⟨k, rfl⟩ := Int.eq_ofNat_of_zero_le he
    have hint : x.val = ((m * 2 ^ k : ℤ) : ℚ) := by
      rw [hval, zpow_natCast]
      push_cast
      rfl
    rw [hint] at h ⊢
    rw [Int.ceil_intCast]
    exact_mod_cast h
  · have hpow : (2 : ℚ) ^ e ≤ 1 := zpow_le_one_of_nonpos₀ (by norm_num) he.le
    have hm' : (m : ℚ) ≤ 2 ^ 53 := by exact_mod_cast (le_abs_self m).trans hm.le
    have hpos : (0 : ℚ) ≤ 2 ^ e := by positivity
    have hle : x.val ≤ 2 ^ 53 := by
      rw [hval]
      calc (m : ℚ) * 2 ^ e ≤ 2 ^ 53 * 2 ^ e := by gcongr
        _ ≤ 2 ^ 53 * 1 := by gcongr
        _ = 2 ^ 53 := mul_one _
    have hceil : ⌈x.val⌉ ≤ 2 ^ 53 := Int.ceil_le.2 (by exact_mod_cast hle)
    omega

theorem toInt_toInt64 (indefinite : Int64) (round : ℚ → ℤ) {x : Finite}
    (hlo : -2 ^ 63 ≤ round x.val) (hhi : round x.val < 2 ^ 63) :
    ((Float64.finite x).toInt64 indefinite round).toInt = round x.val := by
  rw [Float64.toInt64, if_pos ⟨hlo, hhi⟩]
  exact toInt_ofInt_of_range hlo hhi

end Go
