import Nexara.Apischema.Validate

/-!
# Integer parameters are exact

An integer parameter is read from any of Go's integers, from a float or from a text, as the number
that was sent, within bounds that are compared without widening it to a float. The one exception is
a float of exactly `2 ^ 63`: the constant it is compared with rounds to `2 ^ 63` itself, so it is
converted although no `int64` holds it (`integer_exact_iff`).
-/

namespace Nexara.Apischema

open Go (Float64 Finite)

/-! ## The number a value stands for -/

def FloatIs (f : Float64) (n : ℤ) : Prop := ∃ x, f = .finite x ∧ x.val = n

/-- The integer a value stands for: that of a text is written in decimal, with spaces around it. -/
def Any.Denotes : Any → ℤ → Prop
  | int v, n => v.toInt = n
  | int8 v, n => v.toInt = n
  | int16 v, n => v.toInt = n
  | int32 v, n => v.toInt = n
  | int64 v, n => v.toInt = n
  | uint v, n => v.toNat = n
  | uint8 v, n => v.toNat = n
  | uint16 v, n => v.toNat = n
  | uint32 v, n => v.toNat = n
  | uint64 v, n => v.toNat = n
  | float32 f, n => FloatIs f n
  | float64 f, n => FloatIs f n
  | number s, n => Go.Decimal (Go.trimSpace s).toList n
  | string s, n => Go.Decimal (Go.trimSpace s).toList n
  | nil, _ | bool _, _ | slice _, _ | strings _, _ | object _, _ | other, _ => False

def Any.float? : Any → Option Float64
  | float32 f => some f
  | float64 f => some f
  | _ => none

def Facets.Within (p : Facets) (q : ℚ) : Prop :=
  (∀ lo, p.minimum = some (.finite lo) → lo.val ≤ q) ∧
    ∀ hi, p.maximum = some (.finite hi) → q ≤ hi.val

/-! ## Coercion -/

variable {x : Finite}

theorem maxInt64AsFloat_le : maxInt64AsFloat.le (.finite x) = true ↔ 2 ^ 63 ≤ x.val := by
  simp [maxInt64AsFloat, Float64.le, Finite.ofPow]

theorem lt_maxInt64AsFloat : (Float64.finite x).lt maxInt64AsFloat = true ↔ x.val < 2 ^ 63 := by
  simp [maxInt64AsFloat, Float64.lt, Finite.ofPow]

theorem maxInt64AsFloat_lt : maxInt64AsFloat.lt (.finite x) = true ↔ 2 ^ 63 < x.val := by
  simp [maxInt64AsFloat, Float64.lt, Finite.ofPow]

theorem minInt64AsFloat_le : minInt64AsFloat.le (.finite x) = true ↔ -2 ^ 63 ≤ x.val := by
  simp [minInt64AsFloat, Float64.le, Finite.ofPow]

theorem lt_minInt64AsFloat : (Float64.finite x).lt minInt64AsFloat = true ↔ x.val < -2 ^ 63 := by
  simp [minInt64AsFloat, Float64.lt, Finite.ofPow]

variable {env : Env} {field : String} {n : Int64}

/-- A float that is converted is the integer it stands for, or `2 ^ 63`, which there is no `int64`
for. -/
theorem floatToInt64_eq_value {f : Float64} (h : floatToInt64 env f = .value n) :
    FloatIs f n.toInt ∨ (FloatIs f (2 ^ 63) ∧ n = env.indefinite) := by
  cases f with
  | inf neg | nan => cases h
  | finite x =>
    dsimp only [floatToInt64] at h
    split_ifs at h with hint hrange
    cases h
    rw [not_not] at hint
    simp only [Bool.or_eq_true, maxInt64AsFloat_lt, lt_minInt64AsFloat, not_or, not_lt] at hrange
    have hlo : -2 ^ 63 ≤ Go.trunc x.val := by
      have := hrange.2
      rw [hint] at this
      exact_mod_cast this
    have hhi : Go.trunc x.val ≤ 2 ^ 63 := by
      have := hrange.1
      rw [hint] at this
      exact_mod_cast this
    rcases hhi.lt_or_eq with hlt | heq
    · exact .inl ⟨x, rfl, by rw [Go.toInt_toInt64 _ _ hlo hlt]; exact hint⟩
    · refine .inr ⟨⟨x, rfl, by rw [hint, heq]⟩, ?_⟩
      rw [Float64.toInt64, if_neg (by omega)]

theorem floatToInt64_limit {f : Float64} (h : FloatIs f (2 ^ 63)) :
    floatToInt64 env f = .value env.indefinite := by
  obtain ⟨x, rfl, hx⟩ := h
  have htrunc : Go.trunc x.val = 2 ^ 63 := by rw [hx]; exact Go.trunc_intCast _
  have hnot : ¬(maxInt64AsFloat.lt (.finite x) || (Float64.finite x).lt minInt64AsFloat) = true := by
    rw [Bool.or_eq_true, maxInt64AsFloat_lt, lt_minInt64AsFloat, hx]
    norm_num
  rw [floatToInt64, if_neg (by rw [htrunc, hx]; simp), if_neg hnot, Float64.toInt64, if_neg (by omega)]

theorem parseInt64_eq_value_iff {s : String} :
    parseInt64 s = .value n ↔ Go.Decimal (Go.trimSpace s).toList n.toInt := by
  rw [← Go.parseInt_eq_ok_iff]
  unfold parseInt64
  cases Go.parseInt (Go.trimSpace s) with
  | ok m => simp
  | error err =>
    dsimp only
    split_ifs <;> simp

theorem uintToInt64_eq_value_iff {u : UInt64} : uintToInt64 u = .value n ↔ u.toNat = n.toInt := by
  have hn := Go.toInt_range n
  unfold uintToInt64
  split_ifs with hbig
  · refine ⟨nofun, fun h => ?_⟩
    omega
  · have hu : (Int64.ofInt u.toNat).toInt = u.toNat :=
      Go.toInt_ofInt_of_range (by omega) (by omega)
    constructor
    · intro h
      cases h
      exact hu.symm
    · intro h
      rw [h, Int64.ofInt_toInt]

/-- What is not a float is read as the number it stands for, if that fits. -/
theorem toInt64_eq_value_iff {raw : Any} (hfloat : raw.float? = none) :
    toInt64 env raw = .value n ↔ raw.Denotes n.toInt := by
  cases raw with
  | int v | int64 v => simp [toInt64, Any.Denotes, Int64.toInt_inj]
  | int8 v | int16 v | int32 v => simp [toInt64, Any.Denotes, ← Int64.toInt_inj]
  | uint v | uint64 v =>
    rw [toInt64, uintToInt64_eq_value_iff]
    rfl
  | uint8 v | uint16 v | uint32 v =>
    rw [toInt64, uintToInt64_eq_value_iff, widenUint]
    rfl
  | number s | string s =>
    rw [toInt64, parseInt64_eq_value_iff]
    rfl
  | float32 f | float64 f => cases hfloat
  | nil | bool b | slice elems | strings elems | object fields | other =>
    simp [toInt64, Any.Denotes]

/-- The value is a float of exactly `2 ^ 63`. -/
def Any.IsLimit (raw : Any) : Prop := ∃ f, raw.float? = some f ∧ FloatIs f (2 ^ 63)

theorem toInt64_eq_value {raw : Any} (h : toInt64 env raw = .value n) :
    raw.Denotes n.toInt ∨ (raw.IsLimit ∧ n = env.indefinite) := by
  cases hfloat : raw.float? with
  | none => exact .inl ((toInt64_eq_value_iff hfloat).1 h)
  | some f =>
    cases raw with
    | float32 g | float64 g =>
      exact (floatToInt64_eq_value h).imp_right fun hl => ⟨⟨g, rfl, hl.1⟩, hl.2⟩
    | _ => cases hfloat

theorem toInt64_limit {raw : Any} (h : raw.IsLimit) : toInt64 env raw = .value env.indefinite := by
  obtain ⟨f, hf, hlimit⟩ := h
  cases raw with
  | float32 g | float64 g =>
    cases hf
    exact floatToInt64_limit hlimit
  | _ => cases hf

/-! ## Bounds -/

theorem toInt_range_rat (n : Int64) : (-2 ^ 63 : ℚ) ≤ n.toInt ∧ (n.toInt : ℚ) < 2 ^ 63 := by
  exact_mod_cast Go.toInt_range n

theorem checkIntMinimum_eq_ok_iff :
    checkIntMinimum env field (.finite x) n = .ok () ↔ x.val ≤ n.toInt := by
  obtain ⟨hlo, hhi⟩ := toInt_range_rat n
  unfold checkIntMinimum
  by_cases hmax : 2 ^ 63 ≤ x.val
  · rw [if_pos (maxInt64AsFloat_le.2 hmax)]
    exact ⟨nofun, fun h => absurd (hmax.trans h) (not_le.2 hhi)⟩
  · rw [if_neg (by rw [maxInt64AsFloat_le]; exact hmax)]
    by_cases hmin : -2 ^ 63 ≤ x.val
    · have hceil := Go.toInt_toInt64 env.indefinite Int.ceil
        (by have := Int.le_ceil x.val; exact_mod_cast hmin.trans this)
        (Finite.ceil_lt (not_le.1 hmax))
      rw [if_pos (minInt64AsFloat_le.2 hmin), ite_error_eq_ok, Int64.lt_iff_toInt_lt, hceil, not_lt,
        Int.ceil_le]
    · rw [if_neg (by rw [minInt64AsFloat_le]; exact hmin)]
      exact ⟨fun _ => (not_le.1 hmin).le.trans hlo, fun _ => rfl⟩

theorem checkIntMaximum_eq_ok_iff :
    checkIntMaximum env field (.finite x) n = .ok () ↔ n.toInt ≤ x.val := by
  obtain ⟨hlo, hhi⟩ := toInt_range_rat n
  unfold checkIntMaximum
  by_cases hmin : x.val < -2 ^ 63
  · rw [if_pos (lt_minInt64AsFloat.2 hmin)]
    exact ⟨nofun, fun h => absurd (hlo.trans h) (not_le.2 hmin)⟩
  · rw [if_neg (by rw [lt_minInt64AsFloat]; exact hmin)]
    by_cases hmax : x.val < 2 ^ 63
    · have hfloor := Go.toInt_toInt64 env.indefinite Int.floor
        (Int.le_floor.2 (by exact_mod_cast not_lt.1 hmin))
        (by have := Int.floor_le x.val; exact_mod_cast this.trans_lt hmax)
      rw [if_pos (lt_maxInt64AsFloat.2 hmax), ite_error_eq_ok, Int64.lt_iff_toInt_lt, hfloor, not_lt,
        Int.le_floor]
    · rw [if_neg (by rw [lt_maxInt64AsFloat]; exact hmax)]
      exact ⟨fun _ => hhi.le.trans (not_lt.1 hmax), fun _ => rfl⟩

theorem firstDefect_eq_ok_iff {checks : List (Bool × String)} :
    firstDefect checks = .ok () ↔ ∀ check ∈ checks, check.1 = false := by
  induction checks with
  | nil => simp [firstDefect]
  | cons check checks ih =>
    obtain ⟨defect, text⟩ := check
    cases defect <;> simp [firstDefect, ih]

theorem finite_of_checkDeclaration {name : String} {p : Facets} {hasItems : Bool}
    (h : checkDeclaration env name p hasItems = .ok ()) :
    (∀ m, p.minimum = some m → ∃ x, m = .finite x) ∧ ∀ m, p.maximum = some m → ∃ x, m = .finite x := by
  have hall := firstDefect_eq_ok_iff.1 h
  simp only [declarationChecks, List.forall_mem_cons] at hall
  have hfin : ∀ {o : Option Float64}, (o.any fun m => !m.isFinite) = false →
      ∀ m, o = some m → ∃ x, m = .finite x := by
    rintro _ ho m rfl
    cases m with
    | finite x => exact ⟨x, rfl⟩
    | inf neg | nan => cases ho
  obtain ⟨-, -, -, -, -, -, -, -, hmin, hmax, -⟩ := hall
  exact ⟨hfin hmin, hfin hmax⟩

theorem onFacet_eq_ok_iff {α : Type} {facet : Option α} {check : α → Except Err Unit} :
    onFacet facet check = .ok () ↔ ∀ x, facet = some x → check x = .ok () := by
  cases facet <;> simp [onFacet]

theorem checkIntBounds_eq_ok_iff {p : Facets} (hmin : ∀ m, p.minimum = some m → ∃ x, m = .finite x)
    (hmax : ∀ m, p.maximum = some m → ∃ x, m = .finite x) :
    checkIntBounds env field p n = .ok () ↔ p.Within n.toInt := by
  rw [checkIntBounds, seq_eq_ok, onFacet_eq_ok_iff, onFacet_eq_ok_iff]
  constructor
  · rintro ⟨hlo, hhi⟩
    exact ⟨fun x hx => checkIntMinimum_eq_ok_iff.1 (hlo _ hx),
      fun x hx => checkIntMaximum_eq_ok_iff.1 (hhi _ hx)⟩
  · rintro ⟨hlo, hhi⟩
    constructor
    · intro m hm
      obtain ⟨x, rfl⟩ := hmin m hm
      exact checkIntMinimum_eq_ok_iff.2 (hlo x hm)
    · intro m hm
      obtain ⟨x, rfl⟩ := hmax m hm
      exact checkIntMaximum_eq_ok_iff.2 (hhi x hm)

/-! ## The pipeline -/

theorem validateValue_integer_iff {prop : Property} (htype : prop.facets.type = .integer) {raw v : Any} :
    validateValue env prop field raw = .ok v ↔
      checkDeclaration env field prop.facets prop.items.isSome = .ok () ∧
        ∃ n, toInt64 env raw = .value n ∧ prop.facets.Within n.toInt ∧ v = .int64 n := by
  have helem : (prop.elem env).isSome = prop.items.isSome := Option.isSome_map
  rw [validateValue_eq, validateWith, seq_eq_ok, helem]
  constructor
  · rintro ⟨hdecl, h⟩
    obtain ⟨hmin, hmax⟩ := finite_of_checkDeclaration hdecl
    refine ⟨hdecl, ?_⟩
    simp only [coerce, htype] at h
    cases hread : toInt64 env raw with
    | shape | outOfRange => rw [hread] at h; cases h
    | value n =>
      rw [hread] at h
      obtain ⟨hbounds, hv⟩ := seq_eq_ok.1 h
      cases hv
      exact ⟨n, rfl, (checkIntBounds_eq_ok_iff hmin hmax).1 hbounds, rfl⟩
  · rintro ⟨hdecl, n, hread, hwithin, rfl⟩
    obtain ⟨hmin, hmax⟩ := finite_of_checkDeclaration hdecl
    refine ⟨hdecl, ?_⟩
    simp only [coerce, htype, hread]
    exact seq_eq_ok.2 ⟨(checkIntBounds_eq_ok_iff hmin hmax).2 hwithin, rfl⟩

/-- What is accepted is the number that was sent, within the bounds; and a Go integer, or one in
plain decimal, that fits and is within the bounds of a sound declaration is accepted. -/
def ReadsExactly (env : Env) (field : String) (prop : Property) (raw : Any) : Prop :=
  (∀ v, validateValue env prop field raw = .ok v →
    ∃ n : Int64, v = .int64 n ∧ raw.Denotes n.toInt ∧ prop.facets.Within n.toInt) ∧
  (checkDeclaration env field prop.facets prop.items.isSome = .ok () → raw.float? = none →
    ∀ n : ℤ, raw.Denotes n → -2 ^ 63 ≤ n → n < 2 ^ 63 → prop.facets.Within n →
      validateValue env prop field raw = .ok (.int64 (Int64.ofInt n)))

/-- **Integers are exact**, but for a float of `2 ^ 63` where the bounds allow what it is converted
to. -/
theorem integer_exact_iff (env : Env) (field : String) (prop : Property)
    (htype : prop.facets.type = .integer) (raw : Any) :
    ReadsExactly env field prop raw ↔
      ¬(raw.IsLimit ∧ checkDeclaration env field prop.facets prop.items.isSome = .ok () ∧
        prop.facets.Within env.indefinite.toInt) := by
  constructor
  · rintro ⟨hsound, -⟩ ⟨hlimit, hdecl, hwithin⟩
    obtain ⟨n, hn, hdenotes, -⟩ := hsound _
      ((validateValue_integer_iff htype).2 ⟨hdecl, _, toInt64_limit hlimit, hwithin, rfl⟩)
    -- the number would be `2 ^ 63`
    obtain ⟨f, hf, x, rfl, hx⟩ := hlimit
    have hrange := Go.toInt_range n
    have hval : (n.toInt : ℚ) = 2 ^ 63 := by
      cases raw with
      | float32 g | float64 g =>
        cases hf
        obtain ⟨y, hy, hyn⟩ := hdenotes
        cases hy
        rw [← hyn]
        norm_cast
      | _ => cases hf
    have : n.toInt = 2 ^ 63 := by exact_mod_cast hval
    omega
  · intro hnot
    refine ⟨fun v hv => ?_, fun hdecl hfloat n hdenotes hlo hhi hwithin => ?_⟩
    · obtain ⟨hdecl, n, hread, hwithin, rfl⟩ := (validateValue_integer_iff htype).1 hv
      obtain hdenotes | ⟨hlimit, rfl⟩ := toInt64_eq_value hread
      · exact ⟨n, rfl, hdenotes, hwithin⟩
      · exact absurd ⟨hlimit, hdecl, hwithin⟩ hnot
    · have hn : (Int64.ofInt n).toInt = n := Go.toInt_ofInt_of_range hlo hhi
      refine (validateValue_integer_iff htype).2 ⟨hdecl, Int64.ofInt n, ?_, ?_, rfl⟩
      · rwa [toInt64_eq_value_iff hfloat, hn]
      · rwa [hn]

def amd64 : Env where
  formatFloat _ := "0"
  parseFloat _ := none
  float64OfInt _ := .ofPow 0 0 (by decide) (by decide)
  indefinite := Int64.ofInt (-2 ^ 63)
  lookupFormat _ := none
  compileRegexp _ := .error "no patterns"

def cores : Property :=
  ⟨{ type := .integer
     minimum := some (.finite (.ofPow 1 0 Finite.abs_one_lt (by decide)))
     maximum := some (.finite (.ofPow 128 0 (by decide) (by decide))) }, none⟩

theorem cores_declared : checkDeclaration amd64 "cores" cores.facets false = .ok () := by
  decide +kernel

theorem integer_exact_cores : ReadsExactly amd64 "cores" cores (.string " +16 ") ∧
    validateValue amd64 cores "cores" (.string " +16 ") = .ok (.int64 16) := by
  have hexact := (integer_exact_iff amd64 "cores" cores rfl (.string " +16 ")).2
    (by rintro ⟨⟨f, hf, -⟩, -⟩; cases hf)
  refine ⟨hexact, hexact.2 cores_declared rfl 16 ?_ (by decide) (by decide) ?_⟩
  · show Go.Decimal ['+', '1', '6'] (Go.numeral ['1', '6'] : ℤ)
    exact .plus (by decide) (List.all_eq_true.1 rfl)
  · refine ⟨fun lo hlo => ?_, fun hi hhi => ?_⟩
    · cases hlo
      norm_num [Finite.ofPow]
    · cases hhi
      norm_num [Finite.ofPow]

/-- The float `2 ^ 63` is accepted for an integer parameter without bounds, as the least `int64`. -/
theorem limit_float_accepted : ∃ raw : Any, raw.Denotes (2 ^ 63) ∧
    validateValue amd64 ⟨{ type := .integer }, none⟩ "bytes" raw =
      .ok (.int64 (Int64.ofInt (-2 ^ 63))) := by
  have hval : FloatIs maxInt64AsFloat (2 ^ 63) := ⟨_, rfl, by norm_num [Finite.ofPow]⟩
  refine ⟨.float64 maxInt64AsFloat, hval, (validateValue_integer_iff rfl).2 ⟨?_, _, ?_, ?_, rfl⟩⟩
  · decide +kernel
  · exact toInt64_limit ⟨_, rfl, hval⟩
  · exact ⟨fun lo hlo => (by cases hlo), fun hi hhi => (by cases hhi)⟩

end Nexara.Apischema
