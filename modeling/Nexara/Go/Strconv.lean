import Mathlib.Data.Nat.Digits.Defs

/-!
# Integers of Go's package `strconv`

`ParseInt` and `ParseUint` for base ten and 64 bits, with the overflow checks of the loop. The
result is the integer that the text writes in decimal, exactly when the text is a decimal integer
and fits (`parseInt_eq_ok_iff`).
-/

namespace Go

/-- `ErrSyntax` and `ErrRange`. -/
inductive ParseError where
  | invalidSyntax
  | outOfRange
  deriving DecidableEq

def digitValue (c : Char) : ℕ := c.toNat - '0'.toNat

/-- The loop of `ParseUint`. A product below the cutoff does not wrap around; the sum with a digit
may. -/
def parseUintFrom : ℕ → List Char → Except ParseError ℕ
  | n, [] => .ok n
  | n, c :: cs =>
    if !c.isDigit then .error .invalidSyntax
    else if (2 ^ 64 - 1) / 10 + 1 ≤ n then .error .outOfRange
    else
      let n₁ := (10 * n + digitValue c) % 2 ^ 64
      if n₁ < 10 * n then .error .outOfRange else parseUintFrom n₁ cs

def parseUint (cs : List Char) : Except ParseError ℕ :=
  if cs = [] then .error .invalidSyntax else parseUintFrom 0 cs

/-- The end of `ParseInt`; the number that goes with `ErrRange` is beyond both cutoffs. -/
def withSign : Bool → Except ParseError ℕ → Except ParseError Int64
  | _, .error err => .error err
  | false, .ok un => if 2 ^ 63 ≤ un then .error .outOfRange else .ok (Int64.ofInt un)
  | true, .ok un => if 2 ^ 63 < un then .error .outOfRange else .ok (Int64.ofInt (-un))

def parseInt (s : String) : Except ParseError Int64 :=
  match s.toList with
  | [] => .error .invalidSyntax
  | '+' :: cs => withSign false (parseUint cs)
  | '-' :: cs => withSign true (parseUint cs)
  | cs => withSign false (parseUint cs)

/-- The message of a `NumError`, with the text in quotes. -/
def ParseError.text (quoted : String) : ParseError → String
  | .invalidSyntax => "strconv.ParseInt: parsing " ++ quoted ++ ": invalid syntax"
  | .outOfRange => "strconv.ParseInt: parsing " ++ quoted ++ ": value out of range"

/-! ## What a text writes -/

def numeral (ds : List Char) : ℕ := Nat.ofDigits 10 (ds.reverse.map digitValue)

/-- The text is digits after at most one sign, and writes the number. -/
inductive Decimal : List Char → ℤ → Prop where
  | plain {ds : List Char} (hne : ds ≠ []) (hdigits : ∀ c ∈ ds, c.isDigit = true) :
    Decimal ds (numeral ds)
  | plus {ds : List Char} (hne : ds ≠ []) (hdigits : ∀ c ∈ ds, c.isDigit = true) :
    Decimal ('+' :: ds) (numeral ds)
  | minus {ds : List Char} (hne : ds ≠ []) (hdigits : ∀ c ∈ ds, c.isDigit = true) :
    Decimal ('-' :: ds) (-numeral ds)

theorem digitValue_le {c : Char} (h : c.isDigit = true) : digitValue c ≤ 9 := by
  have hc : c.toNat ≤ 57 := by
    simp only [Char.isDigit, Bool.and_eq_true, decide_eq_true_eq] at h
    exact h.2
  show c.toNat - 48 ≤ 9
  omega

def readFrom (n : ℕ) (ds : List Char) : ℕ := ds.foldl (fun n c => 10 * n + digitValue c) n

theorem numeral_eq_readFrom (ds : List Char) : numeral ds = readFrom 0 ds := by
  unfold numeral readFrom
  rw [Nat.ofDigits_eq_foldr, List.foldr_map, List.foldr_reverse]
  congr 1
  funext n c
  exact Nat.add_comm _ _

theorem le_readFrom (ds : List Char) : ∀ n, n ≤ readFrom n ds := by
  induction ds with
  | nil => exact fun n => Nat.le_refl n
  | cons c ds ih =>
    intro n
    have hstep : n ≤ 10 * n + digitValue c := by omega
    exact Nat.le_trans hstep (ih _)

/-- The loop reads digits, as long as what it has read fits into 64 bits. -/
theorem parseUintFrom_eq_ok_iff {v : ℕ} : ∀ {cs : List Char} {n : ℕ}, n < 2 ^ 64 →
    (parseUintFrom n cs = .ok v ↔
      (∀ c ∈ cs, c.isDigit = true) ∧ v = readFrom n cs ∧ v < 2 ^ 64)
  | [], n, hn => by
    simp only [parseUintFrom, Except.ok.injEq, List.not_mem_nil, false_imp_iff, implies_true,
      true_and]
    constructor
    · rintro rfl
      exact ⟨rfl, hn⟩
    · exact fun h => h.1.symm
  | c :: cs, n, hn => by
    unfold parseUintFrom
    cases hc : c.isDigit with
    | false => simp [hc]
    | true =>
      have hdigit := digitValue_le hc
      have hread : readFrom n (c :: cs) = readFrom (10 * n + digitValue c) cs := rfl
      have hge := le_readFrom cs (10 * n + digitValue c)
      rw [if_neg (by simp), List.forall_mem_cons, hread]
      by_cases hcut : (2 ^ 64 - 1) / 10 + 1 ≤ n
      · -- the next product no longer fits
        rw [if_pos hcut]
        refine ⟨nofun, ?_⟩
        rintro ⟨-, rfl, hlt⟩
        omega
      · rw [if_neg hcut]
        by_cases hwrap : (10 * n + digitValue c) % 2 ^ 64 < 10 * n
        · simp only [if_pos hwrap]
          refine ⟨nofun, ?_⟩
          rintro ⟨-, rfl, hlt⟩
          omega
        · have hfits : (10 * n + digitValue c) % 2 ^ 64 = 10 * n + digitValue c := by omega
          simp only [if_neg hwrap]
          rw [hfits, parseUintFrom_eq_ok_iff (by omega)]
          simp [hc]

theorem parseUint_eq_ok_iff {cs : List Char} {v : ℕ} : parseUint cs = .ok v ↔
    cs ≠ [] ∧ (∀ c ∈ cs, c.isDigit = true) ∧ v = numeral cs ∧ v < 2 ^ 64 := by
  unfold parseUint
  split_ifs with hnil
  · simp [hnil]
  · rw [parseUintFrom_eq_ok_iff (by decide), numeral_eq_readFrom]
    simp [hnil]

theorem toInt_ofInt_of_range {k : ℤ} (hlo : -2 ^ 63 ≤ k) (hhi : k < 2 ^ 63) :
    (Int64.ofInt k).toInt = k :=
  Int64.toInt_ofInt_of_le hlo hhi

theorem toInt_range (n : Int64) : -2 ^ 63 ≤ n.toInt ∧ n.toInt < 2 ^ 63 :=
  ⟨Int64.le_toInt n, Int64.toInt_lt n⟩

theorem withSign_eq_ok_iff {neg : Bool} {cs : List Char} {n : Int64} :
    withSign neg (parseUint cs) = .ok n ↔ cs ≠ [] ∧ (∀ c ∈ cs, c.isDigit = true) ∧
      n.toInt = if neg then -(numeral cs : Int) else numeral cs := by
  have hn := toInt_range n
  constructor
  · intro h
    cases hp : parseUint cs with
    | error err => rw [hp] at h; cases neg <;> cases h
    | ok un =>
      obtain ⟨hne, hdigits, rfl, -⟩ := parseUint_eq_ok_iff.1 hp
      refine ⟨hne, hdigits, ?_⟩
      rw [hp] at h
      cases neg <;> rw [withSign] at h <;> split_ifs at h <;> cases h <;>
        exact toInt_ofInt_of_range (by omega) (by omega)
  · rintro ⟨hne, hdigits, hval⟩
    cases neg <;> simp only [if_true, Bool.false_eq_true, if_false] at hval <;>
      rw [parseUint_eq_ok_iff.2 ⟨hne, hdigits, rfl, by omega⟩, withSign, if_neg (by omega), ← hval,
        Int64.ofInt_toInt]

/-- **`ParseInt` is exact.** -/
theorem parseInt_eq_ok_iff {s : String} {n : Int64} :
    parseInt s = .ok n ↔ Decimal s.toList n.toInt := by
  unfold parseInt
  split
  · next hnil =>
    rw [hnil]
    constructor
    · intro h
      cases h
    · intro h
      generalize hk : n.toInt = k at h
      cases h with
      | plain hne => exact absurd rfl hne
  · next cs hplus =>
    rw [hplus, withSign_eq_ok_iff]
    constructor
    · rintro ⟨hne, hdigits, hval⟩
      rw [hval]
      exact .plus hne hdigits
    · intro h
      generalize hk : n.toInt = k at h ⊢
      cases h with
      | plus hne hdigits => exact ⟨hne, hdigits, rfl⟩
      | plain _ hdigits => exact absurd (hdigits '+' (.head _)) nofun
  · next cs hminus =>
    rw [hminus, withSign_eq_ok_iff]
    constructor
    · rintro ⟨hne, hdigits, hval⟩
      rw [hval]
      exact .minus hne hdigits
    · intro h
      generalize hk : n.toInt = k at h ⊢
      cases h with
      | minus hne hdigits => exact ⟨hne, hdigits, rfl⟩
      | plain _ hdigits => exact absurd (hdigits '-' (.head _)) nofun
  · next hnil hplus hminus =>
    rw [withSign_eq_ok_iff]
    constructor
    · rintro ⟨hne, hdigits, hval⟩
      rw [hval]
      exact .plain hne hdigits
    · intro h
      generalize hk : n.toInt = k at h ⊢
      generalize hs : s.toList = cs at h hnil hplus hminus ⊢
      cases h with
      | plain hne hdigits => exact ⟨hne, hdigits, rfl⟩
      | plus => exact (hplus _ rfl).elim
      | minus => exact (hminus _ rfl).elim

theorem parseInt_toString {n : ℕ} (h : n < 2 ^ 63) : parseInt (toString n) = .ok (Int64.ofInt n) := by
  have hval : numeral (Nat.toDigits 10 n) = n := by
    rw [numeral_eq_readFrom]
    exact Nat.ofDigitChars_eq_foldl.symm.trans Nat.ofDigitChars_ten_toDigits
  have hplain : Decimal (Nat.toDigits 10 n) _ := .plain Nat.toDigits_ne_nil fun c hc =>
    Nat.isDigit_of_mem_toDigits (by decide) (by decide) hc
  rw [hval] at hplain
  rwa [parseInt_eq_ok_iff, Nat.toString_eq_ofList_toDigits, String.toList_ofList,
    toInt_ofInt_of_range (by omega) (by omega)]

theorem toString_injective : ∀ {a b : ℤ}, toString a = toString b → a = b := by
  have hnat : ∀ {n k : ℕ}, Nat.repr n = Nat.repr k → n = k := by
    intro n k h
    have hdigits : Nat.toDigits 10 n = Nat.toDigits 10 k := String.ofList_injective h
    rw [← Nat.ofDigitChars_ten_toDigits (n := n), hdigits, Nat.ofDigitChars_ten_toDigits]
  have hsign : ∀ {n k : ℕ}, Nat.repr n ≠ "-" ++ Nat.repr k := by
    intro n k h
    have hmem : '-' ∈ Nat.toDigits 10 n := by
      have := congrArg String.toList h
      rw [Nat.repr, String.toList_ofList] at this
      simp [this]
    exact absurd (Nat.isDigit_of_mem_toDigits (by decide) (by decide) hmem) (by decide)
  rintro (n | n) (k | k) h
  · exact congrArg _ (hnat h)
  · exact absurd h hsign
  · exact absurd h.symm hsign
  · exact congrArg _ (Nat.succ.inj (hnat (by simpa [toString, Int.repr] using h)))

end Go
