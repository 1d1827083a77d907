import Nexara.Apischema.Integers

/-!
# A compiled schema never blames itself

`Validate` checks on every request what `Compile` has checked at startup, so that a schema that was
never compiled fails closed. For a schema that `Compile` accepts, those errors are out of reach.
-/

namespace Nexara.Apischema

open Go (Float64 Finite Map)

variable {env : Env} {α β : Type}

/-! ## Errors that blame the caller -/

def Blameless (r : Except Err α) : Prop := ∀ text, r ≠ .error (.schema text)

theorem blameless_ok (a : α) : Blameless (.ok a : Except Err α) := by
  intro text h
  cases h

theorem blameless_newErr (field message : String) :
    Blameless (.error (newErr field message) : Except Err α) := by
  intro text h
  cases h

variable {p : Facets} {field s : String} {reachable : Except Err Unit}
  {elem : Option (String → Any → Except Err Any)} {name : String} {x : Except Err α}
  {check : α → Except Err Unit}

theorem Blameless.bind {f : α → Except Err β} (hx : Blameless x)
    (hf : ∀ a, x = .ok a → Blameless (f a)) : Blameless (x >>= f) := by
  cases x with
  | ok a => exact hf a rfl
  | error err =>
    intro text h
    exact hx text (by cases h; rfl)

theorem Blameless.seq {x : Except Err Unit} {y : Except Err α} (hx : Blameless x)
    (hy : x = .ok () → Blameless y) : Blameless (x >>= fun _ => y) := hx.bind fun _ => hy

theorem blameless_of_ok {a : α} (h : x = .ok a) : Blameless x := by
  rw [h]
  exact blameless_ok a

theorem blameless_ite {c : Prop} [Decidable c] {y : Except Err α} (hx : c → Blameless x)
    (hy : ¬c → Blameless y) : Blameless (if c then x else y) := by
  split_ifs with h
  · exact hx h
  · exact hy h

theorem blameless_onFacet {facet : Option α}
    (h : ∀ x, Blameless (check x)) : Blameless (onFacet facet check) := by
  cases facet with
  | none => exact blameless_ok ()
  | some x => exact h x

theorem blameless_checkEach :
    ∀ {xs : List α}, (∀ x ∈ xs, Blameless (check x)) → Blameless (checkEach check xs)
  | [], _ => blameless_ok ()
  | x :: _, h => (h x (.head _)).seq fun _ =>
    blameless_checkEach fun y hy => h y (.tail _ hy)

theorem checkEach_eq_ok_iff {xs : List α} :
    checkEach check xs = .ok () ↔ ∀ x ∈ xs, check x = .ok () := by
  induction xs with
  | nil => simp [checkEach]
  | cons x xs ih => rw [checkEach, seq_eq_ok, ih, List.forall_mem_cons]

/-! ## What a value has to satisfy -/

def Facets.LengthWithin (p : Facets) (n : ℕ) : Prop :=
  (∀ lo, p.minLength = some lo → lo ≤ n) ∧ ∀ hi, p.maxLength = some hi → (n : ℤ) ≤ hi

structure Facets.Admits (env : Env) (p : Facets) (s : String) : Prop where
  enum : ∀ enum, p.enum = some enum → enum ≠ [] → s ∈ enum
  pattern : p.pattern ≠ "" → ∃ isMatch, env.compileRegexp p.pattern = .ok isMatch ∧ isMatch s = true
  length : p.LengthWithin s.length

/-- A value satisfies the facets, given what an element has to satisfy. -/
def SatisfiesWith (env : Env) (elem : Any → Prop) (p : Facets) (v : Any) : Prop :=
  match p.type with
  | .string => ∃ s, v = .string s ∧ p.Admits env s
  | .integer => ∃ n, v = .int64 n ∧ p.Within n.toInt
  | .number => ∃ x, v = .float64 (.finite x) ∧ p.Within x.val
  | .boolean => ∃ b, v = .bool b
  | .array => ∃ elems, v = .slice elems ∧ p.LengthWithin elems.length ∧ ∀ e ∈ elems, elem e
  | .object => ∃ fields, v = .object fields
  | .unknown _ => False

def Satisfies (env : Env) : Property → Any → Prop
  | ⟨p, none⟩, v => SatisfiesWith env (fun _ => False) p v
  | ⟨p, some item⟩, v => SatisfiesWith env (Satisfies env item) p v

theorem checkLength_eq_ok_iff {unit units : String} {n : ℕ} :
    checkLength field p n unit units = .ok () ↔ p.LengthWithin n := by
  rw [checkLength, seq_eq_ok, onFacet_eq_ok_iff, onFacet_eq_ok_iff]
  simp only [ite_error_eq_ok, not_lt]
  rfl

theorem checkNumeric_eq_ok_iff {text : String} {x : Finite}
    (hmin : ∀ m, p.minimum = some m → ∃ y, m = .finite y)
    (hmax : ∀ m, p.maximum = some m → ∃ y, m = .finite y) :
    checkNumeric env field p (.finite x) text = .ok () ↔ p.Within x.val := by
  rw [checkNumeric, seq_eq_ok, onFacet_eq_ok_iff, onFacet_eq_ok_iff]
  constructor
  · rintro ⟨hlo, hhi⟩
    exact ⟨fun y hy => by simpa [Float64.lt] using hlo _ hy,
      fun y hy => by simpa [Float64.lt] using hhi _ hy⟩
  · rintro ⟨hlo, hhi⟩
    constructor
    · intro m hm
      obtain ⟨y, rfl⟩ := hmin m hm
      simpa [Float64.lt] using hlo y hm
    · intro m hm
      obtain ⟨y, rfl⟩ := hmax m hm
      simpa [Float64.lt] using hhi y hm

theorem patternRegexp_eq_ok_iff {isMatch : String → Bool} :
    patternRegexp env field p = .ok isMatch ↔ env.compileRegexp p.pattern = .ok isMatch := by
  unfold patternRegexp
  cases env.compileRegexp p.pattern <;> simp

theorem registered_eq_ok_iff {fn : String → Except String String} :
    registered env field p = .ok fn ↔ env.lookupFormat p.format = some fn := by
  unfold registered
  cases env.lookupFormat p.format <;> simp

theorem checkPattern_eq_ok_iff :
    checkPattern env field p s = .ok () ↔
      (p.pattern ≠ "" → ∃ isMatch, env.compileRegexp p.pattern = .ok isMatch ∧ isMatch s = true) := by
  unfold checkPattern
  split_ifs with hnone
  · simp [hnone]
  · simp [hnone, bind_eq_ok, patternRegexp_eq_ok_iff]

theorem checkString_eq_ok_iff : checkString env reachable field p s = .ok () ↔ p.Admits env s := by
  have henum : onFacet p.enum (fun enum => if enum ≠ [] ∧ s ∉ enum then do
        reachable
        .error (newErr field ("expected one of: " ++ enumList enum)) else .ok ()) = .ok () ↔
      ∀ enum, p.enum = some enum → enum ≠ [] → s ∈ enum := by
    rw [onFacet_eq_ok_iff]
    refine forall₂_congr fun enum _ => ?_
    by_cases hmiss : enum ≠ [] ∧ s ∉ enum
    · rw [if_pos hmiss, seq_eq_ok]
      exact ⟨fun h => (by cases h.2), fun h => absurd (h hmiss.1) hmiss.2⟩
    · rw [if_neg hmiss]
      exact ⟨fun _ hne => by_contra fun hs => hmiss ⟨hne, hs⟩, fun _ => rfl⟩
  rw [checkString, seq_eq_ok, henum, seq_eq_ok, checkPattern_eq_ok_iff, checkLength_eq_ok_iff]
  exact ⟨fun ⟨he, hp, hl⟩ => ⟨he, hp, hl⟩, fun ⟨he, hp, hl⟩ => ⟨he, hp, hl⟩⟩

theorem normalize_eq_ok_iff {t : String} : normalize env field p s = .ok t ↔
    if p.format = "" then t = s else ∃ fn, env.lookupFormat p.format = some fn ∧ fn s = .ok t := by
  unfold normalize
  split_ifs with hnone
  · simp [eq_comm]
  · rw [bind_eq_ok]
    refine exists_congr fun fn => ?_
    rw [registered_eq_ok_iff]
    refine and_congr_right fun _ => ?_
    cases fn s <;> simp

theorem validateElems_ok {elem : String → Any → Except Err Any} {good : Any → Prop}
    (helem : ∀ name e v, elem name e = .ok v → good v) : ∀ {i : ℕ} {es vs : List Any},
    validateElems elem field i es = .ok vs → ∀ v ∈ vs, good v
  | _, [], _, h => by
    cases h
    exact nofun
  | i, e :: es, vs, h => by
    obtain ⟨v, hv, h⟩ := bind_eq_ok.1 h
    obtain ⟨vs', hvs, h⟩ := bind_eq_ok.1 h
    cases h
    exact List.forall_mem_cons.2 ⟨helem _ _ _ hv, validateElems_ok helem hvs⟩

theorem validateWith_satisfies {good : Any → Prop} {raw v : Any}
    (helem : ∀ check, elem = some check → ∀ name e v, check name e = .ok v → good v)
    (h : validateWith env elem reachable field p raw = .ok v) : SatisfiesWith env good p v := by
  rw [validateWith, seq_eq_ok] at h
  obtain ⟨hdecl, h⟩ := h
  obtain ⟨hmin, hmax⟩ := finite_of_checkDeclaration hdecl
  obtain ⟨w, hw, h⟩ := bind_eq_ok.1 h
  unfold coerce at hw
  unfold SatisfiesWith
  cases htype : p.type with
  | string =>
    rw [htype] at hw h
    cases htext : toText env raw with
    | none => simp [htext] at hw
    | some s =>
      simp only [htext, Except.ok.injEq] at hw
      subst hw
      obtain ⟨t, -, h⟩ := bind_eq_ok.1 h
      obtain ⟨hstring, h⟩ := seq_eq_ok.1 h
      cases h
      exact ⟨t, rfl, checkString_eq_ok_iff.1 hstring⟩
  | integer =>
    rw [htype] at hw h
    cases hread : toInt64 env raw with
    | shape | outOfRange => simp [hread] at hw
    | value n =>
      simp only [hread, Except.ok.injEq] at hw
      subst hw
      obtain ⟨hbounds, h⟩ := seq_eq_ok.1 h
      cases h
      exact ⟨n, rfl, (checkIntBounds_eq_ok_iff hmin hmax).1 hbounds⟩
  | number =>
    rw [htype] at hw h
    cases hread : toFloat64 env raw with
    | none => simp [hread] at hw
    | some x =>
      simp only [hread, Except.ok.injEq] at hw
      subst hw
      obtain ⟨hbounds, h⟩ := seq_eq_ok.1 h
      cases h
      exact ⟨x, rfl, (checkNumeric_eq_ok_iff hmin hmax).1 hbounds⟩
  | boolean =>
    rw [htype] at hw h
    cases hread : toBool env raw with
    | none => simp [hread] at hw
    | some b =>
      simp only [hread, Except.ok.injEq] at hw
      subst hw
      cases h
      exact ⟨b, rfl⟩
  | array =>
    rw [htype] at hw h
    cases elem with
    | none => cases hw
    | some check =>
      cases hslice : toSlice raw with
      | none => simp [hslice] at hw
      | some es =>
        simp only [hslice] at hw
        cases hvs : validateElems check field 0 es with
        | error err => rw [hvs] at hw; cases hw
        | ok vs =>
          rw [hvs] at hw
          cases hw
          obtain ⟨hlength, h⟩ := seq_eq_ok.1 h
          cases h
          exact ⟨vs, rfl, checkLength_eq_ok_iff.1 hlength, validateElems_ok (helem check rfl) hvs⟩
  | object =>
    rw [htype] at hw h
    cases raw with
    | object fields =>
      cases hw
      cases h
      exact ⟨fields, rfl⟩
    | _ => cases hw
  | unknown text =>
    rw [htype] at hw
    cases hw

/-- **What is accepted satisfies its property.** -/
theorem validateValue_satisfies : ∀ {prop : Property} {field : String} {raw v : Any},
    validateValue env prop field raw = .ok v → Satisfies env prop v
  | ⟨_, none⟩, _, _, _, h => validateWith_satisfies (fun _ hc => by cases hc) h
  | ⟨_, some _⟩, _, _, _, h =>
    validateWith_satisfies (fun _ hc _ _ _ hv => by cases hc; exact validateValue_satisfies hv) h

/-! ## What `Compile` has checked -/

theorem checkDeclaration_rename {name' : String} {hasItems : Bool}
    (h : checkDeclaration env name p hasItems = .ok ()) :
    checkDeclaration env name' p hasItems = .ok () := by
  have hall : ∀ defect ∈ (declarationChecks env name p hasItems).map Prod.fst, defect = false :=
    List.forall_mem_map.2 (firstDefect_eq_ok_iff.1 h)
  have hsame : (declarationChecks env name p hasItems).map Prod.fst =
      (declarationChecks env name' p hasItems).map Prod.fst := rfl
  rw [hsame] at hall
  exact firstDefect_eq_ok_iff.2 (List.forall_mem_map.1 hall)

theorem validateWith_string_iff {v : Any} (field : String)
    (htype : p.type = .string) : validateWith env elem reachable field p (.string s) = .ok v ↔
      checkDeclaration env field p elem.isSome = .ok () ∧ ∃ t, (if p.format = "" then t = s else
        ∃ fn, env.lookupFormat p.format = some fn ∧ fn s = .ok t) ∧ p.Admits env t ∧
        v = .string t := by
  rw [validateWith, seq_eq_ok]
  refine and_congr_right fun _ => ?_
  simp only [coerce, htype]
  show (normalize env field p s >>= fun t => checkString env reachable field p t >>= fun _ =>
    (.ok (.string t) : Except Err Any)) = .ok v ↔ _
  rw [bind_eq_ok]
  refine exists_congr fun t => ?_
  rw [normalize_eq_ok_iff, seq_eq_ok, checkString_eq_ok_iff]
  refine and_congr_right fun _ => and_congr_right fun _ => ⟨fun h => ?_, fun h => ?_⟩
  · cases h
    rfl
  · rw [h]

theorem compileEnumEntry_rename {name' entry : String} (htype : p.type = .string)
    (h : compileEnumEntry env elem name p entry = .ok ()) :
    compileEnumEntry env elem name' p entry = .ok () := by
  unfold compileEnumEntry at h ⊢
  cases hv : validateWith env elem (.ok ()) name p.probe (.string entry) with
  | error err => rw [hv] at h; cases h
  | ok v =>
    have hprobe : p.probe.type = .string := htype
    obtain ⟨hdecl, ht⟩ := (validateWith_string_iff name hprobe).1 hv
    rw [hv] at h
    rw [(validateWith_string_iff name' hprobe).2 ⟨checkDeclaration_rename hdecl, ht⟩]
    exact ite_error_eq_ok.2 (ite_error_eq_ok.1 h)

inductive Good (env : Env) : Property → Prop where
  | intro {prop : Property}
    (declared : ∀ name, checkDeclaration env name prop.facets prop.items.isSome = .ok ())
    (pattern : prop.facets.pattern ≠ "" →
      ∃ isMatch, env.compileRegexp prop.facets.pattern = .ok isMatch)
    (format : prop.facets.format ≠ "" → ∃ fn, env.lookupFormat prop.facets.format = some fn)
    (entries : ∀ entry ∈ prop.facets.enum.getD [], ∀ name,
      compileEnumEntry env (prop.elem env) name prop.facets entry = .ok ())
    (items : ∀ item, prop.items = some item → Good env item) : Good env prop

/-- What a declaration that is not refused says of its type, enum, items and default. -/
structure Declared (p : Facets) (hasItems : Bool) : Prop where
  type : p.type.known = true
  enum : p.enum.isSome = true → p.type = .string
  items : p.type = .array ↔ hasItems = true
  default : p.default.isNil = false → p.optional = true

theorem declared_of_ok {hasItems : Bool}
    (h : checkDeclaration env name p hasItems = .ok ()) : Declared p hasItems := by
  have hall := firstDefect_eq_ok_iff.1 h
  simp only [declarationChecks, List.forall_mem_cons] at hall
  obtain ⟨htype, -, henum, -, -, -, -, -, -, -, -, -, -, -, hitems, hitems', hdefault, -⟩ := hall
  constructor
  · simpa using htype
  · intro hsome
    by_contra hne
    simp [hsome, hne] at henum
  · constructor
    · intro harray
      simpa [harray] using hitems
    · intro hhas
      by_contra hne
      simp [hhas, hne] at hitems'
  · intro hnil
    simpa [hnil] using hdefault

theorem good_of_compileWith {prop : Property} {items : Except Err Unit}
    {props : Option Properties} (h : compileWith env prop items name props = .ok ())
    (hitems : items = .ok () → ∀ item, prop.items = some item → Good env item) :
    Good env prop ∧ (∀ req ∈ prop.facets.requires, checkRequire name props req = .ok ()) ∧
      (prop.facets.default.isNil = false →
        ∃ v, validateValue env prop name prop.facets.default = .ok v) := by
  simp only [compileWith, seq_eq_ok, checkEach_eq_ok_iff] at h
  obtain ⟨hdecl, hpattern, hformat, hit, hrequires, hdefault, hentries⟩ := h
  have hd := declared_of_ok hdecl
  refine ⟨⟨fun _ => checkDeclaration_rename hdecl, fun hne => ?_, fun hne => ?_,
    fun entry hentry name' => ?_, fun item hitem => ?_⟩, hrequires, fun hnil => ?_⟩
  · rw [compilePattern, if_neg hne, bind_eq_ok] at hpattern
    obtain ⟨isMatch, hre, -⟩ := hpattern
    exact ⟨isMatch, patternRegexp_eq_ok_iff.1 hre⟩
  · rw [compileFormat, if_neg hne, bind_eq_ok] at hformat
    obtain ⟨fn, hfn, -⟩ := hformat
    exact ⟨fn, registered_eq_ok_iff.1 hfn⟩
  · refine compileEnumEntry_rename (hd.enum ?_) (hentries entry hentry)
    cases henum : prop.facets.enum with
    | none => rw [henum] at hentry; cases hentry
    | some enum => rfl
  · have harray : prop.facets.type = .array := hd.items.2 (by rw [hitem]; rfl)
    rw [compileArray, if_pos harray] at hit
    exact hitems hit item hitem
  · rw [compileDefault, if_neg (by simp [hnil])] at hdefault
    cases hv : validateValue env prop name prop.facets.default with
    | error err => rw [hv] at hdefault; cases hdefault
    | ok v => exact ⟨v, rfl⟩

theorem good_of_compileProperty : ∀ {prop : Property} {name : String} {props : Option Properties},
    compileProperty env prop name props = .ok () →
    Good env prop ∧ (∀ req ∈ prop.facets.requires, checkRequire name props req = .ok ()) ∧
      (prop.facets.default.isNil = false →
        ∃ v, validateValue env prop name prop.facets.default = .ok v)
  | ⟨_, none⟩, _, _, h => good_of_compileWith h nofun
  | ⟨_, some _⟩, _, _, h => good_of_compileWith h fun hitems item hitem => by
    cases hitem
    exact (good_of_compileProperty (seq_eq_ok.1 hitems).2).1

/-! ## The pipeline of a compiled property -/

theorem blameless_refuse {c : Prop} [Decidable c] {field message : String} :
    Blameless (if c then .error (newErr field message) else .ok ()) :=
  blameless_ite (fun _ => blameless_newErr _ _) fun _ => blameless_ok ()

theorem blameless_checkLength {unit units : String} {n : ℕ} :
    Blameless (checkLength field p n unit units) :=
  (blameless_onFacet fun _ => blameless_refuse).seq fun _ =>
    blameless_onFacet fun _ => blameless_refuse

theorem blameless_checkNumeric {text : String} {f : Float64} :
    Blameless (checkNumeric env field p f text) :=
  (blameless_onFacet fun _ => blameless_refuse).seq fun _ =>
    blameless_onFacet fun _ => blameless_refuse

theorem blameless_checkIntBounds {n : Int64} : Blameless (checkIntBounds env field p n) := by
  refine (blameless_onFacet fun m => ?_).seq fun _ => blameless_onFacet fun m => ?_
  · exact blameless_ite (fun _ => blameless_newErr _ _) fun _ =>
      blameless_ite (fun _ => blameless_refuse) fun _ => blameless_ok ()
  · exact blameless_ite (fun _ => blameless_newErr _ _) fun _ =>
      blameless_ite (fun _ => blameless_refuse) fun _ => blameless_ok ()

theorem blameless_checkString (hreach : Blameless reachable)
    (hpattern : p.pattern ≠ "" → ∃ isMatch, env.compileRegexp p.pattern = .ok isMatch) :
    Blameless (checkString env reachable field p s) := by
  refine (blameless_onFacet fun enum => ?_).seq fun _ => Blameless.seq ?_ fun _ =>
    blameless_checkLength
  · exact blameless_ite (fun _ => hreach.seq fun _ => blameless_newErr _ _) fun _ => blameless_ok ()
  · refine blameless_ite (fun _ => blameless_ok ()) fun hne => ?_
    obtain ⟨isMatch, hre⟩ := hpattern hne
    exact (blameless_of_ok (patternRegexp_eq_ok_iff.2 hre)).bind fun _ _ => blameless_refuse

theorem blameless_normalize (hformat : p.format ≠ "" → ∃ fn, env.lookupFormat p.format = some fn) :
    Blameless (normalize env field p s) := by
  refine blameless_ite (fun _ => blameless_ok s) fun hne => ?_
  obtain ⟨fn, hfn⟩ := hformat hne
  refine (blameless_of_ok (registered_eq_ok_iff.2 hfn)).bind fun fn' _ => ?_
  cases fn' s with
  | error ferr => exact blameless_newErr _ _
  | ok t => exact blameless_ok t

theorem blameless_validateElems {elem : String → Any → Except Err Any}
    (helem : ∀ name e, Blameless (elem name e)) : ∀ {i : ℕ} {es : List Any},
    Blameless (validateElems elem field i es)
  | _, [] => blameless_ok []
  | _, _ :: _ => (helem _ _).bind fun _ _ => (blameless_validateElems helem).bind fun vs _ =>
    blameless_ok (_ :: vs)

theorem blameless_coerce {raw : Any} (hd : Declared p elem.isSome)
    (helem : ∀ check, elem = some check → ∀ name e, Blameless (check name e)) :
    Blameless (coerce env elem field p raw) := by
  unfold coerce
  cases htype : p.type with
  | string => cases toText env raw <;> first | exact blameless_newErr _ _ | exact blameless_ok _
  | integer => cases toInt64 env raw <;> first | exact blameless_newErr _ _ | exact blameless_ok _
  | number => cases toFloat64 env raw <;> first | exact blameless_newErr _ _ | exact blameless_ok _
  | boolean => cases toBool env raw <;> first | exact blameless_newErr _ _ | exact blameless_ok _
  | object => cases raw <;> first | exact blameless_newErr _ _ | exact blameless_ok _
  | unknown text =>
    have hknown := hd.type
    rw [htype] at hknown
    cases hknown
  | array =>
    obtain ⟨check, hcheck⟩ := Option.isSome_iff_exists.1 (hd.items.1 htype)
    rw [hcheck]
    cases toSlice raw with
    | none => exact blameless_newErr _ _
    | some es =>
      exact (blameless_validateElems (helem check hcheck)).bind fun vs _ => blameless_ok (Any.slice vs)

/-- **A compiled property is not refused.** -/
theorem blameless_validateValue {prop : Property} (hgood : Good env prop) :
    ∀ (field : String) (raw : Any), Blameless (validateValue env prop field raw) := by
  induction hgood with
  | @intro prop hdecl hpattern hformat hentries _ ih =>
    intro field raw
    have helem : (prop.elem env).isSome = prop.items.isSome := Option.isSome_map
    have hreach : Blameless (checkEnumReachable env (prop.elem env) field prop.facets) :=
      blameless_ite (fun _ => blameless_ok ()) fun _ =>
        blameless_checkEach fun entry hentry => blameless_of_ok (hentries entry hentry field)
    have hd : Declared prop.facets (prop.elem env).isSome := helem ▸ declared_of_ok (hdecl field)
    have hcoerce : Blameless (coerce env (prop.elem env) field prop.facets raw) := by
      refine blameless_coerce hd fun check hcheck => ?_
      obtain ⟨item, hitem, rfl⟩ := Option.map_eq_some_iff.1 hcheck
      exact ih item hitem
    rw [validateValue_eq]
    refine (blameless_of_ok (helem ▸ hdecl field)).seq fun _ => hcoerce.bind fun v _ => ?_
    split
    · exact (blameless_normalize hformat).bind fun _ _ =>
        (blameless_checkString hreach hpattern).seq fun _ => blameless_ok _
    · exact blameless_checkIntBounds.seq fun _ => blameless_ok _
    · exact blameless_checkNumeric.seq fun _ => blameless_ok _
    · exact blameless_checkLength.seq fun _ => blameless_ok _
    · exact blameless_ok _

end Nexara.Apischema
