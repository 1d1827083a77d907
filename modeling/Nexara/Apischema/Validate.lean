import Nexara.Go.Collections
import Nexara.Go.Float
import Nexara.Go.Strings

/-!
# Parameter schemas

The schema engine of the REST API: a route declares its parameters as properties, `Compile` checks
the declaration once at startup, and `Validate` checks a request against it, coerces, normalizes and
fills in defaults. An error is a `ValidationError`, which blames the caller, or a plain one, which
blames the schema. Formatting and parsing of floats, the registry of formats and regular expressions
are parameters.
-/

namespace Nexara.Apischema

open Go (Float64 Finite Map)

/-! ## Values and properties -/

/-- A value of Go's `any`, by its dynamic type. -/
inductive Any where
  | nil
  | bool (b : Bool)
  | string (s : String)
  | number (s : String)
  | int (n : Int64)
  | int8 (n : Int8)
  | int16 (n : Int16)
  | int32 (n : Int32)
  | int64 (n : Int64)
  | uint (n : UInt64)
  | uint8 (n : UInt8)
  | uint16 (n : UInt16)
  | uint32 (n : UInt32)
  | uint64 (n : UInt64)
  /-- As the `float64` it widens to. -/
  | float32 (f : Float64)
  | float64 (f : Float64)
  | slice (elems : List Any)
  | strings (elems : List String)
  | object (fields : List (String × Any))
  /-- Any other type. -/
  | other

/-- The declared type of a parameter. -/
inductive ParamType where
  | string
  | integer
  | number
  | boolean
  | array
  | object
  | unknown (text : String)
  deriving DecidableEq

def ParamType.text : ParamType → String
  | string => "string"
  | integer => "integer"
  | number => "number"
  | boolean => "boolean"
  | array => "array"
  | object => "object"
  | unknown text => text

/-- Where a parameter is read from. -/
inductive Source where
  | auto
  | path
  | query
  | body
  | unknown (text : String)
  deriving DecidableEq

def Source.text : Source → String
  | auto => ""
  | path => "path"
  | query => "query"
  | body => "body"
  | unknown text => text

/-- A `Property` but for its element schema. -/
structure Facets where
  type : ParamType
  optional : Bool := false
  default : Any := .nil
  enum : Option (List String) := none
  pattern : String := ""
  minimum : Option Float64 := none
  maximum : Option Float64 := none
  minLength : Option ℤ := none
  maxLength : Option ℤ := none
  format : String := ""
  requires : List String := []
  aliasName : String := ""
  source : Source := .auto
  emptyIsAbsent : Bool := false

/-- A property, with the schema of its elements if it has one. -/
inductive Property where
  | mk (facets : Facets) (items : Option Property)

def Property.facets : Property → Facets
  | mk facets _ => facets

def Property.items : Property → Option Property
  | mk _ items => items

abbrev Properties := Map Property

/-- An error that blames the caller, naming the field. -/
structure ValidationError where
  field : String
  message : String
  deriving DecidableEq

/-- What a check fails with. -/
inductive Err where
  | validation (e : ValidationError)
  /-- A plain error: the schema's own mistake. -/
  | schema (text : String)
  deriving DecidableEq

def Err.text : Err → String
  | validation e => e.field ++ ": " ++ e.message
  | schema text => text

/-- What the engine takes from its platform and its registries. -/
structure Env where
  /-- `strconv.FormatFloat(f, 'f', -1, 64)`. -/
  formatFloat : Float64 → String
  /-- `strconv.ParseFloat`, where it returns no error. -/
  parseFloat : String → Option Float64
  /-- The nearest `float64` to an integer of 64 bits. -/
  float64OfInt : ℤ → Finite
  /-- What the conversion of a float out of range to `int64` yields on this platform. -/
  indefinite : Int64
  lookupFormat : String → Option (String → Except String String)
  /-- `regexp.Compile`, with `MatchString` of the result. -/
  compileRegexp : String → Except String (String → Bool)

theorem bind_eq_ok {α β : Type} {x : Except Err α} {f : α → Except Err β} {b : β} :
    (x >>= f) = .ok b ↔ ∃ a, x = .ok a ∧ f a = .ok b := by
  cases x with
  | error err => exact ⟨nofun, fun ⟨_, h, _⟩ => (by cases h)⟩
  | ok a => exact ⟨fun h => ⟨a, rfl, h⟩, fun ⟨_, h, hf⟩ => (by cases h; exact hf)⟩

theorem seq_eq_ok {α : Type} {x : Except Err Unit} {y : Except Err α} {b : α} :
    (x >>= fun _ => y) = .ok b ↔ x = .ok () ∧ y = .ok b := by
  rw [bind_eq_ok]
  exact ⟨fun ⟨_, hx, hy⟩ => ⟨hx, hy⟩, fun ⟨hx, hy⟩ => ⟨(), hx, hy⟩⟩

theorem ite_error_eq_ok {c : Prop} [Decidable c] {err : Err} :
    (if c then .error err else .ok () : Except Err Unit) = .ok () ↔ ¬c := by
  split_ifs with h <;> simp [h]

variable (env : Env)

def maxFieldRunes : ℕ := 64

/-- A field's name, cut to `maxFieldRunes`. -/
def truncateField (field : String) : String :=
  if field.length ≤ maxFieldRunes then field
  else String.ofList (field.toList.take maxFieldRunes) ++ "…"

/-- An error that blames the caller. -/
def newErr (field message : String) : Err := .validation { field := truncateField field, message }

/-! ## Declarations -/

/-- The first defect of a list of checks made in order. -/
def firstDefect : List (Bool × String) → Except Err Unit
  | [] => .ok ()
  | (true, text) :: _ => .error (.schema text)
  | (false, _) :: checks => firstDefect checks

def ParamType.known : ParamType → Bool
  | unknown _ => false
  | _ => true

def Source.known : Source → Bool
  | unknown _ => false
  | _ => true

def Any.isNil : Any → Bool
  | nil => true
  | _ => false

/-- The checks of `checkDeclaration`, each with the error it is refused with. -/
def declarationChecks (name : String) (p : Facets) (hasItems : Bool) : List (Bool × String) :=
  let parameter := "apischema: parameter " ++ Go.quote name
  [ (!p.type.known, parameter ++ " has unknown type " ++ Go.quote p.type.text),
    (!p.source.known, parameter ++ " has unknown source " ++ Go.quote p.source.text),
    (p.enum.isSome && p.type ≠ .string,
      parameter ++ " declares an enum but is " ++ p.type.text ++ ", not a string"),
    (p.enum.any (·.isEmpty),
      parameter ++ " declares an empty enum, which nothing can satisfy"),
    (p.type ≠ .string && p.pattern ≠ "",
      parameter ++ " declares a pattern but is " ++ p.type.text ++ ", not a string"),
    (p.type ≠ .string && p.format ≠ "",
      parameter ++ " declares a format but is " ++ p.type.text ++ ", not a string"),
    (p.type ≠ .string && p.type ≠ .array && (p.minLength.isSome || p.maxLength.isSome),
      parameter ++ " declares length bounds but is " ++ p.type.text ++ ", not a string or array"),
    (p.type ≠ .integer && p.type ≠ .number && (p.minimum.isSome || p.maximum.isSome),
      parameter ++ " declares numeric bounds but is " ++ p.type.text ++ ", not a number"),
    (p.minimum.any (!·.isFinite), parameter ++ " has a non-finite minimum"),
    (p.maximum.any (!·.isFinite), parameter ++ " has a non-finite maximum"),
    (p.minimum.any fun lo => p.maximum.any fun hi => hi.lt lo,
      parameter ++ " has minimum " ++ (p.minimum.map env.formatFloat).getD "" ++ " above maximum " ++
        (p.maximum.map env.formatFloat).getD ""),
    (p.minLength.any (· < 0), parameter ++ " has a negative minimum length"),
    (p.maxLength.any (· < 0), parameter ++ " has a negative maximum length"),
    (p.minLength.any fun lo => p.maxLength.any fun hi => hi < lo,
      parameter ++ " has minimum length " ++ (p.minLength.map toString).getD "" ++
        " above maximum length " ++ (p.maxLength.map toString).getD ""),
    (p.type = .array && !hasItems,
      "apischema: array parameter " ++ Go.quote name ++ " declares no items schema"),
    (p.type ≠ .array && hasItems,
      parameter ++ " declares an items schema but is " ++ p.type.text ++ ", not an array"),
    (!p.default.isNil && !p.optional,
      parameter ++ " is required but declares a default, which could never apply"),
    (p.emptyIsAbsent && p.type ≠ .boolean,
      parameter ++ " counts an empty value as absent but is " ++ p.type.text ++ ", not a boolean"),
    (p.emptyIsAbsent && !p.optional,
      parameter ++ " counts an empty value as absent but is required, " ++
        "so an empty value could only ever be reported missing") ]

/-- The first defect of a declaration. -/
def checkDeclaration (name : String) (p : Facets) (hasItems : Bool) : Except Err Unit :=
  firstDefect (declarationChecks env name p hasItems)

/-! ## Bounds and lengths -/

def maxInt64AsFloat : Float64 := .finite (.ofPow 1 63 (by decide) (by decide))

def minInt64AsFloat : Float64 := .finite (.ofPow (-1) 63 (by decide) (by decide))

def atLeast (field : String) (m : Float64) (got : String) : Err :=
  newErr field ("must be at least " ++ env.formatFloat m ++ " (got " ++ got ++ ")")

def atMost (field : String) (m : Float64) (got : String) : Err :=
  newErr field ("must be at most " ++ env.formatFloat m ++ " (got " ++ got ++ ")")

/-- A bound is compared as an integer, where it is one of 64 bits. -/
def checkIntMinimum (field : String) (m : Float64) (n : Int64) : Except Err Unit :=
  if maxInt64AsFloat.le m then .error (atLeast env field m (toString n.toInt))
  else if minInt64AsFloat.le m then
    if n < m.toInt64 env.indefinite Int.ceil then .error (atLeast env field m (toString n.toInt))
    else .ok ()
  else .ok ()

def checkIntMaximum (field : String) (m : Float64) (n : Int64) : Except Err Unit :=
  if m.lt minInt64AsFloat then .error (atMost env field m (toString n.toInt))
  else if m.lt maxInt64AsFloat then
    if m.toInt64 env.indefinite Int.floor < n then .error (atMost env field m (toString n.toInt))
    else .ok ()
  else .ok ()

/-- A check that a facet asks for. -/
def onFacet {α : Type} (facet : Option α) (check : α → Except Err Unit) : Except Err Unit :=
  match facet with
  | none => .ok ()
  | some x => check x

def checkIntBounds (field : String) (p : Facets) (n : Int64) : Except Err Unit := do
  onFacet p.minimum fun m => checkIntMinimum env field m n
  onFacet p.maximum fun m => checkIntMaximum env field m n

def checkNumeric (field : String) (p : Facets) (v : Float64) (text : String) : Except Err Unit := do
  onFacet p.minimum fun m => if v.lt m then .error (atLeast env field m text) else .ok ()
  onFacet p.maximum fun m => if m.lt v then .error (atMost env field m text) else .ok ()

def plural (n : ℤ) (unit units : String) : String := if n = 1 then unit else units

def checkLength (field : String) (p : Facets) (n : ℕ) (unit units : String) : Except Err Unit := do
  onFacet p.minLength fun lo =>
    if n < lo then
      .error (newErr field ("must have at least " ++ toString lo ++ " " ++ plural lo unit units))
    else .ok ()
  onFacet p.maxLength fun hi =>
    if hi < n then
      .error (newErr field ("must have at most " ++ toString hi ++ " " ++ plural hi unit units))
    else .ok ()

/-! ## Coercion -/

/-- A value, a shape that is no integer, or an integer out of range. -/
inductive Coerced where
  | value (n : Int64)
  | shape
  | outOfRange

/-- A float that is a whole number, in range. -/
def floatToInt64 : Float64 → Coerced
  | .finite x =>
    if x.val ≠ Go.trunc x.val then .shape
    else if maxInt64AsFloat.lt (.finite x) || (Float64.finite x).lt minInt64AsFloat then .outOfRange
    else .value ((Float64.finite x).toInt64 env.indefinite Go.trunc)
  | .inf _ | .nan => .shape

def parseInt64 (s : String) : Coerced :=
  match Go.parseInt (Go.trimSpace s) with
  | .ok n => .value n
  | .error err =>
    if Go.contains (err.text (Go.quote (Go.trimSpace s))) "out of range" then .outOfRange else .shape

/-- An unsigned integer of any width. -/
def widenUint : Any → UInt64
  | .uint n => n
  | .uint8 n => n.toUInt64
  | .uint16 n => n.toUInt64
  | .uint32 n => n.toUInt64
  | .uint64 n => n
  | _ => 0

/-- An unsigned integer, if it is in range. -/
def uintToInt64 (u : UInt64) : Coerced :=
  if 2 ^ 63 - 1 < u.toNat then .outOfRange else .value (Int64.ofInt u.toNat)

/-- An integer of any type, or in text. -/
def toInt64 : Any → Coerced
  | .int n => .value n
  | .int8 n => .value n.toInt64
  | .int16 n => .value n.toInt64
  | .int32 n => .value n.toInt64
  | .int64 n => .value n
  | .uint n => uintToInt64 (widenUint (.uint n))
  | .uint8 n => uintToInt64 (widenUint (.uint8 n))
  | .uint16 n => uintToInt64 (widenUint (.uint16 n))
  | .uint32 n => uintToInt64 (widenUint (.uint32 n))
  | .uint64 n => uintToInt64 (widenUint (.uint64 n))
  | .float32 f => floatToInt64 env f
  | .float64 f => floatToInt64 env f
  | .number s => parseInt64 s
  | .string s => parseInt64 s
  | .nil | .bool _ | .slice _ | .strings _ | .object _ | .other => .shape

/-- Text, or a number as text. -/
def toText : Any → Option String
  | .string s => some s
  | .number s => some s
  | .float64 f => some (env.formatFloat f)
  | .float32 f => some (env.formatFloat f)
  | .int n => some (toString n.toInt)
  | .int8 n => some (toString n.toInt)
  | .int16 n => some (toString n.toInt)
  | .int32 n => some (toString n.toInt)
  | .int64 n => some (toString n.toInt)
  | .uint n => some (toString (widenUint (.uint n)).toNat)
  | .uint8 n => some (toString (widenUint (.uint8 n)).toNat)
  | .uint16 n => some (toString (widenUint (.uint16 n)).toNat)
  | .uint32 n => some (toString (widenUint (.uint32 n)).toNat)
  | .uint64 n => some (toString (widenUint (.uint64 n)).toNat)
  | .nil | .bool _ | .slice _ | .strings _ | .object _ | .other => none

/-- A float that is neither infinite nor a NaN. -/
def finite : Float64 → Option Finite
  | .finite x => some x
  | .inf _ | .nan => none

def parseFloat (s : String) : Option Finite := (env.parseFloat (Go.trimSpace s)).bind finite

/-- A finite number of any type, or in text. -/
def toFloat64 : Any → Option Finite
  | .float64 f => finite f
  | .float32 f => finite f
  | .uint n => some (env.float64OfInt (widenUint (.uint n)).toNat)
  | .uint8 n => some (env.float64OfInt (widenUint (.uint8 n)).toNat)
  | .uint16 n => some (env.float64OfInt (widenUint (.uint16 n)).toNat)
  | .uint32 n => some (env.float64OfInt (widenUint (.uint32 n)).toNat)
  | .uint64 n => some (env.float64OfInt (widenUint (.uint64 n)).toNat)
  | .int n => some (env.float64OfInt n.toInt)
  | .int8 n => some (env.float64OfInt n.toInt)
  | .int16 n => some (env.float64OfInt n.toInt)
  | .int32 n => some (env.float64OfInt n.toInt)
  | .int64 n => some (env.float64OfInt n.toInt)
  | .number s => parseFloat env s
  | .string s => parseFloat env s
  | .nil | .bool _ | .slice _ | .strings _ | .object _ | .other => none

/-- The texts that count as booleans. -/
def boolOfText (s : String) : Option Bool :=
  if s ∈ ["true", "1", "yes", "on"] then some true
  else if s ∈ ["false", "0", "no", "off"] then some false
  else none

/-- A boolean, a text for one, or 0 and 1. -/
def toBool : Any → Option Bool
  | .bool b => some b
  | .string s => boolOfText ((Go.trimSpace s).toLower)
  | .nil | .slice _ | .strings _ | .object _ | .other => none
  | v => match toInt64 env v with
    | .value n => if n ≠ 0 ∧ n ≠ 1 then none else some (n = 1)
    | .shape | .outOfRange => none

/-- A list; a single value is a list of one. -/
def toSlice : Any → Option (List Any)
  | .slice elems => some elems
  | .strings elems => some (elems.map .string)
  | .object _ | .nil => none
  | v => some [v]

/-! ## The pipeline of one property -/

/-- The elements of a list, each named by its index. -/
def validateElems (elem : String → Any → Except Err Any) (field : String) :
    ℕ → List Any → Except Err (List Any)
  | _, [] => .ok []
  | i, e :: es => do
    let v ← elem (field ++ "[" ++ toString i ++ "]") e
    let vs ← validateElems elem field (i + 1) es
    return v :: vs

/-- `coerce`, given what checks an element. -/
def coerce (elem : Option (String → Any → Except Err Any)) (field : String) (p : Facets)
    (raw : Any) : Except Err Any :=
  match p.type with
  | .string => match toText env raw with
    | some s => .ok (.string s)
    | none => .error (newErr field "expected a string")
  | .integer => match toInt64 env raw with
    | .value n => .ok (.int64 n)
    | .outOfRange => .error (newErr field "integer is out of range")
    | .shape => .error (newErr field "expected an integer")
  | .number => match toFloat64 env raw with
    | some f => .ok (.float64 (.finite f))
    | none => .error (newErr field "expected a number")
  | .boolean => match toBool env raw with
    | some b => .ok (.bool b)
    | none => .error (newErr field "expected a boolean (true or false)")
  | .array => match elem with
    | none => .error (.schema ("apischema: array parameter " ++ Go.quote field ++
        " declares no items schema"))
    | some elem => match toSlice raw with
      | none => .error (newErr field "expected an array")
      | some elems => .slice <$> validateElems elem field 0 elems
  | .object => match raw with
    | .object fields => .ok (.object fields)
    | _ => .error (newErr field "expected an object")
  | .unknown text => .error (.schema ("apischema: parameter " ++ Go.quote field ++
      " has unknown type " ++ Go.quote text))

/-- An enum, as errors list it. -/
def enumList (enum : List String) : String :=
  Go.join ", " (enum.map fun v => if v = "" then "\"\"" else v)

/-- `patternRegexp`, with the error a pattern that does not compile is refused with. -/
def patternRegexp (field : String) (p : Facets) : Except Err (String → Bool) :=
  match env.compileRegexp p.pattern with
  | .error err => .error (.schema ("apischema: parameter " ++ Go.quote field ++
      " has an invalid pattern " ++ Go.quote p.pattern ++ ": " ++ err))
  | .ok isMatch => .ok isMatch

def checkPattern (field : String) (p : Facets) (s : String) : Except Err Unit :=
  if p.pattern = "" then .ok ()
  else do
    let isMatch ← patternRegexp env field p
    if !isMatch s then
      .error (newErr field ("value does not match the expected pattern " ++ p.pattern))
    else .ok ()

/-- `checkString`, given what `checkEnumReachable` finds. -/
def checkString (reachable : Except Err Unit) (field : String) (p : Facets) (s : String) :
    Except Err Unit := do
  onFacet p.enum fun enum =>
    if enum ≠ [] ∧ s ∉ enum then do
      reachable
      .error (newErr field ("expected one of: " ++ enumList enum))
    else .ok ()
  checkPattern env field p s
  checkLength field p s.length "character" "characters"

/-- `LookupFormat`, with the error an unregistered format is refused with. -/
def registered (field : String) (p : Facets) : Except Err (String → Except String String) :=
  match env.lookupFormat p.format with
  | none => .error (.schema ("apischema: parameter " ++ Go.quote field ++
      " uses unregistered format " ++ Go.quote p.format))
  | some fn => .ok fn

/-- A string as its format normalizes it. -/
def normalize (field : String) (p : Facets) (s : String) : Except Err String :=
  if p.format = "" then .ok s
  else do
    let fn ← registered env field p
    match fn s with
    | .error ferr => .error (newErr field ferr)
    | .ok normalized => .ok normalized

/-- `validateValue`, given what checks an element and what `checkEnumReachable` finds. -/
def validateWith (elem : Option (String → Any → Except Err Any)) (reachable : Except Err Unit)
    (field : String) (p : Facets) (raw : Any) : Except Err Any := do
  checkDeclaration env field p elem.isSome
  let v ← coerce env elem field p raw
  match p.type, v with
  | .string, .string s =>
    let s ← normalize env field p s
    checkString env reachable field p s
    return .string s
  | .integer, .int64 n =>
    checkIntBounds env field p n
    return .int64 n
  | .number, .float64 f =>
    checkNumeric env field p f (env.formatFloat f)
    return .float64 f
  | .array, .slice elems =>
    checkLength field p elems.length "item" "items"
    return .slice elems
  | _, v => return v

/-- What an enum value is probed with: the property without enum and default. -/
def Facets.probe (p : Facets) : Facets := { p with enum := none, default := .nil }

/-- The enum of the probe is never looked at, so neither is its reachability. -/
def compileEnumEntry (elem : Option (String → Any → Except Err Any)) (name : String) (p : Facets)
    (entry : String) : Except Err Unit :=
  match validateWith env elem (.ok ()) name p.probe (.string entry) with
  | .error err => .error (.schema ("apischema: enum value " ++ Go.quote entry ++ " of parameter " ++
      Go.quote name ++ " is invalid: " ++ err.text))
  | .ok v =>
    let s := match v with
      | .string s => s
      | _ => ""
    if s ≠ entry then
      .error (.schema ("apischema: enum value " ++ Go.quote entry ++ " of parameter " ++
        Go.quote name ++ " normalizes to " ++ Go.quote s ++ " and could never match"))
    else .ok ()

/-- The first error of a check over a list. -/
def checkEach {α : Type} (check : α → Except Err Unit) : List α → Except Err Unit
  | [] => .ok ()
  | x :: xs => do
    check x
    checkEach check xs

/-- Every enum value passes the property's own format, pattern and lengths. -/
def checkEnumReachable (elem : Option (String → Any → Except Err Any)) (field : String)
    (p : Facets) : Except Err Unit :=
  if p.format = "" && p.pattern = "" && p.minLength.isNone && p.maxLength.isNone then .ok ()
  else checkEach (compileEnumEntry env elem field p) (p.enum.getD [])

/-- A value checked against its property. -/
def validateValue : Property → String → Any → Except Err Any
  | ⟨p, none⟩, field, raw => validateWith env none (checkEnumReachable env none field p) field p raw
  | ⟨p, some item⟩, field, raw =>
    let elem := some (validateValue item)
    validateWith env elem (checkEnumReachable env elem field p) field p raw

def Property.elem (prop : Property) : Option (String → Any → Except Err Any) :=
  prop.items.map (validateValue env)

theorem validateValue_eq (prop : Property) (field : String) (raw : Any) :
    validateValue env prop field raw =
      validateWith env (prop.elem env) (checkEnumReachable env (prop.elem env) field prop.facets)
        field prop.facets raw := by
  obtain ⟨p, items⟩ := prop
  cases items with
  | none | some item => rfl

/-! ## `Compile` -/

/-- `aliasIndex` from the aliases found so far. -/
def aliasIndexFrom (props : Properties) : Map String → List String → Except Err (Map String)
  | aliases, [] => .ok aliases
  | aliases, name :: names =>
    if name = "" then .error (.schema "apischema: schema declares an empty parameter name")
    else match props.lookup name with
      | none => aliasIndexFrom props aliases names
      | some prop =>
        let aliasName := prop.facets.aliasName
        if aliasName = "" then aliasIndexFrom props aliases names
        else if aliasName = name then
          .error (.schema ("apischema: parameter " ++ Go.quote name ++ " is its own alias"))
        else if (props.lookup aliasName).isSome then
          .error (.schema ("apischema: alias " ++ Go.quote aliasName ++ " of parameter " ++
            Go.quote name ++ " collides with a declared parameter"))
        else if (aliases.lookup aliasName).any (· ≠ "") then
          .error (.schema ("apischema: alias " ++ Go.quote aliasName ++ " is claimed by both " ++
            Go.quote ((aliases.lookup aliasName).getD "") ++ " and " ++ Go.quote name))
        else aliasIndexFrom props (aliases.insert aliasName name) names

/-- The parameter each alias stands for. -/
def aliasIndex (props : Properties) (names : List String) : Except Err (Map String) :=
  aliasIndexFrom props ∅ names

/-- The checks of an element schema, each with the error it is refused with. -/
def itemChecks (name : String) (item : Facets) : List (Bool × String) :=
  let items := "apischema: items schema of " ++ Go.quote name
  [ (item.type ∉ [ParamType.string, .integer, .number, .boolean],
      "apischema: array parameter " ++ Go.quote name ++ " declares " ++ Go.quote item.type.text ++
        " items; only scalar element types are supported"),
    (item.optional, items ++ " cannot be optional"),
    (!item.default.isNil, items ++ " cannot declare a default"),
    (item.requires ≠ [], items ++ " cannot declare requires"),
    (item.aliasName ≠ "", items ++ " cannot declare an alias"),
    (item.source ≠ .auto, items ++ " cannot declare a source"),
    (item.emptyIsAbsent, items ++ " cannot count an empty value as absent") ]

/-- One name of `Requires`; an element schema has no enclosing one. -/
def checkRequire (name : String) (props : Option Properties) (req : String) : Except Err Unit :=
  if req = name then
    .error (.schema ("apischema: parameter " ++ Go.quote name ++ " requires itself"))
  else match props with
    | none => .ok ()
    | some props => match props.lookup req with
      | none => .error (.schema ("apischema: parameter " ++ Go.quote name ++
          " requires undeclared parameter " ++ Go.quote req))
      | some target =>
        if !target.facets.optional then
          .error (.schema ("apischema: parameter " ++ Go.quote name ++ " requires " ++
            Go.quote req ++ ", which is not optional and is therefore always supplied"))
        else .ok ()

def compilePattern (name : String) (p : Facets) : Except Err Unit :=
  if p.pattern = "" then .ok ()
  else do
    let _ ← patternRegexp env name p
    return

def compileFormat (name : String) (p : Facets) : Except Err Unit :=
  if p.format = "" then .ok ()
  else do
    let _ ← registered env name p
    return

/-- The default passes its own property. -/
def compileDefault (name : String) (prop : Property) : Except Err Unit :=
  if prop.facets.default.isNil then .ok ()
  else match validateValue env prop name prop.facets.default with
    | .error err => .error (.schema ("apischema: default for parameter " ++ Go.quote name ++
        " is invalid: " ++ err.text))
    | .ok _ => .ok ()

/-- The element schema is looked at for an array only. -/
def compileArray (p : Facets) (items : Except Err Unit) : Except Err Unit :=
  if p.type = .array then items else .ok ()

/-- `compileProperty`, given what `compileItems` finds of the element schema. -/
def compileWith (prop : Property) (items : Except Err Unit) (name : String)
    (props : Option Properties) : Except Err Unit := do
  let p := prop.facets
  checkDeclaration env name p prop.items.isSome
  compilePattern env name p
  compileFormat env name p
  compileArray p items
  checkEach (checkRequire name props) p.requires
  compileDefault env name prop
  checkEach (compileEnumEntry env (prop.elem env) name p) (p.enum.getD [])

/-- One property of a schema, with that of its elements. -/
def compileProperty : Property → String → Option Properties → Except Err Unit
  | ⟨p, none⟩, name, props => compileWith env ⟨p, none⟩ (.ok ()) name props
  | ⟨p, some item⟩, name, props =>
    let items := do
      firstDefect (itemChecks name item.facets)
      compileProperty item (name ++ "[]") none
    compileWith env ⟨p, some item⟩ items name props

/-- The declared names, in order. -/
def Properties.names (props : Properties) : List String := Go.sort props.keys

/-- The check of a schema at startup. -/
def Properties.compile (props : Properties) : Except Err Unit := do
  let _ ← aliasIndex props props.names
  checkEach (fun name => match props.lookup name with
    | none => .ok ()
    | some prop => compileProperty env prop name (some props)) props.names

/-! ## `Validate` -/

/-- The values of a request, and which of them it supplied. -/
structure Params where
  props : Properties
  values : Map Any := ∅
  supplied : List String := []

/-- A JSON null counts as absent. -/
def present (inp : Map Any) (key : String) : Option Any :=
  (inp.lookup key).filter (!·.isNil)

mutual

def deepCopyValue : Any → Any
  | .object fields => .object (deepCopyFields fields)
  | .slice elems => .slice (deepCopyElems elems)
  | v => v

def deepCopyFields : List (String × Any) → List (String × Any)
  | [] => []
  | (k, e) :: fields => (k, deepCopyValue e) :: deepCopyFields fields

def deepCopyElems : List Any → List Any
  | [] => []
  | e :: elems => deepCopyValue e :: deepCopyElems elems

end

/-- The value a request has for a parameter, under its name or its alias. -/
def rawValue (inp : Map Any) (name : String) (p : Facets) : Except Err (Option Any) :=
  if p.aliasName = "" then .ok (present inp name)
  else match present inp name, present inp p.aliasName with
    | some _, some _ => .error (newErr name ("cannot be combined with its alias " ++ p.aliasName))
    | none, some aliasRaw => .ok (some aliasRaw)
    | raw, none => .ok raw

def Any.isEmptyString : Any → Bool
  | .string s => s = ""
  | _ => false

/-- An empty value is absent for a property that says so. -/
def dropEmpty (name : String) (prop : Property) : Option Any → Except Err (Option Any)
  | none => .ok none
  | some raw =>
    if prop.facets.emptyIsAbsent && raw.isEmptyString then do
      checkDeclaration env name prop.facets prop.items.isSome
      return none
    else .ok (some raw)

/-- One parameter of a request: its value, or its default. -/
def validateParam (inp : Map Any) (name : String) (prop : Property) (out : Params) :
    Except Err Params := do
  let p := prop.facets
  let raw ← rawValue inp name p
  match ← dropEmpty env name prop raw with
  | none =>
    if !p.optional then
      if !p.default.isNil then
        .error (.schema ("apischema: parameter " ++ Go.quote name ++
          " is required but declares a default, which could never apply"))
      else .error (newErr name "missing required parameter")
    else if p.default.isNil then return out
    else match validateValue env prop name (deepCopyValue p.default) with
      | .error err => .error (.schema ("apischema: default for parameter " ++ Go.quote name ++
          " is invalid: " ++ err.text))
      | .ok v => return { out with values := out.values.insert name v }
  | some raw =>
    let v ← validateValue env prop name raw
    return { out with values := out.values.insert name v, supplied := name :: out.supplied }

/-- The parameters, in the order of their names. -/
def validateParams (props : Properties) (inp : Map Any) : List String → Params → Except Err Params
  | [], out => .ok out
  | name :: names, out => match props.lookup name with
    | none => validateParams props inp names out
    | some prop => do
      let out ← validateParam env inp name prop out
      validateParams props inp names out

/-- What a supplied parameter requires is supplied too. -/
def checkSupplied (props : Properties) (out : Params) (name : String) : Except Err Unit :=
  match props.lookup name with
  | none => .ok ()
  | some prop =>
    if prop.facets.requires = [] ∨ name ∉ out.supplied then .ok ()
    else checkEach (fun req =>
      if (props.lookup req).isNone then
        .error (.schema ("apischema: parameter " ++ Go.quote name ++
          " requires undeclared parameter " ++ Go.quote req))
      else if req ∉ out.supplied then
        .error (newErr name ("requires the parameter " ++ req ++ " to also be set"))
      else .ok ()) prop.facets.requires

/-- A key of the request is declared. -/
def checkKey (props : Properties) (aliases : Map String) (key : String) : Except Err Unit :=
  if (props.lookup key).isSome then .ok ()
  else if (aliases.lookup key).isSome then .ok ()
  else .error (newErr key "unknown parameter (not declared by this endpoint)")

/-- A request checked against its schema. -/
def Properties.validate (props : Properties) (inp : Map Any) : Except Err Params := do
  let aliases ← aliasIndex props props.names
  checkEach (checkKey props aliases) (Go.sort inp.keys)
  let out ← validateParams env props inp props.names { props }
  checkEach (checkSupplied props out) props.names
  return out

end Nexara.Apischema
