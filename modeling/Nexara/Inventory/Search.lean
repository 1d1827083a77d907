import Nexara.Go.Strings

/-!
# Searching the inventory

The query language of the inventory table: tokens that are comparisons (`cpu>80%`), equalities with
alternatives (`status:running,paused`), or free text. An equality after `!` selects the rows that it
leaves out without it; a comparison selects the same rows with the `!` as without
(`applyFilter_negated_iff`).
-/

namespace Nexara.Inventory

/-- What the search takes from its language: `toLowerCase`, and the numbers. -/
structure Js (Num : Type) where
  toLowerCase : String → String
  number : String → Num
  parseFloat : String → Num
  string : Num → String
  times : Num → ℕ → Num
  isNaN : Num → Bool
  eq : Num → Num → Bool
  lt : Num → Num → Bool

inductive ResourceType | vm | ct | node
  deriving DecidableEq

structure InventoryRow (Num : Type) where
  type : ResourceType
  name : String
  status : String
  clusterName : String
  nodeName : String
  vmid : Option Num := none
  cpuCount : Num
  uptime : Num
  tags : String := ""
  haState : String := ""
  pool : String := ""
  template : Bool := false
  cpuPercent : Option Num := none
  memPercent : Option Num := none

inductive Field
  | type | status | cluster | node | name | tags | pool | ha | template | cpu | mem | vmid | cpus
  | cores | uptime
  deriving DecidableEq

inductive FilterOperator | eq | neq | gt | lt
  deriving DecidableEq

structure FilterCriteria where
  field : Field
  operator : FilterOperator
  value : String

structure ParsedQuery where
  filters : List FilterCriteria
  freeText : String

/-! ## Tokens -/

/-- `\s`. -/
def isSpace (c : Char) : Bool := (Go.isSpace c && c.val ≠ 0x85) || c.val = 0xfeff

/-- `[^\s"]`. -/
def isPlain (c : Char) : Bool := !isSpace c && c ≠ '"'

/-- `[^\s"]*"[^"]*"[^\s"]*`, at the beginning of a text. -/
def quotedAt (cs : List Char) : Option (List Char) :=
  match cs.dropWhile isPlain with
  | '"' :: inner =>
    match inner.dropWhile (· ≠ '"') with
    | '"' :: rest => some (cs.takeWhile isPlain ++
        '"' :: inner.takeWhile (· ≠ '"') ++ '"' :: rest.takeWhile isPlain)
    | _ => none
  | _ => none

/-- The token that a text begins with, if it does not begin with white space. -/
def tokenAt (cs : List Char) : List Char := (quotedAt cs).getD (cs.takeWhile fun c => !isSpace c)

def tokensFrom : ℕ → List Char → List (List Char)
  | 0, _ | _ + 1, [] => []
  | n + 1, c :: cs =>
    if isSpace c then tokensFrom n cs
    else tokenAt (c :: cs) :: tokensFrom n ((c :: cs).drop (tokenAt (c :: cs)).length)

def tokenize (query : List Char) : List (List Char) := tokensFrom query.length query

/-! ## The parser -/

def validFields : List (String × Field) :=
  [("type", .type), ("status", .status), ("cluster", .cluster), ("node", .node), ("name", .name),
    ("tags", .tags), ("pool", .pool), ("ha", .ha), ("template", .template), ("cpu", .cpu),
    ("mem", .mem), ("vmid", .vmid), ("cpus", .cpus), ("cores", .cores), ("uptime", .uptime)]

def fieldNamed (letters : List Char) : Option Field :=
  validFields.lookup (String.ofList (letters.map Char.toLower))

def durationMultiplier : List Char → Option ℕ
  | ['s'] => some 1
  | ['m'] => some 60
  | ['h'] => some 3600
  | ['d'] => some 86400
  | ['w'] => some 604800
  | _ => none

/-- `/^([a-z]+)([><])(\d+(?:\.\d+)?)(s|m|h|d|w|%)?$/i`, with the suffix in lower case. -/
def compMatch (token : List Char) : Option (List Char × Char × List Char × List Char) :=
  match token.dropWhile Char.isAlpha with
  | [] => none
  | sign :: rest =>
    let whole := rest.takeWhile Char.isDigit
    let (number, suffix) := match rest.dropWhile Char.isDigit with
      | '.' :: frac => (whole ++ '.' :: frac.takeWhile Char.isDigit, frac.dropWhile Char.isDigit)
      | suffix => (whole, suffix)
    let suffix := suffix.map Char.toLower
    if token.takeWhile Char.isAlpha = [] ∨ sign ∉ ['>', '<'] ∨ whole = [] ∨
        number.getLast? = some '.' ∨
        (suffix ∉ [[], ['%']] ∧ durationMultiplier suffix = none) then none
    else some (token.takeWhile Char.isAlpha, sign, number, suffix)

/-- `/^([a-z]+):(.+)$/i`; the point stands for no line terminator. -/
def kvMatch (token : List Char) : Option (List Char × List Char) :=
  match token.dropWhile Char.isAlpha with
  | ':' :: value =>
    if token.takeWhile Char.isAlpha = [] ∨ value = [] ∨
        value.any (·.val ∈ [0x0a, 0x0d, 0x2028, 0x2029]) then none
    else some (token.takeWhile Char.isAlpha, value)
  | _ => none

def stripQuotes (s : List Char) : List Char :=
  if s.head? = some '"' ∧ s.getLast? = some '"' ∧ 2 ≤ s.length then s.tail.dropLast else s

section

variable {Num : Type} (js : Js Num)

/-- A token that compares one of the fields with a number. -/
def comparison (token : List Char) : Option FilterCriteria := do
  let (letters, sign, number, suffix) ← compMatch token
  let field ← fieldNamed letters
  let numValue := js.parseFloat (String.ofList number)
  let numValue := match durationMultiplier suffix with
    | some k => js.times numValue k
    | none => numValue
  some { field, operator := if sign = '>' then .gt else .lt, value := js.string numValue }

/-- The field and the values of a token that asks for equality. -/
def equality (token : List Char) : Option (Field × String) := do
  let (letters, value) ← kvMatch token
  let field ← fieldNamed letters
  some (field, js.toLowerCase (String.ofList (stripQuotes value)))

/-- The filter of a token; free text has none. -/
def readToken (rawToken : List Char) : Option FilterCriteria :=
  let isNegated : Bool := rawToken.head? = some '!'
  let token := if isNegated then rawToken.tail else rawToken
  (comparison js token).or <| (equality js token).map fun (field, value) =>
    { field, operator := if isNegated then .neq else .eq, value }

def parseQuery (query : List Char) : ParsedQuery :=
  let tokens := tokenize query
  let freeTextParts := tokens.filter fun rawToken => (readToken js rawToken).isNone
  { filters := tokens.filterMap (readToken js)
    freeText := js.toLowerCase (Go.join " " (freeTextParts.map String.ofList)) }

/-! ## The rows of a query -/

def normalizeType (type : String) : Option ResourceType :=
  [("vm", .vm), ("qemu", .vm), ("ct", .ct), ("lxc", .ct), ("container", .ct),
    ("node", ResourceType.node)].lookup (js.toLowerCase type)

def ResourceType.text : ResourceType → String
  | .vm => "vm"
  | .ct => "ct"
  | .node => "node"

/-- The value of a field: a number, a text or `null`. -/
def getFieldValue (row : InventoryRow Num) (field : Field) : Option (Num ⊕ String) :=
  let text s := some (.inr (js.toLowerCase s))
  match field with
  | .type => some (.inr row.type.text)
  | .status => text row.status
  | .cluster => text row.clusterName
  | .node => text row.nodeName
  | .name => text row.name
  | .tags => text row.tags
  | .pool => text row.pool
  | .ha => text row.haState
  | .template => some (.inr (if row.template then "true" else "false"))
  | .cpu => row.cpuPercent.map .inl
  | .mem => row.memPercent.map .inl
  | .vmid => row.vmid.map .inl
  | .cpus | .cores => some (.inl row.cpuCount)
  | .uptime => some (.inl row.uptime)

def matchFilter (row : InventoryRow Num) (filter : FilterCriteria) : Bool :=
  let values := Go.split filter.value ','
  let unlessNegated (isMatch : Bool) := if filter.operator = .eq then isMatch else !isMatch
  if filter.operator = .eq ∨ filter.operator = .neq then
    if filter.field = .type then
      unlessNegated (values.any fun v => normalizeType js v = some row.type)
    else
      match getFieldValue js row filter.field with
      | none => filter.operator = .neq
      | some (.inl n) => unlessNegated (values.any fun v => js.eq n (js.number v))
      | some (.inr s) => unlessNegated (values.any fun v => Go.contains s v)
  else
    match getFieldValue js row filter.field with
    | some (.inl n) =>
      let numValue := js.number filter.value
      if js.isNaN numValue then false
      else if filter.operator = .gt then js.lt numValue n else js.lt n numValue
    | _ => false

/-- The condition under which `applyFilter` keeps a row. -/
def selects (parsed : ParsedQuery) (row : InventoryRow Num) : Bool :=
  let haystack := Go.join " " [js.toLowerCase row.name, js.toLowerCase row.clusterName,
    js.toLowerCase row.nodeName, (row.vmid.map js.string).getD "", js.toLowerCase row.tags]
  parsed.filters.all (matchFilter js row) &&
    (parsed.freeText = "" || Go.contains haystack parsed.freeText)

def applyFilter (rows : List (InventoryRow Num)) (parsed : ParsedQuery) : List (InventoryRow Num) :=
  rows.filter (selects js parsed)

/-! ## Negation -/

theorem matchFilter_neq (row : InventoryRow Num) (field : Field) (value : String) :
    matchFilter js row { field, operator := .neq, value } =
      !matchFilter js row { field, operator := .eq, value } := by
  unfold matchFilter
  simp only [reduceCtorEq, true_or, or_true, if_true, if_false]
  split_ifs
  · rfl
  · cases getFieldValue js row field with
    | none => rfl
    | some fieldValue => cases fieldValue <;> rfl

variable {t : List Char}

theorem isSpace_of_isAlpha {c : Char} (h : c.isAlpha = true) : isSpace c = false := by
  have hrange : 65 ≤ c.toNat ∧ c.toNat ≤ 90 ∨ 97 ≤ c.toNat ∧ c.toNat ≤ 122 := by
    rcases Bool.or_eq_true_iff.mp h with hupper | hlower
    · exact .inl (of_decide_eq_true hupper)
    · exact .inr ((Bool.and_eq_true_iff.mp hlower).imp of_decide_eq_true of_decide_eq_true)
  simp [isSpace, Go.isSpace, UInt32.le_iff_toNat_le, ← UInt32.toNat_inj]
  omega

theorem head_of_readToken {filter : FilterCriteria} (hplain : t.head? ≠ some '!')
    (h : readToken js t = some filter) : ∃ c cs, t = c :: cs ∧ c ≠ '!' ∧ isSpace c = false := by
  cases t with
  | nil => cases h
  | cons c cs =>
    have hne : c ≠ '!' := by simpa using hplain
    refine ⟨c, cs, rfl, hne, isSpace_of_isAlpha ?_⟩
    by_contra hc
    have hcomp : compMatch (c :: cs) = none := by
      simp [compMatch, List.dropWhile_cons_of_neg hc, List.takeWhile_cons_of_neg hc]
    have hkv : kvMatch (c :: cs) = none := by
      unfold kvMatch
      rw [List.dropWhile_cons_of_neg hc, List.takeWhile_cons_of_neg hc]
      split <;> simp
    simp [readToken, hne, comparison, equality, hcomp, hkv] at h

theorem tokenAt_bang (t : List Char) : tokenAt ('!' :: t) = '!' :: tokenAt t := by
  have hplain : isPlain '!' = true := by decide
  have hspace : isSpace '!' = false := by decide
  have hquoted : quotedAt ('!' :: t) = (quotedAt t).map ('!' :: ·) := by
    unfold quotedAt
    rw [List.dropWhile_cons_of_pos hplain, List.takeWhile_cons_of_pos hplain]
    split
    · split <;> rfl
    · rfl
  unfold tokenAt
  rw [hquoted, List.takeWhile_cons_of_pos (by simp [hspace])]
  cases quotedAt t <;> rfl

/-- The mark belongs to the token. -/
theorem tokenize_bang {c : Char} {cs : List Char} (hc : isSpace c = false)
    (h : tokenize (c :: cs) = [c :: cs]) : tokenize ('!' :: c :: cs) = ['!' :: c :: cs] := by
  have hspace : isSpace '!' = false := by decide
  have htoken : tokenAt (c :: cs) = c :: cs := by
    simp only [tokenize, List.length_cons, tokensFrom, hc] at h
    exact (List.cons.inj h).1
  show tokensFrom _ _ = _
  simp [tokensFrom, hspace, tokenAt_bang, htoken]

theorem filter_eq_filter_not {α : Type} {p : α → Bool} {l : List α} :
    l.filter p = l.filter (fun a => !p a) ↔ l = [] := by
  refine ⟨fun h => ?_, fun h => by rw [h]; rfl⟩
  cases l with
  | nil => rfl
  | cons a l =>
    have ha := congrArg (a ∈ ·) h
    simp at ha

theorem parseQuery_filter {filter : FilterCriteria} (htoken : tokenize t = [t])
    (h : readToken js t = some filter) : parseQuery js t = ⟨[filter], js.toLowerCase ""⟩ := by
  simp [parseQuery, htoken, h, Go.join]

/-- **A filter after `!` selects the rows it leaves out without it, unless it is a comparison.** -/
theorem applyFilter_negated_iff (htoken : tokenize t = [t]) (hplain : t.head? ≠ some '!')
    (hfilter : (parseQuery js t).filters.length = 1) (htext : (parseQuery js t).freeText = "")
    (rows : List (InventoryRow Num)) :
    applyFilter js rows (parseQuery js ('!' :: t)) =
        rows.filter (fun row => !selects js (parseQuery js t) row) ↔
      comparison js t = none ∨ rows = [] := by
  obtain ⟨filter, hread⟩ : ∃ filter, readToken js t = some filter := by
    cases hr : readToken js t with
    | some filter => exact ⟨filter, rfl⟩
    | none => simp [parseQuery, htoken, hr] at hfilter
  obtain ⟨c, cs, rfl, hne, hc⟩ := head_of_readToken js hplain hread
  rw [parseQuery_filter js htoken hread] at htext ⊢
  have hselects filter : selects js ⟨[filter], js.toLowerCase ""⟩ = (matchFilter js · filter) := by
    funext row
    simp [selects, show js.toLowerCase "" = "" from htext]
  have hnegated {filter'} (h : readToken js ('!' :: c :: cs) = some filter') :
      applyFilter js rows (parseQuery js ('!' :: c :: cs)) =
        rows.filter (matchFilter js · filter') := by
    rw [parseQuery_filter js (tokenize_bang hc htoken) h, applyFilter, hselects]
  rw [hselects]
  cases hcomp : comparison js (c :: cs) with
  | some g =>
    -- a comparison is read without regard to the `!`
    have hbang : readToken js ('!' :: c :: cs) = some g := by simp [readToken, hcomp]
    obtain rfl : g = filter := by simpa [readToken, hne, hcomp] using hread
    rw [hnegated hbang, filter_eq_filter_not]
    simp
  | none =>
    obtain ⟨⟨field, value⟩, hequal, rfl⟩ : ∃ kv, equality js (c :: cs) = some kv ∧
        { field := kv.1, operator := .eq, value := kv.2 } = filter := by
      simpa [readToken, hne, hcomp] using hread
    have hbang : readToken js ('!' :: c :: cs) = some { field, operator := .neq, value } := by
      simp [readToken, hcomp, hequal]
    rw [hnegated hbang]
    simp [matchFilter_neq]

end

/-- Whole numbers for the numbers of the language. -/
def wholeNumbers : Js ℕ where
  toLowerCase s := String.ofList (s.toList.map Char.toLower)
  number s := (Go.digits s.toList).getD 0
  parseFloat s := (Go.digits s.toList).getD 0
  string := toString
  times := (· * ·)
  isNaN _ := false
  eq := (· == ·)
  lt a b := a < b

def pve1 : InventoryRow ℕ :=
  { type := .node, name := "pve1", status := "online", clusterName := "lab", nodeName := "pve1"
    cpuCount := 16, uptime := 86400, cpuPercent := some 85 }

theorem applyFilter_not_name_quoted : applyFilter wholeNumbers [pve1]
    (parseQuery wholeNumbers ('!' :: "name:\"my server\"".toList)) = [pve1].filter fun row =>
      !selects wholeNumbers (parseQuery wholeNumbers "name:\"my server\"".toList) row :=
  (applyFilter_negated_iff wholeNumbers (by decide) (by decide) rfl rfl [pve1]).mpr (.inl rfl)

/-- The rows of `!cpu>80` are those of `cpu>80`. -/
theorem applyFilter_not_cpu_above :
    (parseQuery wholeNumbers "cpu>80".toList).filters.length = 1 ∧
    applyFilter wholeNumbers [pve1] (parseQuery wholeNumbers "!cpu>80".toList) ≠
      [pve1].filter fun row =>
        !selects wholeNumbers (parseQuery wholeNumbers "cpu>80".toList) row := by
  refine ⟨rfl, fun h => ?_⟩
  have hsame : parseQuery wholeNumbers "!cpu>80".toList =
    parseQuery wholeNumbers "cpu>80".toList := rfl
  rw [hsame] at h
  cases filter_eq_filter_not.mp h

end Nexara.Inventory
