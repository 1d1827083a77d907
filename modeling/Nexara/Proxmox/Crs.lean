import Nexara.Go.Strings

/-!
# The cluster resource scheduler option

The datacenter option `crs` is a property string such as
`ha=dynamic,ha-auto-rebalance=1,ha-auto-rebalance-threshold=30`; some round trips decode it into an
object. `parseCRSSettings` reads both shapes, `restorable` is the string that is written back to
restore the settings, and `pausedAutoRebalance` the one that turns the native balancer off.
-/

namespace Nexara.Proxmox

/-- A decoded JSON value. A number that is no integer is given by the text `strconv.FormatFloat`
prints. -/
inductive JsonValue where
  | string (s : String)
  | integer (n : ℤ)
  | float (text : String)
  | bool (b : Bool)
  | other
  deriving DecidableEq

/-- What `GET /cluster/options` can hold under `crs`. -/
inductive CrsOption where
  | absent
  | text (s : String)
  | object (fields : List (String × JsonValue))
  deriving DecidableEq

structure CRSSettings where
  ha : String := ""
  autoRebalance : Bool := false
  threshold : ℤ := 0
  holdDuration : ℤ := 0
  margin : ℤ := 0
  method : String := ""
  rebalanceOnStart : Bool := false
  raw : String := ""

namespace CRSSettings

def autoRebalanceActive (s : CRSSettings) : Bool := s.autoRebalance

end CRSSettings

/-- A Go map with string keys and values, as the list of its assignments, the latest first. -/
abbrev StringMap := List (String × String)

/-- The value under a key, or the zero value. -/
def StringMap.get (m : StringMap) (k : String) : String := (List.lookup k m).getD ""

/-- One part of a property string: nothing for an empty part or a bare token. -/
def crsPart (part : String) : Option (String × String) :=
  let part := Go.trimSpace part
  if part = "" then none
  else (Go.cut part '=').map fun kv => (Go.trimSpace kv.1, Go.trimSpace kv.2)

def splitCRSPropString (raw : String) : StringMap :=
  ((Go.split raw ',').filterMap crsPart).reverse

/-- `strings.EqualFold(s, "true")`: none of the four letters has a fold outside ASCII. -/
def equalFoldTrue (s : String) : Bool := s.toList.map Char.toLower = "true".toList

def crsBool (s : String) : Bool := s = "1" || equalFoldTrue s

def crsInt (s : String) : ℤ := if s = "" then 0 else Go.atoi (Go.trimSpace s)

def assignCRS (m : StringMap) (s : CRSSettings) : CRSSettings :=
  { s with
    ha := m.get "ha"
    method := m.get "ha-auto-rebalance-method"
    autoRebalance := crsBool (m.get "ha-auto-rebalance")
    rebalanceOnStart := crsBool (m.get "ha-rebalance-on-start")
    threshold := crsInt (m.get "ha-auto-rebalance-threshold")
    holdDuration := crsInt (m.get "ha-auto-rebalance-hold-duration")
    margin := crsInt (m.get "ha-auto-rebalance-margin") }

def crsValueToString : JsonValue → String
  | .string s => s
  | .integer n => toString n
  | .float text => text
  | .bool true => "1"
  | .bool false => "0"
  | .other => ""

def parseCRSSettings : CrsOption → CRSSettings
  | .absent => {}
  | .text raw => assignCRS (splitCRSPropString raw) { raw := raw }
  | .object fields => assignCRS (fields.map fun kv => (kv.1, crsValueToString kv.2)) {}

def crsBoolStr (b : Bool) : String := if b then "1" else "0"

def setCRSKey (raw key val : String) : String :=
  let parts := ((Go.split raw ',').map Go.trimSpace).filter (· ≠ "")
  let isKey := fun part => match Go.cut part '=' with
    | some kv => Go.trimSpace kv.1 = key
    | none => false
  let out := parts.map fun part => if isKey part then key ++ "=" ++ val else part
  Go.join "," (if parts.any isKey then out else out ++ [key ++ "=" ++ val])

namespace CRSSettings

/-- One optional part of the serialized settings. -/
def part (present : Bool) (text : String) : List String := if present then [text] else []

def serialize (s : CRSSettings) : String :=
  Go.join "," (
    part (s.ha ≠ "") ("ha=" ++ s.ha) ++
    ["ha-auto-rebalance=" ++ crsBoolStr s.autoRebalance] ++
    part (s.threshold > 0) ("ha-auto-rebalance-threshold=" ++ toString s.threshold) ++
    part (s.holdDuration > 0) ("ha-auto-rebalance-hold-duration=" ++ toString s.holdDuration) ++
    part (s.margin > 0) ("ha-auto-rebalance-margin=" ++ toString s.margin) ++
    part (s.method ≠ "") ("ha-auto-rebalance-method=" ++ s.method) ++
    part s.rebalanceOnStart "ha-rebalance-on-start=1")

def restorable (s : CRSSettings) : String := if s.raw ≠ "" then s.raw else s.serialize

def pausedAutoRebalance (s : CRSSettings) : String :=
  if s.raw ≠ "" then setCRSKey s.raw "ha-auto-rebalance" "0"
  else serialize { s with autoRebalance := false }

end CRSSettings

@[simp] theorem parseCRSSettings_raw (raw : String) :
    (parseCRSSettings (.text raw)).raw = raw := rfl

theorem restorable_text {raw : String}
    (h : (parseCRSSettings (.text raw)).autoRebalanceActive = true) :
    (parseCRSSettings (.text raw)).restorable = raw := by
  refine if_pos ?_
  rintro rfl
  revert h
  decide

end Nexara.Proxmox
