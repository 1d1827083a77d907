import Mathlib.Data.Rat.Floor
import Nexara.Go.Strings

/-!
# The rules that judge UPSes

`upsRuleVerdict`: what a UPS rule says of the device rows, with the maintenance windows open now.
A figure is the exact rational it denotes (`nut.Number` takes finite numbers only), and a status is
its flags.
-/

namespace Nexara.Alerts

/-! ## Rules and devices -/

inductive UpsMetric where
  | onBattery
  | batteryCharge
  | runtime
  | load
  | unreachable
  | replaceBattery
  deriving DecidableEq

/-- A rule's operator; `other` is a text that names none. -/
inductive Operator where
  | gt
  | ge
  | lt
  | le
  | eq
  | ne
  | other
  deriving DecidableEq

def compareValue (value : ℚ) (operator : Operator) (threshold : ℚ) : Bool :=
  match operator with
  | .gt => value > threshold
  | .ge => value ≥ threshold
  | .lt => value < threshold
  | .le => value ≤ threshold
  | .eq => value = threshold
  | .ne => value ≠ threshold
  | .other => false

def exceedsThreshold (operator : Operator) : Bool := operator = .gt || operator = .ge

inductive UpsScope where
  | global
  | ups
  deriving DecidableEq

structure UpsRule where
  scope : UpsScope
  upsID : Option ℕ := none
  metric : UpsMetric
  operator : Operator
  threshold : ℚ

/-- A row of `ListUpsDevices`. Times are in seconds; `vars` are the variables that hold a number. -/
structure UpsDevice where
  id : ℕ
  upsName : String
  serverName : String
  serverEnabled : Bool := true
  reachability : String := "ok"
  lastReadingAt : Option ℤ
  status : List String
  vars : List (String × ℚ) := []

/-- What a rule reads of one UPS. -/
structure UpsReading where
  name : String
  current : Bool
  onBattery : Bool
  replace : Bool
  charge : Option ℚ
  /-- In seconds. -/
  runtime : Option ℚ
  load : Option ℚ

def staleAfter (pollInterval : ℤ) : ℤ := max (3 * pollInterval) 120

/-- The UPS was read, and not too long ago. -/
def readingCurrent (r : UpsDevice) (pollInterval now : ℤ) : Bool :=
  r.serverEnabled && r.reachability = "ok" &&
    r.lastReadingAt.any fun readAt => now - readAt ≤ staleAfter pollInterval

def UpsDevice.reading (pollInterval now : ℤ) (r : UpsDevice) : UpsReading where
  name := r.upsName ++ "@" ++ r.serverName
  current := readingCurrent r pollInterval now
  onBattery := "OB" ∈ r.status
  replace := "RB" ∈ r.status
  charge := r.vars.lookup "battery.charge"
  runtime := r.vars.lookup "battery.runtime"
  load := r.vars.lookup "ups.load"

def upsAlertReadings (rows : List UpsDevice) (pollInterval now : ℤ) : List UpsReading :=
  (rows.filter (·.serverEnabled)).map (UpsDevice.reading pollInterval now)

/-! ## Labels -/

/-- `strconv.FormatFloat(v, 'f', 0, 64)`: the nearest integer, a half to the even one. -/
def formatWhole (v : ℚ) : String :=
  let below := ⌊v⌋
  let half := v - below
  toString (if half < 1 / 2 ∨ half = 1 / 2 ∧ below % 2 = 0 then below else below + 1)

def twoDigits (n : ℕ) : String := if n < 10 then "0" ++ toString n else toString n

def formatRuntime (sec : ℚ) : String :=
  let s := ⌊max 0 sec⌋.toNat
  if s ≥ 3600 then toString (s / 3600) ++ "h " ++ twoDigits (s % 3600 / 60) ++ "m"
  else if s ≥ 60 then toString (s / 60) ++ "m " ++ twoDigits (s % 60) ++ "s"
  else toString s ++ "s"

def remaining (charge runtime : Option ℚ) : String :=
  Go.join " · " ((charge.map fun c => formatWhole c ++ "%").toList ++
    (runtime.map fun r => formatRuntime r ++ " left").toList)

/-! ## Verdicts -/

/-- What a rule finds, and the text that says so. -/
structure UpsOutcome where
  value : ℚ := 0
  label : String := ""
  judged : Bool := false
  met : Bool := false
  hold : Bool := false

def upsNames (ups : List UpsReading) (keep : UpsReading → Bool) : List String :=
  (ups.filter keep).map (·.name)

def upsCount (names : List String) (total : ℕ) (one several none : String) : UpsOutcome where
  value := names.length
  judged := true
  label :=
    let shown := names.take 3
    match names with
    | [] => s!"{none} ({total} watched)"
    | [name] => name ++ " " ++ one
    | _ =>
      s!"{names.length} of {total} UPS {several}: " ++ Go.join ", " shown ++
        if names.length > shown.length then s!" and {names.length - shown.length} more" else ""

/-- One UPS of the search for the lowest (or highest) reading. -/
def upsExtremeStep (read : UpsReading → Option ℚ) (highest : Bool)
    (acc : Option UpsReading × ℕ) (u : UpsReading) : Option UpsReading × ℕ :=
  match read u with
  | none => acc
  | some v =>
    let takes := acc.1.all fun worst => (read worst).all fun best =>
      (highest && v > best) || (!highest && v < best)
    (if takes then some u else acc.1, acc.2 + 1)

def upsExtreme (ups : List UpsReading) (read : UpsReading → Option ℚ) (highest : Bool) :
    Option UpsReading × ℕ :=
  ups.foldl (upsExtremeStep read highest) (none, 0)

/-- A missing figure comes last. -/
def lessOrNil : Option ℚ → Option ℚ → Bool
  | none, _ => false
  | some _, none => true
  | some a, some b => a < b

/-- The UPS on battery with the least runtime left. -/
def worstOnBattery (ups : List UpsReading) : Option UpsReading :=
  ups.foldl (fun worst u =>
    if u.onBattery && worst.all fun w => lessOrNil u.runtime w.runtime then some u else worst) none

/-- The figure that a metric is judged by. -/
def upsAggregate (metric : UpsMetric) (ups : List UpsReading) (total : ℕ) : UpsOutcome :=
  match metric with
  | .onBattery =>
    let names := upsNames ups (·.onBattery)
    let label := match worstOnBattery ups with
      | none => s!"No UPS is on battery ({total} watched)"
      | some worst =>
        let left := remaining worst.charge worst.runtime
        worst.name ++ " is on battery" ++ (if left ≠ "" then " · " ++ left else "") ++
          if names.length > 1 then s!" ({names.length} of {total} UPS on battery)" else ""
    { value := names.length, judged := true, label }
  | .replaceBattery =>
    upsCount (upsNames ups (·.replace)) total "reports its battery needs replacing"
      "report a battery that needs replacing" "No UPS reports a battery to replace"
  | .batteryCharge =>
    match upsExtreme ups (·.charge) false with
    | (none, _) => { label := "No UPS reports its battery charge" }
    | (some w, n) =>
      let charge := w.charge.getD 0
      { value := charge, judged := true
        label := w.name ++ " · " ++ formatWhole charge ++ s!"% charge (lowest of {n})" }
  | .runtime =>
    match upsExtreme ups (·.runtime) false with
    | (none, _) => { label := "No UPS reports its runtime" }
    | (some w, n) =>
      let runtime := w.runtime.getD 0
      -- The threshold is in minutes; a UPS reports seconds.
      { value := runtime / 60, judged := true
        label := w.name ++ " · " ++ formatRuntime runtime ++ s!" runtime (shortest of {n})" }
  | .load =>
    match upsExtreme ups (·.load) true with
    | (none, _) => { label := "No UPS reports its load" }
    | (some w, n) =>
      let load := w.load.getD 0
      { value := load, judged := true
        label := w.name ++ " · " ++ formatWhole load ++ s!"% load (highest of {n})" }
  | .unreachable => {}

/-- What some of the UPSes meet, all of them together meet. -/
def upsSubsetBounds (metric : UpsMetric) (operator : Operator) : Bool :=
  match metric with
  | .batteryCharge | .runtime => operator = .lt || operator = .le
  | _ => exceedsThreshold operator

def upsRuleValue (metric : UpsMetric) (operator : Operator) (threshold : ℚ)
    (ups : List UpsReading) : UpsOutcome :=
  if metric = .unreachable then
    let names := upsNames ups (fun u => !u.current)
    let out := upsCount names ups.length "cannot be read" "cannot be read" "Every UPS can be read"
    { out with met := compareValue out.value operator threshold }
  else
    let current := ups.filter (·.current)
    let out := upsAggregate metric current ups.length
    let met := out.judged && compareValue out.value operator threshold
    let unread := ups.length - current.length
    if unread = 0 then { out with met }
    else
      let label := out.label ++ s!" · {unread} UPS not read"
      if !met || !upsSubsetBounds metric operator then
        let all := upsAggregate metric ups ups.length
        if all.judged && compareValue all.value operator threshold then { hold := true }
        else { out with met := false, label }
      else { out with met, label }

end Nexara.Alerts
