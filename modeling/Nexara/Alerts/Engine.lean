import Mathlib.Data.Int.Notation
import Nexara.Conc.Protocol

/-!
# The alert engine

`handleRuleResult` over the rows of `alert_history`, beside the requests that acknowledge and
resolve alerts. One evaluator is at work at a time, and handles the results of any rules one after
another. Any database call may fail without effect. The process reads its own clock, and the
database stamps rows by another: both may show any time.
-/

namespace Nexara.Alerts

open Conc

/-! ## Rows and rules -/

inductive State where
  | pending
  | firing
  | acknowledged
  | resolved
  deriving DecidableEq

/-- A row of `alert_history`. Times are in nanoseconds. -/
structure Alert where
  id : ℕ
  ruleID : ℕ
  node : Option ℕ
  state : State
  escalationLevel : ℕ := 0
  pendingAt : ℤ
  firedAt : Option ℤ := none
  resolvedAt : Option ℤ := none
  createdAt : ℤ
  deriving DecidableEq

/-- What an alert is raised for: a rule and, if the rule's scope tells them apart, a node. -/
def Alert.stream (a : Alert) : ℕ × Option ℕ := (a.ruleID, a.node)

def seconds (n : ℕ) : ℤ := n * 1000000000

/-- What the engine reads of a rule; `perNode` says whether its scope has a result for each node. -/
structure AlertRule where
  id : ℕ
  metric : String
  perNode : Bool
  durationSeconds : ℕ
  cooldownSeconds : ℕ
  escalationChain : List ℕ

def windowedMetrics : List String := ["pve_task_failed", "pve_backup_failed"]

def pendingDuration (rule : AlertRule) : ℤ :=
  if rule.metric ∈ windowedMetrics then 0 else seconds rule.durationSeconds

def alertActive (s : State) : Bool := s = .pending || s = .firing || s = .acknowledged

def resolveNotifies (s : State) : Bool := s = .firing || s = .acknowledged

/-! ## The queries -/

def Alert.transitionToFiring (now : ℤ) (a : Alert) : Alert :=
  if a.state = .pending then { a with state := .firing, firedAt := some now } else a

def Alert.acknowledge (a : Alert) : Alert :=
  if a.state = .firing then { a with state := .acknowledged } else a

def Alert.resolve (now : ℤ) (a : Alert) : Alert :=
  if a.state = .firing ∨ a.state = .acknowledged then
    { a with state := .resolved, resolvedAt := some now }
  else a

def Alert.autoResolve (now : ℤ) (a : Alert) : Alert :=
  if a.state = .pending ∨ a.state = .firing ∨ a.state = .acknowledged then
    { a with state := .resolved, resolvedAt := some now }
  else a

/-- The `WHERE` of `GetLatestAlertForRule`. -/
def Alert.isFor (a : Alert) (ruleID : ℕ) (node : Option ℕ) : Bool :=
  a.ruleID = ruleID && (node.isNone || a.node = node)

/-- The rows, a row's id being its place, what the database's clock shows, and who is evaluating. -/
structure World where
  rows : List Alert := []
  now : ℤ := 0
  evaluator : Option ℕ := none

/-- The rows `ORDER BY created_at DESC LIMIT 1` may pick. -/
def World.latest (w : World) (ruleID : ℕ) (node : Option ℕ) : List Alert :=
  let rows := w.rows.filter (·.isFor ruleID node)
  rows.filter fun a => rows.all fun b => b.createdAt ≤ a.createdAt

/-- The row inserted for a stream. -/
def World.newAlert (w : World) (ruleID : ℕ) (node : Option ℕ) : Alert where
  id := w.rows.length
  ruleID := ruleID
  node := node
  state := .pending
  pendingAt := w.now
  createdAt := w.now

def World.update (w : World) (id : ℕ) (f : Alert → Alert) : World :=
  { w with rows := w.rows.modify id f }

/-! ## Statements -/

inductive Notice where
  | firing
  | resolved
  deriving DecidableEq

inductive Stmt where
  | beginTick
  | endTick
  | getLatestAlertForRule (ruleID : ℕ) (node : Option ℕ)
  | timeNow
  | insertAlertHistory (ruleID : ℕ) (node : Option ℕ)
  | transitionAlertToFiring (id : ℕ)
  | autoResolveAlert (id : ℕ)
  | dispatchToChannel (id channel : ℕ) (notice : Notice) (level : ℕ)
  | getAlertHistory (id : ℕ)
  /-- The caller's permissions, among them those that hide a metric's alerts. -/
  | permissions (id : ℕ)
  | acknowledgeAlert (id : ℕ)
  | resolveAlert (id : ℕ)
  | respond (status : ℕ) (message : String)
  | setClock (now : ℤ)
  deriving DecidableEq

/-- The answers; `none` and `false` are errors. -/
@[reducible] def Stmt.Ans : Stmt → Type
  | getLatestAlertForRule .. => Option (Option Alert)
  | timeNow => ℤ
  | insertAlertHistory .. | getAlertHistory _ => Option Alert
  | transitionAlertToFiring _ | autoResolveAlert _ | acknowledgeAlert _ | resolveAlert _ => Bool
  | permissions _ => Option (ℕ × String)
  | beginTick | endTick | dispatchToChannel .. | respond .. | setClock _ => Unit

/-- Whether it fails, which of the latest rows is picked, the process's clock, or the refusal. -/
@[reducible] def Stmt.Outcome : Stmt → Type
  | getLatestAlertForRule .. => Option ℕ
  | insertAlertHistory .. | getAlertHistory _ => Bool
  | e => e.Ans

abbrev sig : Sig := ⟨Stmt, Stmt.Ans⟩

abbrev Code (α : Type) := Prog sig α

def call (e : Stmt) : Code e.Ans := Prog.stmt (S := sig) e

/-! ## The engine -/

def dispatchForRule (rule : AlertRule) (id : ℕ) (notice : Notice) (level : ℕ) : Code Unit :=
  match rule.escalationChain with
  | [] => return
  | first :: rest =>
    let chain := first :: rest
    let idx := if level ≥ chain.length then chain.length - 1 else level
    call (.dispatchToChannel id (chain.getD idx first) notice level)

/-- An alert fires: the row moves on, then the rule's channel is told. -/
def fire (rule : AlertRule) (id : ℕ) : Code Unit := do
  if ← call (.transitionAlertToFiring id) then dispatchForRule rule id .firing 0

/-- The insert of a new pending alert, which fires at once when nothing has to persist first. -/
def raise (rule : AlertRule) (node : Option ℕ) : Code Unit := do
  match (← call (.insertAlertHistory rule.id node) : Option Alert) with
  | none => return
  | some alert => if pendingDuration rule = 0 then fire rule alert.id

def Alert.since (a : Alert) : ℤ := a.resolvedAt.getD a.createdAt

def handleRuleResult (rule : AlertRule) (conditionMet : Bool) (node : Option ℕ) : Code Unit := do
  match (← call (.getLatestAlertForRule rule.id node) : Option (Option Alert)) with
  -- A failed lookup must not be taken for "no existing alert".
  | none => return
  | some none => if conditionMet then raise rule node
  | some (some existing) =>
    if conditionMet then
      if alertActive existing.state then
        if existing.state = .pending then do
          let now : ℤ ← call .timeNow
          if now - existing.pendingAt ≥ pendingDuration rule then fire rule existing.id
      else if existing.state = .resolved then do
        let now : ℤ ← call .timeNow
        if now - existing.since < seconds rule.cooldownSeconds then return
        else raise rule node
      else raise rule node
    else if alertActive existing.state then do
      if ← call (.autoResolveAlert existing.id) then
        if resolveNotifies existing.state then
          dispatchForRule rule existing.id .resolved existing.escalationLevel

/-- One result of the evaluator, between those before and after it. -/
def evaluate (rule : AlertRule) (conditionMet : Bool) (node : Option ℕ) : Code Unit := do
  call .beginTick
  handleRuleResult rule conditionMet node
  call .endTick

/-! ## The requests -/

/-- `readableAlert` and the permission to acknowledge: the alert, or the answer the request ends
in. -/
def readableAlert (id : ℕ) : Code (Except (ℕ × String) Alert) := do
  match (← call (.getAlertHistory id) : Option Alert) with
  | none => return .error (404, "Alert not found")
  | some alert =>
    match (← call (.permissions id) : Option (ℕ × String)) with
    | some refusal => return .error refusal
    | none => return .ok alert

def acknowledgeAlert (id : ℕ) : Code Unit := do
  match ← readableAlert id with
  | .error r => call (.respond r.1 r.2)
  | .ok alert =>
    if alert.state ≠ .firing then call (.respond 409 "Alert is not in firing state")
    else if ← call (.acknowledgeAlert id) then call (.respond 200 "acknowledged")
    else call (.respond 500 "Failed to acknowledge alert")

def resolveAlert (id : ℕ) : Code Unit := do
  match ← readableAlert id with
  | .error r => call (.respond r.1 r.2)
  | .ok alert =>
    if alert.state ≠ .firing ∧ alert.state ≠ .acknowledged then
      call (.respond 409 "Alert cannot be resolved from current state")
    else if ← call (.resolveAlert id) then call (.respond 200 "resolved")
    else call (.respond 500 "Failed to resolve alert")

/-! ## The system -/

def exec (i : ℕ) : (e : Stmt) → e.Outcome → World → Option (e.Ans × World)
  | .beginTick, _, w =>
    if w.evaluator = none then some ((), { w with evaluator := some i }) else none
  | .endTick, _, w => some ((), { w with evaluator := none })
  | .getLatestAlertForRule _ _, none, w => some (none, w)
  | .getLatestAlertForRule ruleID node, some k, w =>
    match w.latest ruleID node with
    | [] => some (some none, w)
    | a :: as => some (some (some ((a :: as).getD k a)), w)
  | .timeNow, t, w => some (t, w)
  | .insertAlertHistory ruleID node, true, w =>
    some (some (w.newAlert ruleID node), { w with rows := w.rows ++ [w.newAlert ruleID node] })
  | .insertAlertHistory .., false, w => some (none, w)
  | .transitionAlertToFiring id, true, w =>
    some (true, w.update id (Alert.transitionToFiring w.now))
  | .transitionAlertToFiring _, false, w => some (false, w)
  | .autoResolveAlert id, true, w => some (true, w.update id (Alert.autoResolve w.now))
  | .autoResolveAlert _, false, w => some (false, w)
  | .dispatchToChannel .., _, w => some ((), w)
  | .getAlertHistory id, true, w => some (w.rows[id]?, w)
  | .getAlertHistory _, false, w => some (none, w)
  | .permissions _, a, w => some (a, w)
  | .acknowledgeAlert id, true, w => some (true, w.update id Alert.acknowledge)
  | .acknowledgeAlert _, false, w => some (false, w)
  | .resolveAlert id, true, w => some (true, w.update id (Alert.resolve w.now))
  | .resolveAlert _, false, w => some (false, w)
  | .respond .., _, w => some ((), w)
  | .setClock now, _, w => some ((), { w with now })

inductive Role where
  | evaluate (ruleID : ℕ) (conditionMet : Bool) (node : ℕ)
  | acknowledgeAlert (id : ℕ)
  | resolveAlert (id : ℕ)
  | clock (now : ℤ)

abbrev Rules := ℕ → AlertRule

/-- The node a rule's result is filed under. -/
def AlertRule.nodeParam (rule : AlertRule) (node : ℕ) : Option ℕ :=
  if rule.perNode then some node else none

def code (rules : Rules) : Role → Code Unit
  | .evaluate ruleID conditionMet node =>
    let rule := { rules ruleID with id := ruleID }
    evaluate rule conditionMet (rule.nodeParam node)
  | .acknowledgeAlert id => acknowledgeAlert id
  | .resolveAlert id => resolveAlert id
  | .clock now => call (.setClock now)

abbrev alerts (rules : Rules) : System where
  sig := sig
  State := World
  Role := Role
  code := code rules
  Outcome := Stmt.Outcome
  exec := fun i _ => exec i

end Nexara.Alerts
