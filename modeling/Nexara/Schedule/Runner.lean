import Nexara.Conc.Protocol
import Mathlib.Data.List.Perm.Basic

/-!
# The runner of scheduled tasks

`Run` claims every due row in one statement and works the rows off one after another: the reboot or
snapshot call, then the record of how it went, which arms the next run. Any number of passes run at
once. `RunScheduledTaskReconcile` settles dispatched runs beside them. The clock is the database's,
in seconds; it moves only by `wait`.
-/

namespace Nexara.Schedule

open Conc

inductive RunStatus where
  | running
  | dispatched
  | success
  | failed
  deriving DecidableEq

def taskClaimGuardSeconds : ℕ := 600

def taskClaimStaleSeconds : ℕ := 600

/-- A row of `scheduled_tasks`; its id is its place in the table. -/
structure Task where
  clusterID : ℕ
  resourceType : String := "vm"
  action : String := "reboot"
  /-- Why `params` does not parse. -/
  paramsError : Option String := none
  enabled : Bool := true
  nextRunAt : Option ℕ := none
  lastStatus : Option RunStatus := none
  lastRunAt : Option ℕ := none
  lastError : Option String := none
  lastUpid : Option String := none
  deriving DecidableEq

/-- The predicate of `ClaimDueTasks`. -/
def Task.due (t : Task) (now : ℕ) : Bool :=
  t.enabled && t.nextRunAt.all (· ≤ now) &&
    (t.lastStatus ≠ some .running || t.lastRunAt.all (· + taskClaimStaleSeconds < now))

/-- `ClaimDueTasks` on a row that is due. -/
def Task.claim (t : Task) (now : ℕ) : Task :=
  { t with
    lastStatus := some .running
    lastError := none
    lastUpid := none
    lastRunAt := some now
    nextRunAt := some (now + taskClaimGuardSeconds) }

/-- How one run left the scheduler. -/
structure RunOutcome where
  status : RunStatus
  err : String := ""
  upid : String := ""
  deriving DecidableEq

def noTaskIDError : String :=
  "Proxmox returned no task ID for this run, so how it ended cannot be followed"

/-- How a call that came back counts. -/
def dispatchOutcome : Except String String → RunOutcome
  | .error err => { status := .failed, err }
  | .ok upid =>
    if upid = "" then { status := .failed, err := noTaskIDError }
    else { status := .dispatched, upid }

/-- A text column that is null when the text is empty. -/
def text (s : String) : Option String := if s = "" then none else some s

def Task.updateTaskLastRun (t : Task) (lastRunAt nextRunAt : ℕ) (run : RunOutcome) : Task :=
  { t with
    lastRunAt := some lastRunAt
    nextRunAt := some nextRunAt
    lastStatus := some run.status
    lastError := text run.err
    lastUpid := text run.upid }

/-- `DisableScheduledTaskForBadSchedule`, with the message of `parkUnschedulableTask`. -/
def Task.park (t : Task) (now : ℕ) (cronErr : String) (run : RunOutcome) : Task :=
  { t with
    enabled := false
    lastRunAt := some now
    nextRunAt := none
    lastStatus := some run.status
    lastError :=
      some (if run.err ≠ "" then run.err ++ "; " ++ "disabled: " ++ cronErr
        else "disabled: " ++ cronErr)
    lastUpid := text run.upid }

inductive TaskEnd where
  | completed
  | failed (exitStatus : String)

/-- `ReconcileDispatchedScheduledTasks` for one row: only a dispatched run that has ended is
settled, its message before what `last_error` holds. -/
def Task.settle (t : Task) : Option TaskEnd → Task
  | none => t
  | some ended =>
    if t.lastStatus ≠ some .dispatched then t
    else match ended with
      | .completed => { t with lastStatus := some .success }
      | .failed exitStatus =>
        let message :=
          if exitStatus = "vanished" then
            "Proxmox never reported how this task ended; Nexara stopped following it after 24 hours"
          else if exitStatus = "" then "Proxmox task failed"
          else exitStatus
        { t with
          lastStatus := some .failed
          lastError := some (t.lastError.elim message fun old => message ++ "; " ++ old) }

/-- Why `executeSnapshot`, `executeReboot` or `executeTask` itself refuses a row before it calls
Proxmox. -/
def Task.refusal (t : Task) : Option String :=
  if t.action = "snapshot" then
    match t.paramsError with
    | some err => some ("unmarshal snapshot params: " ++ err)
    | none =>
      if t.resourceType = "vm" ∨ t.resourceType = "ct" then none
      else some ("unsupported resource type for snapshot: " ++ t.resourceType)
  else if t.action = "reboot" then
    if t.resourceType = "vm" ∨ t.resourceType = "ct" then none
    else some ("unsupported resource type for reboot: " ++ t.resourceType)
  else some ("unsupported action: " ++ t.action)

/-- A row as its claim returned it. -/
structure Claimed where
  id : ℕ
  row : Task
  deriving DecidableEq

/-- The claimed rows as `byCluster` groups them, in the order the map is ranged over. -/
abbrev Groups := List (ℕ × List Claimed)

def Groups.tasks (groups : Groups) : List Claimed := groups.flatMap Prod.snd

structure World where
  rows : List Task
  now : ℕ := 0

def World.claimed (w : World) : List Claimed :=
  (List.range w.rows.length).filterMap fun id =>
    (w.rows[id]?.filter (·.due w.now)).map fun t => ⟨id, t.claim w.now⟩

def World.afterClaim (w : World) : World :=
  { w with rows := w.rows.map fun t => if t.due w.now then t.claim w.now else t }

def World.update (w : World) (id : ℕ) (f : Task → Task) : World :=
  { w with rows := w.rows.modify id f }

inductive Stmt where
  | reconcileDispatchedScheduledTasks
  | claimDueTasks
  | createClient (clusterID : ℕ)
  | timeNow
  | requireNode (id : ℕ)
  | issueCall (id : ℕ)
  | nextRunTime (id started : ℕ)
  | updateTaskLastRun (id lastRunAt nextRunAt : ℕ) (run : RunOutcome)
  | disableScheduledTaskForBadSchedule (id : ℕ) (cronErr : String) (run : RunOutcome)
  | wait (seconds : ℕ)
  deriving DecidableEq

@[reducible] def Stmt.Ans : Stmt → Type
  | claimDueTasks => Option Groups
  | createClient _ | requireNode _ => Option String
  | timeNow => ℕ
  | issueCall _ => Except String String
  | nextRunTime .. => Except String ℕ
  | reconcileDispatchedScheduledTasks | updateTaskLastRun .. | disableScheduledTaskForBadSchedule ..
  | wait _ => Unit

/-- What the database and Proxmox answer where the rows do not say it. -/
@[reducible] def Stmt.Outcome : Stmt → Type
  | reconcileDispatchedScheduledTasks => ℕ → Option TaskEnd
  | timeNow => Unit
  | e => e.Ans

abbrev sig : Sig := ⟨Stmt, Stmt.Ans⟩

abbrev Code (α : Type) := Prog sig α

def call (e : Stmt) : Code e.Ans := Prog.stmt (S := sig) e

/-- Records a run; a task whose schedule does not parse is parked. -/
def finishTaskRun (id started : ℕ) (run : RunOutcome) : Code Unit := do
  match (← call (.nextRunTime id started) : Except String ℕ) with
  | .error cronErr => call (.disableScheduledTaskForBadSchedule id cronErr run)
  | .ok nextRun => call (.updateTaskLastRun id started nextRun run)

def markFailed (id : ℕ) (errMsg : String) : Code Unit := do
  let now ← call .timeNow
  finishTaskRun id now { status := .failed, err := errMsg }

def executeTask (task : Claimed) : Code Unit := do
  let now ← call .timeNow
  match (← call (.requireNode task.id) : Option String) with
  | some err => finishTaskRun task.id now (dispatchOutcome (.error err))
  | none =>
    match task.row.refusal with
    | some err => finishTaskRun task.id now (dispatchOutcome (.error err))
    | none => do
      let res ← call (.issueCall task.id)
      finishTaskRun task.id now (dispatchOutcome res)

/-- The tasks of one cluster. -/
def runCluster (group : ℕ × List Claimed) : Code Unit := do
  match (← call (.createClient group.1) : Option String) with
  | some err => Prog.each (fun t => markFailed t.id ("create client: " ++ err)) group.2
  | none => Prog.each executeTask group.2

/-- One turn of the scheduler. -/
def run : Code Unit := do
  call .reconcileDispatchedScheduledTasks
  match (← call .claimDueTasks : Option Groups) with
  | none => return
  | some groups => Prog.each runCluster groups

def exec : (e : Stmt) → e.Outcome → World → Option (e.Ans × World)
  | .reconcileDispatchedScheduledTasks, ended, w =>
    some ((), { w with rows := w.rows.mapIdx fun id t => t.settle (ended id) })
  | .claimDueTasks, none, w => some (none, w)
  | .claimDueTasks, some groups, w =>
    -- the grouping has the claimed rows, each under its own cluster
    if groups.tasks.Perm w.claimed ∧ ∀ g ∈ groups, ∀ t ∈ g.2, t.row.clusterID = g.1 then
      some (some groups, w.afterClaim)
    else none
  | .createClient _, err, w => some (err, w)
  | .timeNow, _, w => some (w.now, w)
  | .requireNode _, err, w => some (err, w)
  | .issueCall _, res, w => some (res, w)
  | .nextRunTime .., next, w => some (next, w)
  | .updateTaskLastRun id lastRunAt nextRunAt run, _, w =>
    some ((), w.update id (·.updateTaskLastRun lastRunAt nextRunAt run))
  | .disableScheduledTaskForBadSchedule id cronErr run, _, w =>
    some ((), w.update id (·.park w.now cronErr run))
  | .wait seconds, _, w => some ((), { w with now := w.now + seconds })

inductive Role where
  | run
  | reconcile
  | wait (seconds : ℕ)

def code : Role → Code Unit
  | .run => run
  | .reconcile => call .reconcileDispatchedScheduledTasks
  | .wait seconds => call (.wait seconds)

abbrev runner : System where
  sig := sig
  State := World
  Role := Role
  code := code
  Outcome := Stmt.Outcome
  exec := fun _ _ => exec

end Nexara.Schedule
