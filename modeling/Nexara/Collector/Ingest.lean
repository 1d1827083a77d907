import Nexara.Migration.Orchestrator

/-!
# Task ingest

`syncTasks` lists the tasks of every node since a watermark, records those that nothing has
recorded, and moves the watermark to the latest start it has seen; `reconcileRunningTasks` then
finishes the rows of tasks that have stopped. Tasks start on the nodes while a pass is under way.
The clock is in seconds; how an entry names its object is left out.
-/

namespace Nexara.Collector

open Conc
open Migration (TaskRow TaskState AuditRow TaskStatus taskSucceeded)

/-- A task as Proxmox lists it. -/
structure NodeTask where
  upid : String
  node : String
  type : String
  startTime : ℕ
  endTime : ℕ := 0
  status : String := ""
  deriving DecidableEq

def skipTaskTypes : List String := ["vncproxy", "vncshell", "qmmonitor", "spiceproxy", "login"]

def NodeTask.ingested (task : NodeTask) : Bool := task.type ∉ skipTaskTypes

/-- The cluster's tasks, and what is stored of them. -/
structure World where
  nodes : List String
  now : ℕ := 0
  tasks : List NodeTask := []
  watermark : Option ℕ := none
  taskHistory : List TaskRow := []
  auditLog : List AuditRow := []
  migrationUPIDs : List String := []

inductive Membership where
  | member
  | notMember
  | lookupError

/-- Statements and calls, and what the cluster does meanwhile. -/
inductive Stmt where
  | getTaskSyncState
  | timeNow
  | getNodes
  | getNodeTasks (node : String) (since : ℕ)
  | listExistingTaskHistoryUPIDs (upids : List String)
  | listExistingAuditLogUPIDs (upids : List String)
  | listCrossClusterMigrationUPIDs (upids : List String)
  | insertExternalTaskHistory (row : TaskRow)
  | insertAuditLogWithSource (row : AuditRow)
  | upsertTaskSyncState (lastSyncedAt : ℕ)
  | listRunningTaskHistoryByCluster
  | requireNode (node : String)
  | getTaskStatus (node upid : String)
  /-- Whether the row started longer than `staleTaskGrace` ago. -/
  | stale (upid : String)
  | reconcileTaskHistory (upid : String) (status : TaskState) (exitStatus : String)
  | startTask (node type upid : String)
  | endTask (upid status : String)
  | wait (seconds : ℕ)

@[reducible] def Stmt.Ans : Stmt → Type
  | getTaskSyncState => Option ℕ
  | timeNow => ℕ
  | getNodes => Option (List String)
  | getNodeTasks .. => Option (List NodeTask)
  | listExistingTaskHistoryUPIDs _ | listExistingAuditLogUPIDs _ | listCrossClusterMigrationUPIDs _ =>
    Option (List String)
  | listRunningTaskHistoryByCluster => Option (List TaskRow)
  | requireNode _ => Membership
  | getTaskStatus .. => Except String TaskStatus
  | insertExternalTaskHistory _ | insertAuditLogWithSource _ | upsertTaskSyncState _ | stale _
  | reconcileTaskHistory .. => Bool
  | startTask .. | endTask .. | wait _ => Unit

/-- Whether a call succeeds, and what Proxmox says of a task. -/
@[reducible] def Stmt.Outcome : Stmt → Type
  | getTaskSyncState | getNodes | getNodeTasks .. | listExistingTaskHistoryUPIDs _
  | listExistingAuditLogUPIDs _ | listCrossClusterMigrationUPIDs _
  | listRunningTaskHistoryByCluster => Bool
  | timeNow => Unit
  | e => e.Ans

abbrev sig : Sig := ⟨Stmt, Stmt.Ans⟩

abbrev Code (α : Type) := Prog sig α

def call (e : Stmt) : Code e.Ans := Prog.stmt (S := sig) e

/-! ## `syncTasks` -/

def classifyTaskExit (exitStatus : String) : TaskState :=
  if taskSucceeded exitStatus then .completed else .failed

/-- The row `ingestTask` inserts: a task that has ended is stored with its status as it is. -/
def NodeTask.row (task : NodeTask) : TaskRow where
  upid := task.upid
  node := task.node
  taskType := task.type
  status := if 0 < task.endTime then classifyTaskExit task.status else .running
  exitStatus := if 0 < task.endTime then task.status else ""

def NodeTask.auditRow (task : NodeTask) : AuditRow where
  action := task.type
  upid := some task.upid
  status := some task.status

/-- The UPIDs of the candidates that `ingestTask` must skip, or `none` when a lookup fails. -/
def seenTaskUPIDs (upids : List String) : Code (Option (List String)) := do
  if upids = [] then return some []
  match (← call (.listExistingTaskHistoryUPIDs upids) : Option (List String)) with
  | none => return none
  | some thUPIDs =>
    match (← call (.listExistingAuditLogUPIDs upids) : Option (List String)) with
    | none => return none
    | some alUPIDs =>
      match (← call (.listCrossClusterMigrationUPIDs upids) : Option (List String)) with
      | none => return none
      | some mjUPIDs => return some (thUPIDs ++ alUPIDs ++ mjUPIDs)

/-- Records a task; a failure is logged and nothing more. -/
def ingestTask (seen : List String) (task : NodeTask) : Code Unit := do
  if !task.ingested then return
  if task.upid ∈ seen then return
  if (← call (.insertExternalTaskHistory task.row) : Bool) then
    let _ ← call (.insertAuditLogWithSource task.auditRow)
  return

/-- What the loop over the nodes carries along. -/
structure Progress where
  maxStartTime : ℕ := 0
  dedupFailed : Bool := false
  fetchFailed : Bool := false

/-- The latest start so far. -/
def latestStart (m : ℕ) (tasks : List NodeTask) : ℕ :=
  tasks.foldl (fun m task => max m task.startTime) m

def listNode (since : ℕ) (p : Progress) (node : String) : Code Progress := do
  match (← call (.getNodeTasks node since) : Option (List NodeTask)) with
  | none => return { p with fetchFailed := true }
  | some tasks =>
    match ← seenTaskUPIDs ((tasks.filter (·.ingested)).map (·.upid)) with
    | none => return { p with dedupFailed := true }
    | some seen =>
      Prog.each (ingestTask seen) tasks
      return { p with maxStartTime := latestStart p.maxStartTime tasks }

def listNodes (since : ℕ) : List String → Progress → Code Progress
  | [], p => return p
  | node :: nodes, p => do
    let p ← listNode since p node
    listNodes since nodes p

/-- `syncTasks` from the watermark on. -/
def syncSince (since : ℕ) : Code Unit := do
  match (← call .getNodes : Option (List String)) with
  | none => return
  | some nodes =>
    let p ← listNodes since nodes {}
    if !p.dedupFailed && !p.fetchFailed && since < p.maxStartTime then
      let _ ← call (.upsertTaskSyncState p.maxStartTime)
    return

def syncTasks : Code Unit := do
  match (← call .getTaskSyncState : Option ℕ) with
  | some since => syncSince since
  | none =>
    let now ← call .timeNow
    syncSince (now - 24 * 60 * 60)

/-! ## `reconcileRunningTasks` -/

def vanishedExitStatus : String := "vanished"

def finalizeTask (upid : String) (status : TaskState) (exitStatus : String) : Code Unit := do
  let _ ← call (.reconcileTaskHistory upid status exitStatus)
  return

/-- A row that can no longer be followed is failed in the end. -/
def abandonStale (upid : String) : Code Unit := do
  if (← call (.stale upid) : Bool) then finalizeTask upid .failed vanishedExitStatus

/-- One row that is still running. -/
def reconcileRow (row : TaskRow) : Code Unit := do
  match (← call (.requireNode row.node) : Membership) with
  | .lookupError => return
  | .notMember => abandonStale row.upid
  | .member =>
    match (← call (.getTaskStatus row.node row.upid) : Except String TaskStatus) with
    | .error _ => abandonStale row.upid
    | .ok st =>
      if st.status ≠ "stopped" then return
      finalizeTask row.upid (classifyTaskExit st.exitStatus) st.exitStatus

def reconcileRunningTasks : Code Unit := do
  match (← call .listRunningTaskHistoryByCluster : Option (List TaskRow)) with
  | none => return
  | some rows => Prog.each reconcileRow rows

def pass : Code Unit := do
  syncTasks
  reconcileRunningTasks

/-! ## Execution of statements -/

/-- The tasks of a node since a time, the newest first, as many as the limit allows. -/
def World.listed (w : World) (node : String) (since : ℕ) : List NodeTask :=
  ((w.tasks.filter fun t => t.node = node && since ≤ t.startTime).reverse).take 500

def World.recorded (w : World) (upid : String) : Bool := w.taskHistory.any (·.upid = upid)

/-- `ON CONFLICT DO NOTHING`. -/
def World.insertTask (w : World) (row : TaskRow) : World :=
  if w.recorded row.upid then w else { w with taskHistory := row :: w.taskHistory }

def exec : (e : Stmt) → e.Outcome → World → Option (e.Ans × World)
  | .getTaskSyncState, ok, w => some (if ok then w.watermark else none, w)
  | .timeNow, _, w => some (w.now, w)
  | .getNodes, ok, w => some (if ok then some w.nodes else none, w)
  | .getNodeTasks node since, ok, w => some (if ok then some (w.listed node since) else none, w)
  | .listExistingTaskHistoryUPIDs upids, ok, w =>
    some (if ok then some (upids.filter w.recorded) else none, w)
  | .listExistingAuditLogUPIDs upids, ok, w =>
    some (if ok then some (upids.filter fun u => w.auditLog.any (·.upid = some u)) else none, w)
  | .listCrossClusterMigrationUPIDs upids, ok, w =>
    some (if ok then some (upids.filter fun u => u ≠ "" ∧ u ∈ w.migrationUPIDs) else none, w)
  | .insertExternalTaskHistory row, ok, w =>
    some (ok, if ok then w.insertTask row else w)
  | .insertAuditLogWithSource row, ok, w =>
    some (ok, if ok then { w with auditLog := row :: w.auditLog } else w)
  | .upsertTaskSyncState m, ok, w => some (ok, if ok then { w with watermark := some m } else w)
  | .listRunningTaskHistoryByCluster, ok, w =>
    some (if ok then some (w.taskHistory.filter fun t =>
      t.status = .running ∧ ¬(t.upid ≠ "" ∧ t.upid ∈ w.migrationUPIDs)) else none, w)
  | .requireNode _, found, w => some (found, w)
  | .getTaskStatus .., res, w => some (res, w)
  | .stale _, old, w => some (old, w)
  | .reconcileTaskHistory upid status exitStatus, ok, w =>
    some (ok, if ok then
      { w with taskHistory := w.taskHistory.map (TaskRow.reconcile upid status exitStatus) } else w)
  | .startTask node type upid, _, w =>
    if node ∈ w.nodes then
      some ((), { w with tasks := w.tasks ++ [{ upid, node, type, startTime := w.now }] })
    else none
  | .endTask upid status, _, w =>
    some ((), { w with tasks := w.tasks.map fun t =>
      if t.upid = upid ∧ t.endTime = 0 then { t with endTime := w.now, status } else t })
  | .wait seconds, _, w => some ((), { w with now := w.now + seconds })

inductive Role where
  | pass
  | startTask (node type upid : String)
  | endTask (upid status : String)
  | wait (seconds : ℕ)

def code : Role → Code Unit
  | .pass => pass
  | .startTask node type upid => call (.startTask node type upid)
  | .endTask upid status => call (.endTask upid status)
  | .wait seconds => call (.wait seconds)

abbrev collector : System where
  sig := sig
  State := World
  Role := Role
  code := code
  Outcome := Stmt.Outcome
  exec := fun _ _ => exec

end Nexara.Collector
