import Mathlib.Data.List.Sort
import Nexara.Rolling.Statements

/-!
# Requests that create and move rolling updates

The table of rolling updates of all clusters, and the requests of `rolling_update.go` that insert
into it (`createJob`) or move a job's status (`startJob`, `cancelJob`, `pauseJob`, `resumeJob`). The
orchestrator's own updates of a job's row are a role of their own: any of them, on any job, at any
time.
-/

namespace Nexara.Jobs

open Conc
open Nexara.Rolling (JobRow JobUpdate NodeRow Err rowOf)

structure Job where
  id : ℕ
  clusterID : ℕ
  row : JobRow

structure Node where
  jobID : ℕ
  row : NodeRow

structure Table where
  now : ℕ := 0
  jobs : List Job := []
  /-- In `node_order`. -/
  nodes : List Node := []
  nextID : ℕ := 0

def Job.activeIn (cluster : ℕ) (j : Job) : Bool := j.clusterID = cluster && j.row.status.active

namespace Table

def active (t : Table) (cluster : ℕ) : List Job := t.jobs.filter (Job.activeIn cluster)

/-- What an update of a job can read: its own row and those of its nodes. -/
def world (t : Table) (j : Job) : Rolling.World :=
  { now := t.now, job := j.row, nodes := (t.nodes.filter (·.jobID = j.id)).map Node.row }

def updated (t : Table) (u : JobUpdate) (id : ℕ) (j : Job) : Job :=
  if j.id = id ∧ u.guard (t.world j) then { j with row := u.set t.now j.row } else j

def updateJob (t : Table) (u : JobUpdate) (id : ℕ) : Table :=
  { t with jobs := t.jobs.map (t.updated u id) }

def newJob (t : Table) (cluster : ℕ) (row : JobRow) : Job := ⟨t.nextID, cluster, row⟩

def insertJob (t : Table) (cluster : ℕ) (row : JobRow) : Table :=
  { t with jobs := t.jobs ++ [t.newJob cluster row], nextID := t.nextID + 1 }

def insertNode (t : Table) (job : ℕ) (name : String) : Table :=
  { t with
    nodes := t.nodes ++ [⟨job, { id := t.nextID, nodeName := name, updatedAt := t.now }⟩]
    nextID := t.nextID + 1 }

end Table

/-! ## Statements -/

inductive Db where
  | hasRunningJobForCluster (cluster : ℕ)
  | listCleanupPendingJobsForCluster (cluster : ℕ)
  | insertRollingUpdateJob (cluster : ℕ) (row : JobRow)
  | insertRollingUpdateNode (job : ℕ) (name : String)
  | getRollingUpdateJob (id : ℕ)
  | updateJob (u : JobUpdate) (id : ℕ)

/-- What a statement that succeeds answers; an update answers how many rows it changed. -/
@[reducible] def Db.Row : Db → Type
  | hasRunningJobForCluster _ => Bool
  | listCleanupPendingJobsForCluster _ => List Job
  | insertRollingUpdateJob _ _ => Job
  | insertRollingUpdateNode _ _ => Unit
  | getRollingUpdateJob _ => Job
  | updateJob _ _ => ℕ

def Db.run (t : Table) : (d : Db) → Except Err d.Row × Table
  | .hasRunningJobForCluster cluster => (.ok (t.jobs.any (Job.activeIn cluster)), t)
  | .listCleanupPendingJobsForCluster cluster =>
      (.ok ((t.jobs.filter fun j => j.clusterID = cluster && j.row.cleanupPending &&
        j.row.status.terminal).insertionSort fun j k => j.row.updatedAt ≤ k.row.updatedAt), t)
  | .insertRollingUpdateJob cluster row =>
      (.ok (t.newJob cluster { row with updatedAt := t.now }),
        t.insertJob cluster { row with updatedAt := t.now })
  | .insertRollingUpdateNode job name => (.ok (), t.insertNode job name)
  | .getRollingUpdateJob id => (rowOf (t.jobs.find? (·.id = id)), t)
  | .updateJob u id =>
      (.ok (t.jobs.countP fun j => j.id = id && u.guard (t.world j)), t.updateJob u id)

structure Capacity where
  hasErrors : Bool
  err : Option Err

inductive Ext where
  | releaseJobState (id : ℕ)
  | createProxmoxClient (cluster : ℕ)
  /-- Answers whether the report has errors. -/
  | analyzeHAConstraints (cluster : ℕ) (nodes : List String)
  | analyzeCapacity (nodes : List String) (parallelism : ℕ)
  | hasClusterSSHCredentials (cluster : ℕ)
  | getNodeAptUpdates (node : String)

@[reducible] def Ext.Ans : Ext → Type
  | releaseJobState _ => Bool
  | createProxmoxClient _ => Except Err Unit
  | analyzeHAConstraints _ _ => Except Err Bool
  | analyzeCapacity _ _ => Capacity
  | hasClusterSSHCredentials _ => Except Err Bool
  | getNodeAptUpdates _ => Except Err (List String)

inductive Stmt where
  | db (d : Db)
  | ext (q : Ext)
  | respond (status : ℕ) (message : String)
  | wait (seconds : ℕ)

@[reducible] def Stmt.Ans : Stmt → Type
  | db d => Except Err d.Row
  | ext q => q.Ans
  | respond _ _ | wait _ => Unit

/-- The error of a statement that fails, and the answer of a call whose answer is free. -/
@[reducible] def Stmt.Outcome : Stmt → Type
  | db _ => Option Err
  | e => e.Ans

abbrev sig : Sig := ⟨Stmt, Stmt.Ans⟩

abbrev Code (α : Type) := Prog sig α

def db (d : Db) : Code (Except Err d.Row) := Prog.stmt (S := sig) (.db d)

def ext (q : Ext) : Code q.Ans := Prog.stmt (S := sig) (.ext q)

def respond (status : ℕ) (message : String) : Code Unit :=
  Prog.stmt (S := sig) (.respond status message)

def exec : (e : Stmt) → e.Outcome → Table → Option (e.Ans × Table)
  | .db _, some e, t => some (.error e, t)
  | .db d, none, t => some (d.run t)
  | .ext _, a, t => some (a, t)
  | .respond _ _, _, t => some ((), t)
  | .wait seconds, _, t => some ((), { t with now := t.now + seconds })

/-! ## `CreateJob` -/

inductive HaPolicy where
  | warn | strict
  deriving DecidableEq

structure CreateJobParams where
  clusterID : ℕ
  nodes : List String
  parallelism : ℕ := 1
  rebootAfterUpdate : Bool := true
  autoRestoreGuests : Bool := true
  drainGuests : Bool := true
  packageExcludes : List String := []
  /-- `none` is the empty string. -/
  haPolicy : Option HaPolicy := none
  autoUpgrade : Bool := false

/-- Release what finished jobs still hold, up to the first that cannot be released. -/
def releasePending : List Job → Code Bool
  | [] => return true
  | pj :: pendingJobs => do
    if ← ext (.releaseJobState pj.id) then releasePending pendingJobs else return false

/-- Whether the checks before a drain found errors; a check that failed counts as one. -/
def foldPreflight (report : Except Err Bool) (cap : Capacity) : Bool :=
  let haErrors := match report with
    | .error _ => true
    | .ok hasErrors => hasErrors
  (haErrors || cap.err.isSome) || cap.hasErrors

/-- The pre-flight checks; `false` when they refuse the job. -/
def preflight (p : CreateJobParams) (parallelism : ℕ) (client : Bool) : Code Bool := do
  if client && p.drainGuests then do
    let report ← ext (.analyzeHAConstraints p.clusterID p.nodes)
    let cap ← ext (.analyzeCapacity p.nodes parallelism)
    return !(p.haPolicy.getD .warn = .strict && foldPreflight report cap)
  else return true

/-- An automatic upgrade needs SSH credentials; `false` when they are missing. -/
def checkCredentials (p : CreateJobParams) : Code Bool := do
  if p.autoUpgrade then
    match (← ext (.hasClusterSSHCredentials p.clusterID) : Except Err Bool) with
    | .ok hasCreds => return hasCreds
    | .error _ => return false
  else return true

/-- Insert the job's nodes; `false` at the first that fails. -/
def insertNodes (job : ℕ) (client : Bool) : List String → Code Bool
  | [] => return true
  | nodeName :: nodes => do
    let _ ← (if client then ext (.getNodeAptUpdates nodeName) else pure (.ok []))
    match (← db (.insertRollingUpdateNode job nodeName) : Except Err Unit) with
    | .error _ => return false
    | .ok _ => insertNodes job client nodes

def CreateJobParams.row (p : CreateJobParams) (parallelism : ℕ) : JobRow :=
  { parallelism := parallelism
    rebootAfterUpdate := p.rebootAfterUpdate
    autoRestoreGuests := p.autoRestoreGuests
    packageExcludes := p.packageExcludes
    autoUpgrade := p.autoUpgrade
    drainGuests := p.drainGuests }

def createProxmoxClient (cluster : ℕ) : Code Bool := do
  match (← ext (.createProxmoxClient cluster) : Except Err Unit) with
  | .ok _ => return true
  | .error _ => return false

/-- `CreateJob` from the insert on. -/
def insertJob (p : CreateJobParams) (parallelism : ℕ) (client : Bool) : Code Unit := do
  match (← db (.insertRollingUpdateJob p.clusterID (p.row parallelism)) : Except Err Job) with
  | .error _ => respond 500 "Failed to create rolling update job"
  | .ok job => do
    let client ← (if client then pure true else createProxmoxClient p.clusterID)
    if ← insertNodes job.id client p.nodes then respond 201 "created"
    else respond 500 "Failed to create rolling update node"

/-- `CreateJob` between the checks of other jobs and the insert. -/
def checkJob (p : CreateJobParams) (parallelism : ℕ) : Code Unit := do
  let client ← createProxmoxClient p.clusterID
  if ← preflight p parallelism client then
    if ← checkCredentials p then insertJob p parallelism client
    else
      respond 400 "Auto upgrade requires SSH credentials to be configured for this cluster"
  else respond 409 "Pre-flight checks failed and policy is strict"

/-- What a request is told when a finished job's state cannot be released. -/
def stillHeld : String :=
  "A previous rolling update still holds cluster state (paused CRS auto-rebalance, disabled HA " ++
  "rules, or stopped guests) and it could not be released. Cleanup keeps retrying in the " ++
  "background, so a cluster that was briefly unreachable clears on its own. If it never clears, " ++
  "an HA rule is likely refusing to re-enable because another rule now conflicts with it — " ++
  "repair or delete that rule in Proxmox, or delete the stuck rule itself, and try again."

def createJob (p : CreateJobParams) : Code Unit := do
  let parallelism := min p.parallelism p.nodes.length
  match (← db (.hasRunningJobForCluster p.clusterID) : Except Err Bool) with
  | .error _ => respond 500 "Failed to check for running jobs"
  | .ok true => respond 409 "A rolling update job is already active for this cluster"
  | .ok false => do
    match (← db (.listCleanupPendingJobsForCluster p.clusterID) : Except Err (List Job)) with
    | .error _ => respond 500 "Failed to check for pending cleanup"
    | .ok pendingJobs => do
      if ← releasePending pendingJobs then checkJob p parallelism
      else respond 409 stillHeld

/-! ## Requests about a job -/

/-- The job of that id, if it belongs to the cluster of the request. -/
def jobInCluster (jobID clusterID : ℕ) (k : Job → Code Unit) : Code Unit := do
  match (← db (.getRollingUpdateJob jobID) : Except Err Job) with
  | .error _ => respond 404 "Rolling update job not found"
  | .ok job =>
    if job.clusterID ≠ clusterID then respond 404 "Rolling update job not found" else k job

def updateJob (u : JobUpdate) (id : ℕ) : Code (Except Err ℕ) := db (.updateJob u id)

def startJob (clusterID jobID : ℕ) : Code Unit := jobInCluster jobID clusterID fun job => do
  if job.row.status ≠ .pending then respond 400 "Job is not in pending status"
  else
    match ← updateJob .startRollingUpdateJob jobID with
    | .error _ => respond 500 "Failed to start job"
    | .ok _ => respond 200 "running"

def cancelJob (clusterID jobID : ℕ) : Code Unit := jobInCluster jobID clusterID fun _ => do
  match ← updateJob .cancelRollingUpdateJob jobID with
  | .error _ => respond 500 "Failed to cancel job"
  | .ok 0 => respond 400 "Job is not active (already finished or cancelled)"
  | .ok (_ + 1) => respond 200 "cancelled"

def pauseJob (clusterID jobID : ℕ) : Code Unit := jobInCluster jobID clusterID fun _ => do
  match ← updateJob .pauseRollingUpdateJob jobID with
  | .error _ => respond 500 "Failed to pause job"
  | .ok _ => respond 200 "paused"

def resumeJob (clusterID jobID : ℕ) : Code Unit := jobInCluster jobID clusterID fun _ => do
  match ← updateJob .resumeRollingUpdateJob jobID with
  | .error _ => respond 500 "Failed to resume job"
  | .ok _ => respond 200 "running"

/-! ## The system -/

inductive Role where
  | createJob (p : CreateJobParams)
  | startJob (clusterID jobID : ℕ)
  | cancelJob (clusterID jobID : ℕ)
  | pauseJob (clusterID jobID : ℕ)
  | resumeJob (clusterID jobID : ℕ)
  | orchestrator (u : JobUpdate) (jobID : ℕ)
  | wait (seconds : ℕ)

def code : Role → Code Unit
  | .createJob p => createJob p
  | .startJob clusterID jobID => startJob clusterID jobID
  | .cancelJob clusterID jobID => cancelJob clusterID jobID
  | .pauseJob clusterID jobID => pauseJob clusterID jobID
  | .resumeJob clusterID jobID => resumeJob clusterID jobID
  | .orchestrator u jobID => do let _ ← updateJob u jobID
  | .wait seconds => Prog.stmt (S := sig) (.wait seconds)

/-- The requests and the orchestrator over one table. -/
abbrev requests : System where
  sig := sig
  State := Table
  Role := Role
  code := code
  Outcome := Stmt.Outcome
  exec := fun _ _ => exec

end Nexara.Jobs
