import Nexara.Conc.Protocol
import Nexara.Go.Strings

/-!
# The migration orchestrator

One migration job: the requests that check, execute and cancel it, and the execution, which calls
Proxmox and then watches the task until it can record how it ended. A goroutine is followed for a
number of polls its role gives; one that polls longer is a run of a party with more.

A request handler and the execution it launches are one party. The execution runs under the server's
shutdown context. A write under a cancelled context does nothing; any write may also fail.
-/

namespace Nexara.Migration

open Conc

/-! ## Rows -/

inductive Status where
  | pending
  | checking
  | migrating
  | completed
  | failed
  | cancelled
  deriving DecidableEq

inductive MigrationType where
  | intraCluster
  | crossCluster
  | unknown (name : String)
  deriving DecidableEq

inductive Mode where
  | live
  | storage
  | both

inductive VMType where
  | qemu
  | lxc
  | unknown (name : String)

/-- The row of `migration_jobs`. -/
structure Job where
  status : Status := .pending
  migrationType : MigrationType
  migrationMode : Mode := .live
  vmType : VMType := .qemu
  sourceNode : String := "pve1"
  targetNode : String := "pve2"
  /-- By disk key; when empty, every disk goes to `targetStorage`. -/
  storageMap : List (String × String) := []
  targetStorage : String := ""
  upid : String := ""
  errorMessage : String := ""

inductive TaskState where
  | running
  | completed
  | failed
  deriving DecidableEq

structure TaskRow where
  upid : String
  node : String
  taskType : String
  status : TaskState
  exitStatus : String := ""
  deriving DecidableEq

/-- A row of `audit_log`, with what its details say of the task, of its status and of a failure. -/
structure AuditRow where
  action : String
  upid : Option String := none
  status : Option String := none
  error : Option String := none
  deriving DecidableEq

structure World where
  job : Job
  taskHistory : List TaskRow := []
  auditLog : List AuditRow := []
  /-- The shutdown context is cancelled. -/
  cancelled : Bool := false

/-- `ReconcileTaskHistory`: only a row still running is marked. -/
def TaskRow.reconcile (upid : String) (status : TaskState) (exitStatus : String) (t : TaskRow) :
    TaskRow :=
  if t.upid = upid ∧ t.status = .running then { t with status, exitStatus } else t

theorem TaskRow.reconcile_upid (t : TaskRow) (upid : String) (status : TaskState) (exit : String) :
    (t.reconcile upid status exit).upid = t.upid := by
  unfold TaskRow.reconcile
  split_ifs <;> rfl

inductive Ctx where
  /-- A request's own. -/
  | request
  /-- The shutdown context. -/
  | execute
  /-- One of `context.Background()`. -/
  | fresh
  deriving DecidableEq

/-! ## Disks -/

structure MovableDisk where
  key : String
  storage : String

structure DiskMove where
  disk : String
  target : String
  source : String
  deriving DecidableEq

/-- `resolveDiskTargets`. A disk that a non-empty map does not name stays in place. -/
def resolveDiskTargets (disks : List MovableDisk) (storageMap : List (String × String))
    (fallback : String) : List DiskMove :=
  disks.filterMap fun d =>
    let target := if storageMap ≠ [] then (storageMap.lookup d.key).getD "" else fallback
    if target = "" ∨ target = d.storage then none
    else some { disk := d.key, target, source := d.storage }

/-! ## Statements -/

structure TaskStatus where
  status : String
  exitStatus : String := ""

inductive Stmt where
  | getMigrationJob
  | reserveSlot
  | updateMigrationJobStatus (status : Status)
  | updateMigrationJobChecks (status : Status)
  | cancelMigrationJob
  | setMigrationJobStarted (upid : String)
  | updateMigrationJobProgress (upid : String)
  | completeMigrationJob (ctx : Ctx) (status : Status) (errorMessage : String)
  | insertTaskHistory (row : TaskRow)
  | reconcileTaskHistory (ctx : Ctx) (upid : String) (status : TaskState) (exitStatus : String)
  | insertAuditLog (ctx : Ctx) (row : AuditRow)
  | requireJobNodes
  | clientForCluster (target : Bool)
  | runPreFlightChecks
  /-- The target cluster's `APIToken`: its token id, an equals sign and the decrypted secret. -/
  | targetToken
  | discoverDisks (node : String)
  /-- The calls that start Proxmox tasks. -/
  | migrate
  | remoteMigrate (apiToken : String)
  /-- The `step`-th call of the job; calls before it were disk moves or the live phase. -/
  | moveDisk (node : String) (move : DiskMove) (step : ℕ)
  /-- Whether the shutdown context's `Done` was taken rather than the ticker. -/
  | select
  | getTaskStatus (node upid : String)
  | timeNow
  /-- Whether `ctx.Err()` is set. -/
  | ctxErr
  | returned (upid : String)
  | shutdown
  deriving DecidableEq

@[reducible] def Stmt.Ans : Stmt → Type
  | getMigrationJob => Option Job
  | requireJobNodes | clientForCluster _ => Option String
  | runPreFlightChecks => Except String Bool
  | targetToken | migrate | remoteMigrate _ | moveDisk .. => Except String String
  | discoverDisks _ => Except String (List MovableDisk)
  | getTaskStatus .. => Except String TaskStatus
  | timeNow => ℕ
  | reserveSlot | updateMigrationJobStatus _ | updateMigrationJobChecks _ | cancelMigrationJob
  | setMigrationJobStarted _ | updateMigrationJobProgress _ | completeMigrationJob ..
  | insertTaskHistory _ | reconcileTaskHistory .. | insertAuditLog .. | select | ctxErr => Bool
  | returned _ | shutdown => Unit

/-- Whether a read or a write goes through, and what Proxmox and the clock answer. -/
@[reducible] def Stmt.Outcome : Stmt → Type
  | getMigrationJob => Bool
  | ctxErr => Unit
  | e => e.Ans

abbrev sig : Sig := ⟨Stmt, Stmt.Ans⟩

abbrev Code (α : Type) := Prog sig α

def call (e : Stmt) : Code e.Ans := Prog.stmt (S := sig) e

/-! ## The credential -/

def redactedTokenSecret : String := "REDACTED"

def endpointTokenSecret (apiToken : String) : String :=
  match Go.cut apiToken '=' with
  | some (_, secret) => secret
  | none => apiToken

def scrubSecret (s secret : String) : String :=
  if secret = "" then s else Go.replaceAll s secret redactedTokenSecret

/-- The job, who runs it, and the secret its texts are scrubbed of. -/
structure MigrationContext where
  job : Job
  userID : Option ℕ
  secret : Option String := none

def MigrationContext.scrub (mc : MigrationContext) (s : String) : String :=
  match mc.secret with
  | none => s
  | some secret => scrubSecret s secret

def MigrationContext.armEndpointScrubber (mc : MigrationContext) (apiToken : String) :
    MigrationContext :=
  if endpointTokenSecret apiToken = "" then mc
  else { mc with secret := some (endpointTokenSecret apiToken) }

/-! ## How an execution is recorded -/

def taskSucceeded (exitStatus : String) : Bool :=
  let upper := Go.toUpper (Go.trimSpace exitStatus)
  upper = "" || upper = "OK" || "OK ".toList.isPrefixOf upper.toList ||
    "WARNINGS".toList.isPrefixOf upper.toList

def cleanupCtxFor : Code Ctx := do
  if (← call .ctxErr : Bool) then return .fresh else return .execute

def auditLog (ctx : Ctx) (mc : MigrationContext) (row : AuditRow) : Code Unit := do
  match mc.userID with
  | none => return
  | some _ =>
    let _ ← call (.insertAuditLog ctx row)
    return

def failJob (errMsg : String) (mc : Option MigrationContext) : Code Unit := do
  let errMsg := mc.elim errMsg (·.scrub errMsg)
  let ctx ← cleanupCtxFor
  let _ ← call (.completeMigrationJob ctx .failed errMsg)
  match mc with
  | none => return
  | some mc =>
    let lead := if mc.job.migrationType = .crossCluster then "cross_cluster_migrate" else "migrate"
    auditLog ctx mc { action := lead ++ "_failed", error := some errMsg }

def abandonTaskRow (upid exitStatus : String) : Code Unit := do
  let ctx ← cleanupCtxFor
  let _ ← call (.reconcileTaskHistory ctx upid .failed exitStatus)
  return

def pollStaleGrace : ℕ := 24 * 60 * 60

/-- What `pollTaskStatus` records of a task that has stopped. -/
def finishPoll (upid : String) (mc : MigrationContext) (exitStatus : String) : Code Unit := do
  let status := if taskSucceeded exitStatus then TaskState.completed else .failed
  let _ ← call (.reconcileTaskHistory .execute upid status (mc.scrub exitStatus))
  if taskSucceeded exitStatus then
    let _ ← call (.completeMigrationJob .execute .completed "")
    call (.returned upid)
  else
    let _ ← call (.completeMigrationJob .execute .failed
      (mc.scrub ("Task exit status: " ++ exitStatus)))
    call (.returned upid)

/-- `pollTaskStatus`, for a number of polls. -/
def pollTaskStatus (node upid : String) (mc : MigrationContext) : ℕ → Option ℕ → Code Unit
  | 0, _ => return
  | polls + 1, unreachableSince => do
    if (← call .select : Bool) then
      abandonTaskRow upid "interrupted"
      failJob "context cancelled" (some mc)
      call (.returned upid)
    else
      match (← call (.getTaskStatus node upid) : Except String TaskStatus) with
      | .error _ =>
        let now ← call .timeNow
        match unreachableSince with
        | none => pollTaskStatus node upid mc polls (some now)
        | some since =>
          if since + pollStaleGrace < now then
            abandonTaskRow upid "vanished"
            failJob "task status unavailable past the stale grace" (some mc)
            call (.returned upid)
          else pollTaskStatus node upid mc polls (some since)
      | .ok status =>
        if status.status = "running" then
          let _ ← call (.updateMigrationJobProgress upid)
          pollTaskStatus node upid mc polls none
        else finishPoll upid mc status.exitStatus

/-- `waitForTask`, for a number of polls; `none` while it is still waiting. -/
def waitForTask (node upid : String) : ℕ → Code (Option (Except String Unit))
  | 0 => return none
  | polls + 1 => do
    if (← call .select : Bool) then return some (.error "context cancelled")
    match (← call (.getTaskStatus node upid) : Except String TaskStatus) with
    | .error _ => waitForTask node upid polls
    | .ok status =>
      if status.status = "running" then waitForTask node upid polls
      else if taskSucceeded status.exitStatus then return some (.ok ())
      else return some (.error ("task exit status: " ++ status.exitStatus))

/-! ## Executions -/

def startAndPollMigration (mc : MigrationContext) (upid : String) (polls : ℕ) : Code Unit := do
  let _ ← call (.setMigrationJobStarted upid)
  auditLog .execute mc { action := "migrate_running", upid := some upid }
  let _ ← call (.insertTaskHistory
    { upid, node := mc.job.sourceNode, taskType := "migrate", status := .running })
  pollTaskStatus mc.job.sourceNode upid mc polls none

def VMType.name : VMType → String
  | .qemu => "qemu"
  | .lxc => "lxc"
  | .unknown name => name

def executeIntraCluster (job : Job) : Code (Except String String) := do
  match job.vmType with
  | .qemu | .lxc => call .migrate
  | .unknown name => return .error ("unsupported VM type: " ++ name)

/-- The dispatch of a cross-cluster job, and the context it arms. -/
def executeCrossCluster (job : Job) (mc : MigrationContext) :
    Code (Except String String × MigrationContext) := do
  match (← call (.clientForCluster true) : Option String) with
  | some err => return (.error ("target cluster client: " ++ err), mc)
  | none =>
    match (← call .targetToken : Except String String) with
    | .error err => return (.error ("decrypt target credentials: " ++ err), mc)
    | .ok apiToken =>
      let mc := mc.armEndpointScrubber apiToken
      match job.vmType with
      | .unknown name => return (.error ("unsupported VM type: " ++ name), mc)
      | .qemu | .lxc =>
        match (← call (.remoteMigrate apiToken) : Except String String) with
        | .error err => return (.error (scrubSecret err (endpointTokenSecret apiToken)), mc)
        | .ok upid => return (.ok upid, mc)

/-- One disk move of a job, and the wait for it; whether the next may follow. -/
def moveDisk (mc : MigrationContext) (node where_ : String) (polls : ℕ) (step : ℕ) (first : Bool)
    (move : DiskMove) : Code Bool := do
  match (← call (.moveDisk node move step) : Except String String) with
  | .error err => do
    failJob ("failed to move disk " ++ move.disk ++ where_ ++ ": " ++ err) (some mc)
    return false
  | .ok upid =>
    auditLog .execute mc { action := "disk_move_running", upid := some upid }
    let _ ← call (.insertTaskHistory { upid, node, taskType := "move_disk", status := .running })
    let _ ← call (.updateMigrationJobProgress upid)
    if first then
      let _ ← call (.setMigrationJobStarted upid)
    match ← waitForTask node upid polls with
    | none => return false
    | some (.error err) => do
      failJob ("disk " ++ move.disk ++ " move failed" ++ where_ ++ ": " ++ err) (some mc)
      return false
    | some (.ok _) => return true

/-- The moves of a storage-only job from `step` on. -/
def storageMoves (mc : MigrationContext) (polls : ℕ) : ℕ → List DiskMove → Code Unit
  | _, [] => do
    let _ ← call (.completeMigrationJob .execute .completed "")
    return
  | step, move :: moves => do
    if ← moveDisk mc mc.job.sourceNode "" polls step (step = 0) move then
      storageMoves mc polls (step + 1) moves

def executeStorageMigration (mc : MigrationContext) (polls : ℕ) : Code Unit := do
  match (← call (.discoverDisks mc.job.sourceNode) : Except String (List MovableDisk)) with
  | .error err => failJob ("failed to discover disks: " ++ err) (some mc)
  | .ok disks =>
    if disks = [] then failJob "no movable disks found on VM" (some mc)
    else
      let moves := resolveDiskTargets disks mc.job.storageMap mc.job.targetStorage
      if moves = [] then
        failJob "no disks to move — every selected disk is already on its target storage" (some mc)
      else
        match mc.job.vmType with
        | .unknown name => failJob ("unsupported VM type: " ++ name) (some mc)
        | .qemu | .lxc => storageMoves mc polls 0 moves

def targetMoves (mc : MigrationContext) (polls : ℕ) : ℕ → List DiskMove → Code Unit
  | _, [] => do
    let _ ← call (.completeMigrationJob .execute .completed "")
    return
  | step, move :: moves => do
    if ← moveDisk mc mc.job.targetNode " on target node" polls (step + 1) false move then
      targetMoves mc polls (step + 1) moves

def storagePhase (mc : MigrationContext) (upid : String) (polls : ℕ) : Code Unit := do
  let _ ← call (.reconcileTaskHistory .execute upid .completed "OK")
  let _ ← call (.updateMigrationJobProgress upid)
  match (← call (.discoverDisks mc.job.targetNode) : Except String (List MovableDisk)) with
  | .error err => failJob ("failed to discover disks on target node: " ++ err) (some mc)
  | .ok disks =>
    targetMoves mc polls 0 (resolveDiskTargets disks mc.job.storageMap mc.job.targetStorage)

def executeBothMigration (mc : MigrationContext) (polls : ℕ) : Code Unit := do
  match ← executeIntraCluster mc.job with
  | .error err => failJob ("live migration phase failed: " ++ err) (some mc)
  | .ok upid =>
    let _ ← call (.setMigrationJobStarted upid)
    auditLog .execute mc { action := "migrate_running", upid := some upid }
    let _ ← call (.insertTaskHistory
      { upid, node := mc.job.sourceNode, taskType := "migrate", status := .running })
    match ← waitForTask mc.job.sourceNode upid polls with
    | none => return
    | some (.error err) =>
      let _ ← call (.reconcileTaskHistory .execute upid .failed err)
      failJob ("live migration phase failed: " ++ err) (some mc)
    | some (.ok _) => storagePhase mc upid polls

/-- The execution proper, once its nodes and its client are there. -/
def dispatchJob (mc : MigrationContext) (polls : ℕ) : Code Unit := do
  match mc.job.migrationType with
  | .unknown name => failJob ("unknown migration type: " ++ name) (some mc)
  | .crossCluster =>
    match ← executeCrossCluster mc.job mc with
    | (.error err, mc) => failJob err (some mc)
    | (.ok upid, mc) => startAndPollMigration mc upid polls
  | .intraCluster =>
    match mc.job.migrationMode with
    | .storage => executeStorageMigration mc polls
    | .both => executeBothMigration mc polls
    | .live =>
      match ← executeIntraCluster mc.job with
      | .error err => failJob err (some mc)
      | .ok upid => startAndPollMigration mc upid polls

def execute (userID : Option ℕ) (polls : ℕ) : Code Unit := do
  match (← call .getMigrationJob : Option Job) with
  | none => failJob "get migration job" none
  | some job =>
    let mc : MigrationContext := { job, userID }
    match (← call .requireJobNodes : Option String) with
    | some err => failJob err (some mc)
    | none =>
      match (← call (.clientForCluster false) : Option String) with
      | some err => failJob ("source cluster client: " ++ err) (some mc)
      | none => dispatchJob mc polls

/-! ## Requests -/

def saveCheckResults (passed : Bool) : Code Unit := do
  let _ ← call (.updateMigrationJobChecks (if passed then .pending else .failed))
  return

def runPreFlight : Code Unit := do
  match (← call .getMigrationJob : Option Job) with
  | none => return
  | some job =>
    if (← call (.updateMigrationJobStatus .checking) : Bool) then
      match (← call .requireJobNodes : Option String) with
      | some _ => saveCheckResults false
      | none =>
        match (← call (.clientForCluster false) : Option String) with
        | some _ => return
        | none =>
          if job.migrationType = .crossCluster then
            match (← call (.clientForCluster true) : Option String) with
            | some _ => return
            | none =>
              match (← call .runPreFlightChecks : Except String Bool) with
              | .error _ => return
              | .ok passed => saveCheckResults passed
          else
            match (← call .runPreFlightChecks : Except String Bool) with
            | .error _ => return
            | .ok passed => saveCheckResults passed

def runCheckRequest : Code Unit := do
  match (← call .getMigrationJob : Option Job) with
  | none => return
  | some _ => runPreFlight

def Status.executable (status : Status) : Bool := status = .pending || status = .checking

def executeRequest (userID : Option ℕ) (polls : ℕ) : Code Unit := do
  match (← call .getMigrationJob : Option Job) with
  | none => return
  | some job =>
    if job.status.executable then
      if (← call .reserveSlot : Bool) then execute userID polls

def cancelRequest : Code Unit := do
  match (← call .getMigrationJob : Option Job) with
  | none => return
  | some _ =>
    let _ ← call .cancelMigrationJob
    return

/-! ## Execution of statements -/

/-- A write under a context. -/
def World.write (w : World) (ctx : Ctx) (ok : Bool) (f : World → World) : Bool × World :=
  if !ok || (ctx = .execute && w.cancelled) then (false, w) else (true, f w)

theorem World.write_of_live {w : World} {ctx : Ctx} {ok : Bool} {f : World → World}
    (hok : ok = true) (hctx : (ctx = .execute && w.cancelled) = false) :
    w.write ctx ok f = (true, f w) := by simp [World.write, hok, hctx]

theorem World.write_cases {w w' : World} {ctx : Ctx} {ok a : Bool} {f : World → World}
    (h : some (w.write ctx ok f) = some (a, w')) : w' = f w ∨ w' = w := by
  unfold World.write at h
  split at h <;> cases h
  · exact .inr rfl
  · exact .inl rfl

def World.setStatus (status : Status) (w : World) : World :=
  { w with job := { w.job with status } }

/-- `InsertTaskHistory`: a UPID has one row. -/
def World.insertTask (row : TaskRow) (w : World) : World :=
  if w.taskHistory.any (·.upid = row.upid) then w
  else { w with taskHistory := row :: w.taskHistory }

def exec : (e : Stmt) → e.Outcome → World → Option (e.Ans × World)
  | .getMigrationJob, ok, w => some (if ok then some w.job else none, w)
  | .reserveSlot, ok, w => some (ok, w)
  | .updateMigrationJobStatus status, ok, w =>
    some (w.write .request ok fun w => { w with job := { w.job with status, errorMessage := "" } })
  | .updateMigrationJobChecks status, ok, w => some (w.write .request ok (World.setStatus status))
  | .cancelMigrationJob, ok, w =>
    some (w.write .request ok fun w =>
      if w.job.status.executable then w.setStatus .cancelled else w)
  | .setMigrationJobStarted upid, ok, w =>
    some (w.write .execute ok fun w => { w with job := { w.job with status := .migrating, upid } })
  | .updateMigrationJobProgress upid, ok, w =>
    some (w.write .execute ok fun w => { w with job := { w.job with upid } })
  | .completeMigrationJob ctx status errorMessage, ok, w =>
    some (w.write ctx ok fun w => { w with job := { w.job with status, errorMessage } })
  | .insertTaskHistory row, ok, w =>
    some (w.write .execute ok (World.insertTask row))
  | .reconcileTaskHistory ctx upid status exitStatus, ok, w =>
    some (w.write ctx ok fun w =>
      { w with taskHistory := w.taskHistory.map (TaskRow.reconcile upid status exitStatus) })
  | .insertAuditLog ctx row, ok, w =>
    some (w.write ctx ok fun w => { w with auditLog := row :: w.auditLog })
  | .requireJobNodes, err, w => some (err, w)
  | .clientForCluster _, err, w => some (err, w)
  | .runPreFlightChecks, res, w => some (res, w)
  | .targetToken, res, w => some (res, w)
  | .discoverDisks _, res, w => some (res, w)
  | .migrate, res, w => some (res, w)
  | .remoteMigrate _, res, w => some (res, w)
  | .moveDisk .., res, w => some (res, w)
  -- `Done` is ready once the context is cancelled; the ticker may be taken even then
  | .select, done, w => if done && !w.cancelled then none else some (done, w)
  | .getTaskStatus .., res, w => some (res, w)
  | .timeNow, now, w => some (now, w)
  | .ctxErr, _, w => some (w.cancelled, w)
  | .returned _, _, w => some ((), w)
  | .shutdown, _, w => some ((), { w with cancelled := true })

/-! ## An uneventful environment -/

/-- Everything goes through; tasks have this UPID, and every poll finds this status. -/
def calm (upid : String) (status : TaskStatus) : (e : Stmt) → e.Outcome
  | .requireJobNodes | .clientForCluster _ => none
  | .runPreFlightChecks => .ok true
  | .targetToken | .migrate | .remoteMigrate _ | .moveDisk .. => .ok upid
  | .discoverDisks _ => .ok []
  | .getTaskStatus .. => .ok status
  | .timeNow => 0
  | .getMigrationJob | .reserveSlot | .updateMigrationJobStatus _ | .updateMigrationJobChecks _
  | .cancelMigrationJob | .setMigrationJobStarted _ | .updateMigrationJobProgress _
  | .completeMigrationJob .. | .insertTaskHistory _ | .reconcileTaskHistory .. | .insertAuditLog ..
    => true
  | .select => false
  | .ctxErr | .returned _ | .shutdown => ()

end Nexara.Migration
