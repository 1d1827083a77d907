import Nexara.Rolling.Statements

/-!
# What a job holds, and how it is released

A running job may pause Nexara's DRS, pause the native balancer, turn HA rules off and shut
passthrough guests down; each of these leaves a marker in the database. `releaseJobState` undoes
what the markers name. It is run when the job ends, by the goroutine a cancel request leaves behind,
by `failJob`, and by the cleanup sweep until nothing is held.
-/

namespace Nexara.Rolling

open Conc Proxmox

def getJob : Code (Except Err JobRow) := db .getRollingUpdateJob

def listNodes : Code (Except Err (List NodeRow)) := db .listRollingUpdateNodes

def getNode (id : ℕ) : Code (Except Err NodeRow) := db (.getRollingUpdateNode id)

def updateJob (u : JobUpdate) : Code (Except Err ℕ) := db (.updateJob u)

def updateNode (u : NodeUpdate) (id : ℕ) : Code (Except Err ℕ) := db (.updateNode u id)

/-- An update whose error the source discards. -/
def updateNode_ (u : NodeUpdate) (id : ℕ) : Code Unit := do let _ ← updateNode u id

/-- Code that runs only under a condition. -/
def onlyIf (c : Bool) (p : Code Unit) : Code Unit := if c then p else pure ()

def succeeded {α : Type} : Except Err α → Bool
  | .ok _ => true
  | .error _ => false

/-! ## The job's status -/

def jobStatus : Code (Option JobStatus) := do
  match ← getJob with
  | .ok job => return some job.status
  | .error _ => return none

def isJobCancelled : Code Bool := do
  let status ← jobStatus
  return status = some .cancelled || status = some .paused

/-! ## The DRS pause -/

def disableDRSIfEnabled : Code Unit := do
  match (← db .getDRSConfig : Except Err Bool) with
  | .ok true => do
    let _ ← updateJob (.setJobDRSWasEnabled true)
    let _ ← db (.setDRSEnabled false)
  | _ => return

/-- The first part of a release: DRS is switched on again, then the marker is cleared. -/
def releaseDRS (job : JobRow) : Code Bool := do
  if job.drsWasEnabled then
    match ← db (.setDRSEnabled true) with
    | .error _ => return false
    | .ok _ => return succeeded (← updateJob (.setJobDRSWasEnabled false))
  else return true

/-! ## The native balancer's pause -/

def pauseNativeCRSIfActive : Code Unit := do
  match (← px .getClusterOptions : Except Err CrsOption) with
  | .error _ => return
  | .ok opts => do
    let crs := parseCRSSettings opts
    if crs.autoRebalanceActive then
      match ← px (.setClusterOptions crs.pausedAutoRebalance) with
      | .error _ => return
      | .ok _ => do
        match ← updateJob (.setJobNativeCRSPaused crs.restorable) with
        | .ok _ => return
        | .error _ => do
          -- roll the pause back; a second failure is only logged
          let _ ← px (.setClusterOptions crs.restorable)
    else return

def restoreNativeCRS (job : JobRow) : Code Bool := do
  match ← px (.setClusterOptions job.savedCrsConfig) with
  | .error _ => return false
  | .ok _ => return succeeded (← updateJob .clearJobNativeCRSPaused)

/-! ## The disabled HA rules -/

def mergeDisabledRules (existing : List DisabledHARule) :
    List DisabledHARule → List DisabledHARule
  | [] => existing
  | r :: add =>
    if existing.any (·.rule = r.rule) then mergeDisabledRules existing add
    else mergeDisabledRules (existing ++ [r]) add

def recordJobDisabledHARules (rules : List DisabledHARule) : Code (Except Err Unit) := do
  match ← getJob with
  | .error e => return .error (e.wrap "re-read job")
  | .ok job => do
    match ← updateJob (.setJobDisabledHARules (mergeDisabledRules job.record rules)) with
    | .error e => return .error (e.wrap "persist disabled HA rules")
    | .ok _ => do
      let _ ← updateJob .armJobCleanupPending
      return .ok ()

def disableHARules (toDisable : List DisabledHARule) : Code Unit :=
  Prog.each (fun r => do let _ ← px (.setHARuleDisabled r.rule r.type true)) toDisable

/-- The rules Proxmox did not take back. -/
def reenableEach : List DisabledHARule → Code (List DisabledHARule)
  | [] => return []
  | r :: rules => do
    match ← px (.setHARuleDisabled r.rule r.type false) with
    | .error _ => do
      let remaining ← reenableEach rules
      return r :: remaining
    | .ok _ => reenableEach rules

/-- The rules still to be enabled; one that no longer exists is dropped. -/
def reenableHARules (rules : List DisabledHARule) : Code (List DisabledHARule) := do
  let remaining ← reenableEach rules
  if remaining.isEmpty then return []
  else
    match (← px .getHARules : Except Err (List HARuleEntry)) with
    | .error _ => return remaining
    | .ok current => return remaining.filter fun r => current.any (·.rule = r.rule)

/-- Re-enable one record, and `persist` what is left of it. -/
def releaseRuleRecord (rules : List DisabledHARule) (persist : List DisabledHARule → Code Bool) :
    Code Bool := do
  let remaining ← reenableHARules rules
  let persisted ← persist remaining
  return remaining.isEmpty && persisted

def persistJobDisabledRules (remaining : List DisabledHARule) : Code Bool := do
  return succeeded (← updateJob (.setJobDisabledHARules remaining))

def persistNodeDisabledRules (id : ℕ) (remaining : List DisabledHARule) : Code Bool := do
  return succeeded (← updateNode (.setNodeDisabledHARules remaining) id)

/-! ## Passthrough guests the drain shut down -/

def passthroughGuests (guests : List GuestSnapshot) : List GuestSnapshot :=
  guests.filter (·.passthrough)

/-- The passthrough guests recorded as shut down. A row without a record has none; unless it is
finished, its guests stand in for it. -/
def stoppedPassthroughFor (node : NodeRow) : List GuestSnapshot :=
  match node.stoppedPassthroughJson with
  | some list => list
  | none =>
    if node.step = .completed ∨ node.step = .skipped then []
    else passthroughGuests node.guestsJson

def persistStoppedPassthrough (id : ℕ) (list : List GuestSnapshot) : Code Unit :=
  updateNode_ (.setNodeStoppedPassthrough list) id

def appendStoppedPassthrough (id : ℕ) (guest : GuestSnapshot) : Code (Except Err Unit) := do
  match ← getNode id with
  | .error e => return .error (e.wrap "re-read node")
  | .ok node => do
    let list := stoppedPassthroughFor node
    if list.any fun g => g.vmid = guest.vmid && g.type = guest.type then return .ok ()
    else
      match ← updateNode (.setNodeStoppedPassthrough (list ++ [guest])) id with
      | .error e => return .error (e.wrap "persist stopped-passthrough record")
      | .ok _ => return .ok ()

def nodeGuestStatuses (node : String) : Code (Except Err (GuestType → ℕ → Option String)) := do
  match (← ext (.getVMs node) : Except Err (List VirtualMachine)) with
  | .error e => return .error (e.wrap "list VMs")
  | .ok vms => do
    match (← ext (.getContainers node) : Except Err (List Container)) with
    | .error e => return .error (e.wrap "list containers")
    | .ok cts => return .ok fun type vmid => match type with
      | .qemu => (vms.reverse.find? (·.vmid = vmid)).map (·.status)
      | .lxc => (cts.reverse.find? (·.vmid = vmid)).map (·.status)

/-- What became of one recorded guest. -/
inductive Restart where
  | dropped | pending | interrupted

def restartGuest (node : NodeRow) (wait pruneRunning : Bool)
    (statuses : GuestType → ℕ → Option String) (guest : GuestSnapshot) : Code Restart := do
  match statuses guest.type guest.vmid with
  | none => return .dropped
  | some status =>
    if status ≠ "stopped" ∧ status ≠ "paused" then
      return if pruneRunning then .dropped else .pending
    else
      match (← ext (.startGuest node.nodeName guest) : Except Err String) with
      | .error _ => return .pending
      | .ok upid =>
        if !wait then return .pending
        else
          match (← ext (.waitForTask node.nodeName upid) : TaskResult) with
          | .completed => return .dropped
          | .interrupted => return .interrupted
          | .failed | .timeout => return .pending

/-- The guests left in the record, and whether a wait was interrupted. -/
def restartGuests (restart : GuestSnapshot → Code Restart) :
    List GuestSnapshot → Code (List GuestSnapshot × Bool)
  | [] => return ([], false)
  | guest :: rest => do
    match ← restart guest with
    | .interrupted => return (guest :: rest, true)
    | .dropped => restartGuests restart rest
    | .pending => do
      let (pending, interrupted) ← restartGuests restart rest
      return (guest :: pending, interrupted)

/-- How many guests are still pending, and whether a wait was interrupted. -/
def restartStoppedPassthrough (node : NodeRow) (wait pruneRunning : Bool) : Code (ℕ × Bool) := do
  let list := stoppedPassthroughFor node
  onlyIf (node.stoppedPassthroughJson.isNone && !list.isEmpty)
    (persistStoppedPassthrough node.id list)
  if list.isEmpty then return (0, false)
  else
    match ← nodeGuestStatuses node.nodeName with
    | .error _ => return (list.length, false)
    | .ok statuses => do
      let (pending, interrupted) ← restartGuests (restartGuest node wait pruneRunning statuses) list
      if interrupted then do
        persistStoppedPassthrough node.id pending
        return (pending.length, true)
      else do
        onlyIf (pending.length ≠ list.length) (persistStoppedPassthrough node.id pending)
        return (pending.length, false)

/-! ## The release -/

def pruneRunningAfter : ℕ := 2 * (30 * 60)

/-- Every element of a list passes; all are tried. -/
def eachReleased {α : Type} (f : α → Code Bool) : List α → Code Bool
  | [] => return true
  | x :: xs => do
    let here ← f x
    let rest ← eachReleased f xs
    return here && rest

/-- The parts of a release that need the cluster. -/
def releaseOnCluster (job : JobRow) (nodesWithRules nodesWithStopped : List NodeRow) :
    Code Bool := do
  let crs ← (if job.nativeCrsPaused then restoreNativeCRS job else pure true)
  let rules ← (if job.record.isEmpty then pure true
    else releaseRuleRecord job.record persistJobDisabledRules)
  let nodeRules ← eachReleased
    (fun n => releaseRuleRecord n.disabledHaRules (persistNodeDisabledRules n.id)) nodesWithRules
  let now ← timeNow
  let pruneRunning := job.completedAt.any fun t => decide (now - t > pruneRunningAfter)
  let guests ← eachReleased (fun n => do
    let (pending, interrupted) ← restartStoppedPassthrough n false pruneRunning
    return !interrupted && pending = 0) nodesWithStopped
  return crs && rules && nodeRules && guests

def clearCleanup (job : JobRow) (released : Bool) : Code Unit :=
  onlyIf (released && job.cleanupPending) do let _ ← updateJob .clearJobCleanupPending

/-- Release what these rows hold; the results are `released` and `didWork`. -/
def releaseHeld (job : JobRow) (nodes : List NodeRow) : Code (Bool × Bool) := do
  let nodesWithRules := nodes.filter fun n => !n.disabledHaRules.isEmpty
  let nodesWithStopped := nodes.filter fun n => !(stoppedPassthroughFor n).isEmpty
  let onCluster := job.nativeCrsPaused || !job.record.isEmpty || !nodesWithRules.isEmpty ||
    !nodesWithStopped.isEmpty
  let didWork := job.drsWasEnabled || onCluster
  let drs ← releaseDRS job
  if onCluster then
    match (← ext .createClient : Except Err Unit) with
    | .error _ => return (false, didWork)
    | .ok _ => do
      let cluster ← releaseOnCluster job nodesWithRules nodesWithStopped
      clearCleanup job (drs && cluster)
      return (drs && cluster, didWork)
  else do
    clearCleanup job drs
    return (drs, didWork)

def releaseJobState : Code (Bool × Bool) := do
  match ← getJob with
  | .error _ => return (false, false)
  | .ok job => do
    match ← listNodes with
    | .error _ => return (false, false)
    | .ok nodes => releaseHeld job nodes

/-! ## Failing, and the sweep -/

def failJob (reason : String) : Code Unit := do
  let _ ← updateJob (.failRollingUpdateJob reason)
  let _ ← releaseJobState

/-- The server's shutdown context has been cancelled. -/
def shuttingDown : Code Bool := ext .shuttingDown

def failNode (node : NodeRow) (reason : String) : Code Unit := do
  if ← shuttingDown then return
  else
    match ← updateNode (.failRollingUpdateNode reason) node.id with
    | .ok 0 => return
    | _ => failJob s!"node {node.nodeName} failed: {reason}"

def cleanupBackoff (attempts : ℕ) : ℕ :=
  if attempts < 5 then 2 * 60 else if attempts < 10 then 10 * 60 else 60 * 60

def sweepJob (job : JobRow) : Code Unit := do
  let now ← timeNow
  if now - job.updatedAt < cleanupBackoff job.cleanupAttempts then return
  else
    match ← updateJob .incrementJobCleanupAttempts with
    | .error _ => return
    | .ok _ => do let _ ← releaseJobState

def sweepPendingCleanups : Code Unit := do
  match (← db .listRollingUpdateJobsNeedingCleanup : Except Err (List JobRow)) with
  | .error _ => return
  | .ok jobs => Prog.each sweepJob jobs

def cleanupCancelledJob : Code Unit := do
  match ← getJob with
  | .error _ => return
  | .ok _ => do let _ ← releaseJobState

end Nexara.Rolling
