import Nexara.Rolling.Upgrade

/-!
# The parties of a rolling update

The scheduler's tick, the requests an administrator can make about a job, and the goroutines they
leave behind, as the roles of one system (`rolling`). Any number of them run at once, except that
the leader ticks one at a time; each statement of `Nexara.Rolling.Statements` is one atomic step.
-/

namespace Nexara.Rolling

open Conc

/-! ## The tick -/

/-- A pending node is started by `startNode`, and one that awaits its upgrade needs a confirmation.
-/
def NodeStep.automatic : NodeStep → Bool
  | .draining | .upgrading | .rebooting | .healthCheck | .restoring => true
  | _ => false

def advanceStep (job : JobRow) (node : NodeRow) : Code Unit :=
  match node.step with
  | .draining => advanceDraining job node
  | .upgrading => advanceUpgrading job node
  | .rebooting => advanceRebooting node
  | .healthCheck => advanceHealthCheck job node
  | .restoring => advanceRestoring job node
  | _ => return

def advanceNode (job : JobRow) (node : NodeRow) : Code Unit := do
  if node.step.automatic then
    match ← requireDialableNode node with
    | .member => advanceStep job node
    | _ => return
  else return

/-- Fail the job if one of the nodes it just advanced has failed; the result says whether. -/
def failIfNodeFailed : List NodeRow → Code Bool
  | [] => return false
  | node :: nodes => do
    if node.step.automatic then
      match ← getNode node.id with
      | .ok updated =>
        if updated.step = .failed then do
          failJob s!"node {node.nodeName} failed: {updated.failureReason}"
          return true
        else failIfNodeFailed nodes
      | .error _ => failIfNodeFailed nodes
    else failIfNodeFailed nodes

/-- Start the next pending node, if the job's parallelism leaves room. -/
def startNext (job : JobRow) (activeCount : ℕ) : Code Unit := do
  if activeCount < job.parallelism then
    match (← db .getNextPendingNode : Except Err NodeRow) with
    | .ok node => startNode job node
    | .error _ => return

def finishJob : Code Unit := do
  match (← db .countCompletedNodes : Except Err NodeCounts) with
  | .error _ => return
  | .ok counts =>
    if counts.completed + counts.failed + counts.skipped = counts.total then
      if counts.failed > 0 then failJob "one or more nodes failed"
      else
        match ← updateJob .completeRollingUpdateJob with
        | .error _ => return
        | .ok 0 => return
        | .ok (_ + 1) => do let _ ← releaseJobState
    else return

/-- Pause Nexara's DRS and the native balancer; `false` when there is no client. -/
def pauseBalancers (job : JobRow) : Code Bool := do
  onlyIf (!job.drsWasEnabled) disableDRSIfEnabled
  match (← ext .createClient : Except Err Unit) with
  | .error _ => return false
  | .ok _ => do
    onlyIf (!job.nativeCrsPaused) pauseNativeCRSIfActive
    return true

/-- The rest of `processJob`: advance the nodes, start the next one, and end the job. -/
def advanceJob (job : JobRow) : Code Unit := do
  match ← listNodes with
  | .error _ => return
  | .ok nodes => do
    Prog.each (advanceNode job) nodes
    if ← failIfNodeFailed nodes then return
    else
      match (← db .countActiveNodes : Except Err ℕ) with
      | .error _ => return
      | .ok activeCount => do
        startNext job activeCount
        finishJob

def processJob (job : JobRow) : Code Unit := do
  if ← pauseBalancers job then advanceJob job

def tick : Code Unit := do
  match (← db .listRunningRollingUpdateJobs : Except Err (List JobRow)) with
  | .error _ => return
  | .ok jobs => do
    Prog.each processJob jobs
    sweepPendingCleanups

def leaderTick : Code Unit := do
  Prog.stmt (S := sig) .beginTick
  tick
  Prog.stmt (S := sig) .endTick

/-! ## Requests -/

inductive ConfirmError where
  | notMember (node : String)
  | lookup
  | other (text : String)

/-- The confirmed upgrade is recorded, and the node rebooted if the job wants it. -/
def confirmReboot (job : JobRow) (node : NodeRow) : Code (Except ConfirmError Unit) := do
  match ← updateNode .confirmNodeUpgrade node.id with
  | .error e => return .error (.other s!"confirm node upgrade: {e.text}")
  | .ok _ => do
    if job.rebootAfterUpdate then
      match (← px (.rebootNode node.nodeName) : Except Err Unit) with
      | .error e => do
        updateNode_ .setNodeRebootStarted node.id
        failNode node s!"reboot node: {e.text}"
        return .error (.other s!"reboot node: {e.text}")
      | .ok _ => do
        match ← updateNode .setNodeRebootStarted node.id with
        | .error e => return .error (.other s!"set node reboot started: {e.text}")
        | .ok _ => return .ok ()
    else
      match ← updateNode .setNodeHealthCheckPassed node.id with
      | .error e => return .error (.other s!"set health check: {e.text}")
      | .ok _ => return .ok ()

/-- Look at the node's guests before a reboot is confirmed. -/
def confirmDrained (job : JobRow) (node : NodeRow) : Code (Except ConfirmError Unit) := do
  match (← ext .createClient : Except Err Unit) with
  | .error e => return .error (.other s!"create client for reboot: {e.text}")
  | .ok _ => do
    let violations ← verifyNodeDrained node.nodeName
    match decideReboot job violations with
    | .defer => do
      match ← updateNode .setNodeUpgradeCompletedRebootPending node.id with
      | .error e => return .error (.other s!"confirm node upgrade (reboot pending): {e.text}")
      | .ok _ => return .ok ()
    | .fail => return .error (.other ("node has running guests, refusing to reboot: " ++
        formatGuestList (found violations) ++ " — migrate them off and confirm again"))
    | .proceed => confirmReboot job node

def confirmUpgrade (job : JobRow) (node : NodeRow) : Code (Except ConfirmError Unit) := do
  if node.step ≠ .awaitingUpgrade then
    return .error (.other s!"node is not awaiting upgrade (current step: {node.step.text})")
  else
    match ← requireDialableNode node with
    | .notMember => return .error (.notMember node.nodeName)
    | .lookupFailed => return .error .lookup
    | .member => if job.rebootAfterUpdate then confirmDrained job node else confirmReboot job node

def jobInCluster (k : JobRow → Code Unit) : Code Unit := do
  match ← getJob with
  | .error _ => respond 404 "Rolling update job not found"
  | .ok job => k job

def handleConfirmUpgrade (id : ℕ) : Code Unit := jobInCluster fun job => do
  match ← getNode id with
  | .error _ => respond 404 "Rolling update node not found"
  | .ok node => do
    match ← confirmUpgrade job node with
    | .ok _ => respond 200 "confirmed"
    | .error (.notMember name) =>
      respond 409
        ("node " ++ Go.quote name ++ " is not one of this cluster's nodes; it was not contacted")
    | .error .lookup => respond 500 "Failed to look up the node"
    | .error (.other text) => respond 400 text

def handleSkipNode (id : ℕ) : Code Unit := jobInCluster fun _ => do
  match ← getNode id with
  | .error _ => respond 404 "Node not found"
  | .ok node => do
    match ← updateNode .skipRollingUpdateNode id with
    | .error _ => respond 500 "Failed to skip node"
    | .ok (_ + 1) => respond 200 "skipped"
    | .ok 0 => do
      let fresh ← getNode id
      let step := match fresh with
        | .ok fresh => fresh.step
        | .error _ => node.step
      respond 400 ("Node cannot be skipped in step " ++ Go.quote step.text ++
        " — only nodes that have not started can be skipped")

def handleStartJob : Code Unit := jobInCluster fun job => do
  if job.status ≠ .pending then respond 400 "Job is not in pending status"
  else
    match ← updateJob .startRollingUpdateJob with
    | .error _ => respond 500 "Failed to start job"
    | .ok _ => respond 200 "running"

def handleCancelJob : Code Unit := jobInCluster fun _ => do
  match ← updateJob .cancelRollingUpdateJob with
  | .error _ => respond 500 "Failed to cancel job"
  | .ok 0 => respond 400 "Job is not active (already finished or cancelled)"
  | .ok (_ + 1) => do
    go .cancelCleanup
    respond 200 "cancelled"

def handlePauseJob : Code Unit := jobInCluster fun _ => do
  match ← updateJob .pauseRollingUpdateJob with
  | .error _ => respond 500 "Failed to pause job"
  | .ok _ => respond 200 "paused"

def handleResumeJob : Code Unit := jobInCluster fun _ => do
  match ← updateJob .resumeRollingUpdateJob with
  | .error _ => respond 500 "Failed to resume job"
  | .ok _ => respond 200 "running"

/-! ## The system -/

def code : Role → Code Unit
  | .tick => leaderTick
  | .sshUpgrade job node host => runSSHUpgrade job node host
  | .heartbeat id => updateNode_ .touchRollingUpdateNode id
  | .startJob => handleStartJob
  | .cancelJob => handleCancelJob
  | .cancelCleanup => cleanupCancelledJob
  | .pauseJob => handlePauseJob
  | .resumeJob => handleResumeJob
  | .confirmUpgrade id => handleConfirmUpgrade id
  | .skipNode id => handleSkipNode id
  | .releaseJobState => do let _ ← releaseJobState
  | .deleteHARule rule => Prog.stmt (S := sig) (.deleteHARule rule)
  | .wait seconds => Prog.stmt (S := sig) (.wait seconds)

def entry : Role → Bool
  | .sshUpgrade _ _ _ | .cancelCleanup => false
  | _ => true

/-- One rolling-update job, the cluster it works on, and everybody who touches either. -/
abbrev rolling : System where
  sig := sig
  State := World
  Role := Role
  entry r := entry r = true
  code := code
  Outcome := Stmt.Outcome
  exec i _ := exec i
  forks := forks

instance : DecidablePred rolling.entry := fun r => inferInstanceAs (Decidable (entry r = true))

/-! ## An uneventful environment -/

/-- The answers when nothing goes wrong: every node has the virtual machines `vms`, the other nodes
are `others`, and no node wants a reboot. -/
def calmExt (vms : List VirtualMachine) (others : List NodeListEntry) : (q : Ext) → q.Ans
  | .createClient => .ok ()
  | .requireMember _ => Membership.member
  | .shuttingDown => false
  | .refreshNodeAptIndex _ => .ok ""
  | .getNodeAptUpdates _ => .ok ["linux-image"]
  | .waitForTask _ _ => TaskResult.completed
  | .waitForGuestUnlocked _ _ => TaskResult.completed
  | .getVMs _ => .ok vms
  | .getContainers _ => .ok []
  | .getVMConfig _ _ => .ok []
  | .getNodes => .ok others
  | .loadHAConstraints => .ok ()
  | .selectTarget _ _ targets => .ok (targets.headD "")
  | .migrateWithRetry _ _ _ _ => .ok ""
  | .migrate _ _ _ _ => .ok ""
  | .shutdownGuest _ _ => .ok ""
  | .stopGuest _ _ => .ok ""
  | .startGuest _ _ => .ok ""
  | .getNodeStatus _ => .ok (0 : ℕ)
  | .getClusterSSHCredentials => .ok ⟨true, false⟩
  | .decryptPassword => .ok ()
  | .decryptPrivateKey => .ok ()
  | .getNodeAddressByName name => .ok name
  | .getSSHKnownHost _ => .ok ()
  | .parseAuthorizedKey _ => .ok ()
  | .execute _ _ => .ok ⟨"NO_REBOOT", 0⟩

def calm (vms : List VirtualMachine) (others : List NodeListEntry) : rolling.Oracle
  | .db _ => none
  | .px _ => none
  | .ext q => calmExt vms others q
  | .now | .beginTick | .endTick | .go _ | .respond _ _ | .deleteHARule _ | .wait _ => ()

def steps (i n : ℕ) (ω : rolling.Oracle) : List rolling.Event := List.replicate n (.step i ω)

end Nexara.Rolling
