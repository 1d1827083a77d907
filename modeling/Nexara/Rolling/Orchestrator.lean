import Nexara.Rolling.Release

/-!
# The orchestrator

The scheduler tick: `processJob` advances every node of the running job by one step of its state
machine (`advanceNode`), starts the next pending node (`startNode`) and ends the job when every node
is finished. Every function works on the rows it was handed, which may be older than what the tables
hold by then.
-/

namespace Nexara.Rolling

open Conc Proxmox

/-! ## Looking at guests -/

def GuestSnapshot.label (g : GuestSnapshot) : String := s!"{g.type.text} {g.vmid}"

def getVMs (node : String) : Code (Except Err (List VirtualMachine)) := ext (.getVMs node)

def getContainers (node : String) : Code (Except Err (List Container)) := ext (.getContainers node)

def waitForTask (node upid : String) : Code TaskResult := ext (.waitForTask node upid)

def waitForGuestUnlocked (guest : GuestSnapshot) (expectNode : String) : Code TaskResult :=
  ext (.waitForGuestUnlocked guest expectNode)

def guestStatusOnNode (node : String) (guest : GuestSnapshot) :
    Code (Except Err (Option String)) := do
  match guest.type with
  | .qemu => do
    match ← getVMs node with
    | .error e => return .error e
    | .ok vms => return .ok ((vms.find? (·.vmid = guest.vmid)).map (·.status))
  | .lxc => do
    match ← getContainers node with
    | .error e => return .error e
    | .ok cts => return .ok ((cts.find? (·.vmid = guest.vmid)).map (·.status))

/-- A guest whose node cannot be listed counts as still there. -/
def isGuestOnNode (node : String) (guest : GuestSnapshot) : Code Bool := do
  match ← guestStatusOnNode node guest with
  | .error _ => return true
  | .ok status => return status.isSome

def getGuestStatus (node : String) (guest : GuestSnapshot) : Code String := do
  match ← guestStatusOnNode node guest with
  | .error _ => return ""
  | .ok status => return status.getD ""

/-- A device of the configuration that ties the guest to its node. -/
def hasPassthrough (config : VMConfig) : Bool :=
  ((List.range 16).any fun i => (config.lookup s!"hostpci{i}").isSome) ||
    (List.range 5).any fun i => match config.lookup s!"usb{i}" with
      | some v => v ≠ .string "spice"
      | none => false

/-- The running virtual machines; one whose configuration cannot be read counts as having no
passthrough device. -/
def snapshotVMs (node : String) : List VirtualMachine → Code (List GuestSnapshot)
  | [] => return []
  | vm :: vms => do
    if !vm.template && (vm.status = "running" || vm.status = "paused") then
      let config : Except Err VMConfig ← ext (.getVMConfig node vm.vmid)
      let passthrough := match config with
        | .ok c => hasPassthrough c
        | .error _ => false
      let rest ← snapshotVMs node vms
      return ⟨vm.vmid, vm.name, .qemu, vm.status, passthrough⟩ :: rest
    else snapshotVMs node vms

def snapshotGuests (node : String) : Code (Except Err (List GuestSnapshot)) := do
  match ← getVMs node with
  | .error e => return .error (e.wrap "get VMs")
  | .ok vms => do
    let machines ← snapshotVMs node vms
    match ← getContainers node with
    | .error e => return .error (e.wrap "get containers")
    | .ok cts =>
      let running := cts.filter (·.status = "running")
      return .ok (machines ++ running.map fun ct => ⟨ct.vmid, ct.name, .lxc, ct.status, false⟩)

/-- One attempt to list the guests that keep the node from being empty. -/
def listViolations (node : String) : Code (Except Err (List String)) := do
  match ← getVMs node with
  | .error e => return .error (e.wrap "list VMs")
  | .ok vms => do
    match ← getContainers node with
    | .error e => return .error (e.wrap "list containers")
    | .ok cts =>
      let running := vms.filter fun vm =>
        !vm.template && (vm.status = "running" || vm.status = "paused")
      return .ok (running.map (fun vm => s!"qemu {vm.vmid} ({vm.name})") ++
        (cts.filter (·.status = "running")).map fun ct => s!"lxc {ct.vmid} ({ct.name})")

/-- Up to `attempts` more attempts; a shutdown ends them with the last error. -/
def verifyRetry (node : String) : ℕ → Err → Code (Except Err (List String))
  | 0, e => return .error e
  | attempts + 1, e => do
    if ← shuttingDown then return .error e
    else
      match ← listViolations node with
      | .ok violations => return .ok violations
      | .error e => verifyRetry node attempts e

def listingRetryAttempts : ℕ := 3

def verifyNodeDrained (node : String) : Code (Except Err (List String)) := do
  match ← listViolations node with
  | .ok violations => return .ok violations
  | .error e => verifyRetry node (listingRetryAttempts - 1) e

def formatGuestList (guests : List String) : String :=
  if guests.length ≤ 10 then Go.join ", " guests
  else Go.join ", " (guests.take 10) ++ s!", and {guests.length - 10} more"

/-- An error is this process losing the job rather than the cluster failing it. -/
def interrupted (e : Err) : Code Bool := if e.canceled then return true else shuttingDown

/-- Only a node the cluster holds may be sent to Proxmox; another one is failed. -/
def requireDialableNode (node : NodeRow) : Code Membership := do
  match (← ext (.requireMember node.nodeName) : Membership) with
  | .notMember => do
    failNode node "not one of this cluster's nodes; it was not contacted"
    return .notMember
  | m => return m

/-! ## Draining -/

/-- Whether a loop over guests goes on, or its function returns. -/
inductive Flow where
  | next | stop

/-- The drain of `startNode`, or `resumeDrain`'s for what an interrupted one left: their messages,
and whether they look first if the guest is still there. -/
structure DrainPass where
  lead : String
  noTargets : String
  lookFirst : Bool

def DrainPass.first : DrainPass := ⟨"", "no available target nodes for migration", true⟩

def DrainPass.resume : DrainPass :=
  ⟨"resume drain — ", "resume drain — no available target nodes", false⟩

def failStop (node : NodeRow) (reason : String) : Code Flow := do
  failNode node reason
  return .stop

/-- The hard stop of a guest that did not shut down. -/
def forceStopPassthrough (p : DrainPass) (node : NodeRow) (guest : GuestSnapshot) :
    Code Flow := do
  match (← ext (.stopGuest node.nodeName guest) : Except Err String) with
  | .error e => failStop node s!"{p.lead}force stop passthrough {guest.label}: {e.text}"
  | .ok upid => do
    match ← waitForTask node.nodeName upid with
    | .interrupted => return .stop
    | _ => return .next

/-- A passthrough guest cannot be migrated: it is recorded, then shut down where it is. -/
def shutdownPassthrough (p : DrainPass) (node : NodeRow) (guest : GuestSnapshot) : Code Flow := do
  match ← appendStoppedPassthrough node.id guest with
  | .error e =>
    failStop node s!"{p.lead}record passthrough shutdown of {guest.label}: {e.text}"
  | .ok _ => do
    match (← ext (.shutdownGuest node.nodeName guest) : Except Err String) with
    | .error e => failStop node s!"{p.lead}shutdown passthrough {guest.label}: {e.text}"
    | .ok upid => do
      match ← waitForTask node.nodeName upid with
      | .interrupted => return .stop
      | .completed => return .next
      | .failed | .timeout => forceStopPassthrough p node guest

/-- Wait until the guest has arrived on its target. -/
def settleGuest (p : DrainPass) (node : NodeRow) (guest : GuestSnapshot) (target : String) :
    Code Flow := do
  match ← waitForGuestUnlocked guest target with
  | .interrupted => return .stop
  | .completed => return .next
  | status =>
    failStop node s!"{p.lead}{guest.label} still locked after migrate (status: {status.text})"

def migrateGuest (p : DrainPass) (node : NodeRow) (targets : List String)
    (guest : GuestSnapshot) : Code Flow := do
  match ← waitForGuestUnlocked guest "" with
  | .interrupted => return .stop
  | _ => do
    if ← isGuestOnNode node.nodeName guest then
      match (← ext (.selectTarget guest node.nodeName targets) : Except Err String) with
      | .error e => failStop node s!"{p.lead}no valid target for {guest.label}: {e.text}"
      | .ok target => do
        let online := guest.status = "running"
        match (← ext (.migrateWithRetry node.nodeName guest target online) :
          Except Err String) with
        | .error e => failStop node s!"{p.lead}migrate {guest.label}: {e.text}"
        | .ok upid => do
          match ← waitForTask node.nodeName upid with
          | .interrupted => return .stop
          | .completed => settleGuest p node guest target
          | status =>
            failStop node s!"{p.lead}migration of {guest.label} failed (status: {status.text})"
    else return .next

def drainGuest (p : DrainPass) (node : NodeRow) (targets : List String) (guest : GuestSnapshot) :
    Code Flow := do
  let here ← (if p.lookFirst then isGuestOnNode node.nodeName guest else pure true)
  if !here then return .next
  else if guest.passthrough then shutdownPassthrough p node guest
  else migrateGuest p node targets guest

/-- The drain loop looks at the job's status before each guest. -/
def drainLoop (p : DrainPass) (node : NodeRow) (targets : List String) :
    List GuestSnapshot → Code Flow
  | [] => return .next
  | guest :: rest => do
    if ← isJobCancelled then return .stop
    else
      match ← drainGuest p node targets guest with
      | .stop => return .stop
      | .next => drainLoop p node targets rest

/-- How a node of the job is marked as ready to be upgraded: by the tick, or by hand. -/
def readyUpdate (job : JobRow) : NodeUpdate :=
  match job.autoUpgrade, job.drainGuests with
  | true, true => .setNodeDrainCompletedAuto
  | true, false => .setNodeInPlaceUpgradeAuto
  | false, true => .setNodeDrainCompletedManual
  | false, false => .setNodeInPlaceUpgradeManual

def beginUpgrade (job : JobRow) (node : NodeRow) : Code Unit :=
  updateNode_ (readyUpdate job) node.id

def refreshAptIndex (node : NodeRow) : Code Unit := do
  match (← ext (.refreshNodeAptIndex node.nodeName) : Except Err String) with
  | .error _ => return
  | .ok upid => do let _ ← waitForTask node.nodeName upid

def completeDrain (job : JobRow) (node : NodeRow) : Code Unit := do
  match ← verifyNodeDrained node.nodeName with
  | .ok (v :: vs) =>
    failNode node ("node still has running guests after drain (moved here mid-drain?): " ++
      formatGuestList (v :: vs))
  | _ => do
    refreshAptIndex node
    beginUpgrade job node

/-- Move the guests to the other online nodes, then go on. -/
def drainGuests (p : DrainPass) (job : JobRow) (node : NodeRow) (guests : List GuestSnapshot) :
    Code Unit := do
  match (← ext .getNodes : Except Err (List NodeListEntry)) with
  | .error e => failNode node s!"{p.lead}list cluster nodes: {e.text}"
  | .ok clusterNodes => do
    let targets := (clusterNodes.filter fun cn =>
      cn.node ≠ node.nodeName && cn.status = "online").map (·.node)
    if targets.isEmpty then failNode node p.noTargets
    else
      match (← ext .loadHAConstraints : Except Err Unit) with
      | .error e => do
        if ← interrupted e then return
        else failNode node s!"{p.lead}read HA constraints for target selection: {e.text}"
      | .ok _ => do
        match ← drainLoop p node targets guests with
        | .stop => return
        | .next => completeDrain job node

def resumeDrain (job : JobRow) (node : NodeRow) (remaining : List GuestSnapshot) : Code Unit := do
  updateNode_ .touchRollingUpdateNode node.id
  drainGuests .resume job node remaining

/-- The guests that still have to leave; a passthrough guest that is stopped has been dealt with. -/
def stillOnNode (node : NodeRow) : List GuestSnapshot → Code (List GuestSnapshot)
  | [] => return []
  | g :: guests => do
    if ← isGuestOnNode node.nodeName g then
      let status ← (if g.passthrough then getGuestStatus node.nodeName g else pure "")
      let rest ← stillOnNode node guests
      return if status = "stopped" then rest else g :: rest
    else stillOnNode node guests

def expired (now limit : ℕ) (since : Option ℕ) : Bool := since.any fun t => decide (now - t > limit)

def advanceDraining (job : JobRow) (node : NodeRow) : Code Unit := do
  let now ← timeNow
  if expired now (60 * 60) node.drainStartedAt then
    failNode node "drain timed out after 1 hour"
  else if now - node.updatedAt < 2 * 60 then return
  else if node.guestsJson.isEmpty then completeDrain job node
  else
    let remaining ← stillOnNode node node.guestsJson
    if remaining.isEmpty then completeDrain job node else resumeDrain job node remaining

/-! ## Starting a node -/

def guestTypeToSIDPrefix : GuestType → String
  | .lxc => "ct"
  | .qemu => "vm"

/-- The enabled rules that name a guest of the node. -/
def rulesToDisable (guests : List GuestSnapshot) (rules : List HARuleEntry) :
    List DisabledHARule :=
  let sids := guests.map fun g => s!"{guestTypeToSIDPrefix g.type}:{g.vmid}"
  (rules.filter fun r =>
    !r.disable && (Go.split r.resources ',').any fun rs => sids.contains (Go.trimSpace rs)).map
      fun r => ⟨r.rule, r.type⟩

def listHARules : Code (Except Err (List HARuleEntry)) := do
  match (← px .getHARules : Except Err (List HARuleEntry)) with
  | .error e => return .error (e.wrap "list HA rules")
  | .ok rules => return .ok rules

/-- Record the rules, turn them off, record them again, and look whether the job is still running.
-/
def disableForDrain (node : NodeRow) (toDisable : List DisabledHARule) : Code Bool := do
  if toDisable.isEmpty then return true
  else
    match ← recordJobDisabledHARules toDisable with
    | .error e => do
      failNode node s!"record HA rules before disabling: {e.text}"
      return false
    | .ok _ => do
      disableHARules toDisable
      let _ ← recordJobDisabledHARules toDisable
      match ← jobStatus with
      | some .running => return true
      | some .cancelled => do
        let _ ← releaseJobState
        return false
      | _ => return false

def drain (job : JobRow) (node : NodeRow) (guests : List GuestSnapshot) : Code Unit := do
  match ← updateNode .setNodeDrainStarted node.id with
  | .error _ => return
  | .ok _ => if guests.isEmpty then completeDrain job node else drainGuests .first job node guests

def startDrain (job : JobRow) (node : NodeRow) : Code Unit := do
  match ← snapshotGuests node.nodeName with
  | .error e => failNode node s!"snapshot guests: {e.text}"
  | .ok guests => do
    if ← isJobCancelled then return
    else
      updateNode_ (.setNodeGuestsJSON guests) node.id
      match ← listHARules with
      | .error e => do
        if ← interrupted e then return
        else failNode node s!"before disabling HA rules: {e.text}"
      | .ok rules => do
        if ← disableForDrain node (rulesToDisable guests rules) then drain job node guests

/-- An in-place job upgrades the node with its guests on it. -/
def startUpdate (job : JobRow) (node : NodeRow) : Code Unit :=
  if job.drainGuests then startDrain job node else beginUpgrade job node

def startNode (job : JobRow) (node : NodeRow) : Code Unit := do
  match ← requireDialableNode node with
  | .member => do
    refreshAptIndex node
    match (← ext (.getNodeAptUpdates node.nodeName) : Except Err (List String)) with
    | .ok [] => updateNode_ .skipRollingUpdateNodeAny node.id
    | .ok (_ :: _) => do
      updateNode_ .setNodePackagesJSON node.id
      startUpdate job node
    | .error _ => startUpdate job node
  | _ => return

end Nexara.Rolling
