import Nexara.Rolling.Orchestrator

/-!
# From the upgrade to the restored node

The second half of a node's way: the automated upgrade and its goroutine (`advanceUpgrading`,
`runSSHUpgrade`), the confirmed one (`confirmUpgrade`), the reboot, and the return of the guests.
-/

namespace Nexara.Rolling

open Conc Proxmox

/-! ## The reboot decision -/

def rebootCheckCommand : String :=
  "test -f /var/run/reboot-required && echo REBOOT_NEEDED || echo NO_REBOOT"

/-- A reboot is owed unless the node said that it is not. -/
def rebootOwed (check : Except Err SSHResult) : Bool :=
  match check with
  | .error _ => true
  | .ok r => !Go.contains r.stdout "NO_REBOOT"

inductive RebootAction where
  | proceed | defer | fail

def decideReboot (job : JobRow) (violations : Except Err (List String)) : RebootAction :=
  if job.drainGuests then
    match violations with
    | .error _ => .proceed
    | .ok vs => if vs.isEmpty then .proceed else .fail
  else if !job.rebootAfterUpdate then .defer
  else
    match violations with
    | .error _ => .defer
    | .ok vs => if vs.isEmpty then .proceed else .defer

def found (violations : Except Err (List String)) : List String :=
  match violations with
  | .ok vs => vs
  | .error _ => []

/-! ## The automated upgrade -/

def upgradeAbsoluteTimeout : ℕ := 60 * 60

def upgradeHeartbeatStale : ℕ := 3 * 60

/-- Launch the upgrade once host and host key are known. -/
def launchUpgrade (job : JobRow) (node : NodeRow) : Code Unit := do
  match (← ext (.getNodeAddressByName node.nodeName) : Except Err String) with
  | .ok host => do
    if host = "" then failNode node (noAddress node.nodeName)
    else
      match (← ext (.getSSHKnownHost host) : Except Err Unit) with
      | .error _ => failNode node (notPinned host)
      | .ok _ => do
        match (← ext (.parseAuthorizedKey host) : Except Err Unit) with
        | .error e =>
          failNode node s!"stored SSH host key for {host} is corrupt: {e.text} — delete and re-pin"
        | .ok _ => do
          updateNode_ .setNodeUpgradeStarted node.id
          go (.sshUpgrade job node host)
  | .error _ => failNode node (noAddress node.nodeName)
where
  noAddress (name : String) : String := "no IP address known for node " ++ Go.quote name ++
    " (collector hasn't reported it). Wait for the collector to tick, then retry."
  notPinned (host : String) : String := s!"SSH host key not pinned for {host}. Visit Security → " ++
    "Rolling Updates → SSH Credentials, run Test Connection, and confirm the fingerprint to pin it."

def decryptPassword (present : Bool) : Code (Except Err Unit) :=
  if present then ext .decryptPassword else return .ok ()

def decryptPrivateKey (present : Bool) : Code (Except Err Unit) :=
  if present then ext .decryptPrivateKey else return .ok ()

/-- Decrypt what the stored credentials hold, then launch. -/
def prepareUpgrade (job : JobRow) (node : NodeRow) : Code Unit := do
  match (← ext .getClusterSSHCredentials : Except Err SSHCredentials) with
  | .error e => failNode node s!"SSH credentials not found: {e.text}"
  | .ok creds => do
    match ← decryptPassword creds.hasPassword with
    | .error e => failNode node s!"decrypt SSH password: {e.text}"
    | .ok _ => do
      match ← decryptPrivateKey creds.hasPrivateKey with
      | .error e => failNode node s!"decrypt SSH key: {e.text}"
      | .ok _ => launchUpgrade job node

def advanceUpgrading (job : JobRow) (node : NodeRow) : Code Unit := do
  let now ← timeNow
  match node.upgradeStartedAt with
  | none => prepareUpgrade job node
  | some _ =>
    if expired now upgradeAbsoluteTimeout node.upgradeStartedAt then
      failNode node "automated upgrade timed out after 1h0m0s"
    else if now - node.updatedAt ≤ upgradeHeartbeatStale then return
    else prepareUpgrade job node

/-- Lower-case letters, digits, dots, plus signs and hyphens; the first a letter or digit. -/
def isValidDebianPkgName (name : String) : Bool :=
  match name.toList with
  | [] => false
  | c :: cs => (c.isLower || c.isDigit) && cs.length ≤ 127 &&
      cs.all fun c => c.isLower || c.isDigit || c = '.' || c = '+' || c = '-'

def upgradeCommand (excludes : List String) : String :=
  "export DEBIAN_FRONTEND=noninteractive && " ++
  "(dpkg --configure -a 2>&1 || true) && " ++
  "apt-get update -o DPkg::Lock::Timeout=1800 && " ++
  "apt-get dist-upgrade -y" ++
  " -o DPkg::Lock::Timeout=1800" ++
  " -o Dpkg::Options::=--force-confdef" ++
  " -o Dpkg::Options::=--force-confold" ++
  excludes.foldl (fun args pkg => args ++ " --exclude " ++ pkg) "" ++ " 2>&1"

def execute (host cmd : String) : Code (Except Err SSHResult) := ext (.execute host cmd)

/-- Take the reboot the upgrade needs, put it off, or fail the node. -/
def rebootUpgraded (job : JobRow) (node : NodeRow) : Code Unit := do
  let violations ← verifyNodeDrained node.nodeName
  match decideReboot job violations with
  | .defer => updateNode_ .setNodeUpgradeCompletedRebootPending node.id
  | .fail => failNode node ("refusing to reboot: running guests present on node: " ++
      formatGuestList (found violations))
  | .proceed => do
    match ← updateNode .setNodeUpgradeCompleted node.id with
    | .error _ => return
    | .ok _ => do
      match (← px (.rebootNode node.nodeName) : Except Err Unit) with
      | .error e => failNode node s!"reboot node after upgrade: {e.text}"
      | .ok _ => return

/-- The reboot check failed because this process is losing the job. -/
def checkInterrupted : Except Err SSHResult → Code Bool
  | .ok _ => return false
  | .error e => interrupted e

/-- The upgrade has succeeded: stop if the job was cancelled, and find out about a reboot. -/
def finishUpgrade (job : JobRow) (node : NodeRow) (host : String) : Code Unit := do
  if ← isJobCancelled then return
  else if job.rebootAfterUpdate then rebootUpgraded job node
  else
    let check ← execute host rebootCheckCommand
    if ← checkInterrupted check then return
    else if rebootOwed check then rebootUpgraded job node
    else updateNode_ .setNodeUpgradeCompletedNoReboot node.id

def outputTail (output : String) : String :=
  if output.length > 2000 then "…(truncated)…\n" ++ Go.suffix output 2000 else output

def runSSHUpgrade (job : JobRow) (node : NodeRow) (host : String) : Code Unit := do
  match job.packageExcludes.find? fun pkg => !isValidDebianPkgName pkg with
  | some pkg => failNode node ("invalid package exclude name: " ++ Go.quote pkg)
  | none => do
    match ← execute host (upgradeCommand job.packageExcludes) with
    | .error e => do
      if ← interrupted e then return
      else failNode node s!"SSH upgrade failed: {e.text}"
    | .ok result => do
      let output := Go.suffix result.stdout 65536
      updateNode_ .setNodeUpgradeOutput node.id
      if result.exitCode ≠ 0 then
        failNode node
          s!"apt dist-upgrade exited with code {result.exitCode}:\n{outputTail output}"
      else finishUpgrade job node host

/-! ## The reboot and the restore -/

def advanceRebooting (node : NodeRow) : Code Unit := do
  let now ← timeNow
  if expired now (10 * 60) node.rebootStartedAt then
    failNode node "reboot timed out after 10 minutes"
  else if node.rebootStartedAt.any fun t => decide (now - t < 30) then return
  else
    match (← ext (.getNodeStatus node.nodeName) : Except Err ℕ) with
    | .error _ => return
    | .ok uptime =>
      -- an uptime that reaches back before the reboot is the old system's
      if uptime ≥ now - node.rebootStartedAt.getD 0 + 10 then return
      else
        match ← updateNode .setNodeRebootCompleted node.id with
        | .error _ => return
        | .ok _ => updateNode_ .setNodeHealthCheckPassed node.id

/-- Where the guest runs now, among the online nodes other than its own. -/
def findGuestLocation (guest : GuestSnapshot) (exclude : String) :
    List NodeListEntry → Code (Option String)
  | [] => return none
  | cn :: nodes => do
    if cn.node = exclude ∨ cn.status ≠ "online" then findGuestLocation guest exclude nodes
    else
      match ← guestStatusOnNode cn.node guest with
      | .ok (some _) => return some cn.node
      | _ => findGuestLocation guest exclude nodes

def restoreGuest (node : NodeRow) (clusterNodes : List NodeListEntry) (guest : GuestSnapshot) :
    Code Flow := do
  if guest.passthrough then return .next
  else
    match ← findGuestLocation guest node.nodeName clusterNodes with
    | none => return .next
    | some current => do
      match (← ext (.migrate current guest node.nodeName true) : Except Err String) with
      | .error _ => return .next
      | .ok upid => do
        match ← waitForTask current upid with
        | .interrupted => return .stop
        | .completed => do
          match ← waitForGuestUnlocked guest node.nodeName with
          | .interrupted => return .stop
          | _ => return .next
        | _ => return .next

def restoreLoop (node : NodeRow) (clusterNodes : List NodeListEntry) :
    List GuestSnapshot → Code Flow
  | [] => return .next
  | guest :: rest => do
    match ← restoreGuest node clusterNodes guest with
    | .stop => return .stop
    | .next => restoreLoop node clusterNodes rest

def restartInJob (node : NodeRow) : Code Flow := do
  let (_, interrupted) ← restartStoppedPassthrough node true true
  return if interrupted then .stop else .next

def restoreGuests (node : NodeRow) : Code Unit := do
  match ← updateNode .setNodeRestoreStarted node.id with
  | .error _ => return
  | .ok _ => do
    match (← ext .getNodes : Except Err (List NodeListEntry)) with
    | .error e => failNode node s!"list nodes for restore: {e.text}"
    | .ok clusterNodes => do
      match ← restartInJob node with
      | .stop => return
      | .next => do
        match ← restoreLoop node clusterNodes node.guestsJson with
        | .stop => return
        | .next => updateNode_ .setNodeRestoreCompleted node.id

/-- Without a restore, only the passthrough guests the drain shut down are started again. -/
def restartOnly (node : NodeRow) : Code Flow := do
  if (stoppedPassthroughFor node).isEmpty then return .next
  else if node.step = .restoring then restartInJob node
  else
    match ← updateNode .setNodeRestoreStarted node.id with
    | .error _ => return .stop
    | .ok _ => restartInJob node

def advanceHealthCheck (job : JobRow) (node : NodeRow) : Code Unit := do
  if !job.autoRestoreGuests then
    match ← restartOnly node with
    | .stop => return
    | .next => updateNode_ .setNodeRestoreCompleted node.id
  else if node.guestsJson.isEmpty then updateNode_ .setNodeRestoreCompleted node.id
  else restoreGuests node

def advanceRestoring (job : JobRow) (node : NodeRow) : Code Unit := do
  let now ← timeNow
  if expired now (30 * 60) node.restoreStartedAt then
    updateNode_ .setNodeRestoreCompleted node.id
  else if now - node.updatedAt < 2 * 60 then return
  else advanceHealthCheck job node

end Nexara.Rolling
