import Nexara.Proxmox.Crs

/-!
# The rows of a rolling update and the cluster it works on

One job with its nodes, the cluster's DRS switch, and what Proxmox holds for the cluster: the `crs`
option, the HA rules and the reboots that were asked for. `JobUpdate` and `NodeUpdate` are the
`UPDATE` statements of `rolling_updates.sql`, each with its `WHERE` clause (`guard`) and its `SET`
list (`set`). Times are in seconds; a JSON column holds the list it encodes.
-/

namespace Nexara.Rolling

open Proxmox (CrsOption)

inductive JobStatus where
  | pending | running | paused | completed | failed | cancelled
  deriving DecidableEq

namespace JobStatus

/-- The statuses `HasRunningJobForCluster` counts, and the terminal transitions start from. -/
def active : JobStatus → Bool
  | pending | running | paused => true
  | completed | failed | cancelled => false

/-- The statuses the cleanup sweep looks at. -/
def terminal (s : JobStatus) : Bool := !s.active

end JobStatus

inductive NodeStep where
  | pending | draining | awaitingUpgrade | upgrading | rebooting | healthCheck | restoring
  | completed | failed | skipped
  deriving DecidableEq

namespace NodeStep

def terminal : NodeStep → Bool
  | completed | failed | skipped => true
  | _ => false

/-- The steps `CountActiveNodes` counts. -/
def active : NodeStep → Bool
  | draining | awaitingUpgrade | upgrading | rebooting | healthCheck | restoring => true
  | _ => false

def text : NodeStep → String
  | pending => "pending"
  | draining => "draining"
  | awaitingUpgrade => "awaiting_upgrade"
  | upgrading => "upgrading"
  | rebooting => "rebooting"
  | healthCheck => "health_check"
  | restoring => "restoring"
  | completed => "completed"
  | failed => "failed"
  | skipped => "skipped"

end NodeStep

inductive GuestType where
  | qemu | lxc
  deriving DecidableEq

def GuestType.text : GuestType → String
  | qemu => "qemu"
  | lxc => "lxc"

structure GuestSnapshot where
  vmid : ℕ
  name : String
  type : GuestType
  status : String
  passthrough : Bool := false
  deriving DecidableEq

structure DisabledHARule where
  rule : String
  type : String
  deriving DecidableEq

/-- A row of `rolling_update_jobs`. -/
structure JobRow where
  status : JobStatus := .pending
  parallelism : ℕ := 1
  rebootAfterUpdate : Bool := true
  autoRestoreGuests : Bool := true
  packageExcludes : List String := []
  autoUpgrade : Bool := false
  drainGuests : Bool := true
  failureReason : String := ""
  drsWasEnabled : Bool := false
  nativeCrsPaused : Bool := false
  savedCrsConfig : String := ""
  disabledHaRules : Option (List DisabledHARule) := none
  cleanupPending : Bool := false
  cleanupAttempts : ℕ := 0
  completedAt : Option ℕ := none
  updatedAt : ℕ := 0
  deriving DecidableEq

/-- A row of `rolling_update_nodes`. -/
structure NodeRow where
  id : ℕ
  nodeName : String
  step : NodeStep := .pending
  failureReason : String := ""
  guestsJson : List GuestSnapshot := []
  disabledHaRules : List DisabledHARule := []
  stoppedPassthroughJson : Option (List GuestSnapshot) := some []
  drainStartedAt : Option ℕ := none
  upgradeConfirmedAt : Option ℕ := none
  upgradeStartedAt : Option ℕ := none
  rebootStartedAt : Option ℕ := none
  rebootRequired : Bool := false
  restoreStartedAt : Option ℕ := none
  updatedAt : ℕ := 0
  deriving DecidableEq

theorem find?_of_nodup {rows : List NodeRow} (hids : (rows.map (·.id)).Nodup) {n : NodeRow}
    (hn : n ∈ rows) : rows.find? (·.id = n.id) = some n := by
  induction rows with
  | nil => cases hn
  | cons m rows ih =>
    rw [List.map_cons, List.nodup_cons] at hids
    rcases List.mem_cons.mp hn with rfl | hn
    · rw [List.find?_cons_of_pos (by simp)]
    · have hne : m.id ≠ n.id := fun h => hids.1 (h ▸ List.mem_map_of_mem hn)
      rw [List.find?_cons_of_neg (by simpa using hne)]
      exact ih hids.2 hn

structure HARuleEntry where
  rule : String
  type : String
  resources : String
  disable : Bool := false

structure World where
  now : ℕ := 0
  /-- The party whose scheduler tick is running: there is one leader, and it ticks one at a time. -/
  leader : Option ℕ := none
  job : JobRow := {}
  /-- In `node_order`. -/
  nodes : List NodeRow := []
  /-- `drs_configs.enabled` of the cluster, if it has a configuration. -/
  drs : Option Bool := none
  crs : CrsOption := .absent
  haRules : List HARuleEntry := []
  /-- The names of the nodes `RebootNode` was called for, the latest first. -/
  reboots : List String := []

namespace World

def node? (w : World) (id : ℕ) : Option NodeRow := w.nodes.find? (·.id = id)

def ruleOff (w : World) (rule : String) : Bool :=
  w.haRules.any fun r => r.rule = rule && r.disable

end World

/-! ## Updates of the job -/

/-- The `UPDATE` statements on the job's row. -/
inductive JobUpdate where
  | startRollingUpdateJob
  | completeRollingUpdateJob
  | failRollingUpdateJob (reason : String)
  | cancelRollingUpdateJob
  | pauseRollingUpdateJob
  | resumeRollingUpdateJob
  | setJobDRSWasEnabled (b : Bool)
  | setJobNativeCRSPaused (saved : String)
  | clearJobNativeCRSPaused
  | setJobDisabledHARules (rules : List DisabledHARule)
  | armJobCleanupPending
  | clearJobCleanupPending
  | incrementJobCleanupAttempts
  deriving DecidableEq

namespace JobRow

/-- The job's record of disabled HA rules; `NULL` and `'[]'` both mean that there are none. -/
def record (job : JobRow) : List DisabledHARule := job.disabledHaRules.getD []

/-- The job's row holds nothing of the cluster. -/
def released (job : JobRow) : Bool :=
  !job.drsWasEnabled && !job.nativeCrsPaused && job.record.isEmpty

end JobRow

namespace NodeRow

/-- The node's own records, with `NULL` counting as empty. -/
def released (n : NodeRow) : Bool :=
  n.disabledHaRules.isEmpty && (n.stoppedPassthroughJson.getD []).isEmpty

end NodeRow

namespace JobUpdate

def guard (w : World) : JobUpdate → Bool
  | startRollingUpdateJob => w.job.status = .pending
  | completeRollingUpdateJob | failRollingUpdateJob _ | cancelRollingUpdateJob => w.job.status.active
  | pauseRollingUpdateJob => w.job.status = .running
  | resumeRollingUpdateJob => w.job.status = .paused
  | armJobCleanupPending => w.job.status.terminal
  | clearJobCleanupPending => w.job.released && w.nodes.all NodeRow.released
  | setJobDRSWasEnabled _ | setJobNativeCRSPaused _ | clearJobNativeCRSPaused
  | setJobDisabledHARules _ | incrementJobCleanupAttempts => true

def finish (now : ℕ) (status : JobStatus) (j : JobRow) : JobRow :=
  { j with status := status, cleanupPending := true, completedAt := some now, updatedAt := now }

def set (now : ℕ) : JobUpdate → JobRow → JobRow
  | startRollingUpdateJob, j => { j with status := .running, updatedAt := now }
  | completeRollingUpdateJob, j => finish now .completed j
  | failRollingUpdateJob reason, j => { finish now .failed j with failureReason := reason }
  | cancelRollingUpdateJob, j => finish now .cancelled j
  | pauseRollingUpdateJob, j => { j with status := .paused, updatedAt := now }
  | resumeRollingUpdateJob, j => { j with status := .running, updatedAt := now }
  | setJobDRSWasEnabled b, j => { j with drsWasEnabled := b, updatedAt := now }
  | setJobNativeCRSPaused saved, j =>
      { j with nativeCrsPaused := true, savedCrsConfig := saved, updatedAt := now }
  | clearJobNativeCRSPaused, j => { j with nativeCrsPaused := false, updatedAt := now }
  | setJobDisabledHARules rules, j => { j with disabledHaRules := some rules, updatedAt := now }
  | armJobCleanupPending, j => { j with cleanupPending := true, updatedAt := now }
  | clearJobCleanupPending, j => { j with cleanupPending := false, updatedAt := now }
  | incrementJobCleanupAttempts, j =>
      { j with cleanupAttempts := j.cleanupAttempts + 1, updatedAt := now }

end JobUpdate

/-! ## Updates of a node -/

/-- The `UPDATE` statements on a node's row. Columns no function reads are left out; writing them
still touches the row. -/
inductive NodeUpdate where
  | failRollingUpdateNode (reason : String)
  | skipRollingUpdateNode
  | skipRollingUpdateNodeAny
  | setNodeDrainStarted
  | setNodeDrainCompletedManual
  | setNodeDrainCompletedAuto
  | setNodeInPlaceUpgradeAuto
  | setNodeInPlaceUpgradeManual
  | setNodePackagesJSON
  | setNodeGuestsJSON (guests : List GuestSnapshot)
  | confirmNodeUpgrade
  | setNodeUpgradeStarted
  | setNodeUpgradeCompleted
  | setNodeUpgradeCompletedNoReboot
  | setNodeUpgradeCompletedRebootPending
  | setNodeUpgradeOutput
  | setNodeRebootStarted
  | setNodeRebootCompleted
  | setNodeHealthCheckPassed
  | setNodeRestoreStarted
  | setNodeRestoreCompleted
  | setNodeDisabledHARules (rules : List DisabledHARule)
  | setNodeStoppedPassthrough (guests : List GuestSnapshot)
  | touchRollingUpdateNode
  deriving DecidableEq

namespace NodeUpdate

def guard (n : NodeRow) : NodeUpdate → Bool
  | failRollingUpdateNode _ => !n.step.terminal
  | skipRollingUpdateNode => n.step = .pending
  | confirmNodeUpgrade => n.step = .awaitingUpgrade
  | _ => true

def step? : NodeUpdate → Option NodeStep
  | failRollingUpdateNode _ => some .failed
  | skipRollingUpdateNode | skipRollingUpdateNodeAny => some .skipped
  | setNodeDrainStarted => some .draining
  | setNodeDrainCompletedManual | setNodeInPlaceUpgradeManual => some .awaitingUpgrade
  | setNodeDrainCompletedAuto | setNodeInPlaceUpgradeAuto => some .upgrading
  | setNodeUpgradeCompleted | setNodeRebootStarted => some .rebooting
  | setNodeUpgradeCompletedNoReboot | setNodeUpgradeCompletedRebootPending
  | setNodeHealthCheckPassed => some .healthCheck
  | setNodeRestoreStarted => some .restoring
  | setNodeRestoreCompleted => some .completed
  | setNodePackagesJSON | setNodeGuestsJSON _ | confirmNodeUpgrade | setNodeUpgradeStarted
  | setNodeUpgradeOutput | setNodeRebootCompleted | setNodeDisabledHARules _
  | setNodeStoppedPassthrough _ | touchRollingUpdateNode => none

/-- The columns a statement writes besides `step` and `updated_at`. -/
def columns (now : ℕ) : NodeUpdate → NodeRow → NodeRow
  | failRollingUpdateNode reason, n => { n with failureReason := reason }
  | setNodeDrainStarted, n => { n with drainStartedAt := some now }
  | setNodeGuestsJSON guests, n => { n with guestsJson := guests }
  | confirmNodeUpgrade, n => { n with upgradeConfirmedAt := some now }
  | setNodeUpgradeStarted, n =>
      { n with upgradeStartedAt := some (n.upgradeStartedAt.getD now) }
  | setNodeUpgradeCompleted, n =>
      { n with upgradeConfirmedAt := some now, rebootStartedAt := some now }
  | setNodeUpgradeCompletedNoReboot, n => { n with upgradeConfirmedAt := some now }
  | setNodeUpgradeCompletedRebootPending, n =>
      { n with upgradeConfirmedAt := some now, rebootRequired := true }
  | setNodeRebootStarted, n => { n with rebootStartedAt := some now }
  | setNodeRestoreStarted, n => { n with restoreStartedAt := some now }
  | setNodeDisabledHARules rules, n => { n with disabledHaRules := rules }
  | setNodeStoppedPassthrough guests, n => { n with stoppedPassthroughJson := some guests }
  | skipRollingUpdateNode, n | skipRollingUpdateNodeAny, n | setNodeDrainCompletedManual, n
  | setNodeDrainCompletedAuto, n | setNodeInPlaceUpgradeAuto, n | setNodeInPlaceUpgradeManual, n
  | setNodePackagesJSON, n | setNodeUpgradeOutput, n | setNodeRebootCompleted, n
  | setNodeHealthCheckPassed, n | setNodeRestoreCompleted, n | touchRollingUpdateNode, n => n

def set (now : ℕ) (u : NodeUpdate) (n : NodeRow) : NodeRow :=
  { u.columns now n with step := u.step?.getD n.step, updatedAt := now }

@[simp] theorem set_step (now : ℕ) (u : NodeUpdate) (n : NodeRow) :
    (u.set now n).step = u.step?.getD n.step := rfl

@[simp] theorem set_id (now : ℕ) (u : NodeUpdate) (n : NodeRow) : (u.set now n).id = n.id := by
  cases u <;> rfl

end NodeUpdate

end Nexara.Rolling
