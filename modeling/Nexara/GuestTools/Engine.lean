import Mathlib.Algebra.Order.Ring.Int
import Nexara.Conc.Pool

/-!
# The guest tools engine

Staging borrows a CD-ROM drive of a guest for the virtio-win ISO: what is to be done with the drive
afterwards is recorded in the guest's state row before the drive is touched, and the record is
emptied once the drive has been put back. The rows are worked on by scheduled passes (which also
sweep the rows of vanished guests), by reconciles and by an operator's `StageOne` and `CancelOne`.
The model is of one guest; the collector may take its inventory row away for a while.
-/

namespace Nexara.GuestTools

open Conc

/-! ## Drives -/

/-- A drive's place on a guest's buses. -/
inductive Key where
  | ide (n : Fin 4)
  | sata (n : Fin 6)
  | scsi (n : Fin 31)
  | virtio (n : Fin 16)
  deriving DecidableEq

instance neZero_four : NeZero 4 := ⟨Nat.succ_ne_zero 3⟩

instance neZero_thirtyOne : NeZero 31 := ⟨Nat.succ_ne_zero 30⟩

/-- The keys in the order a sorted configuration lists them. -/
def Key.all : List Key :=
  ([0, 1, 2, 3] : List (Fin 4)).map .ide ++ ([0, 1, 2, 3, 4, 5] : List (Fin 6)).map .sata ++
  ([0, 1, 10, 11, 12, 13, 14, 15, 16, 17, 18, 19, 2, 20, 21, 22, 23, 24, 25, 26, 27, 28, 29, 3, 30,
    4, 5, 6, 7, 8, 9] : List (Fin 31)).map .scsi ++
  ([0, 1, 10, 11, 12, 13, 14, 15, 2, 3, 4, 5, 6, 7, 8, 9] : List (Fin 16)).map .virtio

/-- What is in a CD-ROM drive. -/
inductive Media where
  | none
  | virtioWin (volid : String)
  | other (volid : String)
  deriving DecidableEq

/-- What a key of the configuration holds. -/
inductive Drive where
  | disk (volume : String)
  | cdrom (media : Media)
  deriving DecidableEq

def Drive.holdsVirtioWin : Drive → Bool
  | .cdrom (.virtioWin _) => true
  | _ => false

/-- A guest's drives. -/
abbrev Config := Key → Option Drive

structure CDROMDrive where
  key : Key
  media : Media

def Config.cdrom (config : Config) (key : Key) : Option CDROMDrive :=
  match config key with
  | some (.cdrom media) => some ⟨key, media⟩
  | _ => none

def Config.cdromDrives (config : Config) : List CDROMDrive := Key.all.filterMap config.cdrom

def CDROMDrive.isVirtioWin (drive : CDROMDrive) : Bool := (Drive.cdrom drive.media).holdsVirtioWin

/-- Where a drive may be added, in order of preference. -/
def cdromSlots : List Key :=
  [.ide 2, .ide 0, .ide 1, .ide 3, .sata 0, .sata 1, .sata 2, .sata 3, .sata 4, .sata 5]

/-- Where the ISO goes; `eject` for a drive that is added for it. -/
structure Placement where
  key : Key
  eject : Bool := false
  alreadyAttached : Bool := false

/-- `none` is `ErrNoCDROMSlot`. -/
def planCDROM (config : Config) (isoVolid : String) : Option Placement :=
  match config.cdromDrives.find? (·.isVirtioWin) with
  | some drive =>
    some { key := drive.key, alreadyAttached := drive.media = .virtioWin isoVolid }
  | none =>
    (cdromSlots.find? fun slot => (config slot).isNone).map fun slot => { key := slot, eject := true }

/-- `prior_cdrom_value`. -/
inductive RestoreAction where
  | remove
  | eject
  | put (existing : Drive)
  deriving DecidableEq

/-- What has to be done with the drive afterwards. -/
def restoreActionFor (placement : Placement) (config : Config) : RestoreAction :=
  if placement.eject then .remove
  else match config placement.key with
    | some existing => if !existing.holdsVirtioWin then .put existing else .eject
    | none => .eject

/-- What the restore writes to the drive's key. -/
def RestoreAction.value : RestoreAction → Option Drive
  | .remove => none
  | .eject => some (.cdrom .none)
  | .put existing => some existing

/-! ## Rows -/

/-- How far a guest's update is. -/
inductive Stage where
  | idle
  | staging
  | staged
  | running
  | succeeded
  | failed
  deriving DecidableEq

def Stage.isInFlight : Stage → Bool
  | .staging | .staged | .running => true
  | _ => false

/-- `prior_cdrom_key` and `prior_cdrom_value`, which are written and emptied together. -/
abbrev Prior := Key × RestoreAction

/-- The guest's row of `guest_tools_state`. -/
structure Row where
  stage : Stage := .idle
  stagedVersion : String := ""
  stagedAt : Option ℕ := none
  prior : Option Prior := none
  deriving DecidableEq

/-- The guest, its row, and the clock that stamps rows. -/
structure World where
  config : Config
  row : Option Row := none
  /-- The collector's row of the guest is there. -/
  listed : Bool := true
  clock : ℕ := 0
  /-- The drives that hold a virtio-win ISO that was attached by a call of the engine. -/
  attached : List Key := []

def World.prior (w : World) : Option Prior := w.row.bind (·.prior)

/-- What is read of the guest's inventory row. -/
structure Vm where
  qemu : Bool := true
  windows : Bool := true
  template : Bool := false
  running : Bool := true
  locked : Bool := false
  uptime : ℕ := 0

/-- What a lookup of the inventory row answers. -/
inductive Lookup where
  | error
  | noRows
  | found (vm : Vm)

/-- The guest as the fleet listing has it. -/
structure FleetGuest where
  template : Bool := false
  running : Bool := true
  excluded : Bool := false
  stage : Option Stage := none

/-- The fleet of a cluster: the guest, and whether there are others. -/
structure Fleet where
  guest : Option FleetGuest
  others : Bool

/-- The version to update to, and its ISO. -/
structure Target where
  version : String
  isoFilename : String

/-- What the updater left in the guest. -/
structure UpdateResult where
  version : String
  succeeded : Bool

def UpdateResult.stage (result : UpdateResult) : Stage :=
  if result.succeeded then .succeeded else .failed

/-- What the guest answers about the updater's task. -/
inductive TaskPresence where
  | unknown
  | absent
  | ready
  | running

/-! ## Statements -/

/-- The database statements and the calls to Proxmox, each a step of its own. -/
inductive Stmt where
  | createClient
  | listGuestToolsFleet
  | countGuestToolsInFlightForCluster
  /-- Whether the guest is among the vmids of the fleet. -/
  | deleteGuestToolsStateForVanishedGuests (listed : Bool)
  | getVirtioWinConfig
  /-- The guests before this one that a pass has staged. -/
  | stagedBefore
  | detectScript
  | upsertGuestToolsDetection
  | getGuestToolsPolicy
  | resolveTarget
  | needsUpdate (installed target : String)
  | getGuestToolsConfig
  | getVMByClusterAndVmid
  | getNode
  | getGuestToolsState
  | isoPresent
  | getVMConfig
  | createVMSnapshot
  | setGuestToolsStage (stage : Stage) (stagedVersion : String) (prior : Prior)
  | setVMConfig (key : Key) (value : Option Drive)
  | clearResultFile
  | writeUpdater
  | registerTask
  | startTask
  | deleteTask
  | updaterTaskPresence
  | readResult
  | finishGuestToolsUpdate (stage : Stage) (cdromRestored : Bool)
  | clearGuestToolsCDROMRestore
  | listGuestToolsInFlight
  | listGuestToolsPendingCDROMRestore
  | setGuestToolsUptime (uptime : ℕ)
  /-- `time.Since(stagedAt) > staleCeilingFor(stage)`. -/
  | pastCeiling (stage : Stage) (stagedAt : ℕ)
  | insertAuditLog
  /-- The collector writes the guest's inventory row, or takes it away. -/
  | setListed (listed : Bool)
  deriving DecidableEq

/-- What a statement answers; `none` and `false` are errors. -/
@[reducible] def Stmt.Ans : Stmt → Type
  | listGuestToolsFleet => Option Fleet
  | countGuestToolsInFlightForCluster => Option ℕ
  | stagedBefore => ℕ
  | getVirtioWinConfig | detectScript => Option String
  | getGuestToolsPolicy | getGuestToolsConfig | isoPresent => Option Bool
  | resolveTarget => Option Target
  | getVMByClusterAndVmid => Lookup
  | getGuestToolsState => Option Row
  | getVMConfig => Option Config
  | updaterTaskPresence => Option TaskPresence
  | readResult => Option (Option UpdateResult)
  | listGuestToolsInFlight | listGuestToolsPendingCDROMRestore => Option (Option Row)
  | setListed _ => Unit
  | createClient | deleteGuestToolsStateForVanishedGuests _ | upsertGuestToolsDetection
  | needsUpdate .. | getNode | createVMSnapshot | setGuestToolsStage .. | setVMConfig ..
  | clearResultFile | writeUpdater | registerTask | startTask | deleteTask
  | finishGuestToolsUpdate .. | clearGuestToolsCDROMRestore | setGuestToolsUptime _
  | pastCeiling .. | insertAuditLog => Bool

/-- Whether a call succeeds, and what is read outside the model. -/
@[reducible] def Stmt.Outcome : Stmt → Type
  | listGuestToolsFleet => Option (FleetGuest × Bool)
  | getVMByClusterAndVmid => Option Vm
  | getGuestToolsState | getVMConfig | listGuestToolsInFlight | listGuestToolsPendingCDROMRestore =>
    Bool
  | e => e.Ans

abbrev sig : Sig := ⟨Stmt, Stmt.Ans⟩

abbrev Code (α : Type) := Prog sig α

def call (e : Stmt) : Code e.Ans := Prog.stmt (S := sig) e

/-- `q`, unless `p` fails. -/
def thenTry (p q : Code Bool) : Code Bool := do
  match (← p : Bool) with
  | false => return false
  | true => q

/-! ## `stage` -/

structure StageParams where
  target : Target
  storage : String
  snapshotBefore : Bool
  runNow : Bool

def StageParams.isoVolid (p : StageParams) : String := p.storage ++ ":iso/" ++ p.target.isoFilename

inductive StageResult where
  | staged
  | isoUnavailable
  | failed (markerWritten : Bool)

/-- Asks the guest for its version and records it. -/
def detect : Code (Option String) := do
  match (← call .detectScript : Option String) with
  | none => return none
  | some installed =>
    match (← call .upsertGuestToolsDetection : Bool) with
    | false => return none
    | true => return some installed

/-- Puts the ISO into the drive, unless it is there. -/
def attach (placement : Placement) (isoVolid : String) : Code Bool :=
  if placement.alreadyAttached then return true
  else call (.setVMConfig placement.key (some (.cdrom (.virtioWin isoVolid))))

def startNow (runNow : Bool) : Code Bool :=
  if runNow then call .startTask else return true

/-- The rest of `stage` once the marker is written. -/
def arm (p : StageParams) (placement : Placement) (prior : Prior) : Code Bool :=
  thenTry (attach placement p.isoVolid) <|
  thenTry (call .clearResultFile) <|
  thenTry (call .writeUpdater) <|
  thenTry (call .registerTask) <|
  thenTry (startNow p.runNow) <|
  call (.setGuestToolsStage (if p.runNow then .running else .staged) p.target.version prior)

/-- A snapshot comes before an update that runs at once. -/
def snapshot (p : StageParams) : Code Bool :=
  if p.snapshotBefore && p.runNow then call .createVMSnapshot else return true

/-- `stage` from the plan on. -/
def borrow (p : StageParams) (placement : Placement) (prior : Prior) : Code StageResult := do
  match (← snapshot p : Bool) with
  | false => return .failed false
  | true =>
    match (← call (.setGuestToolsStage .staging p.target.version prior) : Bool) with
    | false => return .failed false
    | true =>
      match (← arm p placement prior : Bool) with
      | false => return .failed true
      | true => return .staged

/-- Borrows a drive for the ISO and arms the updater. -/
def stage (p : StageParams) : Code StageResult := do
  match (← call .isoPresent : Option Bool) with
  | none => return .failed false
  | some false => return .isoUnavailable
  | some true =>
    match (← call .getVMConfig : Option Config) with
    | none => return .failed false
    | some config =>
      match planCDROM config p.isoVolid with
      | none => return .failed false
      | some placement => borrow p placement (placement.key, restoreActionFor placement config)

/-! ## Restores -/

/-- Puts the drive back as recorded. -/
def restoreCDROM : Option Prior → Code Bool
  | none => return true
  | some (key, priorValue) => call (.setVMConfig key priorValue.value)

/-- Puts the drive back, and the row to rest. -/
def finishCancel (state : Row) : Code Bool := do
  let cdromRestored ← restoreCDROM state.prior
  call (.finishGuestToolsUpdate .idle cdromRestored)

/-- Takes the updater's task away first. -/
def cancelStaged (state : Row) : Code Unit := do
  let _ ← call .deleteTask
  let _ ← finishCancel state
  return

/-- Leaves the record of the borrowed drive standing. -/
def markFailed : Code Unit := do
  let _ ← call (.finishGuestToolsUpdate .failed false)
  return

/-- Whether the task is gone. -/
def deleteUpdaterTask : Code Bool := do
  let _ ← call .deleteTask
  match (← call .updaterTaskPresence : Option TaskPresence) with
  | some .absent => return true
  | _ => return false

def nodeAndClient : Code Bool := thenTry (call .getNode) (call .createClient)

/-! ## The scheduled pass -/

structure PassConfig where
  /-- The mode is `staged`, not `report`. -/
  staged : Bool := true
  snapshotBefore : Bool := false
  maxConcurrent : ℕ := 5

/-- The guest may be staged as far as the pass can tell from its list. -/
def FleetGuest.due (guest : FleetGuest) (cfg : PassConfig) (budget : Int) : Bool :=
  cfg.staged && decide (0 < budget) && !guest.stage.any (·.isInFlight) && !guest.excluded

/-- A pass marks the row failed when its staging fails. -/
def passStage (p : StageParams) : Code Unit := do
  match ← stage p with
  | .failed _ => markFailed
  | .isoUnavailable | .staged => return

/-- A pass stages a guest whose version is behind. -/
def passUpdate (cfg : PassConfig) (storage installed : String) : Code Unit := do
  match (← call .getGuestToolsPolicy : Option Bool) with
  | none => return
  | some _ =>
    match (← call .resolveTarget : Option Target) with
    | none => return
    | some target =>
      match (← call (.needsUpdate installed target.version) : Bool) with
      | false => return
      | true =>
        if storage = "" then return
        else passStage { target, storage, snapshotBefore := cfg.snapshotBefore, runNow := false }

/-- A pass detects each running guest, and stages those that are due within its budget. -/
def passGuest (cfg : PassConfig) (inFlight : ℕ) (storage : String) (guest : FleetGuest) :
    Code Unit := do
  if guest.template || !guest.running then return
  else
    match ← detect with
    | none => return
    | some installed =>
      let before ← call .stagedBefore
      if guest.due cfg (cfg.maxConcurrent - inFlight - before) then passUpdate cfg storage installed
      else return

/-- Rows of vanished guests go, while no update is in flight. -/
def sweep (inFlight : ℕ) (fleet : Fleet) : Code Unit := do
  if inFlight = 0 then
    let _ ← call (.deleteGuestToolsStateForVanishedGuests fleet.guest.isSome)
    return
  else return

def passFleet (cfg : PassConfig) (fleet : Fleet) : Code Unit := do
  match (← call .countGuestToolsInFlightForCluster : Option ℕ) with
  | none => return
  | some inFlight =>
    sweep inFlight fleet
    let storage ← call .getVirtioWinConfig
    match fleet.guest with
    | none => return
    | some guest => passGuest cfg inFlight ((storage : Option String).getD "") guest

def runClusterPass (cfg : PassConfig) : Code Unit := do
  match (← call .createClient : Bool) with
  | false => return
  | true =>
    match (← call .listGuestToolsFleet : Option Fleet) with
    | none => return
    | some fleet =>
      if fleet.guest.isNone && !fleet.others then return
      else passFleet cfg fleet

/-! ## Reconciling -/

/-- A staged version is no longer the target. -/
def supersededStaging (stage : Stage) (stagedVersion targetVersion : String) : Bool :=
  stage = .staged && stagedVersion ≠ "" && targetVersion ≠ "" && stagedVersion ≠ targetVersion

/-- The target by the cluster's policy. -/
def resolveTargetForState : Code (Option Target) := do
  match (← call .getGuestToolsConfig : Option Bool) with
  | none => return none
  | some _ =>
    match (← call .getGuestToolsPolicy : Option Bool) with
    | none => return none
    | some _ => call .resolveTarget

/-- Takes the updater's task away, unless there is no agent to do so. -/
def disarm (agentUp : Bool) : Code Bool := do
  match agentUp with
  | false => return true
  | true =>
    match (← call .updaterTaskPresence : Option TaskPresence) with
    | none | some .running | some .unknown => return false
    | some .absent | some .ready => deleteUpdaterTask

def bootInstallGrace : ℕ := 5 * 60

/-- `withdrawSuperseded` from its re-read on. -/
def withdraw (state : Row) (agentUp : Bool) : Code Bool := do
  match ← resolveTargetForState with
  | none => return false
  | some target =>
    if !supersededStaging state.stage state.stagedVersion target.version then return false
    else
      match (← disarm agentUp : Bool) with
      | false => return false
      | true =>
        match (← finishCancel state : Bool) with
        | false => return false
        | true =>
          let _ ← call .insertAuditLog
          return true

/-- The staged rows a withdrawal is considered for. -/
def Row.withdrawable (state : Row) : Bool := state.stage = .staged && state.stagedVersion ≠ ""

/-- Withdraws a staged update whose target has moved on, on a row read anew. -/
def withdrawSuperseded (state : Row) (agentUp : Bool) (uptime : ℕ) : Code Bool := do
  if !state.withdrawable || (agentUp && decide (uptime < bootInstallGrace)) then return false
  else
    match (← call .getGuestToolsState : Option Row) with
    | none => return false
    | some fresh => if !fresh.withdrawable then return false else withdraw fresh agentUp

/-- Abandons the update if the row is still the one that was listed. -/
def expire (state : Row) : Code Bool := do
  match (← call .getGuestToolsState : Option Row) with
  | none => return false
  | some fresh =>
    if fresh.stage ≠ state.stage ∨ fresh.stagedAt ≠ state.stagedAt then return false
    else
      markFailed
      return true

/-- Gives an update up that is past its ceiling. -/
def expireIfStale (state : Row) : Code Bool := do
  match state.stagedAt with
  | none => return false
  | some stagedAt =>
    match (← call (.pastCeiling state.stage stagedAt) : Bool) with
    | false => return false
    | true => expire state

/-- The branch of `reconcileOne` with no result. -/
def awaitResult (state : Row) (uptime : ℕ) : Code Unit := do
  match (← withdrawSuperseded state true uptime : Bool) with
  | true => return
  | false =>
    let _ ← call (.setGuestToolsUptime uptime)
    return

/-- The branch of `reconcileOne` with a result. -/
def recordResult (state : Row) (result : UpdateResult) : Code Unit := do
  if result.version ≠ "" ∧ result.version ≠ state.stagedVersion then return
  else
    let cdromRestored ← restoreCDROM state.prior
    match (← call (.finishGuestToolsUpdate result.stage cdromRestored) : Bool) with
    | false => return
    | true =>
      let _ ← call .clearResultFile
      let _ ← detect
      return

/-- `reconcileOne` once it has a client. -/
def reconcileGuest (state : Row) (vm : Vm) : Code Unit := do
  if !vm.running then
    let _ ← withdrawSuperseded state false vm.uptime
    return
  else
    match (← call .readResult : Option (Option UpdateResult)) with
    | none => return
    | some none => awaitResult state vm.uptime
    | some (some result) => recordResult state result

/-- `reconcileOne` for a guest that is in the inventory. -/
def reconcileFound (state : Row) (vm : Vm) : Code Unit := do
  match (← call .getNode : Bool) with
  | false => return
  | true =>
    match (← expireIfStale state : Bool) with
    | true => return
    | false =>
      match (← call .createClient : Bool) with
      | false => return
      | true => reconcileGuest state vm

/-- One row that was listed as in flight. -/
def reconcileOne (state : Row) : Code Unit := do
  match (← call .getVMByClusterAndVmid : Lookup) with
  | .error | .noRows => return
  | .found vm => reconcileFound state vm

def clearCDROMRestore : Code Unit := do
  let _ ← call .clearGuestToolsCDROMRestore
  return

/-- The retry's re-read, and what it does then. -/
def restorePending : Code Unit := do
  match (← call .getGuestToolsState : Option Row) with
  | none => return
  | some fresh =>
    if fresh.stage.isInFlight || fresh.prior.isNone then return
    else
      match (← restoreCDROM fresh.prior : Bool) with
      | false => return
      | true => clearCDROMRestore

/-- One row that still has a drive to put back; a vanished guest has none. -/
def retryPendingCDROMRestore : Code Unit := do
  match (← call .getVMByClusterAndVmid : Lookup) with
  | .error => return
  | .noRows => clearCDROMRestore
  | .found _ =>
    match (← nodeAndClient : Bool) with
    | false => return
    | true => restorePending

/-- The rows at rest with a drive to put back. -/
def retryPendingCDROMRestores : Code Unit := do
  match (← call .listGuestToolsPendingCDROMRestore : Option (Option Row)) with
  | none | some none => return
  | some (some _) => retryPendingCDROMRestore

def reconcileListed : Option Row → Code Unit
  | none => return
  | some row => reconcileOne row

/-- The rows in flight, then the drives still to be put back. -/
def reconcile : Code Unit := do
  match (← call .listGuestToolsInFlight : Option (Option Row)) with
  | none => return
  | some row =>
    reconcileListed row
    retryPendingCDROMRestores

/-! ## The operator's requests -/

/-- Guests an operator may stage. -/
def Vm.eligible (vm : Vm) : Bool :=
  vm.qemu && vm.windows && !vm.template && vm.running && !vm.locked

/-- `StageOne` once the guest has been found eligible. -/
def stageEligible (snapshotBefore runNow : Bool) : Code Unit := do
  match (← call .getGuestToolsPolicy : Option Bool) with
  | none | some true => return
  | some false =>
    match (← call .resolveTarget : Option Target) with
    | none => return
    | some target =>
      match (← call .getVirtioWinConfig : Option String) with
      | none => return
      | some storage =>
        if storage = "" then return
        else
          match (← nodeAndClient : Bool) with
          | false => return
          | true =>
            match ← stage { target, storage, snapshotBefore, runNow } with
            | .failed true => markFailed
            | .failed false | .isoUnavailable | .staged => return

/-- An operator stages the guest. -/
def stageOne (runNow : Bool) : Code Unit := do
  match (← call .getGuestToolsConfig : Option Bool) with
  | none => return
  | some snapshotBefore =>
    match (← call .getVMByClusterAndVmid : Lookup) with
    | .error | .noRows => return
    | .found vm => if !vm.eligible then return else stageEligible snapshotBefore runNow

/-- An operator cancels the guest's update. -/
def cancelOne : Code Unit := do
  match (← call .getGuestToolsState : Option Row) with
  | none => return
  | some state =>
    match (← call .getVMByClusterAndVmid : Lookup) with
    | .error | .noRows => return
    | .found _ =>
      match (← nodeAndClient : Bool) with
      | false => return
      | true => cancelStaged state

/-! ## Execution of statements -/

/-- The row is written anew, stamped by the clock. -/
def World.setStage (w : World) (stage : Stage) (stagedVersion : String) (prior : Prior) : World :=
  { w with
    row := some { stage, stagedVersion, stagedAt := some w.clock, prior := some prior }
    clock := w.clock + 1 }

/-- A drive changes; the engine has attached the ISOs it writes. -/
def World.setVMConfig (w : World) (key : Key) (value : Option Drive) : World :=
  { w with
    config := Function.update w.config key value
    attached :=
      if value.any (·.holdsVirtioWin) then key :: w.attached else w.attached.filter (· ≠ key) }

/-- The update ends; the record of the drive goes once the drive was put back. -/
def Row.finish (row : Row) (stage : Stage) (cdromRestored : Bool) : Row :=
  { row with
    stage
    stagedVersion := if stage = .idle then "" else row.stagedVersion
    prior := if cdromRestored then none else row.prior }

def World.lookup (w : World) (vm : Vm) : Lookup := if w.listed then .found vm else .noRows

def World.fleet (w : World) (guest : FleetGuest) (others : Bool) : Fleet :=
  { guest := if w.listed then some { guest with stage := w.row.map (·.stage) } else none, others }

/-- The row, if its update is in flight. -/
def World.inFlight (w : World) : Option Row := w.row.filter (·.stage.isInFlight)

/-- The row, if it is at rest with a drive to put back. -/
def World.pending (w : World) : Option Row :=
  w.row.filter fun row => !row.stage.isInFlight && row.prior.isSome

/-- What a statement does; a call that fails has no effect. -/
def exec : (e : Stmt) → e.Outcome → World → e.Ans × World
  | .listGuestToolsFleet, o, w => (o.map fun x => w.fleet x.1 x.2, w)
  | .countGuestToolsInFlightForCluster, o, w => (o.map (· + w.inFlight.toList.length), w)
  | .deleteGuestToolsStateForVanishedGuests listed, ok, w =>
    (ok, if ok && !listed then { w with row := none } else w)
  | .upsertGuestToolsDetection, ok, w => (ok, if ok then { w with row := some (w.row.getD {}) } else w)
  | .getVMByClusterAndVmid, o, w => (o.elim .error w.lookup, w)
  | .getGuestToolsState, ok, w => (if ok then w.row else none, w)
  | .getVMConfig, ok, w => (if ok then some w.config else none, w)
  | .setGuestToolsStage stage version prior, ok, w =>
    (ok, if ok then w.setStage stage version prior else w)
  | .setVMConfig key value, ok, w => (ok, if ok then w.setVMConfig key value else w)
  | .finishGuestToolsUpdate stage restored, ok, w =>
    (ok, if ok then { w with row := w.row.map (·.finish stage restored) } else w)
  | .clearGuestToolsCDROMRestore, ok, w =>
    (ok, if ok then { w with row := w.row.map fun row => { row with prior := none } } else w)
  | .listGuestToolsInFlight, ok, w => (if ok then some w.inFlight else none, w)
  | .listGuestToolsPendingCDROMRestore, ok, w => (if ok then some w.pending else none, w)
  | .setListed listed, _, w => ((), { w with listed })
  | .createClient, o, w | .stagedBefore, o, w | .getVirtioWinConfig, o, w | .detectScript, o, w
  | .getGuestToolsPolicy, o, w | .getGuestToolsConfig, o, w | .isoPresent, o, w
  | .resolveTarget, o, w | .updaterTaskPresence, o, w | .readResult, o, w | .needsUpdate .., o, w
  | .getNode, o, w | .createVMSnapshot, o, w | .clearResultFile, o, w | .writeUpdater, o, w
  | .registerTask, o, w | .startTask, o, w | .deleteTask, o, w | .setGuestToolsUptime _, o, w
  | .pastCeiling .., o, w | .insertAuditLog, o, w => (o, w)

inductive Role where
  | pass (cfg : PassConfig)
  | reconcile
  | stageOne (runNow : Bool)
  | cancelOne
  /-- The collector. -/
  | churn (listed : Bool)

def code : Role → Code Unit
  | .pass cfg => runClusterPass cfg
  | .reconcile => reconcile
  | .stageOne runNow => stageOne runNow
  | .cancelOne => cancelOne
  | .churn listed => call (.setListed listed)

abbrev guestTools : System where
  sig := sig
  State := World
  Role := Role
  code := code
  Outcome := Stmt.Outcome
  exec := fun _ _ e o w => some (exec e o w)

end Nexara.GuestTools
