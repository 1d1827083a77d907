import Nexara.Conc.Protocol
import Nexara.GuestTools.Engine

/-!
# What an operation holds in its hands

Between reading the guest's row and acting on what it read an operation holds the row; between
reading the guest's configuration and its last write a staging holds a plan (`Phase`). All code
follows this (`phases_followed`): a drive is put back only as a row that was read records it, the
record is given up only for a drive that was put back (or a guest that was not found), and the ISO
is attached only where the marker says so.
-/

namespace Nexara.GuestTools

open Conc Protocol

/-! ## Plans -/

/-- The drive a staging borrows and what it records: the same for every ISO. -/
def place (config : Config) : Option Prior :=
  (planCDROM config "").map fun p => (p.key, restoreActionFor p config)

theorem place_eq (config : Config) (volid : String) : place config =
    (planCDROM config volid).map fun p => (p.key, restoreActionFor p config) := by
  unfold place planCDROM
  cases config.cdromDrives.find? (·.isVirtioWin) with
  | some drive => rfl
  | none => cases cdromSlots.find? (fun slot => (config slot).isNone) <;> rfl

/-! ## Phases -/

inductive Phase where
  | out
  /-- Holds rows it has read; the retry of a pending restore gives them up when the restore fails. -/
  | reading (retry : Bool) (rows : List Row)
  | restored (key : Key)
  | gone
  | planned (prior : Prior)
  | marked (prior : Prior)
  deriving DecidableEq

/-- From the read of the configuration to the last write of a staging. -/
def Phase.isStaging : Phase → Bool
  | .planned _ | .marked _ => true
  | _ => false

/-- From the first read of a row to the last write that acts on it. -/
def Phase.holdsRow : Phase → Bool
  | .reading .. | .restored _ => true
  | _ => false

def Role.stages : Role → Bool
  | .pass _ | .stageOne _ => true
  | _ => false

def Phase.plan : Option Config → Phase
  | none => .out
  | some config => (place config).elim .out .planned

def Phase.reread : Role → Phase → Option Row → Phase
  | _, .reading retry rows, some row => .reading retry (row :: rows)
  | .cancelOne, .out, some row => .reading false [row]
  | .reconcile, .out, some row =>
    if row.stage.isInFlight || row.prior.isNone then .out else .reading true [row]
  | _, l, _ => l

def Phase.look : Role → Phase → Lookup → Phase
  | .reconcile, .out, .noRows => .gone
  | .cancelOne, _, .error | .cancelOne, _, .noRows => .out
  | _, l, _ => l

def Phase.connect : Role → Phase → Bool → Phase
  | .cancelOne, _, false => .out
  | _, l, _ => l

def Phase.mark : Phase → Bool → Phase
  | .planned p, true => .marked p
  | _, _ => .out

def Phase.configure : Phase → Key → Bool → Phase
  | .reading .., key, true => .restored key
  | .reading true _, _, false => .out
  | l, _, _ => l

def Phase.next (r : Role) (l : Phase) : (e : Stmt) → e.Ans → Phase
  | .getVMConfig, config => .plan config
  | .createVMSnapshot, ok => if ok then l else .out
  | .setGuestToolsStage .., ok => l.mark ok
  | .setVMConfig key _, ok => l.configure key ok
  | .finishGuestToolsUpdate .., _ | .clearGuestToolsCDROMRestore, _
  | .listGuestToolsPendingCDROMRestore, _ => .out
  | .getGuestToolsState, row => .reread r l row
  | .listGuestToolsInFlight, rows => (rows.bind id).elim .out fun row => .reading false [row]
  | .getVMByClusterAndVmid, vm => .look r l vm
  | .getNode, ok | .createClient, ok => .connect r l ok
  | _, _ => l

/-- What an operation holds after a statement. -/
inductive Phase.Next (r : Role) (l : Phase) : (e : Stmt) → e.Ans → Phase → Prop
  | kept {e : Stmt} {a : e.Ans} : Next r l e a l
  | ended {e : Stmt} {a : e.Ans} : Next r l e a .out
  | read {retry : Bool} {rows : List Row} {row : Row}
      (hl : l = .out ∧ rows = [] ∨ l = .reading retry rows) :
      Next r l .getGuestToolsState (some row) (.reading retry (row :: rows))
  | listed {row : Row} : Next r l .listGuestToolsInFlight (some (some row)) (.reading false [row])
  | gone (hr : r = .reconcile) (hl : l = .out) : Next r l .getVMByClusterAndVmid .noRows .gone
  | planned {config : Config} {p : Prior} (hp : place config = some p) :
      Next r l .getVMConfig (some config) (.planned p)
  | marked {stage : Stage} {version : String} {p prior : Prior} (hl : l = .planned p) :
      Next r l (.setGuestToolsStage stage version prior) true (.marked p)
  | restored {retry : Bool} {rows : List Row} {key : Key} {value : Option Drive}
      (hl : l = .reading retry rows) : Next r l (.setVMConfig key value) true (.restored key)

theorem next_reread (r : Role) (l : Phase) (row : Option Row) :
    Phase.Next r l .getGuestToolsState row (.reread r l row) := by
  cases row with
  | none => cases r <;> cases l <;> exact .kept
  | some row =>
    cases l with
    | reading retry rows => exact .read (.inr rfl)
    | out =>
      cases r with
      | cancelOne => exact .read (.inl ⟨rfl, rfl⟩)
      | reconcile =>
        show Phase.Next _ _ _ _ (if _ then .out else .reading true [row])
        split_ifs
        · exact .ended
        · exact .read (.inl ⟨rfl, rfl⟩)
      | _ => exact .kept
    | _ => cases r <;> exact .kept

theorem next_cases (r : Role) (l : Phase) (e : Stmt) (a : e.Ans) :
    Phase.Next r l e a (.next r l e a) := by
  cases e with
  | createClient | getNode => cases r <;> cases a <;> first | exact .kept | exact .ended
  | getVMByClusterAndVmid =>
    cases r with
    | reconcile =>
      cases l with
      | out => cases a <;> first | exact .kept | exact .gone rfl rfl
      | _ => exact .kept
    | cancelOne => cases a <;> first | exact .kept | exact .ended
    | _ => exact .kept
  | getGuestToolsState => exact next_reread r l a
  | getVMConfig =>
    cases a with
    | none => exact .ended
    | some config =>
      show Phase.Next r l _ _ ((place config).elim .out .planned)
      cases hp : place config with
      | none => exact .ended
      | some p => exact .planned hp
  | createVMSnapshot => cases a <;> first | exact .kept | exact .ended
  | setGuestToolsStage => cases l <;> cases a <;> first | exact .ended | exact .marked rfl
  | setVMConfig key value =>
    cases l with
    | reading retry rows =>
      cases a with
      | true => exact .restored rfl
      | false => cases retry <;> first | exact .kept | exact .ended
    | _ => exact .kept
  | finishGuestToolsUpdate | clearGuestToolsCDROMRestore | listGuestToolsPendingCDROMRestore =>
    exact .ended
  | listGuestToolsInFlight => rcases a with _ | _ | row <;> first | exact .ended | exact .listed
  | _ => exact .kept

/-- A drive may be set to what a row records, or to the ISO where the marker says. -/
def Phase.mayConfigure (r : Role) (l : Phase) (key : Key) (value : Option Drive) : Prop :=
  match l with
  | .reading _ rows =>
    ∃ row ∈ rows, ∃ action, row.prior = some (key, action) ∧ value = action.value
  | .marked prior =>
    r.stages = true ∧ key = prior.1 ∧ ∃ volid, value = some (.cdrom (.virtioWin volid))
  | _ => False

def Phase.mayMark (l : Phase) (stage : Stage) (prior : Prior) : Prop :=
  l = .planned prior ∧ stage = .staging ∨ l = .marked prior ∧ stage ≠ .staging

/-- The record of the borrowed drive may be given up. -/
def Phase.mayRelease : Phase → Prop
  | .reading _ rows => ∃ row ∈ rows, row.prior = none
  | .restored _ => True
  | _ => False

def Phase.may (r : Role) (l : Phase) : Stmt → Prop
  | .setVMConfig key value => l.mayConfigure r key value
  | .setGuestToolsStage stage _ prior => l.mayMark stage prior
  | .finishGuestToolsUpdate stage cdromRestored =>
    stage.isInFlight = false ∧ (cdromRestored = true → l.mayRelease) ∧
      (r.stages = true ∨ l.holdsRow = true)
  | .clearGuestToolsCDROMRestore => l = .gone ∨ ∃ key, l = .restored key
  | .getVMConfig | .deleteGuestToolsStateForVanishedGuests _ => l = .out
  | _ => True

abbrev phases : Protocol guestTools where
  Loc := Phase
  init := .out
  next := Phase.next
  may := Phase.may

/-! ## The code follows -/

def Idle : Stmt → Prop
  | .listGuestToolsFleet | .countGuestToolsInFlightForCluster | .getVirtioWinConfig | .stagedBefore
  | .detectScript | .upsertGuestToolsDetection | .getGuestToolsPolicy | .resolveTarget
  | .needsUpdate .. | .getGuestToolsConfig | .isoPresent | .clearResultFile | .writeUpdater
  | .registerTask | .startTask | .deleteTask | .updaterTaskPresence | .readResult
  | .setGuestToolsUptime _ | .pastCeiling .. | .insertAuditLog | .setListed _ => True
  | _ => False

section

variable {r : Role} {l : Phase} {α β : Type}

attribute [local simp] call thenTry Option.forall Phase.may Phase.next Phase.mayConfigure
  Phase.configure Phase.mayMark Phase.mark Phase.plan Phase.reread Phase.look Phase.connect
  Phase.holdsRow Stage.isInFlight markFailed

@[local simp] theorem forall_lookup {p : Lookup → Prop} :
    (∀ x, p x) ↔ p .error ∧ p .noRows ∧ ∀ vm, p (.found vm) :=
  ⟨fun h => ⟨h _, h _, fun _ => h _⟩, fun h x => by cases x <;> simp [h]⟩

@[local simp] theorem forall_presence {p : TaskPresence → Prop} :
    (∀ x, p x) ↔ p .unknown ∧ p .absent ∧ p .ready ∧ p .running :=
  ⟨fun h => ⟨h _, h _, h _, h _⟩, fun h x => by cases x <;> simp [h]⟩

/-! ### Staging -/

/-- A staging that has not failed is over; one that failed after its marker is cleaned up by its
caller. -/
theorem stage_follows (hr : r.stages = true) {p : StageParams} {Q : StageResult → Phase → Prop}
    (hout : ∀ res, Q res .out) (hfailed : ∀ prior, Q (.failed true) (.marked prior)) :
    phases.Follows r (stage p) Q .out := by
  simp [stage, hout]
  intro config
  cases hp : planCDROM config p.isoVolid with
  | none => simp [place_eq _ p.isoVolid, hp, hout]
  | some placement =>
    simp +contextual [place_eq _ p.isoVolid, hp, borrow, snapshot, arm, attach, startNow, hr, hout, hfailed]

/-! ### Restores -/

variable {rows : List Row} {state : Row} {Q : Bool → Phase → Prop}

theorem restoreCDROM_follows {retry : Bool} (hmem : state ∈ rows)
    (hok : ∀ l, l.holdsRow = true → l.mayRelease → (state.prior ≠ none → ∃ key, l = .restored key) →
      Q true l) (hfailed : Q false (if retry then .out else .reading retry rows)) :
    phases.Follows r (restoreCDROM state.prior) Q (.reading retry rows) := by
  cases hp : state.prior with
  | none => exact hok _ rfl ⟨state, hmem, hp⟩ fun h => (h hp).elim
  | some prior =>
    refine ⟨⟨state, hmem, prior.2, hp, rfl⟩, fun ok => ?_⟩
    cases ok with
    | false => cases retry <;> exact hfailed
    | true => exact hok _ rfl trivial fun _ => ⟨prior.1, rfl⟩

theorem finishCancel_follows (hmem : state ∈ rows) (hQ : ∀ ok, Q ok .out) :
    phases.Follows r (finishCancel state) Q (.reading false rows) := by
  refine follows_bind.mpr (restoreCDROM_follows hmem (fun l hrow hrelease _ => ?_) ?_)
  · exact ⟨⟨rfl, fun _ => hrelease, .inr hrow⟩, fun ok => hQ ok⟩
  · exact ⟨⟨rfl, nofun, .inr rfl⟩, fun ok => hQ ok⟩

/-! ### Reconciling -/

/-- Holds rows it has read, or is through with them. -/
def Reading (l : Phase) : Prop := l = .out ∨ ∃ rows, l = .reading false rows

attribute [local simp] Reading

theorem withdraw_follows {agentUp : Bool} (hmem : state ∈ rows)
    (hout : ∀ ok, Q ok .out) (hread : ∀ ok rows, Q ok (.reading false rows)) :
    phases.Follows r (withdraw state agentUp) Q (.reading false rows) := by
  cases agentUp <;> simp [withdraw, resolveTargetForState, disarm, deleteUpdaterTask, hout, hread,
    finishCancel_follows hmem]

theorem withdrawSuperseded_follows {agentUp : Bool} {uptime : ℕ}
    (hout : ∀ ok, Q ok .out) (hread : ∀ ok rows, Q ok (.reading false rows)) :
    phases.Follows r (withdrawSuperseded state agentUp uptime) Q (.reading false rows) := by
  simp [withdrawSuperseded, hread, withdraw_follows (.head _) hout hread]

theorem expireIfStale_follows (hmem : state ∈ rows) (hexpired : Q true .out)
    (hQ : ∀ rows, state ∈ rows → Q false (.reading false rows)) :
    phases.Follows r (expireIfStale state) Q (.reading false rows) := by
  cases h : state.stagedAt with
  | none => simpa [expireIfStale, h] using hQ rows hmem
  | some stagedAt => simp [expireIfStale, h, expire, hexpired, hQ, hmem]

theorem recordResult_follows {result : UpdateResult} (hmem : state ∈ rows) :
    phases.Follows r (recordResult state result) (fun _ => Reading) (.reading false rows) := by
  have hstage : result.stage.isInFlight = false := by
    unfold UpdateResult.stage
    split_ifs <;> rfl
  refine follows_ite.mpr ⟨fun _ => .inr ⟨rows, rfl⟩, fun _ => follows_bind.mpr ?_⟩
  refine restoreCDROM_follows hmem (fun l hrow hrelease _ => ?_) ?_
  · exact ⟨⟨hstage, fun _ => hrelease, .inr hrow⟩, by simp [detect]⟩
  · exact ⟨⟨hstage, nofun, .inr rfl⟩, by simp [detect]⟩

theorem reconcileOne_follows (hmem : state ∈ rows) :
    phases.Follows .reconcile (reconcileOne state) (fun _ => Reading) (.reading false rows) := by
  have hguest (vm : Vm) (rows : List Row) (hmem : state ∈ rows) : phases.Follows .reconcile
      (reconcileGuest state vm) (fun _ => Reading) (.reading false rows) := by
    simp [reconcileGuest, awaitResult, withdrawSuperseded_follows, recordResult_follows hmem]
  simp [reconcileOne, reconcileFound]
  exact fun vm => expireIfStale_follows hmem (by simp) fun rows hrows => by
    simp [hguest vm rows hrows]

theorem restorePending_follows :
    phases.Follows .reconcile restorePending (fun _ l' => l' = .out) .out := by
  refine follows_stmt trivial fun fresh => ?_
  cases fresh with
  | none => exact rfl
  | some fresh =>
    show phases.Follows .reconcile (if _ then _ else _) _
      (if fresh.stage.isInFlight || fresh.prior.isNone then .out else .reading true [fresh])
    split_ifs with hs
    · exact rfl
    · have hprior : fresh.prior ≠ none := fun h => hs (by rw [h]; exact Bool.or_true _)
      refine follows_bind.mpr (restoreCDROM_follows (.head _) (fun l _ _ hl => ?_) rfl)
      exact ⟨.inr (hl hprior), fun _ => rfl⟩

theorem retryPendingCDROMRestores_follows :
    phases.Follows .reconcile retryPendingCDROMRestores (fun _ l' => l' = .out) l := by
  simp [retryPendingCDROMRestores, retryPendingCDROMRestore, clearCDROMRestore, nodeAndClient,
    restorePending_follows]

theorem reconcile_follows : phases.Follows .reconcile reconcile (fun _ l' => l' = .out) .out := by
  refine follows_stmt trivial fun row => ?_
  rcases row with _ | _ | row
  · exact rfl
  · exact retryPendingCDROMRestores_follows
  · exact follows_bind.mpr ((reconcileOne_follows (.head _)).mono
      fun _ _ _ => retryPendingCDROMRestores_follows)

/-! ### Passes and requests -/

theorem passStage_follows {p : StageParams} (hr : r.stages = true) :
    phases.Follows r (passStage p) (fun _ l' => l' = .out) .out := by
  refine follows_bind.mpr (stage_follows hr (fun res => ?_) fun prior => ?_)
  · cases res <;> simp [hr]
  · simp [hr]

theorem passFleet_follows {cfg : PassConfig} {fleet : Fleet} :
    phases.Follows (.pass cfg) (passFleet cfg fleet) (fun _ l' => l' = .out) .out := by
  have hr : (Role.pass cfg).stages = true := rfl
  cases h : fleet.guest <;>
    simp [passFleet, sweep, h, passGuest, detect, passUpdate, passStage_follows hr]

theorem stageEligible_follows {snapshotBefore runNow runNow' : Bool} :
    phases.Follows (.stageOne runNow') (stageEligible snapshotBefore runNow)
      (fun _ l' => l' = .out) .out := by
  simp [stageEligible, nodeAndClient]
  intro target storage _
  refine stage_follows rfl (fun res => ?_) fun prior => ⟨⟨rfl, nofun, .inl rfl⟩, fun _ => rfl⟩
  rcases res with _ | _ | _ | _ <;> simp [Role.stages]

theorem cancelOne_follows : phases.Follows .cancelOne cancelOne (fun _ l' => l' = .out) .out := by
  have hcancel (state : Row) : phases.Follows .cancelOne (finishCancel state)
      (fun _ l' => l' = .out) (.reading false [state]) :=
    finishCancel_follows (.head _) fun _ => rfl
  simp [cancelOne, nodeAndClient, cancelStaged, hcancel]

theorem phases_followed : phases.Followed (· = .out) := by
  intro r
  cases r with
  | pass cfg => simp [code, runClusterPass, passFleet_follows]
  | reconcile => exact reconcile_follows
  | stageOne runNow => simp [code, stageOne, stageEligible_follows]
  | cancelOne => exact cancelOne_follows
  | churn listed => exact ⟨trivial, fun _ => rfl⟩

end

end Nexara.GuestTools
