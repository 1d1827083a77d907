import Nexara.Migration.Orchestrator

/-!
# Requests for one migration job

Any number of execute, check and cancel requests for one job, interleaved statement by statement.
What an execution has done so far is read off its history: a protocol says which of the statements
that matter to the job's status a party may still issue (`jobs`), and all of the orchestrator's code
follows it (`jobs_followed`).
-/

namespace Nexara.Migration

open Conc

inductive Role where
  | execute (userID : Option ℕ) (polls : ℕ)
  | check
  | cancel

def code : Role → Code Unit
  | .execute userID polls => executeRequest userID polls
  | .check => runCheckRequest
  | .cancel => cancelRequest

abbrev requests : System where
  sig := sig
  State := World
  Role := Role
  code := code
  Outcome := Stmt.Outcome
  exec := fun _ _ => exec

/-- A Proxmox call that moves the guest or its disks. -/
def Stmt.moves : Stmt → Bool
  | .migrate | .remoteMigrate _ | .moveDisk .. => true
  | _ => false

/-- The call that dispatches a job: a migration, or the first disk move. -/
def Stmt.dispatches : Stmt → Bool
  | .migrate | .remoteMigrate _ => true
  | .moveDisk _ _ step => step = 0
  | _ => false

/-! ## What an execution has done -/

inductive Phase where
  | start
  /-- The handler found the job executable. -/
  | eligible
  | refused
  /-- The execution runs and has not written the status; whether it has dispatched. -/
  | launched (dispatched : Bool)
  | started
  | finished
  deriving DecidableEq

def Phase.next (l : Phase) : (e : Stmt) → e.Ans → Phase
  | .getMigrationJob, a => match l with
    | .start => if (a : Option Job).any (·.status.executable) then .eligible else .refused
    | _ => l
  | .reserveSlot, ok => if ok = true then .launched false else .refused
  | .migrate, _ | .remoteMigrate _, _ => .launched true
  | .moveDisk _ _ step, _ => if step = 0 then .launched true else l
  | .setMigrationJobStarted _, _ => .started
  | .completeMigrationJob .., _ => .finished
  | _, _ => l

/-- The phases in which an execution may write the job's outcome. -/
def Phase.Running : Phase → Prop
  | .launched _ | .started => True
  | _ => False

abbrev jobs : Protocol requests where
  Loc := Phase
  init := .start
  next r l e a := match r with
    | .execute .. => l.next e a
    | _ => l
  may
    | .execute .., l, e => match e with
      | .getMigrationJob => l = .start ∨ l = .launched false
      | .reserveSlot => l = .eligible
      | .migrate | .remoteMigrate _ => l = .launched false
      | .moveDisk _ _ step => if step = 0 then l = .launched false else l = .started
      | .setMigrationJobStarted _ => l = .launched true
      | .completeMigrationJob _ status _ => l.Running ∧ (status = .completed ∨ status = .failed)
      | .updateMigrationJobStatus _ | .updateMigrationJobChecks _ | .cancelMigrationJob
      | .shutdown => False
      | _ => True
    | .check, _, e => match e with
      | .updateMigrationJobStatus status => status = .checking
      | .updateMigrationJobChecks status => status = .pending ∨ status = .failed
      | .getMigrationJob | .requireJobNodes | .clientForCluster _ | .runPreFlightChecks => True
      | _ => False
    | .cancel, _, e => e = .getMigrationJob ∨ e = .cancelMigrationJob

section

variable {userID : Option ℕ} {polls : ℕ} {mc : MigrationContext} {upid node : String} {l : Phase}

attribute [local simp] call Phase.next Phase.Running Option.forall Prog.forall_except

@[local simp] theorem auditLog_follows {ctx : Ctx} {row : AuditRow} {Q : Unit → Phase → Prop} :
    jobs.Follows (.execute userID polls) (auditLog ctx mc row) Q l ↔ Q () l := by
  cases hu : mc.userID <;> simp [auditLog, hu]

@[local simp] theorem fail_follows {errMsg : String} {mc : Option MigrationContext}
    {Q : Unit → Phase → Prop} :
    jobs.Follows (.execute userID polls) (failJob errMsg mc) Q l ↔ l.Running ∧ Q () .finished := by
  cases mc <;> simp [failJob, cleanupCtxFor]

theorem poll_follows (n : ℕ) (since : Option ℕ) : jobs.Follows (.execute userID polls)
    (pollTaskStatus node upid mc n since) (fun _ _ => True) Phase.started := by
  induction n generalizing since with
  | zero => trivial
  | succ n ih => cases since <;> simp [pollTaskStatus, abandonTaskRow, cleanupCtxFor, finishPoll, ih]

theorem wait_follows {Q : Option (Except String Unit) → Phase → Prop} (hQ : ∀ res, Q res l) (n : ℕ) :
    jobs.Follows (.execute userID polls) (waitForTask node upid n) Q l := by
  induction n with
  | zero => exact hQ _
  | succ n ih => simp [waitForTask, hQ, ih]

theorem startAndPoll_follows :
    jobs.Follows (.execute userID polls) (startAndPollMigration mc upid polls) (fun _ _ => True)
      (Phase.launched true) := by
  simp [startAndPollMigration, poll_follows]

theorem executeIntra_follows {job : Job} {Q : Except String String → Phase → Prop}
    (hok : ∀ upid, Q (.ok upid) (.launched true))
    (herror : ∀ err dispatched, Q (.error err) (.launched dispatched)) :
    jobs.Follows (.execute userID polls) (executeIntraCluster job) Q (Phase.launched false) := by
  cases htype : job.vmType <;> simp [executeIntraCluster, htype, hok, herror]

theorem moveDisk_follows {where_ : String} {step : ℕ} {move : DiskMove} {first : Bool}
    (hl : if step = 0 then l = .launched false ∧ first = true else l = .started ∧ first = false)
    {Q : Bool → Phase → Prop} (hmore : Q true .started) (hover : ∀ l, Q false l) :
    jobs.Follows (.execute userID polls) (moveDisk mc node where_ polls step first move) Q l := by
  by_cases h : step = 0
  · obtain ⟨rfl, rfl⟩ : l = .launched false ∧ first = true := by simpa [h] using hl
    simp [moveDisk, h, hover]
    exact fun upid => wait_follows (by simp [hmore, hover]) _
  · obtain ⟨rfl, rfl⟩ : l = .started ∧ first = false := by simpa [h] using hl
    simp [moveDisk, h, hover]
    exact fun upid => wait_follows (by simp [hmore, hover]) _

theorem storageMoves_follows : ∀ (step : ℕ) (moves : List DiskMove) (l : Phase),
    (if step = 0 then l = .launched false ∧ moves ≠ [] else l = .started) →
    jobs.Follows (.execute userID polls) (storageMoves mc polls step moves) (fun _ _ => True) l
  | step, [], l, hl => by
    have hl : l = .started := by split_ifs at hl <;> simp_all
    simp [storageMoves, hl]
  | step, move :: moves, l, hl => by
    refine Protocol.follows_bind.mpr (moveDisk_follows ?_ ?_ fun _ => trivial)
    · by_cases h : step = 0 <;> simp_all
    · exact storageMoves_follows (step + 1) moves _ (by simp)

theorem targetMoves_follows (step : ℕ) (moves : List DiskMove) :
    jobs.Follows (.execute userID polls) (targetMoves mc polls step moves) (fun _ _ => True)
      Phase.started := by
  induction moves generalizing step with
  | nil => simp [targetMoves]
  | cons move moves ih =>
    exact Protocol.follows_bind.mpr (moveDisk_follows (by simp) (ih (step + 1)) fun _ => trivial)

theorem executeStorage_follows :
    jobs.Follows (.execute userID polls) (executeStorageMigration mc polls) (fun _ _ => True)
      (Phase.launched false) := by
  simp [executeStorageMigration]
  intro disks _ hmoves
  split <;> simp [storageMoves_follows, hmoves]

theorem executeBoth_follows :
    jobs.Follows (.execute userID polls) (executeBothMigration mc polls) (fun _ _ => True)
      (Phase.launched false) := by
  refine Protocol.follows_bind.mpr (executeIntra_follows (fun upid => ?_) (by simp))
  simp
  refine wait_follows ?_ _
  rintro (_ | _ | _) <;> simp [storagePhase, targetMoves_follows]

theorem dispatchJob_follows :
    jobs.Follows (.execute userID polls) (dispatchJob mc polls) (fun _ _ => True)
      (Phase.launched false) := by
  unfold dispatchJob
  cases mc.job.migrationType with
  | unknown name => simp
  | crossCluster => cases htype : mc.job.vmType <;>
      simp [executeCrossCluster, htype, startAndPoll_follows]
  | intraCluster =>
    cases mc.job.migrationMode with
    | storage => exact executeStorage_follows
    | both => exact executeBoth_follows
    | live => exact Protocol.follows_bind.mpr (executeIntra_follows (fun _ => startAndPoll_follows)
        (by simp))

theorem jobs_followed : jobs.Followed fun _ => True := by
  intro r
  cases r with
  | execute userID polls => simp [code, executeRequest, execute, dispatchJob_follows]
  | check => simp [code, runCheckRequest, runPreFlight, saveCheckResults]
  | cancel => simp [code, cancelRequest]

end

def phase (k : ℕ) (log : requests.Log) : Phase := jobs.loc k log

end Nexara.Migration
