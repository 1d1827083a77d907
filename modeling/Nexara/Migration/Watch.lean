import Nexara.Migration.Orchestrator

/-!
# A watched migration ends on record

`pollTaskStatus` beside a shutdown that may come at any moment. Its exits on a cancelled context and
past the stale grace write through `cleanupCtxFor`; the exit on a task that has stopped writes
through the shutdown context itself, and a shutdown between the poll's answer and those writes
leaves the task row running and the job migrating (`stopped_task_left_running`). The same happens to
a write whose context `cleanupCtxFor` found alive a moment before. `Uncut` are the runs in which the
shutdown falls into none of these windows.
-/

namespace Nexara.Migration

open Conc Protocol System

inductive WatchRole where
  | poll (node upid : String) (mc : MigrationContext) (polls : ℕ)
  | shutdown

def watchCode : WatchRole → Code Unit
  | .poll node upid mc polls => pollTaskStatus node upid mc polls none
  | .shutdown => call .shutdown

abbrev watch : System where
  sig := sig
  State := World
  Role := WatchRole
  code := watchCode
  Outcome := Stmt.Outcome
  exec := fun _ _ => exec

/-- A write under a live context succeeds. -/
def Connected : watch.Cond := fun _ _ _ e o _ =>
  match e with
  | .completeMigrationJob .. | .reconcileTaskHistory .. => o
  | _ => true

/-! ## What a loop has recorded -/

/-- Why a loop is about to write through the shutdown context. -/
inductive Window where
  | closed
  /-- A poll has answered that the task has stopped; the job is written last. -/
  | stopped
  /-- `cleanupCtxFor` has found the context alive, for one write. -/
  | alive
  deriving DecidableEq

/-- The task whose row a loop has written, whether it has written its job, and what it is about to
write. -/
structure Recorded where
  task : Option String := none
  job : Bool := false
  window : Window := .closed

def Recorded.next (l : Recorded) : (e : Stmt) → e.Ans → Recorded
  | .reconcileTaskHistory _ upid .., _ =>
    { l with task := some upid, window := if l.window = .alive then .closed else l.window }
  | .completeMigrationJob .., _ => { l with job := true, window := .closed }
  | .getTaskStatus .., .ok status =>
    { l with window := if status.status = "running" then .closed else .stopped }
  | .ctxErr, cancelled => { l with window := if cancelled = true then .closed else .alive }
  | _, _ => l

abbrev watches : Protocol watch where
  Loc := Recorded
  init := {}
  next _ l e a := l.next e a
  may
    | .poll .., l, e => match e with
      | .reconcileTaskHistory ctx _ status _ =>
        status ≠ .running ∧ (ctx = .execute → l.window ≠ .closed)
      | .completeMigrationJob ctx status _ =>
        (status = .completed ∨ status = .failed) ∧ (ctx = .execute → l.window ≠ .closed)
      | .returned upid => l.task = some upid ∧ l.job = true
      | .select | .getTaskStatus .. | .timeNow | .ctxErr | .updateMigrationJobProgress _
      | .insertAuditLog .. => True
      | _ => False
    | .shutdown, _, e => e = .shutdown

/-- A loop is about to write through the shutdown context. -/
def exposed (log : watch.Log) : Bool :=
  log.any fun en => (watches.loc en.party log : Recorded).window ≠ .closed

/-- The shutdown does not come while a loop is about to write through its context, and a later poll
is not told that the task has stopped. -/
def Uncut : watch.Cond := fun log _ _ e o w =>
  match e with
  | .shutdown => !exposed log
  | .getTaskStatus .. => match (o : Except String TaskStatus) with
    | .ok status => !w.cancelled || status.status = "running"
    | .error _ => true
  | _ => true

def ConnectedAndUncut : watch.Cond := fun log i r e o w =>
  Connected log i r e o w && Uncut log i r e o w

section

variable {node upid : String} {mc : MigrationContext} {polls : ℕ} {l : Recorded}

attribute [local simp] call Recorded.next Prog.forall_except

theorem pollTaskStatus_follows {node' : String} {mc' : MigrationContext} (n : ℕ) (since : Option ℕ) :
    watches.Follows (.poll node upid mc polls) (pollTaskStatus node' upid mc' n since)
      (fun _ _ => True) l := by
  induction n generalizing since l with
  | zero => trivial
  | succ n ih =>
    have hended (ok : Bool) : (if ok then TaskState.completed else .failed) ≠ .running := by
      cases ok <;> simp
    cases since <;> cases hu : mc'.userID <;>
      simp [pollTaskStatus, abandonTaskRow, failJob, cleanupCtxFor, auditLog, hu, finishPoll,
        hended, ih] <;>
      intro status <;> by_cases hrun : status.status = "running" <;> simp [hrun]

end

theorem watches_followed : watches.Followed fun _ => True := by
  intro r
  cases r with
  | poll node upid mc polls => exact pollTaskStatus_follows polls none
  | shutdown => exact ⟨rfl, fun _ => trivial⟩

/-! ## The invariant -/

def Status.Ended (status : Status) : Prop := status = .completed ∨ status = .failed
deriving Decidable

def World.TaskEnded (w : World) (upid : String) : Prop :=
  ∀ t ∈ w.taskHistory, t.upid = upid → t.status ≠ .running
deriving Decidable

def World.OnRecord (w : World) (upid : String) : Prop := w.TaskEnded upid ∧ w.job.status.Ended

/-- What a loop has recorded is so, and the context it is about to write through is alive. -/
structure Recorded.Holds (l : Recorded) (w : World) : Prop where
  task : ∀ upid, l.task = some upid → w.TaskEnded upid
  job : l.job = true → w.job.status.Ended
  live : l.window ≠ .closed → w.cancelled = false

structure WatchInv (log : watch.Log) (w : World) : Prop where
  holds : ∀ k, (watches.loc k log : Recorded).Holds w
  /-- Every return found both rows final. -/
  returned : ∀ en ∈ log, ∀ upid, en.stmt = .returned upid → en.before.OnRecord upid

/-- Rows that are final stay so, and the context is as it was. -/
structure World.Keeps (w w' : World) : Prop where
  task : ∀ upid, w.TaskEnded upid → w'.TaskEnded upid
  job : w.job.status.Ended → w'.job.status.Ended
  ctx : w'.cancelled = w.cancelled

theorem World.keeps_of_eq {w w' : World} (htasks : w'.taskHistory = w.taskHistory)
    (hstatus : w'.job.status = w.job.status) (hctx : w'.cancelled = w.cancelled) : w.Keeps w' where
  task upid h := by unfold TaskEnded; rw [htasks]; exact h
  job h := by rw [hstatus]; exact h
  ctx := hctx

theorem TaskRow.reconcile_ended {t : TaskRow} {upid exit : String} {status : TaskState}
    (hstatus : status ≠ .running) (h : t.upid = upid ∨ t.status ≠ .running) :
    (t.reconcile upid status exit).status ≠ .running := by
  unfold TaskRow.reconcile
  split_ifs with hmatch
  · exact hstatus
  · obtain hupid | hended := h
    · exact fun hrun => hmatch ⟨hupid, hrun⟩
    · exact hended

variable {log : watch.Log} {w w' : World}

theorem Recorded.Holds.keeps {l : Recorded} (h : l.Holds w) (hw : w.Keeps w') : l.Holds w' :=
  ⟨fun upid hk => hw.task upid (h.task upid hk), fun hk => hw.job (h.job hk),
    fun hk => hw.ctx.trans (h.live hk)⟩

/-- What a loop writes through its context is written. -/
theorem Recorded.Holds.write {l : Recorded} (h : l.Holds w) {ctx : Ctx} {o : Bool}
    {f : World → World} (ho : o = true) (hctx : ctx = .execute → l.window ≠ .closed) :
    w.write ctx o f = (true, f w) := by
  refine World.write_of_live ho ?_
  by_cases hexec : ctx = .execute
  · rw [h.live (hctx hexec), Bool.and_false]
  · simp [hexec]

theorem closed_of_not_exposed (h : exposed log = false) (k : ℕ) :
    (watches.loc k log : Recorded).window = .closed := by
  by_contra hk
  obtain ⟨en, hen, rfl⟩ := seen_of_loc (T := watches) fun hs => hk (hs ▸ rfl)
  simpa [hk] using List.any_eq_false.1 h en hen

section

variable {i : ℕ} {r : WatchRole} {e : Stmt} {a : e.Ans} (h : WatchInv log w)

include h

theorem WatchInv.step (hw : w.Keeps w') (hself : (Recorded.next (watches.loc i log) e a).Holds w')
    (hret : ∀ upid, e = .returned upid → w.OnRecord upid) :
    WatchInv (⟨i, r, e, a, w⟩ :: log) w' := by
  constructor
  · exact forall_loc (T := watches)
      (p := fun _ (l : Recorded) => l.Holds w') hself fun k _ => (h.holds k).keeps hw
  · exact List.forall_mem_cons.mpr ⟨hret, h.returned⟩

theorem WatchInv.quiet (htasks : w'.taskHistory = w.taskHistory)
    (hstatus : w'.job.status = w.job.status) (hctx : w'.cancelled = w.cancelled)
    (hnext : ∀ l : Recorded, l.next e a = l)
    (hret : ∀ upid, e = .returned upid → w.OnRecord upid) :
    WatchInv (⟨i, r, e, a, w⟩ :: log) w' := by
  have hw := World.keeps_of_eq htasks hstatus hctx
  refine h.step hw ?_ hret
  rw [show Recorded.next (watches.loc i log) e a = watches.loc i log from hnext _]
  exact (h.holds i).keeps hw

theorem watchInv_step {o : e.Outcome} (hok : ConnectedAndUncut log i r e o w = true)
    (hmay : watches.may r (watches.loc i log) e) (hx : exec e o w = some (a, w')) :
    WatchInv (⟨i, r, e, a, w⟩ :: log) w' := by
  obtain ⟨hconn, huncut⟩ := Bool.and_eq_true_iff.1 hok
  cases r with
  | shutdown =>
    obtain rfl : e = .shutdown := hmay
    cases hx
    -- nobody is about to write
    have hclosed := closed_of_not_exposed ((Bool.not_eq_true' _).mp huncut)
    have hholds (k : ℕ) : (watches.loc k log : Recorded).Holds { w with cancelled := true } :=
      ⟨(h.holds k).task, (h.holds k).job, fun hopen => absurd (hclosed k) hopen⟩
    exact ⟨forall_loc (T := watches) (p := fun _ (l : Recorded) => l.Holds _) (hholds i)
      fun k _ => hholds k, List.forall_mem_cons.mpr ⟨nofun, h.returned⟩⟩
  | poll node upid mc polls =>
    have hself := h.holds i
    cases e with
    | reconcileTaskHistory ctx upid' status exitStatus =>
      replace hx : some (w.write ctx o _) = some (a, w') := hx
      rw [hself.write (o := o) hconn hmay.2] at hx
      cases hx
      have hended : ∀ upid'', upid' = upid'' ∨ w.TaskEnded upid'' → World.TaskEnded { w with
          taskHistory := w.taskHistory.map (TaskRow.reconcile upid' status exitStatus) } upid'' := by
        intro upid'' hor t' ht' hupid
        obtain ⟨t, ht, rfl⟩ := List.mem_map.1 ht'
        rw [TaskRow.reconcile_upid] at hupid
        exact TaskRow.reconcile_ended hmay.1
          (hor.imp (fun heq => hupid.trans heq.symm) fun hend => hend t ht hupid)
      refine h.step ⟨fun upid'' hend => hended upid'' (.inr hend), fun hend => hend, rfl⟩ ?_ nofun
      refine ⟨?_, hself.job, fun hopen => hself.live fun hclosed => hopen ?_⟩
      · rintro upid'' ⟨⟩
        exact hended upid' (.inl rfl)
      · simp [Recorded.next, hclosed]
    | completeMigrationJob ctx status errorMessage =>
      replace hx : some (w.write ctx o _) = some (a, w') := hx
      rw [hself.write (o := o) hconn hmay.2] at hx
      cases hx
      exact h.step ⟨fun _ hend => hend, fun _ => hmay.1, rfl⟩
        ⟨hself.task, fun _ => hmay.1, fun hopen => absurd rfl hopen⟩ nofun
    | returned upid' =>
      cases hx
      refine h.quiet rfl rfl rfl (fun _ => rfl) ?_
      rintro _ ⟨⟩
      exact ⟨hself.task upid' hmay.1, hself.job hmay.2⟩
    | updateMigrationJobProgress _ | insertAuditLog _ _ =>
      obtain rfl | rfl := World.write_cases hx <;> exact h.quiet rfl rfl rfl (fun _ => rfl) nofun
    | select =>
      replace hx : (if o && !w.cancelled then none else some (o, w)) = some (a, w') := hx
      split at hx <;> cases hx
      exact h.quiet rfl rfl rfl (fun _ => rfl) nofun
    | timeNow =>
      cases hx
      exact h.quiet rfl rfl rfl (fun _ => rfl) nofun
    | ctxErr =>
      cases hx
      refine h.step (World.keeps_of_eq rfl rfl rfl) ⟨hself.task, hself.job, fun hopen => ?_⟩ nofun
      simpa [Recorded.next] using hopen
    | getTaskStatus node' upid' =>
      cases hx
      refine h.step (World.keeps_of_eq rfl rfl rfl) ?_ nofun
      cases a with
      | error err => exact hself
      | ok status =>
        refine ⟨hself.task, hself.job, fun hopen => ?_⟩
        have hstopped : status.status ≠ "running" := by simpa [Recorded.next] using hopen
        simpa [Uncut, hstopped] using huncut
    | getMigrationJob | reserveSlot | updateMigrationJobStatus | updateMigrationJobChecks
    | cancelMigrationJob | setMigrationJobStarted | insertTaskHistory | requireJobNodes
    | clientForCluster | runPreFlightChecks | targetToken | discoverDisks | migrate | remoteMigrate
    | moveDisk | shutdown => exact absurd hmay id

end

/-! ## Runs -/

/-- If writes under a live context succeed, and the shutdown does not come while a loop is about to
write through its context, both rows are final whenever `pollTaskStatus` returns. -/
theorem watch_ends_on_record (w : World) (pool : watch.Pool)
    (hrun : watch.Reach ConnectedAndUncut (Pool.idle w) pool) (en : watch.Entry)
    (hen : en ∈ pool.log) (upid : String) (hret : en.stmt = .returned upid) :
    en.before.OnRecord upid := by
  have h : WatchInv pool.log pool.shared := invariant watches_followed
    ⟨fun _ => ⟨nofun, nofun, fun hopen => absurd rfl hopen⟩, by simp⟩
    (fun h => watchInv_step h) hrun
  exact h.returned en hen upid hret

/-! ## One watch -/

def watchedJob : Job where
  status := .migrating
  migrationType := .intraCluster
  upid := "UPID:pve1:1"

def watchedWorld : World where
  job := watchedJob
  taskHistory := [{ upid := "UPID:pve1:1", node := "pve1", taskType := "migrate", status := .running }]

def stopping : watch.Oracle := calm "" { status := "stopped", exitStatus := "OK" }

def onePoll : WatchRole := .poll "pve1" "UPID:pve1:1" { job := watchedJob, userID := none } 1

def interrupted : watch.Oracle
  | .select => true
  | e => stopping e

/-- The server has shut down, and the loop ends on its context. -/
theorem watch_ends_on_record_interrupted :
    ∃ pool, watch.Reach ConnectedAndUncut (Pool.idle watchedWorld) pool ∧
      ∃ en ∈ pool.log, en.stmt = .returned "UPID:pve1:1" ∧ en.before.cancelled = true ∧
        en.before.OnRecord "UPID:pve1:1" := by
  obtain ⟨pool, hreach, en, hen, hret, hcancelled⟩ := exists_reach (M := watch) ConnectedAndUncut
    watchedWorld ([.start onePoll, .start .shutdown, .step 1 stopping] ++
      List.replicate 6 (.step 0 interrupted))
    (fun pool => ∃ en ∈ pool.log, en.stmt = .returned "UPID:pve1:1" ∧ en.before.cancelled = true)
    (by decide +kernel)
  exact ⟨pool, hreach, en, hen, hret, hcancelled, watch_ends_on_record _ pool hreach en hen _ hret⟩

/-- The server shuts down before the loop writes the end of its task: it returns with the row
running and the job migrating. -/
theorem stopped_task_left_running :
    ∃ pool, watch.Reach Connected (Pool.idle watchedWorld) pool ∧
      ∃ en ∈ pool.log, en.stmt = .returned "UPID:pve1:1" ∧
        ¬ en.before.TaskEnded "UPID:pve1:1" ∧ ¬ en.before.job.status.Ended :=
  exists_reach _ _ (.start onePoll :: .start .shutdown :: List.replicate 2 (.step 0 stopping) ++
    .step 1 stopping :: List.replicate 3 (.step 0 stopping)) _ (by decide +kernel)

end Nexara.Migration
