import Nexara.Migration.Requests

/-!
# One execution for a job, and one end

The handler of an execute request reads whether the job is executable; the execution it launches
never looks again, and every status write but the cancel is unconditional. So two requests that read
the job before either has marked it both dispatch it (`dispatched_twice`), and a cancel before an
execution starts is overwritten and the guest moved (`cancelled_job_moved`). `Sole` and `InTurn` are
the runs in which neither happens.
-/

namespace Nexara.Migration

open Conc Protocol System

/-! ## Conditions on runs -/

/-- The request found the job executable and was not refused. -/
def Phase.begun : Phase → Bool
  | .eligible | .launched _ | .started | .finished => true
  | .start | .refused => false

/-- The request found the job executable and has not marked it yet. -/
def Phase.busy : Phase → Bool
  | .eligible | .launched _ => true
  | _ => false

/-- The execution may have dispatched the job. -/
def Phase.dispatched : Phase → Bool
  | .launched true | .started | .finished => true
  | _ => false

/-- The execution has written the job's status. -/
def Phase.marked : Phase → Bool
  | .started | .finished => true
  | _ => false

def busy (log : requests.Log) : Bool := log.any fun en => (phase en.party log).busy

def begun (log : requests.Log) : Bool := log.any fun en => (phase en.party log).begun

/-- No execute request reads the job while another is on its way to mark it; checks write only
before one has found it executable; an execution's status writes go through. -/
def Sole : requests.Cond := fun log i r e o _ =>
  match r, e with
  | .execute .., .getMigrationJob => phase i log ≠ .start || !busy log
  | .execute .., .setMigrationJobStarted _ | .execute .., .completeMigrationJob .. => o
  | .check, .updateMigrationJobStatus _ | .check, .updateMigrationJobChecks _ => !begun log
  | _, _ => true

/-- No cancel comes while an execute request is on its way to mark the job, and checks do not write
to a cancelled job. -/
def InTurn : requests.Cond := fun log i r e o w =>
  Sole log i r e o w &&
    match r, e with
    | .cancel, .cancelMigrationJob => !busy log
    | .check, .updateMigrationJobStatus _ | .check, .updateMigrationJobChecks _ =>
      w.job.status ≠ .cancelled
    | _, _ => true

/-! ## What a step can do -/

/-- What a step of role `r` from phase `l` to `l'` does to the job's status. -/
inductive Kind (w w' : World) (l l' : Phase) : Role → Stmt → Prop
  | quiet {r : Role} {e : Stmt} (hl : l' = l) (hstatus : w'.job.status = w.job.status)
      (hctx : w'.cancelled = w.cancelled) (hdispatch : e.dispatches = false)
      (hmoves : e.moves = true → l = .started)
      (houtcome : ∀ ctx status message, e ≠ .completeMigrationJob ctx status message) :
      Kind w w' l l' r e
  | read {userID : Option ℕ} {polls : ℕ} (hl : l = .start) (hw : w' = w)
      (hl' : l' = .refused ∨ l' = .eligible ∧ w.job.status.executable = true) :
      Kind w w' l l' (.execute userID polls) .getMigrationJob
  | slot {r : Role} (hl : l = .eligible) (hw : w' = w) (hl' : l' = .launched false ∨ l' = .refused) :
      Kind w w' l l' r .reserveSlot
  | dispatch {r : Role} {e : Stmt} (hl : l = .launched false) (hl' : l' = .launched true)
      (hw : w' = w) (hcall : e.dispatches = true) : Kind w w' l l' r e
  | started {userID : Option ℕ} {polls : ℕ} {upid : String} (hl : l = .launched true)
      (hl' : l' = .started) (hctx : w'.cancelled = w.cancelled) (hw : w'.job.status = .migrating) :
      Kind w w' l l' (.execute userID polls) (.setMigrationJobStarted upid)
  | complete {userID : Option ℕ} {polls : ℕ} {ctx : Ctx} {status : Status} {message : String}
      (hl : l.Running) (hl' : l' = .finished) (hctx : w'.cancelled = w.cancelled)
      (hstatus : status = .completed ∨ status = .failed) (hw : w'.job.status = status) :
      Kind w w' l l' (.execute userID polls) (.completeMigrationJob ctx status message)
  | check {status : Status} (hl : l' = l) (hctx : w'.cancelled = w.cancelled)
      (hw : w'.job.status = .checking ∨ w' = w) :
      Kind w w' l l' .check (.updateMigrationJobStatus status)
  | checked {status : Status} (hl : l' = l) (hctx : w'.cancelled = w.cancelled)
      (hw : w'.job.status = .pending ∨ w'.job.status = .failed ∨ w' = w) :
      Kind w w' l l' .check (.updateMigrationJobChecks status)
  | cancel (hl : l' = l) (hctx : w'.cancelled = w.cancelled)
      (hw : w'.job.status = .cancelled ∧ w.job.status.executable = true ∨
        w'.job.status = w.job.status) :
      Kind w w' l l' .cancel .cancelMigrationJob

variable {log : requests.Log} {w w' : World} {i k : ℕ} {r : Role} {l : Phase} {e : Stmt}
  {o : e.Outcome} {a : e.Ans}

theorem kind_of_step (hok : Sole log i r e o w = true) (hlive : w.cancelled = false)
    (hmay : jobs.may r l e) (hx : exec e o w = some (a, w')) : Kind w w' l (jobs.next r l e a) r e := by
  cases r with
  | check =>
    cases e with
    | updateMigrationJobStatus status =>
      obtain rfl | rfl := World.write_cases hx
      · exact .check rfl rfl (.inl hmay)
      · exact .check rfl rfl (.inr rfl)
    | updateMigrationJobChecks status =>
      obtain rfl | rfl := World.write_cases hx
      · exact .checked rfl rfl (hmay.imp_right .inl)
      · exact .checked rfl rfl (.inr (.inr rfl))
    | getMigrationJob | requireJobNodes | clientForCluster | runPreFlightChecks =>
      cases hx
      exact .quiet rfl rfl rfl rfl nofun nofun
    | _ => exact absurd hmay id
  | cancel =>
    obtain rfl | rfl := hmay
    · cases hx
      exact .quiet rfl rfl rfl rfl nofun nofun
    · refine .cancel rfl ?_ ?_ <;> obtain rfl | rfl := World.write_cases hx <;>
        grind [World.setStatus]
  | execute userID polls =>
    cases e with
    | getMigrationJob =>
      cases hx
      obtain rfl | rfl := hmay
      · refine .read rfl rfl ?_
        show (if _ then Phase.eligible else .refused) = _ ∨ (if _ then _ else _) = _ ∧ _
        grind
      · exact .quiet rfl rfl rfl rfl nofun nofun
    | reserveSlot =>
      cases hx
      refine .slot hmay rfl ?_
      cases o with
      | true => exact .inl rfl
      | false => exact .inr rfl
    | migrate | remoteMigrate =>
      cases hx
      exact .dispatch hmay rfl rfl rfl
    | moveDisk node move step =>
      cases hx
      replace hmay : if step = 0 then l = .launched false else l = .started := hmay
      by_cases hstep : step = 0
      · subst hstep
        exact .dispatch hmay rfl rfl rfl
      · rw [if_neg hstep] at hmay
        exact .quiet (if_neg hstep) rfl rfl (decide_eq_false hstep) (fun _ => hmay) nofun
    | setMigrationJobStarted upid =>
      replace hx : some (w.write .execute o _) = some (a, w') := hx
      rw [World.write_of_live (show o = true from hok) (by simp [hlive])] at hx
      cases hx
      exact .started hmay rfl rfl rfl
    | completeMigrationJob ctx status message =>
      replace hx : some (w.write ctx o _) = some (a, w') := hx
      rw [World.write_of_live (show o = true from hok) (by simp [hlive])] at hx
      cases hx
      exact .complete hmay.1 rfl rfl hmay.2 rfl
    | updateMigrationJobProgress | reconcileTaskHistory | insertAuditLog =>
      obtain rfl | rfl := World.write_cases hx <;> exact .quiet rfl rfl rfl rfl nofun nofun
    | insertTaskHistory row =>
      refine .quiet rfl ?_ ?_ rfl nofun nofun <;> obtain rfl | rfl := World.write_cases hx <;>
        grind [World.insertTask]
    | select =>
      replace hx : (if o && !w.cancelled then none else some (o, w)) = some (a, w') := hx
      split at hx <;> cases hx
      exact .quiet rfl rfl rfl rfl nofun nofun
    | updateMigrationJobStatus | updateMigrationJobChecks | cancelMigrationJob | shutdown =>
      exact absurd hmay id
    | _ =>
      cases hx
      exact .quiet rfl rfl rfl rfl nofun nofun

/-! ## Phases of all parties -/

theorem phase_self : phase i (⟨i, r, e, a, w⟩ :: log) = jobs.next r (phase i log) e a :=
  loc_self (T := jobs) i r e a w log

theorem phase_ne (h : k ≠ i) : phase k (⟨i, r, e, a, w⟩ :: log) = phase k log :=
  loc_ne (T := jobs) (Ne.symm h) r e a w log

theorem not_begun (h : begun log = false) : (phase k log).begun = false := by
  by_contra hk
  obtain ⟨en, hen, rfl⟩ := seen_of_loc fun hs => hk (congrArg _ hs)
  exact hk (List.any_eq_false.1 h en hen |> Bool.eq_false_iff.2)

theorem not_busy (h : busy log = false) : (phase k log).busy = false := by
  by_contra hk
  obtain ⟨en, hen, rfl⟩ := seen_of_loc fun hs => hk (congrArg _ hs)
  exact hk (List.any_eq_false.1 h en hen |> Bool.eq_false_iff.2)

def dispatches (log : requests.Log) : ℕ := log.countP fun en => en.stmt.dispatches

structure Inv (log : requests.Log) (w : World) : Prop where
  live : w.cancelled = false
  sole : ∀ i k, (phase i log).begun = true → (phase k log).begun = true → i = k
  marked : ∀ k, (phase k log).marked = true → w.job.status.executable = false
  none : (∀ k, (phase k log).dispatched = false) → dispatches log = 0
  once : dispatches log ≤ 1

theorem Phase.begun_of_marked (h : l.marked = true) : l.begun = true := by
  cases l <;> first | rfl | cases h

theorem Phase.begun_of_dispatched (h : l.dispatched = true) : l.begun = true := by
  cases l <;> first | rfl | cases h

theorem Phase.begun_of_running (h : l.Running) : l.begun = true := by
  cases l <;> first | rfl | cases h

theorem Phase.busy_or_marked (h : l.begun = true) : l.busy = true ∨ l.marked = true := by
  cases l <;> first | exact .inl rfl | exact .inr rfl | cases h

/-- While the job is executable and nobody is on its way to mark it, nobody has begun. -/
theorem Inv.not_begun (h : Inv log w) (hbusy : busy log = false)
    (hexec : w.job.status.executable = true) (k : ℕ) : (phase k log).begun = false := by
  by_contra hk
  obtain hk | hk := Phase.busy_or_marked (Bool.not_eq_false _ ▸ hk)
  · simp [not_busy hbusy] at hk
  · simp [h.marked k hk] at hexec

theorem Inv.step {l' : Phase} (h : Inv log w) (hnext : jobs.next r (phase i log) e a = l')
    (hlive : w'.cancelled = w.cancelled) (hbegun : l'.begun = true →
      (phase i log).begun = true ∨ ∀ k, (phase k log).begun = false)
    (hdispatched : (phase i log).dispatched = true → l'.dispatched = true)
    (hself : l'.marked = true → w'.job.status.executable = false)
    (hother : ∀ k, (phase k log).marked = true → w'.job.status.executable = false)
    (hcall : e.dispatches = true → phase i log = .launched false ∧ l'.dispatched = true) :
    Inv (⟨i, r, e, a, w⟩ :: log) w' := by
  have hcount : dispatches (⟨i, r, e, a, w⟩ :: log) =
      dispatches log + if e.dispatches = true then 1 else 0 := List.countP_cons
  obtain ⟨hnot, hsole, -, hnone, honce⟩ := h
  -- the party that dispatches is the only one that has begun, and it has not dispatched before
  have hzero : e.dispatches = true → dispatches log = 0 := by
    intro he
    have hi := (hcall he).1
    refine hnone fun k => ?_
    by_contra hk
    have := hsole k i (Phase.begun_of_dispatched (Bool.not_eq_false _ ▸ hk)) (by rw [hi]; rfl)
    simp_all [Phase.dispatched]
  have hi : phase i (⟨i, r, e, a, w⟩ :: log) = l' := phase_self.trans hnext
  have hne : ∀ k, k ≠ i → phase k (⟨i, r, e, a, w⟩ :: log) = phase k log := fun k => phase_ne
  constructor
  · rw [hlive, hnot]
  · grind
  · grind
  · intro hall
    grind
  · grind

theorem Inv.stay (h : Inv log w) (hlive : w'.cancelled = w.cancelled)
    (hl : jobs.next r (phase i log) e a = phase i log) (hdispatch : e.dispatches = false)
    (hmarked : ∀ k, (phase k log).marked = true → w'.job.status.executable = false) :
    Inv (⟨i, r, e, a, w⟩ :: log) w' :=
  h.step hl hlive .inl id (hmarked i) hmarked fun he => by rw [hdispatch] at he; cases he

theorem inv_step (h : Inv log w) (hok : Sole log i r e o w = true)
    (hmay : jobs.may r (phase i log) e) (hx : exec e o w = some (a, w')) :
    Inv (⟨i, r, e, a, w⟩ :: log) w' := by
  have hkind := kind_of_step hok h.live hmay hx
  generalize hnext : jobs.next r (phase i log) e a = l' at hkind
  cases hkind with
  | quiet hl hstatus hctx hdispatch =>
    exact h.stay hctx (hnext.trans hl) hdispatch fun k hk => by rw [hstatus]; exact h.marked k hk
  | @read userID polls hl hw hl' =>
    subst hw
    have hbusy : busy log = false := by simpa [Sole, hl] using hok
    refine h.step hnext rfl (fun hb => .inr fun k => ?_) (by simp [hl, Phase.dispatched]) ?_ h.marked nofun
    · obtain hl' | ⟨-, hexec⟩ := hl'
      · simp [hl', Phase.begun] at hb
      · exact h.not_begun hbusy hexec k
    · obtain hl' | ⟨hl', -⟩ := hl' <;> simp [hl', Phase.marked]
  | slot hl hw hl' =>
    subst hw
    refine h.step hnext rfl (fun _ => .inl (by simp [hl, Phase.begun])) (by simp [hl, Phase.dispatched]) ?_
      h.marked nofun
    obtain hl' | hl' := hl' <;> simp [hl', Phase.marked]
  | dispatch hl hl' hw =>
    subst hw
    exact h.step hnext rfl (fun _ => .inl (by simp [hl, Phase.begun])) (by simp [hl', Phase.dispatched])
      (by simp [hl', Phase.marked]) h.marked fun _ => ⟨hl, by simp [hl', Phase.dispatched]⟩
  | started hl hl' hctx hw =>
    have hexec : w'.job.status.executable = false := by rw [hw]; rfl
    exact h.step hnext hctx (fun _ => .inl (by simp [hl, Phase.begun]))
      (by simp [hl', Phase.dispatched]) (fun _ => hexec) (fun _ _ => hexec) nofun
  | complete hl hl' hctx hstatus hw =>
    have hexec : w'.job.status.executable = false := by
      obtain rfl | rfl := hstatus <;> rw [hw] <;> rfl
    exact h.step hnext hctx (fun _ => .inl (Phase.begun_of_running hl))
      (by simp [hl', Phase.dispatched]) (fun _ => hexec) (fun _ _ => hexec) nofun
  | check hl hctx hw | checked hl hctx hw =>
    have hbegun : begun log = false := by simpa [Sole] using hok
    refine h.stay hctx (hnext.trans hl) rfl fun k hk => ?_
    have := not_begun (k := k) hbegun
    simp [Phase.begun_of_marked hk] at this
  | cancel hl hctx hw =>
    refine h.stay hctx (hnext.trans hl) rfl fun k hk => ?_
    obtain ⟨hw, -⟩ | hw := hw
    · rw [hw]; rfl
    · rw [hw]; exact h.marked k hk

theorem inv_init (job : Job) : Inv [] { job := { job with status := .pending } } where
  live := rfl
  sole _ _ h := by cases h
  marked _ h := by cases h
  none _ := rfl
  once := Nat.zero_le _

theorem inv_of_reach {ok : requests.Cond} {job : Job} {c : requests.Pool}
    (hok : ∀ log i r (e : Stmt) (o : e.Outcome) w, ok log i r e o w = true →
      Sole log i r e o w = true)
    (hc : requests.Reach ok (Pool.idle { job := { job with status := .pending } }) c) :
    Inv c.log c.shared :=
  invariant jobs_followed (inv_init job)
    (fun h hcond hmay hx => inv_step h (hok _ _ _ _ _ _ hcond) hmay hx) hc

/-- If no execute request reads the job while another is on its way to mark it, no check writes to
it once it was found executable, and the executions' status writes go through, at most one call that
dispatches the job is issued. -/
theorem dispatched_at_most_once (job : Job) (pool : requests.Pool)
    (hrun : requests.Reach Sole (Pool.idle { job := { job with status := .pending } }) pool) :
    dispatches pool.log ≤ 1 :=
  (inv_of_reach (fun _ _ _ _ _ _ h => h) hrun).once

/-! ## A live migration within a cluster -/

def liveJob : Job where
  migrationType := .intraCluster

def running : requests.Oracle := calm "UPID:pve1:1" { status := "running" }

/-- A second request after the first has marked the job is refused. -/
theorem dispatched_at_most_once_second_refused :
    ∃ pool, requests.Reach Sole (Pool.idle { job := liveJob }) pool ∧
      dispatches pool.log = 1 ∧ dispatches pool.log ≤ 1 := by
  obtain ⟨pool, hreach, hpool⟩ := exists_reach (M := requests) Sole { job := liveJob }
    (.start (.execute none 1) :: List.replicate 7 (.step 0 running) ++
      [.start (.execute none 1), .step 1 running])
    (fun pool => dispatches pool.log = 1) (by decide +kernel)
  exact ⟨pool, hreach, hpool, dispatched_at_most_once liveJob pool hreach⟩

/-- Two execute requests read the pending job, and both dispatch it. -/
theorem dispatched_twice :
    ∃ pool, requests.Reach Cond.any (Pool.idle { job := liveJob }) pool ∧
      dispatches pool.log = 2 :=
  exists_reach _ _
    ([.start (.execute none 1), .start (.execute none 1), .step 0 running, .step 1 running] ++
      List.replicate 5 (.step 0 running) ++ List.replicate 5 (.step 1 running)) _ (by decide +kernel)

/-! ## Finished jobs -/

/-- The latest write of a status is an execution's outcome. -/
def byExecution : requests.Log → Bool
  | [] => false
  | ⟨_, _, .completeMigrationJob .., true, _⟩ :: _ => true
  | ⟨_, _, .updateMigrationJobStatus _, true, _⟩ :: _
  | ⟨_, _, .updateMigrationJobChecks _, true, _⟩ :: _
  | ⟨_, _, .setMigrationJobStarted _, true, _⟩ :: _ => false
  | _ :: log => byExecution log

/-- The job is completed, failed by its execution, or cancelled. -/
def Finished (log : requests.Log) (w : World) : Prop :=
  w.job.status = .completed ∨ w.job.status = .failed ∧ byExecution log = true ∨
    w.job.status = .cancelled

def moves (log : requests.Log) : ℕ := log.countP fun en => en.stmt.moves

/-- The status of the job while a party is in a phase, when requests come in turn. -/
def Phase.Status : Phase → Migration.Status → Prop
  | .eligible, status | .launched _, status => status.executable = true
  | .started, status => status = .migrating
  | .finished, status => status = .completed ∨ status = .failed
  | .start, _ | .refused, _ => True

structure Ends (log : requests.Log) (w : World) : Prop where
  status : ∀ k, (phase k log).Status w.job.status
  completed : w.job.status = .completed → ∃ k, phase k log = .finished
  byExecution : byExecution log = true → ∃ k, phase k log = .finished

theorem Phase.status_of_not_begun {status : Migration.Status} (h : l.begun = false) :
    l.Status status := by
  cases l <;> trivial

theorem Phase.not_begun_of_cancelled (h : l.Status .cancelled) : l.begun = false := by
  cases l <;> simp_all [Phase.Status, Phase.begun, Status.executable]

theorem byExecution_cons {en : requests.Entry} (h : byExecution (en :: log) = true) :
    (∃ ctx status message, en.stmt = .completeMigrationJob ctx status message) ∨
      byExecution log = true := by
  unfold byExecution at h
  split at h
  · next heq => cases heq
  · next heq => cases heq; exact .inl ⟨_, _, _, rfl⟩
  · cases h
  · cases h
  · cases h
  · next heq => cases heq; exact .inr h

theorem moves_cons : moves (⟨i, r, e, a, w⟩ :: log) =
    moves log + if e.moves = true then 1 else 0 := List.countP_cons

theorem finished_cons (hkind : Kind w w' (phase i log) (jobs.next r (phase i log) e a) r e)
    (hk : phase k log = .finished) : phase k (⟨i, r, e, a, w⟩ :: log) = .finished := by
  by_cases hki : k = i
  · subst hki
    rw [phase_self]
    cases hkind <;> simp_all
  · rwa [phase_ne hki]

/-- While one party has begun, no other is in a phase that says anything of the status. -/
theorem Inv.status_other (h : Inv log w) (hi : (phase i log).begun = true) (hk : k ≠ i)
    (status : Migration.Status) : (phase k log).Status status := by
  refine Phase.status_of_not_begun ?_
  by_contra hb
  exact hk (h.sole k i (Bool.not_eq_false _ ▸ hb) hi)

theorem Ends.step (h : Ends log w) (hinv : Inv log w)
    (hkind : Kind w w' (phase i log) (jobs.next r (phase i log) e a) r e)
    (hself : (jobs.next r (phase i log) e a : Phase).Status w'.job.status)
    (hother : w'.job.status = w.job.status ∨ (phase i log).begun = true ∨
      ∀ k, (phase k log).begun = false)
    (hcompleted : w'.job.status = .completed →
      w.job.status = .completed ∨ jobs.next r (phase i log) e a = .finished)
    (houtcome : ∀ ctx status message, e = .completeMigrationJob ctx status message →
      jobs.next r (phase i log) e a = .finished) : Ends (⟨i, r, e, a, w⟩ :: log) w' := by
  have hkeep : (∃ k, phase k log = .finished) ∨ jobs.next r (phase i log) e a = .finished →
      ∃ k, phase k (⟨i, r, e, a, w⟩ :: log) = .finished := by
    rintro (⟨k, hk⟩ | hi)
    · exact ⟨k, finished_cons hkind hk⟩
    · exact ⟨i, phase_self.trans hi⟩
  refine ⟨fun k => ?_, fun hc => hkeep ((hcompleted hc).imp_left h.completed), fun hby => ?_⟩
  · by_cases hki : k = i
    · subst hki
      rwa [phase_self]
    · rw [phase_ne hki]
      obtain hsame | hi | hnone := hother
      · rw [hsame]
        exact h.status k
      · exact hinv.status_other hi hki _
      · exact Phase.status_of_not_begun (hnone k)
  · obtain ⟨ctx, status, message, he⟩ | hby := byExecution_cons hby
    · exact hkeep (.inr (houtcome ctx status message he))
    · exact hkeep (.inl (h.byExecution hby))

theorem sole_of_inTurn (log : requests.Log) (i : ℕ) (r : Role) (e : Stmt) (o : e.Outcome)
    (w : World) (h : InTurn log i r e o w = true) : Sole log i r e o w = true :=
  (Bool.and_eq_true_iff.1 h).1

theorem status_of_finished (hinv : Inv log w) (hok : InTurn log i r e o w = true)
    (hmay : jobs.may r (phase i log) e) (hx : exec e o w = some (a, w'))
    (hk : phase k log = .finished) : w'.job.status = w.job.status := by
  have hsole := sole_of_inTurn log i r e o w hok
  have hbegun : (phase k log).begun = true := by rw [hk]; rfl
  have hnot : begun log ≠ false := fun hb => by rw [not_begun hb] at hbegun; cases hbegun
  -- whoever writes the status has begun, and so is the party that has written its outcome
  have hme : (phase i log).begun = true → phase i log = .finished := by
    intro hi
    rwa [hinv.sole i k hi hbegun]
  have hkind := kind_of_step hsole hinv.live hmay hx
  cases hkind with
  | quiet hl hstatus => exact hstatus
  | read hl hw | slot hl hw | dispatch hl hl' hw => rw [hw]
  | started hl => simp [hl, Phase.begun] at hme
  | complete hl =>
    rw [hme (Phase.begun_of_running hl)] at hl
    cases hl
  | check | checked => exact absurd (by simpa [Sole] using hsole) hnot
  | cancel hl hctx hw =>
    -- the job is marked, and a cancel leaves it as it is
    obtain ⟨-, hexec⟩ | hw := hw
    · have hmarked := hinv.marked k (by rw [hk]; rfl)
      rw [hmarked] at hexec
      cases hexec
    · exact hw

section

variable (h : Ends log w) (hinv : Inv log w) (hok : InTurn log i r e o w = true)
  (hmay : jobs.may r (phase i log) e) (hx : exec e o w = some (a, w'))

include h hinv hok hmay hx

theorem ends_step : Ends (⟨i, r, e, a, w⟩ :: log) w' := by
  have hsole := sole_of_inTurn log i r e o w hok
  have hkind := kind_of_step hsole hinv.live hmay hx
  have hi := h.status i
  have hstep := h.step hinv hkind
  cases hkind with
  | quiet hl hstatus hctx hdispatch hmoves houtcome =>
    refine hstep (by rw [hl, hstatus]; exact hi) (.inl hstatus) (fun hc => .inl (hstatus ▸ hc)) ?_
    exact fun ctx status message he => absurd he (houtcome ctx status message)
  | read hl hw hl' =>
    subst hw
    refine hstep ?_ (.inl rfl) .inl nofun
    obtain hl' | ⟨hl', hexec⟩ := hl' <;> simp_all [Phase.Status]
  | slot hl hw hl' =>
    subst hw
    refine hstep ?_ (.inl rfl) .inl nofun
    obtain hl' | hl' := hl' <;> simp_all [Phase.Status]
  | dispatch hl hl' hw hcall =>
    subst hw
    refine hstep (by simp_all [Phase.Status]) (.inl rfl) .inl ?_
    rintro _ _ _ rfl
    cases hcall
  | started hl hl' hctx hw =>
    exact hstep (by rw [hl']; exact hw) (.inr (.inl (by rw [hl]; rfl))) (by simp [hw]) nofun
  | complete hl hl' hctx hstatus hw =>
    refine hstep ?_ (.inr (.inl (Phase.begun_of_running hl))) (fun _ => .inr hl') fun _ _ _ _ => hl'
    rwa [hw]
  | check hl hctx hw | checked hl hctx hw =>
    have hbegun : begun log = false := by simpa [Sole] using hsole
    refine hstep ?_ (.inr (.inr fun _ => not_begun hbegun)) (fun hc => ?_) nofun
    · exact Phase.status_of_not_begun (not_begun hbegun)
    · grind
  | cancel hl hctx hw =>
    obtain ⟨hw, hexec⟩ | hw := hw
    · have hbegun := hinv.not_begun (by simpa [InTurn, Sole] using hok) hexec
      exact hstep (Phase.status_of_not_begun (hbegun i)) (.inr (.inr hbegun)) (by simp [hw]) nofun
    · exact hstep (by rw [hl, hw]; exact hi) (.inl hw) (fun hc => .inl (hw ▸ hc)) nofun

theorem cancelled_step (hcancelled : w.job.status = .cancelled) :
    w'.job.status = .cancelled ∧ e.moves = false := by
  have hsole := sole_of_inTurn log i r e o w hok
  have hi : (phase i log).begun = false :=
    Phase.not_begun_of_cancelled (hcancelled ▸ h.status i)
  have hkind := kind_of_step hsole hinv.live hmay hx
  cases hkind with
  | quiet hl hstatus hctx hdispatch hmoves =>
    refine ⟨hstatus.trans hcancelled, ?_⟩
    by_contra hm
    simp [hmoves (Bool.not_eq_false _ ▸ hm), Phase.begun] at hi
  | read hl hw =>
    subst hw
    exact ⟨hcancelled, rfl⟩
  | slot hl | dispatch hl | started hl => simp [hl, Phase.begun] at hi
  | complete hl => simp [Phase.begun_of_running hl] at hi
  | check | checked =>
    have : w.job.status ≠ .cancelled := by simpa using (Bool.and_eq_true_iff.1 hok).2
    exact absurd hcancelled this
  | cancel hl hctx hw =>
    obtain ⟨-, hexec⟩ | hw := hw
    · simp [hcancelled, Status.executable] at hexec
    · exact ⟨hw.trans hcancelled, rfl⟩

end

theorem ends_of_reach {job : Job} {c : requests.Pool}
    (hc : requests.Reach InTurn (Pool.idle { job := { job with status := .pending } }) c) :
    Inv c.log c.shared ∧ Ends c.log c.shared := by
  refine invariant jobs_followed (I := fun log w => Inv log w ∧ Ends log w)
    ⟨inv_init job, fun _ => trivial, nofun, nofun⟩
    (fun {log i r e o a w w'} h hok hmay hx => ?_) hc
  exact ⟨inv_step h.1 (sole_of_inTurn log i r e o w hok) hmay hx, ends_step h.2 h.1 hok hmay hx⟩

/-- If requests come in turn, a job that is completed, failed by its execution or cancelled keeps its
status, and once it is cancelled nothing of it is moved any more. -/
theorem finished_stays_finished (job : Job) (c c' : requests.Pool)
    (hc : requests.Reach InTurn (Pool.idle { job := { job with status := .pending } }) c)
    (hc' : requests.Reach InTurn c c') :
    (Finished c.log c.shared → c'.shared.job.status = c.shared.job.status) ∧
      (c.shared.job.status = .cancelled → moves c'.log = moves c.log) := by
  have hstays : c.shared.job.status = .cancelled →
      c'.shared.job.status = .cancelled ∧ moves c'.log = moves c.log := by
    intro hcancelled
    refine remains jobs_followed (I := fun log w => Inv log w ∧ Ends log w)
      (fun hd => ends_of_reach hd)
      (P := fun log w => w.job.status = .cancelled ∧ moves log = moves c.log)
      (fun {log i r e o a w w'} h _ hok hmay hx hP => ?_) hc hc' ⟨hcancelled, rfl⟩
    obtain ⟨hstatus, hmoves⟩ := cancelled_step h.2 h.1 hok hmay hx hP.1
    refine ⟨hstatus, ?_⟩
    rw [moves_cons, hmoves]
    exact hP.2
  have hends : (∃ k, phase k c.log = .finished) →
      c'.shared.job.status = c.shared.job.status := by
    intro hk
    refine (remains jobs_followed (I := fun log w => Inv log w ∧ Ends log w)
      (fun hd => ends_of_reach hd)
      (P := fun log w => w.job.status = c.shared.job.status ∧ ∃ k, phase k log = .finished)
      (fun {log i r e o a w w'} h _ hok hmay hx hP => ?_) hc hc' ⟨rfl, hk⟩).1
    obtain ⟨hP, k, hk⟩ := hP
    have hkind := kind_of_step (sole_of_inTurn log i r e o w hok) h.1.live hmay hx
    exact ⟨(status_of_finished h.1 hok hmay hx hk).trans hP, k, finished_cons hkind hk⟩
  have hend := (ends_of_reach hc).2
  refine ⟨fun hfin => ?_, fun hcancelled => (hstays hcancelled).2⟩
  obtain hcompleted | ⟨-, hby⟩ | hcancelled := hfin
  · exact hends (hend.completed hcompleted)
  · exact hends (hend.byExecution hby)
  · rw [hcancelled]
    exact (hstays hcancelled).1

/-- The execution has completed the job, and a cancel comes. -/
theorem finished_stays_finished_late_cancel :
    ∃ c c', requests.Reach InTurn (Pool.idle { job := liveJob }) c ∧
      requests.Reach InTurn c c' ∧ c.shared.job.status = .completed ∧
      c'.log.any (·.stmt = .cancelMigrationJob) = true ∧
      c'.shared.job.status = c.shared.job.status := by
  obtain ⟨c, c', hc, hc', hcompleted, hcancel⟩ := exists_reach_reach (M := requests) InTurn
    { job := liveJob }
    (.start (.execute none 1) :: List.replicate 13 (.step 0 (calm "UPID:pve1:1" { status := "stopped" })))
    [.start .cancel, .step 1 running, .step 1 running]
    (fun c c' => c.shared.job.status = .completed ∧
      c'.log.any (·.stmt = .cancelMigrationJob) = true) (by decide +kernel)
  have h := finished_stays_finished liveJob c c' hc hc'
  exact ⟨c, c', hc, hc', hcompleted, hcancel, h.1 (.inl hcompleted)⟩

/-- An execute request has launched its execution when the job is cancelled; the execution migrates
the guest and marks the job as migrating. -/
theorem cancelled_job_moved :
    ∃ c c', requests.Reach Cond.any (Pool.idle { job := liveJob }) c ∧
      requests.Reach Cond.any c c' ∧ c.shared.job.status = .cancelled ∧
      c'.shared.job.status = .migrating ∧ moves c'.log = moves c.log + 1 :=
  exists_reach_reach (M := requests) _ _
    [.start (.execute none 1), .step 0 running, .step 0 running, .start .cancel, .step 1 running,
      .step 1 running] (List.replicate 5 (.step 0 running)) _ (by decide +kernel)

end Nexara.Migration
