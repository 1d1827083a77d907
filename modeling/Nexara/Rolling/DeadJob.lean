import Nexara.Rolling.Ticks

/-!
# Reboots of a job that is over

A reboot is sent by the goroutine of an automated upgrade or by the request that confirms a manual
one. The goroutine looks at the job's status before it goes on to the reboot, but stops only for a
job that was cancelled or paused, and not if the status cannot be read; the request does not look at
it. So jobs that are over do reboot nodes (`dead_job_reboots`), except under `CheckCond`.
-/

namespace Nexara.Rolling

open Conc Protocol System

def JobStatus.dead : JobStatus → Bool
  | failed | cancelled => true
  | _ => false

theorem not_dead {s : JobStatus} (hfailed : s ≠ .failed) (hcancelled : s ≠ .cancelled) :
    s.dead = false := by
  cases s with
  | failed => exact absurd rfl hfailed
  | cancelled => exact absurd rfl hcancelled
  | _ => rfl

/-! ## The check before a reboot -/

/-- What the party makes of the job's status, if it could be read: whether it goes on to a reboot. -/
def Role.goesOn : Role → Option JobStatus → Bool
  | .sshUpgrade _ _ _, status => status ≠ some .cancelled
  | .confirmUpgrade _, status => status.isSome
  | _, _ => false

/-- What a party has learnt of the job's status. -/
structure CheckMemory where
  /-- It has declared the job failed itself. -/
  failing : Bool := false
  /-- Its last look at the job lets it go on to a reboot. -/
  clear : Bool := false

namespace CheckMemory

def next (r : Role) (l : CheckMemory) : (e : Stmt) → e.Ans → CheckMemory
  | .db .getRollingUpdateJob => fun a => match a with
    | .ok (job : JobRow) => { l with clear := r.goesOn (some job.status) }
    | .error _ => { l with clear := r.goesOn none }
  | .db (.updateJob (.failRollingUpdateJob _)) => fun _ => { l with failing := true }
  | _ => fun _ => l

/-- The party has looked at the job, and may send a reboot. -/
def Passed (l : CheckMemory) : Prop := l.failing = false ∧ l.clear = true

def may (l : CheckMemory) : Stmt → Prop
  | .px (.rebootNode _) => l.Passed
  | _ => True

end CheckMemory

abbrev checkProtocol : Protocol rolling where
  Loc := CheckMemory
  init := {}
  next := CheckMemory.next
  may _ := CheckMemory.may

section

variable {r : Role} {l : CheckMemory}

theorem may_of_ne {e : Stmt} (he : ∀ node, e ≠ .px (.rebootNode node)) : l.may e := by
  unfold CheckMemory.may
  split
  · next node => exact absurd rfl (he node)
  · trivial

theorem keeps_unchecked {e : Stmt} (he : ∀ node, e ≠ .px (.rebootNode node)) :
    checkProtocol.Keeps r (fun _ => True) (Prog.stmt e) :=
  keeps_stmt fun _ _ => ⟨may_of_ne he, fun _ => trivial⟩

theorem checkParts : Parts fun p => checkProtocol.Keeps r (fun _ => True) p :=
  .of_stmts keeps_pure Keeps.bind fun _ he => keeps_unchecked he

theorem keeps_pauseBalancers_unchecked (job : JobRow) :
    checkProtocol.Keeps r (fun _ => True) (pauseBalancers job) := by
  refine checkParts.pauseBalancers (fun e he => keeps_unchecked ?_)
    (fun e he => keeps_unchecked ?_) job
  · rintro node rfl
    cases he
  · rintro node rfl
    cases he

theorem checkCalls {A : CheckMemory → Prop} : Calls fun p => checkProtocol.Keeps r A p where
  pure := keeps_pure
  bind := Keeps.bind
  ext _ := keeps_stmt fun _ hl => ⟨trivial, fun _ => hl⟩

/-- What the stages of an upgrade or of a confirmation mean: a reboot is sent by a party that has
passed. -/
def Attempt.Checked : Attempt → CheckMemory → Prop
  | .begun => fun l => l.failing = false
  | .ready | .recorded | .sent => CheckMemory.Passed
  | .over => fun _ => True

theorem checkAttended (n : NodeRow) : Attended n fun {α} st p (post : α → Attempt) =>
    ∀ l, st.Checked l → checkProtocol.Follows r p (fun a => (post a).Checked) l where
  calls _ := checkCalls
  bind hp hf l hl := (hp l hl).seq fun a l' hl' => hf a l' hl'
  pure {_ st post} a hpost l hl := by
    show (post a).Checked l
    rcases hpost with heq | heq
    · exact heq ▸ hl
    · rw [heq]
      trivial
  fail _ reason _ l _ := checkParts.failNode n reason l trivial

theorem checkUpgrades {job : JobRow} {n : NodeRow} {host : String} :
    Upgrades n fun {α} st p (post : α → Attempt) => ∀ l, st.Checked l →
      checkProtocol.Follows (.sshUpgrade job n host) p (fun a => (post a).Checked) l where
  toAttended := checkAttended n
  output _ hl := ⟨trivial, fun _ => hl⟩
  -- the goroutine passes its check only if it has not seen that the job was cancelled
  check l hl := by
    refine ⟨trivial, fun a => ?_⟩
    cases a with
    | error e => exact ⟨hl, rfl⟩
    | ok row =>
      show Attempt.Checked (if (decide (some row.status = some .cancelled) || _) = true then _ else _) _
      split_ifs with hpass
      · trivial
      · rw [Bool.or_eq_true, not_or] at hpass
        exact ⟨hl, decide_eq_true (of_decide_eq_false (Bool.eq_false_iff.mpr hpass.1))⟩
  completed _ hl := by
    refine ⟨trivial, fun a => ?_⟩
    cases a with
    | error e => trivial
    | ok k => exact hl
  send _ hl := ⟨hl, fun _ => hl⟩
  leave _ _ _ _ := ⟨trivial, fun _ => trivial⟩

theorem checkConfirms {id : ℕ} {n : NodeRow} :
    Confirms n fun {α} st p (post : α → Attempt) => ∀ l, st.Checked l →
      checkProtocol.Follows (.confirmUpgrade id) p (fun a => (post a).Checked) l where
  toAttended := checkAttended n
  confirm _ hl := ⟨trivial, fun _ => hl⟩
  send _ hl := ⟨hl, fun _ => hl⟩
  record _ hl := ⟨trivial, fun _ => hl⟩
  leave _ _ _ _ := ⟨trivial, fun _ => trivial⟩

theorem follows_handleConfirmUpgrade_checked {id : ℕ} :
    checkProtocol.Follows (.confirmUpgrade id) (handleConfirmUpgrade id) (fun _ _ => True) {} := by
  have hrespond a b l := (checkParts (r := .confirmUpgrade id)).respond a b l trivial
  refine follows_stmt trivial (Prog.forall_except.mpr ⟨fun _ => hrespond _ _ _, fun job => ?_⟩)
  refine follows_stmt trivial (Prog.forall_except.mpr ⟨fun _ => hrespond _ _ _, fun node => ?_⟩)
  refine (checkConfirms.confirmUpgrade job _ ⟨rfl, rfl⟩).seq fun a l' _ => ?_
  split <;> exact hrespond _ _ _

end

theorem checks_followed : checkProtocol.Followed fun _ => True := by
  intro r
  have h := checkParts (r := r)
  cases hr : r.moves with
  | false => exact h.codeAside h.release hr {} trivial
  | true =>
    cases r with
    | sshUpgrade job node host => exact checkUpgrades.runSSHUpgrade job host _ rfl
    | confirmUpgrade id => exact follows_handleConfirmUpgrade_checked
    | tick => exact h.leaderTick keeps_pauseBalancers_unchecked {} trivial
    | skipNode id => exact h.handleSkipNode (h.updateNode _ _ rfl) {} trivial
    | _ => cases hr

/-! ## Runs -/

def lastLook (i : ℕ) : rolling.Log → Option World
  | [] => none
  | en :: log =>
    if en.party = i ∧ en.stmt = .db .getRollingUpdateJob then some en.before else lastLook i log

def isReboot (en : rolling.Entry) : Bool := Stmt.reboots en.stmt

/-- No goroutine makes its check while the job has failed, or fails to read a cancelled job, and no
upgrade is confirmed for a job that is over. Reading a job one has failed oneself is not such a
check. -/
def CheckCond : rolling.Cond := fun log i r e o w =>
  match r, e, o with
  | .sshUpgrade _ _ _, .db .getRollingUpdateJob, o => (checkProtocol.loc i log).failing ||
      (w.job.status ≠ .failed && (w.job.status ≠ .cancelled || Option.isNone o))
  | .confirmUpgrade _, .db .getRollingUpdateJob, _ =>
      (checkProtocol.loc i log).failing || !w.job.status.dead
  | _, _, _ => true

/-- A party that may reboot has looked at a job that was not over, and so has everyone who did. -/
structure CheckInv (log : rolling.Log) : Prop where
  alive : ∀ i, (checkProtocol.loc i log).Passed →
    ∃ w, lastLook i log = some w ∧ w.job.status.dead = false
  reboots : ∀ en log', (en :: log') <:+ log → isReboot en = true →
    ∃ w, lastLook en.party log' = some w ∧ w.job.status.dead = false

section

variable {log : rolling.Log} {w w' : World} {i : ℕ} {r : Role} {e : Stmt} {a : e.Ans}

/-- A look at the job that lets the party go on to a reboot is a look at a job that is not over. -/
theorem alive_of_look {o : Option Err} {a : Except Err JobRow}
    (hok : CheckCond log i r (.db .getRollingUpdateJob) o w = true)
    (hx : exec i (.db .getRollingUpdateJob) o w = some (a, w'))
    (h : CheckMemory.Passed ((checkProtocol.loc i log).next r (.db .getRollingUpdateJob) a)) :
    w.job.status.dead = false := by
  have hfailing : (checkProtocol.loc i log).failing = false := by
    cases a with
    | ok job | error e => exact h.1
  cases r with
  | sshUpgrade job node host =>
    replace hok : ((checkProtocol.loc i log).failing || (decide (w.job.status ≠ .failed) &&
      (decide (w.job.status ≠ .cancelled) || o.isNone))) = true := hok
    rw [hfailing, Bool.false_or, Bool.and_eq_true] at hok
    refine not_dead (of_decide_eq_true hok.1) ?_
    cases o with
    | some err =>
      -- the status could not be read, so the job was not cancelled
      simpa using hok.2
    | none =>
      cases hx
      have hclear : decide (some w.job.status ≠ some JobStatus.cancelled) = true := h.2
      simpa using hclear
  | confirmUpgrade id =>
    replace hok : ((checkProtocol.loc i log).failing || !w.job.status.dead) = true := hok
    rw [hfailing] at hok
    exact (Bool.not_eq_true' _).mp hok
  | _ =>
    cases a with
    | ok job | error e => cases h.2

theorem passed_of_next {l : CheckMemory} (he : e ≠ .db .getRollingUpdateJob) :
    ∀ a, (l.next r e a).Passed → l.Passed := by
  unfold CheckMemory.next
  split
  · exact absurd rfl he
  · exact fun _ h => by cases h.1
  · exact fun _ h => h

theorem lastLook_cons {en : rolling.Entry} {k : ℕ}
    (h : ¬(en.party = k ∧ en.stmt = .db .getRollingUpdateJob)) :
    lastLook k (en :: log) = lastLook k log := if_neg h

theorem CheckInv.step (h : CheckInv log) {o : e.Outcome} (hok : CheckCond log i r e o w = true)
    (hmay : (checkProtocol.loc i log).may e) (hx : exec i e o w = some (a, w')) :
    CheckInv (⟨i, r, e, a, w⟩ :: log) := by
  refine ⟨fun k hk => ?_, fun en log' hsuf hreboot => ?_⟩
  · by_cases hik : i = k
    · subst hik
      rw [loc_self] at hk
      by_cases he : e = .db .getRollingUpdateJob
      · subst he
        exact ⟨w, if_pos ⟨rfl, rfl⟩, alive_of_look hok hx hk⟩
      · rw [lastLook_cons fun hl => he hl.2]
        exact h.alive i (passed_of_next he a hk)
    · rw [loc_ne hik] at hk
      rw [lastLook_cons fun hl => hik hl.1]
      exact h.alive k hk
  · rcases List.suffix_cons_iff.mp hsuf with heq | hsuf
    · cases heq
      -- the party that reboots has passed its check
      refine h.alive i ?_
      cases e with
      | px p => cases p with
        | rebootNode node => exact hmay
        | _ => cases hreboot
      | _ => cases hreboot
    · exact h.reboots en log' hsuf hreboot

end

/-- **A job that is over reboots nothing.** If steps satisfy `CheckCond`, whoever sent a reboot had
looked at the job, and at its last look the job had neither failed nor been cancelled. -/
theorem dead_job_reboots_nothing {w : World} {c : rolling.Pool}
    (hc : rolling.Reach CheckCond (Pool.idle w) c) {en : rolling.Entry}
    {log : rolling.Log} (hlog : (en :: log) <:+ c.log) (hreboot : isReboot en = true) :
    ∃ w', lastLook en.party log = some w' ∧ w'.job.status ≠ .failed ∧
      w'.job.status ≠ .cancelled := by
  have hinit : CheckInv [] := by
    refine ⟨fun i h => (by cases h.2), fun en log' h => ?_⟩
    cases List.suffix_nil.mp h
  have hinv : CheckInv c.log := invariant (I := fun log _ => CheckInv log) checks_followed
    hinit (fun h => h.step) hc
  obtain ⟨w', hlook, hdead⟩ := hinv.reboots en log hlog hreboot
  refine ⟨w', hlook, fun h => ?_, fun h => ?_⟩
  · rw [h] at hdead
    cases hdead
  · rw [h] at hdead
    cases hdead

/-! ## Three runs -/

/-- A job whose node was upgraded by hand, and waits to be confirmed. -/
def awaitingJob : World where
  job := { status := .running }
  nodes := [{ id := 0, nodeName := "pve1", step := .awaitingUpgrade }]

/-- A job that is about to upgrade its first node while the second one does not come back from its
reboot. -/
def failingJob : World where
  now := 1000
  job := { status := .running, autoUpgrade := true, parallelism := 2 }
  nodes := [{ id := 0, nodeName := "pve1", step := .upgrading },
    { id := 1, nodeName := "pve2", step := .rebooting, rebootStartedAt := some 0 }]

/-- The latest statement is a reboot, decided after a look at a job with this status. -/
def rebootedAt (status : JobStatus) (c : rolling.Pool) : Bool :=
  match c.log with
  | [] => false
  | en :: log => isReboot en && (lastLook en.party log).any fun w => w.job.status = status

theorem rebootedAt_iff {status : JobStatus} {c : rolling.Pool} : rebootedAt status c = true ↔
    ∃ en log w, c.log = en :: log ∧ isReboot en = true ∧ lastLook en.party log = some w ∧
      w.job.status = status := by
  unfold rebootedAt
  cases hlog : c.log with
  | nil => simp
  | cons en log => cases hlook : lastLook en.party log <;> simp [hlook]

theorem dead_job_reboots_nothing_confirmed :
    ∃ c en log w', rolling.Reach CheckCond (Pool.idle awaitingJob) c ∧ c.log = en :: log ∧
      isReboot en = true ∧ lastLook en.party log = some w' ∧ w'.job.status ≠ .failed ∧
      w'.job.status ≠ .cancelled := by
  obtain ⟨c, hc, h⟩ := exists_reach CheckCond awaitingJob
    ([.start (.confirmUpgrade 0)] ++ steps 0 8 (calm [] [])) (rebootedAt .running · = true)
    (by decide +kernel)
  obtain ⟨en, log, -, hlog, hreboot, -, -⟩ := rebootedAt_iff.mp h
  have hsuf : (en :: log) <:+ c.log := ⟨[], hlog.symm⟩
  obtain ⟨w', hw'⟩ := dead_job_reboots_nothing hc hsuf hreboot
  exact ⟨c, en, log, w', hc, hlog, hreboot, hw'⟩

/-- **Jobs that are over reboot nodes.** An upgrade's goroutine looks at a job that another node has
failed, and reboots its own; and an upgrade of a cancelled job is confirmed, and the node rebooted.
-/
theorem dead_job_reboots :
    (∃ c en log w', rolling.Reach Cond.any (Pool.idle failingJob) c ∧
      c.log = en :: log ∧ isReboot en = true ∧ lastLook en.party log = some w' ∧
      w'.job.status = .failed) ∧
    ∃ c en log w', rolling.Reach Cond.any (Pool.idle awaitingJob) c ∧
      c.log = en :: log ∧ isReboot en = true ∧ lastLook en.party log = some w' ∧
      w'.job.status = .cancelled := by
  constructor
  · obtain ⟨c, hc, h⟩ := exists_reach Cond.any failingJob
      ([.start .tick] ++ steps 0 20 (calm [] []) ++ steps 1 7 (calm [] []))
      (rebootedAt .failed · = true) (by decide +kernel)
    obtain ⟨en, log, w', h⟩ := rebootedAt_iff.mp h
    exact ⟨c, en, log, w', hc, h⟩
  · obtain ⟨c, hc, h⟩ := exists_reach Cond.any awaitingJob
      ([.start .cancelJob] ++ steps 0 4 (calm [] []) ++
        [.start (.confirmUpgrade 0)] ++ steps 2 8 (calm [] []))
      (rebootedAt .cancelled · = true) (by decide +kernel)
    obtain ⟨en, log, w', h⟩ := rebootedAt_iff.mp h
    exact ⟨c, en, log, w', hc, h⟩

end Nexara.Rolling
