import Nexara.Rolling.Ticks

/-!
# What a finished job holds

A job that ends is flagged for the cleanup sweep (`cleanup_pending`), and the flag is cleared by a
statement that looks itself whether the job still holds something. What it cannot look at is a party
that is about to mark something as held, having read the job as running or a record it will write
back. Where no marker is written once the flag was cleared since its writer last read that
(`HoldCond`), the sweep finds every finished job that holds anything (`held_flagged`).
-/

namespace Nexara.Rolling

open Conc Protocol System

def NodeRow.stopped (n : NodeRow) : Bool := !(n.stoppedPassthroughJson.getD []).isEmpty

def World.holds (w : World) : Bool := !w.job.released || w.nodes.any NodeRow.stopped

/-- The statement marks something as held. -/
def Stmt.takes : Stmt → Bool
  | .db (.updateJob (.setJobDRSWasEnabled b)) => b
  | .db (.updateJob (.setJobNativeCRSPaused _)) => true
  | .db (.updateJob (.setJobDisabledHARules rules)) => !rules.isEmpty
  | .db (.updateNode (.setNodeStoppedPassthrough guests) _) => !guests.isEmpty
  | _ => false

/-- The answer shows that the job is running, or that it holds something. -/
def shows : (e : Stmt) → e.Ans → Bool
  | .db .listRunningRollingUpdateJobs => fun a => match a with
    | .ok (jobs : List JobRow) => !jobs.isEmpty
    | .error _ => false
  | .db .getRollingUpdateJob => fun a => match a with
    | .ok (job : JobRow) => !job.record.isEmpty
    | .error _ => false
  | .db .listRollingUpdateNodes => fun a => match a with
    | .ok (nodes : List NodeRow) => nodes.any fun n => !(stoppedPassthroughFor n).isEmpty
    | .error _ => false
  | _ => fun _ => false

/-! ## The code marks only what it has grounds for -/

/-- A party marks something as held only after it was shown that the job is running, or holds
something. -/
abbrev holdProtocol : Protocol rolling where
  Loc := Bool
  init := false
  next _ l e a := l || shows e a
  may _ l e := e.takes = true → l = true

section

variable {r : Role} {α : Type}

/-- Once that is shown, any code will do. -/
theorem follows_shown (p : Code α) : holdProtocol.Follows r p (fun _ _ => True) true := by
  induction p with
  | pure a => trivial
  | call e k ih => exact ⟨fun _ => rfl, fun a => ih a⟩

/-- Code that follows the protocol without having been shown anything. -/
def Unshown (r : Role) (p : Code α) : Prop := holdProtocol.Keeps r (fun _ => True) p

theorem not_takes {e : Stmt} (he : e.plain = true ∨ e.moves = true ∨ e.restores = true) :
    e.takes = false := by
  unfold Stmt.takes
  split
  · next b => cases b with
    | true => rcases he with he | he | he <;> cases he
    | false => rfl
  · rcases he with he | he | he <;> cases he
  · rcases he with he | he | he <;> cases he
  · rcases he with he | he | he <;> cases he
  · rfl

theorem unshown_of_not_takes {e : Stmt} (he : e.takes = false) : Unshown r (Prog.stmt e) :=
  keeps_stmt fun _ _ => ⟨fun h => absurd h (by simp [he]), fun _ => trivial⟩

theorem holdPieces : Pieces fun p => Unshown r p where
  pure := keeps_pure
  bind := Keeps.bind
  ext _ := unshown_of_not_takes rfl
  stmt _ he := unshown_of_not_takes (not_takes (.inl he))

theorem Unshown.of_cases {p : Code α} (h : holdProtocol.Follows r p (fun _ _ => True) false) :
    Unshown r p := by
  intro l _
  cases l with
  | false => exact h
  | true => exact follows_shown p

theorem unshown_releaseHeld {job : JobRow} {nodes : List NodeRow} (hrecord : job.record = [])
    (hstopped : ∀ n ∈ nodes, (stoppedPassthroughFor n).isEmpty = true) :
    Unshown r (releaseHeld job nodes) := by
  have h := holdPieces (r := r)
  have hb : ∀ e : Stmt, e.restores = true → Unshown r (Prog.stmt e) := fun _ he =>
    unshown_of_not_takes (not_takes (.inr (.inr he)))
  have hfilter : (nodes.filter fun n => !(stoppedPassthroughFor n).isEmpty) = [] := by
    refine List.filter_eq_nil_iff.mpr fun n hn => ?_
    rw [hstopped n hn]
    exact Bool.false_ne_true
  unfold releaseHeld
  rw [hfilter]
  refine h.bind (h.releaseDRS hb job) fun drs => h.ite _ (h.bind (h.ext _) fun a => ?_) ?_
  · cases a with
    | error e => exact h.pure _
    | ok u =>
      refine h.bind ?_ fun cluster => h.bind (h.clearCleanup job _) fun _ => h.pure _
      unfold releaseOnCluster
      rw [hrecord]
      refine h.bind (h.ite _ (h.restoreNativeCRS hb job) (h.pure _)) fun _ => ?_
      refine h.bind (h.pure true) fun _ => h.bind (h.releaseNodeRecords ?_ _) fun _ => ?_
      · exact fun rule type => unshown_of_not_takes rfl
      · exact h.bind h.timeNow fun _ => h.bind (h.pure true) fun _ => h.pure _
  · exact h.bind (h.clearCleanup job _) fun _ => h.pure _

theorem unshown_releaseJobState : Unshown r releaseJobState := by
  refine .of_cases (follows_stmt (nofun) fun a => ?_)
  cases a with
  | error e => trivial
  | ok job =>
    refine follows_stmt (nofun) fun a => ?_
    cases a with
    | error e => trivial
    | ok nodes =>
      show holdProtocol.Follows r (releaseHeld job nodes) _ ((false || !job.record.isEmpty) ||
        nodes.any fun n => !(stoppedPassthroughFor n).isEmpty)
      cases hrecord : job.record with
      | cons rule rules => exact follows_shown _
      | nil =>
        cases hany : nodes.any fun n => !(stoppedPassthroughFor n).isEmpty with
        | true => exact follows_shown _
        | false =>
          refine unshown_releaseHeld hrecord (fun n hn => ?_) _ trivial
          simpa using List.any_eq_false.mp hany n hn

theorem holdReleases : Releases fun p => Unshown r p where
  toPieces := holdPieces
  move _ he := unshown_of_not_takes (not_takes (.inr (.inl he)))
  release := unshown_releaseJobState

theorem unshown_tick : Unshown r tick := by
  refine .of_cases (follows_stmt (nofun) fun a => ?_)
  cases a with
  | error e => trivial
  | ok jobs =>
    cases jobs with
    | nil => exact holdReleases.sweepPendingCleanups unshown_releaseJobState false trivial
    | cons job jobs => exact follows_shown _

end

theorem holds_followed : holdProtocol.Followed fun _ => True := by
  intro r
  have h := holdReleases (r := r)
  by_cases hrole : r = .tick
  · rw [hrole]
    have htick := holdReleases (r := .tick)
    exact htick.bind (unshown_of_not_takes rfl) (fun _ => htick.bind unshown_tick fun _ =>
      unshown_of_not_takes rfl) false trivial
  · exact h.codeBesideTick (fun node => unshown_of_not_takes rfl) hrole false trivial

/-! ## Runs -/

def clears : rolling.Entry → Bool
  | ⟨_, _, .db (.updateJob .clearJobCleanupPending), .ok n, _⟩ => n ≠ (0 : ℕ)
  | _ => false

/-- The flag was cleared since party `i` was last shown that the job is running or holds
something. -/
def clearedSince (i : ℕ) : rolling.Log → Bool
  | [] => false
  | en :: log =>
    if en.party = i ∧ shows en.stmt en.ans then false else clears en || clearedSince i log

/-- No marker is written by a party that works from rows older than the last clearing of the
flag. -/
def HoldCond : rolling.Cond := fun log i _ e o _ =>
  !e.takes || fails e o || !clearedSince i log

/-- Every node's record of stopped guests is a list; `NULL` is left from versions without one. -/
def World.recorded (w : World) : Prop := ∀ n ∈ w.nodes, n.stoppedPassthroughJson.isSome = true

structure HoldInv (log : rolling.Log) (w : World) : Prop where
  flagged : w.job.status.terminal = true → w.holds = true → w.job.cleanupPending = true
  /-- For a party whose grounds are not out of date the job is not yet given up by the sweep. -/
  grounds : ∀ i, holdProtocol.loc i log = true → clearedSince i log = false →
    w.job.status.terminal = true → w.job.cleanupPending = true
  recorded : w.recorded

section

variable {log : rolling.Log} {w w' : World} {i : ℕ} {r : Role} {e : Stmt} {a : e.Ans}

/-- What a statement does that marks nothing and clears nothing. -/
structure Calm (w w' : World) : Prop where
  flag : w'.job.status.terminal = true → w'.job.cleanupPending = true ∨
    (w.job.status.terminal = true ∧ w'.job.cleanupPending = w.job.cleanupPending)
  holds : w'.holds = true → w.holds = true
  recorded : w.recorded → w'.recorded

/-- What a statement does that marks something. -/
structure Takes (w w' : World) : Prop where
  status : w'.job.status = w.job.status
  flag : w'.job.cleanupPending = w.job.cleanupPending
  recorded : w.recorded → w'.recorded

/-- What the statement does that clears the flag. -/
structure Clears (w w' : World) : Prop where
  holds : w'.holds = false
  recorded : w.recorded → w'.recorded

theorem Calm.of_same (hjob : w'.job = w.job) (hnodes : w'.nodes = w.nodes) : Calm w w' := by
  refine ⟨fun h => .inr ?_, fun h => ?_, fun h => ?_⟩
  · rw [hjob] at h ⊢
    exact ⟨h, rfl⟩
  · unfold World.holds at h ⊢
    rwa [hjob, hnodes] at h
  · unfold World.recorded
    rwa [hnodes]

theorem Calm.of_job {job : JobRow} (hflag : job.status.terminal = true → job.cleanupPending = true ∨
      (w.job.status.terminal = true ∧ job.cleanupPending = w.job.cleanupPending))
    (hheld : w.job.released = true → job.released = true) : Calm w { w with job := job } := by
  refine ⟨hflag, fun h => ?_, id⟩
  unfold World.holds at h ⊢
  cases hrel : w.job.released with
  | false => rfl
  | true =>
    rwa [hheld hrel] at h

theorem updateJob_held (u : JobUpdate) (w : World) : Calm w (w.updateJob u) ∨
    ((Stmt.db (.updateJob u)).takes = true ∧ Takes w (w.updateJob u)) ∨
    (u = .clearJobCleanupPending ∧ u.guard w = true ∧ Clears w (w.updateJob u)) := by
  unfold World.updateJob
  split_ifs with hguard
  · cases u with
    | setJobDRSWasEnabled b =>
      cases b with
      | true => exact .inr (.inl ⟨rfl, rfl, rfl, id⟩)
      | false =>
        refine .inl (.of_job (fun h => .inr ⟨h, rfl⟩) ?_)
        simp +contextual [JobRow.released, JobUpdate.set, JobRow.record]
    | setJobNativeCRSPaused saved => exact .inr (.inl ⟨rfl, rfl, rfl, id⟩)
    | clearJobNativeCRSPaused =>
      refine .inl (.of_job (fun h => .inr ⟨h, rfl⟩) ?_)
      simp +contextual [JobRow.released, JobUpdate.set, JobRow.record]
    | setJobDisabledHARules rules =>
      cases rules with
      | cons rule rules => exact .inr (.inl ⟨rfl, rfl, rfl, id⟩)
      | nil =>
        refine .inl (.of_job (fun h => .inr ⟨h, rfl⟩) ?_)
        simp +contextual [JobRow.released, JobUpdate.set, JobRow.record]
    | clearJobCleanupPending =>
      -- the statement's own guard looks at everything the job can hold
      refine .inr (.inr ⟨rfl, hguard, ?_, id⟩)
      obtain ⟨hjob, hnodes⟩ := Bool.and_eq_true_iff.mp hguard
      refine Bool.or_eq_false_iff.mpr ⟨?_, List.any_eq_false.mpr fun n hn => ?_⟩
      · show (!w.job.released) = false
        rw [hjob]
        rfl
      · obtain ⟨-, hstopped⟩ := Bool.and_eq_true_iff.mp (List.all_eq_true.mp hnodes n hn)
        unfold NodeRow.stopped
        rw [hstopped]
        exact Bool.false_ne_true
    | startRollingUpdateJob | pauseRollingUpdateJob | resumeRollingUpdateJob =>
      exact .inl (.of_job (nofun) id)
    | completeRollingUpdateJob | failRollingUpdateJob _ | cancelRollingUpdateJob
    | armJobCleanupPending => exact .inl (.of_job (fun _ => .inl rfl) id)
    | incrementJobCleanupAttempts => exact .inl (.of_job (fun h => .inr ⟨h, rfl⟩) id)
  · exact .inl (.of_same rfl rfl)

theorem set_stoppedPassthroughJson {u : NodeUpdate} (hu : ∀ l, u ≠ .setNodeStoppedPassthrough l)
    (now : ℕ) (n : NodeRow) : (u.set now n).stoppedPassthroughJson = n.stoppedPassthroughJson := by
  cases u with
  | setNodeStoppedPassthrough l => exact absurd rfl (hu l)
  | _ => rfl

theorem recorded_updateNode (u : NodeUpdate) (id : ℕ) (h : w.recorded) :
    (w.updateNode u id).recorded := by
  intro n hn
  obtain ⟨m, hm, rfl⟩ := List.mem_map.mp hn
  split_ifs
  · by_cases hu : ∃ l, u = .setNodeStoppedPassthrough l
    · obtain ⟨l, rfl⟩ := hu
      rfl
    · rw [set_stoppedPassthroughJson fun l hl => hu ⟨l, hl⟩]
      exact h m hm
  · exact h m hm

theorem updateNode_held (u : NodeUpdate) (id : ℕ) (w : World) : Calm w (w.updateNode u id) ∨
    ((Stmt.db (.updateNode u id)).takes = true ∧ Takes w (w.updateNode u id)) := by
  have hrec : w.recorded → (w.updateNode u id).recorded := recorded_updateNode u id
  cases htakes : (Stmt.db (.updateNode u id)).takes with
  | true => exact .inr ⟨rfl, rfl, rfl, hrec⟩
  | false =>
    refine .inl ⟨fun h => .inr ⟨h, rfl⟩, fun h => ?_, hrec⟩
    refine Bool.or_eq_true_iff.mpr ((Bool.or_eq_true_iff.mp h).imp_right fun hany => ?_)
    -- a node with stopped guests had them before
    obtain ⟨n, hn, hstopped⟩ := List.any_eq_true.mp hany
    obtain ⟨m, hm, rfl⟩ := List.mem_map.mp hn
    refine List.any_eq_true.mpr ⟨m, hm, ?_⟩
    split_ifs at hstopped
    · unfold NodeRow.stopped at hstopped ⊢
      by_cases hu : ∃ l, u = .setNodeStoppedPassthrough l
      · obtain ⟨l, rfl⟩ := hu
        have hempty : (!l.isEmpty) = false := htakes
        have hfull : (!l.isEmpty) = true := hstopped
        rw [hempty] at hfull
        cases hfull
      · rwa [set_stoppedPassthroughJson fun l hl => hu ⟨l, hl⟩] at hstopped
    · exact hstopped

theorem exec_held {o : e.Outcome} (hx : exec i e o w = some (a, w')) : Calm w w' ∨
    (e.takes = true ∧ fails e o = false ∧ Takes w w') ∨
    (clears ⟨i, r, e, a, w⟩ = true ∧ Clears w w') := by
  cases exec_effect hx with
  | job u =>
    cases hx
    rcases updateJob_held u w with h | ⟨ht, h⟩ | ⟨rfl, hguard, h⟩
    · exact .inl h
    · exact .inr (.inl ⟨ht, rfl, h⟩)
    · refine .inr (.inr ⟨?_, h⟩)
      rw [if_pos hguard]
      rfl
  | node u id =>
    rcases updateNode_held u id w with h | ⟨ht, h⟩
    · exact .inl h
    · exact .inr (.inl ⟨ht, rfl, h⟩)
  | _ => exact .inl (.of_same rfl rfl)

theorem stoppedPassthroughFor_of_recorded {n : NodeRow} (h : n.stoppedPassthroughJson.isSome = true) :
    stoppedPassthroughFor n = n.stoppedPassthroughJson.getD [] := by
  unfold stoppedPassthroughFor
  cases hj : n.stoppedPassthroughJson with
  | none => rw [hj] at h; cases h
  | some list => rfl

theorem holds_of_shows {o : e.Outcome} (hrec : w.recorded) (hx : exec i e o w = some (a, w'))
    (hshow : shows e a = true) : w' = w ∧ (w.job.status.terminal = true → w.holds = true) := by
  cases e with
  | db d =>
    cases o with
    | some err => cases hx; cases d <;> cases hshow
    | none =>
      cases d with
      | listRunningRollingUpdateJobs =>
        cases hx
        refine ⟨rfl, fun hterm => ?_⟩
        split_ifs at hshow with hrun
        · rw [hrun] at hterm
          cases hterm
        · cases hshow
      | getRollingUpdateJob =>
        cases hx
        refine ⟨rfl, fun _ => ?_⟩
        replace hshow : (!w.job.record.isEmpty) = true := hshow
        unfold World.holds JobRow.released
        rw [Bool.not_eq_true'] at hshow
        rw [hshow, Bool.and_false]
        rfl
      | listRollingUpdateNodes =>
        cases hx
        refine ⟨rfl, fun _ => Bool.or_eq_true_iff.mpr (.inr ?_)⟩
        obtain ⟨n, hn, hstopped⟩ := List.any_eq_true.mp hshow
        rw [stoppedPassthroughFor_of_recorded (hrec n hn)] at hstopped
        exact List.any_eq_true.mpr ⟨n, hn, hstopped⟩
      | _ => cases hshow
  | _ => cases hshow

theorem clearedSince_cons {en : rolling.Entry} {k : ℕ}
    (hshow : ¬(en.party = k ∧ shows en.stmt en.ans = true)) :
    clearedSince k (en :: log) = (clears en || clearedSince k log) :=
  if_neg hshow

theorem HoldInv.step (h : HoldInv log w) {o : e.Outcome} (hok : HoldCond log i r e o w = true)
    (hmay : e.takes = true → holdProtocol.loc i log = true) (hx : exec i e o w = some (a, w')) :
    HoldInv (⟨i, r, e, a, w⟩ :: log) w' := by
  have hsteps := exec_held (r := r) hx
  -- the markers a party may write are written while the flag is still up
  have htakes : e.takes = true → fails e o = false → w.job.status.terminal = true →
      w.job.cleanupPending = true := by
    intro ht hf
    refine h.grounds i (hmay ht) ?_
    unfold HoldCond at hok
    rw [ht, hf] at hok
    exact (Bool.not_eq_true' _).mp hok
  refine ⟨fun hterm hholds => ?_, fun k hk hsince hterm => ?_, ?_⟩
  · rcases hsteps with hc | ⟨ht, hf, hc⟩ | ⟨-, hc⟩
    · rcases hc.flag hterm with hp | ⟨hterm', hp⟩
      · exact hp
      · rw [hp]
        exact h.flagged hterm' (hc.holds hholds)
    · rw [hc.flag]
      exact htakes ht hf (hc.status ▸ hterm)
    · rw [hc.holds] at hholds
      cases hholds
  · by_cases hshow : i = k ∧ shows e a = true
    · -- the party has just been shown that the job runs or holds something
      obtain ⟨rfl, hx'⟩ := holds_of_shows h.recorded hx hshow.2
      exact h.flagged hterm (hx' hterm)
    · rw [clearedSince_cons hshow] at hsince
      obtain ⟨hclear, hsince⟩ := Bool.or_eq_false_iff.mp hsince
      have hold : holdProtocol.loc k log = true := by
        by_cases hik : i = k
        · subst hik
          rw [loc_self] at hk
          rcases Bool.or_eq_true_iff.mp hk with hl | hs
          · exact hl
          · exact absurd ⟨rfl, hs⟩ hshow
        · rwa [loc_ne hik] at hk
      rcases hsteps with hc | ⟨-, -, hc⟩ | ⟨hc, -⟩
      · rcases hc.flag hterm with hp | ⟨hterm', hp⟩
        · exact hp
        · rw [hp]
          exact h.grounds k hold hsince hterm'
      · rw [hc.flag]
        exact h.grounds k hold hsince (hc.status ▸ hterm)
      · rw [hc] at hclear
        cases hclear
  · rcases hsteps with hc | ⟨-, -, hc⟩ | ⟨-, hc⟩ <;> exact hc.recorded h.recorded

end

/-- **What a finished job holds is flagged.** In a job that has not ended yet, if steps satisfy
`HoldCond`, whenever it is finished and holds anything, it is flagged for the cleanup sweep, and the
sweep's query returns it. -/
theorem held_flagged {w : World} (hactive : w.job.status.active = true) (hrec : w.recorded)
    {c : rolling.Pool} (hc : rolling.Reach HoldCond (Pool.idle w) c)
    (hterm : c.shared.job.status.terminal = true) (hholds : c.shared.holds = true) :
    c.shared.job.cleanupPending = true ∧
      (Db.run c.shared .listRollingUpdateJobsNeedingCleanup).1 = .ok [c.shared.job] := by
  have hinit : HoldInv [] w := by
    have hnot : w.job.status.terminal = true → False := by
      unfold JobStatus.terminal
      rw [hactive]
      exact Bool.false_ne_true
    exact ⟨fun h _ => (hnot h).elim, fun _ _ _ h => (hnot h).elim, hrec⟩
  have hinv : HoldInv c.log c.shared := invariant holds_followed hinit
    (fun h => h.step) hc
  have hflag := hinv.flagged hterm hholds
  refine ⟨hflag, ?_⟩
  show Except.ok (if _ then _ else _) = _
  rw [if_pos ⟨hflag, hterm⟩]

/-! ## Two runs -/

/-- A job of one node on a cluster that Nexara balances. -/
def balancedJob : World where
  job := { status := .running }
  nodes := [{ id := 0, nodeName := "pve1" }]
  drs := some true

/-- The tick pauses DRS, the job is cancelled, and the cleanup has yet to begin. -/
theorem held_flagged_paused_drs :
    balancedJob.job.status.active = true ∧ balancedJob.recorded ∧
      ∃ c, rolling.Reach HoldCond (Pool.idle balancedJob) c ∧
        c.shared.job.status.terminal = true ∧ c.shared.holds = true ∧
        c.shared.job.cleanupPending = true := by
  have hrec : balancedJob.recorded := by unfold World.recorded balancedJob; simp
  obtain ⟨c, hc, hterm, hholds⟩ := exists_reach HoldCond balancedJob
    ([.start .tick] ++ steps 0 5 (calm [] []) ++ [.start .cancelJob] ++ steps 1 4 (calm [] []))
    (fun c => c.shared.job.status.terminal = true ∧ c.shared.holds = true) (by decide +kernel)
  exact ⟨rfl, hrec, c, hc, hterm, hholds, (held_flagged rfl hrec hc hterm hholds).1⟩

/-- **A pause outlives the cleanup.** The tick pauses DRS after the cleanup of the cancelled job has
found nothing held and cleared the flag; no sweep will look at the job again. -/
theorem held_unflagged :
    ∃ c, rolling.Reach Cond.any (Pool.idle balancedJob) c ∧ c.quiet = true ∧
      c.shared.job.status = .cancelled ∧ c.shared.job.drsWasEnabled = true ∧
      c.shared.drs = some false ∧ c.shared.job.cleanupPending = false :=
  exists_reach _ _
    ([.start .tick] ++ steps 0 3 (calm [] []) ++ [.start .cancelJob] ++ steps 1 4 (calm [] []) ++
      steps 2 4 (calm [] []) ++ steps 0 18 (calm [] [])) _ (by decide +kernel)

end Nexara.Rolling
