import Nexara.Jobs.Requests

/-!
# One active rolling update per cluster

`createJob` asks `HasRunningJobForCluster` before it inserts, in a statement of its own, so two
requests that both check before either inserts leave two active jobs (`two_active`). Updates never
make an inactive job active (`active_of_updated`), so an insert can only go wrong through another
insert made since its own check (`alone`, `at_most_one_active`).
-/

namespace Nexara.Jobs

open Conc Protocol System
open Nexara.Rolling (JobRow JobUpdate JobStatus Err)

/-! ## What a statement does to the active jobs -/

theorem active_of_set {w : Rolling.World} {u : JobUpdate} (hu : u.guard w = true)
    (h : (u.set w.now w.job).status.active = true) : w.job.status.active = true := by
  cases u <;> simp_all [JobUpdate.guard, JobUpdate.set, JobStatus.active]

@[simp] theorem updated_id (t : Table) (u : JobUpdate) (id : ℕ) (j : Job) :
    (t.updated u id j).id = j.id := by
  unfold Table.updated
  split_ifs <;> rfl

theorem active_of_updated {t : Table} {u : JobUpdate} {id cluster : ℕ} {j : Job}
    (h : (t.updated u id j).activeIn cluster = true) : j.activeIn cluster = true := by
  unfold Table.updated at h
  split_ifs at h with hj
  · simp only [Job.activeIn, Bool.and_eq_true] at h ⊢
    exact ⟨h.1, active_of_set hj.2 h.2⟩
  · exact h

/-! ## What a request has checked -/

/-- The cluster for which a request was told that no job is active, until it inserts one. -/
abbrev Checked : Protocol requests where
  Loc := Option ℕ
  init := none
  next := fun _ l e a =>
    match e, a with
    | .db (.hasRunningJobForCluster cluster), .ok false => some cluster
    | .db (.hasRunningJobForCluster _), _ => none
    | .db (.insertRollingUpdateJob _ _), _ => none
    | _, _ => l
  may := fun _ l e =>
    match e with
    | .db (.insertRollingUpdateJob cluster _) => l = some cluster
    | _ => True

def Stmt.plain : Stmt → Bool
  | .db (.hasRunningJobForCluster _) | .db (.insertRollingUpdateJob _ _) => false
  | _ => true

theorem next_of_plain {r : Role} {l : Option ℕ} {e : Stmt} (he : e.plain = true) (a : e.Ans) :
    Checked.next r l e a = l := by
  cases e with
  | db d => cases d with
    | hasRunningJobForCluster _ | insertRollingUpdateJob _ _ => cases he
    | _ => rfl
  | _ => rfl

section

attribute [local simp] db ext respond updateJob Prog.forall_except

variable {r : Role} {α β : Type} {l : Option ℕ}

@[local simp] theorem follows_releasePending {pendingJobs : List Job} {Q : Bool → Option ℕ → Prop}
    (h : ∀ released, Q released l) : Checked.Follows r (releasePending pendingJobs) Q l := by
  induction pendingJobs <;> simp_all [releasePending]

@[local simp] theorem follows_insertNodes {job : ℕ} {client : Bool} {nodes : List String} :
    Checked.Follows r (insertNodes job client nodes) (fun _ _ => True) l := by
  induction nodes <;> cases client <;> simp_all [insertNodes]

theorem checked_followed : Checked.Followed fun _ => True := by
  intro r
  cases r with
  | createJob p =>
    simp [code, createJob, checkJob, createProxmoxClient, preflight, checkCredentials, insertJob]
  | cancelJob clusterID jobID =>
    simp [code, cancelJob, jobInCluster]
    rintro - - (_ | n) <;> simp
  | _ => simp [code, startJob, pauseJob, resumeJob, jobInCluster]

end

/-! ## Runs -/

theorem jobs_of_exec {e : Stmt} {o : e.Outcome} {a : e.Ans} {t t' : Table}
    (he : e.plain = true) (hx : exec e o t = some (a, t')) :
    ∃ f : Job → Job, t'.jobs = t.jobs.map f ∧
      ∀ j, (f j).id = j.id ∧ ∀ cluster, (f j).activeIn cluster = true → j.activeIn cluster = true := by
  by_cases hu : ∃ u id, e = .db (.updateJob u id) ∧ t' = t.updateJob u id
  · obtain ⟨u, id, -, rfl⟩ := hu
    exact ⟨t.updated u id, rfl, fun j => ⟨updated_id t u id j, fun _ => active_of_updated⟩⟩
  · refine ⟨id, ?_, fun j => ⟨rfl, fun _ h => h⟩⟩
    rw [List.map_id]
    cases e with
    | db d => cases o with
      | some err => cases hx; rfl
      | none => cases d with
        | insertRollingUpdateJob cluster row => cases he
        | updateJob u id => cases hx; exact absurd ⟨u, id, rfl, rfl⟩ hu
        | _ => cases hx; rfl
    | _ => cases hx; rfl

/-- The jobs of the cluster inserted since party `i` last asked for active ones, none if it never
asked. -/
def insertedSince (i cluster : ℕ) : requests.Log → Option (List ℕ)
  | [] => none
  | ⟨j, _, .db (.hasRunningJobForCluster _), _, _⟩ :: log =>
      if j = i then some [] else insertedSince i cluster log
  | ⟨_, _, .db (.insertRollingUpdateJob c _), .ok job, _⟩ :: log =>
      if c = cluster then (insertedSince i cluster log).map (job.id :: ·)
      else insertedSince i cluster log
  | _ :: log => insertedSince i cluster log

theorem insertedSince_plain {i j cluster : ℕ} {r : Role} {e : Stmt} (he : e.plain = true)
    (a : e.Ans) (t : Table) (log : requests.Log) :
    insertedSince i cluster (⟨j, r, e, a, t⟩ :: log) = insertedSince i cluster log := by
  cases e with
  | db d => cases d with
    | hasRunningJobForCluster _ | insertRollingUpdateJob _ _ => cases he
    | _ => rfl
  | _ => rfl

/-- No job is inserted while one inserted since the request's own check is still active. -/
def alone (cluster : ℕ) : Cond requests := fun log i _ e _ t =>
  match e with
  | .db (.insertRollingUpdateJob c _) =>
      c ≠ cluster || (t.active cluster).all fun j => j.id ∉ (insertedSince i cluster log).getD []
  | _ => true

/-- At most one job is active, and a request that was told of none has missed only later inserts. -/
structure ActiveInv (cluster : ℕ) (log : requests.Log) (t : Table) : Prop where
  one : (t.active cluster).length ≤ 1
  since : ∀ i, Checked.loc i log = some cluster →
    ∃ ids, insertedSince i cluster log = some ids ∧ ∀ j ∈ t.active cluster, j.id ∈ ids

namespace ActiveInv

variable {cluster : ℕ} {log : requests.Log} {t t' : Table} {i : ℕ} {r : Role}

theorem init (h : t.active cluster = []) : ActiveInv cluster [] t where
  one := by rw [h]; exact Nat.zero_le 1
  since := nofun

section

variable (h : ActiveInv cluster log t)

include h

theorem step_plain {e : Stmt} {o : e.Outcome} {a : e.Ans} (he : e.plain = true)
    (hx : exec e o t = some (a, t')) : ActiveInv cluster (⟨i, r, e, a, t⟩ :: log) t' := by
  obtain ⟨f, hjobs, hf⟩ := jobs_of_exec he hx
  constructor
  · have hle : (t'.active cluster).length ≤ (t.active cluster).length := by
      unfold Table.active
      rw [hjobs, ← List.countP_eq_length_filter, ← List.countP_eq_length_filter, List.countP_map]
      exact List.countP_mono_left fun j _ hj => (hf j).2 cluster hj
    exact hle.trans h.one
  · intro k hk
    have hloc : Checked.loc k log = some cluster := by
      by_cases hik : i = k
      · subst hik
        rwa [loc_self, next_of_plain he] at hk
      · rwa [loc_ne hik] at hk
    obtain ⟨ids, hids, hsince⟩ := h.since k hloc
    refine ⟨ids, (insertedSince_plain he a t log).trans hids, fun j' hj' => ?_⟩
    obtain ⟨hmem, hactive⟩ := List.mem_filter.mp hj'
    rw [hjobs] at hmem
    obtain ⟨j, hj, rfl⟩ := List.mem_map.mp hmem
    rw [(hf j).1]
    exact hsince j (List.mem_filter.mpr ⟨hj, (hf j).2 cluster hactive⟩)

theorem step_check {c : ℕ} {a : Except Err Bool} (ha : a = .ok false → t.active c = []) :
    ActiveInv cluster (⟨i, r, .db (.hasRunningJobForCluster c), a, t⟩ :: log) t := by
  refine ⟨h.one, fun k hk => ?_⟩
  by_cases hik : i = k
  · -- the party that asks has missed nothing
    subst hik
    rw [loc_self] at hk
    match a with
    | .error _ | .ok true => cases hk
    | .ok false =>
      cases hk
      exact ⟨[], if_pos rfl, by simp [ha rfl]⟩
  · rw [loc_ne hik] at hk
    obtain ⟨ids, hids, hsince⟩ := h.since k hk
    exact ⟨ids, (if_neg hik).trans hids, hsince⟩

/-- An insert. The party forgets its check, and the others have missed the job that is new. -/
theorem step_insert {c : ℕ} {row : JobRow} {a : Except Err Job}
    (hone : (t'.active cluster).length ≤ 1)
    (hnew : ∀ j ∈ t'.active cluster, j ∈ t.active cluster ∨ c = cluster ∧ a = .ok j) :
    ActiveInv cluster (⟨i, r, .db (.insertRollingUpdateJob c row), a, t⟩ :: log) t' := by
  refine ⟨hone, fun k hk => ?_⟩
  by_cases hik : i = k
  · subst hik
    rw [loc_self] at hk
    cases hk
  · rw [loc_ne hik] at hk
    obtain ⟨ids, hids, hsince⟩ := h.since k hk
    cases a with
    | error e => exact ⟨ids, hids, fun j hj => hsince j ((hnew j hj).resolve_right (by simp))⟩
    | ok job =>
      by_cases hc : c = cluster
      · refine ⟨job.id :: ids, (if_pos hc).trans (by rw [hids]; rfl), fun j hj => ?_⟩
        rcases hnew j hj with hold | ⟨-, heq⟩
        · exact .tail _ (hsince j hold)
        · cases heq
          exact .head _
      · exact ⟨ids, (if_neg hc).trans hids, fun j hj =>
          hsince j ((hnew j hj).resolve_right fun hnew => hc hnew.1)⟩

theorem step_inserted {c : ℕ} {row stored : JobRow}
    (hok : c = cluster → ∀ j ∈ t.active cluster, j.id ∉ (insertedSince i cluster log).getD [])
    (hmay : Checked.loc i log = some c) :
    ActiveInv cluster
      (⟨i, r, .db (.insertRollingUpdateJob c row), .ok (t.newJob c stored), t⟩ :: log)
      (t.insertJob c stored) := by
  have hactive : (t.insertJob c stored).active cluster =
      t.active cluster ++ [t.newJob c stored].filter (Job.activeIn cluster) := List.filter_append ..
  by_cases hc : c = cluster
  · subst hc
    -- every active job was inserted since the check, and the condition leaves none of these
    obtain ⟨ids, hids, hsince⟩ := h.since i hmay
    have hnone : t.active c = [] := List.eq_nil_iff_forall_not_mem.mpr fun j hj =>
      hok rfl j hj (by rw [hids]; exact hsince j hj)
    rw [hnone] at hactive
    refine h.step_insert ?_ fun j hj => .inr ⟨rfl, ?_⟩
    · rw [hactive]
      exact List.length_filter_le _ _
    · rw [hactive] at hj
      rw [List.mem_singleton.mp (List.mem_of_mem_filter hj)]
  · have hother : [t.newJob c stored].filter (Job.activeIn cluster) = [] := by
      simp [Table.newJob, Job.activeIn, hc]
    rw [hother, List.append_nil] at hactive
    refine h.step_insert ?_ fun j hj => .inl ?_
    · rw [hactive]
      exact h.one
    · rwa [hactive] at hj

theorem step {e : Stmt} {o : e.Outcome} {a : e.Ans} (hok : alone cluster log i r e o t = true)
    (hmay : Checked.may r (Checked.loc i log) e) (hx : exec e o t = some (a, t')) :
    ActiveInv cluster (⟨i, r, e, a, t⟩ :: log) t' := by
  cases hplain : e.plain with
  | true => exact h.step_plain hplain hx
  | false =>
    cases e with
    | db d => cases d with
      | hasRunningJobForCluster c => cases o with
        | some err => cases hx; exact h.step_check nofun
        | none =>
          cases hx
          refine h.step_check fun ha => ?_
          simpa [Table.active] using ha
      | insertRollingUpdateJob c row => cases o with
        | some err => cases hx; exact h.step_insert h.one fun j hj => .inl hj
        | none =>
          cases hx
          refine h.step_inserted (fun hc j hj => ?_) hmay
          simp only [alone, ne_eq, hc, not_true_eq_false, decide_false, Bool.false_or,
            List.all_eq_true, decide_eq_true_eq] at hok
          exact hok j hj
      | _ => cases hplain
    | _ => cases hplain

end

end ActiveInv

/-- **One active job.** A cluster that starts without an active rolling update never has two, if no
request inserts a job while one inserted since its own check is still active. -/
theorem at_most_one_active (cluster : ℕ) (t : Table) (ht : t.active cluster = [])
    (pool : requests.Pool) (hrun : requests.Reach (alone cluster) (Pool.idle t) pool) :
    (pool.shared.active cluster).length ≤ 1 := by
  have hinv : ActiveInv cluster pool.log pool.shared :=
    invariant checked_followed (.init ht) (fun h => h.step) hrun
  exact hinv.one

def smoothly : requests.Oracle
  | .db _ => none
  | .ext (.releaseJobState _) => true
  | .ext (.createProxmoxClient _) => .ok ()
  | .ext (.analyzeHAConstraints _ _) => .ok false
  | .ext (.analyzeCapacity _ _) => ⟨false, none⟩
  | .ext (.hasClusterSSHCredentials _) => .ok true
  | .ext (.getNodeAptUpdates _) => .ok []
  | .respond _ _ => ()
  | .wait _ => ()

def oneNode : CreateJobParams := { clusterID := 1, nodes := ["pve1"] }

def steps (i n : ℕ) : List requests.Event := List.replicate n (.step i smoothly)

/-- The second request waits for the first job to be cancelled. -/
theorem at_most_one_active_cancelled :
    ∃ pool, requests.Reach (alone 1) (Pool.idle {}) pool ∧
      (pool.shared.jobs.length = 2 ∧ (pool.shared.active 1).length ≤ 1) := by
  obtain ⟨pool, hpool, hjobs⟩ := exists_reach (alone 1) ({} : Table)
    ([.start (.createJob oneNode), .start (.createJob oneNode)] ++ steps 0 9 ++
      [.start (.cancelJob 1 0)] ++ steps 2 3 ++ steps 1 10)
    (fun pool => pool.shared.jobs.length = 2) (by decide +kernel)
  exact ⟨pool, hpool, hjobs, at_most_one_active 1 {} rfl pool hpool⟩

/-- Two requests that both check before either inserts. -/
theorem two_active :
    ∃ pool, requests.Reach Cond.any (Pool.idle {}) pool ∧
      (pool.shared.active 1).length = 2 :=
  exists_reach _ _ ([.start (.createJob oneNode), .start (.createJob oneNode)] ++ steps 0 1 ++
    steps 1 1 ++ steps 0 8 ++ steps 1 8) _ (by decide +kernel)

end Nexara.Jobs
