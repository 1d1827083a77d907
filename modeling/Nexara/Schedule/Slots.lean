import Mathlib.Data.List.Nodup
import Mathlib.Data.List.Range
import Nexara.Schedule.Runner

/-!
# A due schedule runs once

A claim takes all due rows at one moment and lasts `taskClaimStaleSeconds` from there; the rows are
worked off one by one and nothing renews it. With turns of at most two minutes, the sixth row of a
batch can be past its claim before its turn comes: another pass then claims it, and both issue its
call (`sixth_row_issued_twice`).
-/

namespace Nexara.Schedule

open Conc Protocol System

/-! ## What a pass remembers -/

/-- The claimed rows still to be finished, and whether the call of the first was issued. -/
structure Turn where
  rest : List ℕ := []
  issued : Bool := false

def Turn.next (l : Turn) : (e : Stmt) → e.Ans → Turn
  | .claimDueTasks, some groups => { rest := groups.tasks.map Claimed.id }
  | .issueCall _, _ => { l with issued := true }
  | .updateTaskLastRun .., _ | .disableScheduledTaskForBadSchedule .., _ => { rest := l.rest.tail }
  | .claimDueTasks, none | .reconcileDispatchedScheduledTasks, _ | .createClient _, _ | .timeNow, _
  | .requireNode _, _ | .nextRunTime .., _ | .wait _, _ => l

def turns : Protocol runner where
  Loc := Turn
  init := {}
  next _ := Turn.next
  may
    | .run, l, e => match e with
      | .claimDueTasks => l.rest = []
      | .issueCall id => l.rest.head? = some id ∧ l.issued = false
      | .updateTaskLastRun id .. | .disableScheduledTaskForBadSchedule id .. =>
        l.rest.head? = some id
      | .wait _ => False
      | _ => True
    | .reconcile, _, e => e = .reconcileDispatchedScheduledTasks
    | .wait seconds, _, e => e = .wait seconds

attribute [local simp] call turns Turn.next Option.forall Prog.forall_except

theorem executeTask_follows {task : Claimed} {rest : List ℕ} :
    turns.Follows .run (executeTask task) (fun _ l => l = ({ rest } : Turn))
      ({ rest := task.id :: rest } : Turn) := by
  cases hrefusal : task.row.refusal <;> simp [executeTask, finishTaskRun, hrefusal]

variable {id : ℕ} {t : Task}

theorem markFailed_follows {errMsg : String} {rest : List ℕ} :
    turns.Follows .run (markFailed id errMsg) (fun _ l => l = ({ rest } : Turn))
      ({ rest := id :: rest } : Turn) := by
  simp [markFailed, finishTaskRun]

theorem each_follows {f : Claimed → Code Unit}
    (hf : ∀ (task : Claimed) (rest : List ℕ), turns.Follows .run (f task)
      (fun _ l => l = ({ rest } : Turn)) ({ rest := task.id :: rest } : Turn)) (rest : List ℕ) :
    ∀ tasks : List Claimed, turns.Follows .run (Prog.each f tasks)
      (fun _ l => l = ({ rest } : Turn)) ({ rest := tasks.map Claimed.id ++ rest } : Turn)
  | [] => rfl
  | task :: tasks => by
    refine (hf task (tasks.map Claimed.id ++ rest)).seq ?_
    rintro _ _ rfl
    exact each_follows hf rest tasks

theorem runClusters_follows : ∀ groups : Groups,
    turns.Follows .run (Prog.each runCluster groups) (fun _ l => l = ({} : Turn))
      ({ rest := groups.tasks.map Claimed.id } : Turn)
  | [] => rfl
  | (cluster, tasks) :: groups => by
    have hrest : (Groups.tasks ((cluster, tasks) :: groups)).map Claimed.id =
        tasks.map Claimed.id ++ (Groups.tasks groups).map Claimed.id := by
      simp [Groups.tasks]
    have hgroup : turns.Follows .run (runCluster (cluster, tasks))
        (fun _ l => l = ({ rest := (Groups.tasks groups).map Claimed.id } : Turn))
        ({ rest := tasks.map Claimed.id ++ (Groups.tasks groups).map Claimed.id } : Turn) := by
      refine follows_stmt trivial fun err => ?_
      cases err with
      | some err =>
        exact each_follows (fun _ _ => markFailed_follows) _ _
      | none => exact each_follows (fun _ _ => executeTask_follows) _ _
    rw [hrest]
    refine hgroup.seq ?_
    rintro _ _ rfl
    exact runClusters_follows groups

theorem turns_followed : turns.Followed fun _ => True := by
  intro r
  cases r with
  | reconcile | wait seconds => exact ⟨rfl, fun _ => trivial⟩
  | run =>
    refine follows_stmt trivial fun _ => follows_stmt rfl fun groups => ?_
    cases groups with
    | none => trivial
    | some groups => exact (runClusters_follows groups).mono fun _ _ _ => trivial

def turn (k : ℕ) (log : runner.Log) : Turn := turns.loc k log

/-! ## How a history paces a batch -/

/-- When a pass claimed its rows, since when its present turn lasts, and how many turns are over. -/
structure Progress where
  claimedAt : ℕ := 0
  since : ℕ := 0
  finished : ℕ := 0

def Progress.next (p : Progress) (now : ℕ) : (e : Stmt) → e.Ans → Progress
  | .claimDueTasks, some _ => { claimedAt := now, since := now }
  | .updateTaskLastRun .., _ | .disableScheduledTaskForBadSchedule .., _ =>
    { p with since := now, finished := p.finished + 1 }
  | .claimDueTasks, none | .reconcileDispatchedScheduledTasks, _ | .createClient _, _ | .timeNow, _
  | .requireNode _, _ | .issueCall _, _ | .nextRunTime .., _ | .wait _, _ => p

def progress (k : ℕ) : runner.Log → Progress
  | [] => {}
  | en :: log =>
    if en.party = k then (progress k log).next en.before.now en.stmt en.ans else progress k log

/-- No turn lasts longer than two minutes. -/
def Prompt : runner.Cond := fun log _ _ e _ w =>
  match e with
  | .wait seconds => log.all fun en =>
      (turn en.party log).rest = [] || w.now + seconds ≤ (progress en.party log).since + 120
  | _ => true

/-- No claim finds more than five rows due. -/
def Small : runner.Cond := fun _ _ _ e _ w =>
  match e with
  | .claimDueTasks => w.claimed.length ≤ 5
  | _ => true

def PromptAndSmall : runner.Cond := fun log i r e o w => Prompt log i r e o w && Small log i r e o w

/-! ## Calls without a record -/

def calls (id : ℕ) (en : runner.Entry) : Bool := en.stmt = .issueCall id

def records (id : ℕ) (en : runner.Entry) : Bool :=
  match en.stmt with
  | .updateTaskLastRun id' .. => id' = id
  | _ => false

/-- Party `k` issued the call of the task and has not recorded it. -/
def pending (k id : ℕ) : runner.Log → Bool
  | [] => false
  | en :: log =>
    if en.party = k then calls id en || (!records id en && pending k id log) else pending k id log

/-- Every call of a task was issued with none pending. -/
def Once : runner.Log → Prop
  | [] => True
  | en :: log => (∀ id, calls id en = true → ∀ k, pending k id log = false) ∧ Once log

theorem Once.of_append {log : runner.Log} :
    ∀ {later : runner.Log}, Once (later ++ log) → Once log
  | [], h => h
  | _ :: _, h => Once.of_append h.2

theorem exists_record {i : ℕ} {en : runner.Entry} {older : runner.Log}
    (hparty : en.party = i) (hcall : calls id en = true) :
    ∀ {mid : runner.Log}, pending i id (mid ++ en :: older) = false →
      ∃ en' ∈ mid, en'.party = i ∧ records id en' = true
  | [], h => by
    simp [pending, hparty, hcall] at h
  | en' :: mid, h => by
    have ih : pending i id (mid ++ en :: older) = false → _ := exists_record hparty hcall
    simp only [List.cons_append, pending] at h
    grind

/-! ## Rows under a claim -/

/-- The row is as a claim at `c` left it. -/
structure Task.HeldSince (t : Task) (c : ℕ) : Prop where
  enabled : t.enabled = true
  running : t.lastStatus = some .running
  claimed : t.lastRunAt = some c

theorem Task.due_of_claim_over {c now : ℕ} (h : t.HeldSince c) (hdue : t.due now = true) :
    c + taskClaimStaleSeconds < now := by
  simpa [h.running, h.claimed] using (Bool.and_eq_true_iff.1 hdue).2

theorem Task.settle_held {c : ℕ} (h : t.HeldSince c) (ended : Option TaskEnd) :
    t.settle ended = t := by
  cases ended with
  | none => rfl
  | some ended => simp [Task.settle, h.running]

theorem Task.settle_enabled (t : Task) (ended : Option TaskEnd) :
    (t.settle ended).enabled = t.enabled := by
  unfold Task.settle
  split
  · rfl
  · split_ifs
    · rfl
    · split <;> rfl

theorem mem_claimed {w : World} {x : Claimed} :
    x ∈ w.claimed ↔ ∃ t, w.rows[x.id]? = some t ∧ t.due w.now = true ∧ x.row = t.claim w.now := by
  obtain ⟨id, row⟩ := x
  simp only [World.claimed, List.mem_filterMap, List.mem_range, Option.map_eq_some_iff,
    Option.filter_eq_some_iff, Claimed.mk.injEq]
  constructor
  · rintro ⟨_, -, t, ⟨ht, hdue⟩, rfl, rfl⟩
    exact ⟨t, ht, hdue, rfl⟩
  · rintro ⟨t, ht, hdue, rfl⟩
    exact ⟨id, (List.getElem?_eq_some_iff.1 ht).1, t, ⟨ht, hdue⟩, rfl, rfl⟩

theorem claimed_nodup (w : World) : (w.claimed.map Claimed.id).Nodup := by
  have hsub : (w.claimed.map Claimed.id).Sublist (List.range w.rows.length) := by
    unfold World.claimed
    generalize List.range w.rows.length = ids
    induction ids with
    | nil => exact List.Sublist.slnil
    | cons id ids ih =>
      rw [List.filterMap_cons]
      cases hrow : w.rows[id]?.filter (·.due w.now) with
      | none => simpa using ih.cons id
      | some t => simpa using ih.cons_cons id
  exact hsub.nodup List.nodup_range

/-! ## The invariant -/

/-- A party's rows are under its claim, which is in time for all of them. -/
structure Turn.Held (l : Turn) (p : Progress) (w : World) : Prop where
  rows : ∀ id ∈ l.rest, ∃ t, w.rows[id]? = some t ∧ t.HeldSince p.claimedAt
  nodup : l.rest.Nodup
  prompt : l.rest ≠ [] → w.now ≤ p.since + 120
  pace : l.rest ≠ [] → p.since ≤ p.claimedAt + 120 * p.finished ∧ p.finished + l.rest.length ≤ 5

structure Inv (log : runner.Log) (w : World) : Prop where
  held : ∀ k, (turn k log).Held (progress k log) w
  apart : ∀ i k id, id ∈ (turn i log).rest → id ∈ (turn k log).rest → i = k
  pending : ∀ k id, pending k id log = true →
    ((turn k log).rest.head? = some id ∧ (turn k log).issued = true) ∨
      ∃ t, w.rows[id]? = some t ∧ t.enabled = false
  once : Once log

variable {log : runner.Log} {w w' : World} {i : ℕ} {r : Role} {e : Stmt} {a : e.Ans}

theorem Turn.Held.not_due {l : Turn} {p : Progress} (h : l.Held p w)
    (hid : id ∈ l.rest) (ht : w.rows[id]? = some t) : t.due w.now = false := by
  obtain ⟨t', ht', hheld⟩ := h.rows id hid
  obtain rfl : t' = t := Option.some.inj (ht'.symm.trans ht)
  have hne : l.rest ≠ [] := List.ne_nil_of_mem hid
  have hpos : 0 < l.rest.length := List.length_pos_of_mem hid
  have hprompt := h.prompt hne
  have hpace := h.pace hne
  by_contra hdue
  have hover := Task.due_of_claim_over hheld (Bool.not_eq_false _ ▸ hdue)
  unfold taskClaimStaleSeconds at hover
  omega

theorem Turn.Held.frame {l : Turn} {p : Progress} (h : l.Held p w) (hnow : w'.now = w.now)
    (hrows : ∀ id ∈ l.rest, ∀ t, w.rows[id]? = some t → w'.rows[id]? = some t) : l.Held p w' where
  rows id hid := by
    obtain ⟨t, ht, hheld⟩ := h.rows id hid
    exact ⟨t, hrows id hid t ht, hheld⟩
  nodup := h.nodup
  prompt := by rw [hnow]; exact h.prompt
  pace := h.pace

theorem turn_self : turn i (⟨i, r, e, a, w⟩ :: log) = (turn i log).next e a :=
  loc_self (T := turns) i r e a w log

theorem turn_ne {k : ℕ} (h : k ≠ i) : turn k (⟨i, r, e, a, w⟩ :: log) = turn k log :=
  loc_ne (T := turns) (Ne.symm h) r e a w log

theorem progress_self :
    progress i (⟨i, r, e, a, w⟩ :: log) = (progress i log).next w.now e a := if_pos rfl

theorem progress_ne {k : ℕ} (h : k ≠ i) :
    progress k (⟨i, r, e, a, w⟩ :: log) = progress k log := if_neg (Ne.symm h)

theorem pending_self : pending i id (⟨i, r, e, a, w⟩ :: log) =
    (calls id ⟨i, r, e, a, w⟩ || (!records id ⟨i, r, e, a, w⟩ && pending i id log)) := if_pos rfl

theorem pending_ne {k : ℕ} (h : k ≠ i) :
    pending k id (⟨i, r, e, a, w⟩ :: log) = pending k id log := if_neg (Ne.symm h)

section

variable (h : Inv log w) (hturn : ∀ l : Turn, l.next e a = l)
  (hprogress : ∀ p : Progress, p.next w.now e a = p)
  (hcalls : ∀ id, calls id ⟨i, r, e, a, w⟩ = false)
  (hrecords : ∀ id, records id ⟨i, r, e, a, w⟩ = false)

include h hturn hprogress hcalls hrecords

theorem Inv.quiet
    (hrows : ∀ (id : ℕ) (t : Task), w.rows[id]? = some t → ∃ t', w'.rows[id]? = some t' ∧
      (∀ c, t.HeldSince c → t'.HeldSince c) ∧ (t.enabled = false → t'.enabled = false))
    (hprompt : ∀ k, (turn k log).rest ≠ [] → w'.now ≤ (progress k log).since + 120) :
    Inv (⟨i, r, e, a, w⟩ :: log) w' := by
  have hturn' k : turn k (⟨i, r, e, a, w⟩ :: log) = turn k log := by
    by_cases hk : k = i
    · rw [hk, turn_self, hturn]
    · exact turn_ne hk
  have hprogress' k : progress k (⟨i, r, e, a, w⟩ :: log) = progress k log := by
    by_cases hk : k = i
    · rw [hk, progress_self, hprogress]
    · exact progress_ne hk
  have hpending k id : Schedule.pending k id (⟨i, r, e, a, w⟩ :: log) =
      Schedule.pending k id log := by
    by_cases hk : k = i
    · simp [hk, pending_self, hcalls, hrecords]
    · exact pending_ne hk
  constructor
  · intro k
    rw [hturn', hprogress']
    refine ⟨fun id hid => ?_, (h.held k).nodup, hprompt k, (h.held k).pace⟩
    obtain ⟨t, ht, hheld⟩ := (h.held k).rows id hid
    obtain ⟨t', ht', hkeep, -⟩ := hrows id t ht
    exact ⟨t', ht', hkeep _ hheld⟩
  · intro j k id
    rw [hturn', hturn']
    exact h.apart j k id
  · intro k id hk
    rw [hpending] at hk
    have := h.pending k id hk
    grind
  · exact ⟨fun id hid => by simp [hcalls] at hid, h.once⟩

theorem Inv.idle : Inv (⟨i, r, e, a, w⟩ :: log) w :=
  h.quiet hturn hprogress hcalls hrecords (fun _ t ht => ⟨t, ht, fun _ hc => hc, id⟩)
    fun k => (h.held k).prompt

end

theorem afterClaim_of_not_due (ht : w.rows[id]? = some t)
    (hdue : t.due w.now = false) : w.afterClaim.rows[id]? = some t := by
  simp [World.afterClaim, ht, hdue]

theorem afterClaim_of_due (ht : w.rows[id]? = some t)
    (hdue : t.due w.now = true) : w.afterClaim.rows[id]? = some (t.claim w.now) := by
  simp [World.afterClaim, ht, hdue]

theorem Task.not_due_of_disabled {now : ℕ} (h : t.enabled = false) :
    t.due now = false := by simp [Task.due, h]

theorem inv_claim {groups : Groups} (h : Inv log w) (hrest : (turn i log).rest = [])
    (hsmall : w.claimed.length ≤ 5) (hperm : groups.tasks.Perm w.claimed) :
    Inv (⟨i, r, .claimDueTasks, some groups, w⟩ :: log) w.afterClaim := by
  have hmem : ∀ id, id ∈ groups.tasks.map Claimed.id → ∃ t, w.rows[id]? = some t ∧
      t.due w.now = true := by
    intro id hid
    obtain ⟨x, hx, rfl⟩ := List.mem_map.1 hid
    obtain ⟨t, ht, hdue, -⟩ := mem_claimed.1 (hperm.mem_iff.1 hx)
    exact ⟨t, ht, hdue⟩
  -- a row under a claim is not due, so the new batch has none of them
  have hfresh : ∀ k id, id ∈ (turn k log).rest → id ∉ groups.tasks.map Claimed.id := by
    intro k id hk hid
    obtain ⟨t, ht, hdue⟩ := hmem id hid
    simp [(h.held k).not_due hk ht] at hdue
  have hself : turn i (⟨i, r, .claimDueTasks, some groups, w⟩ :: log) =
      { rest := groups.tasks.map Claimed.id } := turn_self
  have hne k (hk : k ≠ i) : turn k (⟨i, r, .claimDueTasks, some groups, w⟩ :: log) = turn k log :=
    turn_ne hk
  constructor
  · intro k
    by_cases hk : k = i
    · subst hk
      rw [hself, progress_self]
      refine ⟨fun id hid => ?_, ?_, fun _ => Nat.le_add_right _ _, fun _ => ⟨Nat.le_refl _, ?_⟩⟩
      · obtain ⟨t, ht, hdue⟩ := hmem id hid
        refine ⟨_, afterClaim_of_due ht hdue, ?_, rfl, rfl⟩
        simp only [Task.due, Bool.and_eq_true] at hdue
        exact hdue.1.1
      · exact (hperm.map Claimed.id).nodup_iff.2 (claimed_nodup w)
      · simpa [Progress.next, hperm.length_eq] using hsmall
    · rw [hne k hk, progress_ne hk]
      exact (h.held k).frame rfl fun id hid t ht =>
        afterClaim_of_not_due ht ((h.held k).not_due hid ht)
  · intro j k id hj hk
    have := h.apart j k id
    grind
  · intro k id hk
    have hoff : (∃ t, w.rows[id]? = some t ∧ t.enabled = false) →
        ∃ t, w.afterClaim.rows[id]? = some t ∧ t.enabled = false := by
      rintro ⟨t, ht, hoff⟩
      exact ⟨t, afterClaim_of_not_due ht (Task.not_due_of_disabled hoff), hoff⟩
    by_cases hki : k = i
    · subst hki
      rw [pending_self] at hk
      obtain ⟨hhead, -⟩ | hrow := h.pending k id hk
      · simp [hrest] at hhead
      · exact .inr (hoff hrow)
    · rw [pending_ne hki] at hk
      rw [hne k hki]
      exact (h.pending k id hk).imp_right hoff
  · exact ⟨nofun, h.once⟩

theorem inv_issue {a : Except String String} (h : Inv log w)
    (hhead : (turn i log).rest.head? = some id) (hissued : (turn i log).issued = false) :
    Inv (⟨i, r, .issueCall id, a, w⟩ :: log) w := by
  have hmem : id ∈ (turn i log).rest := List.mem_of_mem_head? hhead
  have hself : turn i (⟨i, r, .issueCall id, a, w⟩ :: log) =
      { turn i log with issued := true } := turn_self
  have hrest k : (turn k (⟨i, r, .issueCall id, a, w⟩ :: log)).rest = (turn k log).rest := by
    by_cases hk : k = i
    · rw [hk, hself]
    · rw [turn_ne hk]
  have hprogress k : progress k (⟨i, r, .issueCall id, a, w⟩ :: log) = progress k log := by
    by_cases hk : k = i
    · rw [hk, progress_self]
      rfl
    · exact progress_ne hk
  constructor
  · intro k
    obtain ⟨hrows, hnodup, hprompt, hpace⟩ := h.held k
    rw [hprogress]
    constructor <;> rw [hrest] <;> assumption
  · intro j k
    rw [hrest, hrest]
    exact h.apart j k
  · intro k id' hk
    by_cases hki : k = i
    · subst hki
      by_cases hid : id' = id
      · subst hid
        rw [hself]
        exact .inl ⟨hhead, rfl⟩
      · have hcalls : calls id' ⟨k, r, .issueCall id, a, w⟩ = false := by
          simp [calls, Ne.symm hid]
        rw [pending_self, hcalls] at hk
        have := h.pending k id' hk
        grind
    · rw [pending_ne hki] at hk
      rw [turn_ne hki]
      exact h.pending k id' hk
  · refine ⟨fun id' hid' k => ?_, h.once⟩
    obtain rfl : id = id' := by simpa [calls] using hid'
    by_contra hpend
    obtain ⟨hhead', hissued'⟩ | ⟨t, ht, hoff⟩ := h.pending k id (Bool.not_eq_false _ ▸ hpend)
    · -- the party whose call is pending holds the row, so it is the one that issues now
      obtain rfl := h.apart k i id (List.mem_of_mem_head? hhead') hmem
      simp [hissued] at hissued'
    · obtain ⟨t', ht', hheld⟩ := (h.held i).rows id hmem
      have := hheld.enabled
      grind

section

variable {f : Task → Task}

theorem update_ne {id' : ℕ} (h : id' ≠ id) : (w.update id f).rows[id']? = w.rows[id']? := by
  simp [World.update, Ne.symm h]

theorem update_self (ht : w.rows[id]? = some t) : (w.update id f).rows[id]? = some (f t) := by
  simp [World.update, ht]

theorem inv_finish (h : Inv log w) (hhead : (turn i log).rest.head? = some id)
    (hturn : ∀ l : Turn, l.next e a = { rest := l.rest.tail }) (hprogress : ∀ p : Progress,
      p.next w.now e a = { p with since := w.now, finished := p.finished + 1 })
    (hcalls : ∀ id', calls id' ⟨i, r, e, a, w⟩ = false)
    (hrecord : records id ⟨i, r, e, a, w⟩ = true ∨ ∀ t, (f t).enabled = false) :
    Inv (⟨i, r, e, a, w⟩ :: log) (w.update id f) := by
  have hself : turn i (⟨i, r, e, a, w⟩ :: log) = { rest := (turn i log).rest.tail } := by
    rw [turn_self, hturn]
  obtain ⟨rest, hrest⟩ : ∃ rest, (turn i log).rest = id :: rest :=
    List.head?_eq_some_iff.1 hhead
  have hheld := h.held i
  have hmem : id ∈ (turn i log).rest := List.mem_of_mem_head? hhead
  have hnodup : id ∉ rest ∧ rest.Nodup := by
    rw [← List.nodup_cons, ← hrest]
    exact hheld.nodup
  have hsub : ∀ k id', id' ∈ (turn k (⟨i, r, e, a, w⟩ :: log)).rest →
      id' ∈ (turn k log).rest ∧ id' ≠ id := by
    intro k id' hid'
    by_cases hk : k = i
    · subst hk
      grind
    · rw [turn_ne hk] at hid'
      have := h.apart k i id
      grind
  constructor
  · intro k
    by_cases hk : k = i
    · subst hk
      have hpace := hheld.pace (List.ne_nil_of_mem hmem)
      have hprompt := hheld.prompt (List.ne_nil_of_mem hmem)
      rw [hrest, List.length_cons] at hpace
      rw [progress_self, hprogress]
      refine ⟨fun id' hid' => ?_, ?_, fun _ => Nat.le_add_right _ _, fun _ => ?_⟩
      · obtain ⟨hin, hne⟩ := hsub k id' hid'
        rw [update_ne hne]
        exact hheld.rows id' hin
      · rw [hself, hrest]
        exact hnodup.2
      · rw [hself, hrest]
        dsimp only [List.tail_cons]
        omega
    · have hturn' : turn k (⟨i, r, e, a, w⟩ :: log) = turn k log := turn_ne hk
      rw [progress_ne hk, hturn']
      refine (h.held k).frame rfl fun id' hid' t ht => ?_
      rwa [update_ne (hsub k id' (by rw [hturn']; exact hid')).2]
  · intro j k id' hj hk
    exact h.apart j k id' (hsub j id' hj).1 (hsub k id' hk).1
  · intro k id' hk
    obtain ⟨t, ht, hon⟩ := hheld.rows id hmem
    have hoff (hid : id' ≠ id) : (w.update id f).rows[id']? = w.rows[id']? := update_ne hid
    have hupdated : (w.update id f).rows[id]? = some (f t) := update_self ht
    have henabled := hon.enabled
    by_cases hki : k = i
    · subst hki
      rw [pending_self, hcalls, Bool.false_or, Bool.and_eq_true] at hk
      have := h.pending k id' hk.2
      grind
    · rw [pending_ne hki] at hk
      rw [turn_ne hki]
      have := h.pending k id' hk
      grind
  · exact ⟨fun id' hid' => by simp [hcalls] at hid', h.once⟩

end

theorem may_run {l : Turn} (hmay : turns.may r l e) (hr : e ≠ .reconcileDispatchedScheduledTasks)
    (hw : ∀ seconds, e ≠ .wait seconds) : turns.may .run l e := by
  cases r with
  | run => exact hmay
  | reconcile => exact absurd hmay hr
  | wait seconds => exact absurd hmay (hw seconds)

theorem inv_step {o : e.Outcome} (h : Inv log w) (hok : PromptAndSmall log i r e o w = true)
    (hmay : turns.may r (turns.loc i log) e) (hx : exec e o w = some (a, w')) :
    Inv (⟨i, r, e, a, w⟩ :: log) w' := by
  obtain ⟨hprompt, hsmall⟩ := Bool.and_eq_true_iff.1 hok
  have hrun := may_run hmay
  cases e with
  | reconcileDispatchedScheduledTasks =>
    cases hx
    refine h.quiet (fun _ => rfl) (fun _ => rfl) (fun _ => rfl) (fun _ => rfl)
      (fun id t ht => ⟨t.settle (o id), by simp [ht], fun c hc => ?_, fun hoff => ?_⟩)
      fun k => (h.held k).prompt
    · rwa [Task.settle_held hc]
    · rwa [Task.settle_enabled]
  | claimDueTasks =>
    cases o with
    | none =>
      cases hx
      exact h.idle (fun _ => rfl) (fun _ => rfl) (fun _ => rfl) fun _ => rfl
    | some groups =>
      obtain ⟨hgroups, hsome⟩ := Option.ite_none_right_eq_some.1 hx
      cases hsome
      exact inv_claim h (hrun nofun nofun) (of_decide_eq_true hsmall) hgroups.1
  | createClient | timeNow | requireNode | nextRunTime =>
    cases hx
    exact h.idle (fun _ => rfl) (fun _ => rfl) (fun _ => rfl) fun _ => rfl
  | issueCall id =>
    cases hx
    exact inv_issue h (hrun nofun nofun).1 (hrun nofun nofun).2
  | updateTaskLastRun id lastRunAt nextRunAt run =>
    cases hx
    exact inv_finish h (hrun nofun nofun) (fun _ => rfl) (fun _ => rfl) (fun _ => rfl)
      (.inl (by simp [records]))
  | disableScheduledTaskForBadSchedule id cronErr run =>
    cases hx
    exact inv_finish h (hrun nofun nofun) (fun _ => rfl) (fun _ => rfl) (fun _ => rfl)
      (.inr fun _ => rfl)
  | wait seconds =>
    cases hx
    refine h.quiet (fun _ => rfl) (fun _ => rfl) (fun _ => rfl) (fun _ => rfl)
      (fun _ t ht => ⟨t, ht, fun _ hc => hc, id⟩) fun k hk => ?_
    -- a party with rows left has executed something
    obtain ⟨en, hen, rfl⟩ := seen_of_loc (T := turns) fun heq => hk (congrArg Turn.rest heq)
    have := List.all_eq_true.1 hprompt en hen
    simpa [hk] using this

theorem inv_init (rows : List Task) (now : ℕ) : Inv [] { rows, now } where
  held _ := ⟨nofun, List.nodup_nil, fun h => absurd rfl h, fun h => absurd rfl h⟩
  apart _ _ _ h := by cases h
  pending _ _ h := by cases h
  once := trivial

/-! ## Runs -/

/-- If no turn lasts longer than two minutes and no claim finds more than five rows due, between two
calls of one task the party of the first has recorded it. -/
theorem due_slot_issued_once (rows : List Task) (now : ℕ) (pool : runner.Pool)
    (hrun : runner.Reach PromptAndSmall (Pool.idle { rows, now }) pool) (id : ℕ)
    (later mid older : runner.Log) (en en' : runner.Entry)
    (hlog : pool.log = later ++ en' :: (mid ++ en :: older)) (hcall : en.stmt = .issueCall id)
    (hcall' : en'.stmt = .issueCall id) :
    ∃ en'' ∈ mid, en''.party = en.party ∧
      ∃ lastRunAt nextRunAt run, en''.stmt = .updateTaskLastRun id lastRunAt nextRunAt run := by
  have h : Inv pool.log pool.shared := invariant turns_followed (inv_init rows now)
    inv_step hrun
  have honce := h.once
  rw [hlog] at honce
  have hpending := honce.of_append.1 id (decide_eq_true hcall') en.party
  obtain ⟨en'', hmem, hparty, hrecord⟩ := exists_record rfl (decide_eq_true hcall) hpending
  refine ⟨en'', hmem, hparty, ?_⟩
  unfold records at hrecord
  split at hrecord
  · next id' lastRunAt nextRunAt run hstmt =>
    obtain rfl : id' = id := of_decide_eq_true hrecord
    exact ⟨lastRunAt, nextRunAt, run, hstmt⟩
  · cases hrecord

/-! ## Reboots of VMs in one cluster -/

/-- A claim finds the given rows; every call succeeds, and the next run is in an hour. -/
def claiming (claimed : List Claimed) : runner.Oracle
  | .reconcileDispatchedScheduledTasks => fun _ => none
  | .claimDueTasks => some [(0, claimed)]
  | .createClient _ | .requireNode _ => none
  | .issueCall _ => .ok "UPID:pve1:0001"
  | .nextRunTime _ started => .ok (started + 3600)
  | .timeNow | .updateTaskLastRun .. | .disableScheduledTaskForBadSchedule .. | .wait _ => ()

def waiting (party seconds : ℕ) : List runner.Event :=
  [.start (.wait seconds), .step party (claiming [])]

def claimRows (party : ℕ) (claimed : List Claimed) : List runner.Event :=
  .start .run :: List.replicate 3 (.step party (claiming claimed))

def hourly : List runner.Event :=
  claimRows 0 (World.claimed { rows := [{ clusterID := 0 }] }) ++
    List.replicate 5 (.step 0 (claiming [])) ++ waiting 1 3600 ++
    claimRows 2 [⟨0, Task.claim { clusterID := 0 } 3600⟩] ++
    List.replicate 3 (.step 2 (claiming []))

theorem due_slot_issued_once_hourly :
    ∃ pool, runner.Reach PromptAndSmall
        (Pool.idle { rows := [{ clusterID := 0 }], now := 0 }) pool ∧
      ∃ (mid older : runner.Log) (en en' : runner.Entry),
        pool.log = [] ++ en' :: (mid ++ en :: older) ∧ en.stmt = .issueCall 0 ∧
        en'.stmt = .issueCall 0 ∧
        ∃ en'' ∈ mid, en''.party = en.party ∧
          ∃ lastRunAt nextRunAt run, en''.stmt = .updateTaskLastRun 0 lastRunAt nextRunAt run := by
  have hrun : (Pool.idle (M := runner) { rows := [{ clusterID := 0 }], now := 0 }).run
      PromptAndSmall hourly = some _ := rfl
  have hreach := reach_of_run .init hrun
  exact ⟨_, hreach, [_, _, _, _, _, _, _, _], _, _, _, rfl, rfl, rfl,
    due_slot_issued_once _ _ _ hreach 0 [] [_, _, _, _, _, _, _, _] _ _ _ rfl rfl rfl⟩

def sixRows : List Task := List.replicate 6 { clusterID := 0 }

def slowTurn (waiter : ℕ) : List runner.Event :=
  List.replicate 3 (.step 0 (claiming [])) ++ waiting waiter 120 ++
    List.replicate 2 (.step 0 (claiming []))

/-- Six rows are claimed at once, and five turns take two minutes each; a second later another pass
claims the sixth and issues its call, and then the first pass does as well. -/
def sixthTwice : List runner.Event :=
  claimRows 0 (World.claimed { rows := sixRows }) ++
    (List.range 5).flatMap (fun n => slowTurn (n + 1)) ++ waiting 6 1 ++
    claimRows 7 [⟨5, Task.claim { clusterID := 0 } 601⟩] ++
    List.replicate 3 (.step 7 (claiming [])) ++ List.replicate 3 (.step 0 (claiming []))

/-- A task's call is issued while that of another pass is not yet recorded. -/
theorem sixth_row_issued_twice :
    ∃ pool, runner.Reach Prompt (Pool.idle { rows := sixRows, now := 0 }) pool ∧
      pool.log.head?.any (calls 5) = true ∧ pending 7 5 pool.log.tail = true :=
  exists_reach _ _ sixthTwice _ (by decide +kernel)

end Nexara.Schedule
