import Nexara.Collector.Ingest

/-!
# No task falls behind the watermark

A clean pass moves the watermark to the latest start on any of its lists, which it takes one after
another: a task that starts on a node already listed, before a task that a later node still lists,
ends up behind the watermark and no pass lists it again (`task_behind_watermark`). `Orderly` are the
runs without such a task, in which what is listed is stored and a day is enough where no watermark
can be read.
-/

namespace Nexara.Collector

open Conc Protocol System
open Migration (TaskRow TaskState AuditRow TaskStatus)

/-! ## What a pass remembers -/

structure Pass where
  since : ℕ
  listed : List String := []
  rest : List String
  max : ℕ := 0
  /-- Every list so far was read and looked up. -/
  clean : Bool := true
  todo : List NodeTask := []
  last : Option String := none

inductive Stage where
  | begun
  | since (s : ℕ)
  | listing (p : Pass)

def Pass.list (p : Pass) (node : String) (tasks : List NodeTask) : Pass :=
  { p with
    listed := node :: p.listed
    rest := p.rest.tail
    max := latestStart p.max tasks
    todo := tasks.filter (·.ingested) }

def Pass.lookup (p : Pass) : Option (List String) → Pass
  | none => { p with clean := false, todo := [] }
  | some upids => { p with todo := p.todo.filter (·.upid ∉ upids) }

def Stage.next : Stage → (e : Stmt) → e.Ans → Stage
  | .begun, .getTaskSyncState, some s => .since s
  | .begun, .timeNow, now => .since (now - 24 * 60 * 60)
  | .since s, .getNodes, some nodes => .listing { since := s, rest := nodes }
  | .listing p, .getNodeTasks _ _, none => .listing { p with rest := p.rest.tail, clean := false }
  | .listing p, .getNodeTasks node _, some tasks => .listing (p.list node tasks)
  | .listing p, .listExistingTaskHistoryUPIDs _, ans => .listing (p.lookup ans)
  | .listing p, .listExistingAuditLogUPIDs _, ans => .listing (p.lookup ans)
  | .listing p, .listCrossClusterMigrationUPIDs _, ans => .listing (p.lookup ans)
  | .listing p, .insertExternalTaskHistory row, ok =>
    .listing { p with todo := p.todo.tail, last := if ok then some row.upid else none }
  | l, _, _ => l

def stages : Protocol collector where
  Loc := Stage
  init := .begun
  next _ := Stage.next
  may
    | .pass, l, e => match e with
      | .getNodeTasks node since =>
        ∃ p, l = .listing p ∧ p.since = since ∧ p.rest.head? = some node ∧ p.todo = []
      | .insertExternalTaskHistory row =>
        ∃ p task, l = .listing p ∧ p.todo.head? = some task ∧ row = task.row
      | .insertAuditLogWithSource row => ∃ p u, l = .listing p ∧ p.last = some u ∧ row.upid = some u
      | .upsertTaskSyncState m =>
        ∃ p, l = .listing p ∧ p.rest = [] ∧ p.todo = [] ∧ p.clean = true ∧ p.max = m
      | .startTask .. | .endTask .. | .wait _ => False
      | _ => True
    | .startTask node type upid, _, e => e = .startTask node type upid
    | .endTask upid status, _, e => e = .endTask upid status
    | .wait seconds, _, e => e = .wait seconds

theorem Pass.lookup_nil (p : Pass) : p.lookup (some []) = p := by
  have htodo : p.todo.filter (fun t => decide (t.upid ∉ ([] : List String))) = p.todo := by simp
  simp only [Pass.lookup, htodo]

theorem Pass.lookup_append (p : Pass) (us vs : List String) :
    (p.lookup (some us)).lookup (some vs) = p.lookup (some (us ++ vs)) := by
  simp [Pass.lookup, Bool.and_comm]

attribute [local simp] call stages Stage.next Option.forall

theorem seenTaskUPIDs_follows (p : Pass) (upids : List String) :
    stages.Follows .pass (seenTaskUPIDs upids) (fun seen l => l = Stage.listing (p.lookup seen))
      (.listing p) := by
  unfold seenTaskUPIDs
  split_ifs
  · simp [Pass.lookup_nil]
  · simp [Pass.lookup_append]
    simp [Pass.lookup]

/-- The tasks a list leaves to be inserted. -/
def unseen (seen : List String) (tasks : List NodeTask) : List NodeTask :=
  (tasks.filter (·.ingested)).filter (·.upid ∉ seen)

theorem ingestTasks_follows (seen : List String) : ∀ (tasks : List NodeTask) (p : Pass),
    p.todo = unseen seen tasks →
    stages.Follows .pass (Prog.each (ingestTask seen) tasks)
      (fun _ l => ∃ last, l = Stage.listing { p with todo := [], last }) (.listing p)
  | [], p, h => by
    refine ⟨p.last, ?_⟩
    rw [← show p.todo = [] from h]
  | task :: tasks, p, h => by
    have hone : stages.Follows .pass (ingestTask seen task)
        (fun _ l => ∃ last, l = Stage.listing { p with todo := unseen seen tasks, last })
        (.listing p) := by
      have hskip (hsame : unseen seen tasks = p.todo) :
          ∃ last, p = { p with todo := unseen seen tasks, last } := ⟨p.last, by rw [hsame]⟩
      cases hing : task.ingested with
      | false =>
        simp [ingestTask, hing]
        exact hskip (by simp [h, unseen, hing])
      | true =>
        by_cases hseen : task.upid ∈ seen
        · simp [ingestTask, hseen]
          exact hskip (by simp [h, unseen, hseen])
        · have htodo : p.todo = task :: unseen seen tasks := by simp [h, unseen, hing, hseen]
          simp [ingestTask, hing, hseen, htodo, NodeTask.row, NodeTask.auditRow]
    refine hone.seq ?_
    rintro _ _ ⟨last, rfl⟩
    exact ingestTasks_follows seen tasks { p with todo := unseen seen tasks, last } rfl

structure Agrees (since : ℕ) (rest : List String) (pr : Progress) (p : Pass) : Prop where
  since : p.since = since
  rest : p.rest = rest
  todo : p.todo = []
  clean : p.clean = (!pr.dedupFailed && !pr.fetchFailed)
  max : p.clean = true → p.max = pr.maxStartTime

variable {p : Pass} {node : String} {since : ℕ}

theorem listNode_follows {rest : List String} {pr : Progress}
    (h : Agrees since (node :: rest) pr p) :
    stages.Follows .pass (listNode since pr node)
      (fun pr' l => ∃ p', l = Stage.listing p' ∧ Agrees since rest pr' p') (.listing p) := by
  obtain ⟨rfl, hrest, htodo, hclean, hmax⟩ := h
  have htail : p.rest.tail = rest := by simp [hrest]
  refine follows_stmt ⟨p, rfl, rfl, by simp [hrest], htodo⟩ fun tasks => ?_
  cases tasks with
  | none => exact ⟨_, rfl, rfl, htail, htodo, by simp, nofun⟩
  | some tasks =>
    refine (seenTaskUPIDs_follows (p.list node tasks) _).seq ?_
    rintro seen _ rfl
    cases seen with
    | none => exact ⟨_, rfl, rfl, htail, rfl, by simp [Pass.lookup], nofun⟩
    | some seen =>
      refine (ingestTasks_follows seen tasks ((p.list node tasks).lookup (some seen)) rfl).seq ?_
      rintro _ _ ⟨last, rfl⟩
      refine ⟨_, rfl, rfl, htail, rfl, hclean, fun hc => ?_⟩
      simp [Pass.lookup, Pass.list, hmax hc]

theorem listNodes_follows : ∀ {nodes : List String} {pr : Progress} {p : Pass},
    Agrees since nodes pr p →
    stages.Follows .pass (listNodes since nodes pr)
      (fun pr' l => ∃ p', l = Stage.listing p' ∧ Agrees since [] pr' p') (.listing p)
  | [], _, p, h => ⟨p, rfl, h⟩
  | _ :: _, _, _, h => by
    refine (listNode_follows h).seq ?_
    rintro pr' _ ⟨p', rfl, h'⟩
    exact listNodes_follows h'

theorem syncSince_follows (s : ℕ) :
    stages.Follows .pass (syncSince s) (fun _ _ => True) (.since s) := by
  refine follows_stmt trivial fun nodes => ?_
  cases nodes with
  | none => trivial
  | some nodes =>
    refine (listNodes_follows (⟨rfl, rfl, rfl, rfl, fun _ => rfl⟩ :
      Agrees s nodes {} { since := s, rest := nodes })).seq ?_
    rintro pr _ ⟨p, rfl, h⟩
    split_ifs with hadv
    · have hclean : p.clean = true := h.clean.trans (Bool.and_eq_true_iff.1 hadv).1
      exact follows_stmt ⟨p, rfl, h.rest, h.todo, hclean, h.max hclean⟩ fun _ => trivial
    · trivial

theorem syncTasks_follows : stages.Follows .pass syncTasks (fun _ _ => True) Stage.begun := by
  refine follows_stmt trivial fun since => ?_
  cases since with
  | some since => exact syncSince_follows since
  | none => exact follows_stmt trivial fun now => syncSince_follows _

def Reconciling : Stmt → Prop
  | .listRunningTaskHistoryByCluster | .requireNode _ | .getTaskStatus .. | .stale _
  | .reconcileTaskHistory .. => True
  | _ => False

theorem reconcileRow_all (row : TaskRow) : (reconcileRow row).All Reconciling := by
  refine ⟨trivial, fun found => ?_⟩
  cases found <;> simp [abandonStale, finalizeTask, Prog.forall_except, Reconciling]

theorem reconcileRunningTasks_all : reconcileRunningTasks.All Reconciling := by
  simp [reconcileRunningTasks, Reconciling]
  exact Prog.All.each reconcileRow_all

theorem stages_followed : stages.Followed fun _ => True := by
  intro r
  cases r with
  | startTask node type upid | endTask upid status | wait seconds => exact ⟨rfl, fun _ => trivial⟩
  | pass =>
    refine syncTasks_follows.seq fun _ l _ => ?_
    refine keeps_of_all (fun e he l _ => ?_)
      reconcileRunningTasks_all l trivial
    cases e <;> first | exact he.elim | exact ⟨trivial, fun _ => trivial⟩

/-- What party `k` is at after a history. -/
def stage (k : ℕ) (log : collector.Log) : Stage := stages.loc k log

/-! ## Conditions -/

/-- The pass has listed the node and has others to list. -/
def Stage.awaits (node : String) : Stage → Bool
  | .listing p => p.clean && p.rest ≠ [] && node ∈ p.listed
  | _ => false

def NodeTask.done (w : World) (t : NodeTask) : Bool := !t.ingested || w.recorded t.upid

def Short : collector.Cond := fun _ _ _ e _ w =>
  match e with
  | .getNodeTasks node since => (w.tasks.filter fun t => t.node = node && since ≤ t.startTime).length ≤ 500
  | _ => true

/-- No task starts on a node that a pass has listed while it has others to list; what is listed is
stored; and without a watermark, all tasks older than a day are recorded. -/
def Orderly : collector.Cond := fun log _ _ e o w =>
  match e, o with
  | .startTask node type _, _ =>
    type ∈ skipTaskTypes || log.all fun en => !(stage en.party log).awaits node
  | .insertExternalTaskHistory _, ok => ok
  | .timeNow, _ => w.tasks.all fun t => w.now - 24 * 60 * 60 ≤ t.startTime || t.done w
  | _, _ => true

def ShortAndOrderly : collector.Cond := fun log i r e o w =>
  Short log i r e o w && Orderly log i r e o w

/-! ## The invariant -/

variable {log : collector.Log} {w w' : World} {i : ℕ} {r : Role} {e : Stmt} {a : e.Ans}

structure Base (s : ℕ) (w : World) : Prop where
  past : s ≤ w.now
  done : ∀ t ∈ w.tasks, t.startTime < s → t.done w = true

/-- A task on a node that a clean pass has listed is recorded, still to be inserted, or after the
last list. -/
structure Pass.Holds (p : Pass) (w : World) : Prop where
  base : Base p.since w
  past : p.max ≤ w.now
  last : ∀ u, p.last = some u → w.recorded u = true
  nodes : p.clean = true → ∀ n ∈ w.nodes, n ∈ p.listed ∨ n ∈ p.rest
  tasks : p.clean = true → ∀ t ∈ w.tasks, t.node ∈ p.listed → p.since ≤ t.startTime →
    t.done w = true ∨ (∃ x ∈ p.todo, x.upid = t.upid) ∨ (p.rest = [] ∧ p.max ≤ t.startTime)

def Stage.Holds : Stage → World → Prop
  | .begun, _ => True
  | .since s, w => Base s w
  | .listing p, w => p.Holds w

structure Inv (log : collector.Log) (w : World) : Prop where
  parties : ∀ k, (stage k log).Holds w
  watermark : ∀ m, w.watermark = some m → Base m w
  started : ∀ t ∈ w.tasks, t.node ∈ w.nodes ∧ t.startTime ≤ w.now
  audit : ∀ row ∈ w.auditLog, ∀ u, row.upid = some u → w.recorded u = true
  migrations : w.migrationUPIDs = []

/-- Two readings of one task. -/
structure NodeTask.Same (t t' : NodeTask) : Prop where
  upid : t'.upid = t.upid
  node : t'.node = t.node
  type : t'.type = t.type
  startTime : t'.startTime = t.startTime

/-- A step loses no record, and a task it adds starts now, on a node no pass waits with. -/
structure Keeps (log : collector.Log) (w w' : World) : Prop where
  nodes : w'.nodes = w.nodes
  now : w.now ≤ w'.now
  recorded : ∀ u, w.recorded u = true → w'.recorded u = true
  tasks : ∀ t' ∈ w'.tasks, (∃ t ∈ w.tasks, t.Same t') ∨
    (t'.node ∈ w.nodes ∧ t'.startTime = w.now ∧
      (t'.ingested = true → ∀ k, (stage k log).awaits t'.node = false))

theorem NodeTask.Same.rfl (t : NodeTask) : t.Same t := ⟨Eq.refl _, Eq.refl _, Eq.refl _, Eq.refl _⟩

theorem Keeps.of_tasks_eq (hnodes : w'.nodes = w.nodes) (hnow : w.now ≤ w'.now)
    (hrecorded : ∀ u, w.recorded u = true → w'.recorded u = true) (htasks : w'.tasks = w.tasks) :
    Keeps log w w' :=
  ⟨hnodes, hnow, hrecorded, fun t ht => .inl ⟨t, htasks ▸ ht, .rfl t⟩⟩

theorem Keeps.refl : Keeps log w w :=
  .of_tasks_eq rfl (Nat.le_refl _) (fun _ h => h) rfl

theorem Keeps.done (hk : Keeps log w w') {t t' : NodeTask} (hsame : t.Same t')
    (h : t.done w = true) : t'.done w' = true := by
  have hrecorded := hk.recorded t.upid
  simp_all [NodeTask.done, NodeTask.ingested, hsame.type, hsame.upid]
  exact h.imp id hrecorded

theorem Base.keeps {s : ℕ} (h : Base s w) (hk : Keeps log w w') : Base s w' where
  past := Nat.le_trans h.past hk.now
  done t' ht' hlt := by
    obtain ⟨t, ht, hsame⟩ | ⟨-, hnow, -⟩ := hk.tasks t' ht'
    · exact hk.done hsame (h.done t ht (hsame.startTime ▸ hlt))
    · have := h.past
      omega

theorem Pass.Holds.keeps {k : ℕ} (h : p.Holds w) (hstage : stage k log = .listing p)
    (hk : Keeps log w w') : p.Holds w' where
  base := h.base.keeps hk
  past := Nat.le_trans h.past hk.now
  last u hu := hk.recorded u (h.last u hu)
  nodes hclean n hn := h.nodes hclean n (hk.nodes ▸ hn)
  tasks hclean t' ht' hlisted hsince := by
    obtain ⟨t, ht, hsame⟩ | ⟨-, hnow, hwaits⟩ := hk.tasks t' ht'
    · rw [hsame.node] at hlisted
      rw [hsame.startTime] at hsince
      rw [hsame.startTime, hsame.upid]
      exact (h.tasks hclean t ht hlisted hsince).imp_left (hk.done hsame)
    · -- a new task, after the last list or of a type that is skipped
      cases hing : t'.ingested with
      | false => exact .inl (by simp [NodeTask.done, hing])
      | true =>
        have hrest := hwaits hing k
        rw [hstage] at hrest
        refine .inr (.inr ⟨?_, ?_⟩)
        · by_contra hne
          simp [Stage.awaits, hclean, hne, hlisted] at hrest
        · rw [hnow]
          exact h.past

theorem Stage.Holds.keeps {k : ℕ} (h : (stage k log).Holds w) (hk : Keeps log w w') :
    (stage k log).Holds w' := by
  cases hl : stage k log <;> rw [hl] at h
  · trivial
  · exact Base.keeps h hk
  · exact Pass.Holds.keeps h hl hk

/-- A step under which the records stay, given what its own party is at then. -/
theorem Inv.keeps (h : Inv log w) (hk : Keeps log w w') (hi : ((stage i log).next e a).Holds w')
    (hwatermark : ∀ m, w'.watermark = some m → w.watermark = some m ∨ Base m w')
    (haudit : ∀ row ∈ w'.auditLog, row ∈ w.auditLog ∨ ∀ u, row.upid = some u → w'.recorded u = true)
    (hmigrations : w'.migrationUPIDs = w.migrationUPIDs) : Inv (⟨i, r, e, a, w⟩ :: log) w' where
  parties := forall_loc (T := stages)
    (p := fun _ (l : Stage) => l.Holds w') hi fun k _ => (h.parties k).keeps hk
  watermark m hm := by
    obtain hold | hnew := hwatermark m hm
    · exact (h.watermark m hold).keeps hk
    · exact hnew
  started t' ht' := by
    rw [hk.nodes]
    obtain ⟨t, ht, hsame⟩ | ⟨hnode, hstart, -⟩ := hk.tasks t' ht'
    · rw [hsame.node, hsame.startTime]
      exact ⟨(h.started t ht).1, Nat.le_trans (h.started t ht).2 hk.now⟩
    · exact ⟨hnode, hstart ▸ hk.now⟩
  audit row hrow u hu := by
    obtain hold | hnew := haudit row hrow
    · exact hk.recorded u (h.audit row hold u hu)
    · exact hnew u hu
  migrations := hmigrations.trans h.migrations

theorem Inv.read (h : Inv log w) (hi : ((stage i log).next e a).Holds w) :
    Inv (⟨i, r, e, a, w⟩ :: log) w :=
  h.keeps .refl hi (fun _ hm => .inl hm) (fun _ hrow => .inl hrow) rfl

theorem Inv.quiet (h : Inv log w) (hk : Keeps log w w') (hnext : ∀ l : Stage, l.next e a = l)
    (hwatermark : w'.watermark = w.watermark) (haudit : w'.auditLog = w.auditLog)
    (hmigrations : w'.migrationUPIDs = w.migrationUPIDs) : Inv (⟨i, r, e, a, w⟩ :: log) w' := by
  refine h.keeps hk ?_ (fun m hm => .inl (hwatermark ▸ hm)) (fun row hrow => .inl (haudit ▸ hrow))
    hmigrations
  rw [hnext]
  exact (h.parties i).keeps hk

/-! ## Lists -/

theorem latestStart_le {n : ℕ} {tasks : List NodeTask} (h : ∀ t ∈ tasks, t.startTime ≤ n) :
    ∀ {m : ℕ}, m ≤ n → latestStart m tasks ≤ n := by
  induction tasks with
  | nil => exact id
  | cons task tasks ih =>
    intro m hm
    exact ih (fun t ht => h t (.tail _ ht))
      (Nat.max_le.2 ⟨hm, h task (.head _)⟩)

theorem mem_of_mem_listed {t : NodeTask} (h : t ∈ w.listed node since) : t ∈ w.tasks :=
  (List.mem_filter.1 (List.mem_reverse.1 (List.mem_of_mem_take h))).1

theorem mem_listed {t : NodeTask}
    (hshort : (w.tasks.filter fun t => t.node = node && since ≤ t.startTime).length ≤ 500)
    (ht : t ∈ w.tasks) (hnode : t.node = node) (hsince : since ≤ t.startTime) :
    t ∈ w.listed node since := by
  unfold World.listed
  rw [List.take_of_length_le (by rw [List.length_reverse]; exact hshort), List.mem_reverse]
  exact List.mem_filter.2 ⟨ht, by simp [hnode, hsince]⟩

section

variable (h : p.Holds w)

include h

theorem Pass.Holds.list (htodo : p.todo = []) (hrest : p.rest.head? = some node)
    (hstarted : ∀ t ∈ w.tasks, t.startTime ≤ w.now)
    (hshort : (w.tasks.filter fun t => t.node = node && p.since ≤ t.startTime).length ≤ 500) :
    (p.list node (w.listed node p.since)).Holds w := by
  obtain ⟨rest, hcons⟩ : ∃ rest, p.rest = node :: rest := List.head?_eq_some_iff.1 hrest
  refine ⟨h.base, latestStart_le (fun t ht => hstarted t (mem_of_mem_listed ht)) h.past, h.last,
    fun hclean n hn => ?_, fun hclean t ht hlisted hsince => ?_⟩
  · have := h.nodes hclean n hn
    simp_all [Pass.list]
    tauto
  · obtain hnode | hold := List.mem_cons.1 hlisted
    · cases hing : t.ingested with
      | false => exact .inl (by simp [NodeTask.done, hing])
      | true =>
        exact .inr (.inl ⟨t, List.mem_filter.2 ⟨mem_listed hshort ht hnode hsince, hing⟩, rfl⟩)
    · -- a task of an earlier list: nothing of that is left to be inserted
      have := h.tasks hclean t ht hold hsince
      simp_all

theorem Pass.Holds.skip : ({ p with rest := p.rest.tail, clean := false } : Pass).Holds w where
  base := h.base
  past := h.past
  last := h.last
  nodes hclean := by cases hclean
  tasks hclean := by cases hclean

theorem Pass.Holds.lookup {ans : Option (List String)}
    (hans : ∀ us, ans = some us → ∀ u ∈ us, w.recorded u = true) : (p.lookup ans).Holds w := by
  cases ans with
  | none =>
    exact ⟨h.base, h.past, h.last, nofun, nofun⟩
  | some us =>
    refine ⟨h.base, h.past, h.last, h.nodes, fun hclean t ht hlisted hsince => ?_⟩
    have := h.tasks hclean t ht hlisted hsince
    grind [Pass.lookup, NodeTask.done]

theorem Pass.Holds.insert {task : NodeTask} (htodo : p.todo.head? = some task)
    (hrec : w.recorded task.upid = true) :
    ({ p with todo := p.todo.tail, last := some task.upid } : Pass).Holds w where
  base := h.base
  past := h.past
  last u hu := by
    cases hu
    exact hrec
  nodes := h.nodes
  tasks hclean t ht hlisted hsince := by
    have := h.tasks hclean t ht hlisted hsince
    obtain ⟨todo, hcons⟩ : ∃ todo, p.todo = task :: todo := List.head?_eq_some_iff.1 htodo
    grind [NodeTask.done]

/-- All that started before the latest start of a clean pass is recorded once the pass has nothing
left to do. -/
theorem Pass.Holds.base_max (hclean : p.clean = true) (hrest : p.rest = []) (htodo : p.todo = [])
    (hnodes : ∀ t ∈ w.tasks, t.node ∈ w.nodes) : Base p.max w where
  past := h.past
  done t ht hlt := by
    have hlisted := h.nodes hclean _ (hnodes t ht)
    have hold := h.base.done t ht
    have hnew := h.tasks hclean t ht
    grind

end

/-! ## Steps -/

section

variable {l : Stage} (h : l.Holds w)

include h

theorem Stage.Holds.getTaskSyncState {ans : Option ℕ} (hans : ∀ m, ans = some m → Base m w) :
    (l.next .getTaskSyncState ans).Holds w := by
  cases l with
  | begun =>
    cases ans with
    | none => trivial
    | some m => exact hans m rfl
  | _ => exact h

theorem Stage.Holds.timeNow {now : ℕ} (hday : Base (now - 24 * 60 * 60) w) :
    (l.next .timeNow now).Holds w := by
  cases l with
  | begun => exact hday
  | _ => exact h

theorem Stage.Holds.getNodes {ans : Option (List String)}
    (hans : ∀ nodes, ans = some nodes → nodes = w.nodes) : (l.next .getNodes ans).Holds w := by
  cases l with
  | since s =>
    cases ans with
    | none => exact h
    | some nodes =>
      exact ⟨h, Nat.zero_le _, nofun, fun _ n hn => .inr (hans nodes rfl ▸ hn), by simp⟩
  | _ => exact h

theorem Stage.Holds.lookup {ans : Option (List String)}
    (hbegun : Stage.begun.next e a = .begun) (hsince : ∀ s, (Stage.since s).next e a = .since s)
    (hlisting : ∀ p, (Stage.listing p).next e a = .listing (p.lookup ans))
    (hans : ∀ us, ans = some us → ∀ u ∈ us, w.recorded u = true) : (l.next e a).Holds w := by
  cases l <;> simp only [hbegun, hsince, hlisting]
  · trivial
  · exact h
  · exact Pass.Holds.lookup h hans

end

theorem recorded_insertTask (row : TaskRow) {u : String} :
    (w.insertTask row).recorded u = (w.recorded u || row.upid = u) := by
  unfold World.insertTask
  split_ifs with hold
  · by_cases hu : row.upid = u
    · simp [← hu, hold]
    · simp [hu]
  · show ((row :: w.taskHistory).any fun t => t.upid = u) = _
    rw [Bool.or_comm]
    rfl

theorem insertTask_eq (row : TaskRow) :
    ∃ taskHistory, w.insertTask row = { w with taskHistory } := by
  unfold World.insertTask
  split_ifs
  · exact ⟨w.taskHistory, rfl⟩
  · exact ⟨row :: w.taskHistory, rfl⟩

theorem recorded_reconcile {upid exitStatus : String} {status : TaskState} (u : String) :
    ({ w with taskHistory := w.taskHistory.map (TaskRow.reconcile upid status exitStatus) } :
      World).recorded u = w.recorded u := by
  unfold World.recorded
  rw [List.any_map]
  congr 1
  funext t
  show decide ((t.reconcile upid status exitStatus).upid = u) = decide (t.upid = u)
  rw [Migration.TaskRow.reconcile_upid]

theorem inv_startTask {type upid : String} (h : Inv log w) (hnode : node ∈ w.nodes)
    (hcond : type ∈ skipTaskTypes ∨ ∀ en ∈ log, (stage en.party log).awaits node = false) :
    Inv (⟨i, r, .startTask node type upid, (), w⟩ :: log)
      { w with tasks := w.tasks ++ [{ upid, node, type, startTime := w.now }] } := by
  refine h.quiet ⟨rfl, Nat.le_refl _, fun _ hu => hu, fun t ht => ?_⟩
    (fun l => by cases l <;> rfl) rfl rfl rfl
  obtain hold | hnew := List.mem_append.1 ht
  · exact .inl ⟨t, hold, .rfl t⟩
  · obtain rfl := List.mem_singleton.1 hnew
    refine .inr ⟨hnode, rfl, fun hing k => ?_⟩
    obtain hskip | hawaits := hcond
    · simp [NodeTask.ingested, hskip] at hing
    · by_contra hk
      obtain ⟨en, hen, rfl⟩ := seen_of_loc (T := stages) fun heq =>
        hk (congrArg (Stage.awaits node) heq)
      exact hk (hawaits en hen)

theorem inv_endTask {upid status : String} (h : Inv log w) :
    Inv (⟨i, r, .endTask upid status, (), w⟩ :: log)
      { w with tasks := w.tasks.map fun t =>
        if t.upid = upid ∧ t.endTime = 0 then { t with endTime := w.now, status } else t } := by
  refine h.quiet ⟨rfl, Nat.le_refl _, fun _ hu => hu, fun t ht => ?_⟩
    (fun l => by cases l <;> rfl) rfl rfl rfl
  obtain ⟨x, hx, rfl⟩ := List.mem_map.1 ht
  refine .inl ⟨x, hx, ?_⟩
  split_ifs
  · exact ⟨rfl, rfl, rfl, rfl⟩
  · exact .rfl x

section

variable (h : Inv log w)

include h

theorem inv_insertTask {task : NodeTask} (hl : stage i log = .listing p)
    (htodo : p.todo.head? = some task) :
    Inv (⟨i, r, .insertExternalTaskHistory task.row, true, w⟩ :: log) (w.insertTask task.row) := by
  have hrec : (w.insertTask task.row).recorded task.upid = true := by
    simp [recorded_insertTask, NodeTask.row]
  have hkept : ∀ u, w.recorded u = true → (w.insertTask task.row).recorded u = true := by
    simp +contextual [recorded_insertTask]
  obtain ⟨taskHistory, hw⟩ := insertTask_eq task.row
  rw [hw] at hrec hkept ⊢
  have hk : Keeps log w { w with taskHistory } := .of_tasks_eq rfl (Nat.le_refl _) hkept rfl
  refine h.keeps hk ?_ (fun _ hm => .inl hm) (fun _ hrow => .inl hrow) rfl
  have hp := (h.parties i).keeps hk
  rw [hl] at hp ⊢
  exact Pass.Holds.insert hp htodo hrec

theorem inv_insertAudit {row : AuditRow} {u : String} (hl : stage i log = .listing p)
    (hlast : p.last = some u) (hupid : row.upid = some u) :
    Inv (⟨i, r, .insertAuditLogWithSource row, true, w⟩ :: log)
      { w with auditLog := row :: w.auditLog } := by
  have hi := h.parties i
  rw [hl] at hi
  have hk : Keeps log w { w with auditLog := row :: w.auditLog } :=
    .of_tasks_eq rfl (Nat.le_refl _) (fun _ hu => hu) rfl
  refine h.keeps hk ?_ (fun _ hm => .inl hm) (fun row' hrow => ?_) rfl
  · rw [hl]
    exact Pass.Holds.keeps hi hl hk
  · have := Pass.Holds.last hi u hlast
    grind [World.recorded]

theorem inv_upsert (hl : stage i log = .listing p) (hrest : p.rest = []) (htodo : p.todo = [])
    (hclean : p.clean = true) :
    Inv (⟨i, r, .upsertTaskSyncState p.max, true, w⟩ :: log) { w with watermark := some p.max } := by
  have hk : Keeps log w { w with watermark := some p.max } :=
    .of_tasks_eq rfl (Nat.le_refl _) (fun _ hu => hu) rfl
  have hp := (h.parties i).keeps hk
  rw [hl] at hp
  refine h.keeps hk (by rw [hl]; exact hp) (fun m hm => .inr ?_) (fun _ hrow => .inl hrow) rfl
  obtain rfl : p.max = m := Option.some.inj hm
  exact Pass.Holds.base_max hp hclean hrest htodo fun t ht => (h.started t ht).1

end

theorem inv_pass {o : e.Outcome} (h : Inv log w)
    (hok : ShortAndOrderly log i .pass e o w = true) (hmay : stages.may .pass (stage i log) e)
    (hx : exec e o w = some (a, w')) : Inv (⟨i, .pass, e, a, w⟩ :: log) w' := by
  have hi := h.parties i
  have hquiet (hnext : ∀ l : Stage, l.next e a = l) : Inv (⟨i, .pass, e, a, w⟩ :: log) w :=
    h.quiet .refl hnext rfl rfl rfl
  obtain ⟨hshort, horderly⟩ := Bool.and_eq_true_iff.1 hok
  cases e with
  | getTaskSyncState =>
    cases hx
    exact h.read (hi.getTaskSyncState fun m hm =>
      h.watermark m (Option.ite_none_right_eq_some.1 hm).2)
  | timeNow =>
    cases hx
    refine h.read (hi.timeNow ⟨Nat.sub_le _ _, fun t ht hlt => ?_⟩)
    have hday := List.all_eq_true.1 horderly t ht
    simp only [Bool.or_eq_true, decide_eq_true_eq] at hday
    exact hday.resolve_left (Nat.not_le.2 hlt)
  | getNodes =>
    cases hx
    exact h.read (hi.getNodes fun nodes hnodes =>
      (Option.some.inj (Option.ite_none_right_eq_some.1 hnodes).2).symm)
  | getNodeTasks node since =>
    obtain ⟨p, hl, rfl, hrest, htodo⟩ := hmay
    cases hx
    refine h.read ?_
    rw [hl] at hi ⊢
    cases o with
    | false => exact Pass.Holds.skip hi
    | true =>
      exact Pass.Holds.list hi htodo hrest (fun t ht => (h.started t ht).2)
        (of_decide_eq_true hshort)
  | listExistingTaskHistoryUPIDs upids =>
    cases hx
    refine h.read (hi.lookup rfl (fun _ => rfl) (fun _ => rfl) fun us hus u hu => ?_)
    grind
  | listExistingAuditLogUPIDs upids =>
    cases hx
    refine h.read (hi.lookup rfl (fun _ => rfl) (fun _ => rfl) fun us hus u hu => ?_)
    cases (Option.ite_none_right_eq_some.1 hus).2
    obtain ⟨row, hrow, hupid⟩ := List.any_eq_true.1 (List.mem_filter.1 hu).2
    exact h.audit row hrow u (of_decide_eq_true hupid)
  | listCrossClusterMigrationUPIDs upids =>
    cases hx
    refine h.read (hi.lookup rfl (fun _ => rfl) (fun _ => rfl) fun us hus u hu => ?_)
    cases (Option.ite_none_right_eq_some.1 hus).2
    simp [h.migrations] at hu
  | insertExternalTaskHistory row =>
    obtain ⟨p, task, hl, htodo, rfl⟩ := hmay
    obtain rfl : o = true := horderly
    cases hx
    exact inv_insertTask h hl htodo
  | insertAuditLogWithSource row =>
    obtain ⟨p, u, hl, hlast, hupid⟩ := hmay
    cases o <;> cases hx
    · exact hquiet fun l => by cases l <;> rfl
    · exact inv_insertAudit h hl hlast hupid
  | upsertTaskSyncState m =>
    obtain ⟨p, hl, hrest, htodo, hclean, rfl⟩ := hmay
    cases o <;> cases hx
    · exact hquiet fun l => by cases l <;> rfl
    · exact inv_upsert h hl hrest htodo hclean
  | reconcileTaskHistory upid status exitStatus =>
    cases o <;> cases hx
    · exact hquiet fun l => by cases l <;> rfl
    · refine h.quiet (.of_tasks_eq rfl (Nat.le_refl _) (fun u hu => ?_) rfl)
        (fun l => by cases l <;> rfl) rfl rfl rfl
      exact (recorded_reconcile u).trans hu
  | startTask | endTask | wait => exact hmay.elim
  | _ =>
    cases hx
    exact hquiet fun l => by cases l <;> rfl

theorem inv_step {o : e.Outcome} (h : Inv log w)
    (hok : ShortAndOrderly log i r e o w = true) (hmay : stages.may r (stage i log) e)
    (hx : exec e o w = some (a, w')) : Inv (⟨i, r, e, a, w⟩ :: log) w' := by
  cases r with
  | pass => exact inv_pass h hok hmay hx
  | startTask node type upid =>
    obtain rfl : e = _ := hmay
    obtain ⟨hnode, hsome⟩ := Option.ite_none_right_eq_some.1 hx
    cases hsome
    refine inv_startTask h hnode ?_
    have horderly := (Bool.and_eq_true_iff.1 hok).2
    simpa [Orderly] using horderly
  | endTask upid status =>
    obtain rfl : e = _ := hmay
    cases hx
    exact inv_endTask h
  | wait seconds =>
    obtain rfl : e = _ := hmay
    cases hx
    exact h.quiet (.of_tasks_eq rfl (Nat.le_add_right _ _) (fun _ hu => hu) rfl)
      (fun l => by cases l <;> rfl) rfl rfl rfl

def World.fresh (nodes : List String) (now : ℕ) : World := { nodes, now }

theorem inv_fresh (nodes : List String) (now : ℕ) : Inv [] (World.fresh nodes now) where
  parties _ := trivial
  watermark _ hm := by cases hm
  started _ ht := by cases ht
  audit _ hrow := by cases hrow
  migrations := rfl

/-- **Ingest skips no task for good.** A task of an ingested type that is not recorded started at or
after the stored watermark, and a list from there has it. -/
theorem no_task_behind_watermark (nodes : List String) (now : ℕ) (pool : collector.Pool)
    (hrun : collector.Reach ShortAndOrderly (Pool.idle (World.fresh nodes now)) pool)
    (watermark : ℕ) (hwatermark : pool.shared.watermark = some watermark) :
    ∀ t ∈ pool.shared.tasks, t.type ∉ skipTaskTypes →
      (∀ row ∈ pool.shared.taskHistory, row.upid ≠ t.upid) → watermark ≤ t.startTime ∧
        ((pool.shared.tasks.filter fun t' => t'.node = t.node && watermark ≤ t'.startTime).length ≤
          500 → t ∈ pool.shared.listed t.node watermark) := by
  have hinv : Inv pool.log pool.shared :=
    invariant stages_followed (inv_fresh nodes now) inv_step hrun
  intro t ht htype hnone
  have hle : watermark ≤ t.startTime := by
    by_contra hlt
    have hdone := (hinv.watermark watermark hwatermark).done t ht (Nat.lt_of_not_le hlt)
    obtain ⟨row, hrow, hupid⟩ : ∃ row ∈ pool.shared.taskHistory, row.upid = t.upid := by
      simpa [NodeTask.done, NodeTask.ingested, htype, World.recorded] using hdone
    exact hnone row hrow hupid
  exact ⟨hle, fun hshort => mem_listed hshort ht rfl hle⟩

/-! ## Runs -/

def succeeds : (e : Stmt) → e.Outcome
  | .getTaskSyncState | .getNodes | .getNodeTasks .. | .listExistingTaskHistoryUPIDs _
  | .listExistingAuditLogUPIDs _ | .listCrossClusterMigrationUPIDs _ | .insertExternalTaskHistory _
  | .insertAuditLogWithSource _ | .upsertTaskSyncState _ | .listRunningTaskHistoryByCluster | .stale _
  | .reconcileTaskHistory .. => true
  | .requireNode _ => .member
  | .getTaskStatus .. => .ok { status := "running", exitStatus := "" }
  | .timeNow | .startTask .. | .endTask .. | .wait _ => ()

def steps (party count : ℕ) : List collector.Event := List.replicate count (.step party succeeds)

def starts (party : ℕ) (node upid : String) : List collector.Event :=
  [.start (.wait 1), .step party succeeds, .start (.startTask node "qmstart" upid),
    .step (party + 1) succeeds]

/-- One guest starts before a pass and one after it. -/
def guestAfterPass : List collector.Event :=
  starts 0 "pve1" "UPID:1" ++ .start .pass :: steps 2 9 ++ starts 3 "pve1" "UPID:2" ++ steps 2 1

theorem no_task_behind_watermark_after_pass :
    ∃ pool, collector.Reach ShortAndOrderly (Pool.idle (World.fresh ["pve1"] 86400)) pool ∧
      ∃ t ∈ pool.shared.tasks, (t.upid = "UPID:2" ∧
        ∀ row ∈ pool.shared.taskHistory, row.upid ≠ t.upid) ∧ 86401 ≤ t.startTime ∧
        t ∈ pool.shared.listed t.node 86401 := by
  have hrun : (Pool.idle (M := collector) (World.fresh ["pve1"] 86400)).run ShortAndOrderly
      guestAfterPass = some _ := rfl
  have hreach := reach_of_run .init hrun
  obtain ⟨hle, hlisted⟩ := no_task_behind_watermark ["pve1"] 86400 _ hreach 86401 rfl
    { upid := "UPID:2", node := "pve1", type := "qmstart", startTime := 86402 } (by decide)
    (by decide) (by decide)
  exact ⟨_, hreach, { upid := "UPID:2", node := "pve1", type := "qmstart", startTime := 86402 },
    by decide, ⟨rfl, by decide⟩, hle, hlisted (by decide)⟩

/-- A pass lists the first node; then a guest starts there, and a second later one on the second
node. -/
def guestBetweenLists : List collector.Event :=
  .start .pass :: steps 0 4 ++ starts 1 "pve1" "UPID:1" ++ starts 3 "pve2" "UPID:2" ++ steps 0 7

/-- The watermark is past a task that was never recorded. -/
theorem task_behind_watermark :
    ∃ pool, collector.Reach Short (Pool.idle (World.fresh ["pve1", "pve2"] 86400)) pool ∧
      ∃ watermark, pool.shared.watermark = some watermark ∧
        ∃ t ∈ pool.shared.tasks, t.type ∉ skipTaskTypes ∧
          (∀ row ∈ pool.shared.taskHistory, row.upid ≠ t.upid) ∧ t.startTime < watermark := by
  obtain ⟨pool, hreach, hwatermark, htask⟩ := exists_reach Short
    (World.fresh ["pve1", "pve2"] 86400) guestBetweenLists
    (fun pool => pool.shared.watermark = some 86402 ∧
      ∃ t ∈ pool.shared.tasks, t.type ∉ skipTaskTypes ∧
        (∀ row ∈ pool.shared.taskHistory, row.upid ≠ t.upid) ∧ t.startTime < 86402)
    (by decide +kernel)
  exact ⟨pool, hreach, 86402, hwatermark, htask⟩

end Nexara.Collector
