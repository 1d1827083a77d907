import Mathlib.Data.List.AList
import Nexara.Relocate.Hops

/-!
# The rules of the balancer

A placement lists the guests of each node, and rules say which guests belong together, apart, or on
certain nodes. `checkMigration` looks at one move before it is made, `CheckViolations` at a whole
placement, both through `findVMNode` only, so they are restated for the function from guests to
nodes that it gives (`Allows`, `Holds`).

No node's name is empty, so the empty name by which the source says that a guest is nowhere is
`none`.
-/

namespace Nexara.Drs

open Relocate

variable {N F : Type} [DecidableEq N]

/-! ## Placements -/

inductive VMType where
  | qemu | lxc
  deriving DecidableEq

/-- A guest on a node. -/
structure Workload (N F : Type) where
  vmid : ℤ
  type : VMType := .qemu
  node : N
  cpuUsage : F
  cpus : ℤ := 1
  mem : ℤ
  maxMem : ℤ
  pinned : Bool := false

/-- The guests of each node; the order of the entries is the one in which the map is ranged over. -/
abbrev NodeWorkloads (N F : Type) := AList fun _ : N => List (Workload N F)

namespace NodeWorkloads

def on (m : NodeWorkloads N F) (n : N) : List (Workload N F) := (m.lookup n).getD []

def set (m : NodeWorkloads N F) (n : N) (l : List (Workload N F)) : NodeWorkloads N F := m.insert n l

omit [DecidableEq N] in
/-- All guests, on whatever node. -/
def guests (m : NodeWorkloads N F) : List (Workload N F) := m.entries.flatMap (·.2)

end NodeWorkloads

/-- The first node that lists the guest. -/
def findVMNode (vmid : ℤ) (m : NodeWorkloads N F) : Option N :=
  (m.entries.find? fun e => e.2.any (·.vmid = vmid)).map (·.1)

/-! ## Moves and rules -/

/-- Why a move is recommended: `rebalance` for one step, with the nodes' scores before it,
`consolidate` for merged steps. -/
inductive Reason (N F : Type) where
  | rebalance (source : N) (sourceScore : F) (type : VMType) (vmid : ℤ) (target : N)
      (targetScore : F)
  | consolidate (type : VMType) (vmid : ℤ) (source target : N)
  | none

/-- A move that the balancer recommends. -/
structure Recommendation (N F : Type) where
  vmid : ℤ
  vmType : VMType
  sourceNode : N
  targetNode : N
  reason : Reason N F
  scoreBefore : F
  scoreAfter : F
  expectedImprovement : F

inductive RuleType where
  | affinity | antiAffinity | pin
  /-- Any other text; such a rule is ignored. -/
  | unknown
  deriving DecidableEq

/-- Guests that belong together, apart, or on the nodes named. -/
structure Rule (N : Type) where
  type : RuleType
  vmids : List ℤ
  nodeNames : List N := []

/-- Why a move is not allowed. -/
inductive Blocked (N : Type) where
  /-- `pin rule: vm %d may only run on %v` -/
  | pin (vmid : ℤ) (nodeNames : List N)
  /-- `affinity rule: vm %d must stay co-located with vms %v` -/
  | affinity (vmid : ℤ) (others : List ℤ)
  /-- `anti-affinity rule: vm %d must not share node %s with vms %v` -/
  | antiAffinity (vmid : ℤ) (target : N) (others : List ℤ)

def otherVMIDs (vmids : List ℤ) (self : ℤ) : List ℤ := vmids.filter (· ≠ self)

/-- A rule that names no node allows every target. -/
def isPinAllowed (vmid : ℤ) (target : N) (rule : Rule N) : Bool :=
  if vmid ∉ rule.vmids then true
  else if rule.nodeNames.isEmpty then true
  else decide (target ∈ rule.nodeNames)

/-- The loop of both affinity checks: every other guest of the rule that is somewhere passes. -/
def othersPass (vmid : ℤ) (m : NodeWorkloads N F) (pass : N → Bool) : List ℤ → Bool
  | [] => true
  | v :: vmids =>
    if v = vmid then othersPass vmid m pass vmids
    else match findVMNode v m with
      | none => othersPass vmid m pass vmids
      | some vmNode => if pass vmNode then othersPass vmid m pass vmids else false

def isAffinityAllowed (vmid : ℤ) (target : N) (m : NodeWorkloads N F) (rule : Rule N) : Bool :=
  if vmid ∉ rule.vmids then true
  else othersPass vmid m (fun vmNode => vmNode = target) rule.vmids

def isAntiAffinityAllowed (vmid : ℤ) (target : N) (m : NodeWorkloads N F) (rule : Rule N) : Bool :=
  if vmid ∉ rule.vmids then true
  else othersPass vmid m (fun vmNode => vmNode ≠ target) rule.vmids

/-- What one rule has against a move. -/
def blockedBy (vmid : ℤ) (target : N) (m : NodeWorkloads N F) (rule : Rule N) :
    Option (Blocked N) :=
  match rule.type with
  | .pin => if isPinAllowed vmid target rule then none else some (.pin vmid rule.nodeNames)
  | .affinity =>
    if isAffinityAllowed vmid target m rule then none
    else some (.affinity vmid (otherVMIDs rule.vmids vmid))
  | .antiAffinity =>
    if isAntiAffinityAllowed vmid target m rule then none
    else some (.antiAffinity vmid target (otherVMIDs rule.vmids vmid))
  | .unknown => none

def checkMigration (migration : Recommendation N F) (m : NodeWorkloads N F) (rules : List (Rule N)) :
    Option (Blocked N) :=
  rules.findSome? (blockedBy migration.vmid migration.targetNode m)

def isMigrationAllowed (migration : Recommendation N F) (m : NodeWorkloads N F)
    (rules : List (Rule N)) : Bool := (checkMigration migration m rules).isNone

/-! ## Violations -/

/-- How a placement breaks a rule. -/
inductive Violation (N : Type) where
  /-- `affinity rule violated: VMs are on different nodes` -/
  | affinity
  /-- `anti-affinity rule violated: multiple VMs on same node ` and the node -/
  | antiAffinity (node : N)
  /-- `pin rule violated: VM not on designated node` -/
  | pin

def affinityViolations (m : NodeWorkloads N F) (rule : Rule N) : List (Violation N) :=
  match rule.vmids.filterMap (findVMNode · m) with
  | [] => []
  | first :: rest => if rest.any (· ≠ first) then [.affinity] else []

/-- The first node that is found to have two of the guests. -/
def sharedNode (m : NodeWorkloads N F) : List ℤ → List N → Option N
  | [], _ => none
  | v :: vmids, seen => match findVMNode v m with
    | none => sharedNode m vmids seen
    | some n => if n ∈ seen then some n else sharedNode m vmids (n :: seen)

def antiAffinityViolations (m : NodeWorkloads N F) (rule : Rule N) : List (Violation N) :=
  (sharedNode m rule.vmids []).toList.map .antiAffinity

def pinViolations (m : NodeWorkloads N F) (rule : Rule N) : List (Violation N) :=
  (rule.vmids.filterMap (findVMNode · m)).filterMap fun n =>
    if !rule.nodeNames.isEmpty && decide (n ∉ rule.nodeNames) then some .pin else none

def checkViolations (m : NodeWorkloads N F) (rules : List (Rule N)) : List (Violation N) :=
  rules.flatMap fun rule => match rule.type with
    | .affinity => affinityViolations m rule
    | .antiAffinity => antiAffinityViolations m rule
    | .pin => pinViolations m rule
    | .unknown => []

/-! ## What the checks mean -/

/-- Where each guest is. -/
def place (m : NodeWorkloads N F) : Place ℤ N := fun vmid => findVMNode vmid m

omit [DecidableEq N] in
/-- The rule has nothing against the guest's move to `target`. -/
def Allows (rule : Rule N) (f : Place ℤ N) (vmid : ℤ) (target : N) : Prop :=
  vmid ∈ rule.vmids → match rule.type with
    | .pin => rule.nodeNames ≠ [] → target ∈ rule.nodeNames
    | .affinity => ∀ v ∈ rule.vmids, v ≠ vmid → ∀ n, f v = some n → n = target
    | .antiAffinity => ∀ v ∈ rule.vmids, v ≠ vmid → f v ≠ some target
    | .unknown => True

omit [DecidableEq N] in
/-- The placement keeps the rule. -/
def Holds (rule : Rule N) (f : Place ℤ N) : Prop :=
  match rule.type with
  | .pin => ∀ v ∈ rule.vmids, ∀ n, f v = some n → rule.nodeNames ≠ [] → n ∈ rule.nodeNames
  | .affinity => ∀ v ∈ rule.vmids, ∀ v' ∈ rule.vmids, ∀ n n', f v = some n → f v' = some n' → n = n'
  | .antiAffinity => rule.vmids.Pairwise fun v v' => ∀ n, f v = some n → f v' ≠ some n
  | .unknown => True

section

variable {m : NodeWorkloads N F} {vmid : ℤ} {target : N} {rule : Rule N}

omit [DecidableEq N] in
theorem othersPass_eq_true {pass : N → Bool} {vmids : List ℤ} :
    othersPass vmid m pass vmids = true ↔
      ∀ v ∈ vmids, v ≠ vmid → ∀ n, place m v = some n → pass n = true := by
  induction vmids with
  | nil => simp [othersPass]
  | cons v vmids ih =>
    rw [List.forall_mem_cons, ← ih, othersPass]
    split_ifs with hv
    · simp [hv]
    · cases hn : findVMNode v m with
      | none => simp [place, hn]
      | some n => simp [place, hn, hv]

theorem blockedBy_eq_none : blockedBy vmid target m rule = none ↔ Allows rule (place m) vmid target := by
  unfold blockedBy Allows
  cases rule.type with
  | pin =>
    by_cases hv : vmid ∈ rule.vmids
    · simp [isPinAllowed]
    · simp [isPinAllowed]
  | affinity =>
    by_cases hv : vmid ∈ rule.vmids
    · simp [isAffinityAllowed, othersPass_eq_true]
    · simp [isAffinityAllowed, hv]
  | antiAffinity =>
    by_cases hv : vmid ∈ rule.vmids
    · simp [isAntiAffinityAllowed, othersPass_eq_true]
    · simp [isAntiAffinityAllowed, hv]
  | unknown => simp

theorem isMigrationAllowed_iff {migration : Recommendation N F} {rules : List (Rule N)} :
    isMigrationAllowed migration m rules = true ↔
      ∀ rule ∈ rules, Allows rule (place m) migration.vmid migration.targetNode := by
  simp only [isMigrationAllowed, checkMigration, Option.isNone_iff_eq_none, List.findSome?_eq_none_iff,
    blockedBy_eq_none]

theorem affinityViolations_eq_nil : affinityViolations m rule = [] ↔
    ∀ v ∈ rule.vmids, ∀ v' ∈ rule.vmids, ∀ n n', place m v = some n → place m v' = some n' →
      n = n' := by
  have hmem : ∀ n, n ∈ rule.vmids.filterMap (findVMNode · m) ↔
      ∃ v ∈ rule.vmids, place m v = some n := fun n => List.mem_filterMap
  unfold affinityViolations
  split
  · next hnil =>
    refine ⟨fun _ v hv v' hv' n n' hn hn' => ?_, fun _ => rfl⟩
    have hin := (hmem n).mpr ⟨v, hv, hn⟩
    rw [hnil] at hin
    cases hin
  · next first rest hcons =>
    rw [hcons] at hmem
    constructor
    · intro h
      have hfirst : ∀ n, n ∈ first :: rest → n = first := by
        intro n hn
        rcases List.mem_cons.mp hn with rfl | hn
        · rfl
        · by_contra hne
          rw [if_pos (List.any_eq_true.mpr ⟨n, hn, by simpa using hne⟩)] at h
          cases h
      intro v hv v' hv' n n' hn hn'
      rw [hfirst n ((hmem n).mpr ⟨v, hv, hn⟩), hfirst n' ((hmem n').mpr ⟨v', hv', hn'⟩)]
    · intro h
      obtain ⟨v, hv, hn⟩ := (hmem first).mp (.head _)
      rw [if_neg]
      rintro hany
      obtain ⟨n, hn', hne⟩ := List.any_eq_true.mp hany
      obtain ⟨v', hv', hn''⟩ := (hmem n).mp (.tail _ hn')
      exact absurd (h v' hv' v hv n first hn'' hn) (by simpa using hne)

theorem sharedNode_eq_none {vmids : List ℤ} {seen : List N} :
    sharedNode m vmids seen = none ↔
      (∀ v ∈ vmids, ∀ n, place m v = some n → n ∉ seen) ∧
        vmids.Pairwise fun v v' => ∀ n, place m v = some n → place m v' ≠ some n := by
  induction vmids generalizing seen with
  | nil => simp [sharedNode]
  | cons v vmids ih =>
    rw [List.forall_mem_cons, List.pairwise_cons, sharedNode]
    cases hn : findVMNode v m with
    | none => simp [place, hn, ih]
    | some n =>
      have hplace : place m v = some n := hn
      dsimp only
      split_ifs with hseen
      · simp [hplace, hseen]
      · rw [ih]
        simp only [hplace, Option.some.injEq, List.mem_cons, not_or, forall_eq']
        constructor
        · rintro ⟨h₁, h₂⟩
          exact ⟨⟨hseen, fun v' hv' n' hn' => (h₁ v' hv' n' hn').2⟩,
            fun v' hv' hn' => (h₁ v' hv' n hn').1 rfl, h₂⟩
        · rintro ⟨⟨_, h₁⟩, h₂, h₃⟩
          exact ⟨fun v' hv' n' hn' => ⟨fun heq => h₂ v' hv' (heq ▸ hn'), h₁ v' hv' n' hn'⟩, h₃⟩

theorem checkViolations_eq_nil : checkViolations m [rule] = [] ↔ Holds rule (place m) := by
  unfold checkViolations Holds
  rw [List.flatMap_singleton]
  cases rule.type with
  | affinity => exact affinityViolations_eq_nil
  | antiAffinity =>
    simp [antiAffinityViolations, sharedNode_eq_none]
  | pin =>
    simp only [pinViolations, List.filterMap_eq_nil_iff, List.mem_filterMap]
    constructor
    · intro h v hv n hn hnames
      by_contra hnot
      simpa [hnames, hnot] using h n ⟨v, hv, hn⟩
    · rintro h n ⟨v, hv, hn⟩
      have hin := h v hv n hn
      simpa using hin
  | unknown => simp

end

end Nexara.Drs
