import Mathlib.Data.List.Dedup
import Nexara.Drs.Placement
import Nexara.Go.Collections
import Nexara.Rolling.Orchestrator

/-!
# The node for a drained guest

`SelectTarget` scores the candidates: a violated hard constraint costs 1000 points, a violated soft
one 50 and every guest on the node one, and the highest score wins. The costs are added up, so a
hard constraint comes first only as long as the smaller costs do not reach it
(`selectTarget_prefers_iff`). A guest is looked up by ranging over the workload map, in an order
that the language leaves open (`Orders`).
-/

namespace Nexara.HaCheck

open Drs Rolling

variable {F : Type}

/-! ## What the HA manager is told -/

inductive HARuleType where
  | nodeAffinity | resourceAffinity
  /-- Any other text; such a rule is ignored. -/
  | other

/-- Resources and nodes are comma-separated lists. -/
structure HARuleEntry where
  rule : String
  type : HARuleType
  resources : String
  nodes : String := ""
  strict : ℤ := 0
  disable : ℤ := 0
  affinity : String := ""

structure HAResource where
  group : String

structure HAGroup where
  nodes : String
  restricted : ℤ

structure HAConstraints where
  loaded : Bool := true
  resources : Go.Map HAResource := ∅
  groups : Go.Map HAGroup := ∅
  rules : List HARuleEntry := []

/-- The parts of a comma-separated list, trimmed, without the empty ones. -/
def listed (raw : String) : List String := ((Go.split raw ',').map Go.trimSpace).filter (· ≠ "")

/-- The keys of the set. -/
def parseCSV (raw : String) : List String := (listed raw).dedup

@[simp] theorem mem_parseCSV {raw s : String} : s ∈ parseCSV raw ↔ s ∈ listed raw := List.mem_dedup

/-- The text before the first colon. -/
def beforeColon (s : String) : String := ((Go.cut s ':').map (·.1)).getD s

def parseHAGroupNodes (raw : String) : List String := ((listed raw).map beforeColon).dedup

def guestSID (w : Workload String F) : String :=
  (if w.type = .lxc then "ct" else "vm") ++ ":" ++ toString w.vmid

def sidOf (guest : GuestSnapshot) : String :=
  guestTypeToSIDPrefix guest.type ++ ":" ++ toString guest.vmid

def ruleAppliesToGuest (rule : HARuleEntry) (sid : String) : Bool :=
  (Go.split rule.resources ',').any fun part => Go.trimSpace part = sid

def findWorkloadNode (sid : String) (m : NodeWorkloads String F) : Option String :=
  (m.entries.find? fun e => e.2.any (guestSID · = sid)).map (·.1)

/-! ## The score -/

/-- A range over the workload map: for which candidate and rule, and for which other guest of the
rule. -/
inductive Lookup where
  | ha (candidate : String) (rule : ℕ) (sid : String)
  | drs (candidate : String) (rule position : ℕ)

/-- The order in which each range over the map runs. -/
structure Orders (F : Type) where
  range : Lookup → NodeWorkloads String F → NodeWorkloads String F
  perm : ∀ l m, (range l m).entries.Perm m.entries

/-- What a candidate is scored by. -/
structure Selection (F : Type) where
  guest : GuestSnapshot
  ha : HAConstraints
  drsRules : List (Drs.Rule String)
  nodeWorkloads : NodeWorkloads String F
  orders : Orders F

namespace Selection

variable (q : Selection F) (candidate : String)

def restricted : Bool :=
  match q.ha.resources.lookup (sidOf q.guest) with
  | none => false
  | some res => res.group ≠ "" && match q.ha.groups.lookup res.group with
    | none => false
    | some grp => grp.restricted = 1 && decide (candidate ∉ parseHAGroupNodes grp.nodes)

/-- The candidate runs another resource of the rule. -/
def nearResource (rule : HARuleEntry) (j : ℕ) : Bool :=
  ((parseCSV rule.resources).filter (· ≠ sidOf q.guest)).any fun sid =>
    findWorkloadNode sid (q.orders.range (.ha candidate j sid) q.nodeWorkloads) == some candidate

def violates (rule : HARuleEntry) (j : ℕ) : Bool :=
  if rule.disable = 1 then false
  else if !ruleAppliesToGuest rule (sidOf q.guest) then false
  else match rule.type with
    | .nodeAffinity => candidate ∉ parseCSV rule.nodes
    | .resourceAffinity => rule.affinity = "negative" && q.nearResource candidate rule j
    | .other => false

def violatesAntiAffinity (rule : Drs.Rule String) (j : ℕ) : Bool :=
  rule.type = .antiAffinity && decide ((q.guest.vmid : ℤ) ∈ rule.vmids) &&
    rule.vmids.zipIdx.any fun (v, k) => v ≠ q.guest.vmid &&
      findVMNode v (q.orders.range (.drs candidate j k) q.nodeWorkloads) == some candidate

def violatesPin (rule : Drs.Rule String) : Bool :=
  rule.type = .pin && decide ((q.guest.vmid : ℤ) ∈ rule.vmids) && !rule.nodeNames.isEmpty &&
    decide (candidate ∉ rule.nodeNames)

def score : ℤ :=
  100 - (if q.restricted candidate then 1000 else 0)
    - (q.ha.rules.zipIdx.map fun (rule, j) =>
        if q.violates candidate rule j then if rule.strict = 1 then 1000 else 50 else 0).sum
    - (q.drsRules.zipIdx.map fun (rule, j) =>
        if q.violatesAntiAffinity candidate rule j then 50 else 0).sum
    - (q.drsRules.map fun rule => if q.violatesPin candidate rule then 50 else 0).sum
    - (q.nodeWorkloads.on candidate).length

end Selection

def better (best r : String × ℤ) : String × ℤ := if r.2 > best.2 then r else best

def selectTarget (q : Selection F) (candidates : List String) : Except String String :=
  if !q.ha.loaded then
    .error ("HA constraints were never loaded: refusing to select a target that may violate an " ++
      "affinity rule")
  else match candidates.map fun c => (c, q.score c) with
    | [] => .error "no candidate nodes available"
    | first :: rest => .ok (rest.foldl better first).1

/-! ## Which candidate wins -/

theorem foldl_better (r : String × ℤ) (rs : List (String × ℤ)) :
    rs.foldl better r ∈ r :: rs ∧ ∀ x ∈ r :: rs, x.2 ≤ (rs.foldl better r).2 := by
  induction rs generalizing r with
  | nil => simp
  | cons s rs ih =>
    obtain ⟨hmem, hmax⟩ := ih (better r s)
    have hr : r.2 ≤ (better r s).2 ∧ s.2 ≤ (better r s).2 ∧ (better r s = r ∨ better r s = s) := by
      unfold better
      split_ifs <;> grind
    grind

theorem selectTarget_spec {q : Selection F} {candidates : List String} (hloaded : q.ha.loaded = true)
    (hne : candidates ≠ []) :
    ∃ d ∈ candidates, selectTarget q candidates = .ok d ∧ ∀ c ∈ candidates, q.score c ≤ q.score d := by
  cases candidates with
  | nil => exact absurd rfl hne
  | cons c cs =>
    obtain ⟨hmem, hmax⟩ := foldl_better (c, q.score c) (cs.map fun c => (c, q.score c))
    rw [← List.map_cons (f := fun c => (c, q.score c))] at hmem hmax
    obtain ⟨d, hd, heq⟩ := List.mem_map.mp hmem
    refine ⟨d, hd, by simp [selectTarget, hloaded, ← heq], fun c' hc' => ?_⟩
    simpa [← heq] using hmax _ (List.mem_map_of_mem hc')

theorem selectTarget_pair {q : Selection F} (hloaded : q.ha.loaded = true) (c d : String) :
    selectTarget q [c, d] = .ok (if q.score d > q.score c then d else c) := by
  unfold selectTarget
  rw [hloaded]
  show Except.ok (better _ _).1 = _
  unfold better
  split_ifs <;> rfl

namespace Selection

variable (q : Selection F) (candidate : String)

/-- The hard constraints that the candidate violates. -/
def hard : ℕ :=
  (if q.restricted candidate then 1 else 0) +
    q.ha.rules.zipIdx.countP fun (rule, j) => q.violates candidate rule j && rule.strict = 1

/-- The soft constraints that the candidate violates. -/
def soft : ℕ :=
  (q.ha.rules.zipIdx.countP fun (rule, j) => q.violates candidate rule j && rule.strict ≠ 1) +
    (q.drsRules.zipIdx.countP fun (rule, j) => q.violatesAntiAffinity candidate rule j) +
    q.drsRules.countP (q.violatesPin candidate)

def load : ℕ := (q.nodeWorkloads.on candidate).length

theorem sum_rulePenalties {α : Type} (p strict : α → Bool) (l : List α) :
    (l.map fun a => if p a then if strict a then (1000 : ℤ) else 50 else 0).sum =
      1000 * l.countP (fun a => p a && strict a) + 50 * l.countP fun a => p a && !strict a := by
  induction l with
  | nil => rfl
  | cons a l ih =>
    rw [List.map_cons, List.sum_cons, List.countP_cons, List.countP_cons]
    cases p a <;> cases strict a <;> simp <;> omega

theorem sum_penalties {α : Type} (p : α → Bool) (l : List α) :
    (l.map fun a => if p a then (50 : ℤ) else 0).sum = 50 * l.countP p := by
  simpa using sum_rulePenalties p (fun _ => false) l

theorem score_eq : q.score candidate =
    100 - 1000 * q.hard candidate - 50 * q.soft candidate - q.load candidate := by
  have hrules := sum_rulePenalties (fun e : HARuleEntry × ℕ => q.violates candidate e.1 e.2)
    (fun e => decide (e.1.strict = 1)) q.ha.rules.zipIdx
  have hanti := sum_penalties (fun e : Drs.Rule String × ℕ => q.violatesAntiAffinity candidate e.1 e.2)
    q.drsRules.zipIdx
  have hpin := sum_penalties (q.violatesPin candidate) q.drsRules
  simp only [decide_eq_true_eq] at hrules
  unfold score hard soft load
  simp only [decide_not]
  split_ifs <;> omega

end Selection

/-- **Forbidden nodes come last, and nodes without a soft violation before those with one, exactly
if the smaller costs stay below the greater ones.** -/
theorem selectTarget_prefers_iff (q : Selection F) (hloaded : q.ha.loaded = true)
    (nodes : Set String) :
    (∀ candidates : List String, candidates ≠ [] → (∀ c ∈ candidates, c ∈ nodes) →
      ∃ d ∈ candidates, selectTarget q candidates = .ok d ∧
        ((∃ c ∈ candidates, q.hard c = 0) → q.hard d = 0) ∧
        ∀ c ∈ candidates, q.hard c = q.hard d → q.soft c = 0 → q.soft d = 0) ↔
    ∀ c ∈ nodes, ∀ d ∈ nodes,
      (q.hard c = 0 → 0 < q.hard d →
        50 * q.soft c + q.load c < 1000 * q.hard d + 50 * q.soft d + q.load d) ∧
      (q.hard c = q.hard d → q.soft c = 0 → 0 < q.soft d → q.load c < 50 * q.soft d + q.load d) := by
  constructor
  · -- otherwise the forbidden one, listed first, would be chosen
    intro h c hc d hd
    obtain ⟨d', -, hsel, hfree, hclean⟩ := h [d, c] (by simp) (by simp [hc, hd])
    rw [selectTarget_pair hloaded, q.score_eq, q.score_eq] at hsel
    have hd' := Except.ok.inj hsel
    split_ifs at hd' with hscore
    · exact ⟨fun _ _ => by omega, fun _ _ _ => by omega⟩
    · subst hd'
      refine ⟨fun hzero hpos => ?_, fun heq hzero hpos => ?_⟩
      · exact absurd (hfree ⟨c, by simp, hzero⟩) (by omega)
      · exact absurd (hclean c (by simp) heq hzero) (by omega)
  · intro h candidates hne hnodes
    obtain ⟨d, hd, hsel, hmax⟩ := selectTarget_spec hloaded hne
    refine ⟨d, hd, hsel, fun ⟨c, hc, hzero⟩ => ?_, fun c hc heq hzero => ?_⟩
    · by_contra hpos
      have hlt := (h c (hnodes c hc) d (hnodes d hd)).1 hzero (by omega)
      have hle := hmax c hc
      rw [q.score_eq, q.score_eq] at hle
      omega
    · by_contra hpos
      have hlt := (h c (hnodes c hc) d (hnodes d hd)).2 heq hzero (by omega)
      have hle := hmax c hc
      rw [q.score_eq, q.score_eq] at hle
      omega

/-! ### Where the sum misleads -/

def Orders.asListed : Orders F := ⟨fun _ m => m, fun _ _ => .refl _⟩

def web : GuestSnapshot := ⟨100, "web", .qemu, "running", false⟩

/-- A strict rule keeps the guest on the first node; 21 rules of the balancer pin it to the second. -/
def pinnedElsewhere : Selection Unit where
  guest := web
  ha := { rules := [⟨"keep", .nodeAffinity, "vm:100", "pve1", 1, 0, ""⟩] }
  drsRules := List.replicate 21 ⟨.pin, [100], ["pve2"]⟩
  nodeWorkloads := ∅
  orders := .asListed

/-- The guest is pinned to the first node, which runs 51 guests. -/
def crowded : Selection Unit where
  guest := web
  ha := {}
  drsRules := [⟨.pin, [100], ["pve1"]⟩]
  nodeWorkloads := NodeWorkloads.set ∅ "pve1" (List.replicate 51
    { vmid := 200, node := "pve1", cpuUsage := (), mem := 0, maxMem := 0 })
  orders := .asListed

theorem selectTarget_prefers_iff_calm :
    ∃ d, selectTarget { pinnedElsewhere with drsRules := [] } ["pve2", "pve1"] = .ok d ∧
      Selection.hard { pinnedElsewhere with drsRules := [] } d = 0 := by
  obtain ⟨d, -, hsel, hfree, -⟩ := (selectTarget_prefers_iff
    { pinnedElsewhere with drsRules := [] } rfl {"pve1", "pve2"}).mpr
    (by simp; decide) ["pve2", "pve1"] (by simp) (by simp)
  exact ⟨d, hsel, hfree ⟨"pve1", by simp, by decide⟩⟩

theorem selectTarget_prefers_forbidden :
    (selectTarget pinnedElsewhere ["pve1", "pve2"] = .ok "pve2" ∧ pinnedElsewhere.hard "pve1" = 0 ∧
      pinnedElsewhere.hard "pve2" = 1) ∧
    selectTarget crowded ["pve1", "pve2"] = .ok "pve2" ∧
      crowded.hard "pve1" = crowded.hard "pve2" ∧ crowded.soft "pve1" = 0 ∧
      crowded.soft "pve2" = 1 := by
  decide

end Nexara.HaCheck
