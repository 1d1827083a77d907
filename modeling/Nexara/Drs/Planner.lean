import Mathlib.Algebra.BigOperators.Group.List.Basic
import Mathlib.Algebra.Order.Field.Basic
import Mathlib.Data.List.Sort
import Nexara.Drs.Rules

/-!
# The planner

`plan` simulates moves greedily: in each round it tries the pairs of a more and a less loaded node,
the guests of the source in turn, and takes the first move that the rules allow and that lowers the
imbalance, undoing those that do not. The moves of each guest are merged at the end
(`collapseHops`).

How nodes and guests are scored is a parameter (`Scoring`), and so is what the source leaves open
(`Choices`): the order in which a map is ranged over, and which sorted order `sort.Slice` gives.
Arithmetic is that of a field, so there is no `NaN`.
-/

namespace Nexara.Drs

variable {N F : Type}

/-! ## Scoring -/

structure NodeListEntry (N : Type) where
  node : N
  maxCPU : ℤ
  maxMem : ℤ

structure Weights (F : Type) where
  cpu : F
  memory : F

structure NodeScore (N F : Type) where
  node : N
  score : F
  cpuLoad : F
  memLoad : F

abbrev Scores (N F : Type) := AList fun _ : N => NodeScore N F

section

variable [Field F] [LinearOrder F]

/-- A load, as a fraction of the capacity and at most 1; 0 without a capacity. -/
def load (used : F) (capacity : ℤ) : F :=
  if capacity > 0 then
    let load := used / capacity
    if load > 1 then 1 else load
  else 0

def scoreNode (weights : Weights F) (node : NodeListEntry N) (workloads : List (Workload N F)) :
    NodeScore N F :=
  let cpuLoad := load (workloads.map fun w => w.cpuUsage * (w.cpus : F)).sum node.maxCPU
  let memLoad := load (((workloads.map (·.mem)).sum : ℤ) : F) node.maxMem
  ⟨node.node, weights.cpu * cpuLoad + weights.memory * memLoad, cpuLoad, memLoad⟩

/-- The coefficient of variation of the scores, for a given square root. -/
def calculateImbalance (sqrt : F → F) (scores : Scores N F) : F :=
  let values := scores.entries.map (·.2.score)
  if values.length < 2 then 0
  else
    let mean := values.sum / (values.length : F)
    if mean = 0 then 0
    else
      let varianceSum := (values.map fun s => (s - mean) * (s - mean)).sum
      sqrt (varianceSum / (values.length : F)) / mean

def estimateWorkloadImpact (weights : Weights F) (w : Workload N F) : F :=
  (if w.cpus > 0 then weights.cpu * w.cpuUsage else 0) +
    if w.maxMem > 0 then weights.memory * ((w.mem : F) / (w.maxMem : F)) else 0

end

structure Scoring (N F : Type) where
  scoreNode : NodeListEntry N → List (Workload N F) → NodeScore N F
  imbalance : Scores N F → F
  impact : Workload N F → F

def Scoring.standard [Field F] [LinearOrder F] (sqrt : F → F) (weights : Weights F) : Scoring N F where
  scoreNode := Drs.scoreNode weights
  imbalance := calculateImbalance sqrt
  impact := estimateWorkloadImpact weights

/-! ## Candidates -/

structure Choices (N F : Type) [LinearOrder F] where
  /-- The order in which the scores are ranged over in round `i`. -/
  range : ℕ → List (N × F) → List (N × F)
  range_perm : ∀ i l, (range i l).Perm l
  /-- `sort.Slice` by a key, the largest first. -/
  sortSlice : {α : Type} → (α → F) → List α → List α
  sortSlice_perm : ∀ {α : Type} (key : α → F) (l : List α), (sortSlice key l).Perm l
  sortSlice_sorted : ∀ {α : Type} (key : α → F) (l : List α),
    (sortSlice key l).Pairwise fun a b => key b ≤ key a

/-- Pairs of a node and a later one with a lower score, with the difference. -/
def candidates [Sub F] [LinearOrder F] : List (N × F) → List ((N × N) × F)
  | [] => []
  | x :: rest =>
    (rest.filter fun y => ¬ x.2 ≤ y.2).map (fun y => ((x.1, y.1), x.2 - y.2)) ++ candidates rest

def findSourceTargetPairs [Sub F] [LinearOrder F] (c : Choices N F) (i : ℕ) (scores : Scores N F) :
    List (N × N) :=
  if scores.entries.length < 2 then []
  else
    let sorted := c.sortSlice (·.2) (c.range i (scores.entries.map fun e => (e.1, e.2.score)))
    (c.sortSlice (·.2) (candidates sorted)).map (·.1)

/-! ## Merging the hops -/

section

variable [Sub F] [DecidableEq N]

/-- The guests in the order of their first hops, and the move of each. -/
abbrev Hops (N F : Type) := List ℤ × AList fun _ : ℤ => Recommendation N F

def Recommendation.extend (existing r : Recommendation N F) : Recommendation N F :=
  { existing with
    targetNode := r.targetNode
    scoreAfter := r.scoreAfter
    expectedImprovement := existing.scoreBefore - r.scoreAfter
    reason := .consolidate existing.vmType existing.vmid existing.sourceNode r.targetNode }

omit [DecidableEq N] in
def mergeHop (acc : Hops N F) (r : Recommendation N F) : Hops N F :=
  match acc.2.lookup r.vmid with
  | none => (acc.1 ++ [r.vmid], acc.2.insert r.vmid r)
  | some existing => (acc.1, acc.2.insert r.vmid (existing.extend r))

def collapseHops (recs : List (Recommendation N F)) : List (Recommendation N F) :=
  if recs.length ≤ 1 then recs
  else
    let (order, merged) := recs.foldl mergeHop ([], ∅)
    (order.filterMap fun vmid => merged.lookup vmid).filter fun r => r.sourceNode ≠ r.targetNode

end

/-! ## The greedy loop -/

structure PlanState (N F : Type) where
  currentScores : Scores N F
  currentWorkloads : NodeWorkloads N F
  recommendations : List (Recommendation N F)

section

variable [Field F] [LinearOrder F] [DecidableEq N]
  (c : Choices N F) (S : Scoring N F) (nodeEntries : AList fun _ : N => NodeListEntry N)
  (rules : List (Rule N))

/-- The least drop in imbalance that counts. -/
def minImprovement : F := 1 / 10 ^ 9

def rescore (workloads : NodeWorkloads N F) (n : N) (scores : Scores N F) : Scores N F :=
  match nodeEntries.lookup n with
  | some entry => scores.insert n (S.scoreNode entry (workloads.on n))
  | none => scores

/-- The placement with this guest, the `j`-th of the slice `workloads`, on the target. -/
def simulateMove (source target : N) (workloads : List (Workload N F)) (j : ℕ) (w : Workload N F)
    (m : NodeWorkloads N F) : NodeWorkloads N F :=
  let m := m.set source (workloads.take j ++ workloads.drop (j + 1))
  m.set target (m.on target ++ [{ w with node := target }])

/-- The placement with that guest back. -/
def undoMove (source target : N) (j : ℕ) (w : Workload N F) (m : NodeWorkloads N F) :
    NodeWorkloads N F :=
  let m := m.set target (m.on target).dropLast
  m.set source ((m.on source).take j ++ { w with node := source } :: (m.on source).drop j)

/-- Try one guest. The second result is the slice that is ranged over: the guest is cut out and put
back in place. -/
def tryWorkload (source target : N) (j : ℕ) (w : Workload N F) (workloads : List (Workload N F))
    (st : PlanState N F) : PlanState N F × List (Workload N F) × Bool :=
  let scoreBefore := S.imbalance st.currentScores
  let sourceScore := ((st.currentScores.lookup source).map (·.score)).getD 0
  let targetScore := ((st.currentScores.lookup target).map (·.score)).getD 0
  let migration : Recommendation N F := ⟨w.vmid, w.type, source, target, .none, 0, 0, 0⟩
  if w.pinned then (st, workloads, false)
  else if (checkMigration migration st.currentWorkloads rules).isSome then (st, workloads, false)
  else
    let moved := simulateMove source target workloads j w st.currentWorkloads
    let scores := rescore S nodeEntries moved target
      (rescore S nodeEntries moved source st.currentScores)
    let scoreAfter := S.imbalance scores
    if scoreBefore - scoreAfter < minImprovement then
      let back := undoMove source target j w moved
      let scores := rescore S nodeEntries back target (rescore S nodeEntries back source scores)
      ({ st with currentScores := scores, currentWorkloads := back }, back.on source, false)
    else
      let migration := { migration with
        scoreBefore := scoreBefore
        scoreAfter := scoreAfter
        expectedImprovement := scoreBefore - scoreAfter
        reason := .rebalance source sourceScore w.type w.vmid target targetScore }
      (⟨scores, moved, st.recommendations ++ [migration]⟩, workloads, true)

/-- Try the guests from the `j`-th on, `k` of them; the result says whether one moved. -/
def tryWorkloads (source target : N) :
    (k j : ℕ) → List (Workload N F) → PlanState N F → PlanState N F × Bool
  | 0, _, _, st => (st, false)
  | k + 1, j, workloads, st =>
    match workloads[j]? with
    | none => (st, false)
    | some w =>
      let (st, workloads, moved) := tryWorkload S nodeEntries rules source target j w workloads st
      if moved then (st, true) else tryWorkloads source target k (j + 1) workloads st

def tryPair (pair : N × N) (st : PlanState N F) : PlanState N F × Bool :=
  let workloads := st.currentWorkloads.on pair.1
  if workloads.isEmpty then (st, false)
  else
    -- the slice in the map is the one that is sorted
    let workloads := c.sortSlice S.impact workloads
    tryWorkloads S nodeEntries rules pair.1 pair.2 workloads.length 0 workloads
      { st with currentWorkloads := st.currentWorkloads.set pair.1 workloads }

def tryPairs : List (N × N) → PlanState N F → PlanState N F × Bool
  | [], st => (st, false)
  | pair :: pairs, st =>
    let (st, moved) := tryPair c S nodeEntries rules pair st
    if moved then (st, true) else tryPairs pairs st

def rounds (threshold : F) : (k i : ℕ) → PlanState N F → PlanState N F
  | 0, _, st => st
  | k + 1, i, st =>
    if S.imbalance st.currentScores ≤ threshold then st
    else
      let pairs := findSourceTargetPairs c i st.currentScores
      let (st, moved) := tryPairs c S nodeEntries rules pairs st
      if moved then rounds threshold k (i + 1) st else st

def maxIterations : ℕ := 20

def rawMoves (scores : Scores N F) (nodeWorkloads : NodeWorkloads N F) (threshold : F) :
    List (Recommendation N F) :=
  (rounds c S nodeEntries rules threshold maxIterations 0
    ⟨scores, nodeWorkloads, []⟩).recommendations

def plan (scores : Scores N F) (nodeWorkloads : NodeWorkloads N F) (threshold : F) :
    List (Recommendation N F) :=
  if scores.entries.length < 2 then []
  else collapseHops (rawMoves c S nodeEntries rules scores nodeWorkloads threshold)

end

/-! ## Carrying a plan out -/

section

variable [DecidableEq N]

/-- The placement after a guest has migrated; nothing happens if it is not on its source. -/
def applyMove (m : NodeWorkloads N F) (r : Recommendation N F) : NodeWorkloads N F :=
  match (m.on r.sourceNode).find? (·.vmid = r.vmid) with
  | none => m
  | some w =>
    let m := m.set r.sourceNode ((m.on r.sourceNode).filter (·.vmid ≠ r.vmid))
    m.set r.targetNode (m.on r.targetNode ++ [{ w with node := r.targetNode }])

/-- The placement after the moves of a list, one after another. -/
def applyMoves (m : NodeWorkloads N F) (recs : List (Recommendation N F)) : NodeWorkloads N F :=
  recs.foldl applyMove m

end

end Nexara.Drs
