import Mathlib.Tactic.Positivity
import Nexara.Drs.PlanRules

/-!
# What merging the hops keeps

A run of the planner is a list of moves, each from where its guest is and with the score that the
one before it has led to (`PlannerRun`). Merged guest by guest, the moves lead to the same placement
and each improves the score by what it says (`collapseHops_spec`): the score a merged move has
reached is never below the one that the next move of the run begins with (`Scored`).
-/

namespace Nexara.Drs

open Relocate

variable {N F : Type}

/-! ## Runs of the planner -/

section

variable [AddCommGroup F] [LinearOrder F]

/-- The moves of a run from placement `f`: each leaves the node its guest is on, begins with the
score the one before it reached, and lowers it by what it says. -/
structure PlannerRun (f : Place ℤ N) (recs : List (Recommendation N F)) : Prop where
  legal : Legal (fun _ _ => True) f (recs.map Recommendation.hop)
  chained : recs.IsChain fun r r' => r'.scoreBefore = r.scoreAfter
  falls : ∀ r ∈ recs, r.scoreAfter < r.scoreBefore
  improvement : ∀ r ∈ recs, r.expectedImprovement = r.scoreBefore - r.scoreAfter

/-- The move lowers the score, by what it says. -/
structure Recommendation.Improves (r : Recommendation N F) : Prop where
  falls : r.scoreAfter < r.scoreBefore
  improvement : r.expectedImprovement = r.scoreBefore - r.scoreAfter

/-- The merged moves improve the score, and none has reached a score below `s`. -/
def Scored (acc : Hops N F) (s : F) : Prop :=
  ∀ v r, acc.2.lookup v = some r → r.Improves ∧ s ≤ r.scoreAfter

theorem Scored.mergeHop {acc : Hops N F} {r : Recommendation N F} (h : Scored acc r.scoreBefore)
    (hr : r.Improves) : Scored (mergeHop acc r) r.scoreAfter := by
  -- the entry for the move's guest is replaced, and the others are as they were
  have hinsert : ∀ r', r'.Improves → r'.scoreAfter = r.scoreAfter → ∀ v x,
      (acc.2.insert r.vmid r').lookup v = some x → x.Improves ∧ r.scoreAfter ≤ x.scoreAfter := by
    intro r' himproves hafter v x hx
    by_cases hv : v = r.vmid
    · rw [hv, AList.lookup_insert, Option.some.injEq] at hx
      rw [← hx]
      exact ⟨himproves, hafter.ge⟩
    · rw [AList.lookup_insert_ne hv] at hx
      obtain ⟨hx, hle⟩ := h v x hx
      exact ⟨hx, hr.falls.le.trans hle⟩
  unfold Drs.mergeHop
  cases hlookup : acc.2.lookup r.vmid with
  | none => exact hinsert r hr rfl
  | some existing =>
    obtain ⟨hexisting, hle⟩ := h _ _ hlookup
    have hfalls : r.scoreAfter < existing.scoreBefore :=
      hr.falls.trans_le (hle.trans hexisting.falls.le)
    exact hinsert (existing.extend r) ⟨hfalls, rfl⟩ rfl

theorem Scored.foldl {recs : List (Recommendation N F)} {acc : Hops N F} {s : F} (h : Scored acc s)
    (hstart : ∀ r ∈ recs.head?, r.scoreBefore = s)
    (hchain : recs.IsChain fun r r' => r'.scoreBefore = r.scoreAfter)
    (himproves : ∀ r ∈ recs, r.Improves) : ∃ s', Scored (recs.foldl Drs.mergeHop acc) s' := by
  induction recs generalizing acc s with
  | nil => exact ⟨s, h⟩
  | cons r recs ih =>
    rw [← hstart r rfl] at h
    rw [List.isChain_cons] at hchain
    exact ih (h.mergeHop (himproves r List.mem_cons_self)) hchain.1 hchain.2
      fun r' hr' => himproves r' (List.mem_cons_of_mem r hr')

variable [DecidableEq N]

theorem PlannerRun.improves {f : Place ℤ N} {recs : List (Recommendation N F)}
    (h : PlannerRun f recs) : ∀ r ∈ collapseHops recs, r.Improves := by
  have hall : ∀ r ∈ recs, r.Improves := fun r hr => ⟨h.falls r hr, h.improvement r hr⟩
  unfold collapseHops
  split_ifs with hlen
  · exact hall
  · have hnil : ∀ s : F, Scored (([], ∅) : Hops N F) s := fun s v r hr => by
      cases hr
    obtain ⟨s, hs⟩ := (hnil ((recs.head?.map (·.scoreBefore)).getD 0)).foldl
      (fun r hr => by rw [Option.mem_def.mp hr]; rfl) h.chained hall
    intro r hr
    obtain ⟨v, -, hlookup⟩ := List.mem_filterMap.mp (List.mem_of_mem_filter hr)
    exact (hs v r hlookup).1

end

/-! ## The merged plan -/

section

variable [AddCommGroup F] [LinearOrder F] [IsOrderedAddMonoid F] [DecidableEq N]

/-- **Merging hops keeps the plan's effect.** At most one move of each guest is left, none that goes
nowhere, in the order in which the guests first moved. They lead to the same placement, and each
improves the score by what it says. -/
theorem collapseHops_spec {f : Place ℤ N} {recs : List (Recommendation N F)}
    (h : PlannerRun f recs) :
    ((collapseHops recs).map (·.vmid)).Nodup ∧
      (∀ r ∈ collapseHops recs, r.sourceNode ≠ r.targetNode) ∧
      ((collapseHops recs).map (·.vmid)).Pairwise (fun v v' =>
        (recs.map (·.vmid)).idxOf v < (recs.map (·.vmid)).idxOf v') ∧
      run f ((collapseHops recs).map Recommendation.hop) = run f (recs.map Recommendation.hop) ∧
      (∀ m : NodeWorkloads N F, m.Distinct → place m = f →
        place (applyMoves m (collapseHops recs)) = place (applyMoves m recs)) ∧
      ∀ r ∈ collapseHops recs, r.expectedImprovement = r.scoreBefore - r.scoreAfter ∧
        0 < r.expectedImprovement := by
  have hhops : (collapseHops recs).map Recommendation.hop = collapse (recs.map Recommendation.hop) :=
    collapseHops_hops fun r hr => h.legal.leaves (List.mem_map_of_mem hr)
  have hnet := net_collapse h.legal
  have hleaves : ∀ r ∈ collapseHops recs, r.sourceNode ≠ r.targetNode := fun r hr =>
    leaves_of_mem_collapse (hhops ▸ List.mem_map_of_mem hr)
  have hrun : run f ((collapseHops recs).map Recommendation.hop) =
      run f (recs.map Recommendation.hop) := by
    rw [hhops, hnet.run]
  refine ⟨?_, hleaves, ?_, hrun, ?_, ?_⟩
  · rw [map_vmid_hop, hhops]
    exact hnet.nodup
  · rw [map_vmid_hop, map_vmid_hop, hhops]
    exact collapse_order _
  · rintro m hd rfl
    have hlegal := hnet.legal fun _ => leaves_of_mem_collapse
    rw [← hhops] at hlegal
    rw [(applyMoves_spec hd hlegal).2.2, (applyMoves_spec hd h.legal).2.2, hrun]
  · intro r hr
    have himproves := h.improves r hr
    refine ⟨himproves.improvement, ?_⟩
    rw [himproves.improvement]
    exact sub_pos.mpr himproves.falls

end

/-! ## The planner's moves -/

section

variable [Field F] [LinearOrder F] [IsStrictOrderedRing F] [DecidableEq N]
  (c : Choices N F) (S : Scoring N F) (nodeEntries : AList fun _ : N => NodeListEntry N)
  (rules : List (Rule N))

/-- The moves taken so far improve the score, by what they say. -/
def PlanState.Improving (st : PlanState N F) : Prop := ∀ r ∈ st.recommendations, r.Improves

variable {st : PlanState N F}

section

variable (h : st.Improving)

include h

theorem PlanState.Improving.tryWorkload (source target : N) (j : ℕ) (w : Workload N F)
    (workloads : List (Workload N F)) :
    (Drs.tryWorkload S nodeEntries rules source target j w workloads st).1.Improving := by
  simp only [Drs.tryWorkload]
  split_ifs with hpin hblocked hgain
  · exact h
  · exact h
  · exact h
  · intro r hr
    rcases List.mem_append.mp hr with hr | hr
    · exact h r hr
    · -- a move is only taken if it improves the score
      rw [List.mem_singleton.mp hr]
      have hmin : (0 : F) < minImprovement := by
        unfold minImprovement
        positivity
      exact ⟨sub_pos.mp (hmin.trans_le (not_lt.mp hgain)), rfl⟩

theorem PlanState.Improving.tryWorkloads (source target : N) (k j : ℕ)
    (workloads : List (Workload N F)) :
    (Drs.tryWorkloads S nodeEntries rules source target k j workloads st).1.Improving := by
  induction k generalizing j workloads st with
  | zero => exact h
  | succ k ih =>
    unfold Drs.tryWorkloads
    cases hw : workloads[j]? with
    | none => exact h
    | some w =>
      have h' := h.tryWorkload S nodeEntries rules source target j w workloads
      dsimp only
      split_ifs
      · exact h'
      · exact ih h' _ _

theorem PlanState.Improving.tryPairs (pairs : List (N × N)) :
    (Drs.tryPairs c S nodeEntries rules pairs st).1.Improving := by
  induction pairs generalizing st with
  | nil => exact h
  | cons pair pairs ih =>
    have h' : (Drs.tryPair c S nodeEntries rules pair st).1.Improving := by
      unfold Drs.tryPair
      dsimp only
      split_ifs
      · exact h
      · have hsorted : ∀ m, PlanState.Improving { st with currentWorkloads := m } := fun _ => h
        exact (hsorted _).tryWorkloads S nodeEntries rules _ _ _ _ _
    unfold Drs.tryPairs
    dsimp only
    split_ifs
    · exact h'
    · exact ih h'

theorem PlanState.Improving.rounds (threshold : F) (k i : ℕ) :
    (Drs.rounds c S nodeEntries rules threshold k i st).Improving := by
  induction k generalizing i st with
  | zero => exact h
  | succ k ih =>
    have h' := h.tryPairs c S nodeEntries rules (findSourceTargetPairs c i st.currentScores)
    unfold Drs.rounds
    dsimp only
    split_ifs
    · exact h
    · exact ih h' _
    · exact h'

end

theorem rawMoves_run {m : NodeWorkloads N F} (hd : m.Distinct) (scores : Scores N F) (threshold : F)
    (hchained : (rawMoves c S nodeEntries rules scores m threshold).IsChain
      fun r r' => r'.scoreBefore = r.scoreAfter) :
    PlannerRun (place m) (rawMoves c S nodeEntries rules scores m threshold) := by
  have hnone : PlanState.Improving ⟨scores, m, []⟩ := fun r hr => absurd hr List.not_mem_nil
  have himproves := hnone.rounds c S nodeEntries rules threshold maxIterations 0
  have hlegal := (rawMoves_inv c S nodeEntries rules hd scores threshold).1
  exact ⟨hlegal.mono fun _ _ _ => trivial, hchained, fun r hr => (himproves r hr).falls,
    fun r hr => (himproves r hr).improvement⟩

end

/-- Of three moves the first and the last are of one guest. -/
theorem collapseHops_spec_apart :
    let recs := rawMoves inOrder defaultScoring threeNodes [keptApart] initialScores twoGuests (1 / 4)
    recs.map (·.vmid) = [100, 101, 100] ∧ (collapseHops recs).map (·.vmid) = [100, 101] ∧
      place (applyMoves twoGuests (collapseHops recs)) = place (applyMoves twoGuests recs) ∧
      ∀ r ∈ collapseHops recs, 0 < r.expectedImprovement := by
  intro recs
  have hchained : recs.IsChain fun r r' => r'.scoreBefore = r.scoreAfter := by decide +kernel
  have hrun : PlannerRun (place twoGuests) recs :=
    rawMoves_run inOrder defaultScoring threeNodes [keptApart] twoGuests_distinct _ _ hchained
  obtain ⟨-, -, -, -, hplace, hscores⟩ := collapseHops_spec hrun
  exact ⟨by decide +kernel, by decide +kernel, hplace twoGuests twoGuests_distinct rfl,
    fun r hr => (hscores r hr).2⟩

end Nexara.Drs
