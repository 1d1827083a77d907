import Mathlib.Tactic.NormNum
import Nexara.Drs.PlanMoves

/-!
# What a plan respects

A plan keeps the rules at its end (`plan_respects_rules`). On the way there a move may be forbidden
although it was allowed when it was simulated: merging puts a guest's net move where its first hop
was, before moves of other guests that a later hop relied on (`plan_meets_partner`,
`plan_steps_allowed_iff`).
-/

namespace Nexara.Drs

open Relocate NodeWorkloads

variable {N F : Type} [DecidableEq N]

/-! ## Carrying out moves -/

section

variable {m : NodeWorkloads N F} {r : Recommendation N F}

omit [DecidableEq N] in
theorem perm_filter_of_nodup {l : List (Workload N F)} (hl : (l.map Workload.vmid).Nodup)
    {w : Workload N F} (hw : w ∈ l) : l.Perm (w :: l.filter (·.vmid ≠ w.vmid)) := by
  induction l with
  | nil => cases hw
  | cons x l ih =>
    rw [List.map_cons, List.nodup_cons] at hl
    have hx : ∀ y ∈ l, y.vmid ≠ x.vmid := fun y hy heq => hl.1 (heq ▸ List.mem_map_of_mem hy)
    rcases List.mem_cons.mp hw with rfl | hw
    · have hall : l.filter (·.vmid ≠ w.vmid) = l :=
        List.filter_eq_self.mpr fun y hy => by simpa using hx y hy
      rw [List.filter_cons_of_neg (by simp), hall]
    · have hne : x.vmid ≠ w.vmid := (hx w hw).symm
      rw [List.filter_cons_of_pos (by simpa using hne)]
      exact ((ih hl.2 hw).cons x).trans (List.Perm.swap ..)

theorem Distinct.on_nodup (hd : m.Distinct) (n : N) : ((m.on n).map Workload.vmid).Nodup := by
  have hnodup := ((m.guests_perm n).map Workload.vmid).nodup_iff.mp hd
  rw [List.map_append] at hnodup
  exact hnodup.of_append_left

theorem relocated_applyMove (hd : m.Distinct) (hsrc : place m r.vmid = some r.sourceNode)
    (hne : r.sourceNode ≠ r.targetNode) :
    ∃ w, w.vmid = r.vmid ∧ Relocated w r.targetNode m (applyMove m r) := by
  unfold applyMove
  split
  · next hnone =>
    obtain ⟨w, hw, hv⟩ := (place_eq_some hd).mp hsrc
    exact absurd hv (by simpa using List.find?_eq_none.mp hnone w hw)
  · next w hfind =>
    have hv : w.vmid = r.vmid := by simpa using List.find?_some hfind
    have hperm := perm_filter_of_nodup (Distinct.on_nodup hd r.sourceNode)
      (List.mem_of_find?_eq_some hfind)
    rw [hv] at hperm
    exact ⟨w, hv, relocated_move hd hne hperm⟩

theorem applyMoves_spec {ok : Place ℤ N → Hop ℤ N → Prop} {recs : List (Recommendation N F)}
    (hd : m.Distinct) (hl : Legal ok (place m) (recs.map Recommendation.hop)) :
    (applyMoves m recs).Distinct ∧
      (∀ x, ((applyMoves m recs).guests.map (Workload.withNode x)).Perm
        (m.guests.map (Workload.withNode x))) ∧
      place (applyMoves m recs) = run (place m) (recs.map Recommendation.hop) := by
  induction recs generalizing m with
  | nil => exact ⟨hd, fun _ => .refl _, rfl⟩
  | cons r recs ih =>
    obtain ⟨hmay, hl⟩ := hl
    obtain ⟨w, hv, hmoved⟩ := relocated_applyMove hd hmay.src hmay.leaves
    have hplace : place (applyMove m r) = r.hop.apply (place m) := by
      rw [hmoved.place, hv]
      rfl
    rw [← hplace] at hl
    obtain ⟨hd', hsame, hrun⟩ := ih (hmoved.distinct hd) hl
    refine ⟨hd', fun x => (hsame x).trans (hmoved.guests x), ?_⟩
    rwa [hplace] at hrun

end

theorem forall_split_map {α β : Type} (g : α → β) (l : List α) (B : List β → β → Prop) :
    (∀ pre b post, l.map g = pre ++ b :: post → B pre b) ↔
      ∀ k a, l[k]? = some a → B ((l.take k).map g) (g a) := by
  constructor
  · intro h k a ha
    refine h _ _ ((l.drop (k + 1)).map g) ?_
    obtain ⟨hk, rfl⟩ := List.getElem?_eq_some_iff.mp ha
    rw [← List.map_cons, ← List.map_append, List.getElem_cons_drop, List.take_append_drop]
  · intro h pre b post hsplit
    obtain ⟨l₁, l₂, rfl, rfl, htail⟩ := List.map_eq_append_iff.mp hsplit
    obtain ⟨a, l₃, rfl, rfl, rfl⟩ := List.map_eq_cons_iff.mp htail
    have hb := h l₁.length a (by simp)
    rwa [List.take_left] at hb

omit [DecidableEq N] in
theorem map_vmid_hop (recs : List (Recommendation N F)) :
    recs.map (·.vmid) = (recs.map Recommendation.hop).map Hop.key := by
  rw [List.map_map]
  rfl

/-! ## Plans -/

section

variable [Field F] [LinearOrder F] (c : Choices N F) (S : Scoring N F)
  (nodeEntries : AList fun _ : N => NodeListEntry N) (rules : List (Rule N)) (scores : Scores N F)
  {m : NodeWorkloads N F} (threshold : F)

/-- A plan is what the simulated moves come to. -/
theorem plan_eq : plan c S nodeEntries rules scores m threshold =
    collapseHops (rawMoves c S nodeEntries rules scores m threshold) := by
  unfold plan
  split_ifs with hlen
  · -- with fewer than two nodes there is nothing to simulate
    have hraw : rawMoves c S nodeEntries rules scores m threshold = [] := by
      unfold rawMoves maxIterations rounds
      rw [findSourceTargetPairs, if_pos hlen]
      split_ifs <;> rfl
    rw [hraw]
    rfl
  · rfl

theorem plan_hops (hd : m.Distinct) :
    (plan c S nodeEntries rules scores m threshold).map Recommendation.hop =
      collapse ((rawMoves c S nodeEntries rules scores m threshold).map Recommendation.hop) := by
  rw [plan_eq]
  exact collapseHops_hops fun r hr =>
    (rawMoves_inv c S nodeEntries rules hd scores threshold).1.leaves (List.mem_map_of_mem hr)

/-- **Plans respect the rules.** In the placement a plan leads to, every guest is on exactly one
node, no pinned guest has moved, and every rule that was kept is kept. -/
theorem plan_respects_rules (hd : m.Distinct) :
    let P := applyMoves m (plan c S nodeEntries rules scores m threshold)
    (∀ x, (P.guests.map (Workload.withNode x)).Perm (m.guests.map (Workload.withNode x))) ∧
      (P.guests.map Workload.vmid).Nodup ∧
      (∀ w ∈ m.guests, w.pinned = true → findVMNode w.vmid P = findVMNode w.vmid m) ∧
      ∀ rule ∈ rules, checkViolations m [rule] = [] → checkViolations P [rule] = [] := by
  obtain ⟨hlegal, hmovable⟩ := rawMoves_inv c S nodeEntries rules hd scores threshold
  have hplan := plan_hops c S nodeEntries rules scores threshold hd
  have hnet := net_collapse hlegal
  have hcarried := hnet.legal fun _ => leaves_of_mem_collapse
  rw [← hplan] at hcarried
  obtain ⟨hd', hsame, hplace⟩ := applyMoves_spec hd hcarried
  rw [hplan, hnet.run] at hplace
  intro P
  refine ⟨hsame, hd', fun w hw hpin => ?_, fun rule hrule hkept => ?_⟩
  · show place P w.vmid = place m w.vmid
    rw [hplace, run_of_not_mem fun hin => ?_]
    rw [← map_vmid_hop] at hin
    obtain ⟨r, hr, hv⟩ := List.mem_map.mp hin
    exact hmovable r hr w hw hpin hv.symm
  · rw [checkViolations_eq_nil] at hkept ⊢
    rw [hplace]
    exact holds_run hrule hlegal hkept

/-- **When every step of a plan is allowed.** Each recommendation is allowed in its turn if and only
if no guest that the simulation takes to where an anti-affinity partner is to begin with hopped
before the partner first did. -/
theorem plan_steps_allowed_iff (hd : m.Distinct) :
    let recs := plan c S nodeEntries rules scores m threshold
    let raw := rawMoves c S nodeEntries rules scores m threshold
    (∀ k r, recs[k]? = some r → isMigrationAllowed r (applyMoves m (recs.take k)) rules = true) ↔
      ∀ rule ∈ rules, rule.type = .antiAffinity → ∀ v ∈ rule.vmids, ∀ v' ∈ rule.vmids,
        findVMNode v (applyMoves m raw) = findVMNode v' m → findVMNode v m ≠ findVMNode v' m →
          (raw.map (·.vmid)).idxOf v' ≤ (raw.map (·.vmid)).idxOf v := by
  have hlegal := (rawMoves_inv c S nodeEntries rules hd scores threshold).1
  have hplan := plan_hops c S nodeEntries rules scores threshold hd
  have hcarried := (net_collapse hlegal).legal fun _ => leaves_of_mem_collapse
  rw [← hplan] at hcarried
  intro recs raw
  have hsteps : ∀ k r, recs[k]? = some r →
      (isMigrationAllowed r (applyMoves m (recs.take k)) rules = true ↔
        Permits rules (run (place m) ((recs.take k).map Recommendation.hop)) r.hop) := by
    intro k r _
    have hsplit : recs.map Recommendation.hop =
        (recs.take k).map Recommendation.hop ++ (recs.drop k).map Recommendation.hop := by
      rw [← List.map_append, List.take_append_drop]
    have hfirst := (legal_append.mp (hsplit ▸ hcarried)).1
    rw [isMigrationAllowed_iff, (applyMoves_spec hd hfirst).2.2]
    rfl
  have hiff := permits_collapse_iff hlegal
  rw [← hplan, ← (applyMoves_spec hd hlegal).2.2, ← map_vmid_hop, forall_split_map Recommendation.hop
    recs fun pre h => Permits rules (run (place m) pre) h] at hiff
  exact (forall_congr' fun k => forall_congr' fun r => forall_congr' (hsteps k r)).trans hiff

/-- The placement after `Execute`, which goes on past a guest whose migration fails. -/
def execute (succeeds : ℤ → Bool) (m : NodeWorkloads N F) (recs : List (Recommendation N F)) :
    NodeWorkloads N F :=
  recs.foldl (fun m r => if succeeds r.vmid then applyMove m r else m) m

/-- **A plan survives failed migrations.** Every guest is on exactly one node: one of the plan on
its target, or on its source if its migration failed, and every other where it was. -/
theorem plan_survives_failures (hd : m.Distinct) (succeeds : ℤ → Bool) :
    let recs := plan c S nodeEntries rules scores m threshold
    let P := execute succeeds m recs
    (∀ x, (P.guests.map (Workload.withNode x)).Perm (m.guests.map (Workload.withNode x))) ∧
      (P.guests.map Workload.vmid).Nodup ∧
      (∀ r ∈ recs, findVMNode r.vmid P =
        some (if succeeds r.vmid then r.targetNode else r.sourceNode)) ∧
      ∀ v ∉ recs.map (·.vmid), findVMNode v P = findVMNode v m := by
  have hlegal := (rawMoves_inv c S nodeEntries rules hd scores threshold).1
  have hplan := plan_hops c S nodeEntries rules scores threshold hd
  have hnet := net_collapse hlegal
  rw [← hplan] at hnet
  intro recs P
  set done := recs.filter (succeeds ·.vmid)
  have hsub : (done.map Recommendation.hop).Sublist (recs.map Recommendation.hop) :=
    List.filter_sublist.map _
  have hnodup := hnet.nodup.sublist (hsub.map Hop.key)
  have hcarried : Legal (fun _ _ => True) (place m) (done.map Recommendation.hop) :=
    Net.legal ⟨hnodup, fun h hh => hnet.src h (hsub.subset hh), fun _ => run_of_mem hnodup,
      fun _ => run_of_not_mem⟩ fun h hh => leaves_of_mem_collapse (hplan ▸ hsub.subset hh)
  obtain ⟨hd', hsame, hplace⟩ := applyMoves_spec hd hcarried
  rw [show P = applyMoves m done from List.foldl_filter.symm]
  refine ⟨hsame, hd', fun r hr => ?_, fun v hv => ?_⟩
  · show place (applyMoves m done) r.hop.key = _
    rw [hplace]
    split_ifs with hok
    · exact run_of_mem hnodup (List.mem_map_of_mem (List.mem_filter.mpr ⟨hr, hok⟩))
    · refine (run_of_not_mem fun hin => hok ?_).trans (hnet.src _ (List.mem_map_of_mem hr))
      rw [← map_vmid_hop] at hin
      obtain ⟨x, hx, (hkey : x.vmid = r.vmid)⟩ := List.mem_map.mp hin
      exact hkey ▸ (List.mem_filter.mp hx).2
  · show place (applyMoves m done) v = place m v
    rw [map_vmid_hop] at hv
    rw [hplace, run_of_not_mem fun hin => hv ((hsub.map _).subset hin)]

end

/-! ## A cluster -/

omit [DecidableEq N] in
def inOrder [LinearOrder F] : Choices N F where
  range _ l := l
  range_perm _ _ := .refl _
  sortSlice key l := l.insertionSort fun a b => key b ≤ key a
  sortSlice_perm _ l := List.perm_insertionSort _ l
  sortSlice_sorted key l := by
    have : Std.Total fun a b => key b ≤ key a := ⟨fun a b => le_total (key b) (key a)⟩
    have : IsTrans _ fun a b => key b ≤ key a := ⟨fun a b c hab hbc => hbc.trans hab⟩
    exact List.pairwise_insertionSort _ l

def sqrt (q : ℚ) : ℚ := Nat.sqrt (q * 10 ^ 24).floor.toNat / 10 ^ 12

def defaultScoring : Scoring String ℚ := .standard sqrt ⟨3 / 10, 7 / 10⟩

/-- Three nodes with 16, 64 and 32 GiB. -/
def threeNodes : AList fun _ : String => NodeListEntry String :=
  [⟨"pve1", "pve1", 8, 16⟩, ⟨"pve2", "pve2", 8, 64⟩, ⟨"pve3", "pve3", 8, 32⟩].toAList

/-- Two idle guests, of 12 GiB on the first node and of 4 GiB on the second. -/
def twoGuests : NodeWorkloads String ℚ :=
  [⟨"pve1", [{ vmid := 100, node := "pve1", cpuUsage := 0, mem := 12, maxMem := 12 }]⟩,
    ⟨"pve2", [{ vmid := 101, node := "pve2", cpuUsage := 0, mem := 4, maxMem := 4 }]⟩].toAList

def initialScores : Scores String ℚ :=
  (threeNodes.entries.map fun e => ⟨e.1, defaultScoring.scoreNode e.2 (twoGuests.on e.1)⟩).toAList

def keptApart : Rule String := ⟨.antiAffinity, [100, 101], []⟩

theorem twoGuests_distinct : twoGuests.Distinct := by
  show (twoGuests.guests.map Workload.vmid).Nodup
  decide

def planFor (threshold : ℚ) : List (Recommendation String ℚ) :=
  plan inOrder defaultScoring threeNodes [keptApart] initialScores twoGuests threshold

/-- The plan moves both guests, and they are still apart. -/
theorem plan_respects_rules_apart :
    (planFor (1 / 4)).map Recommendation.hop = [⟨100, "pve1", "pve2"⟩, ⟨101, "pve2", "pve1"⟩] ∧
      checkViolations (applyMoves twoGuests (planFor (1 / 4))) [keptApart] = [] := by
  obtain ⟨-, -, -, hkept⟩ := plan_respects_rules inOrder defaultScoring threeNodes [keptApart]
    initialScores (1 / 4) twoGuests_distinct
  exact ⟨by decide +kernel, hkept keptApart (.head _) (by decide)⟩

/-- With a threshold of 1 the first guest stops at the third node, and every step is allowed. -/
theorem plan_steps_allowed_apart :
    (planFor 1).map Recommendation.hop = [⟨100, "pve1", "pve3"⟩, ⟨101, "pve2", "pve1"⟩] ∧
      ∀ k r, (planFor 1)[k]? = some r →
        isMigrationAllowed r (applyMoves twoGuests ((planFor 1).take k)) [keptApart] = true := by
  refine ⟨by decide +kernel, (plan_steps_allowed_iff inOrder defaultScoring threeNodes [keptApart]
    initialScores 1 twoGuests_distinct).mpr (by decide +kernel)⟩

/-- **A step that is not allowed when it runs.** The first guest's two simulated moves are merged
into one, to the node that the second guest has yet to leave. -/
theorem plan_meets_partner :
    (rawMoves inOrder defaultScoring threeNodes [keptApart] initialScores twoGuests
      (1 / 4)).map Recommendation.hop =
        [⟨100, "pve1", "pve3"⟩, ⟨101, "pve2", "pve1"⟩, ⟨100, "pve3", "pve2"⟩] ∧
      (planFor (1 / 4)).map Recommendation.hop =
        [⟨100, "pve1", "pve2"⟩, ⟨101, "pve2", "pve1"⟩] ∧
      ¬ ∀ k r, (planFor (1 / 4))[k]? = some r →
        isMigrationAllowed r (applyMoves twoGuests ((planFor (1 / 4)).take k)) [keptApart] = true := by
  refine ⟨by decide +kernel, by decide +kernel, fun hall => ?_⟩
  have hfirst : ((planFor (1 / 4))[0]?.all fun r =>
      isMigrationAllowed r (applyMoves twoGuests ((planFor (1 / 4)).take 0)) [keptApart]) = false := by
    decide +kernel
  cases hr : (planFor (1 / 4))[0]? with
  | none => rw [hr] at hfirst; cases hfirst
  | some r =>
    rw [hr, Option.all_some, hall 0 r hr] at hfirst
    cases hfirst

/-- The first of two migrations fails. -/
theorem plan_survives_failures_apart :
    (planFor 1).map (·.vmid) = [100, 101] ∧ ∀ r ∈ planFor 1,
      findVMNode r.vmid (execute (· ≠ 100) twoGuests (planFor 1)) =
        some (if r.vmid ≠ 100 then r.targetNode else r.sourceNode) := by
  refine ⟨by decide +kernel, fun r hr => ?_⟩
  simpa [planFor] using (plan_survives_failures inOrder defaultScoring threeNodes [keptApart]
    initialScores 1 twoGuests_distinct (· ≠ 100)).2.2.1 r hr

end Nexara.Drs
