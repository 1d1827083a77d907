import Nexara.Drs.Placement
import Nexara.Drs.Planner
import Nexara.Drs.RuledMoves

/-!
# What the planner's loops keep

The simulated placement is always the one that the moves taken so far lead to, each of them allowed
when it was taken (`PlanInv`). A move that is tried and undone leaves every guest where it was,
although it is spliced out of the slice that is being ranged over. So the moves before merging are
legal (`rawMoves_legal`).
-/

namespace Nexara.Drs

open Relocate NodeWorkloads

variable {N F : Type}

def Recommendation.hop (r : Recommendation N F) : Hop ℤ N := ⟨r.vmid, r.sourceNode, r.targetNode⟩

variable [DecidableEq N]

/-! ## One move -/

section

variable {m : NodeWorkloads N F} {source target : N} {workloads : List (Workload N F)} {j : ℕ}
  {w : Workload N F}

omit [DecidableEq N] in
theorem perm_splice (hw : workloads[j]? = some w) :
    workloads.Perm (w :: (workloads.take j ++ workloads.drop (j + 1))) := by
  obtain ⟨hj, rfl⟩ := List.getElem?_eq_some_iff.mp hw
  have hsplit : workloads = workloads.take j ++ workloads[j] :: workloads.drop (j + 1) := by
    rw [List.getElem_cons_drop, List.take_append_drop]
  nth_rewrite 1 [hsplit]
  exact List.perm_middle

theorem undoMove_simulateMove (hne : source ≠ target) (m : NodeWorkloads N F)
    (workloads : List (Workload N F)) (j : ℕ) (w : Workload N F) :
    let l := workloads.take j ++ workloads.drop (j + 1)
    undoMove source target j w (simulateMove source target workloads j w m) =
      ((m.set source l).set target ((m.set source l).on target)).set source
        (l.take j ++ w.withNode source :: l.drop j) := by
  intro l
  simp only [undoMove, simulateMove, on_set_self, List.dropLast_concat, set_set,
    on_set_of_ne _ _ hne]
  rfl

section

variable (hd : m.Distinct) (hne : source ≠ target) (hm : m.on source = workloads)
  (hw : workloads[j]? = some w)

include hd hne hm hw

theorem relocated_simulateMove :
    Relocated w target m (simulateMove source target workloads j w m) := by
  refine relocated_move hd hne ?_
  rw [hm]
  exact perm_splice hw

theorem relocated_undoMove :
    Relocated w source m (undoMove source target j w
      (simulateMove source target workloads j w m)) := by
  rw [undoMove_simulateMove hne]
  refine relocated_back hd hne (hm.symm ▸ perm_splice hw : (m.on source).Perm _) ?_
  have hback : ((workloads.take j ++ workloads.drop (j + 1)).take j ++ w.withNode source ::
      (workloads.take j ++ workloads.drop (j + 1)).drop j).Perm (w.withNode source ::
        ((workloads.take j ++ workloads.drop (j + 1)).take j ++
          (workloads.take j ++ workloads.drop (j + 1)).drop j)) := List.perm_middle
  rwa [List.take_append_drop] at hback

end

end

/-! ## The loops -/

/-- The placement is where legal moves of movable guests have led. -/
structure PlanInv (rules : List (Rule N)) (m₀ : NodeWorkloads N F) (st : PlanState N F) : Prop where
  distinct : st.currentWorkloads.Distinct
  same : ∀ x, (st.currentWorkloads.guests.map (Workload.withNode x)).Perm
    (m₀.guests.map (Workload.withNode x))
  legal : Legal (Permits rules) (place m₀) (st.recommendations.map Recommendation.hop)
  run : run (place m₀) (st.recommendations.map Recommendation.hop) = place st.currentWorkloads
  movable : ∀ r ∈ st.recommendations, ∀ w ∈ m₀.guests, w.pinned = true → w.vmid ≠ r.vmid

section

variable {rules : List (Rule N)} {m₀ : NodeWorkloads N F} {st : PlanState N F}

omit [DecidableEq N] in
theorem PlanInv.init (scores : Scores N F) (hd : m₀.Distinct) : PlanInv rules m₀ ⟨scores, m₀, []⟩ :=
  ⟨hd, fun _ => .refl _, trivial, rfl, fun _ h => absurd h List.not_mem_nil⟩

variable {w : Workload N F}

section

variable (hi : PlanInv rules m₀ st)

include hi

omit [DecidableEq N] in
theorem PlanInv.unpinned {w₀ : Workload N F} (hw : w ∈ st.currentWorkloads.guests)
    (hpin : w.pinned = false) (hw₀ : w₀ ∈ m₀.guests) (hpin₀ : w₀.pinned = true) : w₀.vmid ≠ w.vmid := by
  intro hv
  have hd : m₀.Distinct := by
    have hperm := ((hi.same w.node).map Workload.vmid).nodup_iff
    rw [List.map_map, List.map_map] at hperm
    exact hperm.mp hi.distinct
  have hmem := (hi.same w.node).mem_iff.mp (List.mem_map_of_mem hw)
  obtain ⟨w₁, hw₁, hsame⟩ := List.mem_map.mp hmem
  have hv₁ : (w₁.withNode w.node).vmid = (w.withNode w.node).vmid := congrArg Workload.vmid hsame
  have hpin₁ : (w₁.withNode w.node).pinned = (w.withNode w.node).pinned :=
    congrArg Workload.pinned hsame
  have heq : w₀ = w₁ := List.inj_on_of_nodup_map hd hw₀ hw₁ (hv.trans hv₁.symm)
  exact absurd ((heq ▸ hpin₀).symm.trans (hpin₁.trans hpin)) (by decide)

theorem PlanInv.back {s : N} (hw : w ∈ st.currentWorkloads.on s) {m : NodeWorkloads N F}
    (hm : Relocated w s st.currentWorkloads m) (scores : Scores N F) :
    PlanInv rules m₀ { st with currentScores := scores, currentWorkloads := m } := by
  refine ⟨hm.distinct hi.distinct, fun x => (hm.guests x).trans (hi.same x), hi.legal, ?_, hi.movable⟩
  have hplace : place m = place st.currentWorkloads := by
    rw [hm.place]
    exact Function.update_eq_self_iff.mpr (place_of_mem hi.distinct hw).symm
  exact hi.run.trans hplace.symm

/-- Other scores, and a map in which one movable guest was moved, as the rules allow. -/
theorem PlanInv.moved {s t : N} (hw : w ∈ st.currentWorkloads.on s)
    (hpin : w.pinned = false) (hne : s ≠ t) {m : NodeWorkloads N F}
    (hm : Relocated w t st.currentWorkloads m) {r : Recommendation N F}
    (hr : r.hop = ⟨w.vmid, s, t⟩)
    (hok : ∀ rule ∈ rules, Allows rule (place st.currentWorkloads) w.vmid t) (scores : Scores N F) :
    PlanInv rules m₀ ⟨scores, m, st.recommendations ++ [r]⟩ := by
  have hsrc : place st.currentWorkloads w.vmid = some s := place_of_mem hi.distinct hw
  refine ⟨hm.distinct hi.distinct, fun x => (hm.guests x).trans (hi.same x), ?_, ?_, ?_⟩
  · rw [List.map_append, List.map_singleton, hr]
    refine hi.legal.concat ?_
    rw [hi.run]
    exact ⟨hsrc, hne, hok⟩
  · rw [List.map_append, List.map_singleton, hr, run_append, hi.run, hm.place]
    rfl
  · intro r' hr' w₀ hw₀ hpin₀
    rcases List.mem_append.mp hr' with hr' | hr'
    · exact hi.movable r' hr' w₀ hw₀ hpin₀
    · rw [List.mem_singleton.mp hr']
      have hv : r.vmid = w.vmid := congrArg Hop.key hr
      rw [hv]
      exact hi.unpinned (mem_guests.mpr ⟨s, hw⟩) hpin hw₀ hpin₀

end

variable [Field F] [LinearOrder F] (c : Choices N F) (S : Scoring N F)
  (nodeEntries : AList fun _ : N => NodeListEntry N)

theorem PlanInv.tryWorkload (hi : PlanInv rules m₀ st) {source target : N} (hne : source ≠ target)
    {workloads : List (Workload N F)}
    (hm : st.currentWorkloads.on source = workloads) {j : ℕ} (hw : workloads[j]? = some w) :
    let res := Drs.tryWorkload S nodeEntries rules source target j w workloads st
    PlanInv rules m₀ res.1 ∧ (res.2.2 = false → res.1.currentWorkloads.on source = res.2.1) := by
  have hmem : w ∈ st.currentWorkloads.on source := hm ▸ List.mem_of_getElem? hw
  intro res
  simp only [res, Drs.tryWorkload]
  split_ifs with hpin hblocked hgain
  · exact ⟨hi, fun _ => hm⟩
  · exact ⟨hi, fun _ => hm⟩
  · exact ⟨hi.back hmem (relocated_undoMove hi.distinct hne hm hw) _, fun _ => rfl⟩
  · refine ⟨hi.moved hmem (by simpa using hpin) hne
      (relocated_simulateMove hi.distinct hne hm hw) rfl ?_ _, nofun⟩
    have hallowed : isMigrationAllowed
        (⟨w.vmid, w.type, source, target, .none, 0, 0, 0⟩ : Recommendation N F)
        st.currentWorkloads rules = true := by
      simpa [isMigrationAllowed] using hblocked
    exact isMigrationAllowed_iff.mp hallowed

theorem PlanInv.tryWorkloads {source target : N} (hne : source ≠ target)
    {k j : ℕ} {workloads : List (Workload N F)} (hi : PlanInv rules m₀ st)
    (hm : st.currentWorkloads.on source = workloads) :
    PlanInv rules m₀ (Drs.tryWorkloads S nodeEntries rules source target k j workloads st).1 := by
  induction k generalizing j workloads st with
  | zero => exact hi
  | succ k ih =>
    unfold Drs.tryWorkloads
    cases hw : workloads[j]? with
    | none => exact hi
    | some w =>
      obtain ⟨hi', hm'⟩ := hi.tryWorkload S nodeEntries hne hm hw
      dsimp only
      split_ifs with hmoved
      · exact hi'
      · exact ih hi' (hm' (by simpa using hmoved))

theorem PlanInv.tryPair (hi : PlanInv rules m₀ st) {pair : N × N} (hne : pair.1 ≠ pair.2) :
    PlanInv rules m₀ (Drs.tryPair c S nodeEntries rules pair st).1 := by
  unfold Drs.tryPair
  dsimp only
  split_ifs with hempty
  · exact hi
  · have hsorted := c.sortSlice_perm S.impact (st.currentWorkloads.on pair.1)
    have hguests := guests_set_perm hsorted
    refine PlanInv.tryWorkloads S nodeEntries hne ?_ (on_set_self ..)
    refine ⟨(hguests.map Workload.vmid).nodup_iff.mpr hi.distinct,
      fun x => (hguests.map _).trans (hi.same x), hi.legal, ?_, hi.movable⟩
    exact hi.run.trans (place_set_perm hi.distinct hsorted).symm

theorem PlanInv.tryPairs (hi : PlanInv rules m₀ st) {pairs : List (N × N)}
    (hne : ∀ pair ∈ pairs, pair.1 ≠ pair.2) :
    PlanInv rules m₀ (Drs.tryPairs c S nodeEntries rules pairs st).1 := by
  induction pairs generalizing st with
  | nil => exact hi
  | cons pair pairs ih =>
    have hi' := hi.tryPair c S nodeEntries (hne pair (.head _))
    unfold Drs.tryPairs
    dsimp only
    split_ifs
    · exact hi'
    · exact ih hi' fun p hp => hne p (.tail _ hp)

omit [DecidableEq N] in
theorem mem_candidates {l : List (N × F)} {p : (N × N) × F} (hp : p ∈ candidates l) :
    ∃ x ∈ l, ∃ y ∈ l, p.1 = (x.1, y.1) ∧ y.2 < x.2 := by
  induction l with
  | nil => cases hp
  | cons x rest ih =>
    rcases List.mem_append.mp hp with hp | hp
    · obtain ⟨y, hy, rfl⟩ := List.mem_map.mp hp
      obtain ⟨hy, hlt⟩ := List.mem_filter.mp hy
      exact ⟨x, .head _, y, List.mem_cons_of_mem x hy, rfl, by simpa using hlt⟩
    · obtain ⟨a, ha, b, hb, hab⟩ := ih hp
      exact ⟨a, List.mem_cons_of_mem x ha, b, List.mem_cons_of_mem x hb, hab⟩

theorem findSourceTargetPairs_ne (i : ℕ) (scores : Scores N F) {pair : N × N}
    (hpair : pair ∈ findSourceTargetPairs c i scores) : pair.1 ≠ pair.2 := by
  unfold findSourceTargetPairs at hpair
  split_ifs at hpair
  · cases hpair
  · obtain ⟨p, hp, rfl⟩ := List.mem_map.mp hpair
    obtain ⟨x, hx, y, hy, hpair, hlt⟩ := mem_candidates ((c.sortSlice_perm ..).mem_iff.mp hp)
    -- a node has one score
    have hscore : ∀ {x : N × F}, x ∈ c.sortSlice (·.2) (c.range i
        (scores.entries.map fun e => (e.1, e.2.score))) →
        (scores.lookup x.1).map (·.score) = some x.2 := by
      intro x hx
      rw [(c.sortSlice_perm ..).mem_iff, (c.range_perm ..).mem_iff, List.mem_map] at hx
      obtain ⟨e, he, rfl⟩ := hx
      have hlookup : scores.lookup e.1 = some e.2 := AList.mem_lookup_iff.mpr he
      rw [hlookup]
      rfl
    rw [hpair]
    intro heq
    have hx' := hscore hx
    rw [show x.1 = y.1 from heq, hscore hy] at hx'
    exact absurd (Option.some.inj hx') (ne_of_lt hlt)

theorem PlanInv.rounds (threshold : F) {k i : ℕ} (hi : PlanInv rules m₀ st) :
    PlanInv rules m₀ (Drs.rounds c S nodeEntries rules threshold k i st) := by
  induction k generalizing i st with
  | zero => exact hi
  | succ k ih =>
    have hi' := hi.tryPairs c S nodeEntries fun _ => findSourceTargetPairs_ne c i st.currentScores
    unfold Drs.rounds
    dsimp only
    split_ifs
    · exact hi
    · exact ih hi'
    · exact hi'

/-- The simulated moves lead from the input to a placement, each as the rules allow. -/
theorem rawMoves_inv (rules : List (Rule N)) (hd : m₀.Distinct) (scores : Scores N F) (threshold : F) :
    let recs := rawMoves c S nodeEntries rules scores m₀ threshold
    Legal (Permits rules) (place m₀) (recs.map Recommendation.hop) ∧
      ∀ r ∈ recs, ∀ w ∈ m₀.guests, w.pinned = true → w.vmid ≠ r.vmid := by
  have hinit : PlanInv rules m₀ ⟨scores, m₀, []⟩ := PlanInv.init scores hd
  have hi := hinit.rounds c S nodeEntries threshold (k := maxIterations) (i := 0)
  exact ⟨hi.legal, hi.movable⟩

end

/-! ## Merging -/

section

variable [Sub F]

/-- The order and the map of the source hold this list of moves. -/
structure Tracks (acc : Hops N F) (l : List (Hop ℤ N)) : Prop where
  order : acc.1 = l.map Hop.key
  found : ∀ h ∈ l, ∃ r, acc.2.lookup h.key = some r ∧ r.hop = h
  absent : ∀ v, v ∉ l.map Hop.key → acc.2.lookup v = none

variable {l : List (Hop ℤ N)}

section

variable {acc : Hops N F} (h : Tracks acc l)

include h

omit [DecidableEq N] in
theorem Tracks.mergeHop (r : Recommendation N F) : Tracks (mergeHop acc r) (merge l r.hop) := by
  unfold Drs.mergeHop merge
  cases hlookup : acc.2.lookup r.vmid with
  | none =>
    have hnot : r.hop.key ∉ l.map Hop.key := by
      intro hin
      obtain ⟨x, hx, hkey⟩ := List.mem_map.mp hin
      obtain ⟨r', hr', -⟩ := h.found x hx
      rw [hkey] at hr'
      exact absurd (hr'.symm.trans hlookup) (by simp)
    rw [if_neg hnot]
    refine ⟨by simp [h.order, Recommendation.hop], ?_, ?_⟩
    · intro x hx
      rcases List.mem_append.mp hx with hx | hx
      · have hne : x.key ≠ r.vmid := fun heq => hnot (List.mem_map.mpr ⟨x, hx, heq⟩)
        obtain ⟨r', hr', hhop⟩ := h.found x hx
        exact ⟨r', by rw [AList.lookup_insert_ne hne, hr'], hhop⟩
      · rw [List.mem_singleton.mp hx]
        exact ⟨r, AList.lookup_insert _, rfl⟩
    · intro v hv
      rw [List.map_append, List.map_singleton, List.mem_append, List.mem_singleton, not_or] at hv
      have hne : v ≠ r.vmid := hv.2
      rw [AList.lookup_insert_ne hne]
      exact h.absent v hv.1
  | some existing =>
    have hin : r.hop.key ∈ l.map Hop.key := by
      by_contra hnot
      exact absurd ((h.absent _ hnot).symm.trans hlookup) (by simp)
    rw [if_pos hin]
    refine ⟨by rw [map_key_extend, h.order], ?_, ?_⟩
    · intro y hy
      obtain ⟨x, hx, rfl⟩ := List.mem_map.mp hy
      obtain ⟨r', hr', hhop⟩ := h.found x hx
      dsimp only
      by_cases hkey : x.key = r.vmid
      · rw [if_pos (show x.key = r.hop.key from hkey)]
        rw [hkey, hlookup, Option.some.injEq] at hr'
        refine ⟨existing.extend r, by rw [hkey, AList.lookup_insert], ?_⟩
        rw [← hhop, ← hr']
        rfl
      · rw [if_neg (show ¬ x.key = r.hop.key from hkey)]
        exact ⟨r', by rw [AList.lookup_insert_ne hkey, hr'], hhop⟩
    · intro v hv
      rw [map_key_extend] at hv
      have hne : v ≠ r.vmid := fun heq => hv (heq ▸ hin)
      rw [AList.lookup_insert_ne hne]
      exact h.absent v hv

omit [DecidableEq N] in
theorem Tracks.foldl (recs : List (Recommendation N F)) :
    Tracks (recs.foldl Drs.mergeHop acc) ((recs.map Recommendation.hop).foldl merge l) := by
  induction recs generalizing acc l with
  | nil => exact h
  | cons r recs ih => exact ih (h.mergeHop r)

omit [DecidableEq N] [Sub F] in
theorem Tracks.moves : (acc.1.filterMap fun v => acc.2.lookup v).map Recommendation.hop = l := by
  rw [h.order, List.filterMap_map, List.map_filterMap]
  have hsome : ∀ x ∈ l, Option.map Recommendation.hop (acc.2.lookup x.key) = some x := by
    intro x hx
    obtain ⟨r, hr, hhop⟩ := h.found x hx
    rw [hr, Option.map_some, hhop]
  exact (List.filterMap_congr hsome).trans List.filterMap_some

end

theorem collapseHops_hops {recs : List (Recommendation N F)}
    (hleaves : ∀ r ∈ recs, r.sourceNode ≠ r.targetNode) :
    (collapseHops recs).map Recommendation.hop = collapse (recs.map Recommendation.hop) := by
  unfold collapseHops
  split_ifs with hlen
  · match recs, hlen with
    | [], _ => rfl
    | [r], _ =>
      have hr : r.hop.src ≠ r.hop.dst := hleaves r (.head _)
      simp [collapse, merged, merge, hr]
  · have htracks : Tracks (([], ∅) : Hops N F) [] :=
      ⟨rfl, fun _ h => absurd h List.not_mem_nil, fun v _ => AList.lookup_empty v⟩
    have hmoves := (htracks.foldl recs).moves
    unfold collapse merged
    rw [← hmoves, List.filter_map]
    rfl

end

end Nexara.Drs
