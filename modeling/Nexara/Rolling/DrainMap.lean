import Nexara.Go.Strconv
import Nexara.Rolling.HaCheck

/-!
# The workload map of a drain

A drain builds the workload map once and then keeps it up to date by hand. `startNode` puts a
migrated guest on its new node and takes it off the drained one, `resumeDrain` only does the former:
a guest that the map showed on the drained node is then on two nodes, and what `SelectTarget` makes
of it depends on the order of the map (`resumeDrain_truthful_iff`).
-/

namespace Nexara.HaCheck

open Drs Rolling

variable {F : Type}

/-! ## The loops -/

/-- What becomes of a guest in the drain loop. -/
inductive Fate where
  /-- It has left the node by itself, or is shut down where it is. -/
  | skipped
  | migrated
  /-- The drain ends here. -/
  | stopped

structure Drain where
  source : String
  targets : List String
  ha : HAConstraints
  drsRules : List (Drs.Rule String)

/-- A call of `SelectTarget`, with the guests that have migrated before. -/
structure Call (F : Type) where
  moved : List (GuestSnapshot × String)
  nodeWorkloads : NodeWorkloads String F
  target : Except String String

def movedWorkload [Zero F] (guest : GuestSnapshot) (target : String) : Workload String F where
  vmid := guest.vmid
  type := match guest.type with
    | .qemu => .qemu
    | .lxc => .lxc
  node := target
  cpuUsage := 0
  cpus := 0
  mem := 0
  maxMem := 0

/-- How `resumeDrain` updates the map. -/
def addTo [Zero F] (guest : GuestSnapshot) (target : String) (m : NodeWorkloads String F) :
    NodeWorkloads String F :=
  m.set target (m.on target ++ [movedWorkload guest target])

/-- How `startNode` updates the map. -/
def moveTo [Zero F] (source : String) (guest : GuestSnapshot) (target : String)
    (m : NodeWorkloads String F) : NodeWorkloads String F :=
  let m := addTo guest target m
  m.set source ((m.on source).filter (·.vmid ≠ guest.vmid))

namespace Drain

variable (d : Drain)

/-- The calls of a drain loop; each has its own orders. -/
def calls (patch : GuestSnapshot → String → NodeWorkloads String F → NodeWorkloads String F)
    (ω : ℕ → Orders F) : List (GuestSnapshot × Fate) → List (GuestSnapshot × String) →
    NodeWorkloads String F → List (Call F)
  | [], _, _ => []
  | (_, .stopped) :: _, _, _ => []
  | (_, .skipped) :: guests, moved, m => calls patch ω guests moved m
  | (g, .migrated) :: guests, moved, m =>
    let target := selectTarget ⟨g, d.ha, d.drsRules, m, ω moved.length⟩ d.targets
    ⟨moved, m, target⟩ :: match target with
      | .error _ => []
      | .ok t => calls patch ω guests ((g, t) :: moved) (patch g t m)

def startNodeCalls [Zero F] (ω : ℕ → Orders F) (guests : List (GuestSnapshot × Fate))
    (m : NodeWorkloads String F) : List (Call F) := d.calls (moveTo d.source) ω guests [] m

def resumeDrainCalls [Zero F] (ω : ℕ → Orders F) (guests : List (GuestSnapshot × Fate))
    (m : NodeWorkloads String F) : List (Call F) := d.calls addTo ω guests [] m

end Drain

/-- The guests that migrate, in order. -/
def migrating : List (GuestSnapshot × Fate) → List GuestSnapshot
  | [] => []
  | (_, .stopped) :: _ => []
  | (_, .skipped) :: guests => migrating guests
  | (g, .migrated) :: guests => g :: migrating guests

/-! ## What the map shows -/

def Shows (m : NodeWorkloads String F) (n : String) (v : ℤ) : Prop := ∃ w ∈ m.on n, w.vmid = v

/-- No guest is on two nodes. -/
def Exclusive (m : NodeWorkloads String F) : Prop := ∀ v n n', Shows m n v → Shows m n' v → n = n'

/-- The map shows every guest that has migrated on its new node and nowhere else. -/
def Call.Truthful (c : Call F) : Prop :=
  ∀ p ∈ c.moved, ∀ n, Shows c.nodeWorkloads n p.1.vmid ↔ n = p.2

section

variable [Zero F] {m : NodeWorkloads String F} {g : GuestSnapshot} {source t n : String} {v : ℤ}

theorem on_addTo : (addTo g t m).on n = m.on n ++ if n = t then [movedWorkload g t] else [] := by
  unfold addTo
  split_ifs with h
  · subst h
    rw [NodeWorkloads.on_set_self]
  · rw [NodeWorkloads.on_set_of_ne m _ h, List.append_nil]

theorem on_moveTo (ht : t ≠ source) : (moveTo source g t m).on n =
    if n = source then (m.on source).filter (·.vmid ≠ (g.vmid : ℤ)) else (addTo g t m).on n := by
  unfold moveTo
  split_ifs with h
  · subst h
    rw [NodeWorkloads.on_set_self, on_addTo, if_neg ht.symm, List.append_nil]
  · rw [NodeWorkloads.on_set_of_ne _ _ h]

theorem shows_addTo : Shows (addTo g t m) n v ↔ Shows m n v ∨ v = g.vmid ∧ n = t := by
  unfold Shows
  rw [on_addTo]
  split_ifs with h
  · simp [movedWorkload, h, eq_comm]
  · simp [h]

theorem shows_moveTo (ht : t ≠ source) (hhere : ∀ n, Shows m n g.vmid → n = source) :
    Shows (moveTo source g t m) n v ↔ if v = g.vmid then n = t else Shows m n v := by
  have hmove : Shows (moveTo source g t m) n v ↔
      if n = source then v ≠ g.vmid ∧ Shows m n v else Shows (addTo g t m) n v := by
    unfold Shows
    rw [on_moveTo ht]
    split_ifs with h
    · grind
    · rfl
  rw [hmove, shows_addTo]
  grind

end

/-! ## Looking guests up -/

theorem vmid_of_guestSID {w w' : Workload String F} (h : guestSID w = guestSID w') :
    w.vmid = w'.vmid := by
  unfold guestSID at h
  rw [← String.toList_inj] at h
  refine Go.toString_injective (String.toList_inj.mp ?_)
  split_ifs at h <;> simp_all

theorem Orders.on_range (ω : Orders F) (l : Lookup) (m : NodeWorkloads String F) (n : String) :
    (ω.range l m).on n = m.on n := by
  unfold NodeWorkloads.on
  rw [AList.perm_lookup (ω.perm l m)]

section

variable {m m' : NodeWorkloads String F} (hone : Exclusive m) (hsame : ∀ n, m'.on n = m.on n)

include hone hsame

theorem find?_range {p : Workload String F → Bool}
    (hp : ∀ w w' : Workload String F, p w = true → p w' = true → w.vmid = w'.vmid)
    (ω : Orders F) (l : Lookup) (n : String) :
    (((ω.range l m').entries.find? fun e => e.2.any p).map (·.1) = some n) ↔
      ∃ w ∈ m.on n, p w = true := by
  have hon : ∀ n, (ω.range l m').on n = m.on n := fun n => (ω.on_range l m' n).trans (hsame n)
  rw [NodeWorkloads.find?_entries_eq_some, hon]
  intro w n w' n' hw hw' hv hv'
  rw [hon] at hw hw'
  exact hone w.vmid n n' ⟨w, hw, rfl⟩ ⟨w', hw', (hp w w' hv hv').symm⟩

theorem selectTarget_congr (g : GuestSnapshot) (ha : HAConstraints) (rules : List (Drs.Rule String))
    (ω ω' : Orders F) (targets : List String) :
    selectTarget ⟨g, ha, rules, m', ω'⟩ targets = selectTarget ⟨g, ha, rules, m, ω⟩ targets := by
  have hself : ∀ n, m.on n = m.on n := fun _ => rfl
  have hsid : ∀ sid l, findWorkloadNode sid (ω'.range l m') = findWorkloadNode sid (ω.range l m) := by
    intro sid l
    have hp : ∀ w w' : Workload String F, decide (guestSID w = sid) = true →
        decide (guestSID w' = sid) = true → w.vmid = w'.vmid :=
      fun w w' hw hw' => vmid_of_guestSID (by simp_all)
    exact Option.ext fun n =>
      (find?_range hone hsame hp ω' l n).trans (find?_range hone hself hp ω l n).symm
  have hvm : ∀ v l, findVMNode v (ω'.range l m') = findVMNode v (ω.range l m) := by
    intro v l
    have hp : ∀ w w' : Workload String F, decide (w.vmid = v) = true →
        decide (w'.vmid = v) = true → w.vmid = w'.vmid := by simp_all
    exact Option.ext fun n =>
      (find?_range hone hsame hp ω' l n).trans (find?_range hone hself hp ω l n).symm
  have hviolates : Selection.violates ⟨g, ha, rules, m', ω'⟩ =
      Selection.violates ⟨g, ha, rules, m, ω⟩ := by
    funext c rule j
    simp only [Selection.violates, Selection.nearResource, hsid]
  have hanti : Selection.violatesAntiAffinity ⟨g, ha, rules, m', ω'⟩ =
      Selection.violatesAntiAffinity ⟨g, ha, rules, m, ω⟩ := by
    funext c rule j
    simp only [Selection.violatesAntiAffinity, hvm]
  have hscore : Selection.score ⟨g, ha, rules, m', ω'⟩ = Selection.score ⟨g, ha, rules, m, ω⟩ := by
    funext c
    unfold Selection.score
    rw [hviolates, hanti, hsame]
    rfl
  simp only [selectTarget, hscore]

end

/-! ## The maps of the two loops -/

namespace Drain

variable {d : Drain} {patch : GuestSnapshot → String → NodeWorkloads String F → NodeWorkloads String F}
  {ω : ℕ → Orders F} {guests : List (GuestSnapshot × Fate)} {m : NodeWorkloads String F}

variable {moved : List (GuestSnapshot × String)}

/-- The map of each call, for an update that leaves the guest on the drained node (`keep`) or not. -/
theorem calls_truthful_iff (keep : Prop) (was : ℤ → Prop) (hloaded : d.ha.loaded = true)
    (htargets : d.targets ≠ []) (hsource : d.source ∉ d.targets)
    (hpatch : ∀ g t m, t ≠ d.source → (∀ n, Shows m n g.vmid → n = d.source) → ∀ n v,
      Shows (patch g t m) n v ↔
        if v = g.vmid then n = t ∨ keep ∧ Shows m n v else Shows m n v)
    (hids : (guests.map (·.1.vmid)).Nodup)
    (hmoved : ∀ p ∈ moved, (p.1.vmid ∉ guests.map (·.1.vmid)) ∧ p.2 ≠ d.source ∧
      ∀ n, Shows m n p.1.vmid ↔ n = p.2 ∨ keep ∧ n = d.source ∧ was p.1.vmid)
    (hhere : ∀ e ∈ guests, ∀ n, Shows m n e.1.vmid ↔ n = d.source ∧ was e.1.vmid) :
    ∀ c ∈ d.calls patch ω guests moved m, c.Truthful ↔ (keep → ∀ p ∈ c.moved, ¬was p.1.vmid) := by
  induction guests generalizing moved m with
  | nil => simp [calls]
  | cons e guests ih =>
    obtain ⟨g, fate⟩ := e
    simp only [List.map_cons, List.nodup_cons] at hids
    cases fate with
    | stopped => simp [calls]
    | skipped =>
      refine ih hids.2 (fun p hp => ?_) fun e he => hhere e (.tail _ he)
      obtain ⟨hnot, hp⟩ := hmoved p hp
      exact ⟨fun hmem => hnot (.tail _ hmem), hp⟩
    | migrated =>
      obtain ⟨t, ht, hselect, -⟩ := selectTarget_spec
        (q := ⟨g, d.ha, d.drsRules, m, ω moved.length⟩) hloaded htargets
      have htne : t ≠ d.source := fun heq => hsource (heq ▸ ht)
      rw [calls, hselect]
      refine List.forall_mem_cons.mpr ⟨?_, ih hids.2 ?_ fun e he n => ?_⟩
      · -- a guest that the map keeps is on the drained node as well as on its new one
        constructor
        · intro htruth hkeep p hp hwas
          obtain ⟨-, hne, hshows⟩ := hmoved p hp
          exact hne ((htruth p hp d.source).mp ((hshows _).mpr (.inr ⟨hkeep, rfl, hwas⟩))).symm
        · intro hnot p hp n
          obtain ⟨-, -, hshows⟩ := hmoved p hp
          rw [hshows, or_iff_left fun hold => hnot hold.1 p hp hold.2.2]
      · have hg := hhere _ (.head _)
        have hstep := hpatch g t m htne fun n hn => ((hg n).mp hn).1
        refine List.forall_mem_cons.mpr ⟨⟨hids.1, htne, fun n => ?_⟩, fun p hp => ?_⟩
        · rw [hstep, if_pos rfl, hg]
        · obtain ⟨hnot, hne, hshows⟩ := hmoved p hp
          simp only [List.map_cons, List.mem_cons, not_or] at hnot
          refine ⟨hnot.2, hne, fun n => ?_⟩
          rw [hstep, if_neg (by exact_mod_cast hnot.1), hshows]
      · have hg := hhere _ (.head _)
        have hne : e.1.vmid ≠ g.vmid := fun heq =>
          hids.1 (heq ▸ List.mem_map_of_mem he)
        rw [hpatch g t m htne fun n hn => ((hg n).mp hn).1, if_neg (by exact_mod_cast hne),
          hhere e (.tail _ he)]

theorem calls_eq_nil (h : migrating guests = []) : d.calls patch ω guests moved m = [] := by
  fun_induction migrating guests <;> simp_all [calls]

theorem forall_moved_iff (hloaded : d.ha.loaded = true) (htargets : d.targets ≠ [])
    {Q : GuestSnapshot → Prop} :
    (∀ c ∈ d.calls patch ω guests moved m, ∀ p ∈ c.moved, Q p.1) ↔
      migrating guests = [] ∨ (∀ p ∈ moved, Q p.1) ∧ ∀ g ∈ (migrating guests).dropLast, Q g := by
  induction guests generalizing moved m with
  | nil => simp [calls, migrating]
  | cons e guests ih =>
    obtain ⟨g, fate⟩ := e
    cases fate with
    | stopped => simp [calls, migrating]
    | skipped => exact ih
    | migrated =>
      obtain ⟨t, -, hselect, -⟩ := selectTarget_spec
        (q := ⟨g, d.ha, d.drsRules, m, ω moved.length⟩) hloaded htargets
      rw [calls, hselect, migrating]
      simp only [List.forall_mem_cons, ih]
      cases hrest : migrating guests with
      | nil => simp
      | cons g' gs =>
        simp only [List.dropLast_cons_cons, List.forall_mem_cons]
        tauto

/-- Where the map did not show the guests on the drained node, both loops choose alike. -/
theorem targets_eq [Zero F] {m' : NodeWorkloads String F} {ω' : ℕ → Orders F}
    (hloaded : d.ha.loaded = true) (htargets : d.targets ≠ []) (hsource : d.source ∉ d.targets)
    (hids : (guests.map (·.1.vmid)).Nodup) (hone : Exclusive m) (hsame : ∀ n, m'.on n = m.on n)
    (hhere : ∀ e ∈ guests, ∀ n, Shows m n e.1.vmid → n = d.source)
    (hnot : ∀ g ∈ (migrating guests).dropLast, ¬Shows m d.source g.vmid) :
    (d.calls addTo ω guests moved m).map (·.target) =
      (d.calls (moveTo d.source) ω' guests moved m').map (·.target) := by
  induction guests generalizing moved m m' with
  | nil => rfl
  | cons e guests ih =>
    obtain ⟨g, fate⟩ := e
    simp only [List.map_cons, List.nodup_cons] at hids
    cases fate with
    | stopped => rfl
    | skipped => exact ih hids.2 hone hsame (fun e he => hhere e (.tail _ he)) hnot
    | migrated =>
      obtain ⟨t, ht, hselect, -⟩ := selectTarget_spec
        (q := ⟨g, d.ha, d.drsRules, m, ω moved.length⟩) hloaded htargets
      have htne : t ≠ d.source := fun heq => hsource (heq ▸ ht)
      have hselect' := (selectTarget_congr hone hsame g d.ha d.drsRules (ω moved.length)
        (ω' moved.length) d.targets).trans hselect
      rw [calls, calls, hselect, hselect', List.map_cons]
      refine congrArg _ ?_
      by_cases hrest : migrating guests = []
      · simp [calls_eq_nil hrest]
      have hfree : ¬Shows m d.source g.vmid := by
        refine hnot g ?_
        cases hgs : migrating guests with
        | nil => exact absurd hgs hrest
        | cons g' gs => simp [migrating, hgs]
      have hnowhere : ∀ n, ¬Shows m n g.vmid := fun n hn =>
        hfree (hhere _ (.head _) n hn ▸ hn)
      have hother : ∀ e ∈ guests, (e.1.vmid : ℤ) ≠ g.vmid := fun e he heq =>
        hids.1 ((Nat.cast_injective heq : e.1.vmid = g.vmid) ▸
          List.mem_map_of_mem he)
      refine ih hids.2 ?_ (fun n => ?_) (fun e he n hn => ?_) fun g' hg' hn => ?_
      · intro v n n' hn hn'
        rw [shows_addTo] at hn hn'
        have := hone v n n'
        grind
      · rw [on_moveTo htne, on_addTo, on_addTo, hsame, hsame]
        split_ifs with hn ht'
        · exact absurd (ht'.symm.trans hn) htne
        · rw [hn, List.append_nil, List.filter_eq_self]
          exact fun w hw => by simpa using fun hv => hfree ⟨w, hw, hv⟩
        · rfl
        · rfl
      · rw [shows_addTo] at hn
        exact hhere e (.tail _ he) n (hn.resolve_right fun hg => hother e he hg.1)
      · rw [shows_addTo] at hn
        refine hnot g' ?_ (hn.resolve_right fun hg => htne hg.2.symm)
        rw [migrating, List.dropLast_cons_of_ne_nil hrest]
        exact .tail _ hg'

/-- **A resumed drain sees the true placement, and chooses as the first drain would, exactly if the
map did not show the guests that migrate before the last choice.** The first drain always does. -/
theorem resumeDrain_truthful_iff [Zero F] (hloaded : d.ha.loaded = true) (htargets : d.targets ≠ [])
    (hsource : d.source ∉ d.targets) (hids : (guests.map (·.1.vmid)).Nodup) (hone : Exclusive m)
    (hhere : ∀ e ∈ guests, ∀ n, Shows m n e.1.vmid → n = d.source) :
    (∀ ω, ∀ c ∈ d.startNodeCalls ω guests m, c.Truthful) ∧
    ∀ ω, ((∀ c ∈ d.resumeDrainCalls ω guests m, c.Truthful) ∧
        ∀ ω', (d.resumeDrainCalls ω guests m).map (·.target) =
          (d.startNodeCalls ω' guests m).map (·.target)) ↔
      ∀ g ∈ (migrating guests).dropLast, ¬Shows m d.source g.vmid := by
  have hwas : ∀ e ∈ guests, ∀ n, Shows m n e.1.vmid ↔ n = d.source ∧ Shows m d.source e.1.vmid :=
    fun e he n => ⟨fun h => ⟨hhere e he n h, hhere e he n h ▸ h⟩, fun h => h.1 ▸ h.2⟩
  refine ⟨fun ω c hc => ?_, fun ω => ?_⟩
  · refine (calls_truthful_iff False (Shows m d.source) hloaded htargets hsource
      (fun g t m ht hg n v => ?_) hids (by simp) hwas c hc).mpr False.elim
    simp [shows_moveTo ht hg]
  · have htruth : ∀ c ∈ d.resumeDrainCalls ω guests m, c.Truthful ↔
        (True → ∀ p ∈ c.moved, ¬Shows m d.source p.1.vmid) :=
      calls_truthful_iff True (Shows m d.source) hloaded htargets hsource
        (fun g t m ht hg n v => by rw [shows_addTo]; grind) hids (by simp) hwas
    have hiff : (∀ c ∈ d.resumeDrainCalls ω guests m, c.Truthful) ↔
        ∀ g ∈ (migrating guests).dropLast, ¬Shows m d.source g.vmid := by
      refine (forall₂_congr fun c hc =>
        (htruth c hc).trans (forall_prop_of_true trivial)).trans
          ((forall_moved_iff (Q := fun g => ¬Shows m d.source g.vmid) hloaded htargets).trans ?_)
      constructor
      · rintro (hnil | ⟨-, h⟩)
        · simp [hnil]
        · exact h
      · exact fun h => .inr ⟨by simp, h⟩
    rw [hiff]
    exact and_iff_left_of_imp fun hnot ω' =>
      targets_eq hloaded htargets hsource hids hone (fun _ => rfl) hhere hnot

end Drain

/-! ### A guest on two nodes -/

def Orders.reversed : Orders F where
  range _ m := ⟨m.entries.reverse, (List.perm_nodupKeys (List.reverse_perm _)).mpr m.nodupKeys⟩
  perm _ m := List.reverse_perm m.entries

def vm (vmid : ℕ) : GuestSnapshot := ⟨vmid, "", .qemu, "running", false⟩

/-- The guests 100 and 101 are to be kept apart. -/
def pair : Drain where
  source := "pve1"
  targets := ["pve2", "pve3"]
  ha := {}
  drsRules := [⟨.antiAffinity, [100, 101], []⟩]

/-- The guests with these ids, on a node. -/
def listing (node : String) (vmids : List ℕ) : List (Workload String ℕ) :=
  vmids.map fun v => movedWorkload (vm v) node

def placed (here : List ℕ) : NodeWorkloads String ℕ :=
  (NodeWorkloads.set ∅ "pve3" (listing "pve3" [301, 302, 303])).set "pve1" (listing "pve1" here)

def both : List (GuestSnapshot × Fate) := [(vm 100, .migrated), (vm 101, .migrated)]

theorem shows_placed {here : List ℕ} {n : String} {v : ℤ} : Shows (placed here) n v ↔
    n = "pve1" ∧ (∃ k ∈ here, (k : ℤ) = v) ∨ n = "pve3" ∧ (301 = v ∨ 302 = v ∨ 303 = v) := by
  have hon : (placed here).on n = if n = "pve1" then listing "pve1" here else
      if n = "pve3" then listing "pve3" [301, 302, 303] else [] := by
    unfold placed
    split_ifs with h1 h3
    · rw [h1, NodeWorkloads.on_set_self]
    · rw [NodeWorkloads.on_set_of_ne _ _ h1, h3, NodeWorkloads.on_set_self]
    · rw [NodeWorkloads.on_set_of_ne _ _ h1, NodeWorkloads.on_set_of_ne _ _ h3]
      rfl
  unfold Shows
  rw [hon]
  split_ifs with h1 h3 <;> simp [listing, movedWorkload, vm, *]

/-- The map shows guest 101 only, which migrates last. -/
theorem resumeDrain_truthful_iff_unlisted :
    (pair.resumeDrainCalls (fun _ => .reversed) both (placed [101])).map (·.target) =
      (pair.startNodeCalls (fun _ => .asListed) both (placed [101])).map (·.target) := by
  have hone : Exclusive (placed [101]) := by
    intro v n n' h h'
    rw [shows_placed] at h h'
    grind
  have hhere : ∀ e ∈ both, ∀ n, Shows (placed [101]) n e.1.vmid → n = pair.source := by
    simp [both, shows_placed, vm, pair]
  have hiff := (Drain.resumeDrain_truthful_iff (d := pair) rfl (by decide) (by decide) (by decide)
    hone hhere).2 (fun _ => .reversed)
  exact (hiff.mpr (by simp [both, migrating, shows_placed, vm])).2 _

/-- The resumed drain puts both guests on one node. -/
theorem resumeDrain_splits_guest :
    (pair.resumeDrainCalls (fun _ => .reversed) both (placed [100, 101])).map (·.target) =
      [.ok "pve2", .ok "pve2"] ∧
    (pair.startNodeCalls (fun _ => .reversed) both (placed [100, 101])).map (·.target) =
      [.ok "pve2", .ok "pve3"] := by
  decide

end Nexara.HaCheck
