import Nexara.Go.Splits
import Nexara.Go.Strconv
import Nexara.Rolling.HaCheck

/-!
# Two readers of a node-affinity rule

The balancer turns the HA manager's rules into rules of its own (`importHARulesPVE9`), a drain reads
them as they are. The balancer cuts the priority off a node's name; a drain takes `pve1:2` for a name.
A rule without nodes allows every node to the one and none to the other. Otherwise they agree
(`nodeAffinity_readers_agree_iff`).
-/

namespace Nexara.Drs

open HaCheck

variable {F : Type}

/-! ## The import -/

inductive ListError where
  /-- The status 501, of a version without such rules. -/
  | unsupported
  | failed (text : String)

def parseSIDToVMID (sid : String) : Option ℤ :=
  match Go.cut sid ':' with
  | none => none
  | some (_, number) =>
    match Go.parseInt number with
    | .error _ => none
    | .ok vmid => some vmid.toInt

def parseHAGroupNodes (nodesStr : String) : List String :=
  if nodesStr = "" then [] else (listed nodesStr).map beforeColon

def vmIDs (entry : HARuleEntry) : List ℤ :=
  (Go.split entry.resources ',').filterMap fun res => parseSIDToVMID (Go.trimSpace res)

def importHARule (entry : HARuleEntry) : Option (Rule String) :=
  if entry.disable ≠ 0 then none
  else if (vmIDs entry).isEmpty then none
  else match entry.type with
    | .nodeAffinity =>
      some { type := .pin, vmids := vmIDs entry, nodeNames := parseHAGroupNodes entry.nodes }
    | .resourceAffinity =>
      some { type := if entry.affinity = "negative" then .antiAffinity else .affinity,
             vmids := vmIDs entry }
    | .other => none

/-- The flag says whether the rules could be listed. -/
def importHARulesPVE9 :
    Except ListError (List HARuleEntry) → Except String (List (Rule String) × Bool)
  | .error .unsupported => .ok ([], false)
  | .error (.failed text) => .error ("list HA rules: " ++ text)
  | .ok entries => .ok (entries.filterMap importHARule, true)

/-! ## The check before a drain -/

inductive Severity where
  | warning | error
  deriving DecidableEq

/-- What `AnalyzeHAConstraints` reports of an enabled node-affinity rule that applies to a guest. -/
def nodeAffinityConflict (rule : HARuleEntry) (targets : List String) : Option Severity :=
  if targets.any fun t => t ∈ parseCSV rule.nodes then none
  else some (if rule.strict = 1 then .error else .warning)

/-! ## Where they agree -/

theorem parseSIDToVMID_sidOf {guest : Rolling.GuestSnapshot} (h : guest.vmid < 2 ^ 63) :
    parseSIDToVMID (sidOf guest) = some (guest.vmid : ℤ) := by
  have hcut : Go.cut (sidOf guest) ':' =
      some (Rolling.guestTypeToSIDPrefix guest.type, toString guest.vmid) := by
    refine Go.cut_eq_some (by simp [sidOf]) ?_
    cases guest.type <;> decide
  unfold parseSIDToVMID
  rw [hcut]
  dsimp only
  rw [Go.parseInt_toString h]
  exact congrArg some (Go.toInt_ofInt_of_range (by omega) (by omega))

theorem mem_vmIDs {entry : HARuleEntry} {guest : Rolling.GuestSnapshot} (h : guest.vmid < 2 ^ 63)
    (hnames : ruleAppliesToGuest entry (sidOf guest) = true) : (guest.vmid : ℤ) ∈ vmIDs entry := by
  obtain ⟨part, hpart, hsid⟩ := List.any_eq_true.mp hnames
  refine List.mem_filterMap.mpr ⟨part, hpart, ?_⟩
  rw [of_decide_eq_true hsid, parseSIDToVMID_sidOf h]

theorem beforeColon_eq_iff {s n : String} (hn : ':' ∉ n.toList) :
    beforeColon s = n ↔ s = n ∨ ∃ p, s = n ++ ":" ++ p := by
  unfold beforeColon
  constructor
  · intro h
    cases hcut : Go.cut s ':' with
    | none =>
      rw [hcut] at h
      exact .inl h
    | some parts =>
      rw [hcut] at h
      refine .inr ⟨parts.2, ?_⟩
      rw [← String.toList_inj, Go.toList_of_cut hcut, show parts.1 = n from h]
      simp
  · rintro (rfl | ⟨p, rfl⟩)
    · rw [Go.cut_eq_none hn]
      rfl
    · have hcut : Go.cut (n ++ ":" ++ p) ':' = some (n, p) := Go.cut_eq_some (by simp) hn
      rw [hcut]
      rfl

theorem mem_parseHAGroupNodes {raw n : String} (hn : ':' ∉ n.toList) :
    n ∈ parseHAGroupNodes raw ↔ n ∈ listed raw ∨ ∃ p, n ++ ":" ++ p ∈ listed raw := by
  have hempty : parseHAGroupNodes raw = (listed raw).map beforeColon := by
    unfold parseHAGroupNodes
    split_ifs with h
    · subst h
      decide
    · rfl
  simp only [hempty, List.mem_map, beforeColon_eq_iff hn]
  grind

/-- **The two readers agree on a node exactly if the rule names a node at all and does not name this
one only with a priority.** -/
theorem nodeAffinity_readers_agree_iff {q : Selection F} {entry : HARuleEntry} {n : String}
    (hvmid : q.guest.vmid < 2 ^ 63) (henabled : entry.disable = 0)
    (htype : entry.type = .nodeAffinity)
    (hnames : ruleAppliesToGuest entry (sidOf q.guest) = true) (hn : ':' ∉ n.toList) (j : ℕ) :
    ∃ rule, importHARulesPVE9 (.ok [entry]) = .ok ([rule], true) ∧ rule.type = .pin ∧
      ((isPinAllowed q.guest.vmid n rule = true ↔ q.violates n entry j = false) ∧
        (isPinAllowed q.guest.vmid n rule = true ↔ nodeAffinityConflict entry [n] = none) ↔
        listed entry.nodes ≠ [] ∧ ∀ p, n ++ ":" ++ p ∈ listed entry.nodes → n ∈ listed entry.nodes) := by
  have hmem := mem_vmIDs hvmid hnames
  have hnodes : parseHAGroupNodes entry.nodes = [] ↔ listed entry.nodes = [] := by
    unfold parseHAGroupNodes
    split_ifs with h
    · simp [h]
      decide
    · simp
  refine ⟨⟨.pin, vmIDs entry, parseHAGroupNodes entry.nodes⟩, ?_, rfl, ?_⟩
  · have hne : (vmIDs entry).isEmpty = false := by
      cases hids : vmIDs entry with
      | nil => simp [hids] at hmem
      | cons v vs => rfl
    simp [importHARulesPVE9, importHARule, henabled, htype, hne]
  · have hpin : isPinAllowed q.guest.vmid n ⟨.pin, vmIDs entry, parseHAGroupNodes entry.nodes⟩ = true ↔
        listed entry.nodes = [] ∨ n ∈ listed entry.nodes ∨
          ∃ p, n ++ ":" ++ p ∈ listed entry.nodes := by
      simp only [isPinAllowed, List.isEmpty_iff, hnodes]
      split_ifs with hnil
      · simp [hnil]
      · simp [hnil, mem_parseHAGroupNodes hn]
    have hselect : q.violates n entry j = false ↔ n ∈ listed entry.nodes := by
      simp [Selection.violates, henabled, hnames, htype]
    have hanalyze : nodeAffinityConflict entry [n] = none ↔ n ∈ listed entry.nodes := by
      simp [nodeAffinityConflict]
    rw [hpin, hanalyze]
    by_cases hnil : listed entry.nodes = []
    · simp [hnil]
    · grind

/-- With priorities on the nodes, the balancer may place the guest on `pve1` and a drain may not. -/
def prioritised : HARuleEntry := ⟨"keep", .nodeAffinity, "vm:100", "pve1:2, pve2", 1, 0, ""⟩

theorem nodeAffinity_readers_agree_iff_pve2 :
    ∃ rule, importHARulesPVE9 (.ok [prioritised]) = .ok ([rule], true) ∧
      isPinAllowed 100 "pve2" rule = true := by
  obtain ⟨rule, himport, -, hiff⟩ := nodeAffinity_readers_agree_iff (q := pinnedElsewhere)
    (n := "pve2") (by decide) (show prioritised.disable = 0 from rfl) rfl (by decide) (by decide) 0
  exact ⟨rule, himport, (hiff.mpr ⟨by decide, fun _ _ => by decide⟩).1.mpr (by decide)⟩

theorem nodeAffinity_readers_disagree :
    (∃ rule, importHARulesPVE9 (.ok [prioritised]) = .ok ([rule], true) ∧
      isPinAllowed 100 "pve1" rule = true) ∧
    pinnedElsewhere.violates "pve1" prioritised 0 = true ∧
      nodeAffinityConflict prioritised ["pve1"] = some .error :=
  ⟨⟨_, rfl, by decide⟩, by decide, by decide⟩

end Nexara.Drs
