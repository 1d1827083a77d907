import Nexara.Rolling.Ticks

/-!
# The record of disabled HA rules

`startNode` turns HA rules off and `releaseJobState` turns them on again; `disabled_ha_rules` is the
only place that says which rules the job has turned off. Both read the column, work, and write it
back, while the other may do the same.
-/

namespace Nexara.Rolling

open Conc Protocol

def names (rules : List DisabledHARule) : List String := rules.map (·.rule)

@[simp] theorem names_cons (r : DisabledHARule) (rules : List DisabledHARule) :
    names (r :: rules) = r.rule :: names rules := rfl

@[simp] theorem names_append (rules rules' : List DisabledHARule) :
    names (rules ++ rules') = names rules ++ names rules' := List.map_append

theorem mem_names {rules : List DisabledHARule} {x : String} :
    x ∈ names rules ↔ ∃ r ∈ rules, r.rule = x := List.mem_map

theorem names_merge_left (existing add : List DisabledHARule) :
    ∀ x ∈ names existing, x ∈ names (mergeDisabledRules existing add) := by
  induction add generalizing existing with
  | nil => exact fun x hx => hx
  | cons r add ih =>
    intro x hx
    unfold mergeDisabledRules
    split_ifs
    · exact ih existing x hx
    · exact ih _ x (by simp [hx])

theorem names_merge_right (existing add : List DisabledHARule) :
    ∀ x ∈ names add, x ∈ names (mergeDisabledRules existing add) := by
  induction add generalizing existing with
  | nil => intro x hx; cases hx
  | cons r add ih =>
    intro x hx
    unfold mergeDisabledRules
    rcases List.mem_cons.mp hx with rfl | hx
    · -- a rule that is merged stays in the record
      split_ifs with hmem
      · refine names_merge_left _ _ _ (mem_names.mpr ?_)
        simpa using hmem
      · exact names_merge_left _ _ _ (by simp)
    · split_ifs
      · exact ih existing x hx
      · exact ih _ x hx

/-! ## What a party remembers -/

/-- A party's part in the bookkeeping. -/
structure RuleMemory where
  /-- The rules of the record as last read, without those it has since turned on or found gone. -/
  kept : List String := []
  /-- The rules it has turned off and not recorded since. -/
  owed : List String := []
  /-- It has recorded them, and not armed the cleanup sweep yet. -/
  arm : Bool := false
  /-- A statement it issued to settle either has failed. -/
  lost : Bool := false

namespace RuleMemory

def owes (l : RuleMemory) : Bool := !l.owed.isEmpty || l.arm

/-- A failed statement; it is harmless where nothing is owed. -/
def fail (l : RuleMemory) : RuleMemory := { l with lost := l.lost || l.owes }

def record (l : RuleMemory) (written : List String) : RuleMemory :=
  { l with owed := l.owed.filter (· ∉ written), arm := l.arm || !l.owed.isEmpty }

def next (l : RuleMemory) : (e : Stmt) → e.Ans → RuleMemory
  | .db .getRollingUpdateJob => fun a => match a with
    | .ok (job : JobRow) => { l with kept := names job.record }
    | .error _ => l.fail
  | .db (.updateJob (.setJobDisabledHARules rules)) => fun a => match a with
    | .ok _ => l.record (names rules)
    | .error _ => l.fail
  | .db (.updateJob .armJobCleanupPending) => fun a => match a with
    | .ok _ => { l with arm := false }
    | .error _ => l.fail
  | .px .getHARules => fun a => match a with
    | .ok (current : List HARuleEntry) =>
      { l with kept := l.kept.filter fun x => current.any (·.rule = x) }
    | .error _ => l
  | .px (.setHARuleDisabled rule _ true) => fun a => match a with
    | .ok _ => { l with owed := rule :: l.owed }
    | .error _ => l
  | .px (.setHARuleDisabled rule _ false) => fun a => match a with
    | .ok _ => { l with kept := l.kept.filter (· ≠ rule) }
    | .error _ => l
  | _ => fun _ => l

/-- A write of the record leaves out no rule the writer has kept or owes. -/
def may (l : RuleMemory) : Stmt → Prop
  | .db (.updateJob (.setJobDisabledHARules rules)) =>
    l.lost = false → (∀ x ∈ l.kept, x ∈ names rules) ∧ ∀ x ∈ l.owed, x ∈ names rules
  | _ => True

def settled (l : RuleMemory) : Prop := l.lost = false → l.owed = [] ∧ l.arm = false

/-- Everything owed is among these rules, and recording them settles it. -/
def owesOnly (rules : List DisabledHARule) (l : RuleMemory) : Prop :=
  l.lost = false → (∀ x ∈ l.owed, x ∈ names rules) ∧ l.arm = false

/-- The party has read a record with these rules, and kept none but them. -/
def hasRead (rules : List DisabledHARule) (l : RuleMemory) : Prop :=
  l.settled ∧ ∀ x ∈ l.kept, x ∈ names rules

end RuleMemory

abbrev ruleProtocol : Protocol rolling where
  Loc := RuleMemory
  init := {}
  next _ := RuleMemory.next
  may _ := RuleMemory.may

/-- Statements that read or write the record, or read or switch a rule. -/
def Stmt.aboutRules : Stmt → Bool
  | .db .getRollingUpdateJob | .db (.updateJob (.setJobDisabledHARules _))
  | .db (.updateJob .armJobCleanupPending) | .px .getHARules | .px (.setHARuleDisabled _ _ _) => true
  | _ => false

theorem next_of_not_about {e : Stmt} (he : e.aboutRules = false) (l : RuleMemory) :
    ∀ a, l.next e a = l := by
  unfold RuleMemory.next
  split
  all_goals first | exact fun _ => rfl | cases he

theorem not_aboutRules {e : Stmt}
    (he : e.moves = true ∨ e.turns = true ∨ e.restores = true ∨ e.marks = true) :
    e.aboutRules = false := by
  unfold Stmt.aboutRules
  split <;> first | rfl | (rcases he with he | he | he | he <;> cases he)

/-! ## The code keeps the record -/

namespace RuleMemory

theorem fail_settled (l : RuleMemory) : l.fail.settled := by
  simp [settled, fail, owes]

variable {l : RuleMemory}

theorem settled.owesOnly (h : l.settled) (rules : List DisabledHARule) : l.owesOnly rules := by
  intro hlost
  obtain ⟨howed, harm⟩ := h hlost
  exact ⟨by simp [howed], harm⟩

theorem settled.record (h : l.settled) (written : List String) : (l.record written).settled := by
  intro hlost
  simp [RuleMemory.record, h hlost]

theorem owesOnly.record {rules : List DisabledHARule} (h : l.owesOnly rules)
    {written : List String} (hsub : ∀ x ∈ names rules, x ∈ written)
    (hlost : (l.record written).lost = false) : (l.record written).owed = [] := by
  refine List.filter_eq_nil_iff.mpr fun x hx => ?_
  simpa using hsub x ((h hlost).1 x hx)

theorem settled.next (h : l.settled) {e : Stmt} (he : e.plain = true) :
    ∀ a, (l.next e a).settled := by
  unfold RuleMemory.next
  split
  case h_1 | h_3 | h_4 => rintro (_ | _) <;> simp_all [settled, fail]
  all_goals first | cases he | exact fun _ => h

end RuleMemory

section

variable {r : Role} {e : Stmt} {A : RuleMemory → Prop} {l : RuleMemory} {rules : List DisabledHARule}

theorem keeps_other (he : e.aboutRules = false) : ruleProtocol.Keeps r A (Prog.stmt e) := by
  refine keeps_stmt fun l hl => ⟨?_, fun a => ?_⟩
  · show RuleMemory.may l e
    unfold RuleMemory.may
    split
    · cases he
    · trivial
  · show A (RuleMemory.next l e a)
    rwa [next_of_not_about he]

theorem keeps_restores (e : Stmt) (he : e.restores = true) : ruleProtocol.Keeps r A (Prog.stmt e) :=
  keeps_other (not_aboutRules (.inr (.inr (.inl he))))

theorem ruleCalls : Calls fun p => ruleProtocol.Keeps r A p where
  pure := keeps_pure
  bind := Keeps.bind
  ext _ := keeps_other rfl

theorem keeps_plain (he : e.plain = true) :
    ruleProtocol.Keeps r RuleMemory.settled (Prog.stmt e) := by
  refine keeps_stmt fun l hl => ⟨?_, hl.next he⟩
  show RuleMemory.may l e
  unfold RuleMemory.may
  split
  · cases he
  · trivial

/-- A rule that `reenableEach` still keeps was kept for another reason, or is among those that
remain. -/
theorem follows_reenableEach (rules : List DisabledHARule) :
    ∀ (others : String → Prop) (l : RuleMemory), l.settled →
      (∀ x ∈ l.kept, others x ∨ x ∈ names rules) →
      ruleProtocol.Follows r (reenableEach rules)
        (fun remaining l' => l'.settled ∧ ∀ x ∈ l'.kept, others x ∨ x ∈ names remaining) l := by
  induction rules with
  | nil => exact fun others l hl hk => ⟨hl, hk⟩
  | cons rule rules ih =>
    intro others l hl hk
    refine follows_stmt trivial fun a => ?_
    cases a with
    | error e =>
      refine (ih (fun x => others x ∨ x = rule.rule) l hl ?_).seq ?_
      · intro x hx
        rcases hk x hx with h | h
        · exact .inl (.inl h)
        · exact (List.mem_cons.mp h).imp .inr id
      · rintro remaining l' ⟨hl', hk'⟩
        refine ⟨hl', fun x hx => ?_⟩
        rcases hk' x hx with (h | rfl) | h
        · exact .inl h
        · exact .inr (by simp)
        · exact .inr (by simp [h])
    | ok u =>
      refine ih others { l with kept := l.kept.filter (· ≠ rule.rule) } hl fun x hx => ?_
      obtain ⟨hx, hne⟩ := List.mem_filter.mp hx
      refine (hk x hx).imp id fun h => ?_
      exact (List.mem_cons.mp h).resolve_left (of_decide_eq_true hne)

theorem follows_reenableHARules (hl : l.settled) (hk : ∀ x ∈ l.kept, x ∈ names rules) :
    ruleProtocol.Follows r (reenableHARules rules)
      (fun remaining l' => l'.settled ∧ ∀ x ∈ l'.kept, x ∈ names remaining) l := by
  refine (follows_reenableEach rules (fun _ => False) l hl
    fun x hx => .inr (hk x hx)).seq ?_
  rintro remaining l' ⟨hl', hk'⟩
  replace hk' : ∀ x ∈ l'.kept, x ∈ names remaining := fun x hx => (hk' x hx).resolve_left id
  split_ifs with hempty
  · rw [List.isEmpty_iff.mp hempty] at hk'
    exact ⟨hl', hk'⟩
  · refine follows_stmt trivial fun a => ?_
    cases a with
    | error e => exact ⟨hl', hk'⟩
    | ok current =>
      -- a rule that is dropped for not existing is dropped from memory as well
      refine ⟨hl', fun x hx => ?_⟩
      obtain ⟨hx, hcur⟩ := List.mem_filter.mp hx
      obtain ⟨rule, hrule, rfl⟩ := mem_names.mp (hk' x hx)
      exact mem_names.mpr ⟨rule, List.mem_filter.mpr ⟨hrule, hcur⟩, rfl⟩

theorem rulePieces : Pieces fun p => ruleProtocol.Keeps r RuleMemory.settled p where
  toCalls := ruleCalls
  stmt _ he := keeps_plain he

theorem keeps_turnOn (rule type : String) :
    ruleProtocol.Keeps r RuleMemory.settled (px (.setHARuleDisabled rule type false)) := by
  refine keeps_stmt fun l hl => ⟨trivial, fun a => ?_⟩
  cases a with
  | error e | ok u => exact hl

theorem follows_releaseRecord (hl : l.settled) (hk : ∀ x ∈ l.kept, x ∈ names rules) :
    ruleProtocol.Follows r (releaseRuleRecord rules persistJobDisabledRules)
      (fun _ => RuleMemory.settled) l := by
  refine (follows_reenableHARules hl hk).seq ?_
  rintro remaining l' ⟨hl', hk'⟩
  refine follows_stmt (fun hlost => ⟨hk', fun x hx => ?_⟩) fun a => ?_
  · rw [(hl' hlost).1] at hx
    cases hx
  · cases a with
    | error e => exact RuleMemory.fail_settled l'
    | ok n => exact hl'.record _

theorem follows_releaseOnCluster (job : JobRow) (nodesWithRules nodesWithStopped : List NodeRow)
    (hl : l.hasRead job.record) :
    ruleProtocol.Follows r (releaseOnCluster job nodesWithRules nodesWithStopped)
      (fun _ => RuleMemory.settled) l := by
  have hcrs : ruleProtocol.Keeps r (RuleMemory.hasRead job.record)
      (if job.nativeCrsPaused then restoreNativeCRS job else pure true) :=
    ruleCalls.ite _ (ruleCalls.restoreNativeCRS keeps_restores job) (keeps_pure true)
  have hrules : ∀ l, RuleMemory.hasRead job.record l → ruleProtocol.Follows r
      (if job.record.isEmpty then pure true
        else releaseRuleRecord job.record persistJobDisabledRules)
      (fun _ => RuleMemory.settled) l := by
    intro l hl
    split_ifs
    · exact hl.1
    · exact follows_releaseRecord hl.1 hl.2
  refine (hcrs l hl).seq fun crs l₁ h₁ => (hrules l₁ h₁).seq fun rules l₂ h₂ => ?_
  -- what is left does not concern the job's record
  have hrest := rulePieces (r := r)
  exact hrest.bind (hrest.releaseNodeRecords keeps_turnOn nodesWithRules) (fun _ =>
    hrest.bind hrest.timeNow fun _ => hrest.map
      (hrest.restartAll (fun _ _ => keeps_other rfl) nodesWithStopped _)) l₂ h₂

theorem keeps_releaseJobState : ruleProtocol.Keeps r RuleMemory.settled releaseJobState := by
  intro l hl
  refine follows_stmt trivial (Prog.forall_except.mpr ⟨fun _ => l.fail_settled, fun job => ?_⟩)
  have hread : RuleMemory.hasRead job.record { l with kept := names job.record } :=
    ⟨hl, fun x hx => hx⟩
  refine follows_stmt trivial (Prog.forall_except.mpr ⟨fun _ => hread.1, fun nodes => ?_⟩)
  refine (ruleCalls.releaseDRS keeps_restores job _ hread).seq fun drs l₁ h₁ => ?_
  split_ifs
  · refine follows_stmt trivial (Prog.forall_except.mpr ⟨fun _ => h₁.1, fun _ => ?_⟩)
    exact (follows_releaseOnCluster job _ _ h₁).seq fun cluster l₂ h₂ =>
      rulePieces.map (rulePieces.clearCleanup job _) l₂ h₂
  · exact rulePieces.map (rulePieces.clearCleanup job _) l₁ h₁.1

theorem follows_recordJobDisabledHARules (hl : l.owesOnly rules) :
    ruleProtocol.Follows r (recordJobDisabledHARules rules) (fun _ => RuleMemory.settled) l := by
  refine follows_stmt trivial (Prog.forall_except.mpr ⟨fun _ => l.fail_settled, fun job => ?_⟩)
  have hright := names_merge_right job.record rules
  refine follows_stmt ?_ (Prog.forall_except.mpr ⟨fun _ => RuleMemory.fail_settled _, fun n => ?_⟩)
  · exact fun hlost => ⟨names_merge_left _ _, fun x hx => hright x ((hl hlost).1 x hx)⟩
  · refine follows_stmt trivial (Prog.forall_except.mpr ⟨fun _ => RuleMemory.fail_settled _, ?_⟩)
    exact fun n hlost => ⟨RuleMemory.owesOnly.record hl hright hlost, rfl⟩

theorem follows_disableHARules (hl : l.owesOnly rules) :
    ruleProtocol.Follows r (disableHARules rules) (fun _ => RuleMemory.owesOnly rules) l := by
  suffices h : ∀ part : List DisabledHARule, (∀ x ∈ part, x ∈ rules) → ∀ l : RuleMemory,
      l.owesOnly rules → ruleProtocol.Follows r (disableHARules part)
        (fun _ => RuleMemory.owesOnly rules) l from h rules (fun _ hx => hx) l hl
  intro part
  induction part with
  | nil => exact fun _ l hl => hl
  | cons rule part ih =>
    intro hsub l hl
    refine follows_stmt trivial fun a => ?_
    have hpart := ih fun x hx => hsub x (.tail _ hx)
    cases a with
    | error e => exact hpart l hl
    | ok u =>
      refine hpart { l with owed := rule.rule :: l.owed } fun hlost => ⟨fun x hx => ?_, (hl hlost).2⟩
      rcases List.mem_cons.mp hx with rfl | hx
      · exact mem_names.mpr ⟨rule, hsub rule (.head _), rfl⟩
      · exact (hl hlost).1 x hx

theorem ruleReleases : Releases fun p => ruleProtocol.Keeps r RuleMemory.settled p where
  toPieces := rulePieces
  move _ he := keeps_other (not_aboutRules (.inl he))
  release := keeps_releaseJobState

theorem keeps_disableForDrain (node : NodeRow) (rules : List DisabledHARule) :
    ruleProtocol.Keeps r RuleMemory.settled (disableForDrain node rules) := by
  have hpieces := ruleReleases (r := r)
  intro l hl
  unfold disableForDrain
  split_ifs
  · exact hl
  · refine (follows_recordJobDisabledHARules (hl.owesOnly rules)).seq fun a l₁ h₁ => ?_
    cases a with
    | error e => exact hpieces.map (hpieces.failNode node _) l₁ h₁
    | ok u =>
      refine (follows_disableHARules (h₁.owesOnly rules)).seq fun _ l₂ h₂ => ?_
      refine (follows_recordJobDisabledHARules h₂).seq fun _ l₃ h₃ => ?_
      refine (hpieces.jobStatus l₃ h₃).seq fun status l₄ h₄ => ?_
      split
      · exact h₄
      · exact hpieces.map keeps_releaseJobState l₄ h₄
      · exact h₄

theorem ruleParts : Parts fun p => ruleProtocol.Keeps r RuleMemory.settled p where
  toReleases := ruleReleases
  turn _ he := keeps_other (not_aboutRules (.inr (.inl he)))
  stopped _ _ := keeps_other rfl
  disableForDrain := keeps_disableForDrain

end

theorem rules_followed : ruleProtocol.Followed RuleMemory.settled := by
  intro r
  have hpause : ∀ job, ruleProtocol.Keeps r RuleMemory.settled (pauseBalancers job) :=
    rulePieces.pauseBalancers keeps_restores
      fun e he => keeps_other (not_aboutRules (.inr (.inr (.inr he))))
  exact ruleParts.code hpause (fun node => keeps_other rfl) r {} fun _ => ⟨rfl, rfl⟩

end Nexara.Rolling
