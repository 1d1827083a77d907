import Nexara.Rolling.HaRecord

/-!
# Runs that keep the record of disabled HA rules

The record can lose a rule: a release that read the record before a drain turned the rule off, and
writes it back after the drain has recorded the rule again, takes it out (`record_loses_rule`). Next
to a database failure while the drain settles its account this is the only way (`RecordCond`,
`record_kept`).
-/

namespace Nexara.Rolling

open Conc Protocol System

/-! ## What the history says -/

def offName : rolling.Entry → Option String
  | ⟨_, _, .px (.setHARuleDisabled rule _ true), .ok _, _⟩ => some rule
  | _ => none

def written : rolling.Entry → List String
  | ⟨_, _, .db (.updateJob (.setJobDisabledHARules rules)), .ok _, _⟩ => names rules
  | _ => []

def readsJob : rolling.Entry → Bool
  | ⟨_, _, .db .getRollingUpdateJob, .ok _, _⟩ => true
  | _ => false

/-- The rules written into the record since party `i` last read the job's row. -/
def recordedSince (i : ℕ) : rolling.Log → List String
  | [] => []
  | en :: log => if en.party = i ∧ readsJob en then [] else written en ++ recordedSince i log

/-- The job has turned the rule off, and it is off. -/
def held (log : rolling.Log) (w : World) (rule : String) : Bool :=
  w.ruleOff rule && log.any fun en => offName en = some rule

/-- The party has turned rules off, and has not recorded them and armed the sweep since. -/
def owes (log : rolling.Log) (i : ℕ) : Bool := (ruleProtocol.loc i log).owes

/-- No write of the record drops a rule that is off and was recorded since the writer read it, and
the statements that settle what a party owes do not fail. -/
def RecordCond : rolling.Cond := fun log i _ e o w =>
  match e, o with
  | .db (.updateJob (.setJobDisabledHARules rules)), none =>
    decide (∀ x ∈ recordedSince i log, held log w x = true → x ∈ names rules)
  | .db (.updateJob (.setJobDisabledHARules _)), some _ => !owes log i
  | .db .getRollingUpdateJob, some _ => !owes log i
  | .db (.updateJob .armJobCleanupPending), some _ => !owes log i
  | _, _ => true

structure RecordInv (log : rolling.Log) (w : World) : Prop where
  /-- A rule that is off is recorded, or owed by a party. -/
  recorded : ∀ x, held log w x = true →
    x ∈ names w.job.record ∨ ∃ k, x ∈ (ruleProtocol.loc k log).owed
  /-- A finished job with such a rule is flagged, or a party is about to flag it. -/
  flagged : w.job.status.terminal = true → ∀ x, held log w x = true →
    w.job.cleanupPending = true ∨ ∃ k, owes log k = true
  /-- What a party has read has every rule that is off, but for what is owed or was recorded since.
  -/
  kept : ∀ i x, held log w x = true → x ∈ (ruleProtocol.loc i log).kept ∨
    (∃ k, x ∈ (ruleProtocol.loc k log).owed) ∨ x ∈ recordedSince i log
  sound : ∀ k, (ruleProtocol.loc k log).lost = false

/-! ## Statements that do not concern the rules -/

section

variable {log : rolling.Log} {w w' : World} {i : ℕ} {r : Role} {e : Stmt} {a : e.Ans}
  {o : e.Outcome} {x rule type : String}

theorem offName_of_not_about (he : e.aboutRules = false) : offName ⟨i, r, e, a, w⟩ = none := by
  unfold offName
  split
  · next h => cases h; cases he
  · rfl

theorem readsJob_of_not_about (he : e.aboutRules = false) : readsJob ⟨i, r, e, a, w⟩ = false := by
  unfold readsJob
  split
  · next h => cases h; cases he
  · rfl

/-! ## Steps -/

theorem held_iff : held log w x = true ↔ w.ruleOff x = true ∧ ∃ en ∈ log, offName en = some x := by
  simp [held]

theorem held_of_cons {en : rolling.Entry} (hoff : offName en = none)
    (hrules : ∀ x, w'.ruleOff x = true → w.ruleOff x = true)
    (h : held (en :: log) w' x = true) : held log w x = true := by
  obtain ⟨hx, en', hmem, hen⟩ := held_iff.mp h
  rcases List.mem_cons.mp hmem with rfl | hmem
  · rw [hoff] at hen
    cases hen
  · exact held_iff.mpr ⟨hrules x hx, en', hmem, hen⟩

theorem owes_of_mem {l : RuleMemory} (h : x ∈ l.owed) : l.owes = true := by
  have hne : l.owed ≠ [] := List.ne_nil_of_mem h
  simp [RuleMemory.owes, hne]

theorem mem_recordedSince {en : rolling.Entry} (hread : readsJob en = false) (k : ℕ)
    (h : x ∈ recordedSince k log) : x ∈ recordedSince k (en :: log) := by
  unfold recordedSince
  rw [if_neg (by simp [hread])]
  exact List.mem_append_right _ h

theorem owed_cons (hown : x ∈ (ruleProtocol.loc i log).owed →
      x ∈ ((ruleProtocol.loc i log).next e a).owed) (h : ∃ k, x ∈ (ruleProtocol.loc k log).owed) :
    ∃ k, x ∈ (ruleProtocol.loc k (⟨i, r, e, a, w⟩ :: log)).owed :=
  exists_loc (T := ruleProtocol) (fun l => x ∈ l.owed) hown h

theorem kept_cons (hown : ((ruleProtocol.loc i log).next e a).kept = (ruleProtocol.loc i log).kept)
    (k : ℕ) : (ruleProtocol.loc k (⟨i, r, e, a, w⟩ :: log)).kept = (ruleProtocol.loc k log).kept := by
  by_cases hik : i = k
  · subst hik
    rwa [loc_self]
  · rw [loc_ne hik]

/-- What a step may do to the flag: set it, leave it, or clear it with an empty record. -/
def flagKept (w w' : World) : Prop :=
  w'.job.status.terminal = true → w'.job.cleanupPending = true ∨ w.job.record = [] ∨
    (w.job.status.terminal = true ∧ w'.job.cleanupPending = w.job.cleanupPending)

theorem flagKept.refl (w : World) : flagKept w w := fun hterm => .inr (.inr ⟨hterm, rfl⟩)

theorem updateJob_frame {u : JobUpdate} (hu : (Stmt.db (.updateJob u)).aboutRules = false)
    (w : World) : (w.updateJob u).haRules = w.haRules ∧
      (w.updateJob u).job.record = w.job.record ∧ flagKept w (w.updateJob u) := by
  unfold World.updateJob
  split_ifs with hguard
  · refine ⟨rfl, ?_⟩
    cases u with
    | setJobDisabledHARules rules | armJobCleanupPending => cases hu
    | startRollingUpdateJob | pauseRollingUpdateJob | resumeRollingUpdateJob =>
      exact ⟨rfl, nofun⟩
    | completeRollingUpdateJob | failRollingUpdateJob _ | cancelRollingUpdateJob =>
      exact ⟨rfl, fun _ => .inl rfl⟩
    | clearJobCleanupPending =>
      refine ⟨rfl, fun _ => .inr (.inl ?_)⟩
      simp only [JobUpdate.guard, JobRow.released, Bool.and_eq_true] at hguard
      exact List.isEmpty_iff.mp hguard.1.2
    | setJobDRSWasEnabled _ | setJobNativeCRSPaused _ | clearJobNativeCRSPaused
    | incrementJobCleanupAttempts => exact ⟨rfl, fun hterm => .inr (.inr ⟨hterm, rfl⟩)⟩
  · exact ⟨rfl, rfl, .refl w⟩

theorem exec_not_about (he : e.aboutRules = false)
    (hx : exec i e o w = some (a, w')) : (∀ x, w'.ruleOff x = true → w.ruleOff x = true) ∧
      w'.job.record = w.job.record ∧ flagKept w w' := by
  have same : ∀ {w' : World}, w'.haRules = w.haRules → w'.job = w.job →
      (∀ x, w'.ruleOff x = true → w.ruleOff x = true) ∧ w'.job.record = w.job.record ∧
        flagKept w w' := by
    intro w' hrules hjob
    unfold World.ruleOff flagKept
    rw [hrules, hjob]
    exact ⟨fun _ h => h, rfl, flagKept.refl w⟩
  cases exec_effect hx with
  | job u =>
    obtain ⟨hrules, hrec, hflag⟩ := updateJob_frame he w
    refine ⟨fun x h => ?_, hrec, hflag⟩
    unfold World.ruleOff at h
    rwa [hrules] at h
  | rule rule type disable => cases he
  | deleteHARule rule =>
    refine ⟨fun x h => ?_, rfl, .refl w⟩
    obtain ⟨entry, hmem, hoff⟩ := List.any_eq_true.mp h
    exact List.any_eq_true.mpr ⟨entry, (List.mem_filter.mp hmem).1, hoff⟩
  | _ => exact same rfl rfl

theorem ruleOff_setRule {disable : Bool} (h : (w.setRule rule disable).ruleOff x = true) :
    (x = rule ∧ disable = true) ∨ (x ≠ rule ∧ w.ruleOff x = true) := by
  obtain ⟨entry, hmem, hoff⟩ := List.any_eq_true.mp h
  obtain ⟨entry', hmem', rfl⟩ := List.mem_map.mp hmem
  obtain ⟨hname, hdisable⟩ := Bool.and_eq_true_iff.mp hoff
  split_ifs at hname hdisable with hrule
  · exact .inl ⟨(of_decide_eq_true hname).symm.trans hrule, hdisable⟩
  · obtain rfl := of_decide_eq_true hname
    exact .inr ⟨hrule, List.any_eq_true.mpr ⟨entry', hmem', by simp [hdisable]⟩⟩

variable (h : RecordInv log w)
include h

theorem RecordInv.sound_cons (hown : ((ruleProtocol.loc i log).next e a).lost = false) :
    ∀ k, (ruleProtocol.loc k (⟨i, r, e, a, w⟩ :: log)).lost = false :=
  forall_loc (T := ruleProtocol) (p := fun _ l => l.lost = false) hown fun k _ => h.sound k

section

variable (hoff : offName ⟨i, r, e, a, w⟩ = none) (hread : readsJob ⟨i, r, e, a, w⟩ = false)
include hoff hread

section

variable (hrules : ∀ x, w'.ruleOff x = true → w.ruleOff x = true)
  (hrec : w'.job.record = w.job.record) (hflag : flagKept w w')

include hrules hrec hflag

/-- The step of a party that neither reads nor writes the record, and owes what it owed. -/
theorem RecordInv.frame
    (howed : ((ruleProtocol.loc i log).next e a).owed = (ruleProtocol.loc i log).owed)
    (harm : ((ruleProtocol.loc i log).next e a).arm = (ruleProtocol.loc i log).arm)
    (hlost : ((ruleProtocol.loc i log).next e a).lost = false)
    (hkept : ∀ x, w'.ruleOff x = true → x ∈ (ruleProtocol.loc i log).kept →
      x ∈ ((ruleProtocol.loc i log).next e a).kept) : RecordInv (⟨i, r, e, a, w⟩ :: log) w' := by
  have hheld : ∀ {x}, held (⟨i, r, e, a, w⟩ :: log) w' x = true → held log w x = true :=
    fun hx => held_of_cons hoff hrules hx
  have hsome {x} := owed_cons (r := r) (w := w) (x := x) fun h => howed.symm ▸ h
  refine ⟨fun x hx => ?_, fun hterm x hx => ?_, fun k x hx => ?_, h.sound_cons hlost⟩
  · rw [hrec]
    exact (h.recorded x (hheld hx)).imp id hsome
  · rcases hflag hterm with hp | hnil | ⟨hterm', hp⟩
    · exact .inl hp
    · -- with an empty record the rule is owed
      rcases h.recorded x (hheld hx) with hmem | howe
      · rw [hnil] at hmem
        cases hmem
      · obtain ⟨k, hk⟩ := hsome howe
        exact .inr ⟨k, owes_of_mem hk⟩
    · rw [hp]
      refine (h.flagged hterm' x (hheld hx)).imp id fun howe => ?_
      refine exists_loc (T := ruleProtocol) (fun l => l.owes = true) (fun hl => ?_) howe
      show (!_ || _) = true
      rwa [howed, harm]
  · rcases h.kept k x (hheld hx) with hmem | howe | hsince
    · left
      by_cases hik : i = k
      · subst hik
        rw [loc_self]
        exact hkept x (held_iff.mp hx).1 hmem
      · rwa [loc_ne hik]
    · exact .inr (.inl (hsome howe))
    · exact .inr (.inr (mem_recordedSince hread k hsince))

theorem RecordInv.step_forgotten
    (hnext : (ruleProtocol.loc i log).next e a = ruleProtocol.loc i log) :
    RecordInv (⟨i, r, e, a, w⟩ :: log) w' := by
  refine h.frame hoff hread hrules hrec hflag ?_ ?_ ?_ ?_
  · rw [hnext]
  · rw [hnext]
  · rw [hnext]
    exact h.sound i
  · rw [hnext]
    exact fun x _ hx => hx

end

theorem RecordInv.step_same (hnext : (ruleProtocol.loc i log).next e a = ruleProtocol.loc i log) :
    RecordInv (⟨i, r, e, a, w⟩ :: log) w :=
  h.step_forgotten hoff hread (fun _ hx => hx) rfl (.refl w) hnext

theorem RecordInv.step_fail (howes : (!owes log i) = true)
    (hnext : (ruleProtocol.loc i log).next e a = (ruleProtocol.loc i log).fail) :
    RecordInv (⟨i, r, e, a, w⟩ :: log) w := by
  refine h.step_same hoff hread ?_
  rw [hnext]
  have hlost := h.sound i
  replace howes : (ruleProtocol.loc i log).owes = false := (Bool.not_eq_true' _).mp howes
  unfold RuleMemory.fail
  rw [howes]
  revert hlost
  cases ruleProtocol.loc i log
  rintro rfl
  rfl

end

theorem RecordInv.step_other (he : e.aboutRules = false) (hx : exec i e o w = some (a, w')) :
    RecordInv (⟨i, r, e, a, w⟩ :: log) w' := by
  obtain ⟨hrules, hrec, hflag⟩ := exec_not_about he hx
  exact h.step_forgotten (offName_of_not_about he) (readsJob_of_not_about he) hrules hrec hflag
    (next_of_not_about he (ruleProtocol.loc i log) a)

theorem RecordInv.step_read :
    RecordInv (⟨i, r, .db .getRollingUpdateJob, .ok w.job, w⟩ :: log) w := by
  have hheld : ∀ {x}, held (⟨i, r, .db .getRollingUpdateJob, .ok w.job, w⟩ :: log) w x = true →
      held log w x = true := fun hx => held_of_cons rfl (fun _ hx => hx) hx
  refine ⟨fun x hx => ?_, fun hterm x hx => ?_, fun k x hx => ?_, h.sound_cons (h.sound i)⟩
  · exact (h.recorded x (hheld hx)).imp id (owed_cons id)
  · exact (h.flagged hterm x (hheld hx)).imp id
      (exists_loc (T := ruleProtocol) (fun l => l.owes = true) id)
  · by_cases hik : i = k
    · -- the party that read the record knows what it holds
      subst hik
      rw [loc_self]
      rcases h.recorded x (hheld hx) with hmem | howe
      · exact .inl hmem
      · exact .inr (.inl (owed_cons id howe))
    · rw [loc_ne hik]
      rcases h.kept k x (hheld hx) with hmem | howe | hsince
      · exact .inl hmem
      · exact .inr (.inl (owed_cons id howe))
      · refine .inr (.inr ?_)
        unfold recordedSince
        rwa [if_neg fun h => hik h.1]

/-- A write of the record: what is off was kept by the writer, is owed, or was recorded since. -/
theorem RecordInv.step_write {rules : List DisabledHARule} {n : ℕ}
    (hok : ∀ x ∈ recordedSince i log, held log w x = true → x ∈ names rules)
    (hmay : (ruleProtocol.loc i log).may (.db (.updateJob (.setJobDisabledHARules rules)))) :
    RecordInv (⟨i, r, .db (.updateJob (.setJobDisabledHARules rules)), .ok n, w⟩ :: log)
      (w.updateJob (.setJobDisabledHARules rules)) := by
  obtain ⟨hkept, howed⟩ := hmay (h.sound i)
  let en : rolling.Entry := ⟨i, r, .db (.updateJob (.setJobDisabledHARules rules)), .ok n, w⟩
  have hheld : ∀ {x}, held (en :: log) (w.updateJob (.setJobDisabledHARules rules)) x = true →
      held log w x = true := fun hx => held_of_cons rfl (fun _ hx => hx) hx
  -- what was owed is written or still owed
  have howe : ∀ {x}, (∃ k, x ∈ (ruleProtocol.loc k log).owed) →
      x ∈ names rules ∨ ∃ k, x ∈ (ruleProtocol.loc k (en :: log)).owed := by
    rintro x ⟨k, hk⟩
    by_cases hik : i = k
    · subst hik
      exact .inl (howed x hk)
    · refine .inr ⟨k, ?_⟩
      rwa [loc_ne hik]
  refine ⟨fun x hx => ?_, fun hterm x hx => ?_, fun k x hx => ?_, h.sound_cons (h.sound i)⟩
  · rcases h.kept i x (hheld hx) with hmem | hk | hsince
    · exact .inl (hkept x hmem)
    · exact howe hk
    · exact .inl (hok x hsince (hheld hx))
  · refine (h.flagged hterm x (hheld hx)).imp id fun hk => ?_
    refine exists_loc (T := ruleProtocol) (fun l => l.owes = true) (fun hl => ?_) hk
    -- rules that were owed leave the sweep to be armed
    show (!List.isEmpty _ || (_ || !List.isEmpty _)) = true
    unfold RuleMemory.owes at hl
    rw [Bool.or_comm] at hl
    rw [hl, Bool.or_true]
  · rcases h.kept k x (hheld hx) with hmem | hk | hsince
    · left
      rwa [kept_cons rfl]
    · rcases howe hk with hmem | hk
      · refine .inr (.inr ?_)
        unfold recordedSince
        rw [if_neg (by simp [readsJob])]
        exact List.mem_append_left _ hmem
      · exact .inr (.inl hk)
    · exact .inr (.inr (mem_recordedSince rfl k hsince))

theorem RecordInv.step_arm {n : ℕ} :
    RecordInv (⟨i, r, .db (.updateJob .armJobCleanupPending), .ok n, w⟩ :: log)
      (w.updateJob .armJobCleanupPending) := by
  let en : rolling.Entry := ⟨i, r, .db (.updateJob .armJobCleanupPending), .ok n, w⟩
  have hjob : (w.updateJob .armJobCleanupPending).haRules = w.haRules ∧
      (w.updateJob .armJobCleanupPending).job.record = w.job.record ∧
      ((w.updateJob .armJobCleanupPending).job.status.terminal = true →
        (w.updateJob .armJobCleanupPending).job.cleanupPending = true) := by
    unfold World.updateJob
    split_ifs with hguard
    · exact ⟨rfl, rfl, fun _ => rfl⟩
    · exact ⟨rfl, rfl, fun hterm => absurd hterm hguard⟩
  obtain ⟨hrules, hrec, hflag⟩ := hjob
  have hheld : ∀ {x}, held (en :: log) (w.updateJob .armJobCleanupPending) x = true →
      held log w x = true := by
    refine fun hx => held_of_cons rfl (fun x hx => ?_) hx
    unfold World.ruleOff at hx
    rwa [hrules] at hx
  refine ⟨fun x hx => ?_, fun hterm x hx => .inl (hflag hterm), fun k x hx => ?_,
    h.sound_cons (h.sound i)⟩
  · rw [hrec]
    exact (h.recorded x (hheld hx)).imp id (owed_cons id)
  · rw [kept_cons rfl]
    exact (h.kept k x (hheld hx)).imp id (Or.imp (owed_cons id) (mem_recordedSince rfl k))

theorem RecordInv.step_off :
    RecordInv (⟨i, r, .px (.setHARuleDisabled rule type true), .ok (), w⟩ :: log)
      (w.setRule rule true) := by
  let en : rolling.Entry := ⟨i, r, .px (.setHARuleDisabled rule type true), .ok (), w⟩
  have hnew : ∃ k, rule ∈ (ruleProtocol.loc k (en :: log)).owed := by
    refine ⟨i, ?_⟩
    rw [loc_self]
    exact .head _
  have hheld : ∀ {x}, held (en :: log) (w.setRule rule true) x = true →
      x = rule ∨ held log w x = true := by
    intro x hx
    obtain ⟨hoff, en', hmem, hen⟩ := held_iff.mp hx
    rcases ruleOff_setRule hoff with ⟨rfl, -⟩ | ⟨hne, hoff⟩
    · exact .inl rfl
    · rcases List.mem_cons.mp hmem with rfl | hmem
      · exact .inl (Option.some.inj hen).symm
      · exact .inr (held_iff.mpr ⟨hoff, en', hmem, hen⟩)
  refine ⟨fun x hx => ?_, fun hterm x hx => ?_, fun k x hx => ?_, h.sound_cons (h.sound i)⟩
  · rcases hheld hx with rfl | hx
    · exact .inr hnew
    · exact (h.recorded x hx).imp id (owed_cons (.tail _))
  · obtain ⟨k, hk⟩ := hnew
    exact .inr ⟨k, owes_of_mem hk⟩
  · rcases hheld hx with rfl | hx
    · exact .inr (.inl hnew)
    · rw [kept_cons rfl]
      exact (h.kept k x hx).imp id
        (Or.imp (owed_cons (.tail _)) (mem_recordedSince rfl k))

theorem RecordInv.step_on :
    RecordInv (⟨i, r, .px (.setHARuleDisabled rule type false), .ok (), w⟩ :: log)
      (w.setRule rule false) := by
  have hoff : ∀ {x}, (w.setRule rule false).ruleOff x = true → x ≠ rule ∧ w.ruleOff x = true := by
    intro x hx
    exact (ruleOff_setRule hx).resolve_left fun hf => Bool.false_ne_true hf.2
  refine h.frame rfl rfl (fun x hx => (hoff hx).2) rfl (flagKept.refl w) rfl rfl (h.sound i) ?_
  intro x hx hmem
  exact List.mem_filter.mpr ⟨hmem, by simpa using (hoff hx).1⟩

theorem RecordInv.step_list : RecordInv (⟨i, r, .px .getHARules, .ok w.haRules, w⟩ :: log) w := by
  refine h.frame rfl rfl (fun _ hx => hx) rfl (.refl w) rfl rfl (h.sound i) fun x hx hmem => ?_
  obtain ⟨entry, hentry, hoff⟩ := List.any_eq_true.mp hx
  exact List.mem_filter.mpr
    ⟨hmem, List.any_eq_true.mpr ⟨entry, hentry, (Bool.and_eq_true_iff.mp hoff).1⟩⟩

theorem RecordInv.step_switch {disable : Bool} {a : Except Err Unit} {o : Option Err}
    (hx : exec i (.px (.setHARuleDisabled rule type disable)) o w = some (a, w')) :
    RecordInv (⟨i, r, .px (.setHARuleDisabled rule type disable), a, w⟩ :: log) w' := by
  have hrefused : ∀ err, RecordInv
      (⟨i, r, .px (.setHARuleDisabled rule type disable), .error err, w⟩ :: log) w := by
    intro err
    cases disable with
    | true | false => exact h.step_same rfl rfl rfl
  cases o with
  | some err => cases hx; exact hrefused err
  | none =>
    replace hx : some (if w.haRules.any (·.rule = rule) then (.ok (), w.setRule rule disable)
      else (.error { text := s!"no such ha rule '{rule}'" }, w)) = some (a, w') := hx
    split_ifs at hx
    · cases hx
      cases disable with
      | true => exact h.step_off
      | false => exact h.step_on
    · cases hx
      exact hrefused _

theorem RecordInv.step (hok : RecordCond log i r e o w = true)
    (hmay : (ruleProtocol.loc i log).may e) (hx : exec i e o w = some (a, w')) :
    RecordInv (⟨i, r, e, a, w⟩ :: log) w' := by
  cases he : e.aboutRules with
  | false => exact h.step_other he hx
  | true =>
    cases e with
    | db d =>
      cases d with
      | getRollingUpdateJob =>
        cases o with
        | none => cases hx; exact h.step_read
        | some err => cases hx; exact h.step_fail rfl rfl hok rfl
      | updateJob u =>
        cases u with
        | setJobDisabledHARules rules =>
          cases o with
          | none => cases hx; exact h.step_write (of_decide_eq_true hok) hmay
          | some err => cases hx; exact h.step_fail rfl rfl hok rfl
        | armJobCleanupPending =>
          cases o with
          | none => cases hx; exact h.step_arm
          | some err => cases hx; exact h.step_fail rfl rfl hok rfl
        | _ => cases he
      | _ => cases he
    | px p =>
      cases p with
      | getHARules =>
        cases o with
        | none => cases hx; exact h.step_list
        | some err => cases hx; exact h.step_same rfl rfl rfl
      | setHARuleDisabled rule type disable => exact h.step_switch hx
      | _ => cases he
    | _ => cases he

end

theorem RecordInv.init (w : World) : RecordInv [] w where
  recorded x hx := by simp [held] at hx
  flagged _ x hx := by simp [held] at hx
  kept _ x hx := by simp [held] at hx
  sound _ := rfl

theorem recordInv_of_reach {w : World} {c : rolling.Pool}
    (hc : rolling.Reach RecordCond (Pool.idle w) c) : RecordInv c.log c.shared :=
  invariant rules_followed (RecordInv.init w)
    (fun h => h.step) hc

/-- **The record keeps what is off.** If steps satisfy `RecordCond`, whenever the job is finished
and no party is in the middle of its code, every rule that the job has turned off and that is still
off is in the record, and the sweep will come back to the job. -/
theorem record_kept {w : World} {c : rolling.Pool}
    (hc : rolling.Reach RecordCond (Pool.idle w) c) (hquiet : c.quiet = true)
    (hterm : c.shared.job.status.terminal = true) {rule : String}
    (hheld : held c.log c.shared rule = true) :
    rule ∈ names c.shared.job.record ∧ c.shared.job.cleanupPending = true := by
  have hinv := recordInv_of_reach hc
  have hsettled : ∀ k, owes c.log k = false ∧ (ruleProtocol.loc k c.log).owed = [] := by
    intro k
    obtain ⟨howed, harm⟩ := ((holds_of_reach rules_followed hc).quiet hquiet
      (fun _ => ⟨rfl, rfl⟩) k) (hinv.sound k)
    unfold owes RuleMemory.owes
    rw [howed, harm]
    exact ⟨rfl, rfl⟩
  constructor
  · refine (hinv.recorded rule hheld).resolve_right ?_
    rintro ⟨k, hk⟩
    rw [(hsettled k).2] at hk
    cases hk
  · refine (hinv.flagged hterm rule hheld).resolve_right ?_
    rintro ⟨k, hk⟩
    rw [(hsettled k).1] at hk
    cases hk

/-! ## Two runs -/

/-- A job about to drain a node whose only guest is under an HA rule. -/
def pairedJob : World where
  job := { status := .running }
  nodes := [{ id := 0, nodeName := "pve1" }]
  haRules := [{ rule := "pair", type := "resource-affinity", resources := "vm:100" }]

/-- Nothing fails, and the node has one guest. -/
def oneGuest : rolling.Oracle := calm [⟨100, "db", "running", false⟩] []

/-- As `oneGuest`, but Proxmox does not turn a rule on again. -/
def stuckRule : rolling.Oracle
  | .px (.setHARuleDisabled _ _ false) => some { text := "500 internal error" }
  | e => oneGuest e

/-- The drain turns the rule off, the job is cancelled, and neither the cleanup nor the tick can
turn the rule on again. -/
theorem record_kept_stuck_rule :
    ∃ c, rolling.Reach RecordCond (Pool.idle pairedJob) c ∧ c.quiet = true ∧
      c.shared.job.status.terminal = true ∧ held c.log c.shared "pair" = true ∧
      "pair" ∈ names c.shared.job.record ∧ c.shared.job.cleanupPending = true := by
  obtain ⟨c, hc, hquiet, hterm, hheld⟩ := exists_reach RecordCond pairedJob
    ([.start .tick] ++ steps 0 26 stuckRule ++ [.start .cancelJob] ++ steps 1 4 stuckRule ++
      steps 2 8 stuckRule ++ steps 0 12 stuckRule)
    (fun c => c.quiet = true ∧ c.shared.job.status.terminal = true ∧
      held c.log c.shared "pair" = true) (by decide +kernel)
  exact ⟨c, hc, hquiet, hterm, hheld, record_kept hc hquiet hterm hheld⟩

/-- **A rule is lost.** After the cleanup of a cancelled job has turned the recorded rule on, the
drain turns it off and records it; the cleanup then writes back the empty rest of what it read, and
the drain's release finds nothing to do. -/
theorem record_loses_rule :
    ∃ c, rolling.Reach Cond.any (Pool.idle pairedJob) c ∧ c.quiet = true ∧
      c.shared.job.status = .cancelled ∧ held c.log c.shared "pair" = true ∧
      c.shared.job.record = [] ∧ c.shared.job.cleanupPending = false :=
  exists_reach _ _
    ([.start .tick] ++ steps 0 22 oneGuest ++ [.start .cancelJob] ++ steps 1 4 oneGuest ++
      steps 2 5 oneGuest ++ steps 0 4 oneGuest ++ steps 2 3 oneGuest ++ steps 0 6 oneGuest) _
    (by decide +kernel)

end Nexara.Rolling
