import Nexara.Alerts.Rows

/-!
# One alert, one notification of each kind

What the evaluator remembers of a row (`Phase`) stays true while users acknowledge and resolve
alerts, since they leave pending and resolved rows alone. By any clocks an alert is dispatched once
of each kind; that a stream has one active alert and waits for the cooldown depends on the clocks
(`one_alert_one_notification`).
-/

namespace Nexara.Alerts

open Conc Protocol System

variable {rules : Rules}

/-! ## What a run has told -/

/-- The statement dispatches a notice of an alert. -/
def Stmt.sends (notice : Notice) (id : ℕ) : Stmt → Bool
  | .dispatchToChannel id' _ notice' _ => id' = id && notice' = notice
  | _ => false

/-- The statement tells nobody of anything. -/
def Stmt.Silent (e : Stmt) : Prop := ∀ notice id, e.sends notice id = false

def sent (notice : Notice) (id : ℕ) (log : (alerts rules).Log) : ℕ :=
  log.countP fun en => en.stmt.sends notice id

def fires (id : ℕ) : (alerts rules).Entry → Bool
  | ⟨_, _, .transitionAlertToFiring id', true, w⟩ =>
    id' = id && (w.rows[id]?.any fun a => a.state = .pending)
  | _ => false

/-- Every resolved notice in a history was dispatched after its alert had fired. -/
def Backed : (alerts rules).Log → Prop
  | [] => True
  | en :: log => (∀ id, en.stmt.sends .resolved id → ∃ en' ∈ log, fires id en') ∧ Backed log

theorem Backed.of_append {later : (alerts rules).Log} {en : (alerts rules).Entry}
    {earlier : (alerts rules).Log} (h : Backed (later ++ en :: earlier)) {id : ℕ}
    (hsends : en.stmt.sends .resolved id) : ∃ en' ∈ earlier, fires id en' := by
  induction later with
  | nil => exact h.1 id hsends
  | cons _ _ ih => exact ih h.2

theorem sent_cons (notice : Notice) (id : ℕ) (en : (alerts rules).Entry)
    (log : (alerts rules).Log) : sent notice id (en :: log) =
      sent notice id log + if en.stmt.sends notice id then 1 else 0 := List.countP_cons

/-! ## What the evaluator remembers -/

inductive Phase where
  | out
  | ticking
  /-- The latest alert of a stream, as it was read. -/
  | looked (ruleID : ℕ) (node : Option ℕ) (latest : Option Alert)
  /-- The same, and what the process's clock showed then. -/
  | timed (ruleID : ℕ) (node : Option ℕ) (existing : Alert) (now : ℤ)
  | inserted (id : ℕ)
  | fired (id : ℕ)
  | cleared (existing : Alert)
  | ended

def Phase.next (l : Phase) : (e : Stmt) → e.Ans → Phase
  | .beginTick, _ => .ticking
  | .endTick, _ => .out
  | .getLatestAlertForRule ruleID node, some latest => .looked ruleID node latest
  | .timeNow, now =>
    match l with
    | .looked ruleID node (some existing) => .timed ruleID node existing now
    | _ => .ended
  | .insertAlertHistory .., some alert => .inserted alert.id
  | .transitionAlertToFiring id, true => .fired id
  | .autoResolveAlert _, true =>
    match l with
    | .looked _ _ (some existing) => .cleared existing
    | _ => .ended
  | .getLatestAlertForRule .., none | .insertAlertHistory .., none
  | .transitionAlertToFiring _, false | .autoResolveAlert _, false
  | .dispatchToChannel .., _ => .ended
  | .getAlertHistory _, _ | .permissions _, _ | .acknowledgeAlert _, _ | .resolveAlert _, _
  | .respond .., _ | .setClock _, _ => l

def Phase.may (rules : Rules) (l : Phase) : Stmt → Prop
  | .beginTick => l = .out
  | .endTick => l ≠ .out
  | .getLatestAlertForRule ruleID node => l = .ticking ∧ node.isSome = (rules ruleID).perNode
  | .timeNow => ∃ ruleID node existing, l = .looked ruleID node (some existing)
  | .insertAlertHistory ruleID node => l = .looked ruleID node none ∨
      ∃ existing now, l = .timed ruleID node existing now ∧ existing.state = .resolved ∧
        seconds (rules ruleID).cooldownSeconds ≤ now - existing.since
  | .transitionAlertToFiring id => l = .inserted id ∨
      ∃ ruleID node existing now, l = .timed ruleID node existing now ∧
        existing.state = .pending ∧ existing.id = id
  | .autoResolveAlert id => ∃ ruleID node existing, l = .looked ruleID node (some existing) ∧
      alertActive existing.state ∧ existing.id = id
  | .dispatchToChannel id _ .firing _ => l = .fired id
  | .dispatchToChannel id _ .resolved _ =>
    ∃ existing, l = .cleared existing ∧ resolveNotifies existing.state ∧ existing.id = id
  | _ => False

def Stmt.isRequest : Stmt → Prop
  | .getAlertHistory _ | .permissions _ | .acknowledgeAlert _ | .resolveAlert _ | .respond .. =>
    True
  | _ => False

def evaluator (rules : Rules) : Protocol (alerts rules) where
  Loc := Phase
  init := .out
  next _ := Phase.next
  may
    | .evaluate .., l, e => l.may rules e
    | .acknowledgeAlert _, _, e | .resolveAlert _, _, e => e.isRequest
    | .clock _, _, e => ∃ now, e = .setClock now

/-! ## The code keeps to it -/

theorem request_keeps {α : Type} {p : Code α} (hp : p.All Stmt.isRequest) {r : Role}
    (hr : ∀ l e, e.isRequest → (evaluator rules).may r l e) (l : Phase) :
    (evaluator rules).Follows r p (fun _ _ => True) l :=
  (keeps_of_all (fun e he l _ => ⟨hr l e he, fun _ => trivial⟩) hp)
    l trivial

attribute [local simp] call readableAlert Stmt.isRequest Option.forall in
theorem requests (id : ℕ) : (acknowledgeAlert id).All Stmt.isRequest ∧
    (resolveAlert id).All Stmt.isRequest := by
  simp [acknowledgeAlert, resolveAlert]

section

def Stays (rules : Rules) (r : Role) (p : Code Unit) (l : Phase) : Prop :=
  (evaluator rules).Follows r p (fun _ l => l ≠ .out) l

variable {ruleID node : ℕ} {met : Bool} {rule : AlertRule} {l : Phase}

theorem dispatchForRule_stays {id : ℕ} {notice : Notice} {level : ℕ} (hl : l ≠ .out)
    (hmay : ∀ channel, l.may rules (.dispatchToChannel id channel notice level)) :
    Stays rules (.evaluate ruleID met node) (dispatchForRule rule id notice level) l := by
  unfold dispatchForRule
  split
  · exact hl
  · exact ⟨hmay _, fun _ => nofun⟩

theorem fire_stays {id : ℕ} (hmay : l.may rules (.transitionAlertToFiring id)) :
    Stays rules (.evaluate ruleID met node) (fire rule id) l := by
  refine follows_stmt hmay fun a => ?_
  cases a with
  | false => exact nofun
  | true => exact dispatchForRule_stays nofun fun _ => rfl

theorem raise_stays {node' : Option ℕ} (hmay : l.may rules (.insertAlertHistory rule.id node')) :
    Stays rules (.evaluate ruleID met node) (raise rule node') l := by
  refine follows_stmt hmay fun a => ?_
  cases a with
  | none => exact nofun
  | some alert =>
    split_ifs
    · exact fire_stays (.inl rfl)
    · exact nofun

theorem handleRuleResult_stays {conditionMet : Bool} {node' : Option ℕ}
    (hid : rule.cooldownSeconds = (rules rule.id).cooldownSeconds)
    (hnode : node'.isSome = (rules rule.id).perNode) :
    Stays rules (.evaluate ruleID met node) (handleRuleResult rule conditionMet node') .ticking := by
  refine follows_stmt ⟨rfl, hnode⟩ fun a => ?_
  rcases a with _ | _ | existing
  · exact nofun
  · cases conditionMet with
    | false => exact nofun
    | true => exact raise_stays (.inl rfl)
  · dsimp only
    cases conditionMet with
    | true =>
      rw [if_pos rfl]
      split
      · split
        · next hpending =>
          refine follows_stmt ⟨_, _, _, rfl⟩ fun now => ?_
          split
          · exact fire_stays (.inr ⟨_, _, _, _, rfl, hpending, rfl⟩)
          · exact nofun
        · exact nofun
      · next hactive =>
        have hresolved : existing.state = .resolved := by
          cases hstate : existing.state <;> simp_all [alertActive]
        rw [if_pos hresolved]
        refine follows_stmt ⟨_, _, _, rfl⟩ fun now => ?_
        split
        · exact nofun
        · next hcool =>
          refine raise_stays (.inr ⟨_, _, rfl, hresolved, ?_⟩)
          rw [← hid]
          exact not_lt.1 hcool
    | false =>
      rw [if_neg Bool.false_ne_true]
      split
      · next hactive =>
        refine follows_stmt ⟨_, _, _, rfl, hactive, rfl⟩ fun a => ?_
        cases a with
        | false => exact nofun
        | true =>
          rw [if_pos rfl]
          split
          · next hnotifies =>
            exact dispatchForRule_stays nofun fun _ => ⟨_, rfl, hnotifies, rfl⟩
          · exact nofun
      · exact nofun

theorem evaluator_followed (rules : Rules) : (evaluator rules).Followed fun _ => True := by
  intro r
  cases r with
  | evaluate ruleID met node =>
    refine follows_stmt rfl fun _ => ?_
    refine Follows.seq (handleRuleResult_stays rfl ?_) fun _ l hl =>
      ⟨hl, fun _ => trivial⟩
    show ((rules ruleID).nodeParam node).isSome = (rules ruleID).perNode
    unfold AlertRule.nodeParam
    split_ifs with h <;> simp [h]
  | acknowledgeAlert id =>
    exact request_keeps (r := .acknowledgeAlert id) (requests id).1 (fun _ _ h => h) _
  | resolveAlert id =>
    exact request_keeps (r := .resolveAlert id) (requests id).2 (fun _ _ h => h) _
  | clock now => exact ⟨⟨now, rfl⟩, fun _ => trivial⟩

end

/-! ## What stays true of what was read -/

variable {clocks : Clocks} {log : (alerts rules).Log} {w : World}

/-- What is left of the latest alert of a stream, as the evaluator read it. -/
structure Read (clocks : Clocks) (log : (alerts rules).Log) (w : World) (stream : ℕ × Option ℕ)
    (a : Alert) : Prop where
  row : ∃ b, w.rows[a.id]? = some b ∧ b.stream = stream ∧
    (a.state = .pending → b.state = .pending) ∧ (a.state = .resolved → b = a) ∧
    (resolveNotifies a.state → b.firedAt.isSome)
  last : clocks.steady → ∀ b ∈ w.rows, b.stream = stream → b.id ≤ a.id
  unsent : alertActive a.state → sent .resolved a.id log = 0

/-- What the evaluator's memory says of the rows and of what it has told. -/
def Phase.Seen (clocks : Clocks) (log : (alerts rules).Log) (w : World) : Phase → Prop
  | .out | .ticking | .ended => True
  | .looked ruleID node latest => node.isSome = (rules ruleID).perNode ∧
      match latest with
      | none => ∀ b ∈ w.rows, b.stream ≠ (ruleID, node)
      | some existing => Read clocks log w (ruleID, node) existing
  | .timed ruleID node existing now => node.isSome = (rules ruleID).perNode ∧
      Read clocks log w (ruleID, node) existing ∧ (clocks.steady → clocks.behind → now ≤ w.now)
  | .inserted id => ∃ b, w.rows[id]? = some b ∧ b.state = .pending
  | .fired id => sent .firing id log = 0 ∧ ∃ b, w.rows[id]? = some b ∧ b.state ≠ .pending
  | .cleared existing => (resolveNotifies existing.state → sent .resolved existing.id log = 0) ∧
      ∃ b, w.rows[existing.id]? = some b ∧ b.state = .resolved ∧
        (resolveNotifies existing.state → b.firedAt.isSome)

/-- What the rows say of what was told. -/
structure Told (log : (alerts rules).Log) (w : World) : Prop where
  firing : ∀ id, sent .firing id log ≤ 1
  resolved : ∀ id, sent .resolved id log ≤ 1
  ofFiring : ∀ id, sent .firing id log ≠ 0 → ∃ b, w.rows[id]? = some b ∧ b.state ≠ .pending
  ofResolved : ∀ id, sent .resolved id log ≠ 0 → ∃ b, w.rows[id]? = some b ∧ b.state = .resolved
  fired : ∀ id b, w.rows[id]? = some b → b.firedAt.isSome → ∃ en ∈ log, fires id en
  backed : Backed log

structure Inv (clocks : Clocks) (log : (alerts rules).Log) (w : World) : Prop where
  ordered : Ordered rules clocks w
  told : Told log w
  turn : ∀ k, (evaluator rules).loc k log ≠ .out → w.evaluator = some k
  seen : ∀ k, ((evaluator rules).loc k log : Phase).Seen clocks log w

/-! ## What others do between the evaluator's steps -/

/-- What a request, or the clock, makes of the rows: a pending or a resolved row stays as it is. -/
structure Interferes (clocks : Clocks) (w w' : World) : Prop where
  now : clocks.steady → w.now ≤ w'.now
  evaluator : w'.evaluator = w.evaluator
  rows : ∀ (i : ℕ) a, w.rows[i]? = some a → ∃ b, w'.rows[i]? = some b ∧ b.stream = a.stream ∧
    (a.state = .pending ↔ b.state = .pending) ∧ (a.state = .resolved → b = a) ∧
    (a.firedAt.isSome → b.firedAt.isSome)
  back : ∀ (i : ℕ) b, w'.rows[i]? = some b → ∃ a, w.rows[i]? = some a ∧ b.stream = a.stream ∧
    b.id = a.id ∧ b.firedAt = a.firedAt

theorem interferes_of_rows_eq {w w' : World} (hnow : clocks.steady → w.now ≤ w'.now)
    (hevaluator : w'.evaluator = w.evaluator) (hrows : w'.rows = w.rows) :
    Interferes clocks w w' where
  now := hnow
  evaluator := hevaluator
  rows i a ha := ⟨a, by rw [hrows]; exact ha, rfl, Iff.rfl, fun _ => rfl, id⟩
  back i b hb := ⟨b, by rw [← hrows]; exact hb, rfl, rfl, rfl⟩

theorem interferes_of_update (w : World) (id : ℕ) {f : Alert → Alert}
    (hf : ∀ a : Alert, a.Forward w.now (f a)) (hpending : ∀ a, a.state = .pending → f a = a)
    (hfired : ∀ a, (f a).firedAt = a.firedAt) : Interferes clocks w (w.update id f) where
  now _ := le_refl _
  evaluator := rfl
  rows i a ha := by
    refine ⟨_, exists_update f ha, ?_⟩
    split
    · refine ⟨(hf a).stream, ⟨fun h => by rw [hpending a h]; exact h, fun h => ?_⟩,
        (hf a).resolved, fun h => by rw [hfired a]; exact h⟩
      by_contra hne
      exact (hf a).left hne h
    · exact ⟨rfl, Iff.rfl, fun _ => rfl, fun h => h⟩
  back i b hb := by
    obtain ⟨a, ha, rfl⟩ := getElem?_update hb
    refine ⟨a, ha, ?_⟩
    split
    · exact ⟨(hf a).stream, (hf a).id, hfired a⟩
    · exact ⟨rfl, rfl, rfl⟩

theorem interferes_acknowledge (w : World) (id : ℕ) :
    Interferes clocks w (w.update id Alert.acknowledge) :=
  interferes_of_update w id (Alert.acknowledge_forward w.now)
    (fun a h => by simp [Alert.acknowledge, h])
    (fun a => by unfold Alert.acknowledge; split <;> rfl)

theorem interferes_resolve (w : World) (id : ℕ) :
    Interferes clocks w (w.update id (Alert.resolve w.now)) :=
  interferes_of_update w id (Alert.resolve_forward w.now)
    (fun a h => by simp [Alert.resolve, h])
    (fun a => by unfold Alert.resolve; split <;> rfl)

section

variable {w' : World} {en : (alerts rules).Entry}

theorem sent_cons_of_not {notice : Notice} {id : ℕ} (h : en.stmt.sends notice id = false) :
    sent notice id (en :: log) = sent notice id log := by
  rw [sent_cons, h]
  rfl

theorem Read.interferes {stream : ℕ × Option ℕ} {a : Alert} (h : Read clocks log w stream a)
    (hw : Interferes clocks w w') (hsends : en.stmt.Silent) :
    Read clocks (en :: log) w' stream a where
  row := by
    obtain ⟨b, hb, hstream, hpending, hresolved, hfired⟩ := h.row
    obtain ⟨b', hb', hw'⟩ := hw.rows a.id b hb
    refine ⟨b', hb', ?_⟩
    grind
  last hsteady b hb hstream := by
    obtain ⟨i, hi⟩ := List.getElem?_of_mem hb
    obtain ⟨a', ha', hstream', hid, -⟩ := hw.back i b hi
    rw [hid]
    exact h.last hsteady a' (List.mem_of_getElem? ha') (hstream'.symm.trans hstream)
  unsent ha := (sent_cons_of_not (hsends _ _)).trans (h.unsent ha)

/-- What the evaluator remembers stays true of the rows. -/
theorem Phase.Seen.interferes {l : Phase} (h : l.Seen clocks log w) (hw : Interferes clocks w w')
    (hsends : en.stmt.Silent) : l.Seen clocks (en :: log) w' := by
  have hsent notice id : sent notice id (en :: log) = sent notice id log :=
    sent_cons_of_not (hsends notice id)
  have hrows := hw.rows
  cases l with
  | out | ticking | ended => trivial
  | looked ruleID node latest =>
    cases latest with
    | none =>
      refine ⟨h.1, fun b hb hstream => ?_⟩
      obtain ⟨i, hi⟩ := List.getElem?_of_mem hb
      obtain ⟨a, ha, hstream', -⟩ := hw.back i b hi
      exact h.2 a (List.mem_of_getElem? ha) (hstream'.symm.trans hstream)
    | some existing => exact ⟨h.1, Read.interferes h.2 hw hsends⟩
  | timed ruleID node existing now =>
    exact ⟨h.1, h.2.1.interferes hw hsends, fun hsteady hbehind =>
      (h.2.2 hsteady hbehind).trans (hw.now hsteady)⟩
  | inserted id | fired id | cleared existing => grind [Phase.Seen]

section

variable (h : Told log w)

include h

theorem Told.forward (hsends : en.stmt.Silent)
    (hrows : ∀ (i : ℕ) a, w.rows[i]? = some a → ∃ b, w'.rows[i]? = some b ∧
      (a.state ≠ .pending → b.state ≠ .pending) ∧ (a.state = .resolved → b.state = .resolved))
    (hfired : ∀ (i : ℕ) b, w'.rows[i]? = some b → b.firedAt.isSome →
      (∃ a, w.rows[i]? = some a ∧ a.firedAt.isSome) ∨ fires i en) : Told (en :: log) w' where
  firing id := by simpa [sent_cons_of_not (hsends _ _)] using h.firing id
  resolved id := by simpa [sent_cons_of_not (hsends _ _)] using h.resolved id
  ofFiring id hsent := by
    rw [sent_cons_of_not (hsends _ _)] at hsent
    have := h.ofFiring id hsent
    grind
  ofResolved id hsent := by
    rw [sent_cons_of_not (hsends _ _)] at hsent
    have := h.ofResolved id hsent
    grind
  fired id b hb hsome := by
    have := h.fired id
    grind
  backed := ⟨fun id hid => (by rw [hsends .resolved id] at hid; cases hid), h.backed⟩

theorem Told.interferes (hw : Interferes clocks w w') (hsends : en.stmt.Silent) : Told (en :: log) w' := by
  have hrows := hw.rows
  have hback := hw.back
  exact h.forward hsends (by grind) (by grind)

theorem Told.same (hrows : w'.rows = w.rows) (hsends : en.stmt.Silent) : Told (en :: log) w' :=
  h.forward hsends (by grind) (by grind)

theorem Told.update {id : ℕ} {f : Alert → Alert} (hsends : en.stmt.Silent)
    (hf : ∀ a : Alert, a.Forward w.now (f a))
    (hfired : ∀ a, w.rows[id]? = some a → (f a).firedAt = a.firedAt ∨ fires id en) :
    Told (en :: log) (w.update id f) := by
  refine h.forward hsends (fun j x hx => ⟨_, exists_update _ hx, ?_⟩) fun j y hy hsome => ?_
  · have hleft := (hf x).left
    have hres := (hf x).resolved
    grind
  · obtain ⟨x, hx, rfl⟩ := getElem?_update hy
    grind

end

end

/-! ## Steps -/

section

variable {i : ℕ} {r : Role} {e : Stmt} {a : e.Ans} {w' : World}

section

variable (h : Inv clocks log w)

include h

theorem Inv.interferes (hw : Interferes clocks w w') (hord : Ordered rules clocks w')
    (hsends : e.Silent) (hnext : ∀ l : Phase, l.next e a = l) :
    Inv clocks (⟨i, r, e, a, w⟩ :: log) w' := by
  have hloc k : (evaluator rules).loc k (⟨i, r, e, a, w⟩ :: log) = (evaluator rules).loc k log :=
    loc_cons (p := (· = (evaluator rules).loc k log)) (fun _ => hnext _) fun _ => rfl
  refine ⟨hord, h.told.interferes hw hsends, fun k hk => ?_, fun k => ?_⟩
  · rw [hw.evaluator]
    rw [hloc] at hk
    exact h.turn k hk
  · rw [hloc]
    exact (h.seen k).interferes hw hsends

section

variable (hi : (evaluator rules).loc i log ≠ .out) (hord : Ordered rules clocks w')
  (htold : Told (⟨i, r, e, a, w⟩ :: log) w')

include hi hord htold

theorem Inv.act
    (hturn : Phase.next ((evaluator rules).loc i log) e a ≠ .out → w'.evaluator = some i)
    (hseen : (Phase.next ((evaluator rules).loc i log) e a).Seen clocks
      (⟨i, r, e, a, w⟩ :: log) w') : Inv clocks (⟨i, r, e, a, w⟩ :: log) w' := by
  have hout : ∀ k, k ≠ i → (evaluator rules).loc k log = .out := by
    intro k hk
    by_contra hne
    have := (h.turn k hne).symm.trans (h.turn i hi)
    exact hk (Option.some.inj this)
  refine ⟨hord, htold, ?_, ?_⟩
  · exact forall_loc (T := evaluator rules)
      (p := fun k (l : Phase) => l ≠ .out → w'.evaluator = some k) hturn
      fun k hk hne => absurd (hout k hk) hne
  · refine forall_loc (T := evaluator rules) hseen fun k hk => ?_
    rw [hout k hk]
    trivial

theorem Inv.ended (hev : w'.evaluator = w.evaluator)
    (hended : Phase.next ((evaluator rules).loc i log) e a = .ended) :
    Inv clocks (⟨i, r, e, a, w⟩ :: log) w' := by
  refine h.act hi hord htold (fun _ => hev.trans (h.turn i hi)) ?_
  rw [hended]
  trivial

end

theorem Inv.beginTick (hidle : w.evaluator = none) (r : Role) :
    Inv clocks (⟨i, r, .beginTick, (), w⟩ :: log) { w with evaluator := some i } := by
  have hout : ∀ k, (evaluator rules).loc k log = .out := by
    intro k
    by_contra hne
    have := h.turn k hne
    rw [hidle] at this
    cases this
  refine ⟨⟨h.ordered.id, h.ordered.scope, h.ordered.valid, h.ordered.created, h.ordered.chain⟩,
    h.told.same rfl fun _ _ => rfl, ?_, ?_⟩
  · exact forall_loc (T := evaluator rules) (e := Stmt.beginTick)
      (p := fun k (l : Phase) => l ≠ .out → some i = some k) (fun _ => rfl)
      fun k _ hne => absurd (hout k) hne
  · refine forall_loc (T := evaluator rules) (e := Stmt.beginTick) trivial
      fun k _ => ?_
    rw [hout k]
    trivial

theorem Inv.endTick (hi : (evaluator rules).loc i log ≠ .out) (r : Role) :
    Inv clocks (⟨i, r, .endTick, (), w⟩ :: log) { w with evaluator := none } :=
  h.act hi ⟨h.ordered.id, h.ordered.scope, h.ordered.valid, h.ordered.created, h.ordered.chain⟩
    (h.told.same rfl fun _ _ => rfl) (fun hne => absurd rfl hne) trivial

end

variable {node : Option ℕ}

theorem Read.of_latest (h : Inv clocks log w) {ruleID : ℕ}
    (hscope : node.isSome = (rules ruleID).perNode) {x : Alert} (hx : x ∈ w.latest ruleID node)
    {en : (alerts rules).Entry} (hsends : en.stmt.Silent) :
    Read clocks (en :: log) w (ruleID, node) x := by
  obtain ⟨hrow, hstream, hlast⟩ := h.ordered.latest hscope hx
  refine ⟨⟨x, hrow, hstream, id, fun _ => rfl,
    (h.ordered.valid x (List.mem_of_getElem? hrow)).fired⟩, hlast, fun hactive => ?_⟩
  rw [sent_cons_of_not (hsends _ _)]
  by_contra hsent
  obtain ⟨b, hb, hres⟩ := h.told.ofResolved x.id hsent
  obtain rfl : x = b := by simpa [hrow] using hb
  simp [hres, alertActive] at hactive

theorem may_ne_out {l : Phase} (hmay : l.may rules e) (he : e ≠ .beginTick) : l ≠ .out := by
  rintro rfl
  unfold Phase.may at hmay
  split at hmay <;> simp_all

theorem Inv.getLatest (h : Inv clocks log w) {ruleID : ℕ} {o : Option ℕ}
    {a : Option (Option Alert)} (hi : (evaluator rules).loc i log ≠ .out) 
    (hscope : node.isSome = (rules ruleID).perNode)
    (hx : exec i (.getLatestAlertForRule ruleID node) o w = some (a, w')) (r : Role) :
    Inv clocks (⟨i, r, .getLatestAlertForRule ruleID node, a, w⟩ :: log) w' := by
  cases o with
  | none =>
    cases hx
    exact h.ended hi h.ordered (h.told.same rfl fun _ _ => rfl) rfl rfl
  | some k =>
    have hlatest : w' = w ∧ ∃ latest, a = some latest ∧
        ∀ en : (alerts rules).Entry, en.stmt.Silent →
          (Phase.looked ruleID node latest).Seen clocks (en :: log) w := by
      unfold exec at hx
      dsimp only at hx
      split at hx
      · next hnil =>
        cases hx
        exact ⟨rfl, none, rfl, fun en _ => ⟨hscope, h.ordered.latest_eq_nil hscope hnil⟩⟩
      · next x xs hcons =>
        cases hx
        refine ⟨rfl, _, rfl, fun en hsends => ⟨hscope, Read.of_latest h hscope ?_ hsends⟩⟩
        grind
    obtain ⟨rfl, latest, rfl, hseen⟩ := hlatest
    exact h.act hi h.ordered (h.told.same rfl fun _ _ => rfl) (fun _ => h.turn i hi)
      (hseen _ fun _ _ => rfl)

section

variable (h : Inv clocks log w) (r : Role)

include h

/-- A row may be inserted into a stream without rows, and after a resolved one once its cooldown
has passed. -/
theorem Inv.insert {ruleID : ℕ}
    (hmay : Phase.may rules ((evaluator rules).loc i log) (.insertAlertHistory ruleID node))
    (hlater : clocks.steady → ∀ x ∈ w.rows, x.stream = (ruleID, node) → x.createdAt < w.now) :
    Inv clocks (⟨i, r, .insertAlertHistory ruleID node, some (w.newAlert ruleID node), w⟩ :: log)
      { w with rows := w.rows ++ [w.newAlert ruleID node] } := by
  have htold : Told (⟨i, r, .insertAlertHistory ruleID node, some (w.newAlert ruleID node), w⟩ ::
      log) { w with rows := w.rows ++ [w.newAlert ruleID node] } := by
    -- the new row has not fired
    have hnew : (w.newAlert ruleID node).firedAt = none := rfl
    refine h.told.forward (fun _ _ => rfl) (fun j x hx => ?_) fun j b hb hsome => ?_
    · grind
    · grind
  have hseen := h.seen i
  have hi := may_ne_out hmay nofun
  have hbefore : node.isSome = (rules ruleID).perNode ∧ (clocks.steady → ∀ x ∈ w.rows,
      x.stream = (ruleID, node) → x.Before rules clocks (w.newAlert ruleID node)) := by
    rcases hmay with hl | ⟨existing, t, hl, hres, hcool⟩
    · rw [hl] at hseen
      exact ⟨hseen.1, fun _ x hx hstream => absurd hstream (hseen.2 x hx)⟩
    · rw [hl] at hseen
      obtain ⟨hscope, hread, ht⟩ := hseen
      refine ⟨hscope, fun hsteady x hx hstream => ?_⟩
      obtain ⟨b, hb, hbs, -, hsame, -⟩ := hread.row
      obtain rfl := hsame hres
      have hrule : b.ruleID = ruleID := congrArg Prod.fst hbs
      obtain ⟨j, hj⟩ := List.getElem?_of_mem hx
      have hle : j ≤ b.id := by
        rw [← h.ordered.id j x hj]
        exact hread.last hsteady x hx hstream
      rcases Nat.lt_or_ge j b.id with hlt | hge
      · -- an earlier row: its cooldown had passed when the latest one was created
        have hchain := h.ordered.chain hsteady j b.id x b hlt hj hb (hstream.trans hbs.symm)
        exact ⟨hlater hsteady x hx hstream, hchain.resolved, fun hbehind t' ht' =>
          (hchain.cooled hbehind t' ht').trans
            (h.ordered.created hsteady b (List.mem_of_getElem? hb))⟩
      · obtain rfl : j = b.id := by omega
        obtain rfl : x = b := by simpa [hb] using hj.symm
        refine ⟨hlater hsteady x hx hstream, hres, fun hbehind t' ht' => ?_⟩
        have hnow := ht hsteady hbehind
        have hsince : x.since = t' := by simp [Alert.since, Option.mem_def.1 ht']
        rw [hrule]
        show t' + seconds (rules ruleID).cooldownSeconds ≤ w.now
        omega
  exact h.act hi (h.ordered.insert hbefore.1 hbefore.2) htold (fun _ => h.turn i hi)
    ⟨_, List.getElem?_concat_length, rfl⟩

theorem Inv.transition {id : ℕ}
    (hmay : Phase.may rules ((evaluator rules).loc i log) (.transitionAlertToFiring id)) :
    Inv clocks (⟨i, r, .transitionAlertToFiring id, true, w⟩ :: log)
      (w.update id (Alert.transitionToFiring w.now)) := by
  have hseen := h.seen i
  have hi := may_ne_out hmay nofun
  obtain ⟨b, hb, hpending⟩ : ∃ b, w.rows[id]? = some b ∧ b.state = .pending := by
    rcases hmay with hl | ⟨ruleID, node, existing, t, hl, hpending, rfl⟩ <;> rw [hl] at hseen
    · exact hseen
    · obtain ⟨b, hb, -, hpending', -⟩ := hseen.2.1.row
      exact ⟨b, hb, hpending' hpending⟩
  have hforward := Alert.transitionToFiring_forward w.now
  refine h.act hi (h.ordered.update hforward) (h.told.update (fun _ _ => rfl) hforward fun a _ =>
    .inr (by simp [fires, hb, hpending])) (fun _ => h.turn i hi)
    ⟨?_, _, getElem?_update_self _ hb, by simp [Alert.transitionToFiring, hpending]⟩
  by_contra hsent
  obtain ⟨b', hb', hne⟩ := h.told.ofFiring id hsent
  obtain rfl : b = b' := by simpa [hb] using hb'
  exact hne hpending

theorem Inv.autoResolve {id : ℕ}
    (hmay : Phase.may rules ((evaluator rules).loc i log) (.autoResolveAlert id)) :
    Inv clocks (⟨i, r, .autoResolveAlert id, true, w⟩ :: log)
      (w.update id (Alert.autoResolve w.now)) := by
  have hseen := h.seen i
  have hi := may_ne_out hmay nofun
  obtain ⟨ruleID, node, existing, hl, hactive, rfl⟩ := hmay
  rw [hl] at hseen
  obtain ⟨-, hread⟩ := hseen
  obtain ⟨b, hb, -, -, -, hfired⟩ := hread.row
  have hforward := Alert.autoResolve_forward w.now
  have hfiredAt (x : Alert) : (x.autoResolve w.now).firedAt = x.firedAt := by
    unfold Alert.autoResolve
    split <;> rfl
  refine h.act hi (h.ordered.update hforward) (h.told.update (fun _ _ => rfl) hforward fun a _ =>
    .inl (hfiredAt a)) (fun _ => h.turn i hi) ?_
  rw [hl]
  refine ⟨fun _ => (sent_cons_of_not rfl).trans (hread.unsent hactive), _,
    getElem?_update_self _ hb, ?_, fun hn => ?_⟩
  · unfold Alert.autoResolve
    cases hstate : b.state <;> simp [hstate]
  · rw [hfiredAt]
    exact hfired hn

end

theorem Told.dispatch (h : Told log w) {id channel level : ℕ} {notice : Notice}
    (hsent : sent notice id log = 0)
    (hfiring : notice = .firing → ∃ b, w.rows[id]? = some b ∧ b.state ≠ .pending)
    (hresolved : notice = .resolved → ∃ b, w.rows[id]? = some b ∧ b.state = .resolved ∧
      b.firedAt.isSome) :
    Told (⟨i, r, .dispatchToChannel id channel notice level, (), w⟩ :: log) w := by
  have hcount : ∀ notice' id', sent notice' id'
      (⟨i, r, .dispatchToChannel id channel notice level, (), w⟩ :: log) =
        sent notice' id' log + if id = id' ∧ notice = notice' then 1 else 0 := by
    intro notice' id'
    rw [sent_cons]
    simp [Stmt.sends]
  constructor
  · intro id'
    have := h.firing id'
    grind
  · intro id'
    have := h.resolved id'
    grind
  · intro id' hne
    have := h.ofFiring id'
    grind
  · intro id' hne
    have := h.ofResolved id'
    grind
  · intro id' b hb hsome
    obtain ⟨en, hmem, hfires⟩ := h.fired id' b hb hsome
    exact ⟨en, .tail _ hmem, hfires⟩
  · refine ⟨fun id' hid' => ?_, h.backed⟩
    obtain ⟨rfl, rfl⟩ : id = id' ∧ notice = .resolved := by simpa [Stmt.sends] using hid'
    obtain ⟨b, hb, -, hsome⟩ := hresolved rfl
    exact h.fired id b hb hsome

theorem Inv.dispatch (h : Inv clocks log w) {id channel level : ℕ} {notice : Notice} (r : Role)
    (hmay : Phase.may rules ((evaluator rules).loc i log)
      (.dispatchToChannel id channel notice level)) :
    Inv clocks (⟨i, r, .dispatchToChannel id channel notice level, (), w⟩ :: log) w := by
  have hseen := h.seen i
  cases notice with
  | firing =>
    rw [hmay] at hseen
    exact h.ended (by rw [hmay]; exact nofun) h.ordered
      (h.told.dispatch hseen.1 (fun _ => hseen.2) nofun) rfl rfl
  | resolved =>
    obtain ⟨existing, hl, hnotifies, rfl⟩ := hmay
    rw [hl] at hseen
    obtain ⟨hsent, b, hb, hres, hfired⟩ := hseen
    exact h.ended (by rw [hl]; exact nofun) h.ordered
      (h.told.dispatch (hsent hnotifies) nofun
        fun _ => ⟨b, hb, hres, hfired hnotifies⟩) rfl rfl

end

/-! ## Runs -/

/-- The clocks show what is known of them. -/
def Clocks.keep (clocks : Clocks) (rules : Rules) : (alerts rules).Cond := fun _ _ _ e o w =>
  match e, o with
  | .setClock now, _ => clocks.steady → w.now ≤ now
  | .timeNow, now => clocks.behind → now ≤ w.now
  | .insertAlertHistory ruleID node, _ =>
    clocks.steady → ∀ a ∈ w.rows, a.stream = (ruleID, node) → a.createdAt < w.now
  | _, _ => true

theorem inv_step {i : ℕ} {r : Role} {e : Stmt} {o : e.Outcome} {a : e.Ans} {w' : World}
    (h : Inv clocks log w) (hok : clocks.keep rules log i r e o w = true)
    (hmay : (evaluator rules).may r ((evaluator rules).loc i log) e)
    (hx : exec i e o w = some (a, w')) : Inv clocks (⟨i, r, e, a, w⟩ :: log) w' := by
  have hrefl : Interferes clocks w w := interferes_of_rows_eq (fun _ => le_refl _) rfl rfl
  cases r with
  | clock now =>
    obtain ⟨now, rfl⟩ := hmay
    cases hx
    have hle : clocks.steady → w.now ≤ now := of_decide_eq_true hok
    exact h.interferes (interferes_of_rows_eq hle rfl rfl) (h.ordered.setClock hle)
      (fun _ _ => rfl) fun _ => rfl
  | acknowledgeAlert id | resolveAlert id =>
    cases e with
    | getAlertHistory id =>
      cases o <;> cases hx <;>
        exact h.interferes hrefl h.ordered (fun _ _ => rfl) fun _ => rfl
    | permissions id | respond status message =>
      cases hx
      exact h.interferes hrefl h.ordered (fun _ _ => rfl) fun _ => rfl
    | acknowledgeAlert id =>
      cases o <;> cases hx
      · exact h.interferes hrefl h.ordered (fun _ _ => rfl) fun _ => rfl
      · exact h.interferes (interferes_acknowledge w id)
          (h.ordered.update (Alert.acknowledge_forward w.now)) (fun _ _ => rfl) fun _ => rfl
    | resolveAlert id =>
      cases o <;> cases hx
      · exact h.interferes hrefl h.ordered (fun _ _ => rfl) fun _ => rfl
      · exact h.interferes (interferes_resolve w id)
          (h.ordered.update (Alert.resolve_forward w.now)) (fun _ _ => rfl) fun _ => rfl
    | _ => exact hmay.elim
  | evaluate ruleID met node =>
    by_cases hbegin : e = .beginTick
    · subst hbegin
      obtain ⟨hidle, hsome⟩ := Option.ite_none_right_eq_some.1 hx
      cases hsome
      exact h.beginTick hidle _
    have hi := may_ne_out hmay hbegin
    cases e with
    | beginTick => exact absurd rfl hbegin
    | endTick =>
      cases hx
      exact h.endTick hmay _
    | getLatestAlertForRule ruleID' node' => exact h.getLatest hi hmay.2 hx _
    | timeNow =>
      cases hx
      obtain ⟨ruleID', node', existing, hl⟩ := hmay
      have hseen := h.seen i
      refine h.act hi h.ordered (h.told.same rfl fun _ _ => rfl) (fun _ => h.turn i hi) ?_
      rw [hl] at hseen ⊢
      exact ⟨hseen.1, Read.interferes hseen.2 hrefl fun _ _ => rfl,
        fun _ => of_decide_eq_true hok⟩
    | insertAlertHistory ruleID' node' =>
      cases o <;> cases hx
      · exact h.ended hi h.ordered (h.told.same rfl fun _ _ => rfl) rfl rfl
      · exact h.insert _ hmay (of_decide_eq_true hok)
    | transitionAlertToFiring id =>
      cases o <;> cases hx
      · exact h.ended hi h.ordered (h.told.same rfl fun _ _ => rfl) rfl rfl
      · exact h.transition _ hmay
    | autoResolveAlert id =>
      cases o <;> cases hx
      · exact h.ended hi h.ordered (h.told.same rfl fun _ _ => rfl) rfl rfl
      · exact h.autoResolve _ hmay
    | dispatchToChannel id channel notice level =>
      cases hx
      exact h.dispatch _ hmay
    | getAlertHistory _ | permissions _ | acknowledgeAlert _ | resolveAlert _ | respond _ _
    | setClock _ => exact hmay.elim

theorem inv_init (rules : Rules) (clocks : Clocks) (now : ℤ) : @Inv rules clocks [] { now } where
  ordered := by
    constructor <;> simp_all
  told := by
    constructor <;> simp [sent, Backed]
  turn k h := absurd rfl h
  seen k := trivial

/-- **One alert, one notification of each kind.** By any clocks an alert is dispatched at most once
as firing, and at most once as resolved after it has fired. If the database's clock is steady, a
stream has at most one active alert; and if the process's is not ahead of it, the next one waits for
the cooldown. -/
theorem one_alert_one_notification (rules : Rules) (clocks : Clocks) (now : ℤ)
    (pool : (alerts rules).Pool)
    (hrun : (alerts rules).Reach (clocks.keep rules) (Pool.idle { now }) pool) :
    (∀ id, sent .firing id pool.log ≤ 1 ∧ sent .resolved id pool.log ≤ 1) ∧
    (∀ later en earlier id, pool.log = later ++ en :: earlier → en.stmt.sends .resolved id →
      ∃ en' ∈ earlier, fires id en') ∧
    (clocks.steady → ∀ a ∈ pool.shared.rows, ∀ b ∈ pool.shared.rows, a.stream = b.stream →
      alertActive a.state → alertActive b.state → a = b) ∧
    (clocks.steady → clocks.behind → ∀ a ∈ pool.shared.rows, ∀ b ∈ pool.shared.rows,
      a.stream = b.stream → a.id < b.id →
      ∃ t, a.resolvedAt = some t ∧
        t + seconds (rules a.ruleID).cooldownSeconds ≤ b.createdAt) := by
  have h : Inv clocks pool.log pool.shared :=
    invariant (evaluator_followed rules) (inv_init rules clocks now) inv_step hrun
  have hbefore (hsteady : clocks.steady) : ∀ a ∈ pool.shared.rows, ∀ b ∈ pool.shared.rows,
      a.stream = b.stream → a.id < b.id → a.Before rules clocks b := by
    intro a ha b hb hstream hlt
    obtain ⟨i, hi⟩ := List.getElem?_of_mem ha
    obtain ⟨j, hj⟩ := List.getElem?_of_mem hb
    rw [h.ordered.id i a hi, h.ordered.id j b hj] at hlt
    exact h.ordered.chain hsteady i j a b hlt hi hj hstream
  refine ⟨fun id => ⟨h.told.firing id, h.told.resolved id⟩,
    fun later en earlier id hlog hsends => ?_,
    fun hsteady a ha b hb hstream hactive hactive' => ?_,
    fun hsteady hbehind a ha b hb hstream hlt => ?_⟩
  · have hbacked := h.told.backed
    rw [hlog] at hbacked
    exact hbacked.of_append hsends
  · rcases Nat.lt_trichotomy a.id b.id with hlt | heq | hlt
    · simp [(hbefore hsteady a ha b hb hstream hlt).resolved, alertActive] at hactive
    · obtain ⟨i, hi⟩ := List.getElem?_of_mem ha
      obtain ⟨j, hj⟩ := List.getElem?_of_mem hb
      rw [h.ordered.id i a hi, h.ordered.id j b hj] at heq
      subst heq
      simpa [hi] using hj
    · simp [(hbefore hsteady b hb a ha hstream.symm hlt).resolved, alertActive] at hactive'
  · have hab := hbefore hsteady a ha b hb hstream hlt
    obtain ⟨t, ht⟩ := Option.isSome_iff_exists.1 ((h.ordered.valid a ha).stamped hab.resolved)
    exact ⟨t, ht, hab.cooled hbehind t ht⟩

/-! ## One rule -/

def levelRules (cooldownSeconds : ℕ) : Rules := fun id =>
  { id, metric := "cpu_usage", perNode := false, durationSeconds := 0, cooldownSeconds,
    escalationChain := [1] }

def succeeding (now : ℤ) : (e : Stmt) → e.Outcome
  | .getLatestAlertForRule .. => some 0
  | .timeNow => now
  | .insertAlertHistory .. | .getAlertHistory _ => true
  | .transitionAlertToFiring _ | .autoResolveAlert _ | .acknowledgeAlert _ | .resolveAlert _ => true
  | .permissions _ => none
  | .beginTick | .endTick | .dispatchToChannel .. | .respond .. | .setClock _ => ()

def goes (rules : Rules) (i : ℕ) (r : Role) (n : ℕ) (now : ℤ) : List (alerts rules).Event :=
  .start r :: List.replicate n (.step i (succeeding now))

/-- An alert fires, is acknowledged and resolves, and the next one fires after the cooldown. -/
theorem one_alert_one_notification_refired :
    ∃ pool, (alerts (levelRules 60)).Reach (Clocks.keep ⟨true, true⟩ (levelRules 60))
        (Pool.idle { now := 0 }) pool ∧
      pool.shared.rows.map Alert.state = [.resolved, .firing] ∧ sent .resolved 0 pool.log ≤ 1 := by
  obtain ⟨pool, hreach, hstates⟩ := exists_reach (M := alerts (levelRules 60))
    (Clocks.keep ⟨true, true⟩ (levelRules 60)) { now := 0 }
    (goes _ 0 (.evaluate 0 true 0) 6 0 ++ goes _ 1 (.acknowledgeAlert 0) 4 0 ++
      goes _ 2 (.evaluate 0 false 0) 5 0 ++ goes _ 3 (.clock (seconds 60)) 1 0 ++
      goes _ 4 (.evaluate 0 true 0) 7 (seconds 60))
    (fun pool => pool.shared.rows.map Alert.state = [.resolved, .firing]) (by decide +kernel)
  exact ⟨pool, hreach, hstates,
    ((one_alert_one_notification (levelRules 60) ⟨true, true⟩ 0 pool hreach).1 0).2⟩

/-- Two alerts of a stream are active. -/
def Doubled (rows : List Alert) : Prop :=
  ∃ a ∈ rows, ∃ b ∈ rows, a.stream = b.stream ∧ alertActive a.state ∧ alertActive b.state ∧ a ≠ b
deriving Decidable

/-- An alert was created before the cooldown of one before it was over. -/
def Early (cooldownSeconds : ℕ) (rows : List Alert) : Prop :=
  ∃ a ∈ rows, ∃ b ∈ rows, a.stream = b.stream ∧ a.id < b.id ∧
    ∃ t ∈ a.resolvedAt, b.createdAt < t + seconds cooldownSeconds
deriving Decidable

/-- The database's clock steps back between an alert's creation and its end; it stands still; the
process's clock is a minute ahead. -/
theorem unsteady_clocks :
    (∃ pool, (alerts (levelRules 0)).Reach Cond.any (Pool.idle { now := 100 }) pool ∧
      Doubled pool.shared.rows) ∧
    (∃ pool, (alerts (levelRules 0)).Reach Cond.any (Pool.idle { now := 100 }) pool ∧
      Doubled pool.shared.rows ∧ pool.shared.now = 100 ∧
        ∀ en ∈ pool.log, en.before.now = 100) ∧
    ∃ pool, (alerts (levelRules 60)).Reach Cond.any (Pool.idle { now := 0 }) pool ∧
      Early 60 pool.shared.rows :=
  ⟨exists_reach _ _ (goes _ 0 (.evaluate 0 true 0) 6 100 ++ goes _ 1 (.clock 90) 1 90 ++
      goes _ 2 (.evaluate 0 false 0) 5 90 ++ goes _ 3 (.clock 95) 1 95 ++
      goes _ 4 (.evaluate 0 true 0) 7 95 ++ goes _ 5 (.evaluate 0 true 0) 7 95) _
      (by decide +kernel),
    exists_reach _ _ (goes _ 0 (.evaluate 0 true 0) 6 100 ++
      goes _ 1 (.evaluate 0 false 0) 5 100 ++ goes _ 2 (.evaluate 0 true 0) 7 100 ++
      goes _ 3 (.evaluate 0 true 0) 7 100) _ (by decide +kernel),
    exists_reach _ _ (goes _ 0 (.evaluate 0 true 0) 6 (seconds 61) ++
      goes _ 1 (.evaluate 0 false 0) 5 (seconds 61) ++
      goes _ 2 (.evaluate 0 true 0) 7 (seconds 61)) _ (by decide +kernel)⟩

end Nexara.Alerts
