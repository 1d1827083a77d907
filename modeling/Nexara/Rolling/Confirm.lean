import Nexara.Rolling.NodeTable

/-!
# One confirmation, one reboot

A request that confirms an upgrade reads the node, checks that it awaits its upgrade, and after
several slow calls sends the reboot and writes the step, whatever has become of the node meanwhile.
Two overlapping requests both reboot the node (`confirmed_twice`); where none finds the node
awaiting while an earlier one is under way (`ConfirmCond`), it is rebooted once (`confirmed_once`).
-/

namespace Nexara.Rolling

open Conc Protocol System

/-! ## The steps of a node that is worked on -/

def NodeStep.late : NodeStep → Bool
  | rebooting | healthCheck | restoring | completed | failed => true
  | _ => false

/-- What a party's step tells of the table's. An administrator may skip a node that the tick is
about to start, and others may move one that is coming up again. -/
def agrees : NodeStep → NodeStep → Bool
  | .pending, x => x = .pending || x = .skipped
  | .draining, x => x = .draining
  | .upgrading, x => x = .upgrading
  | .awaitingUpgrade, x => x = .awaitingUpgrade
  | .rebooting, x | .healthCheck, x | .restoring, x => x.late
  | _, _ => true

section

variable {r : Role} {s s' t x : NodeStep} {u : NodeUpdate} {id id' : ℕ}

theorem agrees_self (s : NodeStep) : agrees s s = true := by cases s <;> rfl

theorem owns_confirm (id id' : ℕ) (s : NodeStep) :
    owns (.confirmUpgrade id) s = owns (.confirmUpgrade id') s := by
  cases s <;> rfl

theorem owns_of_takesOut (h : takesOut r s u = true) : owns r s = true := by
  unfold takesOut at h
  split_ifs at h
  · exact h
  · unfold leads at h
    split at h <;> first | rfl | cases h

theorem late_of_agrees (hs : owns r s = true) (h : agrees s x = true) (hx : x.late = true) :
    s.late = true := by
  unfold owns at hs
  split at hs <;> cases x <;> simp_all [agrees, NodeStep.late]

theorem late_of_both (hs : owns .tick s = true) (hs' : owns (.confirmUpgrade id) s' = true)
    (h : agrees s x = true) (h' : agrees s' x = true) : x.late = true := by
  cases s' with
  | rebooting => exact h'
  | awaitingUpgrade =>
    obtain rfl : x = .awaitingUpgrade := of_decide_eq_true h'
    cases s <;> first | exact absurd hs (by decide) | exact absurd h (by decide)
  | _ => cases hs'

theorem agrees_late (hs : s.late = true) (hx : x.late = true) : agrees s x = true := by
  cases s <;> simp_all [agrees, NodeStep.late]

theorem out_of_late (h : takesOut r s u = true) (hs : s.late = true) (hu : u.step? = some t) :
    t.late = true ∧ t ≠ .rebooting := by
  unfold takesOut leads at h
  split_ifs at h with hfails
  · cases u <;> simp_all [NodeUpdate.fails, NodeUpdate.step?]
    simp [← hu, NodeStep.late]
  · split at h <;> simp_all [NodeStep.late]
    all_goals rcases h with rfl | rfl <;> cases hu <;> simp

theorem out_of_awaiting (h : takesOut r .awaitingUpgrade u = true) (hu : u.step? = some t) :
    t.late = true := by
  unfold takesOut leads at h
  split_ifs at h with hfails
  · cases u <;> simp_all [NodeUpdate.fails, NodeUpdate.step?]
    simp [← hu, NodeStep.late]
  · cases r <;> simp_all
    rcases h with (rfl | rfl) | rfl <;> cases hu <;> rfl

end

/-! ## Conditions on runs -/

/-- The entry is a reboot that was sent to confirm the upgrade of the node. -/
def confirmsReboot (id : ℕ) (en : rolling.Entry) : Bool :=
  en.role = .confirmUpgrade id && Stmt.reboots en.stmt

def rebootsOf (id : ℕ) (log : rolling.Log) : ℕ := log.countP (confirmsReboot id)

/-- Another confirmation has found the node awaiting its upgrade, and is not over. -/
def claimed (i id : ℕ) (log : rolling.Log) : Bool :=
  log.any fun en => en.party ≠ i && (nodeProtocol.loc en.party log).claim = some id

/-- No upgrade is automated, and no confirmation finds the node awaiting while another that did is
under way. -/
def ConfirmCond : rolling.Cond := fun log i r e _ w =>
  match r, e with
  | .sshUpgrade _ _ _, _ => false
  | .confirmUpgrade id, .db (.getRollingUpdateNode _) =>
    !(w.stepOf id = some .awaitingUpgrade && claimed i id log)
  | _, _ => true

/-- The party deals with a node it takes to be in this step. -/
def NodeMemory.Holds (l : NodeMemory) (id : ℕ) (s : NodeStep) : Prop :=
  l.ticking = true ∧ owns .tick s = true ∨ l.claim = some id ∧ owns (.confirmUpgrade id) s = true

/-- The party has sent a reboot of the node and has not recorded it. -/
structure NodeMemory.Sent (l : NodeMemory) (id : ℕ) : Prop where
  claim : l.claim = some id
  rebooted : l.rebooted = true
  known : l.known id = some .awaitingUpgrade

/-- A party that looks at nodes takes up what it did not know. -/
structure NodeMemory.Looked (w : World) (l l' : NodeMemory) : Prop where
  known : ∀ id, l'.known id = l.known id ∨ l'.known id = w.stepOf id
  ticking : l'.ticking = l.ticking
  claim : l'.claim = l.claim
  rebooted : l'.rebooted = l.rebooted

/-- What a party deals with after a step it knows from the table, or dealt with before. -/
structure NodeMemory.Remembers (w : World) (l l' : NodeMemory) : Prop where
  known : ∀ id s, l'.known id = some s → l'.Holds id s →
    w.stepOf id = some s ∨ l.known id = some s ∧ l.Holds id s
  sent : ∀ id, l.Sent id → l'.Sent id

structure ConfirmInv (log : rolling.Log) (w : World) : Prop extends Orderly log w where
  alone : ∀ k k' id, (nodeProtocol.loc k log).claim = some id →
    (nodeProtocol.loc k' log).claim = some id → k = k'
  agree : ∀ k id s, (nodeProtocol.loc k log).known id = some s →
    (nodeProtocol.loc k log).Holds id s → ∃ x, w.stepOf id = some x ∧ agrees s x = true
  /-- A node whose reboot was sent is recorded as rebooting or later, or is about to be. -/
  sent : ∀ id, rebootsOf id log ≠ 0 → (∃ x, w.stepOf id = some x ∧ x.late = true) ∨
    ∃ k, (nodeProtocol.loc k log).Sent id
  once : ∀ id, rebootsOf id log ≤ 1

theorem claimed_of_claim {log : rolling.Log} {i k id : ℕ} (hk : k ≠ i)
    (h : (nodeProtocol.loc k log).claim = some id) : claimed i id log = true := by
  obtain ⟨en, hen, rfl⟩ := seen_of_loc fun heq => by
    rw [heq] at h
    cases h
  refine List.any_eq_true.mpr ⟨en, hen, ?_⟩
  simp [hk, h]

section

variable {log : rolling.Log} {w w' : World} {i c : ℕ} {r : Role} {e : Stmt} {a : e.Ans}
  {id : ℕ} {o : e.Outcome} {s t : NodeStep} {u : NodeUpdate} {l : NodeMemory} {n : NodeRow}

theorem rebootsOf_cons (id : ℕ) (en : rolling.Entry) (log : rolling.Log) :
    rebootsOf id (en :: log) = rebootsOf id log + if confirmsReboot id en then 1 else 0 := by
  unfold rebootsOf
  rw [List.countP_cons]

theorem rebootsOf_same (hreboot : e.reboots = false) (id : ℕ) :
    rebootsOf id (⟨i, r, e, a, w⟩ :: log) = rebootsOf id log := by
  rw [rebootsOf_cons, confirmsReboot, hreboot, Bool.and_false]
  rfl

theorem knows_of_cond (hok : ConfirmCond log i r e o w = true) (l : NodeMemory)
    (id : ℕ) : l.knows r id = l.known id := by
  cases r with
  | sshUpgrade job node host => cases hok
  | _ => exact Option.or_none

theorem owns_not_terminal (h : owns r s = true) : s.terminal = false := by
  unfold owns at h
  split at h <;> first | rfl | cases h

theorem Holds.not_terminal (h : l.Holds id s) : s.terminal = false := by
  rcases h with ⟨-, hs⟩ | ⟨-, hs⟩
  · exact owns_not_terminal hs
  · exact owns_not_terminal hs

theorem holds_of_mayMove (hok : ConfirmCond log i r e o w = true) (h : l.mayMove r u id) :
    ∃ s, l.known id = some s ∧ l.Holds id s ∧ owns r s = true ∧ takesOut r s u = true := by
  obtain ⟨htick, hclaim, s, hknows, hout, -⟩ := h
  have howns := owns_of_takesOut hout
  refine ⟨s, (knows_of_cond hok l id).symm.trans hknows, ?_, howns, hout⟩
  cases r with
  | tick => exact .inl ⟨htick rfl, howns⟩
  | confirmUpgrade id' => exact .inr ⟨hclaim id' rfl, owns_confirm id id' s ▸ howns⟩
  | sshUpgrade job node host => cases hok
  | _ => cases howns

theorem holds_move {id' : ℕ} : (l.move u id).Holds id' s ↔ l.Holds id' s := by
  simp [NodeMemory.Holds, move_same]

theorem out_late (hu : u.step? = some t)
    (hout : takesOut r s u = true) (hagrees : agrees s n.step = true) (hn : n.step.late = true) :
    (if u.guard n then t else n.step).late = true := by
  split_ifs
  · exact (out_of_late hout (late_of_agrees (owns_of_takesOut hout) hagrees hn) hu).1
  · exact hn

variable (h : ConfirmInv log w)
include h

/-- What was sent stays known: the node is still awaiting its upgrade. -/
theorem ConfirmInv.known_of_sent {k : ℕ}
    (hsent : (nodeProtocol.loc k log).Sent id) : w.stepOf id = some .awaitingUpgrade := by
  obtain ⟨x, hx, hagrees⟩ := h.agree k id _ hsent.known (.inr ⟨hsent.claim, rfl⟩)
  obtain rfl : x = .awaitingUpgrade := of_decide_eq_true hagrees
  exact hx

/-! ## Steps that leave the nodes alone -/

section

variable (hnext : Orderly (⟨i, r, e, a, w⟩ :: log) w') (hsteps : ∀ id, w'.stepOf id = w.stepOf id)
include hnext hsteps

/-- A step that changes no node: it is enough that what its party remembers is right. -/
theorem ConfirmInv.remember
    (halone : ∀ id, ((nodeProtocol.loc i log).next r e a).claim = some id →
      (nodeProtocol.loc i log).claim = some id ∨ ∀ k ≠ i, (nodeProtocol.loc k log).claim ≠ some id)
    (hmemory : (nodeProtocol.loc i log).Remembers w ((nodeProtocol.loc i log).next r e a))
    (hcount : ∀ id, rebootsOf id (⟨i, r, e, a, w⟩ :: log) = rebootsOf id log ∨
      rebootsOf id log = 0 ∧ rebootsOf id (⟨i, r, e, a, w⟩ :: log) = 1 ∧
        ((nodeProtocol.loc i log).next r e a).Sent id) :
    ConfirmInv (⟨i, r, e, a, w⟩ :: log) w' := by
  have hi : nodeProtocol.loc i (⟨i, r, e, a, w⟩ :: log) = (nodeProtocol.loc i log).next r e a :=
    loc_self ..
  have hne k (hk : i ≠ k) : nodeProtocol.loc k (⟨i, r, e, a, w⟩ :: log) = nodeProtocol.loc k log :=
    loc_ne hk ..
  refine ⟨hnext, fun k k' id hk hk' => ?_, ?_, fun id hpos => ?_, fun id => ?_⟩
  · have := h.alone k k' id
    have := halone id
    grind
  · refine forall_loc (T := nodeProtocol) (p := fun _ l => ∀ id s, l.known id = some s →
      l.Holds id s → ∃ x, w'.stepOf id = some x ∧ agrees s x = true) (fun id s hs hholds => ?_)
      fun k _ id s hs hholds => hsteps id ▸ h.agree k id s hs hholds
    rw [hsteps]
    rcases hmemory.known id s hs hholds with hstep | ⟨hs, hholds⟩
    · exact ⟨s, hstep, agrees_self s⟩
    · exact h.agree i id s hs hholds
  · rw [hsteps]
    rcases hcount id with hsame | ⟨-, -, hself⟩
    · exact (h.sent id (hsame ▸ hpos)).imp_right
        (exists_loc (T := nodeProtocol) (fun l => l.Sent id) (hmemory.sent id))
    · exact .inr ⟨i, hi ▸ hself⟩
  · have := h.once id
    grind

theorem ConfirmInv.look
    (hlooked : (nodeProtocol.loc i log).Looked w ((nodeProtocol.loc i log).next r e a))
    (hreboot : e.reboots = false) : ConfirmInv (⟨i, r, e, a, w⟩ :: log) w' := by
  obtain ⟨hknown, hticking, hclaim, hrebooted⟩ := hlooked
  refine h.remember hnext hsteps (fun id hc => .inl (hclaim ▸ hc))
    ⟨fun id s hs hholds => ?_, fun id hsent => ?_⟩ fun id => .inl (rebootsOf_same hreboot id)
  · unfold NodeMemory.Holds at hholds
    rw [hticking, hclaim] at hholds
    rcases hknown id with hk | hk
    · exact .inr ⟨hk ▸ hs, hholds⟩
    · exact .inl (hk ▸ hs)
  · refine ⟨hclaim.trans hsent.claim, hrebooted.trans hsent.rebooted, ?_⟩
    rcases hknown id with hk | hk
    · exact hk.trans hsent.known
    · exact hk.trans (h.known_of_sent hsent)

omit hnext hsteps in
theorem known_of_cond (hx : exec i e o w = some (a, w')) (hok : ConfirmCond log i r e o w = true)
    (hnot : ∀ u id, e ≠ .db (.updateNode u id)) (id : ℕ) :
    ((nodeProtocol.loc i log).next r e a).known id = (nodeProtocol.loc i log).known id ∨
      ((nodeProtocol.loc i log).next r e a).known id = w.stepOf id := by
  rcases known_next h.ids hx hnot (nodeProtocol.loc i log) id with ⟨-, hk⟩ | ⟨-, hk | hk⟩
  · exact .inr hk
  · exact .inl hk
  · exact .inl (hk.trans (knows_of_cond hok _ id))

end

theorem ConfirmInv.claim {row : NodeRow}
    (hok : ConfirmCond log i r (.db (.getRollingUpdateNode id)) none w = true)
    (hx : exec i (.db (.getRollingUpdateNode id)) none w = some (.ok row, w'))
    (hnext : Orderly (⟨i, r, .db (.getRollingUpdateNode id), .ok row, w⟩ :: log) w')
    (hrow : w.node? id = some row) :
    ConfirmInv (⟨i, r, .db (.getRollingUpdateNode id), .ok row, w⟩ :: log) w' := by
  have hnot : ∀ u id', Stmt.db (.getRollingUpdateNode id) ≠ .db (.updateNode u id') :=
    nofun
  have hsteps := stepOf_of_exec hx hnot
  have hknown := known_of_cond h hx hok hnot
  have hclaim : ((nodeProtocol.loc i log).next r (.db (.getRollingUpdateNode id)) (.ok row)).claim =
    (nodeProtocol.loc i log).claim.or (if r = .confirmUpgrade id ∧
      (nodeProtocol.loc i log).knows r id = none ∧ row.step = .awaitingUpgrade
      then some id else none) := rfl
  split_ifs at hclaim with hnew
  · cases hold : (nodeProtocol.loc i log).claim with
    | some id' =>
      rw [hold] at hclaim
      exact h.look hnext hsteps ⟨hknown, rfl, hclaim.trans hold.symm, rfl⟩ rfl
    | none =>
      -- the claim is new, so nobody else has one
      obtain ⟨rfl, hunknown, hawaits⟩ := hnew
      rw [hold] at hclaim
      rw [knows_of_cond hok] at hunknown
      have hstep : w.stepOf id = some .awaitingUpgrade := hawaits ▸ stepOf_of_node? hrow
      refine h.remember hnext hsteps (fun id' hc => .inr fun k hk hc' => ?_)
        ⟨fun id' s hs hholds => ?_, fun id' hsent => ?_⟩ fun id' => .inl (rebootsOf_same rfl id')
      · obtain rfl := Option.some.inj (hclaim.symm.trans hc)
        simp [ConfirmCond, claimed_of_claim hk hc', hstep] at hok
      · rcases hknown id' with hk | hk
        · rw [hk] at hs
          rcases hholds with htick | ⟨hc, -⟩
          · exact .inr ⟨hs, .inl htick⟩
          · cases Option.some.inj (hclaim.symm.trans hc)
            cases hunknown.symm.trans hs
        · exact .inl (hk ▸ hs)
      · cases hold.symm.trans hsent.claim
  · rw [Option.or_none] at hclaim
    exact h.look hnext hsteps ⟨hknown, rfl, hclaim, rfl⟩ rfl

theorem ConfirmInv.respond {status : ℕ} {message : String}
    (hnext : Orderly (⟨i, r, .respond status message, (), w⟩ :: log) w) :
    ConfirmInv (⟨i, r, .respond status message, (), w⟩ :: log) w := by
  have hclaim : ∀ {id}, (nodeProtocol.loc i log).answer.claim = some id →
      (nodeProtocol.loc i log).claim = some id := fun hc => Option.eq_some_of_filter_eq_some hc
  refine h.remember hnext (fun _ => rfl) (fun id hc => .inl (hclaim hc))
    ⟨fun id s hs hholds => ?_, fun id hsent => ?_⟩ fun id => .inl (rebootsOf_same rfl id)
  · refine .inr ⟨hs, ?_⟩
    rcases hholds with htick | ⟨hc, howns⟩
    · exact .inl htick
    · exact .inr ⟨hclaim hc, howns⟩
  · refine ⟨?_, hsent.rebooted, hsent.known⟩
    show (nodeProtocol.loc i log).claim.filter _ = some id
    rw [hsent.claim]
    refine Option.filter_some_pos ?_
    rw [hsent.rebooted, hsent.known]
    rfl

theorem ConfirmInv.beginTick (hsteps : ∀ id, w'.stepOf id = w.stepOf id)
    (hnext : Orderly (⟨i, r, .beginTick, (), w⟩ :: log) w')
    (hmay : NodeMemory.may r (nodeProtocol.loc i log) .beginTick) :
    ConfirmInv (⟨i, r, .beginTick, (), w⟩ :: log) w' := by
  refine h.remember hnext hsteps (fun _ => .inl) ⟨fun id s hs _ => ?_, fun id hsent =>
    ⟨hsent.claim, hsent.rebooted, hsent.known⟩⟩ fun id => .inl (rebootsOf_same rfl id)
  replace hs : (nodeProtocol.loc i log).known id = some s := hs
  rw [hmay (h.even i)] at hs
  cases hs

theorem ConfirmInv.endTick (hsteps : ∀ id, w'.stepOf id = w.stepOf id)
    (hnext : Orderly (⟨i, r, .endTick, (), w⟩ :: log) w') :
    ConfirmInv (⟨i, r, .endTick, (), w⟩ :: log) w' := by
  refine h.remember hnext hsteps (fun _ => .inl) ⟨fun id s hs hholds => ?_, fun id hsent =>
    ⟨hsent.claim, hsent.rebooted, hsent.known⟩⟩ fun id => .inl (rebootsOf_same rfl id)
  rcases hholds with ⟨ht, -⟩ | hclaims
  · cases ht
  · exact .inr ⟨hs, .inr hclaims⟩

theorem ConfirmInv.reboot {name : String} {a : Except Err Unit}
    (hmay : NodeMemory.may r (nodeProtocol.loc i log) (.px (.rebootNode name)))
    (hsteps : ∀ id, w'.stepOf id = w.stepOf id)
    (hnext : Orderly (⟨i, r, .px (.rebootNode name), a, w⟩ :: log) w') :
    ConfirmInv (⟨i, r, .px (.rebootNode name), a, w⟩ :: log) w' := by
  obtain ⟨hunsent, hrole⟩ := hmay (h.even i)
  refine h.remember hnext hsteps (fun _ => .inl) ⟨fun id s hs hholds => .inr ⟨hs, hholds⟩,
    fun id hsent => ⟨hsent.claim, rfl, hsent.known⟩⟩ fun id => ?_
  by_cases hid : r = .confirmUpgrade id
  · right
    subst hid
    obtain ⟨hclaim, hknown⟩ := hrole
    have hzero : rebootsOf id log = 0 := by
      by_contra hne
      rcases h.sent id hne with ⟨x, hx, hlate⟩ | ⟨k, hk⟩
      · obtain ⟨y, hy, hagrees⟩ := h.agree i id _ hknown (.inr ⟨hclaim, rfl⟩)
        obtain rfl : y = .awaitingUpgrade := of_decide_eq_true hagrees
        rw [hx] at hy
        cases hy
        cases hlate
      · obtain rfl := h.alone k i id hk.claim hclaim
        rw [hk.rebooted] at hunsent
        cases hunsent
    refine ⟨hzero, ?_, hclaim, rfl, hknown⟩
    rw [rebootsOf_cons, hzero, confirmsReboot]
    simp [Stmt.reboots]
  · left
    rw [rebootsOf_cons, confirmsReboot, decide_eq_false hid]
    rfl

/-! ## Steps that write a node -/

theorem ConfirmInv.late_of_ne {k : ℕ} {s' x : NodeStep} (hk : k ≠ i)
    (hi : (nodeProtocol.loc i log).Holds id s) (hs : agrees s x = true)
    (hk' : (nodeProtocol.loc k log).Holds id s') (hs' : agrees s' x = true) : x.late = true := by
  rcases hi with ⟨ht, ho⟩ | ⟨hc, ho⟩
  · rcases hk' with ⟨ht', ho'⟩ | ⟨hc', ho'⟩
    · exact absurd (Option.some.inj ((h.leader k ht').symm.trans (h.leader i ht))) hk
    · exact late_of_both ho ho' hs hs'
  · rcases hk' with ⟨ht', ho'⟩ | ⟨hc', ho'⟩
    · exact late_of_both ho' ho hs' hs
    · exact absurd (h.alone k i id hc' hc) hk

theorem ConfirmInv.write {x : NodeStep} (hn : w.node? id = some n) (hu : u.step? = some t)
    (hx : (w.updateNode u id).stepOf id = some x) (hlate : n.step.late = true → x.late = true)
    (hothers : ∀ k s, k ≠ i → (nodeProtocol.loc k log).Holds id s → agrees s n.step = true →
      agrees s x = true) (hself : (nodeProtocol.loc i log).Holds id t → x = t)
    (hsent : (nodeProtocol.loc i log).Sent id → x.late = true)
    (hnext : Orderly (⟨i, r, .db (.updateNode u id), .ok c, w⟩ :: log) (w.updateNode u id)) :
    ConfirmInv (⟨i, r, .db (.updateNode u id), .ok c, w⟩ :: log) (w.updateNode u id) := by
  have hold := stepOf_of_node? hn
  have hi : nodeProtocol.loc i (⟨i, r, .db (.updateNode u id), .ok c, w⟩ :: log) =
    (nodeProtocol.loc i log).move u id := loc_self ..
  have hne k (hk : i ≠ k) : nodeProtocol.loc k (⟨i, r, .db (.updateNode u id), .ok c, w⟩ :: log) =
    nodeProtocol.loc k log := loc_ne hk ..
  have hmove := move_same (nodeProtocol.loc i log) u id
  refine ⟨hnext, fun k k' id' hk hk' => ?_, fun k id' s hs hholds => ?_, fun id' hpos => ?_,
    fun id' => ?_⟩
  · have := h.alone k k' id'
    grind
  · by_cases hik : i = k
    · subst hik
      rw [hi] at hs hholds
      replace hholds := holds_move.mp hholds
      by_cases hid : id' = id
      · subst hid
        obtain rfl := Option.some.inj ((known_move_self hu _).symm.trans hs)
        exact ⟨x, hx, hself hholds ▸ agrees_self x⟩
      · rw [stepOf_updateNode_ne hid]
        rw [known_move_same (.inr hid)] at hs
        exact h.agree i id' s hs hholds
    · rw [hne k hik] at hs hholds
      obtain ⟨y, hy, hagrees⟩ := h.agree k id' s hs hholds
      by_cases hid : id' = id
      · subst hid
        obtain rfl := Option.some.inj (hold.symm.trans hy)
        exact ⟨x, hx, hothers k s (Ne.symm hik) hholds hagrees⟩
      · exact ⟨y, (stepOf_updateNode_ne hid).trans hy, hagrees⟩
  · rw [rebootsOf_same rfl] at hpos
    by_cases hid : id' = id
    · subst hid
      rcases h.sent id' hpos with ⟨y, hy, hly⟩ | ⟨k, hk⟩
      · obtain rfl := Option.some.inj (hold.symm.trans hy)
        exact .inl ⟨x, hx, hlate hly⟩
      · by_cases hik : i = k
        · exact .inl ⟨x, hx, hsent (hik ▸ hk)⟩
        · exact .inr ⟨k, hne k hik ▸ hk⟩
    · rw [stepOf_updateNode_ne hid]
      exact (h.sent id' hpos).imp_right (exists_loc (T := nodeProtocol) (fun l => l.Sent id')
        fun hk => ⟨hmove.2.1.trans hk.claim, hmove.2.2.1.trans hk.rebooted,
          (known_move_same (.inr hid) _).trans hk.known⟩)
  · rw [rebootsOf_same rfl]
    exact h.once id'

theorem ConfirmInv.move (hu : u.step? = some t)
    (hok : ConfirmCond log i r (.db (.updateNode u id)) none w = true)
    (hmay : (nodeProtocol.loc i log).mayMove r u id)
    (hnext : Orderly (⟨i, r, .db (.updateNode u id), .ok c, w⟩ :: log) (w.updateNode u id)) :
    ConfirmInv (⟨i, r, .db (.updateNode u id), .ok c, w⟩ :: log) (w.updateNode u id) := by
  obtain ⟨s, hs, hholds, howns, hout⟩ := holds_of_mayMove hok hmay
  obtain ⟨x, hx, hagrees⟩ := h.agree i id s hs hholds
  obtain ⟨n, hn, rfl⟩ := Option.map_eq_some_iff.mp hx
  have hstep := stepOf_updateNode (u := u) hn
  rw [hu] at hstep
  refine h.write hn hu hstep (out_late hu hout hagrees) (fun k s' hk hk' hs' => ?_) (fun ht => ?_)
    (fun hsent => ?_) hnext
  · have hlate := h.late_of_ne hk hholds hagrees hk' hs'
    have hs'late : s'.late = true := by
      rcases hk' with ⟨-, ho⟩ | ⟨-, ho⟩
      · exact late_of_agrees ho hs' hlate
      · exact late_of_agrees ho hs' hlate
    exact agrees_late hs'late (out_late hu hout hagrees hlate)
  · exact if_pos (guard_of_step hu (Holds.not_terminal ht) n)
  · -- the reboot it has sent is recorded, or the node failed
    obtain rfl := Option.some.inj (hs.symm.trans hsent.known)
    have hawaits : n.step = .awaitingUpgrade := of_decide_eq_true hagrees
    have hguard : u.guard n = true := by
      cases u with
      | failRollingUpdateNode reason =>
        show (!n.step.terminal) = true
        rw [hawaits]
        rfl
      | skipRollingUpdateNode => exact (takesOut_not_skip hout).elim
      | confirmNodeUpgrade => cases hu
      | _ => rfl
    rw [if_pos hguard]
    exact out_of_awaiting hout hu

theorem ConfirmInv.skip (hmay : (nodeProtocol.loc i log).claim = none)
    (hnext : Orderly (⟨i, r, .db (.updateNode .skipRollingUpdateNode id), .ok c, w⟩ :: log)
      (w.updateNode .skipRollingUpdateNode id)) :
    ConfirmInv (⟨i, r, .db (.updateNode .skipRollingUpdateNode id), .ok c, w⟩ :: log)
      (w.updateNode .skipRollingUpdateNode id) := by
  have hnobody : ¬(nodeProtocol.loc i log).Holds id .skipped := fun hh =>
    absurd (Holds.not_terminal hh) (by decide)
  have hunsent : ∀ id', ¬(nodeProtocol.loc i log).Sent id' := fun id' hsent => by
    cases hmay.symm.trans hsent.claim
  cases hn : w.node? id with
  | some n =>
    have hstep := stepOf_updateNode (u := .skipRollingUpdateNode) hn
    rw [show NodeUpdate.step? .skipRollingUpdateNode = some .skipped from rfl] at hstep
    by_cases hguard : NodeUpdate.guard n .skipRollingUpdateNode = true
    · -- the node was pending, and only the tick may know that
      have hpending : n.step = .pending := of_decide_eq_true hguard
      refine h.write hn rfl hstep (fun hl => ?_) (fun k s _ _ hs => ?_)
        (fun hh => absurd hh hnobody) (fun hsent => absurd hsent (hunsent id)) hnext
      · simp [hpending, NodeStep.late] at hl
      · cases s <;> simp_all [agrees, NodeStep.late]
    · rw [if_neg hguard] at hstep
      exact h.write hn rfl hstep (fun hl => hl) (fun k s _ _ hs => hs)
        (fun hh => absurd hh hnobody) (fun hsent => absurd hsent (hunsent id)) hnext
  | none =>
    have hsteps : ∀ id', (w.updateNode .skipRollingUpdateNode id).stepOf id' = w.stepOf id' := by
      intro id'
      by_cases hid : id' = id
      · simp [hid, World.stepOf, node?_updateNode, hn]
      · exact stepOf_updateNode_ne hid
    refine h.remember hnext hsteps (fun _ => .inl) ⟨fun id' s hs hholds => .inr ?_,
      fun id' hsent => absurd hsent (hunsent id')⟩ fun id' => .inl (rebootsOf_same rfl id')
    replace hs : Function.update (nodeProtocol.loc i log).known id (some .skipped) id' = some s := hs
    rw [Function.update_apply] at hs
    split_ifs at hs with hid
    · cases hs
      exact absurd (hid ▸ hholds) hnobody
    · exact ⟨hs, hholds⟩

variable (hok : ConfirmCond log i r e o w = true)
  (hmay : NodeMemory.may r (nodeProtocol.loc i log) e) (hx : exec i e o w = some (a, w'))
include hok hmay hx

theorem ConfirmInv.step : ConfirmInv (⟨i, r, e, a, w⟩ :: log) w' := by
  have hnext := h.toOrderly.step hmay hx
  have hlook (hnot : ∀ u id, e ≠ .db (.updateNode u id)) hticking hclaim hrebooted :=
    h.look hnext (stepOf_of_exec hx hnot) ⟨known_of_cond h hx hok hnot, hticking, hclaim, hrebooted⟩
  cases e with
  | db d =>
    cases d with
    | updateNode u id =>
      cases o with
      | some err =>
        cases hx
        exact h.look hnext (fun _ => rfl) ⟨fun _ => .inl rfl, rfl, rfl, rfl⟩ rfl
      | none =>
        cases hx
        cases hu : u.step? with
        | none =>
          exact h.look hnext (fun _ => stepOf_updateNode_same (.inl hu))
            ⟨fun _ => .inl (known_move_same (.inl hu) _), (move_same ..).1, (move_same ..).2.1,
              (move_same ..).2.2.1⟩ rfl
        | some t =>
          by_cases hskip : u = .skipRollingUpdateNode
          · subst hskip
            exact h.skip (hmay.2 rfl (h.even i)) hnext
          · refine h.move hu hok (hmay.1 ?_ (h.even i)) hnext
            unfold NodeUpdate.moves
            split
            · exact absurd rfl hskip
            · rw [hu]
              rfl
    | getRollingUpdateNode id =>
      cases a with
      | error err => exact hlook (by simp) rfl rfl rfl rfl
      | ok row =>
        cases o with
        | some err => cases hx
        | none =>
          refine h.claim hok hx hnext ?_
          replace hx : some (rowOf (w.node? id), w) = some (.ok row, w') := hx
          cases hrow : w.node? id with
          | none => rw [hrow] at hx; cases hx
          | some n => rw [hrow] at hx; cases hx; rfl
    | _ => refine hlook (by simp) ?_ ?_ ?_ rfl <;> cases a <;> rfl
  | px p =>
    cases p with
    | rebootNode name => exact h.reboot hmay (stepOf_of_exec hx (by simp)) hnext
    | _ => exact hlook (by simp) rfl rfl rfl rfl
  | beginTick => exact h.beginTick (stepOf_of_exec hx (by simp)) hnext hmay
  | endTick => exact h.endTick (stepOf_of_exec hx (by simp)) hnext
  | respond status message => cases hx; exact h.respond hnext
  | _ => exact hlook (by simp) rfl rfl rfl rfl

theorem ConfirmInv.past (hpast : ∃ x, w.stepOf id = some x ∧ x.late = true ∧ x ≠ .rebooting) :
    ∃ x, w'.stepOf id = some x ∧ x.late = true ∧ x ≠ .rebooting := by
  rcases stepOf_cases hx id with hsame | ⟨t, hwrites, hstep⟩
  · rwa [hsame]
  refine ⟨t, hstep, ?_⟩
  obtain ⟨x, hx', hlate, -⟩ := hpast
  cases hwrites with
  | @mk u n hn hu hguard =>
    obtain rfl := Option.some.inj ((stepOf_of_node? hn).symm.trans hx')
    have hmoves : u.moves = true := by
      unfold NodeUpdate.moves
      split
      · -- such a node is not pending
        rw [show n.step = .pending from of_decide_eq_true hguard] at hlate
        cases hlate
      · rw [hu]
        rfl
    obtain ⟨s, hs, hholds, howns, hout⟩ := holds_of_mayMove hok (hmay.1 hmoves (h.even i))
    obtain ⟨y, hy, hagrees⟩ := h.agree i id s hs hholds
    obtain rfl := Option.some.inj (hx'.symm.trans hy)
    exact out_of_late hout (late_of_agrees howns hagrees hlate) hu

end

/-- **One confirmation, one reboot.** If steps satisfy `ConfirmCond`, at most one reboot of a node
is sent, and a node that is being checked, gets its guests back or is completed never goes back to
rebooting. -/
theorem confirmed_once {w : World} (hids : (w.nodes.map (·.id)).Nodup) {c : rolling.Pool}
    (hc : rolling.Reach ConfirmCond (Pool.idle w) c) (id : ℕ) :
    rebootsOf id c.log ≤ 1 ∧
      ∀ c', rolling.Reach ConfirmCond c c' → ∀ s ∈ [NodeStep.healthCheck, .restoring, .completed],
        c.shared.stepOf id = some s → c'.shared.stepOf id ≠ some .rebooting := by
  have hinit : ConfirmInv [] w := by
    refine ⟨.init hids, nofun, nofun,
      fun _ h => absurd rfl h, fun _ => Nat.zero_le 1⟩
  have hinv : ∀ {c : rolling.Pool}, rolling.Reach ConfirmCond (Pool.idle w) c →
      ConfirmInv c.log c.shared := fun hc =>
    invariant nodes_followed hinit (fun h => h.step) hc
  refine ⟨(hinv hc).once id, fun c' hc' s hs hstep hback => ?_⟩
  have hpast : ∃ x, c.shared.stepOf id = some x ∧ x.late = true ∧ x ≠ .rebooting := by
    refine ⟨s, hstep, ?_⟩
    cases s <;> simp_all [NodeStep.late]
  obtain ⟨x, hx, -, hne⟩ := remains nodes_followed hinv
    (P := fun _ w => ∃ x, w.stepOf id = some x ∧ x.late = true ∧ x ≠ .rebooting)
    (fun h _ hok hmay hx hP => h.past hok hmay hx hP) hc hc' hpast
  rw [hback] at hx
  exact hne (Option.some.inj hx).symm

/-! ## Two runs -/

/-- A job whose node was upgraded by hand, and waits to be confirmed. -/
def manualJob : World where
  job := { status := .running }
  nodes := [{ id := 0, nodeName := "pve1", step := .awaitingUpgrade }]

/-- A confirmation, a minute in which the node reboots, and two ticks. -/
theorem confirmed_once_comes_up :
    (manualJob.nodes.map (·.id)).Nodup ∧
      ∃ c c', rolling.Reach ConfirmCond (Pool.idle manualJob) c ∧
        rolling.Reach ConfirmCond c c' ∧ rebootsOf 0 c.log = 1 ∧ rebootsOf 0 c.log ≤ 1 ∧
        c.shared.stepOf 0 = some .healthCheck ∧ c'.shared.stepOf 0 ≠ some .rebooting := by
  have hids : (manualJob.nodes.map (·.id)).Nodup := by decide
  obtain ⟨c, c', hc, hc', hreboots, hstep⟩ := exists_reach_reach ConfirmCond manualJob
    ([.start (.confirmUpgrade 0)] ++ steps 0 10 (calm [] []) ++ [.start (.wait 60)] ++
      steps 1 1 (calm [] []) ++ [.start .tick] ++ steps 2 16 (calm [] []))
    ([.start .tick] ++ steps 3 5 (calm [] []))
    (fun c _ => rebootsOf 0 c.log = 1 ∧ c.shared.stepOf 0 = some .healthCheck) (by decide +kernel)
  obtain ⟨hone, hback⟩ := confirmed_once hids hc 0
  exact ⟨hids, c, c', hc, hc', hreboots, hone, hstep, hback c' hc' .healthCheck (by simp) hstep⟩

/-- **A node is rebooted twice.** Two requests find the node awaiting. The first one reboots it, and
a tick sees it come up; then the second reboots it again, back from its health check. -/
theorem confirmed_twice :
    ∃ c c', rolling.Reach Cond.any (Pool.idle manualJob) c ∧
      rolling.Reach Cond.any c c' ∧ c.shared.stepOf 0 = some .healthCheck ∧
      c'.shared.stepOf 0 = some .rebooting ∧ rebootsOf 0 c'.log = 2 :=
  exists_reach_reach _ _
    ([.start (.confirmUpgrade 0), .start (.confirmUpgrade 0)] ++ steps 1 7 (calm [] []) ++
      steps 0 10 (calm [] []) ++ [.start (.wait 60)] ++ steps 2 1 (calm [] []) ++ [.start .tick] ++
      steps 3 16 (calm [] [])) (steps 1 3 (calm [] [])) _ (by decide +kernel)

end Nexara.Rolling
