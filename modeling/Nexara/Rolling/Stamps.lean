import Nexara.Rolling.NodeTable

/-!
# When a node's step began

The timeouts of an upgrade, a reboot and a restore are measured from stamps in the node's row. That
of an upgrade keeps its first value. The others are written by every statement that writes the step,
also when the node is in it already: `advanceRestoring` begins a restore again that was not heard of
for two minutes, so one that never ends never reaches its timeout (`restore_restamped`). Where the
clock asks no tick to do so (`Timely`), a stamp stays until the node leaves the step (`stamp_kept`).
-/

namespace Nexara.Rolling

open Conc Protocol System

/-- When the step began that the node is in. -/
def NodeRow.stamp (n : NodeRow) : Option ℕ :=
  match n.step with
  | .upgrading => n.upgradeStartedAt
  | .rebooting => n.rebootStartedAt
  | .restoring => n.restoreStartedAt
  | _ => none

def World.stampOf (w : World) (id : ℕ) : Option ℕ := (w.node? id).bind NodeRow.stamp

/-- Statements that write a step together with its stamp. -/
def NodeUpdate.stamps : NodeUpdate → Bool
  | setNodeUpgradeCompleted | setNodeRebootStarted | setNodeRestoreStarted => true
  | _ => false

/-! ## Stamps in the table -/

theorem stamp_set {u : NodeUpdate} (hu : u.stamps = false) {n : NodeRow} {now t : ℕ}
    (hstep : (u.set now n).step = n.step) (h : n.stamp = some t) :
    (u.set now n).stamp = some t := by
  unfold NodeRow.stamp at h ⊢
  rw [hstep]
  cases u with
  | setNodeUpgradeCompleted | setNodeRebootStarted | setNodeRestoreStarted => cases hu
  | setNodeUpgradeStarted =>
    -- what is there is kept
    cases hn : n.step with
    | upgrading =>
      rw [hn] at h
      exact congrArg (fun o => some (o.getD now)) h
    | _ => rw [hn] at h; exact h
  | _ => exact h

theorem stampOf_updateNode {w : World} {u : NodeUpdate} {id id' t : ℕ} {s : NodeStep}
    (hu : u.stamps = true → u.step? = some s → id' ≠ id)
    (hstep : w.stepOf id = some s) (hstep' : (w.updateNode u id').stepOf id = some s)
    (h : w.stampOf id = some t) : (w.updateNode u id').stampOf id = some t := by
  obtain ⟨n, hn, rfl⟩ := Option.map_eq_some_iff.mp hstep
  unfold World.stampOf at h ⊢
  rw [hn] at h
  unfold World.stepOf at hstep'
  rw [node?_updateNode, hn] at hstep' ⊢
  simp only [Option.map_some, Option.bind_some, Option.some.injEq] at h hstep' ⊢
  split_ifs at hstep' ⊢ with hguard
  · refine stamp_set ?_ hstep' h
    -- a statement that writes a step with its stamp writes this one
    rw [id_of_node? hn] at hguard
    refine Bool.eq_false_iff.mpr fun hstamps => hu hstamps ?_ hguard.1.symm
    cases u <;> first | exact congrArg some hstep' | cases hstamps
  · exact h

/-! ## Runs -/

/-- No tick that has listed the node as restoring looks at the clock when the restore is to begin
again. -/
def Timely (id : ℕ) : rolling.Cond := fun log i _ e _ w =>
  match e with
  | .now => !(nodeProtocol.loc i log).asked w.now id
  | _ => true

/-- The node stays in the step; and while it is rebooting, no party is at work that takes it there.
-/
def Staying (id : ℕ) (s : NodeStep) : rolling.Cond := fun log i r e o w =>
  Timely id log i r e o w && w.stepOf id = some s &&
    !(s = .rebooting && ((nodeProtocol.loc i log).knows r id).any fun s' =>
      takesOut r s' .setNodeUpgradeCompleted || takesOut r s' .setNodeRebootStarted)

structure StampInv (id : ℕ) (log : rolling.Log) (w : World) : Prop extends
    Orderly log w where
  /-- A restore is begun by the tick that has taken the node up. -/
  begun : ∀ k, (nodeProtocol.loc k log).ticking = true →
    (nodeProtocol.loc k log).known id = some .healthCheck → w.stepOf id ≠ some .restoring
  timely : ∀ k, (nodeProtocol.loc k log).again id = false

section

variable {log : rolling.Log} {w w' : World} {i id t : ℕ} {r : Role} {e : Stmt} {a : e.Ans}
  {o : e.Outcome} {l : NodeMemory} {s : NodeStep}

theorem tick_of_takesOut (h : takesOut r s .setNodeRestoreStarted = true) :
    r = .tick ∧ s.returning := by
  cases r <;> cases s <;> first | exact ⟨rfl, .inl rfl⟩ | exact ⟨rfl, .inr rfl⟩ | cases h

theorem again_next (h : l.again id = false) (hnow : e = .now → l.asked w.now id = false)
    (hx : exec i e o w = some (a, w')) : (l.next r e a).again id = false := by
  by_cases he : e = .now
  · subst he
    cases hx
    exact Bool.or_eq_false_iff.mpr ⟨h, hnow rfl⟩
  · revert a
    unfold NodeMemory.next
    split <;> intro a _
    any_goals contradiction
    all_goals first | exact h | (cases a <;> first | exact h | skip)
    simp only [NodeMemory.move]
    split <;> exact h

section

variable (hx : exec i e o w = some (a, w'))
include hx

theorem restoring_before (he : e ≠ .db (.updateNode .setNodeRestoreStarted id))
    (h : w'.stepOf id = some .restoring) : w.stepOf id = some .restoring := by
  rcases stepOf_cases hx id with hsame | ⟨t, hwrites, hstep⟩
  · exact hsame ▸ h
  · obtain rfl := Option.some.inj (hstep.symm.trans h)
    cases hwrites with
    | @mk u n hn hu => cases u <;> first | exact absurd rfl he | cases hu

variable (h : StampInv id log w) (hmay : NodeMemory.may r (nodeProtocol.loc i log) e)
include h hmay

theorem StampInv.step (hok : Timely id log i r e o w = true) :
    StampInv id (⟨i, r, e, a, w⟩ :: log) w' := by
  refine ⟨h.toOrderly.step hmay hx, fun k => ?_, ?_⟩
  · by_cases hik : i = k
    · subst hik
      rw [loc_self]
      intro ht hknown hs
      have hopen s (hk : ((nodeProtocol.loc i log).next r e a).known id = some s) :
          s.terminal = false := by
        cases hknown.symm.trans hk
        rfl
      rcases known_cases hx h.ids _ hopen with hk | ⟨-, hsteps, hk⟩
      · cases hknown.symm.trans (hk _ hs)
      · have hbefore : (nodeProtocol.loc i log).known id = some .healthCheck := by
          rcases hk with hk | hk
          · exact hk.symm.trans hknown
          · rcases Option.or_eq_some_iff.mp (hk.symm.trans hknown) with hk | ⟨-, hassigned⟩
            · exact hk
            · unfold Role.assigned at hassigned
              split at hassigned <;> simp at hassigned
        refine h.begun i ?_ hbefore (hsteps ▸ hs)
        by_cases hbegin : e = .beginTick
        · subst hbegin
          rw [hmay (h.even i)] at hbefore
          cases hbefore
        · by_cases hend : e = .endTick
          · subst hend
            cases ht
          · exact (ticking_next hbegin hend a).symm.trans ht
    · rw [loc_ne hik]
      refine fun ht hknown hs => h.begun k ht hknown (restoring_before hx ?_ hs)
      -- only one party ticks
      rintro rfl
      obtain ⟨htick, -, s', -, hout, -⟩ := hmay.1 rfl (h.even i)
      have hlead := h.leader i (htick (tick_of_takesOut hout).1)
      rw [h.leader k ht] at hlead
      exact hik (Option.some.inj hlead).symm
  · refine forall_loc (T := nodeProtocol) (p := fun _ l => l.again id = false)
      (again_next (h.timely i) ?_ hx) fun k _ => h.timely k
    rintro rfl
    simpa [Timely] using hok

theorem StampInv.stamp_step (hok : Staying id s log i r e o w = true)
    (hstep' : w'.stepOf id = some s) (hstamp : w.stampOf id = some t) :
    w'.stampOf id = some t := by
  obtain ⟨hok, hnobody⟩ := Bool.and_eq_true_iff.mp hok
  have hstep : w.stepOf id = some s := of_decide_eq_true (Bool.and_eq_true_iff.mp hok).2
  by_cases hnode : ∃ u id', e = .db (.updateNode u id')
  · obtain ⟨u, id', rfl⟩ := hnode
    cases o with
    | some err => cases hx; exact hstamp
    | none =>
      cases hx
      refine stampOf_updateNode (fun hstamps hu hid => ?_) hstep hstep' hstamp
      subst hid
      have hmoves : u.moves = true := by cases u <;> first | rfl | cases hstamps
      obtain ⟨htick, -, s', hknows, hout, hagain⟩ := hmay.1 hmoves (h.even i)
      cases u with
      | setNodeRestoreStarted =>
        cases hu
        obtain ⟨rfl, hs' | hs'⟩ := tick_of_takesOut hout
        · have hknown : (nodeProtocol.loc i log).known id' = some .healthCheck := by
            simpa [NodeMemory.knows, Role.assigned, hs'] using hknows
          exact h.begun i (htick rfl) hknown hstep
        · cases (h.timely i).symm.trans (hagain hs' rfl (h.even i))
      | setNodeUpgradeCompleted | setNodeRebootStarted =>
        cases hu
        simp [hknows, hout] at hnobody
      | _ => cases hstamps
  · unfold World.stampOf World.node?
    rwa [nodes_of_exec hx fun u id' he => hnode ⟨u, id', he⟩]

end

end

/-- **A stamp keeps its first value** while the node is in the step, if no tick finds by the clock
that the node's restore is to begin again. -/
theorem stamp_kept {w : World} (hids : (w.nodes.map (·.id)).Nodup) {c c' : rolling.Pool} {id t : ℕ}
    {s : NodeStep} (hc : rolling.Reach (Timely id) (Pool.idle w) c)
    (hc' : rolling.Reach (Staying id s) c c') (hstep : c'.shared.stepOf id = some s)
    (h : c.shared.stampOf id = some t) : c'.shared.stampOf id = some t := by
  have hinv : ∀ {d : rolling.Pool}, rolling.Reach (Timely id) (Pool.idle w) d →
      StampInv id d.log d.shared := by
    refine invariant nodes_followed ⟨.init hids, nofun, fun _ => rfl⟩ ?_
    exact fun h hok hmay hx => h.step hx hmay hok
  induction hc' with
  | init => exact h
  | start _ _ ih => exact ih hstep
  | @step d i r e k o a w' hd ht hok hx ih =>
    have hd := hc.trans (hd.mono fun h => (Bool.and_eq_true_iff.mp (Bool.and_eq_true_iff.mp h).1).1)
    have hbefore : d.shared.stepOf id = some s :=
      of_decide_eq_true (Bool.and_eq_true_iff.mp (Bool.and_eq_true_iff.mp hok).1).2
    exact (hinv hd).stamp_step hx ((holds_of_reach nodes_followed hd).threads i r _ ht).1 hok hstep
      (ih hbefore)

/-- A node whose guests are being restored. -/
def restoringJob (now : ℕ) : World where
  now := now
  job := { status := .running }
  nodes := [{ id := 0, nodeName := "pve1", step := .restoring, restoreStartedAt := some 0,
              guestsJson := [⟨100, "web", .qemu, "running", false⟩] }]

/-- A minute on, a tick leaves the node alone. -/
theorem stamp_kept_minute : ((restoringJob 60).nodes.map (·.id)).Nodup ∧
    ∃ c', rolling.Reach (Staying 0 .restoring) (Pool.idle (restoringJob 60)) c' ∧
      c'.log.length = 13 ∧ c'.shared.stampOf 0 = some 0 := by
  have hids : ((restoringJob 60).nodes.map (·.id)).Nodup := by decide
  obtain ⟨c', hc', hlog, hstep⟩ := exists_reach (Staying 0 .restoring) (restoringJob 60)
    ([.start .tick] ++ steps 0 13 (calm [] []))
    (fun c' => c'.log.length = 13 ∧ c'.shared.stepOf 0 = some .restoring) (by decide +kernel)
  exact ⟨hids, c', hc', hlog, stamp_kept hids .init hc' hstep rfl⟩

def InStep (id : ℕ) (s : NodeStep) : rolling.Cond := fun _ _ _ _ _ w => w.stepOf id = some s

/-- The end of the restore cannot be recorded. -/
def unrecordedEnd : rolling.Oracle
  | .db (.updateNode .setNodeRestoreCompleted _) => some { text := "connection reset" }
  | e => calm [] [] e

/-- **A restore begins again.** Three minutes on, a tick restores the guests once more, and the step
seems to have just begun. -/
theorem restore_restamped : ∃ c', rolling.Reach (InStep 0 .restoring)
      (Pool.idle (restoringJob 180)) c' ∧ (restoringJob 180).stampOf 0 = some 0 ∧
        c'.shared.stepOf 0 = some .restoring ∧ c'.shared.stampOf 0 = some 180 ∧ c'.quiet = true :=
  exists_reach _ _ ([.start .tick] ++ steps 0 16 unrecordedEnd) _ (by decide +kernel)

end Nexara.Rolling
