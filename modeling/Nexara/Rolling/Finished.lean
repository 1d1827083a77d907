import Nexara.Rolling.NodeTable

/-!
# Finished nodes

A node that is completed, failed or skipped is meant to stay so. Only the statements that fail or
skip a node look at its step; the others write theirs whatever the node has become meanwhile
(`finished_moves`). `StepCond` asks that no party does that to a node it took up before another one
ended it.
-/

namespace Nexara.Rolling

open Conc Protocol System

/-! ## Conditions on runs -/

def ends (id : ℕ) : rolling.Entry → Bool
  | ⟨_, _, .db (.updateNode u id'), .ok k, _⟩ =>
    decide (id' = id) && k ≠ (0 : ℕ) && u.step?.any NodeStep.terminal
  | _ => false

/-- Another party has ended the node since party `i` took it up. -/
def stale (i id : ℕ) : rolling.Log → Bool
  | [] => false
  | en :: log =>
    if en.party = i then
      !takesUp en.role (nodeProtocol.loc i log) id en.stmt en.ans && stale i id log
    else ends id en || stale i id log

/-- No step is written blindly by a party that took the node up before another one ended it. -/
def StepCond : rolling.Cond := fun log i _ e o _ =>
  match e, o with
  | .db (.updateNode u id), none => !(u.unguarded && stale i id log)
  | _, _ => true

/-- As far as the party knows, the node is not finished. -/
def NodeMemory.opens (l : NodeMemory) (id : ℕ) : Prop :=
  ∀ s, l.known id = some s → s.terminal = false

structure StepInv (log : rolling.Log) (w : World) : Prop extends Orderly log w where
  /-- What a party takes for unfinished is, unless another has ended it meanwhile. -/
  opens : ∀ i id, (nodeProtocol.loc i log).opens id → stale i id log = false →
    ∀ s, w.stepOf id = some s → s.terminal = false

section

variable {log : rolling.Log} {w w' : World} {i : ℕ} {r : Role} {e : Stmt} {a : e.Ans}

/-! ## The invariant -/

theorem stale_self (id : ℕ) : stale i id (⟨i, r, e, a, w⟩ :: log) =
    (!takesUp r (nodeProtocol.loc i log) id e a && stale i id log) := if_pos rfl

theorem stale_ne {k : ℕ} (h : i ≠ k) (id : ℕ) : stale k id (⟨i, r, e, a, w⟩ :: log) =
    (ends id ⟨i, r, e, a, w⟩ || stale k id log) := if_neg h

variable {o : e.Outcome} (h : StepInv log w) (hmay : NodeMemory.may r (nodeProtocol.loc i log) e)
  (hx : exec i e o w = some (a, w'))
include h hmay hx

theorem StepInv.step : StepInv (⟨i, r, e, a, w⟩ :: log) w' := by
  refine ⟨h.toOrderly.step hmay hx, fun k id hopen hstale s hs => ?_⟩
  by_cases hik : i = k
  · subst hik
    rw [loc_self] at hopen
    rw [stale_self] at hstale
    rcases known_cases hx h.ids _ hopen with hk | ⟨htakes, hsteps, hk⟩
    · exact hopen s (hk s hs)
    · rw [htakes, Bool.not_false] at hstale
      refine h.opens i id (fun t ht => hopen t ?_) hstale s (hsteps ▸ hs)
      rcases hk with hk | hk
      · exact hk.trans ht
      · rw [hk, NodeMemory.knows, ht]
        rfl
  · rw [loc_ne hik] at hopen
    rw [stale_ne hik] at hstale
    obtain ⟨hends, hstale⟩ := Bool.or_eq_false_iff.mp hstale
    rcases stepOf_cases hx id with hsame | ⟨t, hwrites, hstep⟩
    · exact h.opens k id hopen hstale s (hsame ▸ hs)
    · -- what another party has written is no final step
      obtain rfl := Option.some.inj (hstep.symm.trans hs)
      cases hwrites with
      | @mk u n hn hu hguard =>
        have hcount : (w.nodes.countP fun n => n.id = id && u.guard n) ≠ 0 := by
          refine Nat.ne_of_gt (List.countP_pos_iff.mpr ⟨n, List.mem_of_find?_eq_some hn, ?_⟩)
          rw [hguard, decide_eq_true (id_of_node? hn)]
          rfl
        replace hends : (decide (id = id) && decide (_ ≠ 0) && u.step?.any _) = false := hends
        rw [decide_eq_true rfl, decide_eq_true hcount, hu] at hends
        exact hends

theorem StepInv.finished {s : NodeStep} (hok : StepCond log i r e o w = true) {id : ℕ}
    (hs : s.terminal = true) (hstep : w.stepOf id = some s) : w'.stepOf id = some s := by
  rcases stepOf_cases hx id with hsame | ⟨t, hwrites, -⟩
  · exact hsame.trans hstep
  cases hwrites with
  | @mk u n hn hu hguard =>
    exfalso
    obtain rfl := Option.some.inj ((stepOf_of_node? hn).symm.trans hstep)
    cases hun : u.unguarded with
    | true =>
      -- the writer takes the node out of a step it knows, which is not final
      obtain ⟨-, -, t, hknows, hout, -⟩ := hmay.1 (Bool.and_eq_true_iff.mp hun).1 (h.even i)
      have hstale : stale i id log = false := by
        cases o with
        | some err => cases hx
        | none => simpa [StepCond, hun] using hok
      have hopen : (nodeProtocol.loc i log).opens id := by
        intro t' ht'
        rw [NodeMemory.knows, ht'] at hknows
        cases hknows
        exact takesOut_not_terminal hout
      cases (h.opens i id hopen hstale n.step hstep).symm.trans hs
    | false =>
      cases u with
      | failRollingUpdateNode reason => simp [NodeUpdate.guard, hs] at hguard
      | skipRollingUpdateNode =>
        rw [show n.step = .pending from of_decide_eq_true hguard] at hs
        cases hs
      | _ => first | (cases hun; done) | cases hu

end

/-- **Finished nodes stay finished.** In a job none of whose nodes is finished, if steps satisfy
`StepCond`, a node that has become completed, failed or skipped keeps that step ever after. -/
theorem finished_stays {w : World} (hids : (w.nodes.map (·.id)).Nodup)
    (hstart : ∀ n ∈ w.nodes, n.step.terminal = false) {c c' : rolling.Pool}
    (hc : rolling.Reach StepCond (Pool.idle w) c) (hc' : rolling.Reach StepCond c c')
    {id : ℕ} {s : NodeStep} (hs : s.terminal = true) (hstep : c.shared.stepOf id = some s) :
    c'.shared.stepOf id = some s := by
  have hinit : StepInv [] w := by
    refine ⟨.init hids, fun _ id _ _ s hs => ?_⟩
    obtain ⟨n, hn, rfl⟩ := Option.map_eq_some_iff.mp hs
    exact hstart n (List.mem_of_find?_eq_some hn)
  have hinv : ∀ {c : rolling.Pool}, rolling.Reach StepCond (Pool.idle w) c →
      StepInv c.log c.shared := fun hc =>
    invariant nodes_followed hinit (fun h _ hmay hx => h.step hmay hx) hc
  exact remains nodes_followed (P := fun _ w => w.stepOf id = some s) hinv
    (fun h _ hok hmay hx hP => h.finished hmay hx hok hs hP) hc hc' hstep

/-! ## Two runs -/

def oneNodeJob : World where
  job := { status := .running }
  nodes := [{ id := 0, nodeName := "pve1" }]

/-- The node is skipped before the tick looks for one to start. -/
theorem finished_stays_skipped :
    (oneNodeJob.nodes.map (·.id)).Nodup ∧ (∀ n ∈ oneNodeJob.nodes, n.step.terminal = false) ∧
      ∃ c c', rolling.Reach StepCond (Pool.idle oneNodeJob) c ∧
        rolling.Reach StepCond c c' ∧ c.shared.stepOf 0 = some .skipped ∧
        c'.shared.job.status = .completed ∧ c'.shared.stepOf 0 = some .skipped := by
  have hids : (oneNodeJob.nodes.map (·.id)).Nodup := by decide
  have hstart : ∀ n ∈ oneNodeJob.nodes, n.step.terminal = false := by decide
  obtain ⟨c, c', hc, hc', hskipped, hdone⟩ := exists_reach_reach StepCond oneNodeJob
    ([.start .tick] ++ steps 0 5 (calm [] []) ++ [.start (.skipNode 0)] ++ steps 1 4 (calm [] []))
    (steps 0 5 (calm [] []))
    (fun c c' => c.shared.stepOf 0 = some .skipped ∧ c'.shared.job.status = .completed)
    (by decide +kernel)
  exact ⟨hids, hstart, c, c', hc, hc', hskipped, hdone,
    finished_stays hids hstart hc hc' rfl hskipped⟩

/-- **A skipped node is drained.** The tick has taken the node up as pending when an administrator
skips it, and then marks it as draining. -/
theorem finished_moves :
    ∃ c c', rolling.Reach Cond.any (Pool.idle oneNodeJob) c ∧
      rolling.Reach Cond.any c c' ∧ c.shared.stepOf 0 = some .skipped ∧
      c'.shared.stepOf 0 = some .draining :=
  exists_reach_reach _ _
    ([.start .tick] ++ steps 0 8 (calm [] []) ++ [.start (.skipNode 0)] ++ steps 1 4 (calm [] []))
    (steps 0 11 (calm [] [])) _ (by decide +kernel)

end Nexara.Rolling
