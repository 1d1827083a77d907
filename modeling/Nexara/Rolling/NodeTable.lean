import Nexara.Rolling.NodeSteps

/-!
# The nodes in the table, and what is known of them

A party that takes a node up learns the step the table has then (`known_next`); a table with
distinct ids gives no answer that a party could not make sense of (`even_next`); and only updates of
nodes change their steps (`stepOf_of_exec`).
-/

namespace Nexara.Rolling

open Conc Protocol

/-! ## The step of a node in the table -/

def World.stepOf (w : World) (id : ℕ) : Option NodeStep := (w.node? id).map (·.step)

theorem node?_updateNode (w : World) (u : NodeUpdate) (id id' : ℕ) :
    (w.updateNode u id).node? id' =
      (w.node? id').map fun n => if n.id = id ∧ u.guard n then u.set w.now n else n := by
  unfold World.node? World.updateNode
  rw [List.find?_map]
  congr 2
  funext n
  show decide ((if _ then _ else _ : NodeRow).id = id') = decide (n.id = id')
  split_ifs
  · rw [NodeUpdate.set_id]
  · rfl

theorem id_of_node? {w : World} {id : ℕ} {n : NodeRow} (h : w.node? id = some n) : n.id = id := by
  simpa using List.find?_some h

theorem stepOf_of_node? {w : World} {id : ℕ} {n : NodeRow} (h : w.node? id = some n) :
    w.stepOf id = some n.step := congrArg (Option.map NodeRow.step) h

theorem stepOf_updateNode_ne {w : World} {u : NodeUpdate} {id id' : ℕ} (h : id' ≠ id) :
    (w.updateNode u id).stepOf id' = w.stepOf id' := by
  unfold World.stepOf
  rw [node?_updateNode]
  cases hn : w.node? id' with
  | none => rfl
  | some n =>
    have hid : ¬(n.id = id ∧ u.guard n = true) := fun hg => h ((id_of_node? hn).symm.trans hg.1)
    show some (if _ then _ else _ : NodeRow).step = some n.step
    rw [if_neg hid]

theorem stepOf_updateNode {w : World} {u : NodeUpdate} {id : ℕ} {n : NodeRow}
    (hn : w.node? id = some n) :
    (w.updateNode u id).stepOf id = some (if u.guard n then u.step?.getD n.step else n.step) := by
  unfold World.stepOf
  rw [node?_updateNode, hn]
  show some (if _ then _ else _ : NodeRow).step = _
  by_cases hg : u.guard n = true
  · rw [if_pos ⟨id_of_node? hn, hg⟩, if_pos hg, NodeUpdate.set_step]
  · rw [if_neg fun h => hg h.2, if_neg hg]

/-! ## Taking a node up -/

/-- The answer gives the party the row of the node it works from. -/
def takesUp (r : Role) (l : NodeMemory) (id : ℕ) : (e : Stmt) → e.Ans → Bool
  | .db .listRollingUpdateNodes => fun a => match a with
    | .ok (rows : List NodeRow) => (l.knows r id).isNone && rows.any (·.id = id)
    | .error _ => false
  | .db (.getRollingUpdateNode id') => fun a => match a with
    | .ok _ => (l.knows r id).isNone && decide (id' = id)
    | .error _ => false
  | .db .getNextPendingNode => fun a => match a with
    | .ok (row : NodeRow) => decide (row.id = id)
    | .error _ => false
  | _ => fun _ => false

section

variable {w w' : World} {i : ℕ} {r : Role} {e : Stmt} {a : e.Ans}

theorem ids_updateNode (u : NodeUpdate) (id : ℕ) :
    (w.updateNode u id).nodes.map (·.id) = w.nodes.map (·.id) := by
  show (w.nodes.map _).map _ = _
  rw [List.map_map]
  congr 1
  funext n
  show (if _ then _ else _ : NodeRow).id = n.id
  split_ifs
  · rw [NodeUpdate.set_id]
  · rfl

theorem stepOf_of_nodup (hids : (w.nodes.map (·.id)).Nodup) {n : NodeRow} (hn : n ∈ w.nodes) :
    w.stepOf n.id = some n.step := by
  unfold World.stepOf World.node?
  rw [find?_of_nodup hids hn]
  rfl

variable {o : e.Outcome} {u : NodeUpdate}

/-- After a statement that does not write the node: the table's step, if the party takes the node
up, and else what it knew. -/
def NodeMemory.Learns (l : NodeMemory) (r : Role) (w : World) (id : ℕ) (up : Bool)
    (known : Option NodeStep) : Prop :=
  up = true ∧ known = w.stepOf id ∨ up = false ∧ (known = l.known id ∨ known = l.knows r id)

theorem known_next (hids : (w.nodes.map (·.id)).Nodup)
    (hx : exec i e o w = some (a, w')) (hnot : ∀ u id, e ≠ .db (.updateNode u id))
    (l : NodeMemory) (id : ℕ) : l.Learns r w id (takesUp r l id e a) ((l.next r e a).known id) := by
  have hsame : ∀ {known : ℕ → Option NodeStep} {x : ℕ} {s : Option NodeStep}, x ≠ id →
      Function.update known x s id = known id := fun h => Function.update_of_ne (Ne.symm h) ..
  cases e with
  | db d =>
    cases d with
    | updateNode u id => exact absurd rfl (hnot u id)
    | listRollingUpdateNodes =>
      cases o with
      | some err => cases hx; exact .inr ⟨rfl, .inl rfl⟩
      | none =>
        cases hx
        show l.Learns r w id ((l.knows r id).isNone && w.nodes.any _) ((l.knows r id).or (w.stepOf id))
        cases hknows : l.knows r id with
        | some s => exact .inr ⟨rfl, .inr hknows.symm⟩
        | none =>
          cases hany : w.nodes.any (·.id = id) with
          | true => exact .inl ⟨rfl, rfl⟩
          | false =>
            refine .inr ⟨rfl, .inr (Eq.trans ?_ hknows.symm)⟩
            have hnone : w.node? id = none :=
              List.find?_eq_none.mpr fun n hn => List.any_eq_false.mp hany n hn
            unfold World.stepOf
            rw [hnone]
            rfl
    | getRollingUpdateNode id' =>
      cases o with
      | some err => cases hx; exact .inr ⟨rfl, .inl rfl⟩
      | none =>
        cases hx
        cases hrow : w.node? id' with
        | none => exact .inr ⟨rfl, .inl rfl⟩
        | some row =>
          show l.Learns r w id ((l.knows r id).isNone && decide (id' = id))
            (Function.update l.known id' ((l.knows r id').or (some row.step)) id)
          by_cases hid : id' = id
          · subst hid
            rw [decide_eq_true rfl, Function.update_self]
            cases hknows : l.knows r id' with
            | some s => exact .inr ⟨rfl, .inr hknows.symm⟩
            | none => exact .inl ⟨rfl, (stepOf_of_node? hrow).symm⟩
          · rw [decide_eq_false hid, Bool.and_false]
            exact .inr ⟨rfl, .inl (hsame hid)⟩
    | getNextPendingNode =>
      cases o with
      | some err => cases hx; exact .inr ⟨rfl, .inl rfl⟩
      | none =>
        cases hx
        cases hrow : w.nodes.find? (·.step = .pending) with
        | none => exact .inr ⟨rfl, .inl rfl⟩
        | some row =>
          show l.Learns r w id (decide (row.id = id)) (Function.update l.known row.id (some row.step) id)
          by_cases hid : row.id = id
          · subst hid
            rw [Function.update_self]
            exact .inl ⟨decide_eq_true rfl, (stepOf_of_nodup hids (List.mem_of_find?_eq_some hrow)).symm⟩
          · rw [decide_eq_false hid]
            exact .inr ⟨rfl, .inl (hsame hid)⟩
    | listRunningRollingUpdateJobs =>
      cases a with
      | error err | ok jobs => exact .inr ⟨rfl, .inl rfl⟩
    | _ => exact .inr ⟨rfl, .inl rfl⟩
  | px p => cases p <;> exact .inr ⟨rfl, .inl rfl⟩
  | _ => exact .inr ⟨rfl, .inl rfl⟩

theorem even_next (hids : (w.nodes.map (·.id)).Nodup)
    (hx : exec i e o w = some (a, w')) {l : NodeMemory} (h : l.odd = false) :
    (l.next r e a).odd = false := by
  cases e with
  | db d =>
    cases o with
    | some err => cases hx; cases d <;> exact h
    | none =>
      cases d with
      | listRunningRollingUpdateJobs =>
        cases hx
        show (l.odd || decide (1 < (if w.job.status = .running then [w.job] else []).length)) = false
        rw [h]
        split_ifs <;> rfl
      | listRollingUpdateNodes =>
        cases hx
        show (l.odd || !decide (w.nodes.map (·.id)).Nodup) = false
        rw [h, decide_eq_true hids]
        rfl
      | getRollingUpdateNode id =>
        cases hx
        cases hrow : w.node? id with
        | none => exact h
        | some row =>
          show (l.odd || decide (row.id ≠ id)) = false
          rw [h, decide_eq_false (not_not.mpr (id_of_node? hrow))]
          rfl
      | getNextPendingNode =>
        cases hx
        cases hrow : w.nodes.find? (·.step = .pending) with
        | none => exact h
        | some row =>
          have hstep : row.step = .pending := by simpa using List.find?_some hrow
          show (l.odd || decide (row.step ≠ .pending)) = false
          rw [h, decide_eq_false (not_not.mpr hstep)]
          rfl
      | updateNode u id =>
        cases hx
        show (l.move u id).odd = false
        unfold NodeMemory.move
        split <;> exact h
      | _ => cases hx; exact h
  | px p =>
    cases p with
    | _ => exact h
  | _ => exact h

theorem nodes_updateJob (u : JobUpdate) : (w.updateJob u).nodes = w.nodes := by
  unfold World.updateJob
  split_ifs <;> rfl

section

variable (hx : exec i e o w = some (a, w'))

include hx

theorem nodes_of_exec (hnot : ∀ u id, e ≠ .db (.updateNode u id)) : w'.nodes = w.nodes := by
  cases exec_effect hx with
  | node u id => exact absurd rfl (hnot u id)
  | job u => exact nodes_updateJob u
  | _ => rfl

theorem stepOf_of_exec (hnot : ∀ u id, e ≠ .db (.updateNode u id)) (id : ℕ) :
    w'.stepOf id = w.stepOf id := by
  unfold World.stepOf World.node?
  rw [nodes_of_exec hx hnot]

theorem ids_of_exec : w'.nodes.map (·.id) = w.nodes.map (·.id) := by
  cases exec_effect hx with
  | node u id => exact ids_updateNode u id
  | job u => rw [nodes_updateJob]
  | _ => rfl

end

theorem stepOf_updateNode_same {id id' : ℕ} (h : u.step? = none ∨ id ≠ id') :
    (w.updateNode u id').stepOf id = w.stepOf id := by
  by_cases hid : id = id'
  · subst hid
    have hu : u.step? = none := h.resolve_right fun h => h rfl
    cases hn : w.node? id with
    | none =>
      unfold World.stepOf
      rw [node?_updateNode, hn]
      rfl
    | some n =>
      rw [stepOf_updateNode hn, stepOf_of_node? hn, hu]
      split_ifs <;> rfl
  · exact stepOf_updateNode_ne hid

theorem guard_of_step {t : NodeStep} (hu : u.step? = some t)
    (ht : t.terminal = false) (n : NodeRow) : u.guard n = true := by
  cases u with
  | failRollingUpdateNode reason | skipRollingUpdateNode => cases hu; cases ht
  | confirmNodeUpgrade => cases hu
  | _ => rfl

theorem known_move_same {id id' : ℕ} (h : u.step? = none ∨ id ≠ id')
    (l : NodeMemory) : (l.move u id').known id = l.known id := by
  unfold NodeMemory.move
  split
  · next t hu =>
    refine Function.update_of_ne (h.resolve_left ?_) ..
    rw [hu]
    exact Option.some_ne_none t
  · rfl

theorem known_move_self {id : ℕ} {t : NodeStep} (hu : u.step? = some t)
    (l : NodeMemory) : (l.move u id).known id = some t := by
  unfold NodeMemory.move
  rw [hu]
  exact Function.update_self ..

/-! ## One step of a party -/

/-- The statement writes the step `t` to the node. -/
inductive Writes (w : World) (id : ℕ) (t : NodeStep) : (e : Stmt) → e.Ans → Prop
  | mk {u : NodeUpdate} {n : NodeRow} (hn : w.node? id = some n) (hu : u.step? = some t)
      (hguard : u.guard n = true) : Writes w id t (.db (.updateNode u id))
        (.ok (w.nodes.countP fun n => n.id = id && u.guard n))

section

variable (hx : exec i e o w = some (a, w'))
include hx

theorem stepOf_cases (id : ℕ) :
    w'.stepOf id = w.stepOf id ∨ ∃ t, Writes w id t e a ∧ w'.stepOf id = some t := by
  by_cases hnode : ∃ u id', e = .db (.updateNode u id')
  swap
  · exact .inl (stepOf_of_exec hx (fun u id' he => hnode ⟨u, id', he⟩) id)
  obtain ⟨u, id', rfl⟩ := hnode
  cases o with
  | some err => cases hx; exact .inl rfl
  | none =>
    cases hx
    by_cases hsame : u.step? = none ∨ id ≠ id'
    · exact .inl (stepOf_updateNode_same hsame)
    · obtain ⟨hsome, hid⟩ := not_or.mp hsame
      obtain rfl := not_not.mp hid
      obtain ⟨t, hu⟩ := Option.ne_none_iff_exists'.mp hsome
      cases hn : w.node? id with
      | none => simp [World.stepOf, node?_updateNode, hn]
      | some n =>
        rw [stepOf_updateNode hn, hu]
        split_ifs with hguard
        · exact .inr ⟨t, ⟨hn, hu, hguard⟩, rfl⟩
        · exact .inl (stepOf_of_node? hn).symm

/-- What a party takes for unfinished after its step is what the table has, or what it knew, and the
table has not changed. -/
theorem known_cases (hids : (w.nodes.map (·.id)).Nodup) (l : NodeMemory) {id : ℕ}
    (hopen : ∀ s, (l.next r e a).known id = some s → s.terminal = false) :
    (∀ s, w'.stepOf id = some s → (l.next r e a).known id = some s) ∨
    takesUp r l id e a = false ∧ w'.stepOf id = w.stepOf id ∧
      ((l.next r e a).known id = l.known id ∨ (l.next r e a).known id = l.knows r id) := by
  by_cases hnode : ∃ u id', e = .db (.updateNode u id')
  · obtain ⟨u, id', rfl⟩ := hnode
    cases o with
    | some err => cases hx; exact .inr ⟨rfl, rfl, .inl rfl⟩
    | none =>
      cases hx
      by_cases hsame : u.step? = none ∨ id ≠ id'
      · exact .inr ⟨rfl, stepOf_updateNode_same hsame, .inl (known_move_same hsame l)⟩
      · obtain ⟨hsome, hid⟩ := not_or.mp hsame
        obtain rfl := not_not.mp hid
        obtain ⟨t, hu⟩ := Option.ne_none_iff_exists'.mp hsome
        have hknown : (l.move u id).known id = some t := known_move_self hu l
        refine .inl fun s hs => hknown.trans ?_
        cases hn : w.node? id with
        | none => simp [World.stepOf, node?_updateNode, hn] at hs
        | some n =>
          rwa [stepOf_updateNode hn, hu, if_pos (guard_of_step hu (hopen t hknown) n)] at hs
  · have hnot : ∀ u id', e ≠ .db (.updateNode u id') := fun u id' he => hnode ⟨u, id', he⟩
    have hsteps := stepOf_of_exec hx hnot id
    rcases known_next hids hx hnot l id with ⟨-, hk⟩ | ⟨ht, hk⟩
    · exact .inl fun s hs => hk.trans (hsteps.symm.trans hs)
    · exact .inr ⟨ht, hsteps, hk⟩

end

/-! ## The leader -/

theorem leader_of_exec (hx : exec i e o w = some (a, w')) (hbegin : e ≠ .beginTick)
    (hend : e ≠ .endTick) : w'.leader = w.leader := by
  cases exec_effect hx with
  | job u =>
    unfold World.updateJob
    split_ifs <;> rfl
  | beginTick h => exact absurd rfl hbegin
  | endTick => exact absurd rfl hend
  | _ => rfl

theorem move_same (l : NodeMemory) (u : NodeUpdate) (id : ℕ) :
    (l.move u id).ticking = l.ticking ∧ (l.move u id).claim = l.claim ∧
      (l.move u id).rebooted = l.rebooted ∧ (l.move u id).odd = l.odd := by
  unfold NodeMemory.move
  split <;> exact ⟨rfl, rfl, rfl, rfl⟩

theorem ticking_next {l : NodeMemory} (hbegin : e ≠ .beginTick) (hend : e ≠ .endTick) :
    ∀ a, (l.next r e a).ticking = l.ticking := by
  unfold NodeMemory.next
  split <;> intro a
  any_goals contradiction
  all_goals first | rfl | (cases a <;> first | rfl | exact (move_same ..).1)

/-- Ids are distinct, nobody was told what makes no sense, and it is the leader who ticks. -/
structure Orderly (log : rolling.Log) (w : World) : Prop where
  ids : (w.nodes.map (·.id)).Nodup
  even : ∀ k, (nodeProtocol.loc k log).odd = false
  leader : ∀ k, (nodeProtocol.loc k log).ticking = true → w.leader = some k

theorem Orderly.init (hids : (w.nodes.map (·.id)).Nodup) : Orderly [] w :=
  ⟨hids, fun _ => rfl, nofun⟩

theorem Orderly.step {log : rolling.Log} (h : Orderly log w)
    (hmay : NodeMemory.may r (nodeProtocol.loc i log) e) (hx : exec i e o w = some (a, w')) :
    Orderly (⟨i, r, e, a, w⟩ :: log) w' := by
  refine ⟨ids_of_exec hx ▸ h.ids, ?_, ?_⟩
  · exact forall_loc (T := nodeProtocol) (p := fun _ l => l.odd = false)
      (even_next h.ids hx (h.even i)) fun k _ => h.even k
  · by_cases hbegin : e = .beginTick
    · subst hbegin
      replace hx : (if w.leader = none then some ((), { w with leader := some i }) else none) =
        some (a, w') := hx
      split_ifs at hx with hfree
      cases hx
      refine forall_loc (T := nodeProtocol) (p := fun k l => l.ticking = true → some i = some k)
        (fun _ => rfl) fun k _ ht => ?_
      rw [h.leader k ht] at hfree
      cases hfree
    · by_cases hend : e = .endTick
      · subst hend
        cases hx
        refine forall_loc (T := nodeProtocol) (p := fun k l => l.ticking = true → none = some k)
          nofun fun k hk ht => ?_
        -- nobody else can be the leader
        have hlead := h.leader i (hmay (h.even i))
        rw [h.leader k ht] at hlead
        exact absurd (Option.some.inj hlead) hk
      · rw [leader_of_exec hx hbegin hend]
        refine forall_loc (T := nodeProtocol) (p := fun k l => l.ticking = true → w.leader = some k)
          (fun ht => h.leader i ?_) fun k _ => h.leader k
        exact (ticking_next hbegin hend a).symm.trans ht

end

end Nexara.Rolling
