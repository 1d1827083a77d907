import Nexara.Rolling.Parts

/-!
# What the tick does with a node

The tick takes a node up in some step, moves it on or fails it, and is then done with it. `Walk n T`
lists what has to be shown of a reading `T` of triples, between the stages of that work, for the
functions that the tick puts together to advance node `n` or to start it; the theorems under `Walk`
then give their triples. A property `P` of code without stages is the reading that ignores them
(`Parts.walk`).
-/

namespace Nexara.Rolling

open Conc Proxmox

/-! ## The steps of a node -/

/-- The statements that make a node ready to be upgraded. -/
def NodeUpdate.readies : NodeUpdate → Bool
  | setNodeDrainCompletedManual | setNodeDrainCompletedAuto
  | setNodeInPlaceUpgradeManual | setNodeInPlaceUpgradeAuto => true
  | _ => false

def NodeUpdate.fails : NodeUpdate → Bool
  | failRollingUpdateNode _ => true
  | _ => false

/-- The statement writes a step, other than the one that skips a pending node. -/
def NodeUpdate.moves : NodeUpdate → Bool
  | skipRollingUpdateNode => false
  | u => u.step?.isSome

/-- The statement writes a step, whatever step the node is in. -/
def NodeUpdate.unguarded (u : NodeUpdate) : Bool := u.moves && !u.fails

/-- The steps in which a party deals with a node. -/
def owns : Role → NodeStep → Bool
  | .tick, .pending | .tick, .draining | .tick, .upgrading | .tick, .rebooting
  | .tick, .healthCheck | .tick, .restoring => true
  | .sshUpgrade _ _ _, .upgrading | .sshUpgrade _ _ _, .rebooting => true
  | .confirmUpgrade _, .awaitingUpgrade | .confirmUpgrade _, .rebooting => true
  | _, _ => false

/-- How a party takes a node on its way out of a step. -/
def leads (r : Role) (s : NodeStep) (u : NodeUpdate) : Bool :=
  match r, s with
  | .tick, .pending =>
    u = .skipRollingUpdateNodeAny || u = .setNodeDrainStarted || u.readies
  | .tick, .draining => u.readies
  | .tick, .rebooting => u = .setNodeHealthCheckPassed
  | .tick, .healthCheck | .tick, .restoring =>
    u = .setNodeRestoreStarted || u = .setNodeRestoreCompleted
  | .sshUpgrade _ _ _, .upgrading =>
    u = .setNodeUpgradeCompleted || u = .setNodeUpgradeCompletedNoReboot ||
      u = .setNodeUpgradeCompletedRebootPending
  | .confirmUpgrade _, .awaitingUpgrade =>
    u = .setNodeRebootStarted || u = .setNodeHealthCheckPassed ||
      u = .setNodeUpgradeCompletedRebootPending
  | _, _ => false

/-- Who takes a node out of a step, and by which statement: on its way, or by failing it. -/
def takesOut (r : Role) (s : NodeStep) (u : NodeUpdate) : Bool :=
  if u.fails then owns r s else leads r s u

/-- The steps in which guests are brought back. -/
def NodeStep.returning (s : NodeStep) : Prop := s = .healthCheck ∨ s = .restoring

/-- `advanceRestoring` begins the restore again: it has time left, but was not heard of for two
minutes. -/
def begunAgain (job : JobRow) (row : NodeRow) (now : ℕ) : Bool :=
  job.autoRestoreGuests && !row.guestsJson.isEmpty && !expired now (30 * 60) row.restoreStartedAt &&
    decide (2 * 60 ≤ now - row.updatedAt)

/-- Statements after which the tick is done with a node. -/
def NodeUpdate.leaves : NodeUpdate → Bool
  | skipRollingUpdateNodeAny | setNodeHealthCheckPassed | setNodeRestoreCompleted => true
  | u => u.readies

/-! ## Stages -/

/-- The tick works on the node, which it takes to be in one of these steps, or is to begin its restore
again, or is done with it. -/
inductive Stage where
  | working (S : NodeStep → Prop)
  | again
  | free

/-- The second stage asks no more than the first. -/
def Stage.Le : Stage → Stage → Prop
  | .working S, .working S' => ∀ s, S s → S' s
  | .again, .working S => S .restoring
  | _, .free => True
  | _, _ => False

/-- What the loops over guests leave: they go on only while the node is worked on. -/
def Stage.flow (S : NodeStep → Prop) : Flow → Stage
  | .next => .working S
  | .stop => .free

/-- The tick begins to drain the node, or to restore its guests. -/
inductive Stage.Begins : Stage → NodeUpdate → NodeStep → Prop
  | drain : Begins (.working (· = .pending)) .setNodeDrainStarted .draining
  | restore : Begins (.working (· = .healthCheck)) .setNodeRestoreStarted .restoring
  | again : Begins .again .setNodeRestoreStarted .restoring

/-- What a statement that moves the node to a step leaves: it may have failed. -/
def Stage.moved (s : NodeStep) : Except Err ℕ → Stage
  | .ok _ => .working (· = s)
  | .error _ => .free

/-- What makes a reading of triples hold of the functions that the tick uses on node `n`. -/
structure Walk (job : JobRow) (n : NodeRow) (T : Triples Stage) : Prop extends Composes T where
  pieces : ∀ st, Pieces fun {α} p => T st p fun _ : α => st
  pure : ∀ {α : Type} {st : Stage} {post : α → Stage} (a : α), st.Le (post a) →
    T st (Pure.pure a : Code α) post
  release : ∀ st, T st releaseJobState fun _ => st
  stopped : ∀ st list, T st (updateNode (.setNodeStoppedPassthrough list) n.id) fun _ => st
  fail : ∀ S reason, T (.working S) (updateNode (.failRollingUpdateNode reason) n.id) fun _ => .free
  /-- The clock says whether a restore is to begin again. -/
  look : n.step = .restoring → T (.working (· = .restoring)) timeNow fun now =>
    if begunAgain job n now then .again else .working (· = .restoring)
  begins : ∀ {st : Stage} {u : NodeUpdate} {s : NodeStep}, st.Begins u s →
    T st (updateNode u n.id) (Stage.moved s)
  leave : ∀ {S : NodeStep → Prop} {u : NodeUpdate}, u.leaves = true →
    (∀ s, S s → takesOut .tick s u = true) → T (.working S) (updateNode u n.id) fun _ => .free
  disableForDrain : ∀ S rules, T (.working S) (disableForDrain n rules) fun proceed =>
    if proceed then .working S else .free

namespace Walk

variable {job : JobRow} {n : NodeRow} {T : Triples Stage}
  (h : Walk job n T) {S : NodeStep → Prop} {st : Stage}
include h

theorem weaken {α : Type} {st' : Stage} {p : Code α} {post : α → Stage} (hle : st.Le st')
    (hp : T st' p post) : T st p post := h.bind (h.pure () hle) fun _ => hp

theorem quit (a : Unit) : T (.working S) (Pure.pure a : Code Unit) fun _ => .free := h.pure a trivial

theorem leave_ {u : NodeUpdate} (hu : u.leaves = true)
    (hout : ∀ s, S s → takesOut .tick s u = true) :
    T (.working S) (updateNode_ u n.id) fun _ => .free :=
  h.bind (h.leave hu hout) fun _ => h.pure () trivial

theorem failNode (reason : String) : T (.working S) (Rolling.failNode n reason) fun _ => .free := by
  refine h.bind (h.pieces _).shuttingDown fun down => ?_
  split_ifs
  · exact h.quit ()
  · refine h.bind (h.fail S reason) fun a => ?_
    split
    · exact h.pure () trivial
    · exact (h.pieces .free).failJob (h.release .free) _

theorem failStop (reason : String) : T (.working S) (Rolling.failStop n reason) (Stage.flow S) :=
  h.bind (h.failNode reason) fun _ => h.pure _ trivial

theorem requireDialableNode : T (.working S) (Rolling.requireDialableNode n) fun a =>
    match a with
    | .member => .working S
    | _ => .free := by
  refine h.bind ((h.pieces _).ext _) fun a => ?_
  cases a with
  | member => exact h.pure _ fun _ hs => hs
  | notMember => exact h.bind (h.failNode _) fun _ => h.pure _ trivial
  | lookupFailed => exact h.pure _ trivial

/-! ## Draining -/

variable (p : DrainPass) (guest : GuestSnapshot)

theorem forceStopPassthrough :
    T (.working S) (Rolling.forceStopPassthrough p n guest) (Stage.flow S) := by
  refine h.attempt ((h.pieces _).ext _) (fun _ => h.failStop _) fun upid => ?_
  refine h.bind ((h.pieces _).waitForTask _ _) fun a => ?_
  cases a with
  | interrupted => exact h.pure _ trivial
  | _ => exact h.pure _ fun _ hs => hs

theorem shutdownPassthrough :
    T (.working S) (Rolling.shutdownPassthrough p n guest) (Stage.flow S) := by
  refine h.attempt ((h.pieces _).appendStoppedPassthrough (h.stopped _) guest)
    (fun _ => h.failStop _) fun _ => ?_
  refine h.attempt ((h.pieces _).ext _) (fun _ => h.failStop _) fun upid => ?_
  refine h.bind ((h.pieces _).waitForTask _ _) fun a => ?_
  cases a with
  | interrupted => exact h.pure _ trivial
  | completed => exact h.pure _ fun _ hs => hs
  | failed | timeout => exact h.forceStopPassthrough p guest

theorem settleGuest (target : String) :
    T (.working S) (Rolling.settleGuest p n guest target) (Stage.flow S) := by
  refine h.bind ((h.pieces _).waitForGuestUnlocked _ _) fun a => ?_
  cases a with
  | interrupted => exact h.pure _ trivial
  | completed => exact h.pure _ fun _ hs => hs
  | failed | timeout => exact h.failStop _

theorem migrateGuest (targets : List String) :
    T (.working S) (Rolling.migrateGuest p n targets guest) (Stage.flow S) := by
  refine h.bind ((h.pieces _).waitForGuestUnlocked _ _) fun a => ?_
  split
  · exact h.pure _ trivial
  · refine h.bind ((h.pieces _).isGuestOnNode _ _) fun here => ?_
    split_ifs
    · refine h.attempt ((h.pieces _).ext _) (fun _ => h.failStop _) fun target => ?_
      refine h.attempt ((h.pieces _).ext _) (fun _ => h.failStop _) fun upid => ?_
      refine h.bind ((h.pieces _).waitForTask _ _) fun a => ?_
      cases a with
      | interrupted => exact h.pure _ trivial
      | completed => exact h.settleGuest p guest target
      | failed | timeout => exact h.failStop _
    · exact h.pure _ fun _ hs => hs

theorem drainGuest (targets : List String) :
    T (.working S) (Rolling.drainGuest p n targets guest) (Stage.flow S) := by
  have hw := h.pieces (.working S)
  refine h.bind (hw.ite _ (hw.isGuestOnNode _ _) (hw.pure _)) fun here => ?_
  split_ifs
  · exact h.pure _ fun _ hs => hs
  · exact h.shutdownPassthrough p guest
  · exact h.migrateGuest p guest targets

theorem drainLoop (targets : List String) (guests : List GuestSnapshot) :
    T (.working S) (Rolling.drainLoop p n targets guests) (Stage.flow S) := by
  induction guests with
  | nil => exact h.pure _ fun _ hs => hs
  | cons guest guests ih =>
    refine h.bind (h.pieces _).isJobCancelled fun cancelled => ?_
    split_ifs
    · exact h.pure _ trivial
    · refine h.bind (h.drainGuest p guest targets) fun a => ?_
      cases a with
      | stop => exact h.pure _ trivial
      | next => exact ih

theorem beginUpgrade (hS : ∀ s, S s → s = .pending ∨ s = .draining) :
    T (.working S) (Rolling.beginUpgrade job n) fun _ => .free := by
  refine h.leave_ ?_ fun s hs => ?_
  · unfold readyUpdate
    split <;> rfl
  · unfold readyUpdate
    rcases hS s hs with rfl | rfl <;> split <;> rfl

theorem completeDrain :
    T (.working (· = .draining)) (Rolling.completeDrain job n) fun _ => .free := by
  refine h.bind ((h.pieces _).verifyNodeDrained _) fun a => ?_
  split
  · exact h.failNode _
  · exact h.bind ((h.pieces _).refreshAptIndex n) fun _ => h.beginUpgrade fun _ hs => .inr hs

theorem drainGuests (guests : List GuestSnapshot) :
    T (.working (· = .draining)) (Rolling.drainGuests p job n guests) fun _ => .free := by
  refine h.attempt ((h.pieces _).ext _) (fun _ => h.failNode _) fun clusterNodes => ?_
  show T _ (if _ then _ else _) _
  split_ifs
  · exact h.failNode _
  · refine h.attempt ((h.pieces _).ext _) (fun e => ?_) fun _ => ?_
    · refine h.bind ((h.pieces _).interrupted e) fun lost => ?_
      split_ifs
      · exact h.quit ()
      · exact h.failNode _
    · refine h.bind (h.drainLoop p _ guests) fun a => ?_
      cases a with
      | stop => exact h.pure () trivial
      | next => exact h.completeDrain

theorem advanceDraining :
    T (.working (· = .draining)) (Rolling.advanceDraining job n) fun _ => .free := by
  refine h.bind (h.pieces _).timeNow fun now => ?_
  split_ifs
  · exact h.failNode _
  · exact h.quit ()
  · exact h.completeDrain
  · refine h.bind ((h.pieces _).stillOnNode n _) fun remaining => ?_
    split_ifs
    · exact h.completeDrain
    · exact h.bind ((h.pieces _).updateNode_ _ _ rfl) fun _ => h.drainGuests .resume remaining

/-! ## Starting and upgrading a node -/

theorem drain (guests : List GuestSnapshot) :
    T (.working (· = .pending)) (Rolling.drain job n guests) fun _ => .free := by
  refine h.attempt (h.begins .drain) (fun _ => h.pure () trivial) fun _ => ?_
  split_ifs
  · exact h.completeDrain
  · exact h.drainGuests .first guests

theorem startDrain : T (.working (· = .pending)) (Rolling.startDrain job n) fun _ => .free := by
  refine h.attempt ((h.pieces _).snapshotGuests _) (fun _ => h.failNode _) fun guests => ?_
  refine h.bind (h.pieces _).isJobCancelled fun cancelled => ?_
  split_ifs
  · exact h.quit ()
  · refine h.bind ((h.pieces _).updateNode_ _ _ rfl) fun _ => ?_
    refine h.attempt (h.pieces _).listHARules (fun e => ?_) fun rules => ?_
    · refine h.bind ((h.pieces _).interrupted e) fun lost => ?_
      split_ifs
      · exact h.quit ()
      · exact h.failNode _
    · refine h.bind (h.disableForDrain _ _) fun proceed => ?_
      cases proceed with
      | true => exact h.drain guests
      | false => exact h.pure () trivial

theorem startUpdate : T (.working (· = .pending)) (Rolling.startUpdate job n) fun _ => .free := by
  unfold Rolling.startUpdate
  split_ifs
  · exact h.startDrain
  · exact h.beginUpgrade fun _ hs => .inl hs

theorem startNode : T (.working (· = .pending)) (Rolling.startNode job n) fun _ => .free := by
  refine h.bind h.requireDialableNode fun a => ?_
  cases a with
  | member =>
    show T (.working (· = .pending)) _ _
    refine h.bind ((h.pieces _).refreshAptIndex n) fun _ => h.bind ((h.pieces _).ext _) fun a => ?_
    split
    · refine h.leave_ rfl ?_
      rintro _ rfl
      rfl
    · exact h.bind ((h.pieces _).updateNode_ _ _ rfl) fun _ => h.startUpdate
    · exact h.startUpdate
  | notMember | lookupFailed => exact h.pure () trivial

theorem launchUpgrade : T (.working S) (Rolling.launchUpgrade job n) fun _ => .free := by
  refine h.attempt ((h.pieces _).ext _) (fun _ => h.failNode _) fun host => ?_
  show T _ (if _ then _ else _) _
  split_ifs
  · exact h.failNode _
  · refine h.attempt ((h.pieces _).ext _) (fun _ => h.failNode _) fun _ => ?_
    refine h.attempt ((h.pieces _).ext _) (fun _ => h.failNode _) fun _ => ?_
    refine h.bind ((h.pieces _).updateNode_ _ _ rfl) fun _ => ?_
    exact h.bind (h.quit ()) fun _ => (h.pieces .free).go _

theorem prepareUpgrade : T (.working S) (Rolling.prepareUpgrade job n) fun _ => .free := by
  have hw := h.pieces (.working S)
  refine h.attempt (hw.ext _) (fun _ => h.failNode _) fun creds => ?_
  refine h.attempt (hw.ite _ (hw.ext .decryptPassword) (hw.pure _)) (fun _ => h.failNode _)
    fun _ => ?_
  exact h.attempt (hw.ite _ (hw.ext .decryptPrivateKey) (hw.pure _)) (fun _ => h.failNode _)
    fun _ => h.launchUpgrade

theorem advanceUpgrading : T (.working S) (Rolling.advanceUpgrading job n) fun _ => .free := by
  refine h.bind (h.pieces _).timeNow fun now => ?_
  split
  · exact h.prepareUpgrade
  · split_ifs
    · exact h.failNode _
    · exact h.quit ()
    · exact h.prepareUpgrade

/-! ## The reboot and the restore -/

theorem advanceRebooting :
    T (.working (· = .rebooting)) (Rolling.advanceRebooting n) fun _ => .free := by
  refine h.bind (h.pieces _).timeNow fun now => ?_
  split_ifs
  · exact h.failNode _
  · exact h.quit ()
  · refine h.attempt ((h.pieces _).ext _) (fun _ => h.quit ()) fun uptime => ?_
    show T _ (if _ then _ else _) _
    split_ifs
    · exact h.quit ()
    · refine h.attempt ((h.pieces _).updateNode _ _ rfl) (fun _ => h.quit ()) fun _ => ?_
      refine h.leave_ rfl ?_
      rintro _ rfl
      rfl

theorem restartInJob {S' : NodeStep → Prop} (hS : ∀ s, S s → S' s) :
    T (.working S) (Rolling.restartInJob n) (Stage.flow S') := by
  refine h.bind ((h.pieces _).restartStoppedPassthrough (h.stopped _) true true) fun result => ?_
  obtain ⟨pending, interrupted⟩ := result
  cases interrupted with
  | true => exact h.pure _ trivial
  | false => exact h.pure _ hS

theorem restoreCompleted (hS : ∀ s, S s → s.returning) :
    T (.working S) (updateNode_ .setNodeRestoreCompleted n.id) fun _ => .free := by
  refine h.leave_ rfl fun s hs => ?_
  rcases hS s hs with rfl | rfl <;> rfl

theorem restoreGuests (hbegins : st.Begins .setNodeRestoreStarted .restoring) :
    T st (Rolling.restoreGuests n) fun _ => .free := by
  refine h.attempt (h.begins hbegins) (fun _ => h.pure () trivial) fun _ => ?_
  refine h.attempt ((h.pieces (.working (· = .restoring))).ext _) (fun _ => h.failNode _)
    fun clusterNodes => h.bind (h.restartInJob fun _ hs => hs) fun a => ?_
  cases a with
  | stop => exact h.pure () trivial
  | next =>
    refine h.bind ((h.pieces (.working (· = .restoring))).restoreLoop n clusterNodes _) fun a => ?_
    cases a with
    | stop => exact h.quit ()
    | next => exact h.restoreCompleted fun _ hs => .inr hs

section

variable (hle : st.Le (.working NodeStep.returning))
include hle

theorem restartOnly
    (hbegins : n.step ≠ .restoring → st.Begins .setNodeRestoreStarted .restoring) :
    T st (Rolling.restartOnly n) (Stage.flow NodeStep.returning) := by
  unfold Rolling.restartOnly
  split_ifs with _ hstep
  · exact h.pure _ hle
  · exact h.weaken hle (h.restartInJob fun _ hs => hs)
  · refine h.attempt (h.begins (hbegins hstep)) (fun _ => h.pure _ trivial) fun _ => ?_
    exact h.restartInJob fun _ hs => .inr hs

theorem advanceHealthCheck (hbegins : (n.step = .restoring → job.autoRestoreGuests = true ∧
      n.guestsJson.isEmpty = false) → st.Begins .setNodeRestoreStarted .restoring) :
    T st (Rolling.advanceHealthCheck job n) fun _ => .free := by
  unfold Rolling.advanceHealthCheck
  split_ifs with hauto hempty
  · refine h.bind (h.restartOnly hle fun hn => hbegins fun hr => absurd hr hn) fun a => ?_
    cases a with
    | stop => exact h.pure () trivial
    | next => exact h.restoreCompleted fun _ hs => hs
  · exact h.weaken hle (h.restoreCompleted fun _ hs => hs)
  · exact h.restoreGuests (hbegins fun _ => ⟨by simpa using hauto, by simpa using hempty⟩)

end

theorem advanceRestoring (hn : n.step = .restoring) :
    T (.working (· = .restoring)) (Rolling.advanceRestoring job n) fun _ => .free := by
  refine h.bind (h.look hn) fun now => ?_
  generalize hst : (if begunAgain job n now then Stage.again else .working (· = .restoring)) = st
  have hle {S : NodeStep → Prop} (hS : S .restoring) : st.Le (.working S) := by
    rw [← hst]
    split_ifs
    · exact hS
    · rintro _ rfl
      exact hS
  split_ifs with hexpired hfresh
  · exact h.weaken (hle (.inr rfl)) (h.restoreCompleted fun _ hs => hs)
  · exact h.weaken (hle trivial) (h.quit (S := fun _ => True) ())
  · refine h.advanceHealthCheck (hle (.inr rfl)) fun hguests => ?_
    have hagain : begunAgain job n now = true := by
      simp [begunAgain, hguests hn, hexpired, Nat.not_lt.mp hfresh]
    rw [← hst, if_pos hagain]
    exact .again

theorem advanceStep : T (.working (· = n.step)) (Rolling.advanceStep job n) fun _ => .free := by
  unfold Rolling.advanceStep
  cases hn : n.step with
  | draining => exact h.advanceDraining
  | upgrading => exact h.advanceUpgrading
  | rebooting => exact h.advanceRebooting
  | healthCheck => exact h.advanceHealthCheck (fun _ hs => .inl hs) fun _ => .restore
  | restoring => exact h.advanceRestoring hn
  | _ => exact h.quit ()

theorem advanceNode (hauto : n.step.automatic = true) :
    T (.working (· = n.step)) (Rolling.advanceNode job n) fun _ => .free := by
  unfold Rolling.advanceNode
  rw [if_pos hauto]
  refine h.bind h.requireDialableNode fun a => ?_
  cases a with
  | member => exact h.advanceStep
  | notMember | lookupFailed => exact h.pure () trivial

end Walk

/-! ## Whole parties -/

/-- What makes a property of code hold of all parties. -/
structure Parts (P : ∀ {α : Type}, Code α → Prop) : Prop extends Releases P where
  turn : ∀ e : Stmt, e.turns = true → P (Prog.stmt (S := sig) e)
  stopped : ∀ id list, P (Rolling.updateNode (.setNodeStoppedPassthrough list) id)
  disableForDrain : ∀ node rules, P (disableForDrain node rules)

namespace Parts

variable {P : ∀ {α : Type}, Code α → Prop} (h : Parts P)
include h

/-- The reading that ignores the stages. -/
theorem walk (job : JobRow) (n : NodeRow) : Walk job n fun {α} _ p (_ : α → Stage) => P p where
  pieces _ := h.toPieces
  pure a _ := h.pure a
  bind := h.bind
  release _ := h.release
  stopped _ list := h.stopped n.id list
  fail _ _ := h.updateNode _ _ rfl
  look _ := h.timeNow
  begins hbegins := h.updateNode _ _ (by cases hbegins <;> rfl)
  leave {_ u} hu _ := h.updateNode _ _ (by cases u <;> first | rfl | cases hu)
  disableForDrain _ rules := h.disableForDrain n rules

theorem advanceNode (job : JobRow) (node : NodeRow) : P (Rolling.advanceNode job node) := by
  by_cases hauto : node.step.automatic = true
  · exact (h.walk job node).advanceNode hauto
  · unfold Rolling.advanceNode
    rw [if_neg hauto]
    exact h.pure _

theorem startNext (job : JobRow) (activeCount : ℕ) : P (Rolling.startNext job activeCount) := by
  exact h.ite _ (h.attempt (h.turn (.db .getNextPendingNode) rfl) (fun _ => h.pure _) fun node =>
    (h.walk job node).startNode) (h.pure _)

theorem advanceJob (job : JobRow) : P (Rolling.advanceJob job) := by
  refine h.attempt h.listNodes (fun _ => h.pure _) fun nodes => ?_
  refine h.bind (h.each (h.advanceNode job) nodes) fun _ => ?_
  refine h.bind (h.failIfNodeFailed h.release nodes) fun failed => h.ite _ (h.pure _) ?_
  exact h.attempt (h.stmt (.db .countActiveNodes) rfl) (fun _ => h.pure _) fun n =>
    h.bind (h.startNext job n) fun _ => h.finishJob h.release

section

variable (hpause : ∀ job, P (Rolling.pauseBalancers job))
include hpause

theorem tick : P Rolling.tick := by
  refine h.attempt (h.stmt (.db .listRunningRollingUpdateJobs) rfl)
    (fun _ => h.pure _) fun jobs => ?_
  refine h.bind (h.each (fun job => ?_) jobs) fun _ => h.sweepPendingCleanups h.release
  exact h.bind (hpause job) fun _ => h.ite _ (h.advanceJob job) (h.pure _)

theorem leaderTick : P Rolling.leaderTick :=
  h.bind (h.turn .beginTick rfl) fun _ => h.bind (h.tick hpause) fun _ => h.turn .endTick rfl

/-- A property of the parts that holds of reboots too holds of every party's code. -/
theorem code (hr : ∀ node, P (Rolling.px (.rebootNode node))) (r : Role) : P (Rolling.code r) := by
  by_cases hrole : r = .tick
  · rw [hrole]
    exact h.leaderTick hpause
  · exact h.codeBesideTick hr hrole

end

end Parts

theorem Parts.of_stmts {P : ∀ {α : Type}, Code α → Prop}
    (hpure : ∀ {α : Type} (a : α), P (Pure.pure a : Code α))
    (hbind : ∀ {α β : Type} {p : Code α} {f : α → Code β}, P p → (∀ a, P (f a)) → P (p >>= f))
    (hstmt : ∀ e : Stmt, (∀ node, e ≠ .px (.rebootNode node)) → P (Prog.stmt (S := sig) e)) :
    Parts P := by
  have hdb : ∀ d : Db, P (Prog.stmt (S := sig) (.db d)) := fun d => hstmt _ nofun
  have hrule : ∀ rule type disable, P (px (.setHARuleDisabled rule type disable)) :=
    fun rule type disable => hstmt _ nofun
  have hpieces : Pieces P := by
    refine ⟨⟨hpure, hbind, fun q => hstmt _ nofun⟩, fun e he => hstmt e ?_⟩
    rintro node rfl
    cases he
  have hrelease : Releases P := by
    refine ⟨hpieces, fun e he => hstmt e ?_, ?_⟩
    · rintro node rfl
      cases he
    · refine hpieces.releaseJobState (fun _ _ => hrule _ _ _) (fun e he => hstmt e ?_)
        (fun _ _ => hdb _) fun _ => hdb _
      rintro node rfl
      cases he
  refine ⟨hrelease, fun e he => hstmt e ?_, fun _ _ => hdb _, ?_⟩
  · rintro node rfl
    cases he
  · exact hrelease.disableForDrain (fun _ => hdb _) fun _ _ => hrule _ _ _

end Nexara.Rolling
