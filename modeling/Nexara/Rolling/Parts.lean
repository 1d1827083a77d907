import Nexara.Rolling.Parties

/-!
# Properties of code that follow from its parts

A property that holds of single statements and of sequential composition holds of all code put
together from them. `Calls P` lists what has to be shown of `P` for functions that only call out of
the process, `Pieces P` adds the statements most functions use, and `Releases P` the release of a
job's state and the steps of nodes. The code that ends in a reboot is gone through once for readings
of triples (`Upgrades`, `Confirms`), of which a property of code is the one that ignores the stages.
-/

namespace Nexara.Rolling

open Conc Proxmox

/-- Statements that mark what the job holds, other than the record of HA rules. -/
def Stmt.marks : Stmt → Bool
  | .db (.updateJob (.setJobDRSWasEnabled true)) | .db (.updateJob (.setJobNativeCRSPaused _))
  | .db (.updateNode (.setNodeStoppedPassthrough _) _) => true
  | _ => false

/-- Statements that switch the balancers, or clear the marker of a pause. -/
def Stmt.restores : Stmt → Bool
  | .db (.setDRSEnabled _) | .px (.setClusterOptions _)
  | .db (.updateJob (.setJobDRSWasEnabled false)) | .db (.updateJob .clearJobNativeCRSPaused) => true
  | _ => false

/-- Statements that write the step of a node. -/
def Stmt.moves : Stmt → Bool
  | .db (.updateNode u _) => u.step?.isSome
  | _ => false

/-- Statements by which the tick takes its turn, and the next node. -/
def Stmt.turns : Stmt → Bool
  | .beginTick | .endTick | .db .getNextPendingNode => true
  | _ => false

/-- Statements that mark nothing held, move no node, switch no balancer or rule, and neither reboot
nor take a turn. -/
def Stmt.plain : Stmt → Bool
  | .beginTick | .endTick | .db .getNextPendingNode => false
  | .db (.updateJob (.setJobDRSWasEnabled _)) | .db (.updateJob (.setJobNativeCRSPaused _))
  | .db (.updateJob .clearJobNativeCRSPaused) | .db (.setDRSEnabled _)
  | .px (.setClusterOptions _) | .db (.updateNode (.setNodeStoppedPassthrough _) _) => false
  | .db (.updateNode u _) => u.step?.isNone
  | .db (.updateJob (.setJobDisabledHARules _)) => false
  | .px (.setHARuleDisabled _ _ _) | .px (.rebootNode _) => false
  | _ => true

/-- Parties that write the step of a node. -/
def Role.moves : Role → Bool
  | .tick | .sshUpgrade .. | .confirmUpgrade _ | .skipNode _ => true
  | _ => false

/-- What makes a property of code hold of functions that only call out of the process. -/
structure Calls (P : ∀ {α : Type}, Code α → Prop) : Prop where
  pure : ∀ {α : Type} (a : α), P (Pure.pure a : Code α)
  bind : ∀ {α β : Type} {p : Code α} {f : α → Code β}, P p → (∀ a, P (f a)) → P (p >>= f)
  ext : ∀ q : Ext, P (ext q)

/-- What makes a property of code hold of functions that only use plain statements. -/
structure Pieces (P : ∀ {α : Type}, Code α → Prop) : Prop extends Calls P where
  stmt : ∀ e : Stmt, e.plain = true → P (Prog.stmt (S := sig) e)

/-- What makes a property of code hold of parties other than the tick. -/
structure Releases (P : ∀ {α : Type}, Code α → Prop) : Prop extends Pieces P where
  move : ∀ e : Stmt, e.moves = true → P (Prog.stmt (S := sig) e)
  release : P releaseJobState

namespace Calls

variable {P : ∀ {α : Type}, Code α → Prop}

theorem ite (_ : Calls P) {α : Type} (c : Prop) [Decidable c] {p q : Code α} (hp : P p)
    (hq : P q) : P (if c then p else q) := by
  split_ifs
  · exact hp
  · exact hq

variable (h : Calls P)
include h

theorem map {α β : Type} {p : Code α} (hp : P p) {f : α → β} : P (p >>= fun a => Pure.pure (f a)) :=
  h.bind hp fun _ => h.pure _

theorem each {α : Type} {f : α → Code Unit} (hf : ∀ x, P (f x)) (l : List α) :
    P (Prog.each f l) := by
  induction l with
  | nil => exact h.pure ()
  | cons x xs ih => exact h.bind (hf x) fun _ => ih

theorem attempt {ε α β : Type} {p : Code (Except ε α)} {f : Except ε α → Code β} (hp : P p)
    (herror : ∀ e, P (f (.error e))) (hok : ∀ a, P (f (.ok a))) : P (p >>= f) := by
  refine h.bind hp fun a => ?_
  cases a with
  | error e => exact herror e
  | ok a => exact hok a

theorem eachReleased {α : Type} {f : α → Code Bool} (hf : ∀ x, P (f x)) (l : List α) :
    P (Rolling.eachReleased f l) := by
  induction l with
  | nil => exact h.pure _
  | cons x xs ih => exact h.bind (hf x) fun _ => h.map ih

theorem onlyIf (c : Bool) {p : Code Unit} (hp : P p) : P (Rolling.onlyIf c p) :=
  h.ite _ hp (h.pure _)

theorem shuttingDown : P Rolling.shuttingDown := h.ext .shuttingDown

theorem waitForTask (node upid : String) : P (Rolling.waitForTask node upid) :=
  h.ext (.waitForTask node upid)

theorem interrupted (e : Err) : P (Rolling.interrupted e) :=
  h.ite _ (h.pure _) h.shuttingDown

/-! ## Looking at guests -/

section

variable (node : String) (guest : GuestSnapshot)

theorem getVMs : P (Rolling.getVMs node) := h.ext (.getVMs node)

theorem getContainers : P (Rolling.getContainers node) :=
  h.ext (.getContainers node)

theorem waitForGuestUnlocked : P (Rolling.waitForGuestUnlocked guest node) :=
  h.ext (.waitForGuestUnlocked guest node)

theorem guestStatusOnNode : P (Rolling.guestStatusOnNode node guest) := by
  unfold Rolling.guestStatusOnNode
  cases guest.type with
  | qemu =>
    exact h.attempt (h.getVMs node) (fun _ => h.pure _) fun _ => h.pure _
  | lxc =>
    exact h.attempt (h.getContainers node) (fun _ => h.pure _) fun _ => h.pure _

theorem isGuestOnNode : P (Rolling.isGuestOnNode node guest) :=
  h.attempt (h.guestStatusOnNode node guest) (fun _ => h.pure _) fun _ => h.pure _

theorem getGuestStatus : P (Rolling.getGuestStatus node guest) :=
  h.attempt (h.guestStatusOnNode node guest) (fun _ => h.pure _) fun _ => h.pure _

theorem snapshotVMs (vms : List VirtualMachine) : P (Rolling.snapshotVMs node vms) := by
  induction vms with
  | nil => exact h.pure _
  | cons vm vms ih =>
    exact h.ite _ (h.bind (h.ext _) fun _ => h.map ih) ih

theorem snapshotGuests : P (Rolling.snapshotGuests node) := by
  refine h.attempt (h.getVMs node) (fun _ => h.pure _) fun vms => ?_
  refine h.bind (h.snapshotVMs node vms) fun machines => ?_
  exact h.attempt (h.getContainers node) (fun _ => h.pure _) fun _ => h.pure _

theorem listViolations : P (Rolling.listViolations node) := by
  refine h.attempt (h.getVMs node) (fun _ => h.pure _) fun _ => ?_
  exact h.attempt (h.getContainers node) (fun _ => h.pure _) fun _ => h.pure _

theorem verifyRetry (attempts : ℕ) (e : Err) : P (Rolling.verifyRetry node attempts e) := by
  induction attempts generalizing e with
  | zero => exact h.pure _
  | succ n ih =>
    refine h.bind h.shuttingDown fun down => h.ite _ (h.pure _) ?_
    exact h.attempt (h.listViolations node) ih fun _ => h.pure _

theorem verifyNodeDrained : P (Rolling.verifyNodeDrained node) :=
  h.attempt (h.listViolations node) (fun e => h.verifyRetry node _ e) fun _ => h.pure _

theorem stillOnNode (node : NodeRow) (guests : List GuestSnapshot) :
    P (Rolling.stillOnNode node guests) := by
  induction guests with
  | nil => exact h.pure _
  | cons g guests ih =>
    refine h.bind (h.isGuestOnNode _ _) fun here => h.ite _ (h.bind ?_ fun status => ?_) ih
    · exact h.ite _ (h.getGuestStatus _ _) (h.pure _)
    · exact h.map ih

theorem findGuestLocation (exclude : String) (nodes : List NodeListEntry) :
    P (Rolling.findGuestLocation guest exclude nodes) := by
  induction nodes with
  | nil => exact h.pure _
  | cons cn nodes ih =>
    refine h.ite _ ih (h.bind (h.guestStatusOnNode _ _) fun a => ?_)
    split
    · exact h.pure _
    · exact ih

/-! ## Moving and starting guests -/

theorem nodeGuestStatuses : P (Rolling.nodeGuestStatuses node) := by
  refine h.attempt (h.ext _) (fun _ => h.pure _) fun _ => ?_
  exact h.attempt (h.ext _) (fun _ => h.pure _) fun _ => h.pure _

end

theorem restartGuest (node : NodeRow) (wait pruneRunning : Bool)
    (statuses : GuestType → ℕ → Option String) (guest : GuestSnapshot) :
    P (Rolling.restartGuest node wait pruneRunning statuses guest) := by
  unfold Rolling.restartGuest
  cases statuses guest.type guest.vmid with
  | none => exact h.pure _
  | some status =>
    refine h.ite _ (h.pure _) (h.attempt (h.ext _) (fun _ => h.pure _) fun upid => ?_)
    refine h.ite _ (h.pure _) (h.bind (h.ext _) fun a => ?_)
    cases a <;> exact h.pure _

theorem restartGuests {restart : GuestSnapshot → Code Restart} (hr : ∀ g, P (restart g))
    (list : List GuestSnapshot) : P (Rolling.restartGuests restart list) := by
  induction list with
  | nil => exact h.pure _
  | cons guest rest ih =>
    refine h.bind (hr guest) fun a => ?_
    cases a with
    | interrupted => exact h.pure _
    | dropped => exact ih
    | pending => exact h.map ih

theorem refreshAptIndex (node : NodeRow) : P (Rolling.refreshAptIndex node) :=
  h.attempt (h.ext _) (fun _ => h.pure _) fun _ =>
    h.map (h.waitForTask _ _)

theorem restoreGuest (node : NodeRow) (clusterNodes : List NodeListEntry) (guest : GuestSnapshot) :
    P (Rolling.restoreGuest node clusterNodes guest) := by
  refine h.ite _ (h.pure _) (h.bind (h.findGuestLocation _ _ _) fun a => ?_)
  cases a with
  | none => exact h.pure _
  | some current =>
    refine h.attempt (h.ext _) (fun _ => h.pure _) fun _ => ?_
    refine h.bind (h.waitForTask _ _) fun a => ?_
    split
    · exact h.pure _
    · refine h.bind (h.waitForGuestUnlocked _ _) fun a => ?_
      split
      · exact h.pure _
      · exact h.pure _
    · exact h.pure _

theorem restoreLoop (node : NodeRow) (clusterNodes : List NodeListEntry)
    (guests : List GuestSnapshot) : P (Rolling.restoreLoop node clusterNodes guests) := by
  induction guests with
  | nil => exact h.pure _
  | cons guest rest ih =>
    refine h.bind (h.restoreGuest _ _ _) fun a => ?_
    cases a with
    | stop => exact h.pure _
    | next => exact ih

/-! ## Giving the balancers back -/

section

variable (hb : ∀ e : Stmt, e.restores = true → P (Prog.stmt (S := sig) e))
include hb

theorem releaseDRS (job : JobRow) : P (Rolling.releaseDRS job) := by
  refine h.ite _ (h.attempt (hb (.db (.setDRSEnabled true)) rfl) (fun _ => h.pure _) fun _ => ?_)
    (h.pure _)
  exact h.map (hb (.db (.updateJob (.setJobDRSWasEnabled false))) rfl)

theorem restoreNativeCRS (job : JobRow) : P (Rolling.restoreNativeCRS job) :=
  h.attempt (hb (.px (.setClusterOptions _)) rfl) (fun _ => h.pure _) fun _ =>
    h.map (hb (.db (.updateJob .clearJobNativeCRSPaused)) rfl)

end

end Calls

namespace Pieces

variable {P : ∀ {α : Type}, Code α → Prop}

variable (h : Pieces P)
include h

/-! ## Statements -/

theorem timeNow : P Rolling.timeNow := h.stmt .now rfl

theorem respond (status : ℕ) (message : String) : P (Rolling.respond status message) :=
  h.stmt (.respond status message) rfl

theorem go (r : Role) : P (Rolling.go r) := h.stmt (.go r) rfl

theorem getJob : P Rolling.getJob := h.stmt (.db .getRollingUpdateJob) rfl

theorem listNodes : P Rolling.listNodes := h.stmt (.db .listRollingUpdateNodes) rfl

section

variable (u : NodeUpdate) (id : ℕ)

theorem getNode : P (Rolling.getNode id) := h.stmt (.db (.getRollingUpdateNode id)) rfl

variable (hu : (Stmt.db (.updateNode u id)).plain = true)
include hu

theorem updateNode : P (Rolling.updateNode u id) := h.stmt (.db (.updateNode u id)) hu

theorem updateNode_ : P (Rolling.updateNode_ u id) := h.map (h.updateNode u id hu)

end

theorem jobStatus : P Rolling.jobStatus :=
  h.attempt h.getJob (fun _ => h.pure _) fun _ => h.pure _

theorem isJobCancelled : P Rolling.isJobCancelled := h.map h.jobStatus

/-! ## Passthrough guests -/

theorem restartStoppedPassthrough {node : NodeRow}
    (hs : ∀ list, P (Rolling.updateNode (.setNodeStoppedPassthrough list) node.id))
    (wait pruneRunning : Bool) : P (Rolling.restartStoppedPassthrough node wait pruneRunning) := by
  have hpersist : ∀ list, P (Rolling.persistStoppedPassthrough node.id list) :=
    fun list => h.map (hs list)
  refine h.bind (h.onlyIf _ (hpersist _)) fun _ => ?_
  refine h.ite _ (h.pure _) (h.attempt (h.nodeGuestStatuses _) (fun _ => h.pure _) fun statuses => ?_)
  refine h.bind (h.restartGuests (h.restartGuest node wait pruneRunning statuses) _) fun a => ?_
  exact h.ite _ (h.map (hpersist _)) (h.map (h.onlyIf _ (hpersist _)))

theorem appendStoppedPassthrough {id : ℕ}
    (hs : ∀ list, P (Rolling.updateNode (.setNodeStoppedPassthrough list) id))
    (guest : GuestSnapshot) : P (Rolling.appendStoppedPassthrough id guest) := by
  refine h.attempt (h.getNode id) (fun _ => h.pure _) fun _ => ?_
  refine h.ite _ (h.pure _) (h.bind (hs _) fun a => ?_)
  cases a with
  | error e | ok n => exact h.pure _

/-! ## Around a drain and a restore -/

theorem listHARules : P Rolling.listHARules :=
  h.attempt (h.stmt (.px .getHARules) rfl) (fun _ => h.pure _) fun _ => h.pure _

theorem recordJobDisabledHARules
    (hset : ∀ rules, P (Rolling.updateJob (.setJobDisabledHARules rules)))
    (rules : List DisabledHARule) : P (Rolling.recordJobDisabledHARules rules) := by
  refine h.attempt h.getJob (fun _ => h.pure _) fun _ => ?_
  refine h.attempt (hset _) (fun _ => h.pure _) fun _ => ?_
  exact h.map (h.stmt (.db (.updateJob .armJobCleanupPending)) rfl)

/-! ## The release -/

section

variable (hb : ∀ e : Stmt, e.restores = true → P (Prog.stmt (S := sig) e))
  (hm : ∀ e : Stmt, e.marks = true → P (Prog.stmt (S := sig) e))
include hb hm

theorem disableDRSIfEnabled : P Rolling.disableDRSIfEnabled := by
  refine h.bind (h.stmt (.db .getDRSConfig) rfl) fun a => ?_
  split
  · exact h.bind (hm (.db (.updateJob (.setJobDRSWasEnabled true))) rfl) fun _ =>
      h.map (hb (.db (.setDRSEnabled false)) rfl)
  · exact h.pure _

theorem pauseNativeCRSIfActive : P Rolling.pauseNativeCRSIfActive := by
  refine h.attempt (h.stmt (.px .getClusterOptions) rfl) (fun _ => h.pure _) fun _ => ?_
  refine h.ite _ (h.attempt (hb (.px (.setClusterOptions _)) rfl) (fun _ => h.pure _) fun _ => ?_)
    (h.pure _)
  exact h.attempt (hm (.db (.updateJob (.setJobNativeCRSPaused _))) rfl)
    (fun _ => h.map (hb (.px (.setClusterOptions _)) rfl)) fun _ => h.pure _

theorem pauseBalancers (job : JobRow) : P (Rolling.pauseBalancers job) := by
  refine h.bind (h.onlyIf _ (h.disableDRSIfEnabled hb hm)) fun _ => ?_
  exact h.attempt (h.ext _) (fun _ => h.pure _) fun _ =>
    h.map (h.onlyIf _ (h.pauseNativeCRSIfActive hb hm))

end

theorem clearCleanup (job : JobRow) (released : Bool) : P (Rolling.clearCleanup job released) :=
  h.onlyIf _ (h.map (h.stmt (.db (.updateJob .clearJobCleanupPending)) rfl))

theorem persistNodeDisabledRules (id : ℕ) (remaining : List DisabledHARule) :
    P (Rolling.persistNodeDisabledRules id remaining) :=
  h.map (h.updateNode _ _ rfl)

theorem restartAll (hs : ∀ id list, P (Rolling.updateNode (.setNodeStoppedPassthrough list) id))
    (nodes : List NodeRow) (pruneRunning : Bool) :
    P (Rolling.eachReleased (fun n => do
      let (pending, interrupted) ← Rolling.restartStoppedPassthrough n false pruneRunning
      return !interrupted && pending = 0) nodes) :=
  h.eachReleased (fun n => h.map (h.restartStoppedPassthrough (hs n.id) _ _))
    nodes

section

variable (hon : ∀ rule type, P (Rolling.px (.setHARuleDisabled rule type false)))
include hon

theorem reenableEach (rules : List DisabledHARule) : P (Rolling.reenableEach rules) := by
  induction rules with
  | nil => exact h.pure _
  | cons r rules ih =>
    exact h.attempt (hon _ _) (fun _ => h.map ih) fun _ => ih

theorem reenableHARules (rules : List DisabledHARule) : P (Rolling.reenableHARules rules) := by
  refine h.bind (h.reenableEach hon rules) fun remaining => h.ite _ (h.pure _) ?_
  exact h.attempt (h.stmt (.px .getHARules) rfl) (fun _ => h.pure _) fun _ => h.pure _

theorem releaseRuleRecord {persist : List DisabledHARule → Code Bool} (hp : ∀ l, P (persist l))
    (rules : List DisabledHARule) : P (Rolling.releaseRuleRecord rules persist) :=
  h.bind (h.reenableHARules hon rules) fun _ => h.map (hp _)

theorem releaseNodeRecords (nodes : List NodeRow) :
    P (Rolling.eachReleased (fun n => Rolling.releaseRuleRecord n.disabledHaRules
      (Rolling.persistNodeDisabledRules n.id)) nodes) :=
  h.eachReleased (fun n => h.releaseRuleRecord hon (h.persistNodeDisabledRules n.id) _) nodes

theorem releaseJobState (hb : ∀ e : Stmt, e.restores = true → P (Prog.stmt (S := sig) e))
    (hs : ∀ id list, P (Rolling.updateNode (.setNodeStoppedPassthrough list) id))
    (hset : ∀ rules, P (Rolling.updateJob (.setJobDisabledHARules rules))) :
    P Rolling.releaseJobState := by
  refine h.attempt h.getJob (fun _ => h.pure _) fun job => ?_
  refine h.attempt h.listNodes (fun _ => h.pure _) fun _ => ?_
  have hclear : ∀ released (result : Bool × Bool),
      P (Rolling.clearCleanup job released >>= fun _ => Pure.pure result) :=
    fun released _ => h.map (h.clearCleanup job released)
  refine h.bind (h.releaseDRS hb job) fun drs => ?_
  refine h.ite _ (h.attempt (h.ext _) (fun _ => h.pure _) fun _ => ?_) (hclear _ _)
  refine h.bind ?_ fun cluster => hclear _ _
  refine h.bind (h.ite _ (h.restoreNativeCRS hb job) (h.pure _)) fun _ => ?_
  refine h.bind (h.ite _ (h.pure _) (h.releaseRuleRecord hon ?_ _)) fun _ => ?_
  · exact fun rules => h.map (hset rules)
  · refine h.bind (h.releaseNodeRecords hon _) fun _ => h.bind h.timeNow fun _ => ?_
    exact h.map (h.restartAll hs _ _)

end

/-! ## Around a release -/

section

variable (hrelease : P Rolling.releaseJobState)
include hrelease

theorem failJob (reason : String) : P (Rolling.failJob reason) :=
  h.bind (h.stmt (.db (.updateJob (.failRollingUpdateJob reason))) rfl) fun _ =>
    h.map hrelease

section

variable {node : NodeRow}
  (hfail : ∀ reason, P (Rolling.updateNode (.failRollingUpdateNode reason) node.id))
include hfail

theorem failNode (reason : String) : P (Rolling.failNode node reason) := by
  refine h.bind h.shuttingDown fun down => h.ite _ (h.pure _) ?_
  refine h.bind (hfail reason) fun a => ?_
  split
  · exact h.pure _
  · exact h.failJob hrelease _

theorem disableForDrain (hset : ∀ rules, P (Rolling.updateJob (.setJobDisabledHARules rules)))
    (hoff : ∀ rule type, P (Rolling.px (.setHARuleDisabled rule type true)))
    (rules : List DisabledHARule) : P (Rolling.disableForDrain node rules) := by
  refine h.ite _ (h.pure _) (h.attempt (h.recordJobDisabledHARules hset rules)
    (fun _ => h.map (h.failNode hrelease hfail _)) fun _ => ?_)
  refine h.bind (h.each (fun r => h.map (hoff _ _)) rules) fun _ => ?_
  refine h.bind (h.recordJobDisabledHARules hset rules) fun _ => h.bind h.jobStatus fun a => ?_
  split
  · exact h.pure _
  · exact h.map hrelease
  · exact h.pure _

end

theorem sweepJob (job : JobRow) : P (Rolling.sweepJob job) := by
  refine h.bind h.timeNow fun now => h.ite _ (h.pure _) ?_
  exact h.attempt (h.stmt (.db (.updateJob .incrementJobCleanupAttempts)) rfl)
    (fun _ => h.pure _) fun _ => h.map hrelease

theorem sweepPendingCleanups : P Rolling.sweepPendingCleanups :=
  h.attempt (h.stmt (.db .listRollingUpdateJobsNeedingCleanup) rfl)
    (fun _ => h.pure _) fun jobs => h.each (h.sweepJob hrelease) jobs

theorem cleanupCancelledJob : P Rolling.cleanupCancelledJob :=
  h.attempt h.getJob (fun _ => h.pure _) fun _ => h.map hrelease

theorem failIfNodeFailed (nodes : List NodeRow) : P (Rolling.failIfNodeFailed nodes) := by
  induction nodes with
  | nil => exact h.pure _
  | cons node nodes ih =>
    exact h.ite _ (h.attempt (h.getNode _) (fun _ => ih) fun _ =>
      h.ite _ (h.map (h.failJob hrelease _)) ih) ih

theorem finishJob : P Rolling.finishJob := by
  refine h.attempt (h.stmt (.db .countCompletedNodes) rfl) (fun _ => h.pure _) fun _ => ?_
  refine h.ite _ (h.ite _ (h.failJob hrelease _) ?_) (h.pure _)
  refine h.bind (h.stmt (.db (.updateJob .completeRollingUpdateJob)) rfl) fun a => ?_
  split
  · exact h.pure _
  · exact h.pure _
  · exact h.map hrelease

end

/-! ## Requests -/

theorem jobInCluster {k : JobRow → Code Unit} (hk : ∀ job, P (k job)) :
    P (Rolling.jobInCluster k) :=
  h.attempt h.getJob (fun _ => h.respond _ _) fun job => hk job

theorem handleStartJob : P Rolling.handleStartJob := by
  refine h.jobInCluster fun job => h.ite _ (h.respond _ _) ?_
  exact h.attempt (h.stmt (.db (.updateJob .startRollingUpdateJob)) rfl)
    (fun _ => h.respond _ _) fun _ => h.respond _ _

theorem handleCancelJob : P Rolling.handleCancelJob := by
  refine h.jobInCluster fun job => ?_
  refine h.bind (h.stmt (.db (.updateJob .cancelRollingUpdateJob)) rfl) fun a => ?_
  split
  · exact h.respond _ _
  · exact h.respond _ _
  · exact h.bind (h.go _) fun _ => h.respond _ _

theorem handlePauseJob : P Rolling.handlePauseJob := by
  refine h.jobInCluster fun job => ?_
  exact h.attempt (h.stmt (.db (.updateJob .pauseRollingUpdateJob)) rfl)
    (fun _ => h.respond _ _) fun _ => h.respond _ _

theorem handleResumeJob : P Rolling.handleResumeJob := by
  refine h.jobInCluster fun job => ?_
  exact h.attempt (h.stmt (.db (.updateJob .resumeRollingUpdateJob)) rfl)
    (fun _ => h.respond _ _) fun _ => h.respond _ _

theorem handleSkipNode {id : ℕ} (hskip : P (Rolling.updateNode .skipRollingUpdateNode id)) :
    P (Rolling.handleSkipNode id) := by
  refine h.jobInCluster fun _ => h.attempt (h.getNode id) (fun _ => h.respond _ _) fun _ => ?_
  refine h.bind hskip fun a => ?_
  split
  · exact h.respond _ _
  · exact h.respond _ _
  · exact h.bind (h.getNode id) fun _ => h.respond _ _

theorem codeAside (hrelease : P Rolling.releaseJobState) {r : Role} (hr : r.moves = false) :
    P (Rolling.code r) := by
  cases r with
  | heartbeat id => exact h.updateNode_ _ _ rfl
  | startJob => exact h.handleStartJob
  | cancelJob => exact h.handleCancelJob
  | cancelCleanup => exact h.cleanupCancelledJob hrelease
  | pauseJob => exact h.handlePauseJob
  | resumeJob => exact h.handleResumeJob
  | releaseJobState => exact h.map hrelease
  | deleteHARule rule => exact h.stmt (.deleteHARule rule) rfl
  | wait seconds => exact h.stmt (.wait seconds) rfl
  | _ => cases hr

end Pieces

/-! ## Upgrades and their reboots -/

/-- A party that upgrades a node or confirms its upgrade has yet to look at the job, may send a
reboot, has recorded one, has sent one, or is through. -/
inductive Attempt where
  | begun | ready | recorded | sent | over

/-- A reading of triples, code between two stages. -/
abbrev Triples (S : Type) := ∀ {α : Type}, S → Code α → (α → S) → Prop

structure Composes {S : Type} (T : Triples S) : Prop where
  bind : ∀ {α β : Type} {st : S} {mid : α → S} {post : β → S} {p : Code α} {f : α → Code β},
    T st p mid → (∀ a, T (mid a) (f a) post) → T st (p >>= f) post

theorem Composes.attempt {S : Type} {T : Triples S} (h : Composes T) {ε α β : Type} {st : S}
    {mid : Except ε α → S} {post : β → S} {p : Code (Except ε α)} {f : Except ε α → Code β}
    (hp : T st p mid) (herror : ∀ e, T (mid (.error e)) (f (.error e)) post)
    (hok : ∀ a, T (mid (.ok a)) (f (.ok a)) post) : T st (p >>= f) post := by
  refine h.bind hp fun a => ?_
  cases a with
  | error e => exact herror e
  | ok a => exact hok a

/-- What makes such a reading hold of the functions that such a party uses on node `n`. -/
structure Attended (n : NodeRow) (T : Triples Attempt) : Prop extends Composes T where
  calls : ∀ st, Calls fun {α} p => T st p fun _ : α => st
  pure : ∀ {α : Type} {st : Attempt} {post : α → Attempt} (a : α), post a = st ∨ post a = .over →
    T st (Pure.pure a : Code α) post
  fail : ∀ st reason, st ≠ .over → T st (failNode n reason) fun _ => .over

/-- The same for the goroutine of an upgrade. -/
structure Upgrades (n : NodeRow) (T : Triples Attempt) : Prop extends Attended n T where
  output : T .begun (updateNode_ .setNodeUpgradeOutput n.id) fun _ => .begun
  check : T .begun isJobCancelled fun cancelled => if cancelled then .over else .ready
  completed : T .ready (updateNode .setNodeUpgradeCompleted n.id) fun a =>
    if a.isOk then .recorded else .over
  send : T .recorded (px (.rebootNode n.nodeName)) fun _ => .sent
  leave : ∀ u, u = .setNodeUpgradeCompletedNoReboot ∨ u = .setNodeUpgradeCompletedRebootPending →
    T .ready (updateNode_ u n.id) fun _ => .over

/-- The same for a confirmation. -/
structure Confirms (n : NodeRow) (T : Triples Attempt) : Prop extends Attended n T where
  confirm : T .ready (updateNode .confirmNodeUpgrade n.id) fun _ => .ready
  send : T .ready (px (.rebootNode n.nodeName)) fun _ => .sent
  record : T .sent (updateNode .setNodeRebootStarted n.id) fun _ => .recorded
  leave : ∀ u, u = .setNodeHealthCheckPassed ∨ u = .setNodeUpgradeCompletedRebootPending →
    T .ready (updateNode u n.id) fun _ => .over

section

variable {n : NodeRow} {T : Triples Attempt}

theorem Attended.quit (h : Attended n T) {α : Type} (st : Attempt) (a : α) :
    T st (Pure.pure a : Code α) fun _ => .over := h.pure a (.inr rfl)

theorem Attended.ite (_ : Attended n T) {α : Type} {st : Attempt} {post : α → Attempt} (c : Prop)
    [Decidable c] {p q : Code α} (hp : T st p post) (hq : T st q post) :
    T st (if c then p else q) post := by
  split_ifs
  · exact hp
  · exact hq

theorem Attended.requireDialableNode (h : Attended n T) :
    T .ready (Rolling.requireDialableNode n) fun a => if a = .member then .ready else .over := by
  refine h.bind ((h.calls _).ext _) fun a => ?_
  cases a with
  | member => exact h.pure _ (.inl rfl)
  | notMember => exact h.bind (h.fail _ _ nofun) fun _ => h.pure _ (.inr rfl)
  | lookupFailed => exact h.pure _ (.inr rfl)

namespace Upgrades

variable (h : Upgrades n T)
include h

theorem rebootUpgraded (job : JobRow) : T .ready (Rolling.rebootUpgraded job n) fun _ => .over := by
  refine h.bind ((h.calls _).verifyNodeDrained _) fun violations => ?_
  split
  · exact h.leave _ (.inr rfl)
  · exact h.fail _ _ nofun
  · refine h.attempt h.completed (fun _ => h.quit _ _) fun _ => ?_
    exact h.attempt h.send (fun _ => h.fail _ _ nofun) fun _ => h.quit _ _

theorem finishUpgrade (job : JobRow) (host : String) :
    T .begun (Rolling.finishUpgrade job n host) fun _ => .over := by
  refine h.bind h.check fun cancelled => ?_
  cases cancelled with
  | true => exact h.quit _ _
  | false =>
    show T .ready (if job.rebootAfterUpdate = true then _ else _) _
    refine h.ite _ (h.rebootUpgraded job) (h.bind ((h.calls _).ext _) fun check => ?_)
    have hcheck : T .ready (checkInterrupted check) fun _ => .ready := by
      cases check with
      | error e => exact (h.calls _).interrupted e
      | ok result => exact (h.calls _).pure _
    refine h.bind hcheck fun lost => ?_
    exact h.ite _ (h.quit _ _) (h.ite _ (h.rebootUpgraded job) (h.leave _ (.inl rfl)))

theorem runSSHUpgrade (job : JobRow) (host : String) :
    T .begun (Rolling.runSSHUpgrade job n host) fun _ => .over := by
  unfold Rolling.runSSHUpgrade
  split
  · exact h.fail _ _ nofun
  · refine h.attempt ((h.calls _).ext _) (fun e => ?_) fun result => ?_
    · refine h.bind ((h.calls _).interrupted e) fun lost => ?_
      exact h.ite _ (h.quit _ _) (h.fail _ _ nofun)
    · refine h.bind h.output fun _ => ?_
      exact h.ite _ (h.fail _ _ nofun) (h.finishUpgrade job host)

end Upgrades

namespace Confirms

variable (h : Confirms n T)
include h

theorem confirmReboot (job : JobRow) : T .ready (Rolling.confirmReboot job n) fun _ => .over := by
  refine h.attempt h.confirm (fun _ => h.quit _ _) fun _ => h.ite _ ?_ ?_
  · refine h.attempt h.send (fun _ => ?_) fun _ => ?_
    · have hrecord : T .sent (updateNode_ .setNodeRebootStarted n.id) fun _ => .recorded :=
        h.bind h.record fun _ => (h.calls _).pure _
      exact h.bind hrecord fun _ => h.bind (h.fail _ _ nofun) fun _ => h.quit _ _
    · exact h.attempt h.record (fun _ => h.quit _ _) fun _ => h.quit _ _
  · exact h.attempt (h.leave _ (.inl rfl)) (fun _ => h.quit _ _) fun _ => h.quit _ _

theorem confirmDrained (job : JobRow) : T .ready (Rolling.confirmDrained job n) fun _ => .over := by
  refine h.attempt ((h.calls _).ext _) (fun _ => h.quit _ _) fun _ => ?_
  refine h.bind ((h.calls _).verifyNodeDrained _) fun violations => ?_
  split
  · exact h.attempt (h.leave _ (.inr rfl)) (fun _ => h.quit _ _) fun _ => h.quit _ _
  · exact h.quit _ _
  · exact h.confirmReboot job

theorem confirmUpgrade (job : JobRow) : T .ready (Rolling.confirmUpgrade job n) fun _ => .over := by
  refine h.ite _ (h.quit _ _) (h.bind h.requireDialableNode fun a => ?_)
  cases a with
  | notMember | lookupFailed => exact h.quit _ _
  | member => exact h.ite _ (h.confirmDrained job) (h.confirmReboot job)

end Confirms

end

namespace Releases

variable {P : ∀ {α : Type}, Code α → Prop} (h : Releases P)
include h

/-! ## Failing, and the sweep -/

section

variable (u : NodeUpdate) (id : ℕ) (hu : (Stmt.db (.updateNode u id)).marks = false)
include hu

theorem updateNode : P (Rolling.updateNode u id) := by
  cases hstep : u.step? with
  | some s => exact h.move (.db (.updateNode u id)) (by simp [Stmt.moves, hstep])
  | none =>
    refine h.stmt (.db (.updateNode u id)) ?_
    cases u with
    | setNodeStoppedPassthrough guests => cases hu
    | _ => first | rfl | cases hstep

theorem updateNode_ : P (Rolling.updateNode_ u id) := h.map (h.updateNode u id hu)

end

theorem failNode (node : NodeRow) (reason : String) : P (Rolling.failNode node reason) :=
  h.toPieces.failNode h.release (fun _ => h.updateNode _ _ rfl) reason

theorem disableForDrain (hset : ∀ rules, P (Rolling.updateJob (.setJobDisabledHARules rules)))
    (hoff : ∀ rule type, P (Rolling.px (.setHARuleDisabled rule type true))) (node : NodeRow)
    (rules : List DisabledHARule) : P (Rolling.disableForDrain node rules) :=
  h.toPieces.disableForDrain h.release (fun _ => h.updateNode _ _ rfl) hset hoff rules

/-! ## Parties that reboot -/

theorem attended (n : NodeRow) : Attended n fun {α} _ p (_ : α → Attempt) => P p where
  calls _ := h.toCalls
  bind := h.bind
  pure a _ := h.pure a
  fail _ reason _ := h.failNode n reason

variable (hr : ∀ node, P (Rolling.px (.rebootNode node)))
include hr

theorem upgrades (n : NodeRow) : Upgrades n fun {α} _ p (_ : α → Attempt) => P p where
  toAttended := h.attended n
  output := h.updateNode_ _ _ rfl
  check := h.isJobCancelled
  completed := h.updateNode _ _ rfl
  send := hr _
  leave u hu := h.updateNode_ u _ (by rcases hu with rfl | rfl <;> rfl)

theorem confirms (n : NodeRow) : Confirms n fun {α} _ p (_ : α → Attempt) => P p where
  toAttended := h.attended n
  confirm := h.updateNode _ _ rfl
  send := hr _
  record := h.updateNode _ _ rfl
  leave u hu := h.updateNode u _ (by rcases hu with rfl | rfl <;> rfl)

theorem handleConfirmUpgrade (id : ℕ) : P (Rolling.handleConfirmUpgrade id) := by
  refine h.jobInCluster fun job => h.attempt (h.getNode id) (fun _ => h.respond _ _) fun node => ?_
  refine h.bind ((h.confirms hr node).confirmUpgrade job) fun a => ?_
  split <;> exact h.respond _ _

theorem codeBesideTick {r : Role} (hrole : r ≠ .tick) : P (Rolling.code r) := by
  cases r with
  | tick => exact absurd rfl hrole
  | sshUpgrade job node host => exact (h.upgrades hr node).runSSHUpgrade job host
  | confirmUpgrade id => exact h.handleConfirmUpgrade hr id
  | skipNode id => exact h.handleSkipNode (h.updateNode _ _ rfl)
  | _ => exact h.codeAside h.release rfl

end Releases

end Nexara.Rolling
