import Nexara.Conc.Protocol
import Nexara.Rolling.Schema

/-!
# What the orchestrator does atomically

The statements of the rolling-update code: a database statement (`Db`), a Proxmox call whose effect
matters here (`Px`), a call out of the process that changes nothing tracked and may answer anything
(`Ext`), a look at the clock, the start of a goroutine, and the answer to a request. The first two
take effect, or fail with an error and change nothing.
-/

namespace Nexara.Rolling

open Conc Proxmox

/-- A Go error: its text, and whether `errors.Is` finds `context.Canceled` in it. -/
structure Err where
  text : String
  canceled : Bool := false

/-- `fmt.Errorf("context: %w", err)`. -/
def Err.wrap (context : String) (e : Err) : Err := { e with text := s!"{context}: {e.text}" }

/-- `pgx.ErrNoRows`. -/
def noRows : Err := { text := "no rows in result set" }

/-! ## The database -/

structure NodeCounts where
  completed : ℕ
  failed : ℕ
  skipped : ℕ
  total : ℕ

inductive Db where
  | getRollingUpdateJob
  | listRunningRollingUpdateJobs
  | listRollingUpdateJobsNeedingCleanup
  | listRollingUpdateNodes
  | getRollingUpdateNode (id : ℕ)
  | getNextPendingNode
  | countActiveNodes
  | countCompletedNodes
  | getDRSConfig
  | setDRSEnabled (enabled : Bool)
  | updateJob (u : JobUpdate)
  | updateNode (u : NodeUpdate) (id : ℕ)
  deriving DecidableEq

namespace Db

/-- What a statement that succeeds answers; an update answers how many rows it changed. -/
@[reducible] def Row : Db → Type
  | getRollingUpdateJob => JobRow
  | listRunningRollingUpdateJobs => List JobRow
  | listRollingUpdateJobsNeedingCleanup => List JobRow
  | listRollingUpdateNodes => List NodeRow
  | getRollingUpdateNode _ => NodeRow
  | getNextPendingNode => NodeRow
  | countActiveNodes => ℕ
  | countCompletedNodes => NodeCounts
  | getDRSConfig => Bool
  | setDRSEnabled _ => Unit
  | updateJob _ => ℕ
  | updateNode _ _ => ℕ

end Db

namespace World

def countSteps (w : World) (p : NodeStep → Bool) : ℕ := w.nodes.countP fun n => p n.step

def updateJob (w : World) (u : JobUpdate) : World :=
  if u.guard w then { w with job := u.set w.now w.job } else w

def updateNode (w : World) (u : NodeUpdate) (id : ℕ) : World :=
  { w with nodes := w.nodes.map fun n => if n.id = id ∧ u.guard n then u.set w.now n else n }

def setRule (w : World) (rule : String) (disable : Bool) : World :=
  { w with haRules := w.haRules.map fun r =>
      if r.rule = rule then { r with disable := disable } else r }

end World

/-- A row, or the error that there is none. -/
def rowOf {α : Type} : Option α → Except Err α
  | some a => .ok a
  | none => .error noRows

/-- A database statement that does not fail. -/
def Db.run (w : World) : (d : Db) → Except Err d.Row × World
  | .getRollingUpdateJob => (.ok w.job, w)
  | .listRunningRollingUpdateJobs => (.ok (if w.job.status = .running then [w.job] else []), w)
  | .listRollingUpdateJobsNeedingCleanup =>
      (.ok (if w.job.cleanupPending ∧ w.job.status.terminal then [w.job] else []), w)
  | .listRollingUpdateNodes => (.ok w.nodes, w)
  | .getRollingUpdateNode id => (rowOf (w.node? id), w)
  | .getNextPendingNode => (rowOf (w.nodes.find? (·.step = .pending)), w)
  | .countActiveNodes => (.ok (w.countSteps NodeStep.active), w)
  | .countCompletedNodes =>
      (.ok ⟨w.countSteps (· = .completed), w.countSteps (· = .failed), w.countSteps (· = .skipped),
        w.nodes.length⟩, w)
  | .getDRSConfig => (rowOf w.drs, w)
  | .setDRSEnabled enabled => (.ok (), { w with drs := w.drs.map fun _ => enabled })
  | .updateJob u => (.ok (if u.guard w then (1 : ℕ) else (0 : ℕ)), w.updateJob u)
  | .updateNode u id =>
      (.ok (w.nodes.countP fun n => n.id = id && u.guard n), w.updateNode u id)

/-! ## Proxmox -/

inductive Px where
  | getClusterOptions
  | setClusterOptions (crs : String)
  | getHARules
  | setHARuleDisabled (rule type : String) (disable : Bool)
  | rebootNode (node : String)
  deriving DecidableEq

@[reducible] def Px.Row : Px → Type
  | getClusterOptions => CrsOption
  | setClusterOptions _ => Unit
  | getHARules => List HARuleEntry
  | setHARuleDisabled _ _ _ => Unit
  | rebootNode _ => Unit

/-- A Proxmox call that is accepted. A rule that is not there cannot be changed. -/
def Px.run (w : World) : (p : Px) → Except Err p.Row × World
  | .getClusterOptions => (.ok w.crs, w)
  | .setClusterOptions crs => (.ok (), { w with crs := .text crs })
  | .getHARules => (.ok w.haRules, w)
  | .setHARuleDisabled rule _ disable =>
      if w.haRules.any (·.rule = rule) then (.ok (), w.setRule rule disable)
      else (.error { text := s!"no such ha rule '{rule}'" }, w)
  | .rebootNode _ => (.ok (), w)

/-! ## Calls that change nothing tracked -/

/-- What a wait for a task, or for a guest's lock, ends with. -/
inductive TaskResult where
  | completed | failed | timeout | interrupted
  deriving DecidableEq

def TaskResult.text : TaskResult → String
  | completed => "completed"
  | failed => "failed"
  | timeout => "timeout"
  | interrupted => "interrupted"

/-- What `nodemember.Require` says of a node's name. -/
inductive Membership where
  | member | notMember | lookupFailed
  deriving DecidableEq

structure VirtualMachine where
  vmid : ℕ
  name : String
  status : String
  template : Bool := false

structure Container where
  vmid : ℕ
  name : String
  status : String

structure NodeListEntry where
  node : String
  status : String

abbrev VMConfig := List (String × JsonValue)

structure SSHCredentials where
  hasPassword : Bool
  hasPrivateKey : Bool

structure SSHResult where
  stdout : String
  exitCode : ℤ

/-- Calls to Proxmox, to a node over SSH, or to tables nothing here writes. Where a guest runs is
only ever read back by such a call. -/
inductive Ext where
  | createClient
  | requireMember (node : String)
  | shuttingDown
  | refreshNodeAptIndex (node : String)
  | getNodeAptUpdates (node : String)
  | waitForTask (node upid : String)
  | waitForGuestUnlocked (guest : GuestSnapshot) (expectNode : String)
  | getVMs (node : String)
  | getContainers (node : String)
  | getVMConfig (node : String) (vmid : ℕ)
  | getNodes
  | loadHAConstraints
  | selectTarget (guest : GuestSnapshot) (node : String) (targets : List String)
  | migrateWithRetry (node : String) (guest : GuestSnapshot) (target : String) (online : Bool)
  | migrate (node : String) (guest : GuestSnapshot) (target : String) (online : Bool)
  | shutdownGuest (node : String) (guest : GuestSnapshot)
  | stopGuest (node : String) (guest : GuestSnapshot)
  | startGuest (node : String) (guest : GuestSnapshot)
  | getNodeStatus (node : String)
  | getClusterSSHCredentials
  | decryptPassword
  | decryptPrivateKey
  | getNodeAddressByName (node : String)
  | getSSHKnownHost (host : String)
  | parseAuthorizedKey (host : String)
  | execute (host cmd : String)
  deriving DecidableEq

@[reducible] def Ext.Ans : Ext → Type
  | createClient => Except Err Unit
  | requireMember _ => Membership
  | shuttingDown => Bool
  | refreshNodeAptIndex _ => Except Err String
  | getNodeAptUpdates _ => Except Err (List String)
  | waitForTask _ _ => TaskResult
  | waitForGuestUnlocked _ _ => TaskResult
  | getVMs _ => Except Err (List VirtualMachine)
  | getContainers _ => Except Err (List Container)
  | getVMConfig _ _ => Except Err VMConfig
  | getNodes => Except Err (List NodeListEntry)
  | loadHAConstraints => Except Err Unit
  | selectTarget _ _ _ => Except Err String
  | migrateWithRetry _ _ _ _ => Except Err String
  | migrate _ _ _ _ => Except Err String
  | shutdownGuest _ _ => Except Err String
  | stopGuest _ _ => Except Err String
  | startGuest _ _ => Except Err String
  | getNodeStatus _ => Except Err ℕ
  | getClusterSSHCredentials => Except Err SSHCredentials
  | decryptPassword => Except Err Unit
  | decryptPrivateKey => Except Err Unit
  | getNodeAddressByName _ => Except Err String
  | getSSHKnownHost _ => Except Err Unit
  | parseAuthorizedKey _ => Except Err Unit
  | execute _ _ => Except Err SSHResult

/-! ## Parties and their statements -/

inductive Role where
  | tick
  /-- The goroutine that upgrades a node, with the rows it was launched with. -/
  | sshUpgrade (job : JobRow) (node : NodeRow) (host : String)
  /-- A beat of such a goroutine's heartbeat. -/
  | heartbeat (id : ℕ)
  | startJob
  | cancelJob
  /-- The goroutine a cancel request leaves behind. -/
  | cancelCleanup
  | pauseJob
  | resumeJob
  | confirmUpgrade (id : ℕ)
  | skipNode (id : ℕ)
  /-- A request that wants a finished job's state released before it goes on. -/
  | releaseJobState
  /-- An operator deletes an HA rule. -/
  | deleteHARule (rule : String)
  | wait (seconds : ℕ)
  deriving DecidableEq

inductive Stmt where
  | db (d : Db)
  | px (p : Px)
  | ext (q : Ext)
  | now
  /-- The leader's ticks follow one another. -/
  | beginTick
  | endTick
  /-- `go f()`. -/
  | go (r : Role)
  | respond (status : ℕ) (message : String)
  | deleteHARule (rule : String)
  | wait (seconds : ℕ)
  deriving DecidableEq

@[reducible] def Stmt.Ans : Stmt → Type
  | db d => Except Err d.Row
  | px p => Except Err p.Row
  | ext q => q.Ans
  | now => ℕ
  | beginTick | endTick | go _ | respond _ _ | deleteHARule _ | wait _ => Unit

/-- The error of a statement that fails, and the answer of a call whose answer is free. -/
@[reducible] def Stmt.Outcome : Stmt → Type
  | db _ | px _ => Option Err
  | now => Unit
  | e => e.Ans

abbrev sig : Sig := ⟨Stmt, Stmt.Ans⟩

/-- Code of the orchestrator and of the request handlers. -/
abbrev Code (α : Type) := Prog sig α

def db (d : Db) : Code (Except Err d.Row) := Prog.stmt (S := sig) (.db d)

def px (p : Px) : Code (Except Err p.Row) := Prog.stmt (S := sig) (.px p)

def ext (q : Ext) : Code q.Ans := Prog.stmt (S := sig) (.ext q)

def timeNow : Code ℕ := Prog.stmt (S := sig) .now

def go (r : Role) : Code Unit := Prog.stmt (S := sig) (.go r)

def respond (status : ℕ) (message : String) : Code Unit :=
  Prog.stmt (S := sig) (.respond status message)

/-- The call that was issued, whether or not it is accepted. -/
def Px.issue (p : Px) (w : World) : World :=
  match p with
  | .rebootNode node => { w with reboots := node :: w.reboots }
  | _ => w

/-- The effect of a statement of party `i`. -/
def exec (i : ℕ) : (e : Stmt) → e.Outcome → World → Option (e.Ans × World)
  | .db _, some e, w => some (.error e, w)
  | .db d, none, w => some (d.run w)
  | .px p, some e, w => some (.error e, p.issue w)
  | .px p, none, w => some (p.run (p.issue w))
  | .ext _, a, w => some (a, w)
  | .now, _, w => some (w.now, w)
  | .beginTick, _, w => if w.leader = none then some ((), { w with leader := some i }) else none
  | .endTick, _, w => some ((), { w with leader := none })
  | .go _, _, w => some ((), w)
  | .respond _ _, _, w => some ((), w)
  | .deleteHARule rule, _, w =>
      some ((), { w with haRules := w.haRules.filter (·.rule ≠ rule) })
  | .wait seconds, _, w => some ((), { w with now := w.now + seconds })

/-! ## What a step can do -/

def Stmt.reboots : Stmt → Bool
  | .px (.rebootNode _) => true
  | _ => false

def fails : (e : Stmt) → e.Outcome → Bool
  | .db _ => fun o => Option.isSome o
  | .px _ => fun o => Option.isSome o
  | _ => fun _ => false

inductive Effect (i : ℕ) (w : World) : (e : Stmt) → e.Outcome → World → Prop
  | same (e : Stmt) (o : e.Outcome) : Effect i w e o w
  | job (u : JobUpdate) : Effect i w (.db (.updateJob u)) none (w.updateJob u)
  | node (u : NodeUpdate) (id : ℕ) : Effect i w (.db (.updateNode u id)) none (w.updateNode u id)
  | drs (enabled : Bool) :
      Effect i w (.db (.setDRSEnabled enabled)) none { w with drs := w.drs.map fun _ => enabled }
  | crs (crs : String) : Effect i w (.px (.setClusterOptions crs)) none { w with crs := .text crs }
  | rule (rule type : String) (disable : Bool) :
      Effect i w (.px (.setHARuleDisabled rule type disable)) none (w.setRule rule disable)
  | reboot (node : String) (o : Option Err) :
      Effect i w (.px (.rebootNode node)) o { w with reboots := node :: w.reboots }
  | beginTick (h : w.leader = none) : Effect i w .beginTick () { w with leader := some i }
  | endTick : Effect i w .endTick () { w with leader := none }
  | deleteHARule (rule : String) :
      Effect i w (.deleteHARule rule) () { w with haRules := w.haRules.filter (·.rule ≠ rule) }
  | wait (seconds : ℕ) : Effect i w (.wait seconds) () { w with now := w.now + seconds }

theorem exec_effect {i : ℕ} {e : Stmt} {o : e.Outcome} {a : e.Ans} {w w' : World}
    (hx : exec i e o w = some (a, w')) : Effect i w e o w' := by
  cases e with
  | db d =>
    cases o with
    | some err => cases hx; exact .same _ _
    | none =>
      cases d with
      | updateJob u => cases hx; exact .job u
      | updateNode u id => cases hx; exact .node u id
      | setDRSEnabled enabled => cases hx; exact .drs enabled
      | _ => cases hx; exact .same _ _
  | px p =>
    cases p with
    | rebootNode node =>
      cases o with
      | some err | none => cases hx; exact .reboot node _
    | setHARuleDisabled rule type disable =>
      cases o with
      | some err => cases hx; exact .same _ _
      | none =>
        -- there may be no such rule
        replace hx : some (if w.haRules.any (·.rule = rule) then (.ok (), w.setRule rule disable)
          else (.error { text := s!"no such ha rule '{rule}'" }, w)) = some (a, w') := hx
        split_ifs at hx
        · cases hx; exact .rule rule type disable
        · cases hx; exact .same _ _
    | setClusterOptions crs =>
      cases o with
      | some err => cases hx; exact .same _ _
      | none => cases hx; exact .crs crs
    | _ =>
      cases o with
      | some err | none => cases hx; exact .same _ _
  | beginTick =>
    replace hx : (if w.leader = none then some ((), { w with leader := some i }) else none) =
      some (a, w') := hx
    split_ifs at hx with hleader
    cases hx
    exact .beginTick hleader
  | endTick => cases hx; exact .endTick
  | deleteHARule rule => cases hx; exact .deleteHARule rule
  | wait seconds => cases hx; exact .wait seconds
  | _ => cases hx; exact .same _ _

def forks : Stmt → List Role
  | .go r => [r]
  | _ => []

end Nexara.Rolling
