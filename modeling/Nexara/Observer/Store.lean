import Nexara.Observer.Pace
import Nexara.Go.Strings

/-!
# What the observer keeps, and its one write

Of one cluster: the rows the database holds (`Db`), what the process keeps between passes (`Memory`)
and what one pass keeps (`Pass`). `Db.recordObservedObjects` is the single statement that stores a
batch whole; `write` is its caller, told whether the statement went through. One that fails stores
nothing, but the pacing of the batch's objects has already moved: it is in `Memory`, not in the
batch.
-/

namespace Nexara.Observer

open Go (Map)

/-- `storedObject`, a row of `cluster_object_state`. -/
structure StoredObject where
  tags : ObjectTags := {}
  node : String := ""
  signature : String := ""
  lastSeen : Time := 0
  deriving DecidableEq

/-- `storedBaseline`, a row of `cluster_object_baselines`. -/
structure StoredBaseline where
  signature : String := ""
  lastRead : Time := 0

/-- What is held of an object past a cap. -/
structure PresenceEntry where
  tag : String
  node : String := ""
  signature : String

/-- When a notice's condition began, and when the notice was last filed. -/
structure NoticeGate where
  since : Time := 0
  given : Time := 0

/-- `observedStateRow`. -/
structure StateRow where
  objectID : String
  fields : ObjectTags
  node : String
  signature : String
  lastSeenAt : Time

/-- `observedPresenceRow`. -/
structure PresenceRow where
  objectID : String
  node : String
  tag : String
  signature : String

/-- `recordBatch`; the notice gates are `none` when none moved. -/
structure RecordBatch where
  changes : List ChangeRow := []
  states : List StateRow := []
  removed : List String := []
  touched : List String := []
  presence : List PresenceRow := []
  presenceRemoved : List String := []
  notices : Option (Map NoticeGate) := none

namespace RecordBatch

def empty (b : RecordBatch) : Bool :=
  b.changes.isEmpty && b.states.isEmpty && b.removed.isEmpty && b.touched.isEmpty &&
    b.presence.isEmpty && b.presenceRemoved.isEmpty && b.notices.isNone

def save (b : RecordBatch) (obj : ObservedObject) (tags : ObjectTags) (sig : String)
    (readAt : Time) : RecordBatch :=
  { b with states := b.states ++
      [{ objectID := obj.id, fields := tags, node := obj.node, signature := sig
         lastSeenAt := readAt }] }

def record (b : RecordBatch) (rows : List ChangeRow) : RecordBatch :=
  { b with changes := b.changes ++ rows }

end RecordBatch

/-- One cluster's rows by kind: `cluster_object_state`, `cluster_object_presence`,
`cluster_object_baselines` with its notice gates, and `cluster_object_changes`, oldest first. -/
structure Db where
  state : String → Map StoredObject := fun _ => ∅
  presence : String → Map PresenceEntry := fun _ => ∅
  baselines : Map StoredBaseline := ∅
  notices : Map NoticeGate := ∅
  changes : List ChangeRow := []

/-- A row stored, over the one the object had. -/
def putState (m : Map StoredObject) (s : StateRow) : Map StoredObject :=
  m.insert s.objectID
    { tags := s.fields, node := s.node, signature := s.signature, lastSeen := s.lastSeenAt }

/-- `last_seen_at` of one object moved. -/
def touchState (seenAt : Time) (m : Map StoredObject) (id : String) : Map StoredObject :=
  match m.lookup id with
  | none => m
  | some s => m.insert id { s with lastSeen := seenAt }

/-- A presence entry stored, over the one the object had. -/
def putPresence (m : Map PresenceEntry) (r : PresenceRow) : Map PresenceEntry :=
  m.insert r.objectID { tag := r.tag, node := r.node, signature := r.signature }

def stateAfter (m : Map StoredObject) (b : RecordBatch) (seenAt : Time) : Map StoredObject :=
  b.touched.foldl (touchState seenAt) (b.removed.foldl (fun m id => m.erase id)
    (b.states.foldl putState m))

def presenceAfter (m : Map PresenceEntry) (b : RecordBatch) : Map PresenceEntry :=
  b.presence.foldl putPresence (b.presenceRemoved.foldl (fun m id => m.erase id) m)

def Db.recordObservedObjects (db : Db) (kind : String) (b : RecordBatch) (seenAt : Time)
    (mark : String) : Db where
  state := Function.update db.state kind (stateAfter (db.state kind) b seenAt)
  presence := Function.update db.presence kind (presenceAfter (db.presence kind) b)
  baselines := if mark = "" then db.baselines
    else db.baselines.insert kind { signature := mark, lastRead := seenAt }
  notices := b.notices.getD db.notices
  changes := db.changes ++ b.changes

/-- What comparisons use of `Observer`, for one cluster: the streaks of its noisy objects by kind,
the empty readings held once, and the presence read from the database. -/
structure Memory where
  noisy : String → Map NoisyObject := fun _ => ∅
  held : List (String × String) := []
  presence : Option (String → Map PresenceEntry) := none

/-- `observePass`. The kinds read, each on its node, and the guests walked are where the loops of
`observeCluster` and `observeGuests` are. -/
structure Pass where
  state : String → Map StoredObject := fun _ => ∅
  baselines : Map StoredBaseline := ∅
  notices : Map NoticeGate := ∅
  noticesStale : Bool := false
  pastCap : Map Time := ∅
  presence : String → Map PresenceEntry := fun _ => ∅
  versions : String := ""
  upgraded : List String := []
  read : List (String × String) := []
  walked : List (String × String) := []

structure World where
  db : Db := {}
  mem : Memory := {}
  pass : Pass := {}

/-- One batch in one statement, which goes through or stores nothing. It also reports whether it
did. -/
def World.write (w : World) (kind : String) (b : RecordBatch) (seenAt : Time) (mark : String)
    (ok : Bool) : World × Bool :=
  if b.empty && mark = "" then (w, true)
  else if ok then
    let presence := Function.update w.pass.presence kind (presenceAfter (w.pass.presence kind) b)
    ({ w with
        db := w.db.recordObservedObjects kind b seenAt mark
        mem := { w.mem with presence := w.mem.presence.map fun _ => presence }
        pass := { w.pass with presence } }, true)
  else
    -- forgetPresence: what the database holds is read again next pass
    let presence :=
      if b.presence.isEmpty && b.presenceRemoved.isEmpty then w.mem.presence else none
    ({ w with mem := { w.mem with presence }, pass := { w.pass with noticesStale := true } },
      false)

end Nexara.Observer
