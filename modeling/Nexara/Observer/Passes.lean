import Nexara.Observer.Loops

/-!
# The passes over a cluster

A process observes a cluster pass after pass: `World.step` is one event of it. A pass loads what is
stored, reads each kind once (a node's kind once on each node) and walks each guest once, a batch at
a time; every write goes through or stores nothing. Between passes streaks without a gathered change
are dropped. The process does not restart.
-/

namespace Nexara.Observer

open Go (Map)

/-- The kinds of the guests, walked and never listed. -/
def guestKinds : List String := ["vm", "container"]

/-- One batch of the walk over the guests. -/
structure GuestBatch where
  kind : String
  sig : String
  results : List GuestResult
  seenAt : Time

/-- One event of a process observing a cluster. -/
inductive Event where
  /-- `ObserveAll`: the streaks of objects not changed for a day are dropped. -/
  | tick (now : Time)
  /-- `observeCluster` begins: what is stored is loaded. -/
  | start (versions : String) (upgraded : List String)
  /-- One reading of a kind is applied; the gates may be readable again, the write may go
  through. -/
  | apply (i : Given) (readable ok : Bool)
  /-- One batch of guests is compared and flushed. -/
  | guests (b : GuestBatch) (ok : Bool)
  /-- What is held of some objects of a kind is dropped. -/
  | forgetHeld (kind : String) (state presence gates : List String) (now : Time) (ok : Bool)
  | forgetGuests (kind : String) (gone : List String) (ok : Bool)

namespace World

def forgetQuietObjects (w : World) (now : Time) : World :=
  { w with mem := { w.mem with
      noisy := fun kind => Go.deleteFunc (w.mem.noisy kind) fun _ n => n.forgotten now } }

/-- `load`, with `presenceOf`: the presence kept between passes, or read again. -/
def load (w : World) (versions : String) (upgraded : List String) : World :=
  let presence := w.mem.presence.getD w.db.presence
  { w with
    mem := { w.mem with presence := some presence }
    pass :=
      { state := w.db.state, baselines := w.db.baselines, notices := w.db.notices, presence
        versions, upgraded } }

def walkGuest (cfg : Settings) (p : Pass) (kind sig : String)
    (s : Gathering × List (String × String)) (r : GuestResult) :
    Gathering × List (String × String) :=
  if (kind, r.obj.id) ∈ s.2 then s
  else (applyGuest cfg p kind sig s.1 r, (kind, r.obj.id) :: s.2)

def walkGuests (w : World) (cfg : Settings) (b : GuestBatch) :
    Gathering × List (String × String) :=
  b.results.foldl (walkGuest cfg w.pass b.kind b.sig)
    ({ noisy := w.mem.noisy b.kind }, w.pass.walked)

/-- One batch of guests compared and flushed (`observeGuests`). -/
def flushGuests (w : World) (cfg : Settings) (b : GuestBatch) (ok : Bool) : World :=
  let (g, walked) := w.walkGuests cfg b
  let w := { w with
    mem := { w.mem with noisy := Function.update w.mem.noisy b.kind g.noisy }
    pass := { w.pass with walked } }
  (w.write b.kind g.batch b.seenAt "" ok).1

/-- What `forgetHeld` writes: the objects and the gates dropped. -/
def forgetBatch (w : World) (state presence gates : List String) : RecordBatch :=
  let next := Go.deleteFunc w.pass.notices fun k _ => decide (k ∈ gates)
  { removed := state, presenceRemoved := presence
    notices := if next.entries.length ≠ w.pass.notices.entries.length then some next else none }

def forgetHeld (w : World) (kind : String) (state presence gates : List String) (now : Time)
    (ok : Bool) : World :=
  let b := w.forgetBatch state presence gates
  if b.empty then w
  else match w.write kind b now "" ok with
    | (w, false) => w
    | (w, true) =>
      { w with pass := { w.pass with
          notices := b.notices.getD w.pass.notices
          state := Function.update w.pass.state kind
            (state.foldl (fun m id => m.erase id) (w.pass.state kind)) } }

/-- `forgetGuests`, of one kind. -/
def forgetGuests (w : World) (kind : String) (gone : List String) (ok : Bool) : World :=
  if ok then
    { w with db := { w.db with
        state := Function.update w.db.state kind
          (gone.foldl (fun m id => m.erase id) (w.db.state kind)) } }
  else w

/-- One event. A pass reads a kind on a node once, and a guest's kind only by the walk. -/
def step (cfg : Settings) (w : World) : Event → World
  | .tick now => w.forgetQuietObjects now
  | .start versions upgraded => w.load versions upgraded
  | .apply i readable ok =>
    if i.rd.kind ∈ guestKinds ∨ (i.rd.kind, i.node) ∈ w.pass.read then w
    else
      let w := { w with pass := { w.pass with read := (i.rd.kind, i.node) :: w.pass.read } }
      w.apply cfg i readable ok
  | .guests b ok => if b.kind ∈ guestKinds then w.flushGuests cfg b ok else w
  | .forgetHeld kind state presence gates now ok =>
    w.forgetHeld kind state presence gates now ok
  | .forgetGuests kind gone ok => w.forgetGuests kind gone ok

def run (cfg : Settings) (w : World) (es : List Event) : World := es.foldl (step cfg) w

/-- A process starts its first pass over a database. -/
def boot (db : Db) (versions : String) : World := load { db } versions []

end World

end Nexara.Observer
