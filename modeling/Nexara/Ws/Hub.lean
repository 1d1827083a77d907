import Nexara.Conc.Protocol

/-!
# The WebSocket hub

The hub's state is confined to one goroutine; clients reach it through channels, one for each kind
of request, and a turn of its loop takes the oldest request of any of them. A client registers,
sends what its connection reads, and unregisters when the connection ends.

A party is a client and its number is the client's name. The sets of the hub are lists without
duplicates; a room or a client without an entry in a map reads as an empty set.
-/

namespace Nexara.Ws

open Conc

/-- What a client's connection reads. -/
inductive IncomingMessage where
  | ping
  | subscribe (channels : List String)
  | unsubscribe (channels : List String)
  | other

/-! ## The hub's state -/

/-- What the hub's goroutine owns: who is in which room, both ways, and each room's last message. -/
structure HubState where
  clients : List ℕ := []
  rooms : String → List ℕ := fun _ => []
  clientRooms : ℕ → List String := fun _ => []
  lastMsg : String → Option String := fun _ => none

def delete {α : Type} [DecidableEq α] (set : List α) (x : α) : List α := set.filter (· ≠ x)

/-- The client leaves its rooms and the hub. -/
def HubState.removeClient (st : HubState) (c : ℕ) : HubState :=
  if c ∈ st.clients then
    { st with
      rooms := fun room =>
        if room ∈ st.clientRooms c then delete (st.rooms room) c else st.rooms room
      clientRooms := fun c' => if c' = c then [] else st.clientRooms c'
      clients := delete st.clients c }
  else st

/-- A message to a registered client, which is evicted when its buffer is full. -/
def HubState.trySendOrEvict (st : HubState) (c : ℕ) (accepts : Bool) : HubState :=
  if c ∈ st.clients then if accepts then st else st.removeClient c else st

/-- Whether each client's buffer has room for a message of this turn, and the subscriber's for the
cached one after it. -/
structure Buffers where
  message : ℕ → Bool
  cached : Bool

/-- The client joins a room, is told so, and is sent the room's last message. -/
def HubState.subscribe (st : HubState) (c : ℕ) (channel : String) (buffers : Buffers) : HubState :=
  let st : HubState := { st with
    clients := st.clients.insert c
    rooms := fun room =>
      if room = channel then (st.rooms room).insert c else st.rooms room
    clientRooms := fun c' =>
      if c' = c then (st.clientRooms c').insert channel else st.clientRooms c' }
  let st := st.trySendOrEvict c (buffers.message c)
  match st.lastMsg channel with
  | some _ => st.trySendOrEvict c buffers.cached
  | none => st

def HubState.unsubscribe (st : HubState) (c : ℕ) (channel : String) : HubState :=
  { st with
    rooms := fun room => if room = channel then delete (st.rooms room) c else st.rooms room
    clientRooms := fun c' =>
      if c' = c then delete (st.clientRooms c') channel else st.clientRooms c' }

/-- A room's message is kept as its last one and sent to its clients. -/
def HubState.broadcast (st : HubState) (room payload : String) (buffers : Buffers) : HubState :=
  let st : HubState :=
    { st with lastMsg := fun room' => if room' = room then some payload else st.lastMsg room' }
  (st.rooms room).foldl (fun st c => st.trySendOrEvict c (buffers.message c)) st

/-! ## Channels -/

/-- The hub, and what its channels hold, the oldest request first. -/
structure World where
  maxConnections : ℕ
  hub : HubState := {}
  registerCh : List ℕ := []
  unregisterCh : List ℕ := []
  subscribeCh : List (ℕ × String) := []
  unsubCh : List (ℕ × String) := []
  broadcastCh : List (String × String) := []
  stopped : Bool := false

/-- What a turn of the loop takes up. -/
inductive Queue where
  | register
  | unregister
  | subscribe
  | unsubscribe
  | broadcast
  | stop

/-- What a turn of the loop has done. -/
inductive Handled where
  | registered (c : ℕ)
  | rejected (c : ℕ)
  | unregistered (c : ℕ)
  | subscribed (c : ℕ) (channel : String)
  | unsubscribed (c : ℕ) (channel : String)
  | broadcast (room : String)
  | stopped
  deriving DecidableEq

/-- One turn of the loop of `run`. -/
def World.turn (w : World) (queue : Queue) (buffers : Buffers) : Option (Handled × World) :=
  if w.stopped then none
  else match queue with
  | .stop =>
    some (.stopped, { w with hub := w.hub.clients.foldl HubState.removeClient w.hub, stopped := true })
  | .register =>
    match w.registerCh with
    | [] => none
    | c :: rest =>
      if 0 < w.maxConnections ∧ w.maxConnections ≤ w.hub.clients.length then
        some (.rejected c, { w with registerCh := rest })
      else
        some (.registered c, { w with
          registerCh := rest
          hub := { w.hub with clients := w.hub.clients.insert c } })
  | .unregister =>
    match w.unregisterCh with
    | [] => none
    | c :: rest =>
      some (.unregistered c, { w with unregisterCh := rest, hub := w.hub.removeClient c })
  | .subscribe =>
    match w.subscribeCh with
    | [] => none
    | (c, channel) :: rest =>
      some (.subscribed c channel, { w with
        subscribeCh := rest
        hub := w.hub.subscribe c channel buffers })
  | .unsubscribe =>
    match w.unsubCh with
    | [] => none
    | (c, channel) :: rest =>
      some (.unsubscribed c channel, { w with
        unsubCh := rest
        hub := w.hub.unsubscribe c channel })
  | .broadcast =>
    match w.broadcastCh with
    | [] => none
    | (room, payload) :: rest =>
      some (.broadcast room, { w with
        broadcastCh := rest
        hub := w.hub.broadcast room payload buffers })

/-! ## Clients -/

/-- What clients and publishers ask of the hub, and one turn of its loop. -/
inductive Stmt where
  | register
  | unregister
  | canSubscribe (channel : String)
  | subscribe (channel : String)
  | unsubscribe (channel : String)
  | broadcast (room payload : String)
  | turn

@[reducible] def Stmt.Ans : Stmt → Type
  | canSubscribe _ => Bool
  | turn => Handled
  | register | unregister | subscribe _ | unsubscribe _ | broadcast .. => Unit

/-- What the environment chooses: the permission, and what a turn takes up with which buffers. -/
@[reducible] def Stmt.Outcome : Stmt → Type
  | turn => Queue × Buffers
  | e => e.Ans

abbrev sig : Sig := ⟨Stmt, Stmt.Ans⟩

abbrev Code (α : Type) := Prog sig α

def call (e : Stmt) : Code e.Ans := Prog.stmt (S := sig) e

/-- A client subscribes to the channels it may read, one request each. -/
def handleMessage : IncomingMessage → Code Unit
  | .ping | .other => return
  | .subscribe channels => Prog.each (fun ch => do
      if (← call (.canSubscribe ch) : Bool) then call (.subscribe ch)) channels
  | .unsubscribe channels => Prog.each (fun ch => call (.unsubscribe ch)) channels

/-- A connection: `Register`, then `readPump` until it ends. -/
def handleWS (messages : List IncomingMessage) : Code Unit := do
  call .register
  Prog.each handleMessage messages
  call .unregister

/-- A send on a channel, which waits while the channel is full. -/
def push {α : Type} (capacity : ℕ) (queue : List α) (x : α) : Option (List α) :=
  if queue.length < capacity then some (queue ++ [x]) else none

/-- Requests are sent on the hub's channels; a turn takes one of them up. -/
def exec (i : ℕ) : (e : Stmt) → e.Outcome → World → Option (e.Ans × World)
  | .register, _, w => (push 64 w.registerCh i).map fun q => ((), { w with registerCh := q })
  | .unregister, _, w => (push 64 w.unregisterCh i).map fun q => ((), { w with unregisterCh := q })
  | .canSubscribe _, ok, w => some (ok, w)
  | .subscribe channel, _, w =>
    (push 64 w.subscribeCh (i, channel)).map fun q => ((), { w with subscribeCh := q })
  | .unsubscribe channel, _, w =>
    (push 64 w.unsubCh (i, channel)).map fun q => ((), { w with unsubCh := q })
  | .broadcast room payload, _, w =>
    (push 256 w.broadcastCh (room, payload)).map fun q => ((), { w with broadcastCh := q })
  | .turn, (queue, buffers), w => w.turn queue buffers

/-- Who is at work: a client's connection, a publisher, one turn of the hub's loop. -/
inductive Role where
  | client (messages : List IncomingMessage)
  | publish (room payload : String)
  | loop

def code : Role → Code Unit
  | .client messages => handleWS messages
  | .publish room payload => call (.broadcast room payload)
  | .loop => do
    let _ ← call .turn
    return

abbrev hub : System where
  sig := sig
  State := World
  Role := Role
  code := code
  Outcome := Stmt.Outcome
  exec := fun i _ => exec i

end Nexara.Ws
