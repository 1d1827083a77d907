import Nexara.Observer.Store

/-!
# One reading compared with what is stored

`World.apply` is `observePass.apply`: a reading of one kind is compared object by object with the
stored readings, the changes found are paced into a batch, what is past its cap is compared by
presence and counted, and the batch is written. `applyGuest` is the same for one guest.
-/

namespace Nexara.Observer

open Go (Map)

/-- What one read of a kind produced. -/
structure KindReading where
  kind : String
  objects : List ObservedObject := []
  unread : List String := []
  forget : List String := []
  quiet : List String := []
  listed : ℕ := 0
  childKind : String := ""
  childParentOf : String → String := fun id => id
  parentOf : Option (String → String) := none
  parents : Map Bool := ∅
  parentKind : String := ""

/-- The observer's caps, the cluster it reads, `crypto.Tag` under the key (of a kind, an object, a
field and a value), and what an object's whole tag is made of. -/
structure Settings where
  maxObjects : ℕ := 10000
  maxKind : ℕ := 100000
  maxAccess : ℕ := 20000
  clusterID : String
  tag : String → String → String → String → Option String
  whole : ObservedObject → Option String

def accessKinds : List String := ["pve_acl", "pve_user", "pve_group", "pve_token", "pve_role"]

def observeWholeField : String := "\x00whole"

def observeUnsettled : String := "unsettled"

def observeMaxChanges : ℕ := 50

section

variable (cfg : Settings)

def Settings.capFor (kind : String) : ℕ :=
  if kind ∈ accessKinds then cfg.maxAccess else cfg.maxObjects

/-- `makeTags`, of a map of scalars. -/
def Settings.tagScalars (kind id : String) (fields : Map String) : Option (Map String) :=
  fields.entries.foldlM (fun out e => (cfg.tag kind id e.1 e.2).map (out.insert e.1 ·)) ∅

/-- `makeTags`, of a map of lists. -/
def Settings.tagLists (kind id : String) (lists : Map (List String)) :
    Option (Map (List String)) :=
  lists.entries.foldlM (fun out e =>
    (e.2.mapM (cfg.tag kind id e.1)).map (out.insert e.1 ·)) ∅

/-- `makeTags`, which `tagObject` remembers. -/
def Settings.makeTags (kind : String) (obj : ObservedObject) : Option ObjectTags := do
  let scalar ← cfg.tagScalars kind obj.id obj.fields
  let lists ← cfg.tagLists kind obj.id obj.lists
  return { scalar, lists, members := obj.members }

def Settings.wholeTag (kind : String) (obj : ObservedObject) : Option String := do
  cfg.tag kind obj.id observeWholeField (← cfg.whole obj)

def Settings.wasHardware (kind id : String) (old : StoredObject) : Bool :=
  kind = "network" &&
    match cfg.tag kind id "type" "eth" with
    | none => false
    | some eth => (old.tags.scalar.lookup "type").getD "" = eth

end

def removedObject (kind id node : String) : ObservedObject :=
  if kind = "node_firewall" then
    { id, resourceType := "firewall_rule", resourceID := "node/" ++ id, node }
  else if kind = "node_options" ∨ kind = "node_dns" ∨ kind = "node_time" then
    { id, resourceType := "node", resourceID := id, node }
  else { id, resourceType := kind, resourceID := id, node }

def markVersions (mark : String) : String × String := (Go.cut mark '/').getD (mark, "")

/-- Whether a change is limited to fields a reading keeps quiet. -/
def allIn (fields set : List String) : Bool := !set.isEmpty && fields.all (· ∈ set)

/-! ## The caps -/

structure CapScope where
  parent : String := ""
  key : String
  listed : ℕ := 0
  cap : ℕ
  isOver : Bool := false
  wasOver : Bool := false
  since : Time := 0
  byKind : Bool := false
  current : List ObservedObject := []
  added : List String := []
  removed : List String := []
  changed : List String := []
  heldUnread : Bool := false

def CapScope.byPresence (s : CapScope) : Bool := s.isOver || s.wasOver

/-- The scopes of a reading before their gates: the whole reading, or each parent read. -/
def countScopes (cfg : Settings) (rd : KindReading) (key : String) : Map CapScope :=
  let listed := max rd.objects.length rd.listed
  let limit := cfg.capFor rd.kind
  match rd.parentOf with
  | none => (∅ : Map CapScope).insert "" { key, listed, cap := limit }
  | some parentOf =>
    let new parent : CapScope := { parent, key := key ++ "/" ++ parent, cap := limit }
    let scopes := (∅ : Map CapScope).insert "" { key, listed, cap := cfg.maxKind }
    let scopes := rd.objects.foldl (fun scopes obj =>
      let s := (scopes.lookup (parentOf obj.id)).getD (new (parentOf obj.id))
      scopes.insert (parentOf obj.id) { s with listed := s.listed + 1 }) scopes
    rd.parents.entries.foldl (fun scopes e =>
      if e.2 && e.1 ∉ scopes then scopes.insert e.1 (new e.1) else scopes) scopes

/-- The gates of parents no longer listed. -/
def goneGates (p : Pass) (rd : KindReading) (key : String) : List String :=
  if rd.parentOf.isNone then []
  else p.notices.keys.filter fun k =>
    match Go.cutPrefix k (key ++ "/") with
    | none => false
    | some parent => parent ∉ rd.parents

/-- A scope with its gate: past its cap now, past it before, and since when. -/
def gateScope (p : Pass) (whole : Time) (pastKind : Bool) (name : String) (s : CapScope) :
    CapScope :=
  let gate := p.notices.lookup s.key
  let pastOwn : Bool := s.cap < s.listed
  let byKind := name ≠ "" && pastKind && 0 < s.listed && !pastOwn
  let isOver := pastOwn || byKind
  { s with
    isOver, byKind
    wasOver := gate.isSome
    since := if isOver && gate.isNone then whole else (gate.getD {}).since }

/-- The notice gate of a kind's scopes. -/
def gateKey (kind node : String) : String := "too_many_objects/" ++ kind ++ "/" ++ node

def capScopes (cfg : Settings) (p : Pass) (rd : KindReading) (node : String) (whole : Time) :
    Map CapScope :=
  let scopes := countScopes cfg rd (gateKey rd.kind node)
  let pastKind := match scopes.lookup "" with
    | none => false
    | some s => decide (s.cap < s.listed)
  scopes.entries.foldl (fun out e => out.insert e.1 (gateScope p whole pastKind e.1 e.2)) ∅

/-! ## The comparison of one object -/

/-- The pacing of a kind's objects, and the batch it records into. -/
structure Gathering where
  noisy : Map NoisyObject
  batch : RecordBatch := {}

namespace Gathering

/-- A change of one object, paced and recorded. -/
def pace (g : Gathering) (id : String) (ch : ChangeRow) (now : Time) : Gathering :=
  let (n, rows) := Observer.pace (g.noisy.lookup id) ch now
  { noisy := g.noisy.insert id n, batch := g.batch.record rows }

/-- An object read unchanged, or gone: what was gathered of it is recorded. -/
def quiet (g : Gathering) (id : String) : Gathering :=
  { noisy := g.noisy.erase id, batch := g.batch.record (Observer.quiet (g.noisy.lookup id)) }

/-- An object's reading stored with the batch. -/
def save (g : Gathering) (obj : ObservedObject) (tags : ObjectTags) (sig : String)
    (readAt : Time) : Gathering :=
  { g with batch := g.batch.save obj tags sig readAt }

/-- A row recorded as it is. -/
def record (g : Gathering) (row : ChangeRow) : Gathering :=
  { g with batch := g.batch.record [row] }

/-- An object's stored reading dropped with the batch. -/
def remove (g : Gathering) (id : String) : Gathering :=
  { g with batch := { g.batch with removed := g.batch.removed ++ [id] } }

end Gathering

/-- What the loops of `apply` carry. -/
structure Comparison extends Gathering where
  unchanged : List String := []
  allOver : Bool
  seen : List String := []
  unread : List String
  scopes : Map CapScope

def Comparison.sortedScopes (a : Comparison) : List (Σ _ : String, CapScope) :=
  (Go.sort a.scopes.keys).filterMap fun name => (a.scopes.lookup name).map (⟨name, ·⟩)

/-- One reading and what it is compared with: the pass, the signature and times, and whether an
object new to it was created since `addedSince` or is part of a baseline. -/
structure Reading where
  cfg : Settings
  pass : Pass
  rd : KindReading
  node : String
  sig : String
  readAt : Time
  doneAt : Time
  baselined : Bool
  addedSince : Time

namespace Reading

variable (c : Reading)

/-- The stored readings the reading covers. -/
def prev : Map StoredObject :=
  Go.deleteFunc (c.pass.state c.rd.kind) fun _ s => !(c.node = "" || s.node = c.node)

/-- The presence entries the reading covers. -/
def held : Map PresenceEntry :=
  Go.deleteFunc (c.pass.presence c.rd.kind) fun _ e => !(c.node = "" || e.node = c.node)

/-- When an object was last read as it is stored. -/
def lastSeen (old : StoredObject) : Time :=
  if c.node ≠ "" then old.lastSeen
  else max old.lastSeen ((c.pass.baselines.lookup c.rd.kind).getD {}).lastRead

/-- When an object was last seen as stored: back under the cap, since the scope went over. -/
def seenAt (s : CapScope) (old : StoredObject) : Time :=
  if s.wasOver then max old.lastSeen s.since else c.lastSeen old

/-- The scope an object counts in. -/
def scopeName (id : String) : String :=
  match c.rd.parentOf with
  | none => ""
  | some parentOf => parentOf id

def scopeOf (a : Comparison) (id : String) : Option CapScope := a.scopes.lookup (c.scopeName id)

/-- The scope of an object marked as holding one unread. -/
def holdUnread (a : Comparison) (id : String) : Comparison :=
  match c.scopeOf a id with
  | none => a
  | some s => { a with scopes := a.scopes.insert (c.scopeName id) { s with heldUnread := true } }

/-- An object of a scope past its cap: compared field by field by the pass that crosses only. -/
def compareOver (a : Comparison) (s : CapScope) (obj : ObservedObject) : Comparison :=
  let a := { a with seen := obj.id :: a.seen }
  match c.prev.lookup obj.id with
  | none => a
  | some old =>
    if obj.shallow || s.wasOver then a
    else match c.cfg.makeTags c.rd.kind obj with
      | none => { a with unread := obj.id :: a.unread }
      | some tags =>
        let d := diffTags old.tags tags
        let g := if d.fields ≠ [] ∨ old.signature ≠ c.sig
          then a.save obj tags c.sig c.readAt else a.toGathering
        let g := if old.signature = c.sig ∧ d.fields ≠ [] ∧ !allIn d.fields c.rd.quiet
          then g.pace obj.id (changeRow obj .changed d (c.lastSeen old) c.doneAt) c.doneAt else g
        { a with toGathering := g }

/-- Since when an object new to a reading appeared, and whether a cap was passed meanwhile. -/
def appeared (s : CapScope) (obj : ObservedObject) : Time × Bool :=
  let own := if s.wasOver then (s.since, true) else (c.addedSince, false)
  match c.rd.parentOf with
  | none => own
  | some parentOf =>
    match c.pass.pastCap.lookup (c.rd.parentKind ++ "/" ++ parentOf obj.id) with
    | none => own
    | some parentSince => if !own.2 || parentSince < own.1 then (parentSince, true) else own

def compareNew (g : Gathering) (s : CapScope) (obj : ObservedObject) (tags : ObjectTags) :
    Gathering :=
  let g := g.save obj tags c.sig c.readAt
  let (since, pastCap) := c.appeared s obj
  if obj.hardware || (pastCap && since = 0) || (!pastCap && !c.baselined) then g
  else
    let row := changeRow obj .added { joined := allMembers tags.members } since c.doneAt
    g.pace obj.id { row with detail := { row.detail with whileOverCap := pastCap } } c.doneAt

/-- An object read otherwise than it is stored under the same signature. -/
def compareChanged (g : Gathering) (s : CapScope) (obj : ObservedObject) (tags : ObjectTags)
    (old : StoredObject) : Gathering :=
  let d := diffTags old.tags tags
  let g := g.save obj tags c.sig c.readAt
  if allIn d.fields c.rd.quiet then g
  else
    let row := changeRow obj .changed d (c.seenAt s old) c.doneAt
    g.pace obj.id { row with detail := { row.detail with whileOverCap := s.wasOver } } c.doneAt

def compareUnder (a : Comparison) (s : CapScope) (obj : ObservedObject) : Comparison :=
  match c.cfg.makeTags c.rd.kind obj with
  | none => { a with unread := obj.id :: a.unread }
  | some tags =>
    let a := { a with seen := obj.id :: a.seen }
    match c.prev.lookup obj.id with
    | none => { a with toGathering := c.compareNew a.toGathering s obj tags }
    | some old =>
      if old.signature ≠ c.sig then
        { a with toGathering := a.save obj tags c.sig c.readAt }
      else if (diffTags old.tags tags).fields = [] then
        { a with
          unchanged := a.unchanged ++ [obj.id]
          toGathering := a.toGathering.quiet obj.id }
      else { a with toGathering := c.compareChanged a.toGathering s obj tags old }

/-- An object read of a scope compared by presence. -/
def present (a : Comparison) (s : CapScope) (obj : ObservedObject) : Comparison :=
  let s := { s with current := s.current ++ [obj] }
  { a with scopes := a.scopes.insert (c.scopeName obj.id) s }

/-- One object of the reading; a second of the same id is passed over. -/
def compareObject (a : Comparison) (obj : ObservedObject) : Comparison :=
  if obj.id ∈ a.seen then a
  else
    let s := (c.scopeOf a obj.id).getD { key := "", cap := 0 }
    let a := { a with allOver := a.allOver && s.isOver }
    let a := if s.byPresence then c.present a s obj else a
    if s.isOver then c.compareOver a s obj else c.compareUnder a s obj

/-- `childrenOf`, of one parent. -/
def childrenOf (id : String) : ℕ :=
  let kept := (c.pass.state c.rd.childKind).keys
  let ids := kept ++ (c.pass.presence c.rd.childKind).keys.filter (· ∉ kept)
  ids.countP fun child => c.rd.childParentOf child = id

def removedRow (s : Option CapScope) (id : String) (old : StoredObject) : ChangeRow :=
  let wasOver := (s.map (·.wasOver)).getD false
  let seenAt := match s with
    | none => c.lastSeen old
    | some s => c.seenAt s old
  let row := changeRow (removedObject c.rd.kind id old.node) .removed
    { left := allMembers old.tags.members } seenAt c.doneAt
  let children := c.childrenOf id
  let children := if c.rd.childKind ≠ "" ∧ 0 < children then some children else none
  { row with detail := { row.detail with whileOverCap := wasOver, children } }

/-- One stored object the reading covers: gone, unless it was read or left unread. -/
def compareGone (a : Comparison) (e : Σ _ : String, StoredObject) : Comparison :=
  let s := c.scopeOf a e.1
  let a := if e.1 ∈ a.unread then c.holdUnread a e.1 else a
  if e.1 ∈ a.seen ∨ e.1 ∈ a.unread then a
  else if (s.any fun s => s.isOver && s.wasOver) ∧ e.1 ∉ c.rd.forget then a
  else if e.1 ∈ c.rd.forget then { a with toGathering := a.remove e.1 }
  else
    let g := (a.remove e.1).quiet e.1
    { a with
      toGathering :=
        if e.2.signature = c.sig ∧ !c.cfg.wasHardware c.rd.kind e.1 e.2
        then g.record (c.removedRow s e.1 e.2) else g }

/-- The two loops of `apply` over the objects read and the objects stored. -/
def compare (noisy : Map NoisyObject) (scopes : Map CapScope) : Comparison :=
  let a := c.rd.objects.foldl c.compareObject
    { noisy, allOver := !c.rd.objects.isEmpty, unread := c.rd.unread, scopes }
  c.prev.entries.foldl c.compareGone a

end Reading

/-! ## The comparison by presence -/

def noticeRow (resourceType resourceID notice : String) (fields : List String) (now : Time) :
    ChangeRow :=
  let row := changeRow { id := resourceID, resourceType, resourceID } .changed { fields } now now
  { row with detail := { row.detail with notice := some notice } }

def noticeTarget (cfg : Settings) (kind node : String) : String × String :=
  let resourceType := (removedObject kind "" node).resourceType
  if kind ∈ ["firewall_rule", "firewall_options"] then (resourceType, "cluster")
  else if kind ∈ ["node_options", "node_dns", "node_time", "network", "acme_config"] then
    (resourceType, node)
  else if kind = "node_firewall" then (resourceType, "node/" ++ node)
  else (resourceType, cfg.clusterID)

def kindNotice (cfg : Settings) (kind node : String) (s : CapScope) (notice : String)
    (now : Time) : ChangeRow :=
  let (resourceType, resourceID) := noticeTarget cfg kind node
  let row := noticeRow resourceType resourceID notice [kind] now
  { row with
    node
    detail := { row.detail with
      node := if node = "" then none else some node
      parent := if s.parent = "" then none else some s.parent } }

/-- What came, went and changed past a cap, counted. -/
def pastCapRow (cfg : Settings) (kind node : String) (s : CapScope) (now : Time) :
    List ChangeRow :=
  if s.added.length + s.removed.length + s.changed.length = 0 then []
  else
    let row := kindNotice cfg kind node s "changed_past_cap" now
    [{ row with
      detail := { row.detail with
        whileOverCap := true
        added := some s.added.length
        removed := some s.removed.length
        changed := some s.changed.length } }]

def noticeOverCap (cfg : Settings) (kind node : String) (s : CapScope) (now : Time) : ChangeRow :=
  let row := kindNotice cfg kind node s "too_many_objects" now
  { row with detail := { row.detail with objects := some s.listed, cap := some s.cap } }

def noticeBackUnderCap (cfg : Settings) (kind node : String) (s : CapScope) (now : Time) :
    ChangeRow :=
  kindNotice cfg kind node s "back_under_cap" now

/-- What the comparison by presence carries: the batch, what was read whole past a cap, the notices
and the gates they leave, a dropped gate being `none`. -/
structure Presence where
  batch : RecordBatch
  pastCap : Map Time
  notices : List ChangeRow := []
  gates : Map (Option NoticeGate) := ∅

namespace Reading

variable (c : Reading)

def notePastCap (pastCap : Map Time) (id : String) (since : Time) : Map Time :=
  if since = 0 then pastCap else pastCap.insert (c.rd.kind ++ "/" ++ id) since

/-- One object read of a scope past its cap, its whole tag compared with the one held. -/
def comparePresent (b : RecordBatch × CapScope) (obj : ObservedObject) : RecordBatch × CapScope :=
  let (batch, s) := b
  match c.cfg.wholeTag c.rd.kind obj with
  | none => b
  | some tag =>
    let stored := { batch with presence := batch.presence ++
      [{ objectID := obj.id, node := obj.node, tag, signature := c.sig }] }
    if obj.id ∈ c.prev ∧ !s.wasOver then (stored, s)
    else match c.held.lookup obj.id with
      | none =>
        -- the first reading of a scope past its cap is its baseline
        let baseline := !s.wasOver && s.since = 0
        (stored, if baseline || obj.hardware then s else { s with added := s.added ++ [obj.id] })
      | some e =>
        if e.signature ≠ c.sig then (stored, s)
        else if e.tag ≠ tag then (stored, { s with changed := s.changed ++ [obj.id] })
        else b

/-- One object held of a scope compared by presence. -/
def compareHeld (b : RecordBatch × CapScope) (id : String) : RecordBatch × CapScope :=
  let (batch, s) := b
  let read := s.current.any (·.id = id)
  let s' := if !read && (s.isOver || id ∉ c.prev) then { s with removed := s.removed ++ [id] } else s
  if !read || !s.isOver then
    ({ batch with presenceRemoved := batch.presenceRemoved ++ [id] }, s')
  else (batch, s')

def comparePresence (batch : RecordBatch) (s : CapScope) (heldIDs : List String) :
    RecordBatch × CapScope :=
  let b := if s.isOver then s.current.foldl c.comparePresent (batch, s) else (batch, s)
  heldIDs.foldl c.compareHeld b

/-- One scope compared by presence: its counts, its notice and its gate. -/
def compareScope (now : Time) (heldIn : String → List String) (q : Presence)
    (e : Σ _ : String, CapScope) : Presence :=
  if !e.2.byPresence then q
  else
    let pastCap := if e.2.isOver then q.pastCap
      else e.2.current.foldl (fun m obj => c.notePastCap m obj.id e.2.since) q.pastCap
    let (batch, s) := c.comparePresence q.batch e.2 (heldIn e.1)
    let notices := q.notices ++ pastCapRow c.cfg c.rd.kind c.node s now
    let gate := c.pass.notices.lookup s.key
    if s.byKind then
      { batch, pastCap, notices
        gates := if gate.isNone then q.gates.insert s.key (some { since := s.since })
          else q.gates }
    else if s.isOver then
      if gate.all fun g => g.given = 0 || observeSkipFor ≤ now - g.given then
        { batch, pastCap
          notices := notices ++ [noticeOverCap c.cfg c.rd.kind c.node s now]
          gates := q.gates.insert s.key (some { since := s.since, given := now }) }
      else { batch, pastCap, notices, gates := q.gates }
    else
      { batch, pastCap
        notices := if (gate.getD {}).given = 0 then notices
          else notices ++ [noticeBackUnderCap c.cfg c.rd.kind c.node s now]
        gates := q.gates.insert s.key
          (if s.heldUnread then some { since := s.since } else none) }

/-- What is held by presence: what is forgotten leaves, and each scope holding one unread says
so. -/
def holdPresence (a : Comparison) (id : String) : Comparison :=
  if id ∈ c.rd.forget then
    { a with
      toGathering := { a.toGathering with
        batch := { a.batch with presenceRemoved := a.batch.presenceRemoved ++ [id] } } }
  else if id ∈ a.unread then c.holdUnread a id
  else a

/-- The presence entries each scope is compared with. -/
def heldIn (a : Comparison) (name : String) : List String :=
  c.held.keys.filter fun id => id ∉ c.rd.forget ∧ id ∉ a.unread ∧ c.scopeName id = name

/-- The comparison by presence, after the objects were compared. -/
def presence (now : Time) (gone : List String) (a : Comparison) : Comparison × Presence :=
  let a := c.held.keys.foldl c.holdPresence a
  let q : Presence :=
    { batch := a.batch, pastCap := c.pass.pastCap
      gates := gone.foldl (fun gates k => gates.insert k none) ∅ }
  (a, a.sortedScopes.foldl (c.compareScope now (c.heldIn a)) q)

end Reading

/-! ## One reading applied -/

instance lawfulBEq_pair : LawfulBEq (String × String) := inferInstance

/-- Whether a reading may be compared, and the empty readings held after it. -/
def passEmpty (held : List (String × String)) (key : String × String) (empty : Bool) :
    Bool × List (String × String) :=
  if !empty || key ∈ held then (true, held.filter (· ≠ key)) else (false, key :: held)

/-- Whether an object new to a reading was created, and since when; the kind's last reading under
any signature; and whether it was under other versions. -/
def baseline (p : Pass) (rd : KindReading) (node sig : String) (readAt : Time)
    (prev : Map StoredObject) (held : Map PresenceEntry) : Bool × Time × Time × Bool :=
  if node = "" then
    let mark := p.baselines.lookup rd.kind
    let (base, versions) := markVersions (mark.getD {}).signature
    let baselined : Bool := base = sig
    (baselined, (mark.getD {}).lastRead, (mark.getD {}).lastRead,
      baselined && versions ≠ p.versions)
  else
    let whole := (prev.entries.map (·.2.lastSeen)).foldl max 0
    let own := prev.entries.filter (·.2.signature = sig)
    (!own.isEmpty, (own.map (·.2.lastSeen)).foldl max 0,
      if held.entries ≠ [] ∧ whole = 0 then readAt else whole, p.upgraded.contains node)

def markBulk (kind : String) (upgrading : Bool) (rows : List ChangeRow) : List ChangeRow :=
  let acrossUpgrade := upgrading && 2 ≤ rows.length && kind ∉ accessKinds &&
    (Go.cutPrefix kind "firewall_").isNone
  if rows.length ≤ observeMaxChanges ∧ !acrossUpgrade then rows
  else rows.map fun r => { r with detail := { r.detail with bulkSize := some rows.length } }

/-- The rows of a reading across an upgrade say so. -/
def markUpgrade (upgrading : Bool) (rows : List ChangeRow) : List ChangeRow :=
  if upgrading then
    rows.map fun r => { r with detail := { r.detail with duringUpgrade := true } }
  else rows

/-- The notice gates after a reading. -/
def gatesAfter (notices : Map NoticeGate) (gates : Map (Option NoticeGate)) : Map NoticeGate :=
  gates.entries.foldl (fun notices e =>
    match e.2 with
    | none => notices.erase e.1
    | some gate => notices.insert e.1 gate) notices

namespace Reading

variable (c : Reading)

/-- The signature the kind is marked read whole under, or none. -/
def mark (a : Comparison) (q : Presence) : String :=
  let mark := if c.node = "" ∧ a.unread = [] then c.sig ++ "/" ++ c.pass.versions else ""
  if a.allOver && q.batch.empty && q.notices.isEmpty && q.gates.entries.isEmpty &&
      ((c.pass.baselines.lookup c.rd.kind).getD {}).signature = mark then ""
  else mark

/-- The batch of a reading, once everything is compared. -/
def batch (upgrading : Bool) (a : Comparison) (q : Presence) : RecordBatch :=
  let touched := if c.node = "" ∧ a.unread = [] then [] else a.unchanged
  let changes := markBulk c.rd.kind upgrading (markUpgrade upgrading q.batch.changes)
  let counted := q.notices.map fun r =>
    if r.detail.notice = some "changed_past_cap" then
      { r with detail := { r.detail with duringUpgrade := upgrading } } else r
  { q.batch with
    touched
    changes := changes ++ counted
    notices := if q.gates.entries.isEmpty then none
      else some (gatesAfter c.pass.notices q.gates) }

end Reading

/-- The pass with the notice gates read again, once a write failed. -/
def World.freshPass (w : World) : Pass :=
  if w.pass.noticesStale then { w.pass with notices := w.db.notices, noticesStale := false }
  else w.pass

/-- The notice gates read again once a write failed, if they can be. -/
def World.noticesFresh (w : World) (readable : Bool) : Option World :=
  if w.pass.noticesStale && !readable then none else some { w with pass := w.freshPass }

/-- A reading of one kind, as `apply` is given it: the node it covers, or none, the signature, and
when it was read. -/
structure Given where
  rd : KindReading
  node : String := ""
  sig : String
  readAt : Time
  doneAt : Time
  now : Time

/-- The reading with what it is compared with. -/
def Given.reading (i : Given) (cfg : Settings) (p : Pass) : Reading :=
  let c : Reading :=
    { cfg, pass := p, rd := i.rd, node := i.node, sig := i.sig, readAt := i.readAt
      doneAt := i.doneAt, baselined := false, addedSince := 0 }
  let (baselined, addedSince, _) := baseline p i.rd i.node i.sig i.readAt c.prev c.held
  { c with baselined, addedSince }

def Given.scopes (i : Given) (cfg : Settings) (p : Pass) : Map CapScope :=
  let c := i.reading cfg p
  let (_, _, whole, _) := baseline p i.rd i.node i.sig i.readAt c.prev c.held
  capScopes cfg p i.rd i.node whole

def Given.upgrading (i : Given) (cfg : Settings) (p : Pass) : Bool :=
  let c := i.reading cfg p
  (baseline p i.rd i.node i.sig i.readAt c.prev c.held).2.2.2

/-- Whether a reading is empty where objects are held. -/
def Given.empty (i : Given) (cfg : Settings) (p : Pass) : Bool :=
  let c := i.reading cfg p
  i.rd.objects.isEmpty && i.rd.unread.isEmpty &&
    !(c.prev.entries.isEmpty && c.held.entries.isEmpty)

/-- A reading compared with what the pass loaded. -/
def World.compareReading (w : World) (cfg : Settings) (i : Given) : Comparison × Presence :=
  let c := i.reading cfg w.pass
  c.presence i.now (goneGates w.pass i.rd (gateKey i.rd.kind i.node))
    (c.compare (w.mem.noisy i.rd.kind) (i.scopes cfg w.pass))

def World.batchOf (w : World) (cfg : Settings) (i : Given) : RecordBatch :=
  let (a, q) := w.compareReading cfg i
  (i.reading cfg w.pass).batch (i.upgrading cfg w.pass) a q

def World.markOf (w : World) (cfg : Settings) (i : Given) : String :=
  let (a, q) := w.compareReading cfg i
  (i.reading cfg w.pass).mark a q

/-- The pacing and the pass as a comparison leaves them, before the write. -/
def World.paced (w : World) (cfg : Settings) (i : Given) : World :=
  let (a, q) := w.compareReading cfg i
  { w with
    mem := { w.mem with noisy := Function.update w.mem.noisy i.rd.kind a.noisy }
    pass := { w.pass with pastCap := q.pastCap } }

/-- `apply`, from the comparison on: the pacing has moved whether or not the write goes through. -/
def World.applyReading (w : World) (cfg : Settings) (i : Given) (ok : Bool) : World :=
  let b := w.batchOf cfg i
  let mark := w.markOf cfg i
  match (w.paced cfg i).write i.rd.kind b i.readAt mark ok with
  | (w, false) => w
  | (w, true) =>
    { w with
      pass := { w.pass with
        notices := b.notices.getD w.pass.notices
        baselines := if mark = "" then w.pass.baselines
          else w.pass.baselines.insert i.rd.kind { signature := mark, lastRead := i.readAt } } }

/-- The gates may have to be read again first, and an empty reading is held once. -/
def World.apply (w : World) (cfg : Settings) (i : Given) (readable ok : Bool) : World :=
  match w.noticesFresh readable with
  | none => w
  | some w =>
    let (may, held) := passEmpty w.mem.held (i.rd.kind, i.node) (i.empty cfg w.pass)
    let w := { w with mem := { w.mem with held } }
    if may then w.applyReading cfg i ok else w

/-! ## One guest -/

/-- One guest's configuration, as a worker read it. -/
structure GuestResult where
  obj : ObservedObject
  readAt : Time
  doneAt : Time

def applyGuest (cfg : Settings) (p : Pass) (kind sig : String) (g : Gathering) (r : GuestResult) :
    Gathering :=
  match cfg.makeTags kind r.obj with
  | none => g
  | some tags =>
    match (p.state kind).lookup r.obj.id with
    | none =>
      g.save r.obj tags (if r.obj.unsettled then observeUnsettled else sig) r.readAt
    | some old =>
      if r.obj.unsettled ∧ old.signature = observeUnsettled then
        g.save r.obj tags observeUnsettled r.readAt
      else if old.signature = sig then
        let d := diffTags old.tags tags
        if d.fields = [] then (g.save r.obj tags sig r.readAt).quiet r.obj.id
        else
          let row := changeRow r.obj .changed d old.lastSeen r.doneAt
          (g.pace r.obj.id
            { row with detail := { row.detail with duringUpgrade := p.upgraded.contains r.obj.node } }
            r.doneAt).save r.obj tags sig r.readAt
      else g.save r.obj tags sig r.readAt

end Nexara.Observer
