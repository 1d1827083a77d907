import Nexara.Observer.Tags

/-!
# Change rows, and the pacing of a noisy object

An object read changed in more than `observeNoisyStreak` passes running is noisy: from then on its
changes are gathered in memory into one row (`NoisyObject.held`), recorded at most once an hour
(`pace`) or when a pass reads the object unchanged or gone (`quiet`).
-/

namespace Nexara.Observer

open Go (Map)

/-- A time, in milliseconds; zero is the zero `time.Time`. -/
abbrev Time : Type := ℕ

/-- `change` of a row. -/
inductive Change where
  | added
  | removed
  | changed

/-- `Detail` of a row, each key its own field. -/
structure Detail where
  counts : Map ListCount := ∅
  fieldsAppeared : List String := []
  whileOverCap : Bool := false
  duringUpgrade : Bool := false
  children : Option ℕ := none
  bulkSize : Option ℕ := none
  notice : Option String := none
  node : Option String := none
  parent : Option String := none
  objects : Option ℕ := none
  cap : Option ℕ := none
  added : Option ℕ := none
  removed : Option ℕ := none
  changed : Option ℕ := none

/-- `observedChangeRow`. -/
structure ChangeRow where
  resourceType : String
  resourceID : String
  vmid : Option ℤ := none
  change : Change
  fields : List String := []
  detail : Detail := {}
  node : String := ""
  membersJoined : List String := []
  membersLeft : List String := []
  lastSeenAt : Time
  observedAt : Time

/-- One object as a pass read it. -/
structure ObservedObject where
  id : String
  resourceType : String
  resourceID : String
  vmid : ℤ := 0
  node : String := ""
  fields : Map String := ∅
  lists : Map (List String) := ∅
  members : Map (List String) := ∅
  hardware : Bool := false
  unsettled : Bool := false
  shallow : Bool := false

def changeRow (obj : ObservedObject) (change : Change) (d : TagDiff) (lastSeen observed : Time) :
    ChangeRow where
  resourceType := obj.resourceType
  resourceID := obj.resourceID
  vmid := if obj.vmid = 0 then none else some obj.vmid
  change
  fields := d.fields
  detail := { counts := d.counts, fieldsAppeared := d.appeared }
  node := obj.node
  membersJoined := d.joined
  membersLeft := d.left
  lastSeenAt := lastSeen
  observedAt := observed

/-! ## Pacing -/

def observeNoisyStreak : ℕ := 12

/-- `observeNoisyEvery`, an hour. -/
def observeNoisyEvery : Time := 60 * 60 * 1000

/-- `observeSkipFor`, a day. -/
def observeSkipFor : Time := 24 * 60 * 60 * 1000

def unionSorted (a b : List String) : List String := Go.compact (Go.sort (a ++ b))

@[simp] theorem mem_unionSorted {f : String} {a b : List String} :
    f ∈ unionSorted a b ↔ f ∈ a ∨ f ∈ b := by
  simp [unionSorted]

/-- A held row's detail with a later change's list counts added. -/
def sumCounts (held next : Detail) : Detail :=
  { held with
    counts := next.counts.entries.foldl (fun counts e =>
      let s := (counts.lookup e.1).getD {}
      counts.insert e.1
        { added := s.added + e.2.added, removed := s.removed + e.2.removed
          moved := s.moved + e.2.moved }) held.counts }

def ChangeRow.gather (held ch : ChangeRow) : ChangeRow :=
  { held with
    fields := unionSorted held.fields ch.fields
    membersJoined := unionSorted held.membersJoined ch.membersJoined
    membersLeft := unionSorted held.membersLeft ch.membersLeft
    detail := sumCounts held.detail ch.detail
    observedAt := ch.observedAt }

/-- How one object has been changing. -/
structure NoisyObject where
  streak : ℕ := 0
  held : Option ChangeRow := none
  lastEmit : Time := 0

def NoisyObject.gathering (n : NoisyObject) (ch : ChangeRow) : ChangeRow :=
  match n.held with
  | none => ch
  | some held => held.gather ch

/-- What to record of a change, and how the object has been changing after it. -/
def pace (noisy : Option NoisyObject) (ch : ChangeRow) (now : Time) : NoisyObject × List ChangeRow :=
  let n := noisy.getD {}
  let streak := n.streak + 1
  if streak ≤ observeNoisyStreak then ({ n with streak, lastEmit := now }, [ch])
  else if now - n.lastEmit < observeNoisyEvery then
    ({ n with streak, held := some (n.gathering ch) }, [])
  else ({ streak, held := none, lastEmit := now }, [n.gathering ch])

/-- The rows recorded of an object read unchanged, or gone; its streak ends. -/
def quiet (noisy : Option NoisyObject) : List ChangeRow := (noisy.bind (·.held)).toList

/-- `forgetQuietObjects`, of one object: whether its streak is dropped. -/
def NoisyObject.forgotten (n : NoisyObject) (now : Time) : Bool :=
  n.held.isNone && decide (observeSkipFor < now - n.lastEmit)

/-! ## What is gathered is not dropped -/

/-- Where an object's changes are filed: `resource_type` and `resource_id`. -/
structure FiledAs where
  resourceType : String
  resourceID : String
  deriving DecidableEq

def ChangeRow.For (row : ChangeRow) (x : FiledAs) : Prop :=
  row.resourceType = x.resourceType ∧ row.resourceID = x.resourceID
deriving Decidable

/-- The row is filed for the object and names the field. -/
def ChangeRow.Names (row : ChangeRow) (x : FiledAs) (f : String) : Prop :=
  row.For x ∧ f ∈ row.fields
deriving Decidable

def Named (x : FiledAs) (f : String) (rows : List ChangeRow) : Prop := ∃ row ∈ rows, row.Names x f
deriving Decidable

/-- The gathered row names the field. -/
def Gathered (x : FiledAs) (f : String) (noisy : Option NoisyObject) : Prop :=
  ∃ n ∈ noisy, ∃ row ∈ n.held, row.Names x f

def HeldFor (x : FiledAs) (noisy : Option NoisyObject) : Prop :=
  ∀ n ∈ noisy, ∀ row ∈ n.held, row.For x

section

variable {x : FiledAs} {f : String} {noisy : Option NoisyObject} {ch : ChangeRow} {now : Time}

theorem Named.mono {rows rows' : List ChangeRow} (h : Named x f rows) (hsub : rows ⊆ rows') :
    Named x f rows' := by
  obtain ⟨row, hrow, hnames⟩ := h
  exact ⟨row, hsub hrow, hnames⟩

/-- The three outcomes of a paced change: recorded as it is, gathered, or recorded with what was
gathered. -/
theorem pace_eq (noisy : Option NoisyObject) (ch : ChangeRow) (now : Time) :
    let n := noisy.getD {}
    n.streak < observeNoisyStreak ∧
        pace noisy ch now = ({ n with streak := n.streak + 1, lastEmit := now }, [ch]) ∨
      observeNoisyStreak ≤ n.streak ∧
        (pace noisy ch now = ({ n with streak := n.streak + 1, held := some (n.gathering ch) }, []) ∨
          n.lastEmit + observeNoisyEvery ≤ now ∧
            pace noisy ch now = (⟨n.streak + 1, none, now⟩, [n.gathering ch])) := by
  intro n
  by_cases hstreak : n.streak + 1 ≤ observeNoisyStreak
  · exact .inl ⟨hstreak, if_pos hstreak⟩
  · refine .inr ⟨Nat.le_of_lt_succ (Nat.lt_of_not_le hstreak), ?_⟩
    by_cases hearly : now - n.lastEmit < observeNoisyEvery
    · exact .inl ((if_neg hstreak).trans (if_pos hearly))
    · have hlate : observeNoisyEvery ≤ now - n.lastEmit := Nat.le_of_not_lt hearly
      have hle : n.lastEmit ≤ now := (Nat.lt_of_sub_pos (Nat.lt_of_lt_of_le (Nat.succ_pos _) hlate)).le
      exact .inr ⟨Nat.add_le_of_le_sub' hle hlate, (if_neg hstreak).trans (if_neg hearly)⟩

variable {n : NoisyObject}

theorem gathered_some : Gathered x f (some n) ↔ ∃ row, n.held = some row ∧ row.Names x f := by
  simp [Gathered]

theorem gathered_getD : Gathered x f noisy ↔ Gathered x f (some (noisy.getD {})) := by
  cases noisy <;> simp [Gathered]

theorem heldFor_getD : HeldFor x noisy ↔ HeldFor x (some (noisy.getD {})) := by
  cases noisy <;> simp [HeldFor]

theorem gathering_names (h : Gathered x f (some n)) (ch : ChangeRow) :
    (n.gathering ch).Names x f := by
  obtain ⟨held, hheld, hfor, hf⟩ := gathered_some.1 h
  unfold NoisyObject.gathering
  rw [hheld]
  exact ⟨hfor, mem_unionSorted.2 (.inl hf)⟩

theorem gathering_for (h : HeldFor x (some n)) (hch : ch.For x) : (n.gathering ch).For x := by
  unfold NoisyObject.gathering
  cases hheld : n.held with
  | none => exact hch
  | some held => exact h n rfl held hheld

theorem gathering_names_new (h : HeldFor x (some n)) (hch : ch.Names x f) :
    (n.gathering ch).Names x f := by
  refine ⟨gathering_for h hch.1, ?_⟩
  unfold NoisyObject.gathering
  cases n.held with
  | none => exact hch.2
  | some held => exact mem_unionSorted.2 (.inr hch.2)

theorem Gathered.pace (h : Gathered x f noisy) (ch : ChangeRow) (now : Time) :
    Gathered x f (some (pace noisy ch now).1) ∨
      (noisy.getD {}).lastEmit + observeNoisyEvery ≤ now ∧ Named x f (Observer.pace noisy ch now).2 := by
  have hn := gathering_names (gathered_getD.1 h) ch
  obtain ⟨row, hrow⟩ := gathered_some.1 (gathered_getD.1 h)
  obtain ⟨-, hpace⟩ | ⟨-, hpace | ⟨hlate, hpace⟩⟩ := pace_eq noisy ch now <;> rw [hpace]
  · exact .inl (gathered_some.2 ⟨row, hrow⟩)
  · exact .inl (gathered_some.2 ⟨_, rfl, hn⟩)
  · exact .inr ⟨hlate, _, List.mem_singleton_self _, hn⟩

theorem pace_names (h : HeldFor x noisy) (hch : ch.Names x f) (now : Time) :
    Gathered x f (some (pace noisy ch now).1) ∨ Named x f (pace noisy ch now).2 := by
  have hn := gathering_names_new (heldFor_getD.1 h) hch
  obtain ⟨-, hpace⟩ | ⟨-, hpace | ⟨-, hpace⟩⟩ := pace_eq noisy ch now <;> rw [hpace]
  · exact .inr ⟨ch, List.mem_singleton_self _, hch⟩
  · exact .inl (gathered_some.2 ⟨_, rfl, hn⟩)
  · exact .inr ⟨_, List.mem_singleton_self _, hn⟩

theorem Gathered.pace_early (h : Gathered x f noisy) (ch : ChangeRow)
    (hearly : now - (noisy.getD {}).lastEmit < observeNoisyEvery) :
    Gathered x f (some (Observer.pace noisy ch now).1) :=
  (h.pace ch now).resolve_right fun hlate =>
    absurd hearly (Nat.not_lt.2 (Nat.le_sub_of_add_le' hlate.1))

theorem HeldFor.pace (h : HeldFor x noisy) (hch : ch.For x) (now : Time) :
    HeldFor x (some (Observer.pace noisy ch now).1) := by
  have hg := gathering_for (heldFor_getD.1 h) hch
  rintro n ⟨⟩ row hrow
  obtain ⟨-, hpace⟩ | ⟨-, hpace | ⟨-, hpace⟩⟩ := pace_eq noisy ch now <;> rw [hpace] at hrow
  · exact heldFor_getD.1 h _ rfl row hrow
  · cases hrow
    exact hg
  · cases hrow

theorem Gathered.quiet (h : Gathered x f noisy) : Named x f (quiet noisy) := by
  obtain ⟨n, rfl, row, hrow, hnames⟩ := h
  exact ⟨row, by simpa [Observer.quiet] using hrow, hnames⟩

theorem Gathered.not_forgotten (h : Gathered x f (some n)) (now : Time) :
    n.forgotten now = false := by
  obtain ⟨row, hrow, -⟩ := gathered_some.1 h
  simp [NoisyObject.forgotten, hrow]

end

end Nexara.Observer
