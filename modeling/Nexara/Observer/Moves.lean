import Nexara.Observer.Apply

/-!
# What a comparison does to the pacing and the batch

Comparing one object comes down to a few moves on a `Gathering`: its reading saved, its change
paced, what was gathered of it recorded, its stored reading dropped (`Compared`). Over any moves a
field that is gathered stays gathered or is named by a recorded row (`Kept.acts`); it stays gathered
when nothing is taken out of memory (`Gathered.acts_of_early`), and is named by a recorded row once
the object is quiet (`Kept.named_of_quiet`).
-/

namespace Nexara.Observer

open Go (Map)

/-- One move on the pacing of a kind's objects and the batch. -/
inductive Move where
  | save (row : StateRow)
  | pace (id : String) (ch : ChangeRow) (now : Time)
  | quiet (id : String)
  | record (row : ChangeRow)
  | remove (id : String)

def Gathering.act (g : Gathering) : Move → Gathering
  | .save row => { g with batch := { g.batch with states := g.batch.states ++ [row] } }
  | .pace id ch now => g.pace id ch now
  | .quiet id => g.quiet id
  | .record row => g.record row
  | .remove id => g.remove id

def Gathering.acts (g : Gathering) (ms : List Move) : Gathering := ms.foldl Gathering.act g

section

variable {x : FiledAs} {f id : String} {g : Gathering} {ms ms' : List Move} {m : Move}

@[simp] theorem acts_nil : g.acts [] = g := rfl

@[simp] theorem acts_cons : g.acts (m :: ms) = (g.act m).acts ms := rfl

theorem acts_append : g.acts (ms ++ ms') = (g.acts ms).acts ms' := List.foldl_append

/-- The field is gathered in memory, or named by a row of the batch. -/
def Kept (x : FiledAs) (id f : String) (g : Gathering) : Prop :=
  Gathered x f (g.noisy.lookup id) ∨ Named x f g.batch.changes

theorem act_changes : g.batch.changes ⊆ (g.act m).batch.changes := by
  cases m <;>
    simp [Gathering.act, Gathering.pace, Gathering.quiet, Gathering.record, Gathering.remove,
      RecordBatch.record]

theorem acts_changes : g.batch.changes ⊆ (g.acts ms).batch.changes := by
  induction ms generalizing g with
  | nil => simp
  | cons m ms ih => exact fun row hrow => ih (act_changes hrow)

/-- What a move can do to an object: nothing, pace it, or make it quiet. -/
theorem act_cases (g : Gathering) (m : Move) (id : String) :
    (g.act m).noisy.lookup id = g.noisy.lookup id ∨
    (∃ ch now, m = .pace id ch now ∧
      (g.act m).noisy.lookup id = some (pace (g.noisy.lookup id) ch now).1 ∧
      (pace (g.noisy.lookup id) ch now).2 ⊆ (g.act m).batch.changes) ∨
    m = .quiet id ∧ (g.act m).noisy.lookup id = none ∧
      quiet (g.noisy.lookup id) ⊆ (g.act m).batch.changes := by
  cases m with
  | save | record | remove => exact .inl rfl
  | pace id' ch now =>
    by_cases hid : id = id'
    · subst hid
      refine .inr (.inl ⟨ch, now, rfl, ?_⟩)
      simp [Gathering.act, Gathering.pace, RecordBatch.record]
    · exact .inl (by simp [Gathering.act, Gathering.pace, AList.lookup_insert_ne hid])
  | quiet id' =>
    by_cases hid : id = id'
    · subst hid
      refine .inr (.inr ⟨rfl, ?_⟩)
      simp [Gathering.act, Gathering.quiet, RecordBatch.record]
    · exact .inl (by simp [Gathering.act, Gathering.quiet, AList.lookup_erase_ne hid])

theorem kept_act_of_gathered (h : Gathered x f (g.noisy.lookup id)) : Kept x id f (g.act m) := by
  unfold Kept
  obtain hsame | ⟨ch, now, -, hpaced, hrows⟩ | ⟨-, -, hrows⟩ := act_cases g m id
  · rw [hsame]
    exact .inl h
  · rw [hpaced]
    exact (h.pace ch now).imp_right fun hn => hn.2.mono hrows
  · exact .inr (h.quiet.mono hrows)

theorem Kept.act (h : Kept x id f g) : Kept x id f (g.act m) :=
  h.elim kept_act_of_gathered fun hn => .inr (hn.mono act_changes)

theorem Kept.acts (h : Kept x id f g) (ms : List Move) : Kept x id f (g.acts ms) := by
  induction ms generalizing g with
  | nil => exact h
  | cons m ms ih => exact ih h.act

/-- An object's moves all pace it at one time. -/
def PacedAt (id : String) (now : Time) (ms : List Move) : Prop :=
  ∀ ch now', .pace id ch now' ∈ ms → now' = now

def Early (now : Time) (noisy : Option NoisyObject) : Prop :=
  now - (noisy.getD {}).lastEmit < observeNoisyEvery
deriving Decidable

variable {now : Time}

theorem Early.pace {noisy : Option NoisyObject} (h : Early now noisy)
    (ch : ChangeRow) : Early now (some (pace noisy ch now).1) := by
  unfold Early Observer.pace at *
  by_cases hstreak : (noisy.getD {}).streak + 1 ≤ observeNoisyStreak
  · simp [hstreak, observeNoisyEvery]
  · simp [hstreak, h]

theorem Early.act (h : Early now (g.noisy.lookup id)) (hat : PacedAt id now [m])
    (hquiet : m ≠ .quiet id) : Early now ((g.act m).noisy.lookup id) := by
  obtain hsame | ⟨ch, now', rfl, hpaced, -⟩ | ⟨rfl, -⟩ := act_cases g m id
  · rwa [hsame]
  · obtain rfl := hat ch now' (.head _)
    rw [hpaced]
    exact h.pace ch
  · exact absurd rfl hquiet

/-- What is gathered stays gathered over a move that neither makes the object quiet nor paces it
past the hour. -/
theorem Gathered.act (h : Gathered x f (g.noisy.lookup id))
    (hearly : (∃ ch now', m = .pace id ch now') → Early now (g.noisy.lookup id))
    (hat : PacedAt id now [m]) (hquiet : m ≠ .quiet id) :
    Gathered x f ((g.act m).noisy.lookup id) := by
  obtain hsame | ⟨ch, now', rfl, hpaced, -⟩ | ⟨rfl, -⟩ := act_cases g m id
  · rwa [hsame]
  · obtain rfl := hat ch now' (.head _)
    rw [hpaced]
    exact h.pace_early ch (hearly ⟨ch, now', rfl⟩)
  · exact absurd rfl hquiet

/-- So it does over moves that never make the object quiet, and pace it within the hour only. -/
theorem Gathered.acts_of_early (h : Gathered x f (g.noisy.lookup id))
    (hearly : (∃ ch now', .pace id ch now' ∈ ms) → Early now (g.noisy.lookup id))
    (hat : PacedAt id now ms) (hquiet : .quiet id ∉ ms) :
    Gathered x f ((g.acts ms).noisy.lookup id) := by
  induction ms generalizing g with
  | nil => exact h
  | cons m ms ih =>
    have hat₁ : PacedAt id now [m] := fun ch now' hm =>
      hat ch now' (List.mem_singleton.1 hm ▸ (.head _))
    have hquiet₁ : m ≠ .quiet id := fun hm => hquiet (hm ▸ (.head _))
    refine ih (h.act (fun ⟨ch, now', hm⟩ => hearly ⟨ch, now', hm ▸ (.head _)⟩) hat₁ hquiet₁)
      (fun ⟨ch, now', hmem⟩ => ?_) (fun ch now' hmem => hat ch now' (List.mem_cons_of_mem m hmem))
      fun hmem => hquiet (List.mem_cons_of_mem m hmem)
    exact (hearly ⟨ch, now', List.mem_cons_of_mem m hmem⟩).act hat₁ hquiet₁

theorem Kept.named_of_quiet (h : Kept x id f g) (hquiet : .quiet id ∈ ms) :
    Named x f (g.acts ms).batch.changes := by
  obtain ⟨before, after, rfl⟩ := List.append_of_mem hquiet
  rw [acts_append, acts_cons]
  refine Named.mono ?_ acts_changes
  obtain hg | hn := h.acts before
  · refine hg.quiet.mono fun row hrow => ?_
    simp [Gathering.act, Gathering.quiet, RecordBatch.record, hrow]
  · exact hn.mono act_changes

/-- What is gathered is filed for the object, over moves that pace it with rows of its own. -/
theorem HeldFor.acts (h : HeldFor x (g.noisy.lookup id))
    (hfor : ∀ ch now, .pace id ch now ∈ ms → ch.For x) :
    HeldFor x ((g.acts ms).noisy.lookup id) := by
  induction ms generalizing g with
  | nil => exact h
  | cons m ms ih =>
    refine ih ?_ fun ch now hmem => hfor ch now (List.mem_cons_of_mem m hmem)
    obtain hsame | ⟨ch, now, rfl, hpaced, -⟩ | ⟨-, hgone, -⟩ := act_cases g m id
    · rwa [hsame]
    · rw [hpaced]
      exact h.pace (hfor ch now (.head _)) now
    · simp [hgone, HeldFor]

theorem kept_of_pace {ch : ChangeRow} (h : HeldFor x (g.noisy.lookup id))
    (hfor : ∀ ch now, .pace id ch now ∈ ms → ch.For x) (hmem : .pace id ch now ∈ ms)
    (hf : f ∈ ch.fields) : Kept x id f (g.acts ms) := by
  obtain ⟨before, after, rfl⟩ := List.append_of_mem hmem
  have hheld : HeldFor x ((g.acts before).noisy.lookup id) :=
    h.acts fun ch now hbefore => hfor ch now (List.mem_append_left _ hbefore)
  rw [acts_append]
  refine Kept.acts ((pace_names hheld ⟨hfor ch now hmem, hf⟩ now).imp (fun hg => ?_)
    fun hn => hn.mono fun row hrow => ?_) after
  · simpa [Gathering.act, Gathering.pace] using hg
  · simp [Gathering.act, Gathering.pace, RecordBatch.record, hrow]

theorem acts_states : (g.acts ms).batch.states =
    g.batch.states ++ ms.filterMap fun | .save row => some row | _ => none := by
  induction ms generalizing g with
  | nil => simp
  | cons m ms ih =>
    rw [acts_cons, ih]
    cases m <;>
      simp [Gathering.act, Gathering.pace, Gathering.quiet, Gathering.record, Gathering.remove,
        RecordBatch.record]

end

/-! ## What one comparison comes down to -/

/-- Where the object's changes are filed. -/
def ObservedObject.filedAs (obj : ObservedObject) : FiledAs :=
  { resourceType := obj.resourceType, resourceID := obj.resourceID }

/-- The row stored of an object: under the signature it is read under, or, of a guest still being
made, under the one no reading has. -/
def RowOf (obj : ObservedObject) (sig : String) (row : StateRow) : Prop :=
  row.objectID = obj.id ∧ row.node = obj.node ∧
    (row.signature = sig ∨ row.signature = observeUnsettled)

/-- The moves of one comparison, given what is stored, the signature and the fields kept quiet; and
whether the object was read as stored. -/
inductive Compared (obj : ObservedObject) (prev : Option StoredObject) (sig : String)
    (hushed : List String) (now : Time) : Bool → List Move → Prop
  | none : Compared obj prev sig hushed now false []
  | saved {row : StateRow} (hrow : RowOf obj sig row)
      (hhushed : ∀ old, prev = some old → old.signature = sig → row.signature = sig →
        allIn (diffTags old.tags row.fields).fields hushed) :
      Compared obj prev sig hushed now false [.save row]
  | added {row : StateRow} {ch : ChangeRow} (hrow : RowOf obj sig row) (hprev : prev = .none)
      (hfor : ch.For obj.filedAs) :
      Compared obj prev sig hushed now false [.save row, .pace obj.id ch now]
  | changed {row : StateRow} {ch : ChangeRow} {old : StoredObject} (hrow : RowOf obj sig row)
      (hprev : prev = some old) (hfor : ch.For obj.filedAs)
      (hfields : ch.fields = (diffTags old.tags row.fields).fields) :
      Compared obj prev sig hushed now false [.save row, .pace obj.id ch now]
  | same : Compared obj prev sig hushed now true [.quiet obj.id]
  | sameSaved {row : StateRow} {old : StoredObject} (hrow : RowOf obj sig row)
      (hprev : prev = some old) (hsame : (diffTags old.tags row.fields).fields = []) :
      Compared obj prev sig hushed now true [.save row, .quiet obj.id]

/-- Of one object: its changes are paced at one time, with rows of its own, and each field in which
a saved reading differs is paced, unless the reading keeps all of them quiet. -/
structure MovesOf (x : FiledAs) (id : String) (prev : Option StoredObject) (sig : String)
    (hushed : List String) (now : Time) (ms : List Move) : Prop where
  pacedAt : PacedAt id now ms
  paced : ∀ ch now', .pace id ch now' ∈ ms → ch.For x
  signed : ∀ row, .save row ∈ ms → row.objectID = id →
    row.signature = sig ∨ row.signature = observeUnsettled
  saved : ∀ row, .save row ∈ ms → row.objectID = id → row.signature = sig →
    ∀ old, prev = some old → old.signature = sig →
    ¬ allIn (diffTags old.tags row.fields).fields hushed →
    ∀ f ∈ (diffTags old.tags row.fields).fields, ∃ ch now', .pace id ch now' ∈ ms ∧ f ∈ ch.fields

section

variable {x : FiledAs} {id sig : String} {prev : Option StoredObject} {hushed : List String}
  {now : Time} {ms ms' : List Move} {obj : ObservedObject} {b : Bool}

theorem MovesOf.of_other (hsave : ∀ row, .save row ∈ ms → row.objectID ≠ id)
    (hpace : ∀ ch now', .pace id ch now' ∉ ms) : MovesOf x id prev sig hushed now ms where
  pacedAt ch now' h := absurd h (hpace ch now')
  paced ch now' h := absurd h (hpace ch now')
  signed row h hid := absurd hid (hsave row h)
  saved row h hid := absurd hid (hsave row h)

theorem MovesOf.append (h : MovesOf x id prev sig hushed now ms)
    (h' : MovesOf x id prev sig hushed now ms') : MovesOf x id prev sig hushed now (ms ++ ms') where
  pacedAt ch now' hmem := (List.mem_append.1 hmem).elim (h.pacedAt ch now') (h'.pacedAt ch now')
  paced ch now' hmem := (List.mem_append.1 hmem).elim (h.paced ch now') (h'.paced ch now')
  signed row hmem := (List.mem_append.1 hmem).elim (h.signed row) (h'.signed row)
  saved row hmem hid hsig old hprev hold hloud f hf := by
    obtain hmem | hmem := List.mem_append.1 hmem
    · obtain ⟨ch, now', hpace, hch⟩ := h.saved row hmem hid hsig old hprev hold hloud f hf
      exact ⟨ch, now', List.mem_append_left _ hpace, hch⟩
    · obtain ⟨ch, now', hpace, hch⟩ := h'.saved row hmem hid hsig old hprev hold hloud f hf
      exact ⟨ch, now', List.mem_append_right _ hpace, hch⟩

section

variable (h : Compared obj prev sig hushed now b ms)

include h

theorem Compared.quiet_mem : .quiet id ∈ ms ↔ obj.id = id ∧ b = true := by
  cases h <;> simp [eq_comm]

theorem Compared.pace_mem {ch : ChangeRow} {now' : Time} (hmem : .pace id ch now' ∈ ms) :
    obj.id = id := by
  cases h <;> simp only [List.mem_cons, List.not_mem_nil, or_false, reduceCtorEq, false_or,
    Move.pace.injEq] at hmem
  all_goals exact hmem.1.symm

theorem Compared.save_mem {row : StateRow} (hmem : .save row ∈ ms) : RowOf obj sig row := by
  cases h <;> simp_all

theorem Compared.movesOf (hid : obj.id = id) (hx : obj.filedAs = x) :
    MovesOf x id prev sig hushed now ms := by
  subst hid hx
  have hsigned row (hmem : .save row ∈ ms) (_ : row.objectID = obj.id) := (h.save_mem hmem).2.2
  cases h with
  | none | same => exact .of_other (by simp) (by simp)
  | saved hrow hhush =>
    refine ⟨by simp [PacedAt], by simp, hsigned, ?_⟩
    rintro row hmem - hsig old hprev hold hloud
    obtain rfl := Move.save.inj (List.mem_singleton.1 hmem)
    exact absurd (hhush old hprev hold hsig) hloud
  | added hrow hnone hfor =>
    refine ⟨by simp [PacedAt], by simp_all, hsigned, ?_⟩
    rintro row hmem - - old hprev
    cases hnone.symm.trans hprev
  | @changed row ch old hrow hold hfor hfields =>
    refine ⟨by simp [PacedAt], by simp_all, hsigned, ?_⟩
    rintro row' hmem - - old' hprev - - f hf
    obtain rfl : row' = row := by simpa using hmem
    obtain rfl := Option.some.inj (hold.symm.trans hprev)
    exact ⟨ch, now, by simp, hfields ▸ hf⟩
  | @sameSaved row old hrow hold hsame =>
    refine ⟨by simp [PacedAt], by simp, hsigned, ?_⟩
    rintro row' hmem - - old' hprev - - f hf
    obtain rfl : row' = row := by simpa using hmem
    obtain rfl := Option.some.inj (hold.symm.trans hprev)
    simp [hsame] at hf

end

theorem Compared.movesOf_other {prev' : Option StoredObject}
    (h : Compared obj prev' sig hushed now b ms) (hid : obj.id ≠ id) {now' : Time} :
    MovesOf x id prev sig hushed now' ms := by
  refine .of_other (fun row hmem hrow => ?_) fun ch t hmem => ?_
  · exact hid ((h.save_mem hmem).1.symm.trans hrow)
  · exact hid (h.pace_mem hmem)

end

end Nexara.Observer
