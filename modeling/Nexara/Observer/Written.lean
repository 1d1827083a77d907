import Nexara.Observer.Passes

/-!
# What is written of one object

`Compares` is one comparison of the object with its write: the moves it comes down to, and that the
write stores what they gather or nothing. When a write replaces the stored reading, each field that
moved is named by a row of that write or gathered in memory (`Compares.replaced`); it stays gathered
or is named by a written row, unless a write fails after it was taken out of memory
(`Compares.kept`); and a pass that reads the object as stored writes what is gathered
(`Compares.flushed`).
-/

namespace Nexara.Observer

open Go (Map)

/-- One object of one kind: the node that covers it, none for a cluster's object or a guest, and
where its changes are filed. -/
structure Subject where
  kind : String
  id : String
  node : String := ""
  filed : FiledAs

def World.stored (w : World) (S : Subject) : Option StoredObject := (w.db.state S.kind).lookup S.id

def World.loaded (w : World) (S : Subject) : Option StoredObject :=
  (w.pass.state S.kind).lookup S.id

def World.noisyOf (w : World) (S : Subject) : Option NoisyObject :=
  (w.mem.noisy S.kind).lookup S.id

/-! ## The write -/

section

variable (w : World) (kind : String) (b : RecordBatch) (seenAt : Time) (mark : String) (ok : Bool)

theorem write_mem : (w.write kind b seenAt mark ok).1.mem.noisy = w.mem.noisy := by
  unfold World.write
  split_ifs <;> rfl

theorem write_pass : (w.write kind b seenAt mark ok).1.pass.state = w.pass.state ∧
    (w.write kind b seenAt mark ok).1.pass.read = w.pass.read ∧
    (w.write kind b seenAt mark ok).1.pass.walked = w.pass.walked := by
  unfold World.write
  split_ifs <;> exact ⟨rfl, rfl, rfl⟩

theorem write_ok (h : b.empty = false) : (w.write kind b seenAt mark ok).2 = ok := by
  unfold World.write
  rw [if_neg (by simp [h])]
  cases ok <;> rfl

theorem write_failed : (w.write kind b seenAt mark false).1.db = w.db := by
  unfold World.write
  by_cases hempty : b.empty && mark = ""
  · rw [if_pos hempty]
  · rw [if_neg hempty]
    rfl

theorem write_done :
    (w.write kind b seenAt mark true).1.db.changes = w.db.changes ++ b.changes ∧
      (w.write kind b seenAt mark true).1.db.state =
        Function.update w.db.state kind (stateAfter (w.db.state kind) b seenAt) := by
  unfold World.write
  by_cases hempty : b.empty && mark = ""
  · rw [if_pos hempty]
    simp only [RecordBatch.empty, Bool.and_eq_true, List.isEmpty_iff] at hempty
    simp [stateAfter, hempty]
  · rw [if_neg hempty]
    exact ⟨rfl, rfl⟩

end

/-! ## What a batch stores of one object -/

section

variable {m : Map StoredObject} {id : String} {new : StoredObject} {seenAt : Time}

def StateRow.stored (row : StateRow) : StoredObject :=
  { tags := row.fields, node := row.node, signature := row.signature, lastSeen := row.lastSeenAt }

theorem lookup_putState {states : List StateRow}
    (h : (states.foldl putState m).lookup id = some new) :
    (∃ row ∈ states, row.objectID = id ∧ row.stored = new) ∨ m.lookup id = some new := by
  induction states generalizing m with
  | nil => exact .inr h
  | cons row states ih =>
    obtain ⟨r, hr, hrow⟩ | hm := ih h
    · exact .inl ⟨r, List.mem_cons_of_mem row hr, hrow⟩
    · rw [putState, Go.lookup_insert] at hm
      split_ifs at hm with hid
      · exact .inl ⟨row, .head _, hid.symm, Option.some.inj hm⟩
      · exact .inr hm

theorem lookup_eraseAll {ids : List String} :
    (ids.foldl (fun m id => m.erase id) m).lookup id = if id ∈ ids then none else m.lookup id := by
  induction ids generalizing m with
  | nil => simp
  | cons id' ids ih =>
    rw [List.foldl_cons, ih, Go.lookup_erase]
    by_cases hmem : id ∈ ids
    · simp [hmem]
    · by_cases hid : id = id' <;> simp [hid]

theorem lookup_touchState {ids : List String}
    (h : (ids.foldl (touchState seenAt) m).lookup id = some new) :
    ∃ old, m.lookup id = some old ∧ old.tags = new.tags ∧ old.node = new.node ∧
      old.signature = new.signature := by
  induction ids generalizing m with
  | nil => exact ⟨new, h, rfl, rfl, rfl⟩
  | cons id' ids ih =>
    obtain ⟨old, hold, htags, hnode, hsig⟩ := ih h
    unfold touchState at hold
    cases hm : m.lookup id' with
    | none =>
      rw [hm] at hold
      exact ⟨old, hold, htags, hnode, hsig⟩
    | some s =>
      rw [hm] at hold
      rw [Go.lookup_insert] at hold
      split_ifs at hold with hid
      · subst hid
        obtain rfl := Option.some.inj hold
        exact ⟨s, hm, htags, hnode, hsig⟩
      · exact ⟨old, hold, htags, hnode, hsig⟩

theorem lookup_stateAfter {b : RecordBatch} (h : (stateAfter m b seenAt).lookup id = some new) :
    (∃ row ∈ b.states, row.objectID = id ∧ row.fields = new.tags ∧ row.node = new.node ∧
        row.signature = new.signature) ∨
      ∃ old, m.lookup id = some old ∧ old.tags = new.tags ∧ old.node = new.node ∧
        old.signature = new.signature := by
  obtain ⟨old, hold, htags, hnode, hsig⟩ := lookup_touchState h
  rw [lookup_eraseAll] at hold
  split_ifs at hold
  obtain ⟨row, hrow, hid, rfl⟩ | hm := lookup_putState hold
  · exact .inl ⟨row, hrow, hid, htags, hnode, hsig⟩
  · exact .inr ⟨old, hm, htags, hnode, hsig⟩

end

/-! ## One comparison of the object -/

/-- Two stored readings that differ in their time only. -/
def StoredObject.Same (s s' : StoredObject) : Prop :=
  s.tags = s'.tags ∧ s.node = s'.node ∧ s.signature = s'.signature

/-- The moves of a kind, from what the process keeps of it. -/
def World.moved (w : World) (S : Subject) (ms : List Move) : Gathering :=
  (Gathering.mk (w.mem.noisy S.kind) {}).acts ms

/-- The field is named by a row written after the first `n`, or gathered in memory. -/
def Recorded (S : Subject) (f : String) (n : ℕ) (w : World) : Prop :=
  Named S.filed f (w.db.changes.drop n) ∨ Gathered S.filed f (w.noisyOf S)

/-- The object is compared with `prev` by the moves `ms`, and what they gather is written, or
nothing is. -/
structure Compares (S : Subject) (prev : Option StoredObject) (sig : String) (hushed : List String)
    (now : Time) (ms : List Move) (ok : Bool) (w w' : World) : Prop where
  moves : MovesOf S.filed S.id prev sig hushed now ms
  noisy : w'.noisyOf S = (w.moved S ms).noisy.lookup S.id
  failed : ok = false → w'.db = w.db
  written : ok = true → ∃ rows, w'.db.changes = w.db.changes ++ rows ∧
    ∀ f, Named S.filed f (w.moved S ms).batch.changes → Named S.filed f rows
  stored : ok = true → ∀ new, w'.stored S = some new →
    (∃ row, .save row ∈ ms ∧ row.objectID = S.id ∧ row.fields = new.tags ∧
      row.node = new.node ∧ row.signature = new.signature) ∨
    ∃ old, w.stored S = some old ∧ old.Same new

/-- The event does nothing to the object, but for dropping its stored reading. -/
structure Idle (S : Subject) (w w' : World) : Prop where
  gathered : ∀ f, Gathered S.filed f (w.noisyOf S) → Gathered S.filed f (w'.noisyOf S)
  heldFor : HeldFor S.filed (w.noisyOf S) → HeldFor S.filed (w'.noisyOf S)
  changes : w.db.changes <+: w'.db.changes
  stored : ∀ new, w'.stored S = some new → ∃ old, w.stored S = some old ∧ old.Same new

section

variable {S : Subject} {f : String} {n : ℕ} {w w' : World} {prev : Option StoredObject}
  {sig : String} {hushed : List String} {now : Time} {ms : List Move} {ok : Bool}

theorem named_drop_append {x : FiledAs} {rows new : List ChangeRow} (h : Named x f (rows.drop n)) :
    Named x f ((rows ++ new).drop n) := by
  refine h.mono fun row hrow => ?_
  rw [List.drop_append]
  exact List.mem_append_left _ hrow

theorem named_drop_append_right {x : FiledAs} {rows new : List ChangeRow} (h : Named x f new)
    (hn : n ≤ rows.length) : Named x f ((rows ++ new).drop n) := by
  rw [List.drop_append_of_le_length hn]
  exact h.mono (List.subset_append_right _ _)

theorem Idle.of_noisy (hnoisy : w'.noisyOf S = w.noisyOf S) (hchanges : w.db.changes <+: w'.db.changes)
    (hstored : ∀ new, w'.stored S = some new → w.stored S = some new) : Idle S w w' where
  gathered _ h := hnoisy ▸ h
  heldFor h := hnoisy ▸ h
  changes := hchanges
  stored new hnew := ⟨new, hstored new hnew, rfl, rfl, rfl⟩

theorem Idle.recorded (h : Idle S w w') (hrec : Recorded S f n w) : Recorded S f n w' := by
  obtain ⟨rows, hrows⟩ := h.changes
  refine hrec.imp (fun hn => ?_) (h.gathered f)
  rw [← hrows]
  exact named_drop_append hn

namespace Compares

variable (h : Compares S prev sig hushed now ms ok w w')

include h

theorem changes : w.db.changes <+: w'.db.changes := by
  cases ok with
  | false => exact ⟨[], by rw [h.failed rfl, List.append_nil]⟩
  | true =>
    obtain ⟨rows, hrows, -⟩ := h.written rfl
    exact ⟨rows, hrows.symm⟩

theorem heldFor (hheld : HeldFor S.filed (w.noisyOf S)) : HeldFor S.filed (w'.noisyOf S) := by
  rw [h.noisy]
  exact HeldFor.acts hheld h.moves.paced

theorem saved_or_same {new : StoredObject} (hnew : w'.stored S = some new) :
    (∃ row, .save row ∈ ms ∧ row.objectID = S.id ∧ row.fields = new.tags ∧
      row.node = new.node ∧ row.signature = new.signature) ∨
    ∃ old, w.stored S = some old ∧ old.Same new := by
  cases ok with
  | true => exact h.stored rfl new hnew
  | false =>
    refine .inr ⟨new, ?_, rfl, rfl, rfl⟩
    rw [← hnew, World.stored, World.stored, h.failed rfl]

theorem recorded_of_kept (hok : ok = true) (hkept : Kept S.filed S.id f (w.moved S ms))
    (hn : n ≤ w.db.changes.length) : Recorded S f n w' := by
  obtain ⟨rows, hrows, hnamed⟩ := h.written hok
  obtain hg | hnames := hkept
  · exact .inr (h.noisy ▸ hg)
  · left
    rw [hrows]
    exact named_drop_append_right (hnamed f hnames) hn

theorem kept (hrec : Recorded S f n w) (hn : n ≤ w.db.changes.length)
    (hspares : ok = false → Gathered S.filed f (w.noisyOf S) →
      ((∃ ch now', .pace S.id ch now' ∈ ms) → Early now (w.noisyOf S)) ∧ .quiet S.id ∉ ms) :
    Recorded S f n w' := by
  obtain hnamed | hg := hrec
  · obtain ⟨rows, hrows⟩ := h.changes
    left
    rw [← hrows]
    exact named_drop_append hnamed
  · cases ok with
    | false =>
      obtain ⟨hearly, hquiet⟩ := hspares rfl hg
      right
      rw [h.noisy]
      exact Gathered.acts_of_early hg hearly h.moves.pacedAt hquiet
    | true => exact h.recorded_of_kept rfl (Kept.acts (.inl hg) ms) hn

theorem replaced {old new : StoredObject} (hheld : HeldFor S.filed (w.noisyOf S))
    (hprev : (∃ row, .save row ∈ ms ∧ row.objectID = S.id) → ∃ s, prev = some s ∧ s.Same old)
    (hold : w.stored S = some old) (hnew : w'.stored S = some new) (hne : old.tags ≠ new.tags)
    (hsig : old.signature = new.signature) (hsettled : new.signature ≠ observeUnsettled)
    (hloud : ¬ allIn (diffTags old.tags new.tags).fields hushed)
    (hf : f ∈ (diffTags old.tags new.tags).fields) : Recorded S f w.db.changes.length w' := by
  obtain ⟨row, hmem, hid, htags, -, hrow⟩ | ⟨old', hold', hsame⟩ := h.saved_or_same hnew
  · obtain ⟨s, hs, hstags, -, hssig⟩ := hprev ⟨row, hmem, hid⟩
    have hrow' : row.signature = sig :=
      (h.moves.signed row hmem hid).resolve_right (hrow ▸ hsettled)
    have hs' : s.signature = sig := by rw [hssig, hsig, ← hrow, hrow']
    obtain ⟨ch, now', hpace, hch⟩ := h.moves.saved row hmem hid hrow' s hs hs'
      (by rw [hstags, htags]; exact hloud) f (by rw [hstags, htags]; exact hf)
    have hkept : Kept S.filed S.id f (w.moved S ms) :=
      kept_of_pace hheld h.moves.paced hpace hch
    cases ok with
    | true => exact h.recorded_of_kept rfl hkept le_rfl
    | false =>
      obtain rfl : old = new := by
        have heq : w'.stored S = w.stored S := by rw [World.stored, World.stored, h.failed rfl]
        simpa [hold, hnew] using heq.symm
      exact absurd rfl hne
  · obtain rfl : old = old' := by simpa [hold] using hold'
    exact absurd hsame.1 hne

theorem flushed (hrec : Recorded S f n w) (hn : n ≤ w.db.changes.length) (hok : ok = true)
    (hquiet : .quiet S.id ∈ ms) : Named S.filed f (w'.db.changes.drop n) := by
  obtain ⟨rows, hrows, hnamed⟩ := h.written hok
  rw [hrows]
  obtain hn' | hg := hrec
  · exact named_drop_append hn'
  · have hkept : Kept S.filed S.id f (Gathering.mk (w.mem.noisy S.kind) {}) := .inl hg
    exact named_drop_append_right (hnamed f (hkept.named_of_quiet hquiet)) hn

end Compares

end

/-! ## One write -/

/-- The batch `b` of a kind was written or failed, the pacing of the kind's objects being `noisy`
from then on. -/
structure Wrote (kind : String) (b : RecordBatch) (noisy : Map NoisyObject) (seenAt : Time)
    (ok : Bool) (w w' : World) : Prop where
  noisy : w'.mem.noisy = Function.update w.mem.noisy kind noisy
  failed : ok = false → w'.db = w.db
  changes : ok = true → w'.db.changes = w.db.changes ++ b.changes
  state : ok = true →
    w'.db.state = Function.update w.db.state kind (stateAfter (w.db.state kind) b seenAt)

section

variable {S : Subject} {kind : String} {b : RecordBatch} {noisy : Map NoisyObject} {seenAt : Time}
  {ok : Bool} {w w' : World}

theorem wrote_write {w₁ : World} {mark : String}
    (hmem : w₁.mem.noisy = Function.update w.mem.noisy kind noisy) (hdb : w₁.db = w.db) :
    Wrote kind b noisy seenAt ok w (w₁.write kind b seenAt mark ok).1 where
  noisy := (write_mem w₁ kind b seenAt mark ok).trans hmem
  failed := by
    rintro rfl
    rw [write_failed, hdb]
  changes := by
    rintro rfl
    rw [(write_done ..).1, hdb]
  state := by
    rintro rfl
    rw [(write_done ..).2, hdb]

theorem Wrote.idle (h : Wrote kind b noisy seenAt ok w w') (hkind : kind ≠ S.kind) :
    Idle S w w' := by
  refine .of_noisy ?_ ?_ fun new hnew => ?_
  · unfold World.noisyOf
    rw [h.noisy, Function.update_of_ne hkind.symm]
  · cases ok with
    | false => exact h.failed rfl ▸ List.prefix_rfl
    | true => exact ⟨_, (h.changes rfl).symm⟩
  · rw [← hnew]
    unfold World.stored
    cases ok with
    | false => rw [h.failed rfl]
    | true => rw [h.state rfl, Function.update_of_ne hkind.symm]

theorem Wrote.compares {prev : Option StoredObject} {sig : String} {hushed : List String}
    {now : Time} {ms : List Move} (h : Wrote kind b noisy seenAt ok w w') (hkind : kind = S.kind)
    (hmoves : MovesOf S.filed S.id prev sig hushed now ms) (hnoisy : noisy = (w.moved S ms).noisy)
    (hchanges : ∀ f, Named S.filed f (w.moved S ms).batch.changes → Named S.filed f b.changes)
    (hstates : ∀ row ∈ b.states, .save row ∈ ms) : Compares S prev sig hushed now ms ok w w' where
  moves := hmoves
  noisy := by
    unfold World.noisyOf
    rw [h.noisy, hkind, Function.update_self, hnoisy]
  failed := h.failed
  written hok := ⟨b.changes, h.changes hok, hchanges⟩
  stored hok new hnew := by
    unfold World.stored at hnew
    rw [h.state hok, ← hkind, Function.update_self] at hnew
    obtain ⟨row, hrow, hnew'⟩ | ⟨old, hold, hsame⟩ := lookup_stateAfter hnew
    · exact .inl ⟨row, hstates row hrow, hnew'⟩
    · right
      refine ⟨old, ?_, hsame⟩
      rwa [World.stored, ← hkind]

end

end Nexara.Observer
