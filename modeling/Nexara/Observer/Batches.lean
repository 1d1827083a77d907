import Nexara.Observer.Written

/-!
# The writes of a pass

A reading of the object's kind, and a batch of guests, compare the object and write what they
gather: each is a `Compares` (`applyReading_compares`, `flushGuests_compares`), its moves those of
the loops.
-/

namespace Nexara.Observer

open Go (Map)

/-! ## A reading applied -/

namespace Reading

variable (c : Reading)

/-- The rows and the readings of a batch, which the comparison by presence leaves alone. -/
def SameRows (b b' : RecordBatch) : Prop := b.changes = b'.changes ∧ b.states = b'.states

theorem SameRows.foldl {α β : Type} (rows : β → RecordBatch) {step : β → α → β}
    (h : ∀ q x, SameRows (rows (step q x)) (rows q)) (l : List α) (q : β) :
    SameRows (rows (l.foldl step q)) (rows q) := by
  induction l generalizing q with
  | nil => exact ⟨rfl, rfl⟩
  | cons x l ih => exact ⟨(ih _).1.trans (h q x).1, (ih _).2.trans (h q x).2⟩

theorem comparePresence_rows (b : RecordBatch) (s : CapScope) (ids : List String) :
    SameRows (c.comparePresence b s ids).1 b := by
  have hobj (q : RecordBatch × CapScope) obj : SameRows (c.comparePresent q obj).1 q.1 := by
    unfold comparePresent SameRows
    dsimp only
    split
    · exact ⟨rfl, rfl⟩
    · split
      · exact ⟨rfl, rfl⟩
      · split
        · exact ⟨rfl, rfl⟩
        · split_ifs <;> exact ⟨rfl, rfl⟩
  have hheld (q : RecordBatch × CapScope) id : SameRows (c.compareHeld q id).1 q.1 := by
    unfold compareHeld SameRows
    dsimp only
    split_ifs <;> exact ⟨rfl, rfl⟩
  have hids q := SameRows.foldl Prod.fst hheld ids q
  have hcurrent q := SameRows.foldl Prod.fst hobj s.current q
  unfold comparePresence
  split_ifs
  · exact ⟨(hids _).1.trans (hcurrent _).1, (hids _).2.trans (hcurrent _).2⟩
  · exact hids _

theorem compareScope_rows (now : Time) (heldIn : String → List String) (q : Presence)
    (e : Σ _ : String, CapScope) : SameRows (c.compareScope now heldIn q e).batch q.batch := by
  have h := c.comparePresence_rows q.batch e.2 (heldIn e.1)
  unfold compareScope
  dsimp only
  split_ifs
  · exact ⟨rfl, rfl⟩
  all_goals exact h

theorem holdPresence_rows (a : Comparison) (id : String) :
    (c.holdPresence a id).noisy = a.noisy ∧ SameRows (c.holdPresence a id).batch a.batch := by
  unfold holdPresence holdUnread SameRows
  split_ifs
  · exact ⟨rfl, rfl, rfl⟩
  · split <;> exact ⟨rfl, rfl, rfl⟩
  · exact ⟨rfl, rfl, rfl⟩

theorem presence_rows (now : Time) (gone : List String) (a : Comparison) :
    (c.presence now gone a).1.noisy = a.noisy ∧
      SameRows (c.presence now gone a).2.batch a.batch := by
  have hnoisy : (c.held.keys.foldl c.holdPresence a).noisy = a.noisy :=
    List.foldlRecOn (motive := fun b : Comparison => b.noisy = a.noisy) _ _ rfl
      fun b hb id _ => (c.holdPresence_rows b id).1.trans hb
  have hheld := SameRows.foldl (·.batch) (fun b id => (c.holdPresence_rows b id).2) c.held.keys a
  have hscopes heldIn l q := SameRows.foldl Presence.batch (c.compareScope_rows now heldIn) l q
  exact ⟨hnoisy, (hscopes _ _ _).1.trans hheld.1, (hscopes _ _ _).2.trans hheld.2⟩

section

variable {x : FiledAs} {upgrading : Bool}

theorem named_markBulk {f kind : String} {rows : List ChangeRow} (h : Named x f rows) :
    Named x f (markBulk kind upgrading rows) := by
  unfold markBulk
  dsimp only
  split_ifs
  · exact h
  · obtain ⟨row, hrow, hnames⟩ := h
    exact ⟨_, List.mem_map_of_mem hrow, hnames⟩

theorem named_markUpgrade {f : String} {rows : List ChangeRow} (h : Named x f rows) :
    Named x f (markUpgrade upgrading rows) := by
  unfold markUpgrade
  split_ifs
  · obtain ⟨row, hrow, hnames⟩ := h
    exact ⟨_, List.mem_map_of_mem hrow, hnames⟩
  · exact h

theorem named_batch {f : String} {a : Comparison} {q : Presence} (h : Named x f q.batch.changes) :
    Named x f (c.batch upgrading a q).changes :=
  (named_markBulk (named_markUpgrade h)).mono (List.subset_append_left _ _)

end

end Reading

/-- The readings of the object's kind are all a cluster's or all a node's, and list it under its
node, filed as its changes are. -/
def Given.Lists (i : Given) (S : Subject) : Prop :=
  i.rd.kind = S.kind → (i.node = "" ↔ S.node = "") ∧
    ∀ obj ∈ i.rd.objects, obj.id = S.id →
      i.node = S.node ∧ obj.node = S.node ∧ obj.filedAs = S.filed
deriving Decidable

/-- The object is read as it is stored. -/
def Given.AsStored (i : Given) (cfg : Settings) (p : Pass) (S : Subject) : Prop :=
  ∃ obj ∈ (i.reading cfg p).firstRead i.rd.objects S.id, (i.reading cfg p).AsStored obj
deriving Decidable

section

variable (cfg : Settings) (i : Given) (ok : Bool) (w : World)

theorem applyReading_wrote : Wrote i.rd.kind (w.batchOf cfg i) (w.compareReading cfg i).1.noisy
    i.readAt ok w (w.applyReading cfg i ok) := by
  have h : Wrote i.rd.kind (w.batchOf cfg i) (w.compareReading cfg i).1.noisy i.readAt ok w
      ((w.paced cfg i).write i.rd.kind (w.batchOf cfg i) i.readAt (w.markOf cfg i) ok).1 :=
    wrote_write rfl rfl
  unfold World.applyReading
  dsimp only
  split <;> rename_i heq
  · rwa [heq] at h
  · rw [heq] at h
    exact ⟨h.noisy, h.failed, h.changes, h.state⟩

theorem applyReading_frame : (w.applyReading cfg i ok).pass.state = w.pass.state ∧
    (w.applyReading cfg i ok).pass.read = w.pass.read ∧
    (w.applyReading cfg i ok).pass.walked = w.pass.walked := by
  have h := write_pass (w.paced cfg i) i.rd.kind (w.batchOf cfg i) i.readAt (w.markOf cfg i) ok
  unfold World.applyReading
  dsimp only
  split <;> rename_i heq <;> rw [heq] at h <;> exact h

theorem mem_acts_states {g : Gathering} {ms : List Move} {row : StateRow}
    (h : row ∈ (g.acts ms).batch.states) (hg : g.batch.states = []) : .save row ∈ ms := by
  rw [acts_states, hg] at h
  obtain ⟨m, hm, heq⟩ := List.mem_filterMap.1 h
  cases m <;> simp only [reduceCtorEq, Option.some.injEq] at heq
  exact heq ▸ hm

/-- A reading compared, as moves: the comparison by presence adds none. -/
theorem compareReading_moves (id : String) :
    ∃ ms, (w.compareReading cfg i).1.noisy =
        ((Gathering.mk (w.mem.noisy i.rd.kind) {}).acts ms).noisy ∧
      (w.compareReading cfg i).2.batch.changes =
        ((Gathering.mk (w.mem.noisy i.rd.kind) {}).acts ms).batch.changes ∧
      (∀ row ∈ (w.compareReading cfg i).2.batch.states, .save row ∈ ms) ∧
      (i.reading cfg w.pass).Moves (i.scopes cfg w.pass) id ms := by
  obtain ⟨ms, hms, hmoves⟩ := (i.reading cfg w.pass).compare_moves id
    (w.mem.noisy i.rd.kind) (i.scopes cfg w.pass)
  obtain ⟨hnoisy, hchanges, hstates⟩ := (i.reading cfg w.pass).presence_rows i.now
    (goneGates w.pass i.rd (gateKey i.rd.kind i.node))
    ((i.reading cfg w.pass).compare (w.mem.noisy i.rd.kind) (i.scopes cfg w.pass))
  rw [hms] at hnoisy hchanges hstates
  refine ⟨ms, hnoisy, hchanges, fun row hrow => ?_, hmoves⟩
  refine mem_acts_states (g := Gathering.mk (w.mem.noisy i.rd.kind) {}) ?_ rfl
  rwa [← hstates]

variable {i} {S : Subject}

theorem applyReading_compares (hkind : i.rd.kind = S.kind) (hlists : i.Lists S) :
    ∃ ms, Compares S ((i.reading cfg w.pass).prev.lookup S.id) i.sig i.rd.quiet i.doneAt ms ok w
        (w.applyReading cfg i ok) ∧
      (i.reading cfg w.pass).Moves (i.scopes cfg w.pass) S.id ms := by
  obtain ⟨ms, hnoisy, hchanges, hstates, hmoves⟩ := compareReading_moves cfg i w S.id
  have hof := hmoves.of S.filed fun obj hobj hid => ((hlists hkind).2 obj hobj hid).2.2
  refine ⟨ms, (applyReading_wrote cfg i ok w).compares hkind hof ?_ (fun f hf => ?_) hstates, hmoves⟩
  · rw [hnoisy, hkind]
    rfl
  · have hnamed : Named S.filed f (w.compareReading cfg i).2.batch.changes := by
      rwa [hchanges, hkind]
    exact (i.reading cfg w.pass).named_batch hnamed

end

/-! ## A batch of guests -/

section

variable {cfg : Settings} {p : Pass} {kind sig id : String}

def firstWalked (kind id : String) (walked : List (String × String)) (l : List GuestResult) :
    Option GuestResult :=
  if (kind, id) ∈ walked then none else l.find? fun r => r.obj.id = id

section

variable {walked : List (String × String)} {r : GuestResult} {l : List GuestResult}

theorem firstWalked_cons_ne (hid : r.obj.id ≠ id) :
    firstWalked kind id walked (r :: l) = firstWalked kind id ((kind, r.obj.id) :: walked) l := by
  unfold firstWalked
  simp [hid, Ne.symm hid]

theorem mem_of_firstWalked (h : firstWalked kind id walked l = some r) : r ∈ l ∧ r.obj.id = id := by
  unfold firstWalked at h
  split_ifs at h
  exact ⟨List.mem_of_find?_eq_some h, by simpa using List.find?_some h⟩

end

theorem walk_walked (l : List GuestResult) (s : Gathering × List (String × String)) :
    s.2 ⊆ (l.foldl (World.walkGuest cfg p kind sig) s).2 ∧
      ∀ r ∈ l, (kind, r.obj.id) ∈ (l.foldl (World.walkGuest cfg p kind sig) s).2 := by
  induction l generalizing s with
  | nil => simp
  | cons r l ih =>
    have hstep : s.2 ⊆ (World.walkGuest cfg p kind sig s r).2 ∧
        (kind, r.obj.id) ∈ (World.walkGuest cfg p kind sig s r).2 := by
      unfold World.walkGuest
      split_ifs with hwalked
      · exact ⟨List.Subset.refl _, hwalked⟩
      · exact ⟨List.subset_cons_self _ _, .head _⟩
    obtain ⟨hsub, hall⟩ := ih (World.walkGuest cfg p kind sig s r)
    refine ⟨List.Subset.trans hstep.1 hsub, fun r' hr' => ?_⟩
    obtain rfl | hr' := List.mem_cons.1 hr'
    · exact hsub hstep.2
    · exact hall r' hr'

variable (cfg p kind id) in
theorem walk_moves (hsettled : sig ≠ observeUnsettled) (l : List GuestResult)
    (s : Gathering × List (String × String)) :
    ∃ ms, (l.foldl (World.walkGuest cfg p kind sig) s).1 = s.1.acts ms ∧
      (∀ x now, (∀ r, firstWalked kind id s.2 l = some r → r.obj.filedAs = x ∧ r.doneAt = now) →
        MovesOf x id ((p.state kind).lookup id) sig [] now ms) ∧
      (∀ row, .save row ∈ ms → row.objectID = id → ∃ r, firstWalked kind id s.2 l = some r) ∧
      (∀ ch now, .pace id ch now ∈ ms → ∃ r, firstWalked kind id s.2 l = some r) ∧
      (.quiet id ∈ ms ↔ ∃ r ∈ firstWalked kind id s.2 l, r.AsStored cfg p kind sig) := by
  induction l generalizing s with
  | nil =>
    refine ⟨[], rfl, fun x now _ => .of_other (by simp) (by simp), by simp, by simp, ?_⟩
    unfold firstWalked
    split_ifs <;> simp
  | cons r l ih =>
    by_cases hwalked : (kind, r.obj.id) ∈ s.2
    · have hstep : World.walkGuest cfg p kind sig s r = s := by simp [World.walkGuest, hwalked]
      have hfirst : firstWalked kind id s.2 (r :: l) = firstWalked kind id s.2 l := by
        unfold firstWalked
        split_ifs with hid
        · rfl
        · have hne : r.obj.id ≠ id := fun h => hid (h ▸ hwalked)
          simp [hne]
      rw [List.foldl_cons, hstep, hfirst]
      exact ih s
    · have hstep : World.walkGuest cfg p kind sig s r =
          (applyGuest cfg p kind sig s.1 r, (kind, r.obj.id) :: s.2) := by
        simp [World.walkGuest, hwalked]
      obtain ⟨b, ms, hms, hcmp, hb⟩ := applyGuest_moves cfg p kind hsettled s.1 r
      obtain ⟨ms', hms', hof, hsave, hpace, hquiet⟩ :=
        ih (applyGuest cfg p kind sig s.1 r, (kind, r.obj.id) :: s.2)
      rw [List.foldl_cons, hstep]
      refine ⟨ms ++ ms', by rw [hms', hms, acts_append], ?_, ?_, ?_, ?_⟩
      · intro x now hx
        by_cases hid : r.obj.id = id
        · subst hid
          obtain ⟨rfl, rfl⟩ := hx r (by simp [firstWalked, hwalked])
          refine (hcmp.movesOf rfl rfl).append (hof _ _ fun r' hr' => ?_)
          simp [firstWalked] at hr'
        · refine (hcmp.movesOf_other hid).append (hof x now fun r' hr' => hx r' ?_)
          rw [firstWalked_cons_ne hid]
          exact hr'
      · intro row hmem hrow
        by_cases hid : r.obj.id = id
        · exact ⟨r, by simp [firstWalked, hid ▸ hwalked, hid]⟩
        · rw [firstWalked_cons_ne hid]
          refine hsave row ((List.mem_append.1 hmem).resolve_left fun h => hid ?_) hrow
          exact (hcmp.save_mem h).1.symm.trans hrow
      · intro ch now hmem
        by_cases hid : r.obj.id = id
        · exact ⟨r, by simp [firstWalked, hid ▸ hwalked, hid]⟩
        · rw [firstWalked_cons_ne hid]
          exact hpace ch now ((List.mem_append.1 hmem).resolve_left fun h => hid (hcmp.pace_mem h))
      · rw [List.mem_append, hcmp.quiet_mem, hb, hquiet]
        by_cases hid : r.obj.id = id
        · subst hid
          simp [firstWalked, hwalked]
        · rw [firstWalked_cons_ne hid]
          simp [hid]

variable (cfg) (w : World) (b : GuestBatch) (ok : Bool)

theorem flushGuests_wrote : Wrote b.kind (w.walkGuests cfg b).1.batch (w.walkGuests cfg b).1.noisy
    b.seenAt ok w (w.flushGuests cfg b ok) :=
  wrote_write rfl rfl

theorem flushGuests_frame : (w.flushGuests cfg b ok).pass.state = w.pass.state ∧
    (w.flushGuests cfg b ok).pass.read = w.pass.read ∧
    (w.flushGuests cfg b ok).pass.walked = (w.walkGuests cfg b).2 :=
  write_pass _ _ _ _ _ _

theorem walkGuests_walked : w.pass.walked ⊆ (w.walkGuests cfg b).2 ∧
    ∀ r ∈ b.results, (b.kind, r.obj.id) ∈ (w.walkGuests cfg b).2 :=
  walk_walked b.results ({ noisy := w.mem.noisy b.kind }, w.pass.walked)

variable {b} {S : Subject}

theorem flushGuests_compares (hkind : b.kind = S.kind) (hsettled : b.sig ≠ observeUnsettled)
    (hlists : ∀ r ∈ b.results, r.obj.id = S.id → r.obj.filedAs = S.filed) :
    ∃ ms now, Compares S (w.loaded S) b.sig [] now ms ok w (w.flushGuests cfg b ok) ∧
      (∀ r, firstWalked S.kind S.id w.pass.walked b.results = some r → r.doneAt = now) ∧
      (∀ row, .save row ∈ ms → row.objectID = S.id →
        ∃ r, firstWalked S.kind S.id w.pass.walked b.results = some r) ∧
      (∀ ch now', .pace S.id ch now' ∈ ms →
        ∃ r, firstWalked S.kind S.id w.pass.walked b.results = some r) ∧
      (.quiet S.id ∈ ms ↔ ∃ r ∈ firstWalked S.kind S.id w.pass.walked b.results,
        r.AsStored cfg w.pass S.kind b.sig) := by
  obtain ⟨ms, hms, hof, hsave, hpace, hquiet⟩ := walk_moves cfg w.pass S.kind S.id hsettled
    b.results ({ noisy := w.mem.noisy S.kind }, w.pass.walked)
  have hwalk : (w.walkGuests cfg b).1 = w.moved S ms := by
    unfold World.walkGuests World.moved
    rw [hkind, hms]
  obtain ⟨now, hnow⟩ : ∃ now, ∀ r, firstWalked S.kind S.id w.pass.walked b.results = some r →
      r.doneAt = now := by
    cases firstWalked S.kind S.id w.pass.walked b.results with
    | none => exact ⟨0, by simp⟩
    | some r => exact ⟨r.doneAt, by simp⟩
  have hmoves := hof S.filed now fun r hr =>
    ⟨hlists r (mem_of_firstWalked hr).1 (mem_of_firstWalked hr).2, hnow r hr⟩
  refine ⟨ms, now, (flushGuests_wrote cfg w b ok).compares hkind hmoves (by rw [hwalk])
    (fun f hf => by rw [hwalk]; exact hf) (fun row hrow => ?_), hnow, hsave, hpace, hquiet⟩
  rw [hwalk] at hrow
  exact mem_acts_states hrow rfl

end

end Nexara.Observer
