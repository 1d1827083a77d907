import Nexara.Observer.Moves

/-!
# The loops of a reading as moves

Each loop of `apply` and the walk over the guests is a list of moves. Which object they make quiet
is said by what was read and stored: `Reading.Takes`, an object read as it is stored, or one that
is gone.
-/

namespace Nexara.Observer

open Go (Map)

namespace Reading

variable (c : Reading)

/-- The object is read as it is stored, under the signature it is stored under. -/
def AsStored (obj : ObservedObject) : Prop :=
  ∃ tags ∈ c.cfg.makeTags c.rd.kind obj, ∃ old ∈ c.prev.lookup obj.id,
    old.signature = c.sig ∧ (diffTags old.tags tags).fields = []
deriving Decidable

/-- The first of the objects of an id that could be tagged. -/
def firstRead (l : List ObservedObject) (id : String) : Option ObservedObject :=
  l.find? fun obj => obj.id = id ∧ (c.cfg.makeTags c.rd.kind obj).isSome

/-- The object is covered by the reading and neither listed nor left unread. -/
def Gone (id : String) : Prop :=
  id ∈ c.prev ∧ (∀ obj ∈ c.rd.objects, obj.id ≠ id) ∧ id ∉ c.rd.unread ∧ id ∉ c.rd.forget
deriving Decidable

/-- What is gathered of the object is taken out of memory. -/
def Takes (id : String) : Prop :=
  (∃ obj ∈ c.firstRead c.rd.objects id, c.AsStored obj) ∨ c.Gone id
deriving Decidable

/-- The object's scope is under its cap. -/
def Under (scopes : Map CapScope) (id : String) : Prop :=
  ∀ s ∈ scopes.lookup (c.scopeName id), s.isOver = false
deriving Decidable

/-- What the moves of a reading that lists `l` do to the object. -/
structure MovesIn (id : String) (l : List ObservedObject) (ms : List Move) : Prop where
  of : ∀ x, (∀ obj ∈ l, obj.id = id → obj.filedAs = x) →
    MovesOf x id (c.prev.lookup id) c.sig c.rd.quiet c.doneAt ms
  saves : ∀ row, .save row ∈ ms → ∃ obj ∈ l, row.objectID = obj.id ∧ row.node = obj.node
  paces : ∀ ch now, .pace id ch now ∈ ms → ∃ obj ∈ l, obj.id = id

/-- The same of the whole reading, and when it makes the object quiet. -/
structure Moves (scopes : Map CapScope) (id : String) (ms : List Move) : Prop
    extends c.MovesIn id c.rd.objects ms where
  took : .quiet id ∈ ms → c.Takes id
  takes : c.Under scopes id → (∃ obj ∈ c.firstRead c.rd.objects id, c.AsStored obj) → .quiet id ∈ ms

/-! ## One object -/

section

variable (a : Comparison) (s : CapScope) (obj : ObservedObject)

theorem compareOver_moves :
    ∃ ms, (c.compareOver a s obj).toGathering = a.toGathering.acts ms ∧
      Compared obj (c.prev.lookup obj.id) c.sig c.rd.quiet c.doneAt false ms := by
  unfold compareOver
  cases hprev : c.prev.lookup obj.id with
  | none => exact ⟨[], rfl, .none⟩
  | some old =>
    dsimp only
    by_cases hskip : obj.shallow || s.wasOver
    · rw [if_pos hskip]
      exact ⟨[], rfl, .none⟩
    · rw [if_neg hskip]
      cases c.cfg.makeTags c.rd.kind obj with
      | none => exact ⟨[], rfl, .none⟩
      | some tags =>
        dsimp only
        by_cases hpace : old.signature = c.sig ∧ (diffTags old.tags tags).fields ≠ [] ∧
            !allIn (diffTags old.tags tags).fields c.rd.quiet
        · simp only [hpace.2.1, hpace.1, ne_eq, hpace.2.2]
          exact ⟨_, rfl, .changed ⟨rfl, rfl, .inl rfl⟩ rfl ⟨rfl, rfl⟩ rfl⟩
        · rw [if_neg hpace]
          by_cases hsave : (diffTags old.tags tags).fields ≠ [] ∨ old.signature ≠ c.sig
          · rw [if_pos hsave]
            refine ⟨[.save _], rfl, .saved ⟨rfl, rfl, .inl rfl⟩ ?_⟩
            rintro old' ⟨⟩ hold -
            have hne : (diffTags old.tags tags).fields ≠ [] := by simpa [hold] using hsave
            simpa [hold, hne] using hpace
          · rw [if_neg hsave]
            exact ⟨[], rfl, .none⟩

theorem compareUnder_moves :
    ∃ b ms, (c.compareUnder a s obj).toGathering = a.toGathering.acts ms ∧
      Compared obj (c.prev.lookup obj.id) c.sig c.rd.quiet c.doneAt b ms ∧
      (b = true ↔ c.AsStored obj) := by
  unfold compareUnder AsStored
  cases htags : c.cfg.makeTags c.rd.kind obj with
  | none => exact ⟨false, [], rfl, .none, by simp⟩
  | some tags =>
    cases hprev : c.prev.lookup obj.id with
    | none =>
      unfold compareNew
      obtain ⟨since, pastCap⟩ := c.appeared s obj
      dsimp only
      split_ifs
      · exact ⟨false, [.save _], rfl, .saved ⟨rfl, rfl, .inl rfl⟩ (by simp), by simp⟩
      · exact ⟨false, [.save _, .pace obj.id _ c.doneAt], rfl,
          .added ⟨rfl, rfl, .inl rfl⟩ rfl ⟨rfl, rfl⟩, by simp⟩
    | some old =>
      dsimp only
      by_cases hsig : old.signature = c.sig
      · rw [if_neg (not_not.2 hsig)]
        by_cases hsame : (diffTags old.tags tags).fields = []
        · rw [if_pos hsame]
          exact ⟨true, [.quiet obj.id], rfl, .same, by simp [hsig, hsame]⟩
        · unfold compareChanged
          dsimp only
          split_ifs with hquiet
          · refine ⟨false, [.save _], rfl, .saved ⟨rfl, rfl, .inl rfl⟩ ?_, by simp [hsame]⟩
            rintro old' ⟨⟩ - -
            exact hquiet
          · exact ⟨false, [.save _, .pace obj.id _ c.doneAt], rfl,
              .changed ⟨rfl, rfl, .inl rfl⟩ rfl ⟨rfl, rfl⟩ rfl, by simp [hsame]⟩
      · rw [if_pos hsig]
        refine ⟨false, [.save _], rfl, .saved ⟨rfl, rfl, .inl rfl⟩ ?_, by simp [hsig]⟩
        rintro old' ⟨⟩ hold
        exact absurd hold hsig

variable {a obj} in
theorem compareObject_eq (hseen : obj.id ∉ a.seen) :
    ∃ s a', (∀ s' ∈ c.scopeOf a obj.id, s' = s) ∧ (c.Under a.scopes obj.id → s.isOver = false) ∧
      a'.toGathering = a.toGathering ∧ a'.seen = a.seen ∧ a'.unread = a.unread ∧
      (∀ id, c.Under a.scopes id → c.Under a'.scopes id) ∧
      c.compareObject a obj = if s.isOver then c.compareOver a' s obj else c.compareUnder a' s obj := by
  unfold compareObject
  rw [if_neg hseen]
  cases hs : c.scopeOf a obj.id with
  | none =>
    refine ⟨{ key := "", cap := 0 }, _, by simp, fun _ => rfl, ?_, ?_, ?_, ?_, rfl⟩ <;>
      simp [CapScope.byPresence]
  | some s =>
    refine ⟨s, _, by simp, fun h => h s hs, ?_, ?_, ?_, fun id hid => ?_, rfl⟩
    · split_ifs <;> rfl
    · split_ifs <;> rfl
    · split_ifs <;> rfl
    · split_ifs
      · intro s' hs'
        simp only [present, Go.lookup_insert] at hs'
        split_ifs at hs' with hname
        · have hover : s.isOver = false := hid s (by rw [hname]; exact hs)
          simpa [← Option.mem_some_iff.1 hs'] using hover
        · exact hid s' hs'
      · exact hid

theorem compareObject_moves :
    ∃ b ms, (c.compareObject a obj).toGathering = a.toGathering.acts ms ∧
      Compared obj (c.prev.lookup obj.id) c.sig c.rd.quiet c.doneAt b ms ∧
      (b = true → obj.id ∉ a.seen ∧ c.AsStored obj) ∧
      (obj.id ∉ a.seen → c.Under a.scopes obj.id → c.AsStored obj → b = true) := by
  by_cases hseen : obj.id ∈ a.seen
  · refine ⟨false, [], ?_, .none, by simp, fun h => absurd hseen h⟩
    simp [compareObject, hseen]
  · obtain ⟨s, a', -, hunder, hg, -, -, -, heq⟩ := c.compareObject_eq hseen
    rw [heq, ← hg]
    by_cases hover : s.isOver
    · rw [if_pos hover]
      obtain ⟨ms, hms, hcmp⟩ := c.compareOver_moves a' s obj
      refine ⟨false, ms, hms, hcmp, by simp, fun _ h => ?_⟩
      simp [hunder h] at hover
    · rw [if_neg hover]
      obtain ⟨b, ms, hms, hcmp, hb⟩ := c.compareUnder_moves a' s obj
      exact ⟨b, ms, hms, hcmp, fun h => ⟨hseen, hb.1 h⟩, fun _ _ h => hb.2 h⟩

theorem compareOver_frame : (c.compareOver a s obj).scopes = a.scopes ∧
    (c.compareOver a s obj).seen = obj.id :: a.seen ∧
    ((c.compareOver a s obj).unread = a.unread ∨
      (c.compareOver a s obj).unread = obj.id :: a.unread) := by
  unfold compareOver
  split
  · simp
  · split_ifs
    · simp
    · split <;> simp

theorem compareUnder_frame : (c.compareUnder a s obj).scopes = a.scopes ∧
    ((c.cfg.makeTags c.rd.kind obj = none ∧ (c.compareUnder a s obj).seen = a.seen ∧
        (c.compareUnder a s obj).unread = obj.id :: a.unread) ∨
      ((c.cfg.makeTags c.rd.kind obj).isSome ∧
        (c.compareUnder a s obj).seen = obj.id :: a.seen ∧
        (c.compareUnder a s obj).unread = a.unread)) := by
  unfold compareUnder
  cases c.cfg.makeTags c.rd.kind obj with
  | none => simp
  | some tags =>
    dsimp only
    split
    · simp
    · split_ifs <;> simp

/-- What a comparison adds to the objects seen and unread, and that it moves no scope over its
cap. -/
theorem compareObject_frame :
    ((c.compareObject a obj).seen = a.seen ∨ (c.compareObject a obj).seen = obj.id :: a.seen) ∧
    ((c.compareObject a obj).unread = a.unread ∨
      (c.compareObject a obj).unread = obj.id :: a.unread) ∧
    (obj.id ∈ (c.compareObject a obj).seen ∨ obj.id ∈ (c.compareObject a obj).unread) ∧
    ((c.cfg.makeTags c.rd.kind obj).isSome → obj.id ∈ (c.compareObject a obj).seen) ∧
    (c.Under a.scopes obj.id → c.cfg.makeTags c.rd.kind obj = none →
      (c.compareObject a obj).seen = a.seen) ∧
    ∀ id, c.Under a.scopes id → c.Under (c.compareObject a obj).scopes id := by
  by_cases hseen : obj.id ∈ a.seen
  · simp [compareObject, hseen]
  obtain ⟨s, a', -, hunder, -, hs, hu, hkeeps, heq⟩ := c.compareObject_eq hseen
  rw [heq, ← hs, ← hu]
  by_cases hover : s.isOver
  · rw [if_pos hover]
    obtain ⟨hscopes, hseen', hunread⟩ := c.compareOver_frame a' s obj
    refine ⟨.inr hseen', hunread, .inl (by simp [hseen']), fun _ => by simp [hseen'],
      fun h => ?_, fun id h => hscopes ▸ hkeeps id h⟩
    simp [hunder h] at hover
  · rw [if_neg hover]
    obtain ⟨hscopes, ⟨hnone, hseen', hunread⟩ | ⟨hsome, hseen', hunread⟩⟩ :=
      c.compareUnder_frame a' s obj
    · refine ⟨.inl hseen', .inr hunread, .inr (by simp [hunread]), fun h => ?_, fun _ _ => hseen',
        fun id h => hscopes ▸ hkeeps id h⟩
      simp [hnone] at h
    · refine ⟨.inr hseen', .inl hunread, .inl (by simp [hseen']), fun _ => by simp [hseen'],
        fun _ h => ?_, fun id h => hscopes ▸ hkeeps id h⟩
      simp [h] at hsome

end

/-! ## The loop over the objects -/

theorem firstRead_cons {obj : ObservedObject} {l : List ObservedObject} {id : String} :
    c.firstRead (obj :: l) id =
      if obj.id = id ∧ (c.cfg.makeTags c.rd.kind obj).isSome then some obj
      else c.firstRead l id := by
  unfold firstRead
  rw [List.find?_cons]
  by_cases h : obj.id = id ∧ (c.cfg.makeTags c.rd.kind obj).isSome
  · simp [h]
  · rw [if_neg h, decide_eq_false h]

/-- The loop over the objects read: one is made quiet when its first reading is as it is stored. -/
theorem objects_moves (id : String) (l : List ObservedObject) (a : Comparison) :
    ∃ ms, (l.foldl c.compareObject a).toGathering = a.toGathering.acts ms ∧ c.MovesIn id l ms ∧
      (.quiet id ∈ ms → id ∉ a.seen ∧ ∃ obj ∈ c.firstRead l id, c.AsStored obj) ∧
      (id ∉ a.seen → c.Under a.scopes id →
        (∃ obj ∈ c.firstRead l id, c.AsStored obj) → .quiet id ∈ ms) := by
  induction l generalizing a with
  | nil =>
    exact ⟨[], rfl, ⟨fun x _ => .of_other (by simp) (by simp), by simp, by simp⟩, by simp,
      by simp [firstRead]⟩
  | cons obj l ih =>
    obtain ⟨b, ms, hms, hcmp, htook, htakes⟩ := c.compareObject_moves a obj
    obtain ⟨hgrow, -, -, htagged, huntagged, hunder⟩ := c.compareObject_frame a obj
    obtain ⟨ms', hms', ⟨hof, hsave, hpace⟩, htook', htakes'⟩ := ih (c.compareObject a obj)
    refine ⟨ms ++ ms', by rw [List.foldl_cons, hms', hms, acts_append], ⟨fun x hx => ?_, ?_, ?_⟩, ?_,
      ?_⟩
    · have hl := hof x fun o ho => hx o (List.mem_cons_of_mem obj ho)
      by_cases hid : obj.id = id
      · subst hid
        exact (hcmp.movesOf rfl (hx obj (.head _) rfl)).append hl
      · exact (hcmp.movesOf_other hid).append hl
    · intro row hmem
      obtain hmem | hmem := List.mem_append.1 hmem
      · exact ⟨obj, .head _, (hcmp.save_mem hmem).1, (hcmp.save_mem hmem).2.1⟩
      · obtain ⟨o, ho, hrow⟩ := hsave row hmem
        exact ⟨o, List.mem_cons_of_mem obj ho, hrow⟩
    · intro ch now hmem
      obtain hmem | hmem := List.mem_append.1 hmem
      · exact ⟨obj, .head _, hcmp.pace_mem hmem⟩
      · obtain ⟨o, ho, hid⟩ := hpace ch now hmem
        exact ⟨o, List.mem_cons_of_mem obj ho, hid⟩
    · intro hmem
      rw [firstRead_cons]
      obtain hmem | hmem := List.mem_append.1 hmem
      · obtain ⟨hid, hb⟩ := hcmp.quiet_mem.1 hmem
        obtain ⟨hseen, hstored⟩ := htook hb
        obtain ⟨tags, htags, -⟩ := hstored
        refine ⟨hid ▸ hseen, obj, ?_, (htook hb).2⟩
        rw [if_pos ⟨hid, by simp [Option.mem_def.1 htags]⟩]
        rfl
      · obtain ⟨hseen, o, ho, hstored⟩ := htook' hmem
        have hnot : ¬ (obj.id = id ∧ (c.cfg.makeTags c.rd.kind obj).isSome) :=
          fun h => hseen (h.1 ▸ htagged h.2)
        rw [if_neg hnot]
        refine ⟨fun h => hseen ?_, o, ho, hstored⟩
        obtain heq | heq := hgrow <;> simp [heq, h]
    · rintro hseen hscope ⟨o, ho, hstored⟩
      rw [firstRead_cons] at ho
      split_ifs at ho with hobj
      · obtain rfl := Option.some.inj ho
        obtain ⟨rfl, -⟩ := hobj
        exact List.mem_append_left _ (hcmp.quiet_mem.2 ⟨rfl, htakes hseen hscope hstored⟩)
      · refine List.mem_append_right _ (htakes' ?_ (hunder id hscope) ⟨o, ho, hstored⟩)
        by_cases hid : obj.id = id
        · subst hid
          have hnone : c.cfg.makeTags c.rd.kind obj = none := by simpa using hobj
          rwa [huntagged hscope hnone]
        · obtain heq | heq := hgrow <;> simp [heq, hseen, Ne.symm hid]

theorem objects_listed {l : List ObservedObject} {a : Comparison} {id : String}
    (h : (∃ obj ∈ l, obj.id = id) ∨ id ∈ a.seen ∨ id ∈ a.unread) :
    id ∈ (l.foldl c.compareObject a).seen ∨ id ∈ (l.foldl c.compareObject a).unread := by
  induction l generalizing a with
  | nil => simpa using h
  | cons obj l ih =>
    obtain ⟨hseen, hunread, hobj, -⟩ := c.compareObject_frame a obj
    refine ih ?_
    obtain ⟨o, ho, rfl⟩ | hid | hid := h
    · obtain rfl | ho := List.mem_cons.1 ho
      · exact .inr hobj
      · exact .inl ⟨o, ho, rfl⟩
    · right; left
      obtain heq | heq := hseen <;> simp [heq, hid]
    · right; right
      obtain heq | heq := hunread <;> simp [heq, hid]

/-! ## The loop over the stored objects -/

theorem compareGone_moves (a : Comparison) (e : Σ _ : String, StoredObject) :
    ∃ ms, (c.compareGone a e).toGathering = a.toGathering.acts ms ∧
      (∀ row, .save row ∉ ms) ∧ (∀ id ch now, .pace id ch now ∉ ms) ∧
      (∀ id, .quiet id ∈ ms → e.1 = id ∧ id ∉ a.seen ∧ id ∉ a.unread ∧ id ∉ c.rd.forget) ∧
      (c.compareGone a e).seen = a.seen ∧ (c.compareGone a e).unread = a.unread := by
  have hhold : (c.holdUnread a e.1).toGathering = a.toGathering ∧
      (c.holdUnread a e.1).seen = a.seen ∧ (c.holdUnread a e.1).unread = a.unread := by
    unfold holdUnread
    split <;> simp
  unfold compareGone
  by_cases hunread : e.1 ∈ a.unread
  · refine ⟨[], ?_, by simp, by simp, by simp, ?_, ?_⟩ <;> simp [hunread, hhold]
  simp only [hunread, if_false, or_false]
  split_ifs with hseen hover hforget hrow
  · exact ⟨[], rfl, by simp⟩
  · exact ⟨[], rfl, by simp⟩
  · exact ⟨[.remove e.1], rfl, by simp⟩
  · exact ⟨[.remove e.1, .quiet e.1, .record _], rfl, by simp, by simp, by
      rintro id hmem
      obtain rfl : id = e.1 := by simpa using hmem
      exact ⟨rfl, hseen, hunread, hforget⟩, rfl, rfl⟩
  · exact ⟨[.remove e.1, .quiet e.1], rfl, by simp, by simp, by
      rintro id hmem
      obtain rfl : id = e.1 := by simpa using hmem
      exact ⟨rfl, hseen, hunread, hforget⟩, rfl, rfl⟩

theorem stored_moves (l : List (Σ _ : String, StoredObject)) (a : Comparison) :
    ∃ ms, (l.foldl c.compareGone a).toGathering = a.toGathering.acts ms ∧
      (∀ row, .save row ∉ ms) ∧ (∀ id ch now, .pace id ch now ∉ ms) ∧
      ∀ id, .quiet id ∈ ms →
        (∃ e ∈ l, e.1 = id) ∧ id ∉ a.seen ∧ id ∉ a.unread ∧ id ∉ c.rd.forget := by
  induction l generalizing a with
  | nil => exact ⟨[], rfl, by simp⟩
  | cons e l ih =>
    obtain ⟨ms, hms, hsave, hpace, hquiet, hseen, hunread⟩ := c.compareGone_moves a e
    obtain ⟨ms', hms', hsave', hpace', hquiet'⟩ := ih (c.compareGone a e)
    refine ⟨ms ++ ms', by rw [List.foldl_cons, hms', hms, acts_append], ?_, ?_, ?_⟩
    · simp [hsave, hsave']
    · simp [hpace, hpace']
    · intro id hmem
      obtain hmem | hmem := List.mem_append.1 hmem
      · obtain ⟨hid, hrest⟩ := hquiet id hmem
        exact ⟨⟨e, .head _, hid⟩, hrest⟩
      · rw [hseen, hunread] at hquiet'
        obtain ⟨⟨o, ho, hid⟩, hrest⟩ := hquiet' id hmem
        exact ⟨⟨o, List.mem_cons_of_mem e ho, hid⟩, hrest⟩

theorem compare_moves (id : String) (noisy : Map NoisyObject) (scopes : Map CapScope) :
    ∃ ms, (c.compare noisy scopes).toGathering = (Gathering.mk noisy {}).acts ms ∧
      c.Moves scopes id ms := by
  obtain ⟨ms, hms, ⟨hof, hsaves, hpaces⟩, htook, htakes⟩ := c.objects_moves id c.rd.objects
    { noisy, allOver := !c.rd.objects.isEmpty, unread := c.rd.unread, scopes }
  obtain ⟨ms', hms', hsave, hpace, hquiet⟩ := c.stored_moves c.prev.entries
    (c.rd.objects.foldl c.compareObject
      { noisy, allOver := !c.rd.objects.isEmpty, unread := c.rd.unread, scopes })
  refine ⟨ms ++ ms', by rw [acts_append, ← hms]; exact hms', ⟨⟨fun x hx => (hof x hx).append
    (.of_other (fun row h => absurd h (hsave row)) fun ch now => hpace id ch now), ?_, ?_⟩, ?_, ?_⟩⟩
  · intro row hmem
    exact hsaves row ((List.mem_append.1 hmem).resolve_right (hsave row))
  · intro ch now hmem
    exact hpaces ch now ((List.mem_append.1 hmem).resolve_right (hpace id ch now))
  · intro hmem
    obtain hmem | hmem := List.mem_append.1 hmem
    · exact .inl (htook hmem).2
    · obtain ⟨⟨e, he, rfl⟩, hseen, hunread, hforget⟩ := hquiet id hmem
      have hnot := fun h => (c.objects_listed h).elim hseen hunread
      refine .inr ⟨List.mem_map_of_mem he, fun obj hobj hid => hnot (.inl ⟨obj, hobj, hid⟩),
        fun h => hnot (.inr (.inr h)), hforget⟩
  · exact fun hscope hread => List.mem_append_left _ (htakes (by simp) hscope hread)

end Reading

/-! ## The guests -/

/-- The guest is read as it is stored, under the signature it is stored under. -/
def GuestResult.AsStored (r : GuestResult) (cfg : Settings) (p : Pass) (kind sig : String) : Prop :=
  ∃ tags ∈ cfg.makeTags kind r.obj, ∃ old ∈ (p.state kind).lookup r.obj.id,
    old.signature = sig ∧ (diffTags old.tags tags).fields = []
deriving Decidable

theorem applyGuest_moves (cfg : Settings) (p : Pass) (kind : String) {sig : String}
    (hsettled : sig ≠ observeUnsettled) (g : Gathering) (r : GuestResult) :
    ∃ b ms, applyGuest cfg p kind sig g r = g.acts ms ∧
      Compared r.obj ((p.state kind).lookup r.obj.id) sig [] r.doneAt b ms ∧
      (b = true ↔ r.AsStored cfg p kind sig) := by
  unfold applyGuest GuestResult.AsStored
  cases htags : cfg.makeTags kind r.obj with
  | none => exact ⟨false, [], rfl, .none, by simp⟩
  | some tags =>
    cases hprev : (p.state kind).lookup r.obj.id with
    | none =>
      refine ⟨false, [.save _], rfl, .saved ⟨rfl, rfl, ?_⟩ (by simp), by simp⟩
      split_ifs <;> simp
    | some old =>
      dsimp only
      split_ifs with hunsettled hsig hsame
      · refine ⟨false, [.save _], rfl, .saved ⟨rfl, rfl, .inr rfl⟩ ?_, ?_⟩
        · rintro old' ⟨⟩ - hrow
          exact absurd hrow.symm hsettled
        · simp [hunsettled.2, hsettled.symm]
      · exact ⟨true, [.save _, .quiet r.obj.id], rfl, .sameSaved ⟨rfl, rfl, .inl rfl⟩ rfl hsame,
          by simp [hsig, hsame]⟩
      · exact ⟨false, [.save _, .pace r.obj.id _ r.doneAt], rfl,
          .changed ⟨rfl, rfl, .inl rfl⟩ rfl ⟨rfl, rfl⟩ rfl, by simp [hsame]⟩
      · refine ⟨false, [.save _], rfl, .saved ⟨rfl, rfl, .inl rfl⟩ ?_, by simp [hsig]⟩
        rintro old' ⟨⟩ hold
        exact absurd hold hsig

end Nexara.Observer
