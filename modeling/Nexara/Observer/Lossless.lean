import Nexara.Observer.Batches

/-!
# No change is lost

A run of passes over a cluster, and one object of it. `pace` and `quiet` hand a gathered change over
before the write that stores it is known to have gone through, so a write that fails can lose one;
what is not lost, and not kept quiet, is named by a change row (`stored_change_is_named`).
-/

namespace Nexara.Observer

open Go (Map)

/-! ## What an event is to an object -/

/-- The event's readings list the object under its node and file it as its changes are, under no
signature of a guest still being made. -/
def Event.Lists (S : Subject) : Event → Prop
  | .apply i _ _ => i.Lists S
  | .guests b _ => b.kind = S.kind → b.sig ≠ observeUnsettled ∧ S.node = "" ∧
      ∀ r ∈ b.results, r.obj.id = S.id → r.obj.filedAs = S.filed
  | _ => True

def Event.fails : Event → Bool
  | .apply _ _ ok => !ok
  | .guests _ ok => !ok
  | _ => false

/-- A change of the object is gathered in memory. -/
def World.Gathers (w : World) (S : Subject) : Prop := ∃ n ∈ w.noisyOf S, n.held.isSome
deriving Decidable

/-- The event takes a gathered change out of memory: it reads the object as stored, or gone, or an
hour or more after its last row. -/
def Event.Takes (cfg : Settings) (S : Subject) (w : World) : Event → Prop
  | .apply i _ _ => i.rd.kind = S.kind ∧
      ((i.reading cfg w.pass).Takes S.id ∨
        (∃ obj ∈ i.rd.objects, obj.id = S.id) ∧ ¬ Early i.doneAt (w.noisyOf S))
  | .guests b _ => b.kind = S.kind ∧
      ∃ r ∈ firstWalked S.kind S.id w.pass.walked b.results,
        r.AsStored cfg w.pass S.kind b.sig ∨ ¬ Early r.doneAt (w.noisyOf S)
  | _ => False

instance (cfg : Settings) (S : Subject) (w : World) (e : Event) : Decidable (e.Takes cfg S w) :=
  match e with
  | .apply i _ _ =>
    inferInstanceAs (Decidable (i.rd.kind = S.kind ∧ (_ ∨ (∃ obj ∈ i.rd.objects, _) ∧ ¬ _)))
  | .guests b _ =>
    inferInstanceAs (Decidable (b.kind = S.kind ∧
      ∃ r ∈ firstWalked S.kind S.id w.pass.walked b.results, _))
  | .tick _ | .start .. | .forgetHeld .. | .forgetGuests .. => isFalse id

/-- The event does not fail to write a gathered change that it takes out of memory. -/
def Event.Spares (cfg : Settings) (S : Subject) (w : World) (e : Event) : Prop :=
  e.fails = true → w.Gathers S → ¬ e.Takes cfg S w
deriving Decidable

/-- The event reads the object as stored, under its cap, and its write goes through. -/
def Event.ReadsAsStored (cfg : Settings) (S : Subject) (w : World) : Event → Prop
  | .apply i readable ok => ok = true ∧ i.rd.kind = S.kind ∧ i.rd.kind ∉ guestKinds ∧
      (i.rd.kind, i.node) ∉ w.pass.read ∧ (w.pass.noticesStale → readable) ∧
      (i.reading cfg w.freshPass).Under (i.scopes cfg w.freshPass) S.id ∧
      i.AsStored cfg w.pass S
  | .guests b ok => ok = true ∧ b.kind = S.kind ∧ b.kind ∈ guestKinds ∧
      ∃ r ∈ firstWalked S.kind S.id w.pass.walked b.results, r.AsStored cfg w.pass S.kind b.sig
  | _ => False

def Event.hushed : Event → List String
  | .apply i _ _ => i.rd.quiet
  | _ => []

def World.Unread (w : World) (S : Subject) : Prop :=
  if S.kind ∈ guestKinds then (S.kind, S.id) ∉ w.pass.walked else (S.kind, S.node) ∉ w.pass.read

instance (S : Subject) (e : Event) : Decidable (e.Lists S) :=
  match e with
  | .apply i _ _ => inferInstanceAs (Decidable (i.Lists S))
  | .guests b _ => inferInstanceAs (Decidable (b.kind = S.kind → _ ∧ _ ∧ ∀ r ∈ b.results, _))
  | .tick _ | .start .. | .forgetHeld .. | .forgetGuests .. => isTrue trivial

instance (cfg : Settings) (S : Subject) (w : World) (e : Event) :
    Decidable (e.ReadsAsStored cfg S w) :=
  match e with
  | .apply .. => inferInstanceAs (Decidable (_ ∧ _ ∧ _ ∧ _ ∧ (_ → _) ∧ _ ∧ _))
  | .guests b _ =>
    inferInstanceAs (Decidable (_ ∧ _ ∧ _ ∧
      ∃ r ∈ firstWalked S.kind S.id w.pass.walked b.results, _))
  | .tick _ | .start .. | .forgetHeld .. | .forgetGuests .. => isFalse id

/-! ## Steps -/

section

variable {cfg : Settings} {S : Subject} {w : World} {i : Given} {readable ok : Bool}

/-- A reading applied: nothing is compared, or it is compared by the pass with fresh gates. -/
theorem apply_cases (cfg : Settings) (w : World) (i : Given) (readable ok : Bool) :
    ∃ p held, p.state = w.pass.state ∧ p.read = w.pass.read ∧ p.walked = w.pass.walked ∧
      (w.apply cfg i readable ok = { w with pass := p, mem := { w.mem with held } } ∨
        w.apply cfg i readable ok =
          World.applyReading { w with pass := p, mem := { w.mem with held } } cfg i ok) ∧
      ((w.pass.noticesStale → readable) → i.rd.objects ≠ [] → p = w.freshPass ∧
        w.apply cfg i readable ok =
          World.applyReading { w with pass := p, mem := { w.mem with held } } cfg i ok) := by
  have hfresh : w.freshPass.state = w.pass.state ∧ w.freshPass.read = w.pass.read ∧
      w.freshPass.walked = w.pass.walked := by
    unfold World.freshPass
    split_ifs <;> exact ⟨rfl, rfl, rfl⟩
  unfold World.apply World.noticesFresh
  by_cases hstale : w.pass.noticesStale && !readable
  · refine ⟨w.pass, w.mem.held, rfl, rfl, rfl, .inl ?_, fun h => ?_⟩
    · rw [if_pos hstale]
    · simp only [Bool.and_eq_true] at hstale
      simp [h hstale.1] at hstale
  · refine ⟨w.freshPass, (passEmpty w.mem.held (i.rd.kind, i.node) (i.empty cfg w.freshPass)).2,
      hfresh.1, hfresh.2.1, hfresh.2.2, ?_, fun _ hobj => ⟨rfl, ?_⟩⟩
    · rw [if_neg hstale]
      dsimp only
      split_ifs
      · exact .inr rfl
      · exact .inl rfl
    · rw [if_neg hstale]
      have hmay : (passEmpty w.mem.held (i.rd.kind, i.node) (i.empty cfg w.freshPass)).1 = true := by
        simp [passEmpty, Given.empty, hobj]
      dsimp only
      rw [if_pos hmay]

variable (cfg S i) in
theorem takes_congr {p p' : Pass} (h : p.state = p'.state) (id : String) :
    ((i.reading cfg p).Takes id ↔ (i.reading cfg p').Takes id) ∧
      (i.AsStored cfg p S ↔ i.AsStored cfg p' S) ∧
      (i.reading cfg p).prev = (i.reading cfg p').prev := by
  have hprev : (i.reading cfg p).prev = (i.reading cfg p').prev := by
    exact congrArg (fun st => Go.deleteFunc (st i.rd.kind) _) h
  refine ⟨?_, ?_, hprev⟩
  · unfold Reading.Takes Reading.Gone Reading.AsStored
    rw [hprev]
    rfl
  · unfold Given.AsStored Reading.AsStored
    rw [hprev]
    rfl

theorem lookup_prev (p : Pass) (hnode : S.node ≠ "" → ∀ s, (p.state S.kind).lookup S.id = some s →
      s.node = S.node) (hkind : i.rd.kind = S.kind) (hlists : i.Lists S) :
    (i.reading cfg p).prev.lookup S.id =
      if i.node = S.node then (p.state S.kind).lookup S.id else none := by
  unfold Reading.prev
  rw [Go.lookup_deleteFunc]
  have hsort := (hlists hkind).1
  change Option.filter (fun s => !!(decide (i.node = "") || decide (s.node = i.node)))
    ((p.state i.rd.kind).lookup S.id) = _
  rw [hkind]
  cases hs : (p.state S.kind).lookup S.id with
  | none => simp
  | some s =>
    by_cases hempty : S.node = ""
    · simp [hsort.2 hempty, hempty]
    · have hne : i.node ≠ "" := fun h => hempty (hsort.1 h)
      rw [Option.filter_some, hnode hempty s hs]
      by_cases heq : i.node = S.node
      · simp [heq]
      · simp [hne, heq, Ne.symm heq]

/-- The event compares the object by the moves `ms`, under the signature `sig` and ending at `now`;
`ok` if its write goes through. -/
structure Acts (cfg : Settings) (S : Subject) (e : Event) (prev : Option StoredObject)
    (sig : String) (now : Time) (ms : List Move) (ok : Bool) (w w' : World) : Prop where
  compares : Compares S prev sig e.hushed now ms ok w w'
  fails : e.fails = !ok
  paces : (∃ ch now', .pace S.id ch now' ∈ ms) → ¬ e.Takes cfg S w → Early now (w.noisyOf S)
  quiets : .quiet S.id ∈ ms → e.Takes cfg S w
  saves : ∀ row, .save row ∈ ms → row.objectID = S.id →
    w.Unread S ∧ ¬ w'.Unread S ∧ (S.node ≠ "" → row.node = S.node) ∧
    ((S.node ≠ "" → ∀ s, w.loaded S = some s → s.node = S.node) → prev = w.loaded S)
  reads : e.ReadsAsStored cfg S w → ok = true ∧ .quiet S.id ∈ ms

/-- The kinds a pass has read say nothing of the caps. -/
theorem under_read {read : List (String × String)}
    (h : (i.reading cfg w.freshPass).Under (i.scopes cfg w.freshPass) S.id) :
    let w₁ : World := { w with pass := { w.pass with read } }
    (i.reading cfg w₁.freshPass).Under (i.scopes cfg w₁.freshPass) S.id := by
  unfold World.freshPass at *
  cases hstale : w.pass.noticesStale
  · simp only [hstale] at *
    exact h
  · simp only [hstale] at *
    exact h

theorem acts_applyReading {p : Pass} {held : List (String × String)} (hkind : i.rd.kind = S.kind)
    (hlists : i.Lists S) (hguest : i.rd.kind ∉ guestKinds)
    (hunread : (i.rd.kind, i.node) ∉ w.pass.read) (hstate : p.state = w.pass.state)
    (hread : p.read = (i.rd.kind, i.node) :: w.pass.read)
    (hunder : (Event.apply i readable ok).ReadsAsStored cfg S w →
      (i.reading cfg p).Under (i.scopes cfg p) S.id) :
    ∃ ms, Acts cfg S (.apply i readable ok) ((i.reading cfg w.pass).prev.lookup S.id) i.sig
      i.doneAt ms ok w
      (World.applyReading { w with pass := p, mem := { w.mem with held } } cfg i ok) := by
  obtain ⟨htakes, hasStored, hprev⟩ := takes_congr cfg S i hstate S.id
  obtain ⟨ms, hcmp, ⟨-, hsaves, hpaces⟩, htook, hquiet⟩ := applyReading_compares cfg ok
    { w with pass := p, mem := { w.mem with held } } hkind hlists
  have hmoves : MovesOf S.filed S.id ((i.reading cfg p).prev.lookup S.id) i.sig i.rd.quiet i.doneAt
    ms := hcmp.moves
  rw [hprev] at hmoves
  refine ⟨ms, ⟨hmoves, hcmp.noisy, hcmp.failed, hcmp.written, hcmp.stored⟩, rfl, ?_,
    fun h => ⟨hkind, .inl (htakes.1 (htook h))⟩, ?_, ?_⟩
  · rintro ⟨ch, now', hmem⟩ hspares
    by_contra hlate
    exact hspares ⟨hkind, .inr ⟨hpaces ch now' hmem, hlate⟩⟩
  · intro row hmem hid
    obtain ⟨obj, hobj, hrow, hnode⟩ := hsaves row hmem
    obtain ⟨hi, hobjnode, -⟩ := (hlists hkind).2 obj hobj (hrow.symm.trans hid)
    have hread' := (applyReading_frame cfg i ok { w with pass := p, mem := { w.mem with held } }).2.1
    rw [hkind] at hguest hunread
    refine ⟨?_, ?_, fun _ => hnode.trans hobjnode, fun hnodes => ?_⟩
    · rwa [World.Unread, if_neg hguest, ← hi]
    · rw [World.Unread, if_neg hguest, hread', ← hi, ← hkind]
      simp [hread]
    · rw [lookup_prev w.pass hnodes hkind hlists, if_pos hi]
      rfl
  · intro hreads
    exact ⟨hreads.1, hquiet (hunder hreads) (hasStored.2 hreads.2.2.2.2.2.2)⟩

theorem step_apply (hlists : i.Lists S) :
    (Idle S w (w.step cfg (.apply i readable ok)) ∧
        ¬ (Event.apply i readable ok).ReadsAsStored cfg S w) ∨
      ∃ ms, Acts cfg S (.apply i readable ok) ((i.reading cfg w.pass).prev.lookup S.id) i.sig
        i.doneAt ms ok w (w.step cfg (.apply i readable ok)) := by
  unfold World.step
  dsimp only
  split_ifs with hguard
  · refine .inl ⟨.of_noisy rfl List.prefix_rfl fun _ h => h, fun h => ?_⟩
    exact hguard.elim h.2.2.1 h.2.2.2.1
  obtain ⟨p, held, hstate, hread, hwalked, hcases, hreads⟩ := apply_cases cfg
    { w with pass := { w.pass with read := (i.rd.kind, i.node) :: w.pass.read } } i readable ok
  by_cases hkind : i.rd.kind = S.kind
  swap
  · refine .inl ⟨?_, fun h => hkind h.2.1⟩
    obtain heq | heq := hcases
    · rw [heq]
      exact .of_noisy rfl List.prefix_rfl fun _ h => h
    · rw [heq]
      have h : Idle S { w with pass := p, mem := { w.mem with held } } _ :=
        (applyReading_wrote cfg i ok _).idle hkind
      exact ⟨h.gathered, h.heldFor, h.changes, h.stored⟩
  obtain ⟨hguest, hunread⟩ := not_or.1 hguard
  by_cases hr : (Event.apply i readable ok).ReadsAsStored cfg S w
  · obtain ⟨-, -, -, -, hreadable, hunder, obj, hobj, -⟩ := hr
    have hobjects : i.rd.objects ≠ [] := List.ne_nil_of_mem (List.mem_of_find?_eq_some hobj)
    obtain ⟨rfl, heq⟩ := hreads hreadable hobjects
    rw [heq]
    exact .inr (acts_applyReading hkind hlists hguest hunread hstate hread
      fun _ => under_read hunder)
  · obtain heq | heq := hcases
    · rw [heq]
      exact .inl ⟨.of_noisy rfl List.prefix_rfl fun _ h => h, hr⟩
    · rw [heq]
      exact .inr (acts_applyReading hkind hlists hguest hunread hstate hread fun h => absurd h hr)

theorem step_guests {b : GuestBatch} (hlists : (Event.guests b ok).Lists S) :
    (Idle S w (w.step cfg (.guests b ok)) ∧ ¬ (Event.guests b ok).ReadsAsStored cfg S w) ∨
      ∃ now ms, Acts cfg S (.guests b ok) (w.loaded S) b.sig now ms ok w
        (w.step cfg (.guests b ok)) := by
  unfold World.step
  dsimp only
  split_ifs with hguest
  swap
  · exact .inl ⟨.of_noisy rfl List.prefix_rfl fun _ h => h, fun h => hguest h.2.2.1⟩
  by_cases hkind : b.kind = S.kind
  swap
  · exact .inl ⟨(flushGuests_wrote cfg w b ok).idle hkind, fun h => hkind h.2.1⟩
  obtain ⟨hsettled, hnode, hfiled⟩ := hlists hkind
  obtain ⟨ms, now, hcmp, hnow, hsaves, hpaces, hquiet⟩ :=
    flushGuests_compares cfg w ok hkind hsettled hfiled
  have hwalked := (flushGuests_frame cfg w b ok).2.2
  right
  refine ⟨now, ms, hcmp, rfl, ?_, fun h => ?_, ?_, ?_⟩
  · rintro ⟨ch, now', hmem⟩ hspares
    obtain ⟨r, hr⟩ := hpaces ch now' hmem
    by_contra hlate
    exact hspares ⟨hkind, r, hr, .inr (hnow r hr ▸ hlate)⟩
  · obtain ⟨r, hr, hstored⟩ := hquiet.1 h
    exact ⟨hkind, r, hr, .inl hstored⟩
  · intro row hmem hid
    obtain ⟨r, hr⟩ := hsaves row hmem hid
    rw [hkind] at hguest
    refine ⟨?_, ?_, fun h => absurd hnode h, fun _ => rfl⟩
    · rw [World.Unread, if_pos hguest]
      intro hmem
      simp [firstWalked, hmem] at hr
    · rw [World.Unread, if_pos hguest, hwalked, not_not]
      obtain ⟨hr', hid'⟩ := mem_of_firstWalked hr
      have hall := (walkGuests_walked cfg w b).2 r hr'
      rwa [hid', hkind] at hall
  · rintro ⟨hok, -, -, hreads⟩
    exact ⟨hok, hquiet.2 hreads⟩

/-! ## What holds along a run -/

/-- What is gathered of the object is filed as its changes are, its readings are of its node, and
until a pass reads it, what the pass loaded is what is stored. -/
structure Sound (S : Subject) (w : World) : Prop where
  heldFor : HeldFor S.filed (w.noisyOf S)
  stored : S.node ≠ "" → ∀ s, w.stored S = some s → s.node = S.node
  loaded : S.node ≠ "" → ∀ s, w.loaded S = some s → s.node = S.node
  unread : w.Unread S → ∀ s, w.stored S = some s → ∃ l, w.loaded S = some l ∧ l.Same s

variable {w' : World} {e : Event} {kind : String} {now : Time} {state presence gates : List String}

theorem Sound.of_stored (h : Sound S w) (hheld : HeldFor S.filed (w'.noisyOf S))
    (hstate : w'.pass.state = w.pass.state) (hunread : w'.Unread S → w.Unread S)
    (hstored : ∀ new, w'.stored S = some new → (∃ old, w.stored S = some old ∧ old.Same new) ∨
      ¬ w'.Unread S ∧ (S.node ≠ "" → new.node = S.node)) : Sound S w' where
  heldFor := hheld
  stored hnode s hs := by
    obtain ⟨old, hold, -, hsame, -⟩ | ⟨-, hs'⟩ := hstored s hs
    · rw [← hsame]
      exact h.stored hnode old hold
    · exact hs' hnode
  loaded hnode s hs := by
    unfold World.loaded at hs
    rw [hstate] at hs
    exact h.loaded hnode s hs
  unread hu s hs := by
    obtain ⟨old, hold, htags, hnode, hsig⟩ | ⟨hread, -⟩ := hstored s hs
    · obtain ⟨l, hl, hltags, hlnode, hlsig⟩ := h.unread (hunread hu) old hold
      refine ⟨l, ?_, hltags.trans htags, hlnode.trans hnode, hlsig.trans hsig⟩
      unfold World.loaded
      rwa [hstate]
    · exact absurd hu hread

theorem Sound.of_idle (h : Sound S w) (hidle : Idle S w w')
    (hstate : w'.pass.state = w.pass.state) (hunread : w'.Unread S → w.Unread S) : Sound S w' :=
  h.of_stored (hidle.heldFor h.heldFor) hstate hunread fun new hnew => .inl (hidle.stored new hnew)

theorem Sound.of_acts {prev : Option StoredObject} {sig : String}
    {ms : List Move} (h : Sound S w) (hacts : Acts cfg S e prev sig now ms ok w w')
    (hstate : w'.pass.state = w.pass.state) (hunread : w'.Unread S → w.Unread S) : Sound S w' := by
  refine h.of_stored (hacts.compares.heldFor h.heldFor) hstate hunread fun new hnew => ?_
  obtain ⟨row, hmem, hid, -, hnode, -⟩ | hold := hacts.compares.saved_or_same hnew
  · obtain ⟨-, hread, hrow, -⟩ := hacts.saves row hmem hid
    exact .inr ⟨hread, fun hne => hnode.symm.trans (hrow hne)⟩
  · exact .inl hold

theorem unread_of_subset (hread : w.pass.read ⊆ w'.pass.read)
    (hwalked : w.pass.walked ⊆ w'.pass.walked) (h : w'.Unread S) : w.Unread S := by
  unfold World.Unread at *
  split_ifs at * with hguest
  · exact fun hmem => h (hwalked hmem)
  · exact fun hmem => h (hread hmem)

variable (cfg w i readable ok) in
theorem step_apply_frame :
    (w.step cfg (.apply i readable ok)).pass.state = w.pass.state ∧
      w.pass.read ⊆ (w.step cfg (.apply i readable ok)).pass.read ∧
      w.pass.walked ⊆ (w.step cfg (.apply i readable ok)).pass.walked := by
  unfold World.step
  dsimp only
  split_ifs
  · exact ⟨rfl, List.Subset.refl _, List.Subset.refl _⟩
  obtain ⟨p, held, hstate, hread, hwalked, heq | heq, -⟩ := apply_cases cfg
    { w with pass := { w.pass with read := (i.rd.kind, i.node) :: w.pass.read } } i readable ok
  · rw [heq]
    refine ⟨hstate, ?_, ?_⟩
    · rw [hread]
      exact List.subset_cons_self _ _
    · rw [hwalked]
      exact List.Subset.refl _
  · rw [heq]
    obtain ⟨hs, hr, hw⟩ := applyReading_frame cfg i ok
      { w with pass := p, mem := { w.mem with held } }
    refine ⟨hs.trans hstate, ?_, ?_⟩
    · rw [hr, hread]
      exact List.subset_cons_self _ _
    · rw [hw, hwalked]
      exact List.Subset.refl _

theorem forgetHeld_cases (hw' : w' = w.forgetHeld kind state presence gates now ok) :
    w'.mem.noisy = w.mem.noisy ∧ w'.pass.read = w.pass.read ∧ w'.pass.walked = w.pass.walked ∧
      w.db.changes <+: w'.db.changes ∧
      ((w'.db.state = w.db.state ∧ w'.pass.state = w.pass.state) ∨
        (w'.db.state = Function.update w.db.state kind
            (state.foldl (fun m id => m.erase id) (w.db.state kind)) ∧
          w'.pass.state = Function.update w.pass.state kind
            (state.foldl (fun m id => m.erase id) (w.pass.state kind)))) := by
  unfold World.forgetHeld at hw'
  by_cases hempty : (w.forgetBatch state presence gates).empty
  · rw [if_pos hempty] at hw'
    subst hw'
    exact ⟨rfl, rfl, rfl, ⟨[], List.append_nil _⟩, .inl ⟨rfl, rfl⟩⟩
  rw [if_neg hempty] at hw'
  have hok := write_ok w kind (w.forgetBatch state presence gates) now "" ok (by simpa using hempty)
  have hmem := write_mem w kind (w.forgetBatch state presence gates) now "" ok
  obtain ⟨hstate, hread, hwalked⟩ :=
    write_pass w kind (w.forgetBatch state presence gates) now "" ok
  cases ok with
  | false =>
    have hdb := write_failed w kind (w.forgetBatch state presence gates) now ""
    generalize w.write kind (w.forgetBatch state presence gates) now "" false = r at *
    obtain ⟨w₁, b₁⟩ := r
    obtain rfl : b₁ = false := hok
    subst hw'
    refine ⟨hmem, hread, hwalked, ⟨[], ?_⟩, .inl ⟨congrArg Db.state hdb, hstate⟩⟩
    rw [List.append_nil]
    exact (congrArg Db.changes hdb).symm
  | true =>
    obtain ⟨hchanges, hdb⟩ := write_done w kind (w.forgetBatch state presence gates) now ""
    generalize w.write kind (w.forgetBatch state presence gates) now "" true = r at *
    obtain ⟨w₁, b₁⟩ := r
    obtain rfl : b₁ = true := hok
    subst hw'
    refine ⟨hmem, hread, hwalked, ⟨_, hchanges.symm⟩, .inr ⟨hdb, ?_⟩⟩
    dsimp only
    rw [hstate]

theorem lookup_update_erase {rows : String → Map StoredObject} {ids : List String} :
    (Function.update rows kind (ids.foldl (fun m id => m.erase id) (rows kind)) S.kind).lookup
      S.id = if kind = S.kind ∧ S.id ∈ ids then none else (rows S.kind).lookup S.id := by
  by_cases hkind : S.kind = kind
  · subst hkind
    rw [Function.update_self, lookup_eraseAll]
    simp
  · rw [Function.update_of_ne hkind, if_neg fun h => hkind h.1.symm]

theorem idle_forgetHeld
    (hw' : w' = w.forgetHeld kind state presence gates now ok) : Idle S w w' := by
  obtain ⟨hnoisy, -, -, hchanges, hdb⟩ := forgetHeld_cases hw'
  refine .of_noisy (by rw [World.noisyOf, World.noisyOf, hnoisy]) hchanges fun new hnew => ?_
  unfold World.stored at *
  obtain ⟨hdb, -⟩ | ⟨hdb, -⟩ := hdb
  · rwa [hdb] at hnew
  · rw [hdb, lookup_update_erase] at hnew
    exact (Option.ite_none_left_eq_some.1 hnew).2

theorem Sound.forgetHeld
    (h : Sound S w) (hw' : w' = w.forgetHeld kind state presence gates now ok) :
    Sound S w' := by
  have hidle := idle_forgetHeld (S := S) hw'
  obtain ⟨-, hread, hwalked, -, ⟨-, hstate⟩ | ⟨hdb, hstate⟩⟩ := forgetHeld_cases hw'
  · exact h.of_idle hidle hstate (unread_of_subset (hread ▸ List.Subset.refl _)
      (hwalked ▸ List.Subset.refl _))
  refine ⟨hidle.heldFor h.heldFor, fun hnode s hs => ?_, fun hnode s hs => ?_, fun hu s hs => ?_⟩
  · obtain ⟨old, hold, -, hsame, -⟩ := hidle.stored s hs
    exact hsame ▸ h.stored hnode old hold
  · unfold World.loaded at hs
    rw [hstate, lookup_update_erase] at hs
    exact h.loaded hnode s (Option.ite_none_left_eq_some.1 hs).2
  · unfold World.stored at hs
    rw [hdb, lookup_update_erase] at hs
    obtain ⟨hkept, hs⟩ := Option.ite_none_left_eq_some.1 hs
    obtain ⟨l, hl, hsame⟩ := h.unread (unread_of_subset (hread ▸ List.Subset.refl _)
      (hwalked ▸ List.Subset.refl _) hu) s hs
    refine ⟨l, ?_, hsame⟩
    unfold World.loaded
    rwa [hstate, lookup_update_erase, if_neg hkept]

theorem idle_forgetGuests {gone : List String} : Idle S w (w.forgetGuests kind gone ok) := by
  cases ok with
  | false =>
    exact .of_noisy rfl List.prefix_rfl fun _ h => h
  | true =>
    exact .of_noisy rfl List.prefix_rfl fun _ h =>
      (Option.ite_none_left_eq_some.1 (lookup_update_erase.symm.trans h)).2

theorem forgetGuests_pass {gone : List String} : (w.forgetGuests kind gone ok).pass = w.pass := by
  unfold World.forgetGuests
  split_ifs <;> rfl

theorem idle_tick : Idle S w (w.forgetQuietObjects now) := by
  have hnoisy : (w.forgetQuietObjects now).noisyOf S =
      (w.noisyOf S).filter fun n => !n.forgotten now := Go.lookup_deleteFunc _ _ _
  refine ⟨fun f hg => ?_, fun hheld => ?_, ⟨[], List.append_nil _⟩,
    fun new hnew => ⟨new, hnew, rfl, rfl, rfl⟩⟩
  · obtain ⟨n, hn, hrow⟩ := hg
    have hkeep := Gathered.not_forgotten ⟨n, rfl, hrow⟩ now
    refine ⟨n, ?_, hrow⟩
    rw [hnoisy, Option.mem_def.1 hn]
    simp [hkeep]
  · intro n hn
    rw [hnoisy] at hn
    exact hheld n (Option.mem_filter_iff.1 hn).1

variable (cfg w) in
theorem step_effect (hlists : e.Lists S) : (Idle S w (w.step cfg e) ∧ ¬ e.ReadsAsStored cfg S w) ∨
      ∃ prev sig now ms ok, Acts cfg S e prev sig now ms ok w (w.step cfg e) := by
  cases e with
  | apply i readable ok =>
    exact (step_apply hlists).imp_right fun ⟨ms, h⟩ => ⟨_, _, _, ms, _, h⟩
  | guests b ok => exact (step_guests hlists).imp_right fun ⟨now, ms, h⟩ => ⟨_, _, now, ms, _, h⟩
  | tick now => exact .inl ⟨idle_tick, id⟩
  | start versions upgraded =>
    exact .inl ⟨.of_noisy rfl List.prefix_rfl fun _ h => h, id⟩
  | forgetHeld kind state presence gates now ok => exact .inl ⟨idle_forgetHeld rfl, id⟩
  | forgetGuests kind gone ok => exact .inl ⟨idle_forgetGuests, id⟩

theorem Sound.of_effect (h : Sound S w) (hlists : e.Lists S)
    (hstate : (w.step cfg e).pass.state = w.pass.state)
    (hread : w.pass.read ⊆ (w.step cfg e).pass.read)
    (hwalked : w.pass.walked ⊆ (w.step cfg e).pass.walked) : Sound S (w.step cfg e) := by
  obtain ⟨hidle, -⟩ | ⟨prev, sig, now, ms, ok, hacts⟩ := step_effect cfg w hlists
  · exact h.of_idle hidle hstate (unread_of_subset hread hwalked)
  · exact h.of_acts hacts hstate (unread_of_subset hread hwalked)

theorem Sound.step (h : Sound S w) (hlists : e.Lists S) : Sound S (w.step cfg e) := by
  cases e with
  | apply i readable ok =>
    obtain ⟨hstate, hread, hwalked⟩ := step_apply_frame cfg w i readable ok
    exact h.of_effect hlists hstate hread hwalked
  | guests b ok =>
    have hframe : (w.step cfg (.guests b ok)).pass.state = w.pass.state ∧
        w.pass.read ⊆ (w.step cfg (.guests b ok)).pass.read ∧
        w.pass.walked ⊆ (w.step cfg (.guests b ok)).pass.walked := by
      unfold World.step
      dsimp only
      split_ifs
      · obtain ⟨hstate, hread, hwalked⟩ := flushGuests_frame cfg w b ok
        exact ⟨hstate, hread ▸ List.Subset.refl _, hwalked ▸ (walkGuests_walked cfg w b).1⟩
      · exact ⟨rfl, List.Subset.refl _, List.Subset.refl _⟩
    exact h.of_effect hlists hframe.1 hframe.2.1 hframe.2.2
  | tick now => exact h.of_idle idle_tick rfl id
  | start versions upgraded =>
    exact ⟨h.heldFor, h.stored, h.stored, fun _ s hs => ⟨s, hs, rfl, rfl, rfl⟩⟩
  | forgetHeld kind state presence gates now ok => exact h.forgetHeld rfl
  | forgetGuests kind gone ok =>
    refine h.of_idle idle_forgetGuests (congrArg Pass.state forgetGuests_pass) fun hu => ?_
    have hpass : (w.step cfg (.forgetGuests kind gone ok)).pass = w.pass := forgetGuests_pass
    rwa [World.Unread, hpass] at hu

theorem changes_step (hlists : e.Lists S) : w.db.changes <+: (w.step cfg e).db.changes := by
  obtain ⟨hidle, -⟩ | ⟨prev, sig, now, ms, ok, hacts⟩ := step_effect cfg w hlists
  · exact hidle.changes
  · exact hacts.compares.changes

theorem Recorded.step {f : String} {n : ℕ} (h : Recorded S f n w) (hn : n ≤ w.db.changes.length)
    (hlists : e.Lists S) (hspares : e.Spares cfg S w) : Recorded S f n (w.step cfg e) := by
  obtain ⟨hidle, -⟩ | ⟨prev, sig, now, ms, ok, hacts⟩ := step_effect cfg w hlists
  · exact hidle.recorded h
  · refine hacts.compares.kept h hn fun hok hg => ?_
    have hgathers : w.Gathers S := by
      obtain ⟨m, hm, row, hrow, -⟩ := hg
      exact ⟨m, hm, by simp [Option.mem_def.1 hrow]⟩
    have hnot := hspares (by rw [hacts.fails, hok]; rfl) hgathers
    exact ⟨fun hpace => hacts.paces hpace hnot, fun hquiet => hnot (hacts.quiets hquiet)⟩

theorem Sound.replaced {f : String} {old new : StoredObject} (h : Sound S w) (hlists : e.Lists S)
    (hold : w.stored S = some old) (hnew : (w.step cfg e).stored S = some new)
    (hne : old.tags ≠ new.tags) (hsig : old.signature = new.signature)
    (hsettled : new.signature ≠ observeUnsettled)
    (hloud : ¬ allIn (diffTags old.tags new.tags).fields e.hushed)
    (hf : f ∈ (diffTags old.tags new.tags).fields) :
    Recorded S f w.db.changes.length (w.step cfg e) := by
  obtain ⟨hidle, -⟩ | ⟨prev, sig, now, ms, ok, hacts⟩ := step_effect cfg w hlists
  · obtain ⟨old', hold', hsame⟩ := hidle.stored new hnew
    obtain rfl : old = old' := by simpa [hold] using hold'
    exact absurd hsame.1 hne
  · refine hacts.compares.replaced h.heldFor ?_ hold hnew hne hsig hsettled hloud hf
    rintro ⟨row, hmem, hid⟩
    obtain ⟨hunread, -, -, hprev⟩ := hacts.saves row hmem hid
    rw [hprev h.loaded]
    exact h.unread hunread old hold

/-! ## Runs -/

/-- Every event of a run meets a condition on it and the state before it. -/
def Along (cfg : Settings) (C : World → Event → Prop) : World → List Event → Prop
  | _, [] => True
  | w, e :: es => C w e ∧ Along cfg C (w.step cfg e) es

instance (cfg : Settings) (C : World → Event → Prop) [∀ w e, Decidable (C w e)] :
    ∀ (w : World) (es : List Event), Decidable (Along cfg C w es)
  | _, [] => isTrue trivial
  | w, e :: es =>
    have := instDecidableAlong cfg C (w.step cfg e) es
    inferInstanceAs (Decidable (C w e ∧ _))

theorem run_append (es es' : List Event) :
    w.run cfg (es ++ es') = (w.run cfg es).run cfg es' := List.foldl_append

theorem Sound.run {es : List Event} (h : Sound S w) (hlists : ∀ e ∈ es, e.Lists S) :
    Sound S (w.run cfg es) := by
  induction es generalizing w with
  | nil => exact h
  | cons e es ih =>
    exact ih (h.step (hlists e (.head _)))
      fun e' he' => hlists e' (List.mem_cons_of_mem e he')

theorem Recorded.run {es : List Event} {f : String} {n : ℕ} (h : Recorded S f n w)
    (hn : n ≤ w.db.changes.length) (hlists : ∀ e ∈ es, e.Lists S)
    (hspares : Along cfg (fun w e => e.Spares cfg S w) w es) :
    Recorded S f n (w.run cfg es) ∧ n ≤ (w.run cfg es).db.changes.length := by
  induction es generalizing w with
  | nil => exact ⟨h, hn⟩
  | cons e es ih =>
    have he := hlists e (.head _)
    exact ih (h.step hn he hspares.1) (hn.trans (changes_step he).length_le)
      (fun e' he' => hlists e' (List.mem_cons_of_mem e he')) hspares.2

theorem sound_boot {db : Db} {versions : String}
    (hdb : S.node ≠ "" → ∀ s, (db.state S.kind).lookup S.id = some s → s.node = S.node) :
    Sound S (World.boot db versions) where
  heldFor := by
    intro n hn
    simp [World.boot, World.load, World.noisyOf] at hn
  stored := hdb
  loaded := hdb
  unread _ s hs := ⟨s, hs, rfl, rfl, rfl⟩

end

/-- A process observes a cluster from its start. When the event `e` replaces an object's stored
reading by another under the same signature, and `q` later reads it as stored and writes, every
field in which the two differ is named by a change row written from `e` to `q`, unless the reading
of `e` keeps all of them quiet, or a write between them failed in a pass that took a gathered change
of it out of memory. -/
theorem stored_change_is_named (cfg : Settings) (S : Subject) (db : Db) (versions : String)
    (before between : List Event) (e q : Event) (old new : StoredObject) (f : String)
    (hdb : S.node ≠ "" → ∀ s, (db.state S.kind).lookup S.id = some s → s.node = S.node)
    (hlists : ∀ e' ∈ before ++ e :: between ++ [q], e'.Lists S)
    (hold : ((World.boot db versions).run cfg before).stored S = some old)
    (hnew : ((World.boot db versions).run cfg (before ++ [e])).stored S = some new)
    (hne : old.tags ≠ new.tags) (hsig : old.signature = new.signature)
    (hsettled : new.signature ≠ observeUnsettled)
    (hloud : ¬ allIn (diffTags old.tags new.tags).fields e.hushed)
    (hf : f ∈ (diffTags old.tags new.tags).fields)
    (hspares : Along cfg (fun w e => e.Spares cfg S w)
      ((World.boot db versions).run cfg (before ++ [e])) between)
    (hq : q.ReadsAsStored cfg S ((World.boot db versions).run cfg (before ++ e :: between))) :
    Named S.filed f
      (((World.boot db versions).run cfg (before ++ e :: between ++ [q])).db.changes.drop
        ((World.boot db versions).run cfg before).db.changes.length) := by
  have hsound : Sound S ((World.boot db versions).run cfg before) :=
    (sound_boot hdb).run fun e' he' => hlists e' (by simp [he'])
  simp only [List.append_assoc, List.cons_append, run_append] at hnew hspares hq ⊢
  generalize (World.boot db versions).run cfg before = w at *
  have he : e.Lists S := hlists e (by simp)
  have hrec : Recorded S f w.db.changes.length (w.step cfg e) :=
    hsound.replaced he hold hnew hne hsig hsettled hloud hf
  obtain ⟨hrec, hlen⟩ := hrec.run (changes_step he).length_le
    (fun e' he' => hlists e' (by simp [he'])) hspares
  change Named S.filed f ((((w.step cfg e).run cfg (between ++ [q])).db.changes.drop _))
  rw [run_append]
  change q.ReadsAsStored cfg S ((w.step cfg e).run cfg between) at hq
  generalize (w.step cfg e).run cfg between = w' at *
  obtain ⟨-, hnot⟩ | ⟨prev, sig, now, ms, ok, hacts⟩ := step_effect cfg w' (hlists q (by simp))
  · exact absurd hq hnot
  · obtain ⟨hok, hquiet⟩ := hacts.reads hq
    exact hacts.compares.flushed hrec hlen hok hquiet

/-! ## One HA resource -/

/-- The observer of one cluster, an object's field tagged with its value. -/
def plainSettings : Settings where
  clusterID := "c"
  tag _ _ _ value := some value
  whole _ := some ""

def haMigrationFields : List String := ["group", "failback"]

def haSubject : Subject where
  kind := "ha_resource"
  id := "vm:100"
  filed := { resourceType := "ha_resource", resourceID := "vm:100" }

/-- The resource with its fields. -/
def haResource (fields : List (String × String)) : ObservedObject where
  id := "vm:100"
  resourceType := "ha_resource"
  resourceID := "vm:100"
  fields := fields.foldl (fun m e => m.insert e.1 e.2) ∅

/-- One reading of the kind, which lists the resource. -/
def haReading (quiet : List String) (fields : List (String × String)) (now : Time) : Given where
  rd := { kind := "ha_resource", objects := [haResource fields], quiet }
  sig := "s"
  readAt := now
  doneAt := now
  now := now

/-- The resource as a reading stores it. -/
def haStored (fields : List (String × String)) (now : Time) : StoredObject where
  tags := (plainSettings.makeTags "ha_resource" (haResource fields)).getD {}
  signature := "s"
  lastSeen := now

/-- Passes in each of which `state` moves, a second apart: the last of them are held back. -/
def noisyPasses (n : ℕ) : List Event :=
  (List.range n).flatMap fun k =>
    [.apply (haReading [] [("state", toString k), ("comment", "a")] (1000 * (k + 1))) true true,
      .start "" []]

theorem stored_change_is_named_noisy :
    Named haSubject.filed "comment"
      (((World.boot {} "").run plainSettings (noisyPasses 13 ++
        .apply (haReading [] [("state", "12"), ("comment", "b")] 14000) true true ::
        [.start "" [],
          .apply (haReading [] [("state", "13"), ("comment", "b")] 15000) true false,
          .start "" []] ++
        [.apply (haReading [] [("state", "12"), ("comment", "b")] 16000) true true])).db.changes.drop
        ((World.boot {} "").run plainSettings (noisyPasses 13)).db.changes.length) :=
  stored_change_is_named plainSettings haSubject {} "" (noisyPasses 13) _ _ _
    (haStored [("state", "12"), ("comment", "a")] 13000)
    (haStored [("state", "12"), ("comment", "b")] 14000) "comment" (fun h => absurd rfl h)
    (by decide +kernel) (by decide +kernel) (by decide +kernel) (by decide +kernel)
    (by decide +kernel) (by decide +kernel) (by decide +kernel) (by decide +kernel)
    (by decide +kernel) (by decide +kernel)

/-- The event `e` replaces the stored reading by one that differs in `f`, `q` later reads it as
stored and writes, and no row names the field. -/
def Loses (cfg : Settings) (S : Subject) (f : String) (before between : List Event) (e q : Event) :
    Prop :=
  let w := World.boot {} ""
  (∀ e' ∈ before ++ e :: between ++ [q], e'.Lists S) ∧
    (∃ old ∈ (w.run cfg before).stored S, ∃ new ∈ (w.run cfg (before ++ [e])).stored S,
      old.signature = new.signature ∧ f ∈ (diffTags old.tags new.tags).fields) ∧
    q.ReadsAsStored cfg S (w.run cfg (before ++ e :: between)) ∧
    ¬ Named S.filed f (w.run cfg (before ++ e :: between ++ [q])).db.changes
deriving Decidable

/-- Two changes that no row names: a resource's group is moved into a rule, which the reading keeps
quiet; and a change gathered of a noisy resource is handed by `quiet` to a write that fails. -/
theorem hushed_and_dropped_changes_are_lost :
    Loses plainSettings haSubject "group"
        [.apply (haReading [] [("group", "g"), ("state", "started")] 1000) true true, .start "" []]
        [.start "" []]
        (.apply (haReading haMigrationFields [("failback", "1"), ("state", "started")] 2000) true
          true)
        (.apply (haReading [] [("failback", "1"), ("state", "started")] 3000) true true) ∧
      Loses plainSettings haSubject "comment" (noisyPasses 13)
        [.start "" [],
          .apply (haReading [] [("state", "12"), ("comment", "b")] 15000) true false,
          .start "" []]
        (.apply (haReading [] [("state", "12"), ("comment", "b")] 14000) true true)
        (.apply (haReading [] [("state", "12"), ("comment", "b")] 16000) true true) := by
  decide +kernel

end Nexara.Observer
