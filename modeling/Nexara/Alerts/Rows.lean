import Mathlib.Data.Finset.Max
import Nexara.Alerts.Engine

/-!
# The rows of a stream

Every query on a row of `alert_history` moves it forward (`Alert.Forward`). By steady clocks a
stream's rows are in order (`Ordered`): each was resolved, and its cooldown had passed, when the
next was created. Updates keep that order, and so does the insert of a row that waits for the latest
one.
-/

namespace Nexara.Alerts

/-! ## One row -/

/-- What one query makes of a row, by the database's clock. -/
structure Alert.Forward (now : ℤ) (a b : Alert) : Prop where
  id : b.id = a.id
  stream : b.stream = a.stream
  createdAt : b.createdAt = a.createdAt
  resolved : a.state = .resolved → b = a
  stamped : b ≠ a → b.state = .resolved → b.resolvedAt = some now
  left : a.state ≠ .pending → b.state ≠ .pending
  fired : a.firedAt.isSome → b.firedAt.isSome
  notified : resolveNotifies b.state → resolveNotifies a.state ∨ b.firedAt.isSome

section

variable (now : ℤ)

theorem Alert.forward_refl (a : Alert) : a.Forward now a where
  id := rfl
  stream := rfl
  createdAt := rfl
  resolved _ := rfl
  stamped h := absurd rfl h
  left h := h
  fired h := h
  notified h := .inl h

theorem Alert.transitionToFiring_forward (a : Alert) :
    a.Forward now (a.transitionToFiring now) := by
  unfold Alert.transitionToFiring
  split
  · next h => constructor <;> simp [h, Alert.stream]
  · exact a.forward_refl now

theorem Alert.acknowledge_forward (a : Alert) : a.Forward now a.acknowledge := by
  unfold Alert.acknowledge
  split
  · next h => constructor <;> simp [h, Alert.stream, resolveNotifies]
  · exact a.forward_refl now

theorem Alert.resolved_forward {a : Alert} (h : a.state ≠ .resolved) :
    a.Forward now { a with state := .resolved, resolvedAt := some now } := by
  constructor <;> simp [h, Alert.stream, resolveNotifies]

theorem Alert.resolve_forward (a : Alert) : a.Forward now (a.resolve now) := by
  unfold Alert.resolve
  split
  · next h => exact Alert.resolved_forward now (by rintro h'; simp [h'] at h)
  · exact a.forward_refl now

theorem Alert.autoResolve_forward (a : Alert) : a.Forward now (a.autoResolve now) := by
  unfold Alert.autoResolve
  split
  · next h => exact Alert.resolved_forward now (by rintro h'; simp [h'] at h)
  · exact a.forward_refl now

end

/-- A row that is resolved, or has notified, has the stamp of it. -/
structure Alert.Valid (a : Alert) : Prop where
  stamped : a.state = .resolved → a.resolvedAt.isSome
  fired : resolveNotifies a.state → a.firedAt.isSome

theorem Alert.Valid.forward {now : ℤ} {a b : Alert} (h : a.Valid) (hf : a.Forward now b) :
    b.Valid := by
  obtain ⟨-, -, -, -, hstamped, -, hfired, hnotified⟩ := hf
  obtain ⟨hs, hn⟩ := h
  by_cases hb : b = a
  · rw [hb]
    exact ⟨hs, hn⟩
  · exact ⟨by grind, by grind⟩

/-! ## The rows -/

/-- What is known of the clocks. -/
structure Clocks where
  /-- The database's does not step back, and an alert is created later than those of its stream
  before it. -/
  steady : Bool
  /-- The process's is not ahead of the database's. -/
  behind : Bool

/-- Alert `a` was resolved, and its cooldown had passed, when `b` was created. -/
structure Alert.Before (rules : Rules) (clocks : Clocks) (a b : Alert) : Prop where
  created : a.createdAt < b.createdAt
  resolved : a.state = .resolved
  cooled : clocks.behind →
    ∀ t ∈ a.resolvedAt, t + seconds (rules a.ruleID).cooldownSeconds ≤ b.createdAt

/-- The rows of every stream are in order. -/
structure Ordered (rules : Rules) (clocks : Clocks) (w : World) : Prop where
  id : ∀ (i : ℕ) a, w.rows[i]? = some a → a.id = i
  scope : ∀ a ∈ w.rows, a.node.isSome = (rules a.ruleID).perNode
  valid : ∀ a ∈ w.rows, a.Valid
  created : clocks.steady → ∀ a ∈ w.rows, a.createdAt ≤ w.now
  chain : clocks.steady → ∀ (i j : ℕ) a b, i < j → w.rows[i]? = some a → w.rows[j]? = some b →
    a.stream = b.stream → a.Before rules clocks b

section

variable {rules : Rules} {clocks : Clocks} {w : World}

theorem getElem?_update {id i : ℕ} {f : Alert → Alert} {b : Alert}
    (h : (w.update id f).rows[i]? = some b) :
    ∃ a, w.rows[i]? = some a ∧ b = if id = i then f a else a := by
  replace h : (w.rows.modify id f)[i]? = some b := h
  rw [List.getElem?_modify] at h
  obtain ⟨a, ha, rfl⟩ := Option.map_eq_some_iff.1 h
  exact ⟨a, ha, by split <;> rfl⟩

theorem getElem?_update_self {id : ℕ} {a : Alert} (f : Alert → Alert)
    (h : w.rows[id]? = some a) : (w.update id f).rows[id]? = some (f a) := by
  show (w.rows.modify id f)[id]? = some (f a)
  rw [List.getElem?_modify, h]
  simp

theorem exists_update {id i : ℕ} {a : Alert} (f : Alert → Alert) (h : w.rows[i]? = some a) :
    (w.update id f).rows[i]? = some (if id = i then f a else a) := by
  show (w.rows.modify id f)[i]? = _
  split <;> simp_all

theorem Ordered.update (h : Ordered rules clocks w) {id : ℕ} {f : Alert → Alert}
    (hf : ∀ a : Alert, a.Forward w.now (f a)) : Ordered rules clocks (w.update id f) := by
  have hfor : ∀ {i : ℕ} {b : Alert}, (w.update id f).rows[i]? = some b →
      ∃ a, w.rows[i]? = some a ∧ a.Forward w.now b := by
    intro i b hb
    obtain ⟨a, ha, rfl⟩ := getElem?_update hb
    refine ⟨a, ha, ?_⟩
    split
    · exact hf a
    · exact a.forward_refl w.now
  constructor
  · intro i b hb
    obtain ⟨a, ha, hab⟩ := hfor hb
    rw [hab.id]
    exact h.id i a ha
  · intro b hb
    obtain ⟨i, hi⟩ := List.getElem?_of_mem hb
    obtain ⟨a, ha, hab⟩ := hfor hi
    have hstream := hab.stream
    simp only [Alert.stream, Prod.mk.injEq] at hstream
    rw [hstream.1, hstream.2]
    exact h.scope a (List.mem_of_getElem? ha)
  · intro b hb
    obtain ⟨i, hi⟩ := List.getElem?_of_mem hb
    obtain ⟨a, ha, hab⟩ := hfor hi
    exact (h.valid a (List.mem_of_getElem? ha)).forward hab
  · intro hsteady b hb
    obtain ⟨i, hi⟩ := List.getElem?_of_mem hb
    obtain ⟨a, ha, hab⟩ := hfor hi
    rw [hab.createdAt]
    exact h.created hsteady a (List.mem_of_getElem? ha)
  · intro hsteady i j b b' hij hb hb' hstream
    obtain ⟨a, ha, hab⟩ := hfor hb
    obtain ⟨a', ha', hab'⟩ := hfor hb'
    have hbefore := h.chain hsteady i j a a' hij ha ha' (by rw [← hab.stream, ← hab'.stream, hstream])
    -- the earlier of the two is resolved, so that the update leaves it as it is
    obtain rfl := hab.resolved hbefore.resolved
    constructor
    · rw [hab'.createdAt]
      exact hbefore.created
    · exact hbefore.resolved
    · rw [hab'.createdAt]
      exact hbefore.cooled

theorem Ordered.setClock (h : Ordered rules clocks w) {now : ℤ}
    (hle : clocks.steady → w.now ≤ now) : Ordered rules clocks { w with now } where
  id := h.id
  scope := h.scope
  valid := h.valid
  created hsteady a ha := (h.created hsteady a ha).trans (hle hsteady)
  chain := h.chain

variable {ruleID : ℕ} {node : Option ℕ}

section

variable (h : Ordered rules clocks w) (hscope : node.isSome = (rules ruleID).perNode)

include h hscope

theorem Ordered.insert (hbefore : clocks.steady → ∀ a ∈ w.rows, a.stream = (ruleID, node) →
      a.Before rules clocks (w.newAlert ruleID node)) :
    Ordered rules clocks { w with rows := w.rows ++ [w.newAlert ruleID node] } := by
  have hnew : (w.newAlert ruleID node).Valid := by
    constructor <;> simp [World.newAlert, resolveNotifies]
  have hid : (w.newAlert ruleID node).id = w.rows.length := rfl
  have hcreated : (w.newAlert ruleID node).createdAt = w.now := rfl
  have hstream : (w.newAlert ruleID node).stream = (ruleID, node) := rfl
  have hnode : (w.newAlert ruleID node).node.isSome =
      (rules (w.newAlert ruleID node).ruleID).perNode := hscope
  obtain ⟨hids, hscopes, hvalid, hnow, hchain⟩ := h
  constructor
  · grind
  · grind
  · grind
  · grind
  · intro hsteady i j a b hij ha hb hab
    grind

/-! ## The latest row -/

theorem isFor_iff {a : Alert} (ha : a ∈ w.rows) :
    a.isFor ruleID node ↔ a.stream = (ruleID, node) := by
  have hnode := h.scope a ha
  unfold Alert.isFor Alert.stream
  cases node with
  | some n => simp
  | none =>
    simp only [Option.isNone_none, Bool.true_or, Bool.and_true, decide_eq_true_eq, Prod.mk.injEq]
    constructor
    · rintro rfl
      refine ⟨rfl, ?_⟩
      rw [← hscope] at hnode
      simpa using hnode
    · exact fun hs => hs.1

theorem Ordered.latest {a : Alert} (ha : a ∈ w.latest ruleID node) :
    w.rows[a.id]? = some a ∧ a.stream = (ruleID, node) ∧
      (clocks.steady → ∀ b ∈ w.rows, b.stream = (ruleID, node) → b.id ≤ a.id) := by
  unfold World.latest at ha
  simp only [List.mem_filter, List.all_eq_true, decide_eq_true_eq, and_imp] at ha
  obtain ⟨⟨hmem, hfor⟩, hmax⟩ := ha
  have hstream := (isFor_iff h hscope hmem).1 hfor
  obtain ⟨i, hi⟩ := List.getElem?_of_mem hmem
  have hid := h.id i a hi
  refine ⟨by rw [hid]; exact hi, hstream, fun hsteady b hb hbs => ?_⟩
  obtain ⟨j, hj⟩ := List.getElem?_of_mem hb
  rw [h.id j b hj]
  by_contra hlt
  have hbefore := h.chain hsteady i j a b (by omega) hi hj (by rw [hstream, hbs])
  have hle := hmax b hb ((isFor_iff h hscope hb).2 hbs)
  have hcreated := hbefore.created
  omega

theorem Ordered.latest_eq_nil (hnil : w.latest ruleID node = []) :
    ∀ a ∈ w.rows, a.stream ≠ (ruleID, node) := by
  intro a ha hstream
  have hfor : a ∈ (w.rows.filter (·.isFor ruleID node)).toFinset := by
    simp [ha, (isFor_iff h hscope ha).2 hstream]
  obtain ⟨m, hm, hmax⟩ := Finset.exists_max_image _ Alert.createdAt ⟨a, hfor⟩
  have hmem : m ∈ w.latest ruleID node := by
    simp only [List.mem_toFinset] at hm hmax
    refine List.mem_filter.2 ⟨hm, List.all_eq_true.2 fun b hb => ?_⟩
    exact decide_eq_true (hmax b hb)
  rw [hnil] at hmem
  cases hmem

end

end

end Nexara.Alerts
