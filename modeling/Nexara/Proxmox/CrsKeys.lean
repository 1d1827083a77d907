import Mathlib.Data.Fin.Basic
import Nexara.Go.Splits
import Nexara.Proxmox.Crs

/-!
# Pausing the balancer changes one key

A property string is read as the list of its assignments. Setting a key replaces the value of each
assignment of that key, or appends one, and leaves the others as they are (`lookup_setCRSKey`),
whatever stands between them. Settings that came as an object are written out and read back
(`splitCRSPropString_join`).
-/

namespace Nexara.Proxmox

-- nothing here is by evaluating these
attribute [local irreducible] Go.trimSpace Go.cut Go.split

theorem lookup_cons_eq (k : String) (kv : String × String) (l : List (String × String)) :
    List.lookup k (kv :: l) = if k = kv.1 then some kv.2 else List.lookup k l := by
  rw [List.lookup_cons]
  split_ifs with hk
  · simp [hk]
  · rw [beq_false_of_ne hk]

/-! ## Assignments -/

/-- A key that can stand in a property string. -/
structure IsKey (key : String) : Prop where
  comma : ',' ∉ key.toList
  equals : '=' ∉ key.toList
  trimmed : Go.trimSpace key = key

/-- A value that can stand there. -/
structure IsValue (val : String) : Prop where
  comma : ',' ∉ val.toList
  trimmed : Go.trimSpace val = val

def assign (kv : String × String) : String := kv.1 ++ "=" ++ kv.2

section

variable {key val : String}

theorem comma_assign (hkey : IsKey key) (hval : ',' ∉ val.toList) :
    ',' ∉ (assign (key, val)).toList := by
  unfold assign
  simp [hkey.comma, hval]

theorem crsPart_trimSpace (part : String) : crsPart (Go.trimSpace part) = crsPart part := by
  unfold crsPart
  rw [Go.trimSpace_trimSpace]

theorem crsPart_of_trimmed {part : String} (hne : part ≠ "") (htrim : Go.trimSpace part = part) :
    crsPart part = (Go.cut part '=').map fun kv => (Go.trimSpace kv.1, Go.trimSpace kv.2) := by
  unfold crsPart
  rw [htrim]
  exact if_neg hne

theorem trimSpace_assign (hkey : IsKey key) (val : String) :
    ∃ val', Go.trimSpace (assign (key, val)) = assign (key, val') ∧
      (Go.trimSpace val = val → val' = val) :=
  Go.trimSpace_assign hkey.trimmed val

theorem assign_ne_empty (kv : String × String) : assign kv ≠ "" := by
  intro h
  have hlist := congrArg String.toList h
  unfold assign at hlist
  simp at hlist

theorem crsPart_assign (hkey : IsKey key) (hval : IsValue val) :
    crsPart (assign (key, val)) = some (key, val) := by
  obtain ⟨val', htrim, hsame⟩ := trimSpace_assign hkey val
  rw [hsame hval.trimmed] at htrim
  rw [crsPart_of_trimmed (assign_ne_empty _) htrim]
  unfold assign
  rw [Go.cut_assign hkey.equals, Option.map_some, hkey.trimmed, hval.trimmed]

end

theorem splitCRSPropString_join {l : List (String × String)} (hne : l ≠ [])
    (hl : ∀ kv ∈ l, IsKey kv.1 ∧ IsValue kv.2) :
    splitCRSPropString (Go.join "," (l.map assign)) = l.reverse := by
  unfold splitCRSPropString
  have hcomma : ∀ s ∈ l.map assign, ',' ∉ s.toList := by
    intro s hs
    obtain ⟨kv, hkv, rfl⟩ := List.mem_map.mp hs
    exact comma_assign (hl kv hkv).1 (hl kv hkv).2.comma
  rw [Go.split_join (by rfl) (by simpa using hne) hcomma, List.filterMap_map]
  have hparts : ∀ kv ∈ l, (crsPart ∘ assign) kv = some kv := fun kv hkv =>
    crsPart_assign (hl kv hkv).1 (hl kv hkv).2
  rw [List.filterMap_congr hparts, List.filterMap_some]

/-! ## Setting a key -/

/-- The parts of a property string, trimmed, without the empty ones. -/
def crsParts (raw : String) : List String :=
  ((Go.split raw ',').map Go.trimSpace).filter (· ≠ "")

/-- The part assigns the key. -/
def assigns (key part : String) : Bool :=
  match Go.cut part '=' with
  | some kv => Go.trimSpace kv.1 = key
  | none => false

/-- The parts of the property string in which the key is set. -/
def setParts (raw key val : String) : List String :=
  let out := (crsParts raw).map fun part => if assigns key part then assign (key, val) else part
  if (crsParts raw).any (assigns key) then out else out ++ [assign (key, val)]

theorem setCRSKey_eq (raw key val : String) :
    setCRSKey raw key val = Go.join "," (setParts raw key val) := rfl

section

variable {raw key val part : String}

theorem crsParts_spec (h : part ∈ crsParts raw) :
    part ≠ "" ∧ Go.trimSpace part = part ∧ ',' ∉ part.toList := by
  obtain ⟨hmem, hne⟩ := List.mem_filter.mp h
  obtain ⟨s, hs, rfl⟩ := List.mem_map.mp hmem
  refine ⟨by simpa using hne, Go.trimSpace_trimSpace s, fun hcomma => ?_⟩
  exact Go.notMem_of_mem_split hs (Go.mem_of_mem_trimSpace hcomma)

theorem filterMap_crsParts (raw : String) :
    (crsParts raw).filterMap crsPart = (Go.split raw ',').filterMap crsPart := by
  unfold crsParts
  induction Go.split raw ',' with
  | nil => rfl
  | cons s l ih =>
    rw [List.map_cons, List.filter_cons]
    split_ifs with hne
    · rw [List.filterMap_cons, List.filterMap_cons, crsPart_trimSpace, ih]
    · have hnone : crsPart s = none := if_pos (by simpa using hne)
      rw [ih, List.filterMap_cons_none hnone]

theorem setParts_ne_nil : setParts raw key val ≠ [] := by
  unfold setParts
  split_ifs with hany
  · intro hnil
    rw [List.map_eq_nil_iff] at hnil
    rw [hnil] at hany
    cases hany
  · simp

theorem mem_setParts (h : part ∈ setParts raw key val) :
    part = assign (key, val) ∨ part ∈ crsParts raw ∧ assigns key part = false := by
  have hout : part ∈ (crsParts raw).map (fun part =>
      if assigns key part then assign (key, val) else part) →
      part = assign (key, val) ∨ part ∈ crsParts raw ∧ assigns key part = false := by
    intro h
    obtain ⟨p, hp, rfl⟩ := List.mem_map.mp h
    split_ifs with ha
    · exact .inl rfl
    · exact .inr ⟨hp, by simpa using ha⟩
  unfold setParts at h
  split_ifs at h
  · exact hout h
  · rcases List.mem_append.mp h with h | h
    · exact hout h
    · exact .inl (List.mem_singleton.mp h)

theorem assign_mem_setParts : assign (key, val) ∈ setParts raw key val := by
  unfold setParts
  split_ifs with hany
  · obtain ⟨p, hp, ha⟩ := List.any_eq_true.mp hany
    exact List.mem_map.mpr ⟨p, hp, if_pos ha⟩
  · simp

theorem split_setCRSKey (hkey : IsKey key) (hval : ',' ∉ val.toList) :
    Go.split (setCRSKey raw key val) ',' = setParts raw key val := by
  refine Go.split_join (by rfl) setParts_ne_nil fun s hs => ?_
  rcases mem_setParts hs with rfl | ⟨hs, -⟩
  · exact comma_assign hkey hval
  · exact (crsParts_spec hs).2.2

theorem assigns_trimmed (hkey : IsKey key) : assigns key (Go.trimSpace (assign (key, val))) = true := by
  obtain ⟨val', htrim, -⟩ := trimSpace_assign hkey val
  rw [htrim]
  unfold assigns assign
  rw [Go.cut_assign hkey.equals]
  simpa using hkey.trimmed

/-- Reading the string in which the key was set: the new assignments have blanks trimmed. -/
theorem crsParts_setCRSKey (hkey : IsKey key) (hval : ',' ∉ val.toList) :
    crsParts (setCRSKey raw key val) = (setParts raw key val).map Go.trimSpace := by
  unfold crsParts
  rw [split_setCRSKey hkey hval, List.filter_eq_self]
  intro s hs
  obtain ⟨p, hp, rfl⟩ := List.mem_map.mp hs
  rcases mem_setParts hp with rfl | ⟨hp, -⟩
  · obtain ⟨val', htrim, -⟩ := trimSpace_assign hkey val
    rw [htrim]
    simpa using assign_ne_empty _
  · rw [(crsParts_spec hp).2.1]
    simpa using (crsParts_spec hp).1

/-- **Setting a key twice is setting it once.** -/
theorem setCRSKey_idempotent (raw : String) (hkey : IsKey key) (hval : ',' ∉ val.toList) :
    setCRSKey (setCRSKey raw key val) key val = setCRSKey raw key val := by
  have hparts : crsParts (setCRSKey raw key val) = (setParts raw key val).map Go.trimSpace :=
    crsParts_setCRSKey hkey hval
  have hany : (crsParts (setCRSKey raw key val)).any (assigns key) = true := by
    rw [hparts]
    exact List.any_eq_true.mpr
      ⟨_, List.mem_map_of_mem assign_mem_setParts, assigns_trimmed hkey⟩
  rw [setCRSKey_eq (setCRSKey raw key val)]
  unfold setParts
  rw [if_pos hany, hparts, List.map_map, setCRSKey_eq]
  congr 1
  conv_rhs => rw [← List.map_id (setParts raw key val)]
  refine List.map_congr_left fun p hp => ?_
  show (if assigns key (Go.trimSpace p) = true then _ else _) = p
  rcases mem_setParts hp with rfl | ⟨hp, ha⟩
  · exact if_pos (assigns_trimmed hkey)
  · rw [(crsParts_spec hp).2.1, ha]
    rfl

/-! ## What is read from it -/

/-- The assignment with the key's value replaced. -/
def replace (key val : String) (kv : String × String) : String × String :=
  if kv.1 = key then (key, val) else kv

theorem crsPart_set (hkey : IsKey key) (hval : IsValue val) (hne : part ≠ "")
    (htrim : Go.trimSpace part = part) :
    crsPart (if assigns key part then assign (key, val) else part) =
      (crsPart part).map (replace key val) := by
  have hpart := crsPart_of_trimmed hne htrim
  unfold assigns replace
  cases hcut : Go.cut part '=' with
  | none =>
    rw [hcut] at hpart
    simp [hpart]
  | some kv =>
    rw [hcut] at hpart
    simp only [hpart, Option.map_some, decide_eq_true_eq]
    split_ifs
    · exact crsPart_assign hkey hval
    · exact hpart

theorem filterMap_setParts (hkey : IsKey key) (hval : IsValue val) :
    (setParts raw key val).filterMap crsPart =
      ((Go.split raw ',').filterMap crsPart).map (replace key val) ++
        if key ∈ ((Go.split raw ',').filterMap crsPart).map Prod.fst then [] else [(key, val)] := by
  have hassigned : (crsParts raw).any (assigns key) = true ↔
      key ∈ ((crsParts raw).filterMap crsPart).map Prod.fst := by
    simp only [List.any_eq_true, List.mem_map, List.mem_filterMap]
    constructor
    · rintro ⟨p, hp, ha⟩
      unfold assigns at ha
      split at ha
      · next kv hcut =>
        refine ⟨(Go.trimSpace kv.1, Go.trimSpace kv.2), ⟨p, hp, ?_⟩, of_decide_eq_true ha⟩
        rw [crsPart_of_trimmed (crsParts_spec hp).1 (crsParts_spec hp).2.1, hcut]
        rfl
      · cases ha
    · rintro ⟨kv, ⟨p, hp, hpart⟩, rfl⟩
      rw [crsPart_of_trimmed (crsParts_spec hp).1 (crsParts_spec hp).2.1] at hpart
      obtain ⟨kv', hcut, rfl⟩ := Option.map_eq_some_iff.mp hpart
      refine ⟨p, hp, ?_⟩
      unfold assigns
      rw [hcut]
      exact decide_eq_true rfl
  have hmap : ((crsParts raw).map fun part =>
      if assigns key part then assign (key, val) else part).filterMap crsPart =
      ((crsParts raw).filterMap crsPart).map (replace key val) := by
    rw [List.filterMap_map, List.map_filterMap]
    exact List.filterMap_congr fun p hp =>
      crsPart_set hkey hval (crsParts_spec hp).1 (crsParts_spec hp).2.1
  rw [← filterMap_crsParts]
  unfold setParts
  by_cases hany : (crsParts raw).any (assigns key) = true
  · rw [if_pos hany, if_pos (hassigned.mp hany), List.append_nil, hmap]
  · rw [if_neg hany, if_neg (hany ∘ hassigned.mpr), List.filterMap_append, hmap,
      List.filterMap_cons_some (crsPart_assign hkey hval)]
    rfl

theorem lookup_map_replace (k : String) (l : List (String × String)) :
    List.lookup k (l.map (replace key val)) =
      if k = key then (if key ∈ l.map Prod.fst then some val else none) else List.lookup k l := by
  induction l with
  | nil => simp
  | cons kv l ih =>
    rw [List.map_cons, lookup_cons_eq, lookup_cons_eq, ih, List.map_cons]
    unfold replace
    by_cases hkv : kv.1 = key
    · rw [hkv]
      by_cases hk : k = key
      · simp [hk]
      · simp [hk]
    · rw [if_neg hkv]
      by_cases hk : k = key
      · have hmem : key ∈ kv.1 :: l.map Prod.fst ↔ key ∈ l.map Prod.fst := by simp [Ne.symm hkv]
        simp only [hk, hmem, Ne.symm hkv, if_false]
      · simp [hk]

/-- **One key is changed.** -/
theorem lookup_setCRSKey (raw : String) (hkey : IsKey key) (hval : IsValue val) (k : String) :
    List.lookup k (splitCRSPropString (setCRSKey raw key val)) =
      if k = key then some val else List.lookup k (splitCRSPropString raw) := by
  unfold splitCRSPropString
  rw [split_setCRSKey hkey hval.comma, filterMap_setParts hkey hval, List.reverse_append,
    ← List.map_reverse]
  have hmem : key ∈ ((Go.split raw ',').filterMap crsPart).reverse.map Prod.fst ↔
      key ∈ ((Go.split raw ',').filterMap crsPart).map Prod.fst := by
    rw [List.map_reverse, List.mem_reverse]
  by_cases hin : key ∈ ((Go.split raw ',').filterMap crsPart).map Prod.fst
  · rw [if_pos hin, List.reverse_nil, List.nil_append, lookup_map_replace, if_pos (hmem.mpr hin)]
  · rw [if_neg hin, List.reverse_singleton, List.singleton_append, lookup_cons_eq,
      lookup_map_replace]
    split_ifs <;> rfl

end

/-! ## Settings -/

/-- The assignments the settings are written out as. -/
def CRSSettings.assignments (s : CRSSettings) : List (String × String) :=
  optional (s.ha ≠ "") ("ha", s.ha) ++
  [("ha-auto-rebalance", crsBoolStr s.autoRebalance)] ++
  optional (s.threshold > 0) ("ha-auto-rebalance-threshold", toString s.threshold) ++
  optional (s.holdDuration > 0) ("ha-auto-rebalance-hold-duration", toString s.holdDuration) ++
  optional (s.margin > 0) ("ha-auto-rebalance-margin", toString s.margin) ++
  optional (s.method ≠ "") ("ha-auto-rebalance-method", s.method) ++
  optional s.rebalanceOnStart ("ha-rebalance-on-start", "1")
where
  optional (present : Bool) (kv : String × String) : List (String × String) :=
    if present then [kv] else []

open CRSSettings.assignments (optional)

theorem map_assign_optional (present : Bool) (kv : String × String) :
    (optional present kv).map assign = CRSSettings.part present (assign kv) := by
  cases present <;> rfl

theorem reverse_optional (present : Bool) (kv : String × String) :
    (optional present kv).reverse = optional present kv := by
  cases present <;> rfl

theorem lookup_optional (k : String) (present : Bool) (kv : String × String) :
    List.lookup k (optional present kv) = if present ∧ k = kv.1 then some kv.2 else none := by
  cases present with
  | false => rfl
  | true =>
    show List.lookup k [kv] = _
    rw [lookup_cons_eq]
    simp

theorem serialize_eq (s : CRSSettings) : s.serialize = Go.join "," (s.assignments.map assign) := by
  unfold CRSSettings.assignments CRSSettings.serialize
  simp only [List.map_append, map_assign_optional]
  rfl

/-- Settings that can be written out: texts that fit a property string, and small numbers. -/
structure CRSSettings.Plain (s : CRSSettings) : Prop where
  ha : IsValue s.ha
  method : IsValue s.method
  threshold : 0 ≤ s.threshold ∧ s.threshold ≤ 100
  holdDuration : 0 ≤ s.holdDuration ∧ s.holdDuration ≤ 100
  margin : 0 ≤ s.margin ∧ s.margin ≤ 100

theorem isValue_small {n : ℤ} (h : 0 ≤ n ∧ n ≤ 100) :
    IsValue (toString n) ∧ crsInt (toString n) = n := by
  have hall : ∀ k : Fin 101, (',' ∉ (toString ((k : ℕ) : ℤ)).toList ∧
      Go.trimSpace (toString ((k : ℕ) : ℤ)) = toString ((k : ℕ) : ℤ)) ∧
      crsInt (toString ((k : ℕ) : ℤ)) = k := by decide +kernel
  obtain ⟨k, rfl⟩ := Int.eq_ofNat_of_zero_le h.1
  obtain ⟨⟨hcomma, htrim⟩, hint⟩ := hall ⟨k, by omega⟩
  exact ⟨⟨hcomma, htrim⟩, hint⟩

theorem mem_optional {present : Bool} {kv kv' : String × String} (h : kv' ∈ optional present kv) :
    kv' = kv := by
  cases present with
  | false => cases h
  | true => exact List.mem_singleton.mp h

theorem assignments_spec {s : CRSSettings} (h : s.Plain) :
    ∀ kv ∈ s.assignments, IsKey kv.1 ∧ IsValue kv.2 := by
  have hkeys : ∀ key ∈ ["ha", "ha-auto-rebalance", "ha-auto-rebalance-threshold",
      "ha-auto-rebalance-hold-duration", "ha-auto-rebalance-margin", "ha-auto-rebalance-method",
      "ha-rebalance-on-start"], ',' ∉ key.toList ∧ '=' ∉ key.toList ∧ Go.trimSpace key = key := by
    decide +kernel
  have hkey : ∀ {key}, _ → IsKey key := fun hin => ⟨(hkeys _ hin).1, (hkeys _ hin).2.1, (hkeys _ hin).2.2⟩
  have hbits : ∀ val ∈ ["0", "1"], ',' ∉ val.toList ∧ Go.trimSpace val = val := by decide +kernel
  have hbit : ∀ {val}, val ∈ ["0", "1"] → IsValue val := fun hin => ⟨(hbits _ hin).1, (hbits _ hin).2⟩
  intro kv hkv
  unfold CRSSettings.assignments at hkv
  simp only [List.mem_append, List.mem_singleton, or_assoc] at hkv
  rcases hkv with hkv | rfl | hkv | hkv | hkv | hkv | hkv
  · rw [mem_optional hkv]
    exact ⟨hkey (by simp), h.ha⟩
  · refine ⟨hkey (by simp), hbit ?_⟩
    cases s.autoRebalance <;> simp [crsBoolStr]
  · rw [mem_optional hkv]
    exact ⟨hkey (by simp), (isValue_small h.threshold).1⟩
  · rw [mem_optional hkv]
    exact ⟨hkey (by simp), (isValue_small h.holdDuration).1⟩
  · rw [mem_optional hkv]
    exact ⟨hkey (by simp), (isValue_small h.margin).1⟩
  · rw [mem_optional hkv]
    exact ⟨hkey (by simp), h.method⟩
  · rw [mem_optional hkv]
    exact ⟨hkey (by simp), hbit (by simp)⟩

theorem get_serialize {s : CRSSettings} (h : s.Plain) (k : String) :
    (splitCRSPropString s.serialize).get k = ((List.lookup k s.assignments.reverse).getD "") := by
  have hne : s.assignments ≠ [] := by
    unfold CRSSettings.assignments
    simp
  unfold StringMap.get
  rw [serialize_eq, splitCRSPropString_join hne (assignments_spec h)]

theorem crsInt_optional {n : ℤ} (h : 0 ≤ n ∧ n ≤ 100) :
    crsInt ((if n > 0 then some (toString n) else none).getD "") = n := by
  split_ifs with hpos
  · exact (isValue_small h).2
  · obtain rfl : n = 0 := by omega
    rfl

/-- **Written settings are read back.** -/
theorem parse_serialize {s : CRSSettings} (h : s.Plain) :
    parseCRSSettings (.text s.serialize) = { s with raw := s.serialize } := by
  have htext : ∀ t : String, (if t = "" then none else some t).getD "" = t := fun t => by
    by_cases ht : t = "" <;> simp [ht]
  have hbit : ∀ b : Bool, crsBool ((if b then some "1" else none).getD "") = b := by decide
  have hbool : ∀ b : Bool, crsBool (crsBoolStr b) = b := by decide
  unfold parseCRSSettings assignCRS
  simp only [get_serialize h, CRSSettings.assignments, List.reverse_append, reverse_optional,
    List.lookup_append, lookup_optional]
  simpa [hbit, hbool] using ⟨htext s.ha, crsInt_optional h.threshold,
    crsInt_optional h.holdDuration, crsInt_optional h.margin, htext s.method⟩

theorem isValue_empty : IsValue "" := ⟨by decide, by decide +kernel⟩

theorem isValue_get {fields : List (String × JsonValue)}
    (h : ∀ kv ∈ fields, IsValue (crsValueToString kv.2)) (k : String) :
    IsValue (StringMap.get (fields.map fun kv => (kv.1, crsValueToString kv.2)) k) := by
  induction fields with
  | nil => exact isValue_empty
  | cons kv fields ih =>
    unfold StringMap.get
    rw [List.map_cons, lookup_cons_eq]
    split_ifs
    · exact h kv List.mem_cons_self
    · exact ih fun kv' hkv' => h kv' (List.mem_cons_of_mem kv hkv')

theorem isKey_auto : IsKey "ha-auto-rebalance" :=
  ⟨by decide, by decide, by decide +kernel⟩

theorem isValue_zero : IsValue "0" := ⟨by decide, by decide +kernel⟩

theorem parse_paused (raw : String) :
    parseCRSSettings (.text (setCRSKey raw "ha-auto-rebalance" "0")) =
      { parseCRSSettings (.text raw) with
        autoRebalance := false
        raw := setCRSKey raw "ha-auto-rebalance" "0" } := by
  unfold parseCRSSettings assignCRS StringMap.get
  simp only [lookup_setCRSKey raw isKey_auto isValue_zero]
  simp only [String.reduceEq, if_true]
  rfl

/-- **Pausing changes one key only.** Whatever the property string, the paused one assigns the same
to every other key, so the settings read from it differ in `autoRebalance` alone; pausing again
changes nothing. Settings that came as an object are read back from what is written to restore them,
and, but for `autoRebalance`, to pause them. -/
theorem paused_changes_one_key :
    (∀ raw k, List.lookup k (splitCRSPropString (setCRSKey raw "ha-auto-rebalance" "0")) =
      if k = "ha-auto-rebalance" then some "0" else List.lookup k (splitCRSPropString raw)) ∧
    (∀ raw, parseCRSSettings (.text (setCRSKey raw "ha-auto-rebalance" "0")) =
      { parseCRSSettings (.text raw) with
        autoRebalance := false
        raw := setCRSKey raw "ha-auto-rebalance" "0" }) ∧
    (∀ raw key val, IsKey key → ',' ∉ val.toList →
      setCRSKey (setCRSKey raw key val) key val = setCRSKey raw key val) ∧
    ∀ fields, (∀ kv ∈ fields, IsValue (crsValueToString kv.2)) →
      let s := parseCRSSettings (.object fields)
      (∀ n ∈ [s.threshold, s.holdDuration, s.margin], 0 ≤ n ∧ n ≤ 100) →
      parseCRSSettings (.text s.restorable) = { s with raw := s.restorable } ∧
      parseCRSSettings (.text s.pausedAutoRebalance) =
        { s with autoRebalance := false, raw := s.pausedAutoRebalance } := by
  refine ⟨fun raw => lookup_setCRSKey raw isKey_auto isValue_zero, parse_paused,
    fun raw key val hkey hval => setCRSKey_idempotent raw hkey hval, fun fields hvalues => ?_⟩
  intro s hsmall
  have hplain : s.Plain := by
    refine ⟨isValue_get hvalues _, isValue_get hvalues _, hsmall _ ?_, hsmall _ ?_, hsmall _ ?_⟩
    all_goals simp
  have hoff : CRSSettings.Plain { s with autoRebalance := false } :=
    ⟨hplain.ha, hplain.method, hplain.threshold, hplain.holdDuration, hplain.margin⟩
  exact ⟨parse_serialize hplain, parse_serialize hoff⟩

/-- Duplicates, blanks, a bare token and an empty part; and an object. -/
theorem paused_changes_one_key_odd :
    let raw := " ha = static ,ha-auto-rebalance=1,,bare, ha-auto-rebalance = true"
    let fields : List (String × JsonValue) := [("ha", .string "dynamic"),
      ("ha-auto-rebalance", .bool true), ("ha-auto-rebalance-threshold", .integer 30)]
    setCRSKey raw "ha-auto-rebalance" "0" = "ha = static,ha-auto-rebalance=0,bare,ha-auto-rebalance=0" ∧
      crsBool ((splitCRSPropString raw).get "ha-auto-rebalance") = true ∧
      List.lookup "ha" (splitCRSPropString (setCRSKey raw "ha-auto-rebalance" "0")) = some "static" ∧
      (parseCRSSettings (.text (parseCRSSettings (.object fields)).pausedAutoRebalance)).threshold =
        30 := by
  intro raw fields
  obtain ⟨hlookup, -, -, hobject⟩ := paused_changes_one_key
  have hvalues : ∀ kv ∈ fields,
      ',' ∉ (crsValueToString kv.2).toList ∧
        Go.trimSpace (crsValueToString kv.2) = crsValueToString kv.2 := by decide +kernel
  have hpaused := (hobject fields (fun kv hkv => ⟨(hvalues kv hkv).1, (hvalues kv hkv).2⟩)
    (by decide +kernel)).2
  refine ⟨by decide +kernel, by decide +kernel, ?_, ?_⟩
  · rw [hlookup]
    decide +kernel
  · rw [hpaused]
    decide +kernel

end Nexara.Proxmox
