import Nexara.Apischema.Compiled

/-!
# Requests against a compiled schema

`Validate` on a whole request: unknown keys, one parameter after another, and what the supplied
ones require. With `Compile` behind it, every plain error along the way is excluded, and the values
that come out are complete and satisfy their properties.
-/

namespace Nexara.Apischema

open Go (Map)

variable {env : Env} {props : Properties} {inp : Map Any} {name : String} {prop : Property}
  {out out' : Params}

/-! ## Reading one parameter -/

mutual

theorem deepCopyValue_eq : ∀ v : Any, deepCopyValue v = v
  | .object fields => by rw [deepCopyValue, deepCopyFields_eq fields]
  | .slice elems => by rw [deepCopyValue, deepCopyElems_eq elems]
  | .nil | .bool _ | .string _ | .number _ | .int _ | .int8 _ | .int16 _ | .int32 _ | .int64 _
  | .uint _ | .uint8 _ | .uint16 _ | .uint32 _ | .uint64 _ | .float32 _ | .float64 _ | .strings _
  | .other => by simp [deepCopyValue]

theorem deepCopyFields_eq : ∀ fields : List (String × Any), deepCopyFields fields = fields
  | [] => by rw [deepCopyFields]
  | (k, e) :: fields => by rw [deepCopyFields, deepCopyValue_eq e, deepCopyFields_eq fields]

theorem deepCopyElems_eq : ∀ elems : List Any, deepCopyElems elems = elems
  | [] => by rw [deepCopyElems]
  | e :: elems => by rw [deepCopyElems, deepCopyValue_eq e, deepCopyElems_eq elems]

end

def Supplied (inp : Map Any) (name : String) (prop : Property) : Prop :=
  ∃ raw, (present inp name = some raw ∨
    (prop.facets.aliasName ≠ "" ∧ present inp prop.facets.aliasName = some raw)) ∧
    (prop.facets.emptyIsAbsent && raw.isEmptyString) = false

theorem rawValue_eq_ok {p : Facets} {r : Option Any} (h : rawValue inp name p = .ok r) (raw : Any) :
    r = some raw ↔
      present inp name = some raw ∨ (p.aliasName ≠ "" ∧ present inp p.aliasName = some raw) := by
  unfold rawValue at h
  split_ifs at h with halias
  · cases h
    simp [halias]
  · cases hname : present inp name with
    | none =>
      cases hother : present inp p.aliasName with
      | none =>
        rw [hname, hother] at h
        cases h
        simp
      | some v =>
        rw [hname, hother] at h
        cases h
        simp [halias]
    | some u =>
      cases hother : present inp p.aliasName with
      | none =>
        rw [hname, hother] at h
        cases h
        simp
      | some v =>
        rw [hname, hother] at h
        cases h

theorem dropEmpty_eq_ok {r r' : Option Any} (h : dropEmpty env name prop r = .ok r') (raw : Any) :
    r' = some raw ↔ r = some raw ∧ (prop.facets.emptyIsAbsent && raw.isEmptyString) = false := by
  cases r with
  | none =>
    cases h
    simp
  | some raw₀ =>
    dsimp only [dropEmpty] at h
    split_ifs at h with hempty
    · obtain ⟨-, h⟩ := seq_eq_ok.1 h
      cases h
      refine ⟨fun h => (by cases h), fun ⟨hr, hne⟩ => ?_⟩
      cases hr
      rw [hempty] at hne
      cases hne
    · cases h
      refine ⟨fun h => ⟨h, ?_⟩, fun h => h.1⟩
      cases h
      simpa using hempty

theorem blameless_rawValue {p : Facets} : Blameless (rawValue inp name p) := by
  refine blameless_ite (fun _ => blameless_ok _) fun _ => ?_
  split
  · exact blameless_newErr _ _
  · exact blameless_ok _
  · exact blameless_ok _

theorem blameless_dropEmpty {r : Option Any}
    (hdecl : checkDeclaration env name prop.facets prop.items.isSome = .ok ()) :
    Blameless (dropEmpty env name prop r) := by
  cases r with
  | none => exact blameless_ok none
  | some raw =>
    exact blameless_ite (fun _ => (blameless_of_ok hdecl).seq fun _ => blameless_ok none)
      fun _ => blameless_ok (some raw)

/-- What one parameter adds: its value; or it is optional, and adds its default or nothing. -/
theorem validateParam_eq_ok (h : validateParam env inp name prop out = .ok out') :
    (Supplied inp name prop ∧ ∃ v, Satisfies env prop v ∧
      out' = { out with values := out.values.insert name v, supplied := name :: out.supplied }) ∨
    (¬Supplied inp name prop ∧ prop.facets.optional = true ∧ (out' = out ∨
      ∃ v, Satisfies env prop v ∧ out' = { out with values := out.values.insert name v })) := by
  obtain ⟨r, hraw, h⟩ := bind_eq_ok.1 h
  obtain ⟨r', hdrop, h⟩ := bind_eq_ok.1 h
  have hsupplied : Supplied inp name prop ↔ ∃ raw, r' = some raw := by
    refine exists_congr fun raw => ?_
    rw [dropEmpty_eq_ok hdrop, rawValue_eq_ok hraw]
  cases r' with
  | some raw =>
    obtain ⟨v, hv, h⟩ := bind_eq_ok.1 h
    cases h
    exact .inl ⟨hsupplied.2 ⟨raw, rfl⟩, v, validateValue_satisfies hv, rfl⟩
  | none =>
    refine .inr ⟨fun hs => (by obtain ⟨raw, hr⟩ := hsupplied.1 hs; cases hr), ?_⟩
    cases hopt : prop.facets.optional with
    | false =>
      rw [hopt] at h
      simp only [Bool.not_false] at h
      split_ifs at h
    | true =>
      refine ⟨rfl, ?_⟩
      split_ifs at h with hnil
      · cases h
        exact .inl rfl
      · cases hv : validateValue env prop name (deepCopyValue prop.facets.default) with
        | error err => rw [hv] at h; cases h
        | ok v =>
          rw [hv] at h
          cases h
          exact .inr ⟨v, validateValue_satisfies hv, rfl⟩

theorem blameless_validateParam (hgood : Good env prop)
    (hdefault : prop.facets.default.isNil = false →
      ∃ v, validateValue env prop name prop.facets.default = .ok v) :
    Blameless (validateParam env inp name prop out) := by
  obtain ⟨hdecl, -, -, -, -⟩ := id hgood
  have hd := declared_of_ok (hdecl name)
  refine blameless_rawValue.bind fun r _ => (blameless_dropEmpty (hdecl name)).bind fun r' _ => ?_
  cases r' with
  | some raw => exact (blameless_validateValue hgood name raw).bind fun _ _ => blameless_ok _
  | none =>
    refine blameless_ite (fun hreq => blameless_ite (fun hnil => ?_) fun _ => blameless_newErr _ _)
      fun _ => blameless_ite (fun _ => blameless_ok _) fun hnil => ?_
    · -- a default on a required parameter
      have hopt := hd.default (by simpa using hnil)
      rw [hopt] at hreq
      cases hreq
    · obtain ⟨v, hv⟩ := hdefault (by simpa using hnil)
      rw [deepCopyValue_eq, hv]
      exact blameless_ok _

/-! ## One parameter after another -/

structure Checked (env : Env) (props : Properties) (inp : Map Any) (names : List String)
    (out : Params) : Prop where
  supplied : ∀ name, name ∈ out.supplied ↔
    name ∈ names ∧ ∃ prop, props.lookup name = some prop ∧ Supplied inp name prop
  values : ∀ name v, out.values.lookup name = some v →
    ∃ prop, props.lookup name = some prop ∧ Satisfies env prop v
  required : ∀ name ∈ names, ∀ prop, props.lookup name = some prop →
    prop.facets.optional = false → ∃ v, out.values.lookup name = some v

theorem checked_nil : Checked env props inp [] { props } where
  supplied name := by simp
  values name v h := by simp at h
  required name h := by cases h

theorem lookup_insert_of_some {m : Map Any} {k k' : String} {v : Any}
    (h : ∃ u, m.lookup k' = some u) : ∃ u, (m.insert k v).lookup k' = some u := by
  rw [Go.lookup_insert]
  split_ifs
  · exact ⟨v, rfl⟩
  · exact h

variable {names : List String}

section

variable (hc : Checked env props inp names out)

include hc

section

variable (hlookup : props.lookup name = some prop)

include hlookup

theorem Checked.values_insert {v : Any} (hv : Satisfies env prop v) (name' : String) (v' : Any)
    (h : (out.values.insert name v).lookup name' = some v') :
    ∃ prop, props.lookup name' = some prop ∧ Satisfies env prop v' := by
  rw [Go.lookup_insert] at h
  split_ifs at h with hname
  · cases h
    exact ⟨prop, hname ▸ hlookup, hv⟩
  · exact hc.values name' v' h

/-- One more parameter: what becomes of its place among the supplied names, and of its value. -/
theorem Checked.cons {supplied : List String} {values : Map Any}
    (hsupplied : ∀ name', name' ∈ supplied ↔
      name' = name ∧ Supplied inp name prop ∨ name' ∈ out.supplied)
    (hvalues : values = out.values ∧ prop.facets.optional = true ∨
      ∃ v, Satisfies env prop v ∧ values = out.values.insert name v) :
    Checked env props inp (name :: names) { out with supplied, values } := by
  refine ⟨fun name' => ?_, ?_, fun name' hname' prop' hlookup' hreq => ?_⟩
  · rw [hsupplied, hc.supplied]
    by_cases hname : name' = name
    · subst hname
      simp [hlookup]
    · simp [hname]
  · obtain ⟨rfl, -⟩ | ⟨v, hv, rfl⟩ := hvalues
    · exact hc.values
    · exact hc.values_insert hlookup hv
  · obtain ⟨rfl, hopt⟩ | ⟨v, hv, rfl⟩ := hvalues
    · obtain rfl | hold := List.mem_cons.1 hname'
      · cases hlookup.symm.trans hlookup'
        rw [hopt] at hreq
        cases hreq
      · exact hc.required name' hold prop' hlookup' hreq
    · obtain rfl | hold := List.mem_cons.1 hname'
      · exact ⟨v, AList.lookup_insert _⟩
      · exact lookup_insert_of_some (hc.required name' hold prop' hlookup' hreq)

theorem Checked.step (h : validateParam env inp name prop out = .ok out') :
    Checked env props inp (name :: names) out' := by
  obtain ⟨hsup, v, hv, rfl⟩ | ⟨hsup, hopt, rfl | ⟨v, hv, rfl⟩⟩ := validateParam_eq_ok h
  · exact hc.cons hlookup (by simp [hsup]) (.inr ⟨v, hv, rfl⟩)
  · exact hc.cons hlookup (by simp [hsup]) (.inl ⟨rfl, hopt⟩)
  · exact hc.cons hlookup (by simp [hsup]) (.inr ⟨v, hv, rfl⟩)

end

theorem Checked.congr {names' : List String} (h : ∀ name, name ∈ names' ↔ name ∈ names) :
    Checked env props inp names' out where
  supplied name := by rw [h, hc.supplied]
  values := hc.values
  required name hname := hc.required name ((h name).1 hname)

theorem Checked.skip (hlookup : props.lookup name = none) :
    Checked env props inp (name :: names) out where
  supplied name' := by
    rw [hc.supplied]
    by_cases hname : name' = name
    · subst hname
      simp [hlookup]
    · simp [hname]
  values := hc.values
  required name' hname' prop' hlookup' := by
    obtain rfl | hold := List.mem_cons.1 hname'
    · rw [hlookup] at hlookup'
      cases hlookup'
    · exact hc.required name' hold prop' hlookup'

end

theorem validateParams_eq_ok : ∀ {names seen : List String} {out : Params},
    Checked env props inp seen out → validateParams env props inp names out = .ok out' →
    Checked env props inp (names ++ seen) out'
  | [], _, _, hc, h => by
    cases h
    exact hc
  | name :: names, seen, out, hc, h => by
    have hmem : ∀ x, x ∈ (name :: names) ++ seen ↔ x ∈ names ++ (name :: seen) := by
      intro x
      simp only [List.mem_cons, List.mem_append]
      tauto
    rw [validateParams] at h
    cases hlookup : props.lookup name with
    | none =>
      rw [hlookup] at h
      exact (validateParams_eq_ok (hc.skip hlookup) h).congr hmem
    | some prop =>
      rw [hlookup] at h
      obtain ⟨mid, hmid, h⟩ := bind_eq_ok.1 h
      exact (validateParams_eq_ok (hc.step hlookup hmid) h).congr hmem

/-! ## Compiled schemas -/

theorem mem_names : name ∈ props.names ↔ ∃ prop, props.lookup name = some prop := by
  rw [Properties.names, Go.mem_sort, ← Option.isSome_iff_exists, AList.lookup_isSome]
  rfl

theorem aliasIndexFrom_eq_ok {result : Map String} : ∀ {names : List String} {aliases : Map String},
    aliasIndexFrom props aliases names = .ok result →
    (∀ key, (aliases.lookup key).isSome = true →
      ∃ name prop, props.lookup name = some prop ∧ prop.facets.aliasName = key) →
    ∀ key, (result.lookup key).isSome = true →
      ∃ name prop, props.lookup name = some prop ∧ prop.facets.aliasName = key
  | [], _, h, hold => by
    cases h
    exact hold
  | name :: names, aliases, h, hold => by
    rw [aliasIndexFrom] at h
    split_ifs at h
    cases hlookup : props.lookup name with
    | none =>
      rw [hlookup] at h
      exact aliasIndexFrom_eq_ok h hold
    | some prop =>
      rw [hlookup] at h
      dsimp only at h
      split_ifs at h
      · exact aliasIndexFrom_eq_ok h hold
      · refine aliasIndexFrom_eq_ok h fun key hkey => ?_
        rw [Go.lookup_insert] at hkey
        split_ifs at hkey with hname
        · exact ⟨name, prop, hlookup, hname.symm⟩
        · exact hold key hkey

theorem checkKey_eq_ok {aliases : Map String} {key : String}
    (h : checkKey props aliases key = .ok ()) :
    (props.lookup key).isSome = true ∨ (aliases.lookup key).isSome = true := by
  unfold checkKey at h
  split_ifs at h with hprop halias
  · exact .inl hprop
  · exact .inr halias

theorem blameless_checkKey {aliases : Map String} {key : String} :
    Blameless (checkKey props aliases key) :=
  blameless_ite (fun _ => blameless_ok ()) fun _ =>
    blameless_ite (fun _ => blameless_ok ()) fun _ => blameless_newErr _ _

theorem checkSupplied_eq_ok (h : checkSupplied props out name = .ok ())
    (hlookup : props.lookup name = some prop) (hsup : name ∈ out.supplied) :
    ∀ req ∈ prop.facets.requires, req ∈ out.supplied := by
  intro req hreq
  have hne : ¬(prop.facets.requires = [] ∨ name ∉ out.supplied) := by
    rintro (hnil | hnot)
    · rw [hnil] at hreq
      cases hreq
    · exact hnot hsup
  rw [checkSupplied, hlookup] at h
  dsimp only at h
  rw [if_neg hne, checkEach_eq_ok_iff] at h
  have hr := h req hreq
  split_ifs at hr with hnone hmiss
  exact hmiss

section

variable (h : props.compile env = .ok ())

include h

theorem compile_property (hlookup : props.lookup name = some prop) :
    Good env prop ∧
      (∀ req ∈ prop.facets.requires, ∃ target, props.lookup req = some target) ∧
      (prop.facets.default.isNil = false →
        ∃ v, validateValue env prop name prop.facets.default = .ok v) := by
  rw [Properties.compile, bind_eq_ok] at h
  obtain ⟨-, -, h⟩ := h
  have hprop := checkEach_eq_ok_iff.1 h name (mem_names.2 ⟨prop, hlookup⟩)
  rw [hlookup] at hprop
  obtain ⟨hgood, hrequires, hdefault⟩ := good_of_compileProperty hprop
  refine ⟨hgood, fun req hreq => ?_, hdefault⟩
  have hcheck := hrequires req hreq
  unfold checkRequire at hcheck
  split_ifs at hcheck with hself
  cases htarget : props.lookup req with
  | none => simp [htarget] at hcheck
  | some target => exact ⟨target, rfl⟩

theorem blameless_validateParams :
    ∀ {names : List String} {out : Params}, Blameless (validateParams env props inp names out)
  | [], out => blameless_ok out
  | name :: names, out => by
    rw [validateParams]
    cases hlookup : props.lookup name with
    | none => exact blameless_validateParams
    | some prop =>
      obtain ⟨hgood, -, hdefault⟩ := compile_property h hlookup
      exact (blameless_validateParam hgood hdefault).bind fun _ _ => blameless_validateParams

theorem blameless_checkSupplied : Blameless (checkSupplied props out name) := by
  rw [checkSupplied]
  cases hlookup : props.lookup name with
  | none => exact blameless_ok ()
  | some prop =>
    obtain ⟨-, hrequires, -⟩ := compile_property h hlookup
    refine blameless_ite (fun _ => blameless_ok ()) fun _ => blameless_checkEach fun req hreq => ?_
    obtain ⟨target, htarget⟩ := hrequires req hreq
    refine blameless_ite (fun hnone => ?_) fun _ =>
      blameless_ite (fun _ => blameless_newErr _ _) fun _ => blameless_ok ()
    rw [htarget] at hnone
    cases hnone

theorem blameless_validate : Blameless (props.validate env inp) := by
  have haliases : Blameless (aliasIndex props props.names) := by
    rw [Properties.compile, bind_eq_ok] at h
    obtain ⟨aliases, haliases, -⟩ := h
    exact blameless_of_ok haliases
  refine haliases.bind fun aliases _ => (blameless_checkEach fun _ _ => blameless_checkKey).seq
    fun _ => (blameless_validateParams h).bind fun out _ => ?_
  exact (blameless_checkEach fun _ _ => blameless_checkSupplied h).seq fun _ => blameless_ok out

end

structure Accepted (env : Env) (props : Properties) (inp : Map Any) (out : Params) : Prop where
  /-- Every key of the request is a declared name or alias. -/
  keys : ∀ key ∈ inp.keys, key ∈ props.keys ∨
    ∃ name prop, props.lookup name = some prop ∧ prop.facets.aliasName = key
  required : ∀ name prop, props.lookup name = some prop → prop.facets.optional = false →
    ∃ v, out.values.lookup name = some v
  values : ∀ name v, out.values.lookup name = some v →
    ∃ prop, props.lookup name = some prop ∧ Satisfies env prop v
  requires : ∀ name prop, props.lookup name = some prop → Supplied inp name prop →
    ∀ req ∈ prop.facets.requires, ∃ target, props.lookup req = some target ∧ Supplied inp req target

theorem accepted_of_validate (h : props.validate env inp = .ok out) :
    Accepted env props inp out := by
  rw [Properties.validate, bind_eq_ok] at h
  obtain ⟨aliases, haliases, h⟩ := h
  obtain ⟨hkeys, h⟩ := seq_eq_ok.1 h
  obtain ⟨out', hparams, h⟩ := bind_eq_ok.1 h
  obtain ⟨hrequires, h⟩ := seq_eq_ok.1 h
  cases h
  have hc := validateParams_eq_ok checked_nil hparams
  rw [List.append_nil] at hc
  refine ⟨fun key hkey => ?_, fun name prop hlookup => ?_, hc.values, ?_⟩
  · obtain hprop | halias := checkKey_eq_ok
      (checkEach_eq_ok_iff.1 hkeys key (Go.mem_sort.2 hkey))
    · exact .inl (AList.lookup_isSome.1 hprop)
    · exact .inr (aliasIndexFrom_eq_ok haliases (fun _ hnone => by simp at hnone) key halias)
  · exact hc.required name (mem_names.2 ⟨prop, hlookup⟩) prop hlookup
  · intro name prop hlookup hsup req hreq
    have hname : name ∈ props.names := mem_names.2 ⟨prop, hlookup⟩
    have hmem : name ∈ out.supplied := (hc.supplied name).2 ⟨hname, prop, hlookup, hsup⟩
    have hreqmem :=
      checkSupplied_eq_ok (checkEach_eq_ok_iff.1 hrequires name hname) hlookup hmem req hreq
    exact ((hc.supplied req).1 hreqmem).2

/-- **A compiled schema never blames itself.** A request is refused with a `ValidationError`, or
yields values that are complete and satisfy their properties. -/
theorem compiled_never_blames_itself (env : Env) (props : Properties)
    (hcompiled : props.compile env = .ok ()) (inp : Map Any) :
    (∃ e, props.validate env inp = .error (.validation e)) ∨
      ∃ out, props.validate env inp = .ok out ∧ Accepted env props inp out := by
  cases h : props.validate env inp with
  | ok out => exact .inr ⟨out, rfl, accepted_of_validate h⟩
  | error err =>
    cases err with
    | validation e => exact .inl ⟨e, rfl⟩
    | schema text => exact absurd h (blameless_validate hcompiled text)

def busFacets : Facets where
  type := .string
  optional := true
  enum := some ["scsi", "virtio"]

def indexFacets : Facets where
  type := .integer
  optional := true
  requires := ["bus"]
  aliasName := "idx"

/-- A disk's bus, and its index, which is given together with the bus. -/
def diskSchema : Properties :=
  AList.insert "bus" ⟨busFacets, none⟩ (AList.insert "index" ⟨indexFacets, none⟩ ∅)

def diskRequest : Map Any :=
  AList.insert "bus" (.string "scsi") (AList.insert "idx" (.number "1") ∅)

theorem compiled_never_blames_itself_disk :
    diskSchema.compile amd64 = .ok () ∧
      ∃ out, diskSchema.validate amd64 diskRequest = .ok out ∧
        Accepted amd64 diskSchema diskRequest out := by
  have hcompiled : diskSchema.compile amd64 = .ok () := by decide +kernel
  have hok : (diskSchema.validate amd64 diskRequest).isOk = true := by decide +kernel
  refine ⟨hcompiled, ?_⟩
  obtain ⟨e, he⟩ | haccepted := compiled_never_blames_itself amd64 diskSchema hcompiled diskRequest
  · rw [he] at hok
    cases hok
  · exact haccepted

end Nexara.Apischema
