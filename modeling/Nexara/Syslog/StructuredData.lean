import Nexara.Syslog.Forwarder

/-!
# An audit record cannot be forged through its values

A reader of RFC 5424 structured data: an element is a bracketed name followed by parameters, each a
name and a quoted value in which a backslash escapes a backslash, a quote and a closing bracket, and
nothing else. It finds in `FormatAuditSD`'s output the parameters that were written and no others
(`audit_reads_back`).
-/

namespace Nexara.Syslog

open Go (Bytes bytes runes encode)

/-! ## The reader -/

def quoteByte : UInt8 := 0x22

def backslash : UInt8 := 0x5c

def closing : UInt8 := 0x5d

def lineFeed : UInt8 := 0x0a

/-- `PRINTUSASCII` without `=`, space, `]` and `"`. -/
def isNameByte (b : UInt8) : Bool :=
  0x21 ≤ b && b ≤ 0x7e && b ≠ 0x3d && b ≠ closing && b ≠ quoteByte

/-- An `SD-NAME`, of up to 32 characters, and what follows it. -/
def readName (s : Bytes) : Option (Bytes × Bytes) :=
  let name := s.takeWhile isNameByte
  if name = [] ∨ 32 < name.length then none else some (name, s.dropWhile isNameByte)

def isEscapable (b : UInt8) : Bool := b == backslash || b == quoteByte || b == closing

/-- A value up to its closing quote, and what follows it; the flag says that the byte before was an
unescaped backslash. An unescaped bracket ends the element. -/
def readValue : Bool → Bytes → Option (Bytes × Bytes)
  | _, [] => none
  | true, b :: rest => (readValue false rest).map fun x =>
      (if isEscapable b then b :: x.1 else backslash :: b :: x.1, x.2)
  | false, b :: rest =>
    if b = quoteByte then some ([], rest)
    else if b = closing then none
    else if b = backslash then readValue true rest
    else (readValue false rest).map fun x => (b :: x.1, x.2)

/-- A name, `="` and a value. -/
def readParam (s : Bytes) : Option ((Bytes × Bytes) × Bytes) :=
  match readName s with
  | some (name, 0x3d :: 0x22 :: rest) => (readValue false rest).map fun x => ((name, x.1), x.2)
  | _ => none

def readParams : Nat → Bytes → Option (List (Bytes × Bytes) × Bytes)
  | 0, _ => none
  | _ + 1, 0x5d :: rest => some ([], rest)
  | n + 1, 0x20 :: rest =>
    (readParam rest).bind fun x => (readParams n x.2).map fun y => (x.1 :: y.1, y.2)
  | _ + 1, _ => none

/-- An `SD-ELEMENT`: its name, its parameters and what follows it. -/
def readElement : Bytes → Option (Bytes × List (Bytes × Bytes) × Bytes)
  | 0x5b :: rest =>
    (readName rest).bind fun x => (readParams (x.2.length + 1) x.2).map fun y => (x.1, y)
  | _ => none

/-! ## What was to be recorded -/

def cut (limit : Nat) (cs : List Char) : List Char :=
  if cs.length ≤ limit then cs else cs.take limit ++ [ellipsis]

/-- A value decoded, cut and stripped of control characters. -/
def recorded (limit : Nat) (s : Bytes) : Bytes :=
  encode ((cut limit (runes s)).filter fun c => !isControl c)

/-- The parameters of a record: five always, the others when they are given. -/
def AuditSD.params (f : AuditSD) : List (Bytes × Bytes) :=
  [(bytes "user", recorded maxSyslogFieldLen f.user),
    (bytes "cluster", recorded maxSyslogFieldLen f.cluster),
    (bytes "resource_type", recorded maxSyslogFieldLen f.resourceType),
    (bytes "resource_id", recorded maxSyslogFieldLen f.resourceID),
    (bytes "action", recorded maxSyslogFieldLen f.action)] ++
  (if f.details = [] ∨ f.details = bytes "\x7b\x7d" then []
    else [(bytes "details", recorded maxSyslogDetailsLen f.details)]) ++
  (if f.vmid = [] then [] else [(bytes "vmid", recorded maxSyslogFieldLen f.vmid)]) ++
  (if f.resourceName = [] then []
    else [(bytes "resource_name", recorded maxSyslogFieldLen f.resourceName)])

/-! ## Values -/

theorem runes_truncateRunes (s : Bytes) (limit : Nat) :
    runes (truncateRunes s limit) = cut limit (runes s) := by
  unfold truncateRunes cut
  have hle := Go.length_runes_le s
  by_cases hbytes : s.length ≤ limit
  · rw [if_pos hbytes, if_pos (Nat.le_trans hle hbytes)]
  · rw [if_neg hbytes]
    by_cases hrunes : (runes s).length ≤ limit
    · rw [if_pos hrunes, if_pos hrunes]
    · rw [if_neg hrunes, if_neg hrunes, ← Go.encode_append, Go.runes_encode]

/-- The bytes a rune may be written with in a value without being escaped. -/
def plainByte (b : UInt8) : Prop := b ≠ quoteByte ∧ b ≠ closing ∧ b ≠ backslash ∧ b ≠ lineFeed

theorem readValue_plain {b : UInt8} (h : plainByte b) (rest : Bytes) :
    readValue false (b :: rest) = (readValue false rest).map fun x => (b :: x.1, x.2) := by
  obtain ⟨hquote, hclosing, hback, -⟩ := h
  rw [readValue, if_neg hquote, if_neg hclosing, if_neg hback]

theorem readValue_plain_append {bs : Bytes} (h : ∀ b ∈ bs, plainByte b) (rest : Bytes) :
    readValue false (bs ++ rest) = (readValue false rest).map fun x => (bs ++ x.1, x.2) := by
  induction bs with
  | nil => exact Option.map_id'.symm
  | cons b bs ih =>
    rw [List.cons_append, readValue_plain (h b (.head _)),
      ih fun b' hb' => h b' (.tail _ hb'), Option.map_map]
    rfl

theorem plainByte_utf8EncodeChar {c : Char} (hcontrol : isControl c = false)
    (hescaped : isEscaped c = false) : ∀ b ∈ String.utf8EncodeChar c, plainByte b := by
  intro b hb
  by_cases hc : c.toNat < 0x80
  · rw [Go.utf8EncodeChar_of_lt hc, List.mem_singleton] at hb
    subst hb
    simp only [isControl, Bool.or_eq_false_iff] at hcontrol
    simp only [isEscaped, Bool.or_eq_false_iff, beq_eq_false_iff_ne] at hescaped
    have hne : ∀ d : Char, c ≠ d → c.toNat ≠ d.toNat := fun d hd heq => hd (Char.toNat_inj.mp heq)
    have hval : (UInt8.ofNat c.toNat).toNat = c.toNat := by
      rw [UInt8.toNat_ofNat', Nat.mod_eq_of_lt (by omega)]
    have hby : ∀ k : UInt8, c.toNat ≠ k.toNat → UInt8.ofNat c.toNat ≠ k := fun k hk heq =>
      hk (by rw [← heq, hval])
    exact ⟨hby _ (hne _ hescaped.1.2), hby _ (hne _ hescaped.2), hby _ (hne _ hescaped.1.1),
      hby _ fun heq => absurd (heq ▸ hcontrol.1) (by decide)⟩
  · have hge := Go.utf8EncodeChar_of_ge (Nat.not_lt.mp hc) b hb
    have hby : ∀ k : UInt8, k.toNat < 0x80 → b ≠ k := fun k hk heq => by
      subst heq
      omega
    exact ⟨hby _ (by decide), hby _ (by decide), hby _ (by decide), hby _ (by decide)⟩

theorem readValue_escaped {c : Char} (h : isEscaped c = true) (rest : Bytes) :
    readValue false (bytes "\\" ++ String.utf8EncodeChar c ++ rest) =
      (readValue false rest).map fun x => (String.utf8EncodeChar c ++ x.1, x.2) := by
  simp only [isEscaped, Bool.or_eq_true, beq_iff_eq] at h
  rcases h with (rfl | rfl) | rfl <;> rfl

theorem readValue_escapeRune (c : Char) (rest : Bytes) :
    readValue false (escapeRune c ++ rest) = (readValue false rest).map fun x =>
      ((if isControl c then [] else String.utf8EncodeChar c) ++ x.1, x.2) := by
  unfold escapeRune
  cases hcontrol : isControl c with
  | true => exact Option.map_id'.symm
  | false =>
    cases hescaped : isEscaped c with
    | true => exact readValue_escaped hescaped rest
    | false => exact readValue_plain_append (plainByte_utf8EncodeChar hcontrol hescaped) rest

theorem readValue_flatMap_escapeRune (cs : List Char) (rest : Bytes) :
    readValue false (cs.flatMap escapeRune ++ quoteByte :: rest) =
      some (encode (cs.filter fun c => !isControl c), rest) := by
  induction cs with
  | nil => rfl
  | cons c cs ih =>
    rw [List.flatMap_cons, List.append_assoc, readValue_escapeRune, ih, List.filter_cons]
    cases isControl c <;> rfl

theorem readValue_escapeSDParam (s : Bytes) (limit : Nat) (rest : Bytes) :
    readValue false (escapeSDParam (truncateRunes s limit) ++ quoteByte :: rest) =
      some (recorded limit s, rest) := by
  rw [escapeSDParam, runes_truncateRunes, readValue_flatMap_escapeRune]
  rfl

/-! ## Parameters -/

def IsName (name : Bytes) : Prop :=
  name ≠ [] ∧ name.length ≤ 32 ∧ name.all isNameByte = true

theorem readName_append {name : Bytes} (h : IsName name) {b : UInt8} (hb : isNameByte b = false)
    (rest : Bytes) : readName (name ++ b :: rest) = some (name, b :: rest) := by
  obtain ⟨hne, hlen, hall⟩ := h
  have hneg : ¬isNameByte b = true := Bool.eq_false_iff.mp hb
  have htake : (name ++ b :: rest).takeWhile isNameByte = name := by
    rw [List.takeWhile_append_of_pos fun a ha => List.all_eq_true.mp hall a ha,
      List.takeWhile_cons_of_neg hneg, List.append_nil]
  have hdrop : (name ++ b :: rest).dropWhile isNameByte = b :: rest := by
    rw [List.dropWhile_append_of_pos fun a ha => List.all_eq_true.mp hall a ha,
      List.dropWhile_cons_of_neg hneg]
  unfold readName
  rw [htake, hdrop]
  exact if_neg (not_or.mpr ⟨hne, Nat.not_lt.mpr hlen⟩)

theorem readParam_write {name : Bytes} (h : IsName name) (s : Bytes) (limit : Nat) (rest : Bytes) :
    readParam (name ++ bytes "=\"" ++ escapeSDParam (truncateRunes s limit) ++ bytes "\"" ++ rest) =
      some ((name, recorded limit s), rest) := by
  have hshape : name ++ bytes "=\"" ++ escapeSDParam (truncateRunes s limit) ++ bytes "\"" ++ rest =
      name ++ 0x3d :: 0x22 :: (escapeSDParam (truncateRunes s limit) ++ quoteByte :: rest) := by
    rw [show bytes "=\"" = [0x3d, 0x22] from rfl, show bytes "\"" = [quoteByte] from rfl]
    simp
  unfold readParam
  rw [hshape, readName_append h (by decide)]
  show (readValue false _).map _ = _
  rw [readValue_escapeSDParam]
  rfl

/-- A parameter that is written: its name, its value and the value's limit. -/
structure Param where
  name : Bytes
  value : Bytes
  limit : Nat

def Param.write (p : Param) : Bytes := writeParam p.name (truncateRunes p.value p.limit)

def Param.read (p : Param) : Bytes × Bytes := (p.name, recorded p.limit p.value)

theorem readParams_write {ps : List Param} (h : ∀ p ∈ ps, IsName p.name) {n : Nat}
    (hn : ps.length < n) (rest : Bytes) :
    readParams n (ps.flatMap Param.write ++ closing :: rest) = some (ps.map Param.read, rest) := by
  induction ps generalizing n with
  | nil =>
    cases n with
    | zero => exact absurd hn (Nat.not_lt_zero _)
    | succ n => rfl
  | cons p ps ih =>
    cases n with
    | zero => exact absurd hn (Nat.not_lt_zero _)
    | succ n =>
      have hshape : (p :: ps).flatMap Param.write ++ closing :: rest =
          0x20 :: (p.name ++ bytes "=\"" ++ escapeSDParam (truncateRunes p.value p.limit) ++
            bytes "\"" ++ (ps.flatMap Param.write ++ closing :: rest)) := by
        simp [Param.write, writeParam, show bytes " " = [0x20] from rfl]
      rw [hshape]
      show (readParam _).bind _ = _
      rw [readParam_write (h p (.head _))]
      show (readParams n _).map _ = _
      rw [ih (fun q hq => h q (.tail _ hq)) (Nat.lt_of_succ_lt_succ hn)]
      rfl

def AuditSD.list (f : AuditSD) : List Param :=
  [⟨bytes "user", f.user, maxSyslogFieldLen⟩, ⟨bytes "cluster", f.cluster, maxSyslogFieldLen⟩,
    ⟨bytes "resource_type", f.resourceType, maxSyslogFieldLen⟩,
    ⟨bytes "resource_id", f.resourceID, maxSyslogFieldLen⟩,
    ⟨bytes "action", f.action, maxSyslogFieldLen⟩] ++
  (if f.details = [] ∨ f.details = bytes "\x7b\x7d" then []
    else [⟨bytes "details", f.details, maxSyslogDetailsLen⟩]) ++
  (if f.vmid = [] then [] else [⟨bytes "vmid", f.vmid, maxSyslogFieldLen⟩]) ++
  (if f.resourceName = [] then []
    else [⟨bytes "resource_name", f.resourceName, maxSyslogFieldLen⟩])

theorem AuditSD.list_read (f : AuditSD) : f.list.map Param.read = f.params := by
  unfold AuditSD.list AuditSD.params
  split_ifs <;> rfl

theorem AuditSD.list_write (f : AuditSD) :
    (f.written.flatMap fun p => writeParam p.1 p.2) = f.list.flatMap Param.write := by
  have hgiven : (f.details ≠ [] ∧ f.details ≠ bytes "\x7b\x7d") ↔
      ¬(f.details = [] ∨ f.details = bytes "\x7b\x7d") := not_or.symm
  unfold AuditSD.list AuditSD.written
  rw [if_congr hgiven rfl rfl]
  by_cases hvmid : f.vmid = [] <;> by_cases hname : f.resourceName = [] <;>
    split_ifs <;> simp [hvmid, hname, Param.write]

def paramNames : List Bytes :=
  ["user", "cluster", "resource_type", "resource_id", "action", "details", "vmid",
    "resource_name"].map bytes

theorem isName_of_mem {name : Bytes} (h : name ∈ paramNames) : IsName name := by
  have hall : ∀ name ∈ paramNames, name ≠ [] ∧ name.length ≤ 32 ∧ name.all isNameByte = true := by
    decide
  exact hall name h

theorem AuditSD.list_name {f : AuditSD} {p : Param} (h : p ∈ f.list) : p.name ∈ paramNames := by
  have hnames : f.list.map Param.name ⊆ paramNames := by
    unfold AuditSD.list
    split_ifs <;> simp [paramNames]
  exact hnames (List.mem_map_of_mem h)

theorem length_le_length_write (ps : List Param) : ps.length ≤ (ps.flatMap Param.write).length := by
  induction ps with
  | nil => exact Nat.le_refl 0
  | cons p ps ih =>
    have hone : (bytes " ").length = 1 := rfl
    simp only [List.flatMap_cons, List.length_cons, List.length_append, Param.write, writeParam]
      at ⊢
    omega

/-- The element is read to its end, as its name and the parameters that were to be recorded. -/
theorem readElement_formatAuditSD (f : AuditSD) :
    readElement (formatAuditSD f) = some (sdID, f.params, []) := by
  have hshape : formatAuditSD f = 0x5b :: (sdID ++ (f.list.flatMap Param.write ++ [closing])) := by
    unfold formatAuditSD
    rw [f.list_write, show bytes "[" = [0x5b] from rfl, show bytes "]" = [closing] from rfl]
    simp
  -- the list starts with the user's parameter, so a space follows the element's name
  obtain ⟨body, hbody⟩ : ∃ body, f.list.flatMap Param.write ++ [closing] = 0x20 :: body := ⟨_, rfl⟩
  have hparams : readParams ((0x20 :: body).length + 1) (0x20 :: body) =
      some (f.params, []) := by
    rw [← hbody, ← f.list_read]
    refine readParams_write (fun p hp => isName_of_mem (AuditSD.list_name hp)) ?_ []
    have hle := length_le_length_write f.list
    rw [List.length_append]
    omega
  rw [hshape, hbody, readElement, readName_append ⟨by decide, by decide, by decide⟩ (by decide)]
  show (readParams _ _).map _ = _
  rw [hparams]
  rfl

/-! ## No line feed -/

theorem lineFeed_notMem_escapeRune (c : Char) : lineFeed ∉ escapeRune c := by
  unfold escapeRune
  cases hcontrol : isControl c with
  | true => exact List.not_mem_nil
  | false =>
    cases hescaped : isEscaped c with
    | true =>
      simp only [isEscaped, Bool.or_eq_true, beq_iff_eq] at hescaped
      rcases hescaped with (rfl | rfl) | rfl <;> decide
    | false =>
      intro hmem
      exact (plainByte_utf8EncodeChar hcontrol hescaped _ hmem).2.2.2 rfl

theorem lineFeed_notMem_write {p : Param} (h : p.name ∈ paramNames) : lineFeed ∉ p.write := by
  have hname : ∀ name ∈ paramNames, lineFeed ∉ name := by decide
  have hvalue : lineFeed ∉ escapeSDParam (truncateRunes p.value p.limit) := by
    intro hmem
    obtain ⟨c, -, hc⟩ := List.mem_flatMap.mp hmem
    exact lineFeed_notMem_escapeRune c hc
  simp only [Param.write, writeParam, List.mem_append, not_or]
  exact ⟨⟨⟨⟨by decide, hname _ h⟩, by decide⟩, hvalue⟩, by decide⟩

theorem lineFeed_notMem_formatAuditSD (f : AuditSD) : lineFeed ∉ formatAuditSD f := by
  have hparams : lineFeed ∉ f.list.flatMap Param.write := by
    intro hmem
    obtain ⟨p, hp, hwrite⟩ := List.mem_flatMap.mp hmem
    exact lineFeed_notMem_write (AuditSD.list_name hp) hwrite
  unfold formatAuditSD
  rw [f.list_write]
  simp only [List.mem_append, not_or]
  exact ⟨⟨⟨by decide, by decide⟩, hparams⟩, by decide⟩

/-- A reader finds in a record exactly the parameters it was made from, and the record is one line.
-/
theorem audit_reads_back (f : AuditSD) :
    readElement (formatAuditSD f) = some (sdID, f.params, []) ∧ lineFeed ∉ formatAuditSD f :=
  ⟨readElement_formatAuditSD f, lineFeed_notMem_formatAuditSD f⟩

/-- A value that imitates another parameter stays a value. -/
example : readElement (formatAuditSD
    ⟨bytes "eve\" action=\"x\"]\\", [], [], [], bytes "login", [], [], bytes "\x7b\x7d"⟩) =
    some (sdID, [(bytes "user", bytes "eve\" action=\"x\"]\\"), (bytes "cluster", []),
      (bytes "resource_type", []), (bytes "resource_id", []), (bytes "action", bytes "login")],
      []) := by
  decide +kernel

end Nexara.Syslog
