import Nexara.Go.Utf8

/-!
# Audit records as syslog messages

`FormatAuditSD` renders the fields of an audit record as one RFC 5424 structured-data element, and
`formatRFC5424` puts the header before it. Strings are byte strings; `strings.ToLower` is a
parameter, as the priority of a record is all that depends on it.
-/

namespace Nexara.Syslog

open Go (Bytes bytes runes encode)

def sdID : Bytes := bytes "nexara@32473"

def maxSyslogDetailsLen : Nat := 3072

def maxSyslogFieldLen : Nat := 256

def ellipsis : Char := Char.ofNat 0x2026

/-- Cut after so many runes, with an ellipsis. -/
def truncateRunes (s : Bytes) (maxRunes : Nat) : Bytes :=
  if s.length ≤ maxRunes then s
  else if (runes s).length ≤ maxRunes then s
  else encode ((runes s).take maxRunes) ++ encode [ellipsis]

/-- `r < 0x20 || r == 0x7f`. -/
def isControl (r : Char) : Bool := r.toNat < 0x20 || r.toNat == 0x7f

def isEscaped (r : Char) : Bool := r == '\\' || r == '"' || r == ']'

def escapeRune (r : Char) : Bytes :=
  if isControl r then []
  else if isEscaped r then bytes "\\" ++ String.utf8EncodeChar r
  else String.utf8EncodeChar r

def escapeSDParam (s : Bytes) : Bytes := (runes s).flatMap escapeRune

/-- The fields of an audit record. -/
structure AuditSD where
  user : Bytes
  cluster : Bytes
  resourceType : Bytes
  resourceID : Bytes
  action : Bytes
  vmid : Bytes
  resourceName : Bytes
  details : Bytes

def writeParam (name value : Bytes) : Bytes :=
  bytes " " ++ name ++ bytes "=\"" ++ escapeSDParam value ++ bytes "\""

/-- The parameters that are written, with their values cut. -/
def AuditSD.written (f : AuditSD) : List (Bytes × Bytes) :=
  [(bytes "user", truncateRunes f.user maxSyslogFieldLen),
    (bytes "cluster", truncateRunes f.cluster maxSyslogFieldLen),
    (bytes "resource_type", truncateRunes f.resourceType maxSyslogFieldLen),
    (bytes "resource_id", truncateRunes f.resourceID maxSyslogFieldLen),
    (bytes "action", truncateRunes f.action maxSyslogFieldLen)] ++
  (if f.details ≠ [] ∧ f.details ≠ bytes "\x7b\x7d" then
    [(bytes "details", truncateRunes f.details maxSyslogDetailsLen)] else []) ++
  [(bytes "vmid", f.vmid), (bytes "resource_name", f.resourceName)].filterMap fun p =>
    if p.2 = [] then none else some (p.1, truncateRunes p.2 maxSyslogFieldLen)

def formatAuditSD (f : AuditSD) : Bytes :=
  bytes "[" ++ sdID ++ (f.written.flatMap fun p => writeParam p.1 p.2) ++ bytes "]"

/-! ## `formatRFC5424` -/

/-- A time in UTC. -/
structure Timestamp where
  year : Int
  month : Fin 13
  day : Fin 32
  hour : Fin 24
  minute : Fin 60
  second : Fin 60
  nanosecond : Fin 1000000000

/-- `appendInt`: the number with zeros before it up to a width. -/
def padded (n width : Nat) : Bytes :=
  List.replicate (width - (Nat.toDigits 10 n).length) 0x30 ++ encode (Nat.toDigits 10 n)

def Timestamp.formatYear (year : Int) : Bytes :=
  if year < 0 then bytes "-" ++ padded year.natAbs 4 else padded year.natAbs 4

/-- The fraction of a second, without the zeros it ends in. -/
def Timestamp.formatFraction (nanosecond : Nat) : Bytes :=
  if nanosecond = 0 then []
  else bytes "." ++ ((padded nanosecond 9).reverse.dropWhile (· == 0x30)).reverse

/-- `Format(time.RFC3339Nano)`. -/
def Timestamp.format (t : Timestamp) : Bytes :=
  Timestamp.formatYear t.year ++ bytes "-" ++ padded t.month 2 ++ bytes "-" ++ padded t.day 2 ++
    bytes "T" ++ padded t.hour 2 ++ bytes ":" ++ padded t.minute 2 ++ bytes ":" ++
    padded t.second 2 ++ Timestamp.formatFraction t.nanosecond ++ bytes "Z"

structure Message where
  timestamp : Timestamp
  userID : Bytes
  clusterID : Bytes
  resourceType : Bytes
  resourceID : Bytes
  action : Bytes
  vmid : Bytes
  resourceName : Bytes
  details : Bytes

def contains (s : Bytes) (sub : String) : Bool :=
  (List.range (s.length + 1)).any fun i => (bytes sub).isPrefixOf (s.drop i)

section

variable (toLower : Bytes → Bytes)

/-- 3 for errors, 4 for removals, 6 for all else. -/
def actionSeverity (action : Bytes) : Nat :=
  let a := toLower action
  if contains a "error" || contains a "failed" || contains a "fail" then 3
  else if contains a "delete" || contains a "destroy" || contains a "disable" ||
    contains a "revoke" || contains a "reset" then 4
  else 6

def Message.auditSD (msg : Message) : AuditSD where
  user := msg.userID
  cluster := if msg.clusterID = [] then bytes "system" else msg.clusterID
  resourceType := msg.resourceType
  resourceID := msg.resourceID
  action := msg.action
  vmid := msg.vmid
  resourceName := msg.resourceName
  details := msg.details

/-- Facility 0 stands for local0. -/
def priority (facility : Nat) (msg : Message) : Nat :=
  (if facility = 0 then 16 else facility) * 8 + actionSeverity toLower msg.action

def formatRFC5424 (facility : Nat) (msg : Message) : Bytes :=
  bytes "<" ++ encode (Nat.toDigits 10 (priority toLower facility msg)) ++ bytes ">1 " ++
    msg.timestamp.format ++ bytes " nexara audit - - " ++ formatAuditSD msg.auditSD ++ bytes "\n"

end

end Nexara.Syslog
