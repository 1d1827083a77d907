import Mathlib.Algebra.Order.Ring.Int
import Nexara.Syslog.StructuredData

/-!
# How long a record is

The limits on an audit record's values count characters before escaping, while a collector's limit
counts bytes after it. Each character kept weighs what it is written with, between nothing and four
bytes (`length_formatRFC5424`). Details of 3072 characters outside the basic plane alone take a
record past 8 KiB, so it fits exactly when the weights say so (`record_fits_iff`).
-/

namespace Nexara.Syslog

open Go (Bytes bytes runes encode)

/-! ## Values -/

def runeWidth (c : Char) : Nat :=
  if isControl c then 0 else if isEscaped c then 2 else c.utf8Size

theorem length_escapeRune (c : Char) : (escapeRune c).length = runeWidth c := by
  unfold escapeRune runeWidth
  cases isControl c with
  | true => rfl
  | false =>
    cases hescaped : isEscaped c with
    | true =>
      simp only [isEscaped, Bool.or_eq_true, beq_iff_eq] at hescaped
      rcases hescaped with (rfl | rfl) | rfl <;> rfl
    | false => exact String.length_utf8EncodeChar c

/-- The bytes a value takes: its characters up to the limit, and the mark of a cut. -/
def valueWidth (limit : Nat) (s : Bytes) : Nat :=
  (((runes s).take limit).map runeWidth).sum + if (runes s).length ≤ limit then 0 else 3

theorem length_escapeSDParam (limit : Nat) (s : Bytes) :
    (escapeSDParam (truncateRunes s limit)).length = valueWidth limit s := by
  have hweigh : ∀ cs : List Char, (cs.flatMap escapeRune).length = (cs.map runeWidth).sum := by
    intro cs
    simp only [List.length_flatMap, length_escapeRune]
  unfold escapeSDParam valueWidth
  rw [runes_truncateRunes, hweigh, cut]
  by_cases hle : (runes s).length ≤ limit
  · rw [if_pos hle, if_pos hle, List.take_of_length_le hle, Nat.add_zero]
  · rw [if_neg hle, if_neg hle, List.map_append, List.sum_append]
    rfl

/-- The bytes a parameter takes: a space, the name, `="`, the value and a quote. -/
def Param.width (p : Param) : Nat := 4 + p.name.length + valueWidth p.limit p.value

theorem length_write (p : Param) : p.write.length = p.width := by
  have hopen : (bytes "=\"").length = 2 := rfl
  have hspace : (bytes " ").length = 1 := rfl
  have hquote : (bytes "\"").length = 1 := rfl
  simp only [Param.write, writeParam, Param.width, List.length_append, length_escapeSDParam]
  omega

theorem length_formatAuditSD (f : AuditSD) :
    (formatAuditSD f).length = 14 + (f.list.map Param.width).sum := by
  have hends : (bytes "[").length = 1 ∧ sdID.length = 12 ∧ (bytes "]").length = 1 :=
    ⟨rfl, rfl, rfl⟩
  unfold formatAuditSD
  rw [f.list_write]
  have hweigh : (f.list.flatMap Param.write).length = (f.list.map Param.width).sum := by
    rw [List.length_flatMap, List.map_congr_left fun p _ => length_write p]
  simp only [List.length_append]
  omega

/-! ## Numbers -/

theorem encode_digitChar {d : Nat} (h : d < 10) : encode [d.digitChar] = [UInt8.ofNat (48 + d)] := by
  have hall : ∀ d < 10, encode [d.digitChar] = [UInt8.ofNat (48 + d)] := by decide
  exact hall d h

theorem length_encode_toDigits (n : Nat) :
    (encode (Nat.toDigits 10 n)).length = (Nat.toDigits 10 n).length := by
  induction n using Nat.strongRecOn with
  | ind n ih =>
    by_cases hn : n < 10
    · rw [Nat.toDigits_of_lt_base hn, encode_digitChar hn]
      rfl
    · have hlast := Nat.mod_lt n (by decide : 10 > 0)
      rw [Nat.toDigits_of_base_le (by decide) (Nat.not_lt.mp hn), Go.encode_append,
        List.length_append, List.length_append, ih (n / 10) (by omega), encode_digitChar hlast]
      rfl

theorem length_padded (n width : Nat) :
    (padded n width).length = max width (Nat.toDigits 10 n).length := by
  unfold padded
  rw [List.length_append, List.length_replicate, length_encode_toDigits]
  omega

theorem length_padded_of_lt {n width : Nat} (hwidth : 0 < width) (h : n < 10 ^ width) :
    (padded n width).length = width := by
  rw [length_padded]
  exact Nat.max_eq_left ((Nat.length_toDigits_le_iff (by decide) hwidth).mpr h)

theorem padded_succ (n width : Nat) :
    padded n (width + 2) = padded (n / 10) (width + 1) ++ [UInt8.ofNat (48 + n % 10)] := by
  have hlast := encode_digitChar (Nat.mod_lt n (by decide : 10 > 0))
  unfold padded
  by_cases hn : n < 10
  · rw [Nat.toDigits_of_lt_base hn, Nat.div_eq_of_lt hn, ← hlast,
      Nat.mod_eq_of_lt hn]
    show List.replicate (width + 1) (0x30 : UInt8) ++ _ =
      List.replicate width 0x30 ++ [0x30] ++ _
    rw [List.replicate_succ']
  · rw [Nat.toDigits_of_base_le (by decide) (Nat.not_lt.mp hn), Go.encode_append, hlast,
      List.length_append, List.length_singleton, List.append_assoc,
      show width + 2 = width + 1 + 1 from rfl, Nat.add_sub_add_right]

/-- How many digits of a fraction of so many places are left without the zeros it ends in. -/
def fractionDigits : Nat → Nat → Nat
  | 0, _ => 0
  | places + 1, n => if n % 10 = 0 then fractionDigits places (n / 10) else places + 1

theorem ofNat_digit_eq_zero_iff {d : Nat} (h : d < 10) :
    (UInt8.ofNat (48 + d) == 0x30) = decide (d = 0) := by
  have hall : ∀ d < 10, (UInt8.ofNat (48 + d) == 0x30) = decide (d = 0) := by decide
  exact hall d h

theorem length_dropWhile_padded (places n : Nat) (h : n < 10 ^ (places + 1)) :
    ((padded n (places + 1)).reverse.dropWhile (· == 0x30)).length =
      fractionDigits (places + 1) n := by
  have hzero := ofNat_digit_eq_zero_iff (Nat.mod_lt n (by decide : 10 > 0))
  induction places generalizing n with
  | zero =>
    have hn : n < 10 := h
    rw [padded, Nat.toDigits_of_lt_base hn, encode_digitChar hn]
    rw [Nat.mod_eq_of_lt hn] at hzero
    show ([UInt8.ofNat (48 + n)].dropWhile (· == 0x30)).length = _
    rw [List.dropWhile_cons, hzero, fractionDigits, Nat.mod_eq_of_lt hn]
    by_cases h0 : n = 0 <;> simp [h0, fractionDigits]
  | succ places ih =>
    have hdiv : n / 10 < 10 ^ (places + 1) := by
      omega
    rw [padded_succ, List.reverse_append, List.reverse_singleton, List.singleton_append,
      List.dropWhile_cons, hzero, fractionDigits]
    by_cases h0 : n % 10 = 0
    · rw [if_pos (decide_eq_true h0), if_pos h0]
      exact ih _ hdiv (ofNat_digit_eq_zero_iff (Nat.mod_lt _ (by decide)))
    · rw [if_neg (by simpa using h0), if_neg h0, List.length_cons, List.length_reverse,
        length_padded_of_lt (Nat.succ_pos _) hdiv]

/-! ## The record -/

def Timestamp.width (t : Timestamp) : Nat :=
  (if t.year < 0 then 1 else 0) + max 4 (Nat.toDigits 10 t.year.natAbs).length + 16 +
    if t.nanosecond.val = 0 then 0 else 1 + fractionDigits 9 t.nanosecond

theorem length_formatYear (year : Int) : (Timestamp.formatYear year).length =
    (if year < 0 then 1 else 0) + max 4 (Nat.toDigits 10 year.natAbs).length := by
  have hminus : (bytes "-").length = 1 := rfl
  unfold Timestamp.formatYear
  split_ifs <;> simp [length_padded, hminus]

theorem length_formatFraction (n : Fin 1000000000) : (Timestamp.formatFraction n).length =
    if n.val = 0 then 0 else 1 + fractionDigits 9 n := by
  have hpoint : (bytes ".").length = 1 := rfl
  unfold Timestamp.formatFraction
  split_ifs
  · rfl
  · rw [List.length_append, List.length_reverse, length_dropWhile_padded 8 n n.isLt, hpoint]

theorem length_format (t : Timestamp) : t.format.length = t.width := by
  have htwo : ∀ {b : Nat} (n : Fin b), b ≤ 100 → (padded n 2).length = 2 := fun n hb =>
    length_padded_of_lt (by decide) (Nat.lt_of_lt_of_le n.isLt hb)
  have hmarks : (bytes "-").length = 1 ∧ (bytes "T").length = 1 ∧ (bytes ":").length = 1 ∧
      (bytes "Z").length = 1 := ⟨rfl, rfl, rfl, rfl⟩
  unfold Timestamp.format Timestamp.width
  simp only [List.length_append, length_formatYear, length_formatFraction,
    htwo t.month (by decide), htwo t.day (by decide), htwo t.hour (by decide),
    htwo t.minute (by decide), htwo t.second (by decide)]
  omega

section

variable (toLower : Bytes → Bytes)

/-- The digits of a priority: facility 0 stands for 16, and 13 on are past 99 whatever the
severity. -/
def priorityWidth (facility : Nat) (msg : Message) : Nat :=
  if facility = 0 ∨ 100 ≤ facility * 8 + actionSeverity toLower msg.action then 3 else 2

def recordWidth (facility : Nat) (msg : Message) : Nat :=
  37 + priorityWidth toLower facility msg + msg.timestamp.width +
    (msg.auditSD.list.map Param.width).sum

theorem actionSeverity_bounds (action : Bytes) :
    3 ≤ actionSeverity toLower action ∧ actionSeverity toLower action ≤ 6 := by
  simp only [actionSeverity]
  split_ifs <;> exact ⟨by decide, by decide⟩

theorem length_toDigits_priority (facility : Fin 24) (msg : Message) :
    (Nat.toDigits 10 (priority toLower facility msg)).length =
      priorityWidth toLower facility msg := by
  obtain ⟨hlow, hhigh⟩ := actionSeverity_bounds toLower msg.action
  have htwo := Nat.length_toDigits_le_iff (n := priority toLower facility msg)
    (by decide : 1 < 10) (by decide : 0 < 2)
  have hone := Nat.length_toDigits_le_iff (n := priority toLower facility msg)
    (by decide : 1 < 10) (by decide : 0 < 1)
  have hthree := Nat.length_toDigits_le_iff (n := priority toLower facility msg)
    (by decide : 1 < 10) (by decide : 0 < 3)
  unfold priority at *
  unfold priorityWidth
  split_ifs at * <;> omega

theorem length_formatRFC5424 (facility : Fin 24) (msg : Message) :
    (formatRFC5424 toLower facility msg).length = recordWidth toLower facility msg := by
  have hmarks : (bytes "<").length = 1 ∧ (bytes ">1 ").length = 3 ∧
      (bytes " nexara audit - - ").length = 18 ∧ (bytes "\n").length = 1 := ⟨rfl, rfl, rfl, rfl⟩
  unfold formatRFC5424 recordWidth
  simp only [List.length_append, length_encode_toDigits, length_toDigits_priority, length_format,
    length_formatAuditSD]
  omega

def collectorLimit : Nat := 8192

/-- A record fits into what a collector takes exactly when the bytes its characters are written
with do. -/
theorem record_fits_iff (facility : Fin 24) (msg : Message) :
    (formatRFC5424 toLower facility msg).length ≤ collectorLimit ↔
      recordWidth toLower facility msg ≤ collectorLimit := by
  rw [length_formatRFC5424]

end

/-- A rescan of one guest, with details of so many four-byte characters. -/
def emojiDetails (n : Nat) : Message where
  timestamp := ⟨2026, 1, 1, 0, 0, 0, 0⟩
  userID := bytes "u"
  clusterID := []
  resourceType := bytes "vm"
  resourceID := bytes "100"
  action := bytes "rescan"
  vmid := []
  resourceName := []
  details := encode (List.replicate n (Char.ofNat 0x1f600))

theorem runes_emojiDetails (n : Nat) :
    runes (emojiDetails n).details = List.replicate n (Char.ofNat 0x1f600) :=
  Go.runes_encode _

theorem recordWidth_emojiDetails {n : Nat} (h : 2 < n) (hle : n ≤ maxSyslogDetailsLen) :
    4 * n ≤ recordWidth id 16 (emojiDetails n) := by
  have hgiven : ∀ s : Bytes, (runes s).length ≤ 2 → (emojiDetails n).details ≠ s := by
    intro s hs heq
    rw [← heq, runes_emojiDetails, List.length_replicate] at hs
    omega
  have hcond : ¬((emojiDetails n).auditSD.details = [] ∨
      (emojiDetails n).auditSD.details = bytes "\x7b\x7d") :=
    not_or.mpr ⟨hgiven _ (by decide), hgiven _ (by decide)⟩
  have hwidth : 4 * n ≤ valueWidth maxSyslogDetailsLen (emojiDetails n).auditSD.details := by
    unfold valueWidth
    rw [Message.auditSD, runes_emojiDetails, List.take_replicate, List.map_replicate,
      List.sum_replicate_nat, show runeWidth (Char.ofNat 0x1f600) = 4 from rfl]
    omega
  rw [recordWidth, AuditSD.list, if_neg hcond]
  simp only [List.map_append, List.map_cons, List.sum_append, List.sum_cons, Param.width]
  omega

/-- Details within their limit of characters take a record past the limit of bytes. -/
theorem record_past_limit :
    (runes (emojiDetails 3072).details).length ≤ maxSyslogDetailsLen ∧
      collectorLimit < (formatRFC5424 id (16 : Fin 24) (emojiDetails 3072)).length := by
  rw [runes_emojiDetails, List.length_replicate, length_formatRFC5424]
  exact ⟨by decide, Nat.lt_of_lt_of_le (by decide)
    (recordWidth_emojiDetails (by decide) (by decide))⟩

end Nexara.Syslog
