import Mathlib.Data.List.Basic

/-!
# Byte strings and their runes

A Go string is a sequence of bytes. `range` and the conversion to `[]rune` read it as UTF-8, with
U+FFFD for every byte that does not begin an encoding; the conversion back writes UTF-8. Bytes come
back as the runes they were written from (`runes_encode_append`).
-/

namespace Go

abbrev Bytes := List UInt8

def runeError : Char := Char.ofNat 0xfffd

/-- The rune the bytes begin with, if they begin with the encoding of one. -/
def decodeRune (b : Bytes) : Option Char := b.toByteArray.utf8DecodeChar? 0

/-- The runes after `skip` bytes that belong to a rune already read. -/
def runesFrom : Nat → Bytes → List Char
  | _, [] => []
  | skip + 1, _ :: bs => runesFrom skip bs
  | 0, b :: bs =>
    match decodeRune (b :: bs) with
    | some c => c :: runesFrom (c.utf8Size - 1) bs
    | none => runeError :: runesFrom 0 bs

/-- `[]rune(s)`, the runes that `range` visits. -/
def runes (s : Bytes) : List Char := runesFrom 0 s

/-- `string(rs)`. -/
def encode (cs : List Char) : Bytes := cs.flatMap String.utf8EncodeChar

def bytes (s : String) : Bytes := encode s.toList

@[simp] theorem encode_nil : encode [] = [] := rfl

@[simp] theorem encode_cons (c : Char) (cs : List Char) :
    encode (c :: cs) = String.utf8EncodeChar c ++ encode cs := rfl

@[simp] theorem encode_append (cs ds : List Char) : encode (cs ++ ds) = encode cs ++ encode ds :=
  List.flatMap_append

theorem decodeRune_encode_append (c : Char) (rest : Bytes) :
    decodeRune (String.utf8EncodeChar c ++ rest) = some c := by
  unfold decodeRune
  rw [List.toByteArray_append]
  exact ByteArray.utf8DecodeChar?_utf8EncodeChar_append

theorem runesFrom_append {skip : Nat} {bs : Bytes} (h : bs.length = skip) (rest : Bytes) :
    runesFrom skip (bs ++ rest) = runesFrom 0 rest := by
  induction bs generalizing skip with
  | nil =>
    subst h
    rfl
  | cons b bs ih =>
    subst h
    exact ih rfl

theorem runes_utf8EncodeChar_append (c : Char) (rest : Bytes) :
    runes (String.utf8EncodeChar c ++ rest) = c :: runes rest := by
  have hlen : (String.utf8EncodeChar c).length = c.utf8Size := String.length_utf8EncodeChar c
  have hdec := decodeRune_encode_append c rest
  cases hb : String.utf8EncodeChar c with
  | nil =>
    rw [hb] at hlen
    exact absurd hlen.symm (Nat.ne_of_gt c.utf8Size_pos)
  | cons b bs =>
    rw [hb] at hlen hdec
    rw [List.cons_append] at hdec
    show (match decodeRune (b :: (bs ++ rest)) with
      | some c => c :: runesFrom (c.utf8Size - 1) (bs ++ rest)
      | none => runeError :: runesFrom 0 (bs ++ rest)) = _
    rw [hdec]
    have hskip : bs.length = c.utf8Size - 1 := by
      rw [← hlen, List.length_cons, Nat.add_sub_cancel]
    exact congrArg (c :: ·) (runesFrom_append hskip rest)

theorem runes_encode_append (cs : List Char) (rest : Bytes) :
    runes (encode cs ++ rest) = cs ++ runes rest := by
  induction cs with
  | nil => rfl
  | cons c cs ih =>
    rw [encode_cons, List.append_assoc, runes_utf8EncodeChar_append, ih, List.cons_append]

theorem runes_encode (cs : List Char) : runes (encode cs) = cs := by
  have h := runes_encode_append cs []
  rwa [List.append_nil, show runes [] = [] from rfl, List.append_nil] at h

theorem length_runesFrom_le (skip : Nat) (s : Bytes) : (runesFrom skip s).length ≤ s.length := by
  induction s generalizing skip with
  | nil => cases skip <;> exact Nat.le_refl 0
  | cons b bs ih =>
    cases skip with
    | succ skip => exact Nat.le_succ_of_le (ih skip)
    | zero =>
      unfold runesFrom
      split
      · exact Nat.succ_le_succ (ih _)
      · exact Nat.succ_le_succ (ih 0)

theorem length_runes_le (s : Bytes) : (runes s).length ≤ s.length := length_runesFrom_le 0 s

/-! ## The bytes of a rune -/

theorem utf8EncodeChar_of_lt {c : Char} (h : c.toNat < 0x80) :
    String.utf8EncodeChar c = [UInt8.ofNat c.toNat] :=
  if_pos (Nat.le_of_lt_succ h)

/-- The character an ASCII byte stands for. -/
def ascii (b : UInt8) : Char := Char.ofNat b.toNat

theorem toNat_ascii {b : UInt8} (h : b.toNat < 0x80) : (ascii b).toNat = b.toNat := by
  have hvalid : b.toNat.isValidChar := .inl (Nat.lt_of_lt_of_le h (by decide))
  unfold ascii Char.ofNat
  rw [dif_pos hvalid]
  rfl

theorem runes_of_lt {s : Bytes} (h : ∀ b ∈ s, b.toNat < 0x80) : runes s = s.map ascii := by
  have hencode : encode (s.map ascii) = s := by
    induction s with
    | nil => rfl
    | cons b s ih =>
      have hb := toNat_ascii (h b List.mem_cons_self)
      rw [List.map_cons, encode_cons, utf8EncodeChar_of_lt (hb ▸ h b List.mem_cons_self), hb,
        UInt8.ofNat_toNat, ih fun c hc => h c (List.mem_cons_of_mem b hc)]
      rfl
  rw [← runes_encode (s.map ascii), hencode]

theorem ofNat_add_ge {n k : Nat} (hk : 0x80 ≤ k) (h : n + k < 256) :
    0x80 ≤ (UInt8.ofNat (n + k)).toNat := by
  rw [UInt8.toNat_ofNat', Nat.mod_eq_of_lt h]
  exact Nat.le_trans hk (Nat.le_add_left k n)

theorem utf8EncodeChar_of_ge {c : Char} (h : 0x80 ≤ c.toNat) :
    ∀ b ∈ String.utf8EncodeChar c, 0x80 ≤ b.toNat := by
  intro b hb
  unfold String.utf8EncodeChar at hb
  have hc : ¬c.val.toNat ≤ 127 := Nat.not_le.mpr h
  simp only at hb
  split_ifs at hb <;> simp only [List.mem_cons, List.not_mem_nil, or_false] at hb
  · rcases hb with rfl | rfl <;> exact ofNat_add_ge (by omega) (by omega)
  · rcases hb with rfl | rfl | rfl <;> exact ofNat_add_ge (by omega) (by omega)
  · rcases hb with rfl | rfl | rfl | rfl <;> exact ofNat_add_ge (by omega) (by omega)

end Go
