import Mathlib.Algebra.Order.Ring.Int
import Nexara.Go.Utf8

/-!
# Comparing Debian versions

`compareDebianVersion` of the security tracker's client and what it calls. Strings are byte strings;
an `int` has 64 bits. The loops carry the number of rounds that their strings are long, each round
taking at least one byte.
-/

namespace Nexara.Scanner

open Go (Bytes bytes runes)

def isDigit (c : UInt8) : Bool := 0x30 ≤ c && c ≤ 0x39

/-- An `int` after an overflow. -/
def wrap (n : Int) : Int := n.bmod (2 ^ 64)

theorem wrap_zero : wrap 0 = 0 := by decide

theorem wrap_wrap_mul_add (n m k : Int) : wrap (wrap n * m + k) = wrap (n * m + k) := by
  unfold wrap
  rw [← Int.bmod_add_bmod, Int.bmod_mul_bmod, Int.bmod_add_bmod]

/-! ## `parseDebVersion` -/

/-- The text before the first colon and the text after it; a colon in the first place counts as
none. -/
def cutEpoch (v : Bytes) : Bytes × Bytes :=
  let i := v.idxOf 0x3a
  if 0 < i ∧ i < v.length then (v.take i, v.drop (i + 1)) else ([], v)

/-- The text before the last hyphen and the text after it, if there is one. -/
def cutRevision (v : Bytes) : Bytes × Option Bytes :=
  let i := v.reverse.idxOf 0x2d
  if i < v.length then (v.take (v.length - 1 - i), some (v.drop (v.length - i))) else (v, none)

/-- `epoch:upstream-revision`. -/
structure DebVersion where
  epoch : Int
  upstream : Bytes
  revision : Bytes

def epochOf (cs : List Char) : Int :=
  cs.foldl (fun epoch ch => wrap (epoch * 10 + ((ch.toNat : Int) - 0x30))) 0

def parseDebVersion (v : Bytes) : Option DebVersion :=
  if v = [] then none
  else
    let digits := runes (cutEpoch v).1
    if digits.all fun ch => 0x30 ≤ ch.toNat && ch.toNat ≤ 0x39 then
      let parts := cutRevision (cutEpoch v).2
      some ⟨epochOf digits, parts.1, parts.2.getD []⟩
    else none

/-! ## `compareDebPart` -/

/-- A tilde comes before the end of the text, and letters before all else. -/
def charOrder (c : UInt8) (present : Bool) : Nat :=
  if present = false then 1
  else if c = 0x7e then 0
  else if (0x61 ≤ c ∧ c ≤ 0x7a) ∨ (0x41 ≤ c ∧ c ≤ 0x5a) then 2 + c.toNat
  else 1000 + c.toNat

/-- One round of `compareDebChars`: an absent character is read as the zero byte. -/
def compareDebChar (a b : Option UInt8) : Int :=
  let ca := a.getD 0
  let cb := b.getD 0
  if ca = cb then 0
  else
    let oa := charOrder ca a.isSome
    let ob := charOrder cb b.isSome
    if oa < ob then -1 else if ob < oa then 1 else 0

def compareDebCharsFrom : Nat → Bytes → Bytes → Int
  | 0, _, _ => 0
  | n + 1, a, b =>
    let c := compareDebChar a.head? b.head?
    if c = 0 then compareDebCharsFrom n a.tail b.tail else c

def compareDebChars (a b : Bytes) : Int := compareDebCharsFrom (max a.length b.length) a b

def trimLeadingZeros : Bytes → Bytes
  | 0x30 :: c :: s => trimLeadingZeros (c :: s)
  | s => s

/-- Numbers of any length, by their digits. -/
def compareDigits (a b : Bytes) : Int :=
  let na := trimLeadingZeros a
  let nb := trimLeadingZeros b
  if na.length ≠ nb.length then if na.length < nb.length then -1 else 1
  else if na ≠ nb then if na < nb then -1 else 1
  else 0

/-- The bytes up to the first digit, the digits after them, and the rest. -/
def nonDigits (s : Bytes) : Bytes := s.takeWhile fun c => !isDigit c

def digits (s : Bytes) : Bytes := (s.dropWhile fun c => !isDigit c).takeWhile isDigit

def afterDigits (s : Bytes) : Bytes := (s.dropWhile fun c => !isDigit c).dropWhile isDigit

def compareDebPartFrom : Nat → Bytes → Bytes → Int
  | 0, _, _ => 0
  | n + 1, a, b =>
    if a = [] ∧ b = [] then 0
    else
      let c := compareDebChars (nonDigits a) (nonDigits b)
      let d := compareDigits (digits a) (digits b)
      if c ≠ 0 then c
      else if d ≠ 0 then d
      else compareDebPartFrom n (afterDigits a) (afterDigits b)

def compareDebPart (a b : Bytes) : Int := compareDebPartFrom (a.length + b.length) a b

def compareDebianVersion (a b : Bytes) : Option Int :=
  match parseDebVersion a, parseDebVersion b with
  | some va, some vb =>
    if va.epoch ≠ vb.epoch then some (if va.epoch < vb.epoch then -1 else 1)
    else
      let c := compareDebPart va.upstream vb.upstream
      if c ≠ 0 then some c else some (compareDebPart va.revision vb.revision)
  | _, _ => none

end Nexara.Scanner
