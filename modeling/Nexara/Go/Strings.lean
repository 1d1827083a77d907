import Mathlib.Algebra.Order.Ring.Int

/-!
# The string functions of Go's standard library

The functions of the package `strings` that the sources use and the value part of `strconv.Atoi`, on
the characters of a string, structurally recursive, so that a property string can be evaluated.
-/

namespace Go

def isSpace (c : Char) : Bool :=
  c.val = 0x20 || (0x09 ≤ c.val && c.val ≤ 0x0d) || c.val = 0x85 || c.val = 0xa0 ||
    c.val = 0x1680 || (0x2000 ≤ c.val && c.val ≤ 0x200a) || c.val = 0x2028 || c.val = 0x2029 ||
    c.val = 0x202f || c.val = 0x205f || c.val = 0x3000

def trimSpace (s : String) : String :=
  String.ofList ((s.toList.dropWhile isSpace).reverse.dropWhile isSpace).reverse

/-- `strings.Split`, at a separator of one character. -/
def split (s : String) (sep : Char) : List String :=
  (s.toList.splitOnP (· == sep)).map String.ofList

/-- `strings.Cut`, at a separator of one character; `none` when it does not occur. -/
def cut (s : String) (sep : Char) : Option (String × String) :=
  match s.toList.span (· != sep) with
  | (_, []) => none
  | (before, _ :: after) => some (String.ofList before, String.ofList after)

/-- `strings.CutPrefix`; `none` when the text does not begin so. -/
def cutPrefix (s lead : String) : Option String :=
  (lead.toList.isPrefixOf? s.toList).map String.ofList

def join (sep : String) : List String → String
  | [] => ""
  | [s] => s
  | s :: t :: rest => s ++ sep ++ join sep (t :: rest)

def contains (s sub : String) : Bool :=
  (List.range (s.length + 1)).any fun i => sub.toList.isPrefixOf (s.toList.drop i)

/-- Every occurrence of `old` replaced, from the left and without overlap, after `skip` characters
of one already replaced. -/
def replaceFrom (old new : List Char) : ℕ → List Char → List Char
  | _, [] => []
  | skip + 1, _ :: cs => replaceFrom old new skip cs
  | 0, c :: cs =>
    if old.isPrefixOf (c :: cs) then new ++ replaceFrom old new (old.length - 1) cs
    else c :: replaceFrom old new 0 cs

/-- `strings.ReplaceAll`, of a text that is not empty. -/
def replaceAll (s old new : String) : String :=
  String.ofList (replaceFrom old.toList new.toList 0 s.toList)

/-- `strings.ToUpper`, of ASCII letters. -/
def toUpper (s : String) : String := String.ofList (s.toList.map Char.toUpper)

/-- The verb `%q`, for a text without quotes, backslashes or control characters. -/
def quote (s : String) : String := "\"" ++ s ++ "\""

/-- The last `n` characters. -/
def suffix (s : String) (n : ℕ) : String := String.ofList (s.toList.drop (s.length - n))

def digits (cs : List Char) : Option ℕ :=
  if cs ≠ [] ∧ cs.all Char.isDigit then
    some (cs.foldl (fun n c => 10 * n + (c.toNat - '0'.toNat)) 0)
  else none

/-- The value of `strconv.Atoi`: zero where the text is no number, and the closest `int` where it
does not fit. -/
def atoi (s : String) : ℤ :=
  match s.toList with
  | '-' :: cs => match digits cs with
    | some n => max (-(n : ℤ)) (-2 ^ 63)
    | none => 0
  | '+' :: cs => match digits cs with
    | some n => min (n : ℤ) (2 ^ 63 - 1)
    | none => 0
  | cs => match digits cs with
    | some n => min (n : ℤ) (2 ^ 63 - 1)
    | none => 0

end Go
