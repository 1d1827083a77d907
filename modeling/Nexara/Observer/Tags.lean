import Mathlib.Algebra.Order.Ring.Int
import Nexara.Go.Collections

/-!
# Readings of an object, and how two of them differ

The change observer keeps of each object it reads one tag a field, never a value: `ObjectTags`.
`diffTags` names the fields in which two readings differ, counts what came and went in each
ordered list (`multisetDiff`, with the items out of order counted through `lcsLenWithin`), and
names the members that joined or left.
-/

namespace Nexara.Observer

open Go (Map)

/-- One object's stored reading. -/
structure ObjectTags where
  scalar : Map String := ∅
  lists : Map (List String) := ∅
  members : Map (List String) := ∅
  deriving DecidableEq

/-- How an ordered list changed. -/
structure ListCount where
  added : ℕ := 0
  removed : ℕ := 0
  moved : ℕ := 0

/-- How two readings of one object differ. -/
structure TagDiff where
  fields : List String := []
  appeared : List String := []
  counts : Map ListCount := ∅
  joined : List String := []
  left : List String := []

/-! ## The longest common subsequence -/

def countOf (m : Map ℕ) (t : String) : ℕ := (m.lookup t).getD 0

/-- The places of each item of a list, in order. -/
def placesOf (a : List String) : Map (List ℕ) :=
  a.zipIdx.foldl (fun places e => places.insert e.1 ((places.lookup e.1).getD [] ++ [e.2])) ∅

/-- `extend`, of a run of least ending places. -/
def extend (run : List ℕ) (place : ℕ) : List ℕ :=
  let k := (Go.binarySearch run place).1
  if k = run.length then run ++ [place] else run.set k place

/-- The walk past the limit: each item takes the next unused place of its value. -/
def extendNext (places : Map (List ℕ)) (s : List ℕ × Map ℕ) (t : String) : List ℕ × Map ℕ :=
  let i := countOf s.2 t
  match ((places.lookup t).getD [])[i]? with
  | none => s
  | some place => (extend s.1 place, s.2.insert t (i + 1))

def lcsLenWithin (a b : List String) (limit : ℕ) : ℕ :=
  let places := placesOf a
  let placesIn t := (places.lookup t).getD []
  let pairs := (b.map fun t => (placesIn t).length).sum
  if pairs ≤ limit then
    (b.foldl (fun run t => (placesIn t).reverse.foldl extend run) []).length
  else (b.foldl (extendNext places) ([], ∅)).1.length

def lcsMatchLimit : ℕ := 2 ^ 20

def lcsLen (a b : List String) : ℕ := lcsLenWithin a b lcsMatchLimit

/-! ## The difference of two lists -/

/-- The two maps of `multisetDiff` and its count, as the items of the current list are matched. -/
structure Matching where
  left : Map ℕ
  inCur : Map ℕ := ∅
  added : ℕ := 0

/-- One item of the current list matched with one of the previous, or counted as added. -/
def Matching.take (m : Matching) (t : String) : Matching :=
  if 0 < countOf m.left t then
    { m with
      left := m.left.insert t (countOf m.left t - 1)
      inCur := m.inCur.insert t (countOf m.inCur t + 1) }
  else { m with added := m.added + 1 }

/-- Of a list, the items within a budget for each value, in order. -/
def kept (budget : Map ℕ) : List String → List String
  | [] => []
  | t :: l =>
    if 0 < countOf budget t then t :: kept (budget.insert t (countOf budget t - 1)) l
    else kept budget l

def multisetDiff (prev cur : List String) : ListCount :=
  let left := prev.foldl (fun m t => m.insert t (countOf m t + 1)) (∅ : Map ℕ)
  let m := cur.foldl Matching.take { left }
  let curKept := kept m.inCur cur
  { added := m.added
    removed := (m.left.entries.map fun e => e.2).sum
    moved := curKept.length - lcsLen (kept m.inCur prev) curKept }

/-- What is in one list and not in the other, each way. -/
def setDiff (prev cur : List String) : List String × List String :=
  (cur.filter fun id => !(Go.binarySearch prev id).2, prev.filter fun id => !(Go.binarySearch cur id).2)

/-! ## The difference of two readings -/

def unionKeys (a b : Map (List String)) : List String := a.keys ++ b.keys.filter (· ∉ a)

def itemsOf (m : Map (List String)) (k : String) : List String := (m.lookup k).getD []

def prefixed (field : String) (ids : List String) : List String := ids.map (field ++ ":" ++ ·)

def diffTags (prev cur : ObjectTags) : TagDiff :=
  let moved := cur.scalar.entries.filter fun e => prev.scalar.lookup e.1 ≠ some e.2
  let dropped := prev.scalar.keys.filter (· ∉ cur.scalar)
  let lists := (unionKeys prev.lists cur.lists).filter fun k =>
    itemsOf prev.lists k ≠ itemsOf cur.lists k
  let setDiffOf k := setDiff (itemsOf prev.members k) (itemsOf cur.members k)
  let members := (unionKeys prev.members cur.members).filter fun k => setDiffOf k ≠ ([], [])
  let listCounts := lists.foldl (fun (counts : Map ListCount) k =>
    counts.insert k (multisetDiff (itemsOf prev.lists k) (itemsOf cur.lists k))) ∅
  { fields := Go.compact (Go.sort (moved.map (·.1) ++ dropped ++ lists ++ members))
    appeared := Go.sort ((moved.filter fun e => e.1 ∉ prev.scalar).map (·.1))
    counts := members.foldl (fun (counts : Map ListCount) k =>
      counts.insert k { added := (setDiffOf k).1.length, removed := (setDiffOf k).2.length })
      listCounts
    joined := Go.sort (members.flatMap fun k => prefixed k (setDiffOf k).1)
    left := Go.sort (members.flatMap fun k => prefixed k (setDiffOf k).2) }

/-- Every member of a reading. -/
def allMembers (members : Map (List String)) : List String :=
  Go.sort (members.entries.flatMap fun e => prefixed e.1 e.2)

end Nexara.Observer
