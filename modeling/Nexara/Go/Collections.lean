import Mathlib.Data.List.AList
import Mathlib.Data.List.Sort
import Mathlib.Data.String.Basic

/-!
# The maps and slices of Go's standard library

A map from strings is an association list without repeated keys, ranged over in the order of the
list. Of the package `maps` there is `DeleteFunc`, of the package `slices` there are `Sort`,
`Compact` and `BinarySearch`, all structurally recursive, so that they can be evaluated.
-/

namespace Go

/-- `map[string]V`. -/
abbrev Map (V : Type) : Type := AList fun _ : String => V

-- The instance of association lists rewrites the equation, so it cannot be evaluated.
instance {V : Type} [DecidableEq V] : DecidableEq (Map V) := fun m m' =>
  decidable_of_iff (m.entries = m'.entries) AList.ext_iff.symm

theorem lookup_insert {V : Type} (m : Map V) (k k' : String) (v : V) :
    (m.insert k v).lookup k' = if k' = k then some v else m.lookup k' := by
  split_ifs with h
  · subst h
    exact AList.lookup_insert m
  · exact AList.lookup_insert_ne h

theorem lookup_erase {V : Type} (m : Map V) (k k' : String) :
    (m.erase k).lookup k' = if k' = k then none else m.lookup k' := by
  split_ifs with h
  · subst h
    exact AList.lookup_erase k' m
  · exact AList.lookup_erase_ne h

def deleteFunc {V : Type} (m : Map V) (del : String → V → Bool) : Map V :=
  ⟨m.entries.filter fun e => !del e.1 e.2,
    m.nodupKeys.sublist List.filter_sublist⟩

theorem lookup_deleteFunc {V : Type} (m : Map V) (del : String → V → Bool) (k : String) :
    (deleteFunc m del).lookup k = (m.lookup k).filter fun v => !del k v := by
  cases hm : m.lookup k with
  | none =>
    refine AList.lookup_eq_none.2 fun hk => AList.lookup_eq_none.1 hm ?_
    obtain ⟨v, hv⟩ := List.exists_of_mem_keys hk
    exact List.mem_keys_of_mem (List.mem_of_mem_filter hv)
  | some v =>
    have hv := AList.mem_lookup_iff.1 hm
    by_cases hdel : del k v
    · rw [Option.filter_some, if_neg (by simp [hdel])]
      refine AList.lookup_eq_none.2 fun hk => ?_
      obtain ⟨v', hv'⟩ := List.exists_of_mem_keys hk
      obtain ⟨hmem, hkeep⟩ := List.mem_filter.1 hv'
      obtain rfl : v = v' := by
        simpa [hm] using AList.mem_lookup_iff.2 hmem
      simp [hdel] at hkeep
    · rw [Option.filter_some, if_pos (by simp [hdel])]
      exact AList.mem_lookup_iff.2 (List.mem_filter.2 ⟨hv, by simp [hdel]⟩)

def sort {α : Type} [LinearOrder α] (l : List α) : List α := l.insertionSort (· ≤ ·)

@[simp] theorem mem_sort {α : Type} [LinearOrder α] {a : α} {l : List α} : a ∈ sort l ↔ a ∈ l := by
  simp [sort]

/-- `slices.Compact`: of each run of equal elements, one. -/
def compact {α : Type} [DecidableEq α] : List α → List α
  | [] => []
  | [a] => [a]
  | a :: b :: l => if a = b then compact (b :: l) else a :: compact (b :: l)

@[simp] theorem mem_compact {α : Type} [DecidableEq α] {a : α} {l : List α} :
    a ∈ compact l ↔ a ∈ l := by
  induction l using compact.induct with
  | case1 | case2 b => simp [compact]
  | case3 b l ih =>
    rw [compact, if_pos rfl, ih]
    simp
  | case4 b c l hne ih =>
    rw [compact, if_neg hne, List.mem_cons, ih]
    simp

/-- The loop of `slices.BinarySearch`, between the places `i` and `j`. -/
def searchFrom {α : Type} [LinearOrder α] (l : List α) (target : α) : ℕ → ℕ → ℕ → ℕ
  | 0, i, _ => i
  | n + 1, i, j =>
    let h := (i + j) / 2
    match l[h]? with
    | none => i
    | some x =>
      if i < j then
        if x < target then searchFrom l target n (h + 1) j else searchFrom l target n i h
      else i

/-- `slices.BinarySearch`: a place for the target, and whether the target is there. -/
def binarySearch {α : Type} [LinearOrder α] (l : List α) (target : α) : ℕ × Bool :=
  let i := searchFrom l target l.length 0 l.length
  (i, decide (l[i]? = some target))

end Go
