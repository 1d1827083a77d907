import Mathlib.Data.List.DropRight
import Mathlib.Data.List.TakeDrop
import Nexara.Go.Strings

/-!
# Splitting, joining and trimming

What joining texts and splitting the result at the same separator gives (`split_join`), which texts
trimming leaves alone (`trimSpace_eq_self`), and where a text is cut (`cut_eq_some`).
-/

namespace Go

variable {s t : String} {c sep : Char}

/-! ## Splitting and joining -/

theorem notMem_of_mem_splitOnP {α : Type} {p : α → Bool} {xs l : List α} (hl : l ∈ xs.splitOnP p) :
    ∀ a ∈ l, p a = false := by
  induction xs generalizing l with
  | nil =>
    rw [List.splitOnP_nil, List.mem_singleton] at hl
    simp [hl]
  | cons x xs ih =>
    rw [List.splitOnP_cons_eq_if_modifyHead] at hl
    split_ifs at hl with hx
    · rcases List.mem_cons.mp hl with rfl | hl
      · simp
      · exact ih hl
    · -- `x` is put before the first part
      cases hparts : xs.splitOnP p with
      | nil => simp [hparts] at hl
      | cons first rest =>
        rw [hparts] at hl
        rcases List.mem_cons.mp hl with rfl | hl
        · intro a ha
          rcases List.mem_cons.mp ha with rfl | ha
          · simpa using hx
          · exact ih (hparts ▸ (.head _)) a ha
        · exact ih (hparts ▸ List.mem_cons_of_mem first hl)

theorem notMem_of_mem_split (h : t ∈ split s sep) : sep ∉ t.toList := by
  obtain ⟨l, hl, rfl⟩ := List.mem_map.mp h
  intro hsep
  rw [String.toList_ofList] at hsep
  simpa using notMem_of_mem_splitOnP hl sep hsep

theorem toList_join (d : String) (ls : List String) :
    (join d ls).toList = d.toList.intercalate (ls.map String.toList) := by
  induction ls with
  | nil => rfl
  | cons s ls ih =>
    cases ls with
    | nil => simp [join]
    | cons t rest =>
      show (s ++ d ++ join d (t :: rest)).toList = _
      rw [String.toList_append, ih]
      simp

theorem split_join {d : String} (hd : d.toList = [sep]) {ls : List String} (hne : ls ≠ [])
    (hls : ∀ s ∈ ls, sep ∉ s.toList) : split (join d ls) sep = ls := by
  unfold split
  rw [toList_join, hd]
  have hsplit : ([sep].intercalate (ls.map String.toList)).splitOn sep = ls.map String.toList :=
    List.splitOn_intercalate sep (by simpa using hls) (by simpa using hne)
  show (List.splitOn sep _).map String.ofList = ls
  rw [hsplit]
  simp [Function.comp_def]

/-! ## Trimming -/

theorem toList_trimSpace (s : String) :
    (trimSpace s).toList = (s.toList.dropWhile isSpace).rdropWhile isSpace :=
  String.toList_ofList

theorem dropWhile_eq_self {p : Char → Bool} {l : List Char} (h : ∀ c ∈ l.head?, p c = false) :
    l.dropWhile p = l := by
  cases l with
  | nil => rfl
  | cons c l => simp [h c rfl]

theorem rdropWhile_eq_self {p : Char → Bool} {l : List Char} (h : ∀ c ∈ l.getLast?, p c = false) :
    l.rdropWhile p = l := by
  unfold List.rdropWhile
  rw [dropWhile_eq_self (by simpa using h), List.reverse_reverse]

theorem trimSpace_eq_self (hhead : ∀ c ∈ s.toList.head?, isSpace c = false)
    (hlast : ∀ c ∈ s.toList.getLast?, isSpace c = false) : trimSpace s = s := by
  rw [← String.toList_inj, toList_trimSpace, dropWhile_eq_self hhead, rdropWhile_eq_self hlast]

theorem head?_trimSpace (s : String) : ∀ c ∈ (trimSpace s).toList.head?, isSpace c = false := by
  intro c hc
  rw [toList_trimSpace] at hc
  -- the first character is left by trimming on the left
  have hprefix := List.rdropWhile_prefix isSpace (s.toList.dropWhile isSpace)
  obtain ⟨rest, hrest⟩ := hprefix
  cases hl : (s.toList.dropWhile isSpace).rdropWhile isSpace with
  | nil => simp [hl] at hc
  | cons d l =>
    rw [hl] at hc hrest
    obtain rfl : d = c := by simpa using hc
    have hhead := List.head?_dropWhile_not isSpace s.toList
    rw [← hrest] at hhead
    simpa using hhead

theorem getLast?_trimSpace (s : String) : ∀ c ∈ (trimSpace s).toList.getLast?, isSpace c = false := by
  intro c hc
  rw [toList_trimSpace] at hc
  have hhead := List.head?_dropWhile_not isSpace (s.toList.dropWhile isSpace).reverse
  unfold List.rdropWhile at hc
  rw [List.getLast?_reverse] at hc
  rw [hc] at hhead
  simpa using hhead

@[simp] theorem trimSpace_trimSpace (s : String) : trimSpace (trimSpace s) = trimSpace s :=
  trimSpace_eq_self (head?_trimSpace s) (getLast?_trimSpace s)

theorem mem_of_mem_trimSpace (h : c ∈ (trimSpace s).toList) : c ∈ s.toList := by
  rw [toList_trimSpace] at h
  exact (List.dropWhile_suffix _).subset ((List.rdropWhile_prefix ..).subset h)

/-! ## Cutting -/

theorem cut_eq_none (h : sep ∉ s.toList) : cut s sep = none := by
  have hall : ∀ c ∈ s.toList, (c != sep) = true := by grind
  unfold cut
  rw [List.span_eq_takeWhile_dropWhile, List.dropWhile_eq_nil_iff.mpr hall]

variable {key : String}

theorem cut_eq_some {val : String} (hs : s.toList = key.toList ++ sep :: val.toList)
    (hkey : sep ∉ key.toList) : cut s sep = some (key, val) := by
  have hall : ∀ c ∈ key.toList, (c != sep) = true := by grind
  unfold cut
  rw [hs, List.span_eq_takeWhile_dropWhile, List.takeWhile_append_of_pos hall,
    List.dropWhile_append_of_pos hall]
  simp

theorem toList_of_cut {val : String} (h : cut s sep = some (key, val)) :
    s.toList = key.toList ++ sep :: val.toList := by
  unfold cut at h
  rw [List.span_eq_takeWhile_dropWhile] at h
  cases hdrop : s.toList.dropWhile (· != sep) with
  | nil => simp [hdrop] at h
  | cons c cs =>
    have hc := List.head?_dropWhile_not (· != sep) s.toList
    rw [hdrop] at h hc
    obtain ⟨rfl, rfl⟩ : String.ofList (s.toList.takeWhile (· != sep)) = key ∧
        String.ofList cs = val := by
      simpa using h
    obtain rfl : c = sep := by simpa using hc
    rw [String.toList_ofList, String.toList_ofList, ← hdrop, List.takeWhile_append_dropWhile]

theorem toList_assign (key val : String) :
    (key ++ "=" ++ val).toList = key.toList ++ '=' :: val.toList := by
  simp

theorem cut_assign {val : String} (hkey : '=' ∉ key.toList) :
    cut (key ++ "=" ++ val) '=' = some (key, val) :=
  cut_eq_some (toList_assign key val) hkey

/-- Trimming an assignment only touches the end of its value. -/
theorem trimSpace_assign (hkey : trimSpace key = key) (val : String) :
    ∃ val', trimSpace (key ++ "=" ++ val) = key ++ "=" ++ val' ∧ (trimSpace val = val → val' = val) := by
  have hhead : ∀ c ∈ (key.toList ++ '=' :: val.toList).head?, isSpace c = false := by
    have hk := head?_trimSpace key
    rw [hkey] at hk
    cases hl : key.toList with
    | nil =>
      intro c hc
      obtain rfl : '=' = c := by simpa using hc
      decide
    | cons d l =>
      rwa [hl] at hk
  refine ⟨String.ofList (val.toList.rdropWhile isSpace), ?_, fun hval => ?_⟩
  · rw [← String.toList_inj, toList_trimSpace, toList_assign, toList_assign,
      dropWhile_eq_self hhead]
    unfold List.rdropWhile
    have hstop : isSpace '=' = false := by decide
    rw [List.reverse_append, List.reverse_cons, List.append_assoc, List.dropWhile_append]
    split_ifs with hempty
    · have hnil : val.toList.reverse.dropWhile isSpace = [] := by simpa using hempty
      simp [hnil, hstop]
    · simp
  · have hv := getLast?_trimSpace val
    rw [hval] at hv
    rw [rdropWhile_eq_self hv, String.ofList_toList]

end Go
