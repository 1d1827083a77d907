import Mathlib.Data.List.Nodup

/-!
# Hops, and the moves they come to

Things are somewhere or nowhere (`Place`), and a hop takes one of them from where it is to somewhere
else. A list of hops is `Legal` if each starts where its thing is and satisfies a condition on the
place at that time.

`collapse` merges the hops of each thing into one, in the order in which the things first hopped,
and drops those that end where they began. The result is the list of net moves from the first place
to the last (`net_collapse`); after some of them, the things that moved are where they end, the
others where they began (`Net.run_left`).
-/

namespace Relocate

structure Hop (κ ν : Type) where
  key : κ
  src : ν
  dst : ν
  deriving DecidableEq

abbrev Place (κ ν : Type) := κ → Option ν

variable {κ ν : Type} [DecidableEq κ]

def Hop.apply (h : Hop κ ν) (f : Place κ ν) : Place κ ν := Function.update f h.key (some h.dst)

@[simp] theorem Hop.apply_key (h : Hop κ ν) (f : Place κ ν) : h.apply f h.key = some h.dst :=
  Function.update_self ..

theorem Hop.apply_of_ne (h : Hop κ ν) (f : Place κ ν) {k : κ} (hk : k ≠ h.key) :
    h.apply f k = f k := Function.update_of_ne hk ..

def run (f : Place κ ν) : List (Hop κ ν) → Place κ ν
  | [] => f
  | h :: hs => run (h.apply f) hs

@[simp] theorem run_append (f : Place κ ν) (hs hs' : List (Hop κ ν)) :
    run f (hs ++ hs') = run (run f hs) hs' := by
  induction hs generalizing f with
  | nil => rfl
  | cons h hs ih => exact ih (h.apply f)

/-! ## Legal hops -/

/-- The hop starts where its thing is, leaves it, and satisfies the condition. -/
structure Hop.May (ok : Place κ ν → Hop κ ν → Prop) (f : Place κ ν) (h : Hop κ ν) : Prop where
  src : f h.key = some h.src
  leaves : h.src ≠ h.dst
  ok : ok f h

/-- Hops one after another, each of which may be made when it is made. -/
def Legal (ok : Place κ ν → Hop κ ν → Prop) : Place κ ν → List (Hop κ ν) → Prop
  | _, [] => True
  | f, h :: hs => h.May ok f ∧ Legal ok (h.apply f) hs

section

variable {ok : Place κ ν → Hop κ ν → Prop} {f : Place κ ν}

variable {hs : List (Hop κ ν)}

theorem legal_append {hs' : List (Hop κ ν)} :
    Legal ok f (hs ++ hs') ↔ Legal ok f hs ∧ Legal ok (run f hs) hs' := by
  induction hs generalizing f with
  | nil => exact (iff_of_eq (true_and _)).symm
  | cons h hs ih =>
    show h.May ok f ∧ Legal ok (h.apply f) (hs ++ hs') ↔ _
    rw [ih, ← and_assoc]
    rfl

theorem Legal.concat {h : Hop κ ν} (hl : Legal ok f hs)
    (hh : h.May ok (run f hs)) : Legal ok f (hs ++ [h]) :=
  legal_append.mpr ⟨hl, hh, trivial⟩

theorem Legal.mono {ok' : Place κ ν → Hop κ ν → Prop}
    (hl : Legal ok f hs) (h : ∀ f h, ok f h → ok' f h) : Legal ok' f hs := by
  induction hs generalizing f with
  | nil => trivial
  | cons x hs ih => exact ⟨⟨hl.1.src, hl.1.leaves, h _ _ hl.1.ok⟩, ih hl.2⟩

theorem Legal.leaves {h : Hop κ ν} (hl : Legal ok f hs) (hh : h ∈ hs) : h.src ≠ h.dst := by
  induction hs generalizing f with
  | nil => cases hh
  | cons x hs ih =>
    rcases List.mem_cons.mp hh with rfl | hh
    · exact hl.1.leaves
    · exact ih hl.2 hh

/-- What every hop keeps holds after legal hops. -/
theorem Legal.keeps {P : Place κ ν → Prop}
    (hstep : ∀ f (h : Hop κ ν), h.May ok f → P f → P (h.apply f)) (hl : Legal ok f hs) (hf : P f) :
    P (run f hs) := by
  induction hs generalizing f with
  | nil => exact hf
  | cons h hs ih => exact ih hl.2 (hstep f h hl.1 hf)

/-- What every hop of one thing brings about, and every hop keeps, holds once the thing has hopped. -/
theorem Legal.after {P : Place κ ν → Prop} {k : κ}
    (hbegin : ∀ f (h : Hop κ ν), h.May ok f → h.key = k → P (h.apply f))
    (hstep : ∀ f (h : Hop κ ν), h.May ok f → P f → P (h.apply f)) (hl : Legal ok f hs)
    (hk : k ∈ hs.map Hop.key) : P (run f hs) := by
  induction hs generalizing f with
  | nil => cases hk
  | cons h hs ih =>
    show P (run (h.apply f) hs)
    by_cases heq : h.key = k
    · exact hl.2.keeps hstep (hbegin f h hl.1 heq)
    · rw [List.map_cons, List.mem_cons] at hk
      exact ih hl.2 (hk.resolve_left fun h => heq h.symm)

end

/-! ## Net moves -/

/-- The list moves each thing at most once, from where it is in `f` to where it is in `e`. -/
structure Net (f e : Place κ ν) (l : List (Hop κ ν)) : Prop where
  nodup : (l.map Hop.key).Nodup
  src : ∀ h ∈ l, f h.key = some h.src
  dst : ∀ h ∈ l, e h.key = some h.dst
  rest : ∀ k, k ∉ l.map Hop.key → e k = f k

/-- Take a hop into account: extend the move of its thing, or begin one. -/
def merge (acc : List (Hop κ ν)) (h : Hop κ ν) : List (Hop κ ν) :=
  if h.key ∈ acc.map Hop.key then
    acc.map fun x => if x.key = h.key then { x with dst := h.dst } else x
  else acc ++ [h]

/-- The hops merged, thing by thing. -/
def merged (hs : List (Hop κ ν)) : List (Hop κ ν) := hs.foldl merge []

/-- The moves that leave their place. -/
def collapse [DecidableEq ν] (hs : List (Hop κ ν)) : List (Hop κ ν) :=
  (merged hs).filter fun h => h.src ≠ h.dst

section

variable {f e : Place κ ν} {l : List (Hop κ ν)}

theorem map_key_extend (l : List (Hop κ ν)) (k : κ) (v : ν) :
    (l.map fun x => if x.key = k then { x with dst := v } else x).map Hop.key = l.map Hop.key := by
  rw [List.map_map]
  refine List.map_congr_left fun x _ => ?_
  show (if x.key = k then { x with dst := v } else x).key = x.key
  split_ifs <;> rfl

variable {h : Hop κ ν} {hs : List (Hop κ ν)}

theorem Net.merge (hl : Net f e l) (hh : e h.key = some h.src) : Net f (h.apply e) (merge l h) := by
  unfold Relocate.merge
  split_ifs with hk
  · refine ⟨by rw [map_key_extend]; exact hl.nodup, ?_, ?_, ?_⟩
    · intro y hy
      obtain ⟨x, hx, rfl⟩ := List.mem_map.mp hy
      have hsrc := hl.src x hx
      split_ifs <;> exact hsrc
    · intro y hy
      obtain ⟨x, hx, rfl⟩ := List.mem_map.mp hy
      split_ifs with hxk
      · rw [hxk, h.apply_key]
      · rw [h.apply_of_ne e hxk]
        exact hl.dst x hx
    · intro k hnot
      rw [map_key_extend] at hnot
      have hne : k ≠ h.key := fun heq => hnot (heq ▸ hk)
      rw [h.apply_of_ne e hne]
      exact hl.rest k hnot
  · have hsrc : f h.key = some h.src := (hl.rest h.key hk).symm.trans hh
    have hne : ∀ x ∈ l, x.key ≠ h.key := fun x hx heq => hk (heq ▸ List.mem_map_of_mem hx)
    refine ⟨?_, ?_, ?_, ?_⟩
    · rw [List.map_append, List.map_singleton, ← List.concat_eq_append]
      exact hl.nodup.concat hk
    · intro x hx
      rcases List.mem_append.mp hx with hx | hx
      · exact hl.src x hx
      · rwa [List.mem_singleton.mp hx]
    · intro x hx
      rcases List.mem_append.mp hx with hx | hx
      · rw [h.apply_of_ne e (hne x hx)]
        exact hl.dst x hx
      · rw [List.mem_singleton.mp hx]
        exact h.apply_key e
    · intro k hnot
      rw [List.map_append, List.map_singleton, List.mem_append, List.mem_singleton, not_or] at hnot
      rw [h.apply_of_ne e hnot.2]
      exact hl.rest k hnot.1

theorem Net.foldl_merge {ok : Place κ ν → Hop κ ν → Prop} (hl : Net f e l)
    (hs_legal : Legal ok e hs) : Net f (Relocate.run e hs) (hs.foldl Relocate.merge l) := by
  induction hs generalizing e l with
  | nil => exact hl
  | cons h hs ih => exact ih (hl.merge hs_legal.1.src) hs_legal.2

theorem Net.filter [DecidableEq ν] (hl : Net f e l) : Net f e (l.filter fun h => h.src ≠ h.dst) := by
  refine ⟨hl.nodup.sublist (List.filter_sublist.map _), fun h hh => hl.src h (List.mem_of_mem_filter hh),
    fun h hh => hl.dst h (List.mem_of_mem_filter hh), fun k hk => ?_⟩
  by_cases hin : k ∈ l.map Hop.key
  · obtain ⟨h, hh, rfl⟩ := List.mem_map.mp hin
    have hsame : h.src = h.dst := by
      by_contra hne
      exact hk (List.mem_map_of_mem (List.mem_filter.mpr ⟨hh, by simpa using hne⟩))
    rw [hl.src h hh, hl.dst h hh, hsame]
  · exact hl.rest k hin

omit [DecidableEq κ] in
theorem Net.nil (f : Place κ ν) : Net f f [] :=
  ⟨List.nodup_nil, fun _ h => absurd h List.not_mem_nil, fun _ h => absurd h List.not_mem_nil,
    fun _ _ => rfl⟩

/-- **What legal hops come to.** -/
theorem net_collapse [DecidableEq ν] {ok : Place κ ν → Hop κ ν → Prop}
    (hl : Legal ok f hs) : Net f (Relocate.run f hs) (collapse hs) :=
  ((Net.nil f).foldl_merge hl).filter

theorem leaves_of_mem_collapse [DecidableEq ν] (hh : h ∈ collapse hs) : h.src ≠ h.dst := by
  simpa using (List.mem_filter.mp hh).2

theorem run_of_not_mem {k : κ} (hk : k ∉ l.map Hop.key) : Relocate.run f l k = f k := by
  induction l generalizing f with
  | nil => rfl
  | cons h l ih =>
    rw [List.map_cons, List.mem_cons, not_or] at hk
    exact (ih hk.2).trans (h.apply_of_ne f hk.1)

/-- What is left when the first move of a list has been made. -/
theorem Net.tail (hl : Net f e (h :: l)) : Net (h.apply f) e l := by
  have hnodup := hl.nodup
  rw [List.map_cons, List.nodup_cons] at hnodup
  refine ⟨hnodup.2, fun x hx => ?_, fun x hx => hl.dst x (List.mem_cons_of_mem h hx), fun k hk => ?_⟩
  · have hne : x.key ≠ h.key := fun heq => hnodup.1 (heq ▸ List.mem_map_of_mem hx)
    rw [h.apply_of_ne f hne]
    exact hl.src x (List.mem_cons_of_mem h hx)
  · by_cases hkey : k = h.key
    · rw [hkey, h.apply_key]
      exact hl.dst h (.head _)
    · rw [h.apply_of_ne f hkey]
      exact hl.rest k (by simp [hkey, hk])

theorem Net.legal (hl : Net f e l) (hleaves : ∀ h ∈ l, h.src ≠ h.dst) :
    Legal (fun _ _ => True) f l := by
  induction l generalizing f with
  | nil => trivial
  | cons h l ih =>
    have hmay : h.May (fun _ _ => True) f :=
      ⟨hl.src h (.head _), hleaves h (.head _), trivial⟩
    exact ⟨hmay, ih hl.tail fun x hx => hleaves x (List.mem_cons_of_mem h hx)⟩

theorem run_of_mem (hl : (l.map Hop.key).Nodup) (hh : h ∈ l) :
    Relocate.run f l h.key = some h.dst := by
  induction l generalizing f with
  | nil => cases hh
  | cons x l ih =>
    rw [List.map_cons, List.nodup_cons] at hl
    rcases List.mem_cons.mp hh with rfl | hh
    · exact (run_of_not_mem hl.1).trans (h.apply_key f)
    · exact ih hl.2 hh

/-- After the first moves of a list, what moved is where it ends, and the rest where it began. -/
theorem Net.run_left {l' : List (Hop κ ν)} (hl : Net f e (l ++ l')) (k : κ) :
    Relocate.run f l k = if k ∈ l.map Hop.key then e k else f k := by
  split_ifs with hk
  · obtain ⟨h, hh, rfl⟩ := List.mem_map.mp hk
    have hnodup : (l.map Hop.key).Nodup :=
      hl.nodup.sublist ((List.sublist_append_left l l').map _)
    rw [run_of_mem hnodup hh, hl.dst h (List.mem_append_left l' hh)]
  · exact run_of_not_mem hk

/-- The moves of a list lead from the first place to the last. -/
theorem Net.run (hl : Net f e l) : Relocate.run f l = e := by
  funext k
  have hall : Net f e (l ++ []) := by rwa [List.append_nil]
  rw [hall.run_left]
  split_ifs with hk
  · rfl
  · exact (hl.rest k hk).symm

end

/-! ## The order of the merged moves -/

theorem map_key_merge (acc : List (Hop κ ν)) (h : Hop κ ν) : (merge acc h).map Hop.key =
    if h.key ∈ acc.map Hop.key then acc.map Hop.key else acc.map Hop.key ++ [h.key] := by
  unfold merge
  split_ifs with hk
  · exact map_key_extend acc h.key h.dst
  · simp

/-- The keys of `acc` stand in the order in which they first occur in `seen`. -/
structure FirstSeen (seen : List κ) (acc : List κ) : Prop where
  mem : ∀ k, k ∈ acc ↔ k ∈ seen
  order : acc.Pairwise fun a b => seen.idxOf a < seen.idxOf b

theorem FirstSeen.concat {seen acc : List κ} (h : FirstSeen seen acc) (k : κ) :
    FirstSeen (seen ++ [k]) (if k ∈ acc then acc else acc ++ [k]) := by
  have hidx : ∀ a ∈ acc, (seen ++ [k]).idxOf a = seen.idxOf a := fun a ha =>
    List.idxOf_append_of_mem ((h.mem a).mp ha)
  have hold : acc.Pairwise fun a b => (seen ++ [k]).idxOf a < (seen ++ [k]).idxOf b := by
    refine h.order.imp_of_mem fun ha hb hab => ?_
    rwa [hidx _ ha, hidx _ hb]
  split_ifs with hk
  · refine ⟨fun a => ?_, hold⟩
    have hseen := (h.mem k).mp hk
    rw [h.mem, List.mem_append, List.mem_singleton]
    exact ⟨.inl, fun ha => ha.elim id fun heq => heq ▸ hseen⟩
  · refine ⟨fun a => by simp [h.mem], List.pairwise_append.mpr ⟨hold, List.pairwise_singleton .., ?_⟩⟩
    intro a ha b hb
    obtain rfl := List.mem_singleton.mp hb
    have hnew : b ∉ seen := fun hb => hk ((h.mem b).mpr hb)
    rw [hidx a ha, List.idxOf_append_of_notMem hnew]
    have hlt := List.idxOf_lt_length_of_mem ((h.mem a).mp ha)
    omega

theorem firstSeen_foldl (hs : List (Hop κ ν)) {seen : List κ} {acc : List (Hop κ ν)}
    (h : FirstSeen seen (acc.map Hop.key)) :
    FirstSeen (seen ++ hs.map Hop.key) ((hs.foldl merge acc).map Hop.key) := by
  induction hs generalizing seen acc with
  | nil => simpa using h
  | cons x hs ih =>
    have hx := h.concat x.key
    rw [← map_key_merge] at hx
    have hrest := ih hx
    rwa [List.append_assoc] at hrest

/-- **First-appearance order.** -/
theorem collapse_order [DecidableEq ν] (hs : List (Hop κ ν)) :
    ((collapse hs).map Hop.key).Pairwise fun a b =>
      (hs.map Hop.key).idxOf a < (hs.map Hop.key).idxOf b := by
  have hnil : FirstSeen ([] : List κ) (([] : List (Hop κ ν)).map Hop.key) :=
    ⟨fun _ => .rfl, List.Pairwise.nil⟩
  have hmerged := (firstSeen_foldl hs hnil).order
  exact hmerged.sublist (List.filter_sublist.map _)

end Relocate
