import Nexara.Drs.Rules

/-!
# Placements with distinct guests

When no two guests have the same id, a guest is on at most one node, and `findVMNode` finds it
whatever the order in which the map is ranged over (`place_eq_some`). Taking a guest out of one node's
list and putting it into another's moves it there and leaves every other guest alone (`Relocated`).
-/

namespace Nexara.Drs

open Relocate

variable {N F : Type} [DecidableEq N]

def Workload.withNode (n : N) (w : Workload N F) : Workload N F := { w with node := n }

namespace NodeWorkloads

variable {m : NodeWorkloads N F} {n : N} {l : List (Workload N F)} {w : Workload N F}

section

variable (m : NodeWorkloads N F)

@[simp] theorem on_set_self (n : N) (l : List (Workload N F)) : (m.set n l).on n = l := by
  simp [on, set]

theorem on_set_of_ne (l : List (Workload N F)) {n n' : N} (h : n' ≠ n) :
    (m.set n l).on n' = m.on n' := by
  simp [on, set, AList.lookup_insert_ne h]

@[simp] theorem set_set (n : N) (l l' : List (Workload N F)) :
    (m.set n l).set n l' = m.set n l' := AList.insert_insert m

end

theorem mem_guests : w ∈ m.guests ↔ ∃ n, w ∈ m.on n := by
  unfold guests
  rw [List.mem_flatMap]
  constructor
  · rintro ⟨⟨n, l⟩, he, hw⟩
    refine ⟨n, ?_⟩
    have hl : m.lookup n = some l := AList.mem_lookup_iff.mpr he
    simpa [on, hl] using hw
  · rintro ⟨n, hw⟩
    cases hl : m.lookup n with
    | none => simp [on, hl] at hw
    | some l =>
      refine ⟨⟨n, l⟩, AList.mem_lookup_iff.mp hl, ?_⟩
      simpa [on, hl] using hw

theorem guests_perm (m : NodeWorkloads N F) (n : N) :
    m.guests.Perm (m.on n ++ (guests (m.erase n))) := by
  by_cases hn : n ∈ m.keys
  · obtain ⟨l, l₁, l₂, -, hsplit, herase⟩ := List.exists_of_kerase hn
    have hl : m.lookup n = some l := by
      refine AList.mem_lookup_iff.mpr ?_
      rw [hsplit]
      simp
    have herase : (m.erase n).entries = l₁ ++ l₂ := herase
    simp only [guests, on, hl, herase, hsplit, List.flatMap_append,
      List.flatMap_cons]
    rw [← List.append_assoc, ← List.append_assoc]
    exact List.perm_append_comm.append_right _
  · have hl : m.lookup n = none := AList.lookup_eq_none.mpr hn
    have herase : (m.erase n).entries = m.entries := List.kerase_of_notMem_keys hn
    simp [guests, on, hl, herase]

theorem guests_take (h : (m.on n).Perm (w :: l)) : m.guests.Perm (w :: (m.set n l).guests) :=
  (m.guests_perm n).trans (h.append_right _)

theorem guests_put (h : l.Perm (w :: m.on n)) : (m.set n l).guests.Perm (w :: m.guests) :=
  (h.append_right _).trans ((m.guests_perm n).symm.cons w)

theorem guests_set_perm (hl : l.Perm (m.on n)) : (m.set n l).guests.Perm m.guests :=
  (hl.append_right _).trans (m.guests_perm n).symm

/-! ## Distinct guests -/

omit [DecidableEq N] in
def Distinct (m : NodeWorkloads N F) : Prop := (m.guests.map Workload.vmid).Nodup

variable {n' : N} {w' : Workload N F}

theorem Distinct.same_node (hd : m.Distinct) (hw : w ∈ m.on n) (hw' : w' ∈ m.on n')
    (hv : w.vmid = w'.vmid) : n = n' := by
  by_contra hne
  have hnodup := ((m.guests_perm n).map Workload.vmid).nodup_iff.mp hd
  rw [List.map_append] at hnodup
  have helse : w' ∈ guests (m.erase n) := by
    refine mem_guests.mpr ⟨n', ?_⟩
    simpa [on, AList.lookup_erase_ne (Ne.symm hne)] using hw'
  exact List.disjoint_of_nodup_append hnodup (List.mem_map_of_mem hw)
    (hv ▸ List.mem_map_of_mem helse)

/-- What ranging over the map finds, if the guests sought are on one node only: the order does not
matter. -/
theorem find?_entries_eq_some {p : Workload N F → Bool}
    (hone : ∀ w n w' n', w ∈ m.on n → w' ∈ m.on n' → p w = true → p w' = true → n = n') :
    (m.entries.find? fun e => e.2.any p).map (·.1) = some n ↔ ∃ w ∈ m.on n, p w = true := by
  have hfound : ∀ n, (m.entries.find? fun e => e.2.any p).map (·.1) = some n →
      ∃ w ∈ m.on n, p w = true := by
    intro n hn
    obtain ⟨⟨n', l⟩, hfind, rfl⟩ := Option.map_eq_some_iff.mp hn
    have hl : m.lookup n' = some l := AList.mem_lookup_iff.mpr (List.mem_of_find?_eq_some hfind)
    simpa [on, hl] using List.find?_some hfind
  refine ⟨hfound n, ?_⟩
  rintro ⟨w, hw, hp⟩
  cases hplace : (m.entries.find? fun e => e.2.any p).map (·.1) with
  | none =>
    exfalso
    obtain ⟨⟨n', l⟩, he, hwl⟩ := List.mem_flatMap.mp (mem_guests.mpr ⟨n, hw⟩)
    have hnone := List.find?_eq_none.mp (Option.map_eq_none_iff.mp hplace) _ he
    exact hnone (List.any_eq_true.mpr ⟨w, hwl, hp⟩)
  | some n' =>
    obtain ⟨w', hw', hp'⟩ := hfound n' hplace
    rw [hone w n w' n' hw hw' hp hp']

section

variable (hd : m.Distinct)

include hd

theorem place_eq_some {v : ℤ} : place m v = some n ↔ ∃ w ∈ m.on n, w.vmid = v := by
  have hfind := find?_entries_eq_some (n := n) (p := fun w => decide (w.vmid = v))
    fun w n w' n' hw hw' hv hv' => hd.same_node hw hw' (by simp_all)
  simpa [place, findVMNode] using hfind

theorem place_of_mem (hw : w ∈ m.on n) : place m w.vmid = some n :=
  (place_eq_some hd).mpr ⟨w, hw, rfl⟩

theorem place_eq_update {m' : NodeWorkloads N F} {t : N} (hd' : m'.Distinct) (hw : w ∈ m'.on t)
    (hsame : ∀ x n, x.vmid ≠ w.vmid → (x ∈ m'.on n ↔ x ∈ m.on n)) :
    place m' = Function.update (place m) w.vmid (some t) := by
  funext v
  by_cases hv : v = w.vmid
  · rw [hv, Function.update_self]
    exact place_of_mem hd' hw
  · rw [Function.update_of_ne hv]
    refine Option.ext fun n => ?_
    have hiff : (∃ x ∈ m'.on n, x.vmid = v) ↔ ∃ x ∈ m.on n, x.vmid = v := by
      constructor
      · rintro ⟨x, hx, rfl⟩
        exact ⟨x, (hsame x n hv).mp hx, rfl⟩
      · rintro ⟨x, hx, rfl⟩
        exact ⟨x, (hsame x n hv).mpr hx, rfl⟩
    exact (place_eq_some hd').trans (hiff.trans (place_eq_some hd).symm)

theorem place_set_perm (hl : l.Perm (m.on n)) : place (m.set n l) = place m := by
  have hd' : (m.set n l).Distinct := ((guests_set_perm hl).map Workload.vmid).nodup_iff.mpr hd
  funext v
  refine Option.ext fun n' => ?_
  have hiff : (∃ x ∈ (m.set n l).on n', x.vmid = v) ↔ ∃ x ∈ m.on n', x.vmid = v := by
    by_cases hn : n' = n
    · subst hn
      simp only [on_set_self, hl.mem_iff]
    · rw [on_set_of_ne _ _ hn]
  exact (place_eq_some hd').trans (hiff.trans (place_eq_some hd).symm)

end

/-! ## Moving a guest -/

/-- The guest `w` is on the node `t` in `m'`, and everything else is as in `m`. -/
structure Relocated (w : Workload N F) (t : N) (m m' : NodeWorkloads N F) : Prop where
  rest : ∃ l, m.guests.Perm (w :: l) ∧ m'.guests.Perm (w.withNode t :: l)
  place : place m' = Function.update (place m) w.vmid (some t)

variable {m' : NodeWorkloads N F} {s t : N}

omit [DecidableEq N] in
/-- Nothing is lost or duplicated, apart from the node noted in each guest. -/
theorem Relocated.guests (h : Relocated w t m m') (x : N) :
    (m'.guests.map (Workload.withNode x)).Perm (m.guests.map (Workload.withNode x)) := by
  obtain ⟨l, hm, hm'⟩ := h.rest
  exact (hm'.map _).trans (hm.map (Workload.withNode x)).symm

omit [DecidableEq N] in
theorem distinct_of_rest (hm : m.guests.Perm (w :: l))
    (hm' : m'.guests.Perm (w.withNode t :: l)) (hd : m.Distinct) : m'.Distinct := by
  have hids : (m'.guests.map Workload.vmid).Perm (m.guests.map Workload.vmid) :=
    (hm'.map Workload.vmid).trans (hm.map Workload.vmid).symm
  exact hids.nodup_iff.mpr hd

omit [DecidableEq N] in
theorem Relocated.distinct (h : Relocated w t m m') (hd : m.Distinct) : m'.Distinct := by
  obtain ⟨l, hm, hm'⟩ := h.rest
  exact distinct_of_rest hm hm' hd

theorem relocated_move (hd : m.Distinct) (hst : s ≠ t) (hl : (m.on s).Perm (w :: l)) :
    Relocated w t m ((m.set s l).set t ((m.set s l).on t ++ [w.withNode t])) := by
  have htaken : m.guests.Perm (w :: (m.set s l).guests) := guests_take hl
  have hput : ((m.set s l).set t ((m.set s l).on t ++ [w.withNode t])).guests.Perm
      (w.withNode t :: (m.set s l).guests) := guests_put List.perm_append_comm
  refine ⟨⟨_, htaken, hput⟩, place_eq_update (w := w.withNode t) hd
    (distinct_of_rest htaken hput hd) (by simp) fun x n hx => ?_⟩
  have hne : x ≠ w := by rintro rfl; exact hx rfl
  have hne' : x ≠ w.withNode t := by rintro rfl; exact hx rfl
  by_cases hnt : n = t
  · subst hnt
    rw [on_set_of_ne m l hst.symm]
    simp [hne']
  · rw [on_set_of_ne _ _ hnt]
    by_cases hns : n = s
    · subst hns
      rw [on_set_self, hl.mem_iff, List.mem_cons, or_iff_right hne]
    · rw [on_set_of_ne _ _ hns]

theorem relocated_back (hd : m.Distinct) (hst : s ≠ t) (hl : (m.on s).Perm (w :: l))
    {l' : List (Workload N F)} (hl' : l'.Perm (w.withNode s :: l)) :
    Relocated w s m (((m.set s l).set t ((m.set s l).on t)).set s l') := by
  have htaken : m.guests.Perm (w :: (m.set s l).guests) := guests_take hl
  have hback : ((m.set s l).set t ((m.set s l).on t)).guests.Perm (m.set s l).guests :=
    ((m.set s l).guests_perm t).symm
  have hsource : ((m.set s l).set t ((m.set s l).on t)).on s = l := by
    rw [on_set_of_ne _ _ hst, on_set_self]
  have hput : (((m.set s l).set t ((m.set s l).on t)).set s l').guests.Perm
      (w.withNode s :: (m.set s l).guests) :=
    (guests_put (hsource.symm ▸ hl')).trans (hback.cons _)
  refine ⟨⟨_, htaken, hput⟩, place_eq_update (w := w.withNode s) hd
    (distinct_of_rest htaken hput hd) (by simp [hl'.mem_iff]) fun x n hx => ?_⟩
  have hne : x ≠ w := by rintro rfl; exact hx rfl
  have hne' : x ≠ w.withNode s := by rintro rfl; exact hx rfl
  by_cases hns : n = s
  · subst hns
    rw [on_set_self, hl.mem_iff, hl'.mem_iff, List.mem_cons, List.mem_cons, or_iff_right hne,
      or_iff_right hne']
  · rw [on_set_of_ne _ _ hns]
    by_cases hnt : n = t
    · subst hnt
      rw [on_set_self, on_set_of_ne _ _ hns]
    · rw [on_set_of_ne _ _ hnt, on_set_of_ne _ _ hns]

end NodeWorkloads

end Nexara.Drs
