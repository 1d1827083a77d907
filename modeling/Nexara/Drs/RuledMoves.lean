import Nexara.Drs.Rules

/-!
# Moves that the rules allow

Guests move one at a time, and each move is allowed by every rule when it is made (`Permits`), so a
rule that is kept stays kept (`holds_run`). If the moves of each guest are then merged, a move may
come earlier than it did. Pin and affinity rules have nothing against that, but an anti-affinity
partner that had already left may still be there (`permits_collapse_iff`).
-/

namespace Nexara.Drs

open Relocate

variable {N : Type}

def Permits (rules : List (Rule N)) (f : Place ℤ N) (h : Hop ℤ N) : Prop :=
  ∀ rule ∈ rules, Allows rule f h.key h.dst

section

variable {rules : List (Rule N)} {rule : Rule N} {f : Place ℤ N} {h : Hop ℤ N} {hs : List (Hop ℤ N)}

/-! ## What one move does to a rule -/

variable {v v' : ℤ}

theorem apply_of_not_mem (hk : h.key ∉ rule.vmids) (hv : v ∈ rule.vmids) : h.apply f v = f v :=
  h.apply_of_ne f fun heq => hk (heq ▸ hv)

section

variable {n : N} (ha : Allows rule f v n) (hv : v ∈ rule.vmids)
include ha hv

theorem allows_pin (ht : rule.type = .pin) (hn : rule.nodeNames ≠ []) : n ∈ rule.nodeNames := by
  unfold Allows at ha
  rw [ht] at ha
  exact ha hv hn

variable (hv' : v' ∈ rule.vmids) (hne : v' ≠ v)
include hv' hne

theorem allows_affinity (ht : rule.type = .affinity) {n' : N} (hn' : f v' = some n') : n' = n := by
  unfold Allows at ha
  rw [ht] at ha
  exact ha hv v' hv' hne n' hn'

theorem allows_antiAffinity (ht : rule.type = .antiAffinity) : f v' ≠ some n := by
  unfold Allows at ha
  rw [ht] at ha
  exact ha hv v' hv' hne

end

/-- A move of an affinity rule's guest leaves every guest of the rule on its target. -/
theorem on_target (ha : Allows rule f h.key h.dst) (hk : h.key ∈ rule.vmids)
    (ht : rule.type = .affinity) : ∀ v ∈ rule.vmids, ∀ n, h.apply f v = some n → n = h.dst := by
  intro v hv n hn
  by_cases hvk : v = h.key
  · rw [hvk, h.apply_key] at hn
    cases hn
    rfl
  · rw [h.apply_of_ne f hvk] at hn
    exact allows_affinity ha hk hv hvk ht hn

theorem holds_congr {f' : Place ℤ N} (hsame : ∀ v ∈ rule.vmids, f' v = f v) (hf : Holds rule f) :
    Holds rule f' := by
  unfold Holds at hf ⊢
  cases ht : rule.type with
  | pin =>
    rw [ht] at hf
    intro v hv n hn
    rw [hsame v hv] at hn
    exact hf v hv n hn
  | affinity =>
    rw [ht] at hf
    intro v hv v' hv' n n' hn hn'
    rw [hsame v hv] at hn
    rw [hsame v' hv'] at hn'
    exact hf v hv v' hv' n n' hn hn'
  | antiAffinity =>
    rw [ht] at hf
    refine hf.imp_of_mem fun {v v'} hv hv' hapart n hn hn' => ?_
    rw [hsame v hv] at hn
    rw [hsame v' hv'] at hn'
    exact hapart n hn hn'
  | unknown => trivial

variable (hrule : rule ∈ rules)
include hrule

theorem holds_apply (hmay : h.May (Permits rules) f) (hf : Holds rule f) :
    Holds rule (h.apply f) := by
  have hallow : Allows rule f h.key h.dst := hmay.ok rule hrule
  by_cases hk : h.key ∈ rule.vmids
  · unfold Holds at hf ⊢
    cases ht : rule.type with
    | pin =>
      rw [ht] at hf
      intro v hv n hn hnames
      by_cases hvk : v = h.key
      · rw [hvk, h.apply_key] at hn
        cases hn
        exact allows_pin hallow hk ht hnames
      · rw [h.apply_of_ne f hvk] at hn
        exact hf v hv n hn hnames
    | affinity =>
      have hon := on_target hallow hk ht
      intro v hv v' hv' n n' hn hn'
      rw [hon v hv n hn, hon v' hv' n' hn']
    | antiAffinity =>
      rw [ht] at hf
      refine hf.imp_of_mem fun {v v'} hv hv' hapart n hn hn' => ?_
      by_cases hvk : v = h.key
      · by_cases hvk' : v' = h.key
        · -- the guest is listed twice, and it is somewhere
          rw [hvk, hvk'] at hapart
          exact hapart h.src hmay.src hmay.src
        · rw [hvk, h.apply_key] at hn
          rw [h.apply_of_ne f hvk', ← hn] at hn'
          exact allows_antiAffinity hallow hk hv' hvk' ht hn'
      · rw [h.apply_of_ne f hvk] at hn
        by_cases hvk' : v' = h.key
        · rw [hvk', h.apply_key, ← hn] at hn'
          exact allows_antiAffinity hallow hk hv hvk ht hn'.symm
        · rw [h.apply_of_ne f hvk'] at hn'
          exact hapart n hn hn'
    | unknown => trivial
  · exact holds_congr (fun v hv => apply_of_not_mem hk hv) hf

variable (hl : Legal (Permits rules) f hs)
include hl

/-- **Rules that are kept stay kept.** -/
theorem holds_run (hf : Holds rule f) : Holds rule (run f hs) :=
  hl.keeps (fun _ _ hmay hf => holds_apply hrule hmay hf) hf

/-! ## Where moved guests end -/

variable (hv : v ∈ rule.vmids) (hv' : v' ∈ rule.vmids)
include hv

theorem pin_of_moved (ht : rule.type = .pin) (hmoved : v ∈ hs.map Hop.key)
    (hnames : rule.nodeNames ≠ []) : ∀ n, run f hs v = some n → n ∈ rule.nodeNames := by
  refine hl.after (P := fun f => ∀ n, f v = some n → n ∈ rule.nodeNames) ?_ ?_ hmoved
  · intro f h hmay hk n hn
    rw [← hk, h.apply_key] at hn
    cases hn
    exact allows_pin (hmay.ok rule hrule) (hk ▸ hv) ht hnames
  · intro f h hmay hf n hn
    by_cases hk : v = h.key
    · rw [hk, h.apply_key] at hn
      cases hn
      exact allows_pin (hmay.ok rule hrule) (hk ▸ hv) ht hnames
    · rw [h.apply_of_ne f hk] at hn
      exact hf n hn

include hv'

theorem apart_of_moved (ht : rule.type = .antiAffinity) (hne : v' ≠ v)
    (hmoved : v ∈ hs.map Hop.key) : ∀ n, run f hs v = some n → run f hs v' ≠ some n := by
  have hown : ∀ f (h : Hop ℤ N), h.May (Permits rules) f → h.key = v →
      ∀ n, h.apply f v = some n → h.apply f v' ≠ some n := by
    intro f h hmay hk n hn hn'
    rw [← hk, h.apply_key] at hn
    rw [h.apply_of_ne f (hk ▸ hne), ← hn] at hn'
    exact allows_antiAffinity (hmay.ok rule hrule) (hk ▸ hv) hv' (hk ▸ hne) ht hn'
  refine hl.after (P := fun f => ∀ n, f v = some n → f v' ≠ some n) hown ?_ hmoved
  intro f h hmay hf n hn hn'
  by_cases hk : h.key = v
  · exact hown f h hmay hk n hn hn'
  · rw [h.apply_of_ne f fun heq => hk heq.symm] at hn
    by_cases hk' : v' = h.key
    · rw [hk', h.apply_key, ← hn] at hn'
      exact allows_antiAffinity (hmay.ok rule hrule) (hk' ▸ hv') hv (fun heq => hk heq.symm) ht
        hn'.symm
    · rw [h.apply_of_ne f hk'] at hn'
      exact hf n hn hn'

/-- Two guests of an affinity rule are on the node `m`, and every other guest of it is too. -/
structure Together (rule : Rule N) (v v' : ℤ) (m : N) (f : Place ℤ N) : Prop where
  left : f v = some m
  right : f v' = some m
  all : ∀ x ∈ rule.vmids, ∀ n, f x = some n → n = m

omit hl in
/-- They do not move any more: any of them would have to join the others. -/
theorem Together.apply (ht : rule.type = .affinity) {m : N} (hne : v ≠ v')
    (hmay : h.May (Permits rules) f)
    (hf : Together rule v v' m f) : Together rule v v' m (h.apply f) := by
  have hk : h.key ∉ rule.vmids := by
    intro hk
    have hsrc : h.src = m := hf.all h.key hk h.src hmay.src
    have hdst : m = h.dst := by
      by_cases hkv : v = h.key
      · exact allows_affinity (hmay.ok rule hrule) hk hv' (fun heq => hne (hkv.trans heq.symm))
          ht hf.right
      · exact allows_affinity (hmay.ok rule hrule) hk hv hkv ht hf.left
    exact hmay.leaves (hsrc.trans hdst)
  refine ⟨?_, ?_, fun x hx n hn => ?_⟩
  · rw [apply_of_not_mem hk hv]
    exact hf.left
  · rw [apply_of_not_mem hk hv']
    exact hf.right
  · rw [apply_of_not_mem hk hx] at hn
    exact hf.all x hx n hn

theorem joined_of_moved (ht : rule.type = .affinity) (hne : v ≠ v') {s n : N} (hs₀ : f v = some s)
    (hn : f v' = some n)
    (hmoved : run f hs v ≠ some s) : run f hs v = some n ∧ run f hs v' = some n := by
  induction hs generalizing f with
  | nil => exact absurd hs₀ hmoved
  | cons h hs ih =>
    have hallow : Allows rule f h.key h.dst := hl.1.ok rule hrule
    by_cases hk : h.key ∈ rule.vmids
    · -- the guests meet on the target of this move, and stay there
      have hall := on_target hallow hk ht
      by_cases hvk : v = h.key
      · have hvk' : v' ≠ h.key := fun heq => hne (hvk.trans heq.symm)
        have hdst : n = h.dst := allows_affinity hallow hk hv' hvk' ht hn
        have htog : Together rule v v' n (h.apply f) :=
          ⟨by rw [hvk, h.apply_key, hdst], by rw [h.apply_of_ne f hvk', hn], hdst ▸ hall⟩
        have hend := Legal.keeps (fun _ _ hmay hf => hf.apply hrule hv hv' ht hne hmay) hl.2 htog
        exact ⟨hend.left, hend.right⟩
      · -- the other guest is the one that moved, or a third one is
        have hdst : s = h.dst := allows_affinity hallow hk hv hvk ht hs₀
        have htog : Together rule v h.key s (h.apply f) :=
          ⟨by rw [h.apply_of_ne f hvk, hs₀], by rw [h.apply_key, hdst], hdst ▸ hall⟩
        have hend := Legal.keeps (fun _ _ hmay hf => hf.apply hrule hv hk ht hvk hmay) hl.2 htog
        exact absurd hend.left hmoved
    · refine ih hl.2 ?_ ?_ hmoved
      · rw [apply_of_not_mem hk hv, hs₀]
      · rw [apply_of_not_mem hk hv', hn]

/-! ## Merged moves -/

omit hv hv'
variable [DecidableEq N] (hh : h ∈ collapse hs)
include hh

omit hrule in
theorem moved_of_mem_collapse : h.key ∈ hs.map Hop.key := by
  by_contra hnot
  have hnet := net_collapse hl
  have hsame := (hnet.dst h hh).symm.trans ((run_of_not_mem hnot).trans (hnet.src h hh))
  exact leaves_of_mem_collapse hh (Option.some.inj hsame).symm

theorem allows_collapse_pin (ht : rule.type = .pin) (f' : Place ℤ N) :
    Allows rule f' h.key h.dst := by
  intro hv
  rw [ht]
  intro hnames
  exact pin_of_moved hrule hl hv ht (moved_of_mem_collapse hl hh) hnames h.dst
    ((net_collapse hl).dst h hh)

theorem allows_collapse_affinity (ht : rule.type = .affinity) {f' : Place ℤ N}
    (hf' : ∀ v, f' v = run f hs v ∨ f' v = f v) : Allows rule f' h.key h.dst := by
  have hnet := net_collapse hl
  intro hv
  rw [ht]
  intro v' hv' hne n hn
  have hmoved : run f hs h.key ≠ some h.src := by
    rw [hnet.dst h hh]
    exact fun heq => leaves_of_mem_collapse hh (Option.some.inj heq).symm
  have hjoined : ∀ m, f v' = some m → run f hs h.key = some m ∧ run f hs v' = some m := by
    intro m hm
    exact joined_of_moved hrule hl hv hv' ht hne.symm (hnet.src h hh) hm hmoved
  cases hm : f v' with
  | none =>
    -- a guest that is nowhere does not move
    have hnowhere : run f hs v' = none := by
      refine (Legal.keeps (P := fun f => f v' = none) ?_ hl hm)
      intro f h hmay hf
      have hk : v' ≠ h.key := by
        rintro rfl
        exact Option.some_ne_none _ (hmay.src.symm.trans hf)
      rw [h.apply_of_ne f hk, hf]
    rcases hf' v' with hend | hbegin
    · exact absurd (hn.symm.trans (hend.trans hnowhere)) (by simp)
    · exact absurd (hn.symm.trans (hbegin.trans hm)) (by simp)
  | some m =>
    obtain ⟨hkey, hend'⟩ := hjoined m hm
    have hdst : m = h.dst := Option.some.inj (hkey.symm.trans (hnet.dst h hh))
    rcases hf' v' with hend | hbegin
    · exact (Option.some.inj (hn.symm.trans (hend.trans hend'))).trans hdst
    · exact (Option.some.inj (hn.symm.trans (hbegin.trans hm))).trans hdst

omit hrule hh in
/-- **When merged moves are allowed.** Each is in its turn if and only if no guest that ends where
an anti-affinity partner began has hopped before the partner first did. -/
theorem permits_collapse_iff :
    (∀ pre h post, collapse hs = pre ++ h :: post → Permits rules (run f pre) h) ↔
      ∀ rule ∈ rules, rule.type = .antiAffinity → ∀ v ∈ rule.vmids, ∀ v' ∈ rule.vmids,
        run f hs v = f v' → f v ≠ f v' →
          (hs.map Hop.key).idxOf v' ≤ (hs.map Hop.key).idxOf v := by
  have hnet := net_collapse hl
  constructor
  · intro hall rule hrule ht v hv v' hv' hend hne
    have hmoved : v ∈ (collapse hs).map Hop.key := by
      by_contra hnot
      exact hne ((hnet.rest v hnot).symm.trans hend)
    obtain ⟨h, hh, rfl⟩ := List.mem_map.mp hmoved
    obtain ⟨pre, post, hsplit⟩ := List.append_of_mem hh
    by_contra hlater
    -- the partner has not moved yet
    have hpre : v' ∉ pre.map Hop.key := fun hin => by
      have horder := collapse_order hs
      rw [hsplit, List.map_append, List.pairwise_append] at horder
      exact hlater (Nat.le_of_lt (horder.2.2 v' hin h.key (.head _)))
    have hthere : run f pre v' = some h.dst := by
      rw [Net.run_left (hsplit ▸ hnet), if_neg hpre, ← hend, hnet.dst h hh]
    exact allows_antiAffinity (hall pre h post hsplit rule hrule) hv hv' (fun heq => hne (heq ▸ rfl)) ht
      hthere
  · intro hcond pre h post hsplit rule hrule
    have hmem : h ∈ collapse hs := by simp [hsplit]
    have hwhere : ∀ v, run f pre v = run f hs v ∨ run f pre v = f v := by
      intro v
      rw [Net.run_left (hsplit ▸ hnet)]
      split_ifs
      · exact .inl rfl
      · exact .inr rfl
    cases ht : rule.type with
    | pin => exact allows_collapse_pin hrule hl hmem ht _
    | affinity => exact allows_collapse_affinity hrule hl hmem ht hwhere
    | unknown =>
      intro _
      rw [ht]
      trivial
    | antiAffinity =>
      intro hk
      rw [ht]
      intro v hv hne hthere
      have hapart := apart_of_moved hrule hl hk hv ht hne (moved_of_mem_collapse hl hmem) h.dst
        (hnet.dst h hmem)
      rw [Net.run_left (hsplit ▸ hnet)] at hthere
      split_ifs at hthere with hpre
      · exact hapart hthere
      · -- it is still where it began; had it moved before, it would not be
        have hfirst := hcond rule hrule ht h.key hk v hv ((hnet.dst h hmem).trans hthere.symm) (by
          rw [hnet.src h hmem, hthere]
          exact fun heq => leaves_of_mem_collapse hmem (Option.some.inj heq))
        have hpost : v ∉ post.map Hop.key := fun hin => by
          have horder := collapse_order hs
          rw [hsplit, List.map_append, List.pairwise_append, List.map_cons, List.pairwise_cons] at horder
          exact absurd (horder.2.1.1 v hin) (by omega)
        have hnot : v ∉ (collapse hs).map Hop.key := by
          simp only [hsplit, List.map_append, List.map_cons, List.mem_append, List.mem_cons, not_or]
          exact ⟨hpre, hne, hpost⟩
        exact hapart ((hnet.rest v hnot).trans hthere)

end

end Nexara.Drs
