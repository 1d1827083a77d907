import Nexara.Conc.Pool

/-!
# Protocols: what a party's own history lets it do

A protocol says what a party remembers of the statements it has issued and their answers (`Loc`,
`next`), and which statements it may issue then (`may`). Whether code follows a protocol (`Follows`)
depends on the code alone, any answer being allowed, and is proved along the code with one rule for
each way programs are put together.

In a run the memory of each party can be read off the history (`loc`). If all code follows the
protocol, an assertion about histories and states that is kept by every statement its party may
issue holds in every pool a run reaches (`invariant`).
-/

namespace Conc

/-- What a party remembers, and what it may do then. -/
structure Protocol (M : System) where
  Loc : Type
  init : Loc
  next : M.Role → Loc → (e : M.sig.Stmt) → M.sig.Ans e → Loc
  may : M.Role → Loc → M.sig.Stmt → Prop

namespace Protocol

variable {M : System} (T : Protocol M) {α β : Type} {r : M.Role}

/-- Run from memory `l`, the code only issues statements it may issue, and ends with `Q`. -/
@[simp] def Follows (r : M.Role) : Prog M.sig α → (α → T.Loc → Prop) → T.Loc → Prop
  | .pure a, Q, l => Q a l
  | .call e k, Q, l => T.may r l e ∧ ∀ a, Follows r (k a) Q (T.next r l e a)

/-- Code that follows the protocol from every memory with `A`, and ends with `A` again. -/
def Keeps (r : M.Role) (A : T.Loc → Prop) (p : Prog M.sig α) : Prop :=
  ∀ l, A l → T.Follows r p (fun _ => A) l

variable {T}

variable {p : Prog M.sig α} {c : M.Pool} {l : T.Loc} {ok : M.Cond} {f : α → Prog M.sig β}
  {I : M.Log → M.State → Prop} {s₀ : M.State} {Q : α → T.Loc → Prop}

theorem Follows.mono {Q' : α → T.Loc → Prop} (h : ∀ a l, Q a l → Q' a l) :
    ∀ {l : T.Loc}, T.Follows r p Q l → T.Follows r p Q' l := by
  induction p with
  | pure a => exact fun hp => h a _ hp
  | call e k ih => exact fun hp => ⟨hp.1, fun a => ih a (hp.2 a)⟩

/-- What every statement keeps stays true beside. -/
theorem Follows.frame {K : T.Loc → Prop} (hK : ∀ {l} e a, K l → K (T.next r l e a)) :
    ∀ {l : T.Loc}, T.Follows r p Q l → K l → T.Follows r p (fun a l' => Q a l' ∧ K l') l := by
  induction p with
  | pure a => exact fun hp hl => ⟨hp, hl⟩
  | call e k ih => exact fun hp hl => ⟨hp.1, fun a => ih a (hp.2 a) (hK e a hl)⟩

@[simp] theorem follows_bind {Q : β → T.Loc → Prop} :
    T.Follows r (p.bind f) Q l ↔ T.Follows r p (fun a l' => T.Follows r (f a) Q l') l := by
  induction p generalizing l with
  | pure a => rfl
  | call e k ih => exact and_congr_right fun _ => forall_congr' fun a => ih a

theorem Follows.bind {Q : β → T.Loc → Prop} :
    T.Follows r p (fun a => T.Follows r (f a) Q) l → T.Follows r (p >>= f) Q l := follows_bind.mpr

theorem Follows.seq {Q' : β → T.Loc → Prop} (h : T.Follows r p Q l)
    (hf : ∀ a l', Q a l' → T.Follows r (f a) Q' l') : T.Follows r (p >>= f) Q' l :=
  (h.mono hf).bind

theorem follows_stmt {e : M.sig.Stmt} {f : M.sig.Ans e → Prog M.sig β} {Q : β → T.Loc → Prop}
    (hmay : T.may r l e) (h : ∀ a, T.Follows r (f a) Q (T.next r l e a)) :
    T.Follows r (Prog.stmt e >>= f) Q l := ⟨hmay, h⟩

@[simp] theorem follows_ite {c : Prop} [Decidable c] {q : Prog M.sig α}
    : T.Follows r (@ite (no_index _) c _ p q) Q l ↔
      (c → T.Follows r p Q l) ∧ (¬c → T.Follows r q Q l) := by
  split_ifs with h <;> simp [h]

variable {A : T.Loc → Prop}

theorem keeps_pure (a : α) : T.Keeps r A (pure a : Prog M.sig α) := fun _ hl => hl

theorem keeps_stmt {e : M.sig.Stmt}
    (h : ∀ l, A l → T.may r l e ∧ ∀ a, A (T.next r l e a)) : T.Keeps r A (Prog.stmt e) :=
  fun l hl => ⟨(h l hl).1, fun a => (h l hl).2 a⟩

theorem Keeps.bind (hp : T.Keeps r A p) (hf : ∀ a, T.Keeps r A (f a)) : T.Keeps r A (p >>= f) :=
  fun l hl => (Follows.mono (fun a l' hl' => hf a l' hl') (hp l hl)).bind

theorem keeps_of_all {N : M.sig.Stmt → Prop}
    (hN : ∀ e, N e → ∀ l, A l → T.may r l e ∧ ∀ a, A (T.next r l e a))
    (hp : p.All N) : T.Keeps r A p := by
  induction p with
  | pure a => exact fun _ hl => hl
  | call e k ih =>
    intro l hl
    obtain ⟨hmay, hnext⟩ := hN e hp.1 l hl
    exact ⟨hmay, fun a => ih a (hp.2 a) _ (hnext a)⟩

/-! ## Memories in a history -/

variable (T) in
/-- What party `i` remembers after a history. -/
def loc (i : ℕ) : M.Log → T.Loc
  | [] => T.init
  | en :: log => if en.party = i then T.next en.role (loc i log) en.stmt en.ans else loc i log

theorem loc_self (i : ℕ) (r : M.Role) (e : M.sig.Stmt) (a : M.sig.Ans e) (s : M.State)
    (log : M.Log) : T.loc i (⟨i, r, e, a, s⟩ :: log) = T.next r (T.loc i log) e a :=
  if_pos rfl

theorem loc_ne {i j : ℕ} (h : j ≠ i) (r : M.Role) (e : M.sig.Stmt) (a : M.sig.Ans e) (s : M.State)
    (log : M.Log) : T.loc i (⟨j, r, e, a, s⟩ :: log) = T.loc i log :=
  if_neg h

theorem loc_cons_eq (i j : ℕ) (r : M.Role) (e : M.sig.Stmt) (a : M.sig.Ans e) (s : M.State)
    (log : M.Log) : T.loc j (⟨i, r, e, a, s⟩ :: log) =
      if i = j then T.next r (T.loc j log) e a else T.loc j log := rfl

/-- A party that remembers something is in the history. -/
theorem seen_of_loc {i : ℕ} {log : M.Log} (h : T.loc i log ≠ T.init) :
    ∃ en ∈ log, en.party = i := by
  induction log with
  | nil => exact absurd rfl h
  | cons en log ih =>
    by_cases hi : en.party = i
    · exact ⟨en, .head _, hi⟩
    · unfold loc at h
      rw [if_neg hi] at h
      obtain ⟨en', hen', hi'⟩ := ih h
      exact ⟨en', .tail _ hen', hi'⟩

section

variable {i : ℕ} {e : M.sig.Stmt} {a : M.sig.Ans e} {s : M.State} {log : M.Log}

/-- What holds of a party's memory after a step, by whether the step was its own. -/
theorem loc_cons {p : T.Loc → Prop} {k : ℕ} (hi : i = k → p (T.next r (T.loc k log) e a))
    (hk : i ≠ k → p (T.loc k log)) : p (T.loc k (⟨i, r, e, a, s⟩ :: log)) := by
  by_cases h : i = k
  · subst h
    rw [loc_self]
    exact hi rfl
  · rw [loc_ne h]
    exact hk h

/-- What holds of all memories holds of them after a step, if it does so for the party that took
it. -/
theorem forall_loc {p : ℕ → T.Loc → Prop} (hi : p i (T.next r (T.loc i log) e a))
    (hk : ∀ k, k ≠ i → p k (T.loc k log)) (k : ℕ) : p k (T.loc k (⟨i, r, e, a, s⟩ :: log)) :=
  loc_cons (fun h => by subst h; exact hi) fun h => hk k h.symm

/-- What holds of any two memories holds after a step, if it does for the party that took it and any
other. -/
theorem pairwise_loc {p : T.Loc → T.Loc → Prop} (hsymm : ∀ l l', p l l' → p l' l)
    (hi : ∀ k, k ≠ i → p (T.next r (T.loc i log) e a) (T.loc k log))
    (h : ∀ k k', k ≠ k' → p (T.loc k log) (T.loc k' log)) (k k' : ℕ) (hne : k ≠ k') :
    p (T.loc k (⟨i, r, e, a, s⟩ :: log)) (T.loc k' (⟨i, r, e, a, s⟩ :: log)) := by
  by_cases hk : i = k
  · subst hk
    rw [loc_self, loc_ne hne]
    exact hi k' hne.symm
  · rw [loc_ne hk]
    refine loc_cons (fun hk' => ?_) fun _ => h k k' hne
    subst hk'
    exact hsymm _ _ (hi k hne)

/-- What holds of some memory holds of some memory after a step, if the party that took it keeps
it. -/
theorem exists_loc (p : T.Loc → Prop) (hi : p (T.loc i log) → p (T.next r (T.loc i log) e a))
    (h : ∃ k, p (T.loc k log)) : ∃ k, p (T.loc k (⟨i, r, e, a, s⟩ :: log)) := by
  obtain ⟨k, hk⟩ := h
  refine ⟨k, loc_cons (fun h => ?_) fun _ => hk⟩
  subst h
  exact hi hk

end

/-! ## Runs -/

variable (T) in
/-- All code follows the protocol, and leaves a memory with `done` when it is over. -/
def Followed (done : T.Loc → Prop) : Prop :=
  ∀ r, T.Follows r (M.code r) (fun _ => done) T.init

variable (T) in
/-- What following the protocol means for a pool. -/
structure Holds (done : T.Loc → Prop) (c : M.Pool) : Prop where
  threads : ∀ i r p, c.threads[i]? = some (r, p) → T.Follows r p (fun _ => done) (T.loc i c.log)
  unborn : ∀ i, c.threads.length ≤ i → T.loc i c.log = T.init

variable {done : T.Loc → Prop}

theorem Holds.fork (hT : T.Followed done) (h : T.Holds done c) (rs : List M.Role) :
    T.Holds done (c.fork rs) := by
  refine ⟨fun j r p hj => ?_, fun j hj => h.unborn j ?_⟩
  · replace hj : (c.threads ++ rs.map M.fresh)[j]? = some (r, p) := hj
    rcases Nat.lt_or_ge j c.threads.length with hlt | hge
    · rw [List.getElem?_append_left hlt] at hj
      exact h.threads j r p hj
    · -- a party that was just started remembers nothing
      rw [List.getElem?_append_right hge] at hj
      obtain ⟨r', -, hr'⟩ := List.mem_map.mp (List.mem_of_getElem? hj)
      cases hr'
      show T.Follows r (M.code r) (fun _ => done) (T.loc j c.log)
      rw [h.unborn j hge]
      exact hT r
  · replace hj : (c.threads ++ rs.map M.fresh).length ≤ j := hj
    rw [List.length_append] at hj
    omega

theorem Holds.advance (h : T.Holds done c) {i : ℕ} {r : M.Role} {e : M.sig.Stmt}
    {k : M.sig.Ans e → Prog M.sig Unit} (ht : c.threads[i]? = some (r, .call e k))
    (a : M.sig.Ans e) (s : M.State) : T.Holds done (c.advance i r e a (k a) s) := by
  have hlt : i < c.threads.length := (List.getElem?_eq_some_iff.mp ht).1
  refine ⟨fun j r' p hj => ?_, fun j hj => ?_⟩
  · replace hj : (c.threads.set i (r, k a))[j]? = some (r', p) := hj
    show T.Follows r' p (fun _ => done) (T.loc j (⟨i, r, e, a, c.shared⟩ :: c.log))
    by_cases hij : i = j
    · subst hij
      rw [List.getElem?_set_self hlt] at hj
      cases hj
      rw [loc_self]
      exact (h.threads i r _ ht).2 a
    · rw [List.getElem?_set_ne hij] at hj
      rw [loc_ne hij]
      exact h.threads j r' p hj
  · replace hj : (c.threads.set i (r, k a)).length ≤ j := hj
    show T.loc j (⟨i, r, e, a, c.shared⟩ :: c.log) = T.init
    rw [List.length_set] at hj
    rw [loc_ne (show i ≠ j by omega)]
    exact h.unborn j hj

theorem holds_of_reach (hT : T.Followed done) {s : M.State}
    (hc : M.Reach ok (System.Pool.idle s) c) : T.Holds done c := by
  induction hc with
  | init => exact ⟨nofun, fun i _ => rfl⟩
  | start _ _ ih => exact ih.fork hT _
  | step _ ht _ _ ih => exact (ih.advance ht _ _).fork hT _

/-- When no party is in the middle of its code, every memory is one code ends with. -/
theorem Holds.quiet (h : T.Holds done c) (hq : c.quiet = true) (hinit : done T.init)
    (i : ℕ) : done (T.loc i c.log) := by
  cases ht : c.threads[i]? with
  | none =>
    rwa [h.unborn i (List.getElem?_eq_none_iff.mp ht)]
  | some t =>
    obtain ⟨r, p⟩ := t
    have hdone : p.done = true := List.all_eq_true.mp hq _ (List.mem_of_getElem? ht)
    cases p with
    | pure a => exact h.threads i r _ ht
    | call e k => cases hdone

/-- What holds in a pool stays true in later ones, if every statement its party may issue keeps it,
given what holds throughout the run. -/
theorem remains (hT : T.Followed done) {P : M.Log → M.State → Prop}
    (hI : ∀ {c : M.Pool}, M.Reach ok (System.Pool.idle s₀) c → I c.log c.shared)
    (hstep : ∀ {log i r e} {o : M.Outcome e} {a s s'}, I log s → I (⟨i, r, e, a, s⟩ :: log) s' →
      ok log i r e o s = true → T.may r (T.loc i log) e → M.exec i r e o s = some (a, s') →
      P log s → P (⟨i, r, e, a, s⟩ :: log) s')
    {c' : M.Pool} (hc : M.Reach ok (System.Pool.idle s₀) c) (hc' : M.Reach ok c c')
    (hP : P c.log c.shared) : P c'.log c'.shared := by
  induction hc' with
  | init => exact hP
  | start _ _ ih => exact ih
  | @step d i r e k o a s hreach ht hok hx ih =>
    have hd := hc.trans hreach
    exact hstep (hI hd) (hI (.step hd ht hok hx)) hok
      ((holds_of_reach hT hd).threads i r _ ht).1 hx ih

/-- **Invariants.** An assertion that holds at the start and is kept by every statement its party
may issue, under the condition on the run, holds in every pool the run reaches. -/
theorem invariant (hT : T.Followed done) (h₀ : I [] s₀)
    (hstep : ∀ {log i r e} {o : M.Outcome e} {a s s'}, I log s → ok log i r e o s = true →
      T.may r (T.loc i log) e → M.exec i r e o s = some (a, s') → I (⟨i, r, e, a, s⟩ :: log) s')
    (hc : M.Reach ok (System.Pool.idle s₀) c) : I c.log c.shared :=
  remains (I := fun _ _ => True) hT (fun _ => trivial)
    (fun _ _ hok hmay hx h => hstep h hok hmay hx) .init hc h₀

theorem follows_of_may (h : ∀ l e, T.may r l e) : ∀ l, T.Follows r p (fun _ _ => True) l := by
  induction p with
  | pure a => exact fun _ => trivial
  | call e k ih => exact fun l => ⟨h l e, fun a => ih a _⟩

end Protocol

end Conc
