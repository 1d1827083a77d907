import Nexara.Conc.Pool

/-!
# Parties that take turns

`Ends` runs a program to its end without interruption: the environment still picks the outcome of
every statement. `Turns` are the runs of a pool in which the parties do so one after another.
`Spec P p Q` says that whoever runs `p` alone from a history and a state with `P` ends with `Q`;
what all code keeps holds in every pool that is reached by turns (`Turns.keep`).
-/

namespace Conc

namespace System

variable {M : System} {α β : Type} {i : ℕ} {r : M.Role}

/-! ## Uninterrupted runs -/

section

variable {S : Sig} {Out : S.Stmt → Type} {State : Type}
  (exec : (e : S.Stmt) → Out e → State → S.Ans e × State) (ω : (e : S.Stmt) → Out e)

/-- A program run by itself on statements that never block, each with the outcome `ω` gives it. -/
def alone : Prog S α → State → α × State
  | .pure a, s => (a, s)
  | .call e k, s => alone (k (exec e (ω e) s).1) (exec e (ω e) s).2

theorem alone_bind (p : Prog S α) (f : α → Prog S β) (s : State) :
    alone exec ω (p >>= f) s = alone exec ω (f (alone exec ω p s).1) (alone exec ω p s).2 := by
  induction p generalizing s with
  | pure a => rfl
  | call e k ih => exact ih _ _

end

/-- Run by party `i` alone from a history and a state, the program returns this and leaves these. -/
inductive Ends (i : ℕ) (r : M.Role) :
    Prog M.sig α → M.Log → M.State → α → M.Log → M.State → Prop
  | pure {a : α} {log : M.Log} {s : M.State} : Ends i r (.pure a) log s a log s
  | call {e : M.sig.Stmt} {k : M.sig.Ans e → Prog M.sig α} {log log' : M.Log}
      {s s₁ s' : M.State} {o : M.Outcome e} {x : M.sig.Ans e} {a : α}
      (hx : M.exec i r e o s = some (x, s₁)) (h : Ends i r (k x) (⟨i, r, e, x, s⟩ :: log) s₁ a log' s') :
      Ends i r (.call e k) log s a log' s'

theorem ends_alone {exec : (e : M.sig.Stmt) → M.Outcome e → M.State → M.sig.Ans e × M.State}
    (hx : ∀ e o s, M.exec i r e o s = some (exec e o s)) (ω : M.Oracle) (p : Prog M.sig α) :
    ∀ log s, ∃ log', Ends i r p log s (alone exec ω p s).1 log' (alone exec ω p s).2 := by
  induction p with
  | pure a => exact fun log s => ⟨log, .pure⟩
  | call e k ih =>
    intro log s
    obtain ⟨log', h⟩ := ih _ (⟨i, r, e, _, s⟩ :: log) (exec e (ω e) s).2
    exact ⟨log', .call (hx e (ω e) s) h⟩

/-- The end of a run in which each statement has the outcome `ω` gives it. -/
def play (ω : M.Oracle) (i : ℕ) (r : M.Role) :
    Prog M.sig α → M.Log → M.State → Option (α × M.Log × M.State)
  | .pure a, log, s => some (a, log, s)
  | .call e k, log, s => (M.exec i r e (ω e) s).bind fun x =>
    play ω i r (k x.1) (⟨i, r, e, x.1, s⟩ :: log) x.2

theorem ends_of_play {ω : M.Oracle} {p : Prog M.sig α} : ∀ {log log' : M.Log}
    {s s' : M.State} {a : α}, play ω i r p log s = some (a, log', s') →
    Ends i r p log s a log' s' := by
  induction p with
  | pure a =>
    intro log log' s s' b h
    cases h
    exact .pure
  | call e k ih =>
    intro log log' s s' b h
    obtain ⟨⟨x, s₁⟩, hx, h⟩ := Option.bind_eq_some_iff.mp h
    exact .call hx (ih x h)

theorem Ends.of_bind {p : Prog M.sig α} {f : α → Prog M.sig β} :
    ∀ {log log' : M.Log} {s s' : M.State} {b : β}, Ends i r (p >>= f) log s b log' s' →
      ∃ a log₁ s₁, Ends i r p log s a log₁ s₁ ∧ Ends i r (f a) log₁ s₁ b log' s' := by
  induction p with
  | pure a => exact fun h => ⟨a, _, _, .pure, h⟩
  | call e k ih =>
    intro log log' s s' b h
    cases h with
    | call hx h =>
      obtain ⟨a, log₁, s₁, h₁, h₂⟩ := ih _ h
      exact ⟨a, log₁, s₁, .call hx h₁, h₂⟩

theorem Ends.of_pure {a b : α} {log log' : M.Log} {s s' : M.State}
    (h : Ends i r (Pure.pure a : Prog M.sig α) log s b log' s') : b = a ∧ log' = log ∧ s' = s := by
  cases h
  exact ⟨rfl, rfl, rfl⟩

theorem Ends.of_stmt {e : M.sig.Stmt} {a : M.sig.Ans e} {log log' : M.Log} {s s' : M.State}
    (h : Ends i r (Prog.stmt e) log s a log' s') :
    log' = ⟨i, r, e, a, s⟩ :: log ∧ ∃ o, M.exec i r e o s = some (a, s') := by
  cases h with
  | call hx h =>
    cases h
    exact ⟨rfl, _, hx⟩

/-- Only party `i` takes steps. -/
inductive Alone (i : ℕ) : M.Pool → M.Pool → Prop
  | refl (c : M.Pool) : Alone i c c
  | head {c c' : M.Pool} {r : M.Role} {e : M.sig.Stmt} {k : M.sig.Ans e → Prog M.sig Unit}
      {o : M.Outcome e} {a : M.sig.Ans e} {s : M.State} (ht : c.threads[i]? = some (r, .call e k))
      (hx : M.exec i r e o c.shared = some (a, s))
      (h : Alone i ((c.advance i r e a (k a) s).fork (M.forks e)) c') : Alone i c c'

theorem getElem?_advance {c : M.Pool} {e : M.sig.Stmt} {t : M.Thread} (ht : c.threads[i]? = some t)
    (a : M.sig.Ans e) (p : Prog M.sig Unit) (s : M.State) (rs : List M.Role) :
    ((c.advance i r e a p s).fork rs).threads[i]? = some (r, p) := by
  have hlt : i < (c.threads.set i (r, p)).length := by
    rw [List.length_set]
    exact (List.getElem?_eq_some_iff.mp ht).1
  show (c.threads.set i (r, p) ++ rs.map M.fresh)[i]? = _
  rw [List.getElem?_append_left hlt, List.getElem?_set_self (by simpa using hlt)]

/-- A party that gets to its end alone has run its program. -/
theorem Alone.ends {c c' : M.Pool} (h : Alone i c c') :
    ∀ {p : Prog M.sig Unit} {r' : M.Role} {u : Unit}, c.threads[i]? = some (r, p) →
      c'.threads[i]? = some (r', .pure u) → Ends i r p c.log c.shared () c'.log c'.shared := by
  induction h with
  | refl c =>
    intro p r' u hc hc'
    cases hc.symm.trans hc'
    exact .pure
  | head ht hx _ ih =>
    intro p r' u hc hc'
    cases hc.symm.trans ht
    exact .call hx (ih (getElem?_advance ht ..) hc')

/-- The runs in which every party that was started runs to its end before the next one does. -/
inductive Turns (c₀ : M.Pool) : M.Pool → Prop
  | init : Turns c₀ c₀
  | start {c : M.Pool} {r : M.Role} (h : Turns c₀ c) (hr : M.entry r) : Turns c₀ (c.fork [r])
  | turn {c c' : M.Pool} {i : ℕ} {r r' : M.Role} {u : Unit} (h : Turns c₀ c)
      (ht : c.threads[i]? = some (r, M.code r)) (ha : Alone i c c')
      (hend : c'.threads[i]? = some (r', .pure u)) : Turns c₀ c'

/-! ## Runs that are given by their outcomes -/

section

variable [DecidablePred M.entry]

theorem alone_of_run : ∀ {ωs : List M.Oracle} {c c' : M.Pool},
    c.run Cond.any (ωs.map (.step i)) = some c' → Alone i c c'
  | [], c, c', h => by cases h; exact .refl c
  | ω :: ωs, c, c', h => by
    obtain ⟨d, hd, h⟩ := Option.bind_eq_some_iff.mp h
    replace hd : c.stepParty Cond.any i ω = some d := hd
    unfold Pool.stepParty at hd
    split at hd
    · next r e k ht =>
      split_ifs at hd
      obtain ⟨⟨a, s⟩, hx, rfl⟩ := Option.map_eq_some_iff.mp hd
      exact .head ht hx (alone_of_run h)
    · cases hd

def Pool.turn (c : M.Pool) (r : M.Role) (ωs : List M.Oracle) : Option M.Pool :=
  (c.run Cond.any (.start r :: ωs.map (.step c.threads.length))).filter fun c' =>
    (c'.threads[c.threads.length]?).any (·.2.done)

theorem Turns.of_turn {c₀ c c' : M.Pool} {ωs : List M.Oracle} (h : Turns c₀ c)
    (hturn : c.turn r ωs = some c') : Turns c₀ c' := by
  obtain ⟨hrun, hdone⟩ := Option.filter_eq_some_iff.mp hturn
  obtain ⟨d, hd, hrun⟩ := Option.bind_eq_some_iff.mp hrun
  replace hd : (if M.entry r then some (c.fork [r]) else none) = some d := hd
  split_ifs at hd with hr
  cases hd
  have ht : (c.fork [r]).threads[c.threads.length]? = some (r, M.code r) :=
    List.getElem?_concat_length
  have hend : ∀ {t : Option M.Thread}, t.any (·.2.done) = true → ∃ r' u, t = some (r', .pure u) := by
    rintro (_ | ⟨r', _ | _⟩) h
    · cases h
    · exact ⟨r', _, rfl⟩
    · cases h
  obtain ⟨r', u, hend⟩ := hend hdone
  exact .turn (.start h hr) ht (alone_of_run hrun) hend

/-- Parties of the given roles, each with the outcomes given, take turns. -/
def Pool.turns : M.Pool → List (M.Role × List M.Oracle) → Option M.Pool
  | c, [] => some c
  | c, (r, ωs) :: rest => (c.turn r ωs).bind fun c' => c'.turns rest

theorem Turns.of_turns {c₀ : M.Pool} : ∀ {rs : List (M.Role × List M.Oracle)} {c c' : M.Pool},
    Turns c₀ c → c.turns rs = some c' → Turns c₀ c'
  | [], _, _, hc, h => by cases h; exact hc
  | (_, _) :: _, _, _, hc, h => by
    obtain ⟨d, hd, h⟩ := Option.bind_eq_some_iff.mp h
    exact of_turns (hc.of_turn hd) h

theorem exists_pool_of_turns (s : M.State) (rs : List (M.Role × List M.Oracle)) (P : M.Pool → Bool)
    (h : ((Pool.idle s).turns rs).any P = true) : ∃ c, Turns (Pool.idle s) c ∧ P c = true := by
  cases hc : (Pool.idle s).turns rs with
  | none => rw [hc] at h; cases h
  | some c => rw [hc] at h; exact ⟨c, .of_turns .init hc, h⟩

/-- Turns after which a program can be run to an end with a decidable property. -/
theorem exists_turns (s : M.State) (rs : List (M.Role × List M.Oracle)) (i : ℕ) (r : M.Role)
    (p : Prog M.sig α) (ω : M.Oracle) (P : M.Pool → α → M.Log → M.State → Bool)
    (h : (((Pool.idle s).turns rs).any fun c =>
      (play ω i r p c.log c.shared).any fun x => P c x.1 x.2.1 x.2.2) = true) :
    ∃ c a log' s', Turns (Pool.idle s) c ∧ Ends i r p c.log c.shared a log' s' ∧
      P c a log' s' = true := by
  cases hc : (Pool.idle s).turns rs with
  | none => rw [hc] at h; cases h
  | some c =>
    rw [hc] at h
    replace h : (play ω i r p c.log c.shared).any (fun x => P c x.1 x.2.1 x.2.2) = true := h
    cases hp : play ω i r p c.log c.shared with
    | none => rw [hp] at h; cases h
    | some x =>
      rw [hp] at h
      exact ⟨c, x.1, x.2.1, x.2.2, .of_turns .init hc, ends_of_play hp, h⟩

end

/-! ## Specifications -/

variable (M) in
/-- An assertion about a history and a state. -/
abbrev Assn := M.Log → M.State → Prop

/-- Whoever runs the program alone from `P`, with whatever outcomes, ends with `Q`. -/
def Spec (P : M.Assn) (p : Prog M.sig α) (Q : α → M.Assn) : Prop :=
  ∀ ⦃i r log s a log' s'⦄, Ends i r p log s a log' s' → P log s → Q a log' s'

namespace Spec

variable {P P' : M.Assn} {Q Q' : α → M.Assn} {R : β → M.Assn}

theorem pure {a : α} (h : ∀ log s, P log s → Q a log s) : Spec P (Pure.pure a : Prog M.sig α) Q := by
  intro i r log s b log' s' hend hP
  cases hend
  exact h log s hP

theorem seq {p : Prog M.sig α} {f : α → Prog M.sig β} (hp : Spec P p Q)
    (hf : ∀ a, Spec (Q a) (f a) R) : Spec P (p >>= f) R := by
  intro i r log s b log' s' hend hP
  obtain ⟨a, log₁, s₁, h₁, h₂⟩ := hend.of_bind
  exact hf a h₂ (hp h₁ hP)

theorem stmt {e : M.sig.Stmt} {Q : M.sig.Ans e → M.Assn}
    (h : ∀ i r (o : M.Outcome e) log s a s', P log s → M.exec i r e o s = some (a, s') →
      Q a (⟨i, r, e, a, s⟩ :: log) s') : Spec P (Prog.stmt e) Q := by
  intro i r log s a log' s' hend hP
  cases hend with
  | call hx hend =>
    cases hend
    exact h i r _ log s _ _ hP hx

theorem mono {p : Prog M.sig α} (h : Spec P p Q) (hP : ∀ log s, P' log s → P log s)
    (hQ : ∀ a log s, Q a log s → Q' a log s) : Spec P' p Q' := by
  intro i r log s a log' s' hend hpre
  exact hQ a log' s' (h hend (hP log s hpre))

theorem pre {p : Prog M.sig α} (h : Spec P p Q) (hP : ∀ log s, P' log s → P log s) : Spec P' p Q :=
  h.mono hP fun _ _ _ h => h

end Spec

/-- Code that keeps an assertion. -/
def Kept (P : M.Assn) (p : Prog M.sig α) : Prop := Spec P p fun _ => P

/-- What all code keeps holds in every pool that is reached by turns. -/
theorem Turns.keep {P : M.Assn} (hcode : ∀ r, Kept P (M.code r)) {c₀ c : M.Pool}
    (hc : Turns c₀ c) (h₀ : P c₀.log c₀.shared) : P c.log c.shared := by
  induction hc with
  | init => exact h₀
  | start _ _ ih => exact ih
  | turn _ ht ha hend ih => exact hcode _ (ha.ends ht hend) ih

end System

end Conc
