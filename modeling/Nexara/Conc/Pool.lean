import Nexara.Conc.Prog

/-!
# Pools of interleaved parties

A system says what a state is, which roles a party can have, the code of each role, and what one
statement does, as a function of an outcome that the environment chooses; a statement with no effect
at an outcome is blocked there.

A pool is a state with the parties that run on it and the history of what they executed, which no
statement depends on. An event starts a party, or lets party `i` execute its next statement with the
outcomes the environment picks. `Reach` is reachability by runs all of whose steps satisfy a
condition.
-/

namespace Conc

/-- The parties' code, and what their statements do. -/
structure System where
  sig : Sig
  State : Type
  /-- What a party was started to do. -/
  Role : Type
  /-- The roles that can be started from outside; the others are only forked. -/
  entry : Role → Prop := fun _ => True
  code : Role → Prog sig Unit
  /-- How a statement can turn out. -/
  Outcome : sig.Stmt → Type
  /-- The effect of a statement issued by party `i`; `none` when it has to wait. -/
  exec : ℕ → Role → (e : sig.Stmt) → Outcome e → State → Option (sig.Ans e × State)
  /-- The parties a statement starts beside the one that issues it. -/
  forks : sig.Stmt → List Role := fun _ => []

namespace System

variable (M : System)

/-- A party: its role and what is left of its code. -/
abbrev Thread := M.Role × Prog M.sig Unit

/-- An executed statement: who issued it, what it answered, and the state it was issued in. -/
structure Entry where
  party : ℕ
  role : M.Role
  stmt : M.sig.Stmt
  ans : M.sig.Ans stmt
  before : M.State

/-- What was executed so far, the latest first. -/
abbrev Log := List M.Entry

/-- A state, what was executed so far, and the parties running. -/
structure Pool where
  shared : M.State
  log : M.Log
  threads : List M.Thread

/-- What the environment decides about the statement executed next, whichever it is. -/
abbrev Oracle := (e : M.sig.Stmt) → M.Outcome e

inductive Event where
  | start (r : M.Role)
  | step (i : ℕ) (ω : M.Oracle)

/-- A fresh party of role `r`. -/
def fresh (r : M.Role) : M.Thread := (r, M.code r)

variable {M}

def Pool.idle (s : M.State) : M.Pool := ⟨s, [], []⟩

def Pool.fork (c : M.Pool) (rs : List M.Role) : M.Pool :=
  { c with threads := c.threads ++ rs.map M.fresh }

/-- No party is in the middle of its code. -/
def Pool.quiet (c : M.Pool) : Bool := c.threads.all fun t => t.2.done

/-- Party `i`, of role `r`, has executed `e` and goes on as `p` in state `s`. -/
def Pool.advance (c : M.Pool) (i : ℕ) (r : M.Role) (e : M.sig.Stmt) (a : M.sig.Ans e)
    (p : Prog M.sig Unit) (s : M.State) : M.Pool :=
  ⟨s, ⟨i, r, e, a, c.shared⟩ :: c.log, c.threads.set i (r, p)⟩

/-- A condition on executed statements: after which history, who issues which statement, with which
outcome, in which state. It can be evaluated on a run. -/
abbrev Cond (M : System) :=
  M.Log → ℕ → M.Role → (e : M.sig.Stmt) → M.Outcome e → M.State → Bool

def Cond.any : Cond M := fun _ _ _ _ _ _ => true

def Pool.stepParty (ok : Cond M) (c : M.Pool) (i : ℕ) (ω : M.Oracle) : Option M.Pool :=
  match c.threads[i]? with
  | some (r, .call e k) =>
    if ok c.log i r e (ω e) c.shared then
      (M.exec i r e (ω e) c.shared).map fun x => (c.advance i r e x.1 (k x.1) x.2).fork (M.forks e)
    else none
  | _ => none

def Pool.next [DecidablePred M.entry] (ok : Cond M) (c : M.Pool) : M.Event → Option M.Pool
  | .start r => if M.entry r then some (c.fork [r]) else none
  | .step i ω => c.stepParty ok i ω

def Pool.run [DecidablePred M.entry] (ok : Cond M) (c : M.Pool) : List M.Event → Option M.Pool
  | [] => some c
  | ev :: evs => (c.next ok ev).bind fun c' => c'.run ok evs

/-- The pools reached from `c₀` by runs in which every executed statement satisfies `ok`. -/
inductive Reach (ok : Cond M) (c₀ : M.Pool) : M.Pool → Prop
  | init : Reach ok c₀ c₀
  | start {c : M.Pool} {r : M.Role} (h : Reach ok c₀ c) (hr : M.entry r) : Reach ok c₀ (c.fork [r])
  | step {c : M.Pool} {i : ℕ} {r : M.Role} {e : M.sig.Stmt} {k : M.sig.Ans e → Prog M.sig Unit}
      {o : M.Outcome e} {a : M.sig.Ans e} {s : M.State} (h : Reach ok c₀ c)
      (ht : c.threads[i]? = some (r, .call e k)) (hok : ok c.log i r e o c.shared = true)
      (hx : M.exec i r e o c.shared = some (a, s)) :
      Reach ok c₀ ((c.advance i r e a (k a) s).fork (M.forks e))

variable {ok : Cond M}

theorem Reach.trans {c₀ c c' : M.Pool} (hc : Reach ok c₀ c) (hc' : Reach ok c c') :
    Reach ok c₀ c' := by
  induction hc' with
  | init => exact hc
  | start _ hr ih => exact .start ih hr
  | step _ ht hok hx ih => exact .step ih ht hok hx

theorem Reach.mono {ok' : Cond M} {c c' : M.Pool}
    (h : ∀ {log i r e o s}, ok log i r e o s = true → ok' log i r e o s = true)
    (hc : Reach ok c c') : Reach ok' c c' := by
  induction hc with
  | init => exact .init
  | start _ hr ih => exact .start ih hr
  | step _ ht hok hx ih => exact .step ih ht (h hok) hx

/-- A run that changes the state leaves the state it started from in the history. -/
theorem Reach.shared_eq_or_mem {c c' : M.Pool} (h : Reach ok c c') :
    c'.shared = c.shared ∨ ∃ en ∈ c'.log, en.before = c.shared := by
  induction h with
  | init => exact .inl rfl
  | start _ _ ih => exact ih
  | step _ _ _ _ ih =>
    right
    rcases ih with heq | ⟨en, hmem, heq⟩
    · exact ⟨_, List.mem_cons_self, heq⟩
    · exact ⟨en, List.mem_cons_of_mem _ hmem, heq⟩

section

variable [DecidablePred M.entry]

theorem next_reach {c₀ c c' : M.Pool} {ev : M.Event} (hc : Reach ok c₀ c)
    (h : c.next ok ev = some c') : Reach ok c₀ c' := by
  cases ev with
  | start r =>
    replace h : (if M.entry r then some (c.fork [r]) else none) = some c' := h
    split_ifs at h with hr
    cases h
    exact .start hc hr
  | step i ω =>
    replace h : c.stepParty ok i ω = some c' := h
    unfold Pool.stepParty at h
    split at h
    · next r e k ht =>
      split_ifs at h with hok
      obtain ⟨⟨a, s⟩, hx, rfl⟩ := Option.map_eq_some_iff.mp h
      exact .step hc ht hok hx
    · cases h

theorem reach_of_run {c₀ : M.Pool} :
    ∀ {evs : List M.Event} {c c' : M.Pool}, Reach ok c₀ c → c.run ok evs = some c' → Reach ok c₀ c'
  | [], c, c', hc, h => by cases h; exact hc
  | ev :: evs, c, c', hc, h => by
    unfold Pool.run at h
    cases hn : c.next ok ev with
    | none => rw [hn] at h; cases h
    | some d => rw [hn] at h; exact reach_of_run (next_reach hc hn) h

/-- A list of events that ends in a pool with a decidable property reaches such a pool. -/
theorem exists_reach (ok : Cond M) (s : M.State) (evs : List M.Event) (P : M.Pool → Prop)
    [DecidablePred P] (h : ((Pool.idle s).run ok evs).any (decide <| P ·) = true) :
    ∃ c, Reach ok (Pool.idle s) c ∧ P c := by
  cases hrun : (Pool.idle s).run ok evs with
  | none => rw [hrun] at h; cases h
  | some c => rw [hrun] at h; exact ⟨c, reach_of_run .init hrun, of_decide_eq_true h⟩

/-- The same for a second list of events that goes on from there. -/
theorem exists_reach_reach (ok : Cond M) (s : M.State) (evs evs' : List M.Event)
    (P : M.Pool → M.Pool → Prop) [∀ c c', Decidable (P c c')]
    (h : (((Pool.idle s).run ok evs).any fun c => (c.run ok evs').any (decide <| P c ·)) = true) :
    ∃ c c', Reach ok (Pool.idle s) c ∧ Reach ok c c' ∧ P c c' := by
  obtain ⟨c, hc, hrun⟩ := exists_reach ok s evs
    (fun c => (c.run ok evs').any (decide <| P c ·) = true) (by simpa using h)
  cases hrun' : c.run ok evs' with
  | none => rw [hrun'] at hrun; cases hrun
  | some c' =>
    rw [hrun'] at hrun
    exact ⟨c, c', hc, reach_of_run .init hrun', of_decide_eq_true hrun⟩

end

end System

end Conc
