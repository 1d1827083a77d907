import Nexara.Sessions.Rotation

/-!
# Each token belongs to one session, and is exchanged once

A token that a version of a session carries was given to that session alone: whoever puts a token
into a session generated it and had not used it (`TokenInv.own`, `TokenInv.unique`). Since a
session's current token only moves on, of the refreshes that present one token at most one commits
its rotation (`TokenInv.exclusive`).
-/

namespace Nexara.Sessions

open Conc Protocol Txn

/-- The token a refresh was asked to exchange, and the one it answers with. -/
def exchange : Role → Stmt → Option (ℕ × ℕ)
  | .refresh (.value h), .respond a => a.refreshToken.map (h, ·)
  | _, _ => none

/-- Party `i` is a refresh that was presented `h` and answered with `new`. -/
def Exchanged (log : sessions.Log) (i h new : ℕ) : Prop :=
  ∃ en ∈ log, en.party = i ∧ exchange en.role en.stmt = some (h, new)
deriving Decidable

theorem exchange_eq_some {r : Role} {e : Stmt} {h new : ℕ} (hex : exchange r e = some (h, new)) :
    ∃ ans, r = .refresh (.value h) ∧ e = .respond ans ∧ ans.refreshToken = some new := by
  match r, e, hex with
  | .refresh (.value _), .respond ans, hex =>
    obtain ⟨new, hans, heq⟩ := Option.map_eq_some_iff.mp hex
    cases heq
    exact ⟨ans, rfl, rfl, hans⟩

/-- What the parties' memories and the history say about the sessions. -/
structure TokenInv (log : sessions.Log) (w : World) : Prop where
  sound : w.sessions.Sound Advanced
  grown : ∀ en ∈ log, en.before.sessions.Grown Advanced w.sessions
  lt : ∀ k h, Carried log w k h → h < w.nextToken
  unique : ∀ k l h, Carried log w k h → Carried log w l h → k = l
  previous : ∀ (k : ℕ) (x : Row Session) (v : Session) (p : ℕ), w.sessions[k]? = some x →
    x.Version v → v.previousTokenHash = some p → p < v.tokenHash
  own : ∀ i t, (Tokens.loc i log).token = some t → t < w.nextToken ∧ ∀ k, ¬ Carried log w k t
  apart : ∀ i j t, (Tokens.loc i log).token = some t → (Tokens.loc j log).token = some t → i = j
  found : ∀ i k h old, (Tokens.loc i log).found = some (k, h, old) → old = h ∧ Carried log w k h ∧
    ∀ t, (Tokens.loc i log).token = some t → h < t
  rotating : ∀ i, RotatingInv log w i (Tokens.loc i log)
  exclusive : ∀ i j k l h old old' new new', (Tokens.loc i log).stage = .committed new →
    (Tokens.loc j log).stage = .committed new' → (Tokens.loc i log).found = some (k, h, old) →
    (Tokens.loc j log).found = some (l, h, old') → i = j
  exchanged : ∀ i h new, Exchanged log i h new → (Tokens.loc i log).stage = .committed new ∧
    ∃ k, (Tokens.loc i log).found = some (k, h, h)

/-- A database at rest, whose tokens are older than the next one, each session's own, and older
where they were replaced. -/
structure World.Distinct (w : World) : Prop where
  quiet : w.Quiet
  lt : ∀ k h, w.Carries k h → h < w.nextToken
  unique : ∀ k l h, w.Carries k h → w.Carries l h → k = l
  previous : ∀ x ∈ w.sessions, ∀ p, x.committed.previousTokenHash = some p →
    p < x.committed.tokenHash

theorem carried_nil {w : World} {k h : ℕ} (hc : Carried [] w k h) : w.Carries k h := by
  rcases hc with hc | ⟨en, hmem, -⟩
  · exact hc
  · cases hmem

theorem TokenInv.init {w : World} (hw : w.Distinct) : TokenInv [] w where
  sound := by
    intro k x hx j a hp
    rw [hw.quiet.2 x (List.mem_of_getElem? hx)] at hp
    cases hp
  grown := fun _ hmem => (by cases hmem)
  lt := fun k h hc => hw.lt k h (carried_nil hc)
  unique := fun k l h hk hl => hw.unique k l h (carried_nil hk) (carried_nil hl)
  previous := by
    rintro k x v p hx (rfl | ⟨j, hj⟩) hp
    · exact hw.previous x (List.mem_of_getElem? hx) p hp
    · rw [hw.quiet.2 x (List.mem_of_getElem? hx)] at hj
      cases hj
  own := fun _ _ h => (by cases h)
  apart := fun _ _ _ h => (by cases h)
  found := fun _ _ _ _ h => (by cases h)
  rotating := fun _ => rotatingInv_of_idle rfl
  exclusive := fun _ _ _ _ _ _ _ _ _ h => (by cases h)
  exchanged := by simp [Exchanged]

section

variable {i : ℕ} {r : Role} {e : Stmt} {o : e.Outcome} {a : e.Ans} {w w' : World}
  {log : sessions.Log}

section

variable (h : TokenInv log w)

include h

theorem TokenInv.not_both {j k l t old old' new new' : ℕ}
    (hi : (Tokens.loc i log).stage = .rotated new) (hj : (Tokens.loc j log).stage = .committed new')
    (hfi : (Tokens.loc i log).found = some (k, t, old))
    (hfj : (Tokens.loc j log).found = some (l, t, old')) : False := by
  have hrot := h.rotating i
  have hcom := h.rotating j
  unfold RotatingInv at hrot hcom
  rw [hi] at hrot
  rw [hj] at hcom
  obtain ⟨k', t₁, hk', -, x, v, hx, -, -, hle, -⟩ := hrot
  obtain ⟨l', t₂, hl', -, y, hy, hlt⟩ := hcom
  rw [hfi] at hk'
  rw [hfj] at hl'
  cases hk'
  cases hl'
  -- both found the one session that carries the token
  obtain rfl := h.unique k l t (h.found i k t _ hfi).2.1 (h.found j l t _ hfj).2.1
  rw [hx] at hy
  cases hy
  omega

theorem TokenInv.rotate_lt (hmay : Held.May r (Tokens.loc i log) e) {k old new : ℕ} {role : String}
    (he : e = .db (.rotateSessionToken k old new role)) : old < new := by
  subst he
  obtain ⟨htoken, -, t, hf⟩ := hmay
  obtain ⟨rfl, -, hlt⟩ := h.found i k t old hf
  exact hlt new htoken

theorem TokenInv.fresh_of_stores (hmay : Held.May r (Tokens.loc i log) e) {k t : ℕ}
    (hs : stores w e = some (k, t)) : t < w.nextToken ∧ ∀ l, ¬ Carried log w l t :=
  h.own i t (token_of_stores hmay hs)

theorem TokenInv.generated_ne (hx : exec i e o w = some (a, w')) {j t : ℕ}
    (hgen : generated e a = some t) : (Tokens.loc j log).token ≠ some t := by
  intro hj
  have hlt := (h.own j t hj).1
  have heq := (generated_fresh hx hgen).1
  omega

end

section

variable (h : TokenInv log w) (hmay : Held.May r (Tokens.loc i log) e)
  (hx : exec i e o w = some (a, w'))

include h hmay hx

theorem TokenInv.advanced : w'.sessions.Sound Advanced ∧ w.sessions.Grown Advanced w'.sessions :=
  (exec_effect hx).advanced h.sound fun _ _ _ _ => h.rotate_lt hmay

variable {t j k : ℕ}

theorem TokenInv.step_previous {p : ℕ} {x' : Row Session} {v : Session}
    (hx' : w'.sessions[k]? = some x') (hv : x'.Version v) (hp : v.previousTokenHash = some p) :
    p < v.tokenHash := by
  rcases version_of_effect (exec_effect hx) hx' hv with ⟨x, s, hxk, hs, hvs⟩ |
    ⟨x, old, new, role, rfl, hxk, hseen, rfl⟩ | ⟨u, epoch, hash, ex, role, rfl, rfl, rfl⟩
  · rcases hvs with rfl | rfl
    · exact h.previous k x _ p hxk hs hp
    · exact h.previous k x s p hxk hs hp
  · cases hp
    rw [hseen]
    exact h.rotate_lt hmay rfl
  · cases hp

variable {log' : sessions.Log} (hlog : log' = ⟨i, r, e, a, w⟩ :: log)
include hlog

theorem TokenInv.step_unique {l : ℕ} (hk : Carried log' w' k t) (hl : Carried log' w' l t) :
    k = l := by
  subst hlog
  have he := exec_effect hx
  rcases carried_cons he hk with hk | hk <;> rcases carried_cons he hl with hl | hl
  · exact h.unique k l t hk hl
  · exact absurd hk ((h.fresh_of_stores hmay hl).2 k)
  · exact absurd hl ((h.fresh_of_stores hmay hk).2 l)
  · rw [hk] at hl
    cases hl
    rfl

theorem TokenInv.step_own (ht : (Tokens.loc j log').token = some t) :
    t < w'.nextToken ∧ ∀ k, ¬ Carried log' w' k t := by
  subst hlog
  have hnext := nextToken_le hx
  have he := exec_effect hx
  by_cases hij : i = j
  · subst hij
    rw [loc_self] at ht
    rcases token_next ht with hgen | ⟨ht, hs⟩
    · obtain ⟨rfl, hsucc⟩ := generated_fresh hx hgen
      refine ⟨by omega, fun k hc => ?_⟩
      rcases carried_cons he hc with hc | hs
      · have := h.lt k _ hc
        omega
      · have := (h.fresh_of_stores hmay hs).1
        omega
    · obtain ⟨hlt, hno⟩ := h.own i t ht
      refine ⟨by omega, fun k hc => ?_⟩
      rcases carried_cons he hc with hc | hst
      · exact hno k hc
      · rw [hs w] at hst
        cases hst
  · rw [loc_ne hij] at ht
    obtain ⟨hlt, hno⟩ := h.own j t ht
    refine ⟨by omega, fun k hc => ?_⟩
    rcases carried_cons he hc with hc | hst
    · exact hno k hc
    · exact hij (h.apart i j t (token_of_stores hmay hst) ht)

omit hmay in
theorem TokenInv.step_apart {l : ℕ} (hj : (Tokens.loc j log').token = some t)
    (hl : (Tokens.loc l log').token = some t) : j = l := by
  subst hlog
  by_contra hne
  refine pairwise_loc (T := Tokens) (p := fun m m' => m.token = some t → m'.token ≠ some t)
    (fun _ _ hp h' h => hp h h') (fun k hk hi hk' => ?_)
    (fun k k' hkk' h₁ h₂ => hkk' (h.apart k k' t h₁ h₂)) j l hne hj hl
  rcases token_next hi with hgen | ⟨hi, -⟩
  · exact h.generated_ne hx hgen hk'
  · exact hk (h.apart k i t hk' hi)

theorem TokenInv.step_found {old : ℕ} (hf : (Tokens.loc j log').found = some (k, t, old)) :
    old = t ∧ Carried log' w' k t ∧ ∀ t', (Tokens.loc j log').token = some t' → t < t' := by
  subst hlog
  by_cases hij : i = j
  · subst hij
    rw [loc_self] at hf ⊢
    rcases found_next hmay hf with ⟨hl, hfree⟩ | hf
    · obtain ⟨hold, hc⟩ := looked_carries hx hl
      refine ⟨hold, .cons (.inl hc), fun t' ht' => ?_⟩
      rw [hfree.1] at ht'
      cases ht'
    · obtain ⟨hold, hc, hlt⟩ := h.found i k t old hf
      refine ⟨hold, hc.cons, fun t' ht' => ?_⟩
      rcases token_next ht' with hgen | ⟨ht', -⟩
      · have heq := (generated_fresh hx hgen).1
        have hlt := h.lt k t hc
        omega
      · exact hlt t' ht'
  · rw [loc_ne hij] at hf ⊢
    obtain ⟨hold, hc, hlt⟩ := h.found j k t old hf
    exact ⟨hold, hc.cons, hlt⟩

theorem TokenInv.step_rotating (j : ℕ) : RotatingInv log' w' j (Tokens.loc j log') := by
  subst hlog
  have hg := (h.advanced hmay hx).2
  refine loc_cons (T := Tokens) (p := RotatingInv _ w' j) (fun hij => ?_) fun hij =>
    (h.rotating j).frame (exec_effect hx) hg (.inl (Ne.symm hij))
  subst hij
  refine (h.rotating i).step hmay h.sound hg (fun k t old hf => ?_) hx
  obtain ⟨hold, -, hlt⟩ := h.found i k t old hf
  exact ⟨hold, hlt⟩

omit hx in
theorem TokenInv.step_exclusive {l k' old old' new new' : ℕ}
    (hj : (Tokens.loc j log').stage = .committed new)
    (hl : (Tokens.loc l log').stage = .committed new')
    (hfj : (Tokens.loc j log').found = some (k, t, old))
    (hfl : (Tokens.loc l log').found = some (k', t, old')) : j = l := by
  subst hlog
  by_contra hne
  refine pairwise_loc (T := Tokens)
    (p := fun m m' => (∃ new k old, m.stage = .committed new ∧ m.found = some (k, t, old)) →
      ¬∃ new k old, m'.stage = .committed new ∧ m'.found = some (k, t, old))
    (fun _ _ hp h' h => hp h h') (fun q hq => ?_) (fun q q' hqq' => ?_) j l hne
    ⟨_, _, _, hj, hfj⟩ ⟨_, _, _, hl, hfl⟩
  · rintro ⟨_, _, _, hi, hfi⟩ ⟨_, _, _, hl, hfl⟩
    obtain ⟨hstage, hsame⟩ := committed_next hmay hi
    rw [hsame] at hfi
    rcases hstage with hstage | hstage
    · exact hq (h.exclusive q i _ _ t _ _ _ _ hl hstage hfl hfi)
    · exact h.not_both hstage hl hfi hfl
  · rintro ⟨_, _, _, hj, hfj⟩ ⟨_, _, _, hl, hfl⟩
    exact hqq' (h.exclusive q q' _ _ t _ _ _ _ hj hl hfj hfl)

omit hx in
theorem TokenInv.step_exchanged {new : ℕ} (hex : Exchanged log' j t new) :
    (Tokens.loc j log').stage = .committed new ∧ ∃ k, (Tokens.loc j log').found = some (k, t, t) := by
  subst hlog
  suffices hstage : (Tokens.loc j log).stage = .committed new ∧
      ∃ k, (Tokens.loc j log).found = some (k, t, t) by
    refine loc_cons (T := Tokens) (p := fun m => m.stage = .committed new ∧
      ∃ k, m.found = some (k, t, t)) (fun hij => ?_) fun _ => hstage
    obtain ⟨hstage', hsame⟩ := next_of_committed (hij ▸ hmay) hstage.1 (a := a)
    exact ⟨hstage', hsame ▸ hstage.2⟩
  rcases exists_cons hex with ⟨rfl, hnew⟩ | hex
  · -- a refresh that answers with a token has committed its rotation
    obtain ⟨ans, hr, he, hans⟩ := exchange_eq_some hnew
    have hmay' : Held.May r (Tokens.loc i log) (.respond ans) := he ▸ hmay
    obtain ⟨hstage, k, old, hf⟩ := hmay' t new hr hans
    obtain ⟨rfl, -, -⟩ := h.found i k t old hf
    exact ⟨hstage, k, hf⟩
  · exact h.exchanged j t new hex

omit hlog in
theorem TokenInv.step : TokenInv (⟨i, r, e, a, w⟩ :: log) w' where
  sound := (h.advanced hmay hx).1
  grown := by
    intro en hmem
    have hg := (h.advanced hmay hx).2
    rcases List.mem_cons.mp hmem with rfl | hmem
    · exact hg
    · exact (h.grown en hmem).trans Advanced.trans hg
  lt := by
    intro k t hc
    have hnext := nextToken_le hx
    rcases carried_cons (exec_effect hx) hc with hc | hs
    · have := h.lt k t hc
      omega
    · have := (h.fresh_of_stores hmay hs).1
      omega
  unique := fun _ _ _ => h.step_unique hmay hx rfl
  previous := fun _ _ _ _ => h.step_previous hmay hx
  own := fun _ _ => h.step_own hmay hx rfl
  apart := fun _ _ _ => h.step_apart hx rfl
  found := fun _ _ _ _ => h.step_found hmay hx rfl
  rotating := h.step_rotating hmay hx rfl
  exclusive := fun _ _ _ _ _ _ _ _ _ => h.step_exclusive hmay rfl
  exchanged := fun _ _ _ => h.step_exchanged hmay rfl

end

end

theorem tokenInv_of_reach {w : World} (hw : w.Distinct) {pool : sessions.Pool}
    (hrun : sessions.Reach System.Cond.any (System.Pool.idle w) pool) :
    TokenInv pool.log pool.shared :=
  invariant tokens_followed (.init hw) (fun h _ hmay hx => h.step hmay hx) hrun

end Nexara.Sessions
