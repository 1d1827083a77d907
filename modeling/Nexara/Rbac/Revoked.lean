import Nexara.Rbac.Engine

/-!
# A revoked grant stops working

A check that misses the cache reads the grants and then stores what it read. When a change and its
invalidation fall between the two, the old grants are stored after the invalidation, and every check
answers by them until the entry expires (`revoked_grant_kept`). `Current` are the runs in which no
check stores such a set.
-/

namespace Nexara.Rbac

open Conc Protocol System

/-! ## What a history says of versions -/

def wrote (k : ℕ) : engine.Log → ℕ
  | [] => 0
  | ⟨j, _, .writeGrants _, _, w⟩ :: log => if j = k then w.version + 1 else wrote k log
  | _ :: log => wrote k log

def loadedAt (i : ℕ) : engine.Log → ℕ
  | [] => 0
  | ⟨j, _, .getUserScopedPermissions _, _, w⟩ :: log => if j = i then w.version else loadedAt i log
  | _ :: log => loadedAt i log

/-- The latest change of those whose invalidation of the user has gone by. -/
def settled (user : ℕ) : engine.Log → ℕ
  | [] => 0
  | ⟨k, _, .redisDel user', true, _⟩ :: log =>
    if user' = user then max (settled user log) (wrote k log) else settled user log
  | _ :: log => settled user log

/-- What was settled for the user when party `i`'s check of them started. -/
def asked (i user : ℕ) : engine.Log → ℕ
  | [] => 0
  | ⟨j, _, .redisGet user', _, _⟩ :: log =>
    if j = i ∧ user' = user then settled user log else asked i user log
  | _ :: log => asked i user log

/-- No check stores a set it read before a change whose invalidation has gone by. -/
def Current : engine.Cond := fun log i _ e _ _ =>
  match e with
  | .redisSet user _ => settled user log ≤ loadedAt i log
  | _ => true

theorem settled_le_cons (user : ℕ) (en : engine.Entry) (log : engine.Log) :
    settled user log ≤ settled user (en :: log) := by
  rw [settled.eq_def user (en :: log)]
  grind

theorem settled_le_append (user : ℕ) (new log : engine.Log) :
    settled user log ≤ settled user (new ++ log) := by
  induction new with
  | nil => exact Nat.le_refl _
  | cons en new ih => exact Nat.le_trans ih (settled_le_cons user en _)

variable {r : Role} {i : ℕ}

theorem wrote_le_settled {user k : ℕ} {w : World} {older : engine.Log} :
    wrote k older ≤ settled user (⟨k, r, .redisDel user, true, w⟩ :: older) := by
  show wrote k older ≤ if user = user then max _ _ else _
  rw [if_pos rfl]
  exact Nat.le_max_right _ _

theorem settled_le_asked {user : ℕ} {a : Option (List ScopedPermission)} {w : World}
    {log : engine.Log} (mid : engine.Log) :
    settled user log ≤ asked i user (mid ++ ⟨i, r, .redisGet user, a, w⟩ :: log) := by
  induction mid with
  | nil =>
    exact Nat.le_of_eq (if_pos ⟨rfl, rfl⟩).symm
  | cons en mid ih =>
    have hmid := settled_le_append user mid (⟨i, r, .redisGet user, a, w⟩ :: log)
    have hget := settled_le_cons user ⟨i, r, .redisGet user, a, w⟩ log
    rw [asked.eq_def]
    grind

/-! ## What a party remembers -/

inductive Phase where
  | start
  | missed (user : ℕ)
  /-- A set found in the cache. -/
  | cached (user : ℕ) (perms : List ScopedPermission)
  /-- A set read from the database. -/
  | loaded (user : ℕ) (perms : List ScopedPermission)
  | ended

def Phase.next (l : Phase) : (e : Stmt) → e.Ans → Phase
  | .redisGet user, some perms => .cached user perms
  | .redisGet user, none => .missed user
  | .getUserScopedPermissions user, some perms => .loaded user perms
  | .getUserScopedPermissions _, none => .ended
  | .redisSet .., _ | .redisDel _, _ | .writeGrants _, _ | .answer .., _ | .expire _, _ => l

def checks : Protocol engine where
  Loc := Phase
  init := .start
  next _ := Phase.next
  may
    | .check user _, l, e => match e with
      | .redisGet user' => l = .start ∧ user' = user
      | .getUserScopedPermissions user' => l = .missed user'
      | .redisSet user' perms => l = .loaded user' perms
      | .answer user' q' holds => ∃ perms, (l = .cached user' perms ∨ l = .loaded user' perms) ∧
          holds = permits perms q'
      | _ => False
    | .change .., l, e => l = .start ∧
        ((∃ grants, e = .writeGrants grants) ∨ ∃ user, e = .redisDel user)
    | .expire _, l, e => l = .start ∧ ∃ user, e = .expire user

theorem checks_followed : checks.Followed fun _ => True := by
  intro r
  cases r with
  | check user q =>
    simp [code, hasPermission, loadUserPermissions, call, checks, Phase.next, Option.forall]
  | change grants users =>
    have heach : ∀ us : List ℕ, checks.Follows (.change grants users)
        (Prog.each invalidateUser us) (fun _ _ => True) Phase.start := by
      intro us
      induction us with
      | nil => trivial
      | cons user us ih => exact follows_stmt ⟨rfl, .inr ⟨user, rfl⟩⟩ fun _ => ih
    exact follows_stmt ⟨rfl, .inl ⟨grants, rfl⟩⟩ fun _ => heach users
  | expire user => exact ⟨⟨rfl, user, rfl⟩, fun _ => trivial⟩

/-! ## The invariant -/

/-- The set is what a state of the grants no older than `v₀` gave the user. -/
def World.Since (w : World) (user v₀ : ℕ) (perms : List ScopedPermission) : Prop :=
  ∃ v, v₀ ≤ v ∧ v ≤ w.version ∧ perms = w.grants v user

/-- Every answer given was one of such a state. -/
def Answered (w : World) : engine.Log → Prop
  | [] => True
  | en :: log =>
    (∀ user q holds, en.stmt = .answer user q holds →
      ∃ perms, w.Since user (asked en.party user log) perms ∧ holds = permits perms q) ∧
    Answered w log

/-- What a party holds, and what it is asked. -/
def Phase.Holds (log : engine.Log) (w : World) (i : ℕ) : Phase → Prop
  | .cached user perms => w.Since user (asked i user log) perms
  | .loaded user perms => asked i user log ≤ loadedAt i log ∧ loadedAt i log ≤ w.version ∧
      perms = w.grants (loadedAt i log) user
  | _ => True

structure Inv (log : engine.Log) (w : World) : Prop where
  wrote : ∀ k, wrote k log ≤ w.version
  settled : ∀ user, settled user log ≤ w.version
  asked : ∀ i user, asked i user log ≤ w.version
  cache : ∀ user perms, w.cache user = some perms → w.Since user (Rbac.settled user log) perms
  holds : ∀ i, (checks.loc i log : Phase).Holds log w i
  answered : Answered w log

/-- Later states keep what the grants were before. -/
structure World.Grows (w w' : World) : Prop where
  version : w.version ≤ w'.version
  grants : ∀ v, v ≤ w.version → w'.grants v = w.grants v

theorem World.grows_of_eq {w w' : World} (hversion : w'.version = w.version)
    (hgrants : w'.grants = w.grants) : w.Grows w' where
  version := Nat.le_of_eq hversion.symm
  grants v _ := by rw [hgrants]

variable {log : engine.Log} {w w' : World}

theorem World.Since.grows {user v₀ : ℕ} {perms : List ScopedPermission}
    (h : w.Since user v₀ perms) (hw : w.Grows w') : w'.Since user v₀ perms := by
  obtain ⟨v, hv₀, hv, rfl⟩ := h
  exact ⟨v, hv₀, Nat.le_trans hv hw.version, by rw [hw.grants v hv]⟩

theorem Answered.grows (h : Answered w log) (hw : w.Grows w') : Answered w' log := by
  induction log with
  | nil => trivial
  | cons en log ih =>
    refine ⟨fun user q holds he => ?_, ih h.2⟩
    obtain ⟨perms, hsince, hholds⟩ := h.1 user q holds he
    exact ⟨perms, hsince.grows hw, hholds⟩

theorem Phase.Holds.grows {l : Phase} {log' : engine.Log} (h : l.Holds log w i)
    (hw : w.Grows w') (hasked : ∀ user, asked i user log' = asked i user log)
    (hloaded : loadedAt i log' = loadedAt i log) : l.Holds log' w' i := by
  cases l with
  | start | missed user | ended => trivial
  | cached user perms =>
    show w'.Since user (asked i user log') perms
    rw [hasked]
    exact World.Since.grows h hw
  | loaded user perms =>
    obtain ⟨hle, hversion, rfl⟩ := h
    show asked i user log' ≤ loadedAt i log' ∧ loadedAt i log' ≤ w'.version ∧
      w.grants (loadedAt i log) user = w'.grants (loadedAt i log') user
    rw [hasked, hloaded]
    exact ⟨hle, Nat.le_trans hversion hw.version, by rw [hw.grants _ hversion]⟩

section

variable {e : Stmt} {a : e.Ans} {log' : engine.Log} (hlog : log' = ⟨i, r, e, a, w⟩ :: log)
include hlog

theorem Inv.step (h : Inv log w) (hw : w.Grows w') (hwrote : ∀ k, Rbac.wrote k log' ≤ w'.version)
    (hsettled : ∀ user, Rbac.settled user log' ≤ w'.version)
    (hasked : ∀ k user, Rbac.asked k user log' ≤ w'.version)
    (hcache : ∀ user perms, w'.cache user = some perms → w'.Since user (Rbac.settled user log') perms)
    (hother : ∀ k, k ≠ i → (∀ user, Rbac.asked k user log' = Rbac.asked k user log) ∧
      loadedAt k log' = loadedAt k log)
    (hself : (Phase.next (checks.loc i log) e a).Holds log' w' i)
    (hanswer : ∀ user q holds, e = .answer user q holds →
      ∃ perms, w'.Since user (Rbac.asked i user log) perms ∧ holds = permits perms q) :
    Inv log' w' := by
  subst hlog
  refine ⟨hwrote, hsettled, hasked, hcache, ?_, hanswer, h.answered.grows hw⟩
  exact forall_loc (T := checks) hself
    fun k hk => (h.holds k).grows hw (hother k hk).1 (hother k hk).2

theorem Inv.quiet {cache : ℕ → Option _} (h : Inv log w)
    (hwrote : ∀ k, Rbac.wrote k log' = Rbac.wrote k log)
    (hsettled : ∀ user, Rbac.settled user log' ≤ w.version)
    (hasked : ∀ k user, Rbac.asked k user log' = Rbac.asked k user log)
    (hloaded : ∀ k, loadedAt k log' = loadedAt k log)
    (hcache : ∀ user perms, cache user = some perms → w.Since user (Rbac.settled user log') perms)
    (hnext : ∀ l : Phase, l.next e a = l) (hanswer : ∀ user q holds, e = .answer user q holds →
      ∃ perms, w.Since user (Rbac.asked i user log) perms ∧ holds = permits perms q) :
    Inv log' { w with cache := cache } := by
  have hw : w.Grows { w with cache := cache } := World.grows_of_eq rfl rfl
  refine h.step hlog hw (by simpa [hwrote] using h.wrote) hsettled (by simpa [hasked] using h.asked)
    hcache (fun k _ => ⟨hasked k, hloaded k⟩) ?_ hanswer
  rw [hnext (checks.loc i log)]
  exact (h.holds i).grows hw (hasked i) (hloaded i)

end

attribute [local simp] wrote settled asked loadedAt Phase.next Phase.Holds

theorem inv_step {e : Stmt} {o : e.Outcome} {a : e.Ans} (h : Inv log w)
    (hok : Current log i r e o w = true) (hmay : checks.may r (checks.loc i log) e)
    (hx : exec e o w = some (a, w')) : Inv (⟨i, r, e, a, w⟩ :: log) w' := by
  have hself := h.holds i
  have ⟨hwrote, hsettled, hasked, hcache, _, _⟩ := h
  cases e with
  | redisGet user =>
    obtain rfl : w' = w := by cases o <;> cases hx <;> rfl
    refine h.step rfl (World.grows_of_eq rfl rfl) hwrote hsettled ?_ hcache ?_ ?_ nofun
    · grind [asked]
    · grind [asked, loadedAt]
    · cases o <;> cases hx
      · trivial
      · cases hc : w'.cache user <;> simp [*]
  | getUserScopedPermissions user =>
    obtain rfl : w' = w := by cases o <;> cases hx <;> rfl
    refine h.step rfl (World.grows_of_eq rfl rfl) hwrote hsettled hasked hcache ?_ ?_ nofun
    · grind [asked, loadedAt]
    · cases o <;> cases hx <;> simp [*]
  | redisSet user perms =>
    cases o <;> cases hx <;>
      refine h.quiet rfl (by simp) hsettled (by simp) (by simp) ?_ (by simp) nofun
    · exact hcache
    · -- the set stored is the one the party read, and no change since has settled
      have hloaded : checks.loc i log = Phase.loaded user perms := by
        cases r <;> simp_all [checks]
      have hstored : w.Since user (settled user log) perms := by
        rw [hloaded] at hself
        exact ⟨loadedAt i log, of_decide_eq_true hok, hself.2.1, hself.2.2⟩
      grind [settled]
  | redisDel user =>
    cases o <;> cases hx <;> refine h.quiet rfl (by simp) ?_ (by simp) (by simp) ?_ (by simp) nofun
    · exact hsettled
    · exact hcache
    · grind [settled]
    · grind [settled]
  | writeGrants grants =>
    cases hx
    have hw : w.Grows { w with
        version := w.version + 1
        grants := Function.update w.grants (w.version + 1) grants } :=
      ⟨Nat.le_succ _, fun v hv => Function.update_of_ne (by omega) _ _⟩
    refine h.step rfl hw ?_ (fun u => Nat.le_succ_of_le (hsettled u))
      (fun k u => Nat.le_succ_of_le (hasked k u)) (fun u p hp => (hcache u p hp).grows hw)
      (by simp) (hself.grows hw (fun _ => rfl) rfl) nofun
    grind [wrote]
  | answer user q holds =>
    cases hx
    refine h.quiet rfl (by simp) hsettled (by simp) (by simp) hcache (by simp) ?_
    rintro _ _ _ ⟨⟩
    cases r with
    | check =>
      obtain ⟨perms, hl | hl, rfl⟩ := hmay <;> rw [hl] at hself
      · exact ⟨perms, hself, rfl⟩
      · exact ⟨perms, ⟨loadedAt i log, hself⟩, rfl⟩
    | _ => simp [checks] at hmay
  | expire user =>
    cases hx
    refine h.quiet rfl (by simp) hsettled (by simp) (by simp) ?_ (by simp) nofun
    grind [settled]

theorem inv_init (grants : Grants) : Inv [] { grants := fun _ => grants } where
  wrote _ := Nat.le_refl 0
  settled _ := Nat.le_refl 0
  asked _ _ := Nat.le_refl 0
  cache _ _ h := by cases h
  holds _ := trivial
  answered := trivial

/-! ## Runs -/

/-- If no check stores a set it read before a change whose invalidation has gone by, a check that
starts after an invalidation answers by grants no older than the change before it. -/
theorem revoked_grant_stops (grants : Grants) (pool : engine.Pool)
    (hrun : engine.Reach Current (Pool.idle { grants := fun _ => grants }) pool)
    (later mid old older : engine.Log) (i k user : ℕ) (q : Question) (holds : Bool)
    (r r' r'' : Role) (a : Option (List ScopedPermission)) (w w' w'' : World)
    (hlog : pool.log = later ++ ⟨i, r, .answer user q holds, (), w⟩ ::
      (mid ++ ⟨i, r', .redisGet user, a, w'⟩ ::
        (old ++ ⟨k, r'', .redisDel user, true, w''⟩ :: older))) :
    ∃ v, wrote k older ≤ v ∧ v ≤ pool.shared.version ∧
      holds = permits (pool.shared.grants v user) q := by
  have h : Inv pool.log pool.shared := 
    invariant checks_followed (inv_init grants) inv_step hrun
  have hanswered : ∀ (l : engine.Log) (log : engine.Log),
      Answered pool.shared (l ++ log) → Answered pool.shared log := by
    intro l log hl
    induction l with
    | nil => exact hl
    | cons en l ih => exact ih hl.2
  have hall := h.answered
  rw [hlog] at hall
  obtain ⟨perms, ⟨v, hv, hle, rfl⟩, hholds⟩ := (hanswered later _ hall).1 user q holds rfl
  refine ⟨v, ?_, hle, hholds⟩
  calc wrote k older
      ≤ settled user (⟨k, r'', .redisDel user, true, w''⟩ :: older) := wrote_le_settled
    _ ≤ settled user (old ++ ⟨k, r'', .redisDel user, true, w''⟩ :: older) :=
        settled_le_append user old _
    _ ≤ asked i user _ := settled_le_asked mid
    _ ≤ v := hv

/-! ## One user -/

def viewVMs : ScopedPermission where
  action := "view"
  resource := "vm"
  scopeType := "global"

def mayView : Question where
  action := "view"
  resource := "vm"
  scopeType := "global"
  scopeID := "00000000-0000-0000-0000-000000000000"

/-- User 0 may view VMs, until everything is revoked. -/
def granted : Grants := fun user => if user = 0 then [viewVMs] else []

def revoked : Grants := fun _ => []

def onePool : engine.Pool := Pool.idle { grants := fun _ => granted }

def succeeding : engine.Oracle
  | .redisGet _ | .getUserScopedPermissions _ | .redisSet .. | .redisDel _ => true
  | .writeGrants _ | .answer .. | .expire _ => ()

/-- A check, the revocation, and a check after it. -/
def checkedInTurn : List engine.Event :=
  .start (.check 0 mayView) :: List.replicate 4 (.step 0 succeeding) ++
    .start (.change revoked [0]) :: List.replicate 2 (.step 1 succeeding) ++
    .start (.check 0 mayView) :: List.replicate 4 (.step 2 succeeding)

def answers (log : engine.Log) : List Bool :=
  log.filterMap fun en => match en.stmt with
    | .answer _ _ holds => some holds
    | _ => none

/-- The check after the revocation starts after its invalidation, and answers by it. -/
theorem revoked_grant_stops_in_turn :
    ∃ pool, engine.Reach Current (Pool.idle { grants := fun _ => granted }) pool ∧
      answers pool.log = [false, true] ∧
      ∃ v, 1 ≤ v ∧ v ≤ pool.shared.version ∧ false = permits (pool.shared.grants v 0) mayView := by
  have hrun : onePool.run Current checkedInTurn = some _ := rfl
  have hreach := reach_of_run .init hrun
  exact ⟨_, hreach, rfl, revoked_grant_stops granted _ hreach [] [_, _] [] _ 2 1 0 mayView false
    _ _ _ _ _ _ _ rfl⟩

/-- A check reads the grants; they are revoked and the user invalidated; the check stores what it
read, and later checks answer by it. -/
theorem revoked_grant_kept :
    ∃ pool, engine.Reach Cond.any (Pool.idle { grants := fun _ => granted }) pool ∧
      ∃ (later older : engine.Log) (r r' r'' : Role)
        (a : Option (List ScopedPermission)) (w w' w'' : World) (old : engine.Log),
        pool.log = later ++ ⟨2, r, .answer 0 mayView true, (), w⟩ ::
          ([] ++ ⟨2, r', .redisGet 0, a, w'⟩ ::
            (old ++ ⟨1, r'', .redisDel 0, true, w''⟩ :: older)) ∧
        wrote 1 older = 1 ∧ pool.shared.version = 1 ∧
        permits (pool.shared.grants 1 0) mayView = false := by
  have hrun : onePool.run Cond.any
      (.start (.check 0 mayView) :: List.replicate 2 (.step 0 succeeding) ++
        .start (.change revoked [0]) :: List.replicate 2 (.step 1 succeeding) ++
        .step 0 succeeding ::
        .start (.check 0 mayView) :: List.replicate 2 (.step 2 succeeding)) = some _ := rfl
  exact ⟨_, reach_of_run .init hrun, [], _, _, _, _, _, _, _, _, [_], rfl, rfl, rfl, rfl⟩

end Nexara.Rbac
