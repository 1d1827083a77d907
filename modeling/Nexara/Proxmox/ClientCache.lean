import Nexara.Conc.Prog

/-!
# The cache of Proxmox clients

`ClientCache.Get` looks an entry up, and after a miss joins the build in flight for the cluster or
begins one: that looks again, reads the cluster's row, builds a client and stores it. An update
writes the row and then drops the entry. All of these are steps of their own, of any number of
callers. A row is named by the update that wrote it, and a client by its row.
-/

namespace Nexara.Proxmox

open Conc

namespace ClientCache

inductive Progress
  | looking
  | missed
  /-- It waits for the build in flight. -/
  | joined
  /-- No client where the build failed. -/
  | returned (client : Option ℕ)
  deriving DecidableEq

/-- A call of `Get`, and the latest update whose `PublishInvalidation` had returned before it. -/
structure Get where
  after : ℕ
  progress : Progress
  deriving DecidableEq

inductive Build
  | looking
  | reading
  | built (client : ℕ)
  | done (client : Option ℕ)

def Build.client : Build → Option ℕ
  | built client => some client
  | done client => client
  | _ => none

end ClientCache

open ClientCache

/-- What there is of one cluster: its row, its entry, the build in flight and the calls. -/
structure ClientCache where
  row : ℕ := 0
  entry : Option ℕ := none
  build : Option Build := none
  gets : List Get := []
  invalidated : ℕ := 0

namespace ClientCache

inductive Action
  | get
  | lookUp (i : ℕ)
  | join (i : ℕ)
  /-- The build in flight goes on; reading the row or building the client may fail. -/
  | build (fails : Bool)
  /-- The entry's time to live is over. -/
  | expire
  | updateRow
  | publishInvalidation (update : ℕ)

/-- The calls that it concerns come so far. -/
def advance (c : ClientCache) (concerned : ℕ → Get → Bool) (progress : Progress) : ClientCache :=
  { c with gets := c.gets.mapIdx fun i g =>
      if concerned i g then { g with progress := progress } else g }

/-- Call `i` goes on from where it is. -/
def moveOn (c : ClientCache) (i : ℕ) (old new : Progress) : Option ClientCache :=
  if (c.gets[i]?).any (·.progress = old) then some (c.advance (fun j _ => j = i) new) else none

/-- The build looks again, reads the row and builds, stores, and gives its callers the client. -/
def goOn (c : ClientCache) (fails : Bool) : Build → ClientCache
  | .looking => { c with build := some (c.entry.elim .reading fun client => .done (some client)) }
  | .reading => { c with build := some (if fails then .done none else .built c.row) }
  | .built client => { c with entry := some client, build := some (.done (some client)) }
  | .done client =>
    advance { c with build := none } (fun _ g => g.progress = .joined) (.returned client)

def step (c : ClientCache) : Action → Option ClientCache
  | .get => some { c with gets := c.gets ++ [⟨c.invalidated, .looking⟩] }
  | .lookUp i => c.moveOn i .looking (c.entry.elim .missed fun client => .returned (some client))
  | .join i => moveOn { c with build := some (c.build.getD .looking) } i .missed .joined
  | .build fails => c.build.map (c.goOn fails)
  | .expire => some { c with entry := none }
  | .updateRow => some { c with row := c.row + 1 }
  | .publishInvalidation update =>
    if update ≤ c.row then
      some { c with entry := none, invalidated := max c.invalidated update }
    else none

/-- No entry is dropped for an update while a build is in flight that read the row before it. -/
def carefully (c : ClientCache) (a : Action) : Option ClientCache :=
  match a with
  | .publishInvalidation update =>
    if (c.build.bind Build.client).all (update ≤ ·) then c.step a else none
  | _ => c.step a

/-! ## What is kept -/

structure Fresh (c : ClientCache) : Prop where
  row : c.invalidated ≤ c.row
  entry : ∀ client ∈ c.entry, c.invalidated ≤ client
  build : ∀ client ∈ c.build.bind Build.client, c.invalidated ≤ client
  after : ∀ g ∈ c.gets, g.after ≤ c.invalidated
  returned : ∀ g ∈ c.gets, ∀ client, g.progress = .returned (some client) → g.after ≤ client

variable {c c' : ClientCache} {a : Action}

theorem Fresh.advance (h : c.Fresh) (concerned : ℕ → Get → Bool) {progress : Progress}
    (hclient : ∀ client, progress = .returned (some client) → c.invalidated ≤ client) :
    (c.advance concerned progress).Fresh where
  row := h.row
  entry := h.entry
  build := h.build
  after g hg := by
    obtain ⟨i, hi, rfl⟩ := List.mem_mapIdx.mp hg
    split_ifs <;> exact h.after c.gets[i] (List.getElem_mem hi)
  returned g hg client hreturned := by
    obtain ⟨i, hi, rfl⟩ := List.mem_mapIdx.mp hg
    have hmem := List.getElem_mem hi
    split_ifs at hreturned ⊢
    · exact Nat.le_trans (h.after c.gets[i] hmem) (hclient client hreturned)
    · exact h.returned _ hmem client hreturned

theorem Fresh.moveOn (h : c.Fresh) {i : ℕ} {old new : Progress} (hx : c.moveOn i old new = some c')
    (hclient : ∀ client, new = .returned (some client) → c.invalidated ≤ client) : c'.Fresh := by
  cases (Option.ite_none_right_eq_some.mp hx).2
  exact h.advance _ hclient

/-- The build in flight has come so far. -/
theorem Fresh.inFlight (h : c.Fresh) {build : Option Build}
    (hbuild : ∀ client ∈ build.bind Build.client, c.invalidated ≤ client) :
    { c with build := build }.Fresh := ⟨h.row, h.entry, hbuild, h.after, h.returned⟩

theorem Fresh.carefully (h : c.Fresh) (hx : c.carefully a = some c') : c'.Fresh := by
  cases a with
  | get =>
    cases hx
    refine ⟨h.row, h.entry, h.build, ?_, ?_⟩
    · exact List.forall_mem_append.mpr ⟨h.after, List.forall_mem_singleton.mpr (Nat.le_refl _)⟩
    · exact List.forall_mem_append.mpr ⟨h.returned, List.forall_mem_singleton.mpr nofun⟩
  | lookUp i =>
    refine h.moveOn hx fun client hclient => h.entry client ?_
    cases hentry : c.entry <;> simp_all
  | join i =>
    refine (h.inFlight fun client hclient => h.build client ?_).moveOn hx nofun
    cases hbuild : c.build <;> simp_all [Build.client]
  | build fails =>
    obtain ⟨build, hbuild, rfl⟩ := Option.map_eq_some_iff.mp hx
    have hclient : ∀ client ∈ build.client, c.invalidated ≤ client := fun client hclient =>
      h.build client (Option.mem_bind_iff.mpr ⟨build, hbuild, hclient⟩)
    cases build with
    | looking =>
      refine h.inFlight fun client hclient => h.entry client ?_
      cases hentry : c.entry <;> simp_all [Build.client]
    | reading =>
      have hrow := h.row
      refine h.inFlight fun client hclient => ?_
      cases fails <;> simp_all [Build.client]
    | built client => exact ⟨h.row, hclient, hclient, h.after, h.returned⟩
    | done client =>
      have hover : { c with build := none }.Fresh := h.inFlight nofun
      refine hover.advance _ fun client' heq => hclient client' ?_
      cases heq
      rfl
  | expire =>
    cases hx
    exact ⟨h.row, nofun, h.build, h.after, h.returned⟩
  | updateRow =>
    cases hx
    exact ⟨Nat.le_succ_of_le h.row, h.entry, h.build, h.after, h.returned⟩
  | publishInvalidation update =>
    obtain ⟨hcareful, hx⟩ := Option.ite_none_right_eq_some.mp hx
    obtain ⟨hrow, hx⟩ := Option.ite_none_right_eq_some.mp hx
    cases hx
    refine ⟨Nat.max_le.mpr ⟨h.row, hrow⟩, nofun, fun client hclient => ?_, fun g hg => ?_, h.returned⟩
    · rw [Option.mem_def.mp hclient] at hcareful
      exact Nat.max_le.mpr ⟨h.build client hclient, of_decide_eq_true hcareful⟩
    · exact Nat.le_trans (h.after g hg) (Nat.le_max_left ..)

theorem fresh_init : Fresh {} := ⟨Nat.le_refl 0, nofun, nofun, nofun, nofun⟩

/-- **Replaced credentials go out of use**, if no entry is dropped while a build is in flight that
read the row before the update. -/
theorem replaced_credentials_out_of_use (acts : List Action) {c : ClientCache}
    (hrun : acts.foldlM carefully {} = some c) {g : Get} (hg : g ∈ c.gets) {client : ℕ}
    (hreturned : g.progress = .returned (some client)) : g.after ≤ client :=
  (foldlM_invariant (fun _ _ _ => Fresh.carefully) fresh_init hrun).returned g hg client hreturned

/-- A call builds a client, from looking up to being given it. -/
def builds (i : ℕ) : List Action := [.get, .lookUp i, .join i] ++ List.replicate 4 (.build false)

def renewed : List Action := builds 0 ++ [.updateRow, .publishInvalidation 1] ++ builds 1

/-- A call after an update is given the client that was built after it. -/
theorem replaced_credentials_out_of_use_rebuilt :
    ∃ c, renewed.foldlM carefully {} = some c ∧
      ∃ g ∈ c.gets, g.progress = .returned (some 1) ∧ g.after = 1 ∧ g.after ≤ 1 :=
  ⟨_, rfl, ⟨1, .returned (some 1)⟩, by decide, rfl, rfl,
    replaced_credentials_out_of_use renewed rfl (by decide) rfl⟩

/-- A build that read the row before an update stores its client after the entry was dropped; later
calls are given it. -/
theorem stale_client_returned :
    ∃ c, [.get, .lookUp 0, .join 0, .build false, .build false, .updateRow, .publishInvalidation 1,
      .build false, .get, .lookUp 1].foldlM step {} = some c ∧
      ⟨1, .returned (some 0)⟩ ∈ c.gets :=
  ⟨_, rfl, by decide⟩

end ClientCache

end Nexara.Proxmox
