import Mathlib.Data.Finset.Basic
import Mathlib.Data.Finset.Image

/-!
# Roles from a directory's groups

`syncUserRoles` of the LDAP and OIDC handlers, and the two sign-ins that call it. A user's rows of
`user_roles` are pairs of a role and, for an assignment on one cluster, that cluster; the table holds
a pair once and only of roles that exist. A statement that fails changes nothing, and none of the
statements here has its outcome looked at.
-/

namespace Nexara.Directory

/-- What the statements of a directory sign-in read and write. -/
structure Store (User Role Cluster : Type) where
  isActive : User → Bool
  displayName : User → String
  roles : Finset Role
  userRoles : User → Finset (Role × Option Cluster)

/-- `group_role_mapping` and `default_role_id` of a configuration, and `uuid.Parse`. -/
structure RoleConfig (Role : Type) where
  mapping : String → Option String
  parse : String → Option Role
  defaultRoleID : Option Role

/-- The role a group is mapped to, if its text is an identifier. -/
def RoleConfig.roleOf {Role : Type} (cfg : RoleConfig Role) (group : String) : Option Role :=
  (cfg.mapping group).bind cfg.parse

/-- Which statements of one `syncUserRoles` fail: the revocation, and each assignment by its place
in the call. -/
structure Failures where
  revoke : Bool
  assign : Nat → Bool

variable {User Role Cluster : Type} [DecidableEq User] [DecidableEq Role] [DecidableEq Cluster]

/-! ## Statements -/

def Store.revokeAllUserRoles (s : Store User Role Cluster) (fails : Bool) (u : User) :
    Store User Role Cluster :=
  if fails then s else { s with userRoles := Function.update s.userRoles u ∅ }

/-- `AssignUserRole` with the scope `global`: refused for a role that does not exist, and for a row
that is there. -/
def Store.assignUserRole (s : Store User Role Cluster) (fails : Bool) (u : User) (r : Role) :
    Store User Role Cluster :=
  if fails || decide (r ∉ s.roles) || decide ((r, none) ∈ s.userRoles u) then s
  else { s with userRoles := Function.update s.userRoles u (insert (r, none) (s.userRoles u)) }

def Store.createUser (s : Store User Role Cluster) (u : User) (displayName : String) :
    Store User Role Cluster :=
  { s with
    isActive := Function.update s.isActive u true
    displayName := Function.update s.displayName u displayName }

def Store.updateProfile (s : Store User Role Cluster) (fails : Bool) (u : User)
    (displayName : String) : Store User Role Cluster :=
  if fails then s else { s with displayName := Function.update s.displayName u displayName }

/-! ## `syncUserRoles` -/

structure Loop (User Role Cluster : Type) where
  assigned : Bool
  calls : Nat
  store : Store User Role Cluster

def assignGroups (cfg : RoleConfig Role) (f : Failures) (u : User) :
    List String → Loop User Role Cluster → Loop User Role Cluster
  | [], l => l
  | group :: groups, l =>
    match cfg.roleOf group with
    | none => assignGroups cfg f u groups l
    | some r =>
      assignGroups cfg f u groups
        ⟨true, l.calls + 1, l.store.assignUserRole (f.assign l.calls) u r⟩

namespace Ldap

def syncUserRoles (cfg : RoleConfig Role) (f : Failures) (u : User) (groups : List String)
    (s : Store User Role Cluster) : Store User Role Cluster :=
  let l := assignGroups cfg f u groups ⟨false, 0, s.revokeAllUserRoles f.revoke u⟩
  match l.assigned, cfg.defaultRoleID with
  | false, some d => l.store.assignUserRole (f.assign l.calls) u d
  | _, _ => l.store

end Ldap

namespace Oidc

/-- The same statements in the same order as for LDAP. -/
def syncUserRoles (cfg : RoleConfig Role) (f : Failures) (u : User) (groups : List String)
    (s : Store User Role Cluster) : Store User Role Cluster :=
  Ldap.syncUserRoles cfg f u groups s

end Oidc

/-! ## Sign-ins -/

inductive Lookup (User : Type)
  | found (u : User)
  | noRows
  | failed

/-- The answer of a creation: a row, a duplicate key (someone created it in between), or an error. -/
inductive Created (User : Type)
  | row (u : User)
  | duplicate
  | failed

structure Answers (User : Type) where
  lookup : Lookup User
  created : Created User
  /-- The lookup after a creation race. -/
  again : Lookup User
  profileFails : Bool

structure Identity where
  email : String
  displayName : String
  groups : List String

/-- The display name kept in step. -/
def Store.refreshProfile (s : Store User Role Cluster) (a : Answers User) (who : Identity)
    (u : User) : Store User Role Cluster :=
  if who.displayName ≠ "" ∧ who.displayName ≠ s.displayName u then
    s.updateProfile a.profileFails u who.displayName
  else s

def Answers.raced (a : Answers User) : Option User :=
  match a.again with
  | .found u => some u
  | _ => none

namespace Ldap

def finish (cfg : RoleConfig Role) (f : Failures) (who : Identity) (u : User)
    (s : Store User Role Cluster) : Option User × Store User Role Cluster :=
  if s.isActive u = false then (none, s) else (some u, syncUserRoles cfg f u who.groups s)

/-- The account a session may be issued for, if any; `email` is the address that was typed. -/
def provisionLDAPUser (cfg : RoleConfig Role) (a : Answers User) (f : Failures) (who : Identity)
    (email : String) (s : Store User Role Cluster) : Option User × Store User Role Cluster :=
  match a.lookup with
  | .found u => finish cfg f who u (s.refreshProfile a who u)
  | .failed => (none, s)
  | .noRows =>
    match a.created with
    | .row u =>
      let userEmail := if who.email = "" then email else who.email
      finish cfg f who u
        (s.createUser u (if who.displayName = "" then userEmail else who.displayName))
    | .duplicate =>
      match a.raced with
      | some u => finish cfg f who u s
      | none => (none, s)
    | .failed => (none, s)

end Ldap

namespace Oidc

def provisionUser (autoProvision : Bool) (a : Answers User) (who : Identity)
    (s : Store User Role Cluster) : Option User × Store User Role Cluster :=
  match a.lookup with
  | .found u => (some u, s.refreshProfile a who u)
  | .failed => (none, s)
  | .noRows =>
    if autoProvision then
      match a.created with
      | .row u =>
        (some u, s.createUser u (if who.displayName = "" then who.email else who.displayName))
      | .duplicate => (a.raced, s)
      | .failed => (none, s)
    else (none, s)

/-- The account an exchange code was stored for, if any; `exchangeFails` says that Redis did not take
the code. -/
def provisionAndStoreExchange (cfg : RoleConfig Role) (autoProvision exchangeFails : Bool)
    (a : Answers User) (f : Failures) (who : Identity) (s : Store User Role Cluster) :
    Option User × Store User Role Cluster :=
  match provisionUser autoProvision a who s with
  | (none, s) => (none, s)
  | (some u, s) =>
    (if exchangeFails then none else some u, syncUserRoles cfg f u who.groups s)

end Oidc

/-! ## What the groups grant -/

section

variable (cfg : RoleConfig Role) (groups : List String)

/-- The roles the groups are mapped to. -/
def RoleConfig.mapped : List Role := groups.filterMap cfg.roleOf

/-- The mapped roles, or the default role when there is none. -/
def RoleConfig.granted : List Role :=
  match cfg.mapped groups with
  | [] => cfg.defaultRoleID.toList
  | r :: rs => r :: rs

def RoleConfig.grantedRows (Cluster : Type) [DecidableEq Cluster] :
    Finset (Role × Option Cluster) :=
  ((cfg.granted groups).map fun r => (r, none)).toFinset

end

theorem RoleConfig.mem_grantedRows {cfg : RoleConfig Role} {groups : List String}
    {x : Role × Option Cluster} :
    x ∈ cfg.grantedRows groups Cluster ↔ ∃ r ∈ cfg.granted groups, (r, none) = x := by
  simp [RoleConfig.grantedRows]

/-! ## The rows a call leaves -/

/-- Assignments made one after the other, the first of them the `n`-th of the call. -/
def assignAll (f : Failures) (u : User) :
    List Role → Nat → Store User Role Cluster → Store User Role Cluster
  | [], _, s => s
  | r :: rs, n, s => assignAll f u rs (n + 1) (s.assignUserRole (f.assign n) u r)

section

variable (cfg : RoleConfig Role) (f : Failures) (u : User) (groups : List String)
  (s : Store User Role Cluster) (fails : Bool) (x : Role × Option Cluster)

theorem assignGroups_eq (l : Loop User Role Cluster) : assignGroups cfg f u groups l =
      ⟨l.assigned || !(cfg.mapped groups).isEmpty, l.calls + (cfg.mapped groups).length,
        assignAll f u (cfg.mapped groups) l.calls l.store⟩ := by
  induction groups generalizing l with
  | nil => simp [assignGroups, RoleConfig.mapped, assignAll]
  | cons g gs ih =>
    unfold assignGroups RoleConfig.mapped
    cases hg : cfg.roleOf g with
    | none => rw [List.filterMap_cons_none hg]; exact ih l
    | some r =>
      rw [List.filterMap_cons_some hg]
      simp only [ih, List.isEmpty_cons, Bool.not_false, Bool.or_true]
      rw [Nat.add_assoc, Nat.add_comm 1]
      rfl

theorem syncUserRoles_eq : Ldap.syncUserRoles cfg f u groups s =
      assignAll f u (cfg.granted groups) 0 (s.revokeAllUserRoles f.revoke u) := by
  unfold Ldap.syncUserRoles RoleConfig.granted
  rw [assignGroups_eq]
  cases cfg.mapped groups with
  | nil => cases cfg.defaultRoleID <;> rfl
  | cons r rs => rfl

@[simp] theorem Store.roles_assignUserRole (r : Role) :
    (s.assignUserRole fails u r).roles = s.roles := by
  unfold Store.assignUserRole
  split_ifs <;> rfl

omit [DecidableEq Role] [DecidableEq Cluster] in
@[simp] theorem Store.roles_revokeAllUserRoles :
    (s.revokeAllUserRoles fails u).roles = s.roles := by
  unfold Store.revokeAllUserRoles
  split_ifs <;> rfl

omit [DecidableEq Role] [DecidableEq Cluster] in
theorem Store.mem_revokeAllUserRoles :
    x ∈ (s.revokeAllUserRoles fails u).userRoles u ↔ fails = true ∧ x ∈ s.userRoles u := by
  unfold Store.revokeAllUserRoles
  cases fails <;> simp

theorem Store.mem_assignUserRole (r : Role) : x ∈ (s.assignUserRole fails u r).userRoles u ↔
      x ∈ s.userRoles u ∨ (fails = false ∧ r ∈ s.roles ∧ x = (r, none)) := by
  unfold Store.assignUserRole
  split_ifs with h
  · simp only [Bool.or_eq_true, decide_eq_true_eq] at h
    refine ⟨.inl, ?_⟩
    rintro (hx | ⟨hfails, hr, rfl⟩)
    · exact hx
    · rcases h with (h | h) | h
      · exact absurd h (by simp [hfails])
      · exact absurd hr h
      · exact h
  · simp only [Bool.or_eq_true, decide_eq_true_eq, not_or, not_not] at h
    simp [h, or_comm]

theorem mem_assignAll (rs : List Role) (n : Nat) :
    x ∈ (assignAll f u rs n s).userRoles u ↔ x ∈ s.userRoles u ∨
      ∃ k r, rs[k]? = some r ∧ f.assign (n + k) = false ∧ r ∈ s.roles ∧ x = (r, none) := by
  induction rs generalizing n s with
  | nil => simp [assignAll]
  | cons r rs ih =>
    rw [assignAll, ih, Store.mem_assignUserRole, Store.roles_assignUserRole, or_assoc]
    refine or_congr Iff.rfl ⟨?_, ?_⟩
    · rintro (⟨hfails, hr, rfl⟩ | ⟨k, r', hk, hfails, hr, rfl⟩)
      · exact ⟨0, r, rfl, hfails, hr, rfl⟩
      · exact ⟨k + 1, r', hk, by rwa [Nat.add_right_comm] at hfails, hr, rfl⟩
    · rintro ⟨k, r', hk, hfails, hr, rfl⟩
      cases k with
      | zero =>
        cases hk
        exact .inl ⟨hfails, hr, rfl⟩
      | succ k => exact .inr ⟨k, r', hk, by rwa [Nat.add_right_comm], hr, rfl⟩

theorem mem_syncUserRoles :
    x ∈ (Ldap.syncUserRoles cfg f u groups s).userRoles u ↔ (f.revoke = true ∧ x ∈ s.userRoles u) ∨
        ∃ k r, (cfg.granted groups)[k]? = some r ∧ f.assign k = false ∧ r ∈ s.roles ∧
          x = (r, none) := by
  rw [syncUserRoles_eq, mem_assignAll, Store.mem_revokeAllUserRoles]
  simp only [Nat.zero_add, Store.roles_revokeAllUserRoles]

/-! ## What a call leaves alone -/

theorem syncUserRoles_keeps {P : Store User Role Cluster → Prop}
    (hrevoke : ∀ t fails, P t → P (t.revokeAllUserRoles fails u))
    (hassign : ∀ t fails r, P t → P (t.assignUserRole fails u r)) (hs : P s) :
    P (Ldap.syncUserRoles cfg f u groups s) := by
  have hall : ∀ (rs : List Role) (n : Nat) (t : Store User Role Cluster), P t →
      P (assignAll f u rs n t) := by
    intro rs
    induction rs with
    | nil => intro n t ht; exact ht
    | cons r rs ih => intro n t ht; exact ih _ _ (hassign t _ r ht)
  rw [syncUserRoles_eq]
  exact hall _ _ _ (hrevoke s f.revoke hs)

@[simp] theorem isActive_syncUserRoles :
    (Ldap.syncUserRoles cfg f u groups s).isActive = s.isActive := by
  refine syncUserRoles_keeps _ _ _ _ _ (P := fun t => t.isActive = s.isActive) ?_ ?_ rfl
  · intro t fails ht
    unfold Store.revokeAllUserRoles
    split_ifs <;> exact ht
  · intro t fails r ht
    unfold Store.assignUserRole
    split_ifs <;> exact ht

@[simp] theorem roles_syncUserRoles : (Ldap.syncUserRoles cfg f u groups s).roles = s.roles :=
  syncUserRoles_keeps _ _ _ _ _ (fun t fails ht => (t.roles_revokeAllUserRoles u fails).trans ht)
    (fun t fails r ht => (t.roles_assignUserRole u fails r).trans ht) rfl

theorem userRoles_syncUserRoles_of_ne {v : User} (h : v ≠ u) :
    (Ldap.syncUserRoles cfg f u groups s).userRoles v = s.userRoles v := by
  refine syncUserRoles_keeps _ _ _ _ _ (P := fun t => t.userRoles v = s.userRoles v) ?_ ?_ rfl
  · intro t fails ht
    unfold Store.revokeAllUserRoles
    split_ifs
    · exact ht
    · exact (Function.update_of_ne h _ _).trans ht
  · intro t fails r ht
    unfold Store.assignUserRole
    split_ifs
    · exact ht
    · exact (Function.update_of_ne h _ _).trans ht

end

/-! ## A group of administrators -/

def adminGroup : RoleConfig Nat where
  mapping := fun g => if g = "cn=admins" then some "1" else none
  parse := fun text => if text = "1" then some 1 else none
  defaultRoleID := some 2

/-- User 7 is an administrator. -/
def adminStore : Store Nat Nat Nat where
  isActive := fun _ => true
  displayName := fun _ => "Eve"
  roles := {1, 2}
  userRoles := fun u => if u = 7 then {(1, none)} else ∅

end Nexara.Directory
