import Nexara.Directory.Roles

/-!
# The roles a sign-in leaves

A sign-in through the directory or the identity provider goes on to a session whatever the
statements of `syncUserRoles` did. `sign_in_roles_iff` says when the user's rows are then exactly
what the groups grant.
-/

namespace Nexara.Directory

variable {User Role Cluster : Type} [DecidableEq User] [DecidableEq Role] [DecidableEq Cluster]

/-- A failed revocation leaves granted rows only, and each granted role has a row left, or exists
and is assigned without failure. -/
def Settles (cfg : RoleConfig Role) (f : Failures) (u : User) (groups : List String)
    (s : Store User Role Cluster) : Prop :=
  (f.revoke = true → s.userRoles u ⊆ cfg.grantedRows groups Cluster) ∧
    ∀ r ∈ cfg.granted groups, (f.revoke = true ∧ (r, none) ∈ s.userRoles u) ∨
      (r ∈ s.roles ∧ ∃ k, (cfg.granted groups)[k]? = some r ∧ f.assign k = false)

theorem syncUserRoles_granted_iff (cfg : RoleConfig Role) (f : Failures) (u : User)
    (groups : List String) (s : Store User Role Cluster) :
    (Ldap.syncUserRoles cfg f u groups s).userRoles u = cfg.grantedRows groups Cluster ↔
      Settles cfg f u groups s := by
  constructor
  · intro heq
    refine ⟨fun hrevoke x hx => ?_, fun r hr => ?_⟩
    · rw [← heq, mem_syncUserRoles]
      exact .inl ⟨hrevoke, hx⟩
    · have hrow : (r, none) ∈ cfg.grantedRows groups Cluster :=
        RoleConfig.mem_grantedRows.mpr ⟨r, hr, rfl⟩
      rw [← heq, mem_syncUserRoles] at hrow
      rcases hrow with hkept | ⟨k, r', hk, hfails, hr', hrow⟩
      · exact .inl hkept
      · cases hrow
        exact .inr ⟨hr', k, hk, hfails⟩
  · rintro ⟨hkept, hassigned⟩
    ext x
    rw [mem_syncUserRoles, RoleConfig.mem_grantedRows]
    constructor
    · rintro (⟨hrevoke, hx⟩ | ⟨k, r, hk, -, -, rfl⟩)
      · exact RoleConfig.mem_grantedRows.mp (hkept hrevoke hx)
      · exact ⟨r, List.mem_of_getElem? hk, rfl⟩
    · rintro ⟨r, hr, rfl⟩
      rcases hassigned r hr with hrow | ⟨hexists, k, hk, hfails⟩
      · exact .inl hrow
      · exact .inr ⟨k, r, hk, hfails, hexists, rfl⟩

/-! ## The way to the account leaves the roles alone -/

def SameRoles (s t : Store User Role Cluster) : Prop :=
  t.roles = s.roles ∧ t.userRoles = s.userRoles

omit [DecidableEq Role] [DecidableEq Cluster] in
theorem sameRoles_refreshProfile (s : Store User Role Cluster) (a : Answers User) (who : Identity)
    (u : User) : SameRoles s (s.refreshProfile a who u) := by
  unfold Store.refreshProfile Store.updateProfile
  split_ifs <;> exact ⟨rfl, rfl⟩

variable {cfg : RoleConfig Role} {f : Failures} {s : Store User Role Cluster}

omit [DecidableEq User] in
theorem Settles.congr {u : User} {groups : List String} {t : Store User Role Cluster}
    (h : SameRoles s t) : Settles cfg f u groups t ↔ Settles cfg f u groups s := by
  unfold Settles
  rw [h.1, h.2]

theorem Ldap.finish_iff {who : Identity} {u v : User} {t : Store User Role Cluster}
    (hroles : SameRoles s t) (h : (Ldap.finish cfg f who v t).1 = some u) :
    (Ldap.finish cfg f who v t).2.userRoles u = cfg.grantedRows who.groups Cluster ↔
      Settles cfg f u who.groups s := by
  unfold Ldap.finish at h ⊢
  split_ifs at h ⊢ with hactive
  cases h
  exact (syncUserRoles_granted_iff cfg f u who.groups t).trans (Settles.congr hroles)

theorem Ldap.provisionLDAPUser_iff {a : Answers User} {who : Identity} {email : String} {u : User}
    (h : (Ldap.provisionLDAPUser cfg a f who email s).1 = some u) :
    (Ldap.provisionLDAPUser cfg a f who email s).2.userRoles u =
        cfg.grantedRows who.groups Cluster ↔ Settles cfg f u who.groups s := by
  unfold Ldap.provisionLDAPUser at h ⊢
  cases hlookup : a.lookup with
  | found v =>
    rw [hlookup] at h
    exact Ldap.finish_iff (sameRoles_refreshProfile s a who v) h
  | failed =>
    rw [hlookup] at h
    cases h
  | noRows =>
    rw [hlookup] at h
    cases hcreated : a.created with
    | row v =>
      rw [hcreated] at h
      exact Ldap.finish_iff ⟨rfl, rfl⟩ h
    | duplicate =>
      rw [hcreated] at h
      cases hraced : a.raced with
      | none =>
        rw [hraced] at h
        cases h
      | some v =>
        rw [hraced] at h
        exact Ldap.finish_iff ⟨rfl, rfl⟩ h
    | failed =>
      rw [hcreated] at h
      cases h

omit [DecidableEq Role] [DecidableEq Cluster] in
theorem Oidc.sameRoles_provisionUser (autoProvision : Bool) (a : Answers User) (who : Identity)
    (s : Store User Role Cluster) : SameRoles s (Oidc.provisionUser autoProvision a who s).2 := by
  unfold Oidc.provisionUser
  cases a.lookup with
  | found v => exact sameRoles_refreshProfile s a who v
  | failed => exact ⟨rfl, rfl⟩
  | noRows => cases autoProvision <;> cases a.created <;> exact ⟨rfl, rfl⟩

theorem Oidc.provisionAndStoreExchange_iff {autoProvision exchangeFails : Bool} {a : Answers User}
    {who : Identity} {u : User}
    (h : (Oidc.provisionAndStoreExchange cfg autoProvision exchangeFails a f who s).1 = some u) :
    (Oidc.provisionAndStoreExchange cfg autoProvision exchangeFails a f who s).2.userRoles u =
        cfg.grantedRows who.groups Cluster ↔ Settles cfg f u who.groups s := by
  have hroles := Oidc.sameRoles_provisionUser autoProvision a who s
  unfold Oidc.provisionAndStoreExchange at h ⊢
  generalize Oidc.provisionUser autoProvision a who s = result at h hroles ⊢
  obtain ⟨account, t⟩ := result
  cases account with
  | none => cases h
  | some v =>
    cases exchangeFails with
    | true => cases h
    | false =>
      cases h
      exact (syncUserRoles_granted_iff cfg f u who.groups t).trans (Settles.congr hroles)

/-- A sign-in that goes on leaves exactly the granted roles when the failed statements did not
matter, through the directory and through the identity provider. -/
theorem sign_in_roles_iff (cfg : RoleConfig Role) (a : Answers User) (f : Failures)
    (who : Identity) (email : String) (autoProvision exchangeFails : Bool)
    (s : Store User Role Cluster) (u : User) :
    ((Ldap.provisionLDAPUser cfg a f who email s).1 = some u →
      ((Ldap.provisionLDAPUser cfg a f who email s).2.userRoles u =
        cfg.grantedRows who.groups Cluster ↔ Settles cfg f u who.groups s)) ∧
    ((Oidc.provisionAndStoreExchange cfg autoProvision exchangeFails a f who s).1 = some u →
      ((Oidc.provisionAndStoreExchange cfg autoProvision exchangeFails a f who s).2.userRoles u =
        cfg.grantedRows who.groups Cluster ↔ Settles cfg f u who.groups s)) :=
  ⟨Ldap.provisionLDAPUser_iff, Oidc.provisionAndStoreExchange_iff⟩

/-! ## An administrator who was removed from the group -/

def knownUser : Answers Nat := ⟨.found 7, .failed, .failed, false⟩

/-- With every statement working, the groups decide. -/
theorem sign_in_roles_removed :
    (Ldap.provisionLDAPUser adminGroup knownUser ⟨false, fun _ => false⟩ ⟨"", "Eve", []⟩ "eve"
        adminStore).2.userRoles 7 = adminGroup.grantedRows [] Nat ∧
      (Oidc.provisionAndStoreExchange adminGroup true false knownUser ⟨false, fun _ => false⟩
        ⟨"", "Eve", ["cn=admins"]⟩ adminStore).2.userRoles 7 =
          adminGroup.grantedRows ["cn=admins"] Nat := by
  have hexists : ∀ groups ∈ [[], ["cn=admins"]], ∀ r ∈ adminGroup.granted groups,
      r ∈ adminStore.roles := by decide
  have hsettles : ∀ groups ∈ [[], ["cn=admins"]],
      Settles adminGroup ⟨false, fun _ => false⟩ 7 groups adminStore := by
    intro groups hgroups
    refine ⟨nofun, fun r hr => .inr ?_⟩
    obtain ⟨k, hk⟩ := List.getElem?_of_mem hr
    exact ⟨hexists groups hgroups r hr, k, hk, rfl⟩
  exact ⟨((sign_in_roles_iff adminGroup knownUser ⟨false, fun _ => false⟩ ⟨"", "Eve", []⟩ "eve" true
      false adminStore 7).1 rfl).mpr (hsettles _ (by decide)),
    ((sign_in_roles_iff adminGroup knownUser ⟨false, fun _ => false⟩ ⟨"", "Eve", ["cn=admins"]⟩ "eve"
      true false adminStore 7).2 rfl).mpr (hsettles _ (by decide))⟩

/-- A failed revocation leaves the administrator's role with a user who is granted the default role
only. -/
theorem failed_revocation_keeps_admin :
    (Ldap.provisionLDAPUser adminGroup knownUser ⟨true, fun _ => false⟩ ⟨"", "Eve", []⟩ "eve"
        adminStore).1 = some 7 ∧
      (1, none) ∈ (Ldap.provisionLDAPUser adminGroup knownUser ⟨true, fun _ => false⟩
        ⟨"", "Eve", []⟩ "eve" adminStore).2.userRoles 7 ∧
      adminGroup.grantedRows [] Nat = {(2, none)} := by
  decide

end Nexara.Directory
