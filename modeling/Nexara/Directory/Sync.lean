import Nexara.Directory.Roles

/-!
# Synchronising the accounts with the directory

`Sync` looks every LDAP account up and disables the ones the directory does not return. The first
three steps of the lookup (`LDAPClient.SearchUser`) end in one error, whatever failed, and a group
search that fails ends in no groups. So accounts are disabled and roles replaced after failures too
(`nothing_taken_iff`).
-/

namespace Nexara.Directory

/-! ## The LDAP client -/

structure Entry where
  dn : String
  email : String
  displayName : String

/-- The entries that the user filter matches for a name, and the groups matched for an entry. -/
structure Content where
  entries : String → List Entry
  groups : String → List String

structure LDAPConfig where
  bindDN : String
  groupSearchBaseDN : String
  groupFilter : String

structure Attempt where
  dialFails : Bool
  bindFails : Bool
  searchFails : Bool
  groupSearchFails : Bool

inductive LDAPError
  | connection
  | bindCredentials
  | searchFailed
  | userNotFound

section

variable (cfg : LDAPConfig) (dir : Content) (t : Attempt)

def dial : Except LDAPError Unit := if t.dialFails then .error .connection else .ok ()

def serviceBind : Except LDAPError Unit :=
  if cfg.bindDN = "" then .ok () else if t.bindFails then .error .bindCredentials else .ok ()

/-- The search has a size limit of one entry: the server answers a filter that matches more with an
error. -/
def searchUser (username : String) : Except LDAPError Entry :=
  if t.searchFails then .error .searchFailed
  else
    match dir.entries username with
    | [] => .error .userNotFound
    | [e] => .ok e
    | _ :: _ :: _ => .error .searchFailed

def getUserGroups (userDN : String) : List String :=
  if cfg.groupSearchBaseDN = "" ∨ cfg.groupFilter = "" then []
  else if t.groupSearchFails then []
  else dir.groups userDN

/-- `LDAPClient.SearchUser`. -/
def lookUp (username : String) : Except LDAPError Identity :=
  match dial t with
  | .error e => .error e
  | .ok () =>
    match serviceBind cfg t with
    | .error e => .error e
    | .ok () =>
      match searchUser dir t username with
      | .error e => .error e
      | .ok entry => .ok ⟨entry.email, entry.displayName, getUserGroups cfg dir t entry.dn⟩

end

/-! ## `Sync` -/

structure LDAPUsers (User : Type) where
  ids : List User
  nodup : ids.Nodup
  email : User → String

structure DbUser (User : Type) where
  id : User
  email : String
  displayName : String
  isActive : Bool

variable {User Role Cluster : Type} [DecidableEq User] [DecidableEq Role] [DecidableEq Cluster]

def Store.setLDAPUserActive (s : Store User Role Cluster) (u : User) (active : Bool) :
    Store User Role Cluster :=
  { s with isActive := Function.update s.isActive u active }

def LDAPUsers.row (us : LDAPUsers User) (s : Store User Role Cluster) (u : User) : DbUser User :=
  ⟨u, us.email u, s.displayName u, s.isActive u⟩

/-- The statements on the database work. -/
def noFailures : Failures := ⟨false, fun _ => false⟩

section

variable (cfg : LDAPConfig) (roles : RoleConfig Role) (dir : Content) (attempts : User → Attempt)

def syncUser (s : Store User Role Cluster) (dbUser : DbUser User) : Store User Role Cluster :=
  match lookUp cfg dir (attempts dbUser.id) dbUser.email with
  | .error _ => if dbUser.isActive then s.setLDAPUserActive dbUser.id false else s
  | .ok ldapUser =>
    let s := if dbUser.isActive then s else s.setLDAPUserActive dbUser.id true
    let s :=
      if ldapUser.displayName ≠ "" ∧ ldapUser.displayName ≠ dbUser.displayName then
        s.updateProfile false dbUser.id ldapUser.displayName
      else s
    Ldap.syncUserRoles roles noFailures dbUser.id ldapUser.groups s

/-- The rows are read once, before the loop. -/
def sync (us : LDAPUsers User) (s : Store User Role Cluster) : Store User Role Cluster :=
  (us.ids.map (us.row s)).foldl (syncUser cfg roles dir attempts) s

end

/-! ## What was asked -/

section

variable (cfg : LDAPConfig) (dir : Content) (t : Attempt)

def Reached : Prop := t.dialFails = false ∧ (cfg.bindDN = "" ∨ t.bindFails = false)

def Searched (username : String) : Prop :=
  t.searchFails = false ∧ (dir.entries username).length ≤ 1

def GroupsConfigured : Prop := cfg.groupSearchBaseDN ≠ "" ∧ cfg.groupFilter ≠ ""

def GroupsSearched (username : String) : Prop :=
  Reached cfg t ∧ Searched dir t username ∧ dir.entries username ≠ [] ∧ t.groupSearchFails = false

end

variable {username : String}

section

variable {cfg : LDAPConfig} {dir : Content} {t : Attempt}

theorem lookUp_of_not_searched (h : ¬(Reached cfg t ∧ Searched dir t username)) :
    ∃ e, lookUp cfg dir t username = .error e := by
  unfold lookUp
  cases hdial : dial t with
  | error e => exact ⟨e, rfl⟩
  | ok _ =>
    cases hbind : serviceBind cfg t with
    | error e => exact ⟨e, rfl⟩
    | ok _ =>
      cases hsearch : searchUser dir t username with
      | error e => exact ⟨e, rfl⟩
      | ok entry =>
        refine absurd ⟨⟨?_, ?_⟩, ?_, ?_⟩ h
        · unfold dial at hdial
          split_ifs at hdial with hd
          exact Bool.eq_false_iff.mpr hd
        · unfold serviceBind at hbind
          split_ifs at hbind with hb hf
          · exact .inl hb
          · exact .inr (Bool.eq_false_iff.mpr hf)
        · unfold searchUser at hsearch
          split_ifs at hsearch with hs
          exact Bool.eq_false_iff.mpr hs
        · unfold searchUser at hsearch
          split_ifs at hsearch with hs
          split at hsearch
          · cases hsearch
          · next heq => rw [heq]; exact Nat.le_refl 1
          · cases hsearch

theorem lookUp_of_nil (hentries : dir.entries username = []) :
    ∃ e, lookUp cfg dir t username = .error e := by
  unfold lookUp searchUser
  rw [hentries]
  cases dial t with
  | error e => exact ⟨e, rfl⟩
  | ok _ =>
    cases serviceBind cfg t with
    | error e => exact ⟨e, rfl⟩
    | ok _ => cases t.searchFails <;> exact ⟨_, rfl⟩

theorem lookUp_of_entry {e : Entry} (hreached : Reached cfg t) (hsearched : Searched dir t username)
    (hentries : dir.entries username = [e]) :
    lookUp cfg dir t username = .ok ⟨e.email, e.displayName, getUserGroups cfg dir t e.dn⟩ := by
  have hdial : dial t = .ok () := by simp [dial, hreached.1]
  have hbind : serviceBind cfg t = .ok () := by
    unfold serviceBind
    rcases hreached.2 with h | h <;> simp [h]
  have hsearch : searchUser dir t username = .ok e := by
    simp [searchUser, hsearched.1, hentries]
  unfold lookUp
  rw [hdial, hbind, hsearch]

end

/-! ## One round -/

def RoleConfig.assignable (Cluster : Type) [DecidableEq Cluster] (roles : RoleConfig Role)
    (known : Finset Role) (groups : List String) : Finset (Role × Option Cluster) :=
  (((roles.granted groups).filter fun r => r ∈ known).map fun r => (r, none)).toFinset

theorem userRoles_syncUserRoles (roles : RoleConfig Role) (u : User) (groups : List String)
    (s : Store User Role Cluster) : (Ldap.syncUserRoles roles noFailures u groups s).userRoles u =
      roles.assignable Cluster s.roles groups := by
  ext x
  rw [mem_syncUserRoles]
  simp only [noFailures, Bool.false_eq_true, false_and, false_or, true_and,
    RoleConfig.assignable, List.mem_toFinset, List.mem_map, List.mem_filter, decide_eq_true_eq]
  constructor
  · rintro ⟨k, r, hk, hr, rfl⟩
    exact ⟨r, ⟨List.mem_of_getElem? hk, hr⟩, rfl⟩
  · rintro ⟨r, ⟨hmem, hr⟩, rfl⟩
    obtain ⟨k, hk⟩ := List.getElem?_of_mem hmem
    exact ⟨k, r, hk, hr, rfl⟩

/-- What a round makes of its account: the lookup decides. -/
def Synced (roles : RoleConfig Role) (found : Except LDAPError Identity)
    (before after : Store User Role Cluster) (u : User) : Prop :=
  match found with
  | .error _ => after.isActive u = false ∧ after.userRoles u = before.userRoles u
  | .ok ldapUser =>
    after.isActive u = true ∧ after.userRoles u =
      roles.assignable Cluster before.roles ldapUser.groups

omit [DecidableEq User] in
theorem Synced.congr {roles : RoleConfig Role} {found : Except LDAPError Identity}
    {before before' after after' : Store User Role Cluster} {u : User}
    (h : Synced roles found before after u) (hroles : before'.roles = before.roles)
    (hrows : before'.userRoles u = before.userRoles u) (hactive : after'.isActive u = after.isActive u)
    (hafter : after'.userRoles u = after.userRoles u) : Synced roles found before' after' u := by
  unfold Synced
  rwa [hroles, hrows, hactive, hafter]

section

variable {cfg : LDAPConfig} {roles : RoleConfig Role} {dir : Content} {attempts : User → Attempt}

theorem synced_syncUser {s : Store User Role Cluster} {d : DbUser User}
    (hactive : d.isActive = s.isActive d.id) :
    Synced roles (lookUp cfg dir (attempts d.id) d.email) s
      (syncUser cfg roles dir attempts s d) d.id := by
  unfold syncUser Synced
  cases lookUp cfg dir (attempts d.id) d.email with
  | error e =>
    split_ifs with h
    · exact ⟨Function.update_self _ _ _, rfl⟩
    · exact ⟨by rw [← hactive]; exact Bool.eq_false_iff.mpr h, rfl⟩
  | ok ldapUser =>
    simp only [isActive_syncUserRoles, userRoles_syncUserRoles]
    have henabled : (if d.isActive = true then s else s.setLDAPUserActive d.id true).isActive d.id =
        true := by
      split_ifs with h
      · rw [← hactive, h]
      · exact Function.update_self _ _ _
    have hroles : (if d.isActive = true then s else s.setLDAPUserActive d.id true).roles =
        s.roles := by
      split_ifs <;> rfl
    rw [← hroles]
    generalize (if d.isActive = true then s else s.setLDAPUserActive d.id true) = t at henabled ⊢
    split_ifs <;> exact ⟨henabled, rfl⟩

theorem syncUser_frame (s : Store User Role Cluster) (d : DbUser User) :
    (syncUser cfg roles dir attempts s d).roles = s.roles ∧
      ∀ u ≠ d.id, (syncUser cfg roles dir attempts s d).isActive u = s.isActive u ∧
        (syncUser cfg roles dir attempts s d).userRoles u = s.userRoles u := by
  have hupdate : ∀ (t : Store User Role Cluster) (b : Bool) (u : User), u ≠ d.id →
      (t.setLDAPUserActive d.id b).isActive u = t.isActive u := fun t b u hu =>
    Function.update_of_ne hu _ _
  unfold syncUser
  cases lookUp cfg dir (attempts d.id) d.email with
  | error e =>
    split_ifs
    · exact ⟨rfl, fun u hu => ⟨hupdate s false u hu, rfl⟩⟩
    · exact ⟨rfl, fun u _ => ⟨rfl, rfl⟩⟩
  | ok ldapUser =>
    simp only [roles_syncUserRoles, isActive_syncUserRoles]
    refine ⟨?_, fun u hu => ⟨?_, ?_⟩⟩
    · split_ifs <;> rfl
    · split_ifs <;> first | rfl | exact hupdate s true u hu
    · rw [userRoles_syncUserRoles_of_ne _ _ _ _ _ hu]
      split_ifs <;> rfl

theorem synced_foldl {us : LDAPUsers User} {before : Store User Role Cluster} {ids : List User}
    (hnodup : ids.Nodup) {s : Store User Role Cluster} (hroles : s.roles = before.roles) :
    (∀ u ∉ ids, ((ids.map (us.row before)).foldl (syncUser cfg roles dir attempts) s).isActive u =
        s.isActive u ∧ ((ids.map (us.row before)).foldl (syncUser cfg roles dir attempts) s).userRoles
        u = s.userRoles u) ∧
      ∀ u ∈ ids, s.isActive u = before.isActive u → s.userRoles u = before.userRoles u →
        Synced roles (lookUp cfg dir (attempts u) (us.email u)) before
          ((ids.map (us.row before)).foldl (syncUser cfg roles dir attempts) s) u := by
  induction ids generalizing s with
  | nil => exact ⟨fun u _ => ⟨rfl, rfl⟩, fun u hu => absurd hu List.not_mem_nil⟩
  | cons v ids ih =>
    obtain ⟨hv, hrest⟩ := List.nodup_cons.mp hnodup
    obtain ⟨hkept, hframe⟩ :
        (syncUser cfg roles dir attempts s (us.row before v)).roles = s.roles ∧
          ∀ u ≠ v, (syncUser cfg roles dir attempts s (us.row before v)).isActive u = s.isActive u ∧
            (syncUser cfg roles dir attempts s (us.row before v)).userRoles u = s.userRoles u :=
      syncUser_frame s (us.row before v)
    obtain ⟨hout, hin⟩ := ih hrest (hkept.trans hroles)
    refine ⟨fun u hu => ?_, fun u hu hactive hrows => ?_⟩
    · have hne : u ≠ v := fun h => hu (h ▸ List.mem_cons_self)
      obtain ⟨ha, hr⟩ := hout u fun h => hu (List.mem_cons_of_mem v h)
      exact ⟨ha.trans (hframe u hne).1, hr.trans (hframe u hne).2⟩
    · by_cases hne : u = v
      · subst hne
        have hround : Synced roles (lookUp cfg dir (attempts u) (us.email u)) s
            (syncUser cfg roles dir attempts s (us.row before u)) u :=
          synced_syncUser (d := us.row before u) hactive.symm
        obtain ⟨ha, hr⟩ := hout u hv
        exact hround.congr hroles.symm hrows.symm ha hr
      · refine hin u ((List.mem_cons.mp hu).resolve_left hne) ?_ ?_
        · exact (hframe u hne).1.trans hactive
        · exact (hframe u hne).2.trans hrows

theorem synced_sync (us : LDAPUsers User) (s : Store User Role Cluster) {u : User}
    (hu : u ∈ us.ids) : Synced roles (lookUp cfg dir (attempts u) (us.email u)) s
      (sync cfg roles dir attempts us s) u :=
  (synced_foldl us.nodup rfl).2 u hu rfl rfl

end

/-! ## What a synchronisation takes away -/

section

variable (cfg : LDAPConfig) (roles : RoleConfig Role) (dir : Content) (attempts : User → Attempt)
variable (us : LDAPUsers User)

/-- An account is disabled only when the directory was asked and did not have it, and its roles
change only when its groups were asked for or are not configured. -/
def NothingTaken (before after : Store User Role Cluster) : Prop :=
  ∀ u ∈ us.ids,
    (before.isActive u = true → after.isActive u = false →
      Reached cfg (attempts u) ∧ Searched dir (attempts u) (us.email u) ∧
        dir.entries (us.email u) = []) ∧
    (after.userRoles u ≠ before.userRoles u →
      GroupsSearched cfg dir (attempts u) (us.email u) ∨ ¬GroupsConfigured cfg)

/-- Every active account's lookup completes, and where a configured group search fails the account
has the rows that no groups give it. -/
def AskedInFull (s : Store User Role Cluster) : Prop :=
  ∀ u ∈ us.ids,
    (s.isActive u = true → Reached cfg (attempts u) ∧ Searched dir (attempts u) (us.email u)) ∧
    (Reached cfg (attempts u) → Searched dir (attempts u) (us.email u) →
      dir.entries (us.email u) ≠ [] → GroupsConfigured cfg →
      (attempts u).groupSearchFails = true → s.userRoles u = roles.assignable Cluster s.roles [])

theorem entry_of_searched {dir : Content} {t : Attempt} (h : Searched dir t username)
    (hne : dir.entries username ≠ []) : ∃ e, dir.entries username = [e] :=
  List.length_eq_one_iff.mp (Nat.le_antisymm h.2 (List.length_pos_of_ne_nil hne))

/-- A synchronisation takes nothing away exactly when what failed did not matter. -/
theorem nothing_taken_iff (s : Store User Role Cluster) :
    NothingTaken cfg dir attempts us s (sync cfg roles dir attempts us s) ↔
      AskedInFull cfg roles dir attempts us s := by
  refine forall₂_congr fun u hu => ?_
  have hsynced : Synced roles (lookUp cfg dir (attempts u) (us.email u)) s
    (sync cfg roles dir attempts us s) u := synced_sync us s hu
  generalize sync cfg roles dir attempts us s = after at hsynced ⊢
  by_cases hasked : Reached cfg (attempts u) ∧ Searched dir (attempts u) (us.email u)
  · by_cases hentries : dir.entries (us.email u) = []
    · -- the directory does not have the account
      obtain ⟨e, he⟩ : ∃ e, lookUp cfg dir (attempts u) (us.email u) = .error e :=
        lookUp_of_nil hentries
      rw [he] at hsynced
      exact ⟨fun _ => ⟨fun _ => hasked, fun _ _ hne => absurd hentries hne⟩,
        fun _ => ⟨fun _ _ => ⟨hasked.1, hasked.2, hentries⟩, fun hne => absurd hsynced.2 hne⟩⟩
    · obtain ⟨e, he⟩ := entry_of_searched hasked.2 hentries
      rw [lookUp_of_entry hasked.1 hasked.2 he] at hsynced
      have hfailed : GroupsConfigured cfg → (attempts u).groupSearchFails = true →
          after.userRoles u = roles.assignable Cluster s.roles [] := by
        intro hconfigured hfails
        rw [hsynced.2, getUserGroups, if_neg (not_or.mpr hconfigured), if_pos hfails]
      constructor
      · intro h
        refine ⟨fun _ => hasked, fun _ _ _ hconfigured hfails => ?_⟩
        by_contra hne
        rcases h.2 (fun heq => hne (heq ▸ hfailed hconfigured hfails)) with hsearched | hnot
        · exact Bool.noConfusion (hfails.symm.trans hsearched.2.2.2)
        · exact hnot hconfigured
      · intro h
        refine ⟨fun _ hinactive => Bool.noConfusion (hsynced.1.symm.trans hinactive), fun hne => ?_⟩
        by_cases hconfigured : GroupsConfigured cfg
        · cases hfails : (attempts u).groupSearchFails with
          | true =>
            have hrows := h.2 hasked.1 hasked.2 hentries hconfigured hfails
            exact absurd ((hfailed hconfigured hfails).trans hrows.symm) hne
          | false => exact .inl ⟨hasked.1, hasked.2, hentries, hfails⟩
        · exact .inr hconfigured
  · -- the lookup failed: an active account is disabled
    obtain ⟨e, he⟩ := lookUp_of_not_searched hasked
    rw [he] at hsynced
    constructor
    · intro h
      refine ⟨fun hactive => ?_, fun hr hs => absurd ⟨hr, hs⟩ hasked⟩
      obtain ⟨hr, hs, -⟩ := h.1 hactive hsynced.1
      exact ⟨hr, hs⟩
    · intro h
      exact ⟨fun hactive => absurd (h.1 hactive) hasked, fun hne => absurd hsynced.2 hne⟩

end

/-! ## An outage -/

/-- A directory that holds the administrator, in that group. -/
def oneUser : Content where
  entries := fun name => if name = "eve@example.com" then [⟨"cn=eve", name, "Eve"⟩] else []
  groups := fun dn => if dn = "cn=eve" then ["cn=admins"] else []

def eve : LDAPUsers Nat := ⟨[7], by decide, fun _ => "eve@example.com"⟩

/-- A directory that cannot be dialled disables an account, and a failed group search takes its role
away. -/
theorem outage_disables_account :
    (sync ⟨"cn=svc", "ou=groups", "(member=x)"⟩ adminGroup oneUser
        (fun _ => ⟨true, false, false, false⟩) eve adminStore).isActive 7 = false ∧
      ¬NothingTaken ⟨"cn=svc", "ou=groups", "(member=x)"⟩ oneUser
        (fun _ => ⟨true, false, false, false⟩) eve adminStore
        (sync ⟨"cn=svc", "ou=groups", "(member=x)"⟩ adminGroup oneUser
          (fun _ => ⟨true, false, false, false⟩) eve adminStore) ∧
      (sync ⟨"cn=svc", "ou=groups", "(member=x)"⟩ adminGroup oneUser
        (fun _ => ⟨false, false, false, true⟩) eve adminStore).userRoles 7 = {(2, none)} := by
  refine ⟨by decide, fun h => ?_, by decide⟩
  have hreached := ((h 7 (by decide)).1 rfl (by decide)).1
  exact Bool.noConfusion hreached.1

end Nexara.Directory
