import Nexara.Conc.Protocol

/-!
# The permission engine

`HasPermission` and `InvalidateUser` over the grants in the database and their copies in Redis,
beside any number of grant changes, each a write followed by the invalidation of users. Reads and
writes of the cache may fail, and an entry may expire at any moment; without Redis every read of it
misses and every write fails.
-/

namespace Nexara.Rbac

open Conc

structure ScopedPermission where
  action : String
  resource : String
  scopeType : String
  scopeID : String := ""

structure Question where
  action : String
  resource : String
  scopeType : String
  scopeID : String

/-- The loop of `HasPermission`: a global grant covers everything, another one its own scope. -/
def permits (perms : List ScopedPermission) (q : Question) : Bool :=
  perms.any fun p => p.action = q.action && p.resource = q.resource &&
    (p.scopeType = "global" || (p.scopeType = q.scopeType && p.scopeID = q.scopeID))

/-- The scoped permissions of every user, as the tables give them. -/
abbrev Grants := ℕ → List ScopedPermission

/-- The states the grants have been in, by number, and the cached sets. -/
structure World where
  version : ℕ := 0
  grants : ℕ → Grants
  cache : ℕ → Option (List ScopedPermission) := fun _ => none

inductive Stmt where
  | redisGet (user : ℕ)
  | getUserScopedPermissions (user : ℕ)
  | redisSet (user : ℕ) (perms : List ScopedPermission)
  | redisDel (user : ℕ)
  | writeGrants (grants : Grants)
  | answer (user : ℕ) (q : Question) (holds : Bool)
  | expire (user : ℕ)

@[reducible] def Stmt.Ans : Stmt → Type
  | redisGet _ | getUserScopedPermissions _ => Option (List ScopedPermission)
  | redisSet .. | redisDel _ => Bool
  | writeGrants _ | answer .. | expire _ => Unit

/-- Whether a statement goes through. -/
@[reducible] def Stmt.Outcome : Stmt → Type
  | redisGet _ | getUserScopedPermissions _ | redisSet .. | redisDel _ => Bool
  | writeGrants _ | answer .. | expire _ => Unit

abbrev sig : Sig := ⟨Stmt, Stmt.Ans⟩

abbrev Code (α : Type) := Prog sig α

def call (e : Stmt) : Code e.Ans := Prog.stmt (S := sig) e

/-- The user's permissions, or `none` when the database cannot be read. -/
def loadUserPermissions (user : ℕ) : Code (Option (List ScopedPermission)) := do
  match (← call (.redisGet user) : Option (List ScopedPermission)) with
  | some perms => return some perms
  | none =>
    match (← call (.getUserScopedPermissions user) : Option (List ScopedPermission)) with
    | none => return none
    | some perms => do
      let _ ← call (.redisSet user perms)
      return some perms

def hasPermission (user : ℕ) (q : Question) : Code Unit := do
  match ← loadUserPermissions user with
  | none => return
  | some perms => call (.answer user q (permits perms q))

def invalidateUser (user : ℕ) : Code Unit := do let _ ← call (.redisDel user)

/-- A grant change, and the invalidation of the users it is about. -/
def changeGrants (grants : Grants) (users : List ℕ) : Code Unit := do
  call (.writeGrants grants)
  Prog.each invalidateUser users

def exec : (e : Stmt) → e.Outcome → World → Option (e.Ans × World)
  | .redisGet user, true, w => some (w.cache user, w)
  | .redisGet _, false, w => some (none, w)
  | .getUserScopedPermissions user, true, w => some (some (w.grants w.version user), w)
  | .getUserScopedPermissions _, false, w => some (none, w)
  | .redisSet user perms, true, w =>
    some (true, { w with cache := Function.update w.cache user (some perms) })
  | .redisSet .., false, w => some (false, w)
  | .redisDel user, true, w =>
    some (true, { w with cache := Function.update w.cache user none })
  | .redisDel _, false, w => some (false, w)
  | .writeGrants grants, _, w =>
    some ((), { w with
      version := w.version + 1
      grants := Function.update w.grants (w.version + 1) grants })
  | .answer .., _, w => some ((), w)
  | .expire user, _, w => some ((), { w with cache := Function.update w.cache user none })

inductive Role where
  | check (user : ℕ) (q : Question)
  | change (grants : Grants) (users : List ℕ)
  | expire (user : ℕ)

def code : Role → Code Unit
  | .check user q => hasPermission user q
  | .change grants users => changeGrants grants users
  | .expire user => call (.expire user)

abbrev engine : System where
  sig := sig
  State := World
  Role := Role
  code := code
  Outcome := Stmt.Outcome
  exec := fun _ _ => exec

end Nexara.Rbac
