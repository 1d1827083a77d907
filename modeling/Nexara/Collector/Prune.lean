import Mathlib.Data.List.TakeWhile
import Mathlib.Tactic.Common

/-!
# Pruning the inventory

A pass of `SyncCluster` lists the guests and the storage of each node, writes what it lists, and
deletes the rows that were not written for five minutes: guests only on nodes whose guests were
listed and written without an error, storage pools on any node. A guest that has moved to a node
which cannot be listed is deleted with its old node, and so are the pools of such a node
(`failed_listing_prunes`).
-/

namespace Nexara.Prune

/-! ## Rows -/

/-- In seconds. -/
def staleVMGrace : ℕ := 5 * 60

/-- In seconds. -/
def staleInventoryGrace : ℕ := 5 * 60

/-- A row of `vms`; a node's name stands for its id. -/
structure GuestRow where
  nodeID : String
  lastSeenAt : ℕ
  deriving DecidableEq

/-- `vms` by the id of the guest, and `last_seen_at` of `storage_pools` by node and name. -/
structure Inventory where
  vms : ℕ → Option GuestRow := fun _ => none
  storagePools : String → String → Option ℕ := fun _ _ => none

def upsertVM (nodeID : String) (now vmid : ℕ) (s : Inventory) : Inventory :=
  { s with vms := fun g => if g = vmid then some ⟨nodeID, now⟩ else s.vms g }

def upsertStoragePool (nodeID : String) (now : ℕ) (storage : String) (s : Inventory) : Inventory :=
  { s with storagePools := fun n x => if n = nodeID ∧ x = storage then some now else s.storagePools n x }

def deleteStaleVMsForNodes (now : ℕ) (nodeIDs : List String) (s : Inventory) : Inventory :=
  { s with vms := fun g => (s.vms g).filter fun row =>
      !(decide (row.lastSeenAt + staleVMGrace < now) && decide (row.nodeID ∈ nodeIDs)) }

def deleteStaleStoragePools (now : ℕ) (s : Inventory) : Inventory :=
  { s with storagePools := fun n x =>
      (s.storagePools n x).filter fun lastSeenAt => !decide (lastSeenAt + staleInventoryGrace < now) }

/-! ## A pass -/

/-- An error, or what is listed, and whether the write of each row succeeds. -/
abbrev Listing (α : Type) := Option (List (α × Bool))

namespace Listing

variable {α : Type}

def names (l : Listing α) : List α := (l.getD []).map Prod.fst

/-- The listing and all writes succeed. -/
def clean (l : Listing α) : Bool := l.any fun entries => entries.all (·.2)

/-- Writes up to the first error. -/
def upsertEach (upsert : α → Inventory → Inventory) : List (α × Bool) → Inventory → Bool × Inventory
  | [], s => (true, s)
  | (x, ok) :: rest, s => if ok then upsertEach upsert rest (upsert x s) else (false, s)

def sync (upsert : α → Inventory → Inventory) : Listing α → Inventory → Bool × Inventory
  | none, s => (false, s)
  | some entries, s => upsertEach upsert entries s

end Listing

/-- What a pass finds at a node. -/
structure Visit where
  node : String
  now : ℕ
  /-- `UpsertNode` succeeds. -/
  upserted : Bool := true
  vms : Listing ℕ := some []
  containers : Listing ℕ := some []
  storage : Listing String := some []
  /-- The node that each guest is on while this node's guests are listed. -/
  place : ℕ → Option String

namespace Visit

variable (v : Visit)

def syncVMs : Inventory → Bool × Inventory := v.vms.sync (upsertVM v.node v.now)

def syncContainers : Inventory → Bool × Inventory := v.containers.sync (upsertVM v.node v.now)

def syncStorage : Inventory → Bool × Inventory := v.storage.sync (upsertStoragePool v.node v.now)

/-- `SyncOK`, unless the node's own row could not be written. -/
def syncNode (s : Inventory) : Option Bool × Inventory :=
  if v.upserted then
    let (vmOK, s) := v.syncVMs s
    let (ctOK, s) := v.syncContainers s
    let (_, s) := v.syncStorage s
    (some (vmOK && ctOK), s)
  else (none, s)

def guests : List ℕ := v.vms.names ++ v.containers.names

/-- The guests of the node are listed and written. -/
def guestsOK : Bool := v.upserted && v.vms.clean && v.containers.clean

/-- The storage of the node is listed and written. -/
def storageOK : Bool := v.upserted && v.storage.clean

end Visit

/-- The nodes in turn, and those whose guests were listed and written. -/
def syncNodes : List Visit → Inventory → List String × Inventory
  | [], s => ([], s)
  | v :: visits, s =>
    let (ok, s) := v.syncNode s
    let (syncedNodeIDs, s) := syncNodes visits s
    (if ok = some true then v.node :: syncedNodeIDs else syncedNodeIDs, s)

structure SyncPass where
  /-- Nothing, if no member of the cluster lists the nodes. -/
  visits : Option (List Visit)
  /-- The time of the two deletes. -/
  now : ℕ
  vmsPruned : Bool := true
  poolsPruned : Bool := true
  /-- The node that each guest is on then. -/
  place : ℕ → Option String

def syncCluster (p : SyncPass) (s : Inventory) : Inventory :=
  match p.visits with
  | none => s
  | some visits =>
    let (syncedNodeIDs, s) := syncNodes visits s
    let s := if syncedNodeIDs ≠ [] ∧ p.vmsPruned then
      deleteStaleVMsForNodes p.now syncedNodeIDs s else s
    if p.poolsPruned then deleteStaleStoragePools p.now s else s

/-! ## What a pass writes -/

/-- The rows that are written: those before the first that fails. -/
def Listing.written {α : Type} (l : Listing α) : List α := ((l.getD []).takeWhile (·.2)).map (·.1)

/-- The guests, and the pools, that a visit writes. -/
def Visit.writtenGuests (v : Visit) : List ℕ :=
  if v.upserted then v.vms.written ++ v.containers.written else []

def Visit.writtenPools (v : Visit) : List String := if v.upserted then v.storage.written else []

section

variable {α : Type} {upsert : α → Inventory → Inventory} {l : Listing α} {s : Inventory} {v : Visit}
  {visits : List Visit}

theorem sync_eq : l.sync upsert s = (l.clean, l.written.foldl (fun s x => upsert x s) s) := by
  cases l with
  | none => rfl
  | some entries =>
    induction entries generalizing s with
    | nil => rfl
    | cons e entries ih =>
      obtain ⟨x, ok⟩ := e
      cases ok with
      | false => rfl
      | true => exact ih

theorem written_of_clean (h : l.clean = true) : l.written = l.names := by
  cases l with
  | none => cases h
  | some entries =>
    have hall : ∀ e ∈ entries, e.2 = true := List.all_eq_true.1 h
    rw [Listing.written, Option.getD_some, List.takeWhile_eq_self_iff.2 hall]
    rfl

theorem vms_foldl (n : String) (t g : ℕ) (gs : List ℕ) (s : Inventory) :
    (gs.foldl (fun s x => upsertVM n t x s) s).vms g = if g ∈ gs then some ⟨n, t⟩ else s.vms g := by
  induction gs generalizing s with
  | nil => rfl
  | cons x gs ih =>
    rw [List.foldl_cons, ih]
    by_cases hg : g = x <;> simp [upsertVM, hg]

theorem storagePools_foldl (n n' x : String) (t : ℕ) (xs : List String) (s : Inventory) :
    (xs.foldl (fun s y => upsertStoragePool n t y s) s).storagePools n' x =
      if n' = n ∧ x ∈ xs then some t else s.storagePools n' x := by
  induction xs generalizing s with
  | nil => simp
  | cons y xs ih =>
    rw [List.foldl_cons, ih]
    by_cases hn : n' = n <;> by_cases hx : x = y <;> simp [upsertStoragePool, hn, hx]

theorem vms_foldl_pools (n : String) (t : ℕ) (xs : List String) (s : Inventory) :
    (xs.foldl (fun s y => upsertStoragePool n t y s) s).vms = s.vms := by
  induction xs generalizing s with
  | nil => rfl
  | cons y xs ih => exact ih _

theorem storagePools_foldl_vms (n : String) (t : ℕ) (gs : List ℕ) (s : Inventory) :
    (gs.foldl (fun s x => upsertVM n t x s) s).storagePools = s.storagePools := by
  induction gs generalizing s with
  | nil => rfl
  | cons x gs ih => exact ih _

theorem syncNode_vms (g : ℕ) : (v.syncNode s).2.vms g =
    if g ∈ v.writtenGuests then some ⟨v.node, v.now⟩ else s.vms g := by
  unfold Visit.syncNode Visit.writtenGuests Visit.syncVMs Visit.syncContainers Visit.syncStorage
  cases v.upserted with
  | false => simp
  | true =>
    simp only [if_true, sync_eq, vms_foldl_pools, vms_foldl]
    by_cases hv : g ∈ v.vms.written <;> by_cases hc : g ∈ v.containers.written <;> simp [hc]

theorem syncNode_storagePools (n x : String) : (v.syncNode s).2.storagePools n x =
    if n = v.node ∧ x ∈ v.writtenPools then some v.now else s.storagePools n x := by
  unfold Visit.syncNode Visit.writtenPools Visit.syncVMs Visit.syncContainers Visit.syncStorage
  cases v.upserted with
  | false => simp
  | true => simp only [if_true, sync_eq, storagePools_foldl, storagePools_foldl_vms]

theorem syncNodes_row {β : Type} (row : Inventory → β) {writes : Visit → Prop} {val : Visit → β}
    [DecidablePred writes]
    (hrow : ∀ v s, row (v.syncNode s).2 = if writes v then val v else row s) (visits : List Visit)
    (s : Inventory) : (row (syncNodes visits s).2 = row s ∧ ∀ v ∈ visits, ¬writes v) ∨
      ∃ v ∈ visits, row (syncNodes visits s).2 = val v := by
  induction visits generalizing s with
  | nil => exact .inl ⟨rfl, nofun⟩
  | cons v visits ih =>
    obtain ⟨hsame, hnone⟩ | ⟨v', hv', hval⟩ := ih (v.syncNode s).2
    · rw [hrow] at hsame
      split_ifs at hsame with hv
      · exact .inr ⟨v, .head _, hsame⟩
      · exact .inl ⟨hsame, List.forall_mem_cons.2 ⟨hv, hnone⟩⟩
    · exact .inr ⟨v', .tail _ hv', hval⟩

theorem mem_syncNodes {n : String} :
    n ∈ (syncNodes visits s).1 ↔ ∃ v ∈ visits, v.node = n ∧ v.guestsOK = true := by
  have hok (v : Visit) (s : Inventory) : (v.syncNode s).1 = some true ↔ v.guestsOK = true := by
    unfold Visit.syncNode Visit.guestsOK
    cases v.upserted <;> simp [Visit.syncVMs, Visit.syncContainers, sync_eq]
  induction visits generalizing s with
  | nil => simp [syncNodes]
  | cons v visits ih =>
    by_cases h : v.guestsOK = true <;> simp [syncNodes, hok, h, ih, eq_comm (a := n)]

end

/-! ## What is pruned -/

section

variable {p : SyncPass} {visits : List Visit} {s : Inventory}

section

variable (hvisits : p.visits = some visits)

include hvisits

theorem syncCluster_vms (g : ℕ) :
    (syncCluster p s).vms g = if (syncNodes visits s).1 ≠ [] ∧ p.vmsPruned = true then
      (deleteStaleVMsForNodes p.now (syncNodes visits s).1 (syncNodes visits s).2).vms g
      else (syncNodes visits s).2.vms g := by
  simp only [syncCluster, hvisits]
  split_ifs <;> rfl

theorem syncCluster_storagePools (n x : String) :
    (syncCluster p s).storagePools n x = if p.poolsPruned = true then
      (deleteStaleStoragePools p.now (syncNodes visits s).2).storagePools n x
      else (syncNodes visits s).2.storagePools n x := by
  simp only [syncCluster, hvisits]
  split_ifs <;> rfl

/-- A guest whose row is pruned was not seen for the whole grace: its node was listed and written,
and no written listing had it. -/
theorem pruned_guest (hquick : ∀ v ∈ visits, p.now ≤ v.now + staleVMGrace) {g : ℕ} {row : GuestRow}
    (hbefore : s.vms g = some row) (hafter : (syncCluster p s).vms g = none) :
    row.lastSeenAt + staleVMGrace < p.now ∧
      (∃ v ∈ visits, v.node = row.nodeID ∧ v.guestsOK = true) ∧
      ∀ v ∈ visits, v.guestsOK = true → g ∉ v.guests := by
  have hstale {row' : GuestRow} (hrow : (syncNodes visits s).2.vms g = some row') :
      row'.lastSeenAt + staleVMGrace < p.now ∧ row'.nodeID ∈ (syncNodes visits s).1 := by
    rw [syncCluster_vms hvisits] at hafter
    split_ifs at hafter
    · simpa [deleteStaleVMsForNodes, hrow] using hafter
    · rw [hrow] at hafter
      cases hafter
  obtain ⟨hsame, hnone⟩ | ⟨v, hv, hrow⟩ :=
    syncNodes_row (·.vms g) (fun v s => syncNode_vms g) visits s
  · obtain ⟨hlate, hnode⟩ := hstale (hsame.trans hbefore)
    refine ⟨hlate, mem_syncNodes.mp hnode, fun v hv hok hg => hnone v hv ?_⟩
    obtain ⟨⟨hup, hvms⟩, hcts⟩ : (v.upserted = true ∧ v.vms.clean = true) ∧
        v.containers.clean = true := by simpa [Visit.guestsOK] using hok
    rw [Visit.writtenGuests, if_pos hup, written_of_clean hvms, written_of_clean hcts]
    exact hg
  · -- a row that was written in this pass is not old enough
    have hlate := (hstale hrow).1
    have hle := hquick v hv
    exact absurd hlate (Nat.not_lt.2 hle)

theorem pruned_pool (hquick : ∀ v ∈ visits, p.now ≤ v.now + staleInventoryGrace) {n x : String}
    {t : ℕ} (hbefore : s.storagePools n x = some t)
    (hafter : (syncCluster p s).storagePools n x = none) :
    t + staleInventoryGrace < p.now ∧
      ∀ v ∈ visits, v.node = n → v.storageOK = true → x ∉ v.storage.names := by
  have hstale {t' : ℕ} (hrow : (syncNodes visits s).2.storagePools n x = some t') :
      t' + staleInventoryGrace < p.now := by
    rw [syncCluster_storagePools hvisits] at hafter
    split_ifs at hafter
    · simpa [deleteStaleStoragePools, hrow] using hafter
    · rw [hrow] at hafter
      cases hafter
  obtain ⟨hsame, hnone⟩ | ⟨v, hv, hrow⟩ :=
    syncNodes_row (·.storagePools n x) (fun v s => syncNode_storagePools n x) visits s
  · refine ⟨hstale (hsame.trans hbefore), fun v hv hn hok hx => hnone v hv ⟨hn.symm, ?_⟩⟩
    obtain ⟨hup, hclean⟩ := Bool.and_eq_true_iff.mp hok
    rw [Visit.writtenPools, if_pos hup, written_of_clean hclean]
    exact hx
  · exact absurd (hstale hrow) (Nat.not_lt.2 (hquick v hv))

end

end

/-! ## Runs -/

/-- Every pass of the run is as `P` says of it and of the inventory before it. -/
def Always (P : Inventory → SyncPass → Prop) : Inventory → List SyncPass → Prop
  | _, [] => True
  | s, p :: passes => P s p ∧ Always P (syncCluster p s) passes

/-- The pass takes no longer than the grace. Of the rows not written for that long: a guest that
exists is on its recorded node when that is visited, or on a node listed and written; and a pool's
node has its storage listed and written. -/
structure Reachable (s : Inventory) (p : SyncPass) (visits : List Visit) : Prop where
  quick : ∀ v ∈ visits, p.now ≤ v.now + staleVMGrace ∧ p.now ≤ v.now + staleInventoryGrace
  guests : ∀ g row, s.vms g = some row → row.lastSeenAt + staleVMGrace < p.now → p.place g ≠ none →
    (∀ v ∈ visits, v.node = row.nodeID → v.place g = some v.node) ∨
      ∃ v ∈ visits, v.place g = some v.node ∧ v.guestsOK = true
  pools : ∀ n x t, s.storagePools n x = some t → t + staleInventoryGrace < p.now →
    ∃ v ∈ visits, v.node = n ∧ v.storageOK = true

/-- The guests of the node were listed without this one since it was last seen. -/
def Visit.Missed (v : Visit) (g : ℕ) (row : GuestRow) : Prop :=
  row.lastSeenAt < v.now ∧ v.vms.isSome = true ∧ v.containers.isSome = true ∧ g ∉ v.guests

/-- The guest is gone, or was missed by a listing of the node that it was on at the time. -/
def GuestMissed (p : SyncPass) (visits : List Visit) (g : ℕ) (row : GuestRow) : Prop :=
  p.place g = none ∨ ∃ v ∈ visits, v.place g = some v.node ∧ v.Missed g row

/-- Since the pool was last seen, its node's storage was listed without it. -/
def PoolMissed (visits : List Visit) (n x : String) (t : ℕ) : Prop :=
  ∃ v ∈ visits, t < v.now ∧ v.node = n ∧ v.storage.isSome = true ∧ x ∉ v.storage.names

/-- The pass prunes only rows that a listing missed. -/
structure PrunesMissed (s : Inventory) (p : SyncPass) (visits : List Visit) : Prop where
  recorded : ∀ g row, s.vms g = some row → (syncCluster p s).vms g = none →
    ∃ v ∈ visits, v.node = row.nodeID ∧ v.Missed g row
  guests : ∀ g row, s.vms g = some row → (syncCluster p s).vms g = none → GuestMissed p visits g row
  pools : ∀ n x t, s.storagePools n x = some t → (syncCluster p s).storagePools n x = none →
    PoolMissed visits n x t

theorem isSome_of_clean {α : Type} {l : Listing α} (h : l.clean = true) : l.isSome = true := by
  cases l with
  | none => cases h
  | some entries => rfl

theorem Reachable.prunesMissed {s : Inventory} {p : SyncPass} {visits : List Visit}
    (hvisits : p.visits = some visits) (h : Reachable s p visits) : PrunesMissed s p visits := by
  have hmissed {g : ℕ} {row : GuestRow} (hstale : row.lastSeenAt + staleVMGrace < p.now)
      (v : Visit) (hv : v ∈ visits) (hok : v.guestsOK = true) (hg : g ∉ v.guests) :
      v.Missed g row := by
    obtain ⟨⟨-, hvms⟩, hcts⟩ : (v.upserted = true ∧ v.vms.clean = true) ∧
        v.containers.clean = true := by simpa [Visit.guestsOK] using hok
    have hquick := (h.quick v hv).1
    exact ⟨by omega, isSome_of_clean hvms, isSome_of_clean hcts, hg⟩
  have hguest {g : ℕ} {row : GuestRow} (hbefore : s.vms g = some row) :=
    pruned_guest hvisits (fun v hv => (h.quick v hv).1) hbefore
  refine ⟨fun g row hbefore hafter => ?_, fun g row hbefore hafter => ?_,
    fun n x t hbefore hafter => ?_⟩
  · obtain ⟨hstale, ⟨v, hv, hnode, hok⟩, hunlisted⟩ := hguest hbefore hafter
    exact ⟨v, hv, hnode, hmissed hstale v hv hok (hunlisted v hv hok)⟩
  · obtain ⟨hstale, ⟨v, hv, hnode, hok⟩, hunlisted⟩ := hguest hbefore hafter
    by_cases hgone : p.place g = none
    · exact .inl hgone
    · obtain hhere | ⟨v', hv', hplace, hok'⟩ := h.guests g row hbefore hstale hgone
      · exact .inr ⟨v, hv, hhere v hv hnode, hmissed hstale v hv hok (hunlisted v hv hok)⟩
      · exact .inr ⟨v', hv', hplace, hmissed hstale v' hv' hok' (hunlisted v' hv' hok')⟩
  · obtain ⟨hstale, hunlisted⟩ := pruned_pool hvisits (fun v hv => (h.quick v hv).2) hbefore hafter
    obtain ⟨v, hv, hnode, hok⟩ := h.pools n x t hbefore hstale
    have hquick := (h.quick v hv).2
    have hclean : v.storage.clean = true := (Bool.and_eq_true_iff.mp hok).2
    exact ⟨v, hv, by omega, hnode, isSome_of_clean hclean, hunlisted v hv hnode hok⟩

/-- **A failed listing deletes nothing.** In every run of passes that each reach what they have long
not seen, a pass prunes only rows that a listing has missed since. -/
theorem prunes_only_unlisted {s : Inventory} {passes : List SyncPass}
    (h : Always (fun s p => ∀ visits, p.visits = some visits → Reachable s p visits) s passes) :
    Always (fun s p => ∀ visits, p.visits = some visits → PrunesMissed s p visits) s passes := by
  induction passes generalizing s with
  | nil => trivial
  | cons p passes ih => exact ⟨fun visits hv => (h.1 visits hv).prunesMissed hv, ih h.2⟩

/-- A guest and a pool are seen on `pve1` and `pve2`. -/
def firstPass : SyncPass where
  visits := some [{ node := "pve1", now := 0, vms := some [(100, true)], place := fun _ => some "pve1" },
    { node := "pve2", now := 0, storage := some [("local", true)], place := fun _ => some "pve1" }]
  now := 0
  place _ := some "pve1"

/-- The guest was removed, and so was the pool. -/
def removedPass : SyncPass where
  visits := some [{ node := "pve1", now := 301, place := fun _ => none },
    { node := "pve2", now := 301, place := fun _ => none }]
  now := 301
  place _ := none

/-- The guest has moved to `pve2`, whose listings fail. -/
def movedPass : SyncPass where
  visits := some [{ node := "pve1", now := 301, place := fun _ => some "pve2" },
    { node := "pve2", now := 301, vms := none, storage := none, place := fun _ => some "pve2" }]
  now := 301
  place _ := some "pve2"

theorem prunes_only_unlisted_removed :
    (syncCluster removedPass (syncCluster firstPass {})).vms 100 = none ∧
    Always (fun s p => ∀ visits, p.visits = some visits → PrunesMissed s p visits) {}
      [firstPass, removedPass] := by
  refine ⟨by decide, prunes_only_unlisted ⟨fun visits hv => ?_, fun visits hv => ?_, trivial⟩⟩
  · cases hv
    exact ⟨by simp [firstPass], nofun, nofun⟩
  · cases hv
    refine ⟨by simp [removedPass, staleVMGrace, staleInventoryGrace], fun _ _ _ _ h => absurd rfl h,
      fun n x t ht _ => ?_⟩
    have hn : n = "pve2" := by
      by_contra hn
      simp [syncCluster, firstPass, syncNodes, Visit.syncNode, Visit.syncVMs, Visit.syncContainers,
        Visit.syncStorage, Listing.sync, Listing.upsertEach, deleteStaleStoragePools,
        deleteStaleVMsForNodes, upsertVM, upsertStoragePool, hn] at ht
    exact ⟨_, .tail _ (.head _), hn.symm, rfl⟩

theorem failed_listing_prunes :
    let s := syncCluster firstPass {}
    (s.vms 100 = some ⟨"pve1", 0⟩ ∧ (syncCluster movedPass s).vms 100 = none ∧
      ∀ visits, movedPass.visits = some visits → ¬GuestMissed movedPass visits 100 ⟨"pve1", 0⟩) ∧
    s.storagePools "pve2" "local" = some 0 ∧ (syncCluster movedPass s).storagePools "pve2" "local" = none ∧
      ∀ visits, movedPass.visits = some visits → ¬PoolMissed visits "pve2" "local" 0 := by
  refine ⟨⟨by decide, by decide, ?_⟩, by decide, by decide, ?_⟩
  · rintro visits ⟨⟩
    simp [GuestMissed, Visit.Missed, movedPass]
  · rintro visits ⟨⟩
    simp [PoolMissed]

end Nexara.Prune
