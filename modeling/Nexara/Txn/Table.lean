import Mathlib.Tactic.Common

/-!
# Tables under read committed

A row has a committed version and, while an open transaction has written it, the version that
transaction will leave, which only that transaction sees. An `UPDATE` waits while a row that it
matches is written by another transaction, and otherwise writes all rows that it matches at once. A
statement is issued as `who`, party `i` in its transaction (`some i`) or outside any (`none`), where
it commits what it writes.

`Sound R` says that the version a transaction will leave is related to the committed one, and
`Grown R` that every row's committed version is related to the one it had. If all writes follow a
preorder `R`, every operation keeps the first and has the second.
-/

namespace Txn

variable {α : Type}

/-- A row, with the version an open transaction has written and whose transaction that is. -/
structure Row (α : Type) where
  committed : α
  pending : Option (ℕ × α) := none

namespace Row

def seen (who : Option ℕ) (x : Row α) : α :=
  match x.pending with
  | some (j, a) => if who = some j then a else x.committed
  | none => x.committed

/-- Another transaction has written the row. -/
def locked (who : Option ℕ) (x : Row α) : Bool := x.pending.any fun p => who ≠ some p.1

def put (who : Option ℕ) (a : α) (x : Row α) : Row α :=
  match who with
  | some i => { x with pending := some (i, a) }
  | none => ⟨a, none⟩

def commit (i : ℕ) (x : Row α) : Row α :=
  match x.pending with
  | some (j, a) => if i = j then ⟨a, none⟩ else x
  | none => x

def rollback (i : ℕ) (x : Row α) : Row α :=
  match x.pending with
  | some (j, _) => if i = j then ⟨x.committed, none⟩ else x
  | none => x

theorem seen_of_none (x : Row α) : x.seen none = x.committed := by
  obtain ⟨a, _ | ⟨j, b⟩⟩ := x <;> rfl

variable {x x' : Row α} {who : Option ℕ} {i j : ℕ} {a b : α}

theorem pending_of_not_locked (h : x.locked who = false) :
    x.pending = none ∨ ∃ i a, who = some i ∧ x.pending = some (i, a) := by
  obtain ⟨c, _ | ⟨j, a⟩⟩ := x
  · exact .inl rfl
  · refine .inr ⟨j, a, ?_, rfl⟩
    simpa [locked] using h

/-- The committed version, or the one a transaction has written. -/
def Version (x : Row α) (a : α) : Prop := a = x.committed ∨ ∃ j, x.pending = some (j, a)

theorem version_seen (who : Option ℕ) (x : Row α) : x.Version (x.seen who) := by
  obtain ⟨c, _ | ⟨j, a⟩⟩ := x
  · exact .inl rfl
  · show Version ⟨c, some (j, a)⟩ (if who = some j then a else c)
    split_ifs
    · exact .inr ⟨j, rfl⟩
    · exact .inl rfl

theorem version_put (h : (x.put who a).Version b) : b = a ∨ x.Version b := by
  cases who with
  | none =>
    rcases h with rfl | ⟨j, hj⟩
    · exact .inl rfl
    · cases hj
  | some i =>
    rcases h with rfl | ⟨j, hj⟩
    · exact .inr (.inl rfl)
    · cases hj
      exact .inl rfl

/-- What the end of transaction `i` leaves of a row: all of it, or one of its versions. -/
def Ended (i : ℕ) (x x' : Row α) : Prop :=
  x' = x ∨ ∃ a, x.pending = some (i, a) ∧ (x' = ⟨a, none⟩ ∨ x' = ⟨x.committed, none⟩)

theorem ended_ite (hp : x.pending = some (j, a)) (h : x' = ⟨a, none⟩ ∨ x' = ⟨x.committed, none⟩) :
    x.Ended i (if i = j then x' else x) := by
  split_ifs with hij
  · exact .inr ⟨a, hij ▸ hp, h⟩
  · exact .inl rfl

theorem ended_commit (i : ℕ) (x : Row α) : x.Ended i (x.commit i) := by
  obtain ⟨c, _ | ⟨j, a⟩⟩ := x
  · exact .inl rfl
  · exact ended_ite rfl (.inl rfl)

theorem ended_rollback (i : ℕ) (x : Row α) : x.Ended i (x.rollback i) := by
  obtain ⟨c, _ | ⟨j, a⟩⟩ := x
  · exact .inl rfl
  · exact ended_ite rfl (.inr rfl)

theorem Ended.version (h : x.Ended i x') (hb : x'.Version b) : x.Version b := by
  obtain rfl | ⟨a, ha, rfl | rfl⟩ := h
  · exact hb
  · exact .inr ⟨i, hb.elim (fun heq => heq ▸ ha) nofun⟩
  · exact .inl (hb.elim id nofun)

theorem locked_of_pending (who : Option ℕ) (hp : x.pending = some (j, a)) (hne : who ≠ some j) :
    x.locked who = true := by
  unfold Row.locked
  rw [hp]
  simpa using hne

variable {R : α → α → Prop}

/-- The version a transaction will leave is related to the committed one. -/
def Sound (R : α → α → Prop) (x : Row α) : Prop := ∀ j a, x.pending = some (j, a) → R x.committed a

variable (hrefl : ∀ a, R a a)
include hrefl

theorem Sound.seen (h : x.Sound R) (who : Option ℕ) : R x.committed (x.seen who) := by
  obtain ⟨c, _ | ⟨j, a⟩⟩ := x
  · exact hrefl c
  · show R c (if who = some j then a else c)
    split_ifs
    · exact h j a rfl
    · exact hrefl c

/-- A write keeps the relation, and what it commits is related to what was there. -/
theorem Sound.put (ha : R x.committed a) :
    (x.put who a).Sound R ∧ R x.committed (x.put who a).committed := by
  cases who with
  | none => exact ⟨nofun, ha⟩
  | some i =>
    refine ⟨fun j b hp => ?_, hrefl _⟩
    cases hp
    exact ha

theorem Sound.ended (h : x.Sound R) (hend : x.Ended i x') : x'.Sound R ∧
    R x.committed x'.committed := by
  obtain rfl | ⟨a, ha, rfl | rfl⟩ := hend
  · exact ⟨h, hrefl _⟩
  · exact ⟨nofun, h i a ha⟩
  · exact ⟨nofun, hrefl _⟩

end Row

/-- Rows found by their key, which is their position; rows are never deleted. -/
abbrev Table (α : Type) := List (Row α)

namespace Table

def get? (who : Option ℕ) (t : Table α) (k : ℕ) : Option α := t[k]?.map (Row.seen who)

/-- The first row with that property, and its key. -/
def find? (p : α → Bool) (t : Table α) : Option (ℕ × α) :=
  (t.zipIdx.find? fun x => p x.1.committed).map fun x => (x.2, x.1.committed)

/-- An `UPDATE` of the rows that match `p`: how many there are, and the table after it. -/
def update (who : Option ℕ) (p : ℕ → α → Bool) (set : α → α) (t : Table α) :
    Option (ℕ × Table α) :=
  if t.zipIdx.any fun x => p x.2 (x.1.seen who) && x.1.locked who then none
  else some (t.zipIdx.countP fun x => p x.2 (x.1.seen who),
    t.mapIdx fun k x => if p k (x.seen who) then x.put who (set (x.seen who)) else x)

def insert (a : α) (t : Table α) : Table α := t ++ [⟨a, none⟩]

def commit (i : ℕ) (t : Table α) : Table α := t.map (Row.commit i)

def rollback (i : ℕ) (t : Table α) : Table α := t.map (Row.rollback i)

/-! ## What the operations do to a row -/

variable {t t' : Table α} {i j k : ℕ} {x : Row α} {a : α}

theorem find?_eq_some {p : α → Bool} (h : t.find? p = some (k, a)) :
    ∃ x, t[k]? = some x ∧ x.committed = a ∧ p a = true := by
  obtain ⟨⟨x, l⟩, hfind, heq⟩ := Option.map_eq_some_iff.mp h
  cases heq
  have hp : p x.committed = true :=
    List.find?_some (p := fun x : Row α × ℕ => p x.1.committed) hfind
  refine ⟨x, ?_, rfl, hp⟩
  have hmem := List.mem_zipIdx_iff_getElem?.mp (List.mem_of_find?_eq_some hfind)
  simpa using hmem

theorem find?_eq_none {p : α → Bool} (h : t.find? p = none)
    (hx : t[k]? = some x) : p x.committed = false := by
  have hfind := Option.map_eq_none_iff.mp h
  have hmem : (x, k) ∈ t.zipIdx := List.mem_zipIdx_iff_getElem?.mpr (by simpa using hx)
  simpa using List.find?_eq_none.mp hfind (x, k) hmem

section

variable {who : Option ℕ} {p : ℕ → α → Bool} {set : α → α} {n : ℕ}
  (h : t.update who p set = some (n, t'))
include h

theorem not_locked_of_update (hx : t[k]? = some x) (hp : p k (x.seen who) = true) : x.locked who =
    false := by
  unfold update at h
  split_ifs at h with hany
  have hmem : (x, k) ∈ t.zipIdx := List.mem_zipIdx_iff_getElem?.mpr (by simpa using hx)
  rw [Bool.not_eq_true, List.any_eq_false] at hany
  simpa [hp] using hany (x, k) hmem

theorem getElem?_of_update (k : ℕ) :
    t'[k]? = t[k]?.map fun x => if p k (x.seen who) then x.put who (set (x.seen who)) else x := by
  unfold update at h
  split_ifs at h
  cases h
  exact List.getElem?_mapIdx

/-- A row that a transaction has written is changed by its own updates only. -/
theorem pending_of_update (hx : t[k]? = some x) (hp : x.pending = some (j, a)) :
    ∃ x' a', t'[k]? = some x' ∧ x'.pending = some (j, a') ∧ x'.committed = x.committed ∧
      (a' = a ∨ who = some j ∧ a' = set a) := by
  have hx' := getElem?_of_update h k
  rw [hx, Option.map_some] at hx'
  by_cases hmatch : p k (x.seen who) = true
  · obtain rfl : who = some j := by
      by_contra hne
      cases (Row.locked_of_pending who hp hne).symm.trans (not_locked_of_update h hx hmatch)
    have hseen : x.seen (some j) = a := by simp [Row.seen, hp]
    rw [if_pos hmatch, hseen] at hx'
    exact ⟨_, _, hx', rfl, rfl, .inr ⟨rfl, rfl⟩⟩
  · rw [if_neg hmatch] at hx'
    exact ⟨x, a, hx', hp, rfl, .inl rfl⟩

theorem exists_of_update (hn : n ≠ 0) : ∃ k x, t[k]? = some x ∧ p k (x.seen who) = true := by
  unfold update at h
  split_ifs at h
  cases h
  obtain ⟨⟨x, k⟩, hmem, hp⟩ := List.countP_pos_iff.mp (Nat.pos_of_ne_zero hn)
  exact ⟨k, x, by simpa using List.mem_zipIdx_iff_getElem?.mp hmem, hp⟩

end

theorem getElem?_commit (i k : ℕ) (t : Table α) : (t.commit i)[k]? = t[k]?.map (Row.commit i) :=
  List.getElem?_map

/-- What the end of transaction `i` leaves of a table. -/
def Ended (i : ℕ) (t t' : Table α) : Prop :=
  ∃ f : Row α → Row α, t' = t.map f ∧ ∀ x : Row α, x.Ended i (f x)

theorem ended_commit (i : ℕ) (t : Table α) : t.Ended i (t.commit i) := ⟨_, rfl, Row.ended_commit i⟩

theorem ended_rollback (i : ℕ) (t : Table α) : t.Ended i (t.rollback i) :=
  ⟨_, rfl, Row.ended_rollback i⟩

theorem Ended.getElem? (h : t.Ended i t') {x' : Row α} (hx' : t'[k]? = some x') :
    ∃ x, t[k]? = some x ∧ x.Ended i x' := by
  obtain ⟨f, rfl, hf⟩ := h
  rw [List.getElem?_map] at hx'
  obtain ⟨x, hx, rfl⟩ := Option.map_eq_some_iff.mp hx'
  exact ⟨x, hx, hf x⟩

/-- Nobody else's transaction ends the version a transaction has written. -/
theorem Ended.pending (h : t.Ended i t') (hx : t[k]? = some x) (hp : x.pending = some (j, a))
    (hne : i ≠ j) : t'[k]? = some x := by
  obtain ⟨f, rfl, hf⟩ := h
  rw [List.getElem?_map, hx, Option.map_some]
  rcases hf x with hsame | ⟨b, hb, -⟩
  · rw [hsame]
  · rw [hp] at hb
    cases hb
    exact absurd rfl hne

theorem getElem?_insert (h : (t.insert a)[k]? = some x) : t[k]? = some x ∨ k = t.length ∧ x =
    ⟨a, none⟩ := by
  rcases Nat.lt_or_ge k t.length with hlt | hge
  · exact .inl (by rwa [insert, List.getElem?_append_left hlt] at h)
  · rw [insert, List.getElem?_append_right hge, List.getElem?_singleton] at h
    split_ifs at h with hk
    cases h
    exact .inr ⟨by omega, rfl⟩

theorem getElem?_insert_of_some (h : t[k]? = some x) : (t.insert a)[k]? = some x := by
  rwa [insert, List.getElem?_append_left (List.getElem?_eq_some_iff.mp h).1]

/-! ## Writes along a preorder -/

def Sound (R : α → α → Prop) (t : Table α) : Prop :=
  ∀ (k : ℕ) (x : Row α), t[k]? = some x → x.Sound R

/-- Every row is still there, with a committed version related to the one it had. -/
def Grown (R : α → α → Prop) (t t' : Table α) : Prop :=
  ∀ (k : ℕ) (x : Row α), t[k]? = some x →
    ∃ x' : Row α, t'[k]? = some x' ∧ R x.committed x'.committed

variable {R : α → α → Prop}

theorem Grown.trans (htrans : ∀ a b c, R a b → R b c → R a c) {t'' : Table α}
    (h : t.Grown R t') (h' : t'.Grown R t'') : t.Grown R t'' := by
  intro k x hx
  obtain ⟨x', hx', hle⟩ := h k x hx
  obtain ⟨x'', hx'', hle'⟩ := h' k x' hx'
  exact ⟨x'', hx'', htrans _ _ _ hle hle'⟩

/-- An operation that acts on each row keeps the table sound if it does so row by row. -/
theorem Sound.of_rows {f : ℕ → Row α → Row α} (h : t.Sound R) (ht' : ∀ k, t'[k]? = t[k]?.map (f k))
    (hf : ∀ k x, t[k]? = some x → x.Sound R → (f k x).Sound R ∧ R x.committed (f k x).committed) :
    t'.Sound R ∧ t.Grown R t' := by
  constructor
  · intro k x' hx'
    rw [ht'] at hx'
    obtain ⟨x, hx, rfl⟩ := Option.map_eq_some_iff.mp hx'
    exact (hf k x hx (h k x hx)).1
  · intro k x hx
    exact ⟨f k x, by rw [ht', hx]; rfl, (hf k x hx (h k x hx)).2⟩

variable (hrefl : ∀ a, R a a)
include hrefl

theorem Grown.refl (t : Table α) : t.Grown R t :=
  fun _ x hx => ⟨x, hx, hrefl _⟩

theorem Sound.update (htrans : ∀ a b c, R a b → R b c → R a c) {who : Option ℕ} {p : ℕ → α → Bool}
    {set : α → α} {n : ℕ} (hset : ∀ k a, p k a = true → R a (set a)) (h : t.Sound R)
    (hu : t.update who p set = some (n, t')) : t'.Sound R ∧ t.Grown R t' := by
  refine h.of_rows (getElem?_of_update hu) fun k x _ hx => ?_
  split_ifs with hp
  · exact Row.Sound.put hrefl (htrans _ _ _ (hx.seen hrefl who) (hset k _ hp))
  · exact ⟨hx, hrefl _⟩

theorem Sound.ended (h : t.Sound R) (hend : t.Ended i t') : t'.Sound R ∧ t.Grown R t' := by
  obtain ⟨f, rfl, hf⟩ := hend
  exact h.of_rows (fun _ => List.getElem?_map) fun _ x _ hx => hx.ended hrefl (hf x)

theorem Sound.insert (h : t.Sound R) (a : α) : (t.insert a).Sound R ∧ t.Grown R (t.insert a) := by
  constructor
  · intro k x hx
    rcases getElem?_insert hx with hx | ⟨-, rfl⟩
    · exact h k x hx
    · intro j b hp
      cases hp
  · exact fun k x hx => ⟨x, getElem?_insert_of_some hx, hrefl _⟩

end Table

end Txn
