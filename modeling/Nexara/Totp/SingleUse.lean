import Nexara.Totp.Phases

/-!
# A recovery code is used once

`consumeRecoveryCode` lists the codes, compares, and deletes the row that matches; whether the
deletion removed a row is not looked at, so two requests that both listed a code are both accepted
(`code_used_twice`). `Apart` are the runs without such a pair.
-/

namespace Nexara.Totp

open Conc Protocol System

/-! ## Rows and their identifiers -/

/-- A row whose identifier is taken and belongs to no other stored row. -/
def World.Known (w : World) (row : CodeRow) : Prop :=
  row.id < w.nextId ∧ ∀ row' ∈ w.codes, row'.id = row.id → row' = row

def World.Keyed (w : World) : Prop := ∀ row ∈ w.codes, w.Known row

/-- No row has the identifier, and none will get it. -/
def World.Gone (w : World) (id : ℕ) : Prop := id < w.nextId ∧ ∀ row ∈ w.codes, row.id ≠ id

/-- Rows are removed, or one is added with a new identifier. -/
inductive World.Moves (w w' : World) : Prop
  | shrink (hcodes : w'.codes.Sublist w.codes) (hid : w'.nextId = w.nextId)
  | insert (hash : String) (hcodes : w'.codes = w.codes ++ [⟨w.nextId, hash⟩])
      (hid : w'.nextId = w.nextId + 1)

section

variable {w w' : World}

theorem World.Moves.nextId_le (hw : w.Moves w') : w.nextId ≤ w'.nextId := by
  cases hw with
  | shrink _ hid => exact Nat.le_of_eq hid.symm
  | insert _ _ hid => exact hid ▸ Nat.le_succ _

theorem World.Moves.mem (hw : w.Moves w') {row : CodeRow} (h : row ∈ w'.codes) :
    row ∈ w.codes ∨ row.id = w.nextId := by
  cases hw with
  | shrink hcodes _ => exact .inl (hcodes.subset h)
  | insert hash hcodes _ =>
    rw [hcodes] at h
    exact (List.mem_append.mp h).imp_right fun hnew => by rw [List.mem_singleton.mp hnew]

theorem World.Moves.mem_of_lt (hw : w.Moves w') {row : CodeRow} (hmem : row ∈ w'.codes)
    (hlt : row.id < w.nextId) : row ∈ w.codes :=
  (hw.mem hmem).resolve_right (Nat.ne_of_lt hlt)

theorem World.Known.moves {row : CodeRow} (h : w.Known row) (hw : w.Moves w') : w'.Known row :=
  ⟨Nat.lt_of_lt_of_le h.1 hw.nextId_le, fun row' hmem heq =>
    h.2 row' (hw.mem_of_lt hmem (heq ▸ h.1)) heq⟩

theorem World.Gone.moves {id : ℕ} (h : w.Gone id) (hw : w.Moves w') : w'.Gone id :=
  ⟨Nat.lt_of_lt_of_le h.1 hw.nextId_le, fun row hmem heq =>
    h.2 row (hw.mem_of_lt hmem (heq ▸ h.1)) heq⟩

theorem World.Keyed.moves (h : w.Keyed) (hw : w.Moves w') : w'.Keyed := by
  intro row hmem
  cases hw with
  | shrink hcodes hid => exact (h row (hcodes.subset hmem)).moves (.shrink hcodes hid)
  | insert hash hcodes hid =>
    rw [hcodes] at hmem
    rcases List.mem_append.mp hmem with hold | hnew
    · exact (h row hold).moves (.insert hash hcodes hid)
    · rw [List.mem_singleton.mp hnew]
      refine ⟨by rw [hid]; exact Nat.lt_succ_self _, fun row' hmem' heq => ?_⟩
      rw [hcodes] at hmem'
      rcases List.mem_append.mp hmem' with hold | hnew
      · exact absurd heq (Nat.ne_of_lt (h row' hold).1)
      · exact List.mem_singleton.mp hnew

end

variable (check : String → String → Bool)

theorem moves_exec (e : Stmt) (o : Outcome e) (w : World) : w.Moves (exec check e o w).2 := by
  cases e with
  | insertCode place hash =>
    match (o : Bool) with
    | true => exact .shrink (List.Sublist.refl _) rfl
    | false => exact .insert hash rfl rfl
  | deleteCode id =>
    match (o : Bool) with
    | true => exact .shrink (List.Sublist.refl _) rfl
    | false => exact .shrink List.filter_sublist rfl
  | deleteAllCodes =>
    match (o : Bool) with
    | true => exact .shrink (List.Sublist.refl _) rfl
    | false => exact .shrink (List.nil_sublist _) rfl
  | getUser => rcases o with _ | ⟨_, _⟩ <;> exact .shrink (List.Sublist.refl _) rfl
  | validateCode _ _ | validateSetup _ _ | compareCodes _ _ | generateCodes _ | issueTokens =>
    exact .shrink (List.Sublist.refl _) rfl
  | _ => cases (o : Bool) <;> exact .shrink (List.Sublist.refl _) rfl

/-! ## Uses and claims -/

/-- The statement that makes `validateCodeOrRecovery` accept a recovery code. -/
def uses (id : ℕ) : (totp check).Entry → Bool
  | ⟨_, _, .deleteCode id', true, _⟩ => decide (id' = id)
  | _ => false

theorem uses_of_ne {check} {en : (totp check).Entry} {id : ℕ}
    (h : ∀ id' : ℕ, en.stmt ≠ Stmt.deleteCode id') : uses check id en = false := by
  unfold uses
  split
  · exact absurd rfl (h _)
  · rfl

/-- The rows that a request can still delete: it has listed them and its code matches them. -/
def Phase.claims (l : Phase) (row : CodeRow) : Prop :=
  match l with
  | .listed input rows | .found input rows _ => row ∈ rows ∧ check row.hash input = true
  | _ => False

/-- No request lists the codes while another stands between its listing and its deletion with a code
that matches a row this request's code matches too. -/
def Apart : (totp check).Cond := fun log i r e _ w =>
  match e with
  | .listCodes => log.all fun en => decide (en.party = i) ||
    ((phases check).loc en.party log : Phase).pending.all fun input =>
      w.codes.all fun row => !(check row.hash input && check row.hash r.recoveryCode)
  | _ => true

theorem Phase.claims.pending {l : Phase} {row : CodeRow} (h : l.claims check row) :
    ∃ input, l.pending = some input ∧ check row.hash input = true := by
  cases l with
  | listed input rows | found input rows id => exact ⟨input, rfl, h.2⟩
  | _ => exact h.elim

/-! ## The invariant -/

structure Single (log : (totp check).Log) (w : World) : Prop where
  keyed : w.Keyed
  /-- A row that was used is gone. -/
  used : ∀ id, ∀ en ∈ log, uses check id en = true → w.Gone id
  known : ∀ k row, ((phases check).loc k log : Phase).claims check row → w.Known row
  /-- No two requests can still delete one row. -/
  apart : ∀ k k' row row', k ≠ k' → ((phases check).loc k log : Phase).claims check row →
    ((phases check).loc k' log : Phase).claims check row' → row.id ≠ row'.id
  /-- A row that a request can still delete was not used. -/
  unused : ∀ k row, ((phases check).loc k log : Phase).claims check row →
    ∀ en ∈ log, uses check row.id en = false
  found : ∀ k input rows id, ((phases check).loc k log : Phase) = .found input rows id →
    matchCode check rows input = some id
  once : ∀ id, log.countP (uses check id) ≤ 1

section

variable {check} {log : (totp check).Log} {i : ℕ} {r : Role} {e : Stmt} {a : Ans e}
  {w w' : World}

/-- A step keeps the invariant if what its request can delete afterwards, and the row it uses, were
left to it by the others. -/
theorem Single.cons (h : Single check log w) (hmoves : w.Moves w')
    (hclaims : ∀ row, (Phase.next r ((phases check).loc i log) e a).claims check row →
      w'.Known row ∧ uses check row.id ⟨i, r, e, a, w⟩ = false ∧
      (∀ en ∈ log, uses check row.id en = false) ∧
      ∀ k ≠ i, ∀ row', ((phases check).loc k log : Phase).claims check row' → row.id ≠ row'.id)
    (hfound : ∀ input rows id,
      Phase.next r ((phases check).loc i log) e a = .found input rows id →
      matchCode check rows input = some id)
    (huse : ∀ id, uses check id ⟨i, r, e, a, w⟩ = true → w'.Gone id ∧
      (∀ en ∈ log, uses check id en = false) ∧
      ∀ k ≠ i, ∀ row, ((phases check).loc k log : Phase).claims check row → row.id ≠ id) :
    Single check (⟨i, r, e, a, w⟩ :: log) w' where
  keyed := h.keyed.moves hmoves
  used := by
    intro id en hmem hen
    rcases List.mem_cons.mp hmem with rfl | hmem
    · exact (huse id hen).1
    · exact (h.used id en hmem hen).moves hmoves
  known := forall_loc (T := phases check)
    (p := fun _ (l : Phase) => ∀ row, l.claims check row → w'.Known row)
    (fun row hrow => (hclaims row hrow).1) fun k _ row hrow => (h.known k row hrow).moves hmoves
  apart := fun k k' row row' hne => pairwise_loc (T := phases check)
    (p := fun (l l' : Phase) => ∀ row row', l.claims check row → l'.claims check row' →
      row.id ≠ row'.id)
    (fun l l' hl row row' hrow hrow' => (hl row' row hrow' hrow).symm)
    (fun k hk row row' hrow hrow' => (hclaims row hrow).2.2.2 k hk row' hrow')
    (fun k k' hne row row' => h.apart k k' row row' hne) k k' hne row row'
  unused := by
    refine forall_loc (T := phases check) (p := fun _ (l : Phase) => ∀ row,
      l.claims check row → ∀ en ∈ ⟨i, r, e, a, w⟩ :: log, uses check row.id en = false) ?_ ?_
    · intro row hrow
      obtain ⟨-, hnew, hold, -⟩ := hclaims row hrow
      exact List.forall_mem_cons.mpr ⟨hnew, hold⟩
    · intro k hk row hrow
      refine List.forall_mem_cons.mpr ⟨?_, h.unused k row hrow⟩
      by_contra hnew
      exact (huse row.id (Bool.not_eq_false _ ▸ hnew)).2.2 k hk row hrow rfl
  found := forall_loc (T := phases check)
    (p := fun _ (l : Phase) => ∀ input rows id, l = .found input rows id →
      matchCode check rows input = some id) hfound fun k _ => h.found k
  once := by
    intro id
    rw [List.countP_cons]
    split_ifs with hnew
    · have hnone : log.countP (uses check id) = 0 :=
        List.countP_eq_zero.mpr fun en hmem => Bool.not_eq_true _ ▸ (huse id hnew).2.1 en hmem
      omega
    · exact h.once id

/-- A step that uses no row and leaves its request no more rows than it had keeps the invariant. -/
theorem Single.carry (h : Single check log w) (hmoves : w.Moves w')
    (huse : ∀ id, uses check id ⟨i, r, e, a, w⟩ = false)
    (hclaims : ∀ row, (Phase.next r ((phases check).loc i log) e a).claims check row →
      ((phases check).loc i log : Phase).claims check row) (hfound : ∀ input rows id,
      Phase.next r ((phases check).loc i log) e a = .found input rows id →
      matchCode check rows input = some id) : Single check (⟨i, r, e, a, w⟩ :: log) w' := by
  refine h.cons hmoves (fun row hrow => ?_) hfound fun id hid => ?_
  · exact ⟨(h.known i row (hclaims row hrow)).moves hmoves, huse row.id,
      h.unused i row (hclaims row hrow),
      fun k hk row' => h.apart i k row row' hk.symm (hclaims row hrow)⟩
  · rw [huse id] at hid
    cases hid

theorem not_matched_of_apart {o : Outcome .listCodes} {k : ℕ} {row : CodeRow}
    (hok : Apart check log i r .listCodes o w = true) (hk : k ≠ i)
    (hclaims : ((phases check).loc k log : Phase).claims check row) (hmem : row ∈ w.codes) :
    check row.hash r.recoveryCode = false := by
  obtain ⟨input, hpending, hmatch⟩ := hclaims.pending
  obtain ⟨en, hen, rfl⟩ := seen_of_loc fun hout => by
    rw [hout] at hpending
    cases hpending
  have hall := List.all_eq_true.mp hok en hen
  rw [hpending, Bool.or_eq_true, decide_eq_true_eq] at hall
  have hrow := List.all_eq_true.mp (hall.resolve_left hk) row hmem
  rwa [hmatch, Bool.not_eq_true'] at hrow

section

variable (h : Single check log w)

include h

/-- A request that lists the codes can delete the rows it matches, and no other request can. -/
theorem single_listCodes {o : Outcome .listCodes} (hok : Apart check log i r .listCodes o w = true)
    {rows : Ans .listCodes} (hrows : rows = none ∨ rows = some w.codes) :
    Single check (⟨i, r, .listCodes, rows, w⟩ :: log) w := by
  have hsame : w.Moves w := .shrink (List.Sublist.refl _) rfl
  rcases hrows with rfl | rfl
  · exact h.cons hsame (fun row hrow => hrow.elim) nofun nofun
  · refine h.cons hsame (fun row hrow => ?_) nofun nofun
    obtain ⟨hmem, hmatch⟩ : row ∈ w.codes ∧ check row.hash r.recoveryCode = true := hrow
    refine ⟨h.keyed row hmem, rfl, fun en hen => ?_, fun k hk row' hrow' heq => ?_⟩
    · -- a used row is not stored
      by_contra hused
      exact (h.used row.id en hen (Bool.not_eq_false _ ▸ hused)).2 row hmem rfl
    · have hrow : row = row' := (h.known k row' hrow').2 row hmem heq
      subst hrow
      rw [not_matched_of_apart hok hk hrow' hmem] at hmatch
      cases hmatch

theorem Single.claims_found {input : String} {rows : List CodeRow} {id : ℕ}
    (hl : ((phases check).loc i log : Phase) = .found input rows id) :
    ∃ row, ((phases check).loc i log : Phase).claims check row ∧ row.id = id := by
  obtain ⟨row, hfind, hid⟩ := Option.map_eq_some_iff.mp (h.found i input rows id hl)
  have hmatch := List.find?_some hfind
  rw [hl]
  exact ⟨row, ⟨List.mem_of_find?_eq_some hfind, hmatch⟩, hid⟩

theorem single_deleteCode {id : ℕ} {fails : Bool}
    (hmay : ((phases check).loc i log : Phase).may (.deleteCode id)) :
    Single check (⟨i, r, .deleteCode id, (exec check (.deleteCode id) fails w).1, w⟩ :: log)
      (exec check (.deleteCode id) fails w).2 := by
  have hmoves := moves_exec check (.deleteCode id) fails w
  cases fails with
  | true => exact h.cons hmoves (fun row hrow => hrow.elim) nofun nofun
  | false =>
    obtain ⟨input, rows, hl⟩ := hmay
    obtain ⟨row, hrow, rfl⟩ := h.claims_found hl
    refine h.cons hmoves (fun row hrow => hrow.elim) nofun fun id' hid' => ?_
    obtain rfl : row.id = id' := of_decide_eq_true hid'
    refine ⟨⟨(h.known i row hrow).1, fun row' hmem => ?_⟩, h.unused i row hrow,
      fun k hk row' hrow' => h.apart k i row' row hk hrow' hrow⟩
    exact of_decide_eq_true (List.mem_filter.mp hmem).2

theorem single_compareCodes {rows : List CodeRow} {input : String}
    (hmay : ((phases check).loc i log : Phase).may (.compareCodes rows input)) :
    Single check (⟨i, r, .compareCodes rows input, matchCode check rows input, w⟩ :: log) w := by
  have hl : ((phases check).loc i log : Phase) = .listed input rows := hmay
  refine h.carry (.shrink (List.Sublist.refl _) rfl) (fun _ => rfl) (fun row hrow => ?_)
    fun input' rows' id hid => ?_
  · rw [hl] at hrow ⊢
    cases hmatch : matchCode check rows input with
    | none => rw [hmatch] at hrow; exact hrow.elim
    | some id => rw [hmatch] at hrow; exact hrow
  · rw [hl] at hid
    cases hmatch : matchCode check rows input with
    | none => rw [hmatch] at hid; cases hid
    | some id => rw [hmatch] at hid; cases hid; exact hmatch

theorem single_step {o : Outcome e} (hok : Apart check log i r e o w = true)
    (hmay : ((phases check).loc i log : Phase).may e) :
    Single check (⟨i, r, e, (exec check e o w).1, w⟩ :: log) (exec check e o w).2 := by
  by_cases hlist : e = .listCodes
  · subst hlist
    match (o : Bool) with
    | true => exact single_listCodes h hok (.inl rfl)
    | false => exact single_listCodes h hok (.inr rfl)
  by_cases hcompare : ∃ rows input, e = .compareCodes rows input
  · obtain ⟨rows, input, rfl⟩ := hcompare
    exact single_compareCodes h hmay
  by_cases hdelete : ∃ id, e = .deleteCode id
  · obtain ⟨id, rfl⟩ := hdelete
    exact single_deleteCode h hmay
  -- the other statements do not touch what a request holds
  have hnext := Phase.next_eq_or_pending (r := r) (l := (phases check).loc i log)
    (a := (exec check e o w).1) hlist fun rows input heq => hcompare ⟨rows, input, heq⟩
  refine h.carry (moves_exec check e o w) (fun id => ?_) (fun row hrow => ?_)
    fun input rows id hid => ?_
  · exact uses_of_ne fun id heq => hdelete ⟨id, heq⟩
  · rcases hnext with heq | hnone
    · rwa [heq] at hrow
    · obtain ⟨input, hsome, -⟩ := hrow.pending
      rw [hnone] at hsome
      cases hsome
  · rcases hnext with heq | hnone
    · rw [heq] at hid
      exact h.found i input rows id hid
    · rw [hid] at hnone
      cases hnone

end

end

/-- **Single use.** From any stored codes, if no request lists the codes while another holds a row
that both match, each row makes at most one request succeed. -/
theorem code_used_once {w : World} (hw : w.Keyed) {c : (totp check).Pool}
    (hc : (totp check).Reach (Apart check) (Pool.idle w) c) (id : ℕ) :
    c.log.countP (uses check id) ≤ 1 := by
  have hinit : Single check [] w :=
    { keyed := hw
      used := fun _ _ hmem => absurd hmem List.not_mem_nil
      known := fun _ _ h => h.elim
      apart := fun _ _ _ _ _ h => h.elim
      unused := fun _ _ h => h.elim
      found := nofun
      once := fun _ => Nat.zero_le 1 }
  refine (invariant (phases_followed check) hinit ?_ hc).once id
  intro log i r e o a s s' h hok hmay hx
  have hstep := single_step h hok hmay
  rwa [show exec check e o s = (a, s') from Option.some.inj hx] at hstep

/-! ## One code, two requests -/

/-- Two pending logins of a user with one recovery code. -/
def oneCode : World :=
  { secret := some "s", codes := [⟨0, "A"⟩], nextId := 1, pending := fun _ => some ⟨some 0⟩ }

/-- The two logins are started, and take steps in this order. -/
def logins (order : List ℕ) : List (totp (· == ·)).Event :=
  [.start (.verifyLogin 0 ⟨"", "A"⟩), .start (.verifyLogin 1 ⟨"", "A"⟩)] ++
    order.map fun i => .step i (works false)

/-- The second login lists the codes before the first one deletes: both are accepted. -/
theorem code_used_twice : ∃ c, (totp (· == ·)).Reach Cond.any (Pool.idle oneCode) c ∧
    c.log.countP (uses (· == ·) 0) = 2 :=
  exists_reach _ _ (logins (List.replicate 6 0 ++ List.replicate 8 1 ++ List.replicate 2 0)) _
    (by decide +kernel)

/-- One after the other, the second one is refused. -/
theorem code_used_once_in_turn :
    ∃ c, (totp (· == ·)).Reach (Apart (· == ·)) (Pool.idle oneCode) c ∧
      c.log.countP (uses (· == ·) 0) = 1 ∧ ∀ id, c.log.countP (uses (· == ·) id) ≤ 1 := by
  obtain ⟨c, hc, h⟩ := exists_reach (M := totp (· == ·)) (Apart (· == ·)) oneCode
    (logins (List.replicate 8 0 ++ List.replicate 7 1))
    (fun c => c.log.countP (uses (· == ·) 0) = 1) (by decide +kernel)
  have hkeyed : oneCode.Keyed := by
    intro row hmem
    obtain rfl := List.mem_singleton.mp hmem
    exact ⟨Nat.zero_lt_one, fun row' hmem' _ => List.mem_singleton.mp hmem'⟩
  exact ⟨c, hc, h, code_used_once (· == ·) hkeyed hc⟩

end Nexara.Totp
