import Nexara.Totp.Phases

/-!
# How many codes can be guessed before the lock

The lock is tested, the code compared and the refusal counted in separate steps, so requests that
have all tested the lock compare one code each, however many they are (`guesses_past_ceiling`).
`InTurn` are the runs in which no request finds the lock absent while another is in the middle of
this.
-/

namespace Nexara.Totp

open Conc Protocol System

variable (check : String → String → Bool)

/-! ## Comparisons between two locks -/

def isComparison : (totp check).Entry → Bool
  | ⟨_, _, .validateCode _ _, some _, _⟩ => true
  | ⟨_, _, .compareCodes _ _, _, _⟩ => true
  | _ => false

def isLocking : (totp check).Entry → Bool
  | ⟨_, _, .setLock, _, _⟩ => true
  | _ => false

def comparisons : (totp check).Log → ℕ
  | [] => 0
  | en :: log =>
    if isLocking check en then 0
    else if isComparison check en then comparisons log + 1
    else comparisons log

/-- The commands on the lock and on the counter do not fail, and no code is right. -/
def NoneRight : (totp check).Cond := fun _ _ _ e o _ =>
  match e, o with
  | .existsLock, fails | .incrFail, fails | .setLock, fails | .delFail, fails =>
    !(fails : Bool)
  | .validateCode _ _, valid => match (valid : Option Bool) with
    | some true => false
    | _ => true
  | .compareCodes rows input, _ => (matchCode check rows input).isNone
  | _, _ => true

/-- The request is not in the middle of its test. -/
def Phase.isOut (l : Phase) : Bool := decide (l = .out)

theorem Phase.isOut_iff {l : Phase} : l.isOut = true ↔ l = .out := decide_eq_true_iff

/-- No request finds the lock absent while another stands between its test of the lock and the end
of its counting. -/
def InTurn : (totp check).Cond := fun log i _ e _ w =>
  match e with
  | .existsLock => w.lock || log.all fun en =>
    decide (en.party = i) || ((phases check).loc en.party log : Phase).isOut
  | _ => true

/-! ## What the phases mean for the counter -/

/-- The comparisons since the last lock and the counter, for the request that is in the middle of its
test. -/
def Phase.Bound (m : ℕ) (w : World) : Phase → Prop
  | .out => m ≤ w.fails ∧ m < totpLockoutThreshold
  | .tested | .listed _ _ => m ≤ w.fails ∧ m < totpLockoutThreshold ∧ w.lock = false
  | .refused => m ≤ w.fails + 1 ∧ m ≤ totpLockoutThreshold
  | .locking => m ≤ totpLockoutThreshold
  | .locked => m = 0
  | .found _ _ _ | .accepted => False

section

variable {check} {l : Phase} {m : ℕ} {w w' : World}

theorem Phase.Bound.le (h : l.Bound m w) : m ≤ totpLockoutThreshold := by
  cases l with
  | out => exact Nat.le_of_lt h.2
  | tested | listed input rows => exact Nat.le_of_lt h.2.1
  | refused => exact h.2
  | locking => exact h
  | locked => exact h.symm ▸ Nat.zero_le _
  | found input rows id | accepted => exact h.elim

theorem Phase.Bound.frame (h : l.Bound m w) (hfails : w'.fails = w.fails)
    (hlock : w'.lock = w.lock ∨ w'.lock = false) : l.Bound m w' := by
  have hopen : w.lock = false → w'.lock = false := fun hw => hlock.elim (·.trans hw) id
  cases l with
  | out | refused => exact ⟨hfails ▸ h.1, h.2⟩
  | tested | listed input rows => exact ⟨hfails ▸ h.1, h.2.1, hopen h.2.2⟩
  | _ => exact h

theorem Phase.Bound.end (h : l.Bound m w) (hl : l = .out ∨ l = .tested) : Phase.Bound m w .out := by
  rcases hl with rfl | rfl
  · exact h
  · exact ⟨h.1, h.2.1⟩

end

/-- The statements that write the counter or set the lock. -/
def WritesLock : Stmt → Prop
  | .incrFail | .setLock | .delFail | .delFailAndLock => True
  | _ => False

theorem frame_exec {e : Stmt} (h : ¬WritesLock e) (o : Outcome e) (w : World) :
    (exec check e o w).2.fails = w.fails ∧
      ((exec check e o w).2.lock = w.lock ∨ (exec check e o w).2.lock = false) := by
  cases e with
  | incrFail | setLock | delFail | delFailAndLock => exact absurd trivial h
  | dropLock => exact ⟨rfl, .inr rfl⟩
  | getUser => rcases o with _ | ⟨_, _⟩ <;> exact ⟨rfl, .inl rfl⟩
  | validateCode _ _ | validateSetup _ _ | compareCodes _ _ | generateCodes _ | issueTokens =>
    exact ⟨rfl, .inl rfl⟩
  | _ => cases (o : Bool) <;> exact ⟨rfl, .inl rfl⟩

section

variable {check} {log : (totp check).Log} {i : ℕ} {r : Role} {e : Stmt} {w : World}

theorem comparisons_of_idle (he : Idle e) (a : Ans e) :
    comparisons check (⟨i, r, e, a, w⟩ :: log) = comparisons check log := by
  cases e <;> first | exact he.elim | rfl

theorem bound_next {l : Phase} {o : Outcome e} (hok : NoneRight check log i r e o w = true)
    (hmay : l.may e) (h : l.Bound (comparisons check log) w) :
    (Phase.next r l e (exec check e o w).1).Bound
      (comparisons check (⟨i, r, e, (exec check e o w).1, w⟩ :: log)) (exec check e o w).2 := by
  by_cases hidle : Idle e
  · have hwrites : ¬WritesLock e := by
      cases e <;> first | exact hidle.elim | exact id
    obtain ⟨hfails, hlock⟩ := frame_exec check hwrites o w
    rw [comparisons_of_idle hidle, (hidle.keeps l).2]
    exact h.frame hfails hlock
  cases e with
  | existsLock =>
    cases hmay
    obtain rfl : o = false := (Bool.not_eq_true' o).mp hok
    show (Phase.next r .out .existsLock w.lock).Bound (comparisons check log) w
    cases hlock : w.lock with
    | true => exact h
    | false => exact ⟨h.1, h.2, hlock⟩
  | getUser =>
    have hsame : (exec check .getUser o w).2 = w := by rcases o with _ | ⟨_, _⟩ <;> rfl
    rw [hsame]
    show (l.readUser (exec check .getUser o w).1).Bound (comparisons check log) w
    rcases l.readUser_eq (exec check .getUser o w).1 with heq | heq <;> rw [heq]
    · exact h
    · exact h.end hmay
  | getSecret =>
    have hsame : (exec check .getSecret o w).2 = w := by cases (o : Bool) <;> rfl
    rw [hsame]
    show (l.readSecret (exec check .getSecret o w).1).Bound (comparisons check log) w
    rcases l.readSecret_eq (exec check .getSecret o w).1 with heq | heq <;> rw [heq]
    · exact h
    · exact h.end hmay
  | delPending token =>
    obtain ⟨hfails, hlock⟩ := frame_exec check id o w
    refine Phase.Bound.frame ?_ hfails hlock
    cases l with
    | tested => exact h.end (.inr rfl)
    | _ => exact h
  | validateCode secret code =>
    cases hmay
    rcases (o : Option Bool) with _ | _ | _
    · exact h.end (.inr rfl)
    · exact ⟨Nat.succ_le_succ h.1, h.2.1⟩
    · cases hok
  | listCodes =>
    cases hmay
    cases (o : Bool) with
    | true => exact ⟨Nat.le_succ_of_le h.1, Nat.le_of_lt h.2.1⟩
    | false => exact h
  | compareCodes rows input =>
    cases hmay
    have hnone : matchCode check rows input = none := Option.isNone_iff_eq_none.mp hok
    show (Phase.compare (.listed input rows) (matchCode check rows input)).Bound
      (comparisons check log + 1) w
    rw [hnone]
    exact ⟨Nat.succ_le_succ h.1, h.2.1⟩
  | deleteCode id =>
    obtain ⟨input, rows, rfl⟩ := hmay
    exact h.elim
  | incrFail =>
    cases hmay
    obtain rfl : o = false := (Bool.not_eq_true' o).mp hok
    show (if totpLockoutThreshold ≤ w.fails + 1 then Phase.locking else .out).Bound
      (comparisons check log) { w with fails := w.fails + 1 }
    split_ifs with hmany
    · exact h.2
    · exact ⟨h.1, Nat.lt_of_le_of_lt h.1 (Nat.not_le.mp hmany)⟩
  | setLock => exact rfl
  | delFail =>
    cases hmay
    obtain rfl : o = false := (Bool.not_eq_true' o).mp hok
    have hnone : comparisons check log = 0 := h
    show comparisons check log ≤ 0 ∧ comparisons check log < totpLockoutThreshold
    rw [hnone]
    exact ⟨Nat.le_refl 0, by decide⟩
  | delFailAndLock =>
    cases hmay
    exact h.elim
  | clearSecret =>
    rcases hmay with rfl | rfl
    · cases (o : Bool) <;> exact h
    · exact h.elim
  | _ => exact absurd trivial hidle

/-- A request outside compares nothing and leaves counter and lock alone; it comes in when it finds
no lock. -/
theorem aside_of_out (log : (totp check).Log) (i : ℕ) (r : Role) (w : World)
    (hmay : Phase.out.may e) (a : Ans e) :
    ¬WritesLock e ∧ isComparison check ⟨i, r, e, a, w⟩ = false ∧
      comparisons check (⟨i, r, e, a, w⟩ :: log) = comparisons check log ∧
      (e ≠ .existsLock → Phase.next r .out e a = .out) := by
  cases e with
  | validateCode secret code | listCodes | compareCodes rows input | incrFail | setLock | delFail
  | delFailAndLock => cases hmay
  | deleteCode id => obtain ⟨_, _, h⟩ := hmay; cases h
  | existsLock => exact ⟨id, rfl, rfl, fun h => absurd rfl h⟩
  | getUser => exact ⟨id, rfl, rfl, fun _ => (Phase.readUser_eq .out a).elim id id⟩
  | getSecret => exact ⟨id, rfl, rfl, fun _ => (Phase.readSecret_eq .out a).elim id id⟩
  | clearSecret => cases (a : Bool) <;> exact ⟨id, rfl, rfl, fun _ => rfl⟩
  | _ => exact ⟨id, rfl, rfl, fun _ => rfl⟩

theorem unlocked_of_comparison {l : Phase} {m : ℕ} {a : Ans e} (hmay : l.may e) (h : l.Bound m w)
    (hcompare : isComparison check ⟨i, r, e, a, w⟩ = true) : w.lock = false := by
  unfold isComparison at hcompare
  split at hcompare
  · next heq =>
    cases heq
    cases hmay
    exact h.2.2
  · next heq =>
    cases heq
    cases hmay
    exact h.2.2
  · cases hcompare

end

/-! ## The invariant -/

/-- At most one request is in the middle of its test, and what is compared is compared without the
lock. -/
structure Ceiling (log : (totp check).Log) (w : World) : Prop where
  one : ∃ j, (∀ k, k ≠ j → ((phases check).loc k log : Phase) = .out) ∧
    ((phases check).loc j log : Phase).Bound (comparisons check log) w
  unlocked : ∀ en ∈ log, isComparison check en = true → en.before.lock = false

section

variable {check} {log : (totp check).Log} {i : ℕ} {r : Role} {e : Stmt} {w : World}

/-- When no request is in the middle of its test, any request can be taken for the one that is. -/
theorem Ceiling.one_or (h : Ceiling check log w) (i : ℕ) :
    ∃ j, (∀ k, k ≠ j → ((phases check).loc k log : Phase) = .out) ∧
      ((phases check).loc j log : Phase).Bound (comparisons check log) w ∧
      (((phases check).loc j log : Phase) = .out → j = i) := by
  obtain ⟨j, hout, hbound⟩ := h.one
  by_cases hj : ((phases check).loc j log : Phase) = .out
  · have hall : ∀ k, ((phases check).loc k log : Phase) = .out := by
      intro k
      by_cases hk : k = j
      · rw [hk, hj]
      · exact hout k hk
    refine ⟨i, fun k _ => hall k, ?_, fun _ => rfl⟩
    rwa [hall i, ← hj]
  · exact ⟨j, hout, hbound, fun h => absurd h hj⟩

theorem out_of_inTurn {o : Outcome .existsLock} {j : ℕ}
    (hok : InTurn check log i r .existsLock o w = true) (hlock : w.lock = false) (hj : j ≠ i) :
    ((phases check).loc j log : Phase) = .out := by
  by_contra hne
  obtain ⟨en, hen, rfl⟩ := seen_of_loc hne
  replace hok : (w.lock || log.all fun en => decide (en.party = i) ||
    ((phases check).loc en.party log : Phase).isOut) = true := hok
  rw [hlock] at hok
  have hout := List.all_eq_true.mp hok en hen
  rw [Bool.or_eq_true, decide_eq_true_eq] at hout
  exact hne (Phase.isOut_iff.mp (hout.resolve_left hj))

theorem ceiling_step {o : Outcome e} (h : Ceiling check log w)
    (hnone : NoneRight check log i r e o w = true) (hturn : InTurn check log i r e o w = true)
    (hmay : ((phases check).loc i log : Phase).may e) :
    Ceiling check (⟨i, r, e, (exec check e o w).1, w⟩ :: log) (exec check e o w).2 := by
  obtain ⟨j, hout, hbound, hother⟩ := h.one_or i
  by_cases hij : j = i
  · subst hij
    refine ⟨⟨j, fun k hk => ?_, ?_⟩, List.forall_mem_cons.mpr ⟨?_, h.unlocked⟩⟩
    · exact (loc_ne (Ne.symm hk) ..).trans (hout k hk)
    · have hself : ((phases check).loc j (⟨j, r, e, (exec check e o w).1, w⟩ :: log) : Phase) =
          Phase.next r ((phases check).loc j log) e (exec check e o w).1 := loc_self ..
      rw [hself]
      exact bound_next hnone hmay hbound
    · exact unlocked_of_comparison hmay hbound
  · -- another request is in the middle of its test, so this one stays outside
    have hi := hout i (Ne.symm hij)
    rw [hi] at hmay
    obtain ⟨hwrites, hcompare, hcount, hstays⟩ :=
      aside_of_out log i r w hmay (exec check e o w).1
    have hnext : Phase.next r .out e (exec check e o w).1 = .out := by
      by_cases he : e = .existsLock
      · subst he
        obtain rfl : o = false := (Bool.not_eq_true' o).mp hnone
        cases hlock : w.lock with
        | true =>
          show Phase.next r .out .existsLock w.lock = .out
          rw [hlock]
          rfl
        | false => exact absurd (hother (out_of_inTurn hturn hlock hij)) hij
      · exact hstays he
    obtain ⟨hfails, hlock⟩ := frame_exec check hwrites o w
    refine ⟨⟨j, fun k hk => ?_, ?_⟩, List.forall_mem_cons.mpr ⟨?_, h.unlocked⟩⟩
    · refine forall_loc (T := phases check) (p := fun k (l : Phase) => k ≠ j → l = .out)
        (fun _ => ?_) (fun k _ hk => hout k hk) k hk
      rwa [hi]
    · have hj : ((phases check).loc j (⟨i, r, e, (exec check e o w).1, w⟩ :: log) : Phase) =
          (phases check).loc j log := loc_ne (Ne.symm hij) ..
      rw [hj, hcount]
      exact hbound.frame hfails hlock
    · rw [hcompare]
      nofun

end

/-- The run's assumptions, and one test of a code at a time. -/
def Guarded : (totp check).Cond := fun log i r e o w =>
  NoneRight check log i r e o w && InTurn check log i r e o w

/-- **The ceiling.** From any state, if no code is right and no request finds the lock absent while
another is in the middle of its test, at most `totpLockoutThreshold` codes are compared before the
lock is set, and none while it is. -/
theorem guesses_within_ceiling {w : World} {c : (totp check).Pool}
    (hc : (totp check).Reach (Guarded check) (Pool.idle w) c) :
    comparisons check c.log ≤ totpLockoutThreshold ∧
      ∀ en ∈ c.log, isComparison check en = true → en.before.lock = false := by
  have hinit : Ceiling check [] w :=
    ⟨⟨0, fun _ _ => rfl, Nat.zero_le _, Nat.zero_lt_succ 4⟩, fun _ hmem => absurd hmem List.not_mem_nil⟩
  have hinv : Ceiling check c.log c.shared := by
    refine invariant (phases_followed check) hinit ?_ hc
    intro log i r e o a s s' h hok hmay hx
    obtain ⟨hnone, hturn⟩ := Bool.and_eq_true_iff.mp hok
    have hstep := ceiling_step h hnone hturn hmay
    rwa [show exec check e o s = (a, s') from Option.some.inj hx] at hstep
  obtain ⟨j, -, hbound⟩ := hinv.one
  exact ⟨hbound.le, hinv.unlocked⟩

/-! ## Six requests -/

def guessed : World :=
  { secret := some "s", codes := [⟨0, "A"⟩], nextId := 1, pending := fun _ => some ⟨some 0⟩ }

/-- Six logins, each with its own pending token and a wrong recovery code, take so many steps each.
-/
def guesses (turns : List (ℕ × ℕ)) : List (totp (· == ·)).Event :=
  (List.range 6).map (fun token => .start (.verifyLogin token ⟨"", "X"⟩)) ++
    turns.flatMap fun (i, steps) => List.replicate steps (.step i (works false))

/-- All of them test the lock before one of them counts its failure. -/
theorem guesses_past_ceiling :
    ∃ c, (totp (· == ·)).Reach (NoneRight (· == ·)) (Pool.idle guessed) c ∧
      comparisons (· == ·) c.log = totpLockoutThreshold + 1 :=
  exists_reach _ _ (guesses ((List.range 6).map (·, 4) ++ (List.range 6).map (·, 3))) _
    (by decide +kernel)

/-- One after the other, five of them are compared and the sixth finds the lock. -/
theorem guesses_within_ceiling_in_turn :
    ∃ c, (totp (· == ·)).Reach (Guarded (· == ·)) (Pool.idle guessed) c ∧
      c.log.countP (isComparison (· == ·)) = 5 ∧ c.quiet = true ∧
      comparisons (· == ·) c.log ≤ totpLockoutThreshold ∧
      ∀ en ∈ c.log, isComparison (· == ·) en = true → en.before.lock = false := by
  obtain ⟨c, hc, hcount, hquiet⟩ := exists_reach (M := totp (· == ·)) (Guarded (· == ·))
    guessed (guesses [(0, 9), (1, 8), (2, 8), (3, 8), (4, 11), (5, 4)])
    (fun c => c.log.countP (isComparison (· == ·)) = 5 ∧ c.quiet = true) (by decide +kernel)
  exact ⟨c, hc, hcount, hquiet, guesses_within_ceiling (· == ·) hc⟩

end Nexara.Totp
