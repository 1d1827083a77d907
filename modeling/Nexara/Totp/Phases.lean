import Nexara.Totp.Handlers

/-!
# What a request has done so far

A request that tests a code finds no lock, checks the code (or lists the recovery codes, compares
and deletes), and counts a refusal; the refusal that reaches the threshold sets the lock and deletes
the counter. `phases` reads off a request's own statements where in this it stands.
-/

namespace Nexara.Totp

open Conc

inductive Phase
  | out
  /-- The lock was tested and not found. -/
  | tested
  | listed (input : String) (rows : List CodeRow)
  | found (input : String) (rows : List CodeRow) (id : ℕ)
  /-- The code is refused and not yet counted. -/
  | refused
  /-- The code is accepted and the counter not yet cleared. -/
  | accepted
  /-- The counter has reached the threshold. -/
  | locking
  /-- The lock is set and the counter not yet deleted. -/
  | locked
  deriving DecidableEq

def Role.recoveryCode : Role → String
  | .verifyLogin _ input => input.recoveryCode
  | .disable input => input.recoveryCode
  | _ => ""

namespace Phase

def counted : Option ℕ → Phase
  | none => .out
  | some fails => if totpLockoutThreshold ≤ fails then .locking else .out

/-- After the user's row is read: the request goes on for an active user with a secret. -/
def readUser (l : Phase) : Option UserRow → Phase
  | some ⟨true, some _, _⟩ => l
  | _ => .out

theorem readUser_eq (l : Phase) (user : Option UserRow) :
    l.readUser user = l ∨ l.readUser user = .out := by
  rcases user with _ | ⟨_ | _, _ | _, _⟩
  all_goals first | exact .inr rfl | exact .inl rfl

def readSecret (l : Phase) : Option (Option String) → Phase
  | some (some _) => l
  | _ => .out

theorem readSecret_eq (l : Phase) (secret : Option (Option String)) :
    l.readSecret secret = l ∨ l.readSecret secret = .out := by
  rcases secret with _ | _ | _
  all_goals first | exact .inr rfl | exact .inl rfl

def checked : Option Bool → Phase
  | none => .out
  | some false => .refused
  | some true => .accepted

def list (input : String) : Option (List CodeRow) → Phase
  | none => .refused
  | some rows => .listed input rows

def compare : Phase → Option ℕ → Phase
  | .listed input rows, some id => .found input rows id
  | _, _ => .refused

/-- A pending login that is destroyed ends a request that has not checked its code. -/
def delPending : Phase → Phase
  | .tested => .out
  | l => l

def next (r : Role) (l : Phase) : (e : Stmt) → Ans e → Phase
  | .existsLock, lock => match (lock : Bool) with
    | true => .out
    | false => .tested
  | .getUser, user => l.readUser user
  | .getSecret, secret => l.readSecret secret
  | .delPending _, _ => l.delPending
  | .validateCode _ _, valid => checked valid
  | .listCodes, rows => list r.recoveryCode rows
  | .compareCodes _ _, id => l.compare id
  | .deleteCode _, deleted => match (deleted : Bool) with
    | true => .accepted
    | false => .refused
  | .incrFail, fails => counted fails
  | .setLock, _ => .locked
  | .delFail, _ => .out
  | .delFailAndLock, _ => .out
  | .clearSecret, cleared => match (cleared : Bool) with
    | true => l
    | false => .out
  | _, _ => l

def may (l : Phase) : Stmt → Prop
  | .existsLock => l = .out
  | .validateCode _ _ | .listCodes => l = .tested
  | .compareCodes rows input => l = .listed input rows
  | .deleteCode id => ∃ input rows, l = .found input rows id
  | .incrFail => l = .refused
  | .setLock => l = .locking
  | .delFail => l = .locked
  | .delFailAndLock => l = .accepted
  | .getUser | .getSecret => l = .out ∨ l = .tested
  | .clearSecret => l = .out ∨ l = .accepted
  | _ => True

/-- The recovery code of a request between its listing and its deletion. -/
def pending : Phase → Option String
  | .listed input _ | .found input _ _ => some input
  | _ => none

theorem next_eq_or_pending {r : Role} {l : Phase} {e : Stmt} {a : Ans e} (hlist : e ≠ .listCodes)
    (hcompare : ∀ rows input, e ≠ .compareCodes rows input) :
    next r l e a = l ∨ (next r l e a).pending = none := by
  cases e with
  | listCodes => exact absurd rfl hlist
  | compareCodes rows input => exact absurd rfl (hcompare rows input)
  | existsLock | deleteCode id => match (a : Bool) with
    | true | false => exact .inr rfl
  | getUser => exact (l.readUser_eq a).imp_right fun h => congrArg pending h
  | getSecret => exact (l.readSecret_eq a).imp_right fun h => congrArg pending h
  | delPending token => cases l <;> first | exact .inl rfl | exact .inr rfl
  | validateCode secret code => match (a : Option Bool) with
    | none | some true | some false => exact .inr rfl
  | incrFail =>
    right
    show (counted a).pending = none
    unfold counted
    split
    · rfl
    · split_ifs <;> rfl
  | setLock | delFail | delFailAndLock => exact .inr rfl
  | clearSecret => match (a : Bool) with
    | true => exact .inl rfl
    | false => exact .inr rfl
  | _ => exact .inl rfl

end Phase

variable (check : String → String → Bool)

def phases : Protocol (totp check) where
  Loc := Phase
  init := .out
  next := Phase.next
  may := fun _ l e => l.may e

/-! ## All code follows -/

/-- The statements that a request can issue at any time without moving on. -/
def Idle : Stmt → Prop
  | .existsLock | .getUser | .getSecret | .delPending _ | .validateCode _ _ | .listCodes
  | .compareCodes _ _ | .deleteCode _ | .incrFail | .setLock | .delFail | .delFailAndLock
  | .clearSecret => False
  | _ => True

section

variable {check} {r : Role}

/-- A program that starts in one phase and ends in the phase that its result says. -/
abbrev Leads {α : Type} (check : String → String → Bool) (r : Role) (l : Phase) (p : P α)
    (l' : α → Phase) : Prop :=
  (phases check).Follows r p (fun a l'' => l'' = l' a) l

theorem Idle.keeps {e : Stmt} (h : Idle e) (l : Phase) :
    l.may e ∧ ∀ a : Ans e, Phase.next r l e a = l := by
  cases e <;> first | exact h.elim | exact ⟨trivial, fun _ => rfl⟩

theorem leads_of_idle {α : Type} {p : P α} (h : p.All Idle) (l : Phase) :
    Leads check r l p fun _ => l :=
  Protocol.keeps_of_all (T := phases check)
    (fun _ he l' hl' => ⟨(he.keeps (r := r) l').1, fun a => ((he.keeps l').2 a).trans hl'⟩) h l rfl

theorem Leads.seq {α β : Type} {l : Phase} {p : P α} {l₁ : α → Phase} {f : α → P β} {l₂ : β → Phase}
    (h : Leads check r l p l₁) (hf : ∀ a, Leads check r (l₁ a) (f a) l₂) :
    Leads check r l (p >>= f) l₂ :=
  Protocol.Follows.seq h fun a l' hl' => by
    subst hl'
    exact hf a

theorem leads_recordTOTPFailure : Leads check r .refused recordTOTPFailure fun _ => .out := by
  refine ⟨rfl, fun fails => ?_⟩
  have hlock : ∀ n, Leads check r (Phase.counted (some n)) (applyLock n) fun _ => .out := by
    intro n
    unfold applyLock
    show Leads check r (if totpLockoutThreshold ≤ n then .locking else .out) _ _
    split_ifs
    · exact ⟨rfl, fun _ => ⟨rfl, fun _ => rfl⟩⟩
    · rfl
  match (fails : Option ℕ) with
  | none => rfl
  | some 0 => exact hlock 0
  | some 1 => exact ⟨trivial, fun _ => hlock 1⟩
  | some (n + 2) => exact hlock (n + 2)

theorem leads_validateCodeOrRecovery (secret : String) (input : Input)
    (hr : r.recoveryCode = input.recoveryCode) :
    Leads check r .tested (validateCodeOrRecovery secret input) Phase.checked := by
  by_cases hcode : input.code ≠ ""
  · rw [validateCodeOrRecovery_code hcode]
    exact ⟨rfl, fun _ => rfl⟩
  · rw [validateCodeOrRecovery_recovery hcode]
    refine ⟨rfl, fun rows => ?_⟩
    match (rows : Option (List CodeRow)) with
    | none => rfl
    | some rows =>
      refine ⟨congrArg (Phase.listed · rows) hr, fun id => ?_⟩
      match (id : Option ℕ) with
      | none => rfl
      | some id =>
        refine ⟨⟨_, rows, rfl⟩, fun deleted => ?_⟩
        match (deleted : Bool) with
        | true | false => rfl

theorem leads_refuseCode (wrong : Answer) :
    Leads check r .refused (refuseCode wrong) fun _ => .out :=
  leads_recordTOTPFailure.seq fun locked => by cases locked <;> rfl

/-! ### `VerifyLogin` -/

theorem leads_refusePending (token : ℕ) :
    Leads check r .tested (refusePending token) fun _ => .out := ⟨trivial, fun _ => rfl⟩

theorem leads_loginChecked (token : ℕ) (input : Input) (valid : Option Bool) :
    Leads check r (Phase.checked valid) (loginChecked token input valid) fun _ => .out := by
  rcases valid with _ | _ | _
  · rfl
  · refine leads_recordTOTPFailure.seq fun locked => ?_
    cases locked with
    | true => exact ⟨trivial, fun _ => rfl⟩
    | false => rfl
  · refine ⟨trivial, fun _ => ⟨rfl, fun _ => ⟨trivial, fun refused => ?_⟩⟩⟩
    match (refused : Option Failure) with
    | none | some failure => rfl

theorem leads_verifyPending (token : ℕ) (pending : Pending) (input : Input)
    (hr : r.recoveryCode = input.recoveryCode) :
    Leads check r .out (verifyPending token pending input) fun _ => .out := by
  refine ⟨rfl, fun lock => ?_⟩
  match (lock : Bool) with
  | true => rfl
  | false =>
    obtain ⟨_ | epoch⟩ := pending
    · exact leads_refusePending token
    · refine ⟨.inr rfl, fun user => ?_⟩
      match (user : Option UserRow) with
      | none | some ⟨false, _, _⟩ | some ⟨true, none, _⟩ => rfl
      | some ⟨true, some secret, epoch'⟩ =>
        show Leads check r .tested
          (if epoch' ≠ epoch then refusePending token else checkLogin token secret input) fun _ => .out
        split_ifs
        · exact leads_refusePending token
        · exact (leads_validateCodeOrRecovery secret input hr).seq (leads_loginChecked token input)

theorem leads_verifyLogin (token : ℕ) (input : Input) (hr : r.recoveryCode = input.recoveryCode) :
    Leads check r .out (verifyLogin token input) fun _ => .out := by
  have hcounted : ∀ attempts,
      Leads check r .out (verifyCounted token attempts input) fun _ => .out := by
    intro attempts
    unfold verifyCounted
    split_ifs
    · exact ⟨trivial, fun _ => rfl⟩
    · refine ⟨trivial, fun pending => ?_⟩
      match (pending : Option Pending) with
      | none => rfl
      | some pending => exact leads_verifyPending token pending input hr
  unfold verifyLogin
  cases input.refused with
  | some refusal => rfl
  | none =>
    refine ⟨trivial, fun attempts => ?_⟩
    match (attempts : Option ℕ) with
    | none => rfl
    | some 0 => exact hcounted 0
    | some 1 => exact ⟨trivial, fun _ => hcounted 1⟩
    | some (n + 2) => exact hcounted (n + 2)

/-! ### The other endpoints -/

theorem leads_disable (input : Input) (hr : r.recoveryCode = input.recoveryCode) :
    Leads check r .out (disable input) fun _ => .out := by
  have hchecked : ∀ valid,
      Leads check r (Phase.checked valid) (disableChecked input valid) fun _ => .out := by
    rintro (_ | _ | _)
    · rfl
    · exact leads_refuseCode input.wrong
    · refine ⟨.inr rfl, fun cleared => ?_⟩
      match (cleared : Bool) with
      | true => exact ⟨trivial, fun _ => ⟨rfl, fun _ => rfl⟩⟩
      | false => rfl
  unfold disable
  cases input.refused with
  | some refusal => rfl
  | none =>
    refine ⟨rfl, fun lock => ?_⟩
    match (lock : Bool) with
    | true => rfl
    | false =>
      refine ⟨.inr rfl, fun secret => ?_⟩
      match (secret : Option (Option String)) with
      | none | some none => rfl
      | some (some secret) => exact (leads_validateCodeOrRecovery secret input hr).seq hchecked

theorem idle_storeCodes (codes : List (String × String)) : (storeCodes codes).All Idle := by
  have hinsert : ∀ (hashes : List String) (place : ℕ), (insertCodes place hashes).All Idle := by
    intro hashes
    induction hashes with
    | nil => exact fun _ => trivial
    | cons hash hashes ih =>
      refine fun place => ⟨trivial, fun inserted => ?_⟩
      match (inserted : Bool) with
      | true => exact ih (place + 1)
      | false => trivial
  exact (hinsert _ 0).bind fun stored => by cases stored <;> trivial

theorem leads_regenerateRecoveryCodes (code : String) :
    Leads check r .out (regenerateRecoveryCodes code) fun _ => .out := by
  refine ⟨rfl, fun lock => ?_⟩
  match (lock : Bool) with
  | true => rfl
  | false =>
    refine ⟨.inr rfl, fun secret => ?_⟩
    match (secret : Option (Option String)) with
    | none | some none => rfl
    | some (some secret) =>
      refine ⟨rfl, fun valid => ?_⟩
      match (valid : Option Bool) with
      | none => rfl
      | some false => exact leads_refuseCode _
      | some true =>
        refine ⟨rfl, fun _ => ⟨trivial, fun _ => ⟨trivial, fun drawn => ?_⟩⟩⟩
        match (drawn : Option (List (String × String))) with
        | none => rfl
        | some codes => exact leads_of_idle (idle_storeCodes codes) .out

theorem idle_confirmSetup (code : String) : (confirmSetup code).All Idle := by
  have hdrawn : ∀ drawn, (enableDrawn drawn).All Idle := by
    rintro (_ | codes)
    · trivial
    · exact ⟨trivial, fun _ => idle_storeCodes codes⟩
  have hcounted : ∀ secret attempts, (confirmCounted secret attempts code).All Idle := by
    intro secret attempts
    unfold confirmCounted
    split_ifs
    · exact ⟨trivial, fun _ => trivial⟩
    · refine ⟨trivial, fun valid => ?_⟩
      match (valid : Option Bool) with
      | none | some false => trivial
      | some true =>
        refine ⟨trivial, fun _ => ⟨trivial, fun stored => ?_⟩⟩
        match (stored : Bool) with
        | true => exact ⟨trivial, hdrawn⟩
        | false => trivial
  refine ⟨trivial, fun setup => ?_⟩
  match (setup : Option String) with
  | none => trivial
  | some secret =>
    refine ⟨trivial, fun attempts => ?_⟩
    match (attempts : Option ℕ) with
    | none => trivial
    | some 0 => exact hcounted secret 0
    | some 1 => exact ⟨trivial, fun _ => hcounted secret 1⟩
    | some (n + 2) => exact hcounted secret (n + 2)

theorem leads_adminReset (own : Bool) : Leads check r .out (adminReset own) fun _ => .out := by
  cases own with
  | true => rfl
  | false =>
    refine ⟨.inl rfl, fun secret => ?_⟩
    match (secret : Option (Option String)) with
    | none | some none => rfl
    | some (some secret) =>
      refine ⟨.inl rfl, fun cleared => ?_⟩
      match (cleared : Bool) with
      | true => exact ⟨trivial, fun _ => rfl⟩
      | false => rfl

end

theorem phases_followed : (phases check).Followed fun l => l = Phase.out := by
  intro r
  have hunit : ∀ {p : P Answer}, Leads check r .out p (fun _ => .out) →
      Leads check r .out (p >>= fun _ => pure ()) fun _ => .out := fun h => h.seq fun _ => rfl
  cases r with
  | verifyLogin token input => exact hunit (leads_verifyLogin token input rfl)
  | disable input => exact hunit (leads_disable input rfl)
  | regenerateRecoveryCodes code => exact hunit (leads_regenerateRecoveryCodes code)
  | confirmSetup code => exact hunit (leads_of_idle (idle_confirmSetup code) .out)
  | adminReset own => exact hunit (leads_adminReset own)
  | createPending token pending | expirePending token | expireLock => exact ⟨trivial, fun _ => rfl⟩

end Nexara.Totp
