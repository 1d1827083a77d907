import Nexara.Conc.Alone
import Nexara.Totp.Handlers

/-!
# Changes of the second factor when statements fail

With no other request running, a handler's end is a function of which of its statements fail
(`alone`). `ConfirmSetup` and `RegenerateRecoveryCodes` store their codes one by one after they have
changed what was there, and all four endpoints drop the error of the old codes' deletion.
-/

namespace Nexara.Totp

open Conc

section

variable (check : String → String → Bool) (ω : (e : Stmt) → Outcome e)

/-- A handler run by itself, each statement with its outcome. -/
abbrev alone {α : Type} : P α → World → α × World := System.alone (exec check) ω

theorem alone_call (e : Stmt) (w : World) : alone check ω (call e) w = exec check e (ω e) w := rfl

theorem alone_bind {α β : Type} (p : P α) (f : α → P β) (w : World) :
    alone check ω (p >>= f) w = alone check ω (f (alone check ω p w).1) (alone check ω p w).2 :=
  System.alone_bind ..

/-- The recovery codes that are drawn. -/
def drawn : Option (List (String × String)) :=
  (ω (.generateCodes totpRecoveryCount) :
    Option (List.Vector (String × String) totpRecoveryCount)).map (·.toList)

end

attribute [local simp] bind Prog.bind Prog.stmt System.alone exec fail isUserTOTPLocked clearTOTPFailures

def World.hashes (w : World) : List String := w.codes.map (·.hash)

/-! ## The inserts -/

section

variable (check : String → String → Bool) (ω : (e : Stmt) → Outcome e)

/-- The hashes before the first insert that fails. -/
def stored : ℕ → List String → List String
  | _, [] => []
  | place, hash :: hashes =>
    match (ω (.insertCode place hash) : Bool) with
    | true => []
    | false => hash :: stored (place + 1) hashes

/-- The codes that the deletion leaves. -/
def kept (w : World) : List String :=
  match (ω .deleteAllCodes : Bool) with
  | true => w.hashes
  | false => []

/-- The loop stores the hashes before the first insert that fails, and says whether there was one. -/
theorem alone_insertCodes (place : ℕ) (hs : List String) (w : World) :
    ((alone check ω (insertCodes place hs) w).1 = true ↔ stored ω place hs = hs) ∧
      (alone check ω (insertCodes place hs) w).2.hashes = w.hashes ++ stored ω place hs ∧
      (alone check ω (insertCodes place hs) w).2.secret = w.secret := by
  induction hs generalizing place w with
  | nil => exact ⟨⟨fun _ => rfl, fun _ => rfl⟩, (List.append_nil _).symm, rfl⟩
  | cons hash hs ih =>
    unfold insertCodes stored
    rw [alone_bind, alone_call]
    generalize (ω (.insertCode place hash) : Bool) = fails
    cases fails with
    | true => exact ⟨⟨nofun, nofun⟩, (List.append_nil _).symm, rfl⟩
    | false =>
      obtain ⟨hok, hhashes, hsecret⟩ := ih (place + 1)
        { w with codes := w.codes ++ [⟨w.nextId, hash⟩], nextId := w.nextId + 1 }
      refine ⟨hok.trans ⟨fun h => by simp only [h], fun h => (List.cons.inj h).2⟩, ?_, hsecret⟩
      refine hhashes.trans ?_
      simp [World.hashes]

theorem alone_deleteAllCodes (w : World) :
    (alone check ω (call .deleteAllCodes) w).2.hashes = kept ω w ∧
      (alone check ω (call .deleteAllCodes) w).2.secret = w.secret := by
  cases hd : (ω .deleteAllCodes : Bool) <;> simp [kept, World.hashes, hd]

/-! ## Whole or not at all -/

/-- A success hands out the codes that are stored, an error leaves what was there. -/
def Whole (before after : World) : Answer → Prop
  | .ok returned =>
    ∃ codes : List (String × String), drawn ω = some codes ∧
      returned = codes.map (·.1) ∧ after.hashes = codes.map (·.2)
  | .error _ => after.secret = before.secret ∧ after.hashes = before.hashes

/-- All codes are stored over nothing, or what is stored of them makes up what was there. -/
def StoresOver (codes : List (String × String)) (keptCodes before : List String) : Prop :=
  if stored ω 0 (codes.map (·.2)) = codes.map (·.2) then keptCodes = []
  else keptCodes ++ stored ω 0 (codes.map (·.2)) = before

theorem whole_storeCodes (before mid : World) {codes : List (String × String)}
    (hdrawn : drawn ω = some codes) :
    Whole ω before (alone check ω (storeCodes codes) mid).2 (alone check ω (storeCodes codes) mid).1 ↔
      (stored ω 0 (codes.map (·.2)) ≠ codes.map (·.2) → mid.secret = before.secret) ∧
        StoresOver ω codes mid.hashes before.hashes := by
  obtain ⟨hok, hhashes, hsecret⟩ := alone_insertCodes check ω 0 (codes.map (·.2)) mid
  unfold storeCodes StoresOver
  rw [alone_bind]
  cases hins : (alone check ω (insertCodes 0 (codes.map (·.2))) mid).1 with
  | true =>
    have hall := hok.mp hins
    rw [if_pos hall]
    rw [hall] at hhashes ⊢
    constructor
    · rintro ⟨codes', hdrawn', -, hstored⟩
      cases hdrawn.symm.trans hdrawn'
      refine ⟨fun h => absurd rfl h, ?_⟩
      have happend : mid.hashes ++ codes.map (·.2) = codes.map (·.2) := hhashes.symm.trans hstored
      exact List.append_left_eq_self.mp happend
    · rintro ⟨-, hnone⟩
      exact ⟨codes, hdrawn, rfl, hhashes.trans (by rw [hnone, List.nil_append])⟩
  | false =>
    have hsome : stored ω 0 (codes.map (·.2)) ≠ codes.map (·.2) := fun h => by
      rw [hok.mpr h] at hins
      cases hins
    rw [if_neg hsome]
    constructor
    · rintro ⟨hs, hh⟩
      exact ⟨fun _ => hsecret.symm.trans hs, hhashes.symm.trans hh⟩
    · rintro ⟨hs, hh⟩
      exact ⟨hsecret.trans (hs hsome), hhashes.trans hh⟩

/-! ## The conditions -/

def isRight (valid : Option Bool) : Bool := valid == some true

/-- Whether the user's failed look at the lock or its absence lets a request pass. -/
def unlocked (w : World) : Bool :=
  match (ω .existsLock : Bool) with
  | true => true
  | false => !w.lock

/-- The secret of an enrolment whose code is confirmed. -/
def confirmed (w : World) (code : String) : Option String :=
  match (ω .getSetup : Bool), (ω .incrSetupAttempts : Bool) with
  | false, false =>
    if w.setupAttempts + 1 ≤ totpSetupMaxAttempts then
      w.setup.filter fun secret => isRight (ω (.validateSetup secret code))
    else none
  | _, _ => none

/-- Whether a request for new codes gets to replace them. -/
def mayReplace (w : World) (code : String) : Bool :=
  match (ω .getSecret : Bool) with
  | true => false
  | false => unlocked ω w && w.secret.any fun secret => isRight (ω (.validateCode secret code))

/-- What the enrolment changes is whole: its first statement fails, or nothing that fails matters. -/
def ConfirmsWhole (w : World) (code : String) : Prop :=
  ∀ secret, confirmed ω w code = some secret → (ω (.setSecret secret) : Bool) = false →
    match drawn ω with
    | none => w.secret = some secret
    | some codes =>
      (stored ω 0 (codes.map (·.2)) ≠ codes.map (·.2) → w.secret = some secret) ∧
        StoresOver ω codes (kept ω w) w.hashes

/-- What a request for new codes changes is whole. -/
def ReplacesWhole (w : World) (code : String) : Prop :=
  mayReplace ω w code = true →
    match drawn ω with
    | none => kept ω w = w.hashes
    | some codes => StoresOver ω codes (kept ω w) w.hashes

theorem aside_delSetup (w : World) : (exec check .delSetup (ω .delSetup) w).2.secret = w.secret ∧
    (exec check .delSetup (ω .delSetup) w).2.hashes = w.hashes := by
  cases hd : (ω .delSetup : Bool) <;> simp [World.hashes]

theorem whole_enableFactor (before mid : World) (secret : String)
    (hsecret : mid.secret = before.secret) (hhashes : mid.hashes = before.hashes) :
    Whole ω before (alone check ω (enableFactor secret) mid).2
        (alone check ω (enableFactor secret) mid).1 ↔
      ((ω (.setSecret secret) : Bool) = false →
        match drawn ω with
        | none => before.secret = some secret
        | some codes =>
          (stored ω 0 (codes.map (·.2)) ≠ codes.map (·.2) → before.secret = some secret) ∧
            StoresOver ω codes (kept ω before) before.hashes) := by
  simp only [enableFactor, bind, Prog.bind, Prog.stmt, System.alone]
  obtain ⟨hs, hh⟩ := aside_delSetup check ω mid
  generalize (exec check .delSetup (ω .delSetup) mid).2 = w at hs hh ⊢
  cases (ω (.setSecret secret) : Bool) with
  | true => exact ⟨fun _ => nofun, fun _ => ⟨hs.trans hsecret, hh.trans hhashes⟩⟩
  | false =>
    obtain ⟨hkept, hstays⟩ := alone_deleteAllCodes check ω { w with secret := some secret }
    have hsame : kept ω { w with secret := some secret } = kept ω before := by
      have hcodes : World.hashes { w with secret := some secret } = before.hashes :=
        hh.trans hhashes
      unfold kept
      rw [hcodes]
    show Whole ω before
      (alone check ω (enableDrawn (drawn ω)) { w with secret := some secret }).2
      (alone check ω (enableDrawn (drawn ω)) { w with secret := some secret }).1 ↔ _
    cases hdrawn : drawn ω with
    | none => exact ⟨fun h _ => h.1.symm, fun h => ⟨(h rfl).symm, hh.trans hhashes⟩⟩
    | some codes =>
      have hstore := whole_storeCodes check ω before
        (alone check ω (call .deleteAllCodes) { w with secret := some secret }).2 hdrawn
      rw [hkept, hstays, hsame] at hstore
      refine Iff.trans hstore ⟨fun h _ => ⟨fun hne => (h.1 hne).symm, h.2⟩,
        fun h => ⟨fun hne => ((h rfl).1 hne).symm, (h rfl).2⟩⟩

theorem whole_confirmCounted (w mid : World) (secret code : String) (attempts : ℕ)
    (hsecret : mid.secret = w.secret) (hhashes : mid.hashes = w.hashes) :
    Whole ω w (alone check ω (confirmCounted secret attempts code) mid).2
        (alone check ω (confirmCounted secret attempts code) mid).1 ↔
      (attempts ≤ totpSetupMaxAttempts → isRight (ω (.validateSetup secret code)) = true →
        Whole ω w (alone check ω (enableFactor secret) mid).2
          (alone check ω (enableFactor secret) mid).1) := by
  obtain ⟨hs, hh⟩ := aside_delSetup check ω mid
  by_cases hmany : totpSetupMaxAttempts < attempts
  · simp only [confirmCounted, if_pos hmany, Nat.not_le.mpr hmany, false_imp_iff, iff_true]
    exact ⟨hs.trans hsecret, hh.trans hhashes⟩
  · rcases hvalid : (ω (.validateSetup secret code) : Option Bool) with _ | _ | _ <;>
      simp [confirmCounted, hmany, Nat.not_lt.mp hmany, hvalid, isRight, Whole, hsecret, hhashes]

/-- The counter's expiry changes nothing. -/
theorem alone_confirmAttempt (secret code : String) (n : ℕ) (w : World) :
    alone check ω (confirmAttempt secret code (some (n + 1))) w =
      alone check ω (confirmCounted secret (n + 1) code) w := by
  cases n <;> rfl

theorem whole_confirmSetup (w : World) (code : String) :
    Whole ω w (alone check ω (confirmSetup code) w).2 (alone check ω (confirmSetup code) w).1 ↔
      ConfirmsWhole ω w code := by
  cases hget : (ω .getSetup : Bool) <;> rcases hsetup : w.setup with _ | secret <;>
    cases hincr : (ω .incrSetupAttempts : Bool) <;>
    simp [confirmSetup, ConfirmsWhole, confirmed, Whole, hget, hsetup, hincr]
  · have hcounted := whole_confirmCounted check ω w { w with
      setup := some secret, setupAttempts := w.setupAttempts + 1 } secret code
      (w.setupAttempts + 1) rfl rfl
    rw [← alone_confirmAttempt] at hcounted
    exact hcounted.trans
      (forall₂_congr fun _ _ => whole_enableFactor check ω w ⟨_, _, _, _, _, _, _, _, _⟩ secret rfl rfl)
  · simp [confirmAttempt]

/-! ## New codes -/

/-- Statements that leave the factor alone. -/
def Aside (e : Stmt) : Prop :=
  ∀ o w, (exec check e o w).2.secret = w.secret ∧ (exec check e o w).2.codes = w.codes

theorem alone_aside {α : Type} {p : P α} (h : p.All (Aside check)) (w : World) :
    (alone check ω p w).2.secret = w.secret ∧ (alone check ω p w).2.codes = w.codes := by
  induction p generalizing w with
  | pure a => exact ⟨rfl, rfl⟩
  | call e k ih =>
    obtain ⟨hsecret, hcodes⟩ := h.1 (ω e) w
    obtain ⟨hs, hc⟩ := ih _ (h.2 _) (exec check e (ω e) w).2
    exact ⟨hs.trans hsecret, hc.trans hcodes⟩

theorem aside_delFailAndLock : Aside check .delFailAndLock := by
  rintro (_ | _) w <;> exact ⟨rfl, rfl⟩

theorem aside_recordTOTPFailure : recordTOTPFailure.All (Aside check) := by
  have hlock : ∀ n, (applyLock n).All (Aside check) := by
    intro n
    unfold applyLock
    split_ifs
    · refine ⟨?_, fun _ => ⟨?_, fun _ => trivial⟩⟩ <;> rintro (_ | _) w <;> exact ⟨rfl, rfl⟩
    · trivial
  refine ⟨by rintro (_ | _) w <;> exact ⟨rfl, rfl⟩, fun fails => ?_⟩
  match (fails : Option ℕ) with
  | none => trivial
  | some 0 => exact hlock 0
  | some 1 => exact ⟨fun _ _ => ⟨rfl, rfl⟩, fun _ => hlock 1⟩
  | some (n + 2) => exact hlock (n + 2)

theorem alone_refuseCode (failure : Failure) (w : World) :
    (∃ failure', (alone check ω (refuseCode (.error failure)) w).1 = .error failure') ∧
      (alone check ω (refuseCode (.error failure)) w).2.secret = w.secret ∧
      (alone check ω (refuseCode (.error failure)) w).2.codes = w.codes := by
  have haside := alone_aside check ω (aside_recordTOTPFailure check) w
  unfold refuseCode
  rw [alone_bind]
  generalize alone check ω recordTOTPFailure w = x at haside ⊢
  obtain ⟨locked, w'⟩ := x
  cases locked <;> exact ⟨⟨_, rfl⟩, haside⟩

theorem exec_existsLock (w : World) :
    exec check .existsLock (ω .existsLock) w = (!unlocked ω w, w) := by
  cases h : (ω .existsLock : Bool) <;> (simp [unlocked, h]; rfl)

theorem whole_replaceCodes (w : World) :
    Whole ω w (alone check ω replaceCodes w).2 (alone check ω replaceCodes w).1 ↔
      match drawn ω with
      | none => kept ω w = w.hashes
      | some codes => StoresOver ω codes (kept ω w) w.hashes := by
  obtain ⟨hsecret, hcodes⟩ := aside_delFailAndLock check (ω .delFailAndLock) w
  unfold replaceCodes clearTOTPFailures
  simp only [bind, Prog.bind, Prog.stmt, System.alone]
  generalize (exec check .delFailAndLock (ω .delFailAndLock) w).2 = w₁ at hsecret hcodes ⊢
  obtain ⟨hkept, hstays⟩ := alone_deleteAllCodes check ω w₁
  rw [alone_call] at hkept hstays
  generalize (exec check .deleteAllCodes (ω .deleteAllCodes) w₁).2 = w₂ at hkept hstays ⊢
  have hsame : w₂.hashes = kept ω w := by
    rw [hkept, kept, kept, World.hashes, World.hashes, hcodes]
  show Whole ω w (alone check ω (storeDrawn (drawn ω)) w₂).2 (alone check ω (storeDrawn (drawn ω)) w₂).1 ↔ _
  cases hdrawn : drawn ω with
  | none =>
    exact ⟨fun h => hsame.symm.trans h.2, fun h => ⟨hstays.trans hsecret, hsame.trans h⟩⟩
  | some codes =>
    refine (whole_storeCodes check ω w w₂ hdrawn).trans ?_
    rw [hsame]
    exact ⟨fun h => h.2, fun h => ⟨fun _ => hstays.trans hsecret, h⟩⟩

theorem whole_regenerate (w : World) (code : String) :
    Whole ω w (alone check ω (regenerateRecoveryCodes code) w).2
        (alone check ω (regenerateRecoveryCodes code) w).1 ↔ ReplacesWhole ω w code := by
  cases hunlocked : unlocked ω w <;> cases hget : (ω .getSecret : Bool) <;>
    rcases hsecret : w.secret with _ | secret <;>
    simp [regenerateRecoveryCodes, ↓exec_existsLock, ReplacesWhole, mayReplace, Whole, hunlocked,
      hget, hsecret]
  rcases hvalid : (ω (.validateCode secret code) : Option Bool) with _ | _ | _
  · simp [regenerateChecked, isRight, hsecret]
  · obtain ⟨⟨failure, hfailure⟩, hs, hc⟩ := alone_refuseCode check ω ⟨401, "Invalid TOTP code"⟩ w
    simp [regenerateChecked, isRight, hfailure, hs, hsecret, World.hashes, hc]
  · rw [← hsecret]
    exact (whole_replaceCodes check ω w).trans ⟨fun h _ => h, fun h => h rfl⟩

/-! ## The end of a second factor -/

/-- The codes that a request to disable the factor has left when its code is accepted. -/
def remaining (w : World) (input : Input) : List CodeRow :=
  if input.code ≠ "" then w.codes
  else
    match matchCode check w.codes input.recoveryCode with
    | some id => w.codes.filter fun row => row.id ≠ id
    | none => w.codes

def Cleared (w : World) : Prop := w.secret = none ∧ w.codes = []

variable {w : World} {returned : List String}

theorem codes_of_consumed {inputCode : String}
    (h : (alone check ω (consumeRecoveryCode inputCode) w).1 = true) :
    (alone check ω (consumeRecoveryCode inputCode) w).2.codes =
      match matchCode check w.codes inputCode with
      | some id => w.codes.filter fun row => row.id ≠ id
      | none => w.codes := by
  cases hlist : (ω .listCodes : Bool) <;> cases hm : matchCode check w.codes inputCode <;>
    simp_all [consumeRecoveryCode]
  cases hd : (ω (.deleteCode _) : Bool) <;> simp_all

theorem codes_of_validated (w : World) (secret : String) (input : Input)
    (h : (alone check ω (validateCodeOrRecovery secret input) w).1 = some true) :
    (alone check ω (validateCodeOrRecovery secret input) w).2.codes = remaining check w input := by
  unfold remaining
  by_cases hcode : input.code ≠ ""
  · rw [if_pos hcode, validateCodeOrRecovery_code hcode]
    rfl
  · rw [if_neg hcode]
    rw [validateCodeOrRecovery_recovery hcode, alone_bind] at h ⊢
    exact codes_of_consumed check ω (Option.some.inj h)

theorem cleared_clearFactor (h : (alone check ω clearFactor w).1 = .ok returned) :
    Cleared (alone check ω clearFactor w).2 ↔
      (ω .deleteAllCodes : Bool) = false ∨ w.codes = [] := by
  cases hc : (ω .clearSecret : Bool) <;> cases hd : (ω .deleteAllCodes : Bool) <;>
    cases hf : (ω .delFailAndLock : Bool) <;> simp_all [clearFactor, Cleared] <;> exact .inl rfl

theorem not_ok_refuseCode {input : Input} :
    (alone check ω (refuseCode input.wrong) w).1 ≠ .ok returned := by
  obtain ⟨failure, hwrong⟩ : ∃ failure, input.wrong = .error failure := by
    unfold Input.wrong
    split_ifs <;> exact ⟨_, rfl⟩
  obtain ⟨⟨failure', hfailure⟩, -⟩ := alone_refuseCode check ω failure w
  rw [hwrong, hfailure]
  nofun

theorem cleared_disable {input : Input} (h : (alone check ω (disable input) w).1 = .ok returned) :
    Cleared (alone check ω (disable input) w).2 ↔
      (ω .deleteAllCodes : Bool) = false ∨ remaining check w input = [] := by
  cases hrefused : input.refused with
  | some refusal =>
    obtain ⟨failure, rfl⟩ := Input.refused_error hrefused
    simp [disable, hrefused] at h
  | none =>
    cases hunlocked : unlocked ω w <;> cases hget : (ω .getSecret : Bool) <;>
      rcases hsecret : w.secret with _ | secret <;>
      simp [disable, hrefused, ↓exec_existsLock, hunlocked, hget, hsecret] at h ⊢
    change (alone check ω (validateCodeOrRecovery secret input >>= disableChecked input) w).1 = _ at h
    change Cleared (alone check ω (validateCodeOrRecovery secret input >>= disableChecked input) w).2 ↔ _
    have hcodes := codes_of_validated check ω w secret input
    rw [alone_bind] at h ⊢
    generalize alone check ω (validateCodeOrRecovery secret input) w = x at h hcodes ⊢
    obtain ⟨_ | _ | _, w'⟩ := x
    · simp [disableChecked] at h
    · exact absurd h (not_ok_refuseCode check ω)
    · rw [← hcodes rfl]
      exact cleared_clearFactor check ω h

theorem cleared_adminReset {own : Bool} (h : (alone check ω (adminReset own) w).1 = .ok returned) :
    Cleared (alone check ω (adminReset own) w).2 ↔
      (ω .deleteAllCodes : Bool) = false ∨ w.codes = [] := by
  cases own <;> cases hget : (ω .getSecret : Bool) <;> cases hs : w.secret <;>
    cases hc : (ω .clearSecret : Bool) <;> cases hd : (ω .deleteAllCodes : Bool) <;>
    simp_all [adminReset, Cleared]
  exact .inl rfl

/-- The four changes of a second factor, with no other request running: enrolment and new codes are
whole or not at all, and the end of a factor is complete, exactly when what failed did not matter.
-/
theorem changes_whole_iff (w : World) (code : String) (input : Input) (own : Bool) :
    (Whole ω w (alone check ω (confirmSetup code) w).2 (alone check ω (confirmSetup code) w).1 ↔
      ConfirmsWhole ω w code) ∧
    (Whole ω w (alone check ω (regenerateRecoveryCodes code) w).2
        (alone check ω (regenerateRecoveryCodes code) w).1 ↔ ReplacesWhole ω w code) ∧
    (∀ returned, (alone check ω (disable input) w).1 = .ok returned →
      (Cleared (alone check ω (disable input) w).2 ↔
        (ω .deleteAllCodes : Bool) = false ∨ remaining check w input = [])) ∧
    (∀ returned, (alone check ω (adminReset own) w).1 = .ok returned →
      (Cleared (alone check ω (adminReset own) w).2 ↔
        (ω .deleteAllCodes : Bool) = false ∨ w.codes = [])) :=
  ⟨whole_confirmSetup check ω w code, whole_regenerate check ω w code,
    fun _ => cleared_disable check ω, fun _ => cleared_adminReset check ω⟩

end

/-! ## One user's codes -/

/-- A user with two codes, of which an enrolment is in progress. -/
def enrolled : World :=
  { secret := some "s", codes := [⟨0, "a"⟩, ⟨1, "b"⟩], nextId := 2, setup := some "t" }

/-- A request that runs alone on the user's codes can answer with `a` and leave these hashes. -/
def Leaves (p : P Answer) (a : Answer) (hashes : List String) : Prop :=
  ∃ i r log w, System.Ends (M := totp (· == ·)) i r p [] enrolled a log w ∧ w.hashes = hashes

theorem leaves_alone (ω : (e : Stmt) → Outcome e) (p : P Answer) :
    Leaves p (alone (· == ·) ω p enrolled).1 (alone (· == ·) ω p enrolled).2.hashes := by
  obtain ⟨log, h⟩ := System.ends_alone (M := totp (· == ·)) (i := 0) (r := .expireLock)
    (fun _ _ _ => rfl) ω p [] enrolled
  exact ⟨_, _, log, _, h, rfl⟩

/-- The second insert fails: the old codes are gone, with one new code in their place that was never
handed out. The deletion fails: new codes are handed out beside the old ones, and a reset leaves the
codes of the factor it ended. -/
theorem partial_changes :
    Leaves (regenerateRecoveryCodes "123456") (fail 500 "Failed to store recovery codes") ["h"] ∧
      Leaves (confirmSetup "123456") (.ok (.replicate totpRecoveryCount "n"))
        ("a" :: "b" :: .replicate totpRecoveryCount "h") ∧
      Leaves (adminReset false) (.ok []) ["a", "b"] :=
  ⟨leaves_alone (Function.update (works true) (.insertCode 1 "h") true) _,
    leaves_alone (Function.update (works true) .deleteAllCodes true) _,
    leaves_alone (Function.update (works true) .deleteAllCodes true) _⟩

/-- With every statement working, the endpoints leave the codes they hand out, or none. -/
theorem whole_when_all_work :
    Whole (works true) enrolled (alone (· == ·) (works true) (confirmSetup "123456") enrolled).2
        (alone (· == ·) (works true) (confirmSetup "123456") enrolled).1 ∧
      Cleared (alone (· == ·) (works true) (disable ⟨"", "a"⟩) enrolled).2 ∧
      Cleared (alone (· == ·) (works true) (adminReset false) enrolled).2 := by
  obtain ⟨hconfirm, -, hdisable, hreset⟩ :=
    changes_whole_iff (· == ·) (works true) enrolled "123456" ⟨"", "a"⟩ false
  refine ⟨hconfirm.mpr fun secret _ _ => ⟨fun h => absurd rfl h, rfl⟩, ?_, ?_⟩
  · exact (hdisable [] rfl).mpr (.inl rfl)
  · exact (hreset [] rfl).mpr (.inl rfl)

end Nexara.Totp
