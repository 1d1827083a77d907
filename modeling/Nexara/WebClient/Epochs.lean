import Nexara.WebClient.Phases

/-!
# No request crosses sessions

A token that is held was stored under the current epoch, a refresh in flight began under it, and an
answer that was applied is either of the epoch it began under or that epoch has passed; whatever a
call has resolved it sends only if the epoch it was made under is still current. Every piece of code
between two awaits keeps this (`step_sound`).
-/

namespace Nexara.WebClient

open Conc Protocol System

/-! ## What holds of the module's variables -/

namespace Client

/-- The token was stored under the epoch, unless that has passed. -/
def Issued (c : Client) (epoch : ℕ) (token : String) : Prop :=
  (epoch, token) ∈ c.stored ∨ epoch < c.sessionEpoch

/-- The epoch is one under which the module was latched so, as far as it has not passed. -/
def Under (c : Client) (latch : Bool) (epoch : ℕ) : Prop :=
  epoch ≤ c.sessionEpoch ∧ (epoch = c.sessionEpoch → c.signedOut = latch)

def Began (c : Client) (attempt epoch : ℕ) : Prop :=
  ∃ a, c.attempts[attempt]? = some a ∧ a.epoch = epoch

structure Sound (c : Client) : Prop where
  held : ∀ token, c.accessToken = some token → (c.sessionEpoch, token) ∈ c.stored
  latched : c.signedOut = true → c.accessToken = none
  inFlight : ∀ attempt, c.refreshPromise = some attempt → c.Began attempt c.sessionEpoch
  begun : ∀ a ∈ c.attempts, c.Under false a.epoch
  answered : ∀ a ∈ c.attempts, ∀ res, a.status = .settled (.ok res) →
    c.Issued a.epoch res.accessToken

/-- What no code takes back. -/
structure Evolves (c c' : Client) : Prop where
  epoch : c.sessionEpoch ≤ c'.sessionEpoch
  latch : c'.sessionEpoch = c.sessionEpoch → c'.signedOut = c.signedOut
  stored : c.stored ⊆ c'.stored
  attempts : ∀ attempt epoch, c.Began attempt epoch → c'.Began attempt epoch

variable {c c' : Client} {epoch attempt : ℕ} {token : String}

theorem Evolves.refl (c : Client) : c.Evolves c :=
  ⟨Nat.le_refl _, fun _ => rfl, fun _ h => h, fun _ _ h => h⟩

theorem Issued.evolves (h : c.Issued epoch token) (hc : c.Evolves c') : c'.Issued epoch token :=
  h.imp (fun hmem => hc.stored hmem) fun hlt => Nat.lt_of_lt_of_le hlt hc.epoch

theorem Under.evolves {latch : Bool} (h : c.Under latch epoch) (hc : c.Evolves c') :
    c'.Under latch epoch := by
  refine ⟨Nat.le_trans h.1 hc.epoch, fun heq => ?_⟩
  have hsame : epoch = c.sessionEpoch := Nat.le_antisymm h.1 (heq ▸ hc.epoch)
  rw [hc.latch (heq.symm.trans hsame)]
  exact h.2 hsame

theorem under_sessionEpoch (c : Client) : c.Under c.signedOut c.sessionEpoch :=
  ⟨Nat.le_refl _, fun _ => rfl⟩

/-! ### Sign-ins, sign-outs, rotations and refreshes -/

section

variable (c : Client) (res : Session) (courtesy : Bool) (status : Status)

theorem evolves_writeTokens : c.Evolves (c.writeTokens res) :=
  ⟨Nat.le_refl _, fun _ => rfl, List.subset_cons_self _ _, fun _ _ h => h⟩

theorem evolves_storeTokens : c.Evolves (c.storeTokens res) :=
  ⟨Nat.le_succ _, fun heq => absurd heq (Nat.succ_ne_self _), List.subset_cons_self _ _,
    fun _ _ h => h⟩

theorem evolves_clearTokens : c.Evolves c.clearTokens :=
  ⟨Nat.le_succ _, fun heq => absurd heq (Nat.succ_ne_self _), fun _ h => h, fun _ _ h => h⟩

theorem began_beginAttempt :
    (c.beginAttempt courtesy status).Began c.attempts.length c.sessionEpoch :=
  ⟨_, List.getElem?_concat_length, rfl⟩

theorem evolves_beginAttempt : c.Evolves (c.beginAttempt courtesy status) := by
  refine ⟨Nat.le_refl _, fun _ => rfl, fun _ h => h, fun attempt epoch ⟨a, ha, hepoch⟩ => ?_⟩
  have hlt := (List.getElem?_eq_some_iff.mp ha).1
  exact ⟨a, (List.getElem?_append_left hlt).trans ha, hepoch⟩

theorem began_setStatus {c : Client} (h : c.Began attempt epoch) (attempt' : ℕ) :
    (c.setStatus attempt' status).Began attempt epoch := by
  obtain ⟨a, ha, hepoch⟩ := h
  refine ⟨if attempt' = attempt then { a with status := status } else a, ?_, ?_⟩
  · show (c.attempts.modify attempt' _)[attempt]? = _
    rw [List.getElem?_modify, ha]
    split_ifs <;> rfl
  · split_ifs <;> exact hepoch

theorem evolves_setStatus : c.Evolves (c.setStatus attempt status) :=
  ⟨Nat.le_refl _, fun _ => rfl, fun _ h => h, fun _ _ h => began_setStatus status h attempt⟩

end

/-- What a refresh that is begun or joined leaves. -/
structure Joins (c c' : Client) (attempt : ℕ) : Prop where
  sound : c'.Sound
  evolves : c.Evolves c'
  began : c'.Began attempt c.sessionEpoch

section

variable (h : c.Sound)
include h

theorem Sound.stale {a : Attempt} (hmem : a ∈ c.attempts) : a.epoch < c.sessionEpoch + 1 :=
  Nat.lt_succ_of_le (h.begun a hmem).1

theorem Sound.storeTokens (res : Session) : (c.storeTokens res).Sound where
  held := by
    rintro _ ⟨⟩
    exact .head _
  latched := nofun
  inFlight := nofun
  begun := fun _ hmem => ⟨Nat.le_of_lt (h.stale hmem), fun _ => rfl⟩
  answered := fun _ hmem _ _ => .inr (h.stale hmem)

theorem Sound.clearTokens : c.clearTokens.Sound where
  held := nofun
  latched := fun _ => rfl
  inFlight := nofun
  begun := fun _ hmem =>
    ⟨Nat.le_of_lt (h.stale hmem), fun heq => absurd heq (Nat.ne_of_lt (h.stale hmem))⟩
  answered := fun _ hmem _ _ => .inr (h.stale hmem)

theorem Sound.backoff (wait : Option (Int × Failure)) : { c with refreshBackoff := wait }.Sound :=
  ⟨h.held, h.latched, h.inFlight, h.begun, h.answered⟩

theorem Sound.setStatus {status : Status}
    (hstatus : ∀ res epoch, status = .settled (.ok res) → c.Began attempt epoch →
      c.Issued epoch res.accessToken) : (c.setStatus attempt status).Sound := by
  have hmem : ∀ a ∈ (c.setStatus attempt status).attempts, a ∈ c.attempts ∨
      ∃ a' ∈ c.attempts, c.attempts[attempt]? = some a' ∧ a = { a' with status := status } := by
    intro a hmem
    obtain ⟨i, hi⟩ := List.mem_iff_getElem?.mp hmem
    replace hi : (c.attempts.modify attempt _)[i]? = some a := hi
    rw [List.getElem?_modify] at hi
    obtain ⟨a', ha', rfl⟩ := Option.map_eq_some_iff.mp hi
    split_ifs with heq
    · subst heq
      exact .inr ⟨a', List.mem_of_getElem? ha', ha', rfl⟩
    · exact .inl (List.mem_of_getElem? ha')
  refine ⟨h.held, h.latched, fun a ha => began_setStatus status (h.inFlight a ha) attempt, ?_, ?_⟩
  · intro a ha
    rcases hmem a ha with hold | ⟨a', hold, -, rfl⟩
    · exact h.begun a hold
    · exact h.begun a' hold
  · intro a ha res hres
    rcases hmem a ha with hold | ⟨a', hold, hat, rfl⟩
    · exact h.answered a hold res hres
    · exact hstatus res a'.epoch hres ⟨a', hat, rfl⟩

theorem Sound.settle {res : Except Failure Session}
    (hres : ∀ s epoch, res = .ok s → c.Began attempt epoch → c.Issued epoch s.accessToken) :
    (c.settle attempt res).Sound := by
  have hforget : (c.forget attempt).Sound :=
    ⟨h.held, h.latched, fun a ha => h.inFlight a (Option.ite_none_left_eq_some.mp ha).2, h.begun,
      h.answered⟩
  exact hforget.setStatus fun s epoch heq => hres s epoch (Status.settled.inj heq)

theorem Sound.joins_inFlight (hattempt : c.refreshPromise = some attempt) : c.Joins c attempt :=
  ⟨h, .refl c, h.inFlight attempt hattempt⟩

variable (hlive : c.signedOut = false) (courtesy : Bool) (clock : Clock)
include hlive

theorem Sound.writeTokens (res : Session) : (c.writeTokens res).Sound where
  held := by
    rintro _ ⟨⟩
    exact .head _
  latched := fun hlatched => absurd (hlive.symm.trans hlatched) nofun
  inFlight := h.inFlight
  begun := h.begun
  answered := fun a hmem res' hres =>
    (h.answered a hmem res' hres).evolves (evolves_writeTokens c res)

theorem Sound.beginAttempt {status : Status} (hstatus : ∀ res, status ≠ .settled (.ok res)) :
    (c.beginAttempt courtesy status).Sound where
  held := h.held
  latched := h.latched
  inFlight := by
    rintro _ ⟨⟩
    exact began_beginAttempt c courtesy status
  begun := by
    intro a hmem
    rcases List.mem_append.mp hmem with hold | hnew
    · exact h.begun a hold
    · rw [List.mem_singleton.mp hnew]
      exact hlive ▸ under_sessionEpoch c
  answered := by
    intro a hmem res hres
    rcases List.mem_append.mp hmem with hold | hnew
    · exact h.answered a hold res hres
    · rw [List.mem_singleton.mp hnew] at hres
      exact absurd hres (hstatus res)

theorem Sound.startRefresh : c.Joins (c.startRefresh courtesy clock) c.attempts.length := by
  unfold Client.startRefresh
  split
  · exact ⟨h.beginAttempt hlive courtesy nofun, evolves_beginAttempt .., began_beginAttempt ..⟩
  · split_ifs
    · exact ⟨h.beginAttempt hlive courtesy nofun, evolves_beginAttempt .., began_beginAttempt ..⟩
    · have hbegin := evolves_beginAttempt { c with refreshBackoff := none } courtesy .begun
      exact ⟨(h.backoff none).beginAttempt hlive courtesy nofun,
        ⟨hbegin.epoch, hbegin.latch, hbegin.stored, hbegin.attempts⟩, began_beginAttempt ..⟩

theorem Sound.refreshNeeded : c.Joins (c.refreshNeeded clock).2 (c.refreshNeeded clock).1 := by
  unfold Client.refreshNeeded
  split
  · exact h.startRefresh hlive false clock
  · next hattempt => exact h.joins_inFlight hattempt

theorem Sound.refreshAhead :
    (c.refreshAhead clock).2.Sound ∧ c.Evolves (c.refreshAhead clock).2 ∧
      ∀ attempt, (c.refreshAhead clock).1 = some attempt →
        (c.refreshAhead clock).2.Began attempt c.sessionEpoch := by
  unfold Client.refreshAhead
  split
  · have hstart := h.startRefresh hlive true clock
    refine ⟨hstart.sound, hstart.evolves, ?_⟩
    rintro _ ⟨⟩
    exact hstart.began
  · next attempt hattempt =>
    refine ⟨h, .refl c, fun attempt' heq => ?_⟩
    simp only [Option.ite_none_right_eq_some] at heq
    exact h.inFlight attempt' (heq.2 ▸ hattempt)

omit hlive in
theorem Sound.retryNeeded (hlive : c.Under false epoch) (clock : Clock) :
    (c.retryNeeded epoch clock).2.Sound ∧ c.Evolves (c.retryNeeded epoch clock).2 ∧
      ∀ attempt, (c.retryNeeded epoch clock).1 = some attempt →
        (c.retryNeeded epoch clock).2.Began attempt epoch := by
  unfold Client.retryNeeded
  split_ifs with hne
  · exact ⟨h, .refl c, nofun⟩
  · have heq : epoch = c.sessionEpoch := not_not.mp hne
    subst heq
    split
    · next attempt hattempt _ =>
      refine ⟨h, .refl c, ?_⟩
      rintro _ ⟨⟩
      exact h.inFlight attempt hattempt
    · have hstart := h.startRefresh (hlive.2 rfl) false clock
      refine ⟨hstart.sound, hstart.evolves, ?_⟩
      rintro _ ⟨⟩
      exact hstart.began

end

end Client

/-! ## What holds of a party -/

/-- What a party relies on: `called` is the epoch that its call was made under. -/
def Phase.Ok (c : Client) (called : Option ℕ) : Phase → Prop
  | .idle => called = none
  | .waiting _ epoch attempt => called = some epoch ∧ c.Under false epoch ∧ c.Began attempt epoch
  | .failing _ epoch _ => called = some epoch ∧ c.Under false epoch
  | .holding _ epoch token => called = some epoch ∧ c.Under false epoch ∧ c.Issued epoch token
  | .anonymous epoch => c.Under true epoch
  | .sent epoch none => c.Under true epoch
  | .sent epoch (some _) => called = some epoch ∧ c.Under false epoch
  | .refreshing attempt epoch => c.Began attempt epoch
  | .applied attempt epoch res => c.Began attempt epoch ∧ c.Issued epoch res.accessToken
  | .tokenless | .over => True

section

variable {c c' : Client} {called : Option ℕ} {l : Phase}

theorem Phase.Ok.evolves (h : l.Ok c called) (hc : c.Evolves c') : l.Ok c' called := by
  have hunder := fun latch epoch (h : c.Under latch epoch) => h.evolves hc
  have hissued := fun epoch token (h : c.Issued epoch token) => h.evolves hc
  have hbegan := hc.attempts
  unfold Phase.Ok at h ⊢
  split <;> grind

/-- What a step keeps, and where it leaves its party. -/
structure Keeps (c c' : Client) (called : Option ℕ) (l : Phase) : Prop where
  sound : c'.Sound
  evolves : c.Evolves c'
  ok : l.Ok c' called

variable {epoch attempt : ℕ} {token : Option String}

theorem Client.Joins.keeps (h : c.Joins c' attempt) (hlive : c.signedOut = false)
    (again : Bool) : Keeps c c' (some c.sessionEpoch) (.waiting again c.sessionEpoch attempt) :=
  ⟨h.sound, h.evolves, rfl, (hlive ▸ c.under_sessionEpoch).evolves h.evolves, h.began⟩

theorem of_truthy {t : String} (h : truthy token = some t) :
    token = some t := (Option.filter_eq_some_iff.mp h).1

/-- A 401 is only acted on by a call that was made under the current epoch. -/
theorem called_of_unauthorized
    (hl : (Phase.sent epoch token).Ok c called) (hepoch : epoch = c.sessionEpoch)
    (hlive : c.signedOut = false) : called = some c.sessionEpoch := by
  subst hepoch
  cases token with
  | none => exact absurd (hlive.symm.trans (hl.2 rfl)) nofun
  | some token => exact hl.1

theorem Phase.Ok.called_getD (h : l.Ok c called) (hl : l ≠ .idle) (n : ℕ) :
    l.Ok c (some (called.getD n)) := by
  unfold Phase.Ok at h ⊢
  split <;> simp_all

theorem keeps_of_some {e : Stmt} {a : Ans e} {x : Ans e × Client} (hx : some x = some (a, c'))
    (h : Keeps c x.2 called (l.next e x.1)) : Keeps c c' called (l.next e a) := by
  cases hx
  exact h

variable (h : c.Sound)
include h

theorem Client.Sound.stays (hl : l.Ok c called) : Keeps c c called l :=
  ⟨h, .refl c, hl⟩

/-! ### Calls -/

theorem keeps_tokenFromRefresh (hlive : c.signedOut = false) (courtesy : Bool)
    (clock : Clock) : Keeps c (c.tokenFromRefresh courtesy clock).2 (some c.sessionEpoch)
      (Phase.await c.sessionEpoch (c.tokenFromRefresh courtesy clock).1) := by
  cases courtesy with
  | false => exact (h.refreshNeeded hlive clock).keeps hlive false
  | true =>
    obtain ⟨hsound, hevolves, hbegan⟩ := h.refreshAhead hlive clock
    have hunder := (hlive ▸ c.under_sessionEpoch).evolves hevolves
    refine ⟨hsound, hevolves, ?_⟩
    show (Phase.await c.sessionEpoch (.ahead (c.refreshAhead clock).1)).Ok _ _
    cases hattempt : (c.refreshAhead clock).1 with
    | none => exact ⟨rfl, hunder⟩
    | some attempt => exact ⟨rfl, hunder, hbegan attempt hattempt⟩

theorem not_signedOut_of_held {token : String} (ht : c.accessToken = some token) :
    c.signedOut = false := by
  by_contra hout
  have hnone := h.latched (Bool.not_eq_false _ ▸ hout)
  rw [ht] at hnone
  cases hnone

theorem Client.Sound.holds {token : String} (ht : c.accessToken = some token)
    (again : Bool) : (Phase.holding again c.sessionEpoch token).Ok c (some c.sessionEpoch) :=
  ⟨rfl, not_signedOut_of_held h ht ▸ c.under_sessionEpoch, .inl (h.held token ht)⟩

theorem keeps_ensureValidToken (clock : Clock) :
    Keeps c (c.ensureValidToken clock).2 (some c.sessionEpoch)
      (Phase.await c.sessionEpoch (c.ensureValidToken clock).1) := by
  unfold Client.ensureValidToken
  split
  · split_ifs with hout
    · exact h.stays trivial
    · exact keeps_tokenFromRefresh h (Bool.not_eq_true _ ▸ hout) false clock
  · next token htoken =>
    have ht := of_truthy htoken
    split_ifs
    · exact keeps_tokenFromRefresh h (not_signedOut_of_held h ht) _ clock
    · exact h.stays (h.holds ht false)

theorem keeps_fallBack {failure : Failure} (clock : Clock)
    (hl : (Phase.failing false epoch failure).Ok c called) :
    Keeps c (c.fallBack epoch failure clock).2 called
      (Phase.fellBack epoch (c.fallBack epoch failure clock).1) := by
  obtain ⟨rfl, hunder⟩ := hl
  have hheld : epoch = c.sessionEpoch →
      Keeps c c (some epoch) (Phase.fellBack epoch (.held c.accessToken)) := by
    rintro rfl
    cases ht : c.accessToken with
    | none => exact h.stays trivial
    | some token => exact h.stays (h.holds ht false)
  unfold Client.fallBack
  split_ifs with hne
  · exact h.stays trivial
  · obtain rfl : epoch = c.sessionEpoch := not_not.mp hne
    exact (h.refreshNeeded (hunder.2 rfl) clock).keeps (hunder.2 rfl) false
  · exact hheld (not_not.mp hne)
  · exact hheld (not_not.mp hne)
  · exact h.stays trivial

theorem keeps_unauthorized (sentToken : Option String) (clock : Clock)
    (hl : (Phase.sent epoch token).Ok c called) :
    Keeps c (c.unauthorized epoch sentToken clock).2 called
      (Phase.retry epoch (c.unauthorized epoch sentToken clock).1) := by
  have hneeded : epoch = c.sessionEpoch → c.signedOut = false →
      Keeps c (c.refreshNeeded clock).2 called (.waiting true epoch (c.refreshNeeded clock).1) := by
    intro hepoch hlive
    rw [called_of_unauthorized hl hepoch hlive, hepoch]
    exact (h.refreshNeeded hlive clock).keeps hlive true
  unfold Client.unauthorized
  split_ifs with hne hout
  · exact h.stays trivial
  · exact h.stays trivial
  · split
    · exact hneeded (not_not.mp hne) (Bool.not_eq_true _ ▸ hout)
    · split_ifs
      · exact h.stays trivial
      · exact hneeded (not_not.mp hne) (Bool.not_eq_true _ ▸ hout)

theorem keeps_confirmSession (clock : Clock) :
    Keeps c (c.confirmSession clock).2 (some c.sessionEpoch)
      (Phase.next .idle .confirmSession (c.confirmSession clock).1) := by
  unfold Client.confirmSession
  split_ifs with hnone
  · exact h.stays trivial
  · have hlive : c.signedOut = false := Bool.not_eq_true _ ▸ (not_or.mp hnone).1
    exact (h.refreshNeeded hlive clock).keeps hlive false

theorem keeps_retryNeeded {again : Bool} {failure : Failure}
    (clock : Clock) (hl : (Phase.failing again epoch failure).Ok c called) :
    Keeps c (c.retryNeeded epoch clock).2 called
      ((Phase.failing again epoch failure).retried (c.retryNeeded epoch clock).1) := by
  obtain ⟨hcalled, hunder⟩ := hl
  obtain ⟨hsound, hevolves, hbegan⟩ := h.retryNeeded hunder clock
  refine ⟨hsound, hevolves, ?_⟩
  cases hattempt : (c.retryNeeded epoch clock).1 with
  | none => exact ⟨hcalled, hunder.evolves hevolves⟩
  | some attempt => exact ⟨hcalled, hunder.evolves hevolves, hbegan attempt hattempt⟩

theorem ok_result {again : Bool} {res : Except Failure Session}
    (hres : c.awaitAttempt attempt = some res)
    (hl : (Phase.waiting again epoch attempt).Ok c called) :
    (Phase.result again epoch res).Ok c called := by
  obtain ⟨hcalled, hunder, a, ha, rfl⟩ := hl
  unfold Client.awaitAttempt at hres
  rw [ha] at hres
  split at hres
  · next heq =>
    cases heq
    cases hres
    cases res with
    | error failure => exact ⟨hcalled, hunder⟩
    | ok s => exact ⟨hcalled, hunder, h.answered _ (List.mem_of_getElem? ha) s rfl⟩
  · cases hres

/-! ### Refreshes -/

theorem keeps_applyAnswer (res : Session) (hl : (Phase.refreshing attempt epoch).Ok c called) :
    Keeps c (c.applyAnswer epoch res).2 called
      ((Phase.refreshing attempt epoch).apply res (c.applyAnswer epoch res).1) := by
  unfold Client.applyAnswer
  split_ifs with hne hother
  · exact h.stays hl
  · obtain rfl : epoch = c.sessionEpoch := not_not.mp hne
    have hevolves := c.evolves_storeTokens res
    exact ⟨h.storeTokens res, hevolves, hevolves.attempts attempt _ hl, .inr (Nat.lt_succ_self _)⟩
  · obtain rfl : epoch = c.sessionEpoch := not_not.mp hne
    have hevolves := c.evolves_writeTokens res
    obtain ⟨a, ha, hepoch⟩ := id hl
    have hlive : c.signedOut = false := (h.begun a (List.mem_of_getElem? ha)).2 hepoch
    exact ⟨h.writeTokens hlive res, hevolves, hevolves.attempts attempt _ hl,
      .inl (.head _)⟩

theorem keeps_refuse (hl : (Phase.refreshing attempt epoch).Ok c called) :
    Keeps c (c.refuse epoch).2 called (.refreshing attempt epoch) := by
  unfold Client.refuse
  split_ifs
  · exact h.stays hl
  · exact ⟨h.clearTokens, c.evolves_clearTokens, hl.evolves c.evolves_clearTokens⟩

theorem keeps_failed (epoch : ℕ) (failure : Failure) (monotonic jitter : Int)
    (hl : l.Ok c called) : Keeps c (c.failed epoch failure monotonic jitter).2 called l := by
  unfold Client.failed
  split_ifs
  · exact h.stays hl
  · have hevolves : c.Evolves { c with refreshBackoff := some (monotonic +
        min (max (Client.asked failure) (refreshBackoffMs + jitter)) refreshBackoffMaxMs, failure) } :=
      ⟨Nat.le_refl _, fun _ => rfl, fun _ h => h, fun _ _ h => h⟩
    exact ⟨h.backoff _, hevolves, hl.evolves hevolves⟩

theorem keeps_take {taken : Taken}
    (htaken : (c.attempts[attempt]?.bind Attempt.take) = some taken) :
    Keeps c (c.setStatus attempt .taken) called (.refreshing attempt taken.epoch) := by
  obtain ⟨a, ha, htake⟩ := Option.bind_eq_some_iff.mp htaken
  have hepoch : a.epoch = taken.epoch := by
    unfold Attempt.take at htake
    split at htake <;> cases htake <;> rfl
  exact ⟨h.setStatus nofun, c.evolves_setStatus .taken,
    Client.began_setStatus .taken ⟨a, ha, hepoch⟩ attempt⟩

theorem keeps_settle {r : Role} {res : Except Failure Session} (hl : l.Ok c called)
    (hmay : l.may r (.settle attempt res)) : Keeps c (c.settle attempt res) called .over := by
  refine ⟨h.settle ?_, ?_, trivial⟩
  · rintro s epoch rfl ⟨a, ha, rfl⟩
    obtain ⟨epoch, rfl⟩ := hmay
    obtain ⟨⟨a', ha', hepoch⟩, hissued⟩ := hl
    cases ha.symm.trans ha'
    rwa [hepoch]
  · have hevolves := @(c.forget attempt).evolves_setStatus attempt (.settled res)
    exact ⟨hevolves.epoch, hevolves.latch, hevolves.stored, hevolves.attempts⟩

/-- **The step lemma.** Every piece of code between two awaits keeps the module's invariant, takes
nothing back, and leaves its party with what it relies on next. -/
theorem step_sound {r : Role} {e : Stmt} {o : Outcome e} {a : Ans e} (hl : l.Ok c called)
    (hmay : l.may r e) (hx : exec e o c = some (a, c')) :
    Keeps c c' (some (called.getD c.sessionEpoch)) (l.next e a) := by
  by_cases hidle : l = .idle
  · subst hidle
    cases hl
    cases e with
    | ensureValidToken =>
      cases hx
      exact keeps_ensureValidToken h o
    | confirmSession =>
      exact keeps_of_some hx (keeps_confirmSession h o)
    | sendHeld =>
      cases hx
      exact h.stays trivial
    | take attempt =>
      obtain ⟨taken, htaken, heq⟩ := Option.map_eq_some_iff.mp hx
      cases heq
      exact keeps_take h htaken
    | storeTokens res =>
      cases hx
      exact ⟨h.storeTokens res, c.evolves_storeTokens res, trivial⟩
    | clearTokens =>
      cases hx
      exact ⟨h.clearTokens, c.evolves_clearTokens, trivial⟩
    | send epoch token => cases token <;> cases hmay
    | settle attempt res => cases res <;> simp [Phase.may] at hmay
    | _ => simp [Phase.may] at hmay
  replace hl := hl.called_getD hidle c.sessionEpoch
  cases e with
  | awaitAttempt attempt =>
    obtain ⟨again, epoch, rfl⟩ := hmay
    obtain ⟨res, hres, heq⟩ := Option.map_eq_some_iff.mp hx
    cases heq
    exact h.stays (ok_result h hres hl)
  | retryNeeded epoch =>
    obtain ⟨again, rfl⟩ := hmay
    exact keeps_of_some hx (keeps_retryNeeded h o hl)
  | fallBack epoch failure =>
    cases hmay
    exact keeps_of_some hx (keeps_fallBack h o hl)
  | noToken =>
    cases hx
    have hunder := c.under_sessionEpoch
    refine h.stays ?_
    cases hout : c.signedOut <;> simp_all [Phase.next, Phase.unsigned, Phase.Ok]
  | send epoch token =>
    cases hx
    refine h.stays ?_
    by_cases hepoch : epoch = c.sessionEpoch <;> cases token <;>
      simp_all [Phase.next, Phase.may, Phase.Ok]
  | unauthorized epoch sentToken =>
    obtain ⟨token, rfl, rfl⟩ := hmay
    exact keeps_of_some hx (keeps_unauthorized h (truthy token) o hl)
  | replay epoch token =>
    cases hx
    exact h.stays trivial
  | lock courtesy =>
    cases (Option.ite_none_right_eq_some.mp hx).2
    exact h.stays hl
  | failed epoch failure =>
    exact keeps_of_some hx (keeps_failed h epoch failure o.1 o.2 hl)
  | refuse epoch =>
    obtain ⟨attempt, rfl, -⟩ := hmay
    exact keeps_of_some hx (keeps_refuse h hl)
  | applyAnswer epoch res =>
    obtain ⟨attempt, rfl, -⟩ := hmay
    exact keeps_of_some hx (keeps_applyAnswer h res hl)
  | settle attempt res =>
    cases hx
    exact keeps_settle h hl hmay
  | response | isCurrent | postRefresh | refreshAnswer | listener =>
    cases hx
    exact h.stays hl
  | _ => simp_all [Phase.may]

end

/-! ## Histories -/

def carried : webClient.Entry → Option String
  | ⟨_, _, .send _ token, true, _⟩ => truthy token
  | ⟨_, _, .sendHeld, token, _⟩ => truthy token
  | ⟨_, _, .unauthorized _ _, .replayed token, _⟩ => some token
  | ⟨_, _, .replay _ token, true, _⟩ => some token
  | _ => none

def isReplay : webClient.Entry → Bool
  | ⟨_, _, .unauthorized _ _, .replayed _, _⟩ => true
  | ⟨_, _, .replay _ _, true, _⟩ => true
  | _ => false

def isStore : webClient.Entry → Bool
  | ⟨_, _, .applyAnswer _ _, .rotated, _⟩ => true
  | ⟨_, _, .applyAnswer _ _, .began, _⟩ => true
  | _ => false

def latches : webClient.Entry → Option Bool
  | ⟨_, _, .clearTokens, _, _⟩ => some true
  | ⟨_, _, .refuse _, true, _⟩ => some true
  | ⟨_, _, .storeTokens _, _, _⟩ => some false
  | ⟨_, _, .applyAnswer _ _, .began, _⟩ => some false
  | _ => none

/-- `clearTokens` ran, and no `storeTokens` since. -/
def signedOutSince : webClient.Log → Bool
  | [] => false
  | en :: log => (latches en).getD (signedOutSince log)

/-- The epoch that was current when party `k` made its call. -/
def callEpoch (k : ℕ) : webClient.Log → Option ℕ
  | [] => none
  | en :: log =>
    if en.party = k then some ((callEpoch k log).getD en.before.sessionEpoch) else callEpoch k log

/-- Only a party that is over has replayed. -/
def Phase.replays : Phase → ℕ
  | .over => 1
  | _ => 0

section

variable {c c' : Client} {called : Option ℕ} {l : Phase} {i : ℕ} {r : Role} {e : Stmt}
  {o : Outcome e} {a : Ans e} {log : webClient.Log}

theorem Client.Issued.now {epoch : ℕ} {token : String} (h : c.Issued epoch token)
    (hepoch : epoch = c.sessionEpoch) : (c.sessionEpoch, token) ∈ c.stored := by
  subst hepoch
  exact h.resolve_right (Nat.lt_irrefl _)

/-- What a request carries was stored under the current epoch, which is that of its call. -/
theorem carried_current (h : c.Sound) (hl : l.Ok c called) (hmay : l.may r e)
    (hx : exec e o c = some (a, c')) {token : String} (ht : carried ⟨i, r, e, a, c⟩ = some token) :
    called.getD c.sessionEpoch = c.sessionEpoch ∧ (c.sessionEpoch, token) ∈ c.stored := by
  cases e with
  | send epoch sent =>
    replace hx : decide (epoch = c.sessionEpoch) = a := congrArg Prod.fst (Option.some.inj hx)
    match (a : Bool), ht with
    | true, ht =>
      obtain rfl := of_truthy ht
      have hepoch : epoch = c.sessionEpoch := of_decide_eq_true hx
      cases hmay
      exact ⟨by rw [hl.1, hepoch]; rfl, hl.2.2.now hepoch⟩
  | sendHeld =>
    cases hmay
    cases hl
    replace hx : c.accessToken = a := congrArg Prod.fst (Option.some.inj hx)
    exact ⟨rfl, h.held token (hx.trans (of_truthy ht))⟩
  | unauthorized epoch sentToken =>
    obtain ⟨sent, rfl, -⟩ := hmay
    replace hx : (c.unauthorized epoch sentToken o).1 = a :=
      congrArg Prod.fst (Option.some.inj hx)
    unfold Client.unauthorized at hx
    split_ifs at hx with hne hout
    · cases hx; cases ht
    · cases hx; cases ht
    · have hcalled := called_of_unauthorized hl (not_not.mp hne) (Bool.not_eq_true _ ▸ hout)
      split at hx
      · cases hx; cases ht
      · next held hheld =>
        split_ifs at hx
        · cases hx
          cases ht
          exact ⟨by rw [hcalled]; rfl, h.held _ hheld⟩
        · cases hx; cases ht
  | replay epoch sent =>
    replace hx : decide (epoch = c.sessionEpoch) = a := congrArg Prod.fst (Option.some.inj hx)
    match (a : Bool), ht with
    | true, rfl =>
      have hepoch : epoch = c.sessionEpoch := of_decide_eq_true hx
      cases hmay
      exact ⟨by rw [hl.1, hepoch]; rfl, hl.2.2.now hepoch⟩
  | _ => cases ht

theorem next_over (hmay : Phase.over.may r e) (a : Ans e) :
    Phase.over.next e a = .over ∧ isReplay ⟨i, r, e, a, c⟩ = false := by
  unfold Phase.may at hmay
  split at hmay <;> simp_all [Phase.next, isReplay]

theorem Phase.replays_of_ne_over (h : l ≠ .over) : l.replays = 0 := by
  cases l <;> simp_all [Phase.replays]

/-- A replay is the last thing that a call sends. -/
theorem over_of_isReplay (h : isReplay ⟨i, r, e, a, c⟩ = true) : l.next e a = .over := by
  unfold isReplay at h
  split at h
  · next heq => cases heq; rfl
  · next heq => cases heq; rfl
  · cases h

theorem store_current (hl : l.Ok c called) (hmay : l.may r e)
    (hx : exec e o c = some (a, c')) (hs : isStore ⟨i, r, e, a, c⟩ = true) :
    ∃ attempt, r = .refreshTokens attempt ∧ c.Began attempt c.sessionEpoch := by
  cases e with
  | applyAnswer epoch res =>
    obtain ⟨attempt, rfl, hr⟩ := hmay
    replace hx : (c.applyAnswer epoch res).1 = a := congrArg Prod.fst (Option.some.inj hx)
    unfold Client.applyAnswer at hx
    split_ifs at hx with hne
    · cases hx; cases hs
    all_goals
      obtain rfl : epoch = c.sessionEpoch := not_not.mp hne
      exact ⟨attempt, hr, hl⟩
  | _ => cases hs

theorem latch_step (hx : exec e o c = some (a, c')) :
    c'.signedOut = (latches ⟨i, r, e, a, c⟩).getD c.signedOut := by
  have hstart : ∀ courtesy clock, (c.startRefresh courtesy clock).signedOut = c.signedOut := by
    grind [Client.startRefresh, Client.beginAttempt]
  have hneeded : ∀ clock, (c.refreshNeeded clock).2.signedOut = c.signedOut := by
    grind [Client.refreshNeeded]
  have hahead : ∀ clock, (c.refreshAhead clock).2.signedOut = c.signedOut := by
    grind [Client.refreshAhead]
  have htoken : ∀ courtesy clock, (c.tokenFromRefresh courtesy clock).2.signedOut = c.signedOut := by
    rintro (_ | _) <;> simp [Client.tokenFromRefresh, hneeded, hahead]
  cases e with
  | ensureValidToken =>
    cases hx
    show (c.ensureValidToken o).2.signedOut = c.signedOut
    grind [Client.ensureValidToken]
  | confirmSession =>
    replace hx : c.confirmSession o = (a, c') := Option.some.inj hx
    show c'.signedOut = c.signedOut
    grind [Client.confirmSession]
  | retryNeeded epoch =>
    replace hx : c.retryNeeded epoch o = (a, c') := Option.some.inj hx
    show c'.signedOut = c.signedOut
    grind [Client.retryNeeded]
  | fallBack epoch failure =>
    replace hx : c.fallBack epoch failure o = (a, c') := Option.some.inj hx
    show c'.signedOut = c.signedOut
    grind [Client.fallBack]
  | unauthorized epoch sentToken =>
    replace hx : c.unauthorized epoch sentToken o = (a, c') := Option.some.inj hx
    show c'.signedOut = c.signedOut
    grind [Client.unauthorized]
  | awaitAttempt attempt | take attempt =>
    obtain ⟨_, -, heq⟩ := Option.map_eq_some_iff.mp hx
    cases heq
    rfl
  | lock courtesy =>
    cases (Option.ite_none_right_eq_some.mp hx).2
    rfl
  | failed epoch failure =>
    replace hx : c.failed epoch failure o.1 o.2 = (a, c') := Option.some.inj hx
    unfold Client.failed at hx
    split_ifs at hx <;> cases hx <;> rfl
  | refuse epoch =>
    replace hx : c.refuse epoch = (a, c') := Option.some.inj hx
    unfold Client.refuse at hx
    split_ifs at hx <;> cases hx <;> rfl
  | applyAnswer epoch res =>
    replace hx : c.applyAnswer epoch res = (a, c') := Option.some.inj hx
    unfold Client.applyAnswer at hx
    split_ifs at hx <;> cases hx <;> rfl
  | _ =>
    cases hx
    rfl

/-! ## Requests keep to their session -/

structure Kept (log : webClient.Log) (c : Client) : Prop where
  sound : c.Sound
  phase : ∀ k, (phases.loc k log : Phase).Ok c (callEpoch k log)
  carried : ∀ en ∈ log, ∀ token, carried en = some token →
    callEpoch en.party log = some en.before.sessionEpoch ∧
      (en.before.sessionEpoch, token) ∈ en.before.stored
  replayed : ∀ k, log.countP (fun en => decide (en.party = k) && isReplay en) ≤
    (phases.loc k log : Phase).replays
  stored : ∀ en ∈ log, isStore en = true →
    ∃ attempt, en.role = Role.refreshTokens attempt ∧
      en.before.Began attempt en.before.sessionEpoch
  latched : signedOutSince log = c.signedOut

theorem callEpoch_of_some {k epoch : ℕ} {en : webClient.Entry}
    (h : callEpoch k log = some epoch) : callEpoch k (en :: log) = some epoch := by
  unfold callEpoch
  rw [h]
  split_ifs <;> rfl

theorem replays_step (hmay : l.may r e) (a : Ans e) {n : ℕ} (h : n ≤ l.replays) :
    n + (if isReplay ⟨i, r, e, a, c⟩ then 1 else 0) ≤ (l.next e a).replays := by
  by_cases hover : l = .over
  · subst hover
    obtain ⟨hnext, hnone⟩ := next_over hmay a
    rwa [hnext, hnone]
  · rw [Phase.replays_of_ne_over hover] at h
    split_ifs with hreplay
    · rw [over_of_isReplay hreplay]
      exact Nat.succ_le_succ h
    · exact Nat.le_trans h (Nat.zero_le _)

theorem kept_step (h : Kept log c) (hmay : (phases.loc i log : Phase).may r e)
    (hx : exec e o c = some (a, c')) : Kept (⟨i, r, e, a, c⟩ :: log) c' := by
  have hkeeps := step_sound h.sound (h.phase i) hmay hx
  have hself : callEpoch i (⟨i, r, e, a, c⟩ :: log) =
      some ((callEpoch i log).getD c.sessionEpoch) := if_pos rfl
  have hother : ∀ k, k ≠ i → callEpoch k (⟨i, r, e, a, c⟩ :: log) = callEpoch k log :=
    fun k hk => if_neg (Ne.symm hk)
  refine ⟨hkeeps.sound, ?_, ?_, ?_, ?_, ?_⟩
  · refine forall_loc (T := phases) ?_ fun k hk => ?_
    · rw [hself]
      exact hkeeps.ok
    · rw [hother k hk]
      exact (h.phase k).evolves hkeeps.evolves
  · refine List.forall_mem_cons.mpr ⟨fun token ht => ?_, fun en hmem token ht => ?_⟩
    · obtain ⟨hcalled, hstored⟩ := carried_current h.sound (h.phase i) hmay hx ht
      exact ⟨hself.trans (congrArg some hcalled), hstored⟩
    · obtain ⟨hcalled, hstored⟩ := h.carried en hmem token ht
      exact ⟨callEpoch_of_some hcalled, hstored⟩
  · refine forall_loc (T := phases) (p := fun k (l : Phase) =>
      (⟨i, r, e, a, c⟩ :: log : webClient.Log).countP
        (fun en => decide (en.party = k) && isReplay en) ≤ l.replays) ?_ fun k hk => ?_
    · rw [List.countP_cons, decide_eq_true rfl]
      exact replays_step hmay a (h.replayed i)
    · rw [List.countP_cons, decide_eq_false (Ne.symm hk)]
      exact h.replayed k
  · refine List.forall_mem_cons.mpr ⟨fun hs => ?_, h.stored⟩
    exact store_current (h.phase i) hmay hx hs
  · show (latches _).getD (signedOutSince log) = _
    rw [h.latched]
    exact (latch_step hx).symm

end

theorem kept_init : Kept [] {} where
  sound :=
    { held := nofun
      latched := nofun
      inFlight := nofun
      begun := fun _ hmem => absurd hmem List.not_mem_nil
      answered := fun _ hmem => absurd hmem List.not_mem_nil }
  phase := fun _ => rfl
  carried := fun _ hmem => absurd hmem List.not_mem_nil
  replayed := fun _ => Nat.le_refl 0
  stored := fun _ hmem => absurd hmem List.not_mem_nil
  latched := rfl

/-- **No request crosses sessions.** In every interleaving: what a request carries was stored under
the epoch that is current then and was when it was called; a call replays at most once; a refresh
stores its answer only under the epoch it began under; and from `clearTokens` to the next
`storeTokens` no token is held. -/
theorem no_request_crosses_sessions {c : webClient.Pool}
    (hc : webClient.Reach Cond.any (Pool.idle {}) c) :
    (∀ en ∈ c.log, ∀ token, carried en = some token →
      callEpoch en.party c.log = some en.before.sessionEpoch ∧
        (en.before.sessionEpoch, token) ∈ en.before.stored) ∧
    (∀ k, c.log.countP (fun en => decide (en.party = k) && isReplay en) ≤ 1) ∧
    (∀ en ∈ c.log, isStore en = true → ∃ attempt, en.role = Role.refreshTokens attempt ∧
      en.before.Began attempt en.before.sessionEpoch) ∧
    (signedOutSince c.log = true → c.shared.accessToken = none) := by
  have hkept : Kept c.log c.shared := by
    refine invariant phases_followed kept_init ?_ hc
    intro log i r e o a s s' h _ hmay hx
    exact kept_step h hmay hx
  refine ⟨hkept.carried, fun k => Nat.le_trans (hkept.replayed k) ?_, hkept.stored, fun hout => ?_⟩
  · cases (phases.loc k c.log : Phase) <;> first | exact Nat.zero_le 1 | exact Nat.le_refl 1
  · exact hkept.sound.latched (hkept.latched.symm.trans hout)

/-- Every answer is at hand: requests have this status, refreshes a new token of the same user. -/
def answers (status : ℕ) : (e : Stmt) → Outcome e
  | .ensureValidToken | .confirmSession | .retryNeeded _ | .fallBack _ _ | .unauthorized _ _ => ⟨0, 0⟩
  | .response => .ok status
  | .lock _ => .granted
  | .refreshAnswer => .session 200 ⟨"b", 1000, "u"⟩
  | .failed _ _ => (0, 0)
  | .listener => none
  | .awaitAttempt _ | .noToken | .send _ _ | .sendHeld | .replay _ _ | .isCurrent _ | .take _
  | .postRefresh _ | .refuse _ | .applyAnswer _ _ | .settle _ _ | .storeTokens _ | .clearTokens => ()

/-- A sign-in; a request that is refused, refreshes and is replayed; a sign-out. -/
def refusedRequest : List webClient.Event :=
  [.start (.storeTokens ⟨"a", 1000, "u"⟩), .step 0 (answers 200), .start (.request 0)] ++
    List.replicate 4 (.step 1 (answers 401)) ++ [.start (.refreshTokens 0)] ++
    List.replicate 8 (.step 2 (answers 200)) ++ List.replicate 3 (.step 1 (answers 200)) ++
    [.start .clearTokens, .step 3 (answers 200)]

theorem no_request_crosses_sessions_replayed :
    ∃ c, webClient.Reach Cond.any (Pool.idle {}) c ∧
      c.log.filterMap carried = ["b", "a"] ∧ c.shared.accessToken = none ∧
      ∀ k, c.log.countP (fun en => decide (en.party = k) && isReplay en) ≤ 1 := by
  obtain ⟨c, hc, hcarried, hout⟩ := exists_reach (M := webClient) Cond.any {}
    refusedRequest
    (fun c => c.log.filterMap carried = ["b", "a"] ∧ signedOutSince c.log = true) (by decide +kernel)
  obtain ⟨-, hreplays, -, hnone⟩ := no_request_crosses_sessions hc
  exact ⟨c, hc, hcarried, hnone hout, hreplays⟩

end Nexara.WebClient
