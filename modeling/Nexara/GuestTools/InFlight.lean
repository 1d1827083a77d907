import Nexara.GuestTools.Borrowed

/-!
# An update in flight keeps its media

The retry of a pending restore reads the row again right before it touches the guest. Its read, its
call to Proxmox and its unconditional clearing write are separate steps all the same: a `StageOne`
that comes between them loses its ISO and the record of it (`media_pulled_in_flight`). `Unheld` are
the runs in which no `StageOne` does, and no result is read that may be an older update's.
-/

namespace Nexara.GuestTools

open Conc Protocol System

/-! ## What an operation has in hand -/

/-- What an operation has in hand on the way to its writes. -/
inductive Hand where
  | empty
  /-- The rows it has read of an update in flight. -/
  | update (rows : List Row)
  /-- The result, the cancel or the expiry of an update. -/
  | ending
  /-- A restore that was listed as pending. -/
  | pending
  /-- A marker it has written. -/
  | staging (version : String) (prior : Prior)
  deriving DecidableEq

namespace Hand

def reread : Role → Hand → Option Row → Hand
  | _, .update rows, some row => .update (row :: rows)
  | .cancelOne, .empty, some _ => .ending
  | _, .pending, row => if row.any fun row => !row.stage.isInFlight && row.prior.isSome then .pending
    else .empty
  | _, l, _ => l

def look : Hand → Lookup → Hand
  | .ending, .error | .ending, .noRows | .pending, .error => .empty
  | l, _ => l

/-- The node or the client is looked up. -/
def connect : Hand → Bool → Hand
  | .ending, false | .pending, false => .empty
  | l, _ => l

def configure : Hand → Bool → Hand
  | .pending, false => .empty
  | l, _ => l

def resolve : Role → Hand → Option Target → Hand
  | .reconcile, .update rows, some target =>
    if rows.any fun row => supersededStaging row.stage row.stagedVersion target.version then .ending
    else .update rows
  | _, l, _ => l

def next (r : Role) (l : Hand) : (e : Stmt) → e.Ans → Hand
  | .listGuestToolsInFlight, rows => (rows.bind id).elim .empty fun row => .update [row]
  | .listGuestToolsPendingCDROMRestore, rows => (rows.bind id).elim .empty fun _ => .pending
  | .getGuestToolsState, row => .reread r l row
  | .getVMByClusterAndVmid, vm => l.look vm
  | .getNode, ok | .createClient, ok => l.connect ok
  | .setVMConfig .., ok => l.configure ok
  | .resolveTarget, target => .resolve r l target
  | .pastCeiling .., late => if late then .ending else l
  | .readResult, result => (result.bind id).elim l fun _ => .ending
  | .setGuestToolsStage stage version prior, ok =>
    if ok then if stage = .staging then .staging version prior else .empty else l
  | .finishGuestToolsUpdate .., _ | .clearGuestToolsCDROMRestore, _ => .empty
  | _, _ => l

/-- Drives are put back, and records given up, only with an ending or a pending restore in hand. -/
def may (r : Role) (l : Hand) : Stmt → Prop
  | .setVMConfig key value => l = .ending ∨ l = .pending ∨ r.stages = true ∧
      ∃ version prior volid, l = .staging version prior ∧ key = prior.1 ∧
        value = some (.cdrom (.virtioWin volid))
  | .finishGuestToolsUpdate .. => l = .ending ∨ r.stages = true ∧ ∃ version prior,
      l = .staging version prior
  | .clearGuestToolsCDROMRestore => l = .pending
  | .setGuestToolsStage stage version prior =>
    r.stages = true ∧ (stage = .staging ∨ stage.isInFlight = true ∧ l = .staging version prior)
  | .deleteGuestToolsStateForVanishedGuests _ => False
  | _ => True

end Hand

/-- Operations other than the scheduled passes. -/
abbrev hands : Protocol guestTools where
  Loc := Hand
  init := .empty
  next := Hand.next
  may r l e := (∀ cfg, r ≠ .pass cfg) → l.may r e

section

variable {r : Role} {l : Hand}

attribute [local simp] call thenTry Option.forall Hand.may Hand.next Hand.reread Hand.look
  Hand.connect Hand.configure Hand.resolve Role.stages Stage.isInFlight markFailed forall_lookup
  forall_presence Prog.forall_except

variable {state : Row}

/-- It has the end of the update in hand, or a row of it. -/
def Hand.Holds (state : Row) (l : Hand) : Prop :=
  l = .ending ∨ ∃ rows, l = .update rows ∧ state ∈ rows

section

variable {Q : Bool → Hand → Prop} (hQ : ∀ ok l', Q ok l')
include hQ

end

end

/-! ## The update in flight -/

/-- An update from the marker of its `StageOne` on. -/
structure Update where
  party : ℕ
  version : String
  prior : Prior
  /-- Its ISO is attached. -/
  attached : Bool := false
  /-- The result of an earlier update is taken away. -/
  cleared : Bool := false

def Update.begun : guestTools.Entry → Option Update
  | ⟨k, .stageOne _, .setGuestToolsStage .staging version prior, true, _⟩ =>
    some { party := k, version, prior }
  | _ => none

/-- What a statement leaves of the update: nothing, at its own result, cancel, expiry or new target.
-/
def Update.after (u : Update) : guestTools.Entry → Option Update
  | ⟨k, _, .setVMConfig .., true, _⟩ => some { u with attached := u.attached || k = u.party }
  | ⟨k, _, .clearResultFile, true, _⟩ => some { u with cleared := u.cleared || k = u.party }
  | ⟨k, _, .finishGuestToolsUpdate .., _, _⟩ => if k = u.party then none else some u
  | ⟨_, _, .readResult, some (some _), _⟩ => if u.cleared then none else some u
  | ⟨_, .cancelOne, .getGuestToolsState, some _, _⟩ => none
  | ⟨_, _, .pastCeiling .., true, _⟩ => none
  | ⟨_, .reconcile, .resolveTarget, some target, _⟩ =>
    if target.version = u.version then some u else none
  | _ => some u

/-- The latest update, until its own result, cancel or expiry. -/
def current : guestTools.Log → Option Update
  | [] => none
  | en :: log => (Update.begun en).or ((current log).bind (·.after en))

/-- No scheduled pass runs, no `StageOne` writes its marker while another operation has something in
hand, and no result is read while an earlier update's may still be there. -/
def Unheld : guestTools.Cond := fun log i r e o _ =>
  match r, e, o with
  | .pass _, _, _ => false
  | _, .setGuestToolsStage .staging _ _, _ =>
    log.all fun en => decide (en.party = i) || decide (hands.loc en.party log = Hand.empty)
  | _, .readResult, some (some _) => (current log).all (·.cleared)
  | _, _, _ => true

/-- Statements that set a drive, finish an update or give up a record. -/
def Stmt.acts : Stmt → Bool
  | .setVMConfig .. | .finishGuestToolsUpdate .. | .clearGuestToolsCDROMRestore => true
  | _ => false

/-- What an operation may have in hand beside the update. -/
def Hand.Fits (u : Update) (k : ℕ) : Hand → Prop
  | .empty => True
  | .update rows => ∀ row ∈ rows, row.stagedVersion = u.version
  | .staging version prior => k = u.party ∧ version = u.version ∧ prior = u.prior
  | .ending | .pending => False

/-- The row and the drive are the update's. -/
structure Update.Stands (u : Update) (w : World) : Prop where
  row : ∃ row, w.row = some row ∧ row.stage.isInFlight = true ∧ row.stagedVersion = u.version ∧
    row.prior = some u.prior
  media : u.attached = true → (w.config u.prior.1).any (·.holdsVirtioWin) = true

structure KeepsMedia (log : guestTools.Log) (w : World) : Prop where
  stands : ∀ u, current log = some u → u.Stands w
  fits : ∀ u, current log = some u → ∀ k, (hands.loc k log : Hand).Fits u k
  acts : ∀ later en earlier, log = later ++ en :: earlier → en.stmt.acts = true →
    en.role.stages = false → current earlier = none

section

variable {l : Hand} {r : Role} {i : ℕ} {log : guestTools.Log} {u u' : Update} {e : Stmt}
  {w : World} {o : e.Outcome}

theorem Update.Stands.listed (h : u.Stands w) : ∃ row, w.row = some row ∧ w.inFlight = some row ∧
    w.pending = none ∧ row.stagedVersion = u.version := by
  obtain ⟨row, hrow, hflight, hversion, -⟩ := h.row
  refine ⟨row, hrow, ?_, ?_, hversion⟩
  · simp [World.inFlight, hrow, Option.filter, hflight]
  · simp [World.pending, hrow, Option.filter, hflight]

theorem fits_reread (hl : l.Fits u i) {row : Option Row} (hr : r = .cancelOne → row = none)
    (hrow : ∀ row', row = some row' → row'.stagedVersion = u.version) :
    (Hand.reread r l row).Fits u i := by
  cases l with
  | ending | pending => exact hl.elim
  | update rows =>
    cases row with
    | none => exact hl
    | some row =>
      intro row' hmem
      rcases List.mem_cons.mp hmem with rfl | hmem
      · exact hrow _ rfl
      · exact hl _ hmem
  | empty | staging _ _ =>
    cases row with
    | none => cases r <;> exact hl
    | some row =>
      cases r with
      | cancelOne => cases hr rfl
      | _ => exact hl

theorem fits_resolve (hl : l.Fits u i) {target : Option Target}
    (hr : r = .reconcile → ∀ t, target = some t → t.version = u.version) :
    (Hand.resolve r l target).Fits u i := by
  unfold Hand.resolve
  split
  · next rows t =>
    rw [if_neg]
    · exact hl
    · rw [List.any_eq_true]
      rintro ⟨row, hmem, hrow⟩
      simp [supersededStaging, hl row hmem, hr rfl t rfl] at hrow
  · exact hl

/-- Beside the update, only its own staging acts. -/
theorem Hand.Fits.staging (hl : l.Fits u i) (hmay : l.may r e) (he : e.acts = true) :
    r.stages = true ∧ i = u.party ∧ l = .staging u.version u.prior := by
  have hown {version : String} {prior : Prior} (h : l = .staging version prior) :
      i = u.party ∧ l = .staging u.version u.prior := by
    subst h
    obtain ⟨hi, rfl, rfl⟩ := hl
    exact ⟨hi, rfl⟩
  cases e with
  | setVMConfig key value =>
    rcases hmay with rfl | rfl | ⟨hr, version, prior, -, h, -⟩
    · exact hl.elim
    · exact hl.elim
    · exact ⟨hr, hown h⟩
  | finishGuestToolsUpdate stage restored =>
    rcases hmay with rfl | ⟨hr, version, prior, h⟩
    · exact hl.elim
    · exact ⟨hr, hown h⟩
  | clearGuestToolsCDROMRestore => cases hmay; exact hl.elim
  | _ => cases he

/-- What the statement leaves of the update stands, and its party has nothing in hand against it. -/
def Update.GoesOn (u : Update) (i : ℕ) (r : Role) (l : Hand) (e : Stmt) (o : e.Outcome) (w : World) :
    Prop :=
  ∀ u', u.after ⟨i, r, e, (exec e o w).1, w⟩ = some u' →
    u'.Stands (exec e o w).2 ∧ (l.next r e (exec e o w).1).Fits u' i

section

variable (hs : u.Stands w)
include hs

theorem goesOn_listGuestToolsInFlight {ok : Bool} :
    u.GoesOn i r l .listGuestToolsInFlight ok w := by
  rintro _ ⟨⟩
  refine ⟨hs, ?_⟩
  cases ok with
  | false => trivial
  | true =>
    obtain ⟨row, -, hflight, -, hversion⟩ := hs.listed
    show Hand.Fits _ _ (w.inFlight.elim _ _)
    rw [hflight]
    exact fun row' hmem => List.mem_singleton.mp hmem ▸ hversion

theorem goesOn_listGuestToolsPendingCDROMRestore {ok : Bool} :
    u.GoesOn i r l .listGuestToolsPendingCDROMRestore ok w := by
  rintro _ ⟨⟩
  refine ⟨hs, ?_⟩
  cases ok with
  | false => trivial
  | true =>
    obtain ⟨row, -, -, hpending, -⟩ := hs.listed
    show Hand.Fits _ _ (w.pending.elim _ _)
    rw [hpending]
    trivial

variable (hl : l.Fits u i)
include hl

theorem goesOn_setVMConfig {key : Key} {value : Option Drive} {ok : Bool}
    (hmay : l.may r (.setVMConfig key value)) : u.GoesOn i r l (.setVMConfig key value) ok w := by
  obtain ⟨-, -, rfl⟩ := hl.staging hmay rfl
  intro u' hafter
  cases ok with
  | false => cases hafter; exact ⟨hs, hl⟩
  | true =>
    cases hafter
    rcases hmay with h | h | ⟨-, version, prior, volid, h, rfl, rfl⟩
    · cases h
    · cases h
    · cases h
      refine ⟨⟨hs.row, fun _ => ?_⟩, hl⟩
      show Option.any _ (Function.update w.config u.prior.1 _ u.prior.1) = true
      rw [Function.update_self]
      rfl

theorem goesOn_setGuestToolsStage {stage : Stage} {version : String} {prior : Prior}
    (hstage : stage.isInFlight = true) (hown : l = .staging version prior) :
    u.GoesOn i r l (.setGuestToolsStage stage version prior) true w := by
  subst hown
  obtain ⟨-, rfl, rfl⟩ := id hl
  rintro _ ⟨⟩
  refine ⟨⟨⟨_, rfl, hstage, rfl, rfl⟩, hs.media⟩, ?_⟩
  show Hand.Fits _ _ (if stage = .staging then _ else _)
  split_ifs
  · exact hl
  · trivial

theorem goesOn_getGuestToolsState {ok : Bool} : u.GoesOn i r l .getGuestToolsState ok w := by
  intro u' hafter
  cases ok with
  | false =>
    cases r <;> cases hafter <;> exact ⟨hs, fits_reread hl (fun _ => rfl) fun _ h => by cases h⟩
  | true =>
    obtain ⟨row, hrow, -, -, hversion⟩ := hs.listed
    have hans : (exec .getGuestToolsState true w).1 = some row := hrow
    rw [hans] at hafter ⊢
    have hread : ∀ row', some row = some row' → row'.stagedVersion = u.version := by
      rintro _ ⟨⟩
      exact hversion
    cases r <;> cases hafter <;> exact ⟨hs, fits_reread hl (fun h => by cases h) hread⟩

theorem goesOn_resolveTarget {target : Option Target} :
    u.GoesOn i r l .resolveTarget target w := by
  intro u' hafter
  cases r with
  | reconcile =>
    cases target with
    | none => cases hafter; exact ⟨hs, fits_resolve hl fun _ _ h => by cases h⟩
    | some target =>
      replace hafter : (if target.version = u.version then some u else none) = some u' := hafter
      split_ifs at hafter with htarget
      cases hafter
      exact ⟨hs, fits_resolve hl fun _ t ht => Option.some.inj ht ▸ htarget⟩
  | _ => cases hafter; exact ⟨hs, hl⟩

/-- A result that is read is the update's own. -/
theorem goesOn_readResult {result : Option (Option UpdateResult)}
    (hok : Unheld log i r .readResult result w = true) (hu : current log = some u) :
    u.GoesOn i r l .readResult result w := by
  intro u' hafter
  rcases result with _ | _ | result
  · cases hafter; exact ⟨hs, hl⟩
  · cases hafter; exact ⟨hs, hl⟩
  · have hcleared : (current log).all (·.cleared) = true := by
      cases r <;> first | cases hok | exact hok
    rw [hu] at hcleared
    cases (if_pos hcleared).symm.trans hafter

theorem goes_on (hmay : l.may r e) (hok : Unheld log i r e o w = true)
    (hu : current log = some u) (hnew : Update.begun ⟨i, r, e, (exec e o w).1, w⟩ = none) :
    u.GoesOn i r l e o w := by
  cases e with
  | setVMConfig key value => exact goesOn_setVMConfig hs hl hmay
  | getGuestToolsState => exact goesOn_getGuestToolsState hs hl
  | listGuestToolsInFlight => exact goesOn_listGuestToolsInFlight hs
  | listGuestToolsPendingCDROMRestore => exact goesOn_listGuestToolsPendingCDROMRestore hs
  | resolveTarget => exact goesOn_resolveTarget hs hl
  | readResult => exact goesOn_readResult hs hl hok hu
  | deleteGuestToolsStateForVanishedGuests listed => exact hmay.elim
  | clearGuestToolsCDROMRestore =>
    obtain ⟨-, -, rfl⟩ := hl.staging hmay rfl
    cases hmay
  | setGuestToolsStage stage version prior =>
    cases o with
    | false => rintro _ ⟨⟩; exact ⟨hs, hl⟩
    | true =>
      obtain ⟨hr, rfl | ⟨hstage, hown⟩⟩ := hmay
      · cases r with
        | stageOne runNow => cases hnew
        | pass cfg => cases hok
        | _ => cases hr
      · exact goesOn_setGuestToolsStage hs hl hstage hown
  | finishGuestToolsUpdate stage restored =>
    intro u' hafter
    cases (if_pos (hl.staging hmay rfl).2.1).symm.trans hafter
  | upsertGuestToolsDetection =>
    rintro _ ⟨⟩
    cases o with
    | false => exact ⟨hs, hl⟩
    | true =>
      obtain ⟨row, hrow, hrest⟩ := hs.row
      exact ⟨⟨⟨row, by simp [exec, hrow], hrest⟩, hs.media⟩, hl⟩
  | getVMByClusterAndVmid | getNode | createClient =>
    rintro _ ⟨⟩
    cases l <;> first | exact hl.elim | exact ⟨hs, hl⟩
  | pastCeiling stage stagedAt =>
    intro u' hafter
    cases o with
    | true => cases hafter
    | false => cases hafter; exact ⟨hs, hl⟩
  | clearResultFile =>
    intro u' hafter
    cases o with
    | true => cases hafter; exact ⟨⟨hs.row, hs.media⟩, by cases l <;> exact hl⟩
    | false => cases hafter; exact ⟨hs, hl⟩
  | _ => rintro _ ⟨⟩; exact ⟨⟨hs.row, hs.media⟩, hl⟩

end

/-- What another operation has in hand fits as before. -/
theorem Hand.Fits.after {k : ℕ} {en : guestTools.Entry} (h : l.Fits u k)
    (hafter : u.after en = some u') : l.Fits u' k := by
  have hsame : u'.party = u.party ∧ u'.version = u.version ∧ u'.prior = u.prior := by
    unfold Update.after at hafter
    split at hafter <;> (try split_ifs at hafter) <;> cases hafter <;> exact ⟨rfl, rfl, rfl⟩
  obtain ⟨hparty, hversion, hprior⟩ := hsame
  cases l with
  | empty => trivial
  | update rows => exact fun row hmem => (h row hmem).trans hversion.symm
  | staging _ _ => rwa [Hand.Fits, hparty, hversion, hprior]
  | ending | pending => exact h.elim

/-- The other operations have nothing in hand when a marker is written. -/
theorem empty_of_unheld {a : e.Ans} (hok : Unheld log i r e o w = true)
    (hnew : Update.begun ⟨i, r, e, a, w⟩ = some u) {k : ℕ} (hk : k ≠ i) :
    hands.loc k log = Hand.empty := by
  by_contra hhand
  obtain ⟨en, hen, rfl⟩ := seen_of_loc (T := hands) hhand
  unfold Update.begun at hnew
  split at hnew
  · next heq =>
    cases heq
    have hall := List.all_eq_true.mp hok en hen
    rw [Bool.or_eq_true, decide_eq_true_eq, decide_eq_true_eq] at hall
    exact hhand (hall.resolve_left hk)
  · cases hnew

/-- A marker begins an update. -/
theorem begun_of_exec {a : e.Ans} {w' : World} (hx : exec e o w = (a, w'))
    (hnew : Update.begun ⟨i, r, e, a, w⟩ = some u) : u.Stands w' ∧ (l.next r e a).Fits u i := by
  unfold Update.begun at hnew
  split at hnew
  · next heq =>
    cases heq
    cases hnew
    cases hx
    exact ⟨⟨⟨_, rfl, rfl, rfl, rfl⟩, nofun⟩, rfl, rfl, rfl⟩
  · cases hnew

end

theorem KeepsMedia.step {log : guestTools.Log} {i : ℕ} {r : Role} {e : Stmt} {o : e.Outcome}
    {w : World} (h : KeepsMedia log w) (hok : Unheld log i r e o w = true)
    (hmay : (hands.loc i log : Hand).may r e) :
    KeepsMedia (⟨i, r, e, (exec e o w).1, w⟩ :: log) (exec e o w).2 := by
  have hacts : ∀ later en earlier, (⟨i, r, e, (exec e o w).1, w⟩ :: log : guestTools.Log) =
      later ++ en :: earlier → en.stmt.acts = true → en.role.stages = false →
        current earlier = none := by
    intro later en earlier heq hact hrole
    rcases later with _ | ⟨en', later⟩
    · cases heq
      refine Option.eq_none_iff_forall_ne_some.mpr fun u hu => ?_
      cases hrole.symm.trans ((h.fits u hu i).staging hmay hact).1
    · exact h.acts later en earlier (List.cons.inj heq).2 hact hrole
  cases hnew : Update.begun ⟨i, r, e, (exec e o w).1, w⟩ with
  | some u =>
    obtain ⟨hstands, hfits⟩ := begun_of_exec (l := hands.loc i log) rfl hnew
    have hcur {u' : Update} (hu' : current (⟨i, r, e, (exec e o w).1, w⟩ :: log) = some u') :
        u' = u := by
      rw [current, hnew] at hu'
      exact (Option.some.inj hu').symm
    refine ⟨fun u' hu' => hcur hu' ▸ hstands, fun u' hu' => hcur hu' ▸ ?_, hacts⟩
    refine forall_loc (T := hands) hfits fun k hk => ?_
    rw [empty_of_unheld hok hnew hk]
    trivial
  | none =>
    have hcur {u' : Update} (hu' : current (⟨i, r, e, (exec e o w).1, w⟩ :: log) = some u') :
        ∃ u, current log = some u ∧ u.after ⟨i, r, e, (exec e o w).1, w⟩ = some u' := by
      rw [current, hnew] at hu'
      exact Option.bind_eq_some_iff.mp hu'
    have hon {u : Update} (hu : current log = some u) : u.GoesOn i r (hands.loc i log) e o w :=
      goes_on (h.stands u hu) (h.fits u hu i) hmay hok hu hnew
    refine ⟨fun u' hu' => ?_, fun u' hu' => ?_, hacts⟩
    · obtain ⟨u, hu, hafter⟩ := hcur hu'
      exact (hon hu u' hafter).1
    · obtain ⟨u, hu, hafter⟩ := hcur hu'
      exact forall_loc (T := hands) (hon hu u' hafter).2 fun k _ => (h.fits u hu k).after hafter

def released : guestTools.Oracle :=
  answers ⟨"0.1.302-1", "virtio-win-0.1.302.iso"⟩ (fun _ => true) none

end Nexara.GuestTools
