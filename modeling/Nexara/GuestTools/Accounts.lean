import Nexara.GuestTools.Windows

/-!
# Accounts of the borrowed drive

What the engine does to a guest is what it does to the drives and to the record of the borrowed one
(`View`), and a step of an operation can only do what its phase allows (`Change`). When no staging
overlaps with another operation (`Apart`) and no guest with a borrowed drive is taken for vanished
(`Present`), what an operation holds in its hands is true while it holds it (`Phase.Fits`). An
account is an assertion about views that is kept by what can then happen.
-/

namespace Nexara.GuestTools

open Conc Protocol

/-! ## Views -/

structure View where
  config : Config
  prior : Option Prior
  attached : List Key

def World.view (w : World) : View := ⟨w.config, w.prior, w.attached⟩

def View.set (v : View) (key : Key) (value : Option Drive) : View :=
  { v with
    config := Function.update v.config key value
    attached :=
      if value.any (·.holdsVirtioWin) then key :: v.attached else v.attached.filter (· ≠ key) }

def View.record (v : View) (prior : Option Prior) : View := { v with prior }

theorem View.record_self {v : View} {prior : Option Prior} (h : v.prior = prior) :
    v.record prior = v := by
  subst h
  rfl

/-! ## Changes -/

/-- What a step from phase `l` can do, where markers are only written if `allow` says so. -/
inductive Change (allow : View → Bool) (l : Phase) (v : View) : View → Prop
  | same : Change allow l v v
  | mark {p : Prior} (hl : l = .planned p) (hallow : allow v = true) :
      Change allow l v (v.record (some p))
  | remark {p : Prior} (hl : l = .marked p) : Change allow l v (v.record (some p))
  | attach {p : Prior} {volid : String} (hl : l = .marked p) :
      Change allow l v (v.set p.1 (some (.cdrom (.virtioWin volid))))
  | restore {retry : Bool} {rows : List Row} {row : Row} {key : Key} {action : RestoreAction}
      (hl : l = .reading retry rows) (hmem : row ∈ rows) (hrow : row.prior = some (key, action)) :
      Change allow l v (v.set key action.value)
  | release (hl : l.mayRelease ∨ l = .gone) : Change allow l v (v.record none)

/-- The guest is not taken for vanished while its row records a borrowed drive, by the retry or by
the sweep. -/
def Present : guestTools.Cond := fun log i r e _ w =>
  match e with
  | .getVMByClusterAndVmid =>
    match r, phases.loc i log with
    | .reconcile, .out => w.listed || w.prior.isNone
    | _, _ => true
  | .deleteGuestToolsStateForVanishedGuests false => w.prior.isNone
  | _ => true

def Phase.isOut : Phase → Bool
  | .out => true
  | _ => false

/-- While a staging is between its read of the configuration and its last write, no other operation
is between reading the row and its last write. -/
def Apart : guestTools.Cond := fun log _ _ _ _ _ =>
  log.all fun en => log.all fun en' =>
    decide (en.party = en'.party) || !(phases.loc en.party log).isStaging ||
      (phases.loc en'.party log).isOut

/-- Stagings write their marker only where `allow` says so. -/
def Allowed (allow : View → Bool) : guestTools.Cond := fun _ _ _ e _ w =>
  match e with
  | .setGuestToolsStage .staging _ _ => allow w.view
  | _ => true

def ApartAndPresent : guestTools.Cond := fun log i r e o w =>
  Apart log i r e o w && Present log i r e o w

section

variable {allow : View → Bool} {l : Phase} {e : Stmt} {o : e.Outcome} {w : World}
  {log : guestTools.Log} {i : ℕ} {r : Role}

theorem exec_idle (he : Idle e) : (exec e o w).2.view = w.view := by
  cases e with
  | upsertGuestToolsDetection =>
    cases o with
    | false => rfl
    | true => cases h : w.row <;> simp [exec, World.view, World.prior, h]
  | _ => first | exact he.elim | rfl

theorem finish_view (w : World) (stage : Stage) (restored : Bool) :
    { w with row := w.row.map (·.finish stage restored) : World }.view =
      w.view.record (if restored then none else w.prior) := by
  cases h : w.row with
  | none => simp [World.view, View.record, World.prior, h]
  | some row => simp [World.view, View.record, World.prior, h, Row.finish]

theorem clear_view (w : World) :
    { w with row := w.row.map fun row => { row with prior := none } : World }.view =
      w.view.record none := by
  cases h : w.row <;> simp [World.view, View.record, World.prior]

theorem setVMConfig_change {key : Key} {value : Option Drive} (hmay : l.mayConfigure r key value) :
    Change allow l w.view (w.setVMConfig key value).view := by
  cases l with
  | reading retry rows =>
    obtain ⟨row, hmem, action, hrow, rfl⟩ := hmay
    exact .restore rfl hmem hrow
  | marked p =>
    obtain ⟨-, rfl, volid, rfl⟩ := hmay
    exact .attach rfl
  | out | restored _ | gone | planned _ => exact hmay.elim

theorem exec_change (hmay : l.may r e) (hpresent : Present log i r e o w = true)
    (hallow : Allowed allow log i r e o w = true) : Change allow l w.view (exec e o w).2.view := by
  by_cases he : Idle e
  · rw [exec_idle he]
    exact .same
  cases e with
  | setGuestToolsStage stage version prior =>
    cases o with
    | false => exact .same
    | true =>
      rcases hmay with ⟨rfl, rfl⟩ | ⟨rfl, -⟩
      · exact .mark rfl hallow
      · exact .remark rfl
  | setVMConfig key value =>
    cases o with
    | false => exact .same
    | true => exact setVMConfig_change hmay
  | finishGuestToolsUpdate stage restored =>
    cases o with
    | false => exact .same
    | true =>
      show Change allow l w.view { w with row := w.row.map (·.finish stage restored) : World }.view
      rw [finish_view]
      cases restored with
      | false => exact .same
      | true => exact .release (.inl (hmay.2.1 rfl))
  | clearGuestToolsCDROMRestore =>
    cases o with
    | false => exact .same
    | true =>
      show Change allow l w.view
        { w with row := w.row.map fun row => { row with prior := none } : World }.view
      rw [clear_view]
      rcases hmay with rfl | ⟨key, rfl⟩
      · exact .release (.inr rfl)
      · exact .release (.inl trivial)
  | deleteGuestToolsStateForVanishedGuests listed =>
    cases listed with
    | true => cases o <;> exact .same
    | false =>
      cases o with
      | false => exact .same
      | true =>
        -- the sweep takes away a row that records nothing
        have hnone : w.view.prior = none := Option.isNone_iff_eq_none.mp hpresent
        show Change allow l w.view (w.view.record none)
        rw [View.record_self hnone]
        exact .same
  | _ => first | exact (he trivial).elim | exact .same

theorem apart_iff (h : Apart log i r e o w = true) {k k' : ℕ} (hne : k ≠ k')
    (hk : (phases.loc k log : Phase).isStaging = true) : phases.loc k' log = Phase.out := by
  by_contra hout
  obtain ⟨en, hen, rfl⟩ := seen_of_loc fun heq => by rw [heq] at hk; cases hk
  obtain ⟨en', hen', rfl⟩ := seen_of_loc hout
  have hall := List.all_eq_true.mp (List.all_eq_true.mp h en hen) en' hen'
  simp only [Bool.or_eq_true, decide_eq_true_eq] at hall
  rcases hall with (heq | hstage) | hisOut
  · exact hne heq
  · rw [hk] at hstage
    cases hstage
  · cases hl : (phases.loc en'.party log : Phase) <;> rw [hl] at hisOut
    · exact hout hl
    all_goals cases hisOut

end

/-! ## The virtio-win drive of a configuration -/

def Config.hasVirtioWin (config : Config) (key : Key) : Bool := (config key).any (·.holdsVirtioWin)

/-- The first drive with a virtio-win ISO. -/
def Config.virtioWinKey (config : Config) : Option Key := Key.all.find? config.hasVirtioWin

theorem Key.mem_all (key : Key) : key ∈ Key.all := by
  cases key with
  | ide n | sata n => revert n; decide
  | scsi n | virtio n => revert n; decide +kernel

theorem Config.cdrom_any (config : Config) (key : Key) :
    (config.cdrom key).any (·.isVirtioWin) = config.hasVirtioWin key := by
  unfold Config.cdrom Config.hasVirtioWin
  rcases config key with _ | _ | _ <;> rfl

theorem Config.find_virtioWin (config : Config) :
    config.cdromDrives.find? (·.isVirtioWin) = config.virtioWinKey.bind config.cdrom := by
  unfold Config.cdromDrives Config.virtioWinKey
  rw [List.find?_filterMap, funext config.cdrom_any]

variable {config : Config}

theorem Config.hasVirtioWin_of_key {key : Key}
    (h : config.virtioWinKey = some key) : config.hasVirtioWin key = true :=
  List.find?_some h

theorem Config.cdrom_of_hasVirtioWin {key : Key} (h : config.hasVirtioWin key = true) :
    ∃ volid, config key = some (.cdrom (.virtioWin volid)) := by
  unfold Config.hasVirtioWin at h
  rcases hk : config key with _ | _ | _ | volid | _ <;> rw [hk] at h
  · cases h
  · cases h
  · cases h
  · exact ⟨volid, rfl⟩
  · cases h

theorem find?_of_imp {α : Type} {p q : α → Bool} {a : α} : ∀ {l : List α}, a ∈ l →
    (∀ b, l.find? p = some b → b = a) → (∀ b, b ≠ a → q b = true → p b = true) → q a = true →
    l.find? q = some a
  | [], hmem, _, _, _ => nomatch hmem
  | b :: l, hmem, hfirst, himp, hq => by
    by_cases hba : b = a
    · subst hba
      exact List.find?_cons_of_pos hq
    · have hp : p b = false := Bool.eq_false_iff.mpr fun hp =>
        hba (hfirst b (List.find?_cons_of_pos hp))
      have hqb : ¬q b = true := fun h => by rw [himp b hba h] at hp; cases hp
      rw [List.find?_cons_of_neg hqb]
      refine find?_of_imp ((List.mem_cons.mp hmem).resolve_left (Ne.symm hba)) (fun c hc => ?_) himp hq
      exact hfirst c ((List.find?_cons_of_neg (Bool.eq_false_iff.mp hp)).trans hc)

/-- A staging adds a drive in a free slot when there is no virtio-win drive, and empties the first
one otherwise. -/
theorem place_cases {p : Prior} (h : place config = some p) :
    (p.2 = .eject ∧ config.virtioWinKey = some p.1) ∨
    (p.2 = .remove ∧ config.virtioWinKey = none ∧ config p.1 = none) := by
  unfold place planCDROM at h
  rw [Config.find_virtioWin] at h
  cases hk : config.virtioWinKey with
  | some key =>
    left
    obtain ⟨volid, hvolid⟩ := Config.cdrom_of_hasVirtioWin (Config.hasVirtioWin_of_key hk)
    have hcd : config.cdrom key = some ⟨key, .virtioWin volid⟩ := by rw [Config.cdrom, hvolid]
    rw [hk, Option.bind_some, hcd] at h
    cases h
    simp [restoreActionFor, hvolid, Drive.holdsVirtioWin]
  | none =>
    right
    rw [hk] at h
    cases hs : cdromSlots.find? (fun slot => (config slot).isNone) with
    | none => rw [hs] at h; cases h
    | some slot =>
      rw [hs] at h
      cases h
      have hfree : (config slot).isNone = true := List.find?_some (p := fun slot => (config slot).isNone) hs
      exact ⟨rfl, rfl, Option.isNone_iff_eq_none.mp hfree⟩

theorem place_key {p : Prior} (h : place config = some p) {key : Key}
    (hkey : config.virtioWinKey = some key) : key = p.1 := by
  rcases place_cases h with ⟨-, hp⟩ | ⟨-, hp, -⟩
  · exact Option.some_inj.mp (hkey.symm.trans hp)
  · rw [hp] at hkey
    cases hkey

/-- Where nothing else comes first, the drive the ISO is attached to comes first. -/
theorem Config.virtioWinKey_update {key : Key} (volid : String)
    (h : ∀ key', config.virtioWinKey = some key' → key' = key) :
    Config.virtioWinKey (Function.update config key (some (.cdrom (.virtioWin volid)))) =
      some key := by
  refine find?_of_imp key.mem_all h (fun key' hne hq => ?_) ?_
  · rwa [Config.hasVirtioWin, Function.update_of_ne hne] at hq
  · rw [Config.hasVirtioWin, Function.update_self]
    rfl

/-! ## Accounts -/

/-- An assertion about a guest's drives, with what it asks of a record, of a drive put back, and
when a staging writes its marker. -/
structure Account where
  good : View → Prop
  sound : Option Prior → Prop
  back : View → Key → Prop
  allow : View → Bool
  sound_of_good : ∀ {v : View}, good v → sound v.prior
  good_mark : ∀ {v : View} {p : Prior}, good v → allow v = true → place v.config = some p →
    good (v.record (some p))
  good_attach : ∀ {v : View} {p : Prior} (volid : String), good v → v.prior = some p →
    (∀ key, v.config.virtioWinKey = some key → key = p.1) →
    good (v.set p.1 (some (.cdrom (.virtioWin volid))))
  good_restore : ∀ {v : View} {p : Prior}, good v → sound (some p) →
    (∀ p', v.prior = some p' → p' = p) → good (v.set p.1 p.2.value)
  good_release : ∀ {v : View}, good v → (∀ p, v.prior = some p → back v p.1) →
    good (v.record none)
  back_record : ∀ {v : View} {key : Key} {prior : Option Prior}, back v key →
    back (v.record prior) key
  back_self : ∀ {v : View} {p : Prior}, sound (some p) → back (v.set p.1 p.2.value) p.1
  back_set : ∀ {v : View} {p : Prior} {key : Key}, sound (some p) → back v key →
    back (v.set p.1 p.2.value) key

variable (A : Account)

def Phase.Fits (v : View) : Phase → Prop
  | .out => True
  | .reading _ rows => ∀ row ∈ rows, A.sound row.prior ∧ ∀ p, v.prior = some p → row.prior = some p
  | .restored key => A.back v key ∧ ∀ p, v.prior = some p → p.1 = key
  | .gone => v.prior = none
  | .planned p => place v.config = some p
  | .marked p => v.prior = some p ∧ ∀ key, v.config.virtioWinKey = some key → key = p.1

structure Account.Holds (log : guestTools.Log) (v : View) : Prop where
  good : A.good v
  fits : ∀ k, (phases.loc k log : Phase).Fits A v

variable {A} {l l' : Phase} {v v' : View}

theorem Phase.Fits.released (h : l.Fits A v) (hl : l.mayRelease ∨ l = .gone) {p : Prior}
    (hp : v.prior = some p) : A.back v p.1 := by
  cases l with
  | reading retry rows =>
    obtain ⟨row, hmem, hrow⟩ := hl.resolve_right nofun
    rw [(h row hmem).2 p hp] at hrow
    cases hrow
  | restored key =>
    rw [h.2 p hp]
    exact h.1
  | gone =>
    rw [show v.prior = none from h] at hp
    cases hp
  | out | planned _ | marked _ => exact (hl.resolve_right nofun).elim

theorem Account.good_change (hgood : A.good v) (hfits : l.Fits A v) (h : Change A.allow l v v') :
    A.good v' := by
  cases h with
  | same => exact hgood
  | mark hl hallow =>
    subst hl
    exact A.good_mark hgood hallow hfits
  | remark hl =>
    subst hl
    rwa [View.record_self hfits.1]
  | attach hl =>
    subst hl
    exact A.good_attach _ hgood hfits.1 hfits.2
  | restore hl hmem hrow =>
    subst hl
    obtain ⟨hsound, hagree⟩ := hfits _ hmem
    refine A.good_restore hgood (hrow ▸ hsound) fun p hp => ?_
    exact Option.some_inj.mp ((hagree p hp).symm.trans hrow)
  | release hl => exact A.good_release hgood fun p hp => hfits.released hl hp

/-- What two operations hold stays true if neither is staging beside the other. -/
theorem Phase.Fits.change (hl' : l'.Fits A v) (hfits : l.Fits A v) (h : Change A.allow l v v')
    (hapart : l.isStaging = true → l' = .out ∨ l' = l)
    (hapart' : l'.isStaging = true → l = .out ∨ l' = l) : l'.Fits A v' := by
  cases h with
  | same => exact hl'
  | mark hl _ =>
    subst hl
    rcases hapart rfl with rfl | rfl
    · trivial
    · exact hl'
  | remark hl =>
    subst hl
    rcases hapart rfl with rfl | rfl
    · trivial
    · exact ⟨rfl, hl'.2⟩
  | attach hl =>
    subst hl
    rcases hapart rfl with rfl | rfl
    · trivial
    refine ⟨hl'.1, fun key hkey => ?_⟩
    exact Option.some_inj.mp (hkey.symm.trans (Config.virtioWinKey_update _ hl'.2))
  | restore hl hmem hrow =>
    subst hl
    have hsound := hrow ▸ (hfits _ hmem).1
    cases l' with
    | out => trivial
    | reading retry rows | gone => exact hl'
    | restored key => exact ⟨A.back_set hsound hl'.1, hl'.2⟩
    | planned _ | marked _ => rcases hapart' rfl with h | h <;> cases h
  | release hl =>
    cases l' with
    | out => trivial
    | reading retry rows => exact fun row hmem => ⟨(hl' row hmem).1, nofun⟩
    | restored key => exact ⟨A.back_record hl'.1, nofun⟩
    | gone => exact rfl
    | planned _ | marked _ =>
      rcases hapart' rfl with rfl | rfl <;> rcases hl with hl | hl <;> cases hl

section

variable {r : Role} {i : ℕ} {log : guestTools.Log} {w : World}

theorem fits_read (hgood : A.good w.view) {row : Row} (hrow : w.row = some row)
    {retry : Bool} {rows : List Row}
    (hrows : ∀ row' ∈ rows, A.sound row'.prior ∧ ∀ p, w.view.prior = some p → row'.prior = some p) :
    (Phase.reading retry (row :: rows)).Fits A w.view := by
  have hprior : w.view.prior = row.prior := by
    show w.row.bind _ = _
    rw [hrow]
    rfl
  intro row' hmem
  rcases List.mem_cons.mp hmem with rfl | hmem
  · exact ⟨hprior ▸ A.sound_of_good hgood, fun p hp => hprior.symm.trans hp⟩
  · exact hrows row' hmem

/-- The guest that is taken for vanished has no borrowed drive on record. -/
theorem prior_of_noRows {o : Stmt.Outcome .getVMByClusterAndVmid}
    (hl : phases.loc i log = Phase.out)
    (hpresent : Present log i .reconcile .getVMByClusterAndVmid o w = true)
    (ha : (exec .getVMByClusterAndVmid o w).1 = .noRows) : w.view.prior = none := by
  have hlisted : (w.listed || w.prior.isNone) = true := by
    unfold Present at hpresent
    rwa [hl] at hpresent
  cases hw : w.listed with
  | true =>
    cases o with
    | none => cases ha
    | some vm =>
      replace ha : (if w.listed then Lookup.found vm else .noRows) = .noRows := ha
      rw [hw] at ha
      cases ha
  | false =>
    rw [hw] at hlisted
    exact Option.isNone_iff_eq_none.mp hlisted

theorem fits_next {e : Stmt} {o : e.Outcome} (hgood : A.good w.view) (hfits : l.Fits A w.view)
    (hl : phases.loc i log = l) (hmay : l.may r e) (hpresent : Present log i r e o w = true)
    (hchange : Change A.allow l w.view (exec e o w).2.view) :
    (Phase.next r l e (exec e o w).1).Fits A (exec e o w).2.view := by
  have hnext := next_cases r l e (exec e o w).1
  generalize ha : (exec e o w).1 = a at hnext ⊢
  generalize Phase.next r l e a = l' at hnext ⊢
  cases hnext with
  | kept => exact hfits.change hfits hchange (fun _ => .inr rfl) fun _ => .inr rfl
  | ended => trivial
  | read hread =>
    cases o with
    | false => cases ha
    | true =>
      refine fits_read hgood ha ?_
      rcases hread with ⟨-, rfl⟩ | rfl
      · exact nofun
      · exact hfits
  | listed =>
    cases o with
    | false => cases ha
    | true => exact fits_read hgood (Option.filter_eq_some_iff.mp (Option.some.inj ha)).1 nofun
  | gone hr hout =>
    subst hr hout
    exact prior_of_noRows hl hpresent ha
  | planned hp =>
    cases o with
    | false => cases ha
    | true =>
      cases ha
      exact hp
  | marked hplan =>
    subst hplan
    cases ha
    rcases hmay with ⟨hplan, -⟩ | ⟨hplan, -⟩
    · cases hplan
      exact ⟨rfl, fun key hkey => place_key hfits hkey⟩
    · cases hplan
  | restored hread =>
    subst hread
    cases ha
    obtain ⟨row, hmem, action, hrow, rfl⟩ := hmay
    obtain ⟨hsound, hagree⟩ := hfits row hmem
    refine ⟨A.back_self (v := w.view) (p := (_, action)) (hrow ▸ hsound), fun p hp => ?_⟩
    cases (hagree p hp).symm.trans hrow
    rfl

theorem Account.Holds.step {e : Stmt} {o : e.Outcome} (h : A.Holds log w.view)
    (hok : ApartAndPresent log i r e o w = true) (hallow : Allowed A.allow log i r e o w = true)
    (hmay : (phases.loc i log : Phase).may r e) :
    A.Holds (⟨i, r, e, (exec e o w).1, w⟩ :: log) (exec e o w).2.view := by
  obtain ⟨hapart, hpresent⟩ := (Bool.and_eq_true _ _).mp hok
  have hfits : (phases.loc i log : Phase).Fits A w.view := h.fits i
  have hchange := exec_change hmay hpresent hallow
  refine ⟨Account.good_change h.good hfits hchange, ?_⟩
  refine forall_loc (T := phases)
    (fits_next h.good hfits rfl hmay hpresent hchange) fun k hk => ?_
  exact (h.fits k).change hfits hchange (fun hs => .inl (apart_iff hapart (Ne.symm hk) hs))
    fun hs => .inl (apart_iff hapart hk hs)

/-- An account that holds of a guest at rest holds throughout every run in which operations keep
apart and markers are written where it allows. -/
theorem Account.good_of_reach {ok : guestTools.Cond} {w₀ : World} {c : guestTools.Pool}
    (hok : ∀ log i r e (o : Stmt.Outcome e) w, ok log i r e o w = true →
      ApartAndPresent log i r e o w = true ∧ Allowed A.allow log i r e o w = true)
    (h₀ : A.good w₀.view) (hc : guestTools.Reach ok (System.Pool.idle w₀) c) :
    A.good c.shared.view := by
  refine (invariant phases_followed (I := fun log w => A.Holds log w.view)
    ⟨h₀, fun _ => trivial⟩ (fun {log i r e o a w w'} h hstep hmay hx => ?_) hc).good
  obtain ⟨happ, hallow⟩ := hok log i r e o w hstep
  have hnext := h.step happ hallow hmay
  rwa [show exec e o w = (a, w') from Option.some.inj hx] at hnext

end

end Nexara.GuestTools
