import Nexara.Conc.Alone
import Nexara.Rolling.Ticks

/-!
# The balancers are switched back

A tick switches Nexara's DRS off after it has set the job's marker, and the native balancer off
before it sets the other one. Parties take turns here, and any statement may fail. What the markers
do not account for between the turns is as it was before the job began (`Undone`).

There are two gaps. The error of the first marker is discarded, so DRS can be switched off with
nothing recorded (`lostDRS`). When the second marker cannot be written and the roll-back fails too,
the native balancer stays off (`lostCRS`).
-/

namespace Nexara.Rolling

open Conc Conc.System Proxmox

/-! ## What is lost -/

def accepted : (e : Stmt) → e.Ans → Bool
  | .db _ => fun a => succeeded a
  | .px _ => fun a => succeeded a
  | _ => fun _ => true

def latest (log : rolling.Log) (p : Stmt → Bool) (ok : Bool) : Bool :=
  log.head?.any fun en => p en.stmt && (accepted en.stmt en.ans == ok)

def Stmt.disablesDRS : Stmt → Bool
  | .db (.setDRSEnabled false) => true
  | _ => false

def Stmt.recordsDRS : Stmt → Bool
  | .db (.updateJob (.setJobDRSWasEnabled true)) => true
  | _ => false

def Stmt.setsCRS : Stmt → Bool
  | .px (.setClusterOptions _) => true
  | _ => false

def Stmt.recordsCRS : Stmt → Bool
  | .db (.updateJob (.setJobNativeCRSPaused _)) => true
  | _ => false

/-- DRS was switched off right after its marker could not be set. -/
def lostDRS : rolling.Log → Bool
  | [] => false
  | en :: log => latest (en :: log) Stmt.disablesDRS true && latest log Stmt.recordsDRS false ||
    lostDRS log

/-- A pause of the native balancer could neither be recorded nor rolled back. -/
def lostCRS : rolling.Log → Bool
  | [] => false
  | en :: log => latest (en :: log) Stmt.setsCRS false && latest log Stmt.recordsCRS false ||
    lostCRS log

/-! ## The state of the balancers -/

/-- The balancers, the markers of their pauses, and whether a pause was lost. -/
structure Balance where
  drs : Option Bool
  crs : CrsOption
  drsWasEnabled : Bool
  nativeCrsPaused : Bool
  savedCrsConfig : String
  lostDRS : Bool
  lostCRS : Bool

def balance (log : rolling.Log) (w : World) : Balance :=
  ⟨w.drs, w.crs, w.job.drsWasEnabled, w.job.nativeCrsPaused, w.job.savedCrsConfig, lostDRS log,
    lostCRS log⟩

/-- Statements that switch a balancer or write a marker of its pause. -/
def Stmt.balances : Stmt → Bool
  | .db (.setDRSEnabled _) | .px (.setClusterOptions _)
  | .db (.updateJob (.setJobDRSWasEnabled _)) | .db (.updateJob (.setJobNativeCRSPaused _))
  | .db (.updateJob .clearJobNativeCRSPaused) => true
  | _ => false

theorem lostDRS_cons {en : rolling.Entry} (h : Stmt.disablesDRS en.stmt = false)
    (log : rolling.Log) : lostDRS (en :: log) = lostDRS log := by
  simp [lostDRS, latest, h]

theorem lostCRS_cons {en : rolling.Entry} (h : Stmt.setsCRS en.stmt = false)
    (log : rolling.Log) : lostCRS (en :: log) = lostCRS log := by
  simp [lostCRS, latest, h]

theorem lostCRS_tail {log : rolling.Log} {x : Bool} (h : (x || lostCRS log) = false) :
    lostCRS log = false := (Bool.or_eq_false_iff.mp h).2

variable {e : Stmt}

theorem disablesDRS_of_not_balances (h : e.balances = false) : e.disablesDRS = false := by
  unfold Stmt.disablesDRS
  split
  · cases h
  · rfl

theorem setsCRS_of_not_balances (h : e.balances = false) : e.setsCRS = false := by
  unfold Stmt.setsCRS
  split
  · cases h
  · rfl

section

variable {i : ℕ} {o : e.Outcome} {a : e.Ans} {w w' : World} (he : e.balances = false)
  (hx : exec i e o w = some (a, w'))

include he hx

theorem world_of_not_balances :
    w'.drs = w.drs ∧ w'.crs = w.crs ∧ w'.job.drsWasEnabled = w.job.drsWasEnabled ∧
      w'.job.nativeCrsPaused = w.job.nativeCrsPaused ∧
      w'.job.savedCrsConfig = w.job.savedCrsConfig := by
  cases exec_effect hx with
  | job u =>
    unfold World.updateJob
    split_ifs
    · cases u <;> first | exact ⟨rfl, rfl, rfl, rfl, rfl⟩ | cases he
    · exact ⟨rfl, rfl, rfl, rfl, rfl⟩
  | drs enabled | crs crs => cases he
  | _ => exact ⟨rfl, rfl, rfl, rfl, rfl⟩

theorem balance_of_exec {r : Role} (log : rolling.Log) :
    balance (⟨i, r, e, a, w⟩ :: log) w' = balance log w := by
  obtain ⟨hdrs, hcrs, hwas, hpaused, hsaved⟩ := world_of_not_balances he hx
  unfold balance
  rw [hdrs, hcrs, hwas, hpaused, hsaved, lostDRS_cons (disablesDRS_of_not_balances he),
    lostCRS_cons (setsCRS_of_not_balances he)]

end

/-- An assertion about the balancers only. -/
abbrev about (A : Balance → Prop) : rolling.Assn := fun log w => A (balance log w)

/-- Code keeps a property of the balancers if its statements have nothing to do with them. -/
theorem kept_stmt (A : Balance → Prop) (he : e.balances = false) :
    Kept (about A) (Prog.stmt (S := sig) e) := by
  refine .stmt fun i r o log w a w' hA hx => ?_
  exact (congrArg A (balance_of_exec he hx log)).mpr hA

theorem kept_pieces (A : Balance → Prop) : Pieces (Kept (about A)) where
  pure _ := Spec.pure fun _ _ h => h
  bind hp hf := Spec.seq hp hf
  ext q := kept_stmt A rfl
  stmt e he := kept_stmt A (by
    unfold Stmt.balances
    split <;> first | cases he | rfl)

/-! ## What the turns keep -/

def active (c : CrsOption) : Prop := (parseCRSSettings c).autoRebalanceActive = true

def restored (c : CrsOption) : CrsOption := .text (parseCRSSettings c).restorable

theorem restored_of_active {c₀ c : CrsOption} (hc : c = c₀ ∨ active c₀ ∧ c = restored c₀)
    (h : active c) : active c₀ ∧ restored c = restored c₀ := by
  rcases hc with rfl | ⟨h₀, rfl⟩
  · exact ⟨h, rfl⟩
  · exact ⟨h₀, congrArg CrsOption.text (restorable_text h)⟩

theorem restored_shape {c : CrsOption} (h : active c) : restored c = c ∨
    ∃ fields, c = .object fields ∧
      restored c = .text (parseCRSSettings (.object fields)).restorable := by
  cases c with
  | absent => cases h
  | text raw => exact .inl (congrArg CrsOption.text (restorable_text h))
  | object fields => exact .inr ⟨fields, rfl, rfl⟩

/-- DRS is on again, if it was. -/
def DrsBack (w₀ : World) (b : Balance) : Prop :=
  w₀.drs = some true → b.lostDRS = false → b.drs = some true

/-- The native balancer is as it was, up to the shape in which it is restored. -/
def CrsBack (w₀ : World) (b : Balance) : Prop :=
  b.lostCRS = false → b.crs = w₀.crs ∨ active w₀.crs ∧ b.crs = restored w₀.crs

/-- DRS is on, or its marker says that it was. -/
def DrsHeld (w₀ : World) (b : Balance) : Prop :=
  w₀.drs = some true → b.lostDRS = false →
    b.drs = some true ∨ b.drs = some false ∧ b.drsWasEnabled = true

/-- This is what has to be written to restore the native balancer. -/
def Saves (w₀ : World) (b : Balance) (saved : String) : Prop :=
  b.lostCRS = false → active w₀.crs ∧ .text saved = restored w₀.crs

/-- What no marker accounts for is as it was in `w₀`. -/
structure Undone (w₀ : World) (b : Balance) : Prop where
  drs : DrsHeld w₀ b
  paused : b.nativeCrsPaused = true → Saves w₀ b b.savedCrsConfig
  running : b.nativeCrsPaused = false → CrsBack w₀ b

/-- The native balancer has been switched off, and that is not recorded yet. -/
structure Pausing (w₀ : World) (saved : String) (b : Balance) : Prop where
  drs : DrsHeld w₀ b
  unmarked : b.nativeCrsPaused = false
  saves : Saves w₀ b saved

section

variable {w₀ : World}

/-! ## The pauses -/

/-- A statement that has nothing to do with the balancers, and what its answer tells. -/
theorem read_spec {A : Balance → Prop} (he : e.balances = false) {B : e.Ans → Balance → Prop}
    (hB : ∀ i (o : e.Outcome) log w a w', exec i e o w = some (a, w') → B a (balance log w')) :
    Spec (about A) (Prog.stmt (S := sig) e) fun a => about fun b => A b ∧ B a b := by
  refine .stmt fun i r o log w a w' hA hx => ⟨?_, hB i o _ w a w' hx⟩
  exact (congrArg A (balance_of_exec he hx log)).mpr hA

theorem getDRSConfig_spec (A : Balance → Prop) :
    Spec (about A) (db .getDRSConfig) fun a => about fun b => A b ∧ (a = .ok true → b.drs = some true) := by
  refine read_spec rfl fun i o log w a w' hx ha => ?_
  subst ha
  cases o with
  | some e => cases hx
  | none =>
    replace hx : some (rowOf w.drs, w) = some (.ok true, w') := hx
    cases hdrs : w.drs with
    | none => rw [hdrs] at hx; cases hx
    | some b => rw [hdrs] at hx; cases hx; exact hdrs

/-- DRS is about to be switched off: its marker is set, or could not be. -/
def Disabling (w₀ : World) (paused : Bool) : rolling.Assn := fun log w =>
  (Undone w₀ (balance log w) ∧ w.job.nativeCrsPaused = paused) ∧ w.drs = some true ∧
    (w.job.drsWasEnabled = true ∨ latest log Stmt.recordsDRS false = true)

theorem recordDRS_spec (paused : Bool) :
    Spec (about fun b => (Undone w₀ b ∧ b.nativeCrsPaused = paused) ∧ b.drs = some true)
      (updateJob (.setJobDRSWasEnabled true)) fun _ => Disabling w₀ paused := by
  refine .stmt fun i r o log w a w' h hx => ?_
  obtain ⟨⟨hu, hp⟩, hdrs⟩ := h
  cases o with
  | some e =>
    cases hx
    exact ⟨⟨hu, hp⟩, hdrs, .inr rfl⟩
  | none =>
    cases hx
    exact ⟨⟨⟨fun _ _ => .inl hdrs, hu.paused, hu.running⟩, hp⟩, hdrs, .inl rfl⟩

theorem disableDRS_spec (paused : Bool) :
    Spec (Disabling w₀ paused) (db (.setDRSEnabled false))
      fun _ => about fun b => Undone w₀ b ∧ b.nativeCrsPaused = paused := by
  refine .stmt fun i r o log w a w' h hx => ?_
  obtain ⟨⟨hu, hp⟩, hdrs, hmark⟩ := h
  cases o with
  | some e =>
    cases hx
    exact ⟨hu, hp⟩
  | none =>
    cases hx
    refine ⟨⟨fun _ hlost => .inr ⟨congrArg (Option.map fun _ => false) hdrs, ?_⟩, hu.paused, hu.running⟩, hp⟩
    have hlost : (latest log Stmt.recordsDRS false || lostDRS log) = false := hlost
    rcases hmark with hmark | hmark
    · exact hmark
    · rw [hmark] at hlost
      cases hlost

theorem disableDRSIfEnabled_spec (paused : Bool) :
    Kept (about fun b => Undone w₀ b ∧ b.nativeCrsPaused = paused) disableDRSIfEnabled := by
  refine .seq (getDRSConfig_spec _) fun a => ?_
  split
  · refine .seq ((recordDRS_spec paused).pre fun _ _ h => ⟨h.1, h.2 rfl⟩)
      fun _ => Spec.seq (disableDRS_spec paused) fun _ => .pure fun _ _ h => h
  · exact .pure fun _ _ h => h.1

theorem getClusterOptions_spec (A : Balance → Prop) :
    Spec (about A) (px .getClusterOptions) fun a => about fun b => A b ∧ (∀ c, a = .ok c → b.crs = c) := by
  refine read_spec rfl fun i o log w a w' hx c ha => ?_
  subst ha
  cases o with
  | some e => cases hx
  | none => cases hx; rfl

theorem pauseCRS_spec {c : CrsOption} (hc : active c) (paused : String) :
    Spec (about fun b => (Undone w₀ b ∧ b.nativeCrsPaused = false) ∧ b.crs = c)
      (px (.setClusterOptions paused)) fun a => match a with
        | .ok _ => about (Pausing w₀ (parseCRSSettings c).restorable)
        | .error _ => about (Undone w₀) := by
  refine .stmt fun i r o log w a w' h hx => ?_
  obtain ⟨⟨hu, hp⟩, rfl⟩ := h
  cases o with
  | some e =>
    cases hx
    exact ⟨hu.drs, fun h hl => hu.paused h (lostCRS_tail hl),
      fun h hl => hu.running h (lostCRS_tail hl)⟩
  | none =>
    cases hx
    exact ⟨hu.drs, hp, fun hl => restored_of_active (hu.running hp hl) hc⟩

theorem recordCRS_spec (saved : String) :
    Spec (about (Pausing w₀ saved)) (updateJob (.setJobNativeCRSPaused saved)) fun a => match a with
      | .ok _ => about (Undone w₀)
      | .error _ => fun log w => Pausing w₀ saved (balance log w) ∧
          latest log Stmt.recordsCRS false = true := by
  refine .stmt fun i r o log w a w' h hx => ?_
  cases o with
  | some e =>
    cases hx
    exact ⟨⟨h.drs, h.unmarked, h.saves⟩, rfl⟩
  | none =>
    cases hx
    exact ⟨h.drs, fun _ => h.saves, nofun⟩

theorem rollbackCRS_spec (saved : String) :
    Spec (fun log w => Pausing w₀ saved (balance log w) ∧ latest log Stmt.recordsCRS false = true)
      (px (.setClusterOptions saved)) fun _ => about (Undone w₀) := by
  refine .stmt fun i r o log w a w' h hx => ?_
  obtain ⟨h, hfailed⟩ := h
  cases o with
  | some e =>
    cases hx
    have hnot : ¬ (latest log Stmt.recordsCRS false || lostCRS log) = false := by simp [hfailed]
    exact ⟨h.drs, fun _ hl => absurd hl hnot, fun _ hl => absurd hl hnot⟩
  | none =>
    cases hx
    exact ⟨h.drs, fun hp => absurd (h.unmarked.symm.trans hp) (by decide),
      fun _ hl => .inr (h.saves hl)⟩

theorem pauseNativeCRSIfActive_spec :
    Spec (about fun b => Undone w₀ b ∧ b.nativeCrsPaused = false) pauseNativeCRSIfActive
      fun _ => about (Undone w₀) := by
  refine .seq (getClusterOptions_spec _) fun a => ?_
  cases a with
  | error e => exact .pure fun _ _ h => h.1.1
  | ok opts =>
    dsimp only
    split_ifs with hactive
    · refine .seq ((pauseCRS_spec hactive _).mono (fun _ _ h => ⟨h.1, h.2 _ rfl⟩)
        fun _ _ _ h => h) fun a => ?_
      cases a with
      | error e => exact .pure fun _ _ h => h
      | ok _ =>
        refine .seq (recordCRS_spec _) fun a => ?_
        cases a with
        | ok n => exact .pure fun _ _ h => h
        | error e => exact .seq (rollbackCRS_spec _) fun _ => .pure fun _ _ h => h
    · exact .pure fun _ _ h => h.1.1

theorem pauseBalancers_spec (job : JobRow) :
    Spec (about fun b => Undone w₀ b ∧ b.nativeCrsPaused = job.nativeCrsPaused) (pauseBalancers job)
      fun _ => about (Undone w₀) := by
  refine .seq ((kept_pieces _).onlyIf _ (disableDRSIfEnabled_spec _)) fun _ => ?_
  refine .seq ((kept_pieces _).ext _) fun a => ?_
  cases a with
  | error e => exact .pure fun _ _ h => h.1
  | ok _ =>
    refine .seq ?_ fun _ => .pure fun _ _ h => h
    unfold onlyIf
    split_ifs with hpaused
    · have hrow : job.nativeCrsPaused = false := by simpa using hpaused
      rw [hrow]
      exact pauseNativeCRSIfActive_spec
    · exact .pure fun _ _ h => h.1

/-! ## The release -/

/-- The row shows the markers as they are. -/
structure Shows (job : JobRow) (b : Balance) : Prop where
  drs : b.drsWasEnabled = job.drsWasEnabled
  crs : b.nativeCrsPaused = job.nativeCrsPaused
  saved : b.savedCrsConfig = job.savedCrsConfig

theorem getJob_spec (A : Balance → Prop) :
    Spec (about A) getJob fun a => about fun b => A b ∧ ∀ job, a = .ok job → Shows job b := by
  refine read_spec rfl fun i o log w a w' hx job ha => ?_
  subst ha
  cases o with
  | some e => cases hx
  | none => cases hx; exact ⟨rfl, rfl, rfl⟩

/-- What holds when the release has dealt with DRS: `drs` says whether with success. -/
structure DrsReleased (w₀ : World) (job : JobRow) (drs : Bool) (b : Balance) : Prop where
  undone : Undone w₀ b
  back : drs = true → DrsBack w₀ b
  crs : b.nativeCrsPaused = job.nativeCrsPaused
  saved : b.savedCrsConfig = job.savedCrsConfig

/-- What holds when it has also dealt with the native balancer. -/
structure BothReleased (w₀ : World) (drs crs : Bool) (b : Balance) : Prop where
  undone : Undone w₀ b
  drsBack : drs = true → DrsBack w₀ b
  crsBack : crs = true → CrsBack w₀ b

theorem enableDRS_spec (job : JobRow) :
    Spec (about fun b => Undone w₀ b ∧ Shows job b) (db (.setDRSEnabled true))
      fun a => about (DrsReleased w₀ job (succeeded a)) := by
  refine .stmt fun i r o log w a w' h hx => ?_
  obtain ⟨hu, hshow⟩ := h
  cases o with
  | some e =>
    cases hx
    exact ⟨hu, nofun, hshow.crs, hshow.saved⟩
  | none =>
    cases hx
    have hon : DrsBack w₀ (balance log { w with drs := w.drs.map fun _ => true }) := by
      intro hdrs hlost
      rcases hu.drs hdrs hlost with hon | ⟨hoff, -⟩
      · exact congrArg (Option.map fun _ => true) hon
      · exact congrArg (Option.map fun _ => true) hoff
    exact ⟨⟨fun hdrs hlost => .inl (hon hdrs hlost), hu.paused, hu.running⟩, fun _ => hon,
      hshow.crs, hshow.saved⟩

theorem unmarkDRS_spec (job : JobRow) :
    Spec (about (DrsReleased w₀ job true)) (updateJob (.setJobDRSWasEnabled false))
      fun a => about (DrsReleased w₀ job (succeeded a)) := by
  refine .stmt fun i r o log w a w' h hx => ?_
  have hback : DrsBack w₀ (balance log w) := h.back rfl
  cases o with
  | some e =>
    cases hx
    exact ⟨h.undone, nofun, h.crs, h.saved⟩
  | none =>
    cases hx
    exact ⟨⟨fun hdrs hlost => .inl (hback hdrs hlost), h.undone.paused, h.undone.running⟩,
      fun _ => hback, h.crs, h.saved⟩

theorem releaseDRS_spec (job : JobRow) :
    Spec (about fun b => Undone w₀ b ∧ Shows job b) (releaseDRS job)
      fun drs => about (DrsReleased w₀ job drs) := by
  unfold releaseDRS
  split_ifs with hmark
  · refine .seq (enableDRS_spec job) fun a => ?_
    cases a with
    | error e => exact .pure fun _ _ h => h
    | ok _ => exact .seq (unmarkDRS_spec job) fun a => .pure fun _ _ h => h
  · refine .pure fun log w h => ⟨h.1, fun _ hdrs hlost => ?_, h.2.crs, h.2.saved⟩
    rcases h.1.drs hdrs hlost with hon | ⟨-, hmarked⟩
    · exact hon
    · exact absurd (h.2.drs.symm.trans hmarked) hmark

/-- The native balancer's option is written back; the marker still stands. -/
structure CrsWritten (w₀ : World) (job : JobRow) (drs : Bool) (b : Balance) : Prop
    extends DrsReleased w₀ job drs b where
  written : CrsBack w₀ b

theorem writeCRS_spec {job : JobRow} (hpaused : job.nativeCrsPaused = true) (drs : Bool) :
    Spec (about (DrsReleased w₀ job drs)) (px (.setClusterOptions job.savedCrsConfig))
      fun a => match a with
        | .ok _ => about (CrsWritten w₀ job drs)
        | .error _ => about (BothReleased w₀ drs false) := by
  refine .stmt fun i r o log w a w' h hx => ?_
  have hmarked : (balance log w).nativeCrsPaused = true := h.crs.trans hpaused
  have hsaves : Saves w₀ (balance log w) job.savedCrsConfig := by
    have hsaves := h.undone.paused hmarked
    rwa [h.saved] at hsaves
  have hrunning : ∀ b : Balance, b.nativeCrsPaused = w.job.nativeCrsPaused →
      b.nativeCrsPaused = false → CrsBack w₀ b := by
    intro b hb hnot
    exact absurd ((hb.trans hmarked).symm.trans hnot) (by decide)
  cases o with
  | some e =>
    cases hx
    exact ⟨⟨h.undone.drs, fun hp hl => h.undone.paused hp (lostCRS_tail hl), hrunning _ rfl⟩, h.back,
      nofun⟩
  | none =>
    cases hx
    exact ⟨⟨⟨h.undone.drs, h.undone.paused, hrunning _ rfl⟩, h.back, h.crs, h.saved⟩,
      fun hl => .inr (hsaves hl)⟩

theorem unmarkCRS_spec (job : JobRow) (drs : Bool) :
    Spec (about (CrsWritten w₀ job drs)) (updateJob .clearJobNativeCRSPaused)
      fun a => about (BothReleased w₀ drs (succeeded a)) := by
  refine .stmt fun i r o log w a w' h hx => ?_
  cases o with
  | some e =>
    cases hx
    exact ⟨h.undone, h.back, nofun⟩
  | none =>
    cases hx
    exact ⟨⟨h.undone.drs, nofun, fun _ => h.written⟩, h.back, fun _ => h.written⟩

theorem restoreNativeCRS_spec {job : JobRow} (hpaused : job.nativeCrsPaused = true) (drs : Bool) :
    Spec (about (DrsReleased w₀ job drs)) (restoreNativeCRS job)
      fun crs => about (BothReleased w₀ drs crs) := by
  refine .seq (writeCRS_spec hpaused drs) fun a => ?_
  cases a with
  | error e => exact .pure fun _ _ h => h
  | ok _ => exact .seq (unmarkCRS_spec job drs) fun a => .pure fun _ _ h => h

/-- Both are back where the release says so. -/
def Released (w₀ : World) (released : Bool) (b : Balance) : Prop :=
  Undone w₀ b ∧ (released = true → DrsBack w₀ b ∧ CrsBack w₀ b)

theorem BothReleased.released {drs crs released : Bool} {b : Balance}
    (h : BothReleased w₀ drs crs b) (hr : released = true → drs = true ∧ crs = true) :
    Released w₀ released b :=
  ⟨h.undone, fun hreleased => ⟨h.drsBack (hr hreleased).1, h.crsBack (hr hreleased).2⟩⟩

theorem DrsReleased.unpaused {job : JobRow} {drs : Bool} {b : Balance}
    (h : DrsReleased w₀ job drs b) (hp : job.nativeCrsPaused = false) : BothReleased w₀ drs true b :=
  ⟨h.undone, h.back, fun _ => h.undone.running (h.crs.trans hp)⟩

theorem releaseOnCluster_spec (job : JobRow) (rules stopped : List NodeRow) (drs : Bool) :
    Spec (about (DrsReleased w₀ job drs)) (releaseOnCluster job rules stopped)
      fun cluster => about (Released w₀ (drs && cluster)) := by
  refine .seq (Q := fun crs => about (BothReleased w₀ drs crs)) ?_ fun crs => ?_
  · split_ifs with hp
    · exact restoreNativeCRS_spec hp drs
    · exact .pure fun _ _ h => h.unpaused (by simpa using hp)
  · have keep := kept_pieces (BothReleased w₀ drs crs)
    have hon := fun rule type => kept_stmt (e := .px (.setHARuleDisabled rule type false))
      (BothReleased w₀ drs crs) rfl
    refine .seq (keep.ite _ (keep.pure _) (keep.releaseRuleRecord hon (fun l => ?_) _))
      fun jobRules => ?_
    · exact keep.bind (kept_stmt _ rfl) fun _ => keep.pure _
    · refine .seq (keep.releaseNodeRecords hon rules) fun nodeRules => ?_
      refine .seq keep.timeNow fun now => ?_
      refine .seq (keep.restartAll (fun _ _ => kept_stmt _ rfl) stopped _) fun guests => ?_
      refine .pure fun _ _ h => h.released fun hr => ?_
      simp only [Bool.and_eq_true] at hr
      exact ⟨hr.1, hr.2.1.1.1⟩

theorem releaseHeld_spec (job : JobRow) (nodes : List NodeRow) :
    Spec (about fun b => Undone w₀ b ∧ Shows job b) (releaseHeld job nodes)
      fun res => about (Released w₀ res.1) := by
  refine .seq (releaseDRS_spec job) fun drs => ?_
  split_ifs with hcluster
  · refine .seq ((kept_pieces _).ext _) fun a => ?_
    cases a with
    | error e => exact .pure fun _ _ h => ⟨h.undone, nofun⟩
    | ok _ =>
      refine .seq (releaseOnCluster_spec job _ _ drs) fun cluster => ?_
      exact .seq ((kept_pieces _).clearCleanup job _) fun _ => .pure fun _ _ h => h
  · have hp : job.nativeCrsPaused = false := by
      cases hp : job.nativeCrsPaused with
      | false => rfl
      | true => exact absurd (by simp [hp]) hcluster
    refine .seq ((kept_pieces _).clearCleanup job drs) fun _ => ?_
    exact .pure fun _ _ h => (h.unpaused hp).released fun hr => ⟨hr, rfl⟩

theorem releaseJobState_spec :
    Spec (about (Undone w₀)) releaseJobState fun res => about (Released w₀ res.1) := by
  refine .seq (getJob_spec _) fun a => ?_
  cases a with
  | error e => exact .pure fun _ _ h => ⟨h.1, nofun⟩
  | ok job =>
    refine .seq ((kept_pieces _).listNodes) fun a => ?_
    cases a with
    | error e => exact .pure fun _ _ h => ⟨h.1, nofun⟩
    | ok nodes =>
      exact (releaseHeld_spec job nodes).pre fun _ _ h => ⟨h.1, h.2 job rfl⟩

/-! ## Whole parties -/

theorem undone_parts : Parts (Kept (about (Undone w₀))) := by
  have hreleases : Releases (Kept (about (Undone w₀))) := by
    refine ⟨kept_pieces _, fun e he => kept_stmt _ ?_, ?_⟩
    · unfold Stmt.balances
      split <;> first | cases he | rfl
    · exact releaseJobState_spec.mono (fun _ _ h => h) fun _ _ _ h => h.1
  refine ⟨hreleases, fun e he => kept_stmt _ ?_, fun _ _ => kept_stmt _ rfl, fun node rules => ?_⟩
  · unfold Stmt.balances
    split <;> first | cases he | rfl
  · exact hreleases.disableForDrain (fun _ => kept_stmt _ rfl)
      (fun _ _ => kept_stmt _ rfl) node rules

theorem listRunning_spec (A : Balance → Prop) :
    Spec (about A) (db .listRunningRollingUpdateJobs) fun a => about fun b =>
      A b ∧ ∀ jobs, a = .ok jobs → jobs = [] ∨ ∃ job, jobs = [job] ∧ Shows job b := by
  refine read_spec rfl fun i o log w a w' hx jobs ha => ?_
  subst ha
  cases o with
  | some e => cases hx
  | none =>
    replace hx : some ((.ok (if w.job.status = .running then [w.job] else []) :
      Except Err (List JobRow)), w) = some (.ok jobs, w') := hx
    split_ifs at hx
    · cases hx
      exact .inr ⟨_, rfl, rfl, rfl, rfl⟩
    · cases hx
      exact .inl rfl

theorem processJob_spec (job : JobRow) :
    Spec (about fun b => Undone w₀ b ∧ Shows job b) (processJob job)
      fun _ => about (Undone w₀) := by
  have hpause : Spec (about fun b => Undone w₀ b ∧ Shows job b) (pauseBalancers job)
      fun _ => about (Undone w₀) :=
    (pauseBalancers_spec job).pre fun _ _ h => ⟨h.1, h.2.crs⟩
  exact .seq hpause fun _ =>
    undone_parts.ite _ (undone_parts.advanceJob job) (undone_parts.pure _)

theorem tick_kept : Kept (about (Undone w₀)) tick := by
  refine .seq (listRunning_spec _) fun a => ?_
  cases a with
  | error e => exact .pure fun _ _ h => h.1
  | ok jobs =>
    have hsweep : Kept (about (Undone w₀)) sweepPendingCleanups :=
      undone_parts.sweepPendingCleanups undone_parts.release
    intro i r log w u log' w' hend hpre
    obtain ⟨hu, hjobs⟩ := hpre
    rcases hjobs jobs rfl with rfl | ⟨job, rfl, hshow⟩
    · exact hsweep hend hu
    · have hjob : Spec (about fun b => Undone w₀ b ∧ Shows job b) (Prog.each processJob [job])
          fun _ => about (Undone w₀) :=
        Spec.seq (processJob_spec job) fun _ => undone_parts.pure ()
      exact Spec.seq hjob (fun _ => hsweep) hend ⟨hu, hshow⟩

theorem code_kept (r : Role) : Kept (about (Undone w₀)) (code r) := by
  by_cases hrole : r = .tick
  · rw [hrole]
    exact undone_parts.bind (undone_parts.turn .beginTick rfl) fun _ =>
      undone_parts.bind tick_kept fun _ => undone_parts.turn .endTick rfl
  · exact undone_parts.codeBesideTick
      (fun node => kept_stmt _ rfl) hrole

/-- **The balancers are switched back.** Parties take turns on a job that holds nothing yet, any of
their statements failing, and a release then says that nothing is held. DRS is on if it was on at
first and was never switched off with its marker refused. The native balancer's option is what it
was, or the property string for an object, unless a pause could neither be recorded nor rolled back.
-/
theorem balancers_restored (hcrs : w₀.job.nativeCrsPaused = false) {c : rolling.Pool}
    (hc : Turns (Pool.idle w₀) c)
    {i : ℕ} {r : Role} {didWork : Bool} {log : rolling.Log} {w : World}
    (hend : Ends (M := rolling) i r releaseJobState c.log c.shared (true, didWork) log w) :
    (w₀.drs = some true → lostDRS log = false → w.drs = some true) ∧
    (lostCRS log = false → w.crs = w₀.crs ∨
      ∃ fields, w₀.crs = .object fields ∧
        w.crs = .text (parseCRSSettings (.object fields)).restorable) := by
  have hinit : Undone w₀ (balance [] w₀) :=
    ⟨fun h _ => .inl h, fun h => absurd (hcrs.symm.trans h) (by decide), fun _ _ => .inl rfl⟩
  have hundone : Undone w₀ (balance c.log c.shared) :=
    hc.keep code_kept hinit
  obtain ⟨-, hback⟩ := releaseJobState_spec hend hundone
  obtain ⟨hdrsBack, hcrsBack⟩ := hback rfl
  refine ⟨hdrsBack, fun hlost => ?_⟩
  rcases hcrsBack hlost with hsame | ⟨hactive, hrestored⟩
  · exact .inl hsame
  · exact (restored_shape hactive).imp hrestored.trans fun ⟨fields, hobject, htext⟩ =>
      ⟨fields, hobject, hrestored.trans htext⟩

end

/-! ## Runs -/

/-- A running job that waits for a confirmation, in a cluster with both balancers on. -/
def balanced : World :=
  { job := { status := .running }
    nodes := [{ id := 1, nodeName := "a", step := .awaitingUpgrade }]
    drs := some true
    crs := .text "ha=static,ha-auto-rebalance=1" }

def quietly : rolling.Oracle := calm [] []

/-- The pause of the native balancer can neither be recorded nor rolled back. -/
def unrecorded : rolling.Oracle
  | .db (.updateJob (.setJobNativeCRSPaused _)) => some { text := "connection reset" }
  | .px (.setClusterOptions crs) =>
      if crs = "ha=static,ha-auto-rebalance=1" then some { text := "500 internal error" } else none
  | e => quietly e

/-- A tick pauses both balancers, the job is cancelled, and a release puts both back. -/
theorem balancers_restored_cancelled : ∃ c didWork log w,
    Turns (M := rolling) (Pool.idle balanced) c ∧ c.shared.drs = some false ∧
      c.shared.crs = .text "ha=static,ha-auto-rebalance=0" ∧
      Ends (M := rolling) 9 .releaseJobState releaseJobState c.log c.shared (true, didWork) log w ∧
      w.job.status = .cancelled ∧ w.drs = some true ∧ w.crs = balanced.crs := by
  obtain ⟨c, ⟨released, didWork⟩, log, w, hc, hend, h⟩ := exists_turns (M := rolling) balanced
    [(.tick, List.replicate 14 quietly), (.cancelJob, List.replicate 4 quietly)]
    9 .releaseJobState releaseJobState quietly
    (fun c a log w => c.shared.drs = some false &&
      decide (c.shared.crs = .text "ha=static,ha-auto-rebalance=0") && a.1 && !lostDRS log &&
      !lostCRS log && decide (w.job.status = .cancelled)) (by decide +kernel)
  simp only [Bool.and_eq_true, decide_eq_true_eq, Bool.not_eq_true'] at h
  obtain ⟨⟨⟨⟨⟨hoff, hpaused⟩, rfl⟩, hdrs⟩, hcrs⟩, hstatus⟩ := h
  obtain ⟨hon, hback⟩ := balancers_restored rfl hc hend
  refine ⟨c, didWork, log, w, hc, hoff, hpaused, hend, hstatus, hon rfl hdrs, ?_⟩
  rcases hback hcrs with hsame | ⟨fields, hobject, -⟩
  · exact hsame
  · cases hobject

/-- **A pause that is neither recorded nor rolled back stays.** The release of the cancelled job
finds nothing held. -/
theorem crs_left_paused : ∃ c didWork log w,
    Turns (M := rolling) (Pool.idle balanced) c ∧
      Ends (M := rolling) 9 .releaseJobState releaseJobState c.log c.shared (true, didWork) log w ∧
      w.job.status = .cancelled ∧ w.crs = .text "ha=static,ha-auto-rebalance=0" ∧
      w.crs ≠ balanced.crs := by
  obtain ⟨c, ⟨released, didWork⟩, log, w, hc, hend, h⟩ := exists_turns (M := rolling) balanced
    [(.tick, List.replicate 15 unrecorded), (.cancelJob, List.replicate 4 quietly)]
    9 .releaseJobState releaseJobState quietly
    (fun _ a _ w => a.1 && decide (w.job.status = .cancelled) &&
      decide (w.crs = .text "ha=static,ha-auto-rebalance=0")) (by decide +kernel)
  simp only [Bool.and_eq_true, decide_eq_true_eq] at h
  obtain ⟨⟨rfl, hstatus⟩, hcrs⟩ := h
  exact ⟨c, didWork, log, w, hc, hend, hstatus, hcrs, by rw [hcrs]; decide⟩

end Nexara.Rolling
