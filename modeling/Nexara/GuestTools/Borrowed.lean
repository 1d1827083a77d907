import Nexara.GuestTools.Accounts

/-!
# A borrowed drive is not forgotten

The record of a borrowed drive is all that leads back to an ISO the engine has attached. The retry
of a pending restore gives the record up when it does not find the guest's inventory row, which the
collector takes away and writes again (`borrowed_drive_forgotten`); the sweep of vanished guests
does the same, and a write that acts on a row read earlier can empty the record of a newer attempt.
`ApartAndPresent` excludes these (`borrowed_drive_recorded`).
-/

namespace Nexara.GuestTools

open Conc System

def World.Untouched (w : World) : Prop := w.attached = [] ∧ w.prior = none

def World.records (w : World) (key : Key) : Prop :=
  ∃ row action, w.row = some row ∧ row.prior = some (key, action)

/-- The record is of a drive that was added or that held a virtio-win ISO. -/
def Plain (prior : Option Prior) : Prop := ∀ key existing, prior ≠ some (key, .put existing)

theorem plain_place {config : Config} {p : Prior} (h : place config = some p) : Plain (some p) := by
  rintro key existing ⟨⟩
  rcases place_cases h with ⟨haction, -⟩ | ⟨haction, -⟩ <;> cases haction

theorem Plain.attached {v : View} {p : Prior} (h : Plain (some p)) :
    (v.set p.1 p.2.value).attached = v.attached.filter (· ≠ p.1) := by
  obtain ⟨key, action⟩ := p
  cases action with
  | remove | eject => rfl
  | put existing => exact (h key existing rfl).elim

/-- Every drive with an attached ISO is on record, and is the drive the next staging would use. -/
structure Recorded (v : View) : Prop where
  prior : ∀ key ∈ v.attached, ∃ action, v.prior = some (key, action)
  first : ∀ key ∈ v.attached, v.config.virtioWinKey = some key
  plain : Plain v.prior

namespace Recorded

variable {v : View} {p : Prior}

section

variable (h : Recorded v)

include h

theorem key_eq (hp : v.prior = some p) {key : Key} (hkey : key ∈ v.attached) : key = p.1 := by
  obtain ⟨action, haction⟩ := h.prior key hkey
  cases hp.symm.trans haction
  rfl

theorem mark (hp : place v.config = some p) : Recorded (v.record (some p)) where
  prior key hkey := ⟨p.2, by rw [place_key hp (h.first key hkey)]; rfl⟩
  first := h.first
  plain := plain_place hp

theorem attach (hp : v.prior = some p) (volid : String)
    (hfirst : ∀ key, v.config.virtioWinKey = some key → key = p.1) :
    Recorded (v.set p.1 (some (.cdrom (.virtioWin volid)))) := by
  have hkey : ∀ key ∈ (v.set p.1 (some (.cdrom (.virtioWin volid)))).attached, key = p.1 := by
    intro key hmem
    rcases List.mem_cons.mp hmem with rfl | hmem
    · rfl
    · exact h.key_eq hp hmem
  refine ⟨fun key hmem => ⟨p.2, ?_⟩, fun key hmem => ?_, h.plain⟩
  · rwa [hkey key hmem]
  · rw [hkey key hmem]
    exact Config.virtioWinKey_update volid hfirst

theorem restore (hplain : Plain (some p)) (hp : ∀ p', v.prior = some p' → p' = p) :
    Recorded (v.set p.1 p.2.value) := by
  have hnone : ∀ key, key ∉ (v.set p.1 p.2.value).attached := by
    intro key hmem
    rw [hplain.attached] at hmem
    obtain ⟨hmem, hne⟩ := List.mem_filter.mp hmem
    obtain ⟨action, haction⟩ := h.prior key hmem
    exact of_decide_eq_true hne (by rw [← hp _ haction])
  exact ⟨fun key hmem => (hnone key hmem).elim, fun key hmem => (hnone key hmem).elim, h.plain⟩

theorem release (hback : ∀ p, v.prior = some p → p.1 ∉ v.attached) : Recorded (v.record none) := by
  have hnone : ∀ key, key ∉ v.attached := by
    intro key hmem
    obtain ⟨action, haction⟩ := h.prior key hmem
    exact hback _ haction hmem
  exact ⟨fun key hmem => (hnone key hmem).elim, h.first, nofun⟩

end

end Recorded

def attachedAccount : Account where
  good := Recorded
  sound := Plain
  back v key := key ∉ v.attached
  allow _ := true
  sound_of_good h := h.plain
  good_mark h _ hp := h.mark hp
  good_attach volid h hp hfirst := h.attach hp volid hfirst
  good_restore h hplain hp := h.restore hplain hp
  good_release h hback := h.release hback
  back_record h := h
  back_self h hmem := by
    rw [h.attached] at hmem
    exact of_decide_eq_true (List.mem_filter.mp hmem).2 rfl
  back_set h hback hmem := by
    rw [h.attached] at hmem
    exact hback (List.mem_filter.mp hmem).1

/-- **A borrowed drive is not forgotten.** -/
theorem borrowed_drive_recorded {w₀ : World} (h₀ : w₀.Untouched) {c : guestTools.Pool}
    (hc : guestTools.Reach ApartAndPresent (Pool.idle w₀) c) :
    ∀ key ∈ c.shared.attached, c.shared.records key := by
  have hgood : attachedAccount.good w₀.view := by
    refine ⟨fun key hmem => ?_, fun key hmem => ?_, ?_⟩
    · rw [show w₀.view.attached = [] from h₀.1] at hmem
      cases hmem
    · rw [show w₀.view.attached = [] from h₀.1] at hmem
      cases hmem
    · rw [show w₀.view.prior = none from h₀.2]
      exact nofun
  have hrec : Recorded c.shared.view := attachedAccount.good_of_reach
    (fun log i r e o w hok => ⟨hok, by unfold Allowed; split <;> rfl⟩) hgood hc
  intro key hkey
  obtain ⟨action, haction⟩ := hrec.prior key hkey
  obtain ⟨row, hrow, hprior⟩ := Option.bind_eq_some_iff.mp haction
  exact ⟨row, action, hrow, hprior⟩

/-- Answers under which the guest's tools are behind `target`, with `ok` for the calls that can
fail. -/
def answers (target : Target) (ok : Stmt → Bool) (result : Option UpdateResult) :
    (e : Stmt) → e.Outcome
  | .listGuestToolsFleet => some ({}, false)
  | .countGuestToolsInFlightForCluster => some 0
  | .stagedBefore => (0 : ℕ)
  | .getVirtioWinConfig => some "nas"
  | .detectScript => some "0.1.240"
  | .getGuestToolsPolicy | .getGuestToolsConfig => some false
  | .isoPresent => some true
  | .resolveTarget => some target
  | .getVMByClusterAndVmid => some {}
  | .updaterTaskPresence => some .absent
  | .readResult => some result
  | .setListed _ => ()
  | .pastCeiling .. => false
  | .createClient => ok .createClient
  | .deleteGuestToolsStateForVanishedGuests listed =>
    ok (.deleteGuestToolsStateForVanishedGuests listed)
  | .upsertGuestToolsDetection => ok .upsertGuestToolsDetection
  | .needsUpdate installed target => ok (.needsUpdate installed target)
  | .getNode => ok .getNode
  | .getGuestToolsState => ok .getGuestToolsState
  | .getVMConfig => ok .getVMConfig
  | .createVMSnapshot => ok .createVMSnapshot
  | .setGuestToolsStage stage version prior => ok (.setGuestToolsStage stage version prior)
  | .setVMConfig key value => ok (.setVMConfig key value)
  | .clearResultFile => ok .clearResultFile
  | .writeUpdater => ok .writeUpdater
  | .registerTask => ok .registerTask
  | .startTask => ok .startTask
  | .deleteTask => ok .deleteTask
  | .finishGuestToolsUpdate stage restored => ok (.finishGuestToolsUpdate stage restored)
  | .clearGuestToolsCDROMRestore => ok .clearGuestToolsCDROMRestore
  | .listGuestToolsInFlight => ok .listGuestToolsInFlight
  | .listGuestToolsPendingCDROMRestore => ok .listGuestToolsPendingCDROMRestore
  | .setGuestToolsUptime uptime => ok (.setGuestToolsUptime uptime)
  | .insertAuditLog => ok .insertAuditLog

def v285 : Target := ⟨"0.1.285-1", "virtio-win-0.1.285.iso"⟩

def smooth : guestTools.Oracle := answers v285 (fun _ => true) none

/-- The updater's task cannot be registered. -/
def unregistered : guestTools.Oracle := answers v285 (fun e => e ≠ .registerTask) none

/-- A guest with a system disk and no other drive. -/
def oneDisk : World where
  config := Function.update (fun _ => none) (.scsi 0) (some (.disk "local-lvm:vm-100-disk-0"))

theorem borrowed_drive_recorded_staged :
    ∃ c, guestTools.Reach ApartAndPresent (Pool.idle oneDisk) c ∧
      Key.ide 2 ∈ c.shared.attached ∧ c.shared.records (.ide 2) := by
  obtain ⟨c, hc, -, hmem⟩ := exists_reach (M := guestTools) ApartAndPresent oneDisk
    (.start (.stageOne false) :: List.replicate 15 (.step 0 smooth))
    (fun c => c.quiet = true ∧ Key.ide 2 ∈ c.shared.attached) (by decide +kernel)
  exact ⟨c, hc, hmem, borrowed_drive_recorded ⟨rfl, rfl⟩ hc _ hmem⟩

/-- A staging fails once the ISO is attached, and the next reconcile does not find the guest's
inventory row. -/
theorem borrowed_drive_forgotten :
    ∃ w₀ c, w₀.Untouched ∧ guestTools.Reach Cond.any (Pool.idle w₀) c ∧
      c.quiet = true ∧ Key.ide 2 ∈ c.shared.attached ∧ c.shared.prior = none := by
  obtain ⟨c, hc⟩ := exists_reach (M := guestTools) Cond.any oneDisk
    ((.start (.stageOne false) :: List.replicate 15 (.step 0 unregistered)) ++
      [.start (.churn false), .step 1 smooth] ++
      (.start .reconcile :: List.replicate 4 (.step 2 smooth)))
    (fun c => c.quiet = true ∧ Key.ide 2 ∈ c.shared.attached ∧ c.shared.prior = none)
    (by decide +kernel)
  exact ⟨oneDisk, c, ⟨rfl, rfl⟩, hc⟩

end Nexara.GuestTools
