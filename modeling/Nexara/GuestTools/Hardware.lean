import Nexara.Conc.Alone
import Nexara.GuestTools.Borrowed

/-!
# A finished update leaves the hardware as found

What is to be put back is worked out from the guest's configuration at each attempt. After an
attempt that failed with its ISO attached, the next one finds the engine's own drive with a
virtio-win ISO, records that it is to be emptied, and the guest is left with an empty drive it never
had (`added_drive_left`). `Unmixed` asks that no staging writes its marker while a drive that was
added before is still there.
-/

namespace Nexara.GuestTools

open Conc System

/-- The slot is as it was: absent, or present and holding what it held, unless that was a virtio-win
ISO. -/
def AsFound : Option Drive → Option Drive → Prop
  | none, none => True
  | some drive, some drive' => drive' = drive ∨ drive.holdsVirtioWin = true
  | _, _ => False

theorem AsFound.refl : ∀ slot : Option Drive, AsFound slot slot
  | none => trivial
  | some _ => .inl rfl

theorem AsFound.eq_none {slot : Option Drive} (h : AsFound slot none) : slot = none := by
  cases slot with
  | none => rfl
  | some drive => exact h.elim

/-- No drive that was added by an earlier attempt is still there. -/
def View.unmixed (v : View) : Bool :=
  match v.prior with
  | some (key, .remove) => (v.config key).isNone
  | _ => true

theorem View.unmixed_remove {v : View} {key : Key} (h : v.unmixed = true)
    (hp : v.prior = some (key, .remove)) : v.config key = none := by
  unfold View.unmixed at h
  rw [hp] at h
  exact Option.isNone_iff_eq_none.mp h

def Unmixed : guestTools.Cond := Allowed View.unmixed

def ApartPresentAndUnmixed : guestTools.Cond := fun log i r e o w =>
  ApartAndPresent log i r e o w && Unmixed log i r e o w

section

-- the guest's drives at the start
variable (found : Config)

/-- A record of a drive that was not there, or of one that held a virtio-win ISO. -/
def Right (prior : Option Prior) : Prop :=
  ∀ p, prior = some p → p.2 = .remove ∧ found p.1 = none ∨
    p.2 = .eject ∧ ∃ drive, found p.1 = some drive ∧ drive.holdsVirtioWin = true

/-- All drives but the recorded one are as they were. -/
structure Restorable (v : View) : Prop where
  others : ∀ key, (∀ p, v.prior = some p → p.1 ≠ key) → AsFound (found key) (v.config key)
  right : Right found v.prior
  there : ∀ key, v.prior = some (key, .eject) → (v.config key).isSome = true

variable {found} {v : View} {p : Prior}

theorem Right.back_self (h : Right found (some p)) :
    AsFound (found p.1) ((v.set p.1 p.2.value).config p.1) := by
  show AsFound (found p.1) (Function.update v.config p.1 p.2.value p.1)
  rw [Function.update_self]
  rcases h p rfl with ⟨haction, hfound⟩ | ⟨haction, drive, hfound, hvirtio⟩
  · rw [haction, hfound]
    trivial
  · rw [haction, hfound]
    exact .inr hvirtio

theorem Right.back_set (h : Right found (some p)) {key : Key}
    (hkey : AsFound (found key) (v.config key)) :
    AsFound (found key) ((v.set p.1 p.2.value).config key) := by
  by_cases hp : key = p.1
  · subst hp
    exact h.back_self
  · show AsFound (found key) (Function.update v.config p.1 p.2.value key)
    rwa [Function.update_of_ne hp]

namespace Restorable

section

variable (h : Restorable found v)

include h

theorem found_virtioWin (hmix : v.unmixed = true) {key : Key} {volid : String}
    (hkey : v.config key = some (.cdrom (.virtioWin volid))) :
    ∃ drive, found key = some drive ∧ drive.holdsVirtioWin = true := by
  by_cases hp : ∃ p, v.prior = some p ∧ p.1 = key
  · obtain ⟨⟨key, action⟩, hp, rfl⟩ := hp
    rcases h.right _ hp with ⟨rfl, -⟩ | ⟨-, hfound⟩
    · rw [View.unmixed_remove hmix hp] at hkey
      cases hkey
    · exact hfound
  · have hfound := h.others key fun p hprior heq => hp ⟨p, hprior, heq⟩
    rw [hkey] at hfound
    cases hf : found key with
    | none => rw [hf] at hfound; exact hfound.elim
    | some drive =>
      rw [hf] at hfound
      rcases hfound with rfl | hvirtio
      · exact ⟨_, rfl, rfl⟩
      · exact ⟨drive, rfl, hvirtio⟩

theorem found_none {key : Key} (hkey : v.config key = none) : found key = none := by
  by_cases hp : ∃ p, v.prior = some p ∧ p.1 = key
  · obtain ⟨⟨key, action⟩, hp, rfl⟩ := hp
    rcases h.right _ hp with ⟨-, hfound⟩ | ⟨rfl, -⟩
    · exact hfound
    · have hthere := h.there key hp
      rw [hkey] at hthere
      cases hthere
  · have hfound := h.others key fun p hprior heq => hp ⟨p, hprior, heq⟩
    rw [hkey] at hfound
    exact hfound.eq_none

theorem asFound (hmix : v.unmixed = true) (key : Key) : AsFound (found key) (v.config key) := by
  by_cases hp : ∃ p, v.prior = some p ∧ p.1 = key
  · obtain ⟨⟨key, action⟩, hp, rfl⟩ := hp
    rcases h.right _ hp with ⟨rfl, hfound⟩ | ⟨rfl, drive, hfound, hvirtio⟩
    · rw [View.unmixed_remove hmix hp, hfound]
      trivial
    · obtain ⟨drive', hdrive'⟩ := Option.isSome_iff_exists.mp (h.there key hp)
      rw [hfound, hdrive']
      exact .inr hvirtio
  · exact h.others key fun p hprior heq => hp ⟨p, hprior, heq⟩

theorem mark (hmix : v.unmixed = true) (hp : place v.config = some p) :
    Restorable found (v.record (some p)) := by
  refine ⟨fun key _ => h.asFound hmix key, ?_, ?_⟩
  · rintro _ ⟨⟩
    rcases place_cases hp with ⟨haction, hkey⟩ | ⟨haction, -, hfree⟩
    · obtain ⟨volid, hvolid⟩ := Config.cdrom_of_hasVirtioWin (Config.hasVirtioWin_of_key hkey)
      exact .inr ⟨haction, h.found_virtioWin hmix hvolid⟩
    · exact .inl ⟨haction, h.found_none hfree⟩
  · rintro key ⟨⟩
    rcases place_cases hp with ⟨-, hkey⟩ | ⟨haction, -⟩
    · obtain ⟨volid, hvolid⟩ := Config.cdrom_of_hasVirtioWin (Config.hasVirtioWin_of_key hkey)
      exact Option.isSome_iff_exists.mpr ⟨_, hvolid⟩
    · cases haction

theorem attach (hp : v.prior = some p) (volid : String) :
    Restorable found (v.set p.1 (some (.cdrom (.virtioWin volid)))) := by
  refine ⟨fun key hkey => ?_, h.right, fun key hkey => ?_⟩
  · show AsFound (found key) (Function.update v.config p.1 _ key)
    rw [Function.update_of_ne (Ne.symm (hkey p hp))]
    exact h.others key hkey
  · cases hp.symm.trans hkey
    show (Function.update v.config key _ key).isSome = true
    rw [Function.update_self]
    rfl

theorem restore (hright : Right found (some p)) (hp : ∀ p', v.prior = some p' → p' = p) :
    Restorable found (v.set p.1 p.2.value) := by
  refine ⟨fun key hkey => hright.back_set (h.others key hkey), h.right, fun key hkey => ?_⟩
  obtain rfl := hp _ hkey
  show (Function.update v.config key _ key).isSome = true
  rw [Function.update_self]
  rfl

theorem release (hback : ∀ p, v.prior = some p → AsFound (found p.1) (v.config p.1)) :
    Restorable found (v.record none) := by
  refine ⟨fun key _ => ?_, nofun, nofun⟩
  by_cases hp : ∃ p, v.prior = some p ∧ p.1 = key
  · obtain ⟨p, hp, rfl⟩ := hp
    exact hback p hp
  · exact h.others key fun p hprior heq => hp ⟨p, hprior, heq⟩

end

end Restorable

variable (found) in
def driveAccount : Account where
  good := Restorable found
  sound := Right found
  back v key := AsFound (found key) (v.config key)
  allow := View.unmixed
  sound_of_good h := h.right
  good_mark h hmix hp := h.mark hmix hp
  good_attach volid h hp _ := h.attach hp volid
  good_restore h hright hp := h.restore hright hp
  good_release h hback := h.release hback
  back_record h := h
  back_self h := h.back_self
  back_set h hkey := h.back_set hkey

end

/-- **The hardware is left as found.** -/
theorem hardware_as_found {w₀ : World} (h₀ : w₀.Untouched) {c : guestTools.Pool}
    (hc : guestTools.Reach ApartPresentAndUnmixed (Pool.idle w₀) c)
    (hprior : c.shared.prior = none) (key : Key) :
    AsFound (w₀.config key) (c.shared.config key) := by
  have hgood : (driveAccount w₀.config).good w₀.view := by
    refine ⟨fun key _ => .refl _, fun p hp => ?_, fun key hp => ?_⟩
    · rw [show w₀.view.prior = none from h₀.2] at hp
      cases hp
    · rw [show w₀.view.prior = none from h₀.2] at hp
      cases hp
  have hres : Restorable w₀.config c.shared.view := (driveAccount w₀.config).good_of_reach
    (fun log i r e o w hok => (Bool.and_eq_true _ _).mp hok) hgood hc
  refine hres.others key fun p hp => ?_
  rw [show c.shared.view.prior = none from hprior] at hp
  cases hp

def installed : guestTools.Oracle := answers v285 (fun _ => true) (some ⟨"0.1.285-1", true⟩)

theorem hardware_as_found_updated :
    ∃ c, guestTools.Reach ApartPresentAndUnmixed (Pool.idle oneDisk) c ∧
      (c.quiet = true ∧ c.shared.row.map (·.stage) = some .succeeded ∧ c.shared.prior = none) ∧
      ∀ key, AsFound (oneDisk.config key) (c.shared.config key) := by
  obtain ⟨c, hc, h⟩ := exists_reach (M := guestTools) ApartPresentAndUnmixed oneDisk
    ((.start (.stageOne false) :: List.replicate 15 (.step 0 smooth)) ++
      (.start .reconcile :: List.replicate 12 (.step 1 installed)))
    (fun c => c.quiet = true ∧ c.shared.row.map (·.stage) = some .succeeded ∧ c.shared.prior = none)
    (by decide +kernel)
  exact ⟨c, hc, h, hardware_as_found ⟨rfl, rfl⟩ hc h.2.2⟩

/-- A staging fails with its ISO attached, the next one succeeds, and its result is recorded and its
drive restored. -/
theorem added_drive_left :
    ∃ w₀ c, w₀.Untouched ∧ Turns (M := guestTools) (Pool.idle w₀) c ∧
      c.shared.row.map (·.stage) = some .succeeded ∧ c.shared.prior = none ∧
      w₀.config (.ide 2) = none ∧ c.shared.config (.ide 2) = some (.cdrom .none) := by
  obtain ⟨c, hc, h⟩ := exists_pool_of_turns (M := guestTools) oneDisk
    [(.stageOne false, List.replicate 15 unregistered), (.stageOne false, List.replicate 14 smooth),
      (.reconcile, List.replicate 12 installed)]
    (fun c => decide (c.shared.row.map (·.stage) = some .succeeded ∧ c.shared.prior = none ∧
      c.shared.config (.ide 2) = some (.cdrom .none))) (by decide +kernel)
  have h := of_decide_eq_true h
  exact ⟨oneDisk, c, ⟨rfl, rfl⟩, hc, h.1, h.2.1, rfl, h.2.2⟩

end Nexara.GuestTools
