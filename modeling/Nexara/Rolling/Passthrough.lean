import Nexara.Conc.Alone
import Nexara.Rolling.NodeTable

/-!
# Restarting the guests that a drain shut down

`restartStoppedPassthrough` goes through the recorded guests of a node once. What becomes of a guest
is its `Fate`: what the listing says of it, and how the calls made about it ended. A pass keeps the
guests whose fate says so, and those it did not come to (`remaining`), in the order of the record
(`passthrough_conserved`).
-/

namespace Nexara.Rolling

open Conc System

/-! ## Calls that are made alone -/

section

variable {i : ℕ} {r : Role} {log log' : rolling.Log} {w w' : World}

theorem ends_ext {α : Type} {q : Ext} {k : q.Ans → Code α} {a : α}
    (h : Ends (M := rolling) i r (ext q >>= k) log w a log' w') :
    ∃ x, Ends (M := rolling) i r (k x) (⟨i, r, .ext q, x, w⟩ :: log) w a log' w' := by
  cases h with
  | call hx h =>
    cases hx
    exact ⟨_, h⟩

theorem ends_updateNode {u : NodeUpdate} {id : ℕ} {a : Except Err ℕ}
    (h : Ends (M := rolling) i r (updateNode u id) log w a log' w') :
    log' = ⟨i, r, .db (.updateNode u id), a, w⟩ :: log ∧
      ((∃ k, a = .ok k) ∧ w' = w.updateNode u id ∨ (∃ e, a = .error e) ∧ w' = w) := by
  obtain ⟨hlog, o, hx⟩ := Ends.of_stmt (M := rolling) h
  refine ⟨hlog, ?_⟩
  cases o with
  | some e =>
    cases hx
    exact .inr ⟨⟨e, rfl⟩, rfl⟩
  | none =>
    cases hx
    exact .inl ⟨⟨_, rfl⟩, rfl⟩

end

/-! ## What becomes of a guest -/

inductive Fate where
  /-- It is not on the node. -/
  | absent
  /-- It is neither stopped nor paused. -/
  | observed (status : String)
  | startFailed (e : Err)
  /-- Its start was not waited for. -/
  | unwaited (upid : String)
  | waited (upid : String) (result : TaskResult)

namespace Fate

/-- The guest stays in the record. -/
def kept (pruneRunning : Bool) : Fate → Bool
  | absent => false
  | observed _ => !pruneRunning
  | startFailed _ | unwaited _ => true
  | waited _ result => result ≠ .completed

/-- The pass ends with this guest. -/
def interrupts : Fate → Bool
  | waited _ .interrupted => true
  | _ => false

/-- What the code makes of it. -/
def verdict (pruneRunning : Bool) (f : Fate) : Restart :=
  if f.interrupts then .interrupted else if f.kept pruneRunning then .pending else .dropped

/-- The calls made about the guest, the latest first. -/
def calls (i : ℕ) (r : Role) (w : World) (node : String) (guest : GuestSnapshot) :
    Fate → rolling.Log
  | absent | observed _ => []
  | startFailed e => [⟨i, r, .ext (.startGuest node guest), .error e, w⟩]
  | unwaited upid => [⟨i, r, .ext (.startGuest node guest), .ok upid, w⟩]
  | waited upid result =>
    [⟨i, r, .ext (.waitForTask node upid), result, w⟩,
      ⟨i, r, .ext (.startGuest node guest), .ok upid, w⟩]

/-- The fate is one the listing and the flag lead to. -/
def Fits (statuses : GuestType → ℕ → Option String) (wait : Bool) (guest : GuestSnapshot) : Fate → Prop
  | absent => statuses guest.type guest.vmid = none
  | observed status => statuses guest.type guest.vmid = some status ∧
      status ≠ "stopped" ∧ status ≠ "paused"
  | startFailed _ => Down
  | unwaited _ => Down ∧ wait = false
  | waited _ _ => Down ∧ wait = true
where
  Down : Prop := statuses guest.type guest.vmid = some "stopped" ∨
    statuses guest.type guest.vmid = some "paused"

end Fate

section

variable {i : ℕ} {r : Role} {log log' : rolling.Log} {w w' : World} {node : NodeRow}
  {wait pruneRunning : Bool} {statuses : GuestType → ℕ → Option String} {guest : GuestSnapshot}

theorem ends_restartGuest {a : Restart}
    (h : Ends (M := rolling) i r (restartGuest node wait pruneRunning statuses guest) log w a log' w') :
    ∃ f : Fate, f.Fits statuses wait guest ∧ a = f.verdict pruneRunning ∧
      log' = f.calls i r w node.nodeName guest ++ log ∧ w' = w := by
  unfold restartGuest at h
  cases hstatus : statuses guest.type guest.vmid with
  | none =>
    rw [hstatus] at h
    obtain ⟨rfl, rfl, rfl⟩ := Ends.of_pure h
    exact ⟨.absent, hstatus, rfl, rfl, rfl⟩
  | some status =>
    rw [hstatus] at h
    replace h : Ends i r (if status ≠ "stopped" ∧ status ≠ "paused" then _ else _)
      log w a log' w' := h
    by_cases hup : status ≠ "stopped" ∧ status ≠ "paused"
    · rw [if_pos hup] at h
      obtain ⟨rfl, rfl, rfl⟩ := Ends.of_pure h
      refine ⟨.observed status, ⟨hstatus, hup⟩, ?_, rfl, rfl⟩
      cases pruneRunning <;> rfl
    · rw [if_neg hup] at h
      have hdown : Fate.Fits.Down statuses guest := by
        unfold Fate.Fits.Down
        rw [hstatus]
        by_contra hnot
        simp only [Option.some.injEq, not_or] at hnot
        exact hup hnot
      obtain ⟨started, h⟩ := ends_ext h
      cases started with
      | error e =>
        obtain ⟨rfl, rfl, rfl⟩ := Ends.of_pure h
        exact ⟨.startFailed e, hdown, rfl, rfl, rfl⟩
      | ok upid =>
        cases wait with
        | false =>
          obtain ⟨rfl, rfl, rfl⟩ := Ends.of_pure h
          exact ⟨.unwaited upid, ⟨hdown, rfl⟩, rfl, rfl, rfl⟩
        | true =>
          obtain ⟨result, h⟩ := ends_ext h
          refine ⟨.waited upid result, ⟨hdown, rfl⟩, ?_⟩
          cases result <;> obtain ⟨rfl, rfl, rfl⟩ := Ends.of_pure h <;>
            exact ⟨rfl, rfl, rfl⟩

/-! ## A pass over the record -/

/-- The fates of the guests a pass came to: it stops at the one whose wait was interrupted. -/
def Fates (statuses : GuestType → ℕ → Option String) (wait : Bool) :
    List GuestSnapshot → List Fate → Prop
  | [], fates => fates = []
  | _ :: _, [] => False
  | guest :: rest, f :: fates =>
    f.Fits statuses wait guest ∧ if f.interrupts then fates = [] else Fates statuses wait rest fates

/-- The guests a pass leaves in the record: those whose fate says so, and those it did not come to. -/
def remaining (pruneRunning : Bool) (list : List GuestSnapshot) (fates : List Fate) :
    List GuestSnapshot :=
  ((list.zip fates).filter (·.2.kept pruneRunning)).map (·.1) ++ list.drop fates.length

/-- The calls a pass made about the guests, the latest first. -/
def passCalls (i : ℕ) (r : Role) (w : World) (node : String) (list : List GuestSnapshot)
    (fates : List Fate) : rolling.Log :=
  ((list.zip fates).map fun gf => gf.2.calls i r w node gf.1).reverse.flatten

theorem remaining_cons (f : Fate) (fates : List Fate) (rest : List GuestSnapshot) :
    remaining pruneRunning (guest :: rest) (f :: fates) =
      (if f.kept pruneRunning then [guest] else []) ++ remaining pruneRunning rest fates := by
  unfold remaining
  rw [List.zip_cons_cons, List.filter_cons]
  split_ifs <;> simp

theorem passCalls_cons (f : Fate) (fates : List Fate) (rest : List GuestSnapshot) (name : String) :
    passCalls i r w name (guest :: rest) (f :: fates) =
      passCalls i r w name rest fates ++ f.calls i r w name guest := by
  unfold passCalls
  simp

theorem remaining_sublist (list : List GuestSnapshot) (fates : List Fate) :
    (remaining pruneRunning list fates).Sublist list := by
  induction list generalizing fates with
  | nil => simp [remaining]
  | cons guest rest ih =>
    cases fates with
    | nil => simp [remaining]
    | cons f fates =>
      rw [remaining_cons]
      split_ifs
      · exact (ih fates).cons_cons guest
      · exact (ih fates).cons guest

theorem kept_of_interrupts {f : Fate} (h : f.interrupts = true) : f.kept pruneRunning = true := by
  unfold Fate.interrupts at h
  split at h
  · rfl
  · cases h

theorem ends_restartGuests {list : List GuestSnapshot} {a : List GuestSnapshot × Bool}
    (h : Ends (M := rolling) i r (restartGuests (restartGuest node wait pruneRunning statuses) list)
      log w a log' w') :
    ∃ fates, Fates statuses wait list fates ∧
      a = (remaining pruneRunning list fates, fates.any Fate.interrupts) ∧
      log' = passCalls i r w node.nodeName list fates ++ log ∧ w' = w := by
  induction list generalizing log log' a w' with
  | nil =>
    obtain ⟨rfl, rfl, rfl⟩ := Ends.of_pure h
    exact ⟨[], rfl, rfl, rfl, rfl⟩
  | cons guest rest ih =>
    obtain ⟨verdict, log₁, w₁, hguest, h⟩ := Ends.of_bind h
    obtain ⟨f, hfits, rfl, rfl, rfl⟩ := ends_restartGuest hguest
    unfold Fate.verdict at h
    by_cases hint : f.interrupts = true
    · -- the guests behind it were not come to
      rw [if_pos hint] at h
      obtain ⟨rfl, rfl, rfl⟩ := Ends.of_pure h
      refine ⟨[f], ⟨hfits, if_pos hint ▸ rfl⟩, ?_, ?_, rfl⟩
      · simp [remaining, kept_of_interrupts hint, hint]
      · simp [passCalls]
    · have hrest : ∀ fates, Fates statuses wait rest fates →
          Fates statuses wait (guest :: rest) (f :: fates) := fun fates hf =>
        ⟨hfits, by rw [if_neg hint]; exact hf⟩
      have hany : ∀ fates, (f :: fates).any Fate.interrupts = fates.any Fate.interrupts := by
        simp [hint]
      rw [if_neg hint] at h
      by_cases hkept : f.kept pruneRunning = true
      · rw [if_pos hkept] at h
        obtain ⟨b, log₂, w₂, htail, h⟩ := Ends.of_bind h
        obtain ⟨fates, hfates, rfl, rfl, rfl⟩ := ih htail
        obtain ⟨rfl, rfl, rfl⟩ := Ends.of_pure h
        refine ⟨f :: fates, hrest fates hfates, ?_, ?_, rfl⟩
        · rw [remaining_cons, if_pos hkept, hany]
          rfl
        · rw [passCalls_cons, List.append_assoc]
      · rw [if_neg hkept] at h
        obtain ⟨fates, hfates, rfl, rfl, rfl⟩ := ih h
        refine ⟨f :: fates, hrest fates hfates, ?_, ?_, rfl⟩
        · rw [remaining_cons, if_neg hkept, hany]
          rfl
        · rw [passCalls_cons, List.append_assoc]

/-! ## The record -/

/-- The guests recorded for a node. -/
def World.recordOf (w : World) (id : ℕ) : Option (List GuestSnapshot) :=
  (w.node? id).map stoppedPassthroughFor

/-- A write of a record that failed. -/
def failedWrite : rolling.Entry → Bool
  | ⟨_, _, .db (.updateNode (.setNodeStoppedPassthrough _) _), .error _, _⟩ => true
  | _ => false

/-- A guest is started, or a task waited for. -/
def attempts (en : rolling.Entry) : Bool :=
  match Entry.stmt en with
  | .ext (.startGuest _ _) | .ext (.waitForTask _ _) => true
  | _ => false

theorem recordOf_write {id : ℕ} (list : List GuestSnapshot) (h : (w.node? id).isSome) :
    (w.updateNode (.setNodeStoppedPassthrough list) id).recordOf id = some list := by
  obtain ⟨n, hn⟩ := Option.isSome_iff_exists.mp h
  unfold World.recordOf
  rw [node?_updateNode, hn, Option.map_some, if_pos ⟨id_of_node? hn, rfl⟩]
  rfl

theorem isSome_updateNode {id : ℕ} (u : NodeUpdate) (h : (w.node? id).isSome) :
    ((w.updateNode u id).node? id).isSome := by
  rwa [node?_updateNode, Option.isSome_map]

theorem ends_persist {id : ℕ} {list : List GuestSnapshot} {a : Unit}
    (h : Ends (M := rolling) i r (persistStoppedPassthrough id list) log w a log' w')
    (hrow : (w.node? id).isSome) :
    ∃ en, log' = en :: log ∧ attempts en = false ∧ (w'.node? id).isSome ∧
      (failedWrite en = false ∧ w'.recordOf id = some list ∨ failedWrite en = true ∧ w' = w) := by
  obtain ⟨b, log₁, w₁, hwrite, h⟩ := Ends.of_bind h
  obtain ⟨-, rfl, rfl⟩ := Ends.of_pure h
  obtain ⟨rfl, ⟨⟨k, rfl⟩, rfl⟩ | ⟨⟨e, rfl⟩, rfl⟩⟩ := ends_updateNode hwrite
  · exact ⟨_, rfl, rfl, isSome_updateNode _ hrow, .inl ⟨rfl, recordOf_write list hrow⟩⟩
  · exact ⟨_, rfl, rfl, hrow, .inr ⟨rfl, rfl⟩⟩

/-- What the listing of a node's guests says. -/
def statusesOf (vms : List VirtualMachine) (cts : List Container) : GuestType → ℕ → Option String
  | .qemu, vmid => (vms.reverse.find? (·.vmid = vmid)).map (·.status)
  | .lxc, vmid => (cts.reverse.find? (·.vmid = vmid)).map (·.status)

theorem ends_nodeGuestStatuses {name : String} {a : Except Err (GuestType → ℕ → Option String)}
    (h : Ends (M := rolling) i r (nodeGuestStatuses name) log w a log' w') :
    w' = w ∧ ∃ listing, log' = listing ++ log ∧
      listing.filter attempts = [] ∧
      ((∃ e, (∃ e', a = .error e') ∧ (⟨i, r, .ext (.getVMs name), .error e, w⟩ ∈ listing ∨
          ⟨i, r, .ext (.getContainers name), .error e, w⟩ ∈ listing)) ∨
        ∃ vms cts, a = .ok (statusesOf vms cts) ∧
        listing = [⟨i, r, .ext (.getContainers name), .ok cts, w⟩,
          ⟨i, r, .ext (.getVMs name), .ok vms, w⟩]) := by
  obtain ⟨vms, h⟩ := ends_ext h
  cases vms with
  | error e =>
    obtain ⟨rfl, rfl, rfl⟩ := Ends.of_pure h
    exact ⟨rfl, [_], rfl, rfl, .inl ⟨e, ⟨_, rfl⟩, .inl (.head _)⟩⟩
  | ok vms =>
    obtain ⟨cts, h⟩ := ends_ext h
    cases cts with
    | error e =>
      obtain ⟨rfl, rfl, rfl⟩ := Ends.of_pure h
      exact ⟨rfl, [_, _], rfl, rfl, .inl ⟨e, ⟨_, rfl⟩, .inr (.head _)⟩⟩
    | ok cts =>
      obtain ⟨rfl, rfl, rfl⟩ := Ends.of_pure h
      refine ⟨rfl, [_, _], rfl, rfl, .inr ⟨vms, cts, ?_, rfl⟩⟩
      congr 1
      funext type vmid
      cases type <;> rfl

/-- The record is `left`, or still `list`; the latter only if a write failed. -/
structure Recorded (id : ℕ) (list left : List GuestSnapshot) (new : rolling.Log) (w : World) :
    Prop where
  safe : w.recordOf id = some left ∨ w.recordOf id = some list
  exact : (∀ en ∈ new, failedWrite en = false) → w.recordOf id = some left

theorem ends_record {id : ℕ} {list left : List GuestSnapshot} {change : Bool} {a : Unit}
    (h : Ends (M := rolling) i r (onlyIf change (persistStoppedPassthrough id left)) log w a log' w')
    (hold : w.recordOf id = some list) (hsame : change = false → left = list) :
    ∃ new, log' = new ++ log ∧ new.filter attempts = [] ∧ Recorded id list left new w' := by
  cases change with
  | false =>
    obtain ⟨-, rfl, rfl⟩ := Ends.of_pure h
    rw [← hsame rfl] at hold ⊢
    exact ⟨[], rfl, rfl, .inl hold, fun _ => hold⟩
  | true =>
    have hrow : (w.node? id).isSome := by
      unfold World.recordOf at hold
      rw [← Option.isSome_map, hold]
      rfl
    obtain ⟨en, rfl, hno, -, ⟨-, hleft⟩ | ⟨hfailed, rfl⟩⟩ := ends_persist h hrow
    · exact ⟨[en], rfl, by simp [hno], .inl hleft, fun _ => hleft⟩
    · refine ⟨[en], rfl, by simp [hno], .inr hold, fun hall => ?_⟩
      rw [hall en (.head _)] at hfailed
      cases hfailed

/-- The write at the end of a pass is made where it was interrupted or has dropped a guest. -/
theorem ends_close {id : ℕ} {list left : List GuestSnapshot} {interrupted : Bool} {a : ℕ × Bool}
    (hsub : left.Sublist list) (hold : w.recordOf id = some list)
    (h : Ends (M := rolling) i r (if interrupted then do
        persistStoppedPassthrough id left
        return (left.length, true)
      else do
        onlyIf (left.length ≠ list.length) (persistStoppedPassthrough id left)
        return (left.length, false)) log w a log' w') :
    a = (left.length, interrupted) ∧
      ∃ new, log' = new ++ log ∧ new.filter attempts = [] ∧ Recorded id list left new w' := by
  cases interrupted with
  | true =>
    obtain ⟨u, log₁, w₁, hwrite, h⟩ := Ends.of_bind h
    obtain ⟨rfl, rfl, rfl⟩ := Ends.of_pure h
    replace hwrite : Ends i r (onlyIf true (persistStoppedPassthrough id left)) log w u _ _ := hwrite
    exact ⟨rfl, ends_record hwrite hold nofun⟩
  | false =>
    obtain ⟨u, log₁, w₁, hwrite, h⟩ := Ends.of_bind h
    obtain ⟨rfl, rfl, rfl⟩ := Ends.of_pure h
    exact ⟨rfl, ends_record hwrite hold fun hsame => hsub.eq_of_length (by simpa using hsame)⟩

end

/-! ## The whole pass -/

/-- What a pass over the record saw and did: nothing to do, a listing that failed, or the fates of
the guests, by the listing and the calls made. -/
inductive Pass (i : ℕ) (r : Role) (node : NodeRow) (wait pruneRunning : Bool)
    (new : rolling.Log) : List GuestSnapshot → Bool → Prop
  | idle (hnone : stoppedPassthroughFor node = []) : Pass i r node wait pruneRunning new [] false
  | unseen (w : World) (e : Err)
      (hfailed : ⟨i, r, .ext (.getVMs node.nodeName), .error e, w⟩ ∈ new ∨
        ⟨i, r, .ext (.getContainers node.nodeName), .error e, w⟩ ∈ new)
      (hcalls : new.filter attempts = []) :
      Pass i r node wait pruneRunning new (stoppedPassthroughFor node) false
  | tried (w : World) (vms : List VirtualMachine) (cts : List Container) (fates : List Fate)
      (hvms : ⟨i, r, .ext (.getVMs node.nodeName), .ok vms, w⟩ ∈ new)
      (hcts : ⟨i, r, .ext (.getContainers node.nodeName), .ok cts, w⟩ ∈ new)
      (hfates : Fates (statusesOf vms cts) wait (stoppedPassthroughFor node) fates)
      (hcalls : new.filter attempts =
        passCalls i r w node.nodeName (stoppedPassthroughFor node) fates) :
      Pass i r node wait pruneRunning new
        (remaining pruneRunning (stoppedPassthroughFor node) fates) (fates.any Fate.interrupts)

section

variable {i : ℕ} {r : Role} {log log' : rolling.Log} {w w' : World} {node : NodeRow}
  {wait pruneRunning : Bool}

theorem filter_passCalls (list : List GuestSnapshot) (fates : List Fate) (name : String) :
    (passCalls i r w name list fates).filter attempts = passCalls i r w name list fates := by
  rw [List.filter_eq_self]
  intro en hen
  obtain ⟨calls, hcalls, hen⟩ := List.mem_flatten.mp hen
  obtain ⟨⟨guest, f⟩, -, rfl⟩ := List.mem_map.mp (List.mem_reverse.mp hcalls)
  cases f <;> simp [Fate.calls] at hen
  · rw [hen]; rfl
  · rw [hen]; rfl
  · rcases hen with rfl | rfl <;> rfl

/-- Why a guest left the record: the listing does not have it, or has it up, or its start completed.
-/
def Cleared (i : ℕ) (r : Role) (node : NodeRow) (wait pruneRunning : Bool) (new : rolling.Log)
    (guest : GuestSnapshot) : Prop :=
  ∃ w vms cts, ⟨i, r, .ext (.getVMs node.nodeName), .ok vms, w⟩ ∈ new ∧
    ⟨i, r, .ext (.getContainers node.nodeName), .ok cts, w⟩ ∈ new ∧
    (statusesOf vms cts guest.type guest.vmid = none ∨
      (pruneRunning = true ∧ ∃ status, statusesOf vms cts guest.type guest.vmid = some status ∧
        status ≠ "stopped" ∧ status ≠ "paused") ∨
      wait = true ∧ ∃ upid, ⟨i, r, .ext (.startGuest node.nodeName guest), .ok upid, w⟩ ∈ new ∧
        ⟨i, r, .ext (.waitForTask node.nodeName upid), TaskResult.completed, w⟩ ∈ new)

theorem calls_subset {list : List GuestSnapshot} {fates : List Fate} {name : String}
    {gf : GuestSnapshot × Fate} (h : gf ∈ list.zip fates) :
    ∀ en ∈ gf.2.calls i r w name gf.1, en ∈ passCalls i r w name list fates := by
  intro en hen
  exact List.mem_flatten.mpr ⟨_, List.mem_reverse.mpr (List.mem_map_of_mem h), hen⟩

theorem fate_of_not_mem {statuses : GuestType → ℕ → Option String} {list : List GuestSnapshot}
    {fates : List Fate} (hfates : Fates statuses wait list fates) {guest : GuestSnapshot}
    (hguest : guest ∈ list) (hnot : guest ∉ remaining pruneRunning list fates) :
    ∃ f, (guest, f) ∈ list.zip fates ∧ f.Fits statuses wait guest ∧ f.kept pruneRunning = false := by
  induction list generalizing fates with
  | nil => cases hguest
  | cons g rest ih =>
    cases fates with
    | nil => exact hfates.elim
    | cons f fates =>
      obtain ⟨hfits, hrest⟩ := hfates
      rw [remaining_cons, List.mem_append, not_or] at hnot
      rcases List.mem_cons.mp hguest with rfl | hguest
      · refine ⟨f, .head _, hfits, ?_⟩
        by_contra hkept
        simp [hkept] at hnot
      · split_ifs at hrest with hint
        · -- nothing behind an interruption is dropped
          subst hrest
          refine absurd ?_ hnot.2
          simpa [remaining] using hguest
        · obtain ⟨f', hmem, hf'⟩ := ih hrest hguest hnot.2
          exact ⟨f', .tail _ hmem, hf'⟩

theorem Pass.cleared {new : rolling.Log} {left : List GuestSnapshot} {interrupted : Bool}
    (h : Pass i r node wait pruneRunning new left interrupted) {guest : GuestSnapshot}
    (hguest : guest ∈ stoppedPassthroughFor node) (hnot : guest ∉ left) :
    Cleared i r node wait pruneRunning new guest := by
  cases h with
  | idle hnone =>
    rw [hnone] at hguest
    cases hguest
  | unseen w e hfailed hcalls => exact absurd hguest hnot
  | tried w vms cts fates hvms hcts hfates hcalls =>
    refine ⟨w, vms, cts, hvms, hcts, ?_⟩
    obtain ⟨f, hmem, hfits, hkept⟩ := fate_of_not_mem hfates hguest hnot
    have hin : ∀ en ∈ f.calls i r w node.nodeName guest, en ∈ new := fun en hen => by
      have hpass := calls_subset hmem en hen
      rw [← hcalls] at hpass
      exact (List.mem_filter.mp hpass).1
    cases f with
    | absent => exact .inl hfits
    | observed status => exact .inr (.inl ⟨by simpa [Fate.kept] using hkept, status, hfits⟩)
    | startFailed e | unwaited upid => cases hkept
    | waited upid result =>
      have hdone : result = .completed := by simpa [Fate.kept] using hkept
      rw [hdone] at hin
      exact .inr (.inr ⟨hfits.2, upid, hin _ (by simp [Fate.calls]), hin _ (by simp [Fate.calls])⟩)

/-- **A pass keeps what is still to be restarted.** The record is, in its order, the guests that
were neither absent, nor seen up where that counts, nor confirmed started; the old one where a write
of it failed. The number answered is that of the guests to be kept. -/
theorem passthrough_conserved {count : ℕ} {interrupted : Bool}
    (hrow : w.node? node.id = some node)
    (h : Ends (M := rolling) i r (restartStoppedPassthrough node wait pruneRunning) log w
      (count, interrupted) log' w') :
    ∃ new left, log' = new ++ log ∧ Pass i r node wait pruneRunning new left interrupted ∧
      left.Sublist (stoppedPassthroughFor node) ∧
      (∀ guest ∈ stoppedPassthroughFor node, guest ∉ left →
        Cleared i r node wait pruneRunning new guest) ∧
      count = left.length ∧ Recorded node.id (stoppedPassthroughFor node) left new w' := by
  -- what is not kept was cleared, whatever the pass did
  suffices hpass : ∃ new left, log' = new ++ log ∧ Pass i r node wait pruneRunning new left interrupted ∧
      left.Sublist (stoppedPassthroughFor node) ∧ count = left.length ∧
      Recorded node.id (stoppedPassthroughFor node) left new w' by
    obtain ⟨new, left, hlog, hpass, hsub, hcount, hrecord⟩ := hpass
    exact ⟨new, left, hlog, hpass, hsub, fun _ hguest hnot => hpass.cleared hguest hnot, hcount, hrecord⟩
  have hold : w.recordOf node.id = some (stoppedPassthroughFor node) := by
    unfold World.recordOf
    rw [hrow]
    rfl
  obtain ⟨u, log₁, w₁, hfirst, h⟩ := Ends.of_bind h
  obtain ⟨new₁, rfl, hcalls₁, hrecord₁⟩ := ends_record hfirst hold fun _ => rfl
  have hold₁ : w₁.recordOf node.id = some (stoppedPassthroughFor node) := hrecord₁.safe.elim id id
  by_cases hnone : (stoppedPassthroughFor node).isEmpty = true
  · rw [if_pos hnone] at h
    obtain ⟨heq, rfl, rfl⟩ := Ends.of_pure h
    cases heq
    have hnil : stoppedPassthroughFor node = [] := List.isEmpty_iff.mp hnone
    rw [hnil] at hold₁ ⊢
    exact ⟨new₁, [], rfl, .idle hnil, .refl _, rfl, .inl hold₁, fun _ => hold₁⟩
  · rw [if_neg hnone] at h
    obtain ⟨a, log₂, w₂, hlisting, h⟩ := Ends.of_bind h
    obtain ⟨rfl, listing, rfl, hcalls₂, hanswer⟩ := ends_nodeGuestStatuses hlisting
    rcases hanswer with ⟨e, ⟨e', rfl⟩, hfailed⟩ | ⟨vms, cts, rfl, hlist⟩
    · obtain ⟨heq, rfl, rfl⟩ := Ends.of_pure h
      cases heq
      refine ⟨listing ++ new₁, _, by simp, .unseen _ e (hfailed.imp (List.mem_append_left _)
        (List.mem_append_left _)) ?_, .refl _, rfl, .inl hold₁, fun _ => hold₁⟩
      rw [List.filter_append, hcalls₁, hcalls₂]
      rfl
    · obtain ⟨b, log₃, w₃, hguests, h⟩ := Ends.of_bind h
      obtain ⟨fates, hfates, rfl, rfl, rfl⟩ := ends_restartGuests hguests
      have hsub : (remaining pruneRunning (stoppedPassthroughFor node) fates).Sublist _ :=
        remaining_sublist (stoppedPassthroughFor node) fates
      obtain ⟨heq, new₃, rfl, hcalls₃, hrecord⟩ := ends_close hsub hold₁ h
      cases heq
      refine ⟨new₃ ++ passCalls i r w₃ node.nodeName (stoppedPassthroughFor node) fates ++ listing ++
        new₁, _, by simp, ?_, hsub, rfl, hrecord.safe, fun hall => hrecord.exact fun en hen => ?_⟩
      · refine .tried w₃ vms cts fates ?_ ?_ hfates ?_
        · simp [hlist]
        · simp [hlist]
        · rw [List.filter_append, List.filter_append, List.filter_append, hcalls₁, hcalls₂, hcalls₃,
            filter_passCalls]
          simp
      · exact hall en (by simp [hen])

end

/-! ## An interrupted pass -/

def gpuGuest (vmid : ℕ) : GuestSnapshot :=
  { vmid := vmid, name := "gpu", type := .qemu, status := "running", passthrough := true }

/-- A node that waits for three guests. -/
def awaited : NodeRow :=
  { id := 0, nodeName := "pve1", step := .restoring
    stoppedPassthroughJson := some [gpuGuest 101, gpuGuest 102, gpuGuest 103] }

def awaitedWorld : World := { nodes := [awaited] }

/-- The second of them is up. -/
def awaitedListing : List VirtualMachine :=
  [⟨101, "gpu", "stopped", false⟩, ⟨102, "gpu", "running", false⟩, ⟨103, "gpu", "stopped", false⟩]

/-- As `calm`, but the wait for guest 103 is interrupted. -/
def interrupting : rolling.Oracle
  | .ext (.startGuest _ guest) => .ok (toString guest.vmid)
  | .ext (.waitForTask _ upid) => if upid = "103" then TaskResult.interrupted else .completed
  | e => calm awaitedListing [] e

/-- The first guest is started, the second is up, and the wait for the third is interrupted. -/
theorem passthrough_conserved_interrupted :
    ∃ new left log' w', Ends (M := rolling) 0 .tick (restartStoppedPassthrough awaited true true) []
      awaitedWorld (1, true) log' w' ∧ log' = new ∧ left.Sublist (stoppedPassthroughFor awaited) ∧
      left = [gpuGuest 103] ∧ w'.recordOf 0 = some left := by
  have hplay : (play interrupting 0 .tick (restartStoppedPassthrough awaited true true) []
      awaitedWorld).any (fun x => x.1 = (1, true) && x.2.1.all (fun en => !failedWrite en) &&
        x.2.2.recordOf 0 = some [gpuGuest 103]) = true := by decide +kernel
  obtain ⟨⟨a, log', w'⟩, hp, hP⟩ := (Option.any_eq_true _ _).mp hplay
  simp only [Bool.and_eq_true, decide_eq_true_eq, List.all_eq_true, Bool.not_eq_true'] at hP
  obtain ⟨⟨rfl, hwritten⟩, hrecord⟩ := hP
  have hends := ends_of_play hp
  obtain ⟨new, left, hlog, -, hsub, -, -, hrecorded⟩ := passthrough_conserved rfl hends
  rw [List.append_nil] at hlog
  have hleft := hrecorded.exact (hlog ▸ hwritten)
  exact ⟨new, left, log', w', hends, hlog, hsub, Option.some.inj (hleft.symm.trans hrecord), hleft⟩

end Nexara.Rolling
