import Nexara.Rolling.Ticks

/-!
# Who moves a node

A node goes through its steps in the hands of the tick, the goroutine of an automated upgrade, and
the request that confirms a manual one. Except for failing and skipping a node, the statements that
write a step do not look at the step they replace; what keeps a node on its way is that each party
moves it only out of the step it works from, the one it took the node up with or has written since,
and only out of the steps that are its own (`takesOut`, `nodes_followed`).
-/

namespace Nexara.Rolling

open Conc Protocol

theorem takesOut_not_terminal {r : Role} {s : NodeStep} {u : NodeUpdate}
    (h : takesOut r s u = true) : s.terminal = false := by
  unfold takesOut owns leads at h
  split_ifs at h <;> split at h <;> simp_all [NodeStep.terminal]

/-! ## What a party works from -/

/-- A party's view of the nodes. -/
structure NodeMemory where
  /-- The step the party works from: the one it took the node up with, or has written since. -/
  known : ℕ → Option NodeStep := fun _ => none
  /-- It is the leader's turn. -/
  ticking : Bool := false
  /-- The node that a confirmation has found awaiting it, until the request is answered. -/
  claim : Option ℕ := none
  /-- It has sent a reboot. -/
  rebooted : Bool := false
  /-- It was given an answer that no table can give. -/
  odd : Bool := false
  /-- The jobs and nodes it has listed. -/
  jobs : List JobRow := []
  rows : List NodeRow := []
  /-- The clock has asked it to begin the restore of the node again. -/
  again : ℕ → Bool := fun _ => false

/-- The node an upgrade's goroutine is started for is being upgraded. -/
def Role.assigned : Role → ℕ → Option NodeStep
  | .sshUpgrade _ node _, id => if node.id = id then some .upgrading else none
  | _, _ => none

namespace NodeMemory

/-- The step a party of this role works from. -/
def knows (r : Role) (l : NodeMemory) (id : ℕ) : Option NodeStep := (l.known id).or (r.assigned id)

def learn (l : NodeMemory) (id : ℕ) (s : NodeStep) : NodeMemory :=
  { l with known := Function.update l.known id (some s) }

/-- A request is answered, and its claim given up, unless its node was rebooted and is not recorded
as rebooting. -/
def answer (l : NodeMemory) : NodeMemory :=
  { l with claim := l.claim.filter fun id => l.rebooted && l.known id = some .awaitingUpgrade }

def move (l : NodeMemory) (u : NodeUpdate) (id : ℕ) : NodeMemory :=
  match u.step? with
  | some s => l.learn id s
  | none => l

/-- The restore of the node, as listed, is to begin again. -/
def asked (l : NodeMemory) (now id : ℕ) : Bool :=
  l.rows.any fun row => row.id = id && row.step = .restoring && l.jobs.any (begunAgain · row now)

def next (r : Role) (l : NodeMemory) : (e : Stmt) → e.Ans → NodeMemory
  | .beginTick => fun _ => { l with ticking := true }
  | .endTick => fun _ => { l with ticking := false }
  | .db .listRunningRollingUpdateJobs => fun a => match a with
    | .ok (jobs : List JobRow) =>
      { l with jobs := jobs ++ l.jobs, odd := l.odd || decide (1 < jobs.length) }
    | .error _ => l
  | .db .listRollingUpdateNodes => fun a => match a with
    | .ok (rows : List NodeRow) =>
      { l with
        known := fun id => (l.knows r id).or ((rows.find? (·.id = id)).map (·.step))
        rows := rows ++ l.rows
        odd := l.odd || !decide (rows.map (·.id)).Nodup }
    | .error _ => l
  | .db (.getRollingUpdateNode id) => fun a => match a with
    | .ok (row : NodeRow) =>
      { l with
        known := Function.update l.known id ((l.knows r id).or (some row.step))
        claim := l.claim.or (if r = .confirmUpgrade id ∧ l.knows r id = none ∧
          row.step = .awaitingUpgrade then some id else none)
        odd := l.odd || decide (row.id ≠ id) }
    | .error _ => l
  | .db .getNextPendingNode => fun a => match a with
    | .ok (row : NodeRow) =>
      { l.learn row.id row.step with odd := l.odd || decide (row.step ≠ .pending) }
    | .error _ => l
  | .db (.updateNode u id) => fun a => match a with
    | .ok _ => l.move u id
    | .error _ => l
  | .px (.rebootNode _) => fun _ => { l with rebooted := true }
  | .respond _ _ => fun _ => l.answer
  | .now => fun now => { l with again := fun id => l.again id || l.asked now id }
  | _ => fun _ => l

/-- The party may send a reboot: once, of the node it has confirmed or upgraded. -/
def mayReboot (l : NodeMemory) (r : Role) : Prop :=
  l.rebooted = false ∧ match r with
    | .confirmUpgrade id => l.claim = some id ∧ l.known id = some .awaitingUpgrade
    | .sshUpgrade _ node _ => l.known node.id = some .rebooting
    | _ => False

/-- The party takes nodes out of the step by this statement; a restore begins again only if the clock
asked for it. -/
def Takes (l : NodeMemory) (r : Role) (s : NodeStep) (u : NodeUpdate) (id : ℕ) : Prop :=
  takesOut r s u = true ∧
    (s = .restoring → u = .setNodeRestoreStarted → l.odd = false → l.again id = true)

/-- The party may write the node's step: out of a step it works from, and that is its own. -/
def mayMove (l : NodeMemory) (r : Role) (u : NodeUpdate) (id : ℕ) : Prop :=
  (r = .tick → l.ticking = true) ∧ (∀ id', r = .confirmUpgrade id' → l.claim = some id) ∧
    ∃ s, l.knows r id = some s ∧ l.Takes r s u id

def may (r : Role) (l : NodeMemory) : Stmt → Prop
  | .db (.updateNode u id) =>
    (u.moves = true → l.odd = false → l.mayMove r u id) ∧
      (u = .skipRollingUpdateNode → l.odd = false → l.claim = none)
  | .px (.rebootNode _) => l.odd = false → l.mayReboot r
  | .beginTick => l.odd = false → l.known = fun _ => none
  | .endTick => l.odd = false → l.ticking = true
  | _ => True

end NodeMemory

/-- How nodes are moved. -/
abbrev nodeProtocol : Protocol rolling where
  Loc := NodeMemory
  init := {}
  next := NodeMemory.next
  may := NodeMemory.may

/-! ## Statements that move no node -/

/-- Statements that leave the steps a party works from alone. -/
def Stmt.idle : Stmt → Bool
  | .beginTick | .endTick | .db .getNextPendingNode | .px (.rebootNode _) => false
  | .db (.updateNode u _) => u.step?.isNone
  | _ => true

/-- `l'` remembers what `l` does. -/
structure NodeMemory.Le (r : Role) (l l' : NodeMemory) : Prop where
  knows : ∀ {id s}, l.knows r id = some s → l'.knows r id = some s
  ticking : l'.ticking = l.ticking
  rebooted : l'.rebooted = l.rebooted
  odd : l'.odd = false → l.odd = false
  again : ∀ {id}, l.again id = true → l'.again id = true

namespace NodeMemory

variable {r : Role} {l l' : NodeMemory}

theorem Le.refl (l : NodeMemory) : l.Le r l := ⟨id, rfl, rfl, id, id⟩

theorem Le.of_same (hknown : l'.known = l.known) (hticking : l'.ticking = l.ticking)
    (hrebooted : l'.rebooted = l.rebooted) (hodd : l'.odd = false → l.odd = false)
    (hagain : ∀ {id}, l.again id = true → l'.again id = true) : l.Le r l' := by
  refine ⟨fun {id s} h => ?_, hticking, hrebooted, hodd, hagain⟩
  unfold NodeMemory.knows
  rwa [hknown]

/-- What is read of a node one knows already is not taken up. -/
theorem le_next {e : Stmt} (he : e.idle = true) : ∀ a, l.Le r (l.next r e a) := by
  unfold next
  split <;> intro a
  any_goals cases he
  all_goals first
    | exact .refl l
    | exact .of_same rfl rfl rfl id fun h => Bool.or_eq_true_iff.mpr (.inl h)
    | (cases a <;> first | exact .refl l | skip)
  · exact .of_same rfl rfl rfl (fun h => (Bool.or_eq_false_iff.mp h).1) id
  · refine ⟨fun {id s} h => ?_, rfl, rfl, fun h => (Bool.or_eq_false_iff.mp h).1, id⟩
    show ((l.knows r id).or _).or _ = some s
    rw [h]
    rfl
  · refine ⟨fun {id s} h => ?_, rfl, rfl, fun h => (Bool.or_eq_false_iff.mp h).1, id⟩
    show (Function.update l.known _ _ id).or _ = some s
    rw [Function.update_apply]
    split_ifs with hid
    · rw [← hid, h]
      rfl
    · exact h
  · next u id _ =>
    have hu : u.step? = none := by simpa [Stmt.idle] using he
    simpa [move, hu] using Le.refl l
  · exact .of_same rfl rfl rfl id id

theorem may_idle {e : Stmt} (he : e.idle = true) : l.may r e := by
  unfold may
  split <;> simp_all [Stmt.idle]
  next u id => cases u <;> simp_all [NodeUpdate.moves, NodeUpdate.step?]

end NodeMemory

/-- An assertion that more knowledge does not spoil. -/
def Stable (r : Role) (A : NodeMemory → Prop) : Prop := ∀ {l l'}, l.Le r l' → A l → A l'

section

variable {r : Role} {A : NodeMemory → Prop} {e : Stmt}

theorem idle_of_plain (he : e.plain = true) : e.idle = true := by
  unfold Stmt.idle
  split <;> simp_all [Stmt.plain]
  next u id => cases u <;> simp_all

theorem idle_of_restores (he : e.restores = true) : e.idle = true := by
  unfold Stmt.idle
  split <;> simp_all [Stmt.restores]

theorem calls : Calls fun p => nodeProtocol.Keeps r A p where
  pure := keeps_pure
  bind := Keeps.bind
  ext _ := keeps_stmt fun _ hl => ⟨trivial, fun _ => hl⟩

variable (hA : Stable r A)
include hA

theorem keeps_idle (he : e.idle = true) : nodeProtocol.Keeps r A (Prog.stmt e) :=
  keeps_stmt fun _ hl =>
    ⟨NodeMemory.may_idle he, fun a => hA (NodeMemory.le_next he a) hl⟩

theorem idlePieces : Pieces fun p => nodeProtocol.Keeps r A p where
  pure := keeps_pure
  bind := Keeps.bind
  ext _ := keeps_idle hA rfl
  stmt _ he := keeps_idle hA (idle_of_plain he)

theorem keeps_release : nodeProtocol.Keeps r A releaseJobState :=
  (idlePieces hA).releaseJobState (fun _ _ => keeps_idle hA rfl)
    (fun _ he => keeps_idle hA (idle_of_restores he)) (fun _ _ => keeps_idle hA rfl)
    fun _ => keeps_idle hA rfl

theorem keeps_failJob (reason : String) : nodeProtocol.Keeps r A (failJob reason) :=
  (idlePieces hA).failJob (keeps_release hA) reason

end

/-! ## Working on a node -/

/-- The party is not working on a node, and knows those it still has to look at. -/
structure Free (r : Role) (rest : List NodeRow) (l : NodeMemory) : Prop where
  ticking : r = .tick → l.ticking = true
  ahead : l.odd = false → ∀ m ∈ rest, l.knows r m.id = some m.step

/-- The party works on node `n`, which it takes to be in step `s`. -/
structure Working (r : Role) (rest : List NodeRow) (n : NodeRow) (s : NodeStep) (l : NodeMemory) :
    Prop extends Free r rest l where
  owned : owns r s = true
  claimed : l.odd = false → ∀ id, r = .confirmUpgrade id → l.claim = some n.id
  here : l.odd = false → l.knows r n.id = some s
  apart : l.odd = false → ∀ m ∈ rest, m.id ≠ n.id

/-- As `Working`, by a party that may send a reboot and has not done so. -/
structure Unsent (r : Role) (n : NodeRow) (s : NodeStep) (l : NodeMemory) : Prop extends
    Working r [] n s l where
  unsent : l.rebooted = false

section

variable {r : Role} {rest : List NodeRow} {n : NodeRow} {s s' : NodeStep} {l : NodeMemory}

/-- The work of a party that looks at no other node. -/
theorem Working.alone (hticking : r = .tick → l.ticking = true) (hs : owns r s = true)
    (hclaimed : l.odd = false → ∀ id, r = .confirmUpgrade id → l.claim = some n.id)
    (hhere : l.odd = false → l.knows r n.id = some s) : Working r [] n s l :=
  ⟨⟨hticking, by simp⟩, hs, hclaimed, hhere, by simp⟩

theorem stable_free : Stable r (Free r rest) := by
  intro l l' hle h
  refine ⟨fun hr => ?_, fun hodd m hm => hle.knows (h.ahead (hle.odd hodd) m hm)⟩
  rw [hle.ticking]
  exact h.ticking hr

theorem stable_working (hr : ∀ id, r ≠ .confirmUpgrade id) : Stable r (Working r rest n s) := by
  intro l l' hle h
  exact ⟨stable_free hle h.toFree, h.owned, fun _ id h => absurd h (hr id),
    fun hodd => hle.knows (h.here (hle.odd hodd)), fun hodd => h.apart (hle.odd hodd)⟩

theorem stable_unsent (hr : ∀ id, r ≠ .confirmUpgrade id) : Stable r (Unsent r n s) := by
  intro l l' hle h
  refine ⟨stable_working hr hle h.toWorking, ?_⟩
  rw [hle.rebooted]
  exact h.unsent

theorem free : Pieces fun p => nodeProtocol.Keeps r (Free r rest) p := idlePieces stable_free

theorem knows_learn_self (l : NodeMemory) (id : ℕ) (s : NodeStep) :
    (l.learn id s).knows r id = some s := by
  show (Function.update l.known id (some s) id).or _ = some s
  rw [Function.update_self]
  rfl

theorem knows_learn_ne {id id' : ℕ} (h : id' ≠ id) (l : NodeMemory) (s : NodeStep) :
    (l.learn id s).knows r id' = l.knows r id' := by
  show (Function.update l.known id (some s) id').or _ = _
  rw [Function.update_of_ne h]
  rfl

theorem takesOut_not_skip (h : takesOut r s .skipRollingUpdateNode = true) : False := by
  unfold takesOut leads at h
  split_ifs at h with hfails
  · cases hfails
  · split at h <;> simp [NodeUpdate.readies] at h

/-- What a statement that moves the node leaves: it may have failed. -/
def Moved (r : Role) (rest : List NodeRow) (n : NodeRow) (s s' : NodeStep) :
    Except Err ℕ → NodeMemory → Prop
  | .ok _ => Working r rest n s'
  | .error _ => Working r rest n s

variable {u : NodeUpdate} (h : Working r rest n s l) (hout : l.Takes r s u n.id)
include h

theorem Working.learn (s' : NodeStep) : Free r rest (l.learn n.id s') := by
  refine ⟨h.ticking, fun hodd m hm => ?_⟩
  rw [knows_learn_ne (h.apart hodd m hm)]
  exact h.ahead hodd m hm

theorem Working.learn_owned (hs' : owns r s' = true) : Working r rest n s' (l.learn n.id s') :=
  ⟨h.learn s', hs', h.claimed, fun _ => knows_learn_self l _ _, h.apart⟩

theorem Working.sent : Working r rest n s { l with rebooted := true } :=
  ⟨⟨h.ticking, h.ahead⟩, h.owned, h.claimed, h.here, h.apart⟩

include hout

theorem Working.may : l.may r (.db (.updateNode u n.id)) :=
  ⟨fun _ hodd => ⟨h.ticking, h.claimed hodd, s, h.here hodd, hout⟩,
    fun hu => (takesOut_not_skip (hu ▸ hout.1)).elim⟩

theorem follows_move (hu : u.step? = some s') (hs' : owns r s' = true) :
    nodeProtocol.Follows r (updateNode u n.id) (Moved r rest n s s') l := by
  refine ⟨h.may hout, fun a => ?_⟩
  cases a with
  | error e => exact h
  | ok k =>
    show Working r rest n s' (l.move u n.id)
    unfold NodeMemory.move
    rw [hu]
    exact h.learn_owned hs'

theorem follows_end : nodeProtocol.Follows r (updateNode u n.id) (fun _ => Free r rest) l := by
  refine ⟨h.may hout, fun a => ?_⟩
  cases a with
  | error e => exact h.toFree
  | ok k =>
    show Free r rest (l.move u n.id)
    unfold NodeMemory.move
    split
    · exact h.learn _
    · exact h.toFree

theorem follows_end_ : nodeProtocol.Follows r (updateNode_ u n.id) (fun _ => Free r rest) l :=
  (follows_end h hout).seq fun _ _ h' => h'

omit hout in
theorem follows_failNode (reason : String) :
    nodeProtocol.Follows r (failNode n reason) (fun _ => Free r rest) l := by
  refine (calls.shuttingDown l h).seq fun down l₁ h₁ => ?_
  split_ifs
  · exact h₁.toFree
  · refine (follows_end (u := .failRollingUpdateNode reason) h₁ ⟨h₁.owned, fun _ => nofun⟩).seq
      fun a l₂ h₂ => ?_
    split
    · exact h₂
    · exact keeps_failJob stable_free _ l₂ h₂

end

/-! ## The tick's functions -/

section

variable {rest : List NodeRow} {n : NodeRow} {l : NodeMemory} {s : NodeStep}

theorem stable_tick : Stable .tick (Working .tick rest n s) :=
  stable_working fun _ h => by cases h

theorem follows_disableForDrain (rules : List DisabledHARule) (h : Working .tick rest n s l) :
    nodeProtocol.Follows .tick (disableForDrain n rules) (fun proceed l' => match proceed with
      | true => Working .tick rest n s l' | false => Free .tick rest l') l := by
  have hw : Pieces fun p => nodeProtocol.Keeps .tick (Working .tick rest n s) p :=
    idlePieces stable_tick
  have hrecord := hw.recordJobDisabledHARules (fun _ => keeps_idle stable_tick rfl) rules
  have hoff := hw.each
    (f := fun r : DisabledHARule => do let _ ← px (.setHARuleDisabled r.rule r.type true))
    (fun _ => hw.map (keeps_idle stable_tick rfl)) rules
  unfold disableForDrain
  split_ifs
  · exact h
  · refine (hrecord l h).seq fun a l₁ h₁ => ?_
    cases a with
    | error e => exact (follows_failNode h₁ _).seq fun _ _ h₂ => h₂
    | ok u =>
      refine (hoff l₁ h₁).seq fun _ l₂ h₂ => (hrecord l₂ h₂).seq fun _ l₃ h₃ => ?_
      refine (hw.jobStatus l₃ h₃).seq fun status l₄ h₄ => ?_
      split
      · exact h₄
      · exact (keeps_release stable_free l₄ h₄.toFree).seq fun _ _ h₅ => h₅
      · exact h₄.toFree

/-- What a stage of the tick's work on a node means. -/
def Stage.Holds (rest : List NodeRow) (n : NodeRow) : Stage → NodeMemory → Prop
  | .working S => fun l => ∃ s, S s ∧ Working .tick rest n s l
  | .again => fun l => Working .tick rest n .restoring l ∧ (l.odd = false → l.again n.id = true)
  | .free => Free .tick rest

theorem stable_holds : ∀ st : Stage, Stable .tick (st.Holds rest n)
  | .working _ => fun hle ⟨s, hs, h⟩ => ⟨s, hs, stable_tick hle h⟩
  | .again => fun hle h => ⟨stable_tick hle h.1, fun hodd => hle.again (h.2 (hle.odd hodd))⟩
  | .free => stable_free

theorem Stage.Holds.le {st st' : Stage} (h : st.Holds rest n l) (hle : st.Le st') :
    st'.Holds rest n l := by
  cases st' with
  | free =>
    cases st with
    | free => exact h
    | again => exact h.1.toFree
    | working S => exact h.choose_spec.2.toFree
  | again => cases st <;> cases hle
  | working S' =>
    cases st with
    | free => cases hle
    | again => exact ⟨.restoring, hle, h.1⟩
    | working S => exact ⟨h.choose, hle _ h.choose_spec.1, h.choose_spec.2⟩

/-- The party has listed the job and these nodes. -/
def NodeMemory.Lists (job : JobRow) (rows : List NodeRow) (l : NodeMemory) : Prop :=
  ∀ m ∈ rows, m ∈ l.rows ∧ job ∈ l.jobs

theorem lists_next {job : JobRow} {rows : List NodeRow} {r : Role} {l : NodeMemory} (e : Stmt) :
    ∀ a, l.Lists job rows → (l.next r e a).Lists job rows := by
  unfold NodeMemory.next
  split <;> intro a h
  all_goals first | exact h | (cases a <;> first | exact h | skip)
  · exact fun m hm => ⟨(h m hm).1, List.mem_append_right _ (h m hm).2⟩
  · exact fun m hm => ⟨List.mem_append_right _ (h m hm).1, (h m hm).2⟩
  · simp only [NodeMemory.move]
    split <;> exact h

/-- The tick moves each node from the step it has taken it up in, and begins a restore again only
when the clock asks for it. -/
theorem nodeWalk (job : JobRow) (rows : List NodeRow) (hn : n.step = .restoring → n ∈ rows) :
    Walk job n fun {α} st p (post : α → Stage) => ∀ l, l.Lists job rows → st.Holds rest n l →
      nodeProtocol.Follows .tick p (fun a => (post a).Holds rest n) l where
  pieces st :=
    { pure := fun a l _ hl => hl
      bind := fun hp hf l hlists hl =>
        ((hp l hlists hl).frame lists_next hlists).seq fun a l' h => hf a l' h.2 h.1
      ext := fun q l _ => (idlePieces (stable_holds st)).ext q l
      stmt := fun e he l _ => (idlePieces (stable_holds st)).stmt e he l }
  pure _ hle _ _ hl := hl.le hle
  bind hp hf l hlists hl :=
    ((hp l hlists hl).frame lists_next hlists).seq fun a l' h => hf a l' h.2 h.1
  release st l _ := keeps_release (stable_holds st) l
  stopped st _ l _ := keeps_idle (stable_holds st) rfl l
  fail S reason l _ := by
    rintro ⟨s, -, h⟩
    exact follows_end h ⟨h.owned, fun _ => nofun⟩
  look hstep l hlists := by
    rintro ⟨_, rfl, h⟩
    refine ⟨trivial, fun now => ?_⟩
    have h' := stable_tick (NodeMemory.le_next (e := .now) rfl now) h
    show (if begunAgain job n now then Stage.again else _).Holds rest n _
    split_ifs with hagain
    · obtain ⟨hrow, hjob⟩ := hlists n (hn hstep)
      refine ⟨h', fun _ => Bool.or_eq_true_iff.mpr (.inr (List.any_eq_true.mpr ⟨n, hrow, ?_⟩))⟩
      simpa [hstep] using ⟨job, hjob, hagain⟩
    · exact ⟨_, rfl, h'⟩
  begins {st u s} hbegins l _ hl := by
    have hfollows : ∀ s₀, Working .tick rest n s₀ l → l.Takes .tick s₀ u n.id → u.step? = some s →
        owns .tick s = true →
        nodeProtocol.Follows .tick (updateNode u n.id) (fun a => (Stage.moved s a).Holds rest n) l := by
      refine fun s₀ h hout hu hs => (follows_move h hout hu hs).mono fun a l' h' => ?_
      cases a with
      | ok k => exact ⟨s, rfl, h'⟩
      | error e => exact h'.toFree
    cases hbegins with
    | drain => obtain ⟨_, rfl, h⟩ := hl; exact hfollows _ h ⟨rfl, nofun⟩ rfl rfl
    | restore => obtain ⟨_, rfl, h⟩ := hl; exact hfollows _ h ⟨rfl, nofun⟩ rfl rfl
    | again => exact hfollows _ hl.1 ⟨rfl, fun _ _ => hl.2⟩ rfl rfl
  leave hu hout l _ := by
    rintro ⟨s, hs, h⟩
    refine follows_end h ⟨hout s hs, ?_⟩
    rintro - rfl
    cases hu
  disableForDrain S rules l _ := by
    rintro ⟨s, hs, h⟩
    refine (follows_disableForDrain rules h).mono fun proceed l' h' => ?_
    cases proceed with
    | true => exact ⟨s, hs, h'⟩
    | false => exact h'

theorem owns_automatic (h : s.automatic = true) : owns .tick s = true := by
  cases s <;> first | rfl | cases h

/-- The loop over the nodes: each is worked on in turn, from the row it was listed with. -/
theorem follows_advanceAll (job : JobRow) {nodes : List NodeRow}
    (hnodup : (nodes.map (·.id)).Nodup) (h : Free .tick nodes l) (hlists : l.Lists job nodes) :
    nodeProtocol.Follows .tick (Prog.each (advanceNode job) nodes) (fun _ => Free .tick []) l := by
  induction nodes generalizing l with
  | nil => exact h
  | cons n nodes ih =>
    rw [List.map_cons, List.nodup_cons] at hnodup
    obtain ⟨hnew, hnodup⟩ := hnodup
    have hfree : Free .tick nodes l :=
      ⟨h.ticking, fun hodd m hm => h.ahead hodd m (.tail _ hm)⟩
    have hnode : nodeProtocol.Follows .tick (advanceNode job n) (fun _ => Free .tick nodes) l := by
      by_cases hauto : n.step.automatic = true
      · refine (nodeWalk job (n :: nodes) fun _ => .head _).advanceNode hauto l hlists
          ⟨n.step, rfl, hfree, owns_automatic hauto, nofun, fun hodd => ?_, fun _ m hm hid => hnew ?_⟩
        · exact h.ahead hodd n (.head _)
        · exact hid ▸ List.mem_map_of_mem hm
      · unfold advanceNode
        rwa [if_neg hauto]
    refine (hnode.frame lists_next hlists).seq fun _ _ h₁ => ih hnodup h₁.1 fun m hm => ?_
    exact h₁.2 m (.tail _ hm)

end

/-! ## Whole parties -/

section

variable {α : Type} {r : Role} {l : NodeMemory}

theorem odd_next (h : l.odd = true) {e : Stmt} : ∀ a, (l.next r e a).odd = true := by
  unfold NodeMemory.next
  split <;> intro a <;> first | exact h | (cases a <;> first | simp [h])
  simp only [NodeMemory.move]
  split <;> exact h

theorem follows_odd (p : Code α) (h : l.odd = true) :
    nodeProtocol.Follows r p (fun _ l' => l'.odd = true) l := by
  induction p generalizing l with
  | pure a => exact h
  | call e k ih =>
    refine ⟨?_, fun a => ih a (odd_next h a)⟩
    show NodeMemory.may r l e
    unfold NodeMemory.may
    split <;> simp [h]

/-- Code that moves no node can be run at any time. -/
theorem anyTime : Pieces fun p => nodeProtocol.Keeps r (fun _ => True) p :=
  idlePieces fun _ _ => trivial

theorem keeps_release_anyTime : nodeProtocol.Keeps r (fun _ => True) releaseJobState :=
  keeps_release fun _ _ => trivial

theorem follows_pauseBalancers (job : JobRow) :
    nodeProtocol.Follows r (pauseBalancers job) (fun _ l' => l' = l) l := by
  simp [pauseBalancers, disableDRSIfEnabled, pauseNativeCRSIfActive, onlyIf, db, px, ext, updateJob,
    Prog.forall_except, NodeMemory.may, NodeMemory.next]

/-- The leader has not given up its turn. -/
def Turn (l : NodeMemory) : Prop := l.odd = false → l.ticking = true

theorem stable_turn : Stable r Turn := fun hle h hodd => hle.ticking.trans (h (hle.odd hodd))

theorem Free.turn {rest : List NodeRow} (h : Free .tick rest l) : Turn l := fun _ => h.ticking rfl

theorem follows_odd_turn (p : Code α) (h : l.odd = true) :
    nodeProtocol.Follows r p (fun _ => Turn) l :=
  (follows_odd p h).mono fun _ _ h hodd => by rw [h] at hodd; cases hodd

theorem follows_startNext (job : JobRow) (activeCount : ℕ) (h : Free .tick [] l) :
    nodeProtocol.Follows .tick (startNext job activeCount) (fun _ => Turn) l := by
  unfold startNext
  split_ifs
  · refine follows_stmt trivial (Prog.forall_except.mpr ⟨fun _ => h.turn, fun node => ?_⟩)
    by_cases hstep : node.step = .pending
    · refine Follows.mono (fun _ _ h' => Free.turn h') ((nodeWalk job [] fun hr => ?_).startNode _ nofun
        ⟨_, rfl, .alone (fun _ => h.ticking rfl) rfl nofun fun _ => ?_⟩)
      · cases hstep.symm.trans hr
      · rw [← hstep]
        exact knows_learn_self l node.id node.step
    · refine follows_odd_turn _ ?_
      show (l.odd || decide _) = true
      rw [decide_eq_true hstep]
      exact Bool.or_true _
  · exact h.turn

theorem keeps_finishJob : nodeProtocol.Keeps r Turn finishJob :=
  (idlePieces stable_turn).finishJob (keeps_release stable_turn)

theorem follows_processJob (job : JobRow) (hjob : job ∈ l.jobs) (hticking : l.ticking = true)
    (hknown : l.known = fun _ => none) :
    nodeProtocol.Follows .tick (processJob job) (fun _ => Turn) l := by
  refine (follows_pauseBalancers job).seq fun ready l' hl' => ?_
  subst hl'
  split_ifs
  · refine follows_stmt trivial (Prog.forall_except.mpr ⟨fun _ _ => hticking, fun rows => ?_⟩)
    by_cases hnodup : (rows.map (·.id)).Nodup
    · have hfree : Free .tick rows (l'.next .tick (.db .listRollingUpdateNodes) (.ok rows)) := by
        refine ⟨fun _ => hticking, fun _ m hm => ?_⟩
        show (((l'.known m.id).or none).or ((rows.find? (·.id = m.id)).map (·.step))).or none = _
        rw [hknown, find?_of_nodup hnodup hm]
        rfl
      refine (follows_advanceAll job hnodup hfree fun m hm =>
        ⟨List.mem_append_left _ hm, hjob⟩).seq fun _ l₁ h₁ => ?_
      refine (free.failIfNodeFailed (keeps_release stable_free) rows l₁ h₁).seq fun failed l₂ h₂ => ?_
      split_ifs
      · exact h₂.turn
      · refine (free.stmt (.db .countActiveNodes) rfl l₂ h₂).seq fun a l₃ h₃ => ?_
        cases a with
        | error e => exact h₃.turn
        | ok k => exact (follows_startNext job k h₃).seq fun _ => keeps_finishJob
    · refine follows_odd_turn _ ?_
      show (l'.odd || !decide _) = true
      rw [decide_eq_false hnodup]
      exact Bool.or_true _
  · exact fun _ => hticking

theorem follows_tick (hticking : l.ticking = true) (hknown : l.known = fun _ => none) :
    nodeProtocol.Follows .tick tick (fun _ => Turn) l := by
  have hsweep : nodeProtocol.Keeps .tick Turn sweepPendingCleanups :=
    (idlePieces stable_turn).sweepPendingCleanups (keeps_release stable_turn)
  refine follows_stmt trivial (Prog.forall_except.mpr ⟨fun _ _ => hticking, fun jobs => ?_⟩)
  match jobs with
  | [] => exact hsweep _ fun _ => hticking
  | [job] =>
    refine Follows.seq ?_ fun _ l' h' => hsweep l' h'
    exact (follows_processJob (l := l.next .tick (.db .listRunningRollingUpdateJobs) (.ok [job]))
      job (.head _) hticking hknown).seq fun _ _ h' => h'
  | _ :: _ :: _ =>
    -- there is only one job
    refine follows_odd_turn _ ?_
    show (l.odd || decide _) = true
    exact Bool.or_true _

theorem follows_leaderTick : nodeProtocol.Follows .tick leaderTick (fun _ _ => True) {} := by
  refine follows_stmt (fun _ => rfl) fun _ => ?_
  exact (follows_tick rfl rfl).seq fun _ _ h => ⟨h, fun _ => trivial⟩

/-! ## The goroutine of an upgrade -/

section

variable {job job' : JobRow} {n : NodeRow} {host host' : String}

theorem stable_upgrading {s : NodeStep} :
    Stable (.sshUpgrade job n host) (Unsent (.sshUpgrade job n host) n s) :=
  stable_unsent fun _ h => by cases h

/-- What the stages of an upgrade mean. -/
def Attempt.Upgrading (job : JobRow) (n : NodeRow) (host : String) : Attempt → NodeMemory → Prop
  | .begun | .ready => Unsent (.sshUpgrade job n host) n .upgrading
  | .recorded => Unsent (.sshUpgrade job n host) n .rebooting
  | .sent => Working (.sshUpgrade job n host) [] n .rebooting
  | .over => fun _ => True

/-- What the stages of a confirmation mean: the request has read the node it is about. -/
def Attempt.Confirming (id : ℕ) (n : NodeRow) : Attempt → NodeMemory → Prop
  | .begun | .ready => fun l =>
    Unsent (.confirmUpgrade id) n .awaitingUpgrade l ∧ (l.odd = false → n.id = id)
  | .sent => Working (.confirmUpgrade id) [] n .awaitingUpgrade
  | .recorded => fun l => ∃ s, Working (.confirmUpgrade id) [] n s l
  | .over => fun _ => True

theorem nodeAttended {holds : Attempt → NodeMemory → Prop} (hover : ∀ l, holds .over l)
    (hworking : ∀ st l, st ≠ .over → holds st l → ∃ s, Working r [] n s l) :
    Attended n fun {α} st p (post : α → Attempt) =>
      ∀ l, holds st l → nodeProtocol.Follows r p (fun a => holds (post a)) l where
  calls _ := calls
  bind hp hf l hl := (hp l hl).seq fun a l' hl' => hf a l' hl'
  pure {_ st post} a hpost l hl := by
    show holds (post a) l
    rcases hpost with heq | heq
    · exact heq ▸ hl
    · exact heq ▸ hover l
  fail st reason hst l hl := by
    obtain ⟨s, hs⟩ := hworking st l hst hl
    exact (follows_failNode hs reason).mono fun _ _ _ => hover _

theorem nodeUpgrades : Upgrades n fun {α} st p (post : α → Attempt) => ∀ l, st.Upgrading job n host l →
    nodeProtocol.Follows (.sshUpgrade job n host) p (fun a => (post a).Upgrading job n host) l where
  toAttended := by
    refine nodeAttended (fun _ => trivial) fun st l hst hl => ?_
    cases st with
    | begun | ready | recorded => exact ⟨_, hl.toWorking⟩
    | sent => exact ⟨_, hl⟩
    | _ => exact absurd rfl hst
  output := (idlePieces stable_upgrading).updateNode_ _ _ rfl
  check l hl := by
    refine ((idlePieces stable_upgrading).isJobCancelled l hl).mono fun cancelled l' hl' => ?_
    cases cancelled with
    | true => trivial
    | false => exact hl'
  completed l hl := by
    refine ⟨hl.may ⟨rfl, nofun⟩, fun a => ?_⟩
    cases a with
    | error e => trivial
    | ok k => exact ⟨hl.toWorking.learn_owned rfl, hl.unsent⟩
  send l hl := by
    refine ⟨fun hodd => ⟨hl.unsent, ?_⟩, fun _ => hl.toWorking.sent⟩
    rcases Option.or_eq_some_iff.mp (hl.here hodd) with hknown | ⟨-, hassigned⟩
    · exact hknown
    · simp [Role.assigned] at hassigned
  leave u hu l hl := by
    refine (follows_end_ hl.toWorking ⟨?_, nofun⟩).mono fun _ _ _ => trivial
    rcases hu with rfl | rfl <;> rfl

end

/-! ## The request that confirms an upgrade -/

section

variable {id : ℕ} {job : JobRow} {n : NodeRow}

theorem nodeConfirms : Confirms n fun {α} st p (post : α → Attempt) => ∀ l, st.Confirming id n l →
    nodeProtocol.Follows (.confirmUpgrade id) p (fun a => (post a).Confirming id n) l where
  toAttended := by
    refine nodeAttended (fun _ => trivial) fun st l hst hl => ?_
    cases st with
    | begun | ready => exact ⟨_, hl.1.toWorking⟩
    | recorded => exact hl
    | sent => exact ⟨_, hl⟩
    | _ => exact absurd rfl hst
  -- recording the confirmation is not a move
  confirm l hl := ⟨⟨nofun, nofun⟩, fun a => by cases a <;> exact hl⟩
  send l hl := by
    refine ⟨fun hodd => ⟨hl.1.unsent, ?_, ?_⟩, fun _ => hl.1.toWorking.sent⟩
    · rw [hl.1.claimed hodd id rfl, hl.2 hodd]
    · have hhere := hl.1.here hodd
      rw [hl.2 hodd] at hhere
      unfold NodeMemory.knows at hhere
      simpa [Role.assigned] using hhere
  record l hl := by
    refine (follows_move hl ⟨rfl, nofun⟩ rfl rfl).mono fun a l' hl' => ?_
    cases a with
    | ok k | error e => exact ⟨_, hl'⟩
  leave u hu l hl := by
    refine (follows_end hl.1.toWorking ⟨?_, nofun⟩).mono fun _ _ _ => trivial
    rcases hu with rfl | rfl <;> rfl

theorem follows_handleConfirmUpgrade :
    nodeProtocol.Follows (.confirmUpgrade id) (handleConfirmUpgrade id) (fun _ _ => True) {} := by
  have hrespond : ∀ status message l, nodeProtocol.Follows (.confirmUpgrade id)
      (respond status message) (fun _ _ => True) l :=
    fun status message l => anyTime.respond status message l trivial
  refine follows_stmt trivial (Prog.forall_except.mpr ⟨fun _ => hrespond _ _ _, fun job => ?_⟩)
  refine follows_stmt trivial (Prog.forall_except.mpr ⟨fun _ => hrespond _ _ _, fun n => ?_⟩)
  have hconfirm : nodeProtocol.Follows (.confirmUpgrade id) (confirmUpgrade job n) (fun _ _ => True)
      (NodeMemory.next (.confirmUpgrade id) {} (.db (.getRollingUpdateNode id)) (.ok n)) := by
    by_cases hstep : n.step = .awaitingUpgrade
    swap
    · unfold confirmUpgrade
      rw [if_pos hstep]
      trivial
    have hid : (false || decide (n.id ≠ id)) = false → n.id = id := by simp
    refine (nodeConfirms.confirmUpgrade job _
      ⟨⟨.alone nofun rfl (fun hodd _ _ => ?_) fun hodd => ?_, rfl⟩, hid⟩).mono fun _ _ _ => trivial
    · exact (if_pos ⟨rfl, rfl, hstep⟩).trans (congrArg some (hid hodd).symm)
    · show Option.or (Function.update (fun _ => none) id (some n.step) n.id) none = _
      rw [hid hodd, Function.update_self, hstep]
      rfl
  refine hconfirm.seq fun a l' _ => ?_
  split <;> exact hrespond _ _ _

end

end

/-! ## The request that skips a node -/

section

variable {r : Role} (hr : ∀ id, r ≠ .confirmUpgrade id)
include hr

theorem claim_next {l : NodeMemory} (h : l.claim = none) (e : Stmt) : ∀ a, (l.next r e a).claim =
    none := by
  unfold NodeMemory.next
  split <;> intro a <;> first | exact h | (cases a <;> first | exact h | simp [h, hr]) | skip
  · simp only [NodeMemory.move]
    split <;> exact h
  · simp [NodeMemory.answer, h]

theorem unclaimed : Pieces fun p => nodeProtocol.Keeps r (fun l => l.claim = none) p where
  pure := keeps_pure
  bind := Keeps.bind
  ext q := keeps_stmt fun _ hl => ⟨trivial, claim_next hr hl (.ext q)⟩
  stmt _ he := keeps_stmt fun _ hl =>
    ⟨NodeMemory.may_idle (idle_of_plain he), claim_next hr hl _⟩

end

theorem nodes_followed : nodeProtocol.Followed fun _ => True := by
  intro r
  cases hmoves : r.moves with
  | false => exact anyTime.codeAside keeps_release_anyTime hmoves {} trivial
  | true =>
    cases r with
    | tick => exact follows_leaderTick
    | sshUpgrade job node host =>
      refine nodeUpgrades.runSSHUpgrade job host _
        ⟨.alone nofun rfl nofun fun _ => ?_, rfl⟩
      show (none : Option NodeStep).or (if node.id = node.id then some .upgrading else none) = _
      rw [if_pos rfl]
      rfl
    | confirmUpgrade id => exact follows_handleConfirmUpgrade
    | skipNode id =>
      have hr : ∀ id', Role.skipNode id ≠ .confirmUpgrade id' := nofun
      refine ((unclaimed hr).handleSkipNode ?_ {} rfl).mono fun _ _ _ => trivial
      exact keeps_stmt fun l hl =>
        ⟨⟨nofun, fun _ _ => hl⟩,
          claim_next hr hl (.db (.updateNode .skipRollingUpdateNode id))⟩
    | _ => cases hmoves

end Nexara.Rolling
