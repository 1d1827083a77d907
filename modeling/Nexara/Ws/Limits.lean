import Nexara.Ws.Hub

/-!
# The hub's limit and its dead

A subscribe request registers a client that is not in the client set, without a look at the limit.
Since requests travel through different channels, the client may have been rejected, or its
unregister handled already; it is then in the set and in a room for good
(`rejected_and_dead_in_room`). `Orderly` are the runs in which that does not happen.
-/

namespace Nexara.Ws

open Conc Protocol System

/-! ## What the hub's operations keep -/

theorem mem_delete {α : Type} [DecidableEq α] {set : List α} {x y : α} :
    y ∈ delete set x ↔ y ∈ set ∧ y ≠ x := by simp [delete]

structure HubState.Sound (st : HubState) (max : ℕ) : Prop where
  limit : st.clients.length ≤ max
  member : ∀ room c, c ∈ st.rooms room → c ∈ st.clients ∧ room ∈ st.clientRooms c

/-- Nothing that was sound is lost, and no client is added. -/
structure HubState.Kept (st st' : HubState) : Prop where
  sound : ∀ max, st.Sound max → st'.Sound max
  subset : ∀ c ∈ st'.clients, c ∈ st.clients

variable {st st' st'' : HubState}

theorem HubState.Kept.refl (st : HubState) : st.Kept st := ⟨fun _ h => h, fun _ h => h⟩

theorem HubState.Kept.trans (h : st.Kept st') (h' : st'.Kept st'') : st.Kept st'' :=
  ⟨fun max hs => h'.sound max (h.sound max hs), fun c hc => h.subset c (h'.subset c hc)⟩

theorem HubState.kept_foldl {α : Type} {f : HubState → α → HubState}
    (hf : ∀ (st : HubState) x, st.Kept (f st x)) : ∀ (xs : List α) (st : HubState), st.Kept (xs.foldl f st)
  | [], st => .refl st
  | x :: xs, st => (hf st x).trans (kept_foldl hf xs (f st x))

section

variable (st : HubState) (c : ℕ)

theorem HubState.removeClient_kept : st.Kept (st.removeClient c) := by
  unfold removeClient
  split_ifs with hc
  · refine ⟨fun max h => ⟨?_, fun room c' hmem => ?_⟩, fun c' hc' => (mem_delete.1 hc').1⟩
    · exact Nat.le_trans (List.length_filter_le _ _) h.limit
    · dsimp only at hmem ⊢
      -- a room of the client no longer has it, and the client is in no other room
      have hboth : c' ∈ st.rooms room ∧ c' ≠ c := by
        split_ifs at hmem with hroom
        · exact mem_delete.1 hmem
        · refine ⟨hmem, ?_⟩
          rintro rfl
          exact hroom (h.member room c' hmem).2
      obtain ⟨hin, hne⟩ := hboth
      obtain ⟨hclient, hrooms⟩ := h.member room c' hin
      rw [if_neg hne]
      exact ⟨mem_delete.2 ⟨hclient, hne⟩, hrooms⟩
  · exact .refl st

theorem HubState.not_mem_removeClient : c ∉ (st.removeClient c).clients := by
  unfold removeClient
  split_ifs with hc
  · exact fun h => (mem_delete.1 h).2 rfl
  · exact hc

theorem HubState.trySendOrEvict_kept (accepts : Bool) : st.Kept (st.trySendOrEvict c accepts) := by
  unfold trySendOrEvict
  split_ifs
  · exact .refl st
  · exact st.removeClient_kept c
  · exact .refl st

end

theorem HubState.subscribe_kept {c : ℕ} {channel : String} {buffers : Buffers}
    (hc : c ∈ st.clients) : st.Kept (st.subscribe c channel buffers) := by
  have hjoin : st.Kept { st with
      clients := st.clients.insert c
      rooms := fun room =>
        if room = channel then (st.rooms room).insert c else st.rooms room
      clientRooms := fun c' =>
        if c' = c then (st.clientRooms c').insert channel else st.clientRooms c' } := by
    rw [List.insert_of_mem hc]
    refine ⟨fun max h => ⟨h.limit, fun room c' hmem => ?_⟩, fun _ h => h⟩
    dsimp only at hmem ⊢
    have hcases : (c' = c ∧ room = channel) ∨ c' ∈ st.rooms room := by
      split_ifs at hmem with hroom
      · exact (List.mem_insert_iff.1 hmem).imp_left fun h => ⟨h, hroom⟩
      · exact .inr hmem
    obtain ⟨rfl, rfl⟩ | hin := hcases
    · rw [if_pos rfl]
      exact ⟨hc, List.mem_insert_self⟩
    · obtain ⟨hclient, hrooms⟩ := h.member room c' hin
      refine ⟨hclient, ?_⟩
      split_ifs
      · exact List.mem_insert_of_mem hrooms
      · exact hrooms
  unfold subscribe
  dsimp only
  refine hjoin.trans ((trySendOrEvict_kept _ c (buffers.message c)).trans ?_)
  split
  · exact trySendOrEvict_kept _ c buffers.cached
  · exact .refl _

theorem HubState.unsubscribe_kept (st : HubState) (c : ℕ) (channel : String) :
    st.Kept (st.unsubscribe c channel) := by
  refine ⟨fun max h => ⟨h.limit, fun room c' hmem => ?_⟩, fun _ h => h⟩
  replace hmem : c' ∈ (if room = channel then delete (st.rooms room) c else st.rooms room) := hmem
  show c' ∈ st.clients ∧
    room ∈ if c' = c then delete (st.clientRooms c') channel else st.clientRooms c'
  split_ifs at hmem with hroom
  · obtain ⟨hin, hne⟩ := mem_delete.1 hmem
    rw [if_neg hne]
    exact h.member room c' hin
  · obtain ⟨hclient, hrooms⟩ := h.member room c' hmem
    refine ⟨hclient, ?_⟩
    split_ifs
    · exact mem_delete.2 ⟨hrooms, hroom⟩
    · exact hrooms

theorem HubState.broadcast_kept (st : HubState) (room payload : String) (buffers : Buffers) :
    st.Kept (st.broadcast room payload buffers) := by
  have hcache : st.Kept { st with
      lastMsg := fun room' => if room' = room then some payload else st.lastMsg room' } :=
    ⟨fun _ h => ⟨h.limit, h.member⟩, fun _ h => h⟩
  exact hcache.trans (kept_foldl (fun st c => st.trySendOrEvict_kept c (buffers.message c)) _ _)

/-! ## Conditions on runs -/

def handled : hub.Entry → Option Handled
  | ⟨_, _, .turn, h, _⟩ => some h
  | _ => none

def happened (h : Handled) (log : hub.Log) : Bool := log.any fun en => handled en = some h

/-- A subscribe is handled for a client in the set, and a register before the client's
unregister. -/
def Orderly : hub.Cond := fun log _ _ e o w =>
  match e, o with
  | .turn, (.register, _) => w.registerCh.head?.all fun c => !happened (.unregistered c) log
  | .turn, (.subscribe, _) => w.subscribeCh.head?.all fun req => req.1 ∈ w.hub.clients
  | _, _ => true

/-! ## Clients register once -/

def registers : Protocol hub where
  Loc := Bool
  init := false
  next _ l e _ := match e with
    | .register => true
    | _ => l
  may
    | .client _, l, e => match e with
      | .register => l = false
      | .turn | .broadcast .. => False
      | _ => True
    | .publish room payload, _, e => e = .broadcast room payload
    | .loop, _, e => e = .turn

theorem registers_followed : registers.Followed fun _ => True := by
  intro r
  cases r with
  | client messages =>
    refine follows_stmt rfl fun _ => ?_
    have hall : (Prog.each handleMessage messages).All fun e : Stmt =>
        e ≠ .register ∧ e ≠ .turn ∧ ∀ room payload, e ≠ .broadcast room payload := by
      refine Prog.All.each (fun msg => ?_) messages
      cases msg with
      | ping | other => trivial
      | subscribe channels =>
        refine Prog.All.each (fun ch => ?_) channels
        refine ⟨⟨nofun, nofun, nofun⟩, fun ok => ?_⟩
        cases ok with
        | true => exact ⟨⟨nofun, nofun, nofun⟩, fun _ => trivial⟩
        | false => trivial
      | unsubscribe channels =>
        refine Prog.All.each (fun ch => ?_) channels
        exact ⟨⟨nofun, nofun, nofun⟩, fun _ => trivial⟩
    have hkeeps : registers.Keeps (.client messages) (fun l => l = true)
        (Prog.each handleMessage messages) := by
      refine keeps_of_all (fun e he l hl => ?_) hall
      subst hl
      cases e with
      | register => exact absurd rfl he.1
      | turn => exact absurd rfl he.2.1
      | broadcast room payload => exact absurd rfl (he.2.2 room payload)
      | unregister | canSubscribe | subscribe | unsubscribe => exact ⟨trivial, fun _ => rfl⟩
    refine (hkeeps true rfl).seq ?_
    rintro _ _ rfl
    exact ⟨trivial, fun _ => trivial⟩
  | publish room payload | loop => exact ⟨rfl, fun _ => trivial⟩

def sent (c : ℕ) (log : hub.Log) : Bool := registers.loc c log

/-! ## The invariant -/

def answered (c : ℕ) (log : hub.Log) : Bool :=
  happened (.registered c) log || happened (.rejected c) log

structure Inv (max : ℕ) (log : hub.Log) (w : World) : Prop where
  maxConnections : w.maxConnections = max
  sound : w.hub.Sound max
  sent : ∀ c, c ∈ w.registerCh ∨ answered c log = true → sent c log = true
  queued : w.registerCh.Nodup ∧ ∀ c ∈ w.registerCh, answered c log = false
  clients : ∀ c ∈ w.hub.clients, answered c log = true
  gone : ∀ c, happened (.rejected c) log = true ∨ happened (.unregistered c) log = true →
    c ∉ w.hub.clients

variable {log : hub.Log} {w w' : World} {i : ℕ} {r : Role} {max : ℕ}

theorem happened_cons {h : Handled} {en : hub.Entry} :
    happened h (en :: log) = (decide (handled en = some h) || happened h log) := rfl

theorem happened_turn {h h' : Handled} :
    happened h (⟨i, r, .turn, h', w⟩ :: log) = (decide (h' = h) || happened h log) := by
  rw [happened_cons]
  simp [handled]

section

variable {e : Stmt} {a : e.Ans}

theorem happened_quiet {h : Handled} (he : e ≠ .turn) :
    happened h (⟨i, r, e, a, w⟩ :: log) = happened h log := by
  rw [happened_cons]
  cases e with
  | turn => exact absurd rfl he
  | _ => simp [handled]

theorem sent_of_quiet (he : e ≠ .register) (c : ℕ) :
    sent c (⟨i, r, e, a, w⟩ :: log) = sent c log := by
  by_cases hc : c = i
  · subst hc
    refine (loc_self c r e a w log).trans ?_
    cases e with
    | register => exact absurd rfl he
    | _ => rfl
  · exact loc_ne (Ne.symm hc) r e a w log

theorem Inv.send (h : Inv max log w) (he : e ≠ .turn) (he' : e ≠ .register)
    (hmax : w'.maxConnections = w.maxConnections) (hhub : w'.hub = w.hub)
    (hqueue : w'.registerCh = w.registerCh) : Inv max (⟨i, r, e, a, w⟩ :: log) w' := by
  have hanswered : ∀ c, answered c (⟨i, r, e, a, w⟩ :: log) = answered c log := by
    intro c
    unfold answered
    rw [happened_quiet he, happened_quiet he]
  constructor
  · rw [hmax]; exact h.maxConnections
  · rw [hhub]; exact h.sound
  · intro c
    rw [hqueue, hanswered, sent_of_quiet he']
    exact h.sent c
  · rw [hqueue]
    refine ⟨h.queued.1, fun c hc => ?_⟩
    rw [hanswered]
    exact h.queued.2 c hc
  · rw [hhub]
    intro c hc
    rw [hanswered]
    exact h.clients c hc
  · intro c
    rw [happened_quiet he, happened_quiet he, hhub]
    exact h.gone c

end

theorem Inv.turn {handled' : Handled} (h : Inv max log w)
    (hmax : w'.maxConnections = w.maxConnections) (hkept : w.hub.Kept w'.hub)
    (hqueue : w'.registerCh = w.registerCh)
    (hquiet : ∀ c, handled' ≠ .registered c ∧ handled' ≠ .rejected c)
    (hgone : ∀ c, handled' = .unregistered c → c ∉ w'.hub.clients) :
    Inv max (⟨i, r, .turn, handled', w⟩ :: log) w' := by
  have hanswered : ∀ c, answered c (⟨i, r, .turn, handled', w⟩ :: log) = answered c log := by
    intro c
    unfold answered
    rw [happened_turn, happened_turn, decide_eq_false (hquiet c).1, decide_eq_false (hquiet c).2]
    rfl
  constructor
  · rw [hmax]; exact h.maxConnections
  · exact hkept.sound max h.sound
  · intro c
    rw [hqueue, hanswered, sent_of_quiet (e := .turn) nofun]
    exact h.sent c
  · rw [hqueue]
    refine ⟨h.queued.1, fun c hc => ?_⟩
    rw [hanswered]
    exact h.queued.2 c hc
  · intro c hc
    rw [hanswered]
    exact h.clients c (hkept.subset c hc)
  · intro c hc hmem
    rw [happened_turn, happened_turn, decide_eq_false (hquiet c).2, Bool.false_or,
      Bool.or_eq_true, decide_eq_true_eq] at hc
    obtain hrej | hun | hun := hc
    · exact h.gone c (.inl hrej) (hkept.subset c hmem)
    · exact hgone c hun hmem
    · exact h.gone c (.inr hun) (hkept.subset c hmem)

theorem inv_register {a : Unit} (h : Inv max log w) (hunsent : sent i log = false) :
    Inv max (⟨i, r, .register, a, w⟩ :: log) { w with registerCh := w.registerCh ++ [i] } := by
  have hanswered : ∀ c, answered c (⟨i, r, .register, a, w⟩ :: log) = answered c log := by
    intro c
    unfold answered
    rw [happened_quiet (e := .register) nofun, happened_quiet (e := .register) nofun]
  have hfresh : i ∉ w.registerCh ∧ answered i log = false := by
    constructor
    · intro hmem
      rw [h.sent i (.inl hmem)] at hunsent
      cases hunsent
    · by_contra hans
      rw [h.sent i (.inr (Bool.not_eq_false _ ▸ hans))] at hunsent
      cases hunsent
  constructor
  · exact h.maxConnections
  · exact h.sound
  · intro c hc
    by_cases hci : c = i
    · subst hci
      exact loc_self (T := registers) c r .register a w log
    · refine (loc_ne (T := registers) (Ne.symm hci) r .register a w log).trans ?_
      refine h.sent c (hc.imp_left fun hmem => ?_)
      simpa [hci] using hmem
  · refine ⟨?_, fun c hc => ?_⟩
    · refine List.nodup_append.2 ⟨h.queued.1, by simp, fun c hc c' hc' => ?_⟩
      rw [List.mem_singleton.1 hc']
      exact fun heq => hfresh.1 (heq ▸ hc)
    · rcases List.mem_append.1 hc with hc | hc
      · exact h.queued.2 c hc
      · rw [List.mem_singleton.1 hc]
        exact hfresh.2
  · intro c hc
    exact h.clients c hc
  · intro c hc
    exact h.gone c hc

theorem inv_registered (accepted : Bool) {c : ℕ} {rest : List ℕ} {hub' : HubState}
    (h : Inv max log w) (hqueue : w.registerCh = c :: rest)
    (hlive : happened (.unregistered c) log = false) (hsound : hub'.Sound max)
    (hclients : ∀ c', c' ∈ hub'.clients ↔ c' ∈ w.hub.clients ∨ accepted = true ∧ c' = c) :
    Inv max (⟨i, r, .turn, if accepted then .registered c else .rejected c, w⟩ :: log)
      { w with registerCh := rest, hub := hub' } := by
  have hnodup := h.queued.1
  rw [hqueue, List.nodup_cons] at hnodup
  have hc : answered c log = false := h.queued.2 c (by rw [hqueue]; exact .head _)
  have hanswered : ∀ c', answered c'
      (⟨i, r, .turn, if accepted then .registered c else .rejected c, w⟩ :: log) =
      (decide (c' = c) || answered c' log) := by
    intro c'
    unfold answered
    rw [happened_turn, happened_turn]
    cases accepted <;> by_cases hcc : c' = c <;> simp [hcc, Ne.symm]
  have hout : c ∉ w.hub.clients := by
    intro hmem
    rw [h.clients c hmem] at hc
    cases hc
  constructor
  · exact h.maxConnections
  · exact hsound
  · intro c' hc'
    rw [sent_of_quiet (e := .turn) nofun]
    by_cases hcc : c' = c
    · subst hcc
      exact h.sent c' (.inl (by rw [hqueue]; exact .head _))
    · rw [hanswered, decide_eq_false hcc] at hc'
      refine h.sent c' (hc'.imp_left fun hmem => ?_)
      rw [hqueue]
      exact .tail _ hmem
  · refine ⟨hnodup.2, fun c' hc' => ?_⟩
    have hcc : c' ≠ c := fun heq => hnodup.1 (heq ▸ hc')
    rw [hanswered, decide_eq_false hcc]
    exact h.queued.2 c' (by rw [hqueue]; exact .tail _ hc')
  · intro c' hc'
    rw [hanswered]
    obtain hin | ⟨-, rfl⟩ := (hclients c').1 hc'
    · rw [h.clients c' hin, Bool.or_true]
    · simp
  · intro c' hc' hmem
    rw [happened_turn, happened_turn] at hc'
    obtain hin | ⟨hacc, rfl⟩ := (hclients c').1 hmem
    · by_cases hcc : c' = c
      · exact hout (hcc ▸ hin)
      · refine h.gone c' ?_ hin
        cases accepted <;> simpa [Ne.symm hcc] using hc'
    · -- an accepted client was neither answered nor unregistered before
      subst hacc
      have hnot : happened (.rejected c') log = false := (Bool.or_eq_false_iff.1 hc).2
      simp [hnot, hlive] at hc'

theorem inv_turn {queue : Queue} {buffers : Buffers} {h' : Handled} (h : Inv max log w)
    (hmax : 0 < max) (hok : Orderly log i r .turn (queue, buffers) w = true)
    (hx : w.turn queue buffers = some (h', w')) : Inv max (⟨i, r, .turn, h', w⟩ :: log) w' := by
  unfold World.turn at hx
  split at hx
  · cases hx
  · cases queue with
    | stop =>
      cases hx
      exact h.turn rfl (HubState.kept_foldl HubState.removeClient_kept _ _) rfl
        (fun _ => ⟨nofun, nofun⟩) nofun
    | register =>
      dsimp only at hx
      split at hx
      · cases hx
      · next c rest hqueue =>
        have hlive : happened (.unregistered c) log = false := by
          simpa [Orderly, hqueue] using hok
        split at hx
        · cases hx
          refine inv_registered false h hqueue hlive h.sound fun c' => ?_
          simp
        · next hroom =>
          cases hx
          have hlt : w.hub.clients.length < max := by
            have := h.maxConnections
            omega
          refine inv_registered true h hqueue hlive ⟨?_, fun room c' hmem => ?_⟩
            fun c' => ?_
          · by_cases hin : c ∈ w.hub.clients
            · rw [List.insert_of_mem hin]
              exact Nat.le_of_lt hlt
            · rwa [List.length_insert_of_not_mem hin]
          · obtain ⟨hin, hrooms⟩ := h.sound.member room c' hmem
            exact ⟨List.mem_insert_of_mem hin, hrooms⟩
          · simp [or_comm]
    | unregister =>
      dsimp only at hx
      split at hx <;> cases hx
      refine h.turn rfl (HubState.removeClient_kept _ _) rfl (fun _ => ⟨nofun, nofun⟩) ?_
      rintro _ ⟨⟩
      exact HubState.not_mem_removeClient _ _
    | subscribe =>
      dsimp only at hx
      split at hx
      · cases hx
      · next c channel rest hqueue =>
        cases hx
        have hin : c ∈ w.hub.clients := by simpa [Orderly, hqueue] using hok
        exact h.turn rfl (HubState.subscribe_kept hin) rfl (fun _ => ⟨nofun, nofun⟩) nofun
    | unsubscribe =>
      dsimp only at hx
      split at hx <;> cases hx
      exact h.turn rfl (HubState.unsubscribe_kept _ _ _) rfl (fun _ => ⟨nofun, nofun⟩) nofun
    | broadcast =>
      dsimp only at hx
      split at hx <;> cases hx
      exact h.turn rfl (HubState.broadcast_kept _ _ _ _) rfl (fun _ => ⟨nofun, nofun⟩) nofun

theorem push_eq_some {α : Type} {capacity : ℕ} {queue q : List α} {x : α}
    (h : push capacity queue x = some q) : q = queue ++ [x] := by
  unfold push at h
  split_ifs at h
  exact (Option.some.inj h).symm

theorem inv_step {e : Stmt} {o : e.Outcome} {a : e.Ans} (h : Inv max log w) (hmax : 0 < max)
    (hok : Orderly log i r e o w = true) (hmay : registers.may r (registers.loc i log) e)
    (hx : exec i e o w = some (a, w')) : Inv max (⟨i, r, e, a, w⟩ :: log) w' := by
  cases e with
  | register =>
    obtain ⟨q, hq, hx⟩ := Option.map_eq_some_iff.1 hx
    cases hx
    rw [push_eq_some hq]
    cases r with
    | client messages => exact inv_register h hmay
    | publish room payload | loop => cases hmay
  | canSubscribe channel =>
    cases hx
    exact h.send nofun nofun rfl rfl rfl
  | turn => exact inv_turn h hmax hok hx
  | unregister | subscribe | unsubscribe | broadcast =>
    obtain ⟨q, -, hx⟩ := Option.map_eq_some_iff.1 hx
    cases hx
    exact h.send nofun nofun rfl rfl rfl

/-! ## Runs -/

/-- If a subscribe is only handled for a client in the set, and a register before the client's
unregister, the hub never holds more clients than its limit, a client it rejected is in no room, and
one whose unregister was handled is in no room and not in the set. -/
theorem hub_keeps_limit_and_buries (max : ℕ) (hmax : 0 < max) (pool : hub.Pool)
    (hrun : hub.Reach Orderly (Pool.idle { maxConnections := max }) pool) :
    pool.shared.hub.clients.length ≤ max ∧
      (∀ c room, happened (.rejected c) pool.log = true → c ∉ pool.shared.hub.rooms room) ∧
      ∀ c, happened (.unregistered c) pool.log = true →
        c ∉ pool.shared.hub.clients ∧ ∀ room, c ∉ pool.shared.hub.rooms room := by
  have h : Inv max pool.log pool.shared := by
    refine invariant registers_followed ?_
      (fun h hok hmay hx => inv_step h hmax hok hmay hx) hrun
    exact ⟨rfl, ⟨Nat.zero_le _, nofun⟩, by simp [answered, happened], ⟨List.nodup_nil, nofun⟩, nofun,
      by simp⟩
  refine ⟨h.sound.limit, fun c room hc hmem => ?_, fun c hc => ⟨h.gone c (.inr hc), ?_⟩⟩
  · exact h.gone c (.inl hc) (h.sound.member room c hmem).1
  · exact fun room hmem => h.gone c (.inr hc) (h.sound.member room c hmem).1

/-! ## Two clients and room for one -/

def reading : List IncomingMessage := [.subscribe ["system:events"]]

def taking (queue : Queue) : hub.Oracle
  | .canSubscribe _ => true
  | .turn => (queue, { message := fun _ => true, cached := true })
  | .register | .unregister | .subscribe _ | .unsubscribe _ | .broadcast .. => ()

/-- Both clients ask to register, and client 0 is registered. -/
def arrivals : List hub.Event :=
  [.start (.client reading), .start (.client reading), .start .loop, .start .loop, .start .loop,
    .start .loop, .step 0 (taking .stop), .step 2 (taking .register), .step 1 (taking .stop)]

/-- Client 1 is rejected; client 0 subscribes and goes. -/
theorem hub_keeps_limit_and_buries_in_turn :
    ∃ pool, hub.Reach Orderly (Pool.idle { maxConnections := 1 }) pool ∧
      happened (.rejected 1) pool.log = true ∧ happened (.unregistered 0) pool.log = true ∧
      pool.shared.hub.clients.length ≤ 1 ∧ 1 ∉ pool.shared.hub.rooms "system:events" ∧
      0 ∉ pool.shared.hub.clients ∧ 0 ∉ pool.shared.hub.rooms "system:events" := by
  obtain ⟨pool, hreach, hrejected, hgone⟩ := exists_reach (M := hub) Orderly
    { maxConnections := 1 } (arrivals ++ [.step 3 (taking .register), .step 0 (taking .stop),
      .step 0 (taking .stop), .step 4 (taking .subscribe), .step 0 (taking .stop),
      .step 5 (taking .unregister)]) (fun pool => happened (.rejected 1) pool.log = true ∧
      happened (.unregistered 0) pool.log = true) (by decide +kernel)
  have h := hub_keeps_limit_and_buries 1 (by decide) pool hreach
  exact ⟨pool, hreach, hrejected, hgone, h.1, h.2.1 1 _ hrejected, (h.2.2 0 hgone).1,
    (h.2.2 0 hgone).2 _⟩

/-- Client 1 is rejected, and its unregister is handled before its subscribe: then it is in the set,
over the limit, and in a room. -/
theorem rejected_and_dead_in_room :
    ∃ pool, hub.Reach Cond.any (Pool.idle { maxConnections := 1 }) pool ∧
      pool.shared.hub.clients.length = 2 ∧ happened (.rejected 1) pool.log = true ∧
      happened (.unregistered 1) pool.log = true ∧ 1 ∈ pool.shared.hub.rooms "system:events" :=
  exists_reach (M := hub) _ _
    (arrivals ++ [.step 1 (taking .stop), .step 1 (taking .stop), .step 1 (taking .stop),
      .step 3 (taking .register), .step 4 (taking .unregister), .step 5 (taking .subscribe)]) _
    (by decide +kernel)

end Nexara.Ws
