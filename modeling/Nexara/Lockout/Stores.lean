import Mathlib.Data.Int.Notation
import Mathlib.Tactic.Common

/-!
# The stores of the password lockout

Where `password_lockout.go` counts the attempts at an account's current password: in Redis, by two
scripts on two keys, or in the memory of the process. Both are given here for one account. Times
are in milliseconds; a Redis key is gone once its expiry has come, and `time.Time{}` is `0`.
-/

namespace Nexara.Lockout

/-- How many wrong passwords lock the account, within which window, and for how long. -/
structure Config where
  threshold : ℕ
  window : ℕ
  duration : ℕ
  threshold_pos : 0 < threshold
  duration_pos : 0 < duration
  duration_le : duration ≤ window

theorem Config.lt_window (cfg : Config) (now : ℕ) : now < now + cfg.window :=
  Nat.lt_add_of_pos_right (Nat.lt_of_lt_of_le cfg.duration_pos cfg.duration_le)

/-- `passwordLockoutThreshold`, `passwordLockoutWindow` and `passwordLockoutDuration`. -/
def passwordLockout : Config where
  threshold := 5
  window := 60 * 60 * 1000
  duration := 30 * 60 * 1000
  threshold_pos := by decide
  duration_pos := by decide
  duration_le := by decide

inductive Admission where
  | refused | admitted | admittedLast
  deriving DecidableEq

/-- The answer to counting one attempt; `token` names the lock that the attempt armed. -/
structure Reservation where
  admission : Admission := .refused
  attempts : ℤ := 0
  retryAfter : ℤ := 0
  token : Option ℕ := none

/-! ## Redis -/

structure Key (α : Type) where
  value : α
  expires : Option ℕ := none

namespace Key

variable {α : Type}

def get (now : ℕ) (key : Option (Key α)) : Option (Key α) :=
  key.filter fun k => k.expires.all (now < ·)

def pttl (now : ℕ) (key : Option (Key α)) : ℤ :=
  match get now key with
  | none => -2
  | some ⟨_, none⟩ => -1
  | some ⟨_, some t⟩ => t - now

/-- `INCR` and `DECR`, which make a key that is missing. -/
def incrBy (n : ℤ) (now : ℕ) (key : Option (Key ℤ)) : Key ℤ :=
  match get now key with
  | none => { value := n }
  | some k => { k with value := k.value + n }

def pexpire (now ms : ℕ) (k : Key α) : Key α := { k with expires := some (now + ms) }

end Key

structure Keys where
  fail : Option (Key ℤ) := none
  lock : Option (Key ℕ) := none

section

variable (cfg : Config) (now : ℕ)

/-- The script: admission, attempts and wait, and the keys after it. -/
def reservePasswordAttempt (token : ℕ) (keys : Keys) : (ℕ × ℤ × ℤ) × Keys :=
  let wait := Key.pttl now keys.lock
  if 0 < wait then ((2, 0, wait), keys)
  else if wait = -1 then
    ((2, 0, cfg.duration),
      { keys with lock := (Key.get now keys.lock).map (Key.pexpire now cfg.duration) })
  else
    let fail := Key.incrBy 1 now keys.fail
    let fail := if fail.value = 1 ∨ Key.pttl now (some fail) < 0
      then fail.pexpire now cfg.window else fail
    if cfg.threshold ≤ fail.value then
      ((1, fail.value, cfg.duration), { fail := none, lock := some ⟨token, some (now + cfg.duration)⟩ })
    else ((0, fail.value, 0), { keys with fail := some fail })

/-- The script, for an attempt that armed the lock `token` names, or none. -/
def releasePasswordAttempt (token : Option ℕ) (keys : Keys) : Keys :=
  match token with
  | some t =>
    if (Key.get now keys.lock).map Key.value = some t then
      { fail := some ⟨cfg.threshold - 1, some (now + cfg.window)⟩, lock := none }
    else keys
  | none =>
    let fail := Key.incrBy (-1) now keys.fail
    if fail.value ≤ 0 then { keys with fail := none } else { keys with fail := some fail }

/-- `none` is a script that answered what no script answers. -/
def redisReserve (token : ℕ) (keys : Keys) : Option Reservation × Keys :=
  let ((admission, attempts, retryAfter), keys) := reservePasswordAttempt cfg now token keys
  match admission with
  | 0 => (some { admission := .admitted, attempts, retryAfter }, keys)
  | 1 => (some { admission := .admittedLast, attempts, retryAfter, token := some token }, keys)
  | 2 => (some { admission := .refused, attempts, retryAfter }, keys)
  | _ => (none, keys)

def redisRelease (res : Reservation) (keys : Keys) : Keys :=
  match res.admission with
  | .refused => keys
  | .admitted => releasePasswordAttempt cfg now none keys
  | .admittedLast => releasePasswordAttempt cfg now res.token keys

end

/-! ## Process memory -/

structure Entry where
  attempts : ℤ := 0
  windowEnds : ℕ := 0
  lockedUntil : ℕ := 0
  /-- Names the attempt that armed the lock. -/
  lockToken : Option ℕ := none

section

variable (cfg : Config) (now : ℕ)

/-- Drops the account if its attempts and its lock have both run out. -/
def sweep (entry : Option Entry) : Option Entry :=
  entry.filter fun e => now < e.windowEnds || now < e.lockedUntil

def Entry.current (entry : Option Entry) : Entry :=
  match entry with
  | some e => if now < e.windowEnds then e else { windowEnds := now + cfg.window }
  | none => { windowEnds := now + cfg.window }

def countAttempt (token : ℕ) (e : Entry) : Reservation × Entry :=
  if cfg.threshold ≤ e.attempts + 1 then
    ({ admission := .admittedLast, attempts := e.attempts + 1, retryAfter := cfg.duration,
       token := some token },
      { attempts := 0, windowEnds := 0, lockedUntil := now + cfg.duration, lockToken := some token })
  else
    ({ admission := .admitted, attempts := e.attempts + 1 }, { e with attempts := e.attempts + 1 })

def memoryReserve (token : ℕ) (entry : Option Entry) : Reservation × Option Entry :=
  match (sweep now entry).filter (now < ·.lockedUntil) with
  | some e => ({ admission := .refused, retryAfter := e.lockedUntil - now }, sweep now entry)
  | none =>
    let (res, e) := countAttempt cfg now token (Entry.current cfg now (sweep now entry))
    (res, some e)

/-- An entry with one attempt less; dropped when nothing is left of it. -/
def Entry.giveBack (e : Entry) : Option Entry :=
  if 0 < e.attempts ∧ now < e.windowEnds then
    if e.attempts - 1 = 0 ∧ ¬ now < e.lockedUntil then none
    else some { e with attempts := e.attempts - 1 }
  else some e

def memoryRelease (res : Reservation) (entry : Option Entry) : Option Entry :=
  match entry, res.admission with
  | none, _ => none
  | some e, .refused => some e
  | some e, .admitted => e.giveBack now
  | some e, .admittedLast =>
    if now < e.lockedUntil ∧ e.lockToken = res.token then
      some { attempts := cfg.threshold - 1, windowEnds := now + cfg.window }
    else some e

end

/-! ## The interface -/

inductive Store where
  | redis | memory

namespace Store

@[reducible] def State : Store → Type
  | redis => Keys
  | memory => Option Entry

def empty : (st : Store) → st.State
  | redis => {}
  | memory => none

variable (cfg : Config) (now : ℕ)

def reserve (token : ℕ) : (st : Store) → st.State → Option Reservation × st.State
  | redis, keys => redisReserve cfg now token keys
  | memory, entry => let (res, entry) := memoryReserve cfg now token entry; (some res, entry)

def release (res : Reservation) : (st : Store) → st.State → st.State
  | redis, keys => redisRelease cfg now res keys
  | memory, entry => memoryRelease cfg now res entry

def clear : (st : Store) → st.State → st.State
  | redis, _ => {}
  | memory, _ => none

def windowEnds : (st : Store) → st.State → Option ℕ
  | redis, keys => (Key.get now keys.fail).bind Key.expires
  | memory, entry => (entry.map Entry.windowEnds).filter (now < ·)

def lockEnds : (st : Store) → st.State → Option ℕ
  | redis, keys => (Key.get now keys.lock).bind Key.expires
  | memory, entry => (entry.map Entry.lockedUntil).filter (now < ·)

/-- How many attempts are counted; a lock stands for all of them. -/
def count : (st : Store) → st.State → ℤ
  | redis, keys =>
      if (Key.get now keys.lock).isSome then cfg.threshold
      else ((Key.get now keys.fail).map Key.value).getD 0
  | memory, entry =>
      if entry.any (now < ·.lockedUntil) then cfg.threshold
      else ((entry.filter (now < ·.windowEnds)).map Entry.attempts).getD 0

end Store

end Nexara.Lockout
