import Mathlib.Tactic.Linarith

/-!
# The limiter of a channel's notifications

`Allow` of `channelRateLimiter` takes a token from the channel's bucket, which is refilled at each
call by the time since the latest reading of the clock; a clock that has stepped back refills
nothing. Times are in seconds.
-/

namespace Nexara.Alerts

structure ChannelBucket where
  tokens : ℚ
  lastRefill : ℚ

/-- A limiter that is not nil, its buckets by channel. -/
structure ChannelRateLimiter (χ : Type) where
  buckets : χ → Option ChannelBucket := fun _ => none
  burst : ℚ
  refillPerSecond : ℚ

def ChannelBucket.refill (burst refillPerSecond now : ℚ) (bucket : ChannelBucket) : ChannelBucket :=
  let elapsed := now - bucket.lastRefill
  if elapsed > 0 then
    let tokens := bucket.tokens + elapsed * refillPerSecond
    { tokens := if tokens > burst then burst else tokens, lastRefill := now }
  else bucket

def ChannelBucket.take (bucket : ChannelBucket) : Bool × ChannelBucket :=
  if bucket.tokens ≥ 1 then (true, { bucket with tokens := bucket.tokens - 1 }) else (false, bucket)

/-- A call of `Allow`: the channel and what the clock reads. -/
structure AllowCall (χ : Type) where
  channelID : χ
  now : ℚ

namespace ChannelRateLimiter

variable {χ : Type} [DecidableEq χ]

/-- The channel's bucket, a full one at its first call, refilled. -/
def refilled (l : ChannelRateLimiter χ) (call : AllowCall χ) : ChannelBucket :=
  let bucket := (l.buckets call.channelID).getD { tokens := l.burst, lastRefill := call.now }
  bucket.refill l.burst l.refillPerSecond call.now

def allow (l : ChannelRateLimiter χ) (call : AllowCall χ) : Bool × ChannelRateLimiter χ :=
  let (ok, bucket) := (l.refilled call).take
  (ok, { l with buckets := fun c => if c = call.channelID then some bucket else l.buckets c })

/-- The calls of a run, each with its answer, and the limiter after it. -/
def run (l : ChannelRateLimiter χ) : List (AllowCall χ) → List (AllowCall χ × Bool) × ChannelRateLimiter χ
  | [] => ([], l)
  | call :: calls =>
    let (ok, l) := l.allow call
    let (answers, l) := l.run calls
    ((call, ok) :: answers, l)

/-- The calls for one channel. -/
def own (c : χ) (answers : List (AllowCall χ × Bool)) : List (AllowCall χ × Bool) :=
  answers.filter fun a => a.1.channelID = c

/-! ## One call -/

def spent (ok : Bool) : ℚ := if ok then 1 else 0

/-- The latest reading of the clock for a channel, with one more. -/
def latest (bucket : Option ChannelBucket) (now : ℚ) : ℚ :=
  bucket.elim now fun b => max b.lastRefill now

/-- The bucket holds from nothing to the burst. -/
def Within (burst : ℚ) (bucket : ChannelBucket) : Prop := 0 ≤ bucket.tokens ∧ bucket.tokens ≤ burst

theorem spent_take (burst : ℚ) (bucket : ChannelBucket) :
    spent bucket.take.1 + bucket.take.2.tokens = bucket.tokens ∧
      bucket.take.2.lastRefill = bucket.lastRefill ∧
      (Within burst bucket → Within burst bucket.take.2) := by
  unfold ChannelBucket.take Within
  split_ifs with h
  · refine ⟨by simp [spent], rfl, fun hin => ⟨?_, ?_⟩⟩ <;> linarith
  · simp [spent]

theorem refill_within {burst rate : ℚ} (hrate : 0 < rate) {bucket : ChannelBucket}
    (h : Within burst bucket) (now : ℚ) :
    Within burst (bucket.refill burst rate now) ∧
      (bucket.refill burst rate now).lastRefill = max bucket.lastRefill now ∧
      (bucket.refill burst rate now).tokens ≤
        bucket.tokens + rate * (max bucket.lastRefill now - bucket.lastRefill) := by
  obtain ⟨hnonneg, hburst⟩ := h
  unfold ChannelBucket.refill Within
  dsimp only
  by_cases hlate : now - bucket.lastRefill > 0
  · have hmax : max bucket.lastRefill now = now := max_eq_right (by linarith)
    have hgain : 0 < (now - bucket.lastRefill) * rate := mul_pos hlate hrate
    rw [hmax]
    split_ifs <;> refine ⟨⟨?_, ?_⟩, rfl, ?_⟩ <;> linarith
  · have hmax : max bucket.lastRefill now = bucket.lastRefill := max_eq_left (by linarith)
    rw [if_neg hlate, hmax]
    simp [hnonneg, hburst]

variable {l : ChannelRateLimiter χ} {c : χ}

theorem allow_other {call : AllowCall χ} (h : call.channelID ≠ c) :
    (l.allow call).2.buckets c = l.buckets c := by
  simp [allow, Ne.symm h]

/-- A call takes and leaves no more than the burst, nor than the bucket held and was refilled with.
-/
theorem spent_allow (hrate : 0 < l.refillPerSecond) (hburst : 1 ≤ l.burst)
    (hin : ∀ b ∈ l.buckets c, Within l.burst b) (now : ℚ) :
    ∃ b, (l.allow ⟨c, now⟩).2.buckets c = some b ∧ Within l.burst b ∧
      b.lastRefill = latest (l.buckets c) now ∧ spent (l.allow ⟨c, now⟩).1 + b.tokens ≤ l.burst ∧
      ∀ b₀ ∈ l.buckets c, spent (l.allow ⟨c, now⟩).1 + b.tokens ≤
        b₀.tokens + l.refillPerSecond * (b.lastRefill - b₀.lastRefill) := by
  have hstart : Within l.burst ((l.buckets c).getD ⟨l.burst, now⟩) := by
    cases hb : l.buckets c with
    | none => exact ⟨by simp; linarith, le_rfl⟩
    | some b => exact hin b hb
  obtain ⟨hwithin, hlast, -⟩ := refill_within hrate hstart now
  obtain ⟨hspent, hsame, hkeep⟩ := spent_take l.burst (l.refilled ⟨c, now⟩)
  refine ⟨(l.refilled ⟨c, now⟩).take.2, if_pos rfl, hkeep hwithin, ?_, hspent.trans_le hwithin.2, ?_⟩
  · rw [hsame]
    refine hlast.trans ?_
    cases l.buckets c <;> simp [latest]
  · rintro b₀ hb₀
    have hsome : l.refilled ⟨c, now⟩ = b₀.refill l.burst l.refillPerSecond now := by
      simp [refilled, Option.mem_def.1 hb₀]
    obtain ⟨-, hlast₀, hgain⟩ := refill_within hrate (hin b₀ hb₀) now
    refine hspent.trans_le ?_
    rw [hsame, hsome, hlast₀]
    exact hgain

/-! ## Runs -/

/-- The calls allowed in a stretch. -/
def allowed (stretch : List (AllowCall χ × Bool)) : ℕ := stretch.countP (·.2)

/-- The largest of a reading of the clock and those of some calls. -/
def peak (now : ℚ) (calls : List (AllowCall χ × Bool)) : ℚ := calls.foldl (fun t a => max t a.1.now) now

omit [DecidableEq χ] in
theorem allowed_cons (a : AllowCall χ × Bool) (stretch : List (AllowCall χ × Bool)) :
    (allowed (a :: stretch) : ℚ) = spent a.2 + allowed stretch := by
  cases h : a.2 <;> simp [allowed, spent, h, add_comm]

omit [DecidableEq χ] in
theorem peak_max (s t : ℚ) (calls : List (AllowCall χ × Bool)) :
    peak (max s t) calls = max s (peak t calls) := by
  induction calls generalizing t with
  | nil => rfl
  | cons a calls ih => exact (congrArg (peak · calls) (max_assoc s t a.1.now)).trans (ih _)

theorem own_run_cons (l : ChannelRateLimiter χ) (c : χ) (call : AllowCall χ) (calls : List (AllowCall χ)) :
    own c (l.run (call :: calls)).1 = if call.channelID = c then
      (call, (l.allow call).1) :: own c ((l.allow call).2.run calls).1
      else own c ((l.allow call).2.run calls).1 := by
  simp [own, run, List.filter_cons]

section

variable {calls : List (AllowCall χ)} {first : AllowCall χ × Bool}
  {before stretch rest after : List (AllowCall χ × Bool)}

theorem allowed_le {b : ChannelBucket} (hrate : 0 < l.refillPerSecond) (hburst : 1 ≤ l.burst)
    (hb : l.buckets c = some b) (hin : Within l.burst b)
    (h : own c (l.run calls).1 = stretch ++ after) :
    allowed stretch ≤ b.tokens + l.refillPerSecond * (peak b.lastRefill stretch - b.lastRefill) := by
  induction calls generalizing l b stretch with
  | nil =>
    obtain ⟨rfl, -⟩ := List.append_eq_nil_iff.1 h.symm
    simpa [allowed, peak] using hin.1
  | cons call calls ih =>
    rw [own_run_cons] at h
    split_ifs at h with hc
    · subst hc
      cases stretch with
      | nil => simpa [allowed, peak] using hin.1
      | cons a stretch =>
        obtain ⟨rfl, hrest⟩ := List.cons_eq_cons.1 h
        obtain ⟨b', hb', hin', hlast, -, hspent⟩ := spent_allow hrate hburst
          (fun b₀ hb₀ => Option.some_inj.1 (hb.symm.trans hb₀) ▸ hin) call.now
        have hle := ih (l := (l.allow call).2) hrate hburst hb' hin' hrest
        have hspent := hspent b hb
        have hpeak : peak b.lastRefill ((call, (l.allow call).1) :: stretch) =
            peak b'.lastRefill stretch := by
          rw [hlast, hb]
          rfl
        rw [allowed_cons, hpeak]
        change (allowed stretch : ℚ) ≤ b'.tokens + l.refillPerSecond * _ at hle
        linarith
    · exact ih (l := (l.allow call).2) hrate hburst ((allow_other hc).trans hb) hin h

theorem allowed_le_burst (hrate : 0 < l.refillPerSecond) (hburst : 1 ≤ l.burst)
    (hin : ∀ b ∈ l.buckets c, Within l.burst b)
    (h : own c (l.run calls).1 = before ++ first :: (rest ++ after)) :
    allowed (first :: rest) ≤ l.burst + l.refillPerSecond *
      (peak (latest (l.buckets c) (peak first.1.now before)) rest -
        latest (l.buckets c) (peak first.1.now before)) := by
  induction calls generalizing l before with
  | nil => simp [run, own] at h
  | cons call calls ih =>
    rw [own_run_cons] at h
    split_ifs at h with hc
    · subst hc
      obtain ⟨b, hb, hin', hlast, hspent, -⟩ := spent_allow hrate hburst hin call.now
      cases before with
      | nil =>
        obtain ⟨rfl, hrest⟩ := List.cons_eq_cons.1 h
        have hle := allowed_le (l := (l.allow call).2) hrate hburst hb hin' hrest
        rw [allowed_cons]
        change (allowed rest : ℚ) ≤ b.tokens + l.refillPerSecond * _ at hle
        rw [hlast] at hle
        change _ ≤ l.burst + l.refillPerSecond * (peak (latest _ call.now) rest - latest _ call.now)
        linarith
      | cons a before =>
        obtain ⟨rfl, hrest⟩ := List.cons_eq_cons.1 h
        have hle := ih (l := (l.allow call).2) hrate hburst
          (fun b' hb' => Option.some_inj.1 (hb.symm.trans hb') ▸ hin') hrest
        have hlatest : latest ((l.allow call).2.buckets call.channelID) (peak first.1.now before) =
            latest (l.buckets call.channelID) (peak first.1.now ((call, (l.allow call).1) :: before)) := by
          have hpeak : peak first.1.now ((call, (l.allow call).1) :: before) =
              max call.now (peak first.1.now before) := by
            rw [← peak_max, max_comm]
            rfl
          rw [hpeak, hb]
          show max b.lastRefill _ = _
          rw [hlast]
          cases l.buckets call.channelID <;> simp [latest, max_assoc]
        rwa [hlatest] at hle
    · have hsame := allow_other (l := l) hc
      rw [← hsame] at hin ⊢
      exact ih (l := (l.allow call).2) hrate hburst hin h

end

theorem within_run {calls : List (AllowCall χ)} (hrate : 0 < l.refillPerSecond) (hburst : 1 ≤ l.burst)
    (hin : ∀ b ∈ l.buckets c, Within l.burst b) : ∀ b ∈ (l.run calls).2.buckets c, Within l.burst b := by
  induction calls generalizing l with
  | nil => exact hin
  | cons call calls ih =>
    refine ih (l := (l.allow call).2) hrate hburst ?_
    by_cases hc : call.channelID = c
    · subst hc
      obtain ⟨b, hb, hwithin, -⟩ := spent_allow hrate hburst hin call.now
      exact fun b' hb' => Option.some_inj.1 (hb.symm.trans hb') ▸ hwithin
    · rwa [allow_other hc]

theorem run_own {l' : ChannelRateLimiter χ} (calls : List (AllowCall χ))
    (hbucket : l.buckets c = l'.buckets c) (hburst : l.burst = l'.burst)
    (hrate : l.refillPerSecond = l'.refillPerSecond) :
    own c (l.run calls).1 = (l'.run (calls.filter (·.channelID = c))).1 ∧
      (l.run calls).2.buckets c = (l'.run (calls.filter (·.channelID = c))).2.buckets c := by
  induction calls generalizing l l' with
  | nil => exact ⟨rfl, hbucket⟩
  | cons call calls ih =>
    rw [own_run_cons]
    by_cases hc : call.channelID = c
    · subst hc
      have hre : l.refilled call = l'.refilled call := by simp [refilled, hbucket, hburst, hrate]
      have hsame := ih (l := (l.allow call).2)
        (show _ = (l'.allow call).2.buckets _ by simp [allow, hre]) hburst hrate
      have hok : (l.allow call).1 = (l'.allow call).1 := by simp [allow, hre]
      simpa [run, hok] using hsame
    · simpa [run, hc] using ih ((allow_other hc).trans hbucket) hburst hrate

/-- **A token bucket, whatever the clock does.** Of every stretch of a channel's calls at most the
burst and what refills meanwhile are allowed, by the latest readings; the bucket holds from nothing
to the burst; and calls for other channels change nothing. -/
theorem allowed_within_burst_and_refill {burst rate : ℚ} (hburst : 1 ≤ burst) (hrate : 0 < rate)
    (calls : List (AllowCall χ)) (c : χ) :
    let l : ChannelRateLimiter χ := { burst, refillPerSecond := rate }
    (∀ before first rest after, own c (l.run calls).1 = before ++ first :: (rest ++ after) →
      allowed (first :: rest) ≤
        burst + rate * (peak (peak first.1.now before) rest - peak first.1.now before)) ∧
    (∀ b ∈ (l.run calls).2.buckets c, 0 ≤ b.tokens ∧ b.tokens ≤ burst) ∧
    own c (l.run calls).1 = (l.run (calls.filter (·.channelID = c))).1 ∧
      (l.run calls).2.buckets c = (l.run (calls.filter (·.channelID = c))).2.buckets c :=
  ⟨fun _ _ _ _ => allowed_le_burst hrate hburst nofun, within_run hrate hburst nofun,
    run_own calls rfl rfl rfl⟩

/-- The clock steps back between the calls for a channel, and another is called in between. -/
theorem allowed_within_burst_and_refill_three :
    let l : ChannelRateLimiter ℕ := { burst := 10, refillPerSecond := 1 / 15 }
    (∀ before first rest after,
      own 0 (l.run [⟨0, 5⟩, ⟨1, 9⟩, ⟨0, 3⟩]).1 = before ++ first :: (rest ++ after) →
        allowed (first :: rest) ≤
          10 + 1 / 15 * (peak (peak first.1.now before) rest - peak first.1.now before)) ∧
    own 0 (l.run [⟨0, 5⟩, ⟨1, 9⟩, ⟨0, 3⟩]).1 = (l.run [⟨0, 5⟩, ⟨0, 3⟩]).1 :=
  have h := allowed_within_burst_and_refill (show (1 : ℚ) ≤ 10 by norm_num)
    (show (0 : ℚ) < 1 / 15 by norm_num) [⟨0, 5⟩, ⟨1, 9⟩, ⟨0, 3⟩] (0 : ℕ)
  ⟨h.1, h.2.2.1⟩

end ChannelRateLimiter

end Nexara.Alerts
