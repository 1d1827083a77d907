import Nexara.Observer.Pace

/-!
# Pacing loses nothing

The calls about one object are `pace`, `quiet` and `forgetQuietObjects`, in any order and at any
times. Each row they return gathers exactly what was passed since the row before it
(`Holds.answer`). Past the streak limit rows are an hour apart (`Since.answers`).
-/

namespace Nexara.Observer

open Go (Map)

inductive PaceCall where
  | pace (ch : ChangeRow) (now : Time)
  | quiet
  | forgetQuietObjects (now : Time)

namespace PaceCall

/-- What is known of the object after the call, and the rows returned. -/
def answer (noisy : Option NoisyObject) : PaceCall → Option NoisyObject × List ChangeRow
  | pace ch now => (some (Observer.pace noisy ch now).1, (Observer.pace noisy ch now).2)
  | quiet => (none, Observer.quiet noisy)
  | forgetQuietObjects now => (noisy.filter (!·.forgotten now), [])

def passed : PaceCall → List ChangeRow
  | pace ch _ => [ch]
  | _ => []

end PaceCall

def answers : Option NoisyObject → List PaceCall → Option NoisyObject × List ChangeRow
  | noisy, [] => (noisy, [])
  | noisy, call :: calls =>
    let r := answers (call.answer noisy).1 calls
    (r.1, (call.answer noisy).2 ++ r.2)

/-- The rows passed since the last one was returned, `group` being those at the start. -/
def pending : Option NoisyObject → List ChangeRow → List PaceCall → List ChangeRow
  | _, group, [] => group
  | noisy, group, call :: calls =>
    pending (call.answer noisy).1
      (if (call.answer noisy).2 = [] then group ++ call.passed else []) calls

def gathered : List ChangeRow → Option ChangeRow
  | [] => none
  | ch :: rest => some (rest.foldl ChangeRow.gather ch)

/-- What the row counts of a list. -/
def ChangeRow.count (row : ChangeRow) (name : String) : ListCount :=
  (row.detail.counts.lookup name).getD {}

/-- The row `pace` returns now is past the streak limit. -/
def PastLimit (noisy : Option NoisyObject) (ch : ChangeRow) (now : Time) : Prop :=
  observeNoisyStreak ≤ (noisy.getD {}).streak ∧ (pace noisy ch now).2 ≠ []
deriving Decidable

theorem answers_append (noisy : Option NoisyObject) (calls calls' : List PaceCall) :
    (answers noisy (calls ++ calls')).1 = (answers (answers noisy calls).1 calls').1 := by
  induction calls generalizing noisy with
  | nil => rfl
  | cons call calls ih => exact ih _

/-! ## The row that is held -/

/-- The row held gathers `group`, and nothing is held before the streak limit. -/
structure Holds (noisy : Option NoisyObject) (group : List ChangeRow) : Prop where
  held : (noisy.getD {}).held = gathered group
  limit : group ≠ [] → observeNoisyStreak ≤ (noisy.getD {}).streak

variable {noisy : Option NoisyObject} {group : List ChangeRow}

theorem gathered_eq_none : gathered group = none ↔ group = [] := by
  cases group <;> simp [gathered]

section

variable (h : Holds noisy group)

include h

theorem Holds.gathering (ch : ChangeRow) :
    gathered (group ++ [ch]) = some ((noisy.getD {}).gathering ch) := by
  unfold NoisyObject.gathering
  rw [h.held]
  cases group with
  | nil => rfl
  | cons first rest => simp [gathered]

theorem Holds.answer (call : PaceCall) :
    (call.answer noisy).2 = [] ∧ Holds (call.answer noisy).1 (group ++ call.passed) ∨
      ∃ row, (call.answer noisy).2 = [row] ∧ gathered (group ++ call.passed) = some row ∧
        Holds (call.answer noisy).1 [] := by
  cases call with
  | pace ch now =>
    have hch := h.gathering ch
    obtain ⟨hstreak, hpace⟩ | ⟨hlimit, hpace | ⟨-, hpace⟩⟩ := pace_eq noisy ch now <;>
      rw [PaceCall.answer, hpace]
    · -- nothing is held yet
      obtain rfl : group = [] := by
        by_contra hne
        exact absurd (h.limit hne) (Nat.not_le.2 hstreak)
      exact .inr ⟨ch, rfl, rfl, h.held, nofun⟩
    · exact .inl ⟨rfl, hch.symm, fun _ => Nat.le_succ_of_le hlimit⟩
    · exact .inr ⟨_, rfl, hch, rfl, nofun⟩
  | quiet =>
    have hrows : quiet noisy = (gathered group).toList := by
      rw [← h.held]
      cases noisy <;> rfl
    cases group with
    | nil => exact .inl ⟨hrows, rfl, nofun⟩
    | cons first rest => exact .inr ⟨_, hrows, by simp [gathered, PaceCall.passed], rfl, nofun⟩
  | forgetQuietObjects now =>
    refine .inl ⟨rfl, ?_⟩
    show Holds (noisy.filter (!·.forgotten now)) (group ++ [])
    rw [List.append_nil]
    cases noisy with
    | none => exact h
    | some n =>
      cases hforgotten : n.forgotten now with
      | false => simpa [Option.filter, hforgotten] using h
      | true =>
        have hnone : n.held = none := by
          simp [NoisyObject.forgotten] at hforgotten
          exact hforgotten.1
        obtain rfl : group = [] := gathered_eq_none.1 (h.held.symm.trans hnone)
        simpa [Option.filter, hforgotten] using (⟨rfl, nofun⟩ : Holds none [])

/-- The rows returned gather groups of the rows passed, in order; the last group is pending. -/
theorem Holds.groups (calls : List PaceCall) :
    Holds (answers noisy calls).1 (pending noisy group calls) ∧
      ∃ groups, List.Forall₂ (fun group row => gathered group = some row) groups (answers noisy calls).2 ∧
        group ++ calls.flatMap PaceCall.passed = groups.flatten ++ pending noisy group calls := by
  induction calls generalizing noisy group with
  | nil => exact ⟨h, [], .nil, by simp [pending]⟩
  | cons call calls ih =>
    unfold pending answers
    obtain ⟨hrows, hnext⟩ | ⟨row, hrows, hrow, hnext⟩ := h.answer call
    · obtain ⟨hend, groups, hgroups, heq⟩ := ih hnext
      rw [if_pos hrows, hrows]
      exact ⟨hend, groups, hgroups, by rw [← heq, List.flatMap_cons, List.append_assoc]⟩
    · obtain ⟨hend, groups, hgroups, heq⟩ := ih hnext
      rw [if_neg (by simp [hrows]), hrows]
      refine ⟨hend, _ :: groups, .cons hrow hgroups, ?_⟩
      rw [List.flatten_cons, List.append_assoc, ← heq, List.flatMap_cons, List.append_assoc,
        List.nil_append]

end

/-! ## What rows say together -/

section

variable {α : Type} {sums : List ChangeRow → α} {row : ChangeRow} {rows : List ChangeRow}
  {groups : List (List ChangeRow)}

/-- What rows come to, if gathering two of them does not change it. -/
structure Sums (sums : List ChangeRow → α) : Prop where
  append : ∀ {a a' b b'}, sums a = sums a' → sums b = sums b' → sums (a ++ b) = sums (a' ++ b')
  gather : ∀ held ch : ChangeRow, sums [held.gather ch] = sums [held, ch]

theorem Sums.of_gathered (hsums : Sums sums) (h : gathered group = some row) :
    sums [row] = sums group := by
  cases group with
  | nil => cases h
  | cons first rest =>
    cases h
    induction rest generalizing first with
    | nil => rfl
    | cons ch rest ih => exact (ih _).trans (hsums.append (hsums.gather first ch) rfl)

theorem Sums.of_groups (hsums : Sums sums)
    (h : List.Forall₂ (fun group row => gathered group = some row) groups rows) :
    sums rows = sums groups.flatten := by
  induction h with
  | nil => rfl
  | cons hrow _ ih => exact hsums.append (hsums.of_gathered hrow) ih

theorem sums_exists {φ : ChangeRow → List String} {f : String}
    (hφ : ∀ held ch, f ∈ φ (held.gather ch) ↔ f ∈ φ held ∨ f ∈ φ ch) :
    Sums fun rows => ∃ row ∈ rows, f ∈ φ row where
  append h h' := by simpa [or_and_right, exists_or] using congrArg₂ Or h h'
  gather held ch := by simp [hφ]

theorem sums_sum {ν : ChangeRow → ℕ} (hν : ∀ held ch, ν (held.gather ch) = ν held + ν ch) :
    Sums fun rows => (rows.map ν).sum where
  append h h' := by simpa using congrArg₂ (· + ·) h h'
  gather held ch := by simp [hν]

def ListCount.plus (c c' : ListCount) : ListCount :=
  ⟨c.added + c'.added, c.removed + c'.removed, c.moved + c'.moved⟩

theorem lookup_foldl_plus (entries : List (Sigma fun _ : String => ListCount))
    (hnodup : entries.NodupKeys) (counts : Map ListCount) (name : String) :
    ((entries.foldl (fun counts e =>
        counts.insert e.1 (((counts.lookup e.1).getD {}).plus e.2)) counts).lookup name).getD {} =
      ((counts.lookup name).getD {}).plus ((entries.dlookup name).getD {}) := by
  induction entries generalizing counts with
  | nil => rfl
  | cons e entries ih =>
    obtain ⟨key, c⟩ := e
    rw [List.nodupKeys_cons] at hnodup
    rw [List.foldl_cons, ih hnodup.2, Go.lookup_insert]
    by_cases hname : name = key
    · subst hname
      rw [if_pos rfl, List.dlookup_cons_eq, List.dlookup_eq_none.2 hnodup.1]
      rfl
    · rw [if_neg hname, List.dlookup_cons_ne _ _ hname]

theorem count_gather (held ch : ChangeRow) (name : String) :
    (held.gather ch).count name = (held.count name).plus (ch.count name) :=
  lookup_foldl_plus _ ch.detail.counts.nodupKeys _ _

end

/-! ## The rows of a noisy object are apart -/

section

variable {t : Time} {calls : List PaceCall}

/-- The last row returned is not from before `t`. -/
def Since (t : Time) (noisy : Option NoisyObject) : Prop := ∀ n ∈ noisy, t ≤ n.lastEmit

theorem Since.lastEmit (h : Since t noisy) (hlimit : observeNoisyStreak ≤ (noisy.getD {}).streak) :
    t ≤ (noisy.getD {}).lastEmit := by
  cases noisy with
  | none => exact absurd hlimit (by decide)
  | some n => exact h n rfl

theorem PastLimit.pace {ch : ChangeRow} {now : Time} (h : PastLimit noisy ch now) :
    (noisy.getD {}).lastEmit + observeNoisyEvery ≤ now ∧
      (Observer.pace noisy ch now).1 = ⟨(noisy.getD {}).streak + 1, none, now⟩ := by
  obtain ⟨hlimit, hrows⟩ := h
  obtain ⟨hstreak, -⟩ | ⟨-, hpace | ⟨hlate, hpace⟩⟩ := pace_eq noisy ch now
  · exact absurd hlimit (Nat.not_le.2 hstreak)
  · simp [hpace] at hrows
  · exact ⟨hlate, by rw [hpace]⟩

/-- Only a call below the limit of a streak begun after `t` has to tell a later time: past the limit
a row comes an hour after the last. -/
theorem Since.answers (h : Since t noisy)
    (hnow : ∀ mid ch now rest, calls = mid ++ .pace ch now :: rest →
      ((answers noisy mid).1.getD {}).streak < observeNoisyStreak → t ≤ now) :
    Since t (answers noisy calls).1 := by
  induction calls generalizing noisy with
  | nil => exact h
  | cons call calls ih =>
    refine ih ?_ fun mid ch now rest heq => hnow (call :: mid) ch now rest (heq ▸ rfl)
    cases call with
    | pace ch now =>
      rintro n ⟨⟩
      obtain ⟨hstreak, hpace⟩ | ⟨hlimit, hpace | ⟨hlate, hpace⟩⟩ := pace_eq noisy ch now <;>
        rw [hpace]
      · exact hnow [] ch now calls rfl hstreak
      · exact h.lastEmit hlimit
      · exact (h.lastEmit hlimit).trans ((Nat.le_add_right _ _).trans hlate)
    | quiet =>
      intro n hn
      cases hn
    | forgetQuietObjects now => exact fun n hn => h n (Option.eq_some_of_filter_eq_some hn)

end

/-- **Pacing is lossless.** Over all calls about an object, the last of them `quiet`, the rows
returned name what the rows passed name, and their counts add up; each gathers what was passed since
the one before it. Rows past the streak limit are `observeNoisyEvery` apart, in one streak by any
clock, and over later streaks if the clock has not gone back at the calls below their limit. -/
theorem pacing_lossless (calls : List PaceCall) :
    let returned := (answers none (calls ++ [.quiet])).2
    let passed := calls.flatMap PaceCall.passed
    (∀ f, (∃ row ∈ returned, f ∈ row.fields) ↔ ∃ ch ∈ passed, f ∈ ch.fields) ∧
    (∀ m, (∃ row ∈ returned, m ∈ row.membersJoined) ↔ ∃ ch ∈ passed, m ∈ ch.membersJoined) ∧
    (∀ m, (∃ row ∈ returned, m ∈ row.membersLeft) ↔ ∃ ch ∈ passed, m ∈ ch.membersLeft) ∧
    (∀ name, (returned.map (·.count name |>.added)).sum = (passed.map (·.count name |>.added)).sum ∧
      (returned.map (·.count name |>.removed)).sum = (passed.map (·.count name |>.removed)).sum ∧
      (returned.map (·.count name |>.moved)).sum = (passed.map (·.count name |>.moved)).sum) ∧
    (∀ before call after, calls ++ [.quiet] = before ++ call :: after →
      ∀ row ∈ (call.answer (answers none before).1).2,
        gathered (pending none [] before ++ call.passed) = some row) ∧
    ∀ before ch t between ch' t' after,
      calls = before ++ .pace ch t :: (between ++ .pace ch' t' :: after) →
      PastLimit (answers none before).1 ch t →
      PastLimit (answers none (before ++ .pace ch t :: between)).1 ch' t' →
      (∀ mid ch'' now rest, between = mid ++ .pace ch'' now :: rest →
        ((answers none (before ++ .pace ch t :: mid)).1.getD {}).streak < observeNoisyStreak →
        t ≤ now) →
      t + observeNoisyEvery ≤ t' := by
  intro returned passed
  have hstart : Holds none [] := ⟨rfl, nofun⟩
  obtain ⟨hend, groups, hgroups, heq⟩ := hstart.groups (calls ++ [.quiet])
  have hflat : groups.flatten = passed := by
    have hnone : pending none [] (calls ++ [.quiet]) = [] := by
      rw [← gathered_eq_none, ← hend.held, answers_append]
      rfl
    simpa [hnone, PaceCall.passed] using heq.symm
  have hmem {φ : ChangeRow → List String} {f}
      (hφ : ∀ held ch, f ∈ φ (held.gather ch) ↔ f ∈ φ held ∨ f ∈ φ ch) :
      (∃ row ∈ returned, f ∈ φ row) ↔ ∃ ch ∈ passed, f ∈ φ ch := by
    rw [← hflat]
    exact ((sums_exists hφ).of_groups hgroups).to_iff
  have hsum (name) {π : ListCount → ℕ} (hπ : ∀ c c', π (c.plus c') = π c + π c') :
      (returned.map fun row => π (row.count name)).sum =
        (passed.map fun ch => π (ch.count name)).sum := by
    rw [← hflat]
    exact (sums_sum fun held ch => by rw [count_gather, hπ]).of_groups hgroups
  refine ⟨fun f => hmem fun _ _ => mem_unionSorted, fun m => hmem fun _ _ => mem_unionSorted,
    fun m => hmem fun _ _ => mem_unionSorted, fun name => ⟨hsum name fun _ _ => rfl,
      hsum name fun _ _ => rfl, hsum name fun _ _ => rfl⟩, ?_, ?_⟩
  · intro before call after _ row hrow
    obtain ⟨hrows, -⟩ | ⟨row', hrows, hgathered, -⟩ := (hstart.groups before).1.answer call
    · simp [hrows] at hrow
    · rw [hrows, List.mem_singleton] at hrow
      exact hrow ▸ hgathered
  · intro before ch t between ch' t' after _ hfirst hlast hnow
    have hnext (mid) : (answers none (before ++ .pace ch t :: mid)).1 =
        (answers (some ⟨((answers none before).1.getD {}).streak + 1, none, t⟩) mid).1 := by
      rw [answers_append, ← hfirst.pace.2]
      rfl
    simp only [hnext] at hlast hnow
    have hsince : Since t (some ⟨((answers none before).1.getD {}).streak + 1, none, t⟩) := by
      rintro n ⟨⟩
      exact le_rfl
    exact (Nat.add_le_add_right ((hsince.answers hnow).lastEmit hlast.1) _).trans hlast.pace.1

/-- The clock goes back after a streak has ended: two rows past the limit are half an hour apart. -/
theorem noisy_rows_close : ∃ before ch t between ch' t',
    PastLimit (answers none before).1 ch t ∧
      PastLimit (answers none (before ++ .pace ch t :: between)).1 ch' t' ∧
      t' < t ∧ t < t' + observeNoisyEvery := by
  let ch : ChangeRow :=
    { resourceType := "vm", resourceID := "100", change := .changed, lastSeenAt := 0, observedAt := 0 }
  let streak := List.replicate observeNoisyStreak (PaceCall.pace ch 0)
  refine ⟨streak, ch, 3 * 30 * 60 * 1000, .quiet :: streak, ch, observeNoisyEvery, ?_⟩
  decide

end Nexara.Observer
