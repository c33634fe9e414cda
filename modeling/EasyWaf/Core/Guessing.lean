import EasyWaf.Core.Machine

/-!
# Attempts that are counted when they fail

Attempts are made at a guarded door.  One the guard refuses is answered unheard;
any other is in flight until it is found to fail, and only then counted.  Between
the two any number of others may begin and fail, and time may pass.

`Bounded.concat` says what the guard is to see to: that no failure is the one too
many within a period of its own time.
-/

namespace EasyWaf.Guessing

section Windows

/-- In every stretch of `period` from any time on, at most `limit` of these times. -/
def Bounded (period limit : ℕ) (times : List ℕ) : Prop :=
  ∀ start, times.countP (fun time => start ≤ time ∧ time < start + period) ≤ limit

/-- How many of these times lie less than `period` back. -/
def recent (period now : ℕ) (times : List ℕ) : ℕ := times.countP fun time => now - time < period

variable {period limit now later : ℕ} {times : List ℕ}

theorem Bounded.nil : Bounded period limit [] := fun _ => Nat.zero_le _

/-- One time more, at the end, that makes no more than `limit` with those less than
`period` before it. -/
theorem Bounded.concat (hbounded : Bounded period limit times)
    (hpast : ∀ time ∈ times, time ≤ now) (hrecent : recent period now times < limit) :
    Bounded period limit (times ++ [now]) := by
  intro start
  rw [List.countP_append, List.countP_singleton]
  by_cases hnow : start ≤ now ∧ now < start + period
  · have hle : times.countP (fun time => start ≤ time ∧ time < start + period) ≤
        recent period now times := by
      refine List.countP_mono_left fun time htime hstart => ?_
      have := hpast time htime
      simp only [decide_eq_true_eq] at hstart ⊢
      omega
    rw [if_pos (by simpa using hnow)]
    omega
  · rw [if_neg (by simpa using hnow)]
    exact hbounded start

theorem recent_concat (hperiod : 0 < period) :
    recent period now (times ++ [now]) = recent period now times + 1 := by
  rw [recent, List.countP_append, List.countP_singleton, if_pos (by simpa using hperiod), recent]

theorem recent_anti (hlater : now ≤ later) : recent period later times ≤ recent period now times := by
  refine List.countP_mono_left fun time _ hrecent => ?_
  simp only [decide_eq_true_eq] at hrecent ⊢
  omega

end Windows

variable {Counter Attempt : Type}

/-- Who is let through to be checked, and how a failure is counted. -/
structure Guard (Counter Attempt : Type) where
  refuses : Counter → (now : ℕ) → Attempt → Bool
  noteFailure : Counter → (now : ℕ) → Attempt → Counter

structure State (Counter Attempt : Type) where
  now : ℕ
  counter : Counter
  /-- Attempts that were let through and are being checked. -/
  inFlight : List Attempt
  /-- Every attempt that was checked and failed, and when. -/
  failures : List (ℕ × Attempt)

inductive Action (Attempt : Type)
  | wait (time : ℕ)
  | begin (attempt : Attempt)
  | fail (attempt : Attempt)

def State.initial (counter : Counter) : State Counter Attempt where
  now := 0
  counter := counter
  inFlight := []
  failures := []

variable [DecidableEq Attempt] (guard : Guard Counter Attempt)

def step (state : State Counter Attempt) : Action Attempt → Option (State Counter Attempt)
  | .wait time => some { state with now := state.now + time }
  | .begin attempt =>
      if guard.refuses state.counter state.now attempt then some state
      else some { state with inFlight := attempt :: state.inFlight }
  | .fail attempt =>
      if attempt ∈ state.inFlight then
        some { state with
          inFlight := state.inFlight.erase attempt
          counter := guard.noteFailure state.counter state.now attempt
          failures := state.failures ++ [(state.now, attempt)] }
      else none

variable {guard} {state next : State Counter Attempt} {attempt : Attempt}

theorem step_begin_cases (hstep : step guard state (.begin attempt) = some next) :
    next = state ∨ guard.refuses state.counter state.now attempt = false ∧
      next = { state with inFlight := attempt :: state.inFlight } := by
  rw [step] at hstep
  split at hstep
  · exact Or.inl (Option.some.inj hstep).symm
  · rename_i hrefuses
    exact Or.inr ⟨by simpa using hrefuses, (Option.some.inj hstep).symm⟩

theorem step_fail_eq (hstep : step guard state (.fail attempt) = some next) :
    attempt ∈ state.inFlight ∧
      next = { state with
        inFlight := state.inFlight.erase attempt
        counter := guard.noteFailure state.counter state.now attempt
        failures := state.failures ++ [(state.now, attempt)] } := by
  rw [step] at hstep
  split at hstep
  · rename_i hmem
    exact ⟨hmem, (Option.some.inj hstep).symm⟩
  · contradiction

section Keys

variable {Key : Type} [DecidableEq Key] (key : Attempt → Key) (value : Key)

namespace State

/-- The attempts in flight that are counted under a key. -/
def pending (state : State Counter Attempt) : ℕ :=
  state.inFlight.countP fun attempt => key attempt = value

/-- When attempts counted under a key failed. -/
def failedAt (state : State Counter Attempt) : List ℕ :=
  (state.failures.filter fun failure => key failure.2 = value).map Prod.fst

end State

omit [DecidableEq Attempt] in
theorem failedAt_concat (state : State Counter Attempt) (attempt : Attempt) (inFlight : List Attempt)
    (counter : Counter) :
    State.failedAt key value { state with
        inFlight, counter, failures := state.failures ++ [(state.now, attempt)] } =
      if key attempt = value then state.failedAt key value ++ [state.now]
      else state.failedAt key value := by
  by_cases hkey : key attempt = value <;> simp [State.failedAt, List.filter_append, hkey]

theorem pending_erase (hmem : attempt ∈ state.inFlight) :
    state.pending key value =
      (state.inFlight.erase attempt).countP (fun other => key other = value) +
        if key attempt = value then 1 else 0 := by
  rw [State.pending, (List.perm_cons_erase hmem).countP_eq, List.countP_cons]
  simp

end Keys

section Runs

variable {Key : Type} [DecidableEq Key] {key : Attempt → Key} {value : Key} {period limit : ℕ}
variable {allowed : State Counter Attempt → Action Attempt → Prop} {counter : Counter}

/-- No failure lies in the future. -/
theorem past_of_run (run : Machine.Run (step guard) allowed (State.initial counter) state) :
    ∀ failure ∈ state.failures, failure.1 ≤ state.now := by
  refine run.invariant (fun state => ∀ failure ∈ state.failures, failure.1 ≤ state.now) ?_
    (fun _ hfailure => absurd hfailure List.not_mem_nil)
  intro state action next hpast _ hstep
  cases action with
  | wait time =>
      obtain rfl := Option.some.inj hstep
      exact fun failure hfailure => (hpast failure hfailure).trans (Nat.le_add_right _ _)
  | begin attempt =>
      rcases step_begin_cases hstep with rfl | ⟨-, rfl⟩
      · exact hpast
      · exact hpast
  | fail attempt =>
      obtain ⟨-, rfl⟩ := step_fail_eq hstep
      intro failure hfailure
      rcases List.mem_append.mp hfailure with hfailure | hfailure
      · exact hpast failure hfailure
      · rw [List.mem_singleton.mp hfailure]

omit [DecidableEq Attempt] in
theorem failedAt_le (hpast : ∀ failure ∈ state.failures, failure.1 ≤ state.now) :
    ∀ time ∈ state.failedAt key value, time ≤ state.now := by
  intro time htime
  obtain ⟨failure, hfailure, rfl⟩ := List.mem_map.mp htime
  exact hpast failure (List.mem_of_mem_filter hfailure)

/-- Where no failure is one too many at the time it is counted, none is in any
stretch of time. -/
theorem bounded_of_run (run : Machine.Run (step guard) allowed (State.initial counter) state)
    (hfail : ∀ state attempt, Machine.Run (step guard) allowed (State.initial counter) state →
      allowed state (.fail attempt) → attempt ∈ state.inFlight → key attempt = value →
      recent period state.now (state.failedAt key value) < limit) :
    Bounded period limit (state.failedAt key value) := by
  induction run with
  | refl => exact Bounded.nil
  | tail before hallowed hstep ih =>
      rename_i state next action
      cases action with
      | wait time =>
          obtain rfl := Option.some.inj hstep
          exact ih
      | begin attempt =>
          rcases step_begin_cases hstep with rfl | ⟨-, rfl⟩
          · exact ih
          · exact ih
      | fail attempt =>
          obtain ⟨hmem, rfl⟩ := step_fail_eq hstep
          rw [failedAt_concat]
          split
          · rename_i hkey
            exact ih.concat (failedAt_le (past_of_run before))
              (hfail state attempt before hallowed hmem hkey)
          · exact ih

end Runs

end EasyWaf.Guessing
