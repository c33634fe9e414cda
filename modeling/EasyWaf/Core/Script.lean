import Mathlib

/-!
# Scripts of statements

A procedure that writes one statement after another, with no transaction around
them.  A statement fails where it breaks a constraint, and leaves the state as
it was; the script stops there.  A script may also be cut short after any number
of statements.
-/

namespace EasyWaf.Script

variable {State : Type*}

/-- The state a script ends in, and whether it ran to its end. -/
def run : List (State → Option State) → State → State × Bool
  | [], state => (state, true)
  | statement :: script, state =>
      match statement state with
      | some next => run script next
      | none => (state, false)

variable {script rest : List (State → Option State)} {state : State}

@[simp]
theorem run_nil : run [] state = (state, true) := rfl

theorem run_cons_of_eq_some {statement : State → Option State} {next : State}
    (hnext : statement state = some next) : run (statement :: script) state = run script next := by
  rw [run, hnext]

/-- A script in which no statement fails is run to its end. -/
theorem run_append_of_completes {next : State} (hscript : run script state = (next, true)) :
    run (script ++ rest) state = run rest next := by
  induction script generalizing state with
  | nil =>
      obtain rfl : state = next := congrArg Prod.fst hscript
      rfl
  | cons statement script ih =>
      rw [List.cons_append, run]
      rw [run] at hscript
      cases hnext : statement state with
      | none =>
          rw [hnext] at hscript
          exact absurd (congrArg Prod.snd hscript) Bool.false_ne_true
      | some middle =>
          rw [hnext] at hscript
          exact ih hscript

/-- A script that stops does not reach what is written after it. -/
theorem run_append_of_stops {next : State} (hscript : run script state = (next, false)) :
    run (script ++ rest) state = (next, false) := by
  induction script generalizing state with
  | nil => exact absurd (congrArg Prod.snd hscript).symm Bool.false_ne_true
  | cons statement script ih =>
      rw [List.cons_append, run]
      rw [run] at hscript
      cases hnext : statement state with
      | none =>
          rw [hnext] at hscript
          exact hscript
      | some middle =>
          rw [hnext] at hscript
          exact ih hscript

/-- What every statement keeps, the script keeps, wherever it stops. -/
theorem run_invariant (holds : State → Prop)
    (hkeep : ∀ statement ∈ script, ∀ before after, holds before →
      statement before = some after → holds after)
    (hstart : holds state) : holds (run script state).1 := by
  induction script generalizing state with
  | nil => exact hstart
  | cons statement script ih =>
      rw [run]
      cases hnext : statement state with
      | none => exact hstart
      | some next =>
          apply ih
          · intro later hlater
            exact hkeep later (List.mem_cons_of_mem _ hlater)
          · exact hkeep statement List.mem_cons_self state next hstart hnext

end EasyWaf.Script

/-!
## Computations that may be refused
-/

namespace EasyWaf.Core

variable {Error Value Result : Type}

/-- What follows a check is reached when the check passes. -/
theorem bind_eq_ok {check : Except Error Value} {next : Value → Except Error Result}
    {result : Result} :
    check >>= next = .ok result ↔ ∃ value, check = .ok value ∧ next value = .ok result := by
  cases check with
  | error error => exact ⟨nofun, nofun⟩
  | ok value =>
      constructor
      · exact fun hnext => ⟨value, rfl, hnext⟩
      · rintro ⟨value', hok, hnext⟩
        exact Except.ok.inj hok ▸ hnext

theorem toOption_eq_some {check : Except Error Value} {value : Value} :
    check.toOption = some value ↔ check = .ok value := by
  cases check with
  | error error => exact ⟨nofun, nofun⟩
  | ok other => exact ⟨fun hsome => congrArg _ (Option.some.inj hsome),
      fun hok => congrArg _ (Except.ok.inj hok)⟩

/-- A check that passes has no error. -/
theorem ok_not_error (value : Value) :
    ¬ ∃ error : Error, (Except.ok value : Except Error Value) = .error error :=
  fun ⟨_, herror⟩ => nomatch herror

/-- What holds of the value a check passes with holds of each. -/
theorem forall_ok_iff {check : Except Error Value} {value : Value} {p : Value → Prop}
    (hcheck : check = .ok value) : (∀ other, check = .ok other → p other) ↔ p value :=
  ⟨fun hall => hall value hcheck, fun h _ hother => Except.ok.inj (hcheck.symm.trans hother) ▸ h⟩

end EasyWaf.Core
