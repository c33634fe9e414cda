import Mathlib

/-!
# Machines and their runs

A machine is a partial step function: `step state action` is the state the
action leads to, or `none` where the action cannot be taken.  A run is any
sequence of actions; `allowed` restricts the actions a run may take in the
state they are taken in, so a property that only holds on well-behaved runs is
stated over the same machine.
-/

namespace EasyWaf.Machine

variable {State Action : Type*}

/-- The state a list of actions leads to, each of them checked before it is
taken. -/
def exec (step : State → Action → Option State) (check : State → Action → Bool) :
    State → List Action → Option State
  | state, [] => some state
  | state, action :: actions =>
      if check state action then
        (step state action).bind fun next => exec step check next actions
      else none

/-- `Run step allowed start state`: some allowed actions lead from `start` to
`state`. -/
inductive Run (step : State → Action → Option State) (allowed : State → Action → Prop)
    (start : State) : State → Prop
  | refl : Run step allowed start start
  | tail {state next : State} {action : Action} (before : Run step allowed start state)
      (hallowed : allowed state action) (hstep : step state action = some next) :
      Run step allowed start next

/-- Every action is allowed. -/
def anything : State → Action → Prop := fun _ _ => True

variable {step : State → Action → Option State} {allowed allowed' : State → Action → Prop}
variable {start middle state : State}

namespace Run

theorem single {action : Action} (hallowed : allowed start action)
    (hstep : step start action = some state) : Run step allowed start state :=
  Run.refl.tail hallowed hstep

theorem trans (first : Run step allowed start middle) (second : Run step allowed middle state) :
    Run step allowed start state := by
  induction second with
  | refl => exact first
  | tail _ hallowed hstep ih => exact ih.tail hallowed hstep

theorem mono (hweaker : ∀ state action, allowed state action → allowed' state action)
    (run : Run step allowed start state) : Run step allowed' start state := by
  induction run with
  | refl => exact refl
  | tail _ hallowed hstep ih => exact ih.tail (hweaker _ _ hallowed) hstep

/-- What holds at the start and is kept by every allowed step holds at the end
of a run. -/
theorem invariant (holds : State → Prop) (run : Run step allowed start state)
    (hkeep : ∀ state action next, holds state → allowed state action →
      step state action = some next → holds next)
    (hstart : holds start) : holds state := by
  induction run with
  | refl => exact hstart
  | tail _ hallowed hstep ih => exact hkeep _ _ _ ih hallowed hstep

/-- What no step lowers, where an invariant holds, is not lower at the end of a
run. -/
theorem monotone {Value : Type*} [Preorder Value] (holds : State → Prop)
    (measure : State → Value) (run : Run step allowed start state)
    (hkeep : ∀ state action next, holds state → allowed state action →
      step state action = some next → holds next)
    (hraise : ∀ state action next, holds state → allowed state action →
      step state action = some next → measure state ≤ measure next)
    (hstart : holds start) : measure start ≤ measure state := by
  have hboth : holds state ∧ measure start ≤ measure state := by
    refine invariant (fun state => holds state ∧ measure start ≤ measure state) run ?_
      ⟨hstart, le_refl _⟩
    rintro s action next ⟨hholds, hle⟩ hallowed hstep
    exact ⟨hkeep s action next hholds hallowed hstep,
      hle.trans (hraise s action next hholds hallowed hstep)⟩
  exact hboth.2

end Run

/-- A list of actions whose checks are sound is a run. -/
theorem run_of_exec {check : State → Action → Bool} {actions : List Action}
    (hsound : ∀ state action, check state action = true → allowed state action)
    (hexec : exec step check start actions = some state) : Run step allowed start state := by
  induction actions generalizing start with
  | nil =>
      simp only [exec, Option.some.injEq] at hexec
      exact hexec ▸ Run.refl
  | cons action actions ih =>
      simp only [exec] at hexec
      split at hexec
      · next hcheck =>
          obtain ⟨next, hstep, hrest⟩ := Option.bind_eq_some_iff.mp hexec
          exact (Run.single (hsound _ _ hcheck) hstep).trans (ih hrest)
      · simp at hexec

section Test

variable (step) (start)

/-- A run to a state that passes a test, found by running a list of actions. -/
theorem exists_run_of_exec (check : State → Action → Bool) (actions : List Action)
    (good : State → Bool)
    (hsound : ∀ state action, check state action = true → allowed state action)
    (hgood : (exec step check start actions).any good = true) :
    ∃ state, Run step allowed start state ∧ good state = true := by
  obtain ⟨state, hexec, hstate⟩ := (Option.any_eq_true _ _).mp hgood
  exact ⟨state, run_of_exec hsound hexec, hstate⟩

/-- Two runs, one after the other, whose ends pass a test each. -/
theorem exists_runs_of_exec (check : State → Action → Bool) (actions actions' : List Action)
    (good good' : State → Bool)
    (hsound : ∀ state action, check state action = true → allowed state action)
    (hgood : (exec step check start actions).any (fun middle =>
      good middle && (exec step check middle actions').any good') = true) :
    ∃ middle state, Run step allowed start middle ∧ good middle = true ∧
      Run step allowed middle state ∧ good' state = true := by
  obtain ⟨middle, run, hmiddle⟩ := exists_run_of_exec step start check actions _ hsound hgood
  simp only [Bool.and_eq_true] at hmiddle
  obtain ⟨state, run', hstate⟩ :=
    exists_run_of_exec step middle check actions' good' hsound hmiddle.2
  exact ⟨middle, state, run, hmiddle.1, run', hstate⟩

end Test

end EasyWaf.Machine
