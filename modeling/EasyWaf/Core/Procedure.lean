import EasyWaf.Core.Machine

/-!
# Procedures that run side by side

A procedure is carried out one statement at a time over a state that others use
too.  A statement is atomic: its outcome decides what becomes of the state it
meets, and how the procedure goes on.  A world has the state and the calls under
way; any of them may take the next step, and all of them may be cut off at once.

What a call knows is what its last statement met, so an assertion about a call
may speak of that state and of the present one.
-/

namespace EasyWaf.Core

open Machine

/-- What is left to be carried out. -/
inductive Procedure (State Outcome Result : Type) : Type
  | done (result : Result)
  | step (effect : Outcome → State → State)
      (next : Outcome → State → Procedure State Outcome Result)

namespace Procedure

variable {State Outcome Result Request : Type}

/-- The procedure carried out at once, every statement with the same outcome. -/
def run (outcome : Outcome) : Procedure State Outcome Result → State → State × Result
  | done result, state => (state, result)
  | step effect next, state => (next outcome state).run outcome (effect outcome state)

/-- A statement that is carried out or fails and leaves everything as it was; a
procedure does not go on after one that failed. -/
def statement (effect : State → State) (next : State → Procedure State Bool Result)
    (failed : Result) : Procedure State Bool Result :=
  step (fun done state => if done then effect state else state)
    fun done state => if done then next state else .done failed

/-- A statement that changes nothing. -/
def query (next : State → Procedure State Bool Result) (failed : Result) :
    Procedure State Bool Result :=
  statement id next failed

theorem run_statement (effect : State → State) (next : State → Procedure State Bool Result)
    (failed : Result) (state : State) :
    (statement effect next failed).run true state = (next state).run true (effect state) := rfl

theorem run_query (next : State → Procedure State Bool Result) (failed : Result) (state : State) :
    (query next failed).run true state = (next state).run true state := rfl

structure Call (State Outcome Result : Type) where
  rest : Procedure State Outcome Result
  /-- The state its last statement met, or that it was begun in. -/
  seen : State

structure World (State Outcome Result : Type) where
  shared : State
  calls : List (Call State Outcome Result)

inductive Action (Request Outcome : Type)
  | start (request : Request)
  | advance (call : ℕ) (outcome : Outcome)
  | cut

/-- Everything that was asked for has been answered. -/
def World.AllAnswered (world : World State Outcome Result) : Prop :=
  ∀ call ∈ world.calls, ∃ result, call.rest = .done result

section Interleaving

variable (program : Request → Procedure State Outcome Result) (restart : State → State)

/-- One step of the world. -/
def advance (world : World State Outcome Result) :
    Action Request Outcome → Option (World State Outcome Result)
  | .start request =>
      some { world with calls := world.calls ++ [⟨program request, world.shared⟩] }
  | .advance call outcome =>
      match world.calls[call]? with
      | some ⟨.step effect next, _⟩ =>
          some
            { shared := effect outcome world.shared
              calls := world.calls.set call ⟨next outcome world.shared, world.shared⟩ }
      | _ => none
  | .cut => some { shared := restart world.shared, calls := [] }

/-- Calls are begun and go on as permitted. -/
def permitting (begins : State → Request → Prop)
    (permits : State → Call State Outcome Result → Outcome → Prop)
    (world : World State Outcome Result) : Action Request Outcome → Prop
  | .start request => begins world.shared request
  | .advance call outcome => ∀ going, world.calls[call]? = some going →
      permits world.shared going outcome
  | .cut => True

variable {program restart}
variable {begins : State → Request → Prop}
variable {permits : State → Call State Outcome Result → Outcome → Prop}
variable {start world next : World State Outcome Result}

/-- What a step of a call does. -/
theorem advance_call_eq_some {call : ℕ} {outcome : Outcome}
    (hstep : advance program restart world (.advance call outcome) = some next) :
    ∃ effect after seen, world.calls[call]? = some ⟨.step effect after, seen⟩ ∧
      next.shared = effect outcome world.shared ∧
      next.calls = world.calls.set call ⟨after outcome world.shared, world.shared⟩ := by
  rw [advance] at hstep
  split at hstep
  · next effect after seen hcall =>
      obtain rfl := Option.some.inj hstep
      exact ⟨effect, after, seen, hcall, rfl, rfl⟩
  · contradiction

/-- Rely and guarantee: where every call keeps the invariant at its own steps, and
its assertion and those of the others stand whoever takes a step, all of them
hold throughout every run. -/
theorem holds_of_run {Inv : State → Prop} {Good : State → Call State Outcome Result → Prop}
    (run : Run (advance program restart) (permitting begins permits) start world)
    (hbegin : ∀ state request, Inv state → begins state request →
      Good state ⟨program request, state⟩)
    (hown : ∀ state effect after seen outcome, Inv state →
      Good state ⟨.step effect after, seen⟩ → permits state ⟨.step effect after, seen⟩ outcome →
      Inv (effect outcome state) ∧ Good (effect outcome state) ⟨after outcome state, state⟩)
    (hother : ∀ state effect after seen outcome call, Inv state →
      Good state ⟨.step effect after, seen⟩ → permits state ⟨.step effect after, seen⟩ outcome →
      Good state call → Good (effect outcome state) call)
    (hcut : ∀ state, Inv state → Inv (restart state))
    (hstart : Inv start.shared) (hcalls : ∀ call ∈ start.calls, Good start.shared call) :
    Inv world.shared ∧ ∀ call ∈ world.calls, Good world.shared call := by
  refine run.invariant
    (fun world => Inv world.shared ∧ ∀ call ∈ world.calls, Good world.shared call) ?_
    ⟨hstart, hcalls⟩
  rintro world action next ⟨hinv, hgood⟩ hallowed hstep
  cases action with
  | start request =>
      obtain rfl := Option.some.inj hstep
      refine ⟨hinv, ?_⟩
      simp only [List.mem_append, List.mem_singleton]
      rintro call (hcall | rfl)
      · exact hgood call hcall
      · exact hbegin _ _ hinv hallowed
  | advance call outcome =>
      obtain ⟨effect, after, seen, hcall, hshared, hset⟩ := advance_call_eq_some hstep
      have hgoing := hgood _ (List.mem_of_getElem? hcall)
      obtain ⟨hinv', hgood'⟩ := hown _ _ _ _ _ hinv hgoing (hallowed _ hcall)
      rw [hshared, hset]
      refine ⟨hinv', fun other hmem => ?_⟩
      rcases List.mem_or_eq_of_mem_set hmem with hmem | rfl
      · exact hother _ _ _ _ _ _ hinv hgoing (hallowed _ hcall) (hgood other hmem)
      · exact hgood'
  | cut =>
      obtain rfl := Option.some.inj hstep
      exact ⟨hcut _ hinv, by simp⟩

end Interleaving

end Procedure

end EasyWaf.Core
