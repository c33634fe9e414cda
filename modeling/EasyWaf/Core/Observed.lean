import EasyWaf.Core.Load
import EasyWaf.Core.Procedure

/-!
# Procedures observed by reads

One procedure changes a state a statement at a time, and any number of loads read
it a query at a time.  A load sees the state in the middle of the procedure unless
something keeps the two apart.  `Apart` is enough: a load reads only while the
state is as the procedure found it or once the procedure has ended, a statement that
changes something does not fall between two reads of one load, and a statement fails
only while nothing is changed.
-/

namespace EasyWaf.Core

open Machine

namespace Load

variable {World Value Value' : Type}

/-- A read that fails makes the program give up. -/
def Strict : Load World Value → Prop
  | done _ => True
  | refused => True
  | read _ next => next none = refused ∧ ∀ answer, (next (some answer)).Strict

/-- What the program has ended with, if it has. -/
def ended : Load World Value → Option Value
  | done value => some value
  | _ => none

theorem eq_done_of_ended {load : Load World Value} {value : Value}
    (hended : load.ended = some value) : load = .done value := by
  cases load with
  | done value' => exact congrArg done (Option.some.inj hended)
  | refused => contradiction
  | read query next => contradiction

theorem strict_readOrRefuse (query : World → Value) : (readOrRefuse query).Strict :=
  ⟨rfl, fun _ => trivial⟩

theorem Strict.bind {load : Load World Value} {after : Value → Load World Value'}
    (hload : load.Strict) (hafter : ∀ value, (after value).Strict) : (load >>= after).Strict := by
  induction load with
  | done value => exact hafter value
  | refused => trivial
  | read query next ih =>
      constructor
      · exact congrArg (Load.bind · after) hload.1
      · exact fun answer => ih (some answer) (hload.2 answer)

end Load

namespace Procedure

variable {State Result Value : Type}

/-- A statement that fails changes nothing and ends the procedure. -/
def Stops (failed : Result) : Procedure State Bool Result → Prop
  | done _ => True
  | step effect next => ∀ state, effect false state = state ∧ next false state = .done failed ∧
      (next true state).Stops failed

theorem Stops.statement {effect : State → State} {next : State → Procedure State Bool Result}
    {failed : Result} (hnext : ∀ state, (next state).Stops failed) :
    (statement effect next failed).Stops failed :=
  fun state => ⟨rfl, rfl, hnext state⟩

/-- What the procedure has ended with, if it has. -/
def ended : Procedure State Bool Result → Option Result
  | done result => some result
  | step _ _ => none

theorem eq_done_of_ended {procedure : Procedure State Bool Result} {result : Result}
    (hended : procedure.ended = some result) : procedure = .done result := by
  cases procedure with
  | done result' => exact congrArg done (Option.some.inj hended)
  | step effect next => contradiction

structure Reading (State Value : Type) where
  /-- It has read something. -/
  begun : Bool
  rest : Load State Value

/-- It has read something and will read more. -/
def Reading.Between (reading : Reading State Value) : Prop :=
  reading.begun = true ∧ ∃ (Answer : Type) (query : State → Answer)
    (next : Option Answer → Load State Value), reading.rest = .read query next

structure Observed (State Result Value : Type) where
  shared : State
  rest : Procedure State Bool Result
  readings : List (Reading State Value)

inductive Act
  | proceed (succeeds : Bool)
  | begin
  | read (index : ℕ) (answered : Bool)

variable (load : Load State Value)

/-- One statement of the procedure, one more load, or one query of a load. -/
def observe (world : Observed State Result Value) : Act → Option (Observed State Result Value)
  | .proceed succeeds =>
      match world.rest with
      | .step effect next =>
          some
            { world with
              shared := effect succeeds world.shared
              rest := next succeeds world.shared }
      | .done _ => none
  | .begin => some { world with readings := world.readings ++ [⟨false, load⟩] }
  | .read index answered =>
      match world.readings[index]? with
      | some ⟨_, .read query next⟩ =>
          let answer := if answered then some (query world.shared) else none
          some { world with readings := world.readings.set index ⟨true, next answer⟩ }
      | _ => none

/-- The next statement leaves the state as it is. -/
def ChangesNothing (succeeds : Bool) (state : State) : Procedure State Bool Result → Prop
  | .step effect _ => effect succeeds state = state
  | .done _ => True

/-- The procedure and the loads keep out of each other's way. -/
def Apart (before : State) (world : Observed State Result Value) : Act → Prop
  | .proceed succeeds => (succeeds = true ∨ world.shared = before) ∧
      (ChangesNothing succeeds world.shared world.rest ∨
        ∀ reading ∈ world.readings, ¬reading.Between)
  | .begin => True
  | .read _ _ => world.shared = before ∨ ∃ result, world.rest = .done result

variable {load} {procedure : Procedure State Bool Result} {failed : Result}
variable {before state state' : State} {world : Observed State Result Value}

/-- The procedure is on its way from where it began, or it has failed there. -/
def OnItsWay (procedure : Procedure State Bool Result) (failed : Result) (before state : State)
    (rest : Procedure State Bool Result) : Prop :=
  rest.run true state = procedure.run true before ∧ rest.Stops failed ∨
    rest = .done failed ∧ state = before

/-- A load has given up, has read nothing, or has read one state, which is the
present one while it goes on reading. -/
def ReadsOne (load : Load State Value) (before after state : State)
    (reading : Reading State Value) : Prop :=
  reading.rest = .refused ∨ reading.begun = false ∧ reading.rest = load ∨
    ∃ seen, (seen = before ∨ seen = after) ∧ reading.rest.runAt seen = load.runAt seen ∧
      reading.rest.Strict ∧ reading.begun = true ∧ (reading.Between → seen = state)

theorem OnItsWay.proceed {effect : Bool → State → State}
    {next : Bool → State → Procedure State Bool Result} {succeeds : Bool}
    (hway : OnItsWay procedure failed before state (.step effect next))
    (hsucceeds : succeeds = true ∨ state = before) :
    OnItsWay procedure failed before (effect succeeds state) (next succeeds state) := by
  rcases hway with ⟨hrun, hstops⟩ | ⟨hdone, -⟩
  · obtain ⟨heffect, hnext, hrest⟩ := hstops state
    cases succeeds with
    | true => exact .inl ⟨hrun, hrest⟩
    | false =>
        have hbefore : state = before := hsucceeds.resolve_left Bool.noConfusion
        exact .inr ⟨hnext, heffect.trans hbefore⟩
  · contradiction

/-- A statement is not seen by a load that reads nothing more, nor one that
changes nothing by any. -/
theorem ReadsOne.proceed {after : State} {reading : Reading State Value}
    (hreads : ReadsOne load before after state reading)
    (hunseen : state' = state ∨ ¬reading.Between) : ReadsOne load before after state' reading := by
  rcases hreads with hrefused | hunbegun | ⟨seen, hseen, hruns, hstrict, hbegun, hpresent⟩
  · exact .inl hrefused
  · exact .inr (.inl hunbegun)
  · refine .inr (.inr ⟨seen, hseen, hruns, hstrict, hbegun, fun hbetween => ?_⟩)
    rcases hunseen with rfl | hnot
    · exact hpresent hbetween
    · exact absurd hbetween hnot

theorem ReadsOne.read {Answer : Type} {after : State} {begun answered : Bool}
    {query : State → Answer} {next : Option Answer → Load State Value} (hload : load.Strict)
    (hreads : ReadsOne load before after state ⟨begun, .read query next⟩)
    (hsettled : state = before ∨ state = after) :
    ReadsOne load before after state
      ⟨true, next (if answered then some (query state) else none)⟩ := by
  have hone : ∃ seen, (seen = before ∨ seen = after) ∧
      (Load.read query next).runAt seen = load.runAt seen ∧ (Load.read query next).Strict ∧
      seen = state := by
    rcases hreads with hrefused | ⟨-, hunread⟩ | ⟨seen, hseen, hruns, hstrict, hbegun, hpresent⟩
    · contradiction
    · exact ⟨state, hsettled, congrArg (·.runAt state) hunread,
        (show Load.read query next = load from hunread) ▸ hload, rfl⟩
    · exact ⟨seen, hseen, hruns, hstrict, hpresent ⟨hbegun, _, query, next, rfl⟩⟩
  obtain ⟨seen, hseen, hruns, hstrict, rfl⟩ := hone
  cases answered with
  | true => exact .inr (.inr ⟨seen, hseen, hruns, hstrict.2 _, rfl, fun _ => rfl⟩)
  | false => exact .inl hstrict.1

/-- How the procedure has ended. -/
theorem OnItsWay.of_done {result : Result}
    (hway : OnItsWay procedure failed before state (.done result)) :
    procedure.run true before = (state, result) ∨ result = failed ∧ state = before := by
  rcases hway with ⟨hrun, -⟩ | ⟨hdone, hstate⟩
  · exact .inl hrun.symm
  · exact .inr ⟨Procedure.done.inj hdone, hstate⟩

theorem OnItsWay.settled {rest : Procedure State Bool Result}
    (hway : OnItsWay procedure failed before state rest)
    (hsettled : state = before ∨ ∃ result, rest = .done result) :
    state = before ∨ state = (procedure.run true before).1 := by
  rcases hsettled with hbefore | ⟨result, rfl⟩
  · exact .inl hbefore
  · rcases hway.of_done with hrun | ⟨-, hbefore⟩
    · rw [hrun]
      exact .inr rfl
    · exact .inl hbefore

/-- Kept apart, the procedure ends where it would alone, or it fails where it
began, and a load ends with what it would read before or after. -/
theorem observed_of_run (hload : load.Strict) (hstops : procedure.Stops failed)
    (run : Run (observe load) (Apart before) ⟨before, procedure, []⟩ world) :
    OnItsWay procedure failed before world.shared world.rest ∧ ∀ reading ∈ world.readings,
      ReadsOne load before (procedure.run true before).1 world.shared reading := by
  apply run.invariant (fun world => OnItsWay procedure failed before world.shared world.rest ∧
    ∀ reading ∈ world.readings,
      ReadsOne load before (procedure.run true before).1 world.shared reading)
  · rintro world act next ⟨hway, hreads⟩ hapart hstep
    cases act with
    | proceed succeeds =>
        rw [observe] at hstep
        split at hstep
        · rename_i effect after' hrest
          obtain rfl := Option.some.inj hstep
          rw [hrest] at hway
          refine ⟨hway.proceed hapart.1, fun reading hreading => ?_⟩
          apply (hreads reading hreading).proceed
          refine hapart.2.imp (fun hnothing => ?_) fun hnone => hnone reading hreading
          rw [hrest] at hnothing
          exact hnothing
        · contradiction
    | begin =>
        obtain rfl := Option.some.inj hstep
        refine ⟨hway, fun reading hreading => ?_⟩
        rcases List.mem_append.mp hreading with hold | hnew
        · exact hreads reading hold
        · obtain rfl := List.mem_singleton.mp hnew
          exact .inr (.inl ⟨rfl, rfl⟩)
    | read index answered =>
        rw [observe] at hstep
        split at hstep
        · rename_i begun _ query further hreading
          obtain rfl := Option.some.inj hstep
          refine ⟨hway, fun reading hmem => ?_⟩
          rcases List.mem_or_eq_of_mem_set hmem with hold | rfl
          · exact hreads reading hold
          · exact (hreads _ (List.mem_of_getElem? hreading)).read hload (hway.settled hapart)
        · contradiction
  · exact ⟨.inl ⟨rfl, hstops⟩, fun reading hreading => absurd hreading List.not_mem_nil⟩

/-- While no load is between two reads, the procedure goes to its end. -/
theorem run_alone {readings : List (Reading State Value)}
    (hnone : ∀ reading ∈ readings, ¬reading.Between) (procedure : Procedure State Bool Result)
    (state : State) :
    Run (observe load) (Apart before) ⟨state, procedure, readings⟩
      ⟨(procedure.run true state).1, .done (procedure.run true state).2, readings⟩ := by
  induction procedure generalizing state with
  | done result => exact .refl
  | step effect next ih =>
      have hfirst : Run (observe load) (Apart before) ⟨state, .step effect next, readings⟩
          ⟨effect true state, next true state, readings⟩ :=
        .single (show Apart before _ (.proceed true) from ⟨.inl rfl, .inr hnone⟩) rfl
      exact hfirst.trans (ih true state (effect true state))

/-- What a load has ended with. -/
theorem ReadsOne.of_done {after : State} {begun : Bool} {value : Value}
    (hreads : ReadsOne load before after state ⟨begun, .done value⟩) :
    load.runAt before = some value ∨ load.runAt after = some value := by
  rcases hreads with hrefused | ⟨-, hload⟩ | ⟨seen, hseen, hruns, -⟩
  · contradiction
  · exact .inl (hload ▸ rfl)
  · rcases hseen with rfl | rfl
    · exact .inl hruns.symm
    · exact .inr hruns.symm

end Procedure

end EasyWaf.Core
