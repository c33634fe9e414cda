import EasyWaf.Core.Load

/-!
# Loads in parts

A plan cuts a load into parts that follow one another.  `Plan.Answers` collects
what the load can end with when each part is read at one moment, each at a
moment of its own; the coarser the parts, the more it says.  `Plan.reads` has a
part for each read, `Plan.whole` a single one.
-/

namespace EasyWaf.Core

/-- A load, part after part. -/
inductive Plan (World Value : Type) : Type 1
  | done (value : Value)
  | refused
  | part {Part : Type} (load : Load World Part) (next : Part → Plan World Value)

namespace Plan

variable {World Value : Type}

/-- The load a plan cuts up. -/
def load : Plan World Value → Load World Value
  | done value => .done value
  | refused => .refused
  | part load next => load.bind fun part => (next part).load

/-- The plan can end with `value` when each part is read in some world for which
`Live` holds. -/
def Answers (Live : World → Prop) : Plan World Value → Value → Prop
  | done value', value => value = value'
  | refused, _ => False
  | part load next, value =>
      ∃ world part, Live world ∧ load.runAt world = some part ∧ (next part).Answers Live value

/-- The whole load as one part. -/
def whole (load : Load World Value) : Plan World Value := part load done

/-- Each read a part of its own. -/
def reads : Load World Value → Plan World Value
  | .done value => done value
  | .refused => refused
  | .read query next => part (.read query .done) fun answer => reads (next answer)

def map {Value' : Type} (after : Value → Value') : Plan World Value → Plan World Value'
  | done value => done (after value)
  | refused => refused
  | part load next => part load fun part => (next part).map after

@[simp]
theorem load_whole (load : Load World Value) : (whole load).load = load := Load.bind_done load

@[simp]
theorem load_reads (load : Load World Value) : (reads load).load = load := by
  induction load with
  | done _ => rfl
  | refused => rfl
  | read query next ih => simp only [reads, Plan.load, Load.bind, ih]

theorem load_map {Value' : Type} (after : Value → Value') (plan : Plan World Value) :
    (plan.map after).load = plan.load >>= fun value => pure (after value) := by
  induction plan with
  | done _ => rfl
  | refused => rfl
  | part load next ih =>
      have hnext : (fun part => ((next part).map after).load) =
          fun part => (next part).load.bind fun value => .done (after value) := funext ih
      simp only [map, Plan.load, hnext]
      exact (Load.bind_assoc _ _ _).symm

@[simp]
theorem answers_whole (Live : World → Prop) (load : Load World Value) (value : Value) :
    (whole load).Answers Live value ↔ ∃ world, Live world ∧ load.runAt world = some value := by
  simp [whole, Answers]

@[simp]
theorem answers_reads (Live : World → Prop) (load : Load World Value) (value : Value) :
    (reads load).Answers Live value ↔ load.Answers Live value := by
  induction load with
  | done _ => rfl
  | refused => rfl
  | read query next ih => simp [reads, Answers, Load.runAt, ih]

@[simp]
theorem answers_map {Value' : Type} (Live : World → Prop) (after : Value → Value')
    (plan : Plan World Value) (value : Value') :
    (plan.map after).Answers Live value ↔
      ∃ before, plan.Answers Live before ∧ value = after before := by
  induction plan with
  | done _ => simp [map, Answers]
  | refused => simp [map, Answers]
  | part load next ih =>
      simp only [map, Answers, ih]
      constructor
      · rintro ⟨world, part, hlive, hrun, before, hbefore, rfl⟩
        exact ⟨before, ⟨world, part, hlive, hrun, hbefore⟩, rfl⟩
      · rintro ⟨before, ⟨world, part, hlive, hrun, hbefore⟩, rfl⟩
        exact ⟨world, part, hlive, hrun, before, hbefore, rfl⟩

theorem Answers.mono {Live Live' : World → Prop} (hlive : ∀ world, Live world → Live' world)
    {plan : Plan World Value} {value : Value} (hanswers : plan.Answers Live value) :
    plan.Answers Live' value := by
  induction plan with
  | done _ => exact hanswers
  | refused => exact hanswers
  | part load next ih =>
      obtain ⟨world, part, hworld, hrun, hrest⟩ := hanswers
      exact ⟨world, part, hlive world hworld, hrun, ih part hrest⟩

section Progress

/-- `Ahead plan left`: `left` is what remains of `plan` after some of its
parts. -/
inductive Ahead (plan : Plan World Value) : Plan World Value → Prop
  | refl : Ahead plan plan
  | next {Part : Type} {load : Load World Part} {next : Part → Plan World Value}
      (before : Ahead plan (.part load next)) (part : Part) : Ahead plan (next part)

theorem Ahead.trans {plan middle left : Plan World Value} (first : plan.Ahead middle)
    (second : middle.Ahead left) : plan.Ahead left := by
  induction second with
  | refl => exact first
  | next _ part ih => exact ih.next part

/-- `remaining` is what is left of the plan's load in the middle of a part. -/
structure Amid (plan : Plan World Value) {Part : Type} (load rest : Load World Part)
    (next : Part → Plan World Value) (remaining : Load World Value) : Prop where
  ahead : plan.Ahead (.part load next)
  leads : load.Leads rest
  eq : remaining = rest.bind fun part => (next part).load

/-- Where all that is left of a load is a value, its plan ends with it. -/
theorem answers_of_load_eq_done {Live : World → Prop} {world : World} (hlive : Live world)
    {plan : Plan World Value} {value : Value} (hload : plan.load = .done value) :
    plan.Answers Live value := by
  induction plan with
  | done _ => exact (Load.done.inj hload).symm
  | refused => exact absurd hload (by simp [Plan.load])
  | part load next ih =>
      cases load with
      | done part => exact ⟨world, part, hlive, rfl, ih part hload⟩
      | refused => exact absurd hload (by simp [Plan.load, Load.bind])
      | read query tail => exact absurd hload (by simp [Plan.load, Load.bind])

/-- Where what is left of a load begins with a read, so does one of the parts
ahead, and the parts before it read nothing. -/
theorem exists_part_of_load_eq_read {plan : Plan World Value} {Answer : Type}
    {query : World → Answer} {tail : Option Answer → Load World Value}
    (hload : plan.load = .read query tail) :
    ∃ (Part : Type) (after : Option Answer → Load World Part) (next : Part → Plan World Value),
      plan.Ahead (.part (.read query after) next) ∧
      (tail = fun answer => (after answer).bind fun part => (next part).load) ∧
      ∀ (Live : World → Prop) (world : World) (value : Value), Live world →
        (Plan.part (.read query after) next).Answers Live value → plan.Answers Live value := by
  induction plan with
  | done _ => exact absurd hload (by simp [Plan.load])
  | refused => exact absurd hload (by simp [Plan.load])
  | part load next ih =>
      cases load with
      | done part =>
          obtain ⟨Part', after, next', hahead, htail, hanswers⟩ := ih part hload
          refine ⟨Part', after, next', (Ahead.refl.next part).trans hahead, htail, ?_⟩
          exact fun Live world value hlive hvalue =>
            ⟨world, part, hlive, rfl, hanswers Live world value hlive hvalue⟩
      | refused => exact absurd hload (by simp [Plan.load, Load.bind])
      | read query' after =>
          simp only [Plan.load, Load.bind] at hload
          cases hload
          exact ⟨_, after, next, .refl, rfl, fun _ _ _ _ hvalue => hvalue⟩

/-- The parts of `reads load` are single reads. -/
theorem Ahead.of_reads {load : Load World Value} {left : Plan World Value}
    (hahead : (reads load).Ahead left) : ∃ rest : Load World Value, left = reads rest := by
  induction hahead with
  | refl => exact ⟨load, rfl⟩
  | next _ part ih =>
      obtain ⟨rest, heq⟩ := ih
      cases rest with
      | done _ => cases heq
      | refused => cases heq
      | read query tail =>
          cases heq
          exact ⟨tail part, rfl⟩

end Progress

end Plan

end EasyWaf.Core
