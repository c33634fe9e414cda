import EasyWaf.Core.Machine

/-!
# Programs that may be cut off

A program calls one operation after another and ends with a result.  What comes
of a call is chosen by the world: it may work, fail, or stop half-way.  A program
may also be cut off before any of its calls, so what it promises is said of every
state along the way as well as of the last one.
-/

namespace EasyWaf.Core

inductive Program (Op : Type) (Answer : Op → Type) (Result : Type) : Type
  | done (result : Result)
  | call (op : Op) (next : Answer op → Program Op Answer Result)

namespace Program

variable {Op Choice State Result Result' : Type} {Answer : Op → Type}

protected def bind : Program Op Answer Result → (Result → Program Op Answer Result') →
    Program Op Answer Result'
  | done result, after => after result
  | call op next, after => call op fun answer => (next answer).bind after

instance : Monad (Program Op Answer) where
  pure := done
  bind := Program.bind

/-- The program of one call. -/
def perform (op : Op) : Program Op Answer (Answer op) := call op done

section Meaning

variable (effect : (op : Op) → Choice → State → Option (Answer op × State))
variable (permits : State → Op → Choice → Prop)

/-- The next call, as the world chooses. -/
def advance (choice : Choice) :
    Program Op Answer Result → State → Option (Program Op Answer Result × State)
  | done _, _ => none
  | call op next, state =>
      (effect op choice state).map fun outcome => (next outcome.1, outcome.2)

/-- The next call is one the world may choose to answer so. -/
def Permitted (choice : Choice) : Program Op Answer Result → State → Prop
  | done _, _ => True
  | call op _, state => permits state op choice

instance {permits : State → Op → Choice → Prop}
    [∀ state op choice, Decidable (permits state op choice)] (choice : Choice) :
    ∀ (program : Program Op Answer Result) (state : State),
      Decidable (Permitted permits choice program state)
  | done _, _ => .isTrue trivial
  | call op _, state => inferInstanceAs (Decidable (permits state op choice))

/-- The program carried out with no other beside it, as the world chooses. -/
def alone (choice : Choice) : Program Op Answer Result → State → Option (Result × State)
  | done result, state => some (result, state)
  | call op next, state =>
      (effect op choice state).bind fun outcome => (next outcome.1).alone choice outcome.2

/-- Wherever the program is cut off the state keeps `Inv`, and where it ends its
result and the state meet `Post`. -/
def Keeps (Inv : State → Prop) (Post : Result → State → Prop) :
    Program Op Answer Result → State → Prop
  | done result, state => Post result state
  | call op next, state => ∀ choice answer after, permits state op choice →
      effect op choice state = some (answer, after) →
        Inv after ∧ Keeps Inv Post (next answer) after

/-- Every call changes the state as `Rel` says, and where the program ends its result and
the state meet `Post`. -/
def Steps (Rel : State → State → Prop) (Post : Result → State → Prop) :
    Program Op Answer Result → State → Prop
  | done result, state => Post result state
  | call op next, state => ∀ choice answer after, permits state op choice →
      effect op choice state = some (answer, after) →
        Rel state after ∧ Steps Rel Post (next answer) after

end Meaning

variable {effect : (op : Op) → Choice → State → Option (Answer op × State)}
variable {permits : State → Op → Choice → Prop}
variable {Inv : State → Prop} {Post Post' : Result → State → Prop}
variable {program program' : Program Op Answer Result} {state state' : State}

@[simp]
theorem keeps_pure (result : Result) :
    Keeps effect permits Inv Post (pure result) state ↔ Post result state :=
  Iff.rfl

@[simp]
theorem keeps_perform {op : Op} {Post : Answer op → State → Prop} :
    Keeps effect permits Inv Post (perform op) state ↔
      ∀ choice answer after, permits state op choice →
        effect op choice state = some (answer, after) → Inv after ∧ Post answer after :=
  Iff.rfl

theorem Keeps.mono (hpost : ∀ result state, Post result state → Post' result state)
    (hkeeps : Keeps effect permits Inv Post program state) :
    Keeps effect permits Inv Post' program state := by
  induction program generalizing state with
  | done result => exact hpost result state hkeeps
  | call op next ih =>
      intro choice answer after hpermits heffect
      obtain ⟨hinv, hnext⟩ := hkeeps choice answer after hpermits heffect
      exact ⟨hinv, ih answer hnext⟩

/-- One program after another. -/
theorem Keeps.bind {first : Program Op Answer Result}
    {second : Result → Program Op Answer Result'} {Middle : Result → State → Prop}
    {Last : Result' → State → Prop} (hfirst : Keeps effect permits Inv Middle first state)
    (hsecond : ∀ result state, Middle result state →
      Keeps effect permits Inv Last (second result) state) :
    Keeps effect permits Inv Last (first >>= second) state := by
  induction first generalizing state with
  | done result => exact hsecond result state hfirst
  | call op next ih =>
      intro choice answer after hpermits heffect
      obtain ⟨hinv, hnext⟩ := hfirst choice answer after hpermits heffect
      exact ⟨hinv, ih answer hnext⟩

/-- What is left of a program after a call promises what the program did. -/
theorem Keeps.advance {choice : Choice}
    (hkeeps : Keeps effect permits Inv Post program state)
    (hpermitted : Permitted permits choice program state)
    (hadvance : program.advance effect choice state = some (program', state')) :
    Inv state' ∧ Keeps effect permits Inv Post program' state' := by
  cases program with
  | done result => simp [Program.advance] at hadvance
  | call op next =>
      simp only [Program.advance, Option.map_eq_some_iff, Prod.mk.injEq] at hadvance
      obtain ⟨⟨answer, after⟩, heffect, rfl, rfl⟩ := hadvance
      exact hkeeps choice answer after hpermitted heffect

theorem alone_bind (first : Program Op Answer Result) (second : Result → Program Op Answer Result')
    (choice : Choice) (state : State) :
    (first >>= second).alone effect choice state =
      (first.alone effect choice state).bind fun ended => (second ended.1).alone effect choice ended.2 := by
  induction first generalizing state with
  | done result => rfl
  | call op next ih =>
      change (effect op choice state).bind (fun outcome =>
        (next outcome.1 >>= second).alone effect choice outcome.2) = _
      rw [alone, Option.bind_assoc]
      congr 1
      funext outcome
      exact ih outcome.1 outcome.2

section Steps

variable {Rel : State → State → Prop}

theorem Steps.mono (hpost : ∀ result state, Post result state → Post' result state)
    (hsteps : Steps effect permits Rel Post program state) :
    Steps effect permits Rel Post' program state := by
  induction program generalizing state with
  | done result => exact hpost result state hsteps
  | call op next ih =>
      intro choice answer after hpermits heffect
      obtain ⟨hrel, hnext⟩ := hsteps choice answer after hpermits heffect
      exact ⟨hrel, ih answer hnext⟩

theorem Steps.bind {first : Program Op Answer Result}
    {second : Result → Program Op Answer Result'} {Middle : Result → State → Prop}
    {Last : Result' → State → Prop} (hfirst : Steps effect permits Rel Middle first state)
    (hsecond : ∀ result state, Middle result state →
      Steps effect permits Rel Last (second result) state) :
    Steps effect permits Rel Last (first >>= second) state := by
  induction first generalizing state with
  | done result => exact hsecond result state hfirst
  | call op next ih =>
      intro choice answer after hpermits heffect
      obtain ⟨hrel, hnext⟩ := hfirst choice answer after hpermits heffect
      exact ⟨hrel, ih answer hnext⟩

/-- One call of a program, and what is left of it. -/
theorem Steps.advance {choice : Choice}
    (hsteps : Steps effect permits Rel Post program state)
    (hpermitted : Permitted permits choice program state)
    (hadvance : program.advance effect choice state = some (program', state')) :
    Rel state state' ∧ Steps effect permits Rel Post program' state' := by
  cases program with
  | done result => simp [Program.advance] at hadvance
  | call op next =>
      simp only [Program.advance, Option.map_eq_some_iff, Prod.mk.injEq] at hadvance
      obtain ⟨⟨answer, after⟩, heffect, rfl, rfl⟩ := hadvance
      exact hsteps choice answer after hpermitted heffect

end Steps

end Program

end EasyWaf.Core
