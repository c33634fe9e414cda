import Mathlib

/-!
# Programs of separate reads

A `Load` reads a changing world one query at a time: between two of its reads
anybody may write.  A read may fail, and the program says what it goes on with
then.  `Load.runAt` runs a program at one frozen world; `Load.Answers` collects
every value it can end with when each read meets a world of its own.
-/

namespace EasyWaf.Core

/-- A program of reads of a `World`, ending with a `Value` or giving up. -/
inductive Load (World Value : Type) : Type 1
  | done (value : Value)
  | refused
  | read {Answer : Type} (query : World → Answer) (next : Option Answer → Load World Value)

namespace Load

variable {World Value : Type}

/-- What the program ends with when every read is answered by one world. -/
def runAt (world : World) : Load World Value → Option Value
  | done value => some value
  | refused => none
  | read query next => (next (some (query world))).runAt world

/-- The program can end with `value` when each of its reads is answered by some
world for which `Live` holds. -/
def Answers (Live : World → Prop) : Load World Value → Value → Prop
  | done value', value => value = value'
  | refused, _ => False
  | read query next, value =>
      ∃ world, Live world ∧ (next (some (query world))).Answers Live value

@[simp]
theorem answers_done (Live : World → Prop) (value value' : Value) :
    (done value' : Load World Value).Answers Live value ↔ value = value' := Iff.rfl

@[simp]
theorem answers_refused (Live : World → Prop) (value : Value) :
    ¬ (refused : Load World Value).Answers Live value := id

@[simp]
theorem answers_read (Live : World → Prop) {Answer : Type} (query : World → Answer)
    (next : Option Answer → Load World Value) (value : Value) :
    (read query next).Answers Live value ↔
      ∃ world, Live world ∧ (next (some (query world))).Answers Live value := Iff.rfl

theorem Answers.mono {Live Live' : World → Prop} (hlive : ∀ world, Live world → Live' world)
    {load : Load World Value} {value : Value} (hanswers : load.Answers Live value) :
    load.Answers Live' value := by
  induction load with
  | done _ => exact hanswers
  | refused => exact hanswers
  | read query next ih =>
      obtain ⟨world, hworld, hrest⟩ := hanswers
      exact ⟨world, hlive world hworld, ih _ hrest⟩

/-- A program run at one live world is one of its answers. -/
theorem answers_of_runAt {Live : World → Prop} {world : World} (hlive : Live world)
    {load : Load World Value} {value : Value} (hrun : load.runAt world = some value) :
    load.Answers Live value := by
  induction load with
  | done _ => exact (Option.some.inj hrun).symm
  | refused => exact absurd hrun (by simp [Load.runAt])
  | read query next ih => exact ⟨world, hlive, ih _ hrun⟩

/-- One program after another. -/
def bind {Value' : Type} (load : Load World Value) (after : Value → Load World Value') :
    Load World Value' :=
  match load with
  | done value => after value
  | refused => refused
  | read query next => read query fun answer => (next answer).bind after

instance : Monad (Load World) where
  pure := done
  bind := bind

theorem bind_assoc {Value' Value'' : Type} (load : Load World Value)
    (after : Value → Load World Value') (after' : Value' → Load World Value'') :
    (load.bind after).bind after' = load.bind fun value => (after value).bind after' := by
  induction load with
  | done _ => rfl
  | refused => rfl
  | read query next ih => simp only [bind, ih]

theorem bind_done (load : Load World Value) : load.bind done = load := by
  induction load with
  | done _ => rfl
  | refused => rfl
  | read query next ih => simp only [bind, ih]

instance : LawfulMonad (Load World) :=
  LawfulMonad.mk' (Load World) (fun load => bind_done load) (fun _ _ => rfl)
    (fun load after after' => bind_assoc load after after')

/-- A read whose failure is taken for `default`. -/
def readOr (query : World → Value) (default : Value) : Load World Value :=
  read query fun answer => done (answer.getD default)

/-- A read whose failure makes the program give up. -/
def readOrRefuse (query : World → Value) : Load World Value :=
  read query fun
    | some answer => done answer
    | none => refused

section Bind

variable {Value' : Type} (load : Load World Value) (after : Value → Load World Value')

@[simp]
theorem runAt_pure (world : World) (value : Value) :
    (pure value : Load World Value).runAt world = some value := rfl

@[simp]
theorem runAt_bind (world : World) :
    (load >>= after).runAt world =
      (load.runAt world).bind fun value => (after value).runAt world := by
  change (load.bind after).runAt world = _
  induction load with
  | done _ => rfl
  | refused => rfl
  | read query next ih => exact ih _

@[simp]
theorem runAt_readOr (world : World) (query : World → Value) (default : Value) :
    (readOr query default).runAt world = some (query world) := rfl

@[simp]
theorem runAt_readOrRefuse (world : World) (query : World → Value) :
    (readOrRefuse query).runAt world = some (query world) := rfl

@[simp]
theorem answers_pure (Live : World → Prop) (value value' : Value) :
    (pure value : Load World Value).Answers Live value' ↔ value' = value := Iff.rfl

@[simp]
theorem answers_bind (Live : World → Prop) (value : Value') :
    (load >>= after).Answers Live value ↔
      ∃ middle, load.Answers Live middle ∧ (after middle).Answers Live value := by
  change (load.bind after).Answers Live value ↔ _
  induction load with
  | done _ => simp [bind]
  | refused => simp [bind]
  | read query next ih =>
      simp only [bind, answers_read, ih]
      constructor
      · rintro ⟨world, hlive, middle, hmiddle, hafter⟩
        exact ⟨middle, ⟨world, hlive, hmiddle⟩, hafter⟩
      · rintro ⟨middle, ⟨world, hlive, hmiddle⟩, hafter⟩
        exact ⟨world, hlive, middle, hmiddle, hafter⟩

@[simp]
theorem runAt_map (world : World) (function : Value → Value') :
    (function <$> load).runAt world = (load.runAt world).map function := by
  rw [← bind_pure_comp, runAt_bind]
  cases load.runAt world <;> rfl

@[simp]
theorem answers_map (Live : World → Prop) (function : Value → Value') (value : Value') :
    (function <$> load).Answers Live value ↔
      ∃ before, load.Answers Live before ∧ value = function before := by
  simp [← bind_pure_comp]

@[simp]
theorem answers_readOr (Live : World → Prop) (query : World → Value) (default value : Value) :
    (readOr query default).Answers Live value ↔ ∃ world, Live world ∧ value = query world :=
  Iff.rfl

@[simp]
theorem answers_readOrRefuse (Live : World → Prop) (query : World → Value) (value : Value) :
    (readOrRefuse query).Answers Live value ↔ ∃ world, Live world ∧ value = query world :=
  Iff.rfl

end Bind

/-- No answers make the program give up. -/
def Answered : Load World Value → Prop
  | done _ => True
  | refused => False
  | read query next => ∀ world, (next (some (query world))).Answered

theorem Answered.bind {Value' : Type} {load : Load World Value}
    {after : Value → Load World Value'} (hload : load.Answered)
    (hafter : ∀ value, (after value).Answered) : (load >>= after).Answered := by
  change (load.bind after).Answered
  induction load with
  | done value => exact hafter value
  | refused => exact hload.elim
  | read query next ih => exact fun world => ih _ (hload world)

theorem answered_pure (value : Value) : (pure value : Load World Value).Answered := trivial

theorem answered_readOr (query : World → Value) (default : Value) :
    (readOr query default).Answered := fun _ => trivial

theorem answered_readOrRefuse (query : World → Value) : (readOrRefuse query).Answered :=
  fun _ => trivial

/-- What an answer and a failure make of a program that begins with a read whose
failure makes it give up. -/
theorem next_of_readOrRefuse {Value' Answer : Type} {query : World → Answer}
    {next : Option Answer → Load World Value'} {query' : World → Value}
    {after : Value → Load World Value'}
    (hload : read query next = readOrRefuse query' >>= after) :
    (∀ world, next (some (query world)) = after (query' world)) ∧ next none = refused := by
  have hread : (readOrRefuse query' >>= after) = read query' fun answer =>
      Load.bind (match answer with
        | some answer => done answer
        | none => refused) after := rfl
  rw [hread] at hload
  cases hload
  exact ⟨fun _ => rfl, rfl⟩

theorem done_ne_readOrRefuse {Value' : Type} {query : World → Value}
    {after : Value → Load World Value'} {value : Value'} :
    done value ≠ readOrRefuse query >>= after := fun hload => by cases hload

/-- `Leads load rest`: some answers take `load` to `rest`. -/
inductive Leads (load : Load World Value) : Load World Value → Prop
  | refl : Leads load load
  | read {Answer : Type} {query : World → Answer} {next : Option Answer → Load World Value}
      (before : Leads load (.read query next)) (answer : Option Answer) : Leads load (next answer)

/-- A single read has been made or has not. -/
theorem Leads.of_read_done {Answer : Type} {query : World → Answer}
    {rest : Load World (Option Answer)} (hleads : Leads (.read query done) rest) :
    rest = .read query done ∨ ∃ answer, rest = done answer := by
  induction hleads with
  | refl => exact .inl rfl
  | read _ answer ih =>
      rcases ih with heq | ⟨_, heq⟩
      · cases heq
        exact .inr ⟨answer, rfl⟩
      · cases heq

/-- `Reaches world load rest`: reads answered by `world` take `load` to `rest`. -/
inductive Reaches (world : World) (load : Load World Value) : Load World Value → Prop
  | refl : Reaches world load load
  | read {Answer : Type} {query : World → Answer} {next : Option Answer → Load World Value}
      (before : Reaches world load (.read query next)) :
      Reaches world load (next (some (query world)))

/-- Where one world has answered every read so far, finishing at that world
gives what the whole program gives there. -/
theorem Reaches.runAt_eq {world : World} {load rest : Load World Value}
    (hreaches : Reaches world load rest) : rest.runAt world = load.runAt world := by
  induction hreaches with
  | refl => rfl
  | read _ ih => exact ih

end Load

end EasyWaf.Core
