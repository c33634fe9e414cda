import EasyWaf.Core.Program

/-!
# Programs that run side by side

Programs of the same operations over a state they share.  Any of them may carry
out its next operation, and all of them may be cut off at once.

Two rules are for whole runs.  What every operation keeps of the shared state holds
throughout.  And where the shared state is not as it should be, some program has
yet to put it right: once every program has ended, it is.
-/

namespace EasyWaf.Core

namespace Program

open Machine

variable {Op Choice State Request Result : Type} {Answer : Op → Type}

/-- The shared state and the programs under way. -/
structure Together (Op : Type) (Answer : Op → Type) (Result State : Type) where
  shared : State
  calls : List (Program Op Answer Result)

inductive Move (Request Choice : Type)
  | start (request : Request)
  | advance (index : ℕ) (choice : Choice)
  | cut

/-- Everything that was asked for has been answered. -/
def Together.AllAnswered (world : Together Op Answer Result State) : Prop :=
  ∀ call ∈ world.calls, ∃ result, call = .done result

section Interleaving

variable (effect : (op : Op) → Choice → State → Option (Answer op × State))
variable (program : Request → Program Op Answer Result)
variable (restart : State → State) (boot : List (Program Op Answer Result))
variable (permits : State → Program Op Answer Result → Choice → Prop)
variable (Pending : Program Op Answer Result → Prop)

/-- One move.  After a cut the programs of the next start are under way. -/
def interleave (world : Together Op Answer Result State) :
    Move Request Choice → Option (Together Op Answer Result State)
  | .start request => some { world with calls := world.calls ++ [program request] }
  | .advance index choice =>
      match world.calls[index]? with
      | some going =>
          (going.advance effect choice world.shared).map fun next =>
            { shared := next.2, calls := world.calls.set index next.1 }
      | none => none
  | .cut => some { shared := restart world.shared, calls := boot }

/-- A call other than this one is pending. -/
def AnotherPending (world : Together Op Answer Result State) (index : ℕ) : Prop :=
  ∃ other call, other ≠ index ∧ world.calls[other]? = some call ∧ Pending call

/-- Every operation is one its program may meet with, or another call is pending. -/
def Meets (world : Together Op Answer Result State) : Move Request Choice → Prop
  | .advance index choice => ∀ going, world.calls[index]? = some going →
      permits world.shared going choice ∨ AnotherPending Pending world index
  | _ => True

variable {effect} {program} {restart} {boot} {permits} {Pending}
variable {start world : Together Op Answer Result State}

/-- What an operation of a program does. -/
theorem advance_eq_some {choice : Choice} {going next : Program Op Answer Result}
    {state after : State} (hadvance : going.advance effect choice state = some (next, after)) :
    ∃ op goOn answer, going = call op goOn ∧ effect op choice state = some (answer, after) ∧
      next = goOn answer := by
  cases going with
  | done result => simp [Program.advance] at hadvance
  | call op goOn =>
      simp only [Program.advance, Option.map_eq_some_iff, Prod.mk.injEq] at hadvance
      obtain ⟨⟨answer, after⟩, heffect, rfl, rfl⟩ := hadvance
      exact ⟨op, goOn, answer, rfl, heffect, rfl⟩

/-- What an operation of one of the programs does to all of them. -/
theorem interleave_advance {index : ℕ} {choice : Choice}
    {next : Together Op Answer Result State}
    (hmove : interleave effect program restart boot world (.advance index choice) = some next) :
    ∃ op goOn answer after, world.calls[index]? = some (call op goOn) ∧
      effect op choice world.shared = some (answer, after) ∧
      next = { shared := after, calls := world.calls.set index (goOn answer) } := by
  simp only [interleave] at hmove
  split at hmove
  · next going hgoing =>
      obtain ⟨⟨later, after⟩, hadvance, rfl⟩ := Option.map_eq_some_iff.mp hmove
      obtain ⟨op, goOn, answer, rfl, heffect, rfl⟩ := advance_eq_some hadvance
      exact ⟨op, goOn, answer, after, hgoing, heffect, rfl⟩
  · contradiction

/-- What every operation keeps of the shared state holds throughout. -/
theorem shared_of_run {Inv : State → Prop}
    (run : Run (interleave effect program restart boot) (Meets permits fun _ => False) start world)
    (hkeep : ∀ state op goOn choice answer after, Inv state →
      permits state (call op goOn) choice → effect op choice state = some (answer, after) →
        Inv after)
    (hcut : ∀ state, Inv state → Inv (restart state)) (hstart : Inv start.shared) :
    Inv world.shared := by
  apply run.invariant (fun world => Inv world.shared) _ hstart
  intro world move next hinv hmeets hmove
  cases move with
  | start request => exact Option.some.inj hmove ▸ hinv
  | advance index choice =>
      obtain ⟨op, goOn, answer, after, hgoing, heffect, rfl⟩ := interleave_advance hmove
      apply hkeep world.shared op goOn choice answer after hinv _ heffect
      apply (hmeets _ hgoing).resolve_right
      rintro ⟨-, -, -, -, hpending⟩
      exact hpending
  | cut => exact Option.some.inj hmove ▸ hcut _ hinv

/-- The state is settled, or a program under way owes what settles it. -/
def Accounts (Settled : State → Prop) (Owes : Program Op Answer Result → State → Prop)
    (world : Together Op Answer Result State) : Prop :=
  Settled world.shared ∨ ∃ call ∈ world.calls, Owes call world.shared

/-- What one operation does to the debts of its own program and to those of others. -/
def PassesOn (Settled : State → Prop) (Owes : Program Op Answer Result → State → Prop)
    (state after : State) (before next : Program Op Answer Result) : Prop :=
  (Settled state ∨ Owes before state → Settled after ∨ Owes next after) ∧
    ∀ other, Owes other state → Settled after ∨ Owes next after ∨ Owes other after

/-- One of the other calls is there after an operation as it was before. -/
theorem mem_set_of_ne {calls : List (Program Op Answer Result)} {index other : ℕ}
    {held next : Program Op Answer Result} (hne : other ≠ index)
    (hheld : calls[other]? = some held) : held ∈ calls.set index next := by
  apply List.mem_of_getElem? (i := other)
  rw [List.getElem?_set_ne hne.symm, hheld]

/-- Debts of the calls under way, passed on by one operation. -/
theorem Accounts.advance {Settled : State → Prop}
    {Owes : Program Op Answer Result → State → Prop} {index : ℕ} {after : State}
    {before next : Program Op Answer Result} (haccounts : Accounts Settled Owes world)
    (hbefore : world.calls[index]? = some before)
    (hpasses : PassesOn Settled Owes world.shared after before next) :
    Accounts Settled Owes { shared := after, calls := world.calls.set index next } := by
  obtain ⟨hlt, -⟩ := List.getElem?_eq_some_iff.mp hbefore
  have hnext : next ∈ world.calls.set index next := List.mem_set hlt next
  obtain hsettled | ⟨held, hheld, howes⟩ := haccounts
  · exact (hpasses.1 (.inl hsettled)).imp id fun h => ⟨next, hnext, h⟩
  · obtain ⟨place, hplace⟩ := List.getElem?_of_mem hheld
    by_cases heq : place = index
    · subst heq
      obtain rfl := Option.some.inj (hbefore.symm.trans hplace)
      exact (hpasses.1 (.inr howes)).imp id fun h => ⟨next, hnext, h⟩
    · rcases hpasses.2 held howes with hsettled | hown | hother
      · exact .inl hsettled
      · exact .inr ⟨next, hnext, hown⟩
      · exact .inr ⟨held, mem_set_of_ne heq hplace, hother⟩

/-- Debts are passed on or paid: where all programs have ended, the state is
settled.  `Fit` is what a program is fit for, by the way it is written. -/
theorem settled_of_run {Settled : State → Prop} {Owes : Program Op Answer Result → State → Prop}
    {Fit : Program Op Answer Result → Prop}
    (run : Run (interleave effect program restart boot) (Meets permits Pending) start world)
    (hpending : ∀ call state, Pending call → Owes call state)
    (hprogram : ∀ request, Fit (program request)) (hbootFit : ∀ call ∈ boot, Fit call)
    (hfit : ∀ op goOn answer, Fit (call op goOn) → Fit (goOn answer))
    (hstep : ∀ state op goOn choice answer after, Fit (call op goOn) →
      permits state (call op goOn) choice → effect op choice state = some (answer, after) →
        PassesOn Settled Owes state after (call op goOn) (goOn answer))
    (hdone : ∀ result state, ¬ Owes (done result) state)
    (hboot : ∀ state, Settled (restart state) ∨ ∃ call ∈ boot, Owes call (restart state))
    (hstart : Accounts Settled Owes start) (hcalls : ∀ call ∈ start.calls, Fit call)
    (hanswered : world.AllAnswered) : Settled world.shared := by
  have hworld : Accounts Settled Owes world ∧ ∀ call ∈ world.calls, Fit call := by
    apply run.invariant (fun world => Accounts Settled Owes world ∧ ∀ call ∈ world.calls, Fit call)
      _ ⟨hstart, hcalls⟩
    rintro world move next ⟨haccounts, hfits⟩ hmeets hmove
    cases move with
    | start request =>
        obtain rfl := Option.some.inj hmove
        refine ⟨haccounts.imp id ?_, ?_⟩
        · rintro ⟨held, hheld, howes⟩
          exact ⟨held, List.mem_append_left _ hheld, howes⟩
        · intro held hheld
          rcases List.mem_append.mp hheld with hbefore | hnew
          · exact hfits held hbefore
          · rw [List.mem_singleton.mp hnew]
            exact hprogram request
    | advance index choice =>
        obtain ⟨op, goOn, answer, after, hgoing, heffect, rfl⟩ := interleave_advance hmove
        have hown := hfits _ (List.mem_of_getElem? hgoing)
        constructor
        · rcases hmeets _ hgoing with hpermits | ⟨other, held, hne, hheld, hheldPending⟩
          · exact haccounts.advance hgoing
              (hstep _ op goOn choice answer after hown hpermits heffect)
          · exact .inr ⟨held, mem_set_of_ne hne hheld, hpending held after hheldPending⟩
        · intro held hheld
          rcases List.mem_or_eq_of_mem_set hheld with hbefore | rfl
          · exact hfits held hbefore
          · exact hfit op goOn answer hown
    | cut =>
        obtain rfl := Option.some.inj hmove
        exact ⟨hboot _, hbootFit⟩
  obtain ⟨hsettled | ⟨held, hheld, howes⟩, -⟩ := hworld
  · exact hsettled
  · obtain ⟨result, rfl⟩ := hanswered held hheld
    exact absurd howes (hdone result _)

end Interleaving

end Program

end EasyWaf.Core
