import EasyWaf.Core.Interleaving

/-!
# What an operation relies on

A program that looks before it acts relies on what it saw.  Where each operation
leaves what the next one of its program needs, and no other program takes that
away in between, every operation finds what it needs.

What a program did before can also be noted, by a monitor that says what it may do
next.  What each operation keeps of the state and of the notes of all programs holds
throughout, and what one program was told stays true where nothing takes it back.
-/

namespace EasyWaf.Core

namespace Program

open Machine

variable {Op Choice State Request Result Result' : Type} {Answer : Op → Type}

/-- The operation a program carries out next. -/
def nextOp : Program Op Answer Result → Option Op
  | done _ => none
  | call op _ => some op

@[simp]
theorem nextOp_call (op : Op) (next : Answer op → Program Op Answer Result) :
    (call op next).nextOp = some op := rfl

theorem exists_of_nextOp {going : Program Op Answer Result} {op : Op}
    (hnext : going.nextOp = some op) : ∃ goOn, going = call op goOn := by
  cases going with
  | done result => contradiction
  | call op' goOn =>
      obtain rfl := Option.some.inj hnext
      exact ⟨goOn, rfl⟩

section

variable (effect : (op : Op) → Choice → State → Option (Answer op × State))
variable (Needs : Op → State → Prop)

/-- What the next operation of a program needs is there. -/
def Ready (going : Program Op Answer Result) (state : State) : Prop :=
  ∀ op, going.nextOp = some op → Needs op state

/-- Each operation leaves what the next one needs. -/
def Looks : Program Op Answer Result → Prop
  | done _ => True
  | call op next => ∀ choice state answer after, effect op choice state = some (answer, after) →
      Ready Needs (next answer) after ∧ Looks (next answer)

/-- A program that begins with nothing needed and looks before it acts. -/
def Careful (going : Program Op Answer Result) : Prop :=
  (∀ state, Ready Needs going state) ∧ Looks effect Needs going

/-- An operation of one program leaves the others what they need. -/
def Spares (world : Together Op Answer Result State) : Move Request Choice → Prop
  | .advance index choice => ∀ op goOn answer after, world.calls[index]? = some (call op goOn) →
      effect op choice world.shared = some (answer, after) → ∀ other ∈ world.calls,
        Ready Needs other world.shared → Ready Needs other after
  | _ => True

variable {effect} {Needs}

theorem ready_call {op : Op} {goOn : Answer op → Program Op Answer Result} {state : State} :
    Ready Needs (call op goOn) state ↔ Needs op state := by
  simp [Ready]

theorem careful_done (result : Result) :
    Careful effect Needs (done result : Program Op Answer Result) := by
  constructor
  · intro state op hnext
    contradiction
  · trivial

/-- An operation that needs nothing, and careful programs after it. -/
theorem careful_call {op : Op} {goOn : Answer op → Program Op Answer Result}
    (hop : ∀ state, Needs op state) (hnext : ∀ answer, Careful effect Needs (goOn answer)) :
    Careful effect Needs (call op goOn) :=
  ⟨fun state => ready_call.mpr (hop state),
    fun _ _ answer after _ => ⟨(hnext answer).1 after, (hnext answer).2⟩⟩

theorem Ready.bind {first : Program Op Answer Result}
    {second : Result → Program Op Answer Result'} {state : State}
    (hfirst : Ready Needs first state) (hsecond : ∀ result, Ready Needs (second result) state) :
    Ready Needs (first.bind second) state := by
  cases first with
  | done result => exact hsecond result
  | call op next => exact ready_call.mpr (ready_call.mp hfirst)

theorem Looks.bind {first : Program Op Answer Result}
    {second : Result → Program Op Answer Result'} (hfirst : Looks effect Needs first)
    (hsecond : ∀ result, Careful effect Needs (second result)) :
    Looks effect Needs (first >>= second) := by
  induction first with
  | done result => exact (hsecond result).2
  | call op next ih =>
      intro choice state answer after heffect
      obtain ⟨hready, hlooks⟩ := hfirst choice state answer after heffect
      exact ⟨hready.bind fun result => (hsecond result).1 after, ih answer hlooks⟩

theorem Careful.bind {first : Program Op Answer Result}
    {second : Result → Program Op Answer Result'} (hfirst : Careful effect Needs first)
    (hsecond : ∀ result, Careful effect Needs (second result)) :
    Careful effect Needs (first >>= second) := by
  constructor
  · intro state
    exact (hfirst.1 state).bind fun result => (hsecond result).1 state
  · exact hfirst.2.bind hsecond

variable {program : Request → Program Op Answer Result} {restart : State → State}
variable {allowed : Together Op Answer Result State → Move Request Choice → Prop}
variable {start world : Together Op Answer Result State}

/-- Programs that look before they act find what they need, in runs in which no
operation takes from another program what that one needs. -/
theorem ready_of_run
    (run : Run (interleave effect program restart []) allowed start world)
    (hspares : ∀ world move, allowed world move → Spares effect Needs world move)
    (hprogram : ∀ request, Careful effect Needs (program request)) (hnone : start.calls = []) :
    ∀ call ∈ world.calls, Ready Needs call world.shared := by
  have hboth : ∀ call ∈ world.calls, Ready Needs call world.shared ∧ Looks effect Needs call := by
    apply run.invariant
      (fun world => ∀ call ∈ world.calls, Ready Needs call world.shared ∧ Looks effect Needs call)
      _ (by simp [hnone])
    intro world move next hcalls hallowed hmove
    cases move with
    | start request =>
        obtain rfl := Option.some.inj hmove
        intro going hgoing
        obtain hbefore | hnew := List.mem_append.mp hgoing
        · exact hcalls going hbefore
        · rw [List.mem_singleton.mp hnew]
          exact ⟨(hprogram request).1 _, (hprogram request).2⟩
    | advance index choice =>
        obtain ⟨op, goOn, answer, after, hindex, heffect, rfl⟩ := interleave_advance hmove
        have hown := (hcalls _ (List.mem_of_getElem? hindex)).2 choice world.shared answer after
          heffect
        intro going hgoing
        obtain hbefore | rfl := List.mem_or_eq_of_mem_set hgoing
        · obtain ⟨hready, hlooks⟩ := hcalls going hbefore
          exact ⟨hspares world _ hallowed op goOn answer after hindex heffect going hbefore hready,
            hlooks⟩
        · exact hown
    | cut =>
        obtain rfl := Option.some.inj hmove
        simp
  exact fun call hcall => (hboth call hcall).1

end

section Pairs

variable {First Second : Type} {related : First → Second → Prop}
variable {firsts : List First} {seconds : List Second} {first : First} {second : Second}

theorem exists_of_getElem? (hrelated : List.Forall₂ related firsts seconds) {index : ℕ}
    (hindex : firsts[index]? = some first) :
    ∃ second, seconds[index]? = some second ∧ related first second := by
  induction hrelated generalizing index with
  | nil => simp at hindex
  | cons hhead _ ih =>
      cases index with
      | zero =>
          obtain rfl := Option.some.inj hindex
          exact ⟨_, rfl, hhead⟩
      | succ index => exact ih hindex

theorem forall₂_set (hrelated : List.Forall₂ related firsts seconds) (index : ℕ)
    (hnew : related first second) :
    List.Forall₂ related (firsts.set index first) (seconds.set index second) := by
  induction hrelated generalizing index with
  | nil => exact .nil
  | cons hhead htail ih =>
      cases index with
      | zero => exact .cons hnew htail
      | succ index => exact .cons hhead (ih index)

theorem forall₂_replicate (hrelated : ∀ first ∈ firsts, related first second) :
    List.Forall₂ related firsts (List.replicate firsts.length second) := by
  induction firsts with
  | nil => exact .nil
  | cons first firsts ih =>
      obtain ⟨hhead, htail⟩ := List.forall_mem_cons.mp hrelated
      exact .cons hhead (ih htail)

end Pairs

/-- A monitor notes what a program has been doing: which operation it may carry out next,
and which answers are met with. -/
structure Monitor (Op : Type) (Answer : Op → Type) (Note : Type) where
  may : Note → Op → Prop
  next : Note → (op : Op) → Answer op → Note
  usual : (op : Op) → Answer op → Prop

namespace Monitor

variable {Note : Type} (monitor : Monitor Op Answer Note)

/-- The program does what it may, and what is said of its result is said of the note then. -/
def Accepts (post : Note → Result → Prop) : Program Op Answer Result → Note → Prop
  | done result, note => post note result
  | call op goOn, note => monitor.may note op ∧
      ∀ answer, monitor.usual op answer → Accepts post (goOn answer) (monitor.next note op answer)

variable {monitor} {post post' : Note → Result → Prop} {note : Note}
variable {program : Program Op Answer Result}

theorem Accepts.imp (hpost : ∀ note result, post note result → post' note result)
    (haccepts : monitor.Accepts post program note) : monitor.Accepts post' program note := by
  induction program generalizing note with
  | done result => exact hpost note result haccepts
  | call op goOn ih =>
      exact ⟨haccepts.1, fun answer husual => ih answer (haccepts.2 answer husual)⟩

/-- One program after another. -/
theorem Accepts.bind {second : Result → Program Op Answer Result'} {last : Note → Result' → Prop}
    (hfirst : monitor.Accepts post program note)
    (hsecond : ∀ note result, post note result → monitor.Accepts last (second result) note) :
    monitor.Accepts last (program >>= second) note := by
  induction program generalizing note with
  | done result => exact hsecond note result hfirst
  | call op goOn ih => exact ⟨hfirst.1, fun answer husual => ih answer (hfirst.2 answer husual)⟩

variable {effect : (op : Op) → Choice → State → Option (Answer op × State)}
variable {permits : State → Program Op Answer Result → Choice → Prop}
variable {request : Request → Program Op Answer Result} {restart : State → State}
variable {boot : List (Program Op Answer Result)} {start world : Together Op Answer Result State}

/-- Each call of a world is accepted from a note of its own. -/
abbrev Noted (monitor : Monitor Op Answer Note) (post : Note → Result → Prop)
    (world : Together Op Answer Result State) (notes : List Note) : Prop :=
  List.Forall₂ (fun call note => monitor.Accepts post call note) world.calls notes

/-- What every operation keeps of the shared state and the notes of all the programs under
way holds throughout. -/
theorem noted_of_run (Inv : State → List Note → Prop) {first : Note} {notes : List Note}
    (run : Run (interleave effect request restart boot) (Meets permits fun _ => False) start world)
    (hrequest : ∀ asked, monitor.Accepts post (request asked) first)
    (hboot : ∀ call ∈ boot, monitor.Accepts post call first)
    (hnew : ∀ state notes, Inv state notes → Inv state (notes ++ [first]))
    (hstep : ∀ state notes index note op goOn choice answer after, Inv state notes →
      notes[index]? = some note → monitor.may note op → permits state (call op goOn) choice →
        effect op choice state = some (answer, after) →
          monitor.usual op answer ∧
            Inv after (notes.set index (monitor.next note op answer)))
    (hcut : ∀ state notes, Inv state notes →
      Inv (restart state) (List.replicate boot.length first))
    (hnotes : monitor.Noted post start notes) (hstart : Inv start.shared notes) :
    ∃ notes, monitor.Noted post world notes ∧ Inv world.shared notes := by
  apply run.invariant (fun world => ∃ notes, monitor.Noted post world notes ∧ Inv world.shared notes)
    _ ⟨notes, hnotes, hstart⟩
  rintro world move next ⟨notes, hnotes, hinv⟩ hmeets hmove
  cases move with
  | start asked =>
      obtain rfl := Option.some.inj hmove
      exact ⟨notes ++ [first], List.rel_append hnotes (.cons (hrequest asked) .nil), hnew _ _ hinv⟩
  | advance index choice =>
      obtain ⟨op, goOn, answer, after, hindex, heffect, rfl⟩ := interleave_advance hmove
      have hpermits : permits world.shared (call op goOn) choice :=
        (hmeets _ hindex).resolve_right fun ⟨_, _, _, _, hpending⟩ => hpending
      obtain ⟨note, hnote, haccepts⟩ := exists_of_getElem? hnotes hindex
      obtain ⟨husual, hafter⟩ := hstep _ _ _ _ _ _ _ _ _ hinv hnote haccepts.1 hpermits heffect
      exact ⟨_, forall₂_set hnotes index (haccepts.2 answer husual), hafter⟩
  | cut =>
      obtain rfl := Option.some.inj hmove
      exact ⟨_, forall₂_replicate hboot, hcut _ _ hinv⟩

end Monitor

/-- Facts about a state: which ones an operation may only be carried out on, which
ones its answer tells, and the answers that are met with. -/
structure Evidence (Op : Type) (Answer : Op → Type) (State Fact : Type) where
  holds : State → Set Fact
  uses : Op → Set Fact
  learns : (op : Op) → Answer op → Set Fact
  usual : (op : Op) → Answer op → Prop

namespace Evidence

variable {Fact : Type} (evidence : Evidence Op Answer State Fact)

/-- What a program has been told is noted. -/
def monitor : Monitor Op Answer (Set Fact) where
  may known op := evidence.uses op ⊆ known
  next known op answer := known ∪ evidence.learns op answer
  usual := evidence.usual

/-- What the program uses it was told before, and what is said of its result rests on
what it was told. -/
abbrev Rests (post : Set Fact → Result → Prop) : Program Op Answer Result → Set Fact → Prop :=
  evidence.monitor.Accepts post

/-- An operation on what holds takes none of it back, and what it tells holds. -/
def Lasting (effect : (op : Op) → Choice → State → Option (Answer op × State))
    (permits : State → Program Op Answer Result → Choice → Prop) : Prop :=
  ∀ state op goOn choice answer after, evidence.uses op ⊆ evidence.holds state →
    permits state (call op goOn) choice → effect op choice state = some (answer, after) →
      evidence.usual op answer ∧ evidence.holds state ⊆ evidence.holds after ∧
        evidence.learns op answer ⊆ evidence.holds after

variable {evidence} {post post' : Set Fact → Result → Prop} {known known' : Set Fact}
variable {program : Program Op Answer Result}

theorem Rests.mono (hpost : ∀ known known' result, known ⊆ known' → post known result →
      post' known' result) (hknown : known ⊆ known') (hrests : evidence.Rests post program known) :
    evidence.Rests post' program known' := by
  induction program generalizing known known' with
  | done result => exact hpost known known' result hknown hrests
  | call op next ih =>
      constructor
      · exact hrests.1.trans hknown
      · intro answer husual
        exact ih answer (Set.union_subset_union_left _ hknown) (hrests.2 answer husual)

/-- A program forgets nothing it was told. -/
theorem Rests.grows (hrests : evidence.Rests post program known) :
    evidence.Rests (fun known' result => known ⊆ known' ∧ post known' result) program known := by
  induction program generalizing known with
  | done result => exact ⟨subset_rfl, hrests⟩
  | call op next ih =>
      refine ⟨hrests.1, fun answer husual => (ih answer (hrests.2 answer husual)).imp ?_⟩
      exact fun known' result hboth => ⟨Set.subset_union_left.trans hboth.1, hboth.2⟩

/-- One program after another, which knows no less. -/
theorem Rests.bind {second : Result → Program Op Answer Result'} {last : Set Fact → Result' → Prop}
    (hfirst : evidence.Rests post program known)
    (hsecond : ∀ known' result, known ⊆ known' → post known' result →
      evidence.Rests last (second result) known') :
    evidence.Rests last (program >>= second) known :=
  Monitor.Accepts.bind hfirst.grows fun known' result hboth =>
    hsecond known' result hboth.1 hboth.2

variable {effect : (op : Op) → Choice → State → Option (Answer op × State)}
variable {permits : State → Program Op Answer Result → Choice → Prop}
variable {request : Request → Program Op Answer Result} {restart : State → State}
variable {boot : List (Program Op Answer Result)} {start world : Together Op Answer Result State}

/-- What holds goes on holding, and every program under way rests on it. -/
theorem Lasting.run (hlasting : evidence.Lasting effect permits)
    (run : Run (interleave effect request restart boot) (Meets permits fun _ => False) start world)
    (hpost : ∀ known known' result, known ⊆ known' → post known result → post known' result)
    (hrequest : ∀ asked, evidence.Rests post (request asked) ∅)
    (hboot : ∀ call ∈ boot, evidence.Rests post call ∅)
    (hrestart : ∀ state, evidence.holds state ⊆ evidence.holds (restart state))
    (hcalls : ∀ call ∈ start.calls, evidence.Rests post call (evidence.holds start.shared)) :
    evidence.holds start.shared ⊆ evidence.holds world.shared ∧
      ∀ call ∈ world.calls, evidence.Rests post call (evidence.holds world.shared) := by
  have hnoted : ∃ notes, evidence.monitor.Noted post world notes ∧
      evidence.holds start.shared ⊆ evidence.holds world.shared ∧
      ∀ known ∈ notes, known ⊆ evidence.holds world.shared := by
    refine Monitor.noted_of_run
      (fun state notes => evidence.holds start.shared ⊆ evidence.holds state ∧
        ∀ known ∈ notes, known ⊆ evidence.holds state)
      run hrequest hboot ?_ ?_ ?_ (forall₂_replicate hcalls) ⟨subset_rfl, ?_⟩
    · rintro state notes ⟨hholds, hknown⟩
      refine ⟨hholds, fun known hmem => ?_⟩
      obtain hbefore | hnew := List.mem_append.mp hmem
      · exact hknown known hbefore
      · exact List.mem_singleton.mp hnew ▸ Set.empty_subset _
    · rintro state notes index known op goOn choice answer after ⟨hholds, hknown⟩ hindex hmay
        hpermits heffect
      have hown := hknown known (List.mem_of_getElem? hindex)
      obtain ⟨husual, hkept, htold⟩ :=
        hlasting state op goOn choice answer after (hmay.trans hown) hpermits heffect
      refine ⟨husual, hholds.trans hkept, fun known' hmem => ?_⟩
      obtain hbefore | rfl := List.mem_or_eq_of_mem_set hmem
      · exact (hknown known' hbefore).trans hkept
      · exact Set.union_subset (hown.trans hkept) htold
    · rintro state notes ⟨hholds, -⟩
      refine ⟨hholds.trans (hrestart state), fun known hmem => ?_⟩
      rw [List.eq_of_mem_replicate hmem]
      exact Set.empty_subset _
    · intro known hmem
      rw [List.eq_of_mem_replicate hmem]
  obtain ⟨notes, hnotes, hholds, hknown⟩ := hnoted
  refine ⟨hholds, fun going hgoing => ?_⟩
  obtain ⟨index, hindex⟩ := List.getElem?_of_mem hgoing
  obtain ⟨known, hmem, hrests⟩ := exists_of_getElem? hnotes hindex
  exact Rests.mono hpost (hknown known (List.mem_of_getElem? hmem)) hrests

end Evidence

end Program

end EasyWaf.Core
