import EasyWaf.Core.Machine
import EasyWaf.RuleSets.Operation

/-!
# The way back

What an update records is the version it replaces, as long as the rules it reads
are that version's: an installation that stopped in the middle leaves rows of two
versions, and the next one records those.  Removing a set leaves what is
recorded, so a set is removed where nothing is.
-/

namespace EasyWaf.RuleSets

open PolicyRules

/-- A version of a set as an installation that ran to its end left it. -/
structure Version where
  number : ℤ
  rules : ℤ → Option Wording

/-- What is kept is this version, rule for rule. -/
structure Version.IsKept (version : Version) (previous : Previous) : Prop where
  number : previous.version = version.number
  rules : ∀ number wording,
    (number, wording) ∈ previous.items ↔ version.rules number = some wording

/-- Which complete version is in force, which one was before it, and whether the
installation of another has begun and not ended. -/
structure Ledger where
  current : Option Version
  before : Option Version
  changing : Bool

def Ledger.empty : Ledger where
  current := none
  before := none
  changing := false

/-- The complete version in force immediately before the one there is now. -/
def Ledger.replaced (ledger : Ledger) : Option Version :=
  if ledger.changing then ledger.current else ledger.before

theorem Ledger.replaced_changing (ledger : Ledger) (version : ℤ) :
    Ledger.replaced { ledger with changing := ledger.current.map (·.number) ≠ some version } =
      if ledger.current.map (·.number) = some version then ledger.before else ledger.current := by
  by_cases hsame : ledger.current.map (·.number) = some version
  · rw [Ledger.replaced, if_pos hsame]
    exact if_neg (by simp [hsame])
  · rw [Ledger.replaced, if_neg hsame]
    exact if_pos (by simp [hsame])

/-- A policy and its history. -/
structure Course where
  state : PolicyRules
  ledger : Ledger

section Follow

variable (toJson : List Condition → Text) (set : Text) (libraries : Libraries)

/-- What a call does to the history. -/
def Course.follow (course : Course) : Operation → Ledger
  | .install version text statements =>
      match text.installable libraries with
      | .error _ => course.ledger
      | .ok file =>
          if statements = 0 then course.ledger
          else if statements < (installScript toJson set version file).length then
            { course.ledger with
              changing := course.ledger.current.map (·.number) ≠ some version }
          else
            { current := some { number := version, rules := lastWording (file.items toJson) }
              before :=
                if course.ledger.current.map (·.number) = some version then course.ledger.before
                else course.ledger.current
              changing := false }
  | .revert =>
      if (course.state.previous set).isSome then
        { current := course.ledger.replaced
          before := if course.ledger.changing then course.ledger.before else course.ledger.current
          changing := false }
      else course.ledger
  | .uninstall => Ledger.empty
  | .switchOff _ | .switchOn _ => course.ledger

def Course.step (course : Course) (operation : Operation) : Option Course :=
  some
    { state := perform toJson set libraries course.state operation
      ledger := course.follow toJson set libraries operation }

/-- An installation that records, records the rows of the version in force as it
was installed; one that records nothing finds nothing recorded, or is of the
version in force with no other begun; and a set is removed where nothing is
recorded. -/
def RecordsComplete (course : Course) : Operation → Prop
  | .install version text statements =>
      statements ≠ 0 → (text.installable libraries).isOk →
        match course.state.kept set version with
        | some _ => ∀ number, (course.state.ofSet set number).map (·.wording) =
            course.ledger.current.bind (·.rules number)
        | none => course.state.previous set = none ∨
            course.ledger.current.map (·.number) = some version ∧ course.ledger.changing = false
  | .uninstall => course.state.previous set = none
  | .revert | .switchOff _ | .switchOn _ => True

end Follow

/-- The history is that of the policy. -/
structure Course.Consistent (set : Text) (course : Course) : Prop where
  held : (course.state.held set).map (·.version) = course.ledger.current.map (·.number)
  recorded : ∀ previous, course.state.previous set = some previous →
    ∃ version, course.ledger.replaced = some version ∧ version.IsKept previous
  free : ∀ previous, course.state.previous set = some previous →
    Free set previous.items course.state
  removed : course.ledger.current = none → course.state.previous set = none

section Step

variable {toJson : List Condition → Text} {set : Text} {libraries : Libraries}
  {course next : Course}

/-- What an update keeps, where the rows are those of the version in force, is
that version, and it is another. -/
theorem isKept_of_kept (hconsistent : course.Consistent set) {version : ℤ} {previous : Previous}
    (hkept : course.state.kept set version = some previous)
    (hrules : ∀ number, (course.state.ofSet set number).map (·.wording) =
      course.ledger.current.bind (·.rules number)) :
    ∃ current, course.ledger.current = some current ∧ current.IsKept previous ∧
      current.number ≠ version := by
  cases hheld : course.state.held set with
  | none =>
      rw [kept, hheld] at hkept
      contradiction
  | some holding =>
      have hcurrent := hconsistent.held
      rw [hheld, Option.map_some] at hcurrent
      obtain ⟨current, hsome, hnumber⟩ := Option.map_eq_some_iff.mp hcurrent.symm
      refine ⟨current, hsome, ⟨?_, ?_⟩, ?_⟩
      · rw [version_of_kept hheld hkept, hnumber]
      · intro number wording
        have hrow := hrules number
        rw [hsome, Option.bind_some] at hrow
        rw [mem_items_iff hkept, ← hrow, Option.map_eq_some_iff]
      · intro hsame
        rw [kept, hheld] at hkept
        dsimp only at hkept
        rw [if_pos (hnumber.symm.trans hsame)] at hkept
        contradiction

/-- What is recorded once an installation has begun. -/
theorem recorded_of_begun (hconsistent : course.Consistent set) {version : ℤ}
    {after : PolicyRules} {ledger : Ledger} (hbegun : Begun set version course.state after)
    (hrecords : match course.state.kept set version with
      | some _ => ∀ number, (course.state.ofSet set number).map (·.wording) =
          course.ledger.current.bind (·.rules number)
      | none => course.state.previous set = none ∨
          course.ledger.current.map (·.number) = some version ∧ course.ledger.changing = false)
    (hreplaced : ledger.replaced =
      if course.ledger.current.map (·.number) = some version then course.ledger.before
      else course.ledger.current)
    {previous : Previous} (hprevious : after.previous set = some previous) :
    (∃ version, ledger.replaced = some version ∧ version.IsKept previous) ∧
      Free set previous.items after ∧ course.ledger.current ≠ none := by
  have hfrom := hbegun.previous
  rw [hprevious] at hfrom
  cases hkept : course.state.kept set version with
  | none =>
      rw [hkept, Option.none_or] at hfrom
      rw [hkept] at hrecords
      have hcurrent : course.ledger.current ≠ none := by
        intro hnone
        rw [hconsistent.removed hnone] at hfrom
        contradiction
      refine ⟨?_, hbegun.free previous hprevious fun _ => hconsistent.free previous hfrom.symm,
        hcurrent⟩
      obtain hnone | ⟨hsame, hsteady⟩ := hrecords
      · rw [hnone] at hfrom
        contradiction
      · obtain ⟨replaced, hbefore, hkeeps⟩ := hconsistent.recorded previous hfrom.symm
        refine ⟨replaced, ?_, hkeeps⟩
        rw [hreplaced, if_pos hsame, ← hbefore, Ledger.replaced, hsteady]
        rfl
  | some kept =>
      rw [hkept, Option.some_or] at hfrom
      rw [hkept] at hrecords
      obtain rfl := Option.some.inj hfrom
      obtain ⟨current, hcurrent, hkeeps, hother⟩ := isKept_of_kept hconsistent hkept hrecords
      refine ⟨⟨current, ?_, hkeeps⟩, hbegun.free previous hprevious ?_, ?_⟩
      · rw [hreplaced, hcurrent, Option.map_some, if_neg]
        exact fun hsame => hother (Option.some.inj hsame)
      · intro hnone
        rw [hnone] at hkept
        contradiction
      · rw [hcurrent]
        exact Option.some_ne_none current

theorem Course.Consistent.install (hconsistent : course.Consistent set) {version : ℤ}
    {text : SetText} {statements : ℕ}
    (hrecords : RecordsComplete set libraries course (.install version text statements))
    (hnext : course.step toJson set libraries (.install version text statements) = some next) :
    next.Consistent set := by
  obtain rfl := Option.some.inj hnext
  cases hfile : text.installable libraries with
  | error refusal =>
      simp only [perform, installPart, Course.follow, hfile]
      exact hconsistent
  | ok file =>
      by_cases hzero : statements = 0
      · subst hzero
        simp only [perform, installPart, Course.follow, hfile, List.take_zero, Script.run_nil,
          if_true]
        exact hconsistent
      · have hmatch := hrecords hzero (by rw [hfile]; rfl)
        by_cases hstop : statements < (installScript toJson set version file).length
        · obtain ⟨hbegun, hheld⟩ := begun_of_lt course.state hfile hzero hstop
          simp only [perform, Course.follow, hfile, if_neg hzero, if_pos hstop]
          have hrecorded := @recorded_of_begun set course hconsistent version _
            { course.ledger with changing := course.ledger.current.map (·.number) ≠ some version }
            hbegun hmatch (course.ledger.replaced_changing version)
          refine ⟨?_, fun previous hprevious => (hrecorded hprevious).1,
            fun previous hprevious => (hrecorded hprevious).2.1, ?_⟩
          · rw [hheld]
            exact hconsistent.held
          · intro hnone
            rw [Option.eq_none_iff_forall_ne_some]
            intro previous hprevious
            exact (hrecorded hprevious).2.2 hnone
        · obtain ⟨hbegun, -, hheld⟩ :=
            begun_of_length_le course.state hfile (Nat.le_of_not_lt hstop)
          simp only [perform, Course.follow, hfile, if_neg hzero, if_neg hstop]
          have hrecorded := @recorded_of_begun set course hconsistent version _
            { current := some { number := version, rules := lastWording (file.items toJson) }
              before :=
                if course.ledger.current.map (·.number) = some version then course.ledger.before
                else course.ledger.current
              changing := false }
            hbegun hmatch rfl
          refine ⟨?_, fun previous hprevious => (hrecorded hprevious).1,
            fun previous hprevious => (hrecorded hprevious).2.1, ?_⟩
          · rw [hheld]
            rfl
          · intro hnone
            contradiction

theorem Course.Consistent.revert (hconsistent : course.Consistent set)
    (hnext : course.step toJson set libraries .revert = some next) : next.Consistent set := by
  obtain rfl := Option.some.inj hnext
  cases hprevious : course.state.previous set with
  | none =>
      simp only [perform, revertSet, Course.follow, hprevious]
      exact hconsistent
  | some previous =>
      obtain ⟨replaced, hreplaced, hkeeps⟩ := hconsistent.recorded previous hprevious
      obtain ⟨after, hrun, -, hheld, hforgotten⟩ :=
        run_revertScript (hconsistent.free previous hprevious)
      simp only [perform, revertSet, Course.follow, hprevious, hrun, Option.isSome_some, if_true]
      have hnone : after.previous set = none := by
        rw [hforgotten, Function.update_self]
      refine ⟨?_, ?_, ?_, fun _ => hnone⟩
      · cases hbefore : course.state.held set with
        | none =>
            have hempty := hconsistent.held
            rw [hbefore] at hempty
            have hgone := hconsistent.removed (Option.map_eq_none_iff.mp hempty.symm)
            rw [hprevious] at hgone
            contradiction
        | some holding =>
            rw [hheld, Function.update_self, hbefore, hreplaced, Option.map_some, Option.map_some,
              Option.map_some, hkeeps.number]
      · intro later hlater
        rw [hnone] at hlater
        contradiction
      · intro later hlater
        rw [hnone] at hlater
        contradiction

theorem Course.Consistent.uninstall (hrecords : RecordsComplete set libraries course .uninstall)
    (hnext : course.step toJson set libraries .uninstall = some next) : next.Consistent set := by
  obtain rfl := Option.some.inj hnext
  have hnone : (perform toJson set libraries course.state .uninstall).previous set = none := hrecords
  refine ⟨?_, ?_, ?_, fun _ => hnone⟩
  · exact congrArg (Option.map (·.version)) (Function.update_self set none course.state.held)
  · intro later hlater
    rw [hnone] at hlater
    contradiction
  · intro later hlater
    rw [hnone] at hlater
    contradiction

/-- Switches write no wording and no number. -/
theorem Course.Consistent.switch (hconsistent : course.Consistent set) (numbers : List ℤ)
    (enabled : Bool) :
    Course.Consistent set { course with state := course.state.switch numbers enabled } where
  held := hconsistent.held
  recorded := hconsistent.recorded
  free := by
    intro previous hprevious item hitem rule hrule
    rw [PolicyRules.switch, find_update] at hrule
    obtain ⟨own, hown, rfl⟩ := Option.map_eq_some_iff.mp hrule
    have hof := hconsistent.free previous hprevious item hitem own hown
    split
    · exact hof
    · exact hof
  removed := hconsistent.removed

theorem Course.Consistent.step (hconsistent : course.Consistent set) {operation : Operation}
    (hrecords : RecordsComplete set libraries course operation)
    (hnext : course.step toJson set libraries operation = some next) : next.Consistent set := by
  cases operation with
  | install version text statements => exact hconsistent.install hrecords hnext
  | revert => exact hconsistent.revert hnext
  | uninstall => exact Course.Consistent.uninstall hrecords hnext
  | switchOff numbers =>
      rw [← Option.some.inj hnext]
      exact hconsistent.switch numbers false
  | switchOn numbers =>
      rw [← Option.some.inj hnext]
      exact hconsistent.switch numbers true

end Step

section Runs

variable {toJson : List Condition → Text} {set : Text} {libraries : Libraries}
  {state : PolicyRules} {course : Course}

/-- From a policy without the set, as long as every installation records the
version in force as it was installed and the set is removed with nothing
recorded: what is recorded is the complete version in force before the present
one, and a set that was removed cannot be put back. -/
theorem way_back_is_version_replaced (hheld : state.held set = none)
    (hprevious : state.previous set = none)
    (run : Machine.Run (Course.step toJson set libraries) (RecordsComplete set libraries)
      { state, ledger := Ledger.empty } course) :
    (∀ previous, course.state.previous set = some previous →
      ∃ version, course.ledger.replaced = some version ∧ version.IsKept previous) ∧
    (course.ledger.current = none → revertSet set course.state = (course.state, false)) := by
  have hconsistent : course.Consistent set := by
    apply run.invariant (Course.Consistent set)
    · intro before operation next hbefore hrecords hnext
      exact hbefore.step hrecords hnext
    · refine ⟨?_, ?_, ?_, fun _ => hprevious⟩
      · rw [hheld]
        rfl
      · intro previous hrecorded
        rw [hprevious] at hrecorded
        contradiction
      · intro previous hrecorded
        rw [hprevious] at hrecorded
        contradiction
  refine ⟨hconsistent.recorded, ?_⟩
  intro hnone
  rw [revertSet, hconsistent.removed hnone]

/-- The rows are those of the version in force and nothing is recorded: an
update records it. -/
theorem recordsComplete_install {version : ℤ} {text : SetText} {statements : ℕ}
    (hrules : ∀ number, (course.state.ofSet set number).map (·.wording) =
      course.ledger.current.bind (·.rules number))
    (hprevious : course.state.previous set = none) :
    RecordsComplete set libraries course (.install version text statements) := by
  intro _ _
  cases course.state.kept set version with
  | none => exact .inl hprevious
  | some previous => exact hrules

end Runs

section Core

/-- A policy with no rules. -/
def noRules : PolicyRules where
  rules := []
  held := fun _ => none
  previous := fun _ => none
  numbers_nodup := List.nodup_nil

/-- One call after another on a policy that begins with no rules. -/
def coreStep (course : Course) (operation : Operation) : Option Course :=
  course.step (fun _ => []) "core".toList Libraries.plain operation

def coreEmpty : Course where
  state := noRules
  ledger := Ledger.empty

/-- Version 1 of the core set installed. -/
def coreInstalled : Course where
  state := perform (fun _ => []) "core".toList Libraries.plain noRules
    (.install 1 (queryRules [1, 2]) 9)
  ledger := coreEmpty.follow (fun _ => []) "core".toList Libraries.plain
    (.install 1 (queryRules [1, 2]) 9)

/-- Version 2 after it. -/
def coreUpdated : Course where
  state := perform (fun _ => []) "core".toList Libraries.plain coreInstalled.state
    (.install 2 (queryRules [1]) 9)
  ledger := coreInstalled.follow (fun _ => []) "core".toList Libraries.plain
    (.install 2 (queryRules [1]) 9)

theorem way_back_is_version_replaced_of_core :
    (∀ previous, coreUpdated.state.previous "core".toList = some previous →
      ∃ version, coreUpdated.ledger.replaced = some version ∧ version.IsKept previous) ∧
    (coreUpdated.ledger.current = none →
      revertSet "core".toList coreUpdated.state = (coreUpdated.state, false)) := by
  refine @way_back_is_version_replaced (fun _ => []) _ Libraries.plain noRules _ rfl rfl ?_
  have hinstalled : coreStep coreEmpty (.install 1 (queryRules [1, 2]) 9) = some coreInstalled := rfl
  have hupdated : coreStep coreInstalled (.install 2 (queryRules [1]) 9) = some coreUpdated := rfl
  refine (Machine.Run.refl.tail ?_ hinstalled).tail ?_ hupdated
  · intro _ _
    exact .inl rfl
  · have hfile : (queryRules [1, 2]).installable Libraries.plain =
        .ok { name := none, rules := [queryRule 1, queryRule 2] } := by decide
    have hlong : (installScript (fun _ => []) "core".toList 1
        { name := none, rules := [queryRule 1, queryRule 2] }).length ≤ 9 := by decide
    obtain ⟨-, hreplaces, -⟩ := begun_of_length_le noRules hfile hlong
    exact recordsComplete_install hreplaces.wordings rfl

/-- After an update and a removal the update can still be put back; and what is
recorded by an update tried again after it stopped is no version there ever
was. -/
theorem way_back_is_lost :
    (¬ ∀ course, Machine.Run coreStep Machine.anything coreEmpty course →
      course.ledger.current = none →
        revertSet "core".toList course.state = (course.state, false)) ∧
    ¬ ∀ course, Machine.Run coreStep Machine.anything coreEmpty course →
      ∀ previous, course.state.previous "core".toList = some previous →
        ∃ version, course.ledger.replaced = some version ∧ version.IsKept previous := by
  constructor
  · intro hall
    obtain ⟨course, run, hgood⟩ := Machine.exists_run_of_exec coreStep coreEmpty
      (fun _ _ => true)
      [.install 1 (queryRules [1, 2]) 9, .install 2 (queryRules [1]) 9, .uninstall]
      (fun course => course.ledger.current.isNone && (revertSet "core".toList course.state).2)
      (fun _ _ _ => trivial) (by decide)
    rw [Bool.and_eq_true, Option.isNone_iff_eq_none] at hgood
    rw [hall course run hgood.1] at hgood
    exact Bool.false_ne_true hgood.2
  · intro hall
    obtain ⟨course, run, hgood⟩ := Machine.exists_run_of_exec coreStep coreEmpty
      (fun _ _ => true)
      [.install 1 (queryRules [1, 2]) 9, .install 2 (queryRules [1, 3]) 3,
        .install 2 (queryRules [1, 3]) 9]
      (fun course => (course.state.previous "core".toList).any (fun previous =>
          previous.items.any (·.1 = 3)) &&
        course.ledger.replaced.all fun version => (version.rules 3).isNone)
      (fun _ _ _ => trivial) (by decide)
    rw [Bool.and_eq_true] at hgood
    obtain ⟨previous, hprevious, hthree⟩ := Option.any_eq_true _ _ |>.mp hgood.1
    obtain ⟨version, hversion, hkeeps⟩ := hall course run previous hprevious
    obtain ⟨item, hitem, hnumber⟩ := List.any_eq_true.mp hthree
    have hrule := (hkeeps.rules item.1 item.2).mp hitem
    have hnone := hgood.2
    rw [hversion, Option.all_some] at hnone
    rw [of_decide_eq_true hnumber] at hrule
    rw [hrule] at hnone
    exact Bool.false_ne_true hnone

end Core

end EasyWaf.RuleSets
