import EasyWaf.Core.Machine
import EasyWaf.RuleSets.Operation

/-!
# Rules switched off

An update rewrites a rule it finds and leaves it on or off.  A rule it does not
find it inserts, switched on: so a number whose row a version dropped comes back
on with the next version, or the version put back, that has it.
-/

namespace EasyWaf.RuleSets

open PolicyRules

variable {set : Text} {items : List (ℤ × Wording)} {before after state : PolicyRules}

/-- No rule under one of these numbers is switched on. -/
def IsOff (off : ℤ → Bool) (state : PolicyRules) : Prop :=
  ∀ number, off number → ∀ rule, state.find number = some rule → rule.enabled = false

variable {off : ℤ → Bool}

theorem IsOff.shrinks (hoff : IsOff off before) (hshrinks : Shrinks before after) :
    IsOff off after := by
  intro number hnumber rule hrule
  exact hoff number hnumber rule (hshrinks number rule hrule)

/-- Rewriting rules that are there leaves them off. -/
theorem IsOff.rewrites (hoff : IsOff off before) (hrewrites : Rewrites set items before after)
    (hpresent : ∀ number ∈ items.map (·.1), off number → (before.find number).isSome) :
    IsOff off after := by
  intro number hnumber rule hrule
  rw [hrewrites.find] at hrule
  cases hlast : lastWording items number with
  | none =>
      rw [hlast] at hrule
      exact hoff number hnumber rule hrule
  | some wording =>
      obtain ⟨found, hfound⟩ :=
        Option.isSome_iff_exists.mp (hpresent number (mem_of_lastWording hlast) hnumber)
      rw [hlast, hfound] at hrule
      rw [← Option.some.inj hrule]
      exact hoff number hnumber found hfound

/-- A number under which the set's rule can be put back. -/
def PolicyRules.isFree (state : PolicyRules) (set : Text) (number : ℤ) : Bool :=
  (state.find number).all (·.isOf set)

theorem isFree_iff {number : ℤ} : state.isFree set number ↔
    ∀ rule, state.find number = some rule → rule.isOf set := by
  rw [PolicyRules.isFree]
  cases state.find number <;> simp

theorem isFree_of_writes {number : ℤ} {wording : Wording} (hfree : before.isFree set number)
    (hwrites : Writes set number wording before after) :
    after.isFree set = before.isFree set := by
  funext other
  by_cases hother : other = number
  · subst hother
    rw [hfree, isFree_iff]
    exact fun rule => isOf_of_writes hwrites
  · rw [PolicyRules.isFree, hwrites.find_of_ne other hother, PolicyRules.isFree]

/-- Rules are put back until one of them is not free to be. -/
theorem run_restoreRule (set : Text) (items : List (ℤ × Wording)) (state : PolicyRules) :
    ∃ after done,
      Script.run (items.map fun item => restoreRule set item.1 item.2) state = (after, done) ∧
        Rewrites set (items.takeWhile fun item => state.isFree set item.1) state after := by
  induction items generalizing state with
  | nil => exact ⟨state, true, rfl, Rewrites.nil⟩
  | cons item items ih =>
      by_cases hfree : state.isFree set item.1
      · obtain ⟨middle, hmiddle, hwrites⟩ := restoreRule_writes item.2 (isFree_iff.mp hfree)
        obtain ⟨after, done, hrun, hrewrites⟩ := ih middle
        refine ⟨after, done, ?_, ?_⟩
        · rw [List.map_cons, Script.run_cons_of_eq_some hmiddle, hrun]
        · rw [List.takeWhile_cons, if_pos hfree]
          rw [isFree_of_writes hfree hwrites] at hrewrites
          exact Rewrites.cons hwrites hrewrites
      · refine ⟨state, false, ?_, ?_⟩
        · cases hrestored : restoreRule set item.1 item.2 state with
          | some middle => exact absurd (isFree_iff.mpr (free_of_restoreRule hrestored)) hfree
          | none => rw [List.map_cons, Script.run, hrestored]
        · rw [List.takeWhile_cons, if_neg hfree]
          exact Rewrites.nil

/-- A policy and the rule numbers the operator has switched off. -/
structure Watch where
  state : PolicyRules
  off : ℤ → Bool

/-- The rules that are off count as switched off. -/
def Watch.ofState (state : PolicyRules) : Watch where
  state := state
  off := fun number => (state.find number).any (!·.enabled)

section Steps

variable (toJson : List Condition → Text) (set : Text) (libraries : Libraries)

/-- What the operator has switched off, until they switch it on again or remove
the set. -/
def Watch.follow (watch : Watch) : Operation → ℤ → Bool
  | .install .. | .revert => watch.off
  | .uninstall => fun number =>
      watch.off number && (watch.state.find number).any (!·.isOf set)
  | .switchOff numbers => fun number =>
      watch.off number || (numbers.contains number && (watch.state.find number).isSome)
  | .switchOn numbers => fun number => watch.off number && !numbers.contains number

def Watch.step (watch : Watch) (operation : Operation) : Option Watch :=
  some
    { state := perform toJson set libraries watch.state operation
      off := watch.follow set operation }

/-- The numbers a call writes rules under. -/
def writtenNumbers (state : PolicyRules) : Operation → List ℤ
  | .install _ text statements => installedNumbers libraries text statements
  | .revert =>
      match state.previous set with
      | none => []
      | some previous => (previous.rules.map (·.number)).takeWhile (state.isFree set)
  | .uninstall | .switchOff _ | .switchOn _ => []

/-- Nothing is written under a number that is switched off and has no row. -/
def FindsSwitchedOff (watch : Watch) (operation : Operation) : Prop :=
  ∀ number ∈ writtenNumbers set libraries watch.state operation, watch.off number →
    (watch.state.find number).isSome

end Steps

section Step

variable {toJson : List Condition → Text} {libraries : Libraries} {watch : Watch}

theorem IsOff.install (hoff : IsOff watch.off watch.state) {version : ℤ} {text : SetText}
    {statements : ℕ}
    (hfinds : FindsSwitchedOff set libraries watch (.install version text statements)) :
    IsOff watch.off (installPart toJson set libraries version text statements watch.state) := by
  rw [installPart]
  rw [FindsSwitchedOff, writtenNumbers] at hfinds
  cases hfile : text.installable libraries with
  | error refusal => exact hoff
  | ok file =>
      dsimp only
      cases statements with
      | zero => exact hoff
      | succ count =>
          obtain ⟨middle, rewritten, hrules, hrewrites, hshrinks⟩ :=
            rewrites_of_installPart toJson set version watch.state hfile count
          rw [installPart, hfile] at hshrinks
          apply IsOff.shrinks _ hshrinks
          apply (hoff.shrinks (shrinks_of_rules hrules)).rewrites hrewrites
          intro number hnumber hswitched
          rw [find_of_rules hrules]
          apply hfinds number _ hswitched
          rwa [installedNumbers_succ toJson hfile]

theorem IsOff.revert (hoff : IsOff watch.off watch.state)
    (hfinds : FindsSwitchedOff set libraries watch .revert) :
    IsOff watch.off (revertSet set watch.state).1 := by
  rw [revertSet]
  rw [FindsSwitchedOff, writtenNumbers] at hfinds
  cases hprevious : watch.state.previous set with
  | none => exact hoff
  | some previous =>
      rw [hprevious] at hfinds
      dsimp only at hfinds ⊢
      obtain ⟨rewritten, done, hrun, hrewrites⟩ := run_restoreRule set previous.items
        watch.state
      have hrewritten : IsOff watch.off rewritten := by
        apply hoff.rewrites hrewrites
        intro number hnumber
        apply hfinds number
        rw [Previous.items, List.takeWhile_map, List.map_map] at hnumber
        rwa [List.takeWhile_map]
      cases done with
      | true =>
          rw [revertScript, Script.run_append_of_completes hrun]
          apply hrewritten.shrinks
          exact shrinks_run fun statement hstatement before after => shrinks_revert hstatement
      | false =>
          rw [revertScript, Script.run_append_of_stops hrun]
          exact hrewritten

theorem IsOff.uninstall (hoff : IsOff watch.off watch.state) :
    IsOff (watch.follow set .uninstall) (uninstallSet set watch.state).1 := by
  have hdeleted := hoff.shrinks (shrinks_delete (·.isOf set) watch.state)
  intro number hnumber rule hrule
  apply hdeleted number _ rule hrule
  rw [Watch.follow, Bool.and_eq_true] at hnumber
  exact hnumber.1

theorem IsOff.switchOff (set : Text) (hoff : IsOff watch.off watch.state) (numbers : List ℤ) :
    IsOff (watch.follow set (.switchOff numbers)) (watch.state.switch numbers false) := by
  intro number hnumber rule hrule
  rw [PolicyRules.switch, find_update] at hrule
  obtain ⟨own, hown, rfl⟩ := Option.map_eq_some_iff.mp hrule
  rw [number_of_find hown, Option.any_some]
  split
  · rfl
  · rename_i hunlisted
    obtain hbefore | hnow := (Bool.or_eq_true _ _).mp hnumber
    · exact hoff number hbefore own hown
    · exact absurd ((Bool.and_eq_true _ _).mp hnow).1 hunlisted

theorem IsOff.switchOn (set : Text) (hoff : IsOff watch.off watch.state) (numbers : List ℤ) :
    IsOff (watch.follow set (.switchOn numbers)) (watch.state.switch numbers true) := by
  intro number hnumber rule hrule
  rw [Watch.follow, Bool.and_eq_true, Bool.not_eq_true'] at hnumber
  rw [PolicyRules.switch, find_update] at hrule
  obtain ⟨own, hown, rfl⟩ := Option.map_eq_some_iff.mp hrule
  rw [number_of_find hown, Option.any_some, hnumber.2]
  exact hoff number hnumber.1 own hown

theorem IsOff.step {next : Watch} {operation : Operation} (hoff : IsOff watch.off watch.state)
    (hfinds : FindsSwitchedOff set libraries watch operation)
    (hnext : watch.step toJson set libraries operation = some next) : IsOff next.off next.state := by
  obtain rfl := Option.some.inj hnext
  cases operation with
  | install version text statements => exact hoff.install hfinds
  | revert => exact hoff.revert hfinds
  | uninstall => exact hoff.uninstall
  | switchOff numbers => exact hoff.switchOff set numbers
  | switchOn numbers => exact hoff.switchOn set numbers

/-- As long as no version is written over the gap a dropped rule left, a rule
switched off is never there and on. -/
theorem switched_off_stays_off
    (run : Machine.Run (Watch.step toJson set libraries) (FindsSwitchedOff set libraries)
      (Watch.ofState state) watch) {number : ℤ} (hoff : watch.off number) {rule : StoredRule}
    (hrule : watch.state.find number = some rule) : rule.enabled = false := by
  have hall : IsOff watch.off watch.state := by
    apply run.invariant fun watch => IsOff watch.off watch.state
    · intro before operation next hbefore hfinds hnext
      exact hbefore.step hfinds hnext
    · intro number hnumber rule hrule
      have hany : (state.find number).any (!·.enabled) := hnumber
      have hfind : state.find number = some rule := hrule
      rwa [hfind, Option.any_some, Bool.not_eq_true'] at hany
  exact hall number hoff rule hrule

end Step

section Core

/-- The core set's rule 2 switched off, and version 2, which has it, installed. -/
theorem switched_off_stays_off_of_core :
    (perform (fun _ => []) "core".toList Libraries.plain coreHeld
      (.install 2 (queryRules [1, 2]) 9)).find 2 = some (coreRule 2 false) ∧
    (coreRule 2 false).enabled = false := by
  have hstep : (Watch.ofState coreHeld).step (fun _ => []) "core".toList Libraries.plain
      (.install 2 (queryRules [1, 2]) 9) =
        some
          { state := perform (fun _ => []) "core".toList Libraries.plain coreHeld
              (.install 2 (queryRules [1, 2]) 9)
            off := (Watch.ofState coreHeld).off } := rfl
  refine ⟨by decide, ?_⟩
  apply @switched_off_stays_off "core".toList coreHeld _ _ _ (Machine.Run.single ?_ hstep) 2
  · decide
  · decide
  · unfold FindsSwitchedOff
    decide

/-- Dropped by version 2 and written again by version 3, it is on. -/
theorem switched_off_comes_back :
    ¬ ∀ watch, Machine.Run (Watch.step (fun _ => []) "core".toList Libraries.plain)
      Machine.anything (Watch.ofState coreHeld) watch →
        ∀ number, watch.off number → ∀ rule, watch.state.find number = some rule →
          rule.enabled = false := by
  intro hall
  obtain ⟨watch, run, hgood⟩ := Machine.exists_run_of_exec
    (Watch.step (fun _ => []) "core".toList Libraries.plain) (Watch.ofState coreHeld)
    (fun _ _ => true) [.install 2 (queryRules [1]) 9, .install 3 (queryRules [1, 2]) 9]
    (fun watch => watch.off 2 && (watch.state.find 2).any (·.enabled))
    (fun _ _ _ => trivial) (by decide)
  rw [Bool.and_eq_true] at hgood
  obtain ⟨rule, hrule, henabled⟩ := (Option.any_eq_true _ _).mp hgood.2
  rw [hall watch run 2 hgood.1 rule hrule] at henabled
  exact Bool.false_ne_true henabled

end Core

end EasyWaf.RuleSets
