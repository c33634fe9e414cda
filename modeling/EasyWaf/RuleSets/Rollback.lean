import EasyWaf.RuleSets.Replace

/-!
# Putting an update back

Installing a version and putting the one before it back is undone where the
policy has a rule of the set, the file takes no rule from outside the set, and
every rule it drops is switched on.
-/

namespace EasyWaf.RuleSets

open PolicyRules

/-- What of a rule's wording decides which requests it matches and what it does
with them. -/
def Wording.judges (wording : Wording) : Text × Text × Bool × Text × Text × ℤ × Text :=
  (wording.zone, wording.pattern, wording.negate, wording.conditions, wording.transforms,
    wording.score, wording.action)

/-- A rule of the set, by its number. -/
def PolicyRules.ofSet (state : PolicyRules) (set : Text) (number : ℤ) : Option StoredRule :=
  (state.find number).filter (·.isOf set)

/-- The set's rules are as they were and switched on or off as they were, the
version recorded is the one it was, and no other rule has changed. -/
structure PutBack (set : Text) (before after : PolicyRules) : Prop where
  rules : ∀ number, (after.ofSet set number).map (fun rule => (rule.wording.judges, rule.enabled)) =
    (before.ofSet set number).map fun rule => (rule.wording.judges, rule.enabled)
  version : (after.held set).map (·.version) = (before.held set).map (·.version)
  others : after.others set = before.others set

/-- The policy has a rule of the set, the file names no rule of another, and no
rule it drops is switched off. -/
structure Undoable (set : Text) (numbers : List ℤ) (state : PolicyRules) : Prop where
  held : ∃ number, (state.ofSet set number).isSome
  own : ∀ number ∈ numbers, ∀ rule, state.find number = some rule → rule.isOf set
  kept : ∀ number rule, state.ofSet set number = some rule → rule.enabled = false →
    number ∈ numbers

section Install

variable {set : Text} (toJson : List Condition → Text) (version : ℤ) (file : RuleFile)

/-- Installing a version replaces the set's rules by the file's, records the
version, and keeps what it replaced. -/
theorem run_installScript (set : Text) (state : PolicyRules) :
    ∃ after, Script.run (installScript toJson set version file) state = (after, true) ∧
      Replaces set (file.items toJson) state after ∧
      after.held = Function.update state.held set
        (some { name := file.name.getD set, version }) ∧
      after.previous = match state.kept set version with
        | none => state.previous
        | some previous => Function.update state.previous set (some previous) := by
  obtain ⟨middle, hmiddle, hrules, hheld, hprevious⟩ : ∃ middle,
      snapshotBeforeUpdate set version state = some middle ∧ middle.rules = state.rules ∧
        middle.held = state.held ∧ middle.previous = match state.kept set version with
          | none => state.previous
          | some previous => Function.update state.previous set (some previous) := by
    rw [snapshotBeforeUpdate]
    cases state.kept set version with
    | none => exact ⟨state, rfl, rfl, rfl, rfl⟩
    | some previous => exact ⟨_, rfl, rfl, rfl, rfl⟩
  obtain ⟨rewritten, hrun, hrewrites⟩ :=
    @run_writes set (file.items toJson) middle (installRule set) (fun _ => True)
      (fun item _ before _ =>
        (installRule_writes _ _ _ before).imp fun after hafter => ⟨hafter.1, hafter.2, trivial⟩) trivial
  have hkeep : file.rules.map (·.id) = (file.items toJson).map (·.1) := by
    rw [RuleFile.items, List.map_map]
    rfl
  obtain ⟨dropped, hdropped⟩ : ∃ dropped,
      deleteDropped set (file.rules.map (·.id)) rewritten = some dropped := ⟨_, rfl⟩
  obtain ⟨hreplaces, hheld', hprevious'⟩ := hrewrites.replaces _ hkeep hdropped
  refine ⟨{ dropped with
      held := Function.update dropped.held set (some { name := file.name.getD set, version }) },
    ?_, ⟨?_, ?_⟩, ?_, ?_⟩
  · rw [installScript, Script.run_cons_of_eq_some hmiddle, Script.run_append_of_completes hrun,
      Script.run_cons_of_eq_some hdropped]
    rfl
  · intro number
    have hfind : middle.find number = state.find number := by
      rw [PolicyRules.find, hrules, PolicyRules.find]
    rw [← hfind]
    exact hreplaces.find number
  · have hothers : middle.others set = state.others set := by
      rw [PolicyRules.others, hrules, PolicyRules.others]
    rw [← hothers]
    exact hreplaces.others
  · rw [← hheld, ← hheld']
  · rw [← hprevious]
    exact hprevious'

/-- Every number of these is free or a rule of the set's. -/
def Free (set : Text) (items : List (ℤ × Wording)) (state : PolicyRules) : Prop :=
  ∀ item ∈ items, ∀ rule, state.find item.1 = some rule → rule.isOf set

theorem Free.writes {items : List (ℤ × Wording)} {number : ℤ} {wording : Wording}
    {before after : PolicyRules} (hfree : Free set items before)
    (hwrites : Writes set number wording before after) : Free set items after := by
  intro item hitem rule hrule
  by_cases hnumber : item.1 = number
  · subst hnumber
    exact isOf_of_writes hwrites hrule
  · rw [hwrites.find_of_ne _ hnumber] at hrule
    exact hfree item hitem rule hrule

/-- Putting a version back replaces the set's rules by those kept, and consumes
what was kept. -/
theorem run_revertScript {previous : Previous} {state : PolicyRules}
    (hfree : Free set previous.items state) :
    ∃ after, Script.run (revertScript set previous) state = (after, true) ∧
      Replaces set previous.items state after ∧
      after.held = Function.update state.held set
        ((state.held set).map fun holding => { holding with version := previous.version }) ∧
      after.previous = Function.update state.previous set none := by
  obtain ⟨rewritten, hrun, hrewrites⟩ :=
    @run_writes set previous.items state (restoreRule set) (Free set previous.items)
      (fun item hitem before hbefore =>
        (restoreRule_writes _ (hbefore item hitem)).imp fun after hafter =>
          ⟨hafter.1, hafter.2, hbefore.writes hafter.2⟩) hfree
  have hkeep : previous.rules.map (·.number) = previous.items.map (·.1) := by
    rw [Previous.items, List.map_map]
    rfl
  obtain ⟨dropped, hdropped⟩ : ∃ dropped,
      deleteDropped set (previous.rules.map (·.number)) rewritten = some dropped := ⟨_, rfl⟩
  obtain ⟨hreplaces, hheld, hprevious⟩ := hrewrites.replaces _ hkeep hdropped
  refine ⟨{ dropped with
      held := Function.update dropped.held set
        ((dropped.held set).map fun holding => { holding with version := previous.version })
      previous := Function.update dropped.previous set none },
    ?_, ⟨hreplaces.find, hreplaces.others⟩, ?_, ?_⟩
  · rw [revertScript, Script.run_append_of_completes hrun, Script.run_cons_of_eq_some hdropped]
    rfl
  · rw [← hheld]
  · rw [← hprevious]

end Install

section Kept

variable {set : Text} {version : ℤ} {state : PolicyRules} {previous : Previous} {number : ℤ}

theorem lastWording_of_mem {items : List (ℤ × Wording)} (hnodup : (items.map (·.1)).Nodup)
    {item : ℤ × Wording} (hitem : item ∈ items) : lastWording items item.1 = some item.2 := by
  rw [lastWording]
  cases hfound : items.reverse.find? (·.1 = item.1) with
  | none =>
      have hnone := List.find?_eq_none.mp hfound item (List.mem_reverse.mpr hitem)
      simp at hnone
  | some found =>
      have hmem := List.mem_reverse.mp (List.mem_of_find?_eq_some hfound)
      have hnumber : found.1 = item.1 := by simpa using List.find?_some hfound
      rw [List.inj_on_of_nodup_map hnodup hmem hitem hnumber]
      rfl

/-- What an update keeps of a set, by number. -/
theorem items_of_kept (hkept : state.kept set version = some previous) :
    previous.items = (state.rulesOf set).filterMap fun rule =>
      rule.number.map fun number => (number, rule.wording) := by
  rw [kept] at hkept
  split at hkept
  · contradiction
  · split at hkept
    · contradiction
    · dsimp only at hkept
      split at hkept
      · contradiction
      · rw [← Option.some.inj hkept, Previous.items, List.map_filterMap]
        apply List.filterMap_congr
        intro rule _
        cases rule.number <;> rfl

theorem mem_items_iff (hkept : state.kept set version = some previous) {wording : Wording} :
    (number, wording) ∈ previous.items ↔
      ∃ rule, state.ofSet set number = some rule ∧ rule.wording = wording := by
  rw [items_of_kept hkept, List.mem_filterMap]
  constructor
  · rintro ⟨rule, hrule, hitem⟩
    obtain ⟨own, hown, heq⟩ := Option.map_eq_some_iff.mp hitem
    obtain ⟨rfl, rfl⟩ := Prod.mk.inj heq
    obtain ⟨hmem, hof⟩ := List.mem_filter.mp hrule
    refine ⟨rule, ?_, rfl⟩
    rw [PolicyRules.ofSet, find_of_mem hmem hown, Option.filter_some, if_pos hof]
  · rintro ⟨rule, hrule, rfl⟩
    obtain ⟨hfind, hof⟩ := Option.filter_eq_some_iff.mp hrule
    refine ⟨rule, List.mem_filter.mpr ⟨mem_of_find hfind, hof⟩, ?_⟩
    rw [number_of_find hfind]
    rfl

theorem nodup_items (hkept : state.kept set version = some previous) :
    (previous.items.map (·.1)).Nodup := by
  have hnumbers : previous.items.map (·.1) = numbers (state.rulesOf set) := by
    rw [items_of_kept hkept, List.map_filterMap, numbers]
    apply List.filterMap_congr
    intro rule _
    cases rule.number <;> rfl
  rw [hnumbers]
  exact state.numbers_nodup.sublist (List.filter_sublist.filterMap _)

/-- The wording kept of a number is that of the set's rule under it. -/
theorem lastWording_kept (hkept : state.kept set version = some previous) :
    lastWording previous.items number = (state.ofSet set number).map (·.wording) := by
  cases hof : state.ofSet set number with
  | none =>
      rw [Option.map_none, lastWording_eq_none_iff]
      intro hmem
      obtain ⟨item, hitem, rfl⟩ := List.mem_map.mp hmem
      obtain ⟨rule, hrule, -⟩ := (mem_items_iff hkept).mp hitem
      rw [hof] at hrule
      contradiction
  | some rule =>
      exact lastWording_of_mem (nodup_items hkept) ((mem_items_iff hkept).mpr ⟨rule, hof, rfl⟩)

/-- An update keeps nothing of a set the policy holds at another version only
where it has no rule of it. -/
theorem kept_eq_none_iff {holding : Holding} (hheld : state.held set = some holding)
    (hother : holding.version ≠ version) :
    state.kept set version = none ↔ ∀ number, state.ofSet set number = none := by
  constructor
  · intro hnone number
    rw [kept, hheld] at hnone
    dsimp only at hnone
    rw [if_neg hother] at hnone
    split at hnone
    · rename_i hrules
      rw [PolicyRules.ofSet, Option.filter_eq_none_iff]
      intro rule hrule hof
      have hmem : rule ∈ state.rulesOf set := List.mem_filter.mpr ⟨mem_of_find hrule, hof⟩
      have hkept := List.filterMap_eq_nil_iff.mp hrules rule hmem
      rw [number_of_find hrule] at hkept
      contradiction
    · contradiction
  · intro hempty
    cases hkept : state.kept set version with
    | none => rfl
    | some previous =>
        obtain ⟨first, hfirst⟩ := List.exists_mem_of_ne_nil _ previous.rules_ne_nil
        have hitem : (first.number, first.wording) ∈ previous.items :=
          List.mem_map.mpr ⟨first, hfirst, rfl⟩
        obtain ⟨rule, hrule, -⟩ := (mem_items_iff hkept).mp hitem
        rw [hempty] at hrule
        contradiction

theorem version_of_kept {holding : Holding} (hheld : state.held set = some holding)
    (hkept : state.kept set version = some previous) : previous.version = holding.version := by
  rw [kept, hheld] at hkept
  dsimp only at hkept
  split at hkept
  · contradiction
  · split at hkept
    · contradiction
    · rw [← Option.some.inj hkept]

end Kept

section Putting

variable {set : Text} {state middle after : PolicyRules} {items : List (ℤ × Wording)}
  {previous : Previous} {version : ℤ} {number : ℤ}

theorem isLeft_iff {rule : StoredRule} :
    isLeft items rule ↔ ∀ number, rule.number = some number → number ∉ items.map (·.1) := by
  cases hnumber : rule.number with
  | none => simp [isLeft, hnumber]
  | some own => simp [isLeft, hnumber]

/-- A rule of no set's that an update leaves is not written to when it is put
back either. -/
theorem isLeft_kept (hkept : state.kept set version = some previous) {rule : StoredRule}
    (hrule : rule ∈ state.others set) : isLeft previous.items rule := by
  rw [isLeft_iff]
  intro number hnumber hmem
  obtain ⟨item, hitem, rfl⟩ := List.mem_map.mp hmem
  obtain ⟨own, hown, -⟩ := (mem_items_iff hkept).mp hitem
  obtain ⟨hother, hnot⟩ := List.mem_filter.mp hrule
  rw [PolicyRules.ofSet, find_of_mem hother hnumber, Option.filter_eq_some_iff] at hown
  obtain ⟨heq, hof⟩ := hown
  rw [← Option.some.inj heq] at hof
  rw [hof] at hnot
  contradiction

/-- The rules of others are kept exactly where the file names none of them. -/
theorem others_putBack_iff (hkept : state.kept set version = some previous)
    (hinstall : Replaces set items state middle) (hrevert : Replaces set previous.items middle after) :
    after.others set = state.others set ↔
      ∀ number ∈ items.map (·.1), ∀ rule, state.find number = some rule → rule.isOf set := by
  rw [hrevert.others, hinstall.others]
  have hleft : ((state.others set).filter (isLeft items)).filter (isLeft previous.items) =
      (state.others set).filter (isLeft items) := by
    rw [List.filter_eq_self]
    intro rule hrule
    exact isLeft_kept hkept (List.mem_of_mem_filter hrule)
  rw [hleft, List.filter_eq_self]
  constructor
  · intro hall number hnumber rule hrule
    by_contra hof
    have hother : rule ∈ state.others set :=
      List.mem_filter.mpr ⟨mem_of_find hrule, by simpa using hof⟩
    exact isLeft_iff.mp (hall rule hother) number (number_of_find hrule) hnumber
  · intro hown rule hrule
    rw [isLeft_iff]
    intro number hnumber hmem
    obtain ⟨hmember, hnot⟩ := List.mem_filter.mp hrule
    have hof := hown number hmem rule (find_of_mem hmember hnumber)
    rw [hof] at hnot
    contradiction

/-- What putting back leaves of the set under a number. -/
theorem ofSet_putBack (hkept : state.kept set version = some previous)
    (hinstall : Replaces set items state middle) (hrevert : Replaces set previous.items middle after)
    (number : ℤ) :
    after.ofSet set number = (state.ofSet set number).map fun rule =>
      if number ∈ items.map (·.1) then rule.takenOver set rule.wording
      else StoredRule.ofSet set number rule.wording := by
  rw [PolicyRules.ofSet, hrevert.find, lastWording_kept hkept]
  cases hof : state.ofSet set number with
  | none =>
      simp only [Option.map_none]
      rw [Option.filter_filter]
      simp
  | some rule =>
      obtain ⟨hfind, hown⟩ := Option.filter_eq_some_iff.mp hof
      simp only [Option.map_some]
      have hwritten : (written set number rule.wording (middle.find number)).isOf set :=
        isOf_written fun _ => number_of_find
      rw [Option.filter_some, if_pos hwritten, hinstall.find, hfind]
      cases hlast : lastWording items number with
      | none =>
          rw [if_neg (lastWording_eq_none_iff.mp hlast)]
          simp [Option.filter_some, hown, written]
      | some wording =>
          rw [if_pos (mem_of_lastWording hlast)]
          rfl

/-- The set's rules are as they were exactly where the file drops none that is
switched off. -/
theorem rules_putBack_iff (hkept : state.kept set version = some previous)
    (hinstall : Replaces set items state middle) (hrevert : Replaces set previous.items middle after) :
    (∀ number, (after.ofSet set number).map (fun rule => (rule.wording.judges, rule.enabled)) =
        (state.ofSet set number).map fun rule => (rule.wording.judges, rule.enabled)) ↔
      ∀ number rule, state.ofSet set number = some rule → rule.enabled = false →
        number ∈ items.map (·.1) := by
  constructor
  · intro hall number rule hrule hoff
    by_contra hdropped
    have hback := hall number
    rw [ofSet_putBack hkept hinstall hrevert, hrule, Option.map_some, if_neg hdropped] at hback
    simp only [Option.map_some, Option.some.injEq, Prod.mk.injEq, hoff] at hback
    exact absurd hback.2 (by simp [StoredRule.ofSet])
  · intro hdropped number
    rw [ofSet_putBack hkept hinstall hrevert]
    cases hrule : state.ofSet set number with
    | none => rfl
    | some rule =>
        by_cases hmem : number ∈ items.map (·.1)
        · simp only [Option.map_some, if_pos hmem]
          rfl
        · have hon : rule.enabled = true := by
            by_contra hoff
            exact hmem (hdropped number rule hrule (by simpa using hoff))
          simp only [Option.map_some, if_neg hmem, hon]
          rfl

end Putting

section Undo

variable {set : Text} {libraries : Libraries} {toJson : List Condition → Text} {text : SetText}
  {file : RuleFile} {version : ℤ} {holding : Holding} {state after : PolicyRules}
  {previous : Previous}

/-- What an update keeps can be put back. -/
theorem free_kept {items : List (ℤ × Wording)} (hkept : state.kept set version = some previous)
    (hreplaces : Replaces set items state after) : Free set previous.items after := by
  intro item hitem rule hrule
  obtain ⟨own, hown, -⟩ := (mem_items_iff hkept).mp hitem
  obtain ⟨hfind, hof⟩ := Option.filter_eq_some_iff.mp hown
  rw [hreplaces.find, hfind] at hrule
  cases hlast : lastWording items item.1 with
  | some wording =>
      rw [hlast] at hrule
      rw [← Option.some.inj hrule]
      exact isOf_written fun found hfound => number_of_find (hfind.trans hfound)
  | none =>
      rw [hlast, Option.filter_some] at hrule
      simp [hof] at hrule

/-- No statement of a script that puts rules back, before the version is, writes
what the policy holds. -/
theorem held_of_run_restoreRule {items : List (ℤ × Wording)} {done : Bool}
    (hrun : Script.run (items.map fun item => restoreRule set item.1 item.2) state =
      (after, done)) : after.held = state.held := by
  have hheld : (Script.run (items.map fun item => restoreRule set item.1 item.2) state).1.held =
      state.held := by
    refine Script.run_invariant (fun reached : PolicyRules => reached.held = state.held) ?_ rfl
    intro statement hstatement before next hbefore hnext
    obtain ⟨item, -, rfl⟩ := List.mem_map.mp hstatement
    exact (writes_of_restoreRule hnext).held.trans hbefore
  rwa [hrun] at hheld

/-- A version that is put back brings rules with it: where the policy had none of
the set, it is not the policy that was. -/
theorem not_putBack_of_revertScript (hversion : (after.held set).map (·.version) ≠
      (state.held set).map (·.version)) (hempty : ∀ number, state.ofSet set number = none) :
    ¬ PutBack set state (Script.run (revertScript set previous) after).1 := by
  intro hback
  obtain ⟨⟨restored, done⟩, hrun⟩ : ∃ ended,
    Script.run (previous.items.map fun item => restoreRule set item.1 item.2) after = ended :=
      ⟨_, rfl⟩
  cases done with
  | false =>
      rw [revertScript, Script.run_append_of_stops hrun] at hback
      apply hversion
      rw [← held_of_run_restoreRule hrun]
      exact hback.version
  | true =>
      have hrewrites := rewrites_of_run hrun
      obtain ⟨dropped, hdropped⟩ : ∃ dropped,
        deleteDropped set (previous.rules.map (·.number)) restored = some dropped := ⟨_, rfl⟩
      have hkeep : previous.rules.map (·.number) = previous.items.map (·.1) := by
        rw [Previous.items, List.map_map]
        rfl
      obtain ⟨hreplaces, -⟩ := hrewrites.replaces _ hkeep hdropped
      rw [revertScript, Script.run_append_of_completes hrun,
        Script.run_cons_of_eq_some hdropped] at hback
      obtain ⟨first, hfirst⟩ := List.exists_mem_of_ne_nil _ previous.rules_ne_nil
      have hmem : first.number ∈ previous.items.map (·.1) := by
        rw [← hkeep]
        exact List.mem_map_of_mem hfirst
      obtain ⟨wording, hwording⟩ : ∃ wording,
          lastWording previous.items first.number = some wording := by
        rw [← Option.ne_none_iff_exists', ne_eq, lastWording_eq_none_iff, not_not]
        exact hmem
      have hfind := hreplaces.find first.number
      rw [hwording] at hfind
      have hrules := hback.rules first.number
      rw [hempty, Option.map_none, Option.map_eq_none_iff] at hrules
      change dropped.ofSet set first.number = none at hrules
      rw [PolicyRules.ofSet, hfind, Option.filter_some,
        if_pos (isOf_written fun _ => number_of_find)] at hrules
      contradiction

/-- Installing another version and putting the one before it back undoes the
installation exactly where the policy has a rule of the set, the file takes over
no rule from outside it, and no rule it drops is switched off. -/
theorem putBack_iff (hfile : text.installable libraries = .ok file)
    (hheld : state.held set = some holding) (hother : holding.version ≠ version) :
    PutBack set state (revertSet set (installSet toJson set libraries version text state).1).1 ↔
      Undoable set (file.rules.map (·.id)) state := by
  obtain ⟨middle, hrun, hinstall, hmiddle, hprevious⟩ :=
    run_installScript toJson version file set state
  have hids : (file.items toJson).map (·.1) = file.rules.map (·.id) := by
    rw [RuleFile.items, List.map_map]
    rfl
  rw [installSet, hfile]
  dsimp only
  rw [hrun, revertSet]
  cases hkept : state.kept set version with
  | some previous =>
      rw [hprevious, hkept]
      dsimp only
      rw [Function.update_self]
      dsimp only
      obtain ⟨after, hback, hrevert, hafter, -⟩ := run_revertScript (free_kept hkept hinstall)
      rw [hback]
      have hothers := others_putBack_iff hkept hinstall hrevert
      have hrules := rules_putBack_iff hkept hinstall hrevert
      rw [hids] at hothers hrules
      constructor
      · intro hputBack
        refine ⟨?_, hothers.mp hputBack.others, hrules.mp hputBack.rules⟩
        by_contra hnone
        have hempty : ∀ number, state.ofSet set number = none := by
          simpa using hnone
        rw [(kept_eq_none_iff hheld hother).mpr hempty] at hkept
        contradiction
      · intro hundoable
        refine ⟨hrules.mpr hundoable.kept, ?_, hothers.mpr hundoable.own⟩
        rw [hafter, Function.update_self, hmiddle, Function.update_self, hheld, Option.map_some,
          Option.map_some, Option.map_some, version_of_kept hheld hkept]
  | none =>
      have hempty := (kept_eq_none_iff hheld hother).mp hkept
      have hmismatch : (middle.held set).map (·.version) ≠ (state.held set).map (·.version) := by
        rw [hmiddle, Function.update_self, hheld, Option.map_some, Option.map_some, ne_eq,
          Option.some.injEq]
        exact Ne.symm hother
      apply iff_of_false
      · cases middle.previous set with
        | none => exact fun hback => hmismatch hback.version
        | some earlier => exact not_putBack_of_revertScript hmismatch hempty
      · intro hundoable
        obtain ⟨number, hnumber⟩ := hundoable.held
        rw [hempty] at hnumber
        contradiction

end Undo

section Core

/-- A rule that scores a query with its pattern. -/
def queryRule (id : ℤ) : RuleFileDef where
  id := id
  name := "Select".toList
  description := none
  zone := "ARGS".toList
  pattern := "select".toList
  score := 5
  action := "Block".toList
  negate := false
  transforms := []
  conditions := []

/-- A set's text with rules under these numbers. -/
def queryRules (ids : List ℤ) : SetText where
  raw := none
  file := some { name := none, rules := ids.map queryRule }

/-- A policy's rule under a number of the core set. -/
def coreRule (number : ℤ) (enabled : Bool) : StoredRule :=
  { StoredRule.ofSet "core".toList number ((queryRule number).wording fun _ => []) with enabled }

/-- A policy that holds version 1 of the core set: rule 1, and rule 2 switched
off. -/
def coreHeld : PolicyRules where
  rules := [coreRule 1 true, coreRule 2 false]
  held := Function.update (fun _ => none) "core".toList (some { name := "core".toList, version := 1 })
  previous := fun _ => none
  numbers_nodup := by decide

theorem putBack_iff_of_core :
    PutBack "core".toList coreHeld (revertSet "core".toList (installSet (fun _ => []) "core".toList
        Libraries.plain 2 (queryRules [1, 2]) coreHeld).1).1 ↔
      Undoable "core".toList [1, 2] coreHeld := by
  have hfile : (queryRules [1, 2]).installable Libraries.plain =
      .ok { name := none, rules := [queryRule 1, queryRule 2] } := by decide
  have hheld : coreHeld.held "core".toList = some { name := "core".toList, version := 1 } := by
    decide
  exact putBack_iff hfile hheld (by decide)

/-- The rule that is switched off and dropped comes back on. -/
theorem update_not_undone :
    ¬ ∀ (toJson : List Condition → Text) (libraries : Libraries) (set : Text) (state : PolicyRules)
      (holding : Holding) (version : ℤ) (text : SetText) (file : RuleFile),
      state.held set = some holding → holding.version ≠ version →
        text.installable libraries = .ok file →
          PutBack set state (revertSet set (installSet toJson set libraries version text state).1).1 := by
  intro hall
  have hback := (hall (fun _ => []) Libraries.plain "core".toList coreHeld
    { name := "core".toList, version := 1 } 2 (queryRules [1]) { name := none, rules := [queryRule 1] }
    (by decide) (by decide) (by decide)).rules 2
  have henabled := congrArg (Option.map Prod.snd) hback
  exact absurd henabled (by decide)

end Core

end EasyWaf.RuleSets