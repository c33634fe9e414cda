import EasyWaf.RuleSets.Rollback

/-!
# What is done with a set

The calls that write the rules of a set: an installation, which may stop after
any number of its statements and be tried again, putting a version back, removing
the set, and the operator's switches.
-/

namespace EasyWaf.RuleSets

open PolicyRules

/-- A rule switched on or off. -/
def StoredRule.switched (enabled : Bool) (rule : StoredRule) : StoredRule := { rule with enabled }

theorem StoredRule.number_switched (enabled : Bool) (rule : StoredRule) :
    (rule.switched enabled).number = rule.number := rfl

/-- The rules under these numbers, switched on or off. -/
def PolicyRules.switch (numbers : List ℤ) (enabled : Bool) (state : PolicyRules) : PolicyRules :=
  state.update (·.number.any (numbers.contains ·)) (StoredRule.switched enabled)
    (StoredRule.number_switched enabled)

/-- One call. -/
inductive Operation
  | install (version : ℤ) (text : SetText) (statements : ℕ)
  | revert
  | uninstall
  | switchOff (numbers : List ℤ)
  | switchOn (numbers : List ℤ)

section Perform

variable (toJson : List Condition → Text) (set : Text) (libraries : Libraries)

/-- `install_set`, stopped after some of its statements. -/
def installPart (version : ℤ) (text : SetText) (statements : ℕ) (state : PolicyRules) :
    PolicyRules :=
  match text.installable libraries with
  | .error _ => state
  | .ok file => (Script.run ((installScript toJson set version file).take statements) state).1

/-- The numbers such an installation writes rules under. -/
def installedNumbers (text : SetText) (statements : ℕ) : List ℤ :=
  match text.installable libraries with
  | .error _ => []
  | .ok file => (file.rules.map (·.id)).take (statements - 1)

def perform (state : PolicyRules) : Operation → PolicyRules
  | .install version text statements => installPart toJson set libraries version text statements state
  | .revert => (revertSet set state).1
  | .uninstall => (uninstallSet set state).1
  | .switchOff numbers => state.switch numbers false
  | .switchOn numbers => state.switch numbers true

end Perform

section Part

variable {toJson : List Condition → Text} {set : Text} {libraries : Libraries} {version : ℤ}
  {text : SetText} {file : RuleFile} {state : PolicyRules} {statements : ℕ}

/-- An installation that is not stopped is `install_set`. -/
theorem installPart_of_length_le (hfile : text.installable libraries = .ok file)
    (hlong : (installScript toJson set version file).length ≤ statements) :
    installPart toJson set libraries version text statements state =
      (installSet toJson set libraries version text state).1 := by
  rw [installPart, installSet, hfile]
  dsimp only
  rw [List.take_of_length_le hlong]

/-- Rules are written, and of the rest nothing; what was free for the set to be
put back under still is. -/
structure WritesRules (set : Text) (before after : PolicyRules) : Prop where
  held : after.held = before.held
  previous : after.previous = before.previous
  free : ∀ items, Free set items before → Free set items after

theorem WritesRules.refl (state : PolicyRules) : WritesRules set state state where
  held := rfl
  previous := rfl
  free _ hfree := hfree

theorem WritesRules.trans {before middle after : PolicyRules} (first : WritesRules set before middle)
    (second : WritesRules set middle after) : WritesRules set before after where
  held := second.held.trans first.held
  previous := second.previous.trans first.previous
  free items hfree := second.free items (first.free items hfree)

theorem Writes.writesRules {number : ℤ} {wording : Wording} {before after : PolicyRules}
    (hwrites : Writes set number wording before after) : WritesRules set before after where
  held := hwrites.held
  previous := hwrites.previous
  free _ hfree := hfree.writes hwrites

theorem writesRules_delete (isMatch : StoredRule → Bool) (before : PolicyRules) :
    WritesRules set before (before.delete isMatch) where
  held := rfl
  previous := rfl
  free items hfree := by
    intro item hitem rule hrule
    rw [find_delete, Option.filter_eq_some_iff] at hrule
    exact hfree item hitem rule hrule.1

/-- The statements between the first and the last write rules only. -/
theorem writesRules_of_mem {items : List (ℤ × Wording)} {keep : List ℤ}
    {statement : PolicyRules → Option PolicyRules} {before after : PolicyRules}
    (hstatement : statement ∈
      (items.map fun item => installRule set item.1 item.2) ++ [deleteDropped set keep])
    (hafter : statement before = some after) : WritesRules set before after := by
  obtain hwrite | hdelete := List.mem_append.mp hstatement
  · obtain ⟨item, -, rfl⟩ := List.mem_map.mp hwrite
    obtain ⟨written, hwritten, hwrites⟩ :=
      installRule_writes set item.1 item.2 before
    rw [hafter] at hwritten
    rw [Option.some.inj hwritten]
    exact hwrites.writesRules
  · obtain rfl := List.mem_singleton.mp hdelete
    rw [← Option.some.inj hafter]
    exact writesRules_delete _ before

/-- What the first statement of an installation records. -/
theorem snapshotBeforeUpdate_eq (version : ℤ) (state : PolicyRules) :
    ∃ middle, snapshotBeforeUpdate set version state = some middle ∧ middle.rules = state.rules ∧
      middle.held = state.held ∧
      middle.previous set = (state.kept set version).or (state.previous set) := by
  rw [snapshotBeforeUpdate]
  cases state.kept set version with
  | none => exact ⟨state, rfl, rfl, rfl, rfl⟩
  | some previous => exact ⟨_, rfl, rfl, rfl, Function.update_self ..⟩

/-- What an installation leaves recorded once it has begun. -/
structure Begun (set : Text) (version : ℤ) (before after : PolicyRules) : Prop where
  previous : after.previous set = (before.kept set version).or (before.previous set)
  free : ∀ previous, after.previous set = some previous →
    (before.kept set version = none → Free set previous.items before) →
      Free set previous.items after

theorem begun_of_writesRules {middle after : PolicyRules}
    (hrules : middle.rules = state.rules)
    (hprevious : middle.previous set = (state.kept set version).or (state.previous set))
    (hwrites : WritesRules set middle after) : Begun set version state after where
  previous := by rw [hwrites.previous, hprevious]
  free := by
    intro previous hrecorded hfree
    apply hwrites.free
    have hfind : ∀ number, middle.find number = state.find number := by
      intro number
      rw [PolicyRules.find, hrules, PolicyRules.find]
    intro item hitem rule hrule
    rw [hfind] at hrule
    cases hkept : state.kept set version with
    | none => exact hfree hkept item hitem rule hrule
    | some kept =>
        rw [hwrites.previous, hprevious, hkept, Option.some_or] at hrecorded
        obtain rfl := Option.some.inj hrecorded
        obtain ⟨own, hown, -⟩ := (mem_items_iff hkept).mp hitem
        obtain ⟨hsame, hof⟩ := Option.filter_eq_some_iff.mp hown
        rw [hrule] at hsame
        rwa [Option.some.inj hsame]

/-- An installation that begins, and stops before its last statement. -/
theorem begun_of_lt (state : PolicyRules) (hfile : text.installable libraries = .ok file) (hbegun : statements ≠ 0)
    (hstop : statements < (installScript toJson set version file).length) :
    Begun set version state (installPart toJson set libraries version text statements state) ∧
      (installPart toJson set libraries version text statements state).held = state.held := by
  obtain ⟨middle, hmiddle, hrules, hheld, hprevious⟩ := @snapshotBeforeUpdate_eq set version state
  obtain ⟨count, rfl⟩ := Nat.exists_eq_succ_of_ne_zero hbegun
  rw [installPart, hfile]
  dsimp only
  have hcount : count ≤
      (((file.items toJson).map fun item => installRule set item.1 item.2) ++
        [deleteDropped set (file.rules.map (·.id))]).length := by
    rw [installScript] at hstop
    simp only [List.length_cons, List.length_append, List.length_nil] at hstop ⊢
    omega
  rw [installScript, Nat.succ_eq_add_one, List.take_succ_cons, Script.run_cons_of_eq_some hmiddle,
    List.append_cons, List.take_append_of_le_length hcount]
  have hwrites : WritesRules set middle (Script.run ((((file.items toJson).map fun item =>
      installRule set item.1 item.2) ++ [deleteDropped set (file.rules.map (·.id))]).take count)
        middle).1 := by
    apply Script.run_invariant fun reached => WritesRules set middle reached
    · intro statement hstatement before after hbefore hafter
      exact hbefore.trans (writesRules_of_mem (List.mem_of_mem_take hstatement) hafter)
    · exact WritesRules.refl middle
  exact ⟨begun_of_writesRules hrules hprevious hwrites, hwrites.held.trans hheld⟩

theorem Free.replaces {items others : List (ℤ × Wording)} {before after : PolicyRules}
    (hfree : Free set others before) (hreplaces : Replaces set items before after) :
    Free set others after := by
  intro item hitem rule hrule
  rw [hreplaces.find] at hrule
  cases hlast : lastWording items item.1 with
  | some wording =>
      rw [hlast] at hrule
      rw [← Option.some.inj hrule]
      exact isOf_written fun _ => number_of_find
  | none =>
      rw [hlast] at hrule
      obtain ⟨hfound, hnot⟩ := Option.filter_eq_some_iff.mp hrule
      exact absurd (hfree item hitem rule hfound) (by simpa using hnot)

/-- What a replacement leaves of the set is what was written last under each
number. -/
theorem Replaces.wordings {items : List (ℤ × Wording)} {before after : PolicyRules}
    (hreplaces : Replaces set items before after) (number : ℤ) :
    (after.ofSet set number).map (·.wording) = lastWording items number := by
  rw [PolicyRules.ofSet, hreplaces.find]
  cases lastWording items number with
  | none =>
      simp only
      rw [Option.filter_filter]
      simp
  | some wording =>
      simp only
      rw [Option.filter_some, if_pos (isOf_written fun _ => number_of_find), Option.map_some]
      cases before.find number <;> rfl

/-- An installation that runs to its end. -/
theorem begun_of_length_le (state : PolicyRules) (hfile : text.installable libraries = .ok file)
    (hlong : (installScript toJson set version file).length ≤ statements) :
    Begun set version state (installPart toJson set libraries version text statements state) ∧
      Replaces set (file.items toJson) state
        (installPart toJson set libraries version text statements state) ∧
      ((installPart toJson set libraries version text statements state).held set).map
        (·.version) = some version := by
  obtain ⟨after, hrun, hreplaces, hheld, hprevious⟩ :=
    run_installScript toJson version file set state
  rw [installPart_of_length_le hfile hlong, installSet, hfile]
  dsimp only
  rw [hrun]
  refine ⟨⟨?_, ?_⟩, hreplaces, ?_⟩
  · rw [hprevious]
    cases state.kept set version with
    | none => rfl
    | some previous => exact Function.update_self ..
  · intro previous hrecorded hfree
    cases hkept : state.kept set version with
    | none => exact (hfree hkept).replaces hreplaces
    | some kept =>
        rw [hprevious, hkept] at hrecorded
        dsimp only at hrecorded
        rw [Function.update_self] at hrecorded
        rw [← Option.some.inj hrecorded]
        exact free_kept hkept hreplaces
  · rw [hheld, Function.update_self]
    rfl

/-- Rules may be deleted and none is written. -/
def Shrinks (before after : PolicyRules) : Prop :=
  ∀ number rule, after.find number = some rule → before.find number = some rule

theorem shrinks_of_rules {before after : PolicyRules} (hrules : after.rules = before.rules) :
    Shrinks before after := by
  intro number rule hrule
  rwa [PolicyRules.find, hrules] at hrule

theorem shrinks_delete (isMatch : StoredRule → Bool) (before : PolicyRules) :
    Shrinks before (before.delete isMatch) := by
  intro number rule hrule
  rw [find_delete, Option.filter_eq_some_iff] at hrule
  exact hrule.1

/-- A script whose statements write no rule. -/
theorem shrinks_run {script : List (PolicyRules → Option PolicyRules)} {state : PolicyRules}
    (hshrinks : ∀ statement ∈ script, ∀ before after, statement before = some after →
      Shrinks before after) :
    Shrinks state (Script.run script state).1 := by
  apply Script.run_invariant fun reached => Shrinks state reached
  · intro statement hstatement before after hbefore hafter number rule hrule
    exact hbefore number rule (hshrinks statement hstatement before after hafter number rule hrule)
  · exact fun _ _ hrule => hrule

theorem shrinks_install {keep : List ℤ} {holding : Holding}
    {statement : PolicyRules → Option PolicyRules}
    (hstatement : statement ∈ [deleteDropped set keep, recordHolding set holding])
    {before after : PolicyRules} (hafter : statement before = some after) :
    Shrinks before after := by
  simp only [List.mem_cons, List.not_mem_nil, or_false] at hstatement
  obtain rfl | rfl := hstatement
  · rw [← Option.some.inj hafter]
    exact shrinks_delete _ _
  · rw [← Option.some.inj hafter]
    exact shrinks_of_rules rfl

theorem shrinks_revert {keep : List ℤ} {version : ℤ}
    {statement : PolicyRules → Option PolicyRules}
    (hstatement : statement ∈
      [deleteDropped set keep, putVersionBack set version, forgetPrevious set])
    {before after : PolicyRules} (hafter : statement before = some after) :
    Shrinks before after := by
  simp only [List.mem_cons, List.not_mem_nil, or_false] at hstatement
  obtain rfl | rfl | rfl := hstatement
  · rw [← Option.some.inj hafter]
    exact shrinks_delete _ _
  · rw [← Option.some.inj hafter]
    exact shrinks_of_rules rfl
  · rw [← Option.some.inj hafter]
    exact shrinks_of_rules rfl

/-- An installation that begins writes the rules it gets to, and no other. -/
theorem rewrites_of_installPart (toJson : List Condition → Text) (set : Text) (version : ℤ)
    (state : PolicyRules) (hfile : text.installable libraries = .ok file) (count : ℕ) :
    ∃ middle rewritten, middle.rules = state.rules ∧
      Rewrites set ((file.items toJson).take count) middle rewritten ∧
      Shrinks rewritten (installPart toJson set libraries version text (count + 1) state) := by
  obtain ⟨middle, hmiddle, hrules, -, -⟩ := @snapshotBeforeUpdate_eq set version state
  obtain ⟨rewritten, hrun, hrewrites⟩ :=
    @run_writes set ((file.items toJson).take count) middle (installRule set) (fun _ => True)
      (fun item _ before _ =>
        (installRule_writes _ _ _ before).imp fun after hafter => ⟨hafter.1, hafter.2, trivial⟩) trivial
  refine ⟨middle, rewritten, hrules, hrewrites, ?_⟩
  rw [installPart, hfile]
  dsimp only
  rw [installScript, List.take_succ_cons, Script.run_cons_of_eq_some hmiddle, List.take_append,
    ← List.map_take, Script.run_append_of_completes hrun]
  apply shrinks_run
  intro statement hstatement before after hafter
  exact shrinks_install (List.mem_of_mem_take hstatement) hafter

theorem find_of_rules {middle : PolicyRules} (hrules : middle.rules = state.rules) (number : ℤ) :
    middle.find number = state.find number := by
  rw [PolicyRules.find, hrules, PolicyRules.find]

/-- The numbers an installation gets to. -/
theorem items_take (toJson : List Condition → Text) (file : RuleFile) (count : ℕ) :
    ((file.items toJson).take count).map (·.1) = (file.rules.map (·.id)).take count := by
  rw [List.map_take, RuleFile.items, List.map_map]
  rfl

theorem installedNumbers_succ (toJson : List Condition → Text)
    (hfile : text.installable libraries = .ok file) (count : ℕ) :
    installedNumbers libraries text (count + 1) = ((file.items toJson).take count).map (·.1) := by
  rw [installedNumbers, hfile]
  exact (items_take toJson file count).symm

/-- A rule that is there after an installation, under a number it got to, is of
the set; under another number it was there before. -/
theorem find_installPart {number : ℤ} {rule : StoredRule}
    (hrule : (installPart toJson set libraries version text statements state).find number =
      some rule) :
    (number ∈ installedNumbers libraries text statements → rule.isOf set) ∧
      (number ∉ installedNumbers libraries text statements → state.find number = some rule) := by
  cases hfile : text.installable libraries with
  | error refusal =>
      rw [installPart, hfile] at hrule
      rw [installedNumbers, hfile]
      exact ⟨fun hmem => absurd hmem List.not_mem_nil, fun _ => hrule⟩
  | ok file =>
      cases statements with
      | zero =>
          rw [installPart, hfile] at hrule
          rw [installedNumbers, hfile]
          exact ⟨fun hmem => absurd hmem List.not_mem_nil, fun _ => hrule⟩
      | succ count =>
          obtain ⟨middle, rewritten, hrules, hrewrites, hshrinks⟩ :=
            rewrites_of_installPart toJson set version state hfile count
          have hwritten := hshrinks number rule hrule
          rw [hrewrites.find] at hwritten
          rw [installedNumbers_succ toJson hfile]
          cases hlast : lastWording ((file.items toJson).take count) number with
          | none =>
              rw [hlast, find_of_rules hrules] at hwritten
              exact ⟨fun hmem => absurd hmem (lastWording_eq_none_iff.mp hlast), fun _ => hwritten⟩
          | some wording =>
              rw [hlast] at hwritten
              refine ⟨fun _ => ?_, fun hnot => absurd (mem_of_lastWording hlast) hnot⟩
              rw [← Option.some.inj hwritten]
              exact isOf_written fun _ => number_of_find

/-- An installation records its own version or nothing. -/
theorem held_installPart (state : PolicyRules) :
    (installPart toJson set libraries version text statements state).held = state.held ∨
      ((text.installable libraries).isOk ∧
        ∃ name, (installPart toJson set libraries version text statements state).held =
          Function.update state.held set (some { name, version })) := by
  cases hfile : text.installable libraries with
  | error refusal =>
      rw [installPart, hfile]
      exact .inl rfl
  | ok file =>
      by_cases hzero : statements = 0
      · subst hzero
        rw [installPart, hfile]
        exact .inl rfl
      · by_cases hstop : statements < (installScript toJson set version file).length
        · exact .inl (begun_of_lt state hfile hzero hstop).2
        · obtain ⟨after, hrun, -, hheld, -⟩ :=
            run_installScript toJson version file set state
          rw [installPart_of_length_le hfile (Nat.le_of_not_lt hstop), installSet, hfile]
          dsimp only
          rw [hrun]
          exact .inr ⟨rfl, _, hheld⟩

end Part

end EasyWaf.RuleSets
