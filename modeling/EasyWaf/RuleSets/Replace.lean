import EasyWaf.RuleSets.Install

/-!
# What a set's rules are replaced by

Installing a version and putting one back both write rules one by one and delete
those of the set that were not written.  What one write does to the rule under
its number, and to the rules of others, says what a whole replacement does.
-/

namespace EasyWaf.RuleSets

open PolicyRules

variable {set : Text} {number other : ℤ} {wording : Wording}

/-- A rule written for a set: reworded where there was one under its number, and
new and switched on where there was none. -/
def written (set : Text) (number : ℤ) (wording : Wording) : Option StoredRule → StoredRule
  | some rule => rule.takenOver set wording
  | none => StoredRule.ofSet set number wording

theorem number_written (set : Text) (wording : Wording) {found : Option StoredRule}
    (hfound : ∀ rule, found = some rule → rule.number = some number) :
    (written set number wording found).number = some number := by
  cases found with
  | none => rfl
  | some rule => exact hfound rule rfl

theorem isOf_written {found : Option StoredRule}
    (hfound : ∀ rule, found = some rule → rule.number = some number) :
    (written set number wording found).isOf set := by
  have hnumber := number_written set wording hfound
  cases found <;> simp_all [written, StoredRule.isOf, StoredRule.ofSet, StoredRule.takenOver, StoredRule.reworded]

/-- Only the last wording written counts. -/
theorem written_written (earlier : Wording) (found : Option StoredRule) :
    written set number wording (some (written set number earlier found)) =
      written set number wording found := by
  cases found <;> rfl

/-- One write: the rule under its number, and nothing else. -/
structure Writes (set : Text) (number : ℤ) (wording : Wording) (before after : PolicyRules) :
    Prop where
  find_self : after.find number = some (written set number wording (before.find number))
  find_of_ne : ∀ other, other ≠ number → after.find other = before.find other
  others : after.others set = (before.others set).filter (·.number ≠ some number)
  held : after.held = before.held
  previous : after.previous = before.previous

theorem isOf_of_writes {before after : PolicyRules} (hwrites : Writes set number wording before after)
    {rule : StoredRule} (hrule : after.find number = some rule) : rule.isOf set := by
  rw [hwrites.find_self] at hrule
  rw [← Option.some.inj hrule]
  exact isOf_written fun _ => number_of_find

/-- A rule that is not of the set and not written to is kept. -/
theorem others_update {state : PolicyRules} {isMatch : StoredRule → Bool}
    {change : StoredRule → StoredRule} {hchange : ∀ rule, (change rule).number = rule.number}
    (hmatch : ∀ rule ∈ state.rules, isMatch rule → (change rule).isOf set) :
    (state.update isMatch change hchange).others set =
      (state.others set).filter (!isMatch ·) := by
  rw [PolicyRules.others, PolicyRules.others, update, List.filter_filter, List.filter_map]
  have hfilter : ∀ rule ∈ state.rules,
      ((fun rule => !StoredRule.isOf set rule) ∘
          fun rule => if isMatch rule then change rule else rule) rule =
        (!isMatch rule && !rule.isOf set) := by
    intro rule hrule
    cases hm : isMatch rule with
    | true => simp [hm, hmatch rule hrule hm]
    | false => simp [hm]
  rw [List.filter_congr hfilter]
  rw [List.map_congr_left (g := id), List.map_id]
  intro rule hrule
  have hkept := (List.mem_filter.mp hrule).2
  rw [Bool.and_eq_true, Bool.not_eq_true'] at hkept
  simp [hkept.1]

theorem others_insert {state after : PolicyRules} {rule : StoredRule} (hrule : rule.isOf set)
    (hafter : state.insert rule = some after) : after.others set = state.others set := by
  rw [PolicyRules.others, rules_insert hafter, List.filter_append]
  simp [PolicyRules.others, hrule]

theorem filter_others_of_find_eq_none {state : PolicyRules} (hnone : state.find number = none) :
    (state.others set).filter (·.number ≠ some number) = state.others set := by
  rw [List.filter_eq_self]
  intro rule hrule
  rw [decide_eq_true_eq]
  intro hnumber
  rw [find_of_mem (List.mem_of_mem_filter hrule) hnumber] at hnone
  contradiction

theorem installRule_writes (set : Text) (number : ℤ) (wording : Wording) (state : PolicyRules) :
    ∃ after, installRule set number wording state = some after ∧
      Writes set number wording state after := by
  cases hfound : state.find number with
  | none =>
      obtain ⟨after, hafter⟩ : ∃ after,
          state.insert (StoredRule.ofSet set number wording) = some after :=
        insert_of_find_eq_none rfl hfound
      have hheld : after.held = state.held ∧ after.previous = state.previous := by
        rw [PolicyRules.insert] at hafter
        split at hafter
        · rw [← Option.some.inj hafter]
          exact ⟨rfl, rfl⟩
        · contradiction
      refine ⟨after, by rw [installRule, hfound]; exact hafter, ?_, ?_, ?_, hheld.1, hheld.2⟩
      · rw [find_insert rfl hafter, if_pos rfl, hfound]
        rfl
      · intro other hother
        rw [find_insert rfl hafter, if_neg hother]
      · rw [filter_others_of_find_eq_none hfound]
        exact others_insert (by simp [StoredRule.isOf, StoredRule.ofSet]) hafter
  | some rule =>
      have hnumber := number_of_find hfound
      have hafter : installRule set number wording state =
          some (state.update (·.number = some number) (StoredRule.takenOver set wording)
            (StoredRule.number_takenOver set wording)) := by
        rw [installRule, hfound]
      refine ⟨_, hafter, ?_, ?_, ?_, rfl, rfl⟩
      · rw [find_update, hfound]
        simp [hnumber, written]
      · intro other hother
        rw [find_update]
        cases hother' : state.find other with
        | none => rfl
        | some rule => simp [number_of_find hother', hother]
      · rw [others_update]
        · simp
        · intro rule _ hmatch
          simp only [decide_eq_true_eq] at hmatch
          simp [StoredRule.isOf, StoredRule.takenOver, StoredRule.reworded, hmatch]

/-- Putting a rule back writes it where no other set's rule has its number. -/
theorem restoreRule_writes (wording : Wording) {state : PolicyRules}
    (hfree : ∀ rule, state.find number = some rule → rule.isOf set) :
    ∃ after, restoreRule set number wording state = some after ∧
      Writes set number wording state after := by
  cases hfound : state.find number with
  | none =>
      obtain ⟨after, hafter, hwrites⟩ := installRule_writes set number wording state
      refine ⟨after, ?_, hwrites⟩
      rw [installRule, hfound] at hafter
      rw [restoreRule, hfound]
      exact hafter
  | some rule =>
      have hnumber := number_of_find hfound
      have hof := hfree rule hfound
      have hafter : restoreRule set number wording state =
          some (state.update (fun rule => rule.isOf set && rule.number = some number)
            (StoredRule.reworded wording) (StoredRule.number_reworded wording)) := by
        rw [restoreRule, hfound, Option.any_some, if_pos hof]
      refine ⟨_, hafter, ?_, ?_, ?_, rfl, rfl⟩
      · rw [find_update, hfound]
        have hset : rule.ruleSet = some set := by
          simp only [StoredRule.isOf, Bool.and_eq_true, decide_eq_true_eq] at hof
          exact hof.1
        simp [hnumber, hof, written, StoredRule.takenOver, StoredRule.reworded, hset]
      · intro other hother
        rw [find_update]
        cases hother' : state.find other with
        | none => rfl
        | some rule => simp [number_of_find hother', hother]
      · rw [others_update]
        · apply List.filter_congr
          intro other hother
          have hnot : other.isOf set = false := by
            simpa using (List.mem_filter.mp hother).2
          have hne : other.number ≠ some number := by
            intro heq
            have hfind := find_of_mem (List.mem_of_mem_filter hother) heq
            rw [hfound] at hfind
            rw [← Option.some.inj hfind, hof] at hnot
            contradiction
          simp [hnot, hne]
        · intro other _ hmatch
          rw [Bool.and_eq_true] at hmatch
          exact hmatch.1

/-- A rule put back was free to be. -/
theorem free_of_restoreRule {before after : PolicyRules}
    (hafter : restoreRule set number wording before = some after) :
    ∀ rule, before.find number = some rule → rule.isOf set := by
  intro rule hrule
  by_contra hof
  rw [restoreRule, hrule, Option.any_some, if_neg hof, PolicyRules.insert, dif_neg] at hafter
  · contradiction
  · intro hnew
    apply hnew number rfl
    exact List.mem_filterMap.mpr ⟨rule, mem_of_find hrule, number_of_find hrule⟩

theorem writes_of_restoreRule {before after : PolicyRules}
    (hafter : restoreRule set number wording before = some after) :
    Writes set number wording before after := by
  obtain ⟨restored, hrestored, hwrites⟩ := restoreRule_writes wording
    (free_of_restoreRule hafter)
  rw [hafter] at hrestored
  rwa [Option.some.inj hrestored]

section Rewrites

variable {items : List (ℤ × Wording)} {before after state : PolicyRules}

/-- What is written last under a number. -/
def lastWording (items : List (ℤ × Wording)) (number : ℤ) : Option Wording :=
  (items.reverse.find? (·.1 = number)).map (·.2)

theorem lastWording_cons (item : ℤ × Wording) (items : List (ℤ × Wording)) (number : ℤ) :
    lastWording (item :: items) number =
      (lastWording items number).or (if item.1 = number then some item.2 else none) := by
  rw [lastWording, lastWording, List.reverse_cons, List.find?_append]
  cases items.reverse.find? (·.1 = number) with
  | some found => rfl
  | none =>
      rw [Option.none_or, Option.map_none, Option.none_or]
      split <;> simp_all

theorem lastWording_eq_none_iff :
    lastWording items number = none ↔ number ∉ items.map (·.1) := by
  simp only [lastWording, Option.map_eq_none_iff, List.find?_eq_none, List.mem_reverse,
    decide_eq_true_eq, List.mem_map, not_exists, not_and]

theorem mem_of_lastWording (hlast : lastWording items number = some wording) :
    number ∈ items.map (·.1) := by
  by_contra hnot
  rw [lastWording_eq_none_iff.mpr hnot] at hlast
  contradiction

/-- A rule is left alone: its number is not written under. -/
def isLeft (items : List (ℤ × Wording)) (rule : StoredRule) : Bool :=
  !rule.number.any ((items.map (·.1)).contains ·)

/-- A run of writes. -/
structure Rewrites (set : Text) (items : List (ℤ × Wording)) (before after : PolicyRules) :
    Prop where
  find : ∀ number, after.find number =
    match lastWording items number with
    | some wording => some (written set number wording (before.find number))
    | none => before.find number
  others : after.others set = (before.others set).filter (isLeft items)
  held : after.held = before.held
  previous : after.previous = before.previous

theorem Rewrites.nil : Rewrites set [] state state where
  find _ := rfl
  others := by
    rw [List.filter_eq_self.mpr]
    intro rule _
    cases hnumber : rule.number <;> simp [isLeft, hnumber]
  held := rfl
  previous := rfl

theorem Rewrites.cons {item : ℤ × Wording} {middle : PolicyRules}
    (hfirst : Writes set item.1 item.2 before middle) (hrest : Rewrites set items middle after) :
    Rewrites set (item :: items) before after where
  find number := by
    rw [hrest.find, lastWording_cons]
    by_cases hnumber : item.1 = number
    · subst hnumber
      rw [hfirst.find_self, if_pos rfl]
      cases lastWording items item.1 with
      | none => rfl
      | some wording => exact congrArg some (written_written item.2 (before.find item.1))
    · rw [hfirst.find_of_ne _ (Ne.symm hnumber), if_neg hnumber, Option.or_none]
  others := by
    rw [hrest.others, hfirst.others, List.filter_filter]
    apply List.filter_congr
    intro rule _
    cases hnumber : rule.number with
    | none => simp [isLeft, hnumber]
    | some number => by_cases heq : number = item.1 <;> simp [isLeft, hnumber, heq]
  held := hrest.held.trans hfirst.held
  previous := hrest.previous.trans hfirst.previous

/-- Writes that cannot fail where something holds, and keep it, are run to the
end of the list. -/
theorem run_writes {write : ℤ → Wording → PolicyRules → Option PolicyRules}
    {holds : PolicyRules → Prop}
    (hwrite : ∀ item ∈ items, ∀ before, holds before → ∃ after,
      write item.1 item.2 before = some after ∧ Writes set item.1 item.2 before after ∧ holds after)
    (hstart : holds state) :
    ∃ after, Script.run (items.map fun item => write item.1 item.2) state = (after, true) ∧
      Rewrites set items state after := by
  induction items generalizing state with
  | nil => exact ⟨state, rfl, Rewrites.nil⟩
  | cons item items ih =>
      obtain ⟨middle, hmiddle, hfirst, hholds⟩ := hwrite item List.mem_cons_self state hstart
      obtain ⟨after, hrun, hrest⟩ := ih
        (fun later hlater => hwrite later (List.mem_cons_of_mem _ hlater)) hholds
      refine ⟨after, ?_, hrest.cons hfirst⟩
      rw [List.map_cons, Script.run_cons_of_eq_some hmiddle, hrun]

/-- Rules put back one by one, where none of them fails. -/
theorem rewrites_of_run
    (hrun : Script.run (items.map fun item => restoreRule set item.1 item.2) state = (after, true)) :
    Rewrites set items state after := by
  induction items generalizing state with
  | nil =>
      obtain rfl : state = after := congrArg Prod.fst hrun
      exact Rewrites.nil
  | cons item items ih =>
      rw [List.map_cons, Script.run] at hrun
      cases hmiddle : restoreRule set item.1 item.2 state with
      | none =>
          rw [hmiddle] at hrun
          exact absurd (congrArg Prod.snd hrun) Bool.false_ne_true
      | some middle =>
          rw [hmiddle] at hrun
          exact (ih hrun).cons (writes_of_restoreRule hmiddle)

/-- A replacement: what is written, and of the set nothing else. -/
structure Replaces (set : Text) (items : List (ℤ × Wording)) (before after : PolicyRules) :
    Prop where
  find : ∀ number, after.find number =
    match lastWording items number with
    | some wording => some (written set number wording (before.find number))
    | none => (before.find number).filter (!·.isOf set)
  others : after.others set = (before.others set).filter (isLeft items)

/-- Deleting what was not written makes a replacement of a run of writes. -/
theorem Rewrites.replaces (hrewrites : Rewrites set items before state) (keep : List ℤ)
    (hkeep : keep = items.map (·.1)) (hafter : deleteDropped set keep state = some after) :
    Replaces set items before after ∧ after.held = before.held ∧
      after.previous = before.previous := by
  subst hkeep
  obtain rfl := Option.some.inj hafter
  refine ⟨⟨?_, ?_⟩, hrewrites.held, hrewrites.previous⟩
  · intro number
    rw [find_delete, hrewrites.find]
    cases hlast : lastWording items number with
    | some wording =>
        have hmem := mem_of_lastWording hlast
        have hnumber := number_written set wording
          fun rule (hrule : before.find number = some rule) => number_of_find hrule
        have hlisted := List.contains_iff_mem.mpr hmem
        simp only [Option.filter_some, hnumber, Option.any_some, hlisted, Bool.not_true,
          Bool.and_false, Bool.not_false, if_true]
    | none =>
        have hnot := lastWording_eq_none_iff.mp hlast
        simp only
        cases hfound : before.find number with
        | none => rfl
        | some rule =>
            rw [Option.filter_some, Option.filter_some, number_of_find hfound]
            simp [hnot]
  · rw [← hrewrites.others, PolicyRules.others, PolicyRules.others, delete, List.filter_filter]
    apply List.filter_congr
    intro rule _
    cases rule.isOf set <;> simp

end Rewrites

end EasyWaf.RuleSets
