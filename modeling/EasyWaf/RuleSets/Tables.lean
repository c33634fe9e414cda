import EasyWaf.RuleSets.File
import Mathlib.Data.List.Nodup
import Mathlib.Logic.Function.Basic

/-!
# What a policy holds of its rule sets

The rules of one policy, the version it holds of each set, and the version each
set's last update replaced.  A rule's number is unique within the policy.
-/

namespace EasyWaf.RuleSets

/-- What a rule looked like when it was imported. -/
structure Imported where
  pattern : Text
  score : ℤ
  action : Text
  deriving DecidableEq

/-- A row of `waf_rules`.  A custom rule and a clone have no number. -/
structure StoredRule where
  number : Option ℤ
  ruleSet : Option Text
  enabled : Bool
  wording : Wording
  imported : Option Imported
  clonedFrom : Option Text
  deriving DecidableEq

def Wording.imported (wording : Wording) : Imported where
  pattern := wording.pattern
  score := wording.score
  action := wording.action

/-- A rule as a set brings it into a policy. -/
def StoredRule.ofSet (set : Text) (number : ℤ) (wording : Wording) : StoredRule where
  number := some number
  ruleSet := some set
  enabled := true
  wording := wording
  imported := some wording.imported
  clonedFrom := none

/-- A rule given a set's wording; it stays on or off as it was. -/
def StoredRule.reworded (wording : Wording) (rule : StoredRule) : StoredRule :=
  { rule with wording, imported := some wording.imported }

/-- A rule given a set's wording and the set. -/
def StoredRule.takenOver (set : Text) (wording : Wording) (rule : StoredRule) : StoredRule :=
  { rule.reworded wording with ruleSet := some set }

theorem StoredRule.number_reworded (wording : Wording) (rule : StoredRule) :
    (rule.reworded wording).number = rule.number := rfl

theorem StoredRule.number_takenOver (set : Text) (wording : Wording) (rule : StoredRule) :
    (rule.takenOver set wording).number = rule.number := rfl

/-- A numbered rule of the set: what an update of it may write to. -/
def StoredRule.isOf (set : Text) (rule : StoredRule) : Bool :=
  rule.ruleSet = some set && rule.number.isSome

/-- A row of `policy_rule_sets`. -/
structure Holding where
  name : Text
  version : ℤ
  deriving DecidableEq

/-- One rule as it stood before an update. -/
structure PreviousRule where
  number : ℤ
  wording : Wording
  deriving DecidableEq

/-- A row of `policy_rule_set_previous`, which is written with at least one
rule. -/
structure Previous where
  version : ℤ
  replacedBy : ℤ
  rules : List PreviousRule
  rules_ne_nil : rules ≠ []
  deriving DecidableEq

/-- The numbers of a list of rules. -/
def numbers (rules : List StoredRule) : List ℤ := rules.filterMap (·.number)

structure PolicyRules where
  rules : List StoredRule
  held : Text → Option Holding
  previous : Text → Option Previous
  /-- `idx_rules_external_id`. -/
  numbers_nodup : (numbers rules).Nodup

namespace PolicyRules

/-- The rule under a number, whatever set it is of. -/
def find (state : PolicyRules) (number : ℤ) : Option StoredRule :=
  state.rules.find? (·.number = some number)

/-- The rules that are not of the set: custom rules, clones and the rules of
other sets. -/
def others (state : PolicyRules) (set : Text) : List StoredRule :=
  state.rules.filter (!·.isOf set)

/-- The rules of the set. -/
def rulesOf (state : PolicyRules) (set : Text) : List StoredRule :=
  state.rules.filter (·.isOf set)

theorem numbers_map {change : StoredRule → StoredRule}
    (hchange : ∀ rule, (change rule).number = rule.number) (rules : List StoredRule) :
    numbers (rules.map change) = numbers rules := by
  rw [numbers, List.filterMap_map, numbers]
  exact List.filterMap_congr fun rule _ => hchange rule

/-- `UPDATE`: the rules that match, changed; no update writes a number. -/
def update (state : PolicyRules) (isMatch : StoredRule → Bool)
    (change : StoredRule → StoredRule) (hchange : ∀ rule, (change rule).number = rule.number) :
    PolicyRules where
  rules := state.rules.map fun rule => if isMatch rule then change rule else rule
  held := state.held
  previous := state.previous
  numbers_nodup := by
    rw [numbers_map]
    · exact state.numbers_nodup
    · intro rule
      split
      · exact hchange rule
      · rfl

/-- `DELETE`. -/
def delete (state : PolicyRules) (isMatch : StoredRule → Bool) : PolicyRules where
  rules := state.rules.filter (!isMatch ·)
  held := state.held
  previous := state.previous
  numbers_nodup := state.numbers_nodup.sublist (List.filter_sublist.filterMap _)

/-- `INSERT` of a numbered rule, which fails where the policy has a rule under
that number. -/
def insert (state : PolicyRules) (rule : StoredRule) : Option PolicyRules :=
  if hnew : ∀ number, rule.number = some number → number ∉ numbers state.rules then
    some
      { rules := state.rules ++ [rule]
        held := state.held
        previous := state.previous
        numbers_nodup := by
          rw [numbers, List.filterMap_append, List.nodup_append']
          refine ⟨state.numbers_nodup, ?_, ?_⟩
          · cases hnumber : rule.number <;> simp [hnumber]
          · intro number hold hnumber
            simp only [List.filterMap_cons, List.filterMap_nil] at hnumber
            cases hrule : rule.number with
            | none => simp [hrule] at hnumber
            | some own =>
                rw [hrule] at hnumber
                obtain rfl : number = own := List.mem_singleton.mp hnumber
                exact hnew number hrule hold }
  else none

section Find

variable {state after : PolicyRules} {number : ℤ}

theorem mem_of_find {rule : StoredRule} (hrule : state.find number = some rule) :
    rule ∈ state.rules := List.mem_of_find?_eq_some hrule

theorem number_of_find {rule : StoredRule} (hrule : state.find number = some rule) :
    rule.number = some number := by
  simpa using List.find?_some hrule

theorem find_eq_none_iff : state.find number = none ↔ number ∉ numbers state.rules := by
  simp [find, numbers]

/-- Among rules with different numbers, the one under a number is the only one. -/
theorem find?_of_mem {rules : List StoredRule} (hnodup : (numbers rules).Nodup)
    {rule : StoredRule} (hrule : rule ∈ rules) (hnumber : rule.number = some number) :
    rules.find? (·.number = some number) = some rule := by
  induction rules with
  | nil => contradiction
  | cons first rules ih =>
      rw [numbers, List.filterMap_cons] at hnodup
      obtain rfl | hrest := List.mem_cons.mp hrule
      · simp [hnumber]
      · have hmem : number ∈ numbers rules := List.mem_filterMap.mpr ⟨rule, hrest, hnumber⟩
        cases hfirst : first.number with
        | none =>
            rw [hfirst] at hnodup
            rw [List.find?_cons_of_neg (by simp [hfirst])]
            exact ih hnodup hrest
        | some own =>
            rw [hfirst, List.nodup_cons] at hnodup
            have hne : own ≠ number := by
              rintro rfl
              exact hnodup.1 hmem
            rw [List.find?_cons_of_neg (by simpa [hfirst] using hne)]
            exact ih hnodup.2 hrest

theorem find_of_mem {rule : StoredRule} (hrule : rule ∈ state.rules)
    (hnumber : rule.number = some number) : state.find number = some rule :=
  find?_of_mem state.numbers_nodup hrule hnumber

theorem find_update (isMatch : StoredRule → Bool) (change : StoredRule → StoredRule)
    (hchange : ∀ rule, (change rule).number = rule.number) :
    (state.update isMatch change hchange).find number =
      (state.find number).map fun rule => if isMatch rule then change rule else rule := by
  rw [find, update, List.find?_map, find]
  congr 2
  funext rule
  rw [Function.comp_apply]
  split
  · rw [hchange]
  · rfl

theorem find_delete (isMatch : StoredRule → Bool) :
    (state.delete isMatch).find number = (state.find number).filter (!isMatch ·) := by
  cases hfound : state.find number with
  | none =>
      rw [Option.filter_none, find_eq_none_iff, numbers]
      intro hmem
      obtain ⟨rule, hrule, hnumber⟩ := List.mem_filterMap.mp hmem
      rw [find_of_mem (List.mem_of_mem_filter hrule) hnumber] at hfound
      contradiction
  | some rule =>
      rw [Option.filter_some]
      split
      · apply find_of_mem
        · exact List.mem_filter.mpr ⟨mem_of_find hfound, by assumption⟩
        · exact number_of_find hfound
      · rw [find_eq_none_iff, numbers]
        intro hmem
        obtain ⟨other, hother, hnumber⟩ := List.mem_filterMap.mp hmem
        obtain ⟨hother, hkept⟩ := List.mem_filter.mp hother
        rw [find_of_mem hother hnumber] at hfound
        obtain rfl := Option.some.inj hfound
        contradiction

theorem rules_insert {rule : StoredRule} (hafter : state.insert rule = some after) :
    after.rules = state.rules ++ [rule] := by
  rw [insert] at hafter
  split at hafter
  · rw [← Option.some.inj hafter]
  · contradiction

theorem find_insert {rule : StoredRule} {own : ℤ} (hrule : rule.number = some own)
    (hafter : state.insert rule = some after) :
    after.find number = if number = own then some rule else state.find number := by
  split
  · rename_i hnumber
    apply find_of_mem
    · rw [rules_insert hafter]
      exact List.mem_append_right _ (List.mem_singleton_self rule)
    · rw [hrule, hnumber]
  · rename_i hnumber
    rw [find, rules_insert hafter, List.find?_append, List.find?_cons_of_neg, List.find?_nil,
      Option.or_none, find]
    simpa [hrule] using Ne.symm hnumber

theorem insert_of_find_eq_none {rule : StoredRule} (hrule : rule.number = some number)
    (hnone : state.find number = none) : ∃ after, state.insert rule = some after := by
  refine ⟨_, dif_pos ?_⟩
  intro own hown
  rw [hrule] at hown
  obtain rfl := Option.some.inj hown
  exact find_eq_none_iff.mp hnone

end Find

end PolicyRules

end EasyWaf.RuleSets
