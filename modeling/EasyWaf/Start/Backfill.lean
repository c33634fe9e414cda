import EasyWaf.RuleSets.Tables

/-!
# What every start does to the rules

Two migrations correct patterns that shipped wrong, by their text; the backfill
claims a set's rules where a policy holds all of them unchanged; and a set a policy
holds no rule of is forgotten.
-/

namespace EasyWaf.Start

open EasyWaf.RuleSets

section Patterns

@[irreducible]
def chainingPattern : Text :=
  "[;|\x60]\\s*(ls|cat|id|whoami|uname|wget|curl|bash|sh|python|perl|nc|netcat)".toList

@[irreducible]
def chainingCorrected : Text :=
  "[;|\x60]\\s*(ls|cat|id|whoami|uname|wget|curl|bash|sh|python|perl|nc|netcat)\\b".toList

@[irreducible]
def escapesPattern : Text := "(%[0-9a-fA-F]\x7b2\x7d)\x7b2,\x7d|%25[0-9a-fA-F]\x7b2\x7d".toList

@[irreducible]
def escapesCorrected : Text := "(?i)%25[0-9a-fA-F]\x7b2\x7d|%%[0-9a-fA-F]\x7b2\x7d".toList

@[irreducible]
def probingPattern : Text :=
  "(?i)/(admin|wp-admin|phpmyadmin|manager|console|actuator|\\.env|\\.git|phpinfo\\.php|server-status|web\\.config)".toList

@[irreducible]
def probingCorrected : Text :=
  "(?i)(^/(admin|wp-admin|phpmyadmin|manager|console|actuator)(/|\\?|$)|/(\\.env|\\.git(/|$)|phpinfo\\.php|server-status|web\\.config))".toList

theorem chainingCorrected_ne : chainingCorrected ≠ chainingPattern ∧
    chainingCorrected ≠ escapesPattern ∧ chainingCorrected ≠ probingPattern := by
  unfold chainingCorrected chainingPattern escapesPattern probingPattern
  exact ⟨Text.toList_ne (by decide +kernel), Text.toList_ne (by decide +kernel),
    Text.toList_ne (by decide +kernel)⟩

theorem escapesCorrected_ne : escapesCorrected ≠ chainingPattern ∧
    escapesCorrected ≠ escapesPattern ∧ escapesCorrected ≠ probingPattern := by
  unfold escapesCorrected chainingPattern escapesPattern probingPattern
  exact ⟨Text.toList_ne (by decide +kernel), Text.toList_ne (by decide +kernel),
    Text.toList_ne (by decide +kernel)⟩

theorem probingCorrected_ne : probingCorrected ≠ probingPattern := by
  unfold probingCorrected probingPattern
  exact Text.toList_ne (by decide +kernel)

theorem chainingPattern_ne : chainingPattern ≠ escapesPattern ∧ chainingPattern ≠ probingPattern ∧
    escapesPattern ≠ probingPattern := by
  unfold chainingPattern escapesPattern probingPattern
  exact ⟨Text.toList_ne (by decide +kernel), Text.toList_ne (by decide +kernel),
    Text.toList_ne (by decide +kernel)⟩

end Patterns

/-- A rule with another pattern. -/
def withPattern (pattern : Text) (rule : StoredRule) : StoredRule :=
  { rule with wording := { rule.wording with pattern } }

/-- `UPDATE waf_rules SET pattern = corrected WHERE ... AND pattern = shipped`. -/
def correct (isMatch : StoredRule → Bool) (shipped corrected : Text) (state : PolicyRules) :
    PolicyRules :=
  state.update (fun rule => isMatch rule && rule.wording.pattern = shipped) (withPattern corrected)
    fun _ => rfl

/-- `012_rule_false_positives.sql`, by number and pattern. -/
def migration012 (state : PolicyRules) : PolicyRules :=
  correct (fun rule => rule.number = some 920002) escapesPattern escapesCorrected
    (correct (fun rule => rule.number = some 932012) chainingPattern chainingCorrected state)

/-- `014_rule_false_positives_by_pattern.sql`, by pattern alone. -/
def migration014 (state : PolicyRules) : PolicyRules :=
  correct (fun _ => true) probingPattern probingCorrected
    (correct (fun _ => true) chainingPattern chainingCorrected state)

/-- A set's file on disk, as far as its rules are read. -/
structure SetFile where
  id : Text
  version : ℤ
  file : RuleFile

namespace SetFile

variable (set : SetFile) (state : PolicyRules)

/-- The policy's rule under this number that no set has claimed. -/
def unclaimed (number : ℤ) : Option StoredRule :=
  state.rules.find? fun rule => rule.number = some number ∧ rule.ruleSet = none

/-- The policy's row is not what the file says. -/
def differs (rule : RuleFileDef) (row : StoredRule) : Bool :=
  row.wording.pattern ≠ rule.pattern || row.wording.zone ≠ rule.zone ||
    row.wording.action ≠ rule.action

/-- The policy holds all of the set, unchanged and not yet claimed. -/
def Adoptable : Prop :=
  set.file.rules ≠ [] ∧ ∀ rule ∈ set.file.rules,
    ∃ row, unclaimed state rule.id = some row ∧ differs rule row = false

instance decidableAdoptable : Decidable (set.Adoptable state) :=
  decidable_of_iff (set.file.rules ≠ [] ∧ ∀ rule ∈ set.file.rules,
      (unclaimed state rule.id).any (!differs rule ·) = true) <| by
    simp [Adoptable, Option.any_eq_true]

/-- `UPDATE waf_rules SET rule_set`, of the rule under this number. -/
def claim (number : ℤ) : PolicyRules :=
  state.update (fun rule => rule.number = some number && rule.ruleSet = none)
    (fun rule => { rule with ruleSet := some set.id }) fun _ => rfl

/-- The rules of the set the policy holds unclaimed, each with its row. -/
def heldRows : List (RuleFileDef × StoredRule) :=
  set.file.rules.filterMap fun rule => (unclaimed state rule.id).map fun row => (rule, row)

/-- One set of the backfill, for one policy. -/
def backfill : PolicyRules :=
  let held := set.heldRows state
  if held = [] then state
  else if held.length ≠ set.file.rules.length ∨ held.any (fun found => differs found.1 found.2) then
    state
  else
    let claimed := set.file.rules.foldl (fun state rule => set.claim state rule.id) state
    { claimed with
      held := Function.update claimed.held set.id
        (some ((claimed.held set.id).getD
          { name := set.file.name.getD set.id, version := set.version })) }

end SetFile

/-- `034_drop_empty_set_holdings.sql`. -/
def migration034 (state : PolicyRules) : PolicyRules :=
  let held set := (state.held set).filter fun _ => state.rules.any (·.ruleSet = some set)
  { state with
    held
    previous := fun set => (state.previous set).filter fun _ => (held set).isSome }

/-- A policy's rules after a start that found these files. -/
def startRules (files : List SetFile) (state : PolicyRules) : PolicyRules :=
  migration034 (files.foldl (fun state set => set.backfill state)
    (migration014 (migration012 state)))

theorem policyRules_eq {before after : PolicyRules} (hrules : after.rules = before.rules)
    (hheld : after.held = before.held) (hprevious : after.previous = before.previous) :
    after = before := by
  cases before
  cases after
  cases hrules
  cases hheld
  cases hprevious
  rfl

section Corrected

/-- One correction of one rule. -/
def correctRule (isMatch : StoredRule → Bool) (shipped corrected : Text) (rule : StoredRule) :
    StoredRule :=
  if isMatch rule && rule.wording.pattern = shipped then withPattern corrected rule else rule

/-- A rule after both migrations. -/
def correctedRule : StoredRule → StoredRule :=
  correctRule (fun _ => true) probingPattern probingCorrected ∘
    correctRule (fun _ => true) chainingPattern chainingCorrected ∘
      correctRule (fun rule => rule.number = some 920002) escapesPattern escapesCorrected ∘
        correctRule (fun rule => rule.number = some 932012) chainingPattern chainingCorrected

theorem rules_corrected (state : PolicyRules) :
    (migration014 (migration012 state)).rules = state.rules.map correctedRule := by
  rw [correctedRule, ← List.map_map, ← List.map_map, ← List.map_map]
  rfl

theorem ruleSet_correctedRule (rule : StoredRule) :
    (correctedRule rule).ruleSet = rule.ruleSet := by
  have hone (isMatch : StoredRule → Bool) (shipped corrected : Text) (rule : StoredRule) :
      (correctRule isMatch shipped corrected rule).ruleSet = rule.ruleSet := by
    rw [correctRule]
    split <;> rfl
  simp only [correctedRule, Function.comp_apply, hone]

section Patterns

variable {isMatch : StoredRule → Bool} {shipped corrected : Text} {rule : StoredRule}

theorem correctRule_of_match (hmatch : isMatch rule = true)
    (hpattern : rule.wording.pattern = shipped) :
    correctRule isMatch shipped corrected rule = withPattern corrected rule := by
  rw [correctRule, if_pos]
  rw [Bool.and_eq_true, decide_eq_true_eq]
  exact ⟨hmatch, hpattern⟩

theorem correctRule_of_ne (hleft : isMatch rule = true → rule.wording.pattern ≠ shipped) :
    correctRule isMatch shipped corrected rule = rule := by
  rw [correctRule, if_neg]
  rw [Bool.and_eq_true, decide_eq_true_eq]
  exact fun hboth => hleft hboth.1 hboth.2

end Patterns

/-- A rule whose pattern the migrations have nothing to say about. -/
structure Left (rule : StoredRule) : Prop where
  chaining : rule.wording.pattern ≠ chainingPattern
  probing : rule.wording.pattern ≠ probingPattern
  escapes : rule.number = some 920002 → rule.wording.pattern ≠ escapesPattern

theorem correctedRule_of_left {rule : StoredRule} (hleft : Left rule) : correctedRule rule = rule := by
  have hfirst : correctRule (fun rule => rule.number = some 932012) chainingPattern
      chainingCorrected rule = rule := correctRule_of_ne fun _ => hleft.chaining
  have hsecond : correctRule (fun rule => rule.number = some 920002) escapesPattern
      escapesCorrected rule = rule :=
    correctRule_of_ne fun hnumber => hleft.escapes (of_decide_eq_true hnumber)
  have hthird : correctRule (fun _ => true) chainingPattern chainingCorrected rule = rule :=
    correctRule_of_ne fun _ => hleft.chaining
  have hfourth : correctRule (fun _ => true) probingPattern probingCorrected rule = rule :=
    correctRule_of_ne fun _ => hleft.probing
  simp only [correctedRule, Function.comp_apply, hfirst, hsecond, hthird, hfourth]

theorem correctedRule_chaining {rule : StoredRule}
    (hpattern : rule.wording.pattern = chainingPattern) :
    correctedRule rule = withPattern chainingCorrected rule := by
  have hescapes : correctRule (fun rule => rule.number = some 920002) escapesPattern
      escapesCorrected (withPattern chainingCorrected rule) = withPattern chainingCorrected rule :=
    correctRule_of_ne fun _ => chainingCorrected_ne.2.1
  have hagain : correctRule (fun _ => true) chainingPattern chainingCorrected
      (withPattern chainingCorrected rule) = withPattern chainingCorrected rule :=
    correctRule_of_ne fun _ => chainingCorrected_ne.1
  have hlast : correctRule (fun _ => true) probingPattern probingCorrected
      (withPattern chainingCorrected rule) = withPattern chainingCorrected rule :=
    correctRule_of_ne fun _ => chainingCorrected_ne.2.2
  by_cases hnumber : rule.number = some 932012
  · have hfirst : correctRule (fun rule => rule.number = some 932012) chainingPattern
        chainingCorrected rule = withPattern chainingCorrected rule :=
      correctRule_of_match (decide_eq_true hnumber) hpattern
    simp only [correctedRule, Function.comp_apply, hfirst, hescapes, hagain, hlast]
  · have hfirst : correctRule (fun rule => rule.number = some 932012) chainingPattern
        chainingCorrected rule = rule :=
      correctRule_of_ne fun hmatch => absurd (of_decide_eq_true hmatch) hnumber
    have hsecond : correctRule (fun rule => rule.number = some 920002) escapesPattern
        escapesCorrected rule = rule :=
      correctRule_of_ne fun _ => hpattern ▸ chainingPattern_ne.1
    have hthird : correctRule (fun _ => true) chainingPattern chainingCorrected rule =
        withPattern chainingCorrected rule := correctRule_of_match rfl hpattern
    simp only [correctedRule, Function.comp_apply, hfirst, hsecond, hthird, hlast]

theorem correctedRule_probing {rule : StoredRule}
    (hpattern : rule.wording.pattern = probingPattern) :
    correctedRule rule = withPattern probingCorrected rule := by
  have hchaining : rule.wording.pattern ≠ chainingPattern :=
    fun hsame => chainingPattern_ne.2.1 (hsame ▸ hpattern)
  have hfirst : correctRule (fun rule => rule.number = some 932012) chainingPattern
      chainingCorrected rule = rule := correctRule_of_ne fun _ => hchaining
  have hsecond : correctRule (fun rule => rule.number = some 920002) escapesPattern
      escapesCorrected rule = rule :=
    correctRule_of_ne fun _ hsame => chainingPattern_ne.2.2 (hsame ▸ hpattern)
  have hthird : correctRule (fun _ => true) chainingPattern chainingCorrected rule = rule :=
    correctRule_of_ne fun _ => hchaining
  have hfourth : correctRule (fun _ => true) probingPattern probingCorrected rule =
      withPattern probingCorrected rule := correctRule_of_match rfl hpattern
  simp only [correctedRule, Function.comp_apply, hfirst, hsecond, hthird, hfourth]

theorem correctedRule_escapes {rule : StoredRule} (hnumber : rule.number = some 920002)
    (hpattern : rule.wording.pattern = escapesPattern) :
    correctedRule rule = withPattern escapesCorrected rule := by
  have hfirst : correctRule (fun rule => rule.number = some 932012) chainingPattern
      chainingCorrected rule = rule :=
    correctRule_of_ne fun _ hsame => chainingPattern_ne.1 (hsame ▸ hpattern)
  have hsecond : correctRule (fun rule => rule.number = some 920002) escapesPattern
      escapesCorrected rule = withPattern escapesCorrected rule :=
    correctRule_of_match (decide_eq_true hnumber) hpattern
  have hthird : correctRule (fun _ => true) chainingPattern chainingCorrected
      (withPattern escapesCorrected rule) = withPattern escapesCorrected rule :=
    correctRule_of_ne fun _ => escapesCorrected_ne.1
  have hfourth : correctRule (fun _ => true) probingPattern probingCorrected
      (withPattern escapesCorrected rule) = withPattern escapesCorrected rule :=
    correctRule_of_ne fun _ => escapesCorrected_ne.2.2
  simp only [correctedRule, Function.comp_apply, hfirst, hsecond, hthird, hfourth]

theorem withPattern_ne {pattern : Text} {rule : StoredRule} (hne : pattern ≠ rule.wording.pattern) :
    withPattern pattern rule ≠ rule :=
  fun hsame => hne (congrArg (fun rule => rule.wording.pattern) hsame)

/-- A rule is changed unless its pattern is none of those that shipped wrong. -/
theorem correctedRule_eq_self_iff (rule : StoredRule) : correctedRule rule = rule ↔ Left rule := by
  constructor
  · intro hsame
    exact {
      chaining := fun hpattern => by
        rw [correctedRule_chaining hpattern] at hsame
        exact withPattern_ne (hpattern ▸ chainingCorrected_ne.1) hsame
      probing := fun hpattern => by
        rw [correctedRule_probing hpattern] at hsame
        exact withPattern_ne (hpattern ▸ probingCorrected_ne) hsame
      escapes := fun hnumber hpattern => by
        rw [correctedRule_escapes hnumber hpattern] at hsame
        exact withPattern_ne (hpattern ▸ escapesCorrected_ne.2.1) hsame }
  · exact correctedRule_of_left

end Corrected

namespace SetFile

section Adoption

variable {set : SetFile} {state : PolicyRules}

theorem adoptable_iff : set.Adoptable state ↔ set.heldRows state ≠ [] ∧
    (set.heldRows state).length = set.file.rules.length ∧
      (set.heldRows state).any (fun found => differs found.1 found.2) = false := by
  have hlength : (set.heldRows state).length = set.file.rules.length ↔
      ∀ rule ∈ set.file.rules, (unclaimed state rule.id).isSome := by
    rw [heldRows, List.filterMap_length_eq_length]
    simp only [Option.isSome_map]
  have hany : (set.heldRows state).any (fun found => differs found.1 found.2) = false ↔
      ∀ rule ∈ set.file.rules, ∀ row, unclaimed state rule.id = some row →
        differs rule row = false := by
    rw [List.any_eq_false, heldRows]
    constructor
    · intro hnone rule hrule row hrow
      have hmem := hnone (rule, row) (List.mem_filterMap.mpr ⟨rule, hrule, by rw [hrow]; rfl⟩)
      exact Bool.eq_false_iff.mpr hmem
    · intro hsame found hfound
      obtain ⟨rule, hrule, hmap⟩ := List.mem_filterMap.mp hfound
      obtain ⟨row, hrow, rfl⟩ := Option.map_eq_some_iff.mp hmap
      exact Bool.eq_false_iff.mp (hsame rule hrule row hrow)
  rw [hany]
  constructor
  · rintro ⟨hrules, hall⟩
    have hfull : (set.heldRows state).length = set.file.rules.length := by
      rw [hlength]
      intro rule hrule
      obtain ⟨row, hrow, -⟩ := hall rule hrule
      rw [hrow]
      rfl
    constructor
    · intro hnil
      rw [hnil] at hfull
      exact hrules (List.length_eq_zero_iff.mp hfull.symm)
    · constructor
      · exact hfull
      · intro rule hrule row hrow
        obtain ⟨own, hown, hsame⟩ := hall rule hrule
        obtain rfl := Option.some.inj (hrow.symm.trans hown)
        exact hsame
  · rintro ⟨hheld, hfull, hsame⟩
    constructor
    · intro hnil
      rw [hnil] at hfull
      exact hheld (List.length_eq_zero_iff.mp hfull)
    · intro rule hrule
      obtain ⟨row, hrow⟩ := Option.isSome_iff_exists.mp (hlength.mp hfull rule hrule)
      exact ⟨row, hrow, hsame rule hrule row hrow⟩

theorem backfill_of_not_adoptable (hnot : ¬ set.Adoptable state) : set.backfill state = state := by
  rw [adoptable_iff, not_and_or, not_and_or, not_not, Bool.not_eq_false] at hnot
  rw [backfill]
  dsimp only
  by_cases hheld : set.heldRows state = []
  · exact if_pos hheld
  · exact (if_neg hheld).trans (if_pos (hnot.resolve_left hheld))

end Adoption

end SetFile

section Pending

/-- How many rules no set has claimed. -/
def pending (state : PolicyRules) : ℕ := state.rules.countP fun rule => rule.ruleSet = none

variable {set : SetFile} {state : PolicyRules} {number : ℤ}

theorem pending_claim : pending state =
    pending (set.claim state number) +
      state.rules.countP fun rule => rule.number = some number && rule.ruleSet = none := by
  rw [pending, pending, SetFile.claim, PolicyRules.update, List.countP_map]
  induction state.rules with
  | nil => rfl
  | cons rule rest ih =>
      rw [List.countP_cons, List.countP_cons, List.countP_cons, ih, Function.comp_apply]
      by_cases hnumber : rule.number = some number
      · cases hset : rule.ruleSet with
        | none =>
            simp [hnumber]
            omega
        | some own => simp [hset]
      · simp [hnumber]
        omega

theorem pending_claim_le : pending (set.claim state number) ≤ pending state := by
  exact Nat.le.intro pending_claim.symm

theorem pending_claims_le (rules : List RuleFileDef) (state : PolicyRules) :
    pending (rules.foldl (fun state rule => set.claim state rule.id) state) ≤ pending state := by
  induction rules generalizing state with
  | nil => exact le_rfl
  | cons rule rest ih => exact (ih _).trans pending_claim_le

theorem pending_backfill_le (set : SetFile) (state : PolicyRules) :
    pending (set.backfill state) ≤ pending state := by
  rw [SetFile.backfill]
  dsimp only
  split
  · exact le_rfl
  · split
    · exact le_rfl
    · exact pending_claims_le set.file.rules state

/-- What is adopted is claimed. -/
theorem pending_backfill_lt (hadoptable : set.Adoptable state) :
    pending (set.backfill state) < pending state := by
  obtain ⟨hheld, hfull, hsame⟩ := SetFile.adoptable_iff.mp hadoptable
  have hadopted : pending (set.backfill state) =
      pending (set.file.rules.foldl (fun state rule => set.claim state rule.id) state) := by
    rw [SetFile.backfill]
    simp only [if_neg hheld, hfull, ne_eq, not_true_eq_false, hsame, Bool.false_eq_true, or_self,
      if_false]
    rfl
  rw [hadopted]
  obtain ⟨hrules, hall⟩ := hadoptable
  cases hcons : set.file.rules with
  | nil => exact absurd hcons hrules
  | cons rule rest =>
      obtain ⟨row, hrow, -⟩ := hall rule (hcons ▸ List.mem_cons_self)
      have hmem := List.mem_of_find?_eq_some hrow
      have hcond := List.find?_some hrow
      have hpositive : 0 < state.rules.countP fun row =>
          row.number = some rule.id && row.ruleSet = none := by
        apply List.countP_pos_iff.mpr
        exact ⟨row, hmem, by simpa using hcond⟩
      calc pending ((rule :: rest).foldl (fun state rule => set.claim state rule.id) state)
          ≤ pending (set.claim state rule.id) := pending_claims_le rest _
        _ < pending state := by
            have hclaim : pending state = pending (set.claim state rule.id) + _ := pending_claim
            omega

theorem pending_foldl_le (files : List SetFile) (state : PolicyRules) :
    pending (files.foldl (fun state set => set.backfill state) state) ≤ pending state := by
  induction files generalizing state with
  | nil => exact le_rfl
  | cons set rest ih => exact (ih _).trans (pending_backfill_le set state)

/-- The backfill claims something or does nothing. -/
theorem backfill_cases (files : List SetFile) (state : PolicyRules) :
    (files.foldl (fun state set => set.backfill state) state = state ∧
        ∀ set ∈ files, ¬ set.Adoptable state) ∨
      pending (files.foldl (fun state set => set.backfill state) state) < pending state ∧
        ∃ set ∈ files, set.Adoptable state := by
  induction files with
  | nil => exact Or.inl ⟨rfl, List.forall_mem_nil _⟩
  | cons set rest ih =>
      rw [List.foldl_cons, List.forall_mem_cons, List.exists_mem_cons_iff]
      by_cases hadoptable : set.Adoptable state
      · exact Or.inr ⟨(pending_foldl_le rest _).trans_lt (pending_backfill_lt hadoptable),
          Or.inl hadoptable⟩
      · rw [SetFile.backfill_of_not_adoptable hadoptable]
        rcases ih with ⟨hsame, hnone⟩ | ⟨hless, hsome⟩
        · exact Or.inl ⟨hsame, hadoptable, hnone⟩
        · exact Or.inr ⟨hless, Or.inr hsome⟩

end Pending

section Settled

variable (files : List SetFile) (state : PolicyRules)

/-- What a start leaves a policy's rules and holdings as they are under. -/
structure Settled : Prop where
  patterns : ∀ rule ∈ state.rules, Left rule
  sets : ∀ set ∈ files, ¬ set.Adoptable state
  holdings : ∀ set, (state.held set).isSome → ∃ rule ∈ state.rules, rule.ruleSet = some set

theorem held_corrected : (migration014 (migration012 state)).held = state.held := rfl

theorem pending_corrected : pending (migration014 (migration012 state)) = pending state := by
  rw [pending, rules_corrected, List.countP_map, pending]
  congr
  funext rule
  rw [Function.comp_apply, ruleSet_correctedRule]

theorem corrected_eq_self (hpatterns : ∀ rule ∈ state.rules, Left rule) :
    migration014 (migration012 state) = state := by
  apply policyRules_eq
  · rw [rules_corrected]
    have hmap : state.rules.map correctedRule = state.rules.map id :=
      List.map_congr_left fun rule hrule => correctedRule_of_left (hpatterns rule hrule)
    rw [hmap, List.map_id]
  · rfl
  · rfl

variable {state}

theorem held_migration034_eq_iff : (migration034 state).held = state.held ↔
    ∀ set, (state.held set).isSome → ∃ rule ∈ state.rules, rule.ruleSet = some set := by
  rw [funext_iff]
  apply forall_congr'
  intro set
  change (state.held set).filter _ = state.held set ↔ _
  cases state.held set with
  | none => simp
  | some holding => simp [Option.filter_some]

variable (state)

/-- A start leaves a policy's rules and holdings as they are exactly where they are
settled. -/
theorem startRules_unchanged_iff :
    (startRules files state).rules = state.rules ∧ (startRules files state).held = state.held ↔
      Settled files state := by
  constructor
  · rintro ⟨hrules, hheld⟩
    have hpending : pending (files.foldl (fun state set => set.backfill state)
        (migration014 (migration012 state))) = pending state := by
      rw [pending, pending, ← hrules]
      rfl
    rcases backfill_cases files (migration014 (migration012 state)) with
      ⟨hsame, hnone⟩ | ⟨hless, -⟩
    · rw [startRules, hsame] at hrules hheld
      have hpatterns : ∀ rule ∈ state.rules, Left rule := by
        intro rule hrule
        have hmap : state.rules.map correctedRule = state.rules.map id := by
          rw [← rules_corrected, List.map_id]
          exact hrules
        exact (correctedRule_eq_self_iff rule).mp (List.map_inj_left.mp hmap rule hrule)
      rw [corrected_eq_self state hpatterns] at hnone hheld
      exact { patterns := hpatterns, sets := hnone, holdings := held_migration034_eq_iff.mp hheld }
    · rw [hpending, pending_corrected] at hless
      exact absurd hless (lt_irrefl _)
  · intro hsettled
    have hsame : startRules files state = migration034 state := by
      rw [startRules, corrected_eq_self state hsettled.patterns]
      rcases backfill_cases files state with ⟨hsame, -⟩ | ⟨-, set, hset, hadoptable⟩
      · rw [hsame]
      · exact absurd hadoptable (hsettled.sets set hset)
    rw [hsame]
    exact ⟨rfl, held_migration034_eq_iff.mpr hsettled.holdings⟩

end Settled

end EasyWaf.Start
