import EasyWaf.Start.Backfill

/-!
# The sets a start takes over

The backfill asks of every rule of a set that the policy holds it unclaimed with the
pattern, the zone and the action of the file.  What it writes then says more: that
the policy holds the set, with its scores, its negations, its conditions and its
decodings.
-/

namespace EasyWaf.Start

open EasyWaf.RuleSets

/-- A row with the columns a set's rule is installed with, but for its name and
description. -/
structure Same (toJson : List Condition → Text) (rule : RuleFileDef) (row : StoredRule) :
    Prop where
  number : row.number = some rule.id
  zone : row.wording.zone = (rule.wording toJson).zone
  pattern : row.wording.pattern = (rule.wording toJson).pattern
  negate : row.wording.negate = (rule.wording toJson).negate
  conditions : row.wording.conditions = (rule.wording toJson).conditions
  transforms : row.wording.transforms = (rule.wording toJson).transforms
  score : row.wording.score = (rule.wording toJson).score
  action : row.wording.action = (rule.wording toJson).action

/-- Of those, the columns the backfill does not look at. -/
structure Agrees (toJson : List Condition → Text) (rule : RuleFileDef)
    (row : StoredRule) : Prop where
  negate : row.wording.negate = (rule.wording toJson).negate
  conditions : row.wording.conditions = (rule.wording toJson).conditions
  transforms : row.wording.transforms = (rule.wording toJson).transforms
  score : row.wording.score = (rule.wording toJson).score

/-- One file of the backfill, with the policy before it and after it. -/
structure Turn where
  set : SetFile
  before : PolicyRules
  after : PolicyRules

/-- The backfill of one policy, a file at a time. -/
def turns : List SetFile → PolicyRules → List Turn
  | [], _ => []
  | set :: rest, state => ⟨set, state, set.backfill state⟩ :: turns rest (set.backfill state)

/-- `backfill_rule_sets`, for one policy and the files in the order they are read. -/
def backfillRuleSets (files : List SetFile) (state : PolicyRules) : PolicyRules :=
  files.foldl (fun state set => set.backfill state) state

/-- The turn wrote something. -/
def Turn.Writes (turn : Turn) : Prop :=
  turn.after.rules ≠ turn.before.rules ∨ turn.after.held ≠ turn.before.held

/-- What the backfill writes about a policy is true of it. -/
structure Truthful (toJson : List Condition → Text) (files : List SetFile)
    (state : PolicyRules) : Prop where
  /-- A set it takes over is recorded at the version of its file. -/
  version : ∀ turn ∈ turns files state, turn.Writes → turn.before.held turn.set.id = none →
    (turn.after.held turn.set.id).map (·.version) = some turn.set.version
  /-- The policy holds every rule of it. -/
  held : ∀ turn ∈ turns files state, turn.Writes → ∀ rule ∈ turn.set.file.rules,
    ∃ row ∈ (backfillRuleSets files state).rules,
      row.ruleSet = some turn.set.id ∧ Same toJson rule row
  /-- No rule becomes the set's that is not a rule of it. -/
  taken : ∀ turn ∈ turns files state, ∀ number row taken, turn.before.find number = some row →
    turn.after.find number = some taken → taken.ruleSet ≠ row.ruleSet →
      taken.ruleSet = some turn.set.id ∧ ∃ rule ∈ turn.set.file.rules, Same toJson rule row

/-- The sets the backfill takes over: those the policy holds, as far as it looks, and
no rule of which an earlier file has taken. -/
def adopted (state : PolicyRules) : List ℤ → List SetFile → List SetFile
  | _, [] => []
  | taken, set :: rest =>
    if set.Adoptable state ∧ ∀ rule ∈ set.file.rules, rule.id ∉ taken then
      set :: adopted state (taken ++ set.file.rules.map (·.id)) rest
    else
      adopted state taken rest

namespace SetFile

variable {set : SetFile} {state : PolicyRules} {number : ℤ}

/-- A row the set has claimed. -/
def claimed (set : SetFile) (row : StoredRule) : StoredRule :=
  { row with ruleSet := some set.id }

theorem unclaimed_eq (state : PolicyRules) (number : ℤ) :
    unclaimed state number = (state.find number).filter (·.ruleSet = none) := by
  cases hfound : state.find number with
  | none =>
      rw [Option.filter_none, unclaimed, List.find?_eq_none]
      intro row hrow hboth
      have hnumber : row.number = some number := (of_decide_eq_true hboth).1
      rw [PolicyRules.find_of_mem hrow hnumber] at hfound
      contradiction
  | some row =>
      have hnumber := PolicyRules.number_of_find hfound
      have honly : ∀ other ∈ state.rules, other.number = some number → other = row := by
        intro other hother hsame
        rw [PolicyRules.find_of_mem hother hsame] at hfound
        exact Option.some.inj hfound
      rw [Option.filter_some]
      split
      · rename_i hset
        have hsome : (unclaimed state number).isSome := by
          rw [unclaimed, List.find?_isSome]
          exact ⟨row, PolicyRules.mem_of_find hfound,
            decide_eq_true ⟨hnumber, of_decide_eq_true hset⟩⟩
        obtain ⟨other, hother⟩ := Option.isSome_iff_exists.mp hsome
        have hfirst := hother
        rw [unclaimed] at hfirst
        have hboth := List.find?_some hfirst
        rw [decide_eq_true_eq] at hboth
        rw [hother, honly other (List.mem_of_find?_eq_some hfirst) hboth.1]
      · rename_i hset
        rw [unclaimed, List.find?_eq_none]
        intro other hother hboth
        have hcond := of_decide_eq_true hboth
        apply hset
        rw [← honly other hother hcond.1]
        exact decide_eq_true hcond.2

theorem unclaimed_eq_some_iff {row : StoredRule} :
    unclaimed state number = some row ↔ state.find number = some row ∧ row.ruleSet = none := by
  rw [unclaimed_eq, Option.filter_eq_some_iff, decide_eq_true_eq]

/-- The rows under these numbers that no set has claimed are claimed. -/
theorem find_claims (set : SetFile) (rules : List RuleFileDef) (state : PolicyRules) (number : ℤ) :
    (rules.foldl (fun state rule => set.claim state rule.id) state).find number =
      (state.find number).map fun row =>
        if row.ruleSet = none ∧ number ∈ rules.map (·.id) then set.claimed row else row := by
  induction rules generalizing state with
  | nil => simp
  | cons rule rest ih =>
      rw [List.foldl_cons, ih, claim, PolicyRules.find_update, Option.map_map]
      cases hfound : state.find number with
      | none => rfl
      | some row =>
          have hnumber := PolicyRules.number_of_find hfound
          rw [Option.map_some, Option.map_some, Function.comp_apply, hnumber]
          by_cases hset : row.ruleSet = none
          · by_cases hown : number = rule.id
            · rw [hown] at hnumber
              simp [hset, hown, hnumber, claimed]
            · simp [hset, hown]
          · simp [hset]

theorem backfill_of_adoptable (hadoptable : set.Adoptable state) :
    set.backfill state =
      let claims := set.file.rules.foldl (fun state rule => set.claim state rule.id) state
      { claims with
        held := Function.update claims.held set.id
          (some ((claims.held set.id).getD
            { name := set.file.name.getD set.id, version := set.version })) } := by
  obtain ⟨hheld, hfull, hsame⟩ := adoptable_iff.mp hadoptable
  rw [backfill]
  simp only [if_neg hheld, hfull, ne_eq, not_true_eq_false, hsame, Bool.false_eq_true, or_self,
    if_false]

theorem find_backfill (hadoptable : set.Adoptable state) :
    (set.backfill state).find number = (state.find number).map fun row =>
      if row.ruleSet = none ∧ number ∈ set.file.rules.map (·.id) then set.claimed row else row := by
  rw [backfill_of_adoptable hadoptable, ← find_claims]
  rfl

theorem held_claims (set : SetFile) (rules : List RuleFileDef) (state : PolicyRules) :
    (rules.foldl (fun state rule => set.claim state rule.id) state).held = state.held := by
  induction rules generalizing state with
  | nil => rfl
  | cons rule rest ih =>
      rw [List.foldl_cons, ih]
      rfl

theorem held_backfill (hadoptable : set.Adoptable state) :
    (set.backfill state).held set.id = some ((state.held set.id).getD
      { name := set.file.name.getD set.id, version := set.version }) := by
  rw [backfill_of_adoptable hadoptable]
  dsimp only
  rw [Function.update_self, held_claims]

/-- A turn writes exactly where the set is taken over. -/
theorem writes_iff : Turn.Writes ⟨set, state, set.backfill state⟩ ↔ set.Adoptable state := by
  constructor
  · intro hwrites
    by_contra hnot
    rw [backfill_of_not_adoptable hnot] at hwrites
    exact hwrites.elim (· rfl) (· rfl)
  · intro hadoptable
    apply Or.inl
    intro hsame
    have hless := pending_backfill_lt hadoptable
    rw [pending, pending] at hless
    change (set.backfill state).rules = state.rules at hsame
    rw [hsame] at hless
    exact lt_irrefl _ hless

/-- A row a set has claimed stays as it is. -/
theorem find_backfill_of_claimed {row : StoredRule} (hfound : state.find number = some row)
    (hclaimed : row.ruleSet ≠ none) : (set.backfill state).find number = some row := by
  by_cases hadoptable : set.Adoptable state
  · rw [find_backfill hadoptable, hfound, Option.map_some, if_neg fun hboth => hclaimed hboth.1]
  · rw [backfill_of_not_adoptable hadoptable, hfound]

/-- A row that is unclaimed after a turn was unclaimed before it. -/
theorem unclaimed_of_backfill {row : StoredRule}
    (hrow : unclaimed (set.backfill state) number = some row) :
    unclaimed state number = some row := by
  by_cases hadoptable : set.Adoptable state
  · rw [unclaimed_eq_some_iff, find_backfill hadoptable] at hrow
    obtain ⟨hfound, hset⟩ := hrow
    obtain ⟨before, hbefore, hafter⟩ := Option.map_eq_some_iff.mp hfound
    rw [unclaimed_eq_some_iff, hbefore]
    split at hafter
    · rw [← hafter] at hset
      contradiction
    · rw [hafter]
      exact ⟨rfl, hset⟩
  · rwa [backfill_of_not_adoptable hadoptable] at hrow

end SetFile

open SetFile

section Runs

variable {files : List SetFile} {state : PolicyRules} {number : ℤ}

theorem find_backfillRuleSets_of_claimed {row : StoredRule} (files : List SetFile)
    (hfound : state.find number = some row) (hclaimed : row.ruleSet ≠ none) :
    (backfillRuleSets files state).find number = some row := by
  induction files generalizing state with
  | nil => exact hfound
  | cons set rest ih => exact ih (find_backfill_of_claimed hfound hclaimed)

theorem unclaimed_of_backfillRuleSets {row : StoredRule} (files : List SetFile)
    (hrow : unclaimed (backfillRuleSets files state) number = some row) :
    unclaimed state number = some row := by
  induction files generalizing state with
  | nil => exact hrow
  | cons set rest ih => exact unclaimed_of_backfill (ih hrow)

/-- Every turn is the backfill of its set, after some files and before the rest. -/
theorem exists_of_mem_turns {turn : Turn} (hturn : turn ∈ turns files state) :
    ∃ earlier rest, turn.before = backfillRuleSets earlier state ∧
      turn.after = turn.set.backfill turn.before ∧
        backfillRuleSets files state = backfillRuleSets rest turn.after := by
  induction files generalizing state with
  | nil => contradiction
  | cons set rest ih =>
      rw [turns] at hturn
      cases List.mem_cons.mp hturn with
      | inl hfirst =>
          rw [hfirst]
          exact ⟨[], rest, rfl, rfl, rfl⟩
      | inr hlater =>
          obtain ⟨earlier, last, hbefore, hafter, hrest⟩ := ih hlater
          exact ⟨set :: earlier, last, hbefore, hafter, hrest⟩

/-- What the files read so far have left of the policy: the rows of other numbers,
and no unclaimed row under the numbers they took. -/
structure Through (state : PolicyRules) (taken : List ℤ) (now : PolicyRules) : Prop where
  left : ∀ number, number ∉ taken → now.find number = state.find number
  claimed : ∀ number ∈ taken, unclaimed now number = none

theorem Through.adoptable_iff {taken : List ℤ} {now : PolicyRules}
    (hthrough : Through state taken now) (set : SetFile) :
    set.Adoptable now ↔ set.Adoptable state ∧ ∀ rule ∈ set.file.rules, rule.id ∉ taken := by
  have hleft : ∀ number, number ∉ taken → unclaimed now number = unclaimed state number := by
    intro number hnumber
    rw [unclaimed_eq, unclaimed_eq, hthrough.left number hnumber]
  constructor
  · intro hadoptable
    have hfree : ∀ rule ∈ set.file.rules, rule.id ∉ taken := by
      intro rule hrule htaken
      obtain ⟨row, hrow, -⟩ := hadoptable.2 rule hrule
      rw [hthrough.claimed rule.id htaken] at hrow
      contradiction
    apply And.intro
    · apply And.intro hadoptable.1
      intro rule hrule
      rw [← hleft rule.id (hfree rule hrule)]
      exact hadoptable.2 rule hrule
    · exact hfree
  · intro hboth
    apply And.intro hboth.1.1
    intro rule hrule
    rw [hleft rule.id (hboth.2 rule hrule)]
    exact hboth.1.2 rule hrule

theorem Through.backfill {taken : List ℤ} {now : PolicyRules} {set : SetFile}
    (hthrough : Through state taken now) (hadoptable : set.Adoptable now) :
    Through state (taken ++ set.file.rules.map (·.id)) (set.backfill now) where
  left number hnumber := by
    rw [List.mem_append, not_or] at hnumber
    rw [find_backfill hadoptable, ← hthrough.left number hnumber.1]
    cases now.find number with
    | none => rfl
    | some row => rw [Option.map_some, if_neg fun hboth => hnumber.2 hboth.2]
  claimed number hnumber := by
    rw [Option.eq_none_iff_forall_ne_some]
    intro row hrow
    cases List.mem_append.mp hnumber with
    | inl htaken =>
        have hnow := unclaimed_of_backfill hrow
        rw [hthrough.claimed number htaken] at hnow
        contradiction
    | inr hown =>
        rw [unclaimed_eq_some_iff, find_backfill hadoptable] at hrow
        obtain ⟨before, -, hafter⟩ := Option.map_eq_some_iff.mp hrow.1
        by_cases hset : before.ruleSet = none
        · rw [if_pos ⟨hset, hown⟩] at hafter
          rw [← hafter] at hrow
          exact absurd hrow.2 (Option.some_ne_none _)
        · rw [if_neg fun hboth => hset hboth.1] at hafter
          rw [hafter] at hset
          exact hset hrow.2

/-- The sets taken over, read off the policy as it was before the first file. -/
theorem mem_adopted_iff {set : SetFile} (files : List SetFile) {taken : List ℤ} {now : PolicyRules}
    (hthrough : Through state taken now) : set ∈ adopted state taken files ↔
      ∃ turn ∈ turns files now, turn.set = set ∧ turn.Writes := by
  induction files generalizing taken now with
  | nil => simp [adopted, turns]
  | cons first rest ih =>
      rw [adopted, turns, List.exists_mem_cons_iff, writes_iff]
      by_cases hadoptable : first.Adoptable now
      · rw [if_pos ((hthrough.adoptable_iff first).mp hadoptable), List.mem_cons,
          ih (hthrough.backfill hadoptable)]
        simp only [hadoptable, and_true, eq_comm]
      · rw [if_neg fun hboth => hadoptable ((hthrough.adoptable_iff first).mpr hboth), ih hthrough,
          backfill_of_not_adoptable hadoptable]
        simp only [hadoptable, and_false, false_or]

end Runs

theorem same_of_agrees {toJson : List Condition → Text} {rule : RuleFileDef}
    {row : StoredRule} (hnumber : row.number = some rule.id)
    (hdiffers : SetFile.differs rule row = false) (hagrees : Agrees toJson rule row) :
    Same toJson rule row := by
  simp only [SetFile.differs, Bool.or_eq_false_iff, decide_eq_false_iff_not, not_not] at hdiffers
  exact {
    number := hnumber
    zone := hdiffers.1.2
    pattern := hdiffers.1.1
    negate := hagrees.negate
    conditions := hagrees.conditions
    transforms := hagrees.transforms
    score := hagrees.score
    action := hdiffers.2 }

section Truth

variable {toJson : List Condition → Text} {files : List SetFile} {state : PolicyRules}

theorem Through.start (state : PolicyRules) : Through state [] state where
  left _ _ := rfl
  claimed _ hnumber := absurd hnumber List.not_mem_nil

/-- A turn that writes has found every rule of its set unclaimed, and leaves it the
set's, to the end. -/
theorem claimed_of_writes {turn : Turn} (hturn : turn ∈ turns files state) (hwrites : turn.Writes)
    {rule : RuleFileDef} (hrule : rule ∈ turn.set.file.rules) : ∃ row,
      unclaimed turn.before rule.id = some row ∧ unclaimed state rule.id = some row ∧
        SetFile.differs rule row = false ∧
          (backfillRuleSets files state).find rule.id = some (turn.set.claimed row) := by
  obtain ⟨earlier, rest, hbefore, hafter, hrest⟩ := exists_of_mem_turns hturn
  have hadoptable : turn.set.Adoptable turn.before := by
    rw [← writes_iff, ← hafter]
    exact hwrites
  obtain ⟨row, hrow, hdiffers⟩ := hadoptable.2 rule hrule
  have hfirst : unclaimed state rule.id = some row := by
    rw [hbefore] at hrow
    exact unclaimed_of_backfillRuleSets earlier hrow
  have hclaimed : turn.after.find rule.id = some (turn.set.claimed row) := by
    obtain ⟨hfound, hnone⟩ := unclaimed_eq_some_iff.mp hrow
    rw [hafter, find_backfill hadoptable, hfound, Option.map_some,
      if_pos ⟨hnone, List.mem_map_of_mem hrule⟩]
  have hlast : (backfillRuleSets files state).find rule.id = some (turn.set.claimed row) := by
    rw [hrest]
    exact find_backfillRuleSets_of_claimed rest hclaimed (Option.some_ne_none _)
  exact ⟨row, hrow, hfirst, hdiffers, hlast⟩

/-- A row that changes its set in a turn was unclaimed and is under a number of that
turn's set. -/
theorem writes_of_taken {turn : Turn} (hturn : turn ∈ turns files state) {number : ℤ}
    {row taken : StoredRule} (hrow : turn.before.find number = some row)
    (htaken : turn.after.find number = some taken) (hne : taken.ruleSet ≠ row.ruleSet) :
    turn.Writes ∧ taken.ruleSet = some turn.set.id ∧ unclaimed turn.before number = some row ∧
      ∃ rule ∈ turn.set.file.rules, rule.id = number := by
  obtain ⟨-, -, -, hafter, -⟩ := exists_of_mem_turns hturn
  have hadoptable : turn.set.Adoptable turn.before := by
    by_contra hnot
    rw [hafter, backfill_of_not_adoptable hnot, hrow] at htaken
    exact hne (congrArg StoredRule.ruleSet (Option.some.inj htaken).symm)
  have hwrites : turn.Writes := by
    have hiff := writes_iff.mpr hadoptable
    rw [← hafter] at hiff
    exact hiff
  rw [hafter, find_backfill hadoptable, hrow, Option.map_some] at htaken
  split at htaken
  · rename_i hboth
    obtain ⟨rule, hrule, hnumber⟩ := List.mem_map.mp hboth.2
    rw [← Option.some.inj htaken]
    exact ⟨hwrites, rfl, unclaimed_eq_some_iff.mpr ⟨hrow, hboth.1⟩, rule, hrule, hnumber⟩
  · exact absurd (congrArg StoredRule.ruleSet (Option.some.inj htaken).symm) hne

theorem agrees_of_truthful (htruthful : Truthful toJson files state) {set : SetFile}
    (hset : set ∈ adopted state [] files) {rule : RuleFileDef} (hrule : rule ∈ set.file.rules)
    {row : StoredRule} (hrow : unclaimed state rule.id = some row) : Agrees toJson rule row := by
  obtain ⟨turn, hturn, rfl, hwrites⟩ := (mem_adopted_iff files (Through.start state)).mp hset
  obtain ⟨own, -, hfirst, -, hlast⟩ := claimed_of_writes hturn hwrites hrule
  obtain rfl : own = row := Option.some.inj (hfirst.symm.trans hrow)
  obtain ⟨final, hfinal, -, hsame⟩ := htruthful.held turn hturn hwrites rule hrule
  have hfound := PolicyRules.find_of_mem hfinal hsame.number
  rw [hlast] at hfound
  rw [← Option.some.inj hfound] at hsame
  exact { hsame with }

theorem same_of_writes
    (hagree : ∀ set ∈ adopted state [] files, ∀ rule ∈ set.file.rules, ∀ row,
      unclaimed state rule.id = some row → Agrees toJson rule row)
    {turn : Turn} (hturn : turn ∈ turns files state) (hwrites : turn.Writes) {rule : RuleFileDef}
    (hrule : rule ∈ turn.set.file.rules) {row : StoredRule}
    (hrow : unclaimed turn.before rule.id = some row) : Same toJson rule row := by
  obtain ⟨own, hown, hfirst, hdiffers, -⟩ := claimed_of_writes hturn hwrites hrule
  obtain rfl : own = row := Option.some.inj (hown.symm.trans hrow)
  have hset : turn.set ∈ adopted state [] files :=
    (mem_adopted_iff files (Through.start state)).mpr ⟨turn, hturn, rfl, hwrites⟩
  exact same_of_agrees (PolicyRules.number_of_find (unclaimed_eq_some_iff.mp hrow).1) hdiffers
    (hagree turn.set hset rule hrule own hfirst)

theorem truthful_of_agrees (hagree : ∀ set ∈ adopted state [] files, ∀ rule ∈ set.file.rules,
    ∀ row, unclaimed state rule.id = some row → Agrees toJson rule row) :
    Truthful toJson files state where
  version turn hturn hwrites hnone := by
    obtain ⟨-, -, -, hafter, -⟩ := exists_of_mem_turns hturn
    have hadoptable : turn.set.Adoptable turn.before := by
      rw [← writes_iff, ← hafter]
      exact hwrites
    rw [hafter, held_backfill hadoptable, hnone]
    rfl
  held turn hturn hwrites rule hrule := by
    obtain ⟨row, hrow, -, -, hlast⟩ := claimed_of_writes hturn hwrites hrule
    have hsame := same_of_writes hagree hturn hwrites hrule hrow
    exact ⟨turn.set.claimed row, PolicyRules.mem_of_find hlast, rfl, { hsame with }⟩
  taken turn hturn number row taken hrow htaken hne := by
    obtain ⟨hwrites, hset, hunclaimed, rule, hrule, rfl⟩ := writes_of_taken hturn hrow htaken hne
    exact ⟨hset, rule, hrule, same_of_writes hagree hturn hwrites hrule hunclaimed⟩

variable (toJson files state)

/-- What the backfill writes about a policy is true of it exactly where the rules of
the sets it takes over also have the score, the negation, the conditions and the
decodings of the files. -/
theorem backfill_truthful_iff : Truthful toJson files state ↔
    ∀ set ∈ adopted state [] files, ∀ rule ∈ set.file.rules, ∀ row,
      unclaimed state rule.id = some row → Agrees toJson rule row := by
  constructor
  · intro htruthful set hset rule hrule row hrow
    exact agrees_of_truthful htruthful hset hrule hrow
  · exact truthful_of_agrees

end Truth

section TurnedDown

/-- The first rule of `913-scanners.rules.toml`. -/
def sqlmapRule : RuleFileDef where
  id := 913001
  name := "Scanner: sqlmap".toList
  description := some "sqlmap automated SQL injection tool".toList
  zone := "HEADERS".toList
  pattern := "(?i)sqlmap".toList
  score := 9
  action := "score".toList
  negate := false
  transforms := []
  conditions := []

def scannersFile : SetFile where
  id := "owasp-scanners".toList
  version := 4
  file := { name := none, rules := [sqlmapRule] }

/-- The rule as an operator turned it down, when imported rules could be edited. -/
def turnedDown : StoredRule where
  number := some 913001
  ruleSet := none
  enabled := true
  wording := { sqlmapRule.wording fun _ => [] with score := 1 }
  imported := none
  clonedFrom := none

def turnedDownRules : PolicyRules where
  rules := [turnedDown]
  held _ := none
  previous _ := none
  numbers_nodup := List.nodup_singleton 913001

/-- A rule whose score an operator has changed is taken over. -/
theorem turned_down_is_taken_over :
    ¬ ∀ (toJson : List Condition → Text) (files : List SetFile) (state : PolicyRules),
      Truthful toJson files state := by
  intro hevery
  have htruthful := hevery (fun _ => []) [scannersFile] turnedDownRules
  have hset : scannersFile ∈ adopted turnedDownRules [] [scannersFile] := by
    rw [adopted, if_pos (by decide +kernel)]
    exact List.mem_cons_self
  have hrow : unclaimed turnedDownRules sqlmapRule.id = some turnedDown := by decide +kernel
  have hagrees := agrees_of_truthful htruthful hset (List.mem_singleton_self sqlmapRule) hrow
  exact absurd hagrees.score (by decide)

end TurnedDown

end EasyWaf.Start
