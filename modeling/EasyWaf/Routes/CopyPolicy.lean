import EasyWaf.Modules.Judge

/-!
# A policy set up from another

`copy_policy` writes what one policy holds under another, newly created one: rules,
exclusions, listed addresses, published-list choices and countries, table by table.  Of a
rule it names the columns to copy, and the others take their defaults.
-/

namespace EasyWaf.Routes

open EasyWaf.Core EasyWaf.Db EasyWaf.Modules EasyWaf.Modules.Waf

section Copy

/-- How much was copied. -/
structure Copied where
  rules : ℕ
  sets : ℕ
  exclusions : ℕ
  addresses : ℕ
  lists : ℕ
  customExclusions : ℕ
  deriving DecidableEq

/-- A row of `waf_rules` as it is copied. -/
def copiedRule (into id : ℤ) (row : WafRule) : WafRule where
  id := id
  policyId := into
  externalId := row.externalId
  name := row.name
  zone := row.zone
  pattern := row.pattern
  score := row.score
  action := row.action
  enabled := row.enabled
  -- not among the columns the statement lists
  negate := false
  conditions := "[]".toList
  transforms := []

/-- The rows copied, numbered from the next id. -/
def copiedRules (into : ℤ) : (next : ℤ) → List WafRule → List WafRule
  | _, [] => []
  | next, row :: rows => copiedRule into next row :: copiedRules into (next + 1) rows

/-- Only exclusions naming a catalogue rule. -/
def copiedExclusions (source into : ℤ) (rows : List PolicyRuleExclusion) :
    List PolicyRuleExclusion :=
  (rows.filter fun row => row.policyId = source ∧ row.externalId.isSome).map fun row =>
    { row with policyId := into, ruleId := none }

def copiedAddresses (source into : ℤ) (rows : List IpRule) : List IpRule :=
  (rows.filter (·.policyId = some source)).map fun row => { row with policyId := some into }

def copiedLists (source into : ℤ) (rows : List IpListFeed) : List IpListFeed :=
  (rows.filter (·.policyId = some source)).map fun row => { row with policyId := some into }

/-- The countries of another policy. -/
def copiedCountries (policy : Policy) : schema.Assignment .policies where
  columns := ["geoip_mode".toList, "geoip_countries".toList]
  apply row :=
    { row with geoipMode := policy.geoipMode, geoipCountries := policy.geoipCountries }
  only row := by
    show ∀ column ∈ columns .policies, column.name ∉ ["geoip_mode".toList, _] → _
    simp [columns]

/-- `copy_policy`; `named` finds a policy by its name, `heldSets` counts the sets one has
installed, and `next` is the next id of a rule. -/
def copyPolicy (named : Text → Option ℤ) (heldSets : ℤ → ℕ) (next : ℤ) (db : Database)
    (source : Text) (into : ℤ) : Option (Database × Option Copied) :=
  match named source with
  | none => some (db, none)
  | some source => do
      let rules := copiedRules into next
        (orderById (·.id) (db.wafRules.filter (·.policyId = source)))
      let db ← exec db (.insert .wafRules rules)
      -- `policy_rule_sets`
      let db ← exec db .elsewhere
      let exclusions := copiedExclusions source into db.policyRuleExclusions
      let db ← exec db (.insert .policyRuleExclusions exclusions)
      let customExclusions := db.policyRuleExclusions.countP fun row =>
        row.policyId = source ∧ row.ruleId.isSome
      let addresses := copiedAddresses source into db.ipRules
      let db ← exec db (.insert .ipRules addresses)
      let lists := copiedLists source into db.ipListFeeds
      let db ← exec db (.insert .ipListFeeds lists)
      let policy ← db.policies.find? (·.id = source)
      let db ← exec db (.update .policies (copiedCountries policy) fun row =>
        row.id = into ∧ row.geoipMode = "off".toList)
      return (db, some
        { rules := rules.length
          sets := heldSets source
          exclusions := exclusions.length
          addresses := addresses.length
          lists := lists.length
          customExclusions })

end Copy

section Contents

variable {named : Text → Option ℤ} {heldSets : ℤ → ℕ} {next source into : ℤ}
variable {db after : Database} {name : Text} {copied : Copied}

theorem exec_eq_run {statement : Statement} (hexec : exec db statement = some after) :
    Relational.Schema.run depth db statement = after := by
  unfold exec Relational.Schema.exec at hexec
  exact (Option.ite_none_right_eq_some.mp hexec).2 |> Option.some.inj

/-- What the copy leaves in the tables the engine reads. -/
theorem copyPolicy_contents (hnamed : named name = some source)
    (hcopy : copyPolicy named heldSets next db name into = some (after, some copied)) :
    after.wafRules = db.wafRules ++ copiedRules into next
        (orderById (·.id) (db.wafRules.filter (·.policyId = source))) ∧
      after.policyValues = db.policyValues ∧
      after.policyRuleExclusions = db.policyRuleExclusions ++
        copiedExclusions source into db.policyRuleExclusions := by
  unfold copyPolicy at hcopy
  rw [hnamed] at hcopy
  obtain ⟨afterRules, hrules, hcopy⟩ := Option.bind_eq_some_iff.mp hcopy
  obtain ⟨afterSets, hsets, hcopy⟩ := Option.bind_eq_some_iff.mp hcopy
  obtain ⟨afterExclusions, hexclusions, hcopy⟩ := Option.bind_eq_some_iff.mp hcopy
  obtain ⟨afterAddresses, haddresses, hcopy⟩ := Option.bind_eq_some_iff.mp hcopy
  obtain ⟨afterLists, hlists, hcopy⟩ := Option.bind_eq_some_iff.mp hcopy
  obtain ⟨policy, -, hcopy⟩ := Option.bind_eq_some_iff.mp hcopy
  obtain ⟨afterCountries, hcountries, hcopy⟩ := Option.bind_eq_some_iff.mp hcopy
  obtain rfl : afterCountries = after := congrArg Prod.fst (Option.some.inj hcopy)
  obtain rfl := exec_eq_run hcountries
  obtain rfl := exec_eq_run hlists
  obtain rfl := exec_eq_run haddresses
  obtain rfl := exec_eq_run hexclusions
  obtain rfl := exec_eq_run hsets
  obtain rfl := exec_eq_run hrules
  exact ⟨rfl, rfl, rfl⟩

end Contents

section Rows

variable {source into next id : ℤ} {db after : Database}

/-- The row copied to. -/
def CopyOf (into : ℤ) (row copy : WafRule) : Prop := ∃ id, copy = copiedRule into id row

theorem policyId_of_mem_copiedRules {rows : List WafRule} {copy : WafRule}
    (hmem : copy ∈ copiedRules into next rows) : copy.policyId = into := by
  induction rows generalizing next with
  | nil => cases hmem
  | cons row rows ih =>
    rcases List.mem_cons.mp hmem with rfl | hrest
    · rfl
    · exact ih hrest

theorem next_le_of_mem_copiedRules {rows : List WafRule} {copy : WafRule}
    (hmem : copy ∈ copiedRules into next rows) : next ≤ copy.id := by
  induction rows generalizing next with
  | nil => cases hmem
  | cons row rows ih =>
    rcases List.mem_cons.mp hmem with rfl | hrest
    · exact le_rfl
    · exact (Int.le_add_one le_rfl).trans (ih hrest)

theorem pairwise_copiedRules (rows : List WafRule) :
    (copiedRules into next rows).Pairwise fun left right => left.id ≤ right.id := by
  induction rows generalizing next with
  | nil => exact List.Pairwise.nil
  | cons row rows ih =>
    apply List.Pairwise.cons
    · intro copy hcopy
      exact (Int.le_add_one le_rfl).trans (next_le_of_mem_copiedRules hcopy)
    · exact ih

theorem forall₂_copiedRules (rows : List WafRule) :
    List.Forall₂ (CopyOf into) (rows.filter (·.enabled))
      ((copiedRules into next rows).filter (·.enabled)) := by
  induction rows generalizing next with
  | nil => exact .nil
  | cons row rows ih =>
    unfold copiedRules
    by_cases henabled : row.enabled = true
    · rw [List.filter_cons_of_pos henabled,
        List.filter_cons_of_pos (show (copiedRule into next row).enabled = true from henabled)]
      exact .cons ⟨next, rfl⟩ ih
    · rw [List.filter_cons_of_neg henabled,
        List.filter_cons_of_neg (show ¬ (copiedRule into next row).enabled = true from henabled)]
      exact ih

theorem exists_mem_of_forall₂ {Left Right : Type} {related : Left → Right → Prop}
    {lefts : List Left} {rights : List Right} (hrelated : List.Forall₂ related lefts rights)
    {left : Left} (hleft : left ∈ lefts) : ∃ right ∈ rights, related left right := by
  induction hrelated with
  | nil => cases hleft
  | cons hhead _ ih =>
    rcases List.mem_cons.mp hleft with rfl | hrest
    · exact ⟨_, List.mem_cons_self, hhead⟩
    · obtain ⟨right, hright, hfound⟩ := ih hrest
      exact ⟨right, List.mem_cons_of_mem _ hright, hfound⟩

/-- A policy just created holds nothing. -/
structure Fresh (db : Database) (into : ℤ) : Prop where
  rules : ∀ row ∈ db.wafRules, row.policyId ≠ into
  values : ∀ row ∈ db.policyValues, row.policyId ≠ into
  exclusions : ∀ row ∈ db.policyRuleExclusions, row.policyId ≠ into

theorem filter_rules_of_fresh (hfresh : Fresh db into) (p : WafRule → Prop) [DecidablePred p] :
    db.wafRules.filter (fun rule => rule.policyId = into ∧ p rule) = [] := by
  rw [List.filter_eq_nil_iff]
  intro row hrow hown
  exact hfresh.rules row hrow (of_decide_eq_true hown).1

/-- The copy's rules are the copies of those the source has switched on, in order. -/
theorem forall₂_ruleRows (hfresh : Fresh db into)
    (hrules : after.wafRules = db.wafRules ++ copiedRules into next
      (orderById (·.id) (db.wafRules.filter (·.policyId = source)))) :
    List.Forall₂ (CopyOf into) (ruleRows source after) (ruleRows into after) := by
  have hcopy : ruleRows into after = (copiedRules into next
      (orderById (·.id) (db.wafRules.filter (·.policyId = source)))).filter (·.enabled) := by
    unfold ruleRows
    rw [hrules, List.filter_append, filter_rules_of_fresh hfresh, List.nil_append]
    rw [List.filter_congr (q := (·.enabled))]
    · exact List.Pairwise.insertionSort_eq ((pairwise_copiedRules _).filter _)
    · intro copy hcopy
      simp [policyId_of_mem_copiedRules hcopy]
  rw [hcopy]
  by_cases hsame : source = into
  · subst hsame
    have hnone : db.wafRules.filter (fun rule => rule.policyId = source) = [] := by
      rw [List.filter_eq_nil_iff]
      intro row hrow hown
      exact hfresh.rules row hrow (of_decide_eq_true hown)
    rw [hcopy, hnone]
    exact .nil
  · have hsource : ruleRows source after =
        (orderById (·.id) (db.wafRules.filter (·.policyId = source))).filter (·.enabled) := by
      unfold ruleRows
      have hnone : (copiedRules into next
          (orderById (·.id) (db.wafRules.filter (·.policyId = source)))).filter
            (fun rule => rule.policyId = source ∧ rule.enabled) = [] := by
        rw [List.filter_eq_nil_iff]
        intro copy hcopy hown
        exact hsame ((of_decide_eq_true hown).1.symm.trans (policyId_of_mem_copiedRules hcopy))
      rw [hrules, List.filter_append, hnone, List.append_nil, filter_orderById, List.filter_filter]
      congr 2
      funext rule
      rw [Bool.decide_and, Bool.and_comm, Bool.decide_coe]
    rw [hsource]
    exact forall₂_copiedRules _

end Rows

section Readings

/-- Two rules that inspect the same, whatever their rows and names. -/
structure InspectsLike (rule copy : RuleRow) : Prop where
  number : copy.externalId = rule.externalId
  zone : copy.zone = rule.zone
  targets : copy.targets = rule.targets
  pattern : copy.pattern = rule.pattern
  negate : copy.negate = rule.negate
  conditions : copy.conditions = rule.conditions
  chain : copy.chain = rule.chain
  score : copy.score = rule.score
  action : copy.action = rule.action

/-- Rules of one name that inspect the same differ in their rows only. -/
theorem InspectsLike.eq_of_name {rule copy : RuleRow} (halike : InspectsLike rule copy)
    (hname : copy.name = rule.name) : copy = { rule with id := copy.id } := by
  cases rule
  cases copy
  cases halike
  dsimp only at *
  subst_vars
  rfl

variable (libraries : Libraries) (lists : Values.Lists)

/-- A row's pattern with the lists in it, and what it is matched on. -/
def readPattern (lists : Values.Lists) (row : WafRule) (transforms : List Text) :
    Option (List Target) × Text :=
  withValues (runnable libraries row.zone transforms).1 row.pattern lists

/-- A row of which nothing is lost where `other` is copied: it is not negated, has no further
condition and no decoding, and reads under its policy's lists what `other` reads under
the defaults. -/
structure Survives (row other : WafRule) : Prop where
  number : other.externalId = row.externalId
  zone : other.zone = row.zone
  score : other.score = row.score
  action : other.action = row.action
  negate : row.negate = false
  conditions : readConditions libraries row.conditions = some []
  chain : (runnable libraries row.zone (transformsFromColumn row.transforms)).2 = []
  pattern : readPattern libraries lists row (transformsFromColumn row.transforms) =
    readPattern libraries Values.defaults other []

variable {libraries lists}

theorem chain_runnable_nil (zone : Text) : (runnable libraries zone []).2 = [] := by
  unfold runnable
  split <;> rfl

/-- An empty list of conditions is what the column's default reads as. -/
theorem readConditions_default
    (hjson : libraries.conditionsFromJson "[]".toList = some []) :
    readConditions libraries "[]".toList = some [] := by
  rw [readConditions, if_neg (by decide)]
  exact hjson

theorem conditions_eq_nil_iff (row : WafRule) :
    (readRule libraries lists row).conditions = [] ↔
      readConditions libraries row.conditions = some [] := by
  unfold readRule
  dsimp only
  cases readConditions libraries row.conditions with
  | none => exact iff_of_false (List.cons_ne_nil _ _) (by simp)
  | some list => rw [List.map_eq_nil_iff, Option.some_inj]

variable (hjson : libraries.conditionsFromJson "[]".toList = some [])
include hjson

theorem alike_iff_survives {into id : ℤ} {row other : WafRule} :
    InspectsLike (readRule libraries lists row)
        (readRule libraries Values.defaults (copiedRule into id other)) ↔
      Survives libraries lists row other := by
  have hconditions : (readRule libraries Values.defaults (copiedRule into id other)).conditions = [] :=
    (conditions_eq_nil_iff _).mpr (readConditions_default hjson)
  have hchain : (readRule libraries Values.defaults (copiedRule into id other)).chain = [] :=
    chain_runnable_nil other.zone
  constructor
  · intro halike
    refine ⟨halike.number, halike.zone, halike.score, halike.action, halike.negate.symm, ?_, ?_, ?_⟩
    · exact (conditions_eq_nil_iff row).mp (halike.conditions.symm.trans hconditions)
    · exact halike.chain.symm.trans hchain
    · exact Prod.ext halike.targets.symm halike.pattern.symm
  · intro hsurvives
    constructor
    case number => exact hsurvives.number
    case zone => exact hsurvives.zone
    case targets => exact congrArg Prod.fst hsurvives.pattern.symm
    case pattern => exact congrArg Prod.snd hsurvives.pattern.symm
    case negate => exact hsurvives.negate.symm
    case conditions => exact hconditions.trans ((conditions_eq_nil_iff row).mpr hsurvives.conditions).symm
    case chain => exact hchain.trans hsurvives.chain.symm
    case score => exact hsurvives.score
    case action => exact hsurvives.action

/-- A row that survives as itself is read from its copy as it is, under the copy's id. -/
theorem readRule_copied {into id : ℤ} {row : WafRule} (hsurvives : Survives libraries lists row row) :
    readRule libraries Values.defaults (copiedRule into id row) =
      { readRule libraries lists row with id := id } := by
  have halike : InspectsLike (readRule libraries lists row)
      (readRule libraries Values.defaults (copiedRule into id row)) :=
    (alike_iff_survives hjson).mpr hsurvives
  exact halike.eq_of_name rfl

end Readings

section Lists

variable {libraries : Libraries} {source into : ℤ} {db after : Database}

theorem rulesAt_into (hfresh : Fresh db into) (hvalues : after.policyValues = db.policyValues) :
    rulesAt libraries into after =
      (ruleRows into after).map (readRule libraries Values.defaults) := by
  have hnone : valueRows into after = [] := by
    rw [valueRows, hvalues, List.map_eq_nil_iff, List.filter_eq_nil_iff]
    intro row hrow hown
    exact hfresh.values row hrow (of_decide_eq_true hown)
  rw [rulesAt, hnone]
  rfl

/-- The lists of a policy. -/
def listsOf (policyId : ℤ) (db : Database) : Values.Lists := Values.ofRows (valueRows policyId db)

/-- Every rule the source has switched on has one like it in the copy just where each of
its rows survives. -/
theorem alike_rules_iff (hjson : libraries.conditionsFromJson "[]".toList = some [])
    (hfresh : Fresh db into) (hvalues : after.policyValues = db.policyValues)
    (hrows : List.Forall₂ (CopyOf into) (ruleRows source after) (ruleRows into after)) :
    (∀ rule ∈ rulesAt libraries source after, ∃ copy ∈ rulesAt libraries into after,
        InspectsLike rule copy) ↔
      ∀ row ∈ ruleRows source after, ∃ other ∈ ruleRows source after,
        Survives libraries (listsOf source after) row other := by
  rw [rulesAt_into hfresh hvalues, rulesAt, List.forall_mem_map]
  apply forall₂_congr
  intro row _
  constructor
  · rintro ⟨copy, hcopy, halike⟩
    obtain ⟨copyRow, hcopyRow, rfl⟩ := List.mem_map.mp hcopy
    obtain ⟨other, hother, id, rfl⟩ := exists_mem_of_forall₂ hrows.flip hcopyRow
    exact ⟨other, hother, (alike_iff_survives hjson).mp halike⟩
  · rintro ⟨other, hother, hsurvives⟩
    obtain ⟨copyRow, hcopyRow, id, rfl⟩ := exists_mem_of_forall₂ hrows hother
    exact ⟨_, List.mem_map_of_mem hcopyRow, (alike_iff_survives hjson).mpr hsurvives⟩

/-- A rule under another row's id. -/
def Renumbered (rule copy : RuleRow) : Prop := ∃ id, copy = { rule with id := id }

theorem forall₂_rulesAt (hjson : libraries.conditionsFromJson "[]".toList = some [])
    (hfresh : Fresh db into) (hvalues : after.policyValues = db.policyValues)
    (hrows : List.Forall₂ (CopyOf into) (ruleRows source after) (ruleRows into after))
    (hsurvive : ∀ row ∈ ruleRows source after,
      Survives libraries (listsOf source after) row row) :
    List.Forall₂ Renumbered (rulesAt libraries source after) (rulesAt libraries into after) := by
  rw [rulesAt_into hfresh hvalues, rulesAt, List.forall₂_map_left_iff,
    List.forall₂_map_right_iff]
  apply List.Forall₂.imp _ ((List.forall₂_and_left _ _).mpr ⟨hsurvive, hrows⟩)
  rintro row copy ⟨hrow, id, rfl⟩
  exact ⟨id, readRule_copied hjson hrow⟩

/-- An exclusion as it is copied. -/
def byNumber (exclusion : Exclusion) : Exclusion := { exclusion with ruleId := none }

theorem readExclusion_copied (row : PolicyRuleExclusion) :
    readExclusion { row with policyId := into, ruleId := none } =
      (readExclusion row).map byNumber := by
  unfold readExclusion
  obtain ⟨policyId, externalId, ruleId, pathPrefix, _ | _ | ⟨c, raw⟩⟩ := row
  · rfl
  · rfl
  · dsimp only
    rw [Option.map_map]
    rfl

theorem externalId_of_readExclusion {row : PolicyRuleExclusion} {exclusion : Exclusion}
    (hread : readExclusion row = some exclusion) : exclusion.externalId = row.externalId := by
  unfold readExclusion at hread
  obtain ⟨policyId, externalId, ruleId, pathPrefix, _ | _ | ⟨c, raw⟩⟩ := row
  · obtain rfl := Option.some.inj hread
    rfl
  · obtain rfl := Option.some.inj hread
    rfl
  · obtain ⟨block, -, rfl⟩ := Option.map_eq_some_iff.mp hread
    rfl

/-- The exclusions of a site that name a catalogue rule. -/
def catalogued (exclusions : List Exclusion) : List Exclusion :=
  exclusions.filter (·.externalId.isSome)

theorem read_copiedExclusions (rows : List PolicyRuleExclusion) :
    (copiedExclusions source into rows).filterMap readExclusion =
      (catalogued ((rows.filter (·.policyId = source)).filterMap readExclusion)).map
        byNumber := by
  unfold copiedExclusions catalogued
  rw [List.filterMap_map, List.filterMap_filter, List.filterMap_filter, List.filter_filterMap,
    List.map_filterMap]
  congr 1
  funext row
  by_cases hsource : row.policyId = source
  · rw [if_pos (decide_eq_true hsource)]
    cases hread : readExclusion row with
    | none =>
      rw [Function.comp_apply, readExclusion_copied, hread]
      exact ite_self none
    | some exclusion =>
      rw [Function.comp_apply, readExclusion_copied, hread, Option.filter_some,
        externalId_of_readExclusion hread]
      by_cases hnumber : row.externalId.isSome = true
      · rw [if_pos (decide_eq_true ⟨hsource, hnumber⟩), if_pos hnumber]
      · rw [if_neg (mt of_decide_eq_true (not_and_of_not_right _ hnumber)), if_neg hnumber]
        rfl
  · rw [if_neg (mt of_decide_eq_true (not_and_of_not_left _ hsource)),
      if_neg (mt of_decide_eq_true hsource)]
    rfl

/-- The copy's exclusions are those of the source that name a catalogue rule. -/
theorem exclusionsAt_into (hfresh : Fresh db into)
    (hexclusions : after.policyRuleExclusions = db.policyRuleExclusions ++
      copiedExclusions source into db.policyRuleExclusions) :
    exclusionsAt into after = (catalogued (exclusionsAt source after)).map byNumber := by
  have hnone : db.policyRuleExclusions.filter (·.policyId = into) = [] := by
    rw [List.filter_eq_nil_iff]
    intro row hrow hown
    exact hfresh.exclusions row hrow (of_decide_eq_true hown)
  have hown : (copiedExclusions source into db.policyRuleExclusions).filter (·.policyId = into) =
      copiedExclusions source into db.policyRuleExclusions := by
    rw [List.filter_eq_self]
    intro copy hcopy
    obtain ⟨row, -, rfl⟩ := List.mem_map.mp hcopy
    exact decide_eq_true rfl
  have hinto : exclusionRows into after =
      copiedExclusions source into db.policyRuleExclusions := by
    rw [exclusionRows, hexclusions, List.filter_append, hnone, hown, List.nil_append]
  have hsource : (catalogued (exclusionsAt source after)) =
      catalogued ((db.policyRuleExclusions.filter (·.policyId = source)).filterMap
        readExclusion) := by
    by_cases hsame : source = into
    · subst hsame
      have hcopied : copiedExclusions source source db.policyRuleExclusions = [] := by
        rw [copiedExclusions, List.map_eq_nil_iff, List.filter_eq_nil_iff]
        intro row hrow hown
        exact hfresh.exclusions row hrow (of_decide_eq_true hown).1
      rw [exclusionsAt, hinto, hnone, hcopied]
    · have hcopied : (copiedExclusions source into db.policyRuleExclusions).filter
          (·.policyId = source) = [] := by
        rw [List.filter_eq_nil_iff]
        intro copy hcopy hown
        obtain ⟨row, -, rfl⟩ := List.mem_map.mp hcopy
        exact hsame (of_decide_eq_true hown).symm
      rw [exclusionsAt, exclusionRows, hexclusions, List.filter_append, hcopied, List.append_nil]
  rw [exclusionsAt, hinto, hsource, read_copiedExclusions]

end Lists

section Verdicts

variable {m : Type → Type} [Monad m]

/-- What a scan comes to does not depend on the rows of its rules or its policy. -/
theorem scanWith_renumbered (policy : PolicyInfo) (id : ℤ) {applies applies' : RuleRow → Bool}
    {holds : RuleRow → m Bool} {rules copies : List RuleRow}
    (hrules : List.Forall₂ Renumbered rules copies)
    (happlies : ∀ (rule : RuleRow) (id : ℤ), applies' { rule with id := id } = applies rule)
    (hholds : ∀ (rule : RuleRow) (id : ℤ), holds { rule with id := id } = holds rule)
    (found : Scan) :
    scanWith { policy with id := id } applies' holds copies found =
      scanWith policy applies holds rules found := by
  induction hrules generalizing found with
  | nil => rfl
  | cons hhead _ ih =>
    obtain ⟨id, rfl⟩ := hhead
    unfold scanWith
    rw [happlies, hholds]
    simp only [ih]
    rfl

/-- An exclusion by number silences a rule whatever its row. -/
theorem silences_byNumber {exclusion : Exclusion} (hnumber : exclusion.externalId.isSome)
    (rule : RuleRow) (id : ℤ) (path : Text) (client : Net.IpAddr) :
    (byNumber exclusion).silences { rule with id := id } path client =
      exclusion.silences rule path client := by
  obtain ⟨_ | number, ruleId, pathPrefix, block⟩ := exclusion
  · cases hnumber
  · rfl

theorem applies_catalogued (waf : WafModule) (exclusions : List Exclusion)
    (ctx : RequestContext) (rule : RuleRow) (id : ℤ) :
    waf.applies ((catalogued exclusions).map byNumber) ctx { rule with id := id } =
      waf.applies (catalogued exclusions) ctx rule := by
  unfold WafModule.applies
  rw [List.any_map]
  congr 1
  unfold catalogued
  rw [List.any_filter, List.any_filter]
  apply List.any_congr rfl
  intro exclusion
  cases hnumber : exclusion.externalId.isSome
  · rfl
  · rw [Bool.true_and, Bool.true_and]
    exact silences_byNumber hnumber rule id _ _

/-- A snapshot less the exclusions that name a custom rule. -/
def withoutCustom (snapshot : SiteSnapshot) : SiteSnapshot :=
  { snapshot with exclusions := catalogued snapshot.exclusions }

/-- Policies with the same settings, whose rules differ in their rows only, inspect the
same where one's exclusions are those of the other that name a catalogue rule. -/
theorem inspect_renumbered (waf : WafModule) (policy : PolicyInfo) (id : ℤ)
    {rules copies : List RuleRow} (hrules : List.Forall₂ Renumbered rules copies)
    (exclusions : List Exclusion) (ctx : RequestContext) :
    waf.inspect ⟨some { policy with id := id }, copies,
        (catalogued exclusions).map byNumber⟩ ctx =
      waf.inspect (withoutCustom ⟨some policy, rules, exclusions⟩) ctx := by
  have hempty : copies = [] ↔ rules = [] := by
    rw [← List.length_eq_zero_iff, ← hrules.length_eq, List.length_eq_zero_iff]
  unfold WafModule.inspect withoutCustom
  funext patterns
  dsimp only
  simp only [hempty]
  rw [scanWith_renumbered policy id hrules (applies_catalogued waf exclusions ctx)
    (fun _ _ => rfl)]
  rfl

end Verdicts

section Main

variable {libraries : Libraries} {named : Text → Option ℤ} {heldSets : ℤ → ℕ}
variable {next source into : ℤ} {db after : Database} {name : Text} {copied : Copied}

/-- A copy holds a rule like each one the source has switched on just where those
survive being copied; and where each survives as itself, a site under the copy is
inspected as one under the source with the same mode and thresholds, exclusions that name a
custom rule aside. -/
theorem copy_inspects_as_source
    (hjson : libraries.conditionsFromJson "[]".toList = some [])
    (hfresh : Fresh db into) (hnamed : named name = some source)
    (hcopy : copyPolicy named heldSets next db name into = some (after, some copied)) :
    ((∀ rule ∈ rulesAt libraries source after, ∃ copy ∈ rulesAt libraries into after,
        InspectsLike rule copy) ↔
      ∀ row ∈ ruleRows source after, ∃ other ∈ ruleRows source after,
        Survives libraries (listsOf source after) row other) ∧
    ((∀ row ∈ ruleRows source after, Survives libraries (listsOf source after) row row) →
      ∀ (sourceSite copySite : ℤ) (policy : PolicyInfo),
        policyRow sourceSite after = some policy → policy.id = source →
        policyRow copySite after = some { policy with id := into } →
        ∀ (waf : WafModule) (ctx : RequestContext),
          waf.inspect (snapshotAt libraries copySite after) ctx =
            waf.inspect (withoutCustom (snapshotAt libraries sourceSite after)) ctx) := by
  obtain ⟨hrules, hvalues, hexclusions⟩ := copyPolicy_contents hnamed hcopy
  have hrows := forall₂_ruleRows hfresh hrules
  constructor
  · exact alike_rules_iff hjson hfresh hvalues hrows
  · rintro hsurvive sourceSite copySite policy hsource rfl hcopied waf ctx
    rw [snapshotAt, hcopied, snapshotAt, hsource]
    dsimp only
    rw [exclusionsAt_into hfresh hexclusions]
    exact inspect_renumbered waf policy into
      (forall₂_rulesAt hjson hfresh hvalues hrows hsurvive) _ ctx

section Instances

/-- The libraries as they are on plain patterns and an empty list of conditions. -/
def emptyConditions : Libraries :=
  { Libraries.plain with
    conditionsFromJson := fun text => if text = "[]".toList then some [] else none }

/-- A catalogue rule on the method. -/
def methodsRule (negate : Bool) : WafRule where
  id := 1
  policyId := 1
  externalId := some 911100
  name := "method not allowed".toList
  zone := "METHOD".toList
  pattern := "^(?:GET|HEAD)$".toList
  score := 5
  action := "block".toList
  enabled := true
  negate := negate
  conditions := "[]".toList
  transforms := []

/-- A policy that holds it, and one just created. -/
def oneRule (negate : Bool) : Database :=
  (Database.empty.withRows .policies
    [⟨1, "On".toList, 5, 0, "off".toList, [], false⟩,
      ⟨2, "On".toList, 5, 0, "off".toList, [], false⟩]).withRows .wafRules [methodsRule negate]

theorem fresh_oneRule (negate : Bool) : Fresh (oneRule negate) 2 := by
  constructor
  · intro row hrow
    obtain rfl := List.mem_singleton.mp hrow
    exact show (1 : ℤ) ≠ 2 by decide
  · intro row hrow
    cases hrow
  · intro row hrow
    cases hrow

theorem copied_oneRule (negate : Bool) : ∃ after copied,
    copyPolicy (fun _ => some 1) (fun _ => 0) 2 (oneRule negate) [] 2 = some (after, some copied) ∧
      ruleRows 1 after = [methodsRule negate] ∧ valueRows 1 after = [] := by
  have hcopied : (copyPolicy (fun _ => some 1) (fun _ => 0) 2 (oneRule negate) [] 2).any
      (fun result => result.2.isSome ∧ ruleRows 1 result.1 = [methodsRule negate] ∧
        valueRows 1 result.1 = []) = true := by
    cases negate <;> decide +kernel
  obtain ⟨⟨after, result⟩, hresult, hholds⟩ := (Option.any_eq_true _ _).mp hcopied
  obtain ⟨hsome, hrule, hvalues⟩ := of_decide_eq_true hholds
  obtain ⟨copied, rfl⟩ := Option.isSome_iff_exists.mp hsome
  exact ⟨after, copied, hresult, hrule, hvalues⟩

/-- A rule that blocks what its pattern does not match is copied as one that blocks what
it does. -/
theorem negation_lost :
    ∃ after copied, copyPolicy (fun _ => some 1) (fun _ => 0) 2 (oneRule true) [] 2 =
        some (after, some copied) ∧
      ¬ ∀ rule ∈ rulesAt emptyConditions 1 after, ∃ copy ∈ rulesAt emptyConditions 2 after,
        InspectsLike rule copy := by
  obtain ⟨after, copied, hcopy, hrule, -⟩ := copied_oneRule true
  refine ⟨after, copied, hcopy, ?_⟩
  obtain ⟨hrules, hvalues, -⟩ := copyPolicy_contents rfl hcopy
  rw [alike_rules_iff rfl (fresh_oneRule true) hvalues
    (forall₂_ruleRows (fresh_oneRule true) hrules), hrule]
  intro hsurvive
  obtain ⟨other, -, hother⟩ := hsurvive _ List.mem_cons_self
  exact Bool.false_ne_true hother.negate.symm

/-- A rule without negation, further conditions and decodings is copied as it is. -/
theorem plain_rule_copied :
    ∃ after copied, copyPolicy (fun _ => some 1) (fun _ => 0) 2 (oneRule false) [] 2 =
        some (after, some copied) ∧
      ∀ rule ∈ rulesAt emptyConditions 1 after, ∃ copy ∈ rulesAt emptyConditions 2 after,
        InspectsLike rule copy := by
  obtain ⟨after, copied, hcopy, hrule, hvalues⟩ := copied_oneRule false
  refine ⟨after, copied, hcopy, ?_⟩
  rw [(copy_inspects_as_source rfl (fresh_oneRule false) rfl hcopy).1, hrule]
  intro row hrow
  obtain rfl := List.mem_singleton.mp hrow
  refine ⟨_, hrow, rfl, rfl, rfl, rfl, rfl, rfl, rfl, ?_⟩
  rw [listsOf, hvalues]
  rfl

end Instances

end Main

end EasyWaf.Routes
