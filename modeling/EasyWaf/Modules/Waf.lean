import EasyWaf.Core.Plan
import EasyWaf.Db.Queries
import EasyWaf.Forwarded
import EasyWaf.Modules.Targets
import EasyWaf.Modules.Transforms

/-!
# A site's policy, rules and exclusions

What `WafModule::snapshot` reads for one site: the policy, then the policy's
rules, the lists they name and the exclusions, each in a query of its own.
-/

namespace EasyWaf.Modules.Waf

open EasyWaf.Core EasyWaf.Db Forwarded

/-- A policy's settings, as the cached site snapshot holds them. -/
structure PolicyInfo where
  id : ℤ
  ruleEngine : Text
  scoreThreshold : ℤ
  challengeThreshold : ℤ
  deriving DecidableEq

/-- A rule's further condition, its zone parsed as the rule's is. -/
structure RuleCondition where
  targets : Option (List Target)
  pattern : Text
  negate : Bool
  chain : List Transform
  deriving DecidableEq

/-- A rule; `targets` is `none` for one this version never runs. -/
structure RuleRow where
  id : ℤ
  externalId : Option ℤ
  name : Text
  zone : Text
  targets : Option (List Target)
  pattern : Text
  negate : Bool
  chain : List Transform
  conditions : List RuleCondition
  score : ℤ
  action : Text
  deriving DecidableEq

/-- A rule a site does not apply, and where and for whom it does not. -/
structure Exclusion where
  externalId : Option ℤ
  ruleId : Option ℤ
  pathPrefix : Text
  /-- `none` is every client. -/
  client : Option Cidr
  deriving DecidableEq

structure SiteSnapshot where
  policy : Option PolicyInfo
  rules : List RuleRow
  exclusions : List Exclusion
  deriving DecidableEq

section Queries

def policyRow (siteId : ℤ) (db : Database) : Option PolicyInfo :=
  (policyOfSite db siteId).map fun policy =>
    { id := policy.id
      ruleEngine := policy.ruleEngine
      scoreThreshold := policy.scoreThreshold
      challengeThreshold := policy.challengeThreshold }

def ruleRows (policyId : ℤ) (db : Database) : List WafRule :=
  orderById (·.id) (db.wafRules.filter fun rule => rule.policyId = policyId ∧ rule.enabled)

def valueRows (policyId : ℤ) (db : Database) : List (Text × Text) :=
  (db.policyValues.filter (·.policyId = policyId)).map fun row => (row.name, row.value)

def exclusionRows (policyId : ℤ) (db : Database) : List PolicyRuleExclusion :=
  db.policyRuleExclusions.filter (·.policyId = policyId)

end Queries

variable (libraries : Libraries)

/-- A condition's zone and decodings as the engine runs them.  A zone or a
decoding this version does not know leaves no targets. -/
def runnable (zone : Text) (transforms : List Text) : Option (List Target) × List Transform :=
  match parseZone libraries zone with
  | none => (none, [])
  | some targets =>
      match parseList transforms with
      | .ok chain => (some targets, chain)
      | .error _ => (none, [])

/-- A pattern with the policy's lists in it. -/
def withValues (targets : Option (List Target)) (pattern : Text) (values : Values.Lists) :
    Option (List Target) × Text :=
  match Values.substitute pattern values with
  | .ok pattern => (targets, pattern)
  | .error _ => (none, pattern)

/-- A further condition with its zone and pattern read. -/
def readCondition (values : Values.Lists) (condition : Condition) : RuleCondition :=
  let (targets, chain) := runnable libraries condition.zone condition.transforms
  let (targets, pattern) := withValues targets condition.pattern values
  { targets, pattern, negate := condition.negate, chain }

/-- A stored rule with its zone, pattern and conditions read. -/
def readRule (values : Values.Lists) (row : WafRule) : RuleRow :=
  let (targets, chain) := runnable libraries row.zone (transformsFromColumn row.transforms)
  let (targets, pattern) := withValues targets row.pattern values
  { id := row.id
    externalId := row.externalId
    name := row.name
    zone := row.zone
    targets
    pattern
    negate := row.negate
    chain
    conditions := match readConditions libraries row.conditions with
      | some list => list.map (readCondition libraries values)
      -- one that never holds, so the rule does not run on its first alone
      | none => [{ targets := none, pattern := [], negate := false, chain := [] }]
    score := row.score
    action := row.action }

/-- A stored exclusion; one whose client block cannot be parsed is dropped
rather than widened to every client. -/
def readExclusion (row : PolicyRuleExclusion) : Option Exclusion :=
  let exclusion (client : Option Cidr) : Exclusion :=
    { externalId := row.externalId, ruleId := row.ruleId, pathPrefix := row.pathPrefix, client }
  match row.clientCidr with
  | none | some [] => some (exclusion none)
  | some raw => (Cidr.parse raw).map fun block => exclusion (some block)

section Loaders

variable {World : Type} (db : World → Database)

/-- `get_site_policy`. -/
def getSitePolicy (siteId : ℤ) : Load World (Option PolicyInfo) :=
  Load.readOr (fun world => policyRow siteId (db world)) none

/-- `values::of_policy`. -/
def ofPolicy (policyId : ℤ) : Load World Values.Lists := do
  let rows ← Load.readOr (fun world => valueRows policyId (db world)) []
  return Values.ofRows rows

def getRules (policyId : ℤ) : Load World (List RuleRow) := do
  let rows ← Load.readOr (fun world => ruleRows policyId (db world)) []
  let values ← ofPolicy db policyId
  return rows.map (readRule libraries values)

def getExclusions (policyId : ℤ) : Load World (List Exclusion) := do
  let rows ← Load.readOr (fun world => exclusionRows policyId (db world)) []
  return rows.filterMap readExclusion

/-- What `snapshot` reads on a miss.  A site without a policy has no rules and
no exclusions to read. -/
def loadSnapshot (siteId : ℤ) : Load World SiteSnapshot := do
  match ← getSitePolicy db siteId with
  | none => return { policy := none, rules := [], exclusions := [] }
  | some policy =>
      let rules ← getRules libraries db policy.id
      let exclusions ← getExclusions db policy.id
      return { policy := some policy, rules, exclusions }

end Loaders

section Contents

/-- The rules a policy has in `db`, with the policy's lists in them. -/
def rulesAt (policyId : ℤ) (db : Database) : List RuleRow :=
  (ruleRows policyId db).map (readRule libraries (Values.ofRows (valueRows policyId db)))

def exclusionsAt (policyId : ℤ) (db : Database) : List Exclusion :=
  (exclusionRows policyId db).filterMap readExclusion

/-- Everything one database holds about a site. -/
def snapshotAt (siteId : ℤ) (db : Database) : SiteSnapshot :=
  match policyRow siteId db with
  | none => { policy := none, rules := [], exclusions := [] }
  | some policy =>
      { policy := some policy
        rules := rulesAt libraries policy.id db
        exclusions := exclusionsAt policy.id db }

/-- Read at one moment, a snapshot is what the database holds there. -/
@[simp]
theorem runAt_loadSnapshot {World : Type} (db : World → Database) (siteId : ℤ) (world : World) :
    (loadSnapshot libraries db siteId).runAt world =
      some (snapshotAt libraries siteId (db world)) := by
  simp only [loadSnapshot, getSitePolicy, Load.runAt_bind, Load.runAt_readOr, Option.bind_some,
    snapshotAt]
  cases policyRow siteId (db world) with
  | none => rfl
  | some policy =>
      simp [getRules, ofPolicy, getExclusions, rulesAt, exclusionsAt]

variable {World : Type} (db : World → Database)

/-- A snapshot's three parts: the policy, the rules with their lists, the
exclusions. -/
def snapshotParts (siteId : ℤ) : Plan World SiteSnapshot :=
  .part (getSitePolicy db siteId) fun
    | none => .done { policy := none, rules := [], exclusions := [] }
    | some policy =>
        .part (getRules libraries db policy.id) fun rules =>
        .part (getExclusions db policy.id) fun exclusions =>
        .done { policy := some policy, rules, exclusions }

theorem load_snapshotParts (siteId : ℤ) :
    (snapshotParts libraries db siteId).load = loadSnapshot libraries db siteId := by
  refine congrArg (Load.bind (getSitePolicy db siteId)) (funext fun policy => ?_)
  cases policy <;> rfl

/-- A snapshot each part of which is what some live database held. -/
def HeldInParts (Live : World → Prop) (siteId : ℤ) (snapshot : SiteSnapshot) : Prop :=
  (∃ world, Live world ∧ snapshot.policy = policyRow siteId (db world)) ∧
    match snapshot.policy with
    | none => snapshot.rules = [] ∧ snapshot.exclusions = []
    | some policy =>
        (∃ world, Live world ∧ snapshot.rules = rulesAt libraries policy.id (db world)) ∧
          ∃ world, Live world ∧ snapshot.exclusions = exclusionsAt policy.id (db world)

theorem answers_snapshotParts {Live : World → Prop} {siteId : ℤ} {snapshot : SiteSnapshot}
    (hanswers : (snapshotParts libraries db siteId).Answers Live snapshot) :
    HeldInParts libraries db Live siteId snapshot := by
  obtain ⟨world, policy, hlive, hpolicy, hrest⟩ := hanswers
  have hrow : policyRow siteId (db world) = policy := Option.some.inj hpolicy
  cases policy with
  | none =>
      obtain rfl : snapshot = _ := hrest
      exact ⟨⟨world, hlive, hrow.symm⟩, rfl, rfl⟩
  | some policy =>
      obtain ⟨atRules, rules, hlive', hrules, atExclusions, exclusions, hlive'', hexclusions,
        rfl⟩ := hrest
      refine ⟨⟨world, hlive, hrow.symm⟩, ⟨atRules, hlive', ?_⟩, atExclusions, hlive'', ?_⟩
      · simpa [getRules, ofPolicy, rulesAt, eq_comm] using hrules
      · simpa [getExclusions, exclusionsAt, eq_comm] using hexclusions

end Contents

end EasyWaf.Modules.Waf
