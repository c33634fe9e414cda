import EasyWaf.Modules.Paths
import EasyWaf.Modules.Verdict
import EasyWaf.Modules.Waf

/-!
# How the rules judge a request

The rules a policy applies run in order.  One that blocks decides at once; the
others add to a score or ask for a challenge, and the thresholds decide.
-/

namespace EasyWaf.Modules.Waf

open Http Net

/-- Does this exclusion silence `rule` on `path` for `client`?  A catalogue rule
is matched by its number and not by its row. -/
def Exclusion.silences (exclusion : Exclusion) (rule : RuleRow) (path : Text) (client : IpAddr) :
    Bool :=
  let sameRule : Bool := match exclusion.externalId, exclusion.ruleId with
    | some number, _ => rule.externalId = some number
    | none, some id => rule.id = id
    | none, none => false
  sameRule && Paths.underPrefix path exclusion.pathPrefix &&
    match exclusion.client with
    | some block => block.contains client
    | none => true

/-- How strongly a policy's rules object. -/
inductive Level
  | challenge
  | block
  deriving DecidableEq

namespace Level

def rank : Level → ℕ
  | challenge => 0
  | block => 1

theorem rank_injective : Function.Injective rank := by
  intro left right hrank
  cases left <;> cases right <;> first | rfl | contradiction

instance : LinearOrder Level := LinearOrder.lift' rank rank_injective

instance : OrderTop Level where
  top := block
  le_top level := by cases level <;> decide

end Level

namespace PolicyInfo

/-- A decision under the policy's mode: in DetectionOnly nothing is enforced. -/
def decide (policy : PolicyInfo) (level : Level) (reason : Text) (findings : Findings) :
    ModuleDecision :=
  let findings := { findings with offence := level = .block }
  if policy.ruleEngine = "DetectionOnly".toList then
    .alert reason { findings with
      detection := match level with
        | .block => Detection.wouldBlock
        | .challenge => Detection.wouldChallenge }
  else
    match level with
    | .challenge => .challenge reason findings
    | .block => .drop reason 403 findings

end PolicyInfo

/-- What the rules evaluated so far have come to. -/
structure Scan where
  totalScore : ℤ
  challengeReason : Option Text
  hits : List RuleHit

def Scan.start : Scan where
  totalScore := 0
  challengeReason := none
  hits := []

/-- A rule that matched, as the traffic record shows it. -/
def hitOf (policy : PolicyInfo) (rule : RuleRow) : RuleHit where
  id := rule.externalId
  name := rule.name
  score := if rule.action = "block".toList then policy.scoreThreshold else rule.score

variable (policy : PolicyInfo)

/-- Evaluate each rule that applies and holds, in order; a block rule stops with
its reason and what matched. -/
def scan (applies holds : RuleRow → Bool) : List RuleRow → Scan → Except (Text × Findings) Scan
  | [], found => .ok found
  | rule :: rules, found =>
      if !applies rule then scan applies holds rules found
      else if !holds rule then scan applies holds rules found
      else
        let hits := found.hits ++ [hitOf policy rule]
        if rule.action = "block".toList then
          .error ("WAF block rule matched: ".toList ++ rule.name,
            { score := policy.scoreThreshold, hits, detection := ⊥, offence := false })
        else if rule.action = "challenge".toList then
          scan applies holds rules { found with
            hits
            challengeReason := some (found.challengeReason.getD
              ("WAF challenge rule matched: ".toList ++ rule.name)) }
        else scan applies holds rules { found with hits, totalScore := found.totalScore + rule.score }

/-- The thresholds, applied to what matched.  Block takes precedence over
challenge. -/
def applyThresholds (found : Scan) : ModuleDecision :=
  let score := Text.formatInt found.totalScore
  let findings : Findings :=
    { score := found.totalScore, hits := found.hits, detection := ⊥, offence := false }
  if policy.scoreThreshold ≤ found.totalScore then
    policy.decide .block ("WAF score ".toList ++ score ++ " ≥ block threshold ".toList ++
      Text.formatInt policy.scoreThreshold) findings
  else
    match found.challengeReason with
    | some reason => policy.decide .challenge reason findings
    | none =>
        if 0 < policy.challengeThreshold ∧ policy.challengeThreshold ≤ found.totalScore then
          policy.decide .challenge ("WAF score ".toList ++ score ++
            " ≥ challenge threshold ".toList ++ Text.formatInt policy.challengeThreshold) findings
        else if found.hits ≠ [] then
          .alert ("WAF score ".toList ++ score ++ " below block threshold ".toList ++
            Text.formatInt policy.scoreThreshold)
            { findings with detection := Detection.observed }
        else .pass

/-- A request as the rules are asked about it: the path the backend will be sent,
the client, and which rules hold on what is inspected. -/
structure Inspected where
  path : Text
  client : IpAddr
  holds : RuleRow → Bool

/-- No exclusion of the site silences the rule here. -/
def SiteSnapshot.applies (snapshot : SiteSnapshot) (request : Inspected) (rule : RuleRow) : Bool :=
  !snapshot.exclusions.any fun exclusion => exclusion.silences rule request.path request.client

/-- `WafModule::inspect`, on a site's snapshot. -/
def inspect (snapshot : SiteSnapshot) (request : Inspected) : ModuleDecision :=
  match snapshot.policy with
  | none => .pass
  | some policy =>
      if policy.ruleEngine = "Off".toList then .pass
      else if snapshot.rules = [] then .pass
      else
        match scan policy (snapshot.applies request) request.holds snapshot.rules Scan.start with
        | .error (reason, findings) => policy.decide .block reason findings
        | .ok found => applyThresholds policy found

end EasyWaf.Modules.Waf
