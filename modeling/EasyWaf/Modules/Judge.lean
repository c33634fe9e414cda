import EasyWaf.Modules.Inflate
import EasyWaf.Modules.Inspect
import EasyWaf.Modules.SharedParts

/-!
# Judging a request as it arrives

The rules of a policy in order, each asked of the request through what the module
keeps: the patterns compiled since it was made, and the parts of this request.
-/

namespace EasyWaf.Modules.Waf

open EasyWaf.Core Http Paths

/-- The compiled patterns; `none` marks one that does not compile. -/
abbrev Patterns := List (Text × Option (Text → Bool))

structure Caches where
  patterns : Patterns
  parts : Parts

def patternsMemo : Memo Caches Text (Option (Text → Bool)) where
  entries := Caches.patterns
  push entry caches := { caches with patterns := caches.patterns ++ [entry] }

/-- What only the parts of the request are needed for. -/
def onParts {α : Type} (action : StateM Parts α) : StateM Caches α := fun caches =>
  let (value, parts) := action.run caches.parts
  (value, { caches with parts })

/-- A rule's conditions, its own zone and pattern first. -/
def RuleRow.allConditions (rule : RuleRow) : List RuleCondition :=
  { targets := rule.targets
    pattern := rule.pattern
    negate := rule.negate
    chain := rule.chain } :: rule.conditions

section Holds

variable (source : Source) (whole : Whole)

def compiledPattern (pattern : Text) : StateM Caches (Option (Text → Bool)) :=
  patternsMemo.lookupOrMake pattern (return source.engine.regex pattern)

/-- Every condition's pattern, up to the first condition that cannot be run. -/
def compileAll : List RuleCondition → StateM Caches (Option (List CompiledCondition))
  | [] => return some []
  | condition :: rest => do
      let compiled ← compiledPattern source condition.pattern
      match condition.targets, compiled with
      | some targets, some isMatch =>
          let others ← compileAll rest
          return others.map
            ({ targets, isMatch, negate := condition.negate, chain := condition.chain } :: ·)
      | _, _ => return none

/-- `WafModule::holds`. -/
def holds (rule : RuleRow) : StateM Caches Bool := do
  match ← compileAll source rule.allConditions with
  | none => return false
  | some conditions => onParts (source.allHold whole conditions)

end Holds

/-- A sum of 64 bits, wrapping. -/
def wrapped (n : ℤ) : ℤ := n.bmod (2 ^ 64)

section Scan

variable {m : Type → Type} [Monad m]

/-- Evaluate each rule in order; a block rule stops with its reason and what
matched. -/
def scanWith (policy : PolicyInfo) (applies : RuleRow → Bool) (holds : RuleRow → m Bool) :
    List RuleRow → Scan → m (Except (Text × Findings) Scan)
  | [], found => return .ok found
  | rule :: rules, found =>
      if !applies rule then scanWith policy applies holds rules found
      else do
        let held ← holds rule
        if !held then scanWith policy applies holds rules found
        else
          let hits := found.hits ++ [hitOf policy rule]
          if rule.action = "block".toList then
            return .error ("WAF block rule matched: ".toList ++ rule.name,
              { score := policy.scoreThreshold, hits, detection := ⊥, offence := false })
          else if rule.action = "challenge".toList then
            scanWith policy applies holds rules { found with
              hits
              challengeReason := some (found.challengeReason.getD
                ("WAF challenge rule matched: ".toList ++ rule.name)) }
          else
            scanWith policy applies holds rules
              { found with hits, totalScore := wrapped (found.totalScore + rule.score) }

end Scan

/-- What the rules come to, under the policy's thresholds and mode. -/
def conclude (policy : PolicyInfo) : Except (Text × Findings) Scan → ModuleDecision
  | .error (reason, findings) => policy.decide .block reason findings
  | .ok found => applyThresholds policy found

/-- The libraries a request is read with, and the limit on a body inflated. -/
structure WafModule where
  engine : Engine
  url : Url
  decoders : Decoders
  inflateLimit : ℕ

namespace WafModule

/-- A request's headers, under their names. -/
def headerMap (ctx : RequestContext) : HeaderMap where
  getAll name := (ctx.headers.filter fun header => header.1 = name).map Prod.snd

variable (waf : WafModule)

/-- What a request is read from: its body as it inflates. -/
def sourceOf (ctx : RequestContext) : Source where
  engine := waf.engine
  url := waf.url
  ctx := ctx
  body := plainBody waf.decoders waf.inflateLimit (headerMap ctx) ctx.body

/-- A rule asked of the request, through the caches. -/
def asks (ctx : RequestContext) (rule : RuleRow) : StateM Caches Bool :=
  holds (waf.sourceOf ctx) (Whole.of (waf.sourceOf ctx)) rule

/-- No exclusion of the site silences the rule here. -/
def applies (exclusions : List Exclusion) (ctx : RequestContext) (rule : RuleRow) : Bool :=
  !exclusions.any fun exclusion =>
    exclusion.silences rule (pathAsForwarded waf.url ctx.path) ctx.clientIp

/-- `WafModule::inspect`, on a site's snapshot; the patterns compiled are kept for
the requests after. -/
def inspect (snapshot : SiteSnapshot) (ctx : RequestContext) : StateM Patterns ModuleDecision :=
  fun patterns =>
    match snapshot.policy with
    | none => (.pass, patterns)
    | some policy =>
        if policy.ruleEngine = "Off".toList then (.pass, patterns)
        else if snapshot.rules = [] then (.pass, patterns)
        else
          let (scanned, caches) :=
            (scanWith policy (waf.applies snapshot.exclusions ctx) (waf.asks ctx) snapshot.rules
              Scan.start).run ⟨patterns, Parts.new⟩
          (conclude policy scanned, caches.patterns)

/-- The patterns compiled once these requests have been inspected. -/
def patternsAfter (earlier : List (SiteSnapshot × RequestContext)) : Patterns :=
  ((earlier.mapM fun (snapshot, ctx) => waf.inspect snapshot ctx).run []).2

/-- Whether a rule holds for the request, asked first of all. -/
def ruleHolds (ctx : RequestContext) (rule : RuleRow) : Bool :=
  ((waf.asks ctx rule).run ⟨[], Parts.new⟩).1

/-- The rules that apply to the request and hold. -/
def matchedRules (exclusions : List Exclusion) (ctx : RequestContext) (rules : List RuleRow) :
    List RuleRow :=
  rules.filter fun rule => waf.applies exclusions ctx rule && waf.ruleHolds ctx rule

end WafModule

end EasyWaf.Modules.Waf
