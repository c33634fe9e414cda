import EasyWaf.Modules.Parts

/-!
# Conditions on a request

A condition matches a pattern against what its zones read.  The fast reader stops
at the first form that matches; the collecting one keeps every form that does,
for the condition after it.
-/

namespace EasyWaf.Modules

open EasyWaf.Core Http Paths ZoneText

/-- A condition ready to match. -/
structure CompiledCondition where
  targets : List Target
  isMatch : Text → Bool
  negate : Bool
  chain : List Transform

namespace Source

variable (source : Source) (whole : Whole)

/-- The forms a whole text gives: as it arrived, or every one. -/
def allForms (parsed : Bool) (forms : List Text) : List Text := if parsed then forms.take 1 else forms

/-- `forms_of`. -/
def formsOf (target : Target) (except : List Target) (parsed : Bool) : StateM Parts (List Text) :=
  match target with
  | .url => return allForms parsed whole.url
  | .args => return allForms parsed whole.args
  | .body => return allForms parsed whole.body
  | .headers => return allForms parsed whole.headers
  | .any => return [whole.url, whole.args, whole.body, whole.headers].flatMap (allForms parsed)
  | other => Prod.snd <$> (source.any other except parsed collecting).run []

/-- The exceptions of a condition's zones. -/
def exceptions (targets : List Target) : List Target := targets.filter Target.isExcept

/-- The zones that are read. -/
def readTargets (targets : List Target) : List Target := targets.filter (!·.isExcept)

/-- A chain that starts from each value as parsed. -/
def startsParsed (chain : List Transform) : Bool := chain.head? == some .parsed

/-- The forms of one zone, after the chain. -/
def chainForms (target : Target) (except : List Target) (chain : List Transform) :
    StateM Parts (List Text) := do
  let forms ← source.formsOf whole target except (startsParsed chain)
  if chain = [] then return forms
  else source.decoded (target, except, chain) (return forms)

/-- `matching`. -/
def matching (targets : List Target) (isMatch : Text → Bool) (chain : List Transform) :
    StateM Parts (List Text) := do
  let forms ← (readTargets targets).mapM fun target =>
    source.chainForms whole target (exceptions targets) chain
  return forms.flatten.filter isMatch

/-- `reads`. -/
def reads (targets : List Target) (isMatch : Text → Bool) (chain : List Transform) :
    StateM Parts Bool :=
  if chain ≠ [] then
    (readTargets targets).anyM fun target => do
      let forms ← source.decoded (target, exceptions targets, chain)
        (source.formsOf whole target (exceptions targets) (startsParsed chain))
      return forms.any isMatch
  else
    (readTargets targets).anyM fun
      | .url => return whole.url.any isMatch
      | .args => return whole.args.any isMatch
      | .body => return whole.body.any isMatch
      | .headers => return whole.headers.any isMatch
      | .any =>
          return whole.url.any isMatch || whole.args.any isMatch || whole.body.any isMatch ||
            whole.headers.any isMatch
      | other =>
          Prod.fst <$> (source.any other (exceptions targets) false
            fun form => (return isMatch form : StateM Unit Bool)).run ()

/-- A chain's decodings, for a value a condition before has matched. -/
def ownDecodings (chain : List Transform) : List Transform := chain.filter (· ≠ .parsed)

/-- `all_hold`, after conditions that have left these values. -/
def allHoldFrom : Option (List Text) → List CompiledCondition → StateM Parts Bool
  | _, [] => return true
  | matched, condition :: rest => do
      let passesOn := rest.head?.any fun next => next.targets = [.matched]
      if condition.targets = [.matched] then
        match matched with
        | none => return false
        | some before =>
            let kept := (before.flatMap
              (Transform.applyAll source.engine (ownDecodings condition.chain))).filter
                fun value => condition.isMatch value != condition.negate
            if kept = [] then return false else allHoldFrom (some kept) rest
      else if passesOn then
        -- a negated condition matched nothing, so has nothing to pass on
        if condition.negate then return false
        else
          let hits ← source.matching whole condition.targets condition.isMatch condition.chain
          if hits = [] then return false else allHoldFrom (some hits) rest
      else if (← source.reads whole condition.targets condition.isMatch condition.chain) =
          condition.negate then return false
      else allHoldFrom matched rest

/-- `all_hold`. -/
def allHold (conditions : List CompiledCondition) : StateM Parts Bool :=
  source.allHoldFrom whole none conditions

/-- Rules evaluated one after another over one `Parts`. -/
def evaluate (rules : List (List CompiledCondition)) : StateM Parts (List Bool) :=
  rules.mapM (source.allHold whole)

/-- A `Parts` after these rules. -/
def partsAfter (rules : List (List CompiledCondition)) : Parts :=
  ((source.evaluate whole rules).run Parts.new).2

end Source

end EasyWaf.Modules
