import EasyWaf.Modules.Targets
import EasyWaf.Modules.Transforms

/-!
# Rule set files

A set's text as the TOML reader sees it, and the checks it passes before a row
is written: a set that says what this version does not read is refused whole.
-/

namespace EasyWaf.RuleSets

open Modules

/-- What a version of a set says about a rule, as the columns of `waf_rules`
hold it. -/
structure Wording where
  name : Text
  description : Text
  zone : Text
  pattern : Text
  score : ℤ
  action : Text
  negate : Bool
  conditions : Text
  transforms : Text
  deriving DecidableEq

/-- A single rule definition. -/
structure RuleFileDef where
  id : ℤ
  name : Text
  description : Option Text
  zone : Text
  pattern : Text
  score : ℤ
  action : Text
  negate : Bool
  transforms : List Text
  /-- The conditions after the first. -/
  conditions : List Condition
  deriving DecidableEq

/-- A set's name and its rules. -/
structure RuleFile where
  name : Option Text
  rules : List RuleFileDef
  deriving DecidableEq

/-- A rule as a table of keys: its number, its own keys and those of each of its
conditions. -/
structure RawRule where
  id : ℤ
  keys : List Text
  conditions : List (List Text)

/-- What the TOML reader makes of a set's text: the rules as tables, if it has
any, and the file they describe, if they describe one. -/
structure SetText where
  raw : Option (List RawRule)
  file : Option RuleFile

namespace RuleFileDef

/-- The decodings as the `transforms` column holds them. -/
def transformsColumn (rule : RuleFileDef) : Text :=
  Text.join [','] (rule.transforms.map fun name =>
    match Transform.parse name with
    | some transform => transform.name
    | none => name)

/-- The rule as it is stored; `toJson` writes the conditions. -/
def wording (toJson : List Condition → Text) (rule : RuleFileDef) : Wording where
  name := rule.name
  description := rule.description.getD []
  zone := rule.zone
  pattern := rule.pattern
  score := rule.score
  action := rule.action
  negate := rule.negate
  conditions := toJson rule.conditions
  transforms := rule.transformsColumn

/-- The first zone the rule names that this version does not read. -/
def unreadableZone (libraries : Libraries) (rule : RuleFileDef) : Option Text :=
  (rule.zone :: rule.conditions.map (·.zone)).find? fun zone => (parseZone libraries zone).isNone

/-- The first list the rule's patterns name that this version does not know. -/
def unknownList (rule : RuleFileDef) : Option Text :=
  ((rule.pattern :: rule.conditions.map (·.pattern)).flatMap Values.namedIn).find? fun name =>
    (Values.find name).isNone

/-- The first decoding the rule names that this version does not apply. -/
def unknownTransform (rule : RuleFileDef) : Option Text :=
  ((rule.transforms :: rule.conditions.map (·.transforms)).flatten).find? fun name =>
    (Transform.parse name).isNone

end RuleFileDef

/-- `RULE_KEYS`. -/
def ruleKeys : List Text :=
  ["id".toList, "name".toList, "description".toList, "zone".toList, "pattern".toList,
    "score".toList, "action".toList, "negate".toList, "transforms".toList, "and".toList]

/-- `CONDITION_KEYS`. -/
def conditionKeys : List Text :=
  ["zone".toList, "pattern".toList, "negate".toList, "transforms".toList]

/-- A key of a rule that this version does not read. -/
def RawRule.unreadKey (rule : RawRule) : Option (ℤ × Text) :=
  match rule.keys.find? (!ruleKeys.contains ·) with
  | some key => some (rule.id, key)
  | none =>
      (rule.conditions.findSome? fun keys => keys.find? (!conditionKeys.contains ·)).map
        fun key => (rule.id, "and.".toList ++ key)

/-- Why a set is not installed. -/
inductive Refusal
  | unreadKey (rule : ℤ) (key : Text)
  | unparsed
  | unreadableZone (rule : ℤ) (zone : Text)
  | unknownList (rule : ℤ) (name : Text)
  | unknownTransform (rule : ℤ) (name : Text)
  deriving DecidableEq

/-- The first rule a check finds something in, with what it found. -/
def RuleFile.firstFound (file : RuleFile) (check : RuleFileDef → Option Text) :
    Option (ℤ × Text) :=
  file.rules.findSome? fun rule => (check rule).map fun found => (rule.id, found)

/-- Every rule's keys and zones, lists and decodings, before anything is
written. -/
def SetText.installable (libraries : Libraries) (text : SetText) : Except Refusal RuleFile :=
  match (text.raw.getD []).findSome? RawRule.unreadKey with
  | some (rule, key) => .error (.unreadKey rule key)
  | none =>
    match text.file with
    | none => .error .unparsed
    | some file =>
      match file.firstFound (RuleFileDef.unreadableZone libraries) with
      | some (rule, zone) => .error (.unreadableZone rule zone)
      | none =>
        match file.firstFound RuleFileDef.unknownList with
        | some (rule, name) => .error (.unknownList rule name)
        | none =>
          match file.firstFound RuleFileDef.unknownTransform with
          | some (rule, name) => .error (.unknownTransform rule name)
          | none => .ok file

end EasyWaf.RuleSets
