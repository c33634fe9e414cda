import EasyWaf.Core.Script
import EasyWaf.RuleSets.Tables

/-!
# Installing, putting back and removing a set

Three procedures, each a script of statements with no transaction around it.
Installing a version keeps the rules it is about to overwrite first; putting the
previous version back writes those; removing a set deletes its rules and the
record that the policy holds it.
-/

namespace EasyWaf.RuleSets

namespace PolicyRules

variable (set : Text)

/-- What an update to the incoming version keeps: nothing where the policy does
not hold the set, holds that version, or has no rule of the set. -/
def kept (incoming : ℤ) (state : PolicyRules) : Option Previous :=
  match state.held set with
  | none => none
  | some holding =>
      if holding.version = incoming then none
      else
        let rules := (state.rulesOf set).filterMap fun rule =>
          rule.number.map fun number => { number, wording := rule.wording : PreviousRule }
        if hrules : rules = [] then none
        else
          some { version := holding.version, replacedBy := incoming, rules, rules_ne_nil := hrules }

/-- `snapshot_before_update`. -/
def snapshotBeforeUpdate (incoming : ℤ) (state : PolicyRules) : Option PolicyRules :=
  match state.kept set incoming with
  | none => some state
  | some previous =>
      some { state with previous := Function.update state.previous set (some previous) }

/-- One rule of a file: a rule found under its number is taken over, whatever set
it is of; otherwise it is inserted. -/
def installRule (number : ℤ) (wording : Wording) (state : PolicyRules) : Option PolicyRules :=
  match state.find number with
  | some _ =>
      some (state.update (·.number = some number) (StoredRule.takenOver set wording)
        (StoredRule.number_takenOver set wording))
  | none => state.insert (StoredRule.ofSet set number wording)

/-- The set's rules a version does not have. -/
def deleteDropped (keep : List ℤ) (state : PolicyRules) : Option PolicyRules :=
  some (state.delete fun rule => rule.isOf set && !rule.number.any (keep.contains ·))

/-- The policy holds this version now. -/
def recordHolding (holding : Holding) (state : PolicyRules) : Option PolicyRules :=
  some { state with held := Function.update state.held set (some holding) }

/-- One rule as it was: a rule the newer version removed is inserted again. -/
def restoreRule (number : ℤ) (wording : Wording) (state : PolicyRules) : Option PolicyRules :=
  if (state.find number).any (·.isOf set) then
    some (state.update (fun rule => rule.isOf set && rule.number = some number)
      (StoredRule.reworded wording) (StoredRule.number_reworded wording))
  else state.insert (StoredRule.ofSet set number wording)

/-- The version recorded goes back, where one is recorded. -/
def putVersionBack (version : ℤ) (state : PolicyRules) : Option PolicyRules :=
  some { state with
    held := Function.update state.held set
      ((state.held set).map fun holding => { holding with version }) }

/-- The way back is consumed. -/
def forgetPrevious (state : PolicyRules) : Option PolicyRules :=
  some { state with previous := Function.update state.previous set none }

def deleteRules (state : PolicyRules) : Option PolicyRules := some (state.delete (·.isOf set))

def forgetHolding (state : PolicyRules) : Option PolicyRules :=
  some { state with held := Function.update state.held set none }

end PolicyRules

open PolicyRules

/-- The rules of a file, by number, as they are stored. -/
def RuleFile.items (toJson : List Condition → Text) (file : RuleFile) : List (ℤ × Wording) :=
  file.rules.map fun rule => (rule.id, rule.wording toJson)

/-- The rules a snapshot keeps, by number. -/
def Previous.items (previous : Previous) : List (ℤ × Wording) :=
  previous.rules.map fun rule => (rule.number, rule.wording)

variable (toJson : List Condition → Text) (set : Text)

/-- What `install_set` writes once the file has passed its checks. -/
def installScript (version : ℤ) (file : RuleFile) : List (PolicyRules → Option PolicyRules) :=
  snapshotBeforeUpdate set version ::
    (((file.items toJson).map fun item => installRule set item.1 item.2) ++
      [deleteDropped set (file.rules.map (·.id)),
        recordHolding set { name := file.name.getD set, version }])

/-- What `revert_set` writes once it has read what was kept. -/
def revertScript (previous : Previous) : List (PolicyRules → Option PolicyRules) :=
  (previous.items.map fun item => restoreRule set item.1 item.2) ++
    [deleteDropped set (previous.rules.map (·.number)), putVersionBack set previous.version,
      forgetPrevious set]

/-- What `uninstall_set` writes. -/
def uninstallScript : List (PolicyRules → Option PolicyRules) :=
  [deleteRules set, forgetHolding set]

/-- `install_set`; the flag says whether it ran to its end. -/
def installSet (libraries : Libraries) (version : ℤ) (text : SetText) (state : PolicyRules) :
    PolicyRules × Bool :=
  match text.installable libraries with
  | .error _ => (state, false)
  | .ok file => Script.run (installScript toJson set version file) state

/-- `revert_set`. -/
def revertSet (state : PolicyRules) : PolicyRules × Bool :=
  match state.previous set with
  | none => (state, false)
  | some previous => Script.run (revertScript set previous) state

/-- `uninstall_set`. -/
def uninstallSet (state : PolicyRules) : PolicyRules × Bool :=
  Script.run (uninstallScript set) state

end EasyWaf.RuleSets
