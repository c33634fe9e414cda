import EasyWaf.Modules.GeoIp
import EasyWaf.Modules.Inspect

/-!
# What the modules object to

How strongly a policy's country rules and its rules object to a request does not
depend on the policy's mode.  A policy that only watches records the stronger of
the two; one that enforces carries it out.
-/

namespace EasyWaf.Modules

open Waf

/-- How strongly a detection objects: what was only observed does not. -/
def levelOfDetection : WithBot Detection → WithBot Level
  | some .wouldBlock => Level.block
  | some .wouldChallenge => Level.challenge
  | _ => ⊥

/-- A decision that lets the request by and records an objection. -/
def ModuleDecision.Watches (level : WithBot Level) : ModuleDecision → Prop
  | .pass => level = ⊥
  | .alert _ findings => levelOfDetection findings.detection = level
  | _ => False

namespace GeoIp

variable {policy : Option GeoPolicy} {country : Option Text}

end GeoIp

namespace Waf

variable {policy other : PolicyInfo} {snapshot : SiteSnapshot} {request : Inspected}

end Waf

/-- A verdict that lets the request by and records an objection. -/
def PipelineVerdict.Watches (level : WithBot Level) : PipelineVerdict → Prop
  | .allow _ findings => levelOfDetection findings.detection = level
  | _ => False

namespace Pipeline

variable {Context : Type} {context : Context} {modules : List (Context → ModuleDecision)}
  {levels : List (WithBot Level)}

end Pipeline

end EasyWaf.Modules
