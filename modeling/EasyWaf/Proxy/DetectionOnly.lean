import EasyWaf.Modules.Objection
import EasyWaf.Proxy.Serve

/-!
# What watching reports

A policy in DetectionOnly and a limit in DetectionOnly let every request
through and record what they would have done with it.  What enforcing does is
decided in the order of the steps; what watching records is the strongest of
what the steps object to.
-/

namespace EasyWaf.Proxy

open Forwarded Http Modules Net
open Waf (Level)

namespace Configuration

/-- The same site with its policy and its limit in another mode. -/
def inMode (config : Configuration) (mode : Text) (detectionOnly : Bool) : Configuration where
  site := { config.site with
    ruleEngine := config.site.ruleEngine.map fun _ => mode
    rateLimit := config.site.rateLimit.map fun limit => { limit with detectionOnly } }
  geo := config.geo.map fun policy => { policy with ruleEngine := mode }
  waf := { config.waf with
    policy := config.waf.policy.map fun policy => { policy with ruleEngine := mode } }
  geo_mode := by simp only [← config.geo_mode, Option.map_map]; rfl
  waf_mode := by simp only [← config.waf_mode, Option.map_map]; rfl

def enforcing (config : Configuration) : Configuration := config.inMode "On".toList false

end Configuration

/-- How strongly each step objects to a request, whatever the mode. -/
structure Objections where
  lists : WithBot Level
  block : WithBot Level
  limit : WithBot Level
  rules : WithBot Level

namespace Objections

def strongest (steps : Objections) : WithBot Level :=
  max (max (max steps.rules steps.lists) steps.block) steps.limit

/-- The limit shows no challenge to a request the rules alone would refuse, and
nothing challenges a visitor who has answered a challenge. -/
def Agree (steps : Objections) (cleared : Bool) : Prop :=
  ¬(steps.limit = Level.challenge ∧ steps.rules = Level.block ∧ steps.lists ≠ Level.block ∧
      steps.block ≠ Level.block) ∧
    ¬(cleared ∧ steps.strongest = Level.challenge)

variable {steps : Objections} {cleared : Bool}

end Objections

section Steps

variable (url : Url) (trusted : List Cidr) (holds : List UInt8 → Waf.RuleRow → Bool)
  (config : Configuration) (standing : Standing) (incoming : Incoming) (start : BodyStart)

end Steps

section Watching

variable (url : Url) (trusted : List Cidr) (holds : List UInt8 → Waf.RuleRow → Bool)
  (config : Configuration) (standing : Standing) (incoming : Incoming) (start : BodyStart)

variable {verdict : PipelineVerdict} {level : WithBot Level}

end Watching

section Enforcing

/-- An answer that carries an objection out. -/
def Answer.Does (level : WithBot Level) : Answer → Prop
  | .refused .. => level = Level.block
  | .challenged _ => level = Level.challenge
  | .passed _ => level = ⊥
  | _ => False

variable (url : Url) (trusted : List Cidr) (holds : List UInt8 → Waf.RuleRow → Bool)
  (config : Configuration) (standing : Standing) (incoming : Incoming) (start : BodyStart)

end Enforcing

section Reporting

variable (url : Url) (trusted : List Cidr) (holds : List UInt8 → Waf.RuleRow → Bool)

theorem Answer.Does.refused_iff {answer : Answer} {level : WithBot Level}
    (hdoes : answer.Does level) :
    (∃ status reason, answer = .refused status reason) ↔ level = Level.block := by
  cases answer with
  | refused status reason => exact iff_of_true ⟨status, reason, rfl⟩ hdoes
  | challenged reason =>
      obtain rfl : level = Level.challenge := hdoes
      exact iff_of_false (by simp) (by decide)
  | passed record =>
      obtain rfl : level = ⊥ := hdoes
      exact iff_of_false (by simp) WithBot.bot_ne_coe
  | failed => contradiction
  | verified => contradiction

/-- A visitor on a published list that challenges, who has answered a
challenge. -/
def answered : Standing where
  country := none
  listed := fun _ => some (.published
    { id := "tor".toList, name := "Tor exits".toList, response := .challenge })
  block := fun _ => none
  count := fun _ =>
    { requests := 0, scaled := 0
      tally := { windowMs := 0, slot := 0, current := 0, previous := 0, lastMs := 0 } }
  session := fun _ => false
  clearance := true

end Reporting

end EasyWaf.Proxy
