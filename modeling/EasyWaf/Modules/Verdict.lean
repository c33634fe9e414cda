import EasyWaf.Text.Basic
import Mathlib.Order.WithBot
import Mathlib.Order.Lattice

/-!
# What the modules decide

Each module passes a request, alerts on it, challenges it or drops it.  The
pipeline asks them in order and stops at the first that does not let the request
by; what the ones before it found is reported with the verdict.
-/

namespace EasyWaf.Modules

/-- One rule that matched. -/
structure RuleHit where
  id : Option ℤ
  name : Text
  score : ℤ
  deriving DecidableEq

/-- What a module would have done, when it did not do it. -/
inductive Detection
  | observed
  | wouldChallenge
  | wouldBlock
  deriving DecidableEq

namespace Detection

def rank : Detection → ℕ
  | observed => 0
  | wouldChallenge => 1
  | wouldBlock => 2

theorem rank_injective : Function.Injective rank := by
  intro left right hrank
  cases left <;> cases right <;> first | rfl | contradiction

/-- Ordered by severity. -/
instance : LinearOrder Detection := LinearOrder.lift' rank rank_injective

/-- The stored form. -/
def asStr : Detection → Text
  | observed => "observed".toList
  | wouldChallenge => "would_challenge".toList
  | wouldBlock => "would_block".toList

theorem le_wouldBlock (detection : Detection) : detection ≤ wouldBlock := by
  cases detection <;> decide

end Detection

/-- What was concluded, beyond the reason; nothing detected is `⊥`. -/
structure Findings where
  score : ℤ
  hits : List RuleHit
  detection : WithBot Detection
  /-- The rules refused the request, or would have in a policy that is only
  watching. -/
  offence : Bool

namespace Findings

def default : Findings where
  score := 0
  hits := []
  detection := ⊥
  offence := false

/-- Fold another module's findings in. -/
def merge (findings other : Findings) : Findings where
  score := findings.score + other.score
  hits := findings.hits ++ other.hits
  detection := max findings.detection other.detection
  offence := findings.offence || other.offence

end Findings

/-- Why a module flagged a request it let through. -/
structure Alert where
  reason : Text

inductive ModuleDecision
  | pass
  | alert (reason : Text) (findings : Findings)
  | challenge (reason : Text) (findings : Findings)
  | drop (reason : Text) (status : ℕ) (findings : Findings)

inductive PipelineVerdict
  | allow (alerts : List Alert) (findings : Findings)
  | challenge (reason : Text) (findings : Findings)
  | block (reason : Text) (status : ℕ) (findings : Findings)

namespace Pipeline

variable {Context : Type}

/-- The modules not yet asked, with what the others found. -/
def runFrom (alerts : List Alert) (findings : Findings) :
    List (Context → ModuleDecision) → Context → PipelineVerdict
  | [], _ => .allow alerts findings
  | inspect :: modules, context =>
      match inspect context with
      | .pass => runFrom alerts findings modules context
      | .alert reason found =>
          runFrom (alerts ++ [⟨reason⟩]) (findings.merge found) modules context
      | .challenge reason found => .challenge reason (findings.merge found)
      | .drop reason status found => .block reason status (findings.merge found)

/-- Ask every module in order. -/
def run (modules : List (Context → ModuleDecision)) (context : Context) : PipelineVerdict :=
  runFrom [] Findings.default modules context

end Pipeline

/-- The more serious of two detections. -/
def stronger (found : WithBot Detection) (list : Detection) : Detection :=
  match found with
  | some found => if list.rank ≤ found.rank then found else list
  | none => list

end EasyWaf.Modules
