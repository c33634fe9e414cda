import EasyWaf.Proxy.Recorded

/-!
# One row for each request

A request is recorded once, as what it came to, unless its body does not arrive, it
is the answer to a challenge, or there is no backend to send it to.
-/

namespace EasyWaf.Proxy.Recorded

open Forwarded Gateway Http Logging Modules

section Agreement

/-- What a request came to. -/
inductive Action
  | refused
  | challenged
  | letThrough
  deriving DecidableEq

/-- What a row says the request came to. -/
def rowAction (row : TrafficRecord) : Action :=
  if row.verdict = "blocked".toList then .refused
  else if row.verdict = "challenged".toList then .challenged
  else .letThrough

/-- What a client is told its request came to. -/
def Response.action (response : Response) : Action :=
  match response.page with
  | .blocked _ => .refused
  | .challenge _ | .tooManyChallenges => .challenged
  | _ => .letThrough

/-- A row records the answer given. -/
structure Agrees (row : TrafficRecord) (response : Response) : Prop where
  status : row.statusCode = response.status
  action : rowAction row = response.action

/-- One row is recorded before the answer, and agrees with it. -/
def RecordedOnce (serving : Recording Response) : Prop :=
  ∀ rows, ∃ row, (serving.run rows).2 = rows ++ [row] ∧ Agrees row (serving.run rows).1

/-- What is recorded once if so, and else not at all. -/
structure Records (serving : Recording Response) (recorded : Prop) : Prop where
  once : recorded → RecordedOnce serving
  never : ¬ recorded → ∀ rows, (serving.run rows).2 = rows

/-- A step that answers a request if so, its row recorded, and else does nothing. -/
structure HoldsBack (step : Recording (Option Response)) (holds : Bool) : Prop where
  answers : holds = true → ∀ rows, ∃ row response,
    step.run rows = (some response, rows ++ [row]) ∧ Agrees row response
  passes : holds = false → ∀ rows, step.run rows = (none, rows)

variable {serving : Recording Response} {recorded : Prop}

theorem Records.iff (hrecords : Records serving recorded) : RecordedOnce serving ↔ recorded := by
  constructor
  · intro honce
    by_contra hnot
    obtain ⟨row, hrow, -⟩ := honce []
    rw [hrecords.never hnot []] at hrow
    contradiction
  · exact hrecords.once

variable {row : TrafficRecord}

end Agreement

section Steps

variable {json : List RuleHit → Option Text} {elapsed : ℤ}

theorem HoldsBack.answering {step : Recording (Option Response)} {row : TrafficRecord}
    {response : Response} (hstep : ∀ rows, step.run rows = (some response, rows ++ [row]))
    (hagrees : Agrees row response) : HoldsBack step true where
  answers _ rows := ⟨row, response, hstep rows, hagrees⟩
  passes hholds := by contradiction

end Steps

section Gate

variable {json : List RuleHit → Option Text} {elapsed : ℤ}
variable {base64 : Text → Option (List UInt8)} {url : Url}

/-- A sign-in's answer is recorded as one. -/
def Answers (step : Recording Gate) : Prop :=
  ∀ rows, ∃ row response, step.run rows = (.answered response, rows ++ [row]) ∧ Agrees row response

variable (json elapsed)

end Gate

section Serving

variable {json : List RuleHit → Option Text} {elapsed : ℤ}
variable {base64 : Text → Option (List UInt8)} {hmac : Signature.KeyedHash} {secret : Text}
variable {url : Url}

variable (json elapsed hmac secret)

variable (base64 url)

end Serving

section Titles

variable {alerts : List Alert} {findings : Findings}

end Titles

section Conditions

variable (base64 : Text → Option (List UInt8)) (url : Url) (trusted : List Cidr)
variable (holds : List UInt8 → Waf.RuleRow → Bool)

variable {base64 url trusted holds}
variable {json : List RuleHit → Option Text} {elapsed : ℤ}
variable {hmac : Signature.KeyedHash} {secret : Text}

variable (base64 url trusted holds json elapsed hmac secret)

variable {base64 url trusted holds json elapsed hmac secret}

end Conditions

section Claim

/-- An order is posted to the shop. -/
def order : Request where
  clientIp := .v4 0
  method := "POST".toList
  path := "/order".toList
  headers := ⟨fun _ => []⟩
  host := "shop.example".toList
  query := none
  https := false
  onUpgrade := false

end Claim

end EasyWaf.Proxy.Recorded
