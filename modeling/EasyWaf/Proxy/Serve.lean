import EasyWaf.Forwarded
import EasyWaf.IpList
import EasyWaf.Modules.GeoIp
import EasyWaf.Modules.Inspect
import EasyWaf.Proxy.SiteTable

/-!
# Serving a request

What a site does with a request, up to the point where it is let through to the
sign-in gate and the backend: the address lists, Smart Protect, the rate limit,
the modules, and a challenge where one of them asks for it.
-/

namespace EasyWaf.Proxy

open Forwarded Http Modules Net

/-- `LOGIN_PATH`. -/
def loginPath : Text := "/__easywaf/login".toList

/-- A site, and what the modules hold of its policy. -/
structure Configuration where
  site : SiteRow
  geo : Option GeoIp.GeoPolicy
  waf : Waf.SiteSnapshot
  /-- Both are of the site's policy, whose mode is the site's. -/
  geo_mode : geo.map (·.ruleEngine) = site.ruleEngine
  waf_mode : waf.policy.map (·.ruleEngine) = site.ruleEngine

/-- What the steps read about a request. -/
structure Incoming where
  clientIp : IpAddr
  method : Text
  path : Text
  headers : HeaderMap

/-- The start of a body: whether that is the whole of it, and what of it the
rules see. -/
structure BodyStart where
  complete : Bool
  inspected : List UInt8

/-- How a client stands as its request arrives. -/
structure Standing where
  country : Option Text
  /-- `iplist::check`, by policy. -/
  listed : ℤ → Option IpList.Listed
  /-- `smart_protect::blocked`, by policy. -/
  block : ℤ → Option SmartProtect.Block
  /-- `rate_limit::count`, by window. -/
  count : ℤ → RateLimit.Count
  /-- `signed_in`, by what a site asks. -/
  session : Gateway.SiteAuth → Bool
  /-- `clearance_ok`. -/
  clearance : Bool

/-- What is recorded of a request that was let through. -/
structure Record where
  score : ℤ
  hits : List RuleHit
  detection : Text
  reason : Text
  deriving DecidableEq

inductive Answer
  | refused (status : ℕ) (reason : Text)
  | challenged (reason : Text)
  /-- The body could not be read, or a CAPTCHA's answer was too large. -/
  | failed (status : ℕ)
  /-- The answer to a CAPTCHA was looked at. -/
  | verified
  | passed (detection : Option Record)

section Lists

/-- What the site's IP lists say about this client. -/
structure ListCheck where
  listed : Option IpList.Listed
  detectionOnly : Bool

def ListCheck.of (site : SiteRow) (standing : Standing) : ListCheck where
  listed := match site.policyId, site.ruleEngine with
    | some policy, some mode => if mode ≠ "Off".toList then standing.listed policy else none
    | _, _ => none
  detectionOnly := site.ruleEngine = some "DetectionOnly".toList

end Lists

section SmartProtect

/-- What Smart Protect has to do with this request. -/
structure Watch where
  policy : Option ℤ
  block : Option SmartProtect.Block
  detectionOnly : Bool

/-- Smart Protect leaves out a client on the policy's allow list and a trusted
proxy. -/
def Watch.of (trusted : List Cidr) (site : SiteRow) (lists : ListCheck) (standing : Standing)
    (clientIp : IpAddr) : Watch :=
  let applies := site.smartProtect && site.ruleEngine.any (· ≠ "Off".toList) &&
    lists.listed ≠ some .allowed && !trusts trusted clientIp
  let policy := if applies then site.policyId else none
  { policy, block := policy.bind standing.block, detectionOnly := lists.detectionOnly }

end SmartProtect

section RateLimit

/-- What the site's rate limit makes of this request. -/
structure RateCheck where
  limit : Option RateLimit.Limit
  count : Option RateLimit.Count
  pageLoad : Bool

/-- What enforcing a limit does with a request over it. -/
inductive OverLimit
  | refuse
  | challenge
  deriving DecidableEq

namespace RateCheck

/-- A client on the policy's allow list and a trusted proxy are not counted. -/
def of (trusted : List Cidr) (site : SiteRow) (lists : ListCheck) (standing : Standing)
    (incoming : Incoming) : RateCheck :=
  let limit := site.rateLimit.filter fun _ =>
    lists.listed ≠ some .allowed && !trusts trusted incoming.clientIp
  let header (name : Text) := (incoming.headers.get name).bind HeaderValue.toStr
  { limit
    count := limit.map fun limit => standing.count limit.window
    pageLoad := RateLimit.isPageLoad incoming.method (header "sec-fetch-mode".toList)
      (header "accept".toList) }

/-- What enforcing the limit does with this request, if it is over.  One that
challenges lets a visitor who has answered a challenge by, and refuses what
cannot be shown a CAPTCHA and what is past twice the limit. -/
def decision (rate : RateCheck) (cleared : Bool) : Option OverLimit :=
  match rate.limit, rate.count with
  | some limit, some count =>
      if !count.over limit.requests.toNat then none
      else
        match limit.action with
        | .block => some .refuse
        | .challenge =>
            if cleared then none
            else if rate.pageLoad &&
                !count.over (min (limit.requests.toNat * 2) (2 ^ 64 - 1)) then some .challenge
            else some .refuse
  | _, _ => none

/-- Why the request is over the limit. -/
def reason (rate : RateCheck) : Text :=
  match rate.limit, rate.count with
  | some limit, some count =>
      "Rate limit: ".toList ++ Text.formatNat count.requests ++ " requests within ".toList ++
        RateLimit.windowText limit.window.toNat ++ ", over this site's limit of ".toList ++
        RateLimit.describe limit.requests.toNat limit.window.toNat
  | _, _ => "Rate limit".toList

/-- What a limit the site is only watching would have done. -/
def would (rate : RateCheck) (cleared : Bool) : Option (Text × Detection) :=
  if rate.limit.any (·.detectionOnly) then
    (rate.decision cleared).map fun
      | .refuse => (rate.reason, .wouldBlock)
      | .challenge => (rate.reason, .wouldChallenge)
  else none

end RateCheck

end RateLimit

section Verdict

/-- What was not done is recorded beside whatever the modules found. -/
def noted (would : Option (Text × Detection)) : PipelineVerdict → PipelineVerdict
  | .allow alerts findings =>
      match would with
      | some (why, would) =>
          .allow (alerts ++ [⟨why⟩]) { findings with
            detection := (stronger findings.detection would : Detection) }
      | none => .allow alerts findings
  | verdict => verdict

end Verdict

/-- Whether the visitor has signed in or answered a challenge. -/
def Standing.cleared (standing : Standing) (site : SiteRow) : Bool :=
  site.auth.any standing.session || standing.clearance

/-- What of the body the rules are shown: nothing of a sign-in's. -/
def Incoming.shown (incoming : Incoming) (site : SiteRow) (start : BodyStart) : List UInt8 :=
  if site.auth.isSome && incoming.method = "POST".toList && incoming.path = loginPath then []
  else start.inspected

variable (url : Url) (trusted : List Cidr) (holds : List UInt8 → Waf.RuleRow → Bool)

/-- The request as the rules are asked about it. -/
def Incoming.inspected (incoming : Incoming) (site : SiteRow) (start : BodyStart) :
    Waf.Inspected where
  path := Paths.pathAsForwarded url incoming.path
  client := incoming.clientIp
  holds := holds (incoming.shown site start)

end EasyWaf.Proxy
