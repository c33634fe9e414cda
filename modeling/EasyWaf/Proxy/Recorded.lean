import EasyWaf.Challenge.Store
import EasyWaf.Gateway.Session
import EasyWaf.Gateway.SignInGate
import EasyWaf.Logging.Lines
import EasyWaf.Proxy.Serve
import EasyWaf.Routes.Redirects
import EasyWaf.Upstream.Choice
import EasyWaf.Upstream

/-!
# The rows of a request

`serve_site` with the traffic rows it queues.  Each way a request can end records
its own row, but for three: a body that does not arrive, the answer to a challenge,
and a site with no upstream.
-/

namespace EasyWaf.Proxy.Recorded

open Forwarded Gateway Http Logging Modules

section Requests

/-- `Incoming`, with the rest of what a row shows of it. -/
structure Request extends Incoming where
  host : Text
  query : Option Text
  https : Bool
  /-- The handle that lets the connection be upgraded is there. -/
  onUpgrade : Bool

/-- `path_and_query`. -/
def Request.pathAndQuery (request : Request) : Text :=
  match request.query with
  | some query => request.path ++ '?' :: query
  | none => request.path

/-- The start of a body as it was read, of which the rules see a part. -/
structure Body extends BodyStart where
  head : List UInt8

/-- `PrefixError`. -/
inductive PrefixError
  | read
  | stalled
  deriving DecidableEq

/-- How sending a request upstream went. -/
inductive Sent
  | answered (status : ℕ)
  | clientGaveUp
  | unreachable (tried : ℕ)
  deriving DecidableEq

/-- What the other parts of the program answer while a request is served. -/
structure Surroundings where
  standing : Standing
  /-- `signed_in`, by what a site asks. -/
  session : SiteAuth → Option Session
  session_held : ∀ ask, standing.session ask = (session ask).isSome
  /-- `issue` has an image to give. -/
  issues : Bool
  /-- `verify`, of an image's id and what was typed. -/
  verify : Text → Text → Challenge.Answer
  throttled : Text → Bool
  checkBasic : Text → Text → Option Identity
  checkPassword : Text → Text → Option (Identity × ℤ)
  health : Upstream.Health
  turns : Upstream.Turns
  now : ℕ
  later : ℕ
  /-- `send_upstream`, to the backend chosen. -/
  sent : Upstream.Backend → Sent
  /-- `proxy_upgrade`, the status of what the backend answers. -/
  upgraded : Upstream.Backend → Option ℕ

end Requests

section Responses

inductive Refusal
  | rules
  | repeated
  | tooFast
  deriving DecidableEq

inductive Notice
  | none
  | signedOut
  | throttled
  | wrongCode
  | refused
  | busy
  deriving DecidableEq

/-- What a client is shown. -/
inductive Page
  | blocked (refusal : Refusal)
  | challenge (failed : Bool)
  | tooManyChallenges
  | signIn (notice : Notice)
  | basicChallenge
  | redirect (location : Text)
  | error (msg : Text)
  | upstream
  deriving DecidableEq

structure Response where
  status : ℕ
  page : Page
  deriving DecidableEq

def errorResponse (status : ℕ) (msg : String) : Response := ⟨status, .error msg.toList⟩

/-- `redirect_to`. -/
def redirectTo (location : Text) : Response :=
  if (HeaderValue.fromStr location).isSome then ⟨303, .redirect location⟩
  else errorResponse 500 "Redirect build error"

/-- `sign_in_page`. -/
def signInPage (issues : Bool) (ask : SiteAuth) (notice : Notice) (status : ℕ) : Response :=
  ⟨status, .signIn (if ask.captcha && !issues then .busy else notice)⟩

end Responses

section Rows

/-- What every traffic row for one request shares. -/
structure Visit where
  siteName : Text
  clientIp : Text
  method : Text
  host : Text
  path : Text
  query : Option Text
  country : Option Text
  user : Option Text

/-- How a request ended, which is the rest of its row. -/
structure Outcome where
  status : ℕ
  blocked : Bool := false
  reason : Option Text := none
  score : Option ℤ := none
  hits : Option Text := none
  detection : Option Text := none

/-- What is done with the rows queued so far. -/
abbrev Recording := StateM (List TrafficRecord)

variable (json : List RuleHit → Option Text) (elapsed : ℤ)

def Visit.of (site : SiteRow) (request : Request) (country : Option Text) : Visit where
  siteName := site.name
  clientIp := Net.formatIpAddr request.clientIp
  method := request.method
  host := request.host
  path := request.path
  query := request.query
  country := country
  user := none

def Visit.row (visit : Visit) (outcome : Outcome) : TrafficRecord where
  siteName := visit.siteName
  clientIp := visit.clientIp
  method := visit.method
  host := visit.host
  path := visit.path
  query := visit.query
  statusCode := outcome.status
  responseMs := elapsed
  blocked := outcome.blocked
  blockReason := outcome.reason
  wafScore := outcome.score
  matchedRules := outcome.hits
  country := visit.country
  detection := outcome.detection
  user := visit.user

/-- `Visit::record`. -/
def Visit.record (visit : Visit) (outcome : Outcome) : Recording Unit :=
  modify (· ++ [visit.row elapsed outcome])

def hitsJson (hits : List RuleHit) : Option Text := if hits = [] then none else json hits

/-- A request the rules let through and EasyWAF answered itself. -/
def Outcome.answeredHere (found : Option Record) (status : ℕ) (why : Text) : Outcome where
  status := status
  reason := some why
  score := found.map (·.score)
  hits := found.bind fun found => hitsJson json found.hits
  detection := found.map (·.detection)

/-- A request let through to a backend. -/
def Outcome.forwarded (found : Option Record) (status : ℕ) : Outcome where
  status := status
  reason := (found.map (·.reason)).filter (· ≠ [])
  score := found.map (·.score)
  hits := found.bind fun found => hitsJson json found.hits
  detection := found.map (·.detection)

end Rows

section Steps

variable (json : List RuleHit → Option Text) (elapsed : ℤ)

/-- `challenge`. -/
def challenge (visit : Visit) (issues : Bool) (reason : Text) (findings : Findings) :
    Recording Response := do
  visit.record elapsed
    { status := if issues then 200 else 429
      reason := some ("challenge: ".toList ++ reason)
      score := some findings.score
      hits := hitsJson json findings.hits }
  return if issues then ⟨200, .challenge false⟩ else ⟨429, .tooManyChallenges⟩

/-- `read_body_start`. -/
def readBodyStart : Except PrefixError Body → Except Response Body
  | .ok body => .ok body
  | .error .read => .error (errorResponse 400 "Failed to read request body")
  | .error .stalled => .error (errorResponse 408 "The request body stopped arriving")

end Steps

section Forms

/-- `decode_component`. -/
def decodeComponent (text : Text) : Text :=
  let plus := replaceChar '+' [' '] text
  (Text.fromUtf8 (decodeBinary plus.bytes)).getD plus

/-- A field of `parse_form`; of several by one name the last. -/
def formField (body : List UInt8) (name : Text) : Option Text :=
  (((Text.fromUtf8Lossy body).splitOn '&').reverse.map fun pair =>
      let (key, value) := (Text.splitOnce '=' pair).getD (pair, [])
      (decodeComponent key, decodeComponent value)).findSome? fun (key, value) =>
    if key ≠ [] ∧ key = name then some value else none

/-- `posted_from_elsewhere`. -/
def postedFromElsewhere (headers : HeaderMap) : Bool :=
  let text (name : Text) := (headers.get name).map fun value =>
    (Text.fromUtf8Lossy value.bytes).toAsciiLowercase
  match text "origin".toList, text "host".toList with
  | some origin, some host =>
      ((origin.dropInfix? "://".toList).map (·.2)).getD origin ≠ host
  | _, _ => false

/-- Whether an image was read right. -/
def isRight : Challenge.Answer → Bool
  | .right _ => true
  | _ => false

variable (base64 : Text → Option (List UInt8))

end Forms

section Gate

variable (json : List RuleHit → Option Text) (elapsed : ℤ)
variable (base64 : Text → Option (List UInt8)) (url : Url)

/-- What the gateway did with a request: answered it, or left it to go on with these
headers from this visitor. -/
inductive Gate
  | answered (response : Response)
  | through (headers : HeaderMap) (visit : Visit)

/-- `answered` of `gate` and of `sign_in`. -/
def answered (found : Option Record) (visit : Visit) (status : ℕ) (why : String)
    (response : Response) : Recording Gate := do
  visit.record elapsed (.answeredHere json found status why.toList)
  return .answered response

/-- `sign_in`. -/
def signIn (around : Surroundings) (ask : SiteAuth) (request : Request) (visit : Visit)
    (posted : Option (List UInt8)) (found : Option Record) : Recording Gate :=
  let answered := answered json elapsed found
  let page := signInPage around.issues ask
  if !request.https then
    answered visit 403 "sign-in: needs HTTPS"
      (errorResponse 403 "Signing in is only done over HTTPS.")
  else
    match posted with
    | none =>
        answered visit 413 "sign-in: refused" (errorResponse 413 "Sign-in submission too large")
    | some posted =>
        if postedFromElsewhere request.headers then
          answered visit 403 "sign-in: refused"
            (errorResponse 403 "This sign-in was sent from another site's page.")
        else
          let user := ((formField posted "user".toList).map Text.trim).getD []
          let pass := (formField posted "pass".toList).getD []
          let dest :=
            ((formField posted "dest".toList).filter Routes.landsOnTheSite).getD "/".toList
          if around.throttled user then
            answered visit 429 "sign-in: too many attempts" (page .throttled 429)
          else if ask.captcha && !isRight (around.verify ((formField posted "code_id".toList).getD [])
              ((formField posted "code".toList).getD [])) then
            answered visit 401 "sign-in: wrong code" (page .wrongCode 401)
          else
            match around.checkPassword user pass with
            | none => answered visit 401 "sign-in: refused" (page .refused 401)
            | some (who, _) =>
                answered { visit with user := some who.subject } 303 "sign-in: signed in"
                  (redirectTo dest)

end Gate

section Serving

variable (json : List RuleHit → Option Text) (elapsed : ℤ)
variable (base64 : Text → Option (List UInt8)) (hmac : Signature.KeyedHash) (secret : Text)

/-- `AFFINITY_COOKIE`. -/
def affinityCookie : Text := "easywaf_upstream".toList

/-- `cookie_value`. -/
def cookieValue (headers : HeaderMap) (name : Text) : Option Text :=
  (headers.get cookieHeader).bind fun raw =>
    ((Text.fromUtf8Lossy raw.bytes).splitOn ';').findSome? fun pair =>
      (Text.splitOnce '=' (Text.trim pair)).bind fun (key, value) =>
        if key = name then some value else none

/-- `is_upgrade`. -/
def isUpgrade (headers : HeaderMap) : Bool :=
  ((headers.getAll "connection".toList).filterMap HeaderValue.toStr).any (fun value =>
    (value.splitOn ',').any fun token =>
      Text.eqIgnoreAsciiCase (Text.trim token) "upgrade".toList) &&
    (headers.get "upgrade".toList).isSome

/-- `forward`, of a request with the headers the gateway left it. -/
def forward (around : Surroundings) (site : SiteRow) (request : Request) (headers : HeaderMap)
    (visit : Visit) (found : Option Record) : Recording Response :=
  let pinned :=
    if site.affinity then (cookieValue headers affinityCookie).bind (Upstream.readPin hmac secret)
    else none
  match (Upstream.choosePinned around.health around.turns site.id site.upstreams around.now
      around.later pinned).1 with
  | none => return errorResponse 502 "No upstream is configured for this site"
  | some chosen =>
      if isUpgrade headers && request.onUpgrade then do
        let response : Response := match around.upgraded chosen.upstream with
          | some status => ⟨status, .upstream⟩
          | none => errorResponse 502 "Upgrade failed"
        visit.record elapsed (.forwarded json found response.status)
        return response
      else
        match around.sent chosen.upstream with
        | .answered status => do
            visit.record elapsed (.forwarded json found status)
            return ⟨status, .upstream⟩
        | .clientGaveUp => do
            visit.record elapsed (.forwarded json found 400)
            return errorResponse 400 "The request body did not finish arriving"
        | .unreachable tried => do
            visit.record elapsed (.forwarded json found 502)
            return errorResponse 502
              (if chosen.allOut || 1 < tried then "All upstreams for this site are down"
                else "Upstream unreachable")

variable (url : Url) (trusted : List Cidr) (holds : List UInt8 → Waf.RuleRow → Bool)

end Serving

end EasyWaf.Proxy.Recorded
