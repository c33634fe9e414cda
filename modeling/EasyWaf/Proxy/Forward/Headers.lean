import EasyWaf.Forwarded
import EasyWaf.Gateway.Passage
import EasyWaf.Net.IpText

/-!
# The headers a backend is sent

A request goes to the backend with the client's headers, less those of the one
connection, and with headers that say who the client is and which scheme it
used.  A client that is no trusted proxy cannot say either for itself.
-/

namespace EasyWaf.Proxy.Forward

open Forwarded Gateway Http Net

/-- `HOP_HEADERS`: they describe one connection rather than the request. -/
def hopHeaders : List Text :=
  ["connection", "keep-alive", "proxy-authenticate", "proxy-authorization", "te", "trailers",
    "transfer-encoding", "upgrade"].map String.toList

/-- `CLIENT_CLAIMS`: by these a request describes its own origin. -/
def clientClaims : List Text :=
  ["forwarded", "x-forwarded-port", "x-forwarded-scheme", "x-forwarded-ssl", "x-client-ip",
    "true-client-ip", "cf-connecting-ip", "x-original-url", "x-rewrite-url"].map String.toList

def hostHeader : Text := "host".toList

def forwardedForHeader : Text := "x-forwarded-for".toList

def realIpHeader : Text := "x-real-ip".toList

def forwardedProtoHeader : Text := "x-forwarded-proto".toList

def forwardedHostHeader : Text := "x-forwarded-host".toList

/-- A request as it arrives. -/
structure Request where
  method : Text
  path : Text
  query : Option Text
  headers : HeaderMap

/-- A request taken apart, and who the client is. -/
structure Incoming where
  peer : IpAddr
  clientIp : IpAddr
  method : Text
  path : Text
  query : Option Text
  headers : HeaderMap
  https : Bool

/-- The hostname a request is for. -/
def requestHost (headers : HeaderMap) : Option Text :=
  let value := ((headers.get hostHeader).bind HeaderValue.toStr).getD []
  let host : Text := Text.trimEndMatches (· == '.') (value.takeWhile (· != ':'))
  let host := host.toAsciiLowercase
  if host ≠ [] then some host else none

/-- `says_https`: the first of the values the hop nearest the client gives. -/
def saysHttps (headers : HeaderMap) : Bool :=
  match headers.get forwardedProtoHeader with
  | some value =>
      let first : Text := (Text.fromUtf8Lossy value.bytes).takeWhile (· != ',')
      Text.eqIgnoreAsciiCase first.trim "https".toList
  | none => false

def clientUsedHttps (trusted : List Cidr) (peer : IpAddr) (headers : HeaderMap)
    (listenerIsTls : Bool) : Bool :=
  listenerIsTls || (trusts trusted peer && saysHttps headers)

/-- `Incoming::take`. -/
def Incoming.take (trusted : List Cidr) (request : Request) (peer : IpAddr) (https : Bool) :
    Incoming where
  peer := peer
  clientIp := resolve peer (request.headers.getAll forwardedForHeader) trusted
  method := request.method
  path := request.path
  query := request.query
  headers := request.headers
  https := https

/-- The path with its query string, as the request line had them. -/
def Incoming.pathAndQuery (incoming : Incoming) : Text :=
  match incoming.query with
  | some query => incoming.path ++ '?' :: query
  | none => incoming.path

/-- Tell the upstream what the original request looked like. -/
def applyForwardedHeaders (trusted : List Cidr) (headers : HeaderMap) (peer client : IpAddr)
    (originalHost : Option HeaderValue) (https : Bool) : HeaderMap :=
  let headers := if trusts trusted peer then headers else headers.removeAll clientClaims
  -- another client than the peer is one a trusted proxy named, whose chain is passed on
  let xff := match forwardedFor (headers.getAll forwardedForHeader) with
    | some existing =>
        if client ≠ peer then existing ++ ", ".toList ++ formatIpAddr peer
        else formatIpAddr client
    | none => formatIpAddr client
  let headers := setText headers forwardedForHeader xff
  let headers := setText headers realIpHeader (formatIpAddr client)
  let headers := setText headers forwardedProtoHeader
    (if https then "https".toList else "http".toList)
  match originalHost.bind HeaderValue.toStr with
  | some host => setText headers forwardedHostHeader host
  | none => headers

/-- `to_reqwest_headers`: every header that has a name. -/
def toReqwestHeaders (headers : HeaderMap) : HeaderMap where
  getAll name := if isHeaderName name then headers.getAll name else []

/-- The headers `send_upstream` sends a request with. -/
def upstreamHeaders (trusted : List Cidr) (incoming : Incoming) : HeaderMap :=
  toReqwestHeaders <| applyForwardedHeaders trusted (incoming.headers.removeAll hopHeaders)
    incoming.peer incoming.clientIp (incoming.headers.get hostHeader) incoming.https

/-- The headers of an upgrade: those that ask for it are kept. -/
def upgradeHeaders (trusted : List Cidr) (headers : HeaderMap) (peer client : IpAddr)
    (https : Bool) : HeaderMap :=
  let removed := hopHeaders.filter fun header =>
    header ≠ "connection".toList ∧ header ≠ "upgrade".toList
  applyForwardedHeaders trusted (headers.removeAll removed) peer client (headers.get hostHeader)
    https

/-- The headers `proxy_upgrade` sends a handshake with: the upstream's own address
is the host of one that came without. -/
def upgradeRequestHeaders (trusted : List Cidr) (incoming : Incoming) (address : Text) :
    HeaderMap :=
  let headers := upgradeHeaders trusted incoming.headers incoming.peer incoming.clientIp
    incoming.https
  if headers.getAll hostHeader = [] then setText headers hostHeader address else headers

/-- The headers by which a client could say who it is or what it asked for. -/
def claimable : List Text :=
  clientClaims ++
    [forwardedForHeader, realIpHeader, forwardedProtoHeader, forwardedHostHeader]

/-- What the headers say of the client is this address and this scheme. -/
structure States (client : IpAddr) (https : Bool) (headers : HeaderMap) : Prop where
  forwardedFor :
    (headers.getAll forwardedForHeader).map HeaderValue.toStr = [some (formatIpAddr client)]
  realIp : (headers.getAll realIpHeader).map HeaderValue.toStr = [some (formatIpAddr client)]
  forwardedProto : (headers.getAll forwardedProtoHeader).map HeaderValue.toStr =
    [some (if https then "https".toList else "http".toList)]
  unclaimed : ∀ claim ∈ clientClaims, headers.getAll claim = []

section Texts

/-- What an address is written with can stand in a header. -/
theorem visible_of_mem_formatIpAddr {ip : IpAddr} {c : Char} (hc : c ∈ formatIpAddr ip) :
    c.toNat < 0x80 ∧ isVisible (UInt8.ofNat c.toNat) := by
  have hsmall : ∀ n < 0x80, 0x20 < n → n < 0x7f → isVisible (UInt8.ofNat n) := by decide
  suffices hbounds : 0x20 < c.toNat ∧ c.toNat < 0x7f from
    ⟨by omega, hsmall c.toNat (by omega) hbounds.1 hbounds.2⟩
  rcases mem_formatIpAddr hc with rfl | rfl | hdigit
  · decide
  · decide
  · rw [isDigitOf, Bool.and_eq_true, Bool.or_eq_true] at hdigit
    rcases hdigit.1 with hdecimal | hletter
    · have hrange := Char.isDigit_iff_toNat.mp hdecimal
      have hzero : '0'.toNat = 48 := rfl
      have hnine : '9'.toNat = 57 := rfl
      omega
    · have halpha : c.isAlpha = true := by
        rw [← Char.isLower_toLower_eq_isAlpha, Char.isLower]
        simpa [Char.le_def] using hletter
      simp only [Char.isAlpha, Char.isUpper, Char.isLower, Bool.or_eq_true, Bool.and_eq_true,
        decide_eq_true_eq, ge_iff_le, UInt32.le_iff_toNat_le] at halpha
      rcases halpha with ⟨hlow, hhigh⟩ | ⟨hlow, hhigh⟩
      · change 65 ≤ c.toNat at hlow
        change c.toNat ≤ 90 at hhigh
        omega
      · change 97 ≤ c.toNat at hlow
        change c.toNat ≤ 122 at hhigh
        omega

theorem fromStr_formatIpAddr (ip : IpAddr) :
    ∃ value, HeaderValue.fromStr (formatIpAddr ip) = some value ∧
      value.toStr = some (formatIpAddr ip) :=
  HeaderValue.fromStr_of_visible fun _ hc => visible_of_mem_formatIpAddr hc

/-- What the backend is told of the scheme. -/
def schemeText (https : Bool) : Text := if https then "https".toList else "http".toList

theorem fromStr_schemeText (https : Bool) :
    ∃ value, HeaderValue.fromStr (schemeText https) = some value ∧
      value.toStr = some (schemeText https) := by
  apply HeaderValue.fromStr_of_visible
  cases https <;> simp [schemeText, isVisible]

/-- A request has a host that reads as text. -/
theorem toStr_of_requestHost {headers : HeaderMap} (hhost : (requestHost headers).isSome) :
    ∃ host, (headers.get hostHeader).bind HeaderValue.toStr = some host := by
  cases hread : (headers.get hostHeader).bind HeaderValue.toStr with
  | some host => exact ⟨host, rfl⟩
  | none =>
      rw [requestHost, hread] at hhost
      exact absurd hhost (by decide)

end Texts

section Setting

variable {names : List Text} {left right headers : HeaderMap} {name text : Text}

theorem getAll_setText_self {value : HeaderValue} (hvalue : HeaderValue.fromStr text = some value) :
    (setText headers name text).getAll name = [value] := by
  rw [setText, hvalue]
  exact HeaderMap.getAll_insert_self headers value

/-- A header set to one value no longer tells two requests apart. -/
theorem agreeExcept_of_set (hagree : left.AgreeExcept (name :: names) right)
    (hvalue : ∃ value, HeaderValue.fromStr text = some value ∧ value.toStr = some text) :
    (setText left name text).AgreeExcept names (setText right name text) := by
  obtain ⟨value, hvalue, -⟩ := hvalue
  intro other hother
  by_cases hname : other = name
  · rw [hname, getAll_setText_self hvalue, getAll_setText_self hvalue]
  · rw [getAll_setText left hname, getAll_setText right hname]
    apply hagree other
    rw [List.mem_cons, not_or]
    exact ⟨hname, hother⟩

theorem agreeExcept_of_removeAll {removed : List Text}
    (hagree : left.AgreeExcept (removed ++ names) right) :
    (left.removeAll removed).AgreeExcept names (right.removeAll removed) := by
  intro name hname
  rw [HeaderMap.getAll_removeAll, HeaderMap.getAll_removeAll]
  split
  · rfl
  · rename_i hremoved
    apply hagree name
    rw [List.mem_append, not_or]
    exact ⟨hremoved, hname⟩

end Setting

section Claims

variable {trusted : List Cidr} {peer : IpAddr} {https : Bool} {left right : HeaderMap}

/-- What the proxy says for a peer that is no trusted proxy. -/
theorem applyForwardedHeaders_of_untrusted (hpeer : trusts trusted peer = false)
    {originalHost : Option HeaderValue} {host : Text}
    (hhost : originalHost.bind HeaderValue.toStr = some host) (headers : HeaderMap) :
    applyForwardedHeaders trusted headers peer peer originalHost https =
      setText (setText (setText (setText (headers.removeAll clientClaims)
        forwardedForHeader (formatIpAddr peer)) realIpHeader (formatIpAddr peer))
        forwardedProtoHeader (schemeText https)) forwardedHostHeader host := by
  have hxff : (match forwardedFor ((headers.removeAll clientClaims).getAll forwardedForHeader) with
      | some existing =>
          if peer ≠ peer then existing ++ ", ".toList ++ formatIpAddr peer else formatIpAddr peer
      | none => formatIpAddr peer) = formatIpAddr peer := by
    split
    · rw [if_neg (not_not.mpr rfl)]
    · rfl
  rw [applyForwardedHeaders, hhost, hpeer]
  simp only [Bool.false_eq_true, if_false, hxff, schemeText]

/-- Requests that differ in the claims alone are sent alike. -/
theorem applyForwardedHeaders_congr (hpeer : trusts trusted peer = false)
    {originalHost : Option HeaderValue} {host : Text}
    (hhost : originalHost.bind HeaderValue.toStr = some host)
    (hagree : left.AgreeExcept claimable right) :
    applyForwardedHeaders trusted left peer peer originalHost https =
      applyForwardedHeaders trusted right peer peer originalHost https := by
  rw [applyForwardedHeaders_of_untrusted hpeer hhost, applyForwardedHeaders_of_untrusted hpeer hhost]
  obtain ⟨value, -, hread⟩ := Option.bind_eq_some_iff.mp hhost
  have hclaims := agreeExcept_of_removeAll hagree
  have hfor := agreeExcept_of_set hclaims (fromStr_formatIpAddr peer)
  have hreal := agreeExcept_of_set hfor (fromStr_formatIpAddr peer)
  have hproto := agreeExcept_of_set hreal (fromStr_schemeText https)
  have hforwardedHost := agreeExcept_of_set hproto (HeaderValue.fromStr_of_toStr hread)
  apply hforwardedHost.eq_of_empty
  intro name hname
  contradiction

/-- The headers state the peer and the listener's scheme. -/
theorem states_applyForwardedHeaders (hpeer : trusts trusted peer = false)
    {originalHost : Option HeaderValue} {host : Text}
    (hhost : originalHost.bind HeaderValue.toStr = some host) (headers : HeaderMap) :
    States peer https (applyForwardedHeaders trusted headers peer peer originalHost https) := by
  rw [applyForwardedHeaders_of_untrusted hpeer hhost]
  obtain ⟨address, haddress, haddressText⟩ := fromStr_formatIpAddr peer
  obtain ⟨scheme, hscheme, hschemeText⟩ := fromStr_schemeText https
  constructor
  · rw [getAll_setText _ (by decide), getAll_setText _ (by decide), getAll_setText _ (by decide),
      getAll_setText_self haddress, List.map_singleton, haddressText]
  · rw [getAll_setText _ (by decide), getAll_setText _ (by decide), getAll_setText_self haddress,
      List.map_singleton, haddressText]
  · rw [getAll_setText _ (by decide), getAll_setText_self hscheme, List.map_singleton, hschemeText]
    rfl
  · intro claim hclaim
    have hapart : ∀ claim ∈ clientClaims, claim ≠ forwardedForHeader ∧ claim ≠ realIpHeader ∧
        claim ≠ forwardedProtoHeader ∧ claim ≠ forwardedHostHeader := by
      decide
    obtain ⟨hfor, hreal, hproto, hforwardedHost⟩ := hapart claim hclaim
    rw [getAll_setText _ hforwardedHost, getAll_setText _ hproto, getAll_setText _ hreal,
      getAll_setText _ hfor, HeaderMap.getAll_removeAll, if_pos hclaim]

theorem states_toReqwestHeaders {headers : HeaderMap} (hstates : States peer https headers) :
    States peer https (toReqwestHeaders headers) where
  forwardedFor := hstates.forwardedFor
  realIp := hstates.realIp
  forwardedProto := hstates.forwardedProto
  unclaimed claim hclaim := by
    change (if isHeaderName claim then headers.getAll claim else []) = []
    split
    · exact hstates.unclaimed claim hclaim
    · rfl

theorem states_setText {headers : HeaderMap} (hstates : States peer https headers) {name : Text}
    (hname : name ∉ claimable) (text : Text) : States peer https (setText headers name text) := by
  have hapart {claim : Text} (hclaim : claim ∈ claimable) :
      (setText headers name text).getAll claim = headers.getAll claim :=
    getAll_setText headers (fun (heq : claim = name) => hname (heq ▸ hclaim)) text
  constructor
  · rw [hapart (by decide), hstates.forwardedFor]
  · rw [hapart (by decide), hstates.realIp]
  · rw [hapart (by decide), hstates.forwardedProto]
  · intro claim hclaim
    rw [hapart (List.mem_append_left _ hclaim), hstates.unclaimed claim hclaim]

end Claims

section Paths

variable {trusted : List Cidr} {peer : IpAddr}

/-- An untrusted peer is the client, and its scheme the listener's. -/
theorem take_of_untrusted (hpeer : trusts trusted peer = false) (request : Request)
    (listenerIsTls : Bool) :
    Incoming.take trusted request peer (clientUsedHttps trusted peer request.headers listenerIsTls) =
      { peer := peer, clientIp := peer, method := request.method, path := request.path
        query := request.query, headers := request.headers, https := listenerIsTls } := by
  rw [Incoming.take, resolve, if_pos (Or.inr hpeer), clientUsedHttps, hpeer, Bool.false_and,
    Bool.or_false]

/-- A request served by a site, as it goes on after the gate. -/
def served (trusted : List Cidr) (peer : IpAddr) (listenerIsTls : Bool) (passage : Passage)
    (request : Request) : Incoming :=
  let https := clientUsedHttps trusted peer request.headers listenerIsTls
  let incoming := Incoming.take trusted request peer https
  { incoming with headers := passage.headers incoming.headers }

variable {listenerIsTls : Bool} {passage : Passage} {left right : Request}

theorem get_host_served (hown : passage.OwnHeaders) (request : Request) :
    (served trusted peer listenerIsTls passage request).headers.get hostHeader =
      request.headers.get hostHeader :=
  congrArg List.head? (getAll_passage hown (by decide) (by decide) (by decide) request.headers)

theorem upstreamHeaders_served (hpeer : trusts trusted peer = false) (hown : passage.OwnHeaders)
    (request : Request) :
    upstreamHeaders trusted (served trusted peer listenerIsTls passage request) =
      toReqwestHeaders (applyForwardedHeaders trusted
        ((passage.headers request.headers).removeAll hopHeaders) peer peer
        (request.headers.get hostHeader) listenerIsTls) := by
  rw [upstreamHeaders, get_host_served hown, served, take_of_untrusted hpeer]

theorem upgradeHeaders_served (hpeer : trusts trusted peer = false) (hown : passage.OwnHeaders)
    (request : Request) :
    let incoming := served trusted peer listenerIsTls passage request
    upgradeHeaders trusted incoming.headers incoming.peer incoming.clientIp incoming.https =
      applyForwardedHeaders trusted
        ((passage.headers request.headers).removeAll (hopHeaders.filter fun header =>
          header ≠ "connection".toList ∧ header ≠ "upgrade".toList)) peer peer
        (request.headers.get hostHeader) listenerIsTls := by
  intro incoming
  rw [upgradeHeaders, get_host_served hown]
  simp only [incoming, served, take_of_untrusted hpeer]

/-- A client that is no trusted proxy cannot claim anything: whatever it says of
itself in the headers that do so, the backend is sent the same headers, plain or
with an upgrade, and they state the peer and the listener's scheme. -/
theorem forwarding_ignores_claims (hpeer : trusts trusted peer = false)
    (hagree : left.headers.AgreeExcept claimable right.headers)
    (hhost : (requestHost left.headers).isSome) (hown : passage.OwnHeaders) (address : Text) :
    let sent := served trusted peer listenerIsTls passage
    upstreamHeaders trusted (sent left) = upstreamHeaders trusted (sent right) ∧
      upgradeRequestHeaders trusted (sent left) address =
        upgradeRequestHeaders trusted (sent right) address ∧
      States peer listenerIsTls (upstreamHeaders trusted (sent left)) ∧
      States peer listenerIsTls (upgradeRequestHeaders trusted (sent left) address) := by
  intro sent
  obtain ⟨host, hhost⟩ := toStr_of_requestHost hhost
  have hsame : left.headers.get hostHeader = right.headers.get hostHeader :=
    hagree.get (by decide)
  have hpassage := agreeExcept_passage hagree (by decide) passage
  have hupgrade : upgradeRequestHeaders trusted (sent left) address =
      upgradeRequestHeaders trusted (sent right) address := by
    rw [upgradeRequestHeaders, upgradeRequestHeaders, upgradeHeaders_served hpeer hown,
      upgradeHeaders_served hpeer hown, ← hsame,
      applyForwardedHeaders_congr hpeer hhost (hpassage.removeAll _)]
  refine ⟨?_, hupgrade, ?_, ?_⟩
  · rw [upstreamHeaders_served hpeer hown, upstreamHeaders_served hpeer hown, ← hsame,
      applyForwardedHeaders_congr hpeer hhost (hpassage.removeAll _)]
  · rw [upstreamHeaders_served hpeer hown]
    exact states_toReqwestHeaders (states_applyForwardedHeaders hpeer hhost _)
  · rw [upgradeRequestHeaders, upgradeHeaders_served hpeer hown]
    have hstates (headers : HeaderMap) : States peer listenerIsTls
        (applyForwardedHeaders trusted headers peer peer (left.headers.get hostHeader)
          listenerIsTls) := states_applyForwardedHeaders hpeer hhost headers
    split
    · exact states_setText (hstates _) (by decide) address
    · exact hstates _

/-- A visitor's request for the shop. -/
def shopRequest : Request where
  method := "GET".toList
  path := "/".toList
  query := none
  headers :=
    { getAll := fun name =>
        if name = hostHeader then
          [{ bytes := Text.bytes "shop.example".toList, legal := by decide +kernel }]
        else [] }

/-- The same request from a visitor who claims to be at another address. -/
def forgedRequest : Request where
  method := "GET".toList
  path := "/".toList
  query := none
  headers := setText shopRequest.headers forwardedForHeader "198.51.100.1".toList

theorem forwarding_ignores_claims_of_visitor :
    let sent := served [] (.v4 0xcb007107#32) true .unasked
    upstreamHeaders [] (sent forgedRequest) = upstreamHeaders [] (sent shopRequest) ∧
      upgradeRequestHeaders [] (sent forgedRequest) "127.0.0.1:80".toList =
        upgradeRequestHeaders [] (sent shopRequest) "127.0.0.1:80".toList ∧
      States (.v4 0xcb007107#32) true (upstreamHeaders [] (sent forgedRequest)) ∧
      States (.v4 0xcb007107#32) true
        (upgradeRequestHeaders [] (sent forgedRequest) "127.0.0.1:80".toList) := by
  have hagree : forgedRequest.headers.AgreeExcept claimable shopRequest.headers := by
    intro name hname
    have hfor : forwardedForHeader ∈ claimable := by decide
    have hne : name ≠ forwardedForHeader := fun heq => hname (heq ▸ hfor)
    rw [forgedRequest, getAll_setText _ hne]
  have hhost : (requestHost forgedRequest.headers).isSome := by decide +kernel
  have hunasked : Passage.OwnHeaders .unasked := trivial
  exact forwarding_ignores_claims rfl hagree hhost hunasked _

end Paths

end EasyWaf.Proxy.Forward
