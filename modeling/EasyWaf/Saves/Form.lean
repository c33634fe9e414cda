import EasyWaf.Core.Procedure
import EasyWaf.Db.Queries

/-!
# Saving a site

`post_site_create` and `post_site_update` once the fields of the form are read:
one statement after another, each on its own, over the site's row, its backends,
its extra ports, its aliases, its rate limit and its sign-in.
-/

namespace EasyWaf.Saves

open EasyWaf.Core Procedure Db
open Relational.Schema (insertRows updateRows deleteRows)

/-- A backend as one line of the Upstream field describes it. -/
structure Backend where
  url : Text
  weight : ℤ
  enabled : Bool
  deriving DecidableEq

structure RateLimit where
  mode : Text
  requests : ℤ
  window : ℤ
  action : Text
  deriving DecidableEq

structure SignIn where
  realm : Text
  paths : Text
  bypass : Text
  basic : Bool
  captcha : Bool
  userHeader : Text
  groupsHeader : Text
  deriving DecidableEq

/-- What the fields of a site's form come to. -/
structure Settings where
  serverName : Text
  listenPort : ℤ
  tlsPort : Option ℤ
  certId : Option ℤ
  tlsRedirect : Bool
  wafPolicyId : Option ℤ
  hsts : Bool
  xFrame : Bool
  xFrameValue : Text
  xContentType : Bool
  xssProtection : Bool
  affinity : Bool
  backendTlsInsecure : Bool
  aliases : List Text
  upstreams : List Backend
  /-- The same backend twice in one field is one. -/
  upstreams_nodup : (upstreams.map (·.url)).Nodup
  extraHttp : List ℤ
  extraHttps : List ℤ
  rateLimit : RateLimit
  /-- `None`: the site asks nobody. -/
  signIn : Option SignIn
  deriving DecidableEq

/-- The extra ports, in the order they are stored. -/
def Settings.extras (settings : Settings) : List (ℤ × Bool) :=
  settings.extraHttp.map (·, false) ++ settings.extraHttps.map (·, true)

/-- A row of `site_ports`. -/
structure SitePort where
  siteId : ℤ
  port : ℤ
  tls : Bool
  deriving DecidableEq

/-- The tables the proxy reads, the ports it does not read of a site, and the next
row id of the tables a save adds to. -/
structure Store where
  db : Database
  /-- `listen_port` of each site. -/
  listenPorts : List (ℤ × ℤ)
  sitePorts : List SitePort
  nextSite : ℤ
  nextUpstream : ℤ
  nextAlias : ℤ

inductive Answer
  /-- A field or a name is refused. -/
  | refused
  /-- A statement failed. -/
  | failed
  | saved
  /-- Saved, with the note that the sign-in was not. -/
  | signInLeft
  deriving DecidableEq

abbrev Save := Procedure Store Bool Answer

section SiteRow

/-- The columns a save sets in `sites`. -/
def savedColumns : List Text :=
  ["server_name".toList, "listen_port".toList, "tls_port".toList, "cert_id".toList,
    "tls_redirect".toList, "waf_policy_id".toList, "hsts".toList, "x_frame".toList,
    "x_frame_value".toList, "x_content_type".toList, "xss_protection".toList, "affinity".toList,
    "backend_tls_insecure".toList, "updated_at".toList]

def Settings.onSite (settings : Settings) (site : Site) : Site :=
  { site with
    serverName := settings.serverName
    tlsPort := settings.tlsPort
    certId := settings.certId
    tlsRedirect := settings.tlsRedirect
    wafPolicyId := settings.wafPolicyId
    hsts := settings.hsts
    xFrame := settings.xFrame
    xFrameValue := settings.xFrameValue
    xContentType := settings.xContentType
    xssProtection := settings.xssProtection
    affinity := settings.affinity
    backendTlsInsecure := settings.backendTlsInsecure }

/-- A row of `sites` where every column has its default. -/
def blankSite (id : ℤ) (name : Text) : Site where
  id := id
  name := name
  serverName := []
  enabled := true
  tlsPort := none
  certId := none
  tlsRedirect := false
  hsts := false
  xFrame := false
  xFrameValue := "SAMEORIGIN".toList
  xContentType := false
  xssProtection := false
  affinity := false
  wafPolicyId := none
  backendTlsInsecure := false
  rateLimitMode := "Off".toList
  rateLimitRequests := 600
  rateLimitWindow := 60
  rateLimitAction := "block".toList

/-- `INSERT INTO sites`. -/
def insertSite (name : Text) (settings : Settings) (store : Store) : Store :=
  { store with
    db := insertRows store.db .sites [settings.onSite (blankSite store.nextSite name)]
    listenPorts := store.listenPorts ++ [(store.nextSite, settings.listenPort)]
    nextSite := store.nextSite + 1 }

/-- `UPDATE sites SET … WHERE name = ?`. -/
def updateSite (name : Text) (settings : Settings) (store : Store) : Store :=
  { store with
    db := updateRows store.db .sites savedColumns settings.onSite (·.name = name)
    listenPorts := store.listenPorts.map fun listen =>
      if store.db.sites.any fun site => site.id = listen.1 ∧ site.name = name then
        (listen.1, settings.listenPort)
      else listen }

end SiteRow

section Pool

/-- The rows of a site's pool. -/
def Store.poolOf (store : Store) (siteId : ℤ) : List Upstream :=
  store.db.upstreams.filter (·.siteId = siteId)

/-- `UPDATE upstreams SET weight = ?, enabled = ? WHERE id = ?`. -/
def changeBackend (id : ℤ) (backend : Backend) (store : Store) : Store :=
  { store with
    db := updateRows store.db .upstreams ["weight".toList, "enabled".toList]
      (fun row => { row with weight := backend.weight, enabled := backend.enabled }) (·.id = id) }

/-- `INSERT INTO upstreams`. -/
def addBackend (siteId : ℤ) (backend : Backend) (store : Store) : Store :=
  { store with
    db := insertRows store.db .upstreams
      [⟨store.nextUpstream, siteId, backend.url, backend.weight, backend.enabled⟩]
    nextUpstream := store.nextUpstream + 1 }

/-- `DELETE FROM upstreams WHERE id = ?`. -/
def dropBackend (id : ℤ) (store : Store) : Store :=
  { store with db := deleteRows depth store.db .upstreams (·.id = id) }

/-- What is done about one wanted backend. -/
def poolStatement (siteId : ℤ) (existing : List Upstream) (backend : Backend) :
    Option (Store → Store) :=
  match existing.find? (·.url = backend.url) with
  | some row =>
      if row.weight ≠ backend.weight ∨ row.enabled ≠ backend.enabled then
        some (changeBackend row.id backend)
      else none
  | none => some (addBackend siteId backend)

/-- The statements of `apply_pool`, from the rows it has read. -/
def poolStatements (siteId : ℤ) (wanted : List Backend) (existing : List Upstream) :
    List (Store → Store) :=
  wanted.filterMap (poolStatement siteId existing) ++
    (existing.filter fun row => wanted.all (·.url ≠ row.url)).map (dropBackend ·.id)

end Pool

section Rest

/-- `DELETE FROM site_ports WHERE site_id = ?`. -/
def dropPorts (siteId : ℤ) (store : Store) : Store :=
  { store with sitePorts := store.sitePorts.filter (·.siteId ≠ siteId) }

/-- `INSERT INTO site_ports … ON CONFLICT DO NOTHING`. -/
def addPort (siteId : ℤ) (extra : ℤ × Bool) (store : Store) : Store :=
  let row : SitePort := ⟨siteId, extra.1, extra.2⟩
  { store with sitePorts := if row ∈ store.sitePorts then store.sitePorts else store.sitePorts ++ [row] }

/-- `save_extra_ports`. -/
def portStatements (siteId : ℤ) (extras : List (ℤ × Bool)) : List (Store → Store) :=
  dropPorts siteId :: extras.map (addPort siteId)

/-- New rows of `site_aliases`. -/
def newAliases (siteId : ℤ) : ℤ → List Text → List SiteAlias
  | _, [] => []
  | next, name :: names => ⟨next, siteId, name⟩ :: newAliases siteId (next + 1) names

/-- `save_aliases`, which is one transaction. -/
def saveAliases (siteId : ℤ) (aliases : List Text) (store : Store) : Store :=
  { store with
    db := insertRows (deleteRows depth store.db .siteAliases (·.siteId = siteId)) .siteAliases
      (newAliases siteId store.nextAlias aliases)
    nextAlias := store.nextAlias + aliases.length }

def RateLimit.onSite (limit : RateLimit) (site : Site) : Site :=
  { site with
    rateLimitMode := limit.mode
    rateLimitRequests := limit.requests
    rateLimitWindow := limit.window
    rateLimitAction := limit.action }

/-- `save_rate_limit`. -/
def saveRateLimit (siteId : ℤ) (limit : RateLimit) (store : Store) : Store :=
  { store with
    db := updateRows store.db .sites ["rate_limit_mode".toList, "rate_limit_requests".toList,
      "rate_limit_window".toList, "rate_limit_action".toList] limit.onSite (·.id = siteId) }

/-- `DELETE FROM site_auth WHERE site_id = ?`. -/
def dropSignIn (siteId : ℤ) (store : Store) : Store :=
  { store with db := deleteRows depth store.db .siteAuth (·.siteId = siteId) }

def SignIn.row (signIn : SignIn) (siteId realmId : ℤ) : SiteAuth where
  siteId := siteId
  realmId := realmId
  paths := signIn.paths
  bypass := signIn.bypass
  basic := signIn.basic
  captcha := signIn.captcha
  userHeader := signIn.userHeader
  groupsHeader := signIn.groupsHeader

/-- `INSERT INTO site_auth … ON CONFLICT(site_id) DO UPDATE`. -/
def putSignIn (siteId realmId : ℤ) (signIn : SignIn) (store : Store) : Store :=
  { store with
    db :=
      if store.db.siteAuth.any (·.siteId = siteId) then
        updateRows store.db .siteAuth ["realm_id".toList, "paths".toList, "bypass".toList,
          "basic".toList, "captcha".toList, "user_header".toList, "groups_header".toList]
          (fun _ => signIn.row siteId realmId) (·.siteId = siteId)
      else insertRows store.db .siteAuth [signIn.row siteId realmId] }

/-- `save_sign_in`.  The two queries after the row is written are for a note. -/
def saveSignIn (siteId : ℤ) : Option SignIn → Save
  | none => statement (dropSignIn siteId) (fun _ => .done .saved) .failed
  | some signIn =>
      query (fun store =>
        match store.db.authRealms.find? (·.name = signIn.realm) with
        | none => .done .signInLeft
        | some realm =>
            statement (putSignIn siteId realm.id signIn)
              (fun _ => query (fun _ => .done .saved) .failed) .failed)
        .failed

end Rest

section Handlers

/-- Statements one after another, and what comes after them. -/
def chain (statements : List (Store → Store)) (rest : Save) : Save :=
  statements.foldr (fun effect rest => statement effect (fun _ => rest) .failed) rest

/-- What both handlers do once the site has its row. -/
def saveParts (siteId : ℤ) (settings : Settings) : Save :=
  query (fun store =>
    chain (poolStatements siteId settings.upstreams (store.poolOf siteId)) <|
    chain (portStatements siteId settings.extras) <|
    statement (saveAliases siteId settings.aliases) (fun _ =>
      statement (saveRateLimit siteId settings.rateLimit) (fun _ =>
        saveSignIn siteId settings.signIn) .failed) .failed)
    .failed

/-- The realm a form names is there, or it names none. -/
def realmKnown (settings : Settings) (store : Store) : Bool :=
  settings.signIn.all fun signIn => store.db.authRealms.any (·.name = signIn.realm)

/-- `post_site_create`, up to a certificate it may ask for. -/
def postSiteCreate (name : Text) (settings : Settings) : Save :=
  query (fun store =>
    if store.db.sites.any fun site => site.name = name ∨ site.serverName = settings.serverName then
      .done .refused
    else
      query (fun store =>
        if realmKnown settings store then
          statement (insertSite name settings) (fun store => saveParts store.nextSite settings)
            .failed
        else .done .refused)
        .failed)
    .failed

/-- `post_site_update`. -/
def postSiteUpdate (name : Text) (settings : Settings) : Save :=
  query (fun store =>
    match store.db.sites.find? (·.name = name) with
    | none => .done .failed
    | some current =>
        query (fun store =>
          if realmKnown settings store then
            statement (updateSite name settings) (fun _ => saveParts current.id settings)
              .failed
          else .done .refused)
          .failed)
    .failed

end Handlers

end EasyWaf.Saves
