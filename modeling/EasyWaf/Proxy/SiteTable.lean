import EasyWaf.Core.HashMap
import EasyWaf.Core.Load
import EasyWaf.Db.Queries
import EasyWaf.Gateway.Settings
import EasyWaf.RateLimit
import EasyWaf.Upstream

/-!
# The site table

What `load_sites` reads: every site with its pool, its aliases, and what it asks
of its visitors.  A read that fails makes the whole reload give up.
-/

namespace EasyWaf.Proxy

open EasyWaf.Core EasyWaf.Db Gateway

/-- What the proxy needs of a site to serve a request. -/
structure SiteRow where
  id : ℤ
  name : Text
  upstreams : List Upstream.Backend
  tlsPort : Option ℤ
  hasCert : Bool
  tlsRedirect : Bool
  hsts : Bool
  xFrame : Bool
  xFrameValue : Text
  xContentType : Bool
  xssProtection : Bool
  affinity : Bool
  policyId : Option ℤ
  ruleEngine : Option Text
  smartProtect : Bool
  backendTlsInsecure : Bool
  /-- What the site asks of its visitors, when it asks them to sign in. -/
  auth : Option Gateway.SiteAuth
  rateLimit : Option RateLimit.Limit

/-- The sites by the names they answer to, and the names of disabled sites. -/
structure Sites where
  enabled : HashMap Text SiteRow
  disabled : List Text

def Sites.empty : Sites where
  enabled := HashMap.empty
  disabled := []

/-- The sites as of one generation. -/
structure SiteTable extends Sites where
  generation : ℕ

section Queries

/-- A site with what the query's subselects add to it. -/
structure SiteColumns where
  site : Site
  pool : Option Text
  hasCert : Bool
  ruleEngine : Option Text
  smartProtect : Option Bool

/-- `group_concat(id || ' ' || url || ' ' || weight, char(10))`. -/
def pool (db : Database) (siteId : ℤ) : Option Text :=
  let rows := db.upstreams.filter fun row => row.siteId = siteId ∧ row.enabled
  if rows = [] then none
  else some (Text.join ['\n'] (rows.map fun row =>
    Text.formatInt row.id ++ [' '] ++ row.url ++ [' '] ++ Text.formatInt row.weight))

/-- `trim(COALESCE(column, '')) <> ''`, which trims spaces only. -/
def isFilled (column : Option Text) : Bool := (column.getD []).any (· != ' ')

def hasCert (db : Database) (site : Site) : Bool :=
  db.certs.any fun cert =>
    site.certId == some cert.id && isFilled cert.certPem && isFilled cert.keyPem

def siteColumns (db : Database) : List SiteColumns :=
  (orderById (·.id) db.sites).map fun site =>
    let policy := db.policies.find? fun policy => site.wafPolicyId = some policy.id
    { site
      pool := pool db site.id
      hasCert := hasCert db site
      ruleEngine := policy.map (·.ruleEngine)
      smartProtect := policy.map (·.smartProtect) }

def aliasRows (db : Database) : List (ℤ × Text) :=
  (orderById (·.id) db.siteAliases).map fun row => (row.siteId, row.name)

end Queries

variable (libraries : Libraries)

/-- The accounts of each realm by name. -/
def usersOf (rows : List AuthUser) (realmId : ℤ) : Text → Option LocalUser :=
  HashMap.ofRows (·.username)
    (fun row => { passwordHash := row.passwordHash, enabled := row.enabled, epoch := row.epoch })
    (rows.filter (·.realmId = realmId))

/-- A realm with its accounts; a directory whose settings do not read is one
nobody can sign in through. -/
def readRealm (users : List AuthUser) (row : AuthRealm) : Realm where
  id := row.id
  name := row.name
  kind :=
    if row.kind = "ldap".toList then
      .ldap ((libraries.ldapConfigFromJson row.config).getD LdapConfig.default)
    else .localAccounts
  session := minutes row.sessionMinutes
  idle := minutes row.idleMinutes
  epoch := row.epoch
  users := usersOf users row.id

def realmsOf (users : List AuthUser) (rows : List AuthRealm) : HashMap ℤ Realm :=
  HashMap.ofRows (·.id) (readRealm libraries users) rows

def readSiteAuth (row : Db.SiteAuth) (realm : Realm) : Gateway.SiteAuth where
  realm := realm
  protect := parsePrefixes row.paths
  bypass := parsePrefixes row.bypass
  basic := row.basic
  captcha := row.captcha
  userHeader := header row.userHeader "x-forwarded-user".toList
  groupsHeader := header row.groupsHeader "x-forwarded-groups".toList

/-- One more site that asks; one whose realm is not there is passed over. -/
def addAsk (realms : HashMap ℤ Realm) (out : HashMap ℤ Gateway.SiteAuth) (row : Db.SiteAuth) :
    HashMap ℤ Gateway.SiteAuth :=
  match realms row.realmId with
  | none => out
  | some realm => out.insert row.siteId (readSiteAuth row realm)

/-- What each site asks, by site. -/
def asksOf (sites : List Db.SiteAuth) (realms : HashMap ℤ Realm) : HashMap ℤ Gateway.SiteAuth :=
  sites.foldl (addAsk realms) HashMap.empty

/-- One site of the table. -/
def siteRow (columns : SiteColumns) (asks : HashMap ℤ Gateway.SiteAuth) : SiteRow where
  id := columns.site.id
  name := columns.site.name
  upstreams := Upstream.parsePool (columns.pool.getD [])
  tlsPort := columns.site.tlsPort
  hasCert := columns.hasCert
  tlsRedirect := columns.site.tlsRedirect
  hsts := columns.site.hsts
  xFrame := columns.site.xFrame
  xFrameValue := columns.site.xFrameValue
  xContentType := columns.site.xContentType
  xssProtection := columns.site.xssProtection
  affinity := columns.site.affinity
  policyId := columns.site.wafPolicyId
  ruleEngine := columns.ruleEngine
  smartProtect := columns.smartProtect.getD false
  backendTlsInsecure := columns.site.backendTlsInsecure
  auth := asks columns.site.id
  rateLimit := RateLimit.Limit.of columns.site.rateLimitMode columns.site.rateLimitRequests
    columns.site.rateLimitWindow columns.site.rateLimitAction

/-- A site's own name, then its aliases. -/
def namesOf (aliases : List (ℤ × Text)) (site : Site) : List Text :=
  site.serverName :: (aliases.filter (·.1 = site.id)).map (·.2)

/-- One more site; the oldest keeps a name two of them claim. -/
def addSite (aliases : List (ℤ × Text)) (asks : HashMap ℤ Gateway.SiteAuth) (table : Sites)
    (columns : SiteColumns) : Sites :=
  let names := namesOf aliases columns.site
  if columns.site.enabled then
    { table with
      enabled := names.foldl (fun map name => map.orInsert name (siteRow columns asks))
        table.enabled }
  else { table with disabled := table.disabled ++ names }

def buildTable (rows : List SiteColumns) (aliases : List (ℤ × Text))
    (asks : HashMap ℤ Gateway.SiteAuth) : Sites :=
  let table := rows.foldl (addSite aliases asks) Sites.empty
  { table with disabled := table.disabled.filter fun name => (table.enabled name).isNone }

section Contents

/-- Every row of the table is a site as the queries found it. -/
theorem enabled_buildTable {rows : List SiteColumns} {aliases : List (ℤ × Text)}
    {asks : HashMap ℤ Gateway.SiteAuth} {name : Text} {row : SiteRow}
    (hrow : (buildTable rows aliases asks).enabled name = some row) :
    ∃ columns ∈ rows, row = siteRow columns asks := by
  have hnames (columns : SiteColumns) (names : List Text) (map : HashMap Text SiteRow)
      (hname : names.foldl (fun map name => map.orInsert name (siteRow columns asks)) map name =
        some row) : row = siteRow columns asks ∨ map name = some row := by
    induction names generalizing map with
    | nil => exact .inr hname
    | cons _ names ih =>
        rcases ih _ hname with hnew | hbefore
        · exact .inl hnew
        · exact HashMap.orInsert_eq_some hbefore
  have hsites (rows : List SiteColumns) (table : Sites)
      (hname : (rows.foldl (addSite aliases asks) table).enabled name = some row) :
      (∃ columns ∈ rows, row = siteRow columns asks) ∨ table.enabled name = some row := by
    induction rows generalizing table with
    | nil => exact .inr hname
    | cons columns rows ih =>
        rcases ih _ hname with ⟨columns', hmem, hnew⟩ | hbefore
        · exact .inl ⟨columns', List.mem_cons_of_mem _ hmem, hnew⟩
        · unfold addSite at hbefore
          split at hbefore
          · rcases hnames columns _ _ hbefore with hnew | hbefore
            · exact .inl ⟨columns, List.mem_cons_self, hnew⟩
            · exact .inr hbefore
          · exact .inr hbefore
  rcases hsites rows Sites.empty hrow with hnew | hempty
  · exact hnew
  · simp [Sites.empty, HashMap.empty] at hempty

theorem isSome_addAsk {realms : HashMap ℤ Realm} {out : HashMap ℤ Gateway.SiteAuth}
    {siteId : ℤ} (row : Db.SiteAuth) (hsome : (out siteId).isSome) :
    (addAsk realms out row siteId).isSome := by
  unfold addAsk
  cases realms row.realmId with
  | none => exact hsome
  | some realm => exact HashMap.isSome_insert hsome

theorem isSome_addAsk_self {realms : HashMap ℤ Realm} (out : HashMap ℤ Gateway.SiteAuth)
    {row : Db.SiteAuth} (hrealm : (realms row.realmId).isSome) :
    (addAsk realms out row row.siteId).isSome := by
  obtain ⟨realm, hrealm⟩ := Option.isSome_iff_exists.mp hrealm
  simp [addAsk, hrealm]

/-- A site asks where its realm is there. -/
theorem isSome_asksOf {sites : List Db.SiteAuth} {realms : HashMap ℤ Realm} {row : Db.SiteAuth}
    (hrow : row ∈ sites) (hrealm : (realms row.realmId).isSome) :
    (asksOf sites realms row.siteId).isSome := by
  have hfold (sites : List Db.SiteAuth) (out : HashMap ℤ Gateway.SiteAuth)
      (hsite : (out row.siteId).isSome ∨ row ∈ sites) :
      (sites.foldl (addAsk realms) out row.siteId).isSome := by
    induction sites generalizing out with
    | nil => simpa using hsite
    | cons head tail ih =>
        refine ih _ ?_
        rcases hsite with hsome | hmem
        · exact .inl (isSome_addAsk head hsome)
        · rcases List.mem_cons.mp hmem with rfl | htail
          · exact .inl (isSome_addAsk_self out hrealm)
          · exact .inr htail
  exact hfold sites HashMap.empty (.inr hrow)

end Contents

section Loaders

variable {World : Type} (db : World → Database)

/-- `load_site_auth` once it has read which sites ask. -/
def loadRealms (sites : List Db.SiteAuth) : Load World (HashMap ℤ Gateway.SiteAuth) := do
  let users ← Load.readOrRefuse fun world => (db world).authUsers
  let realms ← Load.readOrRefuse fun world => (db world).authRealms
  return asksOf sites (realmsOf libraries users realms)

def loadSiteAuth : Load World (HashMap ℤ Gateway.SiteAuth) := do
  let sites ← Load.readOrRefuse fun world => (db world).siteAuth
  if sites = [] then return HashMap.empty else loadRealms libraries db sites

/-- `load_sites`, less the generation its table is kept under. -/
def loadSites : Load World Sites := do
  let rows ← Load.readOrRefuse fun world => siteColumns (db world)
  let aliases ← Load.readOrRefuse fun world => aliasRows (db world)
  let asks ← loadSiteAuth libraries db
  return buildTable rows aliases asks

end Loaders

/-- Keep a table unless the one held is of a newer generation. -/
def keepTable (held : Option SiteTable) (generation : ℕ) (loaded : Sites) : Option SiteTable :=
  match held with
  | some table =>
      if table.generation ≤ generation then some { loaded with generation } else held
  | none => some { loaded with generation }

/-- The table held, if it is of this generation. -/
def lookupTable (held : Option SiteTable) (generation : ℕ) : Option Sites :=
  match held with
  | some table => if table.generation = generation then some table.toSites else none
  | none => none

/-- What a reload that gave up serves. -/
def fallbackTable (held : Option SiteTable) : Sites :=
  (held.map (·.toSites)).getD Sites.empty

/-- A table read at an older generation is not kept. -/
theorem keepTable_of_lt {held : Option SiteTable} {generation : ℕ} (loaded : Sites)
    (holder : generation < (held.map (·.generation)).getD 0) :
    keepTable held generation loaded = held := by
  cases held with
  | none => simp at holder
  | some table =>
      have holder : generation < table.generation := holder
      simp [keepTable, holder]

theorem generation_le_keepTable (held : Option SiteTable) (generation : ℕ) (loaded : Sites) :
    (held.map (·.generation)).getD 0 ≤
      ((keepTable held generation loaded).map (·.generation)).getD 0 := by
  cases held with
  | none => exact Nat.zero_le _
  | some table =>
      simp only [keepTable]
      split
      · next hle => exact hle
      · exact le_refl _

/-- After a table is kept, no older one is served. -/
theorem le_generation_keepTable (held : Option SiteTable) (generation : ℕ) (loaded : Sites) :
    generation ≤ ((keepTable held generation loaded).map (·.generation)).getD 0 := by
  cases held with
  | none => exact le_refl _
  | some table =>
      simp only [keepTable]
      split
      · exact le_refl _
      · next hnewer => exact (not_le.mp hnewer).le

theorem lookupTable_keepTable {held : Option SiteTable} {generation generation' : ℕ}
    {loaded sites : Sites}
    (hlookup : lookupTable (keepTable held generation loaded) generation' = some sites) :
    (generation' = generation ∧ sites = loaded) ∨ lookupTable held generation' = some sites := by
  have hown (hown : lookupTable (some { loaded with generation }) generation' = some sites) :
      generation' = generation ∧ sites = loaded := by
    simp only [lookupTable] at hown
    split at hown
    · next hsame => exact ⟨hsame.symm, (Option.some.inj hown).symm⟩
    · simp at hown
  unfold keepTable at hlookup
  split at hlookup
  · split at hlookup
    · exact .inl (hown hlookup)
    · exact .inr hlookup
  · exact .inl (hown hlookup)

end EasyWaf.Proxy
