import EasyWaf.Core.Interleaving
import EasyWaf.Proxy.SiteTable
import EasyWaf.Routes.SiteFields
import EasyWaf.Text.Utf8
import EasyWaf.Tls.Certificates

/-!
# What writes sites and certificates

The handlers of sites and certificates, the requests for a certificate and the
sweep that renews them, each an order of queries, statements and rebuilds of the
map.  A query answers with the tables as they are, and the handler takes from
them what it asked for.

Beside the tables and the map stands what was last done with each certificate by
hand: which one was uploaded, or that it was deleted.
-/

namespace EasyWaf.Tls

open EasyWaf.Core EasyWaf.Core.Program EasyWaf.Routes

/-- Who stores a certificate. -/
inductive Source
  | upload
  | request
  | renewal
  deriving DecidableEq

structure Store (Key : Type) where
  tables : Tables
  /-- The names and certificates the listeners use. -/
  map : HashMap Text Key
  /-- The certificate last uploaded under a name, or that it was deleted, where no
  request was made for one since. -/
  hand : HashMap Text (Option Certificate)

inductive Op (Key : Type)
  | read
  /-- The query of `reload`. -/
  | rows
  /-- `*certs().write() = map`. -/
  | store (map : HashMap Text Key)
  | execute (statement : Statement)
  | storeCert (source : Source) (certificate : Certificate)
  /-- `SELECT id FROM certs WHERE name = ?`. -/
  | certId (name : Text)
  /-- `acme::issue`. -/
  | issue (domains : List Text)
  | acmeConfigured
  | renewHere
  | managementCert
  | now

abbrev Answer {Key : Type} : Op Key → Type
  | .read => Option Tables
  | .rows => Option (List TlsRow)
  | .store _ => Unit
  | .execute _ => Option ℤ
  | .storeCert _ _ => Option Unit
  | .certId _ => Option ℤ
  | .issue _ => Option (Text × Text)
  | .acmeConfigured => Option Bool
  | .renewHere => Bool
  | .managementCert => Text
  | .now => ℤ

inductive Choice
  | works
  | fails
  | issued (certPem keyPem : Text)
  | tells (flag : Bool)
  | names (text : Text)
  | at (time : ℤ)
  deriving DecidableEq

/-- What rustls, x509-parser and chrono make of the texts they are given; times are
in nanoseconds. -/
structure Certificates (Key : Type) where
  certifiedKey : Text → Text → Option Key
  validatePem : Text → Text → Bool
  /-- The domain and the dates of a certificate, for an upload. -/
  parseCertPem : Text → Option Text × Option Text × Option Text
  /-- The dates of a certificate that was issued. -/
  inspect : Text → Option (Text × Text)
  parseRfc3339 : Text → Option ℤ
  parseNotAfter : Text → Option ℤ
  toRfc3339 : ℤ → Text

section Effect

variable {Key : Type} (libraries : Libraries) (certificates : Certificates Key)
variable (arrange : List TlsRow → List TlsRow)

/-- What the statement of each writes: that of an upload has no domain to renew for. -/
def Source.written : Source → Certificate → Certificate
  | .upload, certificate => { certificate with acmeDomain := none }
  | _, certificate => certificate

namespace Store

/-- What `reload` would build now. -/
def built (store : Store Key) : HashMap Text Key :=
  build libraries certificates.certifiedKey arrange store.tables

/-- The map is what the tables give. -/
def Current (store : Store Key) : Prop := store.map = store.built libraries certificates arrange

/-- What is remembered of a certificate once it is stored. -/
def remember (store : Store Key) (source : Source) (name : Text) (tables : Tables) :
    HashMap Text (Option Certificate) :=
  match source with
  | .upload => store.hand.insert name ((tables.cert name).map (·.toCertificate))
  | .request => Function.update store.hand name none
  | .renewal => store.hand

/-- What a statement leaves. -/
def carryOut (store : Store Key) (tables : Tables) : Statement → Store Key
  | .deleteCert name => { store with tables, hand := store.hand.insert name none }
  | _ => { store with tables }

end Store

/-- What an operation answers and leaves, where the world may so choose. -/
def effect (op : Op Key) (choice : Choice) (store : Store Key) :
    Option (Answer op × Store Key) :=
  match op, choice with
  | .read, .works => some (some store.tables, store)
  | .read, .fails => some (none, store)
  | .rows, .works =>
      some (some (arrange (tlsRows store.tables.sites store.tables.siteAliases
        (store.tables.certs.map fun row => row.toCert))), store)
  | .rows, .fails => some (none, store)
  | .store map, .works => some ((), { store with map })
  | .execute statement, .works =>
      match store.tables.execute statement with
      | some (number, tables) => some (some number, store.carryOut tables statement)
      | none => some (none, store)
  | .execute _, .fails => some (none, store)
  | .storeCert source certificate, .works =>
      let tables := store.tables.storeCert (source.written certificate)
      some (some (), { store with
        tables, hand := store.remember source certificate.name tables })
  | .storeCert _ _, .fails => some (none, store)
  | .certId name, .works => some ((store.tables.cert name).map (·.id), store)
  | .certId _, .fails => some (none, store)
  | .issue domains, .issued certPem keyPem =>
      if domains = [] then none else some (some (certPem, keyPem), store)
  | .issue _, .fails => some (none, store)
  | .acmeConfigured, .tells flag => some (some flag, store)
  | .acmeConfigured, .fails => some (none, store)
  | .renewHere, .tells flag => some (flag, store)
  | .managementCert, .names name => some (name, store)
  | .now, .at time => some (time, store)
  | _, _ => none

end Effect

section Handlers

variable {Key : Type}

abbrev Handler (Key : Type) (Result : Type) := Program (Op Key) Answer Result

def query : Handler Key (Option Tables) := perform Op.read

def execute (statement : Statement) : Handler Key (Option ℤ) := perform (Op.execute statement)

variable (libraries : Libraries) (certificates : Certificates Key)

/-- `reload`. -/
def reload : Handler Key Bool := do
  match ← perform Op.rows with
  | some rows => do
      perform (Op.store (certificateMap libraries certificates.certifiedKey rows))
      pure true
  | none => pure false

/-! ## Certificates -/

/-- The row a certificate is stored as; its number is the table's. -/
def issuedCert (domains : List Text) (name certPem keyPem : Text) : Certificate :=
  let dates := certificates.inspect certPem
  { id := 0
    name
    domain := domains.head?
    notBefore := dates.map (·.1)
    notAfter := dates.map (·.2)
    certPem := some certPem
    keyPem := some keyPem
    acmeDomain := some (Text.join [' '] domains) }

/-- `issue_and_store`. -/
def issueAndStore (source : Source) (domains : List Text) (name : Text) :
    Handler Key (Option ℤ) := do
  match ← perform (Op.issue domains) with
  | some (certPem, keyPem) => do
      match ← perform (Op.storeCert source (issuedCert certificates domains name certPem keyPem)) with
      | some () => do
          match ← perform (Op.certId name) with
          | some id => do
              let rebuilt ← reload libraries certificates
              pure (if rebuilt then some id else none)
          | none => pure none
      | none => pure none
  | none => pure none

structure CertForm where
  name : Text
  certPem : Text
  keyPem : Text
  deriving DecidableEq

def uploadedCert (form : CertForm) : Certificate :=
  let (domain, notBefore, notAfter) := certificates.parseCertPem form.certPem
  { id := 0
    name := form.name.trim
    domain
    notBefore
    notAfter
    certPem := some form.certPem
    keyPem := some form.keyPem
    acmeDomain := none }

/-- `post_cert_create`.  What was there before is read for the message alone. -/
def postCertCreate (form : CertForm) : Handler Key Unit := do
  if form.name.trim = [] ∨ !certificates.validatePem form.certPem form.keyPem then pure ()
  else
    match ← query with
    | some _ => do
        match ← perform (Op.storeCert .upload (uploadedCert certificates form)) with
        | some () => do
            let _ ← reload libraries certificates
        | none => pure ()
    | none => pure ()

/-- The sites a certificate is in use by. -/
def inUse (tables : Tables) (name : Text) : Bool :=
  tables.sites.any fun site =>
    tables.certs.any fun row => site.certId == some row.id && row.name == name

/-- `post_cert_delete`. -/
def postCertDelete (name : Text) : Handler Key Unit := do
  let management ← perform Op.managementCert
  if name = management then pure ()
  else
    match ← query with
    | some tables =>
        if inUse tables name then pure ()
        else do
          match ← execute (.deleteCert name) with
          | some deleted =>
              if deleted = 0 then pure ()
              else do
                let _ ← reload libraries certificates
          | none => pure ()
    | none => pure ()

/-- `trim_start_matches` of a text. -/
def trimStartText (start : Text) : ℕ → Text → Text
  | 0, text => text
  | rounds + 1, text =>
      match Text.stripPrefix start text with
      | some rest => trimStartText start rounds rest
      | none => text

/-- The domain a certificate is requested for. -/
def requestedDomain (raw : Text) : Text :=
  let text := raw.trim
  let text := trimStartText "https://".toList text.length text
  let text := trimStartText "http://".toList text.length text
  libraries.toLowercase (Text.trimEndMatches (· = '.') (upTo ':' (upTo '/' text)))

structure AcmeForm where
  domain : Text
  name : Option Text
  deriving DecidableEq

/-- `post_cert_acme`. -/
def postCertAcme (form : AcmeForm) : Handler Key Unit := do
  let domain := requestedDomain libraries form.domain
  if domain = [] ∨ '.' ∉ domain ∨ domain.head? = some '*' then pure ()
  else
    match ← perform Op.acmeConfigured with
    | some true => do
        let name := match form.name.map Text.trim with
          | some (c :: rest) => c :: rest
          | _ => domain
        let _ ← issueAndStore libraries certificates .request [domain] name
    | _ => pure ()

/-! ## Sites -/

structure SiteForm where
  name : Option Text
  serverName : Text
  aliases : Option Text
  tlsPort : Option ℤ
  extraHttps : List ℤ
  certId : Option ℤ
  acme : Bool
  /-- Ports, upstreams, sign-in and rate limit are accepted. -/
  settingsAccepted : Bool

/-- Both halves of a certificate are there. -/
def usable (tables : Tables) (certId : Option ℤ) : Bool :=
  tables.certs.any fun row =>
    certId == some row.id && Proxy.isFilled row.certPem && Proxy.isFilled row.keyPem

/-- `https_without_certificate`; a query that fails finds no certificate. -/
def httpsWithoutCertificate (form : SiteForm) (acme : Bool) : Handler Key Bool := do
  if (form.tlsPort = none ∧ form.extraHttps = []) ∨ acme then pure false
  else
    let tables ← query
    pure !(tables.any fun tables => usable tables form.certId)

/-- `alias_conflict`: some other site has one of the names, or a query failed. -/
def aliasConflict (exclude : ℤ) : List Text → Handler Key Bool
  | [] => pure false
  | own :: rest => do
      match ← query with
      | some tables =>
          if tables.sites.any fun site => site.serverName == own && site.id != exclude then
            pure true
          else do
            match ← query with
            | some tables =>
                if tables.siteAliases.any fun row => row.name == own && row.siteId != exclude then
                  pure true
                else aliasConflict exclude rest
            | none => pure true
      | none => pure true

/-- The checks of a form whose names are read: its aliases, then the rest. -/
def refuses (form : SiteForm) (exclude : ℤ) (acme : Bool) (aliases : List Text) :
    Handler Key Bool := do
  let clash ← aliasConflict exclude aliases
  if clash ∨ !form.settingsAccepted then pure true
  else httpsWithoutCertificate form acme

/-- `request_cert_for_new_site`. -/
def requestCertForNewSite (siteId : ℤ) (serverName : Text) (aliases : List Text) :
    Handler Key Unit := do
  match ← perform Op.acmeConfigured with
  | some true => do
      match ← issueAndStore libraries certificates .request (serverName :: aliases) serverName with
      | some certId => do
          let _ ← execute (.assignCert siteId certId)
      | none => pure ()
  | _ => pure ()

/-- What `post_site_create` does once the site is there: its pool, extra ports and
aliases, its rate limit and sign-in, and then the certificates. -/
def finishCreate (form : SiteForm) (siteId : ℤ) (serverName : Text) (aliases : List Text) :
    Handler Key Unit := do
  let some _ ← execute .elsewhere | pure ()
  let some _ ← execute .elsewhere | pure ()
  let some _ ← execute (.saveAliases siteId aliases) | pure ()
  let some _ ← execute .elsewhere | pure ()
  let some _ ← execute .elsewhere | pure ()
  let _ ← reload libraries certificates
  if form.acme then requestCertForNewSite libraries certificates siteId serverName aliases
  else pure ()

/-- `post_site_create`. -/
def postSiteCreate (form : SiteForm) : Handler Key Unit := do
  let name := (form.name.getD []).trim
  let serverName := normalizeServerName libraries form.serverName
  if name = [] ∨ serverName = [] ∨ !isHostname serverName then pure ()
  else
    let some tables ← query | pure ()
    if tables.sites.any fun site => site.name == name || site.serverName == serverName then pure ()
    else
      match parseAliases libraries (form.aliases.getD []) serverName with
      | .ok aliases => do
          let refused ← refuses form (-1) form.acme aliases
          if refused then pure ()
          else
            let some siteId ← execute (.insertSite name serverName form.tlsPort form.certId)
              | pure ()
            finishCreate libraries certificates form siteId serverName aliases
      | .error _ => pure ()

/-- What `post_site_update` does once the site is written: its pool, extra ports and
aliases and its rate limit, then the certificates, and its sign-in last. -/
def finishUpdate (siteId : ℤ) (aliases : List Text) : Handler Key Unit := do
  let some _ ← execute .elsewhere | pure ()
  let some _ ← execute .elsewhere | pure ()
  let some _ ← execute (.saveAliases siteId aliases) | pure ()
  let some _ ← execute .elsewhere | pure ()
  let _ ← reload libraries certificates
  let _ ← execute .elsewhere

/-- `post_site_update`. -/
def postSiteUpdate (name : Text) (form : SiteForm) : Handler Key Unit := do
  let serverName := normalizeServerName libraries form.serverName
  if serverName = [] then pure ()
  else
    let some tables ← query | pure ()
    match tables.site name with
    | some current =>
        if serverName ≠ current.serverName ∧ !isHostname serverName then pure ()
        else
          match parseAliases libraries (form.aliases.getD []) serverName with
          | .ok aliases => do
              let refused ← refuses form current.id false aliases
              if refused then pure ()
              else
                let some _ ← execute (.updateSite name serverName form.tlsPort form.certId)
                  | pure ()
                finishUpdate libraries certificates current.id aliases
          | .error _ => pure ()
    | none => pure ()

/-- `post_site_toggle`.  The extra ports are read where the site is announced. -/
def postSiteToggle (name : Text) : Handler Key Unit := do
  let some tables ← query | pure ()
  match tables.site name with
  | some site => do
      let enabled := !site.enabled
      let some _ ← execute (.enableSite name enabled) | pure ()
      if enabled then do
        let _ ← query
        let _ ← reload libraries certificates
      else do
        let _ ← reload libraries certificates
  | none => pure ()

/-- `post_site_delete`. -/
def postSiteDelete (name : Text) : Handler Key Unit := do
  let _ ← execute (.deleteSite name)

/-- `site_names`; a query that fails leaves the hostname alone. -/
def siteNames (siteId : ℤ) (serverName : Text) : Handler Key (List Text) := do
  let tables ← query
  pure (serverName :: (tables.elim [] fun tables =>
    (Db.orderById (·.id) (tables.siteAliases.filter (·.siteId = siteId))).map (·.name)))

/-- `post_site_acme`. -/
def postSiteAcme (name : Text) : Handler Key Unit := do
  let some tables ← query | pure ()
  match tables.site name with
  | some site => do
      match ← perform Op.acmeConfigured with
      | some true => do
          let names ← siteNames site.id site.serverName
          match ← issueAndStore libraries certificates .request names site.serverName with
          | some certId => do
              let _ ← execute (.assignCert site.id certId)
          | none => pure ()
      | _ => pure ()
  | none => pure ()

/-! ## The renewals -/

/-- The hours before another attempt. -/
def backoffHours (failures : ℤ) : ℤ :=
  if failures ≤ 1 then 1
  else if failures = 2 then 2
  else if failures = 3 then 4
  else if failures = 4 then 8
  else if failures = 5 then 12
  else 24

def hour : ℤ := 3600 * 1000000000

def backoff (failures : ℤ) : ℤ := backoffHours failures * hour

/-- `RENEW_AT_DAYS`. -/
def renewAtDays : ℤ := 30

/-- `is_due`. -/
def isDue (row : CertRow) (now : ℤ) : Bool :=
  if (row.nextAttempt.bind certificates.parseRfc3339).any fun next => now < next then false
  else
    match row.notAfter.bind certificates.parseNotAfter with
    | some exp => (exp - now).tdiv (24 * hour) ≤ renewAtDays
    | none => true

/-- The certificates that were issued and are not empty in the column that says so. -/
def renewable (tables : Tables) : List CertRow :=
  tables.certs.filter fun row => Proxy.isFilled row.acmeDomain

/-- One certificate of the sweep. -/
def renew (now : ℤ) (row : CertRow) : Handler Key Unit := do
  if isDue certificates row now then do
    match ← issueAndStore libraries certificates .renewal
        (Text.splitWhitespace (row.acmeDomain.getD [])) row.name with
    | some _ => do
        let _ ← execute (.recordAttempt row.name none 0)
    | none => do
        let failures := row.failures + 1
        let _ ← execute (.recordAttempt row.name
          (some (certificates.toRfc3339 (now + backoff failures))) failures)
  else pure ()

def renewEach (now : ℤ) : List CertRow → Handler Key Unit
  | [] => pure ()
  | row :: rows => do
      renew libraries certificates now row
      renewEach now rows

/-- `renew_due`. -/
def renewDue : Handler Key Unit := do
  let here ← perform Op.renewHere
  if here then do
    match ← query with
    | some tables => do
        let now ← perform Op.now
        renewEach libraries certificates now (renewable tables)
    | none => pure ()
  else pure ()

inductive Request
  | siteCreate (form : SiteForm)
  | siteUpdate (name : Text) (form : SiteForm)
  | siteToggle (name : Text)
  | siteDelete (name : Text)
  | siteAcme (name : Text)
  | certCreate (form : CertForm)
  | certDelete (name : Text)
  | certAcme (form : AcmeForm)
  | renewals

def program : Request → Handler Key Unit
  | .siteCreate form => postSiteCreate libraries certificates form
  | .siteUpdate name form => postSiteUpdate libraries certificates name form
  | .siteToggle name => postSiteToggle libraries certificates name
  | .siteDelete name => postSiteDelete name
  | .siteAcme name => postSiteAcme libraries certificates name
  | .certCreate form => postCertCreate libraries certificates form
  | .certDelete name => postCertDelete libraries certificates name
  | .certAcme form => postCertAcme libraries certificates form
  | .renewals => renewDue libraries certificates

/-- What a start does before the listeners accept: the map is built. -/
def startUp : Handler Key Unit := do
  let _ ← reload libraries certificates

end Handlers

end EasyWaf.Tls
