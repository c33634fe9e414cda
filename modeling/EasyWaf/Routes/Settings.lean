import EasyWaf.Core.Procedure
import EasyWaf.Forwarded

/-!
# The settings form

The fields are checked and stored in turn.  A refusal leaves what was stored before
it; what runs is set as its field is stored, from what is then read back.
-/

namespace EasyWaf.Routes.Settings

open EasyWaf.Core Forwarded Net

/-- The settings the form holds. -/
inductive Key
  | trafficRetentionDays
  | maintenanceMessage
  | tlsProfile
  | tlsCiphers
  | managementCert
  | trustedProxies
  | requestBodyInspectKb
  | syslogEnabled
  | syslogHost
  | syslogPort
  deriving DecidableEq

/-- A row of `acme_accounts`. -/
structure AcmeAccount where
  email : Text
  privateKey : Text
  directory : Text
  deriving DecidableEq

structure State where
  settings : Key → Option Text
  /-- In the order of their ids. -/
  accounts : List AcmeAccount
  /-- `cert_pem` and `key_pem` of the row of a name. -/
  certs : Text → Option (Option Text × Option Text)
  /-- The trusted proxies that are believed. -/
  trusted : List Cidr
  /-- `INSPECTION_LIMIT`, in bytes. -/
  inspectionLimit : ℕ
  /-- Where flow lines are sent. -/
  collector : Option Text

def State.put (state : State) (key : Key) (value : Text) : State :=
  { state with settings := Function.update state.settings key (some value) }

/-- A cipher suite: its name, and whether it is one of TLS 1.3. -/
structure Suite where
  name : Text
  tls13 : Bool
  deriving DecidableEq

/-- What is taken from outside. -/
structure Surroundings where
  /-- `all_suites`. -/
  allSuites : List Suite
  toUppercase : Text → Text
  toLowercase : Text → Text
  /-- `validate_pem`: what is wrong with a certificate and its key. -/
  validatePem : Text → Text → Except Text Unit

structure SettingsForm where
  trafficRetentionDays : Option Text
  maintenanceMessage : Option Text
  tlsProfile : Option Text
  tlsCiphers : Option Text
  managementCert : Option Text
  acmeEmail : Option Text
  acmeDirectory : Option Text
  trustedProxies : Option Text
  bodyInspectKb : Option Text
  syslogEnabled : Option Text
  syslogHost : Option Text
  syslogPort : Option Text

/-- A field as it is read, trimmed. -/
def typed (field : Option Text) : Text := Text.trim (field.getD [])

section Fields

/-- `MAX_RETENTION_DAYS`. -/
def maxRetentionDays : ℤ := 3650

/-- `MAX_MAINTENANCE_LEN`. -/
def maxMaintenanceLen : ℕ := 500

/-- `MAX_BODY_INSPECT_KB`. -/
def maxBodyInspectKb : ℕ := 32 * 1024

/-- `DEFAULT_INSPECTION_LIMIT`. -/
def defaultInspectionLimit : ℕ := 128 * 1024

/-- `DEFAULT_SYSLOG_PORT`. -/
def defaultSyslogPort : ℕ := 514

/-- `DEFAULT_CERT_NAME`. -/
def defaultCertName : Text := "easywaf".toList

/-- `STAGING_DIRECTORY`. -/
def stagingDirectory : Text := "https://acme-staging-v02.api.letsencrypt.org/directory".toList

def retention (form : SettingsForm) : Except Text ℤ :=
  match Text.parseInt64 (typed form.trafficRetentionDays) with
  | none => .error "Retention must be a whole number of days".toList
  | some days =>
      if 0 ≤ days ∧ days ≤ maxRetentionDays then .ok days
      else .error ("Retention must be between 0 and ".toList ++
        Text.formatInt maxRetentionDays ++ " days".toList)

def maintenance (form : SettingsForm) : Except Text Text :=
  let text := typed form.maintenanceMessage
  if text.length > maxMaintenanceLen then
    .error ("Maintenance message must be ".toList ++ Text.formatNat maxMaintenanceLen ++
      " characters or fewer".toList)
  else .ok text

inductive TlsProfile
  | compatible
  | modern
  deriving DecidableEq

def TlsProfile.asStr : TlsProfile → Text
  | .modern => "modern".toList
  | .compatible => "compatible".toList

/-- `from_setting`. -/
def TlsProfile.ofSetting (surroundings : Surroundings) (value : Text) : TlsProfile :=
  if surroundings.toLowercase value.trim = "modern".toList then .modern else .compatible

/-- `all_suite_names`. -/
def allSuiteNames (surroundings : Surroundings) : Text :=
  Text.join " ".toList (surroundings.allSuites.map (·.name))

/-- A name that was asked for is added to the suites chosen or to the names unknown. -/
def choose (available : List Suite) (found : List Suite × List Text) (name : Text) :
    List Suite × List Text :=
  match available.find? fun suite => Text.eqIgnoreAsciiCase suite.name name with
  | some suite =>
      if found.1.any (·.name == suite.name) then found else (found.1 ++ [suite], found.2)
  | none => (found.1, found.2 ++ [name])

/-- `parse_suites`. -/
def parseSuites (surroundings : Surroundings) (configured : Text) : Except Text (List Suite) :=
  let pieces := configured.splitOnP fun c => c == ',' || Text.isWhitespace c
  let wanted := (pieces.map fun piece => surroundings.toUppercase (Text.trim piece)).filter (· ≠ [])
  if wanted = [] then .ok surroundings.allSuites
  else
    let available := surroundings.allSuites
    let (chosen, unknown) := wanted.foldl (choose available) ([], [])
    if unknown ≠ [] then
      .error ("not supported by this build: ".toList ++ Text.join ", ".toList unknown ++
        ". Available: ".toList ++ allSuiteNames surroundings)
    else if chosen = [] then
      .error "no cipher suites selected — TLS could not be negotiated at all".toList
    else
      let position (suite : Suite) := available.findIdx (·.name == suite.name)
      .ok (chosen.mergeSort fun left right => position left ≤ position right)

/-- `suites_usable_with`. -/
def suitesUsableWith : TlsProfile → List Suite → Bool
  | .modern, suites => suites.any (·.tls13)
  | .compatible, suites => !suites.isEmpty

/-- The profile and the suites, which must go together. -/
def tls (surroundings : Surroundings) (form : SettingsForm) :
    Except Text (TlsProfile × List Suite) :=
  let profile := TlsProfile.ofSetting surroundings (form.tlsProfile.getD [])
  match parseSuites surroundings (typed form.tlsCiphers) with
  | .error e => .error ("Cipher suites: ".toList ++ e)
  | .ok suites =>
      if suitesUsableWith profile suites then .ok (profile, suites)
      else .error ("Modern (TLS 1.3 only) needs at least one TLS13_ suite selected — ".toList ++
        "the suites chosen are all TLS 1.2, so no connection could be negotiated".toList)

/-- `load_named`: a row with both halves. -/
def loadNamed (certs : Text → Option (Option Text × Option Text)) (name : Text) :
    Option (Text × Text) :=
  match certs name with
  | some (some cert, some key) =>
      if cert.trim ≠ [] ∧ key.trim ≠ [] then some (cert, key) else none
  | _ => none

/-- What is wrong with a certificate for the management interface. -/
def servesTls (surroundings : Surroundings) (name : Text) :
    Option (Text × Text) → Except Text Unit
  | none => .error ("'".toList ++ name ++ "' has no certificate and key stored, so the ".toList ++
      "management interface could not be served with it".toList)
  | some (cert, key) =>
      match surroundings.validatePem cert key with
      | .error e => .error ("'".toList ++ name ++ "' cannot serve TLS: ".toList ++ e)
      | .ok () => .ok ()

/-- The certificate named is one that has to be looked up. -/
def NamesCertificate (form : SettingsForm) : Prop :=
  typed form.managementCert ≠ [] ∧ typed form.managementCert ≠ defaultCertName

instance decidableNamesCertificate (form : SettingsForm) : Decidable (NamesCertificate form) :=
  inferInstanceAs (Decidable (_ ∧ _))

def contact (form : SettingsForm) : Except Text Text :=
  let email := typed form.acmeEmail
  if email ≠ [] ∧ '@' ∉ email then .error "ACME contact must be an email address".toList
  else .ok email

/-- The directory, where none is given the staging one. -/
def directoryOf (directory : Text) : Text :=
  if directory.trim = [] then stagingDirectory else directory.trim

/-- `parse_list` of `forwarded`. -/
def parseList (configured : Text) : List Cidr × List Text :=
  let pieces := configured.splitOnP fun c => c == ',' || Text.isWhitespace c
  ((pieces.map Text.trim).filter (· ≠ [])).foldl
    (fun (ok, bad) token =>
      match Cidr.parse token with
      | some block => (ok ++ [block], bad)
      | none => (ok, bad ++ [token]))
    ([], [])

def proxies (form : SettingsForm) : Except Text Text :=
  let bad := (parseList (typed form.trustedProxies)).2
  if bad ≠ [] then
    .error ("Not an address or CIDR block: ".toList ++ Text.join ", ".toList bad)
  else .ok (typed form.trustedProxies)

/-- A number of KB that can be chosen. -/
def parseKb (text : Text) : Option ℕ :=
  (Text.parseUnsigned (2 ^ 64) text).filter fun kb => 1 ≤ kb ∧ kb ≤ maxBodyInspectKb

def inspection (form : SettingsForm) : Except Text ℕ :=
  let raw := typed form.bodyInspectKb
  if raw = [] then .ok (defaultInspectionLimit / 1024)
  else
    match parseKb raw with
    | some kb => .ok kb
    | none => .error ("Body inspection must be a whole number of KB from 1 to ".toList ++
        Text.formatNat maxBodyInspectKb)

/-- `parse::<Ipv6Addr>` succeeds. -/
def isIpv6 (text : Text) : Bool :=
  match readIpv6Addr text with
  | some (_, rest) => rest.isEmpty
  | none => false

structure Collector where
  on : Bool
  host : Text
  port : ℕ

def collector (form : SettingsForm) : Except Text Collector :=
  let on := form.syslogEnabled.isSome
  let host := typed form.syslogHost
  let port := typed form.syslogPort
  if on ∧ host = [] then .error "Sending flow logs needs a collector address".toList
  else if host.any Text.isWhitespace ∨ '/' ∈ host then
    .error "The collector is a hostname or an IP address, not a URL".toList
  else if ':' ∈ host ∧ ¬ isIpv6 host then
    .error "Give the collector's port in the Port field, not with the address".toList
  else if port = [] then .ok ⟨on, host, defaultSyslogPort⟩
  else
    match (Text.parseUnsigned 65536 port).filter (0 < ·) with
    | some port => .ok ⟨on, host, port⟩
    | none => .error "The collector port must be a number between 1 and 65535".toList

end Fields

section Running

/-- `get_body_inspect_kb`. -/
def bodyInspectKb (settings : Key → Option Text) : ℕ :=
  ((settings .requestBodyInspectKb).bind fun value => parseKb (Text.trim value)).getD
    (defaultInspectionLimit / 1024)

/-- `syslog_enabled`. -/
def syslogEnabled (settings : Key → Option Text) : Bool :=
  (settings .syslogEnabled).any fun value => Text.trim value == "1".toList

/-- `syslog_port`. -/
def syslogPort (settings : Key → Option Text) : ℕ :=
  ((settings .syslogPort).bind fun value => Text.parseUnsigned 65536 (Text.trim value)).getD
    defaultSyslogPort

/-- An address to send to. -/
def socketAddress (host : Text) (port : ℕ) : Text :=
  if isIpv6 host then '[' :: host ++ "]:".toList ++ Text.formatNat port
  else host ++ ":".toList ++ Text.formatNat port

/-- `syslog_target`. -/
def syslogTarget (settings : Key → Option Text) : Option Text :=
  let host := typed (settings .syslogHost)
  if !syslogEnabled settings then none
  else if host = [] then none
  else some (socketAddress host (syslogPort settings))

/-- The list `forwarded::reload` takes. -/
def trustedList (settings : Key → Option Text) : List Cidr :=
  (parseList ((settings .trustedProxies).getD [])).1

end Running

section Saving

/-- A statement of the handler; each is made at most once. -/
inductive Statement
  | set (key : Key)
  | get (key : Key)
  | loadNamed
  | readAccount
  | storeAccount

inductive Answer
  | failed (message : Text)
  | success (message : Text)
  /-- A statement failed, and the request with it. -/
  | error

/-- The handler; an outcome says which of its statements are carried out. -/
abbrev Save := Procedure State (Statement → Bool) Answer

variable (surroundings : Surroundings) (form : SettingsForm)

def refuse (message : Text) : Save := .done (.failed message)

def checked {α : Type} (check : Except Text α) (next : α → Save) : Save :=
  match check with
  | .error message => refuse message
  | .ok value => next value

/-- A statement that changes what is stored, or fails. -/
def writing (statement : Statement) (effect : State → State) (next : Save) : Save :=
  .step (fun works state => if works statement then effect state else state)
    fun works _ => if works statement then next else .done .error

/-- `settings::set`. -/
def set (key : Key) (value : Text) (next : Save) : Save :=
  writing (.set key) (·.put key value) next

/-- `settings::get` of every key: none where it cannot be read. -/
def State.readings (works : Statement → Bool) (state : State) (key : Key) : Option Text :=
  if works (.get key) then state.settings key else none

/-- What runs is changed. -/
def applying (effect : (Statement → Bool) → State → State) (next : Save) : Save :=
  .step effect fun _ _ => next

def managementCert (next : Text → Save) : Save :=
  let name := typed form.managementCert
  if NamesCertificate form then
    .step (fun _ state => state) fun works state =>
      if works .loadNamed then
        checked (servesTls surroundings name (loadNamed state.certs name)) fun () => next name
      else .done .error
  else next name

/-- `set_config`: the first account, its credentials cleared where it changes. -/
def setConfig (email directory : Text) (next : Save) : Save :=
  let directory := directoryOf directory
  .step (fun _ state => state) fun works state =>
    if works .readAccount then
      match state.accounts with
      | account :: rest =>
          if account.email = email ∧ account.directory = directory then next
          else
            writing .storeAccount
              (fun state => { state with
                accounts := { email := email, privateKey := [], directory := directory } :: rest })
              next
      | [] =>
          writing .storeAccount
            (fun state => { state with
              accounts := [{ email := email, privateKey := [], directory := directory }] })
            next
    else .done .error

def acmeConfig (next : Save) : Save :=
  checked (contact form) fun email =>
    if email = [] then next else setConfig email (typed form.acmeDirectory) next

/-- `post_settings_update` from the last of its checks on. -/
def saveTls (days : ℤ) (cert : Text) (profile : TlsProfile) (suites : List Suite) : Save :=
  set .managementCert cert <|
  set .tlsProfile profile.asStr <|
  set .tlsCiphers (Text.join " ".toList (suites.map (·.name))) <|
  .done (.success (if days = 0 then
      "Settings saved — traffic history is kept indefinitely".toList
    else
      "Settings saved — traffic history kept for ".toList ++ Text.formatInt days ++
        " days".toList))

/-- The collector is stored, and what is then stored is sent to. -/
def saveCollector (next : Save) : Save :=
  checked (collector form) fun ⟨on, host, port⟩ =>
  set .syslogEnabled (if on then "1".toList else "0".toList) <|
  set .syslogHost host <|
  set .syslogPort (Text.formatNat port) <|
  applying (fun works state => { state with collector := syslogTarget (state.readings works) })
  next

/-- The limit is stored, and is the one that is used. -/
def saveInspection (next : Save) : Save :=
  checked (inspection form) fun kb =>
  set .requestBodyInspectKb (Text.formatNat kb) <|
  applying (fun _ state => { state with inspectionLimit := max (kb * 1024) 1 })
  next

/-- The proxies are stored, and what is then stored is trusted. -/
def saveProxies (next : Save) : Save :=
  checked (proxies form) fun list =>
  set .trustedProxies list <|
  applying (fun works state => { state with trusted := trustedList (state.readings works) })
  next

def postSettingsUpdate : Save :=
  checked (retention form) fun days =>
  checked (maintenance form) fun message =>
  set .trafficRetentionDays (Text.formatInt days) <|
  set .maintenanceMessage message <|
  checked (tls surroundings form) fun (profile, suites) =>
  managementCert surroundings form fun cert =>
  acmeConfig form <|
  saveProxies form <|
  saveInspection form <|
  saveCollector form <|
  saveTls days cert profile suites

end Saving

end EasyWaf.Routes.Settings
