import EasyWaf.Core.Relational

/-!
# The tables the proxy reads

The rows hold the columns that some loader of the proxy, the gateway or the
inspection modules reads.  Tables none of them reads (`settings`, `users`,
`traffic_events`, `site_ports`, `acme_accounts`, the rule-set bookkeeping) are
not here: a write to one of those is `Statement.elsewhere`.
-/

namespace EasyWaf.Db

open Relational

inductive Table
  | sites
  | upstreams
  | certs
  | policies
  | siteAliases
  | siteAuth
  | authRealms
  | authUsers
  | wafRules
  | policyValues
  | policyRuleExclusions
  | geoipEverywhere
  | ipRules
  | ipListFeeds
  deriving DecidableEq

structure Site where
  id : ℤ
  name : Text
  serverName : Text
  enabled : Bool
  tlsPort : Option ℤ
  certId : Option ℤ
  tlsRedirect : Bool
  hsts : Bool
  xFrame : Bool
  xFrameValue : Text
  xContentType : Bool
  xssProtection : Bool
  affinity : Bool
  wafPolicyId : Option ℤ
  backendTlsInsecure : Bool
  rateLimitMode : Text
  rateLimitRequests : ℤ
  rateLimitWindow : ℤ
  rateLimitAction : Text
  deriving DecidableEq

structure Upstream where
  id : ℤ
  siteId : ℤ
  url : Text
  weight : ℤ
  enabled : Bool
  deriving DecidableEq

structure Cert where
  id : ℤ
  certPem : Option Text
  keyPem : Option Text
  deriving DecidableEq

structure Policy where
  id : ℤ
  ruleEngine : Text
  scoreThreshold : ℤ
  challengeThreshold : ℤ
  geoipMode : Text
  geoipCountries : Text
  smartProtect : Bool
  deriving DecidableEq

structure SiteAlias where
  id : ℤ
  siteId : ℤ
  name : Text
  deriving DecidableEq

structure SiteAuth where
  siteId : ℤ
  realmId : ℤ
  paths : Text
  bypass : Text
  basic : Bool
  captcha : Bool
  userHeader : Text
  groupsHeader : Text
  deriving DecidableEq

structure AuthRealm where
  id : ℤ
  name : Text
  kind : Text
  sessionMinutes : ℤ
  idleMinutes : ℤ
  epoch : ℤ
  config : Text
  deriving DecidableEq

structure AuthUser where
  realmId : ℤ
  username : Text
  passwordHash : Text
  enabled : Bool
  epoch : ℤ
  deriving DecidableEq

structure WafRule where
  id : ℤ
  policyId : ℤ
  externalId : Option ℤ
  name : Text
  zone : Text
  pattern : Text
  score : ℤ
  action : Text
  enabled : Bool
  negate : Bool
  conditions : Text
  transforms : Text
  deriving DecidableEq

structure PolicyValue where
  policyId : ℤ
  name : Text
  value : Text
  deriving DecidableEq

structure PolicyRuleExclusion where
  policyId : ℤ
  externalId : Option ℤ
  ruleId : Option ℤ
  pathPrefix : Text
  clientCidr : Option Text
  deriving DecidableEq

structure GeoipEverywhere where
  id : ℤ
  mode : Text
  countries : Text
  deriving DecidableEq

structure IpRule where
  policyId : Option ℤ
  ip : Text
  listType : Text
  deriving DecidableEq

structure IpListFeed where
  policyId : Option ℤ
  id : Text
  enabled : Bool
  response : Text
  deriving DecidableEq

abbrev Row : Table → Type
  | .sites => Site
  | .upstreams => Upstream
  | .certs => Cert
  | .policies => Policy
  | .siteAliases => SiteAlias
  | .siteAuth => SiteAuth
  | .authRealms => AuthRealm
  | .authUsers => AuthUser
  | .wafRules => WafRule
  | .policyValues => PolicyValue
  | .policyRuleExclusions => PolicyRuleExclusion
  | .geoipEverywhere => GeoipEverywhere
  | .ipRules => IpRule
  | .ipListFeeds => IpListFeed

section Cells

def textCell (text : Text) : Cell := .text text

def integerCell (value : ℤ) : Cell := .integer value

def flagCell (flag : Bool) : Cell := .integer (if flag then 1 else 0)

def nullable {Value : Type} (cell : Value → Cell) : Option Value → Cell
  | none => .null
  | some value => cell value

@[simp]
theorem textCell_inj {left right : Text} : textCell left = textCell right ↔ left = right := by
  simp [textCell]

@[simp]
theorem integerCell_inj {left right : ℤ} :
    integerCell left = integerCell right ↔ left = right := by
  simp [integerCell]

@[simp]
theorem flagCell_inj {left right : Bool} : flagCell left = flagCell right ↔ left = right := by
  cases left <;> cases right <;> simp [flagCell]

@[simp]
theorem nullable_integerCell_inj {left right : Option ℤ} :
    nullable integerCell left = nullable integerCell right ↔ left = right := by
  cases left <;> cases right <;> simp [nullable, integerCell]

@[simp]
theorem nullable_textCell_inj {left right : Option Text} :
    nullable textCell left = nullable textCell right ↔ left = right := by
  cases left <;> cases right <;> simp [nullable, textCell]

end Cells

/-- The columns of each table under their names in the database. -/
def columns : (table : Table) → List (Column (Row table))
  | .sites => [
      ⟨"id".toList, fun row => integerCell row.id⟩,
      ⟨"name".toList, fun row => textCell row.name⟩,
      ⟨"server_name".toList, fun row => textCell row.serverName⟩,
      ⟨"enabled".toList, fun row => flagCell row.enabled⟩,
      ⟨"tls_port".toList, fun row => nullable integerCell row.tlsPort⟩,
      ⟨"cert_id".toList, fun row => nullable integerCell row.certId⟩,
      ⟨"tls_redirect".toList, fun row => flagCell row.tlsRedirect⟩,
      ⟨"hsts".toList, fun row => flagCell row.hsts⟩,
      ⟨"x_frame".toList, fun row => flagCell row.xFrame⟩,
      ⟨"x_frame_value".toList, fun row => textCell row.xFrameValue⟩,
      ⟨"x_content_type".toList, fun row => flagCell row.xContentType⟩,
      ⟨"xss_protection".toList, fun row => flagCell row.xssProtection⟩,
      ⟨"affinity".toList, fun row => flagCell row.affinity⟩,
      ⟨"waf_policy_id".toList, fun row => nullable integerCell row.wafPolicyId⟩,
      ⟨"backend_tls_insecure".toList, fun row => flagCell row.backendTlsInsecure⟩,
      ⟨"rate_limit_mode".toList, fun row => textCell row.rateLimitMode⟩,
      ⟨"rate_limit_requests".toList, fun row => integerCell row.rateLimitRequests⟩,
      ⟨"rate_limit_window".toList, fun row => integerCell row.rateLimitWindow⟩,
      ⟨"rate_limit_action".toList, fun row => textCell row.rateLimitAction⟩]
  | .upstreams => [
      ⟨"id".toList, fun row => integerCell row.id⟩,
      ⟨"site_id".toList, fun row => integerCell row.siteId⟩,
      ⟨"url".toList, fun row => textCell row.url⟩,
      ⟨"weight".toList, fun row => integerCell row.weight⟩,
      ⟨"enabled".toList, fun row => flagCell row.enabled⟩]
  | .certs => [
      ⟨"id".toList, fun row => integerCell row.id⟩,
      ⟨"cert_pem".toList, fun row => nullable textCell row.certPem⟩,
      ⟨"key_pem".toList, fun row => nullable textCell row.keyPem⟩]
  | .policies => [
      ⟨"id".toList, fun row => integerCell row.id⟩,
      ⟨"rule_engine".toList, fun row => textCell row.ruleEngine⟩,
      ⟨"score_threshold".toList, fun row => integerCell row.scoreThreshold⟩,
      ⟨"challenge_threshold".toList, fun row => integerCell row.challengeThreshold⟩,
      ⟨"geoip_mode".toList, fun row => textCell row.geoipMode⟩,
      ⟨"geoip_countries".toList, fun row => textCell row.geoipCountries⟩,
      ⟨"smart_protect".toList, fun row => flagCell row.smartProtect⟩]
  | .siteAliases => [
      ⟨"id".toList, fun row => integerCell row.id⟩,
      ⟨"site_id".toList, fun row => integerCell row.siteId⟩,
      ⟨"name".toList, fun row => textCell row.name⟩]
  | .siteAuth => [
      ⟨"site_id".toList, fun row => integerCell row.siteId⟩,
      ⟨"realm_id".toList, fun row => integerCell row.realmId⟩,
      ⟨"paths".toList, fun row => textCell row.paths⟩,
      ⟨"bypass".toList, fun row => textCell row.bypass⟩,
      ⟨"basic".toList, fun row => flagCell row.basic⟩,
      ⟨"captcha".toList, fun row => flagCell row.captcha⟩,
      ⟨"user_header".toList, fun row => textCell row.userHeader⟩,
      ⟨"groups_header".toList, fun row => textCell row.groupsHeader⟩]
  | .authRealms => [
      ⟨"id".toList, fun row => integerCell row.id⟩,
      ⟨"name".toList, fun row => textCell row.name⟩,
      ⟨"kind".toList, fun row => textCell row.kind⟩,
      ⟨"session_minutes".toList, fun row => integerCell row.sessionMinutes⟩,
      ⟨"idle_minutes".toList, fun row => integerCell row.idleMinutes⟩,
      ⟨"epoch".toList, fun row => integerCell row.epoch⟩,
      ⟨"config".toList, fun row => textCell row.config⟩]
  | .authUsers => [
      ⟨"realm_id".toList, fun row => integerCell row.realmId⟩,
      ⟨"username".toList, fun row => textCell row.username⟩,
      ⟨"password_hash".toList, fun row => textCell row.passwordHash⟩,
      ⟨"enabled".toList, fun row => flagCell row.enabled⟩,
      ⟨"epoch".toList, fun row => integerCell row.epoch⟩]
  | .wafRules => [
      ⟨"id".toList, fun row => integerCell row.id⟩,
      ⟨"policy_id".toList, fun row => integerCell row.policyId⟩,
      ⟨"external_id".toList, fun row => nullable integerCell row.externalId⟩,
      ⟨"name".toList, fun row => textCell row.name⟩,
      ⟨"zone".toList, fun row => textCell row.zone⟩,
      ⟨"pattern".toList, fun row => textCell row.pattern⟩,
      ⟨"score".toList, fun row => integerCell row.score⟩,
      ⟨"action".toList, fun row => textCell row.action⟩,
      ⟨"enabled".toList, fun row => flagCell row.enabled⟩,
      ⟨"negate".toList, fun row => flagCell row.negate⟩,
      ⟨"conditions".toList, fun row => textCell row.conditions⟩,
      ⟨"transforms".toList, fun row => textCell row.transforms⟩]
  | .policyValues => [
      ⟨"policy_id".toList, fun row => integerCell row.policyId⟩,
      ⟨"name".toList, fun row => textCell row.name⟩,
      ⟨"value".toList, fun row => textCell row.value⟩]
  | .policyRuleExclusions => [
      ⟨"policy_id".toList, fun row => integerCell row.policyId⟩,
      ⟨"external_id".toList, fun row => nullable integerCell row.externalId⟩,
      ⟨"rule_id".toList, fun row => nullable integerCell row.ruleId⟩,
      ⟨"path_prefix".toList, fun row => textCell row.pathPrefix⟩,
      ⟨"client_cidr".toList, fun row => nullable textCell row.clientCidr⟩]
  | .geoipEverywhere => [
      ⟨"id".toList, fun row => integerCell row.id⟩,
      ⟨"mode".toList, fun row => textCell row.mode⟩,
      ⟨"countries".toList, fun row => textCell row.countries⟩]
  | .ipRules => [
      ⟨"policy_id".toList, fun row => nullable integerCell row.policyId⟩,
      ⟨"ip".toList, fun row => textCell row.ip⟩,
      ⟨"list_type".toList, fun row => textCell row.listType⟩]
  | .ipListFeeds => [
      ⟨"policy_id".toList, fun row => nullable integerCell row.policyId⟩,
      ⟨"id".toList, fun row => textCell row.id⟩,
      ⟨"enabled".toList, fun row => flagCell row.enabled⟩,
      ⟨"response".toList, fun row => textCell row.response⟩]

/-- The columns of a table hold everything its rows do. -/
theorem row_ext (table : Table) (row row' : Row table)
    (hagree : ∀ column ∈ columns table, column.read row = column.read row') : row = row' := by
  cases table <;> cases row <;> cases row' <;>
    simpa only [columns, List.forall_mem_cons, textCell_inj, integerCell_inj, flagCell_inj,
      nullable_integerCell_inj, nullable_textCell_inj, List.not_mem_nil, false_imp_iff,
      implies_true, and_true, Site.mk.injEq, Upstream.mk.injEq, Cert.mk.injEq, Policy.mk.injEq,
      SiteAlias.mk.injEq, SiteAuth.mk.injEq, AuthRealm.mk.injEq, AuthUser.mk.injEq,
      WafRule.mk.injEq, PolicyValue.mk.injEq, PolicyRuleExclusion.mk.injEq,
      GeoipEverywhere.mk.injEq, IpRule.mk.injEq, IpListFeed.mk.injEq] using hagree

/-- The primary key other tables refer to; the tables nothing refers to have
none that matters. -/
def primary : (table : Table) → Row table → ℤ
  | .sites, row => row.id
  | .certs, row => row.id
  | .policies, row => row.id
  | .authRealms, row => row.id
  | .wafRules, row => row.id
  | _, _ => 0

/-- The `UNIQUE` constraints on the modelled columns, primary keys included. -/
def clash : (table : Table) → Row table → Row table → Bool
  | .sites, left, right =>
      left.id == right.id || left.name == right.name || left.serverName == right.serverName
  | .upstreams, left, right =>
      left.id == right.id || (left.siteId == right.siteId && left.url == right.url)
  | .certs, left, right => left.id == right.id
  | .policies, left, right => left.id == right.id
  | .siteAliases, left, right => left.id == right.id || left.name == right.name
  | .siteAuth, left, right => left.siteId == right.siteId
  | .authRealms, left, right => left.id == right.id || left.name == right.name
  | .authUsers, left, right => left.realmId == right.realmId && left.username == right.username
  | .wafRules, left, right =>
      left.id == right.id || (left.policyId == right.policyId && left.externalId.isSome &&
        left.externalId == right.externalId)
  | .policyValues, left, right => left.policyId == right.policyId && left.name == right.name
  | .policyRuleExclusions, left, right =>
      left.policyId == right.policyId &&
        left.externalId.getD (-1) == right.externalId.getD (-1) &&
        left.ruleId.getD (-1) == right.ruleId.getD (-1) && left.pathPrefix == right.pathPrefix &&
        left.clientCidr.getD [] == right.clientCidr.getD []
  | .geoipEverywhere, left, right => left.id == right.id
  | .ipRules, left, right => left.policyId == right.policyId && left.ip == right.ip
  | .ipListFeeds, left, right => left.policyId == right.policyId && left.id == right.id

end EasyWaf.Db

/-!
## The triggers that move the generation

Migration 025 keeps a counter and gives `waf_rules`, `policies` and `sites` a
trigger on each kind of write; 028, 030, 035, 039 and 043 add those of the other
tables.  Two of them name columns: `certs` and `auth_users` are also updated by
statements that change nothing the proxy holds.
-/

namespace EasyWaf.Db

open Relational

/-- The three triggers most tables have. -/
def everyWrite (table : Table) : List (Trigger Table) :=
  [⟨table, .insert, none⟩, ⟨table, .update, none⟩, ⟨table, .delete, none⟩]

def triggers : List (Trigger Table) :=
  -- 025
  everyWrite .wafRules ++ everyWrite .policies ++ everyWrite .sites ++
  -- 028
  everyWrite .policyRuleExclusions ++ everyWrite .ipRules ++ everyWrite .ipListFeeds ++
  -- 030
  [⟨.geoipEverywhere, .update, none⟩, ⟨.geoipEverywhere, .insert, none⟩] ++
  -- 035
  everyWrite .upstreams ++ everyWrite .siteAliases ++
  [⟨.certs, .insert, none⟩,
    ⟨.certs, .update, some ["cert_pem".toList, "key_pem".toList]⟩,
    ⟨.certs, .delete, none⟩] ++
  -- 039
  everyWrite .authRealms ++
  [⟨.authUsers, .insert, none⟩,
    ⟨.authUsers, .update,
      some ["username".toList, "password_hash".toList, "enabled".toList, "epoch".toList]⟩,
    ⟨.authUsers, .delete, none⟩] ++
  everyWrite .siteAuth ++
  -- 043
  everyWrite .policyValues

def foreignKeys : List (ForeignKey Table Row) := [
  ⟨.sites, "cert_id".toList, .certs, fun row => row.certId,
    .setNull fun row => { row with certId := none }⟩,
  ⟨.sites, "waf_policy_id".toList, .policies, fun row => row.wafPolicyId,
    .setNull fun row => { row with wafPolicyId := none }⟩,
  ⟨.upstreams, "site_id".toList, .sites, fun row => some row.siteId, .cascade⟩,
  ⟨.siteAliases, "site_id".toList, .sites, fun row => some row.siteId, .cascade⟩,
  ⟨.siteAuth, "site_id".toList, .sites, fun row => some row.siteId, .cascade⟩,
  ⟨.siteAuth, "realm_id".toList, .authRealms, fun row => some row.realmId, .restrict⟩,
  ⟨.authUsers, "realm_id".toList, .authRealms, fun row => some row.realmId, .cascade⟩,
  ⟨.wafRules, "policy_id".toList, .policies, fun row => some row.policyId, .cascade⟩,
  ⟨.policyValues, "policy_id".toList, .policies, fun row => some row.policyId, .cascade⟩,
  ⟨.policyRuleExclusions, "policy_id".toList, .policies, fun row => some row.policyId, .cascade⟩,
  ⟨.policyRuleExclusions, "rule_id".toList, .wafRules, fun row => row.ruleId, .cascade⟩,
  ⟨.ipRules, "policy_id".toList, .policies, fun row => row.policyId, .cascade⟩,
  ⟨.ipListFeeds, "policy_id".toList, .policies, fun row => row.policyId, .cascade⟩]

/-- The schema all migrations leave behind. -/
def schema : Schema Table where
  Row := Row
  columns := columns
  primary := primary
  clash := clash
  triggers := triggers
  foreignKeys := foreignKeys
  tables := [.sites, .upstreams, .certs, .policies, .siteAliases, .siteAuth, .authRealms,
    .authUsers, .wafRules, .policyValues, .policyRuleExclusions, .geoipEverywhere, .ipRules,
    .ipListFeeds]

abbrev Database := Relational.Database schema

abbrev Statement := schema.Statement

/-- No rows, and nothing counted yet. -/
def Database.empty : Database where
  generation := 0
  rows := fun _ => []

def Database.withRows (db : Database) (table : Table) (rows : List (Row table)) : Database :=
  { db with rows := Function.update db.rows table rows }

/-- The longest chain of deletions: a policy, its rules, their exclusions. -/
def depth : ℕ := 3

def exec (db : Database) (statement : Statement) : Option Database :=
  Schema.exec depth db statement

def execAll (db : Database) (statements : List Statement) : Option Database :=
  Schema.execAll depth db statements

abbrev Consistent (db : Database) : Prop := Schema.Consistent db

theorem schema_extensional : schema.Extensional := row_ext

theorem schema_actionsWatched : schema.ActionsWatched := by decide

end EasyWaf.Db
