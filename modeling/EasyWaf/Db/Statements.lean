import EasyWaf.Db.Tables

/-!
# The statements the program runs

Each is listed by what it does: its table, its kind and the columns it sets,
under the file that runs it.  The values and the rows chosen are left open, so a
`Statement` that `Fits` a shape stands for that statement with any parameters.
-/

namespace EasyWaf.Db

inductive Shape
  | insert (table : Table)
  | update (table : Table) (columns : List Text)
  | upsert (table : Table) (columns : List Text)
  | delete (table : Table)
  | elsewhere (table : Text)
  deriving DecidableEq

/-- What a statement does, whatever its values. -/
def Shape.Fits : Shape → Statement → Prop
  | .insert table, .insert table' _ => table = table'
  | .update table columns, .update table' assignment _ =>
      table = table' ∧ columns = assignment.columns
  | .upsert table columns, .upsert table' _ _ assignment =>
      table = table' ∧ columns = assignment.columns
  | .delete table, .delete table' _ => table = table'
  | .elsewhere _, .elsewhere => True
  | _, _ => False

/-- The columns of a certificate that is stored or renewed. -/
def certColumns : List Text :=
  ["domain".toList, "not_before".toList, "not_after".toList, "cert_pem".toList,
    "key_pem".toList, "acme_domain".toList]

/-- The columns of a rule that a newer or older version of its set rewrites. -/
def ruleColumns : List Text :=
  ["name".toList, "description".toList, "zone".toList, "pattern".toList, "score".toList,
    "action".toList, "negate".toList, "conditions".toList, "transforms".toList,
    "imported_pattern".toList, "imported_score".toList, "imported_action".toList]

def acmeStatements : List Shape := [
  .elsewhere "acme_accounts".toList,
  .upsert .certs certColumns,
  .update .certs ["acme_last_attempt".toList, "acme_last_error".toList,
    "acme_next_attempt".toList, "acme_failures".toList]]

def certStatements : List Shape := [
  .insert .certs,
  .upsert .certs certColumns,
  .delete .certs]

def iplistStatements : List Shape := [
  .upsert .ipListFeeds ["enabled".toList, "response".toList, "changed_by".toList,
    "updated_at".toList],
  .delete .ipListFeeds,
  .upsert .ipRules ["list_type".toList, "reason".toList, "added_by".toList],
  .delete .ipRules]

def importStatements : List Shape := [
  .elsewhere "settings".toList,
  .update .geoipEverywhere ["mode".toList, "countries".toList, "changed_by".toList,
    "updated_at".toList],
  .delete .ipRules,
  .delete .ipListFeeds,
  .delete .policies,
  .upsert .policies ["rule_engine".toList, "score_threshold".toList,
    "challenge_threshold".toList, "geoip_mode".toList, "geoip_countries".toList,
    "smart_protect".toList],
  .delete .policyRuleExclusions,
  .delete .wafRules,
  .elsewhere "policy_rule_sets".toList,
  .elsewhere "policy_rule_set_previous".toList,
  .delete .policyValues,
  .insert .policyValues,
  .insert .wafRules,
  .upsert .certs certColumns,
  .delete .siteAuth,
  .delete .authRealms,
  .upsert .authRealms ["kind".toList, "session_minutes".toList, "idle_minutes".toList,
    "config".toList, "updated_at".toList],
  .delete .authUsers,
  .upsert .authUsers ["epoch".toList, "password_hash".toList, "enabled".toList],
  .delete .sites,
  .upsert .sites ["server_name".toList, "enabled".toList, "cert_id".toList,
    "acme_enabled".toList, "waf_policy_id".toList, "hsts".toList, "x_frame".toList,
    "x_frame_value".toList, "x_content_type".toList, "xss_protection".toList,
    "listen_port".toList, "tls_port".toList, "tls_redirect".toList, "affinity".toList,
    "backend_tls_insecure".toList, "rate_limit_mode".toList, "rate_limit_requests".toList,
    "rate_limit_window".toList, "rate_limit_action".toList, "updated_at".toList],
  .delete .siteAliases,
  .delete .upstreams,
  .elsewhere "site_ports".toList,
  .insert .siteAliases,
  .insert .upstreams,
  .insert .siteAuth,
  .delete .certs,
  .elsewhere "users".toList,
  .insert .ipRules,
  .insert .ipListFeeds,
  .insert .policyRuleExclusions]

def realmStatements : List Shape := [
  .insert .authRealms,
  .update .authRealms ["session_minutes".toList, "idle_minutes".toList, "config".toList,
    "updated_at".toList],
  .update .authRealms ["epoch".toList, "updated_at".toList],
  .delete .authRealms,
  .insert .authUsers,
  .update .authUsers ["password_hash".toList, "epoch".toList],
  .update .authUsers ["enabled".toList, "epoch".toList],
  .delete .authUsers]

/-- A visitor who signs in is remembered as having done so. -/
def proxyStatements : List Shape := [
  .update .authUsers ["last_login".toList],
  .elsewhere "traffic_events".toList]

def siteStatements : List Shape := [
  .update .sites ["rate_limit_mode".toList, "rate_limit_requests".toList,
    "rate_limit_window".toList, "rate_limit_action".toList],
  .delete .siteAuth,
  .upsert .siteAuth ["realm_id".toList, "paths".toList, "bypass".toList, "basic".toList,
    "captcha".toList, "user_header".toList, "groups_header".toList],
  .insert .sites,
  .update .sites ["cert_id".toList, "acme_enabled".toList],
  .update .sites ["server_name".toList, "listen_port".toList, "tls_port".toList,
    "cert_id".toList, "tls_redirect".toList, "waf_policy_id".toList, "hsts".toList,
    "x_frame".toList, "x_frame_value".toList, "x_content_type".toList,
    "xss_protection".toList, "affinity".toList, "backend_tls_insecure".toList,
    "updated_at".toList],
  .update .sites ["enabled".toList, "updated_at".toList],
  .delete .sites,
  .update .upstreams ["weight".toList, "enabled".toList],
  .insert .upstreams,
  .delete .upstreams,
  .elsewhere "site_ports".toList,
  .delete .siteAliases,
  .insert .siteAliases,
  -- the tutorial gives a site its certificate and port
  .update .sites ["cert_id".toList, "acme_enabled".toList, "tls_port".toList,
    "updated_at".toList]]

def ruleStatements : List Shape := [
  .insert .wafRules,
  .update .wafRules ["enabled".toList],
  .delete .wafRules,
  .update .wafRules ["name".toList, "description".toList, "zone".toList, "pattern".toList,
    "score".toList, "action".toList, "rule_set".toList, "negate".toList, "conditions".toList,
    "transforms".toList, "imported_pattern".toList, "imported_score".toList,
    "imported_action".toList],
  .update .wafRules ruleColumns,
  .update .wafRules ["rule_set".toList],
  .update .wafRules ["name".toList, "description".toList, "zone".toList, "pattern".toList,
    "score".toList, "action".toList, "enabled".toList],
  .elsewhere "policy_rule_sets".toList,
  .elsewhere "policy_rule_set_previous".toList]

def exclusionStatements : List Shape := [
  .insert .policyRuleExclusions,
  .delete .policyRuleExclusions]

def policyStatements : List Shape := [
  .insert .policies,
  .update .sites ["waf_policy_id".toList, "updated_at".toList],
  .upsert .ipRules ["list_type".toList],
  .insert .wafRules,
  .elsewhere "policy_rule_sets".toList,
  .insert .policyRuleExclusions,
  .insert .ipRules,
  .insert .ipListFeeds,
  .update .policies ["geoip_mode".toList, "geoip_countries".toList],
  .update .policies ["rule_engine".toList, "score_threshold".toList,
    "challenge_threshold".toList, "smart_protect".toList],
  .delete .policyValues,
  .upsert .policyValues ["value".toList],
  .delete .policies]

def geoipStatements : List Shape := [
  .update .geoipEverywhere ["mode".toList, "countries".toList, "changed_by".toList,
    "updated_at".toList]]

/-- Settings, management accounts and their sign-ins, the traffic log. -/
def managementStatements : List Shape := [
  .elsewhere "settings".toList,
  .elsewhere "users".toList,
  .elsewhere "traffic_events".toList]

def programStatements : List Shape :=
  acmeStatements ++ certStatements ++ iplistStatements ++ importStatements ++ realmStatements ++
    proxyStatements ++ siteStatements ++ ruleStatements ++ exclusionStatements ++
    policyStatements ++ geoipStatements ++ managementStatements

/-- A statement the program runs, with some values. -/
def Runs (statement : Statement) : Prop :=
  ∃ shape ∈ programStatements, shape.Fits statement

/-- Every write of a statement of this shape is watched by a trigger. -/
def Shape.Watched : Shape → Prop
  | .insert table => 0 < schema.fires table .insert []
  | .update table columns => schema.Watches table columns
  | .upsert table columns => 0 < schema.fires table .insert [] ∧ schema.Watches table columns
  | .delete table => 0 < schema.fires table .delete []
  | .elsewhere _ => True

instance (shape : Shape) : Decidable shape.Watched := by
  cases shape <;> unfold Shape.Watched <;> infer_instance

theorem Shape.Fits.watched {shape : Shape} {statement : Statement} (hfits : shape.Fits statement)
    (hwatched : shape.Watched) : statement.Watched := by
  cases shape <;> cases statement <;> simp only [Shape.Fits] at hfits
  case insert.insert => exact hfits ▸ hwatched
  case update.update =>
      obtain ⟨rfl, rfl⟩ := hfits
      exact hwatched
  case upsert.upsert =>
      obtain ⟨rfl, rfl⟩ := hfits
      exact hwatched
  case delete.delete => exact hfits ▸ hwatched
  case elsewhere.elsewhere => trivial

theorem programStatements_watched : ∀ shape ∈ programStatements, shape.Watched := by decide

theorem Runs.watched {statement : Statement} (hruns : Runs statement) : statement.Watched := by
  obtain ⟨shape, hshape, hfits⟩ := hruns
  exact hfits.watched (programStatements_watched shape hshape)

/-- A statement of the program changes nothing in the tables the proxy reads, or
leaves the generation larger. -/
theorem eq_or_generation_lt {db db' : Database} {statement : Statement} (hruns : Runs statement)
    (hexec : exec db statement = some db') : db' = db ∨ db.generation < db'.generation :=
  Relational.Schema.eq_or_lt_of_exec schema_extensional schema_actionsWatched hruns.watched hexec

/-- A transaction of them does too. -/
theorem eq_or_generation_lt_of_execAll {db db' : Database} {statements : List Statement}
    (hruns : ∀ statement ∈ statements, Runs statement)
    (hexec : execAll db statements = some db') : db' = db ∨ db.generation < db'.generation :=
  Relational.Schema.eq_or_lt_of_execAll schema_extensional schema_actionsWatched
    (fun statement hstatement => (hruns statement hstatement).watched) hexec

end EasyWaf.Db
