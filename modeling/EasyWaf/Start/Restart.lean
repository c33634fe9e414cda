import EasyWaf.Core.Transparent
import EasyWaf.Db.Tables
import EasyWaf.Start.Backfill

/-!
# A restart on the current schema

Of the migrations a start goes through, those that find what they add are skipped;
the others write to rules and holdings, where their conditions still hold of a row.
-/

namespace EasyWaf.Start

open EasyWaf.RuleSets

/-- What the guards of the migrations ask a database. -/
structure Schema where
  table : Text → Bool
  column : Text → Text → Bool
  /-- `ip_rules.policy_id` is `NOT NULL`. -/
  ipRulesNeedPolicy : Bool
  /-- The setting `tutorial_hidden` is there. -/
  tutorialDecided : Bool

/-- The migrations behind a guard, each with what says that it has been applied. -/
def guarded : List (ℕ × (Schema → Bool)) :=
  let column (table name : String) (schema : Schema) : Bool := schema.column table.toList name.toList
  let table (name : String) (schema : Schema) : Bool := schema.table name.toList
  [(2, column "sites" "listen_port"), (4, column "waf_rules" "external_id"),
    (5, column "policies" "challenge_threshold"), (6, table "settings"),
    (7, column "policies" "geoip_mode"), (8, column "waf_rules" "imported_pattern"),
    (9, column "sites" "tls_port"), (10, column "certs" "acme_last_attempt"),
    (11, column "sites" "x_frame_value"), (13, column "traffic_events" "matched_rules"),
    (15, column "waf_rules" "rule_set"), (17, table "site_ports"),
    (18, fun schema =>
      table "site_rule_exclusions" schema || table "policy_rule_exclusions" schema),
    (19, column "traffic_events" "detection"), (20, column "waf_rules" "cloned_from_set"),
    (21, fun schema => column "site_rule_exclusions" "client_cidr" schema ||
      !table "site_rule_exclusions" schema),
    (22, column "users" "role"), (23, table "site_aliases"), (24, table "ip_rules"),
    (26, table "ip_list_feeds"), (27, column "ip_rules" "policy_id"),
    (29, fun schema => !schema.ipRulesNeedPolicy), (31, table "upstreams"),
    (32, column "sites" "affinity"), (36, column "policies" "smart_protect"),
    (37, column "sites" "backend_tls_insecure"), (38, (·.tutorialDecided)),
    (39, column "traffic_events" "user"), (40, column "site_auth" "captcha"),
    (41, column "waf_rules" "conditions"), (42, column "waf_rules" "transforms"),
    (44, column "sites" "rate_limit_mode")]

/-- A database no guarded migration has anything to do on. -/
structure CurrentSchema where
  schema : Schema
  applied : ∀ migration ∈ guarded, migration.2 schema = true

/-- The configuration a restart is to leave as it was. -/
structure Configuration where
  policies : List (Db.Policy × PolicyRules)
  exclusions : List Db.PolicyRuleExclusion
  sites : List Db.Site

/-- What a start does at one migration. -/
inductive Step
  /-- `CREATE ... IF NOT EXISTS`, and `INSERT OR IGNORE` of rows outside the
  configuration. -/
  | ifNotExists
  /-- Behind a guard. -/
  | unlessApplied (applied : Schema → Bool) (body : Configuration → Configuration)
  /-- On the rules and holdings of every policy, at every start. -/
  | always (change : PolicyRules → PolicyRules)

def Step.run (schema : Schema) (config : Configuration) : Step → Configuration
  | .ifNotExists => config
  | .unlessApplied applied body => if applied schema then config else body config
  | .always change =>
      { config with policies := config.policies.map fun policy => (policy.1, change policy.2) }

/-- A migration behind its guard, by number. -/
def behindGuard (bodies : ℕ → Configuration → Configuration) (number : ℕ) : Step :=
  .unlessApplied ((guarded.lookup number).getD fun _ => true) (bodies number)

/-- The migrations in the order of `init`; `bodies` is what the guarded ones do
where they have not been applied. -/
def migrations (bodies : ℕ → Configuration → Configuration) (files : List SetFile) : List Step :=
  let behind := behindGuard bodies
  [.ifNotExists, behind 2, .ifNotExists, behind 4, behind 5, behind 6, behind 7, behind 8, behind 9,
    behind 10, behind 11, .always migration012, behind 13, .always migration014, behind 15,
    .always fun state => files.foldl (fun state set => set.backfill state) state,
    behind 17, behind 18, behind 19, behind 20, behind 21, behind 22, behind 23, behind 24,
    .ifNotExists, behind 26, behind 27, behind 29, .ifNotExists, .ifNotExists, behind 31, behind 32,
    .ifNotExists, .always migration034, .ifNotExists, behind 36, behind 37, behind 38, behind 39,
    behind 40, behind 41, behind 42, .ifNotExists, behind 44]

/-- `db::init`, on a database there is. -/
def init (bodies : ℕ → Configuration → Configuration) (files : List SetFile) (schema : Schema)
    (config : Configuration) : Configuration :=
  (migrations bodies files).foldl (Step.run schema) config

section Restarted

variable (bodies : ℕ → Configuration → Configuration) (files : List SetFile)
  (current : CurrentSchema) (config : Configuration)

theorem run_behindGuard (number : ℕ) :
    Step.run current.schema config (behindGuard bodies number) = config := by
  have happlied : ((guarded.lookup number).getD fun _ => true) current.schema = true := by
    cases hlookup : guarded.lookup number with
    | none => rfl
    | some applied =>
        exact current.applied (number, applied) (Core.mem_of_lookup_eq hlookup)
  exact if_pos happlied

/-- On the current schema a start is what it does to the rules of each policy. -/
theorem init_eq : init bodies files current.schema config =
    { config with
      policies := config.policies.map fun policy => (policy.1, startRules files policy.2) } := by
  have hnone (config : Configuration) : Step.run current.schema config .ifNotExists = config := rfl
  have halways (change : PolicyRules → PolicyRules) (config : Configuration) :
      Step.run current.schema config (.always change) =
        { config with
          policies := config.policies.map fun policy => (policy.1, change policy.2) } := rfl
  unfold init migrations
  dsimp only
  repeat
    first
    | rw [List.foldl_cons, hnone]
    | rw [List.foldl_cons, run_behindGuard]
    | rw [List.foldl_cons, halways]
  simp only [List.foldl_nil, List.map_map, Function.comp_def, startRules]

/-- A restart leaves the configuration as it was exactly where no rule has one of
the patterns that shipped wrong, no set on disk can be adopted and no holding is
without a rule. -/
theorem restart_changes_nothing_iff :
    (init bodies files current.schema config).exclusions = config.exclusions ∧
      (init bodies files current.schema config).sites = config.sites ∧
      ((init bodies files current.schema config).policies.map fun policy =>
          (policy.1, policy.2.rules, policy.2.held)) =
        (config.policies.map fun policy => (policy.1, policy.2.rules, policy.2.held)) ↔
    ∀ policy ∈ config.policies, Settled files policy.2 := by
  rw [init_eq]
  simp only [true_and, List.map_map]
  rw [List.map_inj_left]
  apply forall₂_congr
  intro policy _
  rw [← startRules_unchanged_iff]
  simp

end Restarted

section Rewritten

/-- A database of this version. -/
def presentSchema : CurrentSchema where
  schema := {
    table := fun name => name ≠ "site_rule_exclusions".toList
    column := fun table _ => table ≠ "site_rule_exclusions".toList
    ipRulesNeedPolicy := false
    tutorialDecided := true }
  applied := by
    simp only [guarded, List.forall_mem_cons]
    repeat' apply And.intro
    all_goals
      first
      | (rw [String.toList_ofList, String.toList_ofList]; rfl)
      | (rw [String.toList_ofList]; rfl)
      | decide

/-- A rule as the rule form stores it. -/
def customRule (name zone pattern : Text) : StoredRule where
  number := none
  ruleSet := none
  enabled := true
  wording := {
    name := name
    description := []
    zone := zone
    pattern := pattern
    score := 5
    action := "score".toList
    negate := false
    conditions := "[]".toList
    transforms := [] }
  imported := none
  clonedFrom := none

def defaultPolicy : Db.Policy where
  id := 1
  ruleEngine := "On".toList
  scoreThreshold := 10
  challengeThreshold := 0
  geoipMode := "off".toList
  geoipCountries := []
  smartProtect := false

def probingRules : PolicyRules where
  rules := [customRule "Admin paths".toList "URL".toList probingPattern]
  held _ := none
  previous _ := none
  numbers_nodup := List.nodup_nil

/-- A rule an administrator has written is given another pattern. -/
theorem restart_rewrites_a_custom_rule :
    ¬ ∀ (bodies : ℕ → Configuration → Configuration) (files : List SetFile)
        (current : CurrentSchema) (state : PolicyRules),
      (init bodies files current.schema
          { policies := [(defaultPolicy, state)], exclusions := [], sites := [] }).policies.map
            (fun policy => policy.2.rules) =
        [state.rules] := by
  intro hevery
  have hsame := hevery (fun _ config => config) [] presentSchema probingRules
  rw [init_eq] at hsame
  have hrules : (migration014 (migration012 probingRules)).rules = probingRules.rules :=
    List.singleton_inj.mp hsame
  rw [rules_corrected] at hrules
  have hrule := (List.cons.inj hrules).1
  exact ((correctedRule_eq_self_iff _).mp hrule).probing rfl

end Rewritten

end EasyWaf.Start
