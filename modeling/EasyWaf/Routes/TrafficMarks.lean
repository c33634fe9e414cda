import EasyWaf.Modules.Judge
import EasyWaf.Net.IpRead

/-!
# The rules the Traffic Monitor marks

A row of the Traffic Monitor says of each rule that matched whether it is excluded
for the request by now.  The page decides it over the stored rows and the recorded
text, the engine over the exclusions as it has read them and the path as it is
forwarded.
-/

namespace EasyWaf.Routes

open Db Net Forwarded Modules Modules.Waf

/-- One policy's exclusions, in the form the coverage check needs. -/
structure PolicyExclusion where
  externalId : Option ℤ
  pathPrefix : Text
  client : Option Cidr

def PolicyExclusion.ofRow (row : PolicyRuleExclusion) : PolicyExclusion where
  externalId := row.externalId
  pathPrefix := row.pathPrefix
  client := (row.clientCidr.filter (· ≠ [])).bind Cidr.parse

/-- `fetch_exclusions`, for one policy. -/
def fetchExclusions (policyId : ℤ) (db : Database) : Option (List PolicyExclusion) :=
  match exclusionRows policyId db with
  | [] => none
  | rows => some (rows.map .ofRow)

/-- The exclusion is of the rule, the path and the client. -/
def PolicyExclusion.marks (exclusion : PolicyExclusion) (ruleId : ℤ) (path clientIp : Text) :
    Bool :=
  exclusion.externalId = some ruleId &&
    (exclusion.pathPrefix.isEmpty || exclusion.pathPrefix.isPrefixOf path) &&
      match exclusion.client, parseIpAddr clientIp with
      | none, _ => true
      | some block, some ip => block.contains ip
      | some _, none => false

/-- `already_excluded`. -/
def alreadyExcluded (excls : Option (List PolicyExclusion)) (ruleId : Option ℤ)
    (path clientIp : Text) : Bool :=
  match excls, ruleId with
  | some list, some ruleId => list.any (·.marks ruleId path clientIp)
  | _, _ => false

section Rows

variable (row : PolicyRuleExclusion) (rule : RuleRow) (number : ℤ) (path sent : Text)
variable (client : IpAddr)

/-- The row's client block is one nobody can read. -/
def Unreadable : Prop :=
  ∃ raw, row.clientCidr = some raw ∧ raw ≠ [] ∧ Cidr.parse raw = none

/-- The row is for every client, or for a block that holds this one. -/
def Covers : Prop :=
  row.clientCidr.filter (· ≠ []) = none ∨
    ∃ raw block, row.clientCidr = some raw ∧ raw ≠ [] ∧ Cidr.parse raw = some block ∧
      block.contains client = true

/-- The row is of the rule: by its number, or by its row where no number is given. -/
def Names : Prop :=
  row.externalId = rule.externalId ∧ rule.externalId.isSome ∨
    row.externalId = none ∧ row.ruleId = some rule.id

/-- The page marks the rule for the row. -/
def Marked : Prop :=
  row.externalId = some number ∧ row.pathPrefix <+: path ∧ (Unreadable row ∨ Covers row client)

/-- The engine silences the rule for the row. -/
def Silenced : Prop :=
  Names row rule ∧ Paths.underPrefix sent row.pathPrefix = true ∧ Covers row client

/-- A row of the rule's number whose prefix begins the recorded path as a text, where
nobody can read its block, or the path the backend is sent is not under it. -/
def Loose : Prop :=
  row.externalId = some number ∧ row.pathPrefix <+: path ∧
    (Unreadable row ∨ Covers row client ∧ Paths.underPrefix sent row.pathPrefix = false)

/-- A row that covers the path the backend is sent and the client, where it names the
rule's row, or its prefix does not begin the recorded path. -/
def Missed : Prop :=
  Paths.underPrefix sent row.pathPrefix = true ∧ Covers row client ∧
    (row.externalId = rule.externalId ∧ ¬ row.pathPrefix <+: path ∨
      row.externalId = none ∧ row.ruleId = some rule.id)

variable {row rule number path sent client}

theorem not_covers_of_unreadable (hunreadable : Unreadable row) : ¬ Covers row client := by
  obtain ⟨raw, hraw, hsome, hparse⟩ := hunreadable
  rintro (hnone | ⟨other, block, hother, -, hblock, -⟩)
  · rw [hraw, Option.filter_some, if_pos (decide_eq_true hsome)] at hnone
    contradiction
  · obtain rfl : raw = other := Option.some.inj (hraw.symm.trans hother)
    rw [hparse] at hblock
    contradiction

/-- A client block as both sides read it. -/
theorem client_cases (row : PolicyRuleExclusion) :
    (Unreadable row ∧ (PolicyExclusion.ofRow row).client = none ∧ readExclusion row = none) ∨
      ¬ Unreadable row ∧ ∃ client, (PolicyExclusion.ofRow row).client = client ∧
        readExclusion row = some ⟨row.externalId, row.ruleId, row.pathPrefix, client⟩ ∧
          ∀ ip, Covers row ip ↔ client.all (·.contains ip) = true := by
  obtain ⟨policyId, externalId, ruleId, pathPrefix, clientCidr⟩ := row
  cases clientCidr with
  | none =>
      refine Or.inr ⟨?_, none, rfl, rfl, fun ip => ?_⟩
      · rintro ⟨raw, hraw, -, -⟩
        contradiction
      · simp [Covers]
  | some raw =>
      cases raw with
      | nil =>
          refine Or.inr ⟨?_, none, rfl, rfl, fun ip => ?_⟩
          · rintro ⟨raw, hraw, hsome, -⟩
            exact hsome (Option.some.inj hraw).symm
          · simp [Covers]
      | cons c rest =>
          cases hparse : Cidr.parse (c :: rest) with
          | none =>
              refine Or.inl ⟨⟨c :: rest, rfl, List.cons_ne_nil _ _, hparse⟩, hparse, ?_⟩
              simp only [readExclusion, hparse, Option.map_none]
          | some block =>
              refine Or.inr ⟨?_, some block, hparse, ?_, fun ip => ?_⟩
              · rintro ⟨raw, hraw, -, hnone⟩
                rw [← Option.some.inj hraw, hparse] at hnone
                contradiction
              · simp only [readExclusion, hparse, Option.map_some]
              · simp [Covers, hparse]

/-- The page's check of a row. -/
theorem marks_iff : (PolicyExclusion.ofRow row).marks number path (formatIpAddr client) = true ↔
    Marked row number path client := by
  have hbegins : (row.pathPrefix.isEmpty || row.pathPrefix.isPrefixOf path) = true ↔
      row.pathPrefix <+: path := by
    rw [Bool.or_eq_true, List.isPrefixOf_iff_prefix, List.isEmpty_iff]
    constructor
    · rintro (hempty | hprefix)
      · rw [hempty]
        exact List.nil_prefix
      · exact hprefix
    · exact Or.inr
  rw [PolicyExclusion.marks, Bool.and_eq_true, Bool.and_eq_true, decide_eq_true_eq, Marked,
    and_assoc, parseIpAddr_formatIpAddr]
  apply and_congr_right
  intro _
  apply and_congr hbegins
  rcases client_cases row with ⟨hunreadable, hclient, -⟩ | ⟨hreadable, block, hclient, -, hcovers⟩
  · rw [hclient]
    exact iff_of_true rfl (Or.inl hunreadable)
  · rw [hclient, hcovers]
    cases block with
    | none => simp
    | some block => simp [hreadable]

/-- The engine's check of a row. -/
theorem silences_iff : (readExclusion row).any (·.silences rule sent client) = true ↔
    Silenced row rule sent client := by
  rcases client_cases row with ⟨hunreadable, -, hread⟩ | ⟨-, block, -, hread, hcovers⟩
  · rw [hread]
    constructor
    · intro hfalse
      contradiction
    · intro hsilenced
      exact absurd hsilenced.2.2 (not_covers_of_unreadable hunreadable)
  · rw [hread, Option.any_some, Exclusion.silences, Bool.and_eq_true, Bool.and_eq_true, Silenced,
      and_assoc, hcovers]
    apply and_congr
    · rw [Names]
      cases rule.externalId with
      | none =>
          cases row.externalId with
          | some number => simp
          | none =>
              cases row.ruleId with
              | none => simp
              | some id => simp [eq_comm]
      | some own =>
          cases row.externalId with
          | some number => simp [eq_comm]
          | none =>
              cases row.ruleId with
              | none => simp
              | some id => simp [eq_comm]
    apply and_congr_right
    intro _
    cases block with
    | none => exact Iff.rfl
    | some block => exact Iff.rfl

/-- A row that is marked and does not silence the rule is loose. -/
theorem loose_iff (hnumber : rule.externalId = some number) :
    Loose row number path sent client ↔
      Marked row number path client ∧ ¬ Silenced row rule sent client := by
  constructor
  · rintro ⟨hown, hprefix, hunreadable | ⟨hcovers, hunder⟩⟩
    · exact ⟨⟨hown, hprefix, Or.inl hunreadable⟩,
        fun hsilenced => not_covers_of_unreadable hunreadable hsilenced.2.2⟩
    · refine ⟨⟨hown, hprefix, Or.inr hcovers⟩, fun hsilenced => ?_⟩
      rw [hsilenced.2.1] at hunder
      contradiction
  · rintro ⟨⟨hown, hprefix, hblock⟩, hnot⟩
    refine ⟨hown, hprefix, hblock.imp_right fun hcovers => ⟨hcovers, ?_⟩⟩
    by_contra hunder
    apply hnot
    refine ⟨Or.inl ⟨hown.trans hnumber.symm, ?_⟩, Bool.eq_true_of_not_eq_false hunder, hcovers⟩
    rw [hnumber]
    rfl

/-- A row that silences the rule and is not marked is missed. -/
theorem missed_iff (hnumber : rule.externalId = some number) :
    Missed row rule path sent client ↔
      Silenced row rule sent client ∧ ¬ Marked row number path client := by
  have hsome : rule.externalId.isSome := by
    rw [hnumber]
    rfl
  constructor
  · rintro ⟨hunder, hcovers, ⟨hown, hprefix⟩ | ⟨hnone, hid⟩⟩
    · exact ⟨⟨Or.inl ⟨hown, hsome⟩, hunder, hcovers⟩, fun hmarked => hprefix hmarked.2.1⟩
    · refine ⟨⟨Or.inr ⟨hnone, hid⟩, hunder, hcovers⟩, fun hmarked => ?_⟩
      have hown := hmarked.1
      rw [hnone] at hown
      contradiction
  · rintro ⟨⟨hnames, hunder, hcovers⟩, hnot⟩
    refine ⟨hunder, hcovers, ?_⟩
    rcases hnames with ⟨hown, -⟩ | hrow
    · exact Or.inl ⟨hown, fun hprefix => hnot ⟨hown.trans hnumber, hprefix, Or.inr hcovers⟩⟩
    · exact Or.inr hrow

end Rows

section Page

variable (waf : WafModule) (policyId : ℤ) (db : Database) (ctx : RequestContext) {rule : RuleRow}
variable {number : ℤ}

theorem alreadyExcluded_iff :
    alreadyExcluded (fetchExclusions policyId db) (some number) ctx.path
        (formatIpAddr ctx.clientIp) = true ↔
      ∃ row ∈ exclusionRows policyId db, Marked row number ctx.path ctx.clientIp := by
  rw [fetchExclusions]
  cases hrows : exclusionRows policyId db with
  | nil => simp [alreadyExcluded]
  | cons first rest =>
      rw [alreadyExcluded, List.any_map, List.any_eq_true]
      simp only [Function.comp_apply, marks_iff]

theorem applies_eq_false_iff :
    waf.applies (exclusionsAt policyId db) ctx rule = false ↔
      ∃ row ∈ exclusionRows policyId db,
        Silenced row rule (Paths.pathAsForwarded waf.url ctx.path) ctx.clientIp := by
  rw [WafModule.applies, Bool.not_eq_false', exclusionsAt, List.any_eq_true]
  simp only [← silences_iff, List.mem_filterMap, Option.any_eq_true]
  constructor
  · rintro ⟨exclusion, ⟨row, hrow, hread⟩, hsilences⟩
    exact ⟨row, hrow, exclusion, hread, hsilences⟩
  · rintro ⟨row, hrow, exclusion, hread, hsilences⟩
    exact ⟨exclusion, ⟨row, hrow, hread⟩, hsilences⟩

/-- The page marks a rule for a request just where the engine silences it, except
where a loose row stands alone or a missed one does. -/
theorem marked_iff_silenced (hnumber : rule.externalId = some number) :
    (alreadyExcluded (fetchExclusions policyId db) (some number) ctx.path
          (formatIpAddr ctx.clientIp) = true ↔
        waf.applies (exclusionsAt policyId db) ctx rule = false) ↔
      ((∃ row ∈ exclusionRows policyId db, Loose row number ctx.path
            (Paths.pathAsForwarded waf.url ctx.path) ctx.clientIp) →
          ∃ row ∈ exclusionRows policyId db,
            Silenced row rule (Paths.pathAsForwarded waf.url ctx.path) ctx.clientIp) ∧
        ((∃ row ∈ exclusionRows policyId db, Missed row rule ctx.path
            (Paths.pathAsForwarded waf.url ctx.path) ctx.clientIp) →
          ∃ row ∈ exclusionRows policyId db, Marked row number ctx.path ctx.clientIp) := by
  rw [alreadyExcluded_iff, applies_eq_false_iff]
  constructor
  · intro hagree
    constructor
    · rintro ⟨row, hrow, hloose⟩
      exact hagree.mp ⟨row, hrow, ((loose_iff hnumber).mp hloose).1⟩
    · rintro ⟨row, hrow, hmissed⟩
      exact hagree.mpr ⟨row, hrow, ((missed_iff hnumber).mp hmissed).1⟩
  · rintro ⟨hloose, hmissed⟩
    constructor
    · rintro ⟨row, hrow, hmarked⟩
      by_cases hsilenced : Silenced row rule (Paths.pathAsForwarded waf.url ctx.path) ctx.clientIp
      · exact ⟨row, hrow, hsilenced⟩
      · exact hloose ⟨row, hrow, (loose_iff hnumber).mpr ⟨hmarked, hsilenced⟩⟩
    · rintro ⟨row, hrow, hsilenced⟩
      by_cases hmarked : Marked row number ctx.path ctx.clientIp
      · exact ⟨row, hrow, hmarked⟩
      · exact hmissed ⟨row, hrow, (missed_iff hnumber).mpr ⟨hsilenced, hmarked⟩⟩

end Page

section Dav

/-- A rule that does not run under `/dav`. -/
def davExcluded : Database :=
  Database.empty.withRows .policyRuleExclusions [⟨1, some 913015, none, "/dav".toList, none⟩]

def bareWaf : WafModule where
  engine := {
    toLowercase := Text.toAsciiLowercase
    regex := fun pattern => some (Text.hasInfix pattern)
    nameMatches := fun pattern key => Text.hasInfix pattern key
    detectSqli := fun _ => none
    detectXss := fun _ => false
    parseJson := fun _ => none
    parseXml := fun _ => none }
  url := .standard
  decoders := ⟨fun _ _ => ⟨0, []⟩, fun _ _ => ⟨0, []⟩, fun _ _ => ⟨0, []⟩⟩
  inflateLimit := 131072

def scannerRule : RuleRow where
  id := 7
  externalId := some 913015
  name := "Scanner".toList
  zone := "HEADERS".toList
  targets := none
  pattern := []
  negate := false
  chain := []
  conditions := []
  score := 5
  action := "score".toList

def requestFor (path : String) : RequestContext where
  clientIp := .v4 0xcb007109#32
  method := "GET".toList
  path := path.toList
  query := none
  version := .http11
  headers := []
  body := []

/-- Below `/dav` the page and the engine agree. -/
theorem dav_files_marked :
    alreadyExcluded (fetchExclusions 1 davExcluded) (some 913015) (requestFor "/dav/files").path
        (formatIpAddr (requestFor "/dav/files").clientIp) = true ↔
      bareWaf.applies (exclusionsAt 1 davExcluded) (requestFor "/dav/files") scannerRule = false :=
  (marked_iff_silenced bareWaf 1 davExcluded (requestFor "/dav/files") rfl).mpr
    ⟨fun _ => (applies_eq_false_iff bareWaf 1 davExcluded (requestFor "/dav/files")).mp
        (by decide +kernel),
      fun _ => (alreadyExcluded_iff 1 davExcluded (requestFor "/dav/files")).mp (by decide +kernel)⟩

/-- `/davx` is not under `/dav`, and the page marks it. -/
theorem davx_marked_not_silenced :
    ¬ ∀ (waf : WafModule) (policyId : ℤ) (db : Database) (ctx : RequestContext) (rule : RuleRow)
        (number : ℤ), rule.externalId = some number →
      (alreadyExcluded (fetchExclusions policyId db) (some number) ctx.path
          (formatIpAddr ctx.clientIp) = true ↔
        waf.applies (exclusionsAt policyId db) ctx rule = false) := by
  intro hagree
  have hmarked : alreadyExcluded (fetchExclusions 1 davExcluded) (some 913015)
      (requestFor "/davx").path (formatIpAddr (requestFor "/davx").clientIp) = true := by
    decide +kernel
  have hsilenced := (hagree bareWaf 1 davExcluded (requestFor "/davx") scannerRule 913015 rfl).mp
    hmarked
  have happlies : bareWaf.applies (exclusionsAt 1 davExcluded) (requestFor "/davx") scannerRule =
      true := by decide +kernel
  rw [happlies] at hsilenced
  contradiction

end Dav

end EasyWaf.Routes
