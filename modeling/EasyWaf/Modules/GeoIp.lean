import EasyWaf.Core.Load
import EasyWaf.Db.Queries
import EasyWaf.Modules.Verdict

/-!
# A site's country rules

One query reads the policy's country rule and the rule for every policy.  A
country either of them denies is refused, or alerted on by a policy that only
watches.
-/

namespace EasyWaf.Modules.GeoIp

open EasyWaf.Core EasyWaf.Db

/-- The country settings of a site's policy, and the rule that applies whatever
the policy says. -/
structure GeoPolicy where
  ruleEngine : Text
  mode : Text
  countries : Text
  allMode : Text
  allCountries : Text
  deriving DecidableEq

/-- A missing row of `geoip_everywhere` reads as off. -/
def geoPolicyRow (siteId : ℤ) (db : Database) : Option GeoPolicy :=
  let everywhere := (db.geoipEverywhere.filter (·.id = 1)).head?
  (policyOfSite db siteId).map fun policy =>
    { ruleEngine := policy.ruleEngine
      mode := policy.geoipMode
      countries := policy.geoipCountries
      allMode := (everywhere.map (·.mode)).getD "off".toList
      allCountries := (everywhere.map (·.countries)).getD [] }

/-- `get_site_geo_policy`. -/
def getSiteGeoPolicy {World : Type} (db : World → Database) (siteId : ℤ) :
    Load World (Option GeoPolicy) :=
  Load.readOr (fun world => geoPolicyRow siteId (db world)) none

section Inspection

/-- A character's upper case.  One that is not ASCII is kept unless its upper
case is: no other changes what codes a list holds. -/
def uppercase (c : Char) : Text :=
  if c.toNat < 128 then [c.toUpper]
  else if c = 'ı' then ['I']
  else if c = 'ſ' then ['S']
  else if c = 'ß' then ['S', 'S']
  else if c = 'ﬀ' then ['F', 'F']
  else if c = 'ﬁ' then ['F', 'I']
  else if c = 'ﬂ' then ['F', 'L']
  else if c = 'ﬅ' ∨ c = 'ﬆ' then ['S', 'T']
  else [c]

/-- Split the stored list into upper-case ISO codes; anything else is dropped. -/
def parseCountries (raw : Text) : List Text :=
  ((raw.splitOn ',').map fun (code : Text) => code.trim.flatMap uppercase).filter fun code =>
    code.length = 2 ∧ code.all Char.isAlpha

example : parseCountries "de, NL,xyz,, f\u0131 ".toList = ["DE".toList, "NL".toList, "FI".toList] := by
  decide

/-- Whether a country rule is doing anything at all. -/
def inForce (mode : Text) (list : List Text) : Bool := mode != "off".toList && !list.isEmpty

def isDenied (mode : Text) (list : List Text) (country : Text) : Bool :=
  if mode = "block".toList then list.contains country
  else if mode = "allow".toList then !list.contains country
  else false

/-- Which rule refused a country. -/
inductive RuleScope
  | policy
  | everywhere
  deriving DecidableEq

/-- A request refused by either rule is refused; the policy's own is reported
first. -/
def refusedBy (mode : Text) (list : List Text) (allMode : Text) (allList : List Text)
    (country : Text) : Option RuleScope :=
  if inForce mode list && isDenied mode list country then some .policy
  else if inForce allMode allList && isDenied allMode allList country then some .everywhere
  else none

namespace GeoPolicy

/-- The rule that refuses a client of this country, if one does. -/
def refuses (policy : GeoPolicy) (country : Option Text) : Option RuleScope :=
  country.bind (refusedBy policy.mode (parseCountries policy.countries) policy.allMode
    (parseCountries policy.allCountries))

def reason (policy : GeoPolicy) (country : Text) (scope : RuleScope) : Text :=
  let (mode, whose) := match scope with
    | .policy => (policy.mode, [])
    | .everywhere => (policy.allMode, " for every policy".toList)
  if mode = "allow".toList then
    "GeoIP: ".toList ++ country ++ " is not in the allowed countries".toList ++ whose
  else "GeoIP: requests from ".toList ++ country ++ " are blocked".toList ++ whose

end GeoPolicy

/-- `GeoIpModule::inspect`, for a client of this country.  An address with no
country is never matched. -/
def inspect (policy : Option GeoPolicy) (country : Option Text) : ModuleDecision :=
  match policy, country with
  | none, _ => .pass
  | some _, none => .pass
  | some policy, some country =>
      if policy.ruleEngine = "Off".toList then .pass
      else
        match policy.refuses country with
        | none => .pass
        | some scope =>
            let reason := policy.reason country scope
            if policy.ruleEngine = "DetectionOnly".toList then
              .alert reason { Findings.default with detection := Detection.wouldBlock }
            else .drop reason 403 Findings.default

end Inspection

end EasyWaf.Modules.GeoIp
