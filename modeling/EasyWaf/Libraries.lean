import EasyWaf.Text.Basic

/-!
# What the program takes from outside

The functions of third-party crates, and of the standard library's Unicode
tables, that the loaders call: a section that uses them has a `Libraries` as a
variable.
-/

namespace EasyWaf

/-- A further condition of a rule, as the `conditions` column writes it. -/
structure Condition where
  zone : Text
  pattern : Text
  negate : Bool
  transforms : List Text
  deriving DecidableEq

/-- How to ask a directory whether a password is somebody's. -/
structure LdapConfig where
  url : Text
  starttls : Bool
  verifyTls : Bool
  bindDn : Text
  bindPassword : Text
  baseDn : Text
  userFilter : Text
  groupsAttribute : Text
  deriving DecidableEq

/-- `LdapConfig::default`. -/
def LdapConfig.default : LdapConfig where
  url := []
  starttls := false
  verifyTls := true
  bindDn := []
  bindPassword := []
  baseDn := []
  userFilter := "(uid=\x7buser\x7d)".toList
  groupsAttribute := []

structure Libraries where
  /-- `regex::RegexBuilder` accepts a case-insensitive pattern of bounded size. -/
  nameRegexBuilds : Text → Bool
  /-- `str::to_lowercase`. -/
  toLowercase : Text → Text
  /-- `serde_json::from_str::<Vec<Condition>>`. -/
  conditionsFromJson : Text → Option (List Condition)
  /-- `serde_json::from_str::<LdapConfig>`. -/
  ldapConfigFromJson : Text → Option LdapConfig

/-- The libraries as they are on plain ASCII patterns and no JSON. -/
def Libraries.plain : Libraries where
  nameRegexBuilds := fun _ => true
  toLowercase := Text.toAsciiLowercase
  conditionsFromJson := fun _ => none
  ldapConfigFromJson := fun _ => none

end EasyWaf
