import EasyWaf.Http.Header
import EasyWaf.Libraries

/-!
# Realms and what a site asks of its visitors
-/

namespace EasyWaf.Gateway

/-- Where a realm's identities come from. -/
inductive Kind
  | localAccounts
  | ldap (config : LdapConfig)
  deriving DecidableEq

/-- One account of a local realm, as a sign-in and a session need it. -/
structure LocalUser where
  passwordHash : Text
  enabled : Bool
  /-- Raised to end this account's sessions. -/
  epoch : ℤ
  deriving DecidableEq

/-- A source of identities, and how long a sign-in from it lasts, in seconds. -/
structure Realm where
  id : ℤ
  name : Text
  kind : Kind
  session : ℕ
  idle : ℕ
  /-- Raised to end every session of the realm. -/
  epoch : ℤ
  users : Text → Option LocalUser

/-- A column of minutes as a duration: at least one, in a 64-bit number of
seconds. -/
def minutes (column : ℤ) : ℕ := ((max column 1).toNat * 60) % 2 ^ 64

/-- What a site asks of its visitors. -/
structure SiteAuth where
  realm : Realm
  /-- Path prefixes that need a sign-in; none is every path. -/
  protect : List Text
  /-- Path prefixes that never do. -/
  bypass : List Text
  basic : Bool
  captcha : Bool
  userHeader : Text
  groupsHeader : Text

/-- A site that asks every visitor below one path, but for those below others. -/
def SiteAuth.asking (path : Text) (bypass : List Text) : SiteAuth where
  realm :=
    { id := 0, name := [], kind := .localAccounts, session := 0, idle := 0, epoch := 0
      users := fun _ => none }
  protect := [path]
  bypass := bypass
  basic := false
  captcha := false
  userHeader := "x-forwarded-user".toList
  groupsHeader := "x-forwarded-groups".toList

/-- A path prefix as an administrator may type it. -/
def isPrefix (token : Text) : Bool :=
  token.head? == some '/' && !token.any Text.isWhitespace && !token.any (['?', '#'].contains ·)

/-- Path prefixes, one per line or separated by commas, each once; what is not a
path is left out. -/
def parsePrefixes (raw : Text) : List Text :=
  (((raw.splitOnP (['\n', '\r', ','].contains ·)).map Text.trim).filter fun token =>
    token ≠ [] ∧ isPrefix token).foldl
      (fun ok token => if ok.contains token then ok else ok ++ [token]) []

/-- A header as it is stored, or the default where that is no header's name. -/
def header (name default : Text) : Text :=
  let name := name.trim.toAsciiLowercase
  if Http.isHeaderName name then name else default

example : parsePrefixes "/admin, /api\nadmin\r\n/admin".toList =
    ["/admin".toList, "/api".toList] := by decide

end EasyWaf.Gateway
