import EasyWaf.Gateway.Passage
import EasyWaf.Signature
import EasyWaf.Text.Base64
import EasyWaf.Text.Decimal
import EasyWaf.Text.Utf8

/-!
# The session cookie

A visitor who signed in carries who they are, when they signed in and were last
seen, and the epochs of the realm and the account at that time, signed together
with the site.
-/

namespace EasyWaf.Gateway

open Signature Text

/-- `CLOCK_SKEW_SECS`. -/
def clockSkewSecs : ℤ := 60

/-- `REFRESH_AFTER_SECS`. -/
def refreshAfterSecs : ℤ := 60

/-- A session read from a cookie and found good. -/
structure Session where
  who : Identity
  /-- When the visitor signed in, which the absolute lifetime runs from. -/
  issued : ℤ
  /-- The account's epoch the cookie was minted with. -/
  userEpoch : ℤ
  /-- The cookie is due to be minted again so the idle timeout slides. -/
  refresh : Bool
  deriving DecidableEq

def b64 (text : Text) : Text := Base64.encode text.bytes

def unb64 (text : Text) : Option Text := (Base64.decode text).bind fromUtf8

/-- What a cookie says, field by field. -/
structure Fields where
  realmId : ℤ
  subject : Text
  groups : Text
  issued : ℤ
  seen : ℤ
  realmEpoch : ℤ
  userEpoch : ℤ
  deriving DecidableEq

def version : Text := "v1".toList

/-- The fields as they are written, with dots between. -/
def Fields.body (fields : Fields) : Text :=
  Text.join ['.'] [version, formatInt fields.realmId, b64 fields.subject, b64 fields.groups,
    formatInt fields.issued, formatInt fields.seen, formatInt fields.realmEpoch,
    formatInt fields.userEpoch]

variable (hmac : KeyedHash) (secret : Text) (siteId : ℤ)

def signedText (body : Text) : Text := "gate|".toList ++ formatInt siteId ++ '|' :: body

/-- `sign`. -/
def sign (body : Text) : Text := hex (hmac secret.bytes (signedText siteId body).bytes)

/-- The fields a session is minted with. -/
def mintedFields (realm : Realm) (who : Identity) (userEpoch issued seen : ℤ) : Fields where
  realmId := realm.id
  subject := who.subject
  groups := Text.join ['\n'] who.groups
  issued := issued
  seen := seen
  realmEpoch := realm.epoch
  userEpoch := userEpoch

def mint (realm : Realm) (who : Identity) (userEpoch issued seen : ℤ) : Text :=
  let body := (mintedFields realm who userEpoch issued seen).body
  body ++ '.' :: sign hmac secret siteId body

/-- The fields of a body, where it has eight of this version that parse. -/
def parseBody (body : Text) : Option Fields :=
  match body.splitOn '.' with
  | [written, realmId, subject, groups, issued, seen, realmEpoch, userEpoch] =>
      if written = version then do
        return { realmId := ← parseInt64 realmId
                 subject := ← unb64 subject
                 groups := ← unb64 groups
                 issued := ← parseInt64 issued
                 seen := ← parseInt64 seen
                 realmEpoch := ← parseInt64 realmEpoch
                 userEpoch := ← parseInt64 userEpoch }
      else none
  | _ => none

/-- The account a cookie was minted for is there and as it was. -/
def Realm.holds (realm : Realm) (fields : Fields) : Bool :=
  match realm.kind with
  | .localAccounts =>
      match realm.users fields.subject with
      | some user => user.enabled && user.epoch == fields.userEpoch
      | none => false
  | .ldap _ => true

/-- The time is one at which a cookie counts. -/
def Realm.inTime (realm : Realm) (fields : Fields) (now : ℤ) : Bool :=
  !(now + clockSkewSecs < fields.issued || now + clockSkewSecs < fields.seen ||
      fields.seen < fields.issued) &&
    !(fields.issued + realm.session ≤ now || fields.seen + realm.idle ≤ now)

/-- A realm honours a cookie's fields. -/
def Realm.honours (realm : Realm) (fields : Fields) (now : ℤ) : Bool :=
  fields.realmId == realm.id && fields.realmEpoch == realm.epoch && realm.holds fields &&
    realm.inTime fields now

/-- The session the fields describe. -/
def Fields.session (fields : Fields) (now : ℤ) : Session where
  who :=
    { subject := fields.subject
      groups := (fields.groups.splitOn '\n').filter (· ≠ []) }
  issued := fields.issued
  userEpoch := fields.userEpoch
  refresh := refreshAfterSecs ≤ now - fields.seen

/-- The session a cookie holds, if it is one this site would still honour. -/
def read (realm : Realm) (cookie : Text) (now : ℤ) : Option Session := do
  let (body, sig) ← rsplitOnce '.' cookie
  if same sig.bytes (sign hmac secret siteId body).bytes then do
    let fields ← parseBody body
    if realm.honours fields now then some (fields.session now) else none
  else none

section Bodies

variable {fields fields' : Fields}

theorem unb64_b64 (text : Text) : unb64 (b64 text) = some text := by
  rw [unb64, b64, Base64.decode_encode, Option.bind_some, fromUtf8_bytes]

theorem splitOn_body (fields : Fields) :
    fields.body.splitOn '.' = [version, formatInt fields.realmId, b64 fields.subject,
      b64 fields.groups, formatInt fields.issued, formatInt fields.seen,
      formatInt fields.realmEpoch, formatInt fields.userEpoch] := by
  have hint (i : ℤ) : '.' ∉ formatInt i := not_mem_formatInt (by decide) (by decide) i
  have hb64 (text : Text) : '.' ∉ b64 text := Base64.dot_notMem_encode _
  apply List.splitOn_intercalate
  · simp only [List.mem_cons, List.not_mem_nil, or_false, forall_eq_or_imp, forall_eq]
    exact ⟨by decide, hint _, hb64 _, hb64 _, hint _, hint _, hint _, hint _⟩
  · simp

/-- A body that parses says what it was written with. -/
theorem eq_of_parseBody_body (hparse : parseBody fields.body = some fields') : fields' = fields := by
  rw [parseBody, splitOn_body] at hparse
  simp only [if_true, unb64_b64, Option.pure_def, Option.bind_eq_bind, Option.bind_some,
    Option.bind_eq_some_iff, Option.some.injEq] at hparse
  obtain ⟨realmId, hrealmId, issued, hissued, seen, hseen, realmEpoch, hrealmEpoch, userEpoch,
    huserEpoch, rfl⟩ := hparse
  rw [eq_of_parseInt64_formatInt hrealmId, eq_of_parseInt64_formatInt hissued,
    eq_of_parseInt64_formatInt hseen, eq_of_parseInt64_formatInt hrealmEpoch,
    eq_of_parseInt64_formatInt huserEpoch]

/-- A body of numbers that fit parses. -/
theorem parseBody_body
    (hfits : ∀ i ∈ [fields.realmId, fields.issued, fields.seen, fields.realmEpoch, fields.userEpoch],
      -2 ^ 63 ≤ i ∧ i < 2 ^ 63) : parseBody fields.body = some fields := by
  have hparse (i : ℤ) (hi : i ∈ [fields.realmId, fields.issued, fields.seen, fields.realmEpoch,
      fields.userEpoch]) : parseInt64 (formatInt i) = some i :=
    parseInt64_formatInt (hfits i hi).1 (hfits i hi).2
  rw [parseBody, splitOn_body]
  simp only [if_true, unb64_b64, Option.pure_def, Option.bind_eq_bind, Option.bind_some,
    hparse fields.realmId (by simp), hparse fields.issued (by simp),
    hparse fields.seen (by simp), hparse fields.realmEpoch (by simp),
    hparse fields.userEpoch (by simp)]

end Bodies

section Read

variable {hmac secret siteId} {realm : Realm} {cookie : Text} {now : ℤ} {session : Session}

/-- A session that is read is that of a body its cookie signs. -/
theorem read_eq_some_iff : read hmac secret siteId realm cookie now = some session ↔
    ∃ body fields, cookie = body ++ '.' :: sign hmac secret siteId body ∧
      parseBody body = some fields ∧ realm.honours fields now = true ∧
      fields.session now = session := by
  constructor
  · intro hread
    obtain ⟨⟨body, sig⟩, hsplit, hread⟩ := Option.bind_eq_some_iff.mp hread
    dsimp only at hread
    split at hread
    · rename_i hsame
      obtain ⟨fields, hparse, hread⟩ := Option.bind_eq_some_iff.mp hread
      split at hread
      · rename_i hhonours
        have hsig := Text.bytes_injective (same_iff.mp hsame)
        exact ⟨body, fields, hsig ▸ (rsplitOnce_eq_some hsplit).1, hparse, hhonours,
          Option.some.inj hread⟩
      · contradiction
    · contradiction
  · rintro ⟨body, fields, rfl, hparse, hhonours, rfl⟩
    have hdot : '.' ∉ sign hmac secret siteId body := dot_notMem_hex _
    have hsame : same (sign hmac secret siteId body).bytes (sign hmac secret siteId body).bytes =
        true := same_iff.mpr rfl
    rw [read, rsplitOnce_append hdot, Option.bind_eq_bind, Option.bind_some]
    dsimp only
    rw [if_pos hsame, hparse, Option.bind_eq_bind, Option.bind_some, if_pos hhonours]

end Read

end EasyWaf.Gateway
