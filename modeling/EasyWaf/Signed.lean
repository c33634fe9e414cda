import EasyWaf.Gateway.Session
import EasyWaf.Net.IpText
import EasyWaf.Signature
import EasyWaf.Text.Decimal
import EasyWaf.Upstream

/-!
# What the installation signs

One secret signs three kinds of cookies.  No two values are signed as the same
text, whichever their kinds, so that a reader accepts a signature for the value
it was made for and no other, as long as the keyed hash tells the two texts apart.

The clearance cookie: a visitor who answered a challenge carries the moment this
stops counting, signed together with the visitor's address.
-/

namespace EasyWaf.Challenge

open Signature Text

/-- `CLEARANCE_TTL_SECS`. -/
def clearanceTtlSecs : ℕ := 1800

variable (hmac : KeyedHash) (secret clientIp : Text)

def signedText (exp : ℕ) : Text := clientIp ++ '|' :: formatNat exp

/-- `sign`. -/
def sign (exp : ℕ) : Text := hex (hmac secret.bytes (signedText clientIp exp).bytes)

def makeClearance (now : ℕ) : Text :=
  let exp := now + clearanceTtlSecs
  formatNat exp ++ '.' :: sign hmac secret clientIp exp

def checkClearance (cookie : Text) (now : ℕ) : Bool :=
  match splitOnce '.' cookie with
  | none => false
  | some (expText, sig) =>
      match parseUnsigned (2 ^ 64) expText with
      | none => false
      | some exp =>
          if exp < now then false else same sig.bytes (sign hmac secret clientIp exp).bytes

/-- The expiry a cookie states. -/
def expiryOf (cookie : Text) : Option ℕ :=
  (splitOnce '.' cookie).bind fun (expText, _) => parseUnsigned (2 ^ 64) expText

variable {hmac secret clientIp} {cookie : Text} {now exp : ℕ}

/-- A cookie that is accepted ends with the signature of what it states. -/
theorem eq_of_checkClearance (hcheck : checkClearance hmac secret clientIp cookie now = true)
    (hexp : expiryOf cookie = some exp) :
    ∃ expText, cookie = expText ++ '.' :: sign hmac secret clientIp exp := by
  rw [checkClearance] at hcheck
  rw [expiryOf] at hexp
  split at hcheck
  · contradiction
  · rename_i expText sig hsplit
    rw [hsplit, Option.bind_some] at hexp
    simp only [hexp] at hcheck
    split at hcheck
    · contradiction
    · have hsig := Text.bytes_injective (same_iff.mp hcheck)
      exact ⟨expText, hsig ▸ (splitOnce_eq_some hsplit).1⟩

end EasyWaf.Challenge

/-! ## The three kinds -/

namespace EasyWaf.Signed

open Net Signature Text

/-- A value this installation signs, with its fields. -/
inductive Value
  | clearance (ip : IpAddr) (exp : ℕ)
  | pin (upstreamId : ℤ)
  | session (siteId : ℤ) (fields : Gateway.Fields)

namespace Value

/-- What a cookie shows in front of its signature. -/
def shown : Value → Text
  | clearance _ exp => formatNat exp
  | pin upstreamId => formatInt upstreamId
  | session _ fields => fields.body

/-- What is signed, up to the first bar. -/
def realm : Value → Text
  | clearance ip _ => formatIpAddr ip
  | pin _ => "upstream".toList
  | session _ _ => "gate".toList

/-- What is signed, after the first bar. -/
def rest : Value → Text
  | clearance _ exp => formatNat exp
  | pin upstreamId => formatInt upstreamId
  | session siteId fields => formatInt siteId ++ '|' :: fields.body

def text (value : Value) : Text := value.realm ++ '|' :: value.rest

variable (hmac : KeyedHash) (secret : Text)

def signature (value : Value) : Text := hex (hmac secret.bytes value.text.bytes)

/-- The cookie handed out. -/
def cookie (value : Value) : Text := value.shown ++ '.' :: value.signature hmac secret

end Value

section Makers

variable (hmac : KeyedHash) (secret : Text)

theorem makeClearance_eq (ip : IpAddr) (now : ℕ) :
    Challenge.makeClearance hmac secret (formatIpAddr ip) now =
      (Value.clearance ip (now + Challenge.clearanceTtlSecs)).cookie hmac secret := rfl

theorem makePin_eq (upstreamId : ℤ) :
    Upstream.makePin hmac secret upstreamId = (Value.pin upstreamId).cookie hmac secret := rfl

theorem mint_eq (siteId : ℤ) (realm : Gateway.Realm) (who : Gateway.Identity)
    (userEpoch issued seen : ℤ) :
    Gateway.mint hmac secret siteId realm who userEpoch issued seen =
      (Value.session siteId
        (Gateway.mintedFields realm who userEpoch issued seen)).cookie hmac secret := rfl

end Makers

/-- A reader accepts a cookie for a value, having compared the signature with that
of a text. -/
inductive Accepts (hmac : KeyedHash) (secret : Text) (cookie : Text) : Value → Text → Prop
  | clearance {ip : IpAddr} {exp now : ℕ} :
      Challenge.checkClearance hmac secret (formatIpAddr ip) cookie now = true →
      Challenge.expiryOf cookie = some exp →
      Accepts hmac secret cookie (.clearance ip exp) (Value.clearance ip exp).text
  | pin {upstreamId : ℤ} : Upstream.readPin hmac secret cookie = some upstreamId →
      Accepts hmac secret cookie (.pin upstreamId) (Value.pin upstreamId).text
  | session {siteId now : ℤ} {realm : Gateway.Realm} {session : Gateway.Session}
      {body sig : Text} {fields : Gateway.Fields} :
      Gateway.read hmac secret siteId realm cookie now = some session →
      rsplitOnce '.' cookie = some (body, sig) → Gateway.parseBody body = some fields →
      Accepts hmac secret cookie (.session siteId fields) (Gateway.signedText siteId body)

section Texts

variable {value other : Value}

theorem bar_notMem_formatIpAddr (ip : IpAddr) : '|' ∉ formatIpAddr ip := by
  intro hbar
  rcases mem_formatIpAddr hbar with hdot | hcolon | hdigit
  · contradiction
  · contradiction
  · exact absurd hdigit (by decide)

theorem bar_notMem_realm (value : Value) : '|' ∉ value.realm := by
  cases value with
  | clearance ip exp => exact bar_notMem_formatIpAddr ip
  | pin upstreamId =>
      change '|' ∉ "upstream".toList
      decide
  | session siteId fields =>
      change '|' ∉ "gate".toList
      decide

/-- No address is written like the name of a kind. -/
theorem formatIpAddr_ne {ip : IpAddr} {name : Text} {c : Char} (hc : c ∈ name)
    (hletter : c ≠ '.' ∧ c ≠ ':' ∧ isDigitOf 16 c = false) : formatIpAddr ip ≠ name := by
  rintro rfl
  rcases mem_formatIpAddr hc with hdot | hcolon | hdigit
  · exact hletter.1 hdot
  · exact hletter.2.1 hcolon
  · rw [hletter.2.2] at hdigit
    contradiction

/-- What is signed falls apart at the first bar. -/
theorem realm_and_rest_of_text {realm rest : Text} (hbar : '|' ∉ realm)
    (heq : value.text = realm ++ '|' :: rest) : value.realm = realm ∧ value.rest = rest := by
  have hsplit := congrArg (splitOnce '|') heq
  rw [Value.text, splitOnce_append (bar_notMem_realm value), splitOnce_append hbar] at hsplit
  exact Prod.mk.inj (Option.some.inj hsplit)

theorem eq_clearance_of_text {ip : IpAddr} {exp : ℕ}
    (heq : value.text = (Value.clearance ip exp).text) : value = .clearance ip exp := by
  obtain ⟨hrealm, hrest⟩ := realm_and_rest_of_text (bar_notMem_formatIpAddr ip) heq
  cases value with
  | clearance ip' exp' => rw [formatIpAddr_injective hrealm, formatNat_injective hrest]
  | pin upstreamId =>
      have hletter : 'u' ∈ "upstream".toList := by decide
      exact absurd hrealm.symm (formatIpAddr_ne hletter (by decide))
  | session siteId fields =>
      have hletter : 'g' ∈ "gate".toList := by decide
      exact absurd hrealm.symm (formatIpAddr_ne hletter (by decide))

theorem eq_pin_of_text {upstreamId : ℤ} (heq : value.text = (Value.pin upstreamId).text) :
    value = .pin upstreamId := by
  have hbar : '|' ∉ "upstream".toList := by decide
  obtain ⟨hrealm, hrest⟩ := realm_and_rest_of_text hbar heq
  cases value with
  | clearance ip exp =>
      have hletter : 'u' ∈ "upstream".toList := by decide
      exact absurd hrealm (formatIpAddr_ne hletter (by decide))
  | pin upstreamId' => rw [formatInt_injective hrest]
  | session siteId fields =>
      have hnames : "gate".toList ≠ "upstream".toList := by decide
      exact absurd hrealm hnames

theorem eq_session_of_text {siteId : ℤ} {body : Text}
    (heq : value.text = Gateway.signedText siteId body) :
    ∃ fields, value = .session siteId fields ∧ fields.body = body := by
  have hbar : '|' ∉ "gate".toList := by decide
  have hgate : Gateway.signedText siteId body =
      "gate".toList ++ '|' :: (formatInt siteId ++ '|' :: body) := by
    simp [Gateway.signedText]
  obtain ⟨hrealm, hrest⟩ := realm_and_rest_of_text hbar (heq.trans hgate)
  cases value with
  | clearance ip exp =>
      have hletter : 'g' ∈ "gate".toList := by decide
      exact absurd hrealm (formatIpAddr_ne hletter (by decide))
  | pin upstreamId =>
      have hnames : "upstream".toList ≠ "gate".toList := by decide
      exact absurd hrealm hnames
  | session siteId' fields =>
      have hsite (i : ℤ) : '|' ∉ formatInt i := not_mem_formatInt (by decide) (by decide) i
      have hsplit := congrArg (splitOnce '|') hrest
      rw [Value.rest, splitOnce_append (hsite siteId'), splitOnce_append (hsite siteId)] at hsplit
      obtain ⟨hid, hbody⟩ := Prod.mk.inj (Option.some.inj hsplit)
      exact ⟨fields, by rw [formatInt_injective hid], hbody⟩

end Texts

section Readers

variable {hmac : KeyedHash} {secret cookie front text : Text} {made read : Value}

/-- A digest can be told from a cookie that ends with it. -/
theorem digest_eq {front front' : Text} {digest digest' : List UInt8}
    (heq : front ++ '.' :: hex digest = front' ++ '.' :: hex digest') : digest = digest' := by
  have hsplit := congrArg (rsplitOnce '.') heq
  rw [rsplitOnce_append (dot_notMem_hex digest), rsplitOnce_append (dot_notMem_hex digest')]
    at hsplit
  exact hex_injective (Prod.mk.inj (Option.some.inj hsplit)).2

/-- What a reader accepts ends with the signature of the text it compared. -/
theorem exists_front (haccepts : Accepts hmac secret cookie read text) :
    ∃ front, cookie = front ++ '.' :: hex (hmac secret.bytes text.bytes) := by
  cases haccepts with
  | clearance hcheck hexp => exact Challenge.eq_of_checkClearance hcheck hexp
  | pin hread => exact Upstream.eq_of_readPin hread
  | session hread hsplit hparse =>
      obtain ⟨body', fields', rfl, -, -, -⟩ := Gateway.read_eq_some_iff.mp hread
      rw [Gateway.sign, rsplitOnce_append (dot_notMem_hex _)] at hsplit
      obtain ⟨rfl, -⟩ := Prod.mk.inj (Option.some.inj hsplit)
      exact ⟨body', rfl⟩

/-- The text a reader compared is that of the value it accepts alone. -/
theorem eq_of_text (haccepts : Accepts hmac secret cookie read text)
    (htext : made.text = text) : made = read := by
  cases haccepts with
  | clearance hcheck hexp => exact eq_clearance_of_text htext
  | pin hread => exact eq_pin_of_text htext
  | session hread hsplit hparse =>
      obtain ⟨fields, rfl, rfl⟩ := eq_session_of_text htext
      rw [Gateway.eq_of_parseBody_body hparse]

/-- Signed values cannot be swapped: a cookie that bears the signature of a value,
whatever stands in front of it, is accepted by the reader of that kind alone and
for that value alone, as long as the keyed hash does not take the text of the
value and the text the reader compares to one digest. -/
theorem signed_values_apart
    (haccepts : Accepts hmac secret (front ++ '.' :: made.signature hmac secret) read text)
    (hfree : Set.InjOn (hmac secret.bytes) {made.text.bytes, text.bytes}) : made = read := by
  obtain ⟨front', hfront⟩ := exists_front haccepts
  have hdigest := digest_eq hfront
  have hbytes := hfree (Set.mem_insert _ _) (Set.mem_insert_of_mem _ rfl) hdigest
  exact eq_of_text haccepts (Text.bytes_injective hbytes)

def sampleSecret : Text := "a secret that is long enough to be one".toList

/-- The digest of `upstream|7` under that secret. -/
def sampleDigest : List UInt8 :=
  [0x9c, 0x4f, 0x8a, 0x32, 0xc5, 0x72, 0x26, 0xcb, 0x00, 0xae, 0x7b, 0x29, 0x0c, 0x35,
    0x20, 0x69, 0xb2, 0x82, 0xb7, 0x2a, 0xf3, 0x57, 0xd8, 0xcb, 0xf9, 0xc1, 0x75, 0x74,
    0x46, 0x0f, 0xda, 0x2b]

def sampleHash : KeyedHash := fun key message =>
  if key = sampleSecret.bytes ∧ message = (Value.pin 7).text.bytes then sampleDigest else []

theorem signed_values_apart_of_pin :
    Upstream.readPin sampleHash sampleSecret (Upstream.makePin sampleHash sampleSecret 7) = some 7 ∧
      Value.pin 7 = Value.pin 7 := by
  have hread : Upstream.readPin sampleHash sampleSecret
      (Upstream.makePin sampleHash sampleSecret 7) = some 7 :=
    Upstream.readPin_makePin (by decide) (by decide)
  have haccepts : Accepts sampleHash sampleSecret
      ((Value.pin 7).shown ++ '.' :: (Value.pin 7).signature sampleHash sampleSecret) (.pin 7)
      (Value.pin 7).text := Accepts.pin hread
  have hfree : Set.InjOn (sampleHash sampleSecret.bytes)
      {(Value.pin 7).text.bytes, (Value.pin 7).text.bytes} := by
    rw [Set.pair_eq_singleton]
    exact Set.injOn_singleton _ _
  exact ⟨hread, signed_values_apart haccepts hfree⟩

end Readers

end EasyWaf.Signed
