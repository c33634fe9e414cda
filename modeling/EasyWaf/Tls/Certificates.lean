import EasyWaf.Core.HashMap
import EasyWaf.Db.Tables
import EasyWaf.Libraries

/-!
# The certificates of the sites

The rows the map of names to certificates is built from, and the map.  The query
of `reload` is the sites with an HTTPS port and a certificate, then their
aliases; nothing orders them, so `arrange` is the order they come in.  A key that spells
its curve out is told from others by a walk through its DER.
-/

namespace EasyWaf.Tls

open EasyWaf.Core

/-- The columns of `sites` that are read here. -/
structure Site where
  id : ℤ
  name : Text
  serverName : Text
  enabled : Bool
  tlsPort : Option ℤ
  certId : Option ℤ
  deriving DecidableEq

/-- What a certificate is, whatever has become of its renewals. -/
structure Certificate extends Db.Cert where
  name : Text
  domain : Option Text
  notBefore : Option Text
  notAfter : Option Text
  acmeDomain : Option Text
  deriving DecidableEq

/-- A row of `certs`. -/
structure CertRow extends Certificate where
  nextAttempt : Option Text
  failures : ℤ
  deriving DecidableEq

structure Tables where
  sites : List Site
  siteAliases : List Db.SiteAlias
  certs : List CertRow
  lastSite : ℤ
  lastAlias : ℤ
  lastCert : ℤ
  deriving DecidableEq

/-- A row of the query of `reload`. -/
structure TlsRow where
  serverName : Text
  certPem : Option Text
  keyPem : Option Text
  deriving DecidableEq

/-- `s.enabled = 1 AND s.tls_port IS NOT NULL`. -/
def Site.servesTls (site : Site) : Bool := site.enabled && site.tlsPort.isSome

/-- `JOIN certs c ON c.id = s.cert_id`. -/
def joinCert (certs : List Db.Cert) (site : Site) (name : Text) : List TlsRow :=
  (certs.filter fun cert => site.certId = some cert.id).map fun cert =>
    { serverName := name, certPem := cert.certPem, keyPem := cert.keyPem }

/-- The query of `reload`. -/
def tlsRows (sites : List Site) (aliases : List Db.SiteAlias) (certs : List Db.Cert) :
    List TlsRow :=
  (sites.filter (·.servesTls)).flatMap (fun site => joinCert certs site site.serverName) ++
    aliases.flatMap fun row =>
      (sites.filter fun site => site.id = row.siteId ∧ site.servesTls).flatMap fun site =>
        joinCert certs site row.name

section Map

variable {Key : Type} (libraries : Libraries) (certifiedKey : Text → Text → Option Key)

/-- The key of a row, where its PEM is there and loads. -/
def TlsRow.key (row : TlsRow) : Option Key := do
  let certPem ← row.certPem
  let keyPem ← row.keyPem
  certifiedKey certPem keyPem

/-- One more row; one whose certificate cannot be served is passed over. -/
def addCertificate (map : HashMap Text Key) (row : TlsRow) : HashMap Text Key :=
  match row.key certifiedKey with
  | some key => map.insert (libraries.toLowercase row.serverName) key
  | none => map

def certificateMap (rows : List TlsRow) : HashMap Text Key :=
  rows.foldl (addCertificate libraries certifiedKey) HashMap.empty

/-- What `reload` builds from the tables. -/
def build (arrange : List TlsRow → List TlsRow) (tables : Tables) : HashMap Text Key :=
  certificateMap libraries certifiedKey
    (arrange (tlsRows tables.sites tables.siteAliases (tables.certs.map fun row => row.toCert)))

end Map

/-! ## The statements -/

inductive Statement
  /-- `INSERT INTO sites`. -/
  | insertSite (name serverName : Text) (tlsPort certId : Option ℤ)
  | updateSite (name serverName : Text) (tlsPort certId : Option ℤ)
  | enableSite (name : Text) (enabled : Bool)
  | deleteSite (name : Text)
  /-- `UPDATE sites SET cert_id = ?, acme_enabled = 1 WHERE id = ?`. -/
  | assignCert (siteId certId : ℤ)
  /-- The transaction of `save_aliases`. -/
  | saveAliases (siteId : ℤ) (names : List Text)
  | deleteCert (name : Text)
  /-- `UPDATE certs SET acme_next_attempt = ?, acme_failures = ? WHERE name = ?`. -/
  | recordAttempt (name : Text) (nextAttempt : Option Text) (failures : ℤ)
  /-- A statement on tables nothing here reads. -/
  | elsewhere
  deriving DecidableEq

namespace Tables

/-- Foreign keys are enforced. -/
def HasCert (tables : Tables) : Option ℤ → Prop
  | none => True
  | some id => ∃ row ∈ tables.certs, row.id = id

instance (tables : Tables) : ∀ certId, Decidable (tables.HasCert certId)
  | none => .isTrue trivial
  | some id => inferInstanceAs (Decidable (∃ row ∈ tables.certs, row.id = id))

def site (tables : Tables) (name : Text) : Option Site := tables.sites.find? (·.name = name)

def cert (tables : Tables) (name : Text) : Option CertRow := tables.certs.find? (·.name = name)

def insertSite (tables : Tables) (name serverName : Text) (tlsPort certId : Option ℤ) :
    Option (ℤ × Tables) :=
  if (∃ site ∈ tables.sites, site.name = name ∨ site.serverName = serverName) ∨
      ¬ tables.HasCert certId then none
  else
    let id := tables.lastSite + 1
    some (id, { tables with
      lastSite := id
      sites := tables.sites ++ [{ id, name, serverName, enabled := true, tlsPort, certId }] })

def updateSite (tables : Tables) (name serverName : Text) (tlsPort certId : Option ℤ) :
    Option (ℤ × Tables) :=
  if (∃ site ∈ tables.sites, site.name ≠ name ∧ site.serverName = serverName) ∨
      ¬ tables.HasCert certId then none
  else
    some (0, { tables with
      sites := tables.sites.map fun site =>
        if site.name = name then { site with serverName, tlsPort, certId } else site })

def enableSite (tables : Tables) (name : Text) (enabled : Bool) : Tables :=
  { tables with
    sites := tables.sites.map fun site => if site.name = name then { site with enabled } else site }

/-- The aliases of a site go with it. -/
def deleteSite (tables : Tables) (name : Text) : Tables :=
  { tables with
    sites := tables.sites.filter (·.name ≠ name)
    siteAliases := tables.siteAliases.filter fun row =>
      ∀ site ∈ tables.sites, site.name = name → row.siteId ≠ site.id }

def assignCert (tables : Tables) (siteId certId : ℤ) : Option Tables :=
  if tables.HasCert (some certId) then
    some { tables with
      sites := tables.sites.map fun site =>
        if site.id = siteId then { site with certId := some certId } else site }
  else none

def aliasRows (lastAlias siteId : ℤ) (names : List Text) : List Db.SiteAlias :=
  names.zipIdx.map fun (name, place) => { id := lastAlias + 1 + place, siteId, name }

def saveAliases (tables : Tables) (siteId : ℤ) (names : List Text) : Option Tables :=
  let others := tables.siteAliases.filter (·.siteId ≠ siteId)
  if names.Nodup ∧ (∀ name ∈ names, ∀ row ∈ others, row.name ≠ name) ∧
      (names = [] ∨ ∃ site ∈ tables.sites, site.id = siteId) then
    some { tables with
      siteAliases := others ++ aliasRows tables.lastAlias siteId names
      lastAlias := tables.lastAlias + names.length }
  else none

/-- `INSERT INTO certs ... ON CONFLICT(name) DO UPDATE`: the row of its name keeps its
number and what is said of its renewals. -/
def storeCert (tables : Tables) (certificate : Certificate) : Tables :=
  if ∃ row ∈ tables.certs, row.name = certificate.name then
    { tables with
      certs := tables.certs.map fun row =>
        if row.name = certificate.name then
          { row with toCertificate := { certificate with id := row.id } }
        else row }
  else
    let id := tables.lastCert + 1
    { tables with
      lastCert := id
      certs := tables.certs ++
        [{ toCertificate := { certificate with id }, nextAttempt := none, failures := 0 }] }

/-- `ON DELETE SET NULL`. -/
def deleteCert (tables : Tables) (name : Text) : Tables :=
  { tables with
    certs := tables.certs.filter (·.name ≠ name)
    sites := tables.sites.map fun site =>
      if ∃ row ∈ tables.certs, row.name = name ∧ site.certId = some row.id then
        { site with certId := none }
      else site }

def recordAttempt (tables : Tables) (name : Text) (nextAttempt : Option Text) (failures : ℤ) :
    Tables :=
  { tables with
    certs := tables.certs.map fun row =>
      if row.name = name then { row with nextAttempt, failures } else row }

/-- What a statement answers, the number of the row it adds or of those it deletes,
and the tables after it; a constraint makes it fail. -/
def execute (tables : Tables) : Statement → Option (ℤ × Tables)
  | .insertSite name serverName tlsPort certId => tables.insertSite name serverName tlsPort certId
  | .updateSite name serverName tlsPort certId => tables.updateSite name serverName tlsPort certId
  | .enableSite name enabled => some (0, tables.enableSite name enabled)
  | .deleteSite name => some (0, tables.deleteSite name)
  | .assignCert siteId certId => (tables.assignCert siteId certId).map fun next => (0, next)
  | .saveAliases siteId names => (tables.saveAliases siteId names).map fun next => (0, next)
  | .deleteCert name => some ((tables.certs.countP (·.name = name) : ℤ), tables.deleteCert name)
  | .recordAttempt name nextAttempt failures =>
      some (0, tables.recordAttempt name nextAttempt failures)
  | .elsewhere => some (0, tables)

end Tables

/-! ## Keys whose curve is spelled out -/

section Walking

/-- `der.get(first..last)`. -/
def slice? (der : List UInt8) (first last : ℕ) : Option (List UInt8) :=
  if first ≤ last ∧ last ≤ der.length then some ((der.take last).drop first) else none

/-- The length that follows a tag, and where the content starts. -/
def derLength (der : List UInt8) (offset : ℕ) (first : UInt8) : Option (ℕ × ℕ) :=
  if first < 0x80 then some (first.toNat, offset + 2)
  else
    -- the long form: the low bits say how many bytes of a length follow
    let n := first.toNat &&& 0x7F
    if n = 0 ∨ 2 < n then none
    else (slice? der (offset + 2) (offset + 2 + n)).map fun bytes =>
      (bytes.foldl (fun acc byte => acc <<< 8 ||| byte.toNat) 0, offset + 2 + n)

/-- `der_element`: the tag, where the content starts and where the next element does. -/
def derElement (der : List UInt8) (offset : ℕ) (tag : UInt8) : Option (UInt8 × ℕ × ℕ) := do
  let found ← der[offset]?
  if found ≠ tag then none
  else
    let first ← der[offset + 1]?
    let (len, start) ← derLength der offset first
    if start + len ≤ der.length then some (tag, start, start + len) else none

/-- A key as its PEM names it. -/
inductive PrivateKeyDer
  | pkcs1 (der : List UInt8)
  | sec1 (der : List UInt8)
  | pkcs8 (der : List UInt8)

/-- `EC_PUBLIC_KEY`. -/
def ecPublicKey : List UInt8 := [0x2A, 0x86, 0x48, 0xCE, 0x3D, 0x02, 0x01]

/-- The tag of what stands where a key has its curve. -/
def curveTag : PrivateKeyDer → Option UInt8
  | .pkcs8 der => do
      let (_, start, _) ← derElement der 0 0x30
      let (_, _, next) ← derElement der start 0x02
      let (_, algorithm, _) ← derElement der next 0x30
      let (_, oid, after) ← derElement der algorithm 0x06
      let found ← slice? der oid after
      guard (found = ecPublicKey)
      der[after]?
  | .sec1 der => do
      let (_, start, _) ← derElement der 0 0x30
      let (_, _, next) ← derElement der start 0x02
      let (_, _, next) ← derElement der next 0x04
      let (_, parameters, _) ← derElement der next 0xA0
      der[parameters]?
  | .pkcs1 _ => none

/-- `ec_curve_spelled_out`. -/
def ecCurveSpelledOut (key : PrivateKeyDer) : Bool := curveTag key = some 0x30

end Walking

section Encoding

/-- The length of an element as DER writes it, up to two bytes of it. -/
def lengthBytes (n : ℕ) : List UInt8 :=
  if n < 0x80 then [UInt8.ofNat n]
  else if n < 0x100 then [0x81, UInt8.ofNat n]
  else [0x82, UInt8.ofNat (n / 0x100), UInt8.ofNat (n % 0x100)]

/-- An element of DER. -/
def element (tag : UInt8) (content : List UInt8) : List UInt8 :=
  tag :: (lengthBytes content.length ++ content)

/-- A curve, by its name or spelled out. -/
inductive Curve
  | named (oid : List UInt8)
  | spelledOut (parameters : List UInt8)

def Curve.der : Curve → List UInt8
  | .named oid => element 0x06 oid
  | .spelledOut parameters => element 0x30 parameters

def Curve.isSpelledOut : Curve → Bool
  | .named _ => false
  | .spelledOut _ => true

/-- A private key: of an elliptic curve in either wrapping, or of another algorithm. -/
inductive PrivateKey
  | pkcs8 (version : List UInt8) (curve : Curve) (rest : List UInt8)
  | sec1 (version privateKey : List UInt8) (curve : Option Curve) (publicKey : Option (List UInt8))
  | other (version oid parameters rest : List UInt8) (hother : oid ≠ ecPublicKey)

namespace PrivateKey

/-- The content of the outermost element. -/
def body : PrivateKey → List UInt8
  | .pkcs8 version curve rest =>
      element 0x02 version ++ (element 0x30 (element 0x06 ecPublicKey ++ curve.der) ++ rest)
  | .sec1 version privateKey curve publicKey =>
      element 0x02 version ++ (element 0x04 privateKey ++
        (curve.elim [] (fun curve => element 0xA0 curve.der) ++
          publicKey.elim [] fun publicKey => element 0xA1 publicKey))
  | .other version oid parameters rest _ =>
      element 0x02 version ++ (element 0x30 (element 0x06 oid ++ parameters) ++ rest)

def der (key : PrivateKey) : PrivateKeyDer :=
  match key with
  | .sec1 .. => .sec1 (element 0x30 key.body)
  | .pkcs8 .. | .other .. => .pkcs8 (element 0x30 key.body)

def spellsOut : PrivateKey → Bool
  | .pkcs8 _ curve _ => curve.isSpelledOut
  | .sec1 _ _ curve _ => curve.any (·.isSpelledOut)
  | .other .. => false

end PrivateKey

variable {der before after content : List UInt8} {tag other : UInt8}

theorem slice?_of_eq (hder : der = before ++ (content ++ after)) :
    slice? der before.length (before ++ content).length = some content := by
  subst hder
  rw [slice?, if_pos (by simp), ← List.append_assoc, List.take_left, List.drop_left]

theorem derElement_of_derLength {len start : ℕ} {first : UInt8} {rest : List UInt8}
    (hder : der = before ++ (tag :: first :: rest))
    (hread : derLength der before.length first = some (len, start))
    (hlen : start + len ≤ der.length) :
    derElement der before.length tag = some (tag, start, start + len) := by
  have hfound : der[before.length]? = some tag := by simp [hder]
  have hfirst : der[before.length + 1]? = some first := by simp [hder]
  simp [derElement, hfound, hfirst, hread, hlen]

/-- A length as it is written is read. -/
theorem derLength_lengthBytes {n : ℕ} {rest : List UInt8} (hshort : n < 0x10000)
    (hder : der = before ++ (tag :: (lengthBytes n ++ rest))) :
    ∃ first more, lengthBytes n = first :: more ∧
      derLength der before.length first =
        some (n, (before ++ tag :: lengthBytes n).length) := by
  have hnat : ∀ m < 0x100, (UInt8.ofNat m).toNat = m := fun m hm => by
    rw [UInt8.toNat_ofNat', Nat.mod_eq_of_lt hm]
  by_cases hone : n < 0x80
  · have hbytes : lengthBytes n = [UInt8.ofNat n] := if_pos hone
    have hsmall : UInt8.ofNat n < 0x80 := by
      rw [UInt8.lt_iff_toNat_lt, hnat n (by omega)]
      exact hone
    refine ⟨_, _, hbytes, ?_⟩
    rw [derLength, if_pos hsmall, hnat n (by omega), hbytes]
    simp
  · by_cases htwo : n < 0x100
    · have hbytes : lengthBytes n = [0x81, UInt8.ofNat n] := by
        rw [lengthBytes, if_neg hone, if_pos htwo]
      have hslice : slice? der (before.length + 2) (before.length + 2 + 1) =
          some [UInt8.ofNat n] := by
        have hread := @slice?_of_eq der (before ++ [tag, 0x81]) rest [UInt8.ofNat n]
          (by simp [hder, hbytes])
        simpa using hread
      refine ⟨_, _, hbytes, ?_⟩
      have hlong : (0x81 : UInt8).toNat &&& 0x7F = 1 := rfl
      rw [derLength, if_neg (by decide)]
      simp only [hlong]
      rw [if_neg (by decide), hslice, hbytes]
      simp [hnat n htwo]
    · have hbytes : lengthBytes n =
          [0x82, UInt8.ofNat (n / 0x100), UInt8.ofNat (n % 0x100)] := by
        rw [lengthBytes, if_neg hone, if_neg htwo]
      have hslice : slice? der (before.length + 2) (before.length + 2 + 2) =
          some [UInt8.ofNat (n / 0x100), UInt8.ofNat (n % 0x100)] := by
        have hread := @slice?_of_eq der (before ++ [tag, 0x82]) rest
          [UInt8.ofNat (n / 0x100), UInt8.ofNat (n % 0x100)] (by simp [hder, hbytes])
        simpa using hread
      have hvalue : (n / 0x100) <<< 8 ||| n % 0x100 = n := by
        rw [← Nat.shiftLeft_add_eq_or_of_lt (Nat.mod_lt n (by decide)), Nat.shiftLeft_eq]
        omega
      refine ⟨_, _, hbytes, ?_⟩
      have hlong : (0x82 : UInt8).toNat &&& 0x7F = 2 := rfl
      rw [derLength, if_neg (by decide)]
      simp only [hlong]
      rw [if_neg (by decide), hslice, hbytes]
      simp only [Option.map_some, List.foldl_cons, List.foldl_nil, hnat (n / 0x100) (by omega),
        hnat (n % 0x100) (by omega), Nat.zero_shiftLeft, Nat.zero_or, hvalue]
      simp

/-- An element is read where it stands. -/
theorem derElement_of_eq (hder : der = before ++ (element tag content ++ after))
    (hshort : content.length < 0x10000) :
    derElement der before.length tag =
      some (tag, (before ++ tag :: lengthBytes content.length).length,
        (before ++ element tag content).length) := by
  have hsplit : der = before ++ (tag :: (lengthBytes content.length ++ (content ++ after))) := by
    simp [hder, element]
  obtain ⟨first, more, hbytes, hread⟩ := derLength_lengthBytes hshort hsplit
  have hend : (before ++ element tag content).length =
      (before ++ tag :: lengthBytes content.length).length + content.length := by
    simp [element]
    omega
  rw [hend]
  refine @derElement_of_derLength der before tag _ _ first (more ++ (content ++ after)) ?_ hread ?_
  · rw [hsplit, hbytes, List.cons_append]
  · rw [← hend, hder]
    simp

/-- Another element is none. -/
theorem derElement_eq_none (hder : der = before ++ (element other content ++ after))
    (htag : other ≠ tag) : derElement der before.length tag = none := by
  subst hder
  simp [derElement, element, htag]

theorem derElement_end (before : List UInt8) (tag : UInt8) :
    derElement before before.length tag = none := by
  simp [derElement]

theorem length_le_element (tag : UInt8) (content : List UInt8) :
    content.length ≤ (element tag content).length := by
  simp only [element, List.length_cons, List.length_append]
  omega

/-- The place of the curve in PKCS#8, behind the algorithm's name. -/
theorem curveTag_pkcs8 {version oid parameters rest body algorithm : List UInt8}
    (halgorithm : algorithm = element 0x06 oid ++ parameters)
    (hbody : body = element 0x02 version ++ (element 0x30 algorithm ++ rest))
    (hsize : body.length < 0x10000) :
    curveTag (.pkcs8 (element 0x30 body)) =
      if oid = ecPublicKey then (parameters ++ rest)[0]? else none := by
  obtain ⟨der, hder⟩ : ∃ der, der = element 0x30 body := ⟨_, rfl⟩
  obtain ⟨opened, hopened⟩ : ∃ opened, opened = 0x30 :: lengthBytes body.length := ⟨_, rfl⟩
  obtain ⟨inside, hinside⟩ : ∃ inside,
      inside = opened ++ element 0x02 version ++ 0x30 :: lengthBytes algorithm.length := ⟨_, rfl⟩
  have hsmall : version.length < 0x10000 ∧ algorithm.length < 0x10000 ∧ oid.length < 0x10000 := by
    have hversion := length_le_element 0x02 version
    have halg := length_le_element 0x30 algorithm
    have hoid := length_le_element 0x06 oid
    have htotal := congrArg List.length hbody
    have hinner := congrArg List.length halgorithm
    simp only [List.length_append] at htotal hinner
    omega
  have hwhole : der = opened ++ (element 0x02 version ++ (element 0x30 algorithm ++ rest)) := by
    rw [hder, hopened, ← hbody, element, List.cons_append]
  have hnamed : der = inside ++ (element 0x06 oid ++ (parameters ++ rest)) := by
    rw [hwhole, hinside, element.eq_def 0x30, halgorithm]
    simp only [List.append_assoc, List.cons_append]
  have houter := @derElement_of_eq der [] [] body 0x30 (by simp [hder]) hsize
  have hversion := derElement_of_eq hwhole hsmall.1
  have halg := @derElement_of_eq der (opened ++ element 0x02 version) rest algorithm 0x30
    (by rw [hwhole, List.append_assoc]) hsmall.2.1
  have hoid := derElement_of_eq hnamed hsmall.2.2
  have hslice := @slice?_of_eq der (inside ++ 0x06 :: lengthBytes oid.length) (parameters ++ rest)
    oid (by rw [hnamed, element]; simp only [List.append_assoc, List.cons_append])
  have hcurve : der[(inside ++ element 0x06 oid).length]? = (parameters ++ rest)[0]? := by
    rw [hnamed, ← List.append_assoc, List.getElem?_append_right (le_refl _), Nat.sub_self]
  rw [List.nil_append, ← hopened, List.length_nil] at houter
  rw [← hinside] at halg
  have hcontent : inside ++ element 0x06 oid = inside ++ 0x06 :: lengthBytes oid.length ++ oid := by
    rw [element]
    simp only [List.append_assoc, List.cons_append]
  rw [← hcontent] at hslice
  simp only [← hder, curveTag, houter, hversion, halg, hoid, hslice, hcurve, Option.bind_eq_bind,
    Option.bind_some]
  by_cases hname : oid = ecPublicKey
  · rw [if_pos hname, guard, if_pos hname]
    rfl
  · rw [if_neg hname, guard, if_neg hname]
    rfl

/-- The place of the curve in a key of SEC 1, behind the private key. -/
theorem curveTag_sec1 {version privateKey rest body : List UInt8}
    (hbody : body = element 0x02 version ++ (element 0x04 privateKey ++ rest))
    (hsize : body.length < 0x10000) :
    ∃ before, element 0x30 body = before ++ rest ∧
      curveTag (.sec1 (element 0x30 body)) =
        (derElement (element 0x30 body) before.length 0xA0).bind fun found =>
          (element 0x30 body)[found.2.1]? := by
  obtain ⟨der, hder⟩ : ∃ der, der = element 0x30 body := ⟨_, rfl⟩
  obtain ⟨opened, hopened⟩ : ∃ opened, opened = 0x30 :: lengthBytes body.length := ⟨_, rfl⟩
  have hsmall : version.length < 0x10000 ∧ privateKey.length < 0x10000 := by
    have hversion := length_le_element 0x02 version
    have hkey := length_le_element 0x04 privateKey
    have htotal := congrArg List.length hbody
    simp only [List.length_append] at htotal
    omega
  have hwhole : der = opened ++ (element 0x02 version ++ (element 0x04 privateKey ++ rest)) := by
    rw [hder, hopened, ← hbody, element, List.cons_append]
  have houter := @derElement_of_eq der [] [] body 0x30 (by simp [hder]) hsize
  have hversion := derElement_of_eq hwhole hsmall.1
  have hkey := @derElement_of_eq der (opened ++ element 0x02 version) rest privateKey 0x04
    (by rw [hwhole, List.append_assoc]) hsmall.2
  rw [List.nil_append, ← hopened, List.length_nil] at houter
  refine ⟨opened ++ element 0x02 version ++ element 0x04 privateKey, ?_, ?_⟩
  · rw [← hder, hwhole, List.append_assoc, List.append_assoc]
  · simp only [← hder, curveTag, houter, hversion, hkey, Option.bind_eq_bind, Option.bind_some]

/-- A public key is no curve. -/
theorem derElement_publicKey (before : List UInt8) (publicKey : Option (List UInt8)) :
    derElement (before ++ publicKey.elim [] fun publicKey => element 0xA1 publicKey)
      before.length 0xA0 = none := by
  cases publicKey with
  | none => simpa using derElement_end before 0xA0
  | some publicKey =>
      exact @derElement_eq_none _ before [] publicKey 0xA0 0xA1 (by simp) (by decide)

theorem head_curve (curve : Curve) (rest : List UInt8) :
    (curve.der ++ rest)[0]? = some (if curve.isSpelledOut then 0x30 else 0x06) := by
  cases curve <;> rfl

/-- However a key is wrapped, and whatever bytes are in it, it is told that it spells its
curve out exactly where it does. -/
theorem ecCurveSpelledOut_der (key : PrivateKey) (hsize : key.body.length < 0x10000) :
    ecCurveSpelledOut key.der = key.spellsOut := by
  cases key with
  | pkcs8 version curve rest =>
      have htag := curveTag_pkcs8 rfl rfl hsize
      rw [if_pos rfl, head_curve] at htag
      rw [ecCurveSpelledOut, PrivateKey.der, PrivateKey.body, htag]
      cases curve <;> rfl
  | other version oid parameters rest hother =>
      have htag := curveTag_pkcs8 rfl rfl hsize
      rw [if_neg hother] at htag
      rw [ecCurveSpelledOut, PrivateKey.der, PrivateKey.body, htag]
      rfl
  | sec1 version privateKey curve publicKey =>
      obtain ⟨before, hder, htag⟩ := curveTag_sec1 rfl hsize
      rw [ecCurveSpelledOut, PrivateKey.der, PrivateKey.body, htag]
      cases curve with
      | none =>
          rw [Option.elim_none, List.nil_append] at hder ⊢
          rw [hder, derElement_publicKey]
          rfl
      | some curve =>
          have hshort : curve.der.length < 0x10000 := by
            have hcurve := length_le_element 0xA0 curve.der
            simp only [PrivateKey.body, List.length_append, Option.elim_some] at hsize
            omega
          rw [Option.elim_some] at hder ⊢
          rw [derElement_of_eq hder hshort, Option.bind_some, hder, element, List.cons_append,
            List.append_assoc, ← List.cons_append, ← List.append_assoc,
            List.getElem?_append_right (le_refl _), Nat.sub_self, head_curve]
          cases curve <;> rfl

/-- The private key has the tag of the curve among its bytes. -/
theorem curve_found_behind_private_key :
    ecCurveSpelledOut (PrivateKey.sec1 [1] [0xA0, 0x06] (some (.spelledOut [0x02])) none).der =
      true :=
  ecCurveSpelledOut_der _ (by decide)

end Encoding

end EasyWaf.Tls
