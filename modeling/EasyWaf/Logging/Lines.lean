import EasyWaf.Logging.Field
import EasyWaf.Net.IpText
import EasyWaf.Routes.Redirects
import EasyWaf.Text.Decimal

/-!
# The lines of the log

Requests, changes by an administrator and sign-ins of visitors are a line each.  A line
reads back as its fields; it is one line where none of its values holds a line break.
What became of a change is read of the answer to it.
-/

namespace EasyWaf.Logging

open Logfmt Net

/-- A moment as `%Y-%m-%dT%H:%M:%SZ` shows it. -/
structure Moment where
  year : ℕ
  month : ℕ
  day : ℕ
  hour : ℕ
  minute : ℕ
  second : ℕ

def padded (width n : ℕ) : Text := (Text.formatNat n).leftpad width '0'

def stamp (now : Moment) : Text :=
  padded 4 now.year ++ '-' :: padded 2 now.month ++ '-' :: padded 2 now.day ++
    'T' :: padded 2 now.hour ++ ':' :: padded 2 now.minute ++ ':' :: padded 2 now.second ++ ['Z']

/-! ## The audit trail -/

def maxPath : ℕ := 256

def maxDetail : ℕ := 256

/-- A change by an administrator. -/
structure Event where
  user : Text
  role : Text
  client : Text
  method : Text
  path : Text
  status : ℕ
  result : Text
  detail : Text
  ms : ℕ

/-- `audit::line`. -/
def auditLine (now : Moment) (e : Event) : Text :=
  Text.join [' '] ([
    entry "ts" (stamp now),
    entry "user" (field e.user),
    entry "role" (field e.role),
    entry "client" (field e.client),
    entry "method" (field e.method),
    entry "path" (field (clip e.path maxPath)),
    entry "status" (Text.formatNat e.status),
    entry "result" (field e.result),
    entry "ms" (Text.formatNat e.ms)] ++
    if e.detail ≠ [] then [entry "detail" (field (clip e.detail maxDetail))] else [])

inductive SignInResult
  | signedIn
  | signedOut
  | refused
  | throttled
  | wrongCode

def SignInResult.text : SignInResult → Text
  | .signedIn => "signed-in".toList
  | .signedOut => "signed-out".toList
  | .refused => "refused".toList
  | .throttled => "throttled".toList
  | .wrongCode => "wrong-code".toList

/-- A visitor's sign-in to a site. -/
structure SiteSignIn where
  site : Text
  realm : Text
  user : Text
  client : IpAddr
  result : SignInResult

/-- `gateway_audit`. -/
def gatewayLine (now : Moment) (e : SiteSignIn) : Text :=
  Text.join [' '] [
    entry "ts" (stamp now),
    entry "event" "site-sign-in".toList,
    entry "site" (field e.site),
    entry "realm" (field e.realm),
    entry "user" (field (clip e.user 128)),
    entry "client" (formatIpAddr e.client),
    entry "result" e.result.text]

/-! ## Requests -/

/-- What the line of a request is written from.  The rules are read of their JSON. -/
structure TrafficRecord where
  siteName : Text
  clientIp : Text
  method : Text
  host : Text
  path : Text
  query : Option Text
  statusCode : ℤ
  responseMs : ℤ
  blocked : Bool
  blockReason : Option Text
  wafScore : Option ℤ
  matchedRules : Option Text
  country : Option Text
  detection : Option Text
  user : Option Text

namespace TrafficRecord

def startsWith (start : String) (reason : Option Text) : Bool :=
  reason.any fun text => start.toList.isPrefixOf text

def verdict (r : TrafficRecord) : Text :=
  if r.blocked then "blocked".toList
  else if startsWith "challenge:" r.blockReason then "challenged".toList
  else if r.user.isNone && startsWith "sign-in:" r.blockReason then "unauthenticated".toList
  else
    match r.detection with
    | some detection =>
        if detection = "would_block".toList then "would_block".toList
        else if detection = "would_challenge".toList then "would_challenge".toList
        else "scored".toList
    | none => "passed".toList

/-- Path and query. -/
def target (r : TrafficRecord) : Text :=
  match r.query with
  | some query => if query ≠ [] then r.path ++ '?' :: query else r.path
  | none => r.path

end TrafficRecord

variable (hitIds : Text → Option (List (Option ℤ)))

/-- The catalogue numbers of the rules that matched. -/
def ruleIds (r : TrafficRecord) : List ℤ :=
  match r.matchedRules with
  | some json => ((hitIds json).getD []).filterMap id
  | none => []

/-- A value that is there and not empty. -/
def shown (value : Option Text) : Option Text := value.filter (· ≠ [])

/-- `flow_line`. -/
def flowLine (now : Moment) (r : TrafficRecord) : Text :=
  Text.join [' '] ([
    entry "ts" (stamp now),
    entry "site" (field r.siteName),
    entry "host" (field r.host),
    entry "client" (field r.clientIp),
    entry "method" (field r.method),
    entry "path" (field (clip r.target 512)),
    entry "status" (Text.formatInt r.statusCode),
    entry "ms" (Text.formatInt r.responseMs),
    entry "verdict" r.verdict] ++
    ((shown r.country).toList.map fun country => entry "country" (field country)) ++
    ((shown r.user).toList.map fun user => entry "user" (field user)) ++
    (r.wafScore.toList.map fun score => entry "score" (Text.formatInt score)) ++
    (if ruleIds hitIds r ≠ [] then
      [entry "rules" (Text.join [','] ((ruleIds hitIds r).map Text.formatInt))] else []) ++
    ((shown r.blockReason).toList.map fun reason => entry "reason" (field (clip reason 256))))

/-! ## What the lines say -/

inductive Record
  | audit (event : Event)
  | signIn (event : SiteSignIn)
  | flow (record : TrafficRecord)

def Record.line (now : Moment) : Record → Text
  | .audit event => auditLine now event
  | .signIn event => gatewayLine now event
  | .flow record => flowLine hitIds now record

/-- The keys of a line and the values they stand for, long ones clipped. -/
def Record.fields (now : Moment) : Record → List (String × Text)
  | .audit e => [("ts", stamp now), ("user", e.user), ("role", e.role), ("client", e.client),
      ("method", e.method), ("path", clip e.path maxPath), ("status", Text.formatNat e.status),
      ("result", e.result), ("ms", Text.formatNat e.ms)] ++
      if e.detail ≠ [] then [("detail", clip e.detail maxDetail)] else []
  | .signIn e => [("ts", stamp now), ("event", "site-sign-in".toList), ("site", e.site),
      ("realm", e.realm), ("user", clip e.user 128), ("client", formatIpAddr e.client),
      ("result", e.result.text)]
  | .flow r => [("ts", stamp now), ("site", r.siteName), ("host", r.host), ("client", r.clientIp),
      ("method", r.method), ("path", clip r.target 512), ("status", Text.formatInt r.statusCode),
      ("ms", Text.formatInt r.responseMs), ("verdict", r.verdict)] ++
      ((shown r.country).toList.map fun country => ("country", country)) ++
      ((shown r.user).toList.map fun user => ("user", user)) ++
      (r.wafScore.toList.map fun score => ("score", Text.formatInt score)) ++
      (if ruleIds hitIds r ≠ [] then
        [("rules", Text.join [','] ((ruleIds hitIds r).map Text.formatInt))] else []) ++
      ((shown r.blockReason).toList.map fun reason => ("reason", clip reason 256))

def isLineBreak (c : Char) : Bool := c = '\n' || c = '\r'

/-- Nothing that ends a line. -/
def OneLine (text : Text) : Prop := ∀ c ∈ text, isLineBreak c = false

instance (text : Text) : Decidable (OneLine text) :=
  decidable_of_iff (text.all fun c => !isLineBreak c) (by simp [OneLine])

section Written

variable {value : Text}

/-- Letters, digits and the marks of numbers, dates and addresses. -/
def isCode (c : Char) : Bool :=
  let n := c.toNat
  (44 ≤ n && n ≤ 58) || (65 ≤ n && n ≤ 90) || n == 95 || (97 ≤ n && n ≤ 122)

theorem clean_of_isCode {c : Char} (hcode : isCode c = true) :
    Text.isWhitespace c = false ∧ c ≠ '"' ∧ c ≠ '=' ∧ c ≠ '\\' := by
  refine ⟨?_, ?_, ?_, ?_⟩
  · simp only [isCode, Bool.or_eq_true, Bool.and_eq_true, decide_eq_true_eq, beq_iff_eq] at hcode
    simp only [Text.isWhitespace, Bool.or_eq_false_iff, Bool.and_eq_false_iff,
      decide_eq_false_iff_not, beq_eq_false_iff_ne]
    omega
  · rintro rfl
    contradiction
  · rintro rfl
    contradiction
  · rintro rfl
    contradiction

theorem isCode_of_isDigit {c : Char} (hdigit : c.isDigit = true) : isCode c = true := by
  have hrange := Char.isDigit_iff_toNat.mp hdigit
  have hzero : '0'.toNat = 48 := rfl
  have hnine : '9'.toNat = 57 := rfl
  simp only [isCode, Bool.or_eq_true, Bool.and_eq_true, decide_eq_true_eq, beq_iff_eq]
  omega

theorem isCode_of_isDigitOf {c : Char} (hdigit : isDigitOf 16 c = true) : isCode c = true := by
  simp only [isDigitOf, Bool.and_eq_true, Bool.or_eq_true, decide_eq_true_eq] at hdigit
  rcases hdigit.1 with hten | hletter
  · exact isCode_of_isDigit hten
  · simp only [isCode, Bool.or_eq_true, Bool.and_eq_true, decide_eq_true_eq, beq_iff_eq]
    rw [Char.toLower] at hletter
    split at hletter
    · next hupper =>
        have hlow : 65 ≤ c.toNat := UInt32.le_iff_toNat_le.mp hupper.1
        have hhigh : c.toNat ≤ 90 := UInt32.le_iff_toNat_le.mp hupper.2
        omega
    · have hlow : 97 ≤ c.toNat := UInt32.le_iff_toNat_le.mp hletter.1
      have hhigh : c.toNat ≤ 122 := UInt32.le_iff_toNat_le.mp hletter.2
      omega

/-- A value with nothing to quote in it. -/
structure IsCode (value : Text) : Prop where
  ne_nil : value ≠ []
  all : ∀ c ∈ value, isCode c = true

instance (value : Text) : Decidable (IsCode value) :=
  decidable_of_iff (value ≠ [] ∧ value.all isCode = true)
    ⟨fun h => ⟨h.1, List.all_eq_true.mp h.2⟩, fun h => ⟨h.ne_nil, List.all_eq_true.mpr h.all⟩⟩

theorem IsCode.field_eq (hcode : IsCode value) : field value = value :=
  field_of_clean hcode.ne_nil fun c hc => clean_of_isCode (hcode.all c hc)

theorem isCode_formatNat (n : ℕ) : IsCode (Text.formatNat n) where
  ne_nil := Nat.toDigits_ne_nil
  all _ hc := isCode_of_isDigit (Text.isDigit_of_mem_formatNat hc)

theorem isCode_formatInt (i : ℤ) : IsCode (Text.formatInt i) := by
  cases i with
  | ofNat n => exact isCode_formatNat n
  | negSucc n =>
      refine ⟨List.cons_ne_nil _ _, fun c hc => ?_⟩
      rcases List.mem_cons.mp hc with rfl | hdigit
      · decide
      · exact (isCode_formatNat _).all c hdigit

theorem isCode_padded (width n : ℕ) : ∀ c ∈ padded width n, isCode c = true := by
  intro c hc
  rw [padded, List.leftpad] at hc
  rcases List.mem_append.mp hc with hzero | hdigit
  · rw [List.eq_of_mem_replicate hzero]
    decide
  · exact (isCode_formatNat n).all c hdigit

theorem isCode_stamp (now : Moment) : IsCode (stamp now) := by
  refine ⟨by simp [stamp], ?_⟩
  have hmark : isCode '-' = true ∧ isCode 'T' = true ∧ isCode ':' = true ∧ isCode 'Z' = true := by
    decide
  have hpadded (width n : ℕ) : ∀ c ∈ padded width n, isCode c = true := isCode_padded width n
  simp only [stamp, List.forall_mem_append, List.forall_mem_cons, hmark]
  simp only [List.not_mem_nil, false_imp_iff, implies_true, true_and, and_true]
  exact ⟨⟨⟨⟨⟨hpadded _ _, hpadded _ _⟩, hpadded _ _⟩, hpadded _ _⟩, hpadded _ _⟩, hpadded _ _⟩

theorem formatIpv6_ne_nil (bits : BitVec 128) : formatIpv6 bits ≠ [] := by
  rw [formatIpv6]
  split
  · next v4 _ => exact List.append_ne_nil_of_right_ne_nil _ (List.ne_nil_of_mem (dot_mem_formatIpv4 v4))
  · rw [compress]
    split
    · simp
    · intro hnil
      have hpieces := congrArg List.length (splitOn_formatGroups (segments bits))
      rw [hnil] at hpieces
      simp [segments] at hpieces

theorem isCode_formatIpAddr (ip : IpAddr) : IsCode (formatIpAddr ip) := by
  constructor
  · cases ip with
    | v4 bits => exact List.ne_nil_of_mem (dot_mem_formatIpv4 bits)
    | v6 bits => exact formatIpv6_ne_nil bits
  · intro c hc
    rcases mem_formatIpAddr hc with rfl | rfl | hdigit
    · decide
    · decide
    · exact isCode_of_isDigitOf hdigit

theorem isCode_joined {ids : List ℤ} (hids : ids ≠ []) :
    IsCode (Text.join [','] (ids.map Text.formatInt)) := by
  obtain ⟨first, rest, rfl⟩ := List.exists_cons_of_ne_nil hids
  constructor
  · intro hnil
    have hfirst := (isCode_formatInt first).ne_nil
    cases rest <;> simp_all [Text.join]
  · intro c hc
    rcases Core.mem_intercalate hc with hcomma | ⟨piece, hpiece, hmem⟩
    · rw [List.mem_singleton.mp hcomma]
      decide
    · obtain ⟨i, -, rfl⟩ := List.mem_map.mp hpiece
      exact (isCode_formatInt i).all c hmem

theorem isCode_signInResult (result : SignInResult) : IsCode result.text := by
  cases result <;> decide +kernel

theorem isCode_verdict (r : TrafficRecord) : IsCode r.verdict := by
  rw [TrafficRecord.verdict]
  repeat' split
  all_goals decide +kernel

/-- A line is its fields, each written. -/
theorem line_eq_write (now : Moment) (record : Record) :
    record.line hitIds now = write (record.fields hitIds now) := by
  have hstamp := (isCode_stamp now).field_eq
  cases record with
  | audit e =>
      have hstatus := (isCode_formatNat e.status).field_eq
      have hms := (isCode_formatNat e.ms).field_eq
      rw [Record.line, Record.fields, auditLine, write]
      split <;> simp [hstamp, hstatus, hms]
  | signIn e =>
      have hevent : field "site-sign-in".toList = "site-sign-in".toList := by decide +kernel
      have hclient := (isCode_formatIpAddr e.client).field_eq
      have hresult := (isCode_signInResult e.result).field_eq
      simp only [Record.line, Record.fields, gatewayLine, write, List.map_cons, List.map_nil, hstamp,
        hevent, hclient, hresult]
  | flow r =>
      have hstatus := (isCode_formatInt r.statusCode).field_eq
      have hms := (isCode_formatInt r.responseMs).field_eq
      have hverdict := (isCode_verdict r).field_eq
      have hscore (score : ℤ) := (isCode_formatInt score).field_eq
      rw [Record.line, Record.fields, flowLine, write]
      simp only [List.map_append, List.map_cons, List.map_nil, List.map_map, Function.comp_def,
        hstamp, hstatus, hms, hverdict, hscore]
      split
      · next hids =>
          have hjoined := (isCode_joined hids).field_eq
          simp only [List.map_cons, List.map_nil, hjoined]
      · rfl

/-- Every key is one that a reader takes for a key. -/
theorem isKey_fields (now : Moment) (record : Record) :
    ∀ pair ∈ record.fields hitIds now, IsKey pair.1.toList := by
  have hkeys : ∀ key ∈ ["ts", "user", "role", "client", "method", "path", "status", "result", "ms",
      "detail", "event", "site", "realm", "host", "verdict", "country", "score", "rules",
      "reason"], IsKey key.toList := by decide +kernel
  simp only [List.forall_mem_cons] at hkeys
  have hmapped {Value : Type} {key : String} (values : List Value) (value : Value → Text)
      (hkey : IsKey key.toList) :
      ∀ pair ∈ values.map fun v => (key, value v), IsKey pair.1.toList := by
    intro pair hpair
    obtain ⟨v, -, rfl⟩ := List.mem_map.mp hpair
    exact hkey
  cases record with
  | audit e =>
      rw [Record.fields]
      split <;> simp only [List.forall_mem_append, List.forall_mem_cons, hkeys] <;> simp
  | signIn e =>
      simp only [Record.fields, List.forall_mem_cons, hkeys]
      simp
  | flow r =>
      simp only [Record.fields, List.forall_mem_append]
      refine ⟨⟨⟨⟨⟨?_, ?_⟩, ?_⟩, ?_⟩, ?_⟩, ?_⟩
      · simp only [List.forall_mem_cons, hkeys]
        simp
      · exact hmapped _ _ (by simp only [hkeys])
      · exact hmapped _ _ (by simp only [hkeys])
      · exact hmapped _ _ (by simp only [hkeys])
      · split
        · simp only [List.forall_mem_cons, hkeys]
          simp
        · exact List.forall_mem_nil _
      · exact hmapped _ _ (by simp only [hkeys])

theorem oneLine_append {left right : Text} :
    OneLine (left ++ right) ↔ OneLine left ∧ OneLine right :=
  List.forall_mem_append

theorem oneLine_cons {c : Char} {rest : Text} :
    OneLine (c :: rest) ↔ isLineBreak c = false ∧ OneLine rest :=
  List.forall_mem_cons

theorem oneLine_nil : OneLine [] := nofun

theorem oneLine_escape (value : Text) : OneLine (escape value) ↔ OneLine value := by
  induction value with
  | nil => exact Iff.rfl
  | cons c value ih =>
      rw [escape_cons, oneLine_append, ih, oneLine_cons]
      split
      · have hslash : isLineBreak '\\' = false := by decide
        simp [oneLine_cons, oneLine_nil, hslash]
      · simp [oneLine_cons, oneLine_nil]

/-- Quoting neither hides a line break nor adds one. -/
theorem oneLine_field (value : Text) : OneLine (field value) ↔ OneLine value := by
  rw [field]
  split
  · have hquote : isLineBreak '"' = false := by decide
    simp [oneLine_cons, oneLine_append, oneLine_nil, hquote, oneLine_escape]
  · exact Iff.rfl

theorem oneLine_of_isKey {key : Text} (hkey : IsKey key) : OneLine key := by
  intro c hc
  have hplain := (hkey.plain c hc).1
  rw [isLineBreak, Bool.or_eq_false_iff, decide_eq_false_iff_not, decide_eq_false_iff_not]
  constructor
  · rintro rfl
    contradiction
  · rintro rfl
    contradiction

/-- A line is one line where every value is. -/
theorem oneLine_write {fields : List (String × Text)}
    (hkeys : ∀ pair ∈ fields, IsKey pair.1.toList) :
    OneLine (write fields) ↔ ∀ pair ∈ fields, OneLine pair.2 := by
  have hequals : isLineBreak '=' = false := by decide
  have hblank : isLineBreak ' ' = false := by decide
  induction fields with
  | nil => simp [write, Text.join, oneLine_nil]
  | cons first rest ih =>
      obtain ⟨hfirst, hrest⟩ := List.forall_mem_cons.mp hkeys
      have hentry : OneLine (entry first.1 (field first.2)) ↔ OneLine first.2 := by
        rw [entry, oneLine_append, oneLine_cons, oneLine_field]
        simp [oneLine_of_isKey hfirst, hequals]
      have hbefore : OneLine (write rest) ↔ ∀ pair ∈ rest, OneLine pair.2 := ih hrest
      rw [List.forall_mem_cons, ← hbefore, ← hentry]
      cases rest with
      | nil => simp [write, Text.join, oneLine_nil]
      | cons second rest =>
          have hline : write (first :: second :: rest) =
              entry first.1 (field first.2) ++ ' ' :: write (second :: rest) := by
            simp [write, Text.join]
          rw [hline, oneLine_append, oneLine_cons]
          simp [hblank]

end Written

/-- A record's line is one line that reads back as the record's fields, in their order,
exactly where none of the values is broken. -/
theorem line_reads_back (now : Moment) (record : Record) :
    (OneLine (record.line hitIds now) ∧
        parse (record.line hitIds now) = some (pairs (record.fields hitIds now))) ↔
      ∀ pair ∈ record.fields hitIds now, OneLine pair.2 := by
  have hkeys := isKey_fields hitIds now record
  rw [line_eq_write, oneLine_write hkeys]
  exact and_iff_left (parse_write hkeys)

/-- A sign-in with a line break in the name. -/
def brokenSignIn : Event where
  user := "x\nts=2026-01-01T00:00:00Z user=admin".toList
  role := "-".toList
  client := "203.0.113.9".toList
  method := "POST".toList
  path := "/login".toList
  status := 200
  result := "refused".toList
  detail := []
  ms := 3

/-- A name typed at a sign-in writes a second line. -/
theorem typed_name_breaks_line :
    ¬ OneLine (Record.line (fun _ => none) ⟨2026, 1, 2, 3, 4, 5⟩ (.audit brokenSignIn)) ∧
      (Record.line (fun _ => none) ⟨2026, 1, 2, 3, 4, 5⟩ (.audit brokenSignIn)).splitOn '\n' =
        ["ts=2026-01-02T03:04:05Z user=\"x".toList,
          ("ts=2026-01-01T00:00:00Z user=admin\" role=- client=203.0.113.9 method=POST " ++
            "path=/login status=200 result=refused ms=3").toList] := by
  decide +kernel

/-! ## What is recorded of a change -/

section Recording

open Http Routes

/-- What a handler knows that the layer cannot see. -/
structure Note where
  user : Option Text
  result : Option Text

/-- `Note::default`. -/
def Note.default : Note := ⟨none, none⟩

/-- What the layer sees of an answer. -/
structure Answered where
  note : Option Note
  location : Option HeaderValue
  status : ℕ

/-- Whom the cookie names. -/
structure Who where
  user : Text
  role : Text

/-- `is_auditable`. -/
def isAuditable (method path : Text) : Bool :=
  if method = "GET".toList ∨ method = "HEAD".toList then path = "/logout".toList else true

/-- `urlencoding::decode`; what it cannot decode is left as it is. -/
def urlDecode (text : Text) : Text := (Text.fromUtf8 (decodeBinary text.bytes)).getD text

/-- What a pair of the query says of the result and its message. -/
def flashPair (found : Option Text × Text) (pair : Text) : Option Text × Text :=
  match Text.splitOnce '=' pair with
  | some (key, value) =>
      if key = "result".toList then (some (urlDecode value), found.2)
      else if key = "msg".toList then (found.1, urlDecode value)
      else found
  | none => found

/-- `flash`. -/
def flash (location : Text) : Option (Text × Text) :=
  (Text.splitOnce '?' location).bind fun (_, query) =>
    let (result, msg) := (query.splitOn '&').foldl flashPair (none, [])
    result.map fun result =>
      if result = "success".toList then ("ok".toList, []) else (result, msg)

/-- What happened, by the status. -/
def statusResult (status : ℕ) : Text :=
  if 200 ≤ status ∧ status < 400 then "ok".toList
  else if status = 401 ∨ status = 403 then "refused".toList
  else if 400 ≤ status ∧ status < 500 then "failed".toList
  else "error".toList

/-- `outcome`: the result and why. -/
def outcome (note : Note) (answer : Answered) : Text × Text :=
  match note.result with
  | some result => (result, [])
  | none =>
      match (answer.location.bind HeaderValue.toStr).bind flash with
      | some found => found
      | none => (statusResult answer.status, [])

/-- `record`, of a request answered. -/
def recorded (who : Option Who) (client method path : Text) (answer : Answered) (ms : ℕ) :
    Option Event :=
  if isAuditable method path then
    let note := answer.note.getD .default
    let (result, detail) := outcome note answer
    some
      { user := (note.user.or (who.map (·.user))).getD "-".toList
        role := (who.map (·.role)).getD "-".toList
        client := client
        method := method
        path := path
        status := answer.status
        result := result
        detail := detail
        ms := ms }
  else none

/-- `flash_redirect`; a target that is no header's value is an error of the server's. -/
def flashRedirect (path : Text) (outcome : Outcome) (msg : Text) : Answered :=
  match HeaderValue.fromStr (flashUrl path outcome msg) with
  | some location => ⟨none, some location, 303⟩
  | none => ⟨none, none, 500⟩

/-- A text that a header's value reads as. -/
def isShown (text : Text) : Bool :=
  text.all fun c => c.toNat < 0x80 && Http.isVisible (UInt8.ofNat c.toNat)

theorem lt_of_isVisible {byte : UInt8} (hvisible : Http.isVisible byte = true) : byte < 0x80 := by
  simp only [Http.isVisible, Bool.or_eq_true, Bool.and_eq_true, decide_eq_true_eq,
    beq_iff_eq] at hvisible
  rw [UInt8.lt_iff_toNat_lt]
  rcases hvisible with ⟨-, hlt⟩ | rfl
  · exact (UInt8.lt_iff_toNat_lt.mp hlt).trans (by decide)
  · decide

theorem toStr_fromStr (text : Text) :
    (HeaderValue.fromStr text).bind HeaderValue.toStr =
      if isShown text then some text else none := by
  split
  case isTrue hshown =>
    obtain ⟨value, hvalue, hread⟩ := HeaderValue.fromStr_of_visible fun c hc => by
      simpa using List.all_eq_true.mp hshown c hc
    rw [hvalue]
    exact hread
  case isFalse hhidden =>
    rw [Option.bind_eq_none_iff]
    intro value hvalue
    apply HeaderValue.toStr_eq_none
    rw [Bool.eq_false_iff]
    intro hvisible
    apply hhidden
    have hbytes : ∀ byte ∈ text.bytes, Http.isVisible byte = true := by
      rw [← HeaderValue.bytes_of_fromBytes hvalue]
      exact List.all_eq_true.mp hvisible
    apply List.all_eq_true.mpr
    intro c hc
    -- a byte of a character that is not ASCII is not visible
    obtain ⟨byte, hbyte⟩ := List.exists_mem_of_ne_nil _ (String.utf8EncodeChar_ne_nil (c := c))
    have hshown := hbytes byte (List.mem_flatMap.mpr ⟨c, hc, hbyte⟩)
    have hsmall := lt_of_isVisible hshown
    have hlt : byte.toNat < 0x80 := UInt8.lt_iff_toNat_lt.mp hsmall
    have hnat : c.toNat = byte.toNat := by
      rw [Text.utf8EncodeChar_of_mem hbyte hsmall, Char.toNat_ofNat, if_pos (Or.inl (by omega))]
    rw [hnat, UInt8.ofNat_toNat, hshown, Bool.and_true]
    exact decide_eq_true hlt

theorem ampersand_not_mem_urlEncode (text : Text) : '&' ∉ urlEncode text := by
  intro hmem
  obtain ⟨byte, -, hc⟩ := List.mem_flatMap.mp hmem
  dsimp only at hc
  split at hc
  · next hkept =>
    rw [List.mem_singleton] at hc
    rw [← hc] at hkept
    exact absurd hkept.2 (by decide)
  · exact absurd (Url.mem_escape hc) (by decide)

/-- What `%` and two digits are read as. -/
theorem decodeBinary_escape (byte : UInt8) (rest : List UInt8) :
    decodeBinary ((Url.escape byte).map (fun c => UInt8.ofNat c.toNat) ++ rest) =
      byte :: decodeBinary rest := by
  have hread : ∀ n : Fin 256, escaped (UInt8.ofNat '%'.toNat)
      (UInt8.ofNat (Url.hexDigit (n / 16)).toNat) (UInt8.ofNat (Url.hexDigit (n % 16)).toNat) =
        some (UInt8.ofNat n) := by decide +kernel
  have hbyte := hread ⟨byte.toNat, byte.toNat_lt⟩
  rw [UInt8.ofNat_toNat] at hbyte
  simp only [Url.escape, List.map_cons, List.map_nil, List.cons_append, List.nil_append,
    decodeBinary, hbyte]

/-- What is kept as it is is read as it is. -/
theorem decodeBinary_kept {byte : UInt8} (hsmall : byte < 0x80)
    (hkept : (Char.ofNat byte.toNat).isAlphanum ∨
      Char.ofNat byte.toNat ∈ ['-', '.', '_', '~']) (rest : List UInt8) :
    decodeBinary (Text.bytes [Char.ofNat byte.toNat] ++ rest) = byte :: decodeBinary rest := by
  have hlt : byte.toNat < 0x80 := UInt8.lt_iff_toNat_lt.mp hsmall
  have hnat : (Char.ofNat byte.toNat).toNat = byte.toNat := by
    rw [Char.toNat_ofNat, if_pos (Or.inl (by omega))]
  have hbytes : Text.bytes [Char.ofNat byte.toNat] = [byte] := by
    rw [Text.bytes_of_ascii (by simpa [hnat] using hlt), List.map_singleton, hnat,
      UInt8.ofNat_toNat]
  have hpercent : byte ≠ 37 := by
    rintro rfl
    exact absurd hkept (by decide)
  rw [hbytes, List.singleton_append, decodeBinary_cons_of_ne hpercent]

theorem toNat_lt_of_mem_escape {byte : UInt8} {c : Char} (hc : c ∈ Url.escape byte) :
    c.toNat < 0x80 := by
  have hvisible := isVisible_of_mem_escape hc
  rw [Routes.isVisible, Bool.and_eq_true, decide_eq_true_iff, decide_eq_true_iff] at hvisible
  omega

theorem urlDecode_urlEncode (text : Text) : urlDecode (urlEncode text) = text := by
  have hdecoded : decodeBinary (Text.bytes (urlEncode text)) = text.bytes := by
    rw [urlEncode]
    induction text.bytes with
    | nil => rfl
    | cons byte rest ih =>
        rw [List.flatMap_cons, Text.bytes_append]
        dsimp only at ih ⊢
        split
        · next hkept => rw [decodeBinary_kept hkept.1 hkept.2, ih]
        · rw [Text.bytes_of_ascii fun c hc => toNat_lt_of_mem_escape hc, decodeBinary_escape, ih]
  rw [urlDecode, hdecoded, Text.fromUtf8_bytes, Option.getD_some]

theorem flashPair_result (found : Option Text × Text) (result : Outcome) :
    flashPair found ("result=".toList ++ result.name) = (some result.name, found.2) := by
  cases result <;> rfl

theorem flashPair_msg (found : Option Text × Text) (msg : Text) :
    flashPair found ("msg=".toList ++ urlEncode msg) = (found.1, msg) := by
  have hsplit : Text.splitOnce '=' ("msg=".toList ++ urlEncode msg) =
      some ("msg".toList, urlEncode msg) := @Text.splitOnce_append '=' "msg".toList _ (by decide)
  rw [flashPair, hsplit]
  dsimp only
  rw [if_neg (by decide), if_pos rfl, urlDecode_urlEncode]

/-- What a redirect's query ends with. -/
def told (result : Outcome) (msg : Text) : Text :=
  "result=".toList ++ result.name ++ "&msg=".toList ++ urlEncode msg

theorem ampersand_msg : "&msg=".toList = '&' :: "msg=".toList := by decide

theorem splitOn_told (result : Outcome) (msg : Text) :
    (told result msg).splitOn '&' =
      ["result=".toList ++ result.name, "msg=".toList ++ urlEncode msg] := by
  have hmsg : '&' ∉ "msg=".toList ++ urlEncode msg := by
    rw [List.mem_append, not_or]
    exact ⟨by decide, ampersand_not_mem_urlEncode msg⟩
  have hresult : '&' ∉ "result=".toList ++ result.name := by cases result <;> decide
  have hsplit : told result msg =
      ("result=".toList ++ result.name) ++ '&' :: ("msg=".toList ++ urlEncode msg) := by
    unfold told
    rw [ampersand_msg]
    exact List.append_assoc (_ ++ _) (_ :: _) _
  rw [hsplit, List.splitOn_append_cons_self, List.splitOn_eq_singleton hresult,
    List.splitOn_eq_singleton hmsg, List.singleton_append]

/-- What a redirect says last is what counts. -/
theorem foldl_told (found : Option Text × Text) (pairs : List Text) (result : Outcome)
    (msg : Text) :
    (pairs ++ (told result msg).splitOn '&').foldl flashPair found = (some result.name, msg) := by
  rw [splitOn_told, List.foldl_append, List.foldl_cons, List.foldl_cons, List.foldl_nil,
    flashPair_result, flashPair_msg]

/-- The result and the message are read back, whatever query the path had. -/
theorem flash_flashUrl (path : Text) (result : Outcome) (msg : Text) :
    flash (flashUrl path result msg) =
      some (if result = .success then ("ok".toList, []) else (result.name, msg)) := by
  have hread : ∀ pairs : List Text, ∀ query : Text,
      query.splitOn '&' = pairs ++ (told result msg).splitOn '&' →
      ∀ before : Text, '?' ∉ before → flash (before ++ '?' :: query) =
        some (if result = .success then ("ok".toList, []) else (result.name, msg)) := by
    intro pairs query hquery before hbefore
    rw [flash, Text.splitOnce_append hbefore, Option.bind_some]
    dsimp only
    rw [hquery, foldl_told]
    cases result <;> rfl
  have hurl : flashUrl path result msg =
      path ++ (if path.contains '?' then '&' else '?') :: told result msg := rfl
  rw [hurl]
  by_cases hmark : '?' ∈ path
  · obtain ⟨before, query, hpath, hbefore⟩ := List.eq_append_cons_of_mem hmark
    rw [if_pos (List.contains_iff_mem.mpr hmark), hpath, List.append_assoc, List.cons_append]
    exact hread (query.splitOn '&') _ (List.splitOn_append_cons_self _ _) before hbefore
  · rw [if_neg (by simpa using hmark)]
    exact hread [] _ rfl path hmark

theorem isShown_flashUrl (path : Text) (result : Outcome) (msg : Text) :
    isShown (flashUrl path result msg) = isShown path := by
  have hvisible : ∀ c ∈ flashQuery path result msg,
      (c.toNat < 0x80 && Http.isVisible (UInt8.ofNat c.toNat)) = true := by
    intro c hc
    have hc := isVisible_of_mem_flashQuery hc
    rw [Routes.isVisible, Bool.and_eq_true, decide_eq_true_iff, decide_eq_true_iff] at hc
    have hshown : ∀ n : Fin 127, 0x20 < n.val →
        (n.val < 0x80 && Http.isVisible (UInt8.ofNat n)) = true := by decide +kernel
    exact hshown ⟨c.toNat, hc.2⟩ hc.1
  rw [isShown, flashUrl, List.all_append, List.all_eq_true.mpr hvisible, Bool.and_true, isShown]

theorem isSome_fromStr_flashUrl (path : Text) (result : Outcome) (msg : Text) :
    (HeaderValue.fromStr (flashUrl path result msg)).isSome ↔ (HeaderValue.fromStr path).isSome :=
  isSome_fromStr_append fun _ hc => isVisible_of_mem_flashQuery hc

/-- An answer whose `Location` is text tells its result, and any other its status. -/
theorem outcome_flashRedirect (back : Text) (result : Outcome) (msg : Text) :
    outcome .default (flashRedirect back result msg) =
      if isShown back then
        if result = .success then ("ok".toList, []) else (result.name, msg)
      else if (HeaderValue.fromStr back).isSome then ("ok".toList, [])
      else ("error".toList, []) := by
  have hread := toStr_fromStr (flashUrl back result msg)
  have hsome := isSome_fromStr_flashUrl back result msg
  rw [isShown_flashUrl] at hread
  rw [flashRedirect]
  cases hvalue : HeaderValue.fromStr (flashUrl back result msg) with
  | some location =>
      rw [hvalue, Option.bind_some] at hread
      rw [hvalue] at hsome
      simp only [outcome, Note.default, Option.bind_some, hread]
      by_cases hshown : isShown back
      · simp only [if_pos hshown, Option.bind_some, flash_flashUrl]
      · simp only [if_neg hshown, Option.bind_none, if_pos (hsome.mp rfl)]
        rfl
  | none =>
      rw [hvalue, Option.bind_none] at hread
      rw [hvalue] at hsome
      have hshown : ¬ isShown back := fun hshown => by
        rw [if_pos hshown] at hread
        contradiction
      have hnone : ¬ (HeaderValue.fromStr back).isSome := fun hback =>
        absurd (hsome.mpr hback) Bool.false_ne_true
      simp only [outcome, Note.default, Option.bind_none, if_neg hshown, if_neg hnone]
      rfl

theorem note_flashRedirect (back : Text) (result : Outcome) (msg : Text) :
    (flashRedirect back result msg).note = none := by
  rw [flashRedirect]
  split <;> rfl

theorem status_flashRedirect (back : Text) (result : Outcome) (msg : Text) :
    (flashRedirect back result msg).status =
      if (HeaderValue.fromStr back).isSome then 303 else 500 := by
  have hsome := isSome_fromStr_flashUrl back result msg
  rw [flashRedirect]
  split
  · next location hvalue =>
    rw [hvalue] at hsome
    exact (if_pos (hsome.mp rfl)).symm
  · next hvalue =>
    rw [hvalue] at hsome
    exact (if_neg fun hback => absurd (hsome.mpr hback) Bool.false_ne_true).symm

/-- What is recorded of a change whose handler sends the browser to a page with a message:
that it worked, or that it failed and the very message; but for a path that is not ASCII
the layer can read neither, and it is recorded as one that worked. -/
theorem recorded_flashRedirect (who : Option Who) (client method path back : Text)
    (result : Outcome) (msg : Text) (ms : ℕ) :
    recorded who client method path (flashRedirect back result msg) ms =
      if isAuditable method path then
        some
          { user := (who.map (·.user)).getD "-".toList
            role := (who.map (·.role)).getD "-".toList
            client := client
            method := method
            path := path
            status := if (HeaderValue.fromStr back).isSome then 303 else 500
            result :=
              if isShown back then if result = .success then "ok".toList else "failed".toList
              else if (HeaderValue.fromStr back).isSome then "ok".toList
              else "error".toList
            detail := if isShown back ∧ result = .failed then msg else []
            ms := ms }
      else none := by
  rw [recorded, note_flashRedirect, status_flashRedirect]
  dsimp only
  rw [Option.getD_none, outcome_flashRedirect]
  by_cases hshown : isShown back
  · cases result <;> simp [hshown, Note.default, Outcome.name]
  · by_cases hback : (HeaderValue.fromStr back).isSome <;> simp [hshown, hback, Note.default]

end Recording

end EasyWaf.Logging
