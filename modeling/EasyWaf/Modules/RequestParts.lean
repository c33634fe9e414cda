import EasyWaf.Http.Header
import EasyWaf.Modules.Decodings
import EasyWaf.Net.IpAddr

/-!
# A request, a value at a time

What the targeted zones read of a request: its arguments, headers, cookies and
the parts of its body, each value with its name.
-/

namespace EasyWaf.Modules

open Http Paths ZoneText

/-- `MAX_VALUES`. -/
def maxValues : ℕ := 1024

inductive Version
  | http09
  | http10
  | http11
  | http2
  | http3
  deriving DecidableEq

/-- A request as the rules are shown it, with as much of its body as they
inspect.  Headers stand as the map holds them: names in lower case, the values of
one together. -/
structure RequestContext where
  clientIp : Net.IpAddr
  method : Text
  path : Text
  query : Option Text
  version : Version
  headers : List (Text × HeaderValue)
  body : List UInt8

/-- A header's value as text, whatever bytes it holds. -/
def valueText (value : HeaderValue) : Text := Text.fromUtf8Lossy value.bytes

/-- A name, and the forms its value is matched in. -/
structure Value where
  /-- Decoded and lowercased, for comparing with a zone's name. -/
  key : Text
  name : List Text
  value : List Text
  parsedName : Text
  /-- None for a name that has no value. -/
  parsed : Option Text
  deriving DecidableEq

/-- Values with one more, while there is room. -/
def Value.push (out : List Value) (value : Value) : List Value :=
  if maxValues ≤ out.length then out else out ++ [value]

/-- A protocol as a request line names it. -/
def protocol : Version → Text
  | .http09 => "HTTP/0.9".toList
  | .http10 => "HTTP/1.0".toList
  | .http2 => "HTTP/2.0".toList
  | .http3 => "HTTP/3.0".toList
  | .http11 => "HTTP/1.1".toList

/-- `header_case`, at the start of a word or not. -/
def headerCaseFrom : Bool → Text → Text
  | _, [] => []
  | start, c :: rest => (if start then c.toUpper else c.toLower) :: headerCaseFrom (c == '-') rest

def headerCase (name : Text) : Text := headerCaseFrom true name

inductive BodyKind
  | form
  | json
  | xml
  | multipart (boundary : Text)
  deriving DecidableEq

def quoted (text : Text) : Text := text.trim.trimMatches (· == '"')

/-- A parameter's name and value. -/
def param (text : Text) : Option (Text × Text) :=
  (Text.splitOnce '=' text.trim).map fun (key, value) => (key.trim, quoted value)

/-- The first parameter of the name, after what a header's value begins with. -/
def paramOf (want value : Text) : Option Text :=
  ((value.splitOn ';').drop 1).findSome? fun part =>
    (param part).bind fun (key, value) => if key.eqIgnoreAsciiCase want then some value else none

/-- `body_kind`. -/
def bodyKind (headers : List (Text × HeaderValue)) : Option BodyKind :=
  ((headers.lookup "content-type".toList).bind HeaderValue.toStr).bind fun contentType =>
    let first : Text := (contentType.splitOn ';').headD []
    let mime := first.trim.toAsciiLowercase
    if mime = "application/x-www-form-urlencoded".toList then some .form
    else if mime = "application/json".toList ∨ "+json".toList <:+ mime ∨
        "application/x-amz-json-1.".toList <+: mime then some .json
    else if "/xml".toList <:+ mime ∨ "+xml".toList <:+ mime then some .xml
    else if mime = "multipart/form-data".toList then
      some (.multipart ((paramOf "boundary".toList contentType).getD []))
    else none

variable (engine : Engine)

section Arguments

/-- One `a=1`, split before anything is decoded. -/
def pairValue (pair : Text) : Value :=
  let (name, value) := (Text.splitOnce '=' pair).getD (pair, [])
  let parsedName := percentDecode (replaceChar '+' ' ' name)
  { key := engine.toLowercase parsedName
    name := zoneText name true
    value := zoneText value true
    parsedName
    parsed := some (percentDecode (replaceChar '+' ' ' value)) }

/-- `pairs`. -/
def pairs (text : Text) (out : List Value) : List Value :=
  (text.splitOn '&').foldl
    (fun out pair => if pair = [] then out else Value.push out (pairValue engine pair)) out

/-- `whole_body`. -/
def wholeBody (body : List UInt8) (out : List Value) : List Value :=
  if body = [] then out
  else
    let text := Text.fromUtf8Lossy body
    out ++ [{ key := [], name := [], value := zoneText text true, parsedName := [],
              parsed := some text }]

/-- A name's forms and, where it has one, its value's, neither with a `+` for a
space. -/
def namedValue (name : Text) (value : Option Text) : Value :=
  { key := engine.toLowercase name
    name := zoneText name false
    value := value.elim [] (zoneText · false)
    parsedName := name
    parsed := value }

end Arguments

section Json

def Json.isNested : Json → Bool
  | .object _ | .array _ => true
  | _ => false

/-- A leaf's text. -/
def Json.leaf : Json → Option Text
  | .string text => some text
  | .number text => some text
  | .bool value => some (if value then "true".toList else "false".toList)
  | _ => none

/-- What a document's node stands over, each with its key. -/
def Json.children (key : Text) : Json → List (Text × Json)
  | .object members => members
  | .array items => items.map fun item => (key, item)
  | _ => []

/-- The values a node is: a leaf's, or the names of what it holds that have no
value of their own. -/
def Json.values (key : Text) : Json → List Value
  | .object members =>
      (members.filter (·.2.isNested)).map fun member => namedValue engine member.1 none
  | node => (node.leaf.map fun text => namedValue engine key (some text)).toList

/-- How much of a document is still to be read. -/
noncomputable def Json.left (stack : List (Text × Json)) : ℕ := (stack.map fun entry => 1 + sizeOf entry.2).sum

theorem Json.left_append (first rest : List (Text × Json)) :
    left (first ++ rest) = left first + left rest := by
  rw [left, List.map_append, List.sum_append, left, left]

theorem Json.left_children_lt (key : Text) (node : Json) :
    left (node.children key) < 1 + sizeOf node := by
  cases node with
  | object members =>
      have hle : left members ≤ sizeOf members := by
        induction members with
        | nil => exact Nat.zero_le _
        | cons member rest ih =>
            obtain ⟨name, value⟩ := member
            simp only [left, List.map_cons, List.sum_cons, List.cons.sizeOf_spec,
              Prod.mk.sizeOf_spec] at ih ⊢
            omega
      simp only [children, Json.object.sizeOf_spec]
      omega
  | array items =>
      have hle : left (items.map fun item => (key, item)) ≤ sizeOf items := by
        induction items with
        | nil => exact Nat.zero_le _
        | cons item rest ih =>
            simp only [left, List.map_cons, List.sum_cons, List.cons.sizeOf_spec] at ih ⊢
            omega
      simp only [children, Json.array.sizeOf_spec]
      omega
  | null | bool | number | string => simp [children, left]

/-- The nodes on the stack, and what they stand over, in the document's order,
while there is room. -/
def jsonFrom : List (Text × Json) → List Value → List Value
  | [], out => out
  | (key, node) :: stack, out =>
      if maxValues ≤ out.length then out
      else jsonFrom (node.children key ++ stack) (out ++ node.values engine key)
  termination_by stack => Json.left stack
  decreasing_by
    have hchildren := Json.left_children_lt key node
    rw [Json.left_append, ← List.singleton_append (l := stack), Json.left_append]
    simp only [Json.left, List.map_cons, List.map_nil, List.sum_cons, List.sum_nil] at hchildren ⊢
    omega

/-- `json`: none for a body that does not parse. -/
def json (body : List UInt8) (out : List Value) : Option (List Value) :=
  (engine.parseJson body).map fun root => jsonFrom engine [([], root)] out

end Json

section Multipart

/-- The text without a line break at its start. -/
def afterBreak (text : Text) : Text :=
  ((text.dropPrefix? ['\r', '\n']).or (text.dropPrefix? ['\n'])).getD text

def beforeBreak (text : Text) : Text :=
  ((text.dropSuffix? ['\r', '\n']).or (text.dropSuffix? ['\n'])).getD text

/-- One section of a multipart body: the fields it adds, and the files. -/
def sectionValues (body : Text) : Value × Option Value :=
  let body := afterBreak body
  let (head, content) := ((body.dropInfix? ['\r', '\n', '\r', '\n']).or
    (body.dropInfix? ['\n', '\n'])).getD (body, [])
  let disposition := ((Text.lines head).find? fun line =>
    "content-disposition:".toList.isPrefixOf (Text.toAsciiLowercase line)).getD []
  let name := (paramOf "name".toList disposition).getD []
  match paramOf "filename".toList disposition with
  -- a file's field is an argument's name, without a value
  | some file => (namedValue engine name none, some (namedValue engine name (some file)))
  | none => (namedValue engine name (some (beforeBreak content)), none)

/-- `multipart`: the fields and the files; none when the boundary is not in the
body. -/
def multipart (body : List UInt8) (boundary : Text) : Option (List Value × List Value) :=
  if boundary = [] then none
  else
    let sections := (Text.splitText ('-' :: '-' :: boundary) (Text.fromUtf8Lossy body)).drop 1
    let sections := sections.takeWhile fun text => !List.isPrefixOf ['-', '-'] text
    if sections = [] then none
    else
      let found := sections.map (sectionValues engine)
      some ((found.map (·.1)).foldl Value.push [], (found.filterMap (·.2)).foldl Value.push [])

end Multipart

section Cells

variable (ctx : RequestContext) (body : List UInt8)

/-- An XML body's text and its attributes; one that does not parse is read whole
as its text. -/
def xmlValues : List Text × List Value :=
  match bodyKind ctx.headers with
  | some .xml =>
      let text := Text.fromUtf8Lossy body
      match engine.parseXml text with
      | some document =>
          (zoneText document.texts.flatten false,
            (document.attributes.take maxValues).map fun (name, value) =>
              { key := engine.toLowercase name, name := [name], value := zoneText value false,
                parsedName := name, parsed := some value })
      | none => (zoneText text false, [])
  | _ => ([], [])

/-- A multipart body's fields and its files; one whose parts cannot be found is
read whole, as one field. -/
def multipartValues : List Value × List Value :=
  match bodyKind ctx.headers with
  | some (.multipart boundary) =>
      (multipart engine body boundary).getD (wholeBody body [], [])
  | _ => ([], [])

/-- The arguments, given a multipart body's. -/
def argValues (fields : List Value) : List Value :=
  let out := ctx.query.elim [] fun query => pairs engine query []
  match bodyKind ctx.headers with
  | some .form => pairs engine (Text.fromUtf8Lossy body) out
  | some .json => (json engine body out).getD (wholeBody body out)
  | some (.multipart _) => fields.foldl Value.push out
  | some .xml | none => out

def headerValues : List Value :=
  ctx.headers.map fun (name, value) =>
    { key := name, name := [name], value := zoneText (valueText value) false, parsedName := name,
      parsed := some (valueText value) }

/-- One cookie, as a `Cookie` header writes it. -/
def cookieValue (pair : Text) : Value :=
  let (name, value) := (Text.splitOnce '=' pair).getD (pair, [])
  { key := engine.toLowercase (percentDecode name.trim)
    name := zoneText name.trim false
    value := zoneText value.trim false
    parsedName := name.trim
    parsed := some value.trim }

def cookieValues : List Value :=
  let texts := (ctx.headers.filter (·.1 = "cookie".toList)).map fun header => valueText header.2
  (texts.flatMap fun text => (text.splitOn ';').map Text.trim).foldl
    (fun out pair => if pair = [] then out else Value.push out (cookieValue engine pair)) []

/-- A header as a line, without its break. -/
def headerLine (header : Text × HeaderValue) : Text :=
  headerCase header.1 ++ ": ".toList ++ valueText header.2

def lineForms : List (List Text) := ctx.headers.map fun header => zoneText (headerLine header) false

def blockForms : List Text :=
  zoneText (ctx.headers.flatMap fun header => headerLine header ++ ['\r', '\n']) false

def requestLineForms : List Text :=
  zoneText (ctx.method ++ ' ' :: ctx.path ++ ctx.query.elim [] ('?' :: ·) ++
    ' ' :: protocol ctx.version) false

/-- The request as one text, given its line and its header block. -/
def requestForms (line block : List Text) : List Text :=
  zoneText (line.headD [] ++ ['\r', '\n'] ++ block.headD [] ++ ['\r', '\n'] ++
    Text.fromUtf8Lossy body) false

def unparsedForms : List Text :=
  match bodyKind ctx.headers with
  | some .json | some .xml | some (.multipart _) => []
  | _ => if body = [] then [] else zoneText (Text.fromUtf8Lossy body) true

/-- The path, raw and decoded, and as a backend reads it. -/
def pathForms (url : Url) : List Text :=
  ((normalisedPaths url ctx.path).flatMap fun read => zoneText read false).foldl pushUnique
    (zoneText ctx.path false)

/-- A path's last segment. -/
def lastSegment (path : Text) : Text := (path.splitOn '/').getLastD []

end Cells


end EasyWaf.Modules
