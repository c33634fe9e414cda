import EasyWaf.Core.Transparent
import EasyWaf.Modules.RequestParts
import EasyWaf.Modules.Targets

/-!
# The parts of a request, built when a rule asks

One `Parts` is shared by every rule a request is judged by.  A part is built the
first time a rule reads it, and what decodings make of a zone is kept under the
zone, the exceptions and the decodings.
-/

namespace EasyWaf.Modules

open EasyWaf.Core Http Paths ZoneText

/-- The whole-text zones. -/
structure Whole where
  url : List Text
  args : List Text
  body : List Text
  headers : List Text

/-- What a request is read from: its body as inspected. -/
structure Source where
  engine : Engine
  url : Url
  ctx : RequestContext
  body : List UInt8

/-- A zone, the exceptions it is read less, and a chain of decodings. -/
abbrev DecodedKey := Target × List Target × List Transform

structure Parts where
  path : Option (List Text)
  args : Option (List Value)
  headers : Option (List Value)
  cookies : Option (List Value)
  xml : Option (List Text × List Value)
  parts : Option (List Value × List Value)
  block : Option (List Text)
  line : Option (List Text)
  unparsed : Option (List Text)
  lines : Option (List (List Text))
  request : Option (List Text)
  decoded : List (DecodedKey × List Text)

/-- `Parts::new`. -/
def Parts.new : Parts where
  path := none
  args := none
  headers := none
  cookies := none
  xml := none
  parts := none
  block := none
  line := none
  unparsed := none
  lines := none
  request := none
  decoded := []

variable (source : Source)

/-- The text with the query after it, where there is one. -/
def withQuery (query : Option Text) (path : Text) : Text :=
  match query with
  | some (c :: rest) => path ++ '?' :: c :: rest
  | _ => path

/-- `Whole::of`. -/
def Whole.of : Whole where
  url := ((normalisedPaths source.url source.ctx.path).flatMap fun path =>
    zoneText (withQuery source.ctx.query path) true).foldl pushUnique
      (zoneText (withQuery source.ctx.query source.ctx.path) true)
  args := zoneText (source.ctx.query.getD []) true
  body := zoneText (Text.fromUtf8Lossy source.body) true
  headers := zoneText (Text.join [' '] (source.ctx.headers.map fun header => valueText header.2)) false

section Cells

def pathCell : Cell Parts (List Text) where
  get := Parts.path
  set value parts := { parts with path := some value }

def argsCell : Cell Parts (List Value) where
  get := Parts.args
  set value parts := { parts with args := some value }

def headersCell : Cell Parts (List Value) where
  get := Parts.headers
  set value parts := { parts with headers := some value }

def cookiesCell : Cell Parts (List Value) where
  get := Parts.cookies
  set value parts := { parts with cookies := some value }

def xmlCell : Cell Parts (List Text × List Value) where
  get := Parts.xml
  set value parts := { parts with xml := some value }

def partsCell : Cell Parts (List Value × List Value) where
  get := Parts.parts
  set value parts := { parts with parts := some value }

def blockCell : Cell Parts (List Text) where
  get := Parts.block
  set value parts := { parts with block := some value }

def lineCell : Cell Parts (List Text) where
  get := Parts.line
  set value parts := { parts with line := some value }

def unparsedCell : Cell Parts (List Text) where
  get := Parts.unparsed
  set value parts := { parts with unparsed := some value }

def linesCell : Cell Parts (List (List Text)) where
  get := Parts.lines
  set value parts := { parts with lines := some value }

def requestCell : Cell Parts (List Text) where
  get := Parts.request
  set value parts := { parts with request := some value }

def decodedMemo : Memo Parts DecodedKey (List Text) where
  entries := Parts.decoded
  push entry parts := { parts with decoded := parts.decoded ++ [entry] }

end Cells

namespace Source

section Accessors

def readPath : StateM Parts (List Text) := pathCell.getOrInit (return pathForms source.ctx source.url)

def readMultipart : StateM Parts (List Value × List Value) :=
  partsCell.getOrInit (return multipartValues source.engine source.ctx source.body)

def readArgs : StateM Parts (List Value) :=
  argsCell.getOrInit do
    match bodyKind source.ctx.headers with
    | some (.multipart _) =>
        return argValues source.engine source.ctx source.body (← source.readMultipart).1
    | _ => return argValues source.engine source.ctx source.body []

def readHeaders : StateM Parts (List Value) := headersCell.getOrInit (return headerValues source.ctx)

def readCookies : StateM Parts (List Value) :=
  cookiesCell.getOrInit (return cookieValues source.engine source.ctx)

def readXml : StateM Parts (List Text × List Value) :=
  xmlCell.getOrInit (return xmlValues source.engine source.ctx source.body)

def readBlock : StateM Parts (List Text) := blockCell.getOrInit (return blockForms source.ctx)

def readLine : StateM Parts (List Text) := lineCell.getOrInit (return requestLineForms source.ctx)

def readUnparsed : StateM Parts (List Text) :=
  unparsedCell.getOrInit (return unparsedForms source.ctx source.body)

def readLines : StateM Parts (List (List Text)) := linesCell.getOrInit (return lineForms source.ctx)

def readRequest : StateM Parts (List Text) :=
  requestCell.getOrInit do
    let line ← source.readLine
    let block ← source.readBlock
    return requestForms source.body line block

end Accessors

/-- Whether a name, lowercased, is this one. -/
def fits (key : Text) : Name → Bool
  | .is name => name == key
  | .isMatch pattern => source.engine.nameMatches pattern key

/-- Taken out by an exception of the same kind that names this one. -/
def excepted (except : List Target) (target : Target) (value : Value) : Bool :=
  except.any fun
    | .except inner =>
        inner.ctorIdx == target.ctorIdx && inner.name.any (source.fits value.key)
    | _ => false

/-- The values of a list a name chooses, less the exceptions. -/
def chosen (except : List Target) (target : Target) (list : List Value) : List Value :=
  list.filter fun value =>
    target.name.all (source.fits value.key) && !source.excepted except target value

section Any

variable {τ : Type} (parsed : Bool) (isMatch : Text → StateM τ Bool)

def visitValues (list : List Value) : StateM τ Bool :=
  list.anyM fun value =>
    if parsed then value.parsed.elim (return false) isMatch else value.value.anyM isMatch

def visitNames (list : List Value) : StateM τ Bool :=
  list.anyM fun value => if parsed then isMatch value.parsedName else value.name.anyM isMatch

/-- A text read whole: as it is, or in every form. -/
def visitText (forms : List Text) : StateM τ Bool :=
  if parsed then forms.head?.elim (return false) isMatch else forms.anyM isMatch

end Any

/-- A visitor that counts what it is handed. -/
def counting : Text → StateM ℕ Bool := fun _ => do
  modify (· + 1)
  return false

/-- A visitor that keeps what it is handed. -/
def collecting : Text → StateM (List Text) Bool := fun form => do
  modify (· ++ [form])
  return false

/-- `Parts::any`. -/
def any : Target → List Target → Bool → {τ : Type} → (Text → StateM τ Bool) →
    StateT τ (StateM Parts) Bool
  | .path, _, parsed, _, isMatch =>
      if parsed then visit (isMatch (percentDecode source.ctx.path))
      else do visit (visitText parsed isMatch (← readShared source.readPath))
  | .arg name, except, parsed, _, isMatch => do
      visit (visitValues parsed isMatch
        (source.chosen except (.arg name) (← readShared source.readArgs)))
  | .argName name, except, parsed, _, isMatch => do
      visit (visitNames parsed isMatch
        (source.chosen except (.argName name) (← readShared source.readArgs)))
  | .header name, except, parsed, _, isMatch => do
      visit (visitValues parsed isMatch
        (source.chosen except (.header name) (← readShared source.readHeaders)))
  | .headerName name, except, parsed, _, isMatch => do
      visit (visitNames parsed isMatch
        (source.chosen except (.headerName name) (← readShared source.readHeaders)))
  | .cookie name, except, parsed, _, isMatch => do
      visit (visitValues parsed isMatch
        (source.chosen except (.cookie name) (← readShared source.readCookies)))
  | .cookieName name, except, parsed, _, isMatch => do
      visit (visitNames parsed isMatch
        (source.chosen except (.cookieName name) (← readShared source.readCookies)))
  | .method, _, _, _, isMatch => visit (isMatch source.ctx.method)
  | .xml, _, parsed, _, isMatch => do
      visit (visitText parsed isMatch (← readShared source.readXml).1)
  | .xmlAttr, except, parsed, _, isMatch => do
      visit (visitValues parsed isMatch
        (source.chosen except .xmlAttr (← readShared source.readXml).2))
  | .fileName, except, parsed, _, isMatch => do
      visit (visitValues parsed isMatch
        (source.chosen except .fileName (← readShared source.readMultipart).2))
  | .headerBlock, _, parsed, _, isMatch => do
      visit (visitText parsed isMatch (← readShared source.readBlock))
  | .requestLine, _, parsed, _, isMatch => do
      visit (visitText parsed isMatch (← readShared source.readLine))
  | .protocol, _, _, _, isMatch => visit (isMatch (protocol source.ctx.version))
  | .bodyUnparsed, _, parsed, _, isMatch => do
      visit (visitText parsed isMatch (← readShared source.readUnparsed))
  | .headerLine, _, parsed, _, isMatch => do
      visit ((← readShared source.readLines).anyM (visitText parsed isMatch))
  | .basename, _, parsed, _, isMatch =>
      if parsed then visit (isMatch (lastSegment (percentDecode source.ctx.path)))
      else visit ((zoneText (lastSegment source.ctx.path) false).anyM isMatch)
  | .request, _, parsed, _, isMatch => do
      visit (visitText parsed isMatch (← readShared source.readRequest))
  | .count inner, except, _, _, isMatch => do
      let counted ← readShared ((any inner except true counting).run 0)
      visit (isMatch (Text.formatNat counted.2))
  | .matched, _, _, _, _ => return false
  | .except _, _, _, _, _ => return false
  | .url, _, _, _, _ => return false
  | .args, _, _, _, _ => return false
  | .body, _, _, _, _ => return false
  | .headers, _, _, _, _ => return false
  | .any, _, _, _, _ => return false

/-- `Parts::decoded`: each of the forms with the chain applied. -/
def decoded (key : DecodedKey) (forms : StateM Parts (List Text)) : StateM Parts (List Text) :=
  decodedMemo.lookupOrMake key do
    return (← forms).flatMap (Transform.applyAll source.engine key.2.2)

end Source

end EasyWaf.Modules
