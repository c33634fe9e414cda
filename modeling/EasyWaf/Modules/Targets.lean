import EasyWaf.Http.Header
import EasyWaf.Libraries

/-!
# What a rule reads

The zone of a rule, parsed into the parts of a request it names, and the two
columns that hold a rule's decodings and further conditions.
-/

namespace EasyWaf.Modules

/-- `MAX_NAME`, in characters. -/
def maxName : ℕ := 128

/-- The name a zone narrows to: one name, lowercased, or each name matching a
pattern, which is compared by its text. -/
inductive Name
  | is (name : Text)
  | isMatch (pattern : Text)
  deriving DecidableEq

inductive Target
  | url
  | args
  | body
  | headers
  | any
  | path
  | arg (name : Option Name)
  | argName (name : Option Name)
  | header (name : Option Name)
  | headerName (name : Option Name)
  | cookie (name : Option Name)
  | cookieName (name : Option Name)
  | except (target : Target)
  | method
  | xml
  | xmlAttr
  | fileName
  | headerBlock
  | requestLine
  | protocol
  | bodyUnparsed
  | headerLine
  | basename
  | request
  | count (target : Target)
  | matched
  deriving DecidableEq

namespace Target

/-- The zones that take no name. -/
def plain : List (Text × Target) := [
  ("URL".toList, url),
  ("ARGS".toList, args),
  ("BODY".toList, body),
  ("HEADERS".toList, headers),
  ("ANY".toList, any),
  ("PATH".toList, path),
  ("METHOD".toList, method),
  ("XML".toList, xml),
  ("XML_ATTR".toList, xmlAttr),
  ("FILE_NAME".toList, fileName),
  ("HEADER_BLOCK".toList, headerBlock),
  ("REQUEST_LINE".toList, requestLine),
  ("PROTOCOL".toList, protocol),
  ("BODY_UNPARSED".toList, bodyUnparsed),
  ("HEADER_LINE".toList, headerLine),
  ("BASENAME".toList, basename),
  ("REQUEST".toList, request)]

/-- The zones a name may narrow, and whether the name is a header's. -/
def nameable : List (Text × Bool × (Option Name → Target)) := [
  ("ARG".toList, false, arg),
  ("ARG_NAME".toList, false, argName),
  ("HEADER".toList, true, header),
  ("HEADER_NAME".toList, true, headerName),
  ("COOKIE".toList, false, cookie),
  ("COOKIE_NAME".toList, false, cookieName)]

/-- The name a named zone narrows to. -/
def name : Target → Option Name
  | arg name | argName name | header name | headerName name | cookie name | cookieName name => name
  | _ => none

def isExcept : Target → Bool
  | except _ => true
  | _ => false

/-- A zone that cannot be counted. -/
def uncountable : Target → Bool
  | url | args | body | headers | any | except _ | count _ | matched => true
  | _ => false

end Target

variable (libraries : Libraries)

/-- The name after a zone's colon: `some none` for no colon, `none` for a name
that cannot be one. -/
def named (name : Option Text) (header : Bool) : Option (Option Name) :=
  match name with
  | none => some none
  | some name =>
      if maxName < name.length ∨ '|' ∈ name then none
      else
        let pattern := ((name.dropPrefix? ['/']).bind fun n => n.dropSuffix? ['/']).filter (· ≠ [])
        match pattern with
        | some pattern =>
            if libraries.nameRegexBuilds pattern then some (some (.isMatch pattern)) else none
        | none =>
            let fits := name ≠ [] ∧
              ¬ name.any (fun c => Text.isWhitespace c || Text.isControl c) ∧
              (header = true → Http.isHeaderName name = true)
            if fits then some (some (.is (libraries.toLowercase name))) else none

/-- One part of a zone; `inner` reads the zone after a `&` or a `!`. -/
def parsePart (inner : Text → Option (List Target)) (part : Text) : Option Target :=
  match part with
  | '&' :: rest => do
      let counted ← (← inner rest).getLast?
      if '|' ∈ rest ∨ counted.uncountable then none else some (.count counted)
  | '!' :: rest => do
      let except ← (← inner rest).getLast?
      if except.name = none ∨ '|' ∈ rest then none else some (.except except)
  | _ => do
      let (kind, name) := match Text.splitOnce ':' part with
        | some (kind, name) => (kind.trim, some name.trim)
        | none => (part, none)
      let kind := kind.toAsciiUppercase
      match name, Target.plain.lookup kind with
      | none, some target => some target
      | _, _ =>
          let (header, target) ← Target.nameable.lookup kind
          let name ← named libraries name header
          return target name

/-- `depth` bounds how many `&` and `!` stand before one zone. -/
def parseZoneWithin : (depth : ℕ) → Text → Option (List Target)
  | 0, _ => none
  | depth + 1, zone =>
      if zone.trim.eqIgnoreAsciiCase "MATCHED".toList then some [.matched]
      else do
        let targets ← (zone.splitOn '|').mapM fun (part : Text) =>
          parsePart libraries (parseZoneWithin depth) part.trim
        let out := targets.foldl
          (fun out target => if out.contains target then out else out ++ [target]) []
        -- something has to be read for an exception to be taken out of
        if out.any fun target => !target.isExcept then some out else none

/-- A zone as a rule writes it, as the parts it reads. -/
def parseZone (zone : Text) : Option (List Target) :=
  parseZoneWithin libraries (zone.length + 1) zone

/-- Decodings as the `transforms` column holds them. -/
def transformsFromColumn (text : Text) : List Text :=
  ((text.splitOn ',').map Text.trim).filter (· ≠ [])

/-- The conditions stored in a rule's `conditions` column. -/
def readConditions (json : Text) : Option (List Condition) :=
  if json.trim = [] then some [] else libraries.conditionsFromJson json

end EasyWaf.Modules
