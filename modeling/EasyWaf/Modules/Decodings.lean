import EasyWaf.Modules.Transforms
import EasyWaf.Modules.ZoneText
import EasyWaf.Text.Decimal
import EasyWaf.Text.Utf8

/-!
# Decodings applied

What each decoding a rule names makes of a text, and a chain of them.
-/

namespace EasyWaf.Modules

open Decoders Paths ZoneText EasyWaf.Core

/-- A JSON document, an object's members in the order its map holds them. -/
inductive Json
  | null
  | bool (value : Bool)
  | number (text : Text)
  | string (text : Text)
  | array (items : List Json)
  | object (members : List (Text × Json))

/-- An XML document: its texts, and each element's attributes, in order. -/
structure XmlDocument where
  texts : List Text
  attributes : List (Text × Text)

/-- What the engine takes from outside to read a request. -/
structure Engine where
  /-- `str::to_lowercase`. -/
  toLowercase : Text → Text
  /-- `regex::Regex::new`, as what the pattern matches. -/
  regex : Text → Option (Text → Bool)
  /-- A name's pattern, without regard to case. -/
  nameMatches : Text → Text → Bool
  /-- `libinjectionrs::detect_sqli`: the fingerprint of what is an injection. -/
  detectSqli : List UInt8 → Option Text
  detectXss : List UInt8 → Bool
  /-- `serde_json::from_slice`. -/
  parseJson : List UInt8 → Option Json
  /-- `roxmltree::Document::parse_with_options`. -/
  parseXml : Text → Option XmlDocument

namespace Transform

section Characters

/-- Whitespace as `isspace` reads it, and the no-break space. -/
def isSpace (c : Char) : Bool :=
  [' ', '\t', '\n', Char.ofNat 0x0B, Char.ofNat 0x0C, '\r', Char.ofNat 0xA0].contains c

/-- One character more of `cmd_line`: what is written so far, and whether it ends
with a space. -/
def cmdLineStep (state : Text × Bool) (c : Char) : Text × Bool :=
  let (out, space) := state
  if ['"', '\'', '\\', '^'].contains c then (out, space)
  else if [' ', ',', ';', '\t', '\r', '\n'].contains c then
    if space then (out, space) else (out ++ [' '], true)
  else if ['/', '('].contains c then ((if space then out.dropLast else out) ++ [c], false)
  else (out ++ [c.toLower], false)

def cmdLineText (text : Text) : Text := (text.foldl cmdLineStep ([], false)).1

/-- `compress_whitespace`, after a space or not. -/
def compressFrom : Bool → Text → Text
  | _, [] => []
  | space, c :: rest =>
      if isSpace c then
        if space then compressFrom true rest else ' ' :: compressFrom true rest
      else c :: compressFrom false rest

/-- `replace_comments`; `count` bounds how many. -/
def replaceCommentsWithin : (count : ℕ) → Text → Text
  | 0, text => text
  | count + 1, text =>
      match text.dropInfix? ['/', '*'] with
      | none => text
      | some (before, opened) =>
          before ++ ' ' :: match opened.dropInfix? ['*', '/'] with
            | some (_, rest) => replaceCommentsWithin count rest
            | none => []

def commentMarkers : List Text :=
  ["<!--".toList, "-->".toList, "/*".toList, "*/".toList, "--".toList, "#".toList]

/-- `remove_comments_char`, less the first characters, which are of a marker. -/
def removeMarkersFrom : ℕ → Text → Text
  | _, [] => []
  | skip + 1, _ :: rest => removeMarkersFrom skip rest
  | 0, c :: rest =>
      match commentMarkers.find? (·.isPrefixOf (c :: rest)) with
      | some marker => removeMarkersFrom (marker.length - 1) rest
      | none => c :: removeMarkersFrom 0 rest

/-- A number in base 16, of four digits at least. -/
def formatHex (value : ℕ) : Text :=
  let digits := Nat.toDigits 16 value
  List.replicate (4 - digits.length) '0' ++ digits

/-- `utf8_to_unicode`. -/
def utf8ToUnicodeText (text : Text) : Text :=
  text.flatMap fun c =>
    if c.toNat ≤ 0x7F then [c]
    else if c.toNat ≤ 0xFFFF then '%' :: 'u' :: formatHex c.toNat
    else [c]

end Characters

section Base64

def base64Value (byte : UInt8) : Option ℕ :=
  let n := byte.toNat
  if 65 ≤ n ∧ n ≤ 90 then some (n - 65)
  else if 97 ≤ n ∧ n ≤ 122 then some (n - 97 + 26)
  else if 48 ≤ n ∧ n ≤ 57 then some (n - 48 + 52)
  else if n = 43 ∨ n = 45 then some 62
  else if n = 47 ∨ n = 95 then some 63
  else none

/-- One digit more of `decode_digits`: what is decoded, and the bits left over. -/
def digitStep (state : List UInt8 × ℕ × ℕ) (digit : ℕ) : List UInt8 × ℕ × ℕ :=
  let (out, acc, bits) := state
  let acc := acc * 64 + digit
  let bits := bits + 6
  if 8 ≤ bits then
    (out ++ [UInt8.ofNat (acc / 2 ^ (bits - 8))], acc % 2 ^ (bits - 8), bits - 8)
  else (out, acc, bits)

/-- `decode_digits`. -/
def decodeDigits (digits : List UInt8) : List UInt8 :=
  ((digits.filterMap base64Value).foldl digitStep ([], 0, 0)).1

/-- A digit of the standard alphabet. -/
def isBase64Digit (byte : UInt8) : Bool :=
  (base64Value byte).isSome && byte != 45 && byte != 95

/-- `base64_decode`. -/
def base64DecodeText (text : Text) : Text :=
  let bytes := text.bytes.filter fun byte => !([13, 10, 32, 9] : List UInt8).contains byte
  let digits := ((bytes.dropSuffix? [61, 61]).or (bytes.dropSuffix? [61])).getD bytes
  if digits.length % 4 = 1 ∨ ¬ digits.all isBase64Digit then []
  else Text.fromUtf8Lossy (decodeDigits digits)

/-- `base64_runs`: each run of digits, four of them or more, on a line.  Padding is
no digit, and so ends a run. -/
def base64RunsText (text : Text) : Text :=
  let runs := (text.bytes.splitOnP fun byte => (base64Value byte).isNone).filter (4 ≤ ·.length)
  Text.fromUtf8Lossy (runs.foldl
    (fun out run => (if out.isEmpty then out else out ++ [10]) ++ decodeDigits run) [])

end Base64

section Escapes

/-- The escapes a letter names in C. -/
def cNamed (byte : UInt8) : Option UInt8 :=
  if [97, 98, 102, 110, 114, 116, 118].contains byte then some (jsNamed byte)
  else if [92, 63, 39, 34].contains byte then some byte
  else none

/-- What follows a backslash, to `escape_seq_decode`. -/
def cEscape : Escape UInt8
  | [] => none
  | letter :: rest =>
      let octal := digitsOf 8 3 (letter :: rest)
      some (match cNamed letter with
        | some byte => ([byte], 1)
        | none =>
            match if lowered letter = 0x78 then byteEscape rest else none with
            | some (out, used) => (out, used + 1)
            | none =>
                if octal.isEmpty then ([letter], 1)
                else ([UInt8.ofNat (number 8 octal)], octal.length))

/-- `escape_seq_decode`. -/
def escapeSeqDecodeText (text : Text) : Text :=
  Text.fromUtf8Lossy (unescape 92 cEscape text.bytes)

end Escapes

variable (engine : Engine)

/-- `Transform::apply`. -/
def apply : Transform → Text → Text
  | cmdLine, text => cmdLineText text
  | removeWhitespace, text => text.filter (!isSpace ·)
  | compressWhitespace, text => compressFrom false text
  | replaceComments, text => replaceCommentsWithin text.length text
  | removeCommentsChar, text => removeMarkersFrom 0 text
  | base64Decode, text => base64DecodeText text
  | base64Runs, text => base64RunsText text
  | escapeSeqDecode, text => escapeSeqDecodeText text
  | urlDecode, text => percentDecode (replaceChar '+' ' ' text)
  | urlDecodeUni, text => Decoders.urlDecodeUni (replaceChar '+' ' ' text)
  | htmlEntityDecode, text => Decoders.htmlEntityDecode text
  | jsDecode, text => Decoders.jsDecode text
  | cssDecode, text => Decoders.cssDecode text
  | removeNulls, text => Decoders.removeNulls text
  | normalizePath, text => ZoneText.normalizePath text
  | normalizePathWin, text => ZoneText.normalizePathWin text
  | lowercase, text => engine.toLowercase text
  | trim, text => text.trimMatches isSpace
  | dotPrefix, text => '.' :: text
  | utf8ToUnicode, text => utf8ToUnicodeText text
  | length, text => Text.formatNat text.bytes.length
  | detectSqli, text => (engine.detectSqli text.bytes).getD []
  | detectXss, text => if engine.detectXss text.bytes then "xss".toList else []
  | multiMatch, text => text
  | parsed, text => text

/-- A measure of a value rather than a decoding of it. -/
def isMeasure : Transform → Bool
  | length | detectSqli | detectXss => true
  | _ => false

/-- A name in a chain that decodes nothing. -/
def isMark : Transform → Bool
  | multiMatch | parsed => true
  | _ => false

/-- The decodings of a chain one after the other: the last text, or with `every`
the first and what each leaves, none twice. -/
def applyEach (every : Bool) (chain : List Transform) (text : Text) : List Text :=
  let (out, last) := (chain.filter (!isMark ·)).foldl
    (fun (state : List Text × Text) decoding =>
      let text := decoding.apply engine state.2
      (if every && !state.1.contains text then state.1 ++ [text] else state.1, text))
    (if every then [text] else [], text)
  if every then out else out ++ [last]

/-- `apply_all`, on a chain read from its end. -/
def applyBackward : List Transform → Text → List Text
  | [], text => applyEach engine false [] text
  | last :: earlier, text =>
      let every := (last :: earlier).contains multiMatch
      if every && last.isMeasure then (applyBackward earlier text).map (last.apply engine)
      else applyEach engine every (last :: earlier).reverse text

/-- `apply_all`. -/
def applyAll (chain : List Transform) (text : Text) : List Text :=
  applyBackward engine chain.reverse text

end Transform

end EasyWaf.Modules
