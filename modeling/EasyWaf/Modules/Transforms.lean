import EasyWaf.Text.Basic

/-!
# Decodings by name
-/

namespace EasyWaf.Modules

inductive Transform
  | cmdLine
  | removeWhitespace
  | compressWhitespace
  | replaceComments
  | removeCommentsChar
  | base64Decode
  | base64Runs
  | escapeSeqDecode
  | urlDecode
  | urlDecodeUni
  | htmlEntityDecode
  | jsDecode
  | cssDecode
  | removeNulls
  | normalizePath
  | normalizePathWin
  | lowercase
  | trim
  | dotPrefix
  | utf8ToUnicode
  | length
  | detectSqli
  | detectXss
  | multiMatch
  /-- `none`: the chain starts from each value as parsed. -/
  | parsed
  deriving DecidableEq

namespace Transform

/-- Each decoding by the name a rule gives it. -/
def names : List (Text × Transform) := [
  ("cmdLine".toList, cmdLine),
  ("removeWhitespace".toList, removeWhitespace),
  ("compressWhitespace".toList, compressWhitespace),
  ("replaceComments".toList, replaceComments),
  ("removeCommentsChar".toList, removeCommentsChar),
  ("base64Decode".toList, base64Decode),
  ("base64Runs".toList, base64Runs),
  ("escapeSeqDecode".toList, escapeSeqDecode),
  ("urlDecode".toList, urlDecode),
  ("urlDecodeUni".toList, urlDecodeUni),
  ("htmlEntityDecode".toList, htmlEntityDecode),
  ("jsDecode".toList, jsDecode),
  ("cssDecode".toList, cssDecode),
  ("removeNulls".toList, removeNulls),
  ("normalizePath".toList, normalizePath),
  ("normalizePathWin".toList, normalizePathWin),
  ("lowercase".toList, lowercase),
  ("trim".toList, trim),
  ("dotPrefix".toList, dotPrefix),
  ("utf8toUnicode".toList, utf8ToUnicode),
  ("length".toList, length),
  ("detectSQLi".toList, detectSqli),
  ("detectXSS".toList, detectXss),
  ("multiMatch".toList, multiMatch),
  ("none".toList, parsed)]

/-- A decoding by its name, in any case. -/
def parse (name : Text) : Option Transform :=
  (names.find? fun entry => entry.1.eqIgnoreAsciiCase name.trim).map (·.2)

/-- A decoding's own name. -/
def name (transform : Transform) : Text :=
  ((names.find? fun entry => entry.2 = transform).map (·.1)).getD ['?']

end Transform

/-- Decodings by name, in order; the error is the first name there is none
for. -/
def parseList (names : List Text) : Except Text (List Transform) :=
  names.mapM fun name =>
    match Transform.parse name with
    | some transform => .ok transform
    | none => .error name

end EasyWaf.Modules

/-!
## The lists a policy sets

A pattern may name a list as `%{allowed_methods}`; when a policy's rules are
loaded it is replaced by an alternation of the list's words.
-/

namespace EasyWaf.Modules.Values

/-- `VALUES`: each list's name and default. -/
def values : List (Text × Text) := [
  ("allowed_methods".toList, "GET HEAD POST OPTIONS".toList),
  ("allowed_content_types".toList,
    ("application/x-www-form-urlencoded multipart/form-data text/xml application/xml " ++
      "application/soap+xml application/json application/x-amz-json-1.0 " ++
      "application/x-amz-json-1.1 application/*+json").toList),
  ("allowed_charsets".toList, "utf-8 iso-8859-1 iso-8859-15 windows-1252".toList),
  ("allowed_http_versions".toList, "HTTP/1.0 HTTP/1.1 HTTP/2 HTTP/2.0 HTTP/3 HTTP/3.0".toList),
  ("restricted_extensions".toList,
    ("ani asa asax ascx back backup bak bck bk bkp bat cdx cer cfg cmd cnf com compositefont " ++
      "config conf copy crt cs csproj csr dat db dbf dist dll dos dpkg-dist drv gadget hta htr " ++
      "htw ida idc idq inc inf ini jks jse key licx lnk log mdb msc ocx old pass pdb pfx pif pem " ++
      "pol prf printer pwd rdb rdp reg resources resx sav save scr sct sh shs sql sqlite sqlite3 " ++
      "swap swo swp sys temp tfstate tlb tmp vb vbe vbs vbproj vsdisco vxd webinfo ws wsc wsf wsh " ++
      "xsd xsx").toList),
  ("restricted_headers".toList,
    ("content-encoding proxy lock-token content-range if x-http-method-override x-http-method " ++
      "x-method-override x-middleware-subrequest expect").toList)]

/-- A list's default by its name. -/
def find (name : Text) : Option Text := values.lookup name

/-- A list as it is stored: its words, one space apart. -/
def tidy (text : Text) : Text := Text.join [' '] text.splitWhitespace

/-- What a policy's lists hold, by name. -/
abbrev Lists := Text → Option Text

def defaults : Lists := fun name => (find name).map tidy

/-- A policy's lists: what its rows set, and the default for every other. -/
def ofRows (rows : List (Text × Text)) : Lists :=
  rows.foldl
    (fun out row =>
      if (find row.1).isSome then Function.update out row.1 (some (tidy row.2)) else out)
    defaults

/-- The names of the lists a pattern reads; `count` bounds how many. -/
def namesFrom : (count : ℕ) → List Text → Text → List Text
  | 0, out, _ => out
  | count + 1, out, rest =>
      match rest.dropInfix? "%\x7b".toList with
      | none => out
      | some (_, after) =>
          match Text.splitOnce '\x7d' after with
          | none => out
          | some (name, rest) =>
              namesFrom count (if out.contains name then out else out ++ [name]) rest

/-- The names of the lists a pattern reads, in order, each once. -/
def namedIn (pattern : Text) : List Text := namesFrom pattern.length [] pattern

/-- `regex::escape`. -/
def regexEscape (word : Text) : Text :=
  word.flatMap fun c =>
    if "\\.+*?()|[]\x7b\x7d^$#&-~".toList.contains c then ['\\', c] else [c]

/-- A list as an alternation of its words; one with no words matches nothing. -/
def alternation (list : Text) : Text :=
  let words := list.splitWhitespace.map fun word =>
    Text.replace "\\*".toList "[0-9A-Za-z!#$&^_.+-]*".toList (regexEscape word)
  if words = [] then "[^\\s\\S]".toList
  else "(?:".toList ++ Text.join ['|'] words ++ [')']

/-- A pattern with the lists it names in it; the error is a name this version
does not know. -/
def substitute (pattern : Text) (values : Lists) : Except Text Text :=
  if Text.hasInfix "%\x7b".toList pattern then
    (namedIn pattern).foldlM
      (fun out name =>
        if (find name).isNone then .error name
        else .ok (Text.replace ("%\x7b".toList ++ name ++ "\x7d".toList)
          (alternation ((values name).getD [])) out))
      pattern
  else .ok pattern

example : substitute "^%\x7ballowed_methods\x7d$".toList defaults =
    .ok "^(?:GET|HEAD|POST|OPTIONS)$".toList := by decide

end EasyWaf.Modules.Values
