import Mathlib
import EasyWaf.Http.Address
import EasyWaf.Libraries
import EasyWaf.Text.Decimal
import EasyWaf.Text.Utf8

/-!
# The hostnames and backends of a site

What a hostname field is read as: a bare host in lower case, with what is often
pasted around one cut off.
-/

namespace EasyWaf.Routes

/-- A text up to the first occurrence of a character. -/
def upTo (c : Char) (text : Text) : Text := text.takeWhile (· ≠ c)

/-- `normalize_server_name`. -/
def normalizeServerName (libraries : Libraries) (raw : Text) : Text :=
  let host := libraries.toLowercase raw.trim
  let host := match host.dropInfix? "://".toList with
    | some (_, after) => after
    | none => host
  Text.trimEndMatches (· = '.') (upTo ':' (upTo '/' host))

/-- A label of letters, digits and hyphens, none of the hyphens at an end. -/
def isLabel (label : Text) : Bool :=
  label ≠ [] && label.bytes.length ≤ 63 && label.head? ≠ some '-' && label.getLast? ≠ some '-' &&
    label.all fun c => (c.isAlphanum && c.toNat < 128) || c = '-'

/-- `is_hostname`. -/
def isHostname (host : Text) : Bool :=
  host ≠ [] && host.bytes.length ≤ 253 && (host.splitOn '.').all isLabel

/-- Why a list of aliases is refused. -/
inductive AliasError
  | notHostname (token : Text)
  | wildcard (host : Text)
  | invalid (host : Text)
  | ownHostname (host : Text)
  deriving DecidableEq

/-- One more alias; one named already is passed over. -/
def addAlias (libraries : Libraries) (serverName : Text) (out : List Text) (token : Text) :
    Except AliasError (List Text) :=
  let host := normalizeServerName libraries token
  if host = [] then .error (.notHostname token.trim)
  else if host.contains '*' then .error (.wildcard host)
  else if !isHostname host then .error (.invalid host)
  else if host = serverName then .error (.ownHostname host)
  else if out.contains host then .ok out
  else .ok (out ++ [host])

/-- The separators of an alias field. -/
def isSeparator (c : Char) : Bool := [',', '\n', '\r', ' ', '\t'].contains c

/-- `parse_aliases`. -/
def parseAliases (libraries : Libraries) (raw serverName : Text) : Except AliasError (List Text) :=
  ((raw.splitOnP isSeparator).filter fun token => Text.trim token ≠ []).foldlM
    (addAlias libraries serverName) []

example : normalizeServerName Libraries.plain "https://Example.com:8080/app/".toList =
    "example.com".toList := by decide

section Aliases

variable {libraries : Libraries} {serverName : Text} {out next : List Text} {token : Text}

/-- An alias list names each host once, and never the site's own. -/
structure AliasList (serverName : Text) (aliases : List Text) : Prop where
  nodup : aliases.Nodup
  not_own : serverName ∉ aliases

theorem AliasList.add (hout : AliasList serverName out)
    (hnext : addAlias libraries serverName out token = .ok next) : AliasList serverName next := by
  rw [addAlias] at hnext
  split at hnext
  · contradiction
  · split at hnext
    · contradiction
    · split at hnext
      · contradiction
      · split at hnext
        · contradiction
        · rename_i hown
          split at hnext
          · rwa [← Except.ok.inj hnext]
          · rename_i hnew
            rw [← Except.ok.inj hnext]
            constructor
            · rw [List.nodup_append']
              refine ⟨hout.nodup, List.nodup_singleton _, ?_⟩
              rw [List.disjoint_singleton]
              simpa using hnew
            · intro hmem
              obtain hbefore | hlast := List.mem_append.mp hmem
              · exact hout.not_own hbefore
              · exact hown (List.mem_singleton.mp hlast).symm

theorem AliasList.foldlM {tokens : List Text} (hout : AliasList serverName out)
    (hnext : tokens.foldlM (addAlias libraries serverName) out = .ok next) :
    AliasList serverName next := by
  induction tokens generalizing out with
  | nil =>
      obtain rfl : out = next := Except.ok.inj hnext
      exact hout
  | cons token tokens ih =>
      rw [List.foldlM_cons] at hnext
      cases hadd : addAlias libraries serverName out token with
      | error error =>
          rw [hadd] at hnext
          contradiction
      | ok middle =>
          rw [hadd] at hnext
          exact ih (hout.add hadd) hnext

theorem parseAliases_aliasList {raw : Text} (hparse : parseAliases libraries raw serverName = .ok next) :
    AliasList serverName next :=
  AliasList.foldlM ⟨List.nodup_nil, List.not_mem_nil⟩ hparse

end Aliases

end EasyWaf.Routes

/-!
## The backends a site is given

The Upstream field of a site's form, a backend a line or an entry, and the addresses
an import accepts.
-/

namespace EasyWaf.Routes

open Http

/-- A backend as the field describes it. -/
structure Backend where
  url : Text
  weight : ℤ
  enabled : Bool
  deriving DecidableEq

/-- `valid_upstream`. -/
def validUpstream (raw : Text) : Except Text Text :=
  let url := raw.trim.trimEndMatches (· = '/')
  let quoted := '"' :: url ++ ['"']
  if url = [] then .error "An upstream needs a URL".toList
  else
    match url.dropInfix? "://".toList with
    | some (scheme, rest) =>
        if scheme = "http".toList ∨ scheme = "https".toList then
          let host := (rest.splitOn '/').headD []
          if host = [] then .error (quoted ++ " has no host".toList)
          else if rest.contains '/' && rest.getLast? != some '/' then
            .error (quoted ++ " has a path. An upstream is a scheme, a host and a port; the ".toList ++
              "request's own path is added to it".toList)
          else .ok (scheme ++ "://".toList ++ host)
        else .error (quoted ++ " needs a scheme — http:// or https:// — and a host, like ".toList ++
          "http://127.0.0.1:3000".toList)
    | none => .error (quoted ++ " needs a scheme — http:// or https:// — and a host, like ".toList ++
        "http://127.0.0.1:3000".toList)

/-- `rsplit_once(char::is_whitespace)`. -/
def rsplitWhitespace (text : Text) : Option (Text × Text) :=
  match text.rdropWhile (!Text.isWhitespace ·) with
  | [] => none
  | before => some (before.dropLast, text.drop before.length)

/-- An entry less the word that parks it, and whether it has none. -/
def parked (entry : Text) : Text × Bool :=
  match entry.dropSuffix? "off".toList with
  | some head =>
      if head.getLast?.any Text.isWhitespace then (Text.trimEndMatches Text.isWhitespace head, false)
      else (entry, true)
  | none => (entry, true)

/-- One entry of the field: the backend it describes, or what is wrong with it. -/
def parseEntry (entry : Text) : Except Text Backend := do
  let (rest, enabled) := parked entry
  let (url, weight) ← match rsplitWhitespace rest with
    | some (url, weight) =>
        match (Text.parseInt64 weight.trim).filter (1 ≤ ·) with
        | some weight => .ok (url.trim, weight)
        | none => .error ('"' :: weight.trim ++
            "\" is not a weight — a whole number of 1 or more, as in \"".toList ++ url.trim ++
            " 3\", optionally followed by \"off\"".toList)
    | none => .ok (rest, 1)
  let url ← validUpstream url
  .ok { url, weight, enabled }

/-- The entries of the field. -/
def entries (raw : Text) : List Text :=
  ((Text.lines raw).flatMap fun line => (line.splitOn ',').map Text.trim).filter (· ≠ [])

/-- One more entry; of the same address twice, the first stands. -/
def addEntry (read : List Backend × List Text) (entry : Text) : List Backend × List Text :=
  match parseEntry entry with
  | .ok backend =>
      if read.1.any (·.url == backend.url) then read else (read.1 ++ [backend], read.2)
  | .error why => (read.1, read.2 ++ [why])

/-- `parse_upstreams`. -/
def parseUpstreams (raw : Text) : List Backend × List Text := (entries raw).foldl addEntry ([], [])

/-- An import's check of one upstream's address. -/
def importAccepts (parser : UrlParser) (url : Text) : Bool := (parser.parse url).isSome

/-- The site form or an import may store the address. -/
def Storable (parser : UrlParser) (url : Text) : Prop :=
  (∃ raw, (parseUpstreams raw).2 = [] ∧ ∃ backend ∈ (parseUpstreams raw).1, backend.url = url) ∨
    importAccepts parser url = true

example : (parseUpstreams "http://10.0.0.2:80 3, https://b/ off\nftp://c".toList).1 =
    [⟨"http://10.0.0.2:80".toList, 3, true⟩, ⟨"https://b".toList, 1, false⟩] := by decide +kernel

end EasyWaf.Routes
