import EasyWaf.Signature
import EasyWaf.Text.Decimal

/-!
# The backends of a site

The pool travels with the site row as `id url weight`, one line per backend.
-/

namespace EasyWaf.Upstream

/-- One backend of a site, as the request path needs it. -/
structure Backend where
  id : ℤ
  url : Text
  /-- Share of the rotation. -/
  weight : ℤ
  weight_pos : 1 ≤ weight

/-- `str::lines`: the text before each line end, and what is left after the last
one unless that is nothing. -/
def lines (text : Text) : List Text :=
  let parts := text.splitOn '\n'
  let ended := parts.dropLast.map fun (line : Text) => (line.dropSuffix? ['\r']).getD line
  ended ++ parts.getLast?.toList.filter (· ≠ [])

/-- One line of the pool; a line that does not parse is skipped. -/
def parseBackend (line : Text) : Option Backend := do
  let (id, rest) ← Text.splitOnce ' ' line.trim
  let id ← Text.parseInt64 id
  let (url, weight) := match Text.rsplitOnce ' ' rest with
    | some (url, weight) => (url.trim, (Text.parseInt64 weight.trim).getD 1)
    | none => (rest.trim, 1)
  if url = [] then none else some ⟨id, url, max weight 1, le_max_right _ _⟩

def parsePool (raw : Text) : List Backend := (lines raw).filterMap parseBackend

example : (parsePool "7 http://10.0.0.2:80 3\n8 http://10.0.0.3 0".toList).map (·.weight) =
    [3, 1] := by decide

end EasyWaf.Upstream

/-!
## The affinity cookie

It names the backend a client is pinned to, signed so that a client cannot choose
its own.
-/

namespace EasyWaf.Upstream

open Signature Text

variable (hmac : KeyedHash) (secret : Text)

def signedText (upstreamId : ℤ) : Text := "upstream|".toList ++ formatInt upstreamId

def signPin (upstreamId : ℤ) : Text := hex (hmac secret.bytes (signedText upstreamId).bytes)

def makePin (upstreamId : ℤ) : Text :=
  formatInt upstreamId ++ '.' :: signPin hmac secret upstreamId

/-- The upstream a cookie pins to, if it is one this installation signed. -/
def readPin (value : Text) : Option ℤ := do
  let (id, sig) ← splitOnce '.' value
  let id ← parseInt64 id
  if same sig.bytes (signPin hmac secret id).bytes then some id else none

variable {hmac secret} {value : Text} {id : ℤ}

theorem eq_of_readPin (hread : readPin hmac secret value = some id) :
    ∃ idText, value = idText ++ '.' :: signPin hmac secret id := by
  obtain ⟨⟨idText, sig⟩, hsplit, hread⟩ := Option.bind_eq_some_iff.mp hread
  obtain ⟨parsed, -, hread⟩ := Option.bind_eq_some_iff.mp hread
  split at hread
  · rename_i hsame
    obtain rfl := Option.some.inj hread
    have hsig := Text.bytes_injective (same_iff.mp hsame)
    exact ⟨idText, hsig ▸ (splitOnce_eq_some hsplit).1⟩
  · contradiction

/-- A pin reads back. -/
theorem readPin_makePin (hlow : -2 ^ 63 ≤ id) (hhigh : id < 2 ^ 63) :
    readPin hmac secret (makePin hmac secret id) = some id := by
  have hdot : '.' ∉ formatInt id := not_mem_formatInt (by decide) (by decide) id
  have hsame : same (signPin hmac secret id).bytes (signPin hmac secret id).bytes = true :=
    same_iff.mpr rfl
  rw [readPin, makePin, splitOnce_append hdot, Option.bind_eq_bind, Option.bind_some]
  dsimp only
  rw [parseInt64_formatInt hlow hhigh, Option.bind_eq_bind, Option.bind_some, if_pos hsame]

end EasyWaf.Upstream
