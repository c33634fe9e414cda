import EasyWaf.Http.Header
import EasyWaf.SmartProtect

/-!
# A site's request limit

How many requests one client may make within a window, and the count of what it
has made: the requests of the window now running, plus the last window's in
proportion to how much of it the sliding window still covers.
-/

namespace EasyWaf.RateLimit

/-- `REQUESTS_RANGE`. -/
def maxRequests : ℤ := 1000000

inductive Action
  | block
  | challenge
  deriving DecidableEq

def Action.parse (raw : Text) : Option Action :=
  let raw := raw.trim
  if raw = "block".toList then some block
  else if raw = "challenge".toList then some challenge
  else none

/-- A limit as the proxy applies it; the window is in seconds. -/
structure Limit where
  requests : ℤ
  window : ℤ
  action : Action
  detectionOnly : Bool
  requests_range : 1 ≤ requests ∧ requests ≤ maxRequests
  window_pos : 1 ≤ window
  deriving DecidableEq

/-- The limit a site's columns describe: none when it is off, and none for
values the form does not offer. -/
def Limit.of (mode : Text) (requests window : ℤ) (action : Text) : Option Limit := do
  let detectionOnly ←
    if mode = "On".toList then some false
    else if mode = "DetectionOnly".toList then some true
    else none
  let action ← Action.parse action
  if hrequests : 1 ≤ requests ∧ requests ≤ maxRequests then
    if hwindow : 1 ≤ window then
      some ⟨requests, window, action, detectionOnly, hrequests, hwindow⟩
    else none
  else none

section Describing

/-- A window as the form names it. -/
def windowText (windowSecs : ℕ) : Text :=
  if windowSecs = 60 then "a minute".toList
  else if windowSecs = 3600 then "an hour".toList
  else SmartProtect.span (windowSecs * 1000000000)

/-- A number of requests and a window as a person says them. -/
def describe (requests windowSecs : ℕ) : Text :=
  let noun := if requests = 1 then "request".toList else "requests".toList
  let per := if windowSecs = 60 ∨ windowSecs = 3600 then windowText windowSecs
    else "every ".toList ++ windowText windowSecs
  Text.formatNat requests ++ ' ' :: noun ++ ' ' :: per

example : describe 600 60 = "600 requests a minute".toList := by decide

end Describing

/-- One client's requests, in the window now running and the one before it;
times are in milliseconds. -/
structure Tally where
  windowMs : ℕ
  /-- Which window `current` counts. -/
  slot : ℕ
  current : ℕ
  previous : ℕ
  lastMs : ℕ
  deriving DecidableEq

/-- What the count was when a request was counted, this request included. -/
structure Count where
  requests : ℕ
  scaled : ℕ
  tally : Tally
  deriving DecidableEq

namespace Tally

/-- Bring the tally to the window `nowMs` falls in. -/
def advance (tally : Tally) (nowMs windowMs : ℕ) : Tally :=
  let slot := nowMs / windowMs
  if tally.windowMs ≠ windowMs then
    { windowMs, slot, current := 0, previous := 0, lastMs := 0 }
  else if slot = tally.slot + 1 then
    { tally with previous := tally.current, current := 0, slot }
  else if tally.slot < slot then { tally with previous := 0, current := 0, slot }
  else tally

/-- The requests within the sliding window, times the window's length. -/
def scaled (tally : Tally) (nowMs : ℕ) : ℕ :=
  tally.previous * (tally.windowMs - nowMs % tally.windowMs) + tally.current * tally.windowMs

def record (tally : Tally) (nowMs windowMs : ℕ) : Tally × Count :=
  let advanced := tally.advance nowMs windowMs
  let counted := { advanced with
    current := min (advanced.current + 1) (2 ^ 64 - 1)
    lastMs := nowMs }
  let scaled := counted.scaled nowMs
  (counted, { requests := (scaled + windowMs - 1) / windowMs % 2 ^ 64, scaled, tally := counted })

end Tally

/-- Whether the request takes the client over `limit`. -/
def Count.over (count : Count) (limit : ℕ) : Bool := limit * count.tally.windowMs < count.scaled

/-- Whether a request is a page being loaded, which a person sees. -/
def isPageLoad (method : Text) (secFetchMode accept : Option Text) : Bool :=
  match secFetchMode with
  | some mode => Text.eqIgnoreAsciiCase mode "navigate".toList
  | none => method = "GET".toList && accept.any (Text.hasInfix "text/html".toList)

end EasyWaf.RateLimit
