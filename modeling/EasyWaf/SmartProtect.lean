import EasyWaf.Text.Decimal

/-!
# Smart Protect's blocks
-/

namespace EasyWaf.SmartProtect

/-- A length of time as a person says it, rounded up; the time is in
nanoseconds. -/
def span (nanoseconds : ℕ) : Text :=
  let secs := (nanoseconds + 999999999) / 1000000000
  let (n, word) : ℕ × Text :=
    if secs < 120 then (max secs 1, "second".toList)
    else if secs < 7200 then ((secs + 59) / 60, "minute".toList)
    else ((secs + 3599) / 3600, "hour".toList)
  Text.formatNat n ++ ' ' :: word ++ if n = 1 then [] else ['s']

example : span 600000000000 = "10 minutes".toList := by decide

/-- A block in force on one client; times are in nanoseconds. -/
structure Block where
  /-- How long is left. -/
  remaining : ℕ
  /-- The numbers it was blocked under. -/
  refusals : ℕ
  window : ℕ

/-- Why a request from this client is refused. -/
def Block.refusal (block : Block) : Text :=
  "Smart Protect: this address is blocked for another ".toList ++ span block.remaining ++
    " after ".toList ++ Text.formatNat block.refusals ++ " refused requests within ".toList ++
    span block.window

end EasyWaf.SmartProtect
