import EasyWaf.Net.IpAddr
import EasyWaf.SlidingCounter
import EasyWaf.SmartProtect

/-!
# Refusals counted as they happen

The table every policy shares: the refusals of each client within the window, and
the blocks in force.
-/

namespace EasyWaf.SmartProtect

open EasyWaf.Core Net

/-- `Duration::from_secs`, in nanoseconds. -/
def fromSecs (secs : ℕ) : ℕ := 1000000000 * secs

/-- `Duration::as_secs`. -/
def asSecs (nanoseconds : ℕ) : ℕ := nanoseconds / 1000000000

theorem asSecs_fromSecs (secs : ℕ) : asSecs (fromSecs secs) = secs :=
  Nat.mul_div_cancel_left secs (by decide)

/-- How many refusals, within what window, block an address, and for how long. -/
structure Numbers where
  refusals : ℕ
  window : ℕ
  block : ℕ

/-- `set_numbers`: each held to the range the form accepts. -/
def setNumbers (refusals windowSecs blockSecs : ℕ) : Numbers where
  refusals := max 2 (min refusals 100)
  window := fromSecs (max 10 (min windowSecs 3600))
  block := fromSecs (max 60 (min blockSecs 86400))

/-- The unit a client is counted and blocked as: its address for IPv4, its /64 for
IPv6. -/
def unit : IpAddr → IpAddr
  | .v4 bits => .v4 bits
  | .v6 bits =>
      match IpAddr.toIpv4Mapped bits with
      | some v4 => .v4 v4
      | none => .v6 ((bits >>> 64) <<< 64)

structure Key where
  policy : ℤ
  unit : IpAddr
  deriving DecidableEq

/-- One address blocked on one policy, as the table holds it; instants are in
nanoseconds. -/
structure HeldBlock where
  policy : ℤ
  unit : IpAddr
  address : IpAddr
  reason : Text
  refusals : ℕ
  window : ℕ
  ends : ℕ

/-- A block, as a refusal tells of it. -/
def HeldBlock.toBlock (block : HeldBlock) (now : ℕ) : Block where
  remaining := block.ends - now
  refusals := block.refusals
  window := block.window

/-- `MAX_COUNTED`. -/
def maxCounted : ℕ := 100000

/-- `MAX_BLOCKS`. -/
def maxBlocks : ℕ := 50000

structure State where
  counter : SlidingCounter Key
  blocks : Table Key HeldBlock
  /-- How many blocks are held, so that the request path can skip the lock. -/
  blockCount : ℕ

namespace State

def new : State where
  counter := .new maxCounted
  blocks := .empty
  blockCount := 0

variable (state : State) (policy : ℤ) (ip : IpAddr) (now : ℕ)

/-- The block on this client for this policy, if one is in force. -/
def blocked : State × Option HeldBlock :=
  if state.blockCount = 0 then (state, none)
  else
    match state.blocks.get ⟨policy, unit ip⟩ with
    | some block =>
        if now < block.ends then (state, some block)
        else
          let blocks := state.blocks.erase ⟨policy, unit ip⟩
          ({ state with blocks, blockCount := blocks.size }, none)
    | none => (state, none)

/-- The blocks that have not ended. -/
def liveBlocks : Table Key HeldBlock := state.blocks.retain fun _ block => now < block.ends

/-- The blocks, with room for one more: of those that have not ended, the one that
ends soonest goes.  `order` is the one the table is gone through in. -/
def roomForBlock (order : Finset Key → List Key) : Table Key HeldBlock :=
  if state.blocks.size < maxBlocks then state.blocks
  else
    let live := state.liveBlocks now
    if live.size < maxBlocks then live
    else
      match (order live.keys).argmin fun key => (live.get key).elim 0 (·.ends) with
      | some soonest => live.erase soonest
      | none => live

/-- `offence_at`: count a refusal, and block where it completes the count. -/
def offenceAt (order : Finset Key → List Key) (reason : Text) (numbers : Numbers) :
    State × Option HeldBlock :=
  let key : Key := ⟨policy, unit ip⟩
  if (state.blocks.get key).any fun block => now < block.ends then (state, none)
  else
    let (counter, count) := state.counter.record key now numbers.window numbers.refusals
    if count < numbers.refusals then ({ state with counter }, none)
    else
      let block : HeldBlock :=
        { policy
          unit := unit ip
          address := ip
          reason
          refusals := numbers.refusals
          window := numbers.window
          ends := now + numbers.block }
      let blocks := (state.roomForBlock now order).insert key block
      ({ counter := counter.forget key, blocks, blockCount := blocks.size }, some block)

end State

end EasyWaf.SmartProtect
