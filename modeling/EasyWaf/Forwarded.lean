import EasyWaf.Http.Header
import EasyWaf.Net.IpAddr
import EasyWaf.Text.Decimal

/-!
# Address blocks and the client's address

An entry of the trusted list, of an IP list or of a rule's exclusion: an address
or a CIDR block.
-/

namespace EasyWaf.Forwarded

open Net

/-- `Cidr`: `parse` admits no prefix longer than the address. -/
structure Cidr where
  addr : IpAddr
  prefixLen : ℕ
  prefix_le : prefixLen ≤ addr.width
  deriving DecidableEq

/-- Compare the first `prefix` bits of two addresses. -/
def bitsMatch (a b : List UInt8) (prefixLen : ℕ) : Bool :=
  let full := prefixLen / 8
  let rem := prefixLen % 8
  if a.take full != b.take full then false
  else if rem = 0 then true
  else
    let mask : UInt8 := 0xff <<< UInt8.ofNat (8 - rem)
    (a.getD full 0 &&& mask) == (b.getD full 0 &&& mask)

namespace Cidr

def parse (s : Text) : Option Cidr := do
  let s := s.trim
  let (addrPart, prefixPart) := match Text.splitOnce '/' s with
    | some (a, p) => (a, some p)
    | none => (s, none)
  let addr ← parseIpAddr addrPart
  let prefixLen ← match prefixPart with
    | some p => Text.parseUnsigned 256 p.trim
    | none => some addr.width
  if hle : prefixLen ≤ addr.width then some ⟨addr, prefixLen, hle⟩ else none

def contains (block : Cidr) (ip : IpAddr) : Bool :=
  block.addr.isIpv4 == ip.isIpv4 && bitsMatch block.addr.octets ip.octets block.prefixLen

def isIpv4 (block : Cidr) : Bool := block.addr.isIpv4

/-- The first and last address of the block, as numbers of its family. -/
def range (block : Cidr) : ℕ × ℕ :=
  let bits := block.addr.width
  let host := bits - block.prefixLen
  if host ≥ bits then (0, 2 ^ bits - 1)
  else
    let mask := 2 ^ host - 1
    (block.addr.toNat - block.addr.toNat % 2 ^ host, block.addr.toNat ||| mask)

end Cidr

end EasyWaf.Forwarded

/-!
## The client's address

Behind a trusted proxy the client's address is the rightmost one in
`X-Forwarded-For` that is not a proxy's itself.  The header's lines are joined
into one list; a line that is not text is left out, and so is an entry that is
no address.
-/

namespace EasyWaf.Forwarded

open Http Net

/-- An address is one of the configured proxies. -/
def trusts (trusted : List Cidr) (ip : IpAddr) : Bool := trusted.any (·.contains ip)

/-- An IPv4 address in an IPv6 one, taken out. -/
def unmapped : IpAddr → IpAddr
  | .v6 bits =>
      match IpAddr.toIpv4Mapped bits with
      | some v4 => .v4 v4
      | none => .v6 bits
  | .v4 bits => .v4 bits

/-- Parse a hop; some proxies bracket IPv6 addresses, and some append a port. -/
def normalise (hop : Text) : Option IpAddr :=
  let hop := hop.trimStartMatches (· == '[')
  let hop := match Text.splitOnce ']' hop with
    | some (inner, _) => inner
    | none => hop
  match parseIpAddr hop with
  | some ip => some (unmapped ip)
  | none => ((Text.rsplitOnce ':' hop).bind fun (host, _) => parseIpAddr host).map unmapped

/-- Every `X-Forwarded-For` line that is text, joined into one list. -/
def forwardedFor (headers : List HeaderValue) : Option Text :=
  let lines := ((headers.filterMap HeaderValue.toStr).map Text.trim).filter (· ≠ [])
  if lines = [] then none else some (Text.join ", ".toList lines)

/-- The hops a list of entries names. -/
def hops (raw : Text) : List IpAddr := (raw.splitOn ',').filterMap fun (hop : Text) =>
  normalise hop.trim

def resolve (peer : IpAddr) (headers : List HeaderValue) (trusted : List Cidr) : IpAddr :=
  if trusted = [] ∨ trusts trusted peer = false then peer
  else
    match forwardedFor headers with
    | none => peer
    | some raw =>
        match hops raw with
        | [] => peer
        | first :: rest =>
            -- every hop may be a trusted proxy, and the leftmost is the closest to a client
            (((first :: rest).reverse.find? fun ip => !trusts trusted ip)).getD first

end EasyWaf.Forwarded
