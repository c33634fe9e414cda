import EasyWaf.Text.Basic

/-!
# Addresses and their text

The standard library's reader of an IPv4 or IPv6 address: it goes through the
text once, and a part that does not read leaves the text where it was.
-/

namespace EasyWaf.Net

inductive IpAddr
  | v4 (bits : BitVec 32)
  | v6 (bits : BitVec 128)
  deriving DecidableEq

namespace IpAddr

def isIpv4 : IpAddr → Bool
  | v4 _ => true
  | v6 _ => false

/-- The width of an address of this family. -/
def width : IpAddr → ℕ
  | v4 _ => 32
  | v6 _ => 128

/-- The address as a number in its own family's space. -/
def toNat : IpAddr → ℕ
  | v4 bits => bits.toNat
  | v6 bits => bits.toNat

/-- The bytes of the address, the most significant first. -/
def octets (ip : IpAddr) : List UInt8 :=
  (List.range (ip.width / 8)).map fun i =>
    UInt8.ofNat (ip.toNat >>> (ip.width - 8 * (i + 1)))

/-- `Ipv6Addr::to_ipv4_mapped`: the address in `::ffff:a.b.c.d`. -/
def toIpv4Mapped (bits : BitVec 128) : Option (BitVec 32) :=
  if bits.toNat >>> 32 = 0xffff then some (BitVec.ofNat 32 bits.toNat) else none

end IpAddr

/-- What is read, and the text after it. -/
abbrev Reader (α : Type) := Text → Option (α × Text)

def digitValue (c : Char) : ℕ :=
  if c.isDigit then c.toNat - '0'.toNat else c.toLower.toNat - 'a'.toNat + 10

/-- `char::to_digit` succeeds. -/
def isDigitOf (radix : ℕ) (c : Char) : Bool :=
  (c.isDigit || ('a' ≤ c.toLower && c.toLower ≤ 'z')) && digitValue c < radix

def readGivenChar (expected : Char) : Reader Unit
  | [] => none
  | c :: rest => if c = expected then some ((), rest) else none

/-- At most `maxDigits` digits, below `bound`. -/
def readNumber (radix maxDigits bound : ℕ) (allowZeroPrefix : Bool) : Reader ℕ := fun text =>
  let digits := text.takeWhile (isDigitOf radix)
  let value := digits.foldl (fun value c => value * radix + digitValue c) 0
  if digits.length = 0 ∨ maxDigits < digits.length ∨
      (allowZeroPrefix = false ∧ digits.head? = some '0' ∧ 1 < digits.length) ∨ bound ≤ value then
    none
  else some (value, text.drop digits.length)

/-- The separator, except before the first of a series, and what follows it. -/
def readSeparator {α : Type} (separator : Char) (first : Bool) (inner : Reader α) : Reader α :=
  fun text =>
    if first then inner text
    else (readGivenChar separator text).bind fun ((), rest) => inner rest

def readIpv4Addr : Reader ℕ := fun text => do
  let octet := readNumber 10 3 256 false
  let (a, text) ← octet text
  let (b, text) ← readSeparator '.' false octet text
  let (c, text) ← readSeparator '.' false octet text
  let (d, text) ← readSeparator '.' false octet text
  return (((a * 256 + b) * 256 + c) * 256 + d, text)

/-- Up to `room` further groups, the last two perhaps as an IPv4 address. -/
def readGroups : (room : ℕ) → List ℕ → Text → List ℕ × Bool × Text
  | 0, groups, text => (groups, false, text)
  | room + 1, groups, text =>
      let embedded :=
        if room = 0 then none else readSeparator ':' groups.isEmpty readIpv4Addr text
      match embedded with
      | some (v4, rest) => (groups ++ [v4 / 0x10000, v4 % 0x10000], true, rest)
      | none =>
          match readSeparator ':' groups.isEmpty (readNumber 16 4 0x10000 true) text with
          | some (group, rest) => readGroups room (groups ++ [group]) rest
          | none => (groups, false, text)

/-- The address eight groups make. -/
def ofGroups (groups : List ℕ) : BitVec 128 :=
  BitVec.ofNat 128 (groups.foldl (fun value group => value * 0x10000 + group) 0)

def readIpv6Addr : Reader (BitVec 128) := fun text =>
  let (head, headIpv4, text) := readGroups 8 [] text
  if head.length = 8 then some (ofGroups head, text)
  -- an IPv4 part may not stand before `::`
  else if headIpv4 then none
  else do
    let ((), text) ← readGivenChar ':' text
    let ((), text) ← readGivenChar ':' text
    let (tail, _, text) := readGroups (8 - (head.length + 1)) [] text
    let zeros := List.replicate (8 - head.length - tail.length) 0
    return (ofGroups (head ++ zeros ++ tail), text)

/-- `str::parse::<IpAddr>`. -/
def parseIpAddr (text : Text) : Option IpAddr :=
  match readIpv4Addr text with
  | some (bits, rest) => if rest = [] then some (.v4 (BitVec.ofNat 32 bits)) else none
  | none =>
      match readIpv6Addr text with
      | some (bits, rest) => if rest = [] then some (.v6 bits) else none
      | none => none

example : parseIpAddr "203.0.113.9".toList = some (.v4 0xcb007109#32) := by decide

example : parseIpAddr "::ffff:10.0.0.1".toList = some (.v6 0xffff0a000001#128) := by decide

example : parseIpAddr "10.0.0.01".toList = none := by decide

end EasyWaf.Net
