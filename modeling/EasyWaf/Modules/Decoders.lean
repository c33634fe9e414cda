import EasyWaf.Core.Escapes
import EasyWaf.Http.Segments
import EasyWaf.Modules.Paths
import EasyWaf.Text.Ascii

/-!
# The decoders of the rules' texts

The escapes the core rules are written to see through, as the engine they come
from undoes them.
-/

namespace EasyWaf.Modules.Decoders

open Http Paths EasyWaf.Core

/-- The value of a digit in the radix, of sixteen at most. -/
def toDigit (radix : ℕ) (byte : UInt8) : Option ℕ :=
  (hexValue byte).bind fun value => if value.toNat < radix then some value.toNat else none

/-- `hex_value`. -/
def hexNumber (digits : List UInt8) : Option ℕ :=
  digits.foldlM (fun value digit => (toDigit 16 digit).map (value * 16 + ·)) 0

/-- A byte in the case that `| 0x20` gives it. -/
def lowered (byte : UInt8) : UInt8 := byte ||| 0x20

/-- `fold_wide`: quotes and angle brackets by their best fit, the full-width block
onto ASCII, anything else its low byte. -/
def foldWide (code : ℕ) : UInt8 :=
  if code = 0x00AB ∨ code = 0x2039 then 60
  else if code = 0x00BB ∨ code = 0x203A then 62
  else if code = 0x2018 ∨ code = 0x2019 then 39
  else if code = 0x201C ∨ code = 0x201D then 34
  else if code &&& 0xFF00 = 0xFF00 then UInt8.ofNat code + 0x20
  else UInt8.ofNat code

/-- A `u` and four digits. -/
def wideEscape : Escape UInt8
  | letter :: a :: b :: c :: d :: _ =>
      if lowered letter = 0x75 then (hexNumber [a, b, c, d]).map fun code => ([foldWide code], 5)
      else none
  | _ => none

/-- Two digits. -/
def byteEscape : Escape UInt8
  | a :: b :: _ => (hexNumber [a, b]).map fun code => ([UInt8.ofNat code], 2)
  | _ => none

/-- What follows a `%`, to `url_decode_uni`. -/
def uniEscape (rest : List UInt8) : Option (List UInt8 × ℕ) :=
  (wideEscape rest).or (byteEscape rest)

/-- The bytes of `url_decode_uni`. -/
def decodeUni (bytes : List UInt8) : List UInt8 := unescape 37 uniEscape bytes

/-- `url_decode_uni`. -/
def urlDecodeUni (text : Text) : Text := Text.fromUtf8Lossy (decodeUni text.bytes)

/-- A decoder's text: one without its marker is not looked at. -/
def decodeEscapes (marker : Char) (escape : Escape UInt8) (text : Text) : Text :=
  if text.contains marker then
    Text.fromUtf8Lossy (unescape (UInt8.ofNat marker.toNat) escape text.bytes)
  else text

section Entities

/-- What a value past 32 bits is read as. -/
def saturating (value : ℕ) : ℕ := min value (2 ^ 32 - 1)

/-- An entity given by its number, after the `#`: of the number the low byte is
kept, and a semicolon need not end it. -/
def numberedEntity (rest : List UInt8) : Option (UInt8 × ℕ) :=
  let (radix, start) := if rest[1]?.map lowered = some 0x78 then (16, 2) else (10, 1)
  let digits := (rest.drop start).takeWhile fun byte => (toDigit radix byte).isSome
  let value := digits.foldl
    (fun value byte => saturating (saturating (value * radix) + (toDigit radix byte).getD 0)) 0
  let last := start + digits.length
  if digits.isEmpty then none
  else some (UInt8.ofNat value, if rest[last]? = some 59 then last + 1 else last)

/-- The entities that have a name. -/
def names : List (List UInt8 × UInt8) :=
  [(Text.bytes "quot".toList, 34), (Text.bytes "amp".toList, 38), (Text.bytes "lt".toList, 60),
    (Text.bytes "gt".toList, 62), (Text.bytes "nbsp".toList, 0xA0)]

def asciiLowercase (byte : UInt8) : UInt8 := if 65 ≤ byte ∧ byte ≤ 90 then byte + 32 else byte

def namedEntity (rest : List UInt8) : Option (UInt8 × ℕ) :=
  names.findSome? fun (name, byte) =>
    if (rest.take name.length).map asciiLowercase = name then
      some (byte, if rest[name.length]? = some 59 then name.length + 1 else name.length)
    else none

/-- `entity_at`. -/
def entityAt (rest : List UInt8) : Option (UInt8 × ℕ) :=
  if rest.head? = some 35 then numberedEntity rest else namedEntity rest

/-- `html_entity_decode`. -/
def htmlEntityDecode : Text → Text :=
  decodeEscapes '&' fun rest => (entityAt rest).map fun (byte, used) => ([byte], used)

end Entities

section Backslashes

/-- The value of digits in the radix. -/
def number (radix : ℕ) (digits : List UInt8) : ℕ :=
  digits.foldl (fun value byte => value * radix + (toDigit radix byte).getD 0) 0

/-- The digits an escape begins with, of those it may have. -/
def digitsOf (radix most : ℕ) (rest : List UInt8) : List UInt8 :=
  (rest.take most).takeWhile fun byte => (toDigit radix byte).isSome

/-- The escapes a letter names; any other character is kept. -/
def jsNamed (byte : UInt8) : UInt8 :=
  if byte = 97 then 0x07
  else if byte = 98 then 0x08
  else if byte = 102 then 0x0C
  else if byte = 110 then 0x0A
  else if byte = 114 then 0x0D
  else if byte = 116 then 0x09
  else if byte = 118 then 0x0B
  else byte

/-- What follows a backslash, to `js_decode`. -/
def jsEscape : Escape UInt8
  | [] => none
  | letter :: rest =>
      let octal := digitsOf 8 3 (letter :: rest)
      ((wideEscape (letter :: rest)).or
        (if lowered letter = 0x78 then (byteEscape rest).map fun (out, used) => (out, used + 1)
         else none)).or
        (some (if octal.isEmpty then ([jsNamed letter], 1)
          else ([UInt8.ofNat (number 8 octal)], octal.length)))

/-- `js_decode`. -/
def jsDecode : Text → Text := decodeEscapes '\\' jsEscape

def isNewline (byte : UInt8) : Bool := byte == 10 || byte == 13

/-- The whitespace that may end an escape of a style sheet. -/
def isCssSpace (byte : UInt8) : Bool := [32, 9, 10, 13, 0x0C].contains byte

/-- What follows a backslash, to `css_decode`. -/
def cssEscape : Escape UInt8
  | [] => none
  | first :: rest =>
      let digits := digitsOf 16 6 (first :: rest)
      -- a line continuation, with the second half of a pair
      if isNewline first then
        some ([], if rest.head?.any (fun byte => isNewline byte && byte != first) then 2 else 1)
      else if digits.isEmpty then some ([first], 1)
      else some ([UInt8.ofNat (number 16 digits)],
        if (first :: rest)[digits.length]?.any isCssSpace then digits.length + 1
        else digits.length)

/-- `css_decode`. -/
def cssDecode : Text → Text := decodeEscapes '\\' cssEscape

end Backslashes

/-- `remove_nulls`. -/
def removeNulls (text : Text) : Text := text.filter (· != Char.ofNat 0)

section Identities

variable {text : Text}

theorem decodeEscapes_of_not_mem {marker : Char} {escape : Escape UInt8} (hmarker : marker ∉ text) :
    decodeEscapes marker escape text = text := by
  rw [decodeEscapes, if_neg (by simpa using hmarker)]

theorem decodeBinary_of_not_mem {bytes : List UInt8} (hpercent : 37 ∉ bytes) :
    decodeBinary bytes = bytes := by
  induction bytes with
  | nil => rfl
  | cons byte rest ih =>
      obtain ⟨hbyte, hrest⟩ := not_or.mp (List.mem_cons.not.mp hpercent)
      rw [decodeBinary_cons_of_ne (Ne.symm hbyte), ih hrest]

theorem percentDecode_of_not_mem (hpercent : '%' ∉ text) : percentDecode text = text := by
  have hbytes : 37 ∉ text.bytes := Text.not_mem_bytes (by decide) hpercent
  rw [percentDecode, decodeBinary_of_not_mem hbytes, Text.fromUtf8Lossy_bytes]

theorem urlDecodeUni_of_not_mem (hpercent : '%' ∉ text) : urlDecodeUni text = text := by
  have hbytes : 37 ∉ text.bytes := Text.not_mem_bytes (by decide) hpercent
  rw [urlDecodeUni, decodeUni, unescape_of_not_mem hbytes, Text.fromUtf8Lossy_bytes]

end Identities

section Wide

theorem hexValue_lt (byte : UInt8) : ∀ value ∈ hexValue byte, value.toNat < 16 := by
  have hall : ∀ byte : UInt8, (hexValue byte).all (·.toNat < 16) = true := by decide +kernel
  intro value hvalue
  have hsmall := hall byte
  rw [Option.mem_def.mp hvalue] at hsmall
  exact of_decide_eq_true hsmall

theorem toDigit_sixteen (byte : UInt8) : toDigit 16 byte = (hexValue byte).map UInt8.toNat := by
  rw [toDigit]
  cases hvalue : hexValue byte with
  | none => rfl
  | some value => simp [hexValue_lt byte value hvalue]

/-- Two digits after a `%` are read alike by both decoders. -/
theorem byteEscape_eq (high low : UInt8) (rest : List UInt8) :
    byteEscape (high :: low :: rest) = (escaped 37 high low).map fun value => ([value], 2) := by
  simp only [byteEscape, hexNumber, escaped, if_pos, List.foldlM_cons, List.foldlM_nil,
    toDigit_sixteen]
  cases hexValue high with
  | none => rfl
  | some h =>
      cases hexValue low with
      | none => rfl
      | some l => simp [UInt8.ofNat_add, UInt8.ofNat_mul, mul_comm]

/-- Bytes in which no `%` stands before a `u`. -/
def NoWide (bytes : List UInt8) : Prop :=
  ∀ letter : UInt8, lowered letter = 0x75 → ¬ [37, letter] <:+: bytes

theorem NoWide.of_cons {byte : UInt8} {rest : List UInt8} (hwide : NoWide (byte :: rest)) :
    NoWide rest :=
  fun letter hletter hcontained => hwide letter hletter (hcontained.trans (List.suffix_cons byte rest).isInfix)

theorem NoWide.drop {bytes : List UInt8} (hwide : NoWide bytes) (skip : ℕ) :
    NoWide (bytes.drop skip) :=
  fun letter hletter hcontained => hwide letter hletter (hcontained.trans (List.drop_suffix skip bytes).isInfix)

theorem NoWide.wideEscape_eq_none {rest : List UInt8} (hwide : NoWide (37 :: rest)) :
    wideEscape rest = none := by
  rw [wideEscape.eq_def]
  split
  · rename_i letter a b c d rest
    rw [if_neg fun hletter => hwide letter hletter (List.prefix_append [37, letter] _).isInfix]
  · rfl

/-- Percent-decoding undoes the escapes of two digits. -/
theorem decodeBinary_eq_unescape (bytes : List UInt8) :
    decodeBinary bytes = unescape 37 byteEscape bytes := by
  fun_induction decodeBinary bytes with
  | case1 byte high low rest value hvalue ih =>
      have hpercent : byte = 37 := by
        by_contra hne
        rw [escaped, if_neg hne] at hvalue
        contradiction
      subst hpercent
      have hescape : byteEscape (high :: low :: rest) = some ([value], 2) := by
        rw [byteEscape_eq, hvalue]
        rfl
      rw [unescape_cons_of_some hescape, ih]
      rfl
  | case2 byte high low rest hnone ih =>
      by_cases hpercent : byte = 37
      · subst hpercent
        have hescape : byteEscape (high :: low :: rest) = none := by
          rw [byteEscape_eq, hnone]
          rfl
        rw [unescape_cons_of_none hescape, ih]
      · rw [unescape_cons_of_ne hpercent, ih]
  | case3 bytes hshort =>
      rcases bytes with _ | ⟨byte, _ | ⟨next, _ | ⟨last, rest⟩⟩⟩
      · rfl
      · simp [unescape, unescapeFrom, byteEscape]
      · simp [unescape, unescapeFrom, byteEscape]
      · exact absurd rfl (hshort byte next last rest)

/-- Where no `%` stands before a `u` both decoders read the same. -/
theorem decodeUni_eq_decodeBinary {bytes : List UInt8} (hwide : NoWide bytes) :
    decodeUni bytes = decodeBinary bytes := by
  rw [decodeBinary_eq_unescape, decodeUni]
  induction bytes using unescape_induction 37 byteEscape with
  | nil => rfl
  | plain symbol rest hsymbol ih =>
      rw [unescape_cons_of_ne hsymbol, unescape_cons_of_ne hsymbol, ih hwide.of_cons]
  | kept rest hnone ih =>
      have hescape : uniEscape rest = none := by
        rw [uniEscape, hwide.wideEscape_eq_none, Option.none_or, hnone]
      rw [unescape_cons_of_none hescape, unescape_cons_of_none hnone, ih hwide.of_cons]
  | undone rest out used hsome ih =>
      have hescape : uniEscape rest = some (out, used) := by
        rw [uniEscape, hwide.wideEscape_eq_none, Option.none_or, hsome]
      rw [unescape_cons_of_some hescape, unescape_cons_of_some hsome, ih (hwide.of_cons.drop used)]

theorem lowered_eq_iff (letter : UInt8) : lowered letter = 0x75 ↔ letter = 0x55 ∨ letter = 0x75 := by
  revert letter
  decide +kernel

theorem toLower_of_lowered {letter : UInt8} (hletter : lowered letter = 0x75) :
    letter < 0x80 ∧ (Char.ofNat letter.toNat).toLower = 'u' := by
  rcases (lowered_eq_iff letter).mp hletter with rfl | rfl <;> decide

/-- What `%u` is looked for in: the text in lower case. -/
theorem noWide_of_not_hasInfix {text : Text}
    (hcontained : Text.hasInfix ['%', 'u'] text.toAsciiLowercase = false) : NoWide text.bytes := by
  rintro letter hletter ⟨front, back, hbytes⟩
  obtain ⟨hsmall, hlower⟩ := toLower_of_lowered hletter
  have hread : text = Text.fromUtf8Lossy front ++
      '%' :: Char.ofNat letter.toNat :: Text.fromUtf8Lossy back := by
    have hlossy := Text.fromUtf8Lossy_append_char (c := '%') (by decide) front (letter :: back)
    rw [Text.fromUtf8Lossy_cons_of_lt hsmall] at hlossy
    rw [← hlossy, ← Text.fromUtf8Lossy_bytes text, ← hbytes]
    simp
  rw [Bool.eq_false_iff, ne_eq, Text.hasInfix_iff] at hcontained
  apply hcontained
  rw [hread, Text.toAsciiLowercase]
  exact ⟨(Text.fromUtf8Lossy front).map Char.toLower, (Text.fromUtf8Lossy back).map Char.toLower, by
    simp [hlower]⟩

theorem urlDecodeUni_eq_percentDecode {text : Text}
    (hcontained : Text.hasInfix ['%', 'u'] text.toAsciiLowercase = false) :
    urlDecodeUni text = percentDecode text := by
  rw [urlDecodeUni, decodeUni_eq_decodeBinary (noWide_of_not_hasInfix hcontained), percentDecode]

end Wide

end EasyWaf.Modules.Decoders
