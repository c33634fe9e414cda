import EasyWaf.Text.Utf8

/-!
# Base64

The URL-safe alphabet without padding.  Bits that a decoded text would not hold
must be zero.
-/

namespace EasyWaf.Text.Base64

/-- The digits, in order of their values. -/
def alphabet : List Char :=
  "ABCDEFGHIJKLMNOPQRSTUVWXYZabcdefghijklmnopqrstuvwxyz0123456789-_".toList

def digit (value : ℕ) : Char := alphabet.getD value 'A'

def digitValue (c : Char) : Option ℕ := alphabet.findIdx? (· == c)

/-- Three bytes are four digits; one or two left over are two or three. -/
def encode : List UInt8 → Text
  | a :: b :: c :: rest =>
      digit (a.toNat / 4) :: digit (a.toNat % 4 * 16 + b.toNat / 16) ::
        digit (b.toNat % 16 * 4 + c.toNat / 64) :: digit (c.toNat % 64) :: encode rest
  | [a, b] =>
      [digit (a.toNat / 4), digit (a.toNat % 4 * 16 + b.toNat / 16), digit (b.toNat % 16 * 4)]
  | [a] => [digit (a.toNat / 4), digit (a.toNat % 4 * 16)]
  | [] => []

def decodeDigits : List ℕ → Option (List UInt8)
  | w :: x :: y :: z :: rest =>
      (decodeDigits rest).map fun bytes =>
        UInt8.ofNat (w * 4 + x / 16) :: UInt8.ofNat (x % 16 * 16 + y / 4) ::
          UInt8.ofNat (y % 4 * 64 + z) :: bytes
  | [w, x, y] =>
      if y % 4 = 0 then some [UInt8.ofNat (w * 4 + x / 16), UInt8.ofNat (x % 16 * 16 + y / 4)]
      else none
  | [w, x] => if x % 16 = 0 then some [UInt8.ofNat (w * 4 + x / 16)] else none
  | [_] => none
  | [] => some []

def decode (text : Text) : Option (List UInt8) := (text.mapM digitValue).bind decodeDigits

theorem digitValue_digit {value : ℕ} (hvalue : value < 64) : digitValue (digit value) = some value := by
  have hall : ∀ value : Fin 64, digitValue (digit value) = some (value : ℕ) := by decide +kernel
  exact hall ⟨value, hvalue⟩

theorem ofNat_eq (byte : UInt8) {n : ℕ} (hn : n = byte.toNat) : UInt8.ofNat n = byte := by
  rw [hn, UInt8.ofNat_toNat]

/-- What was encoded is decoded. -/
theorem decode_encode (bytes : List UInt8) : decode (encode bytes) = some bytes := by
  induction bytes using encode.induct with
  | case1 a b c rest ih =>
      have ha := a.toNat_lt
      have hb := b.toNat_lt
      have hc := c.toNat_lt
      obtain ⟨values, hvalues, hdecode⟩ := Option.bind_eq_some_iff.mp ih
      rw [decode, encode]
      simp only [List.mapM_cons, hvalues, digitValue_digit (show a.toNat / 4 < 64 by omega),
        digitValue_digit (show a.toNat % 4 * 16 + b.toNat / 16 < 64 by omega),
        digitValue_digit (show b.toNat % 16 * 4 + c.toNat / 64 < 64 by omega),
        digitValue_digit (show c.toNat % 64 < 64 by omega), Option.bind_eq_bind, Option.bind_some,
        Option.pure_def]
      rw [decodeDigits, hdecode, Option.map_some, ofNat_eq a (by omega),
        ofNat_eq b (by omega), ofNat_eq c (by omega)]
  | case2 a b =>
      have ha := a.toNat_lt
      have hb := b.toNat_lt
      rw [decode, encode]
      simp only [List.mapM_cons, List.mapM_nil, digitValue_digit (show a.toNat / 4 < 64 by omega),
        digitValue_digit (show a.toNat % 4 * 16 + b.toNat / 16 < 64 by omega),
        digitValue_digit (show b.toNat % 16 * 4 < 64 by omega), Option.bind_eq_bind,
        Option.bind_some, Option.pure_def]
      rw [decodeDigits, if_pos (by omega), ofNat_eq a (by omega),
        ofNat_eq b (by omega)]
  | case3 a =>
      have ha := a.toNat_lt
      rw [decode, encode]
      simp only [List.mapM_cons, List.mapM_nil, digitValue_digit (show a.toNat / 4 < 64 by omega),
        digitValue_digit (show a.toNat % 4 * 16 < 64 by omega), Option.bind_eq_bind,
        Option.bind_some, Option.pure_def]
      rw [decodeDigits, if_pos (by omega), ofNat_eq a (by omega)]
  | case4 => rfl

theorem mem_encode {bytes : List UInt8} {c : Char} (hc : c ∈ encode bytes) : c ∈ alphabet := by
  have hdigit (value : ℕ) : digit value ∈ alphabet := by
    rw [digit, List.getD_eq_getElem?_getD]
    cases hat : alphabet[value]? with
    | none => decide +kernel
    | some d => exact List.mem_of_getElem? hat
  induction bytes using encode.induct with
  | case1 x y z rest ih =>
      rw [encode] at hc
      simp only [List.mem_cons] at hc
      rcases hc with rfl | rfl | rfl | rfl | hc
      · exact hdigit _
      · exact hdigit _
      · exact hdigit _
      · exact hdigit _
      · exact ih hc
  | case2 x y =>
      rw [encode] at hc
      simp only [List.mem_cons, List.not_mem_nil, or_false] at hc
      rcases hc with rfl | rfl | rfl <;> exact hdigit _
  | case3 x =>
      rw [encode] at hc
      simp only [List.mem_cons, List.not_mem_nil, or_false] at hc
      rcases hc with rfl | rfl <;> exact hdigit _
  | case4 => contradiction

theorem dot_notMem_encode (bytes : List UInt8) : '.' ∉ encode bytes := by
  intro hdot
  exact absurd (mem_encode hdot) (by decide +kernel)

example : encode (Text.bytes "alice".toList) = "YWxpY2U".toList := by decide +kernel

end EasyWaf.Text.Base64
