import EasyWaf.Text.Utf8

/-!
# Signatures

A signed value carries the digest a keyed hash makes of a text, in hexadecimal,
and is compared byte for byte.
-/

namespace EasyWaf.Signature

/-- HMAC-SHA256: a key and a message give a digest. -/
abbrev KeyedHash := List UInt8 → List UInt8 → List UInt8

def hexDigit (value : ℕ) : Char := "0123456789abcdef".toList.getD value '0'

/-- `{:02x}` of each byte. -/
def hex (bytes : List UInt8) : Text :=
  bytes.flatMap fun byte => [hexDigit (byte.toNat / 16), hexDigit (byte.toNat % 16)]

/-- A comparison that looks at every byte. -/
def same (left right : List UInt8) : Bool :=
  left.length == right.length &&
    (left.zip right).foldl (fun acc (pair : UInt8 × UInt8) => acc ||| (pair.1 ^^^ pair.2)) 0 == 0

section Hex

theorem hexDigit_injective {value value' : ℕ} (hvalue : value < 16) (hvalue' : value' < 16)
    (heq : hexDigit value = hexDigit value') : value = value' := by
  have hall : ∀ value value' : Fin 16, hexDigit value = hexDigit value' → value = value' := by
    decide +kernel
  exact congrArg Fin.val (hall ⟨value, hvalue⟩ ⟨value', hvalue'⟩ heq)

theorem hex_injective : Function.Injective hex := by
  intro left right heq
  induction left generalizing right with
  | nil =>
      cases right with
      | nil => rfl
      | cons byte rest => contradiction
  | cons byte rest ih =>
      cases right with
      | nil => contradiction
      | cons byte' rest' =>
          obtain ⟨hhigh, hlow, hrest⟩ :
              hexDigit (byte.toNat / 16) = hexDigit (byte'.toNat / 16) ∧
                hexDigit (byte.toNat % 16) = hexDigit (byte'.toNat % 16) ∧ hex rest = hex rest' := by
            simpa [hex] using heq
          have hbyte := byte.toNat_lt
          have hbyte' := byte'.toNat_lt
          have hdiv := hexDigit_injective (by omega) (by omega) hhigh
          have hmod := hexDigit_injective (by omega) (by omega) hlow
          have hnat : byte.toNat = byte'.toNat := by omega
          rw [ih hrest, UInt8.toNat_inj.mp hnat]

theorem dot_notMem_hex (bytes : List UInt8) : '.' ∉ hex bytes := by
  have hdigit : ∀ value < 16, '.' ≠ hexDigit value := by decide +kernel
  intro hdot
  obtain ⟨byte, -, hmem⟩ := List.mem_flatMap.mp hdot
  have hbyte := byte.toNat_lt
  rw [List.mem_cons, List.mem_singleton] at hmem
  rcases hmem with hhigh | hlow
  · exact hdigit _ (by omega) hhigh
  · exact hdigit _ (by omega) hlow

end Hex

section Same

variable {left right : List UInt8}

theorem foldl_or_xor (pairs : List (UInt8 × UInt8)) (acc : UInt8) :
    pairs.foldl (fun acc pair => acc ||| (pair.1 ^^^ pair.2)) acc = 0 ↔
      acc = 0 ∧ ∀ pair ∈ pairs, pair.1 = pair.2 := by
  induction pairs generalizing acc with
  | nil => simp
  | cons first rest ih =>
      rw [List.foldl_cons, ih, UInt8.or_eq_zero_iff, UInt8.xor_eq_zero_iff, List.forall_mem_cons,
        and_assoc]

theorem same_iff : same left right = true ↔ left = right := by
  rw [same, Bool.and_eq_true, beq_iff_eq, beq_iff_eq, foldl_or_xor, and_iff_right rfl]
  constructor
  · rintro ⟨hlength, hpairs⟩
    apply List.ext_getElem hlength
    intro i hleft hright
    apply hpairs (left[i], right[i])
    rw [List.mem_iff_getElem]
    exact ⟨i, by rw [List.length_zip]; omega, List.getElem_zip⟩
  · rintro rfl
    refine ⟨rfl, fun pair hpair => ?_⟩
    obtain ⟨i, hi, rfl⟩ := List.mem_iff_getElem.mp hpair
    rw [List.getElem_zip]

end Same

end EasyWaf.Signature
