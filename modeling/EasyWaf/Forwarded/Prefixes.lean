import EasyWaf.Forwarded

/-!
# What a block holds

Comparing the first bits of two addresses byte by byte compares the numbers without
their host bits, and a block is the interval of numbers that agree with it.
-/

namespace EasyWaf.Forwarded

open Net

section Bits

variable {width n m count host : ℕ}

theorem shiftRight_eq_iff :
    n >>> host = m >>> host ↔ ∀ i, host ≤ i → n.testBit i = m.testBit i := by
  constructor
  · intro heq i hi
    obtain ⟨j, rfl⟩ := Nat.exists_eq_add_of_le hi
    rw [← Nat.testBit_shiftRight, heq, Nat.testBit_shiftRight]
  · intro hbits
    apply Nat.eq_of_testBit_eq
    intro i
    rw [Nat.testBit_shiftRight, Nat.testBit_shiftRight, hbits _ (Nat.le_add_right host i)]

/-- The byte at an index of a number's bytes, the most significant first. -/
def octet (width n i : ℕ) : UInt8 := UInt8.ofNat (n >>> (width - 8 * (i + 1)))

theorem octets_eq (ip : IpAddr) :
    ip.octets = (List.range (ip.width / 8)).map (octet ip.width ip.toNat) := rfl

theorem testBit_octet (width n i j : ℕ) :
    (octet width n i).toNat.testBit j = (decide (j < 8) && n.testBit (width - 8 * (i + 1) + j)) := by
  rw [octet, UInt8.toNat_ofNat', Nat.testBit_mod_two_pow, Nat.testBit_shiftRight]

theorem uint8_eq_iff {a b : UInt8} :
    a = b ↔ ∀ j, j < 8 → a.toNat.testBit j = b.toNat.testBit j := by
  constructor
  · rintro rfl j -
    rfl
  · intro hbits
    apply UInt8.toNat_inj.mp
    apply Nat.eq_of_testBit_eq
    intro j
    by_cases hj : j < 8
    · exact hbits j hj
    · have hhigh (c : UInt8) : c.toNat.testBit j = false :=
        Nat.testBit_lt_two_pow (c.toNat_lt.trans_le (Nat.pow_le_pow_right (by omega) (by omega)))
      rw [hhigh, hhigh]

/-- The first bytes of two numbers are the same when the numbers are, less the bits
after them. -/
theorem octets_eq_iff (hn : n < 2 ^ width) (hm : m < 2 ^ width) (hwidth : 8 * count ≤ width) :
    (List.range count).map (octet width n) = (List.range count).map (octet width m) ↔
      n >>> (width - 8 * count) = m >>> (width - 8 * count) := by
  rw [List.map_inj_left, shiftRight_eq_iff]
  simp only [List.mem_range, uint8_eq_iff, testBit_octet]
  constructor
  · intro hbytes i hi
    by_cases hhigh : width ≤ i
    · have hzero {k : ℕ} (hk : k < 2 ^ width) : k.testBit i = false :=
        Nat.testBit_lt_two_pow (hk.trans_le (Nat.pow_le_pow_right (by omega) hhigh))
      rw [hzero hn, hzero hm]
    · have hbit := hbytes ((width - 1 - i) / 8) (by omega) (7 - (width - 1 - i) % 8) (by omega)
      rw [show width - 8 * ((width - 1 - i) / 8 + 1) + (7 - (width - 1 - i) % 8) = i by omega] at hbit
      simpa [show 7 - (width - 1 - i) % 8 < 8 by omega] using hbit
  · intro hbits i hi j hj
    rw [hbits _ (by omega)]

theorem testBit_mask {rest j : ℕ} (hrest : rest < 8) :
    ((0xff : UInt8) <<< UInt8.ofNat rest).toNat.testBit j = (decide (j < 8) && decide (rest ≤ j)) := by
  have hfull (i : ℕ) : (0xff : UInt8).toNat.testBit i = decide (i < 8) :=
    Nat.testBit_two_pow_sub_one 8 i
  have hshift : (UInt8.ofNat rest).toNat % 8 = rest := by
    rw [UInt8.toNat_ofNat']
    omega
  rw [UInt8.toNat_shiftLeft, Nat.testBit_mod_two_pow, Nat.testBit_shiftLeft, hfull, hshift]
  by_cases hj : j < 8
  · rw [decide_eq_true (show j - rest < 8 by omega), Bool.and_true]
  · rw [decide_eq_false hj, Bool.false_and, Bool.false_and]

theorem masked_eq_iff {rest : ℕ} (hrest : rest < 8) (a b : UInt8) :
    a &&& (0xff : UInt8) <<< UInt8.ofNat rest = b &&& (0xff : UInt8) <<< UInt8.ofNat rest ↔
      ∀ j, rest ≤ j → j < 8 → a.toNat.testBit j = b.toNat.testBit j := by
  rw [uint8_eq_iff]
  simp only [UInt8.toNat_and, Nat.testBit_and, testBit_mask hrest]
  constructor
  · intro hbits j hj hlt
    simpa [hj, hlt] using hbits j hlt
  · intro hbits j hlt
    by_cases hj : rest ≤ j
    · rw [hbits j hj hlt]
    · simp [hj]

theorem width_eq {a b : IpAddr} (hfamily : a.isIpv4 = b.isIpv4) : a.width = b.width := by
  cases a <;> cases b <;> first | rfl | contradiction

theorem toNat_lt (ip : IpAddr) : ip.toNat < 2 ^ ip.width := by
  cases ip with
  | v4 bits => exact bits.isLt
  | v6 bits => exact bits.isLt

theorem eight_dvd_width (ip : IpAddr) : 8 ∣ ip.width := by
  cases ip with
  | v4 bits => exact ⟨4, rfl⟩
  | v6 bits => exact ⟨16, rfl⟩

theorem take_octets {ip : IpAddr} (hcount : 8 * count ≤ ip.width) :
    ip.octets.take count = (List.range count).map (octet ip.width ip.toNat) := by
  rw [octets_eq, ← List.map_take, List.take_range, min_eq_left (by omega)]

theorem getD_octets {ip : IpAddr} (hcount : 8 * count < ip.width) :
    ip.octets.getD count 0 = octet ip.width ip.toNat count := by
  obtain ⟨bytes, hwidth⟩ := eight_dvd_width ip
  rw [octets_eq, List.getD_eq_getElem?_getD, List.getElem?_map,
    List.getElem?_range (by omega), Option.map_some, Option.getD_some]

/-- Two addresses of a family, compared as far as the prefix goes. -/
theorem bitsMatch_iff {a b : IpAddr} (hfamily : a.width = b.width) {prefixLen : ℕ}
    (hwidth : prefixLen ≤ a.width) :
    bitsMatch a.octets b.octets prefixLen = true ↔
      a.toNat >>> (a.width - prefixLen) = b.toNat >>> (a.width - prefixLen) := by
  have hb := toNat_lt b
  rw [← hfamily] at hb
  have hbytes : a.octets.take (prefixLen / 8) = b.octets.take (prefixLen / 8) ↔
      a.toNat >>> (a.width - 8 * (prefixLen / 8)) = b.toNat >>> (a.width - 8 * (prefixLen / 8)) := by
    rw [take_octets (by omega), take_octets (by omega), ← hfamily,
      octets_eq_iff (toNat_lt a) hb (by omega)]
  unfold bitsMatch
  dsimp only
  split
  case isTrue hdiffer =>
    rw [bne_iff_ne, ne_eq, hbytes, shiftRight_eq_iff] at hdiffer
    simp only [Bool.false_eq_true, false_iff, shiftRight_eq_iff]
    exact fun hbits => hdiffer fun i hi => hbits i (by omega)
  case isFalse hsame =>
    rw [bne_iff_ne, ne_eq, not_not, hbytes] at hsame
    split
    case isTrue hwhole =>
      rw [show 8 * (prefixLen / 8) = prefixLen by omega] at hsame
      exact iff_of_true rfl hsame
    case isFalse hpart =>
      rw [shiftRight_eq_iff] at hsame
      have hwide : 8 * (prefixLen / 8 + 1) ≤ a.width := by
        obtain ⟨bytes, hbytes⟩ := eight_dvd_width a
        omega
      rw [beq_iff_eq, masked_eq_iff (by omega), getD_octets (by omega), getD_octets (by omega),
        shiftRight_eq_iff, ← hfamily]
      simp only [testBit_octet]
      constructor
      · intro hlast i hi
        by_cases hhigh : a.width - 8 * (prefixLen / 8) ≤ i
        · exact hsame i hhigh
        · have hlow : a.width - 8 * (prefixLen / 8 + 1) ≤ i := by omega
          have hbit := hlast (i - (a.width - 8 * (prefixLen / 8 + 1))) (by omega) (by omega)
          rwa [decide_eq_true (by omega), Bool.true_and, Bool.true_and,
            Nat.add_sub_cancel' hlow] at hbit
      · intro hbits j hj hlt
        rw [hbits _ (by omega)]

end Bits

section Range

variable {block : Cidr} {ip : IpAddr}

/-- A block holds the addresses of its family that agree with its own in all but the
host bits. -/
theorem contains_iff :
    block.contains ip = true ↔ block.addr.isIpv4 = ip.isIpv4 ∧
      block.addr.toNat >>> (block.addr.width - block.prefixLen) =
        ip.toNat >>> (block.addr.width - block.prefixLen) := by
  rw [Cidr.contains, Bool.and_eq_true, beq_iff_eq]
  apply and_congr_right
  intro hfamily
  exact bitsMatch_iff (width_eq hfamily) block.prefix_le

theorem range_eq (block : Cidr) :
    block.range =
      (block.addr.toNat >>> (block.addr.width - block.prefixLen) *
          2 ^ (block.addr.width - block.prefixLen),
        block.addr.toNat >>> (block.addr.width - block.prefixLen) *
          2 ^ (block.addr.width - block.prefixLen) +
            (2 ^ (block.addr.width - block.prefixLen) - 1)) := by
  unfold Cidr.range
  dsimp only
  split
  case isTrue hall =>
    have hhost : block.addr.width - block.prefixLen = block.addr.width := by omega
    rw [hhost, Nat.shiftRight_eq_zero _ _ (toNat_lt block.addr), Nat.zero_mul, Nat.zero_add]
  case isFalse =>
    generalize block.addr.width - block.prefixLen = host
    have hpos := Nat.two_pow_pos host
    apply Prod.ext
    · dsimp only
      rw [Nat.shiftRight_eq_div_pow]
      have hsplit := Nat.div_add_mod' block.addr.toNat (2 ^ host)
      omega
    · dsimp only
      rw [mul_comm, Nat.two_pow_add_eq_or_of_lt (by omega)]
      apply Nat.eq_of_testBit_eq
      intro i
      rw [Nat.testBit_or, Nat.testBit_or, Nat.testBit_two_pow_sub_one, Nat.testBit_two_pow_mul,
        Nat.testBit_shiftRight]
      by_cases hi : host ≤ i
      · rw [decide_eq_true hi, Bool.true_and, Nat.add_sub_cancel' hi]
      · rw [decide_eq_true (not_le.mp hi), Bool.or_true, Bool.or_true]

theorem range_le (block : Cidr) : block.range.1 ≤ block.range.2 := by
  rw [range_eq]
  exact Nat.le_add_right _ _

/-- An address of a block's family is in its range when the block holds it. -/
theorem contains_iff_range (hfamily : block.addr.isIpv4 = ip.isIpv4) :
    block.contains ip = true ↔ block.range.1 ≤ ip.toNat ∧ ip.toNat ≤ block.range.2 := by
  rw [contains_iff, range_eq, Nat.shiftRight_eq_div_pow, Nat.shiftRight_eq_div_pow,
    and_iff_right hfamily]
  generalize block.addr.width - block.prefixLen = host
  have hpos := Nat.two_pow_pos host
  dsimp only
  rw [eq_comm, Nat.div_eq_iff hpos]
  omega

end Range

end EasyWaf.Forwarded
