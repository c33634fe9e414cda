import EasyWaf.Core.Pieces
import EasyWaf.Net.IpAddr
import EasyWaf.Text.Decimal

/-!
# Addresses as they are written

The standard library's text of an address: an IPv4 address as four numbers, an
IPv6 address as groups in hexadecimal with the longest run of zeros cut out.  No
two addresses are written alike.
-/

namespace EasyWaf.Net

/-- `{:x}`. -/
def formatHex (n : ℕ) : Text := Nat.toDigits 16 n

/-- A run of zero groups. -/
structure Span where
  start : ℕ
  len : ℕ

/-- One more zero, in front of which the run may begin. -/
def Span.extend (span : Span) (i : ℕ) : Span where
  start := if span.len = 0 then i else span.start
  len := span.len + 1

/-- The longest run of zeros, the first of several. -/
def scanZeros : List ℕ → ℕ → Span → Span → Span
  | [], _, _, longest => longest
  | group :: rest, i, current, longest =>
      if group = 0 then
        let current := current.extend i
        scanZeros rest (i + 1) current (if longest.len < current.len then current else longest)
      else scanZeros rest (i + 1) ⟨0, 0⟩ longest

def longestZeros (groups : List ℕ) : Span := scanZeros groups 0 ⟨0, 0⟩ ⟨0, 0⟩

/-- `fmt_subslice`. -/
def formatGroups (groups : List ℕ) : Text := Text.join [':'] (groups.map formatHex)

def compress (groups : List ℕ) : Text :=
  let zeros := longestZeros groups
  if 1 < zeros.len then
    formatGroups (groups.take zeros.start) ++ ':' :: ':' ::
      formatGroups (groups.drop (zeros.start + zeros.len))
  else formatGroups groups

/-- The groups of an IPv6 address. -/
def segments (bits : BitVec 128) : List ℕ :=
  (List.range 8).map fun i => bits.toNat / 2 ^ (16 * (7 - i)) % 0x10000

def formatIpv4 (bits : BitVec 32) : Text :=
  Text.join ['.'] ((List.range 4).map fun i => Text.formatNat (bits.toNat / 2 ^ (8 * (3 - i)) % 256))

def formatIpv6 (bits : BitVec 128) : Text :=
  match IpAddr.toIpv4Mapped bits with
  | some v4 => "::ffff:".toList ++ formatIpv4 v4
  | none => compress (segments bits)

/-- `IpAddr::to_string`. -/
def formatIpAddr : IpAddr → Text
  | .v4 bits => formatIpv4 bits
  | .v6 bits => formatIpv6 bits

example : formatIpAddr (.v4 0xcb007109#32) = "203.0.113.9".toList := by decide +kernel

example : formatIpAddr (.v6 0x20010db8000000000000000000000001#128) = "2001:db8::1".toList := by
  decide +kernel

section Numbers

theorem digitValue_digitChar {digit : ℕ} (hdigit : digit < 16) :
    digitValue (Nat.digitChar digit) = digit := by
  decide +revert

/-- A number in hexadecimal reads back. -/
theorem hexValue_formatHex (n : ℕ) :
    (formatHex n).foldl (fun value c => value * 16 + digitValue c) 0 = n := by
  induction n using Nat.strong_induction_on with
  | h n ih =>
      rw [formatHex, Nat.toDigits_eq_if (by decide)]
      split
      · rename_i hsmall
        rw [List.foldl_cons, List.foldl_nil, digitValue_digitChar hsmall]
        omega
      · rename_i hlarge
        have hdigit : n % 16 < 16 := Nat.mod_lt n (by decide)
        rw [List.foldl_append, List.foldl_cons, List.foldl_nil]
        change ((formatHex (n / 16)).foldl _ 0) * 16 + _ = n
        rw [ih (n / 16) (by omega), digitValue_digitChar hdigit]
        omega

theorem formatHex_injective : Function.Injective formatHex := by
  intro left right heq
  rw [← hexValue_formatHex left, heq, hexValue_formatHex]

end Numbers

section Zeros

variable {groups done rest : List ℕ} {current longest : Span}

/-- The groups of a span are zero. -/
def Span.IsZeros (span : Span) (groups : List ℕ) : Prop :=
  ∀ k, span.start ≤ k → k < span.start + span.len → groups[k]? = some 0

theorem Span.IsZeros.extend (hcurrent : current.IsZeros groups)
    (hend : current.len ≠ 0 → current.start + current.len = done.length)
    (hzero : groups[done.length]? = some 0) :
    (current.extend done.length).IsZeros groups ∧
      (current.extend done.length).start + (current.extend done.length).len = done.length + 1 := by
  by_cases hempty : current.len = 0
  · simp only [Span.extend, Span.IsZeros, hempty, if_true]
    refine ⟨fun k hstart hstop => ?_, trivial⟩
    obtain rfl : k = done.length := by omega
    exact hzero
  · have hend := hend hempty
    simp only [Span.extend, Span.IsZeros, hempty, if_false]
    refine ⟨fun k hstart hstop => ?_, by omega⟩
    by_cases hk : k = done.length
    · rw [hk, hzero]
    · exact hcurrent k hstart (by omega)

theorem isZeros_scanZeros (hgroups : groups = done ++ rest) (hcurrent : current.IsZeros groups)
    (hend : current.len ≠ 0 → current.start + current.len = done.length)
    (hlongest : longest.IsZeros groups) :
    (scanZeros rest done.length current longest).IsZeros groups := by
  induction rest generalizing done current longest with
  | nil => exact hlongest
  | cons group rest ih =>
      have hgroups' : groups = (done ++ [group]) ++ rest := by
        rw [hgroups, List.append_assoc, List.singleton_append]
      have hlength : (done ++ [group]).length = done.length + 1 := by simp
      have hat : groups[done.length]? = some group := by
        rw [hgroups, List.getElem?_append_right (le_refl _), Nat.sub_self]
        rfl
      rw [scanZeros, ← hlength]
      split
      · rename_i hzero
        obtain ⟨hnext, hlast⟩ := hcurrent.extend hend (hat.trans (congrArg some hzero))
        apply ih hgroups' hnext
        · exact fun _ => hlast.trans hlength.symm
        · split
          · exact hnext
          · exact hlongest
      · apply ih hgroups' _ _ hlongest
        · intro k _ hstop
          exact absurd hstop (Nat.not_lt_zero k)
        · exact fun hne => absurd rfl hne

theorem isZeros_longestZeros (groups : List ℕ) : (longestZeros groups).IsZeros groups := by
  have hnone : Span.IsZeros ⟨0, 0⟩ groups := fun k _ hstop => absurd hstop (Nat.not_lt_zero k)
  exact isZeros_scanZeros (List.nil_append groups).symm hnone (fun hne => absurd rfl hne) hnone

end Zeros

section Groups

variable {groups groups' : List ℕ}

theorem isDigitOf_digitChar {digit : ℕ} (hdigit : digit < 16) :
    isDigitOf 16 (Nat.digitChar digit) = true := by
  decide +revert

theorem isDigitOf_of_mem_formatHex {c : Char} (n : ℕ) (hmem : c ∈ formatHex n) :
    isDigitOf 16 c = true := by
  induction n using Nat.strong_induction_on with
  | h n ih =>
      rw [formatHex, Nat.toDigits_eq_if (by decide)] at hmem
      split at hmem
      · rename_i hsmall
        rw [List.mem_singleton.mp hmem]
        exact isDigitOf_digitChar hsmall
      · rename_i hlarge
        obtain hbefore | hlast := List.mem_append.mp hmem
        · exact ih (n / 16) (by omega) hbefore
        · rw [List.mem_singleton.mp hlast]
          exact isDigitOf_digitChar (Nat.mod_lt n (by decide))

theorem not_mem_formatHex {c : Char} (hc : isDigitOf 16 c = false) (n : ℕ) : c ∉ formatHex n := by
  intro hmem
  rw [isDigitOf_of_mem_formatHex n hmem] at hc
  contradiction

/-- The pieces between the colons. -/
theorem splitOn_formatGroups (groups : List ℕ) :
    (formatGroups groups).splitOn ':' =
      if groups = [] then [[]] else groups.map formatHex := by
  cases groups with
  | nil => rfl
  | cons group rest =>
      rw [if_neg (List.cons_ne_nil _ _)]
      apply List.splitOn_intercalate
      · intro piece hpiece
        obtain ⟨n, -, rfl⟩ := List.mem_map.mp hpiece
        exact not_mem_formatHex (by decide) n
      · simp

/-- The pieces in front of the first empty one. -/
def leading (pieces : List Text) : List Text := pieces.takeWhile (· ≠ [])

theorem leading_formatGroups (groups : List ℕ) (rest : List Text) (hrest : leading rest = []) :
    leading ((formatGroups groups).splitOn ':' ++ rest) = groups.map formatHex := by
  rw [splitOn_formatGroups]
  split
  · rename_i hnone
    rw [hnone]
    rfl
  · have hall : ∀ piece ∈ groups.map formatHex, decide (piece ≠ []) = true := by
      intro piece hpiece
      obtain ⟨n, -, rfl⟩ := List.mem_map.mp hpiece
      simp [formatHex]
    rw [leading, List.takeWhile_append_of_pos hall]
    rw [leading] at hrest
    rw [hrest, List.append_nil]

/-- The same from the other end. -/
theorem leading_reverse_formatGroups (groups : List ℕ) (rest : List Text)
    (hrest : leading rest = []) :
    leading (((formatGroups groups).splitOn ':').reverse ++ rest) =
      (groups.map formatHex).reverse := by
  rw [splitOn_formatGroups]
  split
  · rename_i hnone
    rw [hnone]
    rfl
  · have hall : ∀ piece ∈ (groups.map formatHex).reverse, decide (piece ≠ []) = true := by
      intro piece hpiece
      obtain ⟨n, -, rfl⟩ := List.mem_map.mp (List.mem_reverse.mp hpiece)
      simp [formatHex]
    rw [leading, List.takeWhile_append_of_pos hall]
    rw [leading] at hrest
    rw [hrest, List.append_nil]

/-- What stands around the run that is cut out, or the whole where none is. -/
def around (groups : List ℕ) : List ℕ × List ℕ :=
  let zeros := longestZeros groups
  if 1 < zeros.len then (groups.take zeros.start, groups.drop (zeros.start + zeros.len))
  else (groups, groups)

theorem around_of_compress (groups : List ℕ) :
    leading ((compress groups).splitOn ':') = (around groups).1.map formatHex ∧
      leading ((compress groups).splitOn ':').reverse = ((around groups).2.map formatHex).reverse := by
  rw [compress, around]
  split
  · have hsplit (first second : List ℕ) :
        (formatGroups first ++ ':' :: ':' :: formatGroups second).splitOn ':' =
          (formatGroups first).splitOn ':' ++ [] :: (formatGroups second).splitOn ':' := by
      rw [List.splitOn_append_cons_self, Core.splitOn_cons_self]
    rw [hsplit]
    constructor
    · exact leading_formatGroups _ _ rfl
    · rw [List.reverse_append, List.reverse_cons, List.append_assoc]
      exact leading_reverse_formatGroups _ _ rfl
  · constructor
    · have hleading := leading_formatGroups groups [] rfl
      rwa [List.append_nil] at hleading
    · have hleading := leading_reverse_formatGroups groups [] rfl
      rwa [List.append_nil] at hleading

/-- The run of zeros ends within the groups. -/
theorem Span.IsZeros.le_length {span : Span} (hzeros : span.IsZeros groups) (hlen : 1 < span.len) :
    span.start + span.len ≤ groups.length := by
  have hlast := hzeros (span.start + span.len - 1) (by omega) (by omega)
  have hlt := (List.getElem?_eq_some_iff.mp hlast).choose
  omega

/-- Groups that agree around zeros agree. -/
theorem Span.IsZeros.eq_of_around {span : Span} (hzeros : span.IsZeros groups)
    (hzeros' : span.IsZeros groups')
    (hfront : groups.take span.start = groups'.take span.start)
    (hback : groups.drop (span.start + span.len) = groups'.drop (span.start + span.len)) :
    groups = groups' := by
  apply List.ext_getElem?
  intro k
  by_cases hbefore : k < span.start
  · have hk := congrArg (fun front => front[k]?) hfront
    rwa [List.getElem?_take_of_lt hbefore, List.getElem?_take_of_lt hbefore] at hk
  by_cases hwithin : k < span.start + span.len
  · rw [hzeros k (by omega) hwithin, hzeros' k (by omega) hwithin]
  · have hk := congrArg (fun back => back[k - (span.start + span.len)]?) hback
    rwa [List.getElem?_drop, List.getElem?_drop, Nat.add_sub_cancel' (by omega)] at hk

/-- Eight groups can be told from what stands around the zeros. -/
theorem eq_of_around_eq (hgroups : groups.length = 8) (hgroups' : groups'.length = 8)
    (haround : around groups = around groups') : groups = groups' := by
  have hzeros := isZeros_longestZeros groups
  have hzeros' := isZeros_longestZeros groups'
  rw [around, around] at haround
  split at haround <;> split at haround <;> obtain ⟨hfront, hback⟩ := Prod.mk.inj haround
  · rename_i hlen hlen'
    have hle := hzeros.le_length hlen
    have hle' := hzeros'.le_length hlen'
    have hstart := congrArg List.length hfront
    have hstop := congrArg List.length hback
    simp only [List.length_take, List.length_drop] at hstart hstop
    have hspan : longestZeros groups = longestZeros groups' := by
      rcases hz : longestZeros groups with ⟨start, len⟩
      rcases hz' : longestZeros groups' with ⟨start', len'⟩
      simp only [hz, hz'] at *
      rw [Span.mk.injEq]
      omega
    rw [← hspan] at hzeros' hfront hback
    exact hzeros.eq_of_around hzeros' hfront hback
  · rename_i hlen _
    have hle := hzeros.le_length hlen
    have hstart := congrArg List.length hfront
    rw [List.length_take] at hstart
    omega
  · rename_i _ hlen'
    have hle := hzeros'.le_length hlen'
    have hstart := congrArg List.length hfront
    rw [List.length_take] at hstart
    omega
  · exact hfront

end Groups

section Digits

/-- Numbers of as many digits, digit by digit the same. -/
theorem eq_of_digits_eq {base count left right : ℕ} (hleft : left < base ^ count)
    (hright : right < base ^ count)
    (hdigits : ∀ k < count, left / base ^ k % base = right / base ^ k % base) : left = right := by
  induction count generalizing left right with
  | zero =>
      rw [pow_zero] at hleft hright
      omega
  | succ count ih =>
      have hlast : left % base = right % base := by
        simpa using hdigits 0 (Nat.succ_pos count)
      have hrest : left / base = right / base := by
        apply ih
        · exact Nat.div_lt_of_lt_mul (by rwa [← pow_succ'])
        · exact Nat.div_lt_of_lt_mul (by rwa [← pow_succ'])
        · intro k hk
          have hdigit := hdigits (k + 1) (Nat.succ_lt_succ hk)
          rwa [pow_succ', ← Nat.div_div_eq_div_mul, ← Nat.div_div_eq_div_mul] at hdigit
      rw [← Nat.div_add_mod left base, hrest, hlast, Nat.div_add_mod]

theorem segments_injective : Function.Injective segments := by
  intro left right heq
  apply BitVec.eq_of_toNat_eq
  have hbound (bits : BitVec 128) : bits.toNat < 0x10000 ^ 8 := bits.isLt
  apply eq_of_digits_eq (hbound left) (hbound right)
  intro k hk
  have hsegment := List.map_inj_left.mp heq (7 - k) (List.mem_range.mpr (by omega))
  rwa [Nat.sub_sub_self (by omega), pow_mul] at hsegment

theorem splitOn_formatIpv4 (bits : BitVec 32) :
    (formatIpv4 bits).splitOn '.' =
      (List.range 4).map fun i => Text.formatNat (bits.toNat / 2 ^ (8 * (3 - i)) % 256) := by
  apply List.splitOn_intercalate
  · intro piece hpiece hmem
    obtain ⟨i, -, rfl⟩ := List.mem_map.mp hpiece
    exact absurd (Text.isDigit_of_mem_formatNat hmem) (by decide)
  · simp

theorem formatIpv4_injective : Function.Injective formatIpv4 := by
  intro left right heq
  have hpieces := congrArg (List.splitOn '.') heq
  rw [splitOn_formatIpv4, splitOn_formatIpv4] at hpieces
  apply BitVec.eq_of_toNat_eq
  have hbound (bits : BitVec 32) : bits.toNat < 256 ^ 4 := bits.isLt
  apply eq_of_digits_eq (hbound left) (hbound right)
  intro k hk
  have hoctet := List.map_inj_left.mp hpieces (3 - k) (List.mem_range.mpr (by omega))
  rw [Nat.sub_sub_self (by omega), pow_mul] at hoctet
  exact Text.formatNat_injective hoctet

end Digits

section Texts

theorem compress_injective {groups groups' : List ℕ} (hgroups : groups.length = 8)
    (hgroups' : groups'.length = 8) (heq : compress groups = compress groups') :
    groups = groups' := by
  have hpieces := around_of_compress groups
  have hpieces' := around_of_compress groups'
  have hinjective := List.map_injective_iff.mpr formatHex_injective
  rw [← heq] at hpieces'
  apply eq_of_around_eq hgroups hgroups'
  apply Prod.ext
  · exact hinjective (hpieces.1.symm.trans hpieces'.1)
  · exact hinjective (List.reverse_injective (hpieces.2.symm.trans hpieces'.2))

theorem mem_compress {groups : List ℕ} {c : Char} (hc : c ∈ compress groups) :
    c = ':' ∨ isDigitOf 16 c = true := by
  have hgroups (part : List ℕ) (hmem : c ∈ formatGroups part) : c = ':' ∨ isDigitOf 16 c = true := by
    obtain hbetween | ⟨piece, hpiece, hmem⟩ := Core.mem_intercalate hmem
    · exact Or.inl (List.mem_singleton.mp hbetween)
    · obtain ⟨n, -, rfl⟩ := List.mem_map.mp hpiece
      exact Or.inr (isDigitOf_of_mem_formatHex n hmem)
  rw [compress] at hc
  split at hc
  · obtain hfront | hrest := List.mem_append.mp hc
    · exact hgroups _ hfront
    · rw [List.mem_cons, List.mem_cons] at hrest
      rcases hrest with hcolon | hcolon | hback
      · exact Or.inl hcolon
      · exact Or.inl hcolon
      · exact hgroups _ hback
  · exact hgroups _ hc

theorem mem_formatIpv4 {bits : BitVec 32} {c : Char} (hc : c ∈ formatIpv4 bits) :
    c = '.' ∨ c.isDigit = true := by
  obtain hbetween | ⟨piece, hpiece, hmem⟩ := Core.mem_intercalate hc
  · exact Or.inl (List.mem_singleton.mp hbetween)
  · obtain ⟨i, -, rfl⟩ := List.mem_map.mp hpiece
    exact Or.inr (Text.isDigit_of_mem_formatNat hmem)

theorem dot_mem_formatIpv4 (bits : BitVec 32) : '.' ∈ formatIpv4 bits := by
  by_contra hdot
  have hpieces := congrArg List.length (splitOn_formatIpv4 bits)
  rw [List.splitOn_eq_singleton hdot] at hpieces
  simp at hpieces

theorem dot_notMem_compress (groups : List ℕ) : '.' ∉ compress groups := by
  intro hdot
  rcases mem_compress hdot with hcolon | hdigit
  · contradiction
  · exact absurd hdigit (by decide)

/-- A mapped address is its IPv4 address. -/
theorem toNat_of_toIpv4Mapped {bits : BitVec 128} {v4 : BitVec 32}
    (hmapped : IpAddr.toIpv4Mapped bits = some v4) : bits.toNat = 0xffff * 2 ^ 32 + v4.toNat := by
  rw [IpAddr.toIpv4Mapped] at hmapped
  split at hmapped
  · rename_i hshift
    rw [← Option.some.inj hmapped, BitVec.toNat_ofNat]
    rw [Nat.shiftRight_eq_div_pow] at hshift
    omega
  · contradiction

theorem formatIpv6_injective : Function.Injective formatIpv6 := by
  intro left right heq
  rw [formatIpv6, formatIpv6] at heq
  split at heq <;> split at heq
  · rename_i v4 hleft _ v4' hright
    have hv4 := formatIpv4_injective (List.append_cancel_left heq)
    apply BitVec.eq_of_toNat_eq
    rw [toNat_of_toIpv4Mapped hleft, toNat_of_toIpv4Mapped hright, hv4]
  · have hdot := List.mem_append_right "::ffff:".toList (dot_mem_formatIpv4 ‹BitVec 32›)
    rw [heq] at hdot
    exact absurd hdot (dot_notMem_compress _)
  · have hdot := List.mem_append_right "::ffff:".toList (dot_mem_formatIpv4 ‹BitVec 32›)
    rw [← heq] at hdot
    exact absurd hdot (dot_notMem_compress _)
  · exact segments_injective (compress_injective (by simp [segments]) (by simp [segments]) heq)

theorem formatIpv4_ne_formatIpv6 (v4 : BitVec 32) (bits : BitVec 128) :
    formatIpv4 v4 ≠ formatIpv6 bits := by
  intro heq
  rw [formatIpv6] at heq
  split at heq
  · have hcolon : ':' ∈ formatIpv4 v4 := by
      rw [heq]
      exact List.mem_cons_self
    rcases mem_formatIpv4 hcolon with hdot | hdigit
    · contradiction
    · exact absurd hdigit (by decide)
  · have hdot := dot_mem_formatIpv4 v4
    rw [heq] at hdot
    exact dot_notMem_compress _ hdot

/-- No two addresses are written alike. -/
theorem formatIpAddr_injective : Function.Injective formatIpAddr := by
  intro left right heq
  cases left with
  | v4 left =>
      cases right with
      | v4 right => exact congrArg IpAddr.v4 (formatIpv4_injective heq)
      | v6 right => exact absurd heq (formatIpv4_ne_formatIpv6 left right)
  | v6 left =>
      cases right with
      | v4 right => exact absurd heq.symm (formatIpv4_ne_formatIpv6 right left)
      | v6 right => exact congrArg IpAddr.v6 (formatIpv6_injective heq)

/-- An address is written with hexadecimal digits, colons and dots. -/
theorem mem_formatIpAddr {ip : IpAddr} {c : Char} (hc : c ∈ formatIpAddr ip) :
    c = '.' ∨ c = ':' ∨ isDigitOf 16 c = true := by
  have hv4 {bits : BitVec 32} (hmem : c ∈ formatIpv4 bits) :
      c = '.' ∨ c = ':' ∨ isDigitOf 16 c = true := by
    refine (mem_formatIpv4 hmem).imp_right fun hdigit => Or.inr ?_
    have hlt := Char.isDigit_iff_toNat.mp hdigit
    simp only [isDigitOf, digitValue, hdigit, Bool.true_or, Bool.true_and, if_true,
      decide_eq_true_eq]
    have hzero : '0'.toNat = 48 := rfl
    have hnine : '9'.toNat = 57 := rfl
    omega
  cases ip with
  | v4 bits => exact hv4 hc
  | v6 bits =>
      rw [formatIpAddr, formatIpv6] at hc
      split at hc
      · obtain hfront | hback := List.mem_append.mp hc
        · have hmapped : c = ':' ∨ c = 'f' ∨ c = ':' := by simpa using hfront
          rcases hmapped with hcolon | hletter | hcolon
          · exact Or.inr (Or.inl hcolon)
          · exact Or.inr (Or.inr (hletter ▸ by decide))
          · exact Or.inr (Or.inl hcolon)
        · exact hv4 hback
      · exact Or.inr (mem_compress hc)

end Texts

end EasyWaf.Net
