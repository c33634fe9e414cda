import EasyWaf.Net.IpText

/-!
# Addresses read back

The standard library's reader gives back every address from its own text: each
number up to what stands after it, the groups up to the two colons, and the zeros
that were cut out by how many groups are missing.
-/

namespace EasyWaf.Net

section Readers

variable {radix maxDigits bound value : ℕ} {allowZeroPrefix : Bool} {digits rest : Text}

/-- The text goes on with no digit. -/
def Stops (radix : ℕ) (rest : Text) : Prop := ∀ c, rest.head? = some c → isDigitOf radix c = false

theorem stops_nil (radix : ℕ) : Stops radix [] := fun _ hc => absurd hc.symm (Option.some_ne_none _)

theorem stops_cons {c : Char} (hc : isDigitOf radix c = false) (rest : Text) :
    Stops radix (c :: rest) := by
  intro first hfirst
  rw [← Option.some.inj hfirst]
  exact hc

theorem takeWhile_digits (hdigits : ∀ c ∈ digits, isDigitOf radix c = true)
    (hrest : Stops radix rest) : (digits ++ rest).takeWhile (isDigitOf radix) = digits := by
  rw [List.takeWhile_append_of_pos hdigits]
  cases rest with
  | nil => rw [List.takeWhile_nil, List.append_nil]
  | cons c rest =>
      rw [List.takeWhile_cons_of_neg (by rw [hrest c rfl]; exact Bool.false_ne_true),
        List.append_nil]

/-- A number is read up to what follows it. -/
theorem readNumber_append (hdigits : ∀ c ∈ digits, isDigitOf radix c = true)
    (hrest : Stops radix rest)
    (hvalue : digits.foldl (fun value c => value * radix + digitValue c) 0 = value)
    (hsome : digits.length ≠ 0) (hmax : digits.length ≤ maxDigits)
    (hzero : allowZeroPrefix = true ∨ digits.head? ≠ some '0' ∨ digits.length ≤ 1)
    (hbound : value < bound) :
    readNumber radix maxDigits bound allowZeroPrefix (digits ++ rest) = some (value, rest) := by
  rw [readNumber]
  rw [takeWhile_digits hdigits hrest, hvalue, List.drop_left, if_neg]
  rintro (hnone | hlong | ⟨hforbidden, hhead, hmore⟩ | hlarge)
  · exact hsome hnone
  · exact absurd hmax (not_le.mpr hlong)
  · rcases hzero with hallowed | hhead' | hone
    · rw [hforbidden] at hallowed
      contradiction
    · exact hhead' hhead
    · exact absurd hone (not_le.mpr hmore)
  · exact absurd hbound (not_lt.mpr hlarge)

/-- Nothing is read where the text begins with no digit. -/
theorem readNumber_of_stops (hrest : Stops radix rest) :
    readNumber radix maxDigits bound allowZeroPrefix rest = none := by
  have hnone := takeWhile_digits (fun _ hc => absurd hc List.not_mem_nil) hrest
  rw [List.nil_append] at hnone
  rw [readNumber]
  rw [hnone]
  exact if_pos (Or.inl rfl)

theorem suffix_of_readNumber {text : Text} {read : ℕ × Text}
    (hread : readNumber radix maxDigits bound allowZeroPrefix text = some read) :
    read.2 <:+ text := by
  rw [readNumber] at hread
  split at hread
  · contradiction
  · rw [← Option.some.inj hread]
    exact List.drop_suffix _ _

end Readers

section Octets

theorem isDigitOf_ten_of_isDigit {c : Char} (hc : c.isDigit = true) : isDigitOf 10 c = true := by
  have hlt := Char.isDigit_iff_toNat.mp hc
  have hzero : '0'.toNat = 48 := rfl
  have hnine : '9'.toNat = 57 := rfl
  simp only [isDigitOf, digitValue, hc, Bool.true_or, Bool.true_and, if_true, decide_eq_true_eq]
  omega

/-- Below ten only the number itself begins with a zero. -/
theorem octet_digits : (List.range 256).all (fun octet =>
    (Text.formatNat octet).foldl (fun value c => value * 10 + digitValue c) 0 == octet &&
      (Text.formatNat octet).length != 0 && (Text.formatNat octet).length ≤ 3 &&
        ((Text.formatNat octet).head? != some '0' || (Text.formatNat octet).length ≤ 1)) = true := by
  decide +kernel

theorem readOctet {octet : ℕ} (hoctet : octet < 256) {rest : Text} (hrest : Stops 10 rest) :
    readNumber 10 3 256 false (Text.formatNat octet ++ rest) = some (octet, rest) := by
  have hone := List.all_eq_true.mp octet_digits octet (List.mem_range.mpr hoctet)
  simp only [Bool.and_eq_true, Bool.or_eq_true, beq_iff_eq, bne_iff_ne, decide_eq_true_eq] at hone
  obtain ⟨⟨⟨hvalue, hsome⟩, hmax⟩, hzero⟩ := hone
  apply readNumber_append _ hrest hvalue hsome hmax (Or.inr hzero) hoctet
  intro c hc
  exact isDigitOf_ten_of_isDigit (Text.isDigit_of_mem_formatNat hc)

theorem stops_dot (rest : Text) : Stops 10 ('.' :: rest) := stops_cons (by decide) rest

theorem readSeparator_cons {α : Type} (separator : Char) (inner : Reader α) (rest : Text) :
    readSeparator separator false inner (separator :: rest) = inner rest := by
  rw [readSeparator, if_neg Bool.false_ne_true, readGivenChar, if_pos rfl]
  rfl

/-- The octets of an IPv4 address, most significant first. -/
theorem formatIpv4_eq (bits : BitVec 32) : formatIpv4 bits =
    Text.formatNat (bits.toNat / 2 ^ 24 % 256) ++ '.' ::
      (Text.formatNat (bits.toNat / 2 ^ 16 % 256) ++ '.' ::
        (Text.formatNat (bits.toNat / 2 ^ 8 % 256) ++ '.' ::
          Text.formatNat (bits.toNat / 2 ^ 0 % 256))) := by
  simp [formatIpv4, Text.join, List.range_succ, List.intercalate]

theorem readIpv4Addr_format (bits : BitVec 32) {rest : Text} (hrest : Stops 10 rest) :
    readIpv4Addr (formatIpv4 bits ++ rest) = some (bits.toNat, rest) := by
  have hoctet (n : ℕ) : n % 256 < 256 := Nat.mod_lt n (by decide)
  have hbits : (((bits.toNat / 2 ^ 24 % 256 * 256 + bits.toNat / 2 ^ 16 % 256) * 256 +
      bits.toNat / 2 ^ 8 % 256) * 256 + bits.toNat / 2 ^ 0 % 256) = bits.toNat := by
    have hlt := bits.isLt
    omega
  rw [formatIpv4_eq, readIpv4Addr]
  simp only [List.append_assoc, List.cons_append, readOctet (hoctet _) (stops_dot _),
    readOctet (hoctet _) hrest, readSeparator_cons, Option.bind_eq_bind, Option.bind_some,
    Option.pure_def, hbits]

/-- No IPv4 address is read where there is no dot. -/
theorem readIpv4Addr_of_not_mem {text : Text} (hdot : '.' ∉ text) : readIpv4Addr text = none := by
  rw [readIpv4Addr, Option.bind_eq_bind, Option.bind_eq_none_iff]
  intro first hfirst
  have hsuffix := suffix_of_readNumber hfirst
  have hsecond : readSeparator '.' false (readNumber 10 3 256 false) first.2 = none := by
    rw [readSeparator, if_neg Bool.false_ne_true]
    cases hrest : first.2 with
    | nil => rfl
    | cons c rest =>
        have hne : c ≠ '.' := by
          intro hsame
          apply hdot
          apply hsuffix.subset
          rw [hrest, hsame]
          exact List.mem_cons_self
        rw [readGivenChar, if_neg hne]
        rfl
  change (readSeparator '.' false (readNumber 10 3 256 false) first.2).bind _ = none
  rw [hsecond]
  rfl

/-- Nor where the text begins with no digit. -/
theorem readIpv4Addr_of_stops {text : Text} (hstops : Stops 10 text) :
    readIpv4Addr text = none := by
  rw [readIpv4Addr, readNumber_of_stops hstops]
  rfl

end Octets

section Groups

variable {groups following : List ℕ} {rest : Text} {room : ℕ}

theorem readGroup {group : ℕ} (hgroup : group < 0x10000) (hrest : Stops 16 rest) :
    readNumber 16 4 0x10000 true (formatHex group ++ rest) = some (group, rest) := by
  apply readNumber_append (fun c hc => isDigitOf_of_mem_formatHex group hc) hrest
    (hexValue_formatHex group)
  · exact Nat.pos_iff_ne_zero.mp Nat.length_toDigits_pos
  · exact (Nat.length_toDigits_le_iff (by decide) (by decide)).mpr hgroup
  · exact Or.inl rfl
  · exact hgroup

/-- Groups behind others, each after a colon. -/
def behind (groups : List ℕ) : Text := groups.flatMap fun group => ':' :: formatHex group

theorem formatGroups_cons (group : ℕ) (groups : List ℕ) :
    formatGroups (group :: groups) = formatHex group ++ behind groups := by
  induction groups generalizing group with
  | nil => simp [formatGroups, behind, Text.join]
  | cons next rest ih =>
      have hrest := ih next
      rw [formatGroups, Text.join] at hrest
      rw [formatGroups, Text.join, List.map_cons, List.map_cons, List.intercalate_cons_cons,
        ← List.map_cons, hrest, behind, behind, List.flatMap_cons, List.append_assoc]
      rfl

/-- What ends the groups: the end of the text, or the two colons. -/
def Ends (rest : Text) : Prop := rest = [] ∨ ∃ more, rest = ':' :: ':' :: more

theorem Ends.stops (hends : Ends rest) : Stops 16 rest := by
  rcases hends with rfl | ⟨more, rfl⟩
  · exact stops_nil 16
  · exact stops_cons (by decide) _

theorem stops_behind (groups : List ℕ) (hrest : Stops 16 rest) :
    Stops 16 (behind groups ++ rest) := by
  cases groups with
  | nil => exact hrest
  | cons group groups => exact stops_cons (by decide) _

/-- Neither a group nor an IPv4 address is read where the groups end. -/
theorem readSeparator_of_ends {α : Type} {inner : Reader α} {first : Bool} (hends : Ends rest)
    (hempty : inner [] = none) (hcolon : ∀ more, inner (':' :: more) = none) :
    readSeparator ':' first inner rest = none := by
  rcases hends with rfl | ⟨more, rfl⟩
  · rw [readSeparator]
    split
    · exact hempty
    · rfl
  · cases first with
    | true =>
        rw [readSeparator, if_pos rfl]
        exact hcolon _
    | false =>
        rw [readSeparator_cons]
        exact hcolon _

theorem readGroups_of_ends (groups : List ℕ) (hends : Ends rest) :
    readGroups room groups rest = (groups, false, rest) := by
  have hstops (more : Text) : Stops 16 (':' :: more) := stops_cons (by decide) more
  have hv4 : readSeparator ':' groups.isEmpty readIpv4Addr rest = none :=
    readSeparator_of_ends hends rfl fun more => readIpv4Addr_of_stops (stops_cons (by decide) more)
  have hnumber : readSeparator ':' groups.isEmpty (readNumber 16 4 0x10000 true) rest = none :=
    readSeparator_of_ends hends rfl fun more => readNumber_of_stops (hstops more)
  cases room with
  | zero => rfl
  | succ room =>
      rw [readGroups]
      simp only [hv4, hnumber, ite_self]

/-- A group is read, where no IPv4 address is. -/
theorem readGroups_succ {text : Text} (after : Text) (group : ℕ)
    (hv4 : readSeparator ':' groups.isEmpty readIpv4Addr text = none)
    (hgroup : readSeparator ':' groups.isEmpty (readNumber 16 4 0x10000 true) text =
      some (group, after)) :
    readGroups (room + 1) groups text = readGroups room (groups ++ [group]) after := by
  rw [readGroups]
  simp only [hv4, hgroup, ite_self]

theorem not_mem_behind (groups : List ℕ) : '.' ∉ behind groups := by
  intro hdot
  obtain ⟨group, -, hmem⟩ := List.mem_flatMap.mp hdot
  cases List.mem_cons.mp hmem with
  | inl hcolon => exact absurd hcolon (by decide)
  | inr hdigit => exact not_mem_formatHex (by decide) group hdigit

/-- Groups behind others are read to their end. -/
theorem readGroups_behind (hgroups : groups ≠ []) (hbound : ∀ group ∈ following, group < 0x10000)
    (hroom : following.length ≤ room) (hends : Ends rest) (hdot : '.' ∉ rest) :
    readGroups room groups (behind following ++ rest) = (groups ++ following, false, rest) := by
  induction following generalizing groups room with
  | nil =>
      rw [List.append_nil]
      exact readGroups_of_ends groups hends
  | cons group later ih =>
      obtain ⟨room, rfl⟩ := Nat.exists_eq_succ_of_ne_zero (Nat.ne_of_gt
        (lt_of_lt_of_le (Nat.succ_pos later.length) hroom))
      have hfirst : groups.isEmpty = false := List.isEmpty_eq_false_iff.mpr hgroups
      have htext : behind (group :: later) ++ rest =
          ':' :: (formatHex group ++ (behind later ++ rest)) := by
        rw [behind, List.flatMap_cons, List.append_assoc]
        rfl
      have hrest : '.' ∉ formatHex group ++ (behind later ++ rest) := by
        rw [List.mem_append, List.mem_append]
        rintro (hhere | hlater | hafter)
        · exact not_mem_formatHex (by decide) group hhere
        · exact not_mem_behind later hlater
        · exact hdot hafter
      rw [htext, readGroups_succ (behind later ++ rest) group]
      · rw [ih (by simp) (fun other hother => hbound other (List.mem_cons_of_mem _ hother))
          (Nat.le_of_succ_le_succ hroom), List.append_assoc, List.singleton_append]
      · rw [hfirst, readSeparator_cons]
        exact readIpv4Addr_of_not_mem hrest
      · rw [hfirst, readSeparator_cons]
        exact readGroup (hbound group List.mem_cons_self) (stops_behind later hends.stops)

/-- A series of groups is read to its end. -/
theorem readGroups_format (hbound : ∀ group ∈ groups, group < 0x10000)
    (hroom : groups.length ≤ room) (hends : Ends rest) (hdot : '.' ∉ rest) :
    readGroups room [] (formatGroups groups ++ rest) = (groups, false, rest) := by
  cases groups with
  | nil => exact readGroups_of_ends [] hends
  | cons group later =>
      obtain ⟨room, rfl⟩ := Nat.exists_eq_succ_of_ne_zero (Nat.ne_of_gt
        (lt_of_lt_of_le (Nat.succ_pos later.length) hroom))
      have hrest : '.' ∉ formatHex group ++ (behind later ++ rest) := by
        rw [List.mem_append, List.mem_append]
        rintro (hhere | hlater | hafter)
        · exact not_mem_formatHex (by decide) group hhere
        · exact not_mem_behind later hlater
        · exact hdot hafter
      rw [formatGroups_cons, List.append_assoc, readGroups_succ (behind later ++ rest) group]
      · apply readGroups_behind (List.cons_ne_nil _ _) _ (Nat.le_of_succ_le_succ hroom) hends hdot
        exact fun other hother => hbound other (List.mem_cons_of_mem _ hother)
      · exact readIpv4Addr_of_not_mem hrest
      · exact readGroup (hbound group List.mem_cons_self) (stops_behind later hends.stops)

theorem readGroups_whole (hbound : ∀ group ∈ groups, group < 0x10000)
    (hroom : groups.length ≤ room) :
    readGroups room [] (formatGroups groups) = (groups, false, []) := by
  have hread := readGroups_format hbound hroom (Or.inl rfl) List.not_mem_nil
  rwa [List.append_nil] at hread

end Groups

section Addresses

variable {groups : List ℕ}

theorem dot_notMem_formatGroups (groups : List ℕ) : '.' ∉ formatGroups groups := by
  cases groups with
  | nil => exact List.not_mem_nil
  | cons group rest =>
      rw [formatGroups_cons, List.mem_append, not_or]
      exact ⟨not_mem_formatHex (by decide) group, not_mem_behind rest⟩

/-- Groups with zeros in place of those that were cut out. -/
theorem Span.IsZeros.append {span : Span} (hzeros : span.IsZeros groups)
    (hle : span.start + span.len ≤ groups.length) :
    groups.take span.start ++ List.replicate span.len 0 ++
      groups.drop (span.start + span.len) = groups := by
  have hwithin : (groups.drop span.start).take span.len = List.replicate span.len 0 := by
    apply List.eq_replicate_iff.mpr
    constructor
    · rw [List.length_take, List.length_drop]
      omega
    · intro group hgroup
      obtain ⟨k, hk, hget⟩ := List.mem_iff_getElem.mp hgroup
      rw [List.length_take, List.length_drop] at hk
      have hat := hzeros (span.start + k) (by omega) (by omega)
      rw [List.getElem_take, List.getElem_drop] at hget
      rw [← hget]
      exact (List.getElem?_eq_some_iff.mp hat).2
  rw [← hwithin, List.append_assoc, ← List.drop_drop, List.take_append_drop,
    List.take_append_drop]

/-- Eight groups are read from their text. -/
theorem readIpv6Addr_compress (hgroups : groups.length = 8)
    (hbound : ∀ group ∈ groups, group < 0x10000) :
    readIpv6Addr (compress groups) = some (ofGroups groups, []) := by
  rw [compress, readIpv6Addr]
  dsimp only
  split
  · rename_i hlen
    have hzeros := isZeros_longestZeros groups
    have hle := hzeros.le_length hlen
    generalize longestZeros groups = span at hlen hzeros hle
    have hfront : (groups.take span.start).length = span.start := by
      rw [List.length_take]
      omega
    have hback : (groups.drop (span.start + span.len)).length = 8 - (span.start + span.len) := by
      rw [List.length_drop, hgroups]
    have hends : Ends (':' :: ':' :: formatGroups (groups.drop (span.start + span.len))) :=
      Or.inr ⟨_, rfl⟩
    have hdot : '.' ∉ ':' :: ':' :: formatGroups (groups.drop (span.start + span.len)) := by
      simp [dot_notMem_formatGroups]
    have htail : readGroups (8 - (span.start + 1)) []
        (formatGroups (groups.drop (span.start + span.len))) =
          (groups.drop (span.start + span.len), false, []) := by
      apply readGroups_whole
      · exact fun group hgroup => hbound group (List.mem_of_mem_drop hgroup)
      · omega
    rw [readGroups_format (fun group hgroup => hbound group (List.mem_of_mem_take hgroup))
      (by omega) hends hdot]
    have hzero : 8 - span.start - (8 - (span.start + span.len)) = span.len := by omega
    simp only [hfront, hback, hzero, htail, readGivenChar, if_true, Bool.false_eq_true, if_false,
      Option.bind_eq_bind, Option.bind_some, Option.pure_def, hzeros.append hle]
    rw [if_neg (by omega)]
  · rw [readGroups_whole hbound hgroups.le, hgroups]
    rfl

theorem segment_lt {bits : BitVec 128} {group : ℕ} (hgroup : group ∈ segments bits) :
    group < 0x10000 := by
  obtain ⟨i, -, rfl⟩ := List.mem_map.mp hgroup
  exact Nat.mod_lt _ (by decide)

theorem ofGroups_segments (bits : BitVec 128) : ofGroups (segments bits) = bits := by
  apply BitVec.eq_of_toNat_eq
  have hlt := bits.isLt
  rw [ofGroups, BitVec.toNat_ofNat, segments]
  simp only [List.range_succ, List.range_zero, List.nil_append, List.cons_append, List.map_cons,
    List.map_nil, List.foldl_cons, List.foldl_nil]
  omega

/-- A mapped address is read from the text of its IPv4 address. -/
theorem readIpv6Addr_mapped {bits : BitVec 128} {v4 : BitVec 32}
    (hmapped : IpAddr.toIpv4Mapped bits = some v4) :
    readIpv6Addr ("::ffff:".toList ++ formatIpv4 v4) = some (bits, []) := by
  have htext : "::ffff:".toList ++ formatIpv4 v4 =
      ':' :: ':' :: (formatHex 0xffff ++ ':' :: formatIpv4 v4) := rfl
  have hhead : readGroups 8 [] ("::ffff:".toList ++ formatIpv4 v4) =
      ([], false, "::ffff:".toList ++ formatIpv4 v4) := readGroups_of_ends [] (Or.inr ⟨_, htext⟩)
  have hv4 := readIpv4Addr_format v4 (stops_nil 10)
  rw [List.append_nil] at hv4
  have hfirst : readSeparator ':' ([] : List ℕ).isEmpty readIpv4Addr
      (formatHex 0xffff ++ ':' :: formatIpv4 v4) = none :=
    readIpv4Addr_of_stops (stops_cons (by decide) _)
  have hgroup : readSeparator ':' ([] : List ℕ).isEmpty (readNumber 16 4 0x10000 true)
      (formatHex 0xffff ++ ':' :: formatIpv4 v4) = some (0xffff, ':' :: formatIpv4 v4) := by
    rw [List.isEmpty_nil, readSeparator, if_pos rfl]
    exact readGroup (by decide) (stops_cons (by decide) _)
  have htail : readGroups 7 [] (formatHex 0xffff ++ ':' :: formatIpv4 v4) =
      ([0xffff, v4.toNat / 0x10000, v4.toNat % 0x10000], true, []) := by
    rw [readGroups_succ _ _ hfirst hgroup, readGroups]
    simp only [Nat.reduceEqDiff, if_false, List.nil_append, List.isEmpty_cons, readSeparator_cons,
      hv4, List.cons_append]
  have hbits : ofGroups (List.replicate 5 0 ++ [0xffff, v4.toNat / 0x10000, v4.toNat % 0x10000]) =
      bits := by
    apply BitVec.eq_of_toNat_eq
    have hlt := v4.isLt
    rw [toNat_of_toIpv4Mapped hmapped, ofGroups, BitVec.toNat_ofNat]
    simp only [List.replicate_succ, List.replicate_zero, List.cons_append, List.nil_append,
      List.foldl_cons, List.foldl_nil]
    omega
  rw [readIpv6Addr, hhead]
  simp only [List.length_nil, Nat.reduceEqDiff, if_false, Bool.false_eq_true, htext, readGivenChar,
    if_true, Option.bind_eq_bind, Option.bind_some, Nat.zero_add, Nat.reduceSub, htail,
    List.length_cons, Nat.reduceAdd, List.nil_append, hbits, Option.pure_def]

/-- Every address is read back from its text. -/
theorem parseIpAddr_formatIpAddr (ip : IpAddr) : parseIpAddr (formatIpAddr ip) = some ip := by
  cases ip with
  | v4 bits =>
      have hread := readIpv4Addr_format bits (stops_nil 10)
      rw [List.append_nil] at hread
      rw [formatIpAddr, parseIpAddr, hread]
      simp only [if_true, BitVec.ofNat_toNat, BitVec.setWidth_eq]
  | v6 bits =>
      rw [formatIpAddr, formatIpv6]
      cases hmapped : IpAddr.toIpv4Mapped bits with
      | some v4 =>
          have hnone : readIpv4Addr ("::ffff:".toList ++ formatIpv4 v4) = none :=
            readIpv4Addr_of_stops (stops_cons (by decide) _)
          simp only [parseIpAddr, hnone, readIpv6Addr_mapped hmapped, if_true]
      | none =>
          have hnone := readIpv4Addr_of_not_mem (dot_notMem_compress (segments bits))
          have hread : readIpv6Addr (compress (segments bits)) = some (ofGroups (segments bits), []) :=
            readIpv6Addr_compress (by simp [segments]) fun _ => segment_lt
          simp only [parseIpAddr, hnone, hread, ofGroups_segments, if_true]

end Addresses

end EasyWaf.Net
