import EasyWaf.Modules.EscapeLoops
import EasyWaf.Modules.WideEscapes

/-!
# What the escape decoders write

No decoder writes more bytes than it reads, neither into its buffer nor as the
text that is read from it, where a byte that is not UTF-8 takes three.
-/

namespace EasyWaf.Modules.EscapeLoops

open Decoders EasyWaf.Core Transform Text.Utf8

section Sizes

/-- The bytes a text takes. -/
def size (text : Text) : ℕ := text.bytes.length

/-- The bytes still to be written for a character begun: its replacement's. -/
def owed : Option Begun → ℕ
  | none => 0
  | some _ => 3

/-- The most bytes that a byte is written as. -/
def weight (byte : UInt8) : ℕ := if byte < 0x80 then 1 else 3

variable {state : Option Begun}

theorem size_append (left right : Text) : size (left ++ right) = size left + size right := by
  rw [size, Text.bytes_append, List.length_append]
  rfl

theorem size_char (c : Char) : size [c] = (String.utf8EncodeChar c).length := by
  rw [size, Text.bytes, List.flatMap_singleton]

theorem size_char_le (c : Char) : size [c] ≤ 4 := by
  rw [size_char, String.length_utf8EncodeChar]
  exact Char.utf8Size_le_four c

theorem size_replacement : size [Text.replacement] = 3 := by decide

theorem weight_of_not_lt {byte : UInt8} (hbyte : ¬ byte < 0x80) : weight byte = 3 := if_neg hbyte

theorem weight_pos (byte : UInt8) : 1 ≤ weight byte := by
  rw [weight]
  split <;> omega

theorem weight_le (byte : UInt8) : weight byte ≤ 3 := by
  rw [weight]
  split <;> omega

theorem encode_of_lt {byte : UInt8} (hbyte : byte < 0x80) :
    String.utf8EncodeChar (Char.ofNat byte.toNat) = [byte] := by
  have hnat : byte.toNat < 0x80 := UInt8.lt_iff_toNat_lt.mp hbyte
  have hchar : (Char.ofNat byte.toNat).toNat = byte.toNat := by
    rw [Char.toNat_ofNat, if_pos (Or.inl (by omega))]
  have hbytes : Text.bytes [Char.ofNat byte.toNat] = [UInt8.ofNat (Char.ofNat byte.toNat).toNat] :=
    Text.bytes_of_ascii (List.forall_mem_singleton.mpr (by rwa [hchar]))
  rwa [hchar, UInt8.ofNat_toNat, Text.bytes, List.flatMap_singleton] at hbytes

theorem size_first_le (byte : UInt8) :
    size (first byte).1 + owed (first byte).2 ≤ weight byte := by
  by_cases hbyte : byte < 0x80
  · have hsize : size [Char.ofNat byte.toNat] = 1 := by
      rw [size_char, encode_of_lt hbyte]
      rfl
    rw [first, if_pos hbyte, weight, if_pos hbyte, hsize]
    rfl
  · rw [weight_of_not_lt hbyte, first, if_neg hbyte]
    split_ifs <;> exact le_of_eq rfl

theorem size_next_le {begun : Begun} (hsound : begun.Sound) (byte : UInt8) :
    size (next begun byte).1 + owed (next begun byte).2 ≤ 3 + weight byte := by
  rw [next]
  split
  · rename_i hrange
    have hbyte : ¬ byte < 0x80 := by
      have hlow := UInt8.le_iff_toNat_le.mp hrange.1
      have := hsound.low
      rw [UInt8.lt_iff_toNat_lt]
      simp only [UInt8.reduceToNat]
      omega
    rw [weight_of_not_lt hbyte]
    dsimp only
    split
    · have := size_char_le (Char.ofNat (begun.value * 64 + byte.toNat % 64))
      dsimp only [owed]
      omega
    · exact Nat.le_add_left 3 3
  · have hfirst := size_first_le byte
    dsimp only
    rw [← List.singleton_append, size_append, size_replacement]
    omega

/-- Reading one byte more writes what it weighs at most, less what is owed for it
after. -/
theorem read_cons_le (hstate : ∀ begun ∈ state, begun.Sound) (byte : UInt8) :
    ∃ out after, (∀ begun ∈ after, Begun.Sound begun) ∧
      (∀ rest, read state (byte :: rest) = out ++ read after rest) ∧
      size out + owed after ≤ owed state + weight byte := by
  cases state with
  | none =>
      refine ⟨(first byte).1, (first byte).2, fun _ hbegun => sound_first hbegun,
        fun rest => rfl, ?_⟩
      rw [owed, Nat.zero_add]
      exact size_first_le byte
  | some begun =>
      exact ⟨(next begun byte).1, (next begun byte).2,
        fun _ hbegun => sound_next (hstate begun rfl) hbegun, fun rest => rfl,
        size_next_le (hstate begun rfl) byte⟩

/-- Bytes are written as what they weigh at most. -/
theorem read_append_le (hstate : ∀ begun ∈ state, begun.Sound) (bytes : List UInt8) :
    ∃ out after, (∀ begun ∈ after, Begun.Sound begun) ∧
      (∀ rest, read state (bytes ++ rest) = out ++ read after rest) ∧
      size out + owed after ≤ owed state + (bytes.map weight).sum := by
  induction bytes generalizing state with
  | nil => exact ⟨[], state, hstate, fun rest => rfl, by rw [List.map_nil, List.sum_nil]; simp [size, Text.bytes]⟩
  | cons byte bytes ih =>
      obtain ⟨first, middle, hmiddle, hfirst, hfirstSize⟩ := read_cons_le hstate byte
      obtain ⟨others, after, hafter, hothers, hothersSize⟩ := ih hmiddle
      refine ⟨first ++ others, after, hafter, fun rest => ?_, ?_⟩
      · rw [List.cons_append, hfirst, hothers, List.append_assoc]
      · rw [size_append, List.map_cons, List.sum_cons]
        omega

/-- A character's first byte begins it. -/
theorem not_range_of_head {c : Char} {head : UInt8} {more : List UInt8}
    (hchar : String.utf8EncodeChar c = head :: more) {begun : Begun} (hsound : begun.Sound) :
    ¬ (begun.low ≤ head ∧ head ≤ begun.high) := by
  have hhead : head.toNat < 0x80 ∨ 0xC0 ≤ head.toNat := by
    have hc : c.val.toNat < 0x110000 := by
      rcases c.valid with hlow | ⟨-, hhigh⟩
      · exact Nat.lt_trans hlow (by decide)
      · exact hhigh
    simp only [String.utf8EncodeChar] at hchar
    split_ifs at hchar with hone htwo hthree
    all_goals
      rw [← (List.cons.inj hchar).1, UInt8.toNat_ofNat']
      omega
  have hlow := hsound.low
  have hhigh := hsound.high
  rw [UInt8.le_iff_toNat_le, UInt8.le_iff_toNat_le]
  omega

/-- A character that begins ends what was begun before it. -/
theorem read_char (hstate : ∀ begun ∈ state, begun.Sound) (c : Char) :
    ∃ out, (∀ rest, read state (String.utf8EncodeChar c ++ rest) = out ++ read none rest) ∧
      size out ≤ owed state + (String.utf8EncodeChar c).length := by
  cases state with
  | none =>
      refine ⟨[c], read_utf8EncodeChar c, ?_⟩
      rw [size_char, owed, Nat.zero_add]
  | some begun =>
      refine ⟨[Text.replacement, c], fun rest => ?_, ?_⟩
      · cases hchar : String.utf8EncodeChar c with
        | nil => exact absurd hchar String.utf8EncodeChar_ne_nil
        | cons head more =>
            have hread := read_utf8EncodeChar c rest
            rw [hchar, List.cons_append, Text.Utf8.read] at hread
            rw [List.cons_append, Text.Utf8.read, next, if_neg (not_range_of_head hchar (hstate begun rfl))]
            exact congrArg (List.cons Text.replacement) hread
      · change size ([Text.replacement] ++ [c]) ≤ _
        rw [size_append, size_replacement, size_char]
        exact le_refl _

end Sizes

section Written

/-- What an escape leaves of ASCII bytes weighs no more than they and their marker,
or it only keeps the byte after the marker. -/
inductive Written : List UInt8 → List UInt8 → ℕ → Prop
  | stands (taken after out : List UInt8) (hascii : ∀ byte ∈ taken, byte < 0x80)
      (hweight : (out.map weight).sum ≤ taken.length + 1) :
      Written (taken ++ after) out taken.length
  | kept (head : UInt8) (after : List UInt8) : Written (head :: after) [head] 1

/-- Every escape is written so. -/
def Fits (escape : Escape UInt8) : Prop :=
  ∀ rest out used, escape rest = some (out, used) → Written rest out used

theorem length_le_weight (bytes : List UInt8) : bytes.length ≤ (bytes.map weight).sum := by
  induction bytes with
  | nil => exact le_refl 0
  | cons byte bytes ih =>
      have hbyte := weight_pos byte
      rw [List.length_cons, List.map_cons, List.sum_cons]
      omega

theorem Written.length_le {rest out : List UInt8} {used : ℕ} (hwritten : Written rest out used) :
    out.length ≤ used + 1 ∧ used ≤ rest.length := by
  cases hwritten with
  | stands taken after out hascii hweight =>
      rw [List.length_append]
      exact ⟨(length_le_weight out).trans hweight, Nat.le_add_right _ _⟩
  | kept head after => exact ⟨by simp, by simp⟩

/-- ASCII bytes a text begins with are characters of it. -/
theorem exists_of_bytes_eq_append {taken after : List UInt8} (hascii : ∀ byte ∈ taken, byte < 0x80)
    (text : Text) (hbytes : text.bytes = taken ++ after) :
    ∃ rest : Text, rest.length ≤ text.length ∧ rest.bytes = after := by
  induction taken generalizing text with
  | nil => exact ⟨text, le_refl _, hbytes⟩
  | cons byte taken ih =>
      obtain ⟨hbyte, htaken⟩ := List.forall_mem_cons.mp hascii
      cases text with
      | nil => exact absurd hbytes (by simp [Text.bytes])
      | cons c text =>
          have hmem : byte ∈ String.utf8EncodeChar c := by
            cases hchar : String.utf8EncodeChar c with
            | nil => exact absurd hchar String.utf8EncodeChar_ne_nil
            | cons head more =>
                rw [Text.bytes_cons, hchar] at hbytes
                rw [(List.cons.inj hbytes).1]
                exact List.mem_cons_self
          have hchar : String.utf8EncodeChar c = [byte] := by
            rw [Text.utf8EncodeChar_of_mem hmem hbyte, encode_of_lt hbyte]
          rw [Text.bytes_cons, hchar, List.cons_append, List.nil_append] at hbytes
          obtain ⟨rest, hshorter, hrest⟩ := ih htaken text (List.cons.inj hbytes).2
          exact ⟨rest, hshorter.trans (Nat.le_succ _), hrest⟩

theorem sound_none : ∀ begun ∈ (none : Option Begun), begun.Sound := by simp

/-- Undoing a text's escapes and reading what is left writes no more than the text
and what is owed. -/
theorem size_read_unescape_le {marker : Char} (hmarker : marker.toNat < 0x80)
    {escape : Escape UInt8} (hfits : Fits escape) (text : Text) {state : Option Begun}
    (hstate : ∀ begun ∈ state, begun.Sound) :
    size (read state (unescape (UInt8.ofNat marker.toNat) escape text.bytes)) ≤
      owed state + text.bytes.length := by
  induction hlength : text.length using Nat.strong_induction_on generalizing text state with
  | _ length ih =>
      have hbyte : UInt8.ofNat marker.toNat < 0x80 := Text.ofNat_toNat_lt hmarker
      have hchar {c : Char} (hmem : UInt8.ofNat marker.toNat ∈ String.utf8EncodeChar c) :
          c = marker ∧ String.utf8EncodeChar c = [UInt8.ofNat marker.toNat] := by
        rw [Text.utf8EncodeChar_of_mem hmem hbyte, encode_of_lt hbyte, UInt8.toNat_ofNat',
          Nat.mod_eq_of_lt (by omega), Char.ofNat_toNat]
        exact ⟨rfl, rfl⟩
      cases text with
      | nil =>
          rw [Text.bytes, List.flatMap_nil, unescape_nil]
          cases state with
          | none => exact le_refl 0
          | some begun => exact le_of_eq size_replacement
      | cons c rest =>
          rw [List.length_cons] at hlength
          rw [Text.bytes_cons]
          by_cases hc : UInt8.ofNat marker.toNat ∈ String.utf8EncodeChar c
          · rw [(hchar hc).2, List.singleton_append]
            cases hescape : escape (Text.bytes rest) with
            | none =>
                obtain ⟨out, after, hafter, hread, hsize⟩ := read_cons_le hstate _
                have hrest := ih rest.length (by omega) rest hafter rfl
                rw [unescape_cons_of_none hescape, hread, size_append, List.length_cons]
                rw [weight, if_pos hbyte] at hsize
                omega
            | some undoing =>
                obtain ⟨out, used⟩ := undoing
                have hwritten := hfits _ _ _ hescape
                generalize hbytes : Text.bytes rest = ahead at hwritten hescape ⊢
                rw [unescape_cons_of_some hescape]
                cases hwritten with
                | stands taken after out hascii hweight =>
                    obtain ⟨others, hshorter, hothers⟩ :=
                      exists_of_bytes_eq_append hascii rest hbytes
                    obtain ⟨written, state', hstate', hread, hsize⟩ := read_append_le hstate out
                    have hrest := ih others.length (by omega) others hstate' rfl
                    rw [List.drop_left, ← hothers, hread, size_append, List.length_cons,
                      List.length_append]
                    omega
                | kept head after =>
                    cases rest with
                    | nil => exact absurd hbytes (by simp [Text.bytes])
                    | cons next others =>
                        obtain ⟨out, hread, hsize⟩ := read_char hstate next
                        have hrest := ih others.length (by rw [← hlength]; simp) others sound_none rfl
                        cases hnext : String.utf8EncodeChar next with
                        | nil => exact absurd hnext String.utf8EncodeChar_ne_nil
                        | cons first more =>
                            rw [Text.bytes_cons, hnext, List.cons_append] at hbytes
                            obtain ⟨rfl, rfl⟩ := List.cons.inj hbytes
                            have hmore : UInt8.ofNat marker.toNat ∉ more := by
                              intro hmem
                              rw [(hchar (hnext ▸ List.mem_cons_of_mem _ hmem)).2] at hnext
                              rw [← (List.cons.inj hnext).2] at hmem
                              exact absurd hmem List.not_mem_nil
                            rw [hnext] at hread hsize
                            rw [List.drop_one, List.tail_cons, unescape_append_of_not_mem hmore,
                              ← List.append_assoc, List.singleton_append, hread, size_append]
                            simp only [List.length_cons, List.length_append] at hsize ⊢
                            rw [owed] at hrest
                            omega
          · obtain ⟨out, hread, hsize⟩ := read_char hstate c
            have hrest := ih rest.length (by omega) rest sound_none rfl
            rw [unescape_append_of_not_mem hc, hread, size_append, List.length_append]
            rw [owed] at hrest
            omega

end Written

section Escapes

variable {rest out : List UInt8} {used : ℕ}

theorem lt_of_toDigit {radix : ℕ} {byte : UInt8} (hdigit : (toDigit radix byte).isSome = true) :
    byte < 0x80 := by
  have hall : ∀ byte : UInt8, (Http.hexValue byte).isSome = true → byte < 0x80 := by decide +kernel
  apply hall
  rw [toDigit] at hdigit
  exact Option.isSome_of_isSome_bind hdigit

theorem lt_of_isHexDigit {byte : UInt8} (hdigit : isHexDigit byte = true) : byte < 0x80 :=
  @lt_of_toDigit 16 byte (by rwa [toDigit_sixteen, Option.isSome_map])

theorem lt_of_lowered {letter : UInt8} (hletter : lowered letter = 0x78) : letter < 0x80 := by
  revert hletter
  revert letter
  decide +kernel

theorem lt_of_isNewline {byte : UInt8} (hnewline : isNewline byte = true) : byte < 0x80 := by
  revert hnewline
  revert byte
  decide +kernel

theorem lt_of_isCssSpace {byte : UInt8} (hspace : isCssSpace byte = true) : byte < 0x80 := by
  revert hspace
  revert byte
  decide +kernel

theorem sum_weight_le (byte : UInt8) : ([byte].map weight).sum ≤ 3 := by
  rw [List.map_singleton, List.sum_singleton]
  exact weight_le byte

/-- An escape that another byte may end. -/
theorem Written.ended (taken more : List UInt8) (hascii : ∀ byte ∈ taken, byte < 0x80)
    (hweight : (out.map weight).sum ≤ taken.length + 1) (condition : Prop) [Decidable condition]
    (hends : condition → ∃ byte, more.head? = some byte ∧ byte < 0x80) :
    Written (taken ++ more) out (if condition then taken.length + 1 else taken.length) := by
  split
  · rename_i hcondition
    obtain ⟨byte, hhead, hbyte⟩ := hends hcondition
    obtain ⟨others, rfl⟩ := List.head?_eq_some_iff.mp hhead
    have hstands : Written ((taken ++ [byte]) ++ others) out (taken ++ [byte]).length := by
      apply Written.stands
      · intro other hother
        rcases List.mem_append.mp hother with htaken | hlast
        · exact hascii other htaken
        · rwa [List.mem_singleton.mp hlast]
      · rw [List.length_append]
        omega
    rwa [List.append_assoc, List.length_append] at hstands
  · exact Written.stands taken more out hascii hweight

theorem written_wide (hescape : wideEscape rest = some (out, used)) : Written rest out used := by
  obtain ⟨value, letter, digits, after, rfl, hletter, hlength, hdigits, rfl, rfl⟩ :=
    exists_of_wideEscape hescape
  have hstands : Written ((letter :: digits) ++ after) [value] (letter :: digits).length := by
    apply Written.stands
    · exact List.forall_mem_cons.mpr ⟨(toLower_of_lowered hletter).1,
        fun digit hdigit => lt_of_isHexDigit (hdigits digit hdigit)⟩
    · have := sum_weight_le value
      rw [List.length_cons, hlength]
      omega
  rwa [List.length_cons, hlength] at hstands

theorem written_byte (hescape : byteEscape rest = some (out, used)) : Written rest out used := by
  obtain ⟨value, high, low, after, rfl, hhigh, hlow, rfl, rfl⟩ := exists_of_byteEscape hescape
  apply Written.stands [high, low] after
  · exact List.forall_mem_cons.mpr ⟨lt_of_isHexDigit hhigh,
      List.forall_mem_singleton.mpr (lt_of_isHexDigit hlow)⟩
  · exact sum_weight_le value

/-- A letter before two digits is used with them. -/
theorem written_letter_byte {letter : UInt8} (hletter : letter < 0x80)
    (hescape : byteEscape rest = some (out, used)) : Written (letter :: rest) out (used + 1) := by
  obtain ⟨value, high, low, after, rfl, hhigh, hlow, rfl, rfl⟩ := exists_of_byteEscape hescape
  apply Written.stands [letter, high, low] after
  · exact List.forall_mem_cons.mpr ⟨hletter, List.forall_mem_cons.mpr ⟨lt_of_isHexDigit hhigh,
      List.forall_mem_singleton.mpr (lt_of_isHexDigit hlow)⟩⟩
  · exact (sum_weight_le value).trans (Nat.le_succ 3)

theorem fits_uniEscape : Fits uniEscape := by
  intro rest out used hescape
  rcases Option.or_eq_some_iff.mp hescape with hwide | ⟨-, hbyte⟩
  · exact written_wide hwide
  · exact written_byte hbyte

theorem lt_of_mem_digitsOf {radix most : ℕ} {byte : UInt8}
    (hmem : byte ∈ digitsOf radix most rest) : byte < 0x80 :=
  lt_of_toDigit (List.mem_takeWhile_imp (p := fun byte => (toDigit radix byte).isSome) hmem)

theorem exists_of_digitsOf (radix most : ℕ) (rest : List UInt8) :
    ∃ more, digitsOf radix most rest ++ more = rest :=
  (List.takeWhile_prefix _).trans (List.take_prefix most rest)

/-- One digit is less than its radix, and two bytes are as many as a value needs. -/
theorem weight_number_le {radix most : ℕ} (hradix : radix ≤ 16)
    (hdigits : (digitsOf radix most rest).isEmpty = false) :
    ([UInt8.ofNat (number radix (digitsOf radix most rest))].map weight).sum ≤
      (digitsOf radix most rest).length + 1 := by
  cases heq : digitsOf radix most rest with
  | nil => rw [heq] at hdigits; contradiction
  | cons digit digits =>
      cases digits with
      | nil =>
          have hvalue : (toDigit radix digit).getD 0 < 0x80 := by
            cases htoDigit : toDigit radix digit with
            | none => decide
            | some value =>
                have := toDigit_lt htoDigit
                rw [Option.getD_some]
                omega
          rw [List.map_singleton, List.sum_singleton, number, List.foldl_cons, List.foldl_nil,
            Nat.zero_mul, Nat.zero_add, weight, if_pos]
          · exact Nat.le_add_left _ _
          · rw [UInt8.lt_iff_toNat_lt, UInt8.toNat_ofNat', Nat.mod_eq_of_lt (by omega)]
            exact hvalue
      | cons second more =>
          have := sum_weight_le (UInt8.ofNat (number radix (digit :: second :: more)))
          rw [List.length_cons, List.length_cons]
          omega

/-- The digits of an escape with what may end them. -/
theorem written_number {radix most : ℕ} (hradix : radix ≤ 16)
    (hdigits : (digitsOf radix most rest).isEmpty = false) :
    Written rest [UInt8.ofNat (number radix (digitsOf radix most rest))]
      (digitsOf radix most rest).length := by
  obtain ⟨more, hmore⟩ := exists_of_digitsOf radix most rest
  have hstands := Written.stands (digitsOf radix most rest) more _
    (fun byte hbyte => lt_of_mem_digitsOf hbyte) (weight_number_le hradix hdigits)
  rwa [hmore] at hstands

theorem written_ascii {letter value : UInt8} (hletter : letter < 0x80) (hvalue : value < 0x80)
    (rest : List UInt8) : Written (letter :: rest) [value] 1 := by
  apply Written.stands [letter] rest
  · exact List.forall_mem_singleton.mpr hletter
  · rw [List.map_singleton, List.sum_singleton, weight, if_pos hvalue]
    exact Nat.le_add_left _ _

/-- A letter that names nothing is kept, and what one names is ASCII as it is. -/
theorem written_named (letter : UInt8) (rest : List UInt8) :
    Written (letter :: rest) [jsNamed letter] 1 := by
  have hnamed : jsNamed letter = letter ∨ letter < 0x80 ∧ jsNamed letter < 0x80 := by
    revert letter
    decide +kernel
  rcases hnamed with hkept | ⟨hletter, hvalue⟩
  · rw [hkept]
    exact Written.kept letter rest
  · exact written_ascii hletter hvalue rest

theorem fits_jsEscape : Fits jsEscape := by
  intro rest out used hescape
  cases rest with
  | nil => contradiction
  | cons letter rest =>
      rw [jsEscape] at hescape
      rcases Option.or_eq_some_iff.mp hescape with hhex | ⟨-, hlast⟩
      · rcases Option.or_eq_some_iff.mp hhex with hwide | ⟨-, hbyte⟩
        · exact written_wide hwide
        · split at hbyte
          · rename_i hletter
            obtain ⟨⟨value, count⟩, hvalue, hpair⟩ := Option.map_eq_some_iff.mp hbyte
            obtain ⟨rfl, rfl⟩ := Prod.mk.inj hpair
            exact written_letter_byte (lt_of_lowered hletter) hvalue
          · contradiction
      · split at hlast
        · obtain ⟨rfl, rfl⟩ := Prod.mk.inj (Option.some.inj hlast)
          exact written_named letter rest
        · rename_i hdigits
          obtain ⟨rfl, rfl⟩ := Prod.mk.inj (Option.some.inj hlast)
          exact written_number (by decide) (Bool.eq_false_of_not_eq_true hdigits)

theorem fits_cssEscape : Fits cssEscape := by
  intro rest out used hescape
  cases rest with
  | nil => contradiction
  | cons first rest =>
      rw [cssEscape] at hescape
      split at hescape
      · rename_i hnewline
        obtain ⟨rfl, rfl⟩ := Prod.mk.inj (Option.some.inj hescape)
        have hascii : first < 0x80 := lt_of_isNewline hnewline
        apply Written.ended [first] rest (List.forall_mem_singleton.mpr hascii) (Nat.zero_le _)
        intro hsecond
        obtain ⟨second, hhead, hkind⟩ := (Option.any_eq_true _ _).mp hsecond
        exact ⟨second, hhead, lt_of_isNewline (Bool.and_eq_true_iff.mp hkind).1⟩
      · split at hescape
        · obtain ⟨rfl, rfl⟩ := Prod.mk.inj (Option.some.inj hescape)
          exact Written.kept first rest
        · rename_i hdigits
          obtain ⟨rfl, rfl⟩ := Prod.mk.inj (Option.some.inj hescape)
          obtain ⟨more, hmore⟩ := exists_of_digitsOf 16 6 (first :: rest)
          have hascii (byte : UInt8) (hbyte : byte ∈ digitsOf 16 6 (first :: rest)) : byte < 0x80 :=
            lt_of_mem_digitsOf hbyte
          have hweight : _ ≤ (digitsOf 16 6 (first :: rest)).length + 1 :=
            weight_number_le (by decide) (Bool.eq_false_of_not_eq_true hdigits)
          generalize digitsOf 16 6 (first :: rest) = digits at hmore hascii hweight ⊢
          rw [← hmore, List.getElem?_append_right (le_refl _), Nat.sub_self,
            ← List.head?_eq_getElem?]
          apply Written.ended digits more hascii hweight
          intro hspace
          obtain ⟨byte, hhead, hkind⟩ := (Option.any_eq_true _ _).mp hspace
          exact ⟨byte, hhead, lt_of_isCssSpace hkind⟩

theorem fits_cEscape : Fits cEscape := by
  intro rest out used hescape
  cases rest with
  | nil => contradiction
  | cons letter rest =>
      rw [cEscape] at hescape
      obtain hpair := Option.some.inj hescape
      cases hnamed : cNamed letter with
      | some byte =>
          rw [hnamed] at hpair
          obtain ⟨rfl, rfl⟩ := Prod.mk.inj hpair
          rw [cNamed] at hnamed
          split at hnamed
          · rw [← Option.some.inj hnamed]
            exact written_named letter rest
          · split at hnamed
            · rw [← Option.some.inj hnamed]
              exact Written.kept letter rest
            · contradiction
      | none =>
          rw [hnamed] at hpair
          dsimp only at hpair
          split at hpair
          · rename_i value count hvalue
            obtain ⟨rfl, rfl⟩ := Prod.mk.inj hpair
            split at hvalue
            · rename_i hletter
              exact written_letter_byte (lt_of_lowered hletter) hvalue
            · contradiction
          · split at hpair
            · obtain ⟨rfl, rfl⟩ := Prod.mk.inj hpair
              exact Written.kept letter rest
            · rename_i hdigits
              obtain ⟨rfl, rfl⟩ := Prod.mk.inj hpair
              exact written_number (by decide) (Bool.eq_false_of_not_eq_true hdigits)

theorem written_numbered {byte : UInt8} (hstart : rest.head? = some 35)
    (hentity : numberedEntity rest = some (byte, used)) : Written rest [byte] used := by
  obtain ⟨others, rfl⟩ := List.head?_eq_some_iff.mp hstart
  -- what the digits follow: the `#`, or the `#` and an `x`
  have hbegin : ∃ taken more, 35 :: others = taken ++ more ∧ (∀ byte ∈ taken, byte < 0x80) ∧
      1 ≤ taken.length ∧ ∃ radix,
        (if (35 :: others)[1]?.map lowered = some 0x78 then (16, 2) else (10, 1)) =
          (radix, taken.length) := by
    split
    · rename_i hletter
      obtain ⟨letter, hread, hlowered⟩ := Option.map_eq_some_iff.mp hletter
      obtain ⟨more, rfl⟩ : ∃ more, others = letter :: more := by
        rw [List.getElem?_cons_succ, ← List.head?_eq_getElem?] at hread
        exact List.head?_eq_some_iff.mp hread
      exact ⟨[35, letter], more, rfl, List.forall_mem_cons.mpr ⟨by decide,
        List.forall_mem_singleton.mpr (lt_of_lowered hlowered)⟩, by simp, 16, rfl⟩
    · exact ⟨[35], others, rfl, List.forall_mem_singleton.mpr (by decide), le_refl 1, 10, rfl⟩
  obtain ⟨taken, more, hrest, hascii, hlong, radix, hradix⟩ := hbegin
  rw [numberedEntity, hradix, hrest] at hentity
  dsimp only at hentity
  rw [List.drop_left] at hentity
  split at hentity
  · contradiction
  · rename_i hdigits
    obtain ⟨rfl, rfl⟩ := Prod.mk.inj (Option.some.inj hentity)
    have hdigit (byte : UInt8)
        (hbyte : byte ∈ more.takeWhile fun byte => (toDigit radix byte).isSome) : byte < 0x80 :=
      lt_of_toDigit (List.mem_takeWhile_imp (p := fun byte => (toDigit radix byte).isSome) hbyte)
    have hmore := List.takeWhile_append_dropWhile (p := fun byte => (toDigit radix byte).isSome)
      (l := more)
    generalize more.takeWhile (fun byte => (toDigit radix byte).isSome) = digits at *
    generalize more.dropWhile (fun byte => (toDigit radix byte).isSome) = after at *
    obtain rfl := hmore
    have hpositive : 1 ≤ digits.length := by
      cases digits with
      | nil => exact absurd rfl hdigits
      | cons digit digits => exact Nat.le_add_left _ _
    rw [hrest, ← List.append_assoc, ← List.length_append, List.getElem?_append_right (le_refl _),
      Nat.sub_self, ← List.head?_eq_getElem?]
    apply Written.ended
    · intro byte hbyte
      exact (List.mem_append.mp hbyte).elim (hascii byte) (hdigit byte)
    · apply (sum_weight_le _).trans
      rw [List.length_append]
      omega
    · intro hsemicolon
      exact ⟨59, hsemicolon, by decide⟩

theorem names_ascii :
    ∀ entry ∈ Decoders.names, 2 ≤ entry.1.length ∧ ∀ byte ∈ entry.1, byte < 0x80 := by
  decide +kernel

theorem lt_of_asciiLowercase {byte : UInt8} (hlower : asciiLowercase byte < 0x80) :
    byte < 0x80 := by
  revert hlower
  revert byte
  decide +kernel

theorem written_namedEntity {byte : UInt8} (hentity : namedEntity rest = some (byte, used)) :
    Written rest [byte] used := by
  obtain ⟨⟨name, value⟩, hname, hfound⟩ := List.exists_of_findSome?_eq_some hentity
  dsimp only at hfound
  split at hfound
  · rename_i hlower
    obtain ⟨rfl, rfl⟩ := Prod.mk.inj (Option.some.inj hfound)
    obtain ⟨hlong, hnameAscii⟩ := names_ascii _ hname
    have hlength : (rest.take name.length).length = name.length := by
      rw [← List.length_map asciiLowercase, hlower]
    have hascii (byte : UInt8) (hbyte : byte ∈ rest.take name.length) : byte < 0x80 := by
      apply lt_of_asciiLowercase
      apply hnameAscii
      rw [← hlower]
      exact List.mem_map_of_mem hbyte
    dsimp only at hlong
    have hended := Written.ended (rest.take name.length) (rest.drop name.length) hascii
      ((sum_weight_le value).trans (by rw [hlength]; omega)) (rest[name.length]? = some 59)
      fun hsemicolon => ⟨59, by rw [List.head?_drop, hsemicolon], by decide⟩
    rwa [List.take_append_drop, hlength] at hended
  · contradiction

theorem fits_entityAt :
    Fits fun rest => (entityAt rest).map fun (byte, used) => ([byte], used) := by
  intro rest out used hescape
  obtain ⟨⟨byte, count⟩, hentity, hpair⟩ := Option.map_eq_some_iff.mp hescape
  obtain ⟨rfl, rfl⟩ := Prod.mk.inj hpair
  rw [entityAt] at hentity
  split at hentity
  · rename_i hstart
    exact written_numbered hstart hentity
  · exact written_namedEntity hentity

end Escapes

section Decoders

/-- The escape decoders. -/
inductive EscapeDecoder
  | urlDecodeUni
  | htmlEntityDecode
  | jsDecode
  | cssDecode
  | escapeSeqDecode
  deriving DecidableEq

namespace EscapeDecoder

/-- The character an escape begins with. -/
def marker : EscapeDecoder → Char
  | urlDecodeUni => '%'
  | htmlEntityDecode => '&'
  | jsDecode | cssDecode | escapeSeqDecode => '\\'

/-- Whether a text without that character is not looked at. -/
def passesOver : EscapeDecoder → Bool
  | htmlEntityDecode | jsDecode | cssDecode => true
  | urlDecodeUni | escapeSeqDecode => false

def round : EscapeDecoder → List UInt8 → Round UInt8
  | urlDecodeUni => uniRound
  | htmlEntityDecode => htmlRound
  | jsDecode => jsRound
  | cssDecode => cssRound
  | escapeSeqDecode => seqRound

/-- The bytes a decoder's loop leaves in its buffer, in so many rounds at most. -/
def loop (decoder : EscapeDecoder) (bytes : List UInt8) (rounds : ℕ) :
    Except Stop (List UInt8) :=
  runLoop bytes.length (decoder.round bytes) rounds 0 []

/-- A decoder, of whose loop there are so many rounds at most. -/
def decode (decoder : EscapeDecoder) (rounds : ℕ) (text : Text) : Except Stop Text :=
  if decoder.passesOver && !text.contains decoder.marker then .ok text
  else (decoder.loop text.bytes rounds).map Text.fromUtf8Lossy

def escape : EscapeDecoder → Escape UInt8
  | urlDecodeUni => uniEscape
  | htmlEntityDecode => fun rest => (entityAt rest).map fun (byte, used) => ([byte], used)
  | jsDecode => jsEscape
  | cssDecode => cssEscape
  | escapeSeqDecode => cEscape

theorem undoes (decoder : EscapeDecoder) (bytes : List UInt8) :
    Undoes (UInt8.ofNat decoder.marker.toNat) decoder.escape bytes (decoder.round bytes) := by
  cases decoder with
  | urlDecodeUni =>
      apply Undoes.of_append _ uniRound_turn
      intro front symbol rest hsymbol
      rw [uniRound, readAt_here, bind_ok, if_neg hsymbol]
  | htmlEntityDecode =>
      apply Undoes.of_append _ htmlRound_turn
      intro front symbol rest hsymbol
      rw [htmlRound, readAt_here, bind_ok, if_neg hsymbol]
  | jsDecode =>
      apply Undoes.of_append _ jsRound_turn
      intro front symbol rest hsymbol
      rw [jsRound, readAt_here, bind_ok, if_pos (Or.inl hsymbol)]
  | cssDecode =>
      apply Undoes.of_append _ cssRound_turn
      intro front symbol rest hsymbol
      rw [cssRound, readAt_here, bind_ok, if_pos (Or.inl hsymbol)]
  | escapeSeqDecode =>
      apply Undoes.of_append _ seqRound_turn
      intro front symbol rest hsymbol
      rw [seqRound, readAt_here, bind_ok, if_pos (Or.inl hsymbol)]

theorem fits (decoder : EscapeDecoder) : Fits decoder.escape := by
  cases decoder with
  | urlDecodeUni => exact fits_uniEscape
  | htmlEntityDecode => exact fits_entityAt
  | jsDecode => exact fits_jsEscape
  | cssDecode => exact fits_cssEscape
  | escapeSeqDecode => exact fits_cEscape

theorem loop_eq (decoder : EscapeDecoder) (bytes : List UInt8) :
    decoder.loop bytes bytes.length =
      .ok (unescape (UInt8.ofNat decoder.marker.toNat) decoder.escape bytes) :=
  (decoder.undoes bytes).runLoop_eq bytes.length 0 [] (Nat.le_add_left _ _)

theorem marker_ascii (decoder : EscapeDecoder) : decoder.marker.toNat < 0x80 := by
  cases decoder <;> decide

/-- The decoder as its escapes say. -/
def decoded : EscapeDecoder → Text → Text
  | urlDecodeUni => Decoders.urlDecodeUni
  | htmlEntityDecode => Decoders.htmlEntityDecode
  | jsDecode => Decoders.jsDecode
  | cssDecode => Decoders.cssDecode
  | escapeSeqDecode => escapeSeqDecodeText

theorem passing_eq (marker : Char) (escape : Escape UInt8) (text : Text) :
    (if true && !text.contains marker then Except.ok text
      else (Except.ok (unescape (UInt8.ofNat marker.toNat) escape text.bytes) :
        Except Stop (List UInt8)).map Text.fromUtf8Lossy) =
      .ok (decodeEscapes marker escape text) := by
  rw [decodeEscapes]
  cases text.contains marker with
  | true => rfl
  | false => rfl

/-- The loops decode what their escapes say. -/
theorem decode_eq_decoded (decoder : EscapeDecoder) (text : Text) :
    decoder.decode text.bytes.length text = .ok (decoder.decoded text) := by
  rw [decode, loop_eq]
  cases decoder with
  | urlDecodeUni => rfl
  | htmlEntityDecode => exact passing_eq '&' _ text
  | jsDecode => exact passing_eq '\\' jsEscape text
  | cssDecode => exact passing_eq '\\' cssEscape text
  | escapeSeqDecode => rfl

/-- Each decoder ends after as many rounds of its loop as the text has bytes, reads
only bytes that are there, writes no more than it reads, and leaves a text without
its escapes as it is. -/
theorem decode_total (decoder : EscapeDecoder) (text : Text) :
    ∃ written decoded,
      decoder.loop text.bytes text.bytes.length = .ok written ∧
      written.length ≤ text.bytes.length ∧
      decoder.decode text.bytes.length text = .ok decoded ∧
      decoded.bytes.length ≤ text.bytes.length ∧
      (decoder.marker ∉ text → decoded = text) := by
  have hsize : size (Text.fromUtf8Lossy
      (unescape (UInt8.ofNat decoder.marker.toNat) decoder.escape text.bytes)) ≤
        text.bytes.length := by
    have hread := size_read_unescape_le decoder.marker_ascii decoder.fits text sound_none
    rwa [owed, Nat.zero_add] at hread
  have hwritten : (unescape (UInt8.ofNat decoder.marker.toNat) decoder.escape text.bytes).length ≤
      text.bytes.length :=
    length_unescape_le (fun rest out used hescape =>
      (decoder.fits rest out used hescape).length_le) text.bytes
  by_cases hlooked : (decoder.passesOver && !text.contains decoder.marker) = true
  · refine ⟨_, text, decoder.loop_eq text.bytes, hwritten, ?_, le_refl _, fun _ => rfl⟩
    rw [decode, if_pos hlooked]
  · refine ⟨_, _, decoder.loop_eq text.bytes, hwritten, ?_, hsize, fun hmarker => ?_⟩
    · rw [decode, if_neg hlooked, loop_eq]
      rfl
    · rw [unescape_of_not_mem (Text.not_mem_bytes decoder.marker_ascii hmarker),
        Text.fromUtf8Lossy_bytes]

end EscapeDecoder

end Decoders

end EasyWaf.Modules.EscapeLoops
