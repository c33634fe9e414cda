import EasyWaf.Text.Basic

/-!
# Decimal numbers

`to_string` and `parse` of the integer types: an optional sign, digits, and no
more than the type holds.  Numerals of one width, with zeros before them, are in the
order of their numbers.
-/

namespace EasyWaf.Text

def formatNat (n : ℕ) : Text := Nat.toDigits 10 n

def formatInt : ℤ → Text
  | .ofNat n => formatNat n
  | .negSucc n => '-' :: formatNat (n + 1)

def parseDigits (text : Text) : Option ℕ :=
  if text ≠ [] ∧ text.all Char.isDigit then some (Nat.ofDigitChars 10 text 0) else none

/-- `parse` of an unsigned type with values below `bound`. -/
def parseUnsigned (bound : ℕ) (text : Text) : Option ℕ :=
  let digits := match text with
    | '+' :: digits => digits
    | _ => text
  (parseDigits digits).filter (· < bound)

/-- `parse::<i64>`. -/
def parseInt64 : Text → Option ℤ
  | '-' :: digits =>
      ((parseDigits digits).filter (· ≤ 2 ^ 63)).map fun (n : ℕ) => -(n : ℤ)
  | '+' :: digits => ((parseDigits digits).filter (· < 2 ^ 63)).map Int.ofNat
  | text => ((parseDigits text).filter (· < 2 ^ 63)).map Int.ofNat

theorem isDigit_of_mem_formatNat {n : ℕ} {c : Char} (hc : c ∈ formatNat n) : c.isDigit :=
  Nat.isDigit_of_mem_toDigits (by omega) (by omega) hc

theorem not_mem_formatInt {c : Char} (hdigit : c.isDigit = false) (hminus : c ≠ '-') (i : ℤ) :
    c ∉ formatInt i := by
  have hnat (n : ℕ) : c ∉ formatNat n := fun hmem => by
    simp [isDigit_of_mem_formatNat hmem] at hdigit
  cases i with
  | ofNat n => exact hnat n
  | negSucc n => simpa [formatInt] using ⟨hminus, hnat (n + 1)⟩

theorem parseDigits_formatNat (n : ℕ) : parseDigits (formatNat n) = some n := by
  have hall : ∀ c ∈ Nat.toDigits 10 n, c.isDigit = true := fun c hc => isDigit_of_mem_formatNat hc
  simpa [parseDigits, formatNat, Nat.toDigits_ne_nil, Nat.ofDigitChars_ten_toDigits] using hall

/-- The first character of a number is no sign. -/
theorem parseInt64_formatNat (n : ℕ) :
    parseInt64 (formatNat n) = ((parseDigits (formatNat n)).filter (· < 2 ^ 63)).map Int.ofNat := by
  unfold parseInt64
  split
  · next digits heq =>
      have hdigit := isDigit_of_mem_formatNat (n := n) (c := '-') (by simp [heq])
      simp at hdigit
  · next digits heq =>
      have hdigit := isDigit_of_mem_formatNat (n := n) (c := '+') (by simp [heq])
      simp at hdigit
  · rfl

/-- A number of an unsigned type reads back. -/
theorem parseUnsigned_formatNat {bound n : ℕ} (hn : n < bound) :
    parseUnsigned bound (formatNat n) = some n := by
  have hplain : ∀ digits : Text, formatNat n ≠ '+' :: digits := by
    intro digits heq
    have hdigit := isDigit_of_mem_formatNat (heq ▸ List.mem_cons_self)
    contradiction
  rw [parseUnsigned, parseDigits_formatNat, Option.filter_some, if_pos (decide_eq_true hn)]
  exact hplain

theorem formatNat_injective : Function.Injective formatNat := by
  intro left right heq
  apply Option.some.inj
  rw [← parseDigits_formatNat left, heq, parseDigits_formatNat]

theorem formatInt_injective : Function.Injective formatInt := by
  have hminus {n : ℕ} {digits : Text} (heq : formatNat n = '-' :: digits) : False := by
    have hdigit := isDigit_of_mem_formatNat (heq ▸ List.mem_cons_self)
    contradiction
  intro left right heq
  cases left with
  | ofNat n =>
      cases right with
      | ofNat m => exact congrArg Int.ofNat (formatNat_injective heq)
      | negSucc m => exact (hminus heq).elim
  | negSucc n =>
      cases right with
      | ofNat m => exact (hminus heq.symm).elim
      | negSucc m =>
          have hsucc := formatNat_injective (List.cons.inj heq).2
          exact congrArg Int.negSucc (Nat.succ.inj hsucc)

/-- A 64-bit number reads back. -/
theorem parseInt64_formatInt {i : ℤ} (hlow : -2 ^ 63 ≤ i) (hhigh : i < 2 ^ 63) :
    parseInt64 (formatInt i) = some i := by
  cases i with
  | ofNat n =>
      have hbound : n < 2 ^ 63 := Int.ofNat_lt.mp hhigh
      rw [formatInt, parseInt64_formatNat, parseDigits_formatNat, Option.filter_some,
        if_pos (decide_eq_true hbound), Option.map_some]
  | negSucc n =>
      have hbound : n + 1 ≤ 2 ^ 63 := by omega
      rw [formatInt, parseInt64, parseDigits_formatNat, Option.filter_some,
        if_pos (decide_eq_true hbound), Option.map_some]
      rfl

/-- A number that reads back at all reads back as itself. -/
theorem eq_of_parseInt64_formatInt {i j : ℤ} (hparse : parseInt64 (formatInt i) = some j) :
    j = i := by
  cases i with
  | ofNat n =>
      simp only [formatInt, parseInt64_formatNat, parseDigits_formatNat, Option.map_eq_some_iff,
        Option.filter_eq_some_iff, Option.some.injEq] at hparse
      obtain ⟨m, ⟨rfl, -⟩, rfl⟩ := hparse
      rfl
  | negSucc n =>
      simp only [formatInt, parseInt64, parseDigits_formatNat, Option.map_eq_some_iff,
        Option.filter_eq_some_iff, Option.some.injEq] at hparse
      obtain ⟨m, ⟨rfl, -⟩, rfl⟩ := hparse
      rfl

theorem not_isWhitespace_of_mem_formatInt {c : Char} {i : ℤ} (hc : c ∈ formatInt i) :
    isWhitespace c = false := by
  rw [Bool.eq_false_iff]
  intro hspace
  simp only [isWhitespace, Bool.or_eq_true, Bool.and_eq_true, decide_eq_true_eq,
    beq_iff_eq] at hspace
  have hdigit : c.isDigit = false := by
    rw [Bool.eq_false_iff]
    intro hdigit
    simp only [Char.isDigit, Bool.and_eq_true, decide_eq_true_eq, UInt32.le_iff_toNat_le,
      ge_iff_le] at hdigit
    have hval : c.toNat = c.val.toNat := rfl
    change 48 ≤ c.val.toNat ∧ c.val.toNat ≤ 57 at hdigit
    omega
  have hminus : c ≠ '-' := by
    rintro rfl
    revert hspace
    decide
  exact not_mem_formatInt hdigit hminus i hc

theorem formatInt_ne_nil (i : ℤ) : formatInt i ≠ [] := by
  cases i with
  | ofNat n => exact Nat.toDigits_ne_nil
  | negSucc n => exact List.cons_ne_nil _ _

theorem trim_formatInt (i : ℤ) : (formatInt i).trim = formatInt i :=
  Core.trim_eq_self (fun _ hc => not_isWhitespace_of_mem_formatInt (List.mem_of_head? hc))
    fun _ hc => not_isWhitespace_of_mem_formatInt (List.mem_of_getLast? hc)

theorem trim_formatNat (n : ℕ) : (formatNat n).trim = formatNat n := trim_formatInt (.ofNat n)

/-- `{:0width}`: zeros before a number, to so many digits. -/
def padded (width n : ℕ) : Text := (formatNat n).leftpad width '0'

section Padded

variable {width n m : ℕ}

theorem length_padded (hwidth : 0 < width) (hn : n < 10 ^ width) :
    (padded width n).length = width := by
  have hlength : (formatNat n).length ≤ width :=
    (Nat.length_toDigits_le_iff (by norm_num) hwidth).mpr hn
  rw [padded, List.leftpad, List.length_append, List.length_replicate]
  omega

theorem isDigit_of_mem_padded {c : Char} (hc : c ∈ padded width n) : c.isDigit := by
  rcases List.mem_append.mp hc with hzero | hdigit
  · rw [List.eq_of_mem_replicate hzero]
    rfl
  · exact isDigit_of_mem_formatNat hdigit

theorem ofDigitChars_padded (width n : ℕ) : Nat.ofDigitChars 10 (padded width n) 0 = n := by
  rw [padded, List.leftpad, Nat.ofDigitChars_append, Nat.ofDigitChars_replicate_zero, mul_zero]
  exact Nat.ofDigitChars_ten_toDigits

theorem toNat_of_isDigit {c : Char} (hc : c.isDigit) : 48 ≤ c.toNat ∧ c.toNat ≤ 57 := by
  simp only [Char.isDigit, Bool.and_eq_true, decide_eq_true_eq, UInt32.le_iff_toNat_le,
    ge_iff_le] at hc
  exact hc

theorem ofDigitChars_lt {digits : Text} (hdigits : ∀ c ∈ digits, c.isDigit) :
    Nat.ofDigitChars 10 digits 0 < 10 ^ digits.length := by
  induction digits with
  | nil => simp
  | cons c digits ih =>
      have hc : c.toNat - '0'.toNat < 10 := by
        have hdigit := toNat_of_isDigit (hdigits c List.mem_cons_self)
        change c.toNat - 48 < 10
        omega
      have hrest := ih fun d hd => hdigits d (List.mem_cons_of_mem c hd)
      rw [Nat.ofDigitChars_cons, Nat.ofDigitChars_eq_ofDigitChars_zero, mul_zero, zero_add,
        List.length_cons, pow_succ]
      calc 10 ^ digits.length * (c.toNat - '0'.toNat) + Nat.ofDigitChars 10 digits 0
          < 10 ^ digits.length * (c.toNat - '0'.toNat) + 10 ^ digits.length :=
            Nat.add_lt_add_left hrest _
        _ = 10 ^ digits.length * (c.toNat - '0'.toNat + 1) := by rw [Nat.mul_succ]
        _ ≤ 10 ^ digits.length * 10 := Nat.mul_le_mul_left _ hc

/-- Numbers of two places are in the order of their first place, and then of their
second. -/
theorem place_lt_place_iff {base high high' low low' : ℕ} (hlow : low < base)
    (hlow' : low' < base) :
    base * high + low < base * high' + low' ↔ high < high' ∨ high = high' ∧ low < low' := by
  rcases lt_trichotomy high high' with hlt | rfl | hgt
  · have hle : base * (high + 1) ≤ base * high' := Nat.mul_le_mul_left base hlt
    rw [Nat.mul_succ] at hle
    simp only [hlt, true_or, iff_true]
    omega
  · simp
  · have hle : base * (high' + 1) ≤ base * high := Nat.mul_le_mul_left base hgt
    rw [Nat.mul_succ] at hle
    have hnot : ¬ high < high' := not_lt.mpr hgt.le
    simp only [hnot, hgt.ne', false_and, or_self, iff_false]
    omega

/-- Numerals of one width are in the order of their numbers. -/
theorem digits_lt_iff {left right : Text} (hlength : left.length = right.length)
    (hleft : ∀ c ∈ left, c.isDigit) (hright : ∀ c ∈ right, c.isDigit) :
    left < right ↔ Nat.ofDigitChars 10 left 0 < Nat.ofDigitChars 10 right 0 := by
  induction left generalizing right with
  | nil =>
      obtain rfl := List.eq_nil_of_length_eq_zero hlength.symm
      simp
  | cons c left ih =>
      cases right with
      | nil => contradiction
      | cons d right =>
          have hrest : left.length = right.length := Nat.succ.inj hlength
          have hleft' := fun e he => hleft e (List.mem_cons_of_mem c he)
          have hright' := fun e he => hright e (List.mem_cons_of_mem d he)
          have hlow := ofDigitChars_lt hleft'
          have hlow' := hrest ▸ ofDigitChars_lt hright'
          have hchar : c < d ↔ c.toNat - '0'.toNat < d.toNat - '0'.toNat := by
            have hc := toNat_of_isDigit (hleft c List.mem_cons_self)
            have hd := toNat_of_isDigit (hright d List.mem_cons_self)
            rw [Char.lt_def, UInt32.lt_iff_toNat_lt]
            change c.toNat < d.toNat ↔ c.toNat - 48 < d.toNat - 48
            omega
          have heq : c = d ↔ c.toNat - '0'.toNat = d.toNat - '0'.toNat := by
            have hc := toNat_of_isDigit (hleft c List.mem_cons_self)
            have hd := toNat_of_isDigit (hright d List.mem_cons_self)
            rw [← Char.toNat_inj]
            change c.toNat = d.toNat ↔ c.toNat - 48 = d.toNat - 48
            omega
          simp only [Nat.ofDigitChars_cons, mul_zero, zero_add]
          rw [List.cons_lt_cons_iff, Nat.ofDigitChars_eq_ofDigitChars_zero,
            Nat.ofDigitChars_eq_ofDigitChars_zero (l := right), ← hrest,
            place_lt_place_iff hlow hlow', hchar, heq, ih hrest hleft' hright']

theorem append_lt_append_iff {front front' back back' : Text}
    (hlength : front.length = front'.length) :
    front ++ back < front' ++ back' ↔ front < front' ∨ front = front' ∧ back < back' := by
  induction front generalizing front' with
  | nil =>
      obtain rfl := List.eq_nil_of_length_eq_zero hlength.symm
      simp
  | cons c front ih =>
      cases front' with
      | nil => contradiction
      | cons d front' =>
          rw [List.cons_append, List.cons_append, List.cons_lt_cons_iff, List.cons_lt_cons_iff,
            ih (Nat.succ.inj hlength), List.cons.injEq]
          tauto

theorem append_lt_append_left_iff (front : Text) {back back' : Text} :
    front ++ back < front ++ back' ↔ back < back' := by
  rw [append_lt_append_iff rfl, or_iff_right (lt_irrefl front), and_iff_right rfl]

theorem padded_lt_padded_iff (hwidth : 0 < width) (hn : n < 10 ^ width) (hm : m < 10 ^ width) :
    padded width n < padded width m ↔ n < m := by
  rw [digits_lt_iff ((length_padded hwidth hn).trans (length_padded hwidth hm).symm)
    (fun _ => isDigit_of_mem_padded) (fun _ => isDigit_of_mem_padded), ofDigitChars_padded,
    ofDigitChars_padded]

theorem padded_inj : padded width n = padded width m ↔ n = m := by
  refine ⟨fun heq => ?_, congrArg _⟩
  rw [← ofDigitChars_padded width n, heq, ofDigitChars_padded]

theorem parseDigits_of_digits {digits : Text} (hne : digits ≠ [])
    (hdigits : ∀ c ∈ digits, c.isDigit) :
    parseDigits digits = some (Nat.ofDigitChars 10 digits 0) :=
  if_pos ⟨hne, List.all_eq_true.mpr hdigits⟩

theorem parseDigits_padded (width n : ℕ) : parseDigits (padded width n) = some n := by
  rw [parseDigits_of_digits _ fun _ => isDigit_of_mem_padded, ofDigitChars_padded]
  exact List.append_ne_nil_of_right_ne_nil _ Nat.toDigits_ne_nil

/-- A numeral is its number with zeros before it. -/
theorem padded_ofDigitChars {digits : Text} (hne : digits ≠ [])
    (hdigits : ∀ c ∈ digits, c.isDigit) :
    padded digits.length (Nat.ofDigitChars 10 digits 0) = digits := by
  have hlength := length_padded (List.length_pos_iff.mpr hne) (ofDigitChars_lt hdigits)
  have hpadded : ∀ c ∈ padded digits.length (Nat.ofDigitChars 10 digits 0), c.isDigit :=
    fun _ => isDigit_of_mem_padded
  apply le_antisymm
  · rw [← not_lt, digits_lt_iff hlength.symm hdigits hpadded, ofDigitChars_padded]
    exact lt_irrefl _
  · rw [← not_lt, digits_lt_iff hlength hpadded hdigits, ofDigitChars_padded]
    exact lt_irrefl _

end Padded

end EasyWaf.Text
