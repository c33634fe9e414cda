import EasyWaf.Modules.Normalised

/-!
# Which decoded forms are read normalised

A decoded form that begins with a dot segment, and holds nothing else the gate
looks for, is not read normalised; every other form with something to normalise
is.
-/

namespace EasyWaf.Modules.ZoneText

open Http Decoders Paths EasyWaf.Core

section Kinds

/-- An ASCII character. -/
def isAscii (c : Char) : Bool := 0 < c.toNat && c.toNat < 0x80

/-- An ASCII character that no escape of a URL has in it, `u` apart. -/
def isLasting (c : Char) : Bool :=
  isAscii c && c != '%' && !isHexDigit (UInt8.ofNat c.toNat)

/-- A digit of an escape. -/
def isDigit (c : Char) : Bool := isAscii c && isHexDigit (UInt8.ofNat c.toNat)

theorem isAscii_iff {c : Char} : isAscii c = true ↔ 0 < c.toNat ∧ c.toNat < 0x80 := by
  simp [isAscii]

theorem ascii_of_isLasting (c : Char) (hc : isLasting c = true) :
    0 < c.toNat ∧ c.toNat < 0x80 := by
  simp only [isLasting, Bool.and_eq_true] at hc
  exact isAscii_iff.mp hc.1.1

theorem ascii_of_isDigit (c : Char) (hc : isDigit c = true) : 0 < c.toNat ∧ c.toNat < 0x80 := by
  simp only [isDigit, Bool.and_eq_true] at hc
  exact isAscii_iff.mp hc.1

theorem isDigit_ofNat (byte : UInt8) : isDigit (Char.ofNat byte.toNat) = isHexDigit byte := by
  revert byte
  decide +kernel

theorem isLasting_of_lowered (letter : UInt8) (hletter : lowered letter = 0x75) :
    isLasting (Char.ofNat letter.toNat) = true ∧ isAscii (Char.ofNat letter.toNat) = true := by
  rcases (lowered_eq_iff letter).mp hletter with rfl | rfl <;> decide

theorem not_isLasting_of_isHexDigit (digit : UInt8) (hdigit : isHexDigit digit = true) :
    isLasting (Char.ofNat digit.toNat) = false := by
  revert digit
  decide +kernel

end Kinds

section Decoded

variable (base : Text)

theorem countP_percentDecode_le :
    (percentDecode base).countP isAscii ≤ base.countP isAscii := by
  have hbase := Text.countP_fromUtf8Lossy (fun c => isAscii_iff.mp) base.bytes
  rw [Text.fromUtf8Lossy_bytes] at hbase
  rw [percentDecode, Text.countP_fromUtf8Lossy (fun c => isAscii_iff.mp), hbase,
    decodeBinary_eq_unescape]
  exact countP_unescape_le (by decide) length_le_of_byteEscape base.bytes

theorem countP_urlDecodeUni_le :
    (urlDecodeUni base).countP isAscii ≤ base.countP isAscii := by
  have hbase := Text.countP_fromUtf8Lossy (fun c => isAscii_iff.mp) base.bytes
  rw [Text.fromUtf8Lossy_bytes] at hbase
  rw [urlDecodeUni, Text.countP_fromUtf8Lossy (fun c => isAscii_iff.mp), hbase, decodeUni]
  exact countP_unescape_le (by decide) length_le_of_uniEscape base.bytes

theorem lasting_urlDecodeUni_le :
    (urlDecodeUni base).countP isLasting ≤ (percentDecode base).countP isLasting := by
  rw [urlDecodeUni, percentDecode, Text.countP_fromUtf8Lossy ascii_of_isLasting,
    Text.countP_fromUtf8Lossy ascii_of_isLasting]
  exact (alike_decoded base.bytes).countP_le fun letter hletter =>
    (isLasting_of_lowered letter hletter).1

theorem lasting_le_percentDecode : base.countP isLasting ≤ (percentDecode base).countP isLasting := by
  have hbase := Text.countP_fromUtf8Lossy ascii_of_isLasting base.bytes
  rw [Text.fromUtf8Lossy_bytes] at hbase
  rw [percentDecode, Text.countP_fromUtf8Lossy ascii_of_isLasting, hbase]
  exact countP_le_decodeBinary (by decide) not_isLasting_of_isHexDigit base.bytes

theorem eq_or_digits_lt : urlDecodeUni base = percentDecode base ∨
    (urlDecodeUni base).countP isDigit < (percentDecode base).countP isDigit := by
  rw [urlDecodeUni, percentDecode, Text.countP_fromUtf8Lossy ascii_of_isDigit,
    Text.countP_fromUtf8Lossy ascii_of_isDigit]
  have hdigit : (fun byte : UInt8 => isDigit (Char.ofNat byte.toNat)) = isHexDigit := by
    funext byte
    exact isDigit_ofNat byte
  rw [hdigit]
  exact (alike_decoded base.bytes).eq_or_countP_lt.imp_left (congrArg _)

variable {base}

theorem head?_urlDecodeUni (hhead : (percentDecode base).head? = some '.') :
    (urlDecodeUni base).head? = some '.' := by
  rw [percentDecode, Text.head?_fromUtf8Lossy_iff (by decide)] at hhead
  rw [urlDecodeUni, Text.head?_fromUtf8Lossy_iff (by decide)]
  exact (alike_decoded base.bytes).head?_eq (by decide) hhead

theorem readNormalised_iff {decoded : Text} : readNormalised decoded = true ↔
    '\\' ∈ decoded ∨ ['/', '/'] <:+: decoded ∨ ['/', '.'] <:+: decoded := by
  rw [readNormalised, hasPath, Bool.or_eq_true, Bool.or_eq_true, Text.hasInfix_iff,
    Text.hasInfix_iff, List.contains_iff_mem]

/-- What the gate looks for in the one decoding is in the other. -/
theorem readNormalised_urlDecodeUni (hread : readNormalised (percentDecode base) = true) :
    readNormalised (urlDecodeUni base) = true := by
  have halike := alike_decoded base.bytes
  have hslash : Alike.Outside 47 := ⟨by decide, by decide, by decide⟩
  have hdot : Alike.Outside 46 := ⟨by decide, by decide, by decide⟩
  rw [readNormalised_iff, percentDecode, Text.mem_fromUtf8Lossy_iff (by decide),
    Text.infix_fromUtf8Lossy_iff (by decide) (by decide),
    Text.infix_fromUtf8Lossy_iff (by decide) (by decide)] at hread
  rw [readNormalised_iff, urlDecodeUni, Text.mem_fromUtf8Lossy_iff (by decide),
    Text.infix_fromUtf8Lossy_iff (by decide) (by decide),
    Text.infix_fromUtf8Lossy_iff (by decide) (by decide)]
  rcases hread with hbackslash | hcontained | hcontained
  · exact Or.inl (halike.mem_of_mem ⟨by decide, by decide, by decide⟩ hbackslash)
  · exact Or.inr (Or.inl (halike.infix_of_infix hslash hslash hcontained))
  · exact Or.inr (Or.inr (halike.infix_of_infix hslash hdot hcontained))

theorem countP_plusSubstituted (raw : Text) (plusIsSpace : Bool) :
    (plusSubstituted raw plusIsSpace).countP isAscii = raw.countP isAscii := by
  rw [plusSubstituted]
  split
  · rw [replaceChar, List.countP_map]
    apply List.countP_congr
    intro c hc
    simp only [Function.comp_apply]
    split
    · rename_i hplus
      subst hplus
      decide
    · rfl
  · rfl

end Decoded

section Chains

variable {text : Text}

theorem head?_decodeEscapes {marker : Char} {escape : Escape UInt8}
    (hmarker : UInt8.ofNat marker.toNat ≠ 46) (hhead : text.head? = some '.') :
    (decodeEscapes marker escape text).head? = some '.' := by
  obtain ⟨rest, rfl⟩ := List.head?_eq_some_iff.mp hhead
  rw [decodeEscapes]
  split
  · have hbytes : Text.bytes ('.' :: rest) = 46 :: Text.bytes rest := rfl
    rw [hbytes, unescape_cons_of_ne hmarker.symm]
    exact (Text.head?_fromUtf8Lossy_iff (by decide)).mpr rfl
  · exact hhead

theorem head?_scriptChain (hhead : text.head? = some '.') : (scriptChain text).head? = some '.' := by
  have hdecoded : (cssDecode (jsDecode (htmlEntityDecode text))).head? = some '.' :=
    head?_decodeEscapes (by decide) (head?_decodeEscapes (by decide)
      (head?_decodeEscapes (by decide) hhead))
  obtain ⟨rest, hrest⟩ := List.head?_eq_some_iff.mp hdecoded
  rw [scriptChain, hrest]
  rfl

theorem head?_lookupChain (hhead : text.head? = some '.') : (lookupChain text).head? = some '.' :=
  head?_decodeEscapes (by decide) (head?_decodeEscapes (by decide) hhead)

end Chains

section Forms

variable {raw : Text} {plusIsSpace : Bool}

theorem mem_ungated_iff {form : Text} :
    form ∈ ungated raw plusIsSpace ↔
      let base := plusSubstituted raw plusIsSpace
      (form = base ∨ form = percentDecode base ∨ form = percentDecode (percentDecode base) ∨
        form = urlDecodeUni base) ∨
      (∃ decoded ∈ [percentDecode base, urlDecodeUni base],
        readNormalised decoded = true ∧ normalizePathWin decoded = form) ∨
      form = scriptChain (urlDecodeUni base) ∨ form = lookupChain (urlDecodeUni base) := by
  simp only [ungated, List.mem_append, List.mem_map, List.mem_filter, List.mem_cons,
    List.not_mem_nil, or_false, and_assoc]

/-- A form that has fewer ASCII characters than the text it is of is neither that
text nor the text as it arrived. -/
theorem ne_base_of_lt {form decoded : Text} (hform : form.countP isAscii < decoded.countP isAscii)
    (hdecoded : decoded.countP isAscii ≤ (plusSubstituted raw plusIsSpace).countP isAscii) :
    form ≠ raw ∧ form ≠ plusSubstituted raw plusIsSpace := by
  constructor
  · rintro rfl
    rw [countP_plusSubstituted] at hdecoded
    omega
  · rintro rfl
    omega

theorem not_mem_of_dotFirst_uni
    (hfirst : DotFirst (urlDecodeUni (plusSubstituted raw plusIsSpace))) :
    normalizePathWin (urlDecodeUni (plusSubstituted raw plusIsSpace)) ∉
      zoneText raw plusIsSpace := by
  have huni := lasting_urlDecodeUni_le (plusSubstituted raw plusIsSpace)
  have hungated : readNormalised (percentDecode (plusSubstituted raw plusIsSpace)) = false := by
    rw [Bool.eq_false_iff]
    intro hread
    have hboth := readNormalised_urlDecodeUni hread
    rw [hfirst.ungated] at hboth
    contradiction
  have hascii := ne_base_of_lt (hfirst.countP_lt (by decide) (by decide))
    (countP_urlDecodeUni_le (plusSubstituted raw plusIsSpace))
  have hlasting := hfirst.countP_lt (p := isLasting) (by decide) (by decide)
  have hhead := hfirst.head?_normalizePathWin
  rw [mem_zoneText_iff, mem_ungated_iff]
  rintro (hraw | (hbase | honce | htwice | huni') | ⟨decoded, hdecoded, hread, -⟩ | hscript | hlookup)
  · exact hascii.1 hraw
  · exact hascii.2 hbase
  · rw [honce] at hlasting
    omega
  · have hagain := lasting_le_percentDecode (percentDecode (plusSubstituted raw plusIsSpace))
    rw [htwice] at hlasting
    omega
  · rw [huni'] at hlasting
    omega
  · simp only [List.mem_cons, List.not_mem_nil, or_false] at hdecoded
    rcases hdecoded with rfl | rfl
    · rw [hungated] at hread
      contradiction
    · rw [hfirst.ungated] at hread
      contradiction
  · exact hhead (hscript ▸ head?_scriptChain hfirst.head?_eq)
  · exact hhead (hlookup ▸ head?_lookupChain hfirst.head?_eq)

theorem not_mem_of_dotFirst_once
    (hfirst : DotFirst (percentDecode (plusSubstituted raw plusIsSpace))) :
    normalizePathWin (percentDecode (plusSubstituted raw plusIsSpace)) ∉
      zoneText raw plusIsSpace := by
  have hascii := ne_base_of_lt (hfirst.countP_lt (by decide) (by decide))
    (countP_percentDecode_le (plusSubstituted raw plusIsSpace))
  have hlasting := hfirst.countP_lt (p := isLasting) (by decide) (by decide)
  have huni := head?_urlDecodeUni hfirst.head?_eq
  have hhead := hfirst.head?_normalizePathWin
  rw [mem_zoneText_iff, mem_ungated_iff]
  rintro (hraw | (hbase | honce | htwice | huni') | ⟨decoded, hdecoded, hread, heq⟩ | hscript | hlookup)
  · exact hascii.1 hraw
  · exact hascii.2 hbase
  · rw [honce] at hlasting
    omega
  · have hagain := lasting_le_percentDecode (percentDecode (plusSubstituted raw plusIsSpace))
    rw [htwice] at hlasting
    omega
  · exact hhead (huni' ▸ huni)
  · simp only [List.mem_cons, List.not_mem_nil, or_false] at hdecoded
    rcases hdecoded with rfl | rfl
    · rw [hfirst.ungated] at hread
      contradiction
    · -- the other decoding, normalised, has fewer digits
      have hdigits := hfirst.countP_eq (p := isDigit) (by decide) (by decide)
      have hle := countP_normalizePathWin_le (p := isDigit) (by decide)
        (urlDecodeUni (plusSubstituted raw plusIsSpace))
      rw [heq] at hle
      rcases eq_or_digits_lt (plusSubstituted raw plusIsSpace) with hsame | hlt
      · rw [hsame, hfirst.ungated] at hread
        contradiction
      · omega
  · exact hhead (hscript ▸ head?_scriptChain huni)
  · exact hhead (hlookup ▸ head?_lookupChain huni)

end Forms

/-- What is read normalised, where it is not as short as it may be. -/
def NormalisedToo (raw : Text) (plusIsSpace : Bool) (decoded : Text) : Prop :=
  normalizePathWin decoded ≠ decoded → normalizePathWin decoded ∈ zoneText raw plusIsSpace

/-- Both decoded forms are read normalised exactly when neither begins with a dot
segment with nothing else for the gate to see. -/
theorem normalised_too_iff (raw : Text) (plusIsSpace : Bool) :
    let base := plusSubstituted raw plusIsSpace
    (NormalisedToo raw plusIsSpace (percentDecode base) ∧
        NormalisedToo raw plusIsSpace (urlDecodeUni base)) ↔
      ¬ DotFirst (percentDecode base) ∧ ¬ DotFirst (urlDecodeUni base) := by
  intro base
  have hchanges {decoded : Text} (hfirst : DotFirst decoded) : normalizePathWin decoded ≠ decoded :=
    fun heq => hfirst.head?_normalizePathWin (by rw [heq]; exact hfirst.head?_eq)
  have hread (decoded : Text) (hdecoded : decoded ∈ [percentDecode base, urlDecodeUni base])
      (hfirst : ¬ DotFirst decoded) : NormalisedToo raw plusIsSpace decoded := by
    intro hne
    rw [mem_zoneText_iff, mem_ungated_iff]
    by_cases hgate : readNormalised decoded = true
    · exact Or.inr (Or.inr (Or.inl ⟨decoded, hdecoded, hgate, rfl⟩))
    · exact absurd (normalizePathWin_eq_self (by simpa using hgate) hfirst) hne
  constructor
  · rintro ⟨honce, huni⟩
    exact ⟨fun hfirst => not_mem_of_dotFirst_once hfirst (honce (hchanges hfirst)),
      fun hfirst => not_mem_of_dotFirst_uni hfirst (huni (hchanges hfirst))⟩
  · rintro ⟨honce, huni⟩
    exact ⟨hread _ (by simp) honce, hread _ (by simp) huni⟩

/-- `./etc/passwd` is not read as `etc/passwd`. -/
theorem dot_first_is_not_normalised :
    ¬ ∀ (raw : Text) (plusIsSpace : Bool),
      NormalisedToo raw plusIsSpace (percentDecode (plusSubstituted raw plusIsSpace)) ∧
        NormalisedToo raw plusIsSpace (urlDecodeUni (plusSubstituted raw plusIsSpace)) := by
  intro hevery
  have honce : percentDecode (plusSubstituted "./etc/passwd".toList false) =
      "./etc/passwd".toList := percentDecode_of_not_mem (by decide)
  have hforms : zoneText "./etc/passwd".toList false = ["./etc/passwd".toList] := by decide +kernel
  have hnormal := (hevery "./etc/passwd".toList false).1
  rw [NormalisedToo, honce, hforms] at hnormal
  exact absurd (hnormal (by decide +kernel)) (by decide +kernel)

end EasyWaf.Modules.ZoneText
