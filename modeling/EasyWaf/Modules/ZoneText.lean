import EasyWaf.Modules.Decoders

/-!
# The forms a part of a request is read in

The text as it arrived, and what its escapes stand for.
-/

namespace EasyWaf.Modules.ZoneText

open Http Decoders Paths EasyWaf.Core

/-- A text with one character for another. -/
def replaceChar (old new : Char) (text : Text) : Text := text.map fun c => if c = old then new else c

section Normalising

/-- The segments kept before one, and what is kept after it. -/
def keepSegment (absolute : Bool) (kept : List Text) (segment : Text) : List Text :=
  if segment = [] ∨ segment = ['.'] then kept
  else if segment = ['.', '.'] then
    if kept.getLast?.any (· != ['.', '.']) then kept.dropLast
    else if absolute then kept
    else kept ++ [segment]
  else kept ++ [segment]

/-- `normalize_path`. -/
def normalizePath (text : Text) : Text :=
  let absolute := text.head? == some '/'
  let trailing := text.getLast? == some '/' || ['/', '.'].isSuffixOf text ||
    ['/', '.', '.'].isSuffixOf text
  let joined := Text.join ['/'] ((text.splitOn '/').foldl (keepSegment absolute) [])
  let out := if absolute then '/' :: joined else joined
  if trailing && out.getLast? != some '/' then out ++ ['/'] else out

/-- `normalize_path_win`. -/
def normalizePathWin (text : Text) : Text := normalizePath (replaceChar '\\' '/' text)

end Normalising

/-- `push_unique`. -/
def pushUnique (forms : List Text) (form : Text) : List Text :=
  if forms.contains form then forms else forms ++ [form]

/-- The bytes the transformation chains act on. -/
def isEscape (byte : UInt8) : Bool := byte == 38 || byte == 92 || byte == 0

/-- The chain of the sets against scripts. -/
def scriptChain (text : Text) : Text := removeNulls (cssDecode (jsDecode (htmlEntityDecode text)))

/-- The chain of the sets against lookups in log messages. -/
def lookupChain (text : Text) : Text := htmlEntityDecode (jsDecode text)

/-- Whether a text has a path in it that is not as short as it may be. -/
def hasPath (text : Text) : Bool := Text.hasInfix ['/', '/'] text || Text.hasInfix ['/', '.'] text

/-- Whether a decoded form is read normalised too. -/
def readNormalised (decoded : Text) : Bool := decoded.contains '\\' || hasPath decoded

/-- `zone_text`. -/
def zoneText (raw : Text) (plusIsSpace : Bool) : List Text :=
  let hasPct := raw.contains '%'
  let hasPlus := plusIsSpace && raw.contains '+'
  let hasEsc := raw.bytes.any isEscape
  if !hasPct && !hasPlus && !hasEsc && !hasPath raw then [raw]
  else
    let base := if hasPlus then replaceChar '+' ' ' raw else raw
    let once := percentDecode base
    let uni :=
      if hasPct && Text.hasInfix ['%', 'u'] base.toAsciiLowercase then urlDecodeUni base else once
    let forms := [base, once, percentDecode once, uni].foldl pushUnique [raw]
    let forms := [once, uni].foldl
      (fun forms decoded =>
        if readNormalised decoded then pushUnique forms (normalizePathWin decoded) else forms) forms
    if uni.bytes.any isEscape then [scriptChain uni, lookupChain uni].foldl pushUnique forms
    else forms

section Identities

variable {text : Text}

/-- A text none of whose bytes is one the chains act on. -/
structure Plain (text : Text) : Prop where
  ampersand : '&' ∉ text
  backslash : '\\' ∉ text
  null : Char.ofNat 0 ∉ text

theorem plain_of_not_any (hany : text.bytes.any isEscape = false) : Plain text := by
  have hnone : ∀ byte ∈ text.bytes, isEscape byte = false := by simpa using hany
  have hchar : ∀ c : Char, c.toNat < 0x80 → isEscape (UInt8.ofNat c.toNat) = true → c ∉ text := by
    intro c hascii hescape hc
    rw [hnone _ (Text.mem_bytes_of_mem hascii hc)] at hescape
    contradiction
  exact ⟨hchar '&' (by decide) (by decide), hchar '\\' (by decide) (by decide),
    hchar (Char.ofNat 0) (by decide) (by decide)⟩

theorem Plain.scriptChain_eq (hplain : Plain text) : scriptChain text = text := by
  rw [scriptChain, htmlEntityDecode, decodeEscapes_of_not_mem hplain.ampersand, jsDecode,
    decodeEscapes_of_not_mem hplain.backslash, cssDecode, decodeEscapes_of_not_mem hplain.backslash,
    removeNulls]
  apply List.filter_eq_self.mpr
  intro c hc
  exact bne_iff_ne.mpr (ne_of_mem_of_not_mem hc hplain.null)

theorem Plain.lookupChain_eq (hplain : Plain text) : lookupChain text = text := by
  rw [lookupChain, jsDecode, decodeEscapes_of_not_mem hplain.backslash, htmlEntityDecode,
    decodeEscapes_of_not_mem hplain.ampersand]

theorem replaceChar_of_not_mem {old new : Char} (hold : old ∉ text) :
    replaceChar old new text = text := by
  rw [replaceChar]
  apply (List.map_congr_left fun c hc => _).trans (List.map_id text)
  intro c hc
  exact if_neg (ne_of_mem_of_not_mem hc hold)

end Identities

section Pushing

variable {forms items : List Text}

theorem mem_pushUnique {form other : Text} :
    other ∈ pushUnique forms form ↔ other ∈ forms ∨ other = form := by
  rw [pushUnique]
  split
  · rename_i hcontains
    have hmem : form ∈ forms := List.contains_iff_mem.mp hcontains
    exact ⟨Or.inl, Or.rec id fun h => h ▸ hmem⟩
  · rw [List.mem_append, List.mem_singleton]

theorem mem_foldl_pushUnique {form : Text} :
    form ∈ items.foldl pushUnique forms ↔ form ∈ forms ∨ form ∈ items := by
  induction items generalizing forms with
  | nil => simp
  | cons first rest ih => rw [List.foldl_cons, ih, mem_pushUnique, List.mem_cons, or_assoc]

theorem nodup_foldl_pushUnique (hforms : forms.Nodup) :
    (items.foldl pushUnique forms).Nodup := by
  induction items generalizing forms with
  | nil => exact hforms
  | cons first rest ih =>
      apply ih
      rw [pushUnique]
      split
      · exact hforms
      · rename_i hcontains
        have hnot : first ∉ forms := fun h => hcontains (List.contains_iff_mem.mpr h)
        exact List.nodup_append.mpr
          ⟨hforms, List.nodup_singleton first, by
            intro form hform other hother
            exact List.mem_singleton.mp hother ▸ ne_of_mem_of_not_mem hform hnot⟩

theorem head?_foldl_pushUnique {form : Text} (hforms : forms.head? = some form) :
    (items.foldl pushUnique forms).head? = some form := by
  induction items generalizing forms with
  | nil => exact hforms
  | cons first rest ih =>
      apply ih
      rw [pushUnique]
      split
      · exact hforms
      · rw [List.head?_append, hforms, Option.some_or]

/-- Adding what some decoded texts make is adding a list. -/
theorem foldl_pushUnique_filter (holds : Text → Bool) (form : Text → Text) :
    items.foldl (fun forms decoded => if holds decoded then pushUnique forms (form decoded) else forms)
        forms =
      ((items.filter holds).map form).foldl pushUnique forms := by
  induction items generalizing forms with
  | nil => rfl
  | cons first rest ih =>
      rw [List.foldl_cons, ih, List.filter_cons]
      split <;> rfl

end Pushing

/-- The text with `+` read as a space, where it is one. -/
def plusSubstituted (raw : Text) (plusIsSpace : Bool) : Text :=
  if plusIsSpace then replaceChar '+' ' ' raw else raw

/-- The forms of a text when none is left out for being one it has already. -/
def ungated (raw : Text) (plusIsSpace : Bool) : List Text :=
  let base := plusSubstituted raw plusIsSpace
  let once := percentDecode base
  let uni := urlDecodeUni base
  [base, once, percentDecode once, uni] ++
    (([once, uni].filter readNormalised).map normalizePathWin ++ [scriptChain uni, lookupChain uni])

section Gates

variable {raw : Text} {plusIsSpace : Bool}

theorem base_eq (raw : Text) (plusIsSpace : Bool) :
    (if (plusIsSpace && raw.contains '+') = true then replaceChar '+' ' ' raw else raw) =
      plusSubstituted raw plusIsSpace := by
  cases plusIsSpace with
  | false => rfl
  | true =>
      rw [plusSubstituted, if_pos rfl, Bool.true_and]
      split
      · rfl
      · rename_i hplus
        rw [replaceChar_of_not_mem (by simpa using hplus)]

theorem percent_mem_plusSubstituted :
    '%' ∈ plusSubstituted raw plusIsSpace ↔ '%' ∈ raw := by
  rw [plusSubstituted]
  split
  · rw [replaceChar, List.mem_map]
    constructor
    · rintro ⟨c, hc, hnew⟩
      split at hnew
      · exact absurd hnew (by decide)
      · exact hnew ▸ hc
    · intro hraw
      exact ⟨'%', hraw, if_neg (by decide)⟩
  · rfl

theorem uni_eq (raw : Text) (plusIsSpace : Bool) :
    (if (raw.contains '%' &&
        Text.hasInfix ['%', 'u'] (plusSubstituted raw plusIsSpace).toAsciiLowercase) = true
      then urlDecodeUni (plusSubstituted raw plusIsSpace)
      else percentDecode (plusSubstituted raw plusIsSpace)) =
      urlDecodeUni (plusSubstituted raw plusIsSpace) := by
  split
  · rfl
  · rename_i hgate
    by_cases hpercent : '%' ∈ raw
    · have hcontained : Text.hasInfix ['%', 'u'] (plusSubstituted raw plusIsSpace).toAsciiLowercase =
          false := by simpa [hpercent] using hgate
      exact (urlDecodeUni_eq_percentDecode hcontained).symm
    · have hbase : '%' ∉ plusSubstituted raw plusIsSpace :=
        percent_mem_plusSubstituted.not.mpr hpercent
      rw [percentDecode_of_not_mem hbase, urlDecodeUni_of_not_mem hbase]

/-- A text the first scan finds nothing in is its only form. -/
theorem mem_ungated_of_plain (hpercent : '%' ∉ raw) (hplus : plusIsSpace = true → '+' ∉ raw)
    (hplain : Plain raw) (hpath : hasPath raw = false) (form : Text) :
    form ∈ ungated raw plusIsSpace ↔ form = raw := by
  have hbase : plusSubstituted raw plusIsSpace = raw := by
    rw [plusSubstituted]
    split
    · rename_i hflag
      exact replaceChar_of_not_mem (hplus hflag)
    · rfl
  have hread : readNormalised raw = false := by simp [readNormalised, hpath, hplain.backslash]
  simp [ungated, hbase, percentDecode_of_not_mem hpercent, urlDecodeUni_of_not_mem hpercent,
    hplain.scriptChain_eq, hplain.lookupChain_eq, hread]

/-- The gates change nothing: the forms are those of the definition without them,
after the text as it arrived. -/
theorem exists_zoneText_eq (raw : Text) (plusIsSpace : Bool) :
    ∃ items : List Text, zoneText raw plusIsSpace = items.foldl pushUnique [raw] ∧
      ∀ form, form = raw ∨ form ∈ items ↔ form = raw ∨ form ∈ ungated raw plusIsSpace := by
  simp only [zoneText, base_eq, uni_eq, foldl_pushUnique_filter]
  split
  · rename_i hscan
    simp only [Bool.and_eq_true, Bool.not_eq_eq_eq_not, Bool.not_true, Bool.and_eq_false_iff] at hscan
    obtain ⟨⟨⟨hpercent, hplus⟩, hescape⟩, hpath⟩ := hscan
    have hspace : plusIsSpace = true → '+' ∉ raw := fun hflag => by
      rw [hflag] at hplus
      simpa using hplus
    have hungated := mem_ungated_of_plain (by simpa using hpercent) hspace (plain_of_not_any hescape) hpath
    exact ⟨[], rfl, fun form => by simp [hungated]⟩
  · split
    · exact ⟨_, by rw [← List.foldl_append, ← List.foldl_append], fun form => by rw [ungated]⟩
    · rename_i hescape
      have hplain := plain_of_not_any (by simpa using hescape)
      refine ⟨_, by rw [← List.foldl_append], fun form => ?_⟩
      simp only [ungated, hplain.scriptChain_eq, hplain.lookupChain_eq, List.mem_append,
        List.mem_cons, List.not_mem_nil, or_false]
      tauto

end Gates

/-- A form of the text is the text as it arrived or one of those the definition
without gates has. -/
theorem mem_zoneText_iff {raw : Text} {plusIsSpace : Bool} {form : Text} :
    form ∈ zoneText raw plusIsSpace ↔ form = raw ∨ form ∈ ungated raw plusIsSpace := by
  obtain ⟨items, hforms, hitems⟩ := exists_zoneText_eq raw plusIsSpace
  rw [hforms, mem_foldl_pushUnique, List.mem_singleton, hitems]

/-- Whatever the scans find, the text as it arrived comes first, no form comes
twice, and every decoding of the text is a form. -/
theorem zoneText_has_every_decoding (raw : Text) (plusIsSpace : Bool) :
    let base := plusSubstituted raw plusIsSpace
    (zoneText raw plusIsSpace).head? = some raw ∧ (zoneText raw plusIsSpace).Nodup ∧
      ∀ form ∈ [base, percentDecode base, percentDecode (percentDecode base), urlDecodeUni base,
        scriptChain (urlDecodeUni base), lookupChain (urlDecodeUni base)],
        form ∈ zoneText raw plusIsSpace := by
  obtain ⟨items, hforms, -⟩ := exists_zoneText_eq raw plusIsSpace
  refine ⟨?_, ?_, fun form hform => ?_⟩
  · rw [hforms]
    exact head?_foldl_pushUnique rfl
  · rw [hforms]
    exact nodup_foldl_pushUnique (List.nodup_singleton raw)
  · rw [mem_zoneText_iff]
    apply Or.inr
    simp only [ungated, List.mem_append, List.mem_cons, List.not_mem_nil, or_false] at hform ⊢
    tauto

end EasyWaf.Modules.ZoneText
