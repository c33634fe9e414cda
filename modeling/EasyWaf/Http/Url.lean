import EasyWaf.Text.Utf8

/-!
# Paths of URLs

What is read of the `url` and `urlencoding` crates: percent-decoding, and the
path of a URL as the URL standard parses it.
-/

namespace EasyWaf.Http

section Decoding

/-- A hexadecimal digit's value. -/
def hexValue (byte : UInt8) : Option UInt8 :=
  if 48 ≤ byte ∧ byte ≤ 57 then some (byte - 48)
  else if 65 ≤ byte ∧ byte ≤ 70 then some (byte - 55)
  else if 97 ≤ byte ∧ byte ≤ 102 then some (byte - 87)
  else none

/-- The byte that `%` and two digits stand for. -/
def escaped (percent high low : UInt8) : Option UInt8 :=
  if percent = 37 then do return 16 * (← hexValue high) + (← hexValue low) else none

/-- `decode_binary`: a `%` that two digits do not follow is kept. -/
def decodeBinary : List UInt8 → List UInt8
  | byte :: high :: low :: rest =>
      match escaped byte high low with
      | some value => value :: decodeBinary rest
      | none => byte :: decodeBinary (high :: low :: rest)
  | rest => rest

theorem decodeBinary_cons_of_ne {byte : UInt8} (hbyte : byte ≠ 37) (rest : List UInt8) :
    decodeBinary (byte :: rest) = byte :: decodeBinary rest := by
  match rest with
  | [] => rfl
  | [_] => rfl
  | high :: low :: rest => simp only [decodeBinary, escaped, if_neg hbyte]

end Decoding

/-- The digits of an escape. -/
def hexDigits : List Char :=
  ['0', '1', '2', '3', '4', '5', '6', '7', '8', '9', 'A', 'B', 'C', 'D', 'E', 'F']

/-- What the URL parser does with a path: the characters it writes as escapes,
and what it makes of a text that goes on with the host. -/
structure Url where
  escapes : Char → Bool
  escapes_blank : ∀ c : Char, c.toNat ≤ 0x20 → escapes c
  escapes_escape : ∀ c ∈ '%' :: hexDigits, escapes c = false
  afterHost : Text → Option Text

namespace Url

/-- The characters the URL standard escapes in a path. -/
def standard : Url where
  escapes c := c.toNat ≤ 0x20 || 0x7F ≤ c.toNat ||
    ['"', '#', '<', '>', '?', '^', '\x60', '\x7b', '\x7d'].contains c
  escapes_blank c hc := by simp [hc]
  escapes_escape := by simp [hexDigits]
  afterHost _ := none

def hexDigit (value : ℕ) : Char := hexDigits.getD value '0'

def escape (byte : UInt8) : Text := ['%', hexDigit (byte.toNat / 16), hexDigit (byte.toNat % 16)]

variable (url : Url)

/-- A character as it stands in a parsed path. -/
def encode (c : Char) : Text :=
  if url.escapes c then (String.utf8EncodeChar c).flatMap escape else [c]

def isSingleDot (segment : Text) : Bool :=
  [".".toList, "%2e".toList].contains segment.toAsciiLowercase

def isDoubleDot (segment : Text) : Bool :=
  ["..".toList, ".%2e".toList, "%2e.".toList, "%2e%2e".toList].contains segment.toAsciiLowercase

end Url

/-- The segments of a path with `.` and `..` resolved, after those already kept.
The last one leaves a slash behind. -/
def removeDots (single double : Text → Bool) (kept : List Text) : List Text → List Text
  | [] => kept
  | [last] =>
      if double last then kept.dropLast ++ [[]]
      else if single last then kept ++ [[]]
      else kept ++ [last]
  | segment :: following :: rest =>
      removeDots single double
        (if double segment then kept.dropLast
         else if single segment then kept
         else kept ++ [segment])
        (following :: rest)

def isTabOrNewline (c : Char) : Bool := c == '\t' || c == '\n' || c == '\r'

/-- The text of a path's segments: what ends the path and what the parser skips
taken away, and backslashes read as slashes. -/
def segmentText (rest : Text) : Text :=
  (((rest.trimEndMatches (·.toNat ≤ 0x20)).filter (!isTabOrNewline ·)).takeWhile
    fun c => c != '?' && c != '#').map fun c => if c = '\\' then '/' else c

/-- The path of a URL whose host is followed by `/` and then `rest`. -/
def Url.path (url : Url) (rest : Text) : Text :=
  '/' :: Text.join ['/'] (removeDots Url.isSingleDot Url.isDoubleDot []
    (((segmentText rest).splitOn '/').map (·.flatMap url.encode)))

section RemoveDots

variable {single double : Text → Bool}

theorem removeDots_of_dotless {segments : List Text}
    (hdotless : ∀ segment ∈ segments, single segment = false ∧ double segment = false)
    (kept : List Text) : removeDots single double kept segments = kept ++ segments := by
  induction segments generalizing kept with
  | nil => rw [removeDots, List.append_nil]
  | cons segment rest ih =>
      obtain ⟨⟨hsingle, hdouble⟩, hrest⟩ := List.forall_mem_cons.mp hdotless
      cases rest with
      | nil => simp [removeDots, hsingle, hdouble]
      | cons following rest =>
          rw [removeDots, ih hrest]
          simp [hsingle, hdouble]

/-- What is left was kept before, is the slash a dot segment leaves at the end,
or is no dot segment. -/
theorem mem_removeDots {kept segments : List Text} {segment : Text}
    (hmem : segment ∈ removeDots single double kept segments) :
    segment ∈ kept ∨ segment = [] ∨
      segment ∈ segments ∧ single segment = false ∧ double segment = false := by
  induction segments generalizing kept with
  | nil => exact Or.inl hmem
  | cons first rest ih =>
      cases rest with
      | nil =>
          rw [removeDots] at hmem
          split at hmem
          · have := List.dropLast_subset kept (a := segment)
            grind
          · grind
      | cons following rest =>
          rw [removeDots] at hmem
          have hstep := ih hmem
          have := List.dropLast_subset kept (a := segment)
          grind

theorem removeDots_ne_nil {kept segments : List Text} (hsegments : segments ≠ []) :
    removeDots single double kept segments ≠ [] := by
  induction segments generalizing kept with
  | nil => exact absurd rfl hsegments
  | cons first rest ih =>
      cases rest with
      | nil => rw [removeDots]; split_ifs <;> simp
      | cons following rest => rw [removeDots]; exact ih (by simp)

end RemoveDots

namespace Url

variable {url : Url} {rest : Text}

/-- A path, after its first slash, that the parser leaves as it is. -/
structure Parsed (url : Url) (rest : Text) : Prop where
  plain : ∀ c ∈ rest, c ≠ '/' → url.escapes c = false ∧ c ≠ '\\' ∧ c ≠ '?' ∧ c ≠ '#'
  dotless : ∀ segment ∈ rest.splitOn '/', isSingleDot segment = false ∧ isDoubleDot segment = false

theorem lt_toNat_of_not_escapes {c : Char} (hc : url.escapes c = false) : 0x20 < c.toNat := by
  by_contra hle
  rw [url.escapes_blank c (by omega)] at hc
  contradiction

theorem Parsed.lt_toNat (hparsed : url.Parsed rest) {c : Char} (hc : c ∈ rest) :
    0x20 < c.toNat := by
  by_cases hslash : c = '/'
  · rw [hslash]; decide
  · exact lt_toNat_of_not_escapes (hparsed.plain c hc hslash).1

theorem Parsed.segmentText_eq (hparsed : url.Parsed rest) : segmentText rest = rest := by
  have hblank : ∀ c ∈ rest, ¬ c.toNat ≤ 0x20 := fun c hc => not_le.mpr (hparsed.lt_toNat hc)
  have htrim : rest.trimEndMatches (·.toNat ≤ 0x20) = rest := by
    rw [Text.trimEndMatches, List.rdropWhile_eq_self_iff]
    exact fun hnil => by simpa using hblank _ (List.getLast_mem hnil)
  have hfilter : rest.filter (!isTabOrNewline ·) = rest := by
    refine List.filter_eq_self.mpr fun c hc => ?_
    have hlt := hparsed.lt_toNat hc
    simp only [isTabOrNewline, Bool.not_eq_eq_eq_not, Bool.not_true, Bool.or_eq_false_iff,
      beq_eq_false_iff_ne]
    refine ⟨⟨?_, ?_⟩, ?_⟩ <;> (rintro rfl; revert hlt; decide)
  have htake : rest.takeWhile (fun c => c != '?' && c != '#') = rest := by
    refine List.takeWhile_eq_self_iff.mpr fun c hc => ?_
    by_cases hslash : c = '/'
    · rw [hslash]; decide
    · simp [(hparsed.plain c hc hslash).2.2]
  have hmap : rest.map (fun c => if c = '\\' then '/' else c) = rest := by
    refine (List.map_congr_left fun c hc => ?_).trans (List.map_id rest)
    by_cases hslash : c = '/'
    · rw [hslash]; decide
    · rw [if_neg (hparsed.plain c hc hslash).2.1, id]
  rw [segmentText, htrim, hfilter, htake, hmap]

theorem flatMap_encode {segment : Text} (hplain : ∀ c ∈ segment, url.escapes c = false) :
    segment.flatMap url.encode = segment := by
  induction segment with
  | nil => rfl
  | cons c rest ih =>
      obtain ⟨hc, hrest⟩ := List.forall_mem_cons.mp hplain
      rw [List.flatMap_cons, ih hrest, encode, hc]
      rfl

/-- The parser leaves a parsed path as it is. -/
theorem Parsed.path_eq (hparsed : url.Parsed rest) : url.path rest = '/' :: rest := by
  have hencode : (rest.splitOn '/').map (·.flatMap url.encode) = rest.splitOn '/' := by
    refine (List.map_congr_left fun segment hsegment => ?_).trans (List.map_id _)
    refine flatMap_encode fun c hc => ?_
    obtain ⟨hmem, hne⟩ := Core.mem_of_mem_splitOn hsegment hc
    exact (hparsed.plain c hmem hne).1
  rw [path, hparsed.segmentText_eq, hencode, removeDots_of_dotless hparsed.dotless,
    List.nil_append, Text.join, List.intercalate_splitOn]

theorem mem_escape {byte : UInt8} {c : Char} (hc : c ∈ escape byte) :
    c ∈ '%' :: hexDigits := by
  have hdigit : ∀ value : Fin 16, hexDigit value ∈ hexDigits := by decide
  have hbyte : byte.toNat < 256 := byte.toNat_lt
  simp only [escape, List.mem_cons, List.not_mem_nil, or_false] at hc
  rcases hc with rfl | rfl | rfl
  · exact List.mem_cons_self
  · exact List.mem_cons_of_mem _ (hdigit ⟨byte.toNat / 16, by omega⟩)
  · exact List.mem_cons_of_mem _ (hdigit ⟨byte.toNat % 16, by omega⟩)

/-- A character of a path's segment as the parser writes it. -/
theorem plain_of_mem_encode {c d : Char} (hd : d ∈ url.encode c) (hc : c ≠ '/' ∧ c ≠ '\\' ∧ c ≠ '?' ∧ c ≠ '#') :
    d ≠ '/' ∧ url.escapes d = false ∧ d ≠ '\\' ∧ d ≠ '?' ∧ d ≠ '#' := by
  have hdigits : ∀ d ∈ '%' :: hexDigits, d ≠ '/' ∧ d ≠ '\\' ∧ d ≠ '?' ∧ d ≠ '#' := by
    simp [hexDigits]
  rw [encode] at hd
  split at hd
  · obtain ⟨byte, -, hd⟩ := List.mem_flatMap.mp hd
    obtain ⟨hslash, hothers⟩ := hdigits d (mem_escape hd)
    exact ⟨hslash, url.escapes_escape d (mem_escape hd), hothers⟩
  · rename_i hescapes
    obtain rfl := List.mem_singleton.mp hd
    exact ⟨hc.1, by simpa using hescapes, hc.2⟩

theorem mem_segmentText {c : Char} (hc : c ∈ segmentText rest) : c ≠ '\\' ∧ c ≠ '?' ∧ c ≠ '#' := by
  obtain ⟨d, hd, rfl⟩ := List.mem_map.mp hc
  have hkept := List.mem_takeWhile_imp hd
  simp only [Bool.and_eq_true, bne_iff_ne] at hkept
  split
  · decide
  · rename_i hslash
    exact ⟨hslash, hkept⟩

/-- The parser makes of every path one that it leaves as it is. -/
theorem exists_path_eq (url : Url) (rest : Text) :
    ∃ parsed : Text, url.path rest = '/' :: parsed ∧ url.Parsed parsed := by
  let encoded := ((segmentText rest).splitOn '/').map (·.flatMap url.encode)
  let segments := removeDots isSingleDot isDoubleDot [] encoded
  have hencoded : ∀ segment ∈ encoded, ∀ c ∈ segment,
      c ≠ '/' ∧ url.escapes c = false ∧ c ≠ '\\' ∧ c ≠ '?' ∧ c ≠ '#' := by
    intro segment hsegment c hc
    obtain ⟨written, hwritten, rfl⟩ := List.mem_map.mp hsegment
    obtain ⟨d, hd, hc⟩ := List.mem_flatMap.mp hc
    obtain ⟨hmem, hslash⟩ := Core.mem_of_mem_splitOn hwritten hd
    exact plain_of_mem_encode hc ⟨hslash, mem_segmentText hmem⟩
  have hsegments : ∀ segment ∈ segments, segment = [] ∨
      segment ∈ encoded ∧ isSingleDot segment = false ∧ isDoubleDot segment = false :=
    fun segment hsegment => (mem_removeDots hsegment).resolve_left List.not_mem_nil
  have hplain : ∀ segment ∈ segments, ∀ c ∈ segment,
      c ≠ '/' ∧ url.escapes c = false ∧ c ≠ '\\' ∧ c ≠ '?' ∧ c ≠ '#' := by
    intro segment hsegment c hc
    rcases hsegments segment hsegment with rfl | ⟨hmem, -⟩
    · exact absurd hc List.not_mem_nil
    · exact hencoded segment hmem c hc
  have hsplit : (Text.join ['/'] segments).splitOn '/' = segments :=
    List.splitOn_intercalate '/' (fun segment hsegment hc => (hplain segment hsegment _ hc).1 rfl)
      (removeDots_ne_nil (by simp [encoded, List.splitOn_ne_nil]))
  refine ⟨Text.join ['/'] segments, rfl, ?_, ?_⟩
  · intro c hc hslash
    obtain ⟨segment, hsegment, hmem⟩ := Core.mem_splitOn_of_mem hc hslash
    rw [hsplit] at hsegment
    exact (hplain segment hsegment c hmem).2
  · rw [hsplit]
    intro segment hsegment
    rcases hsegments segment hsegment with rfl | ⟨-, hdotless⟩
    · decide
    · exact hdotless

end Url

end EasyWaf.Http
