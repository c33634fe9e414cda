import EasyWaf.Core.Cuts
import EasyWaf.Modules.PartContent

/-!
# A multipart body's parts

A delimiter stands at the start of a line, with blanks and a line break behind it,
or `--` for the last one.  The body is read by the delimiter's text wherever that
stands; here is which field's content is read all the same.
-/

namespace EasyWaf.Modules

open Core.Cuts

section Parts

/-- What a delimiter's line begins with. -/
def delimiter (boundary : Text) : Text := '-' :: '-' :: boundary

def isBlank (c : Char) : Bool := c == ' ' || c == '\t'

/-- What is behind a delimiter's line, from what is behind its text. -/
def pastDelimiterLine (after : Text) : Option Text := pastBreak (after.dropWhile isBlank)

def closes (after : Text) : Bool := List.isPrefixOf ['-', '-'] after

/-- Whether a delimiter's text is a delimiter, from what is before it and behind it. -/
def delimits (last : Option Char) (after : Text) : Bool :=
  last.all (· == '\n') && (closes after || (pastDelimiterLine after).isSome)

/-- What stands behind each delimiter, and where. -/
def delimited (boundary text : Text) : List (ℕ × Text) :=
  (placed (delimiter boundary).length 0 (cut (delimiter boundary) delimits none text)).drop 1

/-- The parts of a body, up to the last delimiter. -/
def parts (boundary text : Text) : List (ℕ × Text) :=
  if boundary = [] then [] else (delimited boundary text).takeWhile fun part => !closes part.2

/-- What stands behind each occurrence of the delimiter's text, and where. -/
def readSections (boundary text : Text) : List (ℕ × Text) :=
  (placed (delimiter boundary).length 0 (Text.splitText (delimiter boundary) text)).drop 1

/-- A header's parts between its semicolons, those within quotes apart. -/
def splitUnquoted : Bool → Text → List Text
  | _, [] => [[]]
  | true, '\\' :: c :: rest => (splitUnquoted true rest).modifyHead ('\\' :: c :: ·)
  | isQuoted, c :: rest =>
      if c = ';' ∧ isQuoted = false then [] :: splitUnquoted isQuoted rest
      else (splitUnquoted (if c = '"' then !isQuoted else isQuoted) rest).modifyHead (c :: ·)

/-- Whether a header names a file. -/
def namesFile (line : Text) : Bool :=
  ((splitUnquoted false line).drop 1).any fun part =>
    (param part).any fun (key, _) => key.eqIgnoreAsciiCase "filename".toList

def dispositionOf (head : Text) : Option Text :=
  (Text.lines head).find? fun line =>
    "content-disposition:".toList.isPrefixOf (Text.toAsciiLowercase line)

/-- What is behind the empty line of a part that is a field: its disposition names
no file. -/
def fieldText (behind : Text) : Option Text :=
  (pastDelimiterLine behind).bind fun part =>
    (headed true part).bind fun (head, content) =>
      (dispositionOf head).bind fun line => if namesFile line then none else some content

end Parts

section Reading

variable (engine : Engine)

/-- Whether a section is read as a file's. -/
def readsFile (body : Text) : Bool :=
  (paramOf "filename".toList ((dispositionOf (readHead (afterBreak body)).1).getD [])).isSome

theorem parsed_sectionValues (body : Text) : (sectionValues engine body).1.parsed =
    if readsFile body then none else some (beforeBreak (readHead (afterBreak body)).2) := by
  have hread : readsFile body = (paramOf "filename".toList
      ((dispositionOf (readHead (afterBreak body)).1).getD [])).isSome := rfl
  rw [sectionValues]
  dsimp only
  split
  · next file hfile =>
      rw [hread, show paramOf "filename".toList
        ((dispositionOf (readHead (afterBreak body)).1).getD []) = some file from hfile]
      rfl
  · next hfile =>
      rw [hread, show paramOf "filename".toList
        ((dispositionOf (readHead (afterBreak body)).1).getD []) = none from hfile]
      rfl

/-- The values read of a body's sections, while there is room, and where each section
stands. -/
def readings (boundary text : Text) (room : ℕ) : List (ℕ × Value) :=
  (((readSections boundary text).takeWhile fun read => !closes read.2).take room).map fun read =>
    (read.1, (sectionValues engine read.2).1)

theorem foldl_push (values out : List Value) :
    values.foldl Value.push out = out ++ values.take (maxValues - out.length) := by
  induction values generalizing out with
  | nil => rw [List.foldl_nil, List.take_nil, List.append_nil]
  | cons value rest ih =>
      rw [List.foldl_cons, ih, Value.push]
      split_ifs with hfull
      · rw [Nat.sub_eq_zero_of_le hfull, List.take_zero, List.take_zero]
      · obtain ⟨room, hroom⟩ := Nat.exists_eq_succ_of_ne_zero (Nat.sub_ne_zero_of_lt (not_le.mp hfull))
        have hless : maxValues - (out ++ [value]).length = room := by
          rw [List.length_append, List.length_singleton]
          omega
        rw [hroom, hless, List.take_succ_cons, List.append_assoc, List.singleton_append]

end Reading

section Split

/-- A text split at a separator is cut at its every occurrence. -/
theorem splitText_eq_cutAll {separator : Text} (hseparator : separator ≠ []) (text : Text) :
    Text.splitText separator text = cutAll separator text := by
  have hwithin : ∀ (count : ℕ) (text : Text), text.length ≤ count →
      Text.splitTextWithin separator count text = cutAll separator text := by
    intro count
    induction count with
    | zero =>
        intro text htext
        rw [List.length_eq_zero_iff.mp (Nat.le_zero.mp htext), cutAll_nil]
        rfl
    | succ count ih =>
        intro text htext
        rw [Text.splitTextWithin]
        cases hfound : text.dropInfix? separator with
        | none =>
            exact (cutAll_of_absent (Text.dropInfix?_eq_none_iff.mp hfound)).symm
        | some found =>
            obtain ⟨before, after⟩ := found
            obtain ⟨htextEq, hfirst⟩ := Text.dropInfix?_eq_some_iff.mp hfound
            have hlength := Text.length_of_dropInfix? hfound
            have hpos := List.length_pos_iff.mpr hseparator
            dsimp only
            rw [ih after (by omega), htextEq]
            exact (cutAll_of_first hseparator (htextEq ▸ hfirst)).symm
  exact hwithin text.length text le_rfl

end Split

section Multipart

variable (engine : Engine) {boundary : Text}

theorem delimiter_ne_nil (boundary : Text) : delimiter boundary ≠ [] := List.cons_ne_nil _ _

theorem length_delimiter (hboundary : boundary ≠ []) : 3 ≤ (delimiter boundary).length := by
  have hpos := List.length_pos_iff.mpr hboundary
  rw [delimiter, List.length_cons, List.length_cons]
  omega

theorem delimits_inner (hboundary : '\n' ∉ boundary) :
    ∀ c ∈ delimiter boundary, ∀ after, delimits (some c) after = false := by
  intro c hc after
  have hne : c ≠ '\n' := by
    rintro rfl
    simp [delimiter, hboundary] at hc
  simp [delimits, hne]

theorem map_takeWhile_readSections (boundary text : Text) :
    ((readSections boundary text).takeWhile fun read => !closes read.2).map (·.2) =
      ((Text.splitText (delimiter boundary) text).drop 1).takeWhile fun behind => !closes behind := by
  conv_rhs => rw [← map_placed (delimiter boundary).length 0
    (Text.splitText (delimiter boundary) text), ← List.map_drop, List.takeWhile_map]
  rfl

/-- The values `multipart` finds, pushed behind what is held already. -/
theorem multipart_eq (hboundary : boundary ≠ []) (body : List UInt8) (out : List Value) :
    ((readSections boundary (Text.fromUtf8Lossy body)).takeWhile fun read => !closes read.2) = [] ∧
        multipart engine body boundary = none ∨
      ((readSections boundary (Text.fromUtf8Lossy body)).takeWhile fun read => !closes read.2) ≠ [] ∧
        ∃ found, multipart engine body boundary = some found ∧
          found.1.foldl Value.push out = out ++
            (readings engine boundary (Text.fromUtf8Lossy body) (maxValues - out.length)).map (·.2) := by
  have hsections := map_takeWhile_readSections boundary (Text.fromUtf8Lossy body)
  by_cases hnone : (readSections boundary (Text.fromUtf8Lossy body)).takeWhile
      (fun read => !closes read.2) = []
  · left
    refine ⟨hnone, ?_⟩
    rw [hnone, List.map_nil] at hsections
    rw [multipart, if_neg hboundary]
    exact if_pos hsections.symm
  · right
    have hfound : multipart engine body boundary = some
        ((((((Text.splitText (delimiter boundary) (Text.fromUtf8Lossy body)).drop 1).takeWhile
            fun behind => !closes behind).map (sectionValues engine)).map (·.1)).foldl Value.push [],
          (((((Text.splitText (delimiter boundary) (Text.fromUtf8Lossy body)).drop 1).takeWhile
            fun behind => !closes behind).map (sectionValues engine)).filterMap (·.2)).foldl
              Value.push []) := by
      rw [multipart, if_neg hboundary]
      apply if_neg
      intro hnil
      exact hnone (List.map_eq_nil_iff.mp (hsections.trans hnil))
    refine ⟨hnone, _, hfound, ?_⟩
    dsimp only
    rw [foldl_push, foldl_push, ← hsections, readings, List.nil_append, List.length_nil,
      Nat.sub_zero, List.take_take, min_eq_left (Nat.sub_le _ _)]
    simp only [List.map_map, ← List.map_take]
    rfl

/-- What stands for a part where it begins, and that it holds the part's content: the
sections before it close nothing and leave room, its disposition is read as a field's,
and either nothing stands in it or no delimiter's text does and its empty line is read
as one. -/
structure Exposed (boundary text : Text) (room place : ℕ) (behind content : Text) : Prop where
  unclosed : ∀ earlier ∈ readSections boundary text, earlier.1 < place → closes earlier.2 = false
  room : (readSections boundary text).countP (·.1 < place) < room
  field : readsFile ((cutAll (delimiter boundary) behind).headD []) = false
  whole : beforeBreak content = [] ∨
    ¬ delimiter boundary <:+: behind ∧ EndsAsRead (afterBreak behind) content

theorem headed_afterBreak {behind content : Text} (hfield : fieldText behind = some content) :
    ∃ head, headed true (afterBreak behind) = some (head, content) := by
  obtain ⟨part, hpart, hfield⟩ := Option.bind_eq_some_iff.mp hfield
  obtain ⟨⟨head, content'⟩, hheaded, hfield⟩ := Option.bind_eq_some_iff.mp hfield
  obtain ⟨line, -, hcontent⟩ := Option.bind_eq_some_iff.mp hfield
  have hsame : content' = content := by
    split at hcontent
    · contradiction
    · exact Option.some.inj hcontent
  subst hsame
  rw [pastDelimiterLine] at hpart
  cases hblanks : behind.takeWhile isBlank with
  | nil =>
      have hbehind : behind.dropWhile isBlank = behind := by
        conv_rhs => rw [← List.takeWhile_append_dropWhile (p := isBlank) (l := behind), hblanks]
        rfl
      rw [hbehind] at hpart
      rw [afterBreak_eq, hpart]
      exact ⟨head, hheaded⟩
  | cons blank blanks =>
      have hall : ∀ c ∈ blank :: blanks, isBlank c = true := fun c hc =>
        List.mem_takeWhile_imp (hblanks ▸ hc)
      have hblank := hall blank List.mem_cons_self
      obtain ⟨ends, hends, hdropped⟩ := exists_break_of_pastBreak hpart
      have hbehind : behind = blank :: blanks ++ (ends ++ part) := by
        rw [← hblanks, ← hdropped, List.takeWhile_append_dropWhile]
      have hnone : pastBreak behind = none := by
        apply Option.eq_none_iff_forall_ne_some.mpr
        intro rest hrest
        rw [hbehind] at hrest
        rcases pastBreak_eq_some_iff.mp hrest with h | h <;>
          rw [(List.cons.inj h).1] at hblank <;> exact absurd hblank (by decide)
      -- the rest of the delimiter's line is read as a header line
      obtain ⟨tail, htail, hendsEq⟩ : ∃ tail, '\n' ∉ tail ∧ ends = tail ++ ['\n'] := by
        rcases hends with rfl | rfl
        · exact ⟨[], List.not_mem_nil, rfl⟩
        · exact ⟨['\r'], by decide, rfl⟩
      have hline : '\n' ∉ blank :: blanks ++ tail := by
        rw [List.mem_append, not_or]
        exact ⟨fun hmem => absurd (hall '\n' hmem) (by decide), htail⟩
      have hwhole : behind = blank :: blanks ++ tail ++ '\n' :: part := by
        rw [hbehind, hendsEq]
        simp
      rw [afterBreak_eq, hnone, Option.getD_none, hwhole, headed_line hline, hheaded]
      · exact ⟨_, rfl⟩
      · intro _
        refine ⟨blank, blanks ++ tail, rfl, ?_⟩
        rintro rfl
        exact absurd hblank (by decide)

theorem afterBreak_append {shown rest : Text} :
    afterBreak (shown ++ '-' :: rest) = afterBreak shown ++ '-' :: rest := by
  have hpast : pastBreak (shown ++ '-' :: rest) = (pastBreak shown).map (· ++ '-' :: rest) := by
    cases hshown : pastBreak shown with
    | some behind =>
        obtain ⟨ends, hends, rfl⟩ := exists_break_of_pastBreak hshown
        rw [List.append_assoc, pastBreak_append hends, Option.map_some]
    | none =>
        apply Option.eq_none_iff_forall_ne_some.mpr
        intro behind hbehind
        have hnot := Option.eq_none_iff_forall_ne_some.mp hshown
        rcases pastBreak_eq_some_iff.mp hbehind with h | h
        · match shown, h with
          | [c], h => exact absurd (List.cons.inj (List.cons.inj h).2).1 (by decide)
          | c :: d :: shown, h =>
              obtain ⟨rfl, hd⟩ := List.cons.inj h
              obtain ⟨rfl, -⟩ := List.cons.inj hd
              exact hnot shown (pastBreak_eq_some_iff.mpr (Or.inl rfl))
        · match shown, h with
          | c :: shown, h =>
              obtain ⟨rfl, -⟩ := List.cons.inj h
              exact hnot shown (pastBreak_eq_some_iff.mpr (Or.inr rfl))
  rw [afterBreak_eq, afterBreak_eq, hpast]
  cases pastBreak shown <;> rfl

/-- What is read as the content of a field's part, from the first piece of it. -/
theorem content_iff (hboundary : boundary ≠ []) {behind content : Text}
    (hfield : fieldText behind = some content) {first : Text} {others : List Text}
    (hfirst : cutAll (delimiter boundary) behind = first :: others) :
    beforeBreak (readHead (afterBreak first)).2 = beforeBreak content ↔
      beforeBreak content = [] ∨
        ¬ delimiter boundary <:+: behind ∧ EndsAsRead (afterBreak behind) content := by
  obtain ⟨head, hheaded⟩ := headed_afterBreak hfield
  have hparted := parted_of_headed hheaded
  rcases cutAll_cases (delimiter_ne_nil boundary) behind with
    ⟨hno, hcut⟩ | ⟨before, after, hbehind, hcut⟩
  · obtain ⟨rfl, -⟩ := List.cons.inj (hcut.symm.trans hfirst)
    rw [beforeBreak_readHead_iff hparted, and_iff_right hno]
    exact or_comm
  · obtain ⟨rfl, -⟩ := List.cons.inj (hcut.symm.trans hfirst)
    have hinfix : delimiter boundary <:+: behind := ⟨before, after, hbehind.symm⟩
    have hbody : afterBreak behind = afterBreak before ++ (delimiter boundary ++ after) := by
      rw [hbehind, List.append_assoc]
      exact afterBreak_append
    have hlength : 3 ≤ (delimiter boundary ++ after).length := by
      have hdelimiter := length_delimiter hboundary
      rw [List.length_append]
      omega
    rw [beforeBreak_readHead_of_cut hlength hbody hparted, or_iff_left fun h => h.1 hinfix]

/-- A field's content is among the values read, where its part begins, exactly when the
part is exposed. -/
theorem exists_reading_iff (hboundary : boundary ≠ []) (hline : '\n' ∉ boundary) {text : Text}
    {room : ℕ} {part : ℕ × Text} (hpart : part ∈ parts boundary text) {content : Text}
    (hfield : fieldText part.2 = some content) :
    (∃ value, (part.1, value) ∈ readings engine boundary text room ∧
        value.parsed = some (beforeBreak content)) ↔
      Exposed boundary text room part.1 part.2 content := by
  have hne := delimiter_ne_nil boundary
  rw [parts, if_neg hboundary] at hpart
  have hdelimited := List.takeWhile_subset _ hpart
  have hopen : closes part.2 = false := by
    have hpasses := List.mem_takeWhile_imp hpart
    simpa using hpasses
  obtain ⟨first, others, hfirst⟩ := List.exists_cons_of_ne_nil (cutAll_ne_nil hne part.2)
  have hthere : (part.1, first) ∈ readSections boundary text := by
    rw [readSections, splitText_eq_cutAll hne]
    exact mem_placed_cutAll hne (delimits_inner hline) hdelimited hfirst
  have hrising : Rising (readSections boundary text) :=
    (rising_placed (List.length_pos_iff.mpr hne) 0 _).sublist (List.drop_sublist 1 _)
  have hfirstOpen : (!closes first) = true := by
    have hprefix : first <+: part.2 := head_prefix_of_cut hne hfirst
    rw [Bool.not_eq_true', Bool.eq_false_iff]
    intro hcloses
    apply Bool.eq_false_iff.mp hopen
    rw [closes, List.isPrefixOf_iff_prefix] at hcloses ⊢
    exact hcloses.trans hprefix
  have hparsed : (sectionValues engine first).1.parsed = some (beforeBreak content) ↔
      readsFile first = false ∧ (beforeBreak content = [] ∨
        ¬ delimiter boundary <:+: part.2 ∧ EndsAsRead (afterBreak part.2) content) := by
    rw [parsed_sectionValues, ← content_iff hboundary hfield hfirst]
    cases readsFile first <;> simp
  have hread : ∀ found, (part.1, found) ∈
      ((readSections boundary text).takeWhile fun read => !closes read.2).take room ↔
        found = first ∧ (∀ earlier ∈ readSections boundary text, earlier.1 < part.1 →
          closes earlier.2 = false) ∧ (readSections boundary text).countP (·.1 < part.1) < room := by
    intro found
    rw [mem_take_takeWhile_iff hrising hthere, and_iff_right hfirstOpen]
    simp only [Bool.not_eq_true']
  constructor
  · rintro ⟨value, hvalue, hparsedValue⟩
    obtain ⟨⟨place, found⟩, hfound, heq⟩ := List.mem_map.mp hvalue
    obtain ⟨rfl, rfl⟩ := Prod.mk.inj heq
    obtain ⟨rfl, hunclosed, hroom⟩ := (hread found).mp hfound
    obtain ⟨hfile, hwhole⟩ := hparsed.mp hparsedValue
    exact ⟨hunclosed, hroom, by rw [hfirst]; exact hfile, hwhole⟩
  · intro hexposed
    have hfile : readsFile first = false := by
      have hfield := hexposed.field
      rwa [hfirst] at hfield
    refine ⟨(sectionValues engine first).1, ?_, hparsed.mpr ⟨hfile, hexposed.whole⟩⟩
    apply List.mem_map.mpr
    exact ⟨(part.1, first), (hread first).mpr ⟨rfl, hexposed.unclosed, hexposed.room⟩, rfl⟩

end Multipart

end EasyWaf.Modules
