import EasyWaf.Modules.WideEscapes
import EasyWaf.Modules.ZoneText

/-!
# Forms that are read normalised

Which decoded forms the path's gate lets through as they are, and which of those
are not as short as they may be.
-/

namespace EasyWaf.Modules.ZoneText

open Http Decoders Paths EasyWaf.Core

section Segments

variable {c : Char} {text segment : Text}

theorem exists_of_head?_splitOn (hhead : (text.splitOn c).head? = some segment) :
    ∃ after : Text, text = segment ++ after ∧ (after = [] ∨ ∃ more, after = c :: more) := by
  induction text generalizing segment with
  | nil =>
      obtain rfl : [] = segment := by simpa using hhead
      exact ⟨[], rfl, Or.inl rfl⟩
  | cons d rest ih =>
      by_cases hd : d = c
      · subst hd
        rw [splitOn_cons_self] at hhead
        obtain rfl := Option.some.inj hhead
        exact ⟨d :: rest, rfl, Or.inr ⟨rest, rfl⟩⟩
      · rw [splitOn_cons_of_ne hd, List.head?_modifyHead] at hhead
        obtain ⟨first, hfirst, rfl⟩ := Option.map_eq_some_iff.mp hhead
        obtain ⟨after, rfl, hafter⟩ := ih hfirst
        exact ⟨after, rfl, hafter⟩

/-- Where a segment that is not the first stands. -/
theorem exists_of_mem_tail_splitOn (hmem : segment ∈ (text.splitOn c).tail) :
    ∃ before after : Text, text = before ++ c :: (segment ++ after) ∧
      (after = [] ∨ ∃ more, after = c :: more) := by
  induction text with
  | nil => simp at hmem
  | cons d rest ih =>
      by_cases hd : d = c
      · subst hd
        rw [splitOn_cons_self, List.tail_cons] at hmem
        cases hsplit : rest.splitOn d with
        | nil => exact absurd hsplit (List.splitOn_ne_nil d rest)
        | cons first others =>
            rw [hsplit] at hmem ih
            rcases List.mem_cons.mp hmem with rfl | hmem
            · obtain ⟨after, hrest, hafter⟩ := exists_of_head?_splitOn (congrArg List.head? hsplit)
              exact ⟨[], after, by rw [hrest]; rfl, hafter⟩
            · obtain ⟨before, after, hrest, hafter⟩ := ih hmem
              exact ⟨d :: before, after, by rw [hrest]; rfl, hafter⟩
      · rw [splitOn_cons_of_ne hd, List.tail_modifyHead] at hmem
        obtain ⟨before, after, hrest, hafter⟩ := ih hmem
        exact ⟨d :: before, after, by rw [hrest]; rfl, hafter⟩

/-- A text that begins and goes on with something between its slashes. -/
structure Begun (text : Text) : Prop where
  ne_nil : text ≠ []
  head : text.head? ≠ some '/'
  slashes : ¬ ['/', '/'] <:+: text

theorem Begun.nil_not_mem_splitOn (hbegun : Begun text) (hlast : text.getLast? ≠ some '/') :
    [] ∉ text.splitOn '/' := by
  intro hmem
  cases hsplit : text.splitOn '/' with
  | nil => exact List.splitOn_ne_nil _ _ hsplit
  | cons first others =>
      rw [hsplit] at hmem
      rcases List.mem_cons.mp hmem with rfl | hmem
      · obtain ⟨after, rfl, rfl | ⟨more, rfl⟩⟩ :=
          exists_of_head?_splitOn (congrArg List.head? hsplit)
        · exact hbegun.ne_nil rfl
        · exact hbegun.head rfl
      · obtain ⟨before, after, rfl, rfl | ⟨more, rfl⟩⟩ :=
          exists_of_mem_tail_splitOn (by rw [hsplit]; exact hmem)
        · exact hlast (by simp)
        · exact hbegun.slashes ⟨before, more, by simp⟩

/-- The segments that are not empty make the text, less a slash at its end. -/
theorem Begun.join_filter (hbegun : Begun text) :
    Text.join ['/'] ((text.splitOn '/').filter (· ≠ [])) =
      if text.getLast? = some '/' then text.dropLast else text := by
  have hfilter {rest : Text} (hrest : [] ∉ rest.splitOn '/') :
      (rest.splitOn '/').filter (· ≠ []) = rest.splitOn '/' := by
    apply List.filter_eq_self.mpr
    intro segment hsegment
    exact decide_eq_true (ne_of_mem_of_not_mem hsegment hrest)
  split
  · rename_i hlast
    obtain ⟨rest, rfl⟩ := List.getLast?_eq_some_iff.mp hlast
    have hrest : Begun rest := by
      refine ⟨?_, ?_, fun hcontained => hbegun.slashes (hcontained.trans (List.prefix_append rest _).isInfix)⟩
      · rintro rfl
        exact hbegun.head rfl
      · intro hhead
        obtain ⟨more, rfl⟩ := List.head?_eq_some_iff.mp hhead
        exact hbegun.head rfl
    have hend : rest.getLast? ≠ some '/' := by
      intro hlast
      obtain ⟨more, rfl⟩ := List.getLast?_eq_some_iff.mp hlast
      exact hbegun.slashes ⟨more, [], by simp⟩
    rw [List.splitOn_append_cons_self, List.filter_append, hfilter (hrest.nil_not_mem_splitOn hend),
      List.splitOn_nil, List.dropLast_concat]
    have hempty : ([[]] : List Text).filter (· ≠ []) = [] := rfl
    rw [hempty, List.append_nil, Text.join, List.intercalate_splitOn]
  · rename_i hlast
    rw [hfilter (hbegun.nil_not_mem_splitOn hlast), Text.join, List.intercalate_splitOn]

end Segments

section Shortest

/-- Segments that are no dot segments are kept, where they are not empty. -/
theorem foldl_keepSegment {absolute : Bool} {segments : List Text}
    (hdots : ∀ segment ∈ segments, segment ≠ ['.'] ∧ segment ≠ ['.', '.']) (kept : List Text) :
    segments.foldl (keepSegment absolute) kept = kept ++ segments.filter (· ≠ []) := by
  induction segments generalizing kept with
  | nil => rw [List.foldl_nil, List.filter_nil, List.append_nil]
  | cons segment rest ih =>
      obtain ⟨⟨hsingle, hdouble⟩, hrest⟩ := List.forall_mem_cons.mp hdots
      rw [List.foldl_cons, ih hrest, keepSegment]
      by_cases hnil : segment = [] <;> simp [hnil, hsingle, hdouble]

variable {text rest : Text}

theorem ne_dots_of_mem_tail (hdot : ¬ ['/', '.'] <:+: text) {segment : Text}
    (hsegment : segment ∈ (text.splitOn '/').tail) : segment ≠ ['.'] ∧ segment ≠ ['.', '.'] := by
  obtain ⟨before, after, htext, -⟩ := exists_of_mem_tail_splitOn hsegment
  constructor
  · rintro rfl
    exact hdot ⟨before, after, by simp [htext]⟩
  · rintro rfl
    exact hdot ⟨before, '.' :: after, by simp [htext]⟩

theorem trailing_eq (hdot : ¬ ['/', '.'] <:+: text) :
    (text.getLast? == some '/' || ['/', '.'].isSuffixOf text || ['/', '.', '.'].isSuffixOf text) =
      (text.getLast? == some '/') := by
  have hsingle : ['/', '.'].isSuffixOf text = false := by
    rw [Bool.eq_false_iff, ne_eq, List.isSuffixOf_iff_suffix]
    exact fun hsuffix => hdot hsuffix.isInfix
  have hdouble : ['/', '.', '.'].isSuffixOf text = false := by
    rw [Bool.eq_false_iff, ne_eq, List.isSuffixOf_iff_suffix]
    exact fun hsuffix => hdot ((List.prefix_append ['/', '.'] ['.']).isInfix.trans hsuffix.isInfix)
  rw [hsingle, hdouble, Bool.or_false, Bool.or_false]

/-- A text of which all that follows some beginning is kept is that, after the
slash the text begins with. -/
theorem normalizePath_eq_append (hdot : ¬ ['/', '.'] <:+: text) (hbegun : Begun rest)
    (hlast : text.getLast? = rest.getLast?)
    (hkept : (text.splitOn '/').foldl (keepSegment (text.head? == some '/')) [] =
      (rest.splitOn '/').filter (· ≠ [])) :
    normalizePath text = if text.head? = some '/' then '/' :: rest else rest := by
  have hout : ∀ lead : Text, (if (text.getLast? == some '/' &&
        (lead ++ if rest.getLast? = some '/' then rest.dropLast else rest).getLast? != some '/') = true
      then (lead ++ if rest.getLast? = some '/' then rest.dropLast else rest) ++ ['/']
      else lead ++ if rest.getLast? = some '/' then rest.dropLast else rest) = lead ++ rest := by
    intro lead
    rw [hlast]
    by_cases hend : rest.getLast? = some '/'
    · obtain ⟨body, rfl⟩ := List.getLast?_eq_some_iff.mp hend
      have hbody : body.getLast? ≠ some '/' := by
        intro hlast
        obtain ⟨more, rfl⟩ := List.getLast?_eq_some_iff.mp hlast
        exact hbegun.slashes ⟨more, [], by simp⟩
      have hne : body ≠ [] := by
        rintro rfl
        exact hbegun.head rfl
      have hlead : (lead ++ body).getLast? = body.getLast? := List.getLast?_append_of_ne_nil _ hne
      rw [if_pos hend, List.dropLast_concat, hlead, hend]
      simp [hbody]
    · simp [hend]
  rw [normalizePath, hkept, hbegun.join_filter, trailing_eq hdot]
  by_cases hhead : text.head? = some '/'
  · rw [hhead, if_pos rfl]
    exact hout ['/']
  · rw [if_neg hhead, beq_eq_false_iff_ne.mpr hhead]
    exact hout []

theorem begun_of_cons (hslash : ¬ ['/', '/'] <:+: text) {c : Char} (hc : c ≠ '/')
    (htext : text = c :: rest) : Begun text where
  ne_nil := by simp [htext]
  head := by simpa [htext] using hc
  slashes := hslash

theorem begun_after_slash (hslash : ¬ ['/', '/'] <:+: '/' :: rest) (hrest : rest ≠ []) :
    Begun rest where
  ne_nil := hrest
  head hhead := by
    obtain ⟨more, rfl⟩ := List.head?_eq_some_iff.mp hhead
    exact hslash ⟨[], more, rfl⟩
  slashes hcontained := hslash (hcontained.trans (List.suffix_cons '/' rest).isInfix)

/-- A text with nothing to normalise but a dot segment at its beginning, and
without that one, is as short as it may be. -/
theorem normalizePath_eq_self (hslash : ¬ ['/', '/'] <:+: text) (hdot : ¬ ['/', '.'] <:+: text)
    (hsingle : text ≠ ['.']) (hstart : ¬ ['.', '/'] <+: text) : normalizePath text = text := by
  cases text with
  | nil => decide
  | cons c rest =>
      by_cases hc : c = '/'
      · subst hc
        by_cases hrest : rest = []
        · subst hrest
          decide
        · have hsplit : ('/' :: rest).splitOn '/' = [] :: rest.splitOn '/' :=
            splitOn_cons_self '/' rest
          have hdots : ∀ segment ∈ rest.splitOn '/', segment ≠ ['.'] ∧ segment ≠ ['.', '.'] :=
            fun segment hsegment => ne_dots_of_mem_tail hdot (by rw [hsplit]; exact hsegment)
          rw [normalizePath_eq_append hdot (begun_after_slash hslash hrest)
            (List.getLast?_cons_of_ne_nil hrest)]
          · rfl
          rw [hsplit, List.foldl_cons, keepSegment, if_pos (Or.inl rfl), foldl_keepSegment hdots,
            List.nil_append]
      · have hbegun : Begun (c :: rest) := begun_of_cons hslash hc rfl
        have hhead : (c :: rest).head? ≠ some '/' := hbegun.head
        rw [normalizePath_eq_append hdot hbegun rfl, if_neg hhead]
        cases hsplit : (c :: rest).splitOn '/' with
        | nil => exact absurd hsplit (List.splitOn_ne_nil _ _)
        | cons first others =>
            obtain ⟨after, hafter, hend⟩ := exists_of_head?_splitOn (congrArg List.head? hsplit)
            have hne : first ≠ [] := by
              rintro rfl
              rcases hend with rfl | ⟨more, rfl⟩
              · exact hbegun.ne_nil hafter
              · exact hhead (by rw [hafter]; rfl)
            have hnot : first ≠ ['.'] := by
              rintro rfl
              rcases hend with rfl | ⟨more, rfl⟩
              · exact hsingle hafter
              · exact hstart ⟨more, hafter.symm⟩
            have hdots : ∀ segment ∈ others, segment ≠ ['.'] ∧ segment ≠ ['.', '.'] :=
              fun segment hsegment => ne_dots_of_mem_tail hdot (by rw [hsplit]; exact hsegment)
            have hfirst : keepSegment ((c :: rest).head? == some '/') [] first = [first] := by
              rw [keepSegment, if_neg (not_or.mpr ⟨hne, hnot⟩), beq_eq_false_iff_ne.mpr hhead]
              split <;> rfl
            rw [List.foldl_cons, hfirst, foldl_keepSegment hdots, List.filter_cons,
              if_pos (decide_eq_true hne)]
            rfl

/-- Of a dot segment at the beginning nothing is left. -/
theorem normalizePath_dot_slash (hslash : ¬ ['/', '/'] <:+: '.' :: '/' :: rest)
    (hdot : ¬ ['/', '.'] <:+: '.' :: '/' :: rest) (hrest : rest ≠ []) :
    normalizePath ('.' :: '/' :: rest) = rest := by
  have hsplit : ('.' :: '/' :: rest).splitOn '/' = ['.'] :: rest.splitOn '/' := by
    rw [splitOn_cons_of_ne (by decide), splitOn_cons_self]
    rfl
  have hdots : ∀ segment ∈ rest.splitOn '/', segment ≠ ['.'] ∧ segment ≠ ['.', '.'] :=
    fun segment hsegment => ne_dots_of_mem_tail hdot (by rw [hsplit]; exact hsegment)
  have hbegun : Begun rest :=
    begun_after_slash (fun hcontained => hslash (hcontained.trans (List.suffix_cons '.' _).isInfix)) hrest
  have hlast : ('.' :: '/' :: rest).getLast? = rest.getLast? :=
    List.getLast?_append_of_ne_nil ['.', '/'] hrest
  rw [normalizePath_eq_append hdot hbegun hlast, if_neg (by simp)]
  rw [hsplit, List.foldl_cons, keepSegment, if_pos (Or.inr rfl), foldl_keepSegment hdots,
    List.nil_append]

end Shortest

/-- A decoded form that the gate lets through as it is, and that begins with a dot
segment. -/
structure DotFirst (decoded : Text) : Prop where
  ungated : readNormalised decoded = false
  first : decoded = ['.'] ∨ ['.', '/'] <+: decoded

section DotFirst

variable {decoded : Text}

theorem infixes_of_ungated (hread : readNormalised decoded = false) :
    '\\' ∉ decoded ∧ ¬ ['/', '/'] <:+: decoded ∧ ¬ ['/', '.'] <:+: decoded := by
  rw [readNormalised, hasPath, Bool.or_eq_false_iff, Bool.or_eq_false_iff] at hread
  obtain ⟨hbackslash, hslash, hdot⟩ := hread
  rw [Bool.eq_false_iff, ne_eq, Text.hasInfix_iff] at hslash hdot
  exact ⟨by simpa using hbackslash, hslash, hdot⟩

theorem normalizePathWin_of_ungated (hread : readNormalised decoded = false) :
    normalizePathWin decoded = normalizePath decoded := by
  rw [normalizePathWin, replaceChar_of_not_mem (infixes_of_ungated hread).1]

/-- The forms the gate lets through are as short as they may be, those that begin
with a dot segment apart. -/
theorem normalizePathWin_eq_self (hread : readNormalised decoded = false)
    (hfirst : ¬ DotFirst decoded) : normalizePathWin decoded = decoded := by
  obtain ⟨-, hslash, hdot⟩ := infixes_of_ungated hread
  have hnot := fun hstart => hfirst ⟨hread, hstart⟩
  rw [normalizePathWin_of_ungated hread, normalizePath_eq_self hslash hdot
    (fun hsingle => hnot (Or.inl hsingle)) (fun hbegins => hnot (Or.inr hbegins))]

/-- What normalising leaves of such a form: less than it was, and no dot first. -/
theorem DotFirst.normalizePathWin_cases (hfirst : DotFirst decoded) :
    (decoded = ['.'] ∧ normalizePathWin decoded = []) ∨
      (decoded = ['.', '/'] ∧ normalizePathWin decoded = ['/']) ∨
      ∃ rest : Text, decoded = '.' :: '/' :: rest ∧ normalizePathWin decoded = rest ∧
        rest.head? ≠ some '.' := by
  obtain ⟨-, hslash, hdot⟩ := infixes_of_ungated hfirst.ungated
  rcases hfirst.first with rfl | ⟨rest, rfl⟩
  · exact Or.inl ⟨rfl, by decide⟩
  · by_cases hrest : rest = []
    · subst hrest
      exact Or.inr (Or.inl ⟨rfl, by decide⟩)
    · refine Or.inr (Or.inr ⟨rest, rfl, ?_, ?_⟩)
      · rw [normalizePathWin_of_ungated hfirst.ungated]
        exact normalizePath_dot_slash hslash hdot hrest
      · intro hhead
        obtain ⟨more, rfl⟩ := List.head?_eq_some_iff.mp hhead
        exact hdot ⟨['.'], more, rfl⟩

theorem DotFirst.head?_eq (hfirst : DotFirst decoded) : decoded.head? = some '.' := by
  rcases hfirst.first with rfl | ⟨rest, rfl⟩ <;> rfl

theorem DotFirst.head?_normalizePathWin (hfirst : DotFirst decoded) :
    (normalizePathWin decoded).head? ≠ some '.' := by
  rcases hfirst.normalizePathWin_cases with ⟨-, h⟩ | ⟨-, h⟩ | ⟨rest, -, h, hrest⟩
  · simp [h]
  · simp [h]
  · rw [h]
    exact hrest

/-- Fewer of the characters a dot and a slash are of. -/
theorem DotFirst.countP_lt (hfirst : DotFirst decoded) {p : Char → Bool} (hdot : p '.' = true)
    (hslash : p '/' = true) : (normalizePathWin decoded).countP p < decoded.countP p := by
  rcases hfirst.normalizePathWin_cases with ⟨h, hnorm⟩ | ⟨h, hnorm⟩ | ⟨rest, h, hnorm, -⟩
  · rw [hnorm, h]
    simp [hdot]
  · rw [hnorm, h]
    simp [hdot, hslash]
  · rw [hnorm, h]
    simp [hdot, hslash]

/-- And as many of the others. -/
theorem DotFirst.countP_eq (hfirst : DotFirst decoded) {p : Char → Bool} (hdot : p '.' = false)
    (hslash : p '/' = false) : (normalizePathWin decoded).countP p = decoded.countP p := by
  rcases hfirst.normalizePathWin_cases with ⟨h, hnorm⟩ | ⟨h, hnorm⟩ | ⟨rest, h, hnorm, -⟩
  · rw [hnorm, h]
    simp [hdot]
  · rw [hnorm, h]
    simp [hdot, hslash]
  · rw [hnorm, h]
    simp [hdot, hslash]

end DotFirst

section Counting

variable {p : Char → Bool}

theorem countP_join (hslash : p '/' = false) (segments : List Text) :
    (Text.join ['/'] segments).countP p = segments.flatten.countP p := by
  rw [Text.join]
  induction segments with
  | nil => rfl
  | cons segment rest ih =>
      cases rest with
      | nil => simp [List.intercalate_singleton]
      | cons next rest =>
          rw [List.intercalate_cons_cons, List.countP_append, List.countP_append, ih,
            List.flatten_cons, List.countP_append]
          simp [hslash]

theorem keepSegment_sublist (absolute : Bool) (kept : List Text) (segment : Text) :
    (keepSegment absolute kept segment).Sublist (kept ++ [segment]) := by
  have hkept : kept.Sublist (kept ++ [segment]) := List.sublist_append_left _ _
  rw [keepSegment]
  split_ifs
  · exact hkept
  · exact (List.dropLast_sublist kept).trans hkept
  · exact hkept
  · exact List.Sublist.refl _
  · exact List.Sublist.refl _

theorem foldl_keepSegment_sublist (absolute : Bool) (segments kept : List Text) :
    (segments.foldl (keepSegment absolute) kept).Sublist (kept ++ segments) := by
  induction segments generalizing kept with
  | nil => simp
  | cons segment rest ih =>
      rw [List.foldl_cons, ← List.singleton_append, ← List.append_assoc]
      exact (ih _).trans ((keepSegment_sublist absolute kept segment).append (List.Sublist.refl rest))

/-- Normalising adds slashes only. -/
theorem countP_normalizePath_le (hslash : p '/' = false) (text : Text) :
    (normalizePath text).countP p ≤ text.countP p := by
  have hkept (absolute : Bool) : (Text.join ['/']
      ((text.splitOn '/').foldl (keepSegment absolute) [])).countP p ≤ text.countP p :=
    calc _ = ((text.splitOn '/').foldl (keepSegment absolute) []).flatten.countP p :=
          countP_join hslash _
      _ ≤ (text.splitOn '/').flatten.countP p :=
          (foldl_keepSegment_sublist absolute (text.splitOn '/') []).flatten.countP_le
      _ = (Text.join ['/'] (text.splitOn '/')).countP p := (countP_join hslash _).symm
      _ = text.countP p := by rw [Text.join, List.intercalate_splitOn]
  have habsolute := hkept (text.head? == some '/')
  rw [normalizePath]
  split_ifs <;> simpa [hslash] using habsolute

theorem countP_normalizePathWin_le (hslash : p '/' = false) (text : Text) :
    (normalizePathWin text).countP p ≤ text.countP p := by
  apply (countP_normalizePath_le hslash _).trans
  rw [replaceChar, List.countP_map]
  apply List.countP_mono_left
  intro c hc hp
  simp only [Function.comp_apply] at hp
  split at hp
  · rw [hslash] at hp
    contradiction
  · exact hp

end Counting

end EasyWaf.Modules.ZoneText
