import EasyWaf.Modules.Normalised

/-!
# Normal paths

What `normalize_path` makes of a text is in normal form, and a text it made is one
it leaves as it is.  Both are seen segment by segment: the segments that are kept,
whether the path is absolute, and whether a slash ends it.
-/

namespace EasyWaf.Modules.ZoneText

open EasyWaf.Core

/-- The segment that leads up. -/
def parent : Text := ['.', '.']

/-- No segment is one to leave out, none but the first and the last is empty, and what
stands before one that leads up leads up too. -/
structure Normal (text : Text) : Prop where
  single : ['.'] ∉ text.splitOn '/'
  inner : [] ∉ (text.splitOn '/').tail.dropLast
  parents : ∀ before after, text.splitOn '/' = before ++ parent :: after →
    ∀ segment ∈ before, segment = parent

section Ends

variable {text segment : Text}

theorem splitOn_of_not_mem (hsegment : '/' ∉ segment) : segment.splitOn '/' = [segment] := by
  have hplain : ∀ other ∈ [segment], '/' ∉ other := by simpa using hsegment
  simpa using List.splitOn_intercalate '/' hplain (List.cons_ne_nil _ _)

/-- A text ends with a slash and a segment where that segment is the last of
several. -/
theorem slash_suffix_iff (hsegment : '/' ∉ segment) :
    '/' :: segment <:+ text ↔ ∃ others, others ≠ [] ∧ text.splitOn '/' = others ++ [segment] := by
  constructor
  · rintro ⟨before, rfl⟩
    refine ⟨before.splitOn '/', List.splitOn_ne_nil _ _, ?_⟩
    rw [List.splitOn_append_cons_self, splitOn_of_not_mem hsegment]
  · rintro ⟨others, hothers, hsplit⟩
    have hplain : ∀ other ∈ others, '/' ∉ other := by
      intro other hother hslash
      have hmem : other ∈ text.splitOn '/' := hsplit ▸ List.mem_append_left _ hother
      exact (mem_of_mem_splitOn hmem hslash).2 rfl
    have hsame : (Text.join ['/'] others ++ '/' :: segment).splitOn '/' = text.splitOn '/' := by
      rw [List.splitOn_append_cons_self, Text.join, List.splitOn_intercalate '/' hplain hothers,
        splitOn_of_not_mem hsegment, hsplit]
    have htext := congrArg (['/'] : Text).intercalate hsame
    rw [List.intercalate_splitOn, List.intercalate_splitOn] at htext
    exact ⟨_, htext⟩

end Ends

section Kept

/-- Segments as a path keeps them. -/
structure Keeps (absolute : Bool) (kept : List Text) : Prop where
  plain : ∀ segment ∈ kept, segment ≠ [] ∧ segment ≠ ['.'] ∧ '/' ∉ segment
  parents : ∀ before after, kept = before ++ parent :: after →
    absolute = false ∧ ∀ segment ∈ before, segment = parent

variable {absolute : Bool} {kept : List Text} {segment : Text}

theorem keeps_nil : Keeps absolute [] where
  plain := by simp
  parents before after hkept := by simp at hkept

theorem Keeps.dropLast (hkeeps : Keeps absolute kept) : Keeps absolute kept.dropLast where
  plain segment hsegment := hkeeps.plain segment (List.mem_of_mem_dropLast hsegment)
  parents before after hkept := by
    have hne : kept ≠ [] := by
      rintro rfl
      simp at hkept
    apply hkeeps.parents before (after ++ [kept.getLast hne])
    calc kept = kept.dropLast ++ [kept.getLast hne] := (List.dropLast_concat_getLast hne).symm
      _ = before ++ parent :: (after ++ [kept.getLast hne]) := by
        rw [hkept, List.append_assoc, List.cons_append]

theorem Keeps.concat (hkeeps : Keeps absolute kept)
    (hplain : segment ≠ [] ∧ segment ≠ ['.'] ∧ '/' ∉ segment)
    (hparent : segment = parent → absolute = false ∧ ∀ other ∈ kept, other = parent) :
    Keeps absolute (kept ++ [segment]) where
  plain := by
    simp only [List.mem_append, List.mem_singleton]
    rintro other (hother | rfl)
    · exact hkeeps.plain other hother
    · exact hplain
  parents before after hkept := by
    obtain rfl | ⟨others, last, rfl⟩ := List.eq_nil_or_concat' after
    · obtain ⟨rfl, hlast⟩ := List.append_inj' hkept rfl
      exact hparent (List.singleton_inj.mp hlast)
    · have hinit : kept ++ [segment] = (before ++ parent :: others) ++ [last] := by
        simpa using hkept
      exact hkeeps.parents before others (List.append_inj' hinit rfl).1

/-- The segments kept after one more. -/
theorem Keeps.keepSegment (hkeeps : Keeps absolute kept) (hsegment : '/' ∉ segment) :
    Keeps absolute (keepSegment absolute kept segment) := by
  rw [ZoneText.keepSegment]
  split
  · exact hkeeps
  next hempty =>
    rw [not_or] at hempty
    split
    · next hparent =>
        split
        · exact hkeeps.dropLast
        next hlast =>
          split
          · exact hkeeps
          next habsolute =>
            apply hkeeps.concat ⟨hempty.1, hempty.2, hsegment⟩
            intro _
            refine ⟨by simpa using habsolute, ?_⟩
            obtain rfl | ⟨others, last, rfl⟩ := List.eq_nil_or_concat' kept
            · simp
            · obtain rfl : last = parent := by simpa [parent] using hlast
              intro other hother
              obtain hother | hother := List.mem_append.mp hother
              · exact (hkeeps.parents others [] rfl).2 other hother
              · exact List.mem_singleton.mp hother
    · next hparent =>
        apply hkeeps.concat ⟨hempty.1, hempty.2, hsegment⟩
        exact fun heq => absurd heq hparent

theorem keeps_foldl {segments : List Text} (hsegments : ∀ segment ∈ segments, '/' ∉ segment)
    (hkeeps : Keeps absolute kept) :
    Keeps absolute (segments.foldl (ZoneText.keepSegment absolute) kept) := by
  induction segments generalizing kept with
  | nil => exact hkeeps
  | cons segment rest ih =>
      obtain ⟨hsegment, hrest⟩ := List.forall_mem_cons.mp hsegments
      exact ih hrest (hkeeps.keepSegment hsegment)

/-- Segments as a path keeps them are all kept. -/
theorem Keeps.foldl_append {segments : List Text} (hkeeps : Keeps absolute (kept ++ segments)) :
    segments.foldl (ZoneText.keepSegment absolute) kept = kept ++ segments := by
  induction segments generalizing kept with
  | nil => exact (List.append_nil kept).symm
  | cons segment rest ih =>
      obtain ⟨hnil, hsingle, -⟩ := hkeeps.plain segment (by simp)
      have hkeep : ZoneText.keepSegment absolute kept segment = kept ++ [segment] := by
        rw [ZoneText.keepSegment, if_neg (by simp [hnil, hsingle])]
        split
        · next hparent =>
            obtain ⟨habsolute, hothers⟩ := hkeeps.parents kept rest (by rw [hparent]; rfl)
            have hlast : kept.getLast?.any (· != ['.', '.']) = false := by
              rw [Option.any_eq_false]
              intro last hmem
              simpa [parent] using hothers last (List.mem_of_getLast? hmem)
            rw [hlast, habsolute]
            rfl
        · rfl
      have happend : kept ++ segment :: rest = kept ++ [segment] ++ rest := by
        rw [List.append_assoc, List.singleton_append]
      rw [List.foldl_cons, hkeep, happend, ih (happend ▸ hkeeps)]

end Kept

section Render

/-- A path that begins with a slash or not, that ends with one or not, and that has
segments between. -/
def framed (absolute : Bool) (kept : List Text) (trailing : Bool) : List Text :=
  (if absolute then [[]] else []) ++ kept ++ (if trailing then [[]] else [])

/-- The text of such a path. -/
def render (absolute : Bool) (kept : List Text) (trailing : Bool) : Text :=
  if kept = [] then if absolute || trailing then ['/'] else []
  else Text.join ['/'] (framed absolute kept trailing)

/-- A path that ends with a segment that leads up ends with a slash, unless that is all
there is of it. -/
def Closed (absolute : Bool) (kept : List Text) (trailing : Bool) : Prop :=
  trailing = false → kept.getLast? = some parent → absolute = false ∧ kept = [parent]

variable {absolute trailing : Bool} {kept : List Text} {text : Text}

theorem splitOn_render (hkeeps : Keeps absolute kept) (hkept : kept ≠ []) :
    (render absolute kept trailing).splitOn '/' = framed absolute kept trailing := by
  rw [render, if_neg hkept, Text.join]
  apply List.splitOn_intercalate
  · intro segment hsegment
    simp only [framed, List.mem_append] at hsegment
    obtain (hsegment | hsegment) | hsegment := hsegment
    · split at hsegment <;> simp_all
    · exact (hkeeps.plain segment hsegment).2.2
    · split at hsegment <;> simp_all
  · simp [framed, hkept]

theorem normal_slash : Normal ['/'] where
  single := by decide
  inner := by decide
  parents before after hsplit := by
    have hmem : parent ∈ (['/'] : Text).splitOn '/' := by simp [hsplit]
    exact absurd hmem (by decide)

theorem normal_nil : Normal [] where
  single := by decide
  inner := by decide
  parents before after hsplit := by
    have hmem : parent ∈ ([] : Text).splitOn '/' := by simp [hsplit]
    exact absurd hmem (by decide)

/-- A segment that leads up stands among those that are kept. -/
theorem exists_of_framed {before after : List Text}
    (hframed : framed absolute kept trailing = before ++ parent :: after) :
    ∃ before' after', kept = before' ++ parent :: after' ∧ (absolute = false → before = before') := by
  have htail {before : List Text}
      (heq : kept ++ (if trailing then [[]] else []) = before ++ parent :: after) :
      ∃ after', kept = before ++ parent :: after' := by
    cases trailing with
    | false => exact ⟨after, by simpa using heq⟩
    | true =>
        obtain rfl | ⟨others, last, rfl⟩ := List.eq_nil_or_concat' after
        · have hlast := (List.append_inj' heq rfl).2
          contradiction
        · have hinit : kept ++ [[]] = (before ++ parent :: others) ++ [last] := by simpa using heq
          exact ⟨others, (List.append_inj' hinit rfl).1⟩
  cases absolute with
  | false =>
      obtain ⟨after', hkept⟩ := htail (by simpa [framed] using hframed)
      exact ⟨before, after', hkept, fun _ => rfl⟩
  | true =>
      cases before with
      | nil =>
          have hhead := congrArg List.head? hframed
          simp [framed, parent] at hhead
      | cons first before =>
          obtain ⟨after', hkept⟩ := htail (List.cons.inj hframed).2
          exact ⟨before, after', hkept, fun h => absurd h Bool.true_eq_false_eq_False⟩

theorem mem_of_mem_inner {segment : Text}
    (hsegment : segment ∈ (framed absolute kept trailing).tail.dropLast) : segment ∈ kept := by
  cases kept with
  | nil => cases absolute <;> cases trailing <;> simp [framed] at hsegment
  | cons first rest =>
      have hdrop (hmem : segment ∈ (first :: rest).dropLast) : segment ∈ first :: rest :=
        List.mem_of_mem_dropLast hmem
      cases absolute <;> cases trailing <;> simp [framed] at hsegment
      · exact List.mem_cons_of_mem _ (List.mem_of_mem_dropLast hsegment)
      · exact List.mem_cons_of_mem _ hsegment
      · exact hdrop hsegment
      · rwa [← List.cons_append, List.dropLast_concat] at hsegment

theorem normal_render (hkeeps : Keeps absolute kept) : Normal (render absolute kept trailing) := by
  by_cases hkept : kept = []
  · rw [render, if_pos hkept]
    split
    · exact normal_slash
    · exact normal_nil
  have hsplit : (render absolute kept trailing).splitOn '/' = framed absolute kept trailing :=
    splitOn_render hkeeps hkept
  constructor
  · rw [hsplit]
    intro hmem
    simp only [framed, List.mem_append] at hmem
    obtain (hmem | hmem) | hmem := hmem
    · split at hmem <;> simp at hmem
    · exact (hkeeps.plain _ hmem).2.1 rfl
    · split at hmem <;> simp at hmem
  · rw [hsplit]
    exact fun hmem => (hkeeps.plain _ (mem_of_mem_inner hmem)).1 rfl
  · rw [hsplit]
    intro before after hframed
    obtain ⟨before', after', hkept', hbefore⟩ := exists_of_framed hframed
    obtain ⟨habsolute, hparents⟩ := hkeeps.parents before' after' hkept'
    exact hbefore habsolute ▸ hparents

end Render

section Path

variable {absolute trailing : Bool} {kept : List Text} {text : Text}

def isAbsolute (text : Text) : Bool := text.head? == some '/'

def isTrailing (text : Text) : Bool :=
  text.getLast? == some '/' || ['/', '.'].isSuffixOf text || ['/', '.', '.'].isSuffixOf text

/-- The segments `normalize_path` keeps. -/
def keptOf (text : Text) : List Text :=
  (text.splitOn '/').foldl (keepSegment (isAbsolute text)) []

theorem keeps_keptOf (text : Text) : Keeps (isAbsolute text) (keptOf text) :=
  keeps_foldl (fun _ hsegment hslash => (mem_of_mem_splitOn hsegment hslash).2 rfl) keeps_nil

theorem isTrailing_iff : isTrailing text = true ↔ ∃ others last, others ≠ [] ∧
    text.splitOn '/' = others ++ [last] ∧ (last = [] ∨ last = ['.'] ∨ last = parent) := by
  have hslash : text.getLast? = some '/' ↔ ['/'] <:+ text := by
    rw [List.getLast?_eq_some_iff]
    exact exists_congr fun _ => eq_comm
  simp only [isTrailing, Bool.or_eq_true, beq_iff_eq, hslash, List.isSuffixOf_iff_suffix, or_assoc]
  constructor
  · rintro (hend | hend | hend)
    · obtain ⟨others, hothers, hsplit⟩ := (slash_suffix_iff (by simp)).mp hend
      exact ⟨others, [], hothers, hsplit, .inl rfl⟩
    · obtain ⟨others, hothers, hsplit⟩ := (slash_suffix_iff (by simp)).mp hend
      exact ⟨others, ['.'], hothers, hsplit, .inr (.inl rfl)⟩
    · obtain ⟨others, hothers, hsplit⟩ := (slash_suffix_iff (by simp)).mp hend
      exact ⟨others, parent, hothers, hsplit, .inr (.inr rfl)⟩
  · rintro ⟨others, last, hothers, hsplit, rfl | rfl | rfl⟩
    · exact .inl ((slash_suffix_iff (by simp)).mpr ⟨others, hothers, hsplit⟩)
    · exact .inr (.inl ((slash_suffix_iff (by simp)).mpr ⟨others, hothers, hsplit⟩))
    · exact .inr (.inr ((slash_suffix_iff (by simp)).mpr ⟨others, hothers, hsplit⟩))

theorem closed_keptOf (text : Text) : Closed (isAbsolute text) (keptOf text) (isTrailing text) := by
  intro hopen hlast
  obtain hnil | ⟨others, last, hsplit⟩ := List.eq_nil_or_concat' (text.splitOn '/')
  · exact absurd hnil (List.splitOn_ne_nil _ _)
  rw [keptOf, hsplit, List.foldl_append, List.foldl_cons, List.foldl_nil] at hlast ⊢
  by_cases hothers : others = []
  · subst hothers
    have htext : last = text := by
      simpa using (congrArg (['/'] : Text).intercalate hsplit).symm.trans
        (List.intercalate_splitOn '/')
    subst htext
    have hsegment : last ∈ last.splitOn '/' := by simp [hsplit]
    have hslash : '/' ∉ last := fun hmem => (mem_of_mem_splitOn hsegment hmem).2 rfl
    have hrelative : isAbsolute last = false := by
      rw [isAbsolute, beq_eq_false_iff_ne]
      exact fun hhead => hslash (List.mem_of_head? hhead)
    rw [List.foldl_nil, hrelative] at hlast ⊢
    by_cases hempty : last = [] ∨ last = ['.']
    · rw [keepSegment, if_pos hempty] at hlast
      contradiction
    · have hkeep : keepSegment false [] last = [last] := by
        rw [keepSegment, if_neg hempty]
        split <;> rfl
      rw [hkeep] at hlast ⊢
      obtain rfl := Option.some.inj hlast
      exact ⟨rfl, rfl⟩
  · have hordinary : ¬ (last = [] ∨ last = ['.'] ∨ last = parent) := by
      intro hends
      rw [isTrailing_iff.mpr ⟨others, last, hothers, hsplit, hends⟩] at hopen
      contradiction
    simp only [not_or] at hordinary
    obtain ⟨hnil, hsingle, hparent⟩ := hordinary
    rw [keepSegment, if_neg (by simp [hnil, hsingle]),
      if_neg (show ¬ last = ['.', '.'] from hparent), List.getLast?_concat] at hlast
    exact absurd (Option.some.inj hlast) hparent

/-- The slash a path begins with and its segments. -/
theorem join_framed_open (hkept : kept ≠ []) :
    Text.join ['/'] (framed absolute kept false) =
      if absolute then '/' :: Text.join ['/'] kept else Text.join ['/'] kept := by
  cases absolute with
  | false => simp [framed]
  | true => simp [framed, Text.join, List.intercalate_cons_of_ne_nil hkept]

theorem join_framed_closed (hkept : kept ≠ []) :
    Text.join ['/'] (framed absolute kept true) =
      Text.join ['/'] (framed absolute kept false) ++ ['/'] := by
  have hopen : framed absolute kept false ≠ [] := by simp [framed, hkept]
  have hframed : framed absolute kept true = framed absolute kept false ++ [[]] := by
    simp [framed]
  rw [hframed, Text.join, intercalate_append hopen (List.cons_ne_nil _ _),
    List.intercalate_singleton, List.append_nil]
  rfl

/-- The last segment kept is followed by no slash of its own. -/
theorem getLast?_join_framed (hkeeps : Keeps absolute kept) (hkept : kept ≠ []) :
    (Text.join ['/'] (framed absolute kept false)).getLast? ≠ some '/' := by
  intro hlast
  obtain ⟨before, hbefore⟩ := List.getLast?_eq_some_iff.mp hlast
  have hsplit : (render absolute kept false).splitOn '/' = framed absolute kept false :=
    splitOn_render hkeeps hkept
  rw [render, if_neg hkept, hbefore, List.splitOn_append_cons_self, List.splitOn_nil] at hsplit
  obtain ⟨others, last, rfl⟩ := (List.eq_nil_or_concat' kept).resolve_left hkept
  have hframed : framed absolute (others ++ [last]) false =
      ((if absolute then [[]] else []) ++ others) ++ [last] := by simp [framed]
  rw [hframed] at hsplit
  obtain rfl : [] = last := List.singleton_inj.mp (List.append_inj' hsplit rfl).2
  exact (hkeeps.plain [] (by simp)).1 rfl

theorem normalizePath_eq (text : Text) :
    normalizePath text = render (isAbsolute text) (keptOf text) (isTrailing text) := by
  have hkeeps := keeps_keptOf text
  change (if isTrailing text && (if isAbsolute text then '/' :: Text.join ['/'] (keptOf text)
    else Text.join ['/'] (keptOf text)).getLast? != some '/' then
      (if isAbsolute text then '/' :: Text.join ['/'] (keptOf text)
        else Text.join ['/'] (keptOf text)) ++ ['/']
    else if isAbsolute text then '/' :: Text.join ['/'] (keptOf text)
      else Text.join ['/'] (keptOf text)) = _
  by_cases hkept : keptOf text = []
  · rw [hkept, render, if_pos rfl]
    cases isAbsolute text <;> cases isTrailing text <;> rfl
  · rw [← join_framed_open hkept, render, if_neg hkept]
    have hlast := getLast?_join_framed hkeeps hkept
    cases isTrailing text with
    | false => rfl
    | true => rw [if_pos (by simpa using hlast), join_framed_closed hkept]

theorem isAbsolute_render (hkeeps : Keeps absolute kept) (hkept : kept ≠ []) :
    isAbsolute (render absolute kept trailing) = absolute := by
  cases absolute with
  | true =>
      rw [render, if_neg hkept]
      simp [framed, isAbsolute, Text.join, List.intercalate_cons_of_ne_nil, hkept]
  | false =>
      rw [isAbsolute, beq_eq_false_iff_ne]
      intro hhead
      obtain ⟨rest, hrest⟩ := List.head?_eq_some_iff.mp hhead
      have hsplit : (render false kept trailing).splitOn '/' = framed false kept trailing :=
        splitOn_render hkeeps hkept
      obtain ⟨first, others, rfl⟩ := List.exists_cons_of_ne_nil hkept
      rw [hrest, splitOn_cons_self] at hsplit
      obtain rfl : [] = first := (List.cons.inj hsplit).1
      exact (hkeeps.plain [] List.mem_cons_self).1 rfl

/-- The slash that ends a path is written where one is to end it. -/
theorem isTrailing_render (hkeeps : Keeps absolute kept) (hkept : kept ≠ [])
    (hclosed : Closed absolute kept trailing) :
    isTrailing (render absolute kept trailing) = trailing := by
  have hsplit : (render absolute kept trailing).splitOn '/' = framed absolute kept trailing :=
    splitOn_render hkeeps hkept
  cases trailing with
  | true =>
      rw [isTrailing_iff]
      exact ⟨_, [], by simp [hkept], hsplit, .inl rfl⟩
  | false =>
      rw [Bool.eq_false_iff, Ne, isTrailing_iff]
      rintro ⟨others, last, hothers, hends, hlast⟩
      obtain ⟨before, final, rfl⟩ := (List.eq_nil_or_concat' kept).resolve_left hkept
      have hframed : framed absolute (before ++ [final]) false =
          ((if absolute then [[]] else []) ++ before) ++ [final] := by simp [framed]
      rw [hsplit, hframed] at hends
      obtain ⟨rfl, hfinal⟩ := List.append_inj' hends rfl
      obtain rfl := List.singleton_inj.mp hfinal
      obtain ⟨hnil, hsingle, -⟩ := hkeeps.plain final (by simp)
      obtain rfl : final = parent := (hlast.resolve_left hnil).resolve_left hsingle
      obtain ⟨rfl, hkept'⟩ := hclosed rfl List.getLast?_concat
      obtain rfl : before = [] := by simpa using hkept'
      exact hothers rfl

/-- A path in the form `normalize_path` gives one is left as it is. -/
theorem normalizePath_render (hkeeps : Keeps absolute kept) (hclosed : Closed absolute kept trailing) :
    normalizePath (render absolute kept trailing) = render absolute kept trailing := by
  by_cases hkept : kept = []
  · rw [render, if_pos hkept]
    split <;> decide
  have hsplit : (render absolute kept trailing).splitOn '/' = framed absolute kept trailing :=
    splitOn_render hkeeps hkept
  have habsolute : isAbsolute (render absolute kept trailing) = absolute :=
    isAbsolute_render hkeeps hkept
  have hkeptOf : keptOf (render absolute kept trailing) = kept := by
    rw [keptOf, hsplit, habsolute, framed, List.foldl_append, List.foldl_append]
    have hleading : (if absolute then [[]] else []).foldl (keepSegment absolute) [] = [] := by
      cases absolute <;> rfl
    have hkept' : kept.foldl (keepSegment absolute) [] = kept := hkeeps.foldl_append
    rw [hleading, hkept']
    cases trailing <;> rfl
  rw [normalizePath_eq, habsolute, hkeptOf, isTrailing_render hkeeps hkept hclosed]

theorem normal_normalizePath (text : Text) : Normal (normalizePath text) := by
  rw [normalizePath_eq]
  exact normal_render (keeps_keptOf text)

theorem normalizePath_normalizePath (text : Text) :
    normalizePath (normalizePath text) = normalizePath text := by
  rw [normalizePath_eq text]
  exact normalizePath_render (keeps_keptOf text) (closed_keptOf text)

/-- A path has no character of its own but slashes and those of its text. -/
theorem mem_of_mem_normalizePath {c : Char} (hc : c ∈ normalizePath text) (hslash : c ≠ '/') :
    c ∈ text := by
  have hcount : 0 < (normalizePath text).countP (· == c) :=
    List.countP_pos_iff.mpr ⟨c, hc, beq_self_eq_true c⟩
  have hne : ('/' == c) = false := beq_eq_false_iff_ne.mpr hslash.symm
  have hle : (normalizePath text).countP (· == c) ≤ text.countP (· == c) :=
    countP_normalizePath_le hne text
  obtain ⟨d, hd, heq⟩ := List.countP_pos_iff.mp (hcount.trans_le hle)
  exact beq_iff_eq.mp heq ▸ hd

theorem normalizePathWin_normalizePathWin (text : Text) :
    normalizePathWin (normalizePathWin text) = normalizePathWin text := by
  have hold : '\\' ∉ normalizePathWin text := by
    intro hmem
    obtain ⟨c, -, hc⟩ := List.mem_map.mp (mem_of_mem_normalizePath hmem (by decide))
    split at hc
    · simp at hc
    · next hne => exact hne hc
  rw [normalizePathWin, replaceChar_of_not_mem hold, normalizePathWin, normalizePath_normalizePath]

/-- What `normalize_path` makes of a text is normal and stays as it is, and what
`normalize_path_win` makes of one stays as it is. -/
theorem normalizePath_normal_form (text : Text) :
    Normal (normalizePath text) ∧ normalizePath (normalizePath text) = normalizePath text ∧
      normalizePathWin (normalizePathWin text) = normalizePathWin text :=
  ⟨normal_normalizePath text, normalizePath_normalizePath text,
    normalizePathWin_normalizePathWin text⟩

end Path

end EasyWaf.Modules.ZoneText
