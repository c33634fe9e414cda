import EasyWaf.Gateway.SignInGate
import EasyWaf.Http.Segments
import EasyWaf.Modules.Inspect

/-!
# What an exclusion covers

An exclusion is decided on the path the backend is sent.  A backend that decodes
that path resolves what the decoding brings to light, and a `..` behind an encoded
slash leads out of the prefix again.
-/

namespace EasyWaf.Modules.Paths

open Http Gateway

theorem percentDecode_append_slash (start rest : Text) :
    percentDecode (start ++ '/' :: rest) = percentDecode start ++ '/' :: percentDecode rest := by
  have hbytes : Text.bytes ('/' :: rest) = 47 :: Text.bytes rest := rfl
  rw [percentDecode, Text.bytes_append, hbytes, decodeBinary_append_slash,
    Text.fromUtf8Lossy_append_cons (by decide)]
  rfl

/-- Whether what follows a text follows a slash. -/
def endsInSlash (slash : Bool) (text : Text) : Bool :=
  (text.getLast?.map (· == '/')).getD slash

theorem mergeAfter_append (slash : Bool) (start rest : Text) :
    mergeAfter slash (start ++ rest) =
      mergeAfter slash start ++ mergeAfter (endsInSlash slash start) rest := by
  induction start generalizing slash with
  | nil => rfl
  | cons c start ih =>
      have hends : endsInSlash slash (c :: start) = endsInSlash (c == '/') start := by
        cases start with
        | nil => rfl
        | cons d start =>
            rw [endsInSlash, List.getLast?_cons_cons, endsInSlash,
              List.getLast?_eq_some_getLast (List.cons_ne_nil d start)]
            rfl
      rw [List.cons_append, mergeAfter, mergeAfter, hends]
      split
      · rw [ih, List.cons_append]
      · rename_i hskip
        obtain ⟨rfl, rfl⟩ : c = '/' ∧ slash = true := by simpa using hskip
        exact ih true

theorem length_mergeAfter_le (slash : Bool) (text : Text) :
    (mergeAfter slash text).length ≤ text.length := by
  induction text generalizing slash with
  | nil => exact le_rfl
  | cons c rest ih =>
      rw [mergeAfter]
      split
      · exact Nat.succ_le_succ (ih _)
      · exact (ih slash).trans (Nat.le_succ _)

/-- A text that a slash may follow without being merged with it. -/
theorem endsInSlash_of_merged {start : Text}
    (hmerged : mergeSlashes (start ++ ['/']) = start ++ ['/']) :
    endsInSlash false start = false := by
  by_contra hends
  have hmerge : mergeAfter true ['/'] = [] := rfl
  rw [mergeSlashes, mergeAfter_append, Bool.eq_true_of_not_eq_false hends, hmerge,
    List.append_nil] at hmerged
  have hlength := length_mergeAfter_le false start
  rw [hmerged, List.length_append, List.length_singleton] at hlength
  omega

theorem mergeSlashes_append_slash {start : Text} (hmerged : mergeSlashes start = start)
    (hlast : start.getLast? ≠ some '/') (rest : Text) :
    mergeSlashes (start ++ '/' :: rest) = start ++ '/' :: mergeAfter true rest := by
  have hends : endsInSlash false start = false := by
    cases hstart : start.getLast? with
    | none => rw [endsInSlash, hstart]; rfl
    | some c =>
        rw [hstart, ne_eq, Option.some.injEq] at hlast
        simpa [endsInSlash, hstart] using hlast
  calc mergeSlashes (start ++ '/' :: rest)
      = mergeSlashes start ++ mergeAfter false ('/' :: rest) := by
        rw [mergeSlashes, mergeAfter_append, hends, mergeSlashes]
    _ = start ++ '/' :: mergeAfter true rest := by
        rw [hmerged, mergeAfter, if_pos (Or.inr rfl)]
        rfl

theorem join_splitOn_append (text : Text) {below : List Text} (hbelow : below ≠ []) :
    Text.join ['/'] (text.splitOn '/' ++ below) = text ++ '/' :: Text.join ['/'] below := by
  have happend : ∀ segments : List Text, segments ≠ [] →
      Text.join ['/'] (segments ++ below) =
        Text.join ['/'] segments ++ '/' :: Text.join ['/'] below := by
    intro segments hsegments
    induction segments with
    | nil => exact absurd rfl hsegments
    | cons segment rest ih =>
        cases rest with
        | nil =>
            rw [List.singleton_append, Text.join, List.intercalate_cons_of_ne_nil hbelow,
              Text.join, List.intercalate_singleton, List.append_assoc]
            rfl
        | cons following rest =>
            rw [Text.join, List.cons_append, List.intercalate_cons_of_ne_nil (by simp), ← Text.join,
              ih (List.cons_ne_nil _ _), Text.join.eq_def ['/'] (segment :: following :: rest),
              List.intercalate_cons_cons, ← Text.join, ← List.append_assoc]
  rw [happend _ (List.splitOn_ne_nil '/' text), Text.join, List.intercalate_splitOn]

section Below

variable {url : Url} {start path read : Text}

/-- A path a segment or more below another. -/
def Below (start path : Text) : Prop := ∃ rest, path = start ++ '/' :: rest

/-- A path that decoding, resolving and merging leave as it is, and that a slash
may follow. -/
structure Plain (url : Url) (start : Text) : Prop where
  forwarded : Forwarded url start
  decoded : percentDecode start = start
  merged : mergeSlashes start = start
  last : start.getLast? ≠ some '/'

/-- The segments of a path. -/
def segments (path : Text) : List Text := path.tail.splitOn '/'

theorem segments_append_slash (hstart : Absolute start) (rest : Text) :
    segments (start ++ '/' :: rest) = segments start ++ rest.splitOn '/' := by
  obtain ⟨start, rfl⟩ := hstart
  exact List.splitOn_append_cons_self start rest

theorem Plain.mergeSlashes (hplain : Plain url start) (hpath : Below start path) :
    Below start (mergeSlashes path) := by
  obtain ⟨rest, rfl⟩ := hpath
  exact ⟨_, mergeSlashes_append_slash hplain.merged hplain.last rest⟩

theorem Plain.percentDecode (hplain : Plain url start) (hpath : Below start path) :
    Below start (percentDecode path) := by
  obtain ⟨rest, rfl⟩ := hpath
  exact ⟨_, by rw [percentDecode_append_slash, hplain.decoded]⟩

theorem Plain.resolveDots (hplain : Plain url start) (hpath : Below start path)
    (hup : ['.', '.'] ∉ segments path) : Below start (resolveDots path) := by
  obtain ⟨rest, rfl⟩ := hpath
  rw [segments_append_slash hplain.forwarded.absolute] at hup
  obtain ⟨start, rfl, hparsed⟩ := hplain.forwarded
  have hdotless : ∀ segment ∈ start.splitOn '/',
      (segment == ['.']) = false ∧ (segment == ['.', '.']) = false := by
    intro segment hsegment
    obtain ⟨hsingle, hdouble⟩ := hparsed.dotless segment hsegment
    constructor
    · rw [beq_eq_false_iff_ne]
      rintro rfl
      exact absurd hsingle (by decide)
    · rw [beq_eq_false_iff_ne]
      rintro rfl
      exact absurd hdouble (by decide)
  have hdouble : ∀ segment ∈ rest.splitOn '/', (segment == ['.', '.']) = false := by
    intro segment hsegment
    rw [beq_eq_false_iff_ne]
    rintro rfl
    exact hup (List.mem_append_right _ hsegment)
  obtain ⟨below, hne, hbelow⟩ := exists_removeDots_eq (List.splitOn_ne_nil '/' rest) hdouble
    (start.splitOn '/')
  refine ⟨Text.join ['/'] below, ?_⟩
  calc Gateway.resolveDots ('/' :: start ++ '/' :: rest)
      = '/' :: Text.join ['/'] (removeDots (· == ['.']) (· == ['.', '.']) []
          (start.splitOn '/' ++ rest.splitOn '/')) := by
        rw [Gateway.resolveDots, List.cons_append, List.tail_cons,
          List.splitOn_append_cons_self]
    _ = '/' :: Text.join ['/'] (start.splitOn '/' ++ below) := by
        rw [removeDots_append _ _ (List.splitOn_ne_nil '/' rest), walk_of_dotless hdotless,
          List.nil_append, hbelow]
    _ = '/' :: start ++ '/' :: Text.join ['/'] below := by
        rw [join_splitOn_append start hne, List.cons_append]

/-- Merging brings no segment to light that was not there. -/
theorem segments_mergeSlashes_subset (hstart : Absolute start) :
    segments (Paths.mergeSlashes start) ⊆ segments start := by
  obtain ⟨rest, rfl⟩ := hstart
  rw [mergeSlashes_slash]
  exact (splitOn_mergeAfter rest).2

/-- What a backend makes of a path below a plain one stays below it, where no `..`
comes to light. -/
theorem Plain.below_of_mem_backendReadings (hplain : Plain url start)
    (hforwarded : Forwarded url path) (hpath : Below start path)
    (hup : ['.', '.'] ∉ segments (Paths.percentDecode path))
    (hread : read ∈ backendReadings path) : Below start read := by
  have hdecoded := hplain.percentDecode hpath
  have habsolute := hforwarded.absolute.percentDecode
  rw [backendReadings, List.flatMap_cons, List.flatMap_cons, List.flatMap_nil, List.append_nil,
    settle_of_forwarded hforwarded, settle] at hread
  simp only [List.mem_append, List.mem_cons, List.not_mem_nil, or_false, or_self] at hread
  rcases hread with rfl | rfl | rfl
  · exact hplain.mergeSlashes hpath
  · exact hplain.mergeSlashes (hplain.resolveDots hdecoded hup)
  · exact hplain.resolveDots (hplain.mergeSlashes hdecoded)
      fun hmem => hup (segments_mergeSlashes_subset habsolute hmem)

theorem Plain.eq_of_mem_backendReadings (hplain : Plain url start)
    (hread : read ∈ backendReadings start) : read = start := by
  rw [backendReadings, List.flatMap_cons, List.flatMap_cons, List.flatMap_nil, hplain.decoded,
    settle_of_forwarded hplain.forwarded, hplain.merged] at hread
  simpa using hread

end Below

end EasyWaf.Modules.Paths

namespace EasyWaf.Modules.Waf

open Http Net Paths Gateway

variable {url : Url}

section Prefix

variable {start path pathPrefix : Text}

theorem underPrefix_iff_of_last (hstart : start ≠ []) (hlast : start.getLast? ≠ some '/') :
    underPrefix path start ↔ path = start ∨ Below start path := by
  rw [underPrefix_of_getLast? hstart hlast]
  constructor
  · rintro ⟨rest, rfl, rfl | hslash⟩
    · exact Or.inl (List.append_nil start)
    · obtain ⟨below, rfl⟩ := List.head?_eq_some_iff.mp hslash
      exact Or.inr ⟨below, rfl⟩
  · rintro (rfl | ⟨rest, rfl⟩)
    · exact ⟨[], (List.append_nil _).symm, Or.inl rfl⟩
    · exact ⟨'/' :: rest, rfl, Or.inr rfl⟩

theorem underPrefix_concat_iff : underPrefix path (start ++ ['/']) ↔ Below start path := by
  rw [underPrefix, List.isEmpty_eq_false_iff.mpr (by simp), Bool.false_or]
  split
  · rename_i rest hrest
    obtain ⟨start', rfl, hstart'⟩ := List.dropPrefix?_eq_some_iff.mp hrest
    obtain rfl := eq_of_beq hstart'
    simp [Below]
  · rename_i hnone
    simp only [Bool.false_eq_true, false_iff]
    rintro ⟨rest, rfl⟩
    rw [← List.singleton_append, ← List.append_assoc,
      List.dropPrefix?_append_of_beq rest (beq_self_eq_true _)] at hnone
    contradiction

/-- What lies under a prefix that is not empty begins with it. -/
theorem exists_append_of_underPrefix (hbegins : pathPrefix ≠ [])
    (hunder : underPrefix path pathPrefix) : ∃ rest, path = pathPrefix ++ rest := by
  by_cases hlast : pathPrefix.getLast? = some '/'
  · obtain ⟨start, rfl⟩ := List.getLast?_eq_some_iff.mp hlast
    obtain ⟨rest, rfl⟩ := underPrefix_concat_iff.mp hunder
    exact ⟨rest, by simp⟩
  · rcases (underPrefix_iff_of_last hbegins hlast).mp hunder with rfl | ⟨rest, rfl⟩
    · exact ⟨[], (List.append_nil _).symm⟩
    · exact ⟨'/' :: rest, rfl⟩

theorem underPrefix_append_slash (hbegins : pathPrefix ≠ []) (rest : Text) :
    underPrefix (pathPrefix ++ '/' :: rest) pathPrefix := by
  by_cases hlast : pathPrefix.getLast? = some '/'
  · obtain ⟨start, rfl⟩ := List.getLast?_eq_some_iff.mp hlast
    exact underPrefix_concat_iff.mpr ⟨'/' :: rest, by simp⟩
  · exact (underPrefix_iff_of_last hbegins hlast).mpr (Or.inr ⟨rest, rfl⟩)

/-- The beginning of a forwarded path is forwarded, where a segment ends. -/
theorem forwarded_of_append {rest : Text} (hstart : Absolute start)
    (hpath : Forwarded url (start ++ '/' :: rest)) : Forwarded url start := by
  obtain ⟨start, rfl⟩ := hstart
  obtain ⟨whole, hwhole, hparsed⟩ := hpath
  obtain rfl : start ++ '/' :: rest = whole := (List.cons.inj hwhole).2
  refine ⟨start, rfl, fun c hc => hparsed.plain c (List.mem_append_left _ hc), ?_⟩
  intro segment hsegment
  apply hparsed.dotless
  rw [List.splitOn_append_cons_self]
  exact List.mem_append_left _ hsegment

theorem forwarded_concat_slash (hstart : Forwarded url start) :
    Forwarded url (start ++ ['/']) := by
  obtain ⟨start, rfl, hparsed⟩ := hstart
  refine ⟨start ++ ['/'], rfl, ?_, ?_⟩
  · intro c hc hslash
    rcases List.mem_append.mp hc with hc | hc
    · exact hparsed.plain c hc hslash
    · exact absurd (List.mem_singleton.mp hc) hslash
  · intro segment hsegment
    rw [List.splitOn_append_cons_self, List.splitOn_nil] at hsegment
    rcases List.mem_append.mp hsegment with hsegment | hsegment
    · exact hparsed.dotless segment hsegment
    · rw [List.mem_singleton.mp hsegment]
      decide

theorem absolute_of_append {rest : Text} (hne : start ≠ [])
    (hpath : Absolute (start ++ rest)) : Absolute start := by
  obtain ⟨c, tail, rfl⟩ := List.exists_cons_of_ne_nil hne
  obtain ⟨whole, hwhole⟩ := hpath
  obtain rfl : c = '/' := (List.cons.inj hwhole).1
  exact ⟨tail, rfl⟩

theorem forwarded_root : Forwarded url ['/'] :=
  ⟨[], rfl, fun _ hc => absurd hc List.not_mem_nil, fun segment hsegment => by
    rw [List.mem_singleton.mp hsegment]
    decide⟩

/-- A prefix a forwarded path lies under could be forwarded itself. -/
theorem forwarded_of_underPrefix (hbegins : pathPrefix ≠ []) (hpath : Forwarded url path)
    (hunder : underPrefix path pathPrefix) : Forwarded url pathPrefix := by
  by_cases hlast : pathPrefix.getLast? = some '/'
  · obtain ⟨start, rfl⟩ := List.getLast?_eq_some_iff.mp hlast
    obtain ⟨rest, rfl⟩ := underPrefix_concat_iff.mp hunder
    by_cases hstart : start = []
    · subst hstart
      exact forwarded_root
    · exact forwarded_concat_slash
        (forwarded_of_append (absolute_of_append hstart hpath.absolute) hpath)
  · rcases (underPrefix_iff_of_last hbegins hlast).mp hunder with rfl | ⟨rest, rfl⟩
    · exact hpath
    · exact forwarded_of_append (absolute_of_append hbegins hpath.absolute) hpath

/-- The plain prefix that ends in a slash is one that does not, and the slash. -/
theorem plain_of_concat (hne : start ≠ []) (hforwarded : Forwarded url (start ++ ['/']))
    (hdecoded : percentDecode (start ++ ['/']) = start ++ ['/'])
    (hmerged : mergeSlashes (start ++ ['/']) = start ++ ['/']) : Plain url start where
  forwarded := forwarded_of_append (absolute_of_append hne hforwarded.absolute) hforwarded
  decoded := by
    have hparts := (percentDecode_append_slash start []).symm.trans hdecoded
    exact List.append_cancel_right hparts
  merged := by
    have hparts := hmerged
    rw [mergeSlashes, mergeAfter_append, endsInSlash_of_merged hmerged] at hparts
    exact List.append_cancel_right hparts
  last := by
    intro hlast
    have hends := endsInSlash_of_merged hmerged
    rw [endsInSlash, hlast] at hends
    contradiction

end Prefix

section Climb

/-- As many encoded `../` as lead from any path of so many segments to the root. -/
def climb (steps : ℕ) : Text := (List.replicate steps "%2E%2E%2F".toList).flatten

theorem percentDecode_climb (steps : ℕ) :
    percentDecode (climb steps) = (List.replicate steps "../".toList).flatten := by
  induction steps with
  | zero => rfl
  | succ steps ih =>
      have hdecode : percentDecode (climb (steps + 1)) =
          '.' :: '.' :: '/' :: percentDecode (climb steps) := by
        have hbytes : decodeBinary (climb (steps + 1)).bytes =
            46 :: 46 :: 47 :: decodeBinary (climb steps).bytes := by
          rw [climb, List.replicate_succ, List.flatten_cons, Text.bytes_append]
          rfl
        rw [percentDecode, hbytes, Text.fromUtf8Lossy_cons_of_lt (by decide),
          Text.fromUtf8Lossy_cons_of_lt (by decide), Text.fromUtf8Lossy_cons_of_lt (by decide)]
        rfl
      rw [hdecode, ih, List.replicate_succ, List.flatten_cons]
      rfl

theorem splitOn_climbed (steps : ℕ) :
    ((List.replicate steps "../".toList).flatten).splitOn '/' =
      List.replicate steps ['.', '.'] ++ [[]] := by
  induction steps with
  | zero => rfl
  | succ steps ih =>
      have hsplit : ∀ rest : Text, ('.' :: '.' :: '/' :: rest).splitOn '/' =
          ['.', '.'] :: rest.splitOn '/' := fun rest =>
        List.splitOn_append_cons_self ['.', '.'] rest
      calc ((List.replicate (steps + 1) "../".toList).flatten).splitOn '/'
          = ('.' :: '.' :: '/' :: (List.replicate steps "../".toList).flatten).splitOn '/' := rfl
        _ = ['.', '.'] :: (List.replicate steps ['.', '.'] ++ [[]]) := by rw [hsplit, ih]
        _ = List.replicate (steps + 1) ['.', '.'] ++ [[]] := rfl

theorem plain_of_mem_climb {steps : ℕ} {c : Char} (hc : c ∈ climb steps) :
    c ≠ '/' ∧ url.escapes c = false ∧ c ≠ '\\' ∧ c ≠ '?' ∧ c ≠ '#' := by
  obtain ⟨step, hstep, hc⟩ := List.mem_flatten.mp hc
  rw [List.eq_of_mem_replicate hstep] at hc
  have hdigit : ∀ d ∈ "%2E%2E%2F".toList, d ∈ '%' :: hexDigits ∧
      d ≠ '/' ∧ d ≠ '\\' ∧ d ≠ '?' ∧ d ≠ '#' := by simp [hexDigits]
  obtain ⟨hdigits, hslash, hothers⟩ := hdigit c hc
  exact ⟨hslash, url.escapes_escape c hdigits, hothers⟩

theorem isDot_climb (steps : ℕ) :
    Url.isSingleDot (climb steps) = false ∧ Url.isDoubleDot (climb steps) = false := by
  cases steps with
  | zero => decide
  | succ steps =>
      have hlength : 9 ≤ (climb (steps + 1)).toAsciiLowercase.length := by
        rw [climb, List.replicate_succ, List.flatten_cons, Text.toAsciiLowercase, List.length_map,
          List.length_append]
        exact Nat.le_add_right 9 _
      constructor
      · rw [Url.isSingleDot, List.contains_eq_mem, decide_eq_false_iff_not]
        intro hmem
        have hshort : ∀ dot ∈ [".".toList, "%2e".toList], dot.length < 9 := by decide
        exact absurd (hshort _ hmem) (not_lt.mpr hlength)
      · rw [Url.isDoubleDot, List.contains_eq_mem, decide_eq_false_iff_not]
        intro hmem
        have hshort : ∀ dot ∈ ["..".toList, ".%2e".toList, "%2e.".toList, "%2e%2e".toList],
            dot.length < 9 := by decide
        exact absurd (hshort _ hmem) (not_lt.mpr hlength)

/-- The climb is one segment of a path as it is forwarded, and no dot segment. -/
theorem forwarded_append_climb {pathPrefix : Text} (hbegins : Forwarded url pathPrefix)
    (steps : ℕ) : Forwarded url (pathPrefix ++ '/' :: climb steps) := by
  obtain ⟨start, rfl, hparsed⟩ := hbegins
  refine ⟨start ++ '/' :: climb steps, rfl, ?_, ?_⟩
  · intro c hc hslash
    rcases List.mem_append.mp hc with hc | hc
    · exact hparsed.plain c hc hslash
    · exact (plain_of_mem_climb ((List.mem_cons.mp hc).resolve_left hslash)).2
  · have hclimb : (climb steps).splitOn '/' = [climb steps] :=
      List.splitOn_eq_singleton fun hmem => (@plain_of_mem_climb url _ _ hmem).1 rfl
    intro segment hsegment
    rw [List.splitOn_append_cons_self, hclimb] at hsegment
    rcases List.mem_append.mp hsegment with hsegment | hsegment
    · exact hparsed.dotless segment hsegment
    · rw [List.mem_singleton.mp hsegment]
      exact isDot_climb steps

/-- Decoded and resolved, the path is the root. -/
theorem root_mem_backendReadings {pathPrefix : Text} (hbegins : Absolute pathPrefix) :
    ['/'] ∈ backendReadings
      (pathPrefix ++ '/' :: climb (segments (percentDecode pathPrefix)).length) := by
  let steps := (segments (percentDecode pathPrefix)).length
  have hdecode : segments (percentDecode (pathPrefix ++ '/' :: climb steps)) =
      segments (percentDecode pathPrefix) ++ (List.replicate steps ['.', '.'] ++ [[]]) := by
    rw [percentDecode_append_slash, segments_append_slash hbegins.percentDecode,
      percentDecode_climb, splitOn_climbed]
  have hwalk : (walk (· == ['.']) (· == ['.', '.']) [] (segments (percentDecode pathPrefix))).length
      ≤ steps := by
    simpa using length_walk_le [] (segments (percentDecode pathPrefix))
  have hresolve : resolveDots (percentDecode (pathPrefix ++ '/' :: climb steps)) = ['/'] := by
    calc resolveDots (percentDecode (pathPrefix ++ '/' :: climb steps))
        = '/' :: Text.join ['/'] (removeDots (· == ['.']) (· == ['.', '.']) []
            (segments (percentDecode pathPrefix) ++ (List.replicate steps ['.', '.'] ++ [[]]))) := by
          rw [← hdecode]
          rfl
      _ = '/' :: Text.join ['/'] [[]] := by
          rw [removeDots_append _ _ (by simp), removeDots_climb (by decide) (by decide) hwalk]
      _ = ['/'] := rfl
  have hmem : ['/'] ∈ settle (percentDecode (pathPrefix ++ '/' :: climb steps)) := by
    rw [settle, hresolve]
    exact List.mem_cons_self
  rw [backendReadings, List.flatMap_cons, List.flatMap_cons]
  exact List.mem_append_right _ (List.mem_append_left _ hmem)

end Climb

/-- Whether an exclusion is about a rule and a client, whatever the path. -/
def Exclusion.covers (exclusion : Exclusion) (rule : RuleRow) (client : IpAddr) : Bool :=
  (match exclusion.externalId, exclusion.ruleId with
    | some number, _ => rule.externalId = some number
    | none, some id => rule.id = id
    | none, none => false) &&
  match exclusion.client with
  | some block => block.contains client
  | none => true

theorem Exclusion.silences_iff {exclusion : Exclusion} {rule : RuleRow} {path : Text}
    {client : IpAddr} :
    exclusion.silences rule path client ↔
      exclusion.covers rule client ∧ underPrefix path exclusion.pathPrefix := by
  rw [silences, covers, Bool.and_eq_true, Bool.and_eq_true, Bool.and_eq_true]
  exact and_right_comm

section Readings

theorem absolute_of_mem_backendReadings {sent read : Text} (hread : read ∈ backendReadings sent) :
    Absolute read := by
  obtain ⟨written, -, hread⟩ := List.mem_flatMap.mp hread
  exact absolute_of_mem_settle hread

variable {exclusion : Exclusion} {rule : RuleRow} {client : IpAddr} {path read : Text}

/-- An exclusion under a plain prefix covers what a backend reads below it, where
decoding brings no `..` to light. -/
theorem Exclusion.underPrefix_of_plain (hbegins : exclusion.pathPrefix ≠ [])
    (hdecoded : percentDecode exclusion.pathPrefix = exclusion.pathPrefix)
    (hmerged : mergeSlashes exclusion.pathPrefix = exclusion.pathPrefix)
    (hforwarded : Forwarded url path) (hup : ['.', '.'] ∉ segments (percentDecode path))
    (hunder : underPrefix path exclusion.pathPrefix) (hread : read ∈ backendReadings path) :
    underPrefix read exclusion.pathPrefix := by
  have hplain := forwarded_of_underPrefix hbegins hforwarded hunder
  by_cases hlast : exclusion.pathPrefix.getLast? = some '/'
  · obtain ⟨start, hstart⟩ := List.getLast?_eq_some_iff.mp hlast
    rw [hstart] at hdecoded hmerged hunder hplain ⊢
    rw [underPrefix_concat_iff] at hunder ⊢
    by_cases hroot : start = []
    · subst hroot
      exact absolute_of_mem_backendReadings hread
    · exact (plain_of_concat hroot hplain hdecoded hmerged).below_of_mem_backendReadings hforwarded
        hunder hup hread
  · have hplain : Plain url exclusion.pathPrefix := ⟨hplain, hdecoded, hmerged, hlast⟩
    rw [underPrefix_iff_of_last hbegins hlast] at hunder ⊢
    rcases hunder with rfl | hbelow
    · exact Or.inl (hplain.eq_of_mem_backendReadings hread)
    · exact Or.inr (hplain.below_of_mem_backendReadings hforwarded hbelow hup hread)

/-- An exclusion covers only what a backend reads under its prefix, for every
request, where it never applies or its prefix is the root.  Under any other prefix
it does so where the prefix reads the same decoded and merged and decoding the path
brings no `..` to light. -/
theorem silences_under_prefix (url : Url) (exclusion : Exclusion) (rule : RuleRow)
    (client : IpAddr) (hbegins : exclusion.pathPrefix ≠ []) :
    ((∀ rest read : Text,
        exclusion.silences rule (pathAsForwarded url ('/' :: rest)) client →
        read ∈ backendReadings (pathAsForwarded url ('/' :: rest)) →
        underPrefix read exclusion.pathPrefix) ↔
      exclusion.covers rule client = false ∨ exclusion.pathPrefix = ['/'] ∨
        ¬ Forwarded url exclusion.pathPrefix) ∧
    (percentDecode exclusion.pathPrefix = exclusion.pathPrefix →
      mergeSlashes exclusion.pathPrefix = exclusion.pathPrefix →
      ∀ rest read : Text,
        ['.', '.'] ∉ segments (percentDecode (pathAsForwarded url ('/' :: rest))) →
        exclusion.silences rule (pathAsForwarded url ('/' :: rest)) client →
        read ∈ backendReadings (pathAsForwarded url ('/' :: rest)) →
        underPrefix read exclusion.pathPrefix) := by
  have hforwarded (rest : Text) : Forwarded url (pathAsForwarded url ('/' :: rest)) :=
    Absolute.forwarded ⟨rest, rfl⟩
  refine ⟨⟨fun hheld => ?_, ?_⟩, ?_⟩
  · by_contra hnone
    simp only [not_or, Bool.not_eq_false, not_not] at hnone
    obtain ⟨hcovers, hroot, hreached⟩ := hnone
    -- a request below the prefix that climbs to the root once it is decoded
    let path := exclusion.pathPrefix ++
      '/' :: climb (segments (percentDecode exclusion.pathPrefix)).length
    have hpath : Forwarded url path := forwarded_append_climb hreached _
    obtain ⟨rest, hrest⟩ := hpath.absolute
    have hsent : pathAsForwarded url ('/' :: rest) = path := by
      rw [← hrest]
      exact hpath.pathAsForwarded_eq
    have hunder := hheld rest ['/']
    rw [hsent] at hunder
    have habove := hunder
      (Exclusion.silences_iff.mpr ⟨hcovers, underPrefix_append_slash hbegins _⟩)
      (root_mem_backendReadings hreached.absolute)
    obtain ⟨below, hbelow⟩ := exists_append_of_underPrefix hbegins habove
    obtain ⟨start, hstart⟩ := hreached.absolute
    rw [hstart] at hbelow hroot
    obtain ⟨rfl, -⟩ := List.append_eq_nil_iff.mp (List.cons.inj hbelow).2.symm
    exact hroot rfl
  · rintro (hcovers | hroot | hreached) rest read hsilences hread
    · rw [Exclusion.silences_iff, hcovers] at hsilences
      exact absurd hsilences.1 Bool.false_ne_true
    · rw [hroot]
      obtain ⟨below, rfl⟩ := absolute_of_mem_backendReadings hread
      change underPrefix ([] ++ '/' :: below) ([] ++ ['/'])
      exact underPrefix_concat_iff.mpr ⟨below, rfl⟩
    · exact absurd (forwarded_of_underPrefix hbegins (hforwarded rest)
        (Exclusion.silences_iff.mp hsilences).2) hreached
  · intro hdecoded hmerged rest read hup hsilences hread
    exact Exclusion.underPrefix_of_plain hbegins hdecoded hmerged (hforwarded rest) hup
      (Exclusion.silences_iff.mp hsilences).2 hread

section Files

/-- A rule switched off below `/files`. -/
def filesExclusion : Exclusion where
  externalId := some 942100
  ruleId := none
  pathPrefix := "/files".toList
  client := none

def sqlRule : RuleRow where
  id := 1
  externalId := some 942100
  name := "SQL injection".toList
  zone := "ARGS".toList
  targets := none
  pattern := []
  negate := false
  chain := []
  conditions := []
  score := 5
  action := "score".toList

theorem files_exclusion_covers_plain_path :
    filesExclusion.pathPrefix ≠ [] ∧ underPrefix "/files/a b".toList filesExclusion.pathPrefix :=
  ⟨by decide, ( silences_under_prefix .standard filesExclusion sqlRule (.v4 0) (by decide)).2
    (by decide +kernel) (by decide +kernel) "files/a%20b".toList _ (by decide +kernel)
    (by decide +kernel) (by decide +kernel)⟩

/-- An encoded slash behind the prefix: the rule is off for what the backend reads
as `/admin`. -/
theorem files_exclusion_reaches_admin :
    let sent := pathAsForwarded .standard "/files/..%2fadmin".toList
    filesExclusion.silences sqlRule sent (.v4 0) = true ∧
      "/admin".toList ∈ backendReadings sent ∧
      underPrefix "/admin".toList filesExclusion.pathPrefix = false := by
  decide +kernel

end Files

end Readings

end EasyWaf.Modules.Waf
