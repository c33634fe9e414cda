import EasyWaf.Gateway.Settings
import EasyWaf.Modules.Paths

/-!
# Which paths need a sign-in

`SiteAuth::needs_sign_in` decides on the path as it is forwarded and on the ways
the path as typed may be read.  A backend decodes, resolves and merges what it
is sent, which is the path as forwarded.  The two agree exactly where what the
backend makes of the decoded path is one of the ways the gate looked at.
-/

namespace EasyWaf.Gateway

open Http Modules.Paths

/-- `under`: the path is the prefix or below it, whatever slashes the prefix ends
in. -/
def under (path pathPrefix : Text) : Bool :=
  underPrefix path
    (if 1 < pathPrefix.bytes.length then pathPrefix.trimEndMatches (· == '/') else pathPrefix)

namespace SiteAuth

/-- Whether one reading of a path has to be signed in for: a protected prefix is
matched whatever its case, a bypass exactly. -/
def asks (auth : SiteAuth) (read : Text) : Bool :=
  let isProtected := auth.protect.isEmpty ||
    auth.protect.any fun p => under read.toAsciiLowercase p.toAsciiLowercase
  let isBypassed := auth.bypass.any (under read)
  isProtected && !isBypassed

/-- `needs_sign_in`. -/
def needsSignIn (auth : SiteAuth) (url : Url) (path : Text) : Bool :=
  (pathAsForwarded url path :: normalisedPaths url path).any auth.asks

end SiteAuth

section Backend

/-- A path with its `.` and `..` segments resolved. -/
def resolveDots (path : Text) : Text :=
  '/' :: Text.join ['/']
    (removeDots (· == ['.']) (· == ['.', '.']) [] (path.tail.splitOn '/'))

/-- A path resolved and merged, in either order. -/
def settle (path : Text) : List Text :=
  [mergeSlashes (resolveDots path), resolveDots (mergeSlashes path)]

/-- The paths a backend may make of the one it is sent, decoding it at most once. -/
def backendReadings (sent : Text) : List Text :=
  [sent, percentDecode sent].flatMap settle

theorem absolute_of_mem_settle {path read : Text} (hread : read ∈ settle path) :
    Absolute read := by
  simp only [settle, List.mem_cons, List.not_mem_nil, or_false] at hread
  rcases hread with rfl | rfl
  · exact Absolute.mergeSlashes ⟨_, rfl⟩
  · exact ⟨_, rfl⟩

theorem resolveDots_of_forwarded {url : Url} {path : Text} (hpath : Forwarded url path) :
    resolveDots path = path := by
  obtain ⟨rest, rfl, hparsed⟩ := hpath
  have hdotless : ∀ segment ∈ rest.splitOn '/',
      (segment == ['.']) = false ∧ (segment == ['.', '.']) = false := by
    intro segment hsegment
    obtain ⟨hsingle, hdouble⟩ := hparsed.dotless segment hsegment
    constructor
    · rw [beq_eq_false_iff_ne]
      rintro rfl
      exact absurd hsingle (by decide)
    · rw [beq_eq_false_iff_ne]
      rintro rfl
      exact absurd hdouble (by decide)
  rw [resolveDots, List.tail_cons, removeDots_of_dotless hdotless, List.nil_append, Text.join,
    List.intercalate_splitOn]

/-- A backend that does not decode what it is sent only merges its slashes. -/
theorem settle_of_forwarded {url : Url} {path : Text} (hpath : Forwarded url path) :
    settle path = [mergeSlashes path, mergeSlashes path] := by
  rw [settle, resolveDots_of_forwarded hpath, resolveDots_of_forwarded hpath.mergeSlashes]

end Backend

section Under

/-- A path or prefix without the slashes it ends in. -/
def stem (path : Text) : Text := path.trimEndMatches (· == '/')

variable {path other pathPrefix : Text}

theorem exists_eq_stem_append (path : Text) :
    ∃ slashes : ℕ, path = stem path ++ List.replicate slashes '/' := by
  obtain ⟨slashes, hslashes⟩ : ∃ slashes : ℕ, path.rtakeWhile (· == '/') =
      List.replicate slashes '/' :=
    ⟨_, List.eq_replicate_of_mem fun c hc => by simpa using List.mem_rtakeWhile_imp hc⟩
  refine ⟨slashes, ?_⟩
  rw [← hslashes]
  exact List.rdropWhile_append_rtakeWhile.symm

theorem getLast?_stem (path : Text) : (stem path).getLast? ≠ some '/' := by
  intro hlast
  have hne : stem path ≠ [] := by
    intro hnil
    rw [hnil] at hlast
    contradiction
  rw [List.getLast?_eq_some_getLast hne] at hlast
  exact List.rdropWhile_last_not _ _ hne (beq_iff_eq.mpr (Option.some.inj hlast))

theorem stem_eq_self (hlast : path.getLast? ≠ some '/') : stem path = path := by
  refine List.rdropWhile_eq_self_iff.mpr fun hne hslash => hlast ?_
  rw [List.getLast?_eq_some_getLast hne, beq_iff_eq.mp hslash]

/-- Slashes at the end of a path do not change what it is below. -/
theorem concat_prefix_append_replicate {start : Text} (hlast : start.getLast? ≠ some '/')
    (slashes : ℕ) :
    start ++ ['/'] <+: path ++ List.replicate slashes '/' ++ ['/'] ↔
      start ++ ['/'] <+: path ++ ['/'] := by
  induction slashes with
  | zero => rw [List.replicate_zero, List.append_nil]
  | succ slashes ih =>
      rw [List.replicate_succ', ← List.append_assoc, List.prefix_concat_iff, ih]
      refine or_iff_right fun heq => hlast ?_
      rw [List.append_cancel_right heq, List.getLast?_concat]

theorem concat_prefix_concat {start : Text} :
    start ++ ['/'] <+: path ++ ['/'] ↔
      ∃ rest, path = start ++ rest ∧ (rest = [] ∨ rest.head? = some '/') := by
  rw [List.prefix_concat_iff, List.append_cancel_right_eq]
  constructor
  · rintro (rfl | ⟨rest, rfl⟩)
    · exact ⟨[], (List.append_nil _).symm, Or.inl rfl⟩
    · exact ⟨'/' :: rest, by simp, Or.inr rfl⟩
  · rintro ⟨rest, rfl, rfl | hslash⟩
    · exact Or.inl (List.append_nil _).symm
    · obtain ⟨below, rfl⟩ := List.head?_eq_some_iff.mp hslash
      exact Or.inr ⟨below, by simp⟩

theorem underPrefix_of_getLast? {start : Text} (hstart : start ≠ [])
    (hlast : start.getLast? ≠ some '/') (path : Text) :
    underPrefix path start ↔
      ∃ rest, path = start ++ rest ∧ (rest = [] ∨ rest.head? = some '/') := by
  have hempty : start.isEmpty = false := by simpa using hstart
  have hslash : (start.getLast? == some '/') = false := beq_eq_false_iff_ne.mpr hlast
  rw [underPrefix, hempty, Bool.false_or]
  split
  · rename_i rest hrest
    obtain ⟨start', rfl, hstart'⟩ := List.dropPrefix?_eq_some_iff.mp hrest
    obtain rfl := eq_of_beq hstart'
    rw [hslash, Bool.false_or, Bool.or_eq_true, List.isEmpty_iff, beq_iff_eq]
    constructor
    · exact fun h => ⟨rest, rfl, h⟩
    · rintro ⟨rest', heq, h⟩
      rwa [List.append_cancel_left heq]
  · rename_i hnone
    simp only [Bool.false_eq_true, false_iff]
    rintro ⟨rest, rfl, -⟩
    rw [List.dropPrefix?_append_of_beq rest (beq_self_eq_true start)] at hnone
    contradiction

theorem length_le_bytes (text : Text) : text.length ≤ text.bytes.length := by
  induction text with
  | nil => rfl
  | cons c rest ih =>
      have hc : 0 < (String.utf8EncodeChar c).length :=
        List.length_pos_of_ne_nil String.utf8EncodeChar_ne_nil
      rw [Text.bytes_cons, List.length_append, List.length_cons]
      omega

/-- A prefix of one byte is a character that is no slash, or the root. -/
theorem trimmed_eq_stem (hroot : pathPrefix ≠ ['/']) :
    (if 1 < pathPrefix.bytes.length then pathPrefix.trimEndMatches (· == '/') else pathPrefix) =
      stem pathPrefix := by
  split
  · rfl
  · rename_i hlength
    have hle := length_le_bytes pathPrefix
    symm
    match pathPrefix with
    | [] => rfl
    | [c] => exact stem_eq_self (by simpa using hroot)
    | _ :: _ :: _ => simp only [List.length_cons] at hle; omega

/-- A path is under a prefix whose own text, slashes at its end aside, the path
goes on from with a slash or ends with. -/
theorem under_iff (hpath : Absolute path) (pathPrefix : Text) :
    under path pathPrefix ↔
      stem pathPrefix = [] ∨ stem pathPrefix ++ ['/'] <+: stem path ++ ['/'] := by
  by_cases hroot : pathPrefix = ['/']
  · obtain ⟨rest, rfl⟩ := hpath
    subst hroot
    have hstem : stem ['/'] = [] := by decide
    rw [hstem]
    simp [under, underPrefix, Text.bytes, String.utf8EncodeChar, List.dropPrefix?]
  · rw [under, trimmed_eq_stem hroot]
    by_cases hstem : stem pathPrefix = []
    · rw [hstem, underPrefix]
      simp
    · obtain ⟨slashes, hslashes⟩ := exists_eq_stem_append path
      have hlast := getLast?_stem pathPrefix
      calc underPrefix path (stem pathPrefix)
          ↔ ∃ rest, path = stem pathPrefix ++ rest ∧ (rest = [] ∨ rest.head? = some '/') :=
            underPrefix_of_getLast? hstem hlast path
        _ ↔ stem pathPrefix ++ ['/'] <+: path ++ ['/'] := concat_prefix_concat.symm
        _ ↔ stem pathPrefix ++ ['/'] <+: stem path ++ ['/'] := by
            conv_lhs => rw [hslashes]
            exact concat_prefix_append_replicate hlast slashes
        _ ↔ _ := (or_iff_right hstem).symm

theorem stem_prefix_of_under (hpath : Absolute path) (hunder : under path other) :
    stem other ++ ['/'] <+: stem path ++ ['/'] := by
  refine ((under_iff hpath other).mp hunder).elim (fun hnil => ?_) id
  obtain ⟨slashes, hslashes⟩ := exists_eq_stem_append path
  obtain ⟨rest, rfl⟩ := hpath
  rw [hnil, List.nil_append]
  cases hstem : stem ('/' :: rest) with
  | nil => exact List.prefix_rfl
  | cons c tail =>
      rw [hstem] at hslashes
      obtain rfl : '/' = c := (List.cons.inj hslashes).1
      exact ⟨tail ++ ['/'], rfl⟩

theorem stem_toAsciiLowercase (path : Text) :
    stem path.toAsciiLowercase = (stem path).toAsciiLowercase := by
  have hlower : ∀ c : Char, (c.toLower == '/') = (c == '/') := by
    intro c
    rw [Bool.eq_iff_iff, beq_iff_eq, beq_iff_eq]
    constructor
    · intro hslash
      have halpha : c.isAlpha = false := by
        rw [← Char.isAlpha_toLower_eq_isAlpha, hslash]
        rfl
      have hupper : ¬ c.isUpper := fun hupper => by simp [Char.isAlpha, hupper] at halpha
      rw [← Char.toLower_eq_of_not_isUpper hupper, hslash]
    · rintro rfl
      rfl
  rw [stem, stem, Text.trimEndMatches, Text.trimEndMatches, List.rdropWhile, List.rdropWhile,
    Text.toAsciiLowercase, ← List.map_reverse, List.dropWhile_map, ← List.map_reverse]
  congr 2
  exact congrArg (fun p => List.dropWhile p _) (funext hlower)

/-- Paths that differ in the slashes they end in are under the same prefixes. -/
theorem under_congr (hpath : Absolute path) (hother : Absolute other)
    (hstem : stem path = stem other) : under path = under other := by
  funext pathPrefix
  rw [Bool.eq_iff_iff, under_iff hpath, under_iff hother, hstem]

theorem under_self (hpath : Absolute path) : under path path :=
  (under_iff hpath path).mpr (Or.inr List.prefix_rfl)

/-- Each of two paths under the other, whatever its case, they are the same but
for the slashes they end in. -/
theorem stem_eq_of_under (hpath : Absolute path) (hother : Absolute other)
    (hunder : under path other)
    (hlower : under other.toAsciiLowercase path.toAsciiLowercase) : stem path = stem other := by
  have hbegins := stem_prefix_of_under hpath hunder
  have hlength := (stem_prefix_of_under hother.toAsciiLowercase hlower).length_le
  rw [stem_toAsciiLowercase, stem_toAsciiLowercase] at hlength
  simp only [Text.toAsciiLowercase, List.length_append, List.length_map] at hlength
  have heq : stem other ++ ['/'] = stem path ++ ['/'] :=
    hbegins.eq_of_length_le (by simpa using hlength)
  exact (List.append_cancel_right heq).symm

end Under

section Gate

variable {url : Url} {path read : Text}

theorem asks_congr {other : Text} (hread : Absolute read) (hother : Absolute other)
    (hstem : stem read = stem other) (auth : SiteAuth) : auth.asks read = auth.asks other := by
  have hlower : stem read.toAsciiLowercase = stem other.toAsciiLowercase := by
    rw [stem_toAsciiLowercase, stem_toAsciiLowercase, hstem]
  rw [SiteAuth.asks, SiteAuth.asks, under_congr hread hother hstem,
    under_congr hread.toAsciiLowercase hother.toAsciiLowercase hlower]

theorem needsSignIn_iff (hpath : Absolute path) (auth : SiteAuth) :
    auth.needsSignIn url path ↔
      ∃ reading ∈ pathAsForwarded url path :: candidates url path, auth.asks reading := by
  rw [SiteAuth.needsSignIn, List.any_eq_true]
  simp only [mem_forwarded_or_normalised url hpath]

theorem absolute_of_mem_readings (hpath : Absolute path) {reading : Text}
    (hreading : reading ∈ pathAsForwarded url path :: candidates url path) :
    Absolute reading := by
  rcases List.mem_cons.mp hreading with rfl | hreading
  · exact hpath.forwarded.absolute
  · exact (hpath.forwarded_of_mem_candidates hreading).absolute

/-- The gate holds for what a backend reads, whatever a site protects and lets
by, exactly where the gate itself reads that path, but for the slashes at its
end. -/
theorem needsSignIn_of_asks_iff (hpath : Absolute path) (hread : Absolute read) :
    (∀ auth : SiteAuth, auth.asks read → auth.needsSignIn url path) ↔
      ∃ reading ∈ pathAsForwarded url path :: candidates url path, stem reading = stem read := by
  constructor
  · intro hgate
    -- everything the gate reads is let by that does not let the backend's path by with it
    let readings := pathAsForwarded url path :: candidates url path
    let auth := SiteAuth.asking read (readings.filter fun reading => !under read reading)
    have hasks : auth.asks read := by
      simp only [SiteAuth.asks, auth, SiteAuth.asking, List.isEmpty_cons, Bool.false_or,
        List.any_cons, List.any_nil, Bool.or_false, under_self hread.toAsciiLowercase,
        Bool.true_and, Bool.not_eq_eq_eq_not, Bool.not_true, List.any_eq_false]
      intro reading hreading
      simpa using (List.mem_filter.mp hreading).2
    obtain ⟨reading, hmem, hreading⟩ := (needsSignIn_iff hpath auth).mp (hgate auth hasks)
    have habsolute := absolute_of_mem_readings hpath hmem
    simp only [SiteAuth.asks, auth, SiteAuth.asking, List.isEmpty_cons, Bool.false_or,
      List.any_cons, List.any_nil, Bool.or_false, Bool.and_eq_true, Bool.not_eq_eq_eq_not,
      Bool.not_true, List.any_eq_false] at hreading
    obtain ⟨hprotected, hbypassed⟩ := hreading
    refine ⟨reading, hmem, (stem_eq_of_under hread habsolute ?_ hprotected).symm⟩
    by_contra hunder
    have hlet : reading ∈ readings.filter fun reading => !under read reading :=
      List.mem_filter.mpr ⟨hmem, by simpa using hunder⟩
    exact hbypassed reading hlet (under_self habsolute)
  · rintro ⟨reading, hmem, hstem⟩ auth hasks
    refine (needsSignIn_iff hpath auth).mpr ⟨reading, hmem, ?_⟩
    rw [asks_congr (absolute_of_mem_readings hpath hmem) hread hstem]
    exact hasks

/-- The gate holds for what the backend reads of a path, on every site, exactly
where what the backend makes of the decoded path, in both orders, is among what
the gate makes of the path as typed. -/
theorem gate_holds_for_backend_iff (url : Url) (rest : Text) :
    (∀ auth : SiteAuth, ∀ read ∈ backendReadings (pathAsForwarded url ('/' :: rest)),
        auth.asks read → auth.needsSignIn url ('/' :: rest)) ↔
      ∀ read ∈ settle (percentDecode (pathAsForwarded url ('/' :: rest))),
        ∃ reading ∈ pathAsForwarded url ('/' :: rest) :: candidates url ('/' :: rest),
          stem reading = stem read := by
  have hpath : Absolute ('/' :: rest) := ⟨rest, rfl⟩
  constructor
  · intro hgate read hread
    refine (needsSignIn_of_asks_iff hpath (absolute_of_mem_settle hread)).mp fun auth hasks => ?_
    exact hgate auth read (by simp [backendReadings, hread]) hasks
  · intro hseen auth read hread hasks
    simp only [backendReadings, List.flatMap_cons, List.flatMap_nil, List.append_nil,
      List.mem_append] at hread
    have habsolute : Absolute read := hread.elim absolute_of_mem_settle absolute_of_mem_settle
    refine (needsSignIn_of_asks_iff hpath habsolute).mpr ?_ auth hasks
    rcases hread with hread | hread
    · rw [settle_of_forwarded hpath.forwarded] at hread
      obtain rfl : read = mergeSlashes (pathAsForwarded url ('/' :: rest)) := by simpa using hread
      exact ⟨_, by simp [candidates], rfl⟩
    · exact hseen read hread

/-- An encoded slash makes one segment of two: a `..` takes `/b` of `/a%2Fb` away
where it takes `/a%2Fb` of the path as it is forwarded. -/
theorem gate_lets_admin_by :
    let path := "/a%2Fb/../%61dmin".toList
    let auth := SiteAuth.asking "/admin".toList []
    "/admin".toList ∈ backendReadings (pathAsForwarded .standard path) ∧
      auth.asks "/admin".toList = true ∧ auth.needsSignIn .standard path = false := by
  decide +kernel

/-- A path the parser leaves as it is, and its decoded form with it, is gated. -/
theorem gate_holds_of_forwarded (hpath : Forwarded url path)
    (hdecoded : Forwarded url (percentDecode path)) {auth : SiteAuth}
    (hread : read ∈ backendReadings (pathAsForwarded url path)) (hasks : auth.asks read) :
    auth.needsSignIn url path := by
  rw [hpath.pathAsForwarded_eq, backendReadings, List.flatMap_cons, List.flatMap_cons,
    List.flatMap_nil, settle_of_forwarded hpath, settle_of_forwarded hdecoded] at hread
  refine (needsSignIn_iff hpath.absolute auth).mpr ⟨read, ?_, hasks⟩
  have hread : read = mergeSlashes path ∨ read = mergeSlashes (percentDecode path) := by
    simpa using hread
  rcases hread with rfl | rfl
  · simp [candidates, hpath.pathAsForwarded_eq]
  · simp [candidates, hdecoded.pathAsForwarded_eq]

/-- A backend's path with a character the parser writes as an escape is none the
gate has read: some site lets it by. -/
theorem gate_fails_of_escaped (hpath : Absolute path) (hread : Absolute read) {c : Char}
    (hc : c ∈ read) (hslash : c ≠ '/') (hescapes : url.escapes c) :
    ∃ auth : SiteAuth, auth.asks read ∧ auth.needsSignIn url path = false := by
  by_contra hnone
  have hgate : ∀ auth : SiteAuth, auth.asks read → auth.needsSignIn url path := by
    intro auth hasks
    by_contra hneeds
    exact hnone ⟨auth, hasks, by simpa using hneeds⟩
  obtain ⟨reading, hmem, hstem⟩ := (needsSignIn_of_asks_iff hpath hread).mp hgate
  obtain ⟨slashes, hslashes⟩ := exists_eq_stem_append read
  have hcstem : c ∈ stem read := by
    rw [hslashes] at hc
    refine (List.mem_append.mp hc).resolve_right fun hmem => hslash ?_
    exact List.eq_of_mem_replicate hmem
  have hcreading : c ∈ reading := (List.rdropWhile_prefix _ _).subset (hstem ▸ hcstem)
  have hforwarded : Forwarded url reading := by
    rcases List.mem_cons.mp hmem with rfl | hmem
    · exact hpath.forwarded
    · exact hpath.forwarded_of_mem_candidates hmem
  obtain ⟨rest, rfl, hparsed⟩ := hforwarded
  have hplain := hparsed.plain c ((List.mem_cons.mp hcreading).resolve_left hslash) hslash
  rw [hescapes] at hplain
  exact absurd hplain.1 (by decide)

end Gate

end EasyWaf.Gateway
