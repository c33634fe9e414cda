import EasyWaf.Modules.Paths
import EasyWaf.Routes.SiteFields

/-!
# The path a backend is sent

The address of a request is the backend's own, less the slashes it ends in, with the
request's path and query behind it, parsed as an address.  The rules are inspected on
what the path makes behind a host alone.
-/

namespace EasyWaf.Upstream

open EasyWaf.Core EasyWaf.Http EasyWaf.Modules.Paths EasyWaf.Text

/-- What a request asks for: its path after the first slash, and the query with its mark. -/
structure PathAndQuery where
  rest : Text
  query : Text
  rest_plain : ∀ c ∈ rest, isBlank c = false ∧ isMark c = false
  query_plain : ∀ c ∈ query, isBlank c = false
  query_begins : query = [] ∨ ∃ more, query = '?' :: more

namespace PathAndQuery

variable (target : PathAndQuery)

def path : Text := '/' :: target.rest

/-- `path_and_query`. -/
def text : Text := target.path ++ target.query

theorem text_ne_nil : target.text ≠ [] := List.cons_ne_nil _ _

theorem text_plain : ∀ c ∈ target.text, isBlank c = false := by
  intro c hc
  rcases List.mem_append.mp hc with hpath | hquery
  · rcases List.mem_cons.mp hpath with rfl | hrest
    · rfl
    · exact (target.rest_plain c hrest).1
  · exact target.query_plain c hquery

/-- The query is no part of a path before it. -/
theorem segmentText_append_query {own : Text}
    (hown : ∀ c ∈ own, isBlank c = false ∧ isMark c = false) :
    segmentText (own ++ target.query) = slashes own := by
  have hfilter : own.filter (!isTabOrNewline ·) = own := by
    apply List.filter_eq_self.mpr
    intro c hc
    rw [isTabOrNewline_of_not_blank (hown c hc).1]
    rfl
  rcases target.query_begins with hnone | ⟨more, hmore⟩
  · rw [hnone, List.append_nil]
    exact segmentText_of_plain hown
  · rw [hmore, segmentText_append_mark rfl fun c hc => (hown c hc).2, hfilter]

theorem segmentText_text : segmentText target.text = '/' :: slashes target.rest := by
  apply target.segmentText_append_query
  intro c hc
  rcases List.mem_cons.mp hc with rfl | hrest
  · exact ⟨rfl, rfl⟩
  · exact target.rest_plain c hrest

end PathAndQuery

/-- The address of a request to a backend. -/
def sentUrl (upstream : Text) (target : PathAndQuery) : Text :=
  upstream.trimEndMatches (· = '/') ++ target.text

/-- What is sent is the backend's own path and then the path as it is forwarded. -/
def Follows (parser : UrlParser) (upstream : Text) (target : PathAndQuery) : Prop :=
  ∀ sent, parser.parse (sentUrl upstream target) = some sent →
    ∃ base, parser.parse upstream = some base ∧
      sent = base.trimEndMatches (· = '/') ++ pathAsForwarded parser.toUrl target.path

section Condition

variable (parser : UrlParser)

/-- The backend's host, with what stands behind it. -/
def hostAndOwn (upstream : Text) : Option Text :=
  afterScheme (leading (upstream.trimEndMatches (· = '/')))

/-- A path's segments, as they are parsed. -/
def segmentsOf (text : Text) : List Text :=
  ((slashes text).splitOn '/').map (·.flatMap parser.encode)

/-- The segments of a backend's own path. -/
def ownSegments (rest : Text) : List Text :=
  match rest.dropWhile (!endsAuthority ·) with
  | [] => []
  | _ :: own => segmentsOf parser own

/-- The segments of a path, less the slashes it ends in. -/
def baseSegments (base : Text) : List Text := (base.tail.splitOn '/').rdropWhile (· = [])

/-- What is left of the backend's own path once the request's has climbed. -/
def keptSegments (rest : Text) (target : PathAndQuery) : List Text :=
  (walk Url.isSingleDot Url.isDoubleDot [] (ownSegments parser rest)).rdrop
    (climbs Url.isSingleDot Url.isDoubleDot [] (segmentsOf parser target.rest))

/-- The backend's host is refused, or the address parses and: without a query or fragment
of its own, the request's path leaves of the backend's path what that is; with one, the
request's path is just the slashes that the backend's ends in. -/
def KeepsBase (upstream : Text) (target : PathAndQuery) : Prop :=
  match hostAndOwn upstream with
  | none => True
  | some [] => parser.accepts (authority (target.text.dropWhile isSlash)) = false
  | some rest => parser.accepts (authority rest) = true →
      ∃ base, parser.parse upstream = some base ∧
        if rest.any isMark then
          parser.path (afterAuthority rest) =
            base.trimEndMatches (· = '/') ++ pathAsForwarded parser.toUrl target.path
        else keptSegments parser rest target = baseSegments base

end Condition

section Sent

variable {parser : UrlParser} {upstream rest : Text} {target : PathAndQuery}

theorem mem_of_mem_afterScheme {text : Text} (hscheme : afterScheme text = some rest) {c : Char}
    (hc : c ∈ rest) : c ∈ text := by
  obtain ⟨⟨scheme, after⟩, hsplit, hrest⟩ := Option.bind_eq_some_iff.mp hscheme
  obtain ⟨rfl, -⟩ := splitOnce_eq_some hsplit
  obtain ⟨-, hrest⟩ := Option.ite_none_right_eq_some.mp hrest
  rw [← Option.some.inj hrest] at hc
  exact List.mem_append_right _ (List.mem_cons_of_mem _ (List.dropWhile_subset _ hc))

theorem not_tab_of_mem_own (hhost : hostAndOwn upstream = some rest) {c : Char} (hc : c ∈ rest) :
    isTabOrNewline c = false := by
  have hkept := List.of_mem_filter (mem_of_mem_afterScheme hhost hc)
  simpa using hkept

/-- The address is read from the backend's host on, or from the path where it has none. -/
theorem parse_sentUrl (parser : UrlParser) (upstream : Text) (target : PathAndQuery) :
    parser.parse (sentUrl upstream target) = (hostAndOwn upstream).bind fun rest =>
      let whole := if rest = [] then target.text.dropWhile isSlash else rest ++ target.text
      if parser.accepts (authority whole) then some (parser.path (afterAuthority whole))
      else none := by
  have hscheme : afterScheme (leading (upstream.trimEndMatches (· = '/')) ++ target.text) =
      (hostAndOwn upstream).map fun rest =>
        if rest = [] then target.text.dropWhile isSlash else rest ++ target.text :=
    afterScheme_append_slash _ _
  rw [UrlParser.parse, sentUrl, stripped_append_plain target.text_plain target.text_ne_nil, hscheme]
  cases hostAndOwn upstream <;> rfl

theorem authority_append : authority (rest ++ target.text) = authority rest := by
  have hslash : target.text.takeWhile (!endsAuthority ·) = [] := rfl
  unfold authority
  rw [List.takeWhile_append, hslash, List.append_nil]
  split
  case isTrue hall => exact ((List.takeWhile_prefix _).eq_of_length hall).symm
  case isFalse => rfl

theorem dropWhile_append_text : (rest ++ target.text).dropWhile (!endsAuthority ·) =
    rest.dropWhile (!endsAuthority ·) ++ target.text := by
  apply dropWhile_append_kept target.text_ne_nil
  intro c more hcons
  rw [← (List.cons.inj hcons).1]
  rfl

/-- Without a query or fragment of the backend's own, its segments come first. -/
theorem path_append (hplain : ∀ c ∈ rest, isMark c = false ∧ isTabOrNewline c = false) :
    parser.path (afterAuthority (rest ++ target.text)) =
      '/' :: Text.join ['/'] (removeDots Url.isSingleDot Url.isDoubleDot []
        (ownSegments parser rest ++ segmentsOf parser target.rest)) := by
  unfold afterAuthority ownSegments
  rw [dropWhile_append_text]
  cases hown : rest.dropWhile (!endsAuthority ·) with
  | nil =>
    show parser.path (target.rest ++ target.query) = _
    rw [Url.path, target.segmentText_append_query target.rest_plain]
    rfl
  | cons c own =>
    have hends : endsAuthority c = true := by
      have hhead := List.head_dropWhile_not (!endsAuthority ·) (l := rest) (by simp [hown])
      simpa [hown] using hhead
    have hmark := (hplain c (List.dropWhile_subset _ (hown ▸ List.mem_cons_self))).1
    have hslash : isSlash c = true := by
      rwa [endsAuthority_eq, hmark, Bool.or_false] at hends
    have hmem : ∀ d ∈ own, isMark d = false ∧ isTabOrNewline d = false := by
      intro d hd
      exact hplain d (List.dropWhile_subset _ (hown ▸ List.mem_cons_of_mem c hd))
    show parser.path (if isSlash c then own ++ target.text else _) = _
    rw [if_pos hslash, Url.path, segmentText_append_plain hmem target.text_plain target.text_ne_nil,
      target.segmentText_text, List.splitOn_append_cons_self, List.map_append]
    rfl

/-- With one, the request's path is behind it. -/
theorem path_append_marked (hmark : rest.any isMark = true) :
    parser.path (afterAuthority (rest ++ target.text)) = parser.path (afterAuthority rest) := by
  have hpath {own : Text} (hown : own.any isMark = true) :
      parser.path (own ++ target.text) = parser.path own := by
    rw [Url.path, Url.path, segmentText_append_of_marked hown]
  obtain ⟨mark, hmem, hmark⟩ := List.any_eq_true.mp hmark
  have hends : ∀ c, isMark c = true → endsAuthority c = true := by
    intro c hc
    rw [endsAuthority_eq, hc, Bool.or_true]
  have hbehind : mark ∈ rest.dropWhile (!endsAuthority ·) := by
    rw [← List.takeWhile_append_dropWhile (p := (!endsAuthority ·)) (l := rest)] at hmem
    rcases List.mem_append.mp hmem with hbefore | hbehind
    · have hnot := List.mem_takeWhile_imp hbefore
      rw [hends mark hmark] at hnot
      exact absurd hnot Bool.false_ne_true
    · exact hbehind
  unfold afterAuthority
  rw [dropWhile_append_text]
  cases hown : rest.dropWhile (!endsAuthority ·) with
  | nil =>
    rw [hown] at hbehind
    cases hbehind
  | cons c own =>
    rw [hown] at hbehind
    show parser.path (if isSlash c then own ++ target.text else c :: own ++ target.text) =
      parser.path (if isSlash c then own else c :: own)
    split
    case isTrue hslash =>
      apply hpath
      rcases List.mem_cons.mp hbehind with rfl | hown
      · rw [isMark_of_isSlash hslash] at hmark
        exact absurd hmark Bool.false_ne_true
      · exact List.any_eq_true.mpr ⟨mark, hown, hmark⟩
    case isFalse => exact hpath (List.any_eq_true.mpr ⟨mark, hbehind, hmark⟩)

/-- A backend without a host of its own has no path either. -/
theorem parse_eq_none (hhost : hostAndOwn upstream = some []) : parser.parse upstream = none := by
  obtain ⟨⟨scheme, after⟩, hsplit, hafter⟩ := Option.bind_eq_some_iff.mp hhost
  obtain ⟨hleading, hscheme⟩ := splitOnce_eq_some hsplit
  obtain ⟨-, hafter⟩ := Option.ite_none_right_eq_some.mp hafter
  have hslashes := List.dropWhile_eq_nil_iff.mp (Option.some.inj hafter)
  -- what is read of the address begins the scheme, its colon and slashes
  obtain ⟨ends, hends, hread⟩ : ∃ ends : Text, (∀ c ∈ ends, isSlash c = true) ∧
      stripped upstream <+: scheme ++ ':' :: ends := by
    let own : Text := upstream.trimEndMatches (· = '/')
    let tail : Text := upstream.rtakeWhile (· = '/')
    have hupstream : upstream = own ++ tail :=
      List.rdropWhile_append_rtakeWhile.symm
    have hnonempty : ¬ (own.dropWhile isBlank).isEmpty := by
      intro hempty
      have hnone : leading own = [] := by
        rw [leading, trimStartMatches, List.isEmpty_iff.mp hempty, List.filter_nil]
      rw [hnone] at hleading
      exact List.append_ne_nil_of_right_ne_nil _ (List.cons_ne_nil _ _) hleading.symm
    have hall : leading upstream = leading own ++ tail.filter (!isTabOrNewline ·) := by
      rw [hupstream, leading, trimStartMatches, List.dropWhile_append, if_neg hnonempty,
        List.filter_append]
      rfl
    refine ⟨after ++ tail.filter (!isTabOrNewline ·), ?_, ?_⟩
    · intro c hc
      rcases List.mem_append.mp hc with hafter | htail
      · exact hslashes c hafter
      · have hslash := List.mem_rtakeWhile_imp (List.mem_of_mem_filter htail)
        rw [of_decide_eq_true hslash]
        rfl
    · rw [← List.cons_append, ← List.append_assoc, ← hleading, ← hall]
      exact (List.rdropWhile_prefix _ _).filter _
  obtain ⟨more, hmore⟩ := hread
  unfold UrlParser.parse afterScheme
  cases hread : splitOnce ':' (stripped upstream) with
  | none => rfl
  | some parts =>
    obtain ⟨scheme', rest⟩ := parts
    obtain ⟨heq, hscheme'⟩ := splitOnce_eq_some hread
    have hsame : splitOnce ':' (scheme' ++ ':' :: (rest ++ more)) =
        splitOnce ':' (scheme ++ ':' :: ends) := by
      rw [← hmore, heq, List.append_assoc, List.cons_append]
    rw [splitOnce_append hscheme', splitOnce_append hscheme] at hsame
    have hrest : rest.dropWhile isSlash = [] := by
      apply List.dropWhile_eq_nil_iff.mpr
      intro c hc
      apply hends
      rw [← (Prod.mk.inj (Option.some.inj hsame)).2]
      exact List.mem_append_left more hc
    show ((if _ then some (rest.dropWhile isSlash) else none) : Option Text).bind _ = none
    rw [hrest]
    split
    · exact if_neg (by rw [show authority [] = [] from rfl, parser.accepts_nil]; exact Bool.false_ne_true)
    · rfl

end Sent

section Equality

variable {parser : UrlParser}

theorem slash_not_mem_segmentsOf {text segment : Text} (hsegment : segment ∈ segmentsOf parser text) :
    '/' ∉ segment := by
  obtain ⟨written, hwritten, rfl⟩ := List.mem_map.mp hsegment
  intro hslash
  obtain ⟨c, hc, hslash⟩ := List.mem_flatMap.mp hslash
  exact slash_not_mem_encode parser.toUrl (mem_of_mem_splitOn hwritten hc).2 hslash

theorem slash_not_mem_ownSegments {rest segment : Text}
    (hsegment : segment ∈ ownSegments parser rest) : '/' ∉ segment := by
  unfold ownSegments at hsegment
  split at hsegment
  · cases hsegment
  · exact slash_not_mem_segmentsOf hsegment

theorem slash_not_mem_keptSegments {rest segment : Text} {target : PathAndQuery}
    (hsegment : segment ∈ keptSegments parser rest target) : '/' ∉ segment := by
  rcases mem_walk (List.take_subset _ _ hsegment) with hnone | hown
  · cases hnone
  · exact slash_not_mem_ownSegments hown

theorem slash_not_mem_removeDots {text segment : Text}
    (hsegment : segment ∈ removeDots Url.isSingleDot Url.isDoubleDot [] (segmentsOf parser text)) :
    '/' ∉ segment := by
  rcases mem_removeDots hsegment with hnone | rfl | ⟨hmem, -⟩
  · cases hnone
  · exact List.not_mem_nil
  · exact slash_not_mem_segmentsOf hmem

theorem slash_not_mem_baseSegments {base segment : Text} (hsegment : segment ∈ baseSegments base) :
    '/' ∉ segment := by
  intro hslash
  exact (mem_of_mem_splitOn ((List.rdropWhile_prefix _ _).subset hsegment) hslash).2 rfl

theorem trimEnd_base (path : Text) :
    trimEndMatches (· = '/') ('/' :: path) = (baseSegments ('/' :: path)).flatMap ('/' :: ·) := by
  have hflat : '/' :: path = (path.splitOn '/').flatMap ('/' :: ·) := by
    rw [← slash_join (List.splitOn_ne_nil '/' path), Text.join, List.intercalate_splitOn]
  rw [baseSegments, List.tail_cons]
  nth_rewrite 1 [hflat]
  apply trimEnd_segments
  intro segment hsegment hslash
  exact (mem_of_mem_splitOn hsegment hslash).2 rfl

/-- What is before the segments of a path is a base's own segments just where the two
make one path. -/
theorem join_eq_iff {kept segments : List Text} {path : Text} (hsegments : segments ≠ [])
    (hkept : ∀ segment ∈ kept, '/' ∉ segment) (hslash : ∀ segment ∈ segments, '/' ∉ segment) :
    '/' :: Text.join ['/'] (kept ++ segments) =
        trimEndMatches (· = '/') ('/' :: path) ++ '/' :: Text.join ['/'] segments ↔
      kept = baseSegments ('/' :: path) := by
  have hright : trimEndMatches (· = '/') ('/' :: path) ++ '/' :: Text.join ['/'] segments =
      '/' :: Text.join ['/'] (baseSegments ('/' :: path) ++ segments) := by
    rw [trimEnd_base, slash_join hsegments, slash_join (List.append_ne_nil_of_right_ne_nil _ hsegments),
      List.flatMap_append]
  rw [hright]
  constructor
  · intro heq
    have hlists : kept ++ segments = baseSegments ('/' :: path) ++ segments := by
      apply eq_of_join_eq
      · exact List.forall_mem_append.mpr ⟨hkept, hslash⟩
      · exact List.forall_mem_append.mpr ⟨fun _ => slash_not_mem_baseSegments, hslash⟩
      · exact List.append_ne_nil_of_right_ne_nil _ hsegments
      · exact List.append_ne_nil_of_right_ne_nil _ hsegments
      · exact (List.cons.inj heq).2
    exact List.append_cancel_right hlists
  · intro heq
    rw [heq]

end Equality

section Main

variable {parser : UrlParser} {upstream : Text} {target : PathAndQuery}

theorem pathAsForwarded_path : pathAsForwarded parser.toUrl target.path =
    '/' :: Text.join ['/'] (removeDots Url.isSingleDot Url.isDoubleDot []
      (segmentsOf parser target.rest)) := by
  show parser.path target.rest = _
  rw [Url.path, segmentText_of_plain target.rest_plain]
  rfl

theorem segmentsOf_ne_nil (text : Text) : segmentsOf parser text ≠ [] := by
  unfold segmentsOf
  rw [ne_eq, List.map_eq_nil_iff]
  exact List.splitOn_ne_nil '/' _

/-- A backend's own segments stay before the request's as far as that does not climb. -/
theorem removeDots_own (rest : Text) (target : PathAndQuery) :
    removeDots Url.isSingleDot Url.isDoubleDot []
        (ownSegments parser rest ++ segmentsOf parser target.rest) =
      keptSegments parser rest target ++
        removeDots Url.isSingleDot Url.isDoubleDot [] (segmentsOf parser target.rest) := by
  rw [removeDots_append [] _ (segmentsOf_ne_nil target.rest), keptSegments, ← removeDots_kept,
    List.append_nil]

theorem parse_slash {base : Text} (hparse : parser.parse upstream = some base) :
    ∃ path, base = '/' :: path := by
  obtain ⟨rest, -, hpath⟩ := Option.bind_eq_some_iff.mp hparse
  obtain ⟨-, hpath⟩ := Option.ite_none_right_eq_some.mp hpath
  exact ⟨_, (Option.some.inj hpath).symm⟩

theorem forall_sent_iff {accepted : Bool} {path : Text} {holds : Text → Prop} :
    (∀ sent, (if accepted then some path else none) = some sent → holds sent) ↔
      (accepted = true → holds path) := by
  constructor
  · intro hall haccepted
    exact hall path (if_pos haccepted)
  · intro hholds sent hsent
    obtain ⟨haccepted, hpath⟩ := Option.ite_none_right_eq_some.mp hsent
    rw [← Option.some.inj hpath]
    exact hholds haccepted

/-- The path a backend is sent is its own and then the one the rules are inspected on just
where the request's leaves the backend's as it is. -/
theorem follows_iff_keepsBase (parser : UrlParser) (upstream : Text) (target : PathAndQuery) :
    Follows parser upstream target ↔ KeepsBase parser upstream target := by
  unfold Follows KeepsBase
  rw [parse_sentUrl]
  cases hhost : hostAndOwn upstream with
  | none =>
    apply iff_of_true _ trivial
    intro sent hsent
    cases hsent
  | some rest =>
    rw [Option.bind_some]
    dsimp only
    rw [forall_sent_iff]
    cases rest with
    | nil =>
      rw [if_pos rfl, parse_eq_none hhost]
      show (_ → _) ↔ parser.accepts (authority (target.text.dropWhile isSlash)) = false
      rw [← Bool.not_eq_true]
      constructor
      · rintro hfollows haccepted
        obtain ⟨base, hnone, -⟩ := hfollows haccepted
        cases hnone
      · intro hrefused haccepted
        exact absurd haccepted hrefused
    | cons c rest =>
      rw [if_neg (List.cons_ne_nil c rest), authority_append]
      apply imp_congr_right
      intro haccepted
      apply exists_congr
      intro base
      apply and_congr_right
      intro hparse
      obtain ⟨path, rfl⟩ := parse_slash hparse
      split
      case isTrue hmark => rw [path_append_marked hmark]
      case isFalse hmark =>
        have hplain : ∀ d ∈ c :: rest, isMark d = false ∧ isTabOrNewline d = false := by
          intro d hd
          refine ⟨?_, not_tab_of_mem_own hhost hd⟩
          by_contra hd'
          exact hmark (List.any_eq_true.mpr ⟨d, hd, by simpa using hd'⟩)
        rw [path_append hplain, pathAsForwarded_path, removeDots_own]
        exact join_eq_iff (removeDots_ne_nil (segmentsOf_ne_nil target.rest))
          (fun _ => slash_not_mem_keptSegments) (fun _ => slash_not_mem_removeDots)

/-- A request that climbs: `/../admin`. -/
def climbing : PathAndQuery where
  rest := "../admin".toList
  query := []
  rest_plain c hc := by
    have hall : "../admin".toList.all (fun c => !isBlank c && !isMark c) = true := by decide
    simpa using List.all_eq_true.mp hall c hc
  query_plain _ hc := absurd hc List.not_mem_nil
  query_begins := Or.inl rfl

/-- A backend with a path of its own is sent `/admin` for `/../admin`, and not what is below
its path. -/
theorem base_climbed :
    Routes.Storable UrlParser.standard "http://10.0.0.1/app".toList ∧
      ¬ Follows UrlParser.standard "http://10.0.0.1/app".toList climbing := by
  have hbase : UrlParser.standard.parse "http://10.0.0.1/app".toList = some "/app".toList := by
    decide +kernel
  have hsent : UrlParser.standard.parse (sentUrl "http://10.0.0.1/app".toList climbing) =
      some "/admin".toList := by decide +kernel
  constructor
  · exact Or.inr (congrArg Option.isSome hbase)
  · intro hfollows
    obtain ⟨base, hparsed, heq⟩ := hfollows _ hsent
    obtain rfl : "/app".toList = base := Option.some.inj (hbase.symm.trans hparsed)
    have hlength := congrArg List.length heq
    revert hlength
    decide +kernel

variable {scheme host : Text}

theorem afterScheme_of_host (hscheme : scheme ∈ ["http".toList, "https".toList])
    (hhost : ∀ c ∈ host, isBlank c = false ∧ endsAuthority c = false) :
    afterScheme (scheme ++ "://".toList ++ host) = some host := by
  have hdrop : ("//".toList ++ host).dropWhile isSlash = host := by
    show host.dropWhile isSlash = host
    cases host with
    | nil => rfl
    | cons c rest =>
      apply List.dropWhile_cons_of_neg
      have hends := (hhost c List.mem_cons_self).2
      rw [endsAuthority_eq, Bool.or_eq_false_iff] at hends
      rw [hends.1]
      exact Bool.false_ne_true
  obtain ⟨hcolon, hlower⟩ : ':' ∉ scheme ∧
      scheme.toAsciiLowercase ∈ ["http".toList, "https".toList] := by
    rcases List.mem_cons.mp hscheme with rfl | hscheme
    · decide
    · rw [List.mem_singleton.mp hscheme]
      decide
  have hsplit : splitOnce ':' (scheme ++ "://".toList ++ host) =
      some (scheme, "//".toList ++ host) := by
    rw [List.append_assoc]
    exact splitOnce_append hcolon
  unfold afterScheme
  rw [hsplit]
  show (if _ then some (("//".toList ++ host).dropWhile isSlash) else none) = _
  rw [if_pos hlower, hdrop]

theorem leading_of_plain {text : Text} (hplain : ∀ c ∈ text, isBlank c = false) :
    leading text = text := by
  have hdrop : text.trimStartMatches isBlank = text := by
    cases text with
    | nil => rfl
    | cons c rest =>
      apply List.dropWhile_cons_of_neg
      rw [hplain c List.mem_cons_self]
      exact Bool.false_ne_true
  rw [leading, hdrop]
  apply List.filter_eq_self.mpr
  intro c hc
  rw [isTabOrNewline_of_not_blank (hplain c hc)]
  rfl

/-- A backend that is a host alone is sent the path the rules are inspected on. -/
theorem follows_of_host (parser : UrlParser) (hscheme : scheme ∈ ["http".toList, "https".toList])
    (hne : host ≠ []) (hhost : ∀ c ∈ host, isBlank c = false ∧ endsAuthority c = false)
    (target : PathAndQuery) : Follows parser (scheme ++ "://".toList ++ host) target := by
  have hplain : ∀ c ∈ scheme ++ "://".toList ++ host, isBlank c = false := by
    have hall : ((scheme ++ "://".toList).all (!isBlank ·)) = true := by
      rcases List.mem_cons.mp hscheme with rfl | hscheme
      · decide
      · rw [List.mem_singleton.mp hscheme]
        decide
    intro c hc
    rcases List.mem_append.mp hc with hbefore | hin
    · simpa using List.all_eq_true.mp hall c hbefore
    · exact (hhost c hin).1
  have hnone : ∀ c ∈ host, endsAuthority c = false := fun c hc => (hhost c hc).2
  have htrim : trimEndMatches (· = '/') (scheme ++ "://".toList ++ host) =
      scheme ++ "://".toList ++ host := by
    apply List.rdropWhile_eq_self_iff.mpr
    intro hall hslash
    rw [List.getLast_append_of_ne_nil _ hne, decide_eq_true_iff] at hslash
    have hlast := hnone _ (List.getLast_mem hne)
    rw [hslash] at hlast
    cases hlast
  have hscheme := afterScheme_of_host hscheme hhost
  have hown : hostAndOwn (scheme ++ "://".toList ++ host) = some host := by
    rw [hostAndOwn, htrim, leading_of_plain hplain, hscheme]
  have hdrop : host.dropWhile (!endsAuthority ·) = [] := by
    apply List.dropWhile_eq_nil_iff.mpr
    intro c hc
    rw [hnone c hc]
    rfl
  have hrest : ∀ c ∈ host, isMark c = false ∧ isTabOrNewline c = false := by
    intro c hc
    have hends := hnone c hc
    rw [endsAuthority_eq, Bool.or_eq_false_iff] at hends
    exact ⟨hends.2, isTabOrNewline_of_not_blank (hhost c hc).1⟩
  unfold Follows
  rw [parse_sentUrl, hown, Option.bind_some]
  dsimp only
  rw [if_neg hne, authority_append, forall_sent_iff]
  intro haccepted
  refine ⟨['/'], ?_, ?_⟩
  · have hstripped := stripped_append_plain hplain (List.append_ne_nil_of_right_ne_nil _ hne) []
    rw [List.nil_append, show leading [] = [] from rfl, List.nil_append] at hstripped
    rw [UrlParser.parse, hstripped, hscheme]
    show (if parser.accepts (authority host) then some (parser.path (afterAuthority host)) else none) = _
    rw [if_pos haccepted, afterAuthority, hdrop]
    rfl
  · have hsegments : ownSegments parser host = [] := by
      rw [ownSegments, hdrop]
    rw [path_append hrest, hsegments, pathAsForwarded_path]
    rfl

end Main

end EasyWaf.Upstream
