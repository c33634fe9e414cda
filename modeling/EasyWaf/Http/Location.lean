import EasyWaf.Http.Url

/-!
# A redirect as a browser reads it

Which host a `Location` names, resolved against the URL of the request as the URL
standard says.  Blanks at its ends and line breaks are dropped, backslashes are
slashes, and two slashes begin a host.
-/

namespace EasyWaf.Http

/-- The URL of a request, as far as a redirect is resolved against it. -/
structure Base where
  scheme : Text
  host : Text

/-- Where the host of a URL is read from: it is the base's, or stands in the text
behind the slashes of a scheme that has hosts, or behind some other scheme. -/
inductive Named
  | base
  | authority (scheme text : Text)
  | other (scheme text : Text)
  deriving DecidableEq

/-- How a browser parses hosts. -/
structure Browser where
  hostOf : Text → Text → Option Text
  otherHost : Text → Text → Option Text

def isBlank (c : Char) : Bool := c.toNat ≤ 0x20

def isSlash (c : Char) : Bool := c == '/' || c == '\\'

def isSchemeChar (c : Char) : Bool := c.isAlphanum || ['+', '-', '.'].contains c

/-- The schemes that have hosts. -/
def specialSchemes : List Text :=
  ["ftp".toList, "http".toList, "https".toList, "ws".toList, "wss".toList]

/-- What is read of a text: no blanks at its ends, no tabs and line breaks. -/
def stripped (text : Text) : Text :=
  ((text.trimStartMatches isBlank).trimEndMatches isBlank).filter (!isTabOrNewline ·)

/-- The scheme a text begins with, in lower case, and what follows its colon. -/
def takeScheme (text : Text) : Option (Text × Text) :=
  if (text.head?.map Char.isAlpha).getD false then
    match text.dropWhile isSchemeChar with
    | ':' :: rest => some (Text.toAsciiLowercase (text.takeWhile isSchemeChar), rest)
    | _ => none
  else none

/-- A text without a scheme. -/
def readRelative (base : Base) : Text → Named
  | first :: second :: rest =>
      if isSlash first && isSlash second then
        .authority base.scheme ((second :: rest).dropWhile isSlash)
      else .base
  | _ => .base

/-- A text a browser resolves against a URL whose scheme has hosts. -/
def readLocation (base : Base) (text : Text) : Named :=
  match takeScheme text with
  | none => readRelative base text
  | some (scheme, rest) =>
      if specialSchemes.contains scheme then
        if scheme = base.scheme ∧ ¬ ['/', '/'] <+: rest then readRelative base rest
        else .authority scheme (rest.dropWhile isSlash)
      else .other scheme rest

/-- The host a reading names, with what follows the text. -/
def Browser.host (browser : Browser) (base : Base) (more : Text) : Named → Option Text
  | .base => some base.host
  | .authority scheme text => browser.hostOf scheme (text ++ more)
  | .other scheme text => browser.otherHost scheme (text ++ more)

/-- The host a `Location` leads to. -/
def Browser.resolve (browser : Browser) (base : Base) (location : Text) : Option Text :=
  browser.host base [] (readLocation base (stripped location))

section OnSite

variable {browser : Browser} {base : Base} {text : Text}

/-- A path that names no host: it begins with one slash. -/
def IsPath (text : Text) : Prop :=
  ∃ rest, text = '/' :: rest ∧ (rest.head?.map isSlash).getD false = false

theorem readLocation_of_isPath (hpath : IsPath text) : readLocation base text = .base := by
  obtain ⟨rest, rfl, hrest⟩ := hpath
  have hscheme : takeScheme ('/' :: rest) = none := rfl
  rw [readLocation, hscheme]
  cases rest with
  | nil => rfl
  | cons c rest =>
      have hslash : isSlash c = false := hrest
      change readRelative base ('/' :: c :: rest) = .base
      rw [readRelative, hslash, Bool.and_false]
      rfl

theorem IsPath.of_prefix {start : Text} (hpath : IsPath text) (hbegins : start <+: text)
    (hne : start ≠ []) : IsPath start := by
  obtain ⟨rest, rfl, hrest⟩ := hpath
  obtain ⟨c, start, rfl⟩ := List.exists_cons_of_ne_nil hne
  obtain ⟨rfl, hbelow⟩ := List.cons_prefix_cons.mp hbegins
  refine ⟨start, rfl, ?_⟩
  cases start with
  | nil => rfl
  | cons d start =>
      obtain ⟨after, rfl⟩ := hbelow
      exact hrest

/-- A path without characters a browser drops keeps its beginning. -/
theorem isPath_stripped (hpath : IsPath text) (hplain : ∀ c ∈ text, isTabOrNewline c = false) :
    IsPath (stripped text) := by
  have hstart : text.trimStartMatches isBlank = text := by
    obtain ⟨rest, rfl, -⟩ := hpath
    rfl
  have hbegins : text.trimEndMatches isBlank <+: text := List.rdropWhile_prefix isBlank text
  have hne : text.trimEndMatches isBlank ≠ [] := by
    obtain ⟨rest, rfl, -⟩ := hpath
    intro hnil
    exact absurd (List.rdropWhile_eq_nil_iff.mp hnil '/' List.mem_cons_self) (by decide)
  have hfilter : (text.trimEndMatches isBlank).filter (!isTabOrNewline ·) =
      text.trimEndMatches isBlank :=
    List.filter_eq_self.mpr fun c hc => by rw [hplain c (hbegins.subset hc)]; rfl
  rw [stripped, hstart, hfilter]
  exact hpath.of_prefix hbegins hne

/-- Such a path leads to the host the request was made to. -/
theorem resolve_of_isPath (hpath : IsPath text)
    (hplain : ∀ c ∈ text, isTabOrNewline c = false) : browser.resolve base text = some base.host := by
  rw [Browser.resolve, readLocation_of_isPath (isPath_stripped hpath hplain)]
  rfl

end OnSite

section Query

variable {browser : Browser} {base : Base} {text : Text}

/-- What a browser reads of the beginning of a location. -/
def leading (text : Text) : Text := (text.trimStartMatches isBlank).filter (!isTabOrNewline ·)

/-- A text that begins a query and is read as it stands. -/
structure IsQuery (query : Text) : Prop where
  plain : ∀ c ∈ query, isBlank c = false
  first : ∃ c rest, query = c :: rest ∧ isSchemeChar c = false ∧ c ≠ ':' ∧ isSlash c = false

variable {query : Text}

theorem IsQuery.ne_nil (hquery : IsQuery query) : query ≠ [] := by
  obtain ⟨c, rest, rfl, -⟩ := hquery.first
  exact List.cons_ne_nil c rest

/-- What is dropped of a text ends where something begins that is not dropped. -/
theorem dropWhile_append_kept {dropped : Char → Bool} {more : Text} (hne : more ≠ [])
    (hdropped : ∀ c rest, more = c :: rest → dropped c = false) (text : Text) :
    (text ++ more).dropWhile dropped = text.dropWhile dropped ++ more := by
  obtain ⟨c, rest, rfl⟩ := List.exists_cons_of_ne_nil hne
  rw [List.dropWhile_append]
  split
  · next hempty =>
    rw [List.isEmpty_iff.mp hempty, List.nil_append,
      List.dropWhile_cons_of_neg (by rw [hdropped c rest rfl]; exact Bool.false_ne_true)]
  · rfl

theorem dropWhile_append_query (hquery : IsQuery query) {dropped : Char → Bool}
    (hdropped : ∀ c rest, query = c :: rest → dropped c = false) (text : Text) :
    (text ++ query).dropWhile dropped = text.dropWhile dropped ++ query :=
  dropWhile_append_kept hquery.ne_nil hdropped text

theorem isTabOrNewline_of_not_blank {c : Char} (hc : isBlank c = false) :
    isTabOrNewline c = false := by
  by_contra htab
  simp only [isTabOrNewline, Bool.not_eq_false, Bool.or_eq_true, beq_iff_eq] at htab
  rcases htab with (rfl | rfl) | rfl <;> exact absurd hc (by decide)

/-- Of a text that ends in one without blanks, only the beginning is stripped. -/
theorem stripped_append_plain {more : Text} (hplain : ∀ c ∈ more, isBlank c = false)
    (hne : more ≠ []) (text : Text) : stripped (text ++ more) = leading text ++ more := by
  have hblank : ∀ c rest, more = c :: rest → isBlank c = false := by
    rintro c rest rfl
    exact hplain c List.mem_cons_self
  have hstart : Text.trimStartMatches isBlank (text ++ more) =
      text.trimStartMatches isBlank ++ more := dropWhile_append_kept hne hblank text
  have hend : Text.trimEndMatches isBlank (text.trimStartMatches isBlank ++ more) =
      text.trimStartMatches isBlank ++ more := by
    apply List.rdropWhile_eq_self_iff.mpr
    intro hall
    rw [List.getLast_append_of_ne_nil _ hne, hplain _ (List.getLast_mem hne)]
    exact Bool.false_ne_true
  have hfilter : more.filter (!isTabOrNewline ·) = more :=
    List.filter_eq_self.mpr fun c hc => by
      rw [isTabOrNewline_of_not_blank (hplain c hc)]
      rfl
  rw [stripped, hstart, hend, List.filter_append, hfilter, leading]

theorem stripped_append_query (hquery : IsQuery query) (text : Text) :
    stripped (text ++ query) = leading text ++ query :=
  stripped_append_plain hquery.plain hquery.ne_nil text

def Named.append (more : Text) : Named → Named
  | .base => .base
  | .authority scheme text => .authority scheme (text ++ more)
  | .other scheme text => .other scheme (text ++ more)

theorem readRelative_append (hquery : IsQuery query) (text : Text) :
    readRelative base (text ++ query) = (readRelative base text).append query := by
  have hslash : ∀ c rest, query = c :: rest → isSlash c = false := by
    obtain ⟨c, rest, rfl, -, -, hslash⟩ := hquery.first
    rintro d rest heq
    rw [← (List.cons.inj heq).1]
    exact hslash
  match text with
  | [] =>
      obtain ⟨c, rest, rfl, -, -, hc⟩ := hquery.first
      cases rest with
      | nil => rfl
      | cons d rest => rw [List.nil_append, readRelative, hc]; rfl
  | [first] =>
      obtain ⟨c, rest, rfl, -, -, hc⟩ := hquery.first
      rw [List.singleton_append, readRelative, hc, Bool.and_false]
      rfl
  | first :: second :: rest =>
      rw [List.cons_append, List.cons_append, readRelative, readRelative, ← List.cons_append,
        dropWhile_append_query hquery hslash]
      split <;> rfl

theorem not_isAlpha_of_not_scheme {c : Char} (hc : isSchemeChar c = false) :
    c.isAlpha = false := by
  simp only [isSchemeChar, Char.isAlphanum, Bool.or_eq_false_iff] at hc
  exact hc.1.1

theorem takeScheme_append (hquery : IsQuery query) (text : Text) :
    takeScheme (text ++ query) =
      (takeScheme text).map fun scheme => (scheme.1, scheme.2 ++ query) := by
  obtain ⟨c, more, rfl, hscheme, hcolon, -⟩ := id hquery.first
  cases text with
  | nil => simp [takeScheme, not_isAlpha_of_not_scheme hscheme]
  | cons first rest =>
      rw [takeScheme, takeScheme, List.cons_append, List.head?_cons, List.head?_cons,
        ← List.cons_append, dropWhile_append_query hquery (by
          rintro d after heq
          rw [← (List.cons.inj heq).1]
          exact hscheme)]
      split
      · cases hdrop : (first :: rest).dropWhile isSchemeChar with
        | nil =>
            rw [List.nil_append]
            split
            · next heq => exact absurd (List.cons.inj heq).1 hcolon
            · rfl
        | cons d after =>
            have htake : (first :: rest ++ c :: more).takeWhile isSchemeChar =
                (first :: rest).takeWhile isSchemeChar := by
              rw [List.takeWhile_append, if_neg]
              intro hlength
              have hwhole := congrArg List.length
                (@List.takeWhile_append_dropWhile _ isSchemeChar (first :: rest))
              rw [hdrop, List.length_append, hlength] at hwhole
              simp only [List.length_cons] at hwhole
              omega
            rw [List.cons_append, htake]
            by_cases hd : d = ':'
            · subst hd
              rfl
            · split
              · next heq => exact absurd (List.cons.inj heq).1 hd
              · split
                · next heq => exact absurd (List.cons.inj heq).1 hd
                · rfl
      · rfl

theorem readLocation_append (hquery : IsQuery query) (text : Text) :
    readLocation base (text ++ query) = (readLocation base text).append query := by
  have hslash : ∀ c rest, query = c :: rest → isSlash c = false := by
    obtain ⟨c, rest, rfl, -, -, hslash⟩ := hquery.first
    rintro d rest heq
    rw [← (List.cons.inj heq).1]
    exact hslash
  have hslashes : ∀ rest : Text, ['/', '/'] <+: rest ++ query ↔ ['/', '/'] <+: rest := by
    obtain ⟨c, more, rfl, -, -, hc⟩ := hquery.first
    have hne : '/' ≠ c := by
      rintro rfl
      exact absurd hc (by decide)
    intro rest
    match rest with
    | [] => simp [List.cons_prefix_cons, hne]
    | [a] => simp [List.cons_prefix_cons, hne]
    | a :: b :: rest => simp [List.cons_prefix_cons]
  rw [readLocation, readLocation, takeScheme_append hquery]
  cases takeScheme text with
  | none => exact readRelative_append hquery text
  | some scheme =>
      obtain ⟨scheme, rest⟩ := scheme
      change (if specialSchemes.contains scheme then _ else _) =
        Named.append query (if specialSchemes.contains scheme then _ else _)
      split
      · simp only [hslashes]
        split
        · exact readRelative_append hquery rest
        · rw [dropWhile_append_query hquery hslash]
          rfl
      · rfl

/-- The host of a location that goes on with a query is named before it. -/
theorem resolve_append_query (hquery : IsQuery query) (text : Text) :
    browser.resolve base (text ++ query) =
      browser.host base query (readLocation base (leading text)) := by
  rw [Browser.resolve, stripped_append_query hquery, readLocation_append hquery]
  cases readLocation base (leading text) <;> simp [Named.append, Browser.host]

end Query

end EasyWaf.Http
