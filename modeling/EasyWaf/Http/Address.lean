import EasyWaf.Http.Location
import EasyWaf.Http.Segments
import EasyWaf.Text.Basic

/-!
# Addresses

What `Url::parse` makes of the text of an `http` or `https` address: blanks around it
and line breaks within it are skipped, any number of slashes of either kind follow
the scheme, and what stands between them and the next slash, query or fragment names
the host.
-/

namespace EasyWaf.Http

open EasyWaf.Text

/-- A parser of addresses: the part that reads paths, and the authorities it
accepts. -/
structure UrlParser extends Url where
  accepts : Text → Bool
  accepts_nil : accepts [] = false

def endsAuthority (c : Char) : Bool := isSlash c || c == '?' || c == '#'

/-- What follows the scheme of an `http` or `https` address and its slashes. -/
def afterScheme (text : Text) : Option Text := do
  let (scheme, rest) ← text.splitOnce ':'
  if scheme.toAsciiLowercase ∈ ["http".toList, "https".toList] then some (rest.dropWhile isSlash)
  else none

def authority (rest : Text) : Text := rest.takeWhile (!endsAuthority ·)

/-- What follows the authority, less the slash that ends it. -/
def afterAuthority (rest : Text) : Text :=
  match rest.dropWhile (!endsAuthority ·) with
  | c :: more => if isSlash c then more else c :: more
  | [] => []

/-- The path of an `http` or `https` address. -/
def UrlParser.parse (parser : UrlParser) (text : Text) : Option Text := do
  let rest ← afterScheme (stripped text)
  if parser.accepts (authority rest) then some (parser.path (afterAuthority rest)) else none

/-- A parser that accepts every host that has no blank in it. -/
def UrlParser.standard : UrlParser where
  toUrl := .standard
  accepts authority := !authority.isEmpty && authority.all (!isBlank ·)
  accepts_nil := rfl

section Reading

/-- Backslashes read as slashes. -/
def slashes (text : Text) : Text := text.map fun c => if c = '\\' then '/' else c

/-- A character that ends a path. -/
def isMark (c : Char) : Bool := c == '?' || c == '#'

theorem isMark_of_isSlash {c : Char} (hslash : isSlash c = true) : isMark c = false := by
  unfold isSlash at hslash
  rcases (Bool.or_eq_true _ _).mp hslash with hforward | hback
  · rw [beq_iff_eq.mp hforward]
    decide
  · rw [beq_iff_eq.mp hback]
    decide

theorem endsAuthority_eq (c : Char) : endsAuthority c = (isSlash c || isMark c) :=
  Bool.or_assoc _ _ _

variable {own more : Text}

/-- A path is read up to its query or fragment. -/
theorem segmentText_append_mark {mark : Char} (hmark : isMark mark = true)
    (hown : ∀ c ∈ own, isMark c = false) :
    segmentText (own ++ mark :: more) = slashes (own.filter (!isTabOrNewline ·)) := by
  have hkept : isBlank mark = false ∧ isTabOrNewline mark = false := by
    unfold isMark at hmark
    rcases (Bool.or_eq_true _ _).mp hmark with hquestion | hhash
    · rw [beq_iff_eq.mp hquestion]
      decide
    · rw [beq_iff_eq.mp hhash]
      decide
  have htrim : (own ++ mark :: more).trimEndMatches (·.toNat ≤ 0x20) =
      own ++ mark :: more.trimEndMatches (·.toNat ≤ 0x20) := by
    have hdrop : (more.reverse ++ mark :: own.reverse).dropWhile (·.toNat ≤ 0x20) =
        more.reverse.dropWhile (·.toNat ≤ 0x20) ++ mark :: own.reverse := by
      apply dropWhile_append_kept (List.cons_ne_nil _ _)
      intro c rest hcons
      rw [← (List.cons.inj hcons).1]
      exact hkept.1
    rw [trimEndMatches, trimEndMatches, List.rdropWhile, List.rdropWhile, List.reverse_append,
      List.reverse_cons, List.append_assoc, List.singleton_append, hdrop, List.reverse_append,
      List.reverse_cons, List.reverse_reverse, List.append_assoc]
    rfl
  have htake : ((own.filter (!isTabOrNewline ·)) ++ mark ::
      ((more.trimEndMatches (·.toNat ≤ 0x20)).filter (!isTabOrNewline ·))).takeWhile
        (fun c => c != '?' && c != '#') = own.filter (!isTabOrNewline ·) := by
    have hall : ∀ c ∈ own.filter (!isTabOrNewline ·), (c != '?' && c != '#') = true := by
      intro c hc
      have hnone := hown c (List.mem_of_mem_filter hc)
      simpa [isMark] using hnone
    rw [List.takeWhile_append_of_pos hall, List.takeWhile_cons_of_neg, List.append_nil]
    simpa [isMark, ← or_iff_not_imp_left] using hmark
  rw [segmentText, htrim, List.filter_append, List.filter_cons_of_pos, htake, slashes]
  rw [hkept.2]
  rfl

/-- Behind a query or fragment nothing is read. -/
theorem segmentText_append_of_marked (hmarked : own.any isMark = true) (more : Text) :
    segmentText (own ++ more) = segmentText own := by
  obtain ⟨c, hc, hmark⟩ := List.any_eq_true.mp hmarked
  have hfirst : ∀ d ∈ own.takeWhile (!isMark ·), isMark d = false := by
    intro d hd
    simpa using List.mem_takeWhile_imp hd
  cases hrest : own.dropWhile (!isMark ·) with
  | nil =>
    have hall := List.dropWhile_eq_nil_iff.mp hrest c hc
    rw [hmark] at hall
    exact absurd hall Bool.false_ne_true
  | cons mark rest =>
    have hmark : isMark mark = true := by
      have hhead := List.head_dropWhile_not (!isMark ·) (l := own) (by simp [hrest])
      simpa [hrest] using hhead
    have hown : own = own.takeWhile (!isMark ·) ++ mark :: rest := by
      rw [← hrest, List.takeWhile_append_dropWhile]
    rw [hown, List.append_assoc, List.cons_append, segmentText_append_mark hmark hfirst,
      segmentText_append_mark hmark hfirst]

/-- A path that is read as it stands up to what follows it. -/
theorem segmentText_append_plain (hown : ∀ c ∈ own, isMark c = false ∧ isTabOrNewline c = false)
    (hmore : ∀ c ∈ more, isBlank c = false) (hne : more ≠ []) :
    segmentText (own ++ more) = slashes own ++ segmentText more := by
  have htrim (text : Text) : (text ++ more).trimEndMatches (·.toNat ≤ 0x20) = text ++ more := by
    apply List.rdropWhile_eq_self_iff.mpr
    intro hall
    rw [List.getLast_append_of_ne_nil _ hne]
    have hlast := hmore _ (List.getLast_mem hne)
    unfold isBlank at hlast
    rw [hlast]
    exact Bool.false_ne_true
  have hfilter : own.filter (!isTabOrNewline ·) = own := by
    apply List.filter_eq_self.mpr
    intro c hc
    rw [(hown c hc).2]
    rfl
  have hall : ∀ c ∈ own, (c != '?' && c != '#') = true := by
    intro c hc
    have hnone := (hown c hc).1
    simpa [isMark] using hnone
  have hmoreTrim := htrim []
  rw [List.nil_append] at hmoreTrim
  rw [segmentText, segmentText, htrim, hmoreTrim, List.filter_append, hfilter,
    List.takeWhile_append_of_pos hall, List.map_append]
  rfl

theorem segmentText_of_plain (hown : ∀ c ∈ own, isBlank c = false ∧ isMark c = false) :
    segmentText own = slashes own := by
  have htrim : own.trimEndMatches (·.toNat ≤ 0x20) = own := by
    apply List.rdropWhile_eq_self_iff.mpr
    intro hne
    have hlast := (hown _ (List.getLast_mem hne)).1
    unfold isBlank at hlast
    rw [hlast]
    exact Bool.false_ne_true
  have hfilter : own.filter (!isTabOrNewline ·) = own := by
    apply List.filter_eq_self.mpr
    intro c hc
    rw [isTabOrNewline_of_not_blank (hown c hc).1]
    rfl
  have htake : own.takeWhile (fun c => c != '?' && c != '#') = own := by
    apply List.takeWhile_eq_self_iff.mpr
    intro c hc
    have hnone := (hown c hc).2
    simpa [isMark] using hnone
  rw [segmentText, htrim, hfilter, htake, slashes]

/-- A scheme has no slash in it. -/
theorem slash_not_mem_scheme {scheme : Text}
    (hscheme : scheme.toAsciiLowercase ∈ ["http".toList, "https".toList]) : '/' ∉ scheme := by
  intro hslash
  have hlower : '/' ∈ scheme.toAsciiLowercase := List.mem_map_of_mem hslash
  rcases List.mem_cons.mp hscheme with heq | hrest
  · rw [heq] at hlower
    exact absurd hlower (by decide)
  · rw [List.mem_singleton.mp hrest] at hlower
    exact absurd hlower (by decide)

/-- What follows a scheme, where a path follows the text. -/
theorem afterScheme_append_slash (text more : Text) :
    afterScheme (text ++ '/' :: more) = (afterScheme text).map fun rest =>
      if rest = [] then more.dropWhile isSlash else rest ++ '/' :: more := by
  cases hsplit : splitOnce ':' text with
  | none =>
    have hcolon := splitOnce_eq_none_iff.mp hsplit
    have hnone : afterScheme text = none := by
      rw [afterScheme, hsplit]
      rfl
    rw [hnone, Option.map_none]
    cases hmore : splitOnce ':' (text ++ '/' :: more) with
    | none =>
      rw [afterScheme, hmore]
      rfl
    | some parts =>
      obtain ⟨scheme, rest⟩ := parts
      obtain ⟨heq, -⟩ := splitOnce_eq_some hmore
      have hslash : '/' ∈ scheme := by
        rcases List.append_eq_append_iff.mp heq with ⟨between, rfl, hbetween⟩ |
            ⟨between, rfl, hbetween⟩
        · cases between with
          | nil => cases hbetween
          | cons c between =>
            rw [← (List.cons.inj hbetween).1]
            exact List.mem_append_right _ List.mem_cons_self
        · cases between with
          | nil => cases hbetween
          | cons c between =>
            obtain rfl := (List.cons.inj hbetween).1
            exact absurd (List.mem_append_right _ List.mem_cons_self) hcolon
      rw [afterScheme, hmore]
      exact if_neg fun hscheme => slash_not_mem_scheme hscheme hslash
  | some parts =>
    obtain ⟨scheme, rest⟩ := parts
    obtain ⟨rfl, hscheme⟩ := splitOnce_eq_some hsplit
    have hmore : splitOnce ':' (scheme ++ ':' :: rest ++ '/' :: more) =
        some (scheme, rest ++ '/' :: more) := by
      rw [List.append_assoc, List.cons_append, splitOnce_append hscheme]
    rw [afterScheme, afterScheme, hmore, hsplit]
    show (if _ then _ else none) = Option.map _ (if _ then _ else none)
    split
    · rw [Option.map_some, List.dropWhile_append]
      simp only [List.isEmpty_iff]
      rfl
    · rfl

end Reading

end EasyWaf.Http
