import EasyWaf.Http.Header
import EasyWaf.Http.Location

/-!
# Where EasyWAF sends a browser

After a challenge, a visitor's sign-in and a form of the management a browser is
sent to a path that a form, a link or a stored destination names.  Each handler
checks that path by itself; the one that excludes a rule from the traffic page does
not.
-/

namespace EasyWaf.Routes

open Http

/-- `stays_on_site`. -/
def staysOnSite (dest : Text) : Bool :=
  "/".toList.isPrefixOf dest && !"//".toList.isPrefixOf dest && !"/\\".toList.isPrefixOf dest &&
    !dest.any Text.isControl

/-- The gateway's own addresses. -/
def gatewayPaths : List Text := ["/__easywaf/login".toList, "/__easywaf/logout".toList]

/-- `lands_on_the_site`. -/
def landsOnTheSite (dest : Text) : Bool :=
  staysOnSite dest && !gatewayPaths.any (·.isPrefixOf dest)

/-- `safe_back`. -/
def safeBack (raw : Option Text) (fallback : Text) : Text :=
  match raw.map Text.trim with
  | some path =>
      if staysOnSite path && !Text.hasInfix "://".toList path then path else fallback
  | none => fallback

/-- `urlencoding::encode`. -/
def urlEncode (text : Text) : Text :=
  (Text.bytes text).flatMap fun byte =>
    let c := Char.ofNat byte.toNat
    if byte < 0x80 ∧ (c.isAlphanum ∨ c ∈ ['-', '.', '_', '~']) then [c] else Url.escape byte

inductive Outcome
  | success
  | failed
  deriving DecidableEq

def Outcome.name : Outcome → Text
  | .success => "success".toList
  | .failed => "failed".toList

/-- What `flash_url` adds to a path. -/
def flashQuery (path : Text) (outcome : Outcome) (msg : Text) : Text :=
  (if path.contains '?' then '&' else '?') ::
    ("result=".toList ++ outcome.name ++ "&msg=".toList ++ urlEncode msg)

/-- `flash_url`. -/
def flashUrl (path : Text) (outcome : Outcome) (msg : Text) : Text :=
  path ++ flashQuery path outcome msg

/-- The pages handlers return to where a form names none. -/
inductive Page
  | ipLists
  | ipListsOfEvery
  | ipListsOf (policy : Text)
  | exclusions
  | exclusionsOf (policy : Text)
  | ruleSets (policy : Text)
  | policies
  | sites
  | backup
  deriving DecidableEq

def Page.path : Page → Text
  | .ipLists => "/iplists".toList
  | .ipListsOfEvery => "/iplists?scope=all".toList
  | .ipListsOf policy => "/iplists?policy=".toList ++ urlEncode policy
  | .exclusions => "/exclusions".toList
  | .exclusionsOf policy => "/exclusions?policy=".toList ++ urlEncode policy
  | .ruleSets policy => "/policy/".toList ++ urlEncode policy ++ "/rules/sets".toList
  | .policies => "/policy".toList
  | .sites => "/sites".toList
  | .backup => "/backup".toList

/-- A redirect with what its handler makes it of. -/
inductive Redirect
  /-- `handle_verify`, to where the challenge was issued for. -/
  | verified (dest : Text)
  /-- `sign_in`, to the form's `dest`. -/
  | signedIn (dest : Option Text)
  /-- `gate`, of a visitor signed in who opens the form. -/
  | alreadySignedIn
  /-- `post_ip_add`, `post_ip_remove`, `post_feed_save`, `post_feeds_update`,
  `post_exclusion_add`, `post_exclusion_remove`, `post_apply_rule_update`,
  `post_revert_rule_set`, `post_policy_create`, `post_policy_update`,
  `post_site_create` and `post_schedule`, to the form's `back`. -/
  | returned (back : Option Text) (page : Page) (outcome : Outcome) (msg : Text)
  /-- `post_hide` of the tutorial. -/
  | tutorialHidden (back : Text)
  /-- `post_exclusion_from_traffic`. -/
  | excludedFromTraffic (back : Option Text) (outcome : Outcome) (msg : Text)
  deriving DecidableEq

/-- The text a handler redirects to. -/
def Redirect.target : Redirect → Text
  | .verified dest => if staysOnSite dest then dest else "/".toList
  | .signedIn dest => (dest.filter landsOnTheSite).getD "/".toList
  | .alreadySignedIn => "/".toList
  | .returned back page outcome msg => flashUrl (safeBack back page.path) outcome msg
  | .tutorialHidden back => safeBack (some back) "/".toList
  | .excludedFromTraffic back outcome msg => flashUrl (back.getD "/traffic".toList) outcome msg

/-- The `Location` a browser gets; a text that is no header's value is none. -/
def Redirect.location (redirect : Redirect) : Option Text :=
  if (HeaderValue.fromStr redirect.target).isSome then some redirect.target else none

section Texts

variable {text path : Text}

/-- A visible ASCII character. -/
def isVisible (c : Char) : Bool := 0x20 < c.toNat && c.toNat < 0x7F

theorem isVisible_of_mem_escape {byte : UInt8} {c : Char} (hc : c ∈ Url.escape byte) :
    isVisible c :=
  List.all_eq_true.mp (by decide : ('%' :: hexDigits).all isVisible = true) c (Url.mem_escape hc)

theorem isVisible_of_mem_urlEncode {c : Char} (hc : c ∈ urlEncode text) : isVisible c := by
  have hkept : ∀ n : Fin 128,
      ((Char.ofNat n).isAlphanum ∨ Char.ofNat n ∈ ['-', '.', '_', '~']) →
        isVisible (Char.ofNat n) := by decide
  obtain ⟨byte, -, hc⟩ := List.mem_flatMap.mp hc
  dsimp only at hc
  split at hc
  · next hunreserved =>
    obtain ⟨hbyte, hunreserved⟩ := hunreserved
    rw [List.mem_singleton.mp hc]
    exact hkept ⟨byte.toNat, UInt8.lt_iff_toNat_lt.mp hbyte⟩ hunreserved
  · exact isVisible_of_mem_escape hc

theorem isVisible_of_mem_flashQuery {outcome : Outcome} {msg : Text} {c : Char}
    (hc : c ∈ flashQuery path outcome msg) : isVisible c := by
  have hresult : "result=".toList.all isVisible := by decide
  have hmsg : "&msg=".toList.all isVisible := by decide
  have hname : outcome.name.all isVisible := by cases outcome <;> decide
  rw [flashQuery, List.mem_cons, List.mem_append, List.mem_append, List.mem_append] at hc
  rcases hc with rfl | ((hc | hc) | hc) | hc
  · split <;> decide
  · exact List.all_eq_true.mp hresult c hc
  · exact List.all_eq_true.mp hname c hc
  · exact List.all_eq_true.mp hmsg c hc
  · exact isVisible_of_mem_urlEncode hc

theorem isBlank_of_isVisible {c : Char} (hc : isVisible c) : isBlank c = false := by
  rw [isVisible, Bool.and_eq_true, decide_eq_true_iff, decide_eq_true_iff] at hc
  exact decide_eq_false (not_le.mpr hc.1)

theorem isControl_of_isVisible {c : Char} (hc : isVisible c) : Text.isControl c = false := by
  rw [isVisible, Bool.and_eq_true, decide_eq_true_iff, decide_eq_true_iff] at hc
  simp only [Text.isControl, Bool.or_eq_false_iff, Bool.and_eq_false_iff, decide_eq_false_iff_not]
  omega

theorem isQuery_flashQuery (path : Text) (outcome : Outcome) (msg : Text) :
    IsQuery (flashQuery path outcome msg) where
  plain c hc := isBlank_of_isVisible (isVisible_of_mem_flashQuery hc)
  first := by
    refine ⟨_, _, rfl, ?_⟩
    split <;> decide

/-- What stays on the site is a path, and holds nothing a browser drops. -/
theorem staysOnSite_iff : staysOnSite text ↔
    IsPath text ∧ ∀ c ∈ text, Text.isControl c = false := by
  have hcontrol : (!text.any Text.isControl) = true ↔ ∀ c ∈ text, Text.isControl c = false := by
    rw [Bool.not_eq_true', List.any_eq_false]
    simp only [Bool.not_eq_true]
  rw [staysOnSite, Bool.and_eq_true, hcontrol]
  apply and_congr_left'
  match text with
  | [] => exact iff_of_false (by decide) (by rintro ⟨rest, ⟨⟩, -⟩)
  | c :: rest =>
      have hpath : IsPath (c :: rest) ↔ c = '/' ∧ (rest.head?.map isSlash).getD false = false := by
        constructor
        · rintro ⟨rest', heq, hrest⟩
          obtain ⟨rfl, rfl⟩ := List.cons.inj heq
          exact ⟨rfl, hrest⟩
        · rintro ⟨rfl, hrest⟩
          exact ⟨rest, rfl, hrest⟩
      have hone : "/".toList = ['/'] := rfl
      have htwo : "//".toList = ['/', '/'] := rfl
      have hback : "/\\".toList = ['/', '\\'] := rfl
      rw [hpath, hone, htwo, hback]
      cases rest with
      | nil =>
          simp only [List.isPrefixOf, List.head?_nil, Option.map_none, Option.getD_none]
          grind
      | cons d rest =>
          simp only [List.isPrefixOf, isSlash, List.head?_cons, Option.map_some, Option.getD_some]
          grind

theorem staysOnSite_append_flashQuery (hstays : staysOnSite path) (outcome : Outcome)
    (msg : Text) : staysOnSite (path ++ flashQuery path outcome msg) := by
  obtain ⟨hpath, hplain⟩ := staysOnSite_iff.mp hstays
  refine staysOnSite_iff.mpr ⟨?_, ?_⟩
  · obtain ⟨rest, rfl, hrest⟩ := hpath
    refine ⟨rest ++ flashQuery ('/' :: rest) outcome msg, rfl, ?_⟩
    cases rest with
    | nil =>
        rw [List.nil_append, flashQuery, List.head?_cons]
        split <;> decide
    | cons c rest => exact hrest
  · intro c hc
    rcases List.mem_append.mp hc with hc | hc
    · exact hplain c hc
    · exact isControl_of_isVisible (isVisible_of_mem_flashQuery hc)

theorem staysOnSite_safeBack {raw : Option Text} {fallback : Text}
    (hfallback : staysOnSite fallback) : staysOnSite (safeBack raw fallback) := by
  rw [safeBack]
  split
  · split
    · next hstays =>
      rw [Bool.and_eq_true] at hstays
      exact hstays.1
    · exact hfallback
  · exact hfallback

theorem staysOnSite_page (page : Page) : staysOnSite page.path := by
  have happend : ∀ start more : Text, staysOnSite start → 2 ≤ start.length →
      (∀ c ∈ more, Text.isControl c = false) → staysOnSite (start ++ more) := by
    intro start more hstays hlength hmore
    obtain ⟨⟨rest, rfl, hrest⟩, hplain⟩ := staysOnSite_iff.mp hstays
    refine staysOnSite_iff.mpr ⟨⟨rest ++ more, rfl, ?_⟩, ?_⟩
    · cases rest with
      | nil => exact absurd hlength (by decide)
      | cons c rest => exact hrest
    · exact fun c hc => (List.mem_append.mp hc).elim (hplain c) (hmore c)
  cases page with
  | ipListsOf policy =>
      change staysOnSite ("/iplists?policy=".toList ++ urlEncode policy)
      apply happend
      · decide
      · decide
      · exact fun c hc => isControl_of_isVisible (isVisible_of_mem_urlEncode hc)
  | exclusionsOf policy =>
      change staysOnSite ("/exclusions?policy=".toList ++ urlEncode policy)
      apply happend
      · decide
      · decide
      · exact fun c hc => isControl_of_isVisible (isVisible_of_mem_urlEncode hc)
  | ruleSets policy =>
      change staysOnSite ("/policy/".toList ++ urlEncode policy ++ "/rules/sets".toList)
      rw [List.append_assoc]
      apply happend
      · decide
      · decide
      · intro c hc
        rcases List.mem_append.mp hc with hc | hc
        · exact isControl_of_isVisible (isVisible_of_mem_urlEncode hc)
        · exact isControl_of_isVisible
            (List.all_eq_true.mp (by decide : "/rules/sets".toList.all isVisible) c hc)
  | _ => decide

end Texts

section Stays

theorem isSome_fromStr_iff {text : Text} :
    (HeaderValue.fromStr text).isSome ↔ ∀ byte ∈ Text.bytes text, isValueByte byte := by
  rw [HeaderValue.fromStr, HeaderValue.fromBytes]
  split <;> simp_all

theorem isValueByte_of_mem_bytes {text : Text} (hvisible : ∀ c ∈ text, isVisible c) :
    ∀ byte ∈ Text.bytes text, isValueByte byte := by
  have hsmall {c : Char} (hc : c ∈ text) : 0x20 < c.toNat ∧ c.toNat < 0x7F := by
    have hvisible := hvisible c hc
    rwa [isVisible, Bool.and_eq_true, decide_eq_true_iff, decide_eq_true_iff] at hvisible
  rw [Text.bytes_of_ascii fun c hc => (hsmall hc).2.trans (by decide)]
  intro byte hbyte
  obtain ⟨c, hc, rfl⟩ := List.mem_map.mp hbyte
  have hvalue : ∀ n : Fin 127, 0x20 < n.val → isValueByte (UInt8.ofNat n) := by decide
  exact hvalue ⟨c.toNat, (hsmall hc).2⟩ (hsmall hc).1

/-- Visible characters make a header's value of none. -/
theorem isSome_fromStr_append {text more : Text} (hvisible : ∀ c ∈ more, isVisible c) :
    (HeaderValue.fromStr (text ++ more)).isSome ↔ (HeaderValue.fromStr text).isSome := by
  rw [isSome_fromStr_iff, isSome_fromStr_iff, Text.bytes_append, List.forall_mem_append]
  exact and_iff_left (isValueByte_of_mem_bytes hvisible)

variable {browser : Browser} {base : Base}

theorem resolve_of_staysOnSite {target : Text} (hstays : staysOnSite target) :
    browser.resolve base target = some base.host := by
  obtain ⟨hpath, hplain⟩ := staysOnSite_iff.mp hstays
  refine resolve_of_isPath hpath fun c hc => ?_
  have hcontrol := hplain c hc
  by_contra htab
  simp only [isTabOrNewline, Bool.not_eq_false, Bool.or_eq_true, beq_iff_eq] at htab
  rcases htab with (rfl | rfl) | rfl <;> exact absurd hcontrol (by decide)

/-- Where a redirect stays: everywhere but behind an exclusion from the traffic page,
whose `back` names no host, or the one the request was made to, or is no header's
value. -/
def Redirect.Stays (browser : Browser) (base : Base) : Redirect → Prop
  | .excludedFromTraffic (some back) outcome msg =>
      HeaderValue.fromStr back = none ∨ readLocation base (leading back) = .base ∨
        browser.host base (flashQuery back outcome msg) (readLocation base (leading back)) =
          some base.host
  | _ => True

/-- No redirect leads to another host than the request was made to, but for the one
behind an exclusion from the traffic page, and that one exactly where its form names
another host. -/
theorem redirect_stays_iff (browser : Browser) (base : Base) (redirect : Redirect) :
    (∀ location, redirect.location = some location →
      browser.resolve base location = some base.host) ↔ redirect.Stays browser base := by
  have hstays (htarget : staysOnSite redirect.target) (location : Text)
      (hlocation : redirect.location = some location) :
      browser.resolve base location = some base.host := by
    rw [Redirect.location] at hlocation
    split at hlocation
    · rw [← Option.some.inj hlocation]
      exact resolve_of_staysOnSite htarget
    · contradiction
  have hroot : staysOnSite "/".toList := by decide
  cases redirect with
  | verified dest =>
      refine iff_of_true (hstays ?_) trivial
      rw [Redirect.target]
      split
      · assumption
      · exact hroot
  | signedIn dest =>
      refine iff_of_true (hstays ?_) trivial
      rw [Redirect.target]
      cases hdest : dest.filter landsOnTheSite with
      | none => exact hroot
      | some dest =>
          have hlands : landsOnTheSite dest := (Option.filter_eq_some_iff.mp hdest).2
          rw [landsOnTheSite, Bool.and_eq_true] at hlands
          exact hlands.1
  | alreadySignedIn => exact iff_of_true (hstays hroot) trivial
  | returned back page outcome msg =>
      exact iff_of_true (hstays (staysOnSite_append_flashQuery
        (staysOnSite_safeBack (staysOnSite_page page)) outcome msg)) trivial
  | tutorialHidden back =>
      refine iff_of_true (hstays ?_) trivial
      rw [Redirect.target]
      exact staysOnSite_safeBack hroot
  | excludedFromTraffic back outcome msg =>
      cases back with
      | none =>
          exact iff_of_true (hstays (staysOnSite_append_flashQuery (by decide) outcome msg)) trivial
      | some back =>
          have hlegal : (HeaderValue.fromStr (flashUrl back outcome msg)).isSome ↔
              HeaderValue.fromStr back ≠ none := by
            rw [← Option.isSome_iff_ne_none]
            exact isSome_fromStr_append fun c hc => isVisible_of_mem_flashQuery hc
          have hresolve : browser.resolve base (flashUrl back outcome msg) =
              browser.host base (flashQuery back outcome msg) (readLocation base (leading back)) :=
            resolve_append_query (isQuery_flashQuery back outcome msg) back
          have hlocation : Redirect.location (.excludedFromTraffic (some back) outcome msg) =
              if (HeaderValue.fromStr (flashUrl back outcome msg)).isSome then
                some (flashUrl back outcome msg) else none := rfl
          rw [hlocation, Redirect.Stays]
          by_cases hnone : HeaderValue.fromStr back = none
          · rw [if_neg fun hsome => hlegal.mp hsome hnone]
            exact iff_of_true (by rintro _ ⟨⟩) (Or.inl hnone)
          · rw [if_pos (hlegal.mpr hnone)]
            simp only [Option.some.injEq, forall_eq', hresolve, hnone, false_or]
            constructor
            · exact Or.inr
            · rintro (hbase | hhost)
              · rw [hbase]
                rfl
              · exact hhost

/-- A parser of hosts that reads up to the path. -/
def plainBrowser : Browser where
  hostOf _ text := some (text.takeWhile fun c => c != '/' && c != '?')
  otherHost _ _ := none

/-- A form of the traffic page that names another host: its handler follows it, where
every other falls back. -/
theorem traffic_form_leads_elsewhere :
    let base : Base := { scheme := "https".toList, host := "waf.example".toList }
    let back := some "//elsewhere.example/x".toList
    (Redirect.location (.excludedFromTraffic back .failed [])).map (plainBrowser.resolve base) =
        some (some "elsewhere.example".toList) ∧
      Redirect.location (.returned back .exclusions .failed []) =
        some "/exclusions?result=failed&msg=".toList := by
  unfold Redirect.location Redirect.target safeBack staysOnSite flashUrl flashQuery Outcome.name
    Page.path
  repeat rewrite [String.toList_ofList]
  decide +kernel

end Stays

end EasyWaf.Routes
