import EasyWaf.Proxy.SiteTable
import EasyWaf.Routes.SiteFields

/-!
# The pool on the site row

The enabled backends of a site travel as one text, a line each, and are read back
from it.  They are read back as they are stored where no address holds a line break
and none begins or ends with a blank; the form and an import let such addresses in.
-/

namespace EasyWaf.Upstream

open EasyWaf.Core EasyWaf.Db EasyWaf.Http EasyWaf.Routes EasyWaf.Text

/-- The rows `load_sites` reads a site's pool from. -/
def enabledRows (db : Database) (siteId : ℤ) : List Db.Upstream :=
  db.upstreams.filter fun row => row.siteId = siteId ∧ row.enabled

/-- One line of the pool. -/
def poolLine (row : Db.Upstream) : Text :=
  formatInt row.id ++ [' '] ++ row.url ++ [' '] ++ formatInt row.weight

/-- The numbers of a row are those the columns hold. -/
structure Fits (row : Db.Upstream) : Prop where
  id_low : -2 ^ 63 ≤ row.id
  id_high : row.id < 2 ^ 63
  weight_pos : 1 ≤ row.weight
  weight_high : row.weight < 2 ^ 63

section Line

variable {row : Db.Upstream} {line : Text} {backend : Backend}

theorem trim_poolLine (row : Db.Upstream) : (poolLine row).trim = poolLine row := by
  apply trim_eq_self
  · intro c hc
    obtain ⟨first, rest, hid⟩ := List.exists_cons_of_ne_nil (formatInt_ne_nil row.id)
    apply not_isWhitespace_of_mem_formatInt (i := row.id)
    simp only [poolLine, hid, List.cons_append, List.head?_cons, Option.some.injEq] at hc
    exact hid ▸ hc ▸ List.mem_cons_self
  · intro c hc
    rw [poolLine, List.getLast?_append_of_ne_nil _ (formatInt_ne_nil row.weight)] at hc
    exact not_isWhitespace_of_mem_formatInt (List.mem_of_getLast? hc)

theorem poolLine_ne_nil (row : Db.Upstream) : poolLine row ≠ [] :=
  List.append_ne_nil_of_right_ne_nil _ (formatInt_ne_nil row.weight)

theorem getLast?_poolLine (row : Db.Upstream) : (poolLine row).getLast? ≠ some '\r' := by
  rw [poolLine, List.getLast?_append_of_ne_nil _ (formatInt_ne_nil row.weight)]
  intro hlast
  exact not_mem_formatInt (by decide) (by decide) row.weight (List.mem_of_getLast? hlast)

theorem not_mem_poolLine (hurl : '\n' ∉ row.url) : '\n' ∉ poolLine row := by
  have hnumber (i : ℤ) : '\n' ∉ formatInt i := not_mem_formatInt (by decide) (by decide) i
  simp only [poolLine, List.mem_append, List.mem_singleton, not_or]
  exact ⟨⟨⟨⟨hnumber row.id, by decide⟩, hurl⟩, by decide⟩, hnumber row.weight⟩

/-- A line of the pool reads back, its address trimmed. -/
theorem parseBackend_poolLine (hfits : Fits row) :
    parseBackend (poolLine row) =
      if row.url.trim = [] then none
      else some ⟨row.id, row.url.trim, row.weight, hfits.weight_pos⟩ := by
  have hspace (i : ℤ) : ' ' ∉ formatInt i := not_mem_formatInt (by decide) (by decide) i
  have hline : poolLine row =
      formatInt row.id ++ ' ' :: (row.url ++ ' ' :: formatInt row.weight) := by
    simp only [poolLine, List.append_assoc, List.cons_append, List.nil_append]
  have hweight : parseInt64 (formatInt row.weight) = some row.weight :=
    parseInt64_formatInt (by linarith [hfits.weight_pos]) hfits.weight_high
  rw [parseBackend, trim_poolLine, hline, splitOnce_append (hspace row.id)]
  simp only [Option.bind_eq_bind, Option.bind_some, parseInt64_formatInt hfits.id_low hfits.id_high,
    rsplitOnce_append (hspace row.weight), trim_formatInt, hweight, Option.getD_some,
    max_eq_left hfits.weight_pos]

/-- An address read from a line is trimmed, is not empty and stands in the line. -/
theorem url_of_parseBackend (hparse : parseBackend line = some backend) :
    backend.url.trim = backend.url ∧ backend.url ≠ [] ∧ ∀ c ∈ backend.url, c ∈ line := by
  simp only [parseBackend, Option.bind_eq_bind, Option.bind_eq_some_iff, Prod.exists] at hparse
  obtain ⟨id, rest, hsplit, number, -, hparse⟩ := hparse
  have hrest : ∀ c ∈ rest, c ∈ line := by
    intro c hc
    have htrim : line.trim = id ++ ' ' :: rest := (splitOnce_eq_some hsplit).1
    apply mem_of_mem_trim
    rw [htrim]
    exact List.mem_append_right _ (List.mem_cons_of_mem _ hc)
  cases hlast : rsplitOnce ' ' rest with
  | none =>
      simp only [hlast, Option.ite_none_left_eq_some, Option.some.injEq] at hparse
      obtain ⟨hne, rfl⟩ := hparse
      exact ⟨trim_trim rest, hne, fun c hc => hrest c (mem_of_mem_trim hc)⟩
  | some parts =>
      simp only [hlast, Option.ite_none_left_eq_some, Option.some.injEq] at hparse
      obtain ⟨hne, rfl⟩ := hparse
      have hparts : rest = parts.1 ++ ' ' :: parts.2 := (rsplitOnce_eq_some hlast).1
      refine ⟨trim_trim parts.1, hne, fun c hc => hrest c ?_⟩
      rw [hparts]
      exact List.mem_append_left _ (mem_of_mem_trim hc)

end Line

section Lines

variable {parts : List Text} {text line : Text}

/-- A line as it stands between two line ends, without the carriage return. -/
theorem getD_dropSuffix?_eq (hline : line.getLast? ≠ some '\r') :
    (line.dropSuffix? ['\r']).getD line = line := by
  cases hdrop : line.dropSuffix? ['\r'] with
  | none => rfl
  | some before =>
      obtain ⟨last, rfl, hlast⟩ := List.dropSuffix?_eq_some_iff.mp hdrop
      obtain rfl : last = ['\r'] := by simpa using hlast
      exact absurd List.getLast?_concat hline

theorem subset_getD_dropSuffix? (line : Text) : (line.dropSuffix? ['\r']).getD line ⊆ line := by
  cases hdrop : line.dropSuffix? ['\r'] with
  | none => exact List.Subset.refl line
  | some before =>
      obtain ⟨last, rfl, -⟩ := List.dropSuffix?_eq_some_iff.mp hdrop
      exact List.subset_append_left before last

/-- Lines with no line end of their own are read back. -/
theorem lines_join (hparts : ∀ part ∈ parts, '\n' ∉ part ∧ part ≠ [] ∧ part.getLast? ≠ some '\r') :
    lines (Text.join ['\n'] parts) = parts := by
  by_cases hnil : parts = []
  · subst hnil
    rfl
  · have hsplit : (Text.join ['\n'] parts).splitOn '\n' = parts :=
      List.splitOn_intercalate _ (fun part hpart => (hparts part hpart).1) hnil
    have hended : (parts.dropLast.map fun line => (line.dropSuffix? ['\r']).getD line) =
        parts.dropLast :=
      (List.map_congr_left fun part hpart =>
        getD_dropSuffix?_eq (hparts part (List.mem_of_mem_dropLast hpart)).2.2).trans
        (List.map_id _)
    have hlast : parts.getLast hnil ≠ [] := (hparts _ (List.getLast_mem hnil)).2.1
    unfold lines
    rw [hsplit]
    dsimp only
    rw [hended, List.getLast?_eq_some_getLast hnil, Option.toList_some,
      List.filter_singleton, decide_eq_true hlast, cond_true, List.dropLast_append_getLast hnil]

theorem not_mem_of_mem_lines (hline : line ∈ lines text) : '\n' ∉ line := by
  have hpart : ∀ part ∈ text.splitOn '\n', '\n' ∉ part := fun part hpart hmem =>
    (mem_of_mem_splitOn hpart hmem).2 rfl
  rcases List.mem_append.mp hline with hended | hlast
  · obtain ⟨part, hmem, rfl⟩ := List.mem_map.mp hended
    exact fun h => hpart part (List.mem_of_mem_dropLast hmem) (subset_getD_dropSuffix? part h)
  · have hmem := List.mem_of_mem_filter hlast
    exact hpart line (List.mem_of_getLast? (Option.mem_toList.mp hmem))

end Lines

section Pool

variable {parser : UrlParser} {raw url : Text}

theorem url_ne_nil_of_validUpstream (hvalid : validUpstream raw = .ok url) : url ≠ [] := by
  unfold validUpstream at hvalid
  dsimp only at hvalid
  split at hvalid
  · contradiction
  · split at hvalid
    · split at hvalid
      · split at hvalid
        · contradiction
        · split at hvalid
          · contradiction
          · obtain rfl := Except.ok.inj hvalid
            simp
      · contradiction
    · contradiction

theorem url_ne_nil_of_parseEntry {entry : Text} {backend : Routes.Backend}
    (hparse : parseEntry entry = .ok backend) : backend.url ≠ [] := by
  have hvalid {url : Text} {weight : ℤ} {enabled : Bool}
      (hread : (validUpstream url).bind (fun url => .ok ⟨url, weight, enabled⟩) = .ok backend) :
      backend.url ≠ [] := by
    cases hvalid : validUpstream url with
    | error why =>
        rw [hvalid] at hread
        contradiction
    | ok url =>
        rw [hvalid] at hread
        obtain rfl := Except.ok.inj hread
        exact url_ne_nil_of_validUpstream hvalid
  unfold parseEntry at hparse
  split at hparse
  split at hparse
  · dsimp only at hparse
    split at hparse
    · exact hvalid hparse
    · contradiction
  · exact hvalid hparse

theorem url_ne_nil_of_mem_addEntry {read : List Routes.Backend × List Text} {entry : Text}
    (hread : ∀ backend ∈ read.1, backend.url ≠ []) :
    ∀ backend ∈ (addEntry read entry).1, backend.url ≠ [] := by
  unfold addEntry
  split
  · next backend hparse =>
      split
      · exact hread
      · rintro other hother
        rcases List.mem_append.mp hother with hmem | hmem
        · exact hread other hmem
        · obtain rfl := List.mem_singleton.mp hmem
          exact url_ne_nil_of_parseEntry hparse
  · exact hread

/-- No form and no import stores an address that is nothing. -/
theorem ne_nil_of_storable (hstorable : Storable parser url) : url ≠ [] := by
  rcases hstorable with ⟨raw, -, backend, hmem, rfl⟩ | himport
  · refine List.foldlRecOn (entries raw) addEntry
      (motive := fun read => ∀ backend ∈ read.1, backend.url ≠ []) ?_ ?_ backend hmem
    · exact fun _ hnil => absurd hnil List.not_mem_nil
    · exact fun _ hread _ _ => url_ne_nil_of_mem_addEntry hread
  · rintro rfl
    contradiction

theorem parsePool_pool (db : Database) (siteId : ℤ) :
    parsePool ((Proxy.pool db siteId).getD []) =
      parsePool (Text.join ['\n'] ((enabledRows db siteId).map poolLine)) := by
  unfold Proxy.pool
  dsimp only
  split
  case isTrue hnil => rw [enabledRows, hnil]; rfl
  case isFalse => rfl

/-- Rows whose addresses hold no line break and have no blank at either end are read
back. -/
theorem parsePool_of_plain {rows : List Db.Upstream} (hfits : ∀ row ∈ rows, Fits row)
    (hne : ∀ row ∈ rows, row.url ≠ [])
    (hplain : ∀ row ∈ rows, '\n' ∉ row.url ∧ row.url.trim = row.url) :
    (parsePool (Text.join ['\n'] (rows.map poolLine))).map
        (fun backend => (backend.id, backend.url, backend.weight)) =
      rows.map fun row => (row.id, row.url, row.weight) := by
  have hlines : ∀ line ∈ rows.map poolLine,
      '\n' ∉ line ∧ line ≠ [] ∧ line.getLast? ≠ some '\r' := by
    intro line hline
    obtain ⟨row, hrow, rfl⟩ := List.mem_map.mp hline
    exact ⟨not_mem_poolLine (hplain row hrow).1, poolLine_ne_nil row, getLast?_poolLine row⟩
  rw [parsePool, lines_join hlines, List.filterMap_map, List.map_filterMap,
    ← List.filterMap_eq_map]
  apply List.filterMap_congr
  intro row hrow
  rw [Function.comp_apply, parseBackend_poolLine (hfits row hrow), (hplain row hrow).2,
    if_neg (hne row hrow)]
  rfl

/-- What is read back names the stored rows exactly where their addresses are plain. -/
theorem parsePool_pool_iff (parser : UrlParser) (db : Database) (siteId : ℤ)
    (hfits : ∀ row ∈ enabledRows db siteId, Fits row)
    (hstorable : ∀ row ∈ enabledRows db siteId, Storable parser row.url) :
    (parsePool ((Proxy.pool db siteId).getD [])).map
        (fun backend => (backend.id, backend.url, backend.weight)) =
      (enabledRows db siteId).map (fun row => (row.id, row.url, row.weight)) ↔
      ∀ row ∈ enabledRows db siteId, '\n' ∉ row.url ∧ row.url.trim = row.url := by
  rw [parsePool_pool]
  constructor
  · intro hread row hrow
    have hmem : (row.id, row.url, row.weight) ∈
        (enabledRows db siteId).map (fun row => (row.id, row.url, row.weight)) :=
      List.mem_map_of_mem hrow
    rw [← hread] at hmem
    obtain ⟨backend, hbackend, heq⟩ := List.mem_map.mp hmem
    obtain ⟨line, hline, hparse⟩ := List.mem_filterMap.mp hbackend
    obtain ⟨htrim, -, hsub⟩ := url_of_parseBackend hparse
    have hurl : backend.url = row.url := congrArg (fun fields => fields.2.1) heq
    rw [← hurl]
    exact ⟨fun hbreak => not_mem_of_mem_lines hline (hsub _ hbreak), htrim⟩
  · exact parsePool_of_plain hfits fun row hrow => ne_nil_of_storable (hstorable row hrow)

end Pool

section Two

/-- A site with one backend. -/
def single (url : String) : Database :=
  Database.empty.withRows .upstreams [⟨7, 1, url.toList, 3, true⟩]

theorem forall_enabledRows_single {url : String} {holds : Db.Upstream → Prop}
    (hrow : holds ⟨7, 1, url.toList, 3, true⟩) : ∀ row ∈ enabledRows (single url) 1, holds row := by
  intro row hmem
  obtain rfl := List.mem_singleton.mp (List.mem_of_mem_filter hmem)
  exact hrow

theorem parsePool_of_one :
    (parsePool ((Proxy.pool (single "http://10.0.0.2:80") 1).getD [])).map
      (fun backend => (backend.id, backend.url, backend.weight)) =
        [(7, "http://10.0.0.2:80".toList, 3)] :=
  (parsePool_pool_iff .standard (single "http://10.0.0.2:80") 1
    (forall_enabledRows_single ⟨by decide, by decide, by decide, by decide⟩)
    (forall_enabledRows_single (Or.inr (by decide +kernel)))).mpr
    (forall_enabledRows_single (by decide +kernel))

/-- A line break at the end of an address takes the backend's weight with it. -/
theorem weight_lost :
    ¬ ∀ (parser : UrlParser) (db : Database) (siteId : ℤ),
      (∀ row ∈ enabledRows db siteId, Fits row ∧ Storable parser row.url) →
        (parsePool ((Proxy.pool db siteId).getD [])).map
            (fun backend => (backend.id, backend.url, backend.weight)) =
          (enabledRows db siteId).map fun row => (row.id, row.url, row.weight) := by
  intro hclaim
  have hread := hclaim .standard (single "http://10.0.0.2\n") 1 (forall_enabledRows_single
    ⟨⟨by decide, by decide, by decide, by decide⟩, Or.inr (by decide +kernel)⟩)
  revert hread
  decide +kernel

end Two

end EasyWaf.Upstream
