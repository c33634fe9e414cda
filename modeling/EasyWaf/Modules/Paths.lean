import EasyWaf.Http.Url

/-!
# The ways a path may be read

A request's path as the upstream is sent it, and as a server may read it that
decodes, resolves or merges first.
-/

namespace EasyWaf.Modules.Paths

open Http

/-- `percent_decode`. -/
def percentDecode (text : Text) : Text := Text.fromUtf8Lossy (decodeBinary text.bytes)

/-- A text with each run of slashes made one, after a character that is a slash
or is not. -/
def mergeAfter : Bool → Text → Text
  | _, [] => []
  | slash, c :: rest =>
      if c ≠ '/' ∨ slash = false then c :: mergeAfter (c == '/') rest else mergeAfter slash rest

/-- `merge_slashes`. -/
def mergeSlashes (path : Text) : Text := mergeAfter false path

/-- `under_prefix`: an empty prefix covers every path, another its own path and
what is below it. -/
def underPrefix (path pathPrefix : Text) : Bool :=
  pathPrefix.isEmpty ||
    match path.dropPrefix? pathPrefix with
    | some rest => pathPrefix.getLast? == some '/' || rest.isEmpty || rest.head? == some '/'
    | none => false

variable (url : Url)

/-- `path_as_forwarded`: the path of the URL the text makes after a host, or the
text where it makes none. -/
def pathAsForwarded : Text → Text
  | '/' :: rest => url.path rest
  | text => (url.afterHost text).getD text

/-- The paths `normalised_paths` looks at: the path as written and decoded, each
with slashes merged after dot segments are resolved, and before. -/
def candidates (path : Text) : List Text :=
  [path, percentDecode path].flatMap fun written =>
    [mergeSlashes (pathAsForwarded url written),
      mergeSlashes (pathAsForwarded url (mergeSlashes written))]

/-- `normalised_paths`. -/
def normalisedPaths (path : Text) : List Text :=
  (candidates url path).foldl
    (fun out read => if read ≠ path ∧ !out.contains read then out ++ [read] else out) []

theorem percentDecode_slash (rest : Text) :
    percentDecode ('/' :: rest) = '/' :: percentDecode rest := by
  have hbytes : Text.bytes ('/' :: rest) = 47 :: Text.bytes rest := rfl
  rw [percentDecode, hbytes, decodeBinary_cons_of_ne (by decide),
    Text.fromUtf8Lossy_cons_of_lt (by decide)]
  rfl

theorem mergeSlashes_slash (rest : Text) :
    mergeSlashes ('/' :: rest) = '/' :: mergeAfter true rest := by
  rw [mergeSlashes, mergeAfter, if_pos (Or.inr rfl)]
  rfl

section Merge

theorem mem_of_mem_mergeAfter {slash : Bool} {text : Text} {c : Char}
    (hc : c ∈ mergeAfter slash text) : c ∈ text := by
  induction text generalizing slash with
  | nil => rwa [mergeAfter] at hc
  | cons d rest ih =>
      rw [mergeAfter] at hc
      split at hc
      · rcases List.mem_cons.mp hc with rfl | hc
        · exact List.mem_cons_self
        · exact List.mem_cons_of_mem _ (ih hc)
      · exact List.mem_cons_of_mem _ (ih hc)

/-- Merging leaves out segments, all of them empty: a merged text begins with the
segment the text begins with, unless a slash stands before it. -/
theorem splitOn_mergeAfter (text : Text) :
    (∃ head before after : _, (mergeAfter false text).splitOn '/' = head :: after ∧
      text.splitOn '/' = head :: before ∧ after ⊆ before) ∧
    (mergeAfter true text).splitOn '/' ⊆ text.splitOn '/' := by
  induction text with
  | nil => exact ⟨⟨[], [], [], by simp [mergeAfter]⟩, by simp [mergeAfter]⟩
  | cons c rest ih =>
      obtain ⟨⟨head, before, after, hmerged, hsplit, hsub⟩, htrue⟩ := ih
      by_cases hc : c = '/'
      · subst hc
        rw [mergeAfter, if_pos (Or.inr rfl), mergeAfter, if_neg (by simp), beq_self_eq_true,
          Core.splitOn_cons_self, Core.splitOn_cons_self]
        exact ⟨⟨_, _, _, rfl, rfl, htrue⟩, List.subset_cons_of_subset _ htrue⟩
      · have hslash : (c == '/') = false := beq_eq_false_iff_ne.mpr hc
        rw [mergeAfter, if_pos (Or.inl hc), mergeAfter, if_pos (Or.inl hc), hslash,
          Core.splitOn_cons_of_ne hc, Core.splitOn_cons_of_ne hc, hmerged, hsplit]
        exact ⟨⟨_, _, _, rfl, rfl, hsub⟩, List.cons_subset_cons _ hsub⟩

theorem parsed_mergeAfter {url : Url} {rest : Text} (hparsed : url.Parsed rest) :
    url.Parsed (mergeAfter true rest) where
  plain c hc := hparsed.plain c (mem_of_mem_mergeAfter hc)
  dotless segment hsegment := hparsed.dotless segment ((splitOn_mergeAfter rest).2 hsegment)

end Merge

section Forwarded

variable {url} {path : Text}

/-- A path an upstream may be sent. -/
def Forwarded (url : Url) (path : Text) : Prop :=
  ∃ rest : Text, path = '/' :: rest ∧ url.Parsed rest

/-- A request's path, as it is typed. -/
def Absolute (path : Text) : Prop := ∃ rest : Text, path = '/' :: rest

theorem Forwarded.absolute (hpath : Forwarded url path) : Absolute path :=
  hpath.imp fun _ h => h.1

theorem Absolute.percentDecode (hpath : Absolute path) : Absolute (percentDecode path) := by
  obtain ⟨rest, rfl⟩ := hpath
  exact ⟨_, percentDecode_slash rest⟩

theorem Absolute.mergeSlashes (hpath : Absolute path) : Absolute (mergeSlashes path) := by
  obtain ⟨rest, rfl⟩ := hpath
  exact ⟨_, mergeSlashes_slash rest⟩

theorem Absolute.toAsciiLowercase (hpath : Absolute path) : Absolute path.toAsciiLowercase := by
  obtain ⟨rest, rfl⟩ := hpath
  exact ⟨_, rfl⟩

theorem Absolute.forwarded (hpath : Absolute path) : Forwarded url (pathAsForwarded url path) := by
  obtain ⟨rest, rfl⟩ := hpath
  exact url.exists_path_eq rest

theorem Forwarded.pathAsForwarded_eq (hpath : Forwarded url path) :
    pathAsForwarded url path = path := by
  obtain ⟨rest, rfl, hparsed⟩ := hpath
  exact hparsed.path_eq

theorem Forwarded.mergeSlashes (hpath : Forwarded url path) :
    Forwarded url (mergeSlashes path) := by
  obtain ⟨rest, rfl, hparsed⟩ := hpath
  exact ⟨_, mergeSlashes_slash rest, parsed_mergeAfter hparsed⟩

theorem Absolute.forwarded_of_mem_candidates (hpath : Absolute path) {read : Text}
    (hread : read ∈ candidates url path) : Forwarded url read := by
  simp only [candidates, List.flatMap_cons, List.flatMap_nil, List.cons_append, List.nil_append,
    List.append_nil, List.mem_cons, List.not_mem_nil, or_false] at hread
  rcases hread with rfl | rfl | rfl | rfl
  · exact hpath.forwarded.mergeSlashes
  · exact hpath.mergeSlashes.forwarded.mergeSlashes
  · exact hpath.percentDecode.forwarded.mergeSlashes
  · exact hpath.percentDecode.mergeSlashes.forwarded.mergeSlashes

end Forwarded

theorem mem_foldl_push {path : Text} (candidates out : List Text) {read : Text} :
    read ∈ candidates.foldl
        (fun out read => if read ≠ path ∧ !out.contains read then out ++ [read] else out) out ↔
      read ∈ out ∨ read ∈ candidates ∧ read ≠ path := by
  induction candidates generalizing out with
  | nil => simp
  | cons first rest ih =>
      rw [List.foldl_cons, ih]
      by_cases hpush : first ≠ path ∧ !out.contains first
      · rw [if_pos hpush]
        grind
      · rw [if_neg hpush]
        grind

theorem mem_normalisedPaths {path read : Text} :
    read ∈ normalisedPaths url path ↔ read ∈ candidates url path ∧ read ≠ path := by
  rw [normalisedPaths, mem_foldl_push]
  simp

/-- The path as it is forwarded, with the ways it may be read: a candidate that is
the path as typed is left out, and is then what is forwarded. -/
theorem mem_forwarded_or_normalised {path : Text} (hpath : Absolute path) {read : Text} :
    read ∈ pathAsForwarded url path :: normalisedPaths url path ↔
      read ∈ pathAsForwarded url path :: candidates url path := by
  rw [List.mem_cons, List.mem_cons, mem_normalisedPaths]
  constructor
  · exact Or.imp_right And.left
  · rintro (hread | hread)
    · exact Or.inl hread
    · by_cases htyped : read = path
      · subst htyped
        exact Or.inl (hpath.forwarded_of_mem_candidates hread).pathAsForwarded_eq.symm
      · exact Or.inr ⟨hread, htyped⟩

end EasyWaf.Modules.Paths
