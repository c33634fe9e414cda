import EasyWaf.Text.Basic

/-!
# Lines of fields

A line is fields between blanks, a field a key and a value with `=` between them.  A
value that begins with a quote ends at the next quote that is not escaped, any other at
the next blank.
-/

namespace EasyWaf.Logfmt

abbrev Field := Text × Text

/-- What has been read of the field the reader is in. -/
inductive Reading
  | between
  | key (key : Text)
  | value (key : Text)
  | bare (key value : Text)
  | quoted (key value : Text)
  | escaped (key value : Text)
  | closed

/-- The fields that are still to come, and the one that is being read. -/
def scan : Reading → Text → Option (List Field)
  | .between, [] => some []
  | .between, c :: rest =>
      if Text.isWhitespace c then scan .between rest else scan (.key [c]) rest
  | .key _, [] => none
  | .key key, c :: rest =>
      if c = '=' then scan (.value key) rest
      else if Text.isWhitespace c then none
      else scan (.key (key ++ [c])) rest
  | .value key, [] => some [(key, [])]
  | .value key, c :: rest =>
      if c = '"' then scan (.quoted key []) rest
      else if Text.isWhitespace c then (scan .between rest).map ((key, []) :: ·)
      else scan (.bare key [c]) rest
  | .bare key value, [] => some [(key, value)]
  | .bare key value, c :: rest =>
      if Text.isWhitespace c then (scan .between rest).map ((key, value) :: ·)
      else scan (.bare key (value ++ [c])) rest
  | .quoted _ _, [] => none
  | .quoted key value, c :: rest =>
      if c = '"' then (scan .closed rest).map ((key, value) :: ·)
      else if c = '\\' then scan (.escaped key value) rest
      else scan (.quoted key (value ++ [c])) rest
  | .escaped _ _, [] => none
  | .escaped key value, c :: rest => scan (.quoted key (value ++ [c])) rest
  | .closed, [] => some []
  | .closed, c :: rest => if Text.isWhitespace c then scan .between rest else none

/-- The fields of a line. -/
def parse (line : Text) : Option (List Field) := scan .between line

/-- A key neither ends nor is split before its `=`. -/
structure IsKey (key : Text) : Prop where
  ne_nil : key ≠ []
  plain : ∀ c ∈ key, Text.isWhitespace c = false ∧ c ≠ '='

instance (key : Text) : Decidable (IsKey key) :=
  decidable_of_iff (key ≠ [] ∧ key.all fun c => !Text.isWhitespace c && c != '=')
    ⟨fun h => ⟨h.1, by simpa using h.2⟩, fun h => ⟨h.ne_nil, by simpa using h.plain⟩⟩

section Reading

variable {key value rest done : Text}

theorem scan_key (hplain : ∀ c ∈ rest, Text.isWhitespace c = false ∧ c ≠ '=') (after : Text) :
    scan (.key key) (rest ++ '=' :: after) = scan (.value (key ++ rest)) after := by
  induction rest generalizing key with
  | nil => simp [scan]
  | cons c rest ih =>
      obtain ⟨⟨hblank, hequals⟩, hrest⟩ := List.forall_mem_cons.mp hplain
      rw [List.cons_append, scan, if_neg hequals, hblank, ih hrest]
      simp

/-- The reader comes to the value of a field. -/
theorem scan_between_key (hkey : IsKey key) (after : Text) :
    scan .between (key ++ '=' :: after) = scan (.value key) after := by
  cases key with
  | nil => exact absurd rfl hkey.ne_nil
  | cons c rest =>
      obtain ⟨⟨hblank, -⟩, hrest⟩ := List.forall_mem_cons.mp hkey.plain
      rw [List.cons_append, scan, hblank]
      exact scan_key hrest after

theorem scan_bare (hplain : ∀ c ∈ rest, Text.isWhitespace c = false) :
    scan (.bare key value) rest = some [(key, value ++ rest)] := by
  induction rest generalizing value with
  | nil => simp [scan]
  | cons c rest ih =>
      obtain ⟨hblank, hrest⟩ := List.forall_mem_cons.mp hplain
      rw [scan, hblank, if_neg Bool.false_ne_true, ih hrest]
      simp

theorem scan_bare_blank (hplain : ∀ c ∈ rest, Text.isWhitespace c = false) (after : Text) :
    scan (.bare key value) (rest ++ ' ' :: after) =
      (scan .between after).map ((key, value ++ rest) :: ·) := by
  induction rest generalizing value with
  | nil => simp [scan, Text.isWhitespace]
  | cons c rest ih =>
      obtain ⟨hblank, hrest⟩ := List.forall_mem_cons.mp hplain
      rw [List.cons_append, scan, hblank, if_neg Bool.false_ne_true, ih hrest]
      simp

end Reading

end EasyWaf.Logfmt
