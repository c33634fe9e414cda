import EasyWaf.Text.Logfmt

/-!
# Fields as they are written

A value that would split its line is quoted, and one that is too long is clipped.
-/

namespace EasyWaf.Logging

open Logfmt

/-- `value.replace(c, replacement)`. -/
def replaceChar (c : Char) (replacement : Text) (value : Text) : Text :=
  value.flatMap fun d => if d = c then replacement else [d]

def isDirty (value : Text) : Bool :=
  value.isEmpty || value.any fun c => Text.isWhitespace c || c = '"' || c = '=' || c = '\\'

def escape (value : Text) : Text :=
  replaceChar '"' ['\\', '"'] (replaceChar '\\' ['\\', '\\'] value)

/-- `logging::field`. -/
def field (value : Text) : Text :=
  if isDirty value then '"' :: (escape value ++ ['"']) else value

/-- `logging::clip`. -/
def clip (value : Text) (max : ℕ) : Text :=
  if value.length ≤ max then value else value.take max ++ ['…']

/-- `key={}`. -/
def entry (key : String) (value : Text) : Text := key.toList ++ '=' :: value

variable {key : Text} {value : Text}

@[simp]
theorem escape_nil : escape [] = [] := rfl

theorem escape_cons (c : Char) (value : Text) :
    escape (c :: value) =
      (if c = '"' ∨ c = '\\' then ['\\', c] else [c]) ++ escape value := by
  by_cases hslash : c = '\\'
  · subst hslash
    simp [escape, replaceChar]
  · by_cases hquote : c = '"'
    · subst hquote
      simp [escape, replaceChar]
    · simp [escape, replaceChar, hslash, hquote]

/-- What is read of an escaped value is the value. -/
theorem scan_escape (value done after : Text) :
    scan (.quoted key done) (escape value ++ '"' :: after) =
      (scan .closed after).map ((key, done ++ value) :: ·) := by
  induction value generalizing done with
  | nil => simp [scan]
  | cons c value ih =>
      rw [escape_cons, List.append_assoc]
      split
      · next hmarked =>
          have hread : scan (.quoted key done) (['\\', c] ++ (escape value ++ '"' :: after)) =
              scan (.quoted key (done ++ [c])) (escape value ++ '"' :: after) := by
            simp [scan]
          rw [hread, ih]
          simp
      · next hplain =>
          rw [not_or] at hplain
          have hread : scan (.quoted key done) ([c] ++ (escape value ++ '"' :: after)) =
              scan (.quoted key (done ++ [c])) (escape value ++ '"' :: after) := by
            simp [scan, hplain]
          rw [hread, ih]
          simp

/-- A value that is not quoted is not empty and has nothing in it that splits a line. -/
theorem plain_of_not_dirty (hclean : isDirty value = false) :
    ∃ c rest, value = c :: rest ∧ c ≠ '"' ∧ ∀ d ∈ c :: rest, Text.isWhitespace d = false := by
  cases value with
  | nil => contradiction
  | cons c rest =>
      have hall : ∀ d ∈ c :: rest, Text.isWhitespace d = false ∧ d ≠ '"' := by
        intro d hd
        have hfalse := List.any_eq_false.mp (Bool.or_eq_false_iff.mp hclean).2 d hd
        simp only [Bool.or_eq_true, decide_eq_true_eq, not_or] at hfalse
        exact ⟨by simpa using hfalse.1.1.1, hfalse.1.1.2⟩
      exact ⟨c, rest, rfl, (hall c List.mem_cons_self).2, fun d hd => (hall d hd).1⟩

/-- The last field of a line. -/
theorem scan_field (key value : Text) : scan (.value key) (field value) = some [(key, value)] := by
  rw [field]
  split
  · rw [scan, if_pos rfl, scan_escape]
    rfl
  · next hclean =>
      obtain ⟨c, rest, rfl, hquote, hplain⟩ := plain_of_not_dirty (Bool.not_eq_true _ ▸ hclean)
      obtain ⟨hblank, hrest⟩ := List.forall_mem_cons.mp hplain
      rw [scan, if_neg hquote, hblank, if_neg Bool.false_ne_true, scan_bare hrest]
      rfl

/-- A field that others follow. -/
theorem scan_field_blank (key value after : Text) :
    scan (.value key) (field value ++ ' ' :: after) =
      (scan .between after).map ((key, value) :: ·) := by
  rw [field]
  split
  · have hclosed : scan .closed (' ' :: after) = scan .between after := by
      simp [scan, Text.isWhitespace]
    rw [List.cons_append, List.append_assoc, scan, if_pos rfl, List.singleton_append, scan_escape,
      hclosed]
    rfl
  · next hclean =>
      obtain ⟨c, rest, rfl, hquote, hplain⟩ := plain_of_not_dirty (Bool.not_eq_true _ ▸ hclean)
      obtain ⟨hblank, hrest⟩ := List.forall_mem_cons.mp hplain
      rw [List.cons_append, scan, if_neg hquote, hblank, if_neg Bool.false_ne_true,
        scan_bare_blank hrest]
      rfl

/-- A value with nothing to quote in it is written as it is. -/
theorem field_of_clean (hne : value ≠ [])
    (hclean : ∀ c ∈ value, Text.isWhitespace c = false ∧ c ≠ '"' ∧ c ≠ '=' ∧ c ≠ '\\') :
    field value = value := by
  have hdirty : isDirty value = false := by
    rw [isDirty, Bool.or_eq_false_iff, List.any_eq_false]
    refine ⟨by simpa using hne, fun c hc => ?_⟩
    obtain ⟨hblank, hquote, hequals, hslash⟩ := hclean c hc
    simp [hblank, hquote, hequals, hslash]
  rw [field, hdirty, if_neg Bool.false_ne_true]

/-! ## Whole lines -/

/-- Fields with blanks between them. -/
def write (fields : List (String × Text)) : Text :=
  Text.join [' '] (fields.map fun pair => entry pair.1 (field pair.2))

/-- The fields as a reader is to find them. -/
def pairs (fields : List (String × Text)) : List Field :=
  fields.map fun pair => (pair.1.toList, pair.2)

/-- A reader finds the fields that were written, in their order. -/
theorem parse_write {fields : List (String × Text)}
    (hkeys : ∀ pair ∈ fields, IsKey pair.1.toList) :
    parse (write fields) = some (pairs fields) := by
  induction fields with
  | nil => rfl
  | cons first rest ih =>
      obtain ⟨hfirst, hrest⟩ := List.forall_mem_cons.mp hkeys
      cases rest with
      | nil =>
          have hline : write [first] = first.1.toList ++ '=' :: field first.2 := by
            simp [write, Text.join, entry]
          rw [hline, parse, scan_between_key hfirst, scan_field]
          rfl
      | cons second rest =>
          have hline : write (first :: second :: rest) =
              first.1.toList ++ '=' :: (field first.2 ++ ' ' :: write (second :: rest)) := by
            simp [write, Text.join, entry]
          rw [hline, parse, scan_between_key hfirst, scan_field_blank]
          have hread := ih hrest
          rw [parse] at hread
          rw [hread]
          rfl

end EasyWaf.Logging
