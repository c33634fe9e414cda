import EasyWaf.Modules.Transforms
import EasyWaf.Text.Templates

/-!
# The lists in a pattern

A pattern is a template whose holes are the lists it names.  The lists are put in
one name after another, into a text that holds lists already; no list can be taken
for a name or for a piece of one, nor opens or closes what the pattern around it
did not.
-/

namespace EasyWaf.Modules.Values

open Text Template

/-- The pattern as a template: the lists it names, and what stands around them. -/
def template (pattern : Text) : Template := Template.read '%' '\x7b' '\x7d' pattern

section Names

end Names

section Alternations

/-- Texts without a mark's opening that do not begin with its second half. -/
def Mild (text : Text) : Prop := ¬ ['%', '\x7b'] <:+: text ∧ text.head? ≠ some '\x7b'

theorem Mild.append {left right : Text} (hleft : Mild left) (hright : Mild right) :
    Mild (left ++ right) := by
  constructor
  · intro hinfix
    rcases List.infix_append_iff_ne_nil.mp hinfix with h | h | h
    · exact hleft.1 h
    · exact hright.1 h
    · obtain ⟨front, back, hfront, hback, heq, -, hbegins⟩ := h
      obtain ⟨d, front, rfl⟩ := List.exists_cons_of_ne_nil hfront
      obtain ⟨-, hrest⟩ := List.cons.inj heq
      cases front with
      | nil =>
          obtain rfl : back = ['\x7b'] := hrest.symm
          obtain ⟨rest, rfl⟩ := hbegins
          exact hright.2 rfl
      | cons e front =>
          obtain ⟨-, hrest⟩ := List.cons.inj hrest
          exact hback (List.append_eq_nil_iff.mp hrest.symm).2
  · cases left with
    | nil => exact hright.2
    | cons c left => exact hleft.2

end Alternations

section Reading

/-- What a bracket of a pattern opens. -/
inductive Bracket
  | group
  | set
  deriving DecidableEq

/-- How the next character of a pattern is read: after a backslash or not, and
within which brackets. -/
structure Reading where
  escaped : Bool
  opened : List Bracket
  deriving DecidableEq

def Reading.next (reading : Reading) (c : Char) : Reading :=
  if reading.escaped then { reading with escaped := false }
  else if c = '\\' then { reading with escaped := true }
  else
    match reading.opened with
    | .set :: outer =>
        if c = ']' then { reading with opened := outer }
        else if c = '[' then { reading with opened := .set :: reading.opened }
        else reading
    | _ =>
        if c = '(' then { reading with opened := .group :: reading.opened }
        else if c = '[' then { reading with opened := .set :: reading.opened }
        else if c = ')' then { reading with opened := reading.opened.tail }
        else reading

def Reading.after (reading : Reading) (text : Text) : Reading := text.foldl Reading.next reading

/-- Where a pattern stands after it read nothing but whole brackets. -/
def Closed (opened : List Bracket) (text : Text) : Prop :=
  Reading.after ⟨false, opened⟩ text = ⟨false, opened⟩

variable {opened : List Bracket} {left right : Text}

theorem Closed.append (hleft : Closed opened left) (hright : Closed opened right) :
    Closed opened (left ++ right) := by
  rw [Closed, Reading.after, List.foldl_append]
  rw [Closed, Reading.after] at hleft
  rw [hleft]
  exact hright

end Reading

section Substituting

variable {pattern : Text} {values : Lists}

end Substituting

end EasyWaf.Modules.Values
