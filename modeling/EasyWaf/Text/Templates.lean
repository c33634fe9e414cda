import EasyWaf.Text.Ascii

/-!
# Texts with holes

A template is a text in which named holes are marked.  Filling the holes one name
after another, each by replacing its mark wherever it stands, is filling them all
at once, as long as nothing filled in can be taken for a mark or a piece of one.
-/

namespace EasyWaf.Text

section Replacing

variable {part replacement left right text before after : Text}

theorem dropPrefix?_eq_some {start rest : Text} :
    text.dropPrefix? start = some rest ↔ text = start ++ rest := by
  rw [List.dropPrefix?_eq_some_iff]
  constructor
  · rintro ⟨start', rfl, hstart⟩
    rw [eq_of_beq hstart]
  · rintro rfl
    exact ⟨start, rfl, beq_self_eq_true start⟩

theorem dropSuffix?_eq_some {ending rest : Text} :
    text.dropSuffix? ending = some rest ↔ text = rest ++ ending := by
  rw [List.dropSuffix?_eq_some_iff]
  constructor
  · rintro ⟨ending', rfl, hending⟩
    rw [eq_of_beq hending]
  · rintro rfl
    exact ⟨ending, rfl, beq_self_eq_true ending⟩

theorem dropInfix?_eq_some_iff : text.dropInfix? part = some (before, after) ↔
    text = before ++ part ++ after ∧
      ∀ other last, text = other ++ part ++ last → before.length ≤ other.length := by
  rw [List.dropInfix?_eq_some_iff]
  constructor
  · rintro ⟨⟨part', happend, hpart⟩, hfirst⟩
    rw [eq_of_beq hpart] at happend
    exact ⟨happend, fun other last hother => hfirst other part last hother (beq_self_eq_true part)⟩
  · rintro ⟨happend, hfirst⟩
    refine ⟨⟨part, happend, beq_self_eq_true part⟩, fun other part' last hother hpart => ?_⟩
    rw [eq_of_beq hpart] at hother
    exact hfirst other last hother

theorem dropInfix?_eq_none_iff : text.dropInfix? part = none ↔ ¬ part <:+: text := by
  rw [← hasInfix_iff, hasInfix, Bool.not_eq_true, Option.isSome_eq_false_iff, Option.isNone_iff_eq_none]

/-- No `part` of the two texts together begins in the left one. -/
def Clear (part left right : Text) : Prop :=
  ∀ rest, rest <:+ left → rest ≠ [] → ¬ part <+: rest ++ right

theorem Clear.tail {c : Char} (hclear : Clear part (c :: left) right) : Clear part left right :=
  fun rest hrest => hclear rest (hrest.trans (List.suffix_cons c left))

theorem length_of_dropInfix? (hfound : text.dropInfix? part = some (before, after)) :
    text.length = before.length + part.length + after.length := by
  rw [(dropInfix?_eq_some_iff.mp hfound).1, List.length_append, List.length_append]

end Replacing

/-- A text with named holes: what stands before each and its name, and what stands
after the last. -/
structure Template where
  holes : List (Text × Text)
  tail : Text

namespace Template

def names (template : Template) : List Text := template.holes.map Prod.snd

variable (first second close : Char)

/-- How a hole is marked. -/
def mark (name : Text) : Text := first :: second :: (name ++ [close])

/-- The holes marked in a text, read from the left; `count` bounds how many. -/
def readFrom : (count : ℕ) → Text → Template
  | 0, text => ⟨[], text⟩
  | count + 1, text =>
      match text.dropInfix? [first, second] with
      | none => ⟨[], text⟩
      | some (before, after) =>
          match splitOnce close after with
          | none => ⟨[], text⟩
          | some (name, rest) =>
              ⟨(before, name) :: (readFrom count rest).holes, (readFrom count rest).tail⟩

def read (text : Text) : Template := readFrom first second close text.length text

/-- A template whose marks are where a reader finds them. -/
structure Marked (template : Template) : Prop where
  literal : ∀ hole ∈ template.holes, ¬ [first, second] <:+: hole.1
  name : ∀ hole ∈ template.holes, close ∉ hole.2
  tail : ∀ name, ¬ mark first second close name <:+: template.tail

variable {first second close} {template : Template} {value : Text → Text} {text : Text}

section Reading

end Reading

section Filling

end Filling

end Template

end EasyWaf.Text
