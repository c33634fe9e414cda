import EasyWaf.Core.Pieces

/-!
# Text

A text is its list of characters.  The operations are those of the standard
string type: splitting, trimming, ASCII case and decimal numbers.
-/

namespace EasyWaf

abbrev Text := List Char

instance : LawfulBEq Text := inferInstance

namespace Text

/-- The Unicode property `White_Space`. -/
def isWhitespace (c : Char) : Bool :=
  let n := c.toNat
  (0x9 ≤ n && n ≤ 0xd) || n == 0x20 || n == 0x85 || n == 0xa0 || n == 0x1680 ||
    (0x2000 ≤ n && n ≤ 0x200a) || n == 0x2028 || n == 0x2029 || n == 0x202f ||
    n == 0x205f || n == 0x3000

/-- The general category `Cc`. -/
def isControl (c : Char) : Bool :=
  let n := c.toNat
  n < 0x20 || (0x7f ≤ n && n ≤ 0x9f)

def trimStartMatches (matching : Char → Bool) (text : Text) : Text := text.dropWhile matching

def trimEndMatches (matching : Char → Bool) (text : Text) : Text := text.rdropWhile matching

def trim (text : Text) : Text := trimEndMatches isWhitespace (trimStartMatches isWhitespace text)

/-- The two sides of the first `c`. -/
def splitOnce (c : Char) (text : Text) : Option (Text × Text) :=
  match text.dropWhile (· != c) with
  | [] => none
  | _ :: after => some (text.takeWhile (· != c), after)

/-- The two sides of the last `c`. -/
def rsplitOnce (c : Char) (text : Text) : Option (Text × Text) :=
  (splitOnce c text.reverse).map fun (after, before) => (before.reverse, after.reverse)

/-- The runs of characters between whitespace. -/
def splitWhitespace (text : Text) : List Text :=
  (text.splitOnP isWhitespace).filter (· != [])

def join (separator : Text) (parts : List Text) : Text := separator.intercalate parts

/-- Whether `part` stands anywhere in `text`. -/
def hasInfix (part text : Text) : Bool := (text.dropInfix? part).isSome

/-- The first `count` occurrences of `part`, from the left and not overlapping,
replaced. -/
def replaceFirst (part replacement : Text) : ℕ → Text → Text
  | 0, text => text
  | count + 1, text =>
      match text.dropInfix? part with
      | none => text
      | some (before, after) => before ++ replacement ++ replaceFirst part replacement count after

/-- Every occurrence of a `part` that is not empty, replaced. -/
def replace (part replacement text : Text) : Text :=
  replaceFirst part replacement text.length text

def toAsciiLowercase (text : Text) : Text := text.map Char.toLower

def toAsciiUppercase (text : Text) : Text := text.map Char.toUpper

def eqIgnoreAsciiCase (left right : Text) : Bool :=
  toAsciiLowercase left == toAsciiLowercase right

section Splitting

/-- Two literals are told apart as strings, which are compared byte by byte. -/
theorem toList_ne {left right : String} (hne : left ≠ right) : left.toList ≠ right.toList :=
  fun heq => hne (String.toList_inj.mp heq)

theorem splitOnce_eq_none_iff {c : Char} {text : Text} : splitOnce c text = none ↔ c ∉ text := by
  unfold splitOnce
  split
  · next hnil =>
      simp only [true_iff]
      intro hmem
      simpa using List.dropWhile_eq_nil_iff.mp hnil c hmem
  · next d after hcons =>
      simp only [reduceCtorEq, false_iff, not_not]
      have hd : (d != c) = false := by
        have hhead := List.head_dropWhile_not (· != c) (l := text) (by simp [hcons])
        simpa [hcons] using hhead
      have hdc : d = c := by simpa using hd
      exact hdc ▸ List.dropWhile_subset (· != c) (hcons ▸ List.mem_cons_self)

theorem splitOnce_eq_some {c : Char} {text before after : Text}
    (hsplit : splitOnce c text = some (before, after)) :
    text = before ++ c :: after ∧ c ∉ before := by
  unfold splitOnce at hsplit
  split at hsplit
  · simp at hsplit
  · next d rest hcons =>
      have hdc : d = c := by
        have hhead := List.head_dropWhile_not (· != c) (l := text) (by simp [hcons])
        simpa [hcons] using hhead
      obtain ⟨rfl, rfl⟩ := Prod.mk.inj (Option.some.inj hsplit)
      refine ⟨?_, ?_⟩
      · subst hdc
        rw [← hcons, List.takeWhile_append_dropWhile]
      · intro hmem
        simpa using List.mem_takeWhile_imp hmem

theorem splitOnce_append {c : Char} {before after : Text} (hbefore : c ∉ before) :
    splitOnce c (before ++ c :: after) = some (before, after) := by
  have hall : ∀ d ∈ before, (d != c) = true := by
    intro d hd
    simp only [bne_iff_ne, ne_eq]
    rintro rfl
    exact hbefore hd
  unfold splitOnce
  rw [List.dropWhile_append_of_pos hall, List.takeWhile_append_of_pos hall]
  simp

theorem rsplitOnce_append {c : Char} {before after : Text} (hafter : c ∉ after) :
    rsplitOnce c (before ++ c :: after) = some (before, after) := by
  have hreverse : (before ++ c :: after).reverse = after.reverse ++ c :: before.reverse := by simp
  have hsplit : splitOnce c (after.reverse ++ c :: before.reverse) =
      some (after.reverse, before.reverse) := splitOnce_append (by simpa using hafter)
  simp [rsplitOnce, hreverse, hsplit]

theorem rsplitOnce_eq_some {c : Char} {text before after : Text}
    (hsplit : rsplitOnce c text = some (before, after)) :
    text = before ++ c :: after ∧ c ∉ after := by
  simp only [rsplitOnce, Option.map_eq_some_iff, Prod.mk.injEq, Prod.exists] at hsplit
  obtain ⟨left, right, hsplit, rfl, rfl⟩ := hsplit
  obtain ⟨htext, hleft⟩ := splitOnce_eq_some hsplit
  refine ⟨?_, by simpa using hleft⟩
  have hreverse := congrArg List.reverse htext
  simpa using hreverse

end Splitting

section Pieces

/-- The parts of a text between one character and the next, trimmed. -/
def pieces (c : Char) (text : Text) : List Text := (text.splitOn c).map trim

variable {c : Char} {text space : Text}

theorem trim_eq : trim = Core.trim isWhitespace := rfl

theorem trim_trim (text : Text) : text.trim.trim = text.trim :=
  Core.trim_eq_self (fun _ hc => Core.head?_trim hc) fun _ hc => Core.getLast?_trim hc

theorem mem_of_mem_trim (hc : c ∈ text.trim) : c ∈ text := by
  obtain ⟨before, after, htext, -, -⟩ := Core.exists_append_trim isWhitespace text
  rw [htext]
  exact List.mem_append_left _ (List.mem_append_right _ hc)

theorem pieces_eq (c : Char) : pieces c = Core.pieces c isWhitespace := rfl

theorem pieces_append_cons (before after : Text) :
    pieces c (before ++ c :: after) = pieces c before ++ pieces c after :=
  Core.pieces_append_cons before after

theorem pieces_append_left (hc : isWhitespace c = false)
    (hspace : ∀ d ∈ space, isWhitespace d) : pieces c (space ++ text) = pieces c text :=
  Core.pieces_append_left hc hspace

/-- Trimming a text changes none of its pieces. -/
theorem pieces_trim (hc : isWhitespace c = false) (text : Text) :
    pieces c (trim text) = pieces c text :=
  Core.pieces_trim hc text

end Pieces

end Text

end EasyWaf
