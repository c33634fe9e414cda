import Mathlib

/-!
# Lists cut at a separator

A list trimmed of what is blank at its ends, and the trimmed parts of a list
between one separator and the next.
-/

namespace EasyWaf.Core

variable {α : Type*} {blank : α → Bool} {list space : List α}

/-- A list without the blank elements it begins and ends with. -/
def trim (blank : α → Bool) (list : List α) : List α := (list.dropWhile blank).rdropWhile blank

section Trimming

theorem trim_append_left (hspace : ∀ a ∈ space, blank a) :
    trim blank (space ++ list) = trim blank list := by
  rw [trim, List.dropWhile_append_of_pos hspace, trim]

theorem trim_eq_nil (hspace : ∀ a ∈ space, blank a) : trim blank space = [] := by
  rw [trim, List.dropWhile_eq_nil_iff.mpr hspace, List.rdropWhile_nil]

theorem trim_append_right (hspace : ∀ a ∈ space, blank a) :
    trim blank (list ++ space) = trim blank list := by
  by_cases hnil : list.dropWhile blank = []
  · have hlist : ∀ a ∈ list, blank a := List.dropWhile_eq_nil_iff.mp hnil
    rw [trim_append_left hlist, trim_eq_nil hspace, trim_eq_nil hlist]
  · rw [trim, trim, List.rdropWhile, List.dropWhile_append, if_neg (by simpa using hnil),
      List.reverse_append, List.dropWhile_append_of_pos (by simpa using hspace), List.rdropWhile]

/-- A list is what is left of it after trimming, between blanks. -/
theorem exists_append_trim (blank : α → Bool) (list : List α) :
    ∃ before after : List α, list = before ++ trim blank list ++ after ∧
      (∀ a ∈ before, blank a) ∧ ∀ a ∈ after, blank a := by
  refine ⟨list.takeWhile blank, (list.dropWhile blank).rtakeWhile blank, ?_, ?_, ?_⟩
  · rw [trim, List.append_assoc, List.rdropWhile_append_rtakeWhile,
      List.takeWhile_append_dropWhile]
  · exact fun a ha => List.mem_takeWhile_imp ha
  · exact fun a ha => List.mem_rtakeWhile_imp ha

/-- A list that begins and ends with what is not blank. -/
theorem trim_eq_self (hhead : ∀ a, list.head? = some a → blank a = false)
    (hlast : ∀ a, list.getLast? = some a → blank a = false) : trim blank list = list := by
  have hdrop : list.dropWhile blank = list := by
    cases list with
    | nil => rfl
    | cons a rest => rw [List.dropWhile_cons_of_neg (by simpa using hhead a rfl)]
  rw [trim, hdrop, List.rdropWhile_eq_self_iff]
  intro hne
  simpa using hlast _ (List.getLast?_eq_some_getLast hne)

theorem head?_trim {a : α} (ha : (trim blank list).head? = some a) : blank a = false := by
  obtain ⟨after, hafter⟩ := List.rdropWhile_prefix blank (list.dropWhile blank)
  have hhead : (list.dropWhile blank).head? = some a := by
    rw [← hafter]
    obtain ⟨rest, hrest⟩ := List.head?_eq_some_iff.mp ha
    rw [← trim, hrest, List.cons_append, List.head?_cons]
  have hne : list.dropWhile blank ≠ [] := by
    intro hnil
    rw [hnil] at hhead
    contradiction
  have hnot := List.head_dropWhile_not blank hne
  rwa [(List.head_eq_iff_head?_eq_some hne).mpr hhead] at hnot

theorem getLast?_trim {a : α} (ha : (trim blank list).getLast? = some a) : blank a = false := by
  have hne : trim blank list ≠ [] := by
    intro hnil
    rw [hnil] at ha
    contradiction
  have hnot := List.rdropWhile_last_not blank (list.dropWhile blank) hne
  rw [List.getLast?_eq_some_getLast hne] at ha
  obtain rfl := Option.some.inj ha
  exact Bool.eq_false_iff.mpr hnot

theorem not_mem_of_blank {a : α} (ha : blank a = false)
    (hspace : ∀ b ∈ space, blank b) : a ∉ space := fun hmem => by
  rw [hspace a hmem] at ha
  contradiction

end Trimming

section Segments

variable [BEq α] [LawfulBEq α] {separator a : α}

theorem splitOn_cons_self (separator : α) (list : List α) :
    (separator :: list).splitOn separator = [] :: list.splitOn separator := by
  rw [List.splitOn_cons_eq_if_modifyHead, if_pos (beq_self_eq_true separator)]

theorem splitOn_cons_of_ne (ha : a ≠ separator) (list : List α) :
    (a :: list).splitOn separator = (list.splitOn separator).modifyHead (a :: ·) := by
  rw [List.splitOn_cons_eq_if_modifyHead, if_neg (by simpa using ha)]

/-- The elements of a list are those of its segments and the separators. -/
theorem mem_splitOn_iff :
    (∃ segment ∈ list.splitOn separator, a ∈ segment) ↔ a ∈ list ∧ a ≠ separator := by
  induction list with
  | nil => simp
  | cons b rest ih =>
      by_cases hb : b = separator
      · subst hb
        rw [splitOn_cons_self]
        grind
      · rw [splitOn_cons_of_ne hb]
        obtain ⟨head, tail, hsplit⟩ := List.exists_cons_of_ne_nil (List.splitOn_ne_nil separator rest)
        rw [hsplit, List.exists_mem_cons_iff] at ih
        rw [hsplit, List.modifyHead_cons, List.exists_mem_cons_iff, List.mem_cons, or_assoc, ih]
        grind

theorem mem_of_mem_splitOn {segment : List α} (hsegment : segment ∈ list.splitOn separator)
    (ha : a ∈ segment) : a ∈ list ∧ a ≠ separator := mem_splitOn_iff.mp ⟨segment, hsegment, ha⟩

theorem mem_splitOn_of_mem (ha : a ∈ list) (hne : a ≠ separator) :
    ∃ segment ∈ list.splitOn separator, a ∈ segment := mem_splitOn_iff.mpr ⟨ha, hne⟩

end Segments

section Pieces

variable [BEq α]

/-- The parts of a list between one separator and the next, trimmed. -/
def pieces (separator : α) (blank : α → Bool) (list : List α) : List (List α) :=
  (list.splitOn separator).map (trim blank)

variable [LawfulBEq α] {separator : α}

theorem pieces_append_cons (before after : List α) :
    pieces separator blank (before ++ separator :: after) =
      pieces separator blank before ++ pieces separator blank after := by
  rw [pieces, List.splitOn_append_cons_self, List.map_append, pieces, pieces]

theorem mem_of_mem_pieces {piece : List α} {a : α} (hpiece : piece ∈ pieces separator blank list)
    (ha : a ∈ piece) : a ∈ list ∧ a ≠ separator := by
  obtain ⟨segment, hsegment, rfl⟩ := List.mem_map.mp hpiece
  obtain ⟨before, after, htrim, -, -⟩ := exists_append_trim blank segment
  refine mem_of_mem_splitOn hsegment ?_
  rw [htrim]
  exact List.mem_append_left _ (List.mem_append_right _ ha)

theorem pieces_of_not_mem (hlist : separator ∉ list) :
    pieces separator blank list = [trim blank list] := by
  rw [pieces, List.splitOn_eq_singleton hlist, List.map_singleton]

theorem pieces_append_left (hseparator : blank separator = false)
    (hspace : ∀ a ∈ space, blank a) :
    pieces separator blank (space ++ list) = pieces separator blank list := by
  have hnot := not_mem_of_blank hseparator hspace
  by_cases hmem : separator ∈ list
  · obtain ⟨before, after, rfl, hbefore⟩ := List.eq_append_cons_of_mem hmem
    rw [← List.append_assoc, pieces_append_cons, pieces_append_cons, pieces_of_not_mem hbefore,
      pieces_of_not_mem (by simp [hnot, hbefore]), trim_append_left hspace]
  · rw [pieces_of_not_mem hmem, pieces_of_not_mem (by simp [hnot, hmem]),
      trim_append_left hspace]

theorem pieces_append_right (hseparator : blank separator = false)
    (hspace : ∀ a ∈ space, blank a) :
    pieces separator blank (list ++ space) = pieces separator blank list := by
  have hnot := not_mem_of_blank hseparator hspace
  by_cases hmem : separator ∈ list
  · obtain ⟨before, after, hlist, hafter⟩ :=
      List.eq_append_cons_of_mem (List.mem_reverse.mpr hmem)
    obtain rfl : list = after.reverse ++ separator :: before.reverse := by
      simpa using congrArg List.reverse hlist
    have hlast : separator ∉ before.reverse := by simpa using hafter
    have hlonger : separator ∉ before.reverse ++ space := by simp [hafter, hnot]
    rw [List.append_assoc, List.cons_append, pieces_append_cons, pieces_append_cons,
      pieces_of_not_mem hlast, pieces_of_not_mem hlonger, trim_append_right hspace]
  · rw [pieces_of_not_mem hmem, pieces_of_not_mem (by simp [hnot, hmem]),
      trim_append_right hspace]

/-- Trimming a list changes none of its pieces. -/
theorem pieces_trim (hseparator : blank separator = false) (list : List α) :
    pieces separator blank (trim blank list) = pieces separator blank list := by
  obtain ⟨before, after, hlist, hbefore, hafter⟩ := exists_append_trim blank list
  conv_rhs => rw [hlist]
  rw [pieces_append_right hseparator hafter, pieces_append_left hseparator hbefore]

omit [BEq α] [LawfulBEq α] in
theorem intercalate_append {between : List α} {before after : List (List α)}
    (hbefore : before ≠ []) (hafter : after ≠ []) :
    between.intercalate (before ++ after) =
      between.intercalate before ++ between ++ between.intercalate after := by
  induction before with
  | nil => exact absurd rfl hbefore
  | cons part rest ih =>
      cases rest with
      | nil =>
          rw [List.singleton_append, List.intercalate_cons_of_ne_nil hafter,
            List.intercalate_singleton]
      | cons next rest =>
          rw [List.cons_append, List.intercalate_cons_of_ne_nil (by simp), ih (by simp),
            List.intercalate_cons_cons]
          simp only [List.append_assoc]

omit [BEq α] [LawfulBEq α] in
theorem mem_intercalate {between : List α} {parts : List (List α)} {a : α}
    (ha : a ∈ between.intercalate parts) : a ∈ between ∨ ∃ part ∈ parts, a ∈ part := by
  induction parts with
  | nil => contradiction
  | cons part rest ih =>
      cases rest with
      | nil => exact Or.inr ⟨part, List.mem_singleton_self part, by simpa using ha⟩
      | cons next rest =>
          rw [List.intercalate_cons_cons, List.append_assoc, List.mem_append, List.mem_append] at ha
          rcases ha with ha | ha | ha
          · exact Or.inr ⟨part, List.mem_cons_self, ha⟩
          · exact Or.inl ha
          · refine (ih ha).imp_right fun ⟨other, hother, ha⟩ => ?_
            exact ⟨other, List.mem_cons_of_mem _ hother, ha⟩

/-- Pieces joined by a separator and blanks are the pieces. -/
theorem pieces_intercalate (hseparator : blank separator = false)
    (hspace : ∀ a ∈ space, blank a) {parts : List (List α)} (hparts : parts ≠ [])
    (htrimmed : ∀ part ∈ parts, separator ∉ part ∧ trim blank part = part) :
    pieces separator blank ((separator :: space).intercalate parts) = parts := by
  induction parts with
  | nil => exact absurd rfl hparts
  | cons part rest ih =>
      obtain ⟨⟨hnot, htrim⟩, hrest⟩ := List.forall_mem_cons.mp htrimmed
      cases rest with
      | nil => rw [List.intercalate_singleton, pieces_of_not_mem hnot, htrim]
      | cons next rest =>
          rw [List.intercalate_cons_cons, List.append_assoc, List.cons_append,
            pieces_append_cons, pieces_of_not_mem hnot, htrim,
            pieces_append_left hseparator hspace, ih (by simp) hrest, List.singleton_append]

end Pieces

end EasyWaf.Core

/-!
## Parts framed by their lengths

Each part stands behind its length, written in a fixed number of symbols, so that
as many parts are read from a text in one way only.
-/

namespace EasyWaf.Core

variable {α : Type*}

/-- Each part behind its length. -/
def frame (written : ℕ → List α) (parts : List (List α)) : List α :=
  parts.flatMap fun part => written part.length ++ part

variable {written : ℕ → List α} {width bound : ℕ}

/-- As many parts, none too long for its length to be told, make the same text only
where they are the same. -/
theorem frame_inj (hwidth : ∀ n, (written n).length = width)
    (hwritten : ∀ m < bound, ∀ n < bound, written m = written n → m = n)
    {left right : List (List α)} (hcount : left.length = right.length)
    (hleft : ∀ part ∈ left, part.length < bound) (hright : ∀ part ∈ right, part.length < bound)
    (heq : frame written left = frame written right) : left = right := by
  induction left generalizing right with
  | nil => exact (List.length_eq_zero_iff.mp hcount.symm).symm
  | cons part left ih =>
      cases right with
      | nil => contradiction
      | cons other right =>
          obtain ⟨hpart, hleft⟩ := List.forall_mem_cons.mp hleft
          obtain ⟨hother, hright⟩ := List.forall_mem_cons.mp hright
          rw [frame, frame, List.flatMap_cons, List.flatMap_cons, List.append_assoc,
            List.append_assoc] at heq
          obtain ⟨hlengths, hrest⟩ :=
            List.append_inj heq ((hwidth part.length).trans (hwidth other.length).symm)
          have hlength := hwritten part.length hpart other.length hother hlengths
          obtain ⟨hsame, hframes⟩ := List.append_inj hrest hlength
          rw [hsame, ih (Nat.succ.inj hcount) hleft hright hframes]

/-- `u64::to_be_bytes`. -/
def bytes64 (n : ℕ) : List UInt8 :=
  (List.range 8).map fun i => UInt8.ofNat (n / 256 ^ (7 - i))

theorem length_bytes64 (n : ℕ) : (bytes64 n).length = 8 := by
  rw [bytes64, List.length_map, List.length_range]

theorem bytes64_inj {m n : ℕ} (hm : m < 2 ^ 64) (hn : n < 2 ^ 64) (heq : bytes64 m = bytes64 n) :
    m = n := by
  have hbyte (i : ℕ) (hi : i < 8) : m / 256 ^ (7 - i) % 256 = n / 256 ^ (7 - i) % 256 := by
    have hget := congrArg (fun bytes => bytes[i]?.map UInt8.toNat) heq
    simpa [bytes64, hi, UInt8.toNat_ofNat'] using hget
  have h0 := hbyte 0 (by decide)
  have h1 := hbyte 1 (by decide)
  have h2 := hbyte 2 (by decide)
  have h3 := hbyte 3 (by decide)
  have h4 := hbyte 4 (by decide)
  have h5 := hbyte 5 (by decide)
  have h6 := hbyte 6 (by decide)
  have h7 := hbyte 7 (by decide)
  norm_num at h0 h1 h2 h3 h4 h5 h6 h7
  omega

end EasyWaf.Core
