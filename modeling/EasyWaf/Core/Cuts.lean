import Mathlib

/-!
# A text cut at its marks

A mark is an occurrence of a separator that stands where a rule says, from what is
before it and what is behind it.  Cutting at every occurrence cuts the pieces
between the marks further, each on its own.
-/

namespace EasyWaf.Core.Cuts

variable {α : Type*} [DecidableEq α]

section Cut

variable (sep : List α) (stands : Option α → List α → Bool)

/-- The pieces between the marks, with so much of a mark still to pass. -/
def cutFrom : ℕ → Option α → List α → List (List α)
  | _, _, [] => [[]]
  | skip + 1, _, a :: rest => cutFrom skip (some a) rest
  | 0, last, a :: rest =>
      if sep.isPrefixOf (a :: rest) && stands last ((a :: rest).drop sep.length) then
        [] :: cutFrom (sep.length - 1) (some a) rest
      else (cutFrom 0 (some a) rest).modifyHead (a :: ·)

def cut (last : Option α) (text : List α) : List (List α) := cutFrom sep stands 0 last text

variable {sep stands} {last : Option α} {text : List α}

theorem cut_nil : cut sep stands last [] = [[]] := by rw [cut, cutFrom]

theorem cutFrom_length_append (passed text : List α) :
    cutFrom sep stands passed.length last (passed ++ text) =
      cut sep stands (passed.getLast?.or last) text := by
  induction passed generalizing last with
  | nil => rw [List.length_nil, List.nil_append, List.getLast?_nil, Option.none_or, cut]
  | cons a passed ih =>
      rw [List.length_cons, List.cons_append, cutFrom, ih, List.getLast?_cons]
      cases passed.getLast? <;> rfl

/-- At a mark a piece ends. -/
theorem cut_sep (hsep : sep ≠ []) (hstands : stands last text = true) :
    cut sep stands last (sep ++ text) = [] :: cut sep stands (sep.getLast?) text := by
  obtain ⟨a, rest, rfl⟩ := List.exists_cons_of_ne_nil hsep
  have hmark : ((a :: rest).isPrefixOf (a :: (rest ++ text)) &&
      stands last ((a :: (rest ++ text)).drop (a :: rest).length)) = true := by
    rw [Bool.and_eq_true, List.isPrefixOf_iff_prefix, ← List.cons_append, List.drop_left]
    exact ⟨List.prefix_append _ _, hstands⟩
  rw [cut, List.cons_append, cutFrom, if_pos hmark, List.length_cons, Nat.add_sub_cancel,
    cutFrom_length_append, List.getLast?_cons]
  cases rest.getLast? <;> rfl

/-- Elsewhere it goes on. -/
theorem cut_cons {a : α} (hmark : ∀ after, a :: text = sep ++ after → stands last after = false) :
    cut sep stands last (a :: text) = (cut sep stands (some a) text).modifyHead (a :: ·) := by
  rw [cut, cutFrom, if_neg, cut]
  rw [Bool.and_eq_true, not_and, List.isPrefixOf_iff_prefix]
  rintro ⟨after, hafter⟩
  rw [← hafter, List.drop_left, hmark after hafter.symm]
  exact Bool.false_ne_true

variable (stands) in
omit [DecidableEq α] in
/-- A text by its marks and what is between them. -/
theorem cut_induct {motive : Option α → List α → Prop} (hsep : sep ≠ [])
    (nil : ∀ last, motive last [])
    (mark : ∀ last after, stands last after = true → motive sep.getLast? after →
      motive last (sep ++ after))
    (other : ∀ last a rest, (∀ after, a :: rest = sep ++ after → stands last after = false) →
      motive (some a) rest → motive last (a :: rest)) :
    ∀ last text, motive last text := by
  intro last text
  induction hlength : text.length using Nat.strong_induction_on generalizing last text with
  | _ length ih =>
      cases text with
      | nil => exact nil last
      | cons a rest =>
          by_cases hmark : ∃ after, a :: rest = sep ++ after ∧ stands last after = true
          · obtain ⟨after, htext, hstands⟩ := hmark
            have hpos := List.length_pos_iff.mpr hsep
            have hlt : after.length < length := by
              rw [← hlength, htext, List.length_append]
              omega
            rw [htext]
            exact mark last after hstands (ih _ hlt _ _ rfl)
          · have hlt : rest.length < length := by
              rw [← hlength, List.length_cons]
              exact Nat.lt_succ_self _
            apply other last a rest _ (ih _ hlt _ _ rfl)
            intro after hafter
            exact Bool.eq_false_iff.mpr fun hstands => hmark ⟨after, hafter, hstands⟩

variable (stands) in
theorem cut_ne_nil (hsep : sep ≠ []) (last : Option α) (text : List α) :
    cut sep stands last text ≠ [] := by
  induction last, text using cut_induct stands hsep with
  | nil last =>
      rw [cut_nil]
      exact List.cons_ne_nil _ _
  | mark last after hstands _ =>
      rw [cut_sep hsep hstands]
      exact List.cons_ne_nil _ _
  | other last a rest hmark ih =>
      rw [cut_cons hmark, Ne, List.modifyHead_eq_nil_iff]
      exact ih

variable (stands) in
/-- The pieces, with the marks between them, are the text. -/
theorem intercalate_cut (hsep : sep ≠ []) (last : Option α) (text : List α) :
    sep.intercalate (cut sep stands last text) = text := by
  induction last, text using cut_induct stands hsep with
  | nil last => rw [cut_nil, List.intercalate_singleton]
  | mark last after hstands ih =>
      rw [cut_sep hsep hstands, List.intercalate_cons_of_ne_nil (cut_ne_nil stands hsep _ _), ih,
        List.nil_append]
  | other last a rest hmark ih =>
      obtain ⟨first, others, hcut⟩ := List.exists_cons_of_ne_nil
        (cut_ne_nil stands hsep (some a) rest)
      rw [cut_cons hmark]
      rw [hcut] at ih ⊢
      rw [List.modifyHead_cons, List.intercalate_cons_cons_left, ih]

/-- The first piece is what the text begins with. -/
theorem head_prefix_of_cut (hsep : sep ≠ []) {first : List α} {others : List (List α)}
    (hcut : cut sep stands last text = first :: others) : first <+: text := by
  rw [← intercalate_cut stands hsep last text, hcut]
  cases others with
  | nil => rw [List.intercalate_singleton]
  | cons second others =>
      rw [List.intercalate_cons_cons, List.append_assoc]
      exact List.prefix_append _ _

/-- Nothing within a separator is a mark where no mark stands behind a part of one. -/
theorem cut_append_of_mem (hinner : ∀ a ∈ sep, ∀ after, stands (some a) after = false)
    {passed : List α} (hpassed : ∀ a ∈ passed, a ∈ sep) {a : α} (ha : a ∈ sep) :
    cut sep stands (some a) (passed ++ text) =
      (cut sep stands (passed.getLast?.or (some a)) text).modifyHead (passed ++ ·) := by
  induction passed generalizing a with
  | nil =>
      rw [List.nil_append, List.getLast?_nil, Option.none_or]
      cases cut sep stands (some a) text <;> rfl
  | cons b passed ih =>
      rw [List.cons_append, cut_cons fun after _ => hinner a ha after,
        ih (fun c hc => hpassed c (List.mem_cons_of_mem _ hc)) (hpassed b List.mem_cons_self),
        List.modifyHead_modifyHead, List.getLast?_cons]
      cases passed.getLast? <;> rfl

/-- An occurrence that is no mark belongs to its piece. -/
theorem cut_append_of_not (hsep : sep ≠ [])
    (hinner : ∀ a ∈ sep, ∀ after, stands (some a) after = false) (hnot : stands last text = false) :
    cut sep stands last (sep ++ text) =
      (cut sep stands sep.getLast? text).modifyHead (sep ++ ·) := by
  obtain ⟨a, rest, rfl⟩ := List.exists_cons_of_ne_nil hsep
  have hmark : ∀ after, a :: (rest ++ text) = a :: rest ++ after → stands last after = false := by
    intro after hafter
    rw [← List.cons_append] at hafter
    rw [← List.append_cancel_left hafter, hnot]
  rw [List.cons_append, cut_cons hmark,
    cut_append_of_mem hinner (fun b hb => List.mem_cons_of_mem _ hb) List.mem_cons_self,
    List.modifyHead_modifyHead, List.getLast?_cons]
  cases rest.getLast? <;> rfl

end Cut

section Everywhere

variable {sep : List α} {stands : Option α → List α → Bool}

/-- Cut at every occurrence of the separator. -/
def cutAll (sep text : List α) : List (List α) := cut sep (fun _ _ => true) none text

theorem cutFrom_last (skip : ℕ) (last other : Option α) (text : List α) :
    cutFrom sep (fun _ _ => true) skip last text = cutFrom sep (fun _ _ => true) skip other text := by
  cases text with
  | nil => cases skip <;> rw [cutFrom, cutFrom]
  | cons a rest => cases skip <;> rw [cutFrom, cutFrom]

theorem cutAll_nil : cutAll sep [] = [[]] := cut_nil

theorem cutAll_sep (hsep : sep ≠ []) (text : List α) :
    cutAll sep (sep ++ text) = [] :: cutAll sep text := by
  rw [cutAll, cut_sep hsep rfl, cut, cutFrom_last 0 _ none]
  rfl

theorem cutAll_cons {a : α} {text : List α} (hsep : ¬ sep <+: a :: text) :
    cutAll sep (a :: text) = (cutAll sep text).modifyHead (a :: ·) := by
  rw [cutAll, cut_cons fun after hafter => absurd ⟨after, hafter.symm⟩ hsep, cut,
    cutFrom_last 0 _ none]
  rfl

theorem cutAll_ne_nil (hsep : sep ≠ []) (text : List α) : cutAll sep text ≠ [] :=
  cut_ne_nil _ hsep none text

/-- Cutting at every occurrence cuts each piece between the marks on its own, as no
part of a separator has a mark behind it. -/
theorem cutAll_eq_flatMap (hsep : sep ≠ [])
    (hinner : ∀ a ∈ sep, ∀ after, stands (some a) after = false) (last : Option α) (text : List α) :
    cutAll sep text = (cut sep stands last text).flatMap (cutAll sep) := by
  induction last, text using @cut_induct α sep (fun _ _ => true) _ hsep with
  | nil last => rw [cut_nil, List.flatMap_singleton, cutAll_nil]
  | mark last after _ ih =>
      rw [cutAll_sep hsep]
      by_cases hstands : stands last after = true
      · rw [cut_sep hsep hstands, List.flatMap_cons, cutAll_nil, ih]
        rfl
      · rw [cut_append_of_not hsep hinner (Bool.eq_false_iff.mpr hstands), ih]
        obtain ⟨first, others, hcut⟩ := List.exists_cons_of_ne_nil
          (cut_ne_nil stands hsep sep.getLast? after)
        rw [hcut, List.modifyHead_cons, List.flatMap_cons, List.flatMap_cons, cutAll_sep hsep]
        rfl
  | other last a rest hother ih =>
      have hno : ¬ sep <+: a :: rest := by
        rintro ⟨after, hafter⟩
        exact Bool.false_ne_true (hother after hafter.symm).symm
      rw [cutAll_cons hno, cut_cons fun after hafter => absurd ⟨after, hafter.symm⟩ hno, ih]
      obtain ⟨first, others, hcut⟩ := List.exists_cons_of_ne_nil
        (cut_ne_nil stands hsep (some a) rest)
      have hfirst : ¬ sep <+: a :: first := fun h =>
        hno (h.trans (List.cons_prefix_cons.mpr ⟨rfl, head_prefix_of_cut hsep hcut⟩))
      rw [hcut, List.modifyHead_cons, List.flatMap_cons, List.flatMap_cons, cutAll_cons hfirst]
      obtain ⟨piece, pieces, hpieces⟩ := List.exists_cons_of_ne_nil (cutAll_ne_nil hsep first)
      rw [hpieces]
      rfl

theorem cutAll_of_absent {text : List α} (hno : ¬ sep <:+: text) : cutAll sep text = [text] := by
  induction text with
  | nil => exact cutAll_nil
  | cons a rest ih =>
      rw [cutAll_cons fun h => hno h.isInfix, ih fun h => hno (h.trans (List.suffix_cons a rest).isInfix)]
      rfl

/-- Up to the first occurrence of the separator is the first piece. -/
theorem cutAll_of_first (hsep : sep ≠ []) {before after : List α}
    (hfirst : ∀ other last, before ++ sep ++ after = other ++ sep ++ last →
      before.length ≤ other.length) :
    cutAll sep (before ++ sep ++ after) = before :: cutAll sep after := by
  induction before with
  | nil => rw [List.nil_append, cutAll_sep hsep]
  | cons a before ih =>
      have hnot : ¬ sep <+: a :: (before ++ sep ++ after) := by
        rintro ⟨last, hlast⟩
        exact absurd (hfirst [] last hlast.symm) (by simp)
      have hrest : cutAll sep (before ++ sep ++ after) = before :: cutAll sep after := by
        apply ih
        intro other last hother
        exact Nat.le_of_succ_le_succ (hfirst (a :: other) last (congrArg (a :: ·) hother))
      rw [List.cons_append, List.cons_append, cutAll_cons hnot, hrest]
      rfl

/-- A text is its own piece, or what is before a separator is the first. -/
theorem cutAll_cases (hsep : sep ≠ []) (text : List α) :
    ¬ sep <:+: text ∧ cutAll sep text = [text] ∨
      ∃ before after, text = before ++ sep ++ after ∧ cutAll sep text = before :: cutAll sep after := by
  induction text with
  | nil =>
      left
      exact ⟨fun h => hsep (List.infix_nil.mp h), cutAll_nil⟩
  | cons a rest ih =>
      by_cases hleads : sep <+: a :: rest
      · obtain ⟨after, hafter⟩ := hleads
        right
        refine ⟨[], after, hafter.symm, ?_⟩
        rw [← hafter, cutAll_sep hsep]
      · rw [cutAll_cons hleads]
        rcases ih with ⟨hno, hcut⟩ | ⟨before, after, hrest, hcut⟩
        · left
          rw [hcut, List.infix_cons_iff, not_or]
          exact ⟨⟨hleads, hno⟩, rfl⟩
        · right
          refine ⟨a :: before, after, congrArg (a :: ·) hrest, ?_⟩
          rw [hcut]
          rfl

end Everywhere

section Placed

variable {β : Type*}

/-- Pieces with where each begins, separators of a width between them. -/
def placed (width : ℕ) : ℕ → List (List β) → List (ℕ × List β)
  | _, [] => []
  | start, piece :: rest => (start, piece) :: placed width (start + piece.length + width) rest

/-- How far pieces reach, a separator behind each. -/
def reach (width : ℕ) (pieces : List (List β)) : ℕ :=
  (pieces.map fun piece => piece.length + width).sum

/-- Entries by ascending places. -/
def Rising {γ : Type*} (entries : List (ℕ × γ)) : Prop :=
  entries.Pairwise fun first second => first.1 < second.1

variable {width : ℕ}

theorem reach_cons (piece : List β) (rest : List (List β)) :
    reach width (piece :: rest) = piece.length + width + reach width rest := by
  rw [reach, List.map_cons, List.sum_cons, reach]

theorem map_placed (width start : ℕ) (pieces : List (List β)) :
    (placed width start pieces).map (·.2) = pieces := by
  induction pieces generalizing start with
  | nil => rfl
  | cons piece rest ih => rw [placed, List.map_cons, ih]

theorem placed_append (start : ℕ) (first second : List (List β)) :
    placed width start (first ++ second) =
      placed width start first ++ placed width (start + reach width first) second := by
  induction first generalizing start with
  | nil => rfl
  | cons piece rest ih =>
      rw [List.cons_append, placed, ih, placed, List.cons_append, reach_cons]
      congr 3
      omega

theorem le_of_mem_placed {start : ℕ} {pieces : List (List β)} {entry : ℕ × List β}
    (hentry : entry ∈ placed width start pieces) : start ≤ entry.1 := by
  induction pieces generalizing start with
  | nil => exact absurd hentry List.not_mem_nil
  | cons piece rest ih =>
      rw [placed] at hentry
      rcases List.mem_cons.mp hentry with rfl | hentry
      · exact le_rfl
      · exact (by omega : start ≤ start + piece.length + width).trans (ih hentry)

theorem rising_placed (hwidth : 0 < width) (start : ℕ) (pieces : List (List β)) :
    Rising (placed width start pieces) := by
  induction pieces generalizing start with
  | nil => exact List.Pairwise.nil
  | cons piece rest ih =>
      rw [placed]
      apply List.pairwise_cons.mpr
      refine ⟨fun entry hentry => ?_, ih _⟩
      have hle := le_of_mem_placed hentry
      dsimp only
      omega

/-- Pieces cut further stand where the pieces they are cut from do. -/
theorem placed_flatMap (further : List β → List (List β)) (start : ℕ) (pieces : List (List β))
    (hreach : ∀ piece ∈ pieces, reach width (further piece) = piece.length + width) :
    placed width start (pieces.flatMap further) =
      (placed width start pieces).flatMap fun entry => placed width entry.1 (further entry.2) := by
  induction pieces generalizing start with
  | nil => rfl
  | cons piece rest ih =>
      rw [List.flatMap_cons, placed_append, placed, List.flatMap_cons,
        hreach piece List.mem_cons_self, ← Nat.add_assoc,
        ih _ fun piece hpiece => hreach piece (List.mem_cons_of_mem _ hpiece)]

theorem reach_intercalate (sep : List β) {pieces : List (List β)} (hpieces : pieces ≠ []) :
    reach sep.length pieces = (sep.intercalate pieces).length + sep.length := by
  induction pieces with
  | nil => exact absurd rfl hpieces
  | cons piece rest ih =>
      cases rest with
      | nil => rw [List.intercalate_singleton, reach, List.map_singleton, List.sum_singleton]
      | cons second rest =>
          rw [reach_cons, ih (List.cons_ne_nil _ _), List.intercalate_cons_cons, List.length_append, List.length_append]
          omega

section Rising

variable {γ : Type*} {before after : List (ℕ × γ)} {entry : ℕ × γ}

/-- What stands before an entry among rising ones. -/
theorem Rising.mem_before_iff (hrising : Rising (before ++ entry :: after)) {other : ℕ × γ}
    (hother : other ∈ before ++ entry :: after) : other.1 < entry.1 ↔ other ∈ before := by
  obtain ⟨-, hrest, hcross⟩ := List.pairwise_append.mp hrising
  constructor
  · intro hlt
    rcases List.mem_append.mp hother with hin | hin
    · exact hin
    · rcases List.mem_cons.mp hin with rfl | hin
      · exact absurd hlt (lt_irrefl _)
      · exact absurd hlt ((List.pairwise_cons.mp hrest).1 other hin).not_gt
  · intro hin
    exact hcross other hin entry List.mem_cons_self

theorem Rising.countP_lt (hrising : Rising (before ++ entry :: after)) :
    (before ++ entry :: after).countP (·.1 < entry.1) = before.length := by
  obtain ⟨-, hrest, hcross⟩ := List.pairwise_append.mp hrising
  rw [List.countP_append, List.countP_eq_length.mpr, List.countP_eq_zero.mpr, Nat.add_zero]
  · intro other hother
    rw [decide_eq_true_eq, not_lt]
    rcases List.mem_cons.mp hother with rfl | hother
    · exact le_rfl
    · exact ((List.pairwise_cons.mp hrest).1 other hother).le
  · intro other hother
    exact decide_eq_true (hcross other hother entry List.mem_cons_self)

/-- One entry stands at a place. -/
theorem Rising.eq_of_place {entries : List (ℕ × γ)} (hrising : Rising entries) {place : ℕ}
    {there found : γ} (hthere : (place, there) ∈ entries) (hfound : (place, found) ∈ entries) :
    found = there := by
  obtain ⟨first, last, rfl⟩ := List.append_of_mem hthere
  have hnot : (place, found) ∉ first := fun hin =>
    absurd ((hrising.mem_before_iff hfound).mpr hin) (lt_irrefl _)
  rcases List.mem_cons.mp ((List.mem_append.mp hfound).resolve_left hnot) with heq | hin
  · exact (Prod.mk.inj heq).2
  · have hrest := (List.pairwise_append.mp hrising).2.1
    exact absurd ((List.pairwise_cons.mp hrest).1 _ hin) (lt_irrefl _)

end Rising

/-- What is read of rising entries, as far as they pass and so many of them: an entry
is when it passes, all before it do and there is room. -/
theorem mem_take_takeWhile_iff {γ : Type*} {entries : List (ℕ × γ)} (hrising : Rising entries)
    {passes : ℕ × γ → Bool} {room place : ℕ} {there found : γ} (hthere : (place, there) ∈ entries) :
    (place, found) ∈ (entries.takeWhile passes).take room ↔
      found = there ∧ passes (place, there) = true ∧
        (∀ entry ∈ entries, entry.1 < place → passes entry = true) ∧
        entries.countP (·.1 < place) < room := by
  constructor
  · intro hfound
    obtain ⟨first, last, hread⟩ := List.append_of_mem hfound
    have hpassed : ∀ entry ∈ first ++ (place, found) :: last, passes entry = true := by
      intro entry hentry
      rw [← hread] at hentry
      exact List.all_eq_true.mp List.all_takeWhile entry (List.mem_of_mem_take hentry)
    obtain ⟨rest, hrest⟩ := (List.take_prefix room _).trans (List.takeWhile_prefix passes (l := entries))
    rw [hread, List.append_assoc, List.cons_append] at hrest
    rw [← hrest] at hrising hthere ⊢
    have hsame : found = there := hrising.eq_of_place hthere (by simp)
    refine ⟨hsame, hsame ▸ hpassed _ (by simp), ?_, ?_⟩
    · intro entry hentry hlt
      exact hpassed entry (List.mem_append_left _ ((hrising.mem_before_iff hentry).mp hlt))
    · have hlength := congrArg List.length hread
      rw [List.length_take, List.length_append, List.length_cons] at hlength
      have hcount := hrising.countP_lt
      dsimp only at hcount
      omega
  · rintro ⟨rfl, hpasses, hbefore, hroom⟩
    obtain ⟨first, last, rfl⟩ := List.append_of_mem hthere
    have hfirst : ∀ entry ∈ first, passes entry = true := fun entry hentry =>
      hbefore entry (List.mem_append_left _ hentry)
        ((hrising.mem_before_iff (List.mem_append_left _ hentry)).mpr hentry)
    have hcount := hrising.countP_lt
    dsimp only at hcount
    rw [List.takeWhile_append_of_pos hfirst, List.takeWhile_cons_of_pos hpasses, List.take_append,
      List.take_cons (by omega)]
    exact List.mem_append_right _ List.mem_cons_self

/-- Where a mark's piece stands, the first piece it is cut into stands. -/
theorem mem_placed_cutAll [DecidableEq β] {sep : List β} {stands : Option β → List β → Bool}
    (hsep : sep ≠ []) (hinner : ∀ b ∈ sep, ∀ after, stands (some b) after = false)
    {text : List β} {part : ℕ × List β}
    (hpart : part ∈ (placed sep.length 0 (cut sep stands none text)).drop 1) {first : List β}
    {others : List (List β)} (hfirst : cutAll sep part.2 = first :: others) :
    (part.1, first) ∈ (placed sep.length 0 (cutAll sep text)).drop 1 := by
  have hreach : ∀ piece ∈ cut sep stands none text,
      reach sep.length (cutAll sep piece) = piece.length + sep.length := by
    intro piece _
    rw [reach_intercalate sep (cutAll_ne_nil hsep piece), cutAll, intercalate_cut _ hsep]
  rw [cutAll_eq_flatMap hsep hinner none text, placed_flatMap _ 0 _ hreach]
  obtain ⟨preamble, rest, hcut⟩ := List.exists_cons_of_ne_nil
    (cut_ne_nil stands hsep none text)
  rw [hcut, placed, List.drop_one, List.tail_cons] at hpart
  obtain ⟨piece, pieces, hpieces⟩ := List.exists_cons_of_ne_nil (cutAll_ne_nil hsep preamble)
  rw [hcut, placed, List.flatMap_cons, hpieces, placed, List.cons_append, List.drop_one,
    List.tail_cons]
  apply List.mem_append_right
  apply List.mem_flatMap.mpr
  refine ⟨part, hpart, ?_⟩
  rw [hfirst, placed]
  exact List.mem_cons_self

end Placed

end EasyWaf.Core.Cuts
