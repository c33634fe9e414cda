import EasyWaf.Http.Url

/-!
# Paths read a segment at a time

A slash is part of no escape, so what stands before it is decoded apart from what
follows.  Dot segments are resolved from left to right: what a path's beginning
comes to is where the rest of it starts from.
-/

namespace EasyWaf.Http

section Decoding

theorem hexValue_slash : hexValue 47 = none := by decide

theorem escaped_slash_high (percent low : UInt8) : escaped percent 47 low = none := by
  rw [escaped, hexValue_slash]
  split <;> rfl

theorem escaped_slash_low (percent high : UInt8) : escaped percent high 47 = none := by
  rw [escaped, hexValue_slash]
  split
  · cases hexValue high <;> rfl
  · rfl

theorem decodeBinary_append_slash (before after : List UInt8) :
    decodeBinary (before ++ 47 :: after) = decodeBinary before ++ 47 :: decodeBinary after := by
  have hslash : decodeBinary (47 :: after) = 47 :: decodeBinary after :=
    decodeBinary_cons_of_ne (by decide) after
  have hbyte : ∀ byte : UInt8,
      decodeBinary (byte :: 47 :: after) = byte :: 47 :: decodeBinary after := by
    intro byte
    cases after with
    | nil => rfl
    | cons low after =>
        rw [decodeBinary, escaped_slash_high]
        exact congrArg (byte :: ·) hslash
  fun_induction decodeBinary before with
  | case1 byte high low rest value hvalue ih =>
      rw [List.cons_append, List.cons_append, List.cons_append, decodeBinary, hvalue]
      exact congrArg (value :: ·) ih
  | case2 byte high low rest hnone ih =>
      rw [List.cons_append, List.cons_append, List.cons_append, decodeBinary, hnone]
      exact congrArg (byte :: ·) ih
  | case3 rest hshort =>
      rcases rest with _ | ⟨byte, _ | ⟨high, _ | ⟨low, rest⟩⟩⟩
      · exact hslash
      · exact hbyte byte
      · rw [List.cons_append, List.singleton_append, decodeBinary, escaped_slash_low]
        exact congrArg (byte :: ·) (hbyte high)
      · exact absurd rfl (hshort byte high low rest)

end Decoding

section Walk

variable {single double : Text → Bool}

/-- Where a segment leads that another follows. -/
def enter (single double : Text → Bool) (kept : List Text) (segment : Text) : List Text :=
  if double segment then kept.dropLast else if single segment then kept else kept ++ [segment]

/-- Where segments lead that others follow. -/
def walk (single double : Text → Bool) (kept segments : List Text) : List Text :=
  segments.foldl (enter single double) kept

theorem removeDots_append (kept segments : List Text) {rest : List Text} (hrest : rest ≠ []) :
    removeDots single double kept (segments ++ rest) =
      removeDots single double (walk single double kept segments) rest := by
  induction segments generalizing kept with
  | nil => rfl
  | cons segment segments ih =>
      obtain ⟨following, others, hothers⟩ :=
        List.exists_cons_of_ne_nil (List.append_ne_nil_of_right_ne_nil segments hrest)
      calc removeDots single double kept (segment :: segments ++ rest)
          = removeDots single double (enter single double kept segment) (segments ++ rest) := by
            rw [List.cons_append, hothers]
            rfl
        _ = _ := ih _

theorem length_walk_le (kept segments : List Text) :
    (walk single double kept segments).length ≤ kept.length + segments.length := by
  induction segments generalizing kept with
  | nil => exact le_rfl
  | cons segment segments ih =>
      have henter : (enter single double kept segment).length ≤ kept.length + 1 := by
        rw [enter]
        split_ifs
        · exact (List.dropLast_sublist kept).length_le.trans (Nat.le_succ _)
        · exact Nat.le_succ _
        · exact List.length_append.le
      calc (walk single double (enter single double kept segment) segments).length
          ≤ (enter single double kept segment).length + segments.length := ih _
        _ ≤ kept.length + (segment :: segments).length := by
            rw [List.length_cons]
            omega

theorem mem_walk {kept segments : List Text} {segment : Text}
    (hmem : segment ∈ walk single double kept segments) : segment ∈ kept ∨ segment ∈ segments := by
  induction segments generalizing kept with
  | nil => exact Or.inl hmem
  | cons first rest ih =>
      rcases ih hmem with hkept | hrest
      · unfold enter at hkept
        split at hkept
        · exact Or.inl (List.dropLast_subset kept hkept)
        · split at hkept
          · exact Or.inl hkept
          · rcases List.mem_append.mp hkept with hkept | hfirst
            · exact Or.inl hkept
            · exact Or.inr (List.mem_cons.mpr (Or.inl (List.mem_singleton.mp hfirst)))
      · exact Or.inr (List.mem_cons_of_mem first hrest)

theorem walk_of_dotless {segments : List Text}
    (hdotless : ∀ segment ∈ segments, single segment = false ∧ double segment = false)
    (kept : List Text) : walk single double kept segments = kept ++ segments := by
  induction segments generalizing kept with
  | nil => exact (List.append_nil kept).symm
  | cons segment segments ih =>
      obtain ⟨⟨hsingle, hdouble⟩, hrest⟩ := List.forall_mem_cons.mp hdotless
      have henter : enter single double kept segment = kept ++ [segment] := by
        rw [enter, hdouble, hsingle]
        rfl
      calc walk single double (enter single double kept segment) segments
          = kept ++ [segment] ++ segments := by rw [henter, ih hrest]
        _ = kept ++ segment :: segments := by rw [List.append_assoc, List.singleton_append]

/-- Enough steps up lead to the root. -/
theorem removeDots_climb {kept : List Text} {up : Text} (hup : double up = true)
    (hlast : single [] = false ∧ double [] = false) {steps : ℕ} (hsteps : kept.length ≤ steps) :
    removeDots single double kept (List.replicate steps up ++ [[]]) = [[]] := by
  induction steps generalizing kept with
  | zero =>
      obtain rfl := List.length_eq_zero_iff.mp (Nat.le_zero.mp hsteps)
      simp [removeDots, hlast]
  | succ steps ih =>
      have henter : enter single double kept up = kept.dropLast := by
        rw [enter, hup]
        rfl
      have hlength : kept.dropLast.length ≤ steps := by
        rw [List.length_dropLast]
        omega
      calc removeDots single double kept (List.replicate (steps + 1) up ++ [[]])
          = removeDots single double (enter single double kept up)
              (List.replicate steps up ++ [[]]) := by
            rw [List.replicate_succ, List.cons_append, ← List.singleton_append,
              removeDots_append kept [up] (by simp)]
            rfl
        _ = [[]] := by rw [henter, ih hlength]

/-- Segments none of which leads up stay below what is kept. -/
theorem exists_removeDots_eq {segments : List Text} (hsegments : segments ≠ [])
    (hdouble : ∀ segment ∈ segments, double segment = false) (kept : List Text) :
    ∃ below, below ≠ [] ∧ removeDots single double kept segments = kept ++ below := by
  induction segments generalizing kept with
  | nil => exact absurd rfl hsegments
  | cons segment rest ih =>
      obtain ⟨hsegment, hrest⟩ := List.forall_mem_cons.mp hdouble
      cases rest with
      | nil =>
          rw [removeDots, hsegment, if_neg Bool.false_ne_true]
          split
          · exact ⟨[[]], List.cons_ne_nil _ _, rfl⟩
          · exact ⟨[segment], List.cons_ne_nil _ _, rfl⟩
      | cons following rest =>
          rw [removeDots, hsegment, if_neg Bool.false_ne_true]
          split
          · exact ih (List.cons_ne_nil _ _) hrest kept
          · obtain ⟨below, hne, hbelow⟩ := ih (List.cons_ne_nil _ _) hrest (kept ++ [segment])
            exact ⟨segment :: below, List.cons_ne_nil _ _, by
              rw [hbelow, List.append_assoc, List.singleton_append]⟩

/-- A step up that finds nothing of a path's own to take. -/
def climb (double : Text → Bool) (own : List Text) (segment : Text) : ℕ :=
  if double segment ∧ own = [] then 1 else 0

/-- How many steps up find nothing of a path's own to take, after what is kept of it. -/
def climbs (single double : Text → Bool) : (own segments : List Text) → ℕ
  | _, [] => 0
  | own, segment :: rest =>
      climb double own segment + climbs single double (enter single double own segment) rest

theorem rdrop_rdrop (kept : List Text) (first second : ℕ) :
    (kept.rdrop first).rdrop second = kept.rdrop (first + second) := by
  rw [List.rdrop, List.rdrop, List.rdrop, List.take_take, List.length_take]
  congr 1
  omega

theorem enter_kept (kept own : List Text) (segment : Text) :
    enter single double (kept ++ own) segment =
      kept.rdrop (climb double own segment) ++ enter single double own segment := by
  unfold enter climb
  by_cases hdouble : double segment = true
  · rw [if_pos hdouble, if_pos hdouble]
    by_cases hown : own = []
    · rw [if_pos ⟨hdouble, hown⟩, hown, List.append_nil, List.dropLast_nil, List.append_nil,
        List.rdrop, List.dropLast_eq_take]
    · rw [if_neg (not_and_of_not_right _ hown), List.rdrop_zero,
        List.dropLast_append_of_ne_nil hown]
  · rw [if_neg hdouble, if_neg hdouble, if_neg (not_and_of_not_left _ hdouble), List.rdrop_zero]
    split
    · rfl
    · exact List.append_assoc _ _ _

theorem removeDots_singleton (kept : List Text) (last : Text) :
    removeDots single double kept [last] =
      enter single double kept last ++ if double last || single last then [[]] else [] := by
  unfold removeDots enter
  cases double last
  · cases single last
    · exact (List.append_nil _).symm
    · rfl
  · rfl

/-- A path takes away as much of what is kept before it as it climbs, and the rest of it is
what it comes to by itself. -/
theorem removeDots_kept (kept own segments : List Text) :
    removeDots single double (kept ++ own) segments =
      kept.rdrop (climbs single double own segments) ++
        removeDots single double own segments := by
  induction segments generalizing kept own with
  | nil => rw [climbs, List.rdrop_zero, removeDots, removeDots]
  | cons segment rest ih =>
      cases rest with
      | nil =>
          rw [removeDots_singleton, removeDots_singleton, enter_kept, climbs, climbs,
            List.append_assoc, Nat.add_zero]
      | cons following rest =>
          calc removeDots single double (kept ++ own) (segment :: following :: rest)
              = removeDots single double (enter single double (kept ++ own) segment)
                  (following :: rest) := rfl
            _ = (kept.rdrop (climb double own segment)).rdrop
                    (climbs single double (enter single double own segment) (following :: rest)) ++
                  removeDots single double (enter single double own segment)
                    (following :: rest) := by rw [enter_kept, ih]
            _ = _ := by
                rw [rdrop_rdrop]
                rfl

end Walk

section Flat

/-- A path of segments. -/
theorem slash_join {segments : List Text} (hsegments : segments ≠ []) :
    '/' :: Text.join ['/'] segments = segments.flatMap ('/' :: ·) := by
  induction segments with
  | nil => exact absurd rfl hsegments
  | cons segment rest ih =>
      cases rest with
      | nil => rw [Text.join, List.intercalate_singleton, List.flatMap_singleton]
      | cons following rest =>
          rw [List.flatMap_cons, ← ih (List.cons_ne_nil _ _), Text.join, List.intercalate_cons_cons,
            List.append_assoc]
          rfl

theorem trimEnd_segments {segments : List Text} (hslash : ∀ segment ∈ segments, '/' ∉ segment) :
    Text.trimEndMatches (· = '/') (segments.flatMap ('/' :: ·)) =
      (segments.rdropWhile (· = [])).flatMap ('/' :: ·) := by
  induction segments using List.reverseRecOn with
  | nil => rfl
  | append_singleton segments last ih =>
      rw [List.flatMap_append, List.flatMap_singleton, Text.trimEndMatches]
      cases last using List.reverseRecOn with
      | nil =>
          rw [List.rdropWhile_concat_pos _ _ '/' (by simp),
            List.rdropWhile_concat_pos _ _ [] (by simp)]
          exact ih fun segment hsegment => hslash segment (List.mem_append_left _ hsegment)
      | append_singleton start c =>
          have hc : c ≠ '/' := by
            rintro rfl
            exact hslash _ (List.mem_append_right _ (List.mem_singleton_self _))
              (List.mem_append_right _ (List.mem_singleton_self _))
          rw [← List.cons_append, ← List.append_assoc, List.rdropWhile_concat_neg _ _ _ (by simpa),
            List.rdropWhile_concat_neg _ _ _ (by simp), List.flatMap_append,
            List.flatMap_singleton, List.append_assoc]
          rfl

/-- A character that is no slash is written without one. -/
theorem slash_not_mem_encode (url : Url) {c : Char} (hc : c ≠ '/') : '/' ∉ url.encode c := by
  intro hslash
  unfold Url.encode at hslash
  split at hslash
  · obtain ⟨byte, -, hescape⟩ := List.mem_flatMap.mp hslash
    exact absurd (Url.mem_escape hescape) (by decide)
  · exact hc (List.mem_singleton.mp hslash).symm

/-- Segments without slashes are told apart by the path they make. -/
theorem eq_of_join_eq {left right : List Text} (hleft : ∀ segment ∈ left, '/' ∉ segment)
    (hright : ∀ segment ∈ right, '/' ∉ segment) (hleftNe : left ≠ []) (hrightNe : right ≠ [])
    (hjoin : Text.join ['/'] left = Text.join ['/'] right) : left = right := by
  have hsplit := congrArg (List.splitOn '/') hjoin
  unfold Text.join at hsplit
  rwa [List.splitOn_intercalate '/' hleft hleftNe, List.splitOn_intercalate '/' hright hrightNe]
    at hsplit

end Flat

end EasyWaf.Http
