import Mathlib

/-!
# Bisection and intervals of numbers

The point at which a list goes over from what satisfies a predicate to what does
not, found by halving the range it may lie in.
-/

namespace EasyWaf.Core

/-- The first index from `base` on that fails, when none of `base + size` and above
passes. -/
def bisect (passes : ℕ → Bool) (base size : ℕ) : ℕ :=
  if 1 < size then
    let middle := base + size / 2
    bisect passes (if passes middle then middle else base) (size - size / 2)
  else if passes base then base + 1
  else base
termination_by size
decreasing_by omega

/-- Where the first part of a list ends, all of which passes. -/
def partitionPoint {α : Type*} (passes : α → Bool) (list : List α) : ℕ :=
  if list = [] then 0 else bisect (fun i => (list[i]?).any passes) 0 list.length

section Bisect

variable {passes : ℕ → Bool} {base size i : ℕ}

/-- What passes is what comes before the point found.  Everything before `base`
passes, and nothing from `base + size` on. -/
theorem lt_bisect_iff (hpasses : ∀ i j, i ≤ j → passes j = true → passes i = true)
    (hbase : base = 0 ∨ passes base = true) (hsize : 0 < size)
    (hend : passes (base + size) = false) :
    i < bisect passes base size ↔ passes i = true := by
  induction size using Nat.strong_induction_on generalizing base with
  | h size ih =>
      unfold bisect
      split
      case isTrue hmore =>
        dsimp only
        apply ih (size - size / 2) (by omega)
        · split
          · right
            assumption
          · exact hbase
        · omega
        · rw [Bool.eq_false_iff] at hend ⊢
          split
          case isTrue =>
            intro hpass
            exact hend (by rwa [show base + size = base + size / 2 + (size - size / 2) by omega])
          case isFalse hmiddle =>
            intro hpass
            exact hmiddle (hpasses _ _ (by omega) hpass)
      case isFalse hone =>
        obtain rfl : size = 1 := by omega
        rw [Bool.eq_false_iff] at hend
        split
        case isTrue hpass =>
          constructor
          · intro hlt
            exact hpasses i base (by omega) hpass
          · intro hi
            by_contra hge
            exact hend (hpasses _ i (by omega) hi)
        case isFalse hfail =>
          obtain rfl : base = 0 := hbase.resolve_right hfail
          constructor
          · intro hlt
            omega
          · intro hi
            exact absurd (hpasses 0 i (Nat.zero_le i) hi) hfail

end Bisect

section Partition

variable {α : Type*} {passes : α → Bool} {list : List α} {i : ℕ}

/-- On a list that goes over once, an element passes when it stands before the
point. -/
theorem lt_partitionPoint_iff (hlist : list.Pairwise fun a b => passes b = true → passes a = true) :
    i < partitionPoint passes list ↔ (list[i]?).any passes = true := by
  unfold partitionPoint
  split
  case isTrue hnil =>
    subst hnil
    simp
  case isFalse hne =>
    apply lt_bisect_iff
    · intro i j hij hpass
      obtain ⟨b, hb, hpass⟩ := (Option.any_eq_true passes _).mp hpass
      obtain ⟨hj, rfl⟩ := List.getElem?_eq_some_iff.mp hb
      rw [List.getElem?_eq_getElem (hij.trans_lt hj), Option.any_some]
      rcases hij.eq_or_lt with rfl | hlt
      · exact hpass
      · exact List.pairwise_iff_getElem.mp hlist i j _ hj hlt hpass
    · exact Or.inl rfl
    · exact List.length_pos_iff.mpr hne
    · rw [Nat.zero_add, List.getElem?_eq_none (le_refl _), Option.any_none]

end Partition

end EasyWaf.Core

/-!
## Intervals of numbers

Closed intervals in order with a gap after each, and what joining an interval to the
last of them covers.
-/

namespace EasyWaf.Core.Intervals

/-- The intervals are in order, and between one and the next there is a number in
neither. -/
def Separated (intervals : List (ℕ × ℕ)) : Prop :=
  (∀ range ∈ intervals, range.1 ≤ range.2) ∧
    intervals.Pairwise fun left right => left.2 + 1 < right.1

/-- Some interval holds the number. -/
def Covers (intervals : List (ℕ × ℕ)) (value : ℕ) : Prop :=
  ∃ range ∈ intervals, range.1 ≤ value ∧ value ≤ range.2

section Joining

variable {intervals : List (ℕ × ℕ)} {last range : ℕ × ℕ} {value : ℕ}

theorem covers_append {more : List (ℕ × ℕ)} :
    Covers (intervals ++ more) value ↔ Covers intervals value ∨ Covers more value := by
  unfold Covers
  simp only [List.mem_append, or_and_right, exists_or]

theorem covers_singleton : Covers [range] value ↔ range.1 ≤ value ∧ value ≤ range.2 := by
  unfold Covers
  simp only [List.mem_singleton, exists_eq_left]

/-- An interval that begins no later than just after the last is taken into it. -/
theorem covers_join (hstart : last.1 ≤ range.1) (htouch : range.1 ≤ last.2 + 1) :
    Covers (intervals ++ [(last.1, max last.2 range.2)]) value ↔
      Covers (intervals ++ [last]) value ∨ Covers [range] value := by
  simp only [covers_append, covers_singleton, or_assoc]
  apply or_congr_right
  omega

theorem separated_append_singleton :
    Separated (intervals ++ [last]) ↔
      Separated intervals ∧ last.1 ≤ last.2 ∧ ∀ range ∈ intervals, range.2 + 1 < last.1 := by
  unfold Separated
  simp only [List.pairwise_append, List.pairwise_singleton, List.mem_singleton, forall_eq,
    List.mem_append, true_and]
  constructor
  · rintro ⟨hproper, hpairwise, hlast⟩
    exact ⟨⟨fun range hrange => hproper range (Or.inl hrange), hpairwise⟩,
      hproper last (Or.inr rfl), hlast⟩
  · rintro ⟨⟨hproper, hpairwise⟩, hend, hlast⟩
    refine ⟨?_, hpairwise, hlast⟩
    rintro range (hrange | rfl)
    · exact hproper range hrange
    · exact hend

theorem Separated.join (hseparated : Separated (intervals ++ [last])) :
    Separated (intervals ++ [(last.1, max last.2 range.2)]) := by
  rw [separated_append_singleton] at hseparated ⊢
  obtain ⟨hbefore, hlast, hgap⟩ := hseparated
  exact ⟨hbefore, hlast.trans (le_max_left _ _), hgap⟩

theorem Separated.append (hseparated : Separated (intervals ++ [last])) (hproper : range.1 ≤ range.2)
    (hgap : last.2 + 1 < range.1) : Separated (intervals ++ [last] ++ [range]) := by
  rw [separated_append_singleton]
  refine ⟨hseparated, hproper, ?_⟩
  obtain ⟨-, hlast, hbefore⟩ := separated_append_singleton.mp hseparated
  intro earlier hearlier
  rcases List.mem_append.mp hearlier with hearlier | hearlier
  · have := hbefore earlier hearlier
    omega
  · obtain rfl := List.mem_singleton.mp hearlier
    exact hgap

end Joining

section Search

variable {intervals : List (ℕ × ℕ)} {value i : ℕ}

/-- The last interval that begins at or below a number decides whether any holds it. -/
theorem covers_iff_of_last (hseparated : Separated intervals)
    (hbegins : ∀ j, j < i ↔ (intervals[j]?).any (fun range => decide (range.1 ≤ value)) = true) :
    Covers intervals value ↔
      0 < i ∧ (intervals[i - 1]?).any (fun range => decide (value ≤ range.2)) = true := by
  constructor
  · rintro ⟨range, hmem, hfirst, hlast⟩
    obtain ⟨j, hj, rfl⟩ := List.mem_iff_getElem.mp hmem
    have hji : j < i := by
      rw [hbegins, List.getElem?_eq_getElem hj, Option.any_some]
      exact decide_eq_true hfirst
    have hbefore := (hbegins (i - 1)).mp (by omega)
    obtain ⟨other, hother, hstart⟩ := (Option.any_eq_true _ _).mp hbefore
    obtain ⟨hi, rfl⟩ := List.getElem?_eq_some_iff.mp hother
    refine ⟨by omega, ?_⟩
    rw [hother, Option.any_some, decide_eq_true_eq]
    rcases (show j ≤ i - 1 by omega).eq_or_lt with rfl | hlt
    · exact hlast
    · have hgap := List.pairwise_iff_getElem.mp hseparated.2 j (i - 1) hj hi hlt
      have hstart := of_decide_eq_true hstart
      omega
  · rintro ⟨hpos, hends⟩
    obtain ⟨range, hrange, hlast⟩ := (Option.any_eq_true _ _).mp hends
    have hbefore := (hbegins (i - 1)).mp (by omega)
    rw [hrange, Option.any_some] at hbefore
    exact ⟨range, List.mem_of_getElem? hrange, of_decide_eq_true hbefore, of_decide_eq_true hlast⟩

end Search

end EasyWaf.Core.Intervals
