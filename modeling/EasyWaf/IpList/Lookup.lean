import EasyWaf.Core.Intervals
import EasyWaf.Forwarded.Prefixes
import EasyWaf.IpList

/-!
# Looking an address up

The ranges of a list are sorted and joined once, and an address is then looked up by
bisection.  It is found exactly where one of the blocks holds it.
-/

namespace EasyWaf.IpList

open EasyWaf.Core EasyWaf.Core.Intervals Forwarded Net

/-- The ranges of an address's family. -/
def Ranges.ofFamily (ranges : Ranges) : IpAddr → List (ℕ × ℕ)
  | .v4 _ => ranges.v4
  | .v6 _ => ranges.v6

/-- `Ranges::contains`. -/
def Ranges.contains (ranges : Ranges) (ip : IpAddr) : Bool :=
  let i := partitionPoint (fun range => range.1 ≤ ip.toNat) (ranges.ofFamily ip)
  0 < i && ((ranges.ofFamily ip)[i - 1]?).any fun range => ip.toNat ≤ range.2

section Coalescing

variable {out ranges : List (ℕ × ℕ)} {range : ℕ × ℕ}

theorem coalesceStep_nil (range : ℕ × ℕ) : coalesceStep [] range = [range] := rfl

theorem coalesceStep_concat (out : List (ℕ × ℕ)) (last range : ℕ × ℕ) :
    coalesceStep (out ++ [last]) range =
      if range.1 ≤ last.2 + 1 then out ++ [(last.1, max last.2 range.2)]
      else out ++ [last] ++ [range] := by
  rw [coalesceStep, List.getLast?_concat, List.dropLast_concat]

/-- One range more is covered and the intervals stay apart, when it begins no earlier
than any of them. -/
theorem coalesceStep_spec (hout : Separated out) (hrange : range.1 ≤ range.2)
    (horder : ∀ earlier ∈ out, earlier.1 ≤ range.1) :
    Separated (coalesceStep out range) ∧
      (∀ joined ∈ coalesceStep out range, joined.1 ≤ range.1) ∧
      ∀ value, Covers (coalesceStep out range) value ↔ Covers out value ∨ Covers [range] value := by
  rcases List.eq_nil_or_concat out with rfl | ⟨before, last, rfl⟩
  · rw [coalesceStep_nil]
    refine ⟨?_, ?_, ?_⟩
    · exact ⟨by simpa using hrange, List.pairwise_singleton _ _⟩
    · simp
    · intro value
      simp [Covers]
  · rw [List.concat_eq_append] at hout horder ⊢
    have hlast : last.1 ≤ range.1 := horder last (by simp)
    rw [coalesceStep_concat]
    split
    case isTrue htouch =>
      refine ⟨hout.join, ?_, fun value => covers_join hlast htouch⟩
      intro joined hjoined
      rcases List.mem_append.mp hjoined with hbefore | hjoined
      · exact horder joined (List.mem_append_left _ hbefore)
      · rw [List.mem_singleton.mp hjoined]
        exact hlast
    case isFalse hgap =>
      refine ⟨hout.append hrange (not_le.mp hgap), ?_, fun value => covers_append⟩
      intro joined hjoined
      rcases List.mem_append.mp hjoined with hbefore | hjoined
      · exact horder joined hbefore
      · rw [List.mem_singleton.mp hjoined]

theorem foldl_coalesceStep_spec (hout : Separated out)
    (hranges : ∀ range ∈ ranges, range.1 ≤ range.2)
    (horder : ∀ earlier ∈ out, ∀ range ∈ ranges, earlier.1 ≤ range.1)
    (hsorted : ranges.Pairwise fun left right => left.1 ≤ right.1) :
    Separated (ranges.foldl coalesceStep out) ∧
      ∀ value, Covers (ranges.foldl coalesceStep out) value ↔
        Covers out value ∨ Covers ranges value := by
  induction ranges generalizing out with
  | nil => exact ⟨hout, fun value => by simp [Covers]⟩
  | cons range rest ih =>
      obtain ⟨hrange, hrest⟩ := List.forall_mem_cons.mp hranges
      obtain ⟨hfirst, hpairwise⟩ := List.pairwise_cons.mp hsorted
      obtain ⟨hstep, hjoined, hcovers⟩ := coalesceStep_spec hout hrange fun earlier hearlier =>
        horder earlier hearlier range List.mem_cons_self
      obtain ⟨hseparated, hall⟩ := ih hstep hrest
        (fun joined hmem later hlater => (hjoined joined hmem).trans (hfirst later hlater)) hpairwise
      refine ⟨hseparated, fun value => ?_⟩
      rw [List.foldl_cons, hall, hcovers, or_assoc, ← covers_append, List.singleton_append]

/-- Sorting and joining ranges covers what they cover. -/
theorem coalesce_spec (hranges : ∀ range ∈ ranges, range.1 ≤ range.2) :
    Separated (coalesce ranges) ∧
      ∀ value, Covers (coalesce ranges) value ↔ Covers ranges value := by
  let before (left right : ℕ × ℕ) : Prop :=
    left.1 < right.1 ∨ (left.1 = right.1 ∧ left.2 ≤ right.2)
  have htotal : Std.Total before := ⟨fun left right => by dsimp only [before]; omega⟩
  have htrans : IsTrans (ℕ × ℕ) before := ⟨fun left middle right => by dsimp only [before]; omega⟩
  have hperm : (ranges.insertionSort before).Perm ranges := List.perm_insertionSort before ranges
  have hsorted : (ranges.insertionSort before).Pairwise fun left right => left.1 ≤ right.1 :=
    (List.pairwise_insertionSort before ranges).imp fun hbefore => by
      dsimp only [before] at hbefore
      omega
  have hempty : Separated [] := ⟨by simp, List.Pairwise.nil⟩
  obtain ⟨hseparated, hcovers⟩ := foldl_coalesceStep_spec hempty
    (fun range hmem => hranges range (hperm.mem_iff.mp hmem))
    (by simp) hsorted
  refine ⟨hseparated, fun value => (hcovers value).trans ?_⟩
  simp only [Covers, List.not_mem_nil, false_and, exists_false, false_or, hperm.mem_iff]

end Coalescing

section Blocks

variable {blocks : List Cidr} {ip : IpAddr}

/-- The ranges kept for a family are those of the blocks of that family. -/
theorem ofFamily_build (blocks : List Cidr) (ip : IpAddr) :
    (Ranges.build blocks).ofFamily ip =
      coalesce ((blocks.filter fun block => block.isIpv4 == ip.isIpv4).map Cidr.range) := by
  cases ip with
  | v4 bits => simp [Ranges.ofFamily, Ranges.build, IpAddr.isIpv4]
  | v6 bits => simp [Ranges.ofFamily, Ranges.build, IpAddr.isIpv4]

theorem separated_ofFamily_build (blocks : List Cidr) (ip : IpAddr) :
    Separated ((Ranges.build blocks).ofFamily ip) := by
  rw [ofFamily_build]
  apply (coalesce_spec _).1
  intro range hrange
  obtain ⟨block, -, rfl⟩ := List.mem_map.mp hrange
  exact range_le block

theorem contains_iff_covers {ranges : Ranges} (hseparated : Separated (ranges.ofFamily ip)) :
    ranges.contains ip = true ↔ Covers (ranges.ofFamily ip) ip.toNat := by
  have hsorted : (ranges.ofFamily ip).Pairwise fun left right =>
      decide (right.1 ≤ ip.toNat) = true → decide (left.1 ≤ ip.toNat) = true := by
    apply hseparated.2.imp_of_mem
    intro left right hleft hright hgap hbegins
    have hproper := hseparated.1 left hleft
    have hbegins := of_decide_eq_true hbegins
    exact decide_eq_true (by omega)
  rw [covers_iff_of_last hseparated fun j => lt_partitionPoint_iff hsorted, Ranges.contains,
    Bool.and_eq_true, decide_eq_true_eq]

theorem covers_build_iff :
    Covers ((Ranges.build blocks).ofFamily ip) ip.toNat ↔
      ∃ block ∈ blocks, block.contains ip = true := by
  have hproper : ∀ range ∈ (blocks.filter fun block => block.isIpv4 == ip.isIpv4).map Cidr.range,
      range.1 ≤ range.2 := by
    intro range hrange
    obtain ⟨block, -, rfl⟩ := List.mem_map.mp hrange
    exact range_le block
  rw [ofFamily_build, (coalesce_spec hproper).2]
  constructor
  · rintro ⟨range, hrange, hholds⟩
    obtain ⟨block, hblock, rfl⟩ := List.mem_map.mp hrange
    obtain ⟨hmem, hfamily⟩ := List.mem_filter.mp hblock
    exact ⟨block, hmem, (contains_iff_range (eq_of_beq hfamily)).mpr hholds⟩
  · rintro ⟨block, hmem, hcontains⟩
    have hfamily := (contains_iff.mp hcontains).1
    refine ⟨block.range, List.mem_map_of_mem (List.mem_filter.mpr ⟨hmem, ?_⟩), ?_⟩
    · exact beq_iff_eq.mpr hfamily
    · exact (contains_iff_range hfamily).mp hcontains

/-- An address is found exactly where a block holds it, and the ranges it is looked up
in are in order with a gap between any two. -/
theorem contains_build (blocks : List Cidr) :
    (∀ ip, (Ranges.build blocks).contains ip = blocks.any (·.contains ip)) ∧
      Separated (Ranges.build blocks).v4 ∧ Separated (Ranges.build blocks).v6 := by
  refine ⟨fun ip => ?_, separated_ofFamily_build blocks (.v4 0), separated_ofFamily_build blocks (.v6 0)⟩
  rw [Bool.eq_iff_iff, contains_iff_covers (separated_ofFamily_build blocks ip), covers_build_iff,
    List.any_eq_true]

end Blocks

end EasyWaf.IpList
