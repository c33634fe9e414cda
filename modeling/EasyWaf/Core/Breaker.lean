import Mathlib

/-!
# Circuit breakers

A breaker counts failures in a row and, from a threshold on, stays open until a
deadline that each further failure moves; a success closes it.  The count
saturates.  It is open exactly while the failures since the last success are
enough and the last of them is recent.
-/

namespace EasyWaf.Core

structure Breaker (Time : Type*) where
  /-- Failures since the last success. -/
  consecutive : ℕ
  outUntil : Option Time

namespace Breaker

variable {Time : Type*}

def new : Breaker Time where
  consecutive := 0
  outUntil := none

inductive Outcome (Time : Type*)
  | failed (time : Time)
  | succeeded

/-- The failures since the last success, of outcomes the latest of which is in
front. -/
def streak : List (Outcome Time) → List Time
  | .failed time :: earlier => time :: streak earlier
  | _ => []

def isOpen [LE Time] [DecidableLE Time] (breaker : Breaker Time) (now : Time) : Bool :=
  breaker.outUntil.any fun deadline => !decide (deadline ≤ now)

variable [Add Time] (threshold limit : ℕ) (outFor : Time)

def fail (breaker : Breaker Time) (now : Time) : Breaker Time :=
  let consecutive := min (breaker.consecutive + 1) limit
  { consecutive
    outUntil :=
      if threshold ≤ consecutive then some (now + outFor) else breaker.outUntil }

def observe (breaker : Breaker Time) : Outcome Time → Breaker Time
  | .failed time => breaker.fail threshold limit outFor time
  | .succeeded => new

/-- What outcomes leave, the latest of which is in front. -/
def after : List (Outcome Time) → Breaker Time
  | [] => new
  | outcome :: earlier => (after earlier).observe threshold limit outFor outcome

theorem consecutive_after (outcomes : List (Outcome Time)) :
    (after threshold limit outFor outcomes).consecutive = min (streak outcomes).length limit := by
  induction outcomes with
  | nil => exact (Nat.zero_min limit).symm
  | cons outcome earlier ih =>
      cases outcome with
      | failed time =>
          change min ((after threshold limit outFor earlier).consecutive + 1) limit = _
          rw [ih, streak, List.length_cons]
          omega
      | succeeded => exact (Nat.zero_min limit).symm

variable {threshold limit outFor}

/-- The deadline is set by the last failure, once there are enough. -/
theorem outUntil_after (hpositive : 0 < threshold) (hlimit : threshold ≤ limit)
    (outcomes : List (Outcome Time)) :
    (after threshold limit outFor outcomes).outUntil =
      if threshold ≤ (streak outcomes).length then
        (streak outcomes).head?.map (· + outFor)
      else none := by
  induction outcomes with
  | nil => exact (if_neg (Nat.not_le.mpr hpositive)).symm
  | cons outcome earlier ih =>
      cases outcome with
      | failed time =>
          have hcount := consecutive_after threshold limit outFor earlier
          change (if threshold ≤ min ((after threshold limit outFor earlier).consecutive + 1) limit
            then some (time + outFor) else (after threshold limit outFor earlier).outUntil) = _
          rw [hcount, streak, List.length_cons, List.head?_cons, Option.map_some]
          by_cases henough : threshold ≤ (streak earlier).length + 1
          · rw [if_pos henough, if_pos (by omega)]
          · rw [if_neg henough, if_neg (by omega), ih, if_neg (by omega)]
      | succeeded => exact (if_neg (Nat.not_le.mpr hpositive)).symm

variable [LinearOrder Time]

/-- A breaker is open exactly while the failures since the last success are enough
and the last of them is recent. -/
theorem isOpen_after_iff (hpositive : 0 < threshold) (hlimit : threshold ≤ limit)
    (outcomes : List (Outcome Time)) (now : Time) :
    (after threshold limit outFor outcomes).isOpen now = true ↔
      threshold ≤ (streak outcomes).length ∧
        ∃ last ∈ (streak outcomes).head?, now < last + outFor := by
  rw [isOpen, outUntil_after hpositive hlimit]
  split
  · rename_i henough
    cases (streak outcomes).head? with
    | none => simp
    | some last => simp [henough]
  · rename_i hfew
    simp [hfew]

end Breaker

end EasyWaf.Core
