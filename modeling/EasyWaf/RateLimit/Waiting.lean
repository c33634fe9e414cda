import EasyWaf.RateLimit

/-!
# How long a client is told to wait

A request that is over the limit is answered with the number of seconds after which one
more would be within it.  The estimate falls as the last window slides out and again
when this one does, so the wait is the first moment at which it fits.
-/

namespace EasyWaf.RateLimit

/-- Step on from an offset until the requests left of the last window fit. -/
def stepOn (window count allowed offset : ℕ) : ℕ :=
  if offset < window ∧ allowed < count * (window - offset) then
    stepOn window count allowed (offset + 1)
  else offset
termination_by window - offset
decreasing_by omega

/-- The first offset into a window at which `count` of the window before and `rest` of
this one leave room, if there is one before it ends. -/
def firstFit (window room count rest : ℕ) : Option ℕ :=
  if room < rest then none
  else if count = 0 then some 0
  else
    let allowed := (room - rest) * window
    let offset := stepOn window count allowed (window - allowed / count)
    if offset < window then some offset else none

/-- `wait_ms`. -/
def waitMs (tally : Tally) (nowMs limit : ℕ) : ℕ :=
  let into := nowMs % tally.windowMs
  let room := limit - 1
  match firstFit tally.windowMs room tally.previous tally.current with
  | some offset => offset - into
  | none =>
      let toNext := tally.windowMs - into
      match firstFit tally.windowMs room tally.current 0 with
      | some offset => toNext + offset
      | none => toNext + tally.windowMs

/-- `retry_after`, in seconds; a count was taken at its tally's last request. -/
def Count.retryAfter (count : Count) (limit : ℕ) : ℕ :=
  let ms := waitMs count.tally count.tally.lastMs limit
  max ((ms + 999) / 1000) 1

section Fitting

variable {window room count rest offset : ℕ}

/-- The division already gives the first offset that fits. -/
theorem fits_iff (hcount : 0 < count) (allowed : ℕ) :
    count * (window - offset) ≤ allowed ↔ window - allowed / count ≤ offset := by
  rw [mul_comm, ← Nat.le_div_iff_mul_le hcount]
  generalize allowed / count = share
  omega

theorem stepOn_eq (hcount : 0 < count) (allowed : ℕ) :
    stepOn window count allowed (window - allowed / count) = window - allowed / count := by
  have hfits : count * (window - (window - allowed / count)) ≤ allowed :=
    (fits_iff hcount allowed).mpr (le_refl _)
  unfold stepOn
  rw [if_neg]
  exact fun h => absurd h.2 (not_lt.mpr hfits)

theorem lt_of_firstFit (hpos : 0 < window) {first : ℕ}
    (hfit : firstFit window room count rest = some first) : first < window ∧ rest ≤ room := by
  unfold firstFit at hfit
  split at hfit
  case isTrue => contradiction
  case isFalse hroom =>
    refine ⟨?_, not_lt.mp hroom⟩
    split at hfit
    case isTrue =>
      obtain rfl := Option.some.inj hfit
      exact hpos
    case isFalse =>
      obtain ⟨hlt, heq⟩ := Option.ite_none_right_eq_some.mp hfit
      exact Option.some.inj heq ▸ hlt

/-- An offset within the window fits from the first one on. -/
theorem firstFit_iff (hoffset : offset < window) :
    count * (window - offset) + rest * window ≤ room * window ↔
      ∃ first, firstFit window room count rest = some first ∧ first ≤ offset := by
  have hpos : 0 < window := by omega
  unfold firstFit
  split
  case isTrue hroom =>
    have hmore : room * window < rest * window := Nat.mul_lt_mul_of_pos_right hroom hpos
    simp only [reduceCtorEq, false_and, exists_false, iff_false]
    omega
  case isFalse hroom =>
    have hsplit : (room - rest) * window + rest * window = room * window := by
      rw [← add_mul, Nat.sub_add_cancel (not_lt.mp hroom)]
    have hless : count * (window - offset) + rest * window ≤ room * window ↔
        count * (window - offset) ≤ (room - rest) * window := by omega
    rw [hless]
    split
    case isTrue hnone =>
      subst hnone
      simp
    case isFalse hsome =>
      have hcount : 0 < count := Nat.pos_of_ne_zero hsome
      dsimp only
      rw [stepOn_eq hcount, fits_iff hcount]
      split
      case isTrue => simp
      case isFalse hlate =>
        simp only [reduceCtorEq, false_and, exists_false, iff_false]
        omega

end Fitting

section Later

variable {tally : Tally} {now later window limit wait : ℕ}

/-- A tally as a request leaves it. -/
structure Standing (tally : Tally) (now window : ℕ) : Prop where
  window_eq : tally.windowMs = window
  slot_eq : tally.slot = now / window
  current_le : tally.current ≤ 2 ^ 64 - 1

theorem record_over (tally : Tally) (later window limit : ℕ)
    (hwindow : (tally.advance later window).windowMs = window) :
    (tally.record later window).2.over limit = true ↔
      limit * window < (tally.advance later window).previous * (window - later % window) +
        min ((tally.advance later window).current + 1) (2 ^ 64 - 1) * window := by
  simp only [Tally.record, Count.over, Tally.scaled, hwindow, decide_eq_true_eq]

theorem over_record_same (hstanding : Standing tally now window)
    (hslot : later / window = now / window) :
    (tally.record later window).2.over limit = true ↔
      limit * window < tally.previous * (window - later % window) +
        min (tally.current + 1) (2 ^ 64 - 1) * window := by
  have hadvance : tally.advance later window = tally := by
    simp [Tally.advance, hstanding.window_eq, hstanding.slot_eq, hslot]
  rw [record_over _ _ _ _ (by rw [hadvance, hstanding.window_eq]), hadvance]

theorem over_record_next (hstanding : Standing tally now window)
    (hslot : later / window = now / window + 1) :
    (tally.record later window).2.over limit = true ↔
      limit * window < tally.current * (window - later % window) + window := by
  have hadvance : tally.advance later window =
      { tally with previous := tally.current, current := 0, slot := later / window } := by
    simp [Tally.advance, hstanding.window_eq, hstanding.slot_eq, hslot]
  rw [record_over _ _ _ _ (by rw [hadvance, hstanding.window_eq]), hadvance]
  simp

theorem over_record_after (hstanding : Standing tally now window)
    (hslot : now / window + 2 ≤ later / window) :
    (tally.record later window).2.over limit = true ↔ limit * window < window := by
  have hadvance : tally.advance later window =
      { tally with previous := 0, current := 0, slot := later / window } := by
    simp only [Tally.advance, hstanding.window_eq, hstanding.slot_eq]
    rw [if_neg (by simp), if_neg (by omega), if_pos (by omega)]
  rw [record_over _ _ _ _ (by rw [hadvance, hstanding.window_eq]), hadvance]
  simp

theorem slot_of_offset (slot offset : ℕ) (hoffset : offset < window) :
    (slot * window + offset) / window = slot ∧ (slot * window + offset) % window = offset := by
  constructor
  · rw [add_comm, Nat.add_mul_div_right _ _ (by omega), Nat.div_eq_of_lt hoffset, zero_add]
  · rw [add_comm, Nat.add_mul_mod_self_right, Nat.mod_eq_of_lt hoffset]

/-- Within the window now running, a later request is over until the requests of the
last window that are left fit. -/
theorem over_same_iff (hstanding : Standing tally now window) (hlimit : 1 ≤ limit)
    (hbound : limit ≤ 2 ^ 64 - 1)
    (hover : limit * window < tally.previous * (window - now % window) + tally.current * window)
    (hlater : now % window + wait < window) :
    (tally.record (now + wait) window).2.over limit = true ↔
      ¬ tally.previous * (window - (now % window + wait)) + tally.current * window ≤
        (limit - 1) * window := by
  have hsplit : now + wait = now / window * window + (now % window + wait) := by
    rw [← add_assoc, Nat.div_add_mod']
  obtain ⟨hslot, hmod⟩ := slot_of_offset (now / window) _ hlater
  rw [← hsplit] at hslot hmod
  rw [over_record_same hstanding hslot, hmod, not_le]
  have hroom : limit * window = (limit - 1) * window + window := by
    rw [← Nat.succ_mul, Nat.succ_eq_add_one, Nat.sub_add_cancel hlimit]
  by_cases hfull : tally.current + 1 ≤ 2 ^ 64 - 1
  · rw [min_eq_left hfull, add_mul, one_mul, hroom]
    omega
  · -- the count is as large as it gets, and something is left of the last window
    have hcurrent : tally.current = 2 ^ 64 - 1 := by
      have hle := hstanding.current_le
      omega
    have hleft : 0 < window - (now % window + wait) := by omega
    have hmin : min (tally.current + 1) (2 ^ 64 - 1) = tally.current := by
      rw [hcurrent]
      exact min_eq_right (Nat.le_succ _)
    have hmost : limit * window ≤ tally.current * window := by
      rw [hcurrent]
      exact Nat.mul_le_mul_right window hbound
    clear hcurrent
    rw [hmin]
    refine iff_of_true ?_ (by omega)
    rcases hmost.eq_or_lt with heq | hlt
    · have hprevious : 0 < tally.previous * (window - now % window) := by omega
      have hmore := Nat.mul_pos (Nat.pos_of_mul_pos_right hprevious) hleft
      omega
    · omega

theorem over_next_iff (hstanding : Standing tally now window) (hlimit : 1 ≤ limit)
    (hlater : window ≤ now % window + wait) (hend : now % window + wait < 2 * window) :
    (tally.record (now + wait) window).2.over limit = true ↔
      ¬ tally.current * (window - (now % window + wait - window)) + 0 * window ≤
        (limit - 1) * window := by
  have hsplit : now + wait = (now / window + 1) * window + (now % window + wait - window) := by
    have hdiv := Nat.div_add_mod' now window
    rw [add_mul, one_mul]
    omega
  obtain ⟨hslot, hmod⟩ :=
    slot_of_offset (now / window + 1) (now % window + wait - window)
      (show now % window + wait - window < window by omega)
  rw [← hsplit] at hslot hmod
  have hroom : limit * window = (limit - 1) * window + window := by
    rw [← Nat.succ_mul, Nat.succ_eq_add_one, Nat.sub_add_cancel hlimit]
  rw [over_record_next hstanding hslot, hmod, hroom]
  omega

theorem not_over_after (hstanding : Standing tally now window) (hpos : 0 < window)
    (hlimit : 1 ≤ limit) (hlater : 2 * window ≤ now % window + wait) :
    ¬ (tally.record (now + wait) window).2.over limit = true := by
  have hslot : now / window + 2 ≤ (now + wait) / window := by
    rw [Nat.le_div_iff_mul_le hpos, add_mul]
    have hdiv := Nat.div_add_mod' now window
    omega
  rw [over_record_after hstanding hslot, not_lt]
  exact Nat.le_mul_of_pos_left window hlimit

/-- A request over the limit is followed by others that are, for just as long as the
wait. -/
theorem over_later_iff (hstanding : Standing tally now window) (hpos : 0 < window)
    (hlimit : 1 ≤ limit) (hbound : limit ≤ 2 ^ 64 - 1)
    (hover : limit * window < tally.previous * (window - now % window) + tally.current * window) :
    (tally.record (now + wait) window).2.over limit = true ↔ wait < waitMs tally now limit := by
  have hinto : now % window < window := Nat.mod_lt now hpos
  unfold waitMs
  rw [hstanding.window_eq]
  dsimp only
  rcases lt_or_ge (now % window + wait) window with hsame | hsame
  · rw [over_same_iff hstanding hlimit hbound hover hsame, firstFit_iff hsame]
    cases hfit : firstFit window (limit - 1) tally.previous tally.current with
    | some first =>
        simp only [Option.some.injEq, exists_eq_left']
        omega
    | none =>
        simp only [reduceCtorEq, false_and, exists_false, not_false_eq_true, true_iff]
        split <;> omega
  · rcases lt_or_ge (now % window + wait) (2 * window) with hnext | hnext
    · rw [over_next_iff hstanding hlimit hsame hnext]
      cases hfit : firstFit window (limit - 1) tally.previous tally.current with
      | some first =>
          obtain ⟨hfirst, hroom⟩ := lt_of_firstFit hpos hfit
          have hfits : tally.current * (window - (now % window + wait - window)) ≤
              (limit - 1) * window := Nat.mul_le_mul hroom (Nat.sub_le _ _)
          simp only [zero_mul, add_zero]
          omega
      | none =>
          rw [firstFit_iff (by omega)]
          cases hfit' : firstFit window (limit - 1) tally.current 0 with
          | some first =>
              simp only [Option.some.injEq, exists_eq_left']
              omega
          | none =>
              simp only [reduceCtorEq, false_and, exists_false, not_false_eq_true, true_iff]
              omega
    · refine iff_of_false (not_over_after hstanding hpos hlimit hnext) ?_
      cases hfit : firstFit window (limit - 1) tally.previous tally.current with
      | some first =>
          have hfirst := (lt_of_firstFit hpos hfit).1
          simp only
          omega
      | none =>
          cases hfit' : firstFit window (limit - 1) tally.current 0 with
          | some first =>
              have hfirst := (lt_of_firstFit hpos hfit').1
              simp only
              omega
          | none =>
              simp only
              omega

/-- A client over the limit waits. -/
theorem waitMs_pos (hstanding : Standing tally now window) (hpos : 0 < window)
    (hlimit : 1 ≤ limit) (hbound : limit ≤ 2 ^ 64 - 1)
    (hover : limit * window < tally.previous * (window - now % window) + tally.current * window) :
    0 < waitMs tally now limit := by
  apply (over_later_iff hstanding hpos hlimit hbound hover).mp
  rw [over_same_iff hstanding hlimit hbound hover (Nat.mod_lt now hpos), add_zero, not_le]
  exact (Nat.mul_le_mul_right window (Nat.sub_le limit 1)).trans_lt hover

end Later

section Reachable

/-- The tally a client's requests leave, each at a time and with the window in force. -/
def tallyOf (requests : List (ℕ × ℕ)) : Tally :=
  requests.foldl (fun tally request => (tally.record request.1 request.2).1) ⟨0, 0, 0, 0, 0⟩

/-- Requests one after another, each with a window that lasts. -/
def InOrder (requests : List (ℕ × ℕ)) : Prop :=
  requests.Pairwise (fun earlier later => earlier.1 ≤ later.1) ∧ ∀ request ∈ requests, 0 < request.2

variable {requests : List (ℕ × ℕ)} {tally : Tally} {now window limit : ℕ}

theorem tallyOf_concat (requests : List (ℕ × ℕ)) (now window : ℕ) :
    tallyOf (requests ++ [(now, window)]) = ((tallyOf requests).record now window).1 := by
  rw [tallyOf, List.foldl_append]
  rfl

/-- A request brings a tally that is not ahead of it to its own window. -/
theorem standing_record (hbehind : tally.slot ≤ now / tally.windowMs) :
    Standing (tally.record now window).1 now window where
  window_eq := by
    simp only [Tally.record, Tally.advance]
    grind
  slot_eq := by
    simp only [Tally.record, Tally.advance]
    grind
  current_le := min_le_right _ _

/-- No tally is ahead of the requests to come. -/
theorem slot_tallyOf_le (horder : InOrder requests) (hlast : ∀ request ∈ requests, request.1 ≤ now) :
    (tallyOf requests).slot ≤ now / (tallyOf requests).windowMs := by
  induction requests using List.reverseRecOn generalizing now with
  | nil => exact Nat.zero_le _
  | append_singleton earlier request ih =>
      obtain ⟨hpairwise, hwindows⟩ := horder
      obtain ⟨hearlier, -, hbefore⟩ := List.pairwise_append.mp hpairwise
      have hbehind := ih ⟨hearlier, fun other hother => hwindows other (List.mem_append_left _ hother)⟩
        fun other hother => hbefore other hother request (List.mem_singleton_self request)
      have hstanding :
          Standing ((tallyOf earlier).record request.1 request.2).1 request.1 request.2 :=
        standing_record hbehind
      rw [show request = (request.1, request.2) from rfl, tallyOf_concat, hstanding.slot_eq,
        hstanding.window_eq]
      exact Nat.div_le_div_right (hlast request (List.mem_append_right _ (List.mem_singleton_self _)))

theorem over_iff (hstanding : Standing (tally.record now window).1 now window) :
    (tally.record now window).2.over limit = true ↔
      limit * window < (tally.record now window).1.previous * (window - now % window) +
        (tally.record now window).1.current * window := by
  have hwindow := hstanding.window_eq
  simp only [Tally.record] at hwindow ⊢
  simp only [Count.over, Tally.scaled, hwindow, decide_eq_true_eq]

/-- A client over the limit that sends nothing for some seconds is over it still for
fewer seconds than it was told, and not for as many. -/
theorem retryAfter_exact (requests : List (ℕ × ℕ)) (now window limit seconds : ℕ)
    (horder : InOrder (requests ++ [(now, window)])) (hlimit : 1 ≤ limit)
    (hbound : limit ≤ 2 ^ 64 - 1)
    (hover : ((tallyOf requests).record now window).2.over limit = true) :
    (((tallyOf requests).record now window).1.record (now + 1000 * seconds) window).2.over limit =
        true ↔
      seconds < ((tallyOf requests).record now window).2.retryAfter limit := by
  obtain ⟨hpairwise, hwindows⟩ := horder
  obtain ⟨hearlier, -, hbefore⟩ := List.pairwise_append.mp hpairwise
  have hpos : 0 < window :=
    hwindows (now, window) (List.mem_append_right _ (List.mem_singleton_self _))
  have hbehind := slot_tallyOf_le
    ⟨hearlier, fun other hother => hwindows other (List.mem_append_left _ hother)⟩
    fun other hother => hbefore other hother (now, window) (List.mem_singleton_self _)
  have hstanding : Standing ((tallyOf requests).record now window).1 now window :=
    standing_record hbehind
  have hnow := (over_iff hstanding).mp hover
  have hretry : ((tallyOf requests).record now window).2.retryAfter limit =
      max ((waitMs ((tallyOf requests).record now window).1 now limit + 999) / 1000) 1 := rfl
  have hwait := waitMs_pos hstanding hpos hlimit hbound hnow
  rw [over_later_iff hstanding hpos hlimit hbound hnow, hretry]
  omega

/-- A second request within ten seconds, where one is let through. -/
theorem over_after_eighteen_seconds :
    (((tallyOf [(0, 10000)]).record 1000 10000).1.record (1000 + 1000 * 18) 10000).2.over 1 = true :=
  (retryAfter_exact [(0, 10000)] 1000 10000 1 18 ⟨by decide, by decide⟩ (by decide) (by decide)
    (by decide +kernel)).mpr (by decide +kernel)

end Reachable

end EasyWaf.RateLimit
