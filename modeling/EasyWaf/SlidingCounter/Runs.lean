import EasyWaf.SlidingCounter

/-!
# What a sliding counter holds over a run

Expired events are dropped when their key comes again, the cap drops some that are
still in the window, and a full table drops keys.  A key that was not dropped with an
event in the window is counted as its events since it was last forgotten say, up to the
cap.
-/

namespace EasyWaf.SlidingCounter

open EasyWaf.Core EasyWaf.Guessing

variable {Key : Type}

inductive Operation
  | record
  | count
  | forget
  deriving DecidableEq

/-- A call of one of the counter's functions. -/
structure Call (Key : Type) where
  operation : Operation
  key : Key
  now : ℕ

section Capped

variable {window now later count : ℕ} {times : List ℕ}

/-- The last of times in order are the ones in the window. -/
theorem recent_drop (hsorted : times.Pairwise (· ≤ ·)) :
    recent window later (times.drop (times.length - count)) =
      min count (recent window later times) := by
  induction times with
  | nil => simp [recent]
  | cons first rest ih =>
      obtain ⟨hfirst, hrest⟩ := List.pairwise_cons.mp hsorted
      by_cases hall : rest.length + 1 ≤ count
      · have hle : recent window later (first :: rest) ≤ count := List.countP_le_length.trans hall
        rw [List.length_cons, Nat.sub_eq_zero_of_le hall, List.drop_zero, min_eq_right hle]
      · have hlength : (first :: rest).length - count = rest.length - count + 1 := by
          rw [List.length_cons]
          omega
        rw [hlength, List.drop_succ_cons, ih hrest]
        by_cases hcounts : later - first < window
        · have hwhole : recent window later rest = rest.length := by
            apply List.countP_eq_length.mpr
            intro time htime
            have hle := hfirst time htime
            exact decide_eq_true (by omega)
          have hmore : rest.length ≤ recent window later (first :: rest) := by
            rw [← hwhole]
            exact List.Sublist.countP_le (List.sublist_cons_self first rest)
          rw [hwhole]
          omega
        · rw [recent, recent, List.countP_cons_of_neg (by simpa using hcounts)]

theorem recent_concat_eq (window later now : ℕ) (times : List ℕ) :
    recent window later (times ++ [now]) =
      recent window later times + if later - now < window then 1 else 0 := by
  simp only [recent, List.countP_append, List.countP_singleton, decide_eq_true_eq]

end Capped

section Size

variable {counter : SlidingCounter Key} {now window : ℕ}

theorem size_retain_le (table : Table Key (List ℕ)) (keep : Key → List ℕ → Bool) :
    (table.retain keep).size ≤ table.size :=
  Finset.card_filter_le _ _

/-- A key of the table that is not kept leaves it smaller. -/
theorem size_retain_lt {table : Table Key (List ℕ)} {key : Key} {times : List ℕ}
    (hget : table.get key = some times) (keep : Key → List ℕ → Bool)
    (hdrop : keep key times = false) :
    (table.retain keep).size < table.size := by
  have hmem : key ∈ table.keys := (table.mem_keys key).mpr (by rw [hget]; rfl)
  apply Finset.card_lt_card
  apply Finset.filter_ssubset.mpr
  refine ⟨key, hmem, ?_⟩
  rw [hget, Option.filter_some, hdrop]
  simp

theorem exists_last_of_live {key : Key} {times : List ℕ}
    (hget : (counter.live now window).get key = some times) :
    ∃ last, times.getLast? = some last ∧ now - last < window := by
  have hlive := (Option.filter_eq_some_iff.mp hget).2
  obtain ⟨last, hlast, hcounts⟩ := (Option.any_eq_true _ _).mp hlive
  exact ⟨last, hlast, of_decide_eq_true hcounts⟩

/-- A table with room made in it has a slot to spare. -/
theorem size_makeRoom_lt (now window : ℕ) (hpos : 0 < counter.maxKeys)
    (hsize : counter.events.size ≤ counter.maxKeys) :
    (counter.makeRoom now window).events.size < counter.maxKeys := by
  unfold makeRoom
  dsimp only
  split
  case isTrue hlive => exact hlive
  case isFalse hlive =>
    -- the key that was seen at the cutoff itself goes
    generalize hlatest : Multiset.sort ((counter.live now window).keys.val.filterMap fun key =>
      ((counter.live now window).get key).bind List.getLast?) (· ≤ ·) = latest
    have hmem (last : ℕ) : last ∈ latest ↔ ∃ key ∈ (counter.live now window).keys,
        ((counter.live now window).get key).bind List.getLast? = some last := by
      rw [← hlatest, Multiset.mem_sort, Multiset.mem_filterMap]
      rfl
    have hsome : 0 < (counter.live now window).keys.card := by
      have hge := not_lt.mp hlive
      exact hpos.trans_le hge
    obtain ⟨key, hkey⟩ := Finset.card_pos.mp hsome
    obtain ⟨times, htimes⟩ := Option.isSome_iff_exists.mp ((Table.mem_keys _ key).mp hkey)
    obtain ⟨last, hlast, -⟩ := exists_last_of_live htimes
    have hlength : latest.length / 2 < latest.length := by
      have hlong := List.length_pos_of_mem ((hmem last).mpr ⟨key, hkey, by rw [htimes]; exact hlast⟩)
      omega
    obtain ⟨seen, -, hseen⟩ := (hmem _).mp (List.getElem_mem hlength)
    obtain ⟨its, hits, hcutoff⟩ := Option.bind_eq_some_iff.mp hseen
    have hsmaller := size_retain_lt hits
      (fun _ times => times.getLast?.any fun last =>
        decide (latest.getD (latest.length / 2) 0 < last))
      (by rw [hcutoff, List.getD_eq_getElem _ _ hlength, Option.any_some]
          exact decide_eq_false (lt_irrefl _))
    exact hsmaller.trans_le ((size_retain_le _ _).trans hsize)

end Size

section Steps

variable {counter : SlidingCounter Key} {key other : Key} {now later window keep : ℕ} {log : List ℕ}

/-- What every counter keeps: no more keys than it has slots, each with its times in
order and no more of them than the cap. -/
structure Kept (counter : SlidingCounter Key) (now keep : ℕ) : Prop where
  pos : 0 < counter.maxKeys
  size : counter.events.size ≤ counter.maxKeys
  sorted : ∀ key times, counter.events.get key = some times → times.Pairwise (· ≤ ·)
  past : ∀ key times, counter.events.get key = some times → ∀ time ∈ times, time ≤ now
  few : ∀ key times, counter.events.get key = some times → times.length ≤ keep

/-- Up to the cap, a key is counted as its log says, now and later. -/
def Counts (counter : SlidingCounter Key) (key : Key) (now window keep : ℕ) (log : List ℕ) : Prop :=
  ∀ later, now ≤ later →
    min keep (counter.count key later window) = min keep (recent window later log)

/-- Room made for a key costs another its events while one is in the window. -/
def Drops (counter : SlidingCounter Key) (key other : Key) (now window : ℕ) : Prop :=
  ((counter.live now window).get other).isSome ∧
    ((counter.makeRoomFor key now window).events.get other).isNone

theorem kept_new (maxKeys : ℕ) (now keep : ℕ) : (new maxKeys : SlidingCounter Key).Kept now keep where
  pos := Nat.lt_of_lt_of_le Nat.one_pos (le_max_right _ _)
  size := Nat.zero_le _
  sorted _ _ hget := by contradiction
  past _ _ hget := by contradiction
  few _ _ hget := by contradiction

theorem Kept.mono (hkept : counter.Kept now keep) (hlater : now ≤ later) :
    counter.Kept later keep where
  pos := hkept.pos
  size := hkept.size
  sorted := hkept.sorted
  past key times hget time htime := (hkept.past key times hget time htime).trans hlater
  few := hkept.few

/-- What is there after room is made was there before. -/
theorem get_makeRoomFor {times : List ℕ}
    (hget : (counter.makeRoomFor key now window).events.get other = some times) :
    counter.events.get other = some times := by
  unfold SlidingCounter.makeRoomFor makeRoom at hget
  dsimp only at hget
  split at hget
  · split at hget
    · exact (Option.filter_eq_some_iff.mp hget).1
    · exact (Option.filter_eq_some_iff.mp (Option.filter_eq_some_iff.mp hget).1).1
  · exact hget

theorem maxKeys_makeRoomFor (counter : SlidingCounter Key) (key : Key) (now window : ℕ) :
    (counter.makeRoomFor key now window).maxKeys = counter.maxKeys := by
  unfold SlidingCounter.makeRoomFor makeRoom
  dsimp only
  split
  · split <;> rfl
  · rfl

/-- There is a slot for a key that is not there. -/
theorem Kept.size_makeRoomFor (hkept : counter.Kept now keep) (key : Key) (window : ℕ) :
    (counter.makeRoomFor key now window).events.size ≤ counter.maxKeys ∧
      (counter.events.get key = none →
        (counter.makeRoomFor key now window).events.size < counter.maxKeys) := by
  unfold SlidingCounter.makeRoomFor
  split
  case isTrue hfull =>
    have hroom := size_makeRoom_lt now window hkept.pos hkept.size
    exact ⟨hroom.le, fun _ => hroom⟩
  case isFalse hroom =>
    refine ⟨hkept.size, fun hnone => ?_⟩
    by_contra hfull
    exact hroom ⟨by rw [hnone]; rfl, not_lt.mp hfull⟩

theorem Kept.makeRoomFor (hkept : counter.Kept now keep) (key : Key) (window : ℕ) :
    (counter.makeRoomFor key now window).Kept now keep where
  pos := by
    rw [maxKeys_makeRoomFor]
    exact hkept.pos
  size := by
    rw [maxKeys_makeRoomFor]
    exact (hkept.size_makeRoomFor key window).1
  sorted key times hget := hkept.sorted key times (get_makeRoomFor hget)
  past key times hget := hkept.past key times (get_makeRoomFor hget)
  few key times hget := hkept.few key times (get_makeRoomFor hget)

/-- Making room changes no count of a key it does not drop with an event in the
window. -/
theorem Kept.count_makeRoomFor (hkept : counter.Kept now keep)
    (hdrops : ¬ counter.Drops key other now window) (hlater : now ≤ later) :
    (counter.makeRoomFor key now window).count other later window =
      counter.count other later window := by
  cases hafter : (counter.makeRoomFor key now window).events.get other with
  | some times => rw [count_of_get hafter, count_of_get (get_makeRoomFor hafter)]
  | none =>
      rw [count_of_get_none hafter]
      cases hbefore : counter.events.get other with
      | none => rw [count_of_get_none hbefore]
      | some times =>
          have hgone : ¬ times.getLast?.any (fun last => decide (now - last < window)) := by
            intro hlive
            apply hdrops
            refine ⟨?_, by rw [hafter]; rfl⟩
            rw [SlidingCounter.live, Table.get_retain, hbefore, Option.filter_some, if_pos hlive]
            rfl
          rw [count_of_get hbefore, recent_eq_zero (hkept.sorted other times hbefore) hgone hlater]

end Steps

section Recorded

variable {window keep now later : ℕ} {times : List ℕ}

/-- The times of a key once another event is recorded. -/
def recorded (window keep now : ℕ) (times : List ℕ) : List ℕ :=
  let left := (times.dropWhile fun time => decide (window ≤ now - time)) ++ [now]
  left.drop (left.length - keep)

theorem sorted_left (window : ℕ) (hsorted : times.Pairwise (· ≤ ·)) (hpast : ∀ time ∈ times, time ≤ now) :
    ((times.dropWhile fun time => decide (window ≤ now - time)) ++ [now]).Pairwise (· ≤ ·) ∧
      ∀ time ∈ (times.dropWhile fun time => decide (window ≤ now - time)) ++ [now], time ≤ now := by
  have hleft : ∀ time ∈ times.dropWhile fun time => decide (window ≤ now - time), time ≤ now :=
    fun time htime => hpast time ((List.dropWhile_sublist _).subset htime)
  constructor
  · apply List.pairwise_append.mpr
    exact ⟨hsorted.sublist (List.dropWhile_sublist _), List.pairwise_singleton _ _,
      fun time htime last hlast => (List.mem_singleton.mp hlast) ▸ hleft time htime⟩
  · rw [List.forall_mem_append]
    exact ⟨hleft, by simp⟩

theorem sorted_recorded (window keep : ℕ) (hsorted : times.Pairwise (· ≤ ·)) (hpast : ∀ time ∈ times, time ≤ now) :
    (recorded window keep now times).Pairwise (· ≤ ·) ∧
      ∀ time ∈ recorded window keep now times, time ≤ now := by
  obtain ⟨hpairwise, hle⟩ := sorted_left window hsorted hpast
  exact ⟨hpairwise.sublist (List.drop_sublist _ _),
    fun time htime => hle time (List.mem_of_mem_drop htime)⟩

theorem length_recorded (hsorted : times.Pairwise (· ≤ ·)) :
    (recorded window keep now times).length = min keep (recent window now times + 1) := by
  have hlength : ((times.dropWhile fun time => decide (window ≤ now - time)) ++ [now]).length =
      recent window now times + 1 := by
    rw [List.length_append, length_dropWhile hsorted]
    rfl
  rw [recorded, List.length_drop, hlength]
  omega

/-- The cap leaves the latest events, and what expired does not count. -/
theorem recent_recorded (hsorted : times.Pairwise (· ≤ ·)) (hpast : ∀ time ∈ times, time ≤ now)
    (hlater : now ≤ later) :
    recent window later (recorded window keep now times) =
      min keep (recent window later times + if later - now < window then 1 else 0) := by
  rw [recorded, recent_drop (sorted_left window hsorted hpast).1, recent_concat_eq,
    recent_dropWhile hlater]

end Recorded

section Calls

variable [DecidableEq Key] {counter : SlidingCounter Key} {key other : Key}
  {now later window keep : ℕ} {log : List ℕ}

theorem record_eq (counter : SlidingCounter Key) (key : Key) (now window : ℕ) (hkeep : 1 ≤ keep) :
    counter.record key now window keep =
      ({ counter.makeRoomFor key now window with
        events := (counter.makeRoomFor key now window).events.insert key
          (recorded window keep now
            (((counter.makeRoomFor key now window).events.get key).getD [])) },
        (recorded window keep now
          (((counter.makeRoomFor key now window).events.get key).getD [])).length) := by
  rw [SlidingCounter.record, max_eq_left hkeep]
  rfl

omit [DecidableEq Key] in
theorem Kept.timesOf (hkept : counter.Kept now keep) (key : Key) :
    ((counter.events.get key).getD []).Pairwise (· ≤ ·) ∧
      ∀ time ∈ (counter.events.get key).getD [], time ≤ now := by
  cases hget : counter.events.get key with
  | none => exact ⟨List.Pairwise.nil, List.forall_mem_nil _⟩
  | some times => exact ⟨hkept.sorted key times hget, hkept.past key times hget⟩

omit [DecidableEq Key] in
theorem recent_timesOf (counter : SlidingCounter Key) (key : Key) (later window : ℕ) :
    recent window later ((counter.events.get key).getD []) = counter.count key later window := by
  rw [SlidingCounter.count]
  cases counter.events.get key <;> rfl

omit [DecidableEq Key] in
/-- A key that is there needs no room. -/
theorem makeRoomFor_of_get {times : List ℕ} (hget : counter.events.get key = some times) :
    counter.makeRoomFor key now window = counter := by
  rw [SlidingCounter.makeRoomFor, if_neg]
  rw [hget]
  rintro ⟨hnone, -⟩
  contradiction

omit [DecidableEq Key] in
/-- Room made for a key costs the key itself nothing. -/
theorem not_drops_self : ¬ counter.Drops key key now window := by
  rintro ⟨hlive, hgone⟩
  rw [SlidingCounter.live, Table.get_retain] at hlive
  obtain ⟨times, htimes⟩ := Option.isSome_iff_exists.mp hlive
  have hget := (Option.filter_eq_some_iff.mp htimes).1
  rw [makeRoomFor_of_get hget, hget] at hgone
  contradiction

theorem Kept.record (hkept : counter.Kept now keep) (hkeep : 1 ≤ keep) (key : Key) (window : ℕ) :
    (counter.record key now window keep).1.Kept now keep := by
  have hroom := hkept.makeRoomFor key window
  obtain ⟨hsorted, hpast⟩ := hroom.timesOf key
  obtain ⟨hsorted', hpast'⟩ := sorted_recorded window keep hsorted hpast
  rw [record_eq counter key now window hkeep]
  have hget {other : Key} {times : List ℕ}
      (hget : ((counter.makeRoomFor key now window).events.insert key
        (recorded window keep now
          (((counter.makeRoomFor key now window).events.get key).getD []))).get other = some times) :
      times = recorded window keep now
          (((counter.makeRoomFor key now window).events.get key).getD []) ∨
        (counter.makeRoomFor key now window).events.get other = some times := by
    by_cases hother : other = key
    · subst hother
      rw [Table.get_insert_self] at hget
      exact Or.inl (Option.some.inj hget).symm
    · rw [Table.get_insert_of_ne _ hother] at hget
      exact Or.inr hget
  exact {
    pos := hroom.pos
    size := by
      cases hthere : (counter.makeRoomFor key now window).events.get key with
      | some times =>
          have hmem : key ∈ (counter.makeRoomFor key now window).events.keys :=
            (Table.mem_keys _ key).mpr (by rw [hthere]; rfl)
          exact (congrArg Finset.card (Finset.insert_eq_of_mem hmem)).trans_le hroom.size
      | none =>
          have hnone : counter.events.get key = none := by
            by_contra hsome
            obtain ⟨times, htimes⟩ := Option.ne_none_iff_exists'.mp hsome
            rw [makeRoomFor_of_get htimes, htimes] at hthere
            contradiction
          have hslot := (hkept.size_makeRoomFor key window).2 hnone
          rw [← maxKeys_makeRoomFor counter key now window] at hslot
          exact (Finset.card_insert_le _ _).trans hslot
    sorted := fun other times hother => by
      rcases hget hother with rfl | hother
      · exact hsorted'
      · exact hroom.sorted other times hother
    past := fun other times hother => by
      rcases hget hother with rfl | hother
      · exact hpast'
      · exact hroom.past other times hother
    few := fun other times hother => by
      rcases hget hother with rfl | hother
      · rw [length_recorded hsorted]
        exact min_le_left _ _
      · exact hroom.few other times hother }

/-- A record gives the number of events in the window, up to the cap. -/
theorem Counts.record (hkept : counter.Kept now keep) (hkeep : 1 ≤ keep) (hwindow : 0 < window)
    (hcounts : counter.Counts key now window keep log) :
    (counter.record key now window keep).2 = min keep (recent window now (log ++ [now])) ∧
      (counter.record key now window keep).1.Counts key now window keep (log ++ [now]) := by
  obtain ⟨hsorted, hpast⟩ := (hkept.makeRoomFor key window).timesOf key
  have hrecent (later : ℕ) (hlater : now ≤ later) :
      recent window later (((counter.makeRoomFor key now window).events.get key).getD []) =
        counter.count key later window := by
    rw [recent_timesOf, hkept.count_makeRoomFor not_drops_self hlater]
  rw [record_eq counter key now window hkeep]
  constructor
  · have hnow := hcounts now (le_refl now)
    dsimp only
    rw [length_recorded hsorted, hrecent now (le_refl now), recent_concat_eq,
      if_pos (show now - now < window by omega)]
    omega
  · intro later hlater
    have hboth := hcounts later hlater
    rw [count_of_get (Table.get_insert_self ..), recent_recorded hsorted hpast hlater,
      hrecent later hlater, recent_concat_eq]
    omega

theorem Counts.record_other (hkept : counter.Kept now keep) (hkeep : 1 ≤ keep)
    (hcounts : counter.Counts other now window keep log)
    (hdrops : ¬ counter.Drops key other now window) (hother : other ≠ key) :
    (counter.record key now window keep).1.Counts other now window keep log := by
  intro later hlater
  rw [← hcounts later hlater, ← hkept.count_makeRoomFor hdrops hlater,
    record_eq counter key now window hkeep, SlidingCounter.count, Table.get_insert_of_ne _ hother,
    SlidingCounter.count]

theorem get_of_forget {times : List ℕ} (hget : (counter.forget key).events.get other = some times) :
    counter.events.get other = some times := by
  by_cases hother : other = key
  · subst hother
    rw [SlidingCounter.forget, Table.get_erase_self] at hget
    contradiction
  · rwa [SlidingCounter.forget, Table.get_erase_of_ne _ hother] at hget

theorem Kept.forget (hkept : counter.Kept now keep) (key : Key) : (counter.forget key).Kept now keep where
  pos := hkept.pos
  size := (Finset.card_le_card (Finset.erase_subset _ _)).trans hkept.size
  sorted other times hget := hkept.sorted other times (get_of_forget hget)
  past other times hget := hkept.past other times (get_of_forget hget)
  few other times hget := hkept.few other times (get_of_forget hget)

theorem counts_forget_self (counter : SlidingCounter Key) (key : Key) (now window keep : ℕ) :
    (counter.forget key).Counts key now window keep [] := fun later _ => by
  rw [count_of_get_none (Table.get_erase_self _)]
  rfl

theorem Counts.forget_other (hcounts : counter.Counts other now window keep log)
    (hother : other ≠ key) : (counter.forget key).Counts other now window keep log := by
  intro later hlater
  rw [← hcounts later hlater, SlidingCounter.count, SlidingCounter.count, SlidingCounter.forget,
    Table.get_erase_of_ne _ hother]

end Calls

section Rooms

variable {counter : SlidingCounter Key} {key other : Key} {now window keep : ℕ} {times : List ℕ}

/-- Of times in order, one is in the window when the last is. -/
theorem any_last_iff (hsorted : times.Pairwise (· ≤ ·)) :
    times.getLast?.any (fun last => decide (now - last < window)) = true ↔
      ∃ time ∈ times, now - time < window := by
  constructor
  · intro hany
    obtain ⟨last, hlast, hcounts⟩ := (Option.any_eq_true _ _).mp hany
    exact ⟨last, List.mem_of_getLast? hlast, of_decide_eq_true hcounts⟩
  · rintro ⟨time, htime, hcounts⟩
    have hne := List.ne_nil_of_mem htime
    have hle : time ≤ times.getLast hne := hsorted.rel_getLast htime
    rw [List.getLast?_eq_some_getLast hne, Option.any_some, decide_eq_true_eq]
    omega

/-- A key that still has an event in the window is dropped only where every slot is
taken by such keys. -/
theorem Kept.dropped (hkept : counter.Kept now keep) (hget : counter.events.get key = some times)
    (hcounts : ∃ time ∈ times, now - time < window)
    (hdropped : (counter.makeRoom now window).events.get key = none) :
    counter.events.size = counter.maxKeys ∧ ∀ other its, counter.events.get other = some its →
      ∃ time ∈ its, now - time < window := by
  have hall : counter.maxKeys ≤ (counter.live now window).size := by
    by_contra hroom
    rw [makeRoom] at hdropped
    dsimp only at hdropped
    rw [if_pos (not_le.mp hroom), SlidingCounter.live, Table.get_retain, hget, Option.filter_some,
      if_pos ((any_last_iff (hkept.sorted key times hget)).mpr hcounts)] at hdropped
    contradiction
  have hlive : (counter.live now window).size ≤ counter.events.size := size_retain_le _ _
  refine ⟨le_antisymm hkept.size (hall.trans hlive), fun other its hother => ?_⟩
  have hkeys : (counter.live now window).keys = counter.events.keys :=
    Finset.eq_of_subset_of_card_le (Finset.filter_subset _ _) (hkept.size.trans hall)
  have hmem : other ∈ (counter.live now window).keys := by
    rw [hkeys, Table.mem_keys, hother]
    rfl
  obtain ⟨found, hfound⟩ := Option.isSome_iff_exists.mp ((Table.mem_keys _ other).mp hmem)
  obtain ⟨hsame, hlast⟩ := Option.filter_eq_some_iff.mp hfound
  rw [hother] at hsame
  obtain rfl := Option.some.inj hsame
  exact (any_last_iff (hkept.sorted other its hother)).mp hlast

end Rooms

section Runs

variable [DecidableEq Key] (window keep maxKeys : ℕ)

/-- What a call leaves of the counter. -/
def apply (counter : SlidingCounter Key) (call : Call Key) : SlidingCounter Key :=
  match call.operation with
  | .record => (counter.record call.key call.now window keep).1
  | .count => counter
  | .forget => counter.forget call.key

/-- A new counter after some calls. -/
def after (calls : List (Call Key)) : SlidingCounter Key :=
  calls.foldl (apply window keep) (new maxKeys)

/-- The events of a key since it was last forgotten. -/
def logOf (calls : List (Call Key)) (key : Key) : List ℕ :=
  calls.foldl
    (fun log call =>
      if call.key = key then
        match call.operation with
        | .record => log ++ [call.now]
        | .count => log
        | .forget => []
      else log)
    []

/-- A key was dropped with an event in the window. -/
def DroppedLive (calls : List (Call Key)) (key : Key) : Prop :=
  ∃ earlier call later, calls = earlier ++ call :: later ∧ call.operation = .record ∧
    (after window keep maxKeys earlier).Drops call.key key call.now window

variable {window keep maxKeys} {calls : List (Call Key)} {call : Call Key} {key : Key}
  {counter : SlidingCounter Key} {now : ℕ} {log : List ℕ}

theorem Kept.apply (hkept : counter.Kept call.now keep) (hkeep : 1 ≤ keep) :
    (apply window keep counter call).Kept call.now keep := by
  unfold SlidingCounter.apply
  split
  · exact hkept.record hkeep call.key window
  · exact hkept
  · exact hkept.forget call.key

/-- One call more is counted, for a key it does not drop with an event in the window. -/
theorem Counts.apply (hkept : counter.Kept call.now keep) (hkeep : 1 ≤ keep)
    (hwindow : 0 < window) (hcounts : counter.Counts key call.now window keep log)
    (hdrops : call.operation = .record → ¬ counter.Drops call.key key call.now window) :
    (SlidingCounter.apply window keep counter call).Counts key call.now window keep
      (if call.key = key then
        match call.operation with
        | .record => log ++ [call.now]
        | .count => log
        | .forget => []
      else log) := by
  unfold SlidingCounter.apply
  cases hoperation : call.operation with
  | record =>
      by_cases hkey : call.key = key
      · rw [if_pos hkey]
        subst hkey
        exact (hcounts.record hkept hkeep hwindow).2
      · rw [if_neg hkey]
        exact hcounts.record_other hkept hkeep (hdrops hoperation) (Ne.symm hkey)
  | count => simpa using hcounts
  | forget =>
      by_cases hkey : call.key = key
      · rw [if_pos hkey]
        subst hkey
        exact counts_forget_self counter call.key call.now window keep
      · rw [if_neg hkey]
        exact hcounts.forget_other (Ne.symm hkey)

omit [DecidableEq Key] in
theorem Counts.mono {later : ℕ} (hcounts : counter.Counts key now window keep log)
    (hlater : now ≤ later) : counter.Counts key later window keep log :=
  fun time htime => hcounts time (hlater.trans htime)

theorem after_concat (calls : List (Call Key)) (call : Call Key) :
    after window keep maxKeys (calls ++ [call]) =
      apply window keep (after window keep maxKeys calls) call := by
  rw [after, List.foldl_append]
  rfl

theorem DroppedLive.concat (hdropped : DroppedLive window keep maxKeys calls key) (call : Call Key) :
    DroppedLive window keep maxKeys (calls ++ [call]) key := by
  obtain ⟨earlier, dropping, later, rfl, hrecord, hdrops⟩ := hdropped
  exact ⟨earlier, dropping, later ++ [call], by simp, hrecord, hdrops⟩

theorem maxKeys_apply (window keep : ℕ) (counter : SlidingCounter Key) (call : Call Key) :
    (apply window keep counter call).maxKeys = counter.maxKeys := by
  unfold SlidingCounter.apply
  split
  · exact maxKeys_makeRoomFor counter call.key call.now window
  · rfl
  · rfl

theorem maxKeys_after (window keep maxKeys : ℕ) (calls : List (Call Key)) :
    (after window keep maxKeys calls).maxKeys = max maxKeys 1 := by
  induction calls using List.reverseRecOn with
  | nil => rfl
  | append_singleton earlier call ih => rw [after_concat, maxKeys_apply, ih]

/-- What holds of a counter after any calls. -/
theorem kept_after (maxKeys : ℕ) (hkeep : 1 ≤ keep) (hwindow : 0 < window)
    (horder : calls.Pairwise fun earlier later => earlier.now ≤ later.now)
    (hnow : ∀ call ∈ calls, call.now ≤ now) :
    (after window keep maxKeys calls).Kept now keep ∧
      ∀ key, ¬ DroppedLive window keep maxKeys calls key →
        (after window keep maxKeys calls).Counts key now window keep (logOf calls key) := by
  induction calls using List.reverseRecOn generalizing now with
  | nil => exact ⟨kept_new _ _ _, fun key _ later _ => rfl⟩
  | append_singleton earlier call ih =>
      obtain ⟨hearlier, -, hbefore⟩ := List.pairwise_append.mp horder
      have hlast : ∀ other ∈ earlier, other.now ≤ call.now := fun other hother =>
        hbefore other hother call (List.mem_singleton_self call)
      obtain ⟨hkept, hcounts⟩ := ih hearlier hlast
      have hcall : call.now ≤ now := hnow call (by simp)
      rw [after_concat]
      refine ⟨(hkept.apply hkeep).mono hcall, fun key hdropped => ?_⟩
      have hcounted := hcounts key fun hdropped' => hdropped (hdropped'.concat call)
      rw [logOf, List.foldl_append]
      refine (hcounted.apply hkept hkeep hwindow fun hrecord hdrops => ?_).mono hcall
      exact hdropped ⟨earlier, call, [], rfl, hrecord, hdrops⟩

/-- A counter never grows past its bounds, makes room with what no longer counts where
it can, and counts a key that kept its place exactly, up to the cap. -/
theorem sliding_counter_exact (window keep maxKeys : ℕ) (calls : List (Call Key)) (now : ℕ)
    (hkeep : 1 ≤ keep) (hwindow : 0 < window)
    (horder : calls.Pairwise fun earlier later => earlier.now ≤ later.now)
    (hnow : ∀ call ∈ calls, call.now ≤ now) :
    ((after window keep maxKeys calls).events.size ≤ max maxKeys 1 ∧
      ∀ key times, (after window keep maxKeys calls).events.get key = some times →
        times.length ≤ keep) ∧
    (∀ key times, (after window keep maxKeys calls).events.get key = some times →
      (∃ time ∈ times, now - time < window) →
      ((after window keep maxKeys calls).makeRoom now window).events.get key = none →
        (after window keep maxKeys calls).events.size = max maxKeys 1 ∧
        ∀ other its, (after window keep maxKeys calls).events.get other = some its →
          ∃ time ∈ its, now - time < window) ∧
    ∀ key, ¬ DroppedLive window keep maxKeys calls key →
      ((after window keep maxKeys calls).record key now window keep).2 =
        min keep (recent window now (logOf calls key ++ [now])) := by
  obtain ⟨hkept, hcounts⟩ := kept_after maxKeys hkeep hwindow horder hnow
  have hmax := maxKeys_after window keep maxKeys calls
  refine ⟨⟨hmax ▸ hkept.size, hkept.few⟩, fun key times hget hcount hdropped => ?_,
    fun key hdropped => ((hcounts key hdropped).record hkept hkeep hwindow).1⟩
  rw [← hmax]
  exact hkept.dropped hget hcount hdropped

/-- A key's own calls never drop it. -/
theorem not_droppedLive_of_own (hown : ∀ call ∈ calls, call.key = key) :
    ¬ DroppedLive window keep maxKeys calls key := by
  rintro ⟨earlier, call, later, rfl, -, hdrops⟩
  rw [hown call (by simp)] at hdrops
  exact not_drops_self hdrops

/-- Three events of one key, two of them remembered. -/
theorem recorded_of_three :
    ((after 10 2 4 [⟨.record, 7, 0⟩, ⟨.record, 7, 3⟩, ⟨.count, 7, 4⟩]).record 7 5 10 2).2 = 2 :=
  (sliding_counter_exact 10 2 4 [⟨.record, 7, 0⟩, ⟨.record, 7, 3⟩, ⟨.count, 7, 4⟩] 5 (by decide)
    (by decide) (by decide) (by decide)).2.2 7 (not_droppedLive_of_own (by decide))

end Runs

end EasyWaf.SlidingCounter
