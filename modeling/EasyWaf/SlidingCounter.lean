import EasyWaf.Core.Guessing
import EasyWaf.Core.HashMap

/-!
# Counting events in a sliding window

`SlidingCounter` remembers when the events of each key were.  It counts as many
as there were where it had room for every key it counted, and no key had more
events in a window than it was told to keep.
-/

namespace EasyWaf

open EasyWaf.Core Guessing

structure SlidingCounter (Key : Type) where
  maxKeys : ℕ
  events : Table Key (List ℕ)

namespace SlidingCounter

variable {Key : Type}

def new (maxKeys : ℕ) : SlidingCounter Key where
  maxKeys := max maxKeys 1
  events := .empty

variable (counter : SlidingCounter Key) (key : Key) (now window : ℕ)

def count : ℕ :=
  match counter.events.get key with
  | none => 0
  | some times => recent window now times

/-- The keys with an event left in the window. -/
def live : Table Key (List ℕ) :=
  counter.events.retain fun _ times => times.getLast?.any fun last => now - last < window

/-- `make_room`: keys with nothing left in the window go, and if that frees
nothing, the half seen longest ago. -/
def makeRoom : SlidingCounter Key :=
  let live := counter.live now window
  if live.size < counter.maxKeys then { counter with events := live }
  else
    let latest := (live.keys.val.filterMap fun key => (live.get key).bind List.getLast?).sort (· ≤ ·)
    let cutoff := latest.getD (latest.length / 2) 0
    { counter with events := live.retain fun _ times => times.getLast?.any fun last => cutoff < last }

/-- A key that is not there yet is made room for when the table is full. -/
def makeRoomFor : SlidingCounter Key :=
  if (counter.events.get key).isNone ∧ counter.maxKeys ≤ counter.events.size then
    counter.makeRoom now window
  else counter

/-- The keys in use leave room for this one. -/
def HasRoom : Prop :=
  (counter.events.get key).isSome ∨ counter.events.size < counter.maxKeys ∨
    (counter.live now window).size < counter.maxKeys

instance : Decidable (counter.HasRoom key now window) :=
  inferInstanceAs (Decidable (_ ∨ _ ∨ _))

/-- The counter counts what the log holds, now and later. -/
structure Tracks (counter : SlidingCounter Key) (now window : ℕ) (log : Key → List ℕ) : Prop where
  sorted : ∀ key times, counter.events.get key = some times → times.Pairwise (· ≤ ·)
  past : ∀ key times, counter.events.get key = some times → ∀ time ∈ times, time ≤ now
  count : ∀ key later, now ≤ later →
    counter.count key later window = recent window later (log key)

variable {counter key now window} {log : Key → List ℕ} {later : ℕ}

theorem tracks_new (maxKeys : ℕ) : (new maxKeys : SlidingCounter Key).Tracks now window fun _ => [] where
  sorted _ _ hget := by contradiction
  past _ _ hget := by contradiction
  count _ _ _ := rfl

theorem Tracks.mono (htracks : counter.Tracks now window log) (hlater : now ≤ later) :
    counter.Tracks later window log where
  sorted := htracks.sorted
  past key times hget time htime := (htracks.past key times hget time htime).trans hlater
  count key later' hlater' := htracks.count key later' (hlater.trans hlater')

theorem count_of_get {times : List ℕ} (hget : counter.events.get key = some times) :
    counter.count key later window = recent window later times := by
  rw [SlidingCounter.count, hget]

theorem count_of_get_none (hget : counter.events.get key = none) :
    counter.count key later window = 0 := by
  rw [SlidingCounter.count, hget]

/-- Of times in order whose last is out of the window, none is in it. -/
theorem recent_eq_zero {times : List ℕ} (hsorted : times.Pairwise (· ≤ ·))
    (hexpired : ¬ times.getLast?.any (fun last => decide (now - last < window)))
    (hlater : now ≤ later) : recent window later times = 0 := by
  refine List.countP_eq_zero.mpr fun time htime => ?_
  have hne : times ≠ [] := List.ne_nil_of_mem htime
  have hlast : time ≤ times.getLast hne := hsorted.rel_getLast htime
  rw [List.getLast?_eq_some_getLast hne, Option.any_some, decide_eq_true_eq] at hexpired
  simp only [decide_eq_true_eq]
  omega

/-- Dropping the keys with nothing left in the window changes no count. -/
theorem Tracks.live (htracks : counter.Tracks now window log) :
    SlidingCounter.Tracks { counter with events := counter.live now window } now window log where
  sorted key times hget := htracks.sorted key times (Option.filter_eq_some_iff.mp hget).1
  past key times hget := htracks.past key times (Option.filter_eq_some_iff.mp hget).1
  count key later hlater := by
    rw [← htracks.count key later hlater]
    cases hget : counter.events.get key with
    | none =>
        rw [count_of_get_none hget]
        refine count_of_get_none ?_
        rw [SlidingCounter.live, Table.get_retain, hget, Option.filter_none]
    | some times =>
        rw [count_of_get hget]
        by_cases hlive : times.getLast?.any fun last => decide (now - last < window)
        · refine count_of_get ?_
          rw [SlidingCounter.live, Table.get_retain, hget, Option.filter_some, if_pos hlive]
        · rw [recent_eq_zero (htracks.sorted key times hget) hlive hlater]
          refine count_of_get_none ?_
          rw [SlidingCounter.live, Table.get_retain, hget, Option.filter_some, if_neg hlive]

/-- Room is made without an event that counts. -/
theorem Tracks.makeRoomFor (htracks : counter.Tracks now window log)
    (hroom : counter.HasRoom key now window) :
    (counter.makeRoomFor key now window).Tracks now window log := by
  rw [SlidingCounter.makeRoomFor]
  split
  · rename_i hfull
    have hlive : (counter.live now window).size < counter.maxKeys := by
      rcases hroom with hsome | hsize | hlive
      · simp [Option.isNone_iff_eq_none.mp hfull.1] at hsome
      · exact absurd hfull.2 (by omega)
      · exact hlive
    rw [makeRoom]
    simp only [hlive, if_true]
    exact htracks.live
  · exact htracks

section Times

variable {times : List ℕ}

/-- What the expired events at the front were does not count, now or later. -/
theorem recent_dropWhile (hlater : now ≤ later) :
    recent window later (times.dropWhile fun time => decide (window ≤ now - time)) =
      recent window later times := by
  have hsplit := congrArg (recent window later)
    (List.takeWhile_append_dropWhile (p := fun time => decide (window ≤ now - time)) (l := times))
  rw [recent, List.countP_append, List.countP_eq_zero.mpr, Nat.zero_add] at hsplit
  · exact hsplit
  · intro time htime
    have hexpired := List.mem_takeWhile_imp htime
    simp only [decide_eq_true_eq] at hexpired ⊢
    omega

/-- What is left of times in order is all in the window. -/
theorem length_dropWhile (hsorted : times.Pairwise (· ≤ ·)) :
    (times.dropWhile fun time => decide (window ≤ now - time)).length =
      recent window now times := by
  rw [← recent_dropWhile le_rfl, recent, eq_comm, List.countP_eq_length]
  intro time htime
  cases hdrop : times.dropWhile fun time => decide (window ≤ now - time) with
  | nil => rw [hdrop] at htime; contradiction
  | cons first rest =>
      have hfirst := List.head_dropWhile_not (fun time => decide (window ≤ now - time))
        (l := times) (by simp [hdrop])
      have hle : first ≤ time := by
        have hrest : (first :: rest).Pairwise (· ≤ ·) :=
          hdrop ▸ hsorted.sublist (List.dropWhile_sublist _)
        rw [hdrop] at htime
        rcases List.mem_cons.mp htime with rfl | hmem
        · exact le_rfl
        · exact (List.pairwise_cons.mp hrest).1 time hmem
      simp only [hdrop, List.head_cons, decide_eq_false_iff_not] at hfirst
      simp only [decide_eq_true_eq]
      omega

end Times

section Record

variable [DecidableEq Key]

section Operations

variable (counter key now window)

/-- An event of `key`, of which at most `keep` are remembered; and how many there
are in the window. -/
def record (keep : ℕ) : SlidingCounter Key × ℕ :=
  let counter := counter.makeRoomFor key now window
  let times := ((counter.events.get key).getD []).dropWhile fun time => window ≤ now - time
  let times := times ++ [now]
  let times := times.drop (times.length - max keep 1)
  ({ counter with events := counter.events.insert key times }, times.length)

def forget : SlidingCounter Key := { counter with events := counter.events.erase key }

end Operations

variable {keep : ℕ} {times : List ℕ}

/-- A counter with one key's times replaced. -/
theorem Tracks.insert (htracks : counter.Tracks now window log)
    (hsorted : times.Pairwise (· ≤ ·)) (hpast : ∀ time ∈ times, time ≤ now)
    {times' : List ℕ}
    (hcount : ∀ later, now ≤ later → recent window later times = recent window later times') :
    Tracks { counter with events := counter.events.insert key times } now window
      (Function.update log key times') where
  sorted other found hget := by
    by_cases hother : other = key
    · subst hother
      obtain rfl : times = found := by simpa using hget
      exact hsorted
    · rw [Table.get_insert_of_ne _ hother] at hget
      exact htracks.sorted other found hget
  past other found hget := by
    by_cases hother : other = key
    · subst hother
      obtain rfl : times = found := by simpa using hget
      exact hpast
    · rw [Table.get_insert_of_ne _ hother] at hget
      exact htracks.past other found hget
  count other later hlater := by
    by_cases hother : other = key
    · subst hother
      rw [Function.update_self, ← hcount later hlater]
      exact count_of_get (Table.get_insert_self ..)
    · rw [Function.update_of_ne hother, ← htracks.count other later hlater,
        SlidingCounter.count, SlidingCounter.count, Table.get_insert_of_ne _ hother]

omit [DecidableEq Key] in
/-- The times of a key, none where there is no entry. -/
theorem Tracks.timesOf (htracks : counter.Tracks now window log) (key : Key) :
    ((counter.events.get key).getD []).Pairwise (· ≤ ·) ∧
      (∀ time ∈ (counter.events.get key).getD [], time ≤ now) ∧
      ∀ later, now ≤ later →
        recent window later ((counter.events.get key).getD []) = recent window later (log key) := by
  have hcount := htracks.count key
  simp only [SlidingCounter.count] at hcount
  cases hget : counter.events.get key with
  | none =>
      rw [hget] at hcount
      exact ⟨List.Pairwise.nil, List.forall_mem_nil _, hcount⟩
  | some found =>
      rw [hget] at hcount
      exact ⟨htracks.sorted key found hget, htracks.past key found hget, hcount⟩

/-- What is left of a key's times when another comes that is not one too many. -/
theorem Tracks.record_eq (htracks : counter.Tracks now window log)
    (hroom : counter.HasRoom key now window) (hkeep : counter.count key now window < keep) :
    let left := ((((counter.makeRoomFor key now window).events.get key).getD []).dropWhile
      fun time => decide (window ≤ now - time)) ++ [now]
    counter.record key now window keep =
        ({ counter.makeRoomFor key now window with
          events := (counter.makeRoomFor key now window).events.insert key left }, left.length) ∧
      left.length = counter.count key now window + 1 := by
  obtain ⟨hsorted, -, hcount⟩ := (htracks.makeRoomFor hroom).timesOf key
  intro left
  have hlength : left.length = counter.count key now window + 1 := by
    rw [List.length_append, length_dropWhile hsorted, hcount now le_rfl,
      htracks.count key now le_rfl]
    rfl
  have hleft : left.drop (left.length - max keep 1) = left := by
    have hle : left.length ≤ keep := by rw [hlength]; exact hkeep
    rw [Nat.sub_eq_zero_of_le (hle.trans (le_max_left _ _)), List.drop_zero]
  constructor
  · exact congrArg (fun times : List ℕ => (SlidingCounter.mk (counter.makeRoomFor key now window).maxKeys
      ((counter.makeRoomFor key now window).events.insert key times), times.length)) hleft
  · exact hlength

/-- An event that is not one too many is counted with all there were. -/
theorem Tracks.record (htracks : counter.Tracks now window log)
    (hroom : counter.HasRoom key now window) (hkeep : counter.count key now window < keep) :
    (counter.record key now window keep).1.Tracks now window
      (Function.update log key (log key ++ [now])) := by
  have hroomed := htracks.makeRoomFor hroom
  obtain ⟨hsorted, hpast, hcount⟩ := hroomed.timesOf key
  have hdropped : ∀ time ∈ (((counter.makeRoomFor key now window).events.get key).getD []).dropWhile
      fun time => decide (window ≤ now - time), time ≤ now :=
    fun time htime => hpast time ((List.dropWhile_sublist _).subset htime)
  rw [(htracks.record_eq hroom hkeep).1]
  refine hroomed.insert ?_ ?_ fun later hlater => ?_
  · refine List.pairwise_append.mpr
      ⟨hsorted.sublist (List.dropWhile_sublist _), List.pairwise_singleton _ _, ?_⟩
    intro time htime last hlast
    exact (List.mem_singleton.mp hlast) ▸ hdropped time htime
  · rw [List.forall_mem_append]
    exact ⟨hdropped, by simp⟩
  · have hboth := hcount later hlater
    rw [← recent_dropWhile hlater] at hboth
    rw [recent, recent, List.countP_append, List.countP_append]
    exact congrArg (· + _) hboth

/-- Nothing of a key is left to count. -/
theorem Tracks.forget (htracks : counter.Tracks now window log) (key : Key) :
    (counter.forget key).Tracks now window (Function.update log key []) where
  sorted other found hget := by
    by_cases hother : other = key
    · subst hother
      simp [SlidingCounter.forget] at hget
    · rw [SlidingCounter.forget, Table.get_erase_of_ne _ hother] at hget
      exact htracks.sorted other found hget
  past other found hget := by
    by_cases hother : other = key
    · subst hother
      simp [SlidingCounter.forget] at hget
    · rw [SlidingCounter.forget, Table.get_erase_of_ne _ hother] at hget
      exact htracks.past other found hget
  count other later hlater := by
    by_cases hother : other = key
    · subst hother
      rw [Function.update_self, count_of_get_none (Table.get_erase_self _)]
      rfl
    · rw [Function.update_of_ne hother, ← htracks.count other later hlater,
        SlidingCounter.count, SlidingCounter.count, SlidingCounter.forget,
        Table.get_erase_of_ne _ hother]

end Record

section Guarding

variable {Counter Attempt : Type} [DecidableEq Attempt] [DecidableEq Key]
variable {state : State Counter Attempt} {attempt : Attempt} {limit : ℕ}

/-- The counter counts every failure under its key, and those in flight do not make
them too many. -/
structure Guards (counter : SlidingCounter Key) (key : Attempt → Key) (window limit : ℕ)
    (state : State Counter Attempt) : Prop where
  tracks : counter.Tracks state.now window fun value => state.failedAt key value
  within : ∀ value, state.pending key value + counter.count value state.now window ≤ limit

variable {key : Attempt → Key}

omit [DecidableEq Attempt] in
theorem guards_new (maxKeys : ℕ) (initial : Counter) :
    (new maxKeys : SlidingCounter Key).Guards key window limit
      (State.initial initial : State Counter Attempt) where
  tracks := tracks_new maxKeys
  within _ := Nat.zero_le _

omit [DecidableEq Attempt] in
theorem Guards.wait (hguards : counter.Guards key window limit state) (time : ℕ) :
    counter.Guards key window limit { state with now := state.now + time } where
  tracks := hguards.tracks.mono (Nat.le_add_right _ _)
  within value := by
    refine le_trans (Nat.add_le_add_left ?_ _) (hguards.within value)
    rw [hguards.tracks.count value _ (Nat.le_add_right _ _), hguards.tracks.count value _ le_rfl]
    exact recent_anti (Nat.le_add_right _ _)

omit [DecidableEq Attempt] in
theorem Guards.begin (hguards : counter.Guards key window limit state)
    (hlimit : state.pending key (key attempt) + counter.count (key attempt) state.now window < limit) :
    counter.Guards key window limit { state with inFlight := attempt :: state.inFlight } where
  tracks := hguards.tracks
  within value := by
    have hbefore := hguards.within value
    rw [State.pending, List.countP_cons]
    rw [State.pending] at hbefore hlimit
    by_cases hkey : key attempt = value
    · subst hkey
      simp only [decide_true, if_true]
      omega
    · simpa [hkey] using hbefore

/-- The failures counted under a key of an attempt in flight are not yet too many. -/
theorem Guards.count_lt (hguards : counter.Guards key window limit state)
    (hmem : attempt ∈ state.inFlight) :
    counter.count (key attempt) state.now window < limit := by
  have hwithin := hguards.within (key attempt)
  have hpending := pending_erase key (key attempt) hmem
  rw [if_pos rfl] at hpending
  omega

theorem Guards.recent_lt (hguards : counter.Guards key window limit state)
    (hmem : attempt ∈ state.inFlight) :
    recent window state.now (state.failedAt key (key attempt)) < limit := by
  rw [← hguards.tracks.count (key attempt) state.now le_rfl]
  exact hguards.count_lt hmem

theorem Guards.fail (hguards : counter.Guards key window limit state) (hwindow : 0 < window)
    (hmem : attempt ∈ state.inFlight) (hroom : counter.HasRoom (key attempt) state.now window)
    (after : Counter) :
    (counter.record (key attempt) state.now window limit).1.Guards key window limit
      { state with
        inFlight := state.inFlight.erase attempt
        counter := after
        failures := state.failures ++ [(state.now, attempt)] } := by
  have hlog : (fun value => State.failedAt key value { state with
        inFlight := state.inFlight.erase attempt
        counter := after
        failures := state.failures ++ [(state.now, attempt)] }) =
      Function.update (fun value => state.failedAt key value) (key attempt)
        (state.failedAt key (key attempt) ++ [state.now]) := by
    funext value
    rw [failedAt_concat]
    by_cases hkey : key attempt = value
    · subst hkey
      rw [if_pos rfl, Function.update_self]
    · rw [if_neg hkey, Function.update_of_ne (Ne.symm hkey)]
  have htracks := hguards.tracks.record hroom (hguards.count_lt hmem)
  refine ⟨hlog ▸ htracks, fun value => ?_⟩
  have hwithin := hguards.within value
  rw [hguards.tracks.count value state.now le_rfl] at hwithin
  rw [htracks.count value state.now le_rfl]
  have hpending := pending_erase key value hmem
  by_cases hkey : key attempt = value
  · subst hkey
    rw [Function.update_self, recent_concat hwindow]
    rw [if_pos rfl] at hpending
    simp only [State.pending] at *
    omega
  · rw [Function.update_of_ne (Ne.symm hkey)]
    rw [if_neg hkey] at hpending
    simp only [State.pending] at *
    omega

end Guarding

end SlidingCounter

end EasyWaf
