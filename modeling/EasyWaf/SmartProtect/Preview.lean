import EasyWaf.SmartProtect.Offences

/-!
# The preview of Smart Protect

What the numbers would have done to recorded traffic: the same counting, run over
the history of one policy's sites instead of arrivals.
-/

namespace EasyWaf.SmartProtect

open EasyWaf.Core Guessing Net

/-- What one recorded request was. -/
inductive Past
  | refused
  | served
  | other
  deriving DecidableEq

/-- A request on a policy, at a second of the clock. -/
structure Event where
  policy : ℤ
  ip : IpAddr
  second : ℕ
  what : Past
  reason : Text

/-- Whose the request is. -/
def Event.key (event : Event) : Key := ⟨event.policy, unit event.ip⟩

structure Replay where
  recent : List ℕ
  blockedUntil : ℕ
  blocks : ℕ
  refused : ℕ
  served : ℕ

def Replay.default : Replay := ⟨[], 0, 0, 0, 0⟩

/-- One request of a client. -/
def Replay.feed (numbers : Numbers) (replay : Replay) (second : ℕ) (what : Past) : Replay :=
  if second < replay.blockedUntil then
    -- made during a block: it does not count towards the next one
    { replay with
      refused := replay.refused + 1
      served := if what = .served then replay.served + 1 else replay.served }
  else if what ≠ .refused then replay
  else
    let recent := (replay.recent.dropWhile fun time => asSecs numbers.window ≤ second - time) ++ [second]
    if numbers.refusals ≤ recent.length then
      { replay with
        recent := []
        blockedUntil := second + asSecs numbers.block
        blocks := replay.blocks + 1 }
    else { replay with recent }

structure Replayer where
  numbers : Numbers
  clients : Table IpAddr Replay
  requests : ℕ

namespace Replayer

def new (numbers : Numbers) : Replayer where
  numbers := numbers
  clients := .empty
  requests := 0

/-- What is held of a client. -/
def client (replayer : Replayer) (unit : IpAddr) : Replay :=
  (replayer.clients.get unit).getD Replay.default

/-- One recorded request: the client, the second it was recorded at, and what it
was. -/
def feed (replayer : Replayer) (ip : IpAddr) (second : ℕ) (what : Past) : Replayer :=
  { replayer with
    clients := replayer.clients.insert (unit ip)
      ((replayer.client (unit ip)).feed replayer.numbers second what)
    requests := replayer.requests + 1 }

end Replayer

/-- What becomes of a request. -/
inductive Outcome
  | passed
  | blocks
  | refused
  deriving DecidableEq

/-- What the replay reports for a request: a refusal more, or a block more. -/
def reported (before after : Replay) : Outcome :=
  if before.refused < after.refused then .refused
  else if before.blocks < after.blocks then .blocks
  else .passed

/-- The preview, request by request. -/
def replayed (replayer : Replayer) : List Event → List (Event × Outcome)
  | [] => []
  | event :: rest =>
      let after := replayer.feed event.ip event.second event.what
      (event, reported (replayer.client event.key.unit) (after.client event.key.unit)) ::
        replayed after rest

section Live

variable (order : Finset Key → List Key) (numbers : Numbers)

/-- A request as it arrives: refused where its client is blocked, and else counted
where the rules refuse it. -/
def State.meet (state : State) (event : Event) : State × Outcome :=
  let (state, found) := state.blocked event.policy event.ip (fromSecs event.second)
  if found.isSome then (state, .refused)
  else if event.what = .refused then
    let (state, made) := state.offenceAt event.policy event.ip (fromSecs event.second) order
      event.reason numbers
    (state, if made.isSome then .blocks else .passed)
  else (state, .passed)

/-- The live code, request by request. -/
def lived (state : State) : List Event → List (Event × Outcome)
  | [] => []
  | event :: rest =>
      let (after, outcome) := state.meet order numbers event
      (event, outcome) :: lived after rest

theorem lived_cons (state : State) (event : Event) (rest : List Event) :
    lived order numbers state (event :: rest) =
      (event, (state.meet order numbers event).2) ::
        lived order numbers (state.meet order numbers event).1 rest := rfl

/-- Counting this request makes neither table forget anything that counts. -/
def State.HasRoom (state : State) (event : Event) : Prop :=
  let counting := (state.blocked event.policy event.ip (fromSecs event.second)).1
  event.what = .refused →
    counting.counter.HasRoom event.key (fromSecs event.second) numbers.window ∧
      (counting.blocks.size < maxBlocks ∨
        (counting.liveBlocks (fromSecs event.second)).size < maxBlocks)

instance decidableHasRoom (state : State) (event : Event) : Decidable (state.HasRoom numbers event) :=
  inferInstanceAs (Decidable (_ → _))

/-- The requests stay within the bounds of the tables. -/
def StaysWithin (state : State) : List Event → Prop
  | [] => True
  | event :: rest =>
      state.HasRoom numbers event ∧ StaysWithin (state.meet order numbers event).1 rest

instance decidableStaysWithin (state : State) (events : List Event) :
    Decidable (StaysWithin order numbers state events) :=
  match events with
  | [] => isTrue trivial
  | event :: rest =>
      haveI := decidableStaysWithin (state.meet order numbers event).1 rest
      inferInstanceAs (Decidable (_ ∧ _))

end Live

section Seconds

variable {window now later second : ℕ} {times : List ℕ}

theorem fromSecs_lt_iff : fromSecs now < fromSecs later ↔ now < later := by
  rw [fromSecs, fromSecs]
  omega

theorem fromSecs_le_iff : fromSecs now ≤ fromSecs later ↔ now ≤ later := by
  rw [← not_lt, fromSecs_lt_iff, not_lt]

/-- Whole seconds are counted alike as instants. -/
theorem recent_map_fromSecs (window now : ℕ) (times : List ℕ) :
    recent (fromSecs window) (fromSecs now) (times.map fromSecs) = recent window now times := by
  rw [recent, recent, List.countP_map]
  congr
  funext time
  have hsub : fromSecs now - fromSecs time = fromSecs (now - time) := (Nat.mul_sub ..).symm
  simp only [Function.comp_apply, hsub, fromSecs_lt_iff]

/-- Numbers of whole seconds, as the settings give them. -/
structure Numbers.Whole (numbers : Numbers) : Prop where
  window : numbers.window = fromSecs (asSecs numbers.window)
  block : numbers.block = fromSecs (asSecs numbers.block)
  refusals_pos : 0 < numbers.refusals
  window_pos : 0 < asSecs numbers.window

theorem whole_setNumbers (refusals windowSecs blockSecs : ℕ) :
    (setNumbers refusals windowSecs blockSecs).Whole where
  window := by rw [setNumbers, asSecs_fromSecs]
  block := by rw [setNumbers, asSecs_fromSecs]
  refusals_pos := lt_of_lt_of_le (by decide) (le_max_left 2 _)
  window_pos := by
    rw [setNumbers, asSecs_fromSecs]
    exact lt_of_lt_of_le (by decide) (le_max_left 10 _)

end Seconds

section Matches

/-- The table holds of every client what a replay of its requests does. -/
structure Matches (numbers : Numbers) (now : ℕ) (state : State) (replays : Key → Replay) : Prop where
  counted : state.counter.Tracks (fromSecs now) numbers.window
    fun key => (replays key).recent.map fromSecs
  sorted : ∀ key, (replays key).recent.Pairwise (· ≤ ·)
  past : ∀ key, ∀ time ∈ (replays key).recent, time ≤ now
  few : ∀ key, recent (asSecs numbers.window) now (replays key).recent < numbers.refusals
  blocks : ∀ key later, now ≤ later →
    ((state.blocks.get key).any (fun block => fromSecs later < block.ends) ↔
      later < (replays key).blockedUntil)
  blockCount : state.blockCount = state.blocks.size

variable {numbers : Numbers} {now later second : ℕ} {state : State} {replays : Key → Replay}

theorem matches_new (hwhole : numbers.Whole) :
    Matches numbers now State.new fun _ => Replay.default where
  counted := SlidingCounter.tracks_new _
  sorted _ := List.Pairwise.nil
  past _ := List.forall_mem_nil _
  few _ := hwhole.refusals_pos
  blocks _ _ _ := iff_of_false Bool.false_ne_true (Nat.not_lt_zero _)
  blockCount := rfl

theorem Matches.mono (hmatches : Matches numbers now state replays) (hlater : now ≤ later) :
    Matches numbers later state replays where
  counted := hmatches.counted.mono (fromSecs_le_iff.mpr hlater)
  sorted := hmatches.sorted
  past key time htime := (hmatches.past key time htime).trans hlater
  few key := (recent_anti hlater).trans_lt (hmatches.few key)
  blocks key later' hlater' := hmatches.blocks key later' (hlater.trans hlater')
  blockCount := hmatches.blockCount

theorem Matches.get_eq_none (hmatches : Matches numbers now state replays)
    (hcount : state.blockCount = 0) (key : Key) : state.blocks.get key = none := by
  rw [hmatches.blockCount] at hcount
  have hkeys : key ∉ state.blocks.keys := by
    rw [Finset.card_eq_zero.mp hcount]
    exact Finset.notMem_empty key
  rw [state.blocks.mem_keys] at hkeys
  exact Option.not_isSome_iff_eq_none.mp hkeys

/-- A client is refused while its block lasts. -/
theorem Matches.blocked (hmatches : Matches numbers second state replays) (policy : ℤ)
    (ip : IpAddr) :
    ((state.blocked policy ip (fromSecs second)).2.isSome ↔
        second < (replays ⟨policy, unit ip⟩).blockedUntil) ∧
      Matches numbers second (state.blocked policy ip (fromSecs second)).1 replays := by
  have hblocks := hmatches.blocks ⟨policy, unit ip⟩ second le_rfl
  rw [State.blocked]
  by_cases hcount : state.blockCount = 0
  · rw [if_pos hcount]
    rw [hmatches.get_eq_none hcount] at hblocks
    exact ⟨hblocks, hmatches⟩
  · rw [if_neg hcount]
    cases hget : state.blocks.get ⟨policy, unit ip⟩ with
    | none =>
        rw [hget] at hblocks
        exact ⟨hblocks, hmatches⟩
    | some block =>
        rw [hget, Option.any_some, decide_eq_true_eq] at hblocks
        by_cases hends : fromSecs second < block.ends
        · simp only [if_pos hends]
          exact ⟨iff_of_true rfl (hblocks.mp hends), hmatches⟩
        · simp only [if_neg hends]
          constructor
          · exact iff_of_false Bool.false_ne_true (mt hblocks.mpr hends)
          · exact { hmatches with
              blocks := fun key later hlater => by
                by_cases hkey : key = ⟨policy, unit ip⟩
                · subst hkey
                  rw [← hmatches.blocks _ later hlater, hget, Table.get_erase_self, Option.any_some,
                    decide_eq_true_eq]
                  apply iff_of_false Bool.false_ne_true
                  have := fromSecs_le_iff.mpr hlater
                  omega
                · rw [Table.get_erase_of_ne _ hkey]
                  exact hmatches.blocks key later hlater
              blockCount := rfl }

/-- Tracking says nothing of times that have left the window. -/
theorem tracks_congr {Key : Type} {counter : SlidingCounter Key} {now window : ℕ}
    {log other : Key → List ℕ} (htracks : counter.Tracks now window log)
    (hlogs : ∀ key later, now ≤ later → recent window later (log key) = recent window later (other key)) :
    counter.Tracks now window other where
  sorted := htracks.sorted
  past := htracks.past
  count key later hlater := (htracks.count key later hlater).trans (hlogs key later hlater)

/-- The block table with room for one more holds every block that has not ended. -/
theorem any_roomForBlock (order : Finset Key → List Key) {now later : ℕ} (hlater : now ≤ later)
    (hroom : state.blocks.size < maxBlocks ∨ (state.liveBlocks now).size < maxBlocks) (key : Key) :
    ((state.roomForBlock now order).get key).any (fun block => decide (later < block.ends)) =
      (state.blocks.get key).any fun block => decide (later < block.ends) := by
  rw [State.roomForBlock]
  by_cases hsize : state.blocks.size < maxBlocks
  · rw [if_pos hsize]
  · rw [if_neg hsize]
    simp only [if_pos (hroom.resolve_left hsize)]
    rw [State.liveBlocks, Table.get_retain]
    cases state.blocks.get key with
    | none => rfl
    | some block =>
        rw [Option.filter_some]
        split
        · rfl
        · rename_i hended
          rw [decide_eq_true_eq] at hended
          rw [Option.any_none, Option.any_some, eq_comm, decide_eq_false_iff_not]
          omega

/-- The refusals kept once another is counted. -/
def recentWith (numbers : Numbers) (replay : Replay) (second : ℕ) : List ℕ :=
  (replay.recent.dropWhile fun time => decide (asSecs numbers.window ≤ second - time)) ++ [second]

section Counting

variable (hwhole : numbers.Whole) (hmatches : Matches numbers second state replays) (key : Key)
include hwhole hmatches

/-- The times a replay keeps of a client with one more are as many as the table
counts. -/
theorem Matches.recorded (hroom : state.counter.HasRoom key (fromSecs second) numbers.window) :
    (state.counter.record key (fromSecs second) numbers.window numbers.refusals).2 =
        (recentWith numbers (replays key) second).length ∧
      (state.counter.record key (fromSecs second) numbers.window numbers.refusals).1.Tracks
        (fromSecs second) numbers.window
        (Function.update (fun key => (replays key).recent.map fromSecs) key
          ((recentWith numbers (replays key) second).map fromSecs)) := by
  have hcount : state.counter.count key (fromSecs second) numbers.window =
      recent (asSecs numbers.window) second (replays key).recent := by
    rw [hmatches.counted.count key _ le_rfl, hwhole.window, asSecs_fromSecs, recent_map_fromSecs]
  have hkeep : state.counter.count key (fromSecs second) numbers.window < numbers.refusals := by
    rw [hcount]
    exact hmatches.few key
  obtain ⟨hrecord, hlength⟩ := hmatches.counted.record_eq hroom hkeep
  constructor
  · rw [hrecord]
    dsimp only
    rw [hlength, hcount, recentWith, List.length_append, SlidingCounter.length_dropWhile (hmatches.sorted key)]
    rfl
  · apply tracks_congr (hmatches.counted.record hroom hkeep)
    intro other later hlater
    by_cases hother : other = key
    · subst hother
      have hdrop : ((replays other).recent.dropWhile fun time =>
            decide (asSecs numbers.window ≤ second - time)).map fromSecs =
          ((replays other).recent.map fromSecs).dropWhile fun time =>
            decide (numbers.window ≤ fromSecs second - time) := by
        rw [List.dropWhile_map]
        congr
        funext time
        have hsub : fromSecs second - fromSecs time = fromSecs (second - time) :=
          (Nat.mul_sub ..).symm
        rw [Function.comp_apply, hsub, hwhole.window, asSecs_fromSecs]
        exact decide_eq_decide.mpr fromSecs_le_iff.symm
      rw [Function.update_self, Function.update_self, recentWith, List.map_append, hdrop, recent,
        List.countP_append, recent, List.countP_append]
      exact congrArg (· + _) (SlidingCounter.recent_dropWhile hlater).symm
    · rw [Function.update_of_ne hother, Function.update_of_ne hother]

omit hwhole in
theorem Matches.recentWith_ordered :
    (recentWith numbers (replays key) second).Pairwise (· ≤ ·) ∧
      ∀ time ∈ recentWith numbers (replays key) second, time ≤ second := by
  have hkept : ∀ time ∈ (replays key).recent.dropWhile fun time =>
      decide (asSecs numbers.window ≤ second - time), time ≤ second :=
    fun time htime => hmatches.past key time ((List.dropWhile_sublist _).subset htime)
  constructor
  · apply List.pairwise_append.mpr
    exact ⟨(hmatches.sorted key).sublist (List.dropWhile_sublist _), List.pairwise_singleton _ _,
      fun time htime last hlast => (List.mem_singleton.mp hlast) ▸ hkept time htime⟩
  · rw [recentWith, List.forall_mem_append]
    exact ⟨hkept, List.forall_mem_singleton.mpr le_rfl⟩

omit hwhole in
/-- A refusal that does not complete the count. -/
theorem Matches.counts {counter : SlidingCounter Key}
    (hcounter : counter.Tracks (fromSecs second) numbers.window
      (Function.update (fun key => (replays key).recent.map fromSecs) key
        ((recentWith numbers (replays key) second).map fromSecs)))
    (hfew : (recentWith numbers (replays key) second).length < numbers.refusals) :
    Matches numbers second { state with counter } (Function.update replays key
      { replays key with recent := recentWith numbers (replays key) second }) where
  counted := by
    apply tracks_congr hcounter
    intro other later _
    by_cases hother : other = key
    · subst hother
      rw [Function.update_self, Function.update_self]
    · rw [Function.update_of_ne hother, Function.update_of_ne hother]
  sorted other := by
    by_cases hother : other = key
    · subst hother
      rw [Function.update_self]
      exact (hmatches.recentWith_ordered other).1
    · rw [Function.update_of_ne hother]
      exact hmatches.sorted other
  past other := by
    by_cases hother : other = key
    · subst hother
      rw [Function.update_self]
      exact (hmatches.recentWith_ordered other).2
    · rw [Function.update_of_ne hother]
      exact hmatches.past other
  few other := by
    by_cases hother : other = key
    · subst hother
      rw [Function.update_self]
      exact lt_of_le_of_lt List.countP_le_length hfew
    · rw [Function.update_of_ne hother]
      exact hmatches.few other
  blocks other later hlater := by
    rw [hmatches.blocks other later hlater]
    by_cases hother : other = key
    · subst hother
      rw [Function.update_self]
    · rw [Function.update_of_ne hother]
  blockCount := hmatches.blockCount

/-- The refusal that completes the count. -/
theorem Matches.completes (order : Finset Key → List Key) {counter : SlidingCounter Key}
    {log : List ℕ} (hcounter : counter.Tracks (fromSecs second) numbers.window
      (Function.update (fun key => (replays key).recent.map fromSecs) key log))
    (hroom : state.blocks.size < maxBlocks ∨
      (state.liveBlocks (fromSecs second)).size < maxBlocks)
    {block : HeldBlock} (hends : block.ends = fromSecs second + numbers.block) (made : ℕ) :
    let blocks := (state.roomForBlock (fromSecs second) order).insert key block
    Matches numbers second
      { counter := counter.forget key, blocks, blockCount := blocks.size }
      (Function.update replays key { replays key with
        recent := []
        blockedUntil := second + asSecs numbers.block
        blocks := made }) := by
  intro blocks
  exact {
    counted := by
      apply tracks_congr (hcounter.forget key)
      intro other later _
      by_cases hother : other = key
      · subst hother
        rw [Function.update_self, Function.update_self]
        rfl
      · rw [Function.update_of_ne hother, Function.update_of_ne hother,
          Function.update_of_ne hother]
    sorted := fun other => by
      by_cases hother : other = key
      · subst hother
        rw [Function.update_self]
        exact List.Pairwise.nil
      · rw [Function.update_of_ne hother]
        exact hmatches.sorted other
    past := fun other => by
      by_cases hother : other = key
      · subst hother
        rw [Function.update_self]
        exact List.forall_mem_nil _
      · rw [Function.update_of_ne hother]
        exact hmatches.past other
    few := fun other => by
      by_cases hother : other = key
      · subst hother
        rw [Function.update_self]
        exact hwhole.refusals_pos
      · rw [Function.update_of_ne hother]
        exact hmatches.few other
    blocks := fun other later hlater => by
      by_cases hother : other = key
      · subst hother
        have hsum : fromSecs second + fromSecs (asSecs numbers.block) =
            fromSecs (second + asSecs numbers.block) := (Nat.mul_add ..).symm
        rw [Table.get_insert_self, Function.update_self, Option.any_some, decide_eq_true_eq, hends,
          hwhole.block, asSecs_fromSecs, hsum]
        exact fromSecs_lt_iff
      · rw [Table.get_insert_of_ne _ hother, Function.update_of_ne hother,
          any_roomForBlock order (fromSecs_le_iff.mpr hlater) hroom]
        exact hmatches.blocks other later hlater
    blockCount := rfl }

end Counting

section Step

variable (order : Finset Key → List Key)

/-- What is counted of a client is its refusals and its block. -/
theorem Matches.congr (hmatches : Matches numbers now state replays) {others : Key → Replay}
    (hrecent : ∀ key, (others key).recent = (replays key).recent)
    (hblocked : ∀ key, (others key).blockedUntil = (replays key).blockedUntil) :
    Matches numbers now state others where
  counted := tracks_congr hmatches.counted fun key later _ => by rw [hrecent]
  sorted key := (hrecent key).symm ▸ hmatches.sorted key
  past key := (hrecent key).symm ▸ hmatches.past key
  few key := (hrecent key).symm ▸ hmatches.few key
  blocks key later hlater := by
    rw [hblocked]
    exact hmatches.blocks key later hlater
  blockCount := hmatches.blockCount

theorem feed_free {replay : Replay} (hfree : ¬ second < replay.blockedUntil) :
    replay.feed numbers second .refused =
      if numbers.refusals ≤ (recentWith numbers replay second).length then
        { replay with
          recent := []
          blockedUntil := second + asSecs numbers.block
          blocks := replay.blocks + 1 }
      else { replay with recent := recentWith numbers replay second } := by
  rw [Replay.feed, if_neg hfree, if_neg (not_not.mpr rfl)]
  rfl

/-- A refusal of a client that is not blocked, counted in the table and in the
replay. -/
theorem Matches.offenceAt (hwhole : numbers.Whole)
    (hmatches : Matches numbers second state replays) (policy : ℤ) (ip : IpAddr) (reason : Text)
    (hcounter : state.counter.HasRoom ⟨policy, unit ip⟩ (fromSecs second) numbers.window)
    (hroom : state.blocks.size < maxBlocks ∨
      (state.liveBlocks (fromSecs second)).size < maxBlocks)
    (hfree : ¬ second < (replays ⟨policy, unit ip⟩).blockedUntil) :
    let after := (replays ⟨policy, unit ip⟩).feed numbers second .refused
    (if (state.offenceAt policy ip (fromSecs second) order reason numbers).2.isSome then
        Outcome.blocks else .passed) = reported (replays ⟨policy, unit ip⟩) after ∧
      Matches numbers second (state.offenceAt policy ip (fromSecs second) order reason numbers).1
        (Function.update replays ⟨policy, unit ip⟩ after) := by
  intro after
  have hnone : ¬ (state.blocks.get ⟨policy, unit ip⟩).any
      (fun block => fromSecs second < block.ends) = true :=
    fun hany => hfree ((hmatches.blocks _ second le_rfl).mp hany)
  obtain ⟨hcount, htracks⟩ := hmatches.recorded hwhole ⟨policy, unit ip⟩ hcounter
  have hafter : after = _ := feed_free hfree
  rw [State.offenceAt, if_neg hnone, hafter]
  by_cases hfew : (state.counter.record ⟨policy, unit ip⟩ (fromSecs second) numbers.window
      numbers.refusals).2 < numbers.refusals
  · simp only [if_pos hfew]
    rw [hcount] at hfew
    rw [if_neg (not_le.mpr hfew)]
    exact ⟨by simp [reported], hmatches.counts _ htracks hfew⟩
  · simp only [if_neg hfew]
    rw [hcount, not_lt] at hfew
    rw [if_pos hfew]
    exact ⟨by simp [reported], hmatches.completes hwhole _ order htracks hroom rfl _⟩

/-- Each client's replay once a request has been fed to its own. -/
def fed (numbers : Numbers) (replays : Key → Replay) (event : Event) : Key → Replay :=
  Function.update replays event.key
    ((replays event.key).feed numbers event.second event.what)

/-- One request, met by the live code and fed to the replay. -/
theorem Matches.meet (hwhole : numbers.Whole) (event : Event)
    (hmatches : Matches numbers event.second state replays)
    (hroom : state.HasRoom numbers event) :
    (state.meet order numbers event).2 =
        reported (replays event.key) (fed numbers replays event event.key) ∧
      Matches numbers event.second (state.meet order numbers event).1
        (fed numbers replays event) := by
  obtain ⟨hblocked, hcounting⟩ := hmatches.blocked event.policy event.ip
  rw [State.meet, fed, Function.update_self]
  dsimp only
  by_cases hheld : event.second < (replays event.key).blockedUntil
  · rw [if_pos (hblocked.mpr hheld), Replay.feed, if_pos hheld]
    constructor
    · simp [reported]
    · apply hcounting.congr <;> intro key <;> by_cases hkey : key = event.key
      · subst hkey
        rw [Function.update_self]
      · rw [Function.update_of_ne hkey]
      · subst hkey
        rw [Function.update_self]
      · rw [Function.update_of_ne hkey]
  · rw [if_neg (mt hblocked.mp hheld)]
    by_cases hwhat : event.what = .refused
    · rw [if_pos hwhat, hwhat]
      exact hcounting.offenceAt order hwhole event.policy event.ip event.reason (hroom hwhat).1
        (hroom hwhat).2 hheld
    · rw [if_neg hwhat]
      have hsame : (replays event.key).feed numbers event.second event.what = replays event.key := by
        rw [Replay.feed, if_neg hheld, if_pos hwhat]
      rw [hsame, Function.update_eq_self]
      exact ⟨by simp [reported], hcounting⟩

end Step

end Matches

section Blocking

variable (numbers : Numbers) (replay : Replay) (second later : ℕ) (what : Past)

theorem reported_feed :
    reported replay (replay.feed numbers second what) = .refused ↔ second < replay.blockedUntil := by
  rw [Replay.feed]
  by_cases hheld : second < replay.blockedUntil
  · rw [if_pos hheld]
    exact iff_of_true (by simp [reported]) hheld
  · rw [if_neg hheld]
    apply iff_of_false _ hheld
    by_cases hwhat : what ≠ .refused
    · simp [if_pos hwhat, reported]
    · simp only [if_neg hwhat]
      split <;> simp [reported]

/-- A client is blocked as long as it was, or as long as a block just made lasts. -/
theorem lt_blockedUntil_feed :
    later < (replay.feed numbers second what).blockedUntil ↔
      later < replay.blockedUntil ∨
        (reported replay (replay.feed numbers second what) = .blocks ∧
          later < second + asSecs numbers.block) := by
  rw [Replay.feed]
  by_cases hheld : second < replay.blockedUntil
  · simp [if_pos hheld, reported]
  · by_cases hwhat : what ≠ .refused
    · simp [if_neg hheld, if_pos hwhat, reported]
    · simp only [if_neg hheld, if_neg hwhat]
      split
      · have hreported : reported replay { replay with
            recent := []
            blockedUntil := second + asSecs numbers.block
            blocks := replay.blocks + 1 } = .blocks := by simp [reported]
        simp only [hreported, true_and]
        omega
      · simp [reported]

end Blocking

section Runs

variable (order : Finset Key → List Key) {numbers : Numbers} {now : ℕ} {state : State}
  {replays : Key → Replay} {events : List Event}

/-- Requests in the order of their times. -/
def InOrder (events : List Event) : Prop :=
  events.Pairwise fun earlier later => earlier.second ≤ later.second

instance decidableInOrder (events : List Event) : Decidable (InOrder events) :=
  inferInstanceAs (Decidable (List.Pairwise _ _))

theorem client_feed (replayer : Replayer) (ip address : IpAddr) (second : ℕ) (what : Past) :
    (replayer.feed ip second what).client address =
      if address = unit ip then (replayer.client (unit ip)).feed replayer.numbers second what
      else replayer.client address := by
  by_cases haddress : address = unit ip
  · rw [if_pos haddress, haddress, Replayer.client, Replayer.feed, Table.get_insert_self,
      Option.getD_some]
  · rw [if_neg haddress, Replayer.client, Replayer.feed, Table.get_insert_of_ne _ haddress]
    rfl

/-- A policy's requests come to the same in its replay and in the table all
policies share. -/
theorem replayed_eq_filter_lived (hwhole : numbers.Whole)
    (hmatches : Matches numbers now state replays) (hordered : InOrder events)
    (hnow : ∀ event ∈ events, now ≤ event.second) (hwithin : StaysWithin order numbers state events)
    (policy : ℤ) (replayer : Replayer) (hnumbers : replayer.numbers = numbers)
    (hclients : ∀ address, replayer.client address = replays ⟨policy, address⟩) :
    replayed replayer (events.filter fun event => event.policy = policy) =
      (lived order numbers state events).filter fun met => met.1.policy = policy := by
  induction events generalizing now state replays replayer with
  | nil => rfl
  | cons event rest ih =>
      obtain ⟨hfirst, hrest⟩ := List.pairwise_cons.mp hordered
      obtain ⟨hmet, hafter⟩ :=
        (hmatches.mono (hnow event List.mem_cons_self)).meet order hwhole event hwithin.1
      rw [lived_cons]
      by_cases hpolicy : event.policy = policy
      · have hkey : (⟨policy, unit event.ip⟩ : Key) = event.key := by rw [← hpolicy]; rfl
        have hfed : ∀ address, (replayer.feed event.ip event.second event.what).client address =
            fed numbers replays event ⟨policy, address⟩ := by
          intro address
          rw [client_feed, fed]
          by_cases haddress : address = unit event.ip
          · rw [if_pos haddress, haddress, hclients, hnumbers, hkey, Function.update_self]
          · rw [if_neg haddress, hclients, Function.update_of_ne]
            exact fun heq => haddress (congrArg Key.unit heq)
        rw [List.filter_cons_of_pos (by simpa using hpolicy),
          List.filter_cons_of_pos (by simpa using hpolicy), replayed]
        have hbefore : replayer.client event.key.unit = replays event.key := by
          rw [hclients, ← hkey]
        have hthen : (replayer.feed event.ip event.second event.what).client event.key.unit =
            fed numbers replays event event.key := by
          rw [hfed, ← hkey]
        rw [hbefore, hthen, hmet]
        exact congrArg _ (ih hafter hrest hfirst hwithin.2 _ hnumbers hfed)
      · rw [List.filter_cons_of_neg (by simpa using hpolicy),
          List.filter_cons_of_neg (by simpa using hpolicy)]
        apply ih hafter hrest hfirst hwithin.2 _ hnumbers
        intro address
        rw [hclients, fed, Function.update_of_ne]
        exact fun heq => hpolicy (congrArg Key.policy heq).symm

/-- A request is refused within the length of a block, and not elsewhere. -/
theorem refused_iff (hwhole : numbers.Whole) (hmatches : Matches numbers now state replays)
    (hordered : InOrder events) (hnow : ∀ event ∈ events, now ≤ event.second)
    (hwithin : StaysWithin order numbers state events)
    {before after : List (Event × Outcome)} {event : Event} {outcome : Outcome}
    (hlived : lived order numbers state events = before ++ (event, outcome) :: after) :
    outcome = .refused ↔ event.second < (replays event.key).blockedUntil ∨
      ∃ made ∈ before, made.2 = .blocks ∧ made.1.key = event.key ∧
        event.second < made.1.second + asSecs numbers.block := by
  induction events generalizing now state replays before with
  | nil => exact absurd hlived (by simp [lived])
  | cons first rest ih =>
      obtain ⟨hfirst, hrest⟩ := List.pairwise_cons.mp hordered
      obtain ⟨hmet, hafter⟩ :=
        (hmatches.mono (hnow first List.mem_cons_self)).meet order hwhole first hwithin.1
      rw [fed, Function.update_self] at hmet
      rw [lived_cons] at hlived
      cases before with
      | nil =>
          rw [List.nil_append, List.cons.injEq, Prod.mk.injEq] at hlived
          obtain ⟨⟨rfl, rfl⟩, -⟩ := hlived
          rw [hmet, reported_feed]
          simp
      | cons made before =>
          rw [List.cons_append, List.cons.injEq] at hlived
          obtain ⟨rfl, htail⟩ := hlived
          rw [ih hafter hrest hfirst hwithin.2 htail, List.exists_mem_cons_iff, ← or_assoc]
          apply or_congr_left
          rw [fed, hmet]
          by_cases hkey : event.key = first.key
          · rw [hkey, Function.update_self, lt_blockedUntil_feed]
            simp
          · rw [Function.update_of_ne hkey]
            simp [Ne.symm hkey]

/-- The preview is the live behaviour: over requests in order that stay within the
bounds of the tables, the replay of each policy reports what the live code does, and
a client is refused for exactly as long as a block on it was made for. -/
theorem preview_is_live (refusals windowSecs blockSecs : ℕ) (hordered : InOrder events)
    (hwithin : StaysWithin order (setNumbers refusals windowSecs blockSecs) State.new events) :
    let numbers := setNumbers refusals windowSecs blockSecs
    (∀ policy,
      replayed (.new numbers) (events.filter fun event => event.policy = policy) =
        (lived order numbers State.new events).filter fun met => met.1.policy = policy) ∧
    ∀ before event outcome after,
      lived order numbers State.new events = before ++ (event, outcome) :: after →
        (outcome = .refused ↔ ∃ made ∈ before, made.2 = .blocks ∧ made.1.key = event.key ∧
          event.second < made.1.second + asSecs numbers.block) := by
  intro numbers
  have hwhole := whole_setNumbers refusals windowSecs blockSecs
  have hmatches : Matches numbers 0 State.new fun _ => Replay.default := matches_new hwhole
  constructor
  · intro policy
    exact replayed_eq_filter_lived order hwhole hmatches hordered (fun _ _ => Nat.zero_le _) hwithin
      policy _ rfl fun _ => rfl
  · intro before event outcome after hlived
    rw [refused_iff order hwhole hmatches hordered (fun _ _ => Nat.zero_le _) hwithin hlived]
    exact or_iff_right (Nat.not_lt_zero _)

/-- Three refusals within a minute, a request while the block lasts and one as it
ends. -/
def scan : List Event :=
  [0, 20, 40, 639, 640].map fun second => ⟨1, .v4 0xcb007101#32, second, .refused, []⟩

theorem scan_previewed :
    replayed (.new (setNumbers 3 60 600)) (scan.filter fun event => event.policy = 1) =
      (lived Finset.toList (setNumbers 3 60 600) State.new scan).filter fun met => met.1.policy = 1 :=
  (preview_is_live Finset.toList 3 60 600 (by decide) (by decide +kernel)).1 1

end Runs

end EasyWaf.SmartProtect
