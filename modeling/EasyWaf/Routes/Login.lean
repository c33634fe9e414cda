import EasyWaf.Core.HashMap
import EasyWaf.Gateway.Throttle

/-!
# Signing in to the management interface

Failures are counted for each address from the first one on, and a full count
lasts until that one is a whole window old.  As at the gateway, the count is
looked at before the password is checked and raised after.
-/

namespace EasyWaf.Routes.Login

open EasyWaf.Core Guessing Net

def maxFailures : ℕ := 10

/-- How long failures are remembered, in nanoseconds. -/
def window : ℕ := 15 * 60 * 10 ^ 9

def maxTracked : ℕ := 10000

structure Failures where
  count : ℕ
  since : ℕ

abbrev Map := Table IpAddr Failures

/-- How much longer an address must wait. -/
def throttled (map : Map) (now : ℕ) (client : IpAddr) : Option ℕ := do
  let failures ← map.get client
  let elapsed := now - failures.since
  if maxFailures ≤ failures.count ∧ elapsed < window then some (window - elapsed) else none

/-- Expired entries go when the table is full. -/
def makeRoom (map : Map) (now : ℕ) : Map :=
  if maxTracked ≤ map.size then map.retain fun _ failures => now - failures.since < window else map

def noteFailure (map : Map) (now : ℕ) (client : IpAddr) : Map :=
  let map := makeRoom map now
  let failures := (map.get client).getD ⟨0, now⟩
  let failures := if window ≤ now - failures.since then ⟨0, now⟩ else failures
  map.insert client { failures with count := failures.count + 1 }

/-- `forget_failures`. -/
def forgetFailures (map : Map) (client : IpAddr) : Map := map.erase client

def guard : Guard Map IpAddr where
  refuses map now client := (throttled map now client).isSome
  noteFailure := noteFailure

/-- The count that is in force. -/
def counted (map : Map) (now : ℕ) (client : IpAddr) : ℕ :=
  match map.get client with
  | some failures => if now - failures.since < window then failures.count else 0
  | none => 0

/-- Sign-ins from an address are not checked side by side beyond what is left of the
limit, and none is counted anew within a window of the address's last failure. -/
def Apart (state : State Map IpAddr) : Action IpAddr → Prop
  | .wait _ => True
  | .begin client =>
      throttled state.counter state.now client = none →
        state.pending id client + counted state.counter state.now client < maxFailures
  | .fail client =>
      counted state.counter state.now client = 0 →
        recent window state.now (state.failedAt id client) = 0

instance (state : State Map IpAddr) (action : Action IpAddr) : Decidable (Apart state action) := by
  cases action <;> unfold Apart <;> infer_instance

/-- A run of sign-ins that all fail. -/
abbrev Run (state : State Map IpAddr) : Prop :=
  Machine.Run (step guard) Apart (State.initial .empty) state

/-- What the table holds for an address, of the times it failed: those of the window
it counts, all since the first of them, and those before, a window or more before
it. -/
def Counts (map : Map) (now : ℕ) (client : IpAddr) (times : List ℕ) : Prop :=
  ∃ (before within : List ℕ) (since : ℕ), times = before ++ within ∧
    (∀ time ∈ before, time + window ≤ since) ∧ (∀ time ∈ within, since ≤ time) ∧
    within.length ≤ maxFailures ∧ since ≤ now ∧
    (map.get client = some ⟨within.length, since⟩ ∧ since ∈ within ∨
      map.get client = none ∧ (within = [] ∨ since ∈ within ∧ window ≤ now - since))

structure Holds (state : State Map IpAddr) : Prop where
  counts : ∀ client, Counts state.counter state.now client (state.failedAt id client)
  within : ∀ client, state.pending id client + counted state.counter state.now client ≤ maxFailures

section Count

variable {map : Map} {now later : ℕ} {client other : IpAddr} {times : List ℕ}

theorem counted_of_get {failures : Failures} (hget : map.get client = some failures) :
    counted map now client = if now - failures.since < window then failures.count else 0 := by
  rw [counted, hget]

theorem counted_of_get_none (hget : map.get client = none) : counted map now client = 0 := by
  rw [counted, hget]

theorem counted_anti (hlater : now ≤ later) : counted map later client ≤ counted map now client := by
  cases hget : map.get client with
  | none => rw [counted_of_get_none hget]; exact Nat.zero_le _
  | some failures =>
      rw [counted_of_get hget, counted_of_get hget]
      split
      · rw [if_pos (by omega)]
      · exact Nat.zero_le _

theorem recent_before {before : List ℕ} {since : ℕ} (hsince : since ≤ now)
    (hbefore : ∀ time ∈ before, time + window ≤ since) : recent window now before = 0 := by
  refine List.countP_eq_zero.mpr fun time htime => ?_
  have := hbefore time htime
  simp only [decide_eq_true_eq]
  omega

/-- A count in force is that of the failures in the window. -/
theorem Counts.recent_eq (hcounts : Counts map now client times)
    (hcounted : counted map now client ≠ 0) :
    recent window now times = counted map now client ∧ counted map now client ≤ maxFailures := by
  obtain ⟨before, within, since, rfl, hbefore, hwithin, hlength, hsince, hget⟩ := hcounts
  rcases hget with ⟨hget, -⟩ | ⟨hget, -⟩
  · have hfresh : now - since < window := by
      by_contra hexpired
      exact hcounted (by rw [counted_of_get hget, if_neg hexpired])
    have hall : recent window now within = within.length := by
      refine List.countP_eq_length.mpr fun time htime => ?_
      have := hwithin time htime
      simp only [decide_eq_true_eq]
      omega
    rw [counted_of_get hget, if_pos hfresh, recent, List.countP_append]
    refine ⟨?_, hlength⟩
    have hnone := recent_before hsince hbefore
    rw [recent] at hnone hall
    rw [hnone, hall, Nat.zero_add]
  · exact absurd (counted_of_get_none hget) hcounted

/-- An address that failed as often as it may in the last window is refused. -/
theorem Counts.throttled (hcounts : Counts map now client times)
    (hlimit : maxFailures ≤ recent window now times) : (throttled map now client).isSome := by
  obtain ⟨before, within, since, rfl, hbefore, hwithin, hlength, hsince, hget⟩ := hcounts
  have hbefore := recent_before hsince hbefore
  rw [recent, List.countP_append] at hlimit
  rw [recent] at hbefore
  have hfull : within.countP (fun time => now - time < window) = within.length := by
    have := List.countP_le_length (p := fun time => decide (now - time < window)) (l := within)
    omega
  have hfresh : ∀ time ∈ within, now - time < window := by
    simpa using List.countP_eq_length.mp hfull
  rcases hget with ⟨hget, hmem⟩ | ⟨hget, hnil | ⟨hmem, hexpired⟩⟩
  · have hnew := hfresh since hmem
    have hcount : maxFailures ≤ within.length := by omega
    simp [Login.throttled, hget, hcount, hnew]
  · rw [hnil] at hlimit
    simp only [List.countP_nil, maxFailures] at hlimit
    omega
  · exact absurd (hfresh since hmem) (by omega)

theorem Counts.mono (hcounts : Counts map now client times) (hlater : now ≤ later) :
    Counts map later client times := by
  obtain ⟨before, within, since, htimes, hbefore, hwithin, hlength, hsince, hget⟩ := hcounts
  refine ⟨before, within, since, htimes, hbefore, hwithin, hlength, hsince.trans hlater, ?_⟩
  exact hget.imp_right (And.imp_right (Or.imp_right (And.imp_right fun hexpired => by omega)))

/-- Making room drops no count in force. -/
theorem get_makeRoom (map : Map) (now : ℕ) (client : IpAddr) :
    (makeRoom map now).get client = map.get client ∨
      (makeRoom map now).get client = none ∧
        ∃ failures, map.get client = some failures ∧ window ≤ now - failures.since := by
  rw [makeRoom]
  split
  · rw [Table.get_retain]
    cases hget : map.get client with
    | none => exact Or.inl rfl
    | some failures =>
        rw [Option.filter_some]
        split
        · exact Or.inl rfl
        · rename_i hexpired
          exact Or.inr ⟨rfl, failures, rfl, by simpa using hexpired⟩
  · exact Or.inl rfl

theorem counted_makeRoom (map : Map) (now : ℕ) (client : IpAddr) :
    counted (makeRoom map now) now client = counted map now client := by
  rcases get_makeRoom map now client with hsame | ⟨hnone, failures, hget, hexpired⟩
  · rw [counted, counted, hsame]
  · rw [counted_of_get_none hnone, counted_of_get hget, if_neg (by omega)]

theorem Counts.makeRoom (hcounts : Counts map now client times) :
    Counts (makeRoom map now) now client times := by
  obtain ⟨before, within, since, htimes, hbefore, hwithin, hlength, hsince, hget⟩ := hcounts
  refine ⟨before, within, since, htimes, hbefore, hwithin, hlength, hsince, ?_⟩
  rcases get_makeRoom map now client with hsame | ⟨hnone, failures, hfailures, hexpired⟩
  · rwa [hsame]
  · rcases hget with ⟨hget, hmem⟩ | ⟨hget, -⟩
    · obtain rfl := Option.some.inj (hfailures.symm.trans hget)
      exact Or.inr ⟨hnone, Or.inr ⟨hmem, hexpired⟩⟩
    · rw [hget] at hfailures
      contradiction

theorem get_noteFailure_of_ne (hother : other ≠ client) :
    (noteFailure map now client).get other = (makeRoom map now).get other := by
  rw [noteFailure]
  exact Table.get_insert_of_ne _ hother _

theorem Counts.of_ne (hcounts : Counts map now other times) (hother : other ≠ client) :
    Counts (noteFailure map now client) now other times := by
  obtain ⟨before, within, since, htimes, hbefore, hwithin, hlength, hsince, hget⟩ := hcounts.makeRoom
  refine ⟨before, within, since, htimes, hbefore, hwithin, hlength, hsince, ?_⟩
  rwa [get_noteFailure_of_ne hother]

theorem counted_noteFailure_of_ne (hother : other ≠ client) :
    counted (noteFailure map now client) now other = counted map now other := by
  rw [counted, get_noteFailure_of_ne hother, ← counted, counted_makeRoom]

/-- A failure in a window that has not ended is one more in it. -/
theorem get_noteFailure_of_fresh {failures : Failures} (hget : map.get client = some failures)
    (hfresh : now - failures.since < window) :
    (noteFailure map now client).get client = some ⟨failures.count + 1, failures.since⟩ := by
  rw [noteFailure, Table.get_insert_self]
  rcases get_makeRoom map now client with hsame | ⟨-, expired, hexpired, hstale⟩
  · rw [hsame, hget, Option.getD_some, if_neg (by omega)]
  · obtain rfl := Option.some.inj (hget.symm.trans hexpired)
    omega

/-- Any other is the first of a window of its own. -/
theorem get_noteFailure_of_stale
    (hstale : ∀ failures, map.get client = some failures → window ≤ now - failures.since) :
    (noteFailure map now client).get client = some ⟨1, now⟩ := by
  rw [noteFailure, Table.get_insert_self]
  rcases get_makeRoom map now client with hsame | ⟨hnone, -⟩
  · rw [hsame]
    cases hget : map.get client with
    | none => simp
    | some failures => rw [Option.getD_some, if_pos (hstale failures hget)]
  · rw [hnone]
    simp

/-- A count in force goes up by one. -/
theorem Counts.noteFailure_of_fresh (hcounts : Counts map now client times)
    (hpast : ∀ time ∈ times, time ≤ now) (hcounted : counted map now client ≠ 0)
    (hlimit : counted map now client < maxFailures) :
    Counts (noteFailure map now client) now client (times ++ [now]) ∧
      counted (noteFailure map now client) now client = counted map now client + 1 := by
  obtain ⟨before, within, since, rfl, hbefore, hwithin, hlength, hsince, hget⟩ := hcounts
  rcases hget with ⟨hget, hmem⟩ | ⟨hget, -⟩
  · have hfresh : now - since < window := by
      by_contra hexpired
      exact hcounted (by rw [counted_of_get hget, if_neg hexpired])
    have hcount : counted map now client = within.length := by
      rw [counted_of_get hget, if_pos hfresh]
    have hnote := get_noteFailure_of_fresh hget hfresh
    refine ⟨⟨before, within ++ [now], since, (List.append_assoc ..), hbefore, ?_, ?_, hsince,
      Or.inl ⟨?_, List.mem_append_left _ hmem⟩⟩, ?_⟩
    · rw [List.forall_mem_append]
      exact ⟨hwithin, by simpa using hsince⟩
    · rw [List.length_append, List.length_singleton]
      omega
    · rw [hnote, List.length_append, List.length_singleton]
    · rw [counted_of_get hnote, if_pos hfresh, hcount]
  · exact absurd (counted_of_get_none hget) hcounted

theorem stale_of_counted (hcounts : Counts map now client times)
    (hcounted : counted map now client = 0) :
    ∀ failures, map.get client = some failures → window ≤ now - failures.since := by
  obtain ⟨before, within, since, rfl, hbefore, hwithin, hlength, hsince, hget⟩ := hcounts
  intro failures hfailures
  by_contra hfresh
  rw [counted_of_get hfailures, if_pos (by omega)] at hcounted
  rcases hget with ⟨hget, hmem⟩ | ⟨hget, -⟩
  · obtain rfl := Option.some.inj (hfailures.symm.trans hget)
    rw [List.length_eq_zero_iff.mp hcounted] at hmem
    contradiction
  · rw [hget] at hfailures
    contradiction

/-- A count that starts anew a window after the last failure leaves none out. -/
theorem Counts.noteFailure_of_stale (hcounts : Counts map now client times)
    (hpast : ∀ time ∈ times, time ≤ now) (hcounted : counted map now client = 0)
    (hnone : recent window now times = 0) :
    Counts (noteFailure map now client) now client (times ++ [now]) ∧
      counted (noteFailure map now client) now client = 1 := by
  have hnote := get_noteFailure_of_stale (stale_of_counted hcounts hcounted)
  have hone : [now].length ≤ maxFailures := Nat.le_of_ble_eq_true rfl
  refine ⟨⟨times, [now], now, rfl, ?_, ?_, hone, le_rfl,
    Or.inl ⟨hnote, List.mem_singleton_self now⟩⟩, ?_⟩
  · intro time htime
    have hold : ¬ now - time < window := by
      simpa using List.countP_eq_zero.mp hnone time htime
    have := hpast time htime
    omega
  · simp
  · rw [counted_of_get hnote, Nat.sub_self, if_pos (by decide)]

end Count

section Runs

variable {state next : State Map IpAddr} {client : IpAddr}

theorem holds_initial : Holds (State.initial .empty) where
  counts _ := ⟨[], [], 0, rfl, by simp, by simp, Nat.zero_le _, le_rfl, Or.inr ⟨rfl, Or.inl rfl⟩⟩
  within _ := Nat.zero_le _

/-- An attempt in flight leaves room for its failure. -/
theorem Holds.counted_lt (hholds : Holds state) (hmem : client ∈ state.inFlight) :
    counted state.counter state.now client < maxFailures := by
  have hwithin := hholds.within client
  have hpending := pending_erase id client hmem
  rw [id, if_pos rfl] at hpending
  omega

theorem Holds.recent_lt (hholds : Holds state) (hallowed : Apart state (.fail client))
    (hmem : client ∈ state.inFlight) :
    recent window state.now (state.failedAt id client) < maxFailures := by
  by_cases hcounted : counted state.counter state.now client = 0
  · rw [hallowed hcounted]
    decide
  · rw [((hholds.counts client).recent_eq hcounted).1]
    exact hholds.counted_lt hmem

theorem Holds.fail (hholds : Holds state)
    (hpast : ∀ failure ∈ state.failures, failure.1 ≤ state.now)
    (hallowed : Apart state (.fail client)) (hmem : client ∈ state.inFlight) :
    Holds { state with
      inFlight := state.inFlight.erase client
      counter := noteFailure state.counter state.now client
      failures := state.failures ++ [(state.now, client)] } := by
  have hboth : Counts (noteFailure state.counter state.now client) state.now client
        (state.failedAt id client ++ [state.now]) ∧
      counted (noteFailure state.counter state.now client) state.now client =
        counted state.counter state.now client + 1 := by
    by_cases hcounted : counted state.counter state.now client = 0
    · rw [hcounted]
      exact (hholds.counts client).noteFailure_of_stale (failedAt_le hpast) hcounted
        (hallowed hcounted)
    · exact (hholds.counts client).noteFailure_of_fresh (failedAt_le hpast) hcounted
        (hholds.counted_lt hmem)
  constructor
  · intro other
    rw [failedAt_concat]
    by_cases hother : id client = other
    · subst hother
      rw [if_pos rfl]
      exact hboth.1
    · rw [if_neg hother]
      exact (hholds.counts other).of_ne (Ne.symm hother)
  · intro other
    have hwithin := hholds.within other
    have hpending := pending_erase id other hmem
    simp only [State.pending] at *
    by_cases hother : id client = other
    · subst hother
      rw [if_pos rfl] at hpending
      have hcount := hboth.2
      simp only [id] at *
      omega
    · rw [if_neg hother] at hpending
      have hsame : counted (noteFailure state.counter state.now client) state.now other =
          counted state.counter state.now other := counted_noteFailure_of_ne (Ne.symm hother)
      omega

theorem holds_of_run (run : Run state) : Holds state := by
  induction run with
  | refl => exact holds_initial
  | tail before hallowed hstep ih =>
      rename_i state next action
      cases action with
      | wait time =>
          obtain rfl := Option.some.inj hstep
          exact ⟨fun client => (ih.counts client).mono (Nat.le_add_right _ _), fun client =>
            (Nat.add_le_add_left (counted_anti (Nat.le_add_right _ _)) _).trans (ih.within client)⟩
      | begin client =>
          rcases step_begin_cases hstep with rfl | ⟨hheard, rfl⟩
          · exact ih
          · have hnone : throttled state.counter state.now client = none := by
              simpa [guard] using hheard
            have hapart := hallowed hnone
            refine ⟨ih.counts, fun other => ?_⟩
            have hwithin := ih.within other
            simp only [State.pending, List.countP_cons] at *
            by_cases hother : id client = other
            · subst hother
              simp only [id, decide_true, if_true] at *
              omega
            · rw [id] at hother
              simpa [hother] using hwithin
      | fail client =>
          obtain ⟨hmem, rfl⟩ := step_fail_eq hstep
          exact ih.fail (past_of_run before) hallowed hmem

/-- Within any fifteen minutes at most ten sign-ins from an address fail. -/
theorem bounded_of_run (run : Run state) (client : IpAddr) :
    Bounded window maxFailures (state.failedAt id client) := by
  refine Guessing.bounded_of_run run fun state other before hallowed hmem hother => ?_
  exact hother ▸ (holds_of_run before).recent_lt hallowed hmem

/-- Whoever has used up the limit is refused. -/
theorem throttled_of_run (run : Run state)
    (hlimit : maxFailures ≤ recent window state.now (state.failedAt id client)) :
    (throttled state.counter state.now client).isSome :=
  ((holds_of_run run).counts client).throttled hlimit

end Runs

section Guesses

open Gateway.SignIns (SignIn Throttle)

variable {libraries : Libraries} {state : State Throttle SignIn} {state' : State Map IpAddr}

/-- Where no more sign-ins are checked side by side than may still fail, and no
failure is forgotten that counts, passwords are guessed no faster than the limits
say, at the gateway and at the management interface. -/
theorem guesses_bounded (run : Gateway.SignIns.Run libraries state) (run' : Run state') :
    ((∀ address, Bounded Gateway.SignIns.window Gateway.SignIns.maxFailuresPerAddress
        (state.failedAt SignIn.address address)) ∧
      (∀ name, Bounded Gateway.SignIns.window Gateway.SignIns.maxFailuresPerName
        (state.failedAt (Gateway.SignIns.nameKey libraries) name)) ∧
      ∀ signIn : SignIn,
        Gateway.SignIns.maxFailuresPerAddress ≤ recent Gateway.SignIns.window state.now
            (state.failedAt SignIn.address signIn.address) ∨
          Gateway.SignIns.maxFailuresPerName ≤ recent Gateway.SignIns.window state.now
            (state.failedAt (Gateway.SignIns.nameKey libraries)
              (Gateway.SignIns.nameKey libraries signIn)) →
        step (Gateway.SignIns.guard libraries) state (.begin signIn) = some state) ∧
    (∀ client, Bounded window maxFailures (state'.failedAt id client)) ∧
      ∀ client, maxFailures ≤ recent window state'.now (state'.failedAt id client) →
        step guard state' (.begin client) = some state' := by
  obtain ⟨haddresses, hnames⟩ := Gateway.SignIns.bounded_of_run run
  refine ⟨⟨haddresses, hnames, fun signIn hlimit => ?_⟩, bounded_of_run run', fun client hlimit => ?_⟩
  · exact if_pos (Gateway.SignIns.throttled_of_run run signIn hlimit)
  · exact if_pos (throttled_of_run run' hlimit)

/-- A visitor who guesses at a name. -/
def guess : SignIn where
  realm := 1
  username := "alice".toList
  address := .v4 0xC6336401

theorem guesses_bounded_of_one_failure :
    ∃ (state : State Throttle SignIn) (state' : State Map IpAddr),
      state.failures = [(0, guess)] ∧ state'.failures = [(0, guess.address)] ∧
        Bounded Gateway.SignIns.window 10 (state.failedAt SignIn.address guess.address) ∧
          Bounded window 10 (state'.failedAt id guess.address) := by
  obtain ⟨state, run, hstate⟩ := Machine.exists_run_of_exec
    (step (Gateway.SignIns.guard .plain)) (State.initial Throttle.new)
    (fun state action => decide (Gateway.SignIns.Apart .plain state action))
    [.begin guess, .fail guess] (fun state => state.failures = [(0, guess)])
    (fun _ _ => of_decide_eq_true) (by decide +kernel)
  obtain ⟨state', run', hstate'⟩ := Machine.exists_run_of_exec (step guard) (State.initial .empty)
    (fun state action => decide (Apart state action)) [.begin guess.address, .fail guess.address]
    (fun state => state.failures = [(0, guess.address)]) (fun _ _ => of_decide_eq_true)
    (by decide +kernel)
  have hbounded := guesses_bounded run run'
  exact ⟨state, state', of_decide_eq_true hstate, of_decide_eq_true hstate',
    hbounded.1.1 _, hbounded.2.1 _⟩

/-- Eleven sign-ins from one address are let through before the first of them is
found to fail. -/
theorem eleven_at_once :
    (∃ state, Machine.Run (step (Gateway.SignIns.guard .plain)) Machine.anything
        (State.initial Throttle.new) state ∧
      ¬ Bounded Gateway.SignIns.window Gateway.SignIns.maxFailuresPerAddress
        (state.failedAt SignIn.address guess.address)) ∧
    ∃ state, Machine.Run (step guard) Machine.anything (State.initial .empty) state ∧
      ¬ Bounded window maxFailures (state.failedAt id guess.address) := by
  constructor
  · obtain ⟨state, run, hstate⟩ := Machine.exists_run_of_exec
      (step (Gateway.SignIns.guard .plain)) (State.initial Throttle.new) (fun _ _ => true)
      (List.replicate 11 (.begin guess) ++ List.replicate 11 (.fail guess))
      (fun state => (state.failedAt SignIn.address guess.address) = List.replicate 11 0)
      (fun _ _ _ => trivial) (by decide +kernel)
    refine ⟨state, run, fun hbounded => ?_⟩
    have hcount := hbounded 0
    rw [of_decide_eq_true hstate] at hcount
    exact absurd hcount (by decide)
  · obtain ⟨state, run, hstate⟩ := Machine.exists_run_of_exec
      (step guard) (State.initial .empty) (fun _ _ => true)
      (List.replicate 11 (.begin guess.address) ++ List.replicate 11 (.fail guess.address))
      (fun state => (state.failedAt id guess.address) = List.replicate 11 0)
      (fun _ _ _ => trivial) (by decide +kernel)
    refine ⟨state, run, fun hbounded => ?_⟩
    have hcount := hbounded 0
    rw [of_decide_eq_true hstate] at hcount
    exact absurd hcount (by decide)

end Guesses

end EasyWaf.Routes.Login
