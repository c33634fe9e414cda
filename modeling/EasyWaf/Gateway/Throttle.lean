import EasyWaf.Libraries
import EasyWaf.Net.IpAddr
import EasyWaf.SlidingCounter

/-!
# How fast passwords can be guessed

Failed sign-ins are counted for each address and for each name.  The count is
looked at before the password is checked and raised after, and any number of
sign-ins are checked at once.
-/

namespace EasyWaf.Gateway.SignIns

open Guessing Net

def maxFailuresPerAddress : ℕ := 10

def maxFailuresPerName : ℕ := 50

/-- How long failures are remembered, in nanoseconds. -/
def window : ℕ := 10 * 60 * 10 ^ 9

def maxCounted : ℕ := 50000

/-- A sign-in at a realm, on the form or by HTTP Basic. -/
structure SignIn where
  realm : ℤ
  username : Text
  address : IpAddr
  deriving DecidableEq

structure Throttle where
  addresses : SlidingCounter IpAddr
  names : SlidingCounter (ℤ × Text)

def Throttle.new : Throttle where
  addresses := .new maxCounted
  names := .new maxCounted

variable (libraries : Libraries)

/-- What a name's failures are counted under. -/
def nameKey (signIn : SignIn) : ℤ × Text :=
  (signIn.realm, libraries.toLowercase signIn.username)

def throttled (throttle : Throttle) (now : ℕ) (signIn : SignIn) : Bool :=
  maxFailuresPerAddress ≤ throttle.addresses.count signIn.address now window ||
    maxFailuresPerName ≤ throttle.names.count (nameKey libraries signIn) now window

def noteFailure (throttle : Throttle) (now : ℕ) (signIn : SignIn) : Throttle where
  addresses := (throttle.addresses.record signIn.address now window maxFailuresPerAddress).1
  names := (throttle.names.record (nameKey libraries signIn) now window maxFailuresPerName).1

def guard : Guard Throttle SignIn where
  refuses := throttled libraries
  noteFailure := noteFailure libraries

/-- Sign-ins are not checked side by side beyond what is left of either limit, and
the counters have room for who failed. -/
def Apart (state : State Throttle SignIn) : Action SignIn → Prop
  | .wait _ => True
  | .begin signIn =>
      throttled libraries state.counter state.now signIn = false →
        state.pending SignIn.address signIn.address +
            state.counter.addresses.count signIn.address state.now window < maxFailuresPerAddress ∧
          state.pending (nameKey libraries) (nameKey libraries signIn) +
            state.counter.names.count (nameKey libraries signIn) state.now window < maxFailuresPerName
  | .fail signIn =>
      state.counter.addresses.HasRoom signIn.address state.now window ∧
        state.counter.names.HasRoom (nameKey libraries signIn) state.now window

instance (state : State Throttle SignIn) (action : Action SignIn) :
    Decidable (Apart libraries state action) := by
  cases action <;> unfold Apart <;> infer_instance

variable {libraries} {state : State Throttle SignIn}

/-- A run of sign-ins that all fail. -/
abbrev Run (libraries : Libraries) (state : State Throttle SignIn) : Prop :=
  Machine.Run (step (guard libraries)) (Apart libraries) (State.initial Throttle.new) state

theorem guards_of_run (run : Run libraries state) :
    state.counter.addresses.Guards SignIn.address window maxFailuresPerAddress state ∧
      state.counter.names.Guards (nameKey libraries) window maxFailuresPerName state := by
  refine Machine.Run.invariant (fun state =>
    state.counter.addresses.Guards SignIn.address window maxFailuresPerAddress state ∧
      state.counter.names.Guards (nameKey libraries) window maxFailuresPerName state) run ?_
    ⟨SlidingCounter.guards_new _ _, SlidingCounter.guards_new _ _⟩
  rintro state action next ⟨haddresses, hnames⟩ hallowed hstep
  cases action with
  | wait time =>
      obtain rfl := Option.some.inj hstep
      exact ⟨haddresses.wait time, hnames.wait time⟩
  | begin signIn =>
      rcases step_begin_cases hstep with rfl | ⟨hheard, rfl⟩
      · exact ⟨haddresses, hnames⟩
      · obtain ⟨haddress, hname⟩ := hallowed hheard
        exact ⟨haddresses.begin haddress, hnames.begin hname⟩
  | fail signIn =>
      obtain ⟨hmem, rfl⟩ := step_fail_eq hstep
      exact ⟨haddresses.fail (by decide) hmem hallowed.1 _,
        hnames.fail (by decide) hmem hallowed.2 _⟩

/-- Within any ten minutes at most ten sign-ins from an address fail, and fifty for
a name. -/
theorem bounded_of_run (run : Run libraries state) :
    (∀ address, Bounded window maxFailuresPerAddress (state.failedAt SignIn.address address)) ∧
      ∀ name, Bounded window maxFailuresPerName (state.failedAt (nameKey libraries) name) := by
  constructor
  · intro address
    refine Guessing.bounded_of_run run fun state signIn before _ hmem haddress => ?_
    exact haddress ▸ (guards_of_run before).1.recent_lt hmem
  · intro name
    refine Guessing.bounded_of_run run fun state signIn before _ hmem hname => ?_
    exact hname ▸ (guards_of_run before).2.recent_lt hmem

/-- Whoever has used up either limit is refused. -/
theorem throttled_of_run (run : Run libraries state) (signIn : SignIn)
    (hlimit : maxFailuresPerAddress ≤
        recent window state.now (state.failedAt SignIn.address signIn.address) ∨
      maxFailuresPerName ≤
        recent window state.now (state.failedAt (nameKey libraries) (nameKey libraries signIn))) :
    throttled libraries state.counter state.now signIn = true := by
  obtain ⟨haddresses, hnames⟩ := guards_of_run run
  rw [throttled, haddresses.tracks.count _ _ le_rfl, hnames.tracks.count _ _ le_rfl]
  simpa using hlimit

end EasyWaf.Gateway.SignIns
