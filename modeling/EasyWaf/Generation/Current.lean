import EasyWaf.Core.HashMap
import EasyWaf.Core.Machine

/-!
# The configuration generation

`generation::current` reads a counter the database's triggers move, at most once
per `MAX_AGE`.  The check of the age, the query and the write-back are three
steps, and any number of callers take them at once.  The configuration itself is
left open here: it changes by some `change` and carries some `number`.
-/

namespace EasyWaf.Generation

/-- `MAX_AGE`, in nanoseconds. -/
def maxAge : ℕ := 1000000000

/-- The process-wide `SEEN`: the value last read and when it was checked. -/
structure Seen where
  value : ℕ
  checked : Option ℕ

/-- One call of `current`. -/
inductive Call
  | idle
  | reading
  | answered (read : Option ℕ)
  | returned (value : ℕ)
  deriving DecidableEq

/-- The first locked block of `current`. -/
def enter (now : ℕ) (seen : Seen) : Seen × Call :=
  match seen.checked with
  | some checked =>
      if now - checked < maxAge then (seen, .returned seen.value)
      else ({ seen with checked := some now }, .reading)
  -- the very first read is not claimed
  | none => (seen, .reading)

/-- The last locked block of `current`: a failed read keeps the last value. -/
def writeBack (now : ℕ) (seen : Seen) (read : Option ℕ) : Seen × Call :=
  let value := read.getD seen.value
  ({ value := value, checked := some now }, .returned value)

structure World (Config : Type) where
  config : Config
  now : ℕ
  seen : Seen
  calls : ℕ → Call

inductive Event (Change : Type)
  | change (change : Change)
  | tick (elapsed : ℕ)
  | enter (id : ℕ)
  | answer (id : ℕ)
  | fail (id : ℕ)
  | writeBack (id : ℕ)

variable {Config Change : Type}

/-- The world as the process starts: nothing seen and nobody calling. -/
def World.fresh (config : Config) : World Config where
  config := config
  now := 0
  seen := { value := 0, checked := none }
  calls := fun _ => .idle

/-- One call moves on, and `SEEN` with it. -/
def World.advance (world : World Config) (id : ℕ) (result : Seen × Call) : World Config :=
  { world with seen := result.1, calls := Function.update world.calls id result.2 }

section Evolve

variable (change : Config → Change → Option Config) (number : Config → ℕ)

def evolve (world : World Config) : Event Change → Option (World Config)
  | .change how => (change world.config how).map fun config => { world with config := config }
  | .tick elapsed => some { world with now := world.now + elapsed }
  | .enter id =>
      match world.calls id with
      | .idle => some (world.advance id (enter world.now world.seen))
      | _ => none
  | .answer id =>
      match world.calls id with
      | .reading => some (world.advance id (world.seen, .answered (some (number world.config))))
      | _ => none
  | .fail id =>
      match world.calls id with
      | .reading => some (world.advance id (world.seen, .answered none))
      | _ => none
  | .writeBack id =>
      match world.calls id with
      | .answered read => some (world.advance id (writeBack world.now world.seen read))
      | _ => none

/-- Everything the world can do in one step. -/
inductive Moves (world : World Config) : Event Change → World Config → Prop
  | change {how : Change} {config : Config} (hchange : change world.config how = some config) :
      Moves world (.change how) { world with config := config }
  | tick {elapsed : ℕ} : Moves world (.tick elapsed) { world with now := world.now + elapsed }
  | enter {id : ℕ} (hcall : world.calls id = .idle) :
      Moves world (.enter id) (world.advance id (Generation.enter world.now world.seen))
  | answer {id : ℕ} (hcall : world.calls id = .reading) :
      Moves world (.answer id)
        (world.advance id (world.seen, .answered (some (number world.config))))
  | fail {id : ℕ} (hcall : world.calls id = .reading) :
      Moves world (.fail id) (world.advance id (world.seen, .answered none))
  | writeBack {id : ℕ} {read : Option ℕ} (hcall : world.calls id = .answered read) :
      Moves world (.writeBack id)
        (world.advance id (Generation.writeBack world.now world.seen read))

variable {change number}

theorem moves_of_evolve {world next : World Config} {event : Event Change}
    (hstep : evolve change number world event = some next) :
    Moves change number world event next := by
  cases event with
  | change how =>
      simp only [evolve, Option.map_eq_some_iff] at hstep
      obtain ⟨config, hchange, rfl⟩ := hstep
      exact .change hchange
  | tick elapsed =>
      obtain rfl := Option.some.inj hstep
      exact .tick
  | enter id =>
      simp only [evolve] at hstep
      split at hstep
      · next hcall =>
          obtain rfl := Option.some.inj hstep
          exact .enter hcall
      · simp at hstep
  | answer id =>
      simp only [evolve] at hstep
      split at hstep
      · next hcall =>
          obtain rfl := Option.some.inj hstep
          exact .answer hcall
      · simp at hstep
  | fail id =>
      simp only [evolve] at hstep
      split at hstep
      · next hcall =>
          obtain rfl := Option.some.inj hstep
          exact .fail hcall
      · simp at hstep
  | writeBack id =>
      simp only [evolve] at hstep
      split at hstep
      · next hcall =>
          obtain rfl := Option.some.inj hstep
          exact .writeBack hcall
      · simp at hstep

end Evolve

@[simp]
theorem World.advance_config (world : World Config) (id : ℕ) (result : Seen × Call) :
    (world.advance id result).config = world.config := rfl

@[simp]
theorem World.advance_seen (world : World Config) (id : ℕ) (result : Seen × Call) :
    (world.advance id result).seen = result.1 := rfl

@[simp]
theorem World.advance_calls_self (world : World Config) (id : ℕ) (result : Seen × Call) :
    (world.advance id result).calls id = result.2 := by
  simp [World.advance]

theorem World.advance_calls_ne (world : World Config) {id other : ℕ} (result : Seen × Call)
    (hother : other ≠ id) : (world.advance id result).calls other = world.calls other := by
  simp [World.advance, hother]

theorem enter_value (now : ℕ) (seen : Seen) : (enter now seen).1.value = seen.value := by
  unfold enter
  split
  · split <;> rfl
  · rfl

/-- A call that returns at once returns the value seen. -/
theorem eq_value_of_enter {now : ℕ} {seen : Seen} {value : ℕ}
    (hreturned : (enter now seen).2 = .returned value) : value = seen.value := by
  unfold enter at hreturned
  split at hreturned
  · split at hreturned
    · exact (Call.returned.inj hreturned).symm
    · simp at hreturned
  · simp at hreturned

theorem enter_ne_answered (now : ℕ) (seen : Seen) (read : Option ℕ) :
    (enter now seen).2 ≠ .answered read := by
  unfold enter
  split
  · split <;> simp
  · simp

section Behind

variable {change : Config → Change → Option Config} {number : Config → ℕ}

/-- Every number the callers hold has been the database's: none is ahead of
it. -/
structure Behind (number : Config → ℕ) (world : World Config) : Prop where
  seen : world.seen.value ≤ number world.config
  answered : ∀ id value, world.calls id = .answered (some value) → value ≤ number world.config
  returned : ∀ id value, world.calls id = .returned value → value ≤ number world.config

theorem behind_fresh (config : Config) : Behind number (World.fresh config) where
  seen := Nat.zero_le _
  answered id value hcall := by simp [World.fresh] at hcall
  returned id value hcall := by simp [World.fresh] at hcall

theorem Behind.advance {world : World Config} (hbehind : Behind number world) {id : ℕ}
    {result : Seen × Call} (hseen : result.1.value ≤ number world.config)
    (hanswered : ∀ value, result.2 = .answered (some value) → value ≤ number world.config)
    (hreturned : ∀ value, result.2 = .returned value → value ≤ number world.config) :
    Behind number (world.advance id result) where
  seen := hseen
  answered other value hcall := by
    by_cases hother : other = id
    · subst hother
      exact hanswered value (by simpa using hcall)
    · exact hbehind.answered other value (world.advance_calls_ne result hother ▸ hcall)
  returned other value hcall := by
    by_cases hother : other = id
    · subst hother
      exact hreturned value (by simpa using hcall)
    · exact hbehind.returned other value (world.advance_calls_ne result hother ▸ hcall)

/-- Nobody gets ahead of a database whose number no write lowers. -/
theorem Behind.step (hmono : ∀ config how config', change config how = some config' →
      number config ≤ number config')
    {world next : World Config} {event : Event Change} (hbehind : Behind number world)
    (hstep : evolve change number world event = some next) : Behind number next := by
  cases moves_of_evolve hstep with
  | change hchange =>
      have hraise := hmono _ _ _ hchange
      exact ⟨hbehind.seen.trans hraise,
        fun id value hcall => (hbehind.answered id value hcall).trans hraise,
        fun id value hcall => (hbehind.returned id value hcall).trans hraise⟩
  | tick => exact ⟨hbehind.seen, hbehind.answered, hbehind.returned⟩
  | enter _ =>
      refine hbehind.advance ?_ ?_ ?_
      · exact (enter_value _ _).le.trans hbehind.seen
      · exact fun value hanswered => absurd hanswered (enter_ne_answered _ _ _)
      · exact fun value hreturned => eq_value_of_enter hreturned ▸ hbehind.seen
  | answer _ =>
      refine hbehind.advance hbehind.seen ?_ (by simp)
      intro value hvalue
      simp only [Call.answered.injEq, Option.some.injEq] at hvalue
      exact hvalue.ge
  | fail _ => exact hbehind.advance hbehind.seen (by simp) (by simp)
  | @writeBack id read hcall =>
      have hvalue : read.getD world.seen.value ≤ number world.config := by
        cases read with
        | none => exact hbehind.seen
        | some value => exact hbehind.answered id value hcall
      refine hbehind.advance hvalue (by simp [writeBack]) ?_
      intro value hreturned
      simp only [writeBack, Call.returned.injEq] at hreturned
      exact hreturned ▸ hvalue

theorem number_le_of_evolve (hmono : ∀ config how config', change config how = some config' →
      number config ≤ number config')
    {world next : World Config} {event : Event Change}
    (hstep : evolve change number world event = some next) :
    number world.config ≤ number next.config := by
  cases moves_of_evolve hstep with
  | change hchange => exact hmono _ _ _ hchange
  | _ => exact le_refl _

end Behind

section Forwards

variable (change : Config → Change → Option Config) (number : Config → ℕ)

/-- A call only writes back a number that is not below the one seen. -/
def keepsNewer (world : World Config) : Event Change → Prop
  | .writeBack id =>
      match world.calls id with
      | .answered (some value) => world.seen.value ≤ value
      | _ => True
  | _ => True

instance (world : World Config) (event : Event Change) : Decidable (keepsNewer world event) := by
  unfold keepsNewer
  split
  · split <;> infer_instance
  · infer_instance

variable {change number}

/-- Nothing returned is above what is seen. -/
def ReturnedSeen (world : World Config) : Prop :=
  ∀ id value, world.calls id = .returned value → value ≤ world.seen.value

theorem seen_le_of_keepsNewer {world next : World Config} {event : Event Change}
    (hkeeps : keepsNewer world event) (hstep : evolve change number world event = some next) :
    world.seen.value ≤ next.seen.value := by
  cases moves_of_evolve hstep with
  | enter _ => exact (enter_value _ _).ge
  | @writeBack id read hcall =>
      cases read with
      | none => exact le_refl _
      | some value => simpa [keepsNewer, hcall, writeBack] using hkeeps
  | _ => exact le_refl _

/-- A call that returns in this step returns what is seen after it. -/
theorem returned_of_step {world next : World Config} {event : Event Change} {id value : ℕ}
    (hstep : evolve change number world event = some next)
    (hreturned : next.calls id = .returned value) :
    world.calls id = .returned value ∨ value = next.seen.value := by
  have hadvance {other : ℕ} {result : Seen × Call}
      (hresult : result.2 = .returned value → value = result.1.value)
      (hcall : (world.advance other result).calls id = .returned value) :
      world.calls id = .returned value ∨ value = (world.advance other result).seen.value := by
    by_cases hother : id = other
    · subst hother
      exact .inr (hresult (by simpa using hcall))
    · exact .inl (world.advance_calls_ne result hother ▸ hcall)
  cases moves_of_evolve hstep with
  | change _ => exact .inl hreturned
  | tick => exact .inl hreturned
  | enter _ =>
      refine hadvance (fun henter => ?_) hreturned
      exact (eq_value_of_enter henter).trans (enter_value _ _).symm
  | answer _ => exact hadvance (by simp) hreturned
  | fail _ => exact hadvance (by simp) hreturned
  | writeBack _ =>
      refine hadvance (fun hback => ?_) hreturned
      simp only [writeBack, Call.returned.injEq] at hback ⊢
      exact hback.symm

theorem ReturnedSeen.step {world next : World Config} {event : Event Change}
    (hseen : ReturnedSeen world) (hkeeps : keepsNewer world event)
    (hstep : evolve change number world event = some next) : ReturnedSeen next := by
  intro id value hreturned
  rcases returned_of_step hstep hreturned with hbefore | rfl
  · exact (hseen id value hbefore).trans (seen_le_of_keepsNewer hkeeps hstep)
  · exact le_refl _

/-- What is returned from here on is not below `floor`. -/
def ReturnsFrom (floor : ℕ) (waiting : ℕ → Prop) (world : World Config) : Prop :=
  floor ≤ world.seen.value ∧
    ∀ id, waiting id → ∀ value, world.calls id = .returned value → floor ≤ value

theorem ReturnsFrom.step {floor : ℕ} {waiting : ℕ → Prop} {world next : World Config}
    {event : Event Change} (hfrom : ReturnsFrom floor waiting world)
    (hkeeps : keepsNewer world event)
    (hstep : evolve change number world event = some next) :
    ReturnsFrom floor waiting next := by
  have hfloor := hfrom.1.trans (seen_le_of_keepsNewer hkeeps hstep)
  refine ⟨hfloor, fun id hwaiting value hreturned => ?_⟩
  rcases returned_of_step hstep hreturned with hbefore | rfl
  · exact hfrom.2 id hwaiting value hbefore
  · exact hfloor

/-- Where no call writes an older number over a newer one, a call that starts
after another has returned returns no less. -/
theorem current_never_goes_backwards {config : Config} {world later : World Config}
    {first second returned returned' : ℕ}
    (run : Machine.Run (evolve change number) keepsNewer (World.fresh config) world)
    (hfirst : world.calls first = .returned returned)
    (hsecond : world.calls second = .idle)
    (run' : Machine.Run (evolve change number) keepsNewer world later)
    (hlater : later.calls second = .returned returned') : returned ≤ returned' := by
  have hseen : ReturnedSeen world :=
    run.invariant _ (fun _ _ _ hseen hkeeps hstep => hseen.step hkeeps hstep)
      fun id value hcall => by simp [World.fresh] at hcall
  have hfrom : ReturnsFrom returned (· = second) world :=
    ⟨hseen first returned hfirst, by rintro _ rfl value hcall; simp [hsecond] at hcall⟩
  have hend := run'.invariant (ReturnsFrom returned (· = second))
    (fun _ _ _ hfrom hkeeps hstep => hfrom.step hkeeps hstep) hfrom
  exact hend.2 second rfl returned' hlater

end Forwards

/-- A configuration that is its own number, raised by each change. -/
abbrev counterChange (number : ℕ) (_ : Unit) : Option ℕ := some (number + 1)

/-- Two callers read before anything has been checked, so neither claimed the
read; the second sees a write the first does not, and writes back first. -/
theorem current_goes_backwards :
    ∃ world later : World ℕ,
      Machine.Run (evolve counterChange id) Machine.anything (World.fresh 0) world ∧
      world.calls 1 = .returned 1 ∧ world.calls 2 = .idle ∧
      Machine.Run (evolve counterChange id) Machine.anything world later ∧
      later.calls 2 = .returned 0 := by
  obtain ⟨world, later, run, hworld, run', hlater⟩ := Machine.exists_runs_of_exec
    (evolve counterChange id) (World.fresh 0) (fun _ _ => true)
    [.enter 0, .answer 0, .change (), .enter 1, .answer 1, .writeBack 1]
    [.writeBack 0, .enter 2]
    (fun world => decide (world.calls 1 = .returned 1) && decide (world.calls 2 = .idle))
    (fun later => decide (later.calls 2 = .returned 0)) (fun _ _ _ => trivial) (by decide)
  simp only [Bool.and_eq_true, decide_eq_true_eq] at hworld hlater
  exact ⟨world, later, run, hworld.1, hworld.2, run', hlater⟩

/-- Two calls with a write and more than `maxAge` between them. -/
theorem current_never_goes_backwards_of_two :
    ∃ world later : World ℕ, world.calls 0 = .returned 0 ∧ later.calls 1 = .returned 1 ∧
      0 ≤ 1 := by
  obtain ⟨world, later, run, hworld, run', hlater⟩ := Machine.exists_runs_of_exec
    (evolve counterChange id) (World.fresh 0)
    (fun world event => decide (keepsNewer world event))
    [.enter 0, .answer 0, .writeBack 0]
    [.change (), .tick (2 * maxAge), .enter 1, .answer 1, .writeBack 1]
    (fun world => decide (world.calls 0 = .returned 0) && decide (world.calls 1 = .idle))
    (fun later => decide (later.calls 1 = .returned 1))
    (fun _ _ => of_decide_eq_true) (by decide)
  simp only [Bool.and_eq_true, decide_eq_true_eq] at hworld hlater
  exact ⟨world, later, hworld.1, hlater,
    current_never_goes_backwards run hworld.1 hworld.2 run' hlater⟩

end EasyWaf.Generation

/-!
## A value per site, valid for one generation
-/

namespace EasyWaf.Generation

open EasyWaf.Core

/-- `PerSite<T>`: what it holds, all of it stored under one generation. -/
structure PerSite (Value : Type) where
  generation : ℕ
  bySite : HashMap ℤ Value

namespace PerSite

variable {Value : Type}

def new : PerSite Value where
  generation := 0
  bySite := HashMap.empty

/-- The value for this site if it was stored under this generation. -/
def get (entries : PerSite Value) (generation : ℕ) (siteId : ℤ) : Option Value :=
  if entries.generation = generation then entries.bySite siteId else none

/-- Store a value read at `generation`, unless newer ones are held. -/
def put (entries : PerSite Value) (generation : ℕ) (siteId : ℤ) (value : Value) :
    PerSite Value :=
  let moved :=
    if generation > entries.generation then
      { generation := generation, bySite := HashMap.empty }
    else entries
  if generation = moved.generation then
    { moved with bySite := moved.bySite.insert siteId value }
  else moved

@[simp]
theorem get_new (generation : ℕ) (siteId : ℤ) :
    (new : PerSite Value).get generation siteId = none := by
  by_cases h : 0 = generation <;> simp [get, new, HashMap.empty, h]

/-- What is served was stored under the very generation asked for. -/
theorem generation_of_get {entries : PerSite Value} {generation : ℕ} {siteId : ℤ} {value : Value}
    (hget : entries.get generation siteId = some value) : entries.generation = generation := by
  by_contra hne
  simp [get, hne] at hget

/-- A value read at an older generation is not kept. -/
theorem put_of_lt {entries : PerSite Value} {generation : ℕ} (siteId : ℤ) (value : Value)
    (holder : generation < entries.generation) :
    entries.put generation siteId value = entries := by
  simp [put, not_lt_of_gt holder, holder.ne]

theorem generation_le_put (entries : PerSite Value) (generation : ℕ) (siteId : ℤ)
    (value : Value) : entries.generation ≤ (entries.put generation siteId value).generation := by
  unfold put
  split
  · next hnewer => simpa using hnewer.le
  · dsimp only
    split <;> exact le_refl _

/-- After a value is stored, no older one is served. -/
theorem le_generation_put (entries : PerSite Value) (generation : ℕ) (siteId : ℤ)
    (value : Value) : generation ≤ (entries.put generation siteId value).generation := by
  unfold put
  split
  · simp
  · next hnewer =>
      dsimp only
      split <;> exact not_lt.mp hnewer

/-- A stored value is found under its own site and generation only. -/
theorem get_put {entries : PerSite Value} {generation generation' : ℕ} {siteId siteId' : ℤ}
    {value value' : Value}
    (hget : (entries.put generation siteId value).get generation' siteId' = some value') :
    (generation' = generation ∧ siteId' = siteId ∧ value' = value) ∨
      entries.get generation' siteId' = some value' := by
  rcases lt_trichotomy generation entries.generation with holder | heq | hnewer
  · rw [put_of_lt siteId value holder] at hget
    exact .inr hget
  · subst heq
    have hsame := generation_of_get hget
    simp only [put, gt_iff_lt, lt_self_iff_false, if_false, if_true] at hget hsame
    subst hsame
    simp only [get, if_true] at hget
    rcases HashMap.insert_eq_some hget with ⟨rfl, rfl⟩ | hbefore
    · exact .inl ⟨rfl, rfl, rfl⟩
    · exact .inr (by simpa [get] using hbefore)
  · have hsame := generation_of_get hget
    simp only [put, gt_iff_lt, hnewer, if_true] at hget hsame
    subst hsame
    simp only [get, if_true] at hget
    rcases HashMap.insert_eq_some hget with ⟨rfl, rfl⟩ | hbefore
    · exact .inl ⟨rfl, rfl, rfl⟩
    · simp [HashMap.empty] at hbefore

end PerSite

end EasyWaf.Generation
