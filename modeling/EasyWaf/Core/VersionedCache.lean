import EasyWaf.Core.Load
import EasyWaf.Core.Machine

/-!
# A cache filed under a version number

A request learns a version number, looks its key up under it, and on a miss
reads the value piece by piece and files it under the number learned before the
first read.  Any number of requests do so at once while the world moves on.
The machine below takes one such step at a time; `Tracking` is the rule by which
an invariant of the reads under way becomes one of everything cached or served.
-/

namespace EasyWaf.Core

/-- What one request is doing. -/
inductive Task (Source Version Key Value : Type) : Type 1
  | idle
  | asking (version : Version) (key : Key)
  | loading (version : Version) (key : Key) (rest : Load Source Value) (orElse : Value)
  | found (version : Version) (key : Key) (value : Value)
  | loaded (version : Version) (key : Key) (value : Value)
  | fellBack (version : Version) (key : Key) (value : Value)

/-- A cache in front of a changing world, of which the loads read the source. -/
structure Service (World Source Event Request Version Key Value Held : Type) where
  evolve : World → Event → Option World
  view : World → Source
  /-- The version number the source carries. -/
  stamp : Source → Version
  /-- The version number a request has learned, once it has. -/
  granted : World → ℕ → Option Version
  /-- What a request looks up. -/
  key : World → Request → Key
  load : Version → Key → Load Source Value
  get : Held → Version → Key → Option Value
  put : Held → Version → Key → Value → Held
  /-- What is served when the reads give up. -/
  fallback : Held → Key → Value

namespace Service

variable {World Source Event Request Version Key Value Held : Type}

/-- The world, everything its source has been, what the cache holds and what
every request is doing. -/
structure State (World Source Version Key Value Held : Type) : Type 1 where
  world : World
  past : List Source
  held : Held
  tasks : ℕ → Task Source Version Key Value

/-- One step of the world or of one request. -/
inductive Action (Event Request : Type)
  | evolve (event : Event)
  | ask (id : ℕ) (request : Request)
  | look (id : ℕ)
  | answer (id : ℕ)
  | fail (id : ℕ)
  | finish (id : ℕ)

/-- `state` with one request doing something else. -/
def State.assign (state : State World Source Version Key Value Held) (id : ℕ)
    (task : Task Source Version Key Value) : State World Source Version Key Value Held :=
  { state with tasks := Function.update state.tasks id task }

variable (service : Service World Source Event Request Version Key Value Held)

def step (state : State World Source Version Key Value Held) :
    Action Event Request → Option (State World Source Version Key Value Held)
  | .evolve event =>
      (service.evolve state.world event).map fun world =>
        { state with world, past := service.view world :: state.past }
  | .ask id request =>
      match state.tasks id, service.granted state.world id with
      | .idle, some version =>
          some (state.assign id (.asking version (service.key state.world request)))
      | _, _ => none
  | .look id =>
      match state.tasks id with
      | .asking version key =>
          match service.get state.held version key with
          | some value => some (state.assign id (.found version key value))
          | none =>
              some (state.assign id
                (.loading version key (service.load version key)
                  (service.fallback state.held key)))
      | _ => none
  | .answer id =>
      match state.tasks id with
      | .loading version key (.read query next) orElse =>
          some (state.assign id (.loading version key (next (some (query (service.view state.world)))) orElse))
      | _ => none
  | .fail id =>
      match state.tasks id with
      | .loading version key (.read _ next) orElse =>
          some (state.assign id (.loading version key (next none) orElse))
      | _ => none
  | .finish id =>
      match state.tasks id with
      | .loading version key (.done value) _ =>
          some { state.assign id (.loaded version key value) with
            held := service.put state.held version key value }
      | .loading version key .refused orElse =>
          some (state.assign id (.fellBack version key orElse))
      | _ => none

/-- Everything a step can do. -/
inductive Moves (state : State World Source Version Key Value Held) :
    Action Event Request → State World Source Version Key Value Held → Prop
  | evolve {event : Event} {world : World}
      (hevolve : service.evolve state.world event = some world) :
      Moves state (.evolve event) { state with world, past := service.view world :: state.past }
  | ask {id : ℕ} {request : Request} {version : Version} (htask : state.tasks id = .idle)
      (hgranted : service.granted state.world id = some version) :
      Moves state (.ask id request)
        (state.assign id (.asking version (service.key state.world request)))
  | hit {id : ℕ} {version : Version} {key : Key} {value : Value}
      (htask : state.tasks id = .asking version key)
      (hget : service.get state.held version key = some value) :
      Moves state (.look id) (state.assign id (.found version key value))
  | miss {id : ℕ} {version : Version} {key : Key}
      (htask : state.tasks id = .asking version key)
      (hget : service.get state.held version key = none) :
      Moves state (.look id)
        (state.assign id (.loading version key (service.load version key)
          (service.fallback state.held key)))
  | answer {id : ℕ} {version : Version} {key : Key} {Answer : Type} {query : Source → Answer}
      {next : Option Answer → Load Source Value} {orElse : Value}
      (htask : state.tasks id = .loading version key (.read query next) orElse) :
      Moves state (.answer id)
        (state.assign id (.loading version key (next (some (query (service.view state.world)))) orElse))
  | fail {id : ℕ} {version : Version} {key : Key} {Answer : Type} {query : Source → Answer}
      {next : Option Answer → Load Source Value} {orElse : Value}
      (htask : state.tasks id = .loading version key (.read query next) orElse) :
      Moves state (.fail id) (state.assign id (.loading version key (next none) orElse))
  | file {id : ℕ} {version : Version} {key : Key} {value orElse : Value}
      (htask : state.tasks id = .loading version key (.done value) orElse) :
      Moves state (.finish id)
        { state.assign id (.loaded version key value) with
          held := service.put state.held version key value }
  | giveUp {id : ℕ} {version : Version} {key : Key} {orElse : Value}
      (htask : state.tasks id = .loading version key .refused orElse) :
      Moves state (.finish id) (state.assign id (.fellBack version key orElse))

variable {service}

theorem moves_of_step {state next : State World Source Version Key Value Held}
    {action : Action Event Request} (hstep : service.step state action = some next) :
    service.Moves state action next := by
  cases action with
  | evolve event =>
      simp only [step, Option.map_eq_some_iff] at hstep
      obtain ⟨world, hevolve, rfl⟩ := hstep
      exact .evolve hevolve
  | ask id request =>
      simp only [step] at hstep
      split at hstep
      · next version htask hgranted =>
          obtain rfl := Option.some.inj hstep
          exact .ask htask hgranted
      · simp at hstep
  | look id =>
      simp only [step] at hstep
      split at hstep
      · next version key htask =>
          split at hstep
          · next value hget =>
              obtain rfl := Option.some.inj hstep
              exact .hit htask hget
          · next hget =>
              obtain rfl := Option.some.inj hstep
              exact .miss htask hget
      · simp at hstep
  | answer id =>
      simp only [step] at hstep
      split at hstep
      · next htask =>
          obtain rfl := Option.some.inj hstep
          exact .answer htask
      · simp at hstep
  | fail id =>
      simp only [step] at hstep
      split at hstep
      · next htask =>
          obtain rfl := Option.some.inj hstep
          exact .fail htask
      · simp at hstep
  | finish id =>
      simp only [step] at hstep
      split at hstep
      · next htask =>
          obtain rfl := Option.some.inj hstep
          exact .file htask
      · next htask =>
          obtain rfl := Option.some.inj hstep
          exact .giveUp htask
      · simp at hstep

/-- Nothing held, nobody asking, and the present the only source there has
been. -/
structure Starts (service : Service World Source Event Request Version Key Value Held)
    (state : State World Source Version Key Value Held) : Prop where
  past : state.past = [service.view state.world]
  empty : ∀ version key, service.get state.held version key = none
  idle : ∀ id, state.tasks id = .idle

section Invariants

variable [Preorder Version]

/-- What the world and the cache have to keep to. -/
structure Lawful (service : Service World Source Event Request Version Key Value Held)
    (Sound : World → Prop) : Prop where
  sound : ∀ world event world', Sound world → service.evolve world event = some world' →
    Sound world'
  stamp : ∀ world event world', Sound world → service.evolve world event = some world' →
    service.stamp (service.view world) ≤ service.stamp (service.view world')
  granted : ∀ world id version, Sound world → service.granted world id = some version →
    version ≤ service.stamp (service.view world)
  /-- Filing a value makes that value found under its own key and version only. -/
  put : ∀ held version key value version' key' value',
    service.get (service.put held version key value) version' key' = some value' →
      (version' = version ∧ key' = key ∧ value' = value) ∨
        service.get held version' key' = some value'

/-- The version a request goes by, once it has one. -/
def Task.version? : Task Source Version Key Value → Option Version
  | .idle => none
  | .asking version _ | .loading version _ _ _ | .found version _ _ | .loaded version _ _
  | .fellBack version _ _ => some version

/-- The present is one of the sources there have been, it carries the highest
version, and no request goes by a version ahead of it. -/
structure Ordered (service : Service World Source Event Request Version Key Value Held)
    (Sound : World → Prop) (state : State World Source Version Key Value Held) : Prop where
  sound : Sound state.world
  present : service.view state.world ∈ state.past
  highest : ∀ source ∈ state.past,
    service.stamp source ≤ service.stamp (service.view state.world)
  behind : ∀ id version, Task.version? (state.tasks id) = some version →
    version ≤ service.stamp (service.view state.world)

theorem Starts.ordered {Sound : World → Prop} {state : State World Source Version Key Value Held}
    (hstarts : service.Starts state) (hsound : Sound state.world) :
    service.Ordered Sound state where
  sound := hsound
  present := by simp [hstarts.past]
  highest := by simp [hstarts.past]
  behind id version htask := by simp [hstarts.idle, Task.version?] at htask

/-- A task that changes keeps behind the present if its new version is. -/
theorem Ordered.assign {Sound : World → Prop} {state : State World Source Version Key Value Held}
    (hordered : service.Ordered Sound state) (id : ℕ) (task : Task Source Version Key Value)
    (hversion : ∀ version, Task.version? task = some version →
      version ≤ service.stamp (service.view state.world)) :
    service.Ordered Sound (state.assign id task) where
  sound := hordered.sound
  present := hordered.present
  highest := hordered.highest
  behind other version htask := by
    by_cases hother : other = id
    · subst hother
      exact hversion version (by simpa [State.assign] using htask)
    · exact hordered.behind other version (by simpa [State.assign, hother] using htask)

theorem Ordered.step {Sound : World → Prop} (lawful : service.Lawful Sound)
    {state next : State World Source Version Key Value Held} {action : Action Event Request}
    (hordered : service.Ordered Sound state) (hstep : service.step state action = some next) :
    service.Ordered Sound next := by
  have hkeep (id : ℕ) (task : Task Source Version Key Value)
      (hsame : Task.version? task = Task.version? (state.tasks id)) :
      service.Ordered Sound (state.assign id task) :=
    hordered.assign id task fun version hversion =>
      hordered.behind id version (hsame ▸ hversion)
  cases moves_of_step hstep with
  | evolve hevolve =>
      have hrise := lawful.stamp _ _ _ hordered.sound hevolve
      refine ⟨lawful.sound _ _ _ hordered.sound hevolve, List.mem_cons_self, ?_, ?_⟩
      · intro source hsource
        rcases List.mem_cons.mp hsource with rfl | hsource
        · exact le_refl _
        · exact (hordered.highest source hsource).trans hrise
      · exact fun id version htask => (hordered.behind id version htask).trans hrise
  | ask htask hgranted =>
      refine hordered.assign _ _ fun version hversion => ?_
      obtain rfl := Option.some.inj hversion
      exact lawful.granted _ _ _ hordered.sound hgranted
  | hit htask _ => exact hkeep _ _ (by simp [htask, Task.version?])
  | miss htask _ => exact hkeep _ _ (by simp [htask, Task.version?])
  | answer htask => exact hkeep _ _ (by simp [htask, Task.version?])
  | fail htask => exact hkeep _ _ (by simp [htask, Task.version?])
  | @file id version key value orElse htask =>
      have hloaded := hkeep id (.loaded version key value) (by simp [htask, Task.version?])
      exact ⟨hloaded.sound, hloaded.present, hloaded.highest, hloaded.behind⟩
  | giveUp htask => exact hkeep _ _ (by simp [htask, Task.version?])

/-- An invariant `Tracked` of reads under way, and `Served` of the values they
end with, that every allowed step keeps. -/
structure Tracking (service : Service World Source Event Request Version Key Value Held)
    (Sound : World → Prop)
    (allowed : State World Source Version Key Value Held → Action Event Request → Prop)
    (Tracked : Source → List Source → Version → Key → Load Source Value → Prop)
    (Served : List Source → Version → Key → Value → Prop) : Prop where
  start : ∀ state version key, service.Ordered Sound state →
    version ≤ service.stamp (service.view state.world) →
    Tracked (service.view state.world) state.past version key (service.load version key)
  evolve : ∀ state event world id version key rest orElse, service.Ordered Sound state →
    allowed state (.evolve event) → service.evolve state.world event = some world →
    state.tasks id = .loading version key rest orElse →
    Tracked (service.view state.world) state.past version key rest →
    Tracked (service.view world) (service.view world :: state.past) version key rest
  answer : ∀ state id version key {Answer : Type} (query : Source → Answer) next orElse,
    service.Ordered Sound state →
    state.tasks id = .loading version key (.read query next) orElse →
    Tracked (service.view state.world) state.past version key (.read query next) →
    Tracked (service.view state.world) state.past version key (next (some (query (service.view state.world))))
  fail : ∀ state id version key {Answer : Type} (query : Source → Answer) next orElse,
    service.Ordered Sound state → allowed state (.fail id) →
    state.tasks id = .loading version key (.read query next) orElse →
    Tracked (service.view state.world) state.past version key (.read query next) →
    Tracked (service.view state.world) state.past version key (next none)
  done : ∀ state version key value, service.Ordered Sound state →
    version ≤ service.stamp (service.view state.world) →
    Tracked (service.view state.world) state.past version key (.done value) →
    Served state.past version key value
  later : ∀ source past version key value, Served past version key value →
    Served (source :: past) version key value

/-- Everything held, served or under way is as `Tracking` has it. -/
structure Kept (service : Service World Source Event Request Version Key Value Held)
    (Sound : World → Prop)
    (Tracked : Source → List Source → Version → Key → Load Source Value → Prop)
    (Served : List Source → Version → Key → Value → Prop)
    (state : State World Source Version Key Value Held) : Prop where
  ordered : service.Ordered Sound state
  held : ∀ version key value, service.get state.held version key = some value →
    Served state.past version key value
  loading : ∀ id version key rest orElse,
    state.tasks id = .loading version key rest orElse →
    Tracked (service.view state.world) state.past version key rest
  found : ∀ id version key value, state.tasks id = .found version key value →
    Served state.past version key value
  loaded : ∀ id version key value, state.tasks id = .loaded version key value →
    Served state.past version key value

variable {Sound : World → Prop}
variable {allowed : State World Source Version Key Value Held → Action Event Request → Prop}
variable {Tracked : Source → List Source → Version → Key → Load Source Value → Prop}
variable {Served : List Source → Version → Key → Value → Prop}

theorem Starts.kept {state : State World Source Version Key Value Held}
    (hstarts : service.Starts state) (hsound : Sound state.world) :
    service.Kept Sound Tracked Served state where
  ordered := hstarts.ordered hsound
  held version key value hget := by simp [hstarts.empty] at hget
  loading id version key rest orElse htask := by simp [hstarts.idle] at htask
  found id version key value htask := by simp [hstarts.idle] at htask
  loaded id version key value htask := by simp [hstarts.idle] at htask

/-- Changing one request keeps the rest, if what it does next is as it should
be. -/
theorem Kept.assign {state : State World Source Version Key Value Held}
    (hkept : service.Kept Sound Tracked Served state) {id : ℕ}
    {task : Task Source Version Key Value}
    (hordered : service.Ordered Sound (state.assign id task))
    (hloading : ∀ version key rest orElse, task = .loading version key rest orElse →
      Tracked (service.view state.world) state.past version key rest)
    (hserved : ∀ version key value,
      task = .found version key value ∨ task = .loaded version key value →
      Served state.past version key value) :
    service.Kept Sound Tracked Served (state.assign id task) where
  ordered := hordered
  held := hkept.held
  loading other version key rest orElse htask := by
    by_cases hother : other = id
    · subst hother
      exact hloading version key rest orElse (by simpa [State.assign] using htask)
    · exact hkept.loading other version key rest orElse
        (by simpa [State.assign, hother] using htask)
  found other version key value htask := by
    by_cases hother : other = id
    · subst hother
      exact hserved version key value (.inl (by simpa [State.assign] using htask))
    · exact hkept.found other version key value
        (by simpa [State.assign, hother] using htask)
  loaded other version key value htask := by
    by_cases hother : other = id
    · subst hother
      exact hserved version key value (.inr (by simpa [State.assign] using htask))
    · exact hkept.loaded other version key value
        (by simpa [State.assign, hother] using htask)

/-- One allowed step keeps everything as `Tracking` has it. -/
theorem Tracking.step (lawful : service.Lawful Sound)
    (tracking : service.Tracking Sound allowed Tracked Served)
    {state next : State World Source Version Key Value Held} {action : Action Event Request}
    (hkept : service.Kept Sound Tracked Served state) (hallowed : allowed state action)
    (hstep : service.step state action = some next) :
    service.Kept Sound Tracked Served next := by
  have hordered := hkept.ordered.step lawful hstep
  cases moves_of_step hstep with
  | evolve hevolve =>
      refine ⟨hordered, ?_, ?_, ?_, ?_⟩
      · exact fun version key value hget => tracking.later _ _ _ _ _ (hkept.held _ _ _ hget)
      · exact fun id version key rest orElse htask =>
          tracking.evolve _ _ _ _ _ _ _ _ hkept.ordered hallowed hevolve htask
            (hkept.loading _ _ _ _ _ htask)
      · exact fun id version key value htask =>
          tracking.later _ _ _ _ _ (hkept.found _ _ _ _ htask)
      · exact fun id version key value htask =>
          tracking.later _ _ _ _ _ (hkept.loaded _ _ _ _ htask)
  | ask htask hgranted => exact hkept.assign hordered (by simp) (by simp)
  | hit htask hget =>
      refine hkept.assign hordered (by simp) ?_
      rintro version key value (htask' | htask') <;> cases htask'
      exact hkept.held _ _ _ hget
  | @miss id version key htask hget =>
      refine hkept.assign hordered ?_ (by simp)
      intro version' key' rest orElse htask'
      cases htask'
      exact tracking.start state version key hkept.ordered
        (hkept.ordered.behind id version (by simp [htask, Task.version?]))
  | answer htask =>
      refine hkept.assign hordered ?_ (by simp)
      intro version key rest orElse htask'
      cases htask'
      exact tracking.answer _ _ _ _ _ _ _ hkept.ordered htask (hkept.loading _ _ _ _ _ htask)
  | fail htask =>
      refine hkept.assign hordered ?_ (by simp)
      intro version key rest orElse htask'
      cases htask'
      exact tracking.fail _ _ _ _ _ _ _ hkept.ordered hallowed htask
        (hkept.loading _ _ _ _ _ htask)
  | @file id version key value orElse htask =>
      have hvalue : Served state.past version key value :=
        tracking.done state version key value hkept.ordered
          (hkept.ordered.behind id version (by simp [htask, Task.version?]))
          (hkept.loading _ _ _ _ _ htask)
      have hassigned : service.Kept Sound Tracked Served
          (state.assign id (.loaded version key value)) := by
        refine hkept.assign (hkept.ordered.assign id _ ?_) (by simp) ?_
        · intro version' hversion
          exact hkept.ordered.behind id version' (by simpa [htask, Task.version?] using hversion)
        · rintro version' key' value' (htask' | htask') <;> cases htask'
          exact hvalue
      refine ⟨hordered, ?_, hassigned.loading, hassigned.found, hassigned.loaded⟩
      intro version' key' value' hget
      rcases lawful.put _ _ _ _ _ _ _ hget with ⟨rfl, rfl, rfl⟩ | hbefore
      · exact hvalue
      · exact hkept.held _ _ _ hbefore
  | giveUp htask => exact hkept.assign hordered (by simp) (by simp)

/-- Every state a run of allowed steps reaches is as `Tracking` has it. -/
theorem Tracking.run (lawful : service.Lawful Sound)
    (tracking : service.Tracking Sound allowed Tracked Served)
    {start state : State World Source Version Key Value Held} (hstarts : service.Starts start)
    (hsound : Sound start.world) (run : Machine.Run service.step allowed start state) :
    service.Kept Sound Tracked Served state :=
  run.invariant _ (fun _ _ _ hkept hallowed hstep => tracking.step lawful hkept hallowed hstep)
    (hstarts.kept hsound)

end Invariants

end Service

end EasyWaf.Core
