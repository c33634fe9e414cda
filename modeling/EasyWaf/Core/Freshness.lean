import EasyWaf.Core.Plan
import EasyWaf.Core.VersionedCache

/-!
# What a versioned cache serves

Two properties of runs of a `Service`.  What is served under a version is made
of parts that are each what one source at that version or later held
(`Lawful.parts_of_run`): the reads themselves if no failed read is taken for an
answer (`Lawful.fresh_of_run`), and longer parts as far as no write tears one in
two.  And what is held under a version was filed by a request that went by that
version (`filed_of_run`).
-/

namespace EasyWaf.Core.Service

variable {World Source Event Request Version Key Value Held : Type}
variable {service : Service World Source Event Request Version Key Value Held}

section Allowed

variable (service)

/-- A failed read leads on as the answer would have, or makes the whole load
give up. -/
def Harmless (state : State World Source Version Key Value Held) (id : ℕ) : Prop :=
  match state.tasks id with
  | .loading _ _ (.read query next) _ =>
      next none = next (some (query (service.view state.world))) ∨ next none = .refused
  | _ => True

/-- The write leaves alone what the part has read, all of it still being so, or
what it has still to read. -/
def LeavesWhole {Part : Type} (load rest : Load Source Part) (source source' : Source) : Prop :=
  (load.Reaches source rest ∧ load.Reaches source' rest) ∨
    rest.runAt source' = rest.runAt source

variable (plan : Version → Key → Plan Source Value)

/-- No part that a load is in the middle of is torn. -/
def TearsNoPart (state : State World Source Version Key Value Held) (source' : Source) : Prop :=
  ∀ id version key remaining orElse, state.tasks id = .loading version key remaining orElse →
    ∀ (Part : Type) (load rest : Load Source Part) (next : Part → Plan Source Value),
      (plan version key).Amid load rest next remaining →
      LeavesWhole load rest (service.view state.world) source'

/-- No read fails. -/
def readsSucceed : State World Source Version Key Value Held → Action Event Request → Prop
  | _, .fail _ => False
  | _, _ => True

instance (state : State World Source Version Key Value Held) (action : Action Event Request) :
    Decidable (readsSucceed state action) := by
  unfold readsSucceed
  split <;> infer_instance

/-- Reads only fail harmlessly. -/
def failsHarmlessly : State World Source Version Key Value Held → Action Event Request → Prop
  | state, .fail id => service.Harmless state id
  | _, _ => True

/-- Reads only fail harmlessly, and no write tears a part of a load in two. -/
def keepsParts : State World Source Version Key Value Held → Action Event Request → Prop
  | state, .fail id => service.Harmless state id
  | state, .evolve event =>
      ∀ world, service.evolve state.world event = some world →
        service.TearsNoPart plan state (service.view world)
  | _, _ => True

/-- Each read is a part of its own. -/
def byRead (version : Version) (key : Key) : Plan Source Value :=
  Plan.reads (service.load version key)

end Allowed

theorem Harmless.next_none {state : State World Source Version Key Value Held} {id : ℕ}
    {version : Version} {key : Key} {Answer : Type} {query : Source → Answer}
    {next : Option Answer → Load Source Value} {orElse : Value}
    (hharmless : service.Harmless state id)
    (htask : state.tasks id = .loading version key (.read query next) orElse) :
    next none = next (some (query (service.view state.world))) ∨ next none = .refused := by
  simpa [Harmless, htask] using hharmless

theorem failsHarmlessly_of_readsSucceed (state : State World Source Version Key Value Held)
    (action : Action Event Request) (hallowed : readsSucceed state action) :
    service.failsHarmlessly state action := by
  cases action with
  | fail id => exact hallowed.elim
  | _ => trivial

/-- A write the loads do not see tears nothing. -/
theorem tearsNoPart_of_eq {plan : Version → Key → Plan Source Value}
    {state : State World Source Version Key Value Held} {source' : Source}
    (hsame : source' = service.view state.world) : service.TearsNoPart plan state source' := by
  subst hsame
  exact fun _ _ _ _ _ _ _ _ _ _ _ => .inr rfl

/-- A single read cannot be torn. -/
theorem LeavesWhole.of_reads {load : Load Source Value} {Part : Type}
    {part rest : Load Source Part} {next : Part → Plan Source Value}
    {remaining : Load Source Value} (source source' : Source)
    (hamid : (Plan.reads load).Amid part rest next remaining) :
    LeavesWhole part rest source source' := by
  obtain ⟨left, heq⟩ := hamid.ahead.of_reads
  cases left with
  | done _ => cases heq
  | refused => cases heq
  | read query tail =>
      cases heq
      rcases hamid.leads.of_read_done with rfl | ⟨answer, rfl⟩
      · exact .inl ⟨.refl, .refl⟩
      · exact .inr rfl

/-- A run whose reads fail harmlessly keeps each read whole. -/
theorem keepsParts_of_failsHarmlessly (state : State World Source Version Key Value Held)
    (action : Action Event Request) (hallowed : service.failsHarmlessly state action) :
    service.keepsParts service.byRead state action := by
  cases action with
  | fail id => exact hallowed
  | evolve event =>
      exact fun _ _ _ _ _ _ _ _ _ _ _ _ hamid => LeavesWhole.of_reads _ _ hamid
  | _ => trivial

section Parts

variable [Preorder Version]

/-- A source there has been at `version` or later. -/
def Live (service : Service World Source Event Request Version Key Value Held)
    (past : List Source) (version : Version) (source : Source) : Prop :=
  source ∈ past ∧ version ≤ service.stamp source

theorem Live.later {past : List Source} {version : Version} {source : Source} (present : Source)
    (hlive : service.Live past version source) :
    service.Live (present :: past) version source :=
  ⟨List.mem_cons_of_mem _ hlive.1, hlive.2⟩

variable (service) (plan : Version → Key → Plan Source Value)

/-- Each part of the value was read from a source at `version` or later. -/
def Parts (past : List Source) (version : Version) (key : Key) (value : Value) : Prop :=
  (plan version key).Answers (service.Live past version) value

/-- Whatever `left` ends with, the whole plan ends with, in every future. -/
def Completes (past : List Source) (version : Version) (key : Key)
    (left : Plan Source Value) : Prop :=
  ∀ future : Source → Prop, (∀ source, service.Live past version source → future source) →
    ∀ value, left.Answers future value → (plan version key).Answers future value

/-- All that the part has read is still so, or finishing it now gives what one
source held. -/
def WholeSoFar (source : Source) (past : List Source) (version : Version) {Part : Type}
    (load rest : Load Source Part) : Prop :=
  load.Reaches source rest ∨
    ∃ moment, service.Live past version moment ∧ rest.runAt source = load.runAt moment

/-- A load that has given up, stands between two parts, or is in the middle of
one that is whole so far. -/
def InParts (source : Source) (past : List Source) (version : Version) (key : Key)
    (remaining : Load Source Value) : Prop :=
  service.Live past version source ∧
    (remaining = .refused ∨
      (∃ left, (plan version key).Ahead left ∧ remaining = left.load ∧
        service.Completes plan past version key left) ∨
      ∃ (Part : Type) (load rest : Load Source Part) (next : Part → Plan Source Value),
        (plan version key).Amid load rest next remaining ∧
        service.WholeSoFar source past version load rest ∧
        service.Completes plan past version key (.part load next))

variable {service plan}

theorem Completes.later {past : List Source} {version : Version} {key : Key}
    {left : Plan Source Value} (present : Source)
    (hcompletes : service.Completes plan past version key left) :
    service.Completes plan (present :: past) version key left :=
  fun future hfuture => hcompletes future fun source hlive => hfuture source (hlive.later present)

/-- What a part that is whole so far would end with now, one source has. -/
theorem WholeSoFar.exists_runAt {source : Source} {past : List Source} {version : Version}
    {Part : Type} {load rest : Load Source Part} (hlive : service.Live past version source)
    (hwhole : service.WholeSoFar source past version load rest) :
    ∃ moment, service.Live past version moment ∧ rest.runAt source = load.runAt moment := by
  rcases hwhole with hreaches | hmoment
  · exact ⟨source, hlive, hreaches.runAt_eq⟩
  · exact hmoment

/-- A part that has come to its end leaves the plan after it. -/
theorem Completes.next {source : Source} {past : List Source} {version : Version} {key : Key}
    {Part : Type} {load : Load Source Part} {part : Part} {next : Part → Plan Source Value}
    (hlive : service.Live past version source)
    (hwhole : service.WholeSoFar source past version load (.done part))
    (hcompletes : service.Completes plan past version key (.part load next)) :
    service.Completes plan past version key (next part) := by
  obtain ⟨moment, hmoment, hrun⟩ := hwhole.exists_runAt hlive
  exact fun future hfuture value hanswers =>
    hcompletes future hfuture value ⟨moment, part, hfuture moment hmoment, hrun.symm, hanswers⟩

/-- The plan `left` that comes next begins with the part whose read is next. -/
theorem Completes.begin {source : Source} {past : List Source} {version : Version} {key : Key}
    {left : Plan Source Value} {Answer : Type} {query : Source → Answer}
    {tail : Option Answer → Load Source Value} (hlive : service.Live past version source)
    (hahead : (plan version key).Ahead left) (hload : left.load = .read query tail)
    (hcompletes : service.Completes plan past version key left) :
    service.InParts plan source past version key (tail (some (query source))) := by
  obtain ⟨Part, after, next, hpart, rfl, hanswers⟩ := Plan.exists_part_of_load_eq_read hload
  refine ⟨hlive, .inr (.inr ⟨Part, .read query after, after (some (query source)), next,
    ⟨hahead.trans hpart, Load.Leads.refl.read _, rfl⟩, .inl Load.Reaches.refl.read, ?_⟩)⟩
  exact fun future hfuture value hvalue =>
    hcompletes future hfuture value (hanswers future source value (hfuture source hlive) hvalue)

/-- One read further. -/
theorem InParts.read {source : Source} {past : List Source} {version : Version} {key : Key}
    {Answer : Type} {query : Source → Answer} {tail : Option Answer → Load Source Value}
    (hparts : service.InParts plan source past version key (.read query tail)) :
    service.InParts plan source past version key (tail (some (query source))) := by
  obtain ⟨hlive, hrefused | ⟨left, hahead, hload, hcompletes⟩ | hamid⟩ := hparts
  · cases hrefused
  · exact hcompletes.begin hlive hahead hload.symm
  obtain ⟨Part, load, rest, next, hamid, hwhole, hcompletes⟩ := hamid
  have heq := hamid.eq
  cases rest with
  | done part =>
      exact (hcompletes.next hlive hwhole).begin hlive (hamid.ahead.next part) heq.symm
  | refused => cases heq
  | read query' after =>
      simp only [Load.bind] at heq
      cases heq
      refine ⟨hlive, .inr (.inr ⟨Part, load, after (some (query source)), next,
        ⟨hamid.ahead, hamid.leads.read _, rfl⟩, ?_, hcompletes⟩)⟩
      rcases hwhole with hreaches | ⟨moment, hmoment, hrun⟩
      · exact .inl hreaches.read
      · exact .inr ⟨moment, hmoment, hrun⟩

/-- A load that has come to its end has the parts its plan is made of. -/
theorem InParts.done {source : Source} {past : List Source} {version : Version} {key : Key}
    {value : Value} (hparts : service.InParts plan source past version key (.done value)) :
    service.Parts plan past version key value := by
  obtain ⟨hlive, hrefused | ⟨left, hahead, hload, hcompletes⟩ | hamid⟩ := hparts
  · cases hrefused
  · exact hcompletes _ (fun _ hlive => hlive) value
      (Plan.answers_of_load_eq_done hlive hload.symm)
  obtain ⟨Part, load, rest, next, hamid, hwhole, hcompletes⟩ := hamid
  have heq := hamid.eq
  cases rest with
  | done part =>
      exact hcompletes.next hlive hwhole _ (fun _ hlive => hlive) value
        (Plan.answers_of_load_eq_done hlive heq.symm)
  | refused => cases heq
  | read query after => cases heq

/-- A write that tears no part keeps a load in its parts. -/
theorem InParts.evolve {source source' : Source} {past : List Source} {version : Version}
    {key : Key} {remaining : Load Source Value}
    (hparts : service.InParts plan source past version key remaining)
    (hlive' : service.Live (source' :: past) version source')
    (hwhole' : ∀ (Part : Type) (load rest : Load Source Part) (next : Part → Plan Source Value),
      (plan version key).Amid load rest next remaining → LeavesWhole load rest source source') :
    service.InParts plan source' (source' :: past) version key remaining := by
  obtain ⟨hlive, hrefused | ⟨left, hahead, hload, hcompletes⟩ | hamid⟩ := hparts
  · exact ⟨hlive', .inl hrefused⟩
  · exact ⟨hlive', .inr (.inl ⟨left, hahead, hload, hcompletes.later _⟩)⟩
  obtain ⟨Part, load, rest, next, hamid, hwhole, hcompletes⟩ := hamid
  refine ⟨hlive', .inr (.inr ⟨Part, load, rest, next, hamid, ?_, hcompletes.later _⟩)⟩
  obtain ⟨moment, hmoment, hrun⟩ := hwhole.exists_runAt hlive
  rcases hwhole' Part load rest next hamid with ⟨_, hstill⟩ | hsame
  · exact .inl hstill
  · exact .inr ⟨moment, hmoment.later _, hsame.trans hrun⟩

/-- Loads stay in their parts. -/
theorem partsTracking {Sound : World → Prop} (lawful : service.Lawful Sound)
    (hplan : ∀ version key, (plan version key).load = service.load version key) :
    service.Tracking Sound (service.keepsParts plan) (service.InParts plan)
      (service.Parts plan) where
  start state version key hordered hversion :=
    ⟨⟨hordered.present, hversion⟩, .inr (.inl ⟨plan version key, .refl, (hplan version key).symm,
      fun _ _ _ hanswers => hanswers⟩)⟩
  evolve state event world id version key rest orElse hordered hallowed hevolve htask htracked :=
    htracked.evolve
      ⟨List.mem_cons_self, htracked.1.2.trans (lawful.stamp _ _ _ hordered.sound hevolve)⟩
      (hallowed world hevolve id version key rest orElse htask)
  answer state id version key Answer query next orElse _ _ htracked := htracked.read
  fail state id version key Answer query next orElse _ hallowed htask htracked := by
    rcases Harmless.next_none hallowed htask with hsame | hrefused
    · exact hsame ▸ htracked.read
    · exact ⟨htracked.1, .inl hrefused⟩
  done state version key value _ _ htracked := htracked.done
  later source past version key value hparts := hparts.mono fun _ hlive => hlive.later source

/-- In a run that tears no part, everything held and served has its parts. -/
theorem Lawful.parts_of_run {Sound : World → Prop} (lawful : service.Lawful Sound)
    (hplan : ∀ version key, (plan version key).load = service.load version key)
    {start state : State World Source Version Key Value Held} (hstarts : service.Starts start)
    (hsound : Sound start.world)
    (run : Machine.Run service.step (service.keepsParts plan) start state) :
    service.Kept Sound (service.InParts plan) (service.Parts plan) state :=
  (partsTracking lawful hplan).run lawful hstarts hsound run

/-- In a run whose reads fail harmlessly, everything held and served is made of
reads that are fresh. -/
theorem Lawful.fresh_of_run {Sound : World → Prop} (lawful : service.Lawful Sound)
    {start state : State World Source Version Key Value Held} (hstarts : service.Starts start)
    (hsound : Sound start.world)
    (run : Machine.Run service.step service.failsHarmlessly start state) :
    service.Kept Sound (service.InParts service.byRead) (service.Parts service.byRead) state :=
  lawful.parts_of_run (fun _ _ => Plan.load_reads _) hstarts hsound
    (run.mono keepsParts_of_failsHarmlessly)

end Parts

section Answered

/-- No load under way can be made to give up, and none has. -/
structure AllAnswered (state : State World Source Version Key Value Held) : Prop where
  loading : ∀ id version key rest orElse, state.tasks id = .loading version key rest orElse →
    rest.Answered
  fellBack : ∀ id version key value, state.tasks id ≠ .fellBack version key value

theorem AllAnswered.assign {state : State World Source Version Key Value Held}
    (hanswered : AllAnswered state) (id : ℕ) {task : Task Source Version Key Value}
    (hloading : ∀ version key rest orElse, task = .loading version key rest orElse →
      rest.Answered)
    (hfellBack : ∀ version key value, task ≠ .fellBack version key value) :
    AllAnswered (state.assign id task) where
  loading other version key rest orElse htask := by
    by_cases hother : other = id
    · subst hother
      exact hloading version key rest orElse (by simpa [State.assign] using htask)
    · exact hanswered.loading other version key rest orElse
        (by simpa [State.assign, hother] using htask)
  fellBack other version key value htask := by
    by_cases hother : other = id
    · subst hother
      exact hfellBack version key value (by simpa [State.assign] using htask)
    · exact hanswered.fellBack other version key value
        (by simpa [State.assign, hother] using htask)

theorem AllAnswered.step (hload : ∀ version key, (service.load version key).Answered)
    {state next : State World Source Version Key Value Held} {action : Action Event Request}
    (hanswered : AllAnswered state) (hallowed : readsSucceed state action)
    (hstep : service.step state action = some next) : AllAnswered next := by
  cases moves_of_step hstep with
  | evolve _ => exact ⟨hanswered.loading, hanswered.fellBack⟩
  | ask _ _ => exact hanswered.assign _ (by simp) (by simp)
  | hit _ _ => exact hanswered.assign _ (by simp) (by simp)
  | miss _ _ =>
      refine hanswered.assign _ ?_ (by simp)
      intro version key rest orElse htask
      cases htask
      exact hload _ _
  | answer htask =>
      refine hanswered.assign _ ?_ (by simp)
      intro version key rest orElse htask'
      cases htask'
      exact hanswered.loading _ _ _ _ _ htask _
  | fail _ => exact hallowed.elim
  | @file id version key value orElse htask =>
      have hassigned : AllAnswered (state.assign id (.loaded version key value)) :=
        hanswered.assign id (by simp) (by simp)
      exact ⟨hassigned.loading, hassigned.fellBack⟩
  | giveUp htask => exact (hanswered.loading _ _ _ _ _ htask).elim

/-- Where reads succeed and no load gives up on its own, nothing falls back. -/
theorem allAnswered_of_run (hload : ∀ version key, (service.load version key).Answered)
    {start state : State World Source Version Key Value Held} (hstarts : service.Starts start)
    (run : Machine.Run service.step readsSucceed start state) : AllAnswered state :=
  run.invariant _ (fun _ _ _ hanswered hallowed hstep => hanswered.step hload hallowed hstep)
    ⟨fun id _ _ _ _ htask => by simp [hstarts.idle] at htask,
      fun id _ _ _ htask => by simp [hstarts.idle] at htask⟩

end Answered

section Filed

/-- What is held or found under a version and key was read and filed by a
request that went by them. -/
structure Filed (service : Service World Source Event Request Version Key Value Held)
    (state : State World Source Version Key Value Held) : Prop where
  held : ∀ version key value, service.get state.held version key = some value →
    ∃ id, state.tasks id = .loaded version key value
  found : ∀ id version key value, state.tasks id = .found version key value →
    ∃ filer, state.tasks filer = .loaded version key value

/-- A request that has filed its value is done. -/
theorem tasks_loaded_of_step {state next : State World Source Version Key Value Held}
    {action : Action Event Request} {id : ℕ} {version : Version} {key : Key} {value : Value}
    (hstep : service.step state action = some next)
    (hloaded : state.tasks id = .loaded version key value) :
    next.tasks id = .loaded version key value := by
  have hother {other : ℕ} {task task' : Task Source Version Key Value}
      (htask : state.tasks other = task) (hne : task ≠ .loaded version key value) :
      Function.update state.tasks other task' id = .loaded version key value := by
    rw [Function.update_of_ne, hloaded]
    rintro rfl
    exact hne (htask ▸ hloaded)
  cases moves_of_step hstep with
  | evolve _ => exact hloaded
  | ask htask _ => exact hother htask (by simp)
  | hit htask _ => exact hother htask (by simp)
  | miss htask _ => exact hother htask (by simp)
  | answer htask => exact hother htask (by simp)
  | fail htask => exact hother htask (by simp)
  | file htask => exact hother htask (by simp)
  | giveUp htask => exact hother htask (by simp)

variable [Preorder Version]

theorem Filed.step {Sound : World → Prop} (lawful : service.Lawful Sound)
    {state next : State World Source Version Key Value Held} {action : Action Event Request}
    (hfiled : service.Filed state) (hstep : service.step state action = some next) :
    service.Filed next := by
  have hstill {version : Version} {key : Key} {value : Value}
      (hbefore : ∃ id, state.tasks id = .loaded version key value) :
      ∃ id, next.tasks id = .loaded version key value := by
    obtain ⟨id, hloaded⟩ := hbefore
    exact ⟨id, tasks_loaded_of_step hstep hloaded⟩
  have hfound {id : ℕ} {task : Task Source Version Key Value}
      (hheld : ∀ version key value, task = .found version key value →
        service.get state.held version key = some value)
      (htasks : next.tasks = Function.update state.tasks id task) :
      ∀ other version key value, next.tasks other = .found version key value →
        ∃ filer, next.tasks filer = .loaded version key value := by
    intro other version key value hother
    rw [htasks] at hother
    by_cases hsame : other = id
    · subst hsame
      rw [Function.update_self] at hother
      exact hstill (hfiled.held version key value (hheld version key value hother))
    · rw [Function.update_of_ne hsame] at hother
      exact hstill (hfiled.found other version key value hother)
  have hheld (hsame : next.held = state.held) : ∀ version key value,
      service.get next.held version key = some value →
        ∃ id, next.tasks id = .loaded version key value := by
    intro version key value hget
    exact hstill (hfiled.held version key value (hsame ▸ hget))
  cases moves_of_step hstep with
  | evolve _ => exact ⟨hheld rfl, hfiled.found⟩
  | ask _ _ => exact ⟨hheld rfl, hfound (by simp) rfl⟩
  | hit _ hget =>
      refine ⟨hheld rfl, hfound ?_ rfl⟩
      intro version key value htask
      cases htask
      exact hget
  | miss _ _ => exact ⟨hheld rfl, hfound (by simp) rfl⟩
  | answer _ => exact ⟨hheld rfl, hfound (by simp) rfl⟩
  | fail _ => exact ⟨hheld rfl, hfound (by simp) rfl⟩
  | @file id version key value orElse htask =>
      refine ⟨fun version' key' value' hget => ?_, hfound (by simp) rfl⟩
      rcases lawful.put _ _ _ _ _ _ _ hget with ⟨rfl, rfl, rfl⟩ | hbefore
      · exact ⟨id, by simp [State.assign]⟩
      · exact hstill (hfiled.held _ _ _ hbefore)
  | giveUp _ => exact ⟨hheld rfl, hfound (by simp) rfl⟩

theorem filed_of_run {Sound : World → Prop} (lawful : service.Lawful Sound)
    {allowed : State World Source Version Key Value Held → Action Event Request → Prop}
    {start state : State World Source Version Key Value Held} (hstarts : service.Starts start)
    (run : Machine.Run service.step allowed start state) : service.Filed state :=
  run.invariant _ (fun _ _ _ hfiled _ hstep => hfiled.step lawful hstep)
    ⟨fun version key value hget => by simp [hstarts.empty] at hget,
      fun id version key value htask => by simp [hstarts.idle] at htask⟩

end Filed

end EasyWaf.Core.Service
