import EasyWaf.Proxy.CacheFreshness

/-!
# Reads that fail

Every query but those of the site table takes an error for an empty or absent
answer, and what is made of it is filed like any other result.  So an error lasts
as long as the generation does, unless the answer would have been empty anyway.
-/

namespace EasyWaf.Proxy

open EasyWaf.Core EasyWaf.Db Modules

section Parts

variable (libraries : Libraries)

/-- The parts of each cached result: of a snapshot its policy, its rules and its
exclusions, of the country rules and the address lists the whole. -/
def parts : Job → Plan Config Served
  | .snapshot siteId => (Waf.snapshotParts libraries Config.db siteId).map .snapshot
  | .countries siteId => Plan.whole (load libraries (.countries siteId))
  | .policyLists published => Plan.whole (load libraries (.policyLists published))
  | .siteTable => Plan.reads (load libraries .siteTable)

theorem load_parts (job : Job) : (parts libraries job).load = load libraries job := by
  cases job with
  | snapshot siteId =>
      simp only [parts, Plan.load_map, Waf.load_snapshotParts]
      rfl
  | siteTable => exact Plan.load_reads _
  | _ => exact Plan.load_whole _

/-- Each part of the value is what some live configuration held.  A site table
has no part that is taken for empty. -/
def HeldInParts (Live : Config → Prop) : Job → Served → Prop
  | .snapshot siteId, .snapshot snapshot =>
      Waf.HeldInParts libraries Config.db Live siteId snapshot
  | .countries siteId, .countries policy =>
      ∃ config, Live config ∧ policy = GeoIp.geoPolicyRow siteId config.db
  | .policyLists _, .policyLists lists =>
      ∃ config, Live config ∧ lists = IpList.policiesAt config.db config.published
  | .siteTable, .siteTable _ => True
  | _, _ => False

theorem heldInParts_of_answers {Live : Config → Prop} {job : Job} {value : Served}
    (hanswers : (parts libraries job).Answers Live value) :
    HeldInParts libraries Live job value := by
  cases job with
  | snapshot siteId =>
      obtain ⟨snapshot, hsnapshot, rfl⟩ := (Plan.answers_map _ _ _ _).mp hanswers
      exact Waf.answers_snapshotParts libraries Config.db hsnapshot
  | countries siteId =>
      obtain ⟨config, hlive, hrun⟩ := (Plan.answers_whole _ _ _).mp hanswers
      simp only [load, GeoIp.getSiteGeoPolicy, Load.runAt_bind, Load.runAt_readOr,
        Option.bind_some, Load.runAt_pure, Option.some.injEq] at hrun
      subst hrun
      exact ⟨config, hlive, rfl⟩
  | policyLists published =>
      obtain ⟨config, hlive, hrun⟩ := (Plan.answers_whole _ _ _).mp hanswers
      simp only [load, Load.runAt_bind, IpList.runAt_loadPolicyLists, Option.bind_some,
        Load.runAt_pure, Option.some.injEq] at hrun
      subst hrun
      exact ⟨config, hlive, rfl⟩
  | siteTable =>
      have hfits := fits_of_answers libraries ((Plan.answers_reads _ _ _).mp hanswers)
      cases value <;> simp_all [Fits, HeldInParts]

end Parts

variable {libraries : Libraries} {config : Config} {state : State}

/-- Where a read only fails if its empty answer is the true one, and no write
tears a part in two, every part of what is held or found under a generation is
what the tables held at that generation or later. -/
theorem failed_reads_do_not_last (hconsistent : Consistent config.db)
    (run : Machine.Run (caches libraries).step
      ((caches libraries).keepsParts fun _ => parts libraries) (start config) state) :
    (∀ generation job value, state.held.get generation job = some value →
      HeldInParts libraries ((caches libraries).Live state.past generation) job value) ∧
    ∀ id generation job value, state.tasks id = .found generation job value →
      HeldInParts libraries ((caches libraries).Live state.past generation) job value := by
  have hkept := (lawful libraries).parts_of_run (fun _ job => load_parts libraries job)
    (starts libraries config) (sound_fresh hconsistent) run
  constructor
  · intro generation job value hget
    exact heldInParts_of_answers libraries (hkept.held _ _ _ hget)
  · intro id generation job value hfound
    exact heldInParts_of_answers libraries (hkept.found _ _ _ _ hfound)

theorem keepsParts_of_quiet {plan : ℕ → Job → Plan Config Served} (state : State)
    (action : Action) (hquiet : quiet action = true) :
    (caches libraries).keepsParts plan state action := by
  cases action with
  | fail id => simp [quiet] at hquiet
  | evolve event =>
      exact fun world hevolve => Service.tearsNoPart_of_eq (config_of_quiet hquiet hevolve)
  | _ => trivial

/-- A request for the shop that finds what another filed. -/
theorem failed_reads_do_not_last_of_shop :
    ∃ (state : State) (snapshot : Waf.SiteSnapshot),
      state.tasks 1 = .found 0 (.snapshot 1) (.snapshot snapshot) ∧
      HeldInParts Libraries.plain ((caches Libraries.plain).Live state.past 0) (.snapshot 1)
        (.snapshot snapshot) := by
  obtain ⟨state, run, hfound⟩ := Machine.exists_run_of_exec
    (caches Libraries.plain).step (start shop) (fun _ action => quiet action)
    [.evolve (.enter 0), .evolve (.answer 0), .evolve (.writeBack 0), .ask 0 (.snapshot 1),
      .look 0, .answer 0, .answer 0, .answer 0, .answer 0, .finish 0, .evolve (.enter 1),
      .ask 1 (.snapshot 1), .look 1]
    (fun state => (foundShop state 1).isSome) keepsParts_of_quiet (by decide)
  obtain ⟨snapshot, hfound⟩ := Option.isSome_iff_exists.mp hfound
  have htask := tasks_of_foundShop hfound
  exact ⟨state, snapshot, htask,
    (failed_reads_do_not_last consistent_shop run).2 1 0 (.snapshot 1) _ htask⟩

/-- The rules of the shop's policy cannot be read once: no rules are filed, and
nothing was ever written. -/
theorem failed_read_lasts :
    ∃ (state : State) (snapshot : Waf.SiteSnapshot),
      Machine.Run (caches Libraries.plain).step Machine.anything (start shop) state ∧
      state.held.waf.get 0 1 = some snapshot ∧
      ¬ HeldInParts Libraries.plain ((caches Libraries.plain).Live state.past 0) (.snapshot 1)
        (.snapshot snapshot) := by
  obtain ⟨state, run, hgood⟩ := Machine.exists_run_of_exec
    (caches Libraries.plain).step (start shop) (fun _ _ => true)
    [.evolve (.enter 0), .evolve (.answer 0), .evolve (.writeBack 0), .ask 0 (.snapshot 1),
      .look 0, .answer 0, .fail 0, .answer 0, .answer 0, .finish 0]
    (fun state => (state.held.waf.get 0 1).any fun snapshot =>
      snapshot.policy.any (·.id = 1) && snapshot.rules.isEmpty &&
        state.past.all fun config => !(Waf.rulesAt Libraries.plain 1 config.db).isEmpty)
    (fun _ _ _ => trivial) (by decide)
  obtain ⟨snapshot, hget, hgood⟩ := (Option.any_eq_true _ _).mp hgood
  simp only [Bool.and_eq_true, Option.any_eq_true, decide_eq_true_eq, List.all_eq_true,
    List.isEmpty_iff, Bool.not_eq_true'] at hgood
  obtain ⟨⟨⟨policy, hpolicy, hid⟩, hrules⟩, hpast⟩ := hgood
  refine ⟨state, snapshot, run, hget, ?_⟩
  rintro ⟨-, hparts⟩
  rw [hpolicy] at hparts
  obtain ⟨⟨config, ⟨hmem, -⟩, hsame⟩, -⟩ := hparts
  rw [hrules, hid] at hsame
  have hsome := hpast config hmem
  rw [← hsame] at hsome
  simp at hsome

end EasyWaf.Proxy

/-!
## A site snapshot and its moment

The policy, the rules, the lists they name and the exclusions are four queries.
They describe one moment as long as no write between two of them changes both
what has been read and what is still to be.
-/

namespace EasyWaf.Proxy

open EasyWaf.Core EasyWaf.Db Modules

section Moment

variable (libraries : Libraries)

/-- A snapshot as one part; nothing is asked of the other results. -/
def wholeSnapshots : Job → Plan Config Served
  | .snapshot siteId => Plan.whole (load libraries (.snapshot siteId))
  | job => Plan.reads (load libraries job)

theorem load_wholeSnapshots (job : Job) :
    (wholeSnapshots libraries job).load = load libraries job := by
  cases job with
  | snapshot siteId => exact Plan.load_whole _
  | _ => exact Plan.load_reads _

theorem snapshotAt_of_answers {Live : Config → Prop} {siteId : ℤ} {value : Served}
    (hanswers : (wholeSnapshots libraries (.snapshot siteId)).Answers Live value) :
    ∃ config, Live config ∧ value = .snapshot (Waf.snapshotAt libraries siteId config.db) := by
  obtain ⟨config, hlive, hrun⟩ := (Plan.answers_whole _ _ _).mp hanswers
  simp only [load, Load.runAt_bind, Waf.runAt_loadSnapshot, Option.bind_some, Load.runAt_pure,
    Option.some.injEq] at hrun
  exact ⟨config, hlive, hrun.symm⟩

end Moment

variable {libraries : Libraries} {config : Config} {state : State}

/-- Where reads succeed, and no write changes both what a snapshot under way has
read and what it has still to read, every snapshot a request is given is what the
tables held at one moment, at the generation the request went by or later. -/
theorem snapshot_is_one_moment (hconsistent : Consistent config.db)
    (run : Machine.Run (caches libraries).step
      (fun state action => Service.readsSucceed state action ∧
        (caches libraries).keepsParts (fun _ => wholeSnapshots libraries) state action)
      (start config) state)
    (id generation : ℕ) (siteId : ℤ) (value : Served)
    (hgiven : Given state id generation (.snapshot siteId) value) :
    ∃ moment ∈ state.past, generation ≤ number moment ∧
      value = .snapshot (Waf.snapshotAt libraries siteId moment.db) := by
  have hkept := (lawful libraries).parts_of_run (fun _ job => load_wholeSnapshots libraries job)
    (starts libraries config) (sound_fresh hconsistent) (run.mono fun _ _ hallowed => hallowed.2)
  have hanswered := Service.allAnswered_of_run (fun _ job => answered_load libraries job)
    (starts libraries config) (run.mono fun _ _ hallowed => hallowed.1)
  have hparts : (caches libraries).Parts (fun _ => wholeSnapshots libraries) state.past generation
      (.snapshot siteId) value := by
    rcases hgiven with hfound | hloaded | hfellBack
    · exact hkept.found _ _ _ _ hfound
    · exact hkept.loaded _ _ _ _ hloaded
    · exact absurd hfellBack (hanswered.fellBack _ _ _ _)
  obtain ⟨moment, ⟨hmem, hle⟩, hvalue⟩ := snapshotAt_of_answers libraries hparts
  exact ⟨moment, hmem, hle, hvalue⟩

/-- A request for the shop, with nothing written meanwhile. -/
theorem snapshot_is_one_moment_of_shop :
    ∃ (state : State) (snapshot : Waf.SiteSnapshot),
      state.tasks 0 = .loaded 0 (.snapshot 1) (.snapshot snapshot) ∧
      ∃ moment ∈ state.past, 0 ≤ number moment ∧
        Served.snapshot snapshot =
          .snapshot (Waf.snapshotAt Libraries.plain 1 moment.db) := by
  have hsound (state : State) (action : Action)
      (hcheck : (decide (Service.readsSucceed state action) && quiet action) = true) :
      Service.readsSucceed state action ∧ (caches Libraries.plain).keepsParts
        (fun _ => wholeSnapshots Libraries.plain) state action := by
    simp only [Bool.and_eq_true, decide_eq_true_eq] at hcheck
    exact ⟨hcheck.1, keepsParts_of_quiet state action hcheck.2⟩
  obtain ⟨state, run, hfiled⟩ := Machine.exists_run_of_exec
    (caches Libraries.plain).step (start shop)
    (fun state action => decide (Service.readsSucceed state action) && quiet action)
    [.evolve (.enter 0), .evolve (.answer 0), .evolve (.writeBack 0), .ask 0 (.snapshot 1),
      .look 0, .answer 0, .answer 0, .answer 0, .answer 0, .finish 0]
    (fun state => (filedShop state 0).isSome) hsound (by decide)
  obtain ⟨snapshot, hfiled⟩ := Option.isSome_iff_exists.mp hfiled
  have htask := tasks_of_filedShop hfiled
  exact ⟨state, snapshot, htask,
    snapshot_is_one_moment consistent_shop run 0 0 1 _ (.inr (.inl htask))⟩

section Torn

/-- The shop's rule is deleted. -/
def ruleDeleted : Transaction where
  statements := [.delete .wafRules fun row => row.id = 1]
  runs := List.forall_mem_singleton.mpr ⟨.delete .wafRules, by decide, rfl⟩

/-- An exclusion is recorded for the shop's policy. -/
def exclusionAdded : Transaction where
  statements := [.insert .policyRuleExclusions
    [{ policyId := 1, externalId := some 930011, ruleId := none, pathPrefix := "/".toList,
       clientCidr := none }]]
  runs := List.forall_mem_singleton.mpr ⟨.insert .policyRuleExclusions, by decide, rfl⟩

/-- The rule is deleted after the rules were read, the exclusion added before the
exclusions are: the snapshot has both, and the tables never had. -/
theorem snapshot_is_no_moment :
    ∃ (state : State) (snapshot : Waf.SiteSnapshot),
      Machine.Run (caches Libraries.plain).step Service.readsSucceed (start shop) state ∧
      Given state 0 0 (.snapshot 1) (.snapshot snapshot) ∧
      ∀ moment ∈ state.past, snapshot ≠ Waf.snapshotAt Libraries.plain 1 moment.db := by
  obtain ⟨state, run, hgood⟩ := Machine.exists_run_of_exec
    (caches Libraries.plain).step (start shop)
    (fun state action => decide (Service.readsSucceed state action))
    [.evolve (.enter 0), .evolve (.answer 0), .evolve (.writeBack 0), .ask 0 (.snapshot 1),
      .look 0, .answer 0, .answer 0, .answer 0, .evolve (.change (.commit ruleDeleted)),
      .evolve (.change (.commit exclusionAdded)), .answer 0, .finish 0]
    (fun state => (filedShop state 0).any fun snapshot =>
      !snapshot.rules.isEmpty && !snapshot.exclusions.isEmpty &&
        state.past.all fun config =>
          (Waf.snapshotAt Libraries.plain 1 config.db).rules.isEmpty ||
            (Waf.snapshotAt Libraries.plain 1 config.db).exclusions.isEmpty)
    (fun _ _ => of_decide_eq_true) (by decide)
  obtain ⟨snapshot, hfiled, hgood⟩ := (Option.any_eq_true _ _).mp hgood
  simp only [Bool.and_eq_true, Bool.or_eq_true, List.all_eq_true, Bool.not_eq_true'] at hgood
  obtain ⟨⟨hrules, hexclusions⟩, hpast⟩ := hgood
  refine ⟨state, snapshot, run, .inr (.inl (tasks_of_filedShop hfiled)), ?_⟩
  rintro moment hmoment rfl
  rcases hpast moment hmoment with hnone | hnone
  · simp [hnone] at hrules
  · simp [hnone] at hexclusions

end Torn

end EasyWaf.Proxy
