import EasyWaf.Proxy.Caches

/-!
# What the caches hold is as new as it says

A cached result only changes with the generation, everything served under a
generation was read at that generation or later, and nothing filed under an
older one comes back.
-/

namespace EasyWaf.Proxy

open EasyWaf.Core EasyWaf.Db Modules

section Shop

def shopSite : Site where
  id := 1
  name := "shop".toList
  serverName := "shop.example".toList
  enabled := true
  tlsPort := none
  certId := none
  tlsRedirect := false
  hsts := false
  xFrame := false
  xFrameValue := []
  xContentType := false
  xssProtection := false
  affinity := false
  wafPolicyId := some 1
  backendTlsInsecure := false
  rateLimitMode := "Off".toList
  rateLimitRequests := 600
  rateLimitWindow := 60
  rateLimitAction := "block".toList

def shopPolicy : Policy where
  id := 1
  ruleEngine := "On".toList
  scoreThreshold := 5
  challengeThreshold := 3
  geoipMode := "off".toList
  geoipCountries := []
  smartProtect := false

def shopRule : WafRule where
  id := 1
  policyId := 1
  externalId := none
  name := "probe".toList
  zone := "PATH".toList
  pattern := "probe".toList
  score := 5
  action := "block".toList
  enabled := true
  negate := false
  conditions := []
  transforms := []

/-- A site, its policy and the policy's one rule. -/
def shop : Config where
  db := ((Database.empty.withRows .sites [shopSite]).withRows .policies [shopPolicy]).withRows
    .wafRules [shopRule]
  published := { version := 0, lists := HashMap.empty }

theorem consistent_shop : Consistent shop.db := by decide

/-- What a request for the shop has found under generation 0. -/
def foundShop (state : State) (id : ℕ) : Option Waf.SiteSnapshot :=
  match state.tasks id with
  | .found 0 (.snapshot 1) (.snapshot snapshot) => some snapshot
  | _ => none

/-- What a request for the shop has read and filed under generation 0. -/
def filedShop (state : State) (id : ℕ) : Option Waf.SiteSnapshot :=
  match state.tasks id with
  | .loaded 0 (.snapshot 1) (.snapshot snapshot) => some snapshot
  | _ => none

theorem tasks_of_foundShop {state : State} {id : ℕ} {snapshot : Waf.SiteSnapshot}
    (hfound : foundShop state id = some snapshot) :
    state.tasks id = .found 0 (.snapshot 1) (.snapshot snapshot) := by
  unfold foundShop at hfound
  split at hfound
  · next htask =>
      obtain rfl := Option.some.inj hfound
      exact htask
  · simp at hfound

theorem tasks_of_filedShop {state : State} {id : ℕ} {snapshot : Waf.SiteSnapshot}
    (hfiled : filedShop state id = some snapshot) :
    state.tasks id = .loaded 0 (.snapshot 1) (.snapshot snapshot) := by
  unfold filedShop at hfiled
  split at hfiled
  · next htask =>
      obtain rfl := Option.some.inj hfiled
      exact htask
  · simp at hfiled

end Shop

section Accounting

variable (libraries : Libraries)

/-- What a loader the proxy caches results in. -/
def result (config : Config) (job : Job) : Option Served := (load libraries job).runAt config

/-- A statement of the program that changes what some loader results in leaves
the generation larger. -/
theorem generation_lt_of_result_ne {db db' : Database} {statement : Statement}
    (hruns : Runs statement) (hexec : exec db statement = some db')
    (published : IpList.Published) (job : Job)
    (hchanged : result libraries { db := db', published } job ≠
      result libraries { db, published } job) :
    db.generation < db'.generation := by
  rcases eq_or_generation_lt hruns hexec with rfl | hlt
  · exact absurd rfl hchanged
  · exact hlt

/-- How many rules a result holds. -/
def ruleCount : Option Served → ℕ
  | some (.snapshot snapshot) => snapshot.rules.length
  | _ => 0

/-- The shop without its rule. -/
theorem generation_lt_of_shop_rule_deleted :
    ∃ db', exec shop.db (.delete .wafRules fun _ => true) = some db' ∧
      shop.db.generation < db'.generation := by
  have hfewer : (exec shop.db (.delete .wafRules fun _ => true)).any (fun db' =>
      ruleCount (result Libraries.plain { shop with db := db' } (.snapshot 1)) !=
        ruleCount (result Libraries.plain shop (.snapshot 1))) = true := by decide
  obtain ⟨db', hexec, hne⟩ := (Option.any_eq_true _ _).mp hfewer
  have hruns : Runs (.delete .wafRules fun _ => true) := ⟨.delete .wafRules, by decide, rfl⟩
  refine ⟨db', hexec, generation_lt_of_result_ne Libraries.plain hruns hexec shop.published
    (.snapshot 1) fun hsame => ?_⟩
  exact (bne_iff_ne.mp hne) (congrArg ruleCount hsame)

end Accounting

section Loads

variable (libraries : Libraries)

/-- No load gives up on its own. -/
theorem answered_load (job : Job) : (load libraries job).Answered := by
  cases job with
  | snapshot siteId =>
      refine Load.Answered.bind (.bind (Load.answered_readOr _ _) fun policy => ?_)
        fun _ => Load.answered_pure _
      cases policy with
      | none => exact Load.answered_pure _
      | some policy =>
          have hrules : (Waf.getRules libraries Config.db policy.id).Answered :=
            .bind (Load.answered_readOr _ _) fun _ =>
              .bind (.bind (Load.answered_readOr _ _) fun _ => Load.answered_pure _)
                fun _ => Load.answered_pure _
          have hexclusions : (Waf.getExclusions Config.db policy.id).Answered :=
            .bind (Load.answered_readOr _ _) fun _ => Load.answered_pure _
          exact .bind hrules fun _ => .bind hexclusions fun _ => Load.answered_pure _
  | countries siteId => exact .bind (Load.answered_readOr _ _) fun _ => Load.answered_pure _
  | policyLists published =>
      refine .bind ?_ fun _ => Load.answered_pure _
      refine .bind (Load.answered_readOr _ _) fun known => ?_
      refine .bind (Load.answered_readOr _ _) fun rows => ?_
      refine .bind (Load.answered_readOr _ _) fun choices => ?_
      refine .bind (Load.answered_readOr _ _) fun muted => ?_
      exact .bind (Load.answered_readOr _ _) fun data => Load.answered_pure _
  | siteTable =>
      refine .bind ?_ fun _ => Load.answered_pure _
      refine .bind (Load.answered_readOrRefuse _) fun rows => ?_
      refine .bind (Load.answered_readOrRefuse _) fun aliases => ?_
      refine .bind (.bind (Load.answered_readOrRefuse _) fun sites => ?_)
        fun asks => Load.answered_pure _
      split
      · exact Load.answered_pure _
      · exact .bind (Load.answered_readOrRefuse _) fun users =>
          .bind (Load.answered_readOrRefuse _) fun realms => Load.answered_pure _

/-- The kind of value a job ends with. -/
def Fits : Job → Served → Prop
  | .snapshot _, .snapshot _ | .countries _, .countries _ | .policyLists _, .policyLists _
  | .siteTable, .siteTable _ => True
  | _, _ => False

theorem fits_of_answers {Live : Config → Prop} {job : Job} {value : Served}
    (hanswers : (load libraries job).Answers Live value) : Fits job value := by
  cases job <;> simp only [load, Load.answers_bind, Load.answers_pure] at hanswers <;>
    obtain ⟨_, _, rfl⟩ := hanswers <;> trivial

end Loads

section Newest

/-- The generation the cache for a job is at. -/
def Caches.generation (caches : Caches) : Job → ℕ
  | .snapshot _ => caches.waf.generation
  | .countries _ => caches.geoip.generation
  | .policyLists _ => (caches.loaded.map (·.generation)).getD 0
  | .siteTable => (caches.sites.map (·.generation)).getD 0

/-- Two jobs whose results are kept in one cache. -/
def SameCache : Job → Job → Prop
  | .snapshot _, .snapshot _ | .countries _, .countries _ | .policyLists _, .policyLists _
  | .siteTable, .siteTable => True
  | _, _ => False

theorem SameCache.generation_eq {job job' : Job} (hsame : SameCache job job')
    (caches : Caches) : caches.generation job = caches.generation job' := by
  cases job <;> cases job' <;> first | rfl | exact hsame.elim

/-- What is found was filed under the very generation asked for. -/
theorem Caches.generation_of_get {caches : Caches} {generation : ℕ} {job : Job} {value : Served}
    (hget : caches.get generation job = some value) : caches.generation job = generation := by
  cases job with
  | snapshot siteId =>
      obtain ⟨_, hget, _⟩ := Option.map_eq_some_iff.mp hget
      exact Generation.PerSite.generation_of_get hget
  | countries siteId =>
      obtain ⟨_, hget, _⟩ := Option.map_eq_some_iff.mp hget
      exact Generation.PerSite.generation_of_get hget
  | policyLists published =>
      obtain ⟨_, hget, _⟩ := Option.map_eq_some_iff.mp hget
      simp only [IpList.lookupLoaded] at hget
      split at hget
      · next loaded hloaded =>
          split at hget
          · next hsame => simpa [Caches.generation, hloaded] using hsame.1
          · simp at hget
      · simp at hget
  | siteTable =>
      obtain ⟨_, hget, _⟩ := Option.map_eq_some_iff.mp hget
      simp only [lookupTable] at hget
      split at hget
      · next table htable =>
          split at hget
          · next hsame => simpa [Caches.generation, htable] using hsame
          · simp at hget
      · simp at hget

/-- Filing a result takes no cache back to an older generation. -/
theorem Caches.generation_le_put (caches : Caches) (generation : ℕ) (job job' : Job)
    (value : Served) :
    caches.generation job' ≤ (caches.put generation job value).generation job' := by
  unfold Caches.put
  split
  · cases job' with
    | snapshot _ => exact Generation.PerSite.generation_le_put _ _ _ _
    | _ => exact le_refl _
  · cases job' with
    | countries _ => exact Generation.PerSite.generation_le_put _ _ _ _
    | _ => exact le_refl _
  · cases job' with
    | policyLists _ => exact IpList.generation_le_keepLoaded _ _ _ _
    | _ => exact le_refl _
  · cases job' with
    | siteTable => exact generation_le_keepTable _ _ _
    | _ => exact le_refl _
  · exact le_refl _

/-- A cache is at least at the generation of what it was last given. -/
theorem Caches.le_generation_put {caches : Caches} {generation : ℕ} {job : Job}
    {value : Served} (hfits : Fits job value) :
    generation ≤ (caches.put generation job value).generation job := by
  cases job <;> cases value <;> simp only [Fits] at hfits
  case snapshot.snapshot => exact Generation.PerSite.le_generation_put _ _ _ _
  case countries.countries => exact Generation.PerSite.le_generation_put _ _ _ _
  case policyLists.policyLists => exact IpList.le_generation_keepLoaded _ _ _ _
  case siteTable.siteTable => exact le_generation_keepTable _ _ _

/-- A result filed under an older generation changes nothing. -/
theorem Caches.put_of_lt {caches : Caches} {generation : ℕ} {job : Job}
    (holder : generation < caches.generation job) (value : Served) :
    caches.put generation job value = caches := by
  cases job <;> cases value <;> try rfl
  case snapshot.snapshot =>
      simp only [Caches.put, Generation.PerSite.put_of_lt _ _ holder]
  case countries.countries =>
      simp only [Caches.put, Generation.PerSite.put_of_lt _ _ holder]
  case policyLists.policyLists =>
      simp only [Caches.put, IpList.keepLoaded_of_lt _ _ holder]
  case siteTable.siteTable =>
      simp only [Caches.put, keepTable_of_lt _ holder]

end Newest

section Runs

/-- A request has been served this value, going by this generation. -/
def Given (state : State) (id generation : ℕ) (job : Job) (value : Served) : Prop :=
  state.tasks id = .found generation job value ∨ state.tasks id = .loaded generation job value ∨
    state.tasks id = .fellBack generation job value

/-- No cache is behind what a request has filed in it. -/
def Newest (state : State) : Prop :=
  ∀ id generation job value, state.tasks id = .loaded generation job value →
    generation ≤ state.held.generation job

variable {libraries : Libraries}

theorem Newest.step {state next : State} {action : Action} (hnewest : Newest state)
    (hfits : ∀ id generation job value, next.tasks id = .loaded generation job value →
      Fits job value)
    (hstep : (caches libraries).step state action = some next) : Newest next := by
  have hassign {id : ℕ} {task : Task Config ℕ Job Served}
      (hne : ∀ generation job value, task ≠ .loaded generation job value) :
      Newest (state.assign id task) := by
    intro other generation job value hother
    by_cases hsame : other = id
    · subst hsame
      exact absurd (by simpa [Service.State.assign] using hother) (hne generation job value)
    · exact hnewest other generation job value
        (by simpa [Service.State.assign, hsame] using hother)
  cases Service.moves_of_step hstep with
  | evolve _ => exact hnewest
  | ask _ _ => exact hassign (by simp)
  | hit _ _ => exact hassign (by simp)
  | miss _ _ => exact hassign (by simp)
  | answer _ => exact hassign (by simp)
  | fail _ => exact hassign (by simp)
  | @file id generation job value orElse htask =>
      intro other generation' job' value' hother
      by_cases hsame : other = id
      · subst hsame
        have hvalue : generation = generation' ∧ job = job' ∧ value = value' := by
          simpa [Service.State.assign] using hother
        obtain ⟨rfl, rfl, rfl⟩ := hvalue
        exact Caches.le_generation_put (hfits _ _ _ _ hother)
      · refine (hnewest other generation' job' value' ?_).trans
          (Caches.generation_le_put _ _ _ _ _)
        simpa [Service.State.assign, hsame] using hother
  | giveUp _ => exact hassign (by simp)

variable {config : Config} {state : State}

theorem newest_of_run (hconsistent : Consistent config.db)
    (run : Machine.Run (caches libraries).step Service.readsSucceed (start config) state) :
    Newest state := by
  have hboth : (caches libraries).Kept Sound ((caches libraries).InParts (caches libraries).byRead)
      ((caches libraries).Parts (caches libraries).byRead) state ∧ Newest state := by
    refine run.invariant (fun state => (caches libraries).Kept Sound
      ((caches libraries).InParts (caches libraries).byRead)
      ((caches libraries).Parts (caches libraries).byRead) state ∧ Newest state) ?_
      ⟨(starts libraries config).kept (sound_fresh hconsistent), ?_⟩
    · rintro state action next ⟨hkept, hnewest⟩ hallowed hstep
      have hkept' := (Service.partsTracking (lawful libraries) fun _ _ => Plan.load_reads _).step
        (lawful libraries) hkept (Service.keepsParts_of_failsHarmlessly _ _
          (Service.failsHarmlessly_of_readsSucceed _ _ hallowed)) hstep
      refine ⟨hkept', hnewest.step (fun id generation job value htask => ?_) hstep⟩
      have hparts := hkept'.loaded id generation job value htask
      exact fits_of_answers libraries ((Plan.answers_reads _ _ _).mp hparts)
    · intro id generation job value htask
      simp [start] at htask
  exact hboth.2

/-- In a run whose reads succeed, whatever a request is served under a generation
was read, piece by piece, at that generation or later, by a request that went by
it; a result is not put over one of a newer generation; and after a result has
been filed nothing of an older generation is held. -/
theorem caches_stay_fresh (hconsistent : Consistent config.db)
    (run : Machine.Run (caches libraries).step Service.readsSucceed (start config) state) :
    (∀ id generation job value, Given state id generation job value →
      (load libraries job).Answers ((caches libraries).Live state.past generation) value ∧
      ∃ filer, state.tasks filer = .loaded generation job value) ∧
    (∀ newer job value older job' value', state.held.get newer job = some value →
      SameCache job' job → older < newer → state.held.put older job' value' = state.held) ∧
    ∀ filer newer job value older job', state.tasks filer = .loaded newer job value →
      SameCache job' job → older < newer → state.held.get older job' = none := by
  have hkept := (lawful libraries).fresh_of_run (starts libraries config)
    (sound_fresh hconsistent) (run.mono Service.failsHarmlessly_of_readsSucceed)
  have hfiled := Service.filed_of_run (lawful libraries) (starts libraries config) run
  have hanswered := Service.allAnswered_of_run (fun _ job => answered_load libraries job)
    (starts libraries config) run
  refine ⟨?_, ?_, ?_⟩
  · rintro id generation job value (hfound | hloaded | hfellBack)
    · exact ⟨(Plan.answers_reads _ _ _).mp (hkept.found _ _ _ _ hfound),
        hfiled.found _ _ _ _ hfound⟩
    · exact ⟨(Plan.answers_reads _ _ _).mp (hkept.loaded _ _ _ _ hloaded), id, hloaded⟩
    · exact absurd hfellBack (hanswered.fellBack _ _ _ _)
  · intro newer job value older job' value' hget hsame holder
    refine Caches.put_of_lt ?_ value'
    rwa [hsame.generation_eq, Caches.generation_of_get hget]
  · intro filer newer job value older job' hloaded hsame holder
    by_contra hsome
    obtain ⟨value', hget⟩ := Option.ne_none_iff_exists'.mp hsome
    have hnewest := newest_of_run hconsistent run filer newer job value hloaded
    rw [← hsame.generation_eq, Caches.generation_of_get hget] at hnewest
    exact absurd holder (not_lt.mpr hnewest)

/-- Two requests for the shop: the first reads, the second finds what it
filed. -/
theorem caches_stay_fresh_of_shop :
    ∃ (state : State) (snapshot : Waf.SiteSnapshot),
      state.tasks 1 = .found 0 (.snapshot 1) (.snapshot snapshot) ∧
      ∃ filer, state.tasks filer = .loaded 0 (.snapshot 1) (.snapshot snapshot) := by
  obtain ⟨state, run, hfound⟩ := Machine.exists_run_of_exec
    (caches Libraries.plain).step (start shop)
    (fun state action => decide (Service.readsSucceed state action))
    [.evolve (.enter 0), .evolve (.answer 0), .evolve (.writeBack 0), .ask 0 (.snapshot 1),
      .look 0, .answer 0, .answer 0, .answer 0, .answer 0, .finish 0, .evolve (.enter 1),
      .ask 1 (.snapshot 1), .look 1]
    (fun state => (foundShop state 1).isSome) (fun _ _ => of_decide_eq_true) (by decide)
  obtain ⟨snapshot, hfound⟩ := Option.isSome_iff_exists.mp hfound
  have htask := tasks_of_foundShop hfound
  exact ⟨state, snapshot, htask,
    ((caches_stay_fresh consistent_shop run).1 1 0 (.snapshot 1) _ (.inl htask)).2⟩

end Runs

end EasyWaf.Proxy
