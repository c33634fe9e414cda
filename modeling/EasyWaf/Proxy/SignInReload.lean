import EasyWaf.Proxy.CacheFreshness

/-!
# Reloads and the sites that ask for a sign-in

Which sites ask, the accounts and the realms are three queries, and a site whose
realm the third does not find is left without a sign-in.  Every committed state
has the realm of every site; the realm a reload has read a site asking for may be
gone before it reads the realms.
-/

namespace EasyWaf.Proxy

open EasyWaf.Core EasyWaf.Db

/-- The site has a row in `site_auth`. -/
def Asks (siteId : ℤ) (db : Database) : Prop := ∃ row ∈ db.siteAuth, row.siteId = siteId

def realmIds (db : Database) : List ℤ := db.authRealms.map (·.id)

/-- A site's realm cannot be deleted. -/
theorem realm_of_siteAuth {db : Database} (hconsistent : Consistent db) :
    ∀ row ∈ db.siteAuth, row.realmId ∈ realmIds db := by
  have hkey : (⟨.siteAuth, "realm_id".toList, .authRealms, fun row => some row.realmId,
      .restrict⟩ : Relational.ForeignKey Table Row) ∈ schema.foreignKeys :=
    List.mem_of_getElem? (show foreignKeys[5]? = some _ from rfl)
  exact fun row hrow => hconsistent.1 _ hkey row hrow row.realmId rfl

/-- Wherever the site is in the table, it asks for a sign-in. -/
def KeepsAsking (siteId : ℤ) (sites : Sites) : Prop :=
  ∀ name row, sites.enabled name = some row → row.id = siteId → row.auth.isSome

section Stages

variable (libraries : Libraries)

/-- A reload that has read the sites, their aliases, which of them ask and the
accounts. -/
def afterUsers (rows : List SiteColumns) (aliases : List (ℤ × Text)) (sites : List Db.SiteAuth)
    (users : List AuthUser) : Load Config Served := do
  let realms ← Load.readOrRefuse fun config => config.db.authRealms
  return .siteTable (buildTable rows aliases (asksOf sites (realmsOf libraries users realms)))

/-- A reload that has read which sites ask, and that some do. -/
def afterSites (rows : List SiteColumns) (aliases : List (ℤ × Text))
    (sites : List Db.SiteAuth) : Load Config Served := do
  let users ← Load.readOrRefuse fun config => config.db.authUsers
  afterUsers libraries rows aliases sites users

/-- A reload that has read the sites and their aliases. -/
def afterAliases (rows : List SiteColumns) (aliases : List (ℤ × Text)) : Load Config Served := do
  let sites ← Load.readOrRefuse fun config => config.db.siteAuth
  if sites = [] then return .siteTable (buildTable rows aliases HashMap.empty)
  else afterSites libraries rows aliases sites

def afterRows (rows : List SiteColumns) : Load Config Served := do
  let aliases ← Load.readOrRefuse fun config => aliasRows config.db
  afterAliases libraries rows aliases

/-- The reload, one query after the other. -/
theorem load_siteTable :
    load libraries .siteTable =
      (Load.readOrRefuse fun config : Config => siteColumns config.db) >>=
        afterRows libraries := by
  simp only [load, loadSites, loadSiteAuth, loadRealms, bind_assoc, pure_bind]
  refine bind_congr fun rows => bind_congr fun aliases => bind_congr fun sites => ?_
  split
  · rfl
  · simp only [bind_assoc, pure_bind]
    rfl

/-- The site is among those that ask, and its realm is there. -/
def RealmThere (siteId : ℤ) (sites : List Db.SiteAuth) (db : Database) : Prop :=
  ∃ row ∈ sites, row.siteId = siteId ∧ row.realmId ∈ realmIds db

/-- Where a reload stands.  Between its reads of the sites that ask and of the
realms, the realm of the site it has read is there still. -/
inductive Stage (siteId : ℤ) (config : Config) : Load Config Served → Prop
  | start : Stage siteId config (load libraries .siteTable)
  | afterRows (rows : List SiteColumns) : Stage siteId config (afterRows libraries rows)
  | afterAliases (rows : List SiteColumns) (aliases : List (ℤ × Text)) :
      Stage siteId config (afterAliases libraries rows aliases)
  | afterSites (rows : List SiteColumns) (aliases : List (ℤ × Text)) (sites : List Db.SiteAuth)
      (hrealm : RealmThere siteId sites config.db) :
      Stage siteId config (afterSites libraries rows aliases sites)
  | afterUsers (rows : List SiteColumns) (aliases : List (ℤ × Text)) (sites : List Db.SiteAuth)
      (users : List AuthUser) (hrealm : RealmThere siteId sites config.db) :
      Stage siteId config (afterUsers libraries rows aliases sites users)
  | done (sites : Sites) (hkeeps : KeepsAsking siteId sites) :
      Stage siteId config (.done (.siteTable sites))
  | refused : Stage siteId config .refused

end Stages

variable {libraries : Libraries} {siteId : ℤ}

/-- In a committed state the realm of a site that asks is there. -/
theorem realmThere_of_asks {config : Config} (hconsistent : Consistent config.db)
    (hasks : Asks siteId config.db) : RealmThere siteId config.db.siteAuth config.db := by
  obtain ⟨row, hrow, hsite⟩ := hasks
  exact ⟨row, hrow, hsite, realm_of_siteAuth hconsistent row hrow⟩

theorem keepsAsking_buildTable {rows : List SiteColumns} {aliases : List (ℤ × Text)}
    {sites : List Db.SiteAuth} {users : List AuthUser} {db : Database}
    (hrealm : RealmThere siteId sites db) :
    KeepsAsking siteId (buildTable rows aliases
      (asksOf sites (realmsOf libraries users db.authRealms))) := by
  obtain ⟨row, hrow, rfl, hmem⟩ := hrealm
  obtain ⟨realm, hrealm, hid⟩ := List.mem_map.mp hmem
  have hthere : (realmsOf libraries users db.authRealms row.realmId).isSome := by
    rw [← hid]
    exact HashMap.isSome_ofRows _ _ hrealm
  intro name siteRow hsite hsame
  obtain ⟨columns, _, rfl⟩ := enabled_buildTable hsite
  have hid : columns.site.id = row.siteId := hsame
  simpa [Proxy.siteRow, hid] using isSome_asksOf hrow hthere

theorem Stage.answer {config : Config} {Answer : Type} {query : Config → Answer}
    {next : Option Answer → Load Config Served} (hconsistent : Consistent config.db)
    (hasks : Asks siteId config.db) (hstage : Stage libraries siteId config (.read query next)) :
    Stage libraries siteId config (next (some (query config))) ∧
      Stage libraries siteId config (next none) := by
  generalize hload : Load.read query next = load at hstage
  cases hstage with
  | start =>
      obtain ⟨hnext, hnone⟩ := Load.next_of_readOrRefuse (hload.trans (load_siteTable libraries))
      rw [hnext, hnone]
      exact ⟨.afterRows _, .refused⟩
  | afterRows rows =>
      obtain ⟨hnext, hnone⟩ := Load.next_of_readOrRefuse hload
      rw [hnext, hnone]
      exact ⟨.afterAliases _ _, .refused⟩
  | afterAliases rows aliases =>
      obtain ⟨hnext, hnone⟩ := Load.next_of_readOrRefuse hload
      rw [hnext, hnone]
      have hthere := realmThere_of_asks hconsistent hasks
      have hsome : config.db.siteAuth ≠ [] := List.ne_nil_of_mem hthere.choose_spec.1
      rw [if_neg hsome]
      exact ⟨.afterSites _ _ _ hthere, .refused⟩
  | afterSites rows aliases sites hrealm =>
      obtain ⟨hnext, hnone⟩ := Load.next_of_readOrRefuse hload
      rw [hnext, hnone]
      exact ⟨.afterUsers _ _ _ _ hrealm, .refused⟩
  | afterUsers rows aliases sites users hrealm =>
      obtain ⟨hnext, hnone⟩ := Load.next_of_readOrRefuse hload
      rw [hnext, hnone]
      exact ⟨.done _ (keepsAsking_buildTable hrealm), .refused⟩
  | done sites hkeeps => cases hload
  | refused => cases hload

theorem Stage.keepsAsking {config : Config} {value : Served} {sites : Sites}
    (hstage : Stage libraries siteId config (.done value)) (hvalue : value = .siteTable sites) :
    KeepsAsking siteId sites := by
  generalize hload : Load.done value = load at hstage
  cases hstage with
  | start => exact absurd (hload.trans (load_siteTable libraries)) Load.done_ne_readOrRefuse
  | done sites' hkeeps =>
      cases hload
      cases hvalue
      exact hkeeps
  | refused => cases hload
  | _ => exact absurd hload Load.done_ne_readOrRefuse

section Runs

variable (libraries siteId)

/-- A reload that has read which sites ask and not the realms yet. -/
inductive AwaitsRealms : Load Config Served → List Db.SiteAuth → Prop
  | users (rows : List SiteColumns) (aliases : List (ℤ × Text)) (sites : List Db.SiteAuth) :
      AwaitsRealms (afterSites libraries rows aliases sites) sites
  | realms (rows : List SiteColumns) (aliases : List (ℤ × Text)) (sites : List Db.SiteAuth)
      (users : List AuthUser) : AwaitsRealms (afterUsers libraries rows aliases sites users) sites

/-- No write deletes the realm that a reload has read the site asking for before
it has read the realms. -/
def keepsRealm : State → Action → Prop
  | state, .evolve event =>
      ∀ world, Generation.evolve change number state.world event = some world →
        ∀ id generation job rest orElse sites,
          state.tasks id = .loading generation job rest orElse →
          AwaitsRealms libraries rest sites → ∀ row ∈ sites, row.siteId = siteId →
          row.realmId ∈ realmIds state.world.config.db → row.realmId ∈ realmIds world.config.db
  | _, _ => True

variable {libraries siteId}

theorem Stage.evolve {config config' : Config} {rest : Load Config Served}
    (hkeeps : ∀ sites, AwaitsRealms libraries rest sites → ∀ row ∈ sites, row.siteId = siteId →
      row.realmId ∈ realmIds config.db → row.realmId ∈ realmIds config'.db)
    (hstage : Stage libraries siteId config rest) : Stage libraries siteId config' rest := by
  cases hstage with
  | start => exact .start
  | afterRows rows => exact .afterRows rows
  | afterAliases rows aliases => exact .afterAliases rows aliases
  | afterSites rows aliases sites hrealm =>
      obtain ⟨row, hrow, hsite, hid⟩ := hrealm
      exact .afterSites _ _ _ ⟨row, hrow, hsite, hkeeps _ (.users _ _ _) row hrow hsite hid⟩
  | afterUsers rows aliases sites users hrealm =>
      obtain ⟨row, hrow, hsite, hid⟩ := hrealm
      exact .afterUsers _ _ _ _ ⟨row, hrow, hsite, hkeeps _ (.realms _ _ _ _) row hrow hsite hid⟩
  | done sites hasking => exact .done sites hasking
  | refused => exact .refused

/-- The site asks in every state there has been. -/
def AlwaysAsks (siteId : ℤ) (past : List Config) : Prop := ∀ config ∈ past, Asks siteId config.db

theorem signInTracking :
    (caches libraries).Tracking Sound (keepsRealm libraries siteId)
      (fun config past _ job rest => job = .siteTable → AlwaysAsks siteId past →
        Stage libraries siteId config rest)
      (fun past _ job value => job = .siteTable → AlwaysAsks siteId past →
        ∀ sites, value = .siteTable sites → KeepsAsking siteId sites) where
  start _ _ _ _ _ hjob _ := hjob ▸ .start
  evolve state event world id generation job rest orElse _ hallowed hevolve htask htracked hjob
      hasks := by
    refine (htracked hjob fun config hconfig => hasks config (List.mem_cons_of_mem _ hconfig)).evolve
      fun sites hawaits => ?_
    exact hallowed world hevolve id generation job rest orElse sites htask hawaits
  answer state id generation job Answer query next orElse hordered _ htracked hjob hasks :=
    ((htracked hjob hasks).answer hordered.sound.consistent
      (hasks _ hordered.present)).1
  fail state id generation job Answer query next orElse hordered _ _ htracked hjob hasks :=
    ((htracked hjob hasks).answer hordered.sound.consistent
      (hasks _ hordered.present)).2
  done _ _ _ _ _ _ htracked hjob hasks _ hvalue := (htracked hjob hasks).keepsAsking hvalue
  later _ _ _ _ _ hserved hjob hasks :=
    hserved hjob fun config hconfig => hasks config (List.mem_cons_of_mem _ hconfig)

/-- If a site asks for a sign-in in every committed state, and no write deletes
its realm while a reload stands between reading that it asks for it and reading
the realms, every table a reload keeps or serves has the site asking. -/
theorem reload_keeps_asking {config : Config} {state : State}
    (hconsistent : Consistent config.db)
    (run : Machine.Run (caches libraries).step (keepsRealm libraries siteId) (start config) state)
    (hasks : ∀ committed ∈ state.past, Asks siteId committed.db) :
    (∀ table, state.held.sites = some table → KeepsAsking siteId table.toSites) ∧
    ∀ id generation sites, state.tasks id = .loaded generation .siteTable (.siteTable sites) →
      KeepsAsking siteId sites := by
  have hkept := signInTracking.run (lawful libraries) (starts libraries config)
    (sound_fresh hconsistent) run
  constructor
  · intro table htable
    refine hkept.held table.generation .siteTable (.siteTable table.toSites) ?_ rfl hasks _ rfl
    simp [caches, Caches.get, lookupTable, htable]
  · intro id generation sites htask
    exact hkept.loaded id generation .siteTable (.siteTable sites) htask rfl hasks sites rfl

end Runs

section Staff

def realm (id : ℤ) (name : Text) : AuthRealm where
  id := id
  name := name
  kind := "local".toList
  sessionMinutes := 480
  idleMinutes := 60
  epoch := 0
  config := []

/-- The shop asks for a sign-in from the first of two realms. -/
def staffed : Config where
  db := (shop.db.withRows .authRealms [realm 1 "staff".toList, realm 2 "office".toList]).withRows
    .siteAuth [{
      siteId := 1
      realmId := 1
      paths := []
      bypass := []
      basic := false
      captcha := false
      userHeader := []
      groupsHeader := [] }]
  published := shop.published

theorem consistent_staffed : Consistent staffed.db := by decide

/-- The columns a site's sign-in settings are saved in. -/
def signInColumns : List Text :=
  ["realm_id".toList, "paths".toList, "bypass".toList, "basic".toList, "captcha".toList,
    "user_header".toList, "groups_header".toList]

theorem realm_only (row : Db.SiteAuth) (realmId : ℤ) :
    ∀ column ∈ columns .siteAuth, column.name ∉ signInColumns →
      column.read { row with realmId } = column.read row := by
  simp only [columns, List.forall_mem_cons, signInColumns]
  simp

/-- The shop is moved to the second realm. -/
def realmChosen : Transaction where
  statements := [.upsert .siteAuth
    { siteId := 1, realmId := 2, paths := [], bypass := [], basic := false, captcha := false,
      userHeader := [], groupsHeader := [] }
    (fun row => row.siteId = 1)
    { columns := signInColumns
      apply := fun row : Db.SiteAuth => { row with realmId := 2 }
      only := fun row => realm_only row 2 }]
  runs := List.forall_mem_singleton.mpr
    ⟨.upsert .siteAuth signInColumns, by decide, rfl, rfl⟩

/-- The first realm, which no site uses any more, is deleted. -/
def realmDeleted : Transaction where
  statements := [.delete .authRealms fun row => row.id = 1]
  runs := List.forall_mem_singleton.mpr ⟨.delete .authRealms, by decide, rfl⟩

instance (siteId : ℤ) (db : Database) : Decidable (Asks siteId db) :=
  inferInstanceAs (Decidable (∃ row ∈ db.siteAuth, row.siteId = siteId))

/-- A reload reads that the shop asks for the first realm; the shop moves to the
second and the first is deleted; the reload reads the realms, and the shop no
longer asks. -/
theorem reload_stops_asking :
    ∃ (state : State) (table : SiteTable),
      Machine.Run (caches Libraries.plain).step Service.readsSucceed (start staffed) state ∧
      (∀ committed ∈ state.past, Asks 1 committed.db) ∧ state.held.sites = some table ∧
      ¬ KeepsAsking 1 table.toSites := by
  obtain ⟨state, run, hgood⟩ := Machine.exists_run_of_exec
    (caches Libraries.plain).step (start staffed)
    (fun state action => decide (Service.readsSucceed state action))
    [.evolve (.enter 0), .evolve (.answer 0), .evolve (.writeBack 0), .ask 0 .siteTable,
      .look 0, .answer 0, .answer 0, .answer 0, .evolve (.change (.commit realmChosen)),
      .evolve (.change (.commit realmDeleted)), .answer 0, .answer 0, .finish 0]
    (fun state => decide (∀ committed ∈ state.past, Asks 1 committed.db) &&
      state.held.sites.any fun table => (table.enabled "shop.example".toList).any fun row =>
        decide (row.id = 1) && row.auth.isNone)
    (fun _ _ => of_decide_eq_true) (by decide)
  simp only [Bool.and_eq_true, decide_eq_true_eq] at hgood
  obtain ⟨hasks, hgood⟩ := hgood
  obtain ⟨table, htable, hgood⟩ := (Option.any_eq_true _ _).mp hgood
  obtain ⟨row, hrow, hgood⟩ := (Option.any_eq_true _ _).mp hgood
  simp only [Bool.and_eq_true, decide_eq_true_eq] at hgood
  refine ⟨state, table, run, hasks, htable, fun hkeeps => ?_⟩
  have hauth := hkeeps _ row hrow hgood.1
  simp [Option.isNone_iff_eq_none.mp hgood.2] at hauth

/-- A reload during which nothing is written. -/
theorem reload_keeps_asking_of_shop :
    ∃ (state : State) (table : SiteTable), state.held.sites = some table ∧
      KeepsAsking 1 table.toSites := by
  have hsound (state : State) (action : Action) (hquiet : quiet action = true) :
      keepsRealm Libraries.plain 1 state action := by
    cases action with
    | evolve event =>
        intro world hevolve id generation job rest orElse sites _ _ row _ _ hid
        rwa [config_of_quiet hquiet hevolve]
    | _ => trivial
  obtain ⟨state, run, hgood⟩ := Machine.exists_run_of_exec
    (caches Libraries.plain).step (start staffed) (fun _ action => quiet action)
    [.evolve (.enter 0), .evolve (.answer 0), .evolve (.writeBack 0), .ask 0 .siteTable,
      .look 0, .answer 0, .answer 0, .answer 0, .answer 0, .answer 0, .finish 0]
    (fun state => decide (∀ committed ∈ state.past, Asks 1 committed.db) &&
      state.held.sites.isSome) hsound (by decide)
  simp only [Bool.and_eq_true, decide_eq_true_eq] at hgood
  obtain ⟨table, htable⟩ := Option.isSome_iff_exists.mp hgood.2
  exact ⟨state, table, htable,
    (reload_keeps_asking consistent_staffed run hgood.1).1 table htable⟩

end Staff

end EasyWaf.Proxy
