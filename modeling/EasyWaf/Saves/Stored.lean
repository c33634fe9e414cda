import EasyWaf.Saves.Pool

/-!
# What a save stores

Carried out without a failure, a save leaves the site as the whole form describes
it, and everything it is not about as it was.
-/

namespace EasyWaf.Saves

open EasyWaf.Core Procedure Db
open Relational.Schema (insertRows updateRows deleteRows)

variable {siteId : ℤ} {name : Text} {settings : Settings} {store : Store}

/-- All but the sign-in of a site is as the form describes it: host, ports, certificate,
policy and headers, rate limit, backends and aliases. -/
structure Laid (settings : Settings) (siteId : ℤ) (store : Store) : Prop where
  exists_row : ∃ site ∈ store.db.sites, site.id = siteId
  row : ∀ site ∈ store.db.sites, site.id = siteId →
    settings.rateLimit.onSite (settings.onSite site) = site
  listenPort : ∀ listen ∈ store.listenPorts, listen.1 = siteId → listen.2 = settings.listenPort
  pool : ((store.poolOf siteId).map backendOf).Perm settings.upstreams
  extras : ∀ extra, ⟨siteId, extra.1, extra.2⟩ ∈ store.sitePorts ↔ extra ∈ settings.extras
  aliases : (store.db.siteAliases.filter (·.siteId = siteId)).map (·.name) = settings.aliases

/-- The whole site is as the form describes it. -/
structure Describes (settings : Settings) (siteId : ℤ) (store : Store) : Prop
    extends Laid settings siteId store where
  signIn : ∀ row ∈ store.db.siteAuth, row.siteId = siteId →
    ∃ signIn ∈ settings.signIn, ∃ realm ∈ store.db.authRealms, realm.name = signIn.realm ∧
      row = signIn.row siteId realm.id
  asks : ∀ signIn ∈ settings.signIn, ∃ row ∈ store.db.siteAuth, row.siteId = siteId ∧
    ∃ realm ∈ store.db.authRealms, realm.id = row.realmId

/-- The site's row is written, and nothing else of it is. -/
structure Placed (settings : Settings) (siteId : ℤ) (store : Store) : Prop where
  exists_row : ∃ site ∈ store.db.sites, site.id = siteId
  row : ∀ site ∈ store.db.sites, site.id = siteId → settings.onSite site = site
  listenPort : ∀ listen ∈ store.listenPorts, listen.1 = siteId → listen.2 = settings.listenPort
  distinct : Distinct store.db.upstreams
  fresh : ∀ row ∈ store.db.upstreams, row.id < store.nextUpstream
  known : realmKnown settings store = true

section Chain

/-- Statements carried out one after another. -/
def apply (statements : List (Store → Store)) (store : Store) : Store :=
  statements.foldl (fun store effect => effect store) store

theorem run_chain (statements : List (Store → Store)) (rest : Save) (store : Store) :
    (chain statements rest).run true store = rest.run true (apply statements store) := by
  induction statements generalizing store with
  | nil => rfl
  | cons effect statements ih => exact ih (effect store)

/-- What every statement keeps is kept. -/
theorem apply_keeps {Value : Type} {statements : List (Store → Store)} (part : Store → Value)
    (hkeeps : ∀ effect ∈ statements, ∀ store, part (effect store) = part store) (store : Store) :
    part (apply statements store) = part store := by
  induction statements generalizing store with
  | nil => rfl
  | cons effect statements ih =>
      calc
        part (apply statements (effect store)) = part (effect store) :=
          ih (fun effect heffect => hkeeps effect (List.mem_cons_of_mem _ heffect)) _
        _ = part store := hkeeps effect List.mem_cons_self store

end Chain

section Parts

/-- What the statements on the pool leave alone. -/
structure BesidePool where
  sites : List Site
  aliases : List SiteAlias
  auth : List SiteAuth
  realms : List AuthRealm
  listenPorts : List (ℤ × ℤ)
  sitePorts : List SitePort

def besidePool (store : Store) : BesidePool where
  sites := store.db.sites
  aliases := store.db.siteAliases
  auth := store.db.siteAuth
  realms := store.db.authRealms
  listenPorts := store.listenPorts
  sitePorts := store.sitePorts

theorem besidePool_dropBackend (id : ℤ) (store : Store) :
    besidePool (dropBackend id store) = besidePool store := by
  have hleaf : ∀ key ∈ schema.foreignKeys, key.parent ≠ Table.upstreams := by decide
  have hrows := rows_deleteRows_of_leaf store.db hleaf fun row : Upstream => decide (row.id = id)
  have hbeside := congrArg (fun rows : (table : Table) → List (schema.Row table) =>
    BesidePool.mk (rows .sites) (rows .siteAliases) (rows .siteAuth) (rows .authRealms)
      store.listenPorts store.sitePorts) hrows
  exact hbeside

theorem besidePool_of_mem_poolStatements {wanted : List Backend} {existing : List Upstream}
    {effect : Store → Store} (heffect : effect ∈ poolStatements siteId wanted existing)
    (store : Store) : besidePool (effect store) = besidePool store := by
  rcases List.mem_append.mp heffect with hwanted | hdropped
  · obtain ⟨backend, -, hstatement⟩ := List.mem_filterMap.mp hwanted
    unfold poolStatement at hstatement
    split at hstatement
    · split at hstatement
      · obtain rfl := Option.some.inj hstatement
        rfl
      · contradiction
    · obtain rfl := Option.some.inj hstatement
      rfl
  · obtain ⟨row, -, rfl⟩ := List.mem_map.mp hdropped
    exact besidePool_dropBackend row.id store

theorem mem_addPort (extra : ℤ × Bool) (store : Store) (row : SitePort) :
    row ∈ (addPort siteId extra store).sitePorts ↔
      row ∈ store.sitePorts ∨ row = ⟨siteId, extra.1, extra.2⟩ := by
  unfold addPort
  dsimp only
  split
  case isTrue hpresent =>
    constructor
    · exact Or.inl
    · rintro (hrow | rfl)
      · exact hrow
      · exact hpresent
  case isFalse => rw [List.mem_append, List.mem_singleton]

theorem mem_addPorts (extras : List (ℤ × Bool)) (store : Store) (row : SitePort) :
    row ∈ (apply (extras.map (addPort siteId)) store).sitePorts ↔
      row ∈ store.sitePorts ∨ ∃ extra ∈ extras, row = ⟨siteId, extra.1, extra.2⟩ := by
  induction extras generalizing store with
  | nil => simp [apply]
  | cons extra extras ih =>
    calc row ∈ (apply (extras.map (addPort siteId)) (addPort siteId extra store)).sitePorts
        ↔ row ∈ (addPort siteId extra store).sitePorts ∨
            ∃ extra ∈ extras, row = ⟨siteId, extra.1, extra.2⟩ := ih _
      _ ↔ _ := by
          rw [mem_addPort, or_assoc, List.exists_mem_cons_iff]

/-- The extra ports are those of the form. -/
theorem mem_sitePorts_apply (extras : List (ℤ × Bool)) (store : Store) (extra : ℤ × Bool) :
    ⟨siteId, extra.1, extra.2⟩ ∈ (apply (portStatements siteId extras) store).sitePorts ↔
      extra ∈ extras := by
  have hnone : (⟨siteId, extra.1, extra.2⟩ : SitePort) ∉ (dropPorts siteId store).sitePorts := by
    intro hmem
    exact of_decide_eq_true (List.mem_filter.mp hmem).2 rfl
  show _ ∈ (apply (extras.map (addPort siteId)) (dropPorts siteId store)).sitePorts ↔ _
  rw [mem_addPorts, or_iff_right hnone]
  constructor
  · rintro ⟨other, hother, heq⟩
    obtain ⟨-, hport, htls⟩ := SitePort.mk.inj heq
    rwa [Prod.ext hport htls]
  · intro hextra
    exact ⟨extra, hextra, rfl⟩

/-- What the statements on the ports leave alone. -/
theorem besidePorts_apply (siteId : ℤ) (extras : List (ℤ × Bool)) (store : Store) :
    ((apply (portStatements siteId extras) store).db,
      (apply (portStatements siteId extras) store).listenPorts) = (store.db, store.listenPorts) := by
  apply apply_keeps fun store => (store.db, store.listenPorts)
  intro effect heffect store
  rcases List.mem_cons.mp heffect with rfl | hmem
  · rfl
  · obtain ⟨extra, -, rfl⟩ := List.mem_map.mp hmem
    rfl

theorem map_name_newAliases (siteId next : ℤ) (names : List Text) :
    (newAliases siteId next names).map (·.name) = names ∧
      ∀ row ∈ newAliases siteId next names, row.siteId = siteId := by
  induction names generalizing next with
  | nil => exact ⟨rfl, fun _ hrow => absurd hrow List.not_mem_nil⟩
  | cons name names ih =>
      obtain ⟨hnames, hsites⟩ := ih (next + 1)
      exact ⟨congrArg (name :: ·) hnames, List.forall_mem_cons.mpr ⟨rfl, hsites⟩⟩

theorem rows_saveAliases (siteId : ℤ) (aliases : List Text) (store : Store) :
    (saveAliases siteId aliases store).db.rows = Function.update store.db.rows .siteAliases
      ((store.db.siteAliases.filter fun row => !decide (row.siteId = siteId)) ++
        newAliases siteId store.nextAlias aliases) := by
  have hleaf : ∀ key ∈ schema.foreignKeys, key.parent ≠ Table.siteAliases := by decide
  have hrows := rows_deleteRows_of_leaf store.db hleaf fun row : SiteAlias =>
    decide (row.siteId = siteId)
  have hadded := congrArg (fun rows : (table : Table) → List (schema.Row table) =>
    Function.update rows .siteAliases
      (List.append (rows .siteAliases) (newAliases siteId store.nextAlias aliases))) hrows
  exact hadded.trans (Function.update_idem _ _ _)

theorem aliases_saveAliases (aliases : List Text) (store : Store) :
    (((saveAliases siteId aliases store).db.siteAliases.filter (·.siteId = siteId)).map (·.name)) =
      aliases := by
  obtain ⟨hnames, hsites⟩ := map_name_newAliases siteId store.nextAlias aliases
  have hrows : (saveAliases siteId aliases store).db.siteAliases =
      (store.db.siteAliases.filter fun row => !decide (row.siteId = siteId)) ++
        newAliases siteId store.nextAlias aliases :=
    (congrFun (rows_saveAliases siteId aliases store) Table.siteAliases).trans (Function.update_self _ _ _)
  have hold : ((store.db.siteAliases.filter fun row => !decide (row.siteId = siteId)).filter
      (·.siteId = siteId)) = [] := by
    rw [List.filter_eq_nil_iff]
    intro row hrow hown
    have hother := (List.mem_filter.mp hrow).2
    rw [hown] at hother
    exact absurd hother Bool.false_ne_true
  have hnew : (newAliases siteId store.nextAlias aliases).filter (·.siteId = siteId) =
      newAliases siteId store.nextAlias aliases := by
    apply List.filter_eq_self.mpr
    intro row hrow
    exact decide_eq_true (hsites row hrow)
  rw [hrows, List.filter_append, hold, hnew, List.nil_append, hnames]

/-- The tables that the aliases and the rate limit are not in. -/
theorem tables_saved (siteId : ℤ) (aliases : List Text) (limit : RateLimit) (store : Store) :
    (saveRateLimit siteId limit (saveAliases siteId aliases store)).db.upstreams =
        store.db.upstreams ∧
      (saveRateLimit siteId limit (saveAliases siteId aliases store)).db.siteAuth =
        store.db.siteAuth ∧
      (saveRateLimit siteId limit (saveAliases siteId aliases store)).db.authRealms =
        store.db.authRealms :=
  ⟨congrFun (rows_saveAliases siteId aliases store) Table.upstreams,
    congrFun (rows_saveAliases siteId aliases store) Table.siteAuth,
    congrFun (rows_saveAliases siteId aliases store) Table.authRealms⟩

theorem sites_saved (siteId : ℤ) (aliases : List Text) (limit : RateLimit) (store : Store) :
    (saveRateLimit siteId limit (saveAliases siteId aliases store)).db.sites =
      store.db.sites.map fun site =>
        if decide (site.id = siteId) then limit.onSite site else site := by
  have hsites : (saveAliases siteId aliases store).db.sites = store.db.sites :=
    congrFun (rows_saveAliases siteId aliases store) Table.sites
  rw [← hsites]
  rfl

end Parts

section Saved

/-- What a save has written once the pool and the ports are there. -/
def portsSaved (siteId : ℤ) (settings : Settings) (store : Store) : Store :=
  apply (portStatements siteId settings.extras)
    (apply (poolStatements siteId settings.upstreams (store.poolOf siteId)) store)

/-- What a save has written before it comes to the sign-in. -/
def partsSaved (siteId : ℤ) (settings : Settings) (store : Store) : Store :=
  saveRateLimit siteId settings.rateLimit
    (saveAliases siteId settings.aliases (portsSaved siteId settings store))

theorem run_saveParts (store : Store) :
    (saveParts siteId settings).run true store =
      (saveSignIn siteId settings.signIn).run true (partsSaved siteId settings store) := by
  show (chain _ _).run true store = _
  rw [run_chain, run_chain]
  rfl

theorem besidePool_apply (siteId : ℤ) (settings : Settings) (store : Store) :
    besidePool (apply (poolStatements siteId settings.upstreams (store.poolOf siteId)) store) =
      besidePool store :=
  apply_keeps besidePool
    (fun _ heffect store => besidePool_of_mem_poolStatements heffect store) store

/-- The tables of a store after the pool and the ports are saved. -/
theorem tables_portsSaved (siteId : ℤ) (settings : Settings) (store : Store) :
    besidePool (portsSaved siteId settings store) =
      { besidePool store with sitePorts := (portsSaved siteId settings store).sitePorts } := by
  obtain ⟨hdb, hlisten⟩ := Prod.mk.inj (besidePorts_apply siteId settings.extras
    (apply (poolStatements siteId settings.upstreams (store.poolOf siteId)) store))
  have hpool := besidePool_apply siteId settings store
  calc
    besidePool (portsSaved siteId settings store)
        = { besidePool (apply (poolStatements siteId settings.upstreams (store.poolOf siteId)) store)
            with sitePorts := (portsSaved siteId settings store).sitePorts } := by
          unfold besidePool portsSaved
          rw [hdb, hlisten]
    _ = _ := by rw [hpool]

theorem auth_partsSaved (siteId : ℤ) (settings : Settings) (store : Store) :
    (partsSaved siteId settings store).db.siteAuth = store.db.siteAuth ∧
      (partsSaved siteId settings store).db.authRealms = store.db.authRealms := by
  obtain ⟨-, hauth, hrealms⟩ := tables_saved siteId settings.aliases settings.rateLimit
    (portsSaved siteId settings store)
  have hports := tables_portsSaved siteId settings store
  exact ⟨hauth.trans (congrArg BesidePool.auth hports),
    hrealms.trans (congrArg BesidePool.realms hports)⟩

theorem laid_partsSaved (hplaced : Placed settings siteId store) :
    Laid settings siteId (partsSaved siteId settings store) := by
  have hports := tables_portsSaved siteId settings store
  have hsites := sites_saved siteId settings.aliases settings.rateLimit
    (portsSaved siteId settings store)
  rw [show (portsSaved siteId settings store).db.sites = store.db.sites from
    congrArg BesidePool.sites hports] at hsites
  constructor
  case exists_row =>
    obtain ⟨site, hsite, rfl⟩ := hplaced.exists_row
    refine ⟨settings.rateLimit.onSite site, ?_, rfl⟩
    rw [partsSaved, hsites]
    exact List.mem_map.mpr ⟨site, hsite, if_pos (decide_eq_true rfl)⟩
  case row =>
    intro saved hsaved hid
    rw [partsSaved, hsites] at hsaved
    obtain ⟨site, hsite, rfl⟩ := List.mem_map.mp hsaved
    by_cases hown : site.id = siteId
    · rw [if_pos (decide_eq_true hown)]
      calc
        settings.rateLimit.onSite (settings.onSite (settings.rateLimit.onSite site))
            = settings.rateLimit.onSite (settings.onSite site) := rfl
        _ = settings.rateLimit.onSite site := by rw [hplaced.row site hsite hown]
    · rw [if_neg (by simpa using hown)] at hid
      exact absurd hid hown
  case listenPort =>
    intro listen hlisten
    apply hplaced.listenPort
    rwa [← show (portsSaved siteId settings store).listenPorts = store.listenPorts from
      congrArg BesidePool.listenPorts hports]
  case pool =>
    have hrows : (partsSaved siteId settings store).db.upstreams =
        (apply (poolStatements siteId settings.upstreams (store.poolOf siteId)) store).db.upstreams := by
      obtain ⟨hupstreams, -⟩ := tables_saved siteId settings.aliases settings.rateLimit
        (portsSaved siteId settings store)
      obtain ⟨hdb, -⟩ := Prod.mk.inj (besidePorts_apply siteId settings.extras
        (apply (poolStatements siteId settings.upstreams (store.poolOf siteId)) store))
      exact hupstreams.trans (congrArg Database.upstreams hdb)
    have hperm : (((apply (poolStatements siteId settings.upstreams (store.poolOf siteId))
        store).poolOf siteId).map backendOf).Perm settings.upstreams :=
      perm_poolOf hplaced.distinct hplaced.fresh settings.upstreams_nodup
    rw [Store.poolOf, hrows]
    exact hperm
  case extras =>
    intro extra
    exact mem_sitePorts_apply settings.extras _ extra
  case aliases =>
    exact aliases_saveAliases settings.aliases (portsSaved siteId settings store)

end Saved

section SignIn

/-- What a site is but for its sign-in. -/
structure BesideSignIn where
  sites : List Site
  upstreams : List Upstream
  aliases : List SiteAlias
  realms : List AuthRealm
  listenPorts : List (ℤ × ℤ)
  sitePorts : List SitePort

def besideSignIn (store : Store) : BesideSignIn where
  sites := store.db.sites
  upstreams := store.db.upstreams
  aliases := store.db.siteAliases
  realms := store.db.authRealms
  listenPorts := store.listenPorts
  sitePorts := store.sitePorts

theorem Laid.of_besideSignIn {store' : Store} (hlaid : Laid settings siteId store)
    (hbeside : besideSignIn store' = besideSignIn store) : Laid settings siteId store' := by
  have hsites : store'.db.sites = store.db.sites := congrArg BesideSignIn.sites hbeside
  have hupstreams : store'.db.upstreams = store.db.upstreams :=
    congrArg BesideSignIn.upstreams hbeside
  have haliases : store'.db.siteAliases = store.db.siteAliases :=
    congrArg BesideSignIn.aliases hbeside
  have hlisten : store'.listenPorts = store.listenPorts :=
    congrArg BesideSignIn.listenPorts hbeside
  have hports : store'.sitePorts = store.sitePorts := congrArg BesideSignIn.sitePorts hbeside
  constructor
  case exists_row => exact hsites ▸ hlaid.exists_row
  case row => exact hsites ▸ hlaid.row
  case listenPort => exact hlisten ▸ hlaid.listenPort
  case pool =>
    rw [Store.poolOf, hupstreams]
    exact hlaid.pool
  case extras => exact hports ▸ hlaid.extras
  case aliases =>
    rw [haliases]
    exact hlaid.aliases

theorem rows_dropSignIn (siteId : ℤ) (store : Store) :
    (dropSignIn siteId store).db.rows = Function.update store.db.rows .siteAuth
      (store.db.siteAuth.filter fun row => !decide (row.siteId = siteId)) := by
  have hleaf : ∀ key ∈ schema.foreignKeys, key.parent ≠ Table.siteAuth := by decide
  exact rows_deleteRows_of_leaf store.db hleaf fun row : SiteAuth => decide (row.siteId = siteId)

theorem besideSignIn_dropSignIn (siteId : ℤ) (store : Store) :
    besideSignIn (dropSignIn siteId store) = besideSignIn store := by
  have hbeside := congrArg (fun rows : (table : Table) → List (schema.Row table) =>
    BesideSignIn.mk (rows .sites) (rows .upstreams) (rows .siteAliases) (rows .authRealms)
      store.listenPorts store.sitePorts) (rows_dropSignIn siteId store)
  exact hbeside

theorem besideSignIn_putSignIn (siteId realmId : ℤ) (signIn : SignIn) (store : Store) :
    besideSignIn (putSignIn siteId realmId signIn store) = besideSignIn store := by
  unfold putSignIn
  split <;> rfl

/-- The site's one row, whether it was there before or not. -/
theorem siteAuth_putSignIn (siteId realmId : ℤ) (signIn : SignIn) (store : Store) :
    signIn.row siteId realmId ∈ (putSignIn siteId realmId signIn store).db.siteAuth ∧
      ∀ row ∈ (putSignIn siteId realmId signIn store).db.siteAuth, row.siteId = siteId →
        row = signIn.row siteId realmId := by
  by_cases hany : store.db.siteAuth.any (·.siteId = siteId) = true
  · have hrows : (putSignIn siteId realmId signIn store).db.siteAuth =
        store.db.siteAuth.map fun row =>
          if decide (row.siteId = siteId) = true then signIn.row siteId realmId else row := by
      unfold putSignIn
      rw [if_pos hany]
      rfl
    rw [hrows]
    constructor
    · obtain ⟨row, hrow, hown⟩ := List.any_eq_true.mp hany
      exact List.mem_map.mpr ⟨row, hrow, if_pos hown⟩
    · intro saved hsaved hown
      obtain ⟨row, -, rfl⟩ := List.mem_map.mp hsaved
      split
      case isTrue => rfl
      case isFalse hother =>
        rw [if_neg hother] at hown
        exact absurd (decide_eq_true hown) hother
  · have hrows : (putSignIn siteId realmId signIn store).db.siteAuth =
        store.db.siteAuth ++ [signIn.row siteId realmId] := by
      unfold putSignIn
      rw [if_neg hany]
      rfl
    rw [hrows]
    constructor
    · exact List.mem_append_right _ (List.mem_singleton_self _)
    · intro row hrow hown
      rcases List.mem_append.mp hrow with hold | hnew
      · exact absurd (List.any_eq_true.mpr ⟨row, hold, decide_eq_true hown⟩) hany
      · exact List.mem_singleton.mp hnew

/-- With the sign-in the site is what the form says. -/
theorem exists_run_saveSignIn (hlaid : Laid settings siteId store)
    (hknown : realmKnown settings store = true) :
    ∃ after, (saveSignIn siteId settings.signIn).run true store = (after, .saved) ∧
      Describes settings siteId after := by
  cases hsignIn : settings.signIn with
  | none =>
      refine ⟨dropSignIn siteId store, rfl,
        hlaid.of_besideSignIn (besideSignIn_dropSignIn siteId store), ?_, ?_⟩
      · have hrows : (dropSignIn siteId store).db.siteAuth =
            store.db.siteAuth.filter fun row => !decide (row.siteId = siteId) :=
          (congrFun (rows_dropSignIn siteId store) Table.siteAuth).trans
            (Function.update_self _ _ _)
        intro row hrow hown
        rw [hrows] at hrow
        have hother := (List.mem_filter.mp hrow).2
        rw [decide_eq_true hown] at hother
        exact absurd hother Bool.false_ne_true
      · intro signIn hmem
        rw [hsignIn] at hmem
        contradiction
  | some signIn =>
      have hany : store.db.authRealms.any (·.name = signIn.realm) = true := by
        simpa [realmKnown, hsignIn] using hknown
      cases hfind : store.db.authRealms.find? (·.name = signIn.realm) with
      | none =>
          obtain ⟨realm, hrealm, hname⟩ := List.any_eq_true.mp hany
          exact absurd hname (List.find?_eq_none.mp hfind realm hrealm)
      | some realm =>
          have hrun : (saveSignIn siteId (some signIn)).run true store =
              (putSignIn siteId realm.id signIn store, .saved) := by
            rw [saveSignIn, run_query, hfind]
            rfl
          have hbeside := besideSignIn_putSignIn siteId realm.id signIn store
          have hrealms : (putSignIn siteId realm.id signIn store).db.authRealms =
            store.db.authRealms := congrArg BesideSignIn.realms hbeside
          have hrealm : realm ∈ (putSignIn siteId realm.id signIn store).db.authRealms :=
            hrealms ▸ List.mem_of_find?_eq_some hfind
          obtain ⟨hpresent, honly⟩ := siteAuth_putSignIn siteId realm.id signIn store
          refine ⟨_, hrun, hlaid.of_besideSignIn hbeside, ?_, ?_⟩
          · intro row hrow hown
            have hname : realm.name = signIn.realm := by simpa using List.find?_some hfind
            exact ⟨signIn, hsignIn, realm, hrealm, hname, honly row hrow hown⟩
          · intro asked hasked
            obtain rfl : signIn = asked := Option.some.inj (hsignIn.symm.trans hasked)
            exact ⟨_, hpresent, rfl, realm, hrealm, rfl⟩

/-- What both handlers do once the site has its row. -/
theorem exists_run_saveParts (hplaced : Placed settings siteId store) :
    ∃ after, (saveParts siteId settings).run true store = (after, .saved) ∧
      Describes settings siteId after := by
  have hknown : realmKnown settings (partsSaved siteId settings store) = true := by
    have hrealms := (auth_partsSaved siteId settings store).2
    rw [realmKnown, hrealms]
    exact hplaced.known
  obtain ⟨after, hrun, hdescribes⟩ := exists_run_saveSignIn (laid_partsSaved hplaced) hknown
  exact ⟨after, (run_saveParts store).trans hrun, hdescribes⟩

end SignIn

section Handlers

/-- What the tables' own constraints make of every store: ids are not given twice, and
a pool has a backend once. -/
structure Sound (store : Store) : Prop where
  distinct : Distinct store.db.upstreams
  fresh : ∀ row ∈ store.db.upstreams, row.id < store.nextUpstream
  siteIds : (store.db.sites.map (·.id)).Nodup
  siteFresh : ∀ site ∈ store.db.sites, site.id < store.nextSite
  listenFresh : ∀ listen ∈ store.listenPorts, listen.1 < store.nextSite

theorem placed_insertSite (hsound : Sound store) (hknown : realmKnown settings store = true) :
    Placed settings store.nextSite (insertSite name settings store) := by
  have hsites : (insertSite name settings store).db.sites =
      store.db.sites ++ [settings.onSite (blankSite store.nextSite name)] := rfl
  constructor
  case exists_row =>
    rw [hsites]
    exact ⟨_, List.mem_append_right _ (List.mem_singleton_self _), rfl⟩
  case row =>
    intro site hsite hid
    rw [hsites] at hsite
    rcases List.mem_append.mp hsite with hold | hnew
    · exact absurd hid (hsound.siteFresh site hold).ne
    · obtain rfl := List.mem_singleton.mp hnew
      rfl
  case listenPort =>
    intro listen hlisten hid
    rcases List.mem_append.mp hlisten with hold | hnew
    · exact absurd hid (hsound.listenFresh listen hold).ne
    · obtain rfl := List.mem_singleton.mp hnew
      rfl
  case distinct => exact hsound.distinct
  case fresh => exact hsound.fresh
  case known => exact hknown

theorem placed_updateSite (hsound : Sound store) (hknown : realmKnown settings store = true)
    {current : Site} (hcurrent : current ∈ store.db.sites) (hname : current.name = name) :
    Placed settings current.id (updateSite name settings store) := by
  have hsites : (updateSite name settings store).db.sites = store.db.sites.map fun site =>
      if decide (site.name = name) = true then settings.onSite site else site := rfl
  have hlisten : (updateSite name settings store).listenPorts = store.listenPorts.map fun listen =>
      if store.db.sites.any fun site => site.id = listen.1 ∧ site.name = name then
        (listen.1, settings.listenPort)
      else listen := rfl
  constructor
  case exists_row =>
    rw [hsites]
    exact ⟨_, List.mem_map.mpr ⟨current, hcurrent, if_pos (decide_eq_true hname)⟩, rfl⟩
  case row =>
    intro saved hsaved hid
    rw [hsites] at hsaved
    obtain ⟨site, hsite, rfl⟩ := List.mem_map.mp hsaved
    split
    case isTrue => rfl
    case isFalse hother =>
      rw [if_neg hother] at hid
      obtain rfl := List.inj_on_of_nodup_map hsound.siteIds hsite hcurrent hid
      exact absurd (decide_eq_true hname) hother
  case listenPort =>
    intro saved hsaved hid
    rw [hlisten] at hsaved
    obtain ⟨listen, -, rfl⟩ := List.mem_map.mp hsaved
    split
    case isTrue => rfl
    case isFalse hother =>
      rw [if_neg hother] at hid
      apply absurd _ hother
      exact List.any_eq_true.mpr ⟨current, hcurrent, decide_eq_true ⟨hid.symm, hname⟩⟩
  case distinct => exact hsound.distinct
  case fresh => exact hsound.fresh
  case known => exact hknown

/-- A create is refused, or the new site is what the form says. -/
theorem run_postSiteCreate (hsound : Sound store) :
    (postSiteCreate name settings).run true store = (store, .refused) ∨
      ∃ after, (postSiteCreate name settings).run true store = (after, .saved) ∧
        Describes settings store.nextSite after := by
  have hrun : (postSiteCreate name settings).run true store =
      if store.db.sites.any fun site =>
          site.name = name ∨ site.serverName = settings.serverName then
        (store, .refused)
      else if realmKnown settings store then
        (saveParts store.nextSite settings).run true (insertSite name settings store)
      else (store, .refused) := by
    rw [postSiteCreate, run_query]
    split
    · rfl
    · rw [run_query]
      split <;> rfl
  rw [hrun]
  split
  · exact .inl rfl
  · split
    case isFalse => exact .inl rfl
    case isTrue hknown => exact .inr (exists_run_saveParts (placed_insertSite hsound hknown))

/-- An update is refused, or the site is what the form says. -/
theorem run_postSiteUpdate (hsound : Sound store) :
    (∃ answer, answer ≠ .saved ∧
      (postSiteUpdate name settings).run true store = (store, answer)) ∨
      ∃ current ∈ store.db.sites, current.name = name ∧
        ∃ after, (postSiteUpdate name settings).run true store = (after, .saved) ∧
          Describes settings current.id after := by
  cases hfind : store.db.sites.find? (·.name = name) with
  | none =>
      refine .inl ⟨.failed, Answer.noConfusion, ?_⟩
      rw [postSiteUpdate, run_query, hfind]
      rfl
  | some current =>
      have hcurrent := List.mem_of_find?_eq_some hfind
      have hname : current.name = name := by simpa using List.find?_some hfind
      have hrun : (postSiteUpdate name settings).run true store =
          if realmKnown settings store then
            (saveParts current.id settings).run true (updateSite name settings store)
          else (store, .refused) := by
        rw [postSiteUpdate, run_query, hfind]
        dsimp only
        rw [run_query]
        split <;> rfl
      rw [hrun]
      split
      case isTrue hknown =>
        exact .inr ⟨current, hcurrent, hname,
          exists_run_saveParts (placed_updateSite hsound hknown hcurrent hname)⟩
      case isFalse => exact .inl ⟨.refused, Answer.noConfusion, rfl⟩

end Handlers

end EasyWaf.Saves
