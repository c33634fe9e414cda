import EasyWaf.Core.Freshness
import EasyWaf.Db.Statements
import EasyWaf.Generation.Current
import EasyWaf.IpList
import EasyWaf.Modules.GeoIp
import EasyWaf.Modules.Waf
import EasyWaf.Proxy.SiteTable

/-!
# Everything the proxy caches

The four caches filed under the configuration generation, as one machine: writers
commit transactions and reload the published lists, callers of
`generation::current` read the counter, and requests look up what they need and
read it where it is not held.
-/

namespace EasyWaf.Proxy

open EasyWaf.Core EasyWaf.Db Modules

/-- What the loaders read: the tables and the published lists. -/
structure Config where
  db : Database
  published : IpList.Published

/-- The statements of a transaction, all of them the program's. -/
structure Transaction where
  statements : List Statement
  runs : ∀ statement ∈ statements, Runs statement

inductive Change
  | commit (transaction : Transaction)
  | publish (lists : HashMap Text IpList.FeedData)

def change (config : Config) : Change → Option Config
  | .commit transaction =>
      (execAll config.db transaction.statements).map fun db => { config with db }
  -- `set_feed_data`
  | .publish lists =>
      some { config with published := { version := config.published.version + 1, lists } }

/-- The generation a configuration carries. -/
def number (config : Config) : ℕ := config.db.generation

abbrev World := Generation.World Config

abbrev Event := Generation.Event Change

inductive Request
  | snapshot (siteId : ℤ)
  | countries (siteId : ℤ)
  | policyLists
  | siteTable
  deriving DecidableEq

/-- What a request looks up.  The version of the published lists is read after
the generation, and both are what the lists are kept under. -/
inductive Job
  | snapshot (siteId : ℤ)
  | countries (siteId : ℤ)
  | policyLists (published : ℕ)
  | siteTable
  deriving DecidableEq

inductive Served
  | snapshot (snapshot : Waf.SiteSnapshot)
  | countries (policy : Option GeoIp.GeoPolicy)
  | policyLists (lists : HashMap ℤ IpList.Lists)
  | siteTable (sites : Sites)

structure Caches where
  waf : Generation.PerSite Waf.SiteSnapshot
  geoip : Generation.PerSite (Option GeoIp.GeoPolicy)
  loaded : Option IpList.Loaded
  sites : Option SiteTable

def Caches.new : Caches where
  waf := Generation.PerSite.new
  geoip := Generation.PerSite.new
  loaded := none
  sites := none

def Caches.get (caches : Caches) (generation : ℕ) : Job → Option Served
  | .snapshot siteId => (caches.waf.get generation siteId).map .snapshot
  | .countries siteId => (caches.geoip.get generation siteId).map .countries
  | .policyLists published =>
      (IpList.lookupLoaded caches.loaded generation published).map .policyLists
  | .siteTable => (lookupTable caches.sites generation).map .siteTable

def Caches.put (caches : Caches) (generation : ℕ) : Job → Served → Caches
  | .snapshot siteId, .snapshot snapshot =>
      { caches with waf := caches.waf.put generation siteId snapshot }
  | .countries siteId, .countries policy =>
      { caches with geoip := caches.geoip.put generation siteId policy }
  | .policyLists published, .policyLists lists =>
      { caches with loaded := IpList.keepLoaded caches.loaded generation published lists }
  | .siteTable, .siteTable sites =>
      { caches with sites := keepTable caches.sites generation sites }
  | _, _ => caches

/-- What is served when the reads give up, which only those of the site table
do. -/
def Caches.fallback (caches : Caches) : Job → Served
  | .snapshot _ => .snapshot { policy := none, rules := [], exclusions := [] }
  | .countries _ => .countries none
  | .policyLists _ => .policyLists HashMap.empty
  | .siteTable => .siteTable (fallbackTable caches.sites)

section Loads

variable (libraries : Libraries)

def load : Job → Load Config Served
  | .snapshot siteId => do
      return .snapshot (← Waf.loadSnapshot libraries Config.db siteId)
  | .countries siteId => do
      return .countries (← GeoIp.getSiteGeoPolicy Config.db siteId)
  | .policyLists _ => do
      return .policyLists (← IpList.loadPolicyLists Config.db Config.published)
  | .siteTable => do
      return .siteTable (← loadSites libraries Config.db)

def keyOf (world : World) : Request → Job
  | .snapshot siteId => .snapshot siteId
  | .countries siteId => .countries siteId
  | .policyLists => .policyLists world.config.published.version
  | .siteTable => .siteTable

/-- What the request's call of `generation::current` returned. -/
def granted (world : World) (id : ℕ) : Option ℕ :=
  match world.calls id with
  | .returned generation => some generation
  | _ => none

/-- The proxy's caches as a `Service`. -/
def caches : Service World Config Event Request ℕ Job Served Caches where
  evolve := Generation.evolve change number
  view := Generation.World.config
  stamp := number
  granted := granted
  key := keyOf
  load := fun _ job => load libraries job
  get := Caches.get
  put := Caches.put
  fallback := Caches.fallback

end Loads

abbrev State := Service.State World Config ℕ Job Served Caches

abbrev Action := Service.Action Event Request

/-- The process as it starts over a configuration. -/
def start (config : Config) : State where
  world := Generation.World.fresh config
  past := [config]
  held := Caches.new
  tasks := fun _ => .idle

/-- The database keeps its constraints, and nobody is ahead of its counter. -/
structure Sound (world : World) : Prop where
  consistent : Consistent world.config.db
  behind : Generation.Behind number world

/-- An action that neither writes nor fails. -/
def quiet : Action → Bool
  | .evolve (.change _) | .fail _ => false
  | _ => true

theorem config_of_quiet {world next : World} {event : Event} (hquiet : quiet (.evolve event) = true)
    (hevolve : Generation.evolve change number world event = some next) :
    next.config = world.config := by
  cases Generation.moves_of_evolve hevolve with
  | change _ => simp [quiet] at hquiet
  | _ => rfl

section Laws

theorem number_le_of_change {config config' : Config} {how : Change}
    (hchange : change config how = some config') : number config ≤ number config' := by
  cases how with
  | commit transaction =>
      simp only [change, Option.map_eq_some_iff] at hchange
      obtain ⟨db, hexec, rfl⟩ := hchange
      rcases eq_or_generation_lt_of_execAll transaction.runs hexec with rfl | hlt
      · exact le_refl _
      · exact hlt.le
  | publish lists =>
      obtain rfl := Option.some.inj hchange
      exact le_refl _

theorem consistent_of_change {config config' : Config} {how : Change}
    (hconsistent : Consistent config.db) (hchange : change config how = some config') :
    Consistent config'.db := by
  cases how with
  | commit transaction =>
      simp only [change, Option.map_eq_some_iff] at hchange
      obtain ⟨db, hexec, rfl⟩ := hchange
      exact Relational.Schema.consistent_of_execAll hconsistent hexec
  | publish lists =>
      obtain rfl := Option.some.inj hchange
      exact hconsistent

theorem Sound.evolve {world next : World} {event : Event} (hsound : Sound world)
    (hevolve : Generation.evolve change number world event = some next) : Sound next where
  behind := hsound.behind.step (fun _ _ _ => number_le_of_change) hevolve
  consistent := by
    cases Generation.moves_of_evolve hevolve with
    | change hchange => exact consistent_of_change hsound.consistent hchange
    | _ => exact hsound.consistent

theorem sound_fresh {config : Config} (hconsistent : Consistent config.db) :
    Sound (Generation.World.fresh config) where
  consistent := hconsistent
  behind := Generation.behind_fresh config

theorem Caches.get_put {caches : Caches} {generation generation' : ℕ} {job job' : Job}
    {value value' : Served}
    (hget : (caches.put generation job value).get generation' job' = some value') :
    (generation' = generation ∧ job' = job ∧ value' = value) ∨
      caches.get generation' job' = some value' := by
  unfold Caches.put at hget
  split at hget
  · next siteId snapshot =>
      cases job' with
      | snapshot siteId' =>
          simp only [Caches.get, Option.map_eq_some_iff] at hget ⊢
          obtain ⟨snapshot', hget, rfl⟩ := hget
          rcases Generation.PerSite.get_put hget with ⟨rfl, rfl, rfl⟩ | hbefore
          · exact .inl ⟨rfl, rfl, rfl⟩
          · exact .inr ⟨snapshot', hbefore, rfl⟩
      | _ => exact .inr hget
  · next siteId policy =>
      cases job' with
      | countries siteId' =>
          simp only [Caches.get, Option.map_eq_some_iff] at hget ⊢
          obtain ⟨policy', hget, rfl⟩ := hget
          rcases Generation.PerSite.get_put hget with ⟨rfl, rfl, rfl⟩ | hbefore
          · exact .inl ⟨rfl, rfl, rfl⟩
          · exact .inr ⟨policy', hbefore, rfl⟩
      | _ => exact .inr hget
  · next published lists =>
      cases job' with
      | policyLists published' =>
          simp only [Caches.get, Option.map_eq_some_iff] at hget ⊢
          obtain ⟨lists', hget, rfl⟩ := hget
          rcases IpList.lookupLoaded_keepLoaded hget with ⟨rfl, rfl, rfl⟩ | hbefore
          · exact .inl ⟨rfl, rfl, rfl⟩
          · exact .inr ⟨lists', hbefore, rfl⟩
      | _ => exact .inr hget
  · next sites =>
      cases job' with
      | siteTable =>
          simp only [Caches.get, Option.map_eq_some_iff] at hget ⊢
          obtain ⟨sites', hget, rfl⟩ := hget
          rcases lookupTable_keepTable hget with ⟨rfl, rfl⟩ | hbefore
          · exact .inl ⟨rfl, trivial, rfl⟩
          · exact .inr ⟨sites', hbefore, rfl⟩
      | _ => exact .inr hget
  · exact .inr hget

variable (libraries : Libraries)

theorem lawful : (caches libraries).Lawful Sound where
  sound _ _ _ hsound hevolve := hsound.evolve hevolve
  stamp _ _ _ _ hevolve :=
    Generation.number_le_of_evolve (fun _ _ _ => number_le_of_change) hevolve
  granted world id generation hsound hgranted := by
    simp only [caches, granted] at hgranted
    split at hgranted
    · next generation' hcall =>
        obtain rfl := Option.some.inj hgranted
        exact hsound.behind.returned id generation' hcall
    · simp at hgranted
  put _ _ _ _ _ _ _ hget := Caches.get_put hget

theorem starts (config : Config) : (caches libraries).Starts (start config) where
  past := rfl
  empty generation job := by
    cases job <;> simp [caches, start, Caches.get, Caches.new, IpList.lookupLoaded, lookupTable]
  idle _ := rfl

end Laws

end EasyWaf.Proxy
