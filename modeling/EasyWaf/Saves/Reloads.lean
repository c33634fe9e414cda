import EasyWaf.Core.Observed
import EasyWaf.Proxy.SignInReload
import EasyWaf.Saves.Stored

/-!
# Saves and the reloads between their statements

Every statement of a save moves the generation, and a reload then reads what is
there.  Where a save and the reloads keep out of each other's way, a reload reads
the site as it was or as the whole form describes it, and a save that ends with an
error leaves it as it was.
-/

namespace EasyWaf.Saves

open EasyWaf.Core EasyWaf.Machine Procedure Db Proxy

/-- A form that saves a site. -/
inductive Form
  | create (name : Text) (settings : Settings)
  | update (name : Text) (settings : Settings)

def Form.save : Form → Save
  | create name settings => postSiteCreate name settings
  | update name settings => postSiteUpdate name settings

/-- The form's site is in `after` what the form says. -/
def Form.Took (before after : Store) : Form → Prop
  | create _ settings => Describes settings before.nextSite after
  | update name settings =>
      ∃ current ∈ before.db.sites, current.name = name ∧ Describes settings current.id after

section Stops

variable {name : Text} {settings : Settings} {siteId : ℤ} {rest : Save}

theorem stops_chain (hrest : rest.Stops .failed) (statements : List (Store → Store)) :
    (chain statements rest).Stops .failed := by
  induction statements with
  | nil => exact hrest
  | cons effect statements ih => exact .statement fun _ => ih

theorem stops_saveSignIn (signIn : Option SignIn) : (saveSignIn siteId signIn).Stops .failed := by
  cases signIn with
  | none => exact .statement fun _ => trivial
  | some signIn =>
      apply Stops.statement
      intro store
      split
      · trivial
      · exact .statement fun _ => .statement fun _ => trivial

theorem stops_saveParts : (saveParts siteId settings).Stops .failed := by
  apply Stops.statement
  intro store
  apply stops_chain
  apply stops_chain
  exact .statement fun _ => .statement fun _ => stops_saveSignIn settings.signIn

theorem Form.stops_save (form : Form) : form.save.Stops .failed := by
  cases form with
  | create name settings =>
      apply Stops.statement
      intro store
      split
      · trivial
      · apply Stops.statement
        intro store
        split
        · exact .statement fun _ => stops_saveParts
        · trivial
  | update name settings =>
      apply Stops.statement
      intro store
      split
      · trivial
      · apply Stops.statement
        intro store
        split
        · exact .statement fun _ => stops_saveParts
        · trivial

end Stops

/-- A save that nothing keeps from its end takes as a whole or not at all. -/
theorem Form.run_save {before : Store} (hsound : Sound before) (form : Form) :
    (∃ answer, answer ≠ .saved ∧ form.save.run true before = (before, answer)) ∨
      ∃ after, form.save.run true before = (after, .saved) ∧ form.Took before after := by
  cases form with
  | create name settings =>
      refine (run_postSiteCreate hsound).imp_left ?_
      exact fun hrefused => ⟨.refused, Answer.noConfusion, hrefused⟩
  | update name settings =>
      refine (run_postSiteUpdate hsound).imp_right ?_
      rintro ⟨current, hcurrent, hname, after, hrun, hdescribes⟩
      exact ⟨after, hrun, current, hcurrent, hname, hdescribes⟩

section Reload

variable (libraries : Libraries)

/-- The reload of the site table. -/
abbrev reload : Load Store Sites := loadSites libraries Store.db

theorem strict_reload : (reload libraries).Strict := by
  apply (Load.strict_readOrRefuse _).bind
  intro rows
  apply (Load.strict_readOrRefuse _).bind
  intro aliases
  apply Load.Strict.bind
  · apply (Load.strict_readOrRefuse _).bind
    intro sites
    split
    · trivial
    · apply (Load.strict_readOrRefuse _).bind
      intro users
      exact (Load.strict_readOrRefuse _).bind fun _ => trivial
  · exact fun _ => trivial

/-- What a reload reads that nothing comes between. -/
theorem runAt_reload (store : Store) :
    (reload libraries).runAt store = some (buildTable (siteColumns store.db) (aliasRows store.db)
      (asksOf store.db.siteAuth (realmsOf libraries store.db.authUsers store.db.authRealms))) := by
  simp only [loadSites, loadSiteAuth, Load.runAt_bind, Load.runAt_readOrRefuse, Option.bind_some,
    Load.runAt_pure]
  by_cases hnone : store.db.siteAuth = []
  · rw [if_pos hnone, hnone]
    rfl
  · rw [if_neg hnone]
    rfl

/-- A site with a sign-in whose realm is there is shown with it. -/
theorem keepsAsking_of_asks {siteId : ℤ} {store : Store} {sites : Sites}
    (hasks : ∃ row ∈ store.db.siteAuth, row.siteId = siteId ∧
      ∃ realm ∈ store.db.authRealms, realm.id = row.realmId)
    (hreload : (reload libraries).runAt store = some sites) : KeepsAsking siteId sites := by
  obtain ⟨row, hrow, hsite, realm, hrealm, hid⟩ := hasks
  obtain rfl := Option.some.inj ((runAt_reload libraries store).symm.trans hreload)
  exact keepsAsking_buildTable ⟨row, hrow, hsite, List.mem_map.mpr ⟨realm, hrealm, hid⟩⟩

/-- A site that is not there is not shown. -/
theorem keepsAsking_of_absent {siteId : ℤ} {store : Store} {sites : Sites}
    (habsent : ∀ site ∈ store.db.sites, site.id ≠ siteId)
    (hreload : (reload libraries).runAt store = some sites) : KeepsAsking siteId sites := by
  obtain rfl := Option.some.inj ((runAt_reload libraries store).symm.trans hreload)
  intro name row hrow hid
  obtain ⟨columns, hcolumns, rfl⟩ := enabled_buildTable hrow
  obtain ⟨site, hsite, rfl⟩ := List.mem_map.mp hcolumns
  exact absurd hid (habsent site (mem_orderById.mp hsite))

end Reload

section Runs

variable {libraries : Libraries} {form : Form} {before : Store}

/-- The save has taken as a whole or not at all: every table a reload has built is
what it reads of the site as it was or as the form describes it, a new site that
asks is in none without asking, and the answer is an error only where nothing is
changed. -/
structure TakesWhole (libraries : Libraries) (form : Form) (before : Store)
    (world : Observed Store Answer Sites) : Prop where
  tables : ∀ reading ∈ world.readings, ∀ sites, reading.rest = .done sites →
    ∃ shown, (shown = before ∨ form.Took before shown) ∧
      (reload libraries).runAt shown = some sites
  asks : ∀ name settings, form = .create name settings → settings.signIn.isSome →
    ∀ reading ∈ world.readings, ∀ sites, reading.rest = .done sites →
      KeepsAsking before.nextSite sites
  answer : ∀ answer, world.rest = .done answer →
    answer = .saved ∧ form.Took before world.shared ∨ answer ≠ .saved ∧ world.shared = before

/-- A reload only reads the site as it was before or as the whole form says, and a save
only fails without a trace, where no statement that changes something falls between two
reads of a reload, no reload begins between the first such statement and the save's
end, and none fails after the first. -/
theorem takes_whole_of_apart (hsound : Sound before) {world : Observed Store Answer Sites}
    (run : Run (observe (reload libraries)) (Apart before) ⟨before, form.save, []⟩ world) :
    TakesWhole libraries form before world := by
  obtain ⟨hway, hreads⟩ := observed_of_run (strict_reload libraries) form.stops_save run
  have hafter : (form.save.run true before).1 = before ∨
      form.Took before (form.save.run true before).1 := by
    rcases form.run_save hsound with ⟨answer, -, hrun⟩ | ⟨after, hrun, htook⟩
    · exact .inl (congrArg Prod.fst hrun)
    · rw [hrun]
      exact .inr htook
  have htables : ∀ reading ∈ world.readings, ∀ sites, reading.rest = .done sites →
      ∃ shown, (shown = before ∨ form.Took before shown) ∧
        (reload libraries).runAt shown = some sites := by
    rintro ⟨begun, rest⟩ hreading sites rfl
    rcases (hreads _ hreading).of_done with hbefore | hlater
    · exact ⟨before, .inl rfl, hbefore⟩
    · exact ⟨_, hafter, hlater⟩
  constructor
  case tables => exact htables
  case asks =>
    rintro name settings rfl hsome reading hreading sites hdone
    obtain ⟨shown, hshown, hreload⟩ := htables reading hreading sites hdone
    rcases hshown with rfl | hdescribes
    · apply keepsAsking_of_absent libraries _ hreload
      exact fun site hsite => (hsound.siteFresh site hsite).ne
    · obtain ⟨signIn, hsignIn⟩ := Option.isSome_iff_exists.mp hsome
      exact keepsAsking_of_asks libraries (hdescribes.asks signIn hsignIn) hreload
  case answer =>
    intro answer hdone
    rw [hdone] at hway
    rcases hway.of_done with hrun | ⟨rfl, hstate⟩
    · rcases form.run_save hsound with ⟨error, herror, herrorRun⟩ | ⟨after, hafterRun, htook⟩
      · obtain ⟨hstate, rfl⟩ := Prod.mk.inj (hrun.symm.trans herrorRun)
        exact .inr ⟨herror, hstate⟩
      · obtain ⟨rfl, rfl⟩ := Prod.mk.inj (hrun.symm.trans hafterRun)
        exact .inl ⟨rfl, htook⟩
    · exact .inr ⟨Answer.noConfusion, hstate⟩

end Runs

section Intranet

/-- A form for a site that asks its visitors to sign in as staff. -/
def intranet : Settings where
  serverName := "intranet.example".toList
  listenPort := 80
  tlsPort := none
  certId := none
  tlsRedirect := false
  wafPolicyId := none
  hsts := false
  xFrame := false
  xFrameValue := "SAMEORIGIN".toList
  xContentType := false
  xssProtection := false
  affinity := false
  backendTlsInsecure := false
  aliases := []
  upstreams := [⟨"http://10.0.0.5:8080".toList, 1, true⟩]
  upstreams_nodup := List.nodup_singleton _
  extraHttp := []
  extraHttps := []
  rateLimit := ⟨"Off".toList, 600, 60, "block".toList⟩
  signIn := some ⟨"staff".toList, [], [], false, false, [], []⟩

def intranetForm : Form := .create "intranet".toList intranet

/-- No sites yet, and a realm. -/
def noSites : Store where
  db := Database.empty.withRows .authRealms [realm 1 "staff".toList]
  listenPorts := []
  sitePorts := []
  nextSite := 1
  nextUpstream := 1
  nextAlias := 1

theorem sound_noSites : Sound noSites where
  distinct := .nil
  fresh := fun _ hrow => absurd hrow List.not_mem_nil
  siteIds := List.nodup_nil
  siteFresh := fun _ hsite => absurd hsite List.not_mem_nil
  listenFresh := fun _ hlisten => absurd hlisten List.not_mem_nil

/-- Carried out with nothing in between, the form is saved. -/
theorem intranet_taken :
    ∃ world, TakesWhole Libraries.plain intranetForm noSites world ∧
      world.rest = .done .saved ∧ intranetForm.Took noSites world.shared := by
  have run : Run (observe (reload Libraries.plain)) (Apart noSites) ⟨noSites, intranetForm.save, []⟩
      ⟨(intranetForm.save.run true noSites).1, .done (intranetForm.save.run true noSites).2, []⟩ :=
    run_alone (fun _ hreading => absurd hreading List.not_mem_nil) _ _
  have hsaved : (intranetForm.save.run true noSites).2 = .saved := by decide
  rw [hsaved] at run
  have hwhole := takes_whole_of_apart sound_noSites run
  refine ⟨_, hwhole, rfl, ?_⟩
  exact ((hwhole.answer .saved rfl).resolve_right fun herror => herror.1 rfl).2

/-- A reload between the site's row and its sign-in shows the site without it, and
then a statement fails. -/
theorem intranet_unguarded :
    ∃ world, Run (observe (reload Libraries.plain)) anything ⟨noSites, intranetForm.save, []⟩ world ∧
      (¬ ∀ reading ∈ world.readings, ∀ sites, reading.rest = .done sites →
        KeepsAsking noSites.nextSite sites) ∧
      world.rest = .done .failed ∧ world.shared ≠ noSites := by
  obtain ⟨world, run, hgood⟩ := exists_run_of_exec (observe (reload Libraries.plain))
    ⟨noSites, intranetForm.save, []⟩ (fun _ _ => true)
    [.proceed true, .proceed true, .proceed true, .begin, .read 0 true, .read 0 true, .read 0 true,
      .proceed false]
    (fun world => decide (world.shared.db.sites ≠ []) && decide (world.rest.ended = some .failed) &&
      world.readings.any fun reading => reading.rest.ended.any fun sites =>
        (sites.enabled "intranet.example".toList).any fun row =>
          decide (row.id = 1) && row.auth.isNone)
    (fun _ _ _ => trivial) (by decide)
  simp only [Bool.and_eq_true, decide_eq_true_eq] at hgood
  obtain ⟨⟨hchanged, hfailed⟩, hshown⟩ := hgood
  obtain ⟨reading, hreading, hshown⟩ := List.any_eq_true.mp hshown
  obtain ⟨sites, hsites, hshown⟩ := (Option.any_eq_true _ _).mp hshown
  obtain ⟨row, hrow, hshown⟩ := (Option.any_eq_true _ _).mp hshown
  simp only [Bool.and_eq_true, decide_eq_true_eq] at hshown
  refine ⟨world, run, fun hkeeps => ?_, eq_done_of_ended hfailed, fun hsame => ?_⟩
  · have hauth := hkeeps reading hreading sites (Load.eq_done_of_ended hsites) _ row hrow hshown.1
    rw [Option.isNone_iff_eq_none.mp hshown.2] at hauth
    contradiction
  · apply hchanged
    rw [hsame]
    rfl

end Intranet

end EasyWaf.Saves
