import EasyWaf.Core.Machine
import EasyWaf.Import.Hosts
import EasyWaf.Proxy.SiteTable
import EasyWaf.Routes.Sites

/-!
# Who owns a host

The site forms and the import write the names sites answer for; the proxy's site
table gives each name to one site.  No host has two sites as long as no form is
accepted whose hostname is another site's alias: that is the one case the forms
do not look for.
-/

namespace EasyWaf.Routes

open EasyWaf.Core Import

/-- What is done to the sites.  A form is stopped after `reach` statements; an import
of which a later statement fails is dropped as a whole. -/
inductive SiteAction
  | create (form : SiteForm) (reach : ℕ)
  | update (name : Text) (form : SiteForm) (reach : ℕ)
  | toggle (name : Text)
  | delete (name : Text)
  | importFile (sites : List (FileSite Bool)) (rest : Bool)

variable (libraries : Libraries)

/-- An import is applied when nothing is held against its file. -/
def siteStep (table : HostTable Bool) : SiteAction → Option (HostTable Bool)
  | .create form reach => some (postSiteCreate libraries table form reach)
  | .update name form reach => some (postSiteUpdate libraries table name form reach)
  | .toggle name => some (postSiteToggle table name)
  | .delete name => some (postSiteDelete table name)
  | .importFile sites rest =>
      if hostBlockers libraries sites = [] then
        match importSites libraries table sites with
        | some next => some (if rest then next else table)
        | none => some table
      else none

/-- A form that is accepted names a hostname no other site has as an alias. -/
def HostnameFree (table : HostTable Bool) : SiteAction → Prop
  | .create form _ => (checkCreate libraries table form).isOk = true →
      ∀ site ∈ table.sites, normalizeServerName libraries form.serverName ∉ site.aliases
  | .update name form _ => (checkUpdate libraries table name form).isOk = true →
      ∀ site ∈ table.sites, site.name ≠ name →
        normalizeServerName libraries form.serverName ∉ site.aliases
  | _ => True

section Steps

variable {libraries} {table next : HostTable Bool} {site : SiteNames} {form : SiteForm}
variable {name : Text} {reach : ℕ}

open HostTable

/-- A table with a site written into it among the others of another. -/
def Within (table next : HostTable Bool) (site : SiteNames) : Prop :=
  ∀ other ∈ next.sites, other = site ∨ (other ∈ table.sites ∧ other.name ≠ site.name)

/-- A site whose names no other site has can be written in. -/
theorem Within.uncrossed (hwithin : Within table next site) (huncrossed : table.Uncrossed)
    (hserver : ∀ other ∈ table.sites, other.name ≠ site.name → site.serverName ∉ other.aliases)
    (haliases : ∀ other ∈ table.sites, other.name ≠ site.name → other.serverName ∉ site.aliases) :
    next.Uncrossed := by
  intro first hfirst second hsecond hcrossed
  obtain rfl | ⟨hfirst, hname⟩ := hwithin first hfirst
  · obtain rfl | ⟨hsecond, hname'⟩ := hwithin second hsecond
    · rfl
    · exact absurd hcrossed (haliases second hsecond hname')
  · obtain rfl | ⟨hsecond, _⟩ := hwithin second hsecond
    · exact absurd hcrossed (hserver first hfirst hname)
    · exact huncrossed first hfirst second hsecond hcrossed

theorem within_put {held : SiteNames} (hheld : held ∈ table.sites) (hname : held.name = site.name)
    (hput : table.put site = some next) : Within table next site :=
  fun _ hother => (mem_put hput ⟨held, hheld, hname⟩).mp hother

theorem Within.put {after : HostTable Bool} {held : SiteNames} (hwithin : Within table next held)
    (hheld : held ∈ next.sites) (hname : held.name = site.name)
    (hput : next.put site = some after) : Within table after site := by
  intro other hother
  obtain heq | ⟨hmem, hother'⟩ := (mem_put hput ⟨held, hheld, hname⟩).mp hother
  · exact .inl heq
  · obtain heq | hbefore := hwithin other hmem
    · exact absurd (heq ▸ hname) hother'
    · exact .inr ⟨hbefore.1, hother'⟩

theorem Fits.aliases_free (hfits : Fits table site) :
    ∀ other ∈ table.sites, other.name ≠ site.name → other.serverName ∉ site.aliases :=
  fun _ hother hname hown => hfits.free _ hown _ hother hname (.inl rfl)

/-- However far a creation gets, the table is as it was or has the site, with its
aliases or none. -/
theorem uncrossed_createScript (huncrossed : table.Uncrossed) (hfits : Fits table site)
    (hnew : ∀ other ∈ table.sites, other.name ≠ site.name)
    (hserver : ∀ other ∈ table.sites, site.serverName ∉ other.aliases) :
    (Script.run ((createScript site).take reach) table).1.Uncrossed := by
  have hserver' : ∀ other ∈ table.sites, other.name ≠ site.name → site.serverName ∉ other.aliases :=
    fun other hother _ => hserver other hother
  rw [createScript]
  match reach with
  | 0 => exact huncrossed
  | reach + 1 =>
      rw [List.take_succ_cons, Script.run]
      cases hinsert : table.insert { site with aliases := [] } with
      | none => exact huncrossed
      | some middle =>
          have hwithin : Within table middle (site.withAliases []) := by
            intro other hother
            obtain hmem | heq := (mem_insert hinsert).mp hother
            · exact .inr ⟨hmem, hnew other hmem⟩
            · exact .inl heq
          have hmiddle : middle.Uncrossed :=
            hwithin.uncrossed huncrossed hserver' fun _ _ _ => List.not_mem_nil
          match reach with
          | 0 => exact hmiddle
          | reach + 1 =>
              dsimp only
              rw [List.take_succ_cons, Script.run]
              cases hput : middle.put site with
              | none => exact hmiddle
              | some after =>
                  have hheld : site.withAliases [] ∈ middle.sites := (mem_insert hinsert).mpr (.inr rfl)
                  rw [List.take_nil]
                  have hafter : Within table after site := hwithin.put hheld rfl hput
                  exact hafter.uncrossed huncrossed hserver' hfits.aliases_free

/-- However far an update gets, the site has its old names, its new hostname, or
all its new names. -/
theorem uncrossed_updateScript (huncrossed : table.Uncrossed) (hfits : Fits table site)
    (hserver : ∀ other ∈ table.sites, other.name ≠ site.name → site.serverName ∉ other.aliases) :
    (Script.run ((updateScript site).take reach) table).1.Uncrossed := by
  rw [updateScript]
  match reach with
  | 0 => exact huncrossed
  | reach + 1 =>
      rw [List.take_succ_cons, Script.run]
      cases hfirst : (table.find site.name).bind fun current =>
          table.put { current with serverName := site.serverName } with
      | none => exact huncrossed
      | some middle =>
          obtain ⟨current, hfind, hput⟩ := Option.bind_eq_some_iff.mp hfirst
          obtain ⟨hcurrent, hname⟩ := find_eq_some hfind
          have hwithin : Within table middle { current with serverName := site.serverName } :=
            within_put hcurrent rfl hput
          have hmiddle : middle.Uncrossed := by
            apply hwithin.uncrossed huncrossed
            · exact fun other hother hother' => hserver other hother (hname ▸ hother')
            · intro other hother hother' hcrossed
              exact hother' (huncrossed current hcurrent other hother hcrossed).symm
          match reach with
          | 0 => exact hmiddle
          | reach + 1 =>
              dsimp only
              rw [List.take_succ_cons, Script.run]
              cases hlast : middle.put site with
              | none => exact hmiddle
              | some after =>
                  have hheld := (mem_put hput ⟨current, hcurrent, rfl⟩).mpr (.inl rfl)
                  rw [List.take_nil]
                  exact (hwithin.put hheld hname hlast).uncrossed huncrossed hserver
                    hfits.aliases_free

theorem uncrossed_postSiteCreate (huncrossed : table.Uncrossed)
    (hfree : HostnameFree libraries table (.create form reach)) :
    (postSiteCreate libraries table form reach).Uncrossed := by
  rw [postSiteCreate]
  cases hcheck : checkCreate libraries table form with
  | error _ => exact huncrossed
  | ok site =>
      obtain ⟨hfits, hnew, hserver⟩ := fits_of_checkCreate hcheck
      apply uncrossed_createScript huncrossed hfits hnew
      rw [hserver]
      exact hfree (by rw [hcheck]; rfl)

theorem uncrossed_postSiteUpdate (huncrossed : table.Uncrossed)
    (hfree : HostnameFree libraries table (.update name form reach)) :
    (postSiteUpdate libraries table name form reach).Uncrossed := by
  rw [postSiteUpdate]
  cases hcheck : checkUpdate libraries table name form with
  | error _ => exact huncrossed
  | ok site =>
      obtain ⟨hfits, hname, hserver⟩ := fits_of_checkUpdate hcheck
      apply uncrossed_updateScript huncrossed hfits
      rw [hserver, hname]
      exact hfree (by rw [hcheck]; rfl)

theorem uncrossed_postSiteToggle (huncrossed : table.Uncrossed) :
    (postSiteToggle table name).Uncrossed := by
  rw [postSiteToggle]
  cases htoggle : (table.find name).bind fun site => table.put { site with extra := !site.extra } with
  | none => exact huncrossed
  | some after =>
      obtain ⟨site, hfind, hput⟩ := Option.bind_eq_some_iff.mp htoggle
      have hsite := (find_eq_some hfind).1
      have hwithin : Within table after { site with extra := !site.extra } :=
        within_put hsite rfl hput
      apply hwithin.uncrossed huncrossed
      · intro other hother hname hcrossed
        exact hname (huncrossed other hother site hsite hcrossed)
      · intro other hother hname hcrossed
        exact hname (huncrossed site hsite other hother hcrossed).symm

/-- What one action keeps. -/
theorem uncrossed_siteStep {action : SiteAction} (huncrossed : table.Uncrossed)
    (hfree : HostnameFree libraries table action) (hstep : siteStep libraries table action = some next) :
    next.Uncrossed := by
  cases action with
  | create form reach =>
      rw [← Option.some.inj hstep]
      exact uncrossed_postSiteCreate huncrossed hfree
  | update name form reach =>
      rw [← Option.some.inj hstep]
      exact uncrossed_postSiteUpdate huncrossed hfree
  | toggle name =>
      rw [← Option.some.inj hstep]
      exact uncrossed_postSiteToggle huncrossed
  | delete name =>
      rw [← Option.some.inj hstep]
      exact huncrossed.of_subset fun site hsite => (mem_delete.mp hsite).1
  | importFile sites rest =>
      rw [siteStep] at hstep
      split at hstep
      · rename_i hblockers
        cases himport : importSites libraries table sites with
        | none =>
            rw [himport] at hstep
            rw [← Option.some.inj hstep]
            exact huncrossed
        | some imported =>
            rw [himport] at hstep
            rw [← Option.some.inj hstep]
            split
            · exact uncrossed_of_hostBlockers hblockers (ofFile_importSites himport)
            · exact huncrossed
      · contradiction

end Steps

section Table

open Proxy

variable {table : HostTable Bool} {rows : List SiteColumns} {aliases : List (ℤ × Text)}
variable {asks : HashMap ℤ Gateway.SiteAuth}

/-- A site is held by every one of its names, and the first in the order of the
rows by a name several have. -/
theorem enabled_buildTable_eq (host : Text) :
    (buildTable rows aliases asks).enabled host =
      (rows.find? fun columns => columns.site.enabled && decide (host ∈ namesOf aliases columns.site)).map
        (siteRow · asks) := by
  have hfold (sites : Sites) :
      (rows.foldl (addSite aliases asks) sites).enabled host = (sites.enabled host).or
        ((rows.find? fun columns =>
          columns.site.enabled && decide (host ∈ namesOf aliases columns.site)).map
            (siteRow · asks)) := by
    induction rows generalizing sites with
    | nil => simp
    | cons columns rows ih =>
        rw [List.foldl_cons, ih, addSite, List.find?_cons]
        cases henabled : columns.site.enabled with
        | false => simp
        | true =>
            simp only [if_true, HashMap.foldl_orInsert, Option.or_assoc]
            by_cases hhost : host ∈ namesOf aliases columns.site
            · simp [hhost]
            · simp [hhost]
  exact hfold Sites.empty

/-- The rows and aliases the table's query finds when the sites are these. -/
def ReadAs (table : HostTable Bool) (rows : List SiteColumns) (aliases : List (ℤ × Text)) : Prop :=
  rows.map (fun columns => (columns.site.name, namesOf aliases columns.site, columns.site.enabled)) =
    table.sites.map fun site => (site.name, site.serverName :: site.aliases, site.extra)

/-- Where no host has two sites, no two rows name one. -/
theorem rows_disjoint (howned : table.OwnedOnce) (hread : ReadAs table rows aliases) (host : Text) :
    rows.Pairwise fun columns other =>
      ¬ (host ∈ namesOf aliases columns.site ∧ host ∈ namesOf aliases other.site) := by
  have hsites : (table.sites.map fun site =>
      (site.name, site.serverName :: site.aliases, site.extra)).Pairwise
        fun read other => ¬ (host ∈ read.2.1 ∧ host ∈ other.2.1) := by
    rw [List.pairwise_map]
    apply table.apart.imp_of_mem
    intro site other hsite hother hapart hboth
    apply hapart.name
    rw [howned host site hsite other hother (List.mem_cons.mp hboth.1) (List.mem_cons.mp hboth.2)]
  rw [← hread, List.pairwise_map] at hsites
  exact hsites

/-- Where no host has two sites, every enabled site is held by all its names. -/
theorem enabled_buildTable_of_ownedOnce (howned : table.OwnedOnce)
    (hread : ReadAs table rows aliases) {host : Text} {columns : SiteColumns}
    (hcolumns : columns ∈ rows) (henabled : columns.site.enabled = true)
    (hhost : host ∈ namesOf aliases columns.site) :
    (buildTable rows aliases asks).enabled host = some (siteRow columns asks) := by
  have hmatch : (columns.site.enabled && decide (host ∈ namesOf aliases columns.site)) = true := by
    simp [henabled, hhost]
  rw [enabled_buildTable_eq]
  cases hfind : rows.find? fun columns =>
      columns.site.enabled && decide (host ∈ namesOf aliases columns.site) with
  | none => exact absurd hmatch (List.find?_eq_none.mp hfind columns hcolumns)
  | some first =>
      have hfirst : host ∈ namesOf aliases first.site := by
        have hboth := List.find?_some hfind
        rw [Bool.and_eq_true, decide_eq_true_eq] at hboth
        exact hboth.2
      by_contra hne
      have hdisjoint := rows_disjoint howned hread host
      have hsymm : Std.Symm fun columns other : SiteColumns =>
          ¬ (host ∈ namesOf aliases columns.site ∧ host ∈ namesOf aliases other.site) :=
        ⟨fun _ _ hnot hboth => hnot hboth.symm⟩
      apply hdisjoint.forall (List.mem_of_find?_eq_some hfind) hcolumns _ ⟨hfirst, hhost⟩
      rintro rfl
      exact hne rfl

end Table

section Runs

variable {libraries} {table : HostTable Bool}

open Proxy

/-- No host has two sites, and the proxy's table has nothing to choose: every
enabled site is held by all its names. -/
theorem hosts_owned_once
    (run : Machine.Run (siteStep libraries) (HostnameFree libraries) HostTable.empty table) :
    table.OwnedOnce ∧
      ∀ rows aliases asks, ReadAs table rows aliases → ∀ columns ∈ rows,
        columns.site.enabled = true → ∀ host ∈ namesOf aliases columns.site,
          (buildTable rows aliases asks).enabled host = some (siteRow columns asks) := by
  have huncrossed : table.Uncrossed :=
    run.invariant HostTable.Uncrossed
      (fun _ _ _ hbefore hfree hstep => uncrossed_siteStep hbefore hfree hstep)
      HostTable.uncrossed_empty
  have howned := HostTable.ownedOnce_iff_uncrossed.mpr huncrossed
  refine ⟨howned, ?_⟩
  intro rows aliases asks hread columns hcolumns henabled host hhost
  exact enabled_buildTable_of_ownedOnce howned hread hcolumns henabled hhost

instance (table : HostTable Bool) : Decidable table.Uncrossed :=
  inferInstanceAs (Decidable (∀ site ∈ table.sites, ∀ other ∈ table.sites,
    other.serverName ∈ site.aliases → site.name = other.name))

instance (table : HostTable Bool) : DecidablePred (HostnameFree libraries table)
  | .create form _ => inferInstanceAs (Decidable ((checkCreate libraries table form).isOk = true →
      ∀ site ∈ table.sites, normalizeServerName libraries form.serverName ∉ site.aliases))
  | .update name form _ =>
      inferInstanceAs (Decidable ((checkUpdate libraries table name form).isOk = true →
        ∀ site ∈ table.sites, site.name ≠ name →
          normalizeServerName libraries form.serverName ∉ site.aliases))
  | .toggle _ => isTrue trivial
  | .delete _ => isTrue trivial
  | .importFile _ _ => isTrue trivial

/-- A site that answers for a second name. -/
def shopForm : SiteForm where
  name := some "shop".toList
  serverName := "shop.example".toList
  aliases := some "www.example".toList
  settingsAccepted := true

/-- A site under the name a form carries. -/
def blogForm (serverName : Text) : SiteForm where
  name := some "blog".toList
  serverName := serverName
  aliases := none
  settingsAccepted := true

theorem hosts_owned_once_two_sites :
    ∃ table, Machine.Run (siteStep Libraries.plain) (HostnameFree Libraries.plain)
        HostTable.empty table ∧
      decide (table.sites.length = 2) = true ∧ table.OwnedOnce := by
  obtain ⟨table, run, hlength⟩ := Machine.exists_run_of_exec (siteStep Libraries.plain)
    HostTable.empty (fun table action => decide (HostnameFree Libraries.plain table action))
    [.create shopForm 2, .create (blogForm "blog.example".toList) 2]
    (fun table => decide (table.sites.length = 2))
    (fun _ _ => of_decide_eq_true) (by decide +kernel)
  exact ⟨table, run, hlength, (hosts_owned_once run).1⟩

/-- A site created under another's alias is accepted, and both answer for it. -/
theorem alias_taken_by_hostname :
    ∃ table, Machine.Run (siteStep Libraries.plain) Machine.anything HostTable.empty table ∧
      ¬ table.OwnedOnce := by
  have hcrossed : ∃ table, Machine.Run (siteStep Libraries.plain) Machine.anything
      HostTable.empty table ∧ (!decide table.Uncrossed) = true :=
    Machine.exists_run_of_exec (siteStep Libraries.plain) HostTable.empty (fun _ _ => true)
      [.create shopForm 2, .create (blogForm "www.example".toList) 2]
      (fun table => !decide table.Uncrossed)
      (fun _ _ _ => trivial) (by decide +kernel)
  obtain ⟨table, run, hcrossed⟩ := hcrossed
  refine ⟨table, run, fun howned => ?_⟩
  have huncrossed := HostTable.ownedOnce_iff_uncrossed.mp howned
  simp [huncrossed] at hcrossed

end Runs

end EasyWaf.Routes
