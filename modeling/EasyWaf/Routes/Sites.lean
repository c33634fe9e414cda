import EasyWaf.Core.Script
import EasyWaf.Routes.HostTable

/-!
# The forms that write a site's names

`post_site_create`, `post_site_update`, `post_site_toggle` and
`post_site_delete`: first every check, then one statement after another.  The
checks of the fields that name nothing are taken together.
-/

namespace EasyWaf.Routes

/-- The site's switch is what a row has besides its names. -/
abbrev SiteNames := HostedSite Bool

structure SiteForm where
  name : Option Text
  serverName : Text
  aliases : Option Text
  /-- Ports, certificate, upstreams, sign-in and rate limit are accepted. -/
  settingsAccepted : Bool

inductive SiteError
  | nameRequired
  | hostnameRequired
  | notHostname (host : Text)
  | exists
  | badAlias (error : AliasError)
  | hostnameOf (own other : Text)
  | aliasOf (own other : Text)
  | settings
  | notFound

variable (libraries : Libraries)

/-- `alias_conflict`: a name some site other than the excluded one has. -/
def aliasConflict (table : HostTable Bool) (exclude : Option Text) (aliases : List Text) :
    Option SiteError :=
  aliases.findSome? fun own =>
    match table.sites.find? fun other => other.serverName = own ∧ some other.name ≠ exclude with
    | some other => some (.hostnameOf own other.name)
    | none =>
        (table.sites.find? fun other => own ∈ other.aliases ∧ some other.name ≠ exclude).map
          fun other => .aliasOf own other.name

/-- What `post_site_create` checks before it writes, and the site it then has. -/
def checkCreate (table : HostTable Bool) (form : SiteForm) : Except SiteError SiteNames :=
  let name := (form.name.getD []).trim
  let serverName := normalizeServerName libraries form.serverName
  if name = [] then .error .nameRequired
  else if serverName = [] then .error .hostnameRequired
  else if !isHostname serverName then .error (.notHostname serverName)
  else if table.sites.any fun site => site.name = name ∨ site.serverName = serverName then
    .error .exists
  else
    match parseAliases libraries (form.aliases.getD []) serverName with
    | .error error => .error (.badAlias error)
    | .ok aliases =>
        match aliasConflict table none aliases with
        | some error => .error error
        | none =>
            if !form.settingsAccepted then .error .settings
            else .ok { name, serverName, aliases, extra := true }

/-- What `post_site_update` checks before it writes, and the site it then has. -/
def checkUpdate (table : HostTable Bool) (name : Text) (form : SiteForm) :
    Except SiteError SiteNames :=
  let serverName := normalizeServerName libraries form.serverName
  if serverName = [] then .error .hostnameRequired
  else
    match table.find name with
    | none => .error .notFound
    | some current =>
        if serverName ≠ current.serverName ∧ !isHostname serverName then
          .error (.notHostname serverName)
        else
          match parseAliases libraries (form.aliases.getD []) serverName with
          | .error error => .error (.badAlias error)
          | .ok aliases =>
              match aliasConflict table (some name) aliases with
              | some error => .error error
              | none =>
                  if !form.settingsAccepted then .error .settings
                  else .ok { name, serverName, aliases, extra := current.extra }

/-- `INSERT INTO sites`, and `save_aliases` in a transaction of its own. -/
def createScript (site : SiteNames) : List (HostTable Bool → Option (HostTable Bool)) :=
  [fun table => table.insert { site with aliases := [] }, fun table => table.put site]

/-- `UPDATE sites`, and `save_aliases` in a transaction of its own. -/
def updateScript (site : SiteNames) : List (HostTable Bool → Option (HostTable Bool)) :=
  [fun table =>
      (table.find site.name).bind fun current =>
        table.put { current with serverName := site.serverName },
    fun table => table.put site]

/-- `post_site_create`, stopped after `reach` of its statements. -/
def postSiteCreate (table : HostTable Bool) (form : SiteForm) (reach : ℕ) : HostTable Bool :=
  match checkCreate libraries table form with
  | .error _ => table
  | .ok site => (Script.run ((createScript site).take reach) table).1

/-- `post_site_update`, stopped after `reach` of its statements. -/
def postSiteUpdate (table : HostTable Bool) (name : Text) (form : SiteForm) (reach : ℕ) :
    HostTable Bool :=
  match checkUpdate libraries table name form with
  | .error _ => table
  | .ok site => (Script.run ((updateScript site).take reach) table).1

/-- `post_site_toggle`. -/
def postSiteToggle (table : HostTable Bool) (name : Text) : HostTable Bool :=
  ((table.find name).bind fun site => table.put { site with extra := !site.extra }).getD table

/-- `post_site_delete`. -/
def postSiteDelete (table : HostTable Bool) (name : Text) : HostTable Bool :=
  table.delete (·.name = name)

section Checks

variable {libraries} {table : HostTable Bool} {form : SiteForm} {site other : SiteNames}
variable {exclude : Option Text} {aliases : List Text} {own name : Text}

/-- Names no other site has pass. -/
theorem aliasConflict_eq_none (hnone : aliasConflict table exclude aliases = none)
    (hown : own ∈ aliases) (hother : other ∈ table.sites) (hexclude : some other.name ≠ exclude) :
    ¬ other.Claims own := by
  have hnone := List.findSome?_eq_none_iff.mp hnone own hown
  split at hnone
  · contradiction
  · rename_i hserver
    have haliases := Option.map_eq_none_iff.mp hnone
    rw [List.find?_eq_none] at hserver haliases
    have hserver := hserver other hother
    have haliases := haliases other hother
    simp only [decide_eq_true_eq, not_and, not_not] at hserver haliases
    intro hclaims
    cases hclaims with
    | inl heq => exact hexclude (hserver heq.symm)
    | inr hmem => exact hexclude (haliases hmem)

/-- A site a form is about to write: its names are apart from one another and no
other site has one of its aliases. -/
structure Fits (table : HostTable Bool) (site : SiteNames) : Prop where
  aliasList : AliasList site.serverName site.aliases
  free : ∀ own ∈ site.aliases, ∀ other ∈ table.sites, other.name ≠ site.name → ¬ other.Claims own

theorem fits_of_checkCreate (hcheck : checkCreate libraries table form = .ok site) :
    Fits table site ∧ (∀ other ∈ table.sites, other.name ≠ site.name) ∧
      site.serverName = normalizeServerName libraries form.serverName := by
  rw [checkCreate] at hcheck
  split at hcheck
  · contradiction
  split at hcheck
  · contradiction
  split at hcheck
  · contradiction
  split at hcheck
  · contradiction
  rename_i hexists
  split at hcheck
  · contradiction
  rename_i aliases hparse
  split at hcheck
  · contradiction
  rename_i hconflict
  split at hcheck
  · contradiction
  obtain rfl := Except.ok.inj hcheck
  refine ⟨⟨parseAliases_aliasList hparse, ?_⟩, ?_, rfl⟩
  · intro own hown other hother _
    exact aliasConflict_eq_none hconflict hown hother (by simp)
  · intro other hother hname
    apply hexists
    rw [List.any_eq_true]
    exact ⟨other, hother, by simpa using .inl hname⟩

theorem fits_of_checkUpdate (hcheck : checkUpdate libraries table name form = .ok site) :
    Fits table site ∧ site.name = name ∧
      site.serverName = normalizeServerName libraries form.serverName := by
  rw [checkUpdate] at hcheck
  split at hcheck
  · contradiction
  split at hcheck
  · contradiction
  split at hcheck
  · contradiction
  split at hcheck
  · contradiction
  rename_i aliases hparse
  split at hcheck
  · contradiction
  rename_i hconflict
  split at hcheck
  · contradiction
  obtain rfl := Except.ok.inj hcheck
  refine ⟨⟨parseAliases_aliasList hparse, ?_⟩, rfl, rfl⟩
  intro own hown other hother hname
  exact aliasConflict_eq_none hconflict hown hother fun heq => hname (Option.some.inj heq)

end Checks

end EasyWaf.Routes
