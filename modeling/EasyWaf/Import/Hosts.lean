import EasyWaf.Core.HashMap
import EasyWaf.Routes.HostTable

/-!
# The names of an imported file's sites

The part of the import that reads and writes the names sites answer for: what
`check` holds against a file, and the statements of `apply`, which rewrites the
sites one after another over the ones that are there.  What else a site carries
is left open.
-/

namespace EasyWaf.Import

open EasyWaf.Core Routes

/-- A site as the file has it. -/
structure FileSite (Extra : Type) where
  name : Text
  host : Text
  aliases : List Text
  extra : Extra

inductive HostBlocker
  | appearsTwice (site : Text)
  | notHostname (site host : Text)
  | bothAnswer (site other host : Text)
  deriving DecidableEq

/-- What `check` has noted about the sites so far. -/
structure HostCheck where
  siteNames : List Text
  hosts : HashMap Text Text
  blockers : List HostBlocker

namespace HostCheck

def empty : HostCheck where
  siteNames := []
  hosts := HashMap.empty
  blockers := []

variable (libraries : Libraries)

/-- One name of a site. -/
def addHost (site : Text) (check : HostCheck) (host : Text) : HostCheck :=
  let normal := normalizeServerName libraries host
  if normal = [] then
    { check with blockers := check.blockers ++ [.notHostname site host] }
  else
    { check with
      hosts := check.hosts.insert normal site
      blockers :=
        match check.hosts normal with
        | some other =>
            if other ≠ site then check.blockers ++ [.bothAnswer site other normal]
            else check.blockers
        | none => check.blockers }

variable {Extra : Type}

def addSite (check : HostCheck) (site : FileSite Extra) : HostCheck :=
  let named :=
    { check with
      siteNames := check.siteNames ++ [site.name]
      blockers :=
        if check.siteNames.contains site.name then check.blockers ++ [.appearsTwice site.name]
        else check.blockers }
  (site.host :: site.aliases).foldl (addHost libraries site.name) named

end HostCheck

variable (libraries : Libraries) {Extra : Type}

/-- What `check` holds against the names of the file's sites. -/
def hostBlockers (sites : List (FileSite Extra)) : List HostBlocker :=
  (sites.foldl (HostCheck.addSite libraries) HostCheck.empty).blockers

/-- The site as `apply` writes it. -/
def FileSite.hosted (site : FileSite Extra) : HostedSite Extra where
  name := site.name
  serverName := normalizeServerName libraries site.host
  aliases := site.aliases.map (normalizeServerName libraries)
  extra := site.extra

/-- `INSERT INTO sites … ON CONFLICT(name) DO UPDATE`. -/
def upsertSite (table : HostTable Extra) (site : HostedSite Extra) : Option (HostTable Extra) :=
  match table.find site.name with
  | none => table.insert (site.withAliases [])
  | some old => table.put (site.withAliases old.aliases)

/-- `INSERT INTO site_aliases`. -/
def insertAlias (site : HostedSite Extra) (table : HostTable Extra) (own : Text) :
    Option (HostTable Extra) :=
  (table.find site.name).bind fun held => table.put (held.withAliases (held.aliases ++ [own]))

/-- The statements for one site of the file. -/
def importSite (table : HostTable Extra) (site : FileSite Extra) : Option (HostTable Extra) := do
  let upserted ← upsertSite table (site.hosted libraries)
  let cleared ← upserted.put ((site.hosted libraries).withAliases [])
  (site.hosted libraries).aliases.foldlM (insertAlias (site.hosted libraries)) cleared

/-- `apply`, the sites. -/
def importSites (table : HostTable Extra) (sites : List (FileSite Extra)) :
    Option (HostTable Extra) :=
  let wanted := sites.map (·.name)
  sites.foldlM (importSite libraries) (table.delete fun site => !wanted.contains site.name)

section Apply

variable {libraries} {table next : HostTable Extra} {site other held : HostedSite Extra}
variable {owns : List Text} {own : Text}

/-- The table has the site, and otherwise what another table has under other
names. -/
def Rewrites (table next : HostTable Extra) (site : HostedSite Extra) : Prop :=
  ∀ other, other ∈ next.sites ↔ other = site ∨ (other ∈ table.sites ∧ other.name ≠ site.name)

theorem Rewrites.find (hrewrites : Rewrites table next site) : next.find site.name = some site := by
  have hmem : site ∈ next.sites := (hrewrites site).mpr (.inl rfl)
  cases hfind : next.find site.name with
  | none => exact absurd rfl (HostTable.find_eq_none hfind site hmem)
  | some held =>
      have hheld := HostTable.find_eq_some hfind
      rw [HostTable.eq_of_name_eq hheld.1 hmem hheld.2]

/-- A later statement about the same site takes the place of the earlier. -/
theorem Rewrites.put {after : HostTable Extra} (hrewrites : Rewrites table next held)
    (hname : held.name = site.name) (hput : next.put site = some after) :
    Rewrites table after site := by
  intro other
  have hsome : ∃ before ∈ next.sites, before.name = site.name :=
    ⟨held, (hrewrites held).mpr (.inl rfl), hname⟩
  rw [HostTable.mem_put hput hsome, hrewrites other]
  constructor
  · rintro (heq | ⟨heq | hmem, hother⟩)
    · exact .inl heq
    · exact absurd (heq ▸ hname) hother
    · exact .inr ⟨hmem.1, hother⟩
  · rintro (heq | ⟨hmem, hother⟩)
    · exact .inl heq
    · exact .inr ⟨.inr ⟨hmem, hname.symm ▸ hother⟩, hother⟩

theorem rewrites_upsertSite (hupsert : upsertSite table site = some next) :
    ∃ aliases, Rewrites table next (site.withAliases aliases) := by
  rw [upsertSite] at hupsert
  split at hupsert
  · rename_i hfind
    use []
    intro other
    rw [HostTable.mem_insert hupsert]
    constructor
    · rintro (hmem | heq)
      · exact .inr ⟨hmem, HostTable.find_eq_none hfind other hmem⟩
      · exact .inl heq
    · rintro (heq | hmem)
      · exact .inr heq
      · exact .inl hmem.1
  · rename_i old hfind
    use old.aliases
    intro other
    exact HostTable.mem_put hupsert ⟨old, HostTable.find_eq_some hfind⟩

theorem rewrites_insertAlias (hname : held.name = site.name) (hrewrites : Rewrites table next held)
    {after : HostTable Extra} (hinsert : insertAlias site next own = some after) :
    Rewrites table after (held.withAliases (held.aliases ++ [own])) := by
  rw [insertAlias, ← hname, hrewrites.find] at hinsert
  exact Rewrites.put hrewrites rfl hinsert

theorem rewrites_insertAliases (hname : held.name = site.name) (hrewrites : Rewrites table next held)
    {after : HostTable Extra} (hinsert : owns.foldlM (insertAlias site) next = some after) :
    Rewrites table after (held.withAliases (held.aliases ++ owns)) := by
  induction owns generalizing next held with
  | nil =>
      obtain rfl : next = after := Option.some.inj hinsert
      rw [List.append_nil]
      exact hrewrites
  | cons own owns ih =>
      rw [List.foldlM_cons] at hinsert
      obtain ⟨middle, hmiddle, hrest⟩ := Option.bind_eq_some_iff.mp hinsert
      have hfirst := rewrites_insertAlias hname hrewrites hmiddle
      have hlater : Rewrites table after (held.withAliases (held.aliases ++ [own] ++ owns)) :=
        ih (by exact hname) hfirst hrest
      rwa [List.append_assoc] at hlater

/-- The statements for a site leave it as the file has it, and the others as they
were. -/
theorem rewrites_importSite {site : FileSite Extra}
    (himport : importSite libraries table site = some next) :
    Rewrites table next (site.hosted libraries) := by
  obtain ⟨upserted, hupsert, hrest⟩ := Option.bind_eq_some_iff.mp himport
  obtain ⟨cleared, hclear, haliases⟩ := Option.bind_eq_some_iff.mp hrest
  obtain ⟨aliases, hrewrites⟩ := rewrites_upsertSite hupsert
  have hcleared : Rewrites table cleared ((site.hosted libraries).withAliases []) :=
    hrewrites.put rfl hclear
  exact rewrites_insertAliases rfl hcleared haliases

/-- Every site is one of the file's, as `apply` writes it. -/
def OfFile (libraries : Libraries) (sites : List (FileSite Extra)) (table : HostTable Extra) :
    Prop :=
  ∀ site ∈ table.sites, ∃ entry ∈ sites, site = entry.hosted libraries

theorem ofFile_of_foldlM {sites rest : List (FileSite Extra)} (hsubset : rest ⊆ sites)
    (htable : ∀ site ∈ table.sites, site.name ∈ rest.map (·.name) ∨
      ∃ entry ∈ sites, site = entry.hosted libraries)
    (himport : rest.foldlM (importSite libraries) table = some next) :
    OfFile libraries sites next := by
  induction rest generalizing table with
  | nil =>
      obtain rfl : table = next := Option.some.inj himport
      intro site hsite
      exact (htable site hsite).resolve_left List.not_mem_nil
  | cons entry rest ih =>
      rw [List.foldlM_cons] at himport
      obtain ⟨middle, hmiddle, hrest⟩ := Option.bind_eq_some_iff.mp himport
      apply ih (fun site hsite => hsubset (List.mem_cons_of_mem _ hsite)) _ hrest
      intro site hsite
      obtain heq | ⟨hbefore, hname⟩ := (rewrites_importSite hmiddle site).mp hsite
      · exact .inr ⟨entry, hsubset List.mem_cons_self, heq⟩
      · refine (htable site hbefore).imp_left fun hmem => ?_
        rw [List.map_cons, List.mem_cons] at hmem
        exact hmem.resolve_left hname

theorem ofFile_importSites {sites : List (FileSite Extra)}
    (himport : importSites libraries table sites = some next) : OfFile libraries sites next := by
  apply ofFile_of_foldlM (List.Subset.refl sites) _ himport
  intro site hsite
  have hwanted := (HostTable.mem_delete.mp hsite).2
  exact .inl (by simpa using hwanted)

end Apply

section Check

variable {libraries} {check : HostCheck} {name host : Text} {hosts : List Text}

namespace HostCheck

/-- A host that passes is the site's from then on, and nothing else changes
hands. -/
theorem addHost_clean (hclean : (addHost libraries name check host).blockers = []) :
    check.blockers = [] ∧
      (addHost libraries name check host).hosts (normalizeServerName libraries host) = some name ∧
      (∀ key owner, check.hosts key = some owner →
        (addHost libraries name check host).hosts key = some owner) := by
  rw [addHost] at hclean ⊢
  split at hclean
  · simp at hclean
  · rename_i hnormal
    have hbefore : check.blockers = [] ∧
        ∀ other, check.hosts (normalizeServerName libraries host) = some other → other = name := by
      split at hclean
      · rename_i other hother
        split at hclean
        · simp at hclean
        · rename_i hsame
          refine ⟨hclean, fun other' hother' => ?_⟩
          rw [← Option.some.inj (hother.symm.trans hother')]
          exact not_not.mp hsame
      · rename_i hnone
        exact ⟨hclean, fun other hother => absurd (hnone.symm.trans hother) (by simp)⟩
    rw [if_neg hnormal]
    refine ⟨hbefore.1, HashMap.insert_self _ _ _, fun key owner hkey => ?_⟩
    by_cases heq : key = normalizeServerName libraries host
    · rw [heq] at hkey ⊢
      rw [hbefore.2 owner hkey]
      exact HashMap.insert_self _ _ _
    · exact (HashMap.insert_of_ne _ _ heq).trans hkey

theorem addHosts_clean (hclean : (hosts.foldl (addHost libraries name) check).blockers = []) :
    check.blockers = [] ∧
      (∀ host ∈ hosts, (hosts.foldl (addHost libraries name) check).hosts
        (normalizeServerName libraries host) = some name) ∧
      (∀ key owner, check.hosts key = some owner →
        (hosts.foldl (addHost libraries name) check).hosts key = some owner) := by
  induction hosts generalizing check with
  | nil => exact ⟨hclean, fun _ hhost => absurd hhost List.not_mem_nil, fun _ _ => id⟩
  | cons first hosts ih =>
      rw [List.foldl_cons] at hclean ⊢
      have hrest := ih hclean
      have hfirst := addHost_clean hrest.1
      refine ⟨hfirst.1, ?_, fun key owner hkey => hrest.2.2 key owner (hfirst.2.2 key owner hkey)⟩
      intro host hhost
      obtain rfl | hlater := List.mem_cons.mp hhost
      · exact hrest.2.2 _ _ hfirst.2.1
      · exact hrest.2.1 host hlater

variable {Extra : Type} {site other : FileSite Extra} {sites rest : List (FileSite Extra)}

/-- The names of a site of the file, its hostname first. -/
def names (site : FileSite Extra) : List Text := site.host :: site.aliases

theorem addSite_clean (hclean : (addSite libraries check site).blockers = []) :
    check.blockers = [] ∧ site.name ∉ check.siteNames ∧
      (∀ host ∈ names site, (addSite libraries check site).hosts
        (normalizeServerName libraries host) = some site.name) ∧
      (∀ key owner, check.hosts key = some owner →
        (addSite libraries check site).hosts key = some owner) := by
  have hhosts := addHosts_clean hclean
  have hnamed := hhosts.1
  dsimp only at hnamed
  split at hnamed
  · simp at hnamed
  · rename_i hnew
    exact ⟨hnamed, by simpa using hnew, hhosts.2⟩

theorem siteNames_addSite :
    (addSite libraries check site).siteNames = check.siteNames ++ [site.name] := by
  have hkeep (hosts : List Text) (check : HostCheck) :
      (hosts.foldl (addHost libraries site.name) check).siteNames = check.siteNames := by
    induction hosts generalizing check with
    | nil => rfl
    | cons host hosts ih =>
        rw [List.foldl_cons, ih, addHost]
        split
        · rfl
        · rfl
  exact hkeep _ _

/-- Where nothing is held against the file, its sites have names of their own and
each of their hosts is theirs at the end. -/
theorem addSites_clean (hclean : (sites.foldl (addSite libraries) check).blockers = []) :
    check.blockers = [] ∧ (sites.map (·.name)).Nodup ∧
      (∀ site ∈ sites, site.name ∉ check.siteNames) ∧
      (∀ site ∈ sites, ∀ host ∈ names site, (sites.foldl (addSite libraries) check).hosts
        (normalizeServerName libraries host) = some site.name) ∧
      (∀ key owner, check.hosts key = some owner →
        (sites.foldl (addSite libraries) check).hosts key = some owner) := by
  induction sites generalizing check with
  | nil => simpa using hclean
  | cons first sites ih =>
      rw [List.foldl_cons] at hclean ⊢
      have hrest := ih hclean
      have hfirst := addSite_clean hrest.1
      have hnew : ∀ site ∈ sites, site.name ≠ first.name ∧ site.name ∉ check.siteNames := by
        intro site hsite
        have hout := hrest.2.2.1 site hsite
        rw [siteNames_addSite, List.mem_append, List.mem_singleton, not_or] at hout
        exact hout.symm
      refine ⟨hfirst.1, ?_, ?_, ?_,
        fun key owner hkey => hrest.2.2.2.2 key owner (hfirst.2.2.2 key owner hkey)⟩
      · rw [List.map_cons, List.nodup_cons]
        refine ⟨?_, hrest.2.1⟩
        intro hmem
        obtain ⟨site, hsite, hname⟩ := List.mem_map.mp hmem
        exact (hnew site hsite).1 hname
      · intro site hsite
        obtain rfl | hlater := List.mem_cons.mp hsite
        · exact hfirst.2.1
        · exact (hnew site hlater).2
      · intro site hsite host hhost
        obtain rfl | hlater := List.mem_cons.mp hsite
        · exact hrest.2.2.2.2 _ _ (hfirst.2.2.1 host hhost)
        · exact hrest.2.2.2.1 site hlater host hhost

end HostCheck

variable {Extra : Type} {sites : List (FileSite Extra)} {table : HostTable Extra}

/-- A file without blockers has no host twice. -/
theorem uncrossed_of_hostBlockers (hnone : hostBlockers libraries sites = [])
    (htable : OfFile libraries sites table) : table.Uncrossed := by
  intro site hsite other hother hcrossed
  obtain ⟨entry, hentry, rfl⟩ := htable site hsite
  obtain ⟨entry', hentry', rfl⟩ := htable other hother
  have hclean := HostCheck.addSites_clean hnone
  obtain ⟨host, hhost, hnormal⟩ := List.mem_map.mp hcrossed
  have hown := hclean.2.2.2.1 entry hentry host (List.mem_cons_of_mem _ hhost)
  have hown' := hclean.2.2.2.1 entry' hentry' entry'.host List.mem_cons_self
  rw [hnormal] at hown
  exact Option.some.inj (hown.symm.trans hown')

end Check

end EasyWaf.Import
