import Mathlib
import EasyWaf.Routes.SiteFields

/-!
# The names sites answer for

The tables of sites and of aliases, as far as the names in them go: a site's
name, its hostname and each alias is in its column once.  A statement that would
write one twice fails.  What else a site has is left open.
-/

namespace EasyWaf.Routes

structure HostedSite (Extra : Type) where
  name : Text
  serverName : Text
  aliases : List Text
  extra : Extra

namespace HostedSite

variable {Extra : Type}

/-- The site answers for the host. -/
def Claims (site : HostedSite Extra) (host : Text) : Prop :=
  host = site.serverName ∨ host ∈ site.aliases

/-- The site with other aliases. -/
def withAliases (site : HostedSite Extra) (aliases : List Text) : HostedSite Extra :=
  { site with aliases }

@[simp]
theorem withAliases_name (site : HostedSite Extra) (aliases : List Text) :
    (site.withAliases aliases).name = site.name := rfl

/-- The three unique indices keep two rows apart in each column by itself. -/
structure Apart (site other : HostedSite Extra) : Prop where
  name : site.name ≠ other.name
  serverName : site.serverName ≠ other.serverName
  aliases : ∀ own ∈ site.aliases, own ∉ other.aliases

theorem Apart.symm {site other : HostedSite Extra} (hapart : site.Apart other) :
    other.Apart site where
  name := hapart.name.symm
  serverName := hapart.serverName.symm
  aliases own hown hmem := hapart.aliases own hmem hown

instance : Std.Symm (@Apart Extra) := ⟨fun _ _ => Apart.symm⟩

instance (site other : HostedSite Extra) : Decidable (site.Apart other) :=
  decidable_of_iff
    (site.name ≠ other.name ∧ site.serverName ≠ other.serverName ∧
      ∀ own ∈ site.aliases, own ∉ other.aliases)
    ⟨fun ⟨hname, hserver, haliases⟩ => ⟨hname, hserver, haliases⟩,
      fun hapart => ⟨hapart.name, hapart.serverName, hapart.aliases⟩⟩

end HostedSite

structure HostTable (Extra : Type) where
  sites : List (HostedSite Extra)
  apart : sites.Pairwise HostedSite.Apart
  aliases_nodup : ∀ site ∈ sites, site.aliases.Nodup

namespace HostTable

variable {Extra : Type}

def empty : HostTable Extra where
  sites := []
  apart := List.Pairwise.nil
  aliases_nodup := fun _ hsite => absurd hsite List.not_mem_nil

/-- Two rows are one, or are apart. -/
theorem eq_or_apart (table : HostTable Extra) {site other : HostedSite Extra}
    (hsite : site ∈ table.sites) (hother : other ∈ table.sites) :
    site = other ∨ site.Apart other := by
  by_cases heq : site = other
  · exact .inl heq
  · exact .inr (table.apart.forall hsite hother heq)

/-- `DELETE FROM sites`, with the aliases of each. -/
def delete (table : HostTable Extra) (isMatch : HostedSite Extra → Bool) : HostTable Extra where
  sites := table.sites.filter (!isMatch ·)
  apart := table.apart.filter _
  aliases_nodup := fun site hsite => table.aliases_nodup site (List.mem_of_mem_filter hsite)

/-- `INSERT INTO sites`. -/
def insert (table : HostTable Extra) (site : HostedSite Extra) : Option (HostTable Extra) :=
  if hnew : site.aliases.Nodup ∧ ∀ other ∈ table.sites, other.Apart site then
    some
      { sites := table.sites ++ [site]
        apart := by
          rw [List.pairwise_append]
          refine ⟨table.apart, List.pairwise_singleton _ _, ?_⟩
          intro other hother last hlast
          rw [List.mem_singleton.mp hlast]
          exact hnew.2 other hother
        aliases_nodup := by
          intro other hother
          obtain hbefore | hlast := List.mem_append.mp hother
          · exact table.aliases_nodup other hbefore
          · rw [List.mem_singleton.mp hlast]
            exact hnew.1 }
  else none

/-- A statement that writes a site anew, in its place. -/
def put (table : HostTable Extra) (site : HostedSite Extra) : Option (HostTable Extra) :=
  if hfits : site.aliases.Nodup ∧
      ∀ other ∈ table.sites, other.name ≠ site.name → site.Apart other then
    some
      { sites := table.sites.map fun before => if before.name = site.name then site else before
        apart := by
          rw [List.pairwise_map]
          apply table.apart.imp_of_mem
          intro first second hfirst hsecond hapart
          by_cases hname : first.name = site.name
          · have hsecond' : second.name ≠ site.name :=
              fun heq => hapart.name (hname.trans heq.symm)
            rw [if_pos hname, if_neg hsecond']
            exact hfits.2 second hsecond hsecond'
          · rw [if_neg hname]
            split
            · exact (hfits.2 first hfirst hname).symm
            · exact hapart
        aliases_nodup := by
          intro other hother
          obtain ⟨before, hbefore, rfl⟩ := List.mem_map.mp hother
          split
          · exact hfits.1
          · exact table.aliases_nodup before hbefore }
  else none

/-- The site of a name. -/
def find (table : HostTable Extra) (name : Text) : Option (HostedSite Extra) :=
  table.sites.find? (·.name = name)

section Members

variable {table next : HostTable Extra} {site other : HostedSite Extra} {name : Text}

theorem find_eq_some (hfind : table.find name = some site) :
    site ∈ table.sites ∧ site.name = name :=
  ⟨List.mem_of_find?_eq_some hfind, by simpa using List.find?_some hfind⟩

theorem find_eq_none (hfind : table.find name = none) : ∀ site ∈ table.sites, site.name ≠ name := by
  simpa [find] using hfind

/-- Sites of one name are one site. -/
theorem eq_of_name_eq (hsite : site ∈ table.sites) (hother : other ∈ table.sites)
    (hname : site.name = other.name) : site = other :=
  (table.eq_or_apart hsite hother).resolve_right fun hapart => hapart.name hname

@[simp]
theorem mem_delete {isMatch : HostedSite Extra → Bool} :
    site ∈ (table.delete isMatch).sites ↔ site ∈ table.sites ∧ isMatch site = false := by
  simp [delete]

theorem mem_insert (hinsert : table.insert site = some next) :
    other ∈ next.sites ↔ other ∈ table.sites ∨ other = site := by
  rw [insert] at hinsert
  split at hinsert
  · rw [← Option.some.inj hinsert]
    simp
  · contradiction

/-- A site written anew is the only one of its name. -/
theorem mem_put (hput : table.put site = some next) (hsome : ∃ before ∈ table.sites, before.name = site.name) :
    other ∈ next.sites ↔ other = site ∨ (other ∈ table.sites ∧ other.name ≠ site.name) := by
  rw [put] at hput
  split at hput
  · rw [← Option.some.inj hput]
    constructor
    · intro hother
      obtain ⟨before, hbefore, heq⟩ := List.mem_map.mp hother
      split at heq
      · exact .inl heq.symm
      · rename_i hname
        rw [← heq]
        exact .inr ⟨hbefore, hname⟩
    · rintro (rfl | ⟨hbefore, hname⟩)
      · obtain ⟨before, hbefore, hname⟩ := hsome
        exact List.mem_map.mpr ⟨before, hbefore, if_pos hname⟩
      · exact List.mem_map.mpr ⟨other, hbefore, if_neg hname⟩
  · contradiction

end Members

section Ownership

variable {table next : HostTable Extra} {site other : HostedSite Extra} {host : Text}

/-- No site's hostname is an alias of another. -/
def Uncrossed (table : HostTable Extra) : Prop :=
  ∀ site ∈ table.sites, ∀ other ∈ table.sites, other.serverName ∈ site.aliases →
    site.name = other.name

/-- Every host has at most one site. -/
def OwnedOnce (table : HostTable Extra) : Prop :=
  ∀ host, ∀ site ∈ table.sites, ∀ other ∈ table.sites, site.Claims host → other.Claims host →
    site = other

/-- The two unique indices leave the crossed case only. -/
theorem ownedOnce_iff_uncrossed : table.OwnedOnce ↔ table.Uncrossed := by
  constructor
  · intro howned site hsite other hother hcrossed
    rw [howned other.serverName site hsite other hother (.inr hcrossed) (.inl rfl)]
  · intro huncrossed host site hsite other hother hclaims hclaims'
    apply (table.eq_or_apart hsite hother).resolve_right
    intro hapart
    cases hclaims with
    | inl hserver =>
        cases hclaims' with
        | inl hserver' => exact hapart.serverName (hserver.symm.trans hserver')
        | inr halias =>
            apply hapart.symm.name
            exact huncrossed other hother site hsite (hserver ▸ halias)
    | inr halias =>
        cases hclaims' with
        | inl hserver' =>
            apply hapart.name
            exact huncrossed site hsite other hother (hserver' ▸ halias)
        | inr halias' => exact hapart.aliases host halias halias'

theorem uncrossed_empty : (empty : HostTable Extra).Uncrossed :=
  fun _ hsite => absurd hsite List.not_mem_nil

theorem Uncrossed.of_subset (huncrossed : table.Uncrossed) (hsubset : next.sites ⊆ table.sites) :
    next.Uncrossed :=
  fun site hsite other hother => huncrossed site (hsubset hsite) other (hsubset hother)

end Ownership

end HostTable

end EasyWaf.Routes
