import EasyWaf.Text.Decimal

/-!
# What sites are given

The policies, the certificates and the sites of the database.  A site refers to the
policy it is inspected by and to the certificate it serves by their ids; both
references are to rows that are there, and a row that is deleted takes the
references to it with it (`ON DELETE SET NULL`).
-/

namespace EasyWaf.Assignments

/-- What a site is given: a policy, and a certificate. -/
inductive Kind
  | policy
  | certificate
  deriving DecidableEq

theorem Kind.forall_iff {holds : Kind → Prop} :
    (∀ kind, holds kind) ↔ holds .policy ∧ holds .certificate := by
  constructor
  · exact fun h => ⟨h .policy, h .certificate⟩
  · rintro ⟨hpolicy, hcertificate⟩ (_ | _)
    · exact hpolicy
    · exact hcertificate

instance decidableForallKind {holds : Kind → Prop} [∀ kind, Decidable (holds kind)] :
    Decidable (∀ kind, holds kind) :=
  decidable_of_iff _ Kind.forall_iff.symm

/-- A policy or a certificate. -/
structure Entry where
  id : ℤ
  name : Text
  deriving DecidableEq

structure Site where
  id : ℤ
  name : Text
  serverName : Text
  wafPolicyId : Option ℤ
  certId : Option ℤ
  deriving DecidableEq

def Site.given (site : Site) : Kind → Option ℤ
  | .policy => site.wafPolicyId
  | .certificate => site.certId

/-- The site without its policy, or without its certificate. -/
def Site.unset (site : Site) : Kind → Site
  | .policy => { site with wafPolicyId := none }
  | .certificate => { site with certId := none }

@[simp]
theorem Site.unset_id (site : Site) (kind : Kind) : (site.unset kind).id = site.id := by
  cases kind <;> rfl

@[simp]
theorem Site.given_unset_self (site : Site) (kind : Kind) :
    (site.unset kind).given kind = none := by
  cases kind <;> rfl

theorem Site.given_unset_of_ne (site : Site) {kind other : Kind} (hne : other ≠ kind) :
    (site.unset kind).given other = site.given other := by
  cases kind <;> cases other <;> first | rfl | contradiction

/-- A reference is empty or to one of the rows. -/
def Refers (entries : List Entry) (reference : Option ℤ) : Prop :=
  ∀ id, reference = some id → ∃ entry ∈ entries, entry.id = id

instance decidableRefers (entries : List Entry) (reference : Option ℤ) :
    Decidable (Refers entries reference) :=
  match reference with
  | none => .isTrue fun _ h => nomatch h
  | some id => decidable_of_iff (∃ entry ∈ entries, entry.id = id) (by simp [Refers])

structure Tables where
  entries : Kind → List Entry
  /-- The highest id a policy or a certificate ever had. -/
  lastEntry : Kind → ℤ
  sites : List Site
  lastSite : ℤ
  entryIds : ∀ kind, ∀ entry ∈ entries kind, entry.id ≤ lastEntry kind
  siteIds : ∀ site ∈ sites, site.id ≤ lastSite
  sitesApart : sites.Pairwise fun left right => left.id ≠ right.id
  references : ∀ site ∈ sites, ∀ kind, Refers (entries kind) (site.given kind)

namespace Tables

variable (tables : Tables)

def site (name : Text) : Option Site := tables.sites.find? (·.name = name)

def entry (kind : Kind) (name : Text) : Option Entry :=
  (tables.entries kind).find? (·.name = name)

/-- The site refers to the row of that name. -/
def Uses (kind : Kind) (name : Text) (site : Site) : Prop :=
  ∃ entry ∈ tables.entries kind, entry.name = name ∧ site.given kind = some entry.id

instance decidableUses (kind : Kind) (name : Text) (site : Site) :
    Decidable (tables.Uses kind name site) :=
  inferInstanceAs (Decidable (∃ entry ∈ tables.entries kind, _))

/-- The names of the sites that use a policy or a certificate. -/
def sitesUsing (kind : Kind) (name : Text) : List Text :=
  (tables.sites.filter (tables.Uses kind name)).map (·.name)

/-- `INSERT` of a policy or a certificate. -/
def insertEntry (kind : Kind) (name : Text) : Tables where
  entries := Function.update tables.entries kind
    (tables.entries kind ++ [{ id := tables.lastEntry kind + 1, name }])
  lastEntry := Function.update tables.lastEntry kind (tables.lastEntry kind + 1)
  sites := tables.sites
  lastSite := tables.lastSite
  entryIds other entry hentry := by
    by_cases hother : other = kind
    · subst hother
      simp only [Function.update_self, List.mem_append, List.mem_singleton] at hentry ⊢
      obtain hbefore | rfl := hentry
      · exact (tables.entryIds other entry hbefore).trans (Int.lt_succ _).le
      · exact le_rfl
    · rw [Function.update_of_ne hother] at hentry ⊢
      exact tables.entryIds other entry hentry
  siteIds := tables.siteIds
  sitesApart := tables.sitesApart
  references site hsite other id hid := by
    obtain ⟨entry, hentry, rfl⟩ := tables.references site hsite other id hid
    refine ⟨entry, ?_, rfl⟩
    by_cases hother : other = kind
    · subst hother
      rw [Function.update_self]
      exact List.mem_append_left _ hentry
    · rwa [Function.update_of_ne hother]

/-- `DELETE` of a policy or a certificate, which unsets the references to it. -/
def deleteEntry (kind : Kind) (name : Text) : Tables where
  entries := Function.update tables.entries kind ((tables.entries kind).filter (·.name ≠ name))
  lastEntry := tables.lastEntry
  sites := tables.sites.map fun site => if tables.Uses kind name site then site.unset kind else site
  lastSite := tables.lastSite
  entryIds other entry hentry := by
    by_cases hother : other = kind
    · subst hother
      rw [Function.update_self] at hentry
      exact tables.entryIds other entry (List.mem_of_mem_filter hentry)
    · rw [Function.update_of_ne hother] at hentry
      exact tables.entryIds other entry hentry
  siteIds := by
    rw [List.forall_mem_map]
    intro site hsite
    split <;> simpa using tables.siteIds site hsite
  sitesApart := by
    rw [List.pairwise_map]
    apply tables.sitesApart.imp
    intro left right hne
    split <;> split <;> simpa using hne
  references := by
    rw [List.forall_mem_map]
    intro site hsite other id hid
    by_cases hother : other = kind
    · subst hother
      rw [Function.update_self]
      split at hid
      · simp at hid
      · next hunused =>
          obtain ⟨entry, hentry, rfl⟩ := tables.references site hsite other id hid
          refine ⟨entry, List.mem_filter.mpr ⟨hentry, decide_eq_true ?_⟩, rfl⟩
          exact fun hname => hunused ⟨entry, hentry, hname, hid⟩
    · rw [Function.update_of_ne hother]
      apply tables.references site hsite other id
      split at hid
      · rwa [Site.given_unset_of_ne _ hother] at hid
      · exact hid

section Entries

variable {tables} {kind other : Kind} {name : Text}

theorem mem_entries_insertEntry {entry : Entry} :
    entry ∈ (tables.insertEntry kind name).entries other ↔
      entry ∈ tables.entries other ∨
        other = kind ∧ entry = { id := tables.lastEntry kind + 1, name } := by
  change entry ∈ Function.update tables.entries kind _ other ↔ _
  by_cases hother : other = kind
  · subst hother
    simp
  · simp [hother]

theorem mem_entries_deleteEntry {entry : Entry} :
    entry ∈ (tables.deleteEntry kind name).entries other ↔
      entry ∈ tables.entries other ∧ (other = kind → entry.name ≠ name) := by
  change entry ∈ Function.update tables.entries kind _ other ↔ _
  by_cases hother : other = kind
  · subst hother
    simp
  · simp [hother]

theorem sites_deleteEntry : (tables.deleteEntry kind name).sites =
    tables.sites.map fun site => if tables.Uses kind name site then site.unset kind else site :=
  rfl

end Entries

/-- `INSERT INTO sites`, unless the name or the hostname is taken or a row it refers
to is missing. -/
def insertSite (name serverName : Text) (wafPolicyId certId : Option ℤ) : Option Tables :=
  if hrefers : Refers (tables.entries .policy) wafPolicyId ∧
      Refers (tables.entries .certificate) certId then
    if tables.sites.any fun site => site.name == name || site.serverName == serverName then none
    else
      some
        { tables with
          sites := tables.sites ++
            [{ id := tables.lastSite + 1, name, serverName, wafPolicyId, certId }]
          lastSite := tables.lastSite + 1
          siteIds := by
            simp only [List.mem_append, List.mem_singleton]
            rintro site (hsite | rfl)
            · exact (tables.siteIds site hsite).trans (Int.lt_succ _).le
            · exact le_rfl
          sitesApart := by
            apply List.pairwise_append.mpr
            refine ⟨tables.sitesApart, List.pairwise_singleton _ _, ?_⟩
            simp only [List.mem_singleton, forall_eq]
            exact fun site hsite => ((tables.siteIds site hsite).trans_lt (Int.lt_succ _)).ne
          references := by
            simp only [List.mem_append, List.mem_singleton]
            rintro site (hsite | rfl) kind
            · exact tables.references site hsite kind
            · cases kind
              · exact hrefers.1
              · exact hrefers.2 }
  else none

/-- `UPDATE sites SET …`, which fails where a site would refer to a row that is
missing. -/
def updateSites (set : Site → Site) (hid : ∀ site, (set site).id = site.id) : Option Tables :=
  if hrefers : ∀ site ∈ tables.sites, ∀ kind, Refers (tables.entries kind) ((set site).given kind)
  then
    some
      { tables with
        sites := tables.sites.map set
        siteIds := by simpa only [List.forall_mem_map, hid] using tables.siteIds
        sitesApart := by simpa only [List.pairwise_map, hid] using tables.sitesApart
        references := by simpa only [List.forall_mem_map] using hrefers }
  else none

/-- `DELETE FROM sites`. -/
def deleteSite (name : Text) : Tables :=
  { tables with
    sites := tables.sites.filter (·.name ≠ name)
    siteIds := fun site hsite => tables.siteIds site (List.mem_of_mem_filter hsite)
    sitesApart := tables.sitesApart.filter _
    references := fun site hsite => tables.references site (List.mem_of_mem_filter hsite) }

end Tables

end EasyWaf.Assignments
