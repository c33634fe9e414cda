import EasyWaf.Ports.Protocols

/-!
# Ports over any sequence of saves

Every way a port gets stored, with the condition under which it stays for one
protocol: that the ports written agree with those of the other enabled sites and
leave the fixed listener alone.
-/

namespace EasyWaf.Ports

open Machine

/-- A change of the sites' ports. -/
inductive Change
  | create (form : SiteForm) (stop : Stop) (issued : Bool)
  | update (name : Text) (form : SiteForm) (stop : Stop)
  | toggle (name : Text) (read : Bool)
  | importFile (file : File)
  deriving DecidableEq

def change (guiPorts : List ℤ) (sites : Sites) : Change → Option Sites
  | .create form stop issued => some (postSiteCreate guiPorts sites form stop issued).sites
  | .update name form stop => some (postSiteUpdate guiPorts sites name form stop).sites
  | .toggle name read => some (postSiteToggle sites name read).sites
  | .importFile file => some (importSites guiPorts sites file)

section Conditions

/-- A site that would have these ports agrees with each of these. -/
structure Agrees (plain secure : List ℤ) (others : Sites) : Prop where
  withSecure : ∀ other ∈ others, plain.Disjoint other.secure
  withPlain : ∀ other ∈ others, secure.Disjoint other.plain

instance decidableDisjoint (left right : List ℤ) : Decidable (left.Disjoint right) :=
  decidable_of_iff (∀ port ∈ left, port ∉ right)
    ⟨fun hdisjoint port => hdisjoint port, fun hdisjoint port => @hdisjoint port⟩

instance (plain secure : List ℤ) (others : Sites) : Decidable (Agrees plain secure others) :=
  decidable_of_iff
    ((∀ other ∈ others, plain.Disjoint other.secure) ∧
      ∀ other ∈ others, secure.Disjoint other.plain)
    ⟨fun hagrees => ⟨hagrees.1, hagrees.2⟩, fun hagrees => ⟨hagrees.1, hagrees.2⟩⟩

instance (sites : Sites) : Decidable (OneProtocol sites) :=
  decidable_of_iff
    ((∀ site ∈ sites, site.plain.Disjoint site.secure) ∧
      (∀ site ∈ sites, ∀ other ∈ sites, site.enabled → other.enabled →
        site.plain.Disjoint other.secure) ∧
      ∀ site ∈ sites, (acmePort : ℤ) ∉ site.secure)
    ⟨fun hone => ⟨hone.1, hone.2.1, hone.2.2⟩, fun hone => ⟨hone.1, hone.2, hone.3⟩⟩

def enabledBut (sites : Sites) (name : Text) : Sites :=
  sites.filter fun site => site.enabled && decide (site.name ≠ name)

/-- The old extra ports of a site agree with the pair it is given. -/
def PairFits (site : Site) (plain secure : List ℤ) : Prop :=
  ∀ extra ∈ site.extras, if extra.2 then extra.1 ∉ plain.head? else extra.1 ∉ secure.head?

instance (site : Site) (plain secure : List ℤ) : Decidable (PairFits site plain secure) :=
  inferInstanceAs (Decidable (∀ _ ∈ _, _))

/-- When a change keeps every port to one protocol. -/
def Fits (sites : Sites) : Change → Prop
  | .create form _ _ =>
      Agrees (fieldPorts form.listenPort) (fieldPorts form.tlsPort) (sites.filter (·.enabled)) ∧
        (acmePort : ℤ) ∉ fieldPorts form.tlsPort
  | .update name form stop =>
      ∀ site ∈ sites, site.name = name →
        (site.enabled → Agrees (fieldPorts form.listenPort) (fieldPorts form.tlsPort)
          (enabledBut sites name)) ∧
        (acmePort : ℤ) ∉ fieldPorts form.tlsPort ∧
        (stop = some 1 → PairFits site (fieldPorts form.listenPort) (fieldPorts form.tlsPort))
  | .toggle name _ =>
      ∀ site ∈ sites, site.name = name → ¬site.enabled →
        Agrees site.plain site.secure (enabledBut sites name)
  | .importFile file => OneProtocol (file.sites.map FileSite.site)

instance (sites : Sites) : DecidablePred (Fits sites)
  | .create _ _ _ => inferInstanceAs (Decidable (_ ∧ _))
  | .update _ _ _ => inferInstanceAs (Decidable (∀ _ ∈ _, _ → _ ∧ _ ∧ _))
  | .toggle _ _ => inferInstanceAs (Decidable (∀ _ ∈ _, _))
  | .importFile _ => inferInstanceAs (Decidable (OneProtocol _))

end Conditions

section Within

theorem within_take (site : Site) (count : ℕ) :
    Site.Within { site with extras := site.extras.take count } site where
  plain := by
    intro port hport
    rcases Site.mem_plain.mp hport with hlisten | hextra
    · exact Site.mem_plain.mpr (.inl hlisten)
    · exact Site.mem_plain.mpr (.inr (List.mem_of_mem_take hextra))
  secure := by
    intro port hport
    rcases Site.mem_secure.mp hport with htls | hextra
    · exact Site.mem_secure.mpr (.inl htls)
    · exact Site.mem_secure.mpr (.inr (List.mem_of_mem_take hextra))

/-- What a save of a new site leaves is part of it. -/
theorem within_stopped_nil (site : Site) (reach : ℕ) : (site.stopped [] reach).Within site := by
  unfold Site.stopped
  split
  · exact within_take site 0
  · exact within_take site (reach - 2)

end Within

section Invariant

/-- What is kept: sites are told apart by name, and every port is for one protocol. -/
structure Kept (sites : Sites) : Prop extends OneProtocol sites where
  names : (sites.map (·.name)).Nodup

theorem kept_nil : Kept [] where
  inSite := fun _ hsite => absurd hsite List.not_mem_nil
  across := fun _ hsite => absurd hsite List.not_mem_nil
  always := fun _ hsite => absurd hsite List.not_mem_nil
  names := List.nodup_nil

theorem mem_enabledBut {sites : Sites} {name : Text} {site : Site} :
    site ∈ enabledBut sites name ↔ site ∈ sites ∧ site.enabled ∧ site.name ≠ name := by
  simp [enabledBut]

/-- An enabled site agrees with the other ones. -/
theorem Kept.agrees {sites : Sites} (hkept : Kept sites) {site : Site} (hsite : site ∈ sites)
    (henabled : site.enabled) (name : Text) :
    Agrees site.plain site.secure (enabledBut sites name) where
  withSecure := fun other hother =>
    hkept.across site hsite other (mem_enabledBut.mp hother).1 henabled
      (mem_enabledBut.mp hother).2.1
  withPlain := fun other hother =>
    (hkept.across other (mem_enabledBut.mp hother).1 site hsite (mem_enabledBut.mp hother).2.1
      henabled).symm

theorem Agrees.within {site whole : Site} {others : Sites}
    (hagrees : Agrees whole.plain whole.secure others) (hwithin : site.Within whole) :
    Agrees site.plain site.secure others where
  withSecure := fun other hother => List.disjoint_of_subset_left hwithin.plain
    (hagrees.withSecure other hother)
  withPlain := fun other hother => List.disjoint_of_subset_left hwithin.secure
    (hagrees.withPlain other hother)

/-- What a site has to satisfy on its own and against these others. -/
structure Site.Good (site : Site) (others : Sites) : Prop where
  inSite : site.plain.Disjoint site.secure
  always : (acmePort : ℤ) ∉ site.secure
  agrees : site.enabled → Agrees site.plain site.secure others

theorem Site.Good.within {site whole : Site} {others : Sites} (hgood : whole.Good others)
    (hwithin : site.Within whole) (henabled : site.enabled → whole.enabled) :
    site.Good others where
  inSite := List.disjoint_of_subset_left hwithin.plain
    (List.disjoint_of_subset_right hwithin.secure hgood.inSite)
  always := fun hmem => hgood.always (hwithin.secure hmem)
  agrees := fun hon => (hgood.agrees (henabled hon)).within hwithin

theorem Kept.good {sites : Sites} (hkept : Kept sites) {site : Site} (hsite : site ∈ sites)
    (name : Text) : site.Good (enabledBut sites name) where
  inSite := hkept.inSite site hsite
  always := hkept.always site hsite
  agrees := fun henabled => hkept.agrees hsite henabled name

/-- Every site of a name replaced by a good one of that name. -/
theorem Kept.replace {sites : Sites} (hkept : Kept sites) {name : Text} (new : Site → Site)
    (hname : ∀ site, (new site).name = site.name)
    (hgood : ∀ site ∈ sites, site.name = name → (new site).Good (enabledBut sites name)) :
    Kept (sites.map fun site => if site.name = name then new site else site) where
  inSite := by
    intro site' hsite'
    obtain ⟨site, hsite, rfl⟩ := List.mem_map.mp hsite'
    split
    · rename_i heq
      exact (hgood site hsite heq).inSite
    · exact hkept.inSite site hsite
  always := by
    intro site' hsite'
    obtain ⟨site, hsite, rfl⟩ := List.mem_map.mp hsite'
    split
    · rename_i heq
      exact (hgood site hsite heq).always
    · exact hkept.always site hsite
  across := by
    intro site' hsite' other' hother' henabled hotherEnabled
    obtain ⟨site, hsite, rfl⟩ := List.mem_map.mp hsite'
    obtain ⟨other, hother, rfl⟩ := List.mem_map.mp hother'
    by_cases heq : site.name = name <;> by_cases hotherEq : other.name = name
    · obtain rfl := eq_of_name hkept.names hsite hother (heq.trans hotherEq.symm)
      exact if_pos heq ▸ (hgood site hsite heq).inSite
    · rw [if_pos heq] at henabled ⊢
      rw [if_neg hotherEq] at hotherEnabled ⊢
      exact ((hgood site hsite heq).agrees henabled).withSecure other
        (mem_enabledBut.mpr ⟨hother, hotherEnabled, hotherEq⟩)
    · rw [if_neg heq] at henabled ⊢
      rw [if_pos hotherEq] at hotherEnabled ⊢
      exact (((hgood other hother hotherEq).agrees hotherEnabled).withPlain site
        (mem_enabledBut.mpr ⟨hsite, henabled, heq⟩)).symm
    · rw [if_neg heq] at henabled ⊢
      rw [if_neg hotherEq] at hotherEnabled ⊢
      exact hkept.across site hsite other hother henabled hotherEnabled
  names := nodup_names_replace hkept.names new fun site heq => (hname site).trans heq

/-- A good site added under a name that is free. -/
theorem Kept.add {sites : Sites} (hkept : Kept sites) {site : Site}
    (hnew : ∀ other ∈ sites, other.name ≠ site.name)
    (hgood : site.Good (sites.filter (·.enabled))) : Kept (sites ++ [site]) where
  inSite := by
    intro other hother
    rcases List.mem_append.mp hother with hold | hadded
    · exact hkept.inSite other hold
    · exact List.mem_singleton.mp hadded ▸ hgood.inSite
  always := by
    intro other hother
    rcases List.mem_append.mp hother with hold | hadded
    · exact hkept.always other hold
    · exact List.mem_singleton.mp hadded ▸ hgood.always
  across := by
    intro one hone other hother henabled hotherEnabled
    rcases List.mem_append.mp hone with hold | hadded <;>
      rcases List.mem_append.mp hother with hotherOld | hotherAdded
    · exact hkept.across one hold other hotherOld henabled hotherEnabled
    · obtain rfl := List.mem_singleton.mp hotherAdded
      exact ((hgood.agrees hotherEnabled).withPlain one
        (List.mem_filter.mpr ⟨hold, henabled⟩)).symm
    · obtain rfl := List.mem_singleton.mp hadded
      exact (hgood.agrees henabled).withSecure other
        (List.mem_filter.mpr ⟨hotherOld, hotherEnabled⟩)
    · obtain rfl := List.mem_singleton.mp hadded
      obtain rfl := List.mem_singleton.mp hotherAdded
      exact hgood.inSite
  names := nodup_names_add hkept.names hnew

end Invariant

section Steps

variable {guiPorts : List ℤ} {sites : Sites}

theorem kept_setCert (hkept : Kept sites) (name : Text) : Kept (setCert sites name) := by
  apply hkept.replace (fun site => { site with hasCert := true }) (fun _ => rfl)
  intro site hsite _
  exact (hkept.good hsite name).within ⟨List.Subset.refl _, List.Subset.refl _⟩ id

theorem kept_postSiteCreate (hkept : Kept sites) {form : SiteForm} {stop : Stop} {issued : Bool}
    (hfits : Fits sites (.create form stop issued)) :
    Kept (postSiteCreate guiPorts sites form stop issued).sites := by
  obtain ⟨hagrees, hacme⟩ := hfits
  unfold postSiteCreate
  cases hcheck : checkCreate guiPorts sites form with
  | error error => exact hkept
  | ok site =>
      obtain ⟨hfree, ports, hchecked, hsite⟩ := checkCreate_eq_ok hcheck
      have hplain : site.plain = fieldPorts form.listenPort := by
        rw [hsite, withPorts_plain, hchecked.plain]
      have hsecure : site.secure = fieldPorts form.tlsPort := by
        rw [hsite, withPorts_secure, hchecked.secure]
      have hgood : site.Good (sites.filter (·.enabled)) := by
        constructor
        · rw [hplain, hsecure, ← hchecked.plain, ← hchecked.secure]
          exact hchecked.apart
        · exact hsecure ▸ hacme
        · intro _
          rw [hplain, hsecure]
          exact hagrees
      rcases stop with _ | _ | reach
      · dsimp only
        split
        · exact kept_setCert (hkept.add hfree hgood) site.name
        · exact hkept.add hfree hgood
      · exact hkept
      · exact hkept.add hfree (hgood.within (within_stopped_nil site (reach + 1)) id)

/-- A save that stops before the extra ports leaves the old ones beside the new pair. -/
theorem good_stopped_one {site : Site} {name : Text} {form : SiteForm} {ports : SitePorts}
    (hold : site.Good (enabledBut sites name)) (hchecked : Checked form ports)
    (hagrees : site.enabled → Agrees (fieldPorts form.listenPort) (fieldPorts form.tlsPort)
      (enabledBut sites name))
    (hacme : (acmePort : ℤ) ∉ fieldPorts form.tlsPort)
    (hpair : PairFits site (fieldPorts form.listenPort) (fieldPorts form.tlsPort))
    (hasCert : Bool) :
    Site.Good { site.withPorts ports hasCert with extras := site.extras }
      (enabledBut sites name) := by
  have hlisten : ports.listen ∈ fieldPorts form.listenPort :=
    hchecked.plain ▸ List.mem_cons_self
  have htls : ∀ port, ports.tls = some port →
      port ∈ (fieldPorts form.tlsPort).head? ∧ port ∈ fieldPorts form.tlsPort := by
    intro port hport
    rw [← hchecked.secure, SitePorts.secure, hport]
    exact ⟨rfl, List.mem_cons_self⟩
  have hhead : ports.listen ∈ (fieldPorts form.listenPort).head? :=
    hchecked.plain ▸ rfl
  constructor
  · intro port hplain hsecure
    rcases Site.mem_plain.mp hplain with rfl | hplain <;>
      rcases Site.mem_secure.mp hsecure with hport | hsecure
    · apply hchecked.apart (List.mem_cons_self (a := ports.listen))
      exact hchecked.secure ▸ (htls _ hport).2
    · exact hpair _ hsecure hhead
    · exact hpair _ hplain (htls port hport).1
    · exact hold.inSite (Site.mem_plain.mpr (.inr hplain)) (Site.mem_secure.mpr (.inr hsecure))
  · intro hsecure
    rcases Site.mem_secure.mp hsecure with hport | hsecure
    · exact hacme (htls _ hport).2
    · exact hold.always (Site.mem_secure.mpr (.inr hsecure))
  · intro henabled
    constructor
    · intro other hother port hplain
      rcases Site.mem_plain.mp hplain with rfl | hplain
      · exact (hagrees henabled).withSecure other hother hlisten
      · exact (hold.agrees henabled).withSecure other hother (Site.mem_plain.mpr (.inr hplain))
    · intro other hother port hsecure
      rcases Site.mem_secure.mp hsecure with hport | hsecure
      · exact (hagrees henabled).withPlain other hother (htls port hport).2
      · exact (hold.agrees henabled).withPlain other hother (Site.mem_secure.mpr (.inr hsecure))

theorem kept_postSiteUpdate (hkept : Kept sites) {name : Text} {form : SiteForm} {stop : Stop}
    (hfits : Fits sites (.update name form stop)) :
    Kept (postSiteUpdate guiPorts sites name form stop).sites := by
  unfold postSiteUpdate
  cases hcheck : checkUpdate guiPorts sites name form with
  | error error => exact hkept
  | ok ports =>
      have hchecked := checkUpdate_eq_ok hcheck
      have hwhole : ∀ site ∈ sites, site.name = name →
          (site.withPorts ports form.certChosen).Good (enabledBut sites name) := by
        intro site hsite hname
        obtain ⟨hagrees, hacme, -⟩ := hfits site hsite hname
        constructor
        · rw [withPorts_plain, withPorts_secure]
          exact hchecked.apart
        · rw [withPorts_secure, hchecked.secure]
          exact hacme
        · intro henabled
          rw [withPorts_plain, withPorts_secure, hchecked.plain, hchecked.secure]
          exact hagrees henabled
      rcases stop with _ | _ | reach
      · exact hkept.replace (fun site => site.withPorts ports form.certChosen) (fun _ => rfl) hwhole
      · exact hkept.replace (fun site => site) (fun _ => rfl) fun site hsite _ =>
          hkept.good hsite name
      · apply hkept.replace (fun site =>
          (site.withPorts ports form.certChosen).stopped site.extras (reach + 1)) (fun _ => rfl)
        intro site hsite hname
        unfold Site.stopped
        split
        · rename_i hreach
          obtain ⟨hagrees, hacme, hpair⟩ := hfits site hsite hname
          exact good_stopped_one (hkept.good hsite name) hchecked hagrees hacme
            (hpair (congrArg some hreach)) form.certChosen
        · exact (hwhole site hsite hname).within (within_take _ _) id

theorem kept_postSiteToggle (hkept : Kept sites) {name : Text} {read : Bool}
    (hfits : Fits sites (.toggle name read)) :
    Kept (postSiteToggle sites name read).sites := by
  unfold postSiteToggle
  cases hfind : sites.find? (·.name = name) with
  | none => exact hkept
  | some current =>
      apply hkept.replace (fun site => { site with enabled := !current.enabled })
        (fun _ => rfl)
      intro site hsite hname
      have hcurrentName : current.name = name := by simpa using List.find?_some hfind
      have hcurrent : site = current :=
        eq_of_name hkept.names hsite (List.mem_of_find?_eq_some hfind) (hname.trans hcurrentName.symm)
      subst hcurrent
      constructor
      · exact hkept.inSite site hsite
      · exact hkept.always site hsite
      · intro henabled
        exact hfits site hsite hname (by simpa using henabled)

theorem kept_importSites (hkept : Kept sites) {file : File}
    (hfits : Fits sites (.importFile file)) : Kept (importSites guiPorts sites file) := by
  unfold importSites
  split
  · cases happly : applySites sites file with
    | none => exact hkept
    | some sites' =>
        have hmem : ∀ site ∈ sites', site ∈ file.sites.map FileSite.site := fun site =>
          mem_of_mem_applySites happly
        constructor
        · constructor
          · exact fun site hsite => hfits.inSite site (hmem site hsite)
          · exact fun site hsite other hother =>
              hfits.across site (hmem site hsite) other (hmem other hother)
          · exact fun site hsite => hfits.always site (hmem site hsite)
        · exact nodup_applySites hkept.names happly
  · exact hkept

theorem kept_change (hkept : Kept sites) {action : Change} {sites' : Sites}
    (hfits : Fits sites action) (hstep : change guiPorts sites action = some sites') :
    Kept sites' := by
  cases action <;> obtain rfl := Option.some.inj hstep
  case create form stop issued => exact kept_postSiteCreate hkept hfits
  case update name form stop => exact kept_postSiteUpdate hkept hfits
  case toggle name read => exact kept_postSiteToggle hkept hfits
  case importFile file => exact kept_importSites hkept hfits

/-- Where every save fits the sites beside it, a port is never stored for both
protocols and the proxy is never asked for two listeners on one number. -/
theorem one_protocol_where_saves_fit (guiPorts : List ℤ) {sites : Sites}
    (run : Run (change guiPorts) Fits [] sites) : OneProtocol sites ∧ OneListener sites := by
  have hkept : Kept sites := run.invariant Kept
    (fun _ _ _ hkept hfits hstep => kept_change hkept hfits hstep) kept_nil
  exact ⟨hkept.toOneProtocol, oneListener_of_oneProtocol hkept.toOneProtocol⟩

end Steps

section Examples

/-- Two sites on the usual ports, one of them saved again and switched off and on. -/
def ordinarySaves : List Change :=
  [.create (.ofPorts "shop" "80, 8080" "443") none false,
    .create (.ofPorts "blog" "80" "443, 8443") none false,
    .update "blog".toList (.ofPorts "blog" "80" "8443") none,
    .toggle "shop".toList true, .toggle "shop".toList true]

theorem ordinary_saves_fit : ∃ sites, Run (change [4443, 4444]) Fits [] sites ∧
    sites.length = 2 ∧ OneProtocol sites ∧ OneListener sites := by
  have hruns : ∃ sites, Run (change [4443, 4444]) Fits [] sites ∧ (sites.length == 2) = true :=
    exists_run_of_exec (change [4443, 4444]) [] (fun sites action => decide (Fits sites action))
      ordinarySaves _ (fun _ _ => of_decide_eq_true) (by decide +kernel)
  obtain ⟨sites, run, hlength⟩ := hruns
  exact ⟨sites, run, eq_of_beq hlength, one_protocol_where_saves_fit [4443, 4444] run⟩

/-- One site serves plain HTTP on a port, and another HTTPS; neither form is refused. -/
def opposedSaves : List Change :=
  [.create (.ofPorts "shop" "8443" "") none false, .create (.ofPorts "blog" "8080" "8443") none false]

theorem two_forms_share_a_port :
    ¬∀ guiPorts sites, Run (change guiPorts) anything [] sites →
      OneProtocol sites ∧ OneListener sites := by
  intro hclaim
  have hruns : ∃ sites, Run (change [4443, 4444]) anything [] sites ∧
      (!decide (OneProtocol sites)) = true :=
    exists_run_of_exec (change [4443, 4444]) [] (fun _ _ => true) opposedSaves _
      (fun _ _ _ => trivial) (by decide +kernel)
  obtain ⟨sites, run, hopposed⟩ := hruns
  have hone := (hclaim [4443, 4444] sites run).1
  rw [decide_eq_true hone] at hopposed
  contradiction

end Examples

end EasyWaf.Ports
