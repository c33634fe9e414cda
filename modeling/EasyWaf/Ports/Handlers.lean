import EasyWaf.Ports.Sites

/-!
# The handlers that change ports

What `post_site_create`, `post_site_update`, `post_site_toggle`, `post_site_acme`
and `post_cert_create` store of a site's ports, and which listeners they ask the
proxy for.  The checks of the fields that are about neither are taken together.
-/

namespace EasyWaf.Ports

/-- A site's form, as far as its ports go. -/
structure SiteForm where
  name : Option Text
  listenPort : Option Text
  tlsPort : Option Text
  /-- `cert_id` is a number. -/
  certChosen : Bool
  /-- The certificate it names has both its halves. -/
  certUsable : Bool
  acme : Bool
  /-- Hostname, aliases, upstreams, sign-in and rate limit are accepted. -/
  accepted : Bool
  deriving DecidableEq

/-- An accepted form with these ports and, for HTTPS, a certificate. -/
def SiteForm.ofPorts (name listenPort tlsPort : String) : SiteForm where
  name := some name.toList
  listenPort := some listenPort.toList
  tlsPort := some tlsPort.toList
  certChosen := true
  certUsable := true
  acme := false
  accepted := true

inductive FormError
  | nameRequired
  | exists
  | notFound
  | ports (error : PortError)
  | noCertificate
  | refused
  deriving DecidableEq

def SitePorts.extras (ports : SitePorts) : List (ℤ × Bool) :=
  ports.extraHttp.map (·, false) ++ ports.extraHttps.map (·, true)

/-- `https_without_certificate`. -/
def httpsWithoutCertificate (ports : SitePorts) (form : SiteForm) (acmeNow : Bool) : Bool :=
  if ports.tls.isNone && ports.extraHttps.isEmpty then false
  else if acmeNow then false
  else !(form.certChosen && form.certUsable)

/-- The ports of a form, once everything about it is accepted. -/
def readPorts (guiPorts : List ℤ) (form : SiteForm) (acmeNow : Bool) : Except FormError SitePorts :=
  match validatedPorts guiPorts form.listenPort form.tlsPort with
  | .error error => .error (.ports error)
  | .ok ports =>
      if httpsWithoutCertificate ports form acmeNow then .error .noCertificate
      else if !form.accepted then .error .refused
      else .ok ports

/-- A site with the ports and the certificate of a form. -/
def Site.withPorts (site : Site) (ports : SitePorts) (hasCert : Bool) : Site :=
  { site with
    hasCert
    listenPort := ports.listen
    tlsPort := ports.tls
    extras := ports.extras }

/-- What `post_site_create` checks before it writes, and the site it then has. -/
def checkCreate (guiPorts : List ℤ) (sites : Sites) (form : SiteForm) : Except FormError Site :=
  let name := (form.name.getD []).trim
  if name = [] then .error .nameRequired
  else if sites.any (·.name = name) then .error .exists
  else
    (readPorts guiPorts form form.acme).map fun ports =>
      { name
        enabled := true
        hasCert := form.certChosen
        listenPort := ports.listen
        tlsPort := ports.tls
        extras := ports.extras }

/-- What `post_site_update` checks before it writes, and the ports it then saves. -/
def checkUpdate (guiPorts : List ℤ) (sites : Sites) (name : Text) (form : SiteForm) :
    Except FormError SitePorts :=
  if sites.any (·.name = name) then readPorts guiPorts form false else .error .notFound

/-- A save that stops: how many of its statements are done.  The first writes the
row, the second takes the extra ports away, and each of the others adds one. -/
abbrev Stop := Option ℕ

/-- A site as a save leaves it that stops, and `old` are the extra ports before. -/
def Site.stopped (site : Site) (old : List (ℤ × Bool)) (reach : ℕ) : Site :=
  { site with extras := if reach = 1 then old else site.extras.take (reach - 2) }

/-- What a whole handler comes to: the tables, and the listeners asked for. -/
structure Answered where
  sites : Sites
  announced : List BindRequest
  deriving DecidableEq

/-- `port as u16`. -/
def asU16 (port : ℤ) : ℕ := (port % 65536).toNat

/-- What `announce_site` sends. -/
def announceSite (site : Site) : List BindRequest :=
  { port := asU16 site.listenPort, tls := false } ::
    (site.tlsPort.toList.map fun port => { port := asU16 port, tls := true }) ++
    site.extras.map fun extra => { port := asU16 extra.1, tls := extra.2 }

/-- `UPDATE sites SET cert_id = ?`. -/
def setCert (sites : Sites) (name : Text) : Sites :=
  sites.map fun site => if site.name = name then { site with hasCert := true } else site

/-- `post_site_create`; `issued` is whether a certificate the form asks for is. -/
def postSiteCreate (guiPorts : List ℤ) (sites : Sites) (form : SiteForm) (stop : Stop)
    (issued : Bool) : Answered :=
  match checkCreate guiPorts sites form, stop with
  | .error _, _ => { sites, announced := [] }
  | .ok _, some 0 => { sites, announced := [] }
  | .ok site, some (reach + 1) =>
      { sites := sites ++ [site.stopped [] (reach + 1)], announced := [] }
  | .ok site, none =>
      let stored := sites ++ [site]
      { sites := if form.acme && issued then setCert stored site.name else stored
        announced := announceSite site }

/-- The site of this name with the ports saved, or as far as a save got. -/
def savePorts (sites : Sites) (name : Text) (ports : SitePorts) (hasCert : Bool) (stop : Stop) :
    Sites :=
  sites.map fun site =>
    if site.name = name then
      match stop with
      | none => site.withPorts ports hasCert
      | some 0 => site
      | some (reach + 1) => (site.withPorts ports hasCert).stopped site.extras (reach + 1)
    else site

/-- `post_site_update`. -/
def postSiteUpdate (guiPorts : List ℤ) (sites : Sites) (name : Text) (form : SiteForm)
    (stop : Stop) : Answered :=
  match checkUpdate guiPorts sites name form with
  | .error _ => { sites, announced := [] }
  | .ok ports =>
      { sites := savePorts sites name ports form.certChosen stop
        announced :=
          if stop = none then
            ((sites.find? (·.name = name)).map fun site =>
              announceSite (site.withPorts ports form.certChosen)).getD []
          else [] }

/-- `post_site_toggle`; `read` is whether the extra ports could be. -/
def postSiteToggle (sites : Sites) (name : Text) (read : Bool) : Answered :=
  match sites.find? (·.name = name) with
  | none => { sites, announced := [] }
  | some current =>
      { sites := sites.map fun site =>
          if site.name = name then { site with enabled := !current.enabled } else site
        announced :=
          if current.enabled then []
          else announceSite { current with extras := if read then current.extras else [] } }

/-- `post_site_acme`; it asks the proxy for nothing. -/
def postSiteAcme (sites : Sites) (name : Text) (issued : Bool) : Answered where
  sites := if issued then setCert sites name else sites
  announced := []

/-- `post_cert_create`: no site is given another certificate. -/
def postCertCreate (sites : Sites) : Answered where
  sites := sites
  announced := []

section Forms

/-- The ports of a form's field. -/
def fieldPorts (field : Option Text) : List ℤ := (parsePortList (field.getD [])).1

/-- What is known of ports that a form's checks let through. -/
structure Checked (form : SiteForm) (ports : SitePorts) : Prop where
  http : fieldPorts form.listenPort = ports.listen :: ports.extraHttp
  tls : ports.tls = (fieldPorts form.tlsPort).head?
  extraHttps : ports.extraHttps = (fieldPorts form.tlsPort).tail
  apart : ports.plain.Disjoint ports.secure

theorem checked_of_validatedPorts {guiPorts : List ℤ} {form : SiteForm} {ports : SitePorts}
    (hports : validatedPorts guiPorts form.listenPort form.tlsPort = .ok ports) :
    Checked form ports := by
  have hapart := apart_of_validatedPorts hports
  rw [validatedPorts] at hports
  dsimp only at hports
  split at hports
  · contradiction
  split at hports
  · contradiction
  rename_i listen extraHttp hhttp
  split at hports
  · contradiction
  obtain rfl := Except.ok.inj hports
  exact ⟨hhttp, rfl, rfl, fun port => hapart port⟩

namespace Checked

variable {form : SiteForm} {ports : SitePorts}

theorem plain (hchecked : Checked form ports) : ports.plain = fieldPorts form.listenPort :=
  hchecked.http.symm

theorem secure (hchecked : Checked form ports) : ports.secure = fieldPorts form.tlsPort := by
  rw [SitePorts.secure, hchecked.tls, hchecked.extraHttps]
  cases fieldPorts form.tlsPort <;> rfl

end Checked

theorem checked_of_readPorts {guiPorts : List ℤ} {form : SiteForm} {acmeNow : Bool}
    {ports : SitePorts} (hread : readPorts guiPorts form acmeNow = .ok ports) :
    Checked form ports := by
  unfold readPorts at hread
  split at hread
  · contradiction
  rename_i accepted hvalid
  split at hread
  · contradiction
  split at hread
  · contradiction
  obtain rfl := Except.ok.inj hread
  exact checked_of_validatedPorts hvalid

theorem withPorts_plain (site : Site) (ports : SitePorts) (hasCert : Bool) :
    (site.withPorts ports hasCert).plain = ports.plain := by
  simp [Site.plain, Site.withPorts, SitePorts.plain, SitePorts.extras, List.filter_map,
    Function.comp_def]

theorem withPorts_secure (site : Site) (ports : SitePorts) (hasCert : Bool) :
    (site.withPorts ports hasCert).secure = ports.secure := by
  simp [Site.secure, Site.withPorts, SitePorts.secure, SitePorts.extras, List.filter_map,
    Function.comp_def]

/-- What a creation adds: a site of a free name, with the ports of the form. -/
theorem checkCreate_eq_ok {guiPorts : List ℤ} {sites : Sites} {form : SiteForm} {site : Site}
    (hcheck : checkCreate guiPorts sites form = .ok site) :
    (∀ other ∈ sites, other.name ≠ site.name) ∧
      ∃ ports, Checked form ports ∧ site = site.withPorts ports form.certChosen := by
  unfold checkCreate at hcheck
  dsimp only at hcheck
  split at hcheck
  · contradiction
  split at hcheck
  · contradiction
  rename_i hfree
  cases hread : readPorts guiPorts form form.acme with
  | error error => rw [hread] at hcheck; contradiction
  | ok ports =>
      rw [hread] at hcheck
      obtain rfl := Except.ok.inj hcheck
      constructor
      · intro other hother hname
        exact hfree (List.any_eq_true.mpr ⟨other, hother, decide_eq_true hname⟩)
      · exact ⟨ports, checked_of_readPorts hread, rfl⟩

theorem checkUpdate_eq_ok {guiPorts : List ℤ} {sites : Sites} {name : Text} {form : SiteForm}
    {ports : SitePorts} (hcheck : checkUpdate guiPorts sites name form = .ok ports) :
    Checked form ports := by
  unfold checkUpdate at hcheck
  split at hcheck
  · exact checked_of_readPorts hcheck
  · contradiction

end Forms

end EasyWaf.Ports
