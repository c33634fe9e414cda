import EasyWaf.Core.Machine
import EasyWaf.Ports.Handlers

/-!
# What the proxy listens on

The proxy binds at its start what the tables ask for, and after that what the
handlers send it.  It remembers a port when it is asked for it, before the bind is
tried, and ignores a second request for one it remembers.  So the tables and the
listeners stay together only where every handler that changes the one asks for the
other.
-/

namespace EasyWaf.Ports

open Machine

/-- What the proxy's receiving loop remembers, and what came up. -/
structure Proxy where
  bound : List BindRequest
  listening : List BindRequest
  deriving DecidableEq

/-- Whether a port can be bound at the moment it is tried. -/
abbrev Binds := BindRequest → Bool

/-- One request: ignored where the port is remembered, tried otherwise. -/
def Proxy.receive (binds : Binds) (proxy : Proxy) (request : BindRequest) : Proxy :=
  if request ∈ proxy.bound then proxy
  else
    { bound := proxy.bound ++ [request]
      listening := if binds request then proxy.listening ++ [request] else proxy.listening }

/-- A port that was asked for and does not answer. -/
def Proxy.Silent (proxy : Proxy) (request : BindRequest) : Prop :=
  request ∈ proxy.bound ∧ request ∉ proxy.listening

instance (proxy : Proxy) : DecidablePred proxy.Silent :=
  fun _ => inferInstanceAs (Decidable (_ ∧ _))

theorem mem_bound_foldl_receive {binds : Binds} {requests : List BindRequest} {proxy : Proxy}
    {request : BindRequest} :
    request ∈ (requests.foldl (Proxy.receive binds) proxy).bound ↔
      request ∈ proxy.bound ∨ request ∈ requests := by
  induction requests generalizing proxy with
  | nil => simp
  | cons first rest ih =>
      rw [List.foldl_cons, ih, Proxy.receive]
      split
      · rw [List.mem_cons]
        constructor
        · exact fun hmem => hmem.imp_right .inr
        · rintro (hbound | rfl | hrest)
          · exact .inl hbound
          · exact .inl ‹_›
          · exact .inr hrest
      · simp only [List.mem_append, List.mem_cons, or_assoc, List.not_mem_nil,
          false_or]

/-- The handlers that change what is asked for. -/
inductive Operation
  | create (form : SiteForm) (stop : Stop) (issued : Bool)
  | update (name : Text) (form : SiteForm) (stop : Stop)
  | toggle (name : Text) (read : Bool)
  | acme (name : Text) (issued : Bool)
  | certUpload
  deriving DecidableEq

def Operation.answer (guiPorts : List ℤ) (sites : Sites) : Operation → Answered
  | create form stop issued => postSiteCreate guiPorts sites form stop issued
  | update name form stop => postSiteUpdate guiPorts sites name form stop
  | toggle name read => postSiteToggle sites name read
  | acme name issued => postSiteAcme sites name issued
  | certUpload => postCertCreate sites

/-- The tables and the proxy, with the requests for a silent port that were
ignored. -/
structure World where
  sites : Sites
  proxy : Proxy
  ignored : List BindRequest
  deriving DecidableEq

/-- `start`: what the tables ask for, and the port certificates are validated on. -/
def start (reads : Reads) (binds : Binds) (sites : Sites) : World where
  sites := sites
  proxy :=
    let initial := getListenPorts reads sites
    (if initial.contains acmeBind then initial else initial ++ [acmeBind]).foldl
      (Proxy.receive binds) { bound := [], listening := [] }
  ignored := []

/-- An operation up to its answer, with what can be bound while it is handled. -/
def operate (guiPorts : List ℤ) (world : World) (action : Operation × Binds) : Option World :=
  let answered := action.1.answer guiPorts world.sites
  some
    { sites := answered.sites
      proxy := answered.announced.foldl (Proxy.receive action.2) world.proxy
      ignored := world.ignored ++ answered.announced.filter world.proxy.Silent }

section Conditions

/-- The ports a site has stored, each with whether it is for HTTPS. -/
def Site.stored (site : Site) : List (ℤ × Bool) :=
  (site.listenPort, false) :: site.tlsPort.toList.map (·, true) ++ site.extras

/-- Every query that fails at the start would have found only what others find. -/
structure FoundElsewhere (reads : Reads) (sites : Sites) : Prop where
  plain : reads.plain = false → ∀ site ∈ sites, site.enabled → ∀ request ∈ site.plainRequests,
    request = acmeBind ∨ request ∈ getListenPorts reads sites
  secure : reads.secure = false → ∀ site ∈ sites, site.enabled → ∀ request ∈ site.secureRequests,
    request ∈ getListenPorts reads sites
  extra : reads.extra = false → ∀ site ∈ sites, site.enabled → ∀ request ∈ site.extraRequests,
    request = acmeBind ∨ request ∈ getListenPorts reads sites

/-- Each of these ports, where the site's certificate lets it be served, was asked
for before. -/
def AskedBefore (proxy : Proxy) (ports : List (ℤ × Bool)) (hasCert : Bool) : Prop :=
  ∀ stored ∈ ports, (stored.2 = true → hasCert = true) → ∀ port ∈ validPort stored.1,
    { port, tls := stored.2 } ∈ proxy.bound

instance (proxy : Proxy) (ports : List (ℤ × Bool)) (hasCert : Bool) :
    Decidable (AskedBefore proxy ports hasCert) :=
  inferInstanceAs (Decidable (∀ _ ∈ _, _))

/-- The ports of a form that are stored when its save stops, beside these extra
ones where it has not come to them. -/
def storedPorts (form : SiteForm) (old : List (ℤ × Bool)) (reach : ℕ) : List (ℤ × Bool) :=
  let http := fieldPorts form.listenPort
  let https := fieldPorts form.tlsPort
  http.head?.toList.map (·, false) ++ https.head?.toList.map (·, true) ++
    if reach = 1 then old else (http.tail.map (·, false) ++ https.tail.map (·, true)).take (reach - 2)

/-- What an operation stores without asking for it was asked for before. -/
def Announces (guiPorts : List ℤ) (world : World) : Operation → Prop
  | .create form stop _ =>
      (checkCreate guiPorts world.sites form).isOk → ∀ reach ∈ stop, 0 < reach →
        AskedBefore world.proxy (storedPorts form [] reach) form.certChosen
  | .update name form stop =>
      (checkUpdate guiPorts world.sites name form).isOk → ∀ reach ∈ stop, 0 < reach →
        ∀ site ∈ world.sites, site.name = name → site.enabled →
          AskedBefore world.proxy (storedPorts form site.extras reach) form.certChosen
  | .toggle name read =>
      read = false → ∀ site ∈ world.sites, site.name = name → ¬site.enabled →
        AskedBefore world.proxy site.extras site.hasCert
  | .acme name issued =>
      issued → ∀ site ∈ world.sites, site.name = name → site.enabled →
        AskedBefore world.proxy (site.secure.map (·, true)) true
  | .certUpload => True

/-- The ports an operation asks for, as its form or its site has them. -/
def Operation.named (sites : Sites) : Operation → List (ℤ × Bool)
  | create form _ _ | update _ form _ =>
      (fieldPorts form.listenPort).map (·, false) ++ (fieldPorts form.tlsPort).map (·, true)
  | toggle name read =>
      (sites.filter fun site => site.name = name && !site.enabled).flatMap fun site =>
        Site.stored { site with extras := if read then site.extras else [] }
  | acme _ _ | certUpload => []

/-- The operation comes to its last step: its form is accepted and no statement fails. -/
def Operation.completes (guiPorts : List ℤ) (sites : Sites) : Operation → Bool
  | create form stop _ => (checkCreate guiPorts sites form).isOk && stop.isNone
  | update name form stop => (checkUpdate guiPorts sites name form).isOk && stop.isNone
  | toggle _ _ | acme _ _ | certUpload => true

/-- No port it asks for is one whose bind failed. -/
def AsksAnew (guiPorts : List ℤ) (world : World) (operation : Operation) : Prop :=
  operation.completes guiPorts world.sites → ∀ stored ∈ operation.named world.sites,
    ¬world.proxy.Silent { port := asU16 stored.1, tls := stored.2 }

def Follows (guiPorts : List ℤ) (world : World) (action : Operation × Binds) : Prop :=
  Announces guiPorts world action.1 ∧ AsksAnew guiPorts world action.1

instance (guiPorts : List ℤ) (world : World) : DecidablePred (Announces guiPorts world)
  | .create _ _ _ => inferInstanceAs (Decidable (_ → ∀ _ ∈ _, _))
  | .update _ _ _ => inferInstanceAs (Decidable (_ → ∀ _ ∈ _, _))
  | .toggle _ _ => inferInstanceAs (Decidable (_ → ∀ _ ∈ _, _))
  | .acme _ _ => inferInstanceAs (Decidable (_ → ∀ _ ∈ _, _))
  | .certUpload => inferInstanceAs (Decidable True)

instance (guiPorts : List ℤ) (world : World) : DecidablePred (AsksAnew guiPorts world) :=
  fun _ => inferInstanceAs (Decidable (_ → ∀ _ ∈ _, ¬_))

instance (guiPorts : List ℤ) (world : World) : DecidablePred (Follows guiPorts world) :=
  fun _ => inferInstanceAs (Decidable (_ ∧ _))

end Conditions

section Stored

variable {site : Site} {form : SiteForm} {ports : SitePorts} {request : BindRequest}

theorem mem_stored {stored : ℤ × Bool} :
    stored ∈ site.stored ↔ stored = (site.listenPort, false) ∨
      (∃ port, site.tlsPort = some port ∧ stored = (port, true)) ∨ stored ∈ site.extras := by
  simp only [Site.stored, List.cons_append, List.mem_cons, List.mem_append, List.mem_map,
    Option.mem_toList, eq_comm]

theorem mem_secure_of_stored {port : ℤ} (hstored : (port, true) ∈ site.stored) :
    port ∈ site.secure := by
  rcases mem_stored.mp hstored with heq | ⟨_, htls, heq⟩ | hextra
  · exact absurd (congrArg Prod.snd heq) Bool.noConfusion
  · exact Site.mem_secure.mpr (.inl (htls.trans (congrArg (some ·.1) heq.symm)))
  · exact Site.mem_secure.mpr (.inr hextra)

/-- What is asked for on a site's account, by the ports it has stored. -/
theorem exists_stored_of_mem_requests (hrequest : request ∈ site.requests) :
    ∃ stored ∈ site.stored, stored.2 = request.tls ∧ (stored.2 = true → site.hasCert = true) ∧
      validPort stored.1 = some request.port := by
  rw [Site.requests, List.mem_append, List.mem_append, Site.mem_plainRequests,
    Site.mem_secureRequests, Site.mem_extraRequests] at hrequest
  rcases hrequest with (⟨htls, hvalid⟩ | ⟨htls, hcert, port, hport, hvalid⟩) |
    ⟨port, hextra, hcert, hvalid⟩
  · exact ⟨_, mem_stored.mpr (.inl rfl), htls.symm, fun _ => by contradiction, hvalid⟩
  · exact ⟨(port, true), mem_stored.mpr (.inr (.inl ⟨port, hport, rfl⟩)), htls.symm,
      fun _ => hcert, hvalid⟩
  · exact ⟨_, mem_stored.mpr (.inr (.inr hextra)), rfl, hcert, hvalid⟩

theorem announceSite_eq (site : Site) :
    announceSite site = site.stored.map fun stored => { port := asU16 stored.1, tls := stored.2 } := by
  simp [announceSite, Site.stored, Function.comp_def]

theorem asU16_of_validPort {stored : ℤ} {port : ℕ} (hvalid : validPort stored = some port) :
    asU16 stored = port := by
  obtain ⟨rfl, -, hmax⟩ := validPort_eq_some.mp hvalid
  unfold asU16
  omega

/-- Announcing the ports a site has stored asks for all its listeners. -/
theorem mem_announceSite_of_stored (announced : Site) {stored : ℤ × Bool}
    (hstored : stored ∈ announced.stored) (htls : stored.2 = request.tls)
    (hvalid : validPort stored.1 = some request.port) : request ∈ announceSite announced := by
  rw [announceSite_eq]
  refine List.mem_map.mpr ⟨stored, hstored, ?_⟩
  rw [asU16_of_validPort hvalid, htls]

/-- Ports that were asked for before need no announcement. -/
theorem AskedBefore.mem_bound {proxy : Proxy} {stored : ℤ × Bool} {saved : List (ℤ × Bool)}
    {hasCert : Bool} (hasked : AskedBefore proxy saved hasCert) (hstored : stored ∈ saved)
    (hcert : stored.2 = true → hasCert = true) (htls : stored.2 = request.tls)
    (hvalid : validPort stored.1 = some request.port) : request ∈ proxy.bound := by
  have hbound := hasked stored hstored hcert request.port hvalid
  rw [htls] at hbound
  exact hbound

theorem Checked.extras (hchecked : Checked form ports) :
    ports.extras = (fieldPorts form.listenPort).tail.map (·, false) ++
      (fieldPorts form.tlsPort).tail.map (·, true) := by
  rw [SitePorts.extras, hchecked.http, hchecked.extraHttps, List.tail_cons]

/-- A save that stops stores what the form lists as far as it came. -/
theorem stored_stopped (hchecked : Checked form ports) (hasCert : Bool)
    (old : List (ℤ × Bool)) (reach : ℕ) :
    ((site.withPorts ports hasCert).stopped old reach).stored = storedPorts form old reach := by
  rw [Site.stored, storedPorts, hchecked.http, ← hchecked.tls]
  dsimp only [Site.stopped, Site.withPorts]
  rw [hchecked.extras, hchecked.http]
  rfl

theorem mem_stored_withPorts (hchecked : Checked form ports) {hasCert : Bool}
    {stored : ℤ × Bool} (hstored : stored ∈ (site.withPorts ports hasCert).stored) :
    stored ∈ (fieldPorts form.listenPort).map (·, false) ++
      (fieldPorts form.tlsPort).map (·, true) := by
  rw [← hchecked.plain, ← hchecked.secure]
  simp only [Site.stored, Site.withPorts, SitePorts.plain, SitePorts.secure, SitePorts.extras,
    List.map_cons, List.map_append, List.cons_append, List.mem_cons, List.mem_append] at hstored ⊢
  grind

end Stored

end EasyWaf.Ports
