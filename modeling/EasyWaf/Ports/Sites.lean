import EasyWaf.Text.Decimal

/-!
# The ports of sites

A site has a pair of ports and any number of extra ones, each for plain HTTP or
for HTTPS.  The forms read them from two fields, and the proxy asks for what the
tables hold.
-/

namespace EasyWaf.Ports

/-- A listener, as it is asked of the proxy. -/
structure BindRequest where
  port : ℕ
  tls : Bool
  deriving DecidableEq

/-- A row of `sites`, as far as its ports go, with its rows of `site_ports`. -/
structure Site where
  name : Text
  enabled : Bool
  /-- `cert_id IS NOT NULL`. -/
  hasCert : Bool
  listenPort : ℤ
  tlsPort : Option ℤ
  extras : List (ℤ × Bool)
  deriving DecidableEq

abbrev Sites := List Site

/-- `valid_port`. -/
def validPort (port : ℤ) : Option ℕ :=
  if 0 < port ∧ port ≤ 65535 then some port.toNat else none

section ListenPorts

/-- What a site's primary port asks for. -/
def Site.plainRequests (site : Site) : List BindRequest :=
  (validPort site.listenPort).toList.map fun port => { port, tls := false }

/-- What its HTTPS port asks for, where it has a certificate. -/
def Site.secureRequests (site : Site) : List BindRequest :=
  if site.hasCert then
    (site.tlsPort.bind validPort).toList.map fun port => { port, tls := true }
  else []

/-- What its extra ports ask for. -/
def Site.extraRequests (site : Site) : List BindRequest :=
  (site.extras.filter fun extra => !extra.2 || site.hasCert).flatMap fun extra =>
    (validPort extra.1).toList.map fun port => { port, tls := extra.2 }

/-- What is asked for on a site's account. -/
def Site.requests (site : Site) : List BindRequest :=
  site.plainRequests ++ site.secureRequests ++ site.extraRequests

/-- Which of the three queries of `get_listen_ports` are answered. -/
structure Reads where
  plain : Bool
  secure : Bool
  extra : Bool
  deriving DecidableEq

def Reads.all : Reads := { plain := true, secure := true, extra := true }

/-- Port by port, the plain listener of one first. -/
def BindRequest.le (left right : BindRequest) : Bool :=
  left.port < right.port || left.port == right.port && (!left.tls || right.tls)

/-- `get_listen_ports`; a query that fails finds nothing. -/
def getListenPorts (reads : Reads) (sites : Sites) : List BindRequest :=
  let enabled := sites.filter (·.enabled)
  let plain := if reads.plain then enabled.flatMap Site.plainRequests else []
  let secure := if reads.secure then enabled.flatMap Site.secureRequests else []
  let extra := if reads.extra then enabled.flatMap Site.extraRequests else []
  ((plain ++ secure ++ extra).mergeSort BindRequest.le).dedup

/-- `ACME_PORT`. -/
def acmePort : ℕ := 80

def acmeBind : BindRequest := { port := acmePort, tls := false }

theorem mem_query {read : Bool} {sites : Sites} {requests : Site → List BindRequest}
    {request : BindRequest} :
    (request ∈ if read then (sites.filter (·.enabled)).flatMap requests else []) ↔
      ∃ site ∈ sites, site.enabled ∧ read ∧ request ∈ requests site := by
  cases read <;> simp [and_assoc]

theorem mem_getListenPorts {reads : Reads} {sites : Sites} {request : BindRequest} :
    request ∈ getListenPorts reads sites ↔
      ∃ site ∈ sites, site.enabled ∧ (reads.plain ∧ request ∈ site.plainRequests ∨
        reads.secure ∧ request ∈ site.secureRequests ∨
        reads.extra ∧ request ∈ site.extraRequests) := by
  simp only [getListenPorts, List.mem_dedup, List.mem_mergeSort, List.mem_append, mem_query]
  grind

theorem mem_getListenPorts_all {sites : Sites} {request : BindRequest} :
    request ∈ getListenPorts .all sites ↔
      ∃ site ∈ sites, site.enabled ∧ request ∈ site.requests := by
  simp only [mem_getListenPorts, Reads.all, true_and, Site.requests, List.mem_append, or_assoc]

end ListenPorts

section Stored

/-- The ports a site has stored for plain HTTP. -/
def Site.plain (site : Site) : List ℤ :=
  site.listenPort :: (site.extras.filter fun extra => !extra.2).map Prod.fst

/-- The ports a site has stored for HTTPS. -/
def Site.secure (site : Site) : List ℤ :=
  site.tlsPort.toList ++ (site.extras.filter fun extra => extra.2).map Prod.fst

theorem Site.mem_plain {site : Site} {port : ℤ} :
    port ∈ site.plain ↔ port = site.listenPort ∨ (port, false) ∈ site.extras := by
  simp [Site.plain]

theorem Site.mem_secure {site : Site} {port : ℤ} :
    port ∈ site.secure ↔ site.tlsPort = some port ∨ (port, true) ∈ site.extras := by
  simp [Site.secure]

theorem validPort_eq_some {stored : ℤ} {port : ℕ} :
    validPort stored = some port ↔ stored = port ∧ 0 < port ∧ port ≤ 65535 := by
  unfold validPort
  split
  · rw [Option.some.injEq]
    omega
  · simp only [reduceCtorEq, false_iff]
    omega

theorem Site.mem_plainRequests {site : Site} {request : BindRequest} :
    request ∈ site.plainRequests ↔
      request.tls = false ∧ validPort site.listenPort = some request.port := by
  obtain ⟨port, tls⟩ := request
  simp only [plainRequests, List.mem_map, Option.mem_toList, BindRequest.mk.injEq]
  constructor
  · rintro ⟨_, hvalid, rfl, rfl⟩
    exact ⟨rfl, hvalid⟩
  · rintro ⟨rfl, hvalid⟩
    exact ⟨port, hvalid, rfl, rfl⟩

theorem Site.mem_secureRequests {site : Site} {request : BindRequest} :
    request ∈ site.secureRequests ↔
      request.tls = true ∧ site.hasCert ∧
        ∃ stored, site.tlsPort = some stored ∧ validPort stored = some request.port := by
  obtain ⟨port, tls⟩ := request
  unfold secureRequests
  split
  · rename_i hcert
    simp only [List.mem_map, Option.mem_toList, BindRequest.mk.injEq, Option.bind_eq_some_iff]
    constructor
    · rintro ⟨_, hvalid, rfl, rfl⟩
      exact ⟨rfl, hcert, hvalid⟩
    · rintro ⟨rfl, -, hvalid⟩
      exact ⟨port, hvalid, rfl, rfl⟩
  · rename_i hcert
    simp [hcert]

theorem Site.mem_extraRequests {site : Site} {request : BindRequest} :
    request ∈ site.extraRequests ↔
      ∃ stored, (stored, request.tls) ∈ site.extras ∧ (request.tls → site.hasCert) ∧
        validPort stored = some request.port := by
  obtain ⟨port, tls⟩ := request
  simp only [extraRequests, List.mem_flatMap, List.mem_filter, List.mem_map, Option.mem_toList,
    BindRequest.mk.injEq]
  constructor
  · rintro ⟨⟨stored, secure⟩, ⟨hextra, hcert⟩, _, hvalid, rfl, rfl⟩
    exact ⟨stored, hextra, by cases secure <;> simp_all, hvalid⟩
  · rintro ⟨stored, hextra, hcert, hvalid⟩
    exact ⟨(stored, tls), ⟨hextra, by cases tls <;> simp_all⟩, port, hvalid, rfl, rfl⟩

/-- A plain listener is asked for on every stored port in range. -/
theorem Site.mem_requests_plain {site : Site} {port : ℕ} :
    { port, tls := false } ∈ site.requests ↔
      (port : ℤ) ∈ site.plain ∧ 0 < port ∧ port ≤ 65535 := by
  simp only [Site.requests, List.mem_append, mem_plainRequests, mem_secureRequests,
    mem_extraRequests, validPort_eq_some, mem_plain]
  grind

/-- An HTTPS listener only where there is a certificate. -/
theorem Site.mem_requests_secure {site : Site} {port : ℕ} :
    { port, tls := true } ∈ site.requests ↔
      site.hasCert ∧ (port : ℤ) ∈ site.secure ∧ 0 < port ∧ port ≤ 65535 := by
  simp only [Site.requests, List.mem_append, mem_plainRequests, mem_secureRequests,
    mem_extraRequests, validPort_eq_some, mem_secure]
  grind

end Stored

section Names

variable {sites : Sites}

theorem nodup_names_replace (hnodup : (sites.map (·.name)).Nodup) {name : Text}
    (new : Site → Site) (hname : ∀ site, site.name = name → (new site).name = name) :
    ((sites.map fun site => if site.name = name then new site else site).map (·.name)).Nodup := by
  have hnames : (sites.map fun site => if site.name = name then new site else site).map (·.name) =
      sites.map (·.name) := by
    rw [List.map_map]
    apply List.map_congr_left
    intro site _
    change (if site.name = name then new site else site).name = site.name
    split
    · rename_i heq
      exact (hname site heq).trans heq.symm
    · rfl
  exact hnames ▸ hnodup

theorem nodup_names_add (hnodup : (sites.map (·.name)).Nodup) {site : Site}
    (hfree : ∀ other ∈ sites, other.name ≠ site.name) :
    ((sites ++ [site]).map (·.name)).Nodup := by
  rw [List.map_append]
  apply List.Nodup.append hnodup (List.nodup_singleton _)
  intro name hname hadded
  obtain ⟨other, hother, rfl⟩ := List.mem_map.mp hname
  exact hfree other hother (List.mem_singleton.mp hadded)

/-- Sites are told apart by their names. -/
theorem eq_of_name (hnodup : (sites.map (·.name)).Nodup) {site other : Site}
    (hsite : site ∈ sites) (hother : other ∈ sites) (hname : site.name = other.name) :
    site = other :=
  List.inj_on_of_nodup_map hnodup hsite hother hname

end Names

section Fields

/-- `parse_port_list`: the ports, and what is none. -/
def parsePortList (raw : Text) : List ℤ × List Text :=
  let tokens := ((raw.splitOnP fun c => [',', ' ', '\n', '\t'].contains c).map Text.trim).filter
    (· ≠ [])
  tokens.foldl
    (fun (ports, bad) token =>
      match (Text.parseInt64 token).filter fun port => 1 ≤ port ∧ port ≤ 65535 with
      | some port => if ports.contains port then (ports, bad) else (ports ++ [port], bad)
      | none => (ports, bad ++ [token]))
    ([], [])

/-- `SitePorts`. -/
structure SitePorts where
  listen : ℤ
  tls : Option ℤ
  extraHttp : List ℤ
  extraHttps : List ℤ
  deriving DecidableEq

def SitePorts.plain (ports : SitePorts) : List ℤ := ports.listen :: ports.extraHttp

def SitePorts.secure (ports : SitePorts) : List ℤ := ports.tls.toList ++ ports.extraHttps

inductive PortError
  | notPorts (bad : List Text)
  | httpRequired
  | listedTwice (port : ℤ)
  | management (port : ℤ)
  deriving DecidableEq

/-- The first port that was listed before, or is the management's. -/
def portError (guiPorts : List ℤ) : List ℤ → List ℤ → Option PortError
  | _, [] => none
  | before, port :: rest =>
      if before.contains port then some (.listedTwice port)
      else if guiPorts.contains port then some (.management port)
      else portError guiPorts (before ++ [port]) rest

/-- `validated_ports`, of the two fields of a form. -/
def validatedPorts (guiPorts : List ℤ) (listenField tlsField : Option Text) :
    Except PortError SitePorts :=
  let (http, badHttp) := parsePortList (listenField.getD [])
  let (https, badHttps) := parsePortList (tlsField.getD [])
  if badHttp ++ badHttps ≠ [] then .error (.notPorts (badHttp ++ badHttps))
  else
    match http with
    | [] => .error .httpRequired
    | listen :: extraHttp =>
        let ports : SitePorts :=
          { listen, tls := https.head?, extraHttp, extraHttps := https.tail }
        match portError guiPorts [] (ports.plain ++ ports.secure) with
        | some error => .error error
        | none => .ok ports

theorem portError_eq_none {guiPorts before ports : List ℤ}
    (hnone : portError guiPorts before ports = none) :
    ports.Nodup ∧ (∀ port ∈ ports, port ∉ before) := by
  induction ports generalizing before with
  | nil => exact ⟨List.nodup_nil, fun _ hmem => absurd hmem List.not_mem_nil⟩
  | cons port rest ih =>
      rw [portError] at hnone
      split at hnone
      · contradiction
      split at hnone
      · contradiction
      rename_i hbefore _
      obtain ⟨hnodup, hapart⟩ := ih hnone
      rw [List.contains_eq_mem, decide_eq_true_eq] at hbefore
      constructor
      · refine List.nodup_cons.mpr ⟨fun hmem => hapart port hmem ?_, hnodup⟩
        exact List.mem_append_right _ (List.mem_singleton_self port)
      · intro other hother
        rcases List.mem_cons.mp hother with rfl | hother
        · exact hbefore
        · exact fun hmem => hapart other hother (List.mem_append_left _ hmem)

/-- Accepted ports are for one protocol each. -/
theorem apart_of_validatedPorts {guiPorts : List ℤ} {listenField tlsField : Option Text}
    {ports : SitePorts} (hports : validatedPorts guiPorts listenField tlsField = .ok ports) :
    ∀ port ∈ ports.plain, port ∉ ports.secure := by
  rw [validatedPorts] at hports
  dsimp only at hports
  split at hports
  · contradiction
  split at hports
  · contradiction
  split at hports
  · contradiction
  rename_i hnone
  obtain rfl := Except.ok.inj hports
  exact fun port hplain hsecure =>
    (List.nodup_append.mp (portError_eq_none hnone).1).2.2 port hplain port hsecure rfl

end Fields

end EasyWaf.Ports
