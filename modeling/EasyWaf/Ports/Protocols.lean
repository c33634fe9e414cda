import EasyWaf.Core.Machine
import EasyWaf.Ports.Handlers

/-!
# One protocol on a port

A port answers plain HTTP or HTTPS, never both.  The forms and an import each
check the one site, or file, they have in hand; what nobody compares with are the
other sites, the port that is always bound plain, and what a save that stops
leaves behind.
-/

namespace EasyWaf.Ports

section Stored

/-- The stored ports of one are among those of the other. -/
structure Site.Within (site whole : Site) : Prop where
  plain : site.plain ⊆ whole.plain
  secure : site.secure ⊆ whole.secure

/-- No port is stored for both protocols, in a site or in two that are enabled,
and the port that is always bound plain is for HTTPS in none. -/
structure OneProtocol (sites : Sites) : Prop where
  inSite : ∀ site ∈ sites, site.plain.Disjoint site.secure
  across : ∀ site ∈ sites, ∀ other ∈ sites, site.enabled → other.enabled →
    site.plain.Disjoint other.secure
  always : ∀ site ∈ sites, (acmePort : ℤ) ∉ site.secure

/-- Never two listeners on one number, whichever of the queries are answered. -/
def OneListener (sites : Sites) : Prop :=
  ∀ reads port, ¬({ port, tls := false } ∈ getListenPorts reads sites ++ [acmeBind] ∧
    { port, tls := true } ∈ getListenPorts reads sites ++ [acmeBind])

/-- What is asked for is asked for by an enabled site. -/
theorem exists_of_mem_getListenPorts {reads : Reads} {sites : Sites} {request : BindRequest}
    (hrequest : request ∈ getListenPorts reads sites) :
    ∃ site ∈ sites, site.enabled ∧ request ∈ site.requests := by
  obtain ⟨site, hsite, henabled, hmem⟩ := mem_getListenPorts.mp hrequest
  refine ⟨site, hsite, henabled, ?_⟩
  simp only [Site.requests, List.mem_append, or_assoc]
  exact hmem.imp And.right (Or.imp And.right And.right)

theorem oneListener_of_oneProtocol {sites : Sites} (hone : OneProtocol sites) :
    OneListener sites := by
  rintro reads port ⟨hplain, hsecure⟩
  have secure_mem : ({ port, tls := true } : BindRequest) ∈ getListenPorts reads sites := by
    simpa [acmeBind] using hsecure
  obtain ⟨other, hother, hotherEnabled, hasked⟩ := exists_of_mem_getListenPorts secure_mem
  have hstored := (Site.mem_requests_secure.mp hasked).2.1
  rcases List.mem_append.mp hplain with hplain | hacme
  · obtain ⟨site, hsite, henabled, hasked⟩ := exists_of_mem_getListenPorts hplain
    exact hone.across site hsite other hother henabled hotherEnabled
      (Site.mem_requests_plain.mp hasked).1 hstored
  · have hport : port = acmePort := by simpa [acmeBind] using hacme
    exact hone.always other hother (hport ▸ hstored)

end Stored

section Import

/-- A site of a configuration file, as far as its ports go. -/
structure FileSite where
  site : Site
  /-- The certificate it names, if it names one, is here or in the file. -/
  usable : Bool
  deriving DecidableEq

/-- A configuration file, as far as its sites' ports go. -/
structure File where
  sites : List FileSite
  /-- Nothing else in it is a blocker. -/
  accepted : Bool
  deriving DecidableEq

def FileSite.ports (entry : FileSite) : List ℤ :=
  entry.site.listenPort :: (entry.site.tlsPort.toList ++ entry.site.extras.map Prod.fst)

/-- `check`: whether the file has no blockers. -/
def File.check (guiPorts : List ℤ) (file : File) : Bool :=
  file.accepted && decide (file.sites.map (·.site.name)).Nodup &&
    file.sites.all fun entry =>
      (if entry.site.hasCert then entry.usable else entry.site.tlsPort.isNone) &&
        entry.ports.all fun port => 1 ≤ port && port ≤ 65535 && !guiPorts.contains port

/-- `INSERT INTO sites … ON CONFLICT(name) DO UPDATE`, with its extra ports. -/
def upsert (sites : Sites) (entry : Site) : Sites :=
  if sites.any (·.name = entry.name) then
    sites.map fun site => if site.name = entry.name then entry else site
  else sites ++ [entry]

/-- The sites that `apply` leaves, or `none` where one of its statements fails:
an extra port given twice is refused by the table's key. -/
def applySites (sites : Sites) (file : File) : Option Sites :=
  let wanted := file.sites.map FileSite.site
  if wanted.all fun site => decide site.extras.Nodup then
    some (wanted.foldl upsert (sites.filter fun site => wanted.any (·.name = site.name)))
  else none

/-- An import: refused where there are blockers, and without effect where it fails. -/
def importSites (guiPorts : List ℤ) (sites : Sites) (file : File) : Sites :=
  if file.check guiPorts then (applySites sites file).getD sites else sites

theorem mem_upsert {sites : Sites} {entry site : Site} (hsite : site ∈ upsert sites entry) :
    site = entry ∨ site ∈ sites ∧ site.name ≠ entry.name := by
  unfold upsert at hsite
  split at hsite
  · obtain ⟨before, hbefore, hreplaced⟩ := List.mem_map.mp hsite
    split at hreplaced
    · exact .inl hreplaced.symm
    · rename_i hname
      exact .inr (hreplaced ▸ ⟨hbefore, hname⟩)
  · rename_i hnew
    rcases List.mem_append.mp hsite with hold | hentry
    · refine .inr ⟨hold, fun hname => hnew ?_⟩
      exact List.any_eq_true.mpr ⟨site, hold, decide_eq_true hname⟩
    · exact .inl (List.mem_singleton.mp hentry)

theorem mem_foldl_upsert {wanted sites : Sites} {site : Site}
    (hsite : site ∈ wanted.foldl upsert sites) :
    site ∈ wanted ∨ site ∈ sites ∧ site.name ∉ wanted.map (·.name) := by
  induction wanted generalizing sites with
  | nil => exact .inr ⟨hsite, List.not_mem_nil⟩
  | cons entry rest ih =>
      rcases ih hsite with hrest | ⟨hupsert, hname⟩
      · exact .inl (List.mem_cons_of_mem entry hrest)
      rcases mem_upsert hupsert with rfl | ⟨hold, hother⟩
      · exact .inl List.mem_cons_self
      · exact .inr ⟨hold, fun hmem => (List.mem_cons.mp hmem).elim hother hname⟩

/-- An import leaves the sites of its file and no others. -/
theorem mem_of_mem_applySites {sites sites' : Sites} {file : File}
    (happly : applySites sites file = some sites') {site : Site} (hsite : site ∈ sites') :
    site ∈ file.sites.map FileSite.site := by
  unfold applySites at happly
  dsimp only at happly
  split at happly
  · obtain rfl := Option.some.inj happly
    rcases mem_foldl_upsert hsite with hfile | ⟨hkept, hname⟩
    · exact hfile
    · obtain ⟨named, hnamed, heq⟩ := List.any_eq_true.mp (List.mem_filter.mp hkept).2
      exact absurd (List.mem_map.mpr ⟨named, hnamed, of_decide_eq_true heq⟩) hname
  · contradiction

theorem nodup_upsert {sites : Sites} {entry : Site} (hnodup : (sites.map (·.name)).Nodup) :
    ((upsert sites entry).map (·.name)).Nodup := by
  unfold upsert
  split
  · exact nodup_names_replace hnodup (fun _ => entry) fun _ _ => rfl
  · rename_i hnew
    apply nodup_names_add hnodup
    exact fun other hother hname =>
      hnew (List.any_eq_true.mpr ⟨other, hother, decide_eq_true hname⟩)

theorem nodup_applySites {sites sites' : Sites} {file : File}
    (hnodup : (sites.map (·.name)).Nodup) (happly : applySites sites file = some sites') :
    (sites'.map (·.name)).Nodup := by
  unfold applySites at happly
  dsimp only at happly
  split at happly
  · obtain rfl := Option.some.inj happly
    apply List.foldlRecOn (motive := fun sites : Sites => (sites.map (·.name)).Nodup)
    · exact hnodup.sublist (List.filter_sublist.map _)
    · exact fun _ hkept _ _ => nodup_upsert hkept
  · contradiction

end Import

end EasyWaf.Ports
