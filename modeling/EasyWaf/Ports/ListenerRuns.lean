import EasyWaf.Ports.Listeners

/-!
# Listeners over any sequence of operations

Whatever an operation puts into the tables it either asks for, or it was asked for
before.  So everything the tables ask for has been asked of the proxy, and no
request for a port that failed to bind is ignored.
-/

namespace EasyWaf.Ports

open Machine

variable {guiPorts : List ℤ} {sites : Sites} {world : World}

section Covered

/-- Every listener the tables ask for satisfies this. -/
def AllAsked (sites : Sites) (asked : BindRequest → Prop) : Prop :=
  ∀ site ∈ sites, site.enabled → ∀ request ∈ site.requests, asked request

theorem AllAsked.mono {asked asked' : BindRequest → Prop} (hall : AllAsked sites asked)
    (hweaker : ∀ request, asked request → asked' request) : AllAsked sites asked' :=
  fun site hsite henabled request hrequest =>
    hweaker request (hall site hsite henabled request hrequest)

theorem AllAsked.replace {asked : BindRequest → Prop} (hall : AllAsked sites asked) {name : Text}
    (new : Site → Site)
    (hnew : ∀ site ∈ sites, site.name = name → (new site).enabled →
      ∀ request ∈ (new site).requests, asked request) :
    AllAsked (sites.map fun site => if site.name = name then new site else site) asked := by
  intro site' hsite' henabled request hrequest
  obtain ⟨site, hsite, rfl⟩ := List.mem_map.mp hsite'
  split at henabled
  · rename_i hname
    rw [if_pos hname] at hrequest
    exact hnew site hsite hname henabled request hrequest
  · rename_i hname
    rw [if_neg hname] at hrequest
    exact hall site hsite henabled request hrequest

/-- An operation covers what it stores: everything the tables then ask for was
asked for, before or by the operation. -/
def Covers (world : World) (answered : Answered) : Prop :=
  AllAsked answered.sites fun request =>
    request ∈ world.proxy.bound ∨ request ∈ answered.announced

variable (hasked : AllAsked world.sites (· ∈ world.proxy.bound))

include hasked

theorem covers_unchanged (announced : List BindRequest) :
    Covers world { sites := world.sites, announced } :=
  hasked.mono fun _ => .inl

theorem covers_postSiteCreate {form : SiteForm} {stop : Stop} {issued : Bool}
    (hannounces : Announces guiPorts world (.create form stop issued)) :
    Covers world (postSiteCreate guiPorts world.sites form stop issued) := by
  unfold postSiteCreate
  cases hcheck : checkCreate guiPorts world.sites form with
  | error error => exact covers_unchanged hasked []
  | ok added =>
      obtain ⟨hfree, ports, hchecked, hadded⟩ := checkCreate_eq_ok hcheck
      have hok : (checkCreate guiPorts world.sites form).isOk := by rw [hcheck]; rfl
      rcases stop with _ | _ | reach
      · -- The certificate, where one is issued, comes after the announcement.
        have hadd : AllAsked (world.sites ++ [added]) fun request =>
            request ∈ world.proxy.bound ∨ request ∈ announceSite added := by
          intro site hsite henabled request hrequest
          rcases List.mem_append.mp hsite with hold | hnew
          · exact .inl (hasked site hold henabled request hrequest)
          · obtain rfl := List.mem_singleton.mp hnew
            obtain ⟨stored, hstored, htls, -, hvalid⟩ := exists_stored_of_mem_requests hrequest
            exact .inr (mem_announceSite_of_stored _ hstored htls hvalid)
        dsimp only
        split
        · apply hadd.replace fun site => { site with hasCert := true }
          intro site hsite hname _ request hrequest
          rcases List.mem_append.mp hsite with hold | hnew
          · exact absurd hname (hfree site hold)
          · obtain rfl := List.mem_singleton.mp hnew
            obtain ⟨stored, hstored, htls, -, hvalid⟩ := exists_stored_of_mem_requests hrequest
            exact .inr (mem_announceSite_of_stored site hstored htls hvalid)
        · exact hadd
      · exact covers_unchanged hasked []
      · intro site hsite henabled request hrequest
        left
        rcases List.mem_append.mp hsite with hold | hnew
        · exact hasked site hold henabled request hrequest
        · obtain rfl := List.mem_singleton.mp hnew
          obtain ⟨stored, hstored, htls, hcert, hvalid⟩ := exists_stored_of_mem_requests hrequest
          rw [hadded] at hstored hcert
          rw [stored_stopped hchecked] at hstored
          exact (hannounces hok (reach + 1) rfl (Nat.succ_pos reach)).mem_bound hstored hcert htls
            hvalid

theorem covers_postSiteUpdate {name : Text} {form : SiteForm} {stop : Stop}
    (hannounces : Announces guiPorts world (.update name form stop)) :
    Covers world (postSiteUpdate guiPorts world.sites name form stop) := by
  unfold postSiteUpdate
  cases hcheck : checkUpdate guiPorts world.sites name form with
  | error error => exact covers_unchanged hasked []
  | ok ports =>
      have hchecked := checkUpdate_eq_ok hcheck
      have hok : (checkUpdate guiPorts world.sites name form).isOk := by rw [hcheck]; rfl
      have hold : AllAsked world.sites fun request => request ∈ world.proxy.bound ∨
          request ∈ ((world.sites.find? (·.name = name)).map fun site =>
            announceSite (site.withPorts ports form.certChosen)).getD [] :=
        hasked.mono fun _ => .inl
      rcases stop with _ | _ | reach
      · apply hold.replace fun site => site.withPorts ports form.certChosen
        intro site hsite hname _ request hrequest
        right
        have hfound : (world.sites.find? (·.name = name)).isSome :=
          List.find?_isSome.mpr ⟨site, hsite, decide_eq_true hname⟩
        obtain ⟨current, hcurrent⟩ := Option.isSome_iff_exists.mp hfound
        obtain ⟨stored, hstored, htls, -, hvalid⟩ := exists_stored_of_mem_requests hrequest
        rw [hcurrent]
        exact mem_announceSite_of_stored (current.withPorts ports form.certChosen) hstored htls hvalid
      · apply (covers_unchanged hasked []).replace id
        exact fun site hsite _ henabled request hrequest =>
          .inl (hasked site hsite henabled request hrequest)
      · apply (covers_unchanged hasked []).replace fun site =>
          (site.withPorts ports form.certChosen).stopped site.extras (reach + 1)
        intro site hsite hname henabled request hrequest
        left
        obtain ⟨stored, hstored, htls, hcert, hvalid⟩ := exists_stored_of_mem_requests hrequest
        rw [stored_stopped hchecked] at hstored
        exact (hannounces hok (reach + 1) rfl (Nat.succ_pos reach) site hsite hname
          henabled).mem_bound hstored hcert htls hvalid

theorem covers_postSiteToggle {name : Text} {read : Bool}
    (hnames : (world.sites.map (·.name)).Nodup)
    (hannounces : Announces guiPorts world (.toggle name read)) :
    Covers world (postSiteToggle world.sites name read) := by
  unfold postSiteToggle
  cases hfind : world.sites.find? (·.name = name) with
  | none => exact covers_unchanged hasked []
  | some current =>
      have hcurrent : current.name = name := by simpa using List.find?_some hfind
      apply (covers_unchanged hasked _).replace fun site => { site with enabled := !current.enabled }
      intro site hsite hname henabled request hrequest
      obtain rfl := eq_of_name hnames hsite (List.mem_of_find?_eq_some hfind)
        (hname.trans hcurrent.symm)
      have hoff : site.enabled = false := by simpa using henabled
      obtain ⟨stored, hstored, htls, hcert, hvalid⟩ := exists_stored_of_mem_requests hrequest
      dsimp only
      rw [if_neg (by simp [hoff])]
      rcases mem_stored.mp hstored with hlisten | htlsPort | hextra
      · exact .inr (mem_announceSite_of_stored _ (mem_stored.mpr (.inl hlisten)) htls hvalid)
      · exact .inr (mem_announceSite_of_stored _ (mem_stored.mpr (.inr (.inl htlsPort))) htls hvalid)
      · cases hread : read with
        | true =>
            exact .inr (mem_announceSite_of_stored _ (mem_stored.mpr (.inr (.inr hextra))) htls hvalid)
        | false =>
            exact .inl ((hannounces hread site hsite hname (by simp [hoff])).mem_bound hextra hcert
              htls hvalid)

theorem covers_postSiteAcme {name : Text} {issued : Bool}
    (hannounces : Announces guiPorts world (.acme name issued)) :
    Covers world (postSiteAcme world.sites name issued) := by
  unfold postSiteAcme
  cases issued with
  | false => exact covers_unchanged hasked []
  | true =>
      apply (covers_unchanged hasked []).replace fun site => { site with hasCert := true }
      intro site hsite hname henabled request hrequest
      left
      have hbefore := hasked site hsite henabled
      obtain ⟨port, tls⟩ := request
      cases tls with
      | false =>
          have hplain := Site.mem_requests_plain.mp hrequest
          exact hbefore _ (Site.mem_requests_plain.mpr hplain)
      | true =>
          obtain ⟨-, hstored, hrange⟩ := Site.mem_requests_secure.mp hrequest
          exact (hannounces rfl site hsite hname henabled).mem_bound
            (List.mem_map.mpr ⟨port, hstored, rfl⟩) (fun _ => rfl) rfl
            (validPort_eq_some.mpr ⟨rfl, hrange⟩)

theorem covers_answer {operation : Operation} (hnames : (world.sites.map (·.name)).Nodup)
    (hannounces : Announces guiPorts world operation) :
    Covers world (operation.answer guiPorts world.sites) := by
  cases operation with
  | create form stop issued => exact covers_postSiteCreate hasked hannounces
  | update name form stop => exact covers_postSiteUpdate hasked hannounces
  | toggle name read => exact covers_postSiteToggle hasked hnames hannounces
  | acme name issued => exact covers_postSiteAcme hasked hannounces
  | certUpload => exact covers_unchanged hasked []

end Covered

section Named

/-- What an operation asks for are the ports of its form or its site. -/
theorem exists_named_of_mem_announced {operation : Operation} {request : BindRequest}
    (hrequest : request ∈ (operation.answer guiPorts sites).announced) :
    operation.completes guiPorts sites ∧ ∃ stored ∈ operation.named sites,
      request = { port := asU16 stored.1, tls := stored.2 } := by
  cases operation with
  | create form stop issued =>
      dsimp only [Operation.answer] at hrequest
      unfold postSiteCreate at hrequest
      cases hcheck : checkCreate guiPorts sites form with
      | error error => rw [hcheck] at hrequest; contradiction
      | ok site =>
          obtain ⟨-, ports, hchecked, hsite⟩ := checkCreate_eq_ok hcheck
          rw [hcheck] at hrequest
          rcases stop with _ | _ | reach
          · dsimp only at hrequest
            rw [announceSite_eq] at hrequest
            obtain ⟨stored, hstored, rfl⟩ := List.mem_map.mp hrequest
            rw [hsite] at hstored
            exact ⟨by rw [Operation.completes, hcheck]; rfl, stored,
              mem_stored_withPorts hchecked hstored, rfl⟩
          · contradiction
          · contradiction
  | update name form stop =>
      dsimp only [Operation.answer] at hrequest
      unfold postSiteUpdate at hrequest
      cases hcheck : checkUpdate guiPorts sites name form with
      | error error => rw [hcheck] at hrequest; contradiction
      | ok ports =>
          have hchecked := checkUpdate_eq_ok hcheck
          rw [hcheck] at hrequest
          cases stop with
          | some reach => contradiction
          | none =>
              dsimp only at hrequest
              rw [if_pos rfl] at hrequest
              cases hfind : sites.find? (·.name = name) with
              | none => rw [hfind] at hrequest; contradiction
              | some current =>
                  rw [hfind, Option.map_some, Option.getD_some, announceSite_eq] at hrequest
                  obtain ⟨stored, hstored, rfl⟩ := List.mem_map.mp hrequest
                  exact ⟨by rw [Operation.completes, hcheck]; rfl, stored,
                    mem_stored_withPorts hchecked hstored, rfl⟩
  | toggle name read =>
      dsimp only [Operation.answer] at hrequest
      unfold postSiteToggle at hrequest
      cases hfind : sites.find? (·.name = name) with
      | none => rw [hfind] at hrequest; contradiction
      | some current =>
          rw [hfind] at hrequest
          dsimp only at hrequest
          split at hrequest
          · contradiction
          · rename_i hoff
            rw [announceSite_eq] at hrequest
            obtain ⟨stored, hstored, rfl⟩ := List.mem_map.mp hrequest
            have hname : current.name = name := by simpa using List.find?_some hfind
            refine ⟨rfl, stored, List.mem_flatMap.mpr ⟨current, ?_, hstored⟩, rfl⟩
            exact List.mem_filter.mpr ⟨List.mem_of_find?_eq_some hfind, by simp [hname, hoff]⟩
  | acme name issued => contradiction
  | certUpload => contradiction

theorem ignored_nil {operation : Operation} (hanew : AsksAnew guiPorts world operation) :
    (operation.answer guiPorts world.sites).announced.filter world.proxy.Silent = [] := by
  apply List.filter_eq_nil_iff.mpr
  intro request hrequest hsilent
  obtain ⟨hcompletes, stored, hstored, rfl⟩ := exists_named_of_mem_announced hrequest
  exact hanew hcompletes stored hstored (of_decide_eq_true hsilent)

end Named

section Names

/-- Operations keep sites apart by their names. -/
theorem nodup_names_answer (hnames : (sites.map (·.name)).Nodup) (operation : Operation) :
    ((operation.answer guiPorts sites).sites.map (·.name)).Nodup := by
  cases operation with
  | create form stop issued =>
      dsimp only [Operation.answer]
      unfold postSiteCreate
      cases hcheck : checkCreate guiPorts sites form with
      | error error => exact hnames
      | ok site =>
          have hfree := (checkCreate_eq_ok hcheck).1
          rcases stop with _ | _ | reach
          · dsimp only
            split
            · exact nodup_names_replace (nodup_names_add hnames hfree) _ fun _ => id
            · exact nodup_names_add hnames hfree
          · exact hnames
          · exact nodup_names_add hnames hfree
  | update name form stop =>
      dsimp only [Operation.answer]
      unfold postSiteUpdate
      cases checkUpdate guiPorts sites name form with
      | error error => exact hnames
      | ok ports =>
          rcases stop with _ | _ | reach
          · exact nodup_names_replace hnames _ fun _ => id
          · exact nodup_names_replace hnames id fun _ => id
          · exact nodup_names_replace hnames
              (fun site => (site.withPorts ports form.certChosen).stopped site.extras (reach + 1))
              fun _ => id
  | toggle name read =>
      dsimp only [Operation.answer]
      unfold postSiteToggle
      split
      · exact hnames
      · exact nodup_names_replace hnames _ fun _ => id
  | acme name issued =>
      cases issued with
      | false => exact hnames
      | true => exact nodup_names_replace hnames _ fun _ => id
  | certUpload => exact hnames

end Names

section Runs

/-- Everything the tables ask for has been asked of the proxy, and no request for a
silent port was ignored. -/
structure Following (world : World) : Prop where
  names : (world.sites.map (·.name)).Nodup
  asked : AllAsked world.sites (· ∈ world.proxy.bound)
  ignored : world.ignored = []

/-- At the start the proxy asks for what its queries find, and for port 80. -/
theorem mem_bound_start {reads : Reads} {binds : Binds} {request : BindRequest} :
    request ∈ (start reads binds sites).proxy.bound ↔
      request = acmeBind ∨ request ∈ getListenPorts reads sites := by
  rw [start, mem_bound_foldl_receive]
  split
  · rename_i hcontains
    have hacme : acmeBind ∈ getListenPorts reads sites := by simpa using hcontains
    constructor
    · exact fun hmem => .inr (hmem.resolve_left List.not_mem_nil)
    · rintro (rfl | hmem)
      · exact .inr hacme
      · exact .inr hmem
  · simp [or_comm]

theorem following_start {reads : Reads} (binds : Binds)
    (hnames : (sites.map (·.name)).Nodup) (hfound : FoundElsewhere reads sites) :
    Following (start reads binds sites) where
  names := hnames
  ignored := rfl
  asked := by
    intro site hsite henabled request hrequest
    apply mem_bound_start.mpr
    rcases List.mem_append.mp hrequest with hpair | hextra
    · rcases List.mem_append.mp hpair with hplain | hsecure
      · cases hread : reads.plain with
        | true => exact .inr (mem_getListenPorts.mpr ⟨site, hsite, henabled, .inl ⟨hread, hplain⟩⟩)
        | false => exact hfound.plain hread site hsite henabled request hplain
      · right
        cases hread : reads.secure with
        | true =>
            exact mem_getListenPorts.mpr ⟨site, hsite, henabled, .inr (.inl ⟨hread, hsecure⟩)⟩
        | false => exact hfound.secure hread site hsite henabled request hsecure
    · cases hread : reads.extra with
      | true =>
          exact .inr (mem_getListenPorts.mpr
            ⟨site, hsite, henabled, .inr (.inr ⟨hread, hextra⟩)⟩)
      | false => exact hfound.extra hread site hsite henabled request hextra

theorem following_operate {action : Operation × Binds} {world' : World}
    (hfollowing : Following world) (hfollows : Follows guiPorts world action)
    (hstep : operate guiPorts world action = some world') : Following world' := by
  obtain rfl := Option.some.inj hstep
  constructor
  · exact nodup_names_answer hfollowing.names action.1
  · have hcovers := covers_answer hfollowing.asked hfollowing.names hfollows.1
    exact hcovers.mono fun request hmem => mem_bound_foldl_receive.mpr hmem
  · change world.ignored ++ List.filter _ _ = []
    rw [hfollowing.ignored, ignored_nil hfollows.2]
    rfl

/-- From any start whose queries find every port, and over any operations that
announce what they store and ask for no port whose bind failed, everything the
tables ask for has been asked of the proxy, and no request was ignored that could
have made a silent port answer. -/
theorem listeners_follow_the_tables {reads : Reads} {binds : Binds}
    (hnames : (sites.map (·.name)).Nodup) (hfound : FoundElsewhere reads sites)
    (run : Run (operate guiPorts) (Follows guiPorts) (start reads binds sites) world) :
    (∀ request ∈ getListenPorts .all world.sites, request ∈ world.proxy.bound) ∧
      world.ignored = [] := by
  have hfollowing : Following world := run.invariant Following
    (fun _ _ _ hfollowing hfollows hstep => following_operate hfollowing hfollows hstep)
    (following_start binds hnames hfound)
  constructor
  · intro request hrequest
    obtain ⟨site, hsite, henabled, hmem⟩ := mem_getListenPorts_all.mp hrequest
    exact hfollowing.asked site hsite henabled request hmem
  · exact hfollowing.ignored

section Examples

/-- A site that was created with a certificate to be issued, which then was not. -/
def awaiting : Site where
  name := "shop".toList
  enabled := true
  hasCert := false
  listenPort := 80
  tlsPort := some 443
  extras := []

def allBind : Binds := fun _ => true

def noneBinds : Binds := fun _ => false

/-- Sites are added, saved and switched, and every listener is asked for. -/
theorem ordinary_operations_are_followed :
    ∃ world, Run (operate [4443, 4444]) (Follows [4443, 4444]) (start .all allBind [awaiting])
        world ∧ world.sites.length = 2 ∧
      (∀ request ∈ getListenPorts .all world.sites, request ∈ world.proxy.bound) ∧
      world.ignored = [] := by
  have hruns : ∃ world, Run (operate [4443, 4444]) (Follows [4443, 4444])
      (start .all allBind [awaiting]) world ∧ (world.sites.length == 2) = true :=
    exists_run_of_exec (operate [4443, 4444]) (start .all allBind [awaiting])
      (fun world action => decide (Follows [4443, 4444] world action))
      [(.create (.ofPorts "blog" "80, 8080" "443") none false, allBind),
        (.acme "shop".toList true, allBind),
        (.update "blog".toList (.ofPorts "blog" "80" "443, 8443") none, allBind),
        (.toggle "shop".toList true, allBind), (.toggle "shop".toList true, allBind)]
      _ (fun _ _ => of_decide_eq_true) (by decide +kernel)
  obtain ⟨world, run, hlength⟩ := hruns
  have hfound : FoundElsewhere .all [awaiting] :=
    ⟨fun hread => Bool.noConfusion hread, fun hread => Bool.noConfusion hread,
      fun hread => Bool.noConfusion hread⟩
  exact ⟨world, run, eq_of_beq hlength,
    listeners_follow_the_tables (by decide) hfound run⟩

/-- After a restart nobody asks for the HTTPS port of the site; a certificate that
is then issued changes that in the tables only.  And a port that another program held
when it was first asked for is not tried again when the site is saved once more. -/
theorem a_port_stays_silent :
    (¬∀ guiPorts reads binds sites world, (sites.map (·.name)).Nodup →
      Run (operate guiPorts) anything (start reads binds sites) world →
        ∀ request ∈ getListenPorts .all world.sites, request ∈ world.proxy.bound) ∧
    ¬∀ guiPorts reads binds sites world, (sites.map (·.name)).Nodup →
      Run (operate guiPorts) anything (start reads binds sites) world → world.ignored = [] := by
  constructor
  · intro hclaim
    have hruns : ∃ world, Run (operate [4443, 4444]) anything (start .all allBind [awaiting])
        world ∧ decide (world.sites = [{ awaiting with hasCert := true }] ∧
          { port := 443, tls := true } ∉ world.proxy.bound) = true :=
      exists_run_of_exec (operate [4443, 4444]) (start .all allBind [awaiting])
        (fun _ _ => true) [(.acme "shop".toList true, allBind)]
        _ (fun _ _ _ => trivial) (by decide +kernel)
    obtain ⟨world, run, hworld⟩ := hruns
    obtain ⟨hsites, hsilent⟩ := of_decide_eq_true hworld
    apply hsilent
    apply hclaim [4443, 4444] .all allBind [awaiting] world (by decide) run
    rw [mem_getListenPorts_all, hsites]
    exact ⟨_, List.mem_singleton_self _, rfl, by decide⟩
  · intro hclaim
    have hruns : ∃ world, Run (operate [4443, 4444]) anything (start .all noneBinds [awaiting])
        world ∧ (!world.ignored.isEmpty) = true :=
      exists_run_of_exec (operate [4443, 4444]) (start .all noneBinds [awaiting])
        (fun _ _ => true) [(.update "shop".toList (.ofPorts "shop" "80" "443") none, allBind)]
        _ (fun _ _ _ => trivial) (by decide +kernel)
    obtain ⟨world, run, hignored⟩ := hruns
    rw [hclaim [4443, 4444] .all noneBinds [awaiting] world (by decide) run] at hignored
    contradiction

end Examples

end Runs

end EasyWaf.Ports
