import EasyWaf.Assignments.Handlers

/-!
# Sites keep what they were given

A site's policy and its certificate become unset by a save of that site that asks
for it, and by nothing else, in runs in which no site is given what a deletion has
found unused and is about to delete.  In such runs what is deleted is used by no
site.  Without the condition a deletion takes the policy from a site that was given
it in between, and nothing fails.
-/

namespace EasyWaf.Assignments

open EasyWaf.Core EasyWaf.Core.Program EasyWaf.Machine EasyWaf.Routes

variable {tables after : Tables} {kind : Kind} {name : Text} {op : Op}

/-! ## What an operation does to the references -/

/-- What an operation gives to sites. -/
def Op.gives : Op → Kind → Option ℤ
  | .insertSite _ _ form, kind | .updateSite _ _ form, kind => form.asked kind
  | .assignCert _ certId, .certificate => some certId
  | .attach policyId _, .policy => some policyId
  | _, _ => none

/-- What an operation that works does: the references there are afterwards were
there or are given by it, one that is no longer there was not asked for, and what
is gone was deleted. -/
structure Writes (op : Op) (tables after : Tables) : Prop where
  given : ∀ site' ∈ after.sites, ∀ kind id, site'.given kind = some id →
    (∃ site ∈ tables.sites, site.given kind = some id) ∨
      op.gives kind = some id ∧ after.entries = tables.entries
  entries : ∀ kind, ∀ entry ∈ after.entries kind,
    entry ∈ tables.entries kind ∨ tables.lastEntry kind < entry.id
  unset : ∀ kind, ∀ site ∈ tables.sites, ∀ site' ∈ after.sites, site'.id = site.id →
    site.given kind ≠ none → site'.given kind = none →
      (∃ serverName form, op = .updateSite site.name serverName form ∧ form.asked kind = none) ∨
        ∃ name, op = .delete kind name ∧ tables.Uses kind name site
  gone : ∀ kind, ∀ entry ∈ tables.entries kind, entry ∉ after.entries kind →
    op = .delete kind entry.name

theorem Tables.eq_of_id_eq {left right : Site} (hleft : left ∈ tables.sites)
    (hright : right ∈ tables.sites) (hid : left.id = right.id) : left = right :=
  List.inj_on_of_nodup_map (List.pairwise_map.mpr tables.sitesApart) hleft hright hid

/-- An operation that writes no site and no entry. -/
theorem Writes.refl (op : Op) (tables : Tables) : Writes op tables tables where
  given site hsite kind id hid := .inl ⟨site, hsite, hid⟩
  entries _ _ hentry := .inl hentry
  unset kind site hsite site' hsite' hid hgiven hnone := by
    obtain rfl := Tables.eq_of_id_eq hsite' hsite hid
    exact absurd hnone hgiven
  gone _ _ hentry hgone := absurd hentry hgone

theorem writes_insertEntry : Writes op tables (tables.insertEntry kind name) where
  given site hsite kind id hid := .inl ⟨site, hsite, hid⟩
  entries other entry hentry := by
    obtain hbefore | ⟨rfl, rfl⟩ := Tables.mem_entries_insertEntry.mp hentry
    · exact .inl hbefore
    · exact .inr (Int.lt_succ _)
  unset other site hsite site' hsite' hid hgiven hnone := by
    obtain rfl : site' = site := Tables.eq_of_id_eq hsite' hsite hid
    exact absurd hnone hgiven
  gone other entry hentry hgone :=
    absurd (Tables.mem_entries_insertEntry.mpr (.inl hentry)) hgone

theorem writes_deleteEntry : Writes (.delete kind name) tables (tables.deleteEntry kind name) where
  given := by
    simp only [Tables.sites_deleteEntry, List.forall_mem_map]
    intro site hsite other id hid
    refine .inl ⟨site, hsite, ?_⟩
    split at hid
    · by_cases hother : other = kind
      · subst hother
        simp at hid
      · rwa [Site.given_unset_of_ne _ hother] at hid
    · exact hid
  entries other entry hentry := .inl (Tables.mem_entries_deleteEntry.mp hentry).1
  unset := by
    simp only [Tables.sites_deleteEntry, List.forall_mem_map]
    intro other site hsite site₀ hsite₀ hid hgiven hnone
    have hsame : site₀ = site := by
      apply Tables.eq_of_id_eq hsite₀ hsite
      split at hid
      · rwa [Site.unset_id] at hid
      · exact hid
    subst hsame
    split at hnone
    · next huses =>
        by_cases hother : other = kind
        · subst hother
          exact .inr ⟨name, rfl, huses⟩
        · rw [Site.given_unset_of_ne _ hother] at hnone
          exact absurd hnone hgiven
    · exact absurd hnone hgiven
  gone other entry hentry hgone := by
    rw [Tables.mem_entries_deleteEntry, not_and, Classical.not_imp, not_not] at hgone
    obtain ⟨rfl, hname⟩ := hgone hentry
    rw [hname]

theorem writes_deleteSite : Writes op tables (tables.deleteSite name) where
  given site hsite kind id hid := .inl ⟨site, List.mem_of_mem_filter hsite, hid⟩
  entries _ _ hentry := .inl hentry
  unset kind site hsite site' hsite' hid hgiven hnone := by
    obtain rfl := Tables.eq_of_id_eq (List.mem_of_mem_filter hsite') hsite hid
    exact absurd hnone hgiven
  gone _ _ hentry hgone := absurd hentry hgone

theorem writes_insertSite {serverName : Text} {wafPolicyId certId : Option ℤ}
    (hpolicy : op.gives .policy = wafPolicyId) (hcert : op.gives .certificate = certId)
    (hinsert : tables.insertSite name serverName wafPolicyId certId = some after) :
    Writes op tables after := by
  rw [Tables.insertSite] at hinsert
  split at hinsert
  · split at hinsert
    · contradiction
    · obtain rfl := Option.some.inj hinsert
      constructor
      · simp only [List.mem_append, List.mem_singleton]
        rintro site (hsite | rfl) kind id hid
        · exact .inl ⟨site, hsite, hid⟩
        · refine .inr ⟨?_, trivial⟩
          cases kind
          · exact hpolicy.trans hid
          · exact hcert.trans hid
      · exact fun _ _ hentry => .inl hentry
      · simp only [List.mem_append, List.mem_singleton]
        rintro kind site hsite site' (hsite' | rfl) hid hgiven hnone
        · obtain rfl := Tables.eq_of_id_eq hsite' hsite hid
          exact absurd hnone hgiven
        · exact absurd hid ((tables.siteIds site hsite).trans_lt (Int.lt_succ _)).ne'
      · exact fun _ _ hentry hgone => absurd hentry hgone
  · contradiction

/-- An `UPDATE` that gives sites what the operation gives, and unsets what it is
asked to. -/
theorem writes_updateSites {set : Site → Site} {hid : ∀ site, (set site).id = site.id}
    (hset : ∀ site kind, (set site).given kind = site.given kind ∨
      (set site).given kind = op.gives kind ∧ (op.gives kind = none →
        ∃ serverName form, op = .updateSite site.name serverName form ∧ form.asked kind = none))
    (hupdate : tables.updateSites set hid = some after) : Writes op tables after := by
  rw [Tables.updateSites] at hupdate
  split at hupdate
  · obtain rfl := Option.some.inj hupdate
    constructor
    · simp only [List.forall_mem_map]
      intro site hsite kind id hsome
      obtain hsame | ⟨hgives, -⟩ := hset site kind
      · exact .inl ⟨site, hsite, hsame ▸ hsome⟩
      · exact .inr ⟨hgives ▸ hsome, trivial⟩
    · exact fun _ _ hentry => .inl hentry
    · simp only [List.forall_mem_map]
      intro kind site hsite site₀ hsite₀ hsame hgiven hnone
      obtain rfl := Tables.eq_of_id_eq hsite₀ hsite ((hid site₀).symm.trans hsame)
      obtain hkept | ⟨hgives, hasked⟩ := hset site₀ kind
      · exact absurd (hkept ▸ hnone) hgiven
      · exact .inl (hasked (hgives ▸ hnone))
    · exact fun _ _ hentry hgone => absurd hentry hgone
  · contradiction

theorem SiteForm.given_set (form : SiteForm) (name serverName : Text) (site : Site) (kind : Kind) :
    (form.set name serverName site).given kind = site.given kind ∨
      site.name = name ∧ (form.set name serverName site).given kind = form.asked kind := by
  rw [SiteForm.set]
  split
  · next hname =>
      refine .inr ⟨hname, ?_⟩
      cases kind <;> rfl
  · exact .inl rfl

theorem given_setCert (siteId certId : ℤ) (site : Site) (kind : Kind) :
    (setCert siteId certId site).given kind = site.given kind ∨
      kind = .certificate ∧ (setCert siteId certId site).given kind = some certId := by
  rw [setCert]
  split
  · cases kind
    · exact .inl rfl
    · exact .inr ⟨rfl, rfl⟩
  · exact .inl rfl

theorem given_setPolicy (policyId : ℤ) (name : Text) (site : Site) (kind : Kind) :
    (setPolicy policyId name site).given kind = site.given kind ∨
      kind = .policy ∧ (setPolicy policyId name site).given kind = some policyId := by
  rw [setPolicy]
  split
  · cases kind
    · exact .inr ⟨rfl, rfl⟩
    · exact .inl rfl
  · exact .inl rfl

theorem writes_of_carryOut {value : op.Value}
    (hcarry : op.carryOut tables = some (value, after)) : Writes op tables after := by
  cases op with
  | read | check | acmeConfigured | issue | elsewhere | sitesUsing =>
      obtain ⟨-, rfl⟩ := Prod.mk.inj (Option.some.inj hcarry)
      exact .refl _ _
  | managementCert => contradiction
  | insertSite name serverName form =>
      obtain ⟨inserted, hinsert, heq⟩ := Option.map_eq_some_iff.mp hcarry
      obtain ⟨-, rfl⟩ := Prod.mk.inj heq
      exact writes_insertSite rfl rfl hinsert
  | updateSite name serverName form =>
      simp only [Op.carryOut] at hcarry
      split at hcarry
      · contradiction
      · obtain ⟨updated, hupdate, heq⟩ := Option.map_eq_some_iff.mp hcarry
        obtain ⟨-, rfl⟩ := Prod.mk.inj heq
        apply writes_updateSites _ hupdate
        intro site kind
        obtain hsame | ⟨rfl, hasked⟩ := form.given_set name serverName site kind
        · exact .inl hsame
        · exact .inr ⟨hasked, fun hnone => ⟨serverName, form, rfl, hnone⟩⟩
  | deleteSite name =>
      obtain ⟨-, rfl⟩ := Prod.mk.inj (Option.some.inj hcarry)
      exact writes_deleteSite
  | assignCert siteId certId =>
      obtain ⟨updated, hupdate, heq⟩ := Option.map_eq_some_iff.mp hcarry
      obtain ⟨-, rfl⟩ := Prod.mk.inj heq
      apply writes_updateSites _ hupdate
      intro site kind
      obtain hsame | ⟨rfl, hgiven⟩ := given_setCert siteId certId site kind
      · exact .inl hsame
      · exact .inr ⟨hgiven, fun hnone => nomatch hnone⟩
  | attach policyId siteName =>
      obtain ⟨updated, hupdate, heq⟩ := Option.map_eq_some_iff.mp hcarry
      obtain ⟨-, rfl⟩ := Prod.mk.inj heq
      apply writes_updateSites _ hupdate
      intro site kind
      obtain hsame | ⟨rfl, hgiven⟩ := given_setPolicy policyId siteName site kind
      · exact .inl hsame
      · exact .inr ⟨hgiven, fun hnone => nomatch hnone⟩
  | insertPolicy name =>
      simp only [Op.carryOut] at hcarry
      split at hcarry
      · contradiction
      · obtain ⟨-, rfl⟩ := Prod.mk.inj (Option.some.inj hcarry)
        exact writes_insertEntry
  | storeCert name =>
      simp only [Op.carryOut] at hcarry
      split at hcarry
      · obtain ⟨-, rfl⟩ := Prod.mk.inj (Option.some.inj hcarry)
        exact .refl _ _
      · obtain ⟨-, rfl⟩ := Prod.mk.inj (Option.some.inj hcarry)
        exact writes_insertEntry
  | delete kind name =>
      obtain ⟨-, rfl⟩ := Prod.mk.inj (Option.some.inj hcarry)
      exact writes_deleteEntry

theorem writes_of_effect {choice : Choice} {answer : op.Answer}
    (heffect : effect op choice tables = some (answer, after)) :
    after = tables ∨ choice = .works ∧ Writes op tables after := by
  cases choice with
  | works =>
      simp only [effect, Option.some.injEq] at heffect
      split at heffect
      · next value after' hcarry =>
          obtain ⟨-, rfl⟩ := Prod.mk.inj heffect
          exact .inr ⟨rfl, writes_of_carryOut hcarry⟩
      · obtain ⟨-, rfl⟩ := Prod.mk.inj heffect
        exact .inl rfl
  | fails =>
      obtain ⟨-, rfl⟩ := Prod.mk.inj (Option.some.inj heffect)
      exact .inl rfl
  | named name =>
      cases op with
      | managementCert =>
          obtain ⟨-, rfl⟩ := Prod.mk.inj (Option.some.inj heffect)
          exact .inl rfl
      | _ => contradiction

/-! ## What a deletion relies on -/

/-- A deletion needs that no site uses what it deletes. -/
def Needs : Op → Tables → Prop
  | .delete kind name, tables => ∀ site ∈ tables.sites, ¬ tables.Uses kind name site
  | _, _ => True

/-- What no site uses is unused still, unless an operation gives it to one. -/
theorem unused_of_writes (hwrites : Writes op tables after)
    (hgives : ∀ entry ∈ tables.entries kind, op.gives kind = some entry.id → entry.name ≠ name)
    (hunused : ∀ site ∈ tables.sites, ¬ tables.Uses kind name site) :
    ∀ site ∈ after.sites, ¬ after.Uses kind name site := by
  rintro site' hsite' ⟨entry, hentry, hname, hgiven⟩
  obtain ⟨site, hsite, hbefore⟩ | ⟨hgave, hsame⟩ := hwrites.given site' hsite' kind entry.id hgiven
  · obtain ⟨held, hheld, hid⟩ := tables.references site hsite kind entry.id hbefore
    obtain hthere | hnew := hwrites.entries kind entry hentry
    · exact hunused site hsite ⟨entry, hthere, hname, hbefore⟩
    · exact absurd (tables.entryIds kind held hheld) (hid ▸ hnew).not_ge
  · rw [hsame] at hentry
    exact hgives entry hentry hgave hname

/-- No site is given what a deletion has found unused and has yet to delete. -/
def ApartFromDeletions (world : Together Op Op.Answer Unit Tables) : Move Request Choice → Prop
  | .advance index .works => ∀ op, (world.calls[index]?).bind nextOp = some op →
      ∀ kind, ∀ entry ∈ world.shared.entries kind, op.gives kind = some entry.id →
        ∀ call ∈ world.calls, call.nextOp ≠ some (.delete kind entry.name)
  | _ => True

theorem spares_of_apart {world : Together Op Op.Answer Unit Tables} {move : Move Request Choice}
    (hapart : ApartFromDeletions world move) : Spares effect Needs world move := by
  cases move with
  | start request => trivial
  | cut => trivial
  | advance index choice =>
      intro op goOn answer after hindex heffect other hother hready op' hop'
      have hneeds := hready op' hop'
      obtain rfl | ⟨rfl, hwrites⟩ := writes_of_effect heffect
      · exact hneeds
      · cases op' with
        | delete kind name =>
            apply unused_of_writes hwrites _ hneeds
            intro entry hentry hgives hname
            subst hname
            exact hapart op (by simp [hindex]) kind entry hentry hgives other hother hop'
        | _ => trivial

/-! ## Every handler looks before it deletes -/

section Careful

theorem careful_pure {Result : Type} (result : Result) :
    Careful effect Needs (pure result : Program Op Op.Answer Result) :=
  careful_done result

theorem careful_perform (op : Op) (hop : ∀ tables, Needs op tables) :
    Careful effect Needs (perform op : Program Op Op.Answer op.Answer) :=
  careful_call hop careful_done

/-- An operation that needs nothing, and what is done unless it fails. -/
theorem careful_bind {Result : Type} (op : Op) (hop : ∀ tables, Needs op tables)
    {goOn : op.Answer → Program Op Op.Answer Result}
    (hgoOn : ∀ answer, Careful effect Needs (goOn answer)) :
    Careful effect Needs (perform op >>= goOn) :=
  (careful_perform op hop).bind hgoOn

theorem careful_issueAndStore (name : Text) : Careful effect Needs (issueAndStore name) := by
  apply careful_bind .issue fun _ => trivial
  rintro (_ | _)
  · exact careful_pure _
  apply careful_bind (.storeCert name) fun _ => trivial
  rintro (_ | _)
  · exact careful_pure _
  apply careful_bind .read fun _ => trivial
  rintro (_ | _) <;> exact careful_pure _

/-- A certificate is issued and given to a site. -/
theorem careful_assignIssued (siteId : ℤ) (name : Text) :
    Careful effect Needs (do
      let some certId ← issueAndStore name | pure ()
      let _ ← perform (Op.assignCert siteId certId)) := by
  apply (careful_issueAndStore name).bind
  rintro (_ | _)
  · exact careful_pure _
  · exact careful_bind (.assignCert siteId _) (fun _ => trivial) fun _ => careful_pure _

theorem careful_requestCertForNewSite (siteId : ℤ) (name : Text) :
    Careful effect Needs (requestCertForNewSite siteId name) := by
  apply careful_bind .acmeConfigured fun _ => trivial
  rintro (_ | _)
  · exact careful_pure _
  · exact careful_assignIssued siteId name

variable (libraries : Libraries)

theorem careful_postSiteCreate (form : SiteForm) :
    Careful effect Needs (postSiteCreate libraries form) := by
  simp only [postSiteCreate]
  split
  · exact careful_pure _
  apply careful_bind .read fun _ => trivial
  rintro (_ | _)
  · exact careful_pure _
  dsimp only
  split
  · exact careful_pure _
  split
  · apply careful_bind .check fun _ => trivial
    rintro (_ | _)
    · exact careful_pure _
    apply careful_bind (.insertSite _ _ form) fun _ => trivial
    rintro (_ | _)
    · exact careful_pure _
    apply careful_bind .elsewhere fun _ => trivial
    rintro (_ | _)
    · exact careful_pure _
    dsimp only
    split
    · exact careful_requestCertForNewSite _ _
    · exact careful_pure _
  · exact careful_pure _

theorem careful_postSiteUpdate (name : Text) (form : SiteForm) :
    Careful effect Needs (postSiteUpdate libraries name form) := by
  simp only [postSiteUpdate]
  split
  · exact careful_pure _
  apply careful_bind .read fun _ => trivial
  rintro (_ | _)
  · exact careful_pure _
  dsimp only
  split
  · split
    · exact careful_pure _
    split
    · apply careful_bind .check fun _ => trivial
      rintro (_ | _)
      · exact careful_pure _
      apply careful_bind (.updateSite name _ form) fun _ => trivial
      rintro (_ | _)
      · exact careful_pure _
      · exact careful_bind .elsewhere (fun _ => trivial) fun _ => careful_pure _
    · exact careful_pure _
  · exact careful_pure _

theorem careful_postSiteAcme (name : Text) : Careful effect Needs (postSiteAcme name) := by
  apply careful_bind .read fun _ => trivial
  rintro (_ | _)
  · exact careful_pure _
  dsimp only
  split
  · apply careful_bind .acmeConfigured fun _ => trivial
    rintro (_ | _)
    · exact careful_pure _
    · exact careful_assignIssued _ _
  · exact careful_pure _

theorem careful_postHttps (site email : Text) : Careful effect Needs (postHttps site email) := by
  apply careful_bind .read fun _ => trivial
  rintro (_ | _)
  · exact careful_pure _
  dsimp only
  split
  · split
    · exact careful_pure _
    apply careful_bind .check fun _ => trivial
    rintro (_ | _)
    · exact careful_pure _
    apply careful_bind .elsewhere fun _ => trivial
    rintro (_ | _)
    · exact careful_pure _
    · exact careful_assignIssued _ _
  · exact careful_pure _

theorem careful_attachTo (policyId : ℤ) (siteName : Text) :
    Careful effect Needs (attachTo policyId siteName) := by
  rw [attachTo]
  split
  · exact careful_pure _
  apply careful_bind (.attach policyId siteName) fun _ => trivial
  rintro (_ | _) <;> exact careful_pure _

theorem careful_postPolicyCreate (form : PolicyForm) :
    Careful effect Needs (postPolicyCreate form) := by
  rw [postPolicyCreate]
  split
  · exact careful_pure _
  apply careful_bind .read fun _ => trivial
  rintro (_ | _)
  · exact careful_pure _
  dsimp only
  split
  · exact careful_pure _
  apply careful_bind (.insertPolicy _) fun _ => trivial
  rintro (_ | _)
  · exact careful_pure _
  apply careful_bind .elsewhere fun _ => trivial
  rintro (_ | _)
  · exact careful_pure _
  apply (careful_attachTo _ _).bind
  rintro (_ | _)
  · exact careful_pure _
  · exact careful_bind .elsewhere (fun _ => trivial) fun _ => careful_pure _

/-- A deletion is carried out right after no site was found to use what it deletes. -/
theorem careful_deleteUnused (kind : Kind) (name : Text) :
    Careful effect Needs (deleteUnused kind name) := by
  constructor
  · exact fun _ => ready_call.mpr trivial
  intro choice tables answer after heffect
  cases choice with
  | works =>
      obtain ⟨rfl, rfl⟩ := Prod.mk.inj (Option.some.inj heffect)
      simp only [Program.bind]
      split
      · exact ⟨(careful_pure ()).1 _, trivial⟩
      · next hunused =>
          rw [not_not] at hunused
          have hneeds : Needs (.delete kind name) tables := by
            intro site hsite huses
            have hmem : site.name ∈ tables.sitesUsing kind name :=
              List.mem_map_of_mem (List.mem_filter.mpr ⟨hsite, decide_eq_true huses⟩)
            simp [hunused] at hmem
          constructor
          · exact ready_call.mpr hneeds
          · exact fun _ _ _ _ _ => ⟨(careful_pure ()).1 _, trivial⟩
  | fails =>
      obtain ⟨rfl, rfl⟩ := Prod.mk.inj (Option.some.inj heffect)
      exact ⟨(careful_pure ()).1 _, trivial⟩
  | named other => contradiction

theorem careful_postCertDelete (name : Text) : Careful effect Needs (postCertDelete name) := by
  apply careful_bind .managementCert fun _ => trivial
  rintro (_ | _)
  · exact careful_pure _
  dsimp only
  split
  · exact careful_pure _
  · exact careful_deleteUnused _ _

theorem careful_postCertCreate (name : Text) : Careful effect Needs (postCertCreate name) := by
  apply careful_bind .check fun _ => trivial
  rintro (_ | _)
  · exact careful_pure _
  apply careful_bind .read fun _ => trivial
  rintro (_ | _)
  · exact careful_pure _
  · exact careful_bind (.storeCert _) (fun _ => trivial) fun _ => careful_pure _

theorem careful_postCertAcme (name : Text) : Careful effect Needs (postCertAcme name) := by
  apply careful_bind .acmeConfigured fun _ => trivial
  rintro (_ | _)
  · exact careful_pure _
  · exact (careful_issueAndStore name).bind fun _ => careful_pure _

theorem careful_renewDue (names : List Text) : Careful effect Needs (renewDue names) := by
  induction names with
  | nil => exact careful_pure _
  | cons name names ih =>
      rw [renewDue]
      apply (careful_issueAndStore name).bind
      intro _
      apply careful_bind .elsewhere fun _ => trivial
      exact fun _ => ih

theorem careful_program (request : Request) :
    Careful effect Needs (program libraries request) := by
  cases request with
  | siteCreate form => exact careful_postSiteCreate libraries form
  | siteUpdate name form => exact careful_postSiteUpdate libraries name form
  | siteDelete name => exact careful_bind (.deleteSite name) (fun _ => trivial) fun _ => careful_pure _
  | siteAcme name => exact careful_postSiteAcme name
  | https site email => exact careful_postHttps site email
  | policyCreate form => exact careful_postPolicyCreate form
  | policyDelete name => exact careful_deleteUnused .policy name
  | certCreate name => exact careful_postCertCreate name
  | certDelete name => exact careful_postCertDelete name
  | certAcme name => exact careful_postCertAcme name
  | renewals names => exact careful_renewDue names

end Careful

/-! ## Runs -/

variable {libraries : Libraries} {start world next : Together Op Op.Answer Unit Tables}
variable {move : Move Request Choice}

/-- The move is a save of the site that asks for it to have none. -/
def AskedFor (world : Together Op Op.Answer Unit Tables) (move : Move Request Choice)
    (site : Site) (kind : Kind) : Prop :=
  ∃ index choice serverName form, move = .advance index choice ∧
    (world.calls[index]?).bind nextOp = some (.updateSite site.name serverName form) ∧
      form.asked kind = none

/-- What is unset was asked to be, and what is gone was used by no site. -/
structure Kept (world next : Together Op Op.Answer Unit Tables) (move : Move Request Choice) :
    Prop where
  asked : ∀ kind, ∀ site ∈ world.shared.sites, ∀ site' ∈ next.shared.sites, site'.id = site.id →
    site.given kind ≠ none → site'.given kind = none → AskedFor world move site kind
  unused : ∀ kind, ∀ entry ∈ world.shared.entries kind, entry ∉ next.shared.entries kind →
    ∀ site ∈ world.shared.sites, site.given kind ≠ some entry.id

theorem kept_of_same (hsame : next.shared = world.shared) : Kept world next move where
  asked kind site hsite site' hsite' hid hgiven hnone := by
    rw [hsame] at hsite'
    obtain rfl := Tables.eq_of_id_eq hsite' hsite hid
    exact absurd hnone hgiven
  unused kind entry hentry hgone := absurd (hsame ▸ hentry) hgone

/-- Every step of a run keeps what sites were given, where no site is given what a
deletion is about to delete. -/
theorem assignments_kept (hnone : start.calls = [])
    (run : Run (interleave effect (program libraries) id []) ApartFromDeletions start world)
    (hmove : interleave effect (program libraries) id [] world move = some next) :
    Kept world next move := by
  have hready := ready_of_run run (fun _ _ => spares_of_apart) (careful_program libraries) hnone
  cases move with
  | start request =>
      obtain rfl := Option.some.inj hmove
      exact kept_of_same rfl
  | cut =>
      obtain rfl := Option.some.inj hmove
      exact kept_of_same rfl
  | advance index choice =>
      obtain ⟨op, goOn, answer, after, hindex, heffect, rfl⟩ := interleave_advance hmove
      have hneeds := ready_call.mp (hready _ (List.mem_of_getElem? hindex))
      obtain rfl | ⟨rfl, hwrites⟩ := writes_of_effect heffect
      · exact kept_of_same rfl
      constructor
      · intro kind site hsite site' hsite' hid hgiven hunset
        obtain ⟨serverName, form, rfl, hasked⟩ | ⟨name, rfl, huses⟩ :=
          hwrites.unset kind site hsite site' hsite' hid hgiven hunset
        · exact ⟨index, .works, serverName, form, rfl, by simp [hindex], hasked⟩
        · exact absurd huses (hneeds site hsite)
      · intro kind entry hentry hgone site hsite hgiven
        obtain rfl := hwrites.gone kind entry hentry hgone
        exact hneeds site hsite ⟨entry, hentry, rfl, hgiven⟩

section Shop

/-- A site that is not inspected yet, and a policy for it. -/
def shop : Tables where
  entries
    | .policy => [⟨1, "strict".toList⟩]
    | .certificate => []
  lastEntry
    | .policy => 1
    | .certificate => 0
  sites := [⟨1, "shop".toList, "shop.example".toList, none, none⟩]
  lastSite := 1
  entryIds := by rintro (_ | _) <;> simp
  siteIds := by simp
  sitesApart := by simp
  references := by
    simp only [List.mem_singleton, forall_eq]
    rintro (_ | _) id hid <;> contradiction

def shopWorld : Together Op Op.Answer Unit Tables where
  shared := shop
  calls := []

/-- The form that gives the site the policy. -/
def strictForm : SiteForm where
  name := none
  serverName := "shop.example".toList
  aliases := none
  wafPolicyId := some "1".toList
  certId := none
  acme := false

def apartFromDeletions (world : Together Op Op.Answer Unit Tables) : Move Request Choice → Bool
  | .advance index .works => ((world.calls[index]?).bind nextOp).all fun op =>
      decide (∀ kind, ∀ entry ∈ world.shared.entries kind, op.gives kind = some entry.id →
        ∀ call ∈ world.calls, call.nextOp ≠ some (.delete kind entry.name))
  | _ => true

theorem apart_of_apartFromDeletions (world : Together Op Op.Answer Unit Tables)
    (move : Move Request Choice) (hapart : apartFromDeletions world move = true) :
    ApartFromDeletions world move := by
  cases move with
  | start request => trivial
  | cut => trivial
  | advance index choice =>
      cases choice with
      | works =>
          intro op hop
          rw [apartFromDeletions, hop] at hapart
          exact of_decide_eq_true hapart
      | fails => trivial
      | named name => trivial

/-- The policy is deleted while no site has it. -/
theorem kept_of_deletion : ∃ world next,
    Run (interleave effect (program .plain) id []) ApartFromDeletions shopWorld world ∧
      interleave effect (program .plain) id [] world (.advance 0 .works) = some next ∧
      next.shared.entries .policy = [] ∧ Kept world next (.advance 0 .works) := by
  obtain ⟨world, run, hdeletes⟩ := exists_run_of_exec
    (interleave effect (program .plain) id []) shopWorld apartFromDeletions
    [.start (.policyDelete "strict".toList), .advance 0 .works]
    (fun world => (interleave effect (program .plain) id [] world (.advance 0 .works)).any fun next =>
      next.shared.entries .policy = [])
    apart_of_apartFromDeletions (by decide +kernel)
  obtain ⟨next, hmove, hnone⟩ := (Option.any_eq_true _ _).mp hdeletes
  exact ⟨world, next, run, hmove, of_decide_eq_true hnone, assignments_kept rfl run hmove⟩

/-- A policy that is deleted right after a site was given it is gone from the site. -/
theorem policy_taken : ¬ ∀ (libraries : Libraries)
    (start world next : Together Op Op.Answer Unit Tables) (move : Move Request Choice),
    start.calls = [] →
    Run (interleave effect (program libraries) id []) anything start world →
    interleave effect (program libraries) id [] world move = some next →
    Kept world next move := by
  intro hall
  obtain ⟨world, run, hgood⟩ := exists_run_of_exec
    (interleave effect (program .plain) id []) shopWorld (fun _ _ => true)
    [.start (.policyDelete "strict".toList), .start (.siteUpdate "shop".toList strictForm),
      .advance 0 .works, .advance 1 .works, .advance 1 .works, .advance 1 .works]
    (fun world => (world.calls[0]?).bind nextOp = some (.delete .policy "strict".toList) ∧
      world.shared.sites = [⟨1, "shop".toList, "shop.example".toList, some 1, none⟩] ∧
      (interleave effect (program .plain) id [] world (.advance 0 .works)).any fun next =>
        next.shared.sites = [⟨1, "shop".toList, "shop.example".toList, none, none⟩])
    (fun _ _ _ => trivial) (by decide +kernel)
  obtain ⟨hdelete, hgiven, hdeletes⟩ := of_decide_eq_true hgood
  obtain ⟨next, hmove, hunset⟩ := (Option.any_eq_true _ _).mp hdeletes
  have hkept := hall .plain shopWorld world next (.advance 0 .works) rfl run hmove
  have hasked := hkept.asked .policy ⟨1, "shop".toList, "shop.example".toList, some 1, none⟩
    (by rw [hgiven]; exact List.mem_singleton_self _)
    ⟨1, "shop".toList, "shop.example".toList, none, none⟩
    (by rw [of_decide_eq_true hunset]; exact List.mem_singleton_self _) rfl (by simp [Site.given]) rfl
  obtain ⟨index, choice, serverName, form, heq, hsave, -⟩ := hasked
  obtain ⟨rfl, rfl⟩ := Move.advance.inj heq
  cases hdelete.symm.trans hsave

end Shop

end EasyWaf.Assignments
