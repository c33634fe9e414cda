import EasyWaf.Tls.Handlers

/-!
# The map and the tables

Whether the map of certificates is what the tables give once everything that was
asked for has been answered.  A handler that writes what the map is built from
still has its rebuild before it, or the rebuild has read what the tables still
hold; a site's deletion and the assignment of a certificate that was issued have
neither.
-/

namespace EasyWaf.Tls

open EasyWaf.Core EasyWaf.Core.Program

variable {Key : Type}

/-- A query or a statement answered. -/
def worked : (op : Op Key) → Answer op → Bool
  | .read, answer => Option.isSome answer
  | .rows, answer => Option.isSome answer
  | .execute _, answer => Option.isSome answer
  | .storeCert _ _, answer => Option.isSome answer
  | .certId _, answer => Option.isSome answer
  | _, _ => true

/-- The rows are still to be read for a rebuild, unless something fails first. -/
def ReadsAhead {Result : Type} : Handler Key Result → Prop
  | .done _ => False
  | .call op next => op = .rows ∨ ∀ answer, worked op answer = true → ReadsAhead (next answer)

/-- The two writes no rebuild comes after. -/
def Statement.Unannounced : Statement → Prop
  | .deleteSite _ => True
  | .assignCert _ _ => True
  | _ => False

section Rules

variable (libraries : Libraries) (certificates : Certificates Key)
variable (arrange : List TlsRow → List TlsRow)

namespace Store

/-- A statement would leave what the map is built from as it is. -/
def Unmoved (store : Store Key) (statement : Statement) : Prop :=
  ∀ number tables, store.tables.execute statement = some (number, tables) →
    (store.carryOut tables statement).built libraries certificates arrange =
      store.built libraries certificates arrange

end Store

/-- What an operation may meet with: it does not fail in a handler that has its
rebuild before it, unless the map is current; a rebuild's map is stored while the
tables still give it; and a deletion of a site, or the assignment of a certificate,
leaves what the map is built from as it is. -/
def Permits (store : Store Key) : Handler Key Unit → Choice → Prop
  | .done _, _ => True
  | .call op next, choice =>
      (∀ answer after, effect arrange op choice store = some (answer, after) →
        worked op answer = false → ReadsAhead (.call op next) →
          store.Current libraries certificates arrange) ∧
      (∀ map, op = .store map → map = store.built libraries certificates arrange) ∧
      (∀ statement, op = .execute statement → statement.Unannounced →
        store.Unmoved libraries certificates arrange statement)

/-- The map will be what the tables give: the rows are still to be read, or what was
read of them is what they still hold. -/
def Owes (call : Handler Key Unit) (store : Store Key) : Prop :=
  ReadsAhead call ∨ ∃ next, call = .call (.store (store.built libraries certificates arrange)) next

/-- What comes after an operation is as it should be. -/
def Follows {Result : Type} : (op : Op Key) → (Answer op → Handler Key Result) → Prop
  | .rows, next => ∀ rows, ∃ goOn,
      next (some rows) = .call (.store (certificateMap libraries certificates.certifiedKey rows)) goOn
  | .execute statement, next => statement.Unannounced ∨
      ∀ tables number after, tables.execute statement = some (number, after) →
        build libraries certificates.certifiedKey arrange after =
          build libraries certificates.certifiedKey arrange tables ∨
        ReadsAhead (next (some number))
  | .storeCert _ _, next => ReadsAhead (next (some ()))
  | _, _ => True

/-- A program that rebuilds the map after what it writes. -/
def Rebuilds {Result : Type} : Handler Key Result → Prop
  | .done _ => True
  | .call op next => Follows libraries certificates arrange op next ∧
      ∀ answer, Rebuilds (next answer)

variable {libraries} {certificates} {arrange}
variable {Result Result' : Type}

theorem ReadsAhead.bind {first : Handler Key Result} {second : Result → Handler Key Result'}
    (hfirst : ReadsAhead first) : ReadsAhead (first >>= second) := by
  induction first with
  | done result => exact hfirst.elim
  | call op next ih =>
      exact hfirst.imp id fun hnext answer hworked => ih answer (hnext answer hworked)

theorem Rebuilds.bind {first : Handler Key Result} {second : Result → Handler Key Result'}
    (hfirst : Rebuilds libraries certificates arrange first)
    (hsecond : ∀ result, Rebuilds libraries certificates arrange (second result)) :
    Rebuilds libraries certificates arrange (first >>= second) := by
  induction first with
  | done result => exact hsecond result
  | call op next ih =>
      refine ⟨?_, fun answer => ih answer (hfirst.2 answer)⟩
      have hfollows := hfirst.1
      cases op with
      | rows =>
          intro rows
          obtain ⟨goOn, heq⟩ := hfollows rows
          exact ⟨fun answer => (goOn answer).bind second,
            congrArg (fun program => program.bind second) heq⟩
      | execute statement =>
          apply hfollows.imp id
          intro hmoves tables number after hexecute
          exact (hmoves tables number after hexecute).imp id ReadsAhead.bind
      | storeCert source certificate => exact ReadsAhead.bind hfollows
      | _ => trivial

@[simp]
theorem readsAhead_perform_bind {op : Op Key} {next : Answer op → Handler Key Result} :
    ReadsAhead (perform op >>= next) ↔
      op = .rows ∨ ∀ answer, worked op answer = true → ReadsAhead (next answer) :=
  Iff.rfl

@[simp]
theorem rebuilds_perform_bind {op : Op Key} {next : Answer op → Handler Key Result} :
    Rebuilds libraries certificates arrange (perform op >>= next) ↔
      Follows libraries certificates arrange op next ∧
        ∀ answer, Rebuilds libraries certificates arrange (next answer) :=
  Iff.rfl

@[simp]
theorem rebuilds_pure (result : Result) :
    Rebuilds libraries certificates arrange (pure result : Handler Key Result) :=
  trivial

theorem readsAhead_reload : ReadsAhead (reload libraries certificates) := .inl rfl

theorem rebuilds_reload : Rebuilds libraries certificates arrange (reload libraries certificates) := by
  refine ⟨fun rows => ⟨_, rfl⟩, ?_⟩
  rintro (_ | rows)
  · trivial
  · exact ⟨trivial, fun _ => trivial⟩

/-- What follows a rebuild is free. -/
theorem rebuilds_reload_bind {next : Bool → Handler Key Result}
    (hnext : ∀ rebuilt, Rebuilds libraries certificates arrange (next rebuilt)) :
    Rebuilds libraries certificates arrange (reload libraries certificates >>= next) :=
  rebuilds_reload.bind hnext

theorem readsAhead_reload_bind {next : Bool → Handler Key Result} :
    ReadsAhead (reload libraries certificates >>= next) :=
  readsAhead_reload.bind

/-! ## The handlers -/

theorem rebuilds_issueAndStore (source : Source) (domains : List Text) (name : Text) :
    Rebuilds libraries certificates arrange
      (issueAndStore libraries certificates source domains name) := by
  refine rebuilds_perform_bind.mpr ⟨trivial, ?_⟩
  rintro (_ | ⟨certPem, keyPem⟩)
  · trivial
  refine rebuilds_perform_bind.mpr ⟨?_, ?_⟩
  · rw [Follows, readsAhead_perform_bind]
    right
    rintro (_ | id) hworked
    · contradiction
    · exact readsAhead_reload_bind
  · rintro (_ | _)
    · trivial
    refine rebuilds_perform_bind.mpr ⟨trivial, ?_⟩
    rintro (_ | id)
    · trivial
    · exact rebuilds_reload_bind fun _ => trivial

theorem rebuilds_postCertCreate (form : CertForm) :
    Rebuilds libraries certificates arrange (postCertCreate libraries certificates form) := by
  rw [postCertCreate]
  split
  · trivial
  refine rebuilds_perform_bind.mpr ⟨trivial, ?_⟩
  rintro (_ | tables)
  · trivial
  refine rebuilds_perform_bind.mpr ⟨readsAhead_reload_bind, ?_⟩
  rintro (_ | _)
  · trivial
  · exact rebuilds_reload_bind fun _ => trivial

/-- Nothing deleted is nothing changed. -/
theorem deleteCert_of_countP_eq_zero {tables : Tables} {name : Text}
    (hnone : tables.certs.countP (·.name = name) = 0) : tables.deleteCert name = tables := by
  have hname : ∀ row ∈ tables.certs, row.name ≠ name := by
    simpa [List.countP_eq_zero] using hnone
  have hsites (site : Site) : ¬ ∃ row ∈ tables.certs, row.name = name ∧ site.certId = some row.id :=
    fun ⟨row, hrow, heq, _⟩ => hname row hrow heq
  have hcerts : tables.certs.filter (·.name ≠ name) = tables.certs :=
    List.filter_eq_self.mpr fun row hrow => by simpa using hname row hrow
  simp only [Tables.deleteCert, hsites, if_false, hcerts, List.map_id']

theorem rebuilds_postCertDelete (name : Text) :
    Rebuilds libraries certificates arrange (postCertDelete libraries certificates name) := by
  refine rebuilds_perform_bind.mpr ⟨trivial, fun management => ?_⟩
  split
  · trivial
  refine rebuilds_perform_bind.mpr ⟨trivial, ?_⟩
  rintro (_ | tables)
  · trivial
  dsimp only
  split
  · trivial
  refine rebuilds_perform_bind.mpr ⟨.inr ?_, ?_⟩
  · intro tables number after hexecute
    obtain ⟨rfl, rfl⟩ := Prod.mk.inj (Option.some.inj hexecute)
    by_cases hcount : tables.certs.countP (·.name = name) = 0
    · left
      rw [deleteCert_of_countP_eq_zero hcount]
    · right
      dsimp only
      rw [if_neg (Int.natCast_ne_zero.mpr hcount)]
      exact readsAhead_reload_bind
  · rintro (_ | deleted)
    · trivial
    dsimp only
    split
    · trivial
    · exact rebuilds_reload_bind fun _ => trivial

theorem rebuilds_postCertAcme (form : AcmeForm) :
    Rebuilds libraries certificates arrange (postCertAcme libraries certificates form) := by
  rw [postCertAcme]
  split
  · trivial
  refine rebuilds_perform_bind.mpr ⟨trivial, ?_⟩
  rintro (_ | _ | _)
  · trivial
  · trivial
  · exact (rebuilds_issueAndStore _ _ _).bind fun _ => trivial

/-- A statement that leaves what the map is built from as it is may come anywhere. -/
theorem rebuilds_execute_bind {statement : Statement} {next : Option ℤ → Handler Key Result}
    (hunmoved : ∀ tables number after, tables.execute statement = some (number, after) →
      build libraries certificates.certifiedKey arrange after =
        build libraries certificates.certifiedKey arrange tables)
    (hnext : ∀ answer, Rebuilds libraries certificates arrange (next answer)) :
    Rebuilds libraries certificates arrange (execute statement >>= next) :=
  ⟨.inr fun tables number after hexecute => .inl (hunmoved tables number after hexecute), hnext⟩

theorem execute_elsewhere {tables after : Tables} {number : ℤ}
    (hexecute : tables.execute .elsewhere = some (number, after)) : after = tables :=
  (Prod.mk.inj (Option.some.inj hexecute)).2.symm

/-- What becomes of a renewal is not what the map is built from. -/
theorem build_recordAttempt (tables : Tables) (name : Text) (nextAttempt : Option Text)
    (failures : ℤ) :
    build libraries certificates.certifiedKey arrange
        (tables.recordAttempt name nextAttempt failures) =
      build libraries certificates.certifiedKey arrange tables := by
  have hcerts : (tables.recordAttempt name nextAttempt failures).certs.map (·.toCert) =
      tables.certs.map (·.toCert) := by
    rw [Tables.recordAttempt, List.map_map]
    apply List.map_congr_left
    intro row _
    simp only [Function.comp]
    split <;> rfl
  simp only [build, hcerts]
  rfl

theorem rebuilds_elsewhere_bind {next : Option ℤ → Handler Key Result}
    (hnext : ∀ answer, Rebuilds libraries certificates arrange (next answer)) :
    Rebuilds libraries certificates arrange (execute .elsewhere >>= next) :=
  rebuilds_execute_bind (fun _ _ _ hexecute => by rw [execute_elsewhere hexecute]) hnext

/-- A statement that is announced by what comes after it. -/
theorem rebuilds_announced_bind {statement : Statement} {next : Option ℤ → Handler Key Result}
    (hahead : ∀ number, ReadsAhead (next (some number)))
    (hnext : ∀ answer, Rebuilds libraries certificates arrange (next answer)) :
    Rebuilds libraries certificates arrange (execute statement >>= next) :=
  ⟨.inr fun _ number _ _ => .inr (hahead number), hnext⟩

theorem readsAhead_execute_bind {statement : Statement} {next : Option ℤ → Handler Key Result}
    (hnext : ∀ number, ReadsAhead (next (some number))) :
    ReadsAhead (execute statement >>= next) := by
  right
  rintro (_ | number) hworked
  · contradiction
  · exact hnext number

theorem rebuilds_aliasConflict (exclude : ℤ) (names : List Text) :
    Rebuilds libraries certificates arrange (aliasConflict exclude names : Handler Key Bool) := by
  induction names with
  | nil => trivial
  | cons own rest ih =>
      refine rebuilds_perform_bind.mpr ⟨trivial, ?_⟩
      rintro (_ | tables)
      · trivial
      dsimp only
      split
      · trivial
      refine rebuilds_perform_bind.mpr ⟨trivial, ?_⟩
      rintro (_ | tables)
      · trivial
      dsimp only
      split
      · trivial
      · exact ih

theorem rebuilds_refuses (form : SiteForm) (exclude : ℤ) (acme : Bool) (aliases : List Text) :
    Rebuilds libraries certificates arrange (refuses form exclude acme aliases : Handler Key Bool) := by
  refine (rebuilds_aliasConflict exclude aliases).bind fun clash => ?_
  split
  · trivial
  rw [httpsWithoutCertificate]
  split
  · trivial
  · exact rebuilds_perform_bind.mpr ⟨trivial, fun _ => trivial⟩

theorem rebuilds_requestCertForNewSite (siteId : ℤ) (serverName : Text) (aliases : List Text) :
    Rebuilds libraries certificates arrange
      (requestCertForNewSite libraries certificates siteId serverName aliases) := by
  refine rebuilds_perform_bind.mpr ⟨trivial, ?_⟩
  rintro (_ | _ | _)
  · trivial
  · trivial
  refine (rebuilds_issueAndStore _ _ _).bind ?_
  rintro (_ | certId)
  · trivial
  · exact ⟨.inl trivial, fun _ => trivial⟩

theorem readsAhead_finishCreate (form : SiteForm) (siteId : ℤ) (serverName : Text)
    (aliases : List Text) :
    ReadsAhead (finishCreate libraries certificates form siteId serverName aliases) := by
  apply readsAhead_execute_bind
  intro pool
  apply readsAhead_execute_bind
  intro extraPorts
  apply readsAhead_execute_bind
  intro saved
  apply readsAhead_execute_bind
  intro rateLimit
  apply readsAhead_execute_bind
  intro signIn
  exact readsAhead_reload_bind

theorem rebuilds_finishCreate (form : SiteForm) (siteId : ℤ) (serverName : Text)
    (aliases : List Text) :
    Rebuilds libraries certificates arrange
      (finishCreate libraries certificates form siteId serverName aliases) := by
  apply rebuilds_elsewhere_bind
  rintro (_ | pool)
  · trivial
  apply rebuilds_elsewhere_bind
  rintro (_ | extraPorts)
  · trivial
  apply rebuilds_announced_bind
  · intro saved
    apply readsAhead_execute_bind
    intro rateLimit
    apply readsAhead_execute_bind
    intro signIn
    exact readsAhead_reload_bind
  rintro (_ | saved)
  · trivial
  apply rebuilds_elsewhere_bind
  rintro (_ | rateLimit)
  · trivial
  apply rebuilds_elsewhere_bind
  rintro (_ | signIn)
  · trivial
  apply rebuilds_reload_bind
  intro rebuilt
  split
  · exact rebuilds_requestCertForNewSite siteId serverName aliases
  · trivial

theorem rebuilds_postSiteCreate (form : SiteForm) :
    Rebuilds libraries certificates arrange (postSiteCreate libraries certificates form) := by
  rw [postSiteCreate]
  split
  · trivial
  refine rebuilds_perform_bind.mpr ⟨trivial, ?_⟩
  rintro (_ | tables)
  · trivial
  dsimp only
  split
  · trivial
  split
  · refine (rebuilds_refuses _ _ _ _).bind fun refused => ?_
    split
    · trivial
    apply rebuilds_announced_bind
    · exact fun siteId => readsAhead_finishCreate form siteId _ _
    · rintro (_ | siteId)
      · trivial
      · exact rebuilds_finishCreate form siteId _ _
  · trivial

theorem readsAhead_finishUpdate (siteId : ℤ) (aliases : List Text) :
    ReadsAhead (finishUpdate libraries certificates siteId aliases) := by
  apply readsAhead_execute_bind
  intro pool
  apply readsAhead_execute_bind
  intro extraPorts
  apply readsAhead_execute_bind
  intro saved
  apply readsAhead_execute_bind
  intro rateLimit
  exact readsAhead_reload_bind

theorem rebuilds_finishUpdate (siteId : ℤ) (aliases : List Text) :
    Rebuilds libraries certificates arrange
      (finishUpdate libraries certificates siteId aliases) := by
  apply rebuilds_elsewhere_bind
  rintro (_ | pool)
  · trivial
  apply rebuilds_elsewhere_bind
  rintro (_ | extraPorts)
  · trivial
  apply rebuilds_announced_bind
  · intro saved
    apply readsAhead_execute_bind
    intro rateLimit
    exact readsAhead_reload_bind
  rintro (_ | saved)
  · trivial
  apply rebuilds_elsewhere_bind
  rintro (_ | rateLimit)
  · trivial
  apply rebuilds_reload_bind
  intro rebuilt
  exact rebuilds_elsewhere_bind fun _ => trivial

theorem rebuilds_postSiteUpdate (name : Text) (form : SiteForm) :
    Rebuilds libraries certificates arrange (postSiteUpdate libraries certificates name form) := by
  rw [postSiteUpdate]
  split
  · trivial
  refine rebuilds_perform_bind.mpr ⟨trivial, ?_⟩
  rintro (_ | tables)
  · trivial
  dsimp only
  split
  · split
    · trivial
    split
    · refine (rebuilds_refuses _ _ _ _).bind fun refused => ?_
      split
      · trivial
      apply rebuilds_announced_bind
      · exact fun _ => readsAhead_finishUpdate _ _
      · rintro (_ | written)
        · trivial
        · exact rebuilds_finishUpdate _ _
    · trivial
  · trivial

theorem rebuilds_postSiteToggle (name : Text) :
    Rebuilds libraries certificates arrange (postSiteToggle libraries certificates name) := by
  refine rebuilds_perform_bind.mpr ⟨trivial, ?_⟩
  rintro (_ | tables)
  · trivial
  dsimp only
  split
  · next site _ =>
      cases site.enabled with
      | true =>
          apply rebuilds_announced_bind
          · exact fun _ => readsAhead_reload_bind
          · rintro (_ | written)
            · trivial
            · exact rebuilds_reload_bind fun _ => trivial
      | false =>
          apply rebuilds_announced_bind
          · exact fun _ => .inr fun _ _ => readsAhead_reload_bind
          · rintro (_ | written)
            · trivial
            · exact ⟨trivial, fun _ => rebuilds_reload_bind fun _ => trivial⟩
  · trivial

theorem rebuilds_postSiteAcme (name : Text) :
    Rebuilds libraries certificates arrange (postSiteAcme libraries certificates name) := by
  refine rebuilds_perform_bind.mpr ⟨trivial, ?_⟩
  rintro (_ | tables)
  · trivial
  dsimp only
  split
  · refine rebuilds_perform_bind.mpr ⟨trivial, ?_⟩
    rintro (_ | _ | _)
    · trivial
    · trivial
    refine rebuilds_perform_bind.mpr ⟨trivial, fun tables => ?_⟩
    refine (rebuilds_issueAndStore _ _ _).bind ?_
    rintro (_ | certId)
    · trivial
    · exact ⟨.inl trivial, fun _ => trivial⟩
  · trivial

theorem rebuilds_recordAttempt (name : Text) (nextAttempt : Option Text) (failures : ℤ) :
    Rebuilds libraries certificates arrange (do
      let _ ← (execute (.recordAttempt name nextAttempt failures) : Handler Key (Option ℤ))) := by
  apply rebuilds_execute_bind
  · intro tables number after hexecute
    obtain ⟨-, rfl⟩ := Prod.mk.inj (Option.some.inj hexecute)
    exact build_recordAttempt tables name nextAttempt failures
  · exact fun _ => trivial

theorem rebuilds_renew (now : ℤ) (row : CertRow) :
    Rebuilds libraries certificates arrange (renew libraries certificates now row) := by
  rw [renew]
  split
  · refine (rebuilds_issueAndStore _ _ _).bind ?_
    rintro (_ | id)
    · exact rebuilds_recordAttempt _ _ _
    · exact rebuilds_recordAttempt _ _ _
  · trivial

theorem rebuilds_renewEach (now : ℤ) (rows : List CertRow) :
    Rebuilds libraries certificates arrange (renewEach libraries certificates now rows) := by
  induction rows with
  | nil => trivial
  | cons row rows ih => exact (rebuilds_renew now row).bind fun _ => ih

theorem rebuilds_renewDue :
    Rebuilds libraries certificates arrange (renewDue libraries certificates) := by
  refine rebuilds_perform_bind.mpr ⟨trivial, fun here => ?_⟩
  split
  · refine rebuilds_perform_bind.mpr ⟨trivial, ?_⟩
    rintro (_ | tables)
    · trivial
    · exact ⟨trivial, fun now => rebuilds_renewEach now _⟩
  · trivial

/-- Every handler rebuilds the map after what it writes, but for the two writes. -/
theorem rebuilds_program (request : Request) :
    Rebuilds libraries certificates arrange (program libraries certificates request) := by
  cases request with
  | siteCreate form => exact rebuilds_postSiteCreate form
  | siteUpdate name form => exact rebuilds_postSiteUpdate name form
  | siteToggle name => exact rebuilds_postSiteToggle name
  | siteDelete name => exact ⟨.inl trivial, fun _ => trivial⟩
  | siteAcme name => exact rebuilds_postSiteAcme name
  | certCreate form => exact rebuilds_postCertCreate form
  | certDelete name => exact rebuilds_postCertDelete name
  | certAcme form => exact rebuilds_postCertAcme form
  | renewals => exact rebuilds_renewDue

end Rules

end EasyWaf.Tls
