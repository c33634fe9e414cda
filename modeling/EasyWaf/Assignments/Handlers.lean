import EasyWaf.Assignments.Tables
import EasyWaf.Core.Needs
import EasyWaf.Routes.SiteFields

/-!
# Saves, attachments and deletions

What writes the references of sites, and what deletes the policies and certificates
they refer to, each an order of queries and statements.  Every one of them may
fail.  A deletion looks for the sites that use what it deletes, and deletes in
another statement.

The checks of a form that read other tables, and the statements on other tables, are
one operation each; what comes of them is open.
-/

namespace EasyWaf.Assignments

open EasyWaf.Core EasyWaf.Core.Program EasyWaf.Routes

structure SiteForm where
  name : Option Text
  serverName : Text
  aliases : Option Text
  wafPolicyId : Option Text
  certId : Option Text
  acme : Bool
  deriving DecidableEq

/-- `parse_policy_id`, for certificates too. -/
def parsePolicyId (raw : Option Text) : Option ℤ :=
  (raw.filter (· ≠ [])).bind Text.parseInt64

/-- What the form asks for. -/
def SiteForm.asked (form : SiteForm) : Kind → Option ℤ
  | .policy => parsePolicyId form.wafPolicyId
  | .certificate => parsePolicyId form.certId

structure PolicyForm where
  name : Text
  attachSite : Text
  deriving DecidableEq

inductive Op
  | read
  /-- The checks of a form that read other tables. -/
  | check
  | managementCert
  | acmeConfigured
  /-- What the authority issues. -/
  | issue
  /-- Statements on other tables. -/
  | elsewhere
  | sitesUsing (kind : Kind) (name : Text)
  | insertSite (name serverName : Text) (form : SiteForm)
  | updateSite (name serverName : Text) (form : SiteForm)
  | deleteSite (name : Text)
  | assignCert (siteId certId : ℤ)
  | attach (policyId : ℤ) (siteName : Text)
  | insertPolicy (name : Text)
  | storeCert (name : Text)
  | delete (kind : Kind) (name : Text)
  deriving DecidableEq

/-- What an operation answers, where it does not fail. -/
def Op.Value : Op → Type
  | .read => Tables
  | .managementCert => Text
  | .sitesUsing .. => List Text
  | .insertSite .. | .insertPolicy .. => ℤ
  | _ => Unit

def Op.Answer (op : Op) : Type := Option op.Value

abbrev Handler := Program Op Op.Answer Unit

/-- An operation works or fails, and the setting of the management certificate is
what it is. -/
inductive Choice
  | works
  | fails
  | named (name : Text)
  deriving DecidableEq

/-- An `UPDATE sites SET … WHERE name = ?` of the settings. -/
def SiteForm.set (form : SiteForm) (name serverName : Text) (site : Site) : Site :=
  if site.name = name then
    { site with
      serverName, wafPolicyId := parsePolicyId form.wafPolicyId
      certId := parsePolicyId form.certId }
  else site

def setCert (siteId certId : ℤ) (site : Site) : Site :=
  if site.id = siteId then { site with certId := some certId } else site

def setPolicy (policyId : ℤ) (name : Text) (site : Site) : Site :=
  if site.name = name then { site with wafPolicyId := some policyId } else site

/-- What an operation that works does, unless a constraint of the tables fails it. -/
def Op.carryOut (op : Op) (tables : Tables) : Option (op.Value × Tables) :=
  match op with
  | .read => some (tables, tables)
  | .check | .acmeConfigured | .issue | .elsewhere => some ((), tables)
  | .managementCert => none
  | .sitesUsing kind name => some (tables.sitesUsing kind name, tables)
  | .insertSite name serverName form =>
      (tables.insertSite name serverName (form.asked .policy) (form.asked .certificate)).map
        fun after => (after.lastSite, after)
  | .updateSite name serverName form =>
      if tables.sites.any fun site => site.name != name && site.serverName == serverName then none
      else
        (tables.updateSites (form.set name serverName)
          fun site => by rw [SiteForm.set]; split <;> rfl).map ((), ·)
  | .deleteSite name => some ((), tables.deleteSite name)
  | .assignCert siteId certId =>
      (tables.updateSites (setCert siteId certId)
        fun site => by rw [setCert]; split <;> rfl).map ((), ·)
  | .attach policyId siteName =>
      (tables.updateSites (setPolicy policyId siteName)
        fun site => by rw [setPolicy]; split <;> rfl).map ((), ·)
  | .insertPolicy name =>
      if (tables.entry .policy name).isSome then none
      else
        let after := tables.insertEntry .policy name
        some (after.lastEntry .policy, after)
  | .storeCert name =>
      if (tables.entry .certificate name).isSome then some ((), tables)
      else some ((), tables.insertEntry .certificate name)
  | .delete kind name => some ((), tables.deleteEntry kind name)

/-- An operation as the world chooses. -/
def effect (op : Op) : Choice → Tables → Option (op.Answer × Tables)
  | .works, tables => some
      (match op.carryOut tables with
      | some (value, after) => (some value, after)
      | none => (none, tables))
  | .fails, tables => some (none, tables)
  | .named name, tables =>
      match op with
      | .managementCert => some (some name, tables)
      | _ => none

section Handlers

variable (libraries : Libraries)

/-- `post_site_delete`. -/
def postSiteDelete (name : Text) : Handler := do
  let _ ← perform (Op.deleteSite name)

/-- `issue_and_store`: the certificate that is issued, and its id. -/
def issueAndStore (name : Text) : Program Op Op.Answer (Option ℤ) := do
  let some _ ← perform Op.issue | pure none
  let some _ ← perform (Op.storeCert name) | pure none
  let some (tables : Tables) ← perform Op.read | pure none
  pure ((tables.entry .certificate name).map (·.id))

/-- `request_cert_for_new_site`, for the id the site was inserted with. -/
def requestCertForNewSite (siteId : ℤ) (serverName : Text) : Handler := do
  let some _ ← perform Op.acmeConfigured | pure ()
  let some certId ← issueAndStore serverName | pure ()
  let _ ← perform (Op.assignCert siteId certId)

/-- `post_site_create`. -/
def postSiteCreate (form : SiteForm) : Handler := do
  let name := (form.name.getD []).trim
  let serverName := normalizeServerName libraries form.serverName
  if name = [] ∨ serverName = [] ∨ !isHostname serverName then pure ()
  else
    let some (tables : Tables) ← perform Op.read | pure ()
    if tables.sites.any fun site => site.name == name || site.serverName == serverName then pure ()
    else
      match parseAliases libraries (form.aliases.getD []) serverName with
      | .ok _ => do
          let some _ ← perform Op.check | pure ()
          let some (siteId : ℤ) ← perform (Op.insertSite name serverName form) | pure ()
          let some _ ← perform Op.elsewhere | pure ()
          if form.acme then requestCertForNewSite siteId serverName
          else pure ()
      | .error _ => pure ()

/-- `post_site_update`. -/
def postSiteUpdate (name : Text) (form : SiteForm) : Handler := do
  let serverName := normalizeServerName libraries form.serverName
  if serverName = [] then pure ()
  else
    let some (tables : Tables) ← perform Op.read | pure ()
    match tables.site name with
    | some current =>
        if serverName ≠ current.serverName ∧ !isHostname serverName then pure ()
        else
          match parseAliases libraries (form.aliases.getD []) serverName with
          | .ok _ => do
              let some _ ← perform Op.check | pure ()
              let some _ ← perform (Op.updateSite name serverName form) | pure ()
              let _ ← perform Op.elsewhere
          | .error _ => pure ()
    | none => pure ()

/-- `post_site_acme`. -/
def postSiteAcme (name : Text) : Handler := do
  let some (tables : Tables) ← perform Op.read | pure ()
  match tables.site name with
  | some site => do
      let some _ ← perform Op.acmeConfigured | pure ()
      let some certId ← issueAndStore site.serverName | pure ()
      let _ ← perform (Op.assignCert site.id certId)
  | none => pure ()

/-- `post_https` of the tutorial. -/
def postHttps (site email : Text) : Handler := do
  let some (tables : Tables) ← perform Op.read | pure ()
  match tables.site site with
  | some site =>
      if '@' ∉ email.trim then pure ()
      else do
        let some _ ← perform Op.check | pure ()
        let some _ ← perform Op.elsewhere | pure ()
        let some certId ← issueAndStore site.serverName | pure ()
        let _ ← perform (Op.assignCert site.id certId)
  | none => pure ()

/-- The site a new policy is put on, where the form names one. -/
def attachTo (policyId : ℤ) (siteName : Text) : Program Op Op.Answer (Option Unit) := do
  if siteName = [] then pure (some ())
  else
    let some _ ← perform (Op.attach policyId siteName) | pure none
    pure (some ())

/-- `post_policy_create`: the policy, what is copied to it, the site it is put on,
and its lists. -/
def postPolicyCreate (form : PolicyForm) : Handler := do
  if form.name.trim = [] then pure ()
  else
    let some (tables : Tables) ← perform Op.read | pure ()
    if (tables.entry .policy form.name.trim).isSome then pure ()
    else
      let some (policyId : ℤ) ← perform (Op.insertPolicy form.name.trim) | pure ()
      let some _ ← perform Op.elsewhere | pure ()
      let some _ ← attachTo policyId form.attachSite.trim | pure ()
      let _ ← perform Op.elsewhere

/-- What the deletions share: refused where a site uses it. -/
def deleteUnused (kind : Kind) (name : Text) : Handler := do
  let some (inUse : List Text) ← perform (Op.sitesUsing kind name) | pure ()
  if inUse ≠ [] then pure ()
  else
    let _ ← perform (Op.delete kind name)

/-- `post_policy_delete`. -/
def postPolicyDelete (name : Text) : Handler := deleteUnused .policy name

/-- `post_cert_delete`. -/
def postCertDelete (name : Text) : Handler := do
  let some (management : Text) ← perform Op.managementCert | pure ()
  if name = management then pure ()
  else deleteUnused .certificate name

/-- `post_cert_create`. -/
def postCertCreate (name : Text) : Handler := do
  let some _ ← perform Op.check | pure ()
  let some _ ← perform Op.read | pure ()
  let _ ← perform (Op.storeCert name.trim)

/-- `post_cert_acme`, for the name the certificate is to have. -/
def postCertAcme (name : Text) : Handler := do
  let some _ ← perform Op.acmeConfigured | pure ()
  let _ ← issueAndStore name

/-- `renew_due`, for the certificates that are due. -/
def renewDue : List Text → Handler
  | [] => pure ()
  | name :: names => do
      let _ ← issueAndStore name
      let _ ← perform Op.elsewhere
      renewDue names

inductive Request
  | siteCreate (form : SiteForm)
  | siteUpdate (name : Text) (form : SiteForm)
  | siteDelete (name : Text)
  | siteAcme (name : Text)
  | https (site email : Text)
  | policyCreate (form : PolicyForm)
  | policyDelete (name : Text)
  | certCreate (name : Text)
  | certDelete (name : Text)
  | certAcme (name : Text)
  | renewals (names : List Text)

def program : Request → Handler
  | .siteCreate form => postSiteCreate libraries form
  | .siteUpdate name form => postSiteUpdate libraries name form
  | .siteDelete name => postSiteDelete name
  | .siteAcme name => postSiteAcme name
  | .https site email => postHttps site email
  | .policyCreate form => postPolicyCreate form
  | .policyDelete name => postPolicyDelete name
  | .certCreate name => postCertCreate name
  | .certDelete name => postCertDelete name
  | .certAcme name => postCertAcme name
  | .renewals names => renewDue names

end Handlers

end EasyWaf.Assignments
