import EasyWaf.Core.Machine
import EasyWaf.Gateway.RealmHistory
import EasyWaf.Gateway.Session
import EasyWaf.Proxy.SiteTable

/-!
# Sessions that were ended

A cookie carries the epochs of its realm and its account, and one minted again
from it the same two.  Signing everybody out, or deleting the realm, ends every
session of the realm for good.  What takes an account from a visitor ends the
account's, for as long as nothing adds the account again or makes a directory of
its realm.  However often it is renewed, no session outlives the time from its
sign-in.
-/

namespace EasyWaf.Gateway

open EasyWaf.Core Db Import Machine Proxy Routes Signature Text

/-- `check_password`: who a name and a password prove a visitor to be, and their
account's epoch. `verify` compares a password with a hash, and `ask` is what a
directory answers. -/
def checkPassword (verify : Text → Text → Bool)
    (ask : LdapConfig → Text → Text → Option Identity) (realm : Realm)
    (username password : Text) : Option (Identity × ℤ) :=
  if username = [] ∨ password = [] then none
  else
    match realm.kind with
    | .localAccounts =>
        match realm.users username with
        | some user =>
            if verify password user.passwordHash && user.enabled then
              some ({ subject := username, groups := [] }, user.epoch)
            else none
        | none => none
    | .ldap config => (ask config username password).map fun who => (who, 0)

section Cookies

variable (hmac : KeyedHash) (secret : Text) (siteId : ℤ)

/-- The cookies that came of one, each minted again for a request that found the
one before it due, with the realm as that request had it. -/
inductive Renewed (cookie : Text) : Text → Prop
  | refl : Renewed cookie cookie
  | again {held : Text} {realm : Realm} {now later : ℤ} {session : Session}
      (before : Renewed cookie held) (hread : read hmac secret siteId realm held now = some session)
      (hrefresh : session.refresh = true) :
      Renewed cookie
        (mint hmac secret siteId realm session.who session.userEpoch session.issued later)

/-- Fields as a cookie carries them. -/
def Fields.cookie (fields : Fields) : Text := fields.body ++ '.' :: sign hmac secret siteId fields.body

/-- What a cookie says but for when it was last seen and the groups. -/
structure Fields.SameSession (fields fields' : Fields) : Prop where
  realmId : fields'.realmId = fields.realmId
  subject : fields'.subject = fields.subject
  issued : fields'.issued = fields.issued
  realmEpoch : fields'.realmEpoch = fields.realmEpoch
  userEpoch : fields'.userEpoch = fields.userEpoch

variable {hmac secret siteId} {fields : Fields} {realm : Realm} {now : ℤ} {session : Session}

theorem read_cookie
    (hread : read hmac secret siteId realm (fields.cookie hmac secret siteId) now = some session) :
    realm.honours fields now = true ∧ fields.session now = session := by
  obtain ⟨body, fields', hcookie, hparse, hhonours, hsession⟩ := read_eq_some_iff.mp hread
  have hdot (body : Text) : '.' ∉ sign hmac secret siteId body := dot_notMem_hex _
  have hsplit := congrArg (rsplitOnce '.') hcookie
  rw [Fields.cookie, rsplitOnce_append (hdot _), rsplitOnce_append (hdot _)] at hsplit
  obtain ⟨rfl, _⟩ := Prod.mk.inj (Option.some.inj hsplit)
  obtain rfl := eq_of_parseBody_body hparse
  exact ⟨hhonours, hsession⟩

theorem honours_iff : realm.honours fields now = true ↔
    fields.realmId = realm.id ∧ fields.realmEpoch = realm.epoch ∧ realm.holds fields = true ∧
      realm.inTime fields now = true := by
  simp only [Realm.honours, Bool.and_eq_true, beq_iff_eq, and_assoc]

/-- A cookie minted again says what the one before it said. -/
theorem exists_of_renewed {cookie : Text}
    (hrenewed : Renewed hmac secret siteId (fields.cookie hmac secret siteId) cookie) :
    ∃ fields', cookie = fields'.cookie hmac secret siteId ∧ fields.SameSession fields' := by
  induction hrenewed with
  | refl => exact ⟨fields, rfl, rfl, rfl, rfl, rfl, rfl⟩
  | again _ hread _ ih =>
      obtain ⟨held, rfl, hsame⟩ := ih
      obtain ⟨hhonours, rfl⟩ := read_cookie hread
      obtain ⟨hrealm, hepoch, _⟩ := honours_iff.mp hhonours
      exact ⟨_, rfl, hrealm.symm.trans hsame.realmId, hsame.subject, hsame.issued,
        hepoch.symm.trans hsame.realmEpoch, hsame.userEpoch⟩

/-- A session is over when the time from its sign-in is. -/
theorem lt_of_read_renewed {cookie : Text}
    (hrenewed : Renewed hmac secret siteId (fields.cookie hmac secret siteId) cookie)
    (hread : read hmac secret siteId realm cookie now = some session) :
    now < fields.issued + realm.session := by
  obtain ⟨fields', rfl, hsame⟩ := exists_of_renewed hrenewed
  obtain ⟨_, _, _, htime⟩ := honours_iff.mp (read_cookie hread).1
  simp only [Realm.inTime, Bool.and_eq_true, Bool.not_eq_true', Bool.or_eq_false_iff,
    decide_eq_false_iff_not, not_le] at htime
  exact hsame.issued ▸ htime.2.1

end Cookies

/-- The realm is gone or its epoch past the cookie's. -/
structure RealmEnded (realmId epoch : ℤ) (tables : RealmTables) : Prop where
  known : realmId ≤ tables.lastId
  epoch : ∀ row ∈ tables.realms, row.id = realmId → epoch < row.epoch

/-- The realm is gone, or keeps accounts of its own, with none of the name whose
epoch is not past the cookie's. -/
structure AccountEnded (realmId : ℤ) (subject : Text) (epoch : ℤ) (tables : RealmTables) :
    Prop where
  known : realmId ≤ tables.lastId
  kind : ∀ row ∈ tables.realms, row.id = realmId → row.kind ≠ "ldap".toList
  epoch : ∀ row ∈ tables.realms, row.id = realmId → ∀ user ∈ tables.users,
    user.realmId = realmId → user.username = subject → epoch < user.epoch

section Ended

variable {realmId epoch : ℤ} {subject : Text} {tables next : RealmTables}

theorem RealmEnded.onward (hended : RealmEnded realmId epoch tables)
    (hon : RealmsOnward realmId tables next) : RealmEnded realmId epoch next where
  known := hended.known.trans hon.lastId
  epoch := by
    intro row' hrow' hid'
    obtain ⟨row, hrow, hid, _, hle⟩ := hon.realms row' hrow' hid'
    exact (hended.epoch row hrow hid).trans_le hle

theorem AccountEnded.onward (hended : AccountEnded realmId subject epoch tables)
    (hon : RealmsOnward realmId tables next) (hkinds : KindsOnward realmId tables next)
    (husers : UsersOnward realmId subject tables next) :
    AccountEnded realmId subject epoch next where
  known := hended.known.trans hon.lastId
  kind := by
    intro row' hrow' hid' hkind'
    obtain ⟨row, hrow, hid, hkind⟩ := hkinds row' hrow' hid' hkind'
    exact hended.kind row hrow hid hkind
  epoch := by
    intro row' hrow' hid' user' huser' hrealm' hname'
    obtain ⟨row, hrow, hid, _⟩ := hon.realms row' hrow' hid'
    obtain ⟨user, huser, hrealm, hname, hstep⟩ := husers user' huser' hrealm' hname'
    have hlt := hended.epoch row hrow hid user huser hrealm hname
    rcases hstep with rfl | hmore
    · exact hlt
    · exact hlt.trans hmore

variable {libraries : Libraries} {fields : Fields} {row : AuthRealm} {now : ℤ}

/-- A realm's account of a name is one of the rows. -/
theorem exists_of_usersOf {rows : List AuthUser} {user : LocalUser}
    (huser : usersOf rows realmId subject = some user) :
    ∃ row ∈ rows, row.realmId = realmId ∧ row.username = subject ∧ row.epoch = user.epoch := by
  obtain ⟨row, hrow, hname, rfl⟩ := HashMap.exists_of_ofRows_eq_some huser
  obtain ⟨hrow, hrealm⟩ := List.mem_filter.mp hrow
  exact ⟨row, hrow, of_decide_eq_true hrealm, hname, rfl⟩

theorem RealmEnded.not_honours (hended : RealmEnded fields.realmId fields.realmEpoch tables)
    (hrow : row ∈ tables.realms) :
    ¬ (readRealm libraries tables.users row).honours fields now = true := by
  intro hhonours
  obtain ⟨hid, hepoch, _⟩ := honours_iff.mp hhonours
  exact (hended.epoch row hrow hid.symm).ne hepoch

theorem AccountEnded.not_honours
    (hended : AccountEnded fields.realmId fields.subject fields.userEpoch tables)
    (hrow : row ∈ tables.realms) :
    ¬ (readRealm libraries tables.users row).honours fields now = true := by
  intro hhonours
  obtain ⟨hid, _, hholds, _⟩ := honours_iff.mp hhonours
  have hid : row.id = fields.realmId := hid.symm
  have hkind : (readRealm libraries tables.users row).kind = .localAccounts :=
    if_neg (hended.kind row hrow hid)
  rw [Realm.holds, hkind] at hholds
  dsimp only at hholds
  split at hholds
  · next user huser =>
      obtain ⟨held, hheld, hrealm, hname, hepoch⟩ := exists_of_usersOf huser
      have hlt := hended.epoch row hrow hid held hheld (hrealm.trans hid) hname
      simp only [Bool.and_eq_true, beq_iff_eq] at hholds
      omega
  · contradiction

end Ended

/-- The operation signs everybody of the realm out, or removes the realm. -/
def EndsRealm (realmId : ℤ) (tables : RealmTables) : RealmOperation → Prop
  | .signOut name | .delete name _ => ∃ row ∈ tables.realms, row.id = realmId ∧ row.name = name
  | .importFile realms =>
      ∃ row ∈ tables.realms, row.id = realmId ∧ ∀ realm ∈ realms, realm.name ≠ row.name
  | _ => False

/-- The operation disables or deletes an account of the realm, or gives it
another password. -/
def EndsAccount (realmId : ℤ) (subject : Text) (tables : RealmTables) : RealmOperation → Prop
  | .setPassword name username _ _ | .deleteAccount name username =>
      username = subject ∧ ∃ row ∈ tables.realms, row.id = realmId ∧ row.name = name
  | .toggleAccount name username =>
      username = subject ∧ (∃ row ∈ tables.realms, row.id = realmId ∧ row.name = name) ∧
        ∃ user ∈ tables.users, user.realmId = realmId ∧ user.username = subject ∧ user.enabled
  | .importFile realms =>
      ∃ row ∈ tables.realms, row.id = realmId ∧ row.kind ≠ "ldap".toList ∧
        ∃ realm ∈ realms, realm.name = row.name ∧
          ∃ user ∈ tables.users, user.realmId = realmId ∧ user.username = subject ∧
            (realm.kind ≠ "local".toList ∨
              ∃ account ∈ realm.accounts, account.username = subject ∧
                (user.passwordHash ≠ account.passwordHash ∨ user.enabled ∧ !account.enabled))
  | _ => False

section Ending

variable {libraries : Libraries} {toJson : LdapConfig → Text}
variable {realmId epoch : ℤ} {subject : Text} {tables next : RealmTables}
variable {operation : RealmOperation}

theorem realmEnded_of_ends (hknown : realmId ≤ tables.lastId)
    (hreached : ∀ row ∈ tables.realms, row.id = realmId → epoch ≤ row.epoch)
    (hstep : operate libraries toJson tables operation = some next)
    (hends : EndsRealm realmId tables operation) : RealmEnded realmId epoch next where
  known := hknown.trans (realmsOnward_operate hknown hstep).lastId
  epoch := by
    intro row' hrow' hid'
    cases operation with
    | signOut name =>
        obtain ⟨row, hrow, hid, hname⟩ := hends
        obtain rfl := postRealmSignOut_eq_ok (toOption_eq_some.mp hstep)
        obtain ⟨held, hheld, hheldId, _, hset⟩ := exists_of_mem_updateRealm hrow'
        obtain rfl := RealmTables.eq_of_id_eq hheld hrow ((hheldId.trans hid').trans hid.symm)
        rcases hset with ⟨_, rfl⟩ | ⟨hother, _⟩
        · exact (hreached held hheld hid).trans_lt (Int.lt_succ _)
        · exact absurd hname hother
    | delete name sites =>
        obtain ⟨row, hrow, hid, hname⟩ := hends
        obtain ⟨found, hfind, rfl⟩ := postRealmDelete_eq_ok (toOption_eq_some.mp hstep)
        obtain ⟨hfound, hfoundName⟩ := findRealm_eq_some hfind
        obtain rfl := RealmTables.eq_of_name_eq hfound hrow (hfoundName.trans hname.symm)
        have hkept := (List.mem_filter.mp hrow').2
        simp [hid'.trans hid.symm] at hkept
    | importFile realms =>
        obtain ⟨row, hrow, hid, hother⟩ := hends
        obtain rfl := importFile_eq_some hstep
        have hcleared : realmId ≤ (tables.deleteRealms fun row =>
            !(realms.map (·.name)).contains row.name).lastId := hknown
        obtain ⟨held, hheld, hheldId, _⟩ :=
          (realmsOnward_foldl_importRealm realms hcleared).realms row' hrow' hid'
        obtain ⟨hheld, hkept⟩ := List.mem_filter.mp hheld
        obtain rfl := RealmTables.eq_of_id_eq hheld hrow (hheldId.trans hid.symm)
        obtain ⟨realm, hrealm, hname⟩ : ∃ realm ∈ realms, realm.name = held.name := by
          simpa using hkept
        exact absurd hname (hother realm hrealm)
    | _ => exact hends.elim

/-- An account of a realm whose row is a local one's, changed where it is. -/
theorem accountEnded_updateUser {row : AuthRealm} {change : RealmTables.UserChange}
    (hchange : ∀ user, user.epoch < (change.set user).epoch)
    (hreached : ∀ user ∈ tables.users, user.realmId = row.id → user.username = subject →
      epoch ≤ user.epoch)
    (hrow : row ∈ tables.realms) (hkind : row.kind = "local".toList) :
    AccountEnded row.id subject epoch (tables.updateUser row.id subject change) where
  known := tables.ids row hrow
  kind := by
    intro row' hrow' hid'
    rw [RealmTables.eq_of_id_eq hrow' hrow hid', hkind]
    decide
  epoch := by
    intro row' _ _ user' huser' hrealm' hname'
    obtain ⟨user, huser, hrealm, hname, hset⟩ := exists_of_mem_updateUser huser'
    rcases hset with ⟨_, rfl⟩ | ⟨hother, _⟩
    · exact (hreached user huser (hrealm.trans hrealm') (hname.trans hname')).trans_lt
        (hchange user)
    · exact absurd ⟨hrealm.trans hrealm', hname.trans hname'⟩ hother

theorem accountEnded_of_ends (hknown : realmId ≤ tables.lastId)
    (hreached : ∀ user ∈ tables.users, user.realmId = realmId → user.username = subject →
      epoch ≤ user.epoch)
    (hspares : Spares realmId subject tables operation)
    (hstep : operate libraries toJson tables operation = some next)
    (hends : EndsAccount realmId subject tables operation) :
    AccountEnded realmId subject epoch next := by
  cases operation with
  | setPassword name username form hashed =>
      obtain ⟨rfl, row, hrow, rfl, hname⟩ := hends
      obtain ⟨found, hfind, hkind, rfl⟩ := postAccountPassword_eq_ok (toOption_eq_some.mp hstep)
      obtain ⟨hfound, hfoundName⟩ := findRealm_eq_some hfind
      obtain rfl := RealmTables.eq_of_name_eq hfound hrow (hfoundName.trans hname.symm)
      exact accountEnded_updateUser (fun user => Int.lt_succ user.epoch) hreached hfound hkind
  | toggleAccount name username =>
      obtain ⟨rfl, ⟨row, hrow, rfl, hname⟩, _⟩ := hends
      obtain ⟨found, enabled, hfind, hkind, rfl⟩ :=
        postAccountToggle_eq_ok (toOption_eq_some.mp hstep)
      obtain ⟨hfound, hfoundName⟩ := findRealm_eq_some hfind
      obtain rfl := RealmTables.eq_of_name_eq hfound hrow (hfoundName.trans hname.symm)
      exact accountEnded_updateUser (fun user => Int.lt_succ user.epoch) hreached hfound hkind
  | deleteAccount name username =>
      obtain ⟨rfl, row, hrow, rfl, hname⟩ := hends
      obtain ⟨found, hfind, hkind, rfl⟩ := postAccountDelete_eq_ok (toOption_eq_some.mp hstep)
      obtain ⟨hfound, hfoundName⟩ := findRealm_eq_some hfind
      obtain rfl := RealmTables.eq_of_name_eq hfound hrow (hfoundName.trans hname.symm)
      refine ⟨hknown, ?_, ?_⟩
      · intro row' hrow' hid'
        rw [RealmTables.eq_of_id_eq hrow' hfound hid', hkind]
        decide
      · intro row' _ _ user' huser' hrealm' hname'
        have hkept := (List.mem_filter.mp huser').2
        simp [hrealm', hname'] at hkept
  | importFile realms =>
      obtain ⟨row, hrow, hid, hkind, realm, hmem, hname, user, huser, rfl, rfl, hhow⟩ := hends
      obtain rfl := importFile_eq_some hstep
      have hlocal : ∀ row' ∈ tables.realms, row'.id = user.realmId → row'.kind ≠ "ldap".toList :=
        fun row' hrow' hid' => RealmTables.eq_of_id_eq hrow' hrow (hid'.trans hid.symm) ▸ hkind
      obtain ⟨hkinds, _⟩ := usersOnward_operate hknown hspares hstep
      refine ⟨hknown.trans (realmsOnward_operate hknown hstep).lastId, ?_, ?_⟩
      · intro row' hrow' hid' hkind'
        obtain ⟨before, hbefore, hbeforeId, hbeforeKind⟩ := hkinds row' hrow' hid' hkind'
        exact hlocal before hbefore hbeforeId hbeforeKind
      · intro row' hrow' hid' user' huser' hrealm' hname'
        rcases hhow with hdirectory | ⟨account, haccount, haccountName, hchanged⟩
        · exact absurd ((hspares realm hmem row hrow hid hname).1 hkind) hdirectory
        · have hchanged : user.passwordHash ≠ account.passwordHash ∨
              user.enabled ≠ account.enabled := by
            refine hchanged.imp_right ?_
            rintro ⟨hon, hoff⟩ heq
            rw [← heq, hon] at hoff
            contradiction
          have hraised := raised_importRealms ⟨hlocal, user, huser, rfl, rfl⟩ hrow hid hname
            haccount haccountName hchanged huser hspares hmem ⟨row', hrow', hid'⟩
          exact (hreached user huser rfl rfl).trans_lt (hraised user' huser' hrealm' hname')
  | _ => exact hends.elim

end Ending

section Runs

variable (hmac : KeyedHash) (secret : Text) (siteId : ℤ)
variable (verify : Text → Text → Bool) (ask : LdapConfig → Text → Text → Option Identity)
variable (libraries : Libraries) (toJson : LdapConfig → Text)

/-- In every run of allowed operations: a cookie minted at a sign-in, and those
minted again from it, are accepted in no state after an operation that ends its
session. -/
def EndsForGood (allowed ends : ℤ → Text → RealmTables → RealmOperation → Prop) : Prop :=
  ∀ (start : RealmTables) (row : AuthRealm) (username password : Text) (who : Identity)
    (userEpoch issued : ℤ), row ∈ start.realms →
    checkPassword verify ask (readRealm libraries start.users row) username password =
      some (who, userEpoch) →
    ∀ (before after later : RealmTables) (operation : RealmOperation),
      Run (operate libraries toJson) (allowed row.id who.subject) start before →
      allowed row.id who.subject before operation →
      ends row.id who.subject before operation →
      operate libraries toJson before operation = some after →
      Run (operate libraries toJson) (allowed row.id who.subject) after later →
      ∀ cookie, Renewed hmac secret siteId (mint hmac secret siteId
          (readRealm libraries start.users row) who userEpoch issued issued) cookie →
        ∀ row' ∈ later.realms, ∀ now,
          read hmac secret siteId (readRealm libraries later.users row') cookie now = none

/-- However a cookie is renewed, it is accepted before the time from its sign-in
is over and not after. -/
def EndsInTime : Prop :=
  ∀ (realm realm' : Realm) (who : Identity) (userEpoch issued now : ℤ) (cookie : Text)
    (session : Session),
    Renewed hmac secret siteId (mint hmac secret siteId realm who userEpoch issued issued) cookie →
    read hmac secret siteId realm' cookie now = some session → now < issued + realm'.session

variable {hmac secret siteId verify ask libraries toJson}

section Reached

variable {realmId : ℤ} {subject : Text} {start state : RealmTables}
variable {allowed : RealmTables → RealmOperation → Prop}

theorem realmsOnward_of_run (run : Run (operate libraries toJson) allowed start state)
    (hknown : realmId ≤ start.lastId) : RealmsOnward realmId start state := by
  induction run with
  | refl => exact .refl
  | tail _ _ hstep ih => exact ih.trans (realmsOnward_operate (hknown.trans ih.lastId) hstep)

theorem usersOnward_of_run
    (run : Run (operate libraries toJson) (Spares realmId subject) start state)
    (hknown : realmId ≤ start.lastId) :
    KindsOnward realmId start state ∧ UsersOnward realmId subject start state := by
  induction run with
  | refl => exact ⟨.refl, .refl⟩
  | tail before hallowed hstep ih =>
      obtain ⟨hkinds, husers⟩ := usersOnward_operate
        (hknown.trans (realmsOnward_of_run before hknown).lastId) hallowed hstep
      exact ⟨ih.1.trans hkinds, ih.2.trans husers⟩

end Reached

/-- A cookie says nothing newer of the account than the tables it was minted
from. -/
theorem userEpoch_le_of_checkPassword {start : RealmTables} {row : AuthRealm}
    {username password : Text} {who : Identity} {userEpoch : ℤ}
    (hcheck : checkPassword verify ask (readRealm libraries start.users row) username password =
      some (who, userEpoch)) {user : AuthUser} (huser : user ∈ start.users)
    (hrealm : user.realmId = row.id) (hname : user.username = who.subject) :
    userEpoch ≤ user.epoch := by
  rw [checkPassword] at hcheck
  split at hcheck
  · contradiction
  · split at hcheck
    · split at hcheck
      · next found hfound =>
          split at hcheck
          · obtain ⟨rfl, rfl⟩ := Prod.mk.inj (Option.some.inj hcheck)
            obtain ⟨held, hheld, hheldRealm, hheldName, hepoch⟩ := exists_of_usersOf hfound
            obtain rfl := RealmTables.eq_of_account_eq hheld huser (hheldRealm.trans hrealm.symm)
              (hheldName.trans hname.symm)
            exact hepoch.ge
          · contradiction
      · contradiction
    · obtain ⟨_, _, hwho⟩ := Option.map_eq_some_iff.mp hcheck
      obtain ⟨_, rfl⟩ := Prod.mk.inj hwho
      exact start.epochs user huser

theorem realm_sessions_end : EndsForGood hmac secret siteId verify ask libraries toJson
    (fun _ _ => anything) (fun realmId _ => EndsRealm realmId) := by
  intro start row username password who userEpoch issued hrow hcheck before after later operation
    hbefore _ hends hstep hafter cookie hrenewed row' hrow' now
  have hknown := start.ids row hrow
  have honBefore : RealmsOnward row.id start before := realmsOnward_of_run hbefore hknown
  have hreached : ∀ held ∈ before.realms, held.id = row.id → row.epoch ≤ held.epoch := by
    intro held hheld hid
    obtain ⟨first, hfirst, hfirstId, _, hle⟩ := honBefore.realms held hheld hid
    exact RealmTables.eq_of_id_eq hfirst hrow hfirstId ▸ hle
  have hended := realmEnded_of_ends (hknown.trans honBefore.lastId) hreached hstep hends
  have hlater := hended.onward (realmsOnward_of_run hafter hended.known)
  obtain ⟨fields, rfl, hsame⟩ := exists_of_renewed hrenewed
  rw [Option.eq_none_iff_forall_ne_some]
  intro session hread
  have hfields : RealmEnded fields.realmId fields.realmEpoch later := by
    rw [hsame.realmId, hsame.realmEpoch]
    exact hlater
  exact hfields.not_honours hrow' (read_cookie hread).1

theorem account_sessions_end : EndsForGood hmac secret siteId verify ask libraries toJson
    Spares EndsAccount := by
  intro start row username password who userEpoch issued hrow hcheck before after later operation
    hbefore hallowed hends hstep hafter cookie hrenewed row' hrow' now
  have hknown := start.ids row hrow
  have honBefore : RealmsOnward row.id start before := realmsOnward_of_run hbefore hknown
  obtain ⟨_, husersBefore⟩ := usersOnward_of_run hbefore hknown
  have hreached : ∀ user ∈ before.users, user.realmId = row.id → user.username = who.subject →
      userEpoch ≤ user.epoch := by
    intro user huser hrealm hname
    obtain ⟨first, hfirst, hfirstRealm, hfirstName, hsince⟩ :=
      husersBefore user huser hrealm hname
    have hle := userEpoch_le_of_checkPassword hcheck hfirst hfirstRealm hfirstName
    rcases hsince with rfl | hlt
    · exact hle
    · exact hle.trans hlt.le
  have hended := accountEnded_of_ends (hknown.trans honBefore.lastId) hreached hallowed hstep hends
  obtain ⟨hkinds, husers⟩ := usersOnward_of_run hafter hended.known
  have hlater := hended.onward (realmsOnward_of_run hafter hended.known) hkinds husers
  obtain ⟨fields, rfl, hsame⟩ := exists_of_renewed hrenewed
  rw [Option.eq_none_iff_forall_ne_some]
  intro session hread
  have hfields : AccountEnded fields.realmId fields.subject fields.userEpoch later := by
    rw [hsame.realmId, hsame.subject, hsame.userEpoch]
    exact hlater
  exact hfields.not_honours hrow' (read_cookie hread).1

/-- What ends the sessions of a realm ends them for good; what ends an account's
does while the account is not added again and its realm made no directory; and
none outlives its time. -/
theorem sessions_end_for_good (hmac : KeyedHash) (secret : Text) (siteId : ℤ)
    (verify : Text → Text → Bool) (ask : LdapConfig → Text → Text → Option Identity)
    (libraries : Libraries) (toJson : LdapConfig → Text) :
    EndsForGood hmac secret siteId verify ask libraries toJson (fun _ _ => anything)
        (fun realmId _ => EndsRealm realmId) ∧
      EndsForGood hmac secret siteId verify ask libraries toJson Spares EndsAccount ∧
      EndsInTime hmac secret siteId :=
  ⟨realm_sessions_end, account_sessions_end, fun _ _ _ _ _ _ _ _ => lt_of_read_renewed⟩

end Runs

section Readded

/-- A realm of local accounts with one of the name. -/
def staffRealm : AuthRealm where
  id := 1
  name := "staff".toList
  kind := "local".toList
  sessionMinutes := 480
  idleMinutes := 60
  epoch := 0
  config := "\x7b\x7d".toList

def aliceAccount (hashed : Text) : AuthUser where
  realmId := 1
  username := "alice".toList
  passwordHash := hashed
  enabled := true
  epoch := 0

def staffTables (hashed : Text) : RealmTables where
  realms := [staffRealm]
  users := [aliceAccount hashed]
  lastId := 1
  ids := by simp [staffRealm]
  idsApart := List.pairwise_singleton _ _
  namesApart := List.pairwise_singleton _ _
  accountsApart := List.pairwise_singleton _ _
  epochs := by simp [aliceAccount]

/-- The account as it is added again. -/
def aliceForm : NewAccountForm where
  username := "alice".toList
  password := "tulips in may".toList
  confirmPassword := "tulips in may".toList

/-- An account that is deleted and added again is signed in still. -/
theorem readded_account_is_signed_in : ¬ EndsForGood (fun _ _ => []) "secret".toList 1
    (fun _ _ => true) (fun _ _ _ => none) Libraries.plain (fun _ => []) (fun _ _ => anything)
    fun realmId subject tables operation =>
      EndsRealm realmId tables operation ∨ EndsAccount realmId subject tables operation := by
  intro hends
  let old : Text := "$2b$12$roses".toList
  let new : Text := "$2b$12$tulips".toList
  let after := (staffTables old).deleteUsers fun user =>
    user.realmId = 1 ∧ user.username = "alice".toList
  have hdelete : operate Libraries.plain (fun _ => []) (staffTables old)
      (.deleteAccount "staff".toList "alice".toList) = some after := rfl
  have hcheck : checkPassword (fun _ _ => true) (fun _ _ _ => none)
      (readRealm Libraries.plain (staffTables old).users staffRealm) "alice".toList
      "roses in may".toList = some ({ subject := "alice".toList, groups := [] }, 0) := by
    decide +kernel
  have hadd : (after.insertUser 1 "alice".toList new true).isSome := by decide +kernel
  obtain ⟨later, hlater⟩ := Option.isSome_iff_exists.mp hadd
  have hoperate : operate Libraries.plain (fun _ => []) after
      (.addAccount "staff".toList aliceForm new) = some later := by
    have haccepted : postAccountAdd after "staff".toList aliceForm new =
        (after.insertUser 1 "alice".toList new true).elim
          (.error (.accountExists "staff".toList "alice".toList)) .ok := rfl
    rw [operate, haccepted, hlater]
    rfl
  obtain ⟨hrealms, _, husers, _⟩ := insertUser_eq_some hlater
  have hrow : staffRealm ∈ later.realms := hrealms ▸ List.mem_singleton_self _
  have hdeletes : EndsAccount 1 "alice".toList (staffTables old)
      (.deleteAccount "staff".toList "alice".toList) :=
    ⟨rfl, staffRealm, List.mem_singleton_self _, rfl, rfl⟩
  let fields : Fields := mintedFields (readRealm Libraries.plain (staffTables old).users staffRealm)
    { subject := "alice".toList, groups := [] } 0 0 0
  have hnone : read (fun _ _ => []) "secret".toList 1
      (readRealm Libraries.plain later.users staffRealm)
      (fields.cookie (fun _ _ => []) "secret".toList 1) 0 = none :=
    hends (staffTables old) staffRealm "alice".toList "roses in may".toList _ 0 0
      (List.mem_singleton_self _) hcheck (staffTables old) after later _ .refl trivial
      (.inr hdeletes) hdelete (.single trivial hoperate) _ .refl staffRealm hrow 0
  have hhonours : (readRealm Libraries.plain later.users staffRealm).honours fields 0 = true := by
    rw [husers]
    decide +kernel
  have hread : read (fun _ _ => []) "secret".toList 1
      (readRealm Libraries.plain later.users staffRealm)
      (fields.cookie (fun _ _ => []) "secret".toList 1) 0 = some (fields.session 0) :=
    read_eq_some_iff.mpr ⟨_, fields, rfl, parseBody_body (by decide), hhonours, rfl⟩
  exact Option.some_ne_none _ (hread.symm.trans hnone)

end Readded

end EasyWaf.Gateway
