import EasyWaf.Core.Machine
import EasyWaf.Import.Realms

/-!
# What happens to realms and their accounts

The operations on the two tables, and what each of them leaves of a realm and of
an account.  A realm's epoch is never lowered and no realm has the id of one that
is gone.  An account's epoch is not lowered while the account is there, but one
that is added again under its name starts anew, and a realm that becomes a
directory has no accounts.
-/

namespace EasyWaf.Gateway

open EasyWaf.Core Db Import Routes

/-- What an administrator does to realms and their accounts. -/
inductive RealmOperation
  | create (form : RealmForm)
  | update (name : Text) (form : RealmForm)
  | signOut (name : Text)
  | delete (name : Text) (sites : List Text)
  | addAccount (name : Text) (form : NewAccountForm) (hashed : Text)
  | setPassword (name username : Text) (form : PasswordForm) (hashed : Text)
  | toggleAccount (name username : Text)
  | deleteAccount (name username : Text)
  | importFile (realms : List FileRealm)

section Operate

variable (libraries : Libraries) (toJson : LdapConfig → Text)

/-- The tables after an operation that is not refused. -/
def operate (tables : RealmTables) : RealmOperation → Option RealmTables
  | .create form => (postRealmCreate tables form).toOption
  | .update name form => (postRealmUpdate tables name form).toOption
  | .signOut name => (postRealmSignOut tables name).toOption
  | .delete name sites => (postRealmDelete tables name sites).toOption
  | .addAccount name form hashed => (postAccountAdd tables name form hashed).toOption
  | .setPassword name username form hashed =>
      (postAccountPassword tables name username form hashed).toOption
  | .toggleAccount name username => (postAccountToggle tables name username).toOption
  | .deleteAccount name username => (postAccountDelete tables name username).toOption
  | .importFile realms =>
      if (realmBlockers [] realms).isEmpty then some (importRealms libraries toJson tables realms)
      else none

end Operate

/-- What the realm's rows say of its sessions only moves on. -/
structure RealmsOnward (realmId : ℤ) (tables next : RealmTables) : Prop where
  lastId : tables.lastId ≤ next.lastId
  realms : ∀ row' ∈ next.realms, row'.id = realmId →
    ∃ row ∈ tables.realms, row.id = realmId ∧ row.name = row'.name ∧ row.epoch ≤ row'.epoch

/-- An account of the name was there before, and its epoch was raised with
whatever was changed of it. -/
def UsersOnward (realmId : ℤ) (subject : Text) (tables next : RealmTables) : Prop :=
  ∀ user' ∈ next.users, user'.realmId = realmId → user'.username = subject →
    ∃ user ∈ tables.users, user.realmId = realmId ∧ user.username = subject ∧
      (user' = user ∨ user.epoch < user'.epoch)

/-- The realm was a directory before if it is one. -/
def KindsOnward (realmId : ℤ) (tables next : RealmTables) : Prop :=
  ∀ row' ∈ next.realms, row'.id = realmId → row'.kind = "ldap".toList →
    ∃ row ∈ tables.realms, row.id = realmId ∧ row.kind = "ldap".toList

section Onward

variable {realmId : ℤ} {subject : Text} {tables middle next : RealmTables}

theorem RealmsOnward.refl : RealmsOnward realmId tables tables where
  lastId := le_rfl
  realms := fun row hrow hid => ⟨row, hrow, hid, rfl, le_rfl⟩

theorem RealmsOnward.trans (first : RealmsOnward realmId tables middle)
    (second : RealmsOnward realmId middle next) : RealmsOnward realmId tables next where
  lastId := first.lastId.trans second.lastId
  realms := by
    intro row'' hrow'' hid''
    obtain ⟨row', hrow', hid', hname', hepoch'⟩ := second.realms row'' hrow'' hid''
    obtain ⟨row, hrow, hid, hname, hepoch⟩ := first.realms row' hrow' hid'
    exact ⟨row, hrow, hid, hname.trans hname', hepoch.trans hepoch'⟩

theorem UsersOnward.refl : UsersOnward realmId subject tables tables :=
  fun user huser hrealm hname => ⟨user, huser, hrealm, hname, .inl rfl⟩

theorem UsersOnward.trans (first : UsersOnward realmId subject tables middle)
    (second : UsersOnward realmId subject middle next) :
    UsersOnward realmId subject tables next := by
  intro user'' huser'' hrealm'' hname''
  obtain ⟨user', huser', hrealm', hname', hsecond⟩ := second user'' huser'' hrealm'' hname''
  obtain ⟨user, huser, hrealm, hname, hfirst⟩ := first user' huser' hrealm' hname'
  refine ⟨user, huser, hrealm, hname, ?_⟩
  rcases hsecond with rfl | hlt
  · exact hfirst
  · rcases hfirst with rfl | hlt'
    · exact .inr hlt
    · exact .inr (hlt'.trans hlt)

theorem KindsOnward.refl : KindsOnward realmId tables tables :=
  fun row hrow hid hkind => ⟨row, hrow, hid, hkind⟩

theorem KindsOnward.trans (first : KindsOnward realmId tables middle)
    (second : KindsOnward realmId middle next) : KindsOnward realmId tables next := by
  intro row'' hrow'' hid'' hkind''
  obtain ⟨row', hrow', hid', hkind'⟩ := second row'' hrow'' hid'' hkind''
  exact first row' hrow' hid' hkind'

/-- A realm added has an id of its own. -/
theorem mem_insertRealm {row row' : AuthRealm} (hinsert : tables.insertRealm row = some next)
    (hknown : realmId ≤ tables.lastId) (hrow' : row' ∈ next.realms) (hid' : row'.id = realmId) :
    row' ∈ tables.realms := by
  rw [RealmTables.insertRealm] at hinsert
  split at hinsert
  · obtain rfl := Option.some.inj hinsert
    rcases List.mem_append.mp hrow' with hrow' | hrow'
    · exact hrow'
    · obtain rfl := List.mem_singleton.mp hrow'
      have hnew : tables.lastId + 1 = realmId := hid'
      omega
  · contradiction

theorem users_insertRealm {row : AuthRealm} (hinsert : tables.insertRealm row = some next) :
    next.users = tables.users ∧ next.lastId = tables.lastId + 1 := by
  rw [RealmTables.insertRealm] at hinsert
  split at hinsert
  · obtain rfl := Option.some.inj hinsert
    exact ⟨rfl, rfl⟩
  · contradiction

theorem realmsOnward_insertRealm {row : AuthRealm} (hinsert : tables.insertRealm row = some next)
    (hknown : realmId ≤ tables.lastId) : RealmsOnward realmId tables next where
  lastId := (users_insertRealm hinsert).2 ▸ (Int.lt_succ _).le
  realms := fun row' hrow' hid' =>
    ⟨row', mem_insertRealm hinsert hknown hrow' hid', hid', rfl, le_rfl⟩

/-- A row of the realms that were updated is one of them as it was, or as it was
set. -/
theorem exists_of_mem_updateRealm {name : Text} {change : RealmTables.RealmChange}
    {row' : AuthRealm} (hrow' : row' ∈ (tables.updateRealm name change).realms) :
    ∃ row ∈ tables.realms, row.id = row'.id ∧ row.name = row'.name ∧
      (row.name = name ∧ row' = change.set row ∨ row.name ≠ name ∧ row' = row) := by
  obtain ⟨row, hrow, rfl⟩ := List.mem_map.mp hrow'
  refine ⟨row, hrow, ?_⟩
  split
  · next hname => exact ⟨(change.id row).symm, (change.name row).symm, .inl ⟨hname, rfl⟩⟩
  · next hname => exact ⟨rfl, rfl, .inr ⟨hname, rfl⟩⟩

theorem realmsOnward_updateRealm (name : Text) (change : RealmTables.RealmChange) :
    RealmsOnward realmId tables (tables.updateRealm name change) where
  lastId := le_rfl
  realms := by
    intro row' hrow' hid'
    obtain ⟨row, hrow, hid, hname, hset⟩ := exists_of_mem_updateRealm hrow'
    refine ⟨row, hrow, hid.trans hid', hname, ?_⟩
    rcases hset with ⟨_, rfl⟩ | ⟨_, rfl⟩
    · exact change.epoch row
    · exact le_rfl

theorem kindsOnward_updateRealm (name : Text) {change : RealmTables.RealmChange}
    (hkind : ∀ row, (change.set row).kind = row.kind) :
    KindsOnward realmId tables (tables.updateRealm name change) := by
  intro row' hrow' hid' hkind'
  obtain ⟨row, hrow, hid, _, hset⟩ := exists_of_mem_updateRealm hrow'
  refine ⟨row, hrow, hid.trans hid', ?_⟩
  rcases hset with ⟨_, rfl⟩ | ⟨_, rfl⟩
  · exact (hkind row).symm.trans hkind'
  · exact hkind'

theorem realmsOnward_of_subset (hlast : next.lastId = tables.lastId)
    (hsubset : ∀ row ∈ next.realms, row ∈ tables.realms) : RealmsOnward realmId tables next where
  lastId := hlast.ge
  realms := fun row hrow hid => ⟨row, hsubset row hrow, hid, rfl, le_rfl⟩

theorem usersOnward_of_subset (hsubset : ∀ user ∈ next.users, user ∈ tables.users) :
    UsersOnward realmId subject tables next :=
  fun user huser hrealm hname => ⟨user, hsubset user huser, hrealm, hname, .inl rfl⟩

theorem kindsOnward_of_subset (hsubset : ∀ row ∈ next.realms, row ∈ tables.realms) :
    KindsOnward realmId tables next :=
  fun row hrow hid hkind => ⟨row, hsubset row hrow, hid, hkind⟩

theorem insertUser_eq_some {id : ℤ} {username hash : Text} {enabled : Bool}
    (hinsert : tables.insertUser id username hash enabled = some next) :
    next.realms = tables.realms ∧ next.lastId = tables.lastId ∧
      next.users = tables.users ++ [⟨id, username, hash, enabled, 0⟩] ∧
      ∀ other ∈ tables.users, ¬ (other.realmId = id ∧ other.username = username) := by
  rw [RealmTables.insertUser] at hinsert
  split at hinsert
  · next hnew =>
      obtain rfl := Option.some.inj hinsert
      exact ⟨rfl, rfl, rfl, hnew⟩
  · contradiction

theorem usersOnward_insertUser {id : ℤ} {username hash : Text} {enabled : Bool}
    (hinsert : tables.insertUser id username hash enabled = some next)
    (hother : ¬ (id = realmId ∧ username = subject)) : UsersOnward realmId subject tables next := by
  obtain ⟨_, _, husers, _⟩ := insertUser_eq_some hinsert
  intro user huser hrealm hname
  rw [husers, List.mem_append, List.mem_singleton] at huser
  rcases huser with huser | rfl
  · exact ⟨user, huser, hrealm, hname, .inl rfl⟩
  · exact absurd ⟨hrealm, hname⟩ hother

/-- A row of the accounts that were updated is one of them as it was, or as it
was set. -/
theorem exists_of_mem_updateUser {id : ℤ} {username : Text} {change : RealmTables.UserChange}
    {user' : AuthUser} (huser' : user' ∈ (tables.updateUser id username change).users) :
    ∃ user ∈ tables.users, user.realmId = user'.realmId ∧ user.username = user'.username ∧
      ((user.realmId = id ∧ user.username = username) ∧ user' = change.set user ∨
        ¬ (user.realmId = id ∧ user.username = username) ∧ user' = user) := by
  obtain ⟨user, huser, rfl⟩ := List.mem_map.mp huser'
  refine ⟨user, huser, ?_⟩
  split
  · next hkey => exact ⟨(change.realmId user).symm, (change.username user).symm, .inl ⟨hkey, rfl⟩⟩
  · next hkey => exact ⟨rfl, rfl, .inr ⟨hkey, rfl⟩⟩

theorem usersOnward_updateUser (id : ℤ) (username : Text) (change : RealmTables.UserChange) :
    UsersOnward realmId subject tables (tables.updateUser id username change) := by
  intro user' huser' hrealm' hname'
  obtain ⟨user, huser, hrealm, hname, hset⟩ := exists_of_mem_updateUser huser'
  refine ⟨user, huser, hrealm.trans hrealm', hname.trans hname', ?_⟩
  rcases hset with ⟨_, rfl⟩ | ⟨_, rfl⟩
  · exact change.epoch user
  · exact .inl rfl

end Onward

/-- There is an account of the name in the realm, which is no directory. -/
def HasAccount (realmId : ℤ) (subject : Text) (tables : RealmTables) : Prop :=
  (∀ row ∈ tables.realms, row.id = realmId → row.kind ≠ "ldap".toList) ∧
    ∃ user ∈ tables.users, user.realmId = realmId ∧ user.username = subject

/-- A realm of the file neither makes the realm a directory nor adds the account
to it. -/
def SparesRealm (realmId : ℤ) (subject : Text) (tables : RealmTables) (realm : FileRealm) : Prop :=
  ∀ row ∈ tables.realms, row.id = realmId → realm.name = row.name →
    (row.kind ≠ "ldap".toList → realm.kind = "local".toList) ∧
      ∀ account ∈ realm.accounts, account.username = subject → HasAccount realmId subject tables

/-- An operation neither makes the realm a directory nor adds the account to it. -/
def Spares (realmId : ℤ) (subject : Text) (tables : RealmTables) : RealmOperation → Prop
  | .addAccount name form _ =>
      ∀ row ∈ tables.realms, row.id = realmId → row.name = name → form.username.trim ≠ subject
  | .importFile realms => ∀ realm ∈ realms, SparesRealm realmId subject tables realm
  | _ => True

section ImportFile

variable {libraries : Libraries} {toJson : LdapConfig → Text}
variable {realmId : ℤ} {subject : Text} {start tables : RealmTables}

theorem findRealm_eq_some {name : Text} {row : AuthRealm}
    (hfind : tables.findRealm name = some row) : row ∈ tables.realms ∧ row.name = name :=
  ⟨List.mem_of_find?_eq_some hfind, by simpa using List.find?_some hfind⟩

theorem upsertAccount_realms (tables : RealmTables) (id : ℤ) (account : RealmAccount) :
    (upsertAccount id tables account).realms = tables.realms ∧
      (upsertAccount id tables account).lastId = tables.lastId := by
  rw [upsertAccount]
  split
  · next hinsert =>
      obtain ⟨hrealms, hlast, _⟩ := insertUser_eq_some hinsert
      exact ⟨hrealms, hlast⟩
  · exact ⟨rfl, rfl⟩

theorem foldl_upsertAccount_realms (tables : RealmTables) (id : ℤ) (accounts : List RealmAccount) :
    (accounts.foldl (upsertAccount id) tables).realms = tables.realms ∧
      (accounts.foldl (upsertAccount id) tables).lastId = tables.lastId := by
  induction accounts generalizing tables with
  | nil => exact ⟨rfl, rfl⟩
  | cons account accounts ih =>
      obtain ⟨hrealms, hlast⟩ := upsertAccount_realms tables id account
      obtain ⟨hrest, hrestLast⟩ := @ih (upsertAccount id tables account)
      exact ⟨hrest.trans hrealms, hrestLast.trans hlast⟩

theorem realmsOnward_upsertRealm (realm : FileRealm) (hknown : realmId ≤ tables.lastId) :
    RealmsOnward realmId tables (upsertRealm libraries toJson tables realm) := by
  rw [upsertRealm]
  split
  · next hinsert => exact realmsOnward_insertRealm hinsert hknown
  · exact realmsOnward_updateRealm _ _

/-- The tables between the statements for a realm and those for its accounts. -/
def beforeAccounts (upserted : RealmTables) (realm : FileRealm) (row : AuthRealm) : RealmTables :=
  if realm.kind ≠ "local".toList then upserted.deleteUsers fun user => user.realmId = row.id
  else upserted

theorem beforeAccounts_realms (tables : RealmTables) (realm : FileRealm) (row : AuthRealm) :
    (beforeAccounts tables realm row).realms = tables.realms ∧
      (beforeAccounts tables realm row).lastId = tables.lastId := by
  rw [beforeAccounts]
  split <;> exact ⟨rfl, rfl⟩

variable (libraries toJson) in
/-- The statements for one realm, in turn. -/
theorem importRealm_eq (tables : RealmTables) (realm : FileRealm) :
    (upsertRealm libraries toJson tables realm).findRealm realm.name = none ∧
        importRealm libraries toJson tables realm = upsertRealm libraries toJson tables realm ∨
      ∃ row, (upsertRealm libraries toJson tables realm).findRealm realm.name = some row ∧
        importRealm libraries toJson tables realm =
          realm.accounts.foldl (upsertAccount row.id)
            (beforeAccounts (upsertRealm libraries toJson tables realm) realm row) := by
  rw [importRealm]
  dsimp only
  split
  · next hfind => exact .inl ⟨hfind, rfl⟩
  · next row hfind => exact .inr ⟨row, hfind, rfl⟩

theorem importRealm_realms (realm : FileRealm) :
    (importRealm libraries toJson tables realm).realms =
        (upsertRealm libraries toJson tables realm).realms ∧
      (importRealm libraries toJson tables realm).lastId =
        (upsertRealm libraries toJson tables realm).lastId := by
  rcases importRealm_eq libraries toJson tables realm
    with ⟨_, heq⟩ | ⟨row, _, heq⟩
  · rw [heq]
    exact ⟨rfl, rfl⟩
  · obtain ⟨hfold, hfoldLast⟩ := foldl_upsertAccount_realms
      (beforeAccounts (upsertRealm libraries toJson tables realm) realm row) row.id realm.accounts
    obtain ⟨hbefore, hbeforeLast⟩ := beforeAccounts_realms
      (upsertRealm libraries toJson tables realm) realm row
    rw [heq]
    exact ⟨hfold.trans hbefore, hfoldLast.trans hbeforeLast⟩

variable (libraries toJson) in
theorem users_upsertRealm (tables : RealmTables) (realm : FileRealm) :
    (upsertRealm libraries toJson tables realm).users = tables.users := by
  rw [upsertRealm]
  split
  · next hinsert => exact (users_insertRealm hinsert).1
  · rfl

theorem usersOnward_beforeAccounts {realm : FileRealm} {row : AuthRealm} :
    UsersOnward realmId subject tables
      (beforeAccounts (upsertRealm libraries toJson tables realm) realm row) := by
  apply usersOnward_of_subset
  intro user huser
  rw [← users_upsertRealm libraries toJson tables realm]
  rw [beforeAccounts] at huser
  split at huser
  · exact List.mem_of_mem_filter huser
  · exact huser

/-- The realm's row as it was before, or the file's. -/
theorem exists_of_mem_upsertRealm {realm : FileRealm} {row' : AuthRealm}
    (hknown : realmId ≤ tables.lastId)
    (hrow' : row' ∈ (upsertRealm libraries toJson tables realm).realms) (hid' : row'.id = realmId) :
    ∃ row ∈ tables.realms, row.id = realmId ∧ row.name = row'.name ∧
      (row' = row ∨ row.name = realm.name ∧ row'.kind = realm.kind) := by
  rw [upsertRealm] at hrow'
  split at hrow'
  · next hinsert => exact ⟨row', mem_insertRealm hinsert hknown hrow' hid', hid', rfl, .inl rfl⟩
  · obtain ⟨row, hrow, hid, hname, hset⟩ := exists_of_mem_updateRealm hrow'
    refine ⟨row, hrow, hid.trans hid', hname, ?_⟩
    rcases hset with ⟨hsame, rfl⟩ | ⟨_, rfl⟩
    · exact .inr ⟨hsame, rfl⟩
    · exact .inl rfl

/-- Where an import of a file that spares an account has got to. -/
structure Importing (realmId : ℤ) (subject : Text) (start tables : RealmTables) : Prop where
  realms : RealmsOnward realmId start tables
  kinds : KindsOnward realmId start tables
  present : HasAccount realmId subject start → (∀ row ∈ tables.realms, row.id ≠ realmId) ∨
    ∃ user ∈ tables.users, user.realmId = realmId ∧ user.username = subject

namespace Importing

/-- The realms the file does not name are gone. -/
theorem deleteRealms (gone : AuthRealm → Bool) :
    Importing realmId subject start (start.deleteRealms gone) where
  realms := realmsOnward_of_subset rfl fun _ hrow => List.mem_of_mem_filter hrow
  kinds := kindsOnward_of_subset fun _ hrow => List.mem_of_mem_filter hrow
  present := by
    rintro ⟨_, user, huser, hrealm, hname⟩
    by_cases hgone : ∃ row ∈ start.realms, row.id = realmId ∧ gone row = true
    · left
      obtain ⟨row, hrow, hid, hgone⟩ := hgone
      intro row' hrow' hid'
      obtain ⟨hrow', hkept⟩ := List.mem_filter.mp hrow'
      rw [RealmTables.eq_of_id_eq hrow' hrow (hid'.trans hid.symm), hgone] at hkept
      contradiction
    · right
      refine ⟨user, List.mem_filter.mpr ⟨huser, ?_⟩, hrealm, hname⟩
      simp only [Bool.not_eq_true', List.any_eq_false, decide_eq_true_eq, not_and]
      intro row hrow hid hisGone
      exact hgone ⟨row, hrow, hid.trans hrealm, hisGone⟩

variable (himporting : Importing realmId subject start tables) (hknown : realmId ≤ start.lastId)
include himporting hknown

theorem upsertRealm {realm : FileRealm} (hspares : SparesRealm realmId subject start realm) :
    Importing realmId subject start (upsertRealm libraries toJson tables realm) where
  realms := himporting.realms.trans
    (realmsOnward_upsertRealm realm (hknown.trans himporting.realms.lastId))
  kinds := by
    intro row' hrow' hid' hkind'
    obtain ⟨row, hrow, hid, _, hfrom⟩ :=
      exists_of_mem_upsertRealm (hknown.trans himporting.realms.lastId) hrow' hid'
    rcases hfrom with rfl | ⟨hname, hkind⟩
    · exact himporting.kinds row' hrow hid hkind'
    · obtain ⟨first, hfirst, hfirstId, hfirstName, _⟩ := himporting.realms.realms row hrow hid
      refine ⟨first, hfirst, hfirstId, ?_⟩
      by_contra hfirstKind
      have hlocal := (hspares first hfirst hfirstId (hname ▸ hfirstName.symm)).1 hfirstKind
      rw [hkind, hlocal] at hkind'
      exact absurd hkind' (by decide)
  present := by
    intro hhas
    rw [users_upsertRealm]
    refine (himporting.present hhas).imp_left ?_
    intro hnone row' hrow' hid'
    obtain ⟨row, hrow, hid, _⟩ :=
      exists_of_mem_upsertRealm (hknown.trans himporting.realms.lastId) hrow' hid'
    exact hnone row hrow hid

omit hknown in
theorem beforeAccounts {realm : FileRealm} {row : AuthRealm}
    (hspares : SparesRealm realmId subject start realm)
    (hfind : tables.findRealm realm.name = some row) :
    Importing realmId subject start (beforeAccounts tables realm row) where
  realms := by
    obtain ⟨hrealms, hlast⟩ := beforeAccounts_realms tables realm row
    exact himporting.realms.trans (realmsOnward_of_subset hlast fun _ => (hrealms ▸ ·))
  kinds := by
    obtain ⟨hrealms, _⟩ := beforeAccounts_realms tables realm row
    exact himporting.kinds.trans (kindsOnward_of_subset fun _ => (hrealms ▸ ·))
  present := by
    intro hhas
    rw [(beforeAccounts_realms tables realm row).1]
    refine (himporting.present hhas).imp_right ?_
    rintro ⟨user, huser, hrealm, hname⟩
    refine ⟨user, ?_, hrealm, hname⟩
    rw [Gateway.beforeAccounts]
    split
    · next hkind =>
        refine List.mem_filter.mpr ⟨huser, ?_⟩
        simp only [Bool.not_eq_true', decide_eq_false_iff_not]
        intro hid
        -- A realm with the account in it stays a local one.
        obtain ⟨hrow, hrowName⟩ := findRealm_eq_some hfind
        obtain ⟨first, hfirst, hfirstId, hfirstName, _⟩ :=
          himporting.realms.realms row hrow (hid.symm.trans hrealm)
        exact hkind ((hspares first hfirst hfirstId (hrowName.symm.trans hfirstName.symm)).1
          (hhas.1 first hfirst hfirstId))
    · exact huser

omit hknown in
theorem upsertAccount {id : ℤ} {account : RealmAccount} :
    Importing realmId subject start (upsertAccount id tables account) where
  realms := by
    obtain ⟨hrealms, hlast⟩ := upsertAccount_realms tables id account
    exact himporting.realms.trans (realmsOnward_of_subset hlast fun _ => (hrealms ▸ ·))
  kinds := by
    obtain ⟨hrealms, _⟩ := upsertAccount_realms tables id account
    exact himporting.kinds.trans (kindsOnward_of_subset fun _ => (hrealms ▸ ·))
  present := by
    intro hhas
    rw [(upsertAccount_realms tables id account).1]
    refine (himporting.present hhas).imp_right ?_
    rintro ⟨user, huser, hrealm, hname⟩
    rw [Import.upsertAccount]
    split
    · next hinsert =>
        obtain ⟨_, _, husers, _⟩ := insertUser_eq_some hinsert
        exact ⟨user, husers ▸ List.mem_append_left _ huser, hrealm, hname⟩
    · refine ⟨_, List.mem_map_of_mem huser, ?_, ?_⟩
      · split <;> exact hrealm
      · split <;> exact hname

omit hknown in
/-- An account the file has of a realm that is there is changed where it is, not
added. -/
theorem usersOnward_upsertAccount {row : AuthRealm} {account : RealmAccount}
    (hrow : row ∈ tables.realms)
    (hspares : row.id = realmId → account.username = subject → HasAccount realmId subject start) :
    UsersOnward realmId subject tables (Import.upsertAccount row.id tables account) := by
  rw [Import.upsertAccount]
  split
  · next hinsert =>
      apply usersOnward_insertUser hinsert
      rintro ⟨hid, hname⟩
      obtain ⟨_, _, _, hnew⟩ := insertUser_eq_some hinsert
      rcases himporting.present (hspares hid hname) with hnone | ⟨user, huser, hrealm, husername⟩
      · exact hnone row hrow hid
      · exact hnew user huser ⟨hrealm.trans hid.symm, husername.trans hname.symm⟩
  · exact usersOnward_updateUser _ _ _

omit hknown in
theorem foldl_upsertAccount {row : AuthRealm} (accounts : List RealmAccount)
    (hrow : row ∈ tables.realms)
    (hspares : ∀ account ∈ accounts, row.id = realmId → account.username = subject →
      HasAccount realmId subject start) :
    Importing realmId subject start (accounts.foldl (Import.upsertAccount row.id) tables) ∧
      UsersOnward realmId subject tables (accounts.foldl (Import.upsertAccount row.id) tables) := by
  induction accounts generalizing tables with
  | nil => exact ⟨himporting, .refl⟩
  | cons account accounts ih =>
      obtain ⟨hspareFirst, hspareRest⟩ := List.forall_mem_cons.mp hspares
      have hstays : row ∈ (Import.upsertAccount row.id tables account).realms :=
        (upsertAccount_realms tables row.id account).1.symm ▸ hrow
      obtain ⟨hrest, hon⟩ := ih himporting.upsertAccount hstays hspareRest
      exact ⟨hrest, (himporting.usersOnward_upsertAccount hrow hspareFirst).trans hon⟩

/-- Where the statements for the accounts of one realm begin. -/
theorem beginAccounts {realm : FileRealm} {row : AuthRealm}
    (hspares : SparesRealm realmId subject start realm)
    (hfind : (Import.upsertRealm libraries toJson tables realm).findRealm realm.name = some row) :
    Importing realmId subject start
        (Gateway.beforeAccounts (Import.upsertRealm libraries toJson tables realm) realm row) ∧
      row ∈ (Gateway.beforeAccounts (Import.upsertRealm libraries toJson tables realm)
        realm row).realms ∧
      ∀ account ∈ realm.accounts, row.id = realmId → account.username = subject →
        HasAccount realmId subject start := by
  have hupserted : Importing realmId subject start
      (Import.upsertRealm libraries toJson tables realm) := himporting.upsertRealm hknown hspares
  obtain ⟨hrow, hname⟩ := findRealm_eq_some hfind
  refine ⟨hupserted.beforeAccounts hspares hfind, ?_, ?_⟩
  · rwa [(beforeAccounts_realms _ realm row).1]
  intro account haccount hid husername
  obtain ⟨first, hfirst, hfirstId, hfirstName, _⟩ := hupserted.realms.realms row hrow hid
  exact (hspares first hfirst hfirstId (hname.symm.trans hfirstName.symm)).2 account haccount
    husername

theorem importRealm {realm : FileRealm} (hspares : SparesRealm realmId subject start realm) :
    Importing realmId subject start (importRealm libraries toJson tables realm) ∧
      UsersOnward realmId subject tables (importRealm libraries toJson tables realm) := by
  rcases importRealm_eq libraries toJson tables realm
    with ⟨_, heq⟩ | ⟨row, hfind, heq⟩
  · rw [heq]
    refine ⟨himporting.upsertRealm hknown hspares, usersOnward_of_subset ?_⟩
    rw [users_upsertRealm]
    exact fun _ => id
  · obtain ⟨hbegin, hrow, hspareAll⟩ := himporting.beginAccounts hknown hspares hfind
    obtain ⟨hend, hon⟩ := hbegin.foldl_upsertAccount realm.accounts hrow hspareAll
    rw [heq]
    exact ⟨hend, usersOnward_beforeAccounts.trans hon⟩

theorem foldl_importRealm (realms : List FileRealm)
    (hspares : ∀ realm ∈ realms, SparesRealm realmId subject start realm) :
    Importing realmId subject start (realms.foldl (Import.importRealm libraries toJson) tables) ∧
      UsersOnward realmId subject tables
        (realms.foldl (Import.importRealm libraries toJson) tables) := by
  induction realms generalizing tables with
  | nil => exact ⟨himporting, .refl⟩
  | cons realm realms ih =>
      obtain ⟨hspareFirst, hspareRest⟩ := List.forall_mem_cons.mp hspares
      obtain ⟨hfirst, hfirstOn⟩ :=
        @importRealm libraries toJson _ _ _ _ himporting hknown _ hspareFirst
      obtain ⟨hrest, hrestOn⟩ := ih hfirst hspareRest
      exact ⟨hrest, hfirstOn.trans hrestOn⟩

end Importing

theorem realmsOnward_importRealm (realm : FileRealm) (hknown : realmId ≤ tables.lastId) :
    RealmsOnward realmId tables (importRealm libraries toJson tables realm) := by
  have hupserted : RealmsOnward realmId tables (upsertRealm libraries toJson tables realm) :=
    realmsOnward_upsertRealm realm hknown
  obtain ⟨hrealms, hlast⟩ :=
    @importRealm_realms libraries toJson tables realm
  exact hupserted.trans (realmsOnward_of_subset hlast fun _ => (hrealms ▸ ·))

theorem realmsOnward_foldl_importRealm (realms : List FileRealm) (hknown : realmId ≤ tables.lastId) :
    RealmsOnward realmId tables (realms.foldl (importRealm libraries toJson) tables) := by
  induction realms generalizing tables with
  | nil => exact .refl
  | cons realm realms ih =>
      have hfirst : RealmsOnward realmId tables (importRealm libraries toJson tables realm) :=
        realmsOnward_importRealm realm hknown
      exact hfirst.trans (ih (hknown.trans hfirst.lastId))

/-- What an account had at the start, or a higher epoch. -/
def Since (user : AuthUser) (tables : RealmTables) : Prop :=
  ∀ user' ∈ tables.users, user'.realmId = user.realmId → user'.username = user.username →
    user' = user ∨ user.epoch < user'.epoch

/-- A higher epoch than an account had at the start. -/
def Raised (user : AuthUser) (tables : RealmTables) : Prop :=
  ∀ user' ∈ tables.users, user'.realmId = user.realmId → user'.username = user.username →
    user.epoch < user'.epoch

theorem Since.onward {user : AuthUser} (hsince : Since user tables)
    (hon : UsersOnward user.realmId user.username tables next) : Since user next := by
  intro user'' huser'' hrealm'' hname''
  obtain ⟨user', huser', hrealm', hname', hsecond⟩ := hon user'' huser'' hrealm'' hname''
  rcases hsecond with rfl | hlt
  · exact hsince user'' huser' hrealm' hname'
  · rcases hsince user' huser' hrealm' hname' with rfl | hlt'
    · exact .inr hlt
    · exact .inr (hlt'.trans hlt)

theorem Raised.onward {user : AuthUser} (hraised : Raised user tables)
    (hon : UsersOnward user.realmId user.username tables next) : Raised user next := by
  intro user'' huser'' hrealm'' hname''
  obtain ⟨user', huser', hrealm', hname', hsecond⟩ := hon user'' huser'' hrealm'' hname''
  have hlt := hraised user' huser' hrealm' hname'
  rcases hsecond with rfl | hmore
  · exact hlt
  · exact hlt.trans hmore

/-- An account is its name's one row in its realm. -/
theorem since_self {user : AuthUser} (huser : user ∈ tables.users) : Since user tables :=
  fun _ huser' hrealm hname => .inl (RealmTables.eq_of_account_eq huser' huser hrealm hname)

/-- The file's statement for an account that is there raises the epoch with what
it changes. -/
theorem Since.raised_upsertAccount {user : AuthUser} {account : RealmAccount}
    (hsince : Since user tables)
    (hthere : ∃ user' ∈ tables.users, user'.realmId = user.realmId ∧ user'.username = user.username)
    (hname : account.username = user.username)
    (hchanged : user.passwordHash ≠ account.passwordHash ∨ user.enabled ≠ account.enabled) :
    Raised user (upsertAccount user.realmId tables account) := by
  intro user' huser' hrealm' hname'
  rw [upsertAccount] at huser'
  split at huser'
  · next hinsert =>
      obtain ⟨other, hother, hrealm, husername⟩ := hthere
      obtain ⟨_, _, _, hnew⟩ := insertUser_eq_some hinsert
      exact absurd ⟨hrealm, husername.trans hname.symm⟩ (hnew other hother)
  · obtain ⟨held, hheld, hrealm, husername, hset⟩ := exists_of_mem_updateUser huser'
    rcases hset with ⟨_, rfl⟩ | ⟨hother, _⟩
    · rcases hsince held hheld (hrealm.trans hrealm') (husername.trans hname') with rfl | hlt
      · have hraised : (account.change.set held).epoch = held.epoch + 1 := if_pos hchanged
        exact hraised ▸ Int.lt_succ held.epoch
      · rcases account.change.epoch held with hsame | hmore
        · rwa [hsame]
        · exact hlt.trans hmore
    · exact absurd ⟨hrealm.trans hrealm', (husername.trans hname').trans hname.symm⟩ hother

section Changed

variable {realm : FileRealm} {row : AuthRealm} {user : AuthUser} {account : RealmAccount}
variable (hhas : HasAccount user.realmId user.username start)
variable (hrow : row ∈ start.realms) (hid : row.id = user.realmId) (hrealmName : realm.name = row.name)
variable (haccount : account ∈ realm.accounts) (haccountName : account.username = user.username)
variable (hchanged : user.passwordHash ≠ account.passwordHash ∨ user.enabled ≠ account.enabled)
include hhas hrow hid hrealmName haccount haccountName hchanged

theorem Importing.raised_importRealm
    (himporting : Importing user.realmId user.username start tables)
    (hspares : SparesRealm user.realmId user.username start realm) (hsince : Since user tables)
    (hstill : ∃ held ∈ (Import.importRealm libraries toJson tables realm).realms,
      held.id = user.realmId) :
    Raised user (Import.importRealm libraries toJson tables realm) := by
  have hknown : user.realmId ≤ start.lastId := hid ▸ start.ids row hrow
  have hupserted : Importing user.realmId user.username start
      (Import.upsertRealm libraries toJson tables realm) := himporting.upsertRealm hknown hspares
  obtain ⟨held, hheld, hheldId⟩ := hstill
  rw [(importRealm_realms realm).1] at hheld
  have hheldName : held.name = realm.name := by
    obtain ⟨first, hfirst, hfirstId, hfirstName, _⟩ := hupserted.realms.realms held hheld hheldId
    rw [← hfirstName, RealmTables.eq_of_id_eq hfirst hrow (hfirstId.trans hid.symm), hrealmName]
  rcases importRealm_eq libraries toJson tables realm with ⟨hnone, _⟩ | ⟨found, hfind, heq⟩
  · exact absurd hheldName (by simpa using List.find?_eq_none.mp hnone held hheld)
  · obtain ⟨hfound, hfoundName⟩ := findRealm_eq_some hfind
    obtain rfl := RealmTables.eq_of_name_eq hheld hfound (hheldName.trans hfoundName.symm)
    obtain ⟨hbegin, hheldBegin, hspareAll⟩ := himporting.beginAccounts hknown hspares hfind
    obtain ⟨before, after, hsplit⟩ := List.append_of_mem haccount
    rw [hsplit] at hspareAll
    -- The accounts before this one, this one, and those after it.
    obtain ⟨hbefore, hbeforeOn⟩ := hbegin.foldl_upsertAccount before hheldBegin
      fun account haccount => hspareAll account (List.mem_append_left _ haccount)
    have hheldBefore := (foldl_upsertAccount_realms _ held.id before).1.symm ▸ hheldBegin
    have hsinceBefore : Since user _ := (hsince.onward usersOnward_beforeAccounts).onward hbeforeOn
    have hthere := (hbefore.present hhas).resolve_left fun hnone =>
      hnone held hheldBefore hheldId
    have hraised := hsinceBefore.raised_upsertAccount hthere haccountName hchanged
    rw [← hheldId] at hraised
    obtain ⟨_, hafterOn⟩ := hbefore.upsertAccount.foldl_upsertAccount after
      ((upsertAccount_realms _ held.id account).1.symm ▸ hheldBefore)
      fun account haccount => hspareAll account
        (List.mem_append_right _ (List.mem_cons_of_mem _ haccount))
    rw [heq, hsplit, List.foldl_append, List.foldl_cons]
    exact hraised.onward hafterOn

/-- The account's epoch is past what it was once an import changed its password
or its switch, if its realm is there still. -/
theorem raised_importRealms {realms : List FileRealm} (huser : user ∈ start.users)
    (hspares : ∀ realm ∈ realms, SparesRealm user.realmId user.username start realm)
    (hmem : realm ∈ realms)
    (hstill : ∃ row' ∈ (importRealms libraries toJson start realms).realms,
      row'.id = user.realmId) :
    Raised user (importRealms libraries toJson start realms) := by
  have hknown : user.realmId ≤ start.lastId := hid ▸ start.ids row hrow
  obtain ⟨before, after, rfl⟩ := List.append_of_mem hmem
  rw [importRealms, List.foldl_append, List.foldl_cons] at hstill ⊢
  set cleared := start.deleteRealms fun row =>
    !((before ++ realm :: after).map (·.name)).contains row.name
  have hcleared : Importing user.realmId user.username start cleared := .deleteRealms _
  have hclearedOn : UsersOnward user.realmId user.username start cleared :=
    usersOnward_of_subset fun _ huser => List.mem_of_mem_filter huser
  -- The realms before this one, this one, and those after it.
  obtain ⟨hbefore, hbeforeOn⟩ := @Importing.foldl_importRealm libraries toJson _ _ _ _ hcleared
    hknown before fun realm hrealm => hspares realm (List.mem_append_left _ hrealm)
  set middle := before.foldl (importRealm libraries toJson) cleared
  have hspareRealm := hspares realm (List.mem_append_right _ List.mem_cons_self)
  have hmiddleKnown := hknown.trans hbefore.realms.lastId
  obtain ⟨himported, _⟩ := @Importing.importRealm libraries toJson _ _ _ _ hbefore hknown _
    hspareRealm
  obtain ⟨_, hafterOn⟩ := @Importing.foldl_importRealm libraries toJson _ _ _ _ himported
    hknown after fun realm hrealm =>
      hspares realm (List.mem_append_right _ (List.mem_cons_of_mem _ hrealm))
  have hstillMiddle : ∃ held ∈ (importRealm libraries toJson middle realm).realms,
      held.id = user.realmId := by
    obtain ⟨last, hlast, hlastId⟩ := hstill
    obtain ⟨held, hheld, hheldId, _⟩ := (realmsOnward_foldl_importRealm after
      (hknown.trans himported.realms.lastId)).realms last hlast hlastId
    exact ⟨held, hheld, hheldId⟩
  have hraised := hbefore.raised_importRealm hhas hrow hid hrealmName haccount haccountName
    hchanged hspareRealm (((since_self huser).onward hclearedOn).onward hbeforeOn) hstillMiddle
  exact hraised.onward hafterOn

end Changed

end ImportFile

section Operate

variable {libraries : Libraries} {toJson : LdapConfig → Text}
variable {realmId : ℤ} {subject : Text} {tables next : RealmTables} {operation : RealmOperation}

theorem importFile_eq_some {realms : List FileRealm}
    (hstep : operate libraries toJson tables (.importFile realms) = some next) :
    next = importRealms libraries toJson tables realms := by
  rw [operate] at hstep
  split at hstep
  · exact (Option.some.inj hstep).symm
  · contradiction

/-- No operation lowers a realm's epoch or gives its id to another realm. -/
theorem realmsOnward_operate (hknown : realmId ≤ tables.lastId)
    (hstep : operate libraries toJson tables operation = some next) :
    RealmsOnward realmId tables next := by
  cases operation with
  | create form =>
      obtain ⟨row, hinsert⟩ := postRealmCreate_eq_ok (toOption_eq_some.mp hstep)
      exact realmsOnward_insertRealm hinsert hknown
  | update name form =>
      obtain ⟨_, _, _, rfl⟩ := postRealmUpdate_eq_ok (toOption_eq_some.mp hstep)
      exact realmsOnward_updateRealm _ _
  | signOut name =>
      obtain rfl := postRealmSignOut_eq_ok (toOption_eq_some.mp hstep)
      exact realmsOnward_updateRealm _ _
  | delete name sites =>
      obtain ⟨_, _, rfl⟩ := postRealmDelete_eq_ok (toOption_eq_some.mp hstep)
      exact realmsOnward_of_subset rfl fun _ hrow => List.mem_of_mem_filter hrow
  | addAccount name form hashed =>
      obtain ⟨_, _, hinsert⟩ := postAccountAdd_eq_ok (toOption_eq_some.mp hstep)
      obtain ⟨hrealms, hlast, _⟩ := insertUser_eq_some hinsert
      exact realmsOnward_of_subset hlast fun _ => (hrealms ▸ ·)
  | setPassword name username form hashed =>
      obtain ⟨_, _, _, rfl⟩ := postAccountPassword_eq_ok (toOption_eq_some.mp hstep)
      exact realmsOnward_of_subset rfl fun _ => id
  | toggleAccount name username =>
      obtain ⟨_, _, _, _, rfl⟩ := postAccountToggle_eq_ok (toOption_eq_some.mp hstep)
      exact realmsOnward_of_subset rfl fun _ => id
  | deleteAccount name username =>
      obtain ⟨_, _, _, rfl⟩ := postAccountDelete_eq_ok (toOption_eq_some.mp hstep)
      exact realmsOnward_of_subset rfl fun _ => id
  | importFile realms =>
      obtain rfl := importFile_eq_some hstep
      have hcleared : RealmsOnward realmId tables
          (tables.deleteRealms fun row => !(realms.map (·.name)).contains row.name) :=
        realmsOnward_of_subset rfl fun _ hrow => List.mem_of_mem_filter hrow
      exact hcleared.trans (realmsOnward_foldl_importRealm realms (hknown.trans hcleared.lastId))

/-- An operation that spares an account leaves the realm no directory and the
account's epoch no lower. -/
theorem usersOnward_operate (hknown : realmId ≤ tables.lastId)
    (hspares : Spares realmId subject tables operation)
    (hstep : operate libraries toJson tables operation = some next) :
    KindsOnward realmId tables next ∧ UsersOnward realmId subject tables next := by
  cases operation with
  | create form =>
      obtain ⟨row, hinsert⟩ := postRealmCreate_eq_ok (toOption_eq_some.mp hstep)
      refine ⟨fun row' hrow' hid' hkind' =>
        ⟨row', mem_insertRealm hinsert hknown hrow' hid', hid', hkind'⟩, ?_⟩
      exact usersOnward_of_subset ((users_insertRealm hinsert).1 ▸ fun _ => id)
  | update name form =>
      obtain ⟨_, _, _, rfl⟩ := postRealmUpdate_eq_ok (toOption_eq_some.mp hstep)
      exact ⟨kindsOnward_updateRealm _ fun _ => rfl, usersOnward_of_subset fun _ => id⟩
  | signOut name =>
      obtain rfl := postRealmSignOut_eq_ok (toOption_eq_some.mp hstep)
      exact ⟨kindsOnward_updateRealm _ fun _ => rfl, usersOnward_of_subset fun _ => id⟩
  | delete name sites =>
      obtain ⟨_, _, rfl⟩ := postRealmDelete_eq_ok (toOption_eq_some.mp hstep)
      exact ⟨kindsOnward_of_subset fun _ hrow => List.mem_of_mem_filter hrow,
        usersOnward_of_subset fun _ huser => List.mem_of_mem_filter huser⟩
  | addAccount name form hashed =>
      obtain ⟨row, hfind, hinsert⟩ := postAccountAdd_eq_ok (toOption_eq_some.mp hstep)
      obtain ⟨hrow, hname⟩ := findRealm_eq_some hfind
      obtain ⟨hrealms, _⟩ := insertUser_eq_some hinsert
      refine ⟨kindsOnward_of_subset fun _ => (hrealms ▸ ·), usersOnward_insertUser hinsert ?_⟩
      rintro ⟨hid, hsubject⟩
      exact hspares row hrow hid hname hsubject
  | setPassword name username form hashed =>
      obtain ⟨_, _, _, rfl⟩ := postAccountPassword_eq_ok (toOption_eq_some.mp hstep)
      exact ⟨kindsOnward_of_subset fun _ => id, usersOnward_updateUser _ _ _⟩
  | toggleAccount name username =>
      obtain ⟨_, _, _, _, rfl⟩ := postAccountToggle_eq_ok (toOption_eq_some.mp hstep)
      exact ⟨kindsOnward_of_subset fun _ => id, usersOnward_updateUser _ _ _⟩
  | deleteAccount name username =>
      obtain ⟨_, _, _, rfl⟩ := postAccountDelete_eq_ok (toOption_eq_some.mp hstep)
      exact ⟨kindsOnward_of_subset fun _ => id,
        usersOnward_of_subset fun _ huser => List.mem_of_mem_filter huser⟩
  | importFile realms =>
      obtain rfl := importFile_eq_some hstep
      have hcleared : Importing realmId subject tables
          (tables.deleteRealms fun row => !(realms.map (·.name)).contains row.name) :=
        .deleteRealms _
      obtain ⟨himporting, hon⟩ := @Importing.foldl_importRealm libraries toJson _ _ _ _ hcleared
        hknown realms hspares
      have hclearedOn : UsersOnward realmId subject tables
          (tables.deleteRealms fun row => !(realms.map (·.name)).contains row.name) :=
        usersOnward_of_subset fun _ huser => List.mem_of_mem_filter huser
      exact ⟨himporting.kinds, hclearedOn.trans hon⟩

end Operate

end EasyWaf.Gateway
