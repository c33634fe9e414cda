import EasyWaf.Gateway.RealmTables
import EasyWaf.Libraries
import EasyWaf.Routes.Realms

/-!
# The realms of an imported file

What `check` holds against a file's realms, and the statements of `apply` that
write them.
-/

namespace EasyWaf.Import

open Db Gateway Routes

/-- A directory as the file has it, with its search account's password if the
file carries it. -/
structure Directory where
  url : Text
  starttls : Bool
  verifyTls : Bool
  bindDn : Text
  bindPassword : Option Text
  baseDn : Text
  userFilter : Text
  groupsAttribute : Text

structure RealmAccount where
  username : Text
  enabled : Bool
  passwordHash : Text

structure FileRealm where
  name : Text
  kind : Text
  sessionMinutes : ℤ
  idleMinutes : ℤ
  directory : Option Directory
  accounts : List RealmAccount

inductive RealmBlocker
  | appearsTwice (realm : Text)
  | minutes (realm : Text)
  | localDirectory (realm : Text)
  | address (realm url : Text)
  | filter (realm : Text)
  | directoryAccounts (realm : Text)
  | noDirectory (realm : Text)
  | kind (realm kind : Text)
  | accountTwice (realm username : Text)
  | notBcrypt (realm username : Text)

/-- What is wrong with the kind of a realm. -/
def kindBlockers (realm : FileRealm) : List RealmBlocker :=
  if realm.kind = "local".toList then
    match realm.directory with
    | none => []
    | some _ => [.localDirectory realm.name]
  else if realm.kind = "ldap".toList then
    match realm.directory with
    | some directory =>
        (if "ldap://".toList.isPrefixOf directory.url || "ldaps://".toList.isPrefixOf directory.url
          then [] else [.address realm.name directory.url]) ++
        (if Text.hasInfix "\x7buser\x7d".toList directory.userFilter then []
          else [.filter realm.name]) ++
        (if realm.accounts ≠ [] then [.directoryAccounts realm.name] else [])
    | none => [.noDirectory realm.name]
  else [.kind realm.name realm.kind]

/-- One account; `names` are those before it. -/
def accountBlockers (realm : FileRealm) (names : List Text) (account : RealmAccount) :
    List RealmBlocker :=
  (if names.contains account.username then [.accountTwice realm.name account.username] else []) ++
  (if "$2".toList.isPrefixOf account.passwordHash then []
    else [.notBcrypt realm.name account.username])

def accountsBlockers (realm : FileRealm) (names : List Text) : List RealmAccount → List RealmBlocker
  | [] => []
  | account :: accounts =>
      accountBlockers realm names account ++
        accountsBlockers realm (names ++ [account.username]) accounts

/-- What `check` holds against the file's realms; `names` are those before. -/
def realmBlockers (names : List Text) : List FileRealm → List RealmBlocker
  | [] => []
  | realm :: realms =>
      (if names.contains realm.name then [.appearsTwice realm.name] else []) ++
      (if !minutesAllowed realm.sessionMinutes || !minutesAllowed realm.idleMinutes ||
          realm.sessionMinutes < realm.idleMinutes then [.minutes realm.name] else []) ++
      kindBlockers realm ++ accountsBlockers realm [] realm.accounts ++
      realmBlockers (names ++ [realm.name]) realms

variable (libraries : Libraries) (toJson : LdapConfig → Text)

/-- The search account's password a realm of this name has. -/
def keptPassword (tables : RealmTables) (name : Text) : Text :=
  (((tables.findRealm name).bind fun row => libraries.ldapConfigFromJson row.config).map
    (·.bindPassword)).getD []

/-- How a realm's directory is asked, as it is stored. -/
def FileRealm.config (realm : FileRealm) (tables : RealmTables) : Text :=
  match realm.directory with
  | some directory =>
      toJson
        { url := directory.url
          starttls := directory.starttls
          verifyTls := directory.verifyTls
          bindDn := directory.bindDn
          bindPassword := directory.bindPassword.getD (keptPassword libraries tables realm.name)
          baseDn := directory.baseDn
          userFilter := directory.userFilter
          groupsAttribute := directory.groupsAttribute }
  | none => "\x7b\x7d".toList

/-- `DO UPDATE SET kind, session_minutes, idle_minutes, config`. -/
def FileRealm.change (realm : FileRealm) (config : Text) : RealmTables.RealmChange where
  set row :=
    { row with
      kind := realm.kind
      sessionMinutes := realm.sessionMinutes
      idleMinutes := realm.idleMinutes
      config := config }
  id _ := rfl
  name _ := rfl
  epoch row :=
    show row.epoch ≤ ({ row with config := config } : AuthRealm).epoch from Int.le_refl row.epoch

/-- `INSERT INTO auth_realms … ON CONFLICT(name) DO UPDATE`. -/
def upsertRealm (tables : RealmTables) (realm : FileRealm) : RealmTables :=
  let config := realm.config libraries toJson tables
  match tables.insertRealm
      { id := 0, name := realm.name, kind := realm.kind, sessionMinutes := realm.sessionMinutes,
        idleMinutes := realm.idleMinutes, epoch := 0, config := config } with
  | some tables => tables
  | none => tables.updateRealm realm.name (realm.change config)

/-- `DO UPDATE SET epoch = epoch + (password_hash <> … OR enabled <> …)`, the hash
and the switch. -/
def RealmAccount.change (account : RealmAccount) : RealmTables.UserChange where
  set user :=
    { user with
      epoch :=
        if user.passwordHash ≠ account.passwordHash ∨ user.enabled ≠ account.enabled then
          user.epoch + 1
        else user.epoch
      passwordHash := account.passwordHash
      enabled := account.enabled }
  realmId _ := rfl
  username _ := rfl
  epoch user := by
    by_cases hchanged : user.passwordHash ≠ account.passwordHash ∨ user.enabled ≠ account.enabled
    · right
      simp only [if_pos hchanged]
      exact Int.lt_succ user.epoch
    · left
      obtain ⟨hhash, henabled⟩ := not_or.mp hchanged
      simp only [if_neg hchanged]
      rw [← not_not.mp hhash, ← not_not.mp henabled]

/-- `INSERT INTO auth_users … ON CONFLICT(realm_id, username) DO UPDATE`. -/
def upsertAccount (realmId : ℤ) (tables : RealmTables) (account : RealmAccount) : RealmTables :=
  match tables.insertUser realmId account.username account.passwordHash account.enabled with
  | some tables => tables
  | none => tables.updateUser realmId account.username account.change

/-- The statements for one realm of the file. -/
def importRealm (tables : RealmTables) (realm : FileRealm) : RealmTables :=
  let upserted := upsertRealm libraries toJson tables realm
  match upserted.findRealm realm.name with
  | none => upserted
  | some row =>
      let kept :=
        if realm.kind ≠ "local".toList then upserted.deleteUsers fun user => user.realmId = row.id
        else upserted
      realm.accounts.foldl (upsertAccount row.id) kept

/-- `apply`, the realms: the file's, and none that it does not name. -/
def importRealms (tables : RealmTables) (realms : List FileRealm) : RealmTables :=
  let wanted := realms.map (·.name)
  realms.foldl (importRealm libraries toJson)
    (tables.deleteRealms fun row => !wanted.contains row.name)

end EasyWaf.Import
