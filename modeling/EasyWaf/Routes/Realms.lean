import EasyWaf.Core.Script
import EasyWaf.Gateway.RealmTables
import EasyWaf.Text.Decimal
import EasyWaf.Text.Utf8

/-!
# The forms of realms and their accounts
-/

namespace EasyWaf.Routes

open EasyWaf.Core Db Gateway

def maxName : ℕ := 64

def minPasswordLen : ℕ := 8

def maxPasswordBytes : ℕ := 72

/-- `MINUTES`. -/
def minutesAllowed (minutes : ℤ) : Bool := 5 ≤ minutes && minutes ≤ 43200

inductive NameError
  | missing
  | long
  | illegal
  deriving DecidableEq

inductive RealmError
  | realmName (error : NameError)
  | accountName (error : NameError)
  | sessionMinutes
  | idleMinutes
  | idleLonger
  | directory (problem : Text)
  | realmExists (name : Text)
  | noRealm (name : Text)
  | asked (name : Text) (sites : List Text)
  | accountsElsewhere
  | passwordShort
  | passwordLong
  | passwordsDiffer
  | accountExists (realm username : Text)
  | noAccount (username : Text)
  deriving DecidableEq

structure RealmForm where
  name : Option Text
  kind : Option Text
  sessionMinutes : Text
  idleMinutes : Text
  /-- What `read_ldap` makes of a directory's fields: the settings as they are
  stored, or what is wrong with them. -/
  directory : Except Text Text

structure NewAccountForm where
  username : Text
  password : Text
  confirmPassword : Text

structure PasswordForm where
  password : Text
  confirmPassword : Text

/-- `check_name`. -/
def checkName (name : Text) : Except NameError Unit :=
  if name = [] then .error .missing
  else if maxName < name.length then .error .long
  else if name.any fun c => Text.isControl c || Text.isWhitespace c ||
      [':', '"', '\\', '/', '<', '>'].contains c then .error .illegal
  else .ok ()

/-- `check_password`. -/
def checkPassword (password confirm : Text) : Except RealmError Unit :=
  if password.length < minPasswordLen then .error .passwordShort
  else if maxPasswordBytes < password.bytes.length then .error .passwordLong
  else if password ≠ confirm then .error .passwordsDiffer
  else .ok ()

/-- How long a sign-in lasts, and how long unused: `read_minutes`. -/
def readMinutes (form : RealmForm) : Except RealmError (ℤ × ℤ) := do
  let read (raw : Text) (error : RealmError) : Except RealmError ℤ :=
    match (Text.parseInt64 raw.trim).filter minutesAllowed with
    | some minutes => .ok minutes
    | none => .error error
  let session ← read form.sessionMinutes .sessionMinutes
  let idle ← read form.idleMinutes .idleMinutes
  if session < idle then .error .idleLonger else .ok (session, idle)

/-- What is stored of how a directory is asked; a realm with accounts of its own
keeps `stored`. -/
def readConfig (form : RealmForm) (kind stored : Text) : Except RealmError Text :=
  if kind = "ldap".toList then form.directory.mapError .directory else .ok stored

variable (tables : RealmTables)

def postRealmCreate (form : RealmForm) : Except RealmError RealmTables := do
  let name := (form.name.getD []).trim
  (checkName name).mapError .realmName
  let kind := if form.kind = some "ldap".toList then "ldap".toList else "local".toList
  let (sessionMinutes, idleMinutes) ← readMinutes form
  let config ← readConfig form kind "\x7b\x7d".toList
  match tables.insertRealm
      { id := 0, name, kind, sessionMinutes, idleMinutes, epoch := 0, config } with
  | some tables => .ok tables
  | none => .error (.realmExists name)

/-- How long a realm's sign-ins last, and how its directory is asked. -/
def settingsChange (sessionMinutes idleMinutes : ℤ) (config : Text) : RealmTables.RealmChange where
  set row := { row with sessionMinutes, idleMinutes, config }
  id _ := rfl
  name _ := rfl
  epoch _ := Int.le_refl _

def postRealmUpdate (name : Text) (form : RealmForm) : Except RealmError RealmTables :=
  match tables.findRealm name with
  | none => .error (.noRealm name)
  | some row => do
      let (sessionMinutes, idleMinutes) ← readMinutes form
      let config ← readConfig form row.kind row.config
      .ok (tables.updateRealm name (settingsChange sessionMinutes idleMinutes config))

/-- `epoch = epoch + 1` of a realm. -/
def raiseRealm : RealmTables.RealmChange where
  set row := { row with epoch := row.epoch + 1 }
  id _ := rfl
  name _ := rfl
  epoch row := (Int.lt_succ row.epoch).le

def postRealmSignOut (name : Text) : Except RealmError RealmTables :=
  match tables.findRealm name with
  | none => .error (.noRealm name)
  | some _ => .ok (tables.updateRealm name raiseRealm)

/-- The realm goes unless sites ask with it. -/
def postRealmDelete (name : Text) (sites : List Text) : Except RealmError RealmTables :=
  match tables.findRealm name with
  | none => .error (.noRealm name)
  | some row =>
      if sites ≠ [] then .error (.asked name sites)
      else .ok (tables.deleteRealms fun other => other.id = row.id)

/-- `local_realm`: the id of a realm that keeps its own accounts. -/
def localRealm (name : Text) : Except RealmError ℤ :=
  match tables.findRealm name with
  | none => .error (.noRealm name)
  | some row => if row.kind ≠ "local".toList then .error .accountsElsewhere else .ok row.id

/-- `hashed` is the hash of the form's password, salted afresh. -/
def postAccountAdd (name : Text) (form : NewAccountForm) (hashed : Text) :
    Except RealmError RealmTables := do
  let realmId ← localRealm tables name
  let username := form.username.trim
  (checkName username).mapError .accountName
  checkPassword form.password form.confirmPassword
  match tables.insertUser realmId username hashed true with
  | some tables => .ok tables
  | none => .error (.accountExists name username)

/-- `password_hash = ?, epoch = epoch + 1`. -/
def passwordChange (hashed : Text) : RealmTables.UserChange where
  set user := { user with passwordHash := hashed, epoch := user.epoch + 1 }
  realmId _ := rfl
  username _ := rfl
  epoch user := .inr (Int.lt_succ user.epoch)

def postAccountPassword (name username : Text) (form : PasswordForm) (hashed : Text) :
    Except RealmError RealmTables := do
  let realmId ← localRealm tables name
  checkPassword form.password form.confirmPassword
  match tables.findUser realmId username with
  | none => .error (.noAccount username)
  | some _ => .ok (tables.updateUser realmId username (passwordChange hashed))

/-- `enabled = ?, epoch = epoch + 1`. -/
def switchChange (enabled : Bool) : RealmTables.UserChange where
  set user := { user with enabled, epoch := user.epoch + 1 }
  realmId _ := rfl
  username _ := rfl
  epoch user := .inr (Int.lt_succ user.epoch)

def postAccountToggle (name username : Text) : Except RealmError RealmTables := do
  let realmId ← localRealm tables name
  match tables.findUser realmId username with
  | none => .error (.noAccount username)
  | some user => .ok (tables.updateUser realmId username (switchChange !user.enabled))

def postAccountDelete (name username : Text) : Except RealmError RealmTables := do
  let realmId ← localRealm tables name
  match tables.findUser realmId username with
  | none => .error (.noAccount username)
  | some _ =>
      .ok (tables.deleteUsers fun user => user.realmId = realmId ∧ user.username = username)

section Accepted

variable {tables} {next : RealmTables} {name username hashed : Text}

theorem localRealm_eq_ok {realmId : ℤ} (hlocal : localRealm tables name = .ok realmId) :
    ∃ row, tables.findRealm name = some row ∧ row.kind = "local".toList ∧ row.id = realmId := by
  rw [localRealm] at hlocal
  split at hlocal
  · contradiction
  · next row hfind =>
      split at hlocal
      · contradiction
      · next hkind => exact ⟨row, hfind, not_not.mp hkind, Except.ok.inj hlocal⟩

theorem postRealmCreate_eq_ok {form : RealmForm} (hcreate : postRealmCreate tables form = .ok next) :
    ∃ row, tables.insertRealm row = some next := by
  rw [postRealmCreate] at hcreate
  obtain ⟨_, _, hcreate⟩ := bind_eq_ok.mp hcreate
  obtain ⟨⟨sessionMinutes, idleMinutes⟩, _, hcreate⟩ := bind_eq_ok.mp hcreate
  obtain ⟨config, _, hcreate⟩ := bind_eq_ok.mp hcreate
  split at hcreate
  · next hinsert => exact ⟨_, Except.ok.inj hcreate ▸ hinsert⟩
  · contradiction

theorem postRealmUpdate_eq_ok {form : RealmForm}
    (hupdate : postRealmUpdate tables name form = .ok next) :
    ∃ sessionMinutes idleMinutes config,
      next = tables.updateRealm name (settingsChange sessionMinutes idleMinutes config) := by
  rw [postRealmUpdate] at hupdate
  split at hupdate
  · contradiction
  · obtain ⟨⟨sessionMinutes, idleMinutes⟩, _, hupdate⟩ := bind_eq_ok.mp hupdate
    obtain ⟨config, _, hupdate⟩ := bind_eq_ok.mp hupdate
    exact ⟨sessionMinutes, idleMinutes, config, (Except.ok.inj hupdate).symm⟩

theorem postRealmSignOut_eq_ok (hsignOut : postRealmSignOut tables name = .ok next) :
    next = tables.updateRealm name raiseRealm := by
  rw [postRealmSignOut] at hsignOut
  split at hsignOut
  · contradiction
  · exact (Except.ok.inj hsignOut).symm

theorem postRealmDelete_eq_ok {sites : List Text}
    (hdelete : postRealmDelete tables name sites = .ok next) :
    ∃ row, tables.findRealm name = some row ∧
      next = tables.deleteRealms fun other => other.id = row.id := by
  rw [postRealmDelete] at hdelete
  split at hdelete
  · contradiction
  · next row hfind =>
      split at hdelete
      · contradiction
      · exact ⟨row, hfind, (Except.ok.inj hdelete).symm⟩

theorem postAccountAdd_eq_ok {form : NewAccountForm}
    (hadd : postAccountAdd tables name form hashed = .ok next) :
    ∃ row, tables.findRealm name = some row ∧
      tables.insertUser row.id form.username.trim hashed true = some next := by
  rw [postAccountAdd] at hadd
  obtain ⟨_, hlocal, hadd⟩ := bind_eq_ok.mp hadd
  obtain ⟨row, hfind, _, rfl⟩ := localRealm_eq_ok hlocal
  obtain ⟨_, _, hadd⟩ := bind_eq_ok.mp hadd
  obtain ⟨_, _, hadd⟩ := bind_eq_ok.mp hadd
  split at hadd
  · next hinsert => exact ⟨row, hfind, Except.ok.inj hadd ▸ hinsert⟩
  · contradiction

theorem postAccountPassword_eq_ok {form : PasswordForm}
    (hset : postAccountPassword tables name username form hashed = .ok next) :
    ∃ row, tables.findRealm name = some row ∧ row.kind = "local".toList ∧
      next = tables.updateUser row.id username (passwordChange hashed) := by
  rw [postAccountPassword] at hset
  obtain ⟨_, hlocal, hset⟩ := bind_eq_ok.mp hset
  obtain ⟨row, hfind, hkind, rfl⟩ := localRealm_eq_ok hlocal
  obtain ⟨_, _, hset⟩ := bind_eq_ok.mp hset
  split at hset
  · contradiction
  · exact ⟨row, hfind, hkind, (Except.ok.inj hset).symm⟩

theorem postAccountToggle_eq_ok (htoggle : postAccountToggle tables name username = .ok next) :
    ∃ row enabled, tables.findRealm name = some row ∧ row.kind = "local".toList ∧
      next = tables.updateUser row.id username (switchChange enabled) := by
  rw [postAccountToggle] at htoggle
  obtain ⟨_, hlocal, htoggle⟩ := bind_eq_ok.mp htoggle
  obtain ⟨row, hfind, hkind, rfl⟩ := localRealm_eq_ok hlocal
  split at htoggle
  · contradiction
  · exact ⟨row, _, hfind, hkind, (Except.ok.inj htoggle).symm⟩

theorem postAccountDelete_eq_ok (hdelete : postAccountDelete tables name username = .ok next) :
    ∃ row, tables.findRealm name = some row ∧ row.kind = "local".toList ∧
      next = tables.deleteUsers fun user => user.realmId = row.id ∧ user.username = username := by
  rw [postAccountDelete] at hdelete
  obtain ⟨_, hlocal, hdelete⟩ := bind_eq_ok.mp hdelete
  obtain ⟨row, hfind, hkind, rfl⟩ := localRealm_eq_ok hlocal
  split at hdelete
  · contradiction
  · exact ⟨row, hfind, hkind, (Except.ok.inj hdelete).symm⟩

end Accepted

end EasyWaf.Routes
