import EasyWaf.Core.Procedure
import EasyWaf.Management.Users
import EasyWaf.Text.Utf8

/-!
# The forms that manage accounts

Each handler is a procedure of the statements it makes, one after another, none
of them in a transaction with the next.
-/

namespace EasyWaf.Management

open EasyWaf.Core Procedure

def minPasswordLen : ℕ := 8

def maxPasswordBytes : ℕ := 72

inductive PasswordError
  | short
  | long
  | differ
  deriving DecidableEq

inductive AccountError
  | usernameRequired
  | unknownRole
  | password (error : PasswordError)
  | exists (username : Text)
  | gone
  /-- What would leave no administrator. -/
  | orphans (what : Text)
  | suspendsItself
  | deletesItself
  | wrongPassword
  | samePassword
  | database
  deriving DecidableEq

/-- A handler, which tells what became of its request. -/
abbrev Handler := Procedure Users Bool (Except AccountError Unit)

def answer (result : Except AccountError Unit) : Handler := .done result

/-- `check_password`. -/
def checkPassword (password confirm : Text) : Except PasswordError Unit :=
  if password.length < minPasswordLen then .error .short
  else if maxPasswordBytes < password.bytes.length then .error .long
  else if password ≠ confirm then .error .differ
  else .ok ()

def otherEnabledAdmins (users : Users) (excludeId : ℤ) : ℕ :=
  (users.rows.filter fun user => user.administers ∧ user.id ≠ excludeId).length

/-- `would_orphan`: the request goes on unless it would leave no enabled
administrator. -/
def wouldOrphan (targetId : ℤ) (what : Text) (goOn : Handler) : Handler :=
  query (fun users =>
    if 0 < otherEnabledAdmins users targetId then goOn
    else
      query (fun users =>
        if users.rows.any fun user => user.id = targetId && user.administers then
          answer (.error (.orphans what))
        else goOn) (.error .database)) (.error .database)

/-- `end_all_sessions`. -/
def endAllSessions (id : ℤ) : Handler :=
  statement (fun users => users.update (·.id = id) Users.raiseEpoch)
    (fun _ => answer (.ok ())) (.error .database)

/-- An account is updated, and its sessions are ended if it was there. -/
def changeAndEndSessions (id : ℤ) (change : Users.Change) : Handler :=
  statement (fun users => users.update (·.id = id) change)
    (fun users =>
      if (users.find id).isNone then answer (.error .gone) else endAllSessions id)
    (.error .database)

structure NewAccountForm where
  username : Text
  password : Text
  confirmPassword : Text
  role : Text

structure PasswordForm where
  password : Text
  confirmPassword : Text

/-- `hashed` is the hash of the form's password. -/
def postAccountCreate (form : NewAccountForm) (hashed : Text) : Handler :=
  let username := form.username.trim
  if username = [] then answer (.error .usernameRequired)
  else
    match readRole form.role with
    | none => answer (.error .unknownRole)
    | some role =>
        match checkPassword form.password form.confirmPassword with
        | .error error => answer (.error (.password error))
        | .ok () =>
            statement (fun users => (users.insert username hashed role true).getD users)
              (fun users =>
                match users.insert username hashed role true with
                | some _ => answer (.ok ())
                | none => answer (.error (.exists username)))
              (.error .database)

def postAccountRole (id : ℤ) (role : Text) : Handler :=
  match readRole role with
  | none => answer (.error .unknownRole)
  | some .viewer =>
      wouldOrphan id "demoting it".toList (changeAndEndSessions id (Users.setRole .viewer))
  | some .admin => changeAndEndSessions id (Users.setRole .admin)

/-- The account is suspended, and its sessions ended. -/
def suspend (id : ℤ) : Handler :=
  statement (fun users => users.update (·.id = id) (Users.setEnabled false))
    (fun _ => endAllSessions id) (.error .database)

/-- The account may sign in again. -/
def restore (id : ℤ) : Handler :=
  statement (fun users => users.update (·.id = id) (Users.setEnabled true))
    (fun _ => answer (.ok ())) (.error .database)

/-- `session` is the id of the account that asks. -/
def postAccountToggle (session id : ℤ) : Handler :=
  if id = session then answer (.error .suspendsItself)
  else
    query (fun users =>
      match users.find id with
      | none => answer (.error .gone)
      | some user =>
          if user.enabled then wouldOrphan id "suspending it".toList (suspend id)
          else restore id) (.error .database)

def postAccountPassword (id : ℤ) (form : PasswordForm) (hashed : Text) : Handler :=
  match checkPassword form.password form.confirmPassword with
  | .error error => answer (.error (.password error))
  | .ok () => changeAndEndSessions id (Users.setPassword hashed)

def postAccountSignout (id : ℤ) : Handler :=
  query (fun users =>
    if (users.find id).isNone then answer (.error .gone) else endAllSessions id) (.error .database)

def postAccountDelete (session id : ℤ) : Handler :=
  if id = session then answer (.error .deletesItself)
  else
    wouldOrphan id "deleting it".toList
      (statement (fun users => users.delete id)
        (fun users =>
          if (users.find id).isNone then answer (.error .gone) else answer (.ok ()))
        (.error .database))

structure OwnPasswordForm where
  currentPassword : Text
  newPassword : Text
  confirmPassword : Text

/-- What `post_account_password` of an account's own page asks of its form. -/
def checkOwnPassword (form : OwnPasswordForm) : Except AccountError Unit :=
  if form.newPassword ≠ form.confirmPassword then .error (.password .differ)
  else if form.newPassword.length < minPasswordLen then .error (.password .short)
  else if maxPasswordBytes < form.newPassword.bytes.length then .error (.password .long)
  else if form.newPassword = form.currentPassword then .error .samePassword
  else .ok ()

/-- `post_account_password` of an account's own page; `verify` is that of bcrypt. -/
def postOwnPassword (verify : Text → Text → Bool) (username : Text) (form : OwnPasswordForm)
    (hashed : Text) : Handler :=
  query (fun users =>
    match users.findName username with
    | none => answer (.error .gone)
    | some stored =>
        if !verify form.currentPassword stored.passwordHash then answer (.error .wrongPassword)
        else
          match checkOwnPassword form with
          | .error error => answer (.error error)
          | .ok () =>
              statement (fun users => users.update (·.username = username) (Users.setPassword hashed))
                (fun _ =>
                  query (fun users =>
                    match users.findName username with
                    | none => answer (.ok ())
                    | some user => endAllSessions user.id) (.error .database))
                (.error .database)) (.error .gone)

end EasyWaf.Management
