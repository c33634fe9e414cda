import EasyWaf.Core.Machine
import EasyWaf.Management.Accounts
import EasyWaf.Management.Users

/-!
# Imports beside everything else

An import is applied to a copy of the live database, which the next start swaps
in.  Until then the live database keeps taking writes, and a second import works
through the same path: what a path names and what a connection has open are two
things, so a file is a number of its own.

What is written of the configuration itself is a list of statements the file and
the importer give; of the accounts, what `check` holds against them and the
statements of `apply` that write them.
-/

namespace EasyWaf.Import

open Management

section Accounts

structure FileAccount where
  username : Text
  role : Text
  enabled : Bool
  passwordHash : Text

inductive AccountBlocker
  | appearsTwice (username : Text)
  | role (username role : Text)
  | notBcrypt (username : Text)

/-- What `check` holds against the file's accounts; `names` are those before. -/
def accountBlockersFrom (names : List Text) : List FileAccount → List AccountBlocker
  | [] => []
  | account :: accounts =>
      (if names.contains account.username then [.appearsTwice account.username] else []) ++
      (if (readRole account.role).isNone then [.role account.username account.role] else []) ++
      (if "$2".toList.isPrefixOf account.passwordHash then [] else [.notBcrypt account.username]) ++
      accountBlockersFrom (names ++ [account.username]) accounts

/-- What an account in the file sets of one that is there. -/
def accountChange (account : FileAccount) (role : Role) : Users.Change where
  set user := { user with passwordHash := account.passwordHash, role, enabled := account.enabled }
  id _ := rfl
  username _ := rfl
  sessionEpoch := (Users.setPassword account.passwordHash).sessionEpoch

/-- The statement for one account: only the password of one's own, and otherwise
`INSERT INTO users … ON CONFLICT(username) DO UPDATE`. -/
def importAccount (importer : Text) (users : Users) (account : FileAccount) : Users :=
  if account.username = importer then
    users.update (·.username = account.username) (Users.setPassword account.passwordHash)
  else
    let role := (readRole account.role).getD .viewer
    match users.insert account.username account.passwordHash role account.enabled with
    | some users => users
    | none => users.update (·.username = account.username) (accountChange account role)

/-- `apply`, the accounts. -/
def importAccounts (importer : Text) (users : Users) (accounts : List FileAccount) : Users :=
  accounts.foldl (importAccount importer) users

end Accounts

/-- The tables: the accounts, those an import rewrites, and those it leaves. -/
structure Database (Config Rest : Type) where
  users : Users
  config : Config
  rest : Rest

/-- A configuration file; `exported` is all of it but the accounts. -/
structure Document (Exported : Type) where
  exported : Exported
  accounts : List FileAccount

/-- What an import sees of the installation. -/
structure Rules (Config Rest Exported : Type) where
  /-- `plan` has blockers. -/
  blocked : Database Config Rest → Document Exported → Text → Bool
  /-- The statements of `apply` before the accounts; one that fails has no result. -/
  configuration : Exported → Text → List (Config → Option Config)

section Apply

variable {Config Rest Exported : Type} (rules : Rules Config Rest Exported)

inductive Statement (Config : Type)
  | config (write : Config → Option Config)
  | account (account : FileAccount)

def Statement.run (importer : Text) : Statement Config → Database Config Rest →
    Option (Database Config Rest)
  | .config write, database => (write database.config).map fun config => { database with config }
  | .account row, database =>
      some { database with users := importAccount importer database.users row }

/-- The statements of `apply`, in their order. -/
def statements (document : Document Exported) (importer : Text) : List (Statement Config) :=
  (rules.configuration document.exported importer).map .config ++ document.accounts.map .account

/-- Statements one after another, up to one that fails. -/
def runAll (importer : Text) (statements : List (Statement Config))
    (database : Database Config Rest) : Option (Database Config Rest) :=
  statements.foldlM (fun database statement => statement.run importer database) database

/-- `apply`, where nothing else fails. -/
def apply (document : Document Exported) (importer : Text) (database : Database Config Rest) :
    Option (Database Config Rest) :=
  runAll importer (statements rules document importer) database

end Apply

/-! ## Imports under way -/

/-- A file that was copied for an import; `base` is what was copied. -/
structure Copy (Config Rest Exported : Type) where
  content : Database Config Rest
  base : Database Config Rest
  document : Document Exported
  importer : Text

/-- How far a request to import has come. -/
inductive Stage (Config Exported : Type)
  | asked
  | read (document : Document Exported)
  | planned (document : Document Exported)
  | cleared (document : Document Exported)
  | copied (document : Document Exported)
  | applying (document : Document Exported) (file : ℕ) (left : List (Statement Config))
  | applied (document : Document Exported)
  | failing
  | staged
  | answered (imported : Bool)

structure Call (Config Exported : Type) where
  importer : Text
  stage : Stage Config Exported

/-- What the imports share: the databases, the held file and the two paths. -/
structure Store (Config Rest Exported : Type) where
  live : Database Config Rest
  candidate : Option (Document Exported)
  files : List (Copy Config Rest Exported)
  /-- The file at the path every import works on. -/
  work : Option ℕ
  /-- The file the next start swaps in. -/
  staged : Option ℕ
  /-- The import whose copy is at the working path, for as long as it needs it. -/
  holder : Option ℕ
  /-- The imports that were begun, for the record. -/
  begun : List (Document Exported × Text)

structure World (Config Rest Exported : Type) where
  store : Store Config Rest Exported
  calls : List (Call Config Exported)

inductive Action (Config Rest Exported : Type)
  | upload (document : Document Exported)
  | discard
  | ask (importer : Text)
  /-- A write to the live database, by anyone. -/
  | write (change : Database Config Rest → Database Config Rest)
  /-- The next operation of an import works or fails. -/
  | advance (call : ℕ) (works : Bool)
  | restart

variable {Config Rest Exported : Type} (rules : Rules Config Rest Exported)

namespace Store

variable (store : Store Config Rest Exported)

/-- The import no longer needs its copy. -/
def release (call : ℕ) : Store Config Rest Exported :=
  if store.holder = some call then { store with holder := none } else store

/-- `take`: the live database is copied to the working path, where nothing may be
yet. -/
def take (call : ℕ) (document : Document Exported) (importer : Text) :
    Option (Store Config Rest Exported) :=
  match store.work with
  | some _ => none
  | none =>
      some
        { store with
          files := store.files ++ [⟨store.live, store.live, document, importer⟩]
          work := some store.files.length
          holder := some call }

/-- A statement of an import on the file it has open. -/
def execute (importer : Text) (file : ℕ) (statement : Statement Config) :
    Option (Store Config Rest Exported) :=
  match store.files[file]? with
  | some copy =>
      (statement.run importer copy.content).map fun content =>
        { store with files := store.files.set file { copy with content } }
  | none => none

end Store

/-- `post_import_apply`, one operation of it. -/
def proceed (call : ℕ) (importer : Text) (works : Bool) (store : Store Config Rest Exported) :
    Stage Config Exported → Option (Store Config Rest Exported × Stage Config Exported)
  | .asked =>
      match store.candidate, works with
      | some document, true => some (store, .read document)
      | _, _ => some (store, .answered false)
  | .read document =>
      if rules.blocked store.live document importer then some (store, .answered false)
      else
        some ({ store with begun := (document, importer) :: store.begun }, .planned document)
  -- What an earlier import left there is removed.
  | .planned document =>
      some (if works then { store with work := none } else store, .cleared document)
  | .cleared document =>
      match store.take call document importer, works with
      | some store, true => some (store, .copied document)
      | _, _ => some (store, .answered false)
  -- The connection is to the file that is at the path by then.
  | .copied document =>
      match store.work, works with
      | some file, true =>
          some (store, .applying document file (statements rules document importer))
      | _, _ => some (store, .failing)
  | .applying document file (statement :: left) =>
      match store.execute importer file statement, works with
      | some store, true => some (store, .applying document file left)
      | _, _ => some (store, .failing)
  -- The check of the copy as a whole.
  | .applying document _ [] => some (store, if works then .applied document else .failing)
  | .applied _ =>
      match store.work, works with
      | some file, true =>
          some ({ store with work := none, staged := some file }.release call, .staged)
      | _, _ => some (store, .failing)
  | .failing =>
      some ((if works then { store with work := none } else store).release call, .answered false)
  | .staged =>
      some (if works then { store with candidate := none } else store, .answered true)
  | .answered _ => none

/-- Before the next start: nothing is under way, and the staged file is the live
database. -/
def Store.restart (store : Store Config Rest Exported) : Store Config Rest Exported :=
  let next := { store with holder := none, staged := none }
  match store.staged.bind fun file => store.files[file]? with
  | some copy => { next with live := copy.content }
  | none => next

def step (world : World Config Rest Exported) :
    Action Config Rest Exported → Option (World Config Rest Exported)
  | .upload document =>
      some { world with store := { world.store with candidate := some document } }
  | .discard => some { world with store := { world.store with candidate := none } }
  | .ask importer => some { world with calls := world.calls ++ [⟨importer, .asked⟩] }
  | .write change =>
      some { world with store := { world.store with live := change world.store.live } }
  | .advance call works =>
      match world.calls[call]? with
      | some under =>
          (proceed rules call under.importer works world.store under.stage).map fun next =>
            { store := next.1
              calls := world.calls.set call { under with stage := next.2 } }
      | none => none
  | .restart => some { store := world.store.restart, calls := [] }

end EasyWaf.Import
