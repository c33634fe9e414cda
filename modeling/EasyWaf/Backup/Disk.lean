import EasyWaf.Core.Program
import EasyWaf.Text.Utf8

/-!
# The files beside the database

The database, its log and what a restore keeps beside them.  A log holds the
changes that are not in the database's own file yet, so a database reads as its
file with the log applied; a log that is lost takes its changes with it.

Each operation of the start is carried out as the world chooses: it works, it
fails and leaves everything as it was, or it is a write that stops half-way.
-/

namespace EasyWaf.Backup

open EasyWaf.Core

/-- A database: which one it is, and what it holds. -/
structure Database (Rows : Type) where
  origin : ℕ
  rows : Rows
deriving DecidableEq

inductive Path
  | db | wal | shm | staged | before | beforeTmp | marker | outcome | reason
deriving DecidableEq

inductive File (Rows : Type)
  | database (database : Database Rows)
  | log (changes : Rows → Rows)
  | text (text : Text)
  | incomplete

/-- The databases of a restore: the one to be replaced and the one staged. -/
structure Restore where
  replaced : ℕ
  staged : ℕ
deriving DecidableEq

/-- A setting written into the database, and the database it was written into. -/
structure Recorded where
  key : Text
  value : Text
  origin : Option ℕ
  restore : Option Restore

/-- The files, and what has happened so far: the database that was last in use,
the last restore that was staged and the settings recorded. -/
structure Disk (Rows : Type) where
  files : Path → Option (File Rows)
  inUse : Database Rows
  restore : Option Restore
  recorded : List Recorded

inductive Op
  | exists (path : Path)
  | removeFile (path : Path)
  | rename (source dest : Path)
  | readToString (path : Path)
  | write (path : Path) (text : Text)
  /-- `SqlitePool::connect` to the database that is to be replaced. -/
  | connect
  /-- `take`, into `beforeTmp`. -/
  | take
  | close
  /-- `inspect`, of the staged file. -/
  | inspect
  /-- `db::init`: open the database and bring its schema up to date. -/
  | init
  | record (key value : Text)
  | now

abbrev Answer : Op → Type
  | .exists _ => Bool
  | .removeFile _ => Unit
  | .rename _ _ => Except Text Unit
  | .readToString _ => Option Text
  | .write _ _ => Bool
  | .connect => Except Text Unit
  | .take => Except Text Unit
  | .close => Unit
  | .inspect => Except Text (Option Text)
  | .init => Bool
  | .record _ _ => Unit
  | .now => Text

/-- What the world makes of an operation. -/
inductive Choice (Rows : Type)
  | works
  | fails (error : Text)
  /-- A write that leaves only so much of the file. -/
  | stops (length : ℕ) (error : Text)
  | answers (text : Option Text)
  /-- The database in use is written to; `logged` is what then is in its log. -/
  | writes (rows : Rows) (logged : Option (Rows → Rows)) (opens : Bool)

namespace Disk

variable {Rows : Type}

def set (disk : Disk Rows) (path : Path) (file : Option (File Rows)) : Disk Rows :=
  { disk with files := Function.update disk.files path file }

/-- The database at the live path, read through its log. -/
def live (disk : Disk Rows) : Option (Database Rows) :=
  match disk.files .db, disk.files .wal with
  | some (.database database), some (.log changes) =>
      some { database with rows := changes database.rows }
  | some (.database database), _ => some database
  | _, _ => none

/-- Closing the last connection moves the log into the database's own file. -/
def folded (disk : Disk Rows) : Disk Rows :=
  match disk.live with
  | some database => (disk.set .db (some (.database database))).set .wal none
  | none => disk

variable [DecidableEq Rows]

/-- The live database is written to.  Where it is the one last in use, that is
what was last in use from then on. -/
def used (disk : Disk Rows) (rows : Rows) (logged : Option (Rows → Rows)) : Disk Rows :=
  match disk.live with
  | some database =>
      let after := (disk.set .db (some (.database { database with rows }))).set .wal
        (logged.map .log)
      if database = disk.inUse then { after with inUse := after.live.getD disk.inUse } else after
  | none => disk

end Disk

variable {Rows : Type} [DecidableEq Rows]

open Disk in
/-- What an operation answers and leaves, where the world may so choose. -/
def effect (op : Op) (choice : Choice Rows) (disk : Disk Rows) :
    Option (Answer op × Disk Rows) :=
  match op, choice with
  | .exists path, .works => some ((disk.files path).isSome, disk)
  -- An error reading it counts as nothing.
  | .exists _, .fails _ => some (false, disk)
  | .removeFile path, .works => some ((), disk.set path none)
  | .removeFile _, .fails _ => some ((), disk)
  | .rename source dest, .works =>
      (disk.files source).map fun file =>
        (.ok (), (disk.set dest (some file)).set source none)
  | .rename _ _, .fails error => some (.error error, disk)
  | .readToString path, .works =>
      match disk.files path with
      | some (.text text) => some (some text, disk)
      | _ => some (none, disk)
  | .readToString _, .fails _ => some (none, disk)
  | .write path text, .works => some (true, disk.set path (some (.text text)))
  | .write _ _, .fails _ => some (false, disk)
  | .write path text, .stops length _ =>
      some (false, disk.set path (some (.text (text.take length))))
  | .connect, .works => some (.ok (), disk)
  | .connect, .fails error => some (.error error, disk)
  | .take, .works =>
      match disk.live, disk.files .beforeTmp with
      | some database, none => some (.ok (), disk.set .beforeTmp (some (.database database)))
      | _, _ => none
  | .take, .fails error => some (.error error, disk)
  | .take, .stops _ error => some (.error error, disk.set .beforeTmp (some .incomplete))
  | .close, .works => some ((), disk.folded)
  | .close, .fails _ => some ((), disk)
  | .inspect, .answers version => some (.ok version, disk)
  | .inspect, .fails error => some (.error error, disk)
  | .init, .writes rows logged opens => some (opens, disk.used rows logged)
  | .record key value, .writes rows logged _ =>
      let after := disk.used rows logged
      some ((), { after with
        recorded := disk.recorded ++
          [⟨key, value, disk.live.map (·.origin), disk.restore⟩] })
  | .record _ _, .fails _ => some ((), disk)
  | .now, .answers text => some (text.getD [], disk)
  | _, _ => none

end EasyWaf.Backup
