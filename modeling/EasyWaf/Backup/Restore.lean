import EasyWaf.Backup.Disk

/-!
# Restoring a snapshot

The two halves of a start that apply a staged restore, undo one that did not come
up and say what became of it, and the life of the process around them.
-/

namespace EasyWaf.Backup

open EasyWaf.Core EasyWaf.Core.Program

abbrev Start := Program Op Answer

namespace Start

def existsAt (path : Path) : Start Bool := perform (Op.exists path)

def removeFile (path : Path) : Start Unit := perform (Op.removeFile path)

def rename (source dest : Path) : Start (Except Text Unit) := perform (Op.rename source dest)

def readToString (path : Path) : Start (Option Text) := perform (Op.readToString path)

def write (path : Path) (text : Text) : Start Bool := perform (Op.write path text)

def connect : Start (Except Text Unit) := perform Op.connect

def take : Start (Except Text Unit) := perform Op.take

def close : Start Unit := perform Op.close

def inspect : Start (Except Text (Option Text)) := perform Op.inspect

def init : Start Bool := perform Op.init

def record (key value : Text) : Start Unit := perform (Op.record key value)

def now : Start Text := perform Op.now

end Start

open Start

/-! ## Before the database is opened -/

/-- The first line of the reason file, or what a snapshot is called. -/
def subjectOf (reason : Option Text) : Text :=
  (reason.bind fun text => text.lines.head?).getD "The restored snapshot".toList

/-- `apply_staged_restore_at`: what was replaced is put back. -/
def putBack : Start Unit := do
  removeFile .wal
  removeFile .shm
  match ← rename .before .db with
  | .ok () => do
      let reason ← readToString .reason
      let subject := subjectOf reason
      removeFile .reason
      let _ ← write .outcome ("failed\n".toList ++ subject ++
        (" did not start — it would not open, or this version could not bring its schema " ++
          "up to date. The database it replaced has been put back, unchanged.").toList)
  | .error _ => pure ()

/-- The restored database is the one that failed. -/
def undo : Start Unit := do
  let kept ← existsAt .before
  (if kept then putBack else pure ())
  removeFile .marker

/-- Without a way back there is no restore. -/
def notApplied (message : Text) : Start Bool := do
  let _ ← write .outcome ("failed\nNot applied: ".toList ++ message)
  removeFile .staged
  pure false

/-- The current database is copied whole to where it is kept. -/
def keepCurrent : Start Bool := do
  removeFile .beforeTmp
  match ← connect with
  | .ok () => do
      let taken ← take
      close
      let kept ← (match taken with
        | .ok () => rename .beforeTmp .before
        | .error error => pure (.error error))
      match kept with
      | .ok () => pure true
      | .error error =>
          notApplied (("the current database could not be kept first, so there would " ++
            "have been no way back (").toList ++ error ++ "). Nothing was changed.".toList)
  | .error error =>
      notApplied ("the current database would not open to be kept first (".toList ++ error ++
        "). Nothing was changed.".toList)

/-- From here a start knows a swap began. -/
def writeMarker : Start Bool := do
  let contents ← inspect
  let version := match contents with
    | .ok writtenBy => writtenBy.getD []
    | .error _ => []
  write .marker ("swapping\n".toList ++ version ++ "\n".toList)

def beginSwap : Start Bool := do
  let there ← existsAt .db
  let kept ← (if there then keepCurrent else pure true)
  if kept then writeMarker else pure false

/-- The staged database is moved into place. -/
def swap : Start Unit := do
  removeFile .wal
  removeFile .shm
  match ← rename .staged .db with
  | .ok () => pure ()
  | .error error => do
      let _ ← write .outcome
        ("failed\nNot applied: the snapshot could not be moved into place (".toList ++ error ++
          "). The database was not changed.".toList)
      removeFile .marker

def applyWaiting : Start Unit := do
  let begun ← existsAt .marker
  let kept ← (if begun then pure true else beginSwap)
  if kept then swap else pure ()

def applyStaged : Start Unit := do
  let waiting ← existsAt .staged
  if waiting then applyWaiting else pure ()

/-- `apply_staged_restore_at`. -/
def applyStagedRestore : Start Unit := do
  let begun ← existsAt .marker
  let waiting ← (if begun then existsAt .staged else pure true)
  if begun && !waiting then undo else applyStaged

/-! ## Once it is open -/

def keyRestoreOutcome : Text := "restore_outcome".toList

def keyRestoreMessage : Text := "restore_message".toList

def keyRestoreAt : Text := "restore_at".toList

/-- The version in the marker, for the message. -/
def versionOf (marker : Option Text) : Option Text :=
  ((marker.bind fun text => text.lines[1]?).map Text.trim).filter (· ≠ [])

def restoredMessage (reason version : Option Text) : Text :=
  match reason.bind (Text.splitOnce '\n') with
  | some (_, success) =>
      success.trim ++ " The database it replaced is kept and can be downloaded below.".toList
  | none =>
      "Restored from a snapshot".toList ++
        (version.map fun version => " last run by EasyWAF ".toList ++ version).getD [] ++
        ". The database it replaced is kept beside it and can be downloaded below.".toList

/-- This start is the one that brought a restore up. -/
def accept : Start Unit := do
  let marker ← readToString .marker
  let version := versionOf marker
  removeFile .marker
  let reason ← readToString .reason
  removeFile .reason
  let _ ← write .outcome ("ok\n".toList ++ restoredMessage reason version)

/-- The status and the message of an outcome. -/
def outcomeOf (text : Text) : Text × Text := (text.splitOnce '\n').getD (text, [])

def recordOutcome (text : Text) : Start Unit := do
  record keyRestoreOutcome (outcomeOf text).1.trim
  record keyRestoreMessage (outcomeOf text).2.trim
  let time ← now
  record keyRestoreAt time
  removeFile .outcome

/-- `finish_restore`. -/
def finishRestore : Start Unit := do
  let begun ← existsAt .marker
  (if begun then accept else pure ())
  match ← readToString .outcome with
  | some text => recordOutcome text
  | none => pure ()

/-- A start: whether the database came up. -/
def start : Start Bool := do
  applyStagedRestore
  let opened ← init
  if opened then (do finishRestore; pure true) else pure false

/-! ## The process -/

variable {Rows : Type} [DecidableEq Rows]

inductive Phase
  | down
  | starting (rest : Start Bool)
  | up

structure World (Rows : Type) where
  disk : Disk Rows
  phase : Phase

inductive Action (Rows : Type)
  | boot
  | advance (choice : Choice Rows)
  | die
  /-- The running process stages another database, and says what it is. -/
  | stage (database : Database Rows) (reason : Option Text)
  | use (rows : Rows) (logged : Option (Rows → Rows))

/-- A start has finished.  The restored database is then the one in use. -/
def Disk.finished (disk : Disk Rows) : Disk Rows :=
  match disk.live, disk.restore with
  | some database, some restore =>
      if database.origin = restore.staged then { disk with inUse := database } else disk
  | _, _ => disk

def arrive : Start Bool → Disk Rows → World Rows
  | .done true, disk => { disk := disk.finished, phase := .up }
  | .done false, disk => { disk, phase := .down }
  | rest, disk => { disk, phase := .starting rest }

/-- `set_reason` and `stage`: the staged database is another file than the live
one. -/
def Disk.stage (disk : Disk Rows) (database : Database Rows) (reason : Option Text) :
    Option (Disk Rows) :=
  match disk.live with
  | some live =>
      if database.origin = live.origin then none
      else
        let disk := { disk with restore := some ⟨live.origin, database.origin⟩ }
        let disk := disk.set .staged (some (.database database))
        some (match reason with
          | some reason => disk.set .reason (some (.text reason))
          | none => disk)
  | none => none

/-- The process starts, goes on starting, is used and dies. -/
def step (world : World Rows) : Action Rows → Option (World Rows)
  | .boot =>
      match world.phase with
      | .down => some { world with phase := .starting start }
      | _ => none
  | .advance choice =>
      match world.phase with
      | .starting rest =>
          (rest.advance effect choice world.disk).map fun next => arrive next.1 next.2
      | _ => none
  | .die => some { world with phase := .down }
  | .stage database reason =>
      match world.phase with
      | .up => (world.disk.stage database reason).map fun disk => { world with disk }
      | _ => none
  | .use rows logged =>
      match world.phase with
      | .up => some { world with disk := world.disk.used rows logged }
      | _ => none

end EasyWaf.Backup
