import EasyWaf.Channels.Bundle
import EasyWaf.Core.Program
import Mathlib.Data.List.Lex
import Mathlib.Logic.Function.Basic

/-!
# Where the country database is kept

A stored copy, the one it replaced, a line that says where it came from, and a fetched
copy that waits to be applied.  What answers lookups is in memory, with its source.
Files and settings are read and written one operation at a time, and any of these may
fail.
-/

namespace EasyWaf.Geo

open EasyWaf.Core Channels

/-- Where the bytes of a copy come from.  No operation reads it. -/
inductive Origin
  | bundled
  | configured
  /-- The signed channel, and the version it gave. -/
  | channel (version : Text)
  | byHand
  /-- A write that stopped half-way. -/
  | cut
  deriving DecidableEq

structure Copy where
  bytes : Bytes
  origin : Origin
  deriving DecidableEq

/-- Which of the four paths loaded the database in force. -/
inductive Source
  | bundled
  | configured
  | channel
  | uploaded
  deriving DecidableEq

def Source.text : Source → Text
  | .bundled => "bundled".toList
  | .configured => "configured".toList
  | .channel => "channel".toList
  | .uploaded => "uploaded".toList

/-- The files of a fetched copy. -/
inductive HeldFile
  | database (id : Text)
  | manifest
  | signature
  deriving DecidableEq

structure Store where
  stored : Option Copy
  previous : Option Copy
  staging : Option Copy
  note : Option Text
  held : HeldFile → Option Bytes
  /-- What `config.toml` names. -/
  configured : Text
  reader : Option Copy
  source : Source
  version : Option Text
  auto : Option Text
  /-- The version of the channel's database that was last put in place. -/
  placed : Text

/-- Nothing was ever stored, and the process has not started. -/
def Store.fresh : Store where
  stored := none
  previous := none
  staging := none
  note := none
  held := fun _ => none
  configured := []
  reader := none
  source := .bundled
  version := none
  auto := none
  placed := []

inductive Op
  | createDir
  | stage (copy : Copy)
  | storedExists
  | keepPrevious
  | putInPlace
  | writeNote (source : Source)
  | readNote
  | openStored
  | openConfigured (path : Text)
  | readConfigured
  | setConfigured (path : Text)
  | publish (reader : Option Copy) (source : Source)
  | status
  | readPrevious
  | removePrevious
  | fetch (name : Text)
  | readVersion
  | recordVersion (version : Text)
  | readAuto
  | setAuto (value : Text)
  | removeHeld
  | createHeld
  | writeHeld (file : HeldFile) (body : Bytes)
  | readHeld (file : HeldFile)

abbrev Answer : Op → Type
  | .createDir => Bool
  | .stage _ => Bool
  | .storedExists => Bool
  | .keepPrevious => Bool
  | .putInPlace => Bool
  | .writeNote _ => Unit
  | .readNote => Option Text
  | .openStored => Option Copy
  | .openConfigured _ => Option Bytes
  | .readConfigured => Text
  | .setConfigured _ => Unit
  | .publish _ _ => Unit
  | .status => Bool
  | .readPrevious => Option Copy
  | .removePrevious => Unit
  | .fetch _ => Option Bytes
  | .readVersion => Option Text
  | .recordVersion _ => Unit
  | .readAuto => Option Text
  | .setAuto _ => Unit
  | .removeHeld => Unit
  | .createHeld => Bool
  | .writeHeld _ _ => Bool
  | .readHeld _ => Option Bytes

inductive Choice
  | works
  | fails
  | finds (bytes : Bytes)
  /-- A write that stops after so many bytes. -/
  | stops (count : ℕ)
  /-- A removal that leaves some of the files. -/
  | leaves (kept : HeldFile → Bool)

variable (isDatabase : Bytes → Bool)

/-- The version a copy of the channel's carries. -/
def Copy.version (copy : Copy) : Option Text :=
  match copy.origin with
  | .channel version => some version
  | _ => none

def Store.keepPrevious (store : Store) : Option Store :=
  store.stored.map fun copy => { store with stored := none, previous := some copy }

def Store.putInPlace (store : Store) : Option Store :=
  store.staging.map fun copy =>
    { store with stored := some copy, staging := none, placed := copy.version.getD store.placed }

def Store.writeHeld (store : Store) (file : HeldFile) (body : Bytes) : Store :=
  { store with held := Function.update store.held file (some body) }

/-- What an operation answers and leaves, where the world may so choose. -/
def effect (op : Op) (choice : Choice) (store : Store) : Option (Answer op × Store) :=
  match op, choice with
  | .createDir, .works => some (true, store)
  | .createDir, .fails => some (false, store)
  | .stage copy, .works => some (true, { store with staging := some copy })
  | .stage _, .fails => some (false, store)
  | .stage copy, .stops count =>
      some (false, { store with staging := some { bytes := copy.bytes.take count, origin := .cut } })
  | .storedExists, .works => some (store.stored.isSome, store)
  | .storedExists, .fails => some (false, store)
  | .keepPrevious, .works => store.keepPrevious.map fun after => (true, after)
  | .keepPrevious, .fails => some (false, store)
  | .putInPlace, .works => store.putInPlace.map fun after => (true, after)
  | .putInPlace, .fails => some (false, store)
  | .writeNote source, .works => some ((), { store with note := some source.text })
  | .writeNote _, .fails => some ((), store)
  | .writeNote source, .stops count =>
      some ((), { store with note := some (source.text.take count) })
  | .readNote, .works => some (store.note, store)
  | .readNote, .fails => some (none, store)
  | .openStored, .works => some (store.stored.filter fun copy => isDatabase copy.bytes, store)
  | .openStored, .fails => some (none, store)
  | .openConfigured _, .finds bytes =>
      if isDatabase bytes then some (some bytes, store) else none
  | .openConfigured _, .fails => some (none, store)
  | .readConfigured, .works => some (store.configured, store)
  | .setConfigured path, .works => some ((), { store with configured := path })
  | .publish reader source, .works => some ((), { store with reader := reader, source := source })
  | .status, .works => some (store.reader.isSome, store)
  | .readPrevious, .works => some (store.previous, store)
  | .readPrevious, .fails => some (none, store)
  | .removePrevious, .works => some ((), { store with previous := none })
  | .removePrevious, .fails => some ((), store)
  | .fetch _, .finds bytes => some (some bytes, store)
  | .fetch _, .fails => some (none, store)
  | .readVersion, .works => some (store.version, store)
  | .readVersion, .fails => some (none, store)
  | .recordVersion version, .works => some ((), { store with version := some version })
  | .recordVersion _, .fails => some ((), store)
  | .readAuto, .works => some (store.auto, store)
  | .readAuto, .fails => some (none, store)
  | .setAuto value, .works => some ((), { store with auto := some value })
  | .setAuto _, .fails => some ((), store)
  | .removeHeld, .works => some ((), { store with held := fun _ => none })
  | .removeHeld, .leaves kept =>
      some ((), { store with held := fun file => if kept file then store.held file else none })
  | .createHeld, .works => some (true, store)
  | .createHeld, .fails => some (false, store)
  | .writeHeld file body, .works => some (true, store.writeHeld file body)
  | .writeHeld _ _, .fails => some (false, store)
  | .writeHeld file body, .stops count => some (false, store.writeHeld file (body.take count))
  | .readHeld file, .works => some (store.held file, store)
  | .readHeld _, .fails => some (none, store)
  | _, _ => none

end EasyWaf.Geo
