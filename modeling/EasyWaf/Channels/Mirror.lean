import EasyWaf.Channels.Bundle
import EasyWaf.Core.Interleaving

/-!
# The mirror of a channel

A channel is mirrored in a directory.  A bundle is staged in a directory beside it
and swapped for it, and the one it replaces is kept until the swap has worked.  The
operations on the three directories are carried out as the world chooses: any of them
may fail, a removal may stop half-way and a write may leave part of a file.
-/

namespace EasyWaf.Channels

open EasyWaf.Core EasyWaf.Core.Program

/-- A directory: whether the one for the files is in it, and the files. -/
structure Dir where
  inner : Bool
  files : List (Entry × Bytes)
  deriving DecidableEq

namespace Dir

def get (dir : Dir) (entry : Entry) : Option Bytes := dir.files.lookup entry

def put (dir : Dir) (entry : Entry) (body : Bytes) : Dir :=
  { dir with files := (entry, body) :: dir.files }

def empty : Dir where
  inner := true
  files := []

def isEmpty (dir : Dir) : Bool := !dir.inner && dir.files.isEmpty

@[simp]
theorem get_put_self (dir : Dir) (entry : Entry) (body : Bytes) :
    (dir.put entry body).get entry = some body := by
  simp [get, put]

theorem get_put_of_ne (dir : Dir) {entry other : Entry} (body : Bytes) (hother : other ≠ entry) :
    (dir.put entry body).get other = dir.get other := by
  have hne : (other == entry) = false := by simpa using hother
  simp [get, put, List.lookup_cons, hne]

theorem isEmpty_of_get {dir : Dir} {entry : Entry} {body : Bytes}
    (hget : dir.get entry = some body) : dir.isEmpty = false := by
  cases hfiles : dir.files with
  | nil => simp [get, hfiles] at hget
  | cons first rest => simp [isEmpty, hfiles]

end Dir

inductive Area
  | mirror
  | stage
  | old
  deriving DecidableEq

/-- The directories of a channel, and what the last install that worked put in the
place of the mirror. -/
structure Mirror where
  dirs : Area → Option Dir
  last : Option Dir

inductive Op
  | removeDir (area : Area)
  /-- `create_dir_all` of the directory and the one for the files in it. -/
  | createDir (area : Area)
  | write (area : Area) (entry : Entry) (body : Bytes)
  | exists (area : Area)
  | rename (source dest : Area)
  /-- Whether the mirror has any file in it, for the seeding. -/
  | readSets
  /-- The rule sets and the manifest of the package. -/
  | packaged
  | read (entry : Entry)

abbrev Answer : Op → Type
  | .removeDir _ => Unit
  | .createDir _ => Bool
  | .write _ _ _ => Bool
  | .exists _ => Bool
  | .rename _ _ => Bool
  | .readSets => Bool
  | .packaged => Option (List (Entry × Bytes))
  | .read _ => Option Bytes

inductive Choice
  | works
  | fails
  /-- A removal that leaves some of the directory. -/
  | leaves (inner : Bool) (kept : Entry → Bool)
  /-- A write that leaves part of the file, or the outer directory alone. -/
  | stops (body : Bytes)
  | finds (files : List (Entry × Bytes))

namespace Mirror

def set (mirror : Mirror) (area : Area) (dir : Option Dir) : Mirror :=
  { mirror with dirs := Function.update mirror.dirs area dir }

def put (mirror : Mirror) (area : Area) (entry : Entry) (body : Bytes) : Option Mirror :=
  (mirror.dirs area).map fun dir => mirror.set area (some (dir.put entry body))

/-- A rename puts a directory where there is none, or an empty one. -/
def free (mirror : Mirror) (area : Area) : Bool :=
  match mirror.dirs area with
  | some dir => dir.isEmpty
  | none => true

def rename (mirror : Mirror) (source dest : Area) : Option Mirror :=
  match mirror.dirs source with
  | some dir =>
      if mirror.free dest then
        let moved := (mirror.set dest (some dir)).set source none
        some (if source = .stage ∧ dest = .mirror then { moved with last := some dir } else moved)
      else none
  | none => none

/-- The mirror's directory has a file in it. -/
def hasFiles (mirror : Mirror) : Bool :=
  (mirror.dirs .mirror).any fun dir => dir.files.any fun file =>
    match file.1 with
    | .file _ => true
    | _ => false

end Mirror

/-- What an operation answers and leaves, where the world may so choose. -/
def effect (op : Op) (choice : Choice) (mirror : Mirror) : Option (Answer op × Mirror) :=
  match op, choice with
  | .removeDir area, .works => some ((), mirror.set area none)
  | .removeDir area, .leaves inner kept =>
      some ((), mirror.set area ((mirror.dirs area).map fun dir =>
        { inner := dir.inner && inner, files := dir.files.filter fun file => kept file.1 }))
  | .createDir area, .works =>
      some (true, mirror.set area (some
        ((mirror.dirs area).elim Dir.empty fun dir => { dir with inner := true })))
  | .createDir _, .fails => some (false, mirror)
  | .createDir area, .stops _ =>
      some (false, mirror.set area (some ((mirror.dirs area).getD { inner := false, files := [] })))
  | .write area entry body, .works => (mirror.put area entry body).map fun after => (true, after)
  | .write _ _ _, .fails => some (false, mirror)
  | .write area entry _, .stops part => (mirror.put area entry part).map fun after => (false, after)
  | .exists area, .works => some ((mirror.dirs area).isSome, mirror)
  | .exists _, .fails => some (false, mirror)
  | .rename source dest, .works => (mirror.rename source dest).map fun after => (true, after)
  | .rename _ _, .fails => some (false, mirror)
  | .readSets, .works => some (mirror.hasFiles, mirror)
  | .readSets, .fails => some (false, mirror)
  | .packaged, .finds files => some (some files, mirror)
  | .packaged, .fails => some (none, mirror)
  | .read entry, .works => some ((mirror.dirs .mirror).bind fun dir => dir.get entry, mirror)
  | .read _, .fails => some (none, mirror)
  | _, _ => none

/-! ## Installing a bundle -/

abbrev Task := Program Op Answer

variable (verifies : Bytes → Text → Bool) (sha256Hex : Bytes → Text)

/-- The files a manifest names, each checked against its digest and staged. -/
def stageFiles (bundle : Bundle) : List (Option Listed) → Task Bool
  | [] => pure true
  | none :: _ => pure false
  | some entry :: rest =>
      match bundle.files entry.name with
      | some body =>
          if sha256Hex body = entry.sha256 then do
            let written ← perform (Op.write .stage (.file entry.name) body)
            if written then stageFiles bundle rest else pure false
          else pure false
      | none => pure false

/-- All of a bundle is staged: its files, the manifest and the signature. -/
def stageBundle (channel : Channel) (bundle : Bundle) (manifest : Text) : Task Bool := do
  let staged ← stageFiles sha256Hex bundle (listed channel manifest)
  if staged then do
    let written ← perform (Op.write .stage .manifest bundle.manifest)
    if written then perform (Op.write .stage .signature bundle.signature.bytes) else pure false
  else pure false

/-- The last two steps of a swap: what is staged takes the free place of the mirror, or
what was moved away is put back. -/
def finishSwap : Task Bool := do
  let swapped ← perform (Op.rename .stage .mirror)
  if swapped then do
    perform (Op.removeDir .old)
    pure true
  else do
    let _ ← perform (Op.rename .old .mirror)
    pure false

/-- What is staged takes the place of the mirror. -/
def swap : Task Bool := do
  perform (Op.removeDir .old)
  let there ← perform (Op.exists .mirror)
  let moved ← (if there then perform (Op.rename .mirror .old) else pure true)
  if moved then finishSwap else pure false

/-- `install_bundle` of a channel. -/
def installBundle (channel : Channel) (bundle : Bundle) : Task Bool := do
  if verifies bundle.manifest bundle.signature then
    match Text.fromUtf8 bundle.manifest with
    | some manifest =>
        if offers channel manifest then do
          perform (Op.removeDir .stage)
          let created ← perform (Op.createDir .stage)
          if created then do
            let staged ← stageBundle sha256Hex channel bundle manifest
            if staged then swap
            else do
              perform (Op.removeDir .stage)
              pure false
          else pure false
        else pure false
    | none => pure false
  else pure false

/-- `rules_update::install_bundle`. -/
def installRuleSets : Bundle → Task Bool := installBundle verifies sha256Hex .ruleSets

/-- `iplist_feeds::install_bundle`. -/
def installIpLists : Bundle → Task Bool := installBundle verifies sha256Hex .ipLists

/-! ## Seeding and reading -/

/-- Copies that fail are passed over. -/
def copyEach : List (Entry × Bytes) → Task Bool
  | [] => pure true
  | (entry, body) :: rest => do
      let _ ← perform (Op.write .mirror entry body)
      copyEach rest

/-- `seed_cache_from_bundle`. -/
def seedCacheFromBundle : Task Bool := do
  let already ← perform Op.readSets
  if already then pure true
  else
    match ← perform Op.packaged with
    | some files => do
        let created ← perform (Op.createDir .mirror)
        if created then copyEach files else pure false
    | none => pure false

/-- The files of a list of entries, each read and checked against its digest. -/
def readFiles : List (Option Listed) → Task Bool
  | [] => pure true
  | none :: rest => readFiles rest
  | some entry :: rest => do
      let _ ← perform (Op.read (.file entry.name))
      readFiles rest

/-- What reads a mirror: the manifest and its signature, and where they verify the
files the manifest names. -/
def readMirror (channel : Channel) : Task Bool := do
  match ← perform (Op.read .manifest) with
  | some manifest => do
      match ← perform (Op.read .signature) with
      | some signature =>
          match Text.fromUtf8 signature, Text.fromUtf8 manifest with
          | some signature, some text =>
              if verifies manifest signature then readFiles (listed channel text) else pure false
          | _, _ => pure false
      | none => pure false
  | none => pure false

inductive Request
  | install (bundle : Bundle)
  | seed
  | reload

def program (channel : Channel) : Request → Task Bool
  | .install bundle => installBundle verifies sha256Hex channel bundle
  | .seed => seedCacheFromBundle
  | .reload => readMirror verifies channel

/-- What a start does with a mirror: that of rule sets is seeded, the other is read. -/
def boot : Channel → Task Bool
  | .ruleSets => seedCacheFromBundle
  | .ipLists => readMirror verifies .ipLists

end EasyWaf.Channels
