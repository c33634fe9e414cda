import EasyWaf.RuleSets.Manifest

/-!
# Signed bundles

A bundle is a manifest, its detached signature and the files it names.  The channel
of rule sets and that of IP lists read their manifests alike and differ in the name
a file goes by: the last part of its path, or the id of its list.
-/

namespace EasyWaf.Channels

abbrev Bytes := List UInt8

inductive Channel
  | ruleSets
  | ipLists
  deriving DecidableEq

/-! ## The manifest of IP lists -/

/-- `is_slug`. -/
def isSlug (text : Text) : Bool :=
  text ≠ [] && text.bytes.length ≤ 64 &&
    text.all fun c => ('a' ≤ c && c ≤ 'z') || ('0' ≤ c && c ≤ '9') || c = '-'

/-- `safe_relative`. -/
def safeRelative (path : Text) : Bool :=
  path ≠ [] && path.head? ≠ some '/' &&
    (path.splitOn '/').all (fun part => part ≠ [] && part ≠ ['.'] && part ≠ ['.', '.']) &&
    path.all fun c => (c.isAlphanum && c.toNat < 128) || ['-', '_', '.', '/'].contains c

/-- A list as the channel offers it, as far as its file goes. -/
structure OfferedList where
  id : Text
  file : Text
  sha256 : Text
  deriving DecidableEq

/-- A block without an id, a file and a digest is passed over, and so is one whose id
is not a plain name. -/
def parseListBlock (block : Text) : Option OfferedList := do
  let id ← RuleSets.blockValue block "id".toList
  let file ← RuleSets.blockValue block "file".toList
  let sha256 ← RuleSets.blockValue block "sha256".toList
  if isSlug id then some { id, file, sha256 := sha256.toAsciiLowercase } else none

/-- `parse_manifest` of the IP lists. -/
def parseLists (manifest : Text) : List OfferedList :=
  ((Text.splitText "[[lists]]".toList manifest).drop 1).filterMap parseListBlock

/-! ## What a bundle holds -/

/-- A file a manifest names: the name it goes by, and its digest. -/
structure Listed where
  name : Text
  sha256 : Text
  deriving DecidableEq

/-- `basename`. -/
def basename (path : Text) : Text := (RuleSets.fileName path).getD path

/-- The sets of a manifest that have a complete entry. -/
def listedSets (manifest : Text) : List (Option Listed) :=
  (RuleSets.parseManifest manifest).filterMap fun set =>
    (RuleSets.manifestEntry manifest set.id).map fun entry =>
      some { name := basename entry.file, sha256 := entry.sha256 }

/-- The lists of a manifest; one with a path that is not to be followed is nothing to
go on with. -/
def listedLists (manifest : Text) : List (Option Listed) :=
  (parseLists manifest).map fun list =>
    if safeRelative list.file then some { name := list.id, sha256 := list.sha256 } else none

/-- Whether a manifest offers anything at all. -/
def offers : Channel → Text → Bool
  | .ruleSets, manifest => RuleSets.parseManifest manifest ≠ []
  | .ipLists, manifest => parseLists manifest ≠ []

def listed : Channel → Text → List (Option Listed)
  | .ruleSets => listedSets
  | .ipLists => listedLists

structure Bundle where
  manifest : Bytes
  signature : Text
  /-- A file by its name. -/
  files : Text → Option Bytes

/-- A place in a mirror: a set by its file's name, or a list by its id. -/
inductive Entry
  | file (name : Text)
  | manifest
  | signature
  deriving DecidableEq

/-- The names a bundle's manifest gives. -/
def Bundle.names (channel : Channel) (bundle : Bundle) : List Text :=
  match Text.fromUtf8 bundle.manifest with
  | some manifest => (listed channel manifest).filterMap fun entry => entry.map (·.name)
  | none => []

/-- The files of a bundle, and where in a mirror they are. -/
def Bundle.contents (channel : Channel) (bundle : Bundle) : Entry → Option Bytes
  | .manifest => some bundle.manifest
  | .signature => some bundle.signature.bytes
  | .file name => if name ∈ bundle.names channel then bundle.files name else none

/-- The signature is that of the manifest, which offers something, and every file is
the one the manifest describes. -/
structure Bundle.Verified (verifies : Bytes → Text → Bool) (sha256Hex : Bytes → Text)
    (channel : Channel) (bundle : Bundle) : Prop where
  signed : verifies bundle.manifest bundle.signature = true
  offers : ∃ manifest, Text.fromUtf8 bundle.manifest = some manifest ∧
    Channels.offers channel manifest = true ∧
    ∀ entry ∈ listed channel manifest, ∃ held, entry = some held ∧
      ∃ body, bundle.files held.name = some body ∧ sha256Hex body = held.sha256

end EasyWaf.Channels
