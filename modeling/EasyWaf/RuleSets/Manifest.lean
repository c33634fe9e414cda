import EasyWaf.Text.Decimal
import EasyWaf.Text.Utf8

/-!
# The channel's manifest

The manifest is read by hand: blocks of key and value lines, of which a key that
this version does not know is passed over.
-/

namespace EasyWaf.RuleSets

/-- The blocks of a manifest. -/
def blocks (manifest : Text) : List Text := ((Text.splitText "[[sets]]".toList manifest).drop 1)

/-- The first value a block gives a key. -/
def blockValue (block key : Text) : Option Text :=
  block.lines.findSome? fun line =>
    ((Text.stripPrefix key line.trim).bind fun rest => Text.stripPrefix ['='] rest.trimStart).map
      fun value => Text.trimMatches (· = '"') value.trim

/-- One set as the channel offers it. -/
structure OfferedSet where
  id : Text
  name : Text
  version : ℤ
  tier : Text
  description : Text
  requires : Text
  file : Text
  deriving DecidableEq

/-- A block with no set or no version in it is passed over. -/
def parseBlock (block : Text) : Option OfferedSet :=
  (blockValue block "id".toList).bind fun id =>
    ((blockValue block "version".toList).bind Text.parseInt64).map fun version =>
      { id, version
        name := (blockValue block "name".toList).getD id
        tier := (blockValue block "tier".toList).getD "basic".toList
        description := (blockValue block "description".toList).getD []
        requires := (blockValue block "requires".toList).getD []
        file := (blockValue block "file".toList).getD [] }

/-- `parse_manifest`. -/
def parseManifest (manifest : Text) : List OfferedSet := (blocks manifest).filterMap parseBlock

/-- One set's entry in the manifest. -/
structure ManifestEntry where
  file : Text
  sha256 : Text
  version : ℤ
  requires : Text
  deriving DecidableEq

/-- `manifest_entry`: the first block of the set, if it is complete. -/
def manifestEntry (manifest set : Text) : Option ManifestEntry :=
  ((blocks manifest).find? fun block => blockValue block "id".toList = some set).bind fun block =>
    (blockValue block "file".toList).bind fun file =>
      (blockValue block "sha256".toList).bind fun sha256 =>
        ((blockValue block "version".toList).bind Text.parseInt64).map fun version =>
          { file, sha256, version, requires := (blockValue block "requires".toList).getD [] }

/-- Three numbers with dots between them. -/
def backupVersion (text : Text) : Option (ℕ × ℕ × ℕ) :=
  match text.trim.splitOn '.' with
  | [major, minor, patch] =>
      (Text.parseUnsigned (2 ^ 32) major).bind fun major =>
        (Text.parseUnsigned (2 ^ 32) minor).bind fun minor =>
          (Text.parseUnsigned (2 ^ 32) patch).map fun patch => (major, minor, patch)
  | _ => none

/-- `CARGO_PKG_VERSION`. -/
def packageVersion : Text := "1.7.2".toList

def isLater : ℕ × ℕ × ℕ → ℕ × ℕ × ℕ → Bool
  | (major, minor, patch), (major', minor', patch') =>
      major' < major || (major = major' && (minor' < minor || (minor = minor' && patch' < patch)))

/-- `needs_newer`: a version that cannot be read counts as newer. -/
def needsNewer (requires : Text) : Bool :=
  if requires = [] then false
  else
    match backupVersion requires, backupVersion packageVersion with
    | some theirs, some ours => isLater theirs ours
    | _, _ => true

/-- `Path::file_name`. -/
def fileName (path : Text) : Option Text :=
  match ((path.splitOn '/').filter fun part => part ≠ [] && part ≠ ['.']).getLast? with
  | none => none
  | some last => if last = ['.', '.'] then none else some last

example : parseManifest "[[sets]]\nid = \"core\"\nversion = 3\n".toList =
    [{ id := "core".toList, name := "core".toList, version := 3, tier := "basic".toList,
       description := [], requires := [], file := [] }] := by decide

end EasyWaf.RuleSets
