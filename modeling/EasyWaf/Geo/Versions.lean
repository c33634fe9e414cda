import EasyWaf.Geo.Provenance

/-!
# Versions of the country database

The channel is not followed backwards where its version is recorded whenever one of its
databases is put in place or held, and nothing is held while databases are applied as
they arrive.
-/

namespace EasyWaf.Geo

open EasyWaf.Core EasyWaf.Core.Program EasyWaf.Machine Channels

namespace Store

variable (store : Store)

/-- What waits to be applied, as the page shows it. -/
def heldOffer : Option Offered := (store.held .manifest).bind firstOffered

/-- The version last taken from the channel. -/
def taken : Text := store.version.getD []

/-- What is put in place and what is held is recorded. -/
def Settled : Prop :=
  store.placed ≤ store.taken ∧ ∀ offered, store.heldOffer = some offered →
    offered.version ≤ store.taken

/-- A channel's copy is of a version. -/
def ReaderAtMost (bound : Text) : Prop :=
  ∀ copy version, store.reader = some copy → copy.version = some version → version ≤ bound

/-- What holds of the versions at every moment. -/
structure Ordered : Prop where
  trimmed : store.taken.trim = store.taken
  previous : ∀ copy version, store.previous = some copy → copy.version = some version →
    version ≤ store.taken
  stored : ∀ copy version, store.stored = some copy → copy.version = some version →
    version = store.placed
  held : ∀ offered, store.heldOffer = some offered →
    store.taken ≤ offered.version ∧ store.placed ≤ store.taken ∧ store.ReaderAtMost store.taken

/-- What holds between two requests. -/
structure InOrder : Prop extends store.Ordered where
  settled : store.Settled
  reader : store.ReaderAtMost store.placed

end Store

/-- An operation leaves the versions in order, and what is in force no older, unless a
database is put back. -/
def Forward (reverting : Prop) (before after : Store) : Prop :=
  after.Ordered ∧ (¬ reverting → before.placed ≤ after.placed ∧
    ∀ copy copy' version version', before.reader = some copy → copy.version = some version →
      after.reader = some copy' → copy'.version = some version' → version ≤ version')

/-- Operations that leave the databases, the versions and what is held as they are. -/
def Op.Looks : Op → Prop
  | .keepPrevious | .putInPlace | .publish _ _ | .removePrevious | .recordVersion _ | .removeHeld
  | .writeHeld _ _ => False
  | _ => True

section Operations

variable {isDatabase : Bytes → Bool} {embedded : Option Bytes} {reverting : Prop}
variable {Result : Type} {Post : Result → Store → Prop}
variable {store after : Store} {op : Op} {choice : Choice} {answer : Answer op} {copy : Copy}

/-- Two stores that differ in nothing the versions depend on. -/
structure Store.Agree (store after : Store) : Prop where
  stored : after.stored = store.stored
  previous : after.previous = store.previous
  held : after.held = store.held
  reader : after.reader = store.reader
  version : after.version = store.version
  placed : after.placed = store.placed

namespace Store.Agree

variable (hagree : store.Agree after)

include hagree

theorem heldOffer : after.heldOffer = store.heldOffer := by
  rw [Store.heldOffer, hagree.held]
  rfl

theorem taken : after.taken = store.taken := by
  rw [Store.taken, hagree.version]
  rfl

theorem readerAtMost {bound : Text} (hreader : store.ReaderAtMost bound) :
    after.ReaderAtMost bound := by
  rw [Store.ReaderAtMost, hagree.reader]
  exact hreader

theorem ordered (hordered : store.Ordered) : after.Ordered := by
  refine ⟨?_, ?_, ?_, ?_⟩
  · rw [hagree.taken]
    exact hordered.trimmed
  · rw [hagree.previous, hagree.taken]
    exact hordered.previous
  · rw [hagree.stored, hagree.placed]
    exact hordered.stored
  · rw [hagree.heldOffer, hagree.taken, hagree.placed]
    intro offered hoffered
    obtain ⟨htaken, hplaced, hreader⟩ := hordered.held offered hoffered
    exact ⟨htaken, hplaced, hagree.readerAtMost hreader⟩

theorem forward (hordered : store.Ordered) : Forward reverting store after := by
  refine ⟨hagree.ordered hordered, fun _ => ⟨hagree.placed.ge, ?_⟩⟩
  intro copy copy' version version' hcopy hversion hcopy' hversion'
  rw [hagree.reader, hcopy] at hcopy'
  obtain rfl := Option.some.inj hcopy'
  rw [hversion] at hversion'
  exact (Option.some.inj hversion').le

theorem trans {last : Store} (hlast : after.Agree last) : store.Agree last where
  stored := hlast.stored.trans hagree.stored
  previous := hlast.previous.trans hagree.previous
  held := hlast.held.trans hagree.held
  reader := hlast.reader.trans hagree.reader
  version := hlast.version.trans hagree.version
  placed := hlast.placed.trans hagree.placed

end Store.Agree

/-- What a program may have changed that only loads a database. -/
structure Store.Frame (store after : Store) : Prop where
  stored : after.stored = store.stored
  previous : after.previous = store.previous
  held : after.held = store.held
  version : after.version = store.version
  placed : after.placed = store.placed

theorem Store.Agree.frame (hagree : store.Agree after) : store.Frame after where
  stored := hagree.stored
  previous := hagree.previous
  held := hagree.held
  version := hagree.version
  placed := hagree.placed

theorem Store.Frame.trans {last : Store} (hframe : store.Frame after) (hlast : after.Frame last) :
    store.Frame last where
  stored := hlast.stored.trans hframe.stored
  previous := hlast.previous.trans hframe.previous
  held := hlast.held.trans hframe.held
  version := hlast.version.trans hframe.version
  placed := hlast.placed.trans hframe.placed

/-- A copy that is put in place, and is no older than what is there unless it is put back. -/
structure Fits (reverting : Prop) (store : Store) (copy : Copy) : Prop where
  forward : ¬ reverting → ∀ version, copy.version = some version → store.placed ≤ version
  held : ∀ version offered, copy.version = some version → store.heldOffer = some offered →
    version ≤ store.taken

/-- What an install leaves of the versions: where it worked, that of the copy. -/
structure Installed (store : Store) (copy : Copy) (done : Bool) (after : Store) : Prop where
  ordered : after.Ordered
  held : after.held = store.held
  version : after.version = store.version
  reader : after.ReaderAtMost after.placed
  placed : after.placed = if done then copy.version.getD store.placed else store.placed

/-- A store as an install finds it once its copy is staged. -/
structure Staged (store : Store) (copy : Copy) (kept : Store) : Prop where
  ordered : kept.Ordered
  staging : kept.staging = some copy
  held : kept.held = store.held
  version : kept.version = store.version
  reader : kept.reader = store.reader
  placed : kept.placed = store.placed

theorem Installed.heldOffer {done : Bool} (hinstalled : Installed store copy done after) :
    after.heldOffer = store.heldOffer := by
  rw [Store.heldOffer, hinstalled.held]
  rfl

theorem Installed.taken {done : Bool} (hinstalled : Installed store copy done after) :
    after.taken = store.taken := by
  rw [Store.taken, hinstalled.version]
  rfl

/-- What is in memory is gone after a death. -/
theorem Store.Ordered.dead (hordered : store.Ordered) (hsettled : store.Settled) :
    Store.InOrder { store with reader := none, source := .bundled, configured := [] } := by
  refine ⟨⟨hordered.trimmed, hordered.previous, hordered.stored, fun offered hoffered => ?_⟩,
    hsettled, nofun⟩
  exact ⟨(hordered.held offered hoffered).1, hsettled.1, nofun⟩

end Operations

variable (verifies : Bytes → Text → Bool) (sha256Hex : Bytes → Text)
variable (isDatabase : Bytes → Bool) (embedded : Option Bytes)

section Examples

end Examples

end EasyWaf.Geo
