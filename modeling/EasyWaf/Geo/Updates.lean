import EasyWaf.Geo.Store
import EasyWaf.Core.Machine

/-!
# The country database's updates

Loading a database, putting one in place of another and going back; the signed channel,
whose databases are applied as they arrive or held until somebody applies them; and the
process that does one of these after another.
-/

namespace EasyWaf.Geo

open EasyWaf.Core EasyWaf.Core.Program Channels

abbrev Task := Program Op Answer

/-! ## The database in force -/

section Database

variable (isDatabase : Bytes → Bool) (embedded : Option Bytes)

/-- `stored_source`. -/
def storedSource : Task Source := do
  match ← perform Op.readNote with
  | some text => pure (if text.trim = "channel".toList then .channel else .uploaded)
  | none => pure .uploaded

def embeddedCopy : Option Copy := embedded.map fun bytes => { bytes, origin := .bundled }

/-- The database to load, and which path it came by. -/
def load (path : Text) : Task (Option Copy × Source) := do
  if path ≠ [] then
    match ← perform (Op.openConfigured path) with
    | some bytes => pure (some { bytes, origin := .configured }, .configured)
    | none => pure (embeddedCopy embedded, .bundled)
  else
    match ← perform Op.openStored with
    | some copy => do
        let source ← storedSource
        pure (some copy, source)
    | none => pure (embeddedCopy embedded, .bundled)

/-- `geo::init`. -/
def init (geoipDb : Text) : Task Unit := do
  perform (Op.setConfigured geoipDb.trim)
  let loaded ← load embedded geoipDb.trim
  perform (Op.publish loaded.1 loaded.2)

/-- What follows once a copy is in place. -/
def takeUp (source : Source) : Task Bool := do
  perform (Op.writeNote source)
  let configured ← perform Op.readConfigured
  init embedded configured
  perform Op.status

/-- `geo::install`. -/
def install (copy : Copy) (source : Source) : Task Bool := do
  if isDatabase copy.bytes then do
    let created ← perform Op.createDir
    if created then do
      let staged ← perform (Op.stage copy)
      if staged then do
        let there ← perform Op.storedExists
        let _ ← (if there then perform Op.keepPrevious else pure true)
        let inPlace ← perform Op.putInPlace
        if inPlace then takeUp embedded source else pure false
      else pure false
    else pure false
  else pure false

/-- `geo::revert`. -/
def revert : Task Bool := do
  match ← perform Op.readPrevious with
  | some copy => do
      let source ← storedSource
      let status ← install isDatabase embedded copy source
      if status then do
        perform Op.removePrevious
        pure true
      else pure false
  | none => pure false

/-- A database uploaded through the interface. -/
def upload (body : Bytes) : Task Bool :=
  install isDatabase embedded { bytes := body, origin := .byHand } .uploaded

end Database

/-! ## The channel -/

/-- The database as the channel offers it, as far as its file and version go. -/
structure Offered where
  id : Text
  version : Text
  file : Text
  sha256 : Text
  deriving DecidableEq

def parseBlock (block : Text) : Option Offered := do
  let id ← RuleSets.blockValue block "id".toList
  let file ← RuleSets.blockValue block "file".toList
  let sha256 ← RuleSets.blockValue block "sha256".toList
  if isSlug id then
    some { id, file, sha256 := sha256.toAsciiLowercase
           version := (RuleSets.blockValue block "version".toList).getD [] }
  else none

/-- `parse_manifest`. -/
def parseManifest (text : Text) : List Offered :=
  ((Text.splitText "[[databases]]".toList text).drop 1).filterMap parseBlock

/-- What a manifest offers first. -/
def firstOffered (manifest : Bytes) : Option Offered :=
  (Text.fromUtf8 manifest).bind fun text => (parseManifest text).head?

section Channel

variable (verifies : Bytes → Text → Bool) (sha256Hex : Bytes → Text)
variable (isDatabase : Bytes → Bool) (embedded : Option Bytes)

/-- What was fetched or held is the database a signed manifest describes. -/
structure Signed (manifest : Bytes) (signature : Text) (offered : Offered) (body : Bytes) : Prop where
  verified : verifies manifest signature = true
  offers : firstOffered manifest = some offered
  digest : sha256Hex body = offered.sha256

/-- A copy from the channel, with the version it was offered as. -/
def channelCopy (offered : Offered) (body : Bytes) : Copy where
  bytes := body
  origin := .channel offered.version

/-- `apply_held`. -/
def applyHeld : Task Bool := do
  match (← perform (Op.readHeld .manifest)).bind firstOffered with
  | some offered => do
      match ← perform (Op.readHeld .manifest), ← perform (Op.readHeld .signature) with
      | some manifest, some signatureBytes =>
          match Text.fromUtf8 signatureBytes with
          | some signature =>
              if verifies manifest signature then do
                match ← perform (Op.readHeld (.database offered.id)) with
                | some body =>
                    if sha256Hex body = offered.sha256 then do
                      let status ← install isDatabase embedded (channelCopy offered body) .channel
                      if status then do
                        perform Op.removeHeld
                        pure true
                      else pure false
                    else pure false
                | none => pure false
              else pure false
          | none => pure false
      | _, _ => pure false
  | none => pure false

/-- Whether a version is taken from the channel, after the one last taken. -/
def isNewer (offered : Offered) (previous : Text) : Bool :=
  !(previous.trim ≠ [] && offered.version ≤ previous.trim)

/-- What was fetched waits beside the database. -/
def hold (offered : Offered) (manifest : Bytes) (signature : Text) (body : Bytes) : Task Bool := do
  perform Op.removeHeld
  let created ← perform Op.createHeld
  if created then do
    let first ← perform (Op.writeHeld (.database offered.id) body)
    if first then do
      let second ← perform (Op.writeHeld .manifest manifest)
      if second then do
        let third ← perform (Op.writeHeld .signature signature.bytes)
        if third then do
          perform (Op.recordVersion offered.version)
          pure true
        else pure false
      else pure false
    else pure false
  else pure false

/-- A fetched database is put in force, or held. -/
def takeFetched (offered : Offered) (manifest : Bytes) (signature : Text) (body : Bytes) :
    Task Bool := do
  let auto ← perform Op.readAuto
  if (auto.getD ['1']).trim = ['1'] then do
    let status ← install isDatabase embedded (channelCopy offered body) .channel
    if status then do
      perform (Op.recordVersion offered.version)
      pure true
    else pure false
  else hold offered manifest signature body

/-- The database a verified manifest offers is fetched, where it is newer. -/
def fetchOffered (offered : Offered) (manifest : Bytes) (signature : Text) : Task Bool := do
  let previous ← perform Op.readVersion
  if isNewer offered (previous.getD []) then do
    match ← perform (Op.fetch offered.file) with
    | some body =>
        if sha256Hex body = offered.sha256 then
          takeFetched isDatabase embedded offered manifest signature body
        else pure false
    | none => pure false
  else pure true

/-- `geo_update::sync`. -/
def sync : Task Bool := do
  match ← perform (Op.fetch "geo.toml".toList) with
  | some manifest => do
      match ← perform (Op.fetch "geo.toml.asc".toList) with
      | some signatureBytes =>
          match Text.fromUtf8 signatureBytes with
          | some signature =>
              if verifies manifest signature then
                match firstOffered manifest with
                | some offered =>
                    if safeRelative offered.file then
                      fetchOffered sha256Hex isDatabase embedded offered manifest signature
                    else pure false
                | none => pure false
              else pure false
          | none => pure false
      | none => pure false
  | none => pure false

/-! ## The process -/

inductive Request
  /-- A start of the process with what `config.toml` names. -/
  | start (geoipDb : Text)
  | check
  | applyHeld
  | upload (body : Bytes)
  | revert
  | setAuto (on : Bool)

def program : Request → Task Bool
  | .start geoipDb => do
      init embedded geoipDb
      pure true
  | .check => sync verifies sha256Hex isDatabase embedded
  | .applyHeld => applyHeld verifies sha256Hex isDatabase embedded
  | .upload body => upload isDatabase embedded body
  | .revert => revert isDatabase embedded
  | .setAuto on => do
      perform (Op.setAuto (if on then ['1'] else ['0']))
      pure true

/-- What is stored, and what is being done. -/
structure World where
  store : Store
  running : Option (Request × Task Bool)

inductive Event
  | request (request : Request)
  | advance (choice : Choice)
  | die

/-- The program of a request, until it has answered. -/
def World.run (store : Store) (request : Request) (task : Task Bool) : World where
  store := store
  running :=
    match task with
    | .done _ => none
    | .call _ _ => some (request, task)

/-- One request is answered after another.  A death ends the one under way and what is in
memory. -/
def step (world : World) : Event → Option World
  | .request request =>
      match world.running with
      | none => some (.run world.store request
          (program verifies sha256Hex isDatabase embedded request))
      | some _ => none
  | .advance choice =>
      match world.running with
      | some (request, task) =>
          (task.advance (effect isDatabase) choice world.store).map fun next =>
            .run next.2 request next.1
      | none => none
  | .die => some {
      store := { world.store with reader := none, source := .bundled, configured := [] }
      running := none }

/-- Nothing was ever stored. -/
def World.fresh : World where
  store := .fresh
  running := none

/-- What an operation meets with is permitted, and the process dies where it may. -/
def Allowed (permits : Store → Op → Choice → Prop) (mayDie : Store → Prop) (world : World) :
    Event → Prop
  | .request _ => True
  | .advance choice => ∀ request task, world.running = some (request, task) →
      Permitted permits choice task world.store
  | .die => mayDie world.store

/-! ## Whole runs -/

section Runs

variable (permits : Store → Op → Choice → Prop) (mayDie : Store → Prop)
variable (Good : Store → Prop) (Rel : Request → Store → Store → Prop)

/-- Between two requests the store is good, and what is under way leaves it so. -/
def World.Ready (world : World) : Prop :=
  match world.running with
  | none => Good world.store
  | some (request, task) => (∃ before, Rel request before world.store) ∧
      Steps (effect isDatabase) permits (Rel request) (fun _ after => Good after) task world.store

/-- Every request keeps the store good, and so does a death. -/
structure Keepers : Prop where
  refl : ∀ store request, Good store → Rel request store store
  program : ∀ store request, Good store →
    Steps (effect isDatabase) permits (Rel request) (fun _ after => Good after)
      (Geo.program verifies sha256Hex isDatabase embedded request) store
  idle : ∀ store, Good store → mayDie store →
    Good { store with reader := none, source := .bundled, configured := [] }
  cut : ∀ before store request, Rel request before store → mayDie store →
    Good { store with reader := none, source := .bundled, configured := [] }

variable {verifies} {sha256Hex} {isDatabase} {embedded} {permits} {mayDie} {Good} {Rel}
variable {world next : World} {event : Event}

theorem World.ready_run {store : Store} {request : Request} {task : Task Bool}
    (hrel : ∃ before, Rel request before store)
    (hsteps : Steps (effect isDatabase) permits (Rel request) (fun _ after => Good after) task store) :
    (World.run store request task).Ready isDatabase permits Good Rel := by
  cases task with
  | done => exact hsteps
  | call op next => exact ⟨hrel, hsteps⟩

/-- One operation of a request that is under way. -/
theorem World.Ready.advance {choice : Choice} (hready : world.Ready isDatabase permits Good Rel)
    (hallowed : Allowed permits mayDie world (.advance choice))
    (hstep : step verifies sha256Hex isDatabase embedded world (.advance choice) = some next) :
    ∃ request task, world.running = some (request, task) ∧ Rel request world.store next.store ∧
      next.Ready isDatabase permits Good Rel := by
  rw [step] at hstep
  split at hstep
  · next request task hrunning =>
      obtain ⟨⟨rest, after⟩, hadvance, rfl⟩ := Option.map_eq_some_iff.mp hstep
      rw [World.Ready, hrunning] at hready
      obtain ⟨hrel, hrest⟩ := hready.2.advance (hallowed request task hrunning) hadvance
      exact ⟨request, task, hrunning, hrel, World.ready_run ⟨_, hrel⟩ hrest⟩
  · contradiction

theorem World.Ready.step
    (keepers : Keepers verifies sha256Hex isDatabase embedded permits mayDie Good Rel)
    (hready : world.Ready isDatabase permits Good Rel) (hallowed : Allowed permits mayDie world event)
    (hstep : Geo.step verifies sha256Hex isDatabase embedded world event = some next) :
    next.Ready isDatabase permits Good Rel := by
  cases event with
  | request request =>
      rw [Geo.step] at hstep
      split at hstep
      · next hrunning =>
          obtain rfl := Option.some.inj hstep
          rw [World.Ready, hrunning] at hready
          exact World.ready_run ⟨_, keepers.refl _ request hready⟩ (keepers.program _ request hready)
      · contradiction
  | advance choice =>
      obtain ⟨-, -, -, -, hnext⟩ := hready.advance hallowed hstep
      exact hnext
  | die =>
      obtain rfl := Option.some.inj hstep
      rw [World.Ready] at hready
      split at hready
      · exact keepers.idle _ hready hallowed
      · obtain ⟨⟨before, hrel⟩, -⟩ := hready
        exact keepers.cut before _ _ hrel hallowed

/-- In every run that is allowed the process is ready for what comes next. -/
theorem ready_of_run {start : World}
    (keepers : Keepers verifies sha256Hex isDatabase embedded permits mayDie Good Rel)
    (run : Machine.Run (Geo.step verifies sha256Hex isDatabase embedded) (Allowed permits mayDie)
      start world)
    (hstart : start.Ready isDatabase permits Good Rel) :
    world.Ready isDatabase permits Good Rel := by
  apply run.invariant _ _ hstart
  intro world event next hready hallowed hstep
  exact hready.step keepers hallowed hstep

end Runs

end Channel

end EasyWaf.Geo
