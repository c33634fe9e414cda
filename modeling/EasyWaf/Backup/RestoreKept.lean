import EasyWaf.Backup.Restore

/-!
# Where the database stands during a restore

What a start may meet without losing a database or telling a lie: which failures
the swap is proof against, where the database last in use is to be found, and what
each operation of a start leaves of that.
-/

namespace EasyWaf.Backup

open EasyWaf.Core EasyWaf.Core.Program Machine

variable {Rows : Type} [DecidableEq Rows]

/-! ## The files -/

namespace Disk

variable {disk : Disk Rows} {path other : Path} {file : Option (File Rows)}

omit [DecidableEq Rows] in
@[simp]
theorem files_set_self : (disk.set path file).files path = file := by
  simp [set]

omit [DecidableEq Rows] in
@[simp]
theorem files_set_of_ne (hne : other ≠ path) :
    (disk.set path file).files other = disk.files other := by
  simp [set, hne]

omit [DecidableEq Rows] in
@[simp]
theorem inUse_set : (disk.set path file).inUse = disk.inUse := rfl

omit [DecidableEq Rows] in
@[simp]
theorem restore_set : (disk.set path file).restore = disk.restore := rfl

omit [DecidableEq Rows] in
@[simp]
theorem recorded_set : (disk.set path file).recorded = disk.recorded := rfl

omit [DecidableEq Rows] in
theorem set_eq_self (hnone : disk.files path = none) : disk.set path none = disk := by
  rw [set, ← hnone, Function.update_eq_self]

omit [DecidableEq Rows] in
@[simp]
theorem live_set_of_ne (hdb : path ≠ .db) (hwal : path ≠ .wal) :
    (disk.set path file).live = disk.live := by
  rw [live, live, files_set_of_ne hdb.symm, files_set_of_ne hwal.symm]

/-- The database at the live path. -/
def origin (disk : Disk Rows) : Option ℕ := disk.live.map (·.origin)

omit [DecidableEq Rows] in
theorem origin_set_of_ne (hdb : path ≠ .db) (hwal : path ≠ .wal) :
    (disk.set path file).origin = disk.origin := by
  rw [origin, live_set_of_ne hdb hwal, origin]

omit [DecidableEq Rows] in
/-- A lost log does not make another database of it. -/
theorem origin_removeLog : (disk.set .wal none).origin = disk.origin := by
  have hdb : (disk.set .wal none).files .db = disk.files .db := files_set_of_ne (by decide)
  rw [origin, origin, live, live, hdb, files_set_self]
  cases disk.files .db with
  | none => rfl
  | some file => cases file <;> cases disk.files .wal with
    | none => rfl
    | some log => cases log <;> rfl

omit [DecidableEq Rows] in
theorem live_folded : disk.folded.live = disk.live := by
  rw [folded]
  split
  · next database hlive =>
      rw [hlive, live, files_set_self, files_set_of_ne (by decide), files_set_self]
  · rfl

omit [DecidableEq Rows] in
theorem files_folded (hdb : path ≠ .db) (hwal : path ≠ .wal) :
    disk.folded.files path = disk.files path := by
  rw [folded]
  split
  · rw [files_set_of_ne hwal, files_set_of_ne hdb]
  · rfl

end Disk

/-! ## What may go wrong -/

/-- Any operation may fail, except where the start takes its failure for something
else: it cannot tell what is there, or it does not come to take something away. -/
def permits (disk : Disk Rows) : Op → Choice Rows → Bool
  | .exists path, .fails _ => path = .before || (disk.files path).isNone
  | .removeFile .marker, .fails _ => (disk.files .marker).isNone
  | .removeFile .wal, .fails _ => (disk.files .wal).isNone
  | .removeFile .outcome, .fails _ => (disk.files .outcome).isNone
  | .write .marker _, .stops _ _ => false
  | .write .outcome _, .stops _ _ => false
  | .write .outcome _, .fails _ => (disk.files .outcome).isNone
  | .readToString .outcome, .fails _ => (disk.files .outcome).isNone
  -- An outcome that was not taken away would be told of this swap.
  | .rename .staged .db, .works => (disk.files .outcome).isNone
  -- The log is gone by then.
  | .rename .staged .db, .fails _ => disk.live = some disk.inUse
  | _, _ => true

/-! ## Where the database stands -/

/-- A restore that replaces the database last in use. -/
structure Disk.Replacing (disk : Disk Rows) (restore : Restore) : Prop where
  known : disk.restore = some restore
  replaced : disk.inUse.origin = restore.replaced
  apart : restore.staged ≠ restore.replaced

/-- The staged database is the one at the live path. -/
def Disk.OnRestored (disk : Disk Rows) : Prop :=
  ∃ restore, disk.Replacing restore ∧ disk.origin = some restore.staged

/-- The swap has begun, and what is replaced is kept. -/
structure Disk.Swapping (disk : Disk Rows) : Prop where
  marker : disk.files .marker ≠ none
  before : disk.files .before = some (.database disk.inUse)
  on : disk.files .staged = none → disk.OnRestored

/-- The database that was replaced has been put back. -/
structure Disk.Undone (disk : Disk Rows) : Prop where
  marker : disk.files .marker ≠ none
  staged : disk.files .staged = none
  before : disk.files .before = none
  live : disk.live = some disk.inUse

/-- Where the database last in use is to be found. -/
inductive Disk.Standing (disk : Disk Rows) : Prop
  | inUse (hmarker : disk.files .marker = none) (hlive : disk.live = some disk.inUse)
  /-- The restored database came up, and the start has not finished yet. -/
  | accepted (hmarker : disk.files .marker = none) (hstaged : disk.files .staged = none)
      (hbefore : disk.files .before = some (.database disk.inUse)) (hon : disk.OnRestored)
  | swapping (hswapping : disk.Swapping)
  | undone (hundone : disk.Undone)

def statusOf (text : Text) : Text := (outcomeOf text).1.trim

/-- A status says which of the two databases is the live one. -/
inductive Tells (status : Text) (origin : Option ℕ) (restore : Restore) : Prop
  | ok (hstatus : status = "ok".toList) (horigin : origin = some restore.staged)
  | failed (hstatus : status = "failed".toList) (horigin : origin = some restore.replaced)

/-- What the outcome file says. -/
structure Disk.Told (disk : Disk Rows) (text : Text) (restore : Restore) : Prop where
  known : disk.restore = some restore
  apart : restore.staged ≠ restore.replaced
  tells : Tells (statusOf text) disk.origin restore
  settled : statusOf text = "ok".toList →
    disk.files .marker = none ∧ disk.files .staged = none

/-- An outcome that was recorded is what became of the restore. -/
def Recorded.Truthful (recorded : Recorded) : Prop :=
  recorded.key = keyRestoreOutcome → ∃ restore, recorded.restore = some restore ∧
    (recorded.value = "ok".toList ↔ recorded.origin = some restore.staged) ∧
    (recorded.value = "failed".toList ↔ recorded.origin = some restore.replaced)

structure Disk.Sound (disk : Disk Rows) : Prop where
  standing : disk.Standing
  waiting : ∀ file, disk.files .staged = some file → ∃ restore database,
    disk.Replacing restore ∧ file = .database database ∧ database.origin = restore.staged
  told : ∀ file, disk.files .outcome = some file → ∃ text restore,
    file = .text text ∧ disk.Told text restore
  recorded : ∀ recorded ∈ disk.recorded, recorded.Truthful

theorem Tells.iff {status : Text} {origin : Option ℕ} {restore : Restore}
    (htells : Tells status origin restore) (hapart : restore.staged ≠ restore.replaced) :
    (status = "ok".toList ↔ origin = some restore.staged) ∧
      (status = "failed".toList ↔ origin = some restore.replaced) := by
  cases htells with
  | ok hstatus horigin =>
      subst hstatus horigin
      exact ⟨iff_of_true rfl rfl, iff_of_false (by decide) (fun h => hapart (Option.some.inj h))⟩
  | failed hstatus horigin =>
      subst hstatus horigin
      exact ⟨iff_of_false (by decide) (fun h => hapart (Option.some.inj h).symm),
        iff_of_true rfl rfl⟩

namespace Disk

variable {disk after : Disk Rows} {path : Path} {file : Option (File Rows)}
variable {restore : Restore} {text : Text}

omit [DecidableEq Rows] in
theorem Replacing.of (hreplacing : disk.Replacing restore) (hrestore : after.restore = disk.restore)
    (hinUse : after.inUse.origin = disk.inUse.origin) : after.Replacing restore where
  known := hrestore.trans hreplacing.known
  replaced := hinUse.trans hreplacing.replaced
  apart := hreplacing.apart

omit [DecidableEq Rows] in
theorem OnRestored.of (hon : disk.OnRestored) (hrestore : after.restore = disk.restore)
    (hinUse : after.inUse.origin = disk.inUse.origin) (horigin : after.origin = disk.origin) :
    after.OnRestored := by
  obtain ⟨restore, hreplacing, hstaged⟩ := hon
  exact ⟨restore, hreplacing.of hrestore hinUse, horigin.trans hstaged⟩

omit [DecidableEq Rows] in
/-- On the restored database one is not on the one it replaces. -/
theorem OnRestored.live_ne (hon : disk.OnRestored) : disk.live ≠ some disk.inUse := by
  obtain ⟨restore, hreplacing, hstaged⟩ := hon
  intro hlive
  rw [origin, hlive, Option.map_some, Option.some.injEq, hreplacing.replaced] at hstaged
  exact hreplacing.apart hstaged.symm

omit [DecidableEq Rows] in
theorem Told.of (htold : disk.Told text restore) (hrestore : after.restore = disk.restore)
    (horigin : after.origin = disk.origin)
    (hsettled : disk.files .marker = none → disk.files .staged = none →
      after.files .marker = none ∧ after.files .staged = none) : after.Told text restore where
  known := hrestore.trans htold.known
  apart := htold.apart
  tells := horigin ▸ htold.tells
  settled hok := hsettled (htold.settled hok).1 (htold.settled hok).2

/-! ## What the operations leave -/

omit [DecidableEq Rows] in
/-- What an operation must not upset, apart from where the database stands. -/
theorem Sound.of (hsound : disk.Sound) (hrestore : after.restore = disk.restore)
    (hinUse : after.inUse.origin = disk.inUse.origin) (hrecorded : after.recorded = disk.recorded)
    (hmarker : disk.files .marker = none → after.files .marker = none)
    (hstaged : after.files .staged = disk.files .staged ∨ after.files .staged = none)
    (houtcome : after.files .outcome = none ∨
      after.files .outcome = disk.files .outcome ∧ after.origin = disk.origin)
    (hstanding : after.Standing) : after.Sound where
  standing := hstanding
  waiting file hfile := by
    obtain hstaged | hstaged := hstaged
    · obtain ⟨restore, database, hreplacing, hdatabase⟩ := hsound.waiting file (hstaged ▸ hfile)
      exact ⟨restore, database, hreplacing.of hrestore hinUse, hdatabase⟩
    · simp [hstaged] at hfile
  told file hfile := by
    obtain houtcome | ⟨houtcome, horigin⟩ := houtcome
    · simp [houtcome] at hfile
    · obtain ⟨text, restore, htext, htold⟩ := hsound.told file (houtcome ▸ hfile)
      refine ⟨text, restore, htext, htold.of hrestore horigin fun hm hs => ⟨hmarker hm, ?_⟩⟩
      exact hstaged.elim (fun h => h.trans hs) id
  recorded := by
    rw [hrecorded]
    exact hsound.recorded

omit [DecidableEq Rows] in
/-- A file no start depends on. -/
theorem Standing.setOther (hstanding : disk.Standing)
    (hpath : path = .shm ∨ path = .beforeTmp ∨ path = .reason ∨ path = .outcome) :
    (disk.set path file).Standing := by
  have hlive : (disk.set path file).live = disk.live := by
    apply live_set_of_ne <;> rcases hpath with rfl | rfl | rfl | rfl <;> decide
  have horigin : (disk.set path file).origin = disk.origin := by rw [origin, hlive, origin]
  have hsame {other : Path} (hother : other = .marker ∨ other = .staged ∨ other = .before) :
      (disk.set path file).files other = disk.files other := by
    apply files_set_of_ne
    rcases hpath with rfl | rfl | rfl | rfl <;> rcases hother with rfl | rfl | rfl <;> decide
  have hmarker := hsame (.inl rfl)
  have hstaged := hsame (.inr (.inl rfl))
  have hbefore := hsame (.inr (.inr rfl))
  cases hstanding with
  | inUse hm hl => exact .inUse (hmarker.trans hm) (hlive.trans hl)
  | accepted hm hs hb hon =>
      exact .accepted (hmarker.trans hm) (hstaged.trans hs) (hbefore.trans hb)
        (hon.of rfl rfl horigin)
  | swapping h =>
      exact .swapping ⟨hmarker ▸ h.marker, hbefore.trans h.before,
        fun hs => (h.on (hstaged ▸ hs)).of rfl rfl horigin⟩
  | undone h =>
      exact .undone ⟨hmarker ▸ h.marker, hstaged.trans h.staged, hbefore.trans h.before,
        hlive.trans h.live⟩

omit [DecidableEq Rows] in
theorem Sound.setOther (hsound : disk.Sound)
    (hpath : path = .shm ∨ path = .beforeTmp ∨ path = .reason) : (disk.set path file).Sound := by
  have hsame {other : Path} (hother : other = .marker ∨ other = .staged ∨ other = .outcome) :
      (disk.set path file).files other = disk.files other := by
    apply files_set_of_ne
    rcases hpath with rfl | rfl | rfl <;> rcases hother with rfl | rfl | rfl <;> decide
  refine hsound.of rfl rfl rfl (fun h => (hsame (.inl rfl)).trans h) (.inl (hsame (.inr (.inl rfl))))
    (.inr ⟨hsame (.inr (.inr rfl)), ?_⟩) (hsound.standing.setOther ?_)
  · apply origin_set_of_ne <;> rcases hpath with rfl | rfl | rfl <;> decide
  · tauto

omit [DecidableEq Rows] in
theorem Sound.removeOutcome (hsound : disk.Sound) : (disk.set .outcome none).Sound :=
  hsound.of rfl rfl rfl (fun h => h) (.inl rfl) (.inl files_set_self)
    (hsound.standing.setOther (.inr (.inr (.inr rfl))))

omit [DecidableEq Rows] in
theorem Swapping.removeLog (hswapping : disk.Swapping) : (disk.set .wal none).Swapping where
  marker := hswapping.marker
  before := hswapping.before
  on hstaged := (hswapping.on hstaged).of rfl rfl origin_removeLog

omit [DecidableEq Rows] in
theorem Sound.removeLog (hsound : disk.Sound) (hswapping : disk.Swapping) :
    (disk.set .wal none).Sound :=
  hsound.of rfl rfl rfl (fun h => h) (.inl rfl) (.inr ⟨rfl, origin_removeLog⟩)
    (.swapping hswapping.removeLog)

omit [DecidableEq Rows] in
/-- The marker goes once there is nothing left to undo. -/
theorem Sound.removeMarker (hsound : disk.Sound)
    (hdone : disk.files .staged = none ∨ disk.live = some disk.inUse) :
    (disk.set .marker none).Sound := by
  have hlive : (disk.set .marker none).live = disk.live := live_set_of_ne (by decide) (by decide)
  have horigin : (disk.set .marker none).origin = disk.origin :=
    origin_set_of_ne (by decide) (by decide)
  refine hsound.of rfl rfl rfl (fun _ => files_set_self) (.inl rfl) (.inr ⟨rfl, horigin⟩) ?_
  by_cases hinUse : disk.live = some disk.inUse
  · exact .inUse files_set_self (hlive.trans hinUse)
  have hstaged := hdone.resolve_right hinUse
  cases hsound.standing with
  | inUse hm hl => exact absurd hl hinUse
  | accepted hm hs hb hon => exact .accepted files_set_self hs hb (hon.of rfl rfl horigin)
  | swapping h =>
      exact .accepted files_set_self hstaged h.before ((h.on hstaged).of rfl rfl horigin)
  | undone h => exact absurd h.live hinUse

omit [DecidableEq Rows] in
/-- An attempt is given up while the database in use is still the live one. -/
theorem Sound.dropStaged (hsound : disk.Sound) (hmarker : disk.files .marker = none)
    (hlive : disk.live = some disk.inUse) : (disk.set .staged none).Sound := by
  have hlive' : (disk.set .staged none).live = disk.live := live_set_of_ne (by decide) (by decide)
  exact hsound.of rfl rfl rfl (fun h => h) (.inr files_set_self)
    (.inr ⟨rfl, origin_set_of_ne (by decide) (by decide)⟩) (.inUse hmarker (hlive'.trans hlive))

omit [DecidableEq Rows] in
/-- A copy is put where it is kept. -/
theorem Sound.keep (hsound : disk.Sound) (hmarker : disk.files .marker = none)
    (hlive : disk.live = some disk.inUse) (kept : File Rows) :
    ((disk.set .before (some kept)).set .beforeTmp none).Sound := by
  have hlive' : (disk.set .before (some kept)).live = disk.live :=
    live_set_of_ne (by decide) (by decide)
  have hbefore : (disk.set .before (some kept)).Sound :=
    hsound.of rfl rfl rfl (fun h => h) (.inl rfl)
      (.inr ⟨rfl, origin_set_of_ne (by decide) (by decide)⟩) (.inUse hmarker (hlive'.trans hlive))
  exact hbefore.setOther (.inr (.inl rfl))

omit [DecidableEq Rows] in
theorem Sound.fold (hsound : disk.Sound) (hmarker : disk.files .marker = none)
    (hlive : disk.live = some disk.inUse) : disk.folded.Sound := by
  have hfields : disk.folded.restore = disk.restore ∧ disk.folded.inUse = disk.inUse ∧
      disk.folded.recorded = disk.recorded := by
    rw [folded]
    split <;> exact ⟨rfl, rfl, rfl⟩
  obtain ⟨hrestore, hinUse, hrecorded⟩ := hfields
  have hsame {other : Path} (hdb : other ≠ .db) (hwal : other ≠ .wal) :
      disk.folded.files other = disk.files other := files_folded hdb hwal
  refine hsound.of hrestore (by rw [hinUse]) hrecorded
    (fun h => (hsame (by decide) (by decide)).trans h) (.inl (hsame (by decide) (by decide)))
    (.inr ⟨hsame (by decide) (by decide), by rw [origin, live_folded, origin]⟩) ?_
  exact .inUse ((hsame (by decide) (by decide)).trans hmarker)
    (by rw [live_folded, hinUse, hlive])

omit [DecidableEq Rows] in
/-- The kept database is moved back to the live path. -/
theorem Sound.putBack (hsound : disk.Sound) (hswapping : disk.Swapping)
    (hstaged : disk.files .staged = none) (hwal : disk.files .wal = none) :
    ((disk.set .db (some (.database disk.inUse))).set .before none).Sound ∧
      ((disk.set .db (some (.database disk.inUse))).set .before none).Undone ∧
      disk.files .outcome = none := by
  obtain ⟨restore, hreplacing, horigin⟩ := hswapping.on hstaged
  have houtcome : disk.files .outcome = none := by
    by_contra hsome
    obtain ⟨file, hfile⟩ := Option.ne_none_iff_exists'.mp hsome
    obtain ⟨text, restore', -, htold⟩ := hsound.told file hfile
    obtain rfl : restore = restore' := Option.some.inj (hreplacing.known.symm.trans htold.known)
    cases htold.tells with
    | ok hstatus _ => exact hswapping.marker (htold.settled hstatus).1
    | failed _ hreplaced =>
        exact hreplacing.apart (Option.some.inj (horigin.symm.trans hreplaced))
  have hundone : ((disk.set .db (some (.database disk.inUse))).set .before none).Undone := by
    refine ⟨hswapping.marker, hstaged, files_set_self, ?_⟩
    simp [live, hwal]
  exact ⟨hsound.of rfl rfl rfl (fun h => h) (.inl rfl) (.inl houtcome) (.undone hundone),
    hundone, houtcome⟩

omit [DecidableEq Rows] in
/-- The staged database is moved into place. -/
theorem Sound.swapped (hsound : disk.Sound) (hswapping : disk.Swapping) {staged : File Rows}
    (hstaged : disk.files .staged = some staged) (hwal : disk.files .wal = none)
    (houtcome : disk.files .outcome = none) :
    ((disk.set .db (some staged)).set .staged none).Sound ∧
      ((disk.set .db (some staged)).set .staged none).Swapping := by
  obtain ⟨restore, database, hreplacing, rfl, horigin⟩ := hsound.waiting staged hstaged
  have hon : ((disk.set .db (some (.database database))).set .staged none).OnRestored := by
    refine ⟨restore, hreplacing.of rfl rfl, ?_⟩
    simp [origin, live, hwal, horigin]
  have hswapping' : ((disk.set .db (some (.database database))).set .staged none).Swapping :=
    ⟨hswapping.marker, hswapping.before, fun _ => hon⟩
  exact ⟨hsound.of rfl rfl rfl (fun h => h) (.inr files_set_self) (.inl houtcome)
    (.swapping hswapping'), hswapping'⟩

omit [DecidableEq Rows] in
/-- The marker is written. -/
theorem Sound.mark (hsound : disk.Sound) (hstaged : disk.files .staged ≠ none)
    (hbefore : disk.files .before = some (.database disk.inUse)) (marker : File Rows) :
    (disk.set .marker (some marker)).Sound ∧ (disk.set .marker (some marker)).Swapping := by
  have hswapping : (disk.set .marker (some marker)).Swapping :=
    ⟨by simp, hbefore, fun h => absurd h hstaged⟩
  have horigin : (disk.set .marker (some marker)).origin = disk.origin :=
    origin_set_of_ne (by decide) (by decide)
  refine ⟨⟨.swapping hswapping, fun file hfile => ?_, fun file hfile => ?_, hsound.recorded⟩,
    hswapping⟩
  · obtain ⟨restore, database, hreplacing, hdatabase⟩ := hsound.waiting file hfile
    exact ⟨restore, database, hreplacing.of rfl rfl, hdatabase⟩
  · obtain ⟨text, restore, htext, htold⟩ := hsound.told file hfile
    exact ⟨text, restore, htext, htold.of rfl horigin fun _ h => absurd h hstaged⟩

omit [DecidableEq Rows] in
/-- What became of the restore is written down. -/
theorem Sound.tell (hsound : disk.Sound) (htold : disk.Told text restore) :
    (disk.set .outcome (some (.text text))).Sound := by
  have horigin : (disk.set .outcome (some (.text text))).origin = disk.origin :=
    origin_set_of_ne (by decide) (by decide)
  refine ⟨hsound.standing.setOther (.inr (.inr (.inr rfl))), fun file hfile => ?_,
    fun file hfile => ?_, hsound.recorded⟩
  · obtain ⟨restore, database, hreplacing, hdatabase⟩ := hsound.waiting file hfile
    exact ⟨restore, database, hreplacing.of rfl rfl, hdatabase⟩
  · rw [files_set_self, Option.some.injEq] at hfile
    exact ⟨text, restore, hfile.symm, htold.of rfl horigin fun hm hs => ⟨hm, hs⟩⟩

omit [DecidableEq Rows] in
/-- On the database that was to be replaced, the restore has failed. -/
theorem Replacing.toldFailed (hreplacing : disk.Replacing restore)
    (hlive : disk.live = some disk.inUse) (hstatus : statusOf text = "failed".toList) :
    disk.Told text restore where
  known := hreplacing.known
  apart := hreplacing.apart
  tells := .failed hstatus (by rw [origin, hlive, Option.map_some, hreplacing.replaced])
  settled hok := absurd (hstatus.symm.trans hok) (by decide)

omit [DecidableEq Rows] in
theorem Replacing.toldOk (hreplacing : disk.Replacing restore)
    (horigin : disk.origin = some restore.staged) (hmarker : disk.files .marker = none)
    (hstaged : disk.files .staged = none) (hstatus : statusOf text = "ok".toList) :
    disk.Told text restore where
  known := hreplacing.known
  apart := hreplacing.apart
  tells := .ok hstatus horigin
  settled _ := ⟨hmarker, hstaged⟩

omit [DecidableEq Rows] in
/-- A setting that says the truth is recorded. -/
theorem Sound.record (hsound : disk.Sound) {recorded : Recorded} (htruthful : recorded.Truthful) :
    Sound { disk with recorded := disk.recorded ++ [recorded] } := by
  refine ⟨?_, fun file hfile => ?_, fun file hfile => ?_, fun other hmem => ?_⟩
  · cases hsound.standing with
    | inUse hm hl => exact .inUse hm hl
    | accepted hm hs hb hon => exact .accepted hm hs hb (hon.of rfl rfl rfl)
    | swapping h => exact .swapping ⟨h.marker, h.before, fun hs => (h.on hs).of rfl rfl rfl⟩
    | undone h => exact .undone ⟨h.marker, h.staged, h.before, h.live⟩
  · obtain ⟨restore, database, hreplacing, hdatabase⟩ := hsound.waiting file hfile
    exact ⟨restore, database, hreplacing.of rfl rfl, hdatabase⟩
  · obtain ⟨text, restore, htext, htold⟩ := hsound.told file hfile
    exact ⟨text, restore, htext, htold.of rfl rfl fun hm hs => ⟨hm, hs⟩⟩
  · rcases List.mem_append.mp hmem with hmem | hmem
    · exact hsound.recorded other hmem
    · exact List.mem_singleton.mp hmem ▸ htruthful

/-! ## The database is written to -/

variable {rows : Rows} {logged : Option (Rows → Rows)}

theorem files_used (hdb : path ≠ .db) (hwal : path ≠ .wal) :
    (disk.used rows logged).files path = disk.files path := by
  rw [used]
  split
  · dsimp only
    split <;> simp [set, hdb, hwal]
  · rfl

theorem fields_used : (disk.used rows logged).restore = disk.restore ∧
    (disk.used rows logged).recorded = disk.recorded := by
  rw [used]
  split
  · dsimp only
    split <;> exact ⟨rfl, rfl⟩
  · exact ⟨rfl, rfl⟩

/-- The database stays the one it is. -/
theorem live_used {live : Database Rows} (hlive : disk.live = some live) :
    ∃ live', (disk.used rows logged).live = some live' ∧ live'.origin = live.origin ∧
      (disk.used rows logged).inUse = if live = disk.inUse then live' else disk.inUse := by
  have hafter : ∃ live', ((disk.set .db (some (.database { live with rows }))).set .wal
      (logged.map .log)).live = some live' ∧ live'.origin = live.origin := by
    cases logged with
    | none => exact ⟨{ live with rows }, by simp [Disk.live], rfl⟩
    | some changes => exact ⟨{ live with rows := changes rows }, by simp [Disk.live], rfl⟩
  obtain ⟨live', hlive', horigin⟩ := hafter
  simp only [used, hlive]
  split
  · exact ⟨live', hlive', horigin, by simp [hlive']⟩
  · exact ⟨live', hlive', horigin, rfl⟩

theorem origin_used : (disk.used rows logged).origin = disk.origin := by
  cases hlive : disk.live with
  | none => rw [used, hlive]
  | some live =>
      obtain ⟨live', hlive', horigin, -⟩ := @live_used _ _ _ rows logged _ hlive
      rw [origin, origin, hlive', hlive, Option.map_some, Option.map_some, horigin]

theorem inUse_origin_used : (disk.used rows logged).inUse.origin = disk.inUse.origin := by
  cases hlive : disk.live with
  | none => rw [used, hlive]
  | some live =>
      obtain ⟨live', hlive', horigin, hinUse⟩ := @live_used _ _ _ rows logged _ hlive
      rw [hinUse]
      split
      · next heq => rw [horigin, heq]
      · rfl

/-- What is last in use follows the database that is. -/
theorem live_used_inUse (hlive : disk.live = some disk.inUse) :
    (disk.used rows logged).live = some (disk.used rows logged).inUse := by
  obtain ⟨live', hlive', -, hinUse⟩ := @live_used _ _ _ rows logged _ hlive
  rw [hlive', hinUse, if_pos rfl]

/-- On the restored database the one last in use is not touched. -/
theorem OnRestored.inUse_used (hon : disk.OnRestored) :
    (disk.used rows logged).inUse = disk.inUse := by
  have hne := hon.live_ne
  obtain ⟨restore, -, horigin⟩ := hon
  obtain ⟨live, hlive, -⟩ := Option.map_eq_some_iff.mp horigin
  obtain ⟨live', -, -, hinUse⟩ := @live_used _ _ _ rows logged _ hlive
  rw [hinUse, if_neg]
  rintro rfl
  exact hne hlive

/-- No start opens a database while another waits to be moved over it. -/
def Ready (disk : Disk Rows) : Prop :=
  disk.files .marker ≠ none → disk.Swapping ∧ disk.files .staged = none

theorem Swapping.used (hswapping : disk.Swapping) (hstaged : disk.files .staged = none) :
    (disk.used rows logged).Swapping ∧ (disk.used rows logged).files .staged = none := by
  have hon := hswapping.on hstaged
  have hstaged' : (disk.used rows logged).files .staged = none :=
    (files_used (by decide) (by decide)).trans hstaged
  refine ⟨⟨?_, ?_, fun _ => hon.of fields_used.1 inUse_origin_used origin_used⟩, hstaged'⟩
  · rw [files_used (by decide) (by decide)]
    exact hswapping.marker
  · rw [files_used (by decide) (by decide), hon.inUse_used]
    exact hswapping.before

theorem Ready.used (hready : disk.Ready) : (disk.used rows logged).Ready := by
  intro hmarker
  rw [files_used (by decide) (by decide)] at hmarker
  obtain ⟨hswapping, hstaged⟩ := hready hmarker
  exact hswapping.used hstaged

theorem Sound.used (hsound : disk.Sound) (hready : disk.Ready) :
    (disk.used rows logged).Sound := by
  have hsame {other : Path} (hdb : other ≠ .db) (hwal : other ≠ .wal) :
      (disk.used rows logged).files other = disk.files other := files_used hdb hwal
  have hmarker : (disk.used rows logged).files .marker = disk.files .marker :=
    hsame (by decide) (by decide)
  have hstaged : (disk.used rows logged).files .staged = disk.files .staged :=
    hsame (by decide) (by decide)
  refine hsound.of fields_used.1 inUse_origin_used fields_used.2 hmarker.trans (.inl hstaged)
    (.inr ⟨hsame (by decide) (by decide), origin_used⟩) ?_
  cases hsound.standing with
  | inUse hm hl => exact .inUse (hmarker.trans hm) (live_used_inUse hl)
  | accepted hm hs hb hon =>
      refine .accepted (hmarker.trans hm) (hstaged.trans hs) ?_
        (hon.of fields_used.1 inUse_origin_used origin_used)
      rw [hsame (by decide) (by decide), hon.inUse_used, hb]
  | swapping h => exact .swapping (h.used (hready h.marker).2).1
  | undone h =>
      obtain ⟨hswapping, -⟩ := hready h.marker
      exact absurd hswapping.before (by simp [h.before])

end Disk

end EasyWaf.Backup
