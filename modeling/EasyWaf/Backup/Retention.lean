import EasyWaf.Backup.Snapshots
import EasyWaf.Core.KeyMap

/-!
# Which snapshots are kept

Any number of looks and requests take snapshots and prune them side by side, each by
a listing it made for itself.  A snapshot is removed only where enough newer ones
are there, and stays removed for that reason; a look that found one of the last day
or took one leaves one of the last day for good.
-/

namespace EasyWaf.Backup.Snapshots

open EasyWaf.Core EasyWaf.Core.Calendar EasyWaf.Core.Program EasyWaf.Machine EasyWaf.Text

/-- Whether a name is one the listing takes for a snapshot. -/
def isDated (name : Text) : Bool := isSnapshotName name && (takenFromName name).isSome

namespace Directory

variable {dir dir' : Directory} {name other : Text} {bytes : ℕ}

def names (dir : Directory) : Finset Text := (dir.entries.map (·.name)).toFinset

theorem mem_names : name ∈ dir.names ↔ ∃ entry ∈ dir.entries, entry.name = name := by
  rw [names, List.mem_toFinset, List.mem_map]

theorem names_remove (dir : Directory) (name : Text) :
    (dir.remove name).names = dir.names.erase name := by
  ext other
  simp only [Finset.mem_erase, mem_names, remove, filter, List.mem_filter, decide_not,
    Bool.not_eq_true', decide_eq_false_iff_not]
  constructor
  · rintro ⟨entry, ⟨hentry, hne⟩, rfl⟩
    exact ⟨hne, entry, hentry, rfl⟩
  · rintro ⟨hne, entry, hentry, rfl⟩
    exact ⟨entry, ⟨hentry, hne⟩, rfl⟩

/-- How many snapshots there are that are newer than a name says. -/
def newer (dir : Directory) (name : Text) : ℕ :=
  (dir.names.filter fun other => isDated other ∧ name < other).card

end Directory

section Listed

variable {dir : Directory} {entry : Entry} {stored : Stored} {name : Text}

theorem isSome_stored? (entry : Entry) : (stored? entry).isSome = isDated entry.name := by
  rw [stored?, isDated]
  cases isSnapshotName entry.name with
  | false => rfl
  | true => simp

theorem name_of_stored? (hstored : stored? entry = some stored) : stored.name = entry.name := by
  rw [stored?] at hstored
  split at hstored
  · obtain ⟨taken, -, rfl⟩ := Option.map_eq_some_iff.mp hstored
    rfl
  · contradiction

theorem mem_listIn : stored ∈ listIn dir ↔ ∃ entry ∈ dir.entries, stored? entry = some stored := by
  rw [listIn, List.mem_mergeSort, List.mem_filterMap]

theorem mem_names_of_mem_listIn (hstored : stored ∈ listIn dir) :
    stored.name ∈ dir.names ∧ isDated stored.name = true := by
  obtain ⟨entry, hentry, heq⟩ := mem_listIn.mp hstored
  rw [name_of_stored? heq, ← isSome_stored?, heq]
  exact ⟨Directory.mem_names.mpr ⟨entry, hentry, rfl⟩, rfl⟩

theorem exists_mem_listIn (hname : name ∈ dir.names) (hdated : isDated name = true) :
    ∃ stored ∈ listIn dir, stored.name = name := by
  obtain ⟨entry, hentry, rfl⟩ := Directory.mem_names.mp hname
  obtain ⟨stored, hstored⟩ := Option.isSome_iff_exists.mp ((isSome_stored? entry).trans hdated)
  exact ⟨stored, mem_listIn.mpr ⟨entry, hentry, hstored⟩, name_of_stored? hstored⟩

theorem nodup_names_filterMap (dir : Directory) :
    ((dir.entries.filterMap stored?).map (·.name)).Nodup := by
  have hnodup := dir.nodup
  generalize dir.entries = entries at hnodup ⊢
  induction entries with
  | nil => exact List.nodup_nil
  | cons entry entries ih =>
      rw [List.map_cons, List.nodup_cons] at hnodup
      cases hstored : stored? entry with
      | none =>
          rw [List.filterMap_cons_none hstored]
          exact ih hnodup.2
      | some stored =>
          rw [List.filterMap_cons_some hstored, List.map_cons, List.nodup_cons]
          refine ⟨fun hmem => hnodup.1 ?_, ih hnodup.2⟩
          obtain ⟨other, hother, heq⟩ := List.mem_map.mp hmem
          obtain ⟨entry', hentry', hstored'⟩ := List.mem_filterMap.mp hother
          rw [← name_of_stored? hstored, ← heq, name_of_stored? hstored']
          exact List.mem_map_of_mem hentry'

theorem nodup_names_listIn (dir : Directory) : ((listIn dir).map (·.name)).Nodup :=
  (((List.mergeSort_perm _ _).map _).nodup_iff).mpr (nodup_names_filterMap dir)

/-- The listing is by descending names. -/
theorem sorted_listIn (dir : Directory) :
    (listIn dir).Pairwise fun first second => second.name < first.name := by
  have hnodup := nodup_names_listIn dir
  have hle : (listIn dir).Pairwise fun first second => !decide (first.name < second.name) := by
    apply List.pairwise_mergeSort
    · intro first second third hfirst hsecond
      simp only [Bool.not_eq_true', decide_eq_false_iff_not, not_lt] at hfirst hsecond ⊢
      exact hsecond.trans hfirst
    · intro first second
      simp only [Bool.or_eq_true, Bool.not_eq_true', decide_eq_false_iff_not, not_lt]
      exact le_total _ _
  rw [List.Nodup, List.pairwise_map] at hnodup
  refine (hle.and hnodup).imp fun hboth => ?_
  simp only [Bool.not_eq_true', decide_eq_false_iff_not, not_lt] at hboth
  exact lt_of_le_of_ne hboth.1 hboth.2.symm

theorem countP_listIn (dir : Directory) (name : Text) :
    (listIn dir).countP (fun stored => name < stored.name) = dir.newer name := by
  have hnodup := (nodup_names_listIn dir).filter fun other => decide (name < other)
  have hnames : (((listIn dir).map (·.name)).filter fun other => decide (name < other)).toFinset =
      dir.names.filter fun other => isDated other ∧ name < other := by
    ext other
    rw [List.mem_toFinset, List.mem_filter, Finset.mem_filter, List.mem_map, decide_eq_true_iff]
    constructor
    · rintro ⟨⟨stored, hstored, rfl⟩, hlt⟩
      obtain ⟨hmem, hdated⟩ := mem_names_of_mem_listIn hstored
      exact ⟨hmem, hdated, hlt⟩
    · rintro ⟨hmem, hdated, hlt⟩
      exact ⟨exists_mem_listIn hmem hdated, hlt⟩
  rw [Directory.newer, ← hnames, List.toFinset_card_of_nodup hnodup, ← List.countP_eq_length_filter,
    List.countP_map]
  rfl

/-- What stands behind so many in the listing has so many that are newer. -/
theorem mem_drop_listIn (hstored : stored ∈ listIn dir) (keep : ℕ) :
    stored ∈ (listIn dir).drop keep ↔ keep ≤ dir.newer stored.name := by
  rw [mem_drop_iff_le_countP (fun _ _ => lt_asymm) (sorted_listIn dir) hstored, countP_listIn]

end Listed

section Evidence

/-- What is said of a directory, where so many snapshots are kept. -/
inductive Fact
  /-- Enough newer ones are there. -/
  | older (name : Text)
  /-- The snapshot is there, or enough newer ones are. -/
  | kept (name : Text)
  /-- One of the last day is there. -/
  | fresh (now : Moment)

def holdsIn (keep : ℕ) (dir : Directory) : Set Fact := fun fact =>
  match fact with
  | .older name => keep ≤ dir.newer name
  | .kept name => isDated name = true → name ∈ dir.names ∨ keep ≤ dir.newer name
  | .fresh now =>
      now.clock.isLeap = false ∧ ∃ taken, fileName taken ∈ dir.names ∧ now.since taken < every

variable {keep : ℕ} {dir dir' : Directory} {name : Text}

/-- A listing tells what holds of what it lists, and a snapshot what holds of itself.
A setting says to keep no fewer. -/
def evidence (keep : ℕ) : Evidence Op Answer State Fact where
  holds state := holdsIn keep state.dir
  uses
    | .removeFile name => fun fact => isDated name = true ∧ fact = .older name
    | _ => ∅
  learns
    | .readDir, entries => holdsIn keep entries
    | .vacuumInto name, .ok () => holdsIn keep (Directory.empty.write name 0)
    | _, _ => ∅
  usual
    | .getSetting key, setting => key = keyKeep → keep ≤ keepOf setting
    | .now, time => time.clock.isLeap = false
    | _, _ => True

/-- The setting is not read as one that keeps fewer. -/
def KeepsEnough (keep : ℕ) (state : State) (task : Task Reply) (choice : Choice) : Prop :=
  task.nextOp = some (.getSetting keyKeep) →
    keep ≤ keepOf (if choice.error.isSome then none else state.settings keyKeep)

end Evidence

section Tasks

variable {enough : ℕ} {known : Set Fact} {path : Text}

/-- What the end of a look says of the directory. -/
def Promised (known : Set Fact) : Reply → Prop
  | .notDue now => .fresh now ∈ known
  | .took stored => ∃ taken, stored.name = fileName taken ∧ .fresh taken ∈ known
  | _ => True

theorem Promised.mono {known' : Set Fact} {reply : Reply} (hsubset : known ⊆ known')
    (hpromised : Promised known reply) : Promised known' reply := by
  cases reply with
  | notDue now => exact hsubset hpromised
  | took stored =>
      obtain ⟨taken, hname, hfresh⟩ := hpromised
      exact ⟨taken, hname, hsubset hfresh⟩
  | off | failed | flash | queryFailed | file => trivial

/-- A form that is saved keeps so many. -/
def Request.KeepsEnough (enough : ℕ) : Request → Prop
  | .schedule field _ => ∀ count ∈ formKeep field, enough ≤ count
  | _ => True

end Tasks

section Runs

abbrev World : Type := Together Op Answer Reply State

variable (path : Text)

/-- Looks and requests side by side, those of them that keep so many.  After a restart
the schedule looks. -/
abbrev move (enough : ℕ) : World → Move { request : Request // request.KeepsEnough enough } Choice →
    Option World :=
  interleave effect (fun request => request.val.task path) id [look path]

/-- A run in which the setting too is read as one that keeps so many. -/
abbrev Keeping (enough : ℕ) (start world : World) : Prop :=
  Run (move path enough) (Meets (KeepsEnough enough) fun _ => False) start world

variable {path} {enough : ℕ} {start world later : World}

end Runs

section Pruned

variable {choice : Choice} {state : State}

/-- Everything works, and all of the directory can be read. -/
def Choice.Works (choice : Choice) : Prop :=
  choice.error = none ∧ ∀ entry, choice.readable entry = true

namespace Directory

variable {dir : Directory} {name : Text}

theorem ext {dir dir' : Directory} (heq : dir.entries = dir'.entries) : dir = dir' := by
  obtain ⟨entries, nodup⟩ := dir
  obtain ⟨entries', nodup'⟩ := dir'
  obtain rfl := heq
  rfl

theorem filter_congr {first second : Entry → Bool}
    (heq : ∀ entry ∈ dir.entries, first entry = second entry) :
    dir.filter first = dir.filter second :=
  ext (List.filter_congr heq)

theorem filter_eq_self {passes : Entry → Bool} (hall : ∀ entry ∈ dir.entries, passes entry = true) :
    dir.filter passes = dir :=
  ext (List.filter_eq_self.mpr hall)

theorem isNone_get (hthere : name ∈ dir.names) : (dir.get name).isNone = false := by
  obtain ⟨entry, hentry, rfl⟩ := mem_names.mp hthere
  rw [Option.isNone_eq_false_iff, get, List.find?_isSome]
  exact ⟨entry, hentry, by simp⟩

end Directory

theorem effect_removeFile {name : Text} (hworks : choice.error = none)
    (hthere : name ∈ state.dir.names) :
    effect (.removeFile name) choice state =
      some (true, { state with dir := state.dir.remove name }) := by
  rw [effect, hworks, Directory.isNone_get hthere]
  rfl

theorem alone_removeAll (hworks : choice.error = none) {olds : List Stored}
    (hnodup : (olds.map (·.name)).Nodup) (hthere : ∀ old ∈ olds, old.name ∈ state.dir.names) :
    (removeAll olds).alone effect choice state = some (olds.length,
      { state with dir := state.dir.filter fun entry => entry.name ∉ olds.map (·.name) }) := by
  induction olds generalizing state with
  | nil =>
      rw [Directory.filter_eq_self (by simp)]
      rfl
  | cons old olds ih =>
      rw [List.map_cons, List.nodup_cons] at hnodup
      have hold := hthere old List.mem_cons_self
      have hrest : ∀ older ∈ olds, older.name ∈ (state.dir.remove old.name).names := by
        intro older holder
        rw [Directory.names_remove, Finset.mem_erase]
        refine ⟨fun heq => hnodup.1 ?_, hthere older (List.mem_cons_of_mem old holder)⟩
        exact heq ▸ List.mem_map_of_mem holder
      change (effect (.removeFile old.name) choice state).bind (fun outcome =>
        (removeAll olds >>= fun removed =>
          pure (if outcome.1 = true then removed + 1 else removed)).alone
          effect choice outcome.2) = _
      rw [effect_removeFile hworks hold, Option.bind_some, alone_bind,
        @ih { state with dir := state.dir.remove old.name } hnodup.2 hrest,
        Option.bind_some]
      refine congrArg some (Prod.ext rfl ?_)
      dsimp only
      congr 1
      apply Directory.ext
      change (state.dir.entries.filter _).filter _ = state.dir.entries.filter _
      rw [List.filter_filter]
      apply List.filter_congr
      intro entry _
      rw [List.map_cons]
      simp [Bool.and_comm]

/-- The names behind so many of the listing. -/
theorem mem_names_drop {dir : Directory} {count : ℕ} {name : Text} :
    name ∈ ((listIn dir).drop count).map (·.name) ↔
      name ∈ dir.names ∧ isDated name = true ∧ count ≤ dir.newer name := by
  rw [List.mem_map]
  constructor
  · rintro ⟨stored, hstored, rfl⟩
    have hlisted := List.mem_of_mem_drop hstored
    obtain ⟨hmem, hdated⟩ := mem_names_of_mem_listIn hlisted
    exact ⟨hmem, hdated, (mem_drop_listIn hlisted count).mp hstored⟩
  · rintro ⟨hmem, hdated, hcount⟩
    obtain ⟨stored, hstored, rfl⟩ := exists_mem_listIn hmem hdated
    exact ⟨stored, (mem_drop_listIn hstored count).mpr hcount, rfl⟩

/-- A pruning by itself leaves what is no snapshot and the newest ones, and counts the
others. -/
theorem alone_prune (hworks : choice.Works) (count : ℕ) (state : State) :
    (prune count).alone effect choice state = some
      ((state.dir.names.filter fun name => isDated name ∧ max count 1 ≤ state.dir.newer name).card,
        { state with
          dir := state.dir.filter fun entry =>
            !isDated entry.name || decide (state.dir.newer entry.name < max count 1) }) := by
  have hread : effect .readDir choice state = some (state.dir, state) := by
    rw [effect, hworks.1]
    exact congrArg (fun dir => some (dir, state))
      (Directory.filter_eq_self fun entry _ => hworks.2 entry)
  have hnodup : (((listIn state.dir).drop (max count 1)).map (·.name)).Nodup :=
    (nodup_names_listIn state.dir).sublist ((List.drop_sublist _ _).map _)
  change (effect .readDir choice state).bind (fun outcome =>
    (removeAll ((listIn outcome.1).drop (max count 1))).alone effect choice outcome.2) = _
  rw [hread, Option.bind_some,
    alone_removeAll hworks.1 hnodup fun old hold =>
      (mem_names_drop.mp (List.mem_map_of_mem hold)).1]
  refine congrArg some (Prod.ext ?_ ?_)
  · dsimp only
    rw [← List.length_map (·.name), ← List.toFinset_card_of_nodup hnodup]
    congr 1
    ext name
    rw [List.mem_toFinset, mem_names_drop, Finset.mem_filter]
  · dsimp only
    congr 1
    apply Directory.filter_congr
    intro entry hentry
    have hmem : entry.name ∈ state.dir.names := Directory.mem_names.mpr ⟨entry, hentry, rfl⟩
    simp only [mem_names_drop, hmem, true_and, not_and, not_le]
    cases isDated entry.name <;> simp

end Pruned

section Example

def newYear : Moment where
  date := ⟨2026, 1, 1, by decide, by decide, by decide⟩
  clock := ⟨3, 0, 0, by decide, by decide, by decide⟩

/-- The schedule is on, and a snapshot is there. -/
def oneSnapshot : State where
  dir := Directory.empty.write (fileName newYear) 4096
  settings := fun _ => some ['1']

def atNewYear : Choice where
  time := newYear
  unleaped := rfl
  error := none
  written := none
  readable := fun _ => true

theorem newYear_pruned : (prune 7).alone effect atNewYear oneSnapshot = some
    ((oneSnapshot.dir.names.filter fun name =>
        isDated name ∧ max 7 1 ≤ oneSnapshot.dir.newer name).card,
      { oneSnapshot with
        dir := oneSnapshot.dir.filter fun entry =>
          !isDated entry.name || decide (oneSnapshot.dir.newer entry.name < max 7 1) }) :=
  alone_prune ⟨rfl, fun _ => rfl⟩ 7 oneSnapshot

end Example

end EasyWaf.Backup.Snapshots
