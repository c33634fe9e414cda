import EasyWaf.Core.Calendar
import EasyWaf.Core.Machine
import EasyWaf.Text.Decimal
import EasyWaf.Text.Templates
import EasyWaf.Text.Utf8

/-!
# The log writer

Lines wait in a bounded queue and one writer takes them: the lines of the flow go to
the collector of that moment, those of the audit trail into a file for each day.  A
file goes when its day is long enough ago, and until then it holds what was stored on
that day, in order.
-/

namespace EasyWaf.Logging.Writer

open EasyWaf.Core EasyWaf.Core.Calendar EasyWaf.Machine EasyWaf.Text

/-- `QUEUE`. -/
def queueSize : ℕ := 4096

inductive Line
  | flow (text : Text)
  | audit (text : Text)
deriving DecidableEq

/-- The text of a line of the flow. -/
def Line.flow? : Line → Option Text
  | .flow text => some text
  | .audit _ => none

/-- The text of a line of the audit trail. -/
def Line.audit? : Line → Option Text
  | .flow _ => none
  | .audit text => some text

/-- A moment, to the nanosecond.  The clock never shows a leap second. -/
structure Instant where
  moment : Calendar.Moment
  nanos : ℕ
  unleaped : moment.clock.isLeap = false
  nanos_lt : nanos < 10 ^ 9

/-- The seconds of a day's beginning. -/
def dayStart (date : Date) : ℤ := 86400 * date.number

namespace Instant

/-- The nanoseconds of an instant. -/
def timestamp (now : Instant) : ℤ :=
  10 ^ 9 * (dayStart now.moment.date + now.moment.clock.seconds) + now.nanos

end Instant

/-- `%Y-%m-%d`. -/
def dayText (date : Date) : Text :=
  Text.padded 4 date.year ++ '-' :: Text.padded 2 date.month ++ '-' :: Text.padded 2 date.day

/-- A file that was opened, and whether it still has its name. -/
structure Handle where
  name : Text
  linked : Bool

structure DailyFile where
  stem : Text
  keepDays : ℕ
  today : Text
  handle : Option Handle

/-- What the files of the directory hold, and the file the link points to. -/
structure Disk where
  files : Text → Option (List UInt8)
  link : Option Text

/-- What the world makes of a line: when it is taken, whether a socket can be had, whether
the day's file opens, what becomes of the link, and how much is stored where a write
fails. -/
structure Choice where
  now : Instant
  binds : Bool
  opens : Bool
  unlinks : Bool
  links : Bool
  stops : Option ℕ

namespace DailyFile

/-- `DailyFile::new`. -/
def new (stem : Text) (keepDays : ℕ) : DailyFile := ⟨stem, keepDays, [], none⟩

/-- `DailyFile::path`, in the directory. -/
def path (daily : DailyFile) (day : Text) : Text := daily.stem ++ '-' :: day ++ ".log".toList

/-- The name of the link. -/
def linkName (daily : DailyFile) : Text := daily.stem ++ ".log".toList

/-- The link is put on the file that was opened, where what has its name can be removed. -/
def relink (daily : DailyFile) (path : Text) (choice : Choice) (disk : Disk) : Disk :=
  let disk : Disk :=
    if choice.unlinks then ⟨Function.update disk.files daily.linkName none, none⟩ else disk
  if choice.links ∧ disk.link = none ∧ disk.files daily.linkName = none then
    { disk with link := some path }
  else disk

/-- `DailyFile::open`. -/
def openDay (daily : DailyFile) (day : Text) (choice : Choice) (disk : Disk) : DailyFile × Disk :=
  let path := daily.path day
  if choice.opens then
    ({ daily with handle := some ⟨path, true⟩ },
      daily.relink path choice
        { disk with
          files := Function.update disk.files path (some ((disk.files path).getD [])) })
  else ({ daily with handle := none }, disk)

/-- The file the line goes into is opened where the day has changed or none is open. -/
def turned (daily : DailyFile) (choice : Choice) (disk : Disk) : DailyFile × Disk :=
  let day := dayText choice.now.moment.date
  if day ≠ daily.today ∨ daily.handle.isNone then
    let opened := daily.openDay day choice disk
    ({ opened.1 with today := day }, opened.2)
  else (daily, disk)

end DailyFile

/-- What `writeln!` stores of a line: all of it, or its beginning where it fails. -/
def written (line : Text) (choice : Choice) : List UInt8 :=
  (line.bytes ++ [10]).take (choice.stops.getD (line.bytes.length + 1))

/-- What is stored is at the end of the open file, which may have lost its name. -/
def Disk.append (disk : Disk) (handle : Handle) (stored : List UInt8) : Disk :=
  if handle.linked then
    { disk with
      files := Function.update disk.files handle.name
        (some ((disk.files handle.name).getD [] ++ stored)) }
  else disk

/-- `DailyFile::write`, with what it stores. -/
def DailyFile.write (daily : DailyFile) (line : Text) (choice : Choice) (disk : Disk) :
    List UInt8 × DailyFile × Disk :=
  let (daily, disk) := daily.turned choice disk
  match daily.handle with
  | some handle =>
      (written line choice, daily, disk.append handle (written line choice))
  | none => ([], daily, disk)

section Pruning

-- The seconds at which the day a text names begins, where it names one.
variable (parseDay : Text → Option ℤ)

namespace DailyFile

/-- The day in the name of a file. -/
def dayOf (daily : DailyFile) (name : Text) : Option Text :=
  (name.dropPrefix? (daily.stem ++ ['-'])).bind fun rest => rest.dropSuffix? ".log".toList

/-- Whether a day that begins then is more than the days kept ago. -/
def past (daily : DailyFile) (now : Instant) (start : ℤ) : Bool :=
  daily.keepDays ≠ 0 && 10 ^ 9 * start < now.timestamp - 10 ^ 9 * (86400 * daily.keepDays)

/-- Whether a file is one of the days that are not kept. -/
def expired (daily : DailyFile) (now : Instant) (name : Text) : Bool :=
  ((daily.dayOf name).bind parseDay).any (daily.past now)

/-- `DailyFile::prune`, where some of the files can be removed. -/
def prune (daily : DailyFile) (now : Instant) (removes : Text → Bool) (disk : Disk) :
    DailyFile × Disk :=
  let gone name := daily.expired parseDay now name && removes name
  ({ daily with
      handle := daily.handle.map fun handle =>
        { handle with linked := handle.linked && !gone handle.name } },
    { disk with files := fun name => if gone name then none else disk.files name })

end DailyFile

end Pruning

/-- A line of the audit trail, what the world made of it and what of it was stored. -/
structure Entry where
  line : Text
  choice : Choice
  stored : List UInt8

/-- The day it was written on. -/
def Entry.date (entry : Entry) : Date := entry.choice.now.moment.date

/-- The logger and its writer, with what became of every line. -/
structure State where
  queue : List Line
  dropped : ℕ
  /-- The collector, where flow lines are sent. -/
  target : Option Text
  socket : Bool
  bindFailed : Bool
  audit : DailyFile
  disk : Disk
  /-- When the clock was last read. -/
  clock : Instant
  accepted : List Line
  refused : List Line
  taken : List Line
  /-- The datagrams, each with its collector. -/
  sent : List (Text × Text)
  trail : List Entry

/-- `init`: the collector is not known yet. -/
def start (keepDays : ℕ) (disk : Disk) (clock : Instant) : State where
  queue := []
  dropped := 0
  target := none
  socket := false
  bindFailed := false
  audit := .new "audit".toList keepDays
  disk := disk
  clock := clock
  accepted := []
  refused := []
  taken := []
  sent := []
  trail := []

inductive Event
  | flow (text : Text)
  | audit (text : Text)
  | setCollector (target : Option Text)
  /-- The writer takes the next line. -/
  | receive (choice : Choice)
  /-- The writer's report is due. -/
  | tick (now : Instant) (removes : Text → Bool)

/-- `Logger::send`. -/
def send (state : State) (line : Line) : State :=
  if state.queue.length < queueSize then
    { state with queue := state.queue ++ [line], accepted := state.accepted ++ [line] }
  else { state with dropped := state.dropped + 1, refused := state.refused ++ [line] }

/-- What the writer does with a line of the flow. -/
def sendFlow (state : State) (text : Text) (choice : Choice) : State :=
  match state.target with
  | none => state
  | some collector =>
      let bound := state.socket || !state.bindFailed && choice.binds
      { state with
        socket := bound
        bindFailed := state.bindFailed || !bound
        sent := if bound then state.sent ++ [(collector, text)] else state.sent }

/-- What the writer does with a line of the audit trail. -/
def writeAudit (state : State) (text : Text) (choice : Choice) : State :=
  let written := state.audit.write text choice state.disk
  { state with
    audit := written.2.1
    disk := written.2.2
    clock := choice.now
    trail := state.trail ++ [⟨text, choice, written.1⟩] }

def step (parseDay : Text → Option ℤ) (state : State) : Event → Option State
  | .flow text => some (if state.target.isSome then send state (.flow text) else state)
  | .audit text => some (send state (.audit text))
  | .setCollector target => some { state with target := target }
  | .receive choice =>
      match state.queue with
      | [] => none
      | line :: queue =>
          let state := { state with queue := queue, taken := state.taken ++ [line] }
          match line with
          | .flow text => some (sendFlow state text choice)
          | .audit text => some (writeAudit state text choice)
  | .tick now removes =>
      let pruned := state.audit.prune parseDay now removes state.disk
      some { state with audit := pruned.1, disk := pruned.2, clock := now }

/-- The clock is not set back. -/
def Steady (state : State) : Event → Prop
  | .receive choice => state.clock.timestamp ≤ choice.now.timestamp
  | .tick now _ => state.clock.timestamp ≤ now.timestamp
  | _ => True

section Names

variable {parseDay : Text → Option ℤ} {daily : DailyFile} {now later : Instant} {date other : Date}

theorem dayStart_injective : Function.Injective dayStart := by
  intro date other heq
  rw [dayStart, dayStart] at heq
  exact Date.number_injective (by omega)

theorem dayText_injective (hparse : ∀ date, parseDay (dayText date) = some (dayStart date)) :
    Function.Injective dayText := by
  intro date other heq
  have hstart := (hparse date).symm.trans ((congrArg parseDay heq).trans (hparse other))
  exact dayStart_injective (Option.some.inj hstart)

namespace DailyFile

theorem path_injective (daily : DailyFile) : Function.Injective daily.path := by
  intro day other heq
  exact (List.cons.inj (List.append_cancel_left (List.append_cancel_right heq))).2

theorem path_ne_linkName (daily : DailyFile) (day : Text) : daily.path day ≠ daily.linkName := by
  intro heq
  have hlength := congrArg List.length heq
  simp only [path, linkName, List.length_append, List.length_cons] at hlength
  omega

theorem dayOf_path (daily : DailyFile) (day : Text) : daily.dayOf (daily.path day) = some day := by
  have hstart : (daily.path day).dropPrefix? (daily.stem ++ ['-']) = some (day ++ ".log".toList) :=
    dropPrefix?_eq_some.mpr (by simp [path])
  rw [dayOf, hstart, Option.bind_some]
  exact dropSuffix?_eq_some.mpr rfl

theorem eq_path_of_dayOf {name day : Text} (hday : daily.dayOf name = some day) :
    name = daily.path day := by
  obtain ⟨rest, hstart, hrest⟩ := Option.bind_eq_some_iff.mp hday
  rw [dropPrefix?_eq_some.mp hstart, dropSuffix?_eq_some.mp hrest]
  simp [path]

theorem expired_path (hparse : ∀ date, parseDay (dayText date) = some (dayStart date)) :
    daily.expired parseDay now (daily.path (dayText date)) = daily.past now (dayStart date) := by
  rw [expired, dayOf_path, Option.bind_some, hparse, Option.any_some]

theorem past_mono (hlater : now.timestamp ≤ later.timestamp) {start : ℤ}
    (hpast : daily.past now start = true) : daily.past later start = true := by
  simp only [past, Bool.and_eq_true, decide_eq_true_eq] at hpast ⊢
  exact ⟨hpast.1, by omega⟩

/-- No day is past before it is over. -/
theorem past_today (daily : DailyFile) (now : Instant) :
    daily.past now (dayStart now.moment.date) = false := by
  have hclock := now.moment.clock.seconds_lt
  have hnanos := now.nanos_lt
  rw [past, Instant.timestamp]
  by_cases hkeep : daily.keepDays = 0
  · simp [hkeep]
  · simp only [ne_eq, hkeep, not_false_eq_true, decide_true, Bool.true_and,
      decide_eq_false_iff_not, not_lt]
    have hone : 1 ≤ daily.keepDays := Nat.one_le_iff_ne_zero.mpr hkeep
    push_cast
    omega

end DailyFile

end Names

/-- What the file of a name holds. -/
def Disk.held (disk : Disk) (name : Text) : List UInt8 := (disk.files name).getD []

/-- What was stored on a day, in order. -/
def storedOn (date : Date) (trail : List Entry) : List UInt8 :=
  (trail.filter (·.date = date)).flatMap (·.stored)

section Writing

variable {daily opened : DailyFile} {disk disk' : Disk} {choice : Choice} {line name : Text}

namespace DailyFile

/-- The day the file to be written is of. -/
def dayName (daily : DailyFile) (now : Instant) : Text := daily.path (dayText now.moment.date)

@[simp]
theorem dayName_eq (daily : DailyFile) (now : Instant) :
    daily.path (dayText now.moment.date) = daily.dayName now := rfl

/-- The file that is open for this day is the file of this day. -/
def Current (daily : DailyFile) (now : Instant) : Prop :=
  ∀ handle, daily.handle = some handle → daily.today = dayText now.moment.date →
    handle = ⟨daily.dayName now, true⟩

theorem relink_files (hname : name ≠ daily.linkName) (path : Text) :
    (daily.relink path choice disk).files name = disk.files name := by
  rw [relink]
  split <;> split <;> simp [Function.update_of_ne hname]

theorem openDay_files (hname : name ≠ daily.linkName) (day : Text) :
    ((daily.openDay day choice disk).2.files name).getD [] = disk.held name ∧
      (name ≠ daily.path day → (daily.openDay day choice disk).2.files name = disk.files name) := by
  rw [openDay]
  split
  · rw [relink_files hname]
    by_cases hpath : name = daily.path day
    · simp [hpath, Disk.held]
    · simp [Function.update_of_ne hpath, Disk.held]
  · exact ⟨rfl, fun _ => rfl⟩

theorem turned_files (choice : Choice) (disk : Disk) (hname : name ≠ daily.linkName) :
    ((daily.turned choice disk).2.held name = disk.held name) ∧
      (name ≠ daily.dayName choice.now →
        (daily.turned choice disk).2.files name = disk.files name) := by
  rw [turned]
  split
  · exact openDay_files hname _
  · exact ⟨rfl, fun _ => rfl⟩

/-- What is open to be written is the file of the day, under its name. -/
theorem turned_handle (disk : Disk) (hcurrent : daily.Current choice.now) :
    (daily.turned choice disk).1.stem = daily.stem ∧
      (daily.turned choice disk).1.keepDays = daily.keepDays ∧
      (daily.turned choice disk).1.today = dayText choice.now.moment.date ∧
      ∀ handle, (daily.turned choice disk).1.handle = some handle →
        handle = ⟨daily.dayName choice.now, true⟩ := by
  rw [turned]
  split
  · by_cases hopens : choice.opens = true
    · simp only [openDay, hopens, if_true, dayName_eq]
      exact ⟨trivial, trivial, trivial, fun handle hhandle => (Option.some.inj hhandle).symm⟩
    · simp [openDay, hopens]
  · next hsame =>
      have hday : daily.today = dayText choice.now.moment.date := by
        by_contra hne
        exact hsame (.inl (Ne.symm hne))
      exact ⟨rfl, rfl, hday, fun handle hhandle => hcurrent handle hhandle hday⟩

/-- A line is stored at the end of the day's file, and in no other. -/
theorem write_files (line : Text) (disk : Disk) (hcurrent : daily.Current choice.now)
    (hname : name ≠ daily.linkName) :
    ((daily.write line choice disk).2.2.held name = disk.held name ++
        if name = daily.dayName choice.now then (daily.write line choice disk).1 else []) ∧
      (name ≠ daily.dayName choice.now →
        (daily.write line choice disk).2.2.files name = disk.files name) := by
  obtain ⟨-, -, -, hhandle⟩ := turned_handle disk hcurrent
  obtain ⟨hheld, hfiles⟩ := turned_files choice disk hname
  rw [write]
  cases hopen : (daily.turned choice disk).1.handle with
  | none =>
      simp only [hopen, ite_self, List.append_nil]
      exact ⟨hheld, hfiles⟩
  | some handle =>
      obtain rfl := hhandle handle hopen
      simp only [hopen, Disk.append, if_true]
      by_cases hday : name = daily.dayName choice.now
      · rw [if_pos hday, ← hheld, hday]
        exact ⟨by simp [Disk.held], fun hne => absurd rfl hne⟩
      · rw [if_neg hday, List.append_nil, ← hheld, Disk.held, Disk.held]
        simp [Function.update_of_ne hday, hfiles hday]

theorem write_daily (line : Text) (disk : Disk) (hcurrent : daily.Current choice.now) :
    (daily.write line choice disk).2.1.stem = daily.stem ∧
      (daily.write line choice disk).2.1.keepDays = daily.keepDays ∧
      (daily.write line choice disk).2.1.today = dayText choice.now.moment.date ∧
      ∀ handle, (daily.write line choice disk).2.1.handle = some handle →
        handle = ⟨daily.dayName choice.now, true⟩ := by
  have hturned : (daily.write line choice disk).2.1 = (daily.turned choice disk).1 := by
    rw [write]
    cases hopen : (daily.turned choice disk).1.handle <;> simp only [hopen]
  rw [hturned]
  exact turned_handle disk hcurrent

/-- What is stored is the beginning of the line, and all of it with its end where the file
opens and nothing fails. -/
theorem write_stored (daily : DailyFile) (line : Text) (choice : Choice) (disk : Disk) :
    (daily.write line choice disk).1 <+: line.bytes ++ [10] ∧
      (choice.opens = true → choice.stops = none →
        (daily.write line choice disk).1 = line.bytes ++ [10]) := by
  rw [write]
  cases hopen : (daily.turned choice disk).1.handle with
  | none =>
      simp only [hopen]
      refine ⟨List.nil_prefix, fun hopens _ => ?_⟩
      rw [turned] at hopen
      split at hopen
      · simp [openDay, hopens] at hopen
      · next hsame => exact absurd (.inr (Option.isNone_iff_eq_none.mpr hopen)) hsame
  | some handle =>
      simp only [hopen, written]
      refine ⟨List.take_prefix _ _, fun _ hstops => ?_⟩
      rw [hstops, Option.getD_none, List.take_of_length_le (by simp)]

end DailyFile

end Writing

section Pruned

variable {parseDay : Text → Option ℤ} {daily : DailyFile} {now : Instant} {date : Date}
variable (removes : Text → Bool) (disk : Disk)

namespace DailyFile

/-- What pruning removes is of a past day. -/
theorem prune_files {name : Text}
    (hkeep : daily.expired parseDay now name = false) :
    (daily.prune parseDay now removes disk).2.files name = disk.files name := by
  simp [prune, hkeep]

theorem expired_of_not_path {name : Text} (hname : ∀ day, name ≠ daily.path day) :
    daily.expired parseDay now name = false := by
  cases hday : daily.dayOf name with
  | none => rw [expired, hday, Option.bind_none, Option.any_none]
  | some day => exact absurd (eq_path_of_dayOf hday) (hname day)

end DailyFile

end Pruned

section Accounts

/-- Every line that is accepted waits or has been taken, in order, and every other one is
counted. -/
structure Queued (state : State) : Prop where
  bounded : state.queue.length ≤ queueSize
  counted : state.dropped = state.refused.length
  ordered : state.accepted = state.taken ++ state.queue

/-- The lines taken of the audit trail have been written, one by one, and those of the
flow sent, unless there was no collector or no socket. -/
structure Delivered (state : State) : Prop where
  trail : state.trail.map (·.line) = state.taken.filterMap Line.audit?
  stored : ∀ entry ∈ state.trail, entry.stored <+: entry.line.bytes ++ [10] ∧
    (entry.choice.opens = true → entry.choice.stops = none →
      entry.stored = entry.line.bytes ++ [10])
  sent : (state.sent.map Prod.snd).Sublist (state.taken.filterMap Line.flow?)
  unbound : state.bindFailed = true → state.socket = false
  unsent : state.socket = false → state.sent = []

variable {parseDay : Text → Option ℤ} {keepDays : ℕ} {disk : Disk} {clock : Instant}
variable {state next : State} {text : Text} {choice : Choice} {event : Event}

theorem Queued.send (hqueued : Queued state) (line : Line) : Queued (send state line) := by
  rw [Writer.send]
  split
  · next hroom =>
      exact { hqueued with
        bounded := by rw [List.length_append, List.length_singleton]; exact hroom
        ordered := by rw [hqueued.ordered, List.append_assoc] }
  · exact { hqueued with
      counted := by rw [hqueued.counted, List.length_append, List.length_singleton] }

/-- A line that is sent or written has been taken. -/
theorem Queued.take {line : Line} {queue : List Line} (hqueued : Queued state)
    (hqueue : state.queue = line :: queue) (hnext : next.queue = queue)
    (htaken : next.taken = state.taken ++ [line]) (haccepted : next.accepted = state.accepted)
    (hrefused : next.refused = state.refused) (hdropped : next.dropped = state.dropped) :
    Queued next where
  bounded := by
    have hbounded := hqueued.bounded
    rw [hqueue, List.length_cons] at hbounded
    rw [hnext]
    omega
  counted := by rw [hdropped, hrefused, hqueued.counted]
  ordered := by rw [haccepted, htaken, hnext, hqueued.ordered, hqueue, List.append_assoc,
    List.singleton_append]

theorem Delivered.send (hdelivered : Delivered state) (line : Line) :
    Delivered (send state line) := by
  rw [Writer.send]
  split <;> exact { hdelivered with }

theorem Delivered.sendFlow (hdelivered : Delivered state) (queue : List Line) :
    Delivered (sendFlow { state with queue := queue, taken := state.taken ++ [Line.flow text] }
      text choice) := by
  have hflows : (state.taken ++ [Line.flow text]).filterMap Line.flow? =
      state.taken.filterMap Line.flow? ++ [text] := by simp [Line.flow?]
  have haudits : (state.taken ++ [Line.flow text]).filterMap Line.audit? =
      state.taken.filterMap Line.audit? := by simp [Line.audit?]
  have hless := hdelivered.sent.trans (List.sublist_append_left _ [text])
  rw [Writer.sendFlow]
  cases htarget : state.target with
  | none =>
      exact { hdelivered with
        trail := by rw [haudits]; exact hdelivered.trail
        sent := by rw [hflows]; exact hless }
  | some collector =>
      refine { hdelivered with trail := ?_, sent := ?_, unbound := ?_, unsent := ?_ }
      · rw [haudits]
        exact hdelivered.trail
      · rw [hflows]
        dsimp only
        split
        · rw [List.map_append]
          exact hdelivered.sent.append (List.Sublist.refl _)
        · exact hless
      · have hunbound := hdelivered.unbound
        cases hsocket : state.socket <;> cases hfailed : state.bindFailed <;> simp_all
      · intro hsocket
        dsimp only at hsocket ⊢
        rw [hsocket, if_neg Bool.false_ne_true]
        exact hdelivered.unsent (Bool.or_eq_false_iff.mp hsocket).1

theorem Delivered.writeAudit (hdelivered : Delivered state) (queue : List Line) :
    Delivered (writeAudit
      { state with queue := queue, taken := state.taken ++ [Line.audit text] } text choice) := by
  have hflows : (state.taken ++ [Line.audit text]).filterMap Line.flow? =
      state.taken.filterMap Line.flow? := by simp [Line.flow?]
  have haudits : (state.taken ++ [Line.audit text]).filterMap Line.audit? =
      state.taken.filterMap Line.audit? ++ [text] := by simp [Line.audit?]
  refine { hdelivered with trail := ?_, stored := ?_, sent := ?_ }
  · rw [Writer.writeAudit, haudits, List.map_append, hdelivered.trail]
    rfl
  · intro entry hentry
    rw [Writer.writeAudit, List.mem_append, List.mem_singleton] at hentry
    obtain hentry | rfl := hentry
    · exact hdelivered.stored entry hentry
    · exact DailyFile.write_stored state.audit text choice state.disk
  · rw [Writer.writeAudit, hflows]
    exact hdelivered.sent

theorem step_accounts (hqueued : Queued state) (hdelivered : Delivered state)
    (hstep : step parseDay state event = some next) : Queued next ∧ Delivered next := by
  cases event with
  | flow text =>
      obtain rfl := Option.some.inj hstep
      split
      · exact ⟨hqueued.send _, hdelivered.send _⟩
      · exact ⟨hqueued, hdelivered⟩
  | audit text =>
      obtain rfl := Option.some.inj hstep
      exact ⟨hqueued.send _, hdelivered.send _⟩
  | setCollector target =>
      obtain rfl := Option.some.inj hstep
      exact ⟨{ hqueued with }, { hdelivered with }⟩
  | receive choice =>
      cases hqueue : state.queue with
      | nil => simp [step, hqueue] at hstep
      | cons line queue =>
          simp only [step, hqueue] at hstep
          cases line with
          | flow text =>
              obtain rfl := Option.some.inj hstep
              refine ⟨?_, hdelivered.sendFlow queue⟩
              refine hqueued.take hqueue ?_ ?_ ?_ ?_ ?_ <;> rw [sendFlow] <;> split <;> rfl
          | audit text =>
              obtain rfl := Option.some.inj hstep
              exact ⟨hqueued.take hqueue rfl rfl rfl rfl rfl, hdelivered.writeAudit queue⟩
  | tick now removes =>
      obtain rfl := Option.some.inj hstep
      exact ⟨{ hqueued with }, { hdelivered with }⟩

/-- Over every run, no more lines wait than there is room for, the lines of the audit trail
have been written in the order they were accepted in, up to those that wait, each with its
beginning at least and whole where its file opened and nothing failed, and every line that
was not accepted is counted. -/
theorem accounts_of_run
    (run : Run (step parseDay) anything (start keepDays disk clock) state) :
    Queued state ∧ Delivered state := by
  refine run.invariant (fun state => Queued state ∧ Delivered state)
    (fun state event next hboth _ hstep => step_accounts hboth.1 hboth.2 hstep) ⟨?_, ?_⟩
  · exact ⟨Nat.zero_le _, rfl, rfl⟩
  · exact ⟨rfl, fun _ hentry => absurd hentry List.not_mem_nil, List.Sublist.refl [],
      fun hfailed => by simp [start] at hfailed, fun _ => rfl⟩

end Accounts

section Trail

/-- A day's file holds what it held at first and then what was stored on that day, until
the day is past; no file but those of the days and the link has changed.  A file that is
open and has lost its name is of a day that is past. -/
structure Kept (keepDays : ℕ) (first : Disk) (state : State) : Prop where
  stem : state.audit.stem = "audit".toList
  keepDays : state.audit.keepDays = keepDays
  opened : ∀ handle, state.audit.handle = some handle → ∃ date,
    state.audit.today = dayText date ∧ handle.name = state.audit.path (dayText date) ∧
      (handle.linked = false → state.audit.past state.clock (dayStart date) = true)
  held : ∀ date, state.audit.past state.clock (dayStart date) = false →
    state.disk.held (state.audit.path (dayText date)) =
      first.held (state.audit.path (dayText date)) ++ storedOn date state.trail
  others : ∀ name, (∀ day, name ≠ state.audit.path day) → name ≠ state.audit.linkName →
    state.disk.files name = first.files name

variable {parseDay : Text → Option ℤ} {keepDays : ℕ} {disk : Disk} {clock : Instant}
variable {state next : State} {text : Text} {choice : Choice} {event : Event}
variable {daily other : DailyFile} {now later : Instant}

theorem past_congr (hkeep : daily.keepDays = other.keepDays) (start : ℤ) :
    daily.past now start = other.past now start := by
  rw [DailyFile.past, DailyFile.past, hkeep]

theorem path_congr (hstem : daily.stem = other.stem) : daily.path = other.path := by
  funext day
  rw [DailyFile.path, DailyFile.path, hstem]

theorem linkName_congr (hstem : daily.stem = other.stem) : daily.linkName = other.linkName := by
  rw [DailyFile.linkName, DailyFile.linkName, hstem]

theorem not_past_of_later (hlater : now.timestamp ≤ later.timestamp) {start : ℤ}
    (hpast : daily.past later start = false) : daily.past now start = false :=
  Bool.eq_false_iff.mpr fun hnow =>
    Bool.eq_false_iff.mp hpast (DailyFile.past_mono hlater hnow)

/-- The file that is open for the day the clock shows has its name. -/
theorem Kept.current {first : Disk} (hkept : Kept keepDays first state)
    (hparse : ∀ date, parseDay (dayText date) = some (dayStart date))
    (hsteady : state.clock.timestamp ≤ now.timestamp) : state.audit.Current now := by
  intro handle hhandle htoday
  obtain ⟨date, hdate, hname, hlinked⟩ := hkept.opened handle hhandle
  obtain rfl := dayText_injective hparse (hdate.symm.trans htoday)
  obtain ⟨name, linked⟩ := handle
  dsimp only at hname hlinked
  cases linked with
  | false =>
      have hpast := DailyFile.past_mono hsteady (hlinked rfl)
      rw [DailyFile.past_today] at hpast
      exact absurd hpast Bool.false_ne_true
  | true => rw [hname, DailyFile.dayName]

theorem storedOn_append (date : Date) (trail : List Entry) (entry : Entry) :
    storedOn date (trail ++ [entry]) =
      storedOn date trail ++ if entry.date = date then entry.stored else [] := by
  rw [storedOn, storedOn, List.filter_append, List.flatMap_append]
  split
  · next hdate => simp [hdate]
  · next hdate => simp [hdate]

theorem Kept.writeAudit {first : Disk} (hkept : Kept keepDays first state)
    (hparse : ∀ date, parseDay (dayText date) = some (dayStart date))
    (hsteady : state.clock.timestamp ≤ choice.now.timestamp) (text : Text) :
    Kept keepDays first (writeAudit state text choice) := by
  have hcurrent := hkept.current hparse hsteady
  obtain ⟨hstem, hkeep, htoday, hhandle⟩ :=
    DailyFile.write_daily text state.disk hcurrent
  have hpath := path_congr hstem
  rw [Writer.writeAudit]
  refine ⟨hstem.trans hkept.stem, hkeep.trans hkept.keepDays, ?_, ?_, ?_⟩
  · intro handle hopen
    obtain rfl := hhandle handle hopen
    exact ⟨choice.now.moment.date, htoday, by rw [hpath]; rfl, fun hlost => by simp at hlost⟩
  · intro date hpast
    dsimp only at hpast ⊢
    rw [past_congr hkeep] at hpast
    obtain ⟨hheld, -⟩ := DailyFile.write_files text state.disk hcurrent
      (state.audit.path_ne_linkName (dayText date))
    rw [hpath, hheld, hkept.held date (not_past_of_later hsteady hpast), storedOn_append,
      List.append_assoc]
    congr 2
    simp only [Entry.date, DailyFile.dayName, state.audit.path_injective.eq_iff,
      (dayText_injective hparse).eq_iff, eq_comm]
  · intro name hname hlink
    dsimp only at hname hlink ⊢
    rw [hpath] at hname
    rw [linkName_congr hstem] at hlink
    rw [(DailyFile.write_files text state.disk hcurrent hlink).2 (hname _)]
    exact hkept.others name hname hlink

theorem Kept.prune {first : Disk} (hkept : Kept keepDays first state)
    (hparse : ∀ date, parseDay (dayText date) = some (dayStart date))
    (hsteady : state.clock.timestamp ≤ now.timestamp) (removes : Text → Bool) :
    Kept keepDays first
      { state with
        audit := (state.audit.prune parseDay now removes state.disk).1
        disk := (state.audit.prune parseDay now removes state.disk).2
        clock := now } := by
  refine ⟨hkept.stem, hkept.keepDays, ?_, ?_, ?_⟩
  · intro handle hopen
    simp only [DailyFile.prune, Option.map_eq_some_iff] at hopen
    obtain ⟨handle, hhandle, rfl⟩ := hopen
    obtain ⟨date, htoday, hname, hlinked⟩ := hkept.opened handle hhandle
    refine ⟨date, htoday, hname, fun hlost => ?_⟩
    dsimp only at hlost ⊢
    rw [hname, DailyFile.expired_path hparse, Bool.and_eq_false_iff, Bool.not_eq_false_eq_eq_true,
      Bool.and_eq_true] at hlost
    obtain hlost | ⟨hpast, -⟩ := hlost
    · exact DailyFile.past_mono hsteady (hlinked hlost)
    · exact hpast
  · intro date hpast
    have hkeep : state.audit.expired parseDay now (state.audit.path (dayText date)) = false :=
      (DailyFile.expired_path hparse).trans hpast
    refine Eq.trans ?_ (hkept.held date (not_past_of_later hsteady hpast))
    exact congrArg (·.getD []) (DailyFile.prune_files removes state.disk hkeep)
  · intro name hname hlink
    exact (DailyFile.prune_files removes state.disk
      (DailyFile.expired_of_not_path hname)).trans (hkept.others name hname hlink)

/-- What neither writes nor prunes keeps the files. -/
theorem Kept.of_same {first : Disk} (hkept : Kept keepDays first state)
    (haudit : next.audit = state.audit) (hdisk : next.disk = state.disk)
    (hclock : next.clock = state.clock) (htrail : next.trail = state.trail) :
    Kept keepDays first next := by
  obtain ⟨hstem, hkeep, hopened, hheld, hothers⟩ := hkept
  constructor
  · rwa [haudit]
  · rwa [haudit]
  · rwa [haudit, hclock]
  · rwa [haudit, hclock, hdisk, htrail]
  · rwa [haudit, hdisk]

theorem Kept.send {first : Disk} (hkept : Kept keepDays first state) (line : Line) :
    Kept keepDays first (send state line) := by
  refine hkept.of_same ?_ ?_ ?_ ?_ <;> rw [Writer.send] <;> split <;> rfl

theorem Kept.sendFlow {first : Disk} (hkept : Kept keepDays first state) (text : Text)
    (choice : Choice) : Kept keepDays first (sendFlow state text choice) := by
  refine hkept.of_same ?_ ?_ ?_ ?_ <;> rw [Writer.sendFlow] <;> split <;> rfl

theorem step_kept {first : Disk} (hkept : Kept keepDays first state)
    (hparse : ∀ date, parseDay (dayText date) = some (dayStart date))
    (hsteady : Steady state event) (hstep : step parseDay state event = some next) :
    Kept keepDays first next := by
  cases event with
  | flow text =>
      obtain rfl := Option.some.inj hstep
      split
      · exact hkept.send _
      · exact hkept
  | audit text =>
      obtain rfl := Option.some.inj hstep
      exact hkept.send _
  | setCollector target =>
      obtain rfl := Option.some.inj hstep
      exact hkept.of_same rfl rfl rfl rfl
  | receive choice =>
      cases hqueue : state.queue with
      | nil => simp [step, hqueue] at hstep
      | cons line queue =>
          simp only [step, hqueue] at hstep
          have htaken : Kept keepDays first
              { state with queue := queue, taken := state.taken ++ [line] } :=
            hkept.of_same rfl rfl rfl rfl
          cases line with
          | flow text =>
              obtain rfl := Option.some.inj hstep
              exact htaken.sendFlow text choice
          | audit text =>
              obtain rfl := Option.some.inj hstep
              exact htaken.writeAudit hparse hsteady text
  | tick now removes =>
      obtain rfl := Option.some.inj hstep
      exact hkept.prune hparse hsteady removes

/-- The file of a day. -/
def auditFile (date : Date) : Text := (DailyFile.new "audit".toList 0).path (dayText date)

/-- While the clock is not set back, and until a day is more than the days kept ago, the
file of the day holds what it held when the writer started and then, in order, all that was
stored on that day; no other file is touched, except one with the name of the link. -/
theorem trail_of_run (hparse : ∀ date, parseDay (dayText date) = some (dayStart date))
    (run : Run (step parseDay) Steady (start keepDays disk clock) state) :
    (∀ date,
      keepDays = 0 ∨ state.clock.timestamp ≤ 10 ^ 9 * (dayStart date + 86400 * keepDays) →
        state.disk.held (auditFile date) =
          disk.held (auditFile date) ++ storedOn date state.trail) ∧
      ∀ name, (∀ day, name ≠ (DailyFile.new "audit".toList 0).path day) →
        name ≠ (DailyFile.new "audit".toList 0).linkName →
          state.disk.files name = disk.files name := by
  have hkept : Kept keepDays disk state := by
    refine run.invariant (Kept keepDays disk)
      (fun state event next hkept hsteady hstep => step_kept hkept hparse hsteady hstep) ?_
    exact ⟨rfl, rfl, fun _ hhandle => by simp [start, DailyFile.new] at hhandle,
      fun _ _ => (List.append_nil _).symm, fun _ _ _ => rfl⟩
  have hpath : state.audit.path = (DailyFile.new "audit".toList 0).path := path_congr hkept.stem
  have hlinkName : state.audit.linkName = (DailyFile.new "audit".toList 0).linkName :=
    linkName_congr hkept.stem
  refine ⟨fun date hdate => ?_, fun name hname hlink => ?_⟩
  · rw [auditFile, ← hpath]
    refine hkept.held date ?_
    rw [DailyFile.past, hkept.keepDays]
    obtain hzero | hclock := hdate
    · simp [hzero]
    · rw [Bool.and_eq_false_iff]
      exact .inr (decide_eq_false (by omega))
  · refine hkept.others name ?_ ?_
    · rwa [hpath]
    · rwa [hlinkName]

end Trail

section Example

/-- A day read as it is written. -/
def readDay (text : Text) : Option ℤ := do
  let year ← parseDigits (text.take 4)
  let month ← parseDigits ((text.drop 5).take 2)
  let day ← parseDigits (text.drop 8)
  return dayStart (← Date.ofFields? year month day)

theorem readDay_dayText (date : Date) : readDay (dayText date) = some (dayStart date) := by
  have hyear : (Text.padded 4 date.year).length = 4 :=
    length_padded (by norm_num) date.year_lt
  have hmonth : (Text.padded 2 date.month).length = 2 :=
    length_padded (by norm_num) date.month_lt
  have htake : (dayText date).take 4 = Text.padded 4 date.year := by
    rw [dayText, List.append_assoc, List.take_left' hyear]
  have hdrop : (dayText date).drop 5 =
      Text.padded 2 date.month ++ '-' :: Text.padded 2 date.day := by
    rw [dayText, List.append_assoc, ← List.drop_drop (i := 1) (j := 4), List.drop_left' hyear]
    rfl
  have hlast : (dayText date).drop 8 = Text.padded 2 date.day := by
    rw [← List.drop_drop (i := 3) (j := 5), hdrop, ← List.drop_drop (i := 1) (j := 2),
      List.drop_left' hmonth]
    rfl
  rw [readDay, htake, hdrop, hlast, List.take_left' hmonth]
  simp only [parseDigits_padded, Option.bind_eq_bind, Option.bind_some, Date.ofFields?_fields]
  rfl

def morning : Instant where
  moment :=
    ⟨⟨2027, 9, 27, by decide, by decide, by decide⟩, ⟨8, 30, 15, by decide, by decide, by decide⟩⟩
  nanos := 0
  unleaped := rfl
  nanos_lt := by decide

/-- Everything works. -/
def inTheMorning : Choice := ⟨morning, true, true, true, true, none⟩

def signedIn : Text := "event=login".toList

def emptyDisk : Disk := ⟨fun _ => none, none⟩

def waiting : State := send (start 30 emptyDisk morning) (.audit signedIn)

def wrote : State :=
  writeAudit { waiting with queue := [], taken := [.audit signedIn] } signedIn inTheMorning

theorem run_wrote : Run (step readDay) Steady (start 30 emptyDisk morning) wrote :=
  @Run.tail _ _ _ _ _ waiting _ (.receive inTheMorning)
    (@Run.single _ _ _ _ _ _ (.audit signedIn) trivial rfl) (le_refl _) rfl

theorem signedIn_stored : wrote.disk.held (auditFile morning.moment.date) =
    emptyDisk.held (auditFile morning.moment.date) ++ storedOn morning.moment.date wrote.trail := by
  refine (trail_of_run readDay_dayText run_wrote).1 morning.moment.date (.inr ?_)
  have hclock := morning.moment.clock.seconds_lt
  change 10 ^ 9 * (dayStart morning.moment.date + morning.moment.clock.seconds) + (0 : ℕ) ≤ _
  omega

theorem wrote_accounts : Queued wrote ∧ Delivered wrote :=
  accounts_of_run (run_wrote.mono fun _ _ _ => trivial)

end Example

end EasyWaf.Logging.Writer
