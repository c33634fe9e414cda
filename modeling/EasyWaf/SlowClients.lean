import EasyWaf.Core.HashMap
import EasyWaf.Core.Machine
import EasyWaf.Forwarded
import EasyWaf.SmartProtect.Offences

/-!
# Connections and how they open

Every connection holds a place among those of its client's address, and gives it back
when it is dropped.  The first bytes of a connection are looked at however they arrive,
and one that opens as HTTP/2 is ended.
-/

namespace EasyWaf.SlowClients

open EasyWaf.Core EasyWaf.Machine Forwarded Net

section Slots

/-- `MAX_CONNECTIONS_PER_ADDRESS`. -/
def maxConnectionsPerAddress : ℕ := 1024

/-- How many connections each unit holds open. -/
abbrev OpenConnections := HashMap IpAddr ℕ

/-- One of an address's connections, and what it is counted against; `none` for an
address that is not counted. -/
structure Slot where
  counted : Option IpAddr
  deriving DecidableEq

/-- A v4 address written as v6 is the v4 address it is. -/
def plainAddress : IpAddr → IpAddr
  | .v6 bits => ((IpAddr.toIpv4Mapped bits).map .v4).getD (.v6 bits)
  | .v4 bits => .v4 bits

/-- `is_trusted_proxy`. -/
def isTrustedProxy (trusted : List Cidr) (address : IpAddr) : Bool := trusted.any (·.contains address)

/-- `take_within`. -/
def takeWithin (trusted : List Cidr) (connections : OpenConnections) (address : IpAddr) (limit : ℕ) :
    OpenConnections × Option Slot :=
  let address := plainAddress address
  if isTrustedProxy trusted address then (connections, some ⟨none⟩)
  else
    let unit := SmartProtect.unit address
    let held := (connections unit).getD 0
    if limit ≤ held then (connections.insert unit held, none)
    else (connections.insert unit (held + 1), some ⟨some unit⟩)

/-- `drop`. -/
def dropSlot (connections : OpenConnections) (slot : Slot) : OpenConnections :=
  match slot.counted with
  | none => connections
  | some unit =>
      match connections unit with
      | none => connections
      | some held =>
          if held - 1 = 0 then Function.update connections unit none
          else connections.insert unit (held - 1)

/-- The counts, and the slots that are held. -/
structure World where
  connections : OpenConnections
  slots : List Slot

def World.initial : World := ⟨HashMap.empty, []⟩

/-- A connection is accepted, with the trusted list of the moment, or one is dropped. -/
inductive Event
  | take (trusted : List Cidr) (address : IpAddr)
  | drop (slot : Slot)

def step (limit : ℕ) (world : World) : Event → Option World
  | .take trusted address =>
      let (connections, slot) := takeWithin trusted world.connections address limit
      some ⟨connections, slot.toList ++ world.slots⟩
  | .drop slot =>
      if slot ∈ world.slots then
        some ⟨dropSlot world.connections slot, world.slots.erase slot⟩
      else none

/-- The slots a unit holds. -/
def World.live (world : World) (unit : IpAddr) : ℕ := world.slots.count ⟨some unit⟩

/-- A unit is counted as many times as it holds slots, and one that holds none is not
in the table. -/
structure Balanced (limit : ℕ) (world : World) : Prop where
  held : ∀ unit, world.connections unit =
    if world.live unit = 0 then none else some (world.live unit)
  within : ∀ unit, world.live unit ≤ limit

variable {limit : ℕ} {world next : World}

theorem Balanced.getD (hbalanced : Balanced limit world) (unit : IpAddr) :
    (world.connections unit).getD 0 = world.live unit := by
  rw [hbalanced.held]
  split
  case isTrue hnone => exact hnone.symm
  case isFalse => rfl

theorem live_cons (slot : Slot) (connections connections' : OpenConnections) (slots : List Slot)
    (unit : IpAddr) :
    (⟨connections, slot :: slots⟩ : World).live unit =
      (⟨connections', slots⟩ : World).live unit + if slot.counted = some unit then 1 else 0 := by
  obtain ⟨counted⟩ := slot
  simp only [World.live, List.count_cons, beq_iff_eq, Slot.mk.injEq]

/-- One unit's count is set, and it is what it holds. -/
theorem Balanced.update (hbalanced : Balanced limit world) (own : IpAddr) (count : ℕ)
    (hconnections : next.connections =
      Function.update world.connections own (if count = 0 then none else some count))
    (hown : next.live own = count) (hcount : count ≤ limit)
    (hother : ∀ unit, unit ≠ own → next.live unit = world.live unit) : Balanced limit next where
  held unit := by
    by_cases hunit : unit = own
    · rw [hconnections, hunit, Function.update_self, hown]
    · rw [hconnections, Function.update_of_ne hunit, hbalanced.held, hother unit hunit]
  within unit := by
    by_cases hunit : unit = own
    · rw [hunit, hown]
      exact hcount
    · rw [hother unit hunit]
      exact hbalanced.within unit

theorem balanced_take (hlimit : 0 < limit) (hbalanced : Balanced limit world)
    (trusted : List Cidr) (address : IpAddr) :
    Balanced limit ⟨(takeWithin trusted world.connections address limit).1,
      (takeWithin trusted world.connections address limit).2.toList ++ world.slots⟩ := by
  unfold takeWithin
  dsimp only
  rw [hbalanced.getD]
  generalize SmartProtect.unit (plainAddress address) = own
  split
  case isTrue =>
    -- a trusted proxy's slot is counted against nothing
    exact ⟨fun unit => hbalanced.held unit, fun unit => hbalanced.within unit⟩
  case isFalse =>
    split
    case isTrue hfull =>
      apply hbalanced.update own (world.live own)
      · rw [if_neg (Nat.ne_of_gt (hlimit.trans_le hfull))]
        rfl
      · rfl
      · exact hbalanced.within own
      · intro unit hunit
        rfl
    case isFalse hroom =>
      apply hbalanced.update own (world.live own + 1)
      · rw [if_neg (Nat.succ_ne_zero _)]
        rfl
      · rw [Option.toList_some, List.singleton_append, live_cons _ _ world.connections, if_pos rfl]
      · exact not_le.mp hroom
      · intro unit hunit
        rw [Option.toList_some, List.singleton_append, live_cons _ _ world.connections,
          if_neg (by simpa using Ne.symm hunit)]
        rfl

theorem live_erase {slot : Slot} (hmem : slot ∈ world.slots) (connections : OpenConnections)
    (unit : IpAddr) :
    (⟨connections, world.slots.erase slot⟩ : World).live unit =
      world.live unit - if slot.counted = some unit then 1 else 0 := by
  obtain ⟨counted⟩ := slot
  simp only [World.live, List.count_erase, beq_iff_eq, Slot.mk.injEq]

theorem balanced_drop (hbalanced : Balanced limit world) {slot : Slot}
    (hmem : slot ∈ world.slots) :
    Balanced limit ⟨dropSlot world.connections slot, world.slots.erase slot⟩ := by
  obtain ⟨_ | own⟩ := slot
  · have hlive (unit : IpAddr) :
        (⟨dropSlot world.connections ⟨none⟩, world.slots.erase ⟨none⟩⟩ : World).live unit =
          world.live unit := by
      rw [live_erase hmem, if_neg (Option.some_ne_none unit).symm, Nat.sub_zero]
    constructor
    · intro unit
      rw [hlive]
      exact hbalanced.held unit
    · intro unit
      rw [hlive]
      exact hbalanced.within unit
  · have hlive : world.live own ≠ 0 := Nat.ne_of_gt (List.count_pos_iff.mpr hmem)
    apply hbalanced.update own (world.live own - 1)
    · unfold dropSlot
      dsimp only
      rw [hbalanced.held, if_neg hlive]
      dsimp only
      split <;> rfl
    · rw [live_erase hmem, if_pos rfl]
    · exact (Nat.sub_le _ _).trans (hbalanced.within own)
    · intro unit hunit
      rw [live_erase hmem, if_neg (by simpa using Ne.symm hunit), Nat.sub_zero]

/-- However connections come and go, the counts are right. -/
theorem balanced_of_run (hlimit : 0 < limit)
    (run : Run (step limit) anything World.initial world) : Balanced limit world := by
  apply run.invariant (Balanced limit) _ ⟨fun _ => rfl, fun _ => Nat.zero_le _⟩
  rintro before (⟨trusted, address⟩ | slot) after hbalanced - hstep
  · obtain rfl := Option.some.inj hstep
    exact balanced_take hlimit hbalanced trusted address
  · obtain ⟨hmem, heq⟩ := Option.ite_none_right_eq_some.mp hstep
    obtain rfl := Option.some.inj heq
    exact balanced_drop hbalanced hmem

/-- A client that is not a trusted proxy is refused just where its unit holds as many
slots as it may, and is given one of the unit's otherwise. -/
theorem slot_taken (hbalanced : Balanced limit world) (trusted : List Cidr)
    (address : IpAddr) (huntrusted : isTrustedProxy trusted (plainAddress address) = false) :
    (takeWithin trusted world.connections address limit).2 =
      if world.live (SmartProtect.unit (plainAddress address)) = limit then none
      else some ⟨some (SmartProtect.unit (plainAddress address))⟩ := by
  unfold takeWithin
  dsimp only
  rw [hbalanced.getD, huntrusted, if_neg Bool.false_ne_true]
  have hwithin := hbalanced.within (SmartProtect.unit (plainAddress address))
  split
  case isTrue hfull => rw [if_pos (le_antisymm hwithin hfull)]
  case isFalse hroom => rw [if_neg (not_le.mp hroom).ne]

end Slots

section Opening

/-- How every HTTP/2 connection begins: `HTTP2_OPENING`. -/
def http2Opening : List UInt8 := [0x50, 0x52, 0x49, 0x20]

/-- A connection whose first read must complete before a deadline, and which must not
open as HTTP/2. -/
structure FirstRead where
  deadline : Option ℕ
  opening : Option (List UInt8)
  deriving DecidableEq

namespace FirstRead

/-- `new`, at a time. -/
def new (now within : ℕ) : FirstRead := ⟨some (now + within), some []⟩

/-- `may_continue`. -/
def mayContinue (connection : FirstRead) (read : List UInt8) : FirstRead × Bool :=
  match connection.opening with
  | none => (connection, true)
  | some seen =>
      let wanted := http2Opening.length - seen.length
      let seen := seen ++ read.take (min read.length wanted)
      if seen.isPrefixOf http2Opening then
        ({ connection with opening := some seen }, decide (seen.length < http2Opening.length))
      else ({ connection with opening := none }, true)

/-- What the stream that is wrapped answers. -/
inductive Inner
  | pending
  | failed
  | read (bytes : List UInt8)
  deriving DecidableEq

/-- What the caller is told. -/
inductive Outcome
  | pending
  | failed
  | read (bytes : List UInt8)
  | openedAsHttp2
  | timedOut
  deriving DecidableEq

/-- `poll_read`, at a time. -/
def pollRead (connection : FirstRead) (now : ℕ) : Inner → FirstRead × Outcome
  | .pending =>
      if connection.deadline.any (· ≤ now) then (connection, .timedOut) else (connection, .pending)
  | .failed => ({ connection with deadline := none }, .failed)
  | .read bytes =>
      let connection := { connection with deadline := none }
      if connection.opening.isSome then
        let (connection, continues) := connection.mayContinue bytes
        (connection, if continues then .read bytes else .openedAsHttp2)
      else (connection, .read bytes)

/-- Polls one after the other. -/
def polled (connection : FirstRead) (polls : List (ℕ × Inner)) : FirstRead :=
  polls.foldl (fun connection poll => (connection.pollRead poll.1 poll.2).1) connection

end FirstRead

/-- The bytes that arrived. -/
def arrived (polls : List (ℕ × FirstRead.Inner)) : List UInt8 :=
  polls.flatMap fun
    | (_, .read bytes) => bytes
    | _ => []

/-- What is kept of the bytes that arrived: the first four, for as long as they may be
the opening. -/
def kept (bytes : List UInt8) : Option (List UInt8) :=
  if bytes.take 4 <+: http2Opening then some (bytes.take 4) else none

variable {bytes : List UInt8}

@[simp] theorem arrived_nil : arrived [] = [] := rfl

@[simp] theorem arrived_append (polls later : List (ℕ × FirstRead.Inner)) :
    arrived (polls ++ later) = arrived polls ++ arrived later := List.flatMap_append

/-- The first four bytes, with as many of the next as are wanted. -/
theorem take_append_wanted (bytes read : List UInt8) :
    bytes.take 4 ++ read.take (min read.length (http2Opening.length - (bytes.take 4).length)) =
      (bytes ++ read).take 4 := by
  rw [List.take_append, List.length_take]
  congr 1
  rw [List.take_eq_take_iff]
  have hlength : http2Opening.length = 4 := rfl
  omega

/-- What is not the opening so far never becomes it. -/
theorem kept_append_eq_none (read : List UInt8) (hnone : ¬ bytes.take 4 <+: http2Opening) :
    ¬ (bytes ++ read).take 4 <+: http2Opening := by
  intro hstart
  apply hnone
  apply List.IsPrefix.trans _ hstart
  rw [List.take_append]
  exact List.prefix_append _ _

/-- Four bytes that may be the opening are the opening. -/
theorem full_opening (hstart : bytes.take 4 <+: http2Opening) :
    (bytes.take 4).length < 4 ↔ bytes.take 4 ≠ http2Opening := by
  constructor
  · intro hshort heq
    rw [heq] at hshort
    exact lt_irrefl 4 hshort
  · intro hne
    apply lt_of_le_of_ne hstart.length_le
    intro hlength
    exact hne (hstart.eq_of_length hlength)

theorem mayContinue_kept (deadline : Option ℕ) (bytes read : List UInt8)
    (hsome : (kept bytes).isSome = true) :
    FirstRead.mayContinue ⟨deadline, kept bytes⟩ read =
      (⟨deadline, kept (bytes ++ read)⟩, decide ((bytes ++ read).take 4 ≠ http2Opening)) := by
  have hstart : bytes.take 4 <+: http2Opening := by
    by_contra hnone
    rw [kept, if_neg hnone] at hsome
    cases hsome
  unfold FirstRead.mayContinue
  rw [kept, if_pos hstart]
  dsimp only
  rw [take_append_wanted]
  by_cases hnext : (bytes ++ read).take 4 <+: http2Opening
  · rw [if_pos (List.isPrefixOf_iff_prefix.mpr hnext), kept, if_pos hnext]
    congr 1
    exact decide_eq_decide.mpr (full_opening hnext)
  · rw [if_neg (mt List.isPrefixOf_iff_prefix.mp hnext), kept, if_neg hnext]
    congr 1
    have hne : (bytes ++ read).take 4 ≠ http2Opening := fun heq =>
      hnext (heq ▸ List.prefix_rfl)
    exact (decide_eq_true hne).symm

/-- A read is refused just where the bytes so far open as HTTP/2. -/
theorem pollRead_read (deadline : Option ℕ) (now : ℕ) (bytes read : List UInt8) :
    FirstRead.pollRead ⟨deadline, kept bytes⟩ now (.read read) =
      (⟨none, kept (bytes ++ read)⟩,
        if (bytes ++ read).take 4 = http2Opening then .openedAsHttp2 else .read read) := by
  unfold FirstRead.pollRead
  dsimp only
  by_cases hsome : (kept bytes).isSome = true
  · rw [if_pos hsome, mayContinue_kept none bytes read hsome]
    simp only [decide_eq_true_eq, ite_not]
  · rw [if_neg hsome]
    have hstart : ¬ bytes.take 4 <+: http2Opening := by
      intro hstart
      rw [kept, if_pos hstart] at hsome
      exact hsome rfl
    have hnext := kept_append_eq_none read hstart
    rw [kept, if_neg hstart, kept, if_neg hnext, if_neg]
    intro heq
    exact hnext (heq ▸ List.prefix_rfl)

/-- However the bytes arrived, what is kept is what their first four make of it. -/
theorem opening_polled (now within : ℕ) (polls : List (ℕ × FirstRead.Inner)) :
    ((FirstRead.new now within).polled polls).opening = kept (arrived polls) := by
  induction polls using List.reverseRecOn with
  | nil => rfl
  | append_singleton polls poll ih =>
    unfold FirstRead.polled at ih ⊢
    rw [List.foldl_concat, arrived_append]
    generalize polls.foldl _ (FirstRead.new now within) = connection at ih ⊢
    obtain ⟨deadline, opening⟩ := connection
    obtain rfl : opening = _ := ih
    obtain ⟨time, _ | _ | read⟩ := poll
    case pending =>
      rw [show arrived [(time, .pending)] = [] from rfl, List.append_nil]
      dsimp only [FirstRead.pollRead]
      split <;> rfl
    case failed =>
      rw [show arrived [(time, .failed)] = [] from rfl, List.append_nil]
      rfl
    case read =>
      rw [show arrived [(time, .read read)] = read from List.append_nil read]
      exact congrArg (FirstRead.opening ∘ Prod.fst) (pollRead_read deadline time _ read)

/-- The answer to a read, after any polls. -/
theorem answer_to_read (start within now : ℕ) (polls : List (ℕ × FirstRead.Inner))
    (read : List UInt8) :
    (((FirstRead.new start within).polled polls).pollRead now (.read read)).2 =
      if (arrived polls ++ read).take 4 = http2Opening then .openedAsHttp2 else .read read := by
  have hopening := opening_polled start within polls
  generalize (FirstRead.new start within).polled polls = connection at hopening ⊢
  obtain ⟨deadline, opening⟩ := connection
  obtain rfl : opening = _ := hopening
  rw [pollRead_read]

/-- What opened as HTTP/2 goes on having done so. -/
theorem opened_append (later : List UInt8) (hopened : bytes.take 4 = http2Opening) :
    (bytes ++ later).take 4 = http2Opening := by
  have hlength : 4 ≤ bytes.length := by
    have hfour := congrArg List.length hopened
    rw [List.length_take] at hfour
    exact min_eq_left_iff.mp hfour
  rw [List.take_append_of_le_length hlength, hopened]

end Opening

/-- The unit of a client. -/
def unitOf (address : IpAddr) : IpAddr := SmartProtect.unit (plainAddress address)

/-- Through every sequence of slots taken and dropped each unit is counted as many times
as it holds slots, never beyond the limit and not at all when it holds none, and a client
that is no trusted proxy is refused just at the limit; and however the bytes of a
connection arrive, a read is refused just where the first four open as HTTP/2, and so is
every one after it. -/
theorem connections_guarded (limit : ℕ) (hlimit : 0 < limit) :
    (∀ world, Run (step limit) anything World.initial world →
      (∀ unit, (world.connections unit).getD 0 = world.live unit ∧ world.live unit ≤ limit ∧
        (world.live unit = 0 → world.connections unit = none)) ∧
      ∀ trusted address, isTrustedProxy trusted (plainAddress address) = false →
        (takeWithin trusted world.connections address limit).2 =
          if world.live (unitOf address) = limit then none else some ⟨some (unitOf address)⟩) ∧
    (∀ start within now polls read,
      (((FirstRead.new start within).polled polls).pollRead now (.read read)).2 =
        if (arrived polls ++ read).take 4 = http2Opening then .openedAsHttp2 else .read read) ∧
    ∀ start within now polls later read, (arrived polls).take 4 = http2Opening →
      (((FirstRead.new start within).polled (polls ++ later)).pollRead now (.read read)).2 =
        .openedAsHttp2 := by
  constructor
  · intro world run
    have hbalanced := balanced_of_run hlimit run
    constructor
    · intro unit
      refine ⟨hbalanced.getD unit, hbalanced.within unit, ?_⟩
      intro hnone
      rw [hbalanced.held, if_pos hnone]
    · exact slot_taken hbalanced
  constructor
  · exact answer_to_read
  · intro start within now polls later read hopened
    rw [answer_to_read, if_pos]
    rw [arrived_append]
    exact opened_append _ (opened_append _ hopened)

/-- A trusted proxy is given a slot that is counted against nothing. -/
theorem takeWithin_trusted (trusted : List Cidr) (connections : OpenConnections)
    (address : IpAddr) (limit : ℕ)
    (htrusted : isTrustedProxy trusted (plainAddress address) = true) :
    takeWithin trusted connections address limit = (connections, some ⟨none⟩) :=
  if_pos htrusted

theorem step_take_trusted (limit : ℕ) (world : World) (trusted : List Cidr) (address : IpAddr)
    (htrusted : isTrustedProxy trusted (plainAddress address) = true) :
    step limit world (.take trusted address) =
      some ⟨world.connections, ⟨none⟩ :: world.slots⟩ := by
  simp only [step, takeWithin_trusted _ _ _ _ htrusted, Option.toList_some,
    List.singleton_append]

/-- A trusted proxy holds two connections where one is the limit, is counted for neither,
and is not refused a third. -/
theorem proxy_not_counted :
    ∃ trusted world, Run (step 1) anything World.initial world ∧
      world.slots.length = 2 ∧ world.connections (unitOf (.v4 7)) = none ∧
      (takeWithin trusted world.connections (.v4 7) 1).2 ≠ none := by
  obtain ⟨trusted, htrusted⟩ :
      ∃ trusted, isTrustedProxy trusted (plainAddress (.v4 7)) = true :=
    ⟨[⟨.v4 7, 32, show 32 ≤ 32 from le_rfl⟩], by decide +kernel⟩
  have first := step_take_trusted 1 World.initial trusted (.v4 7) htrusted
  have second := step_take_trusted 1 ⟨HashMap.empty, [⟨none⟩]⟩ trusted (.v4 7) htrusted
  refine ⟨trusted, _, (Run.single trivial first).tail trivial second, rfl, rfl, ?_⟩
  rw [takeWithin_trusted _ _ _ _ htrusted]
  exact Option.some_ne_none _

/-- One connection at a time: the second is refused, and the table is empty again once the
first is dropped. -/
theorem second_refused :
    ∃ world, Run (step 1) anything World.initial world ∧
      world.live (.v4 7) = 1 ∧ (takeWithin [] world.connections (.v4 7) 1).2 = none := by
  have run : Run (step 1) anything World.initial
      ⟨(takeWithin [] HashMap.empty (.v4 7) 1).1, [⟨some (.v4 7)⟩]⟩ :=
    Run.single (show anything _ (.take [] (.v4 7)) from trivial) rfl
  refine ⟨_, run, rfl, ?_⟩
  rw [((connections_guarded 1 Nat.one_pos).1 _ run).2 [] (.v4 7) rfl]
  rfl

end EasyWaf.SlowClients
