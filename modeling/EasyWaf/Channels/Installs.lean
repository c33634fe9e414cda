import EasyWaf.Channels.Whole

/-!
# Installs, seedings and readings of the channels

Each channel has a mirror of its own and any number of calls on it.  Where installs of
one channel do not overlap, and a process does not end while a mirror is away, what a
start or a reload finds is one whole bundle.
-/

namespace EasyWaf.Channels

open EasyWaf.Core EasyWaf.Core.Program EasyWaf.Machine

abbrev Calls := Together Op Answer Bool Mirror

/-- The channels, each with its mirror and the calls under way on it. -/
abbrev World := Channel → Calls

inductive Event
  | start (channel : Channel) (request : Request)
  | advance (channel : Channel) (index : ℕ) (choice : Choice)
  /-- The process dies and is started again. -/
  | die

/-- Nothing was installed yet, and nothing is under way. -/
def fresh : World := fun _ =>
  { shared := { dirs := fun _ => none, last := none }
    calls := [] }

variable (verifies : Bytes → Text → Bool) (sha256Hex : Bytes → Text)

/-- A move of the calls on one channel. -/
def move (channel : Channel) : Calls → Move Request Choice → Option Calls :=
  interleave effect (program verifies sha256Hex channel) id [boot verifies channel]

/-- A death cuts off the calls of every channel. -/
def step (world : World) : Event → Option World
  | .start channel request =>
      (move verifies sha256Hex channel (world channel) (.start request)).map
        (Function.update world channel)
  | .advance channel index choice =>
      (move verifies sha256Hex channel (world channel) (.advance index choice)).map
        (Function.update world channel)
  | .die => some fun channel =>
      { shared := (world channel).shared
        calls := [boot verifies channel] }

/-- What writes to a mirror is by itself in that; a process dies while no mirror is
away; and what an operation meets with is permitted. -/
def Allowed (world : World) : Event → Prop
  | .start _ .reload => True
  | .start channel _ => ∀ call ∈ (world channel).calls, Reads call
  | .advance channel index choice => ∀ call, (world channel).calls[index]? = some call →
      Permitted Permits choice call (world channel).shared
  | .die => ∀ channel, ¬ (world channel).shared.Away

variable {verifies} {sha256Hex} {channel : Channel} {world : World}

/-- One call is a writer's, and the others read. -/
def OneWriter (verifies : Bytes → Text → Bool) (sha256Hex : Bytes → Text) (channel : Channel)
    (calls : Calls) : Prop :=
  calls.shared.Standing verifies sha256Hex channel ∧
    ∃ (index : ℕ) (writer : Task Bool), calls.calls[index]? = some writer ∧
      Stands verifies sha256Hex channel writer calls.shared ∧
      ∀ (other : ℕ) (call : Task Bool), other ≠ index → calls.calls[other]? = some call →
        Reads call

/-- No call writes, and the mirror is whole; or one writes. -/
def Orderly (verifies : Bytes → Text → Bool) (sha256Hex : Bytes → Text) (channel : Channel)
    (calls : Calls) : Prop :=
  (calls.shared.Whole verifies sha256Hex channel ∧ ∀ call ∈ calls.calls, Reads call) ∨
    OneWriter verifies sha256Hex channel calls

theorem Mirror.Whole.not_away {mirror : Mirror}
    (hwhole : mirror.Whole verifies sha256Hex channel) : ¬ mirror.Away := by
  rintro ⟨hsome, hnone⟩
  obtain ⟨dir, hdir⟩ := Option.isSome_iff_exists.mp hsome
  have hthere := (hwhole dir hdir).1
  rw [hnone] at hthere
  contradiction

/-- A reading changes nothing. -/
theorem effect_read {mirror after : Mirror} {entry : Entry} {choice : Choice}
    {answer : Option Bytes} (heffect : effect (.read entry) choice mirror = some (answer, after)) :
    after = mirror := by
  cases choice <;> simp only [effect, Option.some.injEq, Prod.mk.injEq, reduceCtorEq] at heffect
  · exact heffect.2.symm
  · exact heffect.2.symm

/-- Every program that is asked for promises, by itself, to leave the mirror standing. -/
theorem stands_program {mirror : Mirror} (hwhole : mirror.Whole verifies sha256Hex channel)
    {request : Request} (hrequest : request ≠ .reload) :
    Stands verifies sha256Hex channel (program verifies sha256Hex channel request) mirror := by
  cases request with
  | install bundle => exact stands_installBundle hwhole
  | seed => exact stands_seedCacheFromBundle hwhole
  | reload => contradiction

/-- A call that is added at the end. -/
theorem getElem?_append_of_ne {calls : List (Task Bool)} {added call : Task Bool} {index : ℕ}
    (hne : index ≠ calls.length) (hcall : (calls ++ [added])[index]? = some call) :
    call ∈ calls := by
  rcases Nat.lt_or_ge index calls.length with hlt | hle
  · rw [List.getElem?_append_left hlt] at hcall
    exact List.mem_of_getElem? hcall
  · have hlength : (calls ++ [added]).length = calls.length + 1 := by simp
    have hbound := (List.getElem?_eq_some_iff.mp hcall).1
    omega

/-- Where all calls read, the mirror is whole. -/
theorem Orderly.whole {calls : Calls} (horderly : Orderly verifies sha256Hex channel calls)
    (hreads : ∀ call ∈ calls.calls, Reads call) :
    calls.shared.Whole verifies sha256Hex channel := by
  rcases horderly with ⟨hwhole, -⟩ | ⟨-, index, writer, hwriter, hstands, -⟩
  · exact hwhole
  · exact (hreads writer (List.mem_of_getElem? hwriter)).whole hstands

theorem Orderly.startWriter {calls : Calls} (horderly : Orderly verifies sha256Hex channel calls)
    (hreads : ∀ call ∈ calls.calls, Reads call) {request : Request}
    (hrequest : request ≠ .reload) :
    Orderly verifies sha256Hex channel
      { calls with calls := calls.calls ++ [program verifies sha256Hex channel request] } := by
  have hwhole := horderly.whole hreads
  refine .inr ⟨.inl hwhole, calls.calls.length, _, ?_, stands_program hwhole hrequest, ?_⟩
  · simp
  · intro other call hother hcall
    exact hreads call (getElem?_append_of_ne hother hcall)

/-- A reading may start at any time. -/
theorem Orderly.startReader {calls : Calls} (horderly : Orderly verifies sha256Hex channel calls) :
    Orderly verifies sha256Hex channel
      { calls with calls := calls.calls ++ [readMirror verifies channel] } := by
  rcases horderly with ⟨hwhole, hreads⟩ | ⟨hstanding, index, writer, hwriter, hstands, hreads⟩
  · refine .inl ⟨hwhole, fun call hcall => ?_⟩
    rcases List.mem_append.mp hcall with hbefore | hnew
    · exact hreads call hbefore
    · rw [List.mem_singleton.mp hnew]
      exact reads_readMirror
  · refine .inr ⟨hstanding, index, writer, ?_, hstands, ?_⟩
    · rw [List.getElem?_append_left (List.getElem?_eq_some_iff.mp hwriter).1]
      exact hwriter
    · intro other call hother hcall
      by_cases hnew : other = calls.calls.length
      · subst hnew
        obtain rfl : readMirror verifies channel = call := by simpa using hcall
        exact reads_readMirror
      · have hbefore : other < calls.calls.length := by
          have hbound := (List.getElem?_eq_some_iff.mp hcall).1
          rw [List.length_append, List.length_singleton] at hbound
          omega
        rw [List.getElem?_append_left hbefore] at hcall
        exact hreads other call hother hcall

/-- An operation of one call, where it is permitted. -/
theorem Orderly.advance {calls next : Calls} {index : ℕ} {choice : Choice}
    (horderly : Orderly verifies sha256Hex channel calls)
    (hpermits : ∀ call, calls.calls[index]? = some call →
      Permitted Permits choice call calls.shared)
    (hmove : move verifies sha256Hex channel calls (.advance index choice) = some next) :
    Orderly verifies sha256Hex channel next := by
  obtain ⟨op, goOn, answer, after, hgoing, heffect, rfl⟩ := interleave_advance hmove
  have hread {call : Task Bool} {other : ℕ} (hreads : Reads (.call op goOn))
      (hcall : (calls.calls.set index (goOn answer))[other]? = some call)
      (hother : other ≠ index → calls.calls[other]? = some call → Reads call) : Reads call := by
    by_cases heq : other = index
    · subst heq
      have hlt := (List.getElem?_eq_some_iff.mp hgoing).1
      rw [List.getElem?_set_self hlt] at hcall
      exact Option.some.inj hcall ▸ hreads.2 answer
    · rw [List.getElem?_set_ne (Ne.symm heq)] at hcall
      exact hother heq hcall
  rcases horderly with ⟨hwhole, hreads⟩ | ⟨hstanding, place, writer, hwriter, hstands, hreads⟩
  · have hgoingReads := hreads _ (List.mem_of_getElem? hgoing)
    obtain ⟨entry, rfl⟩ := hgoingReads.1
    obtain rfl := effect_read heffect
    refine .inl ⟨hwhole, fun call hcall => ?_⟩
    obtain ⟨other, hother⟩ := List.getElem?_of_mem hcall
    exact hread hgoingReads hother fun _ hbefore => hreads call (List.mem_of_getElem? hbefore)
  · by_cases hplace : place = index
    · subst hplace
      obtain rfl := Option.some.inj (hwriter.symm.trans hgoing)
      obtain ⟨hafter, hnext⟩ := hstands choice answer after (hpermits _ hgoing) heffect
      refine .inr ⟨hafter, place, goOn answer, ?_, hnext, ?_⟩
      · exact List.getElem?_set_self (List.getElem?_eq_some_iff.mp hgoing).1
      · intro other call hother hcall
        rw [List.getElem?_set_ne (Ne.symm hother)] at hcall
        exact hreads other call hother hcall
    · have hgoingReads := hreads index _ (Ne.symm hplace) hgoing
      obtain ⟨entry, rfl⟩ := hgoingReads.1
      obtain rfl := effect_read heffect
      refine .inr ⟨hstanding, place, writer, ?_, hstands, ?_⟩
      · rw [List.getElem?_set_ne (Ne.symm hplace)]
        exact hwriter
      · intro other call hother hcall
        exact hread hgoingReads hcall fun _ hbefore => hreads other call hother hbefore

/-- After a start: the mirror of rule sets is seeded, the other is read. -/
theorem orderly_boot {mirror : Mirror} (hwhole : mirror.Whole verifies sha256Hex channel) :
    Orderly verifies sha256Hex channel
      { shared := mirror
        calls := [boot verifies channel] } := by
  cases channel with
  | ruleSets =>
      refine .inr ⟨.inl hwhole, 0, seedCacheFromBundle, rfl, stands_seedCacheFromBundle hwhole, ?_⟩
      intro other call hother hcall
      have hbound : other < 1 := (List.getElem?_eq_some_iff.mp hcall).1
      omega
  | ipLists =>
      refine .inl ⟨hwhole, fun call hcall => ?_⟩
      rw [List.mem_singleton.mp hcall]
      exact reads_readMirror

theorem Orderly.standing {calls : Calls} (horderly : Orderly verifies sha256Hex channel calls) :
    calls.shared.Standing verifies sha256Hex channel :=
  horderly.elim (fun hquiet => .inl hquiet.1) And.left

/-- Every event that is allowed leaves every channel orderly. -/
theorem orderly_step {next : World} {event : Event}
    (horderly : ∀ channel, Orderly verifies sha256Hex channel (world channel))
    (hallowed : Allowed world event) (hstep : step verifies sha256Hex world event = some next)
    (channel : Channel) : Orderly verifies sha256Hex channel (next channel) := by
  have hupdate {moved : Channel} {calls : Calls}
      (hcalls : Orderly verifies sha256Hex moved calls) :
      Orderly verifies sha256Hex channel (Function.update world moved calls channel) := by
    by_cases heq : channel = moved
    · subst heq
      rwa [Function.update_self]
    · rw [Function.update_of_ne heq]
      exact horderly channel
  cases event with
  | start moved request =>
      rw [step] at hstep
      obtain ⟨calls, hmove, rfl⟩ := Option.map_eq_some_iff.mp hstep
      obtain rfl := Option.some.inj hmove
      apply hupdate
      cases request with
      | install bundle => exact (horderly moved).startWriter hallowed nofun
      | seed => exact (horderly moved).startWriter hallowed nofun
      | reload => exact (horderly moved).startReader
  | advance moved index choice =>
      rw [step] at hstep
      obtain ⟨calls, hmove, rfl⟩ := Option.map_eq_some_iff.mp hstep
      exact hupdate ((horderly moved).advance hallowed hmove)
  | die =>
      obtain rfl := Option.some.inj hstep
      exact orderly_boot ((horderly channel).standing.resolve_right (hallowed channel))

/-- In every run of installs, seedings, readings and deaths that are allowed, a mirror is
what the last install that worked put there, a whole bundle whose signature was verified.
Only a call that writes may have it away. -/
theorem mirror_is_whole (verifies : Bytes → Text → Bool) (sha256Hex : Bytes → Text)
    (run : Run (step verifies sha256Hex) Allowed fresh world) (channel : Channel) :
    (world channel).shared.Whole verifies sha256Hex channel ∨
      ((world channel).shared.Away ∧ ∃ call ∈ (world channel).calls, ¬ Reads call) := by
  have horderly : ∀ channel, Orderly verifies sha256Hex channel (world channel) := by
    apply run.invariant (fun world => ∀ channel, Orderly verifies sha256Hex channel (world channel))
    · intro state event next horderly hallowed hstep
      exact orderly_step horderly hallowed hstep
    · exact fun channel => .inl ⟨whole_of_last_eq_none rfl, nofun⟩
  by_cases hreads : ∀ call ∈ (world channel).calls, Reads call
  · exact .inl ((horderly channel).whole hreads)
  · have hwriter : ∃ call ∈ (world channel).calls, ¬ Reads call := by simpa using hreads
    exact (horderly channel).standing.imp id fun haway => ⟨haway, hwriter⟩

section Examples

/-- The digest of the empty file. -/
def emptyDigest : Text := "e3b0c44298fc1c149afbf4c8996fb92427ae41e4649b934ca495991b7852b855".toList

def plainDigest (body : Bytes) : Text := if body = [] then emptyDigest else []

def plainManifest : Text :=
  "[[lists]]\nid = \"a\"\nfile = \"a\"\nsha256 = \"".toList ++ emptyDigest ++ "\"\n".toList

/-- A bundle of one list with nothing on it. -/
def emptyList : Bundle where
  manifest := plainManifest.bytes
  signature := "signed".toList
  files name := if name = ['a'] then some [] else none

def plainVerifies (manifest : Bytes) (signature : Text) : Bool :=
  decide (manifest = emptyList.manifest ∧ signature = "signed".toList)

/-- An install of a bundle, from its first operation to its last. -/
def installEvents : List Event :=
  .start .ipLists (.install emptyList) :: List.replicate 9 (.advance .ipLists 0 .works)

/-- An event that is allowed by what is seen of it. -/
def seenAllowed (world : World) : Event → Bool
  | .start _ .reload => true
  | .start channel _ => (world channel).calls.isEmpty
  | .advance channel index _ =>
      match (world channel).calls[index]? with
      | some (.call (.createDir .stage) _) => (world channel).shared.dirs .stage = none
      | some (.call (.rename .old .mirror) _) => false
      | some (.call .readSets _) => false
      | _ => true
  | .die => false

theorem allowed_of_seen {event : Event} (hseen : seenAllowed world event = true) :
    Allowed world event := by
  cases event with
  | start channel request =>
      cases request with
      | reload => trivial
      | _ =>
          intro call hcall
          rw [List.isEmpty_iff.mp hseen] at hcall
          contradiction
  | advance channel index choice =>
      intro call hcall
      simp only [seenAllowed, hcall] at hseen
      cases call with
      | done => trivial
      | call op next =>
          cases op with
          | createDir area =>
              cases area with
              | stage =>
                  have hnone : (world channel).shared.dirs .stage = none := by simpa using hseen
                  exact hnone
              | _ => trivial
          | rename source dest =>
              cases source with
              | old =>
                  cases dest with
                  | mirror => simp at hseen
                  | _ => trivial
              | _ => cases dest <;> trivial
          | readSets => simp at hseen
          | _ => trivial
  | die => simp [seenAllowed] at hseen

/-- After an install the mirror is what was installed. -/
theorem mirror_is_whole_of_install :
    ∃ world dir, Run (step plainVerifies plainDigest) Allowed fresh world ∧
      (world .ipLists).shared.dirs .mirror = some dir ∧
      dir.IsBundle plainVerifies plainDigest .ipLists := by
  obtain ⟨world, run, hdone⟩ := exists_run_of_exec (step plainVerifies plainDigest) fresh
    seenAllowed installEvents (fun world => (world .ipLists).shared.last.isSome &&
      ((world .ipLists).shared.dirs .mirror).isSome) (fun _ _ => allowed_of_seen) (by decide +kernel)
  rw [Bool.and_eq_true] at hdone
  obtain ⟨dir, hdir⟩ := Option.isSome_iff_exists.mp hdone.1
  rcases mirror_is_whole plainVerifies plainDigest run .ipLists with hwhole | ⟨⟨-, hnone⟩, -⟩
  · exact ⟨world, dir, run, hwhole dir hdir⟩
  · rw [hnone] at hdone
    exact absurd hdone.2 nofun

/-- A second install, cut short between its two renames. -/
def cutEvents : List Event :=
  installEvents ++ .start .ipLists (.install emptyList) ::
    List.replicate 8 (.advance .ipLists 1 .works) ++ [.die]

/-- A process that dies between the two renames of an install finds no mirror at its next
start. -/
theorem mirror_is_away_after_death :
    ∃ world, Run (step plainVerifies plainDigest) anything fresh world ∧
      (world .ipLists).shared.last.isSome = true ∧
      (world .ipLists).shared.dirs .mirror = none ∧
      (world .ipLists).calls.length = 1 ∧
      ¬ (world .ipLists).shared.Whole plainVerifies plainDigest .ipLists := by
  obtain ⟨world, run, hlost⟩ : ∃ world, Run (step plainVerifies plainDigest) anything fresh world ∧
      ((world .ipLists).shared.last.isSome && ((world .ipLists).shared.dirs .mirror).isNone &&
        (world .ipLists).calls.length = 1) = true :=
    exists_run_of_exec (step plainVerifies plainDigest) fresh (fun _ _ => true) cutEvents _
      (fun _ _ _ => trivial) (by decide +kernel)
  simp only [Bool.and_eq_true, decide_eq_true_eq, Option.isNone_iff_eq_none] at hlost
  obtain ⟨⟨hsome, hnone⟩, hcalls⟩ := hlost
  exact ⟨world, run, hsome, hnone, hcalls, fun hwhole => hwhole.not_away ⟨hsome, hnone⟩⟩

end Examples

end EasyWaf.Channels
