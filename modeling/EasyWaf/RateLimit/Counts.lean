import EasyWaf.Core.HashMap
import EasyWaf.RateLimit
import EasyWaf.SmartProtect.Offences

/-!
# Counting every client's requests

A client's tally is brought to the window of its next request when that comes, however
long after, and a table that is full forgets the clients whose requests no longer count.
What a request is counted as is what the client's whole history says.
-/

namespace EasyWaf.RateLimit

open EasyWaf.Core

/-- `Key`. -/
structure Client where
  site : ℤ
  unit : Net.IpAddr
  deriving DecidableEq

def Client.of (site : ℤ) (ip : Net.IpAddr) : Client := ⟨site, SmartProtect.unit ip⟩

/-- `SHARDS`. -/
def shards : ℕ := 16

/-- `MAX_PER_SHARD`. -/
def maxPerShard : ℕ := 8192

/-- `Tally::default`. -/
def Tally.default : Tally := ⟨0, 0, 0, 0, 0⟩

section Table

variable (tallies : Table Client Tally) (now : ℕ)

/-- The clients whose requests still count. -/
def counting : Table Client Tally :=
  tallies.retain fun _ tally => now - tally.lastMs < 2 * tally.windowMs

/-- `make_room`: clients whose requests no longer count go, and if that frees nothing,
the half seen longest ago. -/
def makeRoom : Table Client Tally :=
  let live := counting tallies now
  if live.size < maxPerShard then live
  else
    let seen := (live.keys.val.filterMap fun client => (live.get client).map (·.lastMs)).sort (· ≤ ·)
    let cutoff := seen.getD (seen.length / 2) 0
    live.retain fun _ tally => cutoff < tally.lastMs

/-- A client that is not there yet is made room for when the shard is full. -/
def makeRoomFor (client : Client) : Table Client Tally :=
  if (tallies.get client).isNone ∧ maxPerShard ≤ tallies.size then makeRoom tallies now else tallies

/-- What `count_at` does to the client's shard. -/
def countIn (client : Client) (windowMs : ℕ) : Table Client Tally × Count :=
  let tallies := makeRoomFor tallies now client
  let (tally, count) := ((tallies.get client).getD .default).record now windowMs
  (tallies.insert client tally, count)

end Table

/-- `count_at`: the table's shards by number, and what a hash makes of a client. -/
def countAt (hash : Client → ℕ) (tables : ℕ → Table Client Tally) (client : Client)
    (windowMs now : ℕ) : (ℕ → Table Client Tally) × Count :=
  let shard := hash client % shards
  let (tallies, count) := countIn (tables shard) now client (max windowMs 1)
  (Function.update tables shard tallies, count)

/-- A request that is counted. -/
structure Request where
  client : Client
  time : ℕ

section Plain

variable (window : ℕ) (times : List ℕ)

/-- How many of a client's requests fall in a window. -/
def inSlot (slot : ℕ) : ℕ := times.countP fun time => time / window = slot

/-- How many fall in the one before it. -/
def beforeSlot (slot : ℕ) : ℕ := times.countP fun time => time / window + 1 = slot

/-- A count is a `u64`. -/
def capped (count : ℕ) : ℕ := min count (2 ^ 64 - 1)

/-- The tally a client's history amounts to at its last request. -/
def plainTally (now : ℕ) : Tally where
  windowMs := window
  slot := now / window
  current := capped (inSlot window times (now / window))
  previous := capped (beforeSlot window times (now / window))
  lastMs := now

/-- What a request is counted as, from the client's whole history up to it. -/
def plainCount (now : ℕ) : Count :=
  let tally := plainTally window times now
  { requests := (tally.scaled now + window - 1) / window % 2 ^ 64
    scaled := tally.scaled now
    tally }

end Plain

section Entries

variable {window now later : ℕ} {times : List ℕ} {entry : Option Tally}

/-- What is held of a client is what its history says. -/
structure Right (window : ℕ) (times : List ℕ) (now : ℕ) (entry : Option Tally) : Prop where
  held : ∀ tally, entry = some tally →
    tally = plainTally window times tally.lastMs ∧ tally.lastMs ≤ now ∧
      ∀ time ∈ times, time ≤ tally.lastMs
  forgotten : entry = none → ∀ time ∈ times, time / window + 2 ≤ now / window

theorem right_nil (window now : ℕ) : Right window [] now none where
  held _ hsome := by contradiction
  forgotten _ time htime := by contradiction

theorem Right.mono (hright : Right window times now entry) (hlater : now ≤ later) :
    Right window times later entry where
  held tally hentry := by
    obtain ⟨htally, hlast, htimes⟩ := hright.held tally hentry
    exact ⟨htally, hlast.trans hlater, htimes⟩
  forgotten hnone time htime :=
    (hright.forgotten hnone time htime).trans (Nat.div_le_div_right hlater)

/-- A client whose requests no longer count may be forgotten. -/
theorem Right.forget (hright : Right window times now entry) (hpos : 0 < window)
    (hidle : ∀ tally, entry = some tally → ¬ now - tally.lastMs < 2 * tally.windowMs) :
    Right window times now none where
  held _ hsome := by contradiction
  forgotten _ time htime := by
    cases hentry : entry with
    | none => exact hright.forgotten hentry time htime
    | some tally =>
        obtain ⟨htally, hlast, htimes⟩ := hright.held tally hentry
        have hwindow : tally.windowMs = window := congrArg Tally.windowMs htally
        have hgone := hidle tally hentry
        rw [hwindow] at hgone
        have htime := htimes time htime
        rw [Nat.le_div_iff_mul_le hpos, add_mul]
        have hslot := Nat.div_mul_le_self time window
        omega

theorem inSlot_concat (window now : ℕ) (times : List ℕ) :
    inSlot window (times ++ [now]) (now / window) = inSlot window times (now / window) + 1 := by
  simp [inSlot]

theorem beforeSlot_concat (window now : ℕ) (times : List ℕ) :
    beforeSlot window (times ++ [now]) (now / window) = beforeSlot window times (now / window) := by
  simp [beforeSlot]

theorem inSlot_eq_zero {slot : ℕ} (hbefore : ∀ time ∈ times, time / window < slot) :
    inSlot window times slot = 0 := by
  rw [inSlot, List.countP_eq_zero]
  intro time htime
  have hlt := hbefore time htime
  simp only [decide_eq_true_eq]
  omega

theorem beforeSlot_eq_zero {slot : ℕ} (hbefore : ∀ time ∈ times, time / window + 1 < slot) :
    beforeSlot window times slot = 0 := by
  rw [beforeSlot, List.countP_eq_zero]
  intro time htime
  have hlt := hbefore time htime
  simp only [decide_eq_true_eq]
  omega

theorem beforeSlot_succ (window slot : ℕ) (times : List ℕ) :
    beforeSlot window times (slot + 1) = inSlot window times slot := by
  simp only [beforeSlot, inSlot, Nat.add_right_cancel_iff]

theorem capped_succ (count : ℕ) : min (capped count + 1) (2 ^ 64 - 1) = capped (count + 1) := by
  unfold capped
  omega

/-- The tally brought to the window of the next request, which is then counted. -/
theorem Right.advance (hright : Right window times now entry) (hpos : 0 < window)
    (hlater : now ≤ later) :
    (entry.getD .default).advance later window =
      { windowMs := window
        slot := later / window
        current := capped (inSlot window times (later / window))
        previous := capped (beforeSlot window times (later / window))
        lastMs := ((entry.getD .default).advance later window).lastMs } := by
  cases hentry : entry with
  | none =>
      have htimes := hright.forgotten hentry
      have hslot : now / window ≤ later / window := Nat.div_le_div_right hlater
      have hcurrent : inSlot window times (later / window) = 0 := inSlot_eq_zero fun time htime => by
        have := htimes time htime
        omega
      have hprevious : beforeSlot window times (later / window) = 0 :=
        beforeSlot_eq_zero fun time htime => by
          have := htimes time htime
          omega
      have hne : (Tally.default.windowMs ≠ window) := hpos.ne
      rw [hcurrent, hprevious, Option.getD_none, Tally.advance, if_pos hne]
      rfl
  | some tally =>
      obtain ⟨htally, hlast, htimes⟩ := hright.held tally hentry
      have hslot : tally.lastMs / window ≤ later / window :=
        Nat.div_le_div_right (hlast.trans hlater)
      have hbefore : ∀ time ∈ times, time / window ≤ tally.lastMs / window := fun time htime =>
        Nat.div_le_div_right (htimes time htime)
      rw [Option.getD_some, htally]
      generalize tally.lastMs = last at hslot hbefore
      have hsame : ¬ (plainTally window times last).windowMs ≠ window := not_not.mpr rfl
      have hheld : (plainTally window times last).slot = last / window := rfl
      rw [Tally.advance, if_neg hsame]
      rw [hheld]
      by_cases hnext : later / window = last / window + 1
      · -- the window that has ended becomes the one before
        have hcurrent : inSlot window times (later / window) = 0 :=
          inSlot_eq_zero fun time htime => by
            have := hbefore time htime
            omega
        rw [if_pos hnext, hcurrent, hnext, beforeSlot_succ]
        rfl
      · by_cases hafter : last / window < later / window
        · have hcurrent : inSlot window times (later / window) = 0 :=
            inSlot_eq_zero fun time htime => by
              have := hbefore time htime
              omega
          have hprevious : beforeSlot window times (later / window) = 0 :=
            beforeSlot_eq_zero fun time htime => by
              have := hbefore time htime
              omega
          rw [if_neg hnext, if_pos hafter, hcurrent, hprevious]
          rfl
        · have hequal : later / window = last / window := by omega
          rw [if_neg hnext, if_neg hafter, hequal]
          rfl

/-- A request is counted as the history with it says. -/
theorem Right.record (hright : Right window times now entry) (hpos : 0 < window)
    (hlater : now ≤ later) :
    (entry.getD .default).record later window =
      (plainTally window (times ++ [later]) later, plainCount window (times ++ [later]) later) := by
  have hadvance := hright.advance hpos hlater
  have hrecorded : ((entry.getD .default).record later window).1 =
      plainTally window (times ++ [later]) later := by
    simp only [Tally.record]
    rw [hadvance, plainTally, inSlot_concat, beforeSlot_concat, capped_succ]
  have hcount : ((entry.getD .default).record later window).2 =
      plainCount window (times ++ [later]) later := by
    rw [plainCount, ← hrecorded]
    rfl
  exact Prod.ext hrecorded hcount

/-- What is held after a request is what the history with it says. -/
theorem right_plainTally (htimes : ∀ time ∈ times, time ≤ now) :
    Right window times now (some (plainTally window times now)) where
  held tally heq := by
    obtain rfl := Option.some.inj heq
    exact ⟨rfl, le_refl _, htimes⟩
  forgotten hnone := by contradiction

end Entries

section Runs

variable (hash : Client → ℕ) (window : ℤ → ℕ)

/-- The shard a client is counted in. -/
def shardOf (client : Client) : ℕ := hash client % shards

/-- A site's window, of a millisecond at least. -/
def windowOf (client : Client) : ℕ := max (window client.site) 1

/-- The tables after some requests. -/
def tablesAfter (requests : List Request) : ℕ → Table Client Tally :=
  requests.foldl
    (fun tables request =>
      (countAt hash tables request.client (window request.client.site) request.time).1)
    fun _ => .empty

/-- The times of a client's requests. -/
def timesOf (requests : List Request) (client : Client) : List ℕ :=
  (requests.filter (·.client = client)).map (·.time)

/-- Room made for a request costs a client its tally while its requests still count. -/
def Evicts (tables : ℕ → Table Client Tally) (request : Request) (client : Client) : Prop :=
  let tallies := tables (shardOf hash request.client)
  (tallies.get request.client).isNone ∧ maxPerShard ≤ tallies.size ∧
    ((counting tallies request.time).get client).isSome ∧
    ((makeRoom tallies request.time).get client).isNone

/-- A client was evicted for fullness. -/
def CrowdedOut (requests : List Request) (client : Client) : Prop :=
  ∃ earlier request later, requests = earlier ++ request :: later ∧
    Evicts hash (tablesAfter hash window earlier) request client

variable {hash window} {tables : ℕ → Table Client Tally} {tallies : Table Client Tally}
  {client : Client} {request : Request} {requests : List Request} {now later : ℕ} {times : List ℕ}

theorem tablesAfter_concat (requests : List Request) (request : Request) :
    tablesAfter hash window (requests ++ [request]) =
      (countAt hash (tablesAfter hash window requests) request.client
        (window request.client.site) request.time).1 := by
  rw [tablesAfter, List.foldl_append]
  rfl

theorem timesOf_concat (requests : List Request) (request : Request) (client : Client) :
    timesOf (requests ++ [request]) client =
      if request.client = client then timesOf requests client ++ [request.time]
      else timesOf requests client := by
  by_cases hclient : request.client = client <;> simp [timesOf, List.filter_append, hclient]

theorem get_counting (tallies : Table Client Tally) (now : ℕ) (client : Client) :
    (counting tallies now).get client =
      (tallies.get client).filter fun tally => now - tally.lastMs < 2 * tally.windowMs := rfl

theorem exists_get_makeRoom (tallies : Table Client Tally) (now : ℕ) (client : Client) :
    ∃ keep, (makeRoom tallies now).get client = ((counting tallies now).get client).filter keep := by
  unfold makeRoom
  dsimp only
  split
  · exact ⟨fun _ => true, by cases (counting tallies now).get client <;> rfl⟩
  · exact ⟨_, rfl⟩

/-- What is held after room is made is what was, unless its requests no longer count or
it was evicted. -/
theorem Right.makeRoom {width : ℕ} (hright : Right width times now (tallies.get client))
    (hpos : 0 < width)
    (hkept : ((counting tallies now).get client).isSome →
      ((RateLimit.makeRoom tallies now).get client).isSome) :
    Right width times now ((RateLimit.makeRoom tallies now).get client) := by
  obtain ⟨keep, hkeep⟩ := exists_get_makeRoom tallies now client
  cases hcounting : (counting tallies now).get client with
  | none =>
      rw [hkeep, hcounting, Option.filter_none]
      apply hright.forget hpos
      intro tally hget hcounts
      rw [get_counting, hget, Option.filter_some, if_pos (decide_eq_true hcounts)] at hcounting
      contradiction
  | some tally =>
      obtain ⟨held, hheld⟩ := Option.isSome_iff_exists.mp (hkept (by rw [hcounting]; rfl))
      have hsame : held = tally := by
        rw [hkeep, hcounting, Option.filter_some] at hheld
        exact (Option.some.inj (Option.ite_none_right_eq_some.mp hheld).2).symm
      rw [hheld, hsame, ← (Option.filter_eq_some_iff.mp ((get_counting _ _ _).symm.trans hcounting)).1]
      exact hright

theorem Right.makeRoomFor {width : ℕ} (hright : Right width times now (tallies.get client))
    (hpos : 0 < width) (other : Client)
    (hkept : (tallies.get other).isNone → maxPerShard ≤ tallies.size →
      ((counting tallies now).get client).isSome →
        ((RateLimit.makeRoom tallies now).get client).isSome) :
    Right width times now ((RateLimit.makeRoomFor tallies now other).get client) := by
  unfold RateLimit.makeRoomFor
  split
  case isTrue hfull => exact hright.makeRoom hpos (hkept hfull.1 hfull.2)
  case isFalse => exact hright

/-- A client's own request makes room without it, and then counts it. -/
theorem countIn_eq {width : ℕ} (hright : Right width times now (tallies.get client))
    (hpos : 0 < width) (hlater : now ≤ later) :
    countIn tallies later client width =
      ((RateLimit.makeRoomFor tallies later client).insert client
        (plainTally width (times ++ [later]) later), plainCount width (times ++ [later]) later) := by
  have hroom : Right width times later ((RateLimit.makeRoomFor tallies later client).get client) := by
    apply (hright.mono hlater).makeRoomFor hpos client
    intro hnone _ hcounts
    rw [get_counting, Option.isNone_iff_eq_none.mp hnone, Option.filter_none] at hcounts
    contradiction
  unfold countIn
  dsimp only
  rw [hroom.record hpos (le_refl later)]

theorem windowOf_pos (window : ℤ → ℕ) (client : Client) : 0 < windowOf window client :=
  Nat.lt_of_lt_of_le Nat.one_pos (le_max_right _ _)

/-- What a request of a client is counted as. -/
theorem countAt_eq
    (hright : Right (windowOf window client) times now ((tables (shardOf hash client)).get client))
    (hlater : now ≤ later) :
    countAt hash tables client (window client.site) later =
      (Function.update tables (shardOf hash client)
        ((RateLimit.makeRoomFor (tables (shardOf hash client)) later client).insert client
          (plainTally (windowOf window client) (times ++ [later]) later)),
        plainCount (windowOf window client) (times ++ [later]) later) := by
  have hcount := countIn_eq hright (windowOf_pos window client) hlater
  rw [shardOf, windowOf] at hcount
  unfold countAt
  dsimp only
  rw [hcount]
  rfl

/-- One request more leaves every client it does not evict counted. -/
theorem right_countAt
    (hright : Right (windowOf window client) times now ((tables (shardOf hash client)).get client))
    (hlater : now ≤ request.time) (htimes : ∀ time ∈ times, time ≤ now)
    (hkept : ¬ Evicts hash tables request client) :
    Right (windowOf window client)
      (if request.client = client then times ++ [request.time] else times) request.time
      (((countAt hash tables request.client (window request.client.site) request.time).1
        (shardOf hash client)).get client) := by
  by_cases hclient : request.client = client
  · subst hclient
    rw [if_pos rfl, countAt_eq hright hlater]
    dsimp only
    rw [Function.update_self, Table.get_insert_self]
    apply right_plainTally
    rw [List.forall_mem_append]
    exact ⟨fun time htime => (htimes time htime).trans hlater, by simp⟩
  · rw [if_neg hclient]
    have hmono := hright.mono hlater
    by_cases hshard : shardOf hash request.client = shardOf hash client
    · have hroom := hmono.makeRoomFor (windowOf_pos window client) request.client
        fun hnone hfull hcounts => by
          by_contra hgone
          refine hkept ⟨hshard ▸ hnone, hshard ▸ hfull, hshard ▸ hcounts, ?_⟩
          rw [hshard]
          simpa using hgone
      unfold countAt countIn
      dsimp only
      rw [← shardOf, hshard, Function.update_self, Table.get_insert_of_ne _ (Ne.symm hclient)]
      exact hroom
    · unfold countAt
      dsimp only
      rw [← shardOf, Function.update_of_ne (Ne.symm hshard)]
      exact hmono

theorem CrowdedOut.concat (hcrowded : CrowdedOut hash window requests client) (request : Request) :
    CrowdedOut hash window (requests ++ [request]) client := by
  obtain ⟨earlier, evicting, later, rfl, hevicts⟩ := hcrowded
  exact ⟨earlier, evicting, later ++ [request], by simp, hevicts⟩

/-- Whatever requests came, what is held of a client that was not evicted is right. -/
theorem right_tablesAfter (horder : requests.Pairwise fun earlier later => earlier.time ≤ later.time)
    (hnow : ∀ request ∈ requests, request.time ≤ now)
    (hkept : ¬ CrowdedOut hash window requests client) :
    Right (windowOf window client) (timesOf requests client) now
      ((tablesAfter hash window requests (shardOf hash client)).get client) := by
  induction requests using List.reverseRecOn generalizing now with
  | nil => exact right_nil _ _
  | append_singleton earlier request ih =>
      obtain ⟨hearlier, -, hbefore⟩ := List.pairwise_append.mp horder
      have hlast : ∀ other ∈ earlier, other.time ≤ request.time := fun other hother =>
        hbefore other hother request (List.mem_singleton_self request)
      have hright := ih hearlier hlast fun hcrowded => hkept (hcrowded.concat request)
      have htimes : ∀ time ∈ timesOf earlier client, time ≤ request.time := by
        intro time htime
        obtain ⟨other, hother, rfl⟩ := List.mem_map.mp htime
        exact hlast other (List.mem_of_mem_filter hother)
      rw [timesOf_concat, tablesAfter_concat]
      apply (right_countAt hright (le_refl _) htimes ?_).mono (hnow request (by simp))
      exact fun hevicts => hkept ⟨earlier, request, [], rfl, hevicts⟩

/-- However many clients come and go, each that was not evicted is held and counted as
its whole history says. -/
theorem counts_exact (hash : Client → ℕ) (window : ℤ → ℕ) (requests : List Request)
    (client : Client) (now : ℕ)
    (horder : requests.Pairwise fun earlier later => earlier.time ≤ later.time)
    (hnow : ∀ request ∈ requests, request.time ≤ now)
    (hkept : ¬ CrowdedOut hash window requests client) :
    (∀ tally, (tablesAfter hash window requests (shardOf hash client)).get client = some tally →
      tally.current = capped (inSlot (windowOf window client) (timesOf requests client) tally.slot) ∧
      tally.previous =
        capped (beforeSlot (windowOf window client) (timesOf requests client) tally.slot)) ∧
    (countAt hash (tablesAfter hash window requests) client (window client.site) now).2 =
      plainCount (windowOf window client) (timesOf requests client ++ [now]) now := by
  have hright := right_tablesAfter horder hnow hkept
  constructor
  · intro tally hget
    obtain ⟨htally, -, -⟩ := hright.held tally hget
    rw [htally]
    exact ⟨rfl, rfl⟩
  · rw [countAt_eq hright (le_refl now)]

/-- A client's own requests never cost it its tally. -/
theorem not_crowdedOut_of_own (hown : ∀ request ∈ requests, request.client = client) :
    ¬ CrowdedOut hash window requests client := by
  rintro ⟨earlier, request, later, rfl, hnone, -, hcounts, -⟩
  have hclient := hown request (by simp)
  rw [get_counting, ← hclient, Option.isNone_iff_eq_none.mp hnone, Option.filter_none] at hcounts
  contradiction

end Runs

section Examples

def visitor : Client := ⟨1, .v4 0x0a000001#32⟩

theorem count_of_second_request :
    (countAt (fun _ => 0) (tablesAfter (fun _ => 0) (fun _ => 60000) [⟨visitor, 0⟩]) visitor 60000
      1000).2 = plainCount 60000 [0, 1000] 1000 :=
  (counts_exact (fun _ => 0) (fun _ => 60000) [⟨visitor, 0⟩] visitor 1000 (by simp) (by simp)
    (not_crowdedOut_of_own (by simp))).2

/-- A count goes no higher than 64 bits do. -/
theorem count_saturates :
    ¬ ∀ (hash : Client → ℕ) (window : ℤ → ℕ) (requests : List Request) (client : Client) (now : ℕ),
      (requests.Pairwise fun earlier later => earlier.time ≤ later.time) →
      (∀ request ∈ requests, request.time ≤ now) → ¬ CrowdedOut hash window requests client →
        (countAt hash (tablesAfter hash window requests) client
            (window client.site) now).2.tally.current =
          inSlot (windowOf window client) (timesOf requests client ++ [now])
            (now / windowOf window client) := by
  intro hclaim
  obtain ⟨many, hmany⟩ : ∃ many, many = 2 ^ 64 - 1 := ⟨_, rfl⟩
  have hrequests : ∀ request ∈ List.replicate many (⟨visitor, 0⟩ : Request),
      request = ⟨visitor, 0⟩ := fun request hrequest => List.eq_of_mem_replicate hrequest
  have horder : (List.replicate many (⟨visitor, 0⟩ : Request)).Pairwise
      fun earlier later => earlier.time ≤ later.time :=
    List.pairwise_replicate.mpr (Or.inr (le_refl 0))
  have hnow : ∀ request ∈ List.replicate many (⟨visitor, 0⟩ : Request), request.time ≤ 0 :=
    fun request hrequest => by rw [hrequests request hrequest]
  have hkept : ¬ CrowdedOut (fun _ => 0) (fun _ => 1) (List.replicate many ⟨visitor, 0⟩) visitor :=
    not_crowdedOut_of_own fun request hrequest => by rw [hrequests request hrequest]
  have hcount := hclaim (fun _ => 0) (fun _ => 1) _ visitor 0 horder hnow hkept
  rw [countAt_eq (right_tablesAfter horder hnow hkept) (le_refl 0)] at hcount
  have htimes : timesOf (List.replicate many ⟨visitor, 0⟩) visitor = List.replicate many 0 := by
    simp [timesOf]
  have hwindow : windowOf (fun _ => 1) visitor = 1 := rfl
  have hslot : inSlot 1 (List.replicate many 0 ++ [0]) (0 / 1) = many + 1 := by
    rw [inSlot, List.countP_append, List.countP_replicate]
    rfl
  rw [htimes, hwindow, hslot] at hcount
  have hcapped : capped (inSlot 1 (List.replicate many 0 ++ [0]) (0 / 1)) = many + 1 := hcount
  rw [hslot, capped, hmany] at hcapped
  omega

end Examples

end EasyWaf.RateLimit
