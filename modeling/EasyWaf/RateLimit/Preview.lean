import EasyWaf.RateLimit.Counts

/-!
# The preview of a limit

What a limit would have done to a site's recorded traffic: the same counting, run over
its history.  A count is an estimate over two windows, so what a limit is certain to
notice, and what it is certain to let pass, is said of the requests themselves.
-/

namespace EasyWaf.RateLimit

open EasyWaf.Core
open SmartProtect (unit)

section Preview

/-- A request as a site's traffic has it: the second it was recorded at, and whether it
was served. -/
structure Past where
  ip : Net.IpAddr
  second : ℤ
  served : Bool

def Past.atMs (past : Past) : ℕ := past.second.toNat * 1000

/-- One address, as the preview lists it. -/
structure PreviewAddress where
  unit : Text
  peak : ℕ
  overLimit : ℕ
  servedOver : ℕ

/-- What a limit would have done over a stretch of one site's traffic. -/
structure Preview where
  requests : ℕ
  clients : ℕ
  addresses : ℕ
  overLimit : ℕ
  servedOver : ℕ
  top : List PreviewAddress

/-- `PREVIEW_TOP`. -/
def previewTop : ℕ := 10

structure Replay where
  tally : Tally
  peak : ℕ
  overLimit : ℕ
  servedOver : ℕ

def Replay.default : Replay := ⟨.default, 0, 0, 0⟩

/-- One request of a client, and what it was counted as. -/
def Replay.feed (replay : Replay) (requests windowMs : ℕ) (past : Past) : Replay × Count :=
  let (tally, count) := replay.tally.record past.atMs windowMs
  let isOver := count.over requests
  ({ tally
     peak := max replay.peak count.requests
     overLimit := if isOver then replay.overLimit + 1 else replay.overLimit
     servedOver := if isOver && past.served then replay.servedOver + 1 else replay.servedOver },
    count)

/-- Recorded requests replayed through a limit, oldest first. -/
structure Replayer where
  requests : ℕ
  windowMs : ℕ
  clients : Table Net.IpAddr Replay
  read : ℕ

namespace Replayer

variable (replayer : Replayer)

def new (requests windowMs : ℕ) : Replayer where
  requests := requests
  windowMs := max windowMs 1
  clients := .empty
  read := 0

/-- What is held of a client. -/
def client (address : Net.IpAddr) : Replay := (replayer.clients.get address).getD .default

def feed (past : Past) : Replayer × Count :=
  let (replay, count) :=
    (replayer.client (unit past.ip)).feed replayer.requests replayer.windowMs past
  ({ replayer with
      read := replayer.read + 1
      clients := replayer.clients.insert (unit past.ip) replay }, count)

end Replayer

/-- Most requests within a window first, then most of them over the limit, then by name. -/
def PreviewAddress.rank (address : PreviewAddress) : ℕᵒᵈ ×ₗ ℕᵒᵈ ×ₗ Text :=
  toLex (OrderDual.toDual address.peak, toLex (OrderDual.toDual address.overLimit, address.unit))

/-- The order a hash map's keys come in. -/
structure KeyOrder (κ : Type) where
  list : Finset κ → List κ
  perm_list : ∀ keys, (list keys).Perm keys.toList

namespace Replayer

variable (order : KeyOrder Net.IpAddr) (label : Net.IpAddr → Text) (replayer : Replayer)

/-- What the preview lists of a client. -/
def address (client : Net.IpAddr) : PreviewAddress :=
  let replay := replayer.client client
  ⟨label client, replay.peak, replay.overLimit, replay.servedOver⟩

/-- The addresses in the order the preview lists them. -/
def ranked : List PreviewAddress :=
  ((order.list replayer.clients.keys).map (replayer.address label)).mergeSort
    fun first second => first.rank ≤ second.rank

def finish : Preview :=
  let all := replayer.ranked order label
  let limited := all.filter fun address => 0 < address.overLimit
  { requests := replayer.read
    clients := replayer.clients.size
    addresses := limited.length
    overLimit := (limited.map (·.overLimit)).sum
    servedOver := (limited.map (·.servedOver)).sum
    top := all.take previewTop }

end Replayer

/-- The replayer once requests were fed to it, and each with what it was counted as. -/
def replayed (replayer : Replayer) : List Past → Replayer × List (Past × Count)
  | [] => (replayer, [])
  | past :: rest =>
      let (fed, count) := replayer.feed past
      let (last, counts) := replayed fed rest
      (last, (past, count) :: counts)

/-- `simulate`. -/
def simulate (order : KeyOrder Net.IpAddr) (label : Net.IpAddr → Text) (pasts : List Past)
    (requests windowMs : ℕ) : Preview :=
  (replayed (.new requests windowMs) pasts).1.finish order label

end Preview

section Summing

variable {replayer : Replayer} {counts : List (Past × Count)} {past : Past} {pasts : List Past}

theorem replayed_concat (replayer : Replayer) (pasts : List Past) (past : Past) :
    replayed replayer (pasts ++ [past]) =
      (((replayed replayer pasts).1.feed past).1,
        (replayed replayer pasts).2 ++ [(past, ((replayed replayer pasts).1.feed past).2)]) := by
  induction pasts generalizing replayer with
  | nil => rfl
  | cons first rest ih =>
      rw [List.cons_append, replayed]
      dsimp only
      rw [ih]
      rfl

theorem requests_replayed (replayer : Replayer) (pasts : List Past) :
    (replayed replayer pasts).1.requests = replayer.requests := by
  induction pasts using List.reverseRecOn with
  | nil => rfl
  | append_singleton earlier past ih =>
      rw [replayed_concat]
      exact ih

theorem windowMs_replayed (replayer : Replayer) (pasts : List Past) :
    (replayed replayer pasts).1.windowMs = replayer.windowMs := by
  induction pasts using List.reverseRecOn with
  | nil => rfl
  | append_singleton earlier past ih =>
      rw [replayed_concat]
      exact ih

/-- What a replayer holds of each client sums up what its requests were counted as. -/
structure Sums (replayer : Replayer) (counts : List (Past × Count)) : Prop where
  read : replayer.read = counts.length
  keys : replayer.clients.keys = (counts.map fun counted => unit counted.1.ip).toFinset
  peak : ∀ address, (replayer.client address).peak =
    ((counts.filter fun counted => unit counted.1.ip = address).map (·.2.requests)).foldr max 0
  overLimit : ∀ address, (replayer.client address).overLimit =
    counts.countP fun counted => unit counted.1.ip = address ∧ counted.2.over replayer.requests
  servedOver : ∀ address, (replayer.client address).servedOver =
    counts.countP fun counted =>
      unit counted.1.ip = address ∧ counted.2.over replayer.requests ∧ counted.1.served

theorem client_feed (replayer : Replayer) (past : Past) (address : Net.IpAddr) :
    (replayer.feed past).1.client address =
      if unit past.ip = address then
        ((replayer.client address).feed replayer.requests replayer.windowMs past).1
      else replayer.client address := by
  by_cases haddress : unit past.ip = address
  · subst haddress
    rw [if_pos rfl, Replayer.client, Replayer.feed, Table.get_insert_self]
    rfl
  · rw [if_neg haddress, Replayer.client, Replayer.feed,
      Table.get_insert_of_ne _ (Ne.symm haddress)]
    rfl

theorem count_feed (replayer : Replayer) (past : Past) :
    (replayer.feed past).2 =
      ((replayer.client (unit past.ip)).tally.record past.atMs replayer.windowMs).2 := rfl

theorem overLimit_feed (replay : Replay) (requests windowMs : ℕ) (past : Past) :
    (replay.feed requests windowMs past).1.overLimit =
      if (replay.feed requests windowMs past).2.over requests then replay.overLimit + 1
      else replay.overLimit := rfl

theorem servedOver_feed (replay : Replay) (requests windowMs : ℕ) (past : Past) :
    (replay.feed requests windowMs past).1.servedOver =
      if (replay.feed requests windowMs past).2.over requests && past.served then
        replay.servedOver + 1
      else replay.servedOver := rfl

theorem foldr_max_concat (numbers : List ℕ) (number : ℕ) :
    (numbers ++ [number]).foldr max 0 = max (numbers.foldr max 0) number := by
  induction numbers with
  | nil => simp
  | cons first rest ih => simp only [List.cons_append, List.foldr_cons, ih, max_assoc]

/-- One request more is summed up with the others. -/
theorem Sums.feed (hsums : Sums replayer counts) (past : Past) :
    Sums (replayer.feed past).1 (counts ++ [(past, (replayer.feed past).2)]) where
  read := by
    rw [List.length_append, ← hsums.read]
    rfl
  keys := by
    rw [List.map_append, List.toFinset_append, ← hsums.keys, Finset.union_comm]
    rfl
  peak address := by
    rw [client_feed, List.filter_append, List.map_append]
    by_cases haddress : unit past.ip = address
    · subst haddress
      rw [if_pos rfl, List.filter_cons_of_pos (by simp), List.filter_nil, List.map_singleton,
        foldr_max_concat, ← hsums.peak]
      rfl
    · rw [if_neg haddress, List.filter_cons_of_neg (by simpa using haddress), List.filter_nil,
        List.map_nil, List.append_nil]
      exact hsums.peak address
  overLimit address := by
    rw [client_feed, List.countP_append, List.countP_singleton]
    have hlimit : (replayer.feed past).1.requests = replayer.requests := rfl
    rw [hlimit, ← hsums.overLimit address]
    by_cases haddress : unit past.ip = address
    · subst haddress
      have hcount : ((replayer.client (unit past.ip)).feed replayer.requests replayer.windowMs
          past).2 = (replayer.feed past).2 := rfl
      rw [if_pos rfl, overLimit_feed, hcount]
      by_cases hover : (replayer.feed past).2.over replayer.requests <;> simp [hover]
    · simp [haddress]
  servedOver address := by
    rw [client_feed, List.countP_append, List.countP_singleton]
    have hlimit : (replayer.feed past).1.requests = replayer.requests := rfl
    rw [hlimit, ← hsums.servedOver address]
    by_cases haddress : unit past.ip = address
    · subst haddress
      have hcount : ((replayer.client (unit past.ip)).feed replayer.requests replayer.windowMs
          past).2 = (replayer.feed past).2 := rfl
      rw [if_pos rfl, servedOver_feed, hcount]
      by_cases hover : (replayer.feed past).2.over replayer.requests <;>
        cases hserved : past.served <;> simp [hover]
    · simp [haddress]

theorem sums_replayed (requests windowMs : ℕ) (pasts : List Past) :
    Sums (replayed (.new requests windowMs) pasts).1
      (replayed (.new requests windowMs) pasts).2 := by
  induction pasts using List.reverseRecOn with
  | nil => exact ⟨rfl, rfl, fun _ => rfl, fun _ => rfl, fun _ => rfl⟩
  | append_singleton earlier past ih =>
      rw [replayed_concat]
      exact ih.feed past

/-- What is counted of each kind comes to what is counted of all. -/
theorem sum_countP {α κ : Type*} [DecidableEq κ] (kind : α → κ) (keys : Finset κ) (holds : α → Prop)
    [DecidablePred holds] (entries : List α) (hkinds : ∀ entry ∈ entries, kind entry ∈ keys) :
    ∑ key ∈ keys, entries.countP (fun entry => kind entry = key ∧ holds entry) =
      entries.countP fun entry => holds entry := by
  induction entries with
  | nil => simp
  | cons entry rest ih =>
      have hrest := ih fun other hother => hkinds other (List.mem_cons_of_mem _ hother)
      simp only [List.countP_cons, Finset.sum_add_distrib, hrest]
      by_cases hentry : holds entry
      · simp [hentry, hkinds entry List.mem_cons_self]
      · simp [hentry]

/-- A condition that only some entries can meet is counted on those. -/
theorem sum_map_filter {α : Type*} (number : α → ℕ) (keep : α → Bool) (entries : List α)
    (hzero : ∀ entry ∈ entries, keep entry = false → number entry = 0) :
    ((entries.filter keep).map number).sum = (entries.map number).sum := by
  induction entries with
  | nil => rfl
  | cons entry rest ih =>
      have hrest := ih fun other hother => hzero other (List.mem_cons_of_mem _ hother)
      cases hkeep : keep entry with
      | true => rw [List.filter_cons_of_pos hkeep, List.map_cons, List.map_cons, List.sum_cons,
          List.sum_cons, hrest]
      | false => rw [List.filter_cons_of_neg (by simp [hkeep]), List.map_cons, List.sum_cons,
          hzero entry List.mem_cons_self hkeep, hrest, zero_add]

variable (order : KeyOrder Net.IpAddr) (label : Net.IpAddr → Text)

theorem perm_ranked (replayer : Replayer) :
    (replayer.ranked order label).Perm
      (replayer.clients.keys.toList.map (replayer.address label)) :=
  (List.mergeSort_perm _ _).trans ((order.perm_list _).map _)

theorem pairwise_ranked (replayer : Replayer) :
    (replayer.ranked order label).Pairwise fun first second => first.rank ≤ second.rank := by
  apply (List.pairwise_mergeSort _ _ _).imp
  · intro first second hle
    exact of_decide_eq_true hle
  · intro first second third hfirst hsecond
    exact decide_eq_true ((of_decide_eq_true hfirst).trans (of_decide_eq_true hsecond))
  · intro first second
    simpa using le_total first.rank second.rank

theorem sum_ranked (replayer : Replayer) (number : PreviewAddress → ℕ) :
    ((replayer.ranked order label).map number).sum =
      ∑ address ∈ replayer.clients.keys, number (replayer.address label address) := by
  rw [((perm_ranked order label replayer).map number).sum_eq, List.map_map, Finset.sum_map_toList]
  rfl

theorem length_limited (replayer : Replayer) :
    ((replayer.ranked order label).filter fun address => 0 < address.overLimit).length =
      (replayer.clients.keys.filter
        fun address => 0 < (replayer.client address).overLimit).card := by
  rw [((perm_ranked order label replayer).filter _).length_eq, List.filter_map, List.length_map]
  rw [Finset.card_def, Finset.filter_val, ← Finset.coe_toList, Multiset.filter_coe]
  rfl

theorem le_foldr_max {number : ℕ} {numbers : List ℕ} (hnumber : number ∈ numbers) :
    number ≤ numbers.foldr max 0 := by
  induction numbers with
  | nil => contradiction
  | cons first rest ih =>
      rw [List.foldr_cons]
      rcases List.mem_cons.mp hnumber with rfl | hrest
      · exact le_max_left _ _
      · exact (ih hrest).trans (le_max_right _ _)

theorem Sums.mem_keys (hsums : Sums replayer counts) {counted : Past × Count}
    (hcounted : counted ∈ counts) : unit counted.1.ip ∈ replayer.clients.keys := by
  rw [hsums.keys, List.mem_toFinset]
  exact List.mem_map_of_mem hcounted

/-- The clients with a request over the limit. -/
theorem Sums.limited (hsums : Sums replayer counts) :
    (replayer.clients.keys.filter fun address => 0 < (replayer.client address).overLimit) =
      ((counts.filter fun counted => counted.2.over replayer.requests).map
        fun counted => unit counted.1.ip).toFinset := by
  ext address
  rw [Finset.mem_filter, hsums.overLimit, List.countP_pos_iff, List.mem_toFinset, List.mem_map]
  constructor
  · rintro ⟨-, counted, hcounted, hover⟩
    obtain ⟨hunit, hover⟩ := of_decide_eq_true hover
    exact ⟨counted, List.mem_filter.mpr ⟨hcounted, hover⟩, hunit⟩
  · rintro ⟨counted, hcounted, hunit⟩
    obtain ⟨hcounted, hover⟩ := List.mem_filter.mp hcounted
    exact ⟨hunit ▸ hsums.mem_keys hcounted, counted, hcounted, decide_eq_true ⟨hunit, hover⟩⟩

/-- What is counted of the requests over the limit alone, the preview sums up. -/
theorem Sums.sum_limited (hsums : Sums replayer counts) (number : PreviewAddress → ℕ)
    (holds : Past × Count → Prop) [DecidablePred holds]
    (hnumber : ∀ address, number (replayer.address label address) =
      counts.countP fun counted => unit counted.1.ip = address ∧ holds counted)
    (hover : ∀ counted, holds counted → counted.2.over replayer.requests) :
    (((replayer.ranked order label).filter fun address => 0 < address.overLimit).map number).sum =
      counts.countP fun counted => holds counted := by
  have hzero : ∀ address ∈ replayer.ranked order label,
      decide (0 < address.overLimit) = false → number address = 0 := by
    intro listed hlisted hnone
    obtain ⟨address, -, rfl⟩ :=
      List.mem_map.mp ((perm_ranked order label replayer).mem_iff.mp hlisted)
    have hheld : (replayer.address label address).overLimit = _ := hsums.overLimit address
    rw [decide_eq_false_iff_not, not_lt, Nat.le_zero, hheld, List.countP_eq_zero] at hnone
    rw [hnumber, List.countP_eq_zero]
    intro counted hcounted hholds
    obtain ⟨hunit, hholds⟩ := of_decide_eq_true hholds
    exact hnone counted hcounted (decide_eq_true ⟨hunit, hover counted hholds⟩)
  rw [sum_map_filter _ _ _ hzero, sum_ranked]
  calc ∑ address ∈ replayer.clients.keys, number (replayer.address label address)
      = ∑ address ∈ replayer.clients.keys,
          counts.countP fun counted => unit counted.1.ip = address ∧ holds counted :=
        Finset.sum_congr rfl fun address _ => hnumber address
    _ = counts.countP fun counted => holds counted :=
        sum_countP (fun counted => unit counted.1.ip) _ holds _ fun counted => hsums.mem_keys

/-- No address the preview leaves out was busier than one that it lists. -/
theorem Sums.requests_le (hsums : Sums replayer counts) {counted : Past × Count}
    {listed : PreviewAddress} (hcounted : counted ∈ counts)
    (hlisted : listed ∈ (replayer.ranked order label).take previewTop)
    (hleft : label (unit counted.1.ip) ∉
      ((replayer.ranked order label).take previewTop).map (·.unit)) :
    counted.2.requests ≤ listed.peak := by
  have hpeak : counted.2.requests ≤ (replayer.address label (unit counted.1.ip)).peak := by
    have hheld : (replayer.address label (unit counted.1.ip)).peak = _ :=
      hsums.peak (unit counted.1.ip)
    rw [hheld]
    apply le_foldr_max
    exact List.mem_map_of_mem (List.mem_filter.mpr ⟨hcounted, decide_eq_true rfl⟩)
  have hranked : replayer.address label (unit counted.1.ip) ∈ replayer.ranked order label := by
    rw [(perm_ranked order label replayer).mem_iff]
    exact List.mem_map_of_mem (Finset.mem_toList.mpr (hsums.mem_keys hcounted))
  have hpairwise := pairwise_ranked order label replayer
  rw [← List.take_append_drop previewTop (replayer.ranked order label)] at hranked hpairwise
  rcases List.mem_append.mp hranked with htop | hrest
  · exact absurd (List.mem_map_of_mem htop) hleft
  · have hle := (List.pairwise_append.mp hpairwise).2.2 listed hlisted _ hrest
    exact hpeak.trans (Prod.Lex.monotone_fst _ _ hle)

/-- Whatever order the hash map's keys come in, the preview is one, where no two clients go
by one name. -/
theorem Sums.finish_order (hsums : Sums replayer counts) (order other : KeyOrder Net.IpAddr)
    (hlabel : ∀ first ∈ counts, ∀ second ∈ counts,
      label (unit first.1.ip) = label (unit second.1.ip) →
        unit first.1.ip = unit second.1.ip) :
    replayer.finish order label = replayer.finish other label := by
  have hranked : replayer.ranked order label = replayer.ranked other label := by
    apply ((perm_ranked order label replayer).trans
      (perm_ranked other label replayer).symm).eq_of_pairwise _
        (pairwise_ranked order label replayer) (pairwise_ranked other label replayer)
    intro first second hfirst hsecond hle hge
    obtain ⟨address, haddress, rfl⟩ :=
      List.mem_map.mp ((perm_ranked order label replayer).mem_iff.mp hfirst)
    obtain ⟨also, halso, rfl⟩ :=
      List.mem_map.mp ((perm_ranked other label replayer).mem_iff.mp hsecond)
    have hname : label address = label also :=
      congrArg (fun rank => (ofLex (ofLex rank).2).2) (hle.antisymm hge)
    rw [Finset.mem_toList, hsums.keys, List.mem_toFinset, List.mem_map] at haddress halso
    obtain ⟨counted, hcounted, rfl⟩ := haddress
    obtain ⟨more, hmore, rfl⟩ := halso
    rw [hlabel counted hcounted more hmore hname]
  rw [Replayer.finish, Replayer.finish, hranked]

end Summing

section Plain

variable (window : ℕ)

/-- What a client's requests are counted as, one after another, after some before them. -/
def plainCounts (before : List ℕ) : List ℕ → List Count
  | [] => []
  | time :: rest =>
      plainCount window (before ++ [time]) time :: plainCounts (before ++ [time]) rest

theorem plainCounts_concat (before times : List ℕ) (time : ℕ) :
    plainCounts window before (times ++ [time]) =
      plainCounts window before times ++ [plainCount window (before ++ times ++ [time]) time] := by
  induction times generalizing before with
  | nil => simp [plainCounts]
  | cons first rest ih =>
      rw [List.cons_append, plainCounts, plainCounts, ih]
      simp

variable {window} {limit : ℕ} {times : List ℕ}

end Plain

section Living

variable (hash : Client → ℕ) (window : ℤ → ℕ)

/-- The requests as they come, each with what it is counted as. -/
def lived (tables : ℕ → Table Client Tally) : List Request → List (Request × Count)
  | [] => []
  | request :: rest =>
      let (after, count) :=
        countAt hash tables request.client (window request.client.site) request.time
      (request, count) :: lived after rest

variable {hash window} {requests : List Request} {client : Client}

end Living

section Replaying

/-- The times a client's requests were recorded at. -/
def recordedAt (pasts : List Past) (address : Net.IpAddr) : List ℕ :=
  (pasts.filter fun past => unit past.ip = address).map Past.atMs

theorem recordedAt_concat (pasts : List Past) (past : Past) (address : Net.IpAddr) :
    recordedAt (pasts ++ [past]) address =
      if unit past.ip = address then recordedAt pasts address ++ [past.atMs]
      else recordedAt pasts address := by
  by_cases haddress : unit past.ip = address <;> simp [recordedAt, List.filter_append, haddress]

/-- The tally the replay holds of a client, if it holds one. -/
def Replayer.tally? (replayer : Replayer) (address : Net.IpAddr) : Option Tally :=
  (replayer.clients.get address).map Replay.tally

theorem tally_client (replayer : Replayer) (address : Net.IpAddr) :
    (replayer.client address).tally =
      (replayer.tally? address).getD .default := by
  rw [Replayer.client, Replayer.tally?]
  cases replayer.clients.get address <;> rfl

theorem tally?_feed (replayer : Replayer) (past : Past) (address : Net.IpAddr) :
    (replayer.feed past).1.tally? address =
      if unit past.ip = address then
        some (((replayer.tally? address).getD .default).record past.atMs replayer.windowMs).1
      else replayer.tally? address := by
  by_cases haddress : unit past.ip = address
  · subst haddress
    rw [if_pos rfl, ← tally_client, Replayer.tally?, Replayer.feed, Table.get_insert_self]
    rfl
  · rw [if_neg haddress, Replayer.tally?, Replayer.feed,
      Table.get_insert_of_ne _ (Ne.symm haddress)]
    rfl

/-- What the replay holds of a client is what its recorded requests say. -/
theorem right_replayed {pasts : List Past} {requests windowMs now : ℕ}
    (horder : pasts.Pairwise fun earlier later => earlier.atMs ≤ later.atMs)
    (hnow : ∀ past ∈ pasts, past.atMs ≤ now) (address : Net.IpAddr) :
    Right (max windowMs 1) (recordedAt pasts address) now
      ((replayed (.new requests windowMs) pasts).1.tally? address) := by
  induction pasts using List.reverseRecOn generalizing now with
  | nil => exact right_nil _ _
  | append_singleton earlier past ih =>
      obtain ⟨hearlier, -, hbefore⟩ := List.pairwise_append.mp horder
      have hlast : ∀ other ∈ earlier, other.atMs ≤ past.atMs := fun other hother =>
        hbefore other hother past (List.mem_singleton_self past)
      have hright := ih hearlier hlast
      rw [replayed_concat, recordedAt_concat, tally?_feed]
      by_cases haddress : unit past.ip = address
      · rw [if_pos haddress, if_pos haddress, windowMs_replayed]
        have hrecord := hright.record (lt_max_of_lt_right Nat.one_pos) (le_refl past.atMs)
        have hwindow : (Replayer.new requests windowMs).windowMs = max windowMs 1 := rfl
        rw [hwindow, hrecord]
        apply (right_plainTally _).mono (hnow past (by simp))
        rw [List.forall_mem_append]
        refine ⟨?_, by simp⟩
        intro time htime
        obtain ⟨other, hother, rfl⟩ := List.mem_map.mp htime
        exact hlast other (List.mem_of_mem_filter hother)
      · rw [if_neg haddress, if_neg haddress]
        exact hright.mono (hnow past (by simp))

/-- What a recorded request is counted as. -/
theorem count_replayed {pasts : List Past} {past : Past} {requests windowMs : ℕ}
    (horder : (pasts ++ [past]).Pairwise fun earlier later => earlier.atMs ≤ later.atMs) :
    ((replayed (.new requests windowMs) pasts).1.feed past).2 =
      plainCount (max windowMs 1) (recordedAt pasts (unit past.ip) ++ [past.atMs]) past.atMs := by
  obtain ⟨hearlier, -, hbefore⟩ := List.pairwise_append.mp horder
  have hright := @right_replayed pasts requests windowMs _ hearlier
    (fun other hother => hbefore other hother past (List.mem_singleton_self past)) (unit past.ip)
  rw [count_feed, tally_client, windowMs_replayed]
  exact congrArg Prod.snd (hright.record (lt_max_of_lt_right Nat.one_pos) (le_refl past.atMs))

/-- What the replay counts a client's requests as, one after another. -/
theorem counts_replayed {pasts : List Past} {requests windowMs : ℕ}
    (horder : pasts.Pairwise fun earlier later => earlier.atMs ≤ later.atMs)
    (address : Net.IpAddr) :
    ((replayed (.new requests windowMs) pasts).2.filter
        fun counted => unit counted.1.ip = address).map (·.2) =
      plainCounts (max windowMs 1) [] (recordedAt pasts address) := by
  induction pasts using List.reverseRecOn with
  | nil => rfl
  | append_singleton earlier past ih =>
      have hcount := @count_replayed earlier past requests windowMs horder
      rw [replayed_concat, recordedAt_concat, List.filter_append, List.map_append,
        ih (List.pairwise_append.mp horder).1, hcount]
      by_cases haddress : unit past.ip = address
      · subst haddress
        rw [if_pos rfl, plainCounts_concat, List.filter_cons_of_pos (by simp), List.filter_nil,
          List.map_singleton, List.nil_append]
      · rw [if_neg haddress, List.filter_cons_of_neg (by simpa using haddress), List.filter_nil,
          List.map_nil, List.append_nil]

theorem map_fst_replayed (replayer : Replayer) (pasts : List Past) :
    (replayed replayer pasts).2.map (·.1) = pasts := by
  induction pasts using List.reverseRecOn with
  | nil => rfl
  | append_singleton earlier past ih =>
      rw [replayed_concat, List.map_append, ih]
      rfl

variable (order : KeyOrder Net.IpAddr) (label : Net.IpAddr → Text)

/-- The preview of a limit: every request is counted as its client's history says, those
over the limit are summed up whatever order the hash map's keys come in, and no client left
out was busier than one listed. -/
theorem preview_exact (pasts : List Past) (requests windowMs : ℕ)
    (horder : pasts.Pairwise fun earlier later => earlier.second ≤ later.second) :
    let preview := simulate order label pasts requests windowMs
    let counts := (replayed (.new requests windowMs) pasts).2
    let excess := counts.filter fun counted => counted.2.over requests
    (counts.map (·.1) = pasts ∧ ∀ address,
        (counts.filter fun counted => unit counted.1.ip = address).map (·.2) =
          plainCounts (max windowMs 1) [] (recordedAt pasts address)) ∧
      preview.requests = pasts.length ∧
      preview.clients = (pasts.map fun past => unit past.ip).toFinset.card ∧
      preview.addresses = (excess.map fun counted => unit counted.1.ip).toFinset.card ∧
      preview.overLimit = excess.length ∧
      preview.servedOver = (excess.filter fun counted => counted.1.served).length ∧
      preview.top.length = min previewTop preview.clients ∧
      (∀ listed ∈ preview.top, ∀ counted ∈ counts,
        label (unit counted.1.ip) ∉ preview.top.map (·.unit) →
          counted.2.requests ≤ listed.peak) ∧
      ((∀ first ∈ pasts, ∀ second ∈ pasts,
          label (unit first.ip) = label (unit second.ip) → unit first.ip = unit second.ip) →
        ∀ other, simulate other label pasts requests windowMs = preview) := by
  intro preview counts excess
  have hsums : Sums (replayed (.new requests windowMs) pasts).1 counts :=
    sums_replayed requests windowMs pasts
  have hlimit : (replayed (.new requests windowMs) pasts).1.requests = requests :=
    requests_replayed _ pasts
  have hpasts : counts.map (·.1) = pasts := map_fst_replayed _ pasts
  have hrecorded : pasts.Pairwise fun earlier later => earlier.atMs ≤ later.atMs :=
    horder.imp fun hle => Nat.mul_le_mul_right _ (Int.toNat_le_toNat hle)
  refine ⟨⟨hpasts, counts_replayed hrecorded⟩, ?_, ?_, ?_, ?_, ?_, ?_, ?_, ?_⟩
  · rw [← hpasts, List.length_map]
    exact hsums.read
  · rw [← hpasts, List.map_map]
    exact congrArg Finset.card hsums.keys
  · have haddresses := length_limited order label (replayed (.new requests windowMs) pasts).1
    rw [hsums.limited, hlimit] at haddresses
    exact haddresses
  · have hover := hsums.sum_limited order label (·.overLimit)
      (fun counted => counted.2.over (replayed (.new requests windowMs) pasts).1.requests)
      hsums.overLimit fun _ => id
    simp only [hlimit, Bool.decide_eq_true, List.countP_eq_length_filter] at hover
    exact hover
  · have hserved := hsums.sum_limited order label (·.servedOver)
      (fun counted => counted.2.over (replayed (.new requests windowMs) pasts).1.requests ∧
        counted.1.served) hsums.servedOver fun _ => And.left
    simp only [hlimit, Bool.decide_and, Bool.decide_eq_true,
      List.countP_eq_length_filter] at hserved
    rw [List.filter_filter]
    apply hserved.trans
    exact congrArg List.length (List.filter_congr fun counted _ => Bool.and_comm _ _)
  · change (((replayed (.new requests windowMs) pasts).1.ranked order label).take _).length = _
    rw [List.length_take, (perm_ranked order label _).length_eq, List.length_map,
      Finset.length_toList]
    rfl
  · intro listed hlisted counted hcounted hleft
    exact hsums.requests_le order label hcounted hlisted hleft
  · intro hlabel other
    apply hsums.finish_order label other order
    intro first hfirst second hsecond
    have hmem : ∀ counted ∈ counts, counted.1 ∈ pasts := fun counted hcounted =>
      hpasts ▸ List.mem_map_of_mem hcounted
    exact hlabel first.1 (hmem first hfirst) second.1 (hmem second hsecond)

end Replaying

section Examples

/-- Two requests of one address five seconds apart. -/
def twice : List Past := [0, 5].map fun second => ⟨.v4 0x0a000001#32, second, true⟩

theorem preview_of_twice :
    (simulate ⟨Finset.toList, fun _ => List.Perm.refl _⟩ (fun _ => "10.0.0.1".toList) twice 1
      60000).overLimit = 1 :=
  (preview_exact ⟨Finset.toList, fun _ => List.Perm.refl _⟩ (fun _ => "10.0.0.1".toList) twice 1
    60000 (by decide)).2.2.2.2.1.trans (by decide)

end Examples

end EasyWaf.RateLimit
