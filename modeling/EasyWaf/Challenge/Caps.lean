import EasyWaf.Challenge.Answers

/-!
# The caps of the challenge store

A call finds room at its first turn and takes it at its second.  Where no other
call files a challenge between the two the caps hold; where calls overlap nothing
bounds how many challenges one client holds.
-/

namespace EasyWaf.Challenge

open EasyWaf.Core

namespace Store

variable (store : Store)

structure WithinCaps : Prop where
  size : store.size ≤ maxPending
  own : ∀ clientIp, (store.own clientIp).card ≤ maxPendingPerClient

/-- One more challenge of a client fits. -/
structure HasRoom (clientIp : Text) : Prop where
  size : store.size < maxPending
  own : (store.own clientIp).card < maxPendingPerClient

variable {store} {smaller : Store} {id clientIp other : Text} {pending : Pending} {now : ℕ}

theorem own_empty (clientIp : Text) : own .empty clientIp = ∅ := by
  ext id
  simp [mem_own]

theorem withinCaps_empty : WithinCaps .empty where
  size := Nat.zero_le _
  own clientIp := by
    rw [own_empty]
    exact Nat.zero_le _

section Less

variable (hless : ∀ id pending, smaller.get id = some pending → store.get id = some pending)

include hless

theorem size_le : smaller.size ≤ store.size := Finset.card_le_card (keys_subset hless)

theorem card_own_le (clientIp : Text) : (smaller.own clientIp).card ≤ (store.own clientIp).card :=
  Finset.card_le_card (own_subset hless clientIp)

theorem WithinCaps.less (hcaps : store.WithinCaps) : smaller.WithinCaps where
  size := (size_le hless).trans hcaps.size
  own clientIp := (card_own_le hless clientIp).trans (hcaps.own clientIp)

theorem HasRoom.less (hroom : store.HasRoom clientIp) : smaller.HasRoom clientIp where
  size := (size_le hless).trans_lt hroom.size
  own := (card_own_le hless clientIp).trans_lt hroom.own

end Less

section Add

theorem own_add_self (hnew : store.get id = none) (hclient : pending.clientIp = clientIp) :
    (store.add id pending).own clientIp = insert id (store.own clientIp) := by
  ext other
  rw [Finset.mem_insert, mem_own, mem_own]
  by_cases heq : other = id
  · subst heq
    rw [Table.get_insert_self]
    simp [hclient]
  · rw [Table.get_insert_of_ne _ heq]
    simp [heq]

theorem own_add_of_ne (hnew : store.get id = none) (hclient : pending.clientIp ≠ clientIp) :
    (store.add id pending).own clientIp = store.own clientIp := by
  ext other
  rw [mem_own, mem_own]
  by_cases heq : other = id
  · subst heq
    rw [Table.get_insert_self, hnew]
    simp [hclient]
  · rw [Table.get_insert_of_ne _ heq]

theorem size_add (hnew : store.get id = none) :
    (store.add id pending).size = store.size + 1 := by
  apply Finset.card_insert_of_notMem
  rw [store.mem_keys, hnew]
  simp

theorem card_own_add (pending : Pending) (hnew : store.get id = none) :
    ((store.add id pending).own pending.clientIp).card =
      (store.own pending.clientIp).card + 1 := by
  rw [own_add_self hnew rfl]
  apply Finset.card_insert_of_notMem
  simp [mem_own, hnew]

/-- A challenge under a new id keeps the caps exactly when it finds room. -/
theorem withinCaps_add_iff (hcaps : store.WithinCaps) (hnew : store.get id = none) :
    (store.add id pending).WithinCaps ↔ store.HasRoom pending.clientIp := by
  constructor
  · intro hwithin
    have hsize := hwithin.size
    have hown := hwithin.own pending.clientIp
    rw [size_add hnew] at hsize
    rw [card_own_add pending hnew] at hown
    exact ⟨hsize, hown⟩
  · intro hroom
    constructor
    · rw [size_add hnew]
      exact hroom.size
    · intro clientIp
      by_cases hclient : pending.clientIp = clientIp
      · rw [← hclient, card_own_add pending hnew]
        exact hroom.own
      · rw [own_add_of_ne hnew hclient]
        exact hcaps.own clientIp

/-- An entry in the place of another is no more than one more. -/
theorem WithinCaps.add (hcaps : store.WithinCaps) (hroom : store.HasRoom pending.clientIp) :
    (store.add id pending).WithinCaps := by
  have hless : ∀ other held, (Table.erase store id).get other = some held →
      store.get other = some held :=
    fun _ _ hget => (get_of_get_erase hget).1
  have hadded : WithinCaps (Table.insert (Table.erase store id) id pending) := by
    apply (withinCaps_add_iff (hcaps.less hless) (Table.get_erase_self store)).mpr
    exact hroom.less hless
  apply hadded.less
  intro other held hget
  by_cases heq : other = id
  · subst heq
    rw [Table.get_insert_self] at hget ⊢
    exact hget
  · rw [Table.get_insert_of_ne _ heq] at hget ⊢
    rwa [Table.get_erase_of_ne _ heq]

end Add

section Admit

theorem mem_oldestFirst : id ∈ store.oldestFirst clientIp ↔ id ∈ store.own clientIp := by
  simp [oldestFirst]

theorem nodup_oldestFirst : (store.oldestFirst clientIp).Nodup := by
  apply List.Nodup.map_on _ (Finset.sort_nodup _ _)
  intro first hfirst second hsecond heq
  rw [Finset.mem_sort, Finset.mem_image] at hfirst hsecond
  obtain ⟨id, -, rfl⟩ := hfirst
  obtain ⟨id', -, rfl⟩ := hsecond
  obtain rfl : id = id' := heq
  rfl

theorem length_oldestFirst : (store.oldestFirst clientIp).length = (store.own clientIp).card := by
  have hset : (store.oldestFirst clientIp).toFinset = store.own clientIp := by
    ext id
    rw [List.mem_toFinset, mem_oldestFirst]
  rw [← hset, List.toFinset_card_of_nodup nodup_oldestFirst]

theorem card_own_makeRoomFor (store : Store) (clientIp : Text) :
    ((store.makeRoomFor clientIp).own clientIp).card < maxPendingPerClient := by
  rw [makeRoomFor]
  split
  · rename_i hfull
    set taken := (store.oldestFirst clientIp).take
      ((store.oldestFirst clientIp).length - maxPendingPerClient + 1)
    have hsubset : (taken.foldl (fun store id => store.erase id) store).own clientIp ⊆
        store.own clientIp \ taken.toFinset := by
      intro id hid
      obtain ⟨pending, hget, hclient⟩ := mem_own.mp hid
      obtain ⟨hbefore, hnot⟩ := get_of_get_erases hget
      rw [Finset.mem_sdiff, mem_own, List.mem_toFinset]
      exact ⟨⟨pending, hbefore, hclient⟩, hnot⟩
    have htaken : taken.toFinset ⊆ store.own clientIp := by
      intro id hid
      exact mem_oldestFirst.mp (List.mem_of_mem_take (List.mem_toFinset.mp hid))
    have hnodup : taken.Nodup := nodup_oldestFirst.sublist (List.take_sublist _ _)
    calc
      ((taken.foldl (fun store id => store.erase id) store).own clientIp).card
          ≤ (store.own clientIp \ taken.toFinset).card := Finset.card_le_card hsubset
      _ = (store.own clientIp).card - taken.length := by
        rw [Finset.card_sdiff_of_subset htaken, List.toFinset_card_of_nodup hnodup]
      _ < maxPendingPerClient := by
        have hpositive : 0 < maxPendingPerClient := by decide
        rw [List.length_take, ← length_oldestFirst]
        omega
  · rename_i hroom
    rw [← length_oldestFirst]
    exact not_le.mp hroom

/-- A call that goes on found room. -/
theorem hasRoom_admits (hadmitted : (store.admits clientIp now).2 = true) :
    (store.admits clientIp now).1.HasRoom clientIp := by
  rw [admits] at hadmitted ⊢
  split at hadmitted
  · contradiction
  · rename_i hsize
    rw [if_neg hsize]
    constructor
    · exact (size_le fun _ _ hget => get_of_get_makeRoomFor hget).trans_lt (not_le.mp hsize)
    · exact card_own_makeRoomFor _ _

theorem admits_empty (clientIp : Text) (now : ℕ) : admits .empty clientIp now = (.empty, true) := by
  have hsize : ¬ maxPending ≤ Table.size (.empty : Store) := by decide
  have hown : ¬ maxPendingPerClient ≤ (oldestFirst .empty clientIp).length := by
    rw [length_oldestFirst, own_empty]
    decide
  rw [admits, prune, if_neg hsize, if_neg hsize, makeRoomFor, if_neg hown]

end Admit

end Store

section Runs

variable (toUppercase : Text → Text) {state next : State}

/-- What a call's first turn found holds when its second turn comes. -/
def FindsRoom (state : State) : Action → Prop
  | .file call _ _ _ =>
      ∀ issuing, state.calls[call]? = some issuing → state.store.HasRoom issuing.clientIp
  | _ => True

/-- The caps hold, and a call nobody got in between of will find room. -/
structure State.Capped (state : State) : Prop where
  caps : state.store.WithinCaps
  room : ∀ call ∈ state.calls, call.undisturbed = true → state.store.HasRoom call.clientIp

theorem capped_initial : State.initial.Capped where
  caps := Store.withinCaps_empty
  room _ hcall := absurd hcall List.not_mem_nil

variable {toUppercase}

theorem State.Capped.admits {dest clientIp : Text} {now : ℕ} (hcapped : state.Capped)
    (hstep : step toUppercase state (.admits dest clientIp now) = some next) : next.Capped := by
  have hless : ∀ id pending, (state.store.admits clientIp now).1.get id = some pending →
      state.store.get id = some pending := fun _ _ hget => Store.get_of_get_admits hget
  rw [← Option.some.inj hstep]
  constructor
  · exact hcapped.caps.less hless
  · intro call hcall hundisturbed
    obtain hbefore | hlast := List.mem_append.mp hcall
    · exact (hcapped.room call hbefore hundisturbed).less hless
    · split at hlast
      · rename_i hadmitted
        rw [List.mem_singleton.mp hlast]
        exact Store.hasRoom_admits hadmitted
      · exact absurd hlast List.not_mem_nil

theorem State.Capped.file {call : ℕ} {id captcha : Text} {now : ℕ} (hcapped : state.Capped)
    (hroom : FindsRoom state (.file call id captcha now))
    (hstep : step toUppercase state (.file call id captcha now) = some next) : next.Capped := by
  obtain ⟨issuing, hissuing, hstore, hcalls, -, -⟩ := step_file hstep
  constructor
  · rw [hstore]
    apply hcapped.caps.add
    exact hroom issuing hissuing
  · intro other hother hundisturbed
    rw [hcalls] at hother
    obtain ⟨before, -, rfl⟩ := List.mem_map.mp hother
    contradiction

theorem State.Capped.verify {id text clientIp : Text} {now : ℕ} (hcapped : state.Capped)
    (hstep : step toUppercase state (.verify id text clientIp now) = some next) :
    next.Capped := by
  obtain ⟨hstore, hcalls, -, -⟩ := step_verify hstep
  have hless : ∀ other pending, next.store.get other = some pending →
      state.store.get other = some pending := by
    intro other pending hget
    rw [hstore] at hget
    exact Store.get_of_get_verify hget
  constructor
  · exact hcapped.caps.less hless
  · intro call hcall hundisturbed
    rw [hcalls] at hcall
    exact (hcapped.room call hcall hundisturbed).less hless

theorem State.Capped.step {action : Action} (hcapped : state.Capped)
    (hroom : FindsRoom state action) (hstep : step toUppercase state action = some next) :
    next.Capped := by
  cases action with
  | admits dest clientIp now => exact hcapped.admits hstep
  | file call id captcha now => exact hcapped.file hroom hstep
  | verify id text clientIp now => exact hcapped.verify hstep

/-- Where every call still finds at its second turn the room its first turn found,
the caps hold; and a call that no other got in between of does find it. -/
theorem store_within_caps
    (run : Machine.Run (step toUppercase) FindsRoom State.initial state) :
    state.store.WithinCaps ∧
      ∀ call ∈ state.calls, call.undisturbed = true → state.store.HasRoom call.clientIp := by
  have hcapped : state.Capped :=
    run.invariant State.Capped (fun _ _ _ hbefore hroom hstep => hbefore.step hroom hstep)
      capped_initial
  exact ⟨hcapped.caps, hcapped.room⟩

section Overlap

/-- Calls of one client, each after its first turn at an empty store. -/
def crowd (clientIp : Text) (count : ℕ) : List Call :=
  List.replicate count { dest := ['/'], clientIp, undisturbed := true }

theorem run_admits (clientIp : Text) (count : ℕ) :
    Machine.Run (step toUppercase) Machine.anything State.initial
      { State.initial with calls := crowd clientIp count } := by
  induction count with
  | zero => exact .refl
  | succ count ih =>
      have hstep : step toUppercase { State.initial with calls := crowd clientIp count }
          (.admits ['/'] clientIp 0) =
            some { State.initial with calls := crowd clientIp (count + 1) } := by
        rw [step, State.initial, Store.admits_empty, crowd, crowd, List.replicate_succ']
        rfl
      exact ih.tail trivial hstep

/-- However many calls of a client there are, each of them files its challenge. -/
theorem run_files (toUppercase : Text → Text) (clientIp : Text) (state : State)
    (undisturbed : Bool) (count : ℕ)
    (hcalls : state.calls = List.replicate count { dest := ['/'], clientIp, undisturbed })
    (hids : ∀ id ∈ state.store.keys, count ≤ id.length) :
    ∃ next, Machine.Run (step toUppercase) Machine.anything state next ∧
      (next.store.own clientIp).card = (state.store.own clientIp).card + count := by
  induction count generalizing state undisturbed with
  | zero => exact ⟨state, .refl, rfl⟩
  | succ count ih =>
      let id : Text := List.replicate count 'a'
      have hnew : state.store.get id = none := by
        rw [← Option.not_isSome_iff_eq_none, ← state.store.mem_keys]
        intro hid
        have hlong := hids id hid
        rw [List.length_replicate] at hlong
        omega
      obtain ⟨next, hstep⟩ : ∃ next, step toUppercase state (.file 0 id [] 0) = some next := by
        rw [step, hcalls, List.replicate_succ]
        exact ⟨_, rfl⟩
      obtain ⟨issuing, hissuing, hstore, hlater, -, -⟩ := step_file hstep
      rw [hcalls, List.replicate_succ, List.getElem?_cons_zero] at hissuing
      rw [hcalls, List.replicate_succ, List.eraseIdx_cons_zero, List.map_replicate] at hlater
      have hclient : ((issuing.issue id [] 0).pending toUppercase).clientIp = clientIp := by
        rw [← Option.some.inj hissuing]
        rfl
      have hlong : ∀ other ∈ next.store.keys, count ≤ other.length := by
        rw [hstore]
        intro other hother
        obtain rfl | hbefore := Finset.mem_insert.mp hother
        · exact (List.length_replicate).ge
        · exact Nat.le_of_succ_le (hids other hbefore)
      obtain ⟨last, run, hcount⟩ := ih next false hlater hlong
      refine ⟨last, (Machine.Run.single trivial hstep).trans run, ?_⟩
      have hadd := Store.card_own_add ((issuing.issue id [] 0).pending toUppercase) hnew
      rw [hclient] at hadd
      rw [hcount, hstore, hadd, Nat.add_assoc, Nat.add_comm 1]

/-- Calls that overlap file as many challenges for one client as there are calls. -/
theorem overlap_unbounded (clientIp : Text) (count : ℕ) :
    ∃ state, Machine.Run (step toUppercase) Machine.anything State.initial state ∧
      (state.store.own clientIp).card = count := by
  have hids : ∀ id ∈ (State.initial.store).keys, count ≤ id.length :=
    fun id hid => absurd hid (Finset.notMem_empty id)
  obtain ⟨state, run, hcount⟩ := run_files toUppercase clientIp
    { State.initial with calls := crowd clientIp count } true count rfl hids
  refine ⟨state, (run_admits clientIp count).trans run, ?_⟩
  rw [hcount]
  simp [State.initial, Store.own_empty]

/-- One client holds 51 challenges. -/
theorem overlap_exceeds_caps :
    ∃ state, Machine.Run (step Text.toAsciiUppercase) Machine.anything State.initial state ∧
      ¬ state.store.WithinCaps := by
  obtain ⟨state, run, hcount⟩ := overlap_unbounded "203.0.113.9".toList 51
  refine ⟨state, run, fun hcaps => ?_⟩
  have hle := hcaps.own "203.0.113.9".toList
  rw [hcount] at hle
  contradiction

end Overlap

/-- Two challenges of one client, each filed before the next call comes. -/
def inTurn : List Action :=
  [.admits "/".toList "203.0.113.9".toList 0, .file 0 "a".toList "ABCD".toList 1,
    .admits "/".toList "203.0.113.9".toList 2, .file 0 "b".toList "EFGH".toList 3]

/-- A test that finds room. -/
def findsRoom (state : State) : Action → Bool
  | .file call _ _ _ =>
      (state.calls[call]?).all fun issuing =>
        decide (state.store.size < maxPending ∧
          (state.store.own issuing.clientIp).card < maxPendingPerClient)
  | _ => true

theorem findsRoom_sound (state : State) (action : Action) (hroom : findsRoom state action = true) :
    FindsRoom state action := by
  cases action with
  | file call id captcha now =>
      intro issuing hissuing
      rw [findsRoom, hissuing, Option.all_some, decide_eq_true_eq] at hroom
      exact ⟨hroom.1, hroom.2⟩
  | admits dest clientIp now => trivial
  | verify id text clientIp now => trivial

theorem store_within_caps_in_turn :
    ∃ state, Machine.Run (step Text.toAsciiUppercase) FindsRoom State.initial state ∧
      decide (state.store.size = 2) = true ∧ state.store.WithinCaps := by
  obtain ⟨state, run, hsize⟩ := Machine.exists_run_of_exec (step Text.toAsciiUppercase)
    State.initial findsRoom inTurn (fun state => decide (state.store.size = 2))
    findsRoom_sound (by decide +kernel)
  exact ⟨state, run, hsize, (store_within_caps run).1⟩

end Runs

end EasyWaf.Challenge
