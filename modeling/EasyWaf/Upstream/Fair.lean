import EasyWaf.Core.Machine
import EasyWaf.Upstream.Choice

/-!
# The rotation is fair

A full turn of the rotation gives every backend as many requests as its weight,
wherever it begins: the turns fall into the slices of the pool, one after another
and round again.  A turn is taken under the lock and used afterwards, so requests
that arrive together take different ones.
-/

namespace EasyWaf.Upstream

open EasyWaf.Core EasyWaf.Machine

/-- The backends in the order the rotation gives them out, each as often as its
weight. -/
def slices (pool : List Backend) : List Backend :=
  pool.flatMap fun backend => List.replicate backend.weight.toNat backend

section Slices

variable {pool : List Backend}

theorem length_slices (pool : List Backend) :
    (slices pool).length = (pool.map (·.weight.toNat)).sum := by
  simp [slices, List.length_flatMap]

theorem slices_cons (backend : Backend) (rest : List Backend) :
    slices (backend :: rest) = List.replicate backend.weight.toNat backend ++ slices rest :=
  List.flatMap_cons

theorem foldl_total {sum : ℕ} (hsum : sum + (slices pool).length < 2 ^ 64) :
    pool.foldl (fun sum backend => (sum + backend.weight.toNat) % 2 ^ 64) sum =
      sum + (slices pool).length := by
  induction pool generalizing sum with
  | nil => rfl
  | cons backend rest ih =>
      rw [slices_cons, List.length_append, List.length_replicate, ← Nat.add_assoc] at hsum ⊢
      rw [List.foldl_cons, Nat.mod_eq_of_lt (by omega), ih hsum]

/-- The sum of weights that does not wrap. -/
theorem total_eq (hlength : (slices pool).length < 2 ^ 64) : total pool = (slices pool).length := by
  rw [total, foldl_total (by simpa using hlength), Nat.zero_add]

/-- The slice an offset falls in. -/
theorem pickFromSeen_eq {seen offset : ℕ} (hlength : seen + (slices pool).length < 2 ^ 64) :
    pickFromSeen pool seen (seen + offset) = (slices pool)[offset]? := by
  induction pool generalizing seen offset with
  | nil => rfl
  | cons backend rest ih =>
      rw [slices_cons, List.length_append, List.length_replicate, ← Nat.add_assoc] at hlength
      have hseen : (seen + backend.weight.toNat) % 2 ^ 64 = seen + backend.weight.toNat :=
        Nat.mod_eq_of_lt (by omega)
      simp only [pickFromSeen, hseen, slices_cons]
      split
      · next hlt =>
          have hoffset : offset < backend.weight.toNat := by omega
          rw [List.getElem?_append_left (by simpa using hoffset), List.getElem?_replicate,
            if_pos hoffset]
      · next hge =>
          obtain ⟨later, rfl⟩ : ∃ later, offset = backend.weight.toNat + later :=
            Nat.exists_eq_add_of_le (by omega)
          rw [← Nat.add_assoc, ih hlength, List.getElem?_append_right (by simp)]
          simp

theorem pick_eq {offset : ℕ} (hlength : (slices pool).length < 2 ^ 64)
    (hoffset : offset < (slices pool).length) : pick pool offset = (slices pool)[offset]? := by
  have hseen : pickFromSeen pool 0 (0 + offset) = (slices pool)[offset]? :=
    pickFromSeen_eq (by simpa using hlength)
  rw [Nat.zero_add] at hseen
  rw [pick, hseen, List.getElem?_eq_getElem hoffset]

end Slices

section Turn

variable {pool : List Backend} {turns : Turns} {siteId : ℤ} {turn count : ℕ}

/-- The choices of requests that take their turns one after another. -/
def inTurn (siteId : ℤ) (pool : List Backend) : ℕ → Turns → List (Option Backend)
  | 0, _ => []
  | count + 1, turns =>
      (pickFrom turns siteId pool).1 :: inTurn siteId pool count (pickFrom turns siteId pool).2

theorem pickFrom_of_two (htwo : 2 ≤ pool.length) (htotal : total pool ≠ 0) :
    pickFrom turns siteId pool =
      (pick pool ((turns siteId).getD 0 % total pool),
        turns.insert siteId (((turns siteId).getD 0 + 1) % 2 ^ 64)) := by
  match pool, htwo with
  | first :: second :: rest, _ =>
      rw [pickFrom]
      · rw [if_neg htotal]
      · simp
      · simp

/-- The choices follow the turns as long as the counter does not wrap. -/
theorem inTurn_eq (htwo : 2 ≤ pool.length) (htotal : total pool ≠ 0)
    (hturn : (turns siteId).getD 0 = turn) (hcount : turn + count < 2 ^ 64) :
    inTurn siteId pool count turns =
      (List.range count).map fun j => pick pool ((turn + j) % total pool) := by
  induction count generalizing turns turn with
  | zero => rfl
  | succ count ih =>
      rw [inTurn, pickFrom_of_two htwo htotal, hturn]
      have hnext : ((turns.insert siteId ((turn + 1) % 2 ^ 64)) siteId).getD 0 = turn + 1 := by
        rw [HashMap.insert_self, Option.getD_some, Nat.mod_eq_of_lt (by omega)]
      rw [ih hnext (by omega), List.range_succ_eq_map, List.map_cons, List.map_map, Nat.add_zero]
      congr 1
      apply List.map_congr_left
      intro j _
      rw [Function.comp_apply, Nat.add_right_comm, Nat.add_assoc turn]

/-- A full turn of the rotation, wherever it begins. -/
theorem inTurn_perm (htwo : 2 ≤ pool.length) (hlength : (slices pool).length < 2 ^ 64)
    (hpos : 0 < (slices pool).length) (hturn : (turns siteId).getD 0 = turn)
    (hcount : turn + (slices pool).length < 2 ^ 64) :
    (inTurn siteId pool (slices pool).length turns).Perm ((slices pool).map some) := by
  have htotal := total_eq hlength
  have hrotate : inTurn siteId pool (slices pool).length turns =
      ((slices pool).rotate turn).map some := by
    rw [inTurn_eq htwo (by omega) hturn hcount, htotal]
    apply List.ext_getElem
    · simp
    · intro j hj _
      have hlt : (turn + j) % (slices pool).length < (slices pool).length := Nat.mod_lt _ hpos
      simp only [List.getElem_map, List.getElem_range, List.getElem_rotate]
      rw [pick_eq hlength hlt, List.getElem?_eq_getElem hlt]
      simp only [Nat.add_comm turn]
  rw [hrotate]
  exact ((slices pool).rotate_perm turn).map some

end Turn

section Together

/-- A request of a site that has two backends or more to choose from. -/
structure Asking where
  siteId : ℤ
  pool : List Backend
  turn : Option ℕ
  chosen : Option (Option Backend)

structure Rotation where
  turns : Turns
  requests : List Asking

inductive Act
  | arrive (siteId : ℤ) (pool : List Backend)
  /-- What is done under the lock. -/
  | take (index : ℕ)
  | choose (index : ℕ)

/-- The turns that requests of a site have taken. -/
def Rotation.taken (world : Rotation) (siteId : ℤ) : List ℕ :=
  world.requests.filterMap fun request => if request.siteId = siteId then request.turn else none

/-- The value of the counter is a request's turn, and the counter moves on. -/
def Rotation.take (world : Rotation) (index : ℕ) (request : Asking) : Rotation where
  turns := world.turns.insert request.siteId
    (((world.turns request.siteId).getD 0 + 1) % 2 ^ 64)
  requests := world.requests.set index
    { request with turn := some ((world.turns request.siteId).getD 0) }

/-- One step of the requests under way. -/
def advance (world : Rotation) : Act → Option Rotation
  | .arrive siteId pool =>
      some { world with requests := world.requests ++ [⟨siteId, pool, none, none⟩] }
  | .take index => do
      let request ← world.requests[index]?
      if request.turn = none ∧ 2 ≤ request.pool.length ∧ total request.pool ≠ 0 then
        some (world.take index request)
      else none
  | .choose index => do
      let request ← world.requests[index]?
      let turn ← request.turn
      some
        { world with
          requests := world.requests.set index
            { request with chosen := some (pick request.pool (turn % total request.pool)) } }

/-- The turns taken are those from one on, round again at the end of the counter. -/
def Successive (world : Rotation) (siteId : ℤ) (first : ℕ) : Prop :=
  (world.turns siteId).getD 0 = (first + (world.taken siteId).length) % 2 ^ 64 ∧
    (world.taken siteId).Perm
      ((List.range (world.taken siteId).length).map fun j => (first + j) % 2 ^ 64)

variable {world next : Rotation} {siteId : ℤ} {first : ℕ}

/-- What stands before and after the row of an index, whatever is put in its place. -/
theorem exists_set_eq {Row : Type} {rows : List Row} {index : ℕ} {row : Row}
    (hrow : rows[index]? = some row) :
    ∃ before after, rows = before ++ row :: after ∧
      ∀ row', rows.set index row' = before ++ row' :: after := by
  obtain ⟨hlt, hget⟩ := List.getElem?_eq_some_iff.mp hrow
  refine ⟨rows.take index, rows.drop (index + 1), ?_, fun row' => ?_⟩
  · rw [← hget, List.cons_getElem_drop_succ, List.take_append_drop]
  · rw [List.set_eq_take_append_cons_drop, if_pos hlt]

theorem turns_take_self (index : ℕ) (request : Asking) :
    ((world.take index request).turns request.siteId).getD 0 =
      ((world.turns request.siteId).getD 0 + 1) % 2 ^ 64 := by
  simp [Rotation.take]

theorem turns_take_of_ne {request : Asking} (hsite : siteId ≠ request.siteId) (index : ℕ) :
    (world.take index request).turns siteId = world.turns siteId :=
  HashMap.insert_of_ne _ _ hsite

/-- What a request that takes its turn does to the turns taken. -/
theorem taken_take {index : ℕ} {request : Asking}
    (hrequest : world.requests[index]? = some request) (hnone : request.turn = none) :
    ((world.take index request).taken siteId).Perm
      (if request.siteId = siteId then (world.turns siteId).getD 0 :: world.taken siteId
        else world.taken siteId) := by
  obtain ⟨before, after, hrows, hset⟩ := exists_set_eq hrequest
  rw [Rotation.taken, Rotation.take, hset, Rotation.taken, hrows]
  simp only [List.filterMap_append, List.filterMap_cons, hnone]
  by_cases hsite : request.siteId = siteId
  · subst hsite
    simp only [if_true]
    exact List.perm_middle
  · simp only [if_neg hsite]
    exact .refl _

theorem taken_choose {index : ℕ} {request : Asking} {chosen : Option (Option Backend)}
    (hrequest : world.requests[index]? = some request) :
    Rotation.taken { world with requests := world.requests.set index { request with chosen } } siteId =
      world.taken siteId := by
  obtain ⟨before, after, hrows, hset⟩ := exists_set_eq hrequest
  simp only [Rotation.taken, hset]
  rw [hrows]
  simp only [List.filterMap_append, List.filterMap_cons]

theorem successive_start {start : Rotation} (hnone : start.requests = [])
    (hturn : (start.turns siteId).getD 0 < 2 ^ 64) :
    Successive start siteId ((start.turns siteId).getD 0) := by
  have htaken : start.taken siteId = [] := by rw [Rotation.taken, hnone, List.filterMap_nil]
  rw [Successive, htaken]
  exact ⟨(Nat.mod_eq_of_lt hturn).symm, .refl _⟩

theorem Successive.advance {act : Act} (hsuccessive : Successive world siteId first)
    (hstep : advance world act = some next) : Successive next siteId first := by
  obtain ⟨hturn, hperm⟩ := hsuccessive
  cases act with
  | arrive site pool =>
      obtain rfl := Option.some.inj hstep
      have htaken : Rotation.taken
          { world with requests := world.requests ++ [⟨site, pool, none, none⟩] } siteId =
            world.taken siteId := by
        simp [Rotation.taken]
      rw [Successive, htaken]
      exact ⟨hturn, hperm⟩
  | take index =>
      obtain ⟨request, hrequest, hstep⟩ := Option.bind_eq_some_iff.mp hstep
      split at hstep
      · next hready =>
          obtain rfl := Option.some.inj hstep
          have htaken : ((world.take index request).taken siteId).Perm _ :=
            taken_take hrequest hready.1
          by_cases hsite : request.siteId = siteId
          · subst hsite
            rw [if_pos rfl, hturn] at htaken
            rw [Successive, htaken.length_eq, List.length_cons]
            constructor
            · rw [turns_take_self, hturn, Nat.mod_add_mod, Nat.add_assoc]
            · rw [List.range_succ, List.map_append]
              apply htaken.trans
              apply (hperm.cons _).trans
              exact (List.perm_append_singleton _ _).symm
          · rw [if_neg hsite] at htaken
            rw [Successive, htaken.length_eq]
            constructor
            · rw [turns_take_of_ne (Ne.symm hsite)]
              exact hturn
            · exact htaken.trans hperm
      · contradiction
  | choose index =>
      obtain ⟨request, hrequest, hstep⟩ := Option.bind_eq_some_iff.mp hstep
      obtain ⟨turn, -, hstep⟩ := Option.bind_eq_some_iff.mp hstep
      obtain rfl := Option.some.inj hstep
      rw [Successive, taken_choose hrequest]
      exact ⟨hturn, hperm⟩

/-- Requests of a site take different turns, as many as the counter holds. -/
theorem nodup_taken {start : Rotation} (hnone : start.requests = [])
    (hturn : (start.turns siteId).getD 0 < 2 ^ 64)
    (run : Run advance anything start world) (hmany : (world.taken siteId).length ≤ 2 ^ 64) :
    (world.taken siteId).Nodup := by
  have hsuccessive : Successive world siteId ((start.turns siteId).getD 0) :=
    run.invariant (fun world => Successive world siteId ((start.turns siteId).getD 0))
      (fun _ _ _ hsuccessive _ hstep => hsuccessive.advance hstep) (successive_start hnone hturn)
  apply hsuccessive.2.nodup_iff.mpr
  apply List.Nodup.map_on _ List.nodup_range
  intro left hleft right hright heq
  rw [List.mem_range] at hleft hright
  apply Nat.ModEq.eq_of_lt_of_lt (Nat.ModEq.add_left_cancel' _ heq) <;> omega

end Together

/-- A full turn of the rotation gives every backend as many requests as its weight, and
requests that arrive together take different turns. -/
theorem rotation_fair :
    (∀ (pool : List Backend) (turns : Turns) (siteId : ℤ), 2 ≤ pool.length →
      (pool.map (·.weight.toNat)).sum < 2 ^ 64 →
      (turns siteId).getD 0 + (pool.map (·.weight.toNat)).sum < 2 ^ 64 →
        (inTurn siteId pool (pool.map (·.weight.toNat)).sum turns).Perm
          (pool.flatMap fun backend => List.replicate backend.weight.toNat (some backend))) ∧
    ∀ (start world : Rotation) (siteId : ℤ), start.requests = [] →
      (start.turns siteId).getD 0 < 2 ^ 64 → Run advance anything start world →
        (world.taken siteId).length ≤ 2 ^ 64 → (world.taken siteId).Nodup := by
  constructor
  · intro pool turns siteId htwo hlength hcount
    have hpos : 0 < (slices pool).length := by
      obtain ⟨first, rest, rfl⟩ := List.exists_cons_of_length_pos (Nat.lt_of_lt_of_le two_pos htwo)
      have hweight := first.weight_pos
      rw [slices_cons, List.length_append, List.length_replicate]
      omega
    have hslices : (slices pool).map some =
        pool.flatMap fun backend => List.replicate backend.weight.toNat (some backend) := by
      simp [slices, List.map_flatMap]
    rw [← length_slices] at hlength hcount ⊢
    exact hslices ▸ inTurn_perm htwo hlength hpos rfl hcount
  · exact fun _ _ _ hnone hturn run hmany => nodup_taken hnone hturn run hmany

section Two

def large : Backend := ⟨7, "http://10.0.0.2".toList, 3, by decide⟩

def small : Backend := ⟨8, "http://10.0.0.3".toList, 1, by decide⟩

/-- Two backends, and two requests of which the one that arrived last goes first. -/
theorem rotation_of_two :
    (inTurn 1 [large, small] 4 HashMap.empty).Perm
      [some large, some large, some large, some small] ∧
    ∃ world, Run advance anything ⟨HashMap.empty, []⟩ world ∧ world.taken 1 = [1, 0] ∧
      (world.taken 1).Nodup := by
  constructor
  · exact rotation_fair.1 [large, small] HashMap.empty 1 (by decide) (by decide) (by decide)
  · obtain ⟨world, run, htaken⟩ := exists_run_of_exec advance ⟨HashMap.empty, []⟩
      (fun _ _ => true)
      [.arrive 1 [large, small], .arrive 1 [large, small], .take 1, .take 0]
      (fun world => world.taken 1 = [1, 0]) (fun _ _ _ => trivial) (by decide +kernel)
    have heq := of_decide_eq_true htaken
    exact ⟨world, run, heq, rotation_fair.2 _ world 1 rfl (by decide) run (by simp [heq])⟩

end Two

end EasyWaf.Upstream
