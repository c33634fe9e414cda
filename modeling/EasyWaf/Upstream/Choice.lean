import EasyWaf.Core.Breaker
import EasyWaf.Core.HashMap
import EasyWaf.Upstream

/-!
# Which backend a request goes to

A backend that failed three times in a row is out for a while; among the others
the rotation picks by weight, and a client's pin is followed while its backend is
in.
-/

namespace EasyWaf.Upstream

open EasyWaf.Core

/-- `FAILURES_BEFORE_OUT`. -/
def failuresBeforeOut : ℕ := 3

/-- `OUT_FOR`, in nanoseconds as every instant here. -/
def outFor : ℕ := 30 * 10 ^ 9

section Health

/-- What is remembered of each backend. -/
abbrev Health := HashMap ℤ (Breaker ℕ)

/-- `taking_requests`. -/
def takingRequests (health : Health) (id : ℤ) (now : ℕ) : Bool :=
  !(health id).any (·.isOpen now)

/-- `failed`; the count is a `u32`. -/
def failed (health : Health) (id : ℤ) (now : ℕ) : Health :=
  health.insert id
    (((health id).getD .new).fail failuresBeforeOut (2 ^ 32 - 1) outFor now)

/-- `succeeded`. -/
def succeeded (health : Health) (id : ℤ) : Health :=
  match health id with
  | some _ => health.insert id .new
  | none => health

/-- What happened to one backend. -/
structure Report where
  id : ℤ
  outcome : Breaker.Outcome ℕ

def report (health : Health) : Report → Health
  | ⟨id, .failed time⟩ => failed health id time
  | ⟨id, .succeeded⟩ => succeeded health id

/-- What a history leaves, the latest report in front. -/
def observed : List Report → Health
  | [] => HashMap.empty
  | last :: earlier => report (observed earlier) last

/-- The failures of a backend since its last success, the latest in front. -/
def failuresOf (id : ℤ) (history : List Report) : List ℕ :=
  Breaker.streak ((history.filter (·.id = id)).map (·.outcome))

theorem report_self (health : Health) (id : ℤ) (outcome : Breaker.Outcome ℕ) :
    (report health ⟨id, outcome⟩ id).getD .new =
      ((health id).getD .new).observe failuresBeforeOut (2 ^ 32 - 1) outFor outcome := by
  cases outcome with
  | failed time =>
      rw [report, failed, HashMap.insert_self]
      rfl
  | succeeded =>
      cases hheld : health id with
      | none => simp [report, succeeded, hheld, Breaker.observe]
      | some held => simp [report, succeeded, hheld, Breaker.observe]

theorem report_of_ne (health : Health) {id other : ℤ} (hother : other ≠ id)
    (outcome : Breaker.Outcome ℕ) : report health ⟨id, outcome⟩ other = health other := by
  cases outcome with
  | failed time => exact HashMap.insert_of_ne _ _ hother
  | succeeded =>
      cases hheld : health id with
      | none => simp [report, succeeded, hheld]
      | some held => simp [report, succeeded, hheld, HashMap.insert_of_ne _ _ hother]

theorem observed_eq (history : List Report) (id : ℤ) :
    (observed history id).getD .new =
      Breaker.after failuresBeforeOut (2 ^ 32 - 1) outFor
        ((history.filter (·.id = id)).map (·.outcome)) := by
  induction history with
  | nil => rfl
  | cons last earlier ih =>
      obtain ⟨other, outcome⟩ := last
      rw [observed, List.filter_cons]
      by_cases hother : other = id
      · subst hother
        rw [if_pos (decide_eq_true rfl), List.map_cons, Breaker.after, ← ih, report_self]
      · rw [if_neg (by simpa using hother), ← ih, report_of_ne _ (Ne.symm hother)]

/-- A backend is out exactly while it has failed three times or more since its last
success, the last time less than `OUT_FOR` ago. -/
theorem takingRequests_observed (history : List Report) (id : ℤ) (now : ℕ) :
    takingRequests (observed history) id now = false ↔
      failuresBeforeOut ≤ (failuresOf id history).length ∧
        ∃ last ∈ (failuresOf id history).head?, now < last + outFor := by
  have hopen : takingRequests (observed history) id now =
      !((observed history id).getD .new).isOpen now := by
    rw [takingRequests]
    cases observed history id with
    | none => rfl
    | some held => rfl
  rw [hopen, Bool.not_eq_false', observed_eq]
  exact Breaker.isOpen_after_iff (by decide) (by decide) _ now

end Health

section Rotation

/-- Where each site's rotation has got to, a `u64`. -/
abbrev Turns := HashMap ℤ ℕ

/-- The sum of the weights, which wraps. -/
def total (pool : List Backend) : ℕ :=
  pool.foldl (fun sum backend => (sum + backend.weight.toNat) % 2 ^ 64) 0

/-- `pick`, from where the weights seen so far end. -/
def pickFromSeen : List Backend → ℕ → ℕ → Option Backend
  | [], _, _ => none
  | backend :: rest, seen, offset =>
      let seen := (seen + backend.weight.toNat) % 2 ^ 64
      if offset < seen then some backend else pickFromSeen rest seen offset

/-- `pick`. -/
def pick (pool : List Backend) (offset : ℕ) : Option Backend :=
  match pickFromSeen pool 0 offset with
  | some backend => some backend
  | none => pool.getLast?

/-- `pick_from`: the choice, and the rotation after it. -/
def pickFrom (turns : Turns) (siteId : ℤ) : List Backend → Option Backend × Turns
  | [] => (none, turns)
  | [backend] => (some backend, turns)
  | pool =>
      if total pool = 0 then (pool.head?, turns)
      else
        let turn := (turns siteId).getD 0
        (pick pool (turn % total pool), turns.insert siteId ((turn + 1) % 2 ^ 64))

/-- What the request path is told of the backend it was given. -/
structure Chosen where
  upstream : Backend
  /-- Every backend of the site is out, and this one was handed out anyway. -/
  allOut : Bool

variable (health : Health) (turns : Turns) (siteId : ℤ) (pool : List Backend) (tried : List ℤ)
variable (now : ℕ)

/-- `choose_except`, with the rotation after it. -/
def chooseExcept : Option Chosen × Turns :=
  let pool := pool.filter fun backend => !tried.contains backend.id
  let live := pool.filter fun backend => takingRequests health backend.id now
  let allOut := live.isEmpty && !pool.isEmpty
  let (upstream, turns) := pickFrom turns siteId (if allOut then pool else live)
  (upstream.map fun upstream => { upstream, allOut }, turns)

/-- `choose`. -/
def choose : Option Chosen × Turns := chooseExcept health turns siteId pool [] now

/-- `choose_pinned`, which reads the time again for the choice it falls back to. -/
def choosePinned (later : ℕ) (pinned : Option ℤ) : Option Chosen × Turns :=
  match pinned with
  | some id =>
      match pool.find? fun backend =>
          decide (backend.id = id) && takingRequests health backend.id now with
      | some upstream => (some { upstream, allOut := false }, turns)
      | none => choose health turns siteId pool later
  | none => choose health turns siteId pool later

section Picked

variable {turns siteId pool} {backend : Backend} {seen offset : ℕ}

theorem mem_of_pickFromSeen (hpick : pickFromSeen pool seen offset = some backend) :
    backend ∈ pool := by
  induction pool generalizing seen with
  | nil => contradiction
  | cons first rest ih =>
      rw [pickFromSeen] at hpick
      split at hpick
      · rw [Option.some.inj hpick]
        exact List.mem_cons_self
      · exact List.mem_cons_of_mem _ (ih hpick)

theorem mem_of_pick (hpick : pick pool offset = some backend) : backend ∈ pool := by
  rw [pick] at hpick
  split at hpick
  · rename_i hseen
    rw [← Option.some.inj hpick]
    exact mem_of_pickFromSeen hseen
  · exact List.mem_of_getLast? hpick

theorem pick_eq_none (hpick : pick pool offset = none) : pool = [] := by
  rw [pick] at hpick
  split at hpick
  · contradiction
  · exact List.getLast?_eq_none_iff.mp hpick

theorem mem_of_pickFrom (hpick : (pickFrom turns siteId pool).1 = some backend) :
    backend ∈ pool := by
  match pool with
  | [] => contradiction
  | [only] =>
      rw [← Option.some.inj hpick]
      exact List.mem_singleton_self _
  | first :: second :: rest =>
      rw [pickFrom] at hpick
      · split at hpick
        · exact List.mem_of_head? hpick
        · exact mem_of_pick hpick
      · simp
      · simp

theorem pickFrom_eq_none (hpick : (pickFrom turns siteId pool).1 = none) : pool = [] := by
  match pool with
  | [] => rfl
  | [only] => contradiction
  | first :: second :: rest =>
      rw [pickFrom] at hpick
      · split at hpick
        · contradiction
        · exact pick_eq_none hpick
      · simp
      · simp

end Picked

section Chosen

variable {health turns siteId pool tried now} {chosen : Chosen} {later : ℕ} {pin : ℤ}

/-- Some backend that was not tried is in. -/
def SomeIn (health : Health) (pool : List Backend) (tried : List ℤ) (now : ℕ) : Prop :=
  ∃ backend ∈ pool, backend.id ∉ tried ∧ takingRequests health backend.id now = true

/-- Of the backends not tried, those the choice is made from. -/
def candidates (health : Health) (pool : List Backend) (tried : List ℤ) (now : ℕ) : List Backend :=
  let pool := pool.filter fun backend => !tried.contains backend.id
  let live := pool.filter fun backend => takingRequests health backend.id now
  if live.isEmpty && !pool.isEmpty then pool else live

theorem fst_chooseExcept : (chooseExcept health turns siteId pool tried now).1.map (·.upstream) =
    (pickFrom turns siteId (candidates health pool tried now)).1 := by
  rw [chooseExcept, Option.map_map]
  exact Option.map_id'

theorem mem_candidates {backend : Backend} (hmem : backend ∈ candidates health pool tried now) :
    backend ∈ pool ∧ backend.id ∉ tried := by
  rw [candidates] at hmem
  split at hmem
  · simpa using hmem
  · simpa using (List.mem_filter.mp hmem).1

theorem takingRequests_of_mem_candidates {backend : Backend} (hsome : SomeIn health pool tried now)
    (hmem : backend ∈ candidates health pool tried now) :
    takingRequests health backend.id now = true := by
  obtain ⟨other, hother, hnew, htaking⟩ := hsome
  have hlive : other ∈ (pool.filter fun backend => !tried.contains backend.id).filter
      fun backend => takingRequests health backend.id now := by
    simp [hother, hnew, htaking]
  rw [candidates, if_neg] at hmem
  · exact (List.mem_filter.mp hmem).2
  · rw [Bool.and_eq_true, List.isEmpty_iff]
    exact fun hempty => List.ne_nil_of_mem hlive hempty.1

theorem candidates_eq_nil_iff :
    candidates health pool tried now = [] ↔ ∀ backend ∈ pool, backend.id ∈ tried := by
  have hpool : (pool.filter fun backend => !tried.contains backend.id) = [] ↔
      ∀ backend ∈ pool, backend.id ∈ tried := by
    simp [List.filter_eq_nil_iff]
  rw [← hpool, candidates]
  split
  · rfl
  · rename_i hnot
    constructor
    · intro hlive
      rw [hlive] at hnot
      simpa using hnot
    · intro hnone
      rw [hnone]
      rfl

/-- The backend handed out is one of the pool that was not tried, and is in where
any such is. -/
theorem chosen_of_chooseExcept
    (hchosen : (chooseExcept health turns siteId pool tried now).1 = some chosen) :
    chosen.upstream ∈ pool ∧ chosen.upstream.id ∉ tried ∧
      (SomeIn health pool tried now → takingRequests health chosen.upstream.id now = true) := by
  have hpick := @fst_chooseExcept health turns siteId pool tried now
  rw [hchosen] at hpick
  have hmem := mem_of_pickFrom hpick.symm
  exact ⟨(mem_candidates hmem).1, (mem_candidates hmem).2,
    fun hsome => takingRequests_of_mem_candidates hsome hmem⟩

theorem chooseExcept_eq_none_iff :
    (chooseExcept health turns siteId pool tried now).1 = none ↔
      ∀ backend ∈ pool, backend.id ∈ tried := by
  have hpicked := @fst_chooseExcept health turns siteId pool tried now
  have hnone : (chooseExcept health turns siteId pool tried now).1 = none ↔
      (pickFrom turns siteId (candidates health pool tried now)).1 = none := by
    rw [← hpicked, Option.map_eq_none_iff]
  rw [hnone]
  constructor
  · intro hpick
    exact candidates_eq_nil_iff.mp (pickFrom_eq_none hpick)
  · intro hall
    rw [candidates_eq_nil_iff.mpr hall]
    rfl

theorem choosePinned_of_find {upstream : Backend}
    (hfind : (pool.find? fun backend =>
      decide (backend.id = pin) && takingRequests health backend.id now) = some upstream) :
    choosePinned health turns siteId pool now later (some pin) =
      (some { upstream, allOut := false }, turns) := by
  rw [choosePinned, hfind]

theorem choosePinned_of_find_eq_none
    (hfind : (pool.find? fun backend =>
      decide (backend.id = pin) && takingRequests health backend.id now) = none) :
    choosePinned health turns siteId pool now later (some pin) =
      choose health turns siteId pool later := by
  rw [choosePinned, hfind]

/-- The pin's backend is of the pool and not out. -/
def PinIn (health : Health) (pool : List Backend) (now : ℕ) (pin : ℤ) : Prop :=
  ∃ backend ∈ pool, backend.id = pin ∧ takingRequests health backend.id now = true

theorem find_of_pinIn (hpin : PinIn health pool now pin) :
    ∃ upstream, (pool.find? fun backend =>
        decide (backend.id = pin) && takingRequests health backend.id now) = some upstream ∧
      upstream.id = pin := by
  obtain ⟨backend, hbackend, hid, htaking⟩ := hpin
  have hsome : (pool.find? fun backend =>
      decide (backend.id = pin) && takingRequests health backend.id now).isSome := by
    rw [List.find?_isSome]
    exact ⟨backend, hbackend, by simp [hid, ← hid ▸ htaking]⟩
  obtain ⟨upstream, hfind⟩ := Option.isSome_iff_exists.mp hsome
  have hmatch := List.find?_some hfind
  rw [Bool.and_eq_true, decide_eq_true_eq] at hmatch
  exact ⟨upstream, hfind, hmatch.1⟩

/-- A pin is followed, to a backend that is in and with the rotation left alone,
exactly when its backend is of the pool and not out. -/
theorem choosePinned_follows_iff :
    (∃ upstream, choosePinned health turns siteId pool now later (some pin) =
        (some { upstream, allOut := false }, turns) ∧
      upstream.id = pin ∧ takingRequests health pin now = true) ↔
      PinIn health pool now pin := by
  constructor
  · rintro ⟨upstream, hchosen, hid, htaking⟩
    cases hfind : pool.find? fun backend =>
        decide (backend.id = pin) && takingRequests health backend.id now with
    | some found =>
        have hmatch := List.find?_some hfind
        rw [Bool.and_eq_true, decide_eq_true_eq] at hmatch
        exact ⟨found, List.mem_of_find?_eq_some hfind, hmatch⟩
    | none =>
        rw [choosePinned_of_find_eq_none hfind] at hchosen
        have hmem := (chosen_of_chooseExcept (congrArg Prod.fst hchosen)).1
        exact ⟨upstream, hmem, hid, hid ▸ htaking⟩
  · intro hpin
    obtain ⟨upstream, hfind, hid⟩ := find_of_pinIn hpin
    obtain ⟨backend, -, hid', htaking⟩ := hpin
    exact ⟨upstream, choosePinned_of_find hfind, hid, hid' ▸ htaking⟩

theorem choosePinned_of_not_pinIn (hpin : ¬ PinIn health pool now pin) :
    choosePinned health turns siteId pool now later (some pin) =
      choose health turns siteId pool later := by
  apply choosePinned_of_find_eq_none
  rw [List.find?_eq_none]
  intro backend hbackend hmatch
  rw [Bool.and_eq_true, decide_eq_true_eq] at hmatch
  exact hpin ⟨backend, hbackend, hmatch⟩

end Chosen

/-- The choice follows what was observed: a backend is out exactly while its last
three outcomes or more were failures and the last is recent; what is handed out was
not tried and is in where any untried backend is; nothing is handed out only when
all were tried; and a pin is followed exactly while its backend is there and in. -/
theorem choice_follows_health (history : List Report) (turns : Turns) (siteId : ℤ)
    (pool : List Backend) (tried : List ℤ) (pin : ℤ) (now later : ℕ) :
    (∀ id, takingRequests (observed history) id now = false ↔
      failuresBeforeOut ≤ (failuresOf id history).length ∧
        ∃ last ∈ (failuresOf id history).head?, now < last + outFor) ∧
    (∀ chosen, (chooseExcept (observed history) turns siteId pool tried now).1 = some chosen →
      chosen.upstream ∈ pool ∧ chosen.upstream.id ∉ tried ∧
        (SomeIn (observed history) pool tried now →
          takingRequests (observed history) chosen.upstream.id now = true)) ∧
    ((chooseExcept (observed history) turns siteId pool tried now).1 = none ↔
      ∀ backend ∈ pool, backend.id ∈ tried) ∧
    ((∃ upstream, choosePinned (observed history) turns siteId pool now later (some pin) =
          (some { upstream, allOut := false }, turns) ∧
        upstream.id = pin ∧ takingRequests (observed history) pin now = true) ↔
      PinIn (observed history) pool now pin) ∧
    (¬ PinIn (observed history) pool now pin →
      choosePinned (observed history) turns siteId pool now later (some pin) =
        choose (observed history) turns siteId pool later) := by
  refine ⟨fun id => takingRequests_observed history id now, ?_, chooseExcept_eq_none_iff,
    choosePinned_follows_iff, choosePinned_of_not_pinIn⟩
  intro chosen hchosen
  exact chosen_of_chooseExcept hchosen

end Rotation

end EasyWaf.Upstream
