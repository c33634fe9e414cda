import EasyWaf.Core.Machine
import EasyWaf.Logging.Lines

/-!
# The traffic writer

Rows wait in a bounded queue; one writer takes what has queued and inserts it in
one transaction.  A row names its site, which may be gone by then, and then the
whole batch is not stored: the rows of other sites are lost with it.
-/

namespace EasyWaf.Modules.TrafficWriter

open Machine

/-- `QUEUE`. -/
def queueSize : ℕ := 20000

/-- `BATCH`. -/
def batchSize : ℕ := 1000

/-- `ROWS_PER_STATEMENT`. -/
def rowsPerStatement : ℕ := 500

structure TrafficRow where
  siteId : ℤ
  record : Logging.TrafficRecord

/-- The rows queued and taken, with what became of every row before them. -/
structure State where
  sites : Finset ℤ
  queue : List TrafficRow
  batch : List TrafficRow
  /-- The counter that is reported. -/
  dropped : ℕ
  recorded : List TrafficRow
  written : List TrafficRow
  /-- Rows recorded while the queue was full. -/
  refused : List TrafficRow
  /-- Rows that could not be stored. -/
  failed : List TrafficRow
  /-- Rows that could have been stored, of batches that were not. -/
  lost : List TrafficRow

def start (sites : Finset ℤ) : State where
  sites := sites
  queue := []
  batch := []
  dropped := 0
  recorded := []
  written := []
  refused := []
  failed := []
  lost := []

inductive Event
  | record (row : TrafficRow)
  /-- `recv_many`. -/
  | take
  /-- `insert_rows`, which a database that does not answer fails too. -/
  | insert (answers : Bool)
  | addSite (id : ℤ)
  /-- `post_site_delete`. -/
  | deleteSite (id : ℤ)

/-- One statement: the foreign key holds for every row of it. -/
def insertChunk (sites : Finset ℤ) (stored chunk : List TrafficRow) : Option (List TrafficRow) :=
  if ∀ row ∈ chunk, row.siteId ∈ sites then some (stored ++ chunk) else none

/-- The rows, a chunk of them a statement, in so many statements at most. -/
def insertChunks (sites : Finset ℤ) :
    (statements : ℕ) → (stored rows : List TrafficRow) → Option (List TrafficRow)
  | 0, stored, _ => some stored
  | statements + 1, stored, rows =>
      if rows.isEmpty then some stored
      else (insertChunk sites stored (rows.take rowsPerStatement)).bind fun stored =>
        insertChunks sites statements stored (rows.drop rowsPerStatement)

/-- `insert_rows`: all of the rows or, on an error, none. -/
def insertRows (answers : Bool) (sites : Finset ℤ) (rows : List TrafficRow) :
    Option (List TrafficRow) :=
  if answers then insertChunks sites rows.length [] rows else none

/-- `TrafficWriter::record`. -/
def record (state : State) (row : TrafficRow) : State :=
  if state.queue.length < queueSize then
    { state with queue := state.queue ++ [row], recorded := state.recorded ++ [row] }
  else
    { state with
      dropped := state.dropped + 1
      recorded := state.recorded ++ [row]
      refused := state.refused ++ [row] }

/-- The writer's batch is inserted. -/
def insert (answers : Bool) (state : State) : State :=
  match insertRows answers state.sites state.batch with
  | some rows => { state with batch := [], written := state.written ++ rows }
  | none =>
      { state with
        batch := []
        dropped := state.dropped + state.batch.length
        failed := state.failed ++ state.batch.filter (·.siteId ∉ state.sites)
        lost := state.lost ++ state.batch.filter (·.siteId ∈ state.sites) }

def step (state : State) : Event → Option State
  | .record row => some (record state row)
  | .take =>
      if state.batch.isEmpty ∧ ¬ state.queue.isEmpty then
        some { state with
          queue := state.queue.drop batchSize
          batch := state.queue.take batchSize }
      else none
  | .insert answers => if state.batch.isEmpty then none else some (insert answers state)
  | .addSite id => some { state with sites := Insert.insert id state.sites }
  | .deleteSite id => some { state with sites := state.sites.erase id }

/-- Every row is written once, was refused by a full queue, could not be stored, or
still waits, and the first two that were not written are counted. -/
structure Accounted (state : State) : Prop where
  each : state.recorded.Perm
    (state.written ++ state.refused ++ state.failed ++ state.batch ++ state.queue)
  counted : state.dropped = state.refused.length + state.failed.length

/-- A batch that is inserted holds only rows that can be stored, and the database
answers, or none that can. -/
def Fits (state : State) : Event → Prop
  | .insert answers =>
      (∀ row ∈ state.batch, row.siteId ∉ state.sites) ∨
        (answers = true ∧ ∀ row ∈ state.batch, row.siteId ∈ state.sites)
  | _ => True

/-- Every event of a run fits, in the state it comes in. -/
def AllFit : State → List Event → Prop
  | _, [] => True
  | state, event :: events =>
      Fits state event ∧ ∀ next, step state event = some next → AllFit next events

section Batches

variable {sites : Finset ℤ}

theorem insertChunks_eq (statements : ℕ) (stored : List TrafficRow) {rows : List TrafficRow}
    (henough : rows.length ≤ statements) :
    insertChunks sites statements stored rows =
      if ∀ row ∈ rows, row.siteId ∈ sites then some (stored ++ rows) else none := by
  induction statements generalizing stored rows with
  | zero =>
      obtain rfl := List.length_eq_zero_iff.mp (Nat.le_zero.mp henough)
      rw [insertChunks, if_pos (by simp), List.append_nil]
  | succ statements ih =>
      rw [insertChunks]
      cases rows with
      | nil => rw [List.isEmpty_nil, if_pos rfl, if_pos (by simp), List.append_nil]
      | cons row rows =>
          have hsplit : (∀ other ∈ row :: rows, other.siteId ∈ sites) ↔
              (∀ other ∈ (row :: rows).take rowsPerStatement, other.siteId ∈ sites) ∧
                ∀ other ∈ (row :: rows).drop rowsPerStatement, other.siteId ∈ sites := by
            conv_lhs => rw [← List.take_append_drop rowsPerStatement (row :: rows)]
            exact List.forall_mem_append
          have hshorter : ((row :: rows).drop rowsPerStatement).length ≤ statements := by
            rw [List.length_drop, rowsPerStatement]
            omega
          rw [List.isEmpty_cons, if_neg Bool.false_ne_true, insertChunk]
          by_cases hchunk : ∀ other ∈ (row :: rows).take rowsPerStatement, other.siteId ∈ sites
          · rw [if_pos hchunk, Option.bind_some, ih _ hshorter, List.append_assoc,
              List.take_append_drop]
            exact if_congr (by rw [hsplit, and_iff_right hchunk]) rfl rfl
          · rw [if_neg hchunk, if_neg fun hall => hchunk (hsplit.mp hall).1]
            rfl

/-- A batch is stored whole where the site of every row of it is there. -/
theorem insertRows_eq (answers : Bool) (rows : List TrafficRow) :
    insertRows answers sites rows =
      if answers = true ∧ ∀ row ∈ rows, row.siteId ∈ sites then some rows else none := by
  rw [insertRows, insertChunks_eq rows.length [] (le_refl _), List.nil_append]
  cases answers with
  | true => simp only [if_true, true_and]
  | false => simp only [Bool.false_eq_true, if_false, false_and]

end Batches

section Runs

variable {state next : State} {event : Event}

/-- Every row recorded is in one place, and the counter is of those that will not be
written. -/
structure Conserved (state : State) : Prop where
  rows : (state.recorded : Multiset TrafficRow) =
    state.written + state.refused + state.failed + state.lost + state.batch + state.queue
  count : state.dropped = state.refused.length + state.failed.length + state.lost.length

theorem insert_of_stored {answers : Bool}
    (hstored : answers = true ∧ ∀ row ∈ state.batch, row.siteId ∈ state.sites) :
    insert answers state =
      { state with batch := [], written := state.written ++ state.batch } := by
  rw [insert, insertRows_eq, if_pos hstored]

theorem insert_of_not_stored {answers : Bool}
    (hfails : ¬ (answers = true ∧ ∀ row ∈ state.batch, row.siteId ∈ state.sites)) :
    insert answers state =
      { state with
        batch := []
        dropped := state.dropped + state.batch.length
        failed := state.failed ++ state.batch.filter (·.siteId ∉ state.sites)
        lost := state.lost ++ state.batch.filter (·.siteId ∈ state.sites) } := by
  rw [insert, insertRows_eq, if_neg hfails]

theorem conserved_record (hconserved : Conserved state) (row : TrafficRow) :
    Conserved (record state row) := by
  obtain ⟨hrows, hcount⟩ := hconserved
  rw [record]
  split
  · constructor
    · simp only [← Multiset.coe_add, hrows]
      abel
    · exact hcount
  · constructor
    · simp only [← Multiset.coe_add, hrows]
      abel
    · simp only [List.length_append, List.length_singleton]
      omega

theorem conserved_insert (hconserved : Conserved state) (answers : Bool) :
    Conserved (insert answers state) := by
  obtain ⟨hrows, hcount⟩ := hconserved
  by_cases hstored : answers = true ∧ ∀ row ∈ state.batch, row.siteId ∈ state.sites
  · rw [insert_of_stored hstored]
    constructor
    · simp only [← Multiset.coe_add, hrows, Multiset.coe_nil]
      abel
    · exact hcount
  · rw [insert_of_not_stored hstored]
    -- the batch is the rows that could not be stored and those that could
    have hbatch : (state.batch : Multiset TrafficRow) =
        (state.batch.filter (·.siteId ∉ state.sites) : Multiset TrafficRow) +
          (state.batch.filter (·.siteId ∈ state.sites) : Multiset TrafficRow) := by
      rw [add_comm, ← Multiset.filter_coe, ← Multiset.filter_coe, Multiset.filter_add_not]
    constructor
    · simp only [← Multiset.coe_add, Multiset.coe_nil]
      rw [hrows, hbatch]
      abel
    · have hlength := congrArg Multiset.card hbatch
      simp only [Multiset.coe_card, Multiset.card_add] at hlength
      simp only [List.length_append]
      omega

theorem Conserved.step (hconserved : Conserved state) (hstep : step state event = some next) :
    Conserved next := by
  cases event with
  | record row =>
      rw [← Option.some.inj hstep]
      exact conserved_record hconserved row
  | take =>
      rw [TrafficWriter.step] at hstep
      split at hstep
      · rename_i htakes
        rw [← Option.some.inj hstep]
        refine ⟨?_, hconserved.count⟩
        have hqueue : (state.queue : Multiset TrafficRow) =
            (state.queue.take batchSize : Multiset TrafficRow) +
              (state.queue.drop batchSize : Multiset TrafficRow) := by
          rw [Multiset.coe_add, List.take_append_drop]
        have hbatch : state.batch = [] := List.isEmpty_iff.mp htakes.1
        dsimp only
        rw [hconserved.rows, hbatch, hqueue, Multiset.coe_nil]
        abel
      · contradiction
  | insert answers =>
      rw [TrafficWriter.step] at hstep
      split at hstep
      · contradiction
      · rw [← Option.some.inj hstep]
        exact conserved_insert hconserved answers
  | addSite id =>
      rw [← Option.some.inj hstep]
      exact ⟨hconserved.rows, hconserved.count⟩
  | deleteSite id =>
      rw [← Option.some.inj hstep]
      exact ⟨hconserved.rows, hconserved.count⟩

/-- A step loses rows exactly where its event does not fit. -/
theorem lost_eq_nil_iff (hstep : step state event = some next) :
    next.lost = [] ↔ state.lost = [] ∧ Fits state event := by
  cases event with
  | record row =>
      rw [← Option.some.inj hstep, record]
      split <;> exact (and_iff_left trivial).symm
  | take =>
      rw [step] at hstep
      split at hstep
      · rw [← Option.some.inj hstep]
        exact (and_iff_left trivial).symm
      · contradiction
  | insert answers =>
      rw [step] at hstep
      split at hstep
      · contradiction
      · rw [← Option.some.inj hstep, Fits]
        by_cases hstored : answers = true ∧ ∀ row ∈ state.batch, row.siteId ∈ state.sites
        · rw [insert_of_stored hstored]
          exact (and_iff_left (Or.inr hstored)).symm
        · rw [insert_of_not_stored hstored, List.append_eq_nil_iff, List.filter_eq_nil_iff,
            or_iff_left hstored]
          simp only [decide_eq_true_eq]
  | addSite id =>
      rw [← Option.some.inj hstep]
      exact (and_iff_left trivial).symm
  | deleteSite id =>
      rw [← Option.some.inj hstep]
      exact (and_iff_left trivial).symm

/-- Every row is accounted for exactly where none is lost. -/
theorem accounted_iff_lost (hconserved : Conserved state) :
    Accounted state ↔ state.lost = [] := by
  obtain ⟨hrows, hcount⟩ := hconserved
  constructor
  · intro haccounted
    have hcounted := haccounted.counted
    exact List.length_eq_zero_iff.mp (by omega)
  · intro hlost
    rw [hlost] at hrows hcount
    refine ⟨?_, by simpa using hcount⟩
    apply Multiset.coe_eq_coe.mp
    rw [hrows]
    simp only [← Multiset.coe_add, Multiset.coe_nil, add_zero]

/-- What a run of events leaves. -/
abbrev runs (state : State) (events : List Event) : Option State :=
  exec step (fun _ _ => true) state events

theorem conserved_of_runs {events : List Event} (hconserved : Conserved state)
    (hruns : runs state events = some next) : Conserved next := by
  have hrun : Run step anything state next :=
    run_of_exec (fun _ _ _ => trivial) hruns
  exact hrun.invariant Conserved (fun _ _ _ hbefore _ hstep => hbefore.step hstep) hconserved

theorem lost_of_runs {events : List Event} (hruns : runs state events = some next) :
    next.lost = [] ↔ state.lost = [] ∧ AllFit state events := by
  induction events generalizing state with
  | nil =>
      rw [← Option.some.inj hruns, AllFit, and_true]
  | cons event events ih =>
      obtain ⟨middle, hstep, hrest⟩ := Option.bind_eq_some_iff.mp hruns
      rw [ih hrest, lost_eq_nil_iff hstep, AllFit, and_assoc]
      apply and_congr_right'
      apply and_congr_right'
      constructor
      · intro hfit other hother
        rwa [← Option.some.inj (hstep.symm.trans hother)]
      · exact fun hfit => hfit middle hstep

theorem conserved_start (sites : Finset ℤ) : Conserved (start sites) := ⟨rfl, rfl⟩

/-- Every row of a run is written once, refused by a full queue, unable to be stored
or waiting exactly where every batch inserted on the way holds only rows that can be
stored, or none. -/
theorem accounted_iff (sites : Finset ℤ) {events : List Event} {state : State}
    (hruns : runs (start sites) events = some state) :
    Accounted state ↔ AllFit (start sites) events := by
  rw [accounted_iff_lost (conserved_of_runs (conserved_start sites) hruns), lost_of_runs hruns]
  exact and_iff_right rfl

end Runs

section Cases

/-- A request that was served. -/
def served (siteId : ℤ) : TrafficRow where
  siteId := siteId
  record := {
    siteName := "shop".toList
    clientIp := "192.0.2.7".toList
    method := "GET".toList
    host := "shop.test".toList
    path := "/".toList
    query := none
    statusCode := 200
    responseMs := 12
    blocked := false
    blockReason := none
    wafScore := none
    matchedRules := none
    country := none
    detection := none
    user := none }

theorem served_accounted :
    ∃ state, runs (start {1}) [.record (served 1), .take, .insert true] = some state ∧
      Accounted state := by
  obtain ⟨state, hruns⟩ : ∃ state,
      runs (start {1}) [.record (served 1), .take, .insert true] = some state := ⟨_, rfl⟩
  refine ⟨state, hruns, (accounted_iff {1} hruns).mpr ⟨trivial, ?_⟩⟩
  intro queued hqueued
  obtain rfl := Option.some.inj hqueued
  refine ⟨trivial, fun taken htaken => ?_⟩
  obtain rfl := Option.some.inj htaken
  refine ⟨Or.inr ⟨rfl, ?_⟩, fun _ _ => trivial⟩
  intro row hrow
  obtain rfl := List.mem_singleton.mp hrow
  exact Finset.mem_singleton_self 1

/-- The site of one row of a batch is deleted, and the row of another site is lost. -/
theorem deleted_site_loses_another :
    ¬ ∀ (sites : Finset ℤ) (events : List Event) (state : State),
      runs (start sites) events = some state → Accounted state := by
  intro hall
  have hrun : ∃ state, runs (start {1, 2})
      [.record (served 1), .record (served 2), .take, .deleteSite 2, .insert true] = some state ∧
        state.lost ≠ [] := ⟨_, rfl, by decide⟩
  obtain ⟨state, hruns, hlost⟩ := hrun
  have hconserved := conserved_of_runs (conserved_start {1, 2}) hruns
  exact hlost ((accounted_iff_lost hconserved).mp (hall _ _ state hruns))

end Cases

end EasyWaf.Modules.TrafficWriter
