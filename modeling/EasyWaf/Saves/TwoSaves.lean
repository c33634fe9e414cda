import EasyWaf.Saves.Edits

/-!
# Saves of one pool side by side

`apply_pool` reads the pool and then writes statement by statement, with nothing that
keeps another save of the site from writing in between.
-/

namespace EasyWaf.Saves

open EasyWaf.Core Procedure Db EasyWaf.Machine

/-- A save of the pool: what its field says, the rows it has read, the pool as its
last statement left it, and its statements to come. -/
inductive PoolSave
  | waiting (field : Text)
  | working (field : Text) (existing seen : List Upstream) (rest : List Edit)
  | failed (field : Text)
  deriving DecidableEq

namespace PoolSave

def field : PoolSave → Text
  | waiting field => field
  | working field _ _ _ => field
  | failed field => field

def ended : PoolSave → Bool
  | working _ _ _ [] => true
  | failed _ => true
  | _ => false

/-- Its next statement. -/
def step (siteId : ℤ) (store : Store) : PoolSave → Option (Store × PoolSave)
  | waiting field =>
      let existing := store.poolOf siteId
      some (store, working field existing existing (edits (fieldOf field) existing))
  | working field existing _ (edit :: rest) =>
      if edit.refused (store.poolOf siteId) then some (store, failed field)
      else
        let after := edit.effect siteId store
        some (after, working field existing (after.poolOf siteId) rest)
  | _ => none

end PoolSave

/-- The store and the saves of a site's pool under way. -/
structure Saving where
  store : Store
  saves : List PoolSave

namespace Saving

variable (siteId : ℤ)

/-- Any of the saves goes on. -/
def step (world : Saving) (index : ℕ) : Option Saving :=
  world.saves[index]?.bind fun save => (save.step siteId world.store).map fun next =>
    ⟨next.1, world.saves.set index next.2⟩

/-- A save that writes finds the pool as its last statement left it. -/
def Undisturbed (world : Saving) (index : ℕ) : Prop :=
  ∀ field existing seen edit rest,
    world.saves[index]? = some (.working field existing seen (edit :: rest)) →
      world.store.poolOf siteId = seen

/-- The saves are about to begin. -/
def start (store : Store) (fields : List Text) : Saving where
  store := store
  saves := fields.map .waiting

/-- The row is still there, or another with its id and its address. -/
def Keeps (pool : List Upstream) (row : Upstream) : Prop :=
  ∃ kept ∈ pool, kept.id = row.id ∧ kept.url = row.url

/-- What becomes of a pool that is saved to. -/
structure OnesPool (before : Store) (fields : List Text) (world : Saving) : Prop where
  /-- No save is cut short. -/
  whole : ∀ save ∈ world.saves, ∀ field, save ≠ .failed field
  /-- A save has left the pool as its field says, and the rows it found and lists
  under their ids. -/
  own : ∀ field existing seen, .working field existing seen [] ∈ world.saves →
    (seen.map backendOf).Perm (fieldOf field) ∧
      ∀ row ∈ existing, row.url ∈ (fieldOf field).map (·.url) → Keeps seen row
  /-- When all have ended the pool is what one of the fields says. -/
  one : fields ≠ [] → (∀ save ∈ world.saves, save.ended = true) →
    ∃ field ∈ fields, ((world.store.poolOf siteId).map backendOf).Perm (fieldOf field)
  /-- What every field lists keeps its id. -/
  kept : ∀ row ∈ before.poolOf siteId, (∀ field ∈ fields, row.url ∈ (fieldOf field).map (·.url)) →
    Keeps (world.store.poolOf siteId) row

section Calls

variable {siteId}

/-- `apply_pool`, and what the handler goes on with. -/
def applyPool (siteId : ℤ) (wanted : List Backend) (rest : Save) : Save :=
  query (fun store => chain (poolStatements siteId wanted (store.poolOf siteId)) rest) .failed

theorem saveParts_eq (settings : Settings) : saveParts siteId settings =
    applyPool siteId settings.upstreams (chain (portStatements siteId settings.extras) <|
      statement (saveAliases siteId settings.aliases) (fun _ =>
        statement (saveRateLimit siteId settings.rateLimit) (fun _ =>
          saveSignIn siteId settings.signIn) .failed) .failed) := rfl

/-- What is left of a handler whose pool is saved so far. -/
def remaining (siteId : ℤ) (rest : Save) : PoolSave → Save
  | .waiting field => applyPool siteId (fieldOf field) rest
  | .working _ _ _ later => chain (later.map (Edit.effect siteId)) rest
  | .failed _ => .done .failed

/-- A step of a save is a step of its handler. -/
theorem advance_remaining {Request : Type} {program : Request → Save} {restart : Store → Store}
    {rest : Save} {world next : Saving} {index : ℕ} (hstep : step siteId world index = some next)
    {calls : List (Call Store Bool Answer)}
    (hcalls : calls.map (·.rest) = world.saves.map (remaining siteId rest)) :
    ∃ outcome after, advance program restart ⟨world.store, calls⟩ (.advance index outcome) =
        some ⟨next.store, after⟩ ∧ after.map (·.rest) = next.saves.map (remaining siteId rest) := by
  obtain ⟨save, hsave, hnext⟩ := Option.bind_eq_some_iff.mp hstep
  obtain ⟨⟨store, later⟩, hlater, rfl⟩ := Option.map_eq_some_iff.mp hnext
  have hcall : (calls.map (·.rest))[index]? = some (remaining siteId rest save) := by
    rw [hcalls, List.getElem?_map, hsave, Option.map_some]
  rw [List.getElem?_map] at hcall
  obtain ⟨⟨going, seen⟩, hgoing, hrest⟩ := Option.map_eq_some_iff.mp hcall
  have hset (call : Call Store Bool Answer) (hsame : call.rest = remaining siteId rest later) :
      (calls.set index call).map (·.rest) =
        (world.saves.set index later).map (remaining siteId rest) := by
    rw [List.map_set, List.map_set, hcalls, hsame]
  change going = remaining siteId rest save at hrest
  subst hrest
  cases save with
  | waiting field =>
      obtain ⟨rfl, rfl⟩ := Prod.mk.inj (Option.some.inj hlater)
      refine ⟨true, calls.set index ⟨_, world.store⟩, ?_, hset _ rfl⟩
      rw [advance, hgoing, remaining, map_effect_edits]
      rfl
  | failed field => contradiction
  | working field existing old later' =>
      cases later' with
      | nil => contradiction
      | cons edit edits =>
          rw [PoolSave.step] at hlater
          split at hlater
          · obtain ⟨rfl, rfl⟩ := Prod.mk.inj (Option.some.inj hlater)
            refine ⟨false, calls.set index ⟨_, world.store⟩, ?_, hset _ rfl⟩
            rw [advance, hgoing]
            rfl
          · obtain ⟨rfl, rfl⟩ := Prod.mk.inj (Option.some.inj hlater)
            refine ⟨true, calls.set index ⟨_, world.store⟩, ?_, hset _ rfl⟩
            rw [advance, hgoing]
            rfl

end Calls

/-- What holds of the saves under way while none of them disturbs another. -/
structure Sound (before : Store) (fields : List Text) (world : Saving) : Prop where
  keyed : Keyed world.store
  whole : ∀ save ∈ world.saves, ∀ field, save ≠ .failed field
  asked : world.saves.map (·.field) = fields
  ready : ∀ field existing seen rest, .working field existing seen rest ∈ world.saves →
    Ready (fieldOf field) seen rest ∧ Distinct seen ∧ (∀ row ∈ seen, row.siteId = siteId) ∧
      ∀ row ∈ existing, row.url ∈ (fieldOf field).map (·.url) → Keeps seen row
  /-- Once one has begun, one of them has seen the pool as it is. -/
  seen : (∀ field, .waiting field ∉ world.saves) → world.saves ≠ [] →
    ∃ field existing rest, .working field existing (world.store.poolOf siteId) rest ∈ world.saves
  kept : ∀ row ∈ before.poolOf siteId, (∀ field ∈ fields, row.url ∈ (fieldOf field).map (·.url)) →
    Keeps (world.store.poolOf siteId) row

variable {siteId} {before : Store} {fields : List Text} {world next : Saving} {index : ℕ}

/-- The save at an index reads the pool, or carries out a statement that fits it. -/
theorem Sound.step_cases (hsound : Sound siteId before fields world)
    (hallowed : Undisturbed siteId world index) (hstep : step siteId world index = some next) :
    (∃ field, world.saves[index]? = some (.waiting field) ∧ next.store = world.store ∧
      next.saves = world.saves.set index (.working field (world.store.poolOf siteId)
        (world.store.poolOf siteId) (edits (fieldOf field) (world.store.poolOf siteId)))) ∨
      ∃ field existing edit rest,
        world.saves[index]? =
          some (.working field existing (world.store.poolOf siteId) (edit :: rest)) ∧
        edit.refused (world.store.poolOf siteId) = false ∧
        next.store = edit.effect siteId world.store ∧
        next.saves = world.saves.set index
          (.working field existing (next.store.poolOf siteId) rest) := by
  obtain ⟨save, hsave, hnext⟩ := Option.bind_eq_some_iff.mp hstep
  obtain ⟨⟨store, later⟩, hlater, rfl⟩ := Option.map_eq_some_iff.mp hnext
  cases save with
  | waiting field =>
      obtain ⟨rfl, rfl⟩ := Prod.mk.inj (Option.some.inj hlater)
      exact Or.inl ⟨field, hsave, rfl, rfl⟩
  | failed field => contradiction
  | working field existing old left =>
      cases left with
      | nil => contradiction
      | cons edit rest =>
          have hpool := hallowed field existing old edit rest hsave
          have hready := (hsound.ready field existing old (edit :: rest)
            (List.mem_of_getElem? hsave)).1
          rw [← hpool] at hready hsave
          have haccepted := hready.accepted
          rw [PoolSave.step, haccepted, if_neg Bool.false_ne_true] at hlater
          obtain ⟨rfl, rfl⟩ := Prod.mk.inj (Option.some.inj hlater)
          exact Or.inr ⟨field, existing, edit, rest, hsave, haccepted, rfl, rfl⟩

/-- A save that takes its place in the list. -/
theorem asked_set {save later : PoolSave} (hsave : world.saves[index]? = some save)
    (hfield : later.field = save.field) :
    (world.saves.set index later).map (·.field) = world.saves.map (·.field) := by
  apply List.ext_getElem?
  intro other
  rw [List.map_set, List.getElem?_set]
  split
  · rename_i hindex
    have hlt := (List.getElem?_eq_some_iff.mp hsave).1
    rw [← hindex, List.length_map, if_pos hlt, List.getElem?_map, hsave, hfield]
    rfl
  · rfl

theorem Sound.step (hsound : Sound siteId before fields world)
    (hallowed : Undisturbed siteId world index) (hstep : step siteId world index = some next) :
    Sound siteId before fields next := by
  cases hsound.step_cases hallowed hstep with
  | inl hread =>
      obtain ⟨field, hsave, hstore, hsaves⟩ := hread
      have hindex := (List.getElem?_eq_some_iff.mp hsave).1
      constructor
      · rw [hstore]
        exact hsound.keyed
      · rw [hsaves]
        intro save hmem other
        cases List.mem_or_eq_of_mem_set hmem with
        | inl hold => exact hsound.whole save hold other
        | inr hnew =>
            rw [hnew]
            exact PoolSave.noConfusion
      · rw [hsaves]
        apply Eq.trans (asked_set hsave _) hsound.asked
        rfl
      · rw [hsaves]
        intro other existing seen rest hmem
        cases List.mem_or_eq_of_mem_set hmem with
        | inl hold => exact hsound.ready other existing seen rest hold
        | inr hnew =>
            obtain ⟨rfl, rfl, rfl, rfl⟩ := PoolSave.working.inj hnew
            refine ⟨ready_edits (nodup_fieldOf other) hsound.keyed.pool, hsound.keyed.pool,
              fun row hrow => Keyed.siteId_of_mem hrow, ?_⟩
            intro row hrow _
            exact ⟨row, hrow, rfl, rfl⟩
      · intro _ _
        rw [hsaves, hstore]
        exact ⟨field, _, _, List.mem_set hindex _⟩
      · rw [hstore]
        exact hsound.kept
  | inr hwrite =>
      obtain ⟨field, existing, edit, rest, hsave, haccepted, hstore, hsaves⟩ := hwrite
      have hindex := (List.getElem?_eq_some_iff.mp hsave).1
      have hmem := List.mem_of_getElem? hsave
      obtain ⟨hready, -, -, hkeeps⟩ := hsound.ready field existing _ (edit :: rest) hmem
      have hkeyed : Keyed next.store := by
        rw [hstore]
        exact hsound.keyed.effect haccepted
      have hstill : ∀ row, row.url ∈ (fieldOf field).map (·.url) →
          Keeps (world.store.poolOf siteId) row → Keeps (next.store.poolOf siteId) row := by
        intro row hlisted hkept
        obtain ⟨kept, hkept, hid, hurl⟩ := hkept
        rw [← hurl] at hlisted
        obtain ⟨later, hlater, hlaterId, hlaterUrl⟩ := hready.keeps hsound.keyed hkept hlisted
        rw [← hstore] at hlater
        exact ⟨later, hlater, hlaterId.trans hid, hlaterUrl.trans hurl⟩
      constructor
      · exact hkeyed
      · rw [hsaves]
        intro save hmem other
        cases List.mem_or_eq_of_mem_set hmem with
        | inl hold => exact hsound.whole save hold other
        | inr hnew =>
            rw [hnew]
            exact PoolSave.noConfusion
      · rw [hsaves]
        apply Eq.trans (asked_set hsave _) hsound.asked
        rfl
      · rw [hsaves]
        intro other found seen later hmem
        cases List.mem_or_eq_of_mem_set hmem with
        | inl hold => exact hsound.ready other found seen later hold
        | inr hnew =>
            obtain ⟨rfl, rfl, rfl, rfl⟩ := PoolSave.working.inj hnew
            refine ⟨?_, hkeyed.pool, fun row hrow => Keyed.siteId_of_mem hrow, ?_⟩
            · rw [hstore]
              exact hready.after (nodup_fieldOf other) hsound.keyed
            · intro row hrow hlisted
              exact hstill row hlisted (hkeeps row hrow hlisted)
      · intro _ _
        rw [hsaves]
        exact ⟨field, existing, rest, List.mem_set hindex _⟩
      · intro row hrow hlisted
        apply hstill row _ (hsound.kept row hrow hlisted)
        apply hlisted
        rw [← hsound.asked]
        exact List.mem_map_of_mem hmem

theorem sound_start (hkeyed : Keyed before) : Sound siteId before fields (start before fields) where
  keyed := hkeyed
  whole := by
    intro save hsave field
    obtain ⟨own, -, rfl⟩ := List.mem_map.mp hsave
    exact PoolSave.noConfusion
  asked := by
    rw [start, List.map_map]
    exact List.map_id fields
  ready := by
    intro field existing seen rest hmem
    obtain ⟨own, -, hsame⟩ := List.mem_map.mp hmem
    contradiction
  seen := by
    intro hbegun hsome
    obtain ⟨save, hsave⟩ := List.exists_mem_of_ne_nil _ hsome
    obtain ⟨own, hown, rfl⟩ := List.mem_map.mp hsave
    exact absurd hsave (hbegun own)
  kept := fun row hrow _ => ⟨row, hrow, rfl, rfl⟩

theorem Sound.onesPool (hsound : Sound siteId before fields world) :
    OnesPool siteId before fields world where
  whole := hsound.whole
  own := by
    intro field existing seen hmem
    obtain ⟨hready, hdistinct, hsite, hkeeps⟩ := hsound.ready field existing seen [] hmem
    exact ⟨hready.perm (nodup_fieldOf field) hdistinct hsite, hkeeps⟩
  one := by
    intro hfields hended
    have hsome : world.saves ≠ [] := by
      intro hnil
      rw [← hsound.asked, hnil] at hfields
      exact hfields rfl
    have hbegun : ∀ field, PoolSave.waiting field ∉ world.saves :=
      fun field hmem => Bool.false_ne_true (hended _ hmem)
    obtain ⟨field, existing, rest, hmem⟩ := hsound.seen hbegun hsome
    have hfield : field ∈ fields := by
      rw [← hsound.asked]
      exact List.mem_map_of_mem hmem
    cases rest with
    | cons edit rest => exact absurd (hended _ hmem) Bool.false_ne_true
    | nil =>
        obtain ⟨hready, hdistinct, hsite, -⟩ := hsound.ready field existing _ [] hmem
        exact ⟨field, hfield, hready.perm (nodup_fieldOf field) hdistinct hsite⟩
  kept := hsound.kept

/-- Saves of one pool that never write over one another leave what one of them says. -/
theorem onesPool_of_undisturbed (hkeyed : Keyed before)
    (run : Run (step siteId) (Undisturbed siteId) (start before fields) world) :
    OnesPool siteId before fields world := by
  apply Sound.onesPool
  apply run.invariant (Sound siteId before fields)
  · intro state action next hsound hallowed hstep
    exact hsound.step hallowed hstep
  · exact sound_start hkeyed

section Together

/-- Whether a save that writes finds the pool as its last statement left it. -/
def undisturbed (siteId : ℤ) (world : Saving) (index : ℕ) : Bool :=
  world.saves[index]?.all fun save =>
    match save with
    | .working _ _ seen (_ :: _) => world.store.poolOf siteId = seen
    | _ => true

theorem undisturbed_sound {siteId : ℤ} {world : Saving} {index : ℕ}
    (hcheck : undisturbed siteId world index = true) : Undisturbed siteId world index := by
  intro field existing seen edit rest hsave
  rw [undisturbed, hsave] at hcheck
  exact of_decide_eq_true hcheck

/-- A site with one backend. -/
def oneBackend : Store where
  db := Database.empty.withRows .upstreams [⟨1, 1, "http://a".toList, 1, true⟩]
  listenPorts := []
  sitePorts := []
  nextSite := 2
  nextUpstream := 2
  nextAlias := 1

theorem keyed_oneBackend : Keyed oneBackend where
  distinct := List.pairwise_singleton _ _
  fresh := by
    intro row hrow
    rw [List.mem_singleton.mp hrow]
    decide

/-- One save changes the weight, and the next adds a backend. -/
theorem saved_in_turn : ∃ world : Saving, (∀ save ∈ world.saves, save.ended = true) ∧
    OnesPool 1 oneBackend ["http://a 2".toList, "http://a 2, http://b".toList] world := by
  obtain ⟨world, run, hended⟩ := exists_run_of_exec (step 1)
    (start oneBackend ["http://a 2".toList, "http://a 2, http://b".toList]) (undisturbed 1)
    [0, 0, 1, 1] (fun world => world.saves.all (·.ended)) (fun _ _ => undisturbed_sound)
    (by decide +kernel)
  exact ⟨world, List.all_eq_true.mp hended, onesPool_of_undisturbed keyed_oneBackend run⟩

/-- Two saves that have both read the pool before either writes leave the backends of
both. -/
theorem saved_together : ¬ ∀ (siteId : ℤ) (before : Store) (first second : Text) (world : Saving),
    Keyed before → Run (step siteId) anything (start before [first, second]) world →
      OnesPool siteId before [first, second] world := by
  intro hevery
  obtain ⟨world, run, hgood⟩ := exists_run_of_exec (step 1)
    (start oneBackend ["http://b".toList, "http://c".toList]) (fun _ _ => true)
    [0, 1, 0, 1, 0, 1] (fun world => world.saves.all (·.ended) &&
      decide ((world.store.poolOf 1).map (·.url) = ["http://b".toList, "http://c".toList]))
    (fun _ _ _ => trivial) (by decide +kernel)
  rw [Bool.and_eq_true, decide_eq_true_eq] at hgood
  obtain ⟨field, hfield, hpool⟩ := (hevery 1 oneBackend "http://b".toList "http://c".toList world
    keyed_oneBackend run).one (List.cons_ne_nil _ _) (List.all_eq_true.mp hgood.1)
  have hlength := hpool.length_eq
  have hboth : (world.store.poolOf 1).length = 2 := by
    rw [← List.length_map (·.url), hgood.2]
    rfl
  rw [List.length_map, hboth] at hlength
  have hone : [("http://b".toList : Text), "http://c".toList].all
      (fun field => (fieldOf field).length == 1) = true := by decide +kernel
  rw [eq_of_beq (List.all_eq_true.mp hone field hfield)] at hlength
  contradiction

end Together

end Saving

end EasyWaf.Saves
