import EasyWaf.Routes.SiteFields
import EasyWaf.Saves.Pool

/-!
# What is left to do of a pool

The statements of `apply_pool` as data, so that those still to come can be held
against the rows as they are.  Whatever order they come in, each of them brings the
pool nearer to the field, and none has to be taken back.
-/

namespace EasyWaf.Saves

open Db

/-- A statement of `apply_pool`. -/
inductive Edit
  | change (id : ℤ) (backend : Backend)
  | add (backend : Backend)
  | drop (id : ℤ)
  deriving DecidableEq

namespace Edit

def effect (siteId : ℤ) : Edit → Store → Store
  | change id backend => changeBackend id backend
  | add backend => addBackend siteId backend
  | drop id => dropBackend id

/-- `UNIQUE (site_id, url)`. -/
def refused (pool : List Upstream) : Edit → Bool
  | add backend => pool.any (·.url = backend.url)
  | _ => false

end Edit

/-- What is done about one wanted backend. -/
def editOf (existing : List Upstream) (backend : Backend) : Option Edit :=
  match existing.find? (·.url = backend.url) with
  | some row =>
      if row.weight ≠ backend.weight ∨ row.enabled ≠ backend.enabled then
        some (.change row.id backend)
      else none
  | none => some (.add backend)

/-- The statements of `apply_pool`, from the rows it has read. -/
def edits (wanted : List Backend) (existing : List Upstream) : List Edit :=
  wanted.filterMap (editOf existing) ++
    (existing.filter fun row => wanted.all (·.url ≠ row.url)).map (.drop ·.id)

theorem map_effect_edits (siteId : ℤ) (wanted : List Backend) (existing : List Upstream) :
    (edits wanted existing).map (Edit.effect siteId) = poolStatements siteId wanted existing := by
  have hone : ∀ backend, (editOf existing backend).map (Edit.effect siteId) =
      poolStatement siteId existing backend := by
    intro backend
    rw [editOf, poolStatement]
    cases existing.find? (·.url = backend.url) with
    | none => rfl
    | some row =>
        dsimp only
        split
        · rfl
        · rfl
  rw [edits, poolStatements, List.map_append, List.map_filterMap, List.map_map]
  congr
  funext backend
  exact hone backend

/-- A row after the weight and the switch of one row are set. -/
def changed (id : ℤ) (backend : Backend) (row : Upstream) : Upstream :=
  if row.id = id then { row with weight := backend.weight, enabled := backend.enabled } else row

/-- The row keeps its id, its site and its address. -/
theorem changed_same (id : ℤ) (backend : Backend) (row : Upstream) :
    (changed id backend row).id = row.id ∧ (changed id backend row).siteId = row.siteId ∧
      (changed id backend row).url = row.url := by
  rw [changed]
  split <;> exact ⟨rfl, rfl, rfl⟩

theorem upstreams_change (id : ℤ) (backend : Backend) (store : Store) :
    (changeBackend id backend store).db.upstreams = store.db.upstreams.map (changed id backend) :=
  upstreams_changeBackend store id backend

section Pools

variable {siteId : ℤ} (store : Store)

theorem poolOf_changeBackend (id : ℤ) (backend : Backend) :
    (changeBackend id backend store).poolOf siteId =
      (store.poolOf siteId).map (changed id backend) := by
  rw [Store.poolOf, upstreams_change, List.filter_map, Store.poolOf]
  congr 1
  apply List.filter_congr
  intro row _
  rw [Function.comp_apply, (changed_same id backend row).2.1]

theorem poolOf_addBackend (backend : Backend) :
    (addBackend siteId backend store).poolOf siteId = store.poolOf siteId ++
      [⟨store.nextUpstream, siteId, backend.url, backend.weight, backend.enabled⟩] := by
  rw [Store.poolOf, upstreams_addBackend, List.filter_append, Store.poolOf]
  simp

theorem poolOf_dropBackend (id : ℤ) :
    (dropBackend id store).poolOf siteId = (store.poolOf siteId).filter fun row => row.id ≠ id := by
  rw [Store.poolOf, upstreams_dropBackend, Store.poolOf, List.filter_filter, List.filter_filter]
  apply List.filter_congr
  intro row _
  rw [Bool.and_comm]

end Pools

/-- What the table promises: ids and the addresses of a site are each there once, and
the next id is new. -/
structure Keyed (store : Store) : Prop where
  distinct : Distinct store.db.upstreams
  fresh : ∀ row ∈ store.db.upstreams, row.id < store.nextUpstream

namespace Keyed

variable {siteId : ℤ} {store : Store}

theorem siteId_of_mem {row : Upstream} (hrow : row ∈ store.poolOf siteId) : row.siteId = siteId :=
  of_decide_eq_true (List.mem_filter.mp hrow).2

theorem pool (hkeyed : Keyed store) : Distinct (store.poolOf siteId) :=
  hkeyed.distinct.filter _

theorem pool_fresh (hkeyed : Keyed store) {row : Upstream} (hrow : row ∈ store.poolOf siteId) :
    row.id ≠ store.nextUpstream :=
  (hkeyed.fresh row (List.mem_filter.mp hrow).1).ne

/-- A statement that is not refused keeps what the table promises. -/
theorem effect (hkeyed : Keyed store) {edit : Edit}
    (haccepted : edit.refused (store.poolOf siteId) = false) : Keyed (edit.effect siteId store) := by
  cases edit with
  | change id backend =>
      constructor
      · change Distinct (changeBackend id backend store).db.upstreams
        rw [upstreams_change]
        apply List.Pairwise.map _ _ hkeyed.distinct
        intro left right hapart
        obtain ⟨hleft, hleftSite, hleftUrl⟩ := changed_same id backend left
        obtain ⟨hright, hrightSite, hrightUrl⟩ := changed_same id backend right
        constructor
        · rw [hleft, hright]
          exact hapart.id
        · rw [hleftSite, hrightSite, hleftUrl, hrightUrl]
          exact hapart.url
      · intro after hmem
        change after ∈ (changeBackend id backend store).db.upstreams at hmem
        rw [upstreams_change] at hmem
        obtain ⟨row, hrow, rfl⟩ := List.mem_map.mp hmem
        rw [(changed_same id backend row).1]
        exact hkeyed.fresh row hrow
  | add backend =>
      have hnew : ∀ row ∈ store.db.upstreams, row.siteId = siteId → row.url ≠ backend.url := by
        intro row hrow hsite hurl
        have hmem : row ∈ store.poolOf siteId :=
          List.mem_filter.mpr ⟨hrow, decide_eq_true hsite⟩
        exact List.any_eq_false.mp haccepted row hmem (decide_eq_true hurl)
      constructor
      · change Distinct (addBackend siteId backend store).db.upstreams
        rw [upstreams_addBackend]
        apply List.pairwise_append.mpr
        apply And.intro hkeyed.distinct
        apply And.intro (List.pairwise_singleton _ _)
        intro row hrow added hadded
        rw [List.mem_singleton.mp hadded]
        exact {
          id := (hkeyed.fresh row hrow).ne
          url := hnew row hrow }
      · intro row hrow
        change row ∈ (addBackend siteId backend store).db.upstreams at hrow
        change row.id < store.nextUpstream + 1
        rw [upstreams_addBackend] at hrow
        cases List.mem_append.mp hrow with
        | inl hold => exact (hkeyed.fresh row hold).trans (lt_add_one _)
        | inr hadded =>
            rw [List.mem_singleton.mp hadded]
            exact lt_add_one _
  | drop id =>
      constructor
      · change Distinct (dropBackend id store).db.upstreams
        rw [upstreams_dropBackend]
        exact hkeyed.distinct.filter _
      · intro row hrow
        change row ∈ (dropBackend id store).db.upstreams at hrow
        rw [upstreams_dropBackend] at hrow
        exact hkeyed.fresh row (List.mem_filter.mp hrow).1

end Keyed

/-- These edits, in any order, take this pool to the wanted one. -/
structure Ready (wanted : List Backend) (pool : List Upstream) (rest : List Edit) : Prop where
  once : rest.Nodup
  unlisted : ∀ row ∈ pool, row.url ∉ wanted.map (·.url) → .drop row.id ∈ rest
  listed : ∀ backend ∈ wanted, .add backend ∈ rest ∨
    ∃ row ∈ pool, row.url = backend.url ∧ (backendOf row = backend ∨ .change row.id backend ∈ rest)
  change : ∀ id backend, .change id backend ∈ rest → backend ∈ wanted ∧
    ∃ row ∈ pool, row.id = id ∧ row.url = backend.url
  add : ∀ backend, .add backend ∈ rest → backend ∈ wanted ∧ ∀ row ∈ pool, row.url ≠ backend.url
  drop : ∀ id, .drop id ∈ rest → ∃ row ∈ pool, row.id = id ∧ row.url ∉ wanted.map (·.url)

theorem eq_of_url {wanted : List Backend} (hwanted : (wanted.map (·.url)).Nodup)
    {left right : Backend} (hleft : left ∈ wanted) (hright : right ∈ wanted)
    (hurl : left.url = right.url) : left = right :=
  List.inj_on_of_nodup_map hwanted hleft hright hurl

namespace Ready

variable {siteId : ℤ} {wanted : List Backend} {store : Store} {edit : Edit} {rest : List Edit}
variable {pool : List Upstream}

/-- A row whose address is listed keeps its id. -/
theorem keeps (hready : Ready wanted (store.poolOf siteId) (edit :: rest)) (hkeyed : Keyed store)
    {row : Upstream} (hrow : row ∈ store.poolOf siteId) (hlisted : row.url ∈ wanted.map (·.url)) :
    ∃ kept ∈ (edit.effect siteId store).poolOf siteId, kept.id = row.id ∧ kept.url = row.url := by
  cases edit with
  | change id backend =>
      refine ⟨changed id backend row, ?_, (changed_same id backend row).1,
        (changed_same id backend row).2.2⟩
      change changed id backend row ∈ (changeBackend id backend store).poolOf siteId
      rw [poolOf_changeBackend]
      exact List.mem_map_of_mem hrow
  | add backend =>
      refine ⟨row, ?_, rfl, rfl⟩
      change row ∈ (addBackend siteId backend store).poolOf siteId
      rw [poolOf_addBackend]
      exact List.mem_append_left _ hrow
  | drop id =>
      refine ⟨row, ?_, rfl, rfl⟩
      change row ∈ (dropBackend id store).poolOf siteId
      rw [poolOf_dropBackend]
      apply List.mem_filter.mpr
      apply And.intro hrow
      rw [decide_eq_true_eq]
      intro hid
      obtain ⟨other, hother, hotherId, hunlisted⟩ := hready.drop id List.mem_cons_self
      rw [hkeyed.pool.eq_of_id hrow hother (hid.trans hotherId.symm)] at hlisted
      exact hunlisted hlisted

/-- No edit is refused. -/
theorem accepted (hready : Ready wanted (store.poolOf siteId) (edit :: rest)) :
    edit.refused (store.poolOf siteId) = false := by
  cases edit with
  | change id backend => rfl
  | drop id => rfl
  | add backend =>
      apply List.any_eq_false.mpr
      intro row hrow hurl
      exact (hready.add backend List.mem_cons_self).2 row hrow (of_decide_eq_true hurl)

/-- What changes the row of one backend leaves the others to do. -/
theorem after_change {id : ℤ} {backend : Backend} (hwanted : (wanted.map (·.url)).Nodup)
    (hkeyed : Keyed store)
    (hready : Ready wanted (store.poolOf siteId) (.change id backend :: rest)) :
    Ready wanted ((changeBackend id backend store).poolOf siteId) rest := by
  obtain ⟨hbackend, own, hown, rfl, hownUrl⟩ := hready.change id backend List.mem_cons_self
  have honce := List.nodup_cons.mp hready.once
  have hid (row : Upstream) : (changed own.id backend row).id = row.id :=
    (changed_same own.id backend row).1
  have hurl (row : Upstream) : (changed own.id backend row).url = row.url :=
    (changed_same own.id backend row).2.2
  have hkept : ∀ row ∈ store.poolOf siteId, ∃ after ∈
      (store.poolOf siteId).map (changed own.id backend), after.id = row.id ∧ after.url = row.url := by
    intro row hrow
    exact ⟨changed own.id backend row, List.mem_map_of_mem hrow, hid row, hurl row⟩
  rw [poolOf_changeBackend]
  constructor
  · exact honce.2
  · intro after hmem hunlisted
    obtain ⟨row, hrow, rfl⟩ := List.mem_map.mp hmem
    rw [hurl] at hunlisted
    rw [hid]
    cases List.mem_cons.mp (hready.unlisted row hrow hunlisted) with
    | inl hfirst => contradiction
    | inr hlater => exact hlater
  · intro other hother
    cases hready.listed other hother with
    | inl hadd =>
        cases List.mem_cons.mp hadd with
        | inl hfirst => contradiction
        | inr hlater => exact Or.inl hlater
    | inr hrow =>
        obtain ⟨row, hrow, hrowUrl, hstate⟩ := hrow
        apply Or.inr
        refine ⟨changed own.id backend row, List.mem_map_of_mem hrow, (hurl row).trans hrowUrl, ?_⟩
        by_cases hsame : row.id = own.id
        · obtain rfl := hkeyed.pool.eq_of_id hrow hown hsame
          obtain rfl := eq_of_url hwanted hother hbackend (hrowUrl.symm.trans hownUrl)
          apply Or.inl
          rw [changed, if_pos rfl, backendOf, hrowUrl]
        · rw [hid]
          cases hstate with
          | inl hbackendOf =>
              apply Or.inl
              rw [changed, if_neg hsame, hbackendOf]
          | inr hchange =>
              cases List.mem_cons.mp hchange with
              | inl hfirst => exact absurd (Edit.change.inj hfirst).1 hsame
              | inr hlater => exact Or.inr hlater
  · intro id other hchange
    obtain ⟨hother, row, hrow, hrowId, hrowUrl⟩ :=
      hready.change id other (List.mem_cons_of_mem _ hchange)
    obtain ⟨after, hafter, hafterId, hafterUrl⟩ := hkept row hrow
    exact ⟨hother, after, hafter, hafterId.trans hrowId, hafterUrl.trans hrowUrl⟩
  · intro other hadd
    obtain ⟨hother, hnone⟩ := hready.add other (List.mem_cons_of_mem _ hadd)
    apply And.intro hother
    intro after hmem
    obtain ⟨row, hrow, rfl⟩ := List.mem_map.mp hmem
    rw [hurl]
    exact hnone row hrow
  · intro id hdrop
    obtain ⟨row, hrow, hrowId, hunlisted⟩ := hready.drop id (List.mem_cons_of_mem _ hdrop)
    obtain ⟨after, hafter, hafterId, hafterUrl⟩ := hkept row hrow
    rw [← hafterUrl] at hunlisted
    exact ⟨after, hafter, hafterId.trans hrowId, hunlisted⟩

/-- A backend that is added is in the pool, and nothing else is. -/
theorem after_add {backend : Backend} (hwanted : (wanted.map (·.url)).Nodup)
    (hready : Ready wanted (store.poolOf siteId) (.add backend :: rest)) :
    Ready wanted ((addBackend siteId backend store).poolOf siteId) rest := by
  obtain ⟨hbackend, hnone⟩ := hready.add backend List.mem_cons_self
  have honce := List.nodup_cons.mp hready.once
  have hlisted : backend.url ∈ wanted.map (·.url) := List.mem_map_of_mem hbackend
  rw [poolOf_addBackend]
  constructor
  · exact honce.2
  · intro row hrow hunlisted
    cases List.mem_append.mp hrow with
    | inl hold =>
        cases List.mem_cons.mp (hready.unlisted row hold hunlisted) with
        | inl hfirst => contradiction
        | inr hlater => exact hlater
    | inr hadded =>
        rw [List.mem_singleton.mp hadded] at hunlisted
        exact absurd hlisted hunlisted
  · intro other hother
    cases hready.listed other hother with
    | inl hadd =>
        cases List.mem_cons.mp hadd with
        | inl hfirst =>
            obtain rfl := Edit.add.inj hfirst
            exact Or.inr ⟨_, List.mem_append_right _ (List.mem_singleton_self _), rfl, Or.inl rfl⟩
        | inr hlater => exact Or.inl hlater
    | inr hrow =>
        obtain ⟨row, hrow, hurl, hstate⟩ := hrow
        apply Or.inr
        refine ⟨row, List.mem_append_left _ hrow, hurl, hstate.imp_right fun hchange => ?_⟩
        cases List.mem_cons.mp hchange with
        | inl hfirst => contradiction
        | inr hlater => exact hlater
  · intro id other hchange
    obtain ⟨hother, row, hrow, hsame⟩ := hready.change id other (List.mem_cons_of_mem _ hchange)
    exact ⟨hother, row, List.mem_append_left _ hrow, hsame⟩
  · intro other hadd
    obtain ⟨hother, hfree⟩ := hready.add other (List.mem_cons_of_mem _ hadd)
    apply And.intro hother
    intro row hrow
    cases List.mem_append.mp hrow with
    | inl hold => exact hfree row hold
    | inr hadded =>
        rw [List.mem_singleton.mp hadded]
        intro hurl
        obtain rfl := eq_of_url hwanted hbackend hother hurl
        exact honce.1 hadd
  · intro id hdrop
    obtain ⟨row, hrow, hsame⟩ := hready.drop id (List.mem_cons_of_mem _ hdrop)
    exact ⟨row, List.mem_append_left _ hrow, hsame⟩

/-- A row that is dropped was of no listed address. -/
theorem after_drop {id : ℤ} (hkeyed : Keyed store)
    (hready : Ready wanted (store.poolOf siteId) (.drop id :: rest)) :
    Ready wanted ((dropBackend id store).poolOf siteId) rest := by
  obtain ⟨own, hown, rfl, hunlisted⟩ := hready.drop id List.mem_cons_self
  have honce := List.nodup_cons.mp hready.once
  have hkept : ∀ row ∈ store.poolOf siteId, row.url ∈ wanted.map (·.url) →
      row ∈ (store.poolOf siteId).filter fun row => row.id ≠ own.id := by
    intro row hrow hlisted
    apply List.mem_filter.mpr
    apply And.intro hrow
    rw [decide_eq_true_eq]
    intro hid
    rw [hkeyed.pool.eq_of_id hrow hown hid] at hlisted
    exact hunlisted hlisted
  rw [poolOf_dropBackend]
  constructor
  · exact honce.2
  · intro row hrow hfree
    obtain ⟨hold, hid⟩ := List.mem_filter.mp hrow
    cases List.mem_cons.mp (hready.unlisted row hold hfree) with
    | inl hfirst => exact absurd (Edit.drop.inj hfirst) (of_decide_eq_true hid)
    | inr hlater => exact hlater
  · intro other hother
    have hlisted : other.url ∈ wanted.map (·.url) := List.mem_map_of_mem hother
    cases hready.listed other hother with
    | inl hadd =>
        cases List.mem_cons.mp hadd with
        | inl hfirst => contradiction
        | inr hlater => exact Or.inl hlater
    | inr hrow =>
        obtain ⟨row, hrow, hurl, hstate⟩ := hrow
        apply Or.inr
        refine ⟨row, hkept row hrow (hurl ▸ hlisted), hurl, hstate.imp_right fun hchange => ?_⟩
        cases List.mem_cons.mp hchange with
        | inl hfirst => contradiction
        | inr hlater => exact hlater
  · intro id other hchange
    obtain ⟨hother, row, hrow, hid, hurl⟩ := hready.change id other (List.mem_cons_of_mem _ hchange)
    have hlisted : other.url ∈ wanted.map (·.url) := List.mem_map_of_mem hother
    exact ⟨hother, row, hkept row hrow (hurl ▸ hlisted), hid, hurl⟩
  · intro other hadd
    obtain ⟨hother, hnone⟩ := hready.add other (List.mem_cons_of_mem _ hadd)
    apply And.intro hother
    intro row hrow
    exact hnone row (List.mem_filter.mp hrow).1
  · intro id hdrop
    obtain ⟨row, hrow, hid, hurl⟩ := hready.drop id (List.mem_cons_of_mem _ hdrop)
    refine ⟨row, List.mem_filter.mpr ⟨hrow, ?_⟩, hid, hurl⟩
    rw [decide_eq_true_eq, hid]
    intro hsame
    rw [hsame] at hdrop
    exact honce.1 hdrop

/-- Each edit leaves the others to do. -/
theorem after (hwanted : (wanted.map (·.url)).Nodup) (hkeyed : Keyed store)
    (hready : Ready wanted (store.poolOf siteId) (edit :: rest)) :
    Ready wanted ((edit.effect siteId store).poolOf siteId) rest := by
  cases edit with
  | change id backend => exact after_change hwanted hkeyed hready
  | add backend => exact after_add hwanted hready
  | drop id => exact after_drop hkeyed hready

/-- Where nothing is left to do, the pool is the wanted one. -/
theorem perm (hready : Ready wanted pool []) (hwanted : (wanted.map (·.url)).Nodup)
    (hdistinct : Distinct pool) (hsite : ∀ row ∈ pool, row.siteId = siteId) :
    (pool.map backendOf).Perm wanted := by
  apply (List.perm_ext_iff_of_nodup _ hwanted.of_map).mpr
  · intro backend
    rw [List.mem_map]
    constructor
    · intro hrow
      obtain ⟨row, hrow, rfl⟩ := hrow
      by_contra hnot
      have hlisted : row.url ∈ wanted.map (·.url) := by
        by_contra hunlisted
        exact List.not_mem_nil (hready.unlisted row hrow hunlisted)
      obtain ⟨other, hother, hurl⟩ := List.mem_map.mp hlisted
      cases hready.listed other hother with
      | inl hadd => exact List.not_mem_nil hadd
      | inr hfound =>
          obtain ⟨found, hfound, hfoundUrl, hstate⟩ := hfound
          have hsame := hdistinct.eq_of_url hfound hrow
            ((hsite found hfound).trans (hsite row hrow).symm) (hfoundUrl.trans hurl)
          rw [hsame] at hstate
          cases hstate with
          | inl hbackend =>
              rw [hbackend] at hnot
              exact hnot hother
          | inr hchange => exact List.not_mem_nil hchange
    · intro hbackend
      cases hready.listed backend hbackend with
      | inl hadd => exact absurd hadd List.not_mem_nil
      | inr hfound =>
          obtain ⟨row, hrow, -, hstate⟩ := hfound
          cases hstate with
          | inl hsame => exact ⟨row, hrow, hsame⟩
          | inr hchange => exact absurd hchange List.not_mem_nil
  · apply List.Nodup.map_on
    · intro left hleft right hright hsame
      exact hdistinct.eq_of_url hleft hright ((hsite left hleft).trans (hsite right hright).symm)
        (congrArg Backend.url hsame)
    · exact hdistinct.imp fun hapart hsame => hapart.id (congrArg Upstream.id hsame)

end Ready

section Start

variable {siteId : ℤ} {wanted : List Backend} {existing : List Upstream}

theorem editOf_eq_some_iff {backend : Backend} {edit : Edit} :
    editOf existing backend = some edit ↔
      (existing.find? (·.url = backend.url) = none ∧ edit = .add backend) ∨
        ∃ row, existing.find? (·.url = backend.url) = some row ∧
          (row.weight ≠ backend.weight ∨ row.enabled ≠ backend.enabled) ∧
            edit = .change row.id backend := by
  rw [editOf]
  cases existing.find? (·.url = backend.url) with
  | none => simp [eq_comm]
  | some row =>
      dsimp only
      split
      · rename_i hdiffers
        constructor
        · intro hsame
          exact Or.inr ⟨row, rfl, hdiffers, (Option.some.inj hsame).symm⟩
        · rintro (⟨hnone, -⟩ | ⟨other, hsome, -, rfl⟩)
          · contradiction
          · rw [Option.some.inj hsome]
      · rename_i hsame
        simp [hsame]

theorem mem_edits_iff {edit : Edit} : edit ∈ edits wanted existing ↔
    (∃ backend ∈ wanted, editOf existing backend = some edit) ∨
      ∃ row ∈ existing, row.url ∉ wanted.map (·.url) ∧ .drop row.id = edit := by
  rw [edits, List.mem_append, List.mem_filterMap, List.mem_map]
  simp only [List.mem_filter, List.all_eq_true, decide_eq_true_eq, List.mem_map, not_exists,
    not_and, ne_eq, and_assoc]

theorem add_mem_edits_iff {backend : Backend} : .add backend ∈ edits wanted existing ↔
    backend ∈ wanted ∧ ∀ row ∈ existing, row.url ≠ backend.url := by
  rw [mem_edits_iff]
  constructor
  · rintro (⟨other, hother, hedit⟩ | ⟨row, -, -, hdrop⟩)
    · rcases editOf_eq_some_iff.mp hedit with ⟨hnone, hsame⟩ | ⟨row, -, -, hchange⟩
      · obtain rfl := Edit.add.inj hsame
        exact ⟨hother, by simpa using hnone⟩
      · contradiction
    · contradiction
  · intro hboth
    apply Or.inl
    refine ⟨backend, hboth.1, editOf_eq_some_iff.mpr (Or.inl ⟨?_, rfl⟩)⟩
    simpa using hboth.2

theorem change_mem_edits {id : ℤ} {backend : Backend}
    (hchange : .change id backend ∈ edits wanted existing) :
    backend ∈ wanted ∧ ∃ row ∈ existing, row.id = id ∧ row.url = backend.url := by
  rcases mem_edits_iff.mp hchange with ⟨other, hother, hedit⟩ | ⟨row, -, -, hdrop⟩
  · rcases editOf_eq_some_iff.mp hedit with ⟨-, hsame⟩ | ⟨row, hfind, -, hsame⟩
    · contradiction
    · obtain ⟨rfl, rfl⟩ := Edit.change.inj hsame
      have hurl := List.find?_some hfind
      rw [decide_eq_true_eq] at hurl
      exact ⟨hother, row, List.mem_of_find?_eq_some hfind, rfl, hurl⟩
  · contradiction

theorem drop_mem_edits_iff {id : ℤ} : .drop id ∈ edits wanted existing ↔
    ∃ row ∈ existing, row.id = id ∧ row.url ∉ wanted.map (·.url) := by
  rw [mem_edits_iff]
  constructor
  · rintro (⟨other, -, hedit⟩ | ⟨row, hrow, hunlisted, hdrop⟩)
    · rcases editOf_eq_some_iff.mp hedit with ⟨-, hsame⟩ | ⟨row, -, -, hsame⟩
      · contradiction
      · contradiction
    · exact ⟨row, hrow, Edit.drop.inj hdrop, hunlisted⟩
  · intro hfound
    obtain ⟨row, hrow, rfl, hunlisted⟩ := hfound
    exact Or.inr ⟨row, hrow, hunlisted, rfl⟩

/-- Each edit names its backend or its row. -/
theorem nodup_edits (hwanted : wanted.Nodup) (hdistinct : Distinct existing) :
    (edits wanted existing).Nodup := by
  rw [edits]
  apply List.nodup_append'.mpr
  constructor
  · apply List.Nodup.filterMap _ hwanted
    intro left right edit hleft hright
    rcases editOf_eq_some_iff.mp hleft with ⟨-, rfl⟩ | ⟨row, -, -, rfl⟩
    · rcases editOf_eq_some_iff.mp hright with ⟨-, hsame⟩ | ⟨row, -, -, hsame⟩
      · exact Edit.add.inj hsame
      · contradiction
    · rcases editOf_eq_some_iff.mp hright with ⟨-, hsame⟩ | ⟨row, -, -, hsame⟩
      · contradiction
      · exact (Edit.change.inj hsame).2
  · constructor
    · apply List.Nodup.map_on
      · intro left hleft right hright hsame
        exact hdistinct.eq_of_id (List.mem_of_mem_filter hleft) (List.mem_of_mem_filter hright)
          (Edit.drop.inj hsame)
      · exact (hdistinct.imp fun hapart hsame => hapart.id (congrArg Upstream.id hsame)).filter _
    · intro edit hwrite hdrop
      obtain ⟨backend, -, hedit⟩ := List.mem_filterMap.mp hwrite
      obtain ⟨row, -, rfl⟩ := List.mem_map.mp hdrop
      rcases editOf_eq_some_iff.mp hedit with ⟨-, hsame⟩ | ⟨row, -, -, hsame⟩
      · contradiction
      · contradiction

/-- The statements fit the rows they were made from. -/
theorem ready_edits (hwanted : (wanted.map (·.url)).Nodup) (hdistinct : Distinct existing) :
    Ready wanted existing (edits wanted existing) where
  once := nodup_edits hwanted.of_map hdistinct
  unlisted := fun row hrow hunlisted => drop_mem_edits_iff.mpr ⟨row, hrow, rfl, hunlisted⟩
  listed := by
    intro backend hbackend
    cases hfind : existing.find? (·.url = backend.url) with
    | none => exact Or.inl (add_mem_edits_iff.mpr ⟨hbackend, by simpa using hfind⟩)
    | some row =>
        have hurl := List.find?_some hfind
        rw [decide_eq_true_eq] at hurl
        apply Or.inr
        refine ⟨row, List.mem_of_find?_eq_some hfind, hurl, ?_⟩
        by_cases hdiffers : row.weight ≠ backend.weight ∨ row.enabled ≠ backend.enabled
        · apply Or.inr
          apply mem_edits_iff.mpr
          exact Or.inl ⟨backend, hbackend,
            editOf_eq_some_iff.mpr (Or.inr ⟨row, hfind, hdiffers, rfl⟩)⟩
        · rw [not_or, not_not, not_not] at hdiffers
          apply Or.inl
          rw [backendOf, hurl, hdiffers.1, hdiffers.2]
  change := fun _ _ => change_mem_edits
  add := fun _ => add_mem_edits_iff.mp
  drop := fun _ => drop_mem_edits_iff.mp

end Start

section Field

/-- The backends a field parses to. -/
def fieldOf (field : Text) : List Backend :=
  (Routes.parseUpstreams field).1.map fun backend => ⟨backend.url, backend.weight, backend.enabled⟩

theorem nodup_addEntry {read : List Routes.Backend × List Text} {entry : Text}
    (hread : (read.1.map (·.url)).Nodup) :
    ((Routes.addEntry read entry).1.map (·.url)).Nodup := by
  rw [Routes.addEntry]
  split
  · rename_i backend _
    split
    · exact hread
    · rename_i hnew
      rw [List.map_append, List.map_singleton, List.nodup_append']
      refine ⟨hread, List.nodup_singleton _, ?_⟩
      intro url hmem hurl
      rw [List.mem_singleton.mp hurl] at hmem
      obtain ⟨other, hother, hsame⟩ := List.mem_map.mp hmem
      exact hnew (List.any_eq_true.mpr ⟨other, hother, beq_iff_eq.mpr hsame⟩)
  · exact hread

/-- Of the same address twice in a field, the first stands. -/
theorem nodup_fieldOf (field : Text) : ((fieldOf field).map (·.url)).Nodup := by
  have hfold : ∀ (entries : List Text) (read : List Routes.Backend × List Text),
      (read.1.map (·.url)).Nodup → ((entries.foldl Routes.addEntry read).1.map (·.url)).Nodup := by
    intro entries
    induction entries with
    | nil => exact fun _ hread => hread
    | cons entry rest ih => exact fun read hread => ih _ (nodup_addEntry hread)
  rw [fieldOf, List.map_map]
  exact hfold _ _ List.nodup_nil

end Field

end EasyWaf.Saves
