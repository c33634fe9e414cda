import EasyWaf.Saves.Form

/-!
# Saving a pool

`apply_pool` works from the rows it read first, matching on the URL.  What it has
done of the field is kept as an invariant of the rows, one backend at a time.
-/

namespace EasyWaf.Saves

open EasyWaf.Core Procedure Db
open Relational.Schema (insertRows updateRows deleteRows)

/-- A row of the pool as a line of the field. -/
def backendOf (row : Upstream) : Backend := ⟨row.url, row.weight, row.enabled⟩

/-- Two rows with their own ids, and in one pool with their own URLs. -/
structure TwoRows (left right : Upstream) : Prop where
  id : left.id ≠ right.id
  url : left.siteId = right.siteId → left.url ≠ right.url

instance twoRowsSymm : Std.Symm TwoRows where
  symm := fun _ _ hapart => ⟨hapart.id.symm, fun hsite => (hapart.url hsite.symm).symm⟩

abbrev Distinct (rows : List Upstream) : Prop := rows.Pairwise TwoRows

variable {siteId : ℤ} {rows : List Upstream}

theorem Distinct.eq_of_id (hdistinct : Distinct rows) {left right : Upstream}
    (hleft : left ∈ rows) (hright : right ∈ rows) (hid : left.id = right.id) : left = right := by
  by_contra hne
  exact (List.Pairwise.forall hdistinct hleft hright hne).id hid

theorem Distinct.eq_of_url (hdistinct : Distinct rows) {left right : Upstream}
    (hleft : left ∈ rows) (hright : right ∈ rows) (hsite : left.siteId = right.siteId)
    (hurl : left.url = right.url) : left = right := by
  by_contra hne
  exact (List.Pairwise.forall hdistinct hleft hright hne).url hsite hurl

section Effects

variable (store : Store)

theorem upstreams_changeBackend (id : ℤ) (backend : Backend) :
    (changeBackend id backend store).db.upstreams = store.db.upstreams.map fun row =>
      if row.id = id then { row with weight := backend.weight, enabled := backend.enabled }
      else row := by
  change (store.db.upstreams.map fun row => if decide (row.id = id) = true then _ else row) = _
  simp only [decide_eq_true_eq]

theorem upstreams_addBackend (backend : Backend) :
    (addBackend siteId backend store).db.upstreams = store.db.upstreams ++
      [⟨store.nextUpstream, siteId, backend.url, backend.weight, backend.enabled⟩] := rfl

theorem rows_deleteRows_of_leaf (db : Database) {table : Table}
    (hleaf : ∀ key ∈ schema.foreignKeys, key.parent ≠ table) (chosen : schema.Row table → Bool) :
    (deleteRows depth db table chosen).rows =
      Function.update db.rows table ((db.rows table).filter fun row => !chosen row) :=
  congrArg (·.rows) (Relational.Schema.deleteRows_of_leaf hleaf 2 db chosen)

theorem upstreams_dropBackend (id : ℤ) :
    (dropBackend id store).db.upstreams = store.db.upstreams.filter fun row => row.id ≠ id := by
  have hleaf : ∀ key ∈ schema.foreignKeys, key.parent ≠ Table.upstreams := by decide
  have hrows := rows_deleteRows_of_leaf store.db hleaf fun row : Upstream => decide (row.id = id)
  have hupstreams := congrFun hrows Table.upstreams
  refine hupstreams.trans ?_
  change List.filter _ store.db.upstreams = _
  apply List.filter_congr
  intro row _
  simp

end Effects

/-- The rows once some of the wanted backends are done, where these existed. -/
structure Progress (siteId : ℤ) (existing : List Upstream) (did : List Backend)
    (store : Store) : Prop where
  distinct : Distinct store.db.upstreams
  fresh : ∀ row ∈ store.db.upstreams, row.id < store.nextUpstream
  known : ∀ row ∈ store.db.upstreams, row.siteId = siteId →
    row.url ∈ existing.map (·.url) ∨ row.url ∈ did.map (·.url)
  stored : ∀ backend ∈ did, ∃ row ∈ store.db.upstreams, row.siteId = siteId ∧
    backendOf row = backend
  untouched : ∀ row ∈ existing, row.url ∉ did.map (·.url) → row ∈ store.db.upstreams
  ofSite : ∀ row ∈ existing, row.siteId = siteId

namespace Progress

variable {existing : List Upstream} {did : List Backend} {store : Store} {backend : Backend}

theorem start (hdistinct : Distinct store.db.upstreams)
    (hfresh : ∀ row ∈ store.db.upstreams, row.id < store.nextUpstream) :
    Progress siteId (store.poolOf siteId) [] store where
  distinct := hdistinct
  fresh := hfresh
  known := fun row hrow hsite => .inl <| List.mem_map.mpr
    ⟨row, List.mem_filter.mpr ⟨hrow, decide_eq_true hsite⟩, rfl⟩
  stored := fun _ hdid => absurd hdid List.not_mem_nil
  untouched := fun _ hrow _ => (List.mem_filter.mp hrow).1
  ofSite := fun _ hrow => of_decide_eq_true (List.mem_filter.mp hrow).2

/-- A backend whose row has its weight already. -/
theorem keep (hprogress : Progress siteId existing did store) {row : Upstream}
    (hrow : row ∈ existing) (hbackend : backendOf row = backend)
    (hnew : backend.url ∉ did.map (·.url)) : Progress siteId existing (did ++ [backend]) store where
  distinct := hprogress.distinct
  fresh := hprogress.fresh
  known := fun other hother hsite => (hprogress.known other hother hsite).imp_right fun hmem => by
    rw [List.map_append]
    exact List.mem_append_left _ hmem
  stored := by
    intro other hother
    rcases List.mem_append.mp hother with hdid | hself
    · exact hprogress.stored other hdid
    · obtain rfl := List.mem_singleton.mp hself
      have hurl : row.url = other.url := congrArg Backend.url hbackend
      exact ⟨row, hprogress.untouched row hrow (hurl ▸ hnew), hprogress.ofSite row hrow, hbackend⟩
  untouched := fun other hother hurl => hprogress.untouched other hother fun hmem => hurl <| by
    rw [List.map_append]
    exact List.mem_append_left _ hmem
  ofSite := hprogress.ofSite

/-- A backend whose row is given its weight and its switch. -/
theorem change (hprogress : Progress siteId existing did store) {row : Upstream}
    (hrow : row ∈ existing) (hurl : row.url = backend.url) (hnew : backend.url ∉ did.map (·.url)) :
    Progress siteId existing (did ++ [backend]) (changeBackend row.id backend store) := by
  have hstored : row ∈ store.db.upstreams := hprogress.untouched row hrow (hurl ▸ hnew)
  have hother : ∀ other ∈ store.db.upstreams, other ≠ row →
      other ∈ (changeBackend row.id backend store).db.upstreams := by
    intro other hmem hne
    rw [upstreams_changeBackend]
    refine List.mem_map.mpr ⟨other, hmem, if_neg fun hid => hne ?_⟩
    exact hprogress.distinct.eq_of_id hmem hstored hid
  have hchanged : ∀ changed ∈ (changeBackend row.id backend store).db.upstreams,
      ∃ before ∈ store.db.upstreams, changed.id = before.id ∧ changed.siteId = before.siteId ∧
        changed.url = before.url := by
    intro changed hmem
    rw [upstreams_changeBackend] at hmem
    obtain ⟨before, hbefore, rfl⟩ := List.mem_map.mp hmem
    refine ⟨before, hbefore, ?_⟩
    split <;> exact ⟨rfl, rfl, rfl⟩
  constructor
  · rw [upstreams_changeBackend]
    refine List.Pairwise.map _ ?_ hprogress.distinct
    intro left right hapart
    constructor
    · split <;> split <;> exact hapart.id
    · split <;> split <;> exact hapart.url
  · intro changed hmem
    obtain ⟨before, hbefore, hid, -⟩ := hchanged changed hmem
    exact hid ▸ hprogress.fresh before hbefore
  · intro changed hmem hsite
    obtain ⟨before, hbefore, -, hsame, hsameUrl⟩ := hchanged changed hmem
    rw [hsameUrl, List.map_append]
    exact (hprogress.known before hbefore (hsame ▸ hsite)).imp_right (List.mem_append_left _)
  · intro wanted hwanted
    rcases List.mem_append.mp hwanted with hdid | hself
    · obtain ⟨before, hbefore, hsite, hbackend⟩ := hprogress.stored wanted hdid
      refine ⟨before, hother before hbefore ?_, hsite, hbackend⟩
      rintro rfl
      apply hnew
      have hsame : wanted.url = backend.url := (congrArg Backend.url hbackend).symm.trans hurl
      exact hsame ▸ List.mem_map_of_mem hdid
    · obtain rfl := List.mem_singleton.mp hself
      refine ⟨{ row with weight := wanted.weight, enabled := wanted.enabled }, ?_,
        hprogress.ofSite row hrow, ?_⟩
      · rw [upstreams_changeBackend]
        exact List.mem_map.mpr ⟨row, hstored, if_pos rfl⟩
      · rw [backendOf, hurl]
  · intro other hmem hnotDone
    rw [List.map_append, List.mem_append, not_or] at hnotDone
    apply hother other (hprogress.untouched other hmem hnotDone.1)
    rintro rfl
    exact hnotDone.2 (List.mem_singleton.mpr hurl)
  · exact hprogress.ofSite

/-- A backend that is new to the pool. -/
theorem add (hprogress : Progress siteId existing did store)
    (hunknown : ∀ row ∈ existing, row.url ≠ backend.url)
    (hnew : backend.url ∉ did.map (·.url)) :
    Progress siteId existing (did ++ [backend]) (addBackend siteId backend store) := by
  have hold : ∀ {row}, row ∈ store.db.upstreams →
      row ∈ (addBackend siteId backend store).db.upstreams := fun hmem => by
    rw [upstreams_addBackend]
    exact List.mem_append_left _ hmem
  constructor
  · rw [upstreams_addBackend]
    refine List.pairwise_append.mpr ⟨hprogress.distinct, List.pairwise_singleton _ _, ?_⟩
    intro row hrow added hadded
    obtain rfl := List.mem_singleton.mp hadded
    refine ⟨(hprogress.fresh row hrow).ne, fun hsite hurl => ?_⟩
    rcases hprogress.known row hrow hsite with hexisting | hdid
    · obtain ⟨other, hother, hsame⟩ := List.mem_map.mp hexisting
      exact hunknown other hother (hsame.trans hurl)
    · exact hnew ((show row.url = backend.url from hurl) ▸ hdid)
  · intro row hrow
    rw [upstreams_addBackend] at hrow
    change row.id < store.nextUpstream + 1
    rcases List.mem_append.mp hrow with hmem | hadded
    · exact (hprogress.fresh row hmem).trans (lt_add_one _)
    · obtain rfl := List.mem_singleton.mp hadded
      exact lt_add_one _
  · intro row hrow hsite
    rw [upstreams_addBackend] at hrow
    rw [List.map_append]
    rcases List.mem_append.mp hrow with hmem | hadded
    · exact (hprogress.known row hmem hsite).imp_right (List.mem_append_left _)
    · obtain rfl := List.mem_singleton.mp hadded
      exact .inr (List.mem_append_right _ (List.mem_singleton_self _))
  · intro wanted hwanted
    rcases List.mem_append.mp hwanted with hdid | hself
    · obtain ⟨row, hrow, hstored⟩ := hprogress.stored wanted hdid
      exact ⟨row, hold hrow, hstored⟩
    · obtain rfl := List.mem_singleton.mp hself
      refine ⟨⟨store.nextUpstream, siteId, wanted.url, wanted.weight, wanted.enabled⟩, ?_, rfl, rfl⟩
      rw [upstreams_addBackend]
      exact List.mem_append_right _ (List.mem_singleton_self _)
  · intro row hrow hnotDone
    rw [List.map_append, List.mem_append, not_or] at hnotDone
    exact hold (hprogress.untouched row hrow hnotDone.1)
  · exact hprogress.ofSite

theorem next (hprogress : Progress siteId existing did store)
    (hnew : backend.url ∉ did.map (·.url)) :
    Progress siteId existing (did ++ [backend])
      (((poolStatement siteId existing backend).map (· store)).getD store) := by
  unfold poolStatement
  split
  · rename_i row hfind
    have hrow := List.mem_of_find?_eq_some hfind
    have hurl : row.url = backend.url := by simpa using List.find?_some hfind
    split
    · exact hprogress.change hrow hurl hnew
    · rename_i hsame
      rw [not_or, not_not, not_not] at hsame
      exact hprogress.keep hrow (by rw [backendOf, hurl, hsame.1, hsame.2]) hnew
  · rename_i hfind
    apply hprogress.add _ hnew
    simpa using hfind

/-- Every wanted backend, one after another. -/
theorem all (hprogress : Progress siteId existing did store) {wanted : List Backend}
    (hnodup : ((did ++ wanted).map (·.url)).Nodup) :
    Progress siteId existing (did ++ wanted)
      ((wanted.filterMap (poolStatement siteId existing)).foldl (fun store effect => effect store)
        store) := by
  induction wanted generalizing did store with
  | nil => simpa using hprogress
  | cons backend rest ih =>
      have hnew : backend.url ∉ did.map (·.url) := by
        rw [List.map_append, List.nodup_append] at hnodup
        exact fun hmem => hnodup.2.2 _ hmem _ List.mem_cons_self rfl
      have hstep := hprogress.next hnew
      rw [List.filterMap_cons]
      rw [List.append_cons] at hnodup ⊢
      cases hstatement : poolStatement siteId existing backend with
      | none =>
          rw [hstatement] at hstep
          exact ih hstep hnodup
      | some effect =>
          rw [hstatement] at hstep
          exact ih hstep hnodup

end Progress

theorem upstreams_dropAll (dropped : List Upstream) (store : Store) :
    ((dropped.map (dropBackend ·.id)).foldl (fun store effect => effect store) store).db.upstreams =
      store.db.upstreams.filter fun row => dropped.all (·.id ≠ row.id) := by
  induction dropped generalizing store with
  | nil => simp
  | cons first rest ih =>
      rw [List.map_cons, List.foldl_cons, ih, upstreams_dropBackend, List.filter_filter]
      apply List.filter_congr
      intro row _
      rw [List.all_cons, Bool.and_comm]
      simp only [ne_comm]

/-- `apply_pool` makes the pool what the field says. -/
theorem perm_poolOf {wanted : List Backend} {store : Store}
    (hdistinct : Distinct store.db.upstreams)
    (hfresh : ∀ row ∈ store.db.upstreams, row.id < store.nextUpstream)
    (hnodup : (wanted.map (·.url)).Nodup) :
    ((((poolStatements siteId wanted (store.poolOf siteId)).foldl
      (fun store effect => effect store) store).poolOf siteId).map backendOf).Perm wanted := by
  have hstart : Progress siteId (store.poolOf siteId) [] store := .start hdistinct hfresh
  have hall : Progress siteId (store.poolOf siteId) wanted _ := hstart.all hnodup
  rw [poolStatements, List.foldl_append]
  generalize (wanted.filterMap _).foldl _ store = added at hall ⊢
  have hmem : ∀ row, row ∈ ((((store.poolOf siteId).filter fun row =>
      wanted.all (·.url ≠ row.url)).map (dropBackend ·.id)).foldl
        (fun store effect => effect store) added).poolOf siteId ↔
      row ∈ added.db.upstreams ∧ row.siteId = siteId ∧ row.url ∈ wanted.map (·.url) := by
    intro row
    rw [Store.poolOf, upstreams_dropAll]
    simp only [List.mem_filter, List.all_eq_true, decide_eq_true_eq, List.mem_map]
    constructor
    · rintro ⟨⟨hrow, hkept⟩, hsite⟩
      refine ⟨hrow, hsite, ?_⟩
      by_contra hunlisted
      rcases hall.known row hrow hsite with hexisting | hlisted
      · obtain ⟨old, hold, hurl⟩ := List.mem_map.mp hexisting
        have hpresent : old ∈ added.db.upstreams := by
          apply hall.untouched old hold
          rw [hurl]
          exact fun hlisted => hunlisted (List.mem_map.mp hlisted)
        obtain rfl := hall.distinct.eq_of_url hpresent hrow
          ((hall.ofSite old hold).trans hsite.symm) hurl
        exact hkept old ⟨hold, fun backend hbackend heq => hunlisted ⟨backend, hbackend, heq⟩⟩ rfl
      · exact hunlisted (List.mem_map.mp hlisted)
    · rintro ⟨hrow, hsite, backend, hbackend, hurl⟩
      refine ⟨⟨hrow, ?_⟩, hsite⟩
      rintro old ⟨hold, hunlisted⟩ hid
      have hpresent : old ∈ added.db.upstreams := by
        apply hall.untouched old hold
        rintro hlisted
        obtain ⟨other, hother, heq⟩ := List.mem_map.mp hlisted
        exact hunlisted other hother heq
      obtain rfl := hall.distinct.eq_of_id hpresent hrow hid
      exact hunlisted backend hbackend hurl
  apply (List.perm_ext_iff_of_nodup _ hnodup.of_map).mpr
  · intro backend
    simp only [List.mem_map, hmem]
    constructor
    · rintro ⟨row, ⟨hrow, hsite, other, hother, hurl⟩, rfl⟩
      obtain ⟨stored, hstored, hstoredSite, rfl⟩ := hall.stored other hother
      obtain rfl := hall.distinct.eq_of_url hstored hrow (hstoredSite.trans hsite.symm) hurl
      exact hother
    · intro hbackend
      obtain ⟨row, hrow, hsite, rfl⟩ := hall.stored backend hbackend
      exact ⟨row, ⟨hrow, hsite, backendOf row, hbackend, rfl⟩, rfl⟩
  · apply List.Nodup.map_on
    · intro left hleft right hright heq
      obtain ⟨hleftRow, hleftSite, -⟩ := (hmem left).mp hleft
      obtain ⟨hrightRow, hrightSite, -⟩ := (hmem right).mp hright
      exact hall.distinct.eq_of_url hleftRow hrightRow (hleftSite.trans hrightSite.symm)
        (congrArg Backend.url heq)
    · rw [Store.poolOf, upstreams_dropAll]
      apply List.Nodup.filter
      apply List.Nodup.filter
      exact hall.distinct.imp fun hapart heq => hapart.id (congrArg Upstream.id heq)

end EasyWaf.Saves
