import Mathlib

/-!
# Maps by key

A hash map is what it answers: the value under each key, if there is one.
-/

namespace EasyWaf.Core

abbrev HashMap (Key Value : Type) := Key → Option Value

namespace HashMap

variable {Key Value : Type}

def empty : HashMap Key Value := fun _ => none

variable [DecidableEq Key]

def insert (map : HashMap Key Value) (key : Key) (value : Value) : HashMap Key Value :=
  Function.update map key (some value)

/-- `entry(key).or_insert(value)`. -/
def orInsert (map : HashMap Key Value) (key : Key) (value : Value) : HashMap Key Value :=
  match map key with
  | some _ => map
  | none => insert map key value

/-- The rows of a query, each under its key; the last of one key stays. -/
def ofRows {Row : Type} (key : Row → Key) (value : Row → Value) (rows : List Row) :
    HashMap Key Value :=
  rows.foldl (fun map row => insert map (key row) (value row)) empty

@[simp]
theorem insert_self (map : HashMap Key Value) (key : Key) (value : Value) :
    insert map key value key = some value := by
  simp [insert]

theorem insert_of_ne (map : HashMap Key Value) {key other : Key} (value : Value)
    (hother : other ≠ key) : insert map key value other = map other := by
  simp [insert, hother]

theorem insert_eq_some {map : HashMap Key Value} {key other : Key} {value value' : Value}
    (hinsert : insert map key value other = some value') :
    (other = key ∧ value' = value) ∨ map other = some value' := by
  by_cases hother : other = key
  · subst hother
    exact .inl ⟨rfl, by simpa [eq_comm] using hinsert⟩
  · exact .inr (insert_of_ne map value hother ▸ hinsert)

theorem isSome_insert {map : HashMap Key Value} {key other : Key} {value : Value}
    (hsome : (map other).isSome) : (insert map key value other).isSome := by
  by_cases hother : other = key
  · subst hother
    simp
  · rwa [insert_of_ne map value hother]

theorem orInsert_eq_some {map : HashMap Key Value} {key other : Key} {value value' : Value}
    (hinsert : orInsert map key value other = some value') :
    value' = value ∨ map other = some value' := by
  cases hkey : map key with
  | some held =>
      simp only [orInsert, hkey] at hinsert
      exact .inr hinsert
  | none =>
      simp only [orInsert, hkey] at hinsert
      rcases insert_eq_some hinsert with ⟨_, hvalue⟩ | hbefore
      · exact .inl hvalue
      · exact .inr hbefore

/-- Keys of one value, the first entry of each kept. -/
theorem foldl_orInsert (keys : List Key) (value : Value) (map : HashMap Key Value) (key : Key) :
    keys.foldl (fun map key => map.orInsert key value) map key =
      (map key).or (if key ∈ keys then some value else none) := by
  induction keys generalizing map with
  | nil => simp
  | cons first keys ih =>
      rw [List.foldl_cons, ih, orInsert]
      by_cases heq : key = first
      · subst heq
        cases hkey : map key with
        | some held => simp [hkey]
        | none => simp
      · cases hfirst : map first with
        | some held => simp [heq]
        | none => simp [heq, insert_of_ne]

/-- What is there under a key is the value of a row that has it. -/
theorem exists_of_ofRows_eq_some {Row : Type} {key : Row → Key} {value : Row → Value}
    {rows : List Row} {held : Key} {found : Value}
    (hfound : ofRows key value rows held = some found) :
    ∃ row ∈ rows, key row = held ∧ value row = found := by
  have hfold (rows : List Row) (map : HashMap Key Value)
      (hfound : rows.foldl (fun map row => insert map (key row) (value row)) map held = some found) :
      map held = some found ∨ ∃ row ∈ rows, key row = held ∧ value row = found := by
    induction rows generalizing map with
    | nil => exact .inl hfound
    | cons first rows ih =>
        rcases ih _ hfound with hbefore | ⟨row, hrow, hkey, hvalue⟩
        · rcases insert_eq_some hbefore with ⟨hkey, hvalue⟩ | hbefore
          · exact .inr ⟨first, List.mem_cons_self, hkey.symm, hvalue.symm⟩
          · exact .inl hbefore
        · exact .inr ⟨row, List.mem_cons_of_mem _ hrow, hkey, hvalue⟩
  exact (hfold rows empty hfound).resolve_left (by simp [empty])

/-- A key one of the rows has is there. -/
theorem isSome_ofRows {Row : Type} (key : Row → Key) (value : Row → Value) {rows : List Row}
    {row : Row} (hrow : row ∈ rows) : (ofRows key value rows (key row)).isSome := by
  have hfold (rows : List Row) (map : HashMap Key Value)
      (hkey : (map (key row)).isSome ∨ row ∈ rows) :
      ((rows.foldl (fun map row => insert map (key row) (value row)) map) (key row)).isSome := by
    induction rows generalizing map with
    | nil => simpa using hkey
    | cons head tail ih =>
        refine ih _ ?_
        rcases hkey with hsome | hmem
        · exact .inl (isSome_insert hsome)
        · rcases List.mem_cons.mp hmem with rfl | htail
          · exact .inl (by simp)
          · exact .inr htail
  exact hfold rows empty (.inr hrow)

end HashMap

end EasyWaf.Core

/-!
## Finite tables

A hash map that is counted: what it answers for each key, and the finitely many
keys it answers for.
-/

namespace EasyWaf.Core

structure Table (Key Value : Type) where
  get : Key → Option Value
  keys : Finset Key
  mem_keys : ∀ key, key ∈ keys ↔ (get key).isSome

namespace Table

variable {Key Value : Type} (table : Table Key Value)

def empty : Table Key Value where
  get _ := none
  keys := ∅
  mem_keys := by simp

def size : ℕ := table.keys.card

/-- The entries that fulfil a condition. -/
def retain (keep : Key → Value → Bool) : Table Key Value where
  get key := (table.get key).filter (keep key)
  keys := table.keys.filter fun key => ((table.get key).filter (keep key)).isSome
  mem_keys key := by
    rw [Finset.mem_filter, table.mem_keys]
    cases table.get key <;> simp [Option.filter]

variable [DecidableEq Key]

def insert (key : Key) (value : Value) : Table Key Value where
  get := Function.update table.get key (some value)
  keys := Insert.insert key table.keys
  mem_keys other := by
    rw [Finset.mem_insert, table.mem_keys]
    by_cases hother : other = key
    · subst hother
      simp
    · simp [hother]

def erase (key : Key) : Table Key Value where
  get := Function.update table.get key none
  keys := table.keys.erase key
  mem_keys other := by
    rw [Finset.mem_erase, table.mem_keys]
    by_cases hother : other = key
    · subst hother
      simp
    · simp [hother]

variable {key other : Key}

omit [DecidableEq Key] in
@[simp]
theorem get_empty (key : Key) : (empty : Table Key Value).get key = none := rfl

omit [DecidableEq Key] in
@[simp]
theorem get_retain (keep : Key → Value → Bool) (key : Key) :
    (table.retain keep).get key = (table.get key).filter (keep key) := rfl

@[simp]
theorem get_insert_self (value : Value) : (table.insert key value).get key = some value :=
  Function.update_self ..

theorem get_insert_of_ne (hother : other ≠ key) (value : Value) :
    (table.insert key value).get other = table.get other :=
  Function.update_of_ne hother ..

@[simp]
theorem get_erase_self : (table.erase key).get key = none :=
  Function.update_self ..

theorem get_erase_of_ne (hother : other ≠ key) : (table.erase key).get other = table.get other :=
  Function.update_of_ne hother ..

end Table

end EasyWaf.Core
