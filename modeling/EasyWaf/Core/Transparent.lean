import Mathlib.Control.Basic
import Mathlib.Data.List.Basic

/-!
# Shared results

Computations that keep what they have computed in a state they share.  Where the
state never holds anything but what would be computed again, they give what they
give on their own.
-/

namespace EasyWaf.Core

variable {σ τ α β κ : Type}

/-- From every state of the invariant the value is given, and the invariant is
kept. -/
def Transparent (Inv : σ → Prop) (action : StateM σ α) (value : α) : Prop :=
  ∀ state, Inv state → (action.run state).1 = value ∧ Inv (action.run state).2

namespace Transparent

variable {Inv : σ → Prop} {action : StateM σ α} {value : α}

theorem pure (value : α) : Transparent Inv (Pure.pure value) value :=
  fun _ hinv => ⟨rfl, hinv⟩

theorem bind {rest : α → StateM σ β} {result : β} (haction : Transparent Inv action value)
    (hrest : Transparent Inv (rest value) result) : Transparent Inv (action >>= rest) result := by
  intro state hinv
  obtain ⟨hvalue, hafter⟩ := haction state hinv
  have hstep := hrest (action.run state).2 hafter
  rw [← hvalue] at hstep
  exact hstep

theorem map (f : α → β) (haction : Transparent Inv action value) :
    Transparent Inv (f <$> action) (f value) := by
  intro state hinv
  obtain ⟨hvalue, hafter⟩ := haction state hinv
  exact ⟨congrArg f hvalue, hafter⟩

theorem ite {condition : Prop} [Decidable condition] {other : StateM σ α} {instead : α}
    (haction : Transparent Inv action value) (hother : Transparent Inv other instead) :
    Transparent Inv (if condition then action else other) (if condition then value else instead) := by
  split
  · exact haction
  · exact hother

/-- Actions on a list, one after another. -/
theorem mapM {f : α → StateM σ β} {g : α → β} {list : List α}
    (hf : ∀ a ∈ list, Transparent Inv (f a) (g a)) :
    Transparent Inv (list.mapM f) (list.map g) := by
  induction list with
  | nil => exact pure []
  | cons a rest ih =>
      obtain ⟨ha, hrest⟩ := List.forall_mem_cons.mp hf
      rw [List.mapM_cons, List.map_cons]
      exact ha.bind ((ih hrest).bind (pure _))

/-- The first of a list to hold ends the search. -/
theorem anyM {f : α → StateM σ Bool} {g : α → Bool} {list : List α}
    (hf : ∀ a ∈ list, Transparent Inv (f a) (g a)) :
    Transparent Inv (list.anyM f) (list.any g) := by
  induction list with
  | nil => exact pure false
  | cons a rest ih =>
      obtain ⟨ha, hrest⟩ := List.forall_mem_cons.mp hf
      rw [List.anyM_cons, List.any_cons]
      apply ha.bind
      cases g a with
      | true => exact pure true
      | false => exact ih hrest

end Transparent

section Cells

/-- A place in the state for a value that is computed once. -/
structure Cell (σ α : Type) where
  get : σ → Option α
  set : α → σ → σ

/-- `OnceCell::get_or_init`. -/
def Cell.getOrInit (cell : Cell σ α) (init : StateM σ α) : StateM σ α := fun state =>
  match cell.get state with
  | some value => (value, state)
  | none =>
      let (value, state) := init.run state
      (value, cell.set value state)

/-- A cell that holds nothing but the value, and may be filled with it. -/
structure Cell.Holds (Inv : σ → Prop) (cell : Cell σ α) (value : α) : Prop where
  held : ∀ state, Inv state → ∀ found, cell.get state = some found → found = value
  filled : ∀ state, Inv state → Inv (cell.set value state)

theorem Cell.Holds.getOrInit {Inv : σ → Prop} {cell : Cell σ α} {value : α}
    (hholds : cell.Holds Inv value) {init : StateM σ α} (hinit : Transparent Inv init value) :
    Transparent Inv (cell.getOrInit init) value := by
  intro state hinv
  cases hget : cell.get state with
  | some found =>
      have hrun : (cell.getOrInit init).run state = (found, state) := by
        simp only [Cell.getOrInit, StateT.run, hget]
      rw [hrun]
      exact ⟨hholds.held state hinv found hget, hinv⟩
  | none =>
      obtain ⟨hvalue, hafter⟩ := hinit state hinv
      have hrun : (cell.getOrInit init).run state =
          ((init.run state).1, cell.set (init.run state).1 (init.run state).2) := by
        simp only [Cell.getOrInit, StateT.run, hget]
        rfl
      rw [hrun, hvalue]
      exact ⟨rfl, hholds.filled _ hafter⟩

end Cells

section Keyed

variable [DecidableEq κ]

/-- Results kept under their keys. -/
structure Memo (σ κ α : Type) where
  entries : σ → List (κ × α)
  push : κ × α → σ → σ

/-- The result kept under the key, made when there is none. -/
def Memo.lookupOrMake (memo : Memo σ κ α) (key : κ) (make : StateM σ α) : StateM σ α := fun state =>
  match (memo.entries state).lookup key with
  | some value => (value, state)
  | none =>
      let (value, state) := make.run state
      (value, memo.push (key, value) state)

/-- Under every key nothing is kept but what the key's own result is. -/
structure Memo.Holds (Inv : σ → Prop) (memo : Memo σ κ α) (result : κ → α) : Prop where
  held : ∀ state, Inv state → ∀ entry ∈ memo.entries state, entry.2 = result entry.1
  pushed : ∀ state key, Inv state → Inv (memo.push (key, result key) state)

theorem mem_of_lookup_eq {entries : List (κ × α)} {key : κ} {value : α}
    (hlookup : entries.lookup key = some value) : (key, value) ∈ entries := by
  induction entries with
  | nil => contradiction
  | cons entry rest ih =>
      rw [List.lookup_cons] at hlookup
      split at hlookup
      · rename_i hkey
        obtain rfl := Option.some.inj hlookup
        obtain rfl := eq_of_beq hkey
        exact List.mem_cons_self
      · exact List.mem_cons_of_mem _ (ih hlookup)

theorem Memo.Holds.lookupOrMake {Inv : σ → Prop} {memo : Memo σ κ α} {result : κ → α}
    (hholds : memo.Holds Inv result) {key : κ} {make : StateM σ α}
    (hmake : Transparent Inv make (result key)) :
    Transparent Inv (memo.lookupOrMake key make) (result key) := by
  intro state hinv
  cases hlookup : (memo.entries state).lookup key with
  | some found =>
      have hrun : (memo.lookupOrMake key make).run state = (found, state) := by
        simp only [Memo.lookupOrMake, StateT.run, hlookup]
      rw [hrun]
      exact ⟨hholds.held state hinv _ (mem_of_lookup_eq hlookup), hinv⟩
  | none =>
      obtain ⟨hvalue, hafter⟩ := hmake state hinv
      have hrun : (memo.lookupOrMake key make).run state =
          ((make.run state).1, memo.push (key, (make.run state).1) (make.run state).2) := by
        simp only [Memo.lookupOrMake, StateT.run, hlookup]
        rfl
      rw [hrun, hvalue]
      exact ⟨rfl, hholds.pushed _ key hafter⟩

end Keyed

section Visitors

/-- What a visitor does with what it is handed, where a shared state is read
too. -/
def visit (visiting : StateM τ α) : StateT τ (StateM σ) α := fun visited =>
  pure (visiting.run visited)

/-- A result of the shared state, to be handed on. -/
def readShared (action : StateM σ α) : StateT τ (StateM σ) α := fun visited =>
  (fun value => (value, visited)) <$> action

/-- Whatever is kept in the shared state, the visitor goes the same way. -/
def Visits (Inv : σ → Prop) (action : StateT τ (StateM σ) α) (visiting : StateM τ α) : Prop :=
  ∀ visited, Transparent Inv (action.run visited) (visiting.run visited)

variable {Inv : σ → Prop}

theorem visits_visit (visiting : StateM τ α) : Visits Inv (visit visiting) visiting :=
  fun _ => Transparent.pure _

theorem Transparent.visits {action : StateM σ α} {value : α} (haction : Transparent Inv action value)
    {rest : α → StateT τ (StateM σ) β} {visiting : StateM τ β}
    (hrest : Visits Inv (rest value) visiting) :
    Visits Inv (readShared action >>= rest) visiting := by
  intro visited state hinv
  obtain ⟨hvalue, hafter⟩ := haction state hinv
  have hstep := hrest visited (action.run state).2 hafter
  rw [← hvalue] at hstep
  exact hstep

variable {m : Type → Type} [Monad m] [LawfulMonad m]

theorem anyM_append (p : α → m Bool) (first rest : List α) :
    (first ++ rest).anyM p = first.anyM p >>= fun found =>
      if found then pure true else rest.anyM p := by
  induction first with
  | nil => simp
  | cons a others ih =>
      rw [List.cons_append, List.anyM_cons, List.anyM_cons, bind_assoc]
      apply bind_congr
      intro found
      cases found with
      | true => simp
      | false => exact ih

theorem anyM_singleton (p : α → m Bool) (a : α) : [a].anyM p = p a := by
  have hfound : (fun found => if found = true then pure true else pure false : Bool → m Bool) =
      pure := by
    funext found
    cases found <;> rfl
  rw [List.anyM_cons, List.anyM_nil, hfound, bind_pure]

/-- Visiting lists one after another is visiting one list. -/
theorem anyM_flatMap (p : β → m Bool) (f : α → List β) (list : List α) :
    (list.flatMap f).anyM p = list.anyM fun a => (f a).anyM p := by
  induction list with
  | nil => rfl
  | cons a rest ih =>
      rw [List.flatMap_cons, anyM_append, List.anyM_cons]
      apply bind_congr
      intro found
      cases found with
      | true => rfl
      | false => exact ih

/-- A visitor that stops nowhere is handed everything. -/
theorem anyM_collect (list before : List α) :
    (list.anyM fun a => (do modify (· ++ [a]); return false : StateM (List α) Bool)).run before =
      (false, before ++ list) := by
  induction list generalizing before with
  | nil => rw [List.append_nil]; rfl
  | cons a rest ih =>
      rw [List.anyM_cons, List.append_cons]
      exact ih (before ++ [a])

theorem anyM_count (list : List α) (before : ℕ) :
    (list.anyM fun _ => (do modify (· + 1); return false : StateM ℕ Bool)).run before =
      (false, before + list.length) := by
  induction list generalizing before with
  | nil => rfl
  | cons a rest ih =>
      rw [List.anyM_cons, List.length_cons, Nat.add_comm rest.length, ← Nat.add_assoc]
      exact ih (before + 1)

end Visitors

end EasyWaf.Core
