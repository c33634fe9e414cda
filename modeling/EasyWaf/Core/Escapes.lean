import Mathlib.Algebra.Order.Group.Nat
import Mathlib.Data.List.Basic

/-!
# Escapes

Texts in which a marker may begin an escape: what stands for something else,
and how many symbols after the marker belong to it.
-/

namespace EasyWaf.Core

variable {α : Type*} [DecidableEq α]

/-- What an escape stands for, and how many symbols after its marker it uses. -/
abbrev Escape (α : Type*) := List α → Option (List α × ℕ)

/-- A text with its escapes undone, less the first symbols, which belong to an
escape before them. -/
def unescapeFrom (marker : α) (escape : Escape α) : ℕ → List α → List α
  | _, [] => []
  | skip + 1, _ :: rest => unescapeFrom marker escape skip rest
  | 0, symbol :: rest =>
      if symbol = marker then
        match escape rest with
        | some (out, used) => out ++ unescapeFrom marker escape used rest
        | none => symbol :: unescapeFrom marker escape 0 rest
      else symbol :: unescapeFrom marker escape 0 rest

/-- A text with its escapes undone. -/
def unescape (marker : α) (escape : Escape α) (text : List α) : List α :=
  unescapeFrom marker escape 0 text

variable {marker : α} {escape : Escape α} {symbol : α} {rest : List α}

@[simp] theorem unescape_nil : unescape marker escape [] = [] := rfl

theorem unescapeFrom_eq_drop (skip : ℕ) (text : List α) :
    unescapeFrom marker escape skip text = unescape marker escape (text.drop skip) := by
  induction text generalizing skip with
  | nil => rw [List.drop_nil, unescape, unescapeFrom, unescapeFrom]
  | cons symbol rest ih =>
      cases skip with
      | zero => rfl
      | succ skip => rw [unescapeFrom, ih, List.drop_succ_cons]

theorem unescape_cons_of_ne (hsymbol : symbol ≠ marker) :
    unescape marker escape (symbol :: rest) = symbol :: unescape marker escape rest := by
  rw [unescape, unescapeFrom, if_neg hsymbol]
  rfl

theorem unescape_cons_of_none (hescape : escape rest = none) :
    unescape marker escape (marker :: rest) = marker :: unescape marker escape rest := by
  rw [unescape, unescapeFrom, if_pos rfl, hescape]
  rfl

theorem unescape_cons_of_some {out : List α} {used : ℕ} (hescape : escape rest = some (out, used)) :
    unescape marker escape (marker :: rest) =
      out ++ unescape marker escape (rest.drop used) := by
  rw [unescape, unescapeFrom, if_pos rfl, hescape, ← unescapeFrom_eq_drop]

theorem unescape_append_of_not_mem {before : List α} (hmarker : marker ∉ before)
    (after : List α) :
    unescape marker escape (before ++ after) = before ++ unescape marker escape after := by
  induction before with
  | nil => rfl
  | cons symbol rest ih =>
      obtain ⟨hsymbol, hrest⟩ := not_or.mp (List.mem_cons.not.mp hmarker)
      rw [List.cons_append, unescape_cons_of_ne (Ne.symm hsymbol), ih hrest]
      rfl

/-- A text without markers has no escapes. -/
theorem unescape_of_not_mem {text : List α} (hmarker : marker ∉ text) :
    unescape marker escape text = text := by
  have happend : unescape marker escape (text ++ []) = text ++ unescape marker escape [] :=
    unescape_append_of_not_mem hmarker []
  rwa [List.append_nil, unescape_nil, List.append_nil] at happend

/-- Texts by how their escapes are undone, one symbol or one escape after
another. -/
theorem unescape_induction (marker : α) (escape : Escape α) {motive : List α → Prop}
    (nil : motive [])
    (plain : ∀ symbol rest, symbol ≠ marker → motive rest → motive (symbol :: rest))
    (kept : ∀ rest, escape rest = none → motive rest → motive (marker :: rest))
    (undone : ∀ rest out used, escape rest = some (out, used) → motive (rest.drop used) →
      motive (marker :: rest))
    (text : List α) : motive text := by
  induction hlength : text.length using Nat.strong_induction_on generalizing text with
  | _ length ih =>
      cases text with
      | nil => exact nil
      | cons symbol rest =>
          have hshorter (skip : ℕ) : (rest.drop skip).length < length := by
            rw [← hlength, List.length_drop, List.length_cons]
            omega
          by_cases hsymbol : symbol = marker
          · subst hsymbol
            cases hescape : escape rest with
            | none => exact kept rest hescape (ih _ (hshorter 0) rest rfl)
            | some undoing =>
                exact undone rest undoing.1 undoing.2 hescape
                  (ih _ (hshorter undoing.2) (rest.drop undoing.2) rfl)
          · exact plain symbol rest hsymbol (ih _ (hshorter 0) rest rfl)

/-- Escapes that stand for one symbol at most leave no more symbols of a kind the
marker is of. -/
theorem countP_unescape_le {p : α → Bool} (hmarker : p marker = true)
    (hescape : ∀ rest out used, escape rest = some (out, used) → out.length ≤ 1)
    (text : List α) : (unescape marker escape text).countP p ≤ text.countP p := by
  induction text using unescape_induction marker escape with
  | nil => rfl
  | plain symbol rest hsymbol ih =>
      rw [unescape_cons_of_ne hsymbol, List.countP_cons, List.countP_cons]
      omega
  | kept rest hnone ih =>
      rw [unescape_cons_of_none hnone, List.countP_cons, List.countP_cons]
      omega
  | undone rest out used hsome ih =>
      have hout : out.countP p ≤ 1 := List.countP_le_length.trans (hescape rest out used hsome)
      have hdrop : (rest.drop used).countP p ≤ rest.countP p :=
        (List.drop_sublist used rest).countP_le
      rw [unescape_cons_of_some hsome, List.countP_append, List.countP_cons, if_pos hmarker]
      omega

/-- Escapes that leave no more than they and their marker are of make no text
longer. -/
theorem length_unescape_le
    (hescape : ∀ rest out used, escape rest = some (out, used) →
      out.length ≤ used + 1 ∧ used ≤ rest.length) (text : List α) :
    (unescape marker escape text).length ≤ text.length := by
  induction text using unescape_induction marker escape with
  | nil => rfl
  | plain symbol rest hsymbol ih =>
      rw [unescape_cons_of_ne hsymbol, List.length_cons, List.length_cons]
      omega
  | kept rest hnone ih =>
      rw [unescape_cons_of_none hnone, List.length_cons, List.length_cons]
      omega
  | undone rest out used hsome ih =>
      obtain ⟨hout, hused⟩ := hescape rest out used hsome
      rw [List.length_drop] at ih
      rw [unescape_cons_of_some hsome, List.length_append, List.length_cons]
      omega

section Loops

/-- What ends a loop that does not run to its end. -/
inductive Stop
  | outOfRange
  | overflow
  | unfinished
  deriving DecidableEq

/-- One round of a loop over the places of a text: where it goes on, and what it
writes. -/
abbrev Round (α : Type*) := ℕ → Except Stop (ℕ × List α)

/-- A loop over the places below a length, in so many rounds at most. -/
def runLoop (length : ℕ) (round : Round α) : (rounds : ℕ) → ℕ → List α → Except Stop (List α)
  | 0, place, out => if place < length then .error .unfinished else .ok out
  | rounds + 1, place, out =>
      if place < length then
        match round place with
        | .ok (next, written) => runLoop length round rounds next (out ++ written)
        | .error stop => .error stop
      else .ok out

/-- What a round makes of a marker: what its escape stands for, or the marker. -/
def turn (marker : α) (escape : Escape α) (place : ℕ) (rest : List α) : ℕ × List α :=
  match escape rest with
  | some (out, used) => (place + 1 + used, out)
  | none => (place + 1, [marker])

/-- The rounds of a loop that undoes the escapes of a text. -/
structure Undoes (marker : α) (escape : Escape α) (text : List α) (round : Round α) : Prop where
  plain : ∀ place symbol rest, text.drop place = symbol :: rest → symbol ≠ marker →
    round place = .ok (place + 1, [symbol])
  turns : ∀ place rest, text.drop place = marker :: rest →
    round place = .ok (turn marker escape place rest)

omit [DecidableEq α] in
theorem drop_of_drop_eq_cons {text : List α} {place : ℕ} (hdrop : text.drop place = symbol :: rest)
    (used : ℕ) : text.drop (place + 1 + used) = rest.drop used := by
  rw [add_assoc, ← List.drop_drop, hdrop, Nat.add_comm 1 used, List.drop_succ_cons]

omit [DecidableEq α] in
theorem eq_append_of_drop_eq_cons {text : List α} {place : ℕ}
    (hdrop : text.drop place = symbol :: rest) :
    ∃ front, text = front ++ symbol :: rest ∧ front.length = place := by
  apply Exists.intro (text.take place)
  rw [← hdrop, List.take_append_drop, List.length_take]
  refine ⟨rfl, min_eq_left ?_⟩
  by_contra hout
  rw [List.drop_eq_nil_of_le (by omega)] at hdrop
  contradiction

omit [DecidableEq α] in
/-- Rounds that read on from the symbol they are at. -/
theorem Undoes.of_append {round : List α → Round α}
    (hplain : ∀ front symbol rest, symbol ≠ marker →
      round (front ++ symbol :: rest) front.length = .ok (front.length + 1, [symbol]))
    (hturns : ∀ front rest, round (front ++ marker :: rest) front.length =
      .ok (turn marker escape front.length rest)) (text : List α) :
    Undoes marker escape text (round text) where
  plain place symbol rest hdrop hsymbol := by
    obtain ⟨front, rfl, rfl⟩ := eq_append_of_drop_eq_cons hdrop
    exact hplain front symbol rest hsymbol
  turns place rest hdrop := by
    obtain ⟨front, rfl, rfl⟩ := eq_append_of_drop_eq_cons hdrop
    exact hturns front rest

/-- Such a loop reads nothing out of range, and is done after as many rounds as
the text is long. -/
theorem Undoes.runLoop_eq {text : List α} {round : Round α}
    (hround : Undoes marker escape text round) (rounds place : ℕ) (out : List α)
    (henough : text.length ≤ place + rounds) :
    runLoop text.length round rounds place out =
      .ok (out ++ unescape marker escape (text.drop place)) := by
  induction rounds generalizing place out with
  | zero =>
      rw [runLoop, if_neg (by omega), List.drop_eq_nil_of_le (by omega), unescape_nil,
        List.append_nil]
  | succ rounds ih =>
      rw [runLoop]
      cases hdrop : text.drop place with
      | nil =>
          have hend : text.length ≤ place := List.drop_eq_nil_iff.mp hdrop
          rw [if_neg (by omega), unescape_nil, List.append_nil]
      | cons symbol rest =>
          have hin : place < text.length := by
            by_contra hout
            rw [List.drop_eq_nil_of_le (by omega)] at hdrop
            contradiction
          have hnext (used : ℕ) := drop_of_drop_eq_cons hdrop used
          rw [if_pos hin]
          by_cases hsymbol : symbol = marker
          · subst hsymbol
            rw [hround.turns place rest hdrop, turn]
            cases hescape : escape rest with
            | none =>
                dsimp only
                rw [ih (place + 1) _ (by omega), hnext 0, List.drop_zero,
                  unescape_cons_of_none hescape, List.append_assoc, List.singleton_append]
            | some undoing =>
                dsimp only
                rw [ih (place + 1 + undoing.2) _ (by omega), hnext undoing.2,
                  unescape_cons_of_some hescape, List.append_assoc]
          · rw [hround.plain place symbol rest hdrop hsymbol]
            dsimp only
            rw [ih (place + 1) _ (by omega), hnext 0, List.drop_zero, unescape_cons_of_ne hsymbol,
              List.append_assoc, List.singleton_append]

end Loops

end EasyWaf.Core
