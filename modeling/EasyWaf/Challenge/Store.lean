import EasyWaf.Core.HashMap
import EasyWaf.Text.Basic

/-!
# The challenges that wait for an answer

`ChallengeStore`: a challenge waits under its id until it is answered once, or
until it expires.  Issuing one takes two turns at the store, with the image
drawn between them; answering one takes a single turn.
-/

namespace EasyWaf.Challenge

open EasyWaf.Core

/-- `MAX_PENDING`. -/
def maxPending : ℕ := 10000

/-- `MAX_PENDING_PER_CLIENT`. -/
def maxPendingPerClient : ℕ := 50

/-- `CHALLENGE_TTL`, in nanoseconds as every instant here. -/
def challengeTtl : ℕ := 180 * 10 ^ 9

structure Pending where
  answer : Text
  dest : Text
  clientIp : Text
  expires : ℕ
  deriving DecidableEq

/-- What a submitted answer turned out to be. -/
inductive Answer
  | right (dest : Text)
  | wrong (dest : Text)
  | unknown
  deriving DecidableEq

abbrev Store := Table Text Pending

namespace Store

variable (store : Store)

/-- The ids one client holds. -/
def own (clientIp : Text) : Finset Text :=
  store.keys.filter fun id => (store.get id).any fun pending => pending.clientIp = clientIp

def expiry (id : Text) : ℕ := ((store.get id).map (·.expires)).getD 0

/-- The ids one client holds, the one that expires first in front. -/
def oldestFirst (clientIp : Text) : List Text :=
  (((store.own clientIp).image fun id => toLex (store.expiry id, id)).sort (· ≤ ·)).map
    fun item => (ofLex item).2

/-- A client at its limit loses its oldest challenges. -/
def makeRoomFor (clientIp : Text) : Store :=
  let own := store.oldestFirst clientIp
  if maxPendingPerClient ≤ own.length then
    (own.take (own.length - maxPendingPerClient + 1)).foldl (fun store id => store.erase id) store
  else store

/-- The expired challenges go once the store is full. -/
def prune (now : ℕ) : Store :=
  if maxPending ≤ store.size then store.retain fun _ pending => now < pending.expires else store

/-- The first turn of `issue`: the store it leaves, and whether it goes on. -/
def admits (clientIp : Text) (now : ℕ) : Store × Bool :=
  let pruned := store.prune now
  if maxPending ≤ pruned.size then (pruned, false) else (pruned.makeRoomFor clientIp, true)

variable (toUppercase : Text → Text)

/-- A challenge under an id, in the place of any other. -/
abbrev add (id : Text) (pending : Pending) : Store := store.insert id pending

/-- The second turn of `issue`, with the text of the image drawn between. -/
def file (id captcha dest clientIp : Text) (now : ℕ) : Store :=
  store.add id
    { answer := toUppercase captcha, dest, clientIp, expires := now + challengeTtl }

/-- `verify`. -/
def verify (id answer clientIp : Text) (now : ℕ) : Store × Answer :=
  match store.get id with
  | none => (store, .unknown)
  | some pending =>
      if pending.clientIp ≠ clientIp then (store, .unknown)
      else if pending.expires ≤ now then (store.erase id, .unknown)
      else if pending.answer = toUppercase answer.trim then (store.erase id, .right pending.dest)
      else (store.erase id, .wrong pending.dest)

section Contents

variable {store} {id other clientIp : Text} {pending : Pending} {now : ℕ}

theorem mem_own : id ∈ store.own clientIp ↔
    ∃ pending, store.get id = some pending ∧ pending.clientIp = clientIp := by
  rw [own, Finset.mem_filter, store.mem_keys]
  cases store.get id with
  | none => simp
  | some pending => simp

/-- A store that answers for less holds less, of every client too. -/
theorem own_subset {smaller : Store}
    (hless : ∀ id pending, smaller.get id = some pending → store.get id = some pending)
    (clientIp : Text) : smaller.own clientIp ⊆ store.own clientIp := by
  intro id hid
  obtain ⟨pending, hget, hclient⟩ := mem_own.mp hid
  exact mem_own.mpr ⟨pending, hless id pending hget, hclient⟩

theorem keys_subset {smaller : Store}
    (hless : ∀ id pending, smaller.get id = some pending → store.get id = some pending) :
    smaller.keys ⊆ store.keys := by
  intro id hid
  rw [Table.mem_keys] at hid ⊢
  obtain ⟨pending, hget⟩ := Option.isSome_iff_exists.mp hid
  rw [hless id pending hget]
  rfl

theorem get_of_get_erase (hget : (store.erase other).get id = some pending) :
    store.get id = some pending ∧ id ≠ other := by
  by_cases heq : id = other
  · subst heq
    rw [Table.get_erase_self] at hget
    contradiction
  · rw [Table.get_erase_of_ne _ heq] at hget
    exact ⟨hget, heq⟩

theorem get_of_get_erases {ids : List Text}
    (hget : (ids.foldl (fun store id => store.erase id) store).get id = some pending) :
    store.get id = some pending ∧ id ∉ ids := by
  induction ids generalizing store with
  | nil => exact ⟨hget, List.not_mem_nil⟩
  | cons first ids ih =>
      obtain ⟨herase, hnot⟩ := ih hget
      obtain ⟨hbefore, hne⟩ := get_of_get_erase herase
      exact ⟨hbefore, by simp [hne, hnot]⟩

theorem get_of_get_makeRoomFor (hget : (store.makeRoomFor clientIp).get id = some pending) :
    store.get id = some pending := by
  rw [makeRoomFor] at hget
  split at hget
  · exact (get_of_get_erases hget).1
  · exact hget

theorem get_of_get_prune (hget : (store.prune now).get id = some pending) :
    store.get id = some pending := by
  rw [prune] at hget
  split at hget
  · exact (Option.filter_eq_some_iff.mp hget).1
  · exact hget

/-- The first turn only takes challenges away. -/
theorem get_of_get_admits (hget : (store.admits clientIp now).1.get id = some pending) :
    store.get id = some pending := by
  rw [admits] at hget
  split at hget
  · exact get_of_get_prune hget
  · exact get_of_get_prune (get_of_get_makeRoomFor hget)

/-- So does an answer. -/
theorem get_of_get_verify {toUppercase : Text → Text} {answer : Text}
    (hget : (store.verify toUppercase other answer clientIp now).1.get id = some pending) :
    store.get id = some pending := by
  rw [verify] at hget
  split at hget
  · exact hget
  · split at hget
    · exact hget
    · split at hget
      · exact (get_of_get_erase hget).1
      · split at hget
        · exact (get_of_get_erase hget).1
        · exact (get_of_get_erase hget).1

/-- An answer other than unknown is given to the client the challenge waits for,
in time, and takes the challenge away. -/
theorem verify_answers {toUppercase : Text → Text} {answer : Text}
    (hanswer : (store.verify toUppercase id answer clientIp now).2 ≠ .unknown) :
    ∃ pending, store.get id = some pending ∧ pending.clientIp = clientIp ∧
      now < pending.expires ∧
      (store.verify toUppercase id answer clientIp now).1 = store.erase id ∧
      (store.verify toUppercase id answer clientIp now).2 =
        if pending.answer = toUppercase answer.trim then .right pending.dest
        else .wrong pending.dest := by
  rw [verify] at hanswer ⊢
  cases hget : store.get id with
  | none =>
      rw [hget] at hanswer
      exact absurd rfl hanswer
  | some pending =>
      rw [hget] at hanswer
      dsimp only at hanswer ⊢
      by_cases hclient : pending.clientIp = clientIp
      · by_cases hexpired : pending.expires ≤ now
        · rw [if_neg (not_not.mpr hclient), if_pos hexpired] at hanswer
          exact absurd rfl hanswer
        · use pending
          rw [if_neg (not_not.mpr hclient), if_neg hexpired]
          refine ⟨rfl, hclient, not_le.mp hexpired, ?_, ?_⟩
          · split
            · rfl
            · rfl
          · split
            · rfl
            · rfl
      · rw [if_pos hclient] at hanswer
        exact absurd rfl hanswer

end Contents

end Store

end EasyWaf.Challenge
