import Mathlib
import EasyWaf.Text.Basic

/-!
# The accounts of the management interface

The rows of `users`, as the keys of the table let them be, and the statements
that write them.  No statement lowers a session epoch, and no account gets the id
of one that is gone.
-/

namespace EasyWaf.Management

inductive Role
  | admin
  | viewer
  deriving DecidableEq

/-- The roles of `is_known_role`. -/
def readRole (text : Text) : Option Role :=
  if text = "admin".toList then some .admin
  else if text = "viewer".toList then some .viewer
  else none

structure User where
  id : ℤ
  username : Text
  passwordHash : Text
  role : Role
  enabled : Bool
  /-- Raised to end the account's sessions. -/
  sessionEpoch : ℤ
  deriving DecidableEq

/-- An enabled administrator. -/
def User.administers (user : User) : Bool := user.role = .admin && user.enabled

structure Users where
  rows : List User
  /-- The highest id an account ever had. -/
  lastId : ℤ
  ids : ∀ user ∈ rows, user.id ≤ lastId
  idsApart : rows.Pairwise fun left right => left.id ≠ right.id
  namesApart : rows.Pairwise fun left right => left.username ≠ right.username

namespace Users

variable (users : Users)

def find (id : ℤ) : Option User := users.rows.find? (·.id = id)

def findName (username : Text) : Option User := users.rows.find? (·.username = username)

/-- `INSERT INTO users`, unless the name is taken. -/
def insert (username passwordHash : Text) (role : Role) (enabled : Bool) : Option Users :=
  if hnew : ∀ other ∈ users.rows, other.username ≠ username then
    some
      { rows := users.rows ++
          [{ id := users.lastId + 1, username, passwordHash, role, enabled, sessionEpoch := 0 }]
        lastId := users.lastId + 1
        ids := by
          simp only [List.mem_append, List.mem_singleton]
          rintro user (huser | rfl)
          · exact (users.ids user huser).trans (Int.lt_succ _).le
          · exact le_rfl
        idsApart := by
          apply List.pairwise_append.mpr
          refine ⟨users.idsApart, List.pairwise_singleton _ _, ?_⟩
          simp only [List.mem_singleton, forall_eq]
          exact fun user huser => ((users.ids user huser).trans_lt (Int.lt_succ _)).ne
        namesApart := by
          apply List.pairwise_append.mpr
          refine ⟨users.namesApart, List.pairwise_singleton _ _, ?_⟩
          simpa only [List.mem_singleton, forall_eq] using hnew }
  else none

/-- What a statement sets of an account: neither its id nor its name, and no lower
epoch. -/
structure Change where
  set : User → User
  id : ∀ user, (set user).id = user.id
  username : ∀ user, (set user).username = user.username
  sessionEpoch : ∀ user, user.sessionEpoch ≤ (set user).sessionEpoch

/-- `UPDATE users SET …`, the accounts of a condition. -/
def update (condition : User → Bool) (change : Change) : Users :=
  let set (user : User) := if condition user then change.set user else user
  have hid (user : User) : (set user).id = user.id := by
    dsimp only [set]
    split
    · exact change.id user
    · rfl
  have husername (user : User) : (set user).username = user.username := by
    dsimp only [set]
    split
    · exact change.username user
    · rfl
  { rows := users.rows.map set
    lastId := users.lastId
    ids := by simpa only [List.forall_mem_map, hid] using users.ids
    idsApart := by simpa only [List.pairwise_map, hid] using users.idsApart
    namesApart := by simpa only [List.pairwise_map, husername] using users.namesApart }

/-- `DELETE FROM users WHERE id = ?`. -/
def delete (id : ℤ) : Users where
  rows := users.rows.filter (·.id ≠ id)
  lastId := users.lastId
  ids := fun user huser => users.ids user (List.mem_of_mem_filter huser)
  idsApart := users.idsApart.filter _
  namesApart := users.namesApart.filter _

def setRole (role : Role) : Change where
  set user := { user with role }
  id _ := rfl
  username _ := rfl
  sessionEpoch _ := Int.le_refl _

def setEnabled (enabled : Bool) : Change where
  set user := { user with enabled }
  id _ := rfl
  username _ := rfl
  sessionEpoch _ := Int.le_refl _

def setPassword (passwordHash : Text) : Change where
  set user := { user with passwordHash }
  id _ := rfl
  username _ := rfl
  sessionEpoch _ := Int.le_refl _

/-- `session_epoch = session_epoch + 1`. -/
def raiseEpoch : Change where
  set user := { user with sessionEpoch := user.sessionEpoch + 1 }
  id _ := rfl
  username _ := rfl
  sessionEpoch user := (Int.lt_succ user.sessionEpoch).le

variable {users} {next : Users}

theorem eq_of_id_eq {left right : User} (hleft : left ∈ users.rows) (hright : right ∈ users.rows)
    (hid : left.id = right.id) : left = right :=
  List.inj_on_of_nodup_map (List.pairwise_map.mpr users.idsApart) hleft hright hid

theorem find_eq_some {id : ℤ} {user : User} (hfind : users.find id = some user) :
    user ∈ users.rows ∧ user.id = id :=
  ⟨List.mem_of_find?_eq_some hfind, by simpa using List.find?_some hfind⟩

theorem findName_eq_some {username : Text} {user : User}
    (hfind : users.findName username = some user) : user ∈ users.rows ∧ user.username = username :=
  ⟨List.mem_of_find?_eq_some hfind, by simpa using List.find?_some hfind⟩

theorem insert_eq_some {username passwordHash : Text} {role : Role} {enabled : Bool}
    (hinsert : users.insert username passwordHash role enabled = some next) :
    next.lastId = users.lastId + 1 ∧
      next.rows = users.rows ++ [⟨users.lastId + 1, username, passwordHash, role, enabled, 0⟩] := by
  rw [insert] at hinsert
  split at hinsert
  · obtain rfl := Option.some.inj hinsert
    exact ⟨rfl, rfl⟩
  · contradiction

/-- A row of the accounts that were updated is one of them as it was, or as it was
set. -/
theorem exists_of_mem_update {condition : User → Bool} {change : Change} {user' : User}
    (huser' : user' ∈ (users.update condition change).rows) :
    ∃ user ∈ users.rows, user.id = user'.id ∧
      (condition user = true ∧ user' = change.set user ∨
        condition user = false ∧ user' = user) := by
  obtain ⟨user, huser, rfl⟩ := List.mem_map.mp huser'
  refine ⟨user, huser, ?_⟩
  split
  · next hcondition => exact ⟨(change.id user).symm, .inl ⟨hcondition, rfl⟩⟩
  · next hcondition => exact ⟨rfl, .inr ⟨Bool.not_eq_true _ ▸ hcondition, rfl⟩⟩

theorem mem_update_of_not {condition : User → Bool} {change : Change} {user : User}
    (huser : user ∈ users.rows) (hcondition : condition user = false) :
    user ∈ (users.update condition change).rows :=
  List.mem_map.mpr ⟨user, huser, by simp [hcondition]⟩

end Users

end EasyWaf.Management
