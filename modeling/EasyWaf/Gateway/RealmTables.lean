import Mathlib
import EasyWaf.Db.Tables

/-!
# The tables of realms and accounts

The rows of `auth_realms` and `auth_users`, as the keys of the two tables let
them be, and the statements that write them.  What a statement does to the
epochs is part of it: none lowers one, and one that changes an account raises
the account's.
-/

namespace EasyWaf.Gateway

open Db

structure RealmTables where
  realms : List AuthRealm
  users : List AuthUser
  /-- The highest id a realm ever had. -/
  lastId : ℤ
  ids : ∀ row ∈ realms, row.id ≤ lastId
  idsApart : realms.Pairwise fun left right => left.id ≠ right.id
  namesApart : realms.Pairwise fun left right => left.name ≠ right.name
  accountsApart : users.Pairwise fun left right =>
    ¬ (left.realmId = right.realmId ∧ left.username = right.username)
  epochs : ∀ user ∈ users, 0 ≤ user.epoch

namespace RealmTables

variable (tables : RealmTables)

def findRealm (name : Text) : Option AuthRealm := tables.realms.find? (·.name = name)

def findUser (realmId : ℤ) (username : Text) : Option AuthUser :=
  tables.users.find? fun user => user.realmId = realmId ∧ user.username = username

section Keys

variable {tables}

theorem eq_of_id_eq {left right : AuthRealm} (hleft : left ∈ tables.realms)
    (hright : right ∈ tables.realms) (hid : left.id = right.id) : left = right :=
  List.inj_on_of_nodup_map (List.pairwise_map.mpr tables.idsApart) hleft hright hid

theorem eq_of_name_eq {left right : AuthRealm} (hleft : left ∈ tables.realms)
    (hright : right ∈ tables.realms) (hname : left.name = right.name) : left = right :=
  List.inj_on_of_nodup_map (List.pairwise_map.mpr tables.namesApart) hleft hright hname

theorem eq_of_account_eq {left right : AuthUser} (hleft : left ∈ tables.users)
    (hright : right ∈ tables.users) (hrealm : left.realmId = right.realmId)
    (hname : left.username = right.username) : left = right := by
  have hnodup : (tables.users.map fun user => (user.realmId, user.username)).Nodup := by
    refine List.pairwise_map.mpr (tables.accountsApart.imp fun hapart heq => hapart ?_)
    exact ⟨congrArg Prod.fst heq, congrArg Prod.snd heq⟩
  exact List.inj_on_of_nodup_map hnodup hleft hright (Prod.ext hrealm hname)

end Keys

section Statements

/-- `INSERT INTO auth_realms`, with an id no realm ever had. -/
def insertRealm (row : AuthRealm) : Option RealmTables :=
  if hnew : ∀ other ∈ tables.realms, other.name ≠ row.name then
    some
      { realms := tables.realms ++ [{ row with id := tables.lastId + 1, epoch := 0 }]
        users := tables.users
        lastId := tables.lastId + 1
        ids := by
          simp only [List.mem_append, List.mem_singleton]
          rintro other (hother | rfl)
          · exact (tables.ids other hother).trans (by omega)
          · exact le_rfl
        idsApart := by
          rw [List.pairwise_append]
          refine ⟨tables.idsApart, List.pairwise_singleton _ _, ?_⟩
          simp only [List.mem_singleton, forall_eq]
          exact fun other hother => ((tables.ids other hother).trans_lt (Int.lt_succ _)).ne
        namesApart := by
          rw [List.pairwise_append]
          refine ⟨tables.namesApart, List.pairwise_singleton _ _, ?_⟩
          simpa only [List.mem_singleton, forall_eq] using hnew
        accountsApart := tables.accountsApart
        epochs := tables.epochs }
  else none

/-- What a statement sets of a realm: neither its id nor its name, and no lower
epoch. -/
structure RealmChange where
  set : AuthRealm → AuthRealm
  id : ∀ row, (set row).id = row.id
  name : ∀ row, (set row).name = row.name
  epoch : ∀ row, row.epoch ≤ (set row).epoch

/-- `UPDATE auth_realms SET … WHERE name = ?`. -/
def updateRealm (name : Text) (change : RealmChange) : RealmTables :=
  let set (row : AuthRealm) := if row.name = name then change.set row else row
  have hid (row : AuthRealm) : (set row).id = row.id := by
    dsimp only [set]
    split
    · exact change.id row
    · rfl
  have hname (row : AuthRealm) : (set row).name = row.name := by
    dsimp only [set]
    split
    · exact change.name row
    · rfl
  { realms := tables.realms.map set
    users := tables.users
    lastId := tables.lastId
    ids := by simpa only [List.forall_mem_map, hid] using tables.ids
    idsApart := by simpa only [List.pairwise_map, hid] using tables.idsApart
    namesApart := by simpa only [List.pairwise_map, hname] using tables.namesApart
    accountsApart := tables.accountsApart
    epochs := tables.epochs }

/-- `DELETE FROM auth_realms`, and their accounts with them. -/
def deleteRealms (gone : AuthRealm → Bool) : RealmTables where
  realms := tables.realms.filter fun row => !gone row
  users := tables.users.filter fun user =>
    !tables.realms.any fun row => row.id = user.realmId ∧ gone row
  lastId := tables.lastId
  ids := fun row hrow => tables.ids row (List.mem_of_mem_filter hrow)
  idsApart := tables.idsApart.filter _
  namesApart := tables.namesApart.filter _
  accountsApart := tables.accountsApart.filter _
  epochs := fun user huser => tables.epochs user (List.mem_of_mem_filter huser)

/-- `INSERT INTO auth_users`. -/
def insertUser (realmId : ℤ) (username passwordHash : Text) (enabled : Bool) :
    Option RealmTables :=
  if hnew : ∀ other ∈ tables.users, ¬ (other.realmId = realmId ∧ other.username = username) then
    some
      { realms := tables.realms
        users := tables.users ++ [{ realmId, username, passwordHash, enabled, epoch := 0 }]
        lastId := tables.lastId
        ids := tables.ids
        idsApart := tables.idsApart
        namesApart := tables.namesApart
        accountsApart := by
          rw [List.pairwise_append]
          refine ⟨tables.accountsApart, List.pairwise_singleton _ _, ?_⟩
          simpa only [List.mem_singleton, forall_eq] using hnew
        epochs := by
          simp only [List.mem_append, List.mem_singleton]
          rintro user (huser | rfl)
          · exact tables.epochs user huser
          · exact le_rfl }
  else none

/-- What a statement sets of an account: not whose it is, and nothing without
raising its epoch. -/
structure UserChange where
  set : AuthUser → AuthUser
  realmId : ∀ user, (set user).realmId = user.realmId
  username : ∀ user, (set user).username = user.username
  epoch : ∀ user, set user = user ∨ user.epoch < (set user).epoch

/-- `UPDATE auth_users SET … WHERE realm_id = ? AND username = ?`. -/
def updateUser (realmId : ℤ) (username : Text) (change : UserChange) : RealmTables :=
  let set (user : AuthUser) :=
    if user.realmId = realmId ∧ user.username = username then change.set user else user
  have hrealmId (user : AuthUser) : (set user).realmId = user.realmId := by
    dsimp only [set]
    split
    · exact change.realmId user
    · rfl
  have husername (user : AuthUser) : (set user).username = user.username := by
    dsimp only [set]
    split
    · exact change.username user
    · rfl
  have hepoch (user : AuthUser) : user.epoch ≤ (set user).epoch := by
    dsimp only [set]
    split
    · exact (change.epoch user).elim (fun hsame => (congrArg _ hsame).ge) le_of_lt
    · exact le_rfl
  { realms := tables.realms
    users := tables.users.map set
    lastId := tables.lastId
    ids := tables.ids
    idsApart := tables.idsApart
    namesApart := tables.namesApart
    accountsApart := by
      simpa only [List.pairwise_map, hrealmId, husername] using tables.accountsApart
    epochs := by
      simp only [List.forall_mem_map]
      exact fun user huser => (tables.epochs user huser).trans (hepoch user) }

/-- `DELETE FROM auth_users`. -/
def deleteUsers (gone : AuthUser → Bool) : RealmTables where
  realms := tables.realms
  users := tables.users.filter fun user => !gone user
  lastId := tables.lastId
  ids := tables.ids
  idsApart := tables.idsApart
  namesApart := tables.namesApart
  accountsApart := tables.accountsApart.filter _
  epochs := fun user huser => tables.epochs user (List.mem_of_mem_filter huser)

end Statements

end RealmTables

end EasyWaf.Gateway
