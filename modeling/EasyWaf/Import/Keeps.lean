import EasyWaf.Import.Application
import EasyWaf.Management.LoginSessions

/-!
# What an import keeps

An import keeps the accounts that are not in its file, the standing of whoever
imports and the rows it does not write, all of it as they were when it took its
copy.  They are as they were before the restart where nothing of that was written
since.
-/

namespace EasyWaf.Import

open Management Machine

variable {Config Rest Exported : Type}

/-! ## What is kept -/

def Document.names (document : Document Exported) : List Text :=
  document.accounts.map (·.username)

/-- What an account may do, and its sessions. -/
def standing (user : User) : ℤ × Role × Bool × ℤ :=
  (user.id, user.role, user.enabled, user.sessionEpoch)

/-- The accounts that no name of the file is that of, and the importer's standing. -/
structure UsersKept (names : List Text) (importer : Text) (before after : Users) : Prop where
  accounts : ∀ user, user.username ∉ names → (user ∈ after.rows ↔ user ∈ before.rows)
  standing : (after.findName importer).map standing = (before.findName importer).map standing

structure Kept (document : Document Exported) (importer : Text)
    (before after : Database Config Rest) : Prop where
  users : UsersKept document.names importer before.users after.users
  rest : after.rest = before.rest

/-- No session that was ended is in force again. -/
def StaysEnded (before after : Users) : Prop :=
  ∀ cookie, LoginEnded cookie before → LoginEnded cookie after

namespace UsersKept

variable {names : List Text} {importer : Text} {users middle next : Users}

theorem refl : UsersKept names importer users users := ⟨fun _ _ => Iff.rfl, rfl⟩

theorem symm (hkept : UsersKept names importer users next) :
    UsersKept names importer next users :=
  ⟨fun user hname => (hkept.accounts user hname).symm, hkept.standing.symm⟩

theorem trans (first : UsersKept names importer users middle)
    (second : UsersKept names importer middle next) : UsersKept names importer users next :=
  ⟨fun user hname => (second.accounts user hname).trans (first.accounts user hname),
    second.standing.trans first.standing⟩

/-- A statement on the rows of a name leaves the others. -/
theorem update {username : Text} (hname : username ∈ names) (change : Users.Change)
    (hown : username = importer → ∀ user, Import.standing (change.set user) = Import.standing user) :
    UsersKept names importer users (users.update (·.username = username) change) where
  accounts := by
    intro user hnot
    have hne : user.username ≠ username := fun h => hnot (h ▸ hname)
    constructor
    · intro hmem
      obtain ⟨held, hheld, -, ⟨hcondition, rfl⟩ | ⟨-, rfl⟩⟩ := Users.exists_of_mem_update hmem
      · rw [change.username] at hne
        exact absurd (of_decide_eq_true hcondition) hne
      · exact hheld
    · exact fun hmem => Users.mem_update_of_not hmem (decide_eq_false hne)
  standing := by
    have hset (user : User) :
        (if user.username = username then change.set user else user).username = user.username := by
      split
      · exact change.username user
      · rfl
    have hfind : (users.update (·.username = username) change).findName importer =
        (users.findName importer).map fun user =>
          if user.username = username then change.set user else user := by
      simp only [Users.findName, Users.update, List.find?_map, Function.comp_def, hset,
        decide_eq_true_eq]
    rw [hfind, Option.map_map]
    cases hfound : users.findName importer with
    | none => rfl
    | some user =>
        simp only [Option.map_some, Function.comp_apply, Option.some.injEq]
        split
        · next hmatch =>
            exact hown (hmatch.symm.trans (Users.findName_eq_some hfound).2) user
        · rfl

theorem insert {username passwordHash : Text} {role : Role} {enabled : Bool}
    (hname : username ∈ names) (hother : username ≠ importer)
    (hinsert : users.insert username passwordHash role enabled = some next) :
    UsersKept names importer users next where
  accounts := by
    intro user hnot
    rw [(Users.insert_eq_some hinsert).2, List.mem_append, List.mem_singleton, or_iff_left]
    rintro rfl
    exact hnot hname
  standing := by
    rw [Users.findName, (Users.insert_eq_some hinsert).2, List.find?_append, List.find?_singleton,
      if_neg (by simpa using hother), Option.or_none, Users.findName]

/-- What an import makes of one account. -/
theorem importAccount {account : FileAccount} (hname : account.username ∈ names) :
    UsersKept names importer users (importAccount importer users account) := by
  rw [Import.importAccount]
  split
  · exact update hname _ fun _ _ => rfl
  · next hother =>
      dsimp only
      split
      · next hinsert => exact insert hname hother hinsert
      · exact update hname _ fun h => absurd h hother

end UsersKept

section Apply

variable {rules : Rules Config Rest Exported} {document : Document Exported} {importer : Text}
variable {database middle next : Database Config Rest}

theorem Kept.refl : Kept document importer database database := ⟨.refl, rfl⟩

theorem Kept.symm (hkept : Kept document importer database next) :
    Kept document importer next database :=
  ⟨hkept.users.symm, hkept.rest.symm⟩

theorem Kept.trans (first : Kept document importer database middle)
    (second : Kept document importer middle next) : Kept document importer database next :=
  ⟨first.users.trans second.users, second.rest.trans first.rest⟩

theorem StaysEnded.trans {users middle next : Users} (first : StaysEnded users middle)
    (second : StaysEnded middle next) : StaysEnded users next :=
  fun cookie hended => second cookie (first cookie hended)

/-- An import lowers no epoch and gives no id away twice. -/
theorem staysEnded_importAccount {users : Users} (account : FileAccount) :
    StaysEnded users (importAccount importer users account) :=
  fun _ hended => hended.onward (onward_importAccount importer account hended.known)

theorem kept_of_runAll {statements : List (Statement Config)}
    (hnames : ∀ account, .account account ∈ statements → account.username ∈ document.names)
    (hrun : runAll importer statements database = some next) :
    Kept document importer database next ∧ StaysEnded database.users next.users := by
  induction statements generalizing database with
  | nil =>
      obtain rfl := Option.some.inj hrun
      exact ⟨.refl, fun _ h => h⟩
  | cons statement statements ih =>
      rw [runAll, List.foldlM_cons] at hrun
      obtain ⟨middle, hstatement, hrest⟩ := Option.bind_eq_some_iff.mp hrun
      obtain ⟨hkept, hended⟩ := ih (fun account hmem => hnames account (.tail _ hmem)) hrest
      have hfirst : Kept document importer database middle ∧
          StaysEnded database.users middle.users := by
        cases statement with
        | config write =>
            obtain ⟨config, -, rfl⟩ := Option.map_eq_some_iff.mp hstatement
            exact ⟨⟨.refl, rfl⟩, fun _ h => h⟩
        | account account =>
            obtain rfl := Option.some.inj hstatement
            exact ⟨⟨.importAccount (hnames account (.head _)), rfl⟩,
              staysEnded_importAccount account⟩
      exact ⟨hfirst.1.trans hkept, hfirst.2.trans hended⟩

/-- `apply` keeps what it says it keeps. -/
theorem kept_of_apply (happly : apply rules document importer database = some next) :
    Kept document importer database next ∧ StaysEnded database.users next.users := by
  apply kept_of_runAll _ happly
  intro account hmem
  rw [statements, List.mem_append, List.mem_map, List.mem_map] at hmem
  obtain ⟨write, -, hwrite⟩ | ⟨row, hrow, haccount⟩ := hmem
  · cases hwrite
  · obtain rfl : row = account := by simpa using haccount
    exact List.mem_map_of_mem hrow

end Apply

end EasyWaf.Import
