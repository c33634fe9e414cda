import EasyWaf.Import.Application
import EasyWaf.Management.Accounts

/-!
# Management sessions that were ended

A session cookie names an account by its id and carries its session epoch.  The
forms raise the epoch with everything that ends a session; an import that changes
an account's password, or suspends it, does not.
-/

namespace EasyWaf.Management

open EasyWaf.Core Import Machine Procedure

/-- What a signed session cookie says. -/
structure SessionData where
  userId : ℤ
  username : Text
  role : Role
  epoch : ℤ
  issued : ℤ
  deriving DecidableEq

/-- `SESSION_LIFETIME_SECS`. -/
def sessionLifetimeSecs : ℤ := 8 * 3600

def withinLifetime (issued now : ℤ) : Bool :=
  0 < issued && issued ≤ now + 60 && now - issued < sessionLifetimeSecs

/-- The session, checked against the account it names. -/
def authenticate (users : Users) (cookie : SessionData) (now : ℤ) : Option SessionData :=
  match users.find cookie.userId with
  | none => none
  | some row =>
      if !row.enabled || row.sessionEpoch ≠ cookie.epoch then none
      else if !withinLifetime cookie.issued now then none
      else some { cookie with role := row.role }

/-- The cookie of a sign-in; `verify` is that of bcrypt. -/
def verifyCredentials (verify : Text → Text → Bool) (users : Users) (username password : Text)
    (now : ℤ) : Option SessionData :=
  match users.findName username with
  | none => none
  | some row =>
      if !verify password row.passwordHash then none
      else if !row.enabled then none
      else
        some
          { userId := row.id, username, role := row.role, epoch := row.sessionEpoch, issued := now }

/-- What is done to accounts. -/
inductive AccountOperation
  | create (form : NewAccountForm) (hashed : Text)
  | role (id : ℤ) (role : Text)
  | toggle (session id : ℤ)
  | password (id : ℤ) (form : PasswordForm) (hashed : Text)
  | signout (id : ℤ)
  | delete (session id : ℤ)
  | ownPassword (username : Text) (form : OwnPasswordForm) (hashed : Text)
  | importFile (importer : Text) (accounts : List FileAccount)

section Operate

variable (verify : Text → Text → Bool)

/-- The accounts after an operation. -/
def operate (users : Users) : AccountOperation → Option Users
  | .create form hashed => some ((postAccountCreate form hashed).run true users).1
  | .role id role => some ((postAccountRole id role).run true users).1
  | .toggle session id => some ((postAccountToggle session id).run true users).1
  | .password id form hashed => some ((postAccountPassword id form hashed).run true users).1
  | .signout id => some ((postAccountSignout id).run true users).1
  | .delete session id => some ((postAccountDelete session id).run true users).1
  | .ownPassword username form hashed =>
      some ((postOwnPassword verify username form hashed).run true users).1
  | .importFile importer accounts =>
      if (accountBlockersFrom [] accounts).isEmpty then
        some (importAccounts importer users accounts)
      else none

end Operate

/-- An operation took the account away, changed its password, suspended it or ended
its sessions. -/
def Ends (id : ℤ) (users next : Users) : Prop :=
  ∃ user ∈ users.rows, user.id = id ∧
    ∀ user' ∈ next.rows, user'.id = id →
      user'.passwordHash ≠ user.passwordHash ∨ (user.enabled ∧ !user'.enabled) ∨
        user.sessionEpoch < user'.sessionEpoch

/-- Epochs are not lowered, and no account has the id of one that is gone. -/
structure Onward (id : ℤ) (users next : Users) : Prop where
  lastId : users.lastId ≤ next.lastId
  rows : ∀ user' ∈ next.rows, user'.id = id →
    ∃ user ∈ users.rows, user.id = id ∧ user.sessionEpoch ≤ user'.sessionEpoch

/-- The account is as it was but for what ends no session, or its epoch is
raised. -/
def EndsRaised (id : ℤ) (users next : Users) : Prop :=
  ∀ user ∈ users.rows, user.id = id → ∀ user' ∈ next.rows, user'.id = id →
    (user'.passwordHash = user.passwordHash ∧ (user.enabled → user'.enabled)) ∨
      user.sessionEpoch < user'.sessionEpoch

section Statements

variable {id : ℤ} {users middle next : Users}

theorem Onward.refl : Onward id users users where
  lastId := le_rfl
  rows := fun user huser hid => ⟨user, huser, hid, le_rfl⟩

theorem Onward.trans (first : Onward id users middle) (second : Onward id middle next) :
    Onward id users next where
  lastId := first.lastId.trans second.lastId
  rows := by
    intro user'' huser'' hid''
    obtain ⟨user', huser', hid', hle'⟩ := second.rows user'' huser'' hid''
    obtain ⟨user, huser, hid, hle⟩ := first.rows user' huser' hid'
    exact ⟨user, huser, hid, hle.trans hle'⟩

/-- An account that is added has an id of its own. -/
theorem mem_of_mem_insert {username passwordHash : Text} {role : Role} {enabled : Bool}
    (hinsert : users.insert username passwordHash role enabled = some next)
    (hknown : id ≤ users.lastId) {user' : User} (huser' : user' ∈ next.rows) (hid' : user'.id = id) :
    user' ∈ users.rows := by
  rw [(Users.insert_eq_some hinsert).2, List.mem_append, List.mem_singleton] at huser'
  rcases huser' with huser' | rfl
  · exact huser'
  · have hnew : users.lastId + 1 = id := hid'
    omega

theorem onward_insert {username passwordHash : Text} {role : Role} {enabled : Bool}
    (hinsert : users.insert username passwordHash role enabled = some next)
    (hknown : id ≤ users.lastId) : Onward id users next where
  lastId := (Users.insert_eq_some hinsert).1 ▸ (Int.lt_succ _).le
  rows := fun user' huser' hid' =>
    ⟨user', mem_of_mem_insert hinsert hknown huser' hid', hid', le_rfl⟩

theorem onward_update (condition : User → Bool) (change : Users.Change) :
    Onward id users (users.update condition change) where
  lastId := le_rfl
  rows := by
    intro user' huser' hid'
    obtain ⟨user, huser, hid, hset⟩ := Users.exists_of_mem_update huser'
    refine ⟨user, huser, hid.trans hid', ?_⟩
    rcases hset with ⟨_, rfl⟩ | ⟨_, rfl⟩
    · exact change.sessionEpoch user
    · exact le_rfl

theorem onward_delete (gone : ℤ) : Onward id users (users.delete gone) where
  lastId := le_rfl
  rows := fun user huser hid => ⟨user, List.mem_of_mem_filter huser, hid, le_rfl⟩

/-- What a raised epoch ends of the accounts a statement changed before. -/
theorem endsRaised_raise {changed : ℤ} {condition : User → Bool} {change : Users.Change}
    (hcondition : ∀ user ∈ users.rows, condition user = true → user.id = changed) :
    EndsRaised id users
      ((users.update condition change).update (·.id = changed) Users.raiseEpoch) := by
  intro user huser hid user'' huser'' hid''
  obtain ⟨user', huser', hid', hraise⟩ := Users.exists_of_mem_update huser''
  obtain ⟨held, hheld, hheldId, hset⟩ := Users.exists_of_mem_update huser'
  obtain rfl := Users.eq_of_id_eq hheld huser (((hheldId.trans hid').trans hid'').trans hid.symm)
  rcases hraise with ⟨_, rfl⟩ | ⟨hnot, rfl⟩
  · right
    rcases hset with ⟨_, rfl⟩ | ⟨_, rfl⟩
    · exact (change.sessionEpoch held).trans_lt (Int.lt_succ _)
    · exact Int.lt_succ _
  · left
    rcases hset with ⟨hheldCondition, rfl⟩ | ⟨_, rfl⟩
    · rw [change.id, hcondition held huser hheldCondition] at hnot
      simp at hnot
    · exact ⟨rfl, fun h => h⟩

theorem endsRaised_refl : EndsRaised id users users := by
  intro user huser hid user' huser' hid'
  rw [Users.eq_of_id_eq huser' huser (hid'.trans hid.symm)]
  exact .inl ⟨rfl, fun h => h⟩

/-- A statement that neither changes a password nor suspends ends no session. -/
theorem endsRaised_update {condition : User → Bool} {change : Users.Change}
    (hchange : ∀ user, (change.set user).passwordHash = user.passwordHash ∧
      (user.enabled → (change.set user).enabled)) :
    EndsRaised id users (users.update condition change) := by
  intro user huser hid user' huser' hid'
  obtain ⟨held, hheld, hheldId, hset⟩ := Users.exists_of_mem_update huser'
  obtain rfl := Users.eq_of_id_eq hheld huser ((hheldId.trans hid').trans hid.symm)
  rcases hset with ⟨_, rfl⟩ | ⟨_, rfl⟩
  · exact .inl (hchange held)
  · exact .inl ⟨rfl, fun h => h⟩

theorem endsRaised_of_subset (hsubset : ∀ user ∈ next.rows, user ∈ users.rows) :
    EndsRaised id users next :=
  fun user huser hid user' huser' hid' => endsRaised_refl user huser hid user'
    (hsubset user' huser') hid'

end Statements

/-- What a form leaves of an account's sessions. -/
def Accounted (id : ℤ) (users next : Users) : Prop := Onward id users next ∧ EndsRaised id users next

section Forms

variable {id : ℤ} {users : Users}

theorem accounted_refl : Accounted id users users := ⟨.refl, endsRaised_refl⟩

theorem accounted_update {condition : User → Bool} {change : Users.Change}
    (hchange : ∀ user, (change.set user).passwordHash = user.passwordHash ∧
      (user.enabled → (change.set user).enabled)) :
    Accounted id users (users.update condition change) :=
  ⟨onward_update _ _, endsRaised_update hchange⟩

theorem accounted_raise {changed : ℤ} {condition : User → Bool} {change : Users.Change}
    (hcondition : ∀ user ∈ users.rows, condition user = true → user.id = changed) :
    Accounted id users
      ((users.update condition change).update (·.id = changed) Users.raiseEpoch) :=
  ⟨(onward_update _ _).trans (onward_update _ _), endsRaised_raise hcondition⟩

theorem accounted_endAllSessions (changed : ℤ) :
    Accounted id users ((endAllSessions changed).run true users).1 :=
  accounted_update fun _ => ⟨rfl, fun h => h⟩

theorem accounted_changeAndEndSessions (changed : ℤ) (change : Users.Change) :
    Accounted id users ((changeAndEndSessions changed change).run true users).1 := by
  rw [changeAndEndSessions, statement, run]
  simp only [if_true]
  split
  · next hgone =>
      refine ⟨onward_update _ _, fun user huser hid user' huser' hid' => .inl ?_⟩
      obtain ⟨held, hheld, hheldId, hset⟩ := Users.exists_of_mem_update huser'
      rcases hset with ⟨hchanged, _⟩ | ⟨_, rfl⟩
      · have hnot := List.find?_eq_none.mp (Option.isNone_iff_eq_none.mp hgone) held hheld
        exact absurd hchanged hnot
      · rw [Users.eq_of_id_eq hheld huser (hid'.trans hid.symm)]
        exact ⟨rfl, fun h => h⟩
  · exact accounted_raise fun _ _ hchanged => of_decide_eq_true hchanged

/-- What the check for administrators lets through, or nothing. -/
theorem accounted_wouldOrphan {target : ℤ} {what : Text} {go : Handler}
    (hgo : Accounted id users (go.run true users).1) :
    Accounted id users ((wouldOrphan target what go).run true users).1 := by
  rw [wouldOrphan, query, statement, run]
  simp only [if_true, id_eq]
  split
  · exact hgo
  · rw [query, statement, run]
    simp only [if_true, id_eq]
    split
    · exact accounted_refl
    · exact hgo

theorem accounted_postAccountCreate (form : NewAccountForm) (hashed : Text)
    (hknown : id ≤ users.lastId) :
    Accounted id users ((postAccountCreate form hashed).run true users).1 := by
  rw [postAccountCreate]
  split
  · exact accounted_refl
  · split
    · exact accounted_refl
    · split
      · exact accounted_refl
      · next role _ _ _ =>
          rw [statement, run]
          simp only [if_true]
          cases hinsert : users.insert form.username.trim hashed role true with
          | none => exact accounted_refl
          | some next =>
              exact ⟨onward_insert hinsert hknown, fun user huser hid user' huser' hid' =>
                endsRaised_refl user huser hid user'
                  (mem_of_mem_insert hinsert hknown huser' hid') hid'⟩

theorem accounted_postAccountToggle (session target : ℤ) :
    Accounted id users ((postAccountToggle session target).run true users).1 := by
  rw [postAccountToggle]
  split
  · exact accounted_refl
  · rw [query, statement, run]
    simp only [if_true, id_eq]
    split
    · exact accounted_refl
    · split
      · apply accounted_wouldOrphan
        exact accounted_raise fun _ _ hchanged => of_decide_eq_true hchanged
      · exact accounted_update fun _ => ⟨rfl, fun _ => rfl⟩

theorem accounted_postAccountDelete (session target : ℤ) :
    Accounted id users ((postAccountDelete session target).run true users).1 := by
  rw [postAccountDelete]
  split
  · exact accounted_refl
  · apply accounted_wouldOrphan
    have hdelete : Accounted id users (users.delete target) :=
      ⟨onward_delete target, endsRaised_of_subset fun _ huser => List.mem_of_mem_filter huser⟩
    rw [statement, run]
    simp only [if_true]
    split <;> exact hdelete

/-- The accounts with a name are those with the id of one of them. -/
theorem id_eq_of_username_eq {user held : User} (huser : user ∈ users.rows)
    (hheld : held ∈ users.rows) (hname : held.username = user.username) : held.id = user.id :=
  congrArg User.id
    (List.inj_on_of_nodup_map (List.pairwise_map.mpr users.namesApart) hheld huser hname)

theorem accounted_postOwnPassword (verify : Text → Text → Bool) (username : Text)
    (form : OwnPasswordForm) (hashed : Text) :
    Accounted id users ((postOwnPassword verify username form hashed).run true users).1 := by
  rw [postOwnPassword, query, statement, run]
  simp only [if_true, id_eq]
  split
  · exact accounted_refl
  · next stored hstored =>
      split
      · exact accounted_refl
      · split
        · exact accounted_refl
        · rw [statement, run, query, statement, if_pos rfl, if_pos rfl, run]
          simp only [if_true, id_eq]
          obtain ⟨hmem, hname⟩ := Users.findName_eq_some hstored
          have hset : (Users.setPassword hashed).set stored ∈
              (users.update (·.username = username) (Users.setPassword hashed)).rows :=
            List.mem_map.mpr ⟨stored, hmem, if_pos (decide_eq_true hname)⟩
          split
          · next hnone =>
              have hnot := List.find?_eq_none.mp hnone _ hset
              exact absurd (decide_eq_true hname) hnot
          · next user huser =>
              obtain ⟨hfound, hfoundName⟩ := Users.findName_eq_some huser
              have hid : user.id = stored.id :=
                show user.id = ((Users.setPassword hashed).set stored).id from
                  id_eq_of_username_eq hset hfound (hfoundName.trans hname.symm)
              rw [hid]
              exact accounted_raise fun held hheld hheldName =>
                id_eq_of_username_eq hmem hheld ((of_decide_eq_true hheldName).trans hname.symm)

/-- A form ends an account's sessions with its epoch. -/
theorem accounted_operate {verify : Text → Text → Bool} {operation : AccountOperation}
    {next : Users} (hform : ∀ importer accounts, operation ≠ .importFile importer accounts)
    (hknown : id ≤ users.lastId) (hstep : operate verify users operation = some next) :
    Accounted id users next := by
  cases operation with
  | create form hashed =>
      exact Option.some.inj hstep ▸ accounted_postAccountCreate form hashed hknown
  | role target role =>
      obtain rfl := Option.some.inj hstep
      rw [postAccountRole]
      split
      · exact accounted_refl
      · exact accounted_wouldOrphan (accounted_changeAndEndSessions _ _)
      · exact accounted_changeAndEndSessions _ _
  | toggle session target =>
      exact Option.some.inj hstep ▸ accounted_postAccountToggle session target
  | password target form hashed =>
      obtain rfl := Option.some.inj hstep
      rw [postAccountPassword]
      split
      · exact accounted_refl
      · exact accounted_changeAndEndSessions _ _
  | signout target =>
      obtain rfl := Option.some.inj hstep
      rw [postAccountSignout, query, statement, run]
      simp only [if_true, id_eq]
      split
      · exact accounted_refl
      · exact accounted_endAllSessions target
  | delete session target =>
      exact Option.some.inj hstep ▸ accounted_postAccountDelete session target
  | ownPassword username form hashed =>
      exact Option.some.inj hstep ▸ accounted_postOwnPassword verify username form hashed
  | importFile importer accounts => exact absurd rfl (hform importer accounts)

theorem onward_importAccount (importer : Text) (account : FileAccount) (hknown : id ≤ users.lastId) :
    Onward id users (importAccount importer users account) := by
  rw [importAccount]
  split
  · exact onward_update _ _
  · dsimp only
    split
    · next hinsert => exact onward_insert hinsert hknown
    · exact onward_update _ _

theorem onward_importAccounts (importer : Text) (accounts : List FileAccount)
    (hknown : id ≤ users.lastId) : Onward id users (importAccounts importer users accounts) := by
  rw [importAccounts]
  induction accounts generalizing users with
  | nil => exact .refl
  | cons account accounts ih =>
      have hfirst := onward_importAccount importer account hknown
      exact hfirst.trans (ih (hknown.trans hfirst.lastId))

/-- No operation lowers an epoch or gives an id away twice. -/
theorem onward_operate {verify : Text → Text → Bool} {operation : AccountOperation} {next : Users}
    (hknown : id ≤ users.lastId) (hstep : operate verify users operation = some next) :
    Onward id users next := by
  by_cases hform : ∀ importer accounts, operation ≠ .importFile importer accounts
  · exact (accounted_operate hform hknown hstep).1
  · push Not at hform
    obtain ⟨importer, accounts, rfl⟩ := hform
    rw [operate] at hstep
    split at hstep
    · exact Option.some.inj hstep ▸ onward_importAccounts importer accounts hknown
    · contradiction

end Forms

/-- The account is gone for good, or its epoch is past the cookie's. -/
structure LoginEnded (cookie : SessionData) (users : Users) : Prop where
  known : cookie.userId ≤ users.lastId
  epoch : ∀ user ∈ users.rows, user.id = cookie.userId → cookie.epoch < user.sessionEpoch

section Ended

variable {users next : Users} {cookie : SessionData}

theorem LoginEnded.onward (hended : LoginEnded cookie users)
    (hon : Onward cookie.userId users next) : LoginEnded cookie next where
  known := hended.known.trans hon.lastId
  epoch := by
    intro user' huser' hid'
    obtain ⟨user, huser, hid, hle⟩ := hon.rows user' huser' hid'
    exact (hended.epoch user huser hid).trans_le hle

theorem LoginEnded.authenticate_eq_none (hended : LoginEnded cookie users) (now : ℤ) :
    authenticate users cookie now = none := by
  rw [authenticate]
  split
  · rfl
  · next row hfind =>
      obtain ⟨hrow, hid⟩ := Users.find_eq_some hfind
      have hne : row.sessionEpoch ≠ cookie.epoch := (hended.epoch row hrow hid).ne'
      simp [hne]

/-- What a form that ends the account's sessions leaves. -/
theorem loginEnded_of_ends (hon : Onward cookie.userId users next)
    (hraised : EndsRaised cookie.userId users next) (hends : Ends cookie.userId users next)
    (hknown : cookie.userId ≤ users.lastId)
    (hreached : ∀ user ∈ users.rows, user.id = cookie.userId → cookie.epoch ≤ user.sessionEpoch) :
    LoginEnded cookie next where
  known := hknown.trans hon.lastId
  epoch := by
    intro user' huser' hid'
    obtain ⟨user, huser, hid, hhow⟩ := hends
    have hle := hreached user huser hid
    rcases hraised user huser hid user' huser' hid' with ⟨hsame, hstill⟩ | hlt
    · rcases hhow user' huser' hid' with hpassword | ⟨hon, hoff⟩ | hlt
      · exact absurd hsame hpassword
      · rw [hstill hon] at hoff
        contradiction
      · exact hle.trans_lt hlt
    · exact hle.trans_lt hlt

end Ended

/-- In every run: a cookie minted at a sign-in is accepted in no state after an
operation that ended its account's sessions and is one of those meant. -/
def LoginsEnd (verify : Text → Text → Bool) (meant : AccountOperation → Prop) : Prop :=
  ∀ (start before after later : Users) (username password : Text) (minted : ℤ)
    (cookie : SessionData) (operation : AccountOperation),
    verifyCredentials verify start username password minted = some cookie →
    Run (operate verify) anything start before →
    meant operation → operate verify before operation = some after →
    Ends cookie.userId before after →
    Run (operate verify) anything after later →
    ∀ now, authenticate later cookie now = none

section Runs

variable {verify : Text → Text → Bool} {start state : Users}

theorem onward_of_run {id : ℤ} (run : Run (operate verify) anything start state)
    (hknown : id ≤ start.lastId) : Onward id start state := by
  induction run with
  | refl => exact .refl
  | tail _ _ hstep ih => exact ih.trans (onward_operate (hknown.trans ih.lastId) hstep)

theorem exists_of_verifyCredentials {username password : Text} {now : ℤ} {cookie : SessionData}
    (hcookie : verifyCredentials verify start username password now = some cookie) :
    ∃ row ∈ start.rows, row.id = cookie.userId ∧ row.sessionEpoch = cookie.epoch := by
  rw [verifyCredentials] at hcookie
  split at hcookie
  · contradiction
  · next row hfind =>
      split at hcookie
      · contradiction
      · split at hcookie
        · contradiction
        · obtain rfl := Option.some.inj hcookie
          exact ⟨row, (Users.findName_eq_some hfind).1, rfl, rfl⟩

/-- What a form ends stays ended, whatever is done afterwards. -/
theorem logins_end (verify : Text → Text → Bool) :
    LoginsEnd verify fun operation => ∀ importer accounts, operation ≠ .importFile importer accounts := by
  intro start before after later username password minted cookie operation hcookie hbefore hform
    hstep hends hafter now
  obtain ⟨row, hrow, hid, hepoch⟩ := exists_of_verifyCredentials hcookie
  have hknown : cookie.userId ≤ start.lastId := hid ▸ start.ids row hrow
  have honBefore := onward_of_run hbefore hknown
  have hreached : ∀ user ∈ before.rows, user.id = cookie.userId →
      cookie.epoch ≤ user.sessionEpoch := by
    intro user huser huserId
    obtain ⟨first, hfirst, hfirstId, hle⟩ := honBefore.rows user huser huserId
    rw [← hepoch, ← Users.eq_of_id_eq hfirst hrow (hfirstId.trans hid.symm)]
    exact hle
  have hknownBefore := hknown.trans honBefore.lastId
  obtain ⟨hon, hraised⟩ := accounted_operate hform hknownBefore hstep
  have hended := loginEnded_of_ends hon hraised hends hknownBefore hreached
  exact (hended.onward (onward_of_run hafter hended.known)).authenticate_eq_none now

end Runs

section Imported

/-- An administrator, and an account the administrator imports another password
for. -/
def adaAndBob : Users where
  rows := [⟨1, "ada".toList, "$2b$12$ivy".toList, .admin, true, 0⟩,
    ⟨2, "bob".toList, "$2b$12$roses".toList, .viewer, true, 0⟩]
  lastId := 2
  ids := by simp
  idsApart := by simp
  namesApart := by simp

/-- An import that changes an account's password leaves its sessions. -/
theorem import_leaves_login : ¬ LoginsEnd (fun _ _ => true) fun _ => True := by
  intro hall
  let imported : List FileAccount := [⟨"bob".toList, "viewer".toList, true, "$2b$12$tulips".toList⟩]
  let after := importAccounts "ada".toList adaAndBob imported
  have hcookie : verifyCredentials (fun _ _ => true) adaAndBob "bob".toList "roses".toList 60 =
      some ⟨2, "bob".toList, .viewer, 0, 60⟩ := rfl
  have hstep : operate (fun _ _ => true) adaAndBob (.importFile "ada".toList imported) =
      some after := rfl
  have hrows : after.rows = [⟨1, "ada".toList, "$2b$12$ivy".toList, .admin, true, 0⟩,
      ⟨2, "bob".toList, "$2b$12$tulips".toList, .viewer, true, 0⟩] := rfl
  have hends : Ends 2 adaAndBob after := by
    refine ⟨_, List.mem_cons_of_mem _ (List.mem_singleton_self _), rfl, ?_⟩
    rw [hrows]
    simp
  have hnone := hall adaAndBob adaAndBob after after "bob".toList "roses".toList 60 _ _ hcookie
    .refl trivial hstep hends .refl 60
  have haccepted : (authenticate after ⟨2, "bob".toList, .viewer, 0, 60⟩ 60).isSome := by decide
  rw [hnone] at haccepted
  contradiction

end Imported

end EasyWaf.Management
