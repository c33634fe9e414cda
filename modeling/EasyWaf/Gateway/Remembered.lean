import EasyWaf.Core.Pieces
import EasyWaf.Gateway.EndedSessions

/-!
# Remembered Basic credentials

A Basic credential that was checked is remembered for a minute under a digest of the
realm, its epoch, the name and the password.  A remembered answer is held against
the realm as it is now.  In every run in which no account is added again, and no
realm is made a directory, while a credential of its name is fresh, what is answered
from memory is what the same realm accepted, with nothing changed of it since.
-/

namespace EasyWaf.Gateway

open EasyWaf.Core Db Import Machine Proxy Text

/-- `BASIC_REMEMBERED`, in milliseconds. -/
def basicRemembered : ℕ := 60000

/-- `MAX_BASIC_REMEMBERED`. -/
def maxBasicRemembered : ℕ := 10000

structure Remembered where
  who : Identity
  userEpoch : ℤ
  untilMs : ℕ

/-- A credential of a request, and the realm the request is judged with: its row, and
the tables it was read from. -/
structure Credential where
  tables : RealmTables
  row : AuthRealm
  username : Text
  password : Text

/-- A credential that is being checked since some time, and the tables there were
since. -/
structure Check where
  credential : Credential
  sinceMs : ℕ
  seen : List RealmTables

/-- A check that found the credential good. -/
structure Acceptance where
  check : Check
  who : Identity
  userEpoch : ℤ
  atMs : ℕ

def Check.untilMs (check : Check) : ℕ := check.sinceMs + basicRemembered

def Check.see (next : RealmTables) (check : Check) : Check :=
  { check with seen := check.seen ++ [next] }

def Acceptance.see (next : RealmTables) (acceptance : Acceptance) : Acceptance :=
  { acceptance with check := acceptance.check.see next }

section Memory

variable {κ : Type} [DecidableEq κ] (digest : List UInt8 → κ) (secret : Text)

/-- What a credential's digest is of. -/
def basicParts (realm : Realm) (username password : Text) : List (List UInt8) :=
  [secret, formatInt realm.id, formatInt realm.epoch, username, password].map bytes

def basicKey (realm : Realm) (username password : Text) : κ :=
  digest (frame bytes64 (basicParts secret realm username password))

/-- A remembered answer still goes for the realm. -/
def Remembered.stillGood (remembered : Remembered) (realm : Realm) (username : Text) (nowMs : ℕ) :
    Bool :=
  nowMs < remembered.untilMs && (realm.kind ≠ .localAccounts || (realm.users username).any fun user =>
    user.enabled && user.epoch == remembered.userEpoch)

/-- The memory with room for one more. -/
def makeRoom (nowMs : ℕ) (cache : List (κ × Remembered)) : List (κ × Remembered) :=
  if maxBasicRemembered ≤ cache.length then
    let kept := cache.filter fun entry => nowMs < entry.2.untilMs
    if maxBasicRemembered ≤ kept.length then [] else kept
  else cache

def remember (nowMs : ℕ) (key : κ) (remembered : Remembered) (cache : List (κ × Remembered)) :
    List (κ × Remembered) :=
  (makeRoom nowMs cache).filter (·.1 ≠ key) ++ [(key, remembered)]

/-- What `check_basic` answers without asking again. -/
def fromMemory (cache : List (κ × Remembered)) (realm : Realm) (username password : Text)
    (nowMs : ℕ) : Option Identity :=
  (cache.find? (·.1 = basicKey digest secret realm username password)).bind fun entry =>
    if entry.2.stillGood realm username nowMs then some entry.2.who else none

end Memory

/-- The realms, the memory, the checks under way, and what was accepted so far. -/
structure BasicState (κ : Type) where
  tables : RealmTables
  nowMs : ℕ
  cache : List (κ × Remembered)
  checks : List Check
  accepted : List Acceptance

def BasicState.initial (κ : Type) (tables : RealmTables) : BasicState κ where
  tables := tables
  nowMs := 0
  cache := []
  checks := []
  accepted := []

inductive BasicAction
  | change (operation : RealmOperation)
  | wait (ms : ℕ)
  /-- A request comes that is judged with the realm of a row. -/
  | look (row : AuthRealm) (username password : Text)
  /-- A check ends; `reply` is what a directory says. -/
  | finish (check : ℕ) (reply : Option Identity)

section Steps

variable {κ : Type} [DecidableEq κ] (digest : List UInt8 → κ) (secret : Text)
variable (verify : Text → Text → Bool) (libraries : Libraries) (toJson : LdapConfig → Text)

/-- The lengths of the parts are machine words. -/
def Telling (realm : Realm) (username password : Text) : Prop :=
  ∀ part ∈ basicParts secret realm username password, part.length < 2 ^ 64

instance instDecidableTelling (realm : Realm) (username password : Text) :
    Decidable (Telling secret realm username password) := List.decidableBAll _ _

def Credential.realm (credential : Credential) : Realm :=
  readRealm libraries credential.tables.users credential.row

/-- What is remembered of an acceptance, and under which key. -/
def Acceptance.entry (acceptance : Acceptance) : κ × Remembered :=
  (basicKey digest secret (acceptance.check.credential.realm libraries)
      acceptance.check.credential.username acceptance.check.credential.password,
    { who := acceptance.who
      userEpoch := acceptance.userEpoch
      untilMs := acceptance.check.untilMs })

/-- `check_basic` in its two parts, before and after the credential is checked, among
what else happens. -/
def basicStep (state : BasicState κ) : BasicAction → Option (BasicState κ)
  | .change operation =>
      (operate libraries toJson state.tables operation).map fun next =>
        { state with
          tables := next
          checks := state.checks.map (Check.see next)
          accepted := state.accepted.map (Acceptance.see next) }
  | .wait ms => some { state with nowMs := state.nowMs + ms }
  | .look row username password =>
      let realm := readRealm libraries state.tables.users row
      if row ∈ state.tables.realms ∧ Telling secret realm username password then
        if (fromMemory digest secret state.cache realm username password state.nowMs).isSome then
          some state
        else
          some
            { state with
              cache := state.cache.filter (·.1 ≠ basicKey digest secret realm username password)
              checks := state.checks ++
                [{ credential := { tables := state.tables, row, username, password }
                   sinceMs := state.nowMs
                   seen := [state.tables] }] }
      else none
  | .finish check reply =>
      state.checks[check]?.map fun ending =>
        let state := { state with checks := state.checks.eraseIdx check }
        match checkPassword verify (fun _ _ _ => reply) (ending.credential.realm libraries)
            ending.credential.username ending.credential.password with
        | none => state
        | some (who, userEpoch) =>
            let acceptance : Acceptance := { check := ending, who, userEpoch, atMs := state.nowMs }
            let entry := acceptance.entry digest secret libraries
            { state with
              cache := remember ending.sinceMs entry.1 entry.2 state.cache
              accepted := state.accepted ++ [acceptance] }

end Steps

/-- The realm is as it was, as far as a credential of the name goes. -/
structure Unchanged (username : Text) (before after : Realm) : Prop where
  id : after.id = before.id
  epoch : after.epoch = before.epoch
  kind : after.kind = .localAccounts ↔ before.kind = .localAccounts
  account : after.kind = .localAccounts → after.users username = before.users username

/-- Whatever is answered from memory the same realm accepted, less than the
remembering time ago, and in no tables since is anything changed of it. -/
def NeverStale {κ : Type} [DecidableEq κ] (digest : List UInt8 → κ) (secret : Text)
    (verify : Text → Text → Bool) (libraries : Libraries) (state : BasicState κ) : Prop :=
  ∀ row ∈ state.tables.realms, ∀ username password who,
    Telling secret (readRealm libraries state.tables.users row) username password →
    fromMemory digest secret state.cache (readRealm libraries state.tables.users row) username
      password state.nowMs = some who →
    ∃ acceptance ∈ state.accepted,
      acceptance.check.credential.username = username ∧
      acceptance.check.credential.password = password ∧
      (∃ reply, checkPassword verify (fun _ _ _ => reply)
        (acceptance.check.credential.realm libraries) username password =
          some (who, acceptance.userEpoch)) ∧
      state.nowMs < acceptance.atMs + basicRemembered ∧
      state.tables ∈ acceptance.check.seen ∧
      Unchanged username (acceptance.check.credential.realm libraries)
        (readRealm libraries state.tables.users row) ∧
      ∀ tables ∈ acceptance.check.seen, ∃ between ∈ tables.realms,
        Unchanged username (acceptance.check.credential.realm libraries)
          (readRealm libraries tables.users between)

/-- An operation adds no account of the name to the realm, where it is not there
already, and makes no directory of the realm; and the realm is no directory with an
account of the name. -/
def Steady (realmId : ℤ) (username : Text) (tables : RealmTables) (operation : RealmOperation) :
    Prop :=
  Spares realmId username tables operation ∧
    ∀ row ∈ tables.realms, row.id = realmId → row.kind = "ldap".toList →
      ∀ user ∈ tables.users, user.realmId = realmId → user.username ≠ username

/-- Nothing is added under a name while a credential of it is fresh. -/
def SparesFresh {κ : Type} (state : BasicState κ) : BasicAction → Prop
  | .change operation =>
      ∀ check ∈ state.checks ++ state.accepted.map Acceptance.check, state.nowMs < check.untilMs →
        Steady check.credential.row.id check.credential.username state.tables operation
  | _ => True

/-- No account of the name was there before unless it is there now, in a realm that
was none of a directory. -/
def AccountsBack (realmId : ℤ) (username : Text) (tables next : RealmTables) : Prop :=
  ∀ row' ∈ next.realms, row'.id = realmId → row'.kind ≠ "ldap".toList →
    (∃ user' ∈ next.users, user'.realmId = realmId ∧ user'.username = username) →
    ∃ row ∈ tables.realms, row.id = realmId ∧ row.kind ≠ "ldap".toList ∧
      ∃ user ∈ tables.users, user.realmId = realmId ∧ user.username = username

/-- What later tables keep of a realm and of an account. -/
structure Kept (realmId : ℤ) (username : Text) (tables next : RealmTables) : Prop where
  realms : RealmsOnward realmId tables next
  kinds : KindsOnward realmId tables next
  users : UsersOnward realmId username tables next
  accounts : AccountsBack realmId username tables next

section Kept

variable {realmId : ℤ} {username : Text} {tables middle next : RealmTables}
variable {libraries : Libraries} {toJson : LdapConfig → Text}

theorem Kept.refl : Kept realmId username tables tables where
  realms := .refl
  kinds := .refl
  users := .refl
  accounts := fun row hrow hid hkind huser => ⟨row, hrow, hid, hkind, huser⟩

theorem Kept.trans (first : Kept realmId username tables middle)
    (second : Kept realmId username middle next) : Kept realmId username tables next where
  realms := first.realms.trans second.realms
  kinds := first.kinds.trans second.kinds
  users := first.users.trans second.users
  accounts := by
    intro row'' hrow'' hid'' hkind'' huser''
    obtain ⟨row', hrow', hid', hkind', huser'⟩ :=
      second.accounts row'' hrow'' hid'' hkind'' huser''
    exact first.accounts row' hrow' hid' hkind' huser'

/-- An operation keeps what it does not touch. -/
theorem kept_of_operate {operation : RealmOperation} (hknown : realmId ≤ tables.lastId)
    (hsteady : Steady realmId username tables operation)
    (hstep : operate libraries toJson tables operation = some next) :
    Kept realmId username tables next := by
  have hrealms := realmsOnward_operate hknown hstep
  obtain ⟨hkinds, husers⟩ := usersOnward_operate hknown hsteady.1 hstep
  refine ⟨hrealms, hkinds, husers, ?_⟩
  rintro row' hrow' hid' - ⟨user', huser', hrealm', hname'⟩
  obtain ⟨row, hrow, hid, -⟩ := hrealms.realms row' hrow' hid'
  obtain ⟨user, huser, hrealm, hname, -⟩ := husers user' huser' hrealm' hname'
  refine ⟨row, hrow, hid, fun hkind => ?_, user, huser, hrealm, hname⟩
  exact hsteady.2 row hrow hid hkind user huser hrealm hname

end Kept

section Judged

variable {libraries : Libraries} {verify : Text → Text → Bool} {tables middle next : RealmTables}
variable {row row' : AuthRealm} {username password : Text} {reply : Option Identity}
variable {who : Identity} {userEpoch : ℤ} {user : AuthUser}

theorem kind_readRealm (users : List AuthUser) (row : AuthRealm) :
    (readRealm libraries users row).kind = .localAccounts ↔ row.kind ≠ "ldap".toList := by
  rw [readRealm]
  by_cases hkind : row.kind = "ldap".toList
  · simp [hkind]
  · simp

/-- The account of a row. -/
def localUser (user : AuthUser) : LocalUser where
  passwordHash := user.passwordHash
  enabled := user.enabled
  epoch := user.epoch

theorem usersOf_of_mem (huser : user ∈ tables.users) :
    usersOf tables.users user.realmId user.username = some (localUser user) := by
  have hmem : user ∈ tables.users.filter fun other => other.realmId = user.realmId :=
    List.mem_filter.mpr ⟨huser, decide_eq_true rfl⟩
  have hsome : (usersOf tables.users user.realmId user.username).isSome :=
    HashMap.isSome_ofRows AuthUser.username localUser hmem
  obtain ⟨found, hfound⟩ := Option.isSome_iff_exists.mp hsome
  obtain ⟨row, hrow, hname, hvalue⟩ := HashMap.exists_of_ofRows_eq_some hfound
  obtain ⟨hrow, hrealm⟩ := List.mem_filter.mp hrow
  obtain rfl := RealmTables.eq_of_account_eq hrow huser (of_decide_eq_true hrealm) hname
  rw [hfound, ← hvalue]
  rfl

theorem exists_mem_of_usersOf {realmId : ℤ} {found : LocalUser}
    (hfound : usersOf tables.users realmId username = some found) :
    ∃ user ∈ tables.users, user.realmId = realmId ∧ user.username = username ∧
      found = localUser user := by
  obtain ⟨user, huser, hname, rfl⟩ := HashMap.exists_of_ofRows_eq_some hfound
  obtain ⟨huser, hrealm⟩ := List.mem_filter.mp huser
  exact ⟨user, huser, of_decide_eq_true hrealm, hname, rfl⟩

/-- In a realm of local accounts a name that was accepted is an account's, with the
epoch it has. -/
theorem exists_user_of_checkPassword (hkind : row.kind ≠ "ldap".toList)
    (hcheck : checkPassword verify (fun _ _ _ => reply) (readRealm libraries tables.users row)
      username password = some (who, userEpoch)) :
    ∃ user ∈ tables.users, user.realmId = row.id ∧ user.username = username ∧
      user.epoch = userEpoch := by
  rw [checkPassword, (kind_readRealm tables.users row).mpr hkind] at hcheck
  dsimp only at hcheck
  split at hcheck
  · contradiction
  · split at hcheck
    · next found hfound =>
        split at hcheck
        · obtain ⟨-, rfl⟩ := Prod.mk.inj (Option.some.inj hcheck)
          obtain ⟨user, huser, hrealm, hname, rfl⟩ := exists_mem_of_usersOf hfound
          exact ⟨user, huser, hrealm, hname, rfl⟩
        · contradiction
    · contradiction

/-- Between two moments at which the realm and the account stand at the same epochs
nothing was changed of either. -/
theorem unchanged_between (hrow : row ∈ tables.realms)
    (hcheck : checkPassword verify (fun _ _ _ => reply) (readRealm libraries tables.users row)
      username password = some (who, userEpoch))
    (hfirst : Kept row.id username tables middle) (hsecond : Kept row.id username middle next)
    (hrow' : row' ∈ next.realms) (hid' : row'.id = row.id) (hepoch' : row'.epoch = row.epoch)
    (haccount : row'.kind ≠ "ldap".toList → ∃ user' ∈ next.users, user'.realmId = row.id ∧
      user'.username = username ∧ user'.epoch = userEpoch) :
    ∃ between ∈ middle.realms, Unchanged username (readRealm libraries tables.users row)
      (readRealm libraries middle.users between) := by
  obtain ⟨between, hbetween, hid, -, hle⟩ := hsecond.realms.realms row' hrow' hid'
  obtain ⟨start, hstart, hstartId, -, hle'⟩ := hfirst.realms.realms between hbetween hid
  obtain rfl := RealmTables.eq_of_id_eq hstart hrow hstartId
  have hunique {other : AuthRealm} (hother : other ∈ middle.realms) (hotherId : other.id = start.id) :
      other = between := RealmTables.eq_of_id_eq hother hbetween (hotherId.trans hid.symm)
  have hsame : row'.kind ≠ "ldap".toList ↔ start.kind ≠ "ldap".toList := by
    constructor
    · intro hkind'
      obtain ⟨user', huser', hrealm', hname', -⟩ := haccount hkind'
      obtain ⟨first, hfirstRow, hfirstId, hkind, -⟩ := (hfirst.trans hsecond).accounts row' hrow' hid'
        hkind' ⟨user', huser', hrealm', hname'⟩
      exact RealmTables.eq_of_id_eq hfirstRow hrow hfirstId ▸ hkind
    · intro hkind hkind'
      obtain ⟨first, hfirstRow, hfirstId, hldap⟩ :=
        (hfirst.trans hsecond).kinds row' hrow' hid' hkind'
      exact hkind (RealmTables.eq_of_id_eq hfirstRow hrow hfirstId ▸ hldap)
  have hbetweenKind : between.kind ≠ "ldap".toList ↔ start.kind ≠ "ldap".toList := by
    constructor
    · intro hkind
      by_contra hldap
      have hldap' : row'.kind = "ldap".toList := not_not.mp (hsame.not.mpr (not_not.mpr hldap))
      obtain ⟨other, hother, hotherId, hotherKind⟩ := hsecond.kinds row' hrow' hid' hldap'
      exact hkind (hunique hother hotherId ▸ hotherKind)
    · intro hkind hldap
      obtain ⟨first, hfirstRow, hfirstId, hfirstKind⟩ := hfirst.kinds between hbetween hid hldap
      exact hkind (RealmTables.eq_of_id_eq hfirstRow hrow hfirstId ▸ hfirstKind)
  refine ⟨between, hbetween, hid, le_antisymm (hle.trans hepoch'.le) hle', ?_, fun hlocal => ?_⟩
  · rw [kind_readRealm, kind_readRealm, hbetweenKind]
  · have hkind := hbetweenKind.mp ((kind_readRealm middle.users between).mp hlocal)
    obtain ⟨user, huser, hrealm, hname, hepoch⟩ := exists_user_of_checkPassword hkind hcheck
    obtain ⟨user', huser', hrealm', hname', hepoch''⟩ := haccount (hsame.mpr hkind)
    obtain ⟨held, hheld, hheldRealm, hheldName, hlater⟩ :=
      hsecond.users user' huser' hrealm' hname'
    obtain ⟨first, hfirstUser, hfirstRealm, hfirstName, hearlier⟩ :=
      hfirst.users held hheld hheldRealm hheldName
    obtain rfl := RealmTables.eq_of_account_eq hfirstUser huser (hfirstRealm.trans hrealm.symm)
      (hfirstName.trans hname.symm)
    have hlater : held.epoch ≤ user'.epoch :=
      hlater.elim (fun heq => (congrArg AuthUser.epoch heq).ge) le_of_lt
    have hstands : held = first :=
      hearlier.resolve_right fun hlt => by omega
    have husers (tables : RealmTables) (row : AuthRealm) (hmem : first ∈ tables.users)
        (hrowId : row.id = start.id) :
        (readRealm libraries tables.users row).users username = some (localUser first) := by
      have husers := usersOf_of_mem hmem
      rw [hfirstRealm, hfirstName, ← hrowId] at husers
      exact husers
    rw [husers middle between (hstands ▸ hheld) hid, husers tables start huser rfl]

end Judged

/-- While a check's credential is fresh, all tables seen since keep its realm and
account, and the tables there are keep what those had. -/
def Check.Stands (current : RealmTables) (nowMs : ℕ) (check : Check) : Prop :=
  check.credential.row ∈ check.credential.tables.realms ∧ check.sinceMs ≤ nowMs ∧
    current ∈ check.seen ∧
    (nowMs < check.untilMs → ∀ tables ∈ check.seen,
      Kept check.credential.row.id check.credential.username check.credential.tables tables ∧
      Kept check.credential.row.id check.credential.username tables current)

section Standing

variable {check : Check} {current next : RealmTables} {nowMs : ℕ}

theorem Check.Stands.wait (hstands : check.Stands current nowMs) (ms : ℕ) :
    check.Stands current (nowMs + ms) := by
  obtain ⟨hrow, hsince, hseen, hkept⟩ := hstands
  exact ⟨hrow, Nat.le_add_right_of_le hsince, hseen, fun hfresh =>
    hkept (lt_of_le_of_lt (Nat.le_add_right _ _) hfresh)⟩

/-- A check outlives an operation that keeps its realm and account while it is
fresh. -/
theorem Check.Stands.change (hstands : check.Stands current nowMs)
    (hkeeps : nowMs < check.untilMs →
      Kept check.credential.row.id check.credential.username current next) :
    (check.see next).Stands next nowMs := by
  obtain ⟨hrow, hsince, hseen, hkept⟩ := hstands
  refine ⟨hrow, hsince, List.mem_append_right _ (List.mem_singleton_self _), ?_⟩
  intro hfresh tables htables
  have hfresh : nowMs < check.untilMs := hfresh
  rcases List.mem_append.mp htables with htables | htables
  · obtain ⟨hfirst, hsecond⟩ := hkept hfresh tables htables
    exact ⟨hfirst, hsecond.trans (hkeeps hfresh)⟩
  · obtain rfl := List.mem_singleton.mp htables
    exact ⟨(hkept hfresh _ hseen).1.trans (hkeeps hfresh), .refl⟩

theorem stands_begin {credential : Credential}
    (hrow : credential.row ∈ credential.tables.realms) (nowMs : ℕ) :
    (Check.mk credential nowMs [credential.tables]).Stands credential.tables nowMs := by
  refine ⟨hrow, le_rfl, List.mem_singleton_self _, fun _ tables htables => ?_⟩
  obtain rfl := List.mem_singleton.mp htables
  exact ⟨.refl, .refl⟩

/-- The realm of a check is known as long as the check stands. -/
theorem Check.Stands.known (hstands : check.Stands current nowMs) (hfresh : nowMs < check.untilMs) :
    check.credential.row.id ≤ current.lastId := by
  obtain ⟨hrow, -, hseen, hkept⟩ := hstands
  exact (check.credential.tables.ids _ hrow).trans (hkept hfresh _ hseen).1.realms.lastId

end Standing

section Runs

variable {κ : Type} [DecidableEq κ] {digest : List UInt8 → κ} {secret : Text}
variable {verify : Text → Text → Bool} {libraries : Libraries} {toJson : LdapConfig → Text}
variable {state next : BasicState κ} {action : BasicAction}

/-- What is remembered is what was accepted, and what was accepted stands while it is
fresh. -/
structure BasicState.Sound (digest : List UInt8 → κ) (secret : Text)
    (verify : Text → Text → Bool) (libraries : Libraries) (state : BasicState κ) : Prop where
  checks : ∀ check ∈ state.checks, check.Stands state.tables state.nowMs ∧
    Telling secret (check.credential.realm libraries) check.credential.username
      check.credential.password
  accepted : ∀ acceptance ∈ state.accepted,
    acceptance.check.Stands state.tables state.nowMs ∧
    Telling secret (acceptance.check.credential.realm libraries)
      acceptance.check.credential.username acceptance.check.credential.password ∧
    acceptance.check.sinceMs ≤ acceptance.atMs ∧
    ∃ reply, checkPassword verify (fun _ _ _ => reply)
      (acceptance.check.credential.realm libraries) acceptance.check.credential.username
        acceptance.check.credential.password = some (acceptance.who, acceptance.userEpoch)
  cache : ∀ entry ∈ state.cache, ∃ acceptance ∈ state.accepted,
    acceptance.entry digest secret libraries = entry

theorem mem_of_mem_remember {nowMs : ℕ} {key : κ} {remembered : Remembered}
    {cache : List (κ × Remembered)} {entry : κ × Remembered}
    (hentry : entry ∈ remember nowMs key remembered cache) :
    entry ∈ cache ∨ entry = (key, remembered) := by
  rcases List.mem_append.mp hentry with hentry | hentry
  · have hroom := List.mem_of_mem_filter hentry
    rw [makeRoom] at hroom
    split at hroom
    · dsimp only at hroom
      split at hroom
      · contradiction
      · exact Or.inl (List.mem_of_mem_filter hroom)
    · exact Or.inl hroom
  · exact Or.inr (List.mem_singleton.mp hentry)

omit [DecidableEq κ] in
theorem sound_initial (tables : RealmTables) :
    (BasicState.initial κ tables).Sound digest secret verify libraries where
  checks := fun _ hcheck => absurd hcheck List.not_mem_nil
  accepted := fun _ hacceptance => absurd hacceptance List.not_mem_nil
  cache := fun _ hentry => absurd hentry List.not_mem_nil

omit [DecidableEq κ] in
theorem BasicState.Sound.change (hsound : state.Sound digest secret verify libraries)
    {operation : RealmOperation} (hspares : SparesFresh state (.change operation))
    {tables : RealmTables} (hoperate : operate libraries toJson state.tables operation = some tables) :
    BasicState.Sound digest secret verify libraries
      { state with
        tables := tables
        checks := state.checks.map (Check.see tables)
        accepted := state.accepted.map (Acceptance.see tables) } := by
  have hchange {check : Check}
      (hmem : check ∈ state.checks ++ state.accepted.map Acceptance.check)
      (hstands : check.Stands state.tables state.nowMs) :
      (check.see tables).Stands tables state.nowMs :=
    hstands.change fun hfresh =>
      kept_of_operate (hstands.known hfresh) (hspares check hmem hfresh) hoperate
  constructor
  · rw [List.forall_mem_map]
    intro check hcheck
    obtain ⟨hstands, htelling⟩ := hsound.checks check hcheck
    exact ⟨hchange (List.mem_append_left _ hcheck) hstands, htelling⟩
  · rw [List.forall_mem_map]
    intro acceptance hacceptance
    obtain ⟨hstands, hrest⟩ := hsound.accepted acceptance hacceptance
    exact ⟨hchange (List.mem_append_right _ (List.mem_map_of_mem hacceptance)) hstands, hrest⟩
  · intro entry hentry
    obtain ⟨acceptance, hacceptance, hentry⟩ := hsound.cache entry hentry
    exact ⟨acceptance.see tables, List.mem_map_of_mem hacceptance, hentry⟩

/-- A request and the end of a check keep to what was accepted. -/
theorem BasicState.Sound.step (hsound : state.Sound digest secret verify libraries)
    (hspares : SparesFresh state action)
    (hstep : basicStep digest secret verify libraries toJson state action = some next) :
    next.Sound digest secret verify libraries := by
  cases action with
  | change operation =>
      obtain ⟨tables, hoperate, rfl⟩ := Option.map_eq_some_iff.mp hstep
      exact hsound.change hspares hoperate
  | wait ms =>
      obtain rfl := Option.some.inj hstep
      exact
        { checks := fun check hcheck => (hsound.checks check hcheck).imp_left (·.wait ms)
          accepted := fun acceptance hacceptance =>
            (hsound.accepted acceptance hacceptance).imp_left (·.wait ms)
          cache := hsound.cache }
  | look row username password =>
      rw [basicStep] at hstep
      split at hstep
      · next hlook =>
          split at hstep
          · obtain rfl := Option.some.inj hstep
            exact hsound
          · obtain rfl := Option.some.inj hstep
            refine ⟨?_, hsound.accepted, fun entry hentry =>
              hsound.cache entry (List.mem_of_mem_filter hentry)⟩
            intro check hcheck
            rcases List.mem_append.mp hcheck with hcheck | hcheck
            · exact hsound.checks check hcheck
            · obtain rfl := List.mem_singleton.mp hcheck
              exact ⟨stands_begin hlook.1 state.nowMs, hlook.2⟩
      · contradiction
  | finish index reply =>
      obtain ⟨ending, hending, hnext⟩ := Option.map_eq_some_iff.mp hstep
      have hmem : ending ∈ state.checks := List.mem_of_getElem? hending
      obtain ⟨hstands, htelling⟩ := hsound.checks ending hmem
      have hchecks : ∀ check ∈ state.checks.eraseIdx index,
          check.Stands state.tables state.nowMs ∧ Telling secret (check.credential.realm libraries)
            check.credential.username check.credential.password :=
        fun check hcheck => hsound.checks check (List.mem_of_mem_eraseIdx hcheck)
      split at hnext
      · obtain rfl := hnext
        exact ⟨hchecks, hsound.accepted, hsound.cache⟩
      · next who userEpoch hcheck =>
          obtain rfl := hnext
          refine ⟨hchecks, ?_, ?_⟩
          · intro acceptance hacceptance
            rcases List.mem_append.mp hacceptance with hacceptance | hacceptance
            · exact hsound.accepted acceptance hacceptance
            · obtain rfl := List.mem_singleton.mp hacceptance
              exact ⟨hstands, htelling, hstands.2.1, reply, hcheck⟩
          · intro entry hentry
            rcases mem_of_mem_remember hentry with hentry | rfl
            · obtain ⟨acceptance, hacceptance, hentry⟩ := hsound.cache entry hentry
              exact ⟨acceptance, List.mem_append_left _ hacceptance, hentry⟩
            · exact ⟨_, List.mem_append_right _ (List.mem_singleton_self _), rfl⟩

omit [DecidableEq κ] in
/-- A digest that tells texts apart tells realms, their epochs, names and passwords
apart. -/
theorem basicKey_inj (hdigest : Function.Injective digest) {realm realm' : Realm}
    {username username' password password' : Text} (htelling : Telling secret realm username password)
    (htelling' : Telling secret realm' username' password')
    (heq : basicKey digest secret realm username password =
      basicKey digest secret realm' username' password') :
    realm.id = realm'.id ∧ realm.epoch = realm'.epoch ∧ username = username' ∧
      password = password' := by
  have hcount : (basicParts secret realm username password).length =
      (basicParts secret realm' username' password').length := rfl
  have hparts := frame_inj length_bytes64 (fun m hm n hn => bytes64_inj hm hn) hcount htelling
    htelling' (hdigest heq)
  simp only [basicParts, List.map_cons, List.map_nil, List.cons.injEq, and_true, true_and,
    bytes_injective.eq_iff, formatInt_injective.eq_iff] at hparts
  exact hparts

/-- What is answered from memory is what a fresh entry under the credential's key
says. -/
theorem exists_of_fromMemory {cache : List (κ × Remembered)} {realm : Realm}
    {username password : Text} {nowMs : ℕ} {who : Identity}
    (hmemory : fromMemory digest secret cache realm username password nowMs = some who) :
    ∃ remembered, (basicKey digest secret realm username password, remembered) ∈ cache ∧
      remembered.who = who ∧ nowMs < remembered.untilMs ∧
      (realm.kind = .localAccounts → ∃ user, realm.users username = some user ∧
        user.epoch = remembered.userEpoch) := by
  obtain ⟨⟨key, remembered⟩, hfind, hwho⟩ := Option.bind_eq_some_iff.mp hmemory
  have hkey : key = basicKey digest secret realm username password := by
    simpa using List.find?_some hfind
  split at hwho
  · next hgood =>
      obtain ⟨hfresh, haccount⟩ := Bool.and_eq_true_iff.mp hgood
      refine ⟨remembered, hkey ▸ List.mem_of_find?_eq_some hfind, Option.some.inj hwho,
        of_decide_eq_true hfresh, fun hlocal => ?_⟩
      rw [hlocal, Bool.or_eq_true] at haccount
      obtain ⟨user, huser, hepoch⟩ :=
        (Option.any_eq_true _ _).mp (haccount.resolve_left (by simp))
      exact ⟨user, huser, eq_of_beq (Bool.and_eq_true_iff.mp hepoch).2⟩
  · contradiction

/-- What is sound is never stale. -/
theorem BasicState.Sound.neverStale (hdigest : Function.Injective digest)
    (hsound : state.Sound digest secret verify libraries) :
    NeverStale digest secret verify libraries state := by
  intro row hrow username password who htelling hmemory
  obtain ⟨remembered, hentry, rfl, hfresh, haccount⟩ := exists_of_fromMemory hmemory
  obtain ⟨acceptance, hacceptance, heq⟩ := hsound.cache _ hentry
  obtain ⟨⟨hstart, -, hseen, hkept⟩, htold, hat, reply, hcheck⟩ :=
    hsound.accepted acceptance hacceptance
  obtain ⟨hkey, rfl⟩ := Prod.mk.inj heq
  obtain ⟨hid, hepoch, rfl, rfl⟩ := basicKey_inj hdigest htold htelling hkey
  have hfresh : state.nowMs < acceptance.check.untilMs := hfresh
  have hunchanged (tables : RealmTables) (htables : tables ∈ acceptance.check.seen) :
      ∃ between ∈ tables.realms, Unchanged acceptance.check.credential.username
        (acceptance.check.credential.realm libraries)
        (readRealm libraries tables.users between) := by
    obtain ⟨hfirst, hsecond⟩ := hkept hfresh tables htables
    refine unchanged_between hstart hcheck hfirst hsecond hrow hid.symm hepoch.symm fun hkind => ?_
    obtain ⟨found, hfound, hfoundEpoch⟩ :=
      haccount ((kind_readRealm state.tables.users row).mpr hkind)
    obtain ⟨user, huser, hrealm, hname, rfl⟩ := exists_mem_of_usersOf hfound
    exact ⟨user, huser, hrealm.trans hid.symm, hname, hfoundEpoch⟩
  have hrealm : Unchanged acceptance.check.credential.username
      (acceptance.check.credential.realm libraries) (readRealm libraries state.tables.users row) := by
    obtain ⟨between, hbetween, hsame⟩ := hunchanged state.tables hseen
    obtain rfl := RealmTables.eq_of_id_eq hbetween hrow (hsame.id.trans hid)
    exact hsame
  refine ⟨acceptance, hacceptance, rfl, rfl, ⟨reply, hcheck⟩, ?_, hseen, hrealm, hunchanged⟩
  exact hfresh.trans_le (Nat.add_le_add_right hat _)

/-- In every run in which nothing is added under a name while a credential of it is
fresh, what is answered from memory is not stale. -/
theorem remembered_never_stale (hdigest : Function.Injective digest) (tables : RealmTables)
    (run : Run (basicStep digest secret verify libraries toJson) SparesFresh
      (BasicState.initial κ tables) state) : NeverStale digest secret verify libraries state :=
  (run.invariant (BasicState.Sound digest secret verify libraries)
    (fun _ _ _ hsound hspares hstep => hsound.step hspares hstep)
    (sound_initial tables)).neverStale hdigest

end Runs

section Readded

/-- A hash that gives the password away. -/
def sameAs (password hashed : Text) : Bool := hashed == '$' :: password

/-- Alice's password is checked, and remembered. -/
def aliceSignsIn : List BasicAction :=
  [.look staffRealm "alice".toList "roses".toList, .finish 0 none, .wait 1000]

/-- Her account is deleted and added again, with another password. -/
def aliceReadded : List BasicAction :=
  [.change (.deleteAccount "staff".toList "alice".toList),
    .change (.addAccount "staff".toList aliceForm "$tulips".toList)]

/-- The password is taken from memory for the account there is. -/
def takesRoses (state : BasicState (List UInt8)) : Bool :=
  state.tables.realms.any fun row =>
    let realm := readRealm Libraries.plain state.tables.users row
    Telling "secret".toList realm "alice".toList "roses".toList &&
      (realm.kind == .localAccounts && (fromMemory id "secret".toList state.cache realm
        "alice".toList "roses".toList state.nowMs).isSome)

/-- The password is no account's. -/
def refusesRoses (state : BasicState (List UInt8)) : Bool :=
  state.tables.realms.all fun row =>
    !((readRealm Libraries.plain state.tables.users row).users "alice".toList).any fun user =>
      sameAs "roses".toList user.passwordHash

/-- What is not stale is answered from memory to who gives the account's password. -/
theorem not_refusesRoses {state : BasicState (List UInt8)}
    (hnever : NeverStale id "secret".toList sameAs Libraries.plain state)
    (htakes : takesRoses state = true) : refusesRoses state = false := by
  obtain ⟨row, hrow, htakes⟩ := List.any_eq_true.mp htakes
  obtain ⟨htelling, htakes⟩ := Bool.and_eq_true_iff.mp htakes
  obtain ⟨hlocal, hsome⟩ := Bool.and_eq_true_iff.mp htakes
  obtain ⟨who, hwho⟩ := Option.isSome_iff_exists.mp hsome
  obtain ⟨acceptance, -, -, -, ⟨reply, hcheck⟩, -, -, hsame, -⟩ :=
    hnever row hrow "alice".toList "roses".toList who (of_decide_eq_true htelling) hwho
  have hlocal := eq_of_beq hlocal
  rw [checkPassword, hsame.kind.mp hlocal, if_neg (by decide)] at hcheck
  dsimp only at hcheck
  split at hcheck
  · next user huser =>
      split at hcheck
      · next hverify =>
          rw [← hsame.account hlocal] at huser
          rw [refusesRoses, List.all_eq_false]
          refine ⟨row, hrow, ?_⟩
          rw [huser, Option.any_some, (Bool.and_eq_true_iff.mp hverify).1]
          decide
      · contradiction
  · contradiction

/-- Nothing of the realms is changed. -/
def changesNothing (_ : BasicState (List UInt8)) : BasicAction → Bool
  | .change _ => false
  | _ => true

theorem sparesFresh_of_changesNothing (state : BasicState (List UInt8)) (action : BasicAction)
    (hnothing : changesNothing state action = true) : SparesFresh state action := by
  cases action with
  | change operation => contradiction
  | _ => trivial

/-- A password that is taken from memory in a run that changes nothing. -/
theorem alice_remembered : ∃ state, takesRoses state = true ∧
    NeverStale id "secret".toList sameAs Libraries.plain state := by
  obtain ⟨state, hrun, htakes⟩ := exists_run_of_exec
    (basicStep id "secret".toList sameAs Libraries.plain fun _ => [])
    (BasicState.initial _ (staffTables "$roses".toList)) changesNothing aliceSignsIn takesRoses
    sparesFresh_of_changesNothing (by decide +kernel)
  exact ⟨state, htakes, remembered_never_stale Function.injective_id _ hrun⟩

/-- The old password of an account that was deleted and added again is taken from
memory. -/
theorem readded_alice_is_stale : ∃ state,
    Run (basicStep id "secret".toList sameAs Libraries.plain fun _ => []) anything
      (BasicState.initial _ (staffTables "$roses".toList)) state ∧
    ¬ NeverStale id "secret".toList sameAs Libraries.plain state := by
  obtain ⟨state, hrun, hstale⟩ := exists_run_of_exec
    (basicStep id "secret".toList sameAs Libraries.plain fun _ => [])
    (BasicState.initial _ (staffTables "$roses".toList)) (fun _ _ => true)
    (aliceSignsIn ++ aliceReadded) (fun state => takesRoses state && refusesRoses state)
    (fun _ _ _ => trivial) (by decide +kernel)
  obtain ⟨htakes, hrefuses⟩ := Bool.and_eq_true_iff.mp hstale
  refine ⟨state, hrun, fun hnever => ?_⟩
  rw [not_refusesRoses hnever htakes] at hrefuses
  contradiction

end Readded

end EasyWaf.Gateway
