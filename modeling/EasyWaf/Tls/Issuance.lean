import EasyWaf.Core.Needs
import EasyWaf.Routes.Settings

/-!
# Issuing a certificate

An order is placed on an account at the authority, which then asks here for the answer
to a challenge of each name.  The answers are there while their order is under way and
no longer, whatever comes in between.  The account is registered anew for each order:
the row that is read for its credentials is the one that never holds any.
-/

namespace EasyWaf.Tls.Issuance

open EasyWaf.Core EasyWaf.Core.Program EasyWaf.Machine EasyWaf.Text
open EasyWaf.Routes.Settings

/-- What is awaited ends with an error, or whoever asked for it has gone. -/
inductive Failure
  | said (error : Text)
  | gone

/-- `acme_err`. -/
def Failure.acme : Failure → Failure
  | said error => said ("ACME: ".toList ++ error)
  | gone => gone

/-- An HTTP-01 challenge. -/
structure Challenge where
  token : Text
  keyAuthorization : Text

structure Authorization where
  isValid : Bool
  http01 : Option Challenge

inductive OrderStatus
  | pending
  | ready
  | processing
  | valid
  | invalid
deriving DecidableEq

def OrderStatus.debug : OrderStatus → Text
  | pending => "Pending".toList
  | ready => "Ready".toList
  | processing => "Processing".toList
  | valid => "Valid".toList
  | invalid => "Invalid".toList

/-- An order and how many authorizations it asks for. -/
structure Order where
  number : ℕ
  authorizations : ℕ

/-- What the authority says of an authorization afterwards: the details of the errors of its
challenges, and whether it is still pending. -/
structure Examined where
  details : List Text
  isPending : Bool

structure State where
  /-- `acme_accounts`, in the order of their ids. -/
  rows : List AcmeAccount
  /-- `TOKENS`. -/
  tokens : Text → Option Text
  /-- `ANSWERS_SERVED`. -/
  served : ℕ
  /-- Accounts the authority has registered, orders it has taken, and how often an account
  was loaded from what is stored. -/
  registered : ℕ
  ordered : ℕ
  loaded : ℕ

inductive Op
  /-- The first row, and its place. -/
  | selectAccount
  | updateAccount (place : ℕ) (account : AcmeAccount)
  | insertAccount (account : AcmeAccount)
  /-- `from_credentials`, of what is read from a key that is stored. -/
  | fromCredentials (privateKey : Text)
  | createAccount (contact directory : Text)
  | newOrder (account : ℕ) (domains : List Text)
  | authorization (order index : ℕ)
  | publish (token keyAuthorization : Text)
  | withdraw (token : Text)
  | setReady (order : ℕ) (token : Text)
  | answersServed
  | pollReady (order : ℕ)
  | examine (order : ℕ)
  /-- Whether the port of the challenges is listened on. -/
  | listening
  | finalize (order : ℕ)
  | pollCertificate (order : ℕ)
  | answer (token : Text)

abbrev Answer : Op → Type
  | .selectAccount => Except Failure (Option (ℕ × AcmeAccount))
  | .updateAccount _ _ => Except Failure Unit
  | .insertAccount _ => Except Failure Unit
  | .fromCredentials _ => Except Failure (Option ℕ)
  | .createAccount _ _ => Except Failure (ℕ × Text)
  | .newOrder _ _ => Except Failure Order
  | .authorization _ _ => Except Failure Authorization
  | .publish _ _ => Unit
  | .withdraw _ => Unit
  | .setReady _ _ => Except Failure Unit
  | .answersServed => ℕ
  | .pollReady _ => Except Failure OrderStatus
  | .examine _ => Option (List Examined)
  | .listening => Bool
  | .finalize _ => Except Failure Text
  | .pollCertificate _ => Except Failure Text
  | .answer _ => Option Text

/-- What the world makes of an operation: how it fails, or what it answers. -/
structure Choice where
  failure : Option Failure
  /-- The credentials are read, and an account is found by them. -/
  usable : Bool
  account : ℕ
  credentials : Text
  order : Order
  authorization : Authorization
  status : OrderStatus
  examined : Option (List Examined)
  listening : Bool
  pem : Text

/-- What an operation answers, where it may fail. -/
def Choice.outcome {α : Type} (choice : Choice) (value : α) : Except Failure α :=
  match choice.failure with
  | some failure => .error failure
  | none => .ok value

def effect : (op : Op) → Choice → State → Option (Answer op × State)
  | .selectAccount, choice, state =>
      some (choice.outcome (state.rows.head?.map fun row => (0, row)), state)
  | .updateAccount place account, choice, state =>
      some (choice.outcome (),
        if choice.failure.isSome then state
        else { state with rows := state.rows.set place account })
  | .insertAccount account, choice, state =>
      some (choice.outcome (),
        if choice.failure.isSome then state
        else { state with rows := state.rows ++ [account] })
  | .fromCredentials _, choice, state =>
      if choice.failure.isNone && choice.usable then
        some (.ok (some choice.account), { state with loaded := state.loaded + 1 })
      else some (choice.outcome none, state)
  | .createAccount _ _, choice, state =>
      some (choice.outcome (choice.account, choice.credentials),
        if choice.failure.isSome then state
        else { state with registered := state.registered + 1 })
  | .newOrder _ _, choice, state =>
      some (choice.outcome choice.order,
        if choice.failure.isSome then state else { state with ordered := state.ordered + 1 })
  | .authorization _ _, choice, state => some (choice.outcome choice.authorization, state)
  | .publish token keyAuthorization, _, state =>
      some ((), { state with
        tokens := Function.update state.tokens token (some keyAuthorization) })
  | .withdraw token, _, state =>
      some ((), { state with tokens := Function.update state.tokens token none })
  | .setReady _ _, choice, state => some (choice.outcome (), state)
  | .answersServed, _, state => some (state.served, state)
  | .pollReady _, choice, state => some (choice.outcome choice.status, state)
  | .examine _, choice, state => some (choice.examined, state)
  | .listening, choice, state => some (choice.listening, state)
  | .finalize _, choice, state => some (choice.outcome choice.pem, state)
  | .pollCertificate _, choice, state => some (choice.outcome choice.pem, state)
  | .answer token, _, state =>
      some (state.tokens token,
        if (state.tokens token).isSome then { state with served := state.served + 1 } else state)

section Programs

abbrev Task (Result : Type) : Type := Program Op Answer Result

def selectAccount : Task (Except Failure (Option (ℕ × AcmeAccount))) := perform Op.selectAccount

def updateAccount (place : ℕ) (account : AcmeAccount) : Task (Except Failure Unit) :=
  perform (Op.updateAccount place account)

def insertAccount (account : AcmeAccount) : Task (Except Failure Unit) :=
  perform (Op.insertAccount account)

def fromCredentials (privateKey : Text) : Task (Except Failure (Option ℕ)) :=
  perform (Op.fromCredentials privateKey)

def createAccount (contact directory : Text) : Task (Except Failure (ℕ × Text)) :=
  perform (Op.createAccount contact directory)

def newOrder (account : ℕ) (domains : List Text) : Task (Except Failure Order) :=
  perform (Op.newOrder account domains)

def authorization (order index : ℕ) : Task (Except Failure Authorization) :=
  perform (Op.authorization order index)

def publish (token keyAuthorization : Text) : Task Unit :=
  perform (Op.publish token keyAuthorization)

def withdraw (token : Text) : Task Unit := perform (Op.withdraw token)

def setReady (order : ℕ) (token : Text) : Task (Except Failure Unit) :=
  perform (Op.setReady order token)

def answersServed : Task ℕ := perform Op.answersServed

def pollReady (order : ℕ) : Task (Except Failure OrderStatus) := perform (Op.pollReady order)

def examine (order : ℕ) : Task (Option (List Examined)) := perform (Op.examine order)

def listeningOn80 : Task Bool := perform Op.listening

def finalize (order : ℕ) : Task (Except Failure Text) := perform (Op.finalize order)

def pollCertificate (order : ℕ) : Task (Except Failure Text) := perform (Op.pollCertificate order)

def answer (token : Text) : Task (Option Text) := perform (Op.answer token)

/-- The account of the credentials that are stored for a directory. -/
def storedAccount (directory : Text) (stored : Option (ℕ × AcmeAccount)) :
    Task (Except Failure (Option ℕ)) :=
  match stored with
  | some (_, row) =>
      if row.directory = directory ∧ row.privateKey.trim ≠ [] then fromCredentials row.privateKey
      else return .ok none
  | none => return .ok none

/-- `account`. -/
def account (config : AcmeAccount) : Task (Except Failure ℕ) := do
  match ← selectAccount with
  | .error failure => return .error failure
  | .ok stored =>
      match ← storedAccount config.directory stored with
      | .error failure => return .error failure.acme
      | .ok (some account) => return .ok account
      | .ok none =>
          match ← createAccount ("mailto:".toList ++ config.email) config.directory with
          | .error failure => return .error failure.acme
          | .ok (account, credentials) =>
              match ← insertAccount ⟨config.email, credentials, config.directory⟩ with
              | .error failure => return .error failure
              | .ok () => return .ok account

/-- The guards are dropped, and each withdraws its token. -/
def withdrawAll : List Text → Task Unit
  | [] => return ()
  | token :: published => do
      withdraw token
      withdrawAll published

/-- The challenges of so many authorizations are answered: what is published then, and the
failure that ended it. -/
def authorize (order : ℕ) (domain : Text) :
    (left index : ℕ) → (published : List Text) → Task (List Text × Option Failure)
  | 0, _, published => return (published, none)
  | left + 1, index, published => do
      match ← authorization order index with
      | .error failure => return (published, some failure.acme)
      | .ok asked =>
          if asked.isValid then authorize order domain left (index + 1) published
          else
            match asked.http01 with
            | none =>
                return (published, some (.said (domain ++
                  (": the CA offered no HTTP-01 challenge. Wildcards need DNS-01, " ++
                    "which EasyWAF does not implement — upload that certificate instead.").toList)))
            | some challenge =>
                publish challenge.token challenge.keyAuthorization
                match ← setReady order challenge.token with
                | .error failure => return (published ++ [challenge.token], some failure.acme)
                | .ok () =>
                    authorize order domain left (index + 1) (published ++ [challenge.token])

/-- `validation_message`. -/
def validationMessage (answered listening timedOut : Bool) : Text :=
  match timedOut, answered, listening with
  | true, true, _ =>
      (" The token was served, so the CA reached this host and fetched the challenge — " ++
        "it simply had not finished validating in the time allowed. That is usually the " ++
        "CA being slow rather than anything being wrong here. Try again: if the " ++
        "authorization completed in the meantime, the retry finishes immediately.").toList
  | true, false, false =>
      (" EasyWAF never served the challenge, and it is not listening on port 80 — the " ++
        "bind failed at startup, so nothing here could receive the validation. Something " ++
        "else on this host holds port 80, or EasyWAF lacks permission to take a " ++
        "privileged port. The startup log says which.").toList
  | true, false, true =>
      (" EasyWAF is listening on port 80 but was never asked for the token, so the " ++
        "request did not reach this host at all. Check that the name resolves here from " ++
        "the public internet, and that port 80 is open to it through any firewall or NAT " ++
        "in front.").toList
  | false, true, _ =>
      (" The token was served and the CA still refused it. Check that the name resolves " ++
        "to THIS host, and not to another one that also answers on port 80 and served a " ++
        "token of its own.").toList
  | false, false, _ =>
      (" EasyWAF was never asked for the token, so whatever the CA reached on port 80 " ++
        "for this name, it was not this host. Check where the name resolves from the " ++
        "public internet.").toList

/-- The notes on the authorizations, one after another. -/
def notesOf (examined : List Examined) : List Text :=
  examined.foldl (fun notes asked =>
    let notes := notes ++ asked.details.map Text.trim
    if notes.isEmpty && asked.isPending then
      [("the authorization is still pending — the CA has not " ++
        "recorded a result for it").toList]
    else notes) []

/-- Of notes that follow each other and are the same, one is kept. -/
def dedup : List Text → List Text
  | first :: second :: rest =>
      if first = second then dedup (second :: rest) else first :: dedup (second :: rest)
  | notes => notes

/-- `ca_explanation`, of what was found. -/
def explanation (examined : List Examined) : Text :=
  match dedup (notesOf examined) with
  | [] => []
  | notes => " The CA said: ".toList ++
      trimEndMatches (· == '.') (Text.join "; ".toList notes) ++ ['.']

/-- A validation that did not succeed is explained, and nothing stays published. -/
def explained (order : ℕ) (published : List Text) (before : ℕ) (timedOut : Bool)
    (domain said : Text) : Task (Except Failure (Text × Text)) := do
  let served := decide (before < (← answersServed))
  match ← examine order with
  | none =>
      withdrawAll published
      return .error .gone
  | some examined =>
      let listening ← listeningOn80
      withdrawAll published
      return .error (.said (domain ++ ": ".toList ++ said ++ '.' :: explanation examined ++
        validationMessage served listening timedOut))

/-- `issue` from the wait for the authority on. -/
def settle (order : ℕ) (domain : Text) (published : List Text) :
    Task (Except Failure (Text × Text)) := do
  let before ← answersServed
  match ← pollReady order with
  | .error (.said error) => explained order published before true domain error
  | .error .gone =>
      withdrawAll published
      return .error .gone
  | .ok status =>
      if status ≠ .ready then
        explained order published before false domain
          ("validation did not succeed (order is ".toList ++ status.debug ++ [')'])
      else
        match ← finalize order with
        | .error failure =>
            withdrawAll published
            return .error failure.acme
        | .ok key =>
            match ← pollCertificate order with
            | .error failure =>
                withdrawAll published
                return .error failure.acme
            | .ok cert =>
                withdrawAll published
                return .ok (cert, key)

/-- `issue`. -/
def issue (domains : List Text) : Task (Except Failure (Text × Text)) := do
  if domains.isEmpty then
    return .error (.said "no domain to request a certificate for".toList)
  else
    let domain := Text.join ", ".toList domains
    match ← selectAccount with
    | .error failure => return .error failure
    | .ok none => return .error (.said "ACME is not configured".toList)
    | .ok (some (_, config)) =>
        match ← account config with
        | .error failure => return .error failure
        | .ok account =>
            match ← newOrder account domains with
            | .error failure => return .error failure.acme
            | .ok order =>
                match ← authorize order.number domain order.authorizations 0 [] with
                | (published, some failure) =>
                    withdrawAll published
                    return .error failure
                | (published, none) => settle order.number domain published

/-- `set_config`. -/
def setConfig (email directory : Text) : Task (Except Failure Unit) := do
  match ← selectAccount with
  | .error failure => return .error failure
  | .ok (some (place, row)) =>
      if row.email = email ∧ row.directory = directoryOf directory then return .ok ()
      else updateAccount place ⟨email, [], directoryOf directory⟩
  | .ok none => insertAccount ⟨email, [], directoryOf directory⟩

/-- `CHALLENGE_PREFIX`. -/
def challengePrefix : Text := "/.well-known/acme-challenge/".toList

/-- `token_from_path`. -/
def tokenFromPath (path : Text) : Option Text :=
  (path.dropPrefix? challengePrefix).filter fun rest => !rest.isEmpty && !rest.contains '/'

/-- `acme_answer`. -/
def acmeAnswer (isTls : Bool) (path : Text) : Task (Option Text) := do
  if isTls then return none
  else
    match tokenFromPath path with
    | none => return none
    | some token => answer token

inductive Reply
  | issued (result : Except Failure (Text × Text))
  | configured (result : Except Failure Unit)
  | answered (result : Option Text)

inductive Request
  | issue (domains : List Text)
  | setConfig (email directory : Text)
  /-- What comes in on a listener. -/
  | visit (isTls : Bool) (path : Text)

def Request.task : Request → Task Reply
  | .issue domains => do return .issued (← Issuance.issue domains)
  | .setConfig email directory => do return .configured (← Issuance.setConfig email directory)
  | .visit isTls path => do return .answered (← acmeAnswer isTls path)

end Programs

section Orders

/-- What a program has found out and put up: a row of the accounts is there, so many accounts
have been registered and not been used, and these tokens are published. -/
structure Note where
  configured : Bool
  unused : ℕ
  published : List Text

def Note.blank : Note := ⟨false, 0, []⟩

/-- The first row holds no credentials, so none are loaded; an order is placed on an account
that was registered for it, and nothing is looked up while a token is published. -/
def monitor : Monitor Op Answer Note where
  may note
    | .selectAccount => note.published = []
    | .updateAccount _ account => account.privateKey.trim = []
    | .insertAccount account => account.privateKey.trim = [] ∨ note.configured = true
    | .fromCredentials _ => False
    | .newOrder _ _ => 1 ≤ note.unused
    | _ => True
  next note
    | .selectAccount, .ok (some _) => { note with configured := true }
    | .createAccount _ _, .ok _ => { note with unused := note.unused + 1 }
    | .newOrder _ _, _ => { note with unused := note.unused - 1 }
    | .publish token _, _ => { note with published := note.published ++ [token] }
    | .withdraw token, _ => { note with published := note.published.filter (· ≠ token) }
    | _, _ => note
  usual
    | .selectAccount, .ok (some row) => row.2.privateKey.trim = []
    | _, _ => True

/-- The program ends with nothing published. -/
abbrev Ends {Result : Type} : Task Result → Note → Prop :=
  monitor.Accepts fun note _ => note.published = []

variable {note : Note} {token : Text} {domain : Text} {domains published : List Text}

theorem ends_withdrawAll (hall : ∀ token ∈ note.published, token ∈ published) :
    Ends (withdrawAll published) note := by
  induction published generalizing note with
  | nil => exact List.eq_nil_iff_forall_not_mem.mpr fun token hmem =>
      absurd (hall token hmem) List.not_mem_nil
  | cons token published ih =>
      refine ⟨trivial, fun _ _ => ih fun other hother => ?_⟩
      obtain ⟨hmem, hne⟩ := List.mem_filter.mp hother
      exact (List.mem_cons.mp (hall other hmem)).resolve_left (by simpa using hne)

/-- An end that withdraws what is published before it. -/
theorem ends_withdrawing {Result : Type} (hall : note.published = published) (result : Result) :
    Ends (withdrawAll published >>= fun _ => pure result) note :=
  (ends_withdrawAll fun _ hmem => hall ▸ hmem).bind fun _ _ hnone => hnone

/-- What is published is what the program will withdraw. -/
theorem accepts_authorize (order : ℕ) {left index : ℕ} (hall : note.published = published) :
    monitor.Accepts (fun note result => note.published = result.1)
      (authorize order domain left index published) note := by
  induction left generalizing index published note with
  | zero => exact hall
  | succ left ih =>
      refine ⟨trivial, fun answer _ => ?_⟩
      cases answer with
      | error failure => exact hall
      | ok asked =>
          change monitor.Accepts _ (if asked.isValid = true then _ else _) note
          split
          · exact ih hall
          · cases asked.http01 with
            | none => exact hall
            | some challenge =>
                have hmore : note.published ++ [challenge.token] =
                    published ++ [challenge.token] := by rw [hall]
                refine ⟨trivial, fun _ _ => ⟨trivial, fun answer _ => ?_⟩⟩
                cases answer with
                | error failure => exact hmore
                | ok => exact ih hmore

theorem ends_explained (order before : ℕ) (timedOut : Bool) (said : Text)
    (hall : note.published = published) :
    Ends (explained order published before timedOut domain said) note := by
  refine ⟨trivial, fun served _ => ⟨trivial, fun answer _ => ?_⟩⟩
  cases answer with
  | none => exact ends_withdrawing hall _
  | some examined => exact ⟨trivial, fun _ _ => ends_withdrawing hall _⟩

theorem ends_settle (order : ℕ) (hall : note.published = published) :
    Ends (settle order domain published) note := by
  refine ⟨trivial, fun before _ => ⟨trivial, fun answer _ => ?_⟩⟩
  cases answer with
  | error failure =>
      cases failure with
      | said error => exact ends_explained _ _ _ _ hall
      | gone => exact ends_withdrawing hall _
  | ok status =>
      change monitor.Accepts _ (if status ≠ .ready then _ else _) note
      split
      · exact ends_explained _ _ _ _ hall
      · refine ⟨trivial, fun answer _ => ?_⟩
        cases answer with
        | error failure => exact ends_withdrawing hall _
        | ok key =>
            refine ⟨trivial, fun answer _ => ?_⟩
            cases answer with
            | error failure => exact ends_withdrawing hall _
            | ok cert => exact ends_withdrawing hall _

/-- An account that is had has been registered for it. -/
theorem accepts_account (config : AcmeAccount) (hnone : note.published = [])
    (hconfigured : note.configured = true) :
    monitor.Accepts
      (fun note result => note.published = [] ∧ ∀ account, result = .ok account → 1 ≤ note.unused)
      (account config) note := by
  refine ⟨hnone, fun answer husual => ?_⟩
  cases answer with
  | error failure => exact ⟨hnone, fun _ heq => by contradiction⟩
  | ok stored =>
      have hstored : storedAccount config.directory stored = return .ok none := by
        cases stored with
        | none => rfl
        | some found => rw [storedAccount, if_neg fun hboth => hboth.2 husual]
      have hread : (monitor.next note .selectAccount (.ok stored)).published = [] ∧
          (monitor.next note .selectAccount (.ok stored)).configured = true := by
        cases stored with
        | none => exact ⟨hnone, hconfigured⟩
        | some found => exact ⟨hnone, rfl⟩
      change monitor.Accepts _ (storedAccount config.directory stored >>= _) _
      rw [hstored]
      refine ⟨trivial, fun answer _ => ?_⟩
      cases answer with
      | error failure => exact ⟨hread.1, fun _ heq => by contradiction⟩
      | ok created =>
          refine ⟨.inr hread.2, fun answer _ => ?_⟩
          cases answer with
          | error failure => exact ⟨hread.1, fun _ heq => by contradiction⟩
          | ok => exact ⟨hread.1, fun _ _ => Nat.le_add_left _ _⟩

/-- An order that is asked for while none of it is published ends so. -/
theorem ends_issue (hnone : note.published = []) : Ends (issue domains) note := by
  rw [issue]
  split
  · exact hnone
  · refine ⟨hnone, fun answer husual => ?_⟩
    cases answer with
    | error failure => exact hnone
    | ok stored =>
        cases stored with
        | none => exact hnone
        | some found =>
            have hread : (monitor.next note .selectAccount (.ok (some found))).published = [] :=
              hnone
            refine (accepts_account found.2 hread rfl).bind fun note result ⟨hnone, hunused⟩ => ?_
            cases result with
            | error failure => exact hnone
            | ok account =>
                refine ⟨hunused account rfl, fun answer _ => ?_⟩
                cases answer with
                | error failure => exact hnone
                | ok order =>
                    have hordered : (monitor.next note (.newOrder account domains)
                        (.ok order)).published = [] := hnone
                    refine (accepts_authorize order.number hordered).bind fun note result hall => ?_
                    obtain ⟨published, ended⟩ := result
                    cases ended with
                    | some failure => exact ends_withdrawing hall _
                    | none => exact ends_settle _ hall

theorem ends_setConfig {email directory : Text} (hnone : note.published = []) :
    Ends (setConfig email directory) note := by
  refine ⟨hnone, fun answer _ => ?_⟩
  cases answer with
  | error failure => exact hnone
  | ok stored =>
      cases stored with
      | none => exact ⟨.inl rfl, fun _ _ => hnone⟩
      | some found =>
          change monitor.Accepts _ (if _ then _ else _) _
          split
          · exact hnone
          · exact ⟨rfl, fun _ _ => hnone⟩

theorem ends_acmeAnswer {isTls : Bool} {path : Text} (hnone : note.published = []) :
    Ends (acmeAnswer isTls path) note := by
  rw [acmeAnswer]
  split
  · exact hnone
  · cases tokenFromPath path with
    | none => exact hnone
    | some token => exact ⟨trivial, fun _ _ => hnone⟩

theorem ends_task (request : Request) : Ends request.task .blank := by
  cases request with
  | issue domains => exact (ends_issue rfl).bind fun _ _ hnone => hnone
  | setConfig email directory => exact (ends_setConfig rfl).bind fun _ _ hnone => hnone
  | visit isTls path => exact (ends_acmeAnswer rfl).bind fun _ _ hnone => hnone

end Orders

section Runs

abbrev World : Type := Together Op Answer Reply State

/-- Requests side by side.  A restart forgets what is published, and what was served. -/
abbrev move : World → Move Request Choice → Option World :=
  interleave effect Request.task (fun state => { state with tokens := fun _ => none, served := 0 })
    []

/-- Nothing is under way, and the accounts are those of some rows. -/
def fresh (rows : List AcmeAccount) : World := ⟨⟨rows, fun _ => none, 0, 0, 0, 0⟩, []⟩

/-- What holds of the state by the notes of all that is under way. -/
structure Sound (state : State) (notes : List Note) : Prop where
  blank : ∀ row ∈ state.rows.head?, row.privateKey.trim = []
  configured : ∀ note ∈ notes, note.configured = true → state.rows ≠ []
  loaded : state.loaded = 0
  ordered : state.ordered + (notes.map (·.unused)).sum ≤ state.registered
  published : ∀ token, state.tokens token ≠ none → ∃ note ∈ notes, token ∈ note.published

variable {state : State} {notes : List Note} {index : ℕ} {note : Note}

/-- The accounts that are not used yet, where one note changes. -/
theorem sum_set (hindex : notes[index]? = some note) (next : Note) :
    ((notes.set index next).map (·.unused)).sum + note.unused =
      (notes.map (·.unused)).sum + next.unused := by
  induction notes generalizing index with
  | nil => simp at hindex
  | cons head tail ih =>
      cases index with
      | zero =>
          obtain rfl := Option.some.inj hindex
          simp only [List.set_cons_zero, List.map_cons, List.sum_cons]
          omega
      | succ index =>
          have htail := ih hindex
          simp only [List.set_cons_succ, List.map_cons, List.sum_cons]
          omega

/-- One operation, by what it changes and what is noted of it. -/
theorem Sound.change {after : State} {next : Note} (hsound : Sound state notes)
    (hindex : notes[index]? = some note)
    (hblank : ∀ row ∈ after.rows.head?, row.privateKey.trim = [])
    (hrows : state.rows ≠ [] → after.rows ≠ [])
    (hconfigured : next.configured = true → note.configured = true ∨ after.rows ≠ [])
    (hloaded : after.loaded = state.loaded)
    (hordered : after.ordered + next.unused + state.registered ≤
      state.ordered + note.unused + after.registered)
    (hpublished : ∀ token, after.tokens token ≠ none → token ∈ next.published ∨
      state.tokens token ≠ none ∧ (token ∈ note.published → token ∈ next.published)) :
    Sound after (notes.set index next) := by
  have hnote : note ∈ notes := List.mem_of_getElem? hindex
  have hnext : next ∈ notes.set index next :=
    List.mem_set (List.getElem?_eq_some_iff.mp hindex).1 next
  refine ⟨hblank, fun other hother hknown => ?_, hloaded.trans hsound.loaded, ?_, ?_⟩
  · obtain hbefore | rfl := List.mem_or_eq_of_mem_set hother
    · exact hrows (hsound.configured other hbefore hknown)
    · exact (hconfigured hknown).elim (fun hold => hrows (hsound.configured note hnote hold)) id
  · have hsum := sum_set hindex next
    have hbefore := hsound.ordered
    omega
  · intro token htoken
    obtain hown | ⟨hthere, hkeeps⟩ := hpublished token htoken
    · exact ⟨next, hnext, hown⟩
    · obtain ⟨held, hheld, hmem⟩ := hsound.published token hthere
      obtain ⟨place, hplace⟩ := List.getElem?_of_mem hheld
      by_cases hsame : place = index
      · subst hsame
        obtain rfl := Option.some.inj (hindex.symm.trans hplace)
        exact ⟨next, hnext, hkeeps hmem⟩
      · refine ⟨held, List.mem_of_getElem? (i := place) ?_, hmem⟩
        rw [List.getElem?_set_ne (Ne.symm hsame), hplace]

/-- An operation that changes nothing that is noted. -/
theorem Sound.idle {after : State} (hsound : Sound state notes)
    (hindex : notes[index]? = some note) (hrows : after.rows = state.rows)
    (htokens : after.tokens = state.tokens) (hregistered : after.registered = state.registered)
    (hordered : after.ordered = state.ordered) (hloaded : after.loaded = state.loaded) :
    Sound after (notes.set index note) := by
  refine hsound.change hindex ?_ ?_ .inl hloaded ?_ ?_
  · rw [hrows]
    exact hsound.blank
  · rw [hrows]
    exact id
  · rw [hregistered, hordered]
  · rw [htokens]
    exact fun token htoken => .inr ⟨htoken, id⟩

/-- The first row after one is replaced. -/
theorem blank_set {rows : List AcmeAccount} {account : AcmeAccount}
    (hblank : ∀ row ∈ rows.head?, row.privateKey.trim = [])
    (haccount : account.privateKey.trim = []) (place : ℕ) :
    ∀ row ∈ (rows.set place account).head?, row.privateKey.trim = [] := by
  intro row hrow
  cases rows with
  | nil => exact hblank row hrow
  | cons head tail =>
      cases place with
      | zero =>
          obtain rfl := Option.some.inj hrow
          exact haccount
      | succ place => exact hblank row hrow

theorem sound_step {op : Op} {choice : Choice} {answer : Answer op} {after : State}
    (hsound : Sound state notes) (hindex : notes[index]? = some note)
    (hmay : monitor.may note op) (heffect : effect op choice state = some (answer, after)) :
    monitor.usual op answer ∧ Sound after (notes.set index (monitor.next note op answer)) := by
  cases op with
  | selectAccount =>
      obtain ⟨rfl, rfl⟩ := Prod.mk.inj (Option.some.inj heffect)
      rw [Choice.outcome]
      cases choice.failure with
      | some failure => exact ⟨trivial, hsound.idle hindex rfl rfl rfl rfl rfl⟩
      | none =>
          cases hrow : state.rows.head? with
          | none => exact ⟨trivial, hsound.idle hindex rfl rfl rfl rfl rfl⟩
          | some row =>
              refine ⟨hsound.blank row hrow, ?_⟩
              refine hsound.change hindex hsound.blank id (fun _ => .inr ?_) rfl le_rfl ?_
              · rintro hnone
                rw [hnone] at hrow
                contradiction
              · exact fun token htoken => .inr ⟨htoken, id⟩
  | updateAccount place account =>
      obtain ⟨rfl, rfl⟩ := Prod.mk.inj (Option.some.inj heffect)
      refine ⟨trivial, ?_⟩
      split
      · exact hsound.idle hindex rfl rfl rfl rfl rfl
      · refine hsound.change hindex ?_ ?_ .inl rfl le_rfl fun token htoken => .inr ⟨htoken, id⟩
        · exact blank_set hsound.blank hmay place
        · rw [ne_eq, ne_eq, List.set_eq_nil_iff]
          exact id
  | insertAccount account =>
      obtain ⟨rfl, rfl⟩ := Prod.mk.inj (Option.some.inj heffect)
      refine ⟨trivial, ?_⟩
      split
      · exact hsound.idle hindex rfl rfl rfl rfl rfl
      · refine hsound.change hindex ?_ (fun _ => by simp) .inl rfl le_rfl
          fun token htoken => .inr ⟨htoken, id⟩
        · intro row hrow
          cases hrows : state.rows with
          | nil =>
              rw [hrows] at hrow
              obtain rfl := Option.some.inj hrow
              refine hmay.resolve_right fun hknown => ?_
              exact hsound.configured note (List.mem_of_getElem? hindex) hknown hrows
          | cons head tail =>
              rw [hrows] at hrow
              exact hsound.blank row (hrows ▸ hrow)
  | fromCredentials => exact hmay.elim
  | createAccount contact directory =>
      obtain ⟨rfl, rfl⟩ := Prod.mk.inj (Option.some.inj heffect)
      refine ⟨trivial, ?_⟩
      rw [Choice.outcome]
      cases choice.failure with
      | some failure => exact hsound.idle hindex rfl rfl rfl rfl rfl
      | none =>
          refine hsound.change hindex hsound.blank id .inl rfl ?_
            fun token htoken => .inr ⟨htoken, id⟩
          change state.ordered + (note.unused + 1) + state.registered ≤
            state.ordered + note.unused + (state.registered + 1)
          omega
  | newOrder account domains =>
      obtain ⟨rfl, rfl⟩ := Prod.mk.inj (Option.some.inj heffect)
      have hone : 1 ≤ note.unused := hmay
      refine ⟨trivial, ?_⟩
      split
      · refine hsound.change hindex hsound.blank id .inl rfl ?_
          fun token htoken => .inr ⟨htoken, id⟩
        change state.ordered + (note.unused - 1) + state.registered ≤
          state.ordered + note.unused + state.registered
        omega
      · refine hsound.change hindex hsound.blank id .inl rfl ?_
          fun token htoken => .inr ⟨htoken, id⟩
        change state.ordered + 1 + (note.unused - 1) + state.registered ≤
          state.ordered + note.unused + state.registered
        omega
  | publish token keyAuthorization =>
      obtain ⟨rfl, rfl⟩ := Prod.mk.inj (Option.some.inj heffect)
      refine ⟨trivial, hsound.change hindex hsound.blank id .inl rfl le_rfl ?_⟩
      intro other hother
      by_cases hsame : other = token
      · exact .inl (List.mem_append_right _ (hsame ▸ List.mem_singleton_self _))
      · refine .inr ⟨?_, List.mem_append_left _⟩
        exact fun hnone => hother ((Function.update_of_ne hsame _ _).trans hnone)
  | withdraw token =>
      obtain ⟨rfl, rfl⟩ := Prod.mk.inj (Option.some.inj heffect)
      refine ⟨trivial, hsound.change hindex hsound.blank id .inl rfl le_rfl ?_⟩
      intro other hother
      have hne : other ≠ token := by
        rintro rfl
        exact hother (Function.update_self _ _ _)
      refine .inr ⟨fun hnone => hother ((Function.update_of_ne hne _ _).trans hnone), ?_⟩
      exact fun hmem => List.mem_filter.mpr ⟨hmem, decide_eq_true hne⟩
  | answer token =>
      obtain ⟨rfl, rfl⟩ := Prod.mk.inj (Option.some.inj heffect)
      refine ⟨trivial, ?_⟩
      split <;> exact hsound.idle hindex rfl rfl rfl rfl rfl
  | authorization | setReady | answersServed | pollReady | examine | listening | finalize
  | pollCertificate =>
      obtain ⟨rfl, rfl⟩ := Prod.mk.inj (Option.some.inj heffect)
      exact ⟨trivial, hsound.idle hindex rfl rfl rfl rfl rfl⟩

variable {rows : List AcmeAccount} {world : World}

theorem noted (hrows : ∀ row ∈ rows.head?, row.privateKey.trim = [])
    (run : Run move anything (fresh rows) world) :
    ∃ notes, monitor.Noted (fun note (_ : Reply) => note.published = []) world notes ∧
      Sound world.shared notes := by
  have hrun : Run move (Meets (fun _ _ _ => True) fun _ => False) (fresh rows) world := by
    refine run.mono fun world move _ => ?_
    cases move with
    | advance index choice => exact fun _ _ => .inl trivial
    | start | cut => trivial
  refine Monitor.noted_of_run Sound hrun ends_task (by simp) ?_ ?_ ?_ .nil ?_
  · intro state notes hsound
    refine ⟨hsound.blank, fun note hnote hknown => ?_, hsound.loaded, ?_, fun token htoken => ?_⟩
    · obtain hbefore | hnew := List.mem_append.mp hnote
      · exact hsound.configured note hbefore hknown
      · rw [List.mem_singleton.mp hnew] at hknown
        contradiction
    · rw [List.map_append, List.sum_append]
      exact hsound.ordered
    · obtain ⟨note, hnote, hmem⟩ := hsound.published token htoken
      exact ⟨note, List.mem_append_left _ hnote, hmem⟩
  · intro state notes index note op goOn choice answer after hsound hindex hmay _ heffect
    exact sound_step hsound hindex hmay heffect
  · intro state notes hsound
    refine ⟨hsound.blank, fun note hnote => absurd hnote List.not_mem_nil, hsound.loaded, ?_,
      fun token htoken => absurd rfl htoken⟩
    exact (Nat.le_add_right _ _).trans hsound.ordered
  · exact ⟨hrows, fun note hnote => absurd hnote List.not_mem_nil, rfl, le_rfl,
      fun token htoken => absurd rfl htoken⟩

/-- Where the first account holds no credentials, none are ever loaded, and no more orders
are taken than accounts have been registered. -/
theorem registered_of_run (hrows : ∀ row ∈ rows.head?, row.privateKey.trim = [])
    (run : Run move anything (fresh rows) world) :
    world.shared.loaded = 0 ∧ world.shared.ordered ≤ world.shared.registered ∧
      ∀ row ∈ world.shared.rows.head?, row.privateKey.trim = [] := by
  obtain ⟨notes, -, hsound⟩ := noted hrows run
  exact ⟨hsound.loaded, (Nat.le_add_right _ _).trans hsound.ordered, hsound.blank⟩

end Runs

section Example

def contact : AcmeAccount := ⟨['a'], [], []⟩

/-- Everything works, and a challenge is asked for. -/
def working : Choice where
  failure := none
  usable := true
  account := 1
  credentials := ['k']
  order := ⟨1, 1⟩
  authorization := ⟨false, some ⟨['t'], ['t', '.', 'k']⟩⟩
  status := .ready
  examined := none
  listening := true
  pem := ['p']

/-- An order, up to the answer to its challenge. -/
def answering : List (Move Request Choice) :=
  .start (.issue [['d']]) :: List.replicate 7 (.advance 0 working)

theorem contact_registered : ∃ world, Run move anything (fresh [contact]) world ∧
    world.shared.ordered = 1 ∧ world.shared.loaded = 0 ∧
      world.shared.ordered ≤ world.shared.registered := by
  obtain ⟨world, run, hordered⟩ := exists_run_of_exec move (fresh [contact]) (fun _ _ => true)
    answering (fun world => world.shared.ordered = 1) (fun _ _ _ => trivial) (by decide)
  obtain ⟨hloaded, hregistered, -⟩ := registered_of_run (by decide) run
  exact ⟨world, run, of_decide_eq_true hordered, hloaded, hregistered⟩

end Example

end EasyWaf.Tls.Issuance
