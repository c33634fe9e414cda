import EasyWaf.Challenge.Store
import EasyWaf.Core.Machine

/-!
# One answer to a challenge

Any number of clients issue and verify at once; each turn at the store is one
step.  What is issued and what is answered is written down beside the store.
-/

namespace EasyWaf.Challenge

open EasyWaf.Core

/-- A call of `issue` between its two turns.  It is undisturbed while no other
call has filed a challenge since its first. -/
structure Call where
  dest : Text
  clientIp : Text
  undisturbed : Bool

/-- A challenge as it was filed. -/
structure Issue where
  id : Text
  captcha : Text
  dest : Text
  clientIp : Text
  issuedAt : ℕ

def Call.issue (call : Call) (id captcha : Text) (now : ℕ) : Issue where
  id := id
  captcha := captcha
  dest := call.dest
  clientIp := call.clientIp
  issuedAt := now

/-- What waits for the answer. -/
def Issue.pending (toUppercase : Text → Text) (issue : Issue) : Pending where
  answer := toUppercase issue.captcha
  dest := issue.dest
  clientIp := issue.clientIp
  expires := issue.issuedAt + challengeTtl

/-- An answer as it was given. -/
structure Reply where
  id : Text
  text : Text
  clientIp : Text
  repliedAt : ℕ
  answer : Answer

structure State where
  store : Store
  calls : List Call
  issues : List Issue
  replies : List Reply

def State.initial : State where
  store := .empty
  calls := []
  issues := []
  replies := []

inductive Action
  | admits (dest clientIp : Text) (now : ℕ)
  | file (call : ℕ) (id captcha : Text) (now : ℕ)
  | verify (id text clientIp : Text) (now : ℕ)

variable (toUppercase : Text → Text)

/-- One turn at the store.  `file` is the second turn of one of the calls that
had their first. -/
def step (state : State) : Action → Option State
  | .admits dest clientIp now =>
      let (store, admitted) := state.store.admits clientIp now
      let calls := if admitted then [{ dest, clientIp, undisturbed := true }] else []
      some { state with store, calls := state.calls ++ calls }
  | .file call id captcha now =>
      (state.calls[call]?).map fun issuing =>
        { state with
          store := state.store.file toUppercase id captcha issuing.dest issuing.clientIp now
          calls := (state.calls.eraseIdx call).map fun other => { other with undisturbed := false }
          issues := state.issues ++ [issuing.issue id captcha now] }
  | .verify id text clientIp now =>
      let (store, answer) := state.store.verify toUppercase id text clientIp now
      some { state with
        store
        replies := state.replies ++ [{ id, text, clientIp, repliedAt := now, answer }] }

section Once

variable {toUppercase} {state next : State} {id : Text}

/-- How often a challenge was filed under an id. -/
def State.timesIssued (state : State) (id : Text) : ℕ := state.issues.countP (·.id = id)

/-- How often an id got an answer other than unknown. -/
def State.timesAnswered (state : State) (id : Text) : ℕ :=
  state.replies.countP fun reply => reply.id = id ∧ reply.answer ≠ .unknown

/-- An answer is to a challenge that was issued to the same client and had not
expired, and it is right exactly when its text is the image's. -/
def Reply.IsTo (toUppercase : Text → Text) (reply : Reply) (issue : Issue) : Prop :=
  issue.id = reply.id ∧ reply.clientIp = issue.clientIp ∧
    reply.repliedAt < issue.issuedAt + challengeTtl ∧
    reply.answer =
      if toUppercase issue.captcha = toUppercase reply.text.trim then .right issue.dest
      else .wrong issue.dest

structure State.Sound (toUppercase : Text → Text) (state : State) : Prop where
  waits : ∀ id pending, state.store.get id = some pending →
    ∃ issue ∈ state.issues, issue.id = id ∧ pending = issue.pending toUppercase
  /-- A challenge that waits has an answer to give yet. -/
  answered : ∀ id, state.timesAnswered id + ((state.store.get id).map fun _ => 1).getD 0 ≤
    state.timesIssued id
  replies : ∀ reply ∈ state.replies, reply.answer ≠ .unknown →
    ∃ issue ∈ state.issues, reply.IsTo toUppercase issue

theorem sound_initial : State.initial.Sound toUppercase where
  waits _ _ hget := by contradiction
  answered _ := le_refl _
  replies _ hreply := absurd hreply List.not_mem_nil

/-- A challenge that goes gives no answer. -/
theorem State.Sound.shrink {store : Store} {calls : List Call} (hsound : state.Sound toUppercase)
    (hless : ∀ id pending, store.get id = some pending → state.store.get id = some pending) :
    State.Sound toUppercase { state with store, calls } where
  waits id pending hget := hsound.waits id pending (hless id pending hget)
  answered id := by
    apply le_trans _ (hsound.answered id)
    apply Nat.add_le_add_left
    cases hget : store.get id with
    | none => exact Nat.zero_le _
    | some pending => rw [hless id pending hget]
  replies := hsound.replies

theorem State.Sound.admits {dest clientIp : Text} {now : ℕ} (hsound : state.Sound toUppercase)
    (hstep : step toUppercase state (.admits dest clientIp now) = some next) :
    next.Sound toUppercase := by
  rw [← Option.some.inj hstep]
  exact hsound.shrink fun _ _ hget => Store.get_of_get_admits hget

/-- What a filed challenge does to the state. -/
theorem step_file {call : ℕ} {captcha : Text} {now : ℕ}
    (hstep : step toUppercase state (.file call id captcha now) = some next) :
    ∃ issuing, state.calls[call]? = some issuing ∧
      next.store = state.store.add id ((issuing.issue id captcha now).pending toUppercase) ∧
      next.calls = (state.calls.eraseIdx call).map (fun other => { other with undisturbed := false }) ∧
      next.issues = state.issues ++ [issuing.issue id captcha now] ∧
      next.replies = state.replies := by
  obtain ⟨issuing, hissuing, rfl⟩ := Option.map_eq_some_iff.mp hstep
  exact ⟨issuing, hissuing, rfl, rfl, rfl, rfl⟩

theorem State.Sound.file {call : ℕ} {captcha : Text} {now : ℕ} (hsound : state.Sound toUppercase)
    (hstep : step toUppercase state (.file call id captcha now) = some next) :
    next.Sound toUppercase := by
  obtain ⟨issuing, _, hstore, _, hissues, hreplies⟩ := step_file hstep
  have hlater : ∀ issue ∈ state.issues, issue ∈ next.issues := by
    intro issue hissue
    rw [hissues]
    exact List.mem_append_left _ hissue
  constructor
  · intro other pending hget
    rw [hstore] at hget
    by_cases heq : other = id
    · subst heq
      rw [Table.get_insert_self] at hget
      use issuing.issue other captcha now
      rw [hissues]
      exact ⟨List.mem_append_right _ (List.mem_singleton_self _), rfl, (Option.some.inj hget).symm⟩
    · rw [Table.get_insert_of_ne _ heq] at hget
      obtain ⟨issue, hissue, hpending⟩ := hsound.waits other pending hget
      exact ⟨issue, hlater issue hissue, hpending⟩
  · intro other
    have hbefore := hsound.answered other
    rw [State.timesAnswered, State.timesIssued] at hbefore ⊢
    rw [hstore, hissues, hreplies, List.countP_append]
    by_cases heq : other = id
    · subst heq
      have hone : [issuing.issue other captcha now].countP (·.id = other) = 1 := by
        rw [List.countP_singleton]
        exact if_pos (decide_eq_true rfl)
      rw [Table.get_insert_self, hone]
      exact Nat.add_le_add_right ((Nat.le_add_right _ _).trans hbefore) 1
    · rw [Table.get_insert_of_ne _ heq]
      exact hbefore.trans (Nat.le_add_right _ _)
  · intro reply hreply hanswer
    rw [hreplies] at hreply
    obtain ⟨issue, hissue, hto⟩ := hsound.replies reply hreply hanswer
    exact ⟨issue, hlater issue hissue, hto⟩

/-- What an answer does to the state. -/
theorem step_verify {text clientIp : Text} {now : ℕ}
    (hstep : step toUppercase state (.verify id text clientIp now) = some next) :
    next.store = (state.store.verify toUppercase id text clientIp now).1 ∧
      next.calls = state.calls ∧ next.issues = state.issues ∧
      next.replies = state.replies ++
        [⟨id, text, clientIp, now, (state.store.verify toUppercase id text clientIp now).2⟩] := by
  rw [← Option.some.inj hstep]
  exact ⟨rfl, rfl, rfl, rfl⟩

theorem State.Sound.verify {text clientIp : Text} {now : ℕ} (hsound : state.Sound toUppercase)
    (hstep : step toUppercase state (.verify id text clientIp now) = some next) :
    next.Sound toUppercase := by
  obtain ⟨hstore, _, hissues, hreplies⟩ := step_verify hstep
  have hless : ∀ other pending, next.store.get other = some pending →
      state.store.get other = some pending := by
    intro other pending hget
    rw [hstore] at hget
    exact Store.get_of_get_verify hget
  constructor
  · rw [hissues]
    exact fun other pending hget => hsound.waits other pending (hless other pending hget)
  · intro other
    have hbefore := hsound.answered other
    rw [State.timesAnswered, State.timesIssued] at hbefore ⊢
    rw [hissues, hreplies, List.countP_append, List.countP_singleton]
    split
    · -- The answer is taken from the challenge that waited.
      rename_i hgiven
      obtain ⟨rfl, hanswer⟩ := of_decide_eq_true hgiven
      obtain ⟨pending, hget, -, -, herase, -⟩ := Store.verify_answers hanswer
      rw [hget] at hbefore
      rw [hstore, herase, Table.get_erase_self]
      exact hbefore
    · apply le_trans _ hbefore
      apply Nat.add_le_add_left
      cases hget : next.store.get other with
      | none => exact Nat.zero_le _
      | some pending => rw [hless other pending hget]
  · rw [hissues, hreplies]
    intro reply hreply hanswer
    obtain hbefore | hlast := List.mem_append.mp hreply
    · exact hsound.replies reply hbefore hanswer
    · obtain rfl := List.mem_singleton.mp hlast
      obtain ⟨pending, hget, hclient, htime, -, hgiven⟩ := Store.verify_answers hanswer
      obtain ⟨issue, hissue, hid, rfl⟩ := hsound.waits id pending hget
      exact ⟨issue, hissue, hid, hclient.symm, htime, hgiven⟩

theorem State.Sound.step {action : Action} (hsound : state.Sound toUppercase)
    (hstep : step toUppercase state action = some next) : next.Sound toUppercase := by
  cases action with
  | admits dest clientIp now => exact hsound.admits hstep
  | file call id captcha now => exact hsound.file hstep
  | verify id text clientIp now => exact hsound.verify hstep

/-- No challenge gives more than one answer: an id as many at most as there were
challenges under it, one where the drawn ids are distinct.  Each answer goes to the
client its challenge was issued to, in time, and says whether the text was the
image's. -/
theorem answered_once
    (run : Machine.Run (step toUppercase) Machine.anything State.initial state) :
    (∀ id, state.timesAnswered id ≤ state.timesIssued id) ∧
      ((state.issues.map (·.id)).Nodup → ∀ id, state.timesAnswered id ≤ 1) ∧
      ∀ reply ∈ state.replies, reply.answer ≠ .unknown →
        ∃ issue ∈ state.issues, reply.IsTo toUppercase issue := by
  have hsound : state.Sound toUppercase :=
    run.invariant (State.Sound toUppercase) (fun _ _ _ hbefore _ hstep => hbefore.step hstep)
      sound_initial
  have hanswered : ∀ id, state.timesAnswered id ≤ state.timesIssued id :=
    fun id => (Nat.le_add_right _ _).trans (hsound.answered id)
  refine ⟨hanswered, ?_, hsound.replies⟩
  intro hdistinct id
  calc
    state.timesAnswered id ≤ state.timesIssued id := hanswered id
    _ = (state.issues.map (·.id)).count id := by
      rw [State.timesIssued, List.count, List.countP_map]
      apply List.countP_congr
      simp
    _ ≤ 1 := List.nodup_iff_count_le_one.mp hdistinct id

/-- A challenge solved at the second try, which is one too late. -/
def solvedLate : List Action :=
  [.admits "/cart".toList "203.0.113.9".toList 0,
    .file 0 "a".toList "ABCD".toList 1,
    .verify "a".toList "WRONG".toList "198.51.100.7".toList 2,
    .verify "a".toList "WRONG".toList "203.0.113.9".toList 3,
    .verify "a".toList "ABCD".toList "203.0.113.9".toList 4]

theorem answered_once_of_solvedLate :
    ∃ state, Machine.Run (step Text.toAsciiUppercase) Machine.anything State.initial state ∧
      decide (state.replies.map (·.answer) =
        [.unknown, .wrong "/cart".toList, .unknown]) = true ∧
      ∀ id, state.timesAnswered id ≤ state.timesIssued id := by
  obtain ⟨state, run, hreplies⟩ := Machine.exists_run_of_exec (step Text.toAsciiUppercase)
    State.initial (fun _ _ => true) solvedLate
    (fun state => decide (state.replies.map (·.answer) =
      [.unknown, .wrong "/cart".toList, .unknown]))
    (fun _ _ _ => trivial) (by decide +kernel)
  exact ⟨state, run, hreplies, (answered_once run).1⟩

end Once

end EasyWaf.Challenge
