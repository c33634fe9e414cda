import EasyWaf.Management.Accounts

/-!
# There is an administrator

A request that would take an enabled administrator away first counts the others,
in a statement of its own.  As long as the ones it counted are still there when it
writes, one is left; two requests that each count the other's account leave none.
-/

namespace EasyWaf.Management

open EasyWaf.Core Machine Procedure

/-- The account is an enabled administrator. -/
def Administers (users : Users) (id : ℤ) : Prop :=
  ∃ user ∈ users.rows, user.id = id ∧ user.administers = true

def AdminThere (users : Users) : Prop := ∃ id, Administers users id

/-- The requests that change what an account may do. -/
inductive AdminRequest
  | role (id : ℤ) (role : Text)
  | toggle (session id : ℤ)
  | delete (session id : ℤ)

def adminProgram : AdminRequest → Handler
  | .role id role => postAccountRole id role
  | .toggle session id => postAccountToggle session id
  | .delete session id => postAccountDelete session id

/-- Every enabled administrator that was there is one still. -/
def StillAdmins (seen users : Users) : Prop := ∀ id, Administers seen id → Administers users id

/-- A statement that takes an enabled administrator away meets those that were
there at its request's last statement. -/
def undisturbed (users : Users) (call : Call Users Bool (Except AccountError Unit))
    (outcome : Bool) : Prop :=
  match call.rest with
  | .done _ => True
  | .step effect _ =>
      ¬ StillAdmins users (effect outcome users) → StillAdmins call.seen users

/-- A request leaves an administrator, as long as none of its statements is
disturbed. -/
def LeavesAdmin (seen : Users) : Handler → Prop
  | .done _ => True
  | .step effect next =>
      ∀ outcome users, AdminThere users →
        ((¬ StillAdmins users (effect outcome users) → StillAdmins seen users) →
          AdminThere (effect outcome users)) ∧
        LeavesAdmin users (next outcome users)

section Statements

variable {seen users : Users} {id : ℤ} {go : Handler}

theorem leavesAdmin_statement {effect : Users → Users} {next : Users → Handler}
    {failed : Except AccountError Unit}
    (heffect : ∀ users, AdminThere users →
      (¬ StillAdmins users (effect users) → StillAdmins seen users) → AdminThere (effect users))
    (hnext : ∀ users, AdminThere users → LeavesAdmin users (next users)) :
    LeavesAdmin seen (statement effect next failed) := by
  intro outcome users hadmin
  cases outcome with
  | false => exact ⟨fun _ => hadmin, trivial⟩
  | true => exact ⟨heffect users hadmin, hnext users hadmin⟩

theorem leavesAdmin_query {next : Users → Handler} {failed : Except AccountError Unit}
    (hnext : ∀ users, AdminThere users → LeavesAdmin users (next users)) :
    LeavesAdmin seen (query next failed) :=
  leavesAdmin_statement (fun _ hadmin _ => hadmin) hnext

/-- A statement that changes no administrator is harmless. -/
theorem adminThere_update {condition : User → Bool} {change : Users.Change}
    (hchange : ∀ user, condition user = true → user.administers = true →
      (change.set user).administers = true)
    (hadmin : AdminThere users) : AdminThere (users.update condition change) := by
  obtain ⟨_, user, huser, rfl, hadministers⟩ := hadmin
  by_cases hcondition : condition user = true
  · refine ⟨user.id, change.set user, List.mem_map.mpr ⟨user, huser, if_pos hcondition⟩,
      change.id user, hchange user hcondition hadministers⟩
  · exact ⟨user.id, user, Users.mem_update_of_not huser (by simpa using hcondition), rfl,
      hadministers⟩

theorem leavesAdmin_endAllSessions : LeavesAdmin seen (endAllSessions id) :=
  leavesAdmin_statement (fun _ hadmin _ => adminThere_update (fun _ _ h => h) hadmin)
    fun _ _ => trivial

/-- There is an administrator besides the account. -/
def OtherAdmin (users : Users) (id : ℤ) : Prop := ∃ other, other ≠ id ∧ Administers users other

theorem otherEnabledAdmins_pos_iff : 0 < otherEnabledAdmins users id ↔ OtherAdmin users id := by
  rw [otherEnabledAdmins, List.length_pos_iff_exists_mem]
  simp only [List.mem_filter, decide_eq_true_eq]
  constructor
  · rintro ⟨user, huser, hadministers, hid⟩
    exact ⟨user.id, hid, user, huser, rfl, hadministers⟩
  · rintro ⟨_, hid, user, huser, rfl, hadministers⟩
    exact ⟨user, huser, hadministers, hid⟩

/-- What follows the check is reached with an administrator besides the account
there. -/
theorem leavesAdmin_wouldOrphan {what : Text}
    (hgo : ∀ users, OtherAdmin users id → LeavesAdmin users go) :
    LeavesAdmin seen (wouldOrphan id what go) := by
  apply leavesAdmin_query
  intro users _
  split
  · next hpos => exact hgo users (otherEnabledAdmins_pos_iff.mp hpos)
  · apply leavesAdmin_query
    intro users hadmin
    split
    · trivial
    · next hnot =>
        obtain ⟨other, hother⟩ := hadmin
        apply hgo users
        refine ⟨other, ?_, hother⟩
        rintro rfl
        obtain ⟨user, huser, hid, hadministers⟩ := hother
        apply hnot
        rw [List.any_eq_true]
        exact ⟨user, huser, by simp [hid, hadministers]⟩

theorem administers_update_of_ne {change : Users.Change} {other : ℤ} (hne : other ≠ id)
    (hother : Administers users other) :
    Administers (users.update (·.id = id) change) other := by
  obtain ⟨user, huser, rfl, hadministers⟩ := hother
  exact ⟨user, Users.mem_update_of_not huser (by simpa using hne), rfl, hadministers⟩

theorem administers_delete_of_ne {other : ℤ} (hne : other ≠ id)
    (hother : Administers users other) : Administers (users.delete id) other := by
  obtain ⟨user, huser, rfl, hadministers⟩ := hother
  exact ⟨user, List.mem_filter.mpr ⟨huser, by simpa using hne⟩, rfl, hadministers⟩

/-- A statement about one account leaves the administrator besides it that its
request has seen, if it takes any away. -/
theorem adminThere_of_other {effect : Users → Users}
    (hkeeps : ∀ users other, other ≠ id → Administers users other → Administers (effect users) other)
    (hother : OtherAdmin seen id) (users : Users) (hadmin : AdminThere users)
    (hseen : ¬ StillAdmins users (effect users) → StillAdmins seen users) :
    AdminThere (effect users) := by
  by_cases hstill : StillAdmins users (effect users)
  · obtain ⟨admin, hadmin⟩ := hadmin
    exact ⟨admin, hstill admin hadmin⟩
  · obtain ⟨other, hne, hother⟩ := hother
    exact ⟨other, hkeeps users other hne (hseen hstill other hother)⟩

theorem leavesAdmin_changeAndEndSessions {change : Users.Change}
    (hchange : ∀ users, AdminThere users →
      (¬ StillAdmins users (users.update (·.id = id) change) → StillAdmins seen users) →
      AdminThere (users.update (·.id = id) change)) :
    LeavesAdmin seen (changeAndEndSessions id change) := by
  apply leavesAdmin_statement hchange
  intro users _
  split
  · trivial
  · exact leavesAdmin_endAllSessions

end Statements

/-- Every request leaves an administrator, as long as none of its statements is
disturbed. -/
theorem leavesAdmin_adminProgram (seen : Users) (request : AdminRequest) :
    LeavesAdmin seen (adminProgram request) := by
  cases request with
  | role id role =>
      rw [adminProgram, postAccountRole]
      split
      · trivial
      · apply leavesAdmin_wouldOrphan
        intro users hother
        exact leavesAdmin_changeAndEndSessions
          (adminThere_of_other (fun _ _ => administers_update_of_ne) hother)
      · apply leavesAdmin_changeAndEndSessions
        intro users hadmin _
        apply adminThere_update _ hadmin
        intro user _ hadministers
        simp only [User.administers, Bool.and_eq_true] at hadministers ⊢
        exact ⟨by simp [Users.setRole], hadministers.2⟩
  | toggle session id =>
      rw [adminProgram, postAccountToggle]
      split
      · trivial
      · apply leavesAdmin_query
        intro users _
        split
        · trivial
        · split
          · apply leavesAdmin_wouldOrphan
            intro users hother
            exact leavesAdmin_statement
              (adminThere_of_other (fun _ _ => administers_update_of_ne) hother)
              fun _ _ => leavesAdmin_endAllSessions
          · apply leavesAdmin_statement
            · intro users hadmin _
              apply adminThere_update _ hadmin
              intro user _ hadministers
              simp only [User.administers, Bool.and_eq_true] at hadministers ⊢
              exact ⟨hadministers.1, rfl⟩
            · exact fun _ _ => trivial
  | delete session id =>
      rw [adminProgram, postAccountDelete]
      split
      · trivial
      · apply leavesAdmin_wouldOrphan
        intro users hother
        apply leavesAdmin_statement
          (adminThere_of_other (fun _ _ => administers_delete_of_ne) hother)
        intro users _
        split <;> trivial

/-- There is always an administrator, in runs whose statements that take one away
are undisturbed. -/
theorem admin_there {start world : World Users Bool (Except AccountError Unit)}
    (hnone : start.calls = []) (hadmin : AdminThere start.shared)
    (run : Run (advance adminProgram id) (permitting (fun _ _ => True) undisturbed) start world) :
    AdminThere world.shared := by
  have hholds := @holds_of_run _ _ _ _ adminProgram id _ _ _ _ AdminThere
    (fun _ call => LeavesAdmin call.seen call.rest) run
    (fun state request _ _ => leavesAdmin_adminProgram state request)
    (fun users _ _ _ outcome hadmin hgood hseen =>
      ⟨(hgood outcome users hadmin).1 hseen, (hgood outcome users hadmin).2⟩)
    (fun _ _ _ _ _ _ _ _ _ hgood => hgood) (fun _ hadmin => hadmin) hadmin
    (by simp [hnone])
  exact hholds.1

section Two

/-- Two administrators. -/
def twoAdmins : Users where
  rows := [⟨1, "ada".toList, [], .admin, true, 0⟩, ⟨2, "bob".toList, [], .admin, true, 0⟩]
  lastId := 2
  ids := by simp
  idsApart := by simp
  namesApart := by simp

def twoAdminsWorld : World Users Bool (Except AccountError Unit) where
  shared := twoAdmins
  calls := []

/-- A call's last statement met the rows that are there. -/
def meetsSameRows (world : World Users Bool (Except AccountError Unit)) :
    Action AdminRequest Bool → Bool
  | .advance call _ => (world.calls[call]?).all fun going => going.seen.rows = world.shared.rows
  | _ => true

theorem undisturbed_of_meetsSameRows (world : World Users Bool (Except AccountError Unit))
    (action : Action AdminRequest Bool) (hsame : meetsSameRows world action = true) :
    permitting (fun _ _ => True) undisturbed world action := by
  cases action with
  | start request => trivial
  | cut => trivial
  | advance call outcome =>
      intro going hgoing
      rw [meetsSameRows, hgoing] at hsame
      have hrows : going.seen.rows = world.shared.rows := of_decide_eq_true hsame
      rw [undisturbed]
      split
      · trivial
      · rintro _ id ⟨user, huser, huserId⟩
        exact ⟨user, hrows ▸ huser, huserId⟩

/-- One administrator demotes the other. -/
theorem admin_there_of_demotion : ∃ world,
    Run (advance adminProgram id) (permitting (fun _ _ => True) undisturbed) twoAdminsWorld world ∧
      (world.shared.rows.map (·.role) = [.admin, .viewer]) ∧ AdminThere world.shared := by
  obtain ⟨world, run, hrows⟩ := exists_run_of_exec (advance adminProgram id) twoAdminsWorld
    meetsSameRows [.start (.role 2 "viewer".toList), .advance 0 true, .advance 0 true]
    (fun world => world.shared.rows.map (·.role) = [.admin, .viewer]) undisturbed_of_meetsSameRows
    (by decide +kernel)
  have hadmin : AdminThere twoAdminsWorld.shared :=
    ⟨1, _, List.mem_cons_self, rfl, by decide⟩
  exact ⟨world, run, of_decide_eq_true hrows, admin_there rfl hadmin run⟩

/-- Two administrators who demote each other at one time leave none. -/
theorem no_admin_left : ¬ ∀ start world : World Users Bool (Except AccountError Unit),
    start.calls = [] → AdminThere start.shared →
    Run (advance adminProgram id) (permitting (fun _ _ => True) fun _ _ _ => True) start world →
    AdminThere world.shared := by
  intro hall
  obtain ⟨world, run, hnone⟩ := exists_run_of_exec (advance adminProgram id) twoAdminsWorld
    (fun _ _ => true)
    [.start (.role 2 "viewer".toList), .start (.role 1 "viewer".toList), .advance 0 true,
      .advance 1 true, .advance 0 true, .advance 1 true]
    (fun world => !world.shared.rows.any User.administers)
    (fun _ action _ => show permitting (fun _ _ => True) (fun _ _ _ => True) _ action by
      cases action <;> simp [permitting]) (by decide +kernel)
  obtain ⟨_, user, huser, _, hadministers⟩ := hall twoAdminsWorld world rfl
    ⟨1, _, List.mem_cons_self, rfl, by decide⟩ run
  simp only [Bool.not_eq_true', List.any_eq_false] at hnone
  exact hnone user huser hadministers

end Two

end EasyWaf.Management
