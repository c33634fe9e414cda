import EasyWaf.Import.Keeps

/-!
# The database an import is swapped in as

Every run of imports, of writes beside them and of restarts: where an import's copy
is not taken away while the import needs it, and nothing an import keeps is written
while a copy waits, a restart leaves what was kept as it was.
-/

namespace EasyWaf.Import

open Management Machine

variable {Config Rest Exported : Type} (rules : Rules Config Rest Exported)

/-- A copy waits for the next start, or for the import that works on it. -/
def Store.Waits (store : Store Config Rest Exported) (file : ℕ) : Prop :=
  store.staged = some file ∨ store.holder ≠ none ∧ store.work = some file

/-- The actions a run may take: no write beside a waiting copy changes what is
kept of it or ends a session, and no import removes the copy of another. -/
def allowed (world : World Config Rest Exported) : Action Config Rest Exported → Prop
  | .write change => ∀ file copy, world.store.Waits file → world.store.files[file]? = some copy →
      Kept copy.document copy.importer world.store.live (change world.store.live) ∧
        StaysEnded (change world.store.live).users world.store.live.users
  | .advance call works => ∀ under document, world.calls[call]? = some under →
      under.stage = .planned document → works = true → world.store.holder = none
  | _ => True

/-! ## A copy -/

/-- Nothing that is kept was written since the copy was taken. -/
structure Copy.Current (copy : Copy Config Rest Exported) (live : Database Config Rest) : Prop where
  kept : Kept copy.document copy.importer copy.base live
  ended : StaysEnded live.users copy.base.users

/-- The whole file was applied. -/
def Copy.Applied (copy : Copy Config Rest Exported) : Prop :=
  apply rules copy.document copy.importer copy.base = some copy.content

/-- How far an import has come with its copy. -/
inductive Progress (copy : Copy Config Rest Exported) (file : ℕ) : Stage Config Exported → Prop
  | copied (hcontent : copy.content = copy.base) : Progress copy file (.copied copy.document)
  | applying {left : List (Statement Config)}
      (hleft : runAll copy.importer left copy.content =
        apply rules copy.document copy.importer copy.base) :
      Progress copy file (.applying copy.document file left)
  | applied (happlied : copy.Applied rules) : Progress copy file (.applied copy.document)
  | failing : Progress copy file .failing

/-- The import has a copy at the working path. -/
def Stage.Holding : Stage Config Exported → Prop
  | .copied _ | .applying _ _ _ | .applied _ | .failing => True
  | _ => False

/-- The copy of an import, and what the import makes of it. -/
structure Held (world : World Config Rest Exported) (call file : ℕ)
    (copy : Copy Config Rest Exported) : Prop where
  under : ∃ under, world.calls[call]? = some under ∧ under.importer = copy.importer ∧
    Progress rules copy file under.stage
  work : world.store.work = some file
  there : world.store.files[file]? = some copy
  current : copy.Current world.store.live
  unstaged : world.store.staged ≠ some file
  begun : (copy.document, copy.importer) ∈ world.store.begun

/-- The document has been planned, and nothing was copied yet. -/
inductive Stage.Plans (document : Document Exported) : Stage Config Exported → Prop
  | planned : Plans document (.planned document)
  | cleared : Plans document (.cleared document)

structure World.Sound (world : World Config Rest Exported) : Prop where
  staged : ∀ file, world.store.staged = some file → ∃ copy,
    world.store.files[file]? = some copy ∧ copy.Applied rules ∧ copy.Current world.store.live ∧
      (copy.document, copy.importer) ∈ world.store.begun
  held : ∀ call, world.store.holder = some call → ∃ file copy, Held rules world call file copy
  holding : ∀ call under, world.calls[call]? = some under → under.stage.Holding →
    world.store.holder = some call
  begun : ∀ (call : ℕ) (under : Call Config Exported) (document : Document Exported),
    world.calls[call]? = some under → under.stage.Plans document →
      (document, under.importer) ∈ world.store.begun

section Steps

variable {rules} {world : World Config Rest Exported} {store : Store Config Rest Exported}
variable {call file : ℕ} {under : Call Config Exported} {stage : Stage Config Exported}
variable {copy : Copy Config Rest Exported}

theorem Progress.holding (hprogress : Progress rules copy file stage) : stage.Holding := by
  cases hprogress <;> exact trivial

theorem Copy.Current.write {live next : Database Config Rest} (hcurrent : copy.Current live)
    (hkept : Kept copy.document copy.importer live next)
    (hended : StaysEnded next.users live.users) : copy.Current next :=
  ⟨hcurrent.kept.trans hkept, hended.trans hcurrent.ended⟩

/-- The world in which a call has come further. -/
def World.put (world : World Config Rest Exported) (store : Store Config Rest Exported) (call : ℕ)
    (under : Call Config Exported) (stage : Stage Config Exported) : World Config Rest Exported where
  store := store
  calls := world.calls.set call { under with stage := stage }

theorem put_self (hunder : world.calls[call]? = some under) :
    (world.put store call under stage).calls[call]? = some { under with stage := stage } := by
  obtain ⟨hlt, -⟩ := List.getElem?_eq_some_iff.mp hunder
  simp [World.put, hlt]

theorem put_of_ne {other : ℕ} (hne : other ≠ call) :
    (world.put store call under stage).calls[other]? = world.calls[other]? := by
  simp [World.put, List.getElem?_set_ne (Ne.symm hne)]

/-- An import that holds no copy. -/
theorem World.Sound.holder_ne (hsound : world.Sound rules) (hunder : world.calls[call]? = some under)
    (hfree : ¬ under.stage.Holding) : world.store.holder ≠ some call := by
  intro hholder
  obtain ⟨file, copy, hheld⟩ := hsound.held call hholder
  obtain ⟨under', hunder', -, hprogress⟩ := hheld.under
  obtain rfl : under = under' := Option.some.inj (hunder.symm.trans hunder')
  exact hfree hprogress.holding

/-- A step of an import that neither holds a copy nor gets one. -/
theorem World.Sound.putFree (hsound : world.Sound rules) (hunder : world.calls[call]? = some under)
    (hfree : ¬ under.stage.Holding) (hstage : ¬ stage.Holding)
    (hlive : store.live = world.store.live) (hfiles : store.files = world.store.files)
    (hstaged : store.staged = world.store.staged) (hholder : store.holder = world.store.holder)
    (hwork : world.store.holder = none ∨ store.work = world.store.work)
    (hbegun : world.store.begun ⊆ store.begun)
    (hplans : ∀ document, stage.Plans document → (document, under.importer) ∈ store.begun) :
    (world.put store call under stage).Sound rules where
  staged file' hfile := by
    obtain ⟨copy, hcopy, happlied, hcurrent, hmem⟩ := hsound.staged file' (hstaged ▸ hfile)
    exact ⟨copy, hfiles ▸ hcopy, happlied, hlive ▸ hcurrent, hbegun hmem⟩
  held call' hcall' := by
    replace hcall' : world.store.holder = some call' := hholder ▸ hcall'
    have hne : call' ≠ call := fun h => hsound.holder_ne hunder hfree (h ▸ hcall')
    have hwork : store.work = world.store.work := hwork.resolve_left (by simp [hcall'])
    obtain ⟨file, copy, hheld⟩ := hsound.held call' hcall'
    refine ⟨file, copy, ?_, hwork.trans hheld.work, hfiles ▸ hheld.there, hlive ▸ hheld.current,
      hstaged ▸ hheld.unstaged, hbegun hheld.begun⟩
    rw [put_of_ne hne]
    exact hheld.under
  holding call' under' hcall' hholding := by
    by_cases hne : call' = call
    · subst hne
      rw [put_self hunder, Option.some.injEq] at hcall'
      subst hcall'
      exact absurd hholding hstage
    · rw [put_of_ne hne] at hcall'
      exact hholder.trans (hsound.holding call' under' hcall' hholding)
  begun call' under' document hcall' hplanned := by
    by_cases hne : call' = call
    · subst hne
      rw [put_self hunder, Option.some.injEq] at hcall'
      subst hcall'
      exact hplans document hplanned
    · rw [put_of_ne hne] at hcall'
      exact hbegun (hsound.begun call' under' document hcall' hplanned)

/-- An import takes its copy. -/
theorem World.Sound.putTaken (hsound : world.Sound rules) (hunder : world.calls[call]? = some under)
    {document : Document Exported} (hbegun : (document, under.importer) ∈ world.store.begun)
    (htake : world.store.take call document under.importer = some store) :
    (world.put store call under (.copied document)).Sound rules := by
  rw [Store.take] at htake
  split at htake
  · contradiction
  next hwork =>
    obtain rfl := Option.some.inj htake
    have hholder : world.store.holder = none := by
      by_contra hsome
      obtain ⟨call', hcall'⟩ := Option.ne_none_iff_exists'.mp hsome
      obtain ⟨file, copy, hheld⟩ := hsound.held call' hcall'
      exact absurd (hwork.symm.trans hheld.work) (by simp)
    have hfile {file : ℕ} {copy : Copy Config Rest Exported}
        (hcopy : world.store.files[file]? = some copy) (last : Copy Config Rest Exported) :
        (world.store.files ++ [last])[file]? = some copy := by
      obtain ⟨hlt, -⟩ := List.getElem?_eq_some_iff.mp hcopy
      rw [List.getElem?_append_left hlt, hcopy]
    refine ⟨fun file hstaged => ?_, fun call' hcall' => ?_, fun call' under' hcall' hholding => ?_,
      fun call' under' document' hcall' hplanned => ?_⟩
    · obtain ⟨copy, hcopy, happlied⟩ := hsound.staged file hstaged
      exact ⟨copy, hfile hcopy _, happlied⟩
    · obtain rfl : call = call' := Option.some.inj hcall'
      refine ⟨world.store.files.length, ⟨world.store.live, world.store.live, document,
        under.importer⟩, ⟨⟨_, put_self hunder, rfl, .copied rfl⟩, rfl, ?_, ⟨.refl, fun _ h => h⟩,
        ?_, hbegun⟩⟩
      · simp [World.put]
      · intro hstaged
        obtain ⟨copy, hcopy, -⟩ := hsound.staged _ hstaged
        simp at hcopy
    · by_cases hne : call' = call
      · exact hne ▸ rfl
      · rw [put_of_ne hne] at hcall'
        exact absurd (hsound.holding call' under' hcall' hholding) (by simp [hholder])
    · by_cases hne : call' = call
      · subst hne
        rw [put_self hunder, Option.some.injEq] at hcall'
        subst hcall'
        cases hplanned
      · rw [put_of_ne hne] at hcall'
        exact hsound.begun call' under' document' hcall' hplanned

/-- An import gets further with its copy. -/
theorem World.Sound.putHeld (hsound : world.Sound rules) (hunder : world.calls[call]? = some under)
    (hheld : Held rules world call file copy) (hholder : world.store.holder = some call)
    (content : Database Config Rest)
    (hprogress : Progress rules { copy with content } file stage) :
    (World.put world
      { world.store with files := world.store.files.set file { copy with content } }
      call under stage).Sound rules where
  staged file' hfile := by
    obtain ⟨other, hother, happlied, hcurrent, hmem⟩ := hsound.staged file' hfile
    have hne : file ≠ file' := fun h => hheld.unstaged (h ▸ hfile)
    exact ⟨other, (List.getElem?_set_ne hne).trans hother, happlied, hcurrent, hmem⟩
  held call' hcall' := by
    obtain rfl : call = call' := Option.some.inj (hholder.symm.trans hcall')
    obtain ⟨under', hunder', himporter, -⟩ := hheld.under
    obtain rfl : under = under' := Option.some.inj (hunder.symm.trans hunder')
    refine ⟨file, { copy with content }, ⟨_, put_self hunder, himporter, hprogress⟩, hheld.work,
      ?_, ⟨hheld.current.kept, hheld.current.ended⟩, hheld.unstaged, hheld.begun⟩
    obtain ⟨hlt, -⟩ := List.getElem?_eq_some_iff.mp hheld.there
    simp [World.put, hlt]
  holding call' under' hcall' hholding := by
    by_cases hne : call' = call
    · exact hne ▸ hholder
    · rw [put_of_ne hne] at hcall'
      exact hsound.holding call' under' hcall' hholding
  begun call' under' document hcall' hplanned := by
    by_cases hne : call' = call
    · subst hne
      rw [put_self hunder, Option.some.injEq] at hcall'
      subst hcall'
      cases hplanned <;> cases hprogress
    · rw [put_of_ne hne] at hcall'
      exact hsound.begun call' under' document hcall' hplanned

/-- An import needs its copy no longer; what waits then is staged. -/
theorem World.Sound.putReleased (hsound : world.Sound rules)
    (hunder : world.calls[call]? = some under) (hholder : world.store.holder = some call)
    (hfree : ¬ stage.Holding) (hplans : ∀ document, ¬ stage.Plans document)
    (work staged : Option ℕ)
    (hstaged : ∀ file, staged = some file → ∃ copy, world.store.files[file]? = some copy ∧
      copy.Applied rules ∧ copy.Current world.store.live ∧
        (copy.document, copy.importer) ∈ world.store.begun) :
    (World.put world { world.store with work, staged, holder := none } call under stage).Sound
      rules where
  staged := hstaged
  held call' hcall' := by simp [World.put] at hcall'
  holding call' under' hcall' hholding := by
    by_cases hne : call' = call
    · subst hne
      rw [put_self hunder, Option.some.injEq] at hcall'
      subst hcall'
      exact absurd hholding hfree
    · rw [put_of_ne hne] at hcall'
      have hother := hsound.holding call' under' hcall' hholding
      exact absurd (Option.some.inj (hother.symm.trans hholder)) hne
  begun call' under' document hcall' hplanned := by
    by_cases hne : call' = call
    · subst hne
      rw [put_self hunder, Option.some.injEq] at hcall'
      subst hcall'
      exact absurd hplanned (hplans document)
    · rw [put_of_ne hne] at hcall'
      exact hsound.begun call' under' document hcall' hplanned

/-- The import that holds a copy and the copy it holds. -/
theorem World.Sound.exists_held (hsound : world.Sound rules)
    (hunder : world.calls[call]? = some under) (hholding : under.stage.Holding) :
    world.store.holder = some call ∧ ∃ file copy, Held rules world call file copy ∧
      under.importer = copy.importer ∧ Progress rules copy file under.stage := by
  have hholder := hsound.holding call under hunder hholding
  obtain ⟨file, copy, hheld⟩ := hsound.held call hholder
  obtain ⟨under', hunder', himporter, hprogress⟩ := hheld.under
  obtain rfl : under = under' := Option.some.inj (hunder.symm.trans hunder')
  exact ⟨hholder, file, copy, hheld, himporter, hprogress⟩

/-- An import gets further, or fails, with its copy as it is. -/
theorem World.Sound.putSame (hsound : world.Sound rules) (hunder : world.calls[call]? = some under)
    (hheld : Held rules world call file copy) (hholder : world.store.holder = some call)
    (hprogress : Progress rules copy file stage) :
    (world.put world.store call under stage).Sound rules := by
  have hset := hsound.putHeld hunder hheld hholder copy.content hprogress
  have hsame : world.store.files.set file { copy with content := copy.content } =
      world.store.files := by
    obtain ⟨hlt, hget⟩ := List.getElem?_eq_some_iff.mp hheld.there
    exact hget ▸ List.set_getElem_self hlt
  rwa [hsame] at hset

/-- The next operation of an import. -/
theorem World.Sound.proceed (hsound : world.Sound rules) (hunder : world.calls[call]? = some under)
    {works : Bool} (hallowed : allowed world (.advance call works))
    (hproceed : proceed rules call under.importer works world.store under.stage =
      some (store, stage)) : (world.put store call under stage).Sound rules := by
  -- a step of an import without a copy that changes nothing it could share
  have hfree (hnow : ¬ under.stage.Holding) (hstage : ¬ stage.Holding)
      (hplans : ∀ document, ¬ stage.Plans document) (hsame : store = world.store) :
      (world.put store call under stage).Sound rules := by
    subst hsame
    exact hsound.putFree hunder hnow hstage rfl rfl rfl rfl (.inr rfl) (List.Subset.refl _)
      fun document h => absurd h (hplans document)
  cases hnow : under.stage with
  | asked =>
      simp only [hnow, Import.proceed] at hproceed hfree
      split at hproceed <;>
      · simp only [Option.some.injEq, Prod.mk.injEq] at hproceed
        obtain ⟨rfl, rfl⟩ := hproceed
        exact hfree id id (fun _ h => by cases h) rfl
  | read document =>
      simp only [hnow, Import.proceed] at hproceed hfree
      split at hproceed
      · simp only [Option.some.injEq, Prod.mk.injEq] at hproceed
        obtain ⟨rfl, rfl⟩ := hproceed
        exact hfree id id (fun _ h => by cases h) rfl
      · simp only [Option.some.injEq, Prod.mk.injEq] at hproceed
        obtain ⟨rfl, rfl⟩ := hproceed
        refine hsound.putFree hunder (by simp [hnow, Stage.Holding]) id rfl rfl rfl rfl (.inr rfl)
          (List.subset_cons_self _ _) ?_
        intro document' hplans
        cases hplans
        exact List.mem_cons_self
  | planned document =>
      simp only [hnow, Import.proceed, Option.some.injEq, Prod.mk.injEq] at hproceed
      obtain ⟨rfl, rfl⟩ := hproceed
      have hplans (document' : Document Exported)
          (h : (Stage.cleared document : Stage Config Exported).Plans document') :
          (document', under.importer) ∈ world.store.begun := by
        cases h
        exact hsound.begun call under document hunder (hnow ▸ .planned)
      cases works with
      | false =>
          exact hsound.putFree hunder (by simp [hnow, Stage.Holding]) id rfl rfl rfl rfl (.inr rfl)
            (List.Subset.refl _) hplans
      | true =>
          exact hsound.putFree hunder (by simp [hnow, Stage.Holding]) id rfl rfl rfl rfl
            (.inl (hallowed under document hunder hnow rfl)) (List.Subset.refl _) hplans
  | cleared document =>
      simp only [hnow, Import.proceed] at hproceed hfree
      split at hproceed
      · next _ _ taken htake =>
          simp only [Option.some.injEq, Prod.mk.injEq] at hproceed
          obtain ⟨rfl, rfl⟩ := hproceed
          exact hsound.putTaken hunder
            (hsound.begun call under document hunder (hnow ▸ .cleared)) htake
      · simp only [Option.some.injEq, Prod.mk.injEq] at hproceed
        obtain ⟨rfl, rfl⟩ := hproceed
        exact hfree id id (fun _ h => by cases h) rfl
  | copied document =>
      obtain ⟨hholder, file, copy, hheld, himporter, hprogress⟩ :=
        hsound.exists_held hunder (by simp [hnow, Stage.Holding])
      rw [hnow] at hprogress
      cases hprogress with
      | copied hcontent =>
          simp only [hnow, Import.proceed, hheld.work] at hproceed
          split at hproceed
          · next _ _ opened hopened =>
              simp only [Option.some.injEq, Prod.mk.injEq] at hproceed hopened
              obtain ⟨rfl, rfl⟩ := hproceed
              apply hsound.putSame hunder hheld hholder
              rw [← hopened, himporter]
              exact .applying (by rw [hcontent, apply])
          · simp only [Option.some.injEq, Prod.mk.injEq] at hproceed
            obtain ⟨rfl, rfl⟩ := hproceed
            exact hsound.putSame hunder hheld hholder .failing
  | applying document opened left =>
      obtain ⟨hholder, file, copy, hheld, himporter, hprogress⟩ :=
        hsound.exists_held hunder (by simp [hnow, Stage.Holding])
      rw [hnow] at hprogress
      cases hprogress with
      | applying hleft =>
          cases left with
          | nil =>
              simp only [hnow, Import.proceed, Option.some.injEq, Prod.mk.injEq] at hproceed
              obtain ⟨rfl, rfl⟩ := hproceed
              apply hsound.putSame hunder hheld hholder
              cases works with
              | false => exact .failing
              | true => exact .applied hleft.symm
          | cons statement left =>
              simp only [hnow, Import.proceed, Store.execute, hheld.there] at hproceed
              rw [himporter] at hproceed
              split at hproceed
              · next _ _ changed hchanged =>
                  obtain ⟨content, hcontent, rfl⟩ := Option.map_eq_some_iff.mp hchanged
                  simp only [Option.some.injEq, Prod.mk.injEq] at hproceed
                  obtain ⟨rfl, rfl⟩ := hproceed
                  apply hsound.putHeld hunder hheld hholder content
                  have hrest : runAll copy.importer left content =
                      apply rules copy.document copy.importer copy.base := by
                    rw [← hleft, runAll, runAll, List.foldlM_cons, hcontent]
                    rfl
                  exact .applying hrest
              · simp only [Option.some.injEq, Prod.mk.injEq] at hproceed
                obtain ⟨rfl, rfl⟩ := hproceed
                exact hsound.putSame hunder hheld hholder .failing
  | applied document =>
      obtain ⟨hholder, file, copy, hheld, himporter, hprogress⟩ :=
        hsound.exists_held hunder (by simp [hnow, Stage.Holding])
      rw [hnow] at hprogress
      cases hprogress with
      | applied happlied =>
          simp only [hnow, Import.proceed, hheld.work, Store.release, hholder, if_true] at hproceed
          split at hproceed
          · next _ _ moved hmoved =>
              simp only [Option.some.injEq, Prod.mk.injEq] at hproceed hmoved
              obtain ⟨rfl, rfl⟩ := hproceed
              subst hmoved
              apply hsound.putReleased hunder hholder id (fun _ h => by cases h)
              intro file' hfile
              obtain rfl := Option.some.inj hfile
              exact ⟨copy, hheld.there, happlied, hheld.current, hheld.begun⟩
          · simp only [Option.some.injEq, Prod.mk.injEq] at hproceed
            obtain ⟨rfl, rfl⟩ := hproceed
            exact hsound.putSame hunder hheld hholder .failing
  | failing =>
      obtain ⟨hholder, -⟩ := hsound.exists_held hunder (by simp [hnow, Stage.Holding])
      simp only [hnow, Import.proceed, Store.release, Option.some.injEq, Prod.mk.injEq] at hproceed
      obtain ⟨rfl, rfl⟩ := hproceed
      cases works with
      | false =>
          simp only [Bool.false_eq_true, if_false, hholder, if_true]
          exact hsound.putReleased hunder hholder id (fun _ h => by cases h) _ _ hsound.staged
      | true =>
          simp only [if_true, hholder]
          exact hsound.putReleased hunder hholder id (fun _ h => by cases h) _ _ hsound.staged
  | staged =>
      simp only [hnow, Import.proceed, Option.some.injEq, Prod.mk.injEq] at hproceed
      obtain ⟨rfl, rfl⟩ := hproceed
      cases works <;>
      exact hsound.putFree hunder (by simp [hnow, Stage.Holding]) id rfl rfl rfl rfl (.inr rfl)
        (List.Subset.refl _) fun _ h => by cases h
  | answered imported => simp [hnow, Import.proceed] at hproceed

theorem World.Sound.write (hsound : world.Sound rules)
    {change : Database Config Rest → Database Config Rest}
    (hallowed : allowed world (.write change)) :
    World.Sound rules
      { world with store := { world.store with live := change world.store.live } } where
  staged file hfile := by
    obtain ⟨copy, hcopy, happlied, hcurrent, hmem⟩ := hsound.staged file hfile
    obtain ⟨hkept, hended⟩ := hallowed file copy (.inl hfile) hcopy
    exact ⟨copy, hcopy, happlied, hcurrent.write hkept hended, hmem⟩
  held call hcall := by
    obtain ⟨file, copy, hheld⟩ := hsound.held call hcall
    have hholder : world.store.holder ≠ none := by
      intro hnone
      exact absurd (hnone.symm.trans hcall) (by simp)
    obtain ⟨hkept, hended⟩ := hallowed file copy (.inr ⟨hholder, hheld.work⟩) hheld.there
    exact ⟨file, copy, hheld.under, hheld.work, hheld.there, hheld.current.write hkept hended,
      hheld.unstaged, hheld.begun⟩
  holding := hsound.holding
  begun := hsound.begun

/-- Another administrator asks for an import. -/
theorem World.Sound.ask (hsound : world.Sound rules) (importer : Text) :
    World.Sound rules { world with calls := world.calls ++ [⟨importer, .asked⟩] } := by
  have hold {call : ℕ} {under : Call Config Exported}
      (hcall : (world.calls ++ [⟨importer, .asked⟩])[call]? = some under) :
      world.calls[call]? = some under ∨ under = ⟨importer, .asked⟩ := by
    rcases lt_or_ge call world.calls.length with hlt | hge
    · rw [List.getElem?_append_left hlt] at hcall
      exact .inl hcall
    · rw [List.getElem?_append_right hge] at hcall
      exact .inr (List.mem_singleton.mp (List.mem_of_getElem? hcall))
  refine ⟨hsound.staged, fun call hcall => ?_, fun call under hcall hholding => ?_,
    fun call under document hcall hplans => ?_⟩
  · obtain ⟨file, copy, hheld⟩ := hsound.held call hcall
    obtain ⟨under, hunder, hrest⟩ := hheld.under
    obtain ⟨hlt, -⟩ := List.getElem?_eq_some_iff.mp hunder
    refine ⟨file, copy, ⟨under, ?_, hrest⟩, hheld.work, hheld.there, hheld.current,
      hheld.unstaged, hheld.begun⟩
    rw [List.getElem?_append_left hlt, hunder]
  · rcases hold hcall with hcall | rfl
    · exact hsound.holding call under hcall hholding
    · exact absurd hholding id
  · rcases hold hcall with hcall | rfl
    · exact hsound.begun call under document hcall hplans
    · cases hplans

/-- After a restart nothing waits. -/
theorem sound_restart : World.Sound rules { store := store.restart, calls := [] } := by
  have hstaged : store.restart.staged = none := by
    rw [Store.restart]
    split <;> rfl
  have hholder : store.restart.holder = none := by
    rw [Store.restart]
    split <;> rfl
  refine ⟨fun file hfile => ?_, fun call hcall => ?_, fun call under hcall => ?_,
    fun call under document hcall => ?_⟩
  · exact absurd (hstaged.symm.trans hfile) (by simp)
  · exact absurd (hholder.symm.trans hcall) (by simp)
  · simp at hcall
  · simp at hcall

theorem World.Sound.step {action : Action Config Rest Exported} {next : World Config Rest Exported}
    (hsound : world.Sound rules) (hallowed : allowed world action)
    (hstep : step rules world action = some next) : next.Sound rules := by
  cases action with
  | upload document =>
      obtain rfl := Option.some.inj hstep
      refine ⟨hsound.staged, fun call hcall => ?_, hsound.holding, hsound.begun⟩
      obtain ⟨file, copy, hheld⟩ := hsound.held call hcall
      exact ⟨file, copy, hheld.under, hheld.work, hheld.there, hheld.current, hheld.unstaged,
        hheld.begun⟩
  | discard =>
      obtain rfl := Option.some.inj hstep
      refine ⟨hsound.staged, fun call hcall => ?_, hsound.holding, hsound.begun⟩
      obtain ⟨file, copy, hheld⟩ := hsound.held call hcall
      exact ⟨file, copy, hheld.under, hheld.work, hheld.there, hheld.current, hheld.unstaged,
        hheld.begun⟩
  | ask importer =>
      obtain rfl := Option.some.inj hstep
      exact hsound.ask importer
  | write change =>
      obtain rfl := Option.some.inj hstep
      exact hsound.write hallowed
  | advance call works =>
      simp only [Import.step] at hstep
      split at hstep
      · next under hunder =>
          obtain ⟨⟨store, stage⟩, hproceed, rfl⟩ := Option.map_eq_some_iff.mp hstep
          exact hsound.proceed hunder hallowed hproceed
      · simp at hstep
  | restart =>
      obtain rfl := Option.some.inj hstep
      exact sound_restart

end Steps

/-! ## Every run -/

/-- Nothing is under way, staged or held. -/
structure World.Fresh (world : World Config Rest Exported) : Prop where
  staged : world.store.staged = none
  holder : world.store.holder = none
  calls : world.calls = []

/-- The live database is the same after a restart, or what one of the files makes of
an earlier one; what that import keeps is as it was, and what had ended stays
ended. -/
def KeepsItsWord (before after : Store Config Rest Exported) : Prop :=
  after.live = before.live ∨
    ∃ document importer base, (document, importer) ∈ before.begun ∧
      apply rules document importer base = some after.live ∧
      Kept document importer before.live after.live ∧
      StaysEnded before.live.users after.live.users

section Runs

variable {rules} {start world next : World Config Rest Exported}

theorem World.Sound.keepsItsWord (hsound : world.Sound rules) :
    KeepsItsWord rules world.store world.store.restart := by
  cases hstaged : world.store.staged with
  | none => exact .inl (by simp [Store.restart, hstaged])
  | some file =>
      obtain ⟨copy, hcopy, happlied, hcurrent, hmem⟩ := hsound.staged file hstaged
      have hlive : world.store.restart.live = copy.content := by
        simp [Store.restart, hstaged, hcopy]
      obtain ⟨hkept, hended⟩ := kept_of_apply happlied
      refine .inr ⟨copy.document, copy.importer, copy.base, hmem, hlive ▸ happlied, ?_, ?_⟩
      · exact hlive ▸ hcurrent.kept.symm.trans hkept
      · exact hlive ▸ hcurrent.ended.trans hended

/-- What an import keeps is kept by the restart that swaps it in. -/
theorem import_keeps_its_word (hfresh : start.Fresh)
    (run : Run (step rules) allowed start world) (hrestart : step rules world .restart = some next) :
    KeepsItsWord rules world.store next.store := by
  have hstart : start.Sound rules := by
    refine ⟨fun file hfile => ?_, fun call hcall => ?_, fun call under hcall => ?_,
      fun call under document hcall => ?_⟩
    · exact absurd (hfresh.staged.symm.trans hfile) (by simp)
    · exact absurd (hfresh.holder.symm.trans hcall) (by simp)
    · simp [hfresh.calls] at hcall
    · simp [hfresh.calls] at hcall
  have hworld : world.Sound rules := by
    apply run.invariant (World.Sound rules) _ hstart
    intro world action next hsound hallowed hstep
    exact hsound.step hallowed hstep
  obtain rfl := Option.some.inj hrestart
  exact hworld.keepsItsWord

end Runs

/-! ## An import beside a write -/

def Stage.isPlanned : Stage Config Exported → Bool
  | .planned _ => true
  | _ => false

/-- A run without writes in which no two imports meet. -/
def undisturbed (world : World Config Rest Exported) : Action Config Rest Exported → Bool
  | .write _ => false
  | .advance call _ =>
      world.store.holder.isNone || (world.calls[call]?).all fun under => !under.stage.isPlanned
  | _ => true

theorem allowed_of_undisturbed (world : World Config Rest Exported)
    (action : Action Config Rest Exported) (hundisturbed : undisturbed world action = true) :
    allowed world action := by
  cases action with
  | write change => contradiction
  | advance call works =>
      intro under document hunder hplanned _
      simpa [undisturbed, hunder, hplanned, Stage.isPlanned] using hundisturbed
  | upload document => trivial
  | discard => trivial
  | ask importer => trivial
  | restart => trivial

/-- A file that sets the configuration, and leaves the accounts out. -/
def settingsOnly : Rules ℕ ℕ ℕ where
  blocked _ _ _ := false
  configuration exported _ := [fun _ => some exported]

def beforeImport : World ℕ ℕ ℕ where
  store :=
    { live := ⟨adaAndBob, 0, 0⟩
      candidate := none
      files := []
      work := none
      staged := none
      holder := none
      begun := [] }
  calls := []

/-- An import up to its staging, with what is done once the copy is taken. -/
def importing (meanwhile : List (Action ℕ ℕ ℕ)) : List (Action ℕ ℕ ℕ) :=
  [.upload ⟨5, []⟩, .ask "ada".toList] ++ List.replicate 4 (.advance 0 true) ++ meanwhile ++
    List.replicate 5 (.advance 0 true)

theorem fresh_beforeImport : beforeImport.Fresh := ⟨rfl, rfl, rfl⟩

theorem import_keeps_its_word_of_settings : ∃ world next,
    Run (step settingsOnly) allowed beforeImport world ∧
    step settingsOnly world .restart = some next ∧ next.store.live.config = 5 ∧
    KeepsItsWord settingsOnly world.store next.store := by
  obtain ⟨world, run, hworld⟩ := exists_run_of_exec (step settingsOnly) beforeImport undisturbed
    (importing []) (fun world => decide (world.store.restart.live.config = 5))
    allowed_of_undisturbed (by decide +kernel)
  exact ⟨world, { store := world.store.restart, calls := [] }, run, rfl, of_decide_eq_true hworld,
    import_keeps_its_word fresh_beforeImport run rfl⟩

/-- The sessions of an account are ended after the copy was taken. -/
theorem import_takes_back : ¬ ∀ start world next : World ℕ ℕ ℕ, start.Fresh →
    Run (step settingsOnly) anything start world →
    step settingsOnly world .restart = some next →
    KeepsItsWord settingsOnly world.store next.store := by
  intro hkeeps
  let signedOut : User := ⟨2, "bob".toList, "$2b$12$roses".toList, .viewer, true, 1⟩
  let signOut (database : Database ℕ ℕ) : Database ℕ ℕ :=
    { database with users := ((postAccountSignout 2).run true database.users).1 }
  obtain ⟨world, run, hworld⟩ := exists_run_of_exec (step settingsOnly) beforeImport
    (fun _ _ => true) (importing [.write signOut])
    (fun world => decide (signedOut ∈ world.store.live.users.rows ∧
      signedOut ∉ world.store.restart.live.users.rows ∧
      ∀ entry ∈ world.store.begun, entry.1.accounts = [])) (fun _ _ _ => trivial)
    (by decide +kernel)
  obtain ⟨hbefore, hafter, hbegun⟩ := of_decide_eq_true hworld
  rcases hkeeps _ _ _ fresh_beforeImport run rfl with hsame | ⟨document, importer, _, hmem, _, hkept, _⟩
  · exact hafter (hsame ▸ hbefore)
  · have hnames : signedOut.username ∉ document.names := by
      rw [Document.names, hbegun _ hmem]
      exact List.not_mem_nil
    exact hafter ((hkept.users.accounts signedOut hnames).mpr hbefore)

end EasyWaf.Import
