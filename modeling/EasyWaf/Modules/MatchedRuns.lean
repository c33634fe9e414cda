import EasyWaf.Modules.SharedParts

/-!
# Conditions that carry a value on

A condition followed by `MATCHED` ones holds with them where one value can be
carried through: matched by the first, then by each that follows after its own
decodings.
-/

namespace EasyWaf.Modules

open EasyWaf.Core

/-- A condition on what the one before it matched. -/
def CompiledCondition.readsMatched (condition : CompiledCondition) : Bool :=
  condition.targets = [.matched]

section Runs

/-- Each condition with the `MATCHED` ones that follow it, as far as they go. -/
def runs : List CompiledCondition → List (CompiledCondition × List CompiledCondition)
  | [] => []
  | first :: rest =>
      (first, rest.takeWhile (·.readsMatched)) :: runs (rest.dropWhile (·.readsMatched))
  termination_by conditions => conditions.length
  decreasing_by exact Nat.lt_succ_of_le (List.dropWhile_sublist _).length_le

theorem runs_cons (first : CompiledCondition) (rest : List CompiledCondition) :
    runs (first :: rest) =
      (first, rest.takeWhile (·.readsMatched)) :: runs (rest.dropWhile (·.readsMatched)) := by
  rw [runs]

/-- The runs are the conditions, in order, and what follows in one is `MATCHED`. -/
theorem flatMap_runs (conditions : List CompiledCondition) :
    ((runs conditions).flatMap fun run => run.1 :: run.2) = conditions ∧
      ∀ run ∈ runs conditions, ∀ condition ∈ run.2, condition.readsMatched = true := by
  fun_induction runs conditions with
  | case1 => simp
  | case2 first rest ih =>
      constructor
      · rw [List.flatMap_cons, ih.1, List.cons_append, List.takeWhile_append_dropWhile]
      · apply List.forall_mem_cons.mpr ⟨_, ih.2⟩
        intro condition hcondition
        exact List.mem_takeWhile_imp hcondition

theorem head?_dropWhile (conditions : List CompiledCondition) :
    (conditions.dropWhile (·.readsMatched)).head?.any (·.readsMatched) = false := by
  cases hdrop : conditions.dropWhile (·.readsMatched) with
  | nil => rfl
  | cons condition others =>
      have hnot := List.head_dropWhile_not (·.readsMatched) (l := conditions) (by simp [hdrop])
      simpa [hdrop] using hnot

end Runs

namespace Source

variable (source : Source) (whole : Whole)

/-- A value can be carried on: each condition's pattern is asked of one of the
texts its own decodings make of the value before. -/
def Carried : Text → List CompiledCondition → Prop
  | _, [] => True
  | value, condition :: rest =>
      ∃ next ∈ Transform.applyAll source.engine (ownDecodings condition.chain) value,
        (condition.isMatch next = true ↔ condition.negate = false) ∧ Carried next rest

/-- The forms a condition is matched in. -/
def forms (condition : CompiledCondition) : List Text :=
  source.conditionForms whole condition.targets condition.chain

/-- A condition on its own: some form matches, or none where it is negated. -/
def HoldsAlone (condition : CompiledCondition) : Prop :=
  (∃ form ∈ source.forms whole condition, condition.isMatch form = true) ↔
    condition.negate = false

/-- A condition with those that follow it. -/
def HoldsCarried (first : CompiledCondition) (following : List CompiledCondition) : Prop :=
  first.negate = false ∧
    ∃ value ∈ source.forms whole first, first.isMatch value = true ∧ source.Carried value following

/-- Every condition on its own that is neither `MATCHED` nor followed by one, and
every condition followed by `MATCHED` ones with them. -/
def EachHolds (conditions : List CompiledCondition) : Prop :=
  (∀ run ∈ runs conditions, run.1.readsMatched = false → run.2 = [] →
      source.HoldsAlone whole run.1) ∧
    ∀ run ∈ runs conditions, run.2 ≠ [] → source.HoldsCarried whole run.1 run.2

section Carrying

variable {source whole}

theorem conditionForms_matched (chain : List Transform) :
    source.conditionForms whole [.matched] chain = [] := by
  simp [conditionForms, readTargets, Target.isExcept, chainFormsOf, decodedForms, formsRead, visited]

theorem holdFrom_matched {condition : CompiledCondition} (hcondition : condition.readsMatched = true)
    (before : List Text) (rest : List CompiledCondition) :
    source.holdFrom whole (some before) (condition :: rest) =
      if (before.flatMap (Transform.applyAll source.engine (ownDecodings condition.chain))).filter
          (fun value => condition.isMatch value != condition.negate) = [] then false
      else source.holdFrom whole (some ((before.flatMap
        (Transform.applyAll source.engine (ownDecodings condition.chain))).filter
          fun value => condition.isMatch value != condition.negate)) rest := by
  rw [holdFrom.eq_def]
  exact if_pos (of_decide_eq_true hcondition)

theorem holdFrom_alone {condition : CompiledCondition} (hcondition : condition.readsMatched = false)
    {rest : List CompiledCondition} (hrest : rest.head?.any (·.readsMatched) = false)
    (matched : Option (List Text)) :
    source.holdFrom whole matched (condition :: rest) =
      if (source.forms whole condition).any condition.isMatch = condition.negate then false
      else source.holdFrom whole matched rest := by
  rw [holdFrom.eq_def]
  exact (if_neg (of_decide_eq_false hcondition)).trans (if_neg (Bool.eq_false_iff.mp hrest))

theorem holdFrom_passes {condition : CompiledCondition}
    (hcondition : condition.readsMatched = false) {rest : List CompiledCondition}
    (hrest : rest.head?.any (·.readsMatched) = true) (matched : Option (List Text)) :
    source.holdFrom whole matched (condition :: rest) =
      if condition.negate = true then false
      else if (source.forms whole condition).filter condition.isMatch = [] then false
      else source.holdFrom whole
        (some ((source.forms whole condition).filter condition.isMatch)) rest := by
  rw [holdFrom.eq_def]
  exact (if_neg (of_decide_eq_false hcondition)).trans (if_pos hrest)

/-- Conditions that do not begin with a `MATCHED` one read nothing of what came
before. -/
theorem holdFrom_eq_none {conditions : List CompiledCondition}
    (hhead : conditions.head?.any (·.readsMatched) = false) (matched : Option (List Text)) :
    source.holdFrom whole matched conditions = source.holdFrom whole none conditions := by
  induction conditions generalizing matched with
  | nil => rfl
  | cons condition rest ih =>
      have hcondition : condition.readsMatched = false := hhead
      cases hrest : rest.head?.any (·.readsMatched) with
      | true => rw [holdFrom_passes hcondition hrest, holdFrom_passes hcondition hrest]
      | false =>
          rw [holdFrom_alone hcondition hrest, holdFrom_alone hcondition hrest, ih hrest]

/-- What is kept through a run of `MATCHED` conditions is what can be carried
through it. -/
theorem holdFrom_run (source : Source) (whole : Whole) {before : List Text} (hbefore : before ≠ []) {run rest : List CompiledCondition}
    (hrun : ∀ condition ∈ run, condition.readsMatched = true)
    (hrest : rest.head?.any (·.readsMatched) = false) :
    source.holdFrom whole (some before) (run ++ rest) = true ↔
      (∃ value ∈ before, source.Carried value run) ∧ source.holdFrom whole none rest = true := by
  induction run generalizing before with
  | nil =>
      obtain ⟨value, hvalue⟩ := List.exists_mem_of_ne_nil before hbefore
      rw [List.nil_append, holdFrom_eq_none hrest]
      exact ⟨fun hholds => ⟨⟨value, hvalue, trivial⟩, hholds⟩, And.right⟩
  | cons condition others ih =>
      obtain ⟨hcondition, hothers⟩ := List.forall_mem_cons.mp hrun
      rw [List.cons_append, holdFrom_matched hcondition]
      have hkept (next : Text) : next ∈ (before.flatMap
          (Transform.applyAll source.engine (ownDecodings condition.chain))).filter
            (fun value => condition.isMatch value != condition.negate) ↔
          ∃ value ∈ before,
            next ∈ Transform.applyAll source.engine (ownDecodings condition.chain) value ∧
              (condition.isMatch next = true ↔ condition.negate = false) := by
        rw [List.mem_filter, List.mem_flatMap]
        cases condition.isMatch next <;> cases condition.negate <;> simp
      have hcarried : (∃ value ∈ before, source.Carried value (condition :: others)) ↔
          ∃ next ∈ (before.flatMap
            (Transform.applyAll source.engine (ownDecodings condition.chain))).filter
              (fun value => condition.isMatch value != condition.negate),
            source.Carried next others := by
        constructor
        · rintro ⟨value, hvalue, next, hnext, hmatch, hcarried⟩
          exact ⟨next, (hkept next).mpr ⟨value, hvalue, hnext, hmatch⟩, hcarried⟩
        · rintro ⟨next, hnext, hcarried⟩
          obtain ⟨value, hvalue, hmade, hmatch⟩ := (hkept next).mp hnext
          exact ⟨value, hvalue, next, hmade, hmatch, hcarried⟩
      rw [hcarried]
      split
      · rename_i hnil
        rw [hnil]
        simp
      · rename_i hne
        exact ih hne hothers

/-- A condition with its run, and the conditions after. -/
theorem holdFrom_first {first : CompiledCondition} (hfirst : first.readsMatched = false)
    (rest : List CompiledCondition) :
    source.holdFrom whole none (first :: rest) = true ↔
      ((rest.takeWhile (·.readsMatched) = [] → source.HoldsAlone whole first) ∧
          (rest.takeWhile (·.readsMatched) ≠ [] →
            source.HoldsCarried whole first (rest.takeWhile (·.readsMatched)))) ∧
        source.holdFrom whole none (rest.dropWhile (·.readsMatched)) = true := by
  have hempty : rest.takeWhile (·.readsMatched) = [] ↔
      rest.head?.any (·.readsMatched) = false := by
    cases rest with
    | nil => simp
    | cons next others => cases hnext : next.readsMatched <;> simp [hnext]
  cases hrest : rest.head?.any (·.readsMatched) with
  | false =>
      have hnil := hempty.mpr hrest
      have hdrop : rest.dropWhile (·.readsMatched) = rest := by
        have hall := List.takeWhile_append_dropWhile (p := (·.readsMatched)) (l := rest)
        rwa [hnil, List.nil_append] at hall
      have halone : (source.forms whole first).any first.isMatch = first.negate ↔
          ¬ source.HoldsAlone whole first := by
        rw [HoldsAlone, ← List.any_eq_true]
        cases (source.forms whole first).any first.isMatch <;> cases first.negate <;> simp
      rw [holdFrom_alone hfirst hrest, hnil, hdrop]
      by_cases hholds : source.HoldsAlone whole first
      · rw [if_neg (halone.not.mpr (not_not.mpr hholds))]
        simp [hholds]
      · rw [if_pos (halone.mpr hholds)]
        simp [hholds]
  | true =>
      have hne : rest.takeWhile (·.readsMatched) ≠ [] := fun hnil => by
        rw [hempty.mp hnil] at hrest
        contradiction
      have hcarried : source.HoldsCarried whole first (rest.takeWhile (·.readsMatched)) ↔
          first.negate = false ∧ ∃ value ∈ (source.forms whole first).filter first.isMatch,
            source.Carried value (rest.takeWhile (·.readsMatched)) := by
        simp only [HoldsCarried, List.mem_filter, and_assoc]
      rw [holdFrom_passes hfirst hrest, hcarried]
      cases hnegate : first.negate with
      | true => simp [hne]
      | false =>
          rw [if_neg Bool.false_ne_true]
          by_cases hhits : (source.forms whole first).filter first.isMatch = []
          · rw [if_pos hhits, hhits]
            simp [hne]
          · have hrun : ∀ condition ∈ rest.takeWhile (·.readsMatched),
                condition.readsMatched = true := fun _ => List.mem_takeWhile_imp
            have hholds := holdFrom_run source whole hhits hrun (head?_dropWhile rest)
            rw [List.takeWhile_append_dropWhile] at hholds
            rw [if_neg hhits, hholds]
            simp [hne]

/-- Conditions hold exactly when each does, on its own or with the `MATCHED` ones
that follow it, and none stands at the beginning for a value nothing has
matched. -/
theorem holdFrom_iff (conditions : List CompiledCondition) :
    source.holdFrom whole none conditions = true ↔
      conditions.head?.any (·.readsMatched) = false ∧ source.EachHolds whole conditions := by
  fun_induction runs conditions with
  | case1 => simp [holdFrom, EachHolds, runs]
  | case2 first rest ih =>
      have hafter := head?_dropWhile rest
      cases hfirst : first.readsMatched with
      | true =>
          have hfalse : source.holdFrom whole none (first :: rest) = false := by
            rw [holdFrom.eq_def]
            exact if_pos (of_decide_eq_true hfirst)
          simp [hfalse, hfirst]
      | false =>
          rw [holdFrom_first hfirst, ih]
          simp only [EachHolds, runs_cons, List.forall_mem_cons, hafter, true_and, forall_const,
            List.head?_cons, Option.any_some, hfirst]
          tauto

end Carrying

/-- Over one `Parts`, after whatever rules: the conditions of a rule hold exactly
when the first of them is not `MATCHED` and each does, on its own or carrying a
value on. -/
theorem allHold_iff (rules : List (List CompiledCondition)) (conditions : List CompiledCondition) :
    ((source.allHold whole conditions).run (source.partsAfter whole rules)).1 = true ↔
      conditions.head?.any (·.readsMatched) = false ∧ source.EachHolds whole conditions := by
  rw [(transparent_allHold conditions _ (source.sound_partsAfter whole rules)).1, holdFrom_iff]

end Source

/-- A `MATCHED` condition with nothing before it does not hold, though nothing is
asked of it. -/
theorem matched_at_the_beginning_does_not_hold :
    ¬ ∀ (source : Source) (whole : Whole) (conditions : List CompiledCondition),
      ((source.allHold whole conditions).run Parts.new).1 = true ↔
        source.EachHolds whole conditions := by
  intro hevery
  let engine : Engine := ⟨id, fun _ => none, fun _ _ => false, fun _ => none, fun _ => false,
    fun _ => none, fun _ => none⟩
  let request : RequestContext := ⟨.v4 0, "GET".toList, "/".toList, none, .http11, [], []⟩
  let alone : CompiledCondition := ⟨[.matched], fun _ => true, false, []⟩
  have hiff := hevery ⟨engine, Http.Url.standard, request, []⟩ ⟨[], [], [], []⟩ [alone]
  have hruns : runs [alone] = [(alone, [])] := by
    rw [runs_cons, List.takeWhile_nil, List.dropWhile_nil, runs]
  have heach : Source.EachHolds ⟨engine, Http.Url.standard, request, []⟩ ⟨[], [], [], []⟩
      [alone] := by
    rw [Source.EachHolds, hruns]
    exact ⟨fun run hrun hnot => absurd hnot (by rw [List.mem_singleton.mp hrun]; decide),
      fun run hrun hne => absurd (by rw [List.mem_singleton.mp hrun]) hne⟩
  exact absurd (hiff.mpr heach) (by decide)

end EasyWaf.Modules
