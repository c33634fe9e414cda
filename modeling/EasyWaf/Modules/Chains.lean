import EasyWaf.Modules.Decodings

/-!
# What a chain is read as

A chain of decodings leaves one value, or with `multiMatch` in it the value itself
and what each decoding leaves.  A measure at the end is of each of these.
-/

namespace EasyWaf.Modules.Transform

variable (engine : Engine)

/-- The decodings of a chain, less the names in it that decode nothing. -/
def decodings (chain : List Transform) : List Transform := chain.filter (!isMark ·)

/-- What decodings make of a value, one after the other. -/
def applied (decodings : List Transform) (text : Text) : Text :=
  decodings.foldl (fun text decoding => decoding.apply engine text) text

/-- A value, and what each decoding in turn leaves of it. -/
def steps (decodings : List Transform) (text : Text) : List Text :=
  decodings.scanl (fun text decoding => decoding.apply engine text) text

/-- What a pattern is matched against: what the last decoding leaves, or with
`every` each step once, or of each step before it the measure at their end. -/
def readings (every : Bool) (decodings : List Transform) (text : Text) : List Text :=
  if every then
    match decodings.getLast?.filter isMeasure with
    | some measure =>
        (steps engine decodings.dropLast text).eraseDups.map fun step => measure.apply engine step
    | none => (steps engine decodings text).eraseDups
  else [applied engine decodings text]

/-- A chain with one measure at most, after every decoding. -/
def MeasureLast (chain : List Transform) : Prop :=
  ∀ decoding ∈ (decodings chain).dropLast, decoding.isMeasure = false

/-- A chain is read as its decodings say, wherever the other names stand. -/
def ReadsEveryStep (chain : List Transform) : Prop :=
  ∀ text, applyAll engine chain text =
    readings engine (chain.contains multiMatch) (decodings chain) text

/-- With `multiMatch` in it, no name stands after a chain's measure. -/
def EndsAtMeasure (chain : List Transform) : Prop :=
  multiMatch ∈ chain → ∀ measure ∈ chain, measure.isMeasure → chain.getLast? = some measure

instance decidableMeasureLast : DecidablePred MeasureLast := fun chain =>
  inferInstanceAs (Decidable (∀ decoding ∈ (decodings chain).dropLast, decoding.isMeasure = false))

instance decidableEndsAtMeasure : DecidablePred EndsAtMeasure := fun chain =>
  inferInstanceAs (Decidable (multiMatch ∈ chain →
    ∀ measure ∈ chain, measure.isMeasure → chain.getLast? = some measure))

variable {engine} {chain earlier : List Transform} {last measure : Transform} {text : Text}

theorem isMark_of_isMeasure (hmeasure : measure.isMeasure = true) : measure.isMark = false := by
  cases measure <;> first | rfl | contradiction

theorem mem_decodings (hmeasure : measure.isMeasure = true) :
    measure ∈ decodings chain ↔ measure ∈ chain := by
  rw [decodings, List.mem_filter, isMark_of_isMeasure hmeasure]
  exact and_iff_left rfl

theorem decodings_append_measure (hmeasure : last.isMeasure = true) :
    decodings (earlier ++ [last]) = decodings earlier ++ [last] := by
  rw [decodings, List.filter_append, List.filter_singleton, isMark_of_isMeasure hmeasure]
  rfl

section Steps

variable (engine)

theorem applied_append (before : List Transform) (decoding : Transform) (text : Text) :
    applied engine (before ++ [decoding]) text =
      decoding.apply engine (applied engine before text) := by
  rw [applied, List.foldl_append]
  rfl

theorem steps_append (before : List Transform) (decoding : Transform) (text : Text) :
    steps engine (before ++ [decoding]) text =
      steps engine before text ++ [applied engine (before ++ [decoding]) text] := by
  rw [applied_append, steps, List.scanl_append]
  rfl

theorem eraseDups_append_singleton (values : List Text) (value : Text) :
    (values ++ [value]).eraseDups =
      if values.eraseDups.contains value then values.eraseDups else values.eraseDups ++ [value] := by
  have hmem : values.eraseDups.contains value = values.contains value := by
    rw [Bool.eq_iff_iff, List.contains_iff_mem, List.contains_iff_mem, List.mem_eraseDups]
  rw [hmem, List.eraseDups_append, List.removeAll]
  cases hfound : values.contains value with
  | true => simp only [List.filter_cons, List.filter_nil, List.elem_eq_contains, hfound,
      Bool.not_true, Bool.false_eq_true, if_false, List.eraseDups_nil, List.append_nil, if_true]
  | false => simp only [List.filter_cons, List.filter_nil, List.elem_eq_contains, hfound,
      Bool.not_false, if_true, List.eraseDups_cons, List.eraseDups_nil, Bool.false_eq_true, if_false]

/-- The fold of `apply_all`: the steps so far, each once, and the last of them. -/
theorem foldl_eq_steps (every : Bool) (before : List Transform) (text : Text) :
    before.foldl
        (fun (state : List Text × Text) decoding =>
          let text := decoding.apply engine state.2
          (if every && !state.1.contains text then state.1 ++ [text] else state.1, text))
        (if every then [text] else [], text) =
      (if every then (steps engine before text).eraseDups else [], applied engine before text) := by
  induction before using List.reverseRecOn with
  | nil => cases every <;> rfl
  | append_singleton before decoding ih =>
      rw [List.foldl_append, ih, steps_append, eraseDups_append_singleton, applied_append]
      cases every with
      | false => rfl
      | true =>
          simp only [List.foldl_cons, List.foldl_nil, if_true, Bool.true_and]
          cases (steps engine before text).eraseDups.contains
            (decoding.apply engine (applied engine before text)) <;> rfl

theorem applyEach_eq (every : Bool) (chain : List Transform) (text : Text) :
    applyEach engine every chain text =
      if every then (steps engine (decodings chain) text).eraseDups
      else [applied engine (decodings chain) text] := by
  rw [applyEach, foldl_eq_steps engine every (chain.filter (!isMark ·)) text]
  cases every <;> rfl

end Steps

section All

variable (engine)

/-- A chain by its last name. -/
theorem applyAll_append (earlier : List Transform) (last : Transform) (text : Text) :
    applyAll engine (earlier ++ [last]) text =
      if (earlier ++ [last]).contains multiMatch && last.isMeasure then
        (applyAll engine earlier text).map fun step => last.apply engine step
      else applyEach engine ((earlier ++ [last]).contains multiMatch) (earlier ++ [last]) text := by
  have hcontains : (last :: earlier.reverse).contains multiMatch =
      (earlier ++ [last]).contains multiMatch := by
    rw [Bool.eq_iff_iff, List.contains_iff_mem, List.contains_iff_mem]
    simp [or_comm]
  have hreverse : (last :: earlier.reverse).reverse = earlier ++ [last] := by
    rw [List.reverse_cons, List.reverse_reverse]
  rw [applyAll, List.reverse_append, List.reverse_singleton, List.singleton_append, applyBackward,
    hcontains, hreverse]
  rfl

/-- Without a measure as its last name a chain is read one decoding after the other. -/
theorem applyAll_of_getLast (hlast : ∀ last, chain.getLast? = some last → last.isMeasure = false) :
    applyAll engine chain text = applyEach engine (chain.contains multiMatch) chain text := by
  induction chain using List.reverseRecOn with
  | nil => rfl
  | append_singleton earlier last _ =>
      rw [applyAll_append, hlast last List.getLast?_concat, Bool.and_false]
      rfl

/-- Where a measure is the last name, each step before it is measured. -/
theorem applyAll_append_measure (hmeasure : last.isMeasure = true)
    (hearlier : ∀ decoding ∈ decodings earlier, decoding.isMeasure = false)
    (hevery : multiMatch ∈ earlier) :
    applyAll engine (earlier ++ [last]) text =
      (steps engine (decodings earlier) text).eraseDups.map fun step => last.apply engine step := by
  have hcontains : earlier.contains multiMatch = true := List.contains_iff_mem.mpr hevery
  have hnot : ∀ before, earlier.getLast? = some before → before.isMeasure = false := by
    intro before hbefore
    by_contra hne
    have hbad : before.isMeasure = true := Bool.not_eq_false _ ▸ hne
    exact hne (hearlier before ((mem_decodings hbad).mpr (List.mem_of_getLast? hbefore)))
  have hfound : (earlier ++ [last]).contains multiMatch = true :=
    List.contains_iff_mem.mpr (List.mem_append_left _ hevery)
  rw [applyAll_append, hfound, hmeasure, applyAll_of_getLast engine hnot, hcontains, applyEach_eq]
  rfl

end All

section Measures

variable (engine)

theorem head?_eraseDups_steps (before : List Transform) (text : Text) :
    (steps engine before text).eraseDups.head? = some text := by
  cases before with
  | nil => rfl
  | cons decoding rest =>
      rw [steps, List.scanl_cons, List.eraseDups_cons]
      rfl

/-- A measure of a value is another value for some of them. -/
theorem exists_measure_ne (hplain : ∃ text, text ≠ [] ∧ engine.detectSqli (Text.bytes text) = none)
    (hmeasure : measure.isMeasure = true) : ∃ text, measure.apply engine text ≠ text := by
  cases measure with
  | length =>
      refine ⟨[], ?_⟩
      rw [apply]
      decide
  | detectXss =>
      refine ⟨['a'], ?_⟩
      rw [apply]
      split <;> decide
  | detectSqli =>
      obtain ⟨text, hne, hnone⟩ := hplain
      refine ⟨text, ?_⟩
      rw [apply, hnone]
      exact hne.symm
  | _ => contradiction

theorem readings_of_measure (hlast : (decodings chain).getLast? = some measure)
    (hmeasure : measure.isMeasure = true) :
    readings engine true (decodings chain) text =
      (steps engine (decodings chain).dropLast text).eraseDups.map fun step =>
        measure.apply engine step := by
  rw [readings, if_pos rfl, hlast, Option.filter_some, if_pos hmeasure]

theorem readings_of_no_measure
    (hnone : ∀ last, (decodings chain).getLast? = some last → last.isMeasure = false) :
    readings engine true (decodings chain) text = (steps engine (decodings chain) text).eraseDups := by
  have hfilter : (decodings chain).getLast?.filter isMeasure = none := by
    rw [Option.filter_eq_none_iff]
    intro last hlast
    rw [hnone last hlast]
    exact Bool.false_ne_true
  rw [readings, if_pos rfl, hfilter]

end Measures

/-- The one measure of a chain is its last decoding. -/
theorem getLast?_decodings (hchain : MeasureLast chain) (hmem : measure ∈ chain)
    (hmeasure : measure.isMeasure = true) : (decodings chain).getLast? = some measure := by
  have hfound : measure ∈ decodings chain := (mem_decodings hmeasure).mpr hmem
  have hne : decodings chain ≠ [] := List.ne_nil_of_mem hfound
  rw [← List.dropLast_append_getLast hne, List.mem_append] at hfound
  rcases hfound with hbefore | hlast
  · rw [hchain measure hbefore] at hmeasure
    contradiction
  · rw [List.mem_singleton.mp hlast]
    exact List.getLast?_eq_some_getLast hne

/-- Without `multiMatch` there is one value, the last decoding's. -/
theorem readsEveryStep_of_not_mem (hevery : multiMatch ∉ chain) : ReadsEveryStep engine chain := by
  have hnot : chain.contains multiMatch = false := by
    rw [← Bool.not_eq_true, List.contains_iff_mem]
    exact hevery
  have hall : ∀ text, applyAll engine chain text = applyEach engine false chain text := by
    intro text
    cases chain using List.reverseRecOn with
    | nil => rfl
    | append_singleton earlier last =>
        rw [applyAll_append, hnot, Bool.false_and]
        rfl
  intro text
  rw [hall, applyEach_eq, hnot]
  rfl

/-- A measure that is the last name is of each step before it. -/
theorem readsEveryStep_append_measure (hchain : MeasureLast (earlier ++ [last]))
    (hlast : last.isMeasure = true) (hevery : multiMatch ∈ earlier ++ [last]) :
    ReadsEveryStep engine (earlier ++ [last]) := by
  have hearlier : ∀ decoding ∈ decodings earlier, decoding.isMeasure = false := by
    rwa [MeasureLast, decodings_append_measure hlast, List.dropLast_concat] at hchain
  have hbefore : multiMatch ∈ earlier := by
    refine (List.mem_append.mp hevery).resolve_right fun hself => ?_
    rw [← List.mem_singleton.mp hself] at hlast
    contradiction
  have hmem : last ∈ earlier ++ [last] := List.mem_append_right _ (List.mem_singleton_self last)
  intro text
  rw [List.contains_iff_mem.mpr hevery,
    readings_of_measure engine (getLast?_decodings hchain hmem hlast) hlast,
    decodings_append_measure hlast, List.dropLast_concat,
    applyAll_append_measure engine hlast hearlier hbefore]

/-- A measure before the last name is taken for one more step. -/
theorem readsEveryStep_append_iff
    (hplain : ∃ text, text ≠ [] ∧ engine.detectSqli (Text.bytes text) = none)
    (hchain : MeasureLast (earlier ++ [last])) (hlast : last.isMeasure = false)
    (hevery : multiMatch ∈ earlier ++ [last]) :
    ReadsEveryStep engine (earlier ++ [last]) ↔
      ∀ measure ∈ earlier ++ [last], measure.isMeasure = false := by
  have hcontains : (earlier ++ [last]).contains multiMatch = true :=
    List.contains_iff_mem.mpr hevery
  have hnot : ∀ name, (earlier ++ [last]).getLast? = some name → name.isMeasure = false := by
    intro name hname
    rw [List.getLast?_concat] at hname
    rw [← Option.some.inj hname]
    exact hlast
  have hall : ∀ text, applyAll engine (earlier ++ [last]) text =
      (steps engine (decodings (earlier ++ [last])) text).eraseDups := by
    intro text
    rw [applyAll_of_getLast engine hnot, applyEach_eq, hcontains, if_pos rfl]
  constructor
  · intro hreads measure hmem
    by_contra hbad
    have hmeasure : measure.isMeasure = true := Bool.not_eq_false _ ▸ hbad
    obtain ⟨text, htext⟩ := exists_measure_ne engine hplain hmeasure
    have hheads := congrArg List.head? ((hall text).symm.trans (hreads text))
    rw [hcontains, readings_of_measure engine (getLast?_decodings hchain hmem hmeasure) hmeasure,
      List.head?_map, head?_eraseDups_steps, head?_eraseDups_steps] at hheads
    exact htext (Option.some.inj hheads).symm
  · intro hnone text
    rw [hall, hcontains, readings_of_no_measure engine]
    intro name hname
    by_contra hbad
    have hmeasure : name.isMeasure = true := Bool.not_eq_false _ ▸ hbad
    exact hbad (hnone name ((mem_decodings hmeasure).mp (List.mem_of_getLast? hname)))

/-- With a measure as its last name, a chain has no other. -/
theorem endsAtMeasure_append_measure (hchain : MeasureLast (earlier ++ [last]))
    (hlast : last.isMeasure = true) : EndsAtMeasure (earlier ++ [last]) := by
  intro _ measure hmem hmeasure
  have hself : last ∈ earlier ++ [last] := List.mem_append_right _ (List.mem_singleton_self last)
  rw [List.getLast?_concat, ← getLast?_decodings hchain hself hlast,
    getLast?_decodings hchain hmem hmeasure]

theorem endsAtMeasure_append_iff (hlast : last.isMeasure = false)
    (hevery : multiMatch ∈ earlier ++ [last]) :
    EndsAtMeasure (earlier ++ [last]) ↔ ∀ measure ∈ earlier ++ [last], measure.isMeasure = false := by
  constructor
  · intro hends measure hmem
    by_contra hbad
    have hmeasure : measure.isMeasure = true := Bool.not_eq_false _ ▸ hbad
    have hsome := hends hevery measure hmem hmeasure
    rw [List.getLast?_concat] at hsome
    rw [Option.some.inj hsome] at hlast
    exact hbad hlast
  · intro hnone _ measure hmem hmeasure
    rw [hnone measure hmem] at hmeasure
    contradiction

theorem readsEveryStep_iff_endsAtMeasure
    (hplain : ∃ text, text ≠ [] ∧ engine.detectSqli (Text.bytes text) = none)
    (hchain : MeasureLast chain) : ReadsEveryStep engine chain ↔ EndsAtMeasure chain := by
  by_cases hevery : multiMatch ∈ chain
  · cases chain using List.reverseRecOn with
    | nil => exact absurd hevery List.not_mem_nil
    | append_singleton earlier last =>
        cases hlast : last.isMeasure with
        | true =>
            apply iff_of_true
            · exact readsEveryStep_append_measure hchain hlast hevery
            · exact endsAtMeasure_append_measure hchain hlast
        | false =>
            rw [endsAtMeasure_append_iff hlast hevery]
            exact readsEveryStep_append_iff hplain hchain hlast hevery
  · exact iff_of_true (readsEveryStep_of_not_mem hevery) fun hmem => absurd hmem hevery

/-- A chain is read in every step, or measured in each of them, exactly when with
`multiMatch` in it no name stands after its measure; such chains of the same
decodings are read alike, wherever `multiMatch` stands. -/
theorem multiMatch_reads_every_step
    (hplain : ∃ text, text ≠ [] ∧ engine.detectSqli (Text.bytes text) = none)
    (hchain : MeasureLast chain) :
    (ReadsEveryStep engine chain ↔ EndsAtMeasure chain) ∧
      ∀ other, decodings other = decodings chain → (multiMatch ∈ other ↔ multiMatch ∈ chain) →
        EndsAtMeasure chain → EndsAtMeasure other →
          ∀ text, applyAll engine other text = applyAll engine chain text := by
  refine ⟨readsEveryStep_iff_endsAtMeasure hplain hchain, ?_⟩
  intro other hsame hmem hends hother text
  have hmeasures : MeasureLast other := by rwa [MeasureLast, hsame]
  have hcontains : other.contains multiMatch = chain.contains multiMatch := by
    rw [Bool.eq_iff_iff, List.contains_iff_mem, List.contains_iff_mem, hmem]
  calc applyAll engine other text
      = readings engine (other.contains multiMatch) (decodings other) text :=
        (readsEveryStep_iff_endsAtMeasure hplain hmeasures).mpr hother text
    _ = readings engine (chain.contains multiMatch) (decodings chain) text := by
        rw [hsame, hcontains]
    _ = applyAll engine chain text :=
        ((readsEveryStep_iff_endsAtMeasure hplain hchain).mpr hends text).symm

/-- An engine that finds no injection anywhere. -/
def quietEngine : Engine :=
  ⟨id, fun _ => none, fun _ _ => false, fun _ => none, fun _ => false, fun _ => none, fun _ => none⟩

theorem measured_in_every_step :
    ReadsEveryStep quietEngine [multiMatch, removeWhitespace, length] :=
  ((@multiMatch_reads_every_step quietEngine [multiMatch, removeWhitespace, length]
    ⟨['a'], by decide, rfl⟩ (by decide)).1).mpr (by decide)

/-- Named after the measure, `multiMatch` has it taken for one more step. -/
theorem measure_is_one_more_step :
    MeasureLast [removeWhitespace, length, multiMatch] ∧
      ¬ ReadsEveryStep quietEngine [removeWhitespace, length, multiMatch] ∧
      applyAll quietEngine [removeWhitespace, length, multiMatch] "a b".toList =
        ["a b".toList, "ab".toList, "2".toList] ∧
      applyAll quietEngine [multiMatch, removeWhitespace, length] "a b".toList =
        ["3".toList, "2".toList] := by
  refine ⟨by decide, fun hreads => ?_, by decide, by decide⟩
  have hbad := hreads "a b".toList
  revert hbad
  decide

end EasyWaf.Modules.Transform
