import EasyWaf.Modules.Judge

/-!
# How severely a request is judged

The caches answer what would be computed again, so what a request comes to depends
on the rules that hold for it alone.
-/

namespace EasyWaf.Modules

open EasyWaf.Core

inductive Severity
  | pass
  | alert
  | challenge
  | refuse
  deriving DecidableEq

namespace Severity

def rank : Severity → ℕ
  | pass => 0
  | alert => 1
  | challenge => 2
  | refuse => 3

theorem rank_injective : Function.Injective rank := by
  intro left right hrank
  cases left <;> cases right <;> first | rfl | contradiction

instance : LinearOrder Severity := LinearOrder.lift' rank rank_injective

theorem pass_le (severity : Severity) : pass ≤ severity := Nat.zero_le severity.rank

theorem le_refuse (severity : Severity) : severity ≤ refuse := by
  cases severity <;> decide

end Severity

def ModuleDecision.severity : ModuleDecision → Severity
  | .pass => .pass
  | .alert _ _ => .alert
  | .challenge _ _ => .challenge
  | .drop _ _ _ => .refuse

namespace Waf

section Transparency

variable (source : Source) (whole : Whole)

/-- Nothing is kept but what would be computed again. -/
structure Caches.Sound (caches : Caches) : Prop where
  patterns : ∀ entry ∈ caches.patterns, entry.2 = source.engine.regex entry.1
  parts : source.Sound whole caches.parts

/-- A condition whose zones are known and whose pattern compiles. -/
def RuleCondition.compile (engine : Engine) (condition : RuleCondition) :
    Option CompiledCondition :=
  match condition.targets, engine.regex condition.pattern with
  | some targets, some isMatch =>
      some { targets, isMatch, negate := condition.negate, chain := condition.chain }
  | _, _ => none

/-- Every condition of the rule compiles, and they hold. -/
def RuleRow.heldOn (rule : RuleRow) : Bool :=
  (rule.allConditions.mapM (RuleCondition.compile source.engine)).any (source.holdFrom whole none)

variable {source whole}

theorem holds_patternsMemo :
    patternsMemo.Holds (Caches.Sound source whole) source.engine.regex where
  held _ hsound := hsound.patterns
  pushed caches pattern hsound := { hsound with
    patterns := fun entry hentry => by
      rcases List.mem_append.mp hentry with hentry | hentry
      · exact hsound.patterns entry hentry
      · obtain rfl := List.mem_singleton.mp hentry
        rfl }

theorem transparent_compiledPattern (pattern : Text) :
    Transparent (Caches.Sound source whole) (compiledPattern source pattern)
      (source.engine.regex pattern) :=
  holds_patternsMemo.lookupOrMake (Transparent.pure _)

theorem transparent_onParts {α : Type} {action : StateM Parts α} {value : α}
    (haction : Transparent (source.Sound whole) action value) :
    Transparent (Caches.Sound source whole) (onParts action) value := by
  intro caches hsound
  obtain ⟨hvalue, hafter⟩ := haction caches.parts hsound.parts
  exact ⟨hvalue, { patterns := hsound.patterns, parts := hafter }⟩

theorem transparent_compileAll (conditions : List RuleCondition) :
    Transparent (Caches.Sound source whole) (compileAll source conditions)
      (conditions.mapM (RuleCondition.compile source.engine)) := by
  induction conditions with
  | nil => exact Transparent.pure _
  | cons condition rest ih =>
      rw [compileAll, List.mapM_cons, RuleCondition.compile]
      apply (transparent_compiledPattern condition.pattern).bind
      cases condition.targets with
      | none => exact Transparent.pure _
      | some targets =>
          cases source.engine.regex condition.pattern with
          | none => exact Transparent.pure _
          | some isMatch =>
              have hmap : ∀ others : Option (List CompiledCondition), (do
                  let others ← others
                  pure ({ targets, isMatch, negate := condition.negate, chain := condition.chain } ::
                    others)) = others.map
                ({ targets, isMatch, negate := condition.negate, chain := condition.chain } :: ·) := by
                intro others
                cases others <;> rfl
              rw [Option.bind_eq_bind, Option.bind_some, hmap]
              exact ih.bind (Transparent.pure _)

/-- A rule is answered as if nothing had been asked before. -/
theorem transparent_holds (rule : RuleRow) :
    Transparent (Caches.Sound source whole) (holds source whole rule)
      (rule.heldOn source whole) := by
  apply (transparent_compileAll rule.allConditions).bind
  rw [RuleRow.heldOn]
  cases rule.allConditions.mapM (RuleCondition.compile source.engine) with
  | none => exact Transparent.pure _
  | some conditions => exact transparent_onParts (Source.transparent_allHold conditions)

/-- Asked rules that keep to the caches, the scan does what it does on their
answers. -/
theorem transparent_scanWith {σ : Type} {Inv : σ → Prop} (policy : PolicyInfo)
    (applies : RuleRow → Bool) {asked : RuleRow → StateM σ Bool} {held : RuleRow → Bool}
    (hasked : ∀ rule, Transparent Inv (asked rule) (held rule)) (rules : List RuleRow)
    (found : Scan) :
    Transparent Inv (scanWith policy applies asked rules found)
      (scanWith policy applies (fun rule => (pure (held rule) : Id Bool)) rules found).run := by
  induction rules generalizing found with
  | nil => exact Transparent.pure _
  | cons rule rest ih =>
      rw [scanWith, scanWith]
      cases applies rule with
      | false => exact ih found
      | true =>
          apply (hasked rule).bind
          cases held rule with
          | false => exact ih found
          | true =>
              simp only [Bool.not_true, Bool.false_eq_true, if_false, pure_bind]
              by_cases hblock : rule.action = "block".toList
              · rw [if_pos hblock, if_pos hblock]
                exact Transparent.pure _
              · rw [if_neg hblock, if_neg hblock]
                by_cases hchallenge : rule.action = "challenge".toList
                · rw [if_pos hchallenge, if_pos hchallenge]
                  exact ih _
                · rw [if_neg hchallenge, if_neg hchallenge]
                  exact ih _

end Transparency

section Matched

variable (policy : PolicyInfo)

/-- A rule whose score counts towards the thresholds. -/
def RuleRow.accumulates (rule : RuleRow) : Bool :=
  rule.action ≠ "block".toList ∧ rule.action ≠ "challenge".toList

/-- What the scores of these rules come to. -/
def total (matched : List RuleRow) : ℤ := ((matched.filter (·.accumulates)).map (·.score)).sum

/-- A rule blocks, or the score reaches the block threshold. -/
def Refused (matched : List RuleRow) : Prop :=
  (∃ rule ∈ matched, rule.action = "block".toList) ∨
    policy.scoreThreshold ≤ wrapped (total matched)

/-- A rule asks for a challenge, or the score reaches a challenge threshold. -/
def Challenged (matched : List RuleRow) : Prop :=
  (∃ rule ∈ matched, rule.action = "challenge".toList) ∨
    (0 < policy.challengeThreshold ∧ policy.challengeThreshold ≤ wrapped (total matched))

instance (matched : List RuleRow) : Decidable (Refused policy matched) :=
  inferInstanceAs (Decidable (_ ∨ _))

instance (matched : List RuleRow) : Decidable (Challenged policy matched) :=
  inferInstanceAs (Decidable (_ ∨ _))

/-- What becomes of a decision under the policy's mode. -/
def PolicyInfo.enforced (severity : Severity) : Severity :=
  if policy.ruleEngine = "DetectionOnly".toList then min severity .alert else severity

/-- What the rules that matched come to. -/
def severityOf (matched : List RuleRow) : Severity :=
  policy.enforced <|
    if Refused policy matched then .refuse
    else if Challenged policy matched then .challenge
    else if matched = [] then .pass
    else .alert

/-- The scan of rules all of which apply and hold. -/
abbrev scanMatched (matched : List RuleRow) (found : Scan) : Except (Text × Findings) Scan :=
  (scanWith policy (fun _ => true) (fun _ => (pure true : Id Bool)) matched found).run

variable {policy}

/-- Rules that do not apply, or do not hold, are as if they were not there. -/
theorem run_scanWith (applies held : RuleRow → Bool) (rules : List RuleRow) (found : Scan) :
    (scanWith policy applies (fun rule => (pure (held rule) : Id Bool)) rules found).run =
      scanMatched policy (rules.filter fun rule => applies rule && held rule) found := by
  induction rules generalizing found with
  | nil => rfl
  | cons rule rest ih =>
      rw [List.filter_cons, scanWith]
      cases happlies : applies rule with
      | false => exact ih found
      | true =>
          cases hheld : held rule with
          | false => exact ih found
          | true =>
              simp only [Bool.and_self, if_true, Bool.not_true, Bool.false_eq_true, if_false,
                pure_bind, scanMatched]
              rw [scanWith]
              simp only [Bool.not_true, Bool.false_eq_true, if_false, pure_bind]
              by_cases hblock : rule.action = "block".toList
              · rw [if_pos hblock, if_pos hblock]
              · rw [if_neg hblock, if_neg hblock]
                by_cases hchallenge : rule.action = "challenge".toList
                · rw [if_pos hchallenge, if_pos hchallenge]
                  exact ih _
                · rw [if_neg hchallenge, if_neg hchallenge]
                  exact ih _

section Scanned

variable {matched : List RuleRow}

theorem scanMatched_of_block (hblock : ∃ rule ∈ matched, rule.action = "block".toList)
    (found : Scan) : ∃ stopped, scanMatched policy matched found = .error stopped := by
  induction matched generalizing found with
  | nil => exact absurd hblock (by simp)
  | cons rule rest ih =>
      rw [scanMatched, scanWith]
      simp only [Bool.not_true, Bool.false_eq_true, if_false, pure_bind]
      by_cases hrule : rule.action = "block".toList
      · rw [if_pos hrule]
        exact ⟨_, rfl⟩
      · have hrest : ∃ rule ∈ rest, rule.action = "block".toList := by
          obtain ⟨other, hother, haction⟩ := hblock
          rcases List.mem_cons.mp hother with rfl | hmem
          · exact absurd haction hrule
          · exact ⟨other, hmem, haction⟩
        rw [if_neg hrule]
        by_cases hchallenge : rule.action = "challenge".toList
        · rw [if_pos hchallenge]
          exact ih hrest _
        · rw [if_neg hchallenge]
          exact ih hrest _

/-- What a scan that was not stopped has found. -/
structure Found (matched : List RuleRow) (before after : Scan) : Prop where
  score : after.totalScore = wrapped (before.totalScore + total matched)
  challenged : after.challengeReason.isSome ↔
    before.challengeReason.isSome ∨ ∃ rule ∈ matched, rule.action = "challenge".toList
  hits : after.hits = [] ↔ before.hits = [] ∧ matched = []

theorem wrapped_add (n m : ℤ) : wrapped (wrapped n + m) = wrapped (n + m) := Int.bmod_add_bmod

theorem wrapped_wrapped (n : ℤ) : wrapped (wrapped n) = wrapped n := Int.bmod_bmod

theorem total_cons (rule : RuleRow) (rest : List RuleRow) :
    total (rule :: rest) = (if rule.accumulates then rule.score else 0) + total rest := by
  rw [total, total, List.filter_cons]
  split
  · rw [List.map_cons, List.sum_cons]
  · rw [zero_add]

theorem accumulates_of_ne {rule : RuleRow} (hblock : rule.action ≠ "block".toList)
    (hchallenge : rule.action ≠ "challenge".toList) : rule.accumulates = true :=
  decide_eq_true ⟨hblock, hchallenge⟩

theorem not_accumulates_of_challenge {rule : RuleRow}
    (hchallenge : rule.action = "challenge".toList) : rule.accumulates = false :=
  decide_eq_false fun haccumulates => haccumulates.2 hchallenge

/-- The scan adds up the scores, and keeps the challenge asked for and what
matched. -/
theorem scanMatched_found (hnone : ∀ rule ∈ matched, rule.action ≠ "block".toList) (before : Scan)
    (hbefore : wrapped before.totalScore = before.totalScore) :
    ∃ after, scanMatched policy matched before = .ok after ∧ Found matched before after := by
  induction matched generalizing before with
  | nil =>
      exact ⟨before, rfl, {
        score := by simpa [total] using hbefore.symm
        challenged := by simp
        hits := by simp }⟩
  | cons rule rest ih =>
      obtain ⟨hblock, hrest⟩ := List.forall_mem_cons.mp hnone
      rw [scanMatched, scanWith]
      simp only [Bool.not_true, Bool.false_eq_true, if_false, pure_bind, if_neg hblock]
      by_cases hchallenge : rule.action = "challenge".toList
      · obtain ⟨after, hafter, hfound⟩ := ih hrest { before with
          hits := before.hits ++ [hitOf policy rule]
          challengeReason := some (before.challengeReason.getD
            ("WAF challenge rule matched: ".toList ++ rule.name)) } hbefore
        rw [if_pos hchallenge]
        exact ⟨after, hafter, {
          score := by
            rw [total_cons, not_accumulates_of_challenge hchallenge]
            simpa using hfound.score
          challenged := by simp [hfound.challenged, hchallenge]
          hits := by simp [hfound.hits] }⟩
      · obtain ⟨after, hafter, hfound⟩ := ih hrest { before with
          hits := before.hits ++ [hitOf policy rule]
          totalScore := wrapped (before.totalScore + rule.score) } (wrapped_wrapped _)
        have hasks : (∃ other ∈ rest, other.action = "challenge".toList) ↔
            ∃ other ∈ rule :: rest, other.action = "challenge".toList := by
          rw [List.exists_mem_cons_iff]
          exact (or_iff_right hchallenge).symm
        rw [if_neg hchallenge]
        exact ⟨after, hafter, {
          score := by
            rw [total_cons, accumulates_of_ne hblock hchallenge, if_pos rfl, ← add_assoc]
            exact hfound.score.trans (wrapped_add _ _)
          challenged := hfound.challenged.trans (or_congr_right hasks)
          hits := by simp [hfound.hits] }⟩

theorem enforced_of_le {severity : Severity} (hle : severity ≤ .alert) :
    policy.enforced severity = severity := by
  rw [PolicyInfo.enforced, min_eq_left hle, ite_self]

theorem severity_decide (level : Level) (reason : Text) (findings : Findings) :
    (policy.decide level reason findings).severity =
      policy.enforced (if level = .block then .refuse else .challenge) := by
  unfold PolicyInfo.decide PolicyInfo.enforced
  by_cases hmode : policy.ruleEngine = "DetectionOnly".toList
  · rw [if_pos hmode, if_pos hmode]
    cases level <;> rfl
  · rw [if_neg hmode, if_neg hmode]
    cases level <;> rfl

/-- What the thresholds make of what the scan has found. -/
theorem severity_applyThresholds (hnone : ∀ rule ∈ matched, rule.action ≠ "block".toList)
    {after : Scan} (hfound : Found matched Scan.start after) :
    (applyThresholds policy after).severity = severityOf policy matched := by
  have hscore : after.totalScore = wrapped (total matched) := by
    simpa [Scan.start] using hfound.score
  have hchallenged : after.challengeReason.isSome ↔
      ∃ rule ∈ matched, rule.action = "challenge".toList := by
    simpa [Scan.start] using hfound.challenged
  have hhits : after.hits = [] ↔ matched = [] := by
    simpa [Scan.start] using hfound.hits
  have hrefused : Refused policy matched ↔ policy.scoreThreshold ≤ after.totalScore := by
    rw [hscore]
    exact or_iff_right fun ⟨rule, hrule, hblock⟩ => hnone rule hrule hblock
  have hchallenge : Challenged policy matched ↔ after.challengeReason.isSome ∨
      (0 < policy.challengeThreshold ∧ policy.challengeThreshold ≤ after.totalScore) := by
    rw [hscore, hchallenged]
    rfl
  rw [applyThresholds, severityOf]
  simp only [hrefused, hchallenge, ← hhits]
  by_cases hthreshold : policy.scoreThreshold ≤ after.totalScore
  · rw [if_pos hthreshold, severity_decide, if_pos hthreshold, if_pos rfl]
  · rw [if_neg hthreshold, if_neg hthreshold]
    cases after.challengeReason with
    | some reason =>
        have hsome : (some reason).isSome = true ∨ (0 < policy.challengeThreshold ∧
            policy.challengeThreshold ≤ after.totalScore) := Or.inl rfl
        rw [if_pos hsome]
        exact severity_decide .challenge reason _
    | none =>
        simp only [Option.isSome_none, Bool.false_eq_true, false_or]
        by_cases hscored : 0 < policy.challengeThreshold ∧
            policy.challengeThreshold ≤ after.totalScore
        · rw [if_pos hscored, severity_decide, if_pos hscored, if_neg (by decide)]
        · rw [if_neg hscored, if_neg hscored]
          by_cases hnothing : after.hits = []
          · rw [if_pos hnothing, if_neg (not_not.mpr hnothing), enforced_of_le (by decide)]
            rfl
          · rw [if_neg hnothing, if_pos hnothing, enforced_of_le (by decide)]
            rfl

/-- The rules of a policy come to what the ones that matched come to. -/
theorem severity_conclude (matched : List RuleRow) :
    (conclude policy (scanMatched policy matched Scan.start)).severity =
      severityOf policy matched := by
  by_cases hblock : ∃ rule ∈ matched, rule.action = "block".toList
  · obtain ⟨stopped, hstopped⟩ : ∃ stopped, scanMatched policy matched Scan.start = .error stopped :=
      scanMatched_of_block hblock Scan.start
    have hrefused : Refused policy matched := Or.inl hblock
    rw [hstopped, severityOf, if_pos hrefused]
    exact severity_decide .block stopped.1 stopped.2
  · have hnone : ∀ rule ∈ matched, rule.action ≠ "block".toList :=
      fun rule hrule haction => hblock ⟨rule, hrule, haction⟩
    obtain ⟨after, hafter, hfound⟩ : ∃ after, scanMatched policy matched Scan.start = .ok after ∧
      Found matched Scan.start after := scanMatched_found hnone Scan.start rfl
    rw [hafter]
    exact severity_applyThresholds hnone hfound

end Scanned

end Matched

section Inspected

/-- Patterns kept by the module are what compiling them gives. -/
def WafModule.Sound (waf : WafModule) (patterns : Patterns) : Prop :=
  ∀ entry ∈ patterns, entry.2 = waf.engine.regex entry.1

variable (waf : WafModule) (ctx : RequestContext)

theorem transparent_asks (rule : RuleRow) :
    Transparent (Caches.Sound (waf.sourceOf ctx) (Whole.of (waf.sourceOf ctx))) (waf.asks ctx rule)
      (waf.ruleHolds ctx rule) := by
  have hholds : Transparent (Caches.Sound (waf.sourceOf ctx) (Whole.of (waf.sourceOf ctx))) _ _ :=
    transparent_holds rule
  have hfresh := (hholds ⟨[], Parts.new⟩
    { patterns := List.forall_mem_nil _, parts := Source.sound_new _ _ }).1
  rw [WafModule.ruleHolds, WafModule.asks, hfresh]
  exact hholds

/-- What a request comes to, by the rules that apply to it and hold. -/
def WafModule.decision (snapshot : SiteSnapshot) : ModuleDecision :=
  match snapshot.policy with
  | none => .pass
  | some policy =>
      if policy.ruleEngine = "Off".toList then .pass
      else if snapshot.rules = [] then .pass
      else conclude policy (scanMatched policy
        (waf.matchedRules snapshot.exclusions ctx snapshot.rules) Scan.start)

theorem transparent_inspect (snapshot : SiteSnapshot) :
    Transparent waf.Sound (waf.inspect snapshot ctx) (waf.decision ctx snapshot) := by
  intro patterns hpatterns
  unfold WafModule.inspect WafModule.decision
  cases snapshot.policy with
  | none => exact ⟨rfl, hpatterns⟩
  | some policy =>
      by_cases hoff : policy.ruleEngine = "Off".toList
      · simp only [if_pos hoff]
        exact ⟨rfl, hpatterns⟩
      · by_cases hrules : snapshot.rules = []
        · simp only [if_neg hoff, if_pos hrules]
          exact ⟨rfl, hpatterns⟩
        · simp only [if_neg hoff, if_neg hrules]
          have hscan := transparent_scanWith policy (waf.applies snapshot.exclusions ctx)
            (transparent_asks waf ctx) snapshot.rules Scan.start ⟨patterns, Parts.new⟩
            { patterns := hpatterns, parts := Source.sound_new _ _ }
          rw [run_scanWith] at hscan
          exact ⟨congrArg (conclude policy) hscan.1, hscan.2.patterns⟩

theorem sound_patternsAfter (earlier : List (SiteSnapshot × RequestContext)) :
    waf.Sound (waf.patternsAfter earlier) :=
  (Transparent.mapM (fun inspected _ => transparent_inspect waf inspected.2 inspected.1) []
    (List.forall_mem_nil _)).2

variable (earlier : List (SiteSnapshot × RequestContext)) (policy : PolicyInfo)
  (exclusions : List Exclusion) (rules : List RuleRow)

/-- How severely the module judges a request to a site under this policy. -/
def WafModule.judged : Severity :=
  ((waf.inspect ⟨some policy, rules, exclusions⟩ ctx).run (waf.patternsAfter earlier)).1.severity

theorem judged_eq :
    waf.judged ctx earlier policy exclusions rules =
      if policy.ruleEngine = "Off".toList then .pass
      else if rules = [] then .pass
      else severityOf policy (waf.matchedRules exclusions ctx rules) := by
  rw [WafModule.judged, (transparent_inspect waf ctx _ _ (sound_patternsAfter waf earlier)).1,
    WafModule.decision]
  by_cases hoff : policy.ruleEngine = "Off".toList
  · simp only [if_pos hoff]
    rfl
  · by_cases hrules : rules = []
    · simp only [if_neg hoff, if_pos hrules]
      rfl
    · simp only [if_neg hoff, if_neg hrules]
      exact severity_conclude _

end Inspected

section Permuted

variable {matched others : List RuleRow}

theorem total_perm (hperm : matched.Perm others) : total matched = total others :=
  ((hperm.filter _).map _).sum_eq

theorem severityOf_perm (policy : PolicyInfo) (hperm : matched.Perm others) :
    severityOf policy matched = severityOf policy others := by
  have hmem : ∀ action : Text,
      (∃ rule ∈ matched, rule.action = action) ↔ ∃ rule ∈ others, rule.action = action :=
    fun action => exists_congr fun rule => and_congr_left fun _ => hperm.mem_iff
  have hnil : matched = [] ↔ others = [] := by
    rw [← List.length_eq_zero_iff, hperm.length_eq, List.length_eq_zero_iff]
  have hrefused : Refused policy matched ↔ Refused policy others := by
    rw [Refused, Refused, hmem, total_perm hperm]
  have hchallenged : Challenged policy matched ↔ Challenged policy others := by
    rw [Challenged, Challenged, hmem, total_perm hperm]
  simp only [severityOf, hrefused, hchallenged, hnil]

theorem severityOf_enforcing (policy : PolicyInfo)
    (hdetect : policy.ruleEngine ≠ "DetectionOnly".toList) (matched : List RuleRow) :
    (severityOf policy matched = .refuse ↔ Refused policy matched) ∧
      (¬ Refused policy matched → (severityOf policy matched = .challenge ↔
        Challenged policy matched)) := by
  rw [severityOf, PolicyInfo.enforced, if_neg hdetect]
  by_cases hrefused : Refused policy matched
  · rw [if_pos hrefused]
    exact ⟨iff_of_true rfl hrefused, fun hnot => absurd hrefused hnot⟩
  · rw [if_neg hrefused]
    by_cases hchallenged : Challenged policy matched
    · rw [if_pos hchallenged]
      exact ⟨iff_of_false (by decide) hrefused, fun _ => iff_of_true rfl hchallenged⟩
    · rw [if_neg hchallenged]
      by_cases hnil : matched = []
      · rw [if_pos hnil]
        exact ⟨iff_of_false (by decide) hrefused, fun _ => iff_of_false (by decide) hchallenged⟩
      · rw [if_neg hnil]
        exact ⟨iff_of_false (by decide) hrefused, fun _ => iff_of_false (by decide) hchallenged⟩

theorem wrapped_of_fits {n : ℤ} (hlow : -2 ^ 63 ≤ n) (hhigh : n < 2 ^ 63) : wrapped n = n :=
  Int.bmod_eq_of_le (by omega) (by omega)

end Permuted

section Sums

variable (policy : PolicyInfo) (applies held : RuleRow → Bool)

/-- Scores that cannot wrap are added up as they are. -/
theorem run_scanWith_eq_scan (rules : List RuleRow) (found : Scan)
    (hfits : |found.totalScore| + (rules.map fun rule => |rule.score|).sum < 2 ^ 63) :
    (scanWith policy applies (fun rule => (pure (held rule) : Id Bool)) rules found).run =
      scan policy applies held rules found := by
  induction rules generalizing found with
  | nil => rfl
  | cons rule rest ih =>
      rw [List.map_cons, List.sum_cons] at hfits
      have hskip : |found.totalScore| + (rest.map fun rule => |rule.score|).sum < 2 ^ 63 :=
        lt_of_le_of_lt (by linarith [abs_nonneg rule.score]) hfits
      have hadded : |found.totalScore + rule.score| + (rest.map fun rule => |rule.score|).sum <
          2 ^ 63 := lt_of_le_of_lt (by linarith [abs_add_le found.totalScore rule.score]) hfits
      have hsum : wrapped (found.totalScore + rule.score) = found.totalScore + rule.score := by
        have hrest : 0 ≤ (rest.map fun rule => |rule.score|).sum :=
          List.sum_nonneg fun score hscore => by
            obtain ⟨rule, -, rfl⟩ := List.mem_map.mp hscore
            exact abs_nonneg _
        obtain ⟨hlow, hhigh⟩ := abs_lt.mp (lt_of_le_of_lt (le_add_of_nonneg_right hrest) hadded)
        exact wrapped_of_fits hlow.le hhigh
      rw [scanWith, scan]
      cases applies rule with
      | false => exact ih found hskip
      | true =>
          simp only [Bool.not_true, Bool.false_eq_true, if_false, pure_bind]
          cases held rule with
          | false => exact ih found hskip
          | true =>
              simp only [Bool.not_true, Bool.false_eq_true, if_false]
              by_cases hblock : rule.action = "block".toList
              · rw [if_pos hblock, if_pos hblock]
                rfl
              · rw [if_neg hblock, if_neg hblock]
                by_cases hchallenge : rule.action = "challenge".toList
                · rw [if_pos hchallenge, if_pos hchallenge]
                  exact ih _ hskip
                · rw [if_neg hchallenge, if_neg hchallenge, hsum]
                  exact ih _ hadded

/-- The request as the rules are asked about it. -/
def WafModule.inspected (waf : WafModule) (ctx : RequestContext) : Inspected where
  path := Paths.pathAsForwarded waf.url ctx.path
  client := ctx.clientIp
  holds := waf.ruleHolds ctx

theorem decision_eq_inspect (waf : WafModule) (ctx : RequestContext) (snapshot : SiteSnapshot)
    (hfits : (snapshot.rules.map fun rule => |rule.score|).sum < 2 ^ 63) :
    waf.decision ctx snapshot = inspect snapshot (waf.inspected ctx) := by
  have hscan (policy : PolicyInfo) :
      scanMatched policy (waf.matchedRules snapshot.exclusions ctx snapshot.rules) Scan.start =
        scan policy (snapshot.applies (waf.inspected ctx)) (waf.ruleHolds ctx) snapshot.rules
          Scan.start := by
    rw [← run_scanWith_eq_scan policy _ _ _ _ (by simpa [Scan.start] using hfits), run_scanWith]
    rfl
  unfold WafModule.decision inspect
  cases snapshot.policy with
  | none => rfl
  | some policy =>
      dsimp only
      rw [hscan]
      rfl

end Sums

section Verdict

variable (waf : WafModule) (ctx : RequestContext) (earlier : List (SiteSnapshot × RequestContext))
  (policy : PolicyInfo) (exclusions : List Exclusion) (rules : List RuleRow)

/-- What a request comes to is the business of the rules that match it: whatever
requests came before, and in whatever order the rules stand.  A list without rules
passes everything. -/
theorem verdict_of_matched_rules :
    (policy.ruleEngine ≠ "Off".toList → policy.ruleEngine ≠ "DetectionOnly".toList → rules ≠ [] →
      -2 ^ 63 ≤ total (waf.matchedRules exclusions ctx rules) →
      total (waf.matchedRules exclusions ctx rules) < 2 ^ 63 →
      (waf.judged ctx earlier policy exclusions rules = .refuse ↔
        (∃ rule ∈ waf.matchedRules exclusions ctx rules, rule.action = "block".toList) ∨
          policy.scoreThreshold ≤ total (waf.matchedRules exclusions ctx rules)) ∧
      (waf.judged ctx earlier policy exclusions rules ≠ .refuse →
        (waf.judged ctx earlier policy exclusions rules = .challenge ↔
          (∃ rule ∈ waf.matchedRules exclusions ctx rules, rule.action = "challenge".toList) ∨
            0 < policy.challengeThreshold ∧
              policy.challengeThreshold ≤ total (waf.matchedRules exclusions ctx rules)))) ∧
      waf.judged ctx earlier policy exclusions [] = .pass ∧
      ∀ others, rules.Perm others →
        waf.judged ctx earlier policy exclusions others =
          waf.judged ctx earlier policy exclusions rules := by
  constructor
  · intro hoff hdetect hrules hlow hhigh
    have hscore := wrapped_of_fits hlow hhigh
    obtain ⟨hrefused, hchallenged⟩ :=
      severityOf_enforcing policy hdetect (waf.matchedRules exclusions ctx rules)
    rw [judged_eq, if_neg hoff, if_neg hrules]
    rw [Refused, hscore] at hrefused hchallenged
    rw [Challenged, hscore] at hchallenged
    exact ⟨hrefused, fun hnot => hchallenged (mt hrefused.mpr hnot)⟩
  · constructor
    · rw [judged_eq, if_pos rfl, ite_self]
    · intro others hperm
      have hmatched : (waf.matchedRules exclusions ctx rules).Perm
          (waf.matchedRules exclusions ctx others) := hperm.filter _
      have hnil : others = [] ↔ rules = [] := by
        rw [← List.length_eq_zero_iff, ← hperm.length_eq, List.length_eq_zero_iff]
      rw [judged_eq, judged_eq]
      simp only [hnil, severityOf_perm policy hmatched]

end Verdict

section Literal

/-- Libraries under which a pattern of letters is what a text contains. -/
def literalWaf : WafModule where
  engine := {
    toLowercase := Text.toAsciiLowercase
    regex := fun pattern => some (Text.hasInfix pattern)
    nameMatches := fun pattern key => Text.hasInfix pattern key
    detectSqli := fun _ => none
    detectXss := fun _ => false
    parseJson := fun _ => none
    parseXml := fun _ => none }
  url := .standard
  decoders := ⟨fun _ _ => ⟨0, []⟩, fun _ _ => ⟨0, []⟩, fun _ _ => ⟨0, []⟩⟩
  inflateLimit := 131072

/-- A rule about the method. -/
def methodRule (id score : ℤ) (pattern action : Text) : RuleRow where
  id := id
  externalId := none
  name := pattern
  zone := "METHOD".toList
  targets := some [.method]
  pattern := pattern
  negate := false
  chain := []
  conditions := []
  score := score
  action := action

def enforcing (scoreThreshold challengeThreshold : ℤ) : PolicyInfo where
  id := 1
  ruleEngine := "On".toList
  scoreThreshold := scoreThreshold
  challengeThreshold := challengeThreshold

def getRoot : RequestContext where
  clientIp := .v4 0
  method := "GET".toList
  path := "/".toList
  query := none
  version := .http11
  headers := []
  body := []

theorem two_scores_reach_the_threshold :
    literalWaf.judged getRoot [] (enforcing 10 0) []
      [methodRule 1 5 "GET".toList "score".toList, methodRule 2 5 "ET".toList "score".toList] =
        .refuse :=
  ((verdict_of_matched_rules literalWaf getRoot [] (enforcing 10 0) []
    [methodRule 1 5 "GET".toList "score".toList, methodRule 2 5 "ET".toList "score".toList]).1
    (by decide) (by decide) (by decide) (by decide +kernel) (by decide +kernel)).1.mpr
      (Or.inr (by decide +kernel))

/-- No rules at all come to 0, and pass under a threshold of 0. -/
theorem no_rules_reach_the_threshold :
    ¬ ∀ (waf : WafModule) (ctx : RequestContext) (policy : PolicyInfo)
        (exclusions : List Exclusion) (rules : List RuleRow),
      policy.ruleEngine ≠ "Off".toList → policy.ruleEngine ≠ "DetectionOnly".toList →
      -2 ^ 63 ≤ total (waf.matchedRules exclusions ctx rules) →
      total (waf.matchedRules exclusions ctx rules) < 2 ^ 63 →
      (waf.judged ctx [] policy exclusions rules = .refuse ↔
        (∃ rule ∈ waf.matchedRules exclusions ctx rules, rule.action = "block".toList) ∨
          policy.scoreThreshold ≤ total (waf.matchedRules exclusions ctx rules)) := by
  intro hevery
  have hiff := hevery literalWaf getRoot (enforcing 0 0) [] [] (by decide) (by decide) (by decide)
    (by decide)
  have hrefused := hiff.mpr (Or.inr (by decide))
  revert hrefused
  decide +kernel

end Literal

end Waf

end EasyWaf.Modules
