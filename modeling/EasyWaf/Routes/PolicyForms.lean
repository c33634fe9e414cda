import EasyWaf.Modules.Severity
import EasyWaf.Text.Decimal

/-!
# The numbers a policy and its rules are stored with

The forms take any number of 64 bits.  An import does not take a threshold that
nothing reaches.
-/

namespace EasyWaf.Routes

open EasyWaf.Core EasyWaf.Modules EasyWaf.Modules.Waf

section Forms

/-- A number as a form sends it, or the default. -/
def formNumber (field : Option Text) (default : ℤ) : ℤ :=
  (field.bind Text.parseInt64).getD default

/-- What `post_policy_create` and `post_policy_update` store of the mode and the
thresholds. -/
def policyOfForm (id : ℤ) (raw : Text → Option Text) : PolicyInfo where
  id := id
  ruleEngine := (raw "rule_engine".toList).getD "DetectionOnly".toList
  scoreThreshold := formNumber (raw "score_threshold".toList) 10
  challengeThreshold := formNumber (raw "challenge_threshold".toList) 0

/-- The score `post_rule_create` and `post_rule_update_global` store. -/
def ruleScore (field : Option Text) : ℤ := formNumber field 5

/-- `import::MODES`. -/
def modes : List Text := ["On".toList, "DetectionOnly".toList, "Off".toList]

/-- `import::check` has no blocker for the policy. -/
def acceptedByImport (policy : PolicyInfo) : Bool :=
  modes.contains policy.ruleEngine && 1 ≤ policy.scoreThreshold && 0 ≤ policy.challengeThreshold

/-- A policy the forms or an import store. -/
def Stored (policy : PolicyInfo) : Prop :=
  (∃ raw, policy = policyOfForm policy.id raw) ∨ acceptedByImport policy = true

theorem formNumber_formatInt {n : ℤ} (hlow : -2 ^ 63 ≤ n) (hhigh : n < 2 ^ 63) (default : ℤ) :
    formNumber (some (Text.formatInt n)) default = n := by
  rw [formNumber, Option.bind_some, Text.parseInt64_formatInt hlow hhigh, Option.getD_some]

/-- Whatever fits 64 bits can be stored. -/
theorem stored_of_fits {policy : PolicyInfo}
    (hscore : -2 ^ 63 ≤ policy.scoreThreshold ∧ policy.scoreThreshold < 2 ^ 63)
    (hchallenge : -2 ^ 63 ≤ policy.challengeThreshold ∧ policy.challengeThreshold < 2 ^ 63) :
    Stored policy := by
  let raw (field : Text) : Option Text :=
    if field = "rule_engine".toList then some policy.ruleEngine
    else if field = "score_threshold".toList then some (Text.formatInt policy.scoreThreshold)
    else some (Text.formatInt policy.challengeThreshold)
  have hform : policyOfForm policy.id raw = policy :=
    congrArg₂ (PolicyInfo.mk policy.id policy.ruleEngine)
      (formNumber_formatInt hscore.1 hscore.2 10) (formNumber_formatInt hchallenge.1 hchallenge.2 0)
  exact Or.inl ⟨raw, hform.symm⟩

end Forms

section Severities

variable {policy : PolicyInfo} {matched others : List RuleRow}

/-- The score of what matches the second request falls below no threshold the
first's reaches, where no rule speaks for itself. -/
structure Keeps (policy : PolicyInfo) (matched others : List RuleRow) : Prop where
  refusal : policy.scoreThreshold ≤ wrapped (total matched) →
    policy.scoreThreshold ≤ wrapped (total others) ∨
      ∃ rule ∈ others, rule.action = "block".toList
  challenge : 0 < policy.challengeThreshold →
    policy.challengeThreshold ≤ wrapped (total matched) →
      policy.challengeThreshold ≤ wrapped (total others) ∨
        policy.scoreThreshold ≤ wrapped (total others) ∨
          ∃ rule ∈ others, rule.action = "block".toList ∨ rule.action = "challenge".toList

theorem le_iff_levels (left right : Severity) :
    left ≤ right ↔ (left = .refuse → right = .refuse) ∧
      (.challenge ≤ left → .challenge ≤ right) ∧ (.alert ≤ left → .alert ≤ right) := by
  cases left <;> cases right <;> decide

section Levels

variable (policy matched)

theorem alert_le_iff : .alert ≤ severityOf policy matched ↔
    Refused policy matched ∨ Challenged policy matched ∨ matched ≠ [] := by
  rw [severityOf, PolicyInfo.enforced]
  by_cases hrefused : Refused policy matched
  · rw [if_pos hrefused]
    exact iff_of_true (by split <;> decide) (Or.inl hrefused)
  · rw [if_neg hrefused]
    by_cases hchallenged : Challenged policy matched
    · rw [if_pos hchallenged]
      exact iff_of_true (by split <;> decide) (Or.inr (Or.inl hchallenged))
    · rw [if_neg hchallenged]
      by_cases hnil : matched = []
      · rw [if_pos hnil]
        exact iff_of_false (by split <;> decide) (by tauto)
      · rw [if_neg hnil]
        exact iff_of_true (by split <;> decide) (Or.inr (Or.inr hnil))

theorem challenge_le_severity (severity : Severity) :
    .challenge ≤ severity ↔ severity = .refuse ∨ severity = .challenge := by
  cases severity <;> decide

theorem challenge_le_iff (hdetect : policy.ruleEngine ≠ "DetectionOnly".toList) :
    .challenge ≤ severityOf policy matched ↔ Refused policy matched ∨ Challenged policy matched := by
  obtain ⟨hrefuse, hchallenge⟩ := severityOf_enforcing policy hdetect matched
  rw [challenge_le_severity, hrefuse]
  by_cases hrefused : Refused policy matched
  · exact iff_of_true (Or.inl hrefused) (Or.inl hrefused)
  · rw [or_iff_right hrefused, or_iff_right hrefused]
    exact hchallenge hrefused

end Levels

theorem exists_action_of_subset (hsubset : matched ⊆ others) {action : Text}
    (hexists : ∃ rule ∈ matched, rule.action = action) : ∃ rule ∈ others, rule.action = action := by
  obtain ⟨rule, hrule, haction⟩ := hexists
  exact ⟨rule, hsubset hrule, haction⟩

/-- What more rules match is judged as severely, where the thresholds reached stay
reached. -/
theorem severityOf_le_iff (hdetect : policy.ruleEngine ≠ "DetectionOnly".toList)
    (hsubset : matched ⊆ others) :
    severityOf policy matched ≤ severityOf policy others ↔ Keeps policy matched others := by
  have hblock : (∃ rule ∈ matched, rule.action = "block".toList) → _ :=
    exists_action_of_subset hsubset
  have hchallenge : (∃ rule ∈ matched, rule.action = "challenge".toList) → _ :=
    exists_action_of_subset hsubset
  have hsome : matched ≠ [] → others ≠ [] := by
    intro hmatched hothers
    rw [hothers] at hsubset
    exact hmatched (List.subset_nil.mp hsubset)
  rw [le_iff_levels, (severityOf_enforcing policy hdetect matched).1,
    (severityOf_enforcing policy hdetect others).1, challenge_le_iff policy matched hdetect,
    challenge_le_iff policy others hdetect, alert_le_iff, alert_le_iff]
  constructor
  · rintro ⟨hrefused, hchallenged, -⟩
    exact {
      refusal := fun hreached => (hrefused (Or.inr hreached)).symm
      challenge := fun hpositive hreached => by
        rcases hchallenged (Or.inr (Or.inr ⟨hpositive, hreached⟩)) with
          (⟨rule, hrule, haction⟩ | hscore) | ⟨rule, hrule, haction⟩ | hscore
        · exact Or.inr (Or.inr ⟨rule, hrule, Or.inl haction⟩)
        · exact Or.inr (Or.inl hscore)
        · exact Or.inr (Or.inr ⟨rule, hrule, Or.inr haction⟩)
        · exact Or.inl hscore.2 }
  · intro hkeeps
    have hrefused : Refused policy matched → Refused policy others := by
      rintro (hspeaks | hreached)
      · exact Or.inl (hblock hspeaks)
      · exact (hkeeps.refusal hreached).symm
    have hchallenged : Challenged policy matched →
        Refused policy others ∨ Challenged policy others := by
      rintro (hspeaks | ⟨hpositive, hreached⟩)
      · exact Or.inr (Or.inl (hchallenge hspeaks))
      · rcases hkeeps.challenge hpositive hreached with
          hscore | hscore | ⟨rule, hrule, haction | haction⟩
        · exact Or.inr (Or.inr ⟨hpositive, hscore⟩)
        · exact Or.inl (Or.inr hscore)
        · exact Or.inl (Or.inl ⟨rule, hrule, haction⟩)
        · exact Or.inr (Or.inl ⟨rule, hrule, haction⟩)
    have hboth : Refused policy matched ∨ Challenged policy matched →
        Refused policy others ∨ Challenged policy others :=
      fun heither => heither.elim (fun hreached => Or.inl (hrefused hreached)) hchallenged
    constructor
    · exact hrefused
    · constructor
      · exact hboth
      · rintro (hreached | hreached | hmatched)
        · exact Or.inl (hrefused hreached)
        · exact (hchallenged hreached).imp_right Or.inl
        · exact Or.inr (Or.inr (hsome hmatched))

/-- In DetectionOnly nothing is more than an alert. -/
theorem severityOf_le_of_detect (hdetect : policy.ruleEngine = "DetectionOnly".toList)
    (hnothing : matched = [] → severityOf policy matched = .pass) (hsubset : matched ⊆ others) :
    severityOf policy matched ≤ severityOf policy others := by
  by_cases hnil : matched = []
  · rw [hnothing hnil]
    exact Severity.pass_le _
  · have hothers : others ≠ [] := by
      intro hothers
      rw [hothers] at hsubset
      exact hnil (List.subset_nil.mp hsubset)
    have halert : .alert ≤ severityOf policy others :=
      (alert_le_iff policy others).mpr (Or.inr (Or.inr hothers))
    apply le_trans _ halert
    rw [severityOf, PolicyInfo.enforced, if_pos hdetect]
    exact min_le_right _ _

theorem severityOf_nil : severityOf policy [] = .pass ↔ 0 < policy.scoreThreshold := by
  have hchallenged : ¬ Challenged policy [] := by
    rintro (⟨rule, hrule, -⟩ | ⟨hpositive, hreached⟩)
    · exact List.not_mem_nil hrule
    · exact absurd (hpositive.trans_le hreached) (lt_irrefl 0)
  have hrefused : Refused policy [] ↔ policy.scoreThreshold ≤ 0 :=
    or_iff_right fun ⟨rule, hrule, _⟩ => List.not_mem_nil hrule
  rw [← not_le, ← hrefused, severityOf, PolicyInfo.enforced]
  by_cases hreached : Refused policy []
  · rw [if_pos hreached]
    exact iff_of_false (by split <;> decide) (not_not.mpr hreached)
  · rw [if_neg hreached, if_neg hchallenged, if_pos rfl]
    exact iff_of_true (by split <;> rfl) hreached

theorem total_nonneg (hscores : ∀ rule ∈ matched, 0 ≤ rule.score) : 0 ≤ total matched :=
  List.sum_nonneg fun score hscore => by
    obtain ⟨rule, hrule, rfl⟩ := List.mem_map.mp hscore
    exact hscores rule (List.mem_of_mem_filter hrule)

theorem total_le_of_subset (hnodup : matched.Nodup) (hsubset : matched ⊆ others)
    (hscores : ∀ rule ∈ others, 0 ≤ rule.score) : total matched ≤ total others := by
  obtain ⟨ordered, hperm, hsublist⟩ := hnodup.subperm hsubset
  calc total matched
      = total ordered := (total_perm hperm).symm
    _ ≤ total others := by
        apply List.Sublist.sum_le_sum ((hsublist.filter _).map _)
        intro score hscore
        obtain ⟨rule, hrule, rfl⟩ := List.mem_map.mp hscore
        exact hscores rule (List.mem_of_mem_filter hrule)

/-- With scores as the rule form suggests them, none below 0, thresholds stay
reached. -/
theorem keeps_of_scores (hnodup : matched.Nodup) (hsubset : matched ⊆ others)
    (hscores : ∀ rule ∈ others, 0 ≤ rule.score) (hfits : total others < 2 ^ 63) :
    Keeps policy matched others := by
  have hle := total_le_of_subset hnodup hsubset hscores
  have hmatched := total_nonneg fun rule hrule => hscores rule (hsubset hrule)
  have hfirst := wrapped_of_fits (by omega) (hle.trans_lt hfits)
  have hsecond := wrapped_of_fits (by omega) hfits
  have hwrapped : wrapped (total matched) ≤ wrapped (total others) := by rwa [hfirst, hsecond]
  exact {
    refusal := fun hreached => Or.inl (hreached.trans hwrapped)
    challenge := fun _ hreached => Or.inl (hreached.trans hwrapped) }

end Severities

section Law

variable (waf : WafModule) (earlier later : List (SiteSnapshot × RequestContext))
  (policy : PolicyInfo) (exclusions : List Exclusion) (rules : List RuleRow)
  (first second : RequestContext)

/-- Nothing matched is let through, and a match never helps. -/
theorem severity_law_iff :
    (waf.matchedRules exclusions first rules = [] →
        waf.judged first earlier policy exclusions rules = .pass) ∧
      (waf.matchedRules exclusions first rules ⊆ waf.matchedRules exclusions second rules →
        waf.judged first earlier policy exclusions rules ≤
          waf.judged second later policy exclusions rules) ↔
    policy.ruleEngine = "Off".toList ∨ rules = [] ∨
      (waf.matchedRules exclusions first rules = [] → 0 < policy.scoreThreshold) ∧
        (policy.ruleEngine ≠ "DetectionOnly".toList →
          waf.matchedRules exclusions first rules ⊆ waf.matchedRules exclusions second rules →
            Keeps policy (waf.matchedRules exclusions first rules)
              (waf.matchedRules exclusions second rules)) := by
  rw [judged_eq, judged_eq]
  by_cases hoff : policy.ruleEngine = "Off".toList
  · rw [if_pos hoff, if_pos hoff]
    exact iff_of_true ⟨fun _ => rfl, fun _ => le_rfl⟩ (Or.inl hoff)
  · rw [if_neg hoff, if_neg hoff, or_iff_right hoff]
    by_cases hrules : rules = []
    · rw [if_pos hrules, if_pos hrules]
      exact iff_of_true ⟨fun _ => rfl, fun _ => le_rfl⟩ (Or.inl hrules)
    · rw [if_neg hrules, if_neg hrules, or_iff_right hrules]
      have hnothing : (waf.matchedRules exclusions first rules = [] →
            severityOf policy (waf.matchedRules exclusions first rules) = .pass) ↔
          (waf.matchedRules exclusions first rules = [] → 0 < policy.scoreThreshold) := by
        apply forall_congr'
        intro hnil
        rw [hnil]
        exact severityOf_nil
      by_cases hdetect : policy.ruleEngine = "DetectionOnly".toList
      · constructor
        · exact fun hlaw => ⟨hnothing.mp hlaw.1, fun henforcing => absurd hdetect henforcing⟩
        · exact fun hstored => ⟨hnothing.mpr hstored.1,
            severityOf_le_of_detect hdetect (hnothing.mpr hstored.1)⟩
      · apply and_congr hnothing
        constructor
        · exact fun hle _ hsubset => (severityOf_le_iff hdetect hsubset).mp (hle hsubset)
        · exact fun hkeeps hsubset =>
            (severityOf_le_iff hdetect hsubset).mpr (hkeeps hdetect hsubset)

/-- A threshold of 0, as the form takes it, refuses what no rule matches. -/
theorem threshold_zero_refuses_everything :
    ¬ ∀ (waf : WafModule) (policy : PolicyInfo) (exclusions : List Exclusion)
        (rules : List RuleRow) (request : RequestContext),
      Stored policy → (∀ rule ∈ rules, ∃ field, rule.score = ruleScore field) →
      waf.matchedRules exclusions request rules = [] →
      waf.judged request [] policy exclusions rules = .pass := by
  intro hevery
  have hpass := hevery literalWaf (enforcing 0 0) [] [methodRule 1 5 "POST".toList "score".toList]
    getRoot (stored_of_fits (by decide) (by decide))
    (List.forall_mem_singleton.mpr ⟨none, rfl⟩) (by decide +kernel)
  revert hpass
  decide +kernel

end Law

end EasyWaf.Routes
