import EasyWaf.Core.Machine
import EasyWaf.RuleSets.Manifest
import EasyWaf.RuleSets.Operation

/-!
# Applying an update

An update is looked for in the manifest that was fetched last, and applied from
the mirror on disk where that has the set, from the channel where it has not.
Each is verified by itself; nothing compares the version it is with the one the
policy holds.
-/

namespace EasyWaf.RuleSets

abbrev Bytes := List UInt8

/-- What applying a set takes from outside. -/
structure Verifier where
  /-- `pgp_verify::verify_detached` with the trusted key: who signed, or why it
  does not verify. -/
  verifyDetached : Bytes → Text → Except Text Text
  /-- `channel::sha256_hex`. -/
  sha256Hex : Bytes → Text
  /-- The TOML reader. -/
  fromToml : Text → SetText

/-- Why a set is not applied. -/
inductive ApplyError
  | fetch (path : Text)
  | signatureNotText
  | unverified (error : Text)
  | mirrorUnverified (error : Text)
  | manifestNotText
  | notOffered (set : Text)
  | needsNewer (set : Text) (version : ℤ) (requires : Text)
  | mismatch (file digest sha256 : Text)
  | mirrorMismatch (file digest sha256 : Text)
  | setNotText (file : Text)

/-- A set's text at a version, verified. -/
structure Offer where
  version : ℤ
  text : Text
  signer : Text
  mirrored : Bool

/-- The mirror on disk: the manifest, its signature, and the sets by file
name. -/
structure Mirror where
  manifest : Option Bytes
  signature : Option Text
  sets : Text → Option Bytes

section Offers

variable (verifier : Verifier)

/-- `apply_from_cache`, up to what it installs: nothing where the mirror does not
have the set, and an error where what it has does not verify. -/
def Mirror.offer (mirror : Mirror) (set : Text) : Option (Except ApplyError Offer) :=
  mirror.manifest.bind fun manifest =>
    mirror.signature.bind fun signature =>
      match verifier.verifyDetached manifest signature with
      | .error error => some (.error (.mirrorUnverified error))
      | .ok signer =>
        (Text.fromUtf8 manifest).bind fun manifest =>
          (manifestEntry manifest set).bind fun entry =>
            if needsNewer entry.requires then
              some (.error (.needsNewer set entry.version entry.requires))
            else
              (fileName entry.file).bind fun name =>
                (mirror.sets name).bind fun body =>
                  if verifier.sha256Hex body ≠ entry.sha256 then
                    some (.error
                      (.mirrorMismatch entry.file (verifier.sha256Hex body) entry.sha256))
                  else
                    match Text.fromUtf8 body with
                    | none => some (.error (.setNotText entry.file))
                    | some text =>
                        some (.ok { version := entry.version, text, signer, mirrored := true })

/-- What the channel answers a request for a file of it with. -/
def fetch (channel : Text → Option Bytes) (path : Text) : Except ApplyError Bytes :=
  match channel path with
  | some body => .ok body
  | none => .error (.fetch path)

/-- The rest of `apply`, up to what it installs. -/
def channelOffer (channel : Text → Option Bytes) (set : Text) : Except ApplyError Offer := do
  let manifest ← fetch channel "sets.toml".toList
  let signature ← fetch channel "sets.toml.asc".toList
  let some signature := Text.fromUtf8 signature | .error .signatureNotText
  match verifier.verifyDetached manifest signature with
  | .error error => .error (.unverified error)
  | .ok signer =>
    let some manifest := Text.fromUtf8 manifest | .error .manifestNotText
    let some entry := manifestEntry manifest set | .error (.notOffered set)
    if needsNewer entry.requires then .error (.needsNewer set entry.version entry.requires)
    else
      let body ← fetch channel entry.file
      if verifier.sha256Hex body ≠ entry.sha256 then
        .error (.mismatch entry.file (verifier.sha256Hex body) entry.sha256)
      else
        let some text := Text.fromUtf8 body | .error (.setNotText entry.file)
        .ok { version := entry.version, text, signer, mirrored := false }

end Offers

/-- The policies, the mirror, the channel, the manifest fetched last, and the
updates the automatic task has found and not yet applied. -/
structure World where
  policies : ℤ → PolicyRules
  mirror : Mirror
  channel : Text → Option Bytes
  cached : Option Text
  waiting : ℤ → Text → Bool

section Tasks

variable (toJson : List Condition → Text) (libraries : Libraries) (verifier : Verifier)

namespace World

/-- `check`: a manifest with no set in it is not kept. -/
def check (world : World) : World :=
  match world.channel "sets.toml".toList with
  | none => world
  | some body =>
      if parseManifest (Text.fromUtf8Lossy body) = [] then world
      else { world with cached := some (Text.fromUtf8Lossy body) }

/-- Whether `available` lists the set for the policy. -/
def isAvailable (world : World) (policy : ℤ) (set : Text) : Bool :=
  match (parseManifest (world.cached.getD [])).find? (·.id = set),
      (world.policies policy).held set with
  | some offered, some holding => holding.version < offered.version
  | _, _ => false

/-- Where a set is taken from: the mirror first. -/
def offer (world : World) (set : Text) : Except ApplyError Offer :=
  (world.mirror.offer verifier set).getD (channelOffer verifier world.channel set)

/-- `apply`, stopped after some of the statements that install the set. -/
def apply (world : World) (policy : ℤ) (set : Text) (statements : ℕ) : World :=
  match world.offer verifier set with
  | .error _ => world
  | .ok offer =>
      { world with
        policies := Function.update world.policies policy
          (installPart toJson set libraries offer.version (verifier.fromToml offer.text) statements
            (world.policies policy)) }

end World

/-- What is offered changes, is looked at and is applied. -/
inductive Event
  | publish (channel : Text → Option Bytes)
  | sync (mirror : Mirror)
  | check
  | look
  | automatic (policy : ℤ) (set : Text) (statements : ℕ)
  | apply (policy : ℤ) (set : Text) (statements : ℕ)

/-- A world and, by policy and number, which version of which set a rule was last
written from. -/
structure Progress where
  world : World
  origin : ℤ → ℤ → Option (Text × ℤ)

def Progress.ofWorld (world : World) : Progress where
  world := world
  origin := fun _ _ => none

namespace Progress

def apply (progress : Progress) (policy : ℤ) (set : Text) (statements : ℕ) : Progress where
  world := progress.world.apply toJson libraries verifier policy set statements
  origin :=
    match progress.world.offer verifier set with
    | .error _ => progress.origin
    | .ok offer =>
        Function.update progress.origin policy fun number =>
          if number ∈ installedNumbers libraries (verifier.fromToml offer.text) statements then
            some (set, offer.version)
          else progress.origin policy number

def step (progress : Progress) : Event → Option Progress
  | .publish channel => some { progress with world := { progress.world with channel } }
  | .sync mirror => some { progress with world := { progress.world with mirror } }
  | .check => some { progress with world := progress.world.check }
  | .look =>
      some { progress with world := { progress.world with waiting := progress.world.isAvailable } }
  | .automatic policy set statements =>
      if progress.world.waiting policy set then
        some (progress.apply toJson libraries verifier policy set statements)
      else none
  | .apply policy set statements =>
      some (progress.apply toJson libraries verifier policy set statements)

/-- A set that can be installed is offered at no older version than the policy
holds. -/
def OffersNotOlder (progress : Progress) : Event → Prop
  | .automatic policy set _ | .apply policy set _ =>
      ∀ offer, progress.world.offer verifier set = .ok offer →
        ((verifier.fromToml offer.text).installable libraries).isOk →
          ∀ holding, (progress.world.policies policy).held set = some holding →
            holding.version ≤ offer.version
  | .publish _ | .sync _ | .check | .look => True

end Progress

end Tasks

section Runs

variable {toJson : List Condition → Text} {libraries : Libraries} {verifier : Verifier}
  {world : World} {progress next : Progress} {policy : ℤ} {set : Text} {holding : Holding}

/-- The version held is no older than one held before, and every rule of the set
is one there was then or was written from a version no older. -/
structure Progress.NotLowered (world : World) (policy : ℤ) (set : Text) (holding : Holding)
    (progress : Progress) : Prop where
  held : ∃ later, (progress.world.policies policy).held set = some later ∧
    holding.version ≤ later.version
  rules : ∀ number rule, (progress.world.policies policy).ofSet set number = some rule →
    (progress.origin policy number = none ∧ (world.policies policy).find number = some rule) ∨
      ∃ version, progress.origin policy number = some (set, version) ∧ holding.version ≤ version

theorem Progress.NotLowered.of_eq (hbefore : progress.NotLowered world policy set holding)
    (hpolicies : next.world.policies policy = progress.world.policies policy)
    (horigin : next.origin policy = progress.origin policy) :
    next.NotLowered world policy set holding where
  held := by
    rw [hpolicies]
    exact hbefore.held
  rules := by
    rw [hpolicies, horigin]
    exact hbefore.rules

/-- A rule is of one set. -/
theorem set_eq_of_isOf {other : Text} {rule : StoredRule} (hrule : rule.isOf set)
    (hother : rule.isOf other) : set = other := by
  simp only [StoredRule.isOf, Bool.and_eq_true, decide_eq_true_eq] at hrule hother
  rw [hrule.1] at hother
  exact Option.some.inj hother.1

/-- What applying an offer does to one policy. -/
theorem Progress.NotLowered.install {other : Text} {statements : ℕ} {offer : Offer}
    (hbefore : progress.NotLowered world policy set holding)
    (hoffer : progress.world.offer verifier other = .ok offer)
    (hnotOlder : ((verifier.fromToml offer.text).installable libraries).isOk →
      ∀ holding, (progress.world.policies policy).held other = some holding →
        holding.version ≤ offer.version) :
    (progress.apply toJson libraries verifier policy other statements).NotLowered world policy set
      holding := by
  have hpolicies : (progress.apply toJson libraries verifier policy other statements).world.policies
      policy = installPart toJson other libraries offer.version (verifier.fromToml offer.text)
        statements (progress.world.policies policy) := by
    simp only [Progress.apply, World.apply, hoffer]
    exact Function.update_self ..
  have horigin : (progress.apply toJson libraries verifier policy other statements).origin policy =
      fun number =>
        if number ∈ installedNumbers libraries (verifier.fromToml offer.text) statements then
          some (other, offer.version)
        else progress.origin policy number := by
    simp only [Progress.apply, hoffer]
    exact Function.update_self ..
  obtain ⟨later, hlater, hle⟩ := hbefore.held
  constructor
  · rw [hpolicies]
    have hcases := @held_installPart toJson other libraries offer.version
      (verifier.fromToml offer.text) statements (progress.world.policies policy)
    obtain hheld | ⟨hok, name, hheld⟩ := hcases
    · rw [hheld]
      exact ⟨later, hlater, hle⟩
    · rw [hheld]
      by_cases hset : set = other
      · subst hset
        refine ⟨_, Function.update_self .., ?_⟩
        exact hle.trans (hnotOlder hok later hlater)
      · rw [Function.update_of_ne hset]
        exact ⟨later, hlater, hle⟩
  · intro number rule hrule
    rw [hpolicies] at hrule
    rw [horigin]
    obtain ⟨hfind, hof⟩ := Option.filter_eq_some_iff.mp hrule
    obtain ⟨hwritten, hleft⟩ := find_installPart hfind
    by_cases hmem : number ∈ installedNumbers libraries (verifier.fromToml offer.text) statements
    · obtain rfl := set_eq_of_isOf hof (hwritten hmem)
      refine .inr ⟨offer.version, if_pos hmem, hle.trans (hnotOlder ?_ later hlater)⟩
      rw [installedNumbers] at hmem
      cases hfile : (verifier.fromToml offer.text).installable libraries with
      | ok file => rfl
      | error refusal =>
          rw [hfile] at hmem
          exact absurd hmem List.not_mem_nil
    · simp only [if_neg hmem]
      apply hbefore.rules number rule
      rw [PolicyRules.ofSet, hleft hmem, Option.filter_some, if_pos hof]

theorem Progress.NotLowered.apply {applied : ℤ} {other : Text} {statements : ℕ}
    (hbefore : progress.NotLowered world policy set holding)
    (hoffers : progress.OffersNotOlder libraries verifier (.apply applied other statements)) :
    (progress.apply toJson libraries verifier applied other statements).NotLowered world policy set
      holding := by
  cases hoffer : progress.world.offer verifier other with
  | error error =>
      apply hbefore.of_eq
      · rw [Progress.apply, World.apply, hoffer]
      · rw [Progress.apply]
        simp only [hoffer]
  | ok offer =>
      by_cases hpolicy : policy = applied
      · subst hpolicy
        exact hbefore.install hoffer (hoffers offer hoffer)
      · apply hbefore.of_eq
        · simp only [Progress.apply, World.apply, hoffer]
          exact Function.update_of_ne hpolicy _ _
        · simp only [Progress.apply, hoffer]
          exact Function.update_of_ne hpolicy _ _

theorem World.check_policies (world : World) : world.check.policies = world.policies := by
  rw [World.check]
  split
  · rfl
  · split
    · rfl
    · rfl

theorem Progress.NotLowered.step {event : Event}
    (hbefore : progress.NotLowered world policy set holding)
    (hoffers : progress.OffersNotOlder libraries verifier event)
    (hnext : progress.step toJson libraries verifier event = some next) :
    next.NotLowered world policy set holding := by
  cases event with
  | publish channel =>
      rw [← Option.some.inj hnext]
      exact hbefore.of_eq rfl rfl
  | sync mirror =>
      rw [← Option.some.inj hnext]
      exact hbefore.of_eq rfl rfl
  | check =>
      rw [← Option.some.inj hnext]
      exact hbefore.of_eq (congrFun progress.world.check_policies policy) rfl
  | look =>
      rw [← Option.some.inj hnext]
      exact hbefore.of_eq rfl rfl
  | automatic applied other statements =>
      rw [Progress.step] at hnext
      split at hnext
      · rw [← Option.some.inj hnext]
        have happly : progress.OffersNotOlder libraries verifier (.apply applied other statements) :=
          hoffers
        exact hbefore.apply happly
      · contradiction
  | apply applied other statements =>
      rw [← Option.some.inj hnext]
      exact hbefore.apply hoffers

/-- As long as no set is applied from an offer older than what is held, no update
lowers the version held, and no rule of the set is written from an older one. -/
theorem updates_never_lower (hheld : (world.policies policy).held set = some holding)
    (run : Machine.Run (Progress.step toJson libraries verifier)
      (Progress.OffersNotOlder libraries verifier) (Progress.ofWorld world) progress) :
    (∃ later, (progress.world.policies policy).held set = some later ∧
      holding.version ≤ later.version) ∧
    ∀ number rule, (progress.world.policies policy).ofSet set number = some rule →
      (progress.origin policy number = none ∧ (world.policies policy).find number = some rule) ∨
        ∃ version, progress.origin policy number = some (set, version) ∧
          holding.version ≤ version := by
  have hkept : progress.NotLowered world policy set holding := by
    apply run.invariant (Progress.NotLowered world policy set holding)
    · intro before event next hbefore hoffers hnext
      exact hbefore.step hoffers hnext
    · refine ⟨⟨holding, hheld, le_refl _⟩, ?_⟩
      intro number rule hrule
      exact .inl ⟨rfl, (Option.filter_eq_some_iff.mp hrule).1⟩
  exact ⟨hkept.held, hkept.rules⟩

end Runs

section Core

/-- A manifest with the core set in it. -/
def coreManifest (version : Text) : Text :=
  "[[sets]]\nid = core\nfile = core\nsha256 = 00\nversion = ".toList ++ version

/-- Everything verifies, and every set has rule 1. -/
def coreVerifier : Verifier where
  verifyDetached := fun _ _ => .ok []
  sha256Hex := fun _ => "00".toList
  fromToml := fun _ => queryRules [1]

/-- A channel or a mirror with the core set at a version. -/
def coreChannel (version : Text) (path : Text) : Option Bytes :=
  if path = "sets.toml".toList then some (coreManifest version).bytes else some []

def coreMirror (version : Text) : Mirror where
  manifest := some (coreManifest version).bytes
  signature := some []
  sets := fun _ => some []

/-- The core set held at version 3. -/
def coreThird : PolicyRules where
  rules := [coreRule 1 true]
  held := Function.update (fun _ => none) "core".toList
    (some { name := "core".toList, version := 3 })
  previous := fun _ => none
  numbers_nodup := by decide

/-- The policies hold version 3 and the channel has version 4. -/
def coreWorld (mirror : Mirror) : World where
  policies := fun _ => coreThird
  mirror := mirror
  channel := coreChannel ['4']
  cached := none
  waiting := fun _ _ => false

/-- Version 4 applied from a mirror that has it. -/
def coreApplied : Progress :=
  (Progress.ofWorld (coreWorld (coreMirror ['4']))).apply (fun _ => []) Libraries.plain coreVerifier 1
    "core".toList 9

theorem updates_never_lower_of_core :
    (∃ later, (coreApplied.world.policies 1).held "core".toList = some later ∧
      (3 : ℤ) ≤ later.version) ∧
    ∀ number rule, (coreApplied.world.policies 1).ofSet "core".toList number = some rule →
      (coreApplied.origin 1 number = none ∧ coreThird.find number = some rule) ∨
        ∃ version, coreApplied.origin 1 number = some ("core".toList, version) ∧
          (3 : ℤ) ≤ version := by
  have hstep : (Progress.ofWorld (coreWorld (coreMirror ['4']))).step (fun _ => []) Libraries.plain
      coreVerifier (.apply 1 "core".toList 9) = some coreApplied := rfl
  have hheld : coreThird.held "core".toList = some { name := "core".toList, version := 3 } := by
    decide
  apply @updates_never_lower (fun _ => []) Libraries.plain coreVerifier (coreWorld (coreMirror ['4']))
    coreApplied 1 "core".toList _ hheld (Machine.Run.single ?_ hstep)
  intro offer hoffer _ holding hholding
  have hversion : ((coreWorld (coreMirror ['4'])).offer coreVerifier "core".toList).toOption.map
      (·.version) = some 4 := by decide
  have hsame := congrArg (fun found => found.toOption.map (·.version)) hoffer
  have hfour : offer.version = 4 := Option.some.inj (hsame.symm.trans hversion)
  have hthree : some holding = some { name := "core".toList, version := 3 } := hholding.symm.trans hheld
  rw [hfour, Option.some.inj hthree]
  decide

/-- The channel offers version 4, the mirror has version 2 yet: the automatic task
finds an update and applies the older one. -/
theorem update_lowers :
    ¬ ∀ progress, Machine.Run (Progress.step (fun _ => []) Libraries.plain coreVerifier)
      Machine.anything (Progress.ofWorld (coreWorld (coreMirror ['2']))) progress →
        ∃ later, (progress.world.policies 1).held "core".toList = some later ∧
          3 ≤ later.version := by
  intro hall
  obtain ⟨progress, run, hgood⟩ := Machine.exists_run_of_exec
    (Progress.step (fun _ => []) Libraries.plain coreVerifier)
    (Progress.ofWorld (coreWorld (coreMirror ['2']))) (fun _ _ => true)
    [.check, .look, .automatic 1 "core".toList 9]
    (fun progress => ((progress.world.policies 1).held "core".toList).any (·.version < 3))
    (fun _ _ _ => trivial) (by decide)
  obtain ⟨later, hlater, hle⟩ := hall progress run
  rw [hlater, Option.any_some, decide_eq_true_eq] at hgood
  omega

end Core

end EasyWaf.RuleSets
