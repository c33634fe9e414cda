import EasyWaf.Channels.Mirror

/-!
# A mirror is one whole bundle

An install that runs by itself leaves the mirror as it was, or puts a whole bundle in
its place; between its two renames the mirror is away.
-/

namespace EasyWaf.Channels

open EasyWaf.Core EasyWaf.Core.Program

section Promise

variable (verifies : Bytes → Text → Bool) (sha256Hex : Bytes → Text) (channel : Channel)

/-- A directory holds exactly the files of a bundle that verifies. -/
def Dir.IsBundle (dir : Dir) : Prop :=
  ∃ bundle : Bundle, bundle.Verified verifies sha256Hex channel ∧
    ∀ entry, dir.get entry = bundle.contents channel entry

/-- Once an install has worked, the mirror is what the last of them put there, a whole
signed bundle. -/
def Mirror.Whole (mirror : Mirror) : Prop :=
  ∀ dir, mirror.last = some dir →
    mirror.dirs .mirror = some dir ∧ dir.IsBundle verifies sha256Hex channel

/-- The mirror is away, though one was installed. -/
def Mirror.Away (mirror : Mirror) : Prop :=
  mirror.last.isSome = true ∧ mirror.dirs .mirror = none

/-- What may happen: a stage is made where none is left, a mirror that was moved away can
be moved back, and a seeding finds the files of a mirror that was installed. -/
def Permits (mirror : Mirror) : Op → Choice → Prop
  | .createDir .stage, _ => mirror.dirs .stage = none
  | .rename .old .mirror, choice =>
      choice = .works ∨ (mirror.dirs .mirror).isSome = true ∨ mirror.last = none
  | .readSets, choice => mirror.last = none ∨ (choice = .works ∧ mirror.hasFiles = true)
  | _, _ => True

/-- At every moment: the mirror is whole, or away for a swap. -/
def Mirror.Standing (mirror : Mirror) : Prop :=
  mirror.Whole verifies sha256Hex channel ∨ mirror.Away

abbrev Stands (task : Task Bool) (mirror : Mirror) : Prop :=
  Keeps effect Permits (Mirror.Standing verifies sha256Hex channel)
    (fun _ after => after.Whole verifies sha256Hex channel) task mirror

end Promise

section Operations

variable {mirror after : Mirror} {area source dest : Area} {entry : Entry} {body : Bytes}
variable {choice : Choice} {dir : Dir}

@[simp]
theorem dirs_set (mirror : Mirror) (area : Area) (dir : Option Dir) :
    (mirror.set area dir).dirs = Function.update mirror.dirs area dir := rfl

@[simp]
theorem last_set (mirror : Mirror) (area : Area) (dir : Option Dir) :
    (mirror.set area dir).last = mirror.last := rfl

theorem set_self (mirror : Mirror) (area : Area) : mirror.set area (mirror.dirs area) = mirror := by
  simp [Mirror.set]

theorem effect_removeDir {answer : Unit}
    (heffect : effect (.removeDir area) choice mirror = some (answer, after)) :
    ∃ left, after = mirror.set area left := by
  cases choice <;> simp only [effect, Option.some.injEq, Prod.mk.injEq, reduceCtorEq] at heffect
  · exact ⟨none, heffect.2.symm⟩
  · exact ⟨_, heffect.2.symm⟩

theorem effect_createDir {answer : Bool}
    (heffect : effect (.createDir area) choice mirror = some (answer, after)) :
    ∃ made, after = mirror.set area made ∧
      (answer = true → mirror.dirs area = none → made = some Dir.empty) := by
  cases choice <;> simp only [effect, Option.some.injEq, Prod.mk.injEq, reduceCtorEq] at heffect
  · obtain ⟨rfl, rfl⟩ := heffect
    refine ⟨_, rfl, fun _ hnone => ?_⟩
    rw [hnone]
    rfl
  · obtain ⟨rfl, rfl⟩ := heffect
    exact ⟨_, (set_self mirror area).symm, nofun⟩
  · obtain ⟨rfl, rfl⟩ := heffect
    exact ⟨_, rfl, nofun⟩

theorem effect_write {answer : Bool} (hdir : mirror.dirs area = some dir)
    (heffect : effect (.write area entry body) choice mirror = some (answer, after)) :
    ∃ written, after = mirror.set area (some written) ∧
      (answer = true → written = dir.put entry body) := by
  cases choice <;> simp only [effect, Mirror.put, hdir, Option.map_some, Option.some.injEq,
    Prod.mk.injEq, reduceCtorEq] at heffect
  · obtain ⟨rfl, rfl⟩ := heffect
    exact ⟨_, rfl, fun _ => rfl⟩
  · obtain ⟨rfl, rfl⟩ := heffect
    exact ⟨dir, by rw [← hdir, set_self], nofun⟩
  · obtain ⟨rfl, rfl⟩ := heffect
    exact ⟨_, rfl, nofun⟩

theorem effect_exists {answer : Bool}
    (heffect : effect (.exists area) choice mirror = some (answer, after)) :
    after = mirror ∧ (answer = true → (mirror.dirs area).isSome = true) := by
  cases choice <;> simp only [effect, Option.some.injEq, Prod.mk.injEq, reduceCtorEq] at heffect
  · obtain ⟨rfl, rfl⟩ := heffect
    exact ⟨rfl, id⟩
  · obtain ⟨rfl, rfl⟩ := heffect
    exact ⟨rfl, nofun⟩

theorem effect_rename {answer : Bool}
    (heffect : effect (.rename source dest) choice mirror = some (answer, after)) :
    (answer = true ∧ mirror.rename source dest = some after) ∨
      (answer = false ∧ after = mirror ∧ choice = .fails) := by
  cases choice <;> simp only [effect, Option.some.injEq, Prod.mk.injEq, reduceCtorEq,
    Option.map_eq_some_iff] at heffect
  · obtain ⟨moved, hmoved, rfl, rfl⟩ := heffect
    exact .inl ⟨rfl, hmoved⟩
  · exact .inr ⟨heffect.1.symm, heffect.2.symm, rfl⟩

/-- What a rename moves, and where to. -/
theorem rename_eq_some (hrename : mirror.rename source dest = some after) :
    ∃ dir, mirror.dirs source = some dir ∧ mirror.free dest = true ∧
      after.dirs = Function.update (Function.update mirror.dirs dest (some dir)) source none ∧
      after.last = if source = .stage ∧ dest = .mirror then some dir else mirror.last := by
  rw [Mirror.rename] at hrename
  split at hrename
  · next dir hdir =>
      split at hrename
      · next hfree =>
          refine ⟨dir, hdir, hfree, ?_, ?_⟩ <;> rw [← Option.some.inj hrename] <;> split <;> rfl
      · contradiction
  · contradiction

end Operations

section Install

variable {verifies : Bytes → Text → Bool} {sha256Hex : Bytes → Text} {channel : Channel}
variable {mirror after : Mirror} {bundle : Bundle} {dir : Dir}

/-- Neither the mirror nor what is known of it has changed. -/
def Mirror.Same (mirror after : Mirror) : Prop :=
  after.dirs .mirror = mirror.dirs .mirror ∧ after.last = mirror.last

theorem Mirror.Same.refl (mirror : Mirror) : mirror.Same mirror := ⟨rfl, rfl⟩

theorem Mirror.Same.trans {next : Mirror} (hsame : mirror.Same after) (hnext : after.Same next) :
    mirror.Same next :=
  ⟨hnext.1.trans hsame.1, hnext.2.trans hsame.2⟩

theorem same_set {area : Area} (mirror : Mirror) (dir : Option Dir) (harea : area ≠ .mirror) :
    mirror.Same (mirror.set area dir) :=
  ⟨Function.update_of_ne harea.symm _ _, rfl⟩

theorem Mirror.Whole.same (hwhole : mirror.Whole verifies sha256Hex channel)
    (hsame : mirror.Same after) : after.Whole verifies sha256Hex channel := by
  intro dir hlast
  obtain ⟨hdir, hbundle⟩ := hwhole dir (hsame.2 ▸ hlast)
  exact ⟨hsame.1.trans hdir, hbundle⟩

theorem whole_of_last_eq_none (hlast : mirror.last = none) :
    mirror.Whole verifies sha256Hex channel := by
  intro dir hdir
  rw [hlast] at hdir
  contradiction

/-- What a list of files leaves staged. -/
def Staged (bundle : Bundle) (before : Dir) (names : List Text) (after : Dir) : Prop :=
  ∀ entry, after.get entry =
    match entry with
    | .file name => if name ∈ names then bundle.files name else before.get (.file name)
    | other => before.get other

/-- The files named by a list, where each of them is as it is described. -/
def Described (sha256Hex : Bytes → Text) (bundle : Bundle) (entries : List (Option Listed)) : Prop :=
  ∀ entry ∈ entries, ∃ held, entry = some held ∧
    ∃ body, bundle.files held.name = some body ∧ sha256Hex body = held.sha256

/-- The names of a list of files. -/
def namesOf (entries : List (Option Listed)) : List Text :=
  entries.filterMap fun entry => entry.map (·.name)

theorem Staged.cons {name : Text} {names : List Text} {body : Bytes} {left : Dir}
    (hstaged : Staged bundle (dir.put (.file name) body) names left)
    (hbody : bundle.files name = some body) : Staged bundle dir (name :: names) left := by
  intro entry
  rw [hstaged entry]
  rcases entry with (other | _ | _)
  · by_cases hmem : other ∈ names
    · simp [hmem]
    · by_cases hother : other = name
      · subst hother
        simp [hmem, hbody]
      · have hne : Entry.file other ≠ Entry.file name := fun heq => hother (Entry.file.inj heq)
        simp [hmem, hother, dir.get_put_of_ne body hne]
  · exact dir.get_put_of_ne body nofun
  · exact dir.get_put_of_ne body nofun

/-- The files are staged one after another, and nothing else changes. -/
theorem keeps_stageFiles (hwhole : mirror.Whole verifies sha256Hex channel)
    (hdir : mirror.dirs .stage = some dir) (entries : List (Option Listed)) :
    Keeps effect Permits (Mirror.Standing verifies sha256Hex channel)
      (fun staged after => mirror.Same after ∧ (staged = true →
        Described sha256Hex bundle entries ∧ ∃ left, after.dirs .stage = some left ∧
          Staged bundle dir (namesOf entries) left))
      (stageFiles sha256Hex bundle entries) mirror := by
  induction entries generalizing mirror dir with
  | nil =>
      refine ⟨Mirror.Same.refl mirror, fun _ => ⟨nofun, dir, hdir, ?_⟩⟩
      rintro (name | _ | _) <;> simp [namesOf]
  | cons entry rest ih =>
      cases entry with
      | none => exact ⟨Mirror.Same.refl mirror, nofun⟩
      | some entry =>
          rw [stageFiles]
          split
          · next body hbody =>
              split
              · next hdigest =>
                  intro choice answer next _ heffect
                  obtain ⟨written, rfl, hwritten⟩ := effect_write hdir heffect
                  have hsame := same_set mirror (some written) (by decide : Area.stage ≠ .mirror)
                  refine ⟨.inl (hwhole.same hsame), ?_⟩
                  cases answer with
                  | false => exact ⟨hsame, nofun⟩
                  | true =>
                      have hstage : (mirror.set .stage (some written)).dirs .stage =
                          some written := by simp
                      refine (ih (hwhole.same hsame) hstage).mono ?_
                      rintro staged after ⟨hafter, hstaged⟩
                      refine ⟨hsame.trans hafter, fun hdone => ?_⟩
                      obtain ⟨hdescribed, left, hleft, hfiles⟩ := hstaged hdone
                      refine ⟨?_, left, hleft, ?_⟩
                      · rintro other (_ | ⟨_, hother⟩)
                        · exact ⟨entry, rfl, body, hbody, hdigest⟩
                        · exact hdescribed other hother
                      · rw [hwritten rfl] at hfiles
                        exact hfiles.cons hbody
              · exact ⟨Mirror.Same.refl mirror, nofun⟩
          · exact ⟨Mirror.Same.refl mirror, nofun⟩

/-- A bundle that is staged whole. -/
def StagedBundle (verifies : Bytes → Text → Bool) (sha256Hex : Bytes → Text) (channel : Channel)
    (mirror : Mirror) : Prop :=
  ∃ dir, mirror.dirs .stage = some dir ∧ dir.IsBundle verifies sha256Hex channel

/-- What is staged of a bundle that is signed, once all of it is, is that bundle. -/
theorem keeps_stageBundle {manifest : Text} (hwhole : mirror.Whole verifies sha256Hex channel)
    (hdir : mirror.dirs .stage = some Dir.empty)
    (hsigned : verifies bundle.manifest bundle.signature = true)
    (hmanifest : Text.fromUtf8 bundle.manifest = some manifest)
    (hoffers : offers channel manifest = true) :
    Keeps effect Permits (Mirror.Standing verifies sha256Hex channel)
      (fun staged after => mirror.Same after ∧
        (staged = true → StagedBundle verifies sha256Hex channel after))
      (stageBundle sha256Hex channel bundle manifest) mirror := by
  apply (keeps_stageFiles hwhole hdir _).bind
  rintro (_ | _) files ⟨hsame, hstaged⟩
  · exact ⟨hsame, nofun⟩
  obtain ⟨hdescribed, left, hleft, hfiles⟩ := hstaged rfl
  intro choice answer withManifest _ heffect
  obtain ⟨first, rfl, hfirst⟩ := effect_write hleft heffect
  have hsame' := hsame.trans (same_set files (some first) (by decide : Area.stage ≠ .mirror))
  refine ⟨.inl (hwhole.same hsame'), ?_⟩
  cases answer with
  | false => exact ⟨hsame', nofun⟩
  | true =>
      have hstage : (files.set .stage (some first)).dirs .stage = some first := by simp
      intro choice answer withSignature _ heffect
      obtain ⟨second, rfl, hsecond⟩ := effect_write hstage heffect
      have hsame'' := hsame'.trans (same_set _ (some second) (by decide : Area.stage ≠ .mirror))
      refine ⟨.inl (hwhole.same hsame''), hsame'', fun hdone => ?_⟩
      refine ⟨second, by simp, bundle, ⟨hsigned, manifest, hmanifest, hoffers, hdescribed⟩, ?_⟩
      rw [hsecond hdone, hfirst rfl]
      have hnames : bundle.names channel = namesOf (listed channel manifest) := by
        rw [Bundle.names, hmanifest]
        rfl
      rintro (name | _ | _)
      · have hmanifest : Entry.file name ≠ .manifest := nofun
        have hsignature : Entry.file name ≠ .signature := nofun
        rw [Dir.get_put_of_ne _ _ hsignature, Dir.get_put_of_ne _ _ hmanifest, hfiles]
        simp only [Bundle.contents, hnames]
        rfl
      · have hsignature : Entry.manifest ≠ .signature := nofun
        rw [Dir.get_put_of_ne _ _ hsignature, Dir.get_put_self]
        rfl
      · rw [Dir.get_put_self]
        rfl

/-- A mirror that is whole is no place for another directory. -/
theorem Mirror.Whole.not_free (hwhole : mirror.Whole verifies sha256Hex channel)
    (hlast : mirror.last.isSome = true) : mirror.free .mirror = false := by
  obtain ⟨dir, hdir⟩ := Option.isSome_iff_exists.mp hlast
  obtain ⟨hmirror, bundle, -, hcontents⟩ := hwhole dir hdir
  rw [Mirror.free, hmirror]
  exact Dir.isEmpty_of_get (hcontents .manifest)

theorem stands_finishSwap (hstanding : mirror.Standing verifies sha256Hex channel)
    (hstaged : StagedBundle verifies sha256Hex channel mirror)
    (hback : mirror.Away → mirror.dirs .old = mirror.last ∧
      ∀ dir, mirror.last = some dir → dir.IsBundle verifies sha256Hex channel) :
    Stands verifies sha256Hex channel finishSwap mirror := by
  intro choice answer swapped _ heffect
  rcases effect_rename heffect with ⟨rfl, hrename⟩ | ⟨rfl, rfl, rfl⟩
  · obtain ⟨dir, hdir, -, hdirs, hlast⟩ := rename_eq_some hrename
    have hwhole : swapped.Whole verifies sha256Hex channel := by
      intro held hheld
      obtain rfl : dir = held := by simpa [hlast] using hheld
      obtain ⟨staged, hstage, hbundle⟩ := hstaged
      obtain rfl := Option.some.inj (hdir.symm.trans hstage)
      refine ⟨?_, hbundle⟩
      simp [hdirs]
    refine ⟨.inl hwhole, ?_⟩
    intro choice answer cleared _ heffect
    obtain ⟨left, rfl⟩ := effect_removeDir heffect
    have hafter := hwhole.same (same_set swapped left (by decide : Area.old ≠ .mirror))
    exact ⟨.inl hafter, hafter⟩
  · refine ⟨hstanding, ?_⟩
    intro choice answer back hpermits heffect
    have hwhole : back.Whole verifies sha256Hex channel := by
      rcases effect_rename heffect with ⟨rfl, hrename⟩ | ⟨rfl, rfl, rfl⟩
      · obtain ⟨dir, hdir, hfree, hdirs, hlast⟩ := rename_eq_some hrename
        intro held hheld
        have hheld : swapped.last = some held := by simpa [hlast] using hheld
        rcases hstanding with hbefore | haway
        · have hnot := hbefore.not_free (by simp [hheld])
          rw [hfree] at hnot
          contradiction
        · obtain ⟨hold, hbundle⟩ := hback haway
          refine ⟨?_, hbundle held hheld⟩
          rw [hdirs, Function.update_of_ne (by decide), Function.update_self, ← hdir, hold, hheld]
      · rcases hstanding with hbefore | haway
        · exact hbefore
        · rcases hpermits with hworks | hthere | hnone
          · contradiction
          · rw [haway.2] at hthere
            contradiction
          · exact whole_of_last_eq_none hnone
    exact ⟨.inl hwhole, hwhole⟩

/-- A swap by itself. -/
theorem stands_swap (hwhole : mirror.Whole verifies sha256Hex channel)
    (hstaged : StagedBundle verifies sha256Hex channel mirror) :
    Stands verifies sha256Hex channel swap mirror := by
  have hfinish {before : Mirror} (hbefore : before.Whole verifies sha256Hex channel)
      (hstage : StagedBundle verifies sha256Hex channel before) :
      Stands verifies sha256Hex channel finishSwap before := by
    apply stands_finishSwap (.inl hbefore) hstage
    rintro ⟨hsome, hnone⟩
    obtain ⟨dir, hdir⟩ := Option.isSome_iff_exists.mp hsome
    rw [(hbefore dir hdir).1] at hnone
    contradiction
  intro choice answer cleared _ heffect
  obtain ⟨left, rfl⟩ := effect_removeDir heffect
  have hcleared := hwhole.same (same_set mirror left (by decide : Area.old ≠ .mirror))
  obtain ⟨staged, hstage, hbundle⟩ := hstaged
  have hstage : (mirror.set .old left).dirs .stage = some staged := by
    simpa [Function.update_of_ne] using hstage
  refine ⟨.inl hcleared, ?_⟩
  intro choice there seen _ heffect
  obtain ⟨rfl, -⟩ := effect_exists heffect
  refine ⟨.inl hcleared, ?_⟩
  cases there with
  | false => exact hfinish hcleared ⟨staged, hstage, hbundle⟩
  | true =>
      intro choice moved away _ heffect
      rcases effect_rename heffect with ⟨rfl, hrename⟩ | ⟨rfl, rfl, rfl⟩
      · obtain ⟨dir, hdir, -, hdirs, hlast⟩ := rename_eq_some hrename
        have hlast : away.last = (mirror.set .old left).last := by simpa using hlast
        have hgone : away.dirs .mirror = none := by simp [hdirs]
        have hstanding : away.Standing verifies sha256Hex channel := by
          cases hnone : away.last with
          | none => exact .inl (whole_of_last_eq_none hnone)
          | some held => exact .inr ⟨by simp [hnone], hgone⟩
        refine ⟨hstanding, ?_⟩
        apply stands_finishSwap hstanding
        · refine ⟨staged, ?_, hbundle⟩
          rw [hdirs, Function.update_of_ne (by decide), Function.update_of_ne (by decide), hstage]
        · rintro ⟨hsome, -⟩
          obtain ⟨held, hheld⟩ := Option.isSome_iff_exists.mp hsome
          obtain ⟨hthere, hheldBundle⟩ := hcleared held (hlast ▸ hheld)
          have heq : dir = held := Option.some.inj (hdir.symm.trans hthere)
          constructor
          · rw [hdirs, Function.update_of_ne (by decide), Function.update_self, heq, hheld]
          · intro other hother
            rw [hheld] at hother
            exact Option.some.inj hother ▸ hheldBundle
      · exact ⟨.inl hcleared, hcleared⟩

/-- An install by itself. -/
theorem stands_installBundle (hwhole : mirror.Whole verifies sha256Hex channel) :
    Stands verifies sha256Hex channel (installBundle verifies sha256Hex channel bundle) mirror := by
  rw [installBundle]
  split
  · next hsigned =>
      split
      · next manifest hmanifest =>
          split
          · next hoffers =>
              intro choice answer cleared _ heffect
              obtain ⟨left, rfl⟩ := effect_removeDir heffect
              have hcleared := hwhole.same (same_set mirror left (by decide : Area.stage ≠ .mirror))
              refine ⟨.inl hcleared, ?_⟩
              intro choice created made hpermits heffect
              obtain ⟨dir, rfl, hmade⟩ := effect_createDir heffect
              have hready := hcleared.same (same_set _ dir (by decide : Area.stage ≠ .mirror))
              refine ⟨.inl hready, ?_⟩
              cases created with
              | false => exact hready
              | true =>
                  have hstage : ((mirror.set .stage left).set .stage dir).dirs .stage =
                      some Dir.empty := by
                    rw [dirs_set, Function.update_self, hmade rfl hpermits]
                  apply (keeps_stageBundle hready hstage hsigned hmanifest hoffers).bind
                  rintro (_ | _) staged ⟨hsame, hstaged⟩
                  · intro choice answer undone _ heffect
                    obtain ⟨left, rfl⟩ := effect_removeDir heffect
                    have hundone := (hready.same hsame).same
                      (same_set staged left (by decide : Area.stage ≠ .mirror))
                    exact ⟨.inl hundone, hundone⟩
                  · exact stands_swap (hready.same hsame) (hstaged rfl)
          · exact hwhole
      · exact hwhole
  · exact hwhole

/-- Where nothing was installed, nothing but an install can break a promise. -/
theorem stands_copyEach (files : List (Entry × Bytes)) (hlast : mirror.last = none) :
    Stands verifies sha256Hex channel (copyEach files) mirror := by
  induction files generalizing mirror with
  | nil => exact whole_of_last_eq_none hlast
  | cons file rest ih =>
      intro choice answer copied _ heffect
      have hcopied : copied.last = none := by
        cases hdir : mirror.dirs .mirror with
        | some dir =>
            obtain ⟨written, rfl, -⟩ := effect_write hdir heffect
            exact hlast
        | none =>
            cases choice <;> simp [effect, Mirror.put, hdir] at heffect
            exact heffect.2 ▸ hlast
      exact ⟨.inl (whole_of_last_eq_none hcopied), ih hcopied⟩

/-- A seeding by itself: of a mirror that was installed it takes nothing. -/
theorem stands_seedCacheFromBundle (hwhole : mirror.Whole verifies sha256Hex channel) :
    Stands verifies sha256Hex channel seedCacheFromBundle mirror := by
  intro choice already seen hpermits heffect
  rcases hpermits with hlast | ⟨rfl, hfiles⟩
  · have hseen : seen = mirror := by
      cases choice <;> simp [effect] at heffect <;> simp_all
    subst hseen
    refine ⟨.inl hwhole, ?_⟩
    cases already with
    | true => exact hwhole
    | false =>
        intro choice packaged opened _ heffect
        have hopened : opened = seen := by
          cases choice <;> simp [effect] at heffect <;> simp_all
        subst hopened
        refine ⟨.inl hwhole, ?_⟩
        cases packaged with
        | none => exact hwhole
        | some files =>
            intro choice created made _ heffect
            obtain ⟨dir, rfl, -⟩ := effect_createDir heffect
            refine ⟨.inl (whole_of_last_eq_none hlast), ?_⟩
            cases created with
            | false => exact whole_of_last_eq_none hlast
            | true => exact stands_copyEach files hlast
  · simp only [effect, Option.some.injEq, Prod.mk.injEq] at heffect
    obtain ⟨rfl, rfl⟩ := heffect
    refine ⟨.inl hwhole, ?_⟩
    rw [hfiles]
    exact hwhole

/-- A program that reads the mirror and writes nothing. -/
def Reads : Task Bool → Prop
  | .done _ => True
  | .call op next => (∃ entry, op = .read entry) ∧ ∀ answer, Reads (next answer)

theorem reads_readFiles (entries : List (Option Listed)) : Reads (readFiles entries) := by
  induction entries with
  | nil => trivial
  | cons entry rest ih =>
      cases entry with
      | none => exact ih
      | some entry => exact ⟨⟨_, rfl⟩, fun _ => ih⟩

theorem reads_readMirror : Reads (readMirror verifies channel) := by
  refine ⟨⟨_, rfl⟩, ?_⟩
  rintro (_ | manifest)
  · trivial
  refine ⟨⟨_, rfl⟩, ?_⟩
  rintro (_ | signature)
  · trivial
  dsimp only [Program.bind]
  split
  · split
    · exact reads_readFiles _
    · trivial
  · trivial

/-- A program that only reads puts nothing right: it promises a whole mirror where there
is one. -/
theorem Reads.whole {task : Task Bool} (hreads : Reads task)
    (hstands : Stands verifies sha256Hex channel task mirror) :
    mirror.Whole verifies sha256Hex channel := by
  induction task with
  | done _ => exact hstands
  | call op next ih =>
      obtain ⟨⟨entry, rfl⟩, hnext⟩ := hreads
      have hfails := hstands .fails none mirror trivial rfl
      exact ih none (hnext none) hfails.2

end Install

end EasyWaf.Channels
