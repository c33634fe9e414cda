import EasyWaf.Geo.Updates

/-!
# Where the database in force comes from

A database that is reported as the channel's is one whose signature was verified, where
what is put back was the channel's too whenever the note says so, and a note that has to
change does.
-/

namespace EasyWaf.Geo

open EasyWaf.Core EasyWaf.Core.Program EasyWaf.Machine Channels

/-- The note beside the stored database says it came from the channel. -/
def Store.NotedChannel (store : Store) : Prop :=
  store.note.map Text.trim = some "channel".toList

/-- The note is that of another database than the one that is stored. -/
def Store.Torn (store : Store) : Prop :=
  store.NotedChannel ∧ ∃ copy, store.stored = some copy ∧ copy.version = none

/-- A note that has to change does, and what is put back was the channel's where the note
says so. -/
def KeepsNote (store : Store) : Op → Choice → Prop
  | .writeNote _, .fails => ¬ store.Torn
  | .readPrevious, _ => store.NotedChannel → ∀ copy, store.previous = some copy →
      copy.version.isSome = true
  | _, _ => True

/-- Operations that leave the databases and the note as they are. -/
def Op.Passes : Op → Prop
  | .stage _ | .keepPrevious | .putInPlace | .writeNote _ | .publish _ _ | .removePrevious => False
  | _ => True

section Provenance

variable (verifies : Bytes → Text → Bool) (sha256Hex : Bytes → Text)

/-- Bytes that a signed manifest describes, as the version it gives. -/
def Verified (version : Text) (bytes : Bytes) : Prop :=
  ∃ manifest signature offered,
    Signed verifies sha256Hex manifest signature offered bytes ∧ offered.version = version

/-- A copy that came from the channel was verified. -/
def Copy.Honest (copy : Copy) : Prop :=
  ∀ version, copy.origin = .channel version → Verified verifies sha256Hex version copy.bytes

/-- Every copy is what it is said to be. -/
structure Store.Honest (store : Store) : Prop where
  stored : ∀ copy, store.stored = some copy → copy.Honest verifies sha256Hex
  previous : ∀ copy, store.previous = some copy → copy.Honest verifies sha256Hex
  staging : ∀ copy, store.staging = some copy → copy.Honest verifies sha256Hex
  reader : ∀ copy, store.reader = some copy → copy.Honest verifies sha256Hex

/-- A database that is reported as the channel's is the channel's. -/
def Store.Reported (store : Store) : Prop :=
  store.source = .channel → ∃ copy, store.reader = some copy ∧ copy.version.isSome = true

/-- What holds at every moment. -/
structure Store.Sound (store : Store) : Prop where
  honest : store.Honest verifies sha256Hex
  reported : store.Reported

/-- What holds between two requests. -/
structure Store.Good (store : Store) : Prop extends store.Sound verifies sha256Hex where
  whole : ¬ store.Torn

variable (isDatabase : Bytes → Bool)

abbrev Keeping {Result : Type} (Post : Result → Store → Prop) (task : Task Result)
    (store : Store) : Prop :=
  Steps (effect isDatabase) KeepsNote (fun _ after => after.Sound verifies sha256Hex) Post task store

end Provenance

section Operations

variable {verifies : Bytes → Text → Bool} {sha256Hex : Bytes → Text}
variable {isDatabase : Bytes → Bool} {embedded : Option Bytes}
variable {Result : Type} {Post : Result → Store → Prop}
variable {store after : Store} {op : Op} {choice : Choice} {answer : Answer op} {copy : Copy}

/-- The databases and the note of two stores are the same. -/
structure Store.Same (store after : Store) : Prop where
  stored : after.stored = store.stored
  previous : after.previous = store.previous
  staging : after.staging = store.staging
  note : after.note = store.note
  reader : after.reader = store.reader
  source : after.source = store.source

theorem effect_passes (hop : op.Passes)
    (heffect : effect isDatabase op choice store = some (answer, after)) : store.Same after := by
  cases op
  case stage | keepPrevious | putInPlace | writeNote | publish | removePrevious => exact hop.elim
  case openConfigured =>
    cases choice <;> simp only [effect, Option.some.injEq, Prod.mk.injEq, reduceCtorEq,
      Option.ite_none_right_eq_some] at heffect
    · obtain ⟨-, rfl⟩ := heffect
      exact ⟨rfl, rfl, rfl, rfl, rfl, rfl⟩
    · obtain ⟨-, -, rfl⟩ := heffect
      exact ⟨rfl, rfl, rfl, rfl, rfl, rfl⟩
  all_goals
    cases choice <;> simp only [effect, Option.some.injEq, Prod.mk.injEq, reduceCtorEq] at heffect
  all_goals
    obtain ⟨-, rfl⟩ := heffect
    exact ⟨rfl, rfl, rfl, rfl, rfl, rfl⟩

theorem Store.Same.good (hsame : store.Same after) (hgood : store.Good verifies sha256Hex) :
    after.Good verifies sha256Hex := by
  refine ⟨⟨⟨?_, ?_, ?_, ?_⟩, ?_⟩, ?_⟩
  · rw [hsame.stored]
    exact hgood.honest.stored
  · rw [hsame.previous]
    exact hgood.honest.previous
  · rw [hsame.staging]
    exact hgood.honest.staging
  · rw [hsame.reader]
    exact hgood.honest.reader
  · rw [Store.Reported, hsame.source, hsame.reader]
    exact hgood.reported
  · rw [Store.Torn, Store.NotedChannel, hsame.note, hsame.stored]
    exact hgood.whole

theorem Store.Same.trans {last : Store} (hsame : store.Same after) (hlast : after.Same last) :
    store.Same last where
  stored := hlast.stored.trans hsame.stored
  previous := hlast.previous.trans hsame.previous
  staging := hlast.staging.trans hsame.staging
  note := hlast.note.trans hsame.note
  reader := hlast.reader.trans hsame.reader
  source := hlast.source.trans hsame.source

/-- A staged copy is put in place, or stays where it is. -/
theorem putInPlace_cases {inPlace : Bool} (hstaging : store.staging = some copy)
    (heffect : effect isDatabase .putInPlace choice store = some (inPlace, after)) :
    (inPlace = true ∧ after =
        { store with
          stored := some copy, staging := none, placed := copy.version.getD store.placed }) ∨
      (inPlace = false ∧ after = store) := by
  cases choice <;> simp only [effect, Option.some.injEq, Prod.mk.injEq, reduceCtorEq,
    Store.putInPlace, hstaging, Option.map_some] at heffect
  · exact .inl ⟨heffect.1.symm, heffect.2.symm⟩
  · exact .inr ⟨heffect.1.symm, heffect.2.symm⟩

/-- The stored copy is kept, or stays where it is. -/
theorem keepPrevious_cases {kept : Bool}
    (heffect : effect isDatabase .keepPrevious choice store = some (kept, after)) :
    (∃ copy, store.stored = some copy ∧
        after = { store with stored := none, previous := some copy }) ∨ after = store := by
  cases choice <;> simp only [effect, Option.some.injEq, Prod.mk.injEq, reduceCtorEq,
    Store.keepPrevious, Option.map_map, Option.map_eq_some_iff, Function.comp_apply] at heffect
  · obtain ⟨copy, hcopy, -, rfl⟩ := heffect
    exact .inl ⟨copy, hcopy, rfl⟩
  · exact .inr heffect.2.symm

/-- A copy is staged whole, or something else is, or nothing. -/
theorem stage_cases {staged : Bool}
    (heffect : effect isDatabase (.stage copy) choice store = some (staged, after)) :
    ∃ held, after = { store with staging := held } ∧ (staged = true → held = some copy) ∧
      ∀ other, held = some other → other = copy ∨ store.staging = some other ∨
        other.origin = .cut := by
  cases choice <;> simp only [effect, Option.some.injEq, Prod.mk.injEq, reduceCtorEq] at heffect
  · obtain ⟨rfl, rfl⟩ := heffect
    exact ⟨_, rfl, fun _ => rfl, fun other hother => .inl (Option.some.inj hother).symm⟩
  · obtain ⟨rfl, rfl⟩ := heffect
    exact ⟨_, rfl, nofun, fun other hother => .inr (.inl hother)⟩
  · obtain ⟨rfl, rfl⟩ := heffect
    exact ⟨_, rfl, nofun, fun other hother => .inr (.inr (Option.some.inj hother ▸ rfl))⟩

theorem openStored_eq_some
    (heffect : effect isDatabase .openStored choice store = some (some copy, after)) :
    store.stored = some copy := by
  cases choice <;> simp only [effect, Option.some.injEq, Prod.mk.injEq, reduceCtorEq, false_and]
    at heffect
  exact (Option.filter_eq_some_iff.mp heffect.1).1

theorem readNote_eq_some {text : Text}
    (heffect : effect isDatabase .readNote choice store = some (some text, after)) :
    store.note = some text := by
  cases choice <;> simp only [effect, Option.some.injEq, Prod.mk.injEq, reduceCtorEq, false_and]
    at heffect
  exact heffect.1

theorem readHeld_cases {file : HeldFile} {body : Option Bytes}
    (heffect : effect isDatabase (.readHeld file) choice store = some (body, after)) :
    after = store ∧ ∀ bytes, body = some bytes → store.held file = some bytes := by
  cases choice <;> simp only [effect, Option.some.injEq, Prod.mk.injEq, reduceCtorEq] at heffect
  · obtain ⟨rfl, rfl⟩ := heffect
    exact ⟨rfl, fun _ => id⟩
  · obtain ⟨rfl, rfl⟩ := heffect
    exact ⟨rfl, nofun⟩

theorem readPrevious_eq_some
    (heffect : effect isDatabase .readPrevious choice store = some (some copy, after)) :
    store.previous = some copy := by
  cases choice <;> simp only [effect, Option.some.injEq, Prod.mk.injEq, reduceCtorEq, false_and]
    at heffect
  exact heffect.1

/-- An operation that leaves the databases as they are, and what follows it. -/
theorem keeping_passes (op : Op) {next : Answer op → Task Result} (hop : op.Passes)
    (hgood : store.Good verifies sha256Hex)
    (hnext : ∀ choice answer after, KeepsNote store op choice →
      effect isDatabase op choice store = some (answer, after) → store.Same after →
      after.Good verifies sha256Hex → Keeping verifies sha256Hex isDatabase Post (next answer) after) :
    Keeping verifies sha256Hex isDatabase Post (perform op >>= next) store := by
  intro choice answer after hpermits heffect
  have hsame := effect_passes hop heffect
  have hafter := hsame.good hgood
  exact ⟨hafter.toSound, hnext choice answer after hpermits heffect hsame hafter⟩

/-- A program that goes on to keep the store good, whatever its next operation answers. -/
theorem keeping_asks (op : Op) {next : Answer op → Task Result} (hop : op.Passes)
    (hgood : store.Good verifies sha256Hex)
    (hnext : ∀ answer after, after.Good verifies sha256Hex →
      Keeping verifies sha256Hex isDatabase Post (next answer) after) :
    Keeping verifies sha256Hex isDatabase Post (perform op >>= next) store :=
  keeping_passes op hop hgood fun _ answer after _ _ _ hafter => hnext answer after hafter

/-! ## Loading a database -/

/-- What is loaded, and what may be said of it. -/
structure Loaded (verifies : Bytes → Text → Bool) (sha256Hex : Bytes → Text)
    (loaded : Option Copy × Source) : Prop where
  honest : ∀ copy, loaded.1 = some copy → copy.Honest verifies sha256Hex
  reported : loaded.2 = .channel → ∃ copy, loaded.1 = some copy ∧ copy.version.isSome = true

theorem loaded_embedded : Loaded verifies sha256Hex (embeddedCopy embedded, .bundled) := by
  refine ⟨?_, nofun⟩
  rintro copy hcopy version horigin
  obtain ⟨bytes, -, rfl⟩ := Option.map_eq_some_iff.mp hcopy
  contradiction

/-- What a note says the source is. -/
theorem keeping_storedSource (hgood : store.Good verifies sha256Hex) :
    Keeping verifies sha256Hex isDatabase
      (fun source after => store.Same after ∧ after.Good verifies sha256Hex ∧
        (source = .channel ∨ source = .uploaded) ∧ (source = .channel → after.NotedChannel))
      storedSource store := by
  apply keeping_passes .readNote trivial hgood
  rintro choice (_ | text) after - heffect hsame hafter
  · exact ⟨hsame, hafter, .inr rfl, nofun⟩
  · have hnote : after.note = some text := hsame.note.trans (readNote_eq_some heffect)
    by_cases hchannel : text.trim = "channel".toList
    · have hsource : (if text.trim = "channel".toList then Source.channel else .uploaded) =
          .channel := if_pos hchannel
      refine ⟨hsame, hafter, .inl hsource, fun _ => ?_⟩
      rw [Store.NotedChannel, hnote, Option.map_some, hchannel]
    · have hsource : (if text.trim = "channel".toList then Source.channel else .uploaded) =
          .uploaded := if_neg hchannel
      refine ⟨hsame, hafter, .inr hsource, fun h => ?_⟩
      have habsurd := hsource.symm.trans h
      contradiction

theorem keeping_load (hgood : store.Good verifies sha256Hex) (path : Text) :
    Keeping verifies sha256Hex isDatabase
      (fun loaded after => after.Good verifies sha256Hex ∧ Loaded verifies sha256Hex loaded)
      (load embedded path) store := by
  rw [load]
  split
  · apply keeping_asks (.openConfigured path) trivial hgood
    rintro (_ | bytes) after hafter
    · exact ⟨hafter, loaded_embedded⟩
    · refine ⟨hafter, ?_, nofun⟩
      rintro copy hcopy version horigin
      obtain rfl := Option.some.inj hcopy
      contradiction
  · apply keeping_passes .openStored trivial hgood
    rintro choice (_ | copy) after - heffect hsame hafter
    · exact ⟨hafter, loaded_embedded⟩
    · have hstored : after.stored = some copy := hsame.stored.trans (openStored_eq_some heffect)
      apply (keeping_storedSource hafter).bind
      rintro source last ⟨hlastSame, hlast, -, hnoted⟩
      refine ⟨hlast, ?_, fun hsource => ⟨copy, rfl, ?_⟩⟩
      · rintro other hother
        obtain rfl := Option.some.inj hother
        exact hafter.honest.stored _ hstored
      · by_contra hnone
        refine hlast.whole ⟨hnoted hsource, copy, hlastSame.stored.trans hstored, ?_⟩
        simpa using hnone

/-- `init` publishes what it loaded. -/
theorem keeping_init (hgood : store.Good verifies sha256Hex) (path : Text) :
    Keeping verifies sha256Hex isDatabase (fun _ after => after.Good verifies sha256Hex)
      (init embedded path) store := by
  apply keeping_asks (.setConfigured path.trim) trivial hgood
  intro _ configured hconfigured
  apply (keeping_load hconfigured _).bind
  rintro loaded ready ⟨hready, hloaded⟩
  intro choice answer after _ heffect
  cases choice <;> simp only [effect, Option.some.injEq, Prod.mk.injEq, reduceCtorEq] at heffect
  obtain ⟨-, rfl⟩ := heffect
  have hafter : Store.Good verifies sha256Hex { ready with reader := loaded.1, source := loaded.2 } :=
    { honest := { hready.honest with reader := hloaded.honest }
      reported := hloaded.reported
      whole := hready.whole }
  exact ⟨hafter.toSound, hafter⟩

/-! ## Putting a copy in place -/

/-- No part of one note reads as the other. -/
theorem trim_take_uploaded (count : ℕ) :
    Text.trim ((Source.text .uploaded).take count) ≠ "channel".toList := by
  have hshort : ∀ count < 9, Text.trim ((Source.text .uploaded).take count) ≠ "channel".toList := by
    decide +kernel
  rcases Nat.lt_or_ge count 9 with hlt | hle
  · exact hshort count hlt
  · have hwhole : (Source.text .uploaded).take count = (Source.text .uploaded).take 8 := by
      rw [List.take_of_length_le (Nat.le_trans (by decide) hle), List.take_of_length_le (by decide)]
    rw [hwhole]
    exact hshort 8 (by decide)

/-- Once its note is written, the copy that was put in place is loaded. -/
theorem keeping_takeUp {source : Source} (hsound : store.Sound verifies sha256Hex)
    (hstored : store.stored = some copy) (hsource : source = .channel ∨ source = .uploaded)
    (hcopy : source = .channel → copy.version.isSome = true) :
    Keeping verifies sha256Hex isDatabase (fun _ after => after.Good verifies sha256Hex)
      (takeUp embedded source) store := by
  have hnoted {note : Option Text} (hnote : source = .uploaded →
      note.map Text.trim ≠ some "channel".toList) : ¬ ({ store with note := note } : Store).Torn := by
    rintro ⟨hchannel, other, hother, hnone⟩
    obtain rfl : copy = other := Option.some.inj (hstored.symm.trans hother)
    rcases hsource with hsource | hsource
    · have hsome := hcopy hsource
      rw [hnone] at hsome
      contradiction
    · exact hnote hsource hchannel
  have hwritten {note : Option Text} (hnote : source = .uploaded →
      note.map Text.trim ≠ some "channel".toList) :
      Store.Good verifies sha256Hex { store with note := note } :=
    { honest := { hsound.honest with }
      reported := hsound.reported
      whole := hnoted hnote }
  intro choice answer after hkeeps heffect
  have hafter : after.Good verifies sha256Hex := by
    cases choice <;> simp only [effect, Option.some.injEq, Prod.mk.injEq, reduceCtorEq] at heffect
    · obtain ⟨-, rfl⟩ := heffect
      apply hwritten
      rintro rfl hchannel
      exact trim_take_uploaded 8 (Option.some.inj hchannel)
    · obtain ⟨-, rfl⟩ := heffect
      exact { hsound with whole := hkeeps }
    · next count =>
        obtain ⟨-, rfl⟩ := heffect
        apply hwritten
        rintro rfl hchannel
        exact trim_take_uploaded count (Option.some.inj hchannel)
  refine ⟨hafter.toSound, ?_⟩
  apply keeping_asks .readConfigured trivial hafter
  intro configured ready hready
  apply (keeping_init hready configured).bind
  intro _ loaded hloaded
  apply keeping_asks .status trivial hloaded
  exact fun _ _ hlast => hlast

/-- A copy that is honest and goes by its own source is put in place. -/
theorem keeping_install {source : Source} (hgood : store.Good verifies sha256Hex)
    (hhonest : copy.Honest verifies sha256Hex) (hsource : source = .channel ∨ source = .uploaded)
    (hcopy : source = .channel → copy.version.isSome = true) :
    Keeping verifies sha256Hex isDatabase (fun _ after => after.Good verifies sha256Hex)
      (install isDatabase embedded copy source) store := by
  rw [install]
  split
  swap
  · exact hgood
  apply keeping_asks .createDir trivial hgood
  rintro (_ | _) made hmade
  · exact hmade
  intro choice staged staging _ heffect
  obtain ⟨held, rfl, hheld, hheldFrom⟩ := stage_cases heffect
  have hstaging : Store.Good verifies sha256Hex { made with staging := held } := by
    refine
      { honest := { hmade.honest with staging := fun other hother => ?_ }
        reported := hmade.reported
        whole := hmade.whole }
    rcases hheldFrom other hother with rfl | hbefore | hcut
    · exact hhonest
    · exact hmade.honest.staging other hbefore
    · intro version horigin
      rw [hcut] at horigin
      contradiction
  refine ⟨hstaging.toSound, ?_⟩
  cases staged with
  | false => exact hstaging
  | true =>
      apply keeping_passes .storedExists trivial hstaging
      rintro choice there seen - heffect hsame hseen
      have hstaged : seen.staging = some copy := hsame.staging.trans (hheld rfl)
      have hplace {kept : Store} (hkept : kept.Good verifies sha256Hex)
          (hcopyThere : kept.staging = some copy) :
          Keeping verifies sha256Hex isDatabase (fun _ after => after.Good verifies sha256Hex)
            (do
              let inPlace ← perform Op.putInPlace
              if inPlace then takeUp embedded source else pure false) kept := by
        intro choice inPlace placed _ heffect
        rcases putInPlace_cases hcopyThere heffect with ⟨rfl, rfl⟩ | ⟨rfl, rfl⟩
        · have hsound : Store.Sound verifies sha256Hex
              { kept with stored := some copy, staging := none,
                          placed := copy.version.getD kept.placed } :=
            { honest := { hkept.honest with
                stored := fun other hother => Option.some.inj hother ▸ hhonest
                staging := nofun }
              reported := hkept.reported }
          exact ⟨hsound, keeping_takeUp hsound rfl hsource hcopy⟩
        · exact ⟨hkept.toSound, hkept⟩
      cases there with
      | false => exact hplace hseen hstaged
      | true =>
          intro choice kept away _ heffect
          have haway : away.Good verifies sha256Hex ∧ away.staging = some copy := by
            rcases keepPrevious_cases heffect with ⟨moved, hmoved, rfl⟩ | rfl
            · refine ⟨?_, hstaged⟩
              exact
                { honest := { hseen.honest with
                    stored := nofun
                    previous := fun other hother =>
                      Option.some.inj hother ▸ hseen.honest.stored moved hmoved }
                  reported := hseen.reported
                  whole := by
                    rintro ⟨-, other, hother, -⟩
                    contradiction }
            · exact ⟨hseen, hstaged⟩
          exact ⟨haway.1.toSound, hplace haway.1 haway.2⟩

/-! ## The requests -/

theorem keeping_revert (hgood : store.Good verifies sha256Hex) :
    Keeping verifies sha256Hex isDatabase (fun _ after => after.Good verifies sha256Hex)
      (revert isDatabase embedded) store := by
  apply keeping_passes .readPrevious trivial hgood
  rintro choice (_ | copy) after hkeeps heffect hsame hafter
  · exact hafter
  have hprevious : store.previous = some copy := readPrevious_eq_some heffect
  apply (keeping_storedSource hafter).bind
  rintro source noted ⟨hsameNoted, hnoted, hsource, hchannel⟩
  have hcopy : source = .channel → copy.version.isSome = true := by
    intro hsource
    have hnote := hchannel hsource
    rw [Store.NotedChannel, hsameNoted.note, hsame.note] at hnote
    exact hkeeps hnote copy hprevious
  have hhonest : copy.Honest verifies sha256Hex := hgood.honest.previous copy hprevious
  apply (keeping_install hnoted hhonest hsource hcopy).bind
  rintro (_ | _) installed hinstalled
  · exact hinstalled
  intro choice answer last _ heffect
  have hlast : last.Good verifies sha256Hex := by
    cases choice <;> simp only [effect, Option.some.injEq, Prod.mk.injEq, reduceCtorEq] at heffect
    · obtain ⟨-, rfl⟩ := heffect
      exact
        { honest := { hinstalled.honest with previous := nofun }
          reported := hinstalled.reported
          whole := hinstalled.whole }
    · obtain ⟨-, rfl⟩ := heffect
      exact hinstalled
  exact ⟨hlast.toSound, hlast⟩

theorem keeping_upload (hgood : store.Good verifies sha256Hex) (body : Bytes) :
    Keeping verifies sha256Hex isDatabase (fun _ after => after.Good verifies sha256Hex)
      (upload isDatabase embedded body) store :=
  keeping_install hgood nofun (.inr rfl) nofun

/-- What a signed manifest describes is put in force. -/
theorem keeping_installSigned {manifest body : Bytes} {signature : Text} {offered : Offered}
    (hgood : store.Good verifies sha256Hex)
    (hsigned : Signed verifies sha256Hex manifest signature offered body) :
    Keeping verifies sha256Hex isDatabase (fun _ after => after.Good verifies sha256Hex)
      (install isDatabase embedded (channelCopy offered body) .channel) store := by
  apply keeping_install hgood _ (.inl rfl) fun _ => rfl
  rintro version horigin
  exact ⟨manifest, signature, offered, hsigned, Origin.channel.inj horigin⟩

theorem keeping_hold {manifest body : Bytes} {signature : Text} {offered : Offered}
    (hgood : store.Good verifies sha256Hex) :
    Keeping verifies sha256Hex isDatabase (fun _ after => after.Good verifies sha256Hex)
      (hold offered manifest signature body) store := by
  apply keeping_asks .removeHeld trivial hgood
  intro _ removed hremoved
  apply keeping_asks .createHeld trivial hremoved
  rintro (_ | _) created hcreated
  · exact hcreated
  apply keeping_asks (.writeHeld (.database offered.id) body) trivial hcreated
  rintro (_ | _) first hfirst
  · exact hfirst
  apply keeping_asks (.writeHeld .manifest manifest) trivial hfirst
  rintro (_ | _) second hsecond
  · exact hsecond
  apply keeping_asks (.writeHeld .signature signature.bytes) trivial hsecond
  rintro (_ | _) third hthird
  · exact hthird
  apply keeping_asks (.recordVersion offered.version) trivial hthird
  exact fun _ _ hrecorded => hrecorded

theorem keeping_fetchOffered {manifest : Bytes} {signature : Text} {offered : Offered}
    (hgood : store.Good verifies sha256Hex) (hverified : verifies manifest signature = true)
    (hoffered : firstOffered manifest = some offered) :
    Keeping verifies sha256Hex isDatabase (fun _ after => after.Good verifies sha256Hex)
      (fetchOffered sha256Hex isDatabase embedded offered manifest signature) store := by
  apply keeping_asks .readVersion trivial hgood
  intro previous read hread
  split
  swap
  · exact hread
  apply keeping_asks (.fetch offered.file) trivial hread
  rintro (_ | body) fetched hfetched
  · exact hfetched
  dsimp only
  split
  swap
  · exact hfetched
  next hdigest =>
    apply keeping_asks .readAuto trivial hfetched
    intro auto asked hasked
    split
    · apply (keeping_installSigned hasked ⟨hverified, hoffered, hdigest⟩).bind
      rintro (_ | _) installed hinstalled
      · exact hinstalled
      apply keeping_asks (.recordVersion offered.version) trivial hinstalled
      exact fun _ _ hrecorded => hrecorded
    · exact keeping_hold hasked

theorem keeping_sync (hgood : store.Good verifies sha256Hex) :
    Keeping verifies sha256Hex isDatabase (fun _ after => after.Good verifies sha256Hex)
      (sync verifies sha256Hex isDatabase embedded) store := by
  apply keeping_asks (.fetch "geo.toml".toList) trivial hgood
  rintro (_ | manifest) first hfirst
  · exact hfirst
  apply keeping_asks (.fetch "geo.toml.asc".toList) trivial hfirst
  rintro (_ | signatureBytes) second hsecond
  · exact hsecond
  dsimp only
  split
  swap
  · exact hsecond
  next signature _ =>
    split
    swap
    · exact hsecond
    next hverified =>
      split
      swap
      · exact hsecond
      next offered hoffered =>
        split
        · exact keeping_fetchOffered hsecond hverified hoffered
        · exact hsecond

theorem keeping_applyHeld (hgood : store.Good verifies sha256Hex) :
    Keeping verifies sha256Hex isDatabase (fun _ after => after.Good verifies sha256Hex)
      (applyHeld verifies sha256Hex isDatabase embedded) store := by
  apply keeping_passes (.readHeld .manifest) trivial hgood
  rintro choice described after - heffect hsame hafter
  obtain ⟨rfl, hdescribed⟩ := readHeld_cases heffect
  split
  swap
  · exact hafter
  next offered hoffered =>
    obtain ⟨manifest, rfl, hoffered⟩ := Option.bind_eq_some_iff.mp hoffered
    apply keeping_passes (.readHeld .manifest) trivial hafter
    rintro choice reread store - heffect - hstore
    obtain ⟨rfl, hreread⟩ := readHeld_cases heffect
    apply keeping_asks (.readHeld .signature) trivial hstore
    intro signatureRead read hread
    split
    swap
    · exact hread
    next reread signatureBytes =>
      have hmanifest : manifest = reread :=
        Option.some.inj ((hdescribed _ rfl).symm.trans (hreread _ rfl))
      subst hmanifest
      split
      swap
      · exact hread
      next signature _ =>
        split
        swap
        · exact hread
        next hverified =>
          apply keeping_asks (.readHeld (.database offered.id)) trivial hread
          rintro (_ | body) found hfound
          · exact hfound
          dsimp only
          split
          swap
          · exact hfound
          next hdigest =>
            apply (keeping_installSigned hfound ⟨hverified, hoffered, hdigest⟩).bind
            rintro (_ | _) installed hinstalled
            · exact hinstalled
            apply keeping_asks .removeHeld trivial hinstalled
            exact fun _ _ hremoved => hremoved

theorem keeping_program (hgood : store.Good verifies sha256Hex) (request : Request) :
    Keeping verifies sha256Hex isDatabase (fun _ after => after.Good verifies sha256Hex)
      (program verifies sha256Hex isDatabase embedded request) store := by
  cases request with
  | start geoipDb =>
      apply (keeping_init hgood geoipDb).bind
      exact fun _ _ hstarted => hstarted
  | check => exact keeping_sync hgood
  | applyHeld => exact keeping_applyHeld hgood
  | upload body => exact keeping_upload hgood body
  | revert => exact keeping_revert hgood
  | setAuto on =>
      apply keeping_asks (.setAuto _) trivial hgood
      exact fun _ _ hset => hset

/-- What is in memory is gone after a death. -/
theorem Store.Sound.dead (hsound : store.Sound verifies sha256Hex) (hwhole : ¬ store.Torn) :
    Store.Good verifies sha256Hex
      { store with reader := none, source := .bundled, configured := [] } where
  honest := { hsound.honest with reader := nofun }
  reported := nofun
  whole := hwhole

theorem noteKeepers (verifies : Bytes → Text → Bool) (sha256Hex : Bytes → Text)
    (isDatabase : Bytes → Bool) (embedded : Option Bytes) :
    Keepers verifies sha256Hex isDatabase embedded KeepsNote (fun store => ¬ store.Torn)
      (Store.Good verifies sha256Hex) (fun _ _ after => after.Sound verifies sha256Hex) where
  refl _ _ hgood := hgood.toSound
  program _ request hgood := keeping_program hgood request
  idle _ hgood hwhole := hgood.toSound.dead hwhole
  cut _ _ _ hsound hwhole := hsound.dead hwhole

theorem World.Ready.sound {world : World}
    (hready : world.Ready isDatabase KeepsNote (Store.Good verifies sha256Hex)
      fun _ _ after => after.Sound verifies sha256Hex) :
    world.store.Sound verifies sha256Hex := by
  rw [World.Ready] at hready
  split at hready
  · exact hready.toSound
  · exact hready.1.choose_spec

end Operations

variable (verifies : Bytes → Text → Bool) (sha256Hex : Bytes → Text)
variable (isDatabase : Bytes → Bool) (embedded : Option Bytes)

/-- In every run that is allowed: a database that is reported as the channel's came from the
channel, and its bytes are those of a file whose signature was verified. -/
theorem channel_is_verified {world : World}
    (run : Run (step verifies sha256Hex isDatabase embedded)
      (Allowed KeepsNote fun store => ¬ store.Torn) World.fresh world)
    (hsource : world.store.source = .channel) :
    ∃ copy version, world.store.reader = some copy ∧ copy.origin = .channel version ∧
      Verified verifies sha256Hex version copy.bytes := by
  have hfresh : Store.Good verifies sha256Hex Store.fresh := by
    refine ⟨⟨⟨nofun, nofun, nofun, nofun⟩, nofun⟩, ?_⟩
    rintro ⟨hnoted, -⟩
    contradiction
  have hready := ready_of_run (noteKeepers verifies sha256Hex isDatabase embedded) run hfresh
  have hsound := hready.sound
  obtain ⟨copy, hreader, hversion⟩ := hsound.reported hsource
  cases horigin : copy.origin with
  | channel version => exact ⟨copy, version, hreader, horigin, hsound.honest.reader _ hreader _ horigin⟩
  | _ =>
      rw [Copy.version, horigin] at hversion
      contradiction

section Examples

/-- The digest of a file, as far as it is needed. -/
def plainDigest (body : Bytes) : Text := if body = [7] then ['d'] else []

def plainManifest (version : Text) : Text :=
  "[[databases]]\nid = \"a\"\nfile = \"a\"\nsha256 = \"d\"\nversion = \"".toList ++ version ++
    ['"']

def plainVerifies (_ : Bytes) (signature : Text) : Bool := decide (signature = "signed".toList)

/-- An event of a run in which nothing fails and nothing is put back. -/
def quiet (world : World) : Event → Bool
  | .request _ => true
  | .advance .fails => false
  | .advance _ =>
      match world.running with
      | some (_, .call .readPrevious _) => false
      | _ => true
  | .die => false

theorem allowed_of_quiet {world : World} {event : Event} {mayDie : Store → Prop}
    (hquiet : quiet world event = true) : Allowed KeepsNote mayDie world event := by
  cases event with
  | request request => trivial
  | advance choice =>
      intro request task hrunning
      cases task with
      | done => trivial
      | call op next =>
          cases op
          case writeNote => cases choice <;> trivial
          case readPrevious => cases choice <;> simp [quiet, hrunning] at hquiet
          all_goals trivial
  | die => contradiction

/-- The channel's database is fetched and put in force, with so many operations. -/
def checkEvents (version : Text) (count : ℕ) : List Event :=
  [.request .check, .advance (.finds (plainManifest version).bytes),
    .advance (.finds (Text.bytes "signed".toList)), .advance .works, .advance (.finds [7])] ++
    List.replicate count (.advance .works)

/-- A database that the channel gave is reported so. -/
theorem channel_is_verified_of_check :
    ∃ world copy version,
      Run (step plainVerifies plainDigest (fun _ => true) none)
        (Allowed KeepsNote fun store => ¬ store.Torn) World.fresh world ∧
      world.store.source = .channel ∧ world.store.reader = some copy ∧
      copy.origin = .channel version ∧
      Verified plainVerifies plainDigest version copy.bytes := by
  obtain ⟨world, run, hsource⟩ :=
    exists_run_of_exec (step plainVerifies plainDigest (fun _ => true) none) World.fresh quiet
      (checkEvents ['2'] 13) (fun world => world.store.source = .channel)
      (fun _ _ => allowed_of_quiet) (by decide +kernel)
  have hsource : world.store.source = .channel := by simpa using hsource
  obtain ⟨copy, version, hcopy⟩ :=
    channel_is_verified plainVerifies plainDigest (fun _ => true) none run hsource
  exact ⟨world, copy, version, run, hsource, hcopy⟩

/-- A database is uploaded, replaced by the channel's, and put back. -/
def revertEvents : List Event :=
  .request (.upload [9]) :: List.replicate 11 (.advance .works) ++ checkEvents ['2'] 14 ++
    .request .revert :: List.replicate 15 (.advance .works)

/-- What was uploaded by hand is reported as the channel's once it is put back. -/
theorem reverted_upload_is_reported_verified :
    ∃ world, Run (step plainVerifies plainDigest (fun _ => true) none) anything World.fresh world ∧
      world.running.isNone = true ∧ world.store.source = .channel ∧
      world.store.reader = some { bytes := [9], origin := .byHand } := by
  obtain ⟨world, run, hend⟩ : ∃ world,
      Run (step plainVerifies plainDigest (fun _ => true) none) anything World.fresh world ∧
      (world.running.isNone && decide (world.store.source = .channel ∧
        world.store.reader = some { bytes := [9], origin := .byHand })) = true :=
    exists_run_of_exec (step plainVerifies plainDigest (fun _ => true) none) World.fresh
      (fun _ _ => true) revertEvents _ (fun _ _ _ => trivial) (by decide +kernel)
  simp only [Bool.and_eq_true, decide_eq_true_eq] at hend
  exact ⟨world, run, hend⟩

end Examples

end EasyWaf.Geo
