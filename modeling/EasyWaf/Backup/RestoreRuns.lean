import EasyWaf.Backup.RestoreKept

/-!
# A restore loses no database

The steps of a start one after another, and what follows for every run of the
process: the database last in use is whole, a start that has finished leaves
nothing to be undone, and what is recorded is what became of the restore.
-/

namespace EasyWaf.Backup

open EasyWaf.Core EasyWaf.Core.Program Machine

variable {Rows : Type} [DecidableEq Rows]

/-- Whatever comes of the calls, and wherever the start is cut off. -/
abbrev Holds {Result : Type} (Post : Result → Disk Rows → Prop) (program : Start Result)
    (disk : Disk Rows) : Prop :=
  Keeps effect (fun disk op choice => permits disk op choice = true) Disk.Sound Post program disk

/-! ## The operations -/

section Operations

variable {Result : Type} {Post : Result → Disk Rows → Prop} {disk : Disk Rows} {path : Path}

open Start

theorem holds_existsAt {next : Bool → Start Result} (hsound : disk.Sound)
    (hthere : disk.files path ≠ none → Holds Post (next true) disk)
    (hnot : path = .before ∨ disk.files path = none → Holds Post (next false) disk) :
    Holds Post (existsAt path >>= next) disk := by
  rintro (_ | error | _ | _ | _) answer after hpermits heffect
  · simp only [effect, Option.some.injEq, Prod.mk.injEq] at heffect
    obtain ⟨rfl, rfl⟩ := heffect
    refine ⟨hsound, ?_⟩
    cases hfile : disk.files path with
    | none => exact hnot (.inr hfile)
    | some file => exact hthere (by simp [hfile])
  · simp only [effect, Option.some.injEq, Prod.mk.injEq] at heffect
    obtain ⟨rfl, rfl⟩ := heffect
    exact ⟨hsound, hnot (by simpa [permits] using hpermits)⟩
  all_goals simp [effect] at heffect

/-- The marker, the log and the outcome are gone after it. -/
theorem holds_removeFile {next : Unit → Start Result}
    (hpath : path = .marker ∨ path = .wal ∨ path = .outcome)
    (hsound : (disk.set path none).Sound) (hnext : Holds Post (next ()) (disk.set path none)) :
    Holds Post (removeFile path >>= next) disk := by
  rintro (_ | error | _ | _ | _) answer after hpermits heffect
  · simp only [effect, Option.some.injEq, Prod.mk.injEq] at heffect
    obtain ⟨-, rfl⟩ := heffect
    exact ⟨hsound, hnext⟩
  · simp only [effect, Option.some.injEq, Prod.mk.injEq] at heffect
    obtain ⟨-, rfl⟩ := heffect
    have hnone : disk.files path = none := by
      rcases hpath with rfl | rfl | rfl <;> simpa [permits] using hpermits
    rw [Disk.set_eq_self hnone] at hsound hnext
    exact ⟨hsound, hnext⟩
  all_goals simp [effect] at heffect

/-- Any other file may still be there. -/
theorem holds_removeFile_or {next : Unit → Start Result} (hsound : disk.Sound)
    (hremoved : (disk.set path none).Sound)
    (hnext : ∀ after, after = disk ∨ after = disk.set path none → Holds Post (next ()) after) :
    Holds Post (removeFile path >>= next) disk := by
  rintro (_ | error | _ | _ | _) answer after hpermits heffect
  · simp only [effect, Option.some.injEq, Prod.mk.injEq] at heffect
    obtain ⟨-, rfl⟩ := heffect
    exact ⟨hremoved, hnext _ (.inr rfl)⟩
  · simp only [effect, Option.some.injEq, Prod.mk.injEq] at heffect
    obtain ⟨-, rfl⟩ := heffect
    exact ⟨hsound, hnext _ (.inl rfl)⟩
  all_goals simp [effect] at heffect

theorem holds_rename {source dest : Path} {next : Except Text Unit → Start Result}
    (hworks : ∀ file, permits disk (.rename source dest) .works = true →
      disk.files source = some file →
      ((disk.set dest (some file)).set source none).Sound ∧
        Holds Post (next (.ok ())) ((disk.set dest (some file)).set source none))
    (hfails : ∀ error, permits disk (.rename source dest) (.fails error) = true →
      disk.Sound ∧ Holds Post (next (.error error)) disk) :
    Holds Post (rename source dest >>= next) disk := by
  rintro (_ | error | _ | _ | _) answer after hpermits heffect
  · simp only [effect, Option.map_eq_some_iff, Prod.mk.injEq] at heffect
    obtain ⟨file, hfile, rfl, rfl⟩ := heffect
    exact hworks file hpermits hfile
  · simp only [effect, Option.some.injEq, Prod.mk.injEq] at heffect
    obtain ⟨rfl, rfl⟩ := heffect
    exact hfails error hpermits
  all_goals simp [effect] at heffect

theorem holds_readToString {next : Option Text → Start Result} (hsound : disk.Sound)
    (hnext : ∀ text, Holds Post (next text) disk) :
    Holds Post (readToString path >>= next) disk := by
  rintro (_ | error | _ | _ | _) answer after hpermits heffect
  · simp only [effect] at heffect
    split at heffect <;>
    · simp only [Option.some.injEq, Prod.mk.injEq] at heffect
      obtain ⟨rfl, rfl⟩ := heffect
      exact ⟨hsound, hnext _⟩
  · simp only [effect, Option.some.injEq, Prod.mk.injEq] at heffect
    obtain ⟨rfl, rfl⟩ := heffect
    exact ⟨hsound, hnext _⟩
  all_goals simp [effect] at heffect

/-- What became of the restore is written, or nothing is left of it. -/
theorem holds_writeOutcome {text : Text} {next : Bool → Start Result} (hsound : disk.Sound)
    (hwritten : (disk.set .outcome (some (.text text))).Sound)
    (hnext : ∀ wrote after, after = disk ∨ after = disk.set .outcome (some (.text text)) →
      Holds Post (next wrote) after) :
    Holds Post (write .outcome text >>= next) disk := by
  rintro (_ | error | _ | _ | _) answer after hpermits heffect
  · simp only [effect, Option.some.injEq, Prod.mk.injEq] at heffect
    obtain ⟨rfl, rfl⟩ := heffect
    exact ⟨hwritten, hnext _ _ (.inr rfl)⟩
  · simp only [effect, Option.some.injEq, Prod.mk.injEq] at heffect
    obtain ⟨rfl, rfl⟩ := heffect
    exact ⟨hsound, hnext _ _ (.inl rfl)⟩
  · simp [permits] at hpermits
  all_goals simp [effect] at heffect

end Operations

/-! ## Before the database is opened -/

section Start

open Start Disk

variable {disk : Disk Rows}

/-- A message that begins with its status. -/
theorem statusOf_failed (message : Text) :
    statusOf ("failed\n".toList ++ message) = "failed".toList := by
  have hsplit : Text.splitOnce '\n' ("failed".toList ++ '\n' :: message) =
      some ("failed".toList, message) := Text.splitOnce_append (by decide)
  have htext : "failed\n".toList ++ message = "failed".toList ++ '\n' :: message := rfl
  rw [statusOf, outcomeOf, htext, hsplit]
  rfl

theorem statusOf_ok (message : Text) : statusOf ("ok\n".toList ++ message) = "ok".toList := by
  have hsplit : Text.splitOnce '\n' ("ok".toList ++ '\n' :: message) =
      some ("ok".toList, message) := Text.splitOnce_append (by decide)
  have htext : "ok\n".toList ++ message = "ok".toList ++ '\n' :: message := rfl
  rw [statusOf, outcomeOf, htext, hsplit]
  rfl

/-- The log and the shared memory go. -/
theorem holds_removeLog {Result : Type} {Post : Result → Disk Rows → Prop} {next : Start Result}
    (hsound : disk.Sound) (hswapping : disk.Swapping)
    (hnext : ∀ after : Disk Rows, after.Sound → after.Swapping → after.restore = disk.restore →
      after.files .staged = disk.files .staged → after.files .wal = none → Holds Post next after) :
    Holds Post (removeFile .wal >>= fun _ => removeFile .shm >>= fun _ => next) disk := by
  apply holds_removeFile (.inr (.inl rfl)) (hsound.removeLog hswapping)
  apply holds_removeFile_or (hsound.removeLog hswapping)
    ((hsound.removeLog hswapping).setOther (.inl rfl))
  rintro after (rfl | rfl)
  · exact hnext _ (hsound.removeLog hswapping) hswapping.removeLog rfl rfl rfl
  · refine hnext _ ((hsound.removeLog hswapping).setOther (.inl rfl)) ?_ rfl rfl rfl
    refine ⟨hswapping.marker, hswapping.before, fun hstaged => (hswapping.on hstaged).of rfl rfl ?_⟩
    rw [origin_set_of_ne (by decide) (by decide), origin_removeLog]

theorem holds_putBack (hsound : disk.Sound) (hswapping : disk.Swapping)
    (hstaged : disk.files .staged = none) :
    Holds (fun _ after => after.Sound ∧ after.files .marker ≠ none ∧ after.files .staged = none)
      putBack disk := by
  apply holds_removeLog hsound hswapping
  intro disk hsound hswapping _ hstaged' hwal
  replace hstaged := hstaged'.trans hstaged
  apply holds_rename
  · intro file _ hbefore
    obtain rfl : file = .database disk.inUse :=
      Option.some.inj (hbefore.symm.trans hswapping.before)
    obtain ⟨hsound', hundone, -⟩ := hsound.putBack hswapping hstaged hwal
    refine ⟨hsound', ?_⟩
    obtain ⟨restore, hreplacing, -⟩ := hswapping.on hstaged
    replace hreplacing : Replacing ((disk.set .db (some (.database disk.inUse))).set .before none)
        restore := hreplacing.of rfl rfl
    generalize (disk.set .db (some (.database disk.inUse))).set .before none = disk at *
    apply holds_readToString hsound'
    intro reason
    apply holds_removeFile_or hsound' (hsound'.setOther (.inr (.inr rfl)))
    have hwrite {after : Disk Rows} (hsound : after.Sound) (hundone : after.Undone)
        (hreplacing : after.Replacing restore) (text : Text)
        (hstatus : statusOf text = "failed".toList) :
        Holds (fun _ after => after.Sound ∧ after.files .marker ≠ none ∧
          after.files .staged = none) (write .outcome text >>= fun _ => pure ()) after := by
      have hwritten := hsound.tell (hreplacing.toldFailed hundone.live hstatus)
      apply holds_writeOutcome hsound hwritten
      rintro wrote after (rfl | rfl)
      · exact ⟨hsound, hundone.marker, hundone.staged⟩
      · exact ⟨hwritten, hundone.marker, hundone.staged⟩
    rintro after (rfl | rfl)
    · apply hwrite hsound' hundone hreplacing
      simp only [List.append_assoc]
      exact statusOf_failed _
    · apply hwrite (hsound'.setOther (.inr (.inr rfl))) _ (hreplacing.of rfl rfl)
      · simp only [List.append_assoc]
        exact statusOf_failed _
      · exact ⟨hundone.marker, hundone.staged, hundone.before,
          (live_set_of_ne (by decide) (by decide)).trans hundone.live⟩
  · intro error _
    exact ⟨hsound, hsound, hswapping.marker, hstaged⟩

theorem holds_removeMarker {Post : Unit → Disk Rows → Prop} (hsound : (disk.set .marker none).Sound)
    (hpost : Post () (disk.set .marker none)) : Holds Post (removeFile .marker) disk :=
  @holds_removeFile _ _ _ _ _ _ pure (.inl rfl) hsound hpost

theorem holds_undo (hsound : disk.Sound) (hmarker : disk.files .marker ≠ none)
    (hstaged : disk.files .staged = none) :
    Holds (fun _ after => after.Sound ∧ after.Ready) undo disk := by
  have hremove {after : Disk Rows} (hsound : after.Sound) (hstaged : after.files .staged = none) :
      Holds (fun _ after => after.Sound ∧ after.Ready) (removeFile .marker) after :=
    holds_removeMarker (hsound.removeMarker (.inl hstaged))
      ⟨hsound.removeMarker (.inl hstaged), fun h => absurd files_set_self h⟩
  apply holds_existsAt hsound
  · intro hbefore
    have hswapping : disk.Swapping := by
      cases hsound.standing with
      | inUse hm _ => exact absurd hm hmarker
      | accepted hm _ _ _ => exact absurd hm hmarker
      | swapping h => exact h
      | undone h => exact absurd h.before hbefore
    apply Keeps.bind (holds_putBack hsound hswapping hstaged)
    rintro - after ⟨hsound, -, hstaged⟩
    exact hremove hsound hstaged
  · intro _
    exact hremove hsound hstaged

/-- Where nothing has been moved yet. -/
structure Waiting (disk : Disk Rows) : Prop where
  sound : disk.Sound
  marker : disk.files .marker = none
  live : disk.live = some disk.inUse
  staged : disk.files .staged ≠ none

omit [DecidableEq Rows] in
theorem Waiting.setOther {path : Path} {file : Option (File Rows)} (hwaiting : Waiting disk)
    (hpath : path = .shm ∨ path = .beforeTmp ∨ path = .reason) :
    Waiting (disk.set path file) where
  sound := hwaiting.sound.setOther hpath
  marker := by
    rw [files_set_of_ne (by rcases hpath with rfl | rfl | rfl <;> decide), hwaiting.marker]
  live := by
    rw [live_set_of_ne (by rcases hpath with rfl | rfl | rfl <;> decide)
      (by rcases hpath with rfl | rfl | rfl <;> decide), hwaiting.live, inUse_set]
  staged := by
    rw [files_set_of_ne (by rcases hpath with rfl | rfl | rfl <;> decide)]
    exact hwaiting.staged

omit [DecidableEq Rows] in
theorem Waiting.fold (hwaiting : Waiting disk) : Waiting disk.folded where
  sound := hwaiting.sound.fold hwaiting.marker hwaiting.live
  marker := (files_folded (by decide) (by decide)).trans hwaiting.marker
  live := by
    have hinUse : disk.folded.inUse = disk.inUse := by
      rw [folded]
      split <;> rfl
    rw [live_folded, hinUse, hwaiting.live]
  staged := by
    rw [files_folded (by decide) (by decide)]
    exact hwaiting.staged

omit [DecidableEq Rows] in
/-- Giving up is the failure of this restore. -/
theorem Waiting.told (hwaiting : Waiting disk) {text : Text}
    (hstatus : statusOf text = "failed".toList) :
    (disk.set .outcome (some (.text text))).Sound := by
  obtain ⟨file, hfile⟩ := Option.ne_none_iff_exists'.mp hwaiting.staged
  obtain ⟨restore, -, hreplacing, -⟩ := hwaiting.sound.waiting file hfile
  exact hwaiting.sound.tell (hreplacing.toldFailed hwaiting.live hstatus)

/-- The copy of the database in use has been kept, or there will be no swap. -/
def Begun (kept : Bool) (disk : Disk Rows) : Prop :=
  disk.Sound ∧ disk.files .marker = none ∧
    (kept = true → Waiting disk ∧ disk.files .before = some (.database disk.inUse))

theorem holds_notApplied (hwaiting : Waiting disk) (message : Text) :
    Holds Begun (notApplied message) disk := by
  have hstatus : statusOf ("failed\nNot applied: ".toList ++ message) = "failed".toList :=
    statusOf_failed ("Not applied: ".toList ++ message)
  have hwritten := hwaiting.told hstatus
  apply holds_writeOutcome hwaiting.sound hwritten
  have hdrop {after : Disk Rows} (hsound : after.Sound) (hmarker : after.files .marker = none)
      (hlive : after.live = some after.inUse) :
      Holds Begun (removeFile .staged >>= fun _ => pure false) after := by
    have hdropped := hsound.dropStaged hmarker hlive
    apply holds_removeFile_or hsound hdropped
    rintro after (rfl | rfl)
    · exact ⟨hsound, hmarker, by simp⟩
    · exact ⟨hdropped, hmarker, by simp⟩
  rintro wrote after (rfl | rfl)
  · exact hdrop hwaiting.sound hwaiting.marker hwaiting.live
  · exact hdrop hwritten hwaiting.marker
      ((live_set_of_ne (by decide) (by decide)).trans hwaiting.live)

theorem holds_connect {Result : Type} {Post : Result → Disk Rows → Prop}
    {next : Except Text Unit → Start Result} (hsound : disk.Sound)
    (hnext : ∀ connected, Holds Post (next connected) disk) :
    Holds Post (connect >>= next) disk := by
  rintro (_ | error | _ | _ | _) answer after hpermits heffect
  · simp only [effect, Option.some.injEq, Prod.mk.injEq] at heffect
    obtain ⟨rfl, rfl⟩ := heffect
    exact ⟨hsound, hnext _⟩
  · simp only [effect, Option.some.injEq, Prod.mk.injEq] at heffect
    obtain ⟨rfl, rfl⟩ := heffect
    exact ⟨hsound, hnext _⟩
  all_goals simp [effect] at heffect

/-- The copy is whole where `VACUUM INTO` has succeeded. -/
theorem holds_take {Result : Type} {Post : Result → Disk Rows → Prop}
    {next : Except Text Unit → Start Result} (hwaiting : Waiting disk)
    (hnext : ∀ taken after, Waiting after → (taken = .ok () →
      after.files .beforeTmp = some (.database after.inUse)) → Holds Post (next taken) after) :
    Holds Post (take >>= next) disk := by
  rintro (_ | error | ⟨length, error⟩ | _ | _) answer after hpermits heffect
  · simp only [effect, hwaiting.live] at heffect
    cases hfile : disk.files .beforeTmp with
    | none =>
        simp only [hfile, Option.some.injEq, Prod.mk.injEq] at heffect
        obtain ⟨rfl, rfl⟩ := heffect
        have hset : Waiting (disk.set .beforeTmp (some (.database disk.inUse))) :=
          hwaiting.setOther (.inr (.inl rfl))
        exact ⟨hset.sound, hnext _ _ hset fun _ => files_set_self⟩
    | some file => simp [hfile] at heffect
  · simp only [effect, Option.some.injEq, Prod.mk.injEq] at heffect
    obtain ⟨rfl, rfl⟩ := heffect
    exact ⟨hwaiting.sound, hnext _ _ hwaiting (by simp)⟩
  · simp only [effect, Option.some.injEq, Prod.mk.injEq] at heffect
    obtain ⟨rfl, rfl⟩ := heffect
    have hset : Waiting (disk.set .beforeTmp (some .incomplete)) :=
      hwaiting.setOther (.inr (.inl rfl))
    exact ⟨hset.sound, hnext _ _ hset (by simp)⟩
  all_goals simp [effect] at heffect

theorem holds_close {Result : Type} {Post : Result → Disk Rows → Prop} {next : Unit → Start Result}
    (hwaiting : Waiting disk)
    (hnext : ∀ after, after = disk ∨ after = disk.folded → Holds Post (next ()) after) :
    Holds Post (close >>= next) disk := by
  rintro (_ | error | _ | _ | _) answer after hpermits heffect
  · simp only [effect, Option.some.injEq, Prod.mk.injEq] at heffect
    obtain ⟨-, rfl⟩ := heffect
    exact ⟨hwaiting.fold.sound, hnext _ (.inr rfl)⟩
  · simp only [effect, Option.some.injEq, Prod.mk.injEq] at heffect
    obtain ⟨-, rfl⟩ := heffect
    exact ⟨hwaiting.sound, hnext _ (.inl rfl)⟩
  all_goals simp [effect] at heffect

theorem holds_keepCurrent (hwaiting : Waiting disk) : Holds Begun keepCurrent disk := by
  have htmp : Waiting (disk.set .beforeTmp none) := hwaiting.setOther (.inr (.inl rfl))
  apply holds_removeFile_or hwaiting.sound htmp.sound
  intro disk' hdisk'
  replace hwaiting : Waiting disk' := by
    rcases hdisk' with rfl | rfl
    · exact hwaiting
    · exact htmp
  apply holds_connect hwaiting.sound
  rintro (error | -)
  · exact holds_notApplied hwaiting _
  apply holds_take hwaiting
  intro taken disk hwaiting htaken
  apply holds_close hwaiting
  intro after hafter
  obtain ⟨hwaiting, htmp⟩ : Waiting after ∧ (taken = .ok () →
      after.files .beforeTmp = some (.database after.inUse)) := by
    rcases hafter with rfl | rfl
    · exact ⟨hwaiting, htaken⟩
    · have hinUse : disk.folded.inUse = disk.inUse := by
        rw [folded]
        split <;> rfl
      refine ⟨hwaiting.fold, fun hok => ?_⟩
      rw [files_folded (by decide) (by decide), htaken hok, hinUse]
  cases taken with
  | error error => exact holds_notApplied hwaiting _
  | ok taken =>
      apply holds_rename
      · intro file _ hfile
        obtain rfl : file = .database after.inUse := Option.some.inj (hfile.symm.trans (htmp rfl))
        have hsound := hwaiting.sound.keep hwaiting.marker hwaiting.live (.database after.inUse)
        refine ⟨hsound, hsound, hwaiting.marker, fun _ => ⟨⟨hsound, hwaiting.marker, ?_,
          hwaiting.staged⟩, rfl⟩⟩
        rw [live_set_of_ne (by decide) (by decide), live_set_of_ne (by decide) (by decide)]
        exact hwaiting.live
      · intro error _
        exact ⟨hwaiting.sound, holds_notApplied hwaiting _⟩

/-- The swap has begun, or it has not and nothing was moved. -/
def Marked (wrote : Bool) (disk : Disk Rows) : Prop :=
  disk.Sound ∧ if wrote then disk.Swapping ∧ disk.files .staged ≠ none
    else disk.files .marker = none

theorem holds_writeMarker (hwaiting : Waiting disk)
    (hbefore : disk.files .before = some (.database disk.inUse)) :
    Holds Marked writeMarker disk := by
  have hwrite (text : Text) : Holds Marked (write .marker text) disk := by
    obtain ⟨hsound, hswapping⟩ := hwaiting.sound.mark hwaiting.staged hbefore (.text text)
    rintro (_ | error | _ | _ | _) answer after hpermits heffect
    · simp only [effect, Option.some.injEq, Prod.mk.injEq] at heffect
      obtain ⟨rfl, rfl⟩ := heffect
      exact ⟨hsound, hsound, hswapping, hwaiting.staged⟩
    · simp only [effect, Option.some.injEq, Prod.mk.injEq] at heffect
      obtain ⟨rfl, rfl⟩ := heffect
      exact ⟨hwaiting.sound, hwaiting.sound, hwaiting.marker⟩
    · simp [permits] at hpermits
    all_goals simp [effect] at heffect
  rintro (_ | error | _ | version | _) answer after hpermits heffect
  · simp [effect] at heffect
  · simp only [effect, Option.some.injEq, Prod.mk.injEq] at heffect
    obtain ⟨rfl, rfl⟩ := heffect
    exact ⟨hwaiting.sound, hwrite _⟩
  · simp [effect] at heffect
  · simp only [effect, Option.some.injEq, Prod.mk.injEq] at heffect
    obtain ⟨rfl, rfl⟩ := heffect
    exact ⟨hwaiting.sound, hwrite _⟩
  · simp [effect] at heffect

theorem holds_beginSwap (hwaiting : Waiting disk) : Holds Marked beginSwap disk := by
  apply holds_existsAt hwaiting.sound
  · intro _
    apply Keeps.bind (holds_keepCurrent hwaiting)
    rintro (_ | _) after ⟨hsound, hmarker, hkept⟩
    · exact ⟨hsound, hmarker⟩
    · obtain ⟨hwaiting, hbefore⟩ := hkept rfl
      exact holds_writeMarker hwaiting hbefore
  · intro hnone
    -- the database in use is at the live path
    have hdb : disk.files .db ≠ none := by
      intro hdb
      have hlive := hwaiting.live
      simp [live, hdb] at hlive
    exact absurd (hnone.resolve_left (by decide)) hdb

theorem holds_swap (hsound : disk.Sound) (hswapping : disk.Swapping)
    (hstaged : disk.files .staged ≠ none) :
    Holds (fun _ after => after.Sound ∧ after.Ready) swap disk := by
  apply holds_removeLog hsound hswapping
  intro disk hsound hswapping _ hstaged' hwal
  rw [← hstaged'] at hstaged
  apply holds_rename
  · intro file hpermits hfile
    obtain ⟨hsound', hswapping'⟩ := hsound.swapped hswapping hfile hwal
      (by simpa [permits] using hpermits)
    exact ⟨hsound', hsound', fun _ => ⟨hswapping', files_set_self⟩⟩
  · intro error hpermits
    have hlive : disk.live = some disk.inUse := by simpa [permits] using hpermits
    obtain ⟨file, hfile⟩ := Option.ne_none_iff_exists'.mp hstaged
    obtain ⟨restore, -, hreplacing, -⟩ := hsound.waiting file hfile
    refine ⟨hsound, ?_⟩
    have hremove {after : Disk Rows} (hsound : after.Sound) (hlive : after.live = some after.inUse) :
        Holds (fun _ after => after.Sound ∧ after.Ready) (removeFile .marker) after :=
      holds_removeMarker (hsound.removeMarker (.inr hlive))
        ⟨hsound.removeMarker (.inr hlive), fun h => absurd files_set_self h⟩
    have hwrite {text : Text} (hstatus : statusOf text = "failed".toList) :
        Holds (fun _ after => after.Sound ∧ after.Ready)
          (write .outcome text >>= fun _ => removeFile .marker) disk := by
      have hwritten := hsound.tell (hreplacing.toldFailed hlive hstatus)
      apply holds_writeOutcome hsound hwritten
      rintro wrote after (rfl | rfl)
      · exact hremove hsound hlive
      · exact hremove hwritten ((live_set_of_ne (by decide) (by decide)).trans hlive)
    apply hwrite
    simp only [List.append_assoc]
    exact statusOf_failed _

theorem holds_applyStaged (hsound : disk.Sound)
    (hmarker : disk.files .marker ≠ none → disk.files .staged ≠ none) :
    Holds (fun _ after => after.Sound ∧ after.Ready) applyStaged disk := by
  have hstanding := hsound.standing
  apply holds_existsAt hsound
  · intro hstaged
    apply holds_existsAt hsound
    · intro hmarker
      have hswapping : disk.Swapping := by
        cases hstanding with
        | inUse hm _ => exact absurd hm hmarker
        | accepted hm _ _ _ => exact absurd hm hmarker
        | swapping h => exact h
        | undone h => exact absurd h.staged hstaged
      exact holds_swap hsound hswapping hstaged
    · intro hnone
      have hmarker : disk.files .marker = none := hnone.resolve_left (by decide)
      have hlive : disk.live = some disk.inUse := by
        cases hstanding with
        | inUse _ hl => exact hl
        | accepted _ hs _ _ => exact absurd hs hstaged
        | swapping h => exact absurd hmarker h.marker
        | undone h => exact absurd hmarker h.marker
      apply Keeps.bind (holds_beginSwap ⟨hsound, hmarker, hlive, hstaged⟩)
      rintro (_ | _) after ⟨hsound, hafter⟩
      · exact ⟨hsound, fun h => absurd hafter h⟩
      · exact holds_swap hsound hafter.1 hafter.2
  · intro hnone
    have hstaged : disk.files .staged = none := hnone.resolve_left (by decide)
    exact ⟨hsound, fun h => absurd hstaged (hmarker h)⟩

theorem holds_applyStagedRestore (hsound : disk.Sound) :
    Holds (fun _ after => after.Sound ∧ after.Ready) applyStagedRestore disk := by
  apply holds_existsAt hsound
  · intro hmarker
    apply holds_existsAt hsound
    · intro hstaged
      exact holds_applyStaged hsound fun _ => hstaged
    · intro hnone
      exact holds_undo hsound hmarker (hnone.resolve_left (by decide))
  · intro hnone
    exact holds_applyStaged hsound fun h => absurd (hnone.resolve_left (by decide)) h

/-! ## Once it is open -/

/-- The start is about to finish. -/
def Finished (disk : Disk Rows) : Prop :=
  disk.Sound ∧ disk.files .marker = none ∧ disk.files .outcome = none

theorem holds_accept (hsound : disk.Sound) (hswapping : disk.Swapping)
    (hstaged : disk.files .staged = none) :
    Holds (fun _ after => after.Sound ∧ after.files .marker = none) accept disk := by
  apply holds_readToString hsound
  intro marker
  have hon : (disk.set .marker none).OnRestored :=
    (hswapping.on hstaged).of rfl rfl (origin_set_of_ne (by decide) (by decide))
  replace hsound := hsound.removeMarker (.inl hstaged)
  apply holds_removeFile (.inl rfl) hsound
  apply holds_readToString hsound
  intro reason
  have hmarker : (disk.set .marker none).files .marker = none := files_set_self
  replace hstaged : (disk.set .marker none).files .staged = none := hstaged
  generalize disk.set .marker none = disk at *
  have hwrite {after : Disk Rows} (hsound : after.Sound) (hmarker : after.files .marker = none)
      (hstaged : after.files .staged = none) (hon : after.OnRestored) (message : Text) :
      Holds (fun _ after => after.Sound ∧ after.files .marker = none)
        (write .outcome ("ok\n".toList ++ message) >>= fun _ => pure ()) after := by
    obtain ⟨restore, hreplacing, horigin⟩ := hon
    have hwritten := hsound.tell
      (hreplacing.toldOk horigin hmarker hstaged (statusOf_ok message))
    apply holds_writeOutcome hsound hwritten
    rintro wrote after (rfl | rfl)
    · exact ⟨hsound, hmarker⟩
    · exact ⟨hwritten, hmarker⟩
  apply holds_removeFile_or hsound (hsound.setOther (.inr (.inr rfl)))
  rintro after (rfl | rfl)
  · exact hwrite hsound hmarker hstaged hon _
  · exact hwrite (hsound.setOther (.inr (.inr rfl))) hmarker hstaged
      (hon.of rfl rfl (origin_set_of_ne (by decide) (by decide))) _

/-- An outcome is read wherever there is one. -/
theorem holds_readOutcome {Result : Type} {Post : Result → Disk Rows → Prop}
    {next : Option Text → Start Result} (hsound : disk.Sound)
    (hsome : ∀ text, disk.files .outcome = some (.text text) → Holds Post (next (some text)) disk)
    (hnone : disk.files .outcome = none → Holds Post (next none) disk) :
    Holds Post (readToString .outcome >>= next) disk := by
  rintro (_ | error | _ | _ | _) answer after hpermits heffect
  · cases hfile : disk.files .outcome with
    | none =>
        simp only [effect, hfile, Option.some.injEq, Prod.mk.injEq] at heffect
        obtain ⟨rfl, rfl⟩ := heffect
        exact ⟨hsound, hnone hfile⟩
    | some file =>
        obtain ⟨text, -, rfl, -⟩ := hsound.told file hfile
        simp only [effect, hfile, Option.some.injEq, Prod.mk.injEq] at heffect
        obtain ⟨rfl, rfl⟩ := heffect
        exact ⟨hsound, hsome text hfile⟩
  · simp only [effect, Option.some.injEq, Prod.mk.injEq] at heffect
    obtain ⟨rfl, rfl⟩ := heffect
    exact ⟨hsound, hnone (by simpa [permits] using hpermits)⟩
  all_goals simp [effect] at heffect

/-- A setting is written into the database that is open. -/
theorem holds_record {Result : Type} {Post : Result → Disk Rows → Prop} {key value : Text}
    {next : Unit → Start Result} (hsound : disk.Sound) (hmarker : disk.files .marker = none)
    (htruthful : Recorded.Truthful ⟨key, value, disk.origin, disk.restore⟩)
    (hnext : ∀ after : Disk Rows, after.Sound → after.files .marker = none →
      Holds Post (next ()) after) :
    Holds Post (record key value >>= next) disk := by
  rintro (_ | error | _ | _ | ⟨rows, logged, opens⟩) answer after hpermits heffect
  · simp [effect] at heffect
  · simp only [effect, Option.some.injEq, Prod.mk.injEq] at heffect
    obtain ⟨-, rfl⟩ := heffect
    exact ⟨hsound, hnext _ hsound hmarker⟩
  · simp [effect] at heffect
  · simp [effect] at heffect
  · simp only [effect, Option.some.injEq, Prod.mk.injEq] at heffect
    obtain ⟨-, rfl⟩ := heffect
    have hused : (disk.used rows logged).Sound :=
      hsound.used fun h => absurd hmarker h
    have hafter := hused.record htruthful
    rw [fields_used.2] at hafter
    exact ⟨hafter, hnext _ hafter ((files_used (by decide) (by decide)).trans hmarker)⟩

/-- What the file says is recorded, and the file taken away. -/
theorem holds_recordOutcome {text : Text} (hsound : disk.Sound)
    (hmarker : disk.files .marker = none) (htext : disk.files .outcome = some (.text text)) :
    Holds (fun _ => Finished) (recordOutcome text) disk := by
  obtain ⟨_, restore, heq, htold⟩ := hsound.told _ htext
  cases heq
  apply holds_record hsound hmarker
  · exact fun _ => ⟨restore, htold.known, htold.tells.iff htold.apart⟩
  intro disk hsound hmarker
  apply holds_record hsound hmarker
  · exact fun h => absurd h (by decide : keyRestoreMessage ≠ keyRestoreOutcome)
  intro disk hsound hmarker
  have hremove {after : Disk Rows} (hsound : after.Sound) (hmarker : after.files .marker = none) :
      Holds (fun _ => Finished) (removeFile .outcome) after :=
    @holds_removeFile _ _ _ _ _ _ pure (.inr (.inr rfl)) hsound.removeOutcome
      ⟨hsound.removeOutcome, hmarker, files_set_self⟩
  rintro (_ | error | _ | time | _) answer after hpermits heffect
  iterate 3 · simp [effect] at heffect
  · simp only [effect, Option.some.injEq, Prod.mk.injEq] at heffect
    obtain ⟨rfl, rfl⟩ := heffect
    refine ⟨hsound, ?_⟩
    apply holds_record hsound hmarker
    · exact fun h => absurd h (by decide : keyRestoreAt ≠ keyRestoreOutcome)
    exact fun disk => hremove
  · simp [effect] at heffect

theorem holds_finishRestore (hsound : disk.Sound) (hready : disk.Ready) :
    Holds (fun _ => Finished) finishRestore disk := by
  apply holds_existsAt hsound
  · intro hmarker
    obtain ⟨hswapping, hstaged⟩ := hready hmarker
    apply Keeps.bind (holds_accept hsound hswapping hstaged)
    rintro - after ⟨hsound, hmarker⟩
    apply holds_readOutcome hsound
    · exact fun text => holds_recordOutcome hsound hmarker
    · exact fun hnone => ⟨hsound, hmarker, hnone⟩
  · intro hnone
    have hmarker := hnone.resolve_left (by decide)
    apply holds_readOutcome hsound
    · exact fun text => holds_recordOutcome hsound hmarker
    · exact fun hnone => ⟨hsound, hmarker, hnone⟩

theorem holds_start (hsound : disk.Sound) :
    Holds (fun opened after => after.Sound ∧ (opened = true → Finished after)) start disk := by
  apply Keeps.bind (holds_applyStagedRestore hsound)
  rintro - disk ⟨hsound, hready⟩
  rintro (_ | error | _ | _ | ⟨rows, logged, opens⟩) answer after hpermits heffect
  iterate 4 · simp [effect] at heffect
  · simp only [effect, Option.some.injEq, Prod.mk.injEq] at heffect
    obtain ⟨rfl, rfl⟩ := heffect
    refine ⟨hsound.used hready, ?_⟩
    cases opens with
    | false => exact ⟨hsound.used hready, by simp⟩
    | true =>
        apply Keeps.bind (holds_finishRestore (hsound.used hready) hready.used)
        exact fun _ after hfinished => ⟨hfinished.1, fun _ => hfinished⟩

end Start

/-! ## Every run -/

section Runs

open Disk

variable {disk : Disk Rows} {world next : World Rows}

omit [DecidableEq Rows] in
/-- A start finishes on the database that is in use from now on. -/
theorem Finished.finished (hfinished : Finished disk) :
    Finished disk.finished ∧ disk.finished.live = some disk.finished.inUse := by
  have hfinished' := hfinished
  obtain ⟨hsound, hmarker, houtcome⟩ := hfinished'
  cases hsound.standing with
  | inUse _ hlive =>
      have hsame : disk.finished = disk := by
        simp only [Disk.finished, hlive]
        split
        · next heq _ =>
            obtain rfl := Option.some.inj heq
            split <;> rfl
        · rfl
      rw [hsame]
      exact ⟨hfinished, hlive⟩
  | accepted _ hstaged _ hon =>
      obtain ⟨restore, hreplacing, horigin⟩ := hon
      obtain ⟨live, hlive, horigin⟩ := Option.map_eq_some_iff.mp horigin
      have hfinished : disk.finished = { disk with inUse := live } := by
        rw [Disk.finished, hlive, hreplacing.known]
        exact if_pos horigin
      rw [hfinished]
      refine ⟨⟨⟨.inUse hmarker hlive, ?_, ?_, hsound.recorded⟩, hmarker, houtcome⟩, hlive⟩
      · exact fun file hfile => absurd (hstaged.symm.trans hfile) (by simp)
      · exact fun file hfile => absurd (houtcome.symm.trans hfile) (by simp)
  | swapping h => exact absurd hmarker h.marker
  | undone h => exact absurd hmarker h.marker

/-- What holds of the process whenever it may die. -/
def World.Sound (world : World Rows) : Prop :=
  world.disk.Sound ∧ match world.phase with
    | .down => True
    | .starting rest =>
        Holds (fun opened after => after.Sound ∧ (opened = true → Finished after)) rest world.disk
    | .up => Finished world.disk ∧ world.disk.live = some world.disk.inUse

theorem sound_arrive {rest : Start Bool} (hsound : disk.Sound)
    (hrest : Holds (fun opened after => after.Sound ∧ (opened = true → Finished after)) rest disk) :
    (arrive rest disk).Sound := by
  cases rest with
  | call op next => exact ⟨hsound, hrest⟩
  | done opened =>
      cases opened with
      | false => exact ⟨hsound, trivial⟩
      | true =>
          have hfinished := (hrest.2 rfl).finished
          exact ⟨hfinished.1.1, hfinished⟩

theorem Finished.used (hfinished : Finished disk) (rows : Rows) (logged : Option (Rows → Rows)) :
    Finished (disk.used rows logged) :=
  ⟨hfinished.1.used fun h => absurd hfinished.2.1 h,
    (files_used (by decide) (by decide)).trans hfinished.2.1,
    (files_used (by decide) (by decide)).trans hfinished.2.2⟩

omit [DecidableEq Rows] in
/-- Another database is staged. -/
theorem Finished.stage {after : Disk Rows} {database : Database Rows} {reason : Option Text}
    (hfinished : Finished disk) (hlive : disk.live = some disk.inUse)
    (hstage : disk.stage database reason = some after) :
    Finished after ∧ after.live = some after.inUse := by
  obtain ⟨hsound, hmarker, houtcome⟩ := hfinished
  simp only [Disk.stage, hlive] at hstage
  split at hstage
  · simp at hstage
  next horigin =>
    let restore : Restore := ⟨disk.inUse.origin, database.origin⟩
    let staged : Disk Rows := Disk.set { disk with restore := some restore } .staged
      (some (.database database))
    have hlive' : staged.live = some staged.inUse :=
      (live_set_of_ne (by decide) (by decide)).trans hlive
    have hstaged : Finished staged := by
      refine ⟨⟨.inUse hmarker hlive', fun file hfile => ?_, ?_, hsound.recorded⟩, hmarker, houtcome⟩
      · refine ⟨restore, database, ⟨rfl, rfl, horigin⟩, ?_, rfl⟩
        exact (Option.some.inj (files_set_self.symm.trans hfile)).symm
      · exact fun file hfile => absurd (houtcome.symm.trans hfile) (by simp)
    obtain rfl := Option.some.inj hstage
    cases reason with
    | none => exact ⟨hstaged, hlive'⟩
    | some reason =>
        exact ⟨⟨hstaged.1.setOther (.inr (.inr rfl)), hmarker, houtcome⟩,
          (live_set_of_ne (by decide) (by decide)).trans hlive'⟩

/-- The actions a run may take: a start may meet what it is proof against. -/
def allowed (world : World Rows) : Action Rows → Prop
  | .advance choice =>
      match world.phase with
      | .starting rest =>
          Permitted (fun disk op choice => permits disk op choice = true) choice rest world.disk
      | _ => True
  | _ => True

theorem World.Sound.step {action : Action Rows} (hsound : world.Sound)
    (hallowed : allowed world action) (hstep : step world action = some next) : next.Sound := by
  obtain ⟨hdisk, hphase⟩ := hsound
  cases action with
  | boot =>
      simp only [Backup.step] at hstep
      split at hstep
      · obtain rfl := Option.some.inj hstep
        exact ⟨hdisk, holds_start hdisk⟩
      · simp at hstep
  | advance choice =>
      simp only [Backup.step] at hstep
      split at hstep
      · next rest hrest =>
          simp only [allowed, hrest] at hallowed hphase
          obtain ⟨⟨rest', disk'⟩, hadvance, rfl⟩ := Option.map_eq_some_iff.mp hstep
          obtain ⟨hsound, hkeeps⟩ := Keeps.advance hphase hallowed hadvance
          exact sound_arrive hsound hkeeps
      · simp at hstep
  | die =>
      obtain rfl := Option.some.inj hstep
      exact ⟨hdisk, trivial⟩
  | stage database reason =>
      simp only [Backup.step] at hstep
      split at hstep
      · next hup =>
          simp only [hup] at hphase
          obtain ⟨disk, hstage, rfl⟩ := Option.map_eq_some_iff.mp hstep
          have hstaged := hphase.1.stage hphase.2 hstage
          exact ⟨hstaged.1.1, by simpa only [hup] using hstaged⟩
      · simp at hstep
  | use rows logged =>
      simp only [Backup.step] at hstep
      split at hstep
      · next hup =>
          simp only [hup] at hphase
          obtain rfl := Option.some.inj hstep
          have hused := hphase.1.used rows logged
          exact ⟨hused.1, by simpa only [hup] using ⟨hused, live_used_inUse hphase.2⟩⟩
      · simp at hstep

/-- A process that has never restored anything. -/
structure World.Fresh (world : World Rows) : Prop where
  phase : world.phase = .down
  live : world.disk.live = some world.disk.inUse
  marker : world.disk.files .marker = none
  staged : world.disk.files .staged = none
  outcome : world.disk.files .outcome = none
  recorded : world.disk.recorded = []

omit [DecidableEq Rows] in
/-- No database is lost, what is in use is not undone, and what is recorded is what
became of the restore. -/
structure World.Kept (world : World Rows) : Prop where
  whole : world.disk.live = some world.disk.inUse ∨
    world.disk.files .before = some (.database world.disk.inUse)
  accepted : world.phase = .up → world.disk.files .marker = none
  truthful : ∀ recorded ∈ world.disk.recorded, recorded.Truthful

theorem World.Sound.kept (hsound : world.Sound) : world.Kept := by
  obtain ⟨hdisk, hphase⟩ := hsound
  refine ⟨?_, fun hup => ?_, hdisk.recorded⟩
  · cases hdisk.standing with
    | inUse _ hl => exact .inl hl
    | accepted _ _ hb _ => exact .inr hb
    | swapping h => exact .inr h.before
    | undone h => exact .inl h.live
  · simp only [hup] at hphase
    exact hphase.1.2.1

/-- Wherever the process dies, and whatever else fails. -/
theorem restore_keeps {start : World Rows} (hfresh : start.Fresh)
    (run : Run step allowed start world) : world.Kept := by
  have hstart : start.Sound := by
    refine ⟨⟨.inUse hfresh.marker hfresh.live, fun file hfile => ?_, fun file hfile => ?_, ?_⟩, ?_⟩
    · exact absurd (hfresh.staged.symm.trans hfile) (by simp)
    · exact absurd (hfresh.outcome.symm.trans hfile) (by simp)
    · simp [hfresh.recorded]
    · simp [hfresh.phase]
  have hworld : world.Sound := by
    apply run.invariant World.Sound _ hstart
    intro world action next hsound hallowed hstep
    exact hsound.step hallowed hstep
  exact hworld.kept

instance : ∀ (world : World Rows) (action : Action Rows), Decidable (allowed world action)
  | ⟨disk, .starting rest⟩, .advance choice =>
      inferInstanceAs (Decidable
        (Permitted (fun disk op choice => permits disk op choice = true) choice rest disk))
  | ⟨_, .down⟩, .advance _ | ⟨_, .up⟩, .advance _ => .isTrue trivial
  | _, .boot | _, .die | _, .stage _ _ | _, .use _ _ => .isTrue trivial

def World.isUp (world : World Rows) : Bool :=
  match world.phase with
  | .up => true
  | _ => false

end Runs

/-! ## A restore -/

/-- A database in use, and nothing beside it. -/
def soleDatabase : World ℕ where
  disk :=
    { files := fun path => if path = .db then some (.database ⟨0, 7⟩) else none
      inUse := ⟨0, 7⟩
      restore := none
      recorded := [] }
  phase := .down

theorem fresh_soleDatabase : soleDatabase.Fresh where
  phase := rfl
  live := rfl
  marker := rfl
  staged := rfl
  outcome := rfl
  recorded := rfl

/-- The first start, a snapshot staged, and the start that restores it up to the
removal of the marker. -/
def restoring (removal : Choice ℕ) : List (Action ℕ) :=
  [.boot, .advance .works, .advance .works, .advance (.writes 7 none true), .advance .works,
    .advance .works, .stage ⟨1, 9⟩ none, .die, .boot, .advance .works, .advance .works,
    .advance .works, .advance .works, .advance .works, .advance .works, .advance .works,
    .advance .works, .advance .works, .advance (.answers (some "0.14.0".toList)),
    .advance .works, .advance .works, .advance .works, .advance .works,
    .advance (.writes 9 none true), .advance .works, .advance .works, .advance removal,
    .advance .works, .advance .works, .advance .works, .advance .works,
    .advance (.writes 9 none true), .advance (.writes 9 none true), .advance (.answers none),
    .advance (.writes 9 none true), .advance .works]

theorem restore_keeps_of_restore : ∃ world, Run step allowed soleDatabase world ∧
    world.disk.live = some ⟨1, 9⟩ ∧ world.disk.recorded.map (·.value) ≠ [] ∧ world.Kept := by
  obtain ⟨world, run, hworld⟩ := exists_run_of_exec step soleDatabase
    (fun world action => decide (allowed world action)) (restoring .works)
    (fun world => decide (world.disk.live = some ⟨1, 9⟩ ∧
      world.disk.recorded.map (·.value) ≠ []))
    (fun _ _ h => of_decide_eq_true h) (by decide +kernel)
  obtain ⟨hlive, hrecorded⟩ := of_decide_eq_true hworld
  exact ⟨world, run, hlive, hrecorded, restore_keeps fresh_soleDatabase run⟩

/-- A marker that cannot be removed is found by the next start, which puts back the
database that was replaced. -/
theorem marker_stays : ¬ ∀ start world : World ℕ, start.Fresh →
    Run step anything start world → world.Kept := by
  intro hkept
  obtain ⟨world, run, hworld⟩ := exists_run_of_exec step soleDatabase (fun _ _ => true)
    (restoring (.fails "Permission denied".toList))
    (fun world => world.isUp && (world.disk.files .marker).isSome)
    (fun _ _ _ => trivial) (by decide +kernel)
  have hworld' := (hkept soleDatabase world fresh_soleDatabase run).accepted
  rw [Bool.and_eq_true] at hworld
  obtain ⟨hup, hmarker⟩ := hworld
  have hphase : world.phase = .up := by
    rw [World.isUp] at hup
    split at hup
    · assumption
    · simp at hup
  simp [hworld' hphase] at hmarker

end EasyWaf.Backup
