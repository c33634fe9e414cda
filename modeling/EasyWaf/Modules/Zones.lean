import EasyWaf.Modules.Targets

/-!
# Zones as they are shown

The interface and an export write a zone in one spelling.  What the parser makes
of a part of a zone depends on its kind in capitals and its name without blanks
around it, and these are what the spelling is made of.
-/

namespace EasyWaf.Modules

/-- What a part of a zone says: its kind in capitals and the name after its colon. -/
def partForm (part : Text) : Text × Option Text :=
  match Text.splitOnce ':' part with
  | some (kind, name) => (kind.trim.toAsciiUppercase, some name.trim)
  | none => (part.trim.toAsciiUppercase, none)

/-- A part of a zone as `canonical` writes it. -/
def canonicalPart (part : Text) : Text :=
  match Text.splitOnce ':' part.trim with
  | some (kind, name) => kind.trim.toAsciiUppercase ++ ':' :: name.trim
  | none => part.trim.toAsciiUppercase

variable (libraries : Libraries)

/-- A zone written the way the interface and an export show it. -/
def canonical (zone : Text) : Option Text :=
  (parseZone libraries zone).map fun _ =>
    Text.join ['|'] ((zone.splitOn '|').map canonicalPart)

/-- The zone a kind and a name stand for. -/
def ofForm (form : Text × Option Text) : Option Target :=
  match form.2, Target.plain.lookup form.1 with
  | none, some target => some target
  | _, _ => do
      let (header, target) ← Target.nameable.lookup form.1
      let name ← named libraries form.2 header
      return target name

section Capitals

variable {c d : Char} {text : Text}

theorem not_isWhitespace_of_isAlpha (hc : c.isAlpha = true) : Text.isWhitespace c = false := by
  have hcode : 65 ≤ c.toNat ∧ c.toNat ≤ 122 := by
    simp only [Char.isAlpha, Char.isUpper, Char.isLower, Bool.or_eq_true, Bool.and_eq_true,
      decide_eq_true_eq, ge_iff_le, UInt32.le_iff_toNat_le] at hc
    have hval : c.val.toNat = c.toNat := rfl
    rw [hval] at hc
    rcases hc with ⟨hlow, hhigh⟩ | ⟨hlow, hhigh⟩
    · exact ⟨hlow, hhigh.trans (by decide)⟩
    · exact ⟨le_trans (by decide) hlow, hhigh⟩
  simp only [Text.isWhitespace, Bool.or_eq_false_iff, Bool.and_eq_false_iff, decide_eq_false_iff_not,
    beq_eq_false_iff_ne]
  omega

theorem isWhitespace_toUpper (c : Char) : Text.isWhitespace c.toUpper = Text.isWhitespace c := by
  by_cases hlower : c.isLower = true
  · have halpha : c.isAlpha = true := by rw [Char.isAlpha, hlower, Bool.or_true]
    rw [not_isWhitespace_of_isAlpha halpha,
      not_isWhitespace_of_isAlpha (by rwa [Char.isAlpha_toUpper_eq_isAlpha])]
  · rw [Char.toUpper_eq_of_not_isLower hlower]

theorem toUpper_eq_iff (hd : d.isAlpha = false) : c.toUpper = d ↔ c = d := by
  by_cases hlower : c.isLower = true
  · have halpha : c.isAlpha = true := by rw [Char.isAlpha, hlower, Bool.or_true]
    constructor
    · rintro rfl
      rw [Char.isAlpha_toUpper_eq_isAlpha, halpha] at hd
      contradiction
    · rintro rfl
      rw [halpha] at hd
      contradiction
  · rw [Char.toUpper_eq_of_not_isLower hlower]

theorem mem_toAsciiUppercase_iff (hd : d.isAlpha = false) :
    d ∈ text.toAsciiUppercase ↔ d ∈ text := by
  simp only [Text.toAsciiUppercase, List.mem_map, toUpper_eq_iff hd, exists_eq_right]

theorem toAsciiUppercase_twice (text : Text) :
    text.toAsciiUppercase.toAsciiUppercase = text.toAsciiUppercase := by
  rw [Text.toAsciiUppercase, Text.toAsciiUppercase, List.map_map]
  exact List.map_congr_left fun c _ => Char.toUpper_toUpper_eq_toUpper c

theorem trim_toAsciiUppercase (text : Text) :
    text.toAsciiUppercase.trim = text.trim.toAsciiUppercase := by
  have hblank : Text.isWhitespace ∘ Char.toUpper = Text.isWhitespace := funext isWhitespace_toUpper
  rw [Text.trim_eq, Core.trim, Core.trim, Text.toAsciiUppercase, List.dropWhile_map, hblank,
    List.rdropWhile, ← List.map_reverse, List.dropWhile_map, hblank, ← List.map_reverse]
  rfl

end Capitals

section Forms

variable {text space : Text} {a : Char} {rest : Text}

theorem isAlpha_of_blank {c : Char} (hc : Text.isWhitespace c = true) : c ≠ ':' := by
  rintro rfl
  contradiction

theorem partForm_of_notMem (hcolon : ':' ∉ text) :
    partForm text = (text.trim.toAsciiUppercase, none) := by
  rw [partForm, Text.splitOnce_eq_none_iff.mpr hcolon]

theorem partForm_append_cons {kind name : Text} (hcolon : ':' ∉ kind) :
    partForm (kind ++ ':' :: name) = (kind.trim.toAsciiUppercase, some name.trim) := by
  rw [partForm, Text.splitOnce_append hcolon]

theorem partForm_append_left (hspace : ∀ c ∈ space, Text.isWhitespace c) :
    partForm (space ++ text) = partForm text := by
  have hnot : ':' ∉ space := Core.not_mem_of_blank (by decide) hspace
  by_cases hcolon : ':' ∈ text
  · obtain ⟨kind, name, rfl, hkind⟩ := List.eq_append_cons_of_mem hcolon
    rw [← List.append_assoc, partForm_append_cons (by simp [hnot, hkind]),
      partForm_append_cons hkind, Text.trim_eq, Core.trim_append_left hspace]
  · rw [partForm_of_notMem hcolon, partForm_of_notMem (by simp [hnot, hcolon]), Text.trim_eq,
      Core.trim_append_left hspace]

theorem partForm_append_right (hspace : ∀ c ∈ space, Text.isWhitespace c) :
    partForm (text ++ space) = partForm text := by
  have hnot : ':' ∉ space := Core.not_mem_of_blank (by decide) hspace
  by_cases hcolon : ':' ∈ text
  · obtain ⟨kind, name, rfl, hkind⟩ := List.eq_append_cons_of_mem hcolon
    rw [List.append_assoc, List.cons_append, partForm_append_cons hkind,
      partForm_append_cons hkind, Text.trim_eq, Core.trim_append_right hspace]
  · rw [partForm_of_notMem hcolon, partForm_of_notMem (by simp [hnot, hcolon]), Text.trim_eq,
      Core.trim_append_right hspace]

theorem partForm_trim (text : Text) : partForm text.trim = partForm text := by
  obtain ⟨before, after, htext, hbefore, hafter⟩ :=
    Core.exists_append_trim Text.isWhitespace text
  conv_rhs => rw [htext]
  rw [partForm_append_right hafter, partForm_append_left hbefore]
  rfl

theorem canonicalPart_of_notMem (hcolon : ':' ∉ text) :
    canonicalPart text = text.trim.toAsciiUppercase := by
  have hnot : ':' ∉ text.trim := fun hmem => hcolon (Text.mem_of_mem_trim hmem)
  rw [canonicalPart, Text.splitOnce_eq_none_iff.mpr hnot]

/-- The spelling is that of the form. -/
theorem canonicalPart_eq (text : Text) : canonicalPart text =
    (partForm text).2.elim (partForm text).1 fun name => (partForm text).1 ++ ':' :: name := by
  rw [← partForm_trim, canonicalPart, partForm]
  cases Text.splitOnce ':' text.trim with
  | none =>
      dsimp only [Option.elim]
      rw [Text.trim_trim]
  | some split => rfl

theorem partForm_canonicalPart (text : Text) : partForm (canonicalPart text) = partForm text := by
  rw [canonicalPart_eq]
  by_cases hcolon : ':' ∈ text
  · obtain ⟨kind, name, rfl, hkind⟩ := List.eq_append_cons_of_mem hcolon
    have hupper : ':' ∉ (Text.trim kind).toAsciiUppercase := fun hmem =>
      hkind (Text.mem_of_mem_trim ((mem_toAsciiUppercase_iff (by decide)).mp hmem))
    rw [partForm_append_cons hkind]
    dsimp only [Option.elim]
    rw [partForm_append_cons hupper, trim_toAsciiUppercase, Text.trim_trim, toAsciiUppercase_twice,
      Text.trim_trim]
  · have hupper : ':' ∉ text.trim.toAsciiUppercase := fun hmem =>
      hcolon (Text.mem_of_mem_trim ((mem_toAsciiUppercase_iff (by decide)).mp hmem))
    rw [partForm_of_notMem hcolon]
    dsimp only [Option.elim]
    rw [partForm_of_notMem hupper, trim_toAsciiUppercase, Text.trim_trim, toAsciiUppercase_twice]

theorem canonicalPart_twice (text : Text) :
    canonicalPart (canonicalPart text) = canonicalPart text := by
  rw [canonicalPart_eq (canonicalPart text), partForm_canonicalPart, ← canonicalPart_eq]

theorem bar_notMem_canonicalPart (hbar : '|' ∉ text) : '|' ∉ canonicalPart text := by
  have htrim {part : Text} (hpart : '|' ∉ part) : '|' ∉ part.trim :=
    fun hmem => hpart (Text.mem_of_mem_trim hmem)
  have hupper {part : Text} (hpart : '|' ∉ part) : '|' ∉ part.trim.toAsciiUppercase := fun hmem =>
    htrim hpart ((mem_toAsciiUppercase_iff (by decide)).mp hmem)
  by_cases hcolon : ':' ∈ text
  · obtain ⟨kind, name, rfl, hkind⟩ := List.eq_append_cons_of_mem hcolon
    simp only [List.mem_append, List.mem_cons, not_or] at hbar
    rw [canonicalPart_eq, partForm_append_cons hkind]
    simp only [Option.elim, List.mem_append, List.mem_cons, not_or]
    exact ⟨hupper hbar.1, hbar.2.1, htrim hbar.2.2⟩
  · rw [canonicalPart_of_notMem hcolon]
    exact hupper hbar

/-- A text that begins with what is not blank is trimmed at its end. -/
theorem exists_trim_cons (ha : Text.isWhitespace a = false) (rest : Text) :
    ∃ kept after : Text, rest = kept ++ after ∧ (∀ c ∈ after, Text.isWhitespace c) ∧
      Text.trim (a :: rest) = a :: kept := by
  refine ⟨rest.rdropWhile Text.isWhitespace, rest.rtakeWhile Text.isWhitespace,
    List.rdropWhile_append_rtakeWhile.symm, fun c hc => List.mem_rtakeWhile_imp hc, ?_⟩
  have hsplit : a :: rest = (a :: rest.rdropWhile Text.isWhitespace) ++
      rest.rtakeWhile Text.isWhitespace := by
    rw [List.cons_append, List.rdropWhile_append_rtakeWhile]
  rw [hsplit, Text.trim_eq, Core.trim_append_right fun c hc => List.mem_rtakeWhile_imp hc]
  apply Core.trim_eq_self
  · intro c hc
    rwa [← Option.some.inj hc]
  · intro c hc
    by_cases hnil : rest.rdropWhile Text.isWhitespace = []
    · rw [hnil] at hc
      rwa [← Option.some.inj hc]
    · rw [List.getLast?_cons_of_ne_nil hnil, List.getLast?_eq_some_getLast hnil] at hc
      rw [← Option.some.inj hc, ← Bool.not_eq_true]
      exact List.rdropWhile_last_not _ _ hnil

/-- After a `&` or a `!` stands what the part after it is written as. -/
theorem exists_canonicalPart_cons (ha : Text.isWhitespace a = false) (hcolon : a ≠ ':')
    (hupper : a.toUpper = a) (htrim : text.trim = a :: rest) :
    ∃ written, canonicalPart text = a :: written ∧ partForm written = partForm rest := by
  rw [canonicalPart, htrim]
  by_cases hmem : ':' ∈ rest
  · obtain ⟨kind, name, rfl, hkind⟩ := List.eq_append_cons_of_mem hmem
    obtain ⟨kept, after, rfl, hafter, hkept⟩ := exists_trim_cons ha kind
    have hnot : ':' ∉ a :: (kept ++ after) := by
      rw [List.mem_cons, not_or]
      exact ⟨hcolon.symm, hkind⟩
    have hkeptColon : ':' ∉ kept.map Char.toUpper := fun hmem =>
      hkind (List.mem_append_left _ ((mem_toAsciiUppercase_iff (by decide)).mp hmem))
    rw [← List.cons_append, Text.splitOnce_append hnot]
    dsimp only
    rw [hkept]
    refine ⟨kept.map Char.toUpper ++ ':' :: Text.trim name, ?_, ?_⟩
    · rw [Text.toAsciiUppercase, List.map_cons, hupper, List.cons_append]
    · rw [partForm_append_cons hkeptColon, partForm_append_cons hkind, Text.trim_trim,
        ← Text.toAsciiUppercase, trim_toAsciiUppercase, toAsciiUppercase_twice, Text.trim_eq,
        Core.trim_append_right hafter]
  · have hnot : ':' ∉ a :: rest := by
      rw [List.mem_cons, not_or]
      exact ⟨hcolon.symm, hmem⟩
    have hrest : ':' ∉ Text.toAsciiUppercase rest := fun h =>
      hmem ((mem_toAsciiUppercase_iff (by decide)).mp h)
    rw [Text.splitOnce_eq_none_iff.mpr hnot]
    dsimp only
    refine ⟨Text.toAsciiUppercase rest, ?_, ?_⟩
    · rw [Text.toAsciiUppercase, List.map_cons, hupper]
      rfl
    · rw [partForm_of_notMem hrest, partForm_of_notMem hmem, trim_toAsciiUppercase,
        toAsciiUppercase_twice]

end Forms

section Kinds

variable {form : Text × Option Text} {target : Target}

/-- The kinds of zones. -/
def kinds : List Text := Target.plain.map Prod.fst ++ Target.nameable.map Prod.fst

theorem fst_mem_of_lookup {β : Type*} {rows : List (Text × β)} {kind : Text} {value : β}
    (hlookup : rows.lookup kind = some value) : kind ∈ rows.map Prod.fst := by
  obtain ⟨before, after, rfl, -⟩ := List.lookup_eq_some_iff.mp hlookup
  simp

theorem snd_mem_of_lookup {β : Type*} {rows : List (Text × β)} {kind : Text} {value : β}
    (hlookup : rows.lookup kind = some value) : value ∈ rows.map Prod.snd := by
  obtain ⟨before, after, rfl, -⟩ := List.lookup_eq_some_iff.mp hlookup
  simp

/-- A zone that is read is one of the plain ones, or one that may have a name. -/
theorem ofForm_eq_some (hform : ofForm libraries form = some target) :
    form.1 ∈ kinds ∧ (target ∈ Target.plain.map Prod.snd ∨
      ∃ make ∈ Target.nameable.map fun row => row.2.2, ∃ name, target = make name) := by
  have hnameable (hbind : (do
      let (header, target) ← Target.nameable.lookup form.1
      let name ← named libraries form.2 header
      return target name) = some target) : form.1 ∈ kinds ∧
        ∃ make ∈ Target.nameable.map fun row => row.2.2, ∃ name, target = make name := by
    obtain ⟨⟨header, make⟩, hlookup, hbind⟩ := Option.bind_eq_some_iff.mp hbind
    obtain ⟨name, -, hname⟩ := Option.bind_eq_some_iff.mp hbind
    have hmake : make ∈ Target.nameable.map fun row => row.2.2 := by
      have := snd_mem_of_lookup hlookup
      exact List.mem_map_of_mem this
    exact ⟨List.mem_append_right _ (fst_mem_of_lookup hlookup), make, hmake, name,
      (Option.some.inj hname).symm⟩
  rw [ofForm] at hform
  split at hform
  · rename_i plain hname hlookup
    obtain rfl := Option.some.inj hform
    exact ⟨List.mem_append_left _ (fst_mem_of_lookup hlookup), Or.inl (snd_mem_of_lookup hlookup)⟩
  · exact (hnameable hform).imp_right Or.inr

theorem ofForm_ne (hform : ofForm libraries form = some target) :
    (∀ inner, target ≠ .count inner) ∧ (∀ inner, target ≠ .except inner) ∧ target ≠ .matched := by
  rcases (ofForm_eq_some libraries hform).2 with hplain | ⟨make, hmake, name, rfl⟩
  · simp only [Target.plain, List.map_cons, List.map_nil, List.mem_cons, List.not_mem_nil,
      or_false] at hplain
    rcases hplain with rfl | rfl | rfl | rfl | rfl | rfl | rfl | rfl | rfl | rfl | rfl | rfl | rfl |
      rfl | rfl | rfl | rfl <;> simp
  · simp only [Target.nameable, List.map_cons, List.map_nil, List.mem_cons, List.not_mem_nil,
      or_false] at hmake
    rcases hmake with rfl | rfl | rfl | rfl | rfl | rfl <;> simp

/-- The kinds are words: no sign stands in front of one. -/
theorem head_of_mem_kinds {kind : Text} (hkind : kind ∈ kinds) :
    ∃ c rest, kind = c :: rest ∧ c ≠ '&' ∧ c ≠ '!' := by
  have hall : kinds.all (fun kind => kind.head?.any fun c => c != '&' && c != '!') = true := by
    decide +kernel
  have hhead := List.all_eq_true.mp hall kind hkind
  cases kind with
  | nil => contradiction
  | cons c rest =>
      simp only [List.head?_cons, Option.any_some, Bool.and_eq_true, bne_iff_ne, ne_eq] at hhead
      exact ⟨c, rest, rfl, hhead.1, hhead.2⟩

theorem matched_notMem_kinds : "MATCHED".toList ∉ kinds := by
  have hall : kinds.contains "MATCHED".toList = false := by decide +kernel
  simpa using hall

end Kinds

section Parts

/-- What a part of a zone reads. -/
inductive Reads : Text → Target → Prop
  | one {part : Text} {target : Target} : ofForm libraries (partForm part) = some target →
      Reads part target
  | count {part rest : Text} {target : Target} : part.trim = '&' :: rest → '|' ∉ rest →
      ofForm libraries (partForm rest) = some target → target.uncountable = false →
      Reads part (.count target)
  | except {part rest : Text} {target : Target} : part.trim = '!' :: rest → '|' ∉ rest →
      ofForm libraries (partForm rest) = some target → target.name ≠ none →
      Reads part (.except target)

variable {libraries} {part rest : Text} {target : Target} {a : Char}

theorem partForm_of_trim_cons (ha : Text.isWhitespace a = false) (hcolon : a ≠ ':')
    (hupper : a.toUpper = a) (htrim : part.trim = a :: rest) :
    (partForm part).1.head? = some a := by
  obtain ⟨written, hwritten, -⟩ := exists_canonicalPart_cons ha hcolon hupper htrim
  rw [canonicalPart_eq] at hwritten
  cases hname : (partForm part).2 with
  | none =>
      rw [hname] at hwritten
      exact congrArg List.head? hwritten
  | some name =>
      rw [hname] at hwritten
      cases hkind : (partForm part).1 with
      | nil =>
          rw [hkind] at hwritten
          exact absurd (List.cons.inj hwritten).1.symm hcolon
      | cons c kind =>
          rw [hkind] at hwritten
          exact congrArg some (List.cons.inj hwritten).1

/-- A sign that stands in front of a zone. -/
theorem sign_facts (ha : a = '&' ∨ a = '!') :
    Text.isWhitespace a = false ∧ a ≠ ':' ∧ a.toUpper = a := by
  rcases ha with rfl | rfl
  · decide
  · decide

/-- A part with a sign in front is not one zone. -/
theorem ofForm_of_trim_cons (ha : a = '&' ∨ a = '!') (htrim : part.trim = a :: rest) :
    ofForm libraries (partForm part) = none := by
  obtain ⟨hblank, hcolon, hupper⟩ := sign_facts ha
  have hhead := partForm_of_trim_cons hblank hcolon hupper htrim
  cases hform : ofForm libraries (partForm part) with
  | none => rfl
  | some target =>
      obtain ⟨c, kind, hkind, hcount, hexcept⟩ :=
        head_of_mem_kinds (ofForm_eq_some libraries hform).1
      rw [hkind] at hhead
      rcases ha with rfl | rfl
      · exact absurd (Option.some.inj hhead) hcount
      · exact absurd (Option.some.inj hhead) hexcept

/-- Behind its sign a part is spelt as the part after the sign. -/
theorem exists_trim_canonicalPart (ha : a = '&' ∨ a = '!') (htrim : part.trim = a :: rest)
    (hbar : '|' ∉ rest) : ∃ written, (canonicalPart part).trim = a :: written ∧ '|' ∉ written ∧
      partForm written = partForm rest := by
  obtain ⟨hblank, hcolon, hupper⟩ := sign_facts ha
  obtain ⟨written, hwritten, hform⟩ := exists_canonicalPart_cons hblank hcolon hupper htrim
  obtain ⟨kept, after, rfl, hafter, hkept⟩ := exists_trim_cons hblank written
  have hpart : '|' ∉ part.trim := by
    rw [htrim, List.mem_cons, not_or]
    exact ⟨by rcases ha with rfl | rfl <;> decide, hbar⟩
  have hspelt : '|' ∉ canonicalPart part := by
    have hsame : canonicalPart part = canonicalPart part.trim := by
      rw [canonicalPart_eq, canonicalPart_eq, partForm_trim]
    rw [hsame]
    exact bar_notMem_canonicalPart hpart
  rw [hwritten] at hspelt
  refine ⟨kept, by rw [hwritten, hkept], fun hmem => hspelt ?_, ?_⟩
  · exact List.mem_cons_of_mem a (List.mem_append_left after hmem)
  · rw [← hform, partForm_append_right hafter]

/-- The spelling of a part reads what the part reads. -/
theorem Reads.canonicalPart (hreads : Reads libraries part target) :
    Reads libraries (canonicalPart part) target := by
  cases hreads with
  | one hform => exact .one (by rwa [partForm_canonicalPart])
  | count htrim hbar hform hcountable =>
      obtain ⟨written, hwritten, hnot, hsame⟩ :=
        exists_trim_canonicalPart (Or.inl rfl) htrim hbar
      exact .count hwritten hnot (hsame ▸ hform) hcountable
  | except htrim hbar hform hname =>
      obtain ⟨written, hwritten, hnot, hsame⟩ :=
        exists_trim_canonicalPart (Or.inr rfl) htrim hbar
      exact .except hwritten hnot (hsame ▸ hform) hname

variable {inner : Text → Option (List Target)}

/-- A part without a sign is read by its form. -/
theorem parsePart_of_plain (hcount : ∀ rest, part.trim ≠ '&' :: rest)
    (hexcept : ∀ rest, part.trim ≠ '!' :: rest) :
    parsePart libraries inner part.trim = ofForm libraries (partForm part) := by
  have hform : partForm part = partForm part.trim := (partForm_trim part).symm
  unfold parsePart
  split
  · next rest htrim => exact absurd htrim (hcount rest)
  · next rest htrim => exact absurd htrim (hexcept rest)
  · rw [hform, partForm]
    cases hsplit : Text.splitOnce ':' part.trim with
    | none =>
        dsimp only
        rw [Text.trim_trim]
        rfl
    | some split => rfl

theorem parsePart_count_iff : parsePart libraries inner ('&' :: rest) = some target ↔
    ∃ targets counted, inner rest = some targets ∧ targets.getLast? = some counted ∧
      '|' ∉ rest ∧ counted.uncountable = false ∧ target = .count counted := by
  rw [parsePart]
  simp only [Option.bind_eq_bind, Option.bind_eq_some_iff]
  constructor
  · rintro ⟨targets, hinner, counted, hlast, hif⟩
    split at hif
    · contradiction
    · next hfits =>
        rw [not_or, Bool.not_eq_true] at hfits
        exact ⟨targets, counted, hinner, hlast, hfits.1, hfits.2, (Option.some.inj hif).symm⟩
  · rintro ⟨targets, counted, hinner, hlast, hbar, hcountable, rfl⟩
    refine ⟨targets, hinner, counted, hlast, if_neg ?_⟩
    rw [not_or, Bool.not_eq_true]
    exact ⟨hbar, hcountable⟩

theorem parsePart_except_iff : parsePart libraries inner ('!' :: rest) = some target ↔
    ∃ targets named, inner rest = some targets ∧ targets.getLast? = some named ∧
      '|' ∉ rest ∧ named.name ≠ none ∧ target = .except named := by
  rw [parsePart]
  simp only [Option.bind_eq_bind, Option.bind_eq_some_iff]
  constructor
  · rintro ⟨targets, hinner, named, hlast, hif⟩
    split at hif
    · contradiction
    · next hfits =>
        rw [not_or] at hfits
        exact ⟨targets, named, hinner, hlast, hfits.2, hfits.1, (Option.some.inj hif).symm⟩
  · rintro ⟨targets, named, hinner, hlast, hbar, hname, rfl⟩
    exact ⟨targets, hinner, named, hlast, if_neg (not_or.mpr ⟨hname, hbar⟩)⟩

theorem mapM_eq_some_iff {α β : Type*} {f : α → Option β} {list : List α} {results : List β} :
    list.mapM f = some results ↔ List.Forall₂ (fun a b => f a = some b) list results := by
  induction list generalizing results with
  | nil =>
      rw [List.mapM_nil, List.forall₂_nil_left_iff]
      exact ⟨fun h => (Option.some.inj h).symm, fun h => h ▸ rfl⟩
  | cons a list ih =>
      rw [List.mapM_cons, List.forall₂_cons_left_iff]
      simp only [Option.bind_eq_bind, Option.bind_eq_some_iff, Option.pure_def, Option.some.injEq, ih]
      constructor
      · rintro ⟨b, hb, rest, hrest, rfl⟩
        exact ⟨b, rest, hb, hrest, rfl⟩
      · rintro ⟨b, rest, hb, hrest, rfl⟩
        exact ⟨b, hb, rest, hrest, rfl⟩

/-- The targets in order, each once. -/
def eachOnce (targets : List Target) : List Target :=
  targets.foldl (fun out target => if out.contains target then out else out ++ [target]) []

/-- What a zone other than `MATCHED` reads. -/
theorem parseZoneWithin_eq_some_iff {depth : ℕ} {zone : Text} {targets : List Target}
    (hzone : zone.trim.eqIgnoreAsciiCase "MATCHED".toList = false) :
    parseZoneWithin libraries (depth + 1) zone = some targets ↔
      ∃ read, List.Forall₂ (fun part target =>
          parsePart libraries (parseZoneWithin libraries depth) (Text.trim part) = some target)
            (zone.splitOn '|') read ∧
        ((eachOnce read).any fun target => !target.isExcept) = true ∧ eachOnce read = targets := by
  rw [parseZoneWithin, if_neg (by rw [hzone]; exact Bool.false_ne_true)]
  simp only [Option.bind_eq_bind, Option.bind_eq_some_iff, mapM_eq_some_iff]
  refine exists_congr fun read => and_congr_right fun _ => ?_
  change (if ((eachOnce read).any fun target => !target.isExcept) = true then some (eachOnce read)
    else none) = some targets ↔ _
  split
  · next hany => simp [hany]
  · next hany => simp [hany]

theorem parseZoneWithin_of_matched {depth : ℕ} {zone : Text}
    (hzone : zone.trim.eqIgnoreAsciiCase "MATCHED".toList = true) :
    parseZoneWithin libraries (depth + 1) zone = some [.matched] := by
  rw [parseZoneWithin, if_pos hzone]

/-- What a zone after a sign reads, where it is a zone that a sign may stand before. -/
theorem ofForm_of_parseZoneWithin {depth : ℕ} {zone : Text} {targets : List Target}
    (hbar : '|' ∉ zone) (hzone : parseZoneWithin libraries (depth + 1) zone = some targets)
    (hlast : targets.getLast? = some target) (hmatched : target ≠ .matched)
    (hcount : ∀ inner, target ≠ .count inner) (hexcept : ∀ inner, target ≠ .except inner) :
    ofForm libraries (partForm zone) = some target := by
  cases heq : zone.trim.eqIgnoreAsciiCase "MATCHED".toList with
  | true =>
      rw [parseZoneWithin_of_matched heq] at hzone
      obtain rfl := Option.some.inj hzone
      exact absurd (Option.some.inj hlast).symm hmatched
  | false =>
      obtain ⟨read, hread, -, htargets⟩ := (parseZoneWithin_eq_some_iff heq).mp hzone
      rw [List.splitOn_eq_singleton hbar] at hread
      obtain ⟨only, rest, hpart, hrest, rfl⟩ := List.forall₂_cons_left_iff.mp hread
      obtain rfl := List.forall₂_nil_left_iff.mp hrest
      obtain rfl : [only] = targets := htargets
      obtain rfl : only = target := Option.some.inj hlast
      rw [← hpart]
      refine (parsePart_of_plain (fun rest htrim => ?_) fun rest htrim => ?_).symm
      · rw [htrim, parsePart_count_iff] at hpart
        obtain ⟨-, counted, -, -, -, -, htarget⟩ := hpart
        exact hcount counted htarget
      · rw [htrim, parsePart_except_iff] at hpart
        obtain ⟨-, named, -, -, -, -, htarget⟩ := hpart
        exact hexcept named htarget

theorem toAsciiUppercase_of_eqIgnoreAsciiCase {text : Text}
    (heq : text.eqIgnoreAsciiCase "MATCHED".toList = true) :
    text.toAsciiUppercase = "MATCHED".toList := by
  have hlower : text.toAsciiLowercase = "matched".toList := eq_of_beq heq
  have hcase : text.toAsciiLowercase.toAsciiUppercase = text.toAsciiUppercase := by
    rw [Text.toAsciiUppercase, Text.toAsciiLowercase, List.map_map]
    exact List.map_congr_left fun c _ => Char.toUpper_toLower_eq_toUpper c
  rw [← hcase, hlower]
  decide

theorem not_matched_of_ofForm {zone : Text} (hform : ofForm libraries (partForm zone) = some target) :
    zone.trim.eqIgnoreAsciiCase "MATCHED".toList = false := by
  rw [Bool.eq_false_iff]
  intro heq
  have hupper := toAsciiUppercase_of_eqIgnoreAsciiCase heq
  have hcolon : ':' ∉ zone.trim := by
    rw [← mem_toAsciiUppercase_iff (by decide), hupper]
    decide
  have hkind := (ofForm_eq_some libraries hform).1
  rw [← partForm_trim, partForm_of_notMem hcolon, Text.trim_trim, hupper] at hkind
  exact matched_notMem_kinds hkind

/-- A sign may stand before a zone that is read as one. -/
theorem parseZoneWithin_of_ofForm (depth : ℕ) {zone : Text} (hbar : '|' ∉ zone)
    (hform : ofForm libraries (partForm zone) = some target) :
    parseZoneWithin libraries (depth + 1) zone = some [target] := by
  have hnone {a : Char} (ha : a = '&' ∨ a = '!') (rest : Text) : zone.trim ≠ a :: rest := by
    intro htrim
    rw [ofForm_of_trim_cons ha htrim] at hform
    contradiction
  have hexcept : target.isExcept = false := by
    cases target with
    | except inner => exact absurd rfl ((ofForm_ne libraries hform).2.1 inner)
    | _ => rfl
  rw [parseZoneWithin_eq_some_iff (not_matched_of_ofForm hform), List.splitOn_eq_singleton hbar]
  refine ⟨[target], List.forall₂_cons.mpr ⟨?_, List.Forall₂.nil⟩, ?_, rfl⟩
  · rw [parsePart_of_plain (hnone (Or.inl rfl)) (hnone (Or.inr rfl)), hform]
  · change ([target].any fun target => !target.isExcept) = true
    rw [List.any_cons, hexcept]
    rfl

/-- A part of a zone is read as it says. -/
theorem parsePart_eq_some_iff (depth : ℕ) :
    parsePart libraries (parseZoneWithin libraries (depth + 1)) (Text.trim part) = some target ↔
      Reads libraries part target := by
  constructor
  · intro hpart
    by_cases hcount : ∃ rest, part.trim = '&' :: rest
    · obtain ⟨rest, htrim⟩ := hcount
      rw [htrim, parsePart_count_iff] at hpart
      obtain ⟨targets, counted, hinner, hlast, hbar, hcountable, rfl⟩ := hpart
      refine .count htrim hbar ?_ hcountable
      apply ofForm_of_parseZoneWithin hbar hinner hlast
      · rintro rfl
        contradiction
      · rintro other rfl
        contradiction
      · rintro other rfl
        contradiction
    · by_cases hexcept : ∃ rest, part.trim = '!' :: rest
      · obtain ⟨rest, htrim⟩ := hexcept
        rw [htrim, parsePart_except_iff] at hpart
        obtain ⟨targets, named, hinner, hlast, hbar, hname, rfl⟩ := hpart
        refine .except htrim hbar ?_ hname
        apply ofForm_of_parseZoneWithin hbar hinner hlast
        · rintro rfl
          exact hname rfl
        · rintro other rfl
          exact hname rfl
        · rintro other rfl
          exact hname rfl
      · rw [parsePart_of_plain (not_exists.mp hcount) (not_exists.mp hexcept)] at hpart
        exact .one hpart
  · intro hreads
    cases hreads with
    | one hform =>
        have hnone {a : Char} (ha : a = '&' ∨ a = '!') (rest : Text) : part.trim ≠ a :: rest := by
          intro htrim
          rw [ofForm_of_trim_cons ha htrim] at hform
          contradiction
        rw [parsePart_of_plain (hnone (Or.inl rfl)) (hnone (Or.inr rfl)), hform]
    | count htrim hbar hform hcountable =>
        rw [htrim, parsePart_count_iff]
        exact ⟨_, _, parseZoneWithin_of_ofForm depth hbar hform, rfl, hbar, hcountable, rfl⟩
    | except htrim hbar hform hname =>
        rw [htrim, parsePart_except_iff]
        exact ⟨_, _, parseZoneWithin_of_ofForm depth hbar hform, rfl, hbar, hname, rfl⟩

end Parts

section Zones

variable {libraries} {zone : Text} {targets : List Target}

theorem mem_eachOnce_iff {targets : List Target} {target : Target} :
    target ∈ eachOnce targets ↔ target ∈ targets := by
  have hfold (out : List Target) : target ∈ targets.foldl
      (fun out target => if out.contains target then out else out ++ [target]) out ↔
        target ∈ out ∨ target ∈ targets := by
    induction targets generalizing out with
    | nil => exact (or_iff_left List.not_mem_nil).symm
    | cons first rest ih =>
        rw [List.foldl_cons, ih]
        split
        · next hmem =>
            have hmem : first ∈ out := List.contains_iff_mem.mp hmem
            rw [List.mem_cons]
            exact ⟨fun h => h.imp_right Or.inr, fun h => h.elim Or.inl fun h =>
              h.elim (fun heq => Or.inl (heq ▸ hmem)) Or.inr⟩
        · rw [List.mem_append, List.mem_singleton, List.mem_cons, or_assoc]
  exact (hfold []).trans (or_iff_right List.not_mem_nil)

theorem not_reads_nil {target : Target} : ¬ Reads libraries [] target := by
  intro hreads
  cases hreads with
  | one hform =>
      obtain ⟨c, rest, hkind, -⟩ := head_of_mem_kinds (ofForm_eq_some libraries hform).1
      contradiction
  | count htrim => contradiction
  | except htrim => contradiction

/-- What a zone other than `MATCHED` reads, part by part. -/
theorem parseZone_eq_some_iff (hzone : zone.trim.eqIgnoreAsciiCase "MATCHED".toList = false) :
    parseZone libraries zone = some targets ↔
      ∃ read, List.Forall₂ (Reads libraries) (zone.splitOn '|') read ∧
        ((eachOnce read).any fun target => !target.isExcept) = true ∧ eachOnce read = targets := by
  rw [parseZone, parseZoneWithin_eq_some_iff hzone]
  refine exists_congr fun read => and_congr_left fun _ => ?_
  cases zone with
  | nil =>
      have hnone : parsePart libraries (parseZoneWithin libraries 0) (Text.trim []) = none := rfl
      rw [List.splitOn_nil, List.forall₂_cons_left_iff, List.forall₂_cons_left_iff]
      constructor
      · rintro ⟨target, rest, hpart, -, -⟩
        rw [List.length_nil, hnone] at hpart
        contradiction
      · rintro ⟨target, rest, hpart, -, -⟩
        exact absurd hpart not_reads_nil
  | cons c zone =>
      rw [List.length_cons]
      exact ⟨fun hread => hread.imp fun part target => (parsePart_eq_some_iff zone.length).mp,
        fun hread => hread.imp fun part target => (parsePart_eq_some_iff zone.length).mpr⟩

theorem parseZone_of_matched (hzone : zone.trim.eqIgnoreAsciiCase "MATCHED".toList = true) :
    parseZone libraries zone = some [.matched] := parseZoneWithin_of_matched hzone

/-- A part that reads something is not `MATCHED`. -/
theorem Reads.not_matched {part : Text} {target : Target} (hreads : Reads libraries part target) :
    part.trim.eqIgnoreAsciiCase "MATCHED".toList = false := by
  rw [Bool.eq_false_iff]
  intro heq
  have hupper := toAsciiUppercase_of_eqIgnoreAsciiCase heq
  cases hreads with
  | one hform =>
      rw [not_matched_of_ofForm hform] at heq
      contradiction
  | count htrim =>
      rw [htrim] at hupper
      exact absurd (List.cons.inj hupper).1 (by decide)
  | except htrim =>
      rw [htrim] at hupper
      exact absurd (List.cons.inj hupper).1 (by decide)

/-- A zone with its parts spelt as they are shown. -/
def spelling (zone : Text) : Text := Text.join ['|'] ((zone.splitOn '|').map canonicalPart)

theorem canonical_eq_some (hzone : parseZone libraries zone = some targets) :
    canonical libraries zone = some (spelling zone) := by
  rw [canonical, hzone]
  rfl

theorem splitOn_spelling (zone : Text) :
    (spelling zone).splitOn '|' = (zone.splitOn '|').map canonicalPart := by
  apply List.splitOn_intercalate
  · intro part hpart
    obtain ⟨segment, hsegment, rfl⟩ := List.mem_map.mp hpart
    exact bar_notMem_canonicalPart fun hbar => (Core.mem_of_mem_splitOn hsegment hbar).2 rfl
  · simp [List.splitOn_ne_nil]

theorem spelling_twice (zone : Text) : spelling (spelling zone) = spelling zone := by
  rw [spelling, splitOn_spelling, List.map_map, spelling]
  congr 1
  exact List.map_congr_left fun part _ => canonicalPart_twice part

/-- `MATCHED` is spelt so. -/
theorem spelling_of_matched (hzone : zone.trim.eqIgnoreAsciiCase "MATCHED".toList = true) :
    spelling zone = "MATCHED".toList := by
  have hupper := toAsciiUppercase_of_eqIgnoreAsciiCase hzone
  have hnot {c : Char} (hc : c.isAlpha = false) (hblank : Text.isWhitespace c = false) :
      c ∉ zone := by
    intro hmem
    obtain ⟨before, after, hsplit, hbefore, hafter⟩ :=
      Core.exists_append_trim Text.isWhitespace zone
    rw [hsplit] at hmem
    have htrim : c ∈ zone.trim := by
      rcases List.mem_append.mp hmem with hmem | hmem
      · rcases List.mem_append.mp hmem with hmem | hmem
        · exact absurd hmem (Core.not_mem_of_blank hblank hbefore)
        · exact hmem
      · exact absurd hmem (Core.not_mem_of_blank hblank hafter)
    have hletter : "MATCHED".toList.all Char.isAlpha = true := by decide
    rw [← mem_toAsciiUppercase_iff hc, hupper] at htrim
    rw [List.all_eq_true.mp hletter c htrim] at hc
    contradiction
  rw [spelling, List.splitOn_eq_singleton (hnot (by decide) (by decide)), List.map_singleton,
    canonicalPart_of_notMem (hnot (by decide) (by decide)), hupper]
  rfl

/-- A zone that is not `MATCHED` is not spelt so. -/
theorem not_matched_spelling {read : List Target}
    (hread : List.Forall₂ (Reads libraries) (zone.splitOn '|') read) :
    (spelling zone).trim.eqIgnoreAsciiCase "MATCHED".toList = false := by
  rw [Bool.eq_false_iff]
  intro heq
  have hmatched := spelling_of_matched heq
  rw [spelling_twice] at hmatched
  have hparts := splitOn_spelling zone
  rw [hmatched] at hparts
  have hsingle : "MATCHED".toList.splitOn '|' = ["MATCHED".toList] :=
    List.splitOn_eq_singleton (by decide)
  rw [hsingle] at hparts
  generalize zone.splitOn '|' = parts at hread hparts
  cases hread with
  | nil => contradiction
  | cons hpart hrest =>
      have hfirst := (List.cons.inj hparts).1
      have hnot := hpart.canonicalPart.not_matched
      rw [← hfirst] at hnot
      contradiction

/-- The spelling reads what the zone reads. -/
theorem parseZone_spelling (hzone : parseZone libraries zone = some targets) :
    parseZone libraries (spelling zone) = some targets := by
  cases heq : zone.trim.eqIgnoreAsciiCase "MATCHED".toList with
  | true =>
      rw [spelling_of_matched heq, ← hzone, parseZone_of_matched heq]
      exact parseZone_of_matched (by decide)
  | false =>
      obtain ⟨read, hread, hany, htargets⟩ := (parseZone_eq_some_iff heq).mp hzone
      rw [parseZone_eq_some_iff (not_matched_spelling hread), splitOn_spelling]
      refine ⟨read, ?_, hany, htargets⟩
      rw [List.forall₂_map_left_iff]
      exact hread.imp fun part target hpart => hpart.canonicalPart

/-- A zone an exception or a count may be made of. -/
def Target.Single (target : Target) : Prop :=
  (∀ inner, target ≠ .count inner) ∧ (∀ inner, target ≠ .except inner) ∧ target ≠ .matched

/-- A header, a cookie or an argument with a name. -/
def Target.Named (target : Target) : Prop :=
  ∃ name, target ∈ [.arg (some name), .argName (some name), .header (some name),
    .headerName (some name), .cookie (some name), .cookieName (some name)]

theorem named_of_name_ne_none {target : Target} (hname : target.name ≠ none) : target.Named := by
  cases target with
  | arg name | argName name | header name | headerName name | cookie name | cookieName name =>
      obtain ⟨name, rfl⟩ := Option.ne_none_iff_exists'.mp hname
      exact ⟨name, by simp⟩
  | _ => exact absurd rfl hname

theorem exists_reads_of_mem {parts : List Text} {read : List Target}
    (hread : List.Forall₂ (Reads libraries) parts read) {target : Target} (htarget : target ∈ read) :
    ∃ part, Reads libraries part target := by
  induction hread with
  | nil => contradiction
  | cons hpart hrest ih =>
      rcases List.mem_cons.mp htarget with rfl | htarget
      · exact ⟨_, hpart⟩
      · exact ih htarget

theorem parseZone_of_ofForm {rest : Text} {target : Target} (hbar : '|' ∉ rest)
    (hform : ofForm libraries (partForm rest) = some target) :
    parseZone libraries rest = some [target] := parseZoneWithin_of_ofForm rest.length hbar hform

/-- A zone that is accepted is shown in one spelling, which is accepted and reads
the same; what it reads is something, and a count or an exception is of one zone. -/
theorem canonical_reads_back (hzone : parseZone libraries zone = some targets) :
    (∃ written, canonical libraries zone = some written ∧
        parseZone libraries written = some targets ∧
        canonical libraries written = some written) ∧
      (∃ target ∈ targets, target.isExcept = false) ∧
      (∀ inner, .count inner ∈ targets ∨ .except inner ∈ targets →
        inner.Single ∧ ∃ rest, '|' ∉ rest ∧ parseZone libraries rest = some [inner]) ∧
      ∀ inner, .except inner ∈ targets → inner.Named := by
  have hspelling := parseZone_spelling hzone
  refine ⟨⟨spelling zone, canonical_eq_some hzone, hspelling, ?_⟩, ?_⟩
  · rw [canonical_eq_some hspelling, spelling_twice]
  cases heq : zone.trim.eqIgnoreAsciiCase "MATCHED".toList with
  | true =>
      rw [parseZone_of_matched heq] at hzone
      obtain rfl := Option.some.inj hzone
      simp [Target.isExcept]
  | false =>
      obtain ⟨read, hread, hany, rfl⟩ := (parseZone_eq_some_iff heq).mp hzone
      have hmem {target : Target} (htarget : target ∈ eachOnce read) :
          ∃ part, Reads libraries part target :=
        exists_reads_of_mem hread (mem_eachOnce_iff.mp htarget)
      refine ⟨?_, ?_, ?_⟩
      · obtain ⟨target, htarget, hexcept⟩ := List.any_eq_true.mp hany
        exact ⟨target, htarget, by simpa using hexcept⟩
      · rintro inner (hcount | hexcept)
        · obtain ⟨part, hpart⟩ := hmem hcount
          cases hpart with
          | one hform => exact absurd rfl ((ofForm_ne libraries hform).1 inner)
          | count htrim hbar hform hcountable =>
              exact ⟨ofForm_ne libraries hform, _, hbar, parseZone_of_ofForm hbar hform⟩
        · obtain ⟨part, hpart⟩ := hmem hexcept
          cases hpart with
          | one hform => exact absurd rfl ((ofForm_ne libraries hform).2.1 inner)
          | except htrim hbar hform hname =>
              exact ⟨ofForm_ne libraries hform, _, hbar, parseZone_of_ofForm hbar hform⟩
      · intro inner hexcept
        obtain ⟨part, hpart⟩ := hmem hexcept
        cases hpart with
        | one hform => exact absurd rfl ((ofForm_ne libraries hform).2.1 inner)
        | except htrim hbar hform hname => exact named_of_name_ne_none hname

/-- Blanks, small letters and a name in capitals, as an administrator may type them. -/
theorem header_zone_reads_back :
    ∃ written, canonical .plain "& header : Host|args| !cookie:SID ".toList = some written ∧
      parseZone .plain written = some [.count (.header (some (.is "host".toList))), .args,
        .except (.cookie (some (.is "sid".toList)))] ∧
      canonical .plain written = some written :=
  (canonical_reads_back (by decide +kernel)).1

end Zones

end EasyWaf.Modules
