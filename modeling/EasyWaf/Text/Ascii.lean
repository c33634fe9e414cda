import EasyWaf.Text.Utf8

/-!
# ASCII characters of decoded bytes

An ASCII character of a text read from bytes is one of the bytes, and stands
where that byte stands.
-/

namespace EasyWaf.Text

theorem isSome_dropInfix_go {part : Text} (text skipped : Text) :
    (List.dropInfix?.go part text skipped).isSome = true ↔ part <:+: text := by
  induction text generalizing skipped with
  | nil =>
      rw [List.dropInfix?.go]
      cases part <;> simp
  | cons c rest ih =>
      rw [List.dropInfix?.go, List.infix_cons_iff]
      cases hbegins : (c :: rest).dropPrefix? part with
      | none =>
          have hnot : ¬ part <+: c :: rest := by
            rintro ⟨after, hafter⟩
            rw [← hafter, List.dropPrefix?_append_of_beq after (beq_self_eq_true part)] at hbegins
            contradiction
          simpa [hnot] using ih (c :: skipped)
      | some after =>
          obtain ⟨_, happend, hpart⟩ := List.dropPrefix?_eq_some_iff.mp hbegins
          obtain rfl := eq_of_beq hpart
          simp [happend]

theorem hasInfix_iff {part text : Text} : hasInfix part text = true ↔ part <:+: text :=
  isSome_dropInfix_go text []

section Bytes

variable {text : Text} {c : Char}

theorem toNat_ofNat_toNat (hc : c.toNat < 0x80) : (UInt8.ofNat c.toNat).toNat = c.toNat := by
  rw [UInt8.toNat_ofNat']
  omega

theorem ofNat_toNat_lt (hc : c.toNat < 0x80) : UInt8.ofNat c.toNat < 0x80 := by
  rw [UInt8.lt_iff_toNat_lt, toNat_ofNat_toNat hc]
  exact hc

theorem mem_bytes_of_mem (hascii : c.toNat < 0x80) (hc : c ∈ text) :
    UInt8.ofNat c.toNat ∈ bytes text := by
  have hsmall : c.val.toNat ≤ 0x7F := Nat.le_of_lt_succ hascii
  apply List.mem_flatMap.mpr
  exact ⟨c, hc, by rw [String.utf8EncodeChar, if_pos hsmall]; exact List.mem_singleton.mpr rfl⟩

theorem not_mem_bytes (hascii : c.toNat < 0x80) (hc : c ∉ text) :
    UInt8.ofNat c.toNat ∉ bytes text := by
  intro hmem
  have hchar := mem_of_mem_bytes hmem (ofNat_toNat_lt hascii)
  rw [toNat_ofNat_toNat hascii, Char.ofNat_toNat] at hchar
  exact hc hchar

end Bytes

section Lossy

theorem Utf8.read_some_ne_nil (begun : Utf8.Begun) (bytes : List UInt8) :
    Utf8.read (some begun) bytes ≠ [] := by
  induction bytes generalizing begun with
  | nil => exact List.cons_ne_nil _ _
  | cons byte rest ih =>
      rw [Utf8.read, Utf8.next]
      split_ifs
      · split
        · exact List.cons_ne_nil _ _
        · exact ih _
      · exact List.cons_ne_nil _ _

theorem fromUtf8Lossy_eq_nil {bytes : List UInt8} (hnil : fromUtf8Lossy bytes = []) :
    bytes = [] := by
  cases bytes with
  | nil => rfl
  | cons byte rest =>
      obtain ⟨hfirst, hrest⟩ := List.append_eq_nil_iff.mp hnil
      cases hbegun : (Utf8.first byte).2 with
      | some begun =>
          rw [hbegun] at hrest
          exact absurd hrest (Utf8.read_some_ne_nil begun rest)
      | none =>
          unfold Utf8.first at hfirst hbegun
          split_ifs at hfirst hbegun

variable {c d : Char} {bytes : List UInt8}

/-- Where an ASCII character stands among the bytes it is read from. -/
theorem exists_of_fromUtf8Lossy_eq (hc : 0 < c.toNat ∧ c.toNat < 0x80) (before : Text) {after : Text}
    (hread : fromUtf8Lossy bytes = before ++ c :: after) :
    ∃ front back : List UInt8, bytes = front ++ UInt8.ofNat c.toNat :: back ∧
      fromUtf8Lossy front = before ∧ fromUtf8Lossy back = after := by
  induction hlength : bytes.length using Nat.strong_induction_on generalizing bytes before with
  | _ length ih =>
      have hmem : c ∈ fromUtf8Lossy bytes := by rw [hread]; simp
      obtain ⟨front, back, rfl, hfront⟩ :=
        List.eq_append_cons_of_mem (mem_of_mem_fromUtf8Lossy hc hmem)
      have hnot : c ∉ fromUtf8Lossy front := fun h => hfront (mem_of_mem_fromUtf8Lossy hc h)
      rw [fromUtf8Lossy_append_cons (ofNat_toNat_lt hc.2), toNat_ofNat_toNat hc.2,
        Char.ofNat_toNat] at hread
      rcases List.append_eq_append_iff.mp hread with ⟨between, hbefore, hafter⟩ | ⟨between, hfront, hafter⟩
      · cases between with
        | nil =>
            rw [List.append_nil] at hbefore
            exact ⟨front, back, rfl, hbefore.symm, (List.cons.inj hafter).2⟩
        | cons first between =>
            -- the character is a later one
            obtain ⟨rfl, hback⟩ := List.cons.inj hafter
            have hshorter : back.length < length := by
              rw [← hlength, List.length_append, List.length_cons]
              omega
            obtain ⟨front', back', rfl, hfront', hback'⟩ := ih _ hshorter _ hback rfl
            refine ⟨front ++ UInt8.ofNat c.toNat :: front', back', by simp, ?_, hback'⟩
            rw [fromUtf8Lossy_append_cons (ofNat_toNat_lt hc.2), toNat_ofNat_toNat hc.2,
              Char.ofNat_toNat, hfront', hbefore]
      · cases between with
        | nil =>
            rw [List.append_nil] at hfront
            exact ⟨front, back, rfl, hfront, (List.cons.inj hafter).2.symm⟩
        | cons first between =>
            obtain ⟨rfl, -⟩ := List.cons.inj hafter
            exact absurd (by rw [hfront]; simp) hnot

theorem fromUtf8Lossy_append_char (hc : c.toNat < 0x80) (front back : List UInt8) :
    fromUtf8Lossy (front ++ UInt8.ofNat c.toNat :: back) =
      fromUtf8Lossy front ++ c :: fromUtf8Lossy back := by
  rw [fromUtf8Lossy_append_cons (ofNat_toNat_lt hc), toNat_ofNat_toNat hc, Char.ofNat_toNat]

theorem head?_fromUtf8Lossy_iff (hc : 0 < c.toNat ∧ c.toNat < 0x80) :
    (fromUtf8Lossy bytes).head? = some c ↔ bytes.head? = some (UInt8.ofNat c.toNat) := by
  constructor
  · intro hhead
    obtain ⟨rest, hread⟩ := List.head?_eq_some_iff.mp hhead
    obtain ⟨front, back, rfl, hfront, -⟩ := exists_of_fromUtf8Lossy_eq hc [] hread
    obtain rfl := fromUtf8Lossy_eq_nil hfront
    rfl
  · intro hhead
    obtain ⟨rest, rfl⟩ := List.head?_eq_some_iff.mp hhead
    exact congrArg List.head? (fromUtf8Lossy_append_char hc.2 [] rest)

theorem mem_fromUtf8Lossy_iff (hc : 0 < c.toNat ∧ c.toNat < 0x80) :
    c ∈ fromUtf8Lossy bytes ↔ UInt8.ofNat c.toNat ∈ bytes := by
  constructor
  · exact mem_of_mem_fromUtf8Lossy hc
  · intro hmem
    obtain ⟨front, back, rfl⟩ := List.append_of_mem hmem
    rw [fromUtf8Lossy_append_char hc.2]
    simp

/-- Two ASCII characters stand together where their bytes do. -/
theorem infix_fromUtf8Lossy_iff (hc : 0 < c.toNat ∧ c.toNat < 0x80)
    (hd : 0 < d.toNat ∧ d.toNat < 0x80) :
    [c, d] <:+: fromUtf8Lossy bytes ↔
      [UInt8.ofNat c.toNat, UInt8.ofNat d.toNat] <:+: bytes := by
  constructor
  · rintro ⟨before, after, hread⟩
    have hread' : fromUtf8Lossy bytes = before ++ c :: (d :: after) := by simp [← hread]
    obtain ⟨front, back, rfl, -, hback⟩ := exists_of_fromUtf8Lossy_eq hc before hread'
    obtain ⟨middle, back, rfl, hmiddle, -⟩ :=
      exists_of_fromUtf8Lossy_eq hd [] hback
    obtain rfl := fromUtf8Lossy_eq_nil hmiddle
    exact ⟨front, back, by simp⟩
  · rintro ⟨front, back, rfl⟩
    have hlossy := fromUtf8Lossy_append_char hc.2 front (UInt8.ofNat d.toNat :: back)
    have hrest := fromUtf8Lossy_append_char hd.2 [] back
    rw [List.nil_append] at hrest
    rw [hrest] at hlossy
    exact ⟨fromUtf8Lossy front, fromUtf8Lossy back, by
      rw [List.append_assoc, List.append_assoc]
      exact hlossy.symm⟩

/-- ASCII characters are counted as their bytes are. -/
theorem countP_fromUtf8Lossy {p : Char → Bool}
    (hp : ∀ c : Char, p c = true → 0 < c.toNat ∧ c.toNat < 0x80) (bytes : List UInt8) :
    (fromUtf8Lossy bytes).countP p = bytes.countP fun byte => p (Char.ofNat byte.toNat) := by
  induction hlength : bytes.length using Nat.strong_induction_on generalizing bytes with
  | _ length ih =>
      by_cases hexists : ∃ byte ∈ bytes, p (Char.ofNat byte.toNat) = true
      · obtain ⟨byte, hmem, hbyte⟩ := hexists
        obtain ⟨front, back, rfl⟩ := List.append_of_mem hmem
        have hascii := hp _ hbyte
        have hsmall : byte < 0x80 := by
          rcases toNat_ofNat_eq_or byte.toNat with hnat | hnat
          · exact UInt8.lt_iff_toNat_lt.mpr (hnat ▸ hascii.2)
          · exact absurd hascii.1 (by rw [hnat]; exact lt_irrefl 0)
        rw [List.length_append, List.length_cons] at hlength
        rw [fromUtf8Lossy_append_cons hsmall, List.countP_append, List.countP_append,
          List.countP_cons, List.countP_cons, ih _ (by omega) front rfl, ih _ (by omega) back rfl]
      · have hnone : ∀ byte ∈ bytes, ¬ p (Char.ofNat byte.toNat) = true :=
          fun byte hmem hbyte => hexists ⟨byte, hmem, hbyte⟩
        have hnot : ∀ c ∈ fromUtf8Lossy bytes, ¬ p c = true := by
          intro c hmem hc
          have hbyte := hnone _ (mem_of_mem_fromUtf8Lossy (hp c hc) hmem)
          rw [toNat_ofNat_toNat (hp c hc).2, Char.ofNat_toNat] at hbyte
          exact hbyte hc
        rw [List.countP_eq_zero.mpr hnot, List.countP_eq_zero.mpr hnone]

end Lossy

end EasyWaf.Text
