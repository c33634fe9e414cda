import EasyWaf.Text.Basic

/-!
# Text as bytes

A text as its UTF-8 bytes, and bytes read as UTF-8 with whatever is not UTF-8
replaced.
-/

namespace EasyWaf.Text

/-- The UTF-8 bytes of a text. -/
def bytes (text : Text) : List UInt8 := text.flatMap String.utf8EncodeChar

/-- Stands for bytes that are not UTF-8. -/
def replacement : Char := Char.ofNat 0xFFFD

namespace Utf8

/-- A character whose first bytes have been read: their value, how many bytes
follow the next one, and the range the next one must lie in. -/
structure Begun where
  value : ℕ
  more : ℕ
  low : UInt8
  high : UInt8

/-- A byte where a character begins. -/
def first (byte : UInt8) : Text × Option Begun :=
  if byte < 0x80 then ([Char.ofNat byte.toNat], none)
  else if byte < 0xC2 then ([replacement], none)
  else if byte < 0xE0 then ([], some ⟨byte.toNat % 32, 0, 0x80, 0xBF⟩)
  -- no form longer than it need be, and no surrogate
  else if byte = 0xE0 then ([], some ⟨0, 1, 0xA0, 0xBF⟩)
  else if byte = 0xED then ([], some ⟨13, 1, 0x80, 0x9F⟩)
  else if byte < 0xF0 then ([], some ⟨byte.toNat % 16, 1, 0x80, 0xBF⟩)
  else if byte = 0xF0 then ([], some ⟨0, 2, 0x90, 0xBF⟩)
  else if byte < 0xF4 then ([], some ⟨byte.toNat % 8, 2, 0x80, 0xBF⟩)
  else if byte = 0xF4 then ([], some ⟨4, 2, 0x80, 0x8F⟩)
  else ([replacement], none)

/-- A byte inside a character.  One that cannot go on with it ends it, replaced,
and begins another. -/
def next (begun : Begun) (byte : UInt8) : Text × Option Begun :=
  if begun.low ≤ byte ∧ byte ≤ begun.high then
    let value := begun.value * 64 + byte.toNat % 64
    match begun.more with
    | 0 => ([Char.ofNat value], none)
    | more + 1 => ([], some ⟨value, more, 0x80, 0xBF⟩)
  else
    let (out, begun) := first byte
    (replacement :: out, begun)

def read : Option Begun → List UInt8 → Text
  | none, [] => []
  | some _, [] => [replacement]
  | none, byte :: rest => (first byte).1 ++ read (first byte).2 rest
  | some begun, byte :: rest => (next begun byte).1 ++ read (next begun byte).2 rest

end Utf8

/-- Bytes read as UTF-8, each longest beginning of a character that is not one
replaced. -/
def fromUtf8Lossy (bytes : List UInt8) : Text := Utf8.read none bytes

theorem bytes_cons (c : Char) (text : Text) :
    bytes (c :: text) = String.utf8EncodeChar c ++ bytes text := rfl

theorem fromUtf8Lossy_cons_of_lt {byte : UInt8} (hbyte : byte < 0x80) (rest : List UInt8) :
    fromUtf8Lossy (byte :: rest) = Char.ofNat byte.toNat :: fromUtf8Lossy rest := by
  simp only [fromUtf8Lossy, Utf8.read, Utf8.first, if_pos hbyte, List.cons_append, List.nil_append]

section Ascii

/-- A character begun is not ASCII, whatever bytes follow. -/
structure Utf8.Begun.Sound (begun : Utf8.Begun) : Prop where
  low : 0x80 ≤ begun.low.toNat
  high : begun.high.toNat ≤ 0xBF
  value : 0x80 ≤ (begun.value * 64 + begun.low.toNat % 64) * 64 ^ begun.more

theorem Utf8.sound_first {byte : UInt8} {begun : Utf8.Begun}
    (hbegun : (Utf8.first byte).2 = some begun) : begun.Sound := by
  simp only [Utf8.first] at hbegun
  split_ifs at hbegun <;> simp only [Option.some.injEq] at hbegun
  all_goals
    subst hbegun
    simp only [UInt8.lt_iff_toNat_lt, UInt8.reduceToNat, ← UInt8.toNat_inj] at *
    constructor <;> simp <;> omega

/-- One byte more leaves the value as large as the lowest byte does. -/
theorem Utf8.Begun.Sound.value_le {begun : Utf8.Begun} (hsound : begun.Sound) {byte : UInt8}
    (hbyte : begun.low ≤ byte ∧ byte ≤ begun.high) :
    0x80 ≤ (begun.value * 64 + byte.toNat % 64) * 64 ^ begun.more := by
  have hlow := UInt8.le_iff_toNat_le.mp hbyte.1
  have hhigh := UInt8.le_iff_toNat_le.mp hbyte.2
  have hmod : begun.low.toNat % 64 ≤ byte.toNat % 64 := by
    have := hsound.low
    have := hsound.high
    omega
  exact hsound.value.trans (Nat.mul_le_mul_right _ (Nat.add_le_add_left hmod _))

theorem Utf8.sound_next {begun begun' : Utf8.Begun} (hsound : begun.Sound) {byte : UInt8}
    (hbegun : (Utf8.next begun byte).2 = some begun') : begun'.Sound := by
  rw [Utf8.next] at hbegun
  split at hbegun
  · rename_i hbyte
    have hvalue := hsound.value_le hbyte
    dsimp only at hbegun
    split at hbegun
    · contradiction
    · rename_i more hmore
      obtain rfl := Option.some.inj hbegun
      refine ⟨le_rfl, le_rfl, ?_⟩
      rw [hmore, pow_succ'] at hvalue
      calc 0x80 ≤ (begun.value * 64 + byte.toNat % 64) * (64 * 64 ^ more) := hvalue
        _ = _ := by simp [mul_assoc]
  · exact sound_first hbegun

variable {state : Option Utf8.Begun}

/-- A byte below 0x80 ends what was begun, and is a character. -/
theorem Utf8.read_append_cons (hstate : ∀ begun ∈ state, begun.Sound) {byte : UInt8}
    (hbyte : byte < 0x80) (before after : List UInt8) :
    read state (before ++ byte :: after) =
      read state before ++ Char.ofNat byte.toNat :: read none after := by
  induction before generalizing state with
  | nil =>
      cases state with
      | none => simp [read, first, hbyte]
      | some begun =>
          have hlow : ¬ (begun.low ≤ byte ∧ byte ≤ begun.high) := by
            rw [UInt8.le_iff_toNat_le]
            rw [UInt8.lt_iff_toNat_lt] at hbyte
            have := (hstate begun rfl).low
            simp only [UInt8.reduceToNat] at hbyte
            omega
          simp [read, next, hlow, first, hbyte]
  | cons head before ih =>
      cases state with
      | none =>
          rw [List.cons_append, read, read, ih fun _ hbegun => sound_first hbegun,
            List.append_assoc]
      | some begun =>
          rw [List.cons_append, read, read,
            ih fun _ hbegun => sound_next (hstate begun rfl) hbegun, List.append_assoc]

theorem fromUtf8Lossy_append_cons {byte : UInt8} (hbyte : byte < 0x80)
    (before after : List UInt8) :
    fromUtf8Lossy (before ++ byte :: after) =
      fromUtf8Lossy before ++ Char.ofNat byte.toNat :: fromUtf8Lossy after :=
  Utf8.read_append_cons (by simp) hbyte before after

theorem toNat_ofNat_eq_or (value : ℕ) :
    (Char.ofNat value).toNat = value ∨ (Char.ofNat value).toNat = 0 := by
  rw [Char.toNat_ofNat]
  split
  · exact Or.inl rfl
  · exact Or.inr rfl

theorem Utf8.mem_first {byte : UInt8} {c : Char} (hc : 0 < c.toNat ∧ c.toNat < 0x80)
    (hmem : c ∈ (first byte).1) : byte = UInt8.ofNat c.toNat := by
  have hreplaced : c ≠ replacement := by
    rintro rfl
    exact absurd hc.2 (by decide)
  simp only [first] at hmem
  split_ifs at hmem with hascii
  · obtain rfl := List.mem_singleton.mp hmem
    rcases toNat_ofNat_eq_or byte.toNat with hnat | hzero
    · rw [hnat, UInt8.ofNat_toNat]
    · omega
  all_goals simp [hreplaced] at hmem

theorem Utf8.mem_next {begun : Utf8.Begun} (hsound : begun.Sound) {byte : UInt8} {c : Char}
    (hc : 0 < c.toNat ∧ c.toNat < 0x80) (hmem : c ∈ (next begun byte).1) :
    byte = UInt8.ofNat c.toNat := by
  rw [next] at hmem
  split at hmem
  · rename_i hbyte
    have hvalue := hsound.value_le hbyte
    dsimp only at hmem
    split at hmem
    · rename_i hmore
      rw [hmore, pow_zero, mul_one] at hvalue
      obtain rfl := List.mem_singleton.mp hmem
      rcases toNat_ofNat_eq_or (begun.value * 64 + byte.toNat % 64) with hnat | hzero <;> omega
    · contradiction
  · refine mem_first hc ((List.mem_cons.mp hmem).resolve_left ?_)
    rintro rfl
    exact absurd hc.2 (by decide)

/-- An ASCII character is read of its own byte only. -/
theorem Utf8.mem_of_mem_read (hstate : ∀ begun ∈ state, begun.Sound) {c : Char}
    (hc : 0 < c.toNat ∧ c.toNat < 0x80) {bytes : List UInt8} (hmem : c ∈ read state bytes) :
    UInt8.ofNat c.toNat ∈ bytes := by
  induction bytes generalizing state with
  | nil =>
      cases state with
      | none => contradiction
      | some begun =>
          obtain rfl := List.mem_singleton.mp hmem
          exact absurd hc.2 (by decide)
  | cons byte rest ih =>
      cases state with
      | none =>
          rcases List.mem_append.mp hmem with hmem | hmem
          · exact List.mem_cons.mpr (Or.inl (mem_first hc hmem).symm)
          · exact List.mem_cons_of_mem _ (ih (fun _ hbegun => sound_first hbegun) hmem)
      | some begun =>
          have hsound := hstate begun rfl
          rcases List.mem_append.mp hmem with hmem | hmem
          · exact List.mem_cons.mpr (Or.inl (mem_next hsound hc hmem).symm)
          · exact List.mem_cons_of_mem _ (ih (fun _ hbegun => sound_next hsound hbegun) hmem)

theorem mem_of_mem_fromUtf8Lossy {c : Char} (hc : 0 < c.toNat ∧ c.toNat < 0x80)
    {bytes : List UInt8} (hmem : c ∈ fromUtf8Lossy bytes) : UInt8.ofNat c.toNat ∈ bytes :=
  Utf8.mem_of_mem_read (by simp) hc hmem

/-- The parts of a text between ASCII separators are those of its bytes. -/
theorem splitOn_fromUtf8Lossy {c : Char} (hc : 0 < c.toNat ∧ c.toNat < 0x80)
    (bytes : List UInt8) :
    (fromUtf8Lossy bytes).splitOn c =
      (bytes.splitOn (UInt8.ofNat c.toNat)).map fromUtf8Lossy := by
  have hbyte : (UInt8.ofNat c.toNat).toNat = c.toNat := by
    rw [UInt8.toNat_ofNat']
    omega
  have hlt : UInt8.ofNat c.toNat < 0x80 := by
    rw [UInt8.lt_iff_toNat_lt, hbyte]
    exact hc.2
  induction hlength : bytes.length using Nat.strong_induction_on generalizing bytes with
  | _ length ih =>
      by_cases hmem : UInt8.ofNat c.toNat ∈ bytes
      · obtain ⟨before, after, rfl, hbefore⟩ := List.eq_append_cons_of_mem hmem
        have hnot : c ∉ fromUtf8Lossy before := fun h =>
          hbefore (mem_of_mem_fromUtf8Lossy hc h)
        have hafter : after.length < length := by
          rw [← hlength, List.length_append, List.length_cons]
          omega
        rw [fromUtf8Lossy_append_cons hlt, hbyte, Char.ofNat_toNat,
          List.splitOn_append_cons_self, List.splitOn_append_cons_self, List.map_append,
          List.splitOn_eq_singleton hnot, List.splitOn_eq_singleton hbefore, List.map_singleton,
          ih _ hafter after rfl]
      · have hnot : c ∉ fromUtf8Lossy bytes := fun h => hmem (mem_of_mem_fromUtf8Lossy hc h)
        rw [List.splitOn_eq_singleton hnot, List.splitOn_eq_singleton hmem, List.map_singleton]

/-- Bytes below 0x80 are read as they stand. -/
def ascii (bytes : List UInt8) : Text := bytes.map fun byte => Char.ofNat byte.toNat

variable {before after : List UInt8}

theorem fromUtf8Lossy_append_ascii (hafter : ∀ byte ∈ after, byte < 0x80) (before : List UInt8) :
    fromUtf8Lossy (before ++ after) = fromUtf8Lossy before ++ ascii after := by
  induction after generalizing before with
  | nil => rw [List.append_nil, ascii, List.map_nil, List.append_nil]
  | cons byte rest ih =>
      obtain ⟨hbyte, hrest⟩ := List.forall_mem_cons.mp hafter
      have hempty := ih hrest []
      rw [List.nil_append] at hempty
      rw [fromUtf8Lossy_append_cons hbyte, hempty]
      rfl

theorem fromUtf8Lossy_ascii_append (hbefore : ∀ byte ∈ before, byte < 0x80)
    (after : List UInt8) :
    fromUtf8Lossy (before ++ after) = ascii before ++ fromUtf8Lossy after := by
  induction before with
  | nil => rfl
  | cons byte rest ih =>
      obtain ⟨hbyte, hrest⟩ := List.forall_mem_cons.mp hbefore
      rw [List.cons_append, fromUtf8Lossy_cons_of_lt hbyte, ih hrest]
      rfl

end Ascii

section Encoding

theorem bytes_append (left right : Text) : bytes (left ++ right) = bytes left ++ bytes right :=
  List.flatMap_append

theorem bytes_eq_nil {text : Text} : bytes text = [] ↔ text = [] := by
  rw [bytes, List.flatMap_eq_nil_iff]
  constructor
  · intro hnil
    exact List.eq_nil_iff_forall_not_mem.mpr fun c hc => String.utf8EncodeChar_ne_nil (hnil c hc)
  · rintro rfl
    simp

theorem bytes_join (separator : Text) (parts : List Text) :
    bytes (join separator parts) = (bytes separator).intercalate (parts.map bytes) := by
  induction parts with
  | nil => rfl
  | cons part rest ih =>
      cases rest with
      | nil => simp [join, List.intercalate_singleton]
      | cons next rest =>
          rw [join, List.intercalate_cons_cons, bytes_append, bytes_append, ← join, ih,
            List.map_cons, List.map_cons, List.map_cons, List.intercalate_cons_cons]

/-- A byte below 0x80 is a character of its own. -/
theorem utf8EncodeChar_of_mem {c : Char} {byte : UInt8} (hmem : byte ∈ String.utf8EncodeChar c)
    (hbyte : byte < 0x80) : c = Char.ofNat byte.toNat := by
  have hnat : byte.toNat < 0x80 := UInt8.lt_iff_toNat_lt.mp hbyte
  simp only [String.utf8EncodeChar] at hmem
  split_ifs at hmem with hascii htwo hthree
  · obtain rfl := List.mem_singleton.mp hmem
    rw [UInt8.toNat_ofNat', Nat.mod_eq_of_lt (by omega)]
    exact (Char.ofNat_toNat c).symm
  -- the bytes of a longer form all have their highest bit set
  all_goals
    simp only [List.mem_cons, List.not_mem_nil, or_false] at hmem
    rcases hmem with rfl | rfl | hmem <;> try (rw [UInt8.toNat_ofNat'] at hnat; omega)
  · rw [hmem, UInt8.toNat_ofNat'] at hnat
    omega
  · rcases hmem with rfl | rfl <;> (rw [UInt8.toNat_ofNat'] at hnat; omega)

/-- A character below 0x80 is a byte of its own. -/
theorem bytes_of_ascii {text : Text} (hascii : ∀ c ∈ text, c.toNat < 0x80) :
    bytes text = text.map fun c => UInt8.ofNat c.toNat := by
  induction text with
  | nil => rfl
  | cons c rest ih =>
      obtain ⟨hc, hrest⟩ := List.forall_mem_cons.mp hascii
      have hsmall : c.val.toNat ≤ 0x7F := Nat.le_of_lt_succ hc
      rw [bytes_cons, ih hrest, List.map_cons, String.utf8EncodeChar, if_pos hsmall]
      rfl

theorem mem_of_mem_bytes {text : Text} {byte : UInt8} (hmem : byte ∈ bytes text)
    (hbyte : byte < 0x80) : Char.ofNat byte.toNat ∈ text := by
  obtain ⟨c, hc, hmem⟩ := List.mem_flatMap.mp hmem
  exact utf8EncodeChar_of_mem hmem hbyte ▸ hc

end Encoding

namespace Utf8

/-- A byte that begins a character, by its number. -/
theorem first_ofNat {n : ℕ} (hn : n < 256) : first (UInt8.ofNat n) =
    if n < 0x80 then ([Char.ofNat n], none)
    else if n < 0xC2 then ([replacement], none)
    else if n < 0xE0 then ([], some ⟨n % 32, 0, 0x80, 0xBF⟩)
    else if n = 0xE0 then ([], some ⟨0, 1, 0xA0, 0xBF⟩)
    else if n = 0xED then ([], some ⟨13, 1, 0x80, 0x9F⟩)
    else if n < 0xF0 then ([], some ⟨n % 16, 1, 0x80, 0xBF⟩)
    else if n = 0xF0 then ([], some ⟨0, 2, 0x90, 0xBF⟩)
    else if n < 0xF4 then ([], some ⟨n % 8, 2, 0x80, 0xBF⟩)
    else if n = 0xF4 then ([], some ⟨4, 2, 0x80, 0x8F⟩)
    else ([replacement], none) := by
  have hnat : (UInt8.ofNat n).toNat = n := by rw [UInt8.toNat_ofNat', Nat.mod_eq_of_lt hn]
  simp only [first, UInt8.lt_iff_toNat_lt, ← UInt8.toNat_inj, hnat]
  rfl

theorem next_ofNat {begun : Begun} {n : ℕ} (hn : n < 64)
    (hrange : begun.low.toNat ≤ 0x80 + n ∧ 0x80 + n ≤ begun.high.toNat) :
    next begun (UInt8.ofNat (n + 0x80)) =
      match begun.more with
      | 0 => ([Char.ofNat (begun.value * 64 + n)], none)
      | more + 1 => ([], some ⟨begun.value * 64 + n, more, 0x80, 0xBF⟩) := by
  have hnat : (UInt8.ofNat (n + 0x80)).toNat = n + 0x80 := by
    rw [UInt8.toNat_ofNat', Nat.mod_eq_of_lt (by omega)]
  rw [next, if_pos]
  · rw [hnat]
    have hmod : (n + 0x80) % 64 = n := by omega
    simp only [hmod]
  · rw [UInt8.le_iff_toNat_le, UInt8.le_iff_toNat_le, hnat]
    omega

theorem read_two {v : ℕ} (hlow : 0x80 ≤ v) (hhigh : v ≤ 0x7ff) (rest : List UInt8) :
    read none (UInt8.ofNat (v / 64 % 0x20 + 0xc0) :: UInt8.ofNat (v % 0x40 + 0x80) :: rest) =
      Char.ofNat v :: read none rest := by
  rw [read, first_ofNat (by omega), if_neg (by omega), if_neg (by omega), if_pos (by omega),
    List.nil_append, read, next_ofNat (by omega) ⟨by simp, by simp; omega⟩]
  have hvalue : (v / 64 % 0x20 + 0xc0) % 32 * 64 + v % 0x40 = v := by omega
  rw [hvalue]
  rfl

theorem read_three {v : ℕ} (hlow : 0x800 ≤ v) (hhigh : v ≤ 0xffff)
    (hscalar : v < 0xd800 ∨ 0xdfff < v) (rest : List UInt8) :
    read none (UInt8.ofNat (v / 4096 % 0x10 + 0xe0) :: UInt8.ofNat (v / 64 % 0x40 + 0x80) ::
      UInt8.ofNat (v % 0x40 + 0x80) :: rest) = Char.ofNat v :: read none rest := by
  have hbegun (value : ℕ) (low high : UInt8) (hvalue : value = v / 4096)
      (hsecond : low.toNat ≤ 0x80 + v / 64 % 0x40 ∧ 0x80 + v / 64 % 0x40 ≤ high.toNat) :
      read (some ⟨value, 1, low, high⟩) (UInt8.ofNat (v / 64 % 0x40 + 0x80) ::
        UInt8.ofNat (v % 0x40 + 0x80) :: rest) = Char.ofNat v :: read none rest := by
    rw [read, next_ofNat (by omega) hsecond]
    dsimp only
    rw [List.nil_append, read, next_ofNat (by omega) ⟨by simp, by simp; omega⟩]
    have hvalue : (value * 64 + v / 64 % 0x40) * 64 + v % 0x40 = v := by omega
    dsimp only
    rw [hvalue]
    rfl
  rw [read, first_ofNat (by omega), if_neg (by omega), if_neg (by omega), if_neg (by omega)]
  split_ifs with hE0 hED hlast
  · exact hbegun 0 0xA0 0xBF (by omega) ⟨by simp; omega, by simp; omega⟩
  · exact hbegun 13 0x80 0x9F (by omega) ⟨by simp, by simp; omega⟩
  · exact hbegun _ 0x80 0xBF (by omega) ⟨by simp, by simp; omega⟩
  all_goals omega

theorem read_four {v : ℕ} (hlow : 0x10000 ≤ v) (hhigh : v < 0x110000) (rest : List UInt8) :
    read none (UInt8.ofNat (v / 262144 % 0x08 + 0xf0) :: UInt8.ofNat (v / 4096 % 0x40 + 0x80) ::
      UInt8.ofNat (v / 64 % 0x40 + 0x80) :: UInt8.ofNat (v % 0x40 + 0x80) :: rest) =
      Char.ofNat v :: read none rest := by
  have hbegun (value : ℕ) (low high : UInt8) (hvalue : value = v / 262144)
      (hsecond : low.toNat ≤ 0x80 + v / 4096 % 0x40 ∧ 0x80 + v / 4096 % 0x40 ≤ high.toNat) :
      read (some ⟨value, 2, low, high⟩) (UInt8.ofNat (v / 4096 % 0x40 + 0x80) ::
        UInt8.ofNat (v / 64 % 0x40 + 0x80) :: UInt8.ofNat (v % 0x40 + 0x80) :: rest) =
        Char.ofNat v :: read none rest := by
    rw [read, next_ofNat (by omega) hsecond]
    dsimp only
    rw [List.nil_append, read, next_ofNat (by omega) ⟨by simp, by simp; omega⟩]
    dsimp only
    rw [List.nil_append, read, next_ofNat (by omega) ⟨by simp, by simp; omega⟩]
    have hvalue : ((value * 64 + v / 4096 % 0x40) * 64 + v / 64 % 0x40) * 64 + v % 0x40 = v := by
      omega
    dsimp only
    rw [hvalue]
    rfl
  rw [read, first_ofNat (by omega), if_neg (by omega), if_neg (by omega), if_neg (by omega),
    if_neg (by omega), if_neg (by omega), if_neg (by omega)]
  split_ifs with hF0 hmiddle hF4
  · exact hbegun 0 0x90 0xBF (by omega) ⟨by simp; omega, by simp; omega⟩
  · exact hbegun _ 0x80 0xBF (by omega) ⟨by simp, by simp; omega⟩
  · exact hbegun 4 0x80 0x8F (by omega) ⟨by simp, by simp; omega⟩
  · omega

/-- A character's bytes are read as the character. -/
theorem read_utf8EncodeChar (c : Char) (rest : List UInt8) :
    read none (String.utf8EncodeChar c ++ rest) = c :: read none rest := by
  have hc : Char.ofNat c.val.toNat = c := Char.ofNat_toNat c
  rw [String.utf8EncodeChar]
  split_ifs with hone htwo hthree
  · rw [List.singleton_append, read, first_ofNat (by omega), if_pos (by omega), hc]
    rfl
  · exact (read_two (by omega) htwo rest).trans (by rw [hc])
  · have hvalid := c.valid
    have hscalar : c.val.toNat < 0xd800 ∨ 0xdfff < c.val.toNat := by
      rcases hvalid with hlow | ⟨hhigh, -⟩
      · exact Or.inl hlow
      · exact Or.inr hhigh
    exact (read_three (by omega) hthree hscalar rest).trans (by rw [hc])
  · have hbound : c.val.toNat < 0x110000 := by
      rcases c.valid with hlow | ⟨-, hhigh⟩
      · exact Nat.lt_trans hlow (by decide)
      · exact hhigh
    exact (read_four (by omega) hbound rest).trans (by rw [hc])

end Utf8

/-- A text is read back from its bytes. -/
theorem fromUtf8Lossy_bytes (text : Text) : fromUtf8Lossy (bytes text) = text := by
  induction text with
  | nil => rfl
  | cons c rest ih =>
      rw [bytes_cons, fromUtf8Lossy, Utf8.read_utf8EncodeChar]
      exact congrArg (List.cons c) ih

theorem bytes_injective : Function.Injective bytes := by
  intro left right heq
  rw [← fromUtf8Lossy_bytes left, heq, fromUtf8Lossy_bytes]

example : fromUtf8Lossy [0x63, 0xC3, 0xA9, 0xE2, 0x82, 0x2F] =
    ['c', 'é', replacement, '/'] := by decide +kernel

end EasyWaf.Text

/-!
## Lines and quoted values

The rest of the standard library's string functions that a hand-written reader
of key and value lines uses.
-/

namespace EasyWaf.Text

/-- What lies between the occurrences of a separator, at most so many of them. -/
def splitTextWithin (separator : Text) : ℕ → Text → List Text
  | 0, text => [text]
  | count + 1, text =>
      match text.dropInfix? separator with
      | some (before, after) => before :: splitTextWithin separator count after
      | none => [text]

/-- `str::split` at a separator of more than one character. -/
def splitText (separator text : Text) : List Text := splitTextWithin separator text.length text

/-- `str::lines`. -/
def lines (text : Text) : List Text :=
  let pieces := text.splitOn '\n'
  let ended := pieces.dropLast.map fun line =>
    if line.getLast? = some '\r' then line.dropLast else line
  match pieces.getLast? with
  | some [] | none => ended
  | some last => ended ++ [last]

/-- `str::strip_prefix`. -/
def stripPrefix (start text : Text) : Option Text := text.dropPrefix? start

def trimStart (text : Text) : Text := trimStartMatches isWhitespace text

def trimMatches (matching : Char → Bool) (text : Text) : Text :=
  trimEndMatches matching (trimStartMatches matching text)

/-- `String::from_utf8`: bytes that decode to a text they encode. -/
def fromUtf8 (bytes : List UInt8) : Option Text :=
  if (fromUtf8Lossy bytes).bytes = bytes then some (fromUtf8Lossy bytes) else none

theorem fromUtf8_bytes (text : Text) : fromUtf8 (bytes text) = some text := by
  rw [fromUtf8, fromUtf8Lossy_bytes, if_pos rfl]

end EasyWaf.Text
