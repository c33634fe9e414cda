import EasyWaf.Text.Utf8

/-!
# Header names and values

A header's value is bytes, none of them a control character but the tab.  It can
be read as text where every byte is a visible ASCII character.
-/

namespace EasyWaf.Http

/-- The longest name `HeaderName` holds. -/
def maxHeaderName : ℕ := 65535

/-- `HeaderName::from_bytes` accepts: a token, not empty. -/
def isHeaderName (name : Text) : Bool :=
  !name.isEmpty && name.length ≤ maxHeaderName &&
    name.all fun c => c.isAlphanum || "!#$%&'*+-.^_`|~".toList.contains c

/-- A byte a header's value may hold. -/
def isValueByte (byte : UInt8) : Bool := (32 ≤ byte && byte != 127) || byte == 9

/-- A byte `to_str` reads. -/
def isVisible (byte : UInt8) : Bool := (32 ≤ byte && byte < 127) || byte == 9

structure HeaderValue where
  bytes : List UInt8
  legal : ∀ byte ∈ bytes, isValueByte byte
  deriving DecidableEq

namespace HeaderValue

def isText (value : HeaderValue) : Bool := value.bytes.all isVisible

def charOf (byte : UInt8) : Char := Char.ofNat byte.toNat

/-- `to_str`. -/
def toStr (value : HeaderValue) : Option Text :=
  if value.isText then some (value.bytes.map charOf) else none

def append (left right : HeaderValue) : HeaderValue where
  bytes := left.bytes ++ right.bytes
  legal := by simpa only [List.forall_mem_append] using ⟨left.legal, right.legal⟩

instance : Append HeaderValue := ⟨append⟩

@[simp]
theorem bytes_append (left right : HeaderValue) : (left ++ right).bytes = left.bytes ++ right.bytes :=
  rfl

@[simp]
theorem isText_append (left right : HeaderValue) :
    (left ++ right).isText = (left.isText && right.isText) := by
  simp [isText]

theorem toStr_of_isText {value : HeaderValue} (htext : value.isText) :
    value.toStr = some (value.bytes.map charOf) := if_pos htext

theorem toStr_eq_none {value : HeaderValue} (htext : value.isText = false) :
    value.toStr = none := by
  simp [toStr, htext]

/-- `from_bytes`. -/
def fromBytes (bytes : List UInt8) : Option HeaderValue :=
  if legal : ∀ byte ∈ bytes, isValueByte byte then some ⟨bytes, legal⟩ else none

theorem fromBytes_eq_some {bytes : List UInt8} (hlegal : ∀ byte ∈ bytes, isValueByte byte) :
    fromBytes bytes = some ⟨bytes, hlegal⟩ := dif_pos hlegal

theorem bytes_of_fromBytes {bytes : List UInt8} {value : HeaderValue}
    (hvalue : fromBytes bytes = some value) : value.bytes = bytes := by
  rw [fromBytes] at hvalue
  split at hvalue
  · rw [← Option.some.inj hvalue]
  · contradiction

/-- `from_str`. -/
def fromStr (text : Text) : Option HeaderValue := fromBytes text.bytes

/-- A text of visible characters is a value that reads back. -/
theorem fromStr_of_visible {text : Text}
    (hvisible : ∀ c ∈ text, c.toNat < 0x80 ∧ isVisible (UInt8.ofNat c.toNat)) :
    ∃ value, fromStr text = some value ∧ value.toStr = some text := by
  have hbytes : text.bytes = text.map fun c => UInt8.ofNat c.toNat :=
    Text.bytes_of_ascii fun c hc => (hvisible c hc).1
  have hshown : ∀ byte ∈ text.bytes, isVisible byte = true := by
    rw [hbytes]
    exact List.forall_mem_map.mpr fun c hc => (hvisible c hc).2
  have hlegal : ∀ byte ∈ text.bytes, isValueByte byte = true := by
    intro byte hmem
    have hbyte := hshown byte hmem
    simp only [isVisible, isValueByte, Bool.or_eq_true, Bool.and_eq_true, decide_eq_true_eq,
      bne_iff_ne, beq_iff_eq] at hbyte ⊢
    exact hbyte.imp_left fun ⟨hlow, hhigh⟩ => ⟨hlow, UInt8.ne_of_lt hhigh⟩
  refine ⟨⟨text.bytes, hlegal⟩, fromBytes_eq_some hlegal, ?_⟩
  rw [toStr_of_isText (List.all_eq_true.mpr hshown)]
  change some (text.bytes.map charOf) = some text
  rw [hbytes, List.map_map]
  apply congrArg some
  refine (List.map_congr_left fun c hc => ?_).trans (List.map_id text)
  have hlt := (hvisible c hc).1
  rw [Function.comp_apply, charOf, UInt8.toNat_ofNat', Nat.mod_eq_of_lt (by omega)]
  exact Char.ofNat_toNat c

/-- What reads as text can be written again. -/
theorem fromStr_of_toStr {value : HeaderValue} {text : Text} (hread : value.toStr = some text) :
    ∃ again, fromStr text = some again ∧ again.toStr = some text := by
  rw [toStr] at hread
  split at hread
  · rename_i htext
    rw [← Option.some.inj hread]
    apply fromStr_of_visible
    intro c hc
    obtain ⟨byte, hbyte, rfl⟩ := List.mem_map.mp hc
    have hvisible := List.all_eq_true.mp htext byte hbyte
    have hsmall : byte.toNat < 0x80 := by
      simp only [isVisible, Bool.or_eq_true, Bool.and_eq_true, decide_eq_true_eq,
        beq_iff_eq] at hvisible
      rcases hvisible with ⟨-, hlt⟩ | rfl
      · exact Nat.lt_trans (UInt8.lt_iff_toNat_lt.mp hlt) (by decide)
      · decide
    have hnat : (charOf byte).toNat = byte.toNat := by
      rw [charOf, Char.toNat_ofNat, if_pos (Or.inl (by omega))]
    rw [hnat]
    exact ⟨hsmall, by rwa [UInt8.ofNat_toNat]⟩
  · contradiction

end HeaderValue

/-- The values of each header, in order, under the header's name in lower case. -/
structure HeaderMap where
  getAll : Text → List HeaderValue

namespace HeaderMap

/-- The first value. -/
def get (headers : HeaderMap) (name : Text) : Option HeaderValue := (headers.getAll name).head?

def remove (headers : HeaderMap) (name : Text) : HeaderMap :=
  ⟨Function.update headers.getAll name []⟩

/-- One value in place of all there are. -/
def insert (headers : HeaderMap) (name : Text) (value : HeaderValue) : HeaderMap :=
  ⟨Function.update headers.getAll name [value]⟩

variable (headers : HeaderMap) {name other : Text}

@[simp]
theorem getAll_remove_self : (headers.remove name).getAll name = [] :=
  Function.update_self ..

@[simp]
theorem getAll_insert_self (value : HeaderValue) :
    (headers.insert name value).getAll name = [value] :=
  Function.update_self ..

theorem getAll_remove_of_ne (hne : other ≠ name) :
    (headers.remove name).getAll other = headers.getAll other :=
  Function.update_of_ne hne ..

theorem getAll_insert_of_ne (hne : other ≠ name) (value : HeaderValue) :
    (headers.insert name value).getAll other = headers.getAll other :=
  Function.update_of_ne hne ..

/-- Each of these headers removed. -/
def removeAll (headers : HeaderMap) (names : List Text) : HeaderMap := names.foldl remove headers

theorem getAll_removeAll (names : List Text) (name : Text) :
    (headers.removeAll names).getAll name = if name ∈ names then [] else headers.getAll name := by
  induction names generalizing headers with
  | nil => rfl
  | cons first rest ih =>
      rw [removeAll, List.foldl_cons]
      refine (ih (headers.remove first)).trans ?_
      by_cases hrest : name ∈ rest
      · rw [if_pos hrest, if_pos (List.mem_cons_of_mem first hrest)]
      · rw [if_neg hrest]
        by_cases hfirst : name = first
        · rw [if_pos (hfirst ▸ List.mem_cons_self), hfirst, getAll_remove_self]
        · rw [getAll_remove_of_ne headers hfirst, if_neg]
          exact fun hmem => (List.mem_cons.mp hmem).elim hfirst hrest

section Agreement

variable {names : List Text} {left right : HeaderMap}

/-- Two requests' headers but for these are the same. -/
def AgreeExcept (names : List Text) (left right : HeaderMap) : Prop :=
  ∀ name, name ∉ names → left.getAll name = right.getAll name

theorem AgreeExcept.get (hagree : AgreeExcept names left right) {name : Text}
    (hname : name ∉ names) : left.get name = right.get name :=
  congrArg List.head? (hagree name hname)

theorem AgreeExcept.remove (hagree : AgreeExcept names left right) (removed : Text) :
    AgreeExcept names (left.remove removed) (right.remove removed) := by
  intro name hname
  by_cases hremoved : name = removed
  · rw [hremoved, getAll_remove_self, getAll_remove_self]
  · rw [getAll_remove_of_ne left hremoved, getAll_remove_of_ne right hremoved, hagree name hname]

theorem AgreeExcept.insert (hagree : AgreeExcept names left right) (inserted : Text)
    (value : HeaderValue) :
    AgreeExcept names (left.insert inserted value) (right.insert inserted value) := by
  intro name hname
  by_cases hinserted : name = inserted
  · rw [hinserted, getAll_insert_self, getAll_insert_self]
  · rw [getAll_insert_of_ne left hinserted, getAll_insert_of_ne right hinserted, hagree name hname]

theorem AgreeExcept.removeAll (hagree : AgreeExcept names left right) (removed : List Text) :
    AgreeExcept names (left.removeAll removed) (right.removeAll removed) := by
  intro name hname
  rw [getAll_removeAll, getAll_removeAll, hagree name hname]

/-- Headers that agree but for some agree on those where both have lost them. -/
theorem AgreeExcept.eq_of_empty (hagree : AgreeExcept names left right)
    (hnames : ∀ name ∈ names, left.getAll name = right.getAll name) : left = right := by
  rw [HeaderMap.mk.injEq]
  funext name
  by_cases hname : name ∈ names
  · exact hnames name hname
  · exact hagree name hname

end Agreement

end HeaderMap

end EasyWaf.Http
