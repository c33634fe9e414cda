import EasyWaf.Modules.Decodings

/-!
# The loops of the escape decoders

Each decoder is a loop over the places of its bytes that reads ahead of the place
it is at.  A read out of range and a number of more than 32 bits stop it.
-/

namespace EasyWaf.Modules.EscapeLoops

open Decoders EasyWaf.Core Transform

section Reads

/-- `b[i]`. -/
def readAt (bytes : List UInt8) (place : ℕ) : Except Stop UInt8 :=
  match bytes[place]? with
  | some byte => .ok byte
  | none => .error .outOfRange

/-- `&b[start..stop]`. -/
def slice (bytes : List UInt8) (start stop : ℕ) : Except Stop (List UInt8) :=
  if start ≤ stop ∧ stop ≤ bytes.length then .ok ((bytes.drop start).take (stop - start))
  else .error .outOfRange

/-- A number of 32 bits. -/
def u32 (value : ℕ) : Except Stop ℕ := if value < 2 ^ 32 then .ok value else .error .overflow

/-- `hex_value`, some digits in. -/
def hexFrom : (value : ℕ) → List UInt8 → Except Stop (Option ℕ)
  | value, [] => .ok (some value)
  | value, byte :: rest => do
      let shifted ← u32 (value * 16)
      match toDigit 16 byte with
      | some digit => hexFrom (← u32 (shifted + digit)) rest
      | none => .ok none

/-- `hex_value` of the bytes between two places. -/
def hexAt (bytes : List UInt8) (start stop : ℕ) : Except Stop (Option ℕ) := do
  hexFrom 0 (← slice bytes start stop)

/-- The loop over the digits of an escape, of which it may have so many more: the
number they are, and how many there were. -/
def digitsFrom (bytes : List UInt8) (radix start : ℕ) :
    (more used value : ℕ) → Except Stop (ℕ × ℕ)
  | 0, used, value => .ok (value, used)
  | more + 1, used, value =>
      if start + used < bytes.length then do
        match toDigit radix (← readAt bytes (start + used)) with
        | some digit =>
            let shifted ← u32 (value * radix)
            digitsFrom bytes radix start more (used + 1) (← u32 (shifted + digit))
        | none => .ok (value, used)
      else .ok (value, used)

end Reads

section Rounds

variable (bytes : List UInt8)

/-- `hex_value` of the bytes between two places, where there are so many. -/
def hexWithin (start stop : ℕ) : Except Stop (Option ℕ) :=
  if stop ≤ bytes.length then hexAt bytes start stop else .ok none

/-- The code of a `u` and four digits, where there are so many. -/
def wideAt (place : ℕ) : Except Stop (Option ℕ) :=
  if place + 6 ≤ bytes.length then do
    if lowered (← readAt bytes (place + 1)) = 0x75 then hexAt bytes (place + 2) (place + 6)
    else .ok none
  else .ok none

/-- A round of `url_decode_uni`. -/
def uniRound : Round UInt8 := fun place => do
  let byte ← readAt bytes place
  if byte = 37 then
    match ← wideAt bytes place with
    | some code => .ok (place + 6, [foldWide code])
    | none =>
        match ← hexWithin bytes (place + 1) (place + 3) with
        | some code => .ok (place + 3, [UInt8.ofNat code])
        | none => .ok (place + 1, [byte])
  else .ok (place + 1, [byte])

/-- The loop over the digits of an entity's number, in so many rounds at most. -/
def entityDigits (rest : List UInt8) (radix : ℕ) :
    (rounds place value : ℕ) → Except Stop (ℕ × ℕ)
  | 0, _, _ => .error .unfinished
  | rounds + 1, place, value =>
      match rest[place]?.bind (toDigit radix) with
      | some digit =>
          entityDigits rest radix rounds (place + 1) (saturating (saturating (value * radix) + digit))
      | none => .ok (value, place)

/-- The loop over the entities that have a name. -/
def namedFrom (rest : List UInt8) :
    List (List UInt8 × UInt8) → Except Stop (Option (UInt8 × ℕ))
  | [] => .ok none
  | (name, byte) :: more =>
      if name.length ≤ rest.length then do
        if (← slice rest 0 name.length).map asciiLowercase = name then
          .ok (some (byte, if rest[name.length]? = some 59 then name.length + 1 else name.length))
        else namedFrom rest more
      else namedFrom rest more

/-- `entity_at`, as its loops read it. -/
def readEntity (rest : List UInt8) : Except Stop (Option (UInt8 × ℕ)) :=
  if rest.head? = some 35 then do
    let (radix, start) := if rest[1]?.map lowered = some 0x78 then (16, 2) else (10, 1)
    let (value, last) ← entityDigits rest radix (rest.length + 1) start 0
    if last = start then .ok none
    else .ok (some (UInt8.ofNat value, if rest[last]? = some 59 then last + 1 else last))
  else namedFrom rest names

/-- A round of `html_entity_decode`. -/
def htmlRound : Round UInt8 := fun place => do
  let byte ← readAt bytes place
  if byte = 38 then
    match ← readEntity (← slice bytes (place + 1) bytes.length) with
    | some (out, used) => .ok (place + 1 + used, [out])
    | none => .ok (place + 1, [byte])
  else .ok (place + 1, [byte])

/-- The code of the digits after a letter, where it is that letter and there are so
many. -/
def letteredAt (byte letter : UInt8) (start stop : ℕ) : Except Stop (Option ℕ) :=
  if lowered byte = letter then hexWithin bytes start stop else .ok none

/-- A round of `js_decode`. -/
def jsRound : Round UInt8 := fun place => do
  let byte ← readAt bytes place
  if byte ≠ 92 ∨ bytes.length ≤ place + 1 then .ok (place + 1, [byte])
  else
    let letter ← readAt bytes (place + 1)
    match ← letteredAt bytes letter 0x75 (place + 2) (place + 6) with
    | some code => .ok (place + 6, [foldWide code])
    | none =>
        match ← letteredAt bytes letter 0x78 (place + 2) (place + 4) with
        | some code => .ok (place + 4, [UInt8.ofNat code])
        | none =>
            if (toDigit 8 letter).isSome then
              let (value, used) ← digitsFrom bytes 8 (place + 1) 3 0 0
              .ok (place + 1 + used, [UInt8.ofNat value])
            else .ok (place + 2, [jsNamed letter])

/-- Whether a byte of the kind stands at a place, where there is one. -/
def standsAt (kind : UInt8 → Bool) (place : ℕ) : Except Stop Bool :=
  if place < bytes.length then (readAt bytes place).map kind else .ok false

/-- A round of `css_decode`. -/
def cssRound : Round UInt8 := fun place => do
  let byte ← readAt bytes place
  if byte ≠ 92 ∨ bytes.length ≤ place + 1 then .ok (place + 1, [byte])
  else
    let first ← readAt bytes (place + 1)
    if isNewline first then
      let pair ← standsAt bytes (fun second => isNewline second && second != first) (place + 2)
      .ok (if pair then place + 3 else place + 2, [])
    else if (toDigit 16 first).isSome then
      let (value, used) ← digitsFrom bytes 16 (place + 1) 6 0 0
      let space ← standsAt bytes isCssSpace (place + 1 + used)
      .ok (if space then place + 1 + used + 1 else place + 1 + used, [UInt8.ofNat value])
    else .ok (place + 2, [first])

/-- Whether a letter is an `x` with two digits after it, at the places given. -/
def hexFollows (letter : UInt8) (place : ℕ) : Except Stop Bool :=
  if lowered letter = 0x78 ∧ place + 3 < bytes.length then do
    if (toDigit 16 (← readAt bytes (place + 2))).isSome then
      (readAt bytes (place + 3)).map fun low => (toDigit 16 low).isSome
    else .ok false
  else .ok false

/-- A round of `escape_seq_decode`. -/
def seqRound : Round UInt8 := fun place => do
  let byte ← readAt bytes place
  if byte ≠ 92 ∨ bytes.length ≤ place + 1 then .ok (place + 1, [byte])
  else
    let letter ← readAt bytes (place + 1)
    match cNamed letter with
    | some named => .ok (place + 2, [named])
    | none =>
        if ← hexFollows bytes letter place then
          .ok (place + 4, [UInt8.ofNat (number 16 (← slice bytes (place + 2) (place + 4)))])
        else if (toDigit 8 letter).isSome then
          let ahead ← slice bytes (place + 1) bytes.length
          let used := ((ahead.take 3).takeWhile fun digit => (toDigit 8 digit).isSome).length
          let digits ← slice bytes (place + 1) (place + 1 + used)
          .ok (place + 1 + used, [UInt8.ofNat (number 8 digits)])
        else .ok (place + 2, [letter])

end Rounds

section ReadsAhead

variable (front rest : List UInt8)

theorem bind_ok {α β : Type} (value : α) (next : α → Except Stop β) :
    (Except.ok value >>= next) = next value := rfl

theorem toDigit_lt {radix digit : ℕ} {byte : UInt8} (hdigit : toDigit radix byte = some digit) :
    digit < radix := by
  obtain ⟨value, -, hvalue⟩ := Option.bind_eq_some_iff.mp hdigit
  split at hvalue
  · rwa [← Option.some.inj hvalue]
  · contradiction

theorem u32_of_lt {value : ℕ} (hvalue : value < 2 ^ 32) : u32 value = .ok value := if_pos hvalue

/-- What stands from a place on is read as if it stood alone. -/
theorem readAt_append (place : ℕ) :
    readAt (front ++ rest) (front.length + place) = readAt rest place := by
  rw [readAt, List.getElem?_append_right (Nat.le_add_right _ _), Nat.add_sub_cancel_left]
  rfl

theorem readAt_here (symbol : UInt8) : readAt (front ++ symbol :: rest) front.length = .ok symbol :=
  readAt_append front (symbol :: rest) 0

theorem slice_append (start stop : ℕ) :
    slice (front ++ rest) (front.length + start) (front.length + stop) = slice rest start stop := by
  rw [slice, slice, List.drop_append, List.drop_eq_nil_of_le (Nat.le_add_right _ _),
    List.nil_append, Nat.add_sub_cancel_left, Nat.add_sub_add_left, List.length_append]
  simp only [Nat.add_le_add_iff_left]

theorem hexAt_append (start stop : ℕ) :
    hexAt (front ++ rest) (front.length + start) (front.length + stop) = hexAt rest start stop := by
  rw [hexAt, slice_append]
  rfl

theorem digitsFrom_append (radix start more used value : ℕ) :
    digitsFrom (front ++ rest) radix (front.length + start) more used value =
      digitsFrom rest radix start more used value := by
  induction more generalizing used value with
  | zero => rfl
  | succ more ih =>
      rw [digitsFrom, digitsFrom, Nat.add_assoc, readAt_append, List.length_append]
      simp only [Nat.add_lt_add_iff_left, ih]

/-- Eight digits at most are a number of 32 bits. -/
theorem hexFrom_eq (digits : List UInt8) {before value : ℕ} (hvalue : value < 16 ^ before)
    (hdigits : before + digits.length ≤ 8) :
    hexFrom value digits =
      .ok (digits.foldlM (fun value digit => (toDigit 16 digit).map (value * 16 + ·)) value) := by
  induction digits generalizing before value with
  | nil => rfl
  | cons byte rest ih =>
      rw [List.length_cons] at hdigits
      have hpower : 16 ^ (before + 1) ≤ 2 ^ 32 := by
        calc 16 ^ (before + 1) ≤ 16 ^ 8 := Nat.pow_le_pow_right (by omega) (by omega)
          _ = 2 ^ 32 := by norm_num
      rw [pow_succ] at hpower
      rw [hexFrom, u32_of_lt (by omega), bind_ok, List.foldlM_cons]
      cases hdigit : toDigit 16 byte with
      | none => rfl
      | some digit =>
          have hsmall : digit < 16 := toDigit_lt hdigit
          have hnext : value * 16 + digit < 16 ^ (before + 1) := by rw [pow_succ]; omega
          dsimp only
          rw [u32_of_lt (by omega), bind_ok, ih hnext (by omega)]
          rfl

/-- Digits up to a number of 32 bits are read to the last of them, or to the most
there may be. -/
theorem digitsFrom_eq {bytes ahead : List UInt8} {radix start used : ℕ} (hradix : radix ≤ 16)
    (more : ℕ) {value : ℕ} (hvalue : value < radix ^ used) (hmost : used + more ≤ 8)
    (hahead : bytes.drop (start + used) = ahead) :
    digitsFrom bytes radix start more used value =
      .ok ((digitsOf radix more ahead).foldl
        (fun value byte => value * radix + (toDigit radix byte).getD 0) value,
        used + (digitsOf radix more ahead).length) := by
  induction more generalizing used value ahead with
  | zero => rw [digitsFrom, digitsOf, List.take_zero]; rfl
  | succ more ih =>
      rw [digitsFrom]
      cases ahead with
      | nil =>
          have hend : bytes.length ≤ start + used := List.drop_eq_nil_iff.mp hahead
          rw [if_neg (by omega)]
          rfl
      | cons byte rest =>
          have hread : bytes[start + used]? = some byte := by
            rw [← List.head?_drop, hahead, List.head?_cons]
          have hin : start + used < bytes.length := (List.getElem?_eq_some_iff.mp hread).1
          have hrest : bytes.drop (start + (used + 1)) = rest := by
            rw [← Nat.add_assoc, ← List.drop_drop, hahead, List.drop_one, List.tail_cons]
          rw [if_pos hin, readAt, hread, bind_ok, digitsOf, List.take_succ_cons]
          cases hdigit : toDigit radix byte with
          | none => rw [List.takeWhile_cons_of_neg (by rw [hdigit]; simp)]; rfl
          | some digit =>
              have hsmall : digit < radix := toDigit_lt hdigit
              have hnext : value * radix + digit < radix ^ (used + 1) := by
                calc value * radix + digit < value * radix + radix := by omega
                  _ = (value + 1) * radix := by ring
                  _ ≤ radix ^ used * radix := Nat.mul_le_mul_right radix hvalue
                  _ = radix ^ (used + 1) := (pow_succ radix used).symm
              have hpower : radix ^ (used + 1) ≤ 2 ^ 32 := by
                calc radix ^ (used + 1) ≤ 16 ^ (used + 1) := Nat.pow_le_pow_left hradix (used + 1)
                  _ ≤ 16 ^ 8 := Nat.pow_le_pow_right (by omega) (by omega)
                  _ = 2 ^ 32 := by norm_num
              rw [List.takeWhile_cons_of_pos (by rw [hdigit]; rfl), List.foldl_cons,
                List.length_cons, hdigit, Option.getD_some]
              dsimp only
              rw [u32_of_lt (by omega), bind_ok, u32_of_lt (by omega), bind_ok,
                ih hnext (by omega) hrest, digitsOf, Nat.add_assoc used 1,
                Nat.add_comm 1 (List.length _)]

/-- The digits of an entity's number are read to the last of them. -/
theorem entityDigits_eq {rest ahead : List UInt8} {radix place : ℕ} (rounds value : ℕ)
    (hahead : rest.drop place = ahead) (henough : ahead.length < rounds) :
    entityDigits rest radix rounds place value =
      .ok ((ahead.takeWhile fun byte => (toDigit radix byte).isSome).foldl
        (fun value byte => saturating (saturating (value * radix) + (toDigit radix byte).getD 0))
          value,
        place + (ahead.takeWhile fun byte => (toDigit radix byte).isSome).length) := by
  induction rounds generalizing place value ahead with
  | zero => exact absurd henough (Nat.not_lt_zero _)
  | succ rounds ih =>
      rw [entityDigits, ← List.head?_drop, hahead]
      cases ahead with
      | nil => rfl
      | cons byte tail =>
          have htail : rest.drop (place + 1) = tail := by
            rw [← List.drop_drop, hahead, List.drop_one, List.tail_cons]
          rw [List.length_cons] at henough
          rw [List.head?_cons, Option.bind_some]
          cases hdigit : toDigit radix byte with
          | none => rw [List.takeWhile_cons_of_neg (by rw [hdigit]; simp)]; rfl
          | some digit =>
              rw [List.takeWhile_cons_of_pos (by rw [hdigit]; rfl), List.foldl_cons,
                List.length_cons, hdigit, Option.getD_some]
              dsimp only
              rw [ih _ htail (by omega), Nat.add_assoc place 1, Nat.add_comm 1 (List.length _)]

theorem namedFrom_eq (rest : List UInt8) (named : List (List UInt8 × UInt8)) :
    namedFrom rest named = .ok (named.findSome? fun (name, byte) =>
      if (rest.take name.length).map asciiLowercase = name then
        some (byte, if rest[name.length]? = some 59 then name.length + 1 else name.length)
      else none) := by
  induction named with
  | nil => rfl
  | cons entity more ih =>
      obtain ⟨name, byte⟩ := entity
      rw [namedFrom, List.findSome?_cons, ih]
      dsimp only
      by_cases hfits : name.length ≤ rest.length
      · rw [if_pos hfits, slice, if_pos ⟨Nat.zero_le _, hfits⟩, bind_ok, List.drop_zero,
          Nat.sub_zero]
        by_cases hname : (rest.take name.length).map asciiLowercase = name
        · rw [if_pos hname, if_pos hname]
        · rw [if_neg hname, if_neg hname]
      · have hshort : (rest.take name.length).map asciiLowercase ≠ name := by
          intro hname
          have hlength := congrArg List.length hname
          rw [List.length_map, List.length_take] at hlength
          omega
        rw [if_neg hfits, if_neg hshort]

/-- Reading an entity neither reads out of range nor goes on for ever. -/
theorem readEntity_eq (rest : List UInt8) : readEntity rest = .ok (entityAt rest) := by
  rw [readEntity, entityAt]
  by_cases hnumber : rest.head? = some 35
  · rw [if_pos hnumber, if_pos hnumber, numberedEntity]
    set begins : ℕ × ℕ := if rest[1]?.map lowered = some 0x78 then (16, 2) else (10, 1)
    obtain ⟨radix, start⟩ := begins
    have hrounds : (rest.drop start).length < rest.length + 1 := by
      rw [List.length_drop]
      omega
    dsimp only
    rw [entityDigits_eq _ _ rfl hrounds, bind_ok]
    dsimp only
    cases (rest.drop start).takeWhile fun byte => (toDigit radix byte).isSome with
    | nil => rw [List.length_nil, Nat.add_zero, if_pos rfl]; rfl
    | cons digit digits =>
        rw [if_neg (by rw [List.length_cons]; omega)]
        rfl
  · rw [if_neg hnumber, if_neg hnumber, namedFrom_eq]
    rfl

end ReadsAhead

section Turns

variable (front rest : List UInt8)

/-- The code of a `u` and four digits. -/
def wideCode : List UInt8 → Option ℕ
  | letter :: a :: b :: c :: d :: _ =>
      if lowered letter = 0x75 then hexNumber [a, b, c, d] else none
  | _ => none

/-- The code of two digits. -/
def byteCode : List UInt8 → Option ℕ
  | a :: b :: _ => hexNumber [a, b]
  | _ => none

theorem wideEscape_eq_map :
    wideEscape rest = (wideCode rest).map fun code => ([foldWide code], 5) := by
  fun_cases wideCode rest with
  | case1 letter a b c d tail hletter => rw [wideEscape, if_pos hletter]
  | case2 letter a b c d tail hletter => rw [wideEscape, if_neg hletter]; rfl
  | case3 rest hshort => rw [wideEscape.eq_2 rest hshort]; rfl

theorem byteEscape_eq_map :
    byteEscape rest = (byteCode rest).map fun code => ([UInt8.ofNat code], 2) := by
  fun_cases byteCode rest with
  | case1 a b tail => rfl
  | case2 rest hshort => rw [byteEscape.eq_2 rest hshort]; rfl

theorem wideCode_of_length_lt (hshort : rest.length < 5) : wideCode rest = none := by
  fun_cases wideCode rest with
  | case1 letter a b c d tail hletter => simp only [List.length_cons] at hshort; omega
  | case2 letter a b c d tail hletter => rfl
  | case3 hshort => rfl

theorem byteCode_of_length_lt (hshort : rest.length < 2) : byteCode rest = none := by
  fun_cases byteCode rest with
  | case1 a b tail => simp only [List.length_cons] at hshort; omega
  | case2 hshort => rfl

theorem hexAt_four (marker letter a b c d : UInt8) :
    hexAt (marker :: letter :: a :: b :: c :: d :: rest) 2 6 = .ok (hexNumber [a, b, c, d]) := by
  rw [hexAt, slice, if_pos (by simp), bind_ok]
  exact hexFrom_eq [a, b, c, d] (Nat.pow_pos (n := 0) (by decide)) (by simp)

theorem hexAt_two (marker letter a b : UInt8) :
    hexAt (marker :: letter :: a :: b :: rest) 2 4 = .ok (hexNumber [a, b]) := by
  rw [hexAt, slice, if_pos (by simp), bind_ok]
  exact hexFrom_eq [a, b] (Nat.pow_pos (n := 0) (by decide)) (by simp)

theorem hexAt_next (marker a b : UInt8) :
    hexAt (marker :: a :: b :: rest) 1 3 = .ok (hexNumber [a, b]) := by
  rw [hexAt, slice, if_pos (by simp), bind_ok]
  exact hexFrom_eq [a, b] (Nat.pow_pos (n := 0) (by decide)) (by simp)

theorem exists_of_five_le (hlong : 5 ≤ rest.length) :
    ∃ letter a b c d tail, rest = letter :: a :: b :: c :: d :: tail := by
  match rest, hlong with
  | letter :: a :: b :: c :: d :: tail, _ => exact ⟨letter, a, b, c, d, tail, rfl⟩

theorem exists_of_two_le (hlong : 2 ≤ rest.length) : ∃ a b tail, rest = a :: b :: tail := by
  match rest, hlong with
  | a :: b :: tail, _ => exact ⟨a, b, tail, rfl⟩

theorem length_append_cons (marker : UInt8) (more : ℕ) :
    front.length + (more + 1) ≤ (front ++ marker :: rest).length ↔ more ≤ rest.length := by
  rw [List.length_append, List.length_cons, Nat.add_le_add_iff_left, Nat.add_le_add_iff_right]

theorem hexWithin_append (marker : UInt8) (start more : ℕ) :
    hexWithin (front ++ marker :: rest) (front.length + start) (front.length + (more + 1)) =
      if more ≤ rest.length then hexAt (marker :: rest) start (more + 1) else .ok none := by
  rw [hexWithin, hexAt_append]
  simp only [length_append_cons]

theorem wideAt_append : wideAt (front ++ 37 :: rest) front.length = .ok (wideCode rest) := by
  rw [wideAt]
  simp only [length_append_cons front rest 37 5]
  by_cases hlong : 5 ≤ rest.length
  · obtain ⟨letter, a, b, c, d, tail, rfl⟩ := exists_of_five_le rest hlong
    rw [if_pos hlong, readAt_append, hexAt_append, hexAt_four, wideCode]
    exact (apply_ite Except.ok _ _ _).symm
  · rw [if_neg hlong, wideCode_of_length_lt rest (Nat.lt_of_not_le hlong)]

theorem hexWithin_next (marker : UInt8) :
    hexWithin (front ++ marker :: rest) (front.length + 1) (front.length + 3) =
      .ok (byteCode rest) := by
  rw [hexWithin_append front rest marker 1 2]
  by_cases hlong : 2 ≤ rest.length
  · obtain ⟨a, b, tail, rfl⟩ := exists_of_two_le rest hlong
    rw [if_pos hlong, hexAt_next, byteCode]
  · rw [if_neg hlong, byteCode_of_length_lt rest (Nat.lt_of_not_le hlong)]

theorem uniRound_turn : uniRound (front ++ 37 :: rest) front.length =
    .ok (turn 37 uniEscape front.length rest) := by
  rw [uniRound, readAt_here, bind_ok, if_pos rfl, wideAt_append, bind_ok, turn, uniEscape,
    wideEscape_eq_map, byteEscape_eq_map]
  cases wideCode rest with
  | some code => rfl
  | none =>
      dsimp only
      rw [hexWithin_next, bind_ok]
      cases byteCode rest with
      | some code => rfl
      | none => rfl

/-- What follows a marker is what is left of the bytes after it. -/
theorem slice_rest (marker : UInt8) :
    slice (front ++ marker :: rest) (front.length + 1) (front ++ marker :: rest).length =
      .ok rest := by
  rw [List.length_append, slice_append, slice, if_pos (by simp), List.drop_one, List.tail_cons,
    List.length_cons, Nat.add_sub_cancel, List.take_length]

theorem htmlRound_turn : htmlRound (front ++ 38 :: rest) front.length =
    .ok (turn 38 (fun rest => (entityAt rest).map fun (byte, used) => ([byte], used))
      front.length rest) := by
  rw [htmlRound, readAt_here, bind_ok, if_pos rfl, slice_rest, bind_ok, readEntity_eq, bind_ok, turn]
  cases entityAt rest with
  | some entity => rfl
  | none => rfl

/-- A byte that is no backslash, or with nothing after it, is kept. -/
theorem slash_none {α : Type*} (kept read : α) :
    (if (92 : UInt8) ≠ 92 ∨ (front ++ [92]).length ≤ front.length + 1 then kept else read) =
      kept := by
  rw [if_pos (Or.inr (by simp))]

theorem slash_some {α : Type*} (letter : UInt8) (kept read : α) :
    (if (92 : UInt8) ≠ 92 ∨ (front ++ 92 :: letter :: rest).length ≤ front.length + 1 then kept
      else read) = read := by
  rw [if_neg (by simp)]

theorem letteredAt_wide (letter : UInt8) :
    letteredAt (front ++ 92 :: letter :: rest) letter 0x75 (front.length + 2) (front.length + 6) =
      .ok (wideCode (letter :: rest)) := by
  rw [letteredAt, hexWithin_append front (letter :: rest) 92 2 5]
  by_cases hlong : 5 ≤ (letter :: rest).length
  · obtain ⟨first, a, b, c, d, tail, heq⟩ := exists_of_five_le (letter :: rest) hlong
    obtain ⟨rfl, rfl⟩ := List.cons.inj heq
    rw [if_pos hlong, hexAt_four, wideCode]
    exact (apply_ite Except.ok _ _ _).symm
  · rw [if_neg hlong, wideCode_of_length_lt _ (Nat.lt_of_not_le hlong), ite_self]

theorem letteredAt_byte (letter : UInt8) :
    letteredAt (front ++ 92 :: letter :: rest) letter 0x78 (front.length + 2) (front.length + 4) =
      .ok (if lowered letter = 0x78 then byteCode rest else none) := by
  rw [letteredAt, hexWithin_append front (letter :: rest) 92 2 3, List.length_cons]
  by_cases hlong : 2 ≤ rest.length
  · obtain ⟨a, b, tail, rfl⟩ := exists_of_two_le rest hlong
    rw [if_pos (Nat.succ_le_succ hlong), hexAt_two, byteCode]
    exact (apply_ite Except.ok _ _ _).symm
  · rw [if_neg fun hle => hlong (Nat.le_of_succ_le_succ hle),
      byteCode_of_length_lt rest (Nat.lt_of_not_le hlong), ite_self, ite_self]

/-- The digits after a marker are the ones its escape begins with. -/
theorem digitsFrom_next {radix more : ℕ} (hradix : radix ≤ 16) (hmore : more ≤ 8)
    (marker : UInt8) :
    digitsFrom (front ++ marker :: rest) radix (front.length + 1) more 0 0 =
      .ok (number radix (digitsOf radix more rest), (digitsOf radix more rest).length) := by
  rw [digitsFrom_append, digitsFrom_eq hradix more (pow_zero radix ▸ Nat.one_pos) (by omega) rfl,
    Nat.zero_add]
  rfl

theorem isEmpty_digitsOf (radix more : ℕ) (letter : UInt8) :
    (digitsOf radix (more + 1) (letter :: rest)).isEmpty = !(toDigit radix letter).isSome := by
  rw [digitsOf, List.take_succ_cons, List.takeWhile_cons]
  cases (toDigit radix letter).isSome with
  | false => rfl
  | true => rfl

theorem jsRound_turn : jsRound (front ++ 92 :: rest) front.length =
    .ok (turn 92 jsEscape front.length rest) := by
  rw [jsRound, readAt_here, bind_ok]
  cases rest with
  | nil => rw [slash_none]; rfl
  | cons letter rest =>
      have hbyte (shift : List UInt8 × ℕ → List UInt8 × ℕ) :
          (if lowered letter = 0x78 then (byteEscape rest).map shift else none) =
            (if lowered letter = 0x78 then byteCode rest else none).map
              fun code => shift ([UInt8.ofNat code], 2) := by
        split
        · rw [byteEscape_eq_map, Option.map_map]; rfl
        · rfl
      rw [slash_some, readAt_append, readAt, List.getElem?_cons_succ, List.getElem?_cons_zero,
        bind_ok, letteredAt_wide, bind_ok, turn, jsEscape, wideEscape_eq_map, hbyte,
        isEmpty_digitsOf]
      cases wideCode (letter :: rest) with
      | some code => rfl
      | none =>
          dsimp only
          rw [letteredAt_byte, bind_ok]
          cases (if lowered letter = 0x78 then byteCode rest else none) with
          | some code => rfl
          | none =>
              dsimp only
              rw [digitsFrom_next front _ (by decide) (by decide), bind_ok]
              cases (toDigit 8 letter).isSome with
              | true => rfl
              | false => rfl

/-- Whether a byte of the kind comes so many bytes on. -/
theorem standsAt_append (kind : UInt8 → Bool) (place : ℕ) :
    standsAt (front ++ rest) kind (front.length + place) = .ok (rest[place]?.any kind) := by
  rw [standsAt, readAt_append, readAt, List.length_append]
  simp only [Nat.add_lt_add_iff_left]
  cases hread : rest[place]? with
  | none => rw [if_neg (Nat.not_lt_of_le (List.getElem?_eq_none_iff.mp hread))]; rfl
  | some byte => rw [if_pos (List.getElem?_eq_some_iff.mp hread).1]; rfl

theorem cssRound_turn : cssRound (front ++ 92 :: rest) front.length =
    .ok (turn 92 cssEscape front.length rest) := by
  rw [cssRound, readAt_here, bind_ok]
  cases rest with
  | nil => rw [slash_none]; rfl
  | cons first rest =>
      rw [slash_some, readAt_append, readAt, List.getElem?_cons_succ, List.getElem?_cons_zero,
        bind_ok, turn, cssEscape, isEmpty_digitsOf]
      cases isNewline first with
      | true =>
          rw [if_pos rfl, standsAt_append, bind_ok, List.getElem?_cons_succ,
            List.getElem?_cons_succ, ← List.head?_eq_getElem?]
          cases rest.head?.any fun second => isNewline second && second != first with
          | true => rfl
          | false => rfl
      | false =>
          have hspace (used : ℕ) : standsAt (front ++ 92 :: first :: rest) isCssSpace
              (front.length + 1 + used) = .ok ((first :: rest)[used]?.any isCssSpace) := by
            rw [Nat.add_assoc, standsAt_append, Nat.add_comm 1, List.getElem?_cons_succ]
          rw [if_neg Bool.false_ne_true, digitsFrom_next front _ (by decide) (by decide), bind_ok]
          dsimp only
          rw [hspace, bind_ok]
          cases (toDigit 16 first).isSome with
          | true =>
              cases (first :: rest)[(digitsOf 16 6 (first :: rest)).length]?.any isCssSpace with
              | true => rfl
              | false => rfl
          | false => rfl

theorem hexFollows_two {letter : UInt8} (hletter : lowered letter = 0x78) (high low : UInt8) :
    hexFollows (front ++ 92 :: letter :: high :: low :: rest) letter front.length =
      .ok ((toDigit 16 high).isSome && (toDigit 16 low).isSome) := by
  rw [hexFollows, if_pos ⟨hletter, by simp⟩, readAt_append, readAt_append, readAt, readAt]
  simp only [List.getElem?_cons_succ, List.getElem?_cons_zero]
  rw [bind_ok]
  cases (toDigit 16 high).isSome with
  | true => rfl
  | false => rfl

theorem hexFollows_none {letter : UInt8} (hnone : ¬ (lowered letter = 0x78 ∧ 2 ≤ rest.length)) :
    hexFollows (front ++ 92 :: letter :: rest) letter front.length = .ok false := by
  rw [hexFollows, if_neg]
  rintro ⟨hletter, hlong⟩
  rw [List.length_append, List.length_cons, List.length_cons] at hlong
  exact hnone ⟨hletter, by omega⟩

theorem byteEscape_two (high low : UInt8) :
    byteEscape (high :: low :: rest) =
      if (toDigit 16 high).isSome && (toDigit 16 low).isSome then
        some ([UInt8.ofNat (number 16 [high, low])], 2) else none := by
  rw [byteEscape, hexNumber, number, List.foldlM_cons, List.foldl_cons, List.foldl_cons]
  cases toDigit 16 high with
  | none => rfl
  | some first =>
      rw [Option.map_some, Option.bind_eq_bind, Option.bind_some, List.foldlM_cons]
      cases toDigit 16 low with
      | none => rfl
      | some second => rfl

theorem byteEscape_of_length_lt (hshort : rest.length < 2) : byteEscape rest = none := by
  rw [byteEscape_eq_map, byteCode_of_length_lt rest hshort]
  rfl

/-- The digits of an escape are as many bytes of what follows its marker. -/
theorem slice_digits (radix most : ℕ) (marker : UInt8) :
    slice (front ++ marker :: rest) (front.length + 1)
      (front.length + 1 + (digitsOf radix most rest).length) = .ok (digitsOf radix most rest) := by
  have hleads : digitsOf radix most rest <+: rest :=
    (List.takeWhile_prefix _).trans (List.take_prefix most rest)
  have hlength : (digitsOf radix most rest).length ≤ rest.length := hleads.length_le
  rw [Nat.add_assoc, slice_append, slice, if_pos (by rw [List.length_cons]; omega), List.drop_one,
    List.tail_cons, Nat.add_sub_cancel_left, ← List.prefix_iff_eq_take.mp hleads]

theorem seqRound_turn : seqRound (front ++ 92 :: rest) front.length =
    .ok (turn 92 cEscape front.length rest) := by
  rw [seqRound, readAt_here, bind_ok]
  cases rest with
  | nil => rw [slash_none]; rfl
  | cons letter rest =>
      have hoctal : (if (toDigit 8 letter).isSome then do
            let ahead ← slice (front ++ 92 :: letter :: rest) (front.length + 1)
              (front ++ 92 :: letter :: rest).length
            let used := ((ahead.take 3).takeWhile fun digit => (toDigit 8 digit).isSome).length
            let digits ← slice (front ++ 92 :: letter :: rest) (front.length + 1)
              (front.length + 1 + used)
            .ok (front.length + 1 + used, [UInt8.ofNat (number 8 digits)])
          else .ok (front.length + 2, [letter])) =
          .ok (turn 92 (fun ahead => some (
            if (digitsOf 8 3 ahead).isEmpty then ([letter], 1)
            else ([UInt8.ofNat (number 8 (digitsOf 8 3 ahead))], (digitsOf 8 3 ahead).length)))
            front.length (letter :: rest)) := by
        rw [slice_rest, bind_ok]
        dsimp only
        rw [← digitsOf, slice_digits, bind_ok, turn, isEmpty_digitsOf]
        cases (toDigit 8 letter).isSome with
        | true => rfl
        | false => rfl
      rw [slash_some, readAt_append, readAt, List.getElem?_cons_succ, List.getElem?_cons_zero,
        bind_ok, turn, cEscape]
      cases cNamed letter with
      | some named => rfl
      | none =>
          dsimp only
          by_cases hhex : lowered letter = 0x78 ∧ 2 ≤ rest.length
          · obtain ⟨hletter, hlong⟩ := hhex
            obtain ⟨high, low, tail, rfl⟩ := exists_of_two_le rest hlong
            rw [hexFollows_two front tail hletter, bind_ok, if_pos hletter, byteEscape_two]
            cases (toDigit 16 high).isSome && (toDigit 16 low).isSome with
            | true =>
                rw [slice_append, slice, if_pos (by simp)]
                rfl
            | false =>
                rw [if_neg Bool.false_ne_true, hoctal]
                rfl
          · have hnone : (if lowered letter = 0x78 then byteEscape rest else none) = none := by
              split
              · rename_i hletter
                exact byteEscape_of_length_lt rest (Nat.lt_of_not_le fun hle => hhex ⟨hletter, hle⟩)
              · rfl
            rw [hexFollows_none front rest hhex, bind_ok, if_neg Bool.false_ne_true, hoctal, hnone]
            rfl

end Turns

end EasyWaf.Modules.EscapeLoops
