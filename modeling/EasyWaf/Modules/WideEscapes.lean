import EasyWaf.Modules.Decoders

/-!
# The two readings of a percent-encoded text

`url_decode_uni` reads what `percent_decode` does, with one byte wherever that
leaves a `%u` and its four digits as they are.
-/

namespace EasyWaf.Modules.Decoders

open Http Paths EasyWaf.Core

def isHexDigit (byte : UInt8) : Bool := (hexValue byte).isSome

/-- What one decoder reads against what the other does. -/
inductive Alike : List UInt8 → List UInt8 → Prop
  | nil : Alike [] []
  | same (byte : UInt8) {uni once : List UInt8} (rest : Alike uni once) :
      Alike (byte :: uni) (byte :: once)
  | wide (value letter : UInt8) (digits : List UInt8) {uni once : List UInt8}
      (hletter : lowered letter = 0x75) (hlength : digits.length = 4)
      (hdigits : ∀ digit ∈ digits, isHexDigit digit = true) (rest : Alike uni once) :
      Alike (value :: uni) (37 :: letter :: (digits ++ once))

section Shapes

variable {rest out : List UInt8} {used : ℕ}

theorem isHexDigit_of_foldlM {digits : List UInt8} {start code : ℕ}
    (hcode : digits.foldlM (fun value digit => (toDigit 16 digit).map (value * 16 + ·)) start =
      some code) : ∀ digit ∈ digits, isHexDigit digit = true := by
  induction digits generalizing start with
  | nil => exact fun _ hdigit => absurd hdigit List.not_mem_nil
  | cons digit others ih =>
      rw [List.foldlM_cons, Option.bind_eq_bind, Option.bind_eq_some_iff] at hcode
      obtain ⟨value, hvalue, hothers⟩ := hcode
      rw [toDigit_sixteen] at hvalue
      apply List.forall_mem_cons.mpr ⟨_, ih hothers⟩
      rw [isHexDigit]
      cases hhex : hexValue digit with
      | none => simp [hhex] at hvalue
      | some number => rfl

theorem exists_of_wideEscape (hescape : wideEscape rest = some (out, used)) :
    ∃ (value letter : UInt8) (digits after : List UInt8), rest = letter :: (digits ++ after) ∧
      lowered letter = 0x75 ∧ digits.length = 4 ∧ (∀ digit ∈ digits, isHexDigit digit = true) ∧
      out = [value] ∧ used = 5 := by
  rw [wideEscape.eq_def] at hescape
  split at hescape
  · rename_i letter a b c d after
    split at hescape
    · rename_i hletter
      obtain ⟨code, hcode, hpair⟩ := Option.map_eq_some_iff.mp hescape
      obtain ⟨rfl, rfl⟩ := Prod.mk.inj hpair
      exact ⟨foldWide code, letter, [a, b, c, d], after, rfl, hletter, rfl,
        isHexDigit_of_foldlM hcode, rfl, rfl⟩
    · contradiction
  · contradiction

theorem exists_of_byteEscape (hescape : byteEscape rest = some (out, used)) :
    ∃ (value high low : UInt8) (after : List UInt8), rest = high :: low :: after ∧
      isHexDigit high = true ∧ isHexDigit low = true ∧ out = [value] ∧ used = 2 := by
  rw [byteEscape.eq_def] at hescape
  split at hescape
  · rename_i high low after
    obtain ⟨code, hcode, hpair⟩ := Option.map_eq_some_iff.mp hescape
    obtain ⟨rfl, rfl⟩ := Prod.mk.inj hpair
    have hdigits := isHexDigit_of_foldlM hcode
    exact ⟨UInt8.ofNat code, high, low, after, rfl, hdigits high (by simp), hdigits low (by simp),
      rfl, rfl⟩
  · contradiction

theorem length_le_of_uniEscape (rest out : List UInt8) (used : ℕ)
    (hescape : uniEscape rest = some (out, used)) : out.length ≤ 1 := by
  rcases Option.or_eq_some_iff.mp hescape with hwide | ⟨-, hbyte⟩
  · obtain ⟨value, -, -, -, -, -, -, -, rfl, -⟩ := exists_of_wideEscape hwide
    exact le_refl 1
  · obtain ⟨value, -, -, -, -, -, -, rfl, -⟩ := exists_of_byteEscape hbyte
    exact le_refl 1

theorem length_le_of_byteEscape (rest out : List UInt8) (used : ℕ)
    (hescape : byteEscape rest = some (out, used)) : out.length ≤ 1 := by
  obtain ⟨value, -, -, -, -, -, -, rfl, -⟩ := exists_of_byteEscape hescape
  exact le_refl 1

theorem not_hex_of_lowered {letter : UInt8} (hletter : lowered letter = 0x75) :
    isHexDigit letter = false ∧ letter ≠ 37 := by
  rcases (lowered_eq_iff letter).mp hletter with rfl | rfl <;> decide

theorem ne_percent_of_isHexDigit {digit : UInt8} (hdigit : isHexDigit digit = true) : digit ≠ 37 := by
  rintro rfl
  exact absurd hdigit (by decide)

end Shapes

/-- The decoders read alike. -/
theorem alike_decoded (bytes : List UInt8) : Alike (decodeUni bytes) (decodeBinary bytes) := by
  rw [decodeBinary_eq_unescape, decodeUni]
  induction bytes using unescape_induction 37 uniEscape with
  | nil => exact Alike.nil
  | plain symbol rest hsymbol ih =>
      rw [unescape_cons_of_ne hsymbol, unescape_cons_of_ne hsymbol]
      exact ih.same symbol
  | kept rest hnone ih =>
      rw [unescape_cons_of_none hnone, unescape_cons_of_none (Option.or_eq_none_iff.mp hnone).2]
      exact ih.same 37
  | undone rest out used hsome ih =>
      rw [unescape_cons_of_some hsome]
      rcases Option.or_eq_some_iff.mp hsome with hwide | ⟨-, hbyte⟩
      · obtain ⟨value, letter, digits, after, rfl, hletter, hlength, hdigits, rfl, rfl⟩ :=
          exists_of_wideEscape hwide
        have hafter : (letter :: (digits ++ after)).drop 5 = after := by
          rw [List.drop_succ_cons, ← hlength, List.drop_left]
        have hnone : byteEscape (letter :: (digits ++ after)) = none := by
          by_contra hsome
          obtain ⟨⟨out, used⟩, hescape⟩ := Option.ne_none_iff_exists'.mp hsome
          obtain ⟨_, high, low, _, hrest, hhigh, -⟩ := exists_of_byteEscape hescape
          rw [← (List.cons.inj hrest).1, (not_hex_of_lowered hletter).1] at hhigh
          contradiction
        have hplain : 37 ∉ letter :: digits := by
          rw [List.mem_cons, not_or]
          exact ⟨(not_hex_of_lowered hletter).2.symm,
            fun hmem => ne_percent_of_isHexDigit (hdigits 37 hmem) rfl⟩
        rw [hafter] at ih ⊢
        rw [unescape_cons_of_none hnone, ← List.cons_append,
          unescape_append_of_not_mem hplain after]
        exact ih.wide value letter digits hletter hlength hdigits
      · obtain ⟨value, high, low, after, rfl, -, -, rfl, rfl⟩ := exists_of_byteEscape hbyte
        rw [unescape_cons_of_some hbyte]
        exact ih.same value

namespace Alike

variable {uni once : List UInt8}

/-- The wide escapes left as they are hold at least as many bytes of a kind that
their letter is of. -/
theorem countP_le (halike : Alike uni once) {p : UInt8 → Bool}
    (hp : ∀ letter, lowered letter = 0x75 → p letter = true) : uni.countP p ≤ once.countP p := by
  induction halike with
  | nil => exact le_refl _
  | same byte rest ih =>
      rw [List.countP_cons, List.countP_cons]
      omega
  | wide value letter digits hletter hlength hdigits rest ih =>
      rw [List.countP_cons, List.countP_cons, List.countP_cons, List.countP_append,
        hp letter hletter, if_pos rfl]
      split_ifs <;> omega

/-- They hold more digits. -/
theorem eq_or_countP_lt (halike : Alike uni once) :
    uni = once ∨ uni.countP isHexDigit < once.countP isHexDigit := by
  induction halike with
  | nil => exact Or.inl rfl
  | same byte rest ih =>
      rw [List.countP_cons, List.countP_cons]
      exact ih.imp (congrArg _) fun h => by omega
  | wide value letter digits hletter hlength hdigits rest ih =>
      apply Or.inr
      have hcount : digits.countP isHexDigit = 4 := by
        rw [← hlength, List.countP_eq_length]
        exact hdigits
      rw [List.countP_cons, List.countP_cons, List.countP_cons, List.countP_append, hcount]
      rcases ih with rfl | ih <;> split_ifs <;> omega

theorem head?_eq (halike : Alike uni once) {byte : UInt8} (hbyte : byte ≠ 37)
    (hhead : once.head? = some byte) : uni.head? = some byte := by
  cases halike with
  | nil => contradiction
  | same first rest => exact hhead
  | wide value letter digits hletter hlength hdigits rest =>
      exact absurd (Option.some.inj hhead).symm hbyte

/-- A byte that no wide escape has in it. -/
structure Outside (byte : UInt8) : Prop where
  percent : byte ≠ 37
  letter : lowered byte ≠ 0x75
  digit : isHexDigit byte = false

theorem not_mem_wide {byte letter : UInt8} {digits : List UInt8} (hbyte : Outside byte)
    (hletter : lowered letter = 0x75) (hdigits : ∀ digit ∈ digits, isHexDigit digit = true) :
    byte ∉ 37 :: letter :: digits := by
  rw [List.mem_cons, List.mem_cons]
  rintro (rfl | rfl | hmem)
  · exact hbyte.percent rfl
  · exact hbyte.letter hletter
  · have hdigit := hdigits byte hmem
    rw [hbyte.digit] at hdigit
    contradiction

theorem mem_of_mem (halike : Alike uni once) {byte : UInt8} (hbyte : Outside byte)
    (hmem : byte ∈ once) : byte ∈ uni := by
  induction halike with
  | nil => exact hmem
  | same first rest ih => exact List.mem_cons.mpr ((List.mem_cons.mp hmem).imp_right ih)
  | wide value letter digits hletter hlength hdigits rest ih =>
      rw [← List.cons_append, ← List.cons_append, List.mem_append] at hmem
      exact List.mem_cons_of_mem _ (ih (hmem.resolve_left (not_mem_wide hbyte hletter hdigits)))

/-- Two such bytes that stand together in the one reading do in the other. -/
theorem infix_of_infix (halike : Alike uni once) {first second : UInt8} (hfirst : Outside first)
    (hsecond : Outside second) (hcontained : [first, second] <:+: once) :
    [first, second] <:+: uni := by
  induction halike with
  | nil => exact hcontained
  | same byte rest ih =>
      rw [List.infix_cons_iff] at hcontained ⊢
      refine hcontained.imp (fun hbegins => ?_) ih
      obtain ⟨after, hafter⟩ := hbegins
      obtain ⟨rfl, honce⟩ := List.cons.inj hafter
      have hhead := rest.head?_eq hsecond.percent (by rw [← honce]; rfl)
      obtain ⟨more, rfl⟩ := List.head?_eq_some_iff.mp hhead
      exact ⟨more, rfl⟩
  | wide value letter digits hletter hlength hdigits rest ih =>
      -- the first byte is in none of what the wide escape leaves
      have hskip : ∀ before after : List UInt8, first ∉ before →
          [first, second] <:+: before ++ after → [first, second] <:+: after := by
        intro before after hbefore hcontained
        induction before with
        | nil => exact hcontained
        | cons byte others ihothers =>
            rw [List.mem_cons, not_or] at hbefore
            rw [List.cons_append, List.infix_cons_iff] at hcontained
            apply ihothers hbefore.2
            exact hcontained.resolve_left fun ⟨_, hbegins⟩ => hbefore.1 (List.cons.inj hbegins).1
      rw [← List.cons_append, ← List.cons_append] at hcontained
      exact (ih (hskip _ _ (not_mem_wide hfirst hletter hdigits) hcontained)).trans
        (List.suffix_cons value _).isInfix

end Alike

/-- Decoding leaves the bytes no escape has in it. -/
theorem countP_le_decodeBinary {p : UInt8 → Bool} (hpercent : p 37 = false)
    (hdigit : ∀ digit, isHexDigit digit = true → p digit = false) (bytes : List UInt8) :
    bytes.countP p ≤ (decodeBinary bytes).countP p := by
  rw [decodeBinary_eq_unescape]
  induction bytes using unescape_induction 37 byteEscape with
  | nil => exact le_refl _
  | plain symbol rest hsymbol ih =>
      rw [unescape_cons_of_ne hsymbol, List.countP_cons, List.countP_cons]
      omega
  | kept rest hnone ih =>
      rw [unescape_cons_of_none hnone, List.countP_cons, List.countP_cons]
      omega
  | undone rest out used hsome ih =>
      rw [unescape_cons_of_some hsome]
      obtain ⟨value, high, low, after, rfl, hhigh, hlow, rfl, rfl⟩ := exists_of_byteEscape hsome
      rw [List.drop_succ_cons, List.drop_succ_cons, List.drop_zero] at ih ⊢
      rw [List.countP_append, List.countP_cons, List.countP_cons, List.countP_cons, hpercent,
        hdigit high hhigh, hdigit low hlow]
      simp only [Bool.false_eq_true, if_false]
      omega

end EasyWaf.Modules.Decoders
