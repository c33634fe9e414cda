import EasyWaf.Modules.RequestParts
import EasyWaf.Text.Templates

/-!
# A part's headers and its content

A part is its header lines, an empty line and its content.  What is read of a part
is found by two line breaks of one kind; here is when that finds the content.
-/

namespace EasyWaf.Modules

open Text

section Breaks

/-- The two line breaks. -/
def IsBreak (ends : Text) : Prop := ends = ['\n'] ∨ ends = ['\r', '\n']

/-- What follows a line break. -/
def pastBreak (text : Text) : Option Text :=
  (text.dropPrefix? ['\r', '\n']).or (text.dropPrefix? ['\n'])

theorem afterBreak_eq (text : Text) : afterBreak text = (pastBreak text).getD text := rfl

/-- Where a line break stands first, and what is behind it. -/
theorem pastBreak_eq_some_iff {text rest : Text} :
    pastBreak text = some rest ↔ text = '\r' :: '\n' :: rest ∨ text = '\n' :: rest := by
  rw [pastBreak, Option.or_eq_some_iff, dropPrefix?_eq_some, dropPrefix?_eq_some]
  constructor
  · rintro (rfl | ⟨-, rfl⟩)
    · exact Or.inl rfl
    · exact Or.inr rfl
  · rintro (rfl | rfl)
    · exact Or.inl rfl
    · right
      refine ⟨Option.eq_none_iff_forall_ne_some.mpr fun rest' hrest => ?_, rfl⟩
      have hhead := List.cons.inj (dropPrefix?_eq_some.mp hrest)
      exact absurd hhead.1 (by decide)

theorem exists_break_of_pastBreak {text rest : Text} (hpast : pastBreak text = some rest) :
    ∃ ends, IsBreak ends ∧ text = ends ++ rest := by
  rcases pastBreak_eq_some_iff.mp hpast with rfl | rfl
  · exact ⟨['\r', '\n'], Or.inr rfl, rfl⟩
  · exact ⟨['\n'], Or.inl rfl, rfl⟩

theorem pastBreak_append {ends : Text} (hends : IsBreak ends) (rest : Text) :
    pastBreak (ends ++ rest) = some rest := by
  rcases hends with rfl | rfl
  · exact pastBreak_eq_some_iff.mpr (Or.inr rfl)
  · exact pastBreak_eq_some_iff.mpr (Or.inl rfl)

theorem beforeBreak_crlf (start : Text) : beforeBreak (start ++ ['\r', '\n']) = start := by
  rw [beforeBreak, dropSuffix?_eq_some.mpr rfl]
  rfl

theorem dropSuffix?_crlf_eq_none {text : Text} (htext : ¬ ['\r', '\n'] <:+ text) :
    text.dropSuffix? ['\r', '\n'] = none :=
  Option.eq_none_iff_forall_ne_some.mpr fun start hstart =>
    htext ⟨start, (dropSuffix?_eq_some.mp hstart).symm⟩

theorem beforeBreak_lf {start : Text} (hstart : ¬ ['\r'] <:+ start) :
    beforeBreak (start ++ ['\n']) = start := by
  have hnot : ¬ ['\r', '\n'] <:+ start ++ ['\n'] := by
    rintro ⟨before, hbefore⟩
    have hsplit : (before ++ ['\r']) ++ ['\n'] = start ++ ['\n'] := by simpa using hbefore
    exact hstart ⟨before, (List.append_inj' hsplit rfl).1⟩
  rw [beforeBreak, dropSuffix?_crlf_eq_none hnot, dropSuffix?_eq_some.mpr rfl]
  rfl

theorem beforeBreak_of_not {text : Text} (htext : ¬ ['\n'] <:+ text) : beforeBreak text = text := by
  have hcrlf : ¬ ['\r', '\n'] <:+ text := fun h => htext ((List.suffix_cons '\r' ['\n']).trans h)
  have hlf : text.dropSuffix? ['\n'] = none :=
    Option.eq_none_iff_forall_ne_some.mpr fun start hstart =>
      htext ⟨start, (dropSuffix?_eq_some.mp hstart).symm⟩
  rw [beforeBreak, dropSuffix?_crlf_eq_none hcrlf, hlf]
  rfl

/-- A text's end: a line break of either kind, or none. -/
theorem beforeBreak_cases (text : Text) :
    (∃ start, text = start ++ ['\r', '\n'] ∧ beforeBreak text = start) ∨
      (∃ start, text = start ++ ['\n'] ∧ ¬ ['\r'] <:+ start ∧ beforeBreak text = start) ∨
      (¬ ['\n'] <:+ text ∧ beforeBreak text = text) := by
  by_cases hlf : ['\n'] <:+ text
  · obtain ⟨start, rfl⟩ := hlf
    by_cases hcr : ['\r'] <:+ start
    · obtain ⟨start, rfl⟩ := hcr
      left
      refine ⟨start, by simp, ?_⟩
      rw [List.append_assoc]
      exact beforeBreak_crlf start
    · exact Or.inr (Or.inl ⟨start, rfl, hcr, beforeBreak_lf hcr⟩)
  · exact Or.inr (Or.inr ⟨hlf, beforeBreak_of_not hlf⟩)

theorem length_beforeBreak_le (text : Text) : (beforeBreak text).length ≤ text.length := by
  rcases beforeBreak_cases text with ⟨start, rfl, hend⟩ | ⟨start, rfl, -, hend⟩ | ⟨-, hend⟩
  · rw [hend, List.length_append]
    exact Nat.le_add_right _ _
  · rw [hend, List.length_append]
    exact Nat.le_add_right _ _
  · rw [hend]

theorem le_length_beforeBreak (text : Text) : text.length ≤ (beforeBreak text).length + 2 := by
  rcases beforeBreak_cases text with ⟨start, rfl, hend⟩ | ⟨start, rfl, -, hend⟩ | ⟨-, hend⟩
  · rw [hend, List.length_append]
    rfl
  · rw [hend, List.length_append]
    exact Nat.le_succ _
  · rw [hend]
    omega

theorem singleton_suffix_iff {text : Text} {c : Char} :
    [c] <:+ text ↔ text.getLast? = some c := by
  rw [List.getLast?_eq_some_iff]
  exact ⟨fun ⟨start, h⟩ => ⟨start, h.symm⟩, fun ⟨start, h⟩ => ⟨start, h.symm⟩⟩

theorem suffix_singleton_append {before text : Text} {c : Char} (htext : text ≠ []) :
    [c] <:+ before ++ text ↔ [c] <:+ text := by
  rw [singleton_suffix_iff, singleton_suffix_iff, List.getLast?_append_of_ne_nil _ htext]

/-- A later part of a text is as long as the text, each without a break at its end,
only where nothing is left of either. -/
theorem beforeBreak_eq_append_iff {before text : Text} (hbefore : before ≠ []) :
    beforeBreak text = beforeBreak (before ++ text) ↔ beforeBreak (before ++ text) = [] := by
  have hlonger : ∀ start : Text, start = before ++ start ↔ before ++ start = [] := by
    intro start
    apply iff_of_false
    · intro heq
      have hlength := congrArg List.length heq
      have hpos := List.length_pos_iff.mpr hbefore
      rw [List.length_append] at hlength
      omega
    · exact fun hnil => hbefore (List.append_eq_nil_iff.mp hnil).1
  rcases beforeBreak_cases text with ⟨start, rfl, hend⟩ | ⟨start, rfl, hcr, hend⟩ | ⟨hlf, hend⟩
  · rw [hend, ← List.append_assoc, beforeBreak_crlf]
    exact hlonger start
  · rw [hend, ← List.append_assoc]
    by_cases hcrlf : ['\r'] <:+ before ++ start
    · have hstart : start = [] := by
        by_contra hne
        exact hcr ((suffix_singleton_append hne).mp hcrlf)
      rw [hstart]
      exact eq_comm
    · rw [beforeBreak_lf hcrlf]
      exact hlonger start
  · rw [hend]
    by_cases hnil : text = []
    · rw [hnil]
      exact eq_comm
    · rw [beforeBreak_of_not fun h => hlf ((suffix_singleton_append hnil).mp h)]
      exact hlonger text

end Breaks

section Headed

/-- A part's header lines and what is behind the empty line that ends them, from the
start of a line or within one. -/
def headed : Bool → Text → Option (Text × Text)
  | _, [] => none
  | start, c :: rest =>
      match if start then pastBreak (c :: rest) else none with
      | some content => some ([], content)
      | none => (headed (c == '\n') rest).map fun found => (c :: found.1, found.2)

/-- Headers and the content behind their empty line, the first of the text. -/
structure Parted (start : Bool) (text head content : Text) : Prop where
  text_eq : ∃ ends, IsBreak ends ∧ text = head ++ ends ++ content
  ends : head = [] ∧ start = true ∨ ['\n'] <:+ head
  first : ∀ before after, text = before ++ '\n' :: after → (pastBreak after).isSome →
    head.length ≤ before.length + 1

theorem headed_cons_of_none {start : Bool} {c : Char} {rest : Text}
    (hnone : (if start then pastBreak (c :: rest) else none) = none) :
    headed start (c :: rest) =
      (headed (c == '\n') rest).map fun found => (c :: found.1, found.2) := by
  rw [headed, hnone]

theorem headed_of_pastBreak {text rest : Text} (hpast : pastBreak text = some rest) :
    headed true text = some ([], rest) := by
  cases text with
  | nil => rcases pastBreak_eq_some_iff.mp hpast with h | h <;> contradiction
  | cons c text =>
      rw [headed, if_pos rfl, hpast]

theorem parted_of_headed {start : Bool} {text head content : Text}
    (hheaded : headed start text = some (head, content)) : Parted start text head content := by
  induction text generalizing start head with
  | nil => exact absurd hheaded (by simp [headed])
  | cons c rest ih =>
      cases hpast : if start then pastBreak (c :: rest) else none with
      | some behind =>
          rw [headed, hpast] at hheaded
          obtain ⟨rfl, rfl⟩ := Prod.mk.inj (Option.some.inj hheaded)
          split at hpast
          · next hstart =>
              obtain ⟨ends, hends, htext⟩ := exists_break_of_pastBreak hpast
              exact ⟨⟨ends, hends, htext⟩, Or.inl ⟨rfl, hstart⟩, fun _ _ _ _ => Nat.zero_le _⟩
          · contradiction
      | none =>
          rw [headed_cons_of_none hpast] at hheaded
          obtain ⟨⟨inner, behind⟩, hrest, heq⟩ := Option.map_eq_some_iff.mp hheaded
          obtain ⟨rfl, rfl⟩ := Prod.mk.inj heq
          have hparted := ih hrest
          constructor
          · obtain ⟨ends, hends, htext⟩ := hparted.text_eq
            exact ⟨ends, hends, congrArg (c :: ·) htext⟩
          · right
            rcases hparted.ends with ⟨rfl, hc⟩ | hsuffix
            · rw [eq_of_beq hc]
            · exact hsuffix.trans (List.suffix_cons _ _)
          · intro before after htext hafter
            cases before with
            | nil =>
                obtain ⟨rfl, rfl⟩ := List.cons.inj htext
                obtain ⟨behind', hbehind⟩ := Option.isSome_iff_exists.mp hafter
                rw [beq_self_eq_true, headed_of_pastBreak hbehind] at hrest
                rw [← (Prod.mk.inj (Option.some.inj hrest)).1]
                exact le_rfl
            | cons d before =>
                have hrest := hparted.first before after (List.cons.inj htext).2 hafter
                simp only [List.length_cons]
                omega

/-- A line that is not empty belongs to the headers. -/
theorem headed_line {start : Bool} {line rest : Text} (hline : '\n' ∉ line)
    (hstart : start = true → ∃ c before, line = c :: before ∧ c ≠ '\r') :
    headed start (line ++ '\n' :: rest) =
      (headed true rest).map fun found => (line ++ '\n' :: found.1, found.2) := by
  induction line generalizing start with
  | nil =>
      cases start with
      | true =>
          obtain ⟨c, before, hnil, -⟩ := hstart rfl
          contradiction
      | false => rw [List.nil_append, headed_cons_of_none rfl, beq_self_eq_true]; rfl
  | cons c line ih =>
      have hc : c ≠ '\n' := fun h => hline (h ▸ List.mem_cons_self)
      have hnone : (if start then pastBreak (c :: (line ++ '\n' :: rest)) else none) = none := by
        cases start with
        | false => rfl
        | true =>
            obtain ⟨d, before, hcons, hd⟩ := hstart rfl
            obtain ⟨rfl, -⟩ := List.cons.inj hcons
            rw [if_pos rfl]
            apply Option.eq_none_iff_forall_ne_some.mpr
            intro behind hbehind
            rcases pastBreak_eq_some_iff.mp hbehind with h | h
            · exact hd (List.cons.inj h).1
            · exact hc (List.cons.inj h).1
      rw [List.cons_append, headed_cons_of_none hnone, beq_eq_false_iff_ne.mpr hc,
        ih (fun h => hline (List.mem_cons_of_mem _ h)) fun h => absurd h Bool.false_ne_true,
        Option.map_map]
      rfl

end Headed

section Content

/-- The two line breaks that are looked for. -/
def crlfLine : Text := ['\r', '\n', '\r', '\n']

def lfLine : Text := ['\n', '\n']

/-- What is read of a part as its header lines and its content. -/
def readHead (body : Text) : Text × Text :=
  ((body.dropInfix? crlfLine).or (body.dropInfix? lfLine)).getD (body, [])

/-- What is behind the empty line stands behind two line breaks as they are looked
for. -/
def EndsAsRead (body content : Text) : Prop :=
  crlfLine ++ content <:+ body ∨ lfLine ++ content <:+ body ∧ ¬ crlfLine <:+: body

variable {start : Bool} {body head content : Text}

/-- Two breaks of a kind are the empty line, or stand somewhere in the content. -/
theorem content_of_breaks (hparted : Parted start body head content)
    {ends before after : Text} (hends : IsBreak ends)
    (hbody : body = before ++ (ends ++ ends) ++ after) :
    content = after ∨ ∃ inner, inner ≠ [] ∧ content = inner ++ after := by
  obtain ⟨own, hown, hparts⟩ := hparted.text_eq
  have hle : head.length ≤ before.length + ends.length := by
    have hpast : (pastBreak (ends ++ after)).isSome := by
      rw [pastBreak_append hends]
      rfl
    rcases hends with rfl | rfl
    · exact hparted.first before ('\n' :: after) (by simpa using hbody) hpast
    · exact (hparted.first (before ++ ['\r']) ('\r' :: '\n' :: after) (by simpa using hbody) hpast).trans
        (by simp)
  have htexts : head ++ (own ++ content) = before ++ ends ++ (ends ++ after) := by
    rw [← List.append_assoc, ← hparts, hbody]
    simp
  rcases Nat.lt_or_eq_of_le hle with hlt | heq
  · have hlonger : after.length < content.length := by
      by_contra hnot
      have hlength := congrArg List.length htexts
      simp only [List.length_append] at hlength
      have hsame : head.length = before.length ∧ ends = ['\n'] ∧ own = ['\r', '\n'] := by
        rcases hends with rfl | rfl <;> rcases hown with rfl | rfl <;>
          simp only [List.length_cons, List.length_nil] at hlength hlt <;>
          first | omega | exact ⟨by omega, rfl, rfl⟩
      obtain ⟨hheads, rfl, rfl⟩ := hsame
      rw [List.append_assoc] at htexts
      exact absurd (List.cons.inj (List.append_inj htexts hheads).2).1 (by decide)
    have hafter : after <:+ content := by
      apply List.suffix_of_suffix_length_le _ _ hlonger.le
      · exact body
      · rw [hbody]
        exact List.suffix_append _ _
      · rw [hparts]
        exact List.suffix_append _ _
    obtain ⟨inner, rfl⟩ := hafter
    right
    refine ⟨inner, ?_, rfl⟩
    rintro rfl
    exact absurd hlonger (lt_irrefl _)
  · left
    have hrest := (List.append_inj htexts (by rw [heq, List.length_append])).2
    have hpast := pastBreak_append hown content
    rw [hrest, pastBreak_append hends] at hpast
    exact (Option.some.inj hpast).symm

theorem length_lt_of_inner {inner after : Text} (hinner : inner ≠ [])
    (hcontent : content = inner ++ after) : after.length < content.length := by
  have hpos := List.length_pos_iff.mpr hinner
  rw [hcontent, List.length_append]
  omega

/-- Where the breaks that are looked for are found first, what is behind them is the
content, or a later part of it and the content does not stand behind such breaks. -/
theorem content_of_found {line before after : Text}
    (hfound : body.dropInfix? line = some (before, after)) {ends : Text} (hends : IsBreak ends)
    (hline : line = ends ++ ends) (hparted : Parted start body head content) :
    content = after ∧ line ++ content <:+ body ∨
      (∃ inner, inner ≠ [] ∧ content = inner ++ after) ∧ ¬ line ++ content <:+ body := by
  obtain ⟨hbody, hfirst⟩ := Text.dropInfix?_eq_some_iff.mp hfound
  rcases content_of_breaks hparted hends (hline ▸ hbody) with rfl | ⟨inner, hinner, hcontent⟩
  · left
    refine ⟨rfl, before, ?_⟩
    rw [hbody, List.append_assoc]
  · right
    refine ⟨⟨inner, hinner, hcontent⟩, ?_⟩
    rintro ⟨other, hother⟩
    have hlt := length_lt_of_inner hinner hcontent
    have hle := hfirst other content (by rw [← hother, List.append_assoc])
    have hlength := congrArg List.length hother
    rw [hbody] at hlength
    simp only [List.length_append] at hlength
    omega

/-- What is read as a part's content is its content exactly when its empty line is
read as one, or nothing stands in it. -/
theorem beforeBreak_readHead_iff (hparted : Parted start body head content) :
    beforeBreak (readHead body).2 = beforeBreak content ↔
      EndsAsRead body content ∨ beforeBreak content = [] := by
  have hlater : ∀ after, (∃ inner, inner ≠ [] ∧ content = inner ++ after) →
      (beforeBreak after = beforeBreak content ↔ beforeBreak content = []) := by
    rintro after ⟨inner, hinner, rfl⟩
    exact beforeBreak_eq_append_iff hinner
  rw [EndsAsRead, readHead]
  cases hfound : body.dropInfix? crlfLine with
  | some found =>
      obtain ⟨before, after⟩ := found
      have hinfix : crlfLine <:+: body :=
        ⟨before, after, (Text.dropInfix?_eq_some_iff.mp hfound).1.symm⟩
      rw [Option.some_or, Option.getD_some]
      rcases content_of_found hfound (Or.inr rfl) rfl hparted with
        ⟨rfl, hsuffix⟩ | ⟨hinner, hnot⟩
      · exact iff_of_true rfl (Or.inl (Or.inl hsuffix))
      · rw [hlater after hinner, or_iff_right]
        rintro (h | ⟨-, h⟩)
        · exact hnot h
        · exact h hinfix
  | none =>
      have hno := Text.dropInfix?_eq_none_iff.mp hfound
      have hnot : ¬ crlfLine ++ content <:+ body := fun h =>
        hno ((List.prefix_append _ _).isInfix.trans h.isInfix)
      rw [Option.none_or]
      cases hfoundLf : body.dropInfix? lfLine with
      | some found =>
          obtain ⟨before, after⟩ := found
          rw [Option.getD_some]
          rcases content_of_found hfoundLf (Or.inl rfl) rfl hparted with
            ⟨rfl, hsuffix⟩ | ⟨hinner, hnotLf⟩
          · exact iff_of_true rfl (Or.inl (Or.inr ⟨hsuffix, hno⟩))
          · rw [hlater after hinner, or_iff_right]
            rintro (h | ⟨h, -⟩)
            · exact hnot h
            · exact hnotLf h
      | none =>
          have hnoLf := Text.dropInfix?_eq_none_iff.mp hfoundLf
          rw [Option.getD_none, or_iff_right]
          · exact eq_comm
          · rintro (h | ⟨h, -⟩)
            · exact hnot h
            · exact hnoLf ((List.prefix_append _ _).isInfix.trans h.isInfix)

/-- Of a part cut short by three characters or more, what is read as its content is
nothing, or shorter. -/
theorem beforeBreak_readHead_of_cut {shown rest : Text} (hrest : 3 ≤ rest.length)
    (hbody : body = shown ++ rest) (hparted : Parted start body head content) :
    beforeBreak (readHead shown).2 = beforeBreak content ↔ beforeBreak content = [] := by
  have hshorter : ∀ {line before after ends : Text}, shown.dropInfix? line = some (before, after) →
      IsBreak ends → line = ends ++ ends →
      (beforeBreak after = beforeBreak content ↔ beforeBreak content = []) := by
    intro line before after ends hfound hends hline
    have hshown := (Text.dropInfix?_eq_some_iff.mp hfound).1
    have hwhole : body = before ++ (ends ++ ends) ++ (after ++ rest) := by
      rw [hbody, hshown, hline]
      simp
    have hle : after.length + 3 ≤ content.length := by
      rcases content_of_breaks hparted hends hwhole with rfl | ⟨inner, -, rfl⟩
      · rw [List.length_append]
        omega
      · rw [List.length_append, List.length_append]
        omega
    have hafter := length_beforeBreak_le after
    have hcontent := le_length_beforeBreak content
    apply iff_of_false
    · intro heq
      have hlength := congrArg List.length heq
      omega
    · intro hnil
      rw [hnil, List.length_nil] at hcontent
      omega
  rw [readHead]
  cases hfound : shown.dropInfix? crlfLine with
  | some found => exact hshorter hfound (Or.inr rfl) rfl
  | none =>
      cases hfoundLf : shown.dropInfix? lfLine with
      | some found => exact hshorter hfoundLf (Or.inl rfl) rfl
      | none => exact eq_comm

end Content

end EasyWaf.Modules
