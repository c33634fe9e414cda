import EasyWaf.Db.Tables
import EasyWaf.IpList.Policies

/-!
# Addresses on one list at most

The rows of the manual lists are kept apart by their text, and what a row means is a
set of addresses.  Adding a block again moves its row where the block is spelled as
it was before.
-/

namespace EasyWaf.IpList

open EasyWaf.Core Forwarded Net Db

/-- A row of `ip_rules`. -/
structure ManualRow where
  id : ℤ
  rule : IpRule
  deriving DecidableEq

structure Manual where
  rows : List ManualRow
  /-- The id of the next row. -/
  next : ℤ

inductive ListOp
  /-- A form, or a line of the one a policy is created with, for a policy or for every
  policy. -/
  | add (scope : Option ℤ) (ip listType : Text)
  | remove (id : ℤ)
  deriving DecidableEq

/-- The form names an address or a block, and a list. -/
def accepts (ip listType : Text) : Prop :=
  (Cidr.parse ip.trim).isSome = true ∧
    (listType.trim = "allow".toList ∨ listType.trim = "block".toList)

instance decidableAccepts (ip listType : Text) : Decidable (accepts ip listType) :=
  inferInstanceAs (Decidable (_ ∧ _))

namespace Manual

/-- The row of this scope and this text. -/
def isRow (scope : Option ℤ) (ip : Text) (row : ManualRow) : Bool :=
  row.rule.policyId = scope && row.rule.ip = ip

/-- `INSERT … ON CONFLICT DO UPDATE SET list_type`. -/
def put (scope : Option ℤ) (ip listType : Text) (manual : Manual) : Manual :=
  if manual.rows.any (isRow scope ip) then
    { manual with
      rows := manual.rows.map fun row =>
        if isRow scope ip row then { row with rule := { row.rule with listType } } else row }
  else
    { rows := manual.rows ++ [⟨manual.next, ⟨scope, ip, listType⟩⟩]
      next := manual.next + 1 }

/-- `post_ip_add` and `post_ip_remove`. -/
def apply (manual : Manual) : ListOp → Manual
  | .add scope ip listType =>
      if accepts ip listType then manual.put scope ip.trim listType.trim else manual
  | .remove id => { manual with rows := manual.rows.filter (·.id ≠ id) }

def after (start : Manual) (ops : List ListOp) : Manual := ops.foldl apply start

/-- The rows as the lists are built from them. -/
def entries (manual : Manual) : List (Option ℤ × Text × Text) :=
  manual.rows.map fun row => (row.rule.policyId, row.rule.ip, row.rule.listType)

end Manual

open Manual

/-- Two texts of one set of addresses. -/
def SameSet (left right : Text) : Prop :=
  ∃ block other, Cidr.parse left = some block ∧ Cidr.parse right = some other ∧
    ∀ ip, block.contains ip = other.contains ip

/-- The text is of a block the address is in. -/
def Holds (text : Text) (ip : IpAddr) : Prop :=
  ∃ block, Cidr.parse text = some block ∧ block.contains ip = true

theorem SameSet.symm {left right : Text} (hsame : SameSet left right) : SameSet right left := by
  obtain ⟨block, other, hblock, hother, hall⟩ := hsame
  exact ⟨other, block, hother, hblock, fun ip => (hall ip).symm⟩

theorem SameSet.trans {left middle right : Text} (hfirst : SameSet left middle)
    (hsecond : SameSet middle right) : SameSet left right := by
  obtain ⟨block, other, hblock, hother, hall⟩ := hfirst
  obtain ⟨again, last, hagain, hlast, hrest⟩ := hsecond
  obtain rfl : other = again := Option.some.inj (hother.symm.trans hagain)
  exact ⟨block, last, hblock, hlast, fun ip => (hall ip).trans (hrest ip)⟩

theorem SameSet.holds_iff {left right : Text} (hsame : SameSet left right) (ip : IpAddr) :
    Holds left ip ↔ Holds right ip := by
  obtain ⟨block, other, hblock, hother, hall⟩ := hsame
  simp only [Holds, hblock, hother, Option.some.injEq, exists_eq_left', hall]

/-- Two rows of one scope are of different sets. -/
def TwoSets (left right : ManualRow) : Prop :=
  left.rule.policyId = right.rule.policyId → ¬ SameSet left.rule.ip right.rule.ip

instance twoSetsSymm : Std.Symm TwoSets where
  symm := fun _ _ hapart hscope hsame => hapart hscope.symm hsame.symm

/-- No two rows of one scope are of the same set. -/
def Apart (manual : Manual) : Prop := manual.rows.Pairwise TwoSets

/-- An addition to this scope of this set. -/
def ListOp.Adds (scope : Option ℤ) (ip : Text) : ListOp → Prop
  | .add other text listType =>
      accepts text listType ∧ other = scope ∧ SameSet text.trim ip.trim
  | .remove _ => False

/-- An addition spells its block as the rows of its scope do that are of the same
set. -/
def Spelled (manual : Manual) : ListOp → Prop
  | .add scope ip listType => accepts ip listType → ∀ row ∈ manual.rows,
      row.rule.policyId = scope → SameSet row.rule.ip ip.trim → row.rule.ip = ip.trim
  | .remove _ => True

/-- The rows of this scope and this set are on this list. -/
def AllOn (manual : Manual) (scope : Option ℤ) (ip listType : Text) : Prop :=
  ∀ row ∈ manual.rows, row.rule.policyId = scope → SameSet row.rule.ip ip →
    row.rule.listType = listType

section Put

variable {manual : Manual} {scope : Option ℤ} {ip listType : Text}

theorem isRow_iff {row : ManualRow} :
    isRow scope ip row = true ↔ row.rule.policyId = scope ∧ row.rule.ip = ip := by
  rw [isRow, Bool.and_eq_true, decide_eq_true_eq, decide_eq_true_eq]

/-- The rows after an addition: those of another scope or text as they were, and one
of this scope and text on the list it names. -/
theorem mem_put (manual : Manual) (scope : Option ℤ) (ip listType : Text) :
    (∀ row ∈ (manual.put scope ip listType).rows, isRow scope ip row = true →
      row.rule.listType = listType) ∧
    (∀ row, isRow scope ip row = false →
      (row ∈ (manual.put scope ip listType).rows ↔ row ∈ manual.rows)) ∧
    ∃ row ∈ (manual.put scope ip listType).rows, isRow scope ip row = true := by
  rw [put]
  split
  · rename_i hany
    obtain ⟨found, hfound, hrow⟩ := List.any_eq_true.mp hany
    have hkey (row : ManualRow) : isRow scope ip
        { row with rule := { row.rule with listType } } = isRow scope ip row := rfl
    refine ⟨?_, ?_, ?_⟩
    · intro row hmem hisRow
      obtain ⟨before, -, rfl⟩ := List.mem_map.mp hmem
      split at hisRow
      · rename_i hbefore
        rw [if_pos hbefore]
      · rename_i hbefore
        exact absurd hisRow hbefore
    · intro row hisRow
      rw [List.mem_map]
      constructor
      · rintro ⟨before, hbefore, hsame⟩
        split at hsame
        · rename_i hold
          rw [← hsame, hkey, hold] at hisRow
          contradiction
        · rwa [← hsame]
      · intro hmem
        refine ⟨row, hmem, if_neg ?_⟩
        rw [hisRow]
        exact Bool.false_ne_true
    · refine ⟨_, List.mem_map_of_mem hfound, ?_⟩
      rw [if_pos hrow, hkey, hrow]
  · rename_i hnone
    have hnew : isRow scope ip ⟨manual.next, ⟨scope, ip, listType⟩⟩ = true :=
      isRow_iff.mpr ⟨rfl, rfl⟩
    refine ⟨?_, ?_, ?_⟩
    · intro row hmem hisRow
      cases List.mem_append.mp hmem with
      | inl hold => exact absurd (List.any_eq_true.mpr ⟨row, hold, hisRow⟩) hnone
      | inr hadded => rw [List.mem_singleton.mp hadded]
    · intro row hisRow
      rw [List.mem_append, List.mem_singleton, or_iff_left]
      rintro rfl
      rw [hnew] at hisRow
      contradiction
    · exact ⟨_, List.mem_append_right _ (List.mem_singleton_self _), hnew⟩

/-- An addition that spells its block as the rows do keeps the sets apart. -/
theorem apart_put (hapart : Apart manual)
    (hspelled : ∀ row ∈ manual.rows, row.rule.policyId = scope → SameSet row.rule.ip ip →
      row.rule.ip = ip) : Apart (manual.put scope ip listType) := by
  rw [put]
  split
  · apply List.Pairwise.map _ _ hapart
    intro left right htwo
    split <;> split <;> exact htwo
  · rename_i hnone
    apply List.pairwise_append.mpr
    refine ⟨hapart, List.pairwise_singleton _ _, ?_⟩
    intro row hrow added hadded
    rw [List.mem_singleton.mp hadded]
    intro hscope hsame
    apply hnone
    exact List.any_eq_true.mpr
      ⟨row, hrow, isRow_iff.mpr ⟨hscope, hspelled row hrow hscope hsame⟩⟩

/-- Two rows of one set stay two. -/
theorem spelled_of_apart_put
    (hapart : Apart (manual.put scope ip listType)) {row : ManualRow} (hrow : row ∈ manual.rows)
    (hscope : row.rule.policyId = scope) (hsame : SameSet row.rule.ip ip) : row.rule.ip = ip := by
  by_contra hne
  obtain ⟨-, hothers, added, hadded, hisRow⟩ := mem_put manual scope ip listType
  have hother : isRow scope ip row = false := by
    apply Bool.eq_false_iff.mpr
    intro htrue
    exact hne (isRow_iff.mp htrue).2
  have hstays := (hothers row hother).mpr hrow
  obtain ⟨hscope', hip⟩ := isRow_iff.mp hisRow
  have htwo : row ≠ added := by
    intro heq
    rw [heq] at hne
    exact hne hip
  have hdifferent := List.Pairwise.forall hapart hstays hadded htwo
  apply hdifferent (hscope.trans hscope'.symm)
  rw [hip]
  exact hsame

end Put

section Ops

variable {manual : Manual} {scope : Option ℤ} {ip listType : Text} {op : ListOp}

theorem apply_add (haccepts : accepts ip listType) :
    manual.apply (.add scope ip listType) = manual.put scope ip.trim listType.trim :=
  if_pos haccepts

/-- An operation keeps the sets apart just where it spells its block as the rows
do. -/
theorem apart_apply_iff (hapart : Apart manual) :
    Apart (manual.apply op) ↔ Spelled manual op := by
  cases op with
  | remove id => exact iff_of_true (List.Pairwise.filter _ hapart) trivial
  | add scope ip listType =>
      by_cases haccepts : accepts ip listType
      · rw [apply_add haccepts]
        constructor
        · intro hafter _ row hrow hscope hsame
          exact spelled_of_apart_put hafter hrow hscope hsame
        · intro hspelled
          exact apart_put hapart (hspelled haccepts)
      · have hleft : manual.apply (.add scope ip listType) = manual := if_neg haccepts
        rw [hleft]
        exact iff_of_true hapart fun haccepted => absurd haccepted haccepts

/-- After an addition the rows of its scope and set are on its list. -/
theorem allOn_add (haccepts : accepts ip listType)
    (hspelled : Spelled manual (.add scope ip listType)) :
    AllOn (manual.apply (.add scope ip listType)) scope ip.trim listType.trim := by
  rw [apply_add haccepts]
  obtain ⟨hlist, hothers, -⟩ := mem_put manual scope ip.trim listType.trim
  intro row hrow hscope hsame
  by_cases hisRow : isRow scope ip.trim row = true
  · exact hlist row hrow hisRow
  · have hold := (hothers row (Bool.eq_false_iff.mpr hisRow)).mp hrow
    have htext := hspelled haccepts row hold hscope hsame
    exact absurd (isRow_iff.mpr ⟨hscope, htext⟩) hisRow

/-- They stay on it until the set is added to the scope again. -/
theorem allOn_apply (hallOn : AllOn manual scope ip.trim listType)
    (hother : ¬ op.Adds scope ip) : AllOn (manual.apply op) scope ip.trim listType := by
  cases op with
  | remove id =>
      intro row hrow
      exact hallOn row (List.mem_of_mem_filter hrow)
  | add other text onto =>
      by_cases haccepts : accepts text onto
      · rw [apply_add haccepts]
        obtain ⟨-, hothers, -⟩ := mem_put manual other text.trim onto.trim
        intro row hrow hscope hsame
        by_cases hisRow : isRow other text.trim row = true
        · obtain ⟨hscope', htext⟩ := isRow_iff.mp hisRow
          rw [htext] at hsame
          exact absurd ⟨haccepts, hscope'.symm.trans hscope, hsame⟩ hother
        · exact hallOn row ((hothers row (Bool.eq_false_iff.mpr hisRow)).mp hrow) hscope hsame
      · have hleft : manual.apply (.add other text onto) = manual := if_neg haccepts
        rw [hleft]
        exact hallOn

theorem allOn_after (later : List ListOp) (hallOn : AllOn manual scope ip.trim listType)
    (hothers : ∀ op ∈ later, ¬ op.Adds scope ip) :
    AllOn (manual.after later) scope ip.trim listType := by
  induction later generalizing manual with
  | nil => exact hallOn
  | cons op rest ih =>
      apply ih (allOn_apply hallOn (hothers op List.mem_cons_self))
      exact fun other hother => hothers other (List.mem_cons_of_mem _ hother)

end Ops

section Lookups

variable {manual : Manual} {policy : ℤ} {address : IpAddr} {row : ManualRow}

/-- The policy's lists are built from the row. -/
def Serves (policy : ℤ) (row : ManualRow) : Prop :=
  row.rule.policyId = none ∨ row.rule.policyId = some policy

theorem entered_entries_iff {wanted : ListType} :
    Entered manual.entries policy address wanted ↔
      ∃ row ∈ manual.rows, Serves policy row ∧ ListType.parse row.rule.listType = some wanted ∧
        Holds row.rule.ip address := by
  simp only [Entered, entries, List.mem_map, Serves, Holds]
  constructor
  · rintro ⟨-, ⟨row, hrow, rfl⟩, hserves, hlist, hholds⟩
    exact ⟨row, hrow, hserves, hlist, hholds⟩
  · rintro ⟨row, hrow, hserves, hlist, hholds⟩
    exact ⟨_, ⟨row, hrow, rfl⟩, hserves, hlist, hholds⟩

/-- An address that one row alone covers is on the list of that row. -/
theorem lookup_of_only {wanted : ListType} (hrow : row ∈ manual.rows) (hserves : Serves policy row)
    (hlist : ListType.parse row.rule.listType = some wanted) (hholds : Holds row.rule.ip address)
    (honly : ∀ other ∈ manual.rows, Serves policy other → other ≠ row →
      ¬ Holds other.rule.ip address) :
    (Lists.build (entriesOf policy manual.entries)).lookup address = some wanted := by
  obtain ⟨hallow, hblock⟩ := lookup_build manual.entries policy address
  have hentered : Entered manual.entries policy address wanted :=
    entered_entries_iff.mpr ⟨row, hrow, hserves, hlist, hholds⟩
  cases wanted with
  | allow => exact hallow.mpr hentered
  | block =>
      refine hblock.mpr ⟨?_, hentered⟩
      intro hallowed
      obtain ⟨other, hother, hserves', hlist', hholds'⟩ := entered_entries_iff.mp hallowed
      by_cases hsame : other = row
      · rw [hsame, hlist] at hlist'
        contradiction
      · exact honly other hother hserves' hsame hholds'

/-- So it is in the lists that are rebuilt from the rows. -/
theorem lookup_rebuilt {wanted : ListType} (hrow : row ∈ manual.rows) (hserves : Serves policy row)
    (hlist : ListType.parse row.rule.listType = some wanted) (hholds : Holds row.rule.ip address)
    (honly : ∀ other ∈ manual.rows, Serves policy other → other ≠ row →
      ¬ Holds other.rule.ip address)
    {known : List ℤ} (hknown : policy ∈ known) (choices : List (Option ℤ × Text × Response))
    (muted : List (ℤ × Text)) (published : HashMap Text PublishedList) :
    (buildPolicies known manual.entries choices muted (feedData published) policy).bind
      (·.lookup address) = some wanted := by
  rw [buildPolicies_eq hknown, Option.bind_some]
  exact lookup_of_only hrow hserves hlist hholds honly

end Lookups

/-- An address on at most one list: what holds once these operations are done. -/
structure OneList (start : Manual) (done : List ListOp) : Prop where
  apart : Apart (start.after done)
  /-- An addition leaves its row. -/
  there : ∀ earlier scope ip listType, done = earlier ++ [.add scope ip listType] →
    accepts ip listType → ∃ row ∈ (start.after done).rows,
      row.rule.policyId = scope ∧ row.rule.ip = ip.trim
  /-- The rows of a scope and a set are on the list it was last added to. -/
  moved : ∀ earlier scope ip listType later, done = earlier ++ .add scope ip listType :: later →
    accepts ip listType → (∀ op ∈ later, ¬ op.Adds scope ip) →
      AllOn (start.after done) scope ip.trim listType.trim
  /-- An address of it that no other row covers is looked up as on that list. -/
  found : ∀ earlier scope ip listType later, done = earlier ++ .add scope ip listType :: later →
    accepts ip listType → (∀ op ∈ later, ¬ op.Adds scope ip) →
      ∀ row ∈ (start.after done).rows, row.rule.policyId = scope → SameSet row.rule.ip ip.trim →
      ∀ policy, Serves policy row → ∀ address, Holds ip.trim address →
        (∀ other ∈ (start.after done).rows, Serves policy other → other ≠ row →
          ¬ Holds other.rule.ip address) →
        ∀ known choices muted published, policy ∈ known →
          (buildPolicies known (start.after done).entries choices muted (feedData published)
            policy).bind (·.lookup address) = ListType.parse listType.trim

section Runs

variable {start : Manual} {ops done : List ListOp}

theorem after_append (start : Manual) (first second : List ListOp) :
    start.after (first ++ second) = (start.after first).after second :=
  List.foldl_append

theorem after_concat (start : Manual) (done : List ListOp) (op : ListOp) :
    start.after (done ++ [op]) = (start.after done).apply op :=
  after_append start done [op]

theorem apart_after (hstart : Apart start)
    (hspelled : ∀ done op, done ++ [op] <+: ops → Spelled (start.after done) op)
    (hdone : done <+: ops) : Apart (start.after done) := by
  induction done using List.reverseRecOn with
  | nil => exact hstart
  | append_singleton done op ih =>
      rw [after_concat, apart_apply_iff (ih ((List.prefix_append done [op]).trans hdone))]
      exact hspelled done op hdone

theorem parse_of_accepts {ip listType : Text} (haccepts : accepts ip listType) :
    ∃ wanted, ListType.parse listType.trim = some wanted := by
  rcases haccepts.2 with hlist | hlist
  · exact ⟨.allow, by rw [hlist]; decide⟩
  · exact ⟨.block, by rw [hlist]; decide⟩

theorem oneList_of_spelled (hstart : Apart start)
    (hspelled : ∀ done op, done ++ [op] <+: ops → Spelled (start.after done) op)
    (hdone : done <+: ops) : OneList start done := by
  have hmoved : ∀ earlier scope ip listType later,
      done = earlier ++ .add scope ip listType :: later → accepts ip listType →
        (∀ op ∈ later, ¬ op.Adds scope ip) →
          AllOn (start.after done) scope ip.trim listType.trim := by
    intro earlier scope ip listType later hparts haccepts hothers
    rw [List.append_cons] at hparts
    have hstep : earlier ++ [.add scope ip listType] <+: ops := by
      rw [hparts] at hdone
      exact (List.prefix_append _ later).trans hdone
    rw [hparts, after_append, after_concat]
    exact allOn_after later (allOn_add haccepts (hspelled _ _ hstep)) hothers
  exact {
    apart := apart_after hstart hspelled hdone
    there := by
      intro earlier scope ip listType hparts haccepts
      rw [hparts, after_concat, apply_add haccepts]
      obtain ⟨-, -, row, hrow, hisRow⟩ :=
        mem_put (start.after earlier) scope ip.trim listType.trim
      exact ⟨row, hrow, isRow_iff.mp hisRow⟩
    moved := hmoved
    found := by
      intro earlier scope ip listType later hparts haccepts hothers row hrow hscope hsame policy
        hserves address hholds honly known choices muted published hknown
      have hlist := hmoved earlier scope ip listType later hparts haccepts hothers row hrow hscope
        hsame
      obtain ⟨wanted, hwanted⟩ := parse_of_accepts haccepts
      rw [hwanted]
      apply lookup_rebuilt hrow hserves _ ((hsame.holds_iff address).mpr hholds) honly hknown
      rw [hlist]
      exact hwanted }

/-- Through any additions and removals an address is on one list at most, just where
every addition spells its block as the rows of its scope do that are of the same
set. -/
theorem one_list_iff (hstart : Apart start) (ops : List ListOp) :
    (∀ done, done <+: ops → OneList start done) ↔
      ∀ done op, done ++ [op] <+: ops → Spelled (start.after done) op := by
  constructor
  · intro hone done op hstep
    have hbefore := (hone done ((List.prefix_append done [op]).trans hstep)).apart
    have hafter := (hone (done ++ [op]) hstep).apart
    rw [after_concat] at hafter
    exact (apart_apply_iff hbefore).mp hafter
  · intro hspelled done hdone
    exact oneList_of_spelled hstart hspelled hdone

end Runs

section Moved

def noRows : Manual where
  rows := []
  next := 1

/-- An address that is blocked everywhere and then allowed, as it was spelled. -/
def correction : List ListOp :=
  [.add none " 10.0.0.1".toList "block".toList, .add none "10.0.0.1".toList "allow".toList]

theorem correction_moves :
    OneList noRows (correction.take 1) ∧ OneList noRows correction := by
  have hstart : Apart noRows := List.Pairwise.nil
  suffices hall : ∀ done, done <+: correction → OneList noRows done from
    ⟨hall _ (List.take_prefix 1 correction), hall _ List.prefix_rfl⟩
  refine (one_list_iff hstart correction).mpr ?_
  intro done op hstep
  cases done with
  | nil =>
      obtain ⟨rfl, -⟩ := List.cons_prefix_cons.mp hstep
      intro _ row hrow
      contradiction
  | cons first rest =>
      obtain ⟨rfl, hrest⟩ := List.cons_prefix_cons.mp hstep
      cases rest with
      | nil =>
          obtain ⟨rfl, -⟩ := List.cons_prefix_cons.mp hrest
          intro _ row hrow _ _
          have hrows : (noRows.after [.add none " 10.0.0.1".toList "block".toList]).rows =
              [⟨1, none, "10.0.0.1".toList, "block".toList⟩] := by decide +kernel
          rw [hrows] at hrow
          rw [List.mem_singleton.mp hrow]
          decide
      | cons second rest =>
          obtain ⟨-, hnone⟩ := List.cons_prefix_cons.mp hrest
          simp at hnone

/-- An address that is blocked, and allowed with its whole length as the prefix, is on
both lists. -/
theorem spelled_twice_is_on_both :
    ¬ ∀ (start : Manual) (done : List ListOp), Apart start → OneList start done := by
  intro hevery
  have hone := hevery noRows [.add (some 1) "10.0.0.1".toList "block".toList,
    .add (some 1) "10.0.0.1/32".toList "allow".toList] List.Pairwise.nil
  have hrows : (noRows.after [.add (some 1) "10.0.0.1".toList "block".toList,
      .add (some 1) "10.0.0.1/32".toList "allow".toList]).rows =
        [⟨1, some 1, "10.0.0.1".toList, "block".toList⟩,
          ⟨2, some 1, "10.0.0.1/32".toList, "allow".toList⟩] := by decide +kernel
  have hapart := hone.apart
  rw [Apart, hrows, List.pairwise_pair] at hapart
  apply hapart rfl
  exact ⟨⟨.v4 0x0a000001#32, 32, le_rfl⟩, ⟨.v4 0x0a000001#32, 32, le_rfl⟩, by decide +kernel,
    by decide +kernel, fun _ => rfl⟩

end Moved

end EasyWaf.IpList
