import Mathlib.Data.List.Sort
import Mathlib.Data.List.Nodup
import Mathlib.Data.List.Perm.Subperm
import Mathlib.Data.List.Induction
import Mathlib.Order.Basic

/-!
# Maps in the order of their keys

What a map that keeps its entries sorted holds once entries were put into it one
after another, a later one standing in the place of an earlier of its key.
-/

namespace EasyWaf.Core.KeyMap

variable {κ α β : Type*} [LinearOrder κ]

/-- The entries with one more, at its key's place. -/
def put (entry : κ × α) : List (κ × α) → List (κ × α)
  | [] => [entry]
  | held :: rest =>
      if entry.1 < held.1 then entry :: held :: rest
      else if entry.1 = held.1 then entry :: rest
      else held :: put entry rest

def ofEntries (entries : List (κ × α)) : List (κ × α) :=
  entries.foldl (fun held entry => put entry held) []

/-- Entries by ascending keys, none twice. -/
def Ascending (entries : List (κ × α)) : Prop := entries.Pairwise fun first second => first.1 < second.1

theorem mem_put {entry other : κ × α} {held : List (κ × α)} (hheld : Ascending held) :
    other ∈ put entry held ↔ other = entry ∨ other ∈ held ∧ other.1 ≠ entry.1 := by
  induction hheld with
  | nil => simp [put]
  | @cons first rest hfirst hrest ih =>
      have hafter : ∀ later ∈ rest, entry.1 ≤ first.1 → later.1 ≠ entry.1 := by
        intro later hlater hle
        exact ((hle.trans_lt (hfirst later hlater)).ne')
      rw [put]
      split_ifs with hlt heq
      · have hone : first.1 ≠ entry.1 := hlt.ne'
        simp only [List.mem_cons]
        grind
      · simp only [List.mem_cons]
        grind
      · simp only [List.mem_cons, ih]
        grind

theorem ascending_put {entry : κ × α} {held : List (κ × α)} (hheld : Ascending held) :
    Ascending (put entry held) := by
  induction hheld with
  | nil => exact List.pairwise_singleton _ _
  | @cons first rest hfirst hrest ih =>
      rw [put]
      split_ifs with hlt heq
      · apply List.pairwise_cons.mpr
        refine ⟨?_, List.pairwise_cons.mpr ⟨hfirst, hrest⟩⟩
        intro later hlater
        rcases List.mem_cons.mp hlater with rfl | hlater
        · exact hlt
        · exact hlt.trans (hfirst later hlater)
      · apply List.pairwise_cons.mpr
        exact ⟨fun later hlater => heq ▸ hfirst later hlater, hrest⟩
      · apply List.pairwise_cons.mpr
        refine ⟨?_, ih⟩
        intro later hlater
        rcases (mem_put hrest).mp hlater with rfl | ⟨hlater, -⟩
        · exact lt_of_le_of_ne (not_lt.mp hlt) (Ne.symm heq)
        · exact hfirst later hlater

theorem ofEntries_append_singleton (entries : List (κ × α)) (entry : κ × α) :
    ofEntries (entries ++ [entry]) = put entry (ofEntries entries) := by
  rw [ofEntries, List.foldl_append, List.foldl_cons, List.foldl_nil, ofEntries]

theorem ascending_ofEntries (entries : List (κ × α)) : Ascending (ofEntries entries) := by
  induction entries using List.reverseRecOn with
  | nil => exact List.Pairwise.nil
  | append_singleton entries entry ih =>
      rw [ofEntries_append_singleton]
      exact ascending_put ih

/-- The map holds the last entry of each key. -/
theorem mem_ofEntries {entries : List (κ × α)} {entry : κ × α} :
    entry ∈ ofEntries entries ↔
      ∃ before after, entries = before ++ entry :: after ∧ ∀ later ∈ after, later.1 ≠ entry.1 := by
  induction entries using List.reverseRecOn with
  | nil => simp [ofEntries]
  | append_singleton entries last ih =>
      rw [ofEntries_append_singleton, mem_put (ascending_ofEntries entries), ih]
      constructor
      · rintro (rfl | ⟨⟨before, after, rfl, hafter⟩, hne⟩)
        · exact ⟨entries, [], rfl, fun later hlater => absurd hlater List.not_mem_nil⟩
        · refine ⟨before, after ++ [last], by simp, ?_⟩
          intro later hlater
          rcases List.mem_append.mp hlater with hlater | hlater
          · exact hafter later hlater
          · rw [List.mem_singleton.mp hlater]
            exact hne.symm
      · rintro ⟨before, after, heq, hafter⟩
        rcases List.eq_nil_or_concat after with rfl | ⟨inner, final, rfl⟩
        · left
          exact (List.append_inj' heq rfl).2 |> List.singleton_inj.mp |> Eq.symm
        · have hends : entries ++ [last] = (before ++ entry :: inner) ++ [final] := by
            simpa using heq
          obtain ⟨hentries, hlast⟩ := List.append_inj' hends rfl
          right
          refine ⟨⟨before, inner, hentries, fun later hlater => hafter later (by simp [hlater])⟩, ?_⟩
          rw [List.singleton_inj.mp hlast]
          exact (hafter final (by simp)).symm

theorem mem_of_mem_ofEntries {entries : List (κ × α)} {entry : κ × α}
    (hentry : entry ∈ ofEntries entries) : entry ∈ entries := by
  obtain ⟨before, after, rfl, -⟩ := mem_ofEntries.mp hentry
  exact List.mem_append_right _ List.mem_cons_self

theorem put_map (f : κ → α → β) (entry : κ × α) (held : List (κ × α)) :
    put (entry.1, f entry.1 entry.2) (held.map fun kept => (kept.1, f kept.1 kept.2)) =
      (put entry held).map fun kept => (kept.1, f kept.1 kept.2) := by
  induction held with
  | nil => rfl
  | cons first rest ih =>
      simp only [put, List.map_cons, ih]
      split_ifs <;> rfl

/-- Which entries a map holds is a matter of their keys alone. -/
theorem ofEntries_map (f : κ → α → β) (entries : List (κ × α)) :
    ofEntries (entries.map fun entry => (entry.1, f entry.1 entry.2)) =
      (ofEntries entries).map fun entry => (entry.1, f entry.1 entry.2) := by
  induction entries using List.reverseRecOn with
  | nil => rfl
  | append_singleton entries entry ih =>
      rw [List.map_append, List.map_singleton, ofEntries_append_singleton, ih, put_map,
        ofEntries_append_singleton]

theorem Ascending.nodup {entries : List (κ × α)} (hentries : Ascending entries) : entries.Nodup :=
  hentries.imp fun hlt heq => hlt.ne (congrArg Prod.fst heq)

theorem ofEntries_subperm (entries : List (κ × α)) : (ofEntries entries).Subperm entries :=
  List.subperm_of_subset (ascending_ofEntries entries).nodup fun _ => mem_of_mem_ofEntries

/-- What holds of each entry and every later one holds of two by their keys. -/
theorem Ascending.of_lt {entries : List (κ × α)} {relates : κ × α → κ × α → Prop}
    (hentries : Ascending entries) (hpairs : entries.Pairwise relates) {first second : κ × α}
    (hfirst : first ∈ entries) (hsecond : second ∈ entries) (hlt : first.1 < second.1) :
    relates first second := by
  have hboth := List.pairwise_iff_getElem.mp (List.Pairwise.and hentries hpairs)
  obtain ⟨i, hi, rfl⟩ := List.mem_iff_getElem.mp hfirst
  obtain ⟨j, hj, rfl⟩ := List.mem_iff_getElem.mp hsecond
  rcases lt_trichotomy i j with hij | rfl | hji
  · exact (hboth i j hi hj hij).2
  · exact absurd hlt (lt_irrefl _)
  · exact absurd hlt (hboth j i hj hi hji).1.not_gt

theorem Ascending.eq_of_mem_iff {first second : List (κ × α)} (hfirst : Ascending first)
    (hsecond : Ascending second) (hmem : ∀ entry, entry ∈ first ↔ entry ∈ second) :
    first = second := by
  apply List.Perm.eq_of_pairwise (fun a b _ _ hab hba => absurd hba (lt_asymm hab)) hfirst hsecond
  exact (List.perm_ext_iff_of_nodup hfirst.nodup hsecond.nodup).mpr hmem

section Blocks

/-! Entries that stand over the pieces of a sequence: put into a map, they give
the sequence back when no entry over a piece is replaced and those entries come
by their keys. -/

/-- Entries over a piece come by ascending keys, and nothing later replaces one. -/
def InOrder (written : List (κ × List β)) : Prop :=
  written.Pairwise fun first second =>
    first.2 ≠ [] → first.1 ≠ second.1 ∧ (second.2 ≠ [] → first.1 < second.1)

omit [LinearOrder κ] in
theorem filter_flatMap_of_only {before after : List (κ × List β)} {entry : κ × List β}
    {among : β → Bool} (hentry : ∀ piece ∈ entry.2, among piece = true)
    (hothers : ∀ other ∈ before ++ after, ∀ piece ∈ other.2, among piece = false) :
    ((before ++ entry :: after).flatMap (·.2)).filter among = entry.2 := by
  have hnone : ∀ {others : List (κ × List β)}, others ⊆ before ++ after →
      (others.flatMap (·.2)).filter among = [] := by
    intro others hsub
    apply List.filter_eq_nil_iff.mpr
    intro piece hpiece
    obtain ⟨other, hother, hin⟩ := List.mem_flatMap.mp hpiece
    rw [hothers other (hsub hother) piece hin]
    exact Bool.false_ne_true
  rw [List.flatMap_append, List.flatMap_cons, List.filter_append, List.filter_append,
    hnone (List.subset_append_left _ _), hnone (List.subset_append_right _ _),
    List.filter_eq_self.mpr hentry, List.nil_append, List.append_nil]

omit [LinearOrder κ] in
theorem flatMap_filter_ne_nil (entries : List (κ × List β)) :
    (entries.filter fun entry => !entry.2.isEmpty).flatMap (·.2) = entries.flatMap (·.2) := by
  induction entries with
  | nil => rfl
  | cons entry rest ih =>
      cases hpieces : entry.2 with
      | nil => simp [hpieces, ih]
      | cons piece pieces => simp [hpieces, ih]

/-- Entries in order are given back by the map. -/
theorem flatMap_ofEntries_of_inOrder {written : List (κ × List β)} (horder : InOrder written) :
    (ofEntries written).flatMap (·.2) = written.flatMap (·.2) := by
  rw [← flatMap_filter_ne_nil (ofEntries written), ← flatMap_filter_ne_nil written]
  congr 1
  apply Ascending.eq_of_mem_iff
  · exact (ascending_ofEntries written).filter _
  · rw [Ascending, List.pairwise_filter]
    apply horder.imp
    intro first second hpair hfirst hsecond
    exact (hpair (by simpa using hfirst)).2 (by simpa using hsecond)
  · intro entry
    simp only [List.mem_filter, and_congr_left_iff]
    intro hpieces
    constructor
    · exact mem_of_mem_ofEntries
    · intro hmem
      obtain ⟨before, after, rfl⟩ := List.append_of_mem hmem
      refine mem_ofEntries.mpr ⟨before, after, rfl, ?_⟩
      intro later hlater
      have hrest := (List.pairwise_append.mp horder).2.1
      have hpair := (List.pairwise_cons.mp hrest).1 later hlater
      exact ((hpair (by simpa using hpieces)).1).symm

variable {reads written : List (κ × List β)} {tag : β → ℕ}

omit [LinearOrder κ] in
theorem mem_flatMap_of_forall₂
    (hreads : List.Forall₂ (fun read own => read.1 = own.1 ∧ read.2 ⊆ own.2) reads written)
    {read : κ × List β} (hread : read ∈ reads) {piece : β} (hpiece : piece ∈ read.2) :
    piece ∈ written.flatMap (·.2) := by
  induction hreads with
  | nil => exact absurd hread List.not_mem_nil
  | cons hpair _ ih =>
      rw [List.flatMap_cons]
      rcases List.mem_cons.mp hread with rfl | hread
      · exact List.mem_append_left _ (hpair.2 hpiece)
      · exact List.mem_append_right _ (ih hread)

/-- Entries whose pieces are tagged with where the entry stands. -/
def Tagged (tag : β → ℕ) (entries : List (κ × List β)) : Prop :=
  ∀ i entry, entries[i]? = some entry → ∀ piece ∈ entry.2, tag piece = i

omit [LinearOrder κ] in
theorem Tagged.of_reads
    (hreads : List.Forall₂ (fun read own => read.1 = own.1 ∧ read.2 ⊆ own.2) reads written)
    (htag : Tagged tag written) : Tagged tag reads := by
  intro i read hi piece hpiece
  obtain ⟨hlength, hget⟩ := List.forall₂_iff_get.mp hreads
  obtain ⟨hlt, rfl⟩ := List.getElem?_eq_some_iff.mp hi
  have hltw : i < written.length := hlength ▸ hlt
  exact htag i _ (List.getElem?_eq_getElem hltw) piece ((hget i hlt hltw).2 hpiece)

omit [LinearOrder κ] in
theorem Tagged.filter_written (htag : Tagged tag written) {i : ℕ} {own : κ × List β}
    (hi : written[i]? = some own) :
    (written.flatMap (·.2)).filter (tag · == i) = own.2 := by
  obtain ⟨hlt, hown⟩ := List.getElem?_eq_some_iff.mp hi
  have hcut : written = written.take i ++ own :: written.drop (i + 1) := by
    rw [← hown, ← List.drop_eq_getElem_cons hlt, List.take_append_drop]
  rw [hcut]
  apply filter_flatMap_of_only
  · intro piece hpiece
    exact beq_iff_eq.mpr (htag i own hi piece hpiece)
  · intro other hother piece hpiece
    apply beq_eq_false_iff_ne.mpr
    rcases List.mem_append.mp hother with hin | hin
    · obtain ⟨k, hk, hkeq⟩ := List.mem_take_iff_getElem.mp hin
      rw [htag k other (List.getElem?_eq_some_iff.mpr ⟨_, hkeq⟩) piece hpiece]
      exact (hk.trans_le (min_le_left _ _)).ne
    · obtain ⟨k, hk, hkeq⟩ := List.mem_drop_iff_getElem.mp hin
      rw [htag _ other (List.getElem?_eq_some_iff.mpr ⟨_, hkeq⟩) piece hpiece]
      omega

omit [LinearOrder κ] in
/-- Entries under the same keys give the same sequence exactly when they are the
same. -/
theorem Tagged.flatMap_eq_iff
    (hreads : List.Forall₂ (fun read own => read.1 = own.1 ∧ read.2 ⊆ own.2) reads written)
    (htag : Tagged tag written) :
    reads.flatMap (·.2) = written.flatMap (·.2) ↔ reads = written := by
  constructor
  · intro heq
    obtain ⟨hlength, hget⟩ := List.forall₂_iff_get.mp hreads
    apply List.ext_getElem hlength
    intro i hi hiw
    apply Prod.ext (hget i hi hiw).1
    calc
      reads[i].2 = (reads.flatMap (·.2)).filter (tag · == i) :=
        ((htag.of_reads hreads).filter_written (List.getElem?_eq_getElem hi)).symm
      _ = (written.flatMap (·.2)).filter (tag · == i) := by rw [heq]
      _ = written[i].2 := htag.filter_written (List.getElem?_eq_getElem hiw)
  · intro heq
    rw [heq]

theorem Tagged.filter_ofEntries (htag : Tagged tag reads) {i : ℕ} {read : κ × List β}
    (hi : reads[i]? = some read) (hread : read ∈ ofEntries reads) :
    ((ofEntries reads).flatMap (·.2)).filter (tag · == i) = read.2 := by
  have hnodup := (ascending_ofEntries reads).nodup
  have hmem : ∀ {other}, other ∈ ofEntries reads → other ∈ reads := mem_of_mem_ofEntries
  obtain ⟨first, last, hheld⟩ := List.append_of_mem hread
  rw [hheld] at hmem hnodup ⊢
  apply filter_flatMap_of_only
  · intro piece hpiece
    exact beq_iff_eq.mpr (htag i read hi piece hpiece)
  · intro other hother piece hpiece
    have hin : other ∈ first ++ read :: last := by
      rcases List.mem_append.mp hother with h | h <;> simp [h]
    obtain ⟨k, hk⟩ := List.mem_iff_getElem?.mp (hmem hin)
    apply beq_eq_false_iff_ne.mpr
    rw [htag k other hk piece hpiece]
    rintro rfl
    have hsame : other = read := Option.some.inj (hk.symm.trans hi)
    exact (List.nodup_middle.mp hnodup).notMem (hsame ▸ hother)

omit [LinearOrder κ] in
theorem Tagged.pairwise (htag : Tagged tag written) :
    (written.flatMap (·.2)).Pairwise fun first second => tag first ≤ tag second := by
  apply List.pairwise_flatMap.mpr
  constructor
  · intro own hown
    obtain ⟨i, hi⟩ := List.mem_iff_getElem?.mp hown
    apply List.pairwise_of_forall_mem_list
    intro first hfirst second hsecond
    rw [htag i own hi first hfirst, htag i own hi second hsecond]
  · apply List.pairwise_iff_getElem.mpr
    intro i j hi hj hij first hfirst second hsecond
    rw [htag i _ (List.getElem?_eq_getElem hi) first hfirst,
      htag j _ (List.getElem?_eq_getElem hj) second hsecond]
    exact hij.le

/-- An entry over a piece, when the map gives back the sequence as written: read
as it stands, and by no later entry replaced. -/
theorem read_of_flatMap_eq
    (hreads : List.Forall₂ (fun read own => read.1 = own.1 ∧ read.2 ⊆ own.2) reads written)
    (htag : Tagged tag written)
    (heq : (ofEntries reads).flatMap (·.2) = written.flatMap (·.2)) (i : ℕ) (own : κ × List β)
    (hi : written[i]? = some own) (hown : own.2 ≠ []) :
    own ∈ ofEntries reads ∧ reads[i]? = some own ∧
      ∀ j later, i < j → reads[j]? = some later → later.1 ≠ own.1 := by
  have htagReads := htag.of_reads hreads
  obtain ⟨piece, hpiece⟩ := List.exists_mem_of_ne_nil _ hown
  have hin : piece ∈ (ofEntries reads).flatMap (·.2) := by
    rw [heq]
    exact List.mem_flatMap.mpr ⟨own, List.mem_of_getElem? hi, hpiece⟩
  obtain ⟨read, hread, hpieceRead⟩ := List.mem_flatMap.mp hin
  obtain ⟨before, after, hsplit, hafter⟩ := mem_ofEntries.mp hread
  have hat : reads[before.length]? = some read := by
    rw [hsplit, List.getElem?_append_right le_rfl, Nat.sub_self, List.getElem?_cons_zero]
  have hindex : before.length = i :=
    (htagReads _ _ hat piece hpieceRead).symm.trans (htag i own hi piece hpiece)
  rw [hindex] at hat
  have hkeys : read.1 = own.1 := by
    obtain ⟨hlength, hget⟩ := List.forall₂_iff_get.mp hreads
    obtain ⟨hlt, hread'⟩ := List.getElem?_eq_some_iff.mp hat
    obtain ⟨hltw, hown'⟩ := List.getElem?_eq_some_iff.mp hi
    rw [← hread', ← hown']
    exact (hget i hlt hltw).1
  have hpieces : read.2 = own.2 :=
    calc
      read.2 = ((ofEntries reads).flatMap (·.2)).filter (tag · == i) :=
        (htagReads.filter_ofEntries hat hread).symm
      _ = (written.flatMap (·.2)).filter (tag · == i) := by rw [heq]
      _ = own.2 := htag.filter_written hi
  have hsame : read = own := Prod.ext hkeys hpieces
  subst hsame
  refine ⟨hread, hat, ?_⟩
  intro j later hij hlater
  apply hafter later
  rw [hsplit, List.getElem?_append_right (hindex ▸ hij.le), hindex] at hlater
  obtain ⟨d, hd⟩ := Nat.exists_eq_add_of_lt hij
  rw [show j - i = d + 1 by omega, List.getElem?_cons_succ] at hlater
  exact List.mem_of_getElem? hlater

/-- What a map gives back of entries is the sequence as written exactly when each
was read as it stands and they are in order. -/
theorem flatMap_ofEntries_eq_iff
    (hreads : List.Forall₂ (fun read own => read.1 = own.1 ∧ read.2 ⊆ own.2) reads written)
    (htag : Tagged tag written) :
    (ofEntries reads).flatMap (·.2) = written.flatMap (·.2) ↔ reads = written ∧ InOrder written := by
  constructor
  · intro heq
    have hread := read_of_flatMap_eq hreads htag heq
    constructor
    · obtain ⟨hlength, hget⟩ := List.forall₂_iff_get.mp hreads
      apply List.ext_getElem hlength
      intro i hi hiw
      obtain ⟨hkey, hsub⟩ := hget i hi hiw
      simp only [List.get_eq_getElem] at hkey hsub
      by_cases hown : written[i].2 = []
      · rw [hown] at hsub
        exact Prod.ext hkey ((List.subset_nil.mp hsub).trans hown.symm)
      · have hat := (hread _ _ (List.getElem?_eq_getElem hiw) hown).2.1
        exact (List.getElem?_eq_some_iff.mp hat).2
    · apply List.pairwise_iff_getElem.mpr
      intro i j hi hj hij hfirst
      obtain ⟨hfirstIn, -, hlater⟩ := hread _ _ (List.getElem?_eq_getElem hi) hfirst
      have hne : written[i].1 ≠ written[j].1 := by
        obtain ⟨hlength, hget⟩ := List.forall₂_iff_get.mp hreads
        have hjr : j < reads.length := hlength ▸ hj
        have hkey := (hget j hjr hj).1
        simp only [List.get_eq_getElem] at hkey
        rw [← hkey]
        exact (hlater j _ hij (List.getElem?_eq_getElem hjr)).symm
      refine ⟨hne, fun hsecond => lt_of_le_of_ne (not_lt.mp fun hlt => ?_) hne⟩
      -- an entry with the lesser key would come first in the map
      have hsecondIn := (hread _ _ (List.getElem?_eq_getElem hj) hsecond).1
      have htags := (List.pairwise_flatMap.mp (heq ▸ htag.pairwise)).2
      have hordered := (ascending_ofEntries reads).of_lt htags hsecondIn hfirstIn hlt
      obtain ⟨piece, hpiece⟩ := List.exists_mem_of_ne_nil _ hfirst
      obtain ⟨other, hother⟩ := List.exists_mem_of_ne_nil _ hsecond
      have hle := hordered other hother piece hpiece
      rw [htag i _ (List.getElem?_eq_getElem hi) piece hpiece,
        htag j _ (List.getElem?_eq_getElem hj) other hother] at hle
      omega
  · rintro ⟨rfl, horder⟩
    exact flatMap_ofEntries_of_inOrder horder

end Blocks

end EasyWaf.Core.KeyMap

namespace EasyWaf.Core

/-- Where an element stands in a list that goes down: behind those above it. -/
theorem mem_drop_iff_le_countP {α : Type*} {above : α → α → Prop} [DecidableRel above]
    (hasymm : ∀ a b, above a b → ¬ above b a) {list : List α} (hsorted : list.Pairwise above) {a : α}
    (ha : a ∈ list) (count : ℕ) :
    a ∈ list.drop count ↔ count ≤ list.countP fun other => above other a := by
  induction hsorted generalizing count with
  | nil => contradiction
  | @cons first rest hfirst hrest ih =>
      rw [List.countP_cons]
      obtain rfl | hmem := List.mem_cons.mp ha
      · have hself : ¬ above a a := fun h => hasymm a a h h
        have hnone : rest.countP (fun other => above other a) = 0 := by
          rw [List.countP_eq_zero]
          intro other hother
          simpa using hasymm a other (hfirst other hother)
        rw [hnone, if_neg (by simpa using hself)]
        cases count with
        | zero => simp
        | succ count =>
            rw [List.drop_succ_cons]
            constructor
            · exact fun hlater => absurd (hfirst a (List.mem_of_mem_drop hlater)) hself
            · exact fun hle => absurd hle (Nat.not_succ_le_zero count)
      · rw [if_pos (by simpa using hfirst a hmem)]
        cases count with
        | zero => simp [hmem]
        | succ count => rw [List.drop_succ_cons, ih hmem, Nat.add_le_add_iff_right]

end EasyWaf.Core
