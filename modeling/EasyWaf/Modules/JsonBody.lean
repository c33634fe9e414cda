import EasyWaf.Core.KeyMap
import EasyWaf.Modules.RequestParts
import Mathlib.Data.List.Lex

/-!
# What a JSON body shows

A body's document as its text writes it, as the map that parses it holds it, and
the leaves of it the rules are shown: all of them, in the text's order, when the
members that stand over a leaf come by their names and none is repeated.
-/

namespace EasyWaf.Modules.Json

open Core.KeyMap

section Held

mutual

/-- A document as `serde_json` holds it: an object's members in the order of their
names, and of a repeated one the last. -/
def held : Json → Json
  | .object members => .object (ofEntries (heldMembers members))
  | .array items => .array (heldItems items)
  | .null => .null
  | .bool value => .bool value
  | .number text => .number text
  | .string text => .string text

def heldMembers : List (Text × Json) → List (Text × Json)
  | [] => []
  | (name, value) :: rest => (name, held value) :: heldMembers rest

def heldItems : List Json → List Json
  | [] => []
  | item :: rest => held item :: heldItems rest

end

theorem heldMembers_eq_map (members : List (Text × Json)) :
    heldMembers members = members.map fun member => (member.1, member.2.held) := by
  induction members with
  | nil => rw [heldMembers, List.map_nil]
  | cons member rest ih => rw [heldMembers, List.map_cons, ih]

theorem heldItems_eq_map (items : List Json) : heldItems items = items.map held := by
  induction items with
  | nil => rw [heldItems, List.map_nil]
  | cons item rest ih => rw [heldItems, List.map_cons, ih]

/-- A document's nodes, from what they stand over. -/
theorem induct {motive : Json → Prop} (object : ∀ members : List (Text × Json),
      (∀ member ∈ members, motive member.2) → motive (.object members))
    (array : ∀ items : List Json, (∀ item ∈ items, motive item) → motive (.array items))
    (null : motive .null) (bool : ∀ value, motive (.bool value))
    (number : ∀ text, motive (.number text)) (string : ∀ text, motive (.string text)) :
    ∀ node : Json, motive node
  | .object members => object members fun member _ =>
      induct object array null bool number string member.2
  | .array items => array items fun item _ => induct object array null bool number string item
  | .null => null
  | .bool value => bool value
  | .number text => number text
  | .string text => string text
  termination_by node => sizeOf node
  decreasing_by
    · rename_i hmember
      obtain ⟨name, value⟩ := member
      have hlt := List.sizeOf_lt_of_mem hmember
      simp only [Prod.mk.sizeOf_spec, Json.object.sizeOf_spec] at hlt ⊢
      omega
    · rename_i hitem
      have hlt := List.sizeOf_lt_of_mem hitem
      simp only [Json.array.sizeOf_spec]
      omega

end Held

section Leaves

/-- A leaf of a document: where it stands, the name it goes by and its text. -/
structure Leaf where
  place : List ℕ
  name : Text
  text : Text

/-- The value a node is of itself. -/
def ownLeaf (place : List ℕ) (key : Text) (node : Json) : List Leaf :=
  (node.leaf.map fun text => ⟨place, key, text⟩).toList

variable (order : List (Text × List Leaf) → List (Text × List Leaf))

mutual

/-- A document's leaves, an object's members taken in an order. -/
def leavesBy (place : List ℕ) (key : Text) : Json → List Leaf
  | .object members => (order (memberLeaves place 0 members)).flatMap (·.2)
  | .array items => (itemLeaves place key 0 items).flatMap (·.2)
  | node => ownLeaf place key node

def memberLeaves (place : List ℕ) (index : ℕ) : List (Text × Json) → List (Text × List Leaf)
  | [] => []
  | (name, value) :: rest =>
      (name, leavesBy (place ++ [index]) name value) :: memberLeaves place (index + 1) rest

def itemLeaves (place : List ℕ) (key : Text) (index : ℕ) : List Json → List (Text × List Leaf)
  | [] => []
  | item :: rest => (key, leavesBy (place ++ [index]) key item) :: itemLeaves place key (index + 1) rest

end

/-- A document's leaves in the order its text writes them. -/
def leavesAt (place : List ℕ) (key : Text) (node : Json) : List Leaf := leavesBy id place key node

/-- A document's leaves in the order the map that parsed it gives them. -/
def readAt (place : List ℕ) (key : Text) (node : Json) : List Leaf :=
  leavesBy ofEntries place key node

theorem getElem?_memberLeaves (place : List ℕ) (members : List (Text × Json)) (index i : ℕ) :
    (memberLeaves order place index members)[i]? = members[i]?.map fun member =>
      (member.1, member.2.leavesBy order (place ++ [index + i]) member.1) := by
  induction members generalizing index i with
  | nil => rw [memberLeaves, List.getElem?_nil, List.getElem?_nil, Option.map_none]
  | cons member rest ih =>
      rw [memberLeaves]
      cases i with
      | zero => rfl
      | succ i =>
          rw [List.getElem?_cons_succ, List.getElem?_cons_succ, ih, Nat.add_assoc, Nat.add_comm 1 i]

theorem getElem?_itemLeaves (place : List ℕ) (key : Text) (items : List Json) (index i : ℕ) :
    (itemLeaves order place key index items)[i]? = items[i]?.map fun item =>
      (key, item.leavesBy order (place ++ [index + i]) key) := by
  induction items generalizing index i with
  | nil => rw [itemLeaves, List.getElem?_nil, List.getElem?_nil, Option.map_none]
  | cons item rest ih =>
      rw [itemLeaves]
      cases i with
      | zero => rfl
      | succ i =>
          rw [List.getElem?_cons_succ, List.getElem?_cons_succ, ih, Nat.add_assoc, Nat.add_comm 1 i]

/-- A leaf stands within the node it is a leaf of. -/
theorem place_of_mem_leavesAt {node : Json} {place : List ℕ} {key : Text} {leaf : Leaf}
    (hleaf : leaf ∈ node.leavesAt place key) : place <+: leaf.place := by
  induction node using induct generalizing place key with
  | object members ih =>
      rw [leavesAt, leavesBy] at hleaf
      obtain ⟨entry, hentry, hin⟩ := List.mem_flatMap.mp hleaf
      obtain ⟨i, hi⟩ := List.mem_iff_getElem?.mp hentry
      rw [id_eq, getElem?_memberLeaves] at hi
      obtain ⟨member, hmember, rfl⟩ := Option.map_eq_some_iff.mp hi
      exact (List.prefix_append _ _).trans (ih member (List.mem_of_getElem? hmember) hin)
  | array items ih =>
      rw [leavesAt, leavesBy] at hleaf
      obtain ⟨entry, hentry, hin⟩ := List.mem_flatMap.mp hleaf
      obtain ⟨i, hi⟩ := List.mem_iff_getElem?.mp hentry
      rw [getElem?_itemLeaves] at hi
      obtain ⟨item, hitem, rfl⟩ := Option.map_eq_some_iff.mp hi
      exact (List.prefix_append _ _).trans (ih item (List.mem_of_getElem? hitem) hin)
  | null => simp [leavesAt, leavesBy, ownLeaf, Json.leaf] at hleaf
  | bool | number | string =>
      simp only [leavesAt, leavesBy, ownLeaf, Json.leaf, Option.map_some, Option.toList_some,
        List.mem_singleton] at hleaf
      rw [hleaf]

end Leaves

section Order

mutual

/-- Whether a leaf stands anywhere in a document. -/
def bears : Json → Bool
  | .object members => membersBear members
  | .array items => itemsBear items
  | .null => false
  | _ => true

def membersBear : List (Text × Json) → Bool
  | [] => false
  | (_, value) :: rest => bears value || membersBear rest

def itemsBear : List Json → Bool
  | [] => false
  | item :: rest => bears item || itemsBear rest

end

theorem membersBear_eq_any (members : List (Text × Json)) :
    membersBear members = members.any fun member => member.2.bears := by
  induction members with
  | nil => rw [membersBear, List.any_nil]
  | cons member rest ih => rw [membersBear, List.any_cons, ih]

theorem itemsBear_eq_any (items : List Json) : itemsBear items = items.any bears := by
  induction items with
  | nil => rw [itemsBear, List.any_nil]
  | cons item rest ih => rw [itemsBear, List.any_cons, ih]

theorem leavesAt_eq_nil_iff {node : Json} {place : List ℕ} {key : Text} :
    node.leavesAt place key = [] ↔ node.bears = false := by
  induction node using induct generalizing place key with
  | object members ih =>
      rw [leavesAt, leavesBy, bears, membersBear_eq_any, List.any_eq_false, List.flatMap_eq_nil_iff]
      constructor
      · intro hnil member hmember
        obtain ⟨i, hi⟩ := List.mem_iff_getElem?.mp hmember
        have hentry := getElem?_memberLeaves id place members 0 i
        rw [hi, Option.map_some] at hentry
        have hblock := hnil _ (List.mem_of_getElem? hentry)
        rw [(ih member hmember).mp hblock]
        exact Bool.false_ne_true
      · intro hbears entry hentry
        obtain ⟨i, hi⟩ := List.mem_iff_getElem?.mp hentry
        rw [id_eq, getElem?_memberLeaves] at hi
        obtain ⟨member, hmember, rfl⟩ := Option.map_eq_some_iff.mp hi
        have hmem := List.mem_of_getElem? hmember
        exact (ih member hmem).mpr (Bool.eq_false_of_not_eq_true (hbears member hmem))
  | array items ih =>
      rw [leavesAt, leavesBy, bears, itemsBear_eq_any, List.any_eq_false, List.flatMap_eq_nil_iff]
      constructor
      · intro hnil item hitem
        obtain ⟨i, hi⟩ := List.mem_iff_getElem?.mp hitem
        have hentry := getElem?_itemLeaves id place key items 0 i
        rw [hi, Option.map_some] at hentry
        have hblock := hnil _ (List.mem_of_getElem? hentry)
        rw [(ih item hitem).mp hblock]
        exact Bool.false_ne_true
      · intro hbears entry hentry
        obtain ⟨i, hi⟩ := List.mem_iff_getElem?.mp hentry
        rw [getElem?_itemLeaves] at hi
        obtain ⟨item, hitem, rfl⟩ := Option.map_eq_some_iff.mp hi
        have hmem := List.mem_of_getElem? hitem
        exact (ih item hmem).mpr (Bool.eq_false_of_not_eq_true (hbears item hmem))
  | null => simp [leavesAt, leavesBy, ownLeaf, Json.leaf, bears]
  | bool | number | string => simp [leavesAt, leavesBy, ownLeaf, Json.leaf, bears]

/-- Entries that differ in nothing but how their nodes were read. -/
theorem forall₂_memberLeaves {members : List (Text × Json)} (place : List ℕ) (index : ℕ)
    (hsub : ∀ member ∈ members, ∀ inner key, member.2.readAt inner key ⊆ member.2.leavesAt inner key) :
    List.Forall₂ (fun read own => read.1 = own.1 ∧ read.2 ⊆ own.2)
      (memberLeaves ofEntries place index members) (memberLeaves id place index members) := by
  induction members generalizing index with
  | nil =>
      rw [memberLeaves, memberLeaves]
      exact List.Forall₂.nil
  | cons member rest ih =>
      rw [memberLeaves, memberLeaves]
      apply List.Forall₂.cons
      · exact ⟨rfl, hsub member List.mem_cons_self _ _⟩
      · exact ih (index + 1) fun member hmember => hsub member (List.mem_cons_of_mem _ hmember)

theorem forall₂_itemLeaves {items : List Json} (place : List ℕ) (key : Text) (index : ℕ)
    (hsub : ∀ item ∈ items, ∀ inner key, item.readAt inner key ⊆ item.leavesAt inner key) :
    List.Forall₂ (fun read own => read.1 = own.1 ∧ read.2 ⊆ own.2)
      (itemLeaves ofEntries place key index items) (itemLeaves id place key index items) := by
  induction items generalizing index with
  | nil =>
      rw [itemLeaves, itemLeaves]
      exact List.Forall₂.nil
  | cons item rest ih =>
      rw [itemLeaves, itemLeaves]
      apply List.Forall₂.cons
      · exact ⟨rfl, hsub item List.mem_cons_self _ _⟩
      · exact ih (index + 1) fun item hitem => hsub item (List.mem_cons_of_mem _ hitem)

/-- What is read of a document is of it. -/
theorem readAt_subset_leavesAt (node : Json) (place : List ℕ) (key : Text) :
    node.readAt place key ⊆ node.leavesAt place key := by
  induction node using induct generalizing place key with
  | object members ih =>
      have hreads := forall₂_memberLeaves place 0 ih
      intro leaf hleaf
      rw [readAt, leavesBy] at hleaf
      obtain ⟨entry, hentry, hin⟩ := List.mem_flatMap.mp hleaf
      exact mem_flatMap_of_forall₂ hreads (mem_of_mem_ofEntries hentry) hin
  | array items ih =>
      have hreads := forall₂_itemLeaves place key 0 ih
      intro leaf hleaf
      rw [readAt, leavesBy] at hleaf
      obtain ⟨entry, hentry, hin⟩ := List.mem_flatMap.mp hleaf
      exact mem_flatMap_of_forall₂ hreads hentry hin
  | null | bool | number | string => exact List.Subset.refl _

/-- The position, within what stands at a place, that a leaf is under. -/
def indexUnder (place : List ℕ) (leaf : Leaf) : ℕ := (leaf.place[place.length]?).getD 0

theorem indexUnder_of_mem {node : Json} {place : List ℕ} {i : ℕ} {key : Text} {leaf : Leaf}
    (hleaf : leaf ∈ node.leavesAt (place ++ [i]) key) : indexUnder place leaf = i := by
  obtain ⟨rest, hrest⟩ := place_of_mem_leavesAt hleaf
  rw [indexUnder, ← hrest, List.append_assoc, List.getElem?_append_right le_rfl, Nat.sub_self]
  rfl

theorem tagged_memberLeaves (place : List ℕ) (members : List (Text × Json)) :
    Tagged (indexUnder place) (memberLeaves id place 0 members) := by
  intro i entry hi leaf hleaf
  rw [getElem?_memberLeaves] at hi
  obtain ⟨member, -, rfl⟩ := Option.map_eq_some_iff.mp hi
  exact (indexUnder_of_mem hleaf).trans (Nat.zero_add i)

theorem tagged_itemLeaves (place : List ℕ) (key : Text) (items : List Json) :
    Tagged (indexUnder place) (itemLeaves id place key 0 items) := by
  intro i entry hi leaf hleaf
  rw [getElem?_itemLeaves] at hi
  obtain ⟨item, -, rfl⟩ := Option.map_eq_some_iff.mp hi
  exact (indexUnder_of_mem hleaf).trans (Nat.zero_add i)

/-- In every object of a document, the members over a leaf come by their names, and
none is repeated after it. -/
inductive Ordered : Json → Prop
  | object {members : List (Text × Json)}
      (hpairs : members.Pairwise fun first second => first.2.bears = true →
        first.1 ≠ second.1 ∧ (second.2.bears = true → first.1 < second.1))
      (hmembers : ∀ member ∈ members, Ordered member.2) : Ordered (.object members)
  | array {items : List Json} (hitems : ∀ item ∈ items, Ordered item) : Ordered (.array items)
  | null : Ordered .null
  | bool (value : Bool) : Ordered (.bool value)
  | number (text : Text) : Ordered (.number text)
  | string (text : Text) : Ordered (.string text)

theorem ordered_object_iff {members : List (Text × Json)} :
    Ordered (.object members) ↔ (members.Pairwise fun first second => first.2.bears = true →
        first.1 ≠ second.1 ∧ (second.2.bears = true → first.1 < second.1)) ∧
      ∀ member ∈ members, Ordered member.2 := by
  constructor
  · rintro ⟨hpairs, hmembers⟩
    exact ⟨hpairs, hmembers⟩
  · intro h
    exact .object h.1 h.2

theorem ordered_array_iff {items : List Json} :
    Ordered (.array items) ↔ ∀ item ∈ items, Ordered item := by
  constructor
  · rintro ⟨⟩
    assumption
  · exact .array

theorem inOrder_memberLeaves_iff {place : List ℕ} {index : ℕ} {members : List (Text × Json)} :
    InOrder (memberLeaves id place index members) ↔
      members.Pairwise fun first second => first.2.bears = true →
        first.1 ≠ second.1 ∧ (second.2.bears = true → first.1 < second.1) := by
  have hbears : ∀ (node : Json) (inner : List ℕ) (key : Text),
      node.leavesBy id inner key ≠ [] ↔ node.bears = true := by
    intro node inner key
    rw [← Bool.not_eq_false, ← @leavesAt_eq_nil_iff node inner key]
    rfl
  induction members generalizing index with
  | nil =>
      rw [memberLeaves]
      exact iff_of_true List.Pairwise.nil List.Pairwise.nil
  | cons member rest ih =>
      rw [memberLeaves, InOrder, List.pairwise_cons, List.pairwise_cons]
      apply and_congr
      · simp only [hbears]
        constructor
        · intro hrest later hlater
          obtain ⟨i, hi⟩ := List.mem_iff_getElem?.mp hlater
          have hentry := getElem?_memberLeaves id place rest (index + 1) i
          rw [hi, Option.map_some] at hentry
          simpa only [hbears] using hrest _ (List.mem_of_getElem? hentry)
        · intro hrest entry hentry
          obtain ⟨i, hi⟩ := List.mem_iff_getElem?.mp hentry
          rw [getElem?_memberLeaves] at hi
          obtain ⟨later, hlater, rfl⟩ := Option.map_eq_some_iff.mp hi
          simpa only [hbears] using hrest later (List.mem_of_getElem? hlater)
      · exact ih

theorem memberLeaves_eq_iff {members : List (Text × Json)} {place : List ℕ} {index : ℕ}
    (hiff : ∀ member ∈ members, ∀ inner key,
      member.2.readAt inner key = member.2.leavesAt inner key ↔ Ordered member.2) :
    memberLeaves ofEntries place index members = memberLeaves id place index members ↔
      ∀ member ∈ members, Ordered member.2 := by
  induction members generalizing index with
  | nil => simp [memberLeaves]
  | cons member rest ih =>
      rw [memberLeaves, memberLeaves, List.cons.injEq, Prod.mk.injEq, List.forall_mem_cons]
      apply and_congr
      · rw [and_iff_right rfl]
        exact hiff member List.mem_cons_self _ _
      · exact ih fun member hmember => hiff member (List.mem_cons_of_mem _ hmember)

theorem itemLeaves_eq_iff {items : List Json} {place : List ℕ} {key : Text} {index : ℕ}
    (hiff : ∀ item ∈ items, ∀ inner, item.readAt inner key = item.leavesAt inner key ↔ Ordered item) :
    itemLeaves ofEntries place key index items = itemLeaves id place key index items ↔
      ∀ item ∈ items, Ordered item := by
  induction items generalizing index with
  | nil => simp [itemLeaves]
  | cons item rest ih =>
      rw [itemLeaves, itemLeaves, List.cons.injEq, Prod.mk.injEq, List.forall_mem_cons]
      apply and_congr
      · rw [and_iff_right rfl]
        exact hiff item List.mem_cons_self _
      · exact ih fun item hitem => hiff item (List.mem_cons_of_mem _ hitem)

/-- A document is read leaf by leaf as its text writes it exactly when it is in
order. -/
theorem readAt_eq_leavesAt_iff {node : Json} {place : List ℕ} {key : Text} :
    node.readAt place key = node.leavesAt place key ↔ Ordered node := by
  induction node using induct generalizing place key with
  | object members ih =>
      have hreads := forall₂_memberLeaves place 0 fun member (_ : member ∈ members) =>
        readAt_subset_leavesAt member.2
      rw [readAt, leavesAt, leavesBy, leavesBy, id_eq,
        flatMap_ofEntries_eq_iff hreads (tagged_memberLeaves place members),
        inOrder_memberLeaves_iff, ordered_object_iff, and_comm]
      exact and_congr_right' (memberLeaves_eq_iff fun member hmember _ _ => ih member hmember)
  | array items ih =>
      have hreads := forall₂_itemLeaves place key 0 fun item (_ : item ∈ items) =>
        readAt_subset_leavesAt item
      rw [readAt, leavesAt, leavesBy, leavesBy,
        (tagged_itemLeaves place key items).flatMap_eq_iff hreads, ordered_array_iff]
      exact itemLeaves_eq_iff fun item hitem _ => ih item hitem
  | null => exact ⟨fun _ => .null, fun _ => rfl⟩
  | bool value => exact ⟨fun _ => .bool value, fun _ => rfl⟩
  | number text => exact ⟨fun _ => .number text, fun _ => rfl⟩
  | string text => exact ⟨fun _ => .string text, fun _ => rfl⟩

end Order

section Arguments

variable (engine : Engine)

mutual

/-- The arguments a document holds: the names of what has no value of its own, and
its leaves. -/
def argumentsOf (key : Text) : Json → List Value
  | .object members => values engine key (.object members) ++ memberArguments members
  | .array items => itemArguments key items
  | node => values engine key node

def memberArguments : List (Text × Json) → List Value
  | [] => []
  | (name, value) :: rest => argumentsOf name value ++ memberArguments rest

def itemArguments (key : Text) : List Json → List Value
  | [] => []
  | item :: rest => argumentsOf key item ++ itemArguments key rest

end

theorem memberArguments_eq_flatMap (members : List (Text × Json)) :
    memberArguments engine members =
      members.flatMap fun member => member.2.argumentsOf engine member.1 := by
  induction members with
  | nil => rw [memberArguments, List.flatMap_nil]
  | cons member rest ih => rw [memberArguments, List.flatMap_cons, ih]

theorem itemArguments_eq_flatMap (key : Text) (items : List Json) :
    itemArguments engine key items = items.flatMap fun item => item.argumentsOf engine key := by
  induction items with
  | nil => rw [itemArguments, List.flatMap_nil]
  | cons item rest ih => rw [itemArguments, List.flatMap_cons, ih]

theorem argumentsOf_eq (key : Text) (node : Json) :
    node.argumentsOf engine key = node.values engine key ++
      (node.children key).flatMap fun entry => entry.2.argumentsOf engine entry.1 := by
  cases node with
  | object members => rw [argumentsOf, memberArguments_eq_flatMap, children]
  | array items =>
      rw [argumentsOf, itemArguments_eq_flatMap, children, List.flatMap_map]
      rfl
  | null | bool | number | string => simp [argumentsOf, children]

/-- While there is room, everything on the stack is read. -/
theorem jsonFrom_eq (stack : List (Text × Json)) (out : List Value)
    (hroom : out.length + (stack.flatMap fun entry => entry.2.argumentsOf engine entry.1).length <
      maxValues) :
    jsonFrom engine stack out =
      out ++ stack.flatMap fun entry => entry.2.argumentsOf engine entry.1 := by
  induction stack, out using jsonFrom.induct engine with
  | case1 out => rw [jsonFrom, List.flatMap_nil, List.append_nil]
  | case2 out key node stack hfull => omega
  | case3 out key node stack hspace ih =>
      rw [List.flatMap_cons, argumentsOf_eq] at hroom ⊢
      rw [jsonFrom, if_neg hspace, ih]
      · simp only [List.flatMap_append, List.append_assoc]
      · simp only [List.flatMap_append, List.length_append] at hroom ⊢
        omega

/-- The name and the text a value has, where it has one. -/
def leafOf (value : Value) : Option (Text × Text) :=
  value.parsed.map fun text => (value.parsedName, text)

/-- A leaf's name and text. -/
def Leaf.shown (leaf : Leaf) : Text × Text := (leaf.name, leaf.text)

theorem filterMap_values_object (key : Text) (members : List (Text × Json)) :
    (values engine key (.object members)).filterMap leafOf = [] := by
  rw [values, List.filterMap_map]
  exact List.filterMap_eq_nil_iff.mpr fun _ _ => rfl

section Blocks

variable {members : List (Text × Json)} {items : List Json}

theorem map_memberLeaves (place : List ℕ) (index : ℕ)
    (hread : ∀ member ∈ members, ∀ inner key, (member.2.held.argumentsOf engine key).filterMap leafOf =
      (member.2.readAt inner key).map Leaf.shown) :
    ((memberLeaves ofEntries place index members).map fun entry =>
        (entry.1, entry.2.map Leaf.shown)) =
      (heldMembers members).map fun entry =>
        (entry.1, (entry.2.argumentsOf engine entry.1).filterMap leafOf) := by
  induction members generalizing index with
  | nil => rw [memberLeaves, heldMembers, List.map_nil, List.map_nil]
  | cons member rest ih =>
      rw [memberLeaves, heldMembers, List.map_cons, List.map_cons,
        ih (index + 1) fun member hmember => hread member (List.mem_cons_of_mem _ hmember)]
      congr 2
      exact (hread member List.mem_cons_self _ _).symm

theorem map_itemLeaves (place : List ℕ) (key : Text) (index : ℕ)
    (hread : ∀ item ∈ items, ∀ inner, (item.held.argumentsOf engine key).filterMap leafOf =
      (item.readAt inner key).map Leaf.shown) :
    ((itemLeaves ofEntries place key index items).flatMap (·.2)).map Leaf.shown =
      (itemArguments engine key (heldItems items)).filterMap leafOf := by
  induction items generalizing index with
  | nil => rfl
  | cons item rest ih =>
      rw [itemLeaves, heldItems, itemArguments, List.flatMap_cons, List.map_append,
        List.filterMap_append,
        ih (index + 1) fun item hitem => hread item (List.mem_cons_of_mem _ hitem),
        hread item List.mem_cons_self (place ++ [index])]
      rfl

end Blocks

/-- The leaves of the document as the map holds it are those read of it. -/
theorem filterMap_argumentsOf_held (node : Json) (place : List ℕ) (key : Text) :
    (node.held.argumentsOf engine key).filterMap leafOf =
      (node.readAt place key).map Leaf.shown := by
  induction node using induct generalizing place key with
  | object members ih =>
      have hblocks := map_memberLeaves engine place 0 fun member hmember inner key =>
        ih member hmember inner key
      rw [held, argumentsOf, List.filterMap_append, filterMap_values_object, List.nil_append,
        memberArguments_eq_flatMap, readAt, leavesBy]
      calc
        ((ofEntries (heldMembers members)).flatMap fun entry =>
            entry.2.argumentsOf engine entry.1).filterMap leafOf
          = ((ofEntries (heldMembers members)).map fun entry =>
              (entry.1, (entry.2.argumentsOf engine entry.1).filterMap leafOf)).flatMap (·.2) := by
            rw [List.filterMap_flatMap, List.flatMap_map]
        _ = (ofEntries ((heldMembers members).map fun entry =>
              (entry.1, (entry.2.argumentsOf engine entry.1).filterMap leafOf))).flatMap (·.2) := by
            rw [ofEntries_map fun key (value : Json) =>
              (value.argumentsOf engine key).filterMap leafOf]
        _ = (ofEntries ((memberLeaves ofEntries place 0 members).map fun entry =>
              (entry.1, entry.2.map Leaf.shown))).flatMap (·.2) := by rw [hblocks]
        _ = ((ofEntries (memberLeaves ofEntries place 0 members)).flatMap (·.2)).map Leaf.shown := by
            rw [ofEntries_map fun _ (leaves : List Leaf) => leaves.map Leaf.shown, List.flatMap_map,
              List.map_flatMap]
  | array items ih =>
      rw [held, argumentsOf, readAt, leavesBy]
      exact (map_itemLeaves engine place key 0 fun item hitem inner => ih item hitem inner key).symm
  | null => rfl
  | bool value => rfl
  | number text => rfl
  | string text => rfl

theorem isNested_held (node : Json) : node.held.isNested = node.isNested := by
  cases node <;> rfl

theorem length_values_object (key : Text) (members : List (Text × Json)) :
    (values engine key (.object members)).length = members.countP (·.2.isNested) := by
  rw [values, List.length_map, List.countP_eq_length_filter]

theorem length_memberArguments_ofEntries_le (members : List (Text × Json)) :
    (memberArguments engine (ofEntries members)).length ≤ (memberArguments engine members).length := by
  rw [memberArguments_eq_flatMap, memberArguments_eq_flatMap]
  obtain ⟨kept, hperm, hsub⟩ := ofEntries_subperm members
  rw [← (hperm.flatMap_right _).length_eq]
  exact (hsub.flatMap _).length_le

/-- A document as its map holds it has no more arguments than it writes. -/
theorem length_argumentsOf_held_le (node : Json) (key : Text) :
    (node.held.argumentsOf engine key).length ≤ (node.argumentsOf engine key).length := by
  induction node using induct generalizing key with
  | object members ih =>
      rw [held, argumentsOf, argumentsOf, List.length_append, List.length_append,
        length_values_object, length_values_object]
      have hnames : (ofEntries (heldMembers members)).countP (·.2.isNested) ≤
          members.countP (·.2.isNested) := by
        apply ((ofEntries_subperm _).countP_le _).trans_eq
        rw [heldMembers_eq_map, List.countP_map]
        exact List.countP_congr fun member _ => by simp [isNested_held]
      have hmembers : (memberArguments engine (heldMembers members)).length ≤
          (memberArguments engine members).length := by
        clear hnames
        induction members with
        | nil => rw [heldMembers]
        | cons member rest ihRest =>
            have hfirst := ih member List.mem_cons_self member.1
            have hrest := ihRest fun member hmember => ih member (List.mem_cons_of_mem _ hmember)
            simp only [heldMembers, memberArguments, List.length_append]
            omega
      have hkept := length_memberArguments_ofEntries_le engine (heldMembers members)
      omega
  | array items ih =>
      rw [held, argumentsOf, argumentsOf]
      induction items with
      | nil => rw [heldItems]
      | cons item rest ihRest =>
          have hfirst := ih item List.mem_cons_self key
          have hrest := ihRest fun item hitem => ih item (List.mem_cons_of_mem _ hitem)
          simp only [heldItems, itemArguments, List.length_append]
          omega
  | null | bool | number | string => exact le_rfl

end Arguments

end EasyWaf.Modules.Json
