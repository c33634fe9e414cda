import EasyWaf.Core.HashMap
import EasyWaf.Core.Load
import EasyWaf.Db.Queries
import EasyWaf.Forwarded

/-!
# A policy's address lists

The addresses a policy lets past everything and those it refuses: its own, and
those of the published lists it has switched on.  Every policy's lists are
rebuilt when the generation or the published data moves.
-/

namespace EasyWaf.IpList

open EasyWaf.Core EasyWaf.Db Forwarded

inductive ListType
  | allow
  | block
  deriving DecidableEq

def ListType.parse (raw : Text) : Option ListType :=
  let raw := raw.trim
  if raw = "allow".toList then some allow
  else if raw = "block".toList then some block
  else none

/-- Sorted ranges that do not overlap, one list per family. -/
structure Ranges where
  v4 : List (ℕ × ℕ)
  v6 : List (ℕ × ℕ)
  deriving DecidableEq

def Ranges.empty : Ranges where
  v4 := []
  v6 := []

/-- One range more, joined to the last if it overlaps or touches it. -/
def coalesceStep (out : List (ℕ × ℕ)) (range : ℕ × ℕ) : List (ℕ × ℕ) :=
  match out.getLast? with
  | some last =>
      if range.1 ≤ last.2 + 1 then out.dropLast ++ [(last.1, max last.2 range.2)]
      else out ++ [range]
  | none => [range]

/-- Sort and merge, so overlapping or touching blocks become one range. -/
def coalesce (ranges : List (ℕ × ℕ)) : List (ℕ × ℕ) :=
  (ranges.insertionSort fun left right =>
    left.1 < right.1 ∨ (left.1 = right.1 ∧ left.2 ≤ right.2)).foldl coalesceStep []

def Ranges.build (blocks : List Cidr) : Ranges where
  v4 := coalesce ((blocks.filter Cidr.isIpv4).map Cidr.range)
  v6 := coalesce ((blocks.filter fun block => !block.isIpv4).map Cidr.range)

inductive Response
  | challenge
  | block
  deriving DecidableEq

def Response.parse (raw : Text) : Option Response :=
  let raw := raw.trim
  if raw = "challenge".toList then some challenge
  else if raw = "block".toList then some block
  else none

/-- A published list's contents. -/
structure FeedData where
  id : Text
  name : Text
  ranges : Ranges
  deriving DecidableEq

/-- A published list as one policy uses it. -/
structure Feed where
  id : Text
  name : Text
  response : Response
  ranges : Ranges
  deriving DecidableEq

def Feed.using (data : FeedData) (response : Response) : Feed where
  id := data.id
  name := data.name
  response := response
  ranges := data.ranges

/-- A published list an address is on. -/
structure FeedHit where
  id : Text
  name : Text
  response : Response
  deriving DecidableEq

/-- Where an address stands, every list considered. -/
inductive Listed
  /-- On the manual allowlist: skips everything, published lists included. -/
  | allowed
  | blocked
  | published (hit : FeedHit)
  deriving DecidableEq

/-- One policy's lists. -/
structure Lists where
  allow : Ranges
  block : Ranges
  feeds : List Feed
  deriving DecidableEq

def Lists.empty : Lists where
  allow := Ranges.empty
  block := Ranges.empty
  feeds := []

/-- From stored rows; one that cannot be read is left out. -/
def Lists.build (rows : List (Text × Text)) : Lists :=
  let blocksOf (wanted : ListType) := rows.filterMap fun (ip, listType) =>
    match Cidr.parse ip, ListType.parse listType with
    | some block, some found => if found = wanted then some block else none
    | _, _ => none
  { allow := Ranges.build (blocksOf .allow)
    block := Ranges.build (blocksOf .block)
    feeds := [] }

/-- The entries of each policy: its own, and those of every policy. -/
def grouped (known : List ℤ) (rows : List (Option ℤ × Text × Text)) :
    HashMap ℤ (List (Text × Text)) :=
  rows.foldl
    (fun groups row =>
      match row.1 with
      | some id => groups.insert id ((groups id).getD [] ++ [row.2])
      | none => fun id => (groups id).map (· ++ [row.2]))
    (known.foldl (fun groups id => groups.orInsert id []) HashMap.empty)

/-- One switched-on list, given to the policies it is for. -/
def chooseFeed (choices : List (Option ℤ × Text × Response)) (muted : List (ℤ × Text))
    (data : HashMap Text FeedData) (policies : HashMap ℤ Lists)
    (choice : Option ℤ × Text × Response) : HashMap ℤ Lists :=
  match data choice.2.1 with
  | none => policies
  | some feed =>
      let added (lists : Lists) : Lists :=
        { lists with feeds := lists.feeds ++ [Feed.using feed choice.2.2] }
      match choice.1 with
      | some policy =>
          policies.insert policy (added ((policies policy).getD Lists.empty))
      | none => fun policy =>
          (policies policy).map fun lists =>
            let own := choices.any (fun other => other.1 = some policy ∧ other.2.1 = choice.2.1) ||
              muted.any fun other => other.1 = policy ∧ other.2 = choice.2.1
            if own then lists else added lists

/-- Every policy's lists, from stored rows and the published data. -/
def buildPolicies (known : List ℤ) (rows : List (Option ℤ × Text × Text))
    (choices : List (Option ℤ × Text × Response)) (muted : List (ℤ × Text))
    (data : HashMap Text FeedData) : HashMap ℤ Lists :=
  let manual : HashMap ℤ Lists := fun policy => (grouped known rows policy).map Lists.build
  choices.foldl (chooseFeed choices muted data) manual

/-- Published list contents; a reload moves the version and not the database. -/
structure Published where
  version : ℕ
  lists : HashMap Text FeedData

section Queries

def knownPolicies (db : Database) : List ℤ := db.policies.map (·.id)

def manualEntries (db : Database) : List (Option ℤ × Text × Text) :=
  db.ipRules.map fun row => (row.policyId, row.ip, row.listType)

def feedChoices (db : Database) : List (Option ℤ × Text × Response) :=
  (db.ipListFeeds.filter (·.enabled)).map fun row =>
    (row.policyId, row.id, (Response.parse row.response).getD .challenge)

def mutedFeeds (db : Database) : List (ℤ × Text) :=
  (db.ipListFeeds.filter fun row => !row.enabled).filterMap fun row =>
    row.policyId.map fun policy => (policy, row.id)

end Queries

/-- What `policy_lists` reads once it has found nothing usable in memory. -/
def loadPolicyLists {World : Type} (db : World → Database) (published : World → Published) :
    Load World (HashMap ℤ Lists) := do
  let known ← Load.readOr (fun world => knownPolicies (db world)) []
  let rows ← Load.readOr (fun world => manualEntries (db world)) []
  let choices ← Load.readOr (fun world => feedChoices (db world)) []
  let muted ← Load.readOr (fun world => mutedFeeds (db world)) []
  let data ← Load.readOr (fun world => (published world).lists) HashMap.empty
  return buildPolicies known rows choices muted data

/-- Every policy's lists in one database and one set of published data. -/
def policiesAt (db : Database) (published : Published) : HashMap ℤ Lists :=
  buildPolicies (knownPolicies db) (manualEntries db) (feedChoices db) (mutedFeeds db)
    published.lists

@[simp]
theorem runAt_loadPolicyLists {World : Type} (db : World → Database)
    (published : World → Published) (world : World) :
    (loadPolicyLists db published).runAt world =
      some (policiesAt (db world) (published world)) := by
  simp [loadPolicyLists, policiesAt]

/-- Every policy's lists, as of one generation and one set of published data. -/
structure Loaded where
  generation : ℕ
  published : ℕ
  policies : HashMap ℤ Lists

/-- The lists in memory, if they are of this generation and version. -/
def lookupLoaded (held : Option Loaded) (generation version : ℕ) : Option (HashMap ℤ Lists) :=
  match held with
  | some loaded =>
      if loaded.generation = generation ∧ loaded.published = version then some loaded.policies
      else none
  | none => none

/-- What is in memory is not newer than this generation and version. -/
def supersedes (held : Option Loaded) (generation version : ℕ) : Bool :=
  match held with
  | none => true
  | some current =>
      current.generation < generation ||
        (current.generation == generation && current.published ≤ version)

/-- Keep what was read, unless something newer is already there. -/
def keepLoaded (held : Option Loaded) (generation version : ℕ) (policies : HashMap ℤ Lists) :
    Option Loaded :=
  if supersedes held generation version then some ⟨generation, version, policies⟩ else held

/-- Lists read at an older generation are not kept. -/
theorem keepLoaded_of_lt {held : Option Loaded} {generation : ℕ} (version : ℕ)
    (policies : HashMap ℤ Lists)
    (holder : generation < (held.map (·.generation)).getD 0) :
    keepLoaded held generation version policies = held := by
  cases held with
  | none => simp at holder
  | some current =>
      have holder : generation < current.generation := holder
      simp [keepLoaded, supersedes, not_lt_of_gt holder, holder.ne']

theorem generation_le_keepLoaded (held : Option Loaded) (generation version : ℕ)
    (policies : HashMap ℤ Lists) :
    (held.map (·.generation)).getD 0 ≤
      ((keepLoaded held generation version policies).map (·.generation)).getD 0 := by
  rcases lt_or_ge generation ((held.map (·.generation)).getD 0) with holder | hnewer
  · rw [keepLoaded_of_lt version policies holder]
  · unfold keepLoaded
    split
    · exact hnewer
    · exact le_refl _

/-- After lists are kept, no older ones are served. -/
theorem le_generation_keepLoaded (held : Option Loaded) (generation version : ℕ)
    (policies : HashMap ℤ Lists) :
    generation ≤ ((keepLoaded held generation version policies).map (·.generation)).getD 0 := by
  unfold keepLoaded
  split
  · exact le_refl _
  · next hkept =>
      cases held with
      | none => simp [supersedes] at hkept
      | some current =>
          simp only [supersedes, Bool.or_eq_true, decide_eq_true_eq, not_or, not_lt] at hkept
          exact hkept.1

theorem lookupLoaded_keepLoaded {held : Option Loaded} {generation version generation' version' : ℕ}
    {policies policies' : HashMap ℤ Lists}
    (hlookup : lookupLoaded (keepLoaded held generation version policies) generation' version' =
      some policies') :
    (generation' = generation ∧ version' = version ∧ policies' = policies) ∨
      lookupLoaded held generation' version' = some policies' := by
  unfold keepLoaded at hlookup
  split at hlookup
  · simp only [lookupLoaded] at hlookup
    split at hlookup
    · next hsame => exact .inl ⟨hsame.1.symm, hsame.2.symm, (Option.some.inj hlookup).symm⟩
    · simp at hlookup
  · exact .inr hlookup

end EasyWaf.IpList
