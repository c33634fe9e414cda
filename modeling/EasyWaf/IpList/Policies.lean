import EasyWaf.IpList.Lookup

/-!
# What a policy's lists say of an address

The lists of a policy come out of one pass over the entries and one over the choices.
What they say of an address is said here of the rows themselves: an allow entry before
a block entry before a published list that blocks before one that challenges.
-/

namespace EasyWaf.IpList

open EasyWaf.Core Forwarded Net

/-- `Lists::lookup`. -/
def Lists.lookup (lists : Lists) (ip : IpAddr) : Option ListType :=
  if lists.allow.contains ip then some .allow
  else if lists.block.contains ip then some .block
  else none

/-- `Lists::check`. -/
def Lists.check (lists : Lists) (ip : IpAddr) : Option Listed :=
  match lists.lookup ip with
  | some .allow => some .allowed
  | some .block => some .blocked
  | none =>
      [Response.block, .challenge].findSome? fun want =>
        (lists.feeds.find? fun feed => feed.response = want && feed.ranges.contains ip).map
          fun feed => .published ⟨feed.id, feed.name, feed.response⟩

/-- `FeedData::new`. -/
def FeedData.new (id name : Text) (blocks : List Cidr) : FeedData where
  id := id
  name := name
  ranges := Ranges.build blocks

/-- A published list as it was read. -/
structure PublishedList where
  name : Text
  blocks : List Cidr

/-- The contents held in memory, each list under its id. -/
def feedData (published : HashMap Text PublishedList) : HashMap Text FeedData := fun id =>
  (published id).map fun list => FeedData.new id list.name list.blocks

section Meaning

variable (rows : List (Option ℤ × Text × Text)) (choices : List (Option ℤ × Text × Response))
  (muted : List (ℤ × Text)) (published : HashMap Text PublishedList) (policy : ℤ) (ip : IpAddr)

/-- An entry of a policy, or of every policy, names the address. -/
def Entered (wanted : ListType) : Prop :=
  ∃ row ∈ rows, (row.1 = none ∨ row.1 = some policy) ∧ ListType.parse row.2.2 = some wanted ∧
    ∃ block, Cidr.parse row.2.1 = some block ∧ block.contains ip = true

/-- A policy has said something about a list: it switched it on or off. -/
def Chosen (id : Text) : Prop :=
  (∃ choice ∈ choices, choice.1 = some policy ∧ choice.2.1 = id) ∨ (policy, id) ∈ muted

/-- A list is on for a policy with a response: the policy's own choice, or that for every
policy where it has none. -/
def On (id : Text) (response : Response) : Prop :=
  (some policy, id, response) ∈ choices ∨
    (none, id, response) ∈ choices ∧ ¬ Chosen choices muted policy id

/-- A published list that is on for the policy holds the address. -/
def Hit (hit : FeedHit) : Prop :=
  On choices muted policy hit.id hit.response ∧
    ∃ list, published hit.id = some list ∧ hit.name = list.name ∧
      list.blocks.any (·.contains ip) = true

/-- The response of the strongest published list that holds the address. -/
def Strongest (response : Response) : Prop :=
  (∃ hit, Hit choices muted published policy ip hit ∧ hit.response = response) ∧
    (response = .challenge →
      ∀ hit, Hit choices muted published policy ip hit → hit.response = .challenge)

end Meaning

/-- A result without the name of the list it is from. -/
def Listed.unnamed : Listed → Listed
  | .published hit => .published ⟨[], [], hit.response⟩
  | listed => listed

section Entries

variable {known : List ℤ} {rows : List (Option ℤ × Text × Text)} {policy : ℤ} {ip : IpAddr}

/-- The entries a policy's lists are built from. -/
def entriesOf (policy : ℤ) (rows : List (Option ℤ × Text × Text)) : List (Text × Text) :=
  (rows.filter fun row => row.1 = none ∨ row.1 = some policy).map (·.2)

/-- One row, given to the policies it is for. -/
def groupRow (groups : HashMap ℤ (List (Text × Text))) (row : Option ℤ × Text × Text) :
    HashMap ℤ (List (Text × Text)) :=
  match row.1 with
  | some id => groups.insert id ((groups id).getD [] ++ [row.2])
  | none => fun id => (groups id).map (· ++ [row.2])

theorem groupRow_eq {groups : HashMap ℤ (List (Text × Text))} {entries : List (Text × Text)}
    (hgroups : groups policy = some entries) (row : Option ℤ × Text × Text) :
    groupRow groups row policy = some (entries ++ entriesOf policy [row]) := by
  unfold groupRow
  cases hrow : row.1 with
  | none => simp [hgroups, entriesOf, hrow]
  | some id =>
      by_cases hid : policy = id
      · subst hid
        simp [hgroups, entriesOf, hrow]
      · simp [HashMap.insert_of_ne _ _ hid, hgroups, entriesOf, hrow, Ne.symm hid]

theorem entriesOf_cons (row : Option ℤ × Text × Text) (rows : List (Option ℤ × Text × Text)) :
    entriesOf policy (row :: rows) = entriesOf policy [row] ++ entriesOf policy rows := by
  rw [← List.singleton_append, entriesOf, List.filter_append, List.map_append, entriesOf, entriesOf]

theorem foldl_groupRow {groups : HashMap ℤ (List (Text × Text))} {entries : List (Text × Text)}
    (hgroups : groups policy = some entries) (rows : List (Option ℤ × Text × Text)) :
    rows.foldl groupRow groups policy = some (entries ++ entriesOf policy rows) := by
  induction rows generalizing groups entries with
  | nil => simpa [entriesOf] using hgroups
  | cons row rest ih =>
      rw [List.foldl_cons, ih (groupRow_eq hgroups row), entriesOf_cons row rest,
        List.append_assoc]

theorem grouped_eq (hknown : policy ∈ known) (rows : List (Option ℤ × Text × Text)) :
    grouped known rows policy = some (entriesOf policy rows) := by
  have hempty : known.foldl (fun groups id => groups.orInsert id []) HashMap.empty policy =
      some ([] : List (Text × Text)) := by
    rw [HashMap.foldl_orInsert, if_pos hknown]
    rfl
  exact foldl_groupRow hempty rows

theorem blocksOf_eq_some_iff {wanted : ListType} {entry : Text × Text} {block : Cidr} :
    (match Cidr.parse entry.1, ListType.parse entry.2 with
      | some block, some found => if found = wanted then some block else none
      | _, _ => none) = some block ↔
      ListType.parse entry.2 = some wanted ∧ Cidr.parse entry.1 = some block := by
  cases Cidr.parse entry.1 <;> cases ListType.parse entry.2 <;> simp

/-- The ranges of one kind hold the addresses the policy's entries of that kind name. -/
theorem build_contains_iff (wanted : ListType) :
    (Ranges.build ((entriesOf policy rows).filterMap fun entry =>
      match Cidr.parse entry.1, ListType.parse entry.2 with
      | some block, some found => if found = wanted then some block else none
      | _, _ => none)).contains ip = true ↔ Entered rows policy ip wanted := by
  rw [(contains_build _).1, List.any_eq_true]
  simp only [List.mem_filterMap, blocksOf_eq_some_iff, entriesOf, List.mem_map, List.mem_filter,
    decide_eq_true_eq]
  constructor
  · rintro ⟨block, ⟨entry, ⟨row, ⟨hrow, hscope⟩, rfl⟩, htype, hparse⟩, hcontains⟩
    exact ⟨row, hrow, hscope, htype, block, hparse, hcontains⟩
  · rintro ⟨row, hrow, hscope, htype, block, hparse, hcontains⟩
    exact ⟨block, ⟨row.2, ⟨row, ⟨hrow, hscope⟩, rfl⟩, htype, hparse⟩, hcontains⟩

theorem lookup_build (rows : List (Option ℤ × Text × Text)) (policy : ℤ) (ip : IpAddr) :
    ((Lists.build (entriesOf policy rows)).lookup ip = some .allow ↔
        Entered rows policy ip .allow) ∧
      ((Lists.build (entriesOf policy rows)).lookup ip = some .block ↔
        ¬ Entered rows policy ip .allow ∧ Entered rows policy ip .block) := by
  have hallow : (Lists.build (entriesOf policy rows)).allow.contains ip = true ↔
      Entered rows policy ip .allow := build_contains_iff .allow
  have hblock : (Lists.build (entriesOf policy rows)).block.contains ip = true ↔
      Entered rows policy ip .block := build_contains_iff .block
  unfold Lists.lookup
  rw [← hallow, ← hblock]
  split
  case isTrue h => simp [h]
  case isFalse h =>
    split
    case isTrue h' => simp [h, h']
    case isFalse h' => simp [h, h']

end Entries

section Feeds

variable (choices : List (Option ℤ × Text × Response)) (muted : List (ℤ × Text))
  (published : HashMap Text PublishedList) (policy : ℤ)

/-- What one choice adds to a policy's lists. -/
def feedOf (choice : Option ℤ × Text × Response) : Option Feed :=
  if choice.1 = some policy ∨
      choice.1 = none ∧ ¬ ((choices.any fun other => other.1 = some policy ∧ other.2.1 = choice.2.1) ||
        muted.any fun other => other.1 = policy ∧ other.2 = choice.2.1) then
    (feedData published choice.2.1).map fun data => Feed.using data choice.2.2
  else none

variable {choices muted published policy}

theorem chooseFeed_eq {policies : HashMap ℤ Lists} {lists : Lists}
    (hlists : policies policy = some lists) (choice : Option ℤ × Text × Response) :
    chooseFeed choices muted (feedData published) policies choice policy =
      some { lists with
        feeds := lists.feeds ++ [choice].filterMap (feedOf choices muted published policy) } := by
  cases hdata : feedData published choice.2.1 with
  | none =>
      simp [chooseFeed, feedOf, hdata, hlists]
  | some data =>
      cases hscope : choice.1 with
      | some id =>
          by_cases hid : policy = id
          · subst hid
            simp [chooseFeed, feedOf, hdata, hscope, hlists]
          · simp [chooseFeed, feedOf, hdata, hscope, hlists, HashMap.insert_of_ne _ _ hid, Ne.symm hid]
      | none =>
          simp only [chooseFeed, feedOf, hdata, hscope, hlists, Option.map_some, reduceCtorEq,
            false_or, true_and, List.filterMap_cons, List.filterMap_nil]
          split <;> simp_all

theorem foldl_chooseFeed {policies : HashMap ℤ Lists} {lists : Lists}
    (hlists : policies policy = some lists) (remaining : List (Option ℤ × Text × Response)) :
    remaining.foldl (chooseFeed choices muted (feedData published)) policies policy =
      some { lists with
        feeds := lists.feeds ++ remaining.filterMap (feedOf choices muted published policy) } := by
  induction remaining generalizing policies lists with
  | nil => simpa using hlists
  | cons choice rest ih =>
      have hsplit : choice :: rest = [choice] ++ rest := rfl
      rw [List.foldl_cons, ih (chooseFeed_eq hlists choice), hsplit, List.filterMap_append,
        List.append_assoc]

/-- A policy's lists are its entries and its feeds. -/
theorem buildPolicies_eq {known : List ℤ} (hknown : policy ∈ known)
    (rows : List (Option ℤ × Text × Text)) :
    buildPolicies known rows choices muted (feedData published) policy =
      some { Lists.build (entriesOf policy rows) with
        feeds := choices.filterMap (feedOf choices muted published policy) } := by
  have hmanual : (grouped known rows policy).map Lists.build =
      some (Lists.build (entriesOf policy rows)) := by
    rw [grouped_eq hknown, Option.map_some]
  rw [buildPolicies, foldl_chooseFeed hmanual choices]
  rfl

variable {ip : IpAddr} {hit : FeedHit}

theorem chosen_iff (id : Text) :
    ((choices.any fun other => other.1 = some policy ∧ other.2.1 = id) ||
      muted.any fun other => other.1 = policy ∧ other.2 = id) = true ↔
      Chosen choices muted policy id := by
  simp only [Bool.or_eq_true, List.any_eq_true, decide_eq_true_eq, Chosen]
  apply or_congr_right
  constructor
  · rintro ⟨other, hother, rfl, rfl⟩
    exact hother
  · intro hmuted
    exact ⟨_, hmuted, rfl, rfl⟩

theorem feedOf_eq_some_iff {choice : Option ℤ × Text × Response} {feed : Feed} :
    feedOf choices muted published policy choice = some feed ↔
      (choice.1 = some policy ∨ choice.1 = none ∧ ¬ Chosen choices muted policy choice.2.1) ∧
        ∃ list, published choice.2.1 = some list ∧
          feed = Feed.using (FeedData.new choice.2.1 list.name list.blocks) choice.2.2 := by
  simp only [feedOf, chosen_iff, Option.ite_none_right_eq_some, feedData, Option.map_map,
    Option.map_eq_some_iff, Function.comp_apply, eq_comm (b := feed)]

/-- The feeds that hold the address are the published lists that do and are on. -/
theorem hit_iff :
    Hit choices muted published policy ip hit ↔
      ∃ feed ∈ choices.filterMap (feedOf choices muted published policy),
        feed.ranges.contains ip = true ∧ hit = ⟨feed.id, feed.name, feed.response⟩ := by
  simp only [List.mem_filterMap, feedOf_eq_some_iff]
  constructor
  · rintro ⟨hon, list, hlist, hname, hcontains⟩
    obtain ⟨id, name, response⟩ := hit
    dsimp only at hon hlist hname
    subst hname
    have hbuilt := ((contains_build list.blocks).1 ip).trans hcontains
    rcases hon with hown | ⟨hevery, hchosen⟩
    · exact ⟨_, ⟨_, hown, Or.inl rfl, list, hlist, rfl⟩, hbuilt, rfl⟩
    · exact ⟨_, ⟨_, hevery, Or.inr ⟨rfl, hchosen⟩, list, hlist, rfl⟩, hbuilt, rfl⟩
  · rintro ⟨feed, ⟨⟨scope, id, response⟩, hchoice, hscope, list, hlist, rfl⟩, hcontains, rfl⟩
    refine ⟨?_, list, hlist, rfl, ((contains_build list.blocks).1 ip).symm.trans hcontains⟩
    rcases hscope with rfl | ⟨rfl, hchosen⟩
    · exact Or.inl hchoice
    · exact Or.inr ⟨hchoice, hchosen⟩

/-- Where no entry decides, a list that blocks answers, else one that challenges. -/
theorem check_of_lookup {lists : Lists} (hlookup : lists.lookup ip = none) :
    lists.check ip =
      ((lists.feeds.find? fun feed => feed.response = .block && feed.ranges.contains ip).or
        (lists.feeds.find? fun feed => feed.response = .challenge && feed.ranges.contains ip)).map
          fun feed => .published ⟨feed.id, feed.name, feed.response⟩ := by
  rw [Lists.check, hlookup]
  dsimp only
  rw [List.findSome?_cons]
  cases lists.feeds.find? fun feed => feed.response = .block && feed.ranges.contains ip with
  | some feed => rfl
  | none =>
      rw [Option.map_none, Option.none_or, List.findSome?_cons, List.findSome?_nil]
      cases lists.feeds.find? fun feed => feed.response = .challenge && feed.ranges.contains ip <;> rfl

/-- A published list answers with the stronger response first. -/
theorem check_eq_published {lists : Lists} (hlookup : lists.lookup ip = none)
    (hcheck : lists.check ip = some (.published hit)) :
    (∃ feed ∈ lists.feeds, feed.ranges.contains ip = true ∧
        hit = ⟨feed.id, feed.name, feed.response⟩) ∧
      (hit.response = .challenge → ∀ feed ∈ lists.feeds, feed.ranges.contains ip = true →
        feed.response = .challenge) := by
  rw [check_of_lookup hlookup] at hcheck
  obtain ⟨feed, hfound, heq⟩ := Option.map_eq_some_iff.mp hcheck
  obtain rfl := Listed.published.inj heq
  rcases Option.or_eq_some_iff.mp hfound with hblock | ⟨hnone, hchallenge⟩
  · have hpasses := List.find?_some hblock
    rw [Bool.and_eq_true, decide_eq_true_eq] at hpasses
    refine ⟨⟨feed, List.mem_of_find?_eq_some hblock, hpasses.2, rfl⟩, fun hresponse => ?_⟩
    rw [hpasses.1] at hresponse
    contradiction
  · have hpasses := List.find?_some hchallenge
    rw [Bool.and_eq_true, decide_eq_true_eq] at hpasses
    refine ⟨⟨feed, List.mem_of_find?_eq_some hchallenge, hpasses.2, rfl⟩, ?_⟩
    intro _ other hother hcontains
    have hfails := List.find?_eq_none.mp hnone other hother
    cases hresponse : other.response with
    | challenge => rfl
    | block => simp [hresponse, hcontains] at hfails

theorem check_eq_none {lists : Lists} (hlookup : lists.lookup ip = none)
    (hcheck : lists.check ip = none) : ∀ feed ∈ lists.feeds, feed.ranges.contains ip = false := by
  rw [check_of_lookup hlookup, Option.map_eq_none_iff, Option.or_eq_none_iff, List.find?_eq_none,
    List.find?_eq_none] at hcheck
  intro feed hfeed
  cases hresponse : feed.response with
  | block => simpa [hresponse] using hcheck.1 feed hfeed
  | challenge => simpa [hresponse] using hcheck.2 feed hfeed

end Feeds

section Results

variable {known known' : List ℤ} {rows rows' : List (Option ℤ × Text × Text)}
  {choices choices' : List (Option ℤ × Text × Response)} {muted muted' : List (ℤ × Text)}
  {published : HashMap Text PublishedList} {policy : ℤ} {ip : IpAddr} {hit : FeedHit}

/-- What the result for a policy says of the rows. -/
structure Says (rows : List (Option ℤ × Text × Text)) (choices : List (Option ℤ × Text × Response))
    (muted : List (ℤ × Text)) (lists : HashMap Text PublishedList) (policy : ℤ) (ip : IpAddr)
    (result : Option Listed) : Prop where
  allowed : result = some .allowed ↔ Entered rows policy ip .allow
  blocked : result = some .blocked ↔
    ¬ Entered rows policy ip .allow ∧ Entered rows policy ip .block
  published : ∀ response,
    (∃ hit, result = some (.published hit) ∧ hit.response = response) ↔
      ¬ Entered rows policy ip .allow ∧ ¬ Entered rows policy ip .block ∧
        Strongest choices muted lists policy ip response
  named : ∀ hit, result = some (.published hit) → Hit choices muted lists policy ip hit

/-- What the strongest of the lists in force answers. -/
theorem exists_published_iff {lists : Lists} (hlookup : lists.lookup ip = none)
    (hfeeds : lists.feeds = choices.filterMap (feedOf choices muted published policy))
    (response : Response) :
    (∃ hit, lists.check ip = some (.published hit) ∧ hit.response = response) ↔
      Strongest choices muted published policy ip response := by
  constructor
  · rintro ⟨hit, hcheck, rfl⟩
    obtain ⟨hfound, hstrongest⟩ := check_eq_published hlookup hcheck
    rw [hfeeds] at hfound hstrongest
    refine ⟨⟨hit, hit_iff.mpr hfound, rfl⟩, fun hchallenge other hother => ?_⟩
    obtain ⟨feed, hfeed, hcontains, rfl⟩ := hit_iff.mp hother
    exact hstrongest hchallenge feed hfeed hcontains
  · rintro ⟨⟨hit, hhit, rfl⟩, hstrongest⟩
    obtain ⟨feed, hfeed, hcontains, rfl⟩ := hit_iff.mp hhit
    cases hcheck : lists.check ip with
    | none =>
        have hnone := check_eq_none hlookup hcheck feed (hfeeds ▸ hfeed)
        rw [hcontains] at hnone
        contradiction
    | some listed =>
        rw [check_of_lookup hlookup] at hcheck
        obtain ⟨found, hfound, rfl⟩ := Option.map_eq_some_iff.mp hcheck
        rw [← check_of_lookup hlookup] at hcheck
        refine ⟨_, rfl, ?_⟩
        obtain ⟨hmem, hweaker⟩ := check_eq_published hlookup hcheck
        rw [hfeeds] at hmem hweaker
        cases hresponse : feed.response with
        | challenge => exact hstrongest hresponse _ (hit_iff.mpr hmem)
        | block =>
            cases hanswer : found.response with
            | block => rfl
            | challenge =>
                rw [hweaker hanswer feed hfeed hcontains] at hresponse
                contradiction

theorem says_of_build (hknown : policy ∈ known) (rows : List (Option ℤ × Text × Text))
    (choices : List (Option ℤ × Text × Response)) (muted : List (ℤ × Text))
    (published : HashMap Text PublishedList) (ip : IpAddr) :
    ∃ lists, buildPolicies known rows choices muted (feedData published) policy = some lists ∧
      Says rows choices muted published policy ip (lists.check ip) := by
  refine ⟨_, buildPolicies_eq hknown rows, ?_⟩
  obtain ⟨hallow, hblock⟩ := lookup_build rows policy ip
  generalize hlists : ({ Lists.build (entriesOf policy rows) with
    feeds := choices.filterMap (feedOf choices muted published policy) } : Lists) = lists
  have hlookup : lists.lookup ip = (Lists.build (entriesOf policy rows)).lookup ip := by
    rw [← hlists]
    rfl
  have hfeeds : lists.feeds = choices.filterMap (feedOf choices muted published policy) := by
    rw [← hlists]
  rw [← hlookup] at hallow hblock
  cases hfound : lists.lookup ip with
  | none =>
      have hnotAllow : ¬ Entered rows policy ip .allow := fun h => by
        rw [hallow.mpr h] at hfound
        contradiction
      have hnotBlock : ¬ Entered rows policy ip .block := fun h => by
        rw [hblock.mpr ⟨hnotAllow, h⟩] at hfound
        contradiction
      have hfeed (listed : Listed) (hcheck : lists.check ip = some listed) :
          ∃ hit, listed = .published hit := by
        rw [check_of_lookup hfound] at hcheck
        obtain ⟨feed, -, rfl⟩ := Option.map_eq_some_iff.mp hcheck
        exact ⟨_, rfl⟩
      refine ⟨⟨fun hcheck => ?_, fun h => absurd h hnotAllow⟩,
        ⟨fun hcheck => ?_, fun h => absurd h.2 hnotBlock⟩, fun response => ?_, fun hit hcheck => ?_⟩
      · obtain ⟨hit, heq⟩ := hfeed _ hcheck
        contradiction
      · obtain ⟨hit, heq⟩ := hfeed _ hcheck
        contradiction
      · rw [exists_published_iff hfound hfeeds response]
        exact ⟨fun h => ⟨hnotAllow, hnotBlock, h⟩, fun h => h.2.2⟩
      · obtain ⟨hmem, -⟩ := check_eq_published hfound hcheck
        exact hit_iff.mpr (hfeeds ▸ hmem)
  | some listType =>
      rw [hfound] at hallow hblock
      cases listType with
      | allow =>
          have hcheck : lists.check ip = some .allowed := by rw [Lists.check, hfound]
          have hentered := hallow.mp rfl
          rw [hcheck]
          exact ⟨by simpa using hentered, by simpa using fun h => absurd hentered h,
            fun response => by simpa using fun h => absurd hentered h, fun hit h => by simp at h⟩
      | block =>
          have hcheck : lists.check ip = some .blocked := by rw [Lists.check, hfound]
          obtain ⟨hnot, hentered⟩ := hblock.mp rfl
          rw [hcheck]
          exact ⟨by simpa using hnot, by simpa using ⟨hnot, hentered⟩,
            fun response => by simpa using fun _ h => absurd hentered h, fun hit h => by simp at h⟩

theorem Says.of_perm {result : Option Listed}
    (hsaid : Says rows choices muted published policy ip result)
    (hrows : rows.Perm rows') (hchoices : choices.Perm choices') (hmuted : muted.Perm muted') :
    Says rows' choices' muted' published policy ip result := by
  have hentered (wanted : ListType) :
      Entered rows policy ip wanted ↔ Entered rows' policy ip wanted := by
    simp only [Entered, hrows.mem_iff]
  have hhit (hit : FeedHit) :
      Hit choices muted published policy ip hit ↔ Hit choices' muted' published policy ip hit := by
    simp only [Hit, On, Chosen, hchoices.mem_iff, hmuted.mem_iff]
  exact {
    allowed := hsaid.allowed.trans (hentered .allow)
    blocked := by rw [hsaid.blocked, hentered, hentered]
    published := fun response => by
      rw [hsaid.published, hentered, hentered]
      simp only [Strongest, hhit]
    named := fun hit hresult => (hhit hit).mp (hsaid.named hit hresult) }

/-- But for a list's name, there is one result that says what the rows do. -/
theorem Says.unnamed_eq {result result' : Option Listed}
    (hsaid : Says rows choices muted published policy ip result)
    (hsaid' : Says rows choices muted published policy ip result') :
    result.map Listed.unnamed = result'.map Listed.unnamed := by
  cases result with
  | some listed =>
      cases listed with
      | allowed => rw [hsaid'.allowed.mpr (hsaid.allowed.mp rfl)]
      | blocked => rw [hsaid'.blocked.mpr (hsaid.blocked.mp rfl)]
      | published hit =>
          obtain ⟨hit', hresult', hresponse⟩ :=
            (hsaid'.published hit.response).mpr ((hsaid.published hit.response).mp ⟨hit, rfl, rfl⟩)
          rw [hresult', Option.map_some, Option.map_some, Listed.unnamed, Listed.unnamed, hresponse]
  | none =>
      cases result' with
      | none => rfl
      | some listed =>
          cases listed with
          | allowed => exact absurd (hsaid.allowed.mpr (hsaid'.allowed.mp rfl)) (by simp)
          | blocked => exact absurd (hsaid.blocked.mpr (hsaid'.blocked.mp rfl)) (by simp)
          | published hit =>
              obtain ⟨other, hresult, -⟩ :=
                (hsaid.published hit.response).mpr ((hsaid'.published hit.response).mp ⟨hit, rfl, rfl⟩)
              contradiction

/-- The lists of a policy mean what they say, whatever the order of the rows. -/
theorem policy_lists_mean (known : List ℤ) (rows : List (Option ℤ × Text × Text))
    (choices : List (Option ℤ × Text × Response)) (muted : List (ℤ × Text))
    (published : HashMap Text PublishedList) (policy : ℤ) (ip : IpAddr) (hknown : policy ∈ known) :
    (∃ lists, buildPolicies known rows choices muted (feedData published) policy = some lists ∧
      Says rows choices muted published policy ip (lists.check ip)) ∧
    ∀ known' rows' choices' muted', known.Perm known' → rows.Perm rows' → choices.Perm choices' →
      muted.Perm muted' →
        ((buildPolicies known' rows' choices' muted' (feedData published) policy).bind
            (·.check ip)).map Listed.unnamed =
          ((buildPolicies known rows choices muted (feedData published) policy).bind
            (·.check ip)).map Listed.unnamed := by
  refine ⟨says_of_build hknown rows choices muted published ip, ?_⟩
  intro known' rows' choices' muted' hknowns hrows hchoices hmuted
  obtain ⟨lists, hlists, hsaid⟩ := says_of_build hknown rows choices muted published ip
  obtain ⟨lists', hlists', hsaid'⟩ :=
    says_of_build (hknowns.mem_iff.mp hknown) rows' choices' muted' published ip
  rw [hlists, hlists', Option.bind_some, Option.bind_some]
  exact hsaid'.unnamed_eq (hsaid.of_perm hrows hchoices hmuted)

/-- An address of a block that every policy allows, within one the policy blocks. -/
theorem allowed_of_every_policy :
    (buildPolicies [1] [(some 1, "10.1.0.0/16".toList, "block".toList),
        (none, "10.0.0.0/8".toList, "allow".toList)] [] [] (feedData HashMap.empty) 1).bind
      (·.check (.v4 0x0a010203#32)) = some .allowed := by
  obtain ⟨⟨lists, hlists, hsaid⟩, -⟩ := policy_lists_mean [1]
    [(some 1, "10.1.0.0/16".toList, "block".toList), (none, "10.0.0.0/8".toList, "allow".toList)]
    [] [] HashMap.empty 1 (.v4 0x0a010203#32) (by decide)
  rw [hlists, Option.bind_some, hsaid.allowed]
  exact ⟨_, List.mem_cons_of_mem _ List.mem_cons_self, Or.inl rfl, by decide,
    ⟨.v4 0x0a000000#32, 8, by decide⟩, by decide +kernel, by decide +kernel⟩

end Results

end EasyWaf.IpList
