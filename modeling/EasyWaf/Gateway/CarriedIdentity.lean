import EasyWaf.Gateway.EndedSessions

/-!
# Who a session cookie names

A sign-in mints a cookie for who the password proved the visitor to be.  The cookie
read again names the same account; it names the same groups where each has a name
and none a line break in it, since lines are what the groups travel as.
-/

namespace EasyWaf.Gateway

open Signature Text

/-- An entry of a directory: the values of its attributes. -/
abbrev Entry := List (Text × List Text)

/-- A group as an application wants to read it. -/
def groupName (value : Text) : Text :=
  match (value.splitOn ',').head?.bind (splitOnce '=') with
  | none => value.trim
  | some (_, name) => name.trim

/-- The values of the attribute that lists an entry's groups, whichever its
spelling. -/
def groupValues (config : LdapConfig) (entry : Entry) : List Text :=
  (entry.filter fun listed => !config.groupsAttribute.isEmpty &&
    eqIgnoreAsciiCase listed.1 config.groupsAttribute).flatMap Prod.snd

/-- `ldap_check`; `directory` is the one entry it finds for the name and binds as
with the password. -/
def ldapCheck (directory : LdapConfig → Text → Text → Option Entry) (config : LdapConfig)
    (username password : Text) : Option Identity :=
  if password = [] then none
  else (directory config username password).map fun entry =>
    { subject := username, groups := (groupValues config entry).map groupName }

/-- A freshly minted cookie is read, and as what it was minted for. -/
def CarriesIdentity (hmac : KeyedHash) (secret : Text) (siteId : ℤ) (realm : Realm) (who : Identity)
    (userEpoch issued seen now : ℤ) : Prop :=
  ∃ session, read hmac secret siteId realm
      (mint hmac secret siteId realm who userEpoch issued seen) now = some session ∧
    session.who = who ∧ session.issued = issued ∧ session.userEpoch = userEpoch

/-- Each group the directory gives has a name, on one line. -/
def NamesGroups (directory : LdapConfig → Text → Text → Option Entry) (realm : Realm)
    (username password : Text) : Prop :=
  ∀ config entry, realm.kind = .ldap config → directory config username password = some entry →
    ∀ value ∈ groupValues config entry, groupName value ≠ [] ∧ '\n' ∉ groupName value

/-- Groups are read from their lines again where each is one. -/
theorem filter_splitOn_join_iff {groups : List Text} :
    ((Text.join ['\n'] groups).splitOn '\n').filter (· ≠ []) = groups ↔
      ∀ group ∈ groups, group ≠ [] ∧ '\n' ∉ group := by
  constructor
  · intro heq group hgroup
    rw [← heq] at hgroup
    obtain ⟨hmem, hne⟩ := List.mem_filter.mp hgroup
    exact ⟨of_decide_eq_true hne, fun hline => (Core.mem_of_mem_splitOn hmem hline).2 rfl⟩
  · intro hgroups
    cases groups with
    | nil => rfl
    | cons group groups =>
        rw [Text.join, List.splitOn_intercalate '\n' (fun group hgroup => (hgroups group hgroup).2)
          (List.cons_ne_nil _ _), List.filter_eq_self]
        exact fun group hgroup => decide_eq_true (hgroups group hgroup).1

section Minted

variable {hmac : KeyedHash} {secret : Text} {siteId : ℤ} {realm : Realm} {who : Identity}
variable {verify : Text → Text → Bool} {directory : LdapConfig → Text → Text → Option Entry}
variable {username password : Text} {userEpoch issued seen now : ℤ}

/-- Whom a sign-in names the realm holds. -/
theorem holds_of_checkPassword
    (hcheck : checkPassword verify (ldapCheck directory) realm username password =
      some (who, userEpoch)) : realm.holds (mintedFields realm who userEpoch issued seen) = true := by
  rw [checkPassword] at hcheck
  split at hcheck
  · contradiction
  · split at hcheck
    · next hkind =>
        rw [Realm.holds, hkind]
        split at hcheck
        · next user huser =>
            split at hcheck
            · next hfits =>
                obtain ⟨rfl, rfl⟩ := Prod.mk.inj (Option.some.inj hcheck)
                have huser : realm.users
                    (mintedFields realm ⟨username, []⟩ user.epoch issued seen).subject = some user :=
                  huser
                dsimp only
                rw [huser]
                have henabled := (Bool.and_eq_true_iff.mp hfits).2
                simp [henabled, mintedFields]
            · contradiction
        · contradiction
    · next config hkind => rw [Realm.holds, hkind]

/-- A freshly minted cookie is read as its fields. -/
theorem read_mint
    (hcheck : checkPassword verify (ldapCheck directory) realm username password =
      some (who, userEpoch))
    (hfits : ∀ i ∈ [realm.id, issued, seen, realm.epoch, userEpoch], -2 ^ 63 ≤ i ∧ i < 2 ^ 63)
    (hseen : issued ≤ seen) (hclock : seen ≤ now + clockSkewSecs)
    (hsession : now < issued + realm.session) (hidle : now < seen + realm.idle) :
    read hmac secret siteId realm (mint hmac secret siteId realm who userEpoch issued seen) now =
      some ((mintedFields realm who userEpoch issued seen).session now) := by
  have htime : realm.inTime (mintedFields realm who userEpoch issued seen) now = true := by
    have hissued : issued ≤ now + clockSkewSecs := hseen.trans hclock
    simp only [Realm.inTime, mintedFields, Bool.and_eq_true, Bool.not_eq_true', Bool.or_eq_false_iff]
    exact ⟨⟨⟨decide_eq_false hissued.not_gt, decide_eq_false hclock.not_gt⟩,
      decide_eq_false hseen.not_gt⟩, decide_eq_false hsession.not_ge,
        decide_eq_false hidle.not_ge⟩
  have hhonours : realm.honours (mintedFields realm who userEpoch issued seen) now = true :=
    honours_iff.mpr ⟨rfl, rfl, holds_of_checkPassword hcheck, htime⟩
  exact read_eq_some_iff.mpr ⟨_, mintedFields realm who userEpoch issued seen, rfl,
    parseBody_body hfits, hhonours, rfl⟩

/-- A sign-in's cookie carries who signed in where their groups are lines. -/
theorem carriesIdentity_iff_groups
    (hcheck : checkPassword verify (ldapCheck directory) realm username password =
      some (who, userEpoch))
    (hfits : ∀ i ∈ [realm.id, issued, seen, realm.epoch, userEpoch], -2 ^ 63 ≤ i ∧ i < 2 ^ 63)
    (hseen : issued ≤ seen) (hclock : seen ≤ now + clockSkewSecs)
    (hsession : now < issued + realm.session) (hidle : now < seen + realm.idle) :
    CarriesIdentity hmac secret siteId realm who userEpoch issued seen now ↔
      ∀ group ∈ who.groups, group ≠ [] ∧ '\n' ∉ group := by
  rw [CarriesIdentity, read_mint hcheck hfits hseen hclock hsession hidle, ← filter_splitOn_join_iff]
  constructor
  · rintro ⟨session, hsome, hwho, -⟩
    obtain rfl := Option.some.inj hsome
    exact congrArg Identity.groups hwho
  · intro hgroups
    refine ⟨_, rfl, ?_, rfl, rfl⟩
    exact congrArg (Identity.mk who.subject) hgroups

/-- The groups of a sign-in are those the directory gives. -/
theorem groups_iff
    (hcheck : checkPassword verify (ldapCheck directory) realm username password =
      some (who, userEpoch)) :
    (∀ group ∈ who.groups, group ≠ [] ∧ '\n' ∉ group) ↔
      NamesGroups directory realm username password := by
  rw [checkPassword] at hcheck
  split at hcheck
  · contradiction
  · next hgiven =>
      split at hcheck
      · next hkind =>
          split at hcheck
          · split at hcheck
            · obtain ⟨rfl, -⟩ := Prod.mk.inj (Option.some.inj hcheck)
              refine ⟨fun _ config entry hconfig => ?_, fun _ group hgroup => ?_⟩
              · rw [hkind] at hconfig
                contradiction
              · exact absurd hgroup List.not_mem_nil
            · contradiction
          · contradiction
      · next config hkind =>
          rw [ldapCheck, if_neg (not_or.mp hgiven).2, Option.map_map, Option.map_eq_some_iff] at hcheck
          obtain ⟨entry, hentry, hwho⟩ := hcheck
          obtain ⟨rfl, -⟩ := Prod.mk.inj hwho
          dsimp only
          rw [List.forall_mem_map]
          constructor
          · intro hgroups config' entry' hconfig' hentry'
            obtain rfl := Kind.ldap.inj (hkind.symm.trans hconfig')
            obtain rfl := Option.some.inj (hentry.symm.trans hentry')
            exact hgroups
          · exact fun hnames => hnames config entry hkind hentry

/-- The cookie a sign-in mints carries who signed in exactly where each of their
groups has a name on one line. -/
theorem carriesIdentity_iff
    (hcheck : checkPassword verify (ldapCheck directory) realm username password =
      some (who, userEpoch))
    (hfits : ∀ i ∈ [realm.id, issued, seen, realm.epoch, userEpoch], -2 ^ 63 ≤ i ∧ i < 2 ^ 63)
    (hseen : issued ≤ seen) (hclock : seen ≤ now + clockSkewSecs)
    (hsession : now < issued + realm.session) (hidle : now < seen + realm.idle) :
    CarriesIdentity hmac secret siteId realm who userEpoch issued seen now ↔
      NamesGroups directory realm username password :=
  (carriesIdentity_iff_groups hcheck hfits hseen hclock hsession hidle).trans (groups_iff hcheck)

end Minted

section Directories

/-- A realm whose directory lists groups as `memberOf`. -/
def directoryRealm : Realm where
  id := 1
  name := "staff".toList
  kind := .ldap { LdapConfig.default with groupsAttribute := "memberOf".toList }
  session := 28800
  idle := 3600
  epoch := 0
  users := fun _ => none

/-- A directory that has one group for everybody. -/
def directoryOf (group : Text) : LdapConfig → Text → Text → Option Entry :=
  fun _ _ _ => some [("memberOf".toList, [group])]

/-- A group of the common kind is carried. -/
theorem staff_carried : CarriesIdentity (fun _ _ => []) "secret".toList 1 directoryRealm
      { subject := "alice".toList, groups := ["staff".toList] } 0 100 100 100 ↔
    NamesGroups (directoryOf "cn=staff,ou=groups".toList) directoryRealm "alice".toList
      "roses in may".toList := by
  have hcheck : checkPassword (fun _ _ => true) (ldapCheck (directoryOf "cn=staff,ou=groups".toList))
      directoryRealm "alice".toList "roses in may".toList =
        some ({ subject := "alice".toList, groups := ["staff".toList] }, 0) := by
    decide +kernel
  exact carriesIdentity_iff hcheck (by decide) (by decide) (by decide) (by decide) (by decide)

/-- A group of two lines is read as two groups. -/
theorem two_lines_not_carried :
    checkPassword (fun _ _ => true) (ldapCheck (directoryOf "guests\nadmins".toList)) directoryRealm
        "alice".toList "roses in may".toList =
      some ({ subject := "alice".toList, groups := ["guests\nadmins".toList] }, 0) ∧
    ¬ CarriesIdentity (fun _ _ => []) "secret".toList 1 directoryRealm
      { subject := "alice".toList, groups := ["guests\nadmins".toList] } 0 100 100 100 := by
  have hcheck : checkPassword (fun _ _ => true) (ldapCheck (directoryOf "guests\nadmins".toList))
      directoryRealm "alice".toList "roses in may".toList =
        some ({ subject := "alice".toList, groups := ["guests\nadmins".toList] }, 0) := by
    decide +kernel
  refine ⟨hcheck, fun hcarries => ?_⟩
  have hgroups := (carriesIdentity_iff_groups hcheck (by decide) (by decide) (by decide) (by decide)
    (by decide)).mp hcarries
  exact (hgroups _ (List.mem_singleton_self _)).2 (by decide)

end Directories

end EasyWaf.Gateway
