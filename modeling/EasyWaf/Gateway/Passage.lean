import EasyWaf.Gateway.Strip

/-!
# What the gateway does to a request it lets through

What only the gateway may say is taken off the request, and a visitor it knows
is named to the application.
-/

namespace EasyWaf.Gateway

open Http

/-- Who a visitor proved to be. -/
structure Identity where
  subject : Text
  groups : List Text
  deriving DecidableEq

/-- The header set, where the text can be a header's value. -/
def setText (headers : HeaderMap) (name text : Text) : HeaderMap :=
  match HeaderValue.fromStr text with
  | some value => headers.insert name value
  | none => headers

/-- `SiteAuth::announce`. -/
def SiteAuth.announce (auth : SiteAuth) (headers : HeaderMap) (who : Identity) : HeaderMap :=
  let headers := setText headers auth.userHeader who.subject
  if who.groups ≠ [] then setText headers auth.groupsHeader (Text.join [','] who.groups)
  else headers

/-- A request that goes on to the application: one of a site that asks nobody, or
one the gateway lets through, from a visitor it knows or does not, by a session
or by a Basic credential, which the application is not handed. -/
inductive Passage
  | unasked
  | through (auth : SiteAuth) (who : Option Identity) (basic : Bool)

def authorization : Text := "authorization".toList

/-- The request's headers after `gate`. -/
def Passage.headers : Passage → HeaderMap → HeaderMap
  | unasked, headers => headers
  | through auth who basic, headers =>
      let headers := auth.strip headers
      let headers := if basic then headers.remove authorization else headers
      match who with
      | some who => auth.announce headers who
      | none => headers

/-- The visitor is named in headers beginning `X-`, as the site form and imports
have it. -/
def Passage.OwnHeaders : Passage → Prop
  | unasked => True
  | through auth _ _ => ∀ name ∈ [auth.userHeader, auth.groupsHeader], "x-".toList <+: name

section Agreement

variable {names : List Text} {left right : HeaderMap}

theorem agreeExcept_setText (hagree : left.AgreeExcept names right) (name text : Text) :
    (setText left name text).AgreeExcept names (setText right name text) := by
  rw [setText, setText]
  cases HeaderValue.fromStr text with
  | none => exact hagree
  | some value => exact hagree.insert name value

theorem agreeExcept_stripCookie (hagree : left.AgreeExcept names right)
    (hcookie : cookieHeader ∉ names) (name : Text) :
    (stripCookie left name).AgreeExcept names (stripCookie right name) := by
  rw [stripCookie, stripCookie, hagree.get hcookie]
  cases right.get cookieHeader with
  | none => exact hagree
  | some raw =>
      dsimp only
      split
      · exact hagree
      · split
        · split
          · exact hagree.insert cookieHeader _
          · exact hagree.remove cookieHeader
        · exact hagree.remove cookieHeader

/-- The gateway reads none of the headers it does not read alike. -/
theorem agreeExcept_passage (hagree : left.AgreeExcept names right)
    (hcookie : cookieHeader ∉ names) (passage : Passage) :
    (passage.headers left).AgreeExcept names (passage.headers right) := by
  cases passage with
  | unasked => exact hagree
  | through auth who basic =>
      have hstrip : (auth.strip left).AgreeExcept names (auth.strip right) :=
        agreeExcept_stripCookie ((hagree.remove _).remove _) hcookie sessionCookie
      have hbasic := (hstrip.remove authorization)
      cases who with
      | none =>
          rw [Passage.headers, Passage.headers]
          split
          · exact hbasic
          · exact hstrip
      | some who =>
          rw [Passage.headers, Passage.headers, SiteAuth.announce, SiteAuth.announce]
          split <;> split <;> repeat' apply agreeExcept_setText
          all_goals first | exact hbasic | exact hstrip

end Agreement

section Host

variable {name : Text}

theorem getAll_setText (headers : HeaderMap) {set : Text} (hne : name ≠ set) (text : Text) :
    (setText headers set text).getAll name = headers.getAll name := by
  rw [setText]
  cases HeaderValue.fromStr text with
  | none => rfl
  | some value => exact HeaderMap.getAll_insert_of_ne headers hne value

/-- A header the gateway has no business with stays as it was. -/
theorem getAll_passage {passage : Passage} (hown : passage.OwnHeaders)
    (hname : ¬ "x-".toList <+: name) (hcookie : name ≠ cookieHeader)
    (hauthorization : name ≠ authorization) (headers : HeaderMap) :
    (passage.headers headers).getAll name = headers.getAll name := by
  cases passage with
  | unasked => rfl
  | through auth who basic =>
      obtain ⟨huserOwn, hrest⟩ := List.forall_mem_cons.mp hown
      have hgroupsOwn := List.forall_mem_singleton.mp hrest
      have huser : name ≠ auth.userHeader := fun heq => hname (heq ▸ huserOwn)
      have hgroups : name ≠ auth.groupsHeader := fun heq => hname (heq ▸ hgroupsOwn)
      have hstrip : (auth.strip headers).getAll name = headers.getAll name := by
        rw [SiteAuth.strip, getAll_stripCookie _ hcookie,
          HeaderMap.getAll_remove_of_ne _ hgroups, HeaderMap.getAll_remove_of_ne _ huser]
      have hbasic (headers : HeaderMap) :
          (if basic then headers.remove authorization else headers).getAll name =
            headers.getAll name := by
        split
        · exact HeaderMap.getAll_remove_of_ne headers hauthorization
        · rfl
      cases who with
      | none => exact (hbasic _).trans hstrip
      | some who =>
          rw [Passage.headers, SiteAuth.announce]
          split
          · rw [getAll_setText _ hgroups, getAll_setText _ huser, hbasic, hstrip]
          · rw [getAll_setText _ huser, hbasic, hstrip]

end Host

end EasyWaf.Gateway
