import EasyWaf.Db.Tables

/-!
# Reading tables

The rows of each table under its name, and the parts of a query that the loaders
share.
-/

namespace EasyWaf.Db

namespace Database

def sites (db : Database) : List Site := db.rows .sites

def upstreams (db : Database) : List Upstream := db.rows .upstreams

def certs (db : Database) : List Cert := db.rows .certs

def policies (db : Database) : List Policy := db.rows .policies

def siteAliases (db : Database) : List SiteAlias := db.rows .siteAliases

def siteAuth (db : Database) : List SiteAuth := db.rows .siteAuth

def authRealms (db : Database) : List AuthRealm := db.rows .authRealms

def authUsers (db : Database) : List AuthUser := db.rows .authUsers

def wafRules (db : Database) : List WafRule := db.rows .wafRules

def policyValues (db : Database) : List PolicyValue := db.rows .policyValues

def policyRuleExclusions (db : Database) : List PolicyRuleExclusion :=
  db.rows .policyRuleExclusions

def geoipEverywhere (db : Database) : List GeoipEverywhere := db.rows .geoipEverywhere

def ipRules (db : Database) : List IpRule := db.rows .ipRules

def ipListFeeds (db : Database) : List IpListFeed := db.rows .ipListFeeds

end Database

/-- `ORDER BY id`. -/
def orderById {Row : Type} (id : Row → ℤ) (rows : List Row) : List Row :=
  rows.insertionSort fun left right => id left ≤ id right

theorem mem_orderById {Row : Type} {id : Row → ℤ} {rows : List Row} {row : Row} :
    row ∈ orderById id rows ↔ row ∈ rows := by
  simp [orderById]

section Order

variable {Row : Type} (id : Row → ℤ)

theorem orderedInsert_of_forall_le {row : Row} {rows : List Row}
    (hle : ∀ other ∈ rows, id row ≤ id other) :
    rows.orderedInsert (fun left right => id left ≤ id right) row = row :: rows := by
  cases rows with
  | nil => rfl
  | cons head rows =>
    exact List.orderedInsert_cons_of_le _ rows (hle head List.mem_cons_self)

theorem filter_orderedInsert (chosen : Row → Bool) (row : Row) {sorted : List Row}
    (hsorted : sorted.Pairwise fun left right => id left ≤ id right) :
    (sorted.orderedInsert (fun left right => id left ≤ id right) row).filter chosen =
      if chosen row then
        (sorted.filter chosen).orderedInsert (fun left right => id left ≤ id right) row
      else sorted.filter chosen := by
  induction hsorted with
  | nil => exact List.filter_cons
  | @cons head sorted hhead hsorted ih =>
    by_cases hle : id row ≤ id head
    · rw [List.orderedInsert_cons, if_pos hle, List.filter_cons]
      split
      · rw [orderedInsert_of_forall_le]
        intro other hother
        rcases List.mem_cons.mp (List.mem_of_mem_filter hother) with rfl | hrest
        · exact hle
        · exact hle.trans (hhead other hrest)
      · rfl
    · rw [List.orderedInsert_cons, if_neg hle, List.filter_cons, ih, List.filter_cons]
      split <;> split
      · rw [List.orderedInsert_cons, if_neg hle]
      · rfl
      · rfl
      · rfl

/-- Rows are chosen from those in order as they are before. -/
theorem filter_orderById (chosen : Row → Bool) (rows : List Row) :
    (orderById id rows).filter chosen = orderById id (rows.filter chosen) := by
  have : Std.Total fun left right : Row => id left ≤ id right := ⟨fun _ _ => le_total _ _⟩
  have : IsTrans Row fun left right => id left ≤ id right := ⟨fun _ _ _ => le_trans⟩
  unfold orderById
  induction rows with
  | nil => rfl
  | cons row rows ih =>
    rw [List.insertionSort_cons,
      filter_orderedInsert id chosen row (List.pairwise_insertionSort _ rows), ih,
      List.filter_cons]
    split <;> rfl

end Order

/-- `policies p JOIN sites s ON s.waf_policy_id = p.id WHERE s.id = ?`. -/
def policyOfSite (db : Database) (siteId : ℤ) : Option Policy :=
  ((db.sites.filter (·.id = siteId)).flatMap fun site =>
    db.policies.filter fun policy => site.wafPolicyId = some policy.id).head?

end EasyWaf.Db
