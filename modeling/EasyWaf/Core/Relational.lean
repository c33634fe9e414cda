import EasyWaf.Text.Basic

/-!
# Tables, triggers and foreign keys

A database is a list of rows for each table and one counter.  A statement
inserts, updates or deletes rows, sets off the foreign keys' actions on the rows
that refer to what it deletes, and each row so touched fires the triggers on it,
all of which raise the counter.  A statement that leaves two rows the schema
forbids to stand together, or a reference to nothing, is refused as a whole.

`Schema.eq_or_lt_of_exec` is what the counter is for: if every write of a
statement is watched by a trigger, the counter is larger or nothing changed.
-/

namespace EasyWaf.Relational

inductive Cell
  | null
  | integer (value : ℤ)
  | text (value : Text)
  deriving DecidableEq

structure Column (Row : Type) where
  name : Text
  read : Row → Cell

inductive Operation
  | insert
  | update
  | delete
  deriving DecidableEq

/-- A trigger that raises the counter.  `columns` are those of `UPDATE OF`;
`none` is a trigger on every column. -/
structure Trigger (Table : Type) where
  table : Table
  operation : Operation
  columns : Option (List Text)

/-- What deleting a row does to the rows that refer to it. -/
inductive OnDelete (Row : Type)
  | cascade
  | setNull (clear : Row → Row)
  | restrict

structure ForeignKey (Table : Type) (Row : Table → Type) where
  child : Table
  column : Text
  parent : Table
  refers : Row child → Option ℤ
  onDelete : OnDelete (Row child)

structure Schema (Table : Type) where
  Row : Table → Type
  columns : (table : Table) → List (Column (Row table))
  /-- The primary key that foreign keys refer to. -/
  primary : (table : Table) → Row table → ℤ
  /-- Two rows a `UNIQUE` constraint does not allow together. -/
  clash : (table : Table) → Row table → Row table → Bool
  triggers : List (Trigger Table)
  foreignKeys : List (ForeignKey Table Row)
  /-- Every table. -/
  tables : List Table

variable {Table : Type}

structure Database (schema : Schema Table) where
  generation : ℕ
  rows : (table : Table) → List (schema.Row table)

namespace Schema

variable {schema : Schema Table}

/-- Nothing changed, or the counter is larger. -/
def Accounted (db db' : Database schema) : Prop := db' = db ∨ db.generation < db'.generation

theorem Accounted.refl (db : Database schema) : Accounted db db := .inl rfl

theorem Accounted.le {db db' : Database schema} (haccounted : Accounted db db') :
    db.generation ≤ db'.generation := by
  rcases haccounted with rfl | hlt
  · exact le_refl _
  · exact hlt.le

theorem Accounted.trans {db db' db'' : Database schema} (first : Accounted db db')
    (second : Accounted db' db'') : Accounted db db'' := by
  rcases first with rfl | hlt
  · exact second
  · exact .inr (hlt.trans_le second.le)

theorem Accounted.foldl {Step : Type} {next : Database schema → Step → Database schema}
    (steps : List Step) (db : Database schema)
    (hnext : ∀ step ∈ steps, ∀ db, Accounted db (next db step)) :
    Accounted db (steps.foldl next db) := by
  induction steps generalizing db with
  | nil => exact .refl db
  | cons step steps ih =>
      exact (hnext step List.mem_cons_self db).trans
        (ih _ fun step' hstep => hnext step' (List.mem_cons_of_mem _ hstep))

end Schema

variable [DecidableEq Table]

namespace Schema

variable (schema : Schema Table)

/-- A new value for each row that writes no column but those it names. -/
structure Assignment (table : Table) where
  columns : List Text
  apply : schema.Row table → schema.Row table
  only : ∀ row, ∀ column ∈ schema.columns table, column.name ∉ columns →
    column.read (apply row) = column.read row

inductive Statement
  | insert (table : Table) (rows : List (schema.Row table))
  | update (table : Table) (assignment : schema.Assignment table)
      (chosen : schema.Row table → Bool)
  /-- `INSERT … ON CONFLICT … DO UPDATE`. -/
  | upsert (table : Table) (row : schema.Row table) (conflicts : schema.Row table → Bool)
      (assignment : schema.Assignment table)
  | delete (table : Table) (chosen : schema.Row table → Bool)
  /-- A write to a table that is not one of these. -/
  | elsewhere

/-- How many triggers one row fires. -/
def fires (table : Table) (operation : Operation) (columns : List Text) : ℕ :=
  schema.triggers.countP fun trigger =>
    decide (trigger.table = table) && decide (trigger.operation = operation) &&
      match trigger.columns with
      | none => true
      | some watched => watched.any (· ∈ columns)

variable {schema}

def setRows (db : Database schema) (table : Table) (rows : List (schema.Row table)) :
    Database schema :=
  { db with rows := Function.update db.rows table rows }

/-- `count` rows fire their triggers. -/
def touch (db : Database schema) (table : Table) (operation : Operation) (columns : List Text)
    (count : ℕ) : Database schema :=
  { db with generation := db.generation + count * schema.fires table operation columns }

def insertRows (db : Database schema) (table : Table) (rows : List (schema.Row table)) :
    Database schema :=
  touch (setRows db table (db.rows table ++ rows)) table .insert [] rows.length

def updateRows (db : Database schema) (table : Table) (columns : List Text)
    (apply : schema.Row table → schema.Row table) (chosen : schema.Row table → Bool) :
    Database schema :=
  touch (setRows db table ((db.rows table).map fun row => if chosen row then apply row else row))
    table .update columns ((db.rows table).countP chosen)

/-- The rows that refer to one of `gone`. -/
def orphaned (key : ForeignKey Table schema.Row) (gone : List ℤ) (row : schema.Row key.child) :
    Bool :=
  match key.refers row with
  | none => false
  | some id => id ∈ gone

/-- `depth` bounds the chain of deletions foreign keys set off. -/
def deleteRows : (depth : ℕ) → Database schema → (table : Table) →
    (schema.Row table → Bool) → Database schema
  | 0, db, _, _ => db
  | depth + 1, db, table, chosen =>
      let gone := (db.rows table).filter chosen
      let kept := (db.rows table).filter fun row => !chosen row
      let deleted := touch (setRows db table kept) table .delete [] gone.length
      schema.foreignKeys.foldl
        (fun db key =>
          if key.parent = table then
            let orphan := orphaned key (gone.map (schema.primary table))
            match key.onDelete with
            | .cascade => deleteRows depth db key.child orphan
            | .setNull clear => updateRows db key.child [key.column] clear orphan
            | .restrict => db
          else db)
        deleted

/-- Rows that nothing refers to are deleted alone. -/
theorem deleteRows_of_leaf {table : Table}
    (hleaf : ∀ key ∈ schema.foreignKeys, key.parent ≠ table) (depth : ℕ) (db : Database schema)
    (chosen : schema.Row table → Bool) :
    deleteRows (depth + 1) db table chosen =
      touch (setRows db table ((db.rows table).filter fun row => !chosen row)) table .delete []
        ((db.rows table).filter chosen).length := by
  rw [deleteRows]
  generalize touch (setRows db table ((db.rows table).filter fun row => !chosen row)) table .delete []
    ((db.rows table).filter chosen).length = deleted
  apply List.foldlRecOn (motive := fun db => db = deleted)
  · rfl
  · intro db heq key hkey
    rw [if_neg (hleaf key hkey), heq]

/-- Every reference is to a row there is, and no two rows clash. -/
def Consistent (db : Database schema) : Prop :=
  (∀ key ∈ schema.foreignKeys, ∀ row ∈ db.rows key.child, ∀ id, key.refers row = some id →
    id ∈ (db.rows key.parent).map (schema.primary key.parent)) ∧
  ∀ table ∈ schema.tables, (db.rows table).Pairwise fun left right =>
    schema.clash table left right = false

instance (db : Database schema) : Decidable (Consistent db) :=
  have : ∀ (key : ForeignKey Table schema.Row) (row : schema.Row key.child),
      Decidable (∀ id, key.refers row = some id →
        id ∈ (db.rows key.parent).map (schema.primary key.parent)) := fun key row =>
    match h : key.refers row with
    | none => isTrue (by simp)
    | some id => decidable_of_iff (id ∈ (db.rows key.parent).map (schema.primary key.parent)) (by simp)
  inferInstanceAs (Decidable (_ ∧ _))

def run (depth : ℕ) (db : Database schema) : schema.Statement → Database schema
  | .insert table rows => insertRows db table rows
  | .update table assignment chosen =>
      updateRows db table assignment.columns assignment.apply chosen
  | .upsert table row conflicts assignment =>
      if (db.rows table).any conflicts then
        updateRows db table assignment.columns assignment.apply conflicts
      else insertRows db table [row]
  | .delete table chosen => deleteRows depth db table chosen
  | .elsewhere => db

def exec (depth : ℕ) (db : Database schema) (statement : schema.Statement) :
    Option (Database schema) :=
  let after := run depth db statement
  if Consistent after then some after else none

/-- The statements of one transaction: all of them, or none. -/
def execAll (depth : ℕ) (db : Database schema) :
    List schema.Statement → Option (Database schema)
  | [] => some db
  | statement :: statements => (exec depth db statement).bind fun db => execAll depth db statements

theorem consistent_of_exec {depth : ℕ} {db db' : Database schema} {statement : schema.Statement}
    (hexec : exec depth db statement = some db') : Consistent db' := by
  simp only [exec] at hexec
  split at hexec
  · next hconsistent => exact Option.some.inj hexec ▸ hconsistent
  · simp at hexec

theorem consistent_of_execAll {depth : ℕ} {db db' : Database schema}
    {statements : List schema.Statement} (hdb : Consistent db)
    (hexec : execAll depth db statements = some db') : Consistent db' := by
  induction statements generalizing db with
  | nil => exact Option.some.inj hexec ▸ hdb
  | cons statement statements ih =>
      obtain ⟨next, hnext, hrest⟩ := Option.bind_eq_some_iff.mp hexec
      exact ih (consistent_of_exec hnext) hrest

section Watched

variable (schema)

/-- An update of these columns of this table fires a trigger, or writes none of
the columns there are. -/
def Watches (table : Table) (columns : List Text) : Prop :=
  0 < schema.fires table .update columns ∨
    ∀ column ∈ schema.columns table, column.name ∉ columns

instance (table : Table) (columns : List Text) : Decidable (schema.Watches table columns) :=
  inferInstanceAs (Decidable (_ ∨ _))

/-- Two rows that agree on every column are the same row. -/
def Extensional : Prop :=
  ∀ (table : Table) (row row' : schema.Row table),
    (∀ column ∈ schema.columns table, column.read row = column.read row') → row = row'

/-- The actions foreign keys take are watched. -/
def ActionsWatched : Prop :=
  ∀ key ∈ schema.foreignKeys,
    match key.onDelete with
    | .cascade => 0 < schema.fires key.child .delete []
    | .setNull _ => 0 < schema.fires key.child .update [key.column]
    | .restrict => True

instance : Decidable schema.ActionsWatched :=
  have : ∀ key : ForeignKey Table schema.Row, Decidable
      (match key.onDelete with
      | .cascade => 0 < schema.fires key.child .delete []
      | .setNull _ => 0 < schema.fires key.child .update [key.column]
      | .restrict => True) := fun key => by
    split <;> infer_instance
  inferInstanceAs (Decidable (∀ key ∈ schema.foreignKeys, _))

variable {schema}

/-- Every write the statement makes is watched. -/
def Statement.Watched : schema.Statement → Prop
  | .insert table _ => 0 < schema.fires table .insert []
  | .update table assignment _ => schema.Watches table assignment.columns
  | .upsert table _ _ assignment =>
      0 < schema.fires table .insert [] ∧ schema.Watches table assignment.columns
  | .delete table _ => 0 < schema.fires table .delete []
  | .elsewhere => True

@[simp]
theorem setRows_self (db : Database schema) (table : Table) :
    setRows db table (db.rows table) = db := by
  simp [setRows]

theorem touch_zero (db : Database schema) (table : Table) (operation : Operation)
    (columns : List Text) : touch db table operation columns 0 = db := by
  simp [touch]

/-- A change of some rows, at least one trigger for each of them, is accounted
for. -/
theorem accounted_touch {db : Database schema} {table : Table} {operation : Operation}
    {columns : List Text} {rows : List (schema.Row table)} {count : ℕ}
    (hfires : 0 < schema.fires table operation columns)
    (hnone : count = 0 → rows = db.rows table) :
    Accounted db (touch (setRows db table rows) table operation columns count) := by
  rcases Nat.eq_zero_or_pos count with rfl | hcount
  · rw [hnone rfl, setRows_self, touch_zero]
    exact .refl db
  · refine .inr ?_
    simp only [touch, setRows]
    exact Nat.lt_add_of_pos_right (Nat.mul_pos hcount hfires)

theorem accounted_insertRows (db : Database schema) (table : Table)
    (rows : List (schema.Row table)) (hfires : 0 < schema.fires table .insert []) :
    Accounted db (insertRows db table rows) := by
  refine accounted_touch hfires fun hnone => ?_
  rw [List.length_eq_zero_iff.mp hnone, List.append_nil]

theorem accounted_updateRows (db : Database schema) (table : Table) (columns : List Text)
    (apply : schema.Row table → schema.Row table) (chosen : schema.Row table → Bool)
    (hfires : 0 < schema.fires table .update columns) :
    Accounted db (updateRows db table columns apply chosen) := by
  refine accounted_touch hfires fun hnone => ?_
  have hchosen : ∀ row ∈ db.rows table, ¬ chosen row = true := List.countP_eq_zero.mp hnone
  calc
    (db.rows table).map (fun row => if chosen row then apply row else row) =
        (db.rows table).map id := List.map_congr_left fun row hrow => if_neg (hchosen row hrow)
    _ = db.rows table := List.map_id _

/-- An update that writes none of the columns changes no row, and where it fires
a trigger the counter is larger. -/
theorem accounted_update (hextensional : schema.Extensional) (db : Database schema)
    {table : Table} (assignment : schema.Assignment table) (chosen : schema.Row table → Bool)
    (hwatches : schema.Watches table assignment.columns) :
    Accounted db (updateRows db table assignment.columns assignment.apply chosen) := by
  rcases hwatches with hfires | hnone
  · exact accounted_updateRows _ _ _ _ _ hfires
  have hsame : ∀ row, assignment.apply row = row := fun row =>
    hextensional table _ _ fun column hcolumn =>
      assignment.only row column hcolumn (hnone column hcolumn)
  by_cases hfires : 0 < schema.fires table .update assignment.columns
  · exact accounted_updateRows _ _ _ _ _ hfires
  · have hzero : schema.fires table .update assignment.columns = 0 := by omega
    refine .inl ?_
    simp [updateRows, touch, hzero, hsame]

theorem accounted_deleteRows (hactions : schema.ActionsWatched) (depth : ℕ)
    (db : Database schema) (table : Table) (chosen : schema.Row table → Bool)
    (hfires : 0 < schema.fires table .delete []) :
    Accounted db (deleteRows depth db table chosen) := by
  induction depth generalizing db table with
  | zero => exact .refl db
  | succ depth ih =>
      have hdeleted : Accounted db
          (touch (setRows db table ((db.rows table).filter fun row => !chosen row)) table .delete []
            ((db.rows table).filter chosen).length) := by
        refine accounted_touch hfires fun hnone => List.filter_eq_self.mpr fun row hrow => ?_
        have hnot := List.filter_eq_nil_iff.mp (List.length_eq_zero_iff.mp hnone) row hrow
        simpa using hnot
      refine hdeleted.trans (Accounted.foldl _ _ fun key hkey db => ?_)
      have haction := hactions key hkey
      dsimp only
      split
      · split
        · next hcascade =>
            rw [hcascade] at haction
            exact ih db key.child _ haction
        · next clear hclear =>
            rw [hclear] at haction
            exact accounted_updateRows _ _ _ _ _ haction
        · exact .refl db
      · exact .refl db

/-- Where every write is watched, a statement changes nothing or leaves the
counter larger. -/
theorem eq_or_lt_of_exec (hextensional : schema.Extensional) (hactions : schema.ActionsWatched)
    {depth : ℕ} {db db' : Database schema} {statement : schema.Statement}
    (hwatched : statement.Watched) (hexec : exec depth db statement = some db') :
    db' = db ∨ db.generation < db'.generation := by
  have hrun : run depth db statement = db' := by
    simp only [exec] at hexec
    split at hexec
    · exact Option.some.inj hexec
    · simp at hexec
  subst hrun
  cases statement with
  | insert table rows => exact accounted_insertRows _ _ _ hwatched
  | update table assignment chosen => exact accounted_update hextensional _ _ _ hwatched
  | upsert table row conflicts assignment =>
      simp only [run]
      split
      · exact accounted_update hextensional _ _ _ hwatched.2
      · exact accounted_insertRows _ _ _ hwatched.1
  | delete table chosen => exact accounted_deleteRows hactions _ _ _ _ hwatched
  | elsewhere => exact .inl rfl

theorem eq_or_lt_of_execAll (hextensional : schema.Extensional)
    (hactions : schema.ActionsWatched) {depth : ℕ} {db db' : Database schema}
    {statements : List schema.Statement} (hwatched : ∀ statement ∈ statements, statement.Watched)
    (hexec : execAll depth db statements = some db') :
    db' = db ∨ db.generation < db'.generation := by
  induction statements generalizing db with
  | nil => exact .inl (Option.some.inj hexec).symm
  | cons statement statements ih =>
      obtain ⟨next, hnext, hrest⟩ := Option.bind_eq_some_iff.mp hexec
      have hfirst : Accounted db next := eq_or_lt_of_exec hextensional hactions
        (hwatched statement List.mem_cons_self) hnext
      exact hfirst.trans (ih (fun other hother => hwatched other (List.mem_cons_of_mem _ hother))
        hrest)

end Watched

end Schema

end EasyWaf.Relational
