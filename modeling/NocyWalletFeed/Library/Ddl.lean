import Mathlib.Data.List.Basic
import Mathlib.Data.List.Forall2

/-!
# Data definition

Tables and indexes of one schema, and the statements that change them. A statement fails where the database would raise
an error, and then changes nothing.

* `Catalog`, `Statement`, `exec` : the statements, with `IF EXISTS` and `IF NOT EXISTS`;
* `Grows` : a catalog has all of another, its rows included;
* `grows_exec` : statements that only add make a catalog grow.
-/

namespace Ddl

/-! ## Tables -/

inductive SqlType where
  | bytea
  | varchar (n : Nat)
  | text
  | int
  | bigint
  | timestamptz
  deriving DecidableEq, Repr

inductive SqlValue where
  | null
  | bytes (value : List UInt8)
  | text (value : String)
  | int (value : Int)
  | timestamp (value : Int)
  deriving DecidableEq, Repr

inductive Default where
  | literal (value : SqlValue)
  | now
  deriving DecidableEq, Repr

structure Column where
  name : String
  type : SqlType
  notNull : Bool
  default? : Option Default
  deriving DecidableEq, Repr

/-- The values of a row by column. -/
abbrev Row := List (String × SqlValue)

/-- The value of a column; `NULL` where the row has none. -/
def Row.value (row : Row) (column : String) : SqlValue := (row.lookup column).getD .null

/-- The conditions that `CHECK` constraints state about a column. -/
inductive Check where
  | octetLength (column : String) (n : Nat)
  | textIn (column : String) (texts : List String)
  | intEq (column : String) (n : Int)
  deriving DecidableEq, Repr

def Check.column : Check → String
  | .octetLength column _ => column
  | .textIn column _ => column
  | .intEq column _ => column

/-- A check passes where it does not fail: `NULL` passes. -/
def Check.passes (check : Check) (row : Row) : Bool :=
  match check, row.value check.column with
  | _, .null => true
  | .octetLength _ n, .bytes value => value.length = n
  | .textIn _ texts, .text value => value ∈ texts
  | .intEq _ n, .int value => value = n
  | _, _ => false

inductive Rule where
  | primaryKey (columns : List String)
  | check (check : Check)
  | foreignKey (columns : List String) (references : String) (referenced : List String)
  deriving DecidableEq, Repr

structure Constraint where
  name : String
  rule : Rule
  deriving DecidableEq, Repr

/-- A constraint is about a column of its own table. -/
def Constraint.mentions (constraint : Constraint) (column : String) : Bool :=
  match constraint.rule with
  | .primaryKey columns => column ∈ columns
  | .check check => check.column = column
  | .foreignKey columns _ _ => column ∈ columns

def Constraint.refersTo (constraint : Constraint) (table : String) : Bool :=
  match constraint.rule with
  | .foreignKey _ references _ => references = table
  | .primaryKey _ => false
  | .check _ => false

structure TableDef where
  name : String
  columns : List Column
  constraints : List Constraint
  deriving DecidableEq, Repr

structure Table extends TableDef where
  rows : List Row
  deriving DecidableEq, Repr

def TableDef.hasColumn (d : TableDef) (column : String) : Bool := d.columns.any (·.name = column)

def TableDef.hasConstraint (d : TableDef) (name : String) : Bool := d.constraints.any (·.name = name)

def TableDef.isKey (d : TableDef) (columns : List String) : Bool := d.constraints.any (·.rule = .primaryKey columns)

/-- An index over columns of a table, of all rows or of those in which a column is not `NULL`. -/
structure Index where
  name : String
  table : String
  columns : List String
  whereNotNull : Option String
  deriving DecidableEq, Repr

def Index.mentions (index : Index) (column : String) : Bool :=
  column ∈ index.columns || index.whereNotNull = some column

/-! ## Catalogs -/

structure Catalog where
  schema : Bool
  tables : List Table
  indexes : List Index
  deriving DecidableEq, Repr

namespace Catalog

def empty : Catalog := ⟨false, [], []⟩

def table? (c : Catalog) (name : String) : Option Table := c.tables.find? (·.name = name)

/-- Tables and indexes share their names. -/
def hasRelation (c : Catalog) (name : String) : Bool :=
  (c.table? name).isSome || c.indexes.any (·.name = name)

def modify (c : Catalog) (name : String) (f : Table → Table) : Catalog :=
  { c with tables := c.tables.map fun t => if t.name = name then f t else t }

end Catalog

/-! ## Statements -/

/-- Statements on the one schema; those that drop say `IF EXISTS`. -/
inductive Statement where
  | createSchema
  | dropSchema
  | createTable (ifNotExists : Bool) (d : TableDef)
  | dropTable (name : String)
  | addColumn (ifNotExists : Bool) (table : String) (column : Column) (checks : List Constraint)
  | dropColumn (table column : String)
  | addConstraint (table : String) (name : String) (check : Check)
  | createIndex (ifNotExists : Bool) (index : Index)
  | dropIndex (name : String)
  | insert (onConflictDoNothing : Bool) (table : String) (values : Row)
  | comment (table : String) (column : Option String)
  deriving DecidableEq, Repr

def Default.eval (now : Int) : Option Default → SqlValue
  | some (.literal value) => value
  | some .now => .timestamp now
  | none => .null

def Column.defaultValue (now : Int) (column : Column) : SqlValue := Default.eval now column.default?

/-- The row an `INSERT` stands for. -/
def TableDef.fill (d : TableDef) (now : Int) (values : Row) : Row :=
  d.columns.map fun column => (column.name, (values.lookup column.name).getD (column.defaultValue now))

def Constraint.admits (constraint : Constraint) (row : Row) : Bool :=
  match constraint.rule with
  | .check check => check.passes row
  | .primaryKey columns => columns.all fun column => row.value column ≠ .null
  | .foreignKey _ _ _ => true

/-- A row has a value in each column that needs one, and is admitted by the constraints. -/
def TableDef.accepts (d : TableDef) (row : Row) : Bool :=
  d.columns.all (fun column => !column.notNull || row.value column.name ≠ .null) && d.constraints.all (·.admits row)

/-- A row is already there under its primary key. -/
def Table.conflicts (t : Table) (row : Row) : Bool := t.constraints.any fun constraint =>
  match constraint.rule with
  | .primaryKey columns => t.rows.any fun other => columns.all fun column => other.value column = row.value column
  | .check _ => false
  | .foreignKey _ _ _ => false

/-- A foreign key finds its row, or has no value. -/
def Catalog.resolves (c : Catalog) (d : TableDef) (row : Row) : Bool := d.constraints.all fun constraint =>
  match constraint.rule with
  | .foreignKey columns references referenced =>
    columns.any (fun column => row.value column = .null) ||
      (c.table? references).any fun t => t.rows.any fun other =>
        (columns.zip referenced).all fun pair => row.value pair.1 = other.value pair.2
  | .primaryKey _ => true
  | .check _ => true

def Catalog.keysExist (c : Catalog) (d : TableDef) : Bool := d.constraints.all fun constraint =>
  match constraint.rule with
  | .foreignKey _ references referenced => (c.table? references).any (·.isKey referenced)
  | .primaryKey _ => true
  | .check _ => true

/-- Another table refers to a table. -/
def Catalog.isReferenced (c : Catalog) (name : String) : Bool :=
  c.tables.any fun t => t.name ≠ name && t.constraints.any (·.refersTo name)

def Catalog.isReferencedColumn (c : Catalog) (name column : String) : Bool :=
  c.tables.any fun t => t.constraints.any fun constraint =>
    match constraint.rule with
    | .foreignKey _ references referenced => references = name ∧ column ∈ referenced
    | .primaryKey _ => false
    | .check _ => false

/-- A column can be added where the rows that are there get a value they may have. -/
def Table.canAdd (now : Int) (column : Column) (checks : List Constraint) (t : Table) : Bool :=
  (!column.notNull || t.rows.isEmpty || column.defaultValue now ≠ .null) &&
    t.rows.all fun row => checks.all (·.admits (row ++ [(column.name, column.defaultValue now)]))

def Table.addColumn (now : Int) (column : Column) (checks : List Constraint) (t : Table) : Table :=
  { t with
    columns := t.columns ++ [column]
    constraints := t.constraints ++ checks
    rows := t.rows.map (· ++ [(column.name, column.defaultValue now)]) }

/-- Indexes and constraints of a column go with it. -/
def Table.dropColumn (column : String) (t : Table) : Table :=
  { t with
    columns := t.columns.filter (·.name ≠ column)
    constraints := t.constraints.filter fun constraint => !constraint.mentions column
    rows := t.rows.map (·.filter (·.1 ≠ column)) }

def Table.addConstraint (constraint : Constraint) (t : Table) : Table :=
  { t with constraints := t.constraints ++ [constraint] }

def Table.insertRow (row : Row) (t : Table) : Table := { t with rows := t.rows ++ [row] }

/-! ## Execution -/

namespace Catalog

def dropSchema (c : Catalog) : Option Catalog :=
  if c.schema && !c.tables.isEmpty then none else some { c with schema := false }

def createTable (ifNotExists : Bool) (d : TableDef) (c : Catalog) : Option Catalog :=
  if c.hasRelation d.name then if ifNotExists then some c else none
  else if c.schema && c.keysExist d then some { c with tables := c.tables ++ [⟨d, []⟩] }
  else none

/-- Indexes of a table go with it. -/
def dropTable (name : String) (c : Catalog) : Option Catalog :=
  if (c.table? name).isNone then some c
  else if c.isReferenced name then none
  else some { c with tables := c.tables.filter (·.name ≠ name), indexes := c.indexes.filter (·.table ≠ name) }

def addColumn (now : Int) (ifNotExists : Bool) (name : String) (column : Column) (checks : List Constraint)
    (c : Catalog) : Option Catalog :=
  match c.table? name with
  | none => none
  | some t =>
    if t.hasColumn column.name then if ifNotExists then some c else none
    else if t.canAdd now column checks then some (c.modify name (Table.addColumn now column checks))
    else none

def dropColumn (name column : String) (c : Catalog) : Option Catalog :=
  match c.table? name with
  | none => none
  | some t =>
    if !t.hasColumn column then some c
    else if c.isReferencedColumn name column then none
    else some { c.modify name (Table.dropColumn column) with
      indexes := c.indexes.filter fun index => !(index.table = name && index.mentions column) }

def addConstraint (name constraintName : String) (check : Check) (c : Catalog) : Option Catalog :=
  match c.table? name with
  | none => none
  | some t =>
    if !t.hasConstraint constraintName && t.hasColumn check.column && t.rows.all check.passes then
      some (c.modify name (Table.addConstraint ⟨constraintName, .check check⟩))
    else none

def createIndex (ifNotExists : Bool) (index : Index) (c : Catalog) : Option Catalog :=
  match c.table? index.table with
  | none => none
  | some t =>
    if c.hasRelation index.name then if ifNotExists then some c else none
    else if (index.columns ++ index.whereNotNull.toList).all t.hasColumn then
      some { c with indexes := c.indexes ++ [index] }
    else none

def insert (now : Int) (onConflictDoNothing : Bool) (name : String) (values : Row) (c : Catalog) : Option Catalog :=
  match c.table? name with
  | none => none
  | some t =>
    let row := t.fill now values
    if values.all (fun value => t.hasColumn value.1) && t.accepts row && c.resolves t.toTableDef row then
      if t.conflicts row then if onConflictDoNothing then some c else none
      else some (c.modify name (Table.insertRow row))
    else none

def comment (name : String) (column : Option String) (c : Catalog) : Option Catalog :=
  match c.table? name with
  | none => none
  | some t => if column.toList.all t.hasColumn then some c else none

end Catalog

/-- A statement at a time; `none` is an error. -/
def exec (now : Int) : Statement → Catalog → Option Catalog
  | .createSchema => fun c => some { c with schema := true }
  | .dropSchema => Catalog.dropSchema
  | .createTable ifNotExists d => Catalog.createTable ifNotExists d
  | .dropTable name => Catalog.dropTable name
  | .addColumn ifNotExists name column checks => Catalog.addColumn now ifNotExists name column checks
  | .dropColumn name column => Catalog.dropColumn name column
  | .addConstraint name constraintName check => Catalog.addConstraint name constraintName check
  | .createIndex ifNotExists index => Catalog.createIndex ifNotExists index
  | .dropIndex name => fun c => some { c with indexes := c.indexes.filter (·.name ≠ name) }
  | .insert onConflictDoNothing name values => Catalog.insert now onConflictDoNothing name values
  | .comment name column => Catalog.comment name column

/-! ## Lookups -/

namespace Catalog
variable {c : Catalog} {name : String}

theorem name_of_table? {t : Table} (h : c.table? name = some t) : t.name = name := by
  have := List.find?_some h
  exact of_decide_eq_true this

theorem mem_of_table? {t : Table} (h : c.table? name = some t) : t ∈ c.tables := List.mem_of_find?_eq_some h

theorem table?_modify {f : Table → Table} (hf : ∀ t, (f t).name = t.name) (other : String) :
    (c.modify name f).table? other = if other = name then (c.table? name).map f else c.table? other := by
  obtain ⟨schema, tables, indexes⟩ := c
  unfold table? modify
  dsimp only
  induction tables with
  | nil => exact (ite_self _).symm
  | cons t tables ih =>
    have hname : (if t.name = name then f t else t).name = t.name := by
      split_ifs
      · exact hf t
      · rfl
    rw [List.map_cons, List.find?_cons, List.find?_cons, List.find?_cons, hname]
    by_cases hother : t.name = other
    · subst hother
      by_cases hhere : t.name = name <;> simp [hhere]
    · by_cases hhere : t.name = name
      · have hne : ¬ other = name := fun h => hother (hhere.trans h.symm)
        rw [if_neg hne] at ih
        simpa [hother, hne] using ih
      · simpa [hother, hhere] using ih

theorem table?_modify_self {f : Table → Table} (hf : ∀ t, (f t).name = t.name) {t : Table}
    (ht : c.table? name = some t) : (c.modify name f).table? name = some (f t) := by
  rw [table?_modify hf, if_pos rfl, ht, Option.map_some]

theorem table?_append (t : Table) (other : String) :
    Catalog.table? { c with tables := c.tables ++ [t] } other =
      (c.table? other).or (if t.name = other then some t else none) := by
  unfold table?
  rw [List.find?_append]
  by_cases h : t.name = other <;> simp [h]

end Catalog

/-! ## What a statement can do -/

section Cases
variable {c c' : Catalog} {name : String}

theorem createTable_cases {ifNotExists : Bool} {d : TableDef} (h : c.createTable ifNotExists d = some c') :
    (c.hasRelation d.name = true ∧ c' = c) ∨ (c.hasRelation d.name = false ∧ c.schema = true ∧
      c.keysExist d = true ∧ c' = { c with tables := c.tables ++ [⟨d, []⟩] }) := by
  unfold Catalog.createTable at h
  split_ifs at h with hrelation hexists hcan
  · exact Or.inl ⟨hrelation, (Option.some.inj h).symm⟩
  · obtain ⟨hschema, hkeys⟩ := Bool.and_eq_true_iff.mp hcan
    exact Or.inr ⟨Bool.eq_false_iff.mpr hrelation, hschema, hkeys, (Option.some.inj h).symm⟩

theorem dropTable_cases (h : c.dropTable name = some c') :
    c' = c ∨ (c.isReferenced name = false ∧ c' =
      { c with tables := c.tables.filter (·.name ≠ name), indexes := c.indexes.filter (·.table ≠ name) }) := by
  unfold Catalog.dropTable at h
  split_ifs at h with hnone hreferenced
  · exact Or.inl (Option.some.inj h).symm
  · exact Or.inr ⟨Bool.eq_false_iff.mpr hreferenced, (Option.some.inj h).symm⟩

theorem addColumn_cases {now : Int} {ifNotExists : Bool} {column : Column} {checks : List Constraint}
    (h : c.addColumn now ifNotExists name column checks = some c') : ∃ t, c.table? name = some t ∧
      ((t.hasColumn column.name = true ∧ c' = c) ∨ (t.hasColumn column.name = false ∧
        t.canAdd now column checks = true ∧ c' = c.modify name (Table.addColumn now column checks))) := by
  unfold Catalog.addColumn at h
  split at h
  · cases h
  next t ht =>
    refine ⟨t, ht, ?_⟩
    split_ifs at h with hcolumn hexists hcan
    · exact Or.inl ⟨hcolumn, (Option.some.inj h).symm⟩
    · exact Or.inr ⟨Bool.eq_false_iff.mpr hcolumn, hcan, (Option.some.inj h).symm⟩

theorem dropColumn_cases {column : String} (h : c.dropColumn name column = some c') :
    c' = c ∨ c' = { c.modify name (Table.dropColumn column) with
      indexes := c.indexes.filter fun index => !(index.table = name && index.mentions column) } := by
  unfold Catalog.dropColumn at h
  split at h
  · cases h
  · split_ifs at h
    · exact Or.inl (Option.some.inj h).symm
    · exact Or.inr (Option.some.inj h).symm

theorem addConstraint_cases {constraintName : String} {check : Check}
    (h : c.addConstraint name constraintName check = some c') : ∃ t, c.table? name = some t ∧
      t.hasConstraint constraintName = false ∧ t.hasColumn check.column = true ∧ t.rows.all check.passes = true ∧
        c' = c.modify name (Table.addConstraint ⟨constraintName, .check check⟩) := by
  unfold Catalog.addConstraint at h
  split at h
  · cases h
  next t ht =>
    split_ifs at h with hcan
    simp only [Bool.and_eq_true, Bool.not_eq_true'] at hcan
    exact ⟨t, ht, hcan.1.1, hcan.1.2, hcan.2, (Option.some.inj h).symm⟩

theorem createIndex_cases {ifNotExists : Bool} {index : Index} (h : c.createIndex ifNotExists index = some c') :
    ∃ t, c.table? index.table = some t ∧ ((c.hasRelation index.name = true ∧ c' = c) ∨
      (c.hasRelation index.name = false ∧ c' = { c with indexes := c.indexes ++ [index] })) := by
  unfold Catalog.createIndex at h
  split at h
  · cases h
  next t ht =>
    refine ⟨t, ht, ?_⟩
    split_ifs at h with hrelation hexists hcolumns
    · exact Or.inl ⟨hrelation, (Option.some.inj h).symm⟩
    · exact Or.inr ⟨Bool.eq_false_iff.mpr hrelation, (Option.some.inj h).symm⟩

theorem insert_cases {now : Int} {onConflictDoNothing : Bool} {values : Row}
    (h : c.insert now onConflictDoNothing name values = some c') : ∃ t, c.table? name = some t ∧
      t.accepts (t.fill now values) = true ∧ ((t.conflicts (t.fill now values) = true ∧ c' = c) ∨
        c' = c.modify name (Table.insertRow (t.fill now values))) := by
  unfold Catalog.insert at h
  split at h
  · cases h
  next t ht =>
    dsimp only at h
    split_ifs at h with haccepts hconflicts hnothing
    · simp only [Bool.and_eq_true] at haccepts
      exact ⟨t, ht, haccepts.1.2, Or.inl ⟨hconflicts, (Option.some.inj h).symm⟩⟩
    · simp only [Bool.and_eq_true] at haccepts
      exact ⟨t, ht, haccepts.1.2, Or.inr (Option.some.inj h).symm⟩

theorem comment_eq {column : Option String} (h : c.comment name column = some c') : c' = c := by
  unfold Catalog.comment at h
  split at h
  · cases h
  · split_ifs at h
    exact (Option.some.inj h).symm

theorem dropSchema_cases (h : c.dropSchema = some c') :
    (c.schema = true → c.tables = []) ∧ c' = { c with schema := false } := by
  unfold Catalog.dropSchema at h
  split_ifs at h with hcan
  refine ⟨fun hschema => ?_, (Option.some.inj h).symm⟩
  simpa [hschema] using hcan

end Cases

/-! ## When a statement succeeds -/

section Succeeds
variable {c : Catalog}

theorem createTable_ok {d : TableDef} (hschema : c.schema = true) (hkeys : c.keysExist d = true) :
    ∃ c', c.createTable true d = some c' := by
  unfold Catalog.createTable
  by_cases hrelation : c.hasRelation d.name = true
  · exact ⟨c, if_pos hrelation⟩
  · rw [if_neg hrelation, hschema, hkeys]
    exact ⟨_, rfl⟩

theorem addColumn_ok {now : Int} {name : String} {column : Column} {checks : List Constraint} {t : Table}
    (ht : c.table? name = some t) (hadd : t.canAdd now column checks = true) :
    ∃ c', c.addColumn now true name column checks = some c' := by
  unfold Catalog.addColumn
  rw [ht]
  dsimp only
  by_cases hcolumn : t.hasColumn column.name = true
  · exact ⟨c, if_pos hcolumn⟩
  · rw [if_neg hcolumn, if_pos hadd]
    exact ⟨_, rfl⟩

theorem createIndex_ok {index : Index} {t : Table} (ht : c.table? index.table = some t)
    (hcolumns : (index.columns ++ index.whereNotNull.toList).all t.hasColumn = true) :
    ∃ c', c.createIndex true index = some c' := by
  unfold Catalog.createIndex
  rw [ht]
  dsimp only
  by_cases hrelation : c.hasRelation index.name = true
  · exact ⟨c, if_pos hrelation⟩
  · rw [if_neg hrelation, if_pos hcolumns]
    exact ⟨_, rfl⟩

theorem insert_ok {now : Int} {name : String} {values : Row} {t : Table} (ht : c.table? name = some t)
    (haccepts : (values.all (fun value => t.hasColumn value.1) && t.accepts (t.fill now values) &&
      c.resolves t.toTableDef (t.fill now values)) = true) : ∃ c', c.insert now true name values = some c' := by
  unfold Catalog.insert
  rw [ht]
  dsimp only
  rw [if_pos haccepts]
  by_cases hconflicts : t.conflicts (t.fill now values) = true
  · exact ⟨c, if_pos hconflicts⟩
  · rw [if_neg hconflicts]
    exact ⟨_, rfl⟩

/-! Without `IF NOT EXISTS` a creation is the same where the name is free, and fails where it is taken. -/

theorem createTable_false {d : TableDef} (h : c.hasRelation d.name = false) :
    c.createTable false d = c.createTable true d := by
  unfold Catalog.createTable
  rw [h]
  rfl

theorem createTable_false_eq_none {d : TableDef} (h : c.hasRelation d.name = true) :
    c.createTable false d = none := by
  unfold Catalog.createTable
  rw [h]
  rfl

theorem createIndex_false {index : Index} (h : c.hasRelation index.name = false) :
    c.createIndex false index = c.createIndex true index := by
  unfold Catalog.createIndex
  rw [h]
  rfl

theorem createIndex_false_eq_none {index : Index} (h : c.hasRelation index.name = true) :
    c.createIndex false index = none := by
  unfold Catalog.createIndex
  rw [h]
  cases c.table? index.table with
  | none => rfl
  | some t => rfl

end Succeeds

/-! ## Rows -/

theorem Row.value_mono {row row' : Row} {column : String} (hinit : row <+: row')
    (h : row.value column ≠ .null) : row'.value column = row.value column := by
  obtain ⟨more, rfl⟩ := hinit
  unfold Row.value at h ⊢
  rw [List.lookup_append]
  cases hlookup : row.lookup column with
  | none =>
    rw [hlookup] at h
    exact absurd rfl h
  | some value => rfl

theorem Row.value_append (row more : Row) (column : String) :
    Row.value (row ++ more) column = ((row.lookup column).or (more.lookup column)).getD .null := by
  rw [Row.value, List.lookup_append]

theorem Row.value_filter_self (row : Row) (column : String) : Row.value (row.filter (·.1 ≠ column)) column = .null := by
  have hnone : List.lookup column (row.filter (·.1 ≠ column)) = none := by
    refine List.lookup_eq_none_iff.mpr fun pair hmem => ?_
    have hne : pair.1 ≠ column := of_decide_eq_true (List.mem_filter.mp hmem).2
    exact bne_iff_ne.mpr hne.symm
  rw [Row.value, hnone]
  rfl

theorem Row.value_filter_of_ne (row : Row) {column other : String} (h : other ≠ column) :
    Row.value (row.filter (·.1 ≠ column)) other = row.value other := by
  unfold Row.value
  congr 1
  induction row with
  | nil => rfl
  | cons pair row ih =>
    obtain ⟨key, value⟩ := pair
    by_cases hkey : key = column
    · have hother : (other == key) = false := beq_eq_false_iff_ne.mpr fun heq => h (heq.trans hkey)
      rw [List.filter_cons_of_neg (by simpa using hkey), ih, List.lookup_cons, hother]
    · rw [List.filter_cons_of_pos (by simpa using hkey), List.lookup_cons, List.lookup_cons, ih]

/-! ## Growth -/

/-- The rows are there, in their places, with the values they had. -/
def RowsKept (rows rows' : List Row) : Prop :=
  ∀ (i : Nat) (row : Row), rows[i]? = some row → ∃ row', rows'[i]? = some row' ∧ row <+: row'

theorem RowsKept.refl (rows : List Row) : RowsKept rows rows := fun _ row h => ⟨row, h, List.prefix_rfl⟩

theorem RowsKept.trans {a b c : List Row} (hab : RowsKept a b) (hbc : RowsKept b c) : RowsKept a c := by
  intro i row h
  obtain ⟨row', h', hinit⟩ := hab i row h
  obtain ⟨row'', h'', hinit'⟩ := hbc i row' h'
  exact ⟨row'', h'', hinit.trans hinit'⟩

theorem RowsKept.map_append (rows : List Row) (more : Row) : RowsKept rows (rows.map (· ++ more)) := by
  intro i row h
  exact ⟨row ++ more, by rw [List.getElem?_map, h, Option.map_some], List.prefix_append row more⟩

theorem RowsKept.append (rows more : List Row) : RowsKept rows (rows ++ more) := by
  intro i row h
  refine ⟨row, ?_, List.prefix_rfl⟩
  rw [List.getElem?_append_left (List.getElem?_eq_some_iff.mp h).1, h]

/-- A table has the columns, the constraints and the rows of another. -/
structure Table.Grows (t t' : Table) : Prop where
  columns : t.columns <+: t'.columns
  constraints : t.constraints <+: t'.constraints
  rows : RowsKept t.rows t'.rows

theorem Table.Grows.refl (t : Table) : t.Grows t := ⟨List.prefix_rfl, List.prefix_rfl, .refl _⟩

theorem Table.Grows.trans {a b c : Table} (hab : a.Grows b) (hbc : b.Grows c) : a.Grows c :=
  ⟨hab.columns.trans hbc.columns, hab.constraints.trans hbc.constraints, hab.rows.trans hbc.rows⟩

/-- A catalog has all of another. -/
structure Grows (c c' : Catalog) : Prop where
  schema : c.schema = true → c'.schema = true
  tables : ∀ name t, c.table? name = some t → ∃ t', c'.table? name = some t' ∧ t.Grows t'
  indexes : ∀ index ∈ c.indexes, index ∈ c'.indexes

theorem Grows.refl (c : Catalog) : Grows c c := ⟨id, fun _ t h => ⟨t, h, .refl t⟩, fun _ => id⟩

theorem Grows.trans {a b c : Catalog} (hab : Grows a b) (hbc : Grows b c) : Grows a c where
  schema h := hbc.schema (hab.schema h)
  tables name t h := by
    obtain ⟨t', h', hgrows⟩ := hab.tables name t h
    obtain ⟨t'', h'', hgrows'⟩ := hbc.tables name t' h'
    exact ⟨t'', h'', hgrows.trans hgrows'⟩
  indexes index h := hbc.indexes index (hab.indexes index h)

theorem hasRelation_mono {c c' : Catalog} (hgrows : Grows c c') {name : String}
    (h : c.hasRelation name = true) : c'.hasRelation name = true := by
  rcases Bool.or_eq_true_iff.mp h with htable | hindex
  · obtain ⟨t, ht⟩ := Option.isSome_iff_exists.mp htable
    obtain ⟨t', ht', -⟩ := hgrows.tables name t ht
    exact Bool.or_eq_true_iff.mpr (Or.inl (Option.isSome_iff_exists.mpr ⟨t', ht'⟩))
  · obtain ⟨index, hmem, hname⟩ := List.any_eq_true.mp hindex
    exact Bool.or_eq_true_iff.mpr (Or.inr (List.any_eq_true.mpr ⟨index, hgrows.indexes index hmem, hname⟩))

theorem Grows.modify {c : Catalog} {name : String} {f : Table → Table} (hname : ∀ t, (f t).name = t.name)
    (hgrows : ∀ t : Table, t.Grows (f t)) : Grows c (c.modify name f) where
  schema := id
  tables other t h := by
    rw [Catalog.table?_modify hname]
    split_ifs with heq
    · rw [← heq, h]
      exact ⟨f t, rfl, hgrows t⟩
    · exact ⟨t, h, .refl t⟩
  indexes _ := id

theorem Grows.append_table (c : Catalog) (t : Table) : Grows c { c with tables := c.tables ++ [t] } where
  schema := id
  tables other t' h := by
    rw [Catalog.table?_append, h]
    exact ⟨t', rfl, .refl t'⟩
  indexes _ := id

theorem Table.grows_addColumn (now : Int) (column : Column) (checks : List Constraint) (t : Table) :
    t.Grows (t.addColumn now column checks) :=
  ⟨List.prefix_append _ _, List.prefix_append _ _, .map_append _ _⟩

theorem Table.grows_addConstraint (constraint : Constraint) (t : Table) : t.Grows (t.addConstraint constraint) :=
  ⟨List.prefix_rfl, List.prefix_append _ _, .refl _⟩

theorem Table.grows_insertRow (row : Row) (t : Table) : t.Grows (t.insertRow row) :=
  ⟨List.prefix_rfl, List.prefix_rfl, .append _ _⟩

def Statement.additive : Statement → Bool
  | .createSchema => true
  | .createTable _ _ => true
  | .addColumn _ _ _ _ => true
  | .addConstraint _ _ _ => true
  | .createIndex _ _ => true
  | .insert _ _ _ => true
  | .comment _ _ => true
  | .dropSchema => false
  | .dropTable _ => false
  | .dropColumn _ _ => false
  | .dropIndex _ => false

/-- **Growth.** A statement that only adds leaves all that is there, the rows with their values. -/
theorem grows_exec {now : Int} {stmt : Statement} {c c' : Catalog} (hadditive : stmt.additive = true)
    (h : exec now stmt c = some c') : Grows c c' := by
  cases stmt with
  | createSchema =>
    obtain rfl := Option.some.inj h
    exact ⟨fun _ => rfl, fun _ t ht => ⟨t, ht, .refl t⟩, fun _ => id⟩
  | createTable ifNotExists d =>
    rcases createTable_cases h with ⟨-, rfl⟩ | ⟨-, -, -, rfl⟩
    · exact .refl _
    · exact .append_table c _
  | addColumn ifNotExists table column checks =>
    obtain ⟨t, -, ⟨-, rfl⟩ | ⟨-, -, rfl⟩⟩ := addColumn_cases h
    · exact .refl _
    · exact .modify (fun _ => rfl) (Table.grows_addColumn now column checks)
  | addConstraint table name check =>
    obtain ⟨t, -, -, -, -, rfl⟩ := addConstraint_cases h
    exact .modify (fun _ => rfl) (Table.grows_addConstraint _)
  | createIndex ifNotExists index =>
    obtain ⟨t, -, ⟨-, rfl⟩ | ⟨-, rfl⟩⟩ := createIndex_cases h
    · exact .refl _
    · exact ⟨id, fun _ t ht => ⟨t, ht, .refl t⟩, fun _ hmem => List.mem_append_left _ hmem⟩
  | insert onConflictDoNothing table values =>
    obtain ⟨t, -, -, ⟨-, rfl⟩ | rfl⟩ := insert_cases h
    · exact .refl _
    · exact .modify (fun _ => rfl) (Table.grows_insertRow _)
  | comment table column =>
    rw [comment_eq h]
    exact .refl c
  | dropSchema => cases hadditive
  | dropTable name => cases hadditive
  | dropColumn table column => cases hadditive
  | dropIndex name => cases hadditive

end Ddl
