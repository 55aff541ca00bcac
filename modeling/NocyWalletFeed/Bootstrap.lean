import NocyWalletFeed.Schema

/-!
# Starting on any schema

* `Known`, `known_schemaAfter` : what migrations, `ensure_schema` and the program's rows can make of the schema;
* `EnsureStep.Achieved`, `exec_of_needs` : each step succeeds after the steps it needs, whatever else has happened;
* `ensureSchema_converges` : from every such schema `ensure_schema` succeeds, and arrives at the same tables.
-/

namespace NocyWalletFeed
open Ddl

/-! ## What the schema can be -/

def fixedTables : List TableDef :=
  [unshieldedAddressTable, blockMaxRegularTxTable, collapsedMerkleCacheTable, merkleCacheStateTable,
    zswapInputNullifiersTable, zswapNullifierCacheMarkerTable]

def ensuredTables : List TableDef :=
  [profileTable, unshieldedAddressTable, blockMaxRegularTxTable, collapsedMerkleCacheTable, merkleCacheStateTable]

def ensuredIndexes : List Index :=
  [updatedAtIndex, upstreamSessionIdIndex, unshieldedAddressIndex, collapsedMerkleCacheIndex]

def knownIndexes : List Index := ensuredIndexes ++ nullifierIndexes ++ [nullifierCacheMarkerIndex]

structure ProfileKnown (t : Table) : Prop where
  base : ∀ column ∈ [sessionIdColumn, dustPublicKeyColumn, updatedAtColumn], column ∈ t.columns
  columns : ∀ column ∈ t.columns, column ∈ profileTable.columns
  baseConstraints : ∀ constraint ∈ profileConstraints, constraint ∈ t.constraints
  constraints : ∀ constraint ∈ t.constraints, constraint ∈ profileTable.constraints
  rows : ∀ row ∈ t.rows, WritesRow row

def TableKnown (t : Table) : Prop :=
  if t.name = sessionProfile then ProfileKnown t else t.toTableDef ∈ fixedTables

structure Known (c : Catalog) : Prop where
  tables : ∀ t ∈ c.tables, TableKnown t
  indexes : ∀ index ∈ c.indexes, index ∈ knownIndexes

theorem known_empty : Known .empty := ⟨nofun, nofun⟩

theorem tableKnown_profile {t : Table} (hname : t.name = sessionProfile) : TableKnown t ↔ ProfileKnown t := by
  rw [TableKnown, if_pos hname]

theorem ProfileKnown.tableKnown {t : Table} (h : ProfileKnown t) (hname : t.name = sessionProfile) : TableKnown t :=
  (tableKnown_profile hname).mpr h

theorem tableKnown_fixed {t : Table} (hname : t.name ≠ sessionProfile) : TableKnown t ↔ t.toTableDef ∈ fixedTables := by
  rw [TableKnown, if_neg hname]

/-- The statements of the migrations and of `ensure_schema`, by what they can do to a table. -/
def Statement.listed : Statement → Bool
  | .createTable _ d =>
    d ∈ fixedTables || (d.name = sessionProfile && d.columns ⊆ profileTable.columns &&
      [sessionIdColumn, dustPublicKeyColumn, updatedAtColumn] ⊆ d.columns && profileConstraints ⊆ d.constraints &&
      d.constraints ⊆ profileTable.constraints)
  | .addColumn _ table column checks =>
    table = sessionProfile && column ∈ profileTable.columns && checks ⊆ profileTable.constraints &&
      column.default? ∈ [none, some (.literal (.text "enabled"))]
  | .dropColumn table column => table = sessionProfile && column ∈ ["upstream_session_id", "nullifier_streaming"]
  | .addConstraint table name check =>
    table = sessionProfile && (⟨name, .check check⟩ : Constraint) ∈ profileTable.constraints
  | .createIndex _ index => index ∈ knownIndexes
  | .insert _ table _ => table ≠ sessionProfile
  | .createSchema => true
  | .dropSchema => true
  | .dropTable _ => true
  | .dropIndex _ => true
  | .comment _ _ => true

theorem listed_migrations : migrationStatements.all Statement.listed = true := by decide

def EnsureStep.listed : EnsureStep → Bool
  | .run stmt => Statement.listed stmt
  | .addIfMissing table name check => Statement.listed (.addConstraint table name check)

theorem listed_ensure : ensureSteps.all EnsureStep.listed = true := by decide

/-! ## Statements keep it so -/

section Keeps
variable {c c' : Catalog}

theorem Known.modify (h : Known c) {name : String} {f : Table → Table}
    (hf : ∀ t : Table, t.name = name → TableKnown t → TableKnown (f t)) : Known (c.modify name f) where
  tables t ht := by
    obtain ⟨t, hmem, rfl⟩ := List.mem_map.mp ht
    split_ifs with heq
    · exact hf t heq (h.tables t hmem)
    · exact h.tables t hmem
  indexes := h.indexes

theorem tableKnown_insertRow {t : Table} (hname : t.name ≠ sessionProfile) (row : Row) (h : TableKnown t) :
    TableKnown (t.insertRow row) := by
  rw [tableKnown_fixed hname] at h
  rw [tableKnown_fixed (show (t.insertRow row).name ≠ sessionProfile from hname)]
  exact h

theorem WritesRow.append {row : Row} (h : WritesRow row) {column : String} {value : SqlValue}
    (hvalue : value = .null ∨ value = .text "enabled") : WritesRow (row ++ [(column, value)]) := by
  unfold WritesRow Check.passes at h ⊢
  rw [Row.value_append]
  rw [Row.value] at h
  cases hlookup : row.lookup nullifierStreamingCheck.column with
  | some found =>
    rw [hlookup] at h
    exact h
  | none =>
    cases hadded : ([(column, value)] : Row).lookup nullifierStreamingCheck.column with
    | none => rfl
    | some found =>
      obtain rfl : found = value := by
        rw [List.lookup_cons] at hadded
        split at hadded
        · exact (Option.some.inj hadded).symm
        · cases hadded
      rcases hvalue with rfl | rfl <;> rfl

theorem WritesRow.filter {row : Row} (h : WritesRow row) (column : String) :
    WritesRow (row.filter (·.1 ≠ column)) := by
  unfold WritesRow Check.passes at h ⊢
  by_cases hcolumn : nullifierStreamingCheck.column = column
  · rw [hcolumn, Row.value_filter_self]
  · rw [Row.value_filter_of_ne row hcolumn]
    exact h

theorem ProfileKnown.addColumn {t : Table} (h : ProfileKnown t) {now : Int} {column : Column}
    {checks : List Constraint} (hcolumn : column ∈ profileTable.columns)
    (hchecks : checks ⊆ profileTable.constraints)
    (hdefault : column.default? ∈ [none, some (.literal (.text "enabled"))]) :
    ProfileKnown (t.addColumn now column checks) where
  base other hmem := List.mem_append_left _ (h.base other hmem)
  columns other hmem := by
    rcases List.mem_append.mp hmem with hmem | hmem
    · exact h.columns other hmem
    · rw [List.mem_singleton.mp hmem]
      exact hcolumn
  baseConstraints constraint hmem := List.mem_append_left _ (h.baseConstraints constraint hmem)
  constraints constraint hmem := by
    rcases List.mem_append.mp hmem with hmem | hmem
    · exact h.constraints constraint hmem
    · exact hchecks hmem
  rows row hmem := by
    obtain ⟨row, hrow, rfl⟩ := List.mem_map.mp hmem
    refine (h.rows row hrow).append ?_
    unfold Column.defaultValue
    simp only [List.mem_cons, List.not_mem_nil, or_false] at hdefault
    rcases hdefault with heq | heq
    · rw [heq]
      exact Or.inl rfl
    · rw [heq]
      exact Or.inr rfl

theorem ProfileKnown.dropColumn {t : Table} (h : ProfileKnown t) {column : String}
    (hcolumn : column ∈ ["upstream_session_id", "nullifier_streaming"]) : ProfileKnown (t.dropColumn column) where
  base other hmem := by
    have hne : ∀ column ∈ ["upstream_session_id", "nullifier_streaming"],
        ∀ other ∈ [sessionIdColumn, dustPublicKeyColumn, updatedAtColumn], other.name ≠ column := by decide
    exact List.mem_filter.mpr ⟨h.base other hmem, decide_eq_true (hne column hcolumn other hmem)⟩
  columns other hmem := h.columns other (List.mem_of_mem_filter hmem)
  baseConstraints constraint hmem := by
    have hne : ∀ column ∈ ["upstream_session_id", "nullifier_streaming"],
        ∀ constraint ∈ profileConstraints, (!constraint.mentions column) = true := by decide
    exact List.mem_filter.mpr ⟨h.baseConstraints constraint hmem, hne column hcolumn constraint hmem⟩
  constraints constraint hmem := h.constraints constraint (List.mem_of_mem_filter hmem)
  rows row hmem := by
    obtain ⟨row, hrow, rfl⟩ := List.mem_map.mp hmem
    exact (h.rows row hrow).filter column

theorem ProfileKnown.addConstraint {t : Table} (h : ProfileKnown t) {constraint : Constraint}
    (hconstraint : constraint ∈ profileTable.constraints) : ProfileKnown (t.addConstraint constraint) where
  base := h.base
  columns := h.columns
  baseConstraints other hmem := List.mem_append_left _ (h.baseConstraints other hmem)
  constraints other hmem := by
    rcases List.mem_append.mp hmem with hmem | hmem
    · exact h.constraints other hmem
    · rw [List.mem_singleton.mp hmem]
      exact hconstraint
  rows := h.rows

theorem tableKnown_create {d : TableDef} {ifNotExists : Bool}
    (h : Statement.listed (.createTable ifNotExists d) = true) : TableKnown ⟨d, []⟩ := by
  have hfixed : ∀ d ∈ fixedTables, d.name ≠ sessionProfile := by decide
  simp only [Statement.listed, Bool.or_eq_true, Bool.and_eq_true, decide_eq_true_eq] at h
  rcases h with h | ⟨⟨⟨⟨hname, hcolumns⟩, hbase⟩, hbaseConstraints⟩, hconstraints⟩
  · exact (tableKnown_fixed (hfixed d h)).mpr h
  · exact (tableKnown_profile hname).mpr ⟨fun _ hmem => hbase hmem, fun _ hmem => hcolumns hmem,
      fun _ hmem => hbaseConstraints hmem, fun _ hmem => hconstraints hmem, nofun⟩

/-- **Statements** of the migrations and of `ensure_schema` make nothing else of the schema. -/
theorem known_exec {now : Int} {stmt : Statement} (hlisted : Statement.listed stmt = true) (h : Known c)
    (hexec : exec now stmt c = some c') : Known c' := by
  cases stmt with
  | createSchema =>
    obtain rfl := Option.some.inj hexec
    exact ⟨h.tables, h.indexes⟩
  | dropSchema =>
    obtain ⟨-, rfl⟩ := dropSchema_cases hexec
    exact ⟨h.tables, h.indexes⟩
  | createTable ifNotExists d =>
    rcases createTable_cases hexec with ⟨-, rfl⟩ | ⟨-, -, -, rfl⟩
    · exact h
    · refine ⟨fun t ht => ?_, h.indexes⟩
      rcases List.mem_append.mp ht with ht | ht
      · exact h.tables t ht
      · rw [List.mem_singleton.mp ht]
        exact tableKnown_create hlisted
  | dropTable name =>
    rcases dropTable_cases hexec with rfl | ⟨-, rfl⟩
    · exact h
    · exact ⟨fun t ht => h.tables t (List.mem_of_mem_filter ht),
        fun index hindex => h.indexes index (List.mem_of_mem_filter hindex)⟩
  | addColumn ifNotExists table column checks =>
    obtain ⟨t, -, ⟨-, rfl⟩ | ⟨-, -, rfl⟩⟩ := addColumn_cases hexec
    · exact h
    · simp only [Statement.listed, Bool.and_eq_true, decide_eq_true_eq] at hlisted
      obtain ⟨⟨⟨rfl, hcolumn⟩, hchecks⟩, hdefault⟩ := hlisted
      refine h.modify fun t hname ht => ?_
      exact (((tableKnown_profile hname).mp ht).addColumn hcolumn hchecks hdefault).tableKnown hname
  | dropColumn table column =>
    rcases dropColumn_cases hexec with rfl | rfl
    · exact h
    · simp only [Statement.listed, Bool.and_eq_true, decide_eq_true_eq] at hlisted
      obtain ⟨rfl, hcolumn⟩ := hlisted
      have hmodify : Known (c.modify sessionProfile (Table.dropColumn column)) :=
        h.modify fun t hname ht =>
          (((tableKnown_profile hname).mp ht).dropColumn hcolumn).tableKnown hname
      exact ⟨hmodify.tables, fun index hindex => h.indexes index (List.mem_of_mem_filter hindex)⟩
  | addConstraint table name check =>
    obtain ⟨t, -, -, -, -, rfl⟩ := addConstraint_cases hexec
    simp only [Statement.listed, Bool.and_eq_true, decide_eq_true_eq] at hlisted
    obtain ⟨rfl, hconstraint⟩ := hlisted
    exact h.modify fun t hname ht =>
      (((tableKnown_profile hname).mp ht).addConstraint hconstraint).tableKnown hname
  | createIndex ifNotExists index =>
    obtain ⟨t, -, ⟨-, rfl⟩ | ⟨-, rfl⟩⟩ := createIndex_cases hexec
    · exact h
    · refine ⟨h.tables, fun other hother => ?_⟩
      rcases List.mem_append.mp hother with hother | hother
      · exact h.indexes other hother
      · rw [List.mem_singleton.mp hother]
        exact of_decide_eq_true hlisted
  | dropIndex name =>
    obtain rfl := Option.some.inj hexec
    exact ⟨h.tables, fun index hindex => h.indexes index (List.mem_of_mem_filter hindex)⟩
  | insert onConflictDoNothing table values =>
    obtain ⟨t, -, -, ⟨-, rfl⟩ | rfl⟩ := insert_cases hexec
    · exact h
    · have hne : table ≠ sessionProfile := of_decide_eq_true hlisted
      exact h.modify fun t hname ht => tableKnown_insertRow (hname.trans_ne hne) _ ht
  | comment table column =>
    rw [comment_eq hexec]
    exact h

theorem known_addConstraint {table name : String} {check : Check}
    (hlisted : Statement.listed (.addConstraint table name check) = true) (h : Known c)
    (hexec : c.addConstraint table name check = some c') : Known c' := by
  have hstmt : exec 0 (.addConstraint table name check) c = some c' := hexec
  exact known_exec hlisted h hstmt

theorem addConstraintIfMissing_cases {table name : String} {check : Check}
    (h : addConstraintIfMissing table name check c = some c') :
    (constraintExists c table name = some true ∧ c' = c) ∨
      (constraintExists c table name = some false ∧ c.addConstraint table name check = some c') := by
  unfold addConstraintIfMissing at h
  split at h
  · cases h
  next hexists => exact Or.inl ⟨hexists, (Option.some.inj h).symm⟩
  next hexists => exact Or.inr ⟨hexists, h⟩

theorem known_ensureStep {now : Int} {step : EnsureStep} (hlisted : step.listed = true) (h : Known c)
    (hexec : step.exec now c = some c') : Known c' := by
  cases step with
  | run stmt => exact known_exec hlisted h hexec
  | addIfMissing table name check =>
    rcases addConstraintIfMissing_cases hexec with ⟨-, rfl⟩ | ⟨-, hadd⟩
    · exact h
    · exact known_addConstraint hlisted h hadd

theorem Known.write (h : Known c) {table : String} {rows : List Row} (hrows : ∀ row ∈ rows, WritesRow row) :
    Known (c.modify table fun t => { t with rows := rows }) := by
  refine h.modify fun t hname ht => ?_
  by_cases hprofile : t.name = sessionProfile
  · obtain ⟨hbase, hcolumns, hbaseConstraints, hconstraints, -⟩ := (tableKnown_profile hprofile).mp ht
    exact ProfileKnown.tableKnown ⟨hbase, hcolumns, hbaseConstraints, hconstraints, hrows⟩ hprofile
  · exact (tableKnown_fixed (t := { t with rows := rows }) hprofile).mpr ((tableKnown_fixed hprofile).mp ht)

/-- **Step.** A turn makes nothing else of the schema. -/
theorem known_schemaStep (h : Known c) (turn : SchemaTurn) : Known (schemaStep c turn) := by
  cases turn with
  | migrate now stmt =>
    simp only [schemaStep]
    split_ifs with hmem
    · cases hexec : exec now stmt c with
      | none => exact h
      | some c' => exact known_exec (List.all_eq_true.mp listed_migrations stmt hmem) h hexec
    · exact h
  | ensure now step =>
    simp only [schemaStep]
    split_ifs with hmem
    · cases hexec : step.exec now c with
      | none => exact h
      | some c' => exact known_ensureStep (List.all_eq_true.mp listed_ensure step hmem) h hexec
    · exact h
  | write table rows =>
    simp only [schemaStep]
    split_ifs with hrows
    · exact h.write hrows
    · exact h

end Keeps

/-- **Run.** Whatever has happened to an empty database. -/
theorem known_schemaAfter (turns : List SchemaTurn) : Known (schemaAfter turns) := by
  have hrun : ∀ c, Known c → Known (turns.foldl schemaStep c) := by
    induction turns with
    | nil => exact fun c h => h
    | cons turn turns ih => exact fun c h => ih _ (known_schemaStep h turn)
  exact hrun _ known_empty

/-! ## What a step achieves -/

def EnsureStep.Achieved (c : Catalog) : EnsureStep → Prop
  | .run (.createTable _ d) => ∃ t, c.table? d.name = some t
  | .run (.addColumn _ table column _) => ∃ t, c.table? table = some t ∧ t.hasColumn column.name = true
  | .addIfMissing table name _ => ∃ t, c.table? table = some t ∧ t.hasConstraint name = true
  | .run (.createIndex _ index) => index ∈ c.indexes
  | .run (.insert _ table _) => ∃ t, c.table? table = some t ∧ ∃ row ∈ t.rows, row.value "id" = .int 1
  | .run _ => c.schema = true

def EnsureStep.needs : EnsureStep → List EnsureStep
  | .run (.createTable _ d) =>
    .run .createSchema ::
      if d = unshieldedAddressTable then [.run (.createTable true profileTable)] else []
  | .run (.addColumn _ _ _ _) => [.run (.createTable true profileTable)]
  | .addIfMissing _ _ _ =>
    [.run (.createTable true profileTable), .run (.addColumn true sessionProfile nullifierStreamingColumn [])]
  | .run (.createIndex _ index) =>
    ensureSteps.filter fun
      | .run (.createTable _ d) => d.name = index.table
      | .run (.addColumn _ table column _) => table = index.table && index.mentions column.name
      | _ => false
  | .run (.insert _ table _) =>
    ensureSteps.filter fun
      | .run (.createTable _ d) => d.name = table
      | _ => false
  | .run _ => []

/-- Each step comes after those it relies on. -/
theorem needs_before : ∀ i ∈ List.range ensureSteps.length, ∀ step ∈ ensureSteps[i]?,
    step.needs ⊆ ensureSteps.take i := by decide

theorem needs_subset {pre post : List EnsureStep} {step : EnsureStep} (h : ensureSteps = pre ++ step :: post) :
    step.needs ⊆ pre := by
  have hlt : pre.length ∈ List.range ensureSteps.length := by
    rw [List.mem_range, h, List.length_append, List.length_cons]
    omega
  have hget : ensureSteps[pre.length]? = some step := by
    rw [h, List.getElem?_append_right (Nat.le_refl _), Nat.sub_self, List.getElem?_cons_zero]
  have htake : ensureSteps.take pre.length = pre := by
    rw [h, List.take_left]
  have := needs_before pre.length hlt step hget
  rwa [htake] at this

section Achieved
variable {c c' : Catalog}

theorem hasColumn_mono {d d' : TableDef} (h : d.columns <+: d'.columns) {name : String}
    (hcolumn : d.hasColumn name = true) : d'.hasColumn name = true := by
  obtain ⟨column, hmem, hname⟩ := List.any_eq_true.mp hcolumn
  exact List.any_eq_true.mpr ⟨column, h.subset hmem, hname⟩

theorem hasConstraint_mono {d d' : TableDef} (h : d.constraints <+: d'.constraints) {name : String}
    (hconstraint : d.hasConstraint name = true) : d'.hasConstraint name = true := by
  obtain ⟨constraint, hmem, hname⟩ := List.any_eq_true.mp hconstraint
  exact List.any_eq_true.mpr ⟨constraint, h.subset hmem, hname⟩

/-- What a step has achieved stays while the schema only grows. -/
theorem EnsureStep.Achieved.grows {step : EnsureStep} (h : step.Achieved c) (hgrows : Grows c c') :
    step.Achieved c' := by
  cases step with
  | addIfMissing table name check =>
    obtain ⟨t, ht, hconstraint⟩ := h
    obtain ⟨t', ht', htable⟩ := hgrows.tables table t ht
    exact ⟨t', ht', hasConstraint_mono htable.constraints hconstraint⟩
  | run stmt =>
    cases stmt with
    | createTable ifNotExists d =>
      obtain ⟨t, ht⟩ := h
      obtain ⟨t', ht', -⟩ := hgrows.tables d.name t ht
      exact ⟨t', ht'⟩
    | addColumn ifNotExists table column checks =>
      obtain ⟨t, ht, hcolumn⟩ := h
      obtain ⟨t', ht', htable⟩ := hgrows.tables table t ht
      exact ⟨t', ht', hasColumn_mono htable.columns hcolumn⟩
    | createIndex ifNotExists index => exact hgrows.indexes index h
    | insert onConflictDoNothing table values =>
      obtain ⟨t, ht, row, hrow, hid⟩ := h
      obtain ⟨t', ht', htable⟩ := hgrows.tables table t ht
      obtain ⟨i, hi⟩ := List.getElem?_of_mem hrow
      obtain ⟨row', hrow', hinit⟩ := htable.rows i row hi
      refine ⟨t', ht', row', List.mem_of_getElem? hrow', ?_⟩
      rw [Row.value_mono hinit (by rw [hid]; exact SqlValue.noConfusion), hid]
    | _ => exact hgrows.schema h

theorem Known.of_table? (h : Known c) {name : String} {t : Table} (ht : c.table? name = some t) : TableKnown t :=
  h.tables t (Catalog.mem_of_table? ht)

theorem Known.profile (h : Known c) {t : Table} (ht : c.table? sessionProfile = some t) : ProfileKnown t :=
  (tableKnown_profile (Catalog.name_of_table? ht)).mp (h.of_table? ht)

theorem Known.fixed (h : Known c) {d : TableDef} (hd : d ∈ fixedTables) {t : Table}
    (ht : c.table? d.name = some t) : t.toTableDef = d := by
  have hprofile : ∀ d ∈ fixedTables, d.name ≠ sessionProfile := by decide
  have hinj : ∀ d ∈ fixedTables, ∀ d' ∈ fixedTables, d.name = d'.name → d = d' := by decide
  have hname := Catalog.name_of_table? ht
  have hmem := (tableKnown_fixed (hname.trans_ne (hprofile d hd))).mp (h.of_table? ht)
  exact hinj _ hmem d hd hname

theorem Known.isSome_of_hasRelation (h : Known c) {d : TableDef} (hd : d ∈ ensuredTables)
    (hrelation : c.hasRelation d.name = true) : ∃ t, c.table? d.name = some t := by
  have hne : ∀ d ∈ ensuredTables, ∀ index ∈ knownIndexes, index.name ≠ d.name := by decide
  rcases Bool.or_eq_true_iff.mp hrelation with hsome | hindex
  · exact Option.isSome_iff_exists.mp hsome
  · obtain ⟨index, hmem, hname⟩ := List.any_eq_true.mp hindex
    exact absurd (of_decide_eq_true hname) (hne d hd index (h.indexes index hmem))

theorem Known.index_of_hasRelation (h : Known c) {index : Index} (hindex : index ∈ knownIndexes)
    (hrelation : c.hasRelation index.name = true) : index ∈ c.indexes := by
  have hne : ∀ index ∈ knownIndexes, index.name ≠ sessionProfile ∧ ∀ d ∈ fixedTables, index.name ≠ d.name := by decide
  have hinj : ∀ index ∈ knownIndexes, ∀ other ∈ knownIndexes, other.name = index.name → other = index := by decide
  rcases Bool.or_eq_true_iff.mp hrelation with hsome | hany
  · obtain ⟨t, ht⟩ := Option.isSome_iff_exists.mp hsome
    have hname := Catalog.name_of_table? ht
    obtain ⟨hprofile, hfixed⟩ := hne index hindex
    have hmem := (tableKnown_fixed (hname.trans_ne hprofile)).mp (h.of_table? ht)
    exact absurd hname.symm (hfixed _ hmem)
  · obtain ⟨other, hmem, hname⟩ := List.any_eq_true.mp hany
    rwa [← hinj index hindex other (h.indexes other hmem) (of_decide_eq_true hname)]

/-! ## Steps succeed -/

theorem achieves_createTable (h : Known c) {d : TableDef} (hd : d ∈ ensuredTables) (hschema : c.schema = true)
    (hkeys : c.keysExist d = true) : ∃ c', c.createTable true d = some c' ∧
      (EnsureStep.run (.createTable true d)).Achieved c' := by
  obtain ⟨c', hc'⟩ := createTable_ok hschema hkeys
  refine ⟨c', hc', ?_⟩
  rcases createTable_cases hc' with ⟨hrelation, rfl⟩ | ⟨-, -, -, rfl⟩
  · exact h.isSome_of_hasRelation hd hrelation
  · show ∃ t, Catalog.table? { c with tables := c.tables ++ [⟨d, []⟩] } d.name = some t
    rw [Catalog.table?_append]
    cases c.table? d.name with
    | none => exact ⟨⟨d, []⟩, if_pos rfl⟩
    | some t => exact ⟨t, rfl⟩

theorem achieves_addColumn {now : Int} {name : String} {column : Column} {t : Table} (ht : c.table? name = some t)
    (hdefault : (!column.notNull || column.defaultValue now ≠ .null) = true) :
    ∃ c', c.addColumn now true name column [] = some c' ∧
      (EnsureStep.run (.addColumn true name column [])).Achieved c' := by
  have hadd : t.canAdd now column [] = true := by
    unfold Table.canAdd
    rw [Bool.and_eq_true_iff, List.all_eq_true]
    refine ⟨?_, fun _ _ => rfl⟩
    rcases Bool.or_eq_true_iff.mp hdefault with h | h
    · rw [h]
      rfl
    · rw [h, Bool.or_true]
  obtain ⟨c', hc'⟩ := addColumn_ok ht hadd
  refine ⟨c', hc', ?_⟩
  obtain ⟨t', ht', ⟨hcolumn, rfl⟩ | ⟨-, -, rfl⟩⟩ := addColumn_cases hc'
  · exact ⟨t', ht', hcolumn⟩
  · refine ⟨t'.addColumn now column [], ?_, ?_⟩
    · exact Catalog.table?_modify_self (f := Table.addColumn now column []) (fun _ => rfl) ht'
    · exact List.any_eq_true.mpr ⟨column, List.mem_append_right _ (List.mem_singleton_self column),
        decide_eq_true rfl⟩

theorem achieves_addIfMissing {name constraintName : String} {check : Check} {t : Table}
    (ht : c.table? name = some t) (hcolumn : t.hasColumn check.column = true) (hrows : t.rows.all check.passes = true) :
    ∃ c', addConstraintIfMissing name constraintName check c = some c' ∧
      (EnsureStep.addIfMissing name constraintName check).Achieved c' := by
  unfold addConstraintIfMissing
  rw [constraintExists, ht, Option.map_some]
  cases hconstraint : t.hasConstraint constraintName with
  | true => exact ⟨c, rfl, t, ht, hconstraint⟩
  | false =>
    refine ⟨c.modify name (Table.addConstraint ⟨constraintName, .check check⟩), ?_,
      t.addConstraint ⟨constraintName, .check check⟩, ?_, ?_⟩
    · dsimp only
      unfold Catalog.addConstraint
      rw [ht]
      dsimp only
      rw [hconstraint, hcolumn, hrows]
      rfl
    · exact Catalog.table?_modify_self (f := Table.addConstraint ⟨constraintName, .check check⟩) (fun _ => rfl) ht
    · exact List.any_eq_true.mpr ⟨⟨constraintName, .check check⟩,
        List.mem_append_right _ (List.mem_singleton_self _), decide_eq_true rfl⟩

theorem achieves_createIndex (h : Known c) {index : Index} (hindex : index ∈ knownIndexes) {t : Table}
    (ht : c.table? index.table = some t)
    (hcolumns : (index.columns ++ index.whereNotNull.toList).all t.hasColumn = true) :
    ∃ c', c.createIndex true index = some c' ∧ (EnsureStep.run (.createIndex true index)).Achieved c' := by
  obtain ⟨c', hc'⟩ := createIndex_ok ht hcolumns
  refine ⟨c', hc', ?_⟩
  obtain ⟨-, -, ⟨hrelation, rfl⟩ | ⟨-, rfl⟩⟩ := createIndex_cases hc'
  · exact h.index_of_hasRelation hindex hrelation
  · exact List.mem_append_right _ (List.mem_singleton_self index)

/-- The row of the singleton table, at the time of the statement. -/
def stateRow (now : Int) : Row := merkleCacheStateTable.fill now stateValues

/-- A row that is in the way of the singleton is the singleton. -/
theorem id_of_conflicts {now : Int} {t : Table} (hdef : t.toTableDef = merkleCacheStateTable)
    (h : t.conflicts (stateRow now) = true) : ∃ row ∈ t.rows, row.value "id" = .int 1 := by
  obtain ⟨d, rows⟩ := t
  obtain rfl : d = merkleCacheStateTable := hdef
  obtain ⟨constraint, hmem, hconflict⟩ := List.any_eq_true.mp h
  rcases List.mem_cons.mp hmem with rfl | hmem
  · obtain ⟨row, hrow, hkey⟩ := List.any_eq_true.mp hconflict
    exact ⟨row, hrow, of_decide_eq_true (List.all_eq_true.mp hkey "id" List.mem_cons_self)⟩
  · rw [List.mem_singleton.mp hmem] at hconflict
    cases hconflict

theorem accepts_state {now : Int} {t : Table} (hdef : t.toTableDef = merkleCacheStateTable) :
    (stateValues.all (fun value => t.hasColumn value.1) && t.accepts (t.fill now stateValues) &&
      c.resolves t.toTableDef (t.fill now stateValues)) = true := by
  rw [hdef]
  rfl

theorem achieves_insert {now : Int} {t : Table} (ht : c.table? merkleCacheState = some t)
    (hdef : t.toTableDef = merkleCacheStateTable) : ∃ c', c.insert now true merkleCacheState stateValues = some c' ∧
      (EnsureStep.run (.insert true merkleCacheState stateValues)).Achieved c' := by
  obtain ⟨c', hc'⟩ := insert_ok ht (accepts_state hdef)
  refine ⟨c', hc', ?_⟩
  obtain ⟨t', ht', -, ⟨hconflicts, rfl⟩ | rfl⟩ := insert_cases hc'
  · obtain rfl := Option.some.inj (ht.symm.trans ht')
    rw [hdef] at hconflicts
    exact ⟨t, ht, id_of_conflicts hdef hconflicts⟩
  · obtain rfl := Option.some.inj (ht.symm.trans ht')
    refine ⟨t.insertRow (t.fill now stateValues), ?_, t.fill now stateValues,
      List.mem_append_right _ (List.mem_singleton_self _), ?_⟩
    · exact Catalog.table?_modify_self (f := Table.insertRow (t.fill now stateValues)) (fun _ => rfl) ht
    · rw [hdef]
      rfl

end Achieved

/-! ## `ensure_schema` succeeds -/

section Ensure
variable {c : Catalog}

theorem isKey_profile {t : Table} (h : ProfileKnown t) : t.isKey ["session_id"] = true :=
  List.any_eq_true.mpr ⟨primaryKeyOf sessionProfile ["session_id"], h.baseConstraints _ List.mem_cons_self,
    decide_eq_true rfl⟩

/-- The foreign keys of the tables `ensure_schema` creates refer to the key of `session_profile`. -/
theorem keysExist_of_needs (h : Known c) {d : TableDef} (hd : d ∈ ensuredTables)
    (hneeds : ∀ s ∈ (EnsureStep.run (.createTable true d)).needs, s.Achieved c) : c.keysExist d = true := by
  simp only [ensuredTables, List.mem_cons, List.not_mem_nil, or_false] at hd
  rcases hd with rfl | rfl | rfl | rfl | rfl
  · rfl
  · obtain ⟨t, ht⟩ := hneeds (.run (.createTable true profileTable)) (by decide)
    have hkey : (c.table? sessionProfile).any (·.isKey ["session_id"]) = true := by
      rw [show c.table? sessionProfile = some t from ht]
      exact isKey_profile (h.profile ht)
    refine List.all_eq_true.mpr fun constraint hmem => ?_
    simp only [unshieldedAddressTable, List.mem_cons, List.not_mem_nil, or_false] at hmem
    rcases hmem with rfl | rfl | rfl
    · rfl
    · rfl
    · exact hkey
  · rfl
  · rfl
  · rfl

theorem columns_of_needs (h : Known c) {index : Index} (hindex : index ∈ ensuredIndexes)
    (hneeds : ∀ s ∈ (EnsureStep.run (.createIndex true index)).needs, s.Achieved c) :
    ∃ t, c.table? index.table = some t ∧ (index.columns ++ index.whereNotNull.toList).all t.hasColumn = true := by
  have hfixed : ∀ d ∈ fixedTables, ∀ t : Table, c.table? d.name = some t → ∀ column,
      d.hasColumn column = true → t.hasColumn column = true := by
    intro d hd t ht column hcolumn
    rwa [← h.fixed hd ht] at hcolumn
  simp only [ensuredIndexes, List.mem_cons, List.not_mem_nil, or_false] at hindex
  rcases hindex with rfl | rfl | rfl | rfl
  · obtain ⟨t, ht⟩ := hneeds (.run (.createTable true profileTable)) (by decide)
    refine ⟨t, ht, List.all_eq_true.mpr fun column hcolumn => ?_⟩
    rw [List.mem_singleton.mp hcolumn]
    exact List.any_eq_true.mpr ⟨updatedAtColumn, (h.profile ht).base _ (by decide), decide_eq_true rfl⟩
  · obtain ⟨t, ht, hupstream⟩ := hneeds (.run (.addColumn true sessionProfile upstreamSessionIdColumn [])) (by decide)
    refine ⟨t, ht, List.all_eq_true.mpr fun column hcolumn => ?_⟩
    have hnames : ∀ column ∈ upstreamSessionIdIndex.columns ++ upstreamSessionIdIndex.whereNotNull.toList,
        column = upstreamSessionIdColumn.name := by decide
    rwa [hnames column hcolumn]
  · obtain ⟨t, ht⟩ := hneeds (.run (.createTable true unshieldedAddressTable)) (by decide)
    refine ⟨t, ht, List.all_eq_true.mpr fun column hcolumn => ?_⟩
    rw [List.mem_singleton.mp hcolumn]
    exact hfixed unshieldedAddressTable (by decide) t ht _ (by decide)
  · obtain ⟨t, ht⟩ := hneeds (.run (.createTable true collapsedMerkleCacheTable)) (by decide)
    refine ⟨t, ht, List.all_eq_true.mpr fun column hcolumn => ?_⟩
    rw [List.mem_singleton.mp hcolumn]
    exact hfixed collapsedMerkleCacheTable (by decide) t ht _ (by decide)

theorem mem_ensureSteps_cases {step : EnsureStep} (h : step ∈ ensureSteps) :
    step = .run .createSchema ∨ (∃ d ∈ ensuredTables, step = .run (.createTable true d)) ∨
      (∃ column ∈ [upstreamSessionIdColumn, nullifierStreamingColumn],
        step = .run (.addColumn true sessionProfile column [])) ∨
      step = .addIfMissing sessionProfile nullifierStreamingConstraint.name nullifierStreamingCheck ∨
      (∃ index ∈ ensuredIndexes, step = .run (.createIndex true index)) ∨
      step = .run (.insert true merkleCacheState stateValues) := by
  revert step
  decide

/-- **Step.** A step of `ensure_schema` succeeds after the steps it needs. -/
theorem exec_of_needs (h : Known c) {step : EnsureStep} (hstep : step ∈ ensureSteps)
    (hneeds : ∀ s ∈ step.needs, s.Achieved c) (now : Int) : ∃ c', step.exec now c = some c' ∧ step.Achieved c' := by
  rcases mem_ensureSteps_cases hstep with rfl | ⟨d, hd, rfl⟩ | ⟨column, hcolumn, rfl⟩ | rfl | ⟨index, hindex, rfl⟩ | rfl
  · exact ⟨_, rfl, rfl⟩
  · exact achieves_createTable h hd (hneeds (.run .createSchema) List.mem_cons_self) (keysExist_of_needs h hd hneeds)
  · obtain ⟨t, ht⟩ := hneeds (.run (.createTable true profileTable)) List.mem_cons_self
    refine achieves_addColumn ht ?_
    simp only [List.mem_cons, List.not_mem_nil, or_false] at hcolumn
    rcases hcolumn with rfl | rfl <;> rfl
  · obtain ⟨t, ht, hcolumn⟩ := hneeds (.run (.addColumn true sessionProfile nullifierStreamingColumn []))
      (List.mem_cons_of_mem _ List.mem_cons_self)
    exact achieves_addIfMissing ht hcolumn (List.all_eq_true.mpr (h.profile ht).rows)
  · obtain ⟨t, ht, hcolumns⟩ := columns_of_needs h hindex hneeds
    exact achieves_createIndex h (List.mem_append_left _ (List.mem_append_left _ hindex)) ht hcolumns
  · obtain ⟨t, ht⟩ := hneeds (.run (.createTable true merkleCacheStateTable)) (by decide)
    exact achieves_insert ht (h.fixed (d := merkleCacheStateTable) (by decide) ht)

theorem conflicts_of_id {now : Int} {t : Table} (hdef : t.toTableDef = merkleCacheStateTable) {row : Row}
    (hrow : row ∈ t.rows) (hid : row.value "id" = .int 1) : t.conflicts (stateRow now) = true := by
  obtain ⟨d, rows⟩ := t
  obtain rfl : d = merkleCacheStateTable := hdef
  refine List.any_eq_true.mpr ⟨primaryKeyOf merkleCacheState ["id"], List.mem_cons_self, ?_⟩
  refine List.any_eq_true.mpr ⟨row, hrow, List.all_eq_true.mpr fun column hcolumn => ?_⟩
  rw [List.mem_singleton.mp hcolumn, hid]
  rfl

/-- A step that has been done changes nothing. -/
theorem exec_of_achieved (h : Known c) {step : EnsureStep} (hstep : step ∈ ensureSteps)
    (hneeds : ∀ s ∈ step.needs, s.Achieved c) (hachieved : step.Achieved c) (now : Int) :
    step.exec now c = some c := by
  rcases mem_ensureSteps_cases hstep with rfl | ⟨d, hd, rfl⟩ | ⟨column, hcolumn, rfl⟩ | rfl | ⟨index, hindex, rfl⟩ | rfl
  · obtain ⟨schema, tables, indexes⟩ := c
    obtain rfl : schema = true := hachieved
    rfl
  · obtain ⟨t, ht⟩ := hachieved
    refine if_pos ?_
    rw [Catalog.hasRelation, ht]
    rfl
  · obtain ⟨t, ht, hcolumn⟩ := hachieved
    show c.addColumn now true sessionProfile column [] = some c
    unfold Catalog.addColumn
    rw [ht]
    exact if_pos hcolumn
  · obtain ⟨t, ht, hconstraint⟩ := hachieved
    show addConstraintIfMissing sessionProfile nullifierStreamingConstraint.name nullifierStreamingCheck c = some c
    unfold addConstraintIfMissing
    rw [constraintExists, ht, Option.map_some, hconstraint]
  · obtain ⟨t, ht, -⟩ := columns_of_needs h hindex hneeds
    show c.createIndex true index = some c
    unfold Catalog.createIndex
    rw [ht]
    refine if_pos (Bool.or_eq_true_iff.mpr (Or.inr ?_))
    exact List.any_eq_true.mpr ⟨index, hachieved, decide_eq_true rfl⟩
  · obtain ⟨t, ht, row, hrow, hid⟩ := hachieved
    have hdef := h.fixed (d := merkleCacheStateTable) (by decide) ht
    have hconflicts : t.conflicts (t.fill now stateValues) = true := by
      rw [hdef]
      exact conflicts_of_id hdef hrow hid
    show c.insert now true merkleCacheState stateValues = some c
    unfold Catalog.insert
    rw [ht]
    dsimp only
    rw [if_pos (accepts_state hdef), if_pos hconflicts]
    rfl

theorem grows_ensureStep {c' : Catalog} {step : EnsureStep} (hstep : step ∈ ensureSteps) {now : Int}
    (hexec : step.exec now c = some c') : Grows c c' := by
  have hadditive : ∀ stmt, EnsureStep.run stmt ∈ ensureSteps → stmt.additive = true := by
    intro stmt hmem
    have hall : ensureSteps.all (fun | .run stmt => stmt.additive | .addIfMissing _ _ _ => true) = true := by decide
    exact List.all_eq_true.mp hall _ hmem
  cases step with
  | run stmt => exact grows_exec (hadditive stmt hstep) hexec
  | addIfMissing table name check =>
    rcases addConstraintIfMissing_cases hexec with ⟨-, rfl⟩ | ⟨-, hadd⟩
    · exact .refl _
    · have hstmt : exec now (.addConstraint table name check) c = some c' := hadd
      exact grows_exec rfl hstmt

/-- **Run.** The rest of `ensure_schema` succeeds where its beginning has been achieved. -/
theorem runEnsure_ok (now : Int) (pre steps : List EnsureStep) (hsteps : ensureSteps = pre ++ steps) (h : Known c)
    (hpre : ∀ s ∈ pre, s.Achieved c) : ∃ c', runEnsure now steps c = (c', true) ∧ Known c' ∧ Grows c c' ∧
      ∀ s ∈ ensureSteps, s.Achieved c' := by
  induction steps generalizing pre c with
  | nil =>
    rw [List.append_nil] at hsteps
    subst hsteps
    exact ⟨c, rfl, h, .refl c, hpre⟩
  | cons step steps ih =>
    have hmem : step ∈ ensureSteps := by
      rw [hsteps]
      exact List.mem_append_right pre List.mem_cons_self
    obtain ⟨c₁, hexec, hachieved⟩ := exec_of_needs h hmem (fun s hs => hpre s (needs_subset hsteps hs)) now
    have hgrows := grows_ensureStep hmem hexec
    have hknown := known_ensureStep (List.all_eq_true.mp listed_ensure step hmem) h hexec
    obtain ⟨c', hrun, hknown', hgrows', hall⟩ := ih (pre ++ [step])
      (by rw [List.append_assoc, List.singleton_append, hsteps]) hknown fun s hs => by
        rcases List.mem_append.mp hs with hs | hs
        · exact (hpre s hs).grows hgrows
        · rwa [List.mem_singleton.mp hs]
    refine ⟨c', ?_, hknown', hgrows.trans hgrows', hall⟩
    rw [runEnsure, hexec]
    exact hrun

theorem runEnsure_idle (now : Int) {steps : List EnsureStep} (hsteps : steps ⊆ ensureSteps) (h : Known c)
    (hall : ∀ s ∈ ensureSteps, s.Achieved c) : runEnsure now steps c = (c, true) := by
  induction steps with
  | nil => rfl
  | cons step steps ih =>
    have hmem := hsteps List.mem_cons_self
    obtain ⟨pre, post, hsplit⟩ := List.append_of_mem hmem
    have hneeds : ∀ s ∈ step.needs, s.Achieved c := fun s hs => by
      refine hall s ?_
      rw [hsplit]
      exact List.mem_append_left _ (needs_subset hsplit hs)
    rw [runEnsure, exec_of_achieved h hmem hneeds (hall step hmem) now]
    exact ih fun s hs => hsteps (List.mem_cons_of_mem _ hs)

end Ensure

/-! ## The schema that is arrived at -/

/-- Everything `ensure_schema` is for: each table with just its columns and constraints, whatever their order, its
indexes, and the row of the singleton table. -/
structure Complete (c : Catalog) : Prop where
  schema : c.schema = true
  tables : ∀ d ∈ ensuredTables, ∃ t, c.table? d.name = some t ∧
    (∀ column, column ∈ t.columns ↔ column ∈ d.columns) ∧
      ∀ constraint, constraint ∈ t.constraints ↔ constraint ∈ d.constraints
  indexes : ∀ index ∈ ensuredIndexes, index ∈ c.indexes
  state : ∃ t, c.table? merkleCacheState = some t ∧ ∃ row ∈ t.rows, row.value "id" = .int 1

theorem ProfileKnown.complete {t : Table} (h : ProfileKnown t)
    (hupstream : t.hasColumn upstreamSessionIdColumn.name = true)
    (hstreaming : t.hasColumn nullifierStreamingColumn.name = true)
    (hconstraint : t.hasConstraint nullifierStreamingConstraint.name = true) :
    (∀ column, column ∈ t.columns ↔ column ∈ profileTable.columns) ∧
      ∀ constraint, constraint ∈ t.constraints ↔ constraint ∈ profileTable.constraints := by
  have hcolumnNames : ∀ column ∈ profileTable.columns, ∀ other ∈ profileTable.columns,
      column.name = other.name → column = other := by decide
  have hconstraintNames : ∀ constraint ∈ profileTable.constraints, ∀ other ∈ profileTable.constraints,
      constraint.name = other.name → constraint = other := by decide
  have hadded : ∀ column ∈ profileTable.columns, t.hasColumn column.name = true → column ∈ t.columns := by
    intro column hmem hcolumn
    obtain ⟨other, hother, hname⟩ := List.any_eq_true.mp hcolumn
    rwa [← hcolumnNames other (h.columns other hother) column hmem (of_decide_eq_true hname)]
  refine ⟨fun column => ⟨h.columns column, fun hmem => ?_⟩,
    fun constraint => ⟨h.constraints constraint, fun hmem => ?_⟩⟩
  · have hmem' := hmem
    simp only [profileTable, List.mem_cons, List.not_mem_nil, or_false] at hmem'
    rcases hmem' with rfl | rfl | rfl | rfl | rfl
    · exact h.base _ (by decide)
    · exact hadded _ hmem hupstream
    · exact h.base _ (by decide)
    · exact hadded _ hmem hstreaming
    · exact h.base _ (by decide)
  · rcases List.mem_append.mp hmem with hbase | hlast
    · exact h.baseConstraints constraint hbase
    · obtain rfl := List.mem_singleton.mp hlast
      obtain ⟨other, hother, hname⟩ := List.any_eq_true.mp hconstraint
      rwa [← hconstraintNames other (h.constraints other hother) _ hmem (of_decide_eq_true hname)]

theorem complete_of_achieved {c : Catalog} (h : Known c) (hall : ∀ s ∈ ensureSteps, s.Achieved c) : Complete c where
  schema := hall (.run .createSchema) (by decide)
  tables d hd := by
    simp only [ensuredTables, List.mem_cons, List.not_mem_nil, or_false] at hd
    have hfixed : ∀ d ∈ fixedTables, EnsureStep.run (.createTable true d) ∈ ensureSteps →
        ∃ t, c.table? d.name = some t ∧ (∀ column, column ∈ t.columns ↔ column ∈ d.columns) ∧
          ∀ constraint, constraint ∈ t.constraints ↔ constraint ∈ d.constraints := by
      intro d hd hstep
      obtain ⟨t, ht⟩ := hall _ hstep
      have hdef := h.fixed hd ht
      exact ⟨t, ht, fun column => by rw [hdef], fun constraint => by rw [hdef]⟩
    rcases hd with rfl | rfl | rfl | rfl | rfl
    · obtain ⟨t, ht, hupstream⟩ := hall (.run (.addColumn true sessionProfile upstreamSessionIdColumn [])) (by decide)
      obtain ⟨t', ht', hstreaming⟩ :=
        hall (.run (.addColumn true sessionProfile nullifierStreamingColumn [])) (by decide)
      obtain ⟨t'', ht'', hconstraint⟩ :=
        hall (.addIfMissing sessionProfile "session_profile_nullifier_streaming_check" nullifierStreamingCheck)
          (by decide)
      obtain rfl := Option.some.inj (ht.symm.trans ht')
      obtain rfl := Option.some.inj (ht.symm.trans ht'')
      exact ⟨t, ht, (h.profile ht).complete hupstream hstreaming hconstraint⟩
    · exact hfixed _ (by decide) (by decide)
    · exact hfixed _ (by decide) (by decide)
    · exact hfixed _ (by decide) (by decide)
    · exact hfixed _ (by decide) (by decide)
  indexes index hindex := by
    have hsteps : ∀ index ∈ ensuredIndexes, EnsureStep.run (.createIndex true index) ∈ ensureSteps := by decide
    exact hall _ (hsteps index hindex)
  state := hall (.run (.insert true merkleCacheState stateValues)) (by decide)

/-- **`ensure_schema`.** Whatever migrations, up or down, whatever part of earlier starts and whatever rows of the
program a database has been through, in any order: `ensure_schema` succeeds, leaves every row with its values, makes the
schema complete, and changes nothing when it is run again. -/
theorem ensureSchema_converges (turns : List SchemaTurn) (now : Int) :
    ∃ c', ensureSchema now (schemaAfter turns) = (c', true) ∧ Grows (schemaAfter turns) c' ∧ Complete c' ∧
      ∀ later, ensureSchema later c' = (c', true) := by
  obtain ⟨c', hrun, hknown, hgrows, hall⟩ :=
    runEnsure_ok now [] ensureSteps rfl (known_schemaAfter turns) nofun
  exact ⟨c', hrun, hgrows, complete_of_achieved hknown hall, fun later =>
    runEnsure_idle later (List.Subset.refl _) hknown hall⟩

end NocyWalletFeed
