import NocyWalletFeed.Windows
import NocyWalletFeed.Readiness

/-!
# Where identifiers are stored

The identifiers of a regular transaction are an array column of `regular_transactions`, or rows of
`transaction_identifiers`; which of them is found out at run time.

* `StoredBothWays` : one database with the column and one with the table, and the same lists of identifiers;
* `tableRow_eq_inlineRow_iff` : the metadata row of a transaction, read either way;
* `sameIdentifiers_iff` : the rows of a query agree exactly when no list they show is empty.
-/

namespace NocyWalletFeed
open Codec Relational

/-! ## Two databases -/

/-- A row without the array column. -/
def RegularTransactionRow.withoutIdentifiers (rt : RegularTransactionRow) : RegularTransactionRow :=
  { rt with identifiers := none }

/-- A list of identifiers for each regular transaction, in the column of the one database and in the table of the
other: one row for each identifier, read in list order. -/
structure StoredBothWays (lists : Int → List Bytes) (inlineDb tableDb : Database) : Prop where
  blocks : tableDb.blocks = inlineDb.blocks
  transactions : tableDb.transactions = inlineDb.transactions
  regularTransactions :
    tableDb.regularTransactions = inlineDb.regularTransactions.map RegularTransactionRow.withoutIdentifiers
  hasColumn : inlineDb.hasIdentifiersColumn = true
  column : ∀ rt ∈ inlineDb.regularTransactions, rt.identifiers = some (lists rt.id)
  hasNoColumn : tableDb.hasIdentifiersColumn = false
  hasTable : tableDb.transactionIdentifiers.isSome = true
  table : ∀ txId, ((tableDb.transactionIdentifiers.getD []).filter (fun row => row.transactionId = txId)).map
    (·.identifier) = if txId ∈ inlineDb.regularTransactions.map (·.id) then lists txId else []

/-- A transaction that a metadata query selects. -/
def Selected (db : Database) (txIds : List Int) (txId : Int) : Prop :=
  txId ∈ txIds ∧ ∃ t ∈ db.transactions, t.id = txId ∧ ∃ b ∈ db.blocks, b.id = t.blockId

/-- The rows of a metadata query, with the source of identifiers that is detected. -/
def metadataOf (db : Database) (txIds : List Int) (includeRaw : Bool) : List TransactionMetaRow :=
  getTransactionMetadata db txIds includeRaw true (detectIdentifiersSource db)

/-! ## One row -/

section Row
variable {lists : Int → List Bytes} {inlineDb tableDb : Database} (h : StoredBothWays lists inlineDb tableDb)
include h

/-- The entry of a transaction in the map of the table rows: there is none for an empty list. -/
theorem identifiersMap_stored (txId : Int) : identifiersMap (tableDb.transactionIdentifiers.getD []) txId =
    if txId ∈ inlineDb.regularTransactions.map (·.id) ∧ lists txId ≠ [] then some (lists txId) else none := by
  have hgroup : groupBy ((tableDb.transactionIdentifiers.getD []).map (fun row => (row.transactionId, row.identifier)))
      txId = if txId ∈ inlineDb.regularTransactions.map (·.id) then lists txId else [] := by
    rw [groupBy_eq, List.filter_map, List.map_map, ← h.table]
    rfl
  unfold identifiersMap
  rw [hgroup]
  by_cases hregular : txId ∈ inlineDb.regularTransactions.map (·.id)
  · rw [if_pos hregular]
    cases hlist : lists txId with
    | nil => simp
    | cons identifier identifiers => simp [hregular]
  · simp [hregular]

omit h in
/-- The transactions a query selects, with their rows of `regular_transactions`. -/
def joinedMetadata (db : Database) (txIds : List Int) :
    List ((TransactionRow × BlockRow) × Option RegularTransactionRow) :=
  leftJoin (fun tb rt => rt.id = tb.1.id) (metadataBase db txIds) db.regularTransactions

omit h in
def tableMetaRow (db : Database) (includeRaw : Bool)
    (row : (TransactionRow × BlockRow) × Option RegularTransactionRow) : TransactionMetaRow :=
  { toTransactionMetaRow includeRaw false row with
    identifiers := identifiersMap (db.transactionIdentifiers.getD []) row.1.1.id }

theorem metadataOf_inline (txIds : List Int) (includeRaw : Bool) : metadataOf inlineDb txIds includeRaw =
    (joinedMetadata inlineDb txIds).map (toTransactionMetaRow includeRaw true) := by
  have hsource : detectIdentifiersSource inlineDb = .inline := by rw [detectIdentifiersSource, if_pos h.hasColumn]
  rw [metadataOf, hsource, getTransactionMetadata_eq, if_neg (by simp)]
  rfl

omit h in
theorem txId_mem_of_mem_joinedMetadata {db : Database} {txIds : List Int}
    {row : (TransactionRow × BlockRow) × Option RegularTransactionRow} (hrow : row ∈ joinedMetadata db txIds) :
    Selected db txIds row.1.1.id := by
  obtain ⟨⟨t, b⟩, rt⟩ := row
  obtain ⟨ht, hb, hid⟩ := mem_join.mp (mem_leftJoin_fst hrow)
  obtain ⟨ht, hmem⟩ := List.mem_filter.mp ht
  exact ⟨of_decide_eq_true hmem, t, ht, rfl, b, hb, (of_decide_eq_true hid).symm⟩

theorem metadataOf_table (txIds : List Int) (includeRaw : Bool) : metadataOf tableDb txIds includeRaw =
    (joinedMetadata inlineDb txIds).map (tableMetaRow tableDb includeRaw) := by
  have hsource : detectIdentifiersSource tableDb = .table := by
    rw [detectIdentifiersSource, if_neg (by simp [h.hasNoColumn]), if_pos h.hasTable]
  have hbase : metadataBase tableDb txIds = metadataBase inlineDb txIds := by
    rw [metadataBase, metadataBase, h.blocks, h.transactions]
  have hrows : metadataRows tableDb txIds includeRaw false =
      (joinedMetadata inlineDb txIds).map (toTransactionMetaRow includeRaw false) := by
    rw [metadataRows, hbase, h.regularTransactions, leftJoin_map_right, List.map_map]
    refine List.map_congr_left fun row _ => ?_
    obtain ⟨tb, rt⟩ := row
    cases rt <;> rfl
  rw [metadataOf, hsource, getTransactionMetadata_eq, if_pos (by simp)]
  show (metadataRows tableDb txIds includeRaw false).map _ = _
  rw [hrows, List.map_map]
  refine List.map_congr_left fun row hrow => ?_
  have hmem := (txId_mem_of_mem_joinedMetadata hrow).1
  show (toTransactionMetaRow includeRaw false row).withIdentifiers _ = _
  have hnone : (toTransactionMetaRow includeRaw false row).identifiers.isNone = true := rfl
  rw [TransactionMetaRow.withIdentifiers, if_pos hnone, tableMetaRow, ← identifiersMap_filter _ hmem]
  rfl

/-- The row of a regular transaction is the same either way unless its list is empty; the row of any other transaction
has no identifiers. -/
theorem tableRow_eq_inlineRow_iff (includeRaw : Bool) {txIds : List Int}
    {row : (TransactionRow × BlockRow) × Option RegularTransactionRow} (hrow : row ∈ joinedMetadata inlineDb txIds) :
    (tableMetaRow tableDb includeRaw row).identifiers = (toTransactionMetaRow includeRaw true row).identifiers ↔
      (row.1.1.id ∈ inlineDb.regularTransactions.map (·.id) → lists row.1.1.id ≠ []) := by
  obtain ⟨tb, rt⟩ := row
  show identifiersMap _ tb.1.id = rt.bind (·.identifiers) ↔ _
  rw [identifiersMap_stored h]
  rcases mem_leftJoin hrow with ⟨rt', hrt, hid, rfl⟩ | ⟨rfl, hnone⟩
  · have hid : rt'.id = tb.1.id := of_decide_eq_true hid
    have hregular : tb.1.id ∈ inlineDb.regularTransactions.map (·.id) := hid ▸ List.mem_map_of_mem hrt
    have hcolumn : rt'.identifiers = some (lists tb.1.id) := hid ▸ h.column rt' hrt
    rw [Option.bind_some, hcolumn]
    by_cases hempty : lists tb.1.id = []
    · simp [hregular, hempty]
    · simp [hregular, hempty]
  · have hregular : tb.1.id ∉ inlineDb.regularTransactions.map (·.id) := by
      intro hmem
      obtain ⟨rt', hrt, hid⟩ := List.mem_map.mp hmem
      exact absurd (decide_eq_true hid) (Bool.eq_false_iff.mp (hnone rt' hrt))
    simp [hregular]

end Row

/-! ## A query -/

/-- **Identifier storage does not show exactly** where no regular transaction of the query has an empty list of
identifiers; whatever the lists, it shows in no other column. -/
theorem sameIdentifiers_iff {lists : Int → List Bytes} {inlineDb tableDb : Database}
    (h : StoredBothWays lists inlineDb tableDb) (txIds : List Int) (includeRaw : Bool) :
    ((metadataOf tableDb txIds includeRaw).map (fun row => (row.txId, row.identifiers)) =
        (metadataOf inlineDb txIds includeRaw).map (fun row => (row.txId, row.identifiers)) ↔
      ∀ rt ∈ inlineDb.regularTransactions, Selected inlineDb txIds rt.id → lists rt.id ≠ []) ∧
    (metadataOf tableDb txIds includeRaw).map (fun row => { row with identifiers := none }) =
      (metadataOf inlineDb txIds includeRaw).map (fun row => { row with identifiers := none }) := by
  rw [metadataOf_inline h, metadataOf_table h]
  simp only [List.map_map]
  refine ⟨?_, rfl⟩
  rw [List.map_inj_left]
  constructor
  · intro hsame rt hrt hselected
    obtain ⟨hid, t, ht, htid, b, hb, hbid⟩ := hselected
    have hbase : (t, b) ∈ metadataBase inlineDb txIds :=
      mem_join.mpr ⟨List.mem_filter.mpr ⟨ht, decide_eq_true (htid ▸ hid)⟩, hb, decide_eq_true hbid.symm⟩
    obtain ⟨o, ho⟩ := exists_mem_leftJoin (fun tb rt => rt.id = tb.1.id) inlineDb.regularTransactions hbase
    have hrow := (tableRow_eq_inlineRow_iff h includeRaw ho).mp (Prod.mk.inj (hsame _ ho)).2
    rw [← htid]
    exact hrow (htid ▸ List.mem_map_of_mem hrt)
  · intro hlists row hrow
    refine Prod.ext rfl ((tableRow_eq_inlineRow_iff h includeRaw hrow).mpr fun hregular => ?_)
    obtain ⟨rt, hrt, hid⟩ := List.mem_map.mp hregular
    rw [← hid]
    exact hlists rt hrt (hid ▸ txId_mem_of_mem_joinedMetadata hrow)

namespace Sample

/-- A regular transaction and a system transaction. -/
def mixedTables (identifiers : Option (List Bytes)) : Tables :=
  { blocks := [block 0 1 0]
    transactions := [transaction 1 0, transaction 2 0]
    regularTransactions := [⟨1, none, none, none, none, none, none, identifiers⟩] }

def inColumn (identifiers : List Bytes) : Database :=
  ⟨mixedTables (some identifiers), of_decide_eq_true rfl⟩

def inTable (identifiers : List Bytes) : Database :=
  ⟨{ mixedTables none with
      hasIdentifiersColumn := false
      transactionIdentifiers := some (identifiers.map fun identifier => ⟨1, identifier⟩) }, of_decide_eq_true rfl⟩

theorem storedBothWays (identifiers : List Bytes) :
    StoredBothWays (fun _ => identifiers) (inColumn identifiers) (inTable identifiers) where
  blocks := rfl
  transactions := rfl
  regularTransactions := rfl
  hasColumn := rfl
  column rt hrt := by
    obtain rfl := List.mem_singleton.mp hrt
    rfl
  hasNoColumn := rfl
  hasTable := rfl
  table txId := by
    by_cases hid : txId = 1
    · simp [inTable, inColumn, mixedTables, hid, List.filter_map, Function.comp_def]
    · simp [inTable, inColumn, mixedTables, hid, Ne.symm hid, List.filter_map, Function.comp_def]

end Sample

/-- Two identifiers read either way. -/
theorem sameIdentifiers_twoIdentifiers :
    (metadataOf (Sample.inTable [[1], [2]]) [1, 2] false).map (fun row => (row.txId, row.identifiers)) =
      (metadataOf (Sample.inColumn [[1], [2]]) [1, 2] false).map (fun row => (row.txId, row.identifiers)) :=
  (sameIdentifiers_iff (Sample.storedBothWays [[1], [2]]) [1, 2] false).1.mpr fun _ _ _ => List.cons_ne_nil _ _

/-- A regular transaction without identifiers has an empty list from the column and none from the table. -/
theorem not_sameIdentifiers_emptyList :
    (metadataOf (Sample.inColumn []) [1, 2] false).map (fun row => (row.txId, row.identifiers)) =
        [(1, some []), (2, none)] ∧
      (metadataOf (Sample.inTable []) [1, 2] false).map (fun row => (row.txId, row.identifiers)) =
        [(1, none), (2, none)] ∧
      StoredBothWays (fun _ => []) (Sample.inColumn []) (Sample.inTable []) :=
  ⟨rfl, rfl, Sample.storedBothWays []⟩

end NocyWalletFeed
