import NocyWalletFeed.Routes.Feed

/-!
# A block does not depend on the window it is fetched in

Every page and every batch runs the same queries over its own window of heights. What they return for one height is what
they return for the window that is only this height.

* `filter_getRelevantTransactions`, `filter_fetchDustEvents`, `filter_getUnshieldedUtxoEvents`,
  `filter_getAllZswapInputEventsInRange`, `filter_getTransactionMetadata` : query by query;
* `AgreeAt` : two windows hold the same rows for a height, and so the same items (`AgreeAt.assembleItems_eq`);
* `fetchWindow_agreeAt` : any window that contains a height agrees with the window that is this height.
-/

namespace NocyWalletFeed
open Codec Relational OrderBy

/-! ## Transactions of a block -/

section Base
variable {db : Database} {fromHeight toHeight height : Int}

theorem mem_blockTransactions {tb : TransactionRow × BlockRow} : tb ∈ blockTransactions db fromHeight toHeight ↔
    tb.1 ∈ db.transactions ∧ tb.2 ∈ db.blocks ∧ tb.1.blockId = tb.2.id ∧ fromHeight ≤ tb.2.height ∧
      tb.2.height ≤ toHeight := by
  obtain ⟨t, b⟩ := tb
  simp [blockTransactions, mem_join, and_assoc]

theorem filter_blockTransactions (hlo : fromHeight ≤ height) (hhi : height ≤ toHeight) :
    (blockTransactions db fromHeight toHeight).filter (fun tb => tb.2.height = height) =
      blockTransactions db height height := by
  rw [blockTransactions, List.filter_filter, blockTransactions]
  refine List.filter_congr fun tb _ => ?_
  rw [← Bool.decide_and, decide_eq_decide]
  omega

/-- A transaction id belongs to the block at a height. -/
def InBlock (db : Database) (txId height : Int) : Prop := ∃ tb ∈ blockTransactions db height height, tb.1.id = txId

theorem inBlock_of_mem {tb : TransactionRow × BlockRow} (h : tb ∈ blockTransactions db fromHeight toHeight) :
    InBlock db tb.1.id tb.2.height := by
  obtain ⟨ht, hb, hid, -, -⟩ := mem_blockTransactions.mp h
  exact ⟨tb, mem_blockTransactions.mpr ⟨ht, hb, hid, le_rfl, le_rfl⟩, rfl⟩

theorem InBlock.unique {txId height' : Int} (h : InBlock db txId height) (h' : InBlock db txId height') :
    height = height' := by
  obtain ⟨⟨t, b⟩, hmem, rfl⟩ := h
  obtain ⟨⟨t', b'⟩, hmem', hid⟩ := h'
  obtain ⟨ht, hb, hblock, hlo, hhi⟩ := mem_blockTransactions.mp hmem
  obtain ⟨ht', hb', hblock', hlo', hhi'⟩ := mem_blockTransactions.mp hmem'
  obtain rfl : t' = t := db.transaction_eq_of_id_eq ht' ht hid
  obtain rfl : b = b' := db.block_eq_of_id_eq hb hb' (hblock.symm.trans hblock')
  exact (le_antisymm hlo hhi).trans (le_antisymm hhi' hlo')

theorem InBlock.exists_block {txId : Int} (h : InBlock db txId height) : ∃ b ∈ db.blocks, b.height = height := by
  obtain ⟨tb, hmem, -⟩ := h
  obtain ⟨-, hb, -, hlo, hhi⟩ := mem_blockTransactions.mp hmem
  exact ⟨tb.2, hb, le_antisymm hhi hlo⟩

end Base

/-! ## Queries by range -/

section Range
variable {db : Database} {fromHeight toHeight height : Int}

theorem filter_sortBy_map {α β κ : Type*} [LinearOrder κ] (key : β → κ) (f : α → β) (p : β → Bool) (l : List α) :
    (sortBy key (l.map f)).filter p = sortBy key ((l.filter (p ∘ f)).map f) := by
  rw [filter_sortBy, List.filter_map]

theorem filter_join_blockTransactions {α : Type*} (on : α → TransactionRow × BlockRow → Bool) (l : List α)
    (hlo : fromHeight ≤ height) (hhi : height ≤ toHeight) :
    (join on l (blockTransactions db fromHeight toHeight)).filter (fun row => row.2.2.height = height) =
      join on l (blockTransactions db height height) := by
  rw [filter_join_snd on (fun tb => tb.2.height = height), filter_blockTransactions hlo hhi]

theorem filter_getRelevantTransactions (sessionId : Bytes) (hlo : fromHeight ≤ height) (hhi : height ≤ toHeight) :
    (getRelevantTransactions db sessionId fromHeight toHeight).filter (fun row => row.blockHeight = height) =
      getRelevantTransactions db sessionId height height := by
  unfold getRelevantTransactions
  rw [filter_sortBy_map]
  show sortBy _ (List.map _ ((leftJoin _ _ _).filter
    (fun row : (TransactionRow × BlockRow) × Option RegularTransactionRow => row.1.2.height = height))) = _
  rw [filter_leftJoin_fst _ (fun tb : TransactionRow × BlockRow => tb.2.height = height), List.filter_map]
  show sortBy _ (List.map _ (leftJoin _ (List.map _ ((join _ _ _).filter
    (fun row : RelevantTransactionRow × TransactionRow × BlockRow => row.2.2.height = height))) _)) = _
  rw [filter_join_blockTransactions _ _ hlo hhi]

theorem filter_ledgerEventsInRange (select : LedgerEventRow → Bool) (hlo : fromHeight ≤ height)
    (hhi : height ≤ toHeight) :
    (ledgerEventsInRange db select fromHeight toHeight).filter (fun row => row.2.2.height = height) =
      ledgerEventsInRange db select height height := by
  rw [ledgerEventsInRange, filter_sortBy, filter_join_blockTransactions _ _ hlo hhi, ledgerEventsInRange]

theorem filter_getAllZswapInputEventsInRange (hlo : fromHeight ≤ height) (hhi : height ≤ toHeight) :
    (getAllZswapInputEventsInRange db fromHeight toHeight).filter (fun event => event.blockHeight = height) =
      getAllZswapInputEventsInRange db height height := by
  rw [getAllZswapInputEventsInRange, List.filter_map]
  exact congrArg _ (filter_ledgerEventsInRange _ hlo hhi)

theorem filter_dustEventsWhere (select : LedgerEventRow → Bool) (hlo : fromHeight ≤ height) (hhi : height ≤ toHeight) :
    (dustEventsWhere db select fromHeight toHeight).filter (fun event => event.blockHeight = height) =
      dustEventsWhere db select height height := by
  rw [dustEventsWhere, List.filter_map]
  exact congrArg _ (filter_ledgerEventsInRange _ hlo hhi)

theorem filter_fetchDustEvents (args : AssemblyArgs) (hlo : fromHeight ≤ height) (hhi : height ≤ toHeight) :
    (fetchDustEvents db args fromHeight toHeight).filter (fun event => event.blockHeight = height) =
      fetchDustEvents db args height height := by
  unfold fetchDustEvents
  split_ifs with hall
  · exact filter_dustEventsWhere _ hlo hhi
  · unfold getDustEvents
    cases dustPublicKey db args.localSessionId with
    | none => rfl
    | some key => exact filter_dustEventsWhere _ hlo hhi

theorem filter_unshieldedUtxoRows (addresses : List Bytes) (isCreate : Bool) (txId : UnshieldedUtxoRow → Option Int)
    (hlo : fromHeight ≤ height) (hhi : height ≤ toHeight) :
    (unshieldedUtxoRows db addresses isCreate txId fromHeight toHeight).filter (fun row => row.blockHeight = height) =
      unshieldedUtxoRows db addresses isCreate txId height height := by
  unfold unshieldedUtxoRows
  rw [filter_sortBy_map]
  show sortBy _ (List.map _ ((leftJoin _ _ _).filter
    (fun row : (UnshieldedUtxoRow × TransactionRow × BlockRow) × Option RegularTransactionRow =>
      row.1.2.2.height = height))) = _
  rw [filter_leftJoin_fst _ (fun row : UnshieldedUtxoRow × TransactionRow × BlockRow => row.2.2.height = height),
    filter_join_blockTransactions _ _ hlo hhi]

theorem filter_getUnshieldedUtxoEvents (sessionId : Bytes) (hlo : fromHeight ≤ height) (hhi : height ≤ toHeight) :
    (getUnshieldedUtxoEvents db sessionId fromHeight toHeight).filter (fun event => event.blockHeight = height) =
      getUnshieldedUtxoEvents db sessionId height height := by
  unfold getUnshieldedUtxoEvents
  by_cases hnil : (sessionAddresses db sessionId).isEmpty = true
  · rw [if_pos hnil, if_pos hnil, List.filter_nil]
  · rw [if_neg hnil, if_neg hnil, filter_sortBy, List.filter_append, filter_unshieldedUtxoRows _ _ _ hlo hhi,
      filter_unshieldedUtxoRows _ _ _ hlo hhi]

end Range

/-! ## Queries by transaction id -/

section Lookup
variable {db : Database}

theorem filter_join_transactions {α : Type*} (on : α → TransactionRow → Bool) (l : List α) {txIds : List Int}
    {txId : Int} (h : txId ∈ txIds) :
    (join on l (db.transactions.filter (fun t => t.id ∈ txIds))).filter (fun row => row.2.id = txId) =
      join on l (db.transactions.filter (fun t => t.id = txId)) := by
  rw [filter_join_snd on (fun t => t.id = txId), List.filter_filter]
  refine congrArg _ (List.filter_congr fun t _ => ?_)
  rw [← Bool.decide_and, decide_eq_decide]
  exact ⟨fun ht => ht.1, fun ht => ⟨ht, ht ▸ h⟩⟩

theorem not_isEmpty_of_mem {txIds : List Int} {txId : Int} (h : txId ∈ txIds) : ¬ txIds.isEmpty = true := by
  rw [List.isEmpty_iff]
  exact List.ne_nil_of_mem h

theorem filter_getZswapEventsForTxs {txIds : List Int} {txId : Int} (h : txId ∈ txIds) :
    (getZswapEventsForTxs db txIds).filter (fun event => event.txId = txId) =
      (getZswapEventsForTxs db [txId]).filter (fun event => event.txId = txId) := by
  have hspec : ∀ {ids : List Int}, txId ∈ ids →
      (getZswapEventsForTxs db ids).filter (fun event => event.txId = txId) =
        sortBy (fun row => toLex (row.txId, row.ledgerEventId))
          ((join (fun le t => le.transactionId = t.id) (db.ledgerEvents.filter (fun le => le.grouping = .zswap))
            (db.transactions.filter (fun t => t.id = txId))).map
            (fun row : LedgerEventRow × TransactionRow => ⟨row.2.id, row.1.id, row.1.raw⟩)) := by
    intro ids hmem
    rw [getZswapEventsForTxs, if_neg (not_isEmpty_of_mem hmem), filter_sortBy_map, ← filter_join_transactions _ _ hmem]
    rfl
  rw [hspec h, hspec List.mem_cons_self]

theorem filter_getContractActionsForTxs {txIds : List Int} {txId : Int} (h : txId ∈ txIds) :
    (getContractActionsForTxs db txIds).filter (fun entry => entry.1 = txId) =
      (getContractActionsForTxs db [txId]).filter (fun entry => entry.1 = txId) := by
  have hspec : ∀ {ids : List Int}, txId ∈ ids →
      (getContractActionsForTxs db ids).filter (fun entry => entry.1 = txId) =
        (sortBy (fun row => toLex (row.2.id, row.1.id))
          (join (fun ca t => ca.transactionId = t.id) db.contractActions
            (db.transactions.filter (fun t => t.id = txId)))).map
          (fun row : ContractActionRow × TransactionRow =>
            (row.2.id, ⟨hexEncode row.1.address, row.1.variant, row.1.entryPoint⟩)) := by
    intro ids hmem
    rw [getContractActionsForTxs, if_neg (not_isEmpty_of_mem hmem), List.filter_map,
      ← filter_join_transactions _ _ hmem, ← filter_sortBy]
    rfl
  rw [hspec h, hspec List.mem_cons_self]

def zswapEventsOf (db : Database) (txId : Int) : List String :=
  groupBy ((getZswapEventsForTxs db [txId]).map (fun event => (event.txId, hexEncode event.raw))) txId

def contractActionsOf (db : Database) (txId : Int) : List ContractActionSummary :=
  groupBy (getContractActionsForTxs db [txId]) txId

theorem groupBy_getZswapEventsForTxs {txIds : List Int} {txId : Int} (h : txId ∈ txIds) :
    groupBy ((getZswapEventsForTxs db txIds).map (fun event => (event.txId, hexEncode event.raw))) txId =
      zswapEventsOf db txId := by
  rw [zswapEventsOf, groupBy_eq, groupBy_eq, List.filter_map, List.filter_map]
  exact congrArg (fun rows : List ZswapEventRow => (rows.map (fun event => (event.txId, hexEncode event.raw))).map
    Prod.snd) (filter_getZswapEventsForTxs h)

theorem groupBy_getContractActionsForTxs {txIds : List Int} {txId : Int} (h : txId ∈ txIds) :
    groupBy (getContractActionsForTxs db txIds) txId = contractActionsOf db txId := by
  rw [contractActionsOf, groupBy_eq, groupBy_eq, filter_getContractActionsForTxs h]

end Lookup

/-! ## Transaction metadata -/

section Metadata
variable {db : Database} {height : Int}

def TransactionMetaRow.withIdentifiers (identifiersByTx : Int → Option (List Bytes)) (row : TransactionMetaRow) :
    TransactionMetaRow :=
  if row.identifiers.isNone then { row with identifiers := identifiersByTx row.txId } else row

@[simp] theorem TransactionMetaRow.withIdentifiers_txId (f : Int → Option (List Bytes)) (row : TransactionMetaRow) :
    (row.withIdentifiers f).txId = row.txId := by
  unfold withIdentifiers
  split_ifs <;> rfl

@[simp] theorem TransactionMetaRow.withIdentifiers_blockHeight (f : Int → Option (List Bytes))
    (row : TransactionMetaRow) : (row.withIdentifiers f).blockHeight = row.blockHeight := by
  unfold withIdentifiers
  split_ifs <;> rfl

/-- With distinct transactions, removing an entry from the map after its use changes nothing. -/
theorem fillIdentifiers_eq_map (f : Int → Option (List Bytes)) {rows : List TransactionMetaRow}
    (h : (rows.map (·.txId)).Nodup) : fillIdentifiers f rows = rows.map (·.withIdentifiers f) := by
  induction rows generalizing f with
  | nil => rfl
  | cons row rows ih =>
    obtain ⟨hnotin, hnodup⟩ := List.nodup_cons.mp h
    rw [List.map_cons, TransactionMetaRow.withIdentifiers, fillIdentifiers]
    split_ifs with hnone
    · rw [ih _ hnodup]
      refine congrArg _ (List.map_congr_left fun row' hrow' => ?_)
      have hne : row'.txId ≠ row.txId := fun heq =>
        hnotin (List.mem_map.mpr ⟨row', hrow', heq⟩)
      simp [TransactionMetaRow.withIdentifiers, hne]
    · rw [ih _ hnodup]

/-- The transactions a metadata query selects, with their blocks. -/
def metadataBase (db : Database) (txIds : List Int) : List (TransactionRow × BlockRow) :=
  join (fun t b => t.blockId = b.id) (db.transactions.filter (fun t => t.id ∈ txIds)) db.blocks

/-- The rows of a metadata query before identifiers are filled in. -/
def metadataRows (db : Database) (txIds : List Int) (includeRaw inlineIdentifiers : Bool) : List TransactionMetaRow :=
  (leftJoin (fun tb rt => rt.id = tb.1.id) (metadataBase db txIds) db.regularTransactions).map
    (toTransactionMetaRow includeRaw inlineIdentifiers)

theorem map_fst_metadataRows (txIds : List Int) (includeRaw inlineIdentifiers : Bool) :
    (metadataRows db txIds includeRaw inlineIdentifiers).map (·.txId) = (metadataBase db txIds).map (·.1.id) := by
  have hfst := map_fst_leftJoin (fun (tb : TransactionRow × BlockRow) (rt : RegularTransactionRow) =>
    rt.id = tb.1.id) (fun tb => tb.1.id) (metadataBase db txIds) db.constraints.regularTransactionIds
    (fun _ _ h => by simpa using h)
  rw [metadataRows, List.map_map, ← hfst, List.map_map]
  rw [hfst]
  rfl

theorem nodup_metadataRows (txIds : List Int) (includeRaw inlineIdentifiers : Bool) :
    ((metadataRows db txIds includeRaw inlineIdentifiers).map (·.txId)).Nodup := by
  rw [map_fst_metadataRows]
  have hsub := map_fst_join_sublist (fun (t : TransactionRow) (b : BlockRow) => t.blockId = b.id) (fun t => t.blockId)
    (db.transactions.filter (fun t => t.id ∈ txIds)) db.constraints.blockIds
    (fun _ _ h => (of_decide_eq_true h).symm)
  have hids : (metadataBase db txIds).map (·.1.id) = ((metadataBase db txIds).map Prod.fst).map (·.id) := by
    rw [List.map_map]
    rfl
  rw [hids]
  exact (db.constraints.transactionIds.sublist (List.filter_sublist.map _)).sublist (hsub.map _)

theorem filter_metadataRows {txIds txIds' : List Int} (h : ∀ id, InBlock db id height → (id ∈ txIds ↔ id ∈ txIds'))
    (includeRaw inlineIdentifiers : Bool) :
    (metadataRows db txIds includeRaw inlineIdentifiers).filter (fun row => row.blockHeight = height) =
      (metadataRows db txIds' includeRaw inlineIdentifiers).filter (fun row => row.blockHeight = height) := by
  have hbase : (metadataBase db txIds).filter (fun tb => tb.2.height = height) =
      (metadataBase db txIds').filter (fun tb => tb.2.height = height) := by
    unfold metadataBase
    rw [← filter_join_fst _ (fun t : TransactionRow => t.id ∈ txIds),
      ← filter_join_fst _ (fun t : TransactionRow => t.id ∈ txIds'), List.filter_filter, List.filter_filter]
    refine List.filter_congr fun tb htb => ?_
    obtain ⟨ht, hb, hid⟩ := mem_join.mp htb
    rw [← Bool.decide_and, ← Bool.decide_and, decide_eq_decide]
    refine and_congr_right fun hheight => h _ ⟨tb, mem_blockTransactions.mpr ⟨ht, hb, by simpa using hid, ?_, ?_⟩, rfl⟩
    · exact hheight.ge
    · exact hheight.le
  have hspec : ∀ ids : List Int,
      (metadataRows db ids includeRaw inlineIdentifiers).filter (fun row => row.blockHeight = height) =
        (leftJoin (fun tb rt => rt.id = tb.1.id) ((metadataBase db ids).filter (fun tb => tb.2.height = height))
          db.regularTransactions).map (toTransactionMetaRow includeRaw inlineIdentifiers) := by
    intro ids
    rw [metadataRows, List.filter_map, ← filter_leftJoin_fst]
    rfl
  rw [hspec, hspec, hbase]

theorem getTransactionMetadata_eq (txIds : List Int) (includeRaw includeIdentifiers : Bool)
    (identifiersSource : IdentifiersSource) :
    getTransactionMetadata db txIds includeRaw includeIdentifiers identifiersSource =
      if includeIdentifiers ∧ identifiersSource = .table then
        (metadataRows db txIds includeRaw (includeIdentifiers ∧ identifiersSource = .inline)).map (·.withIdentifiers
          (identifiersMap ((db.transactionIdentifiers.getD []).filter (fun row => row.transactionId ∈ txIds))))
      else metadataRows db txIds includeRaw (includeIdentifiers ∧ identifiersSource = .inline) := by
  by_cases hnil : txIds.isEmpty = true
  · obtain rfl := List.isEmpty_iff.mp hnil
    have hrows : ∀ inline, metadataRows db [] includeRaw inline = [] := by
      intro inline
      have hfilter : db.transactions.filter (fun t => t.id ∈ ([] : List Int)) = [] := by simp
      rw [metadataRows, metadataBase, hfilter]
      rfl
    rw [getTransactionMetadata, if_pos hnil, hrows]
    split_ifs <;> rfl
  · rw [getTransactionMetadata, if_neg hnil, ← fillIdentifiers_eq_map _ (nodup_metadataRows _ _ _)]
    rfl

theorem map_txId_getTransactionMetadata (txIds : List Int) (includeRaw includeIdentifiers : Bool)
    (identifiersSource : IdentifiersSource) :
    (getTransactionMetadata db txIds includeRaw includeIdentifiers identifiersSource).map (·.txId) =
      (metadataBase db txIds).map (·.1.id) := by
  rw [getTransactionMetadata_eq]
  split_ifs with htable
  · rw [List.map_map, ← map_fst_metadataRows]
    exact List.map_congr_left fun row _ => row.withIdentifiers_txId _
  · exact map_fst_metadataRows _ _ _

theorem identifiersMap_filter (idRows : List TransactionIdentifierRow) {txIds : List Int} {txId : Int}
    (h : txId ∈ txIds) : identifiersMap (idRows.filter (fun row => row.transactionId ∈ txIds)) txId =
      identifiersMap idRows txId := by
  have hgroup : groupBy ((idRows.filter (fun row => row.transactionId ∈ txIds)).map
      (fun row => (row.transactionId, row.identifier))) txId =
      groupBy (idRows.map (fun row => (row.transactionId, row.identifier))) txId := by
    rw [groupBy_eq, groupBy_eq, List.filter_map, List.filter_map, List.filter_filter]
    refine congrArg (fun rows : List TransactionIdentifierRow =>
      (rows.map (fun row => (row.transactionId, row.identifier))).map Prod.snd) (List.filter_congr fun row _ => ?_)
    by_cases hrow : row.transactionId = txId
    · simp [hrow, h]
    · simp [hrow]
  rw [identifiersMap, identifiersMap, hgroup]

theorem mem_metadataRows_txId {txIds : List Int} {includeRaw inlineIdentifiers : Bool} {row : TransactionMetaRow}
    (h : row ∈ metadataRows db txIds includeRaw inlineIdentifiers) :
    row.txId ∈ txIds ∧ InBlock db row.txId row.blockHeight := by
  obtain ⟨joined, hjoined, rfl⟩ := List.mem_map.mp h
  obtain ⟨ht, hb, hid⟩ := mem_join.mp (mem_leftJoin_fst hjoined)
  refine ⟨of_decide_eq_true (List.mem_filter.mp ht).2, joined.1, mem_blockTransactions.mpr ?_, rfl⟩
  exact ⟨List.mem_of_mem_filter ht, hb, by simpa using hid, le_rfl, le_rfl⟩

/-- The metadata rows of a block depend on which of its transactions are asked for, and on nothing else. -/
theorem filter_getTransactionMetadata {txIds txIds' : List Int}
    (h : ∀ id, InBlock db id height → (id ∈ txIds ↔ id ∈ txIds')) (includeRaw includeIdentifiers : Bool)
    (identifiersSource : IdentifiersSource) :
    (getTransactionMetadata db txIds includeRaw includeIdentifiers identifiersSource).filter
        (fun row => row.blockHeight = height) =
      (getTransactionMetadata db txIds' includeRaw includeIdentifiers identifiersSource).filter
        (fun row => row.blockHeight = height) := by
  rw [getTransactionMetadata_eq, getTransactionMetadata_eq]
  split_ifs with htable
  · have hcomp : ∀ f, ((fun row : TransactionMetaRow => decide (row.blockHeight = height)) ∘
        fun row : TransactionMetaRow => row.withIdentifiers f) = fun row => decide (row.blockHeight = height) := by
      intro f
      funext row
      simp
    rw [List.filter_map, List.filter_map, hcomp, hcomp, filter_metadataRows h]
    refine List.map_congr_left fun row hrow => ?_
    obtain ⟨hmem, hheight⟩ := List.mem_filter.mp hrow
    obtain ⟨hid', hblock⟩ := mem_metadataRows_txId hmem
    rw [of_decide_eq_true hheight] at hblock
    have hid := (h _ hblock).mpr hid'
    rw [TransactionMetaRow.withIdentifiers, TransactionMetaRow.withIdentifiers, identifiersMap_filter _ hid,
      identifiersMap_filter _ hid']
  · exact filter_metadataRows h _ _

end Metadata

/-! ## Windows that agree on a height -/

/-- Two windows hold the same rows for a height. -/
structure AgreeAt (w w' : WindowRows) (height : Int) : Prop where
  relevantTxs : w.relevantAt height = w'.relevantAt height
  dustEvents : w.dustEvents.filter (fun event => event.blockHeight = height) =
    w'.dustEvents.filter (fun event => event.blockHeight = height)
  unshieldedEvents : w.unshieldedEvents.filter (fun event => event.blockHeight = height) =
    w'.unshieldedEvents.filter (fun event => event.blockHeight = height)
  txMetaRows : w.txMetaRows.filter (fun row => row.blockHeight = height) =
    w'.txMetaRows.filter (fun row => row.blockHeight = height)
  globalZswapInputs : w.globalZswapInputs.filter (fun event => event.blockHeight = height) =
    w'.globalZswapInputs.filter (fun event => event.blockHeight = height)
  zswapByTx : ∀ row ∈ w.relevantAt height, w.zswapByTx row.txId = w'.zswapByTx row.txId
  actionsRelevant : ∀ row ∈ w.relevantAt height, w.actionsByTx row.txId = w'.actionsByTx row.txId
  actionsUnshielded : ∀ event ∈ w.unshieldedEvents, event.blockHeight = height →
    w.actionsByTx event.txId = w'.actionsByTx event.txId
  actionsMeta : ∀ row ∈ w.txMetaRows, row.blockHeight = height → w.actionsByTx row.txId = w'.actionsByTx row.txId

namespace AgreeAt
variable {w w' : WindowRows} {height : Int}

theorem shieldedItem_eq (h : AgreeAt w w' height) {row : RelevantTxRow} (hrow : row ∈ w.relevantAt height) :
    w.shieldedItem height row = w'.shieldedItem height row := by
  rw [WindowRows.shieldedItem, h.zswapByTx row hrow, h.actionsRelevant row hrow]
  rfl

theorem transactionMetaItems_eq (h : AgreeAt w w' height) :
    w.transactionMetaItems height = w'.transactionMetaItems height := by
  unfold WindowRows.transactionMetaItems
  rw [← h.txMetaRows]
  refine List.map_congr_left fun row hrow => ?_
  obtain ⟨hmem, hheight⟩ := List.mem_filter.mp hrow
  rw [h.actionsMeta row hmem (of_decide_eq_true hheight)]

theorem unshieldedItems_eq (h : AgreeAt w w' height) : w.unshieldedItems height = w'.unshieldedItems height := by
  unfold WindowRows.unshieldedItems
  rw [← h.unshieldedEvents]
  refine List.map_congr_left fun event hevent => ?_
  obtain ⟨hmem, hheight⟩ := List.mem_filter.mp hevent
  rw [h.actionsUnshielded event hmem (of_decide_eq_true hheight)]

/-- Windows that agree on a height assemble the same items for it. -/
theorem assembleItems_eq (h : AgreeAt w w' height) (shielded : List SortableFeedItem) :
    w.assembleItems height shielded = w'.assembleItems height shielded := by
  rw [WindowRows.assembleItems, h.transactionMetaItems_eq, h.unshieldedItems_eq, WindowRows.zswapInputItems,
    WindowRows.dustItems, h.globalZswapInputs, h.dustEvents]
  rfl

theorem map_shieldedItem_eq (h : AgreeAt w w' height) :
    (w.relevantAt height).map (w.shieldedItem height) = (w'.relevantAt height).map (w'.shieldedItem height) := by
  rw [← h.relevantTxs]
  exact List.map_congr_left fun row hrow => h.shieldedItem_eq hrow

theorem feedItems_eq (h : AgreeAt w w' height) : w.feedItems height = w'.feedItems height := by
  rw [WindowRows.feedItems, h.map_shieldedItem_eq, h.assembleItems_eq, WindowRows.feedItems]

end AgreeAt

/-! ## The window of one height -/

section Window
variable {db : Database} {fromHeight toHeight height : Int}

theorem inBlock_of_mem_relevant {sessionId : Bytes} {row : RelevantTxRow}
    (h : row ∈ getRelevantTransactions db sessionId fromHeight toHeight) : InBlock db row.txId row.blockHeight := by
  obtain ⟨joined, hjoined, rfl⟩ := List.mem_map.mp ((mem_sortBy _).mp h)
  obtain ⟨p, hp, heq⟩ := List.mem_map.mp (mem_leftJoin_fst hjoined)
  have hbase := (mem_join.mp hp).2.1
  rw [heq] at hbase
  exact inBlock_of_mem hbase

theorem inBlock_of_mem_ledgerEvents {select : LedgerEventRow → Bool} {row : LedgerEventRow × TransactionRow × BlockRow}
    (h : row ∈ ledgerEventsInRange db select fromHeight toHeight) : InBlock db row.2.1.id row.2.2.height :=
  inBlock_of_mem (mem_join.mp ((mem_sortBy _).mp h)).2.1

theorem inBlock_of_mem_dust {args : AssemblyArgs} {event : DustEventRow}
    (h : event ∈ fetchDustEvents db args fromHeight toHeight) : InBlock db event.txId event.blockHeight := by
  have hwhere : ∀ select, event ∈ dustEventsWhere db select fromHeight toHeight →
      InBlock db event.txId event.blockHeight := by
    intro select hmem
    obtain ⟨row, hrow, rfl⟩ := List.mem_map.mp hmem
    exact inBlock_of_mem_ledgerEvents hrow
  unfold fetchDustEvents at h
  split_ifs at h with hall
  · exact hwhere _ h
  · unfold getDustEvents at h
    cases hkey : dustPublicKey db args.localSessionId with
    | none => rw [hkey] at h; cases h
    | some key => rw [hkey] at h; exact hwhere _ h

theorem blockTransaction_of_mem_unshieldedUtxoRows {addresses : List Bytes} {isCreate : Bool}
    {txId : UnshieldedUtxoRow → Option Int} {event : UnshieldedUtxoEventRow}
    (h : event ∈ unshieldedUtxoRows db addresses isCreate txId fromHeight toHeight) :
    ∃ tb ∈ blockTransactions db fromHeight toHeight, tb.1.id = event.txId ∧ tb.2.height = event.blockHeight := by
  obtain ⟨joined, hjoined, rfl⟩ := List.mem_map.mp ((mem_sortBy _).mp h)
  exact ⟨joined.1.2, (mem_join.mp (mem_leftJoin_fst hjoined)).2.1, rfl, rfl⟩

theorem inBlock_of_mem_unshieldedUtxoRows {addresses : List Bytes} {isCreate : Bool}
    {txId : UnshieldedUtxoRow → Option Int} {event : UnshieldedUtxoEventRow}
    (h : event ∈ unshieldedUtxoRows db addresses isCreate txId fromHeight toHeight) :
    InBlock db event.txId event.blockHeight := by
  obtain ⟨tb, htb, hid, hheight⟩ := blockTransaction_of_mem_unshieldedUtxoRows h
  exact hid ▸ hheight ▸ inBlock_of_mem htb

theorem inBlock_of_mem_unshielded {sessionId : Bytes} {event : UnshieldedUtxoEventRow}
    (h : event ∈ getUnshieldedUtxoEvents db sessionId fromHeight toHeight) :
    InBlock db event.txId event.blockHeight := by
  unfold getUnshieldedUtxoEvents at h
  dsimp only at h
  split_ifs at h with hnil
  · cases h
  · rcases List.mem_append.mp ((mem_sortBy _).mp h) with h | h
    · exact inBlock_of_mem_unshieldedUtxoRows h
    · exact inBlock_of_mem_unshieldedUtxoRows h

theorem exists_mem_filter_iff {α : Type*} (txId blockHeight : α → Int) {rows rows' : List α}
    (hrows : ∀ row ∈ rows, InBlock db (txId row) (blockHeight row))
    (hfilter : rows.filter (fun row => blockHeight row = height) = rows') {id : Int} (hid : InBlock db id height) :
    (∃ row ∈ rows, txId row = id) ↔ ∃ row ∈ rows', txId row = id := by
  subst hfilter
  constructor
  · rintro ⟨row, hrow, rfl⟩
    exact ⟨row, List.mem_filter.mpr ⟨hrow, decide_eq_true ((hrows row hrow).unique hid)⟩, rfl⟩
  · rintro ⟨row, hrow, rfl⟩
    exact ⟨row, List.mem_of_mem_filter hrow, rfl⟩

/-- The transactions a window asks metadata and contract actions for. -/
def WindowRows.txIds (w : WindowRows) : List Int := walletTxIds w.relevantTxs w.unshieldedEvents w.dustEvents

theorem WindowRows.mem_txIds {w : WindowRows} {id : Int} : id ∈ w.txIds ↔
    (∃ row ∈ w.relevantTxs, row.txId = id) ∨ (∃ event ∈ w.unshieldedEvents, event.txId = id) ∨
      ∃ event ∈ w.dustEvents, event.txId = id := by
  simp only [txIds, walletTxIds, List.mem_append, List.mem_map, or_assoc]

theorem exists_inBlock_of_mem_txIds {args : AssemblyArgs} {id : Int}
    (h : id ∈ (fetchWindow db args fromHeight toHeight).txIds) : ∃ height, InBlock db id height := by
  rcases WindowRows.mem_txIds.mp h with ⟨row, hrow, rfl⟩ | ⟨event, hevent, rfl⟩ | ⟨event, hevent, rfl⟩
  · exact ⟨_, inBlock_of_mem_relevant hrow⟩
  · exact ⟨_, inBlock_of_mem_unshielded hevent⟩
  · exact ⟨_, inBlock_of_mem_dust hevent⟩

/-- Which transactions of a block a window asks for does not depend on the window. -/
theorem mem_txIds_window (args : AssemblyArgs) (hlo : fromHeight ≤ height) (hhi : height ≤ toHeight) {id : Int}
    (hid : InBlock db id height) :
    id ∈ (fetchWindow db args fromHeight toHeight).txIds ↔ id ∈ (fetchWindow db args height height).txIds := by
  have hrel := exists_mem_filter_iff RelevantTxRow.txId RelevantTxRow.blockHeight
    (fun row hrow => inBlock_of_mem_relevant hrow) (filter_getRelevantTransactions args.upstreamSessionId hlo hhi) hid
  have hun := exists_mem_filter_iff UnshieldedUtxoEventRow.txId UnshieldedUtxoEventRow.blockHeight
    (fun row hrow => inBlock_of_mem_unshielded hrow)
    (filter_getUnshieldedUtxoEvents args.localSessionId hlo hhi) hid
  have hdust := exists_mem_filter_iff DustEventRow.txId DustEventRow.blockHeight
    (fun row hrow => inBlock_of_mem_dust hrow) (filter_fetchDustEvents args hlo hhi) hid
  rw [WindowRows.mem_txIds, WindowRows.mem_txIds]
  exact or_congr hrel (or_congr hun hdust)

theorem fetchWindow_actionsByTx (args : AssemblyArgs) {id : Int}
    (h : id ∈ (fetchWindow db args fromHeight toHeight).txIds) :
    (fetchWindow db args fromHeight toHeight).actionsByTx id = contractActionsOf db id :=
  groupBy_getContractActionsForTxs h

theorem fetchWindow_zswapByTx (args : AssemblyArgs) {row : RelevantTxRow}
    (h : row ∈ (fetchWindow db args fromHeight toHeight).relevantTxs) :
    (fetchWindow db args fromHeight toHeight).zswapByTx row.txId = zswapEventsOf db row.txId :=
  groupBy_getZswapEventsForTxs (List.mem_map_of_mem h)

theorem mem_txMetaRows (args : AssemblyArgs) {row : TransactionMetaRow}
    (h : row ∈ (fetchWindow db args fromHeight toHeight).txMetaRows) :
    row.txId ∈ (fetchWindow db args fromHeight toHeight).txIds ∧ InBlock db row.txId row.blockHeight := by
  change row ∈ (if args.includeTxMeta then _ else _) at h
  split_ifs at h with hmeta
  · rw [getTransactionMetadata_eq] at h
    split_ifs at h with htable
    · obtain ⟨row', hrow', rfl⟩ := List.mem_map.mp h
      rw [TransactionMetaRow.withIdentifiers_txId, TransactionMetaRow.withIdentifiers_blockHeight]
      exact mem_metadataRows_txId hrow'
    · exact mem_metadataRows_txId h
  · cases h

theorem globalZswapInputs_fetchWindow (db : Database) (args : AssemblyArgs) (fromHeight toHeight : Int) :
    (fetchWindow db args fromHeight toHeight).globalZswapInputs =
      if args.nullifierMode = .enabled then getAllZswapInputEventsInRange db fromHeight toHeight else [] := by
  unfold fetchWindow
  dsimp only
  cases args.nullifierMode <;> rfl

/-- **Any window that contains a height holds the rows that the window of this height holds.** -/
theorem fetchWindow_agreeAt (db : Database) (args : AssemblyArgs) (hlo : fromHeight ≤ height)
    (hhi : height ≤ toHeight) :
    AgreeAt (fetchWindow db args fromHeight toHeight) (fetchWindow db args height height) height := by
  have hself : ∀ {α : Type} (blockHeight : α → Int) (rows rows' : List α),
      rows.filter (fun row => blockHeight row = height) = rows' →
      rows.filter (fun row => blockHeight row = height) = rows'.filter (fun row => blockHeight row = height) := by
    rintro α blockHeight rows _ rfl
    rw [List.filter_filter]
    simp
  have hids : ∀ {id : Int}, InBlock db id height → _ := fun hid => mem_txIds_window args hlo hhi hid
  have hactions : ∀ {id : Int}, InBlock db id height → id ∈ (fetchWindow db args fromHeight toHeight).txIds →
      (fetchWindow db args fromHeight toHeight).actionsByTx id =
        (fetchWindow db args height height).actionsByTx id := by
    intro id hid hmem
    rw [fetchWindow_actionsByTx args hmem, fetchWindow_actionsByTx args ((hids hid).mp hmem)]
  have hrelevant : (fetchWindow db args fromHeight toHeight).relevantAt height =
      (fetchWindow db args height height).relevantAt height := hself RelevantTxRow.blockHeight _ _
    (filter_getRelevantTransactions args.upstreamSessionId hlo hhi)
  refine
    { relevantTxs := hrelevant
      dustEvents := hself DustEventRow.blockHeight _ _ (filter_fetchDustEvents args hlo hhi)
      unshieldedEvents := hself UnshieldedUtxoEventRow.blockHeight _ _
        (filter_getUnshieldedUtxoEvents args.localSessionId hlo hhi)
      txMetaRows := ?_
      globalZswapInputs := ?_
      zswapByTx := ?_
      actionsRelevant := ?_
      actionsUnshielded := ?_
      actionsMeta := ?_ }
  · show (if args.includeTxMeta then _ else _ : List TransactionMetaRow).filter _ =
      (if args.includeTxMeta then _ else _ : List TransactionMetaRow).filter _
    split_ifs with hmeta
    · exact filter_getTransactionMetadata (fun id hid => hids hid) _ _ _
    · rfl
  · rw [globalZswapInputs_fetchWindow, globalZswapInputs_fetchWindow]
    split_ifs
    · exact hself ZswapInputEventRow.blockHeight _ _ (filter_getAllZswapInputEventsInRange hlo hhi)
    · rfl
  · intro row hrow
    have hrow' : row ∈ (fetchWindow db args height height).relevantAt height := hrelevant ▸ hrow
    rw [fetchWindow_zswapByTx args (List.mem_of_mem_filter hrow),
      fetchWindow_zswapByTx args (List.mem_of_mem_filter hrow')]
  · intro row hrow
    obtain ⟨hmem, hheight⟩ := List.mem_filter.mp hrow
    have hblock := inBlock_of_mem_relevant hmem
    rw [of_decide_eq_true hheight] at hblock
    exact hactions hblock (WindowRows.mem_txIds.mpr (Or.inl ⟨row, hmem, rfl⟩))
  · rintro event hmem rfl
    exact hactions (inBlock_of_mem_unshielded hmem) (WindowRows.mem_txIds.mpr (Or.inr (Or.inl ⟨event, hmem, rfl⟩)))
  · rintro row hmem rfl
    obtain ⟨hid, hblock⟩ := mem_txMetaRows args hmem
    exact hactions hblock hid

/-- The items of the block at a height as `get_feed` assembles them. -/
def blockItems (db : Database) (args : AssemblyArgs) (height : Int) : List OrderedFeedItem :=
  (fetchWindow db args height height).feedItems height

theorem feedItems_fetchWindow (db : Database) (args : AssemblyArgs) (hlo : fromHeight ≤ height)
    (hhi : height ≤ toHeight) :
    (fetchWindow db args fromHeight toHeight).feedItems height = blockItems db args height :=
  (fetchWindow_agreeAt db args hlo hhi).feedItems_eq

end Window

end NocyWalletFeed
