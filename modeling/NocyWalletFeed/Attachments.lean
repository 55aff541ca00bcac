import NocyWalletFeed.Ranges

/-!
# Contract actions and zswap events of an item

The actions and the zswap events of a window are fetched for a set of transactions and regrouped by transaction. Every
transaction an item is about is in the set, so the item carries all rows of its transaction, in id order:

* `actionsOfTransaction`, `zswapEventsOfTransaction` : the rows of one transaction;
* `contractActionsOf_eq`, `zswapEventsOf_eq` : what is fetched and grouped for a transaction that is stored;
* `attachments_complete` : the items of both assemblies.
-/

namespace NocyWalletFeed
open Codec Relational OrderBy

/-! ## Rows of one transaction -/

def actionsOfTransaction (db : Database) (txId : Int) : List ContractActionSummary :=
  (sortBy (·.id) (db.contractActions.filter (fun ca => ca.transactionId = txId))).map fun ca =>
    ⟨hexEncode ca.address, ca.variant, ca.entryPoint⟩

/-- The hex of the zswap ledger events of a transaction, in id order. -/
def zswapEventsOfTransaction (db : Database) (txId : Int) : List String :=
  (sortBy (·.id) (db.ledgerEvents.filter (fun le => le.grouping = .zswap ∧ le.transactionId = txId))).map fun le =>
    hexEncode le.raw

/-- What an item carries of its transaction is all there is. -/
def Attached (db : Database) : FeedItem → Prop
  | .transactionMeta data => data.contractActions = actionsOfTransaction db data.txId
  | .shieldedRelevantTx data => data.contractActions = actionsOfTransaction db data.txId ∧
      data.zswapEvents = zswapEventsOfTransaction db data.txId
  | .unshieldedUtxo data => data.contractActions = actionsOfTransaction db data.txId
  | _ => True

section Lookup
variable {db : Database} {t : TransactionRow}

theorem transactions_filter_singleton (ht : t ∈ db.transactions) :
    db.transactions.filter (fun t' => t'.id ∈ [t.id]) = [t] := by
  rw [← filter_key db.constraints.transactionIds ht]
  exact List.filter_congr fun t' _ => by simp

theorem groupBy_map_const {ρ ν : Type} (rows : List ρ) (k : Int) (value : ρ → ν) :
    groupBy (rows.map (fun row => (k, value row))) k = rows.map value := by
  rw [groupBy_eq, List.filter_eq_self.mpr, List.map_map]
  · rfl
  · intro entry hentry
    obtain ⟨row, -, rfl⟩ := List.mem_map.mp hentry
    exact decide_eq_true rfl

theorem contractActionsOf_eq (ht : t ∈ db.transactions) :
    contractActionsOf db t.id = actionsOfTransaction db t.id := by
  rw [contractActionsOf, getContractActionsForTxs, if_neg (not_isEmpty_of_mem List.mem_cons_self),
    transactions_filter_singleton ht, join_singleton]
  show groupBy (List.map _ (sortBy _ (List.map _ _))) t.id = _
  rw [sortBy_map _ (fun ca : ContractActionRow => ca.id) _ _ fun a _ b _ => by simp [Prod.Lex.toLex_le_toLex],
    List.map_map]
  exact groupBy_map_const _ t.id fun ca : ContractActionRow =>
    (⟨hexEncode ca.address, ca.variant, ca.entryPoint⟩ : ContractActionSummary)

theorem zswapEventsOf_eq (ht : t ∈ db.transactions) : zswapEventsOf db t.id = zswapEventsOfTransaction db t.id := by
  have hrows : (db.ledgerEvents.filter (fun le => le.grouping = .zswap)).filter (fun le => le.transactionId = t.id) =
      db.ledgerEvents.filter (fun le => le.grouping = .zswap ∧ le.transactionId = t.id) := by
    rw [List.filter_filter]
    exact List.filter_congr fun le _ => by rw [← Bool.decide_and, decide_eq_decide, and_comm]
  rw [zswapEventsOf, getZswapEventsForTxs, if_neg (not_isEmpty_of_mem List.mem_cons_self),
    transactions_filter_singleton ht, join_singleton, hrows]
  show groupBy (List.map _ (sortBy _ (List.map _ (List.map _ _)))) t.id = _
  rw [List.map_map, sortBy_map _ (fun le : LedgerEventRow => le.id) _ _ fun a _ b _ => by
    simp [Prod.Lex.toLex_le_toLex], List.map_map]
  exact groupBy_map_const _ t.id fun le : LedgerEventRow => hexEncode le.raw

theorem contractActionsOf_inBlock {txId height : Int} (h : InBlock db txId height) :
    contractActionsOf db txId = actionsOfTransaction db txId := by
  obtain ⟨tb, htb, rfl⟩ := h
  exact contractActionsOf_eq (mem_blockTransactions.mp htb).1

theorem zswapEventsOf_inBlock {txId height : Int} (h : InBlock db txId height) :
    zswapEventsOf db txId = zswapEventsOfTransaction db txId := by
  obtain ⟨tb, htb, rfl⟩ := h
  exact zswapEventsOf_eq (mem_blockTransactions.mp htb).1

end Lookup

/-! ## The items of a block -/

section Block
variable {db : Database} {args : AssemblyArgs} {height : Int}

/-- A transaction of the window carries its actions. -/
theorem actionsByTx_of_mem {txId height' : Int}
    (h : txId ∈ (fetchWindow db args height height).txIds) (hblock : InBlock db txId height') :
    (fetchWindow db args height height).actionsByTx txId = actionsOfTransaction db txId := by
  rw [fetchWindow_actionsByTx args h, contractActionsOf_inBlock hblock]

/-- A window whose maps hold the rows of its transactions gives items with all attachments. -/
theorem attached_of_mem_feedSortables {w : WindowRows}
    (hmeta : ∀ row ∈ w.txMetaRows, w.actionsByTx row.txId = actionsOfTransaction db row.txId)
    (hrelevant : ∀ row ∈ w.relevantTxs, w.actionsByTx row.txId = actionsOfTransaction db row.txId ∧
      w.zswapByTx row.txId = zswapEventsOfTransaction db row.txId)
    (hunshielded : ∀ event ∈ w.unshieldedEvents, w.actionsByTx event.txId = actionsOfTransaction db event.txId)
    {s : SortableFeedItem} (h : s ∈ w.feedSortables height) : Attached db s.item := by
  rcases WindowRows.mem_assembleItems.mp h with h | h | h | h | h
  · obtain ⟨row, hrow, rfl⟩ := List.mem_map.mp h
    exact hmeta row (List.mem_of_mem_filter hrow)
  · obtain ⟨row, hrow, rfl⟩ := List.mem_map.mp h
    exact hrelevant row (List.mem_of_mem_filter hrow)
  · obtain ⟨event, -, rfl⟩ := List.mem_map.mp h
    exact trivial
  · obtain ⟨event, -, rfl⟩ := List.mem_map.mp h
    exact trivial
  · obtain ⟨event, hevent, rfl⟩ := List.mem_map.mp h
    exact hunshielded event (List.mem_of_mem_filter hevent)

theorem attached_of_mem_blockItems {item : OrderedFeedItem} (h : item ∈ blockItems db args height) :
    Attached db item.item := by
  obtain ⟨s, hs, rfl⟩ := List.mem_map.mp h
  refine attached_of_mem_feedSortables (fun row hrow => ?_) (fun row hrow => ?_) (fun event hevent => ?_) hs
  · obtain ⟨hid, hblock⟩ := mem_txMetaRows args hrow
    exact actionsByTx_of_mem hid hblock
  · have hblock := inBlock_of_mem_relevant hrow
    rw [fetchWindow_zswapByTx args hrow]
    have hid : row.txId ∈ (fetchWindow db args height height).txIds :=
      WindowRows.mem_txIds.mpr (Or.inl ⟨row, hrow, rfl⟩)
    exact ⟨actionsByTx_of_mem hid hblock, zswapEventsOf_inBlock hblock⟩
  · have hid : event.txId ∈ (fetchWindow db args height height).txIds :=
      WindowRows.mem_txIds.mpr (Or.inr (Or.inl ⟨event, hevent, rfl⟩))
    exact actionsByTx_of_mem hid (inBlock_of_mem_unshielded hevent)

end Block

/-- **Attachments are complete and ordered.** In both assemblies of a range, under all flags and after a cursor, every
item with contract actions has all those of its transaction in id order, and every relevant transaction has all its
zswap events in id order. -/
theorem attachments_complete (db : Database) (args : AssemblyArgs) (fromCursor : Option SequenceKey)
    (merkle : MerkleBehaviour) (fromHeight toHeight lastMerkleEndIndex : Int) :
    (∀ bundle ∈ buildBundles (fetchWindow db args fromHeight toHeight) fromCursor
        (getBlocksInRange db fromHeight toHeight), ∀ item ∈ bundle.items, Attached db item.item) ∧
      ∀ bundle ∈ (buildBlockBundles db args merkle (getBlocksInRange db fromHeight toHeight) lastMerkleEndIndex).1,
        ∀ item ∈ bundle.items, Attached db item.item := by
  refine ⟨fun bundle hbundle item hitem => ?_, fun bundle hbundle item hitem => ?_⟩
  · obtain ⟨blockMeta, hblock, rfl⟩ := List.mem_map.mp (List.mem_of_mem_filter hbundle)
    obtain ⟨hlo, hhi, -⟩ := mem_getBlocksInRange.mp hblock
    have hmem := mem_filterCursorBlock hitem
    rw [feedItems_fetchWindow db args hlo hhi] at hmem
    exact attached_of_mem_blockItems hmem
  · by_cases hupdate : item.item.isUpdate = true
    · cases hitem' : item.item with
      | merkleCollapsedUpdate data => exact trivial
      | _ => rw [hitem'] at hupdate; cases hupdate
    · have hmem : item ∈ withoutUpdates bundle.items := List.mem_filter.mpr ⟨hitem, by simpa using hupdate⟩
      rw [items_of_mem_streamed merkle lastMerkleEndIndex hbundle] at hmem
      exact attached_of_mem_blockItems hmem

end NocyWalletFeed
