import NocyWalletFeed.Ranges

/-!
# One metadata item for each transaction, and first

With `include_tx_meta`, the transactions of a block that a relevant transaction, a dust event or a UTXO event names have
one metadata item each. Its key has the first phase and the ordinal 0, below every other item of the transaction.

* `mem_metaTxIds_iff` : which transactions of a block have a metadata row;
* `FeedItem.metaTxId`, `FeedItem.walletTxId`, `FeedItem.txId` : the transaction an item is about;
* `metadataFirst_blockItems`, `metadata_first` : the items of a block and of the bundles of both assemblies.
-/

namespace NocyWalletFeed
open Codec Relational OrderBy

/-! ## Transactions of items -/

namespace FeedItem

def metaTxId : FeedItem → Option Int
  | .transactionMeta data => some data.txId
  | _ => none

/-- The transaction of an item that makes it one of the wallet's. -/
def walletTxId : FeedItem → Option Int
  | .shieldedRelevantTx data => some data.txId
  | .dustLedgerEvent data => some data.txId
  | .unshieldedUtxo data => some data.txId
  | _ => none

/-- The transaction of an item; a merkle update has none. -/
def txId : FeedItem → Option Int
  | .transactionMeta data => some data.txId
  | .shieldedRelevantTx data => some data.txId
  | .zswapInputRaw data => some data.txId
  | .dustLedgerEvent data => some data.txId
  | .unshieldedDelta data => some data.txId
  | .unshieldedUtxo data => some data.txId
  | .merkleCollapsedUpdate _ => none
  | .control _ => none

end FeedItem

/-- The metadata items of a list: one for each transaction that has an item of the wallet, none for others, and no item
of a transaction before its metadata. -/
structure MetadataFirst (items : List OrderedFeedItem) : Prop where
  once : ∀ txId, (items.filterMap (·.item.metaTxId)).count txId =
    if txId ∈ items.filterMap (·.item.walletTxId) then 1 else 0
  first : items.Pairwise fun a b => ∀ txId, b.item.metaTxId = some txId → a.item.txId ≠ some txId

/-! ## Rows -/

section Rows
variable {db : Database} {args : AssemblyArgs} {height : Int}

theorem inBlock_of_mem_txIds {id : Int} (h : id ∈ (fetchWindow db args height height).txIds) :
    InBlock db id height := by
  rcases WindowRows.mem_txIds.mp h with ⟨row, hrow, rfl⟩ | ⟨event, hevent, rfl⟩ | ⟨event, hevent, rfl⟩
  · have hrow' : row ∈ getRelevantTransactions db args.upstreamSessionId height height := hrow
    rw [← filter_getRelevantTransactions args.upstreamSessionId le_rfl le_rfl] at hrow'
    exact of_decide_eq_true (List.mem_filter.mp hrow').2 ▸ inBlock_of_mem_relevant hrow
  · have hevent' : event ∈ getUnshieldedUtxoEvents db args.localSessionId height height := hevent
    rw [← filter_getUnshieldedUtxoEvents args.localSessionId le_rfl le_rfl] at hevent'
    exact of_decide_eq_true (List.mem_filter.mp hevent').2 ▸ inBlock_of_mem_unshielded hevent
  · have hevent' : event ∈ fetchDustEvents db args height height := hevent
    rw [← filter_fetchDustEvents args le_rfl le_rfl] at hevent'
    exact of_decide_eq_true (List.mem_filter.mp hevent').2 ▸ inBlock_of_mem_dust hevent

theorem mem_metaTxIds_iff (hmeta : args.includeTxMeta = true) {id : Int} :
    id ∈ ((fetchWindow db args height height).txMetaRows.filter (fun row => row.blockHeight = height)).map (·.txId) ↔
      id ∈ (fetchWindow db args height height).txIds := by
  constructor
  · intro h
    obtain ⟨row, hrow, rfl⟩ := List.mem_map.mp h
    exact (mem_txMetaRows args (List.mem_of_mem_filter hrow)).1
  · intro h
    have hblock := inBlock_of_mem_txIds h
    have hrows : id ∈ (fetchWindow db args height height).txMetaRows.map (·.txId) := by
      show id ∈ (if args.includeTxMeta then _ else _ : List TransactionMetaRow).map (·.txId)
      rw [if_pos hmeta, map_txId_getTransactionMetadata]
      obtain ⟨tb, htb, rfl⟩ := hblock
      obtain ⟨ht, hb, hid, -, -⟩ := mem_blockTransactions.mp htb
      refine List.mem_map.mpr ⟨tb, mem_join.mpr ⟨List.mem_filter.mpr ⟨ht, decide_eq_true h⟩, hb, ?_⟩, rfl⟩
      exact decide_eq_true hid
    obtain ⟨row, hrow, rfl⟩ := List.mem_map.mp hrows
    have hheight := (mem_txMetaRows args hrow).2.unique hblock
    exact List.mem_map_of_mem (List.mem_filter.mpr ⟨hrow, decide_eq_true hheight⟩)

end Rows

/-! ## The items of a block -/

section Block
variable {db : Database} {args : AssemblyArgs} {height : Int}

theorem sequence_of_metaTxId {s : SortableFeedItem} (h : s ∈ blockSortables db args height) {txId : Int}
    (hmeta : s.item.metaTxId = some txId) : s.sequence = ⟨height, txId, PHASE_TX, 0⟩ := by
  rcases WindowRows.mem_assembleItems.mp h with h | h | h | h | h
  all_goals obtain ⟨row, -, rfl⟩ := List.mem_map.mp h
  · obtain rfl := Option.some.inj hmeta
    rfl
  all_goals cases hmeta

/-- The other items of a transaction are above its metadata. -/
theorem sequence_of_txId {s : SortableFeedItem} (h : s ∈ blockSortables db args height) {txId : Int}
    (htx : s.item.txId = some txId) :
    s.item.metaTxId = some txId ∨ (⟨height, txId, PHASE_TX, 0⟩ : SequenceKey) < s.sequence := by
  have hphases : PHASE_TX < PHASE_LEDGER_EVENT ∧ PHASE_TX < PHASE_UNSHIELDED ∧ (0 : Int) < 1 := by decide
  rcases WindowRows.mem_assembleItems.mp h with h | h | h | h | h
  all_goals
    obtain ⟨row, -, rfl⟩ := List.mem_map.mp h
    obtain rfl := Option.some.inj htx
  · exact Or.inl rfl
  · exact Or.inr (SequenceKey.lt_iff.mpr (Or.inr ⟨rfl, Or.inr ⟨rfl, Or.inr ⟨rfl, hphases.2.2⟩⟩⟩))
  · exact Or.inr (SequenceKey.lt_iff.mpr (Or.inr ⟨rfl, Or.inr ⟨rfl, Or.inl hphases.1⟩⟩))
  · exact Or.inr (SequenceKey.lt_iff.mpr (Or.inr ⟨rfl, Or.inr ⟨rfl, Or.inl hphases.1⟩⟩))
  · exact Or.inr (SequenceKey.lt_iff.mpr (Or.inr ⟨rfl, Or.inr ⟨rfl, Or.inl hphases.2.1⟩⟩))

theorem perm_metaTxIds (db : Database) (args : AssemblyArgs) (height : Int) :
    ((blockSortables db args height).filterMap (fun s => s.item.metaTxId)).Perm
      (((fetchWindow db args height height).txMetaRows.filter (fun row => row.blockHeight = height)).map (·.txId)) := by
  let w := fetchWindow db args height height
  have hmeta : (w.transactionMetaItems height).filterMap (fun s => s.item.metaTxId) =
      (w.txMetaRows.filter (fun row => row.blockHeight = height)).map (·.txId) := by
    refine filterMap_map_eq_map (fun row => ?_) _
    rfl
  have hshielded : ((w.relevantAt height).map (w.shieldedItem height)).filterMap (fun s => s.item.metaTxId) = [] :=
    filterMap_map_eq_nil (fun _ => rfl) _
  have hzswap : (w.zswapInputItems height).filterMap (fun s => s.item.metaTxId) = [] :=
    filterMap_map_eq_nil (fun _ => rfl) _
  have hdust : (w.dustItems height).filterMap (fun s => s.item.metaTxId) = [] := filterMap_map_eq_nil (fun _ => rfl) _
  have hunshielded : (w.unshieldedItems height).filterMap (fun s => s.item.metaTxId) = [] :=
    filterMap_map_eq_nil (fun _ => rfl) _
  refine (WindowRows.perm_filterMap_assembleItems _ _).trans (List.Perm.of_eq ?_)
  rw [hmeta, hshielded, hzswap, hdust, hunshielded]
  simp only [List.append_nil]
  rfl

/-- The transactions of the wallet's items in a block are those its window asks metadata for. -/
theorem mem_walletTxIds_blockSortables {id : Int} :
    id ∈ (blockSortables db args height).filterMap (fun s => s.item.walletTxId) ↔
      id ∈ (fetchWindow db args height height).txIds := by
  rw [WindowRows.mem_txIds, List.mem_filterMap]
  constructor
  · rintro ⟨s, hs, hid⟩
    rcases WindowRows.mem_assembleItems.mp hs with h | h | h | h | h
    all_goals obtain ⟨row, hrow, rfl⟩ := List.mem_map.mp h
    · cases hid
    · exact Or.inl ⟨row, List.mem_of_mem_filter hrow, Option.some.inj hid⟩
    · cases hid
    · exact Or.inr (Or.inr ⟨row, List.mem_of_mem_filter hrow, Option.some.inj hid⟩)
    · exact Or.inr (Or.inl ⟨row, List.mem_of_mem_filter hrow, Option.some.inj hid⟩)
  · rintro (⟨row, hrow, rfl⟩ | ⟨event, hevent, rfl⟩ | ⟨event, hevent, rfl⟩)
    · change row ∈ getRelevantTransactions db args.upstreamSessionId height height at hrow
      rw [← relevantAt_fetchWindow] at hrow
      exact ⟨_, WindowRows.mem_assembleItems.mpr (Or.inr (Or.inl (List.mem_map_of_mem hrow))), rfl⟩
    · change event ∈ getUnshieldedUtxoEvents db args.localSessionId height height at hevent
      rw [← filter_getUnshieldedUtxoEvents args.localSessionId le_rfl le_rfl] at hevent
      exact ⟨_, WindowRows.mem_assembleItems.mpr (Or.inr (Or.inr (Or.inr (Or.inr (List.mem_map_of_mem hevent))))), rfl⟩
    · change event ∈ fetchDustEvents db args height height at hevent
      rw [← filter_fetchDustEvents args le_rfl le_rfl] at hevent
      exact ⟨_, WindowRows.mem_assembleItems.mpr (Or.inr (Or.inr (Or.inr (Or.inl (List.mem_map_of_mem hevent))))), rfl⟩

theorem metadataFirst_blockItems (hmeta : args.includeTxMeta = true) :
    MetadataFirst (blockItems db args height) := by
  have hmap : ∀ f : FeedItem → Option Int, (blockItems db args height).filterMap (fun item => f item.item) =
      (blockSortables db args height).filterMap (fun s => f s.item) := fun f => by
    rw [blockItems_eq, List.filterMap_map]
    rfl
  have hnodup : ((blockSortables db args height).filterMap (fun s => s.item.metaTxId)).Nodup :=
    (perm_metaTxIds db args height).nodup_iff.mpr ((nodup_metaTxIds args height height).sublist
      (List.filter_sublist.map _))
  constructor
  · intro txId
    rw [hmap, hmap, hnodup.count]
    refine if_congr ?_ rfl rfl
    rw [mem_walletTxIds_blockSortables, ← mem_metaTxIds_iff hmeta, (perm_metaTxIds db args height).mem_iff]
  · rw [blockItems_eq, List.pairwise_map]
    refine List.Pairwise.imp_of_mem (fun {a b} ha hb hab => ?_)
      ((pairwise_blockSortables db args height).and (List.pairwise_filterMap.mp hnodup))
    intro txId hmetaTx htx
    obtain ⟨hle, hne⟩ := hab
    rcases sequence_of_txId ha htx with hmetaTx' | hlt
    · exact hne txId hmetaTx' txId hmetaTx rfl
    · rw [← sequence_of_metaTxId hb hmetaTx] at hlt
      exact absurd hle hlt.not_ge

end Block

/-! ## The bundles of a range -/

theorem not_isUpdate_of_txId {item : FeedItem} {txId : Int} (h : item.txId = some txId) : (!item.isUpdate) = true := by
  cases item with
  | merkleCollapsedUpdate data => cases h
  | _ => rfl

theorem txId_of_metaTxId {item : FeedItem} {txId : Int} (h : item.metaTxId = some txId) : item.txId = some txId := by
  cases item with
  | transactionMeta data => exact h
  | _ => cases h

theorem metadataFirst_withoutUpdates {items : List OrderedFeedItem} :
    MetadataFirst (withoutUpdates items) ↔ MetadataFirst items := by
  have hmap : ∀ f : FeedItem → Option Int, (∀ data, f (.merkleCollapsedUpdate data) = none) →
      (withoutUpdates items).filterMap (fun item => f item.item) = items.filterMap (fun item => f item.item) := by
    intro f hf
    rw [withoutUpdates, List.filterMap_filter]
    refine List.filterMap_congr fun item _ => ?_
    cases hitem : item.item with
    | merkleCollapsedUpdate data => exact (hf data).symm
    | _ => rfl
  have honce := hmap FeedItem.metaTxId fun _ => rfl
  have hwallet := hmap FeedItem.walletTxId fun _ => rfl
  have hfirst : (withoutUpdates items).Pairwise (fun a b => ∀ txId, b.item.metaTxId = some txId →
      a.item.txId ≠ some txId) ↔ items.Pairwise fun a b => ∀ txId, b.item.metaTxId = some txId →
        a.item.txId ≠ some txId := by
    rw [withoutUpdates, List.pairwise_filter]
    constructor
    · refine List.Pairwise.imp fun {a b} h txId hmetaTx htx => ?_
      exact h (not_isUpdate_of_txId htx) (not_isUpdate_of_txId (txId_of_metaTxId hmetaTx)) txId hmetaTx htx
    · exact List.Pairwise.imp fun {a b} h _ _ => h
  constructor
  · exact fun h => ⟨fun txId => honce ▸ hwallet ▸ h.once txId, hfirst.mp h.first⟩
  · exact fun h => ⟨fun txId => honce.symm ▸ hwallet.symm ▸ h.once txId, hfirst.mpr h.first⟩

/-- **One metadata item for each transaction, first.** With `include_tx_meta` and no cursor, in every block of both
assemblies each transaction of a relevant transaction, dust event or UTXO event has exactly one metadata item, no item
of the transaction is before it, and no other transaction has one. -/
theorem metadata_first (db : Database) (args : AssemblyArgs) (merkle : MerkleBehaviour)
    (fromHeight toHeight lastMerkleEndIndex : Int) (hmeta : args.includeTxMeta = true) :
    (∀ bundle ∈ buildBundles (fetchWindow db args fromHeight toHeight) none (getBlocksInRange db fromHeight toHeight),
        MetadataFirst bundle.items) ∧
      ∀ bundle ∈ (buildBlockBundles db args merkle (getBlocksInRange db fromHeight toHeight) lastMerkleEndIndex).1,
        MetadataFirst bundle.items := by
  refine ⟨fun bundle hbundle => ?_, fun bundle hbundle => ?_⟩
  · rw [items_of_mem_polled hbundle]
    exact metadataFirst_blockItems hmeta
  · rw [← metadataFirst_withoutUpdates, items_of_mem_streamed merkle lastMerkleEndIndex hbundle]
    exact metadataFirst_blockItems hmeta

namespace Sample

def metaArgs : AssemblyArgs := { args with includeTxMeta := true }

end Sample

/-- A UTXO created in one block and spent in the next: each block begins with the metadata of its transaction. -/
theorem metadata_first_spentNext :
    ((buildBundles (fetchWindow Sample.spentNext Sample.metaArgs 0 1) none
        (getBlocksInRange Sample.spentNext 0 1)).flatMap (·.items)).map (·.sequence) =
      ["0:1:0:0", "0:1:2:1", "1:2:0:0", "1:2:2:1"] ∧
      ∀ bundle ∈ buildBundles (fetchWindow Sample.spentNext Sample.metaArgs 0 1) none
        (getBlocksInRange Sample.spentNext 0 1), MetadataFirst bundle.items :=
  ⟨by decide, (metadata_first Sample.spentNext Sample.metaArgs (Sample.iteration Sample.spentNext).merkle 0 1 (-1)
    rfl).1⟩

end NocyWalletFeed
