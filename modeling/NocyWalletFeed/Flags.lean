import NocyWalletFeed.Ranges

/-!
# Flags only remove items

`include_nullifiers`, `include_tx_meta` and `include_all_dust` decide which rows a window fetches. With more of them the
window has more rows, and the maps that items read their attachments from hold the same for the rows it had before.

* `Fewer` : one window has some of the rows of another, in the same order;
* `Fewer.feedItems_sublist` : the items of a block are then a sublist, as a stable sort of fewer items leaves them in
  place;
* `fetchWindow_fewer` : the window under fewer flags;
* `flags_only_remove` : the items of a block under the flags of a request, before and after a cursor.
-/

namespace NocyWalletFeed
open Codec Relational OrderBy

/-! ## Windows with fewer rows -/

/-- The rows of `w` are among those of `w'` in the same order, and have the same attachments there. -/
structure Fewer (w w' : WindowRows) : Prop where
  relevantTxs : w.relevantTxs = w'.relevantTxs
  dustEvents : w.dustEvents.Sublist w'.dustEvents
  unshieldedEvents : w.unshieldedEvents = w'.unshieldedEvents
  txMetaRows : w.txMetaRows.Sublist w'.txMetaRows
  globalZswapInputs : w.globalZswapInputs.Sublist w'.globalZswapInputs
  zswapByTx : ∀ row ∈ w.relevantTxs, w.zswapByTx row.txId = w'.zswapByTx row.txId
  actionsRelevant : ∀ row ∈ w.relevantTxs, w.actionsByTx row.txId = w'.actionsByTx row.txId
  actionsUnshielded : ∀ event ∈ w.unshieldedEvents, w.actionsByTx event.txId = w'.actionsByTx event.txId
  actionsMeta : ∀ row ∈ w.txMetaRows, w.actionsByTx row.txId = w'.actionsByTx row.txId

theorem streamShieldedItems_congr {w w' : WindowRows} {height : Int} {rows : List RelevantTxRow}
    (h : ∀ row ∈ rows, w.shieldedItem height row = w'.shieldedItem height row) (merkle : MerkleBehaviour)
    (position : MerklePosition) :
    streamShieldedItems w height merkle position rows = streamShieldedItems w' height merkle position rows := by
  induction rows generalizing position with
  | nil => rfl
  | cons row rows ih =>
    rw [streamShieldedItems_cons, streamShieldedItems_cons, rowItems, rowItems, h row List.mem_cons_self,
      ih fun row' hmem => h row' (List.mem_cons_of_mem row hmem)]

namespace Fewer
variable {w w' : WindowRows}

theorem transactionMetaItems_sublist (h : Fewer w w') (height : Int) :
    (w.transactionMetaItems height).Sublist (w'.transactionMetaItems height) := by
  have hactions : w.transactionMetaItems height =
      ({ w with actionsByTx := w'.actionsByTx } : WindowRows).transactionMetaItems height := by
    refine List.map_congr_left fun row hrow => ?_
    rw [h.actionsMeta row (List.mem_of_mem_filter hrow)]
  rw [hactions]
  exact (h.txMetaRows.filter _).map _

theorem relevantAt_eq (h : Fewer w w') (height : Int) : w.relevantAt height = w'.relevantAt height := by
  rw [WindowRows.relevantAt, h.relevantTxs, WindowRows.relevantAt]

theorem shieldedItem_eq (h : Fewer w w') (height : Int) {row : RelevantTxRow} (hrow : row ∈ w.relevantTxs) :
    w.shieldedItem height row = w'.shieldedItem height row := by
  rw [WindowRows.shieldedItem, h.zswapByTx row hrow, h.actionsRelevant row hrow]
  rfl

theorem shieldedItems_eq (h : Fewer w w') (height : Int) :
    (w.relevantAt height).map (w.shieldedItem height) = (w'.relevantAt height).map (w'.shieldedItem height) := by
  rw [← h.relevantAt_eq]
  exact List.map_congr_left fun row hrow => h.shieldedItem_eq height (List.mem_of_mem_filter hrow)

theorem unshieldedItems_eq (h : Fewer w w') (height : Int) : w.unshieldedItems height = w'.unshieldedItems height := by
  unfold WindowRows.unshieldedItems
  rw [← h.unshieldedEvents]
  refine List.map_congr_left fun event hevent => ?_
  rw [h.actionsUnshielded event (List.mem_of_mem_filter hevent)]

/-- A window with fewer rows has fewer items in a block, in the same order, around the same shielded items. -/
theorem assembleItems_sublist (h : Fewer w w') (height : Int) (shielded : List SortableFeedItem) :
    (w.assembleItems height shielded).Sublist (w'.assembleItems height shielded) := by
  refine sublist_sortBy _ ?_
  rw [h.unshieldedItems_eq]
  refine List.Sublist.append_right ?_ _
  refine List.Sublist.append (List.Sublist.append ?_ ?_) ?_
  · exact List.Sublist.append_right (h.transactionMetaItems_sublist height) _
  · exact (h.globalZswapInputs.filter _).map _
  · exact (h.dustEvents.filter _).map _

theorem feedItems_sublist (h : Fewer w w') (height : Int) : (w.feedItems height).Sublist (w'.feedItems height) := by
  rw [WindowRows.feedItems, h.shieldedItems_eq]
  exact (h.assembleItems_sublist height _).map _

theorem streamBundle_sublist (h : Fewer w w') (merkle : MerkleBehaviour) (position : MerklePosition)
    (blockMeta : BlockMeta) :
    (streamBundle w merkle position blockMeta).1.items.Sublist (streamBundle w' merkle position blockMeta).1.items ∧
      (streamBundle w merkle position blockMeta).2 = (streamBundle w' merkle position blockMeta).2 := by
  have hpushed : streamShieldedItems w blockMeta.height merkle position (w.relevantAt blockMeta.height) =
      streamShieldedItems w' blockMeta.height merkle position (w'.relevantAt blockMeta.height) := by
    rw [← h.relevantAt_eq]
    exact streamShieldedItems_congr (fun row hrow => h.shieldedItem_eq _ (List.mem_of_mem_filter hrow)) merkle position
  unfold streamBundle
  rw [hpushed]
  exact ⟨(h.assembleItems_sublist _ _).map _, rfl⟩

theorem streamBundles_sublist (h : Fewer w w') (merkle : MerkleBehaviour) (position : MerklePosition)
    (blocksMeta : List BlockMeta) :
    List.Forall₂ (fun bundle bundle' : BlockBundle => bundle.blockMeta = bundle'.blockMeta ∧
        bundle.items.Sublist bundle'.items)
      (streamBundles w merkle position blocksMeta).1 (streamBundles w' merkle position blocksMeta).1 ∧
      (streamBundles w merkle position blocksMeta).2 = (streamBundles w' merkle position blocksMeta).2 := by
  induction blocksMeta generalizing position with
  | nil => exact ⟨List.Forall₂.nil, rfl⟩
  | cons blockMeta blocksMeta ih =>
    obtain ⟨hitems, hposition⟩ := h.streamBundle_sublist merkle position blockMeta
    obtain ⟨hrest, hlast⟩ := ih (streamBundle w' merkle position blockMeta).2
    show List.Forall₂ _ (_ :: (streamBundles w merkle (streamBundle w merkle position blockMeta).2 blocksMeta).1) _ ∧
      (streamBundles w merkle (streamBundle w merkle position blockMeta).2 blocksMeta).2 = _
    rw [hposition]
    exact ⟨List.Forall₂.cons ⟨rfl, hitems⟩ hrest, hlast⟩

end Fewer

/-! ## Metadata of fewer transactions -/

section Metadata
variable {db : Database} {txIds txIds' : List Int}

theorem metadataRows_sublist (h : txIds ⊆ txIds') (includeRaw inlineIdentifiers : Bool) :
    (metadataRows db txIds includeRaw inlineIdentifiers).Sublist
      (metadataRows db txIds' includeRaw inlineIdentifiers) := by
  have hselect : (db.transactions.filter (fun t => t.id ∈ txIds)).Sublist
      (db.transactions.filter (fun t => t.id ∈ txIds')) :=
    List.monotone_filter_right _ fun t ht => decide_eq_true (h (of_decide_eq_true ht))
  exact (leftJoin_sublist _ _ (join_sublist _ _ hselect)).map _

/-- A metadata query for fewer transactions returns some of the rows, each with the same identifiers. -/
theorem getTransactionMetadata_sublist (h : txIds ⊆ txIds') (includeRaw includeIdentifiers : Bool)
    (identifiersSource : IdentifiersSource) :
    (getTransactionMetadata db txIds includeRaw includeIdentifiers identifiersSource).Sublist
      (getTransactionMetadata db txIds' includeRaw includeIdentifiers identifiersSource) := by
  rw [getTransactionMetadata_eq, getTransactionMetadata_eq]
  split_ifs with htable
  · have hidentifiers : ∀ row ∈ metadataRows db txIds includeRaw (includeIdentifiers ∧ identifiersSource = .inline),
        row.withIdentifiers (identifiersMap ((db.transactionIdentifiers.getD []).filter
          (fun row => row.transactionId ∈ txIds))) =
        row.withIdentifiers (identifiersMap ((db.transactionIdentifiers.getD []).filter
          (fun row => row.transactionId ∈ txIds'))) := by
      intro row hrow
      have hid := (mem_metadataRows_txId hrow).1
      rw [TransactionMetaRow.withIdentifiers, TransactionMetaRow.withIdentifiers, identifiersMap_filter _ hid,
        identifiersMap_filter _ (h hid)]
    rw [List.map_congr_left hidentifiers]
    exact (metadataRows_sublist h _ _).map _
  · exact metadataRows_sublist h _ _

end Metadata

/-! ## Windows under fewer flags -/

/-- Parameters that differ in flags that only select rows. -/
structure ArgsLe (args args' : AssemblyArgs) : Prop where
  localSessionId : args.localSessionId = args'.localSessionId
  upstreamSessionId : args.upstreamSessionId = args'.upstreamSessionId
  nullifierMode : args.nullifierMode = .enabled → args'.nullifierMode = .enabled
  includeTxMeta : args.includeTxMeta = true → args'.includeTxMeta = true
  includeRawTx : args.includeRawTx = args'.includeRawTx
  includeIdentifiers : args.includeIdentifiers = args'.includeIdentifiers
  includeAllDust : args.includeAllDust = true → args'.includeAllDust = true
  identifiersSource : args.includeTxMeta = true → args.identifiersSource = args'.identifiersSource

section Window
variable {db : Database} {args args' : AssemblyArgs} {fromHeight toHeight : Int}

theorem dustEventsWhere_sublist {select select' : LedgerEventRow → Bool} (h : ∀ le, select le → select' le) :
    (dustEventsWhere db select fromHeight toHeight).Sublist (dustEventsWhere db select' fromHeight toHeight) := by
  refine List.Sublist.map _ (sublist_sortBy _ (join_sublist _ _ ?_))
  refine List.monotone_filter_right _ fun le hle => ?_
  have hle := of_decide_eq_true hle
  exact decide_eq_true ⟨hle.1, h le hle.2⟩

theorem getDustEvents_sublist (sessionId : Bytes) :
    (getDustEvents db sessionId fromHeight toHeight).Sublist (getAllDustEvents db fromHeight toHeight) := by
  unfold getDustEvents
  cases dustPublicKey db sessionId with
  | none => exact List.nil_sublist _
  | some key => exact dustEventsWhere_sublist fun _ _ => rfl

theorem fetchDustEvents_sublist (h : ArgsLe args args') :
    (fetchDustEvents db args fromHeight toHeight).Sublist (fetchDustEvents db args' fromHeight toHeight) := by
  unfold fetchDustEvents
  by_cases hall : args.includeAllDust = true
  · rw [if_pos hall, if_pos (h.includeAllDust hall)]
  · rw [if_neg hall, h.localSessionId]
    split_ifs
    · exact getDustEvents_sublist _
    · exact List.Sublist.refl _

theorem txIds_subset (h : ArgsLe args args') :
    (fetchWindow db args fromHeight toHeight).txIds ⊆ (fetchWindow db args' fromHeight toHeight).txIds := by
  have hdust : (fetchDustEvents db args fromHeight toHeight).Sublist (fetchDustEvents db args' fromHeight toHeight) :=
    fetchDustEvents_sublist h
  show walletTxIds (getRelevantTransactions db args.upstreamSessionId fromHeight toHeight)
      (getUnshieldedUtxoEvents db args.localSessionId fromHeight toHeight) _ ⊆
    walletTxIds (getRelevantTransactions db args'.upstreamSessionId fromHeight toHeight)
      (getUnshieldedUtxoEvents db args'.localSessionId fromHeight toHeight) _
  rw [h.upstreamSessionId, h.localSessionId]
  exact ((hdust.map _).append_left _).subset

theorem actionsByTx_eq (h : ArgsLe args args') {id : Int} (hid : id ∈ (fetchWindow db args fromHeight toHeight).txIds) :
    (fetchWindow db args fromHeight toHeight).actionsByTx id =
      (fetchWindow db args' fromHeight toHeight).actionsByTx id := by
  rw [fetchWindow_actionsByTx args hid, fetchWindow_actionsByTx args' (txIds_subset h hid)]

theorem txMetaRows_sublist (h : ArgsLe args args') : (fetchWindow db args fromHeight toHeight).txMetaRows.Sublist
    (fetchWindow db args' fromHeight toHeight).txMetaRows := by
  show (if args.includeTxMeta then _ else _ : List TransactionMetaRow).Sublist
    (if args'.includeTxMeta then _ else _ : List TransactionMetaRow)
  by_cases hmeta : args.includeTxMeta = true
  · rw [if_pos hmeta, if_pos (h.includeTxMeta hmeta), h.includeRawTx, h.includeIdentifiers, h.identifiersSource hmeta]
    exact getTransactionMetadata_sublist (txIds_subset h) _ _ _
  · rw [if_neg hmeta]
    exact List.nil_sublist _

theorem globalZswapInputs_sublist (h : ArgsLe args args') :
    (fetchWindow db args fromHeight toHeight).globalZswapInputs.Sublist
      (fetchWindow db args' fromHeight toHeight).globalZswapInputs := by
  rw [globalZswapInputs_fetchWindow, globalZswapInputs_fetchWindow]
  by_cases hmode : args.nullifierMode = .enabled
  · rw [if_pos hmode, if_pos (h.nullifierMode hmode)]
  · rw [if_neg hmode]
    exact List.nil_sublist _

/-- **The window under fewer flags.** -/
theorem fetchWindow_fewer (db : Database) (h : ArgsLe args args') (fromHeight toHeight : Int) :
    Fewer (fetchWindow db args fromHeight toHeight) (fetchWindow db args' fromHeight toHeight) := by
  have hrelevant : getRelevantTransactions db args.upstreamSessionId fromHeight toHeight =
      getRelevantTransactions db args'.upstreamSessionId fromHeight toHeight := by rw [h.upstreamSessionId]
  have hunshielded : getUnshieldedUtxoEvents db args.localSessionId fromHeight toHeight =
      getUnshieldedUtxoEvents db args'.localSessionId fromHeight toHeight := by rw [h.localSessionId]
  refine
    { relevantTxs := hrelevant
      dustEvents := fetchDustEvents_sublist h
      unshieldedEvents := hunshielded
      txMetaRows := txMetaRows_sublist h
      globalZswapInputs := globalZswapInputs_sublist h
      zswapByTx := fun row hrow => ?_
      actionsRelevant := fun row hrow => actionsByTx_eq h (WindowRows.mem_txIds.mpr (Or.inl ⟨row, hrow, rfl⟩))
      actionsUnshielded := fun event hevent =>
        actionsByTx_eq h (WindowRows.mem_txIds.mpr (Or.inr (Or.inl ⟨event, hevent, rfl⟩)))
      actionsMeta := fun row hrow => actionsByTx_eq h (mem_txMetaRows args hrow).1 }
  have hrow' : row ∈ (fetchWindow db args' fromHeight toHeight).relevantTxs := by
    show row ∈ getRelevantTransactions db args'.upstreamSessionId fromHeight toHeight
    rw [← hrelevant]
    exact hrow
  rw [fetchWindow_zswapByTx args hrow, fetchWindow_zswapByTx args' hrow']

end Window

/-! ## Flags of a request -/

/-- Two requests of one session, the first with fewer of the flags `include_nullifiers`, `include_tx_meta` and
`include_all_dust`. -/
structure FlagsLe (query query' : FeedQuery) : Prop where
  sessionId : query.sessionId = query'.sessionId
  includeNullifiers : query.includeNullifiers ≤ query'.includeNullifiers
  includeTxMeta : query.includeTxMeta ≤ query'.includeTxMeta
  includeRawTx : query.includeRawTx = query'.includeRawTx
  includeIdentifiers : query.includeIdentifiers = query'.includeIdentifiers
  includeAllDust : query.includeAllDust ≤ query'.includeAllDust

theorem FlagsLe.argsLe {db : Database} {query query' : FeedQuery} (h : FlagsLe query query') {localSessionId : Bytes}
    {args args' : AssemblyArgs} (hargs : resolveArgs db query localSessionId = .ok args)
    (hargs' : resolveArgs db query' localSessionId = .ok args') : ArgsLe args args' := by
  obtain ⟨mode, upstream, hmode, hupstream, rfl⟩ := resolveArgs_ok hargs
  obtain ⟨mode', upstream', hmode', hupstream', rfl⟩ := resolveArgs_ok hargs'
  refine
    { localSessionId := rfl
      upstreamSessionId := Except.ok.inj (hupstream.symm.trans hupstream')
      nullifierMode := fun henabled => ?_
      includeTxMeta := h.includeTxMeta
      includeRawTx := h.includeRawTx
      includeIdentifiers := h.includeIdentifiers
      includeAllDust := h.includeAllDust
      identifiersSource := fun hmeta => ?_ }
  · by_cases hnullifiers : query.includeNullifiers = true
    · rw [hnullifiers] at hmode
      rw [h.includeNullifiers hnullifiers, ← h.sessionId] at hmode'
      exact (Except.ok.inj (hmode'.symm.trans hmode)).trans henabled
    · rw [Bool.not_eq_true] at hnullifiers
      rw [hnullifiers] at hmode
      exact absurd ((Except.ok.inj hmode).trans henabled) (by decide)
  · show (if query.includeTxMeta && query.includeIdentifiers then _ else _) =
      (if query'.includeTxMeta && query'.includeIdentifiers then _ else _)
    have hmeta' : query'.includeTxMeta = true := h.includeTxMeta hmeta
    rw [show query.includeTxMeta = true from hmeta, hmeta', h.includeIdentifiers]

/-- **Flags only remove items.** For two requests of a session, the first with fewer of the flags `include_nullifiers`,
`include_tx_meta` and `include_all_dust`, over any range the items of each block in the first are a sublist of those in
the second, before and after the filter of one cursor. -/
theorem flags_only_remove (db : Database) {query query' : FeedQuery} (h : FlagsLe query query')
    {localSessionId : Bytes} {args args' : AssemblyArgs} (hargs : resolveArgs db query localSessionId = .ok args)
    (hargs' : resolveArgs db query' localSessionId = .ok args') (fromHeight toHeight height : Int) :
    ((fetchWindow db args fromHeight toHeight).feedItems height).Sublist
        ((fetchWindow db args' fromHeight toHeight).feedItems height) ∧
      ∀ fromCursor,
        (filterCursorBlock fromCursor height ((fetchWindow db args fromHeight toHeight).feedItems height)).Sublist
          (filterCursorBlock fromCursor height ((fetchWindow db args' fromHeight toHeight).feedItems height)) := by
  have hitems := (fetchWindow_fewer db (h.argsLe hargs hargs') fromHeight toHeight).feedItems_sublist height
  refine ⟨hitems, fun fromCursor => ?_⟩
  cases fromCursor with
  | none => exact hitems
  | some cursor =>
    unfold filterCursorBlock
    dsimp only
    split_ifs
    · exact hitems.filter _
    · exact hitems

theorem streamed_flags_only_remove (db : Database) {args args' : AssemblyArgs} (h : ArgsLe args args')
    (merkle : MerkleBehaviour) (blocksMeta : List BlockMeta) (lastMerkleEndIndex : Int) :
    List.Forall₂ (fun bundle bundle' : BlockBundle => bundle.blockMeta = bundle'.blockMeta ∧
        bundle.items.Sublist bundle'.items)
      (buildBlockBundles db args merkle blocksMeta lastMerkleEndIndex).1
      (buildBlockBundles db args' merkle blocksMeta lastMerkleEndIndex).1 ∧
      (buildBlockBundles db args merkle blocksMeta lastMerkleEndIndex).2 =
        (buildBlockBundles db args' merkle blocksMeta lastMerkleEndIndex).2 := by
  unfold buildBlockBundles
  cases blocksMeta.head? with
  | none => exact ⟨List.Forall₂.nil, rfl⟩
  | some first =>
    cases blocksMeta.getLast? with
    | none => exact ⟨List.Forall₂.nil, rfl⟩
    | some last =>
      obtain ⟨hbundles, hposition⟩ := (fetchWindow_fewer db h first.height last.height).streamBundles_sublist merkle
        ⟨lastMerkleEndIndex, 0⟩ blocksMeta
      exact ⟨hbundles, congrArg MerklePosition.lastMerkleEndIndex hposition⟩

namespace Sample

/-- A block with a zswap input in its first transaction, a dust event of another wallet in its second, and a UTXO of the
session. -/
def eventBlock : Database :=
  ⟨{ tables [block 0 1 0] [transaction 1 0, transaction 2 0] [utxo 1 1 none] with
      ledgerEvents := [⟨1, 1, .zswap, .zswapInput, [1]⟩, ⟨2, 2, .dust, .other "DustInitialUtxo", [2]⟩] }, by decide⟩

def fullQuery : FeedQuery := { sessionId := hexEncode sessionId, includeAllDust := true }

def fullArgs : AssemblyArgs :=
  { localSessionId := sessionId, upstreamSessionId := sessionId, nullifierMode := .enabled, includeTxMeta := true,
    includeRawTx := false, includeIdentifiers := true, includeAllDust := true, identifiersSource := .inline }

theorem resolveArgs_fullQuery : resolveArgs eventBlock fullQuery sessionId = .ok fullArgs := by
  have hparse : parseSessionId (hexEncode sessionId) = .ok sessionId := parseSessionId_hexEncode (by decide)
  have hmode : getSessionNullifierStreaming eventBlock (hexEncode sessionId) = .ok .enabled := by
    rw [getSessionNullifierStreaming, hparse]
    rfl
  simp only [resolveArgs, fullQuery, hmode]
  rfl

end Sample

/-- A request without the three flags and one with all of them: three keys and two items less. -/
theorem flags_only_remove_eventBlock :
    ((fetchWindow Sample.eventBlock Sample.args 0 0).feedItems 0).map (·.sequence) = ["0:1:2:1"] ∧
      ((fetchWindow Sample.eventBlock Sample.fullArgs 0 0).feedItems 0).map (·.sequence) =
        ["0:1:0:0", "0:1:1:1", "0:1:2:1", "0:2:0:0", "0:2:1:2"] ∧
      ((fetchWindow Sample.eventBlock Sample.args 0 0).feedItems 0).Sublist
        ((fetchWindow Sample.eventBlock Sample.fullArgs 0 0).feedItems 0) := by
  have hflags : FlagsLe Sample.query Sample.fullQuery := ⟨rfl, by decide, by decide, rfl, rfl, by decide⟩
  refine ⟨by decide, by decide, ?_⟩
  exact (flags_only_remove Sample.eventBlock hflags rfl Sample.resolveArgs_fullQuery 0 0 0).1

end NocyWalletFeed
