import NocyWalletFeed.Windows

/-!
# Sequence keys of a block

* `blockSortables` : the items of a block with their keys, sorted (`pairwise_blockSortables`);
* `inBlock_of_mem_blockSortables`, `sequence_of_mem_blockSortables` : each key names a transaction of the block and
  survives the cursor text;
* `retainAfter_map_toOrdered` : the cursor filter compares keys;
* `HasRows`, `blockSortables_ne_nil_iff` : which blocks have items;
* `KeysDistinct`, `nodup_blockSortables_iff` : when all keys of a block differ.
-/

namespace NocyWalletFeed
open Codec Relational OrderBy

/-! ## Items with their keys -/

/-- The items of a block with their keys, as `get_feed` sorts them. -/
def WindowRows.feedSortables (w : WindowRows) (height : Int) : List SortableFeedItem :=
  w.assembleItems height ((w.relevantAt height).map (w.shieldedItem height))

/-- The items of the block at a height with their keys. -/
def blockSortables (db : Database) (args : AssemblyArgs) (height : Int) : List SortableFeedItem :=
  (fetchWindow db args height height).feedSortables height

theorem blockItems_eq (db : Database) (args : AssemblyArgs) (height : Int) :
    blockItems db args height = (blockSortables db args height).map SortableFeedItem.toOrdered := rfl

theorem pairwise_blockSortables (db : Database) (args : AssemblyArgs) (height : Int) :
    (blockSortables db args height).Pairwise (fun a b => a.sequence ≤ b.sequence) := pairwise_sortBy _ _

namespace WindowRows
variable {w : WindowRows} {height : Int}

theorem mem_assembleItems {shielded : List SortableFeedItem} {s : SortableFeedItem} :
    s ∈ w.assembleItems height shielded ↔ s ∈ w.transactionMetaItems height ∨ s ∈ shielded ∨
      s ∈ w.zswapInputItems height ∨ s ∈ w.dustItems height ∨ s ∈ w.unshieldedItems height := by
  simp only [assembleItems, mem_sortBy, List.mem_append, or_assoc]

/-- What is selected from the items of a block is what is selected from their kinds. -/
theorem perm_filterMap_assembleItems {β : Type*} (select : SortableFeedItem → Option β)
    (shielded : List SortableFeedItem) : ((w.assembleItems height shielded).filterMap select).Perm
      ((w.transactionMetaItems height).filterMap select ++ shielded.filterMap select ++
        (w.zswapInputItems height).filterMap select ++ (w.dustItems height).filterMap select ++
        (w.unshieldedItems height).filterMap select) := by
  refine ((perm_sortBy _ _).filterMap select).trans (List.Perm.of_eq ?_)
  simp only [List.filterMap_append]

end WindowRows

/-! ## Ranges of the key fields -/

section Wide
variable {db : Database} {args : AssemblyArgs} {fromHeight toHeight height : Int}

theorem InBlock.inI64 {txId : Int} (h : InBlock db txId height) : InI64 txId ∧ InI64 height := by
  obtain ⟨tb, hmem, rfl⟩ := h
  obtain ⟨ht, hb, -, hlo, hhi⟩ := mem_blockTransactions.mp hmem
  exact ⟨db.constraints.transactionIdWide _ ht, le_antisymm hlo hhi ▸ db.constraints.blockHeightWide _ hb⟩

theorem mem_ledgerEventsInRange {select : LedgerEventRow → Bool} {row : LedgerEventRow × TransactionRow × BlockRow} :
    row ∈ ledgerEventsInRange db select fromHeight toHeight ↔ row.1 ∈ db.ledgerEvents ∧ select row.1 = true ∧
      row.2 ∈ blockTransactions db fromHeight toHeight ∧ row.1.transactionId = row.2.1.id := by
  obtain ⟨le, tb⟩ := row
  rw [ledgerEventsInRange, mem_sortBy, mem_join, List.mem_filter, decide_eq_true_iff, and_assoc]

theorem mem_getAllZswapInputEventsInRange {event : ZswapInputEventRow}
    (h : event ∈ getAllZswapInputEventsInRange db fromHeight toHeight) :
    (∃ le ∈ db.ledgerEvents, le.id = event.ledgerEventId ∧ le.grouping = .zswap) ∧
      InBlock db event.txId event.blockHeight := by
  obtain ⟨row, hrow, rfl⟩ := List.mem_map.mp h
  obtain ⟨hle, hselect, hbase, -⟩ := mem_ledgerEventsInRange.mp hrow
  exact ⟨⟨row.1, hle, rfl, (of_decide_eq_true hselect).1⟩, inBlock_of_mem hbase⟩

theorem mem_dustEventsWhere {select : LedgerEventRow → Bool} {event : DustEventRow}
    (h : event ∈ dustEventsWhere db select fromHeight toHeight) :
    ∃ le ∈ db.ledgerEvents, le.id = event.ledgerEventId ∧ le.grouping = .dust := by
  obtain ⟨row, hrow, rfl⟩ := List.mem_map.mp h
  obtain ⟨hle, hselect, -, -⟩ := mem_ledgerEventsInRange.mp hrow
  exact ⟨row.1, hle, rfl, (of_decide_eq_true hselect).1⟩

theorem fetchDustEvents_cases (db : Database) (args : AssemblyArgs) (fromHeight toHeight : Int) :
    fetchDustEvents db args fromHeight toHeight = [] ∨
      ∃ select, fetchDustEvents db args fromHeight toHeight = dustEventsWhere db select fromHeight toHeight := by
  unfold fetchDustEvents
  split_ifs with hall
  · exact Or.inr ⟨_, rfl⟩
  · unfold getDustEvents
    cases dustPublicKey db args.localSessionId with
    | none => exact Or.inl rfl
    | some key => exact Or.inr ⟨_, rfl⟩

theorem mem_fetchDustEvents {event : DustEventRow} (h : event ∈ fetchDustEvents db args fromHeight toHeight) :
    ∃ le ∈ db.ledgerEvents, le.id = event.ledgerEventId ∧ le.grouping = .dust := by
  rcases fetchDustEvents_cases db args fromHeight toHeight with heq | ⟨select, heq⟩
  · rw [heq] at h
    cases h
  · rw [heq] at h
    exact mem_dustEventsWhere h

theorem mem_unshieldedUtxoRows {addresses : List Bytes} {isCreate : Bool} {txId : UnshieldedUtxoRow → Option Int}
    {event : UnshieldedUtxoEventRow} (h : event ∈ unshieldedUtxoRows db addresses isCreate txId fromHeight toHeight) :
    ∃ u ∈ db.unshieldedUtxos, u.owner ∈ addresses ∧ u.id = event.utxoId ∧ txId u = some event.txId := by
  obtain ⟨joined, hjoined, rfl⟩ := List.mem_map.mp ((mem_sortBy _).mp h)
  obtain ⟨hu, -, hon⟩ := mem_join.mp (mem_leftJoin_fst hjoined)
  obtain ⟨hu, howner⟩ := List.mem_filter.mp hu
  exact ⟨joined.1.1, hu, of_decide_eq_true howner, rfl, of_decide_eq_true hon⟩

theorem perm_getUnshieldedUtxoEvents (db : Database) (sessionId : Bytes) (fromHeight toHeight : Int) :
    (getUnshieldedUtxoEvents db sessionId fromHeight toHeight).Perm
      (unshieldedUtxoRows db (sessionAddresses db sessionId) true (fun uu => some uu.creatingTransactionId)
          fromHeight toHeight ++
        unshieldedUtxoRows db (sessionAddresses db sessionId) false (·.spendingTransactionId) fromHeight toHeight) := by
  unfold getUnshieldedUtxoEvents
  dsimp only
  split_ifs with hnil
  · have hnone : ∀ isCreate txId, unshieldedUtxoRows db (sessionAddresses db sessionId) isCreate txId
        fromHeight toHeight = [] := by
      intro isCreate txId
      refine List.eq_nil_iff_forall_not_mem.mpr fun event hmem => ?_
      obtain ⟨u, -, howner, -⟩ := mem_unshieldedUtxoRows hmem
      rw [List.isEmpty_iff.mp hnil] at howner
      cases howner
    rw [hnone, hnone]
    rfl
  · exact perm_sortBy _ _

theorem mem_getUnshieldedUtxoEvents {sessionId : Bytes} {event : UnshieldedUtxoEventRow} :
    event ∈ getUnshieldedUtxoEvents db sessionId fromHeight toHeight ↔
      event ∈ unshieldedUtxoRows db (sessionAddresses db sessionId) true (fun uu => some uu.creatingTransactionId)
          fromHeight toHeight ∨
        event ∈ unshieldedUtxoRows db (sessionAddresses db sessionId) false (·.spendingTransactionId)
          fromHeight toHeight :=
  (perm_getUnshieldedUtxoEvents db sessionId fromHeight toHeight).mem_iff.trans List.mem_append

/-- Every key of a block names a transaction of the block. -/
theorem inBlock_of_mem_blockSortables {s : SortableFeedItem} (h : s ∈ blockSortables db args height) :
    s.sequence.blockHeight = height ∧ InBlock db s.sequence.txId height := by
  rcases WindowRows.mem_assembleItems.mp h with h | h | h | h | h
  · obtain ⟨row, hrow, rfl⟩ := List.mem_map.mp h
    obtain ⟨hmem, hheight⟩ := List.mem_filter.mp hrow
    exact ⟨rfl, of_decide_eq_true hheight ▸ (mem_txMetaRows args hmem).2⟩
  · obtain ⟨row, hrow, rfl⟩ := List.mem_map.mp h
    obtain ⟨hmem, hheight⟩ := List.mem_filter.mp hrow
    exact ⟨rfl, of_decide_eq_true hheight ▸ inBlock_of_mem_relevant hmem⟩
  · obtain ⟨event, hevent, rfl⟩ := List.mem_map.mp h
    obtain ⟨hmem, hheight⟩ := List.mem_filter.mp hevent
    rw [globalZswapInputs_fetchWindow] at hmem
    split_ifs at hmem
    · exact ⟨rfl, of_decide_eq_true hheight ▸ (mem_getAllZswapInputEventsInRange hmem).2⟩
    · cases hmem
  · obtain ⟨event, hevent, rfl⟩ := List.mem_map.mp h
    obtain ⟨hmem, hheight⟩ := List.mem_filter.mp hevent
    exact ⟨rfl, of_decide_eq_true hheight ▸ inBlock_of_mem_dust hmem⟩
  · obtain ⟨event, hevent, rfl⟩ := List.mem_map.mp h
    obtain ⟨hmem, hheight⟩ := List.mem_filter.mp hevent
    exact ⟨rfl, of_decide_eq_true hheight ▸ inBlock_of_mem_unshielded hmem⟩

theorem sequence_of_mem_blockSortables {s : SortableFeedItem} (h : s ∈ blockSortables db args height) :
    s.sequence.blockHeight = height ∧ s.sequence.Wide := by
  obtain ⟨hheight, hblock⟩ := inBlock_of_mem_blockSortables h
  obtain ⟨hid, hh⟩ := hblock.inI64
  have hphase : InI64 PHASE_TX ∧ InI64 PHASE_LEDGER_EVENT ∧ InI64 PHASE_UNSHIELDED ∧ InI64 0 ∧ InI64 1 := by decide
  obtain ⟨htx, hledger, hunshielded, hzero, hone⟩ := hphase
  suffices hrest : InI64 s.sequence.phase ∧ InI64 s.sequence.ordinal from
    ⟨hheight, hheight ▸ hh, hid, hrest.1, hrest.2⟩
  rcases WindowRows.mem_assembleItems.mp h with h | h | h | h | h
  · obtain ⟨row, -, rfl⟩ := List.mem_map.mp h
    exact ⟨htx, hzero⟩
  · obtain ⟨row, -, rfl⟩ := List.mem_map.mp h
    exact ⟨htx, hone⟩
  · obtain ⟨event, hevent, rfl⟩ := List.mem_map.mp h
    have hmem := List.mem_of_mem_filter hevent
    rw [globalZswapInputs_fetchWindow] at hmem
    split_ifs at hmem
    · obtain ⟨⟨le, hle, hid', -⟩, -⟩ := mem_getAllZswapInputEventsInRange hmem
      exact ⟨hledger, hid' ▸ db.constraints.ledgerEventIdWide le hle⟩
    · cases hmem
  · obtain ⟨event, hevent, rfl⟩ := List.mem_map.mp h
    obtain ⟨le, hle, hid', -⟩ := mem_fetchDustEvents (List.mem_of_mem_filter hevent)
    exact ⟨hledger, hid' ▸ db.constraints.ledgerEventIdWide le hle⟩
  · obtain ⟨event, hevent, rfl⟩ := List.mem_map.mp h
    refine ⟨hunshielded, ?_⟩
    rcases mem_getUnshieldedUtxoEvents.mp (List.mem_of_mem_filter hevent) with hmem | hmem
    · obtain ⟨u, hu, -, hid', -⟩ := mem_unshieldedUtxoRows hmem
      exact hid' ▸ db.constraints.unshieldedUtxoIdWide u hu
    · obtain ⟨u, hu, -, hid', -⟩ := mem_unshieldedUtxoRows hmem
      exact hid' ▸ db.constraints.unshieldedUtxoIdWide u hu

end Wide

/-! ## The cursor filter -/

/-- The cursor filter compares keys, as every key survives its text form. -/
theorem retainAfter_map_toOrdered (cursor : SequenceKey) {items : List SortableFeedItem}
    (h : ∀ s ∈ items, s.sequence.Wide) : retainAfter cursor (items.map SortableFeedItem.toOrdered) =
      (items.filter (fun s => cursor < s.sequence)).map SortableFeedItem.toOrdered := by
  rw [retainAfter, List.filter_map]
  refine congrArg _ (List.filter_congr fun s hs => ?_)
  simp only [Function.comp_apply, SortableFeedItem.toOrdered, parseCursor_toCursor (h s hs), gt_iff_lt]

/-! ## Blocks with items -/

section Rows
variable {db : Database} {args : AssemblyArgs} {height : Int}

/-- The block at a height has something for the session: a relevant transaction, an unshielded UTXO event, a dust event,
or a zswap input while nullifiers are streamed. -/
def HasRows (db : Database) (args : AssemblyArgs) (height : Int) : Prop :=
  getRelevantTransactions db args.upstreamSessionId height height ≠ [] ∨
    getUnshieldedUtxoEvents db args.localSessionId height height ≠ [] ∨
    fetchDustEvents db args height height ≠ [] ∨
    args.nullifierMode = .enabled ∧ getAllZswapInputEventsInRange db height height ≠ []

instance : Decidable (HasRows db args height) := inferInstanceAs (Decidable (_ ∨ _ ∨ _ ∨ _))

theorem relevantAt_fetchWindow : (fetchWindow db args height height).relevantAt height =
    getRelevantTransactions db args.upstreamSessionId height height :=
  filter_getRelevantTransactions args.upstreamSessionId le_rfl le_rfl

theorem ne_nil_of_mem_txIds {w : WindowRows} {id : Int} (h : id ∈ w.txIds) :
    w.relevantTxs ≠ [] ∨ w.unshieldedEvents ≠ [] ∨ w.dustEvents ≠ [] := by
  rcases WindowRows.mem_txIds.mp h with ⟨row, hrow, -⟩ | ⟨event, hevent, -⟩ | ⟨event, hevent, -⟩
  · exact Or.inl (List.ne_nil_of_mem hrow)
  · exact Or.inr (Or.inl (List.ne_nil_of_mem hevent))
  · exact Or.inr (Or.inr (List.ne_nil_of_mem hevent))

/-- **A block has items exactly when it has rows.** -/
theorem blockSortables_ne_nil_iff : blockSortables db args height ≠ [] ↔ HasRows db args height := by
  constructor
  · intro hne
    obtain ⟨s, hs⟩ := List.exists_mem_of_ne_nil _ hne
    rcases WindowRows.mem_assembleItems.mp hs with h | h | h | h | h
    · obtain ⟨row, hrow, -⟩ := List.mem_map.mp h
      rcases ne_nil_of_mem_txIds (mem_txMetaRows args (List.mem_of_mem_filter hrow)).1 with hr | hu | hd
      · exact Or.inl hr
      · exact Or.inr (Or.inl hu)
      · exact Or.inr (Or.inr (Or.inl hd))
    · obtain ⟨row, hrow, -⟩ := List.mem_map.mp h
      exact Or.inl (List.ne_nil_of_mem (List.mem_of_mem_filter hrow))
    · obtain ⟨event, hevent, -⟩ := List.mem_map.mp h
      have hmem := List.mem_of_mem_filter hevent
      rw [globalZswapInputs_fetchWindow] at hmem
      split_ifs at hmem with hmode
      · exact Or.inr (Or.inr (Or.inr ⟨hmode, List.ne_nil_of_mem hmem⟩))
      · cases hmem
    · obtain ⟨event, hevent, -⟩ := List.mem_map.mp h
      exact Or.inr (Or.inr (Or.inl (List.ne_nil_of_mem (List.mem_of_mem_filter hevent))))
    · obtain ⟨event, hevent, -⟩ := List.mem_map.mp h
      exact Or.inr (Or.inl (List.ne_nil_of_mem (List.mem_of_mem_filter hevent)))
  · intro h
    suffices hmem : ∃ s, s ∈ blockSortables db args height by
      obtain ⟨s, hs⟩ := hmem
      exact List.ne_nil_of_mem hs
    rcases h with h | h | h | ⟨hmode, h⟩
    · obtain ⟨row, hrow⟩ := List.exists_mem_of_ne_nil _ h
      rw [← relevantAt_fetchWindow] at hrow
      exact ⟨_, WindowRows.mem_assembleItems.mpr (Or.inr (Or.inl (List.mem_map_of_mem hrow)))⟩
    · obtain ⟨event, hevent⟩ := List.exists_mem_of_ne_nil _ h
      rw [← filter_getUnshieldedUtxoEvents args.localSessionId le_rfl le_rfl] at hevent
      exact ⟨_, WindowRows.mem_assembleItems.mpr (Or.inr (Or.inr (Or.inr (Or.inr (List.mem_map_of_mem hevent)))))⟩
    · obtain ⟨event, hevent⟩ := List.exists_mem_of_ne_nil _ h
      rw [← filter_fetchDustEvents args le_rfl le_rfl] at hevent
      exact ⟨_, WindowRows.mem_assembleItems.mpr (Or.inr (Or.inr (Or.inr (Or.inl (List.mem_map_of_mem hevent)))))⟩
    · obtain ⟨event, hevent⟩ := List.exists_mem_of_ne_nil _ h
      rw [← filter_getAllZswapInputEventsInRange le_rfl le_rfl] at hevent
      refine ⟨_, WindowRows.mem_assembleItems.mpr (Or.inr (Or.inr (Or.inl (List.mem_map_of_mem (a := event) ?_))))⟩
      rw [globalZswapInputs_fetchWindow, if_pos hmode]
      exact hevent

end Rows

/-! ## Ties -/

section Ties
variable {db : Database} {args : AssemblyArgs} {height : Int}

instance {txId : Int} : Decidable (InBlock db txId height) :=
  inferInstanceAs (Decidable (∃ tb ∈ blockTransactions db height height, tb.1.id = txId))

/-- No transaction of a block is listed twice for the session's wallet. -/
def RelevantOnce (db : Database) (sessionId : Bytes) (height : Int) : Prop :=
  (((sessionRelevantTransactions db sessionId).map (·.transactionId)).filter (fun id => InBlock db id height)).Nodup

instance {sessionId : Bytes} : Decidable (RelevantOnce db sessionId height) :=
  inferInstanceAs (Decidable (List.Nodup _))

/-- A UTXO of a registered address that the transaction creating it also spends, in the block at a height. -/
def CreatedAndSpent (db : Database) (localSessionId : Bytes) (height : Int) : Prop :=
  ∃ u ∈ db.unshieldedUtxos, u.owner ∈ sessionAddresses db localSessionId ∧
    u.spendingTransactionId = some u.creatingTransactionId ∧ InBlock db u.creatingTransactionId height

instance {localSessionId : Bytes} : Decidable (CreatedAndSpent db localSessionId height) :=
  inferInstanceAs (Decidable (∃ u ∈ db.unshieldedUtxos, _))

/-- The rows of a block give distinct sequence keys. -/
def KeysDistinct (db : Database) (args : AssemblyArgs) (height : Int) : Prop :=
  RelevantOnce db args.upstreamSessionId height ∧ ¬ CreatedAndSpent db args.localSessionId height

instance : Decidable (KeysDistinct db args height) := inferInstanceAs (Decidable (_ ∧ _))

theorem nodup_blockTransactions (db : Database) (fromHeight toHeight : Int) :
    ((blockTransactions db fromHeight toHeight).map (·.1.id)).Nodup := by
  have hsub := map_fst_join_sublist (fun (t : TransactionRow) (b : BlockRow) => t.blockId = b.id) (fun t => t.blockId)
    db.transactions db.constraints.blockIds (fun _ _ h => (of_decide_eq_true h).symm)
  have hids : (blockTransactions db fromHeight toHeight).map (·.1.id) =
      ((blockTransactions db fromHeight toHeight).map Prod.fst).map (·.id) := by
    rw [List.map_map]
    rfl
  rw [hids]
  exact db.constraints.transactionIds.sublist (((List.filter_sublist.map _).trans hsub).map _)

theorem perm_relevantTxIds (db : Database) (sessionId : Bytes) (height : Int) :
    ((getRelevantTransactions db sessionId height height).map (·.txId)).Perm
      (((sessionRelevantTransactions db sessionId).map (·.transactionId)).filter (fun id => InBlock db id height)) := by
  have hleft := map_fst_leftJoin (fun (tb : TransactionRow × BlockRow) (reg : RegularTransactionRow) =>
    reg.id = tb.1.id) (fun tb => tb.1.id) ((join (fun rt tb => rt.transactionId = tb.1.id)
      (sessionRelevantTransactions db sessionId) (blockTransactions db height height)).map (·.2))
    db.constraints.regularTransactionIds (fun _ _ h => of_decide_eq_true h)
  have hjoin := map_fst_join (fun (rt : RelevantTransactionRow) (tb : TransactionRow × BlockRow) =>
    rt.transactionId = tb.1.id) (fun rt => rt.transactionId) (sessionRelevantTransactions db sessionId)
    (nodup_blockTransactions db height height)
    (fun _ _ h => (of_decide_eq_true h).symm)
  refine ((perm_sortBy _ _).map _).trans (List.Perm.of_eq ?_)
  rw [List.map_map]
  show List.map ((fun tb : TransactionRow × BlockRow => tb.1.id) ∘ Prod.fst) _ = _
  rw [← List.map_map, hleft, List.map_map, List.filter_map]
  have hon : ∀ p ∈ join (fun rt tb => rt.transactionId = tb.1.id) (sessionRelevantTransactions db sessionId)
      (blockTransactions db height height), ((fun tb : TransactionRow × BlockRow => tb.1.id) ∘ Prod.snd) p =
        ((fun rt : RelevantTransactionRow => rt.transactionId) ∘ Prod.fst) p :=
    fun p hp => (of_decide_eq_true (mem_join.mp hp).2.2).symm
  rw [List.map_congr_left hon, ← List.map_map, hjoin]
  refine congrArg _ (List.filter_congr fun rt _ => ?_)
  rw [Function.comp_apply, Bool.eq_iff_iff, List.any_eq_true, decide_eq_true_iff]
  simp only [InBlock, decide_eq_true_eq, eq_comm (a := rt.transactionId)]

theorem nodup_ledgerEventIds (select : LedgerEventRow → Bool) (fromHeight toHeight : Int) :
    ((ledgerEventsInRange db select fromHeight toHeight).map (·.1.id)).Nodup := by
  have hsub := map_fst_join_sublist (fun (le : LedgerEventRow) (tb : TransactionRow × BlockRow) =>
    le.transactionId = tb.1.id) (fun le => le.transactionId) (db.ledgerEvents.filter select)
    (nodup_blockTransactions db fromHeight toHeight)
    (fun _ _ h => (of_decide_eq_true h).symm)
  refine (((perm_sortBy _ _).map _).nodup_iff).mpr ?_
  show (List.map ((fun le : LedgerEventRow => le.id) ∘ Prod.fst) _).Nodup
  rw [← List.map_map]
  exact db.constraints.ledgerEventIds.sublist ((hsub.trans List.filter_sublist).map _)

theorem nodup_utxoIds (addresses : List Bytes) (isCreate : Bool) (txId : UnshieldedUtxoRow → Option Int)
    (fromHeight toHeight : Int) :
    ((unshieldedUtxoRows db addresses isCreate txId fromHeight toHeight).map (·.utxoId)).Nodup := by
  have hleft := map_fst_leftJoin (fun (row : UnshieldedUtxoRow × TransactionRow × BlockRow)
    (reg : RegularTransactionRow) => reg.id = row.2.1.id) (fun row => row.2.1.id)
    (join (fun uu tb => txId uu = some tb.1.id) (db.unshieldedUtxos.filter (fun uu => uu.owner ∈ addresses))
      (blockTransactions db fromHeight toHeight))
    db.constraints.regularTransactionIds (fun _ _ h => of_decide_eq_true h)
  have hsub := map_fst_join_sublist (fun (uu : UnshieldedUtxoRow) (tb : TransactionRow × BlockRow) =>
    txId uu = some tb.1.id) (fun uu => (txId uu).getD 0) (db.unshieldedUtxos.filter (fun uu => uu.owner ∈ addresses))
    (nodup_blockTransactions db fromHeight toHeight)
    (fun _ _ h => by rw [of_decide_eq_true h]; rfl)
  refine (((perm_sortBy _ _).map _).nodup_iff).mpr ?_
  rw [List.map_map]
  show (List.map ((fun uu : UnshieldedUtxoRow => uu.id) ∘ Prod.fst ∘ Prod.fst) _).Nodup
  rw [← List.map_map, ← List.map_map, hleft]
  exact db.constraints.unshieldedUtxoIds.sublist ((hsub.trans List.filter_sublist).map _)

theorem exists_mem_unshieldedUtxoRows {addresses : List Bytes} (isCreate : Bool)
    (txId : UnshieldedUtxoRow → Option Int) {u : UnshieldedUtxoRow} {tb : TransactionRow × BlockRow}
    (hu : u ∈ db.unshieldedUtxos) (howner : u.owner ∈ addresses) (hid : txId u = some tb.1.id)
    {fromHeight toHeight : Int} (htb : tb ∈ blockTransactions db fromHeight toHeight) :
    ∃ event ∈ unshieldedUtxoRows db addresses isCreate txId fromHeight toHeight,
      event.utxoId = u.id ∧ event.txId = tb.1.id := by
  have hjoin : (u, tb) ∈ join (fun uu tb => txId uu = some tb.1.id)
      (db.unshieldedUtxos.filter (fun uu => uu.owner ∈ addresses)) (blockTransactions db fromHeight toHeight) :=
    mem_join.mpr ⟨List.mem_filter.mpr ⟨hu, decide_eq_true howner⟩, htb, decide_eq_true hid⟩
  obtain ⟨reg, hreg⟩ := exists_mem_leftJoin (fun row reg => reg.id = row.2.1.id) db.regularTransactions hjoin
  exact ⟨toUnshieldedUtxoEventRow isCreate ((u, tb), reg), (mem_sortBy _).mpr (List.mem_map_of_mem hreg), rfl, rfl⟩

/-- The transaction and UTXO of the events of a block are distinct unless a UTXO is created and spent at once. -/
theorem nodup_unshielded_iff {localSessionId : Bytes} :
    ((getUnshieldedUtxoEvents db localSessionId height height).map (fun e => (e.txId, e.utxoId))).Nodup ↔
      ¬ CreatedAndSpent db localSessionId height := by
  have hperm := perm_getUnshieldedUtxoEvents db localSessionId height height
  have hpairs : ∀ isCreate txId, ((unshieldedUtxoRows db (sessionAddresses db localSessionId) isCreate txId height
      height).map (fun e => (e.txId, e.utxoId))).Nodup := by
    intro isCreate txId
    refine List.Nodup.of_map Prod.snd ?_
    rw [List.map_map]
    exact nodup_utxoIds _ _ _ _ _
  rw [(hperm.map _).nodup_iff, List.map_append, List.nodup_append]
  constructor
  · rintro ⟨-, -, hdisjoint⟩ ⟨u, hu, howner, hspent, tb, htb, hid⟩
    obtain ⟨e, he, heu, het⟩ := exists_mem_unshieldedUtxoRows true
      (fun uu => some uu.creatingTransactionId) hu howner (congrArg some hid.symm) htb
    obtain ⟨e', he', heu', het'⟩ := exists_mem_unshieldedUtxoRows false (·.spendingTransactionId)
      hu howner (hspent.trans (congrArg some hid.symm)) htb
    refine hdisjoint _ (List.mem_map_of_mem he) _ (List.mem_map_of_mem he') ?_
    rw [heu, het, heu', het']
  · intro hnone
    refine ⟨hpairs _ _, hpairs _ _, ?_⟩
    intro p hp q hq hpq
    obtain ⟨e, he, rfl⟩ := List.mem_map.mp hp
    obtain ⟨e', he', rfl⟩ := List.mem_map.mp hq
    obtain ⟨htx, hutxo⟩ := Prod.mk.inj hpq
    obtain ⟨u, hu, howner, hid, hcreate⟩ := mem_unshieldedUtxoRows he
    obtain ⟨u', hu', -, hid', hspend⟩ := mem_unshieldedUtxoRows he'
    obtain rfl := eq_of_key_eq db.constraints.unshieldedUtxoIds hu hu' (hid.trans (hutxo.trans hid'.symm))
    refine hnone ⟨u, hu, howner, ?_, ?_⟩
    · rw [hspend, ← htx, Option.some.inj hcreate]
    · rw [Option.some.inj hcreate]
      have hevent := inBlock_of_mem_unshieldedUtxoRows he
      have hheight : e.blockHeight = height := by
        have hmem := hperm.mem_iff.mpr (List.mem_append_left _ he)
        rw [← filter_getUnshieldedUtxoEvents localSessionId le_rfl le_rfl] at hmem
        exact of_decide_eq_true (List.mem_filter.mp hmem).2
      rwa [hheight] at hevent

theorem nodup_dustEventIds (args : AssemblyArgs) (fromHeight toHeight : Int) :
    ((fetchDustEvents db args fromHeight toHeight).map (·.ledgerEventId)).Nodup := by
  rcases fetchDustEvents_cases db args fromHeight toHeight with heq | ⟨select, heq⟩
  · rw [heq]
    exact List.nodup_nil
  · rw [heq, dustEventsWhere, List.map_map]
    exact nodup_ledgerEventIds _ _ _

theorem nodup_zswapEventIds (fromHeight toHeight : Int) :
    ((getAllZswapInputEventsInRange db fromHeight toHeight).map (·.ledgerEventId)).Nodup := by
  rw [getAllZswapInputEventsInRange, List.map_map]
  exact nodup_ledgerEventIds _ _ _

theorem nodup_metaTxIds (args : AssemblyArgs) (fromHeight toHeight : Int) :
    ((fetchWindow db args fromHeight toHeight).txMetaRows.map (·.txId)).Nodup := by
  show ((if args.includeTxMeta then _ else _ : List TransactionMetaRow).map (·.txId)).Nodup
  split_ifs with hmeta
  · rw [map_txId_getTransactionMetadata, ← map_fst_metadataRows _ false false]
    exact nodup_metadataRows _ _ _
  · exact List.nodup_nil

theorem nodup_map_key {α β : Type*} {rows : List α} (f : α → β) (g : β → Int)
    (h : (rows.map (fun a => g (f a))).Nodup) : (rows.map f).Nodup := by
  refine List.Nodup.of_map g ?_
  rwa [List.map_map]

/-- Keys of different parts of a block differ: in their phase, in their ordinal, or in the ledger event they name. -/
theorem nodup_parts (db : Database) {metas shielded zswaps dusts unshielded : List SequenceKey}
    (hmeta : ∀ k ∈ metas, k.phase = PHASE_TX ∧ k.ordinal = 0)
    (hshielded : ∀ k ∈ shielded, k.phase = PHASE_TX ∧ k.ordinal = 1)
    (hzswap : ∀ k ∈ zswaps, k.phase = PHASE_LEDGER_EVENT ∧
      ∃ le ∈ db.ledgerEvents, le.id = k.ordinal ∧ le.grouping = .zswap)
    (hdust : ∀ k ∈ dusts, k.phase = PHASE_LEDGER_EVENT ∧
      ∃ le ∈ db.ledgerEvents, le.id = k.ordinal ∧ le.grouping = .dust)
    (hunshielded : ∀ k ∈ unshielded, k.phase = PHASE_UNSHIELDED) :
    (metas ++ shielded ++ zswaps ++ dusts ++ unshielded).Nodup ↔
      metas.Nodup ∧ shielded.Nodup ∧ zswaps.Nodup ∧ dusts.Nodup ∧ unshielded.Nodup := by
  have hphases : PHASE_TX ≠ PHASE_LEDGER_EVENT ∧ PHASE_TX ≠ PHASE_UNSHIELDED ∧
      PHASE_LEDGER_EVENT ≠ PHASE_UNSHIELDED := by
    decide
  have hms : ∀ a ∈ metas, ∀ b ∈ shielded, a ≠ b := by
    rintro a ha _ hb rfl
    have := (hmeta a ha).2.symm.trans (hshielded a hb).2
    omega
  have hz : ∀ a ∈ metas ++ shielded, ∀ b ∈ zswaps, a ≠ b := by
    rintro a ha _ hb rfl
    rcases List.mem_append.mp ha with ha | ha
    · exact hphases.1 ((hmeta a ha).1.symm.trans (hzswap a hb).1)
    · exact hphases.1 ((hshielded a ha).1.symm.trans (hzswap a hb).1)
  have hd : ∀ a ∈ metas ++ shielded ++ zswaps, ∀ b ∈ dusts, a ≠ b := by
    rintro a ha _ hb rfl
    obtain ⟨hphase, le, hle, hid, hgroup⟩ := hdust a hb
    rcases List.mem_append.mp ha with ha | ha
    · rcases List.mem_append.mp ha with ha | ha
      · exact hphases.1 ((hmeta a ha).1.symm.trans hphase)
      · exact hphases.1 ((hshielded a ha).1.symm.trans hphase)
    · obtain ⟨-, le', hle', hid', hgroup'⟩ := hzswap a ha
      obtain rfl := eq_of_key_eq db.constraints.ledgerEventIds hle hle' (hid.trans hid'.symm)
      rw [hgroup] at hgroup'
      cases hgroup'
  have hu : ∀ a ∈ metas ++ shielded ++ zswaps ++ dusts, ∀ b ∈ unshielded, a ≠ b := by
    rintro a ha _ hb rfl
    have hphase := hunshielded a hb
    simp only [List.mem_append] at ha
    rcases ha with ((ha | ha) | ha) | ha
    · exact hphases.2.1 ((hmeta a ha).1.symm.trans hphase)
    · exact hphases.2.1 ((hshielded a ha).1.symm.trans hphase)
    · exact hphases.2.2 ((hzswap a ha).1.symm.trans hphase)
    · exact hphases.2.2 ((hdust a ha).1.symm.trans hphase)
  rw [List.nodup_append, List.nodup_append, List.nodup_append, List.nodup_append]
  constructor
  · rintro ⟨⟨⟨⟨hm, hs, -⟩, hzs, -⟩, hds, -⟩, hus, -⟩
    exact ⟨hm, hs, hzs, hds, hus⟩
  · rintro ⟨hm, hs, hzs, hds, hus⟩
    exact ⟨⟨⟨⟨hm, hs, hms⟩, hzs, hz⟩, hds, hd⟩, hus, hu⟩

theorem nodup_transactionMetaItems :
    (((fetchWindow db args height height).transactionMetaItems height).map (·.sequence)).Nodup := by
  rw [WindowRows.transactionMetaItems, List.map_map]
  exact nodup_map_key _ (·.txId) ((nodup_metaTxIds args height height).sublist (List.filter_sublist.map _))

theorem nodup_zswapInputItems :
    (((fetchWindow db args height height).zswapInputItems height).map (·.sequence)).Nodup := by
  rw [WindowRows.zswapInputItems, List.map_map, globalZswapInputs_fetchWindow]
  refine nodup_map_key _ (·.ordinal) (List.Nodup.sublist (List.filter_sublist.map _) ?_)
  split_ifs
  · exact nodup_zswapEventIds height height
  · exact List.nodup_nil

theorem nodup_dustItems : (((fetchWindow db args height height).dustItems height).map (·.sequence)).Nodup := by
  rw [WindowRows.dustItems, List.map_map]
  exact nodup_map_key _ (·.ordinal) ((nodup_dustEventIds args height height).sublist (List.filter_sublist.map _))

theorem nodup_shieldedItems_iff : ((((fetchWindow db args height height).relevantAt height).map
    ((fetchWindow db args height height).shieldedItem height)).map (·.sequence)).Nodup ↔
      RelevantOnce db args.upstreamSessionId height := by
  rw [RelevantOnce, ← (perm_relevantTxIds db args.upstreamSessionId height).nodup_iff, relevantAt_fetchWindow,
    List.map_map]
  constructor
  · intro h
    refine (List.nodup_map_iff_inj_on (h.of_map _)).mpr fun a ha b hb hab => ?_
    refine List.inj_on_of_nodup_map h ha hb ?_
    simp only [Function.comp_apply, WindowRows.shieldedItem, hab]
  · exact fun h => nodup_map_key _ (·.txId) h

theorem nodup_unshieldedItems_iff :
    (((fetchWindow db args height height).unshieldedItems height).map (·.sequence)).Nodup ↔
      ¬ CreatedAndSpent db args.localSessionId height := by
  have hevents : (fetchWindow db args height height).unshieldedEvents.filter (fun e => e.blockHeight = height) =
      getUnshieldedUtxoEvents db args.localSessionId height height :=
    filter_getUnshieldedUtxoEvents args.localSessionId le_rfl le_rfl
  rw [← nodup_unshielded_iff, WindowRows.unshieldedItems, hevents, List.map_map]
  constructor
  · intro h
    refine (List.nodup_map_iff_inj_on (h.of_map _)).mpr fun a ha b hb hab => ?_
    refine List.inj_on_of_nodup_map h ha hb ?_
    obtain ⟨htx, hutxo⟩ := Prod.mk.inj hab
    simp only [Function.comp_apply, htx, hutxo]
  · intro h
    refine List.Nodup.of_map (fun k => (k.txId, k.ordinal)) ?_
    rwa [List.map_map]

theorem ledgerEvent_of_mem_zswapInputItems {s : SortableFeedItem}
    (h : s ∈ (fetchWindow db args height height).zswapInputItems height) : s.sequence.phase = PHASE_LEDGER_EVENT ∧
      ∃ le ∈ db.ledgerEvents, le.id = s.sequence.ordinal ∧ le.grouping = .zswap := by
  obtain ⟨event, hevent, rfl⟩ := List.mem_map.mp h
  have hmem := List.mem_of_mem_filter hevent
  rw [globalZswapInputs_fetchWindow] at hmem
  split_ifs at hmem
  · exact ⟨rfl, (mem_getAllZswapInputEventsInRange hmem).1⟩
  · cases hmem

theorem ledgerEvent_of_mem_dustItems {s : SortableFeedItem}
    (h : s ∈ (fetchWindow db args height height).dustItems height) : s.sequence.phase = PHASE_LEDGER_EVENT ∧
      ∃ le ∈ db.ledgerEvents, le.id = s.sequence.ordinal ∧ le.grouping = .dust := by
  obtain ⟨event, hevent, rfl⟩ := List.mem_map.mp h
  exact ⟨rfl, mem_fetchDustEvents (List.mem_of_mem_filter hevent)⟩

/-- **Ties.** The keys of a block are distinct exactly when no transaction is listed twice for the wallet and no UTXO is
created and spent by one transaction. -/
theorem nodup_blockSortables_iff :
    ((blockSortables db args height).map (·.sequence)).Nodup ↔ KeysDistinct db args height := by
  have hperm := (perm_sortBy (fun s : SortableFeedItem => s.sequence)
    ((fetchWindow db args height height).transactionMetaItems height ++
      ((fetchWindow db args height height).relevantAt height).map
        ((fetchWindow db args height height).shieldedItem height) ++
      (fetchWindow db args height height).zswapInputItems height ++
      (fetchWindow db args height height).dustItems height ++
      (fetchWindow db args height height).unshieldedItems height)).map (·.sequence)
  refine hperm.nodup_iff.trans ?_
  rw [KeysDistinct, ← nodup_shieldedItems_iff, ← nodup_unshieldedItems_iff, List.map_append, List.map_append,
    List.map_append, List.map_append, nodup_parts db]
  · exact ⟨fun h => ⟨h.2.1, h.2.2.2.2⟩,
      fun h => ⟨nodup_transactionMetaItems, h.1, nodup_zswapInputItems, nodup_dustItems, h.2⟩⟩
  · intro k hk
    obtain ⟨s, hs, rfl⟩ := List.mem_map.mp hk
    obtain ⟨row, -, rfl⟩ := List.mem_map.mp hs
    exact ⟨rfl, rfl⟩
  · intro k hk
    obtain ⟨s, hs, rfl⟩ := List.mem_map.mp hk
    obtain ⟨row, -, rfl⟩ := List.mem_map.mp hs
    exact ⟨rfl, rfl⟩
  · intro k hk
    obtain ⟨s, hs, rfl⟩ := List.mem_map.mp hk
    exact ledgerEvent_of_mem_zswapInputItems hs
  · intro k hk
    obtain ⟨s, hs, rfl⟩ := List.mem_map.mp hk
    exact ledgerEvent_of_mem_dustItems hs
  · intro k hk
    obtain ⟨s, hs, rfl⟩ := List.mem_map.mp hk
    obtain ⟨event, -, rfl⟩ := List.mem_map.mp hs
    rfl

end Ties

end NocyWalletFeed
