import NocyWalletFeed.Ranges

/-!
# The life cycle of an unshielded UTXO

A UTXO of a registered address has a create item where its creating transaction lies in the range and a spend item where
its spending transaction does. The query sorts both kinds together, and by its last key `is_create` a spend row comes
before a create row of the same transaction and UTXO; the sort of a block's items does not look at `is_create` and
leaves the two as they are.

* `utxoEvents_feedItems` : the UTXO items of a range are the rows of the query, in its order;
* `createFirst_iff` : when no spend row of a UTXO comes before its create row;
* `utxoLifeCycles_iff` : every create item comes before the spend item exactly when no UTXO is created and spent by one
  transaction.
-/

namespace NocyWalletFeed
open Codec Relational OrderBy

/-! ## Items of a UTXO -/

/-- The UTXO an item is about, and whether the item creates it. -/
def OrderedFeedItem.utxoEvent (item : OrderedFeedItem) : Option (Int × Bool) :=
  match item.item, parseCursor item.sequence with
  | .unshieldedUtxo event, .ok key => some (key.ordinal, event.isCreate)
  | _, _ => none

def SortableFeedItem.utxoEvent (s : SortableFeedItem) : Option (Int × Bool) :=
  match s.item with
  | .unshieldedUtxo event => some (s.sequence.ordinal, event.isCreate)
  | _ => none

theorem utxoEvent_toOrdered {s : SortableFeedItem} (h : s.sequence.Wide) : s.toOrdered.utxoEvent = s.utxoEvent := by
  unfold OrderedFeedItem.utxoEvent SortableFeedItem.utxoEvent SortableFeedItem.toOrdered
  rw [parseCursor_toCursor h]
  cases s.item <;> rfl

/-- The creations and spends that a list of items tells, in item order. -/
def utxoEvents (items : List OrderedFeedItem) : List (Int × Bool) := items.filterMap OrderedFeedItem.utxoEvent

def InRange (db : Database) (txId fromHeight toHeight : Int) : Prop :=
  ∃ tb ∈ blockTransactions db fromHeight toHeight, tb.1.id = txId

instance {db : Database} {txId fromHeight toHeight : Int} : Decidable (InRange db txId fromHeight toHeight) :=
  inferInstanceAs (Decidable (∃ tb ∈ blockTransactions db fromHeight toHeight, tb.1.id = txId))

/-- The items of a range tell the life of a UTXO: one create item if the creating transaction lies in the range, one
spend item if the spending transaction does, and no spend item before a create item. -/
structure LifeCycle (db : Database) (u : UnshieldedUtxoRow) (fromHeight toHeight : Int)
    (items : List OrderedFeedItem) : Prop where
  creates : (utxoEvents items).count (u.id, true) =
    if InRange db u.creatingTransactionId fromHeight toHeight then 1 else 0
  spends : (utxoEvents items).count (u.id, false) =
    if ∃ txId ∈ u.spendingTransactionId, InRange db txId fromHeight toHeight then 1 else 0
  createFirst : (utxoEvents items).Pairwise fun a b => ¬ (a = (u.id, false) ∧ b = (u.id, true))

/-- Every UTXO of a registered address has its life told. -/
def LifeCycles (db : Database) (localSessionId : Bytes) (fromHeight toHeight : Int) (items : List OrderedFeedItem) :
    Prop :=
  ∀ u ∈ db.unshieldedUtxos, u.owner ∈ sessionAddresses db localSessionId → LifeCycle db u fromHeight toHeight items

/-- The creating transaction of a UTXO is the spending transaction or an earlier one. -/
def CreatedFirst (db : Database) (localSessionId : Bytes) : Prop :=
  ∀ u ∈ db.unshieldedUtxos, u.owner ∈ sessionAddresses db localSessionId → ∀ txId ∈ u.spendingTransactionId,
    u.creatingTransactionId = txId ∨ u.creatingTransactionId < txId ∧ ∀ b ∈ db.blocks, ∀ b' ∈ db.blocks,
      InBlock db u.creatingTransactionId b.height → InBlock db txId b'.height → b.height ≤ b'.height

instance {db : Database} {localSessionId : Bytes} : Decidable (CreatedFirst db localSessionId) :=
  inferInstanceAs (Decidable (∀ u ∈ db.unshieldedUtxos, _))

/-! ## The rows of the query -/

section Rows
variable {db : Database} {fromHeight toHeight height : Int}

def UnshieldedUtxoEventRow.sortKey (event : UnshieldedUtxoEventRow) : Int ×ₗ Int ×ₗ Int ×ₗ Bool :=
  toLex (event.blockHeight, toLex (event.txId, toLex (event.utxoId, event.isCreate)))

def UnshieldedUtxoEventRow.utxoEvent (event : UnshieldedUtxoEventRow) : Int × Bool := (event.utxoId, event.isCreate)

theorem pairwise_getUnshieldedUtxoEvents (db : Database) (sessionId : Bytes) (fromHeight toHeight : Int) :
    (getUnshieldedUtxoEvents db sessionId fromHeight toHeight).Pairwise (fun a b => a.sortKey ≤ b.sortKey) := by
  unfold getUnshieldedUtxoEvents
  dsimp only
  split_ifs with hnil
  · exact List.Pairwise.nil
  · exact pairwise_sortBy UnshieldedUtxoEventRow.sortKey _

theorem isCreate_of_mem {addresses : List Bytes} {isCreate : Bool} {txId : UnshieldedUtxoRow → Option Int}
    {event : UnshieldedUtxoEventRow} (h : event ∈ unshieldedUtxoRows db addresses isCreate txId fromHeight toHeight) :
    event.isCreate = isCreate := by
  obtain ⟨joined, -, rfl⟩ := List.mem_map.mp ((mem_sortBy _).mp h)
  rfl

theorem nodup_utxoEvents (db : Database) (sessionId : Bytes) (fromHeight toHeight : Int) :
    ((getUnshieldedUtxoEvents db sessionId fromHeight toHeight).map (·.utxoEvent)).Nodup := by
  have hrows : ∀ isCreate txId, ((unshieldedUtxoRows db (sessionAddresses db sessionId) isCreate txId fromHeight
      toHeight).map (·.utxoEvent)).Nodup := by
    intro isCreate txId
    refine List.Nodup.of_map Prod.fst ?_
    rw [List.map_map]
    exact nodup_utxoIds _ _ _ _ _
  rw [((perm_getUnshieldedUtxoEvents db sessionId fromHeight toHeight).map _).nodup_iff, List.map_append,
    List.nodup_append]
  refine ⟨hrows _ _, hrows _ _, fun a ha b hb => ?_⟩
  obtain ⟨event, hevent, rfl⟩ := List.mem_map.mp ha
  obtain ⟨event', hevent', rfl⟩ := List.mem_map.mp hb
  intro heq
  have hkind : event.isCreate = event'.isCreate := congrArg Prod.snd heq
  rw [isCreate_of_mem hevent, isCreate_of_mem hevent'] at hkind
  cases hkind

theorem pairwise_lt_getUnshieldedUtxoEvents (db : Database) (sessionId : Bytes) (fromHeight toHeight : Int) :
    (getUnshieldedUtxoEvents db sessionId fromHeight toHeight).Pairwise (fun a b => a.sortKey < b.sortKey) := by
  refine pairwise_lt_of_nodup _ (pairwise_getUnshieldedUtxoEvents db sessionId fromHeight toHeight) ?_
  refine List.Nodup.of_map (fun key : Int ×ₗ Int ×ₗ Int ×ₗ Bool => ofLex (ofLex (ofLex key).2).2) ?_
  rw [List.map_map]
  exact nodup_utxoEvents db sessionId fromHeight toHeight

theorem mem_utxoEvents_rows {addresses : List Bytes} (isCreate : Bool) (txId : UnshieldedUtxoRow → Option Int)
    {u : UnshieldedUtxoRow} (hu : u ∈ db.unshieldedUtxos) (howner : u.owner ∈ addresses) :
    (∃ event ∈ unshieldedUtxoRows db addresses isCreate txId fromHeight toHeight, event.utxoId = u.id) ↔
      ∃ id ∈ txId u, InRange db id fromHeight toHeight := by
  constructor
  · rintro ⟨event, hevent, hid⟩
    obtain ⟨u', hu', -, hid', htx⟩ := mem_unshieldedUtxoRows hevent
    obtain rfl := eq_of_key_eq db.constraints.unshieldedUtxoIds hu hu' (hid.symm.trans hid'.symm)
    obtain ⟨tb, htb, hevent, -⟩ := blockTransaction_of_mem_unshieldedUtxoRows hevent
    exact ⟨event.txId, htx, tb, htb, hevent⟩
  · rintro ⟨id, htx, tb, htb, rfl⟩
    obtain ⟨event, hevent, hid, -⟩ := exists_mem_unshieldedUtxoRows isCreate txId hu howner htx htb
    exact ⟨event, hevent, hid⟩

/-- The events of a UTXO among the rows: its creation and its spend, where their transactions lie in the range. -/
theorem mem_utxoEvents_iff (fromHeight toHeight : Int) {sessionId : Bytes} {u : UnshieldedUtxoRow}
    (hu : u ∈ db.unshieldedUtxos) (howner : u.owner ∈ sessionAddresses db sessionId) :
    ((u.id, true) ∈ (getUnshieldedUtxoEvents db sessionId fromHeight toHeight).map (·.utxoEvent) ↔
      InRange db u.creatingTransactionId fromHeight toHeight) ∧
    ((u.id, false) ∈ (getUnshieldedUtxoEvents db sessionId fromHeight toHeight).map (·.utxoEvent) ↔
      ∃ txId ∈ u.spendingTransactionId, InRange db txId fromHeight toHeight) := by
  have hkind : ∀ isCreate : Bool, ∀ {create : Bool} {txId}, create ≠ isCreate →
      (u.id, isCreate) ∉ (unshieldedUtxoRows db (sessionAddresses db sessionId) create txId fromHeight toHeight).map
        (·.utxoEvent) := by
    intro isCreate create txId hne hmem
    obtain ⟨event, hevent, heq⟩ := List.mem_map.mp hmem
    exact hne ((isCreate_of_mem hevent).symm.trans (congrArg Prod.snd heq))
  have hrows : ∀ (isCreate : Bool) txId,
      (u.id, isCreate) ∈ (unshieldedUtxoRows db (sessionAddresses db sessionId) isCreate txId fromHeight toHeight).map
        (·.utxoEvent) ↔ ∃ id ∈ txId u, InRange db id fromHeight toHeight := by
    intro isCreate txId
    rw [← mem_utxoEvents_rows isCreate txId hu howner, List.mem_map]
    constructor
    · rintro ⟨event, hevent, heq⟩
      exact ⟨event, hevent, congrArg Prod.fst heq⟩
    · rintro ⟨event, hevent, hid⟩
      exact ⟨event, hevent, Prod.ext hid (isCreate_of_mem hevent)⟩
  have hperm := (perm_getUnshieldedUtxoEvents db sessionId fromHeight toHeight).map (·.utxoEvent)
  rw [hperm.mem_iff, hperm.mem_iff, List.map_append, List.mem_append, List.mem_append, hrows, hrows,
    or_iff_left (hkind true Bool.false_ne_true), or_iff_right (hkind false (by decide))]
  simp

theorem blockHeight_of_mem_unshielded {sessionId : Bytes} {event : UnshieldedUtxoEventRow}
    (h : event ∈ getUnshieldedUtxoEvents db sessionId fromHeight toHeight) :
    fromHeight ≤ event.blockHeight ∧ event.blockHeight ≤ toHeight := by
  have hrows : ∀ {isCreate txId}, event ∈ unshieldedUtxoRows db (sessionAddresses db sessionId) isCreate txId fromHeight
      toHeight → fromHeight ≤ event.blockHeight ∧ event.blockHeight ≤ toHeight := by
    intro isCreate txId hmem
    obtain ⟨tb, htb, -, hheight⟩ := blockTransaction_of_mem_unshieldedUtxoRows hmem
    exact hheight ▸ (mem_blockTransactions.mp htb).2.2.2
  exact (mem_getUnshieldedUtxoEvents.mp h).elim hrows hrows

/-- The rows of a range are those of its heights, one height after the other. -/
theorem flatMap_getUnshieldedUtxoEvents (db : Database) (sessionId : Bytes) (fromHeight toHeight : Int) :
    (Int.range fromHeight (toHeight + 1)).flatMap (fun height => getUnshieldedUtxoEvents db sessionId height height) =
      getUnshieldedUtxoEvents db sessionId fromHeight toHeight := by
  refine eq_of_sorted_of_mem_iff UnshieldedUtxoEventRow.sortKey ?_
    (pairwise_lt_getUnshieldedUtxoEvents db sessionId fromHeight toHeight) fun event => ?_
  · refine List.pairwise_flatMap.mpr
      ⟨fun height _ => pairwise_lt_getUnshieldedUtxoEvents db sessionId height height, ?_⟩
    refine (IntRange.pairwise_range fromHeight (toHeight + 1)).imp fun {h h'} hlt a ha b hb => ?_
    have hha := blockHeight_of_mem_unshielded ha
    have hhb := blockHeight_of_mem_unshielded hb
    exact Prod.Lex.toLex_lt_toLex.mpr (Or.inl (by omega))
  · rw [List.mem_flatMap]
    constructor
    · rintro ⟨height, hmem, hevent⟩
      obtain ⟨hlo, hhi⟩ := Int.mem_range_iff.mp hmem
      rw [← filter_getUnshieldedUtxoEvents sessionId hlo (by omega : height ≤ toHeight)] at hevent
      exact List.mem_of_mem_filter hevent
    · intro hevent
      obtain ⟨hlo, hhi⟩ := blockHeight_of_mem_unshielded hevent
      refine ⟨event.blockHeight, Int.mem_range_iff.mpr ⟨hlo, by omega⟩, ?_⟩
      rw [← filter_getUnshieldedUtxoEvents sessionId hlo hhi]
      exact List.mem_filter.mpr ⟨hevent, decide_eq_true rfl⟩

end Rows

/-! ## The items of a range -/

section Items
variable {db : Database} {args : AssemblyArgs} {height : Int}

/-- The UTXO items of a block stand in the order of their rows: the sort leaves them alone. -/
theorem filter_blockSortables_utxoEvent (db : Database) (args : AssemblyArgs) (height : Int) :
    (blockSortables db args height).filter (fun s => s.utxoEvent.isSome) =
      (fetchWindow db args height height).unshieldedItems height := by
  have hmeta : ((fetchWindow db args height height).transactionMetaItems height).filter
      (fun s => s.utxoEvent.isSome) = [] := filter_map_eq_nil (fun _ => rfl) _
  have hzswap : ((fetchWindow db args height height).zswapInputItems height).filter
      (fun s => s.utxoEvent.isSome) = [] := filter_map_eq_nil (fun _ => rfl) _
  have hdust : ((fetchWindow db args height height).dustItems height).filter
      (fun s => s.utxoEvent.isSome) = [] := filter_map_eq_nil (fun _ => rfl) _
  have hunshielded : ((fetchWindow db args height height).unshieldedItems height).filter
      (fun s => s.utxoEvent.isSome) = (fetchWindow db args height height).unshieldedItems height :=
    filter_map_eq_self (fun _ => rfl) _
  rw [blockSortables, WindowRows.feedSortables, WindowRows.assembleItems, filter_sortBy, List.filter_append,
    List.filter_append, List.filter_append, List.filter_append, hmeta, filter_map_eq_nil (fun _ => rfl) _, hzswap,
    hdust, hunshielded]
  -- the order of the rows ends with `is_create`, after the fields of the sequence key
  refine sortBy_eq_self _ (List.pairwise_map.mpr ?_)
  refine List.Pairwise.imp_of_mem (fun {a b} ha hb hab => ?_)
    ((pairwise_getUnshieldedUtxoEvents db args.localSessionId height height).filter _)
  have hheights : a.blockHeight = b.blockHeight :=
    (of_decide_eq_true (List.mem_filter.mp ha).2).trans (of_decide_eq_true (List.mem_filter.mp hb).2).symm
  simp only [UnshieldedUtxoEventRow.sortKey, Prod.Lex.toLex_le_toLex, hheights, lt_irrefl, false_or, true_and] at hab
  refine SequenceKey.le_iff.mpr (Or.inr ⟨rfl, hab.imp id fun htx => ⟨htx.1, Or.inr ⟨rfl, ?_⟩⟩⟩)
  exact htx.2.elim le_of_lt fun hutxo => hutxo.1.le

theorem utxoEvents_blockItems (db : Database) (args : AssemblyArgs) (height : Int) :
    utxoEvents (blockItems db args height) =
      (getUnshieldedUtxoEvents db args.localSessionId height height).map (·.utxoEvent) := by
  have hsome : ∀ l : List SortableFeedItem, l.filterMap SortableFeedItem.utxoEvent =
      (l.filter (fun s => s.utxoEvent.isSome)).filterMap SortableFeedItem.utxoEvent := by
    intro l
    rw [List.filterMap_filter]
    refine List.filterMap_congr fun s _ => ?_
    cases s.utxoEvent <;> rfl
  calc utxoEvents (blockItems db args height)
      = (blockSortables db args height).filterMap SortableFeedItem.utxoEvent := by
        rw [utxoEvents, blockItems_eq, List.filterMap_map]
        exact List.filterMap_congr fun s hs => utxoEvent_toOrdered (sequence_of_mem_blockSortables hs).2
    _ = ((fetchWindow db args height height).unshieldedItems height).filterMap SortableFeedItem.utxoEvent := by
        rw [hsome, filter_blockSortables_utxoEvent]
    _ = ((getUnshieldedUtxoEvents db args.localSessionId height height).filter
          (fun event => event.blockHeight = height)).map (·.utxoEvent) := by
        refine filterMap_map_eq_map (fun event => ?_) _
        rfl
    _ = _ := by rw [filter_getUnshieldedUtxoEvents _ le_rfl le_rfl]

/-- **The UTXO items of a range** tell the rows of the query, in its order. -/
theorem utxoEvents_feedItems (db : Database) (args : AssemblyArgs) (fromHeight toHeight : Int) :
    utxoEvents (feedItems db args fromHeight (toHeight + 1)) =
      (getUnshieldedUtxoEvents db args.localSessionId fromHeight toHeight).map (·.utxoEvent) := by
  rw [utxoEvents, feedItems, List.filterMap_flatMap, ← flatMap_getUnshieldedUtxoEvents, List.map_flatMap]
  exact List.flatMap_congr fun height _ => utxoEvents_blockItems db args height

theorem utxoEvents_withoutUpdates (items : List OrderedFeedItem) :
    utxoEvents (withoutUpdates items) = utxoEvents items := by
  rw [utxoEvents, withoutUpdates, List.filterMap_filter]
  refine List.filterMap_congr fun item _ => ?_
  unfold OrderedFeedItem.utxoEvent
  cases item.item <;> rfl

end Items

/-! ## Creations before spends -/

section Order
variable {db : Database} {sessionId : Bytes} {fromHeight toHeight : Int} {u : UnshieldedUtxoRow}

theorem row_of_utxoEvent (hu : u ∈ db.unshieldedUtxos) {event : UnshieldedUtxoEventRow}
    (h : event ∈ getUnshieldedUtxoEvents db sessionId fromHeight toHeight) (hid : event.utxoId = u.id) :
    InBlock db event.txId event.blockHeight ∧ (event.isCreate = true → event.txId = u.creatingTransactionId) ∧
      (event.isCreate = false → u.spendingTransactionId = some event.txId) := by
  refine ⟨inBlock_of_mem_unshielded h, ?_⟩
  rcases mem_getUnshieldedUtxoEvents.mp h with hrow | hrow
  · obtain ⟨u', hu', -, hid', htx⟩ := mem_unshieldedUtxoRows hrow
    obtain rfl := eq_of_key_eq db.constraints.unshieldedUtxoIds hu hu' (hid.symm.trans hid'.symm)
    rw [isCreate_of_mem hrow]
    exact ⟨fun _ => (Option.some.inj htx).symm, fun hfalse => absurd hfalse.symm Bool.false_ne_true⟩
  · obtain ⟨u', hu', -, hid', htx⟩ := mem_unshieldedUtxoRows hrow
    obtain rfl := eq_of_key_eq db.constraints.unshieldedUtxoIds hu hu' (hid.symm.trans hid'.symm)
    rw [isCreate_of_mem hrow]
    exact ⟨fun htrue => absurd htrue Bool.false_ne_true, fun _ => htx⟩

section Pair
variable {spend create : UnshieldedUtxoEventRow}

theorem transactions_of_pair (hu : u ∈ db.unshieldedUtxos)
    (hs : spend ∈ getUnshieldedUtxoEvents db sessionId fromHeight toHeight)
    (hc : create ∈ getUnshieldedUtxoEvents db sessionId fromHeight toHeight) (hspend : spend.utxoEvent = (u.id, false))
    (hcreate : create.utxoEvent = (u.id, true)) :
    (InBlock db spend.txId spend.blockHeight ∧ u.spendingTransactionId = some spend.txId) ∧
      InBlock db create.txId create.blockHeight ∧ create.txId = u.creatingTransactionId := by
  obtain ⟨hsid, hskind⟩ := Prod.mk.inj hspend
  obtain ⟨hcid, hckind⟩ := Prod.mk.inj hcreate
  obtain ⟨hsblock, -, hstx⟩ := row_of_utxoEvent hu hs hsid
  obtain ⟨hcblock, hctx, -⟩ := row_of_utxoEvent hu hc hcid
  exact ⟨⟨hsblock, hstx hskind⟩, hcblock, hctx hckind⟩

/-- The two rows of a UTXO that is spent where it is created: by the last field of the order, the spend row is first. -/
theorem sortKey_lt_of_sameTx (hu : u ∈ db.unshieldedUtxos)
    (hs : spend ∈ getUnshieldedUtxoEvents db sessionId fromHeight toHeight)
    (hc : create ∈ getUnshieldedUtxoEvents db sessionId fromHeight toHeight) (hspend : spend.utxoEvent = (u.id, false))
    (hcreate : create.utxoEvent = (u.id, true)) (hsame : u.spendingTransactionId = some u.creatingTransactionId) :
    spend.sortKey < create.sortKey := by
  obtain ⟨hsid, hskind⟩ := Prod.mk.inj hspend
  obtain ⟨hcid, hckind⟩ := Prod.mk.inj hcreate
  obtain ⟨⟨hsblock, hspent⟩, hcblock, hcreator⟩ := transactions_of_pair hu hs hc hspend hcreate
  have htx : create.txId = spend.txId := hcreator.trans (Option.some.inj (hsame.symm.trans hspent))
  have hheight : create.blockHeight = spend.blockHeight := (htx ▸ hcblock).unique hsblock
  rw [UnshieldedUtxoEventRow.sortKey, UnshieldedUtxoEventRow.sortKey, hheight, htx, hcid, hsid, hckind, hskind]
  simp [Prod.Lex.toLex_lt_toLex]

/-- The two rows of any other UTXO: the creation is in a block not above and in an earlier transaction. -/
theorem sortKey_lt_of_spentLater (hcreated : CreatedFirst db sessionId) (hu : u ∈ db.unshieldedUtxos)
    (howner : u.owner ∈ sessionAddresses db sessionId)
    (hs : spend ∈ getUnshieldedUtxoEvents db sessionId fromHeight toHeight)
    (hc : create ∈ getUnshieldedUtxoEvents db sessionId fromHeight toHeight) (hspend : spend.utxoEvent = (u.id, false))
    (hcreate : create.utxoEvent = (u.id, true)) (hother : u.spendingTransactionId ≠ some u.creatingTransactionId) :
    create.sortKey < spend.sortKey := by
  obtain ⟨⟨hsblock, hspent⟩, hcblock, hcreator⟩ := transactions_of_pair hu hs hc hspend hcreate
  rcases hcreated u hu howner spend.txId hspent with hsame | ⟨hlt, hheights⟩
  · exact absurd (hspent.trans (congrArg some hsame.symm)) hother
  · have hle : create.blockHeight ≤ spend.blockHeight := by
      obtain ⟨block, hblock, hheight⟩ := hsblock.exists_block
      obtain ⟨block', hblock', hheight'⟩ := hcblock.exists_block
      have hall := hheights block' hblock' block hblock
      rw [hheight, hheight', ← hcreator] at hall
      exact hall hcblock hsblock
    simp only [UnshieldedUtxoEventRow.sortKey, Prod.Lex.toLex_lt_toLex]
    omega

end Pair

/-- **Creations before spends.** Among the rows of a range, no spend of a UTXO comes before its creation exactly when
the transaction that creates it, if in the range, is not the one that spends it. -/
theorem createFirst_iff (hcreated : CreatedFirst db sessionId) (hu : u ∈ db.unshieldedUtxos)
    (howner : u.owner ∈ sessionAddresses db sessionId) :
    ((getUnshieldedUtxoEvents db sessionId fromHeight toHeight).map (·.utxoEvent)).Pairwise
        (fun a b => ¬ (a = (u.id, false) ∧ b = (u.id, true))) ↔
      ¬ (u.spendingTransactionId = some u.creatingTransactionId ∧
        InRange db u.creatingTransactionId fromHeight toHeight) := by
  obtain ⟨hcreates, hspends⟩ := mem_utxoEvents_iff fromHeight toHeight hu howner
  have hsorted := pairwise_getUnshieldedUtxoEvents db sessionId fromHeight toHeight
  rw [List.pairwise_map]
  constructor
  · rintro hfirst ⟨hsame, hrange⟩
    obtain ⟨create, hc, hcreate⟩ := List.mem_map.mp (hcreates.mpr hrange)
    obtain ⟨spend, hs, hspend⟩ := List.mem_map.mp (hspends.mpr ⟨_, hsame, hrange⟩)
    have hlt := sortKey_lt_of_sameTx hu hs hc hspend hcreate hsame
    exact rel_of_key_lt hsorted hfirst hs hc hlt ⟨hspend, hcreate⟩
  · intro hnot
    refine List.Pairwise.imp_of_mem (fun {spend create} hs hc hle => ?_) hsorted
    rintro ⟨hspend, hcreate⟩
    by_cases hsame : u.spendingTransactionId = some u.creatingTransactionId
    · exact hnot ⟨hsame, hcreates.mp (hcreate ▸ List.mem_map_of_mem hc)⟩
    · exact hle.not_gt (sortKey_lt_of_spentLater hcreated hu howner hs hc hspend hcreate hsame)

theorem lifeCycle_iff (hcreated : CreatedFirst db sessionId) (hu : u ∈ db.unshieldedUtxos)
    (howner : u.owner ∈ sessionAddresses db sessionId) {items : List OrderedFeedItem}
    (hitems : utxoEvents items = (getUnshieldedUtxoEvents db sessionId fromHeight toHeight).map (·.utxoEvent)) :
    LifeCycle db u fromHeight toHeight items ↔
      ¬ (u.spendingTransactionId = some u.creatingTransactionId ∧
        InRange db u.creatingTransactionId fromHeight toHeight) := by
  obtain ⟨hcreates, hspends⟩ := mem_utxoEvents_iff fromHeight toHeight hu howner
  have hcount := nodup_utxoEvents db sessionId fromHeight toHeight
  rw [← createFirst_iff hcreated hu howner]
  constructor
  · intro h
    exact hitems ▸ h.createFirst
  · intro h
    refine ⟨?_, ?_, hitems ▸ h⟩
    · rw [hitems, hcount.count]
      exact if_congr hcreates rfl rfl
    · rw [hitems, hcount.count]
      exact if_congr hspends rfl rfl

theorem inRange_iff {txId : Int} : InRange db txId fromHeight toHeight ↔
    ∃ height, fromHeight ≤ height ∧ height ≤ toHeight ∧ InBlock db txId height := by
  constructor
  · rintro ⟨tb, htb, rfl⟩
    obtain ⟨-, -, -, hlo, hhi⟩ := mem_blockTransactions.mp htb
    exact ⟨tb.2.height, hlo, hhi, inBlock_of_mem htb⟩
  · rintro ⟨height, hlo, hhi, tb, htb, rfl⟩
    obtain ⟨ht, hb, hid, hge, hle⟩ := mem_blockTransactions.mp htb
    exact ⟨tb, mem_blockTransactions.mpr ⟨ht, hb, hid, hlo.trans hge, hle.trans hhi⟩, rfl⟩

theorem lifeCycles_iff (hcreated : CreatedFirst db sessionId) {items : List OrderedFeedItem}
    (hitems : utxoEvents items = (getUnshieldedUtxoEvents db sessionId fromHeight toHeight).map (·.utxoEvent)) :
    LifeCycles db sessionId fromHeight toHeight items ↔
      ∀ height, fromHeight ≤ height → height ≤ toHeight → ¬ CreatedAndSpent db sessionId height := by
  constructor
  · rintro h height hlo hhi ⟨u, hu, howner, hspent, hblock⟩
    exact (lifeCycle_iff hcreated hu howner hitems).mp (h u hu howner)
      ⟨hspent, inRange_iff.mpr ⟨height, hlo, hhi, hblock⟩⟩
  · intro h u hu howner
    refine (lifeCycle_iff hcreated hu howner hitems).mpr ?_
    rintro ⟨hspent, hrange⟩
    obtain ⟨height, hlo, hhi, hblock⟩ := inRange_iff.mp hrange
    exact h height hlo hhi ⟨u, hu, howner, hspent, hblock⟩

end Order

/-- **UTXO life cycles.** Where no UTXO is spent before it is created, the items that both assemblies give for a range
tell the life of every UTXO of a registered address, the creation first, exactly when no such UTXO is created and spent
by one transaction of the range. -/
theorem utxoLifeCycles_iff (db : Database) (args : AssemblyArgs) (merkle : MerkleBehaviour)
    (fromHeight toHeight lastMerkleEndIndex : Int) (hcreated : CreatedFirst db args.localSessionId) :
    (LifeCycles db args.localSessionId fromHeight toHeight
        ((buildBundles (fetchWindow db args fromHeight toHeight) none
          (getBlocksInRange db fromHeight toHeight)).flatMap (·.items)) ↔
      ∀ height, fromHeight ≤ height → height ≤ toHeight → ¬ CreatedAndSpent db args.localSessionId height) ∧
    (LifeCycles db args.localSessionId fromHeight toHeight
        ((buildBlockBundles db args merkle (getBlocksInRange db fromHeight toHeight)
          lastMerkleEndIndex).1.flatMap (·.items)) ↔
      ∀ height, fromHeight ≤ height → height ≤ toHeight → ¬ CreatedAndSpent db args.localSessionId height) := by
  refine ⟨lifeCycles_iff hcreated ?_, lifeCycles_iff hcreated ?_⟩
  · rw [flatMap_items_polled, utxoEvents_feedItems]
  · rw [← utxoEvents_withoutUpdates, withoutUpdates_streamed, utxoEvents_feedItems]

/-- A UTXO spent in the block after its own: its creation comes first. -/
theorem utxoLifeCycles_spentNext :
    utxoEvents ((buildBundles (fetchWindow Sample.spentNext Sample.args 0 1) none
        (getBlocksInRange Sample.spentNext 0 1)).flatMap (·.items)) = [(1, true), (1, false)] ∧
      LifeCycles Sample.spentNext Sample.sessionId 0 1
        ((buildBundles (fetchWindow Sample.spentNext Sample.args 0 1) none
          (getBlocksInRange Sample.spentNext 0 1)).flatMap (·.items)) := by
  refine ⟨by decide, (utxoLifeCycles_iff Sample.spentNext Sample.args (Sample.iteration Sample.spentNext).merkle 0 1
    (-1) (by decide)).1.mpr fun height hlo hhi => ?_⟩
  have hheight : height = 0 ∨ height = 1 := by omega
  rcases hheight with rfl | rfl
  · decide
  · decide

/-- **A UTXO spent before it is created.** One transaction creates and spends a UTXO of the registered address: both
assemblies give its spend item before its create item. -/
theorem not_lifeCycles_sameTxSpend : CreatedFirst Sample.sameTxSpend Sample.sessionId ∧
    utxoEvents ((buildBundles (fetchWindow Sample.sameTxSpend Sample.args 0 0) none
        (getBlocksInRange Sample.sameTxSpend 0 0)).flatMap (·.items)) = [(1, false), (1, true)] ∧
    utxoEvents ((buildBlockBundles Sample.sameTxSpend Sample.args (Sample.iteration Sample.sameTxSpend).merkle
        (getBlocksInRange Sample.sameTxSpend 0 0) (-1)).1.flatMap (·.items)) = [(1, false), (1, true)] ∧
    ¬ LifeCycles Sample.sameTxSpend Sample.sessionId 0 0
      ((buildBundles (fetchWindow Sample.sameTxSpend Sample.args 0 0) none
        (getBlocksInRange Sample.sameTxSpend 0 0)).flatMap (·.items)) ∧
    ¬ LifeCycles Sample.sameTxSpend Sample.sessionId 0 0
      ((buildBlockBundles Sample.sameTxSpend Sample.args (Sample.iteration Sample.sameTxSpend).merkle
        (getBlocksInRange Sample.sameTxSpend 0 0) (-1)).1.flatMap (·.items)) := by
  have hlife : ∀ {items : List OrderedFeedItem}, utxoEvents items = [(1, false), (1, true)] →
      ¬ LifeCycles Sample.sameTxSpend Sample.sessionId 0 0 items := by
    intro items hitems h
    have hfirst := (h (Sample.utxo 1 1 (some 1)) (by decide) (by decide)).createFirst
    rw [hitems] at hfirst
    exact absurd hfirst (by decide)
  exact ⟨by decide, by decide, by decide, hlife (by decide), hlife (by decide)⟩

end NocyWalletFeed
