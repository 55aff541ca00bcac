import NocyWalletFeed.Streaming
import NocyWalletFeed.UtxoOrder
import NocyWalletFeed.Amounts
import NocyWalletFeed.Library.Holdings

/-!
# The balance of a wallet

A wallet computes its unshielded balance from the feed: a create item adds a UTXO, and a spend item takes it away.

* `walletOf`, `balance` : what a wallet holds after some items;
* `Unspent`, `SpentAtOnce` : what is unspent on the chain, and what one transaction creates and spends;
* `perm_walletOf` : a wallet that has the feed up to a height holds both;
* `followedBalance_iff` : the balance of a wallet that polls and streams, and when it is the one on the chain.
-/

namespace NocyWalletFeed
open Codec Relational OrderBy Holdings

/-! ## Wallets -/

abbrev Coin := String × Nat

/-- What an item changes in a wallet. The id of a UTXO is the ordinal of its cursor. -/
def OrderedFeedItem.change (item : OrderedFeedItem) : Option (Change Int Coin) :=
  match item.item, parseCursor item.sequence with
  | .unshieldedUtxo event, .ok key =>
    if event.isCreate then
      (parseNat event.value.toList).map fun amount => .gain key.ordinal (event.tokenType, amount)
    else some (.lose key.ordinal)
  | _, _ => none

/-- What a wallet holds after some items. -/
def walletOf (items : List OrderedFeedItem) : List (Int × Coin) := replay (items.filterMap OrderedFeedItem.change)

def amountOf (tokenType : String) (entry : Int × Coin) : Nat := if entry.2.1 = tokenType then entry.2.2 else 0

def balance (tokenType : String) (held : List (Int × Coin)) : Nat := total (amountOf tokenType) held

/-! ## The chain -/

/-- What a wallet holds for a UTXO. -/
def UnshieldedUtxoRow.holding (u : UnshieldedUtxoRow) : Int × Coin :=
  (u.id, hexEncode u.tokenType, decodeU128Value u.value)

section Chain
variable (db : Database) (localSessionId : Bytes) (top : Int)

/-- A UTXO of a registered address, created up to a height and not spent up to it. -/
def Unspent (u : UnshieldedUtxoRow) : Prop :=
  u.owner ∈ sessionAddresses db localSessionId ∧ InRange db u.creatingTransactionId 0 top ∧
    ¬ ∃ txId ∈ u.spendingTransactionId, InRange db txId 0 top

/-- A UTXO of a registered address that one transaction up to a height creates and spends. -/
def SpentAtOnce (u : UnshieldedUtxoRow) : Prop :=
  u.owner ∈ sessionAddresses db localSessionId ∧ InRange db u.creatingTransactionId 0 top ∧
    u.spendingTransactionId = some u.creatingTransactionId

instance : DecidablePred (Unspent db localSessionId top) := fun _ => inferInstanceAs (Decidable (_ ∧ _))

instance : DecidablePred (SpentAtOnce db localSessionId top) := fun _ => inferInstanceAs (Decidable (_ ∧ _))

/-- The UTXOs that meet a predicate. -/
def utxosWhere (p : UnshieldedUtxoRow → Prop) [DecidablePred p] : List UnshieldedUtxoRow :=
  db.unshieldedUtxos.filter (fun u => p u)

/-- The amount of a token type that is unspent on the chain. -/
def chainBalance (tokenType : String) : Nat :=
  total (fun u => if hexEncode u.tokenType = tokenType then bigEndian u.value else 0)
    (utxosWhere db (Unspent db localSessionId top))

end Chain

/-! ## The changes of a range -/

/-- What a row of the query changes in a wallet. -/
def UnshieldedUtxoEventRow.change (event : UnshieldedUtxoEventRow) : Change Int Coin :=
  if event.isCreate then .gain event.utxoId (hexEncode event.tokenType, decodeU128Value event.valueBytes)
  else .lose event.utxoId

theorem parseNat_toString (n : Nat) : parseNat (toString n).toList = some n := by
  rw [show (toString n).toList = Nat.toDigits 10 n from Nat.toList_repr, parseNat_toDigits]

section Changes
variable {db : Database} {args : AssemblyArgs} {height : Int}

def SortableFeedItem.change (s : SortableFeedItem) : Option (Change Int Coin) :=
  match s.item with
  | .unshieldedUtxo event =>
    if event.isCreate then
      (parseNat event.value.toList).map fun amount => .gain s.sequence.ordinal (event.tokenType, amount)
    else some (.lose s.sequence.ordinal)
  | _ => none

theorem change_toOrdered {s : SortableFeedItem} (h : s.sequence.Wide) : s.toOrdered.change = s.change := by
  unfold OrderedFeedItem.change SortableFeedItem.change SortableFeedItem.toOrdered
  rw [parseCursor_toCursor h]
  cases s.item <;> rfl

theorem change_eq_none {s : SortableFeedItem} (h : s.utxoEvent.isSome = false) : s.change = none := by
  unfold SortableFeedItem.change
  unfold SortableFeedItem.utxoEvent at h
  cases hitem : s.item with
  | unshieldedUtxo event =>
    rw [hitem] at h
    cases h
  | _ => rfl

theorem filterMap_change (l : List SortableFeedItem) :
    l.filterMap SortableFeedItem.change =
      (l.filter (fun s => s.utxoEvent.isSome)).filterMap SortableFeedItem.change := by
  rw [List.filterMap_filter]
  refine List.filterMap_congr fun s _ => ?_
  cases h : s.utxoEvent.isSome with
  | true => rfl
  | false => exact change_eq_none h

theorem changes_blockItems (db : Database) (args : AssemblyArgs) (height : Int) :
    (blockItems db args height).filterMap OrderedFeedItem.change =
      (getUnshieldedUtxoEvents db args.localSessionId height height).map UnshieldedUtxoEventRow.change := by
  calc (blockItems db args height).filterMap OrderedFeedItem.change
      = (blockSortables db args height).filterMap SortableFeedItem.change := by
        rw [blockItems_eq, List.filterMap_map]
        exact List.filterMap_congr fun s hs => change_toOrdered (sequence_of_mem_blockSortables hs).2
    _ = ((fetchWindow db args height height).unshieldedItems height).filterMap SortableFeedItem.change := by
        rw [filterMap_change, filter_blockSortables_utxoEvent]
    _ = ((getUnshieldedUtxoEvents db args.localSessionId height height).filter
          (fun event => event.blockHeight = height)).map UnshieldedUtxoEventRow.change := by
        refine filterMap_map_eq_map (fun event => ?_) _
        unfold SortableFeedItem.change UnshieldedUtxoEventRow.change
        dsimp only
        rw [parseNat_toString]
        cases event.isCreate <;> rfl
    _ = _ := by rw [filter_getUnshieldedUtxoEvents _ le_rfl le_rfl]

theorem changes_feedItems (db : Database) (args : AssemblyArgs) (fromHeight toHeight : Int) :
    (feedItems db args fromHeight (toHeight + 1)).filterMap OrderedFeedItem.change =
      (getUnshieldedUtxoEvents db args.localSessionId fromHeight toHeight).map UnshieldedUtxoEventRow.change := by
  rw [feedItems, List.filterMap_flatMap, ← flatMap_getUnshieldedUtxoEvents, List.map_flatMap]
  exact List.flatMap_congr fun height _ => changes_blockItems db args height

end Changes

/-! ## What is held -/

section Held
variable {db : Database} {sessionId : Bytes} {fromHeight toHeight top : Int} {u : UnshieldedUtxoRow}

theorem change_of_isCreate {event : UnshieldedUtxoEventRow} (h : event.isCreate = true) :
    event.change = .gain event.utxoId (hexEncode event.tokenType, decodeU128Value event.valueBytes) := by
  rw [UnshieldedUtxoEventRow.change, if_pos h]

theorem change_eq_lose {event : UnshieldedUtxoEventRow} {id : Int} (h : event.change = .lose id) :
    event.utxoEvent = (id, false) := by
  unfold UnshieldedUtxoEventRow.change at h
  cases hcreate : event.isCreate with
  | true =>
    rw [hcreate, if_pos rfl] at h
    cases h
  | false =>
    rw [hcreate, if_neg Bool.false_ne_true] at h
    rw [UnshieldedUtxoEventRow.utxoEvent, hcreate, Change.lose.inj h]

theorem change_eq_gain {event : UnshieldedUtxoEventRow} {id : Int} {coin : Coin} (h : event.change = .gain id coin) :
    event.utxoEvent = (id, true) ∧ coin = (hexEncode event.tokenType, decodeU128Value event.valueBytes) := by
  unfold UnshieldedUtxoEventRow.change at h
  cases hcreate : event.isCreate with
  | true =>
    rw [hcreate, if_pos rfl] at h
    obtain ⟨rfl, rfl⟩ := Change.gain.inj h
    exact ⟨by rw [UnshieldedUtxoEventRow.utxoEvent, hcreate], rfl⟩
  | false =>
    rw [hcreate, if_neg Bool.false_ne_true] at h
    cases h

theorem holding_of_mem (h : u ∈ db.unshieldedUtxos) {event : UnshieldedUtxoEventRow}
    (hevent : event ∈ getUnshieldedUtxoEvents db sessionId fromHeight toHeight) (hid : event.utxoId = u.id) :
    u.owner ∈ sessionAddresses db sessionId ∧
      u.holding = (event.utxoId, hexEncode event.tokenType, decodeU128Value event.valueBytes) := by
  have hrow : ∀ isCreate txId, event ∈ unshieldedUtxoRows db (sessionAddresses db sessionId) isCreate txId fromHeight
      toHeight → u.owner ∈ sessionAddresses db sessionId ∧
        u.holding = (event.utxoId, hexEncode event.tokenType, decodeU128Value event.valueBytes) := by
    intro isCreate txId hmem
    obtain ⟨joined, hjoined, rfl⟩ := List.mem_map.mp ((mem_sortBy _).mp hmem)
    obtain ⟨hu, -, -⟩ := mem_join.mp (mem_leftJoin_fst hjoined)
    obtain ⟨hu, howner⟩ := List.mem_filter.mp hu
    obtain rfl : joined.1.1 = u := eq_of_key_eq db.constraints.unshieldedUtxoIds hu h hid
    exact ⟨of_decide_eq_true howner, rfl⟩
  rcases mem_getUnshieldedUtxoEvents.mp hevent with hmem | hmem
  · exact hrow _ _ hmem
  · exact hrow _ _ hmem

theorem exists_utxo_of_mem {event : UnshieldedUtxoEventRow}
    (h : event ∈ getUnshieldedUtxoEvents db sessionId fromHeight toHeight) :
    ∃ u ∈ db.unshieldedUtxos, event.utxoId = u.id := by
  rcases mem_getUnshieldedUtxoEvents.mp h with hrow | hrow
  · obtain ⟨u, hu, -, hid, -⟩ := mem_unshieldedUtxoRows hrow
    exact ⟨u, hu, hid.symm⟩
  · obtain ⟨u, hu, -, hid, -⟩ := mem_unshieldedUtxoRows hrow
    exact ⟨u, hu, hid.symm⟩

theorem sortKey_lt_of_split {events pre post : List UnshieldedUtxoEventRow} {event other : UnshieldedUtxoEventRow}
    (hsorted : events.Pairwise (fun a b => a.sortKey < b.sortKey)) (hsplit : events = pre ++ event :: post)
    (hother : other ∈ events) : other ∈ post ↔ event.sortKey < other.sortKey := by
  rw [hsplit] at hsorted hother
  obtain ⟨-, htail, hcross⟩ := List.pairwise_append.mp hsorted
  obtain ⟨hlater, -⟩ := List.pairwise_cons.mp htail
  constructor
  · exact hlater other
  · intro hlt
    rcases List.mem_append.mp hother with hpre | hmem
    · exact absurd hlt (hcross other hpre event List.mem_cons_self).not_gt
    · rcases List.mem_cons.mp hmem with rfl | hpost
      · exact absurd hlt (lt_irrefl _)
      · exact hpost

/-- After the create row of a UTXO there is a spend row exactly when another transaction of the range spends it. -/
theorem lose_mem_iff (hcreated : CreatedFirst db sessionId) (hu : u ∈ db.unshieldedUtxos)
    (howner : u.owner ∈ sessionAddresses db sessionId) {pre post : List UnshieldedUtxoEventRow}
    {create : UnshieldedUtxoEventRow}
    (hsplit : getUnshieldedUtxoEvents db sessionId fromHeight toHeight = pre ++ create :: post)
    (hcreate : create.utxoEvent = (u.id, true)) : .lose u.id ∈ post.map UnshieldedUtxoEventRow.change ↔
      (∃ txId ∈ u.spendingTransactionId, InRange db txId fromHeight toHeight) ∧
        u.spendingTransactionId ≠ some u.creatingTransactionId := by
  have hsorted := pairwise_lt_getUnshieldedUtxoEvents db sessionId fromHeight toHeight
  have hspends := (mem_utxoEvents_iff fromHeight toHeight hu howner).2
  have hc : create ∈ getUnshieldedUtxoEvents db sessionId fromHeight toHeight := by
    rw [hsplit]
    exact List.mem_append_right _ List.mem_cons_self
  constructor
  · intro hlose
    obtain ⟨spend, hpost, hchange⟩ := List.mem_map.mp hlose
    have hspend := change_eq_lose hchange
    have hs : spend ∈ getUnshieldedUtxoEvents db sessionId fromHeight toHeight := by
      rw [hsplit]
      exact List.mem_append_right _ (List.mem_cons_of_mem _ hpost)
    refine ⟨hspends.mp (hspend ▸ List.mem_map_of_mem hs), fun hsame => ?_⟩
    exact ((sortKey_lt_of_split hsorted hsplit hs).mp hpost).not_gt
      (sortKey_lt_of_sameTx hu hs hc hspend hcreate hsame)
  · rintro ⟨hrange, hother⟩
    obtain ⟨spend, hs, hspend⟩ := List.mem_map.mp (hspends.mpr hrange)
    have hlt := sortKey_lt_of_spentLater hcreated hu howner hs hc hspend hcreate hother
    refine List.mem_map.mpr ⟨spend, (sortKey_lt_of_split hsorted hsplit hs).mpr hlt, ?_⟩
    obtain ⟨hid, hkind⟩ := Prod.mk.inj hspend
    rw [UnshieldedUtxoEventRow.change, hkind, if_neg Bool.false_ne_true, hid]

/-- A UTXO is unspent, or spent at once, when it is created in the range and no other transaction of it spends it. -/
theorem unspent_or_spentAtOnce_iff : Unspent db sessionId top u ∨ SpentAtOnce db sessionId top u ↔
    u.owner ∈ sessionAddresses db sessionId ∧ InRange db u.creatingTransactionId 0 top ∧
      ¬ ((∃ txId ∈ u.spendingTransactionId, InRange db txId 0 top) ∧
        u.spendingTransactionId ≠ some u.creatingTransactionId) := by
  unfold Unspent SpentAtOnce
  rw [← and_or_left, ← and_or_left, not_and_or, not_not]

/-- An entry is held exactly for the UTXOs that are unspent or spent at once. -/
theorem mem_replay_rows (hcreated : CreatedFirst db sessionId) {id : Int} {coin : Coin} :
    (id, coin) ∈ replay ((getUnshieldedUtxoEvents db sessionId 0 top).map UnshieldedUtxoEventRow.change) ↔
      ∃ u ∈ db.unshieldedUtxos, (Unspent db sessionId top u ∨ SpentAtOnce db sessionId top u) ∧
        u.holding = (id, coin) := by
  rw [mem_replay]
  constructor
  · rintro ⟨pre, post, hchanges, hlose⟩
    obtain ⟨epre, etail, hsplit, -, htail⟩ := List.map_eq_append_iff.mp hchanges
    obtain ⟨create, epost, rfl, hgain, rfl⟩ := List.map_eq_cons_iff.mp htail
    obtain ⟨hcreate, rfl⟩ := change_eq_gain hgain
    have hc : create ∈ getUnshieldedUtxoEvents db sessionId 0 top := by
      rw [hsplit]
      exact List.mem_append_right _ List.mem_cons_self
    obtain ⟨u, hu, hid⟩ := exists_utxo_of_mem hc
    obtain ⟨howner, hholding⟩ := holding_of_mem hu hc hid
    obtain rfl : create.utxoId = id := congrArg Prod.fst hcreate
    rw [hid] at hcreate hlose
    refine ⟨u, hu, unspent_or_spentAtOnce_iff.mpr ⟨howner, ?_, ?_⟩, hholding⟩
    · exact (mem_utxoEvents_iff 0 top hu howner).1.mp (hcreate ▸ List.mem_map_of_mem hc)
    · rwa [← lose_mem_iff hcreated hu howner hsplit hcreate]
  · rintro ⟨u, hu, hheld, hholding⟩
    obtain ⟨howner, hrange, hnot⟩ := unspent_or_spentAtOnce_iff.mp hheld
    obtain ⟨create, hc, hcreate⟩ := List.mem_map.mp ((mem_utxoEvents_iff 0 top hu howner).1.mpr hrange)
    obtain ⟨hid, hkind⟩ := Prod.mk.inj hcreate
    obtain ⟨pre, post, hsplit⟩ := List.append_of_mem hc
    rw [(holding_of_mem hu hc hid).2] at hholding
    obtain ⟨rfl, rfl⟩ := Prod.mk.inj hholding
    refine ⟨pre.map UnshieldedUtxoEventRow.change, post.map UnshieldedUtxoEventRow.change, ?_, ?_⟩
    · rw [hsplit, List.map_append, List.map_cons, change_of_isCreate hkind]
    · rwa [hid, lose_mem_iff hcreated hu howner hsplit hcreate]

theorem nodup_gained (db : Database) (sessionId : Bytes) (fromHeight toHeight : Int) :
    ((((getUnshieldedUtxoEvents db sessionId fromHeight toHeight).map UnshieldedUtxoEventRow.change).filterMap
      Change.gained).map Prod.fst).Nodup := by
  have hnodup := nodup_utxoEvents db sessionId fromHeight toHeight
  have hgained : ∀ events : List UnshieldedUtxoEventRow,
      ((events.map UnshieldedUtxoEventRow.change).filterMap Change.gained).map Prod.fst =
        ((events.map (·.utxoEvent)).filter (fun e => e.2)).map Prod.fst := by
    intro events
    induction events with
    | nil => rfl
    | cons event events ih =>
      rw [List.map_cons, List.map_cons]
      cases hcreate : event.isCreate with
      | true =>
        rw [change_of_isCreate hcreate, List.filterMap_cons_some (by rfl), List.map_cons, ih,
          List.filter_cons_of_pos (by exact hcreate), List.map_cons]
        rfl
      | false =>
        rw [UnshieldedUtxoEventRow.change, hcreate, if_neg Bool.false_ne_true, List.filterMap_cons_none (by rfl), ih,
          List.filter_cons_of_neg (by simp [UnshieldedUtxoEventRow.utxoEvent, hcreate])]
  rw [hgained]
  refine List.Nodup.map_on ?_ (hnodup.filter _)
  rintro ⟨id, kind⟩ h ⟨id', kind'⟩ h' heq
  have hkind : kind = true := (List.mem_filter.mp h).2
  have hkind' : kind' = true := (List.mem_filter.mp h').2
  rw [hkind, hkind', show id = id' from heq]

/-- **Holdings.** A wallet that has the feed up to a height holds the UTXOs that are unspent there, and those that one
transaction has created and spent. -/
theorem perm_walletOf {args : AssemblyArgs} (hcreated : CreatedFirst db args.localSessionId) (top : Int) :
    (walletOf (feedItems db args 0 (top + 1))).Perm
      ((db.unshieldedUtxos.filter fun u =>
        decide (Unspent db args.localSessionId top u) || decide (SpentAtOnce db args.localSessionId top u)).map
          UnshieldedUtxoRow.holding) := by
  rw [walletOf, changes_feedItems]
  refine (List.perm_ext_iff_of_nodup ?_ ?_).mpr ?_
  · exact (nodup_replay (nodup_gained db args.localSessionId 0 top)).of_map Prod.fst
  · refine List.Nodup.of_map Prod.fst ?_
    rw [List.map_map]
    exact db.constraints.unshieldedUtxoIds.sublist (List.filter_sublist.map _)
  · rintro ⟨id, coin⟩
    rw [mem_replay_rows hcreated, List.mem_map]
    refine exists_congr fun u => ?_
    rw [List.mem_filter, Bool.or_eq_true, decide_eq_true_eq, decide_eq_true_eq, and_assoc]

end Held

/-! ## Balances -/

section Balance
variable {db : Database} {sessionId : Bytes} {top : Int}

theorem not_unspent_and_spentAtOnce {u : UnshieldedUtxoRow} :
    ¬ (Unspent db sessionId top u ∧ SpentAtOnce db sessionId top u) := by
  rintro ⟨⟨-, -, hunspent⟩, -, hrange, hspent⟩
  exact hunspent ⟨_, hspent, hrange⟩

def spentAtOnceBalance (db : Database) (sessionId : Bytes) (top : Int) (tokenType : String) : Nat :=
  total (fun u => if hexEncode u.tokenType = tokenType then bigEndian u.value else 0)
    (utxosWhere db (SpentAtOnce db sessionId top))

theorem balance_walletOf {args : AssemblyArgs} (hcreated : CreatedFirst db args.localSessionId)
    (hvalues : ∀ u ∈ db.unshieldedUtxos, u.value.length ≤ 16) (top : Int) (tokenType : String) :
    balance tokenType (walletOf (feedItems db args 0 (top + 1))) =
      chainBalance db args.localSessionId top tokenType + spentAtOnceBalance db args.localSessionId top tokenType := by
  have hweight : ∀ u ∈ db.unshieldedUtxos, amountOf tokenType u.holding =
      if hexEncode u.tokenType = tokenType then bigEndian u.value else 0 := by
    intro u hu
    have hvalue : decodeU128Value u.value = bigEndian u.value := by
      rw [decodeU128Value_eq_div, Nat.sub_eq_zero_of_le (hvalues u hu), pow_zero, Nat.div_one]
    exact if_congr Iff.rfl hvalue rfl
  rw [balance, total_perm (perm_walletOf hcreated top), chainBalance, spentAtOnceBalance, utxosWhere, utxosWhere,
    ← total_filter_or]
  · rw [total_map]
    exact total_congr fun u hu => hweight u (List.mem_of_mem_filter hu)
  · intro u _ hboth
    exact not_unspent_and_spentAtOnce ⟨of_decide_eq_true hboth.1, of_decide_eq_true hboth.2⟩

theorem spentAtOnceBalance_eq_zero_iff {tokenType : String} : spentAtOnceBalance db sessionId top tokenType = 0 ↔
    ∀ u ∈ db.unshieldedUtxos, SpentAtOnce db sessionId top u → hexEncode u.tokenType = tokenType →
      bigEndian u.value = 0 := by
  unfold spentAtOnceBalance
  rw [total_eq_zero_iff]
  constructor
  · intro h u hu hspent htoken
    have hzero := h u (List.mem_filter.mpr ⟨hu, decide_eq_true hspent⟩)
    rwa [if_pos htoken] at hzero
  · intro h u hmem
    obtain ⟨hu, hspent⟩ := List.mem_filter.mp hmem
    split_ifs with htoken
    · exact h u hu (of_decide_eq_true hspent) htoken
    · rfl

end Balance

/-- **The balance of a wallet.** However a wallet has polled and streamed a growing chain, its balance of every token is
what is unspent on the chain at the last height it has, and what has been created and spent by one transaction. So it is
the balance on the chain exactly when no such UTXO has an amount. -/
theorem followedBalance_iff (limitBlocksMax : Nat) {db : Database} {query : FeedQuery} {subscribeQuery : SubscribeQuery}
    {args : AssemblyArgs} (hargs : Following db query subscribeQuery args) (requests : List FeedRequest)
    (hgrowing : Growing db (requests.flatMap FeedRequest.snapshots)) {db' : Database}
    (hlast : lastSnapshot db (requests.flatMap FeedRequest.snapshots) = db')
    (hcreated : CreatedFirst db' args.localSessionId)
    (hvalues : ∀ u ∈ db'.unshieldedUtxos, u.value.length ≤ 16) (tokenType : String) :
    let p := Follower.run limitBlocksMax query subscribeQuery requests
    balance tokenType (walletOf p.items) = chainBalance db' args.localSessionId (p.fromHeight - 1) tokenType +
        spentAtOnceBalance db' args.localSessionId (p.fromHeight - 1) tokenType ∧
      (balance tokenType (walletOf p.items) = chainBalance db' args.localSessionId (p.fromHeight - 1) tokenType ↔
        ∀ u ∈ db'.unshieldedUtxos, SpentAtOnce db' args.localSessionId (p.fromHeight - 1) u →
          hexEncode u.tokenType = tokenType → bigEndian u.value = 0) := by
  intro p
  have h : p.Inv (lastSnapshot db (requests.flatMap FeedRequest.snapshots)) args :=
    (Follower.inv_initial db args).requests hargs hgrowing
  rw [hlast] at h
  have hitems : p.items = feedItems db' args 0 (p.fromHeight - 1 + 1) := by
    rw [h.items, sub_add_cancel]
  rw [hitems, balance_walletOf hcreated hvalues, ← spentAtOnceBalance_eq_zero_iff]
  exact ⟨rfl, Nat.add_eq_left⟩

namespace Sample

/-- A poll for the first of two blocks, and then a connection for the second one, which spends the UTXO of the first. -/
def spendingRequests : List FeedRequest :=
  [.poll ⟨spentNext, some 1, false⟩, .connect ⟨spentNext, [.iterate (encounter spentNext), .send, .receive], 1⟩]

theorem following_spentNext : Following spentNext query subscribeQuery args where
  polls := ⟨sessionId, parseSessionId_hexEncode (by decide), rfl⟩
  subscribes := ⟨parseSessionId_hexEncode (by decide), rfl, rfl, rfl, rfl, rfl, rfl, rfl⟩

end Sample

theorem followedBalance_iff_spentNext :
    let p := Follower.run 100 Sample.query Sample.subscribeQuery Sample.spendingRequests
    p.fromHeight = 2 ∧ balance "" (walletOf p.items) =
      chainBalance Sample.spentNext Sample.sessionId (p.fromHeight - 1) "" := by
  intro p
  have h := followedBalance_iff 100 Sample.following_spentNext Sample.spendingRequests
    ⟨⟨.refl, by decide, by decide⟩, ⟨.refl, by decide, by decide⟩, ⟨.refl, by decide, by decide⟩, trivial⟩
    rfl (by decide) (by decide) ""
  refine ⟨by decide +kernel, h.2.mpr fun u hu hspent => ?_⟩
  have hnone : ∀ u ∈ Sample.spentNext.unshieldedUtxos, u.spendingTransactionId ≠ some u.creatingTransactionId := by
    decide
  exact absurd hspent.2.2 (hnone u hu)

end NocyWalletFeed
