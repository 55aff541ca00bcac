import NocyWalletFeed.Pages
import NocyWalletFeed.SessionTables

/-!
# Feed isolation

What a request of a session reads: the chain tables, the session's own rows, and the wallet of the upstream session it
maps to with its relevant transactions.

* `SameChain` : two databases with the same chain tables; the queries that read nothing else agree;
* `MapsTo`, `SameSession` : they also agree on what belongs to one session;
* `SameSession.fetchWindow_eq`, `SameSession.resolveArgs_eq` : the rows of a window and the parameters of a request;
* `getFeed_isolated` : the response.
-/

namespace NocyWalletFeed
open Codec Relational OrderBy

/-! ## The chain -/

structure SameChain (db db' : Database) : Prop where
  blocks : db'.blocks = db.blocks
  transactions : db'.transactions = db.transactions
  regularTransactions : db'.regularTransactions = db.regularTransactions
  hasIdentifiersColumn : db'.hasIdentifiersColumn = db.hasIdentifiersColumn
  transactionIdentifiers : db'.transactionIdentifiers = db.transactionIdentifiers
  ledgerEvents : db'.ledgerEvents = db.ledgerEvents
  contractActions : db'.contractActions = db.contractActions
  unshieldedUtxos : db'.unshieldedUtxos = db.unshieldedUtxos

namespace SameChain
variable {db db' : Database} (h : SameChain db db')
include h

theorem getChainHead_eq : getChainHead db' = getChainHead db := by
  unfold getChainHead
  rw [h.blocks]

theorem blockingHeights_eq (lastIndexed : Int) : blockingHeights db' lastIndexed = blockingHeights db lastIndexed := by
  unfold blockingHeights
  rw [h.blocks, h.transactions]

theorem getBlockHashAtHeight_eq (height : Int) : getBlockHashAtHeight db' height = getBlockHashAtHeight db height := by
  unfold getBlockHashAtHeight
  rw [h.blocks]

theorem getBlocksInRange_eq (fromHeight toHeight : Int) :
    getBlocksInRange db' fromHeight toHeight = getBlocksInRange db fromHeight toHeight := by
  unfold getBlocksInRange
  rw [h.blocks]

theorem detectIdentifiersSource_eq : detectIdentifiersSource db' = detectIdentifiersSource db := by
  unfold detectIdentifiersSource
  rw [h.hasIdentifiersColumn, h.transactionIdentifiers]

theorem blockTransactions_eq (fromHeight toHeight : Int) :
    blockTransactions db' fromHeight toHeight = blockTransactions db fromHeight toHeight := by
  unfold blockTransactions
  rw [h.transactions, h.blocks]

theorem ledgerEventsInRange_eq (select : LedgerEventRow → Bool) (fromHeight toHeight : Int) :
    ledgerEventsInRange db' select fromHeight toHeight = ledgerEventsInRange db select fromHeight toHeight := by
  unfold ledgerEventsInRange
  rw [h.ledgerEvents, h.blockTransactions_eq]

theorem getAllZswapInputEventsInRange_eq (fromHeight toHeight : Int) :
    getAllZswapInputEventsInRange db' fromHeight toHeight = getAllZswapInputEventsInRange db fromHeight toHeight := by
  unfold getAllZswapInputEventsInRange
  rw [h.ledgerEventsInRange_eq]

theorem dustEventsWhere_eq (select : LedgerEventRow → Bool) (fromHeight toHeight : Int) :
    dustEventsWhere db' select fromHeight toHeight = dustEventsWhere db select fromHeight toHeight := by
  unfold dustEventsWhere
  rw [h.ledgerEventsInRange_eq]

/-- The UTXO rows depend on the addresses as a set. -/
theorem unshieldedUtxoRows_eq {addresses addresses' : List Bytes} (hmem : ∀ a, a ∈ addresses' ↔ a ∈ addresses)
    (isCreate : Bool) (txId : UnshieldedUtxoRow → Option Int) (fromHeight toHeight : Int) :
    unshieldedUtxoRows db' addresses' isCreate txId fromHeight toHeight =
      unshieldedUtxoRows db addresses isCreate txId fromHeight toHeight := by
  have hutxos : db'.unshieldedUtxos.filter (fun uu => uu.owner ∈ addresses') =
      db.unshieldedUtxos.filter (fun uu => uu.owner ∈ addresses) := by
    rw [h.unshieldedUtxos]
    exact List.filter_congr fun uu _ => by simp only [hmem]
  unfold unshieldedUtxoRows
  rw [hutxos, h.blockTransactions_eq, h.regularTransactions]

theorem getZswapEventsForTxs_eq (txIds : List Int) :
    getZswapEventsForTxs db' txIds = getZswapEventsForTxs db txIds := by
  unfold getZswapEventsForTxs
  rw [h.ledgerEvents, h.transactions]

theorem getContractActionsForTxs_eq (txIds : List Int) :
    getContractActionsForTxs db' txIds = getContractActionsForTxs db txIds := by
  unfold getContractActionsForTxs
  rw [h.contractActions, h.transactions]

theorem getTransactionMetadata_eq (txIds : List Int) (includeRaw includeIdentifiers : Bool)
    (identifiersSource : IdentifiersSource) :
    getTransactionMetadata db' txIds includeRaw includeIdentifiers identifiersSource =
      getTransactionMetadata db txIds includeRaw includeIdentifiers identifiersSource := by
  unfold getTransactionMetadata
  rw [h.transactions, h.blocks, h.regularTransactions, h.transactionIdentifiers]

/-- Two sessions with the same addresses, in whatever order, see the same UTXO events. -/
theorem getUnshieldedUtxoEvents_eq {sessionId : Bytes}
    (hmem : ∀ a, a ∈ sessionAddresses db' sessionId ↔ a ∈ sessionAddresses db sessionId) (fromHeight toHeight : Int) :
    getUnshieldedUtxoEvents db' sessionId fromHeight toHeight =
      getUnshieldedUtxoEvents db sessionId fromHeight toHeight := by
  have hempty : (sessionAddresses db' sessionId).isEmpty = (sessionAddresses db sessionId).isEmpty := by
    rw [Bool.eq_iff_iff, List.isEmpty_iff, List.isEmpty_iff, List.eq_nil_iff_forall_not_mem,
      List.eq_nil_iff_forall_not_mem]
    simp only [hmem]
  unfold getUnshieldedUtxoEvents
  dsimp only
  rw [hempty, h.unshieldedUtxoRows_eq hmem, h.unshieldedUtxoRows_eq hmem]

theorem getDustEvents_eq {sessionId : Bytes} (hkey : dustPublicKey db' sessionId = dustPublicKey db sessionId)
    (fromHeight toHeight : Int) :
    getDustEvents db' sessionId fromHeight toHeight = getDustEvents db sessionId fromHeight toHeight := by
  unfold getDustEvents
  rw [hkey]
  cases dustPublicKey db sessionId with
  | none => rfl
  | some key => exact h.dustEventsWhere_eq _ fromHeight toHeight

end SameChain

/-! ## A session -/

/-- A local session is mapped to an upstream session. -/
def MapsTo (db : Database) (sessionId upstreamSessionId : Bytes) : Prop :=
  ∃ p ∈ db.sessionProfile, p.sessionId = sessionId ∧ p.upstreamSessionId = some upstreamSessionId

/-- Two databases agree on the chain, on the rows of a session, and on the wallet of the upstream session it maps to
with the relevant transactions of that wallet. The rows of a table have no order. -/
structure SameSession (sessionId : Bytes) (db db' : Database) : Prop where
  chain : SameChain db db'
  profile : (db'.sessionProfile.filter (fun p => p.sessionId = sessionId)).Perm
    (db.sessionProfile.filter (fun p => p.sessionId = sessionId))
  addresses : (db'.sessionUnshieldedAddress.filter (fun a => a.sessionId = sessionId)).Perm
    (db.sessionUnshieldedAddress.filter (fun a => a.sessionId = sessionId))
  wallets : ∀ upstreamSessionId, MapsTo db sessionId upstreamSessionId →
    (db'.wallets.filter (fun w => w.sessionId = upstreamSessionId)).Perm
      (db.wallets.filter (fun w => w.sessionId = upstreamSessionId))
  relevantTransactions : ∀ upstreamSessionId, MapsTo db sessionId upstreamSessionId →
    ∀ w ∈ db.wallets, w.sessionId = upstreamSessionId →
      (db'.relevantTransactions.filter (fun rt => rt.walletId = w.id)).Perm
        (db.relevantTransactions.filter (fun rt => rt.walletId = w.id))

/-! Rows selected by a unique key. -/

theorem filter_profile_of_perm {db db' : Database} {sessionId : Bytes}
    (h : (db'.sessionProfile.filter (fun p => p.sessionId = sessionId)).Perm
      (db.sessionProfile.filter (fun p => p.sessionId = sessionId))) :
    db'.sessionProfile.filter (fun p => p.sessionId = sessionId) =
      db.sessionProfile.filter (fun p => p.sessionId = sessionId) :=
  filter_eq_of_perm db'.constraints.profileSessions
    (fun _ _ _ _ ha hb => (of_decide_eq_true ha).trans (of_decide_eq_true hb).symm) h

theorem filter_wallets_of_perm {db db' : Database} {sessionId : Bytes}
    (h : (db'.wallets.filter (fun w => w.sessionId = sessionId)).Perm
      (db.wallets.filter (fun w => w.sessionId = sessionId))) :
    db'.wallets.filter (fun w => w.sessionId = sessionId) = db.wallets.filter (fun w => w.sessionId = sessionId) :=
  filter_eq_of_perm db'.constraints.walletSessions
    (fun _ _ _ _ ha hb => (of_decide_eq_true ha).trans (of_decide_eq_true hb).symm) h

theorem sessionRelevantTransactions_eq (db : Database) (sessionId : Bytes) :
    sessionRelevantTransactions db sessionId = db.relevantTransactions.filter
      (fun rt => (db.wallets.filter (fun w => w.sessionId = sessionId)).any (fun w => rt.walletId = w.id)) := by
  have hids : ((db.wallets.filter (fun w => w.sessionId = sessionId)).map (·.id)).Nodup :=
    db.constraints.walletIds.sublist (List.filter_sublist.map _)
  exact map_fst_join _ (fun rt : RelevantTransactionRow => rt.walletId) _ hids
    fun rt w hon => (of_decide_eq_true hon).symm

/-- A row of the result of `getRelevantTransactions`, before the sort. -/
def joinRelevantRows (db : Database) (rows : List RelevantTransactionRow) (fromHeight toHeight : Int) :
    List RelevantTxRow :=
  (leftJoin (fun tb reg => reg.id = tb.1.id)
    ((join (fun rt tb => rt.transactionId = tb.1.id) rows (blockTransactions db fromHeight toHeight)).map (·.2))
    db.regularTransactions).map toRelevantTxRow

theorem perm_joinRelevantRows (db : Database) {rows rows' : List RelevantTransactionRow} (h : rows.Perm rows')
    (fromHeight toHeight : Int) :
    (joinRelevantRows db rows fromHeight toHeight).Perm (joinRelevantRows db rows' fromHeight toHeight) :=
  (leftJoin_perm _ _ ((join_perm _ _ h).map _)).map _

/-- A relevant transaction is determined by its id. -/
theorem relevantTxRow_eq_of_txId_eq {db : Database} {rows rows' : List RelevantTransactionRow}
    {fromHeight toHeight : Int} {row row' : RelevantTxRow} (h : row ∈ joinRelevantRows db rows fromHeight toHeight)
    (h' : row' ∈ joinRelevantRows db rows' fromHeight toHeight) (hid : row.txId = row'.txId) : row = row' := by
  obtain ⟨⟨tb, reg⟩, hjoined, rfl⟩ := List.mem_map.mp h
  obtain ⟨⟨tb', reg'⟩, hjoined', rfl⟩ := List.mem_map.mp h'
  have hbase : ∀ {rows : List RelevantTransactionRow} {tb : TransactionRow × BlockRow} {reg},
      (tb, reg) ∈ leftJoin (fun tb reg => reg.id = tb.1.id)
        ((join (fun rt tb => rt.transactionId = tb.1.id) rows (blockTransactions db fromHeight toHeight)).map (·.2))
        db.regularTransactions → tb.1 ∈ db.transactions ∧ tb.2 ∈ db.blocks ∧ tb.1.blockId = tb.2.id := by
    intro rows tb reg hmem
    obtain ⟨p, hp, heq⟩ := List.mem_map.mp (mem_leftJoin_fst hmem)
    obtain ⟨ht, hb, hblock, -, -⟩ := mem_blockTransactions.mp (mem_join.mp hp).2.1
    rw [heq] at ht hb hblock
    exact ⟨ht, hb, hblock⟩
  obtain ⟨ht, hb, hblock⟩ := hbase hjoined
  obtain ⟨ht', hb', hblock'⟩ := hbase hjoined'
  have htx : tb.1 = tb'.1 := db.transaction_eq_of_id_eq ht ht' hid
  have hblocks : tb.2 = tb'.2 := db.block_eq_of_id_eq hb hb' (by rw [← hblock, ← hblock', htx])
  obtain rfl : tb = tb' := Prod.ext htx hblocks
  rcases mem_leftJoin hjoined with ⟨r, hr, hon, rfl⟩ | ⟨rfl, hnone⟩
  · rcases mem_leftJoin hjoined' with ⟨r', hr', hon', rfl⟩ | ⟨rfl, hnone'⟩
    · rw [eq_of_key_eq db.constraints.regularTransactionIds hr hr'
        ((of_decide_eq_true hon).trans (of_decide_eq_true hon').symm)]
    · rw [hnone' r hr] at hon
      cases hon
  · rcases mem_leftJoin hjoined' with ⟨r', hr', hon', rfl⟩ | ⟨rfl, -⟩
    · rw [hnone r' hr'] at hon'
      cases hon'
    · rfl

namespace SameSession
variable {sessionId : Bytes} {db db' : Database} (h : SameSession sessionId db db')
include h

theorem filter_profile : db'.sessionProfile.filter (fun p => p.sessionId = sessionId) =
    db.sessionProfile.filter (fun p => p.sessionId = sessionId) := filter_profile_of_perm h.profile

theorem find?_profile : db'.sessionProfile.find? (fun p => p.sessionId = sessionId) =
    db.sessionProfile.find? (fun p => p.sessionId = sessionId) := by
  rw [← List.head?_filter, h.filter_profile, List.head?_filter]

theorem dustPublicKey_eq : dustPublicKey db' sessionId = dustPublicKey db sessionId := by
  rw [dustPublicKey_eq_profileOf, dustPublicKey_eq_profileOf]
  unfold profileOf
  rw [h.find?_profile]

theorem mem_sessionAddresses (a : Bytes) : a ∈ sessionAddresses db' sessionId ↔ a ∈ sessionAddresses db sessionId :=
  (h.addresses.map _).mem_iff

theorem getUpstreamSessionId_eq : getUpstreamSessionId db' sessionId = getUpstreamSessionId db sessionId := by
  unfold getUpstreamSessionId
  rw [h.find?_profile]

omit h in
theorem mapsTo_of_getUpstreamSessionId {upstreamSessionId : Bytes}
    (hget : getUpstreamSessionId db sessionId = .ok upstreamSessionId) : MapsTo db sessionId upstreamSessionId := by
  unfold getUpstreamSessionId at hget
  cases hfind : db.sessionProfile.find? (fun p => p.sessionId = sessionId) with
  | none =>
    rw [hfind] at hget
    cases hget
  | some p =>
    rw [hfind, Option.map_some] at hget
    have hid : p.sessionId = sessionId := by simpa using List.find?_some hfind
    refine ⟨p, List.mem_of_find?_eq_some hfind, hid, ?_⟩
    cases hupstream : p.upstreamSessionId with
    | none =>
      rw [hupstream] at hget
      cases hget
    | some u =>
      simp only [hupstream] at hget
      split_ifs at hget
      rw [Except.ok.inj hget]

/-! The wallet the session maps to. -/

variable {upstreamSessionId : Bytes} (hmaps : MapsTo db sessionId upstreamSessionId)
include hmaps

theorem getWalletInfo_eq : getWalletInfo db' upstreamSessionId = getWalletInfo db upstreamSessionId := by
  unfold getWalletInfo
  rw [← List.head?_filter, filter_wallets_of_perm (h.wallets upstreamSessionId hmaps), List.head?_filter]

theorem computeWalletReadyHeight_eq (chainHead : Int) :
    computeWalletReadyHeight db' upstreamSessionId chainHead =
      computeWalletReadyHeight db upstreamSessionId chainHead := by
  unfold computeWalletReadyHeight
  rw [h.getWalletInfo_eq hmaps]
  simp only [h.chain.blockingHeights_eq]

theorem perm_sessionRelevantTransactions : (sessionRelevantTransactions db' upstreamSessionId).Perm
    (sessionRelevantTransactions db upstreamSessionId) := by
  rw [sessionRelevantTransactions_eq, sessionRelevantTransactions_eq,
    filter_wallets_of_perm (h.wallets upstreamSessionId hmaps)]
  -- a session has one wallet at most
  have hle := length_filter_key_le_one (p := fun w : WalletRow => w.sessionId = upstreamSessionId)
    db.constraints.walletSessions (fun _ _ _ _ ha hb => (of_decide_eq_true ha).trans (of_decide_eq_true hb).symm)
  cases hw : db.wallets.filter (fun w => w.sessionId = upstreamSessionId) with
  | nil => simp
  | cons w ws =>
    rw [hw, List.length_cons] at hle
    obtain rfl : ws = [] := List.length_eq_zero_iff.mp (by omega)
    have hmem : w ∈ db.wallets.filter (fun w => w.sessionId = upstreamSessionId) := hw ▸ List.mem_singleton_self w
    simpa using h.relevantTransactions upstreamSessionId hmaps w (List.mem_of_mem_filter hmem)
      (of_decide_eq_true (List.mem_filter.mp hmem).2)

theorem getRelevantTransactions_eq (fromHeight toHeight : Int) :
    getRelevantTransactions db' upstreamSessionId fromHeight toHeight =
      getRelevantTransactions db upstreamSessionId fromHeight toHeight := by
  have hjoin : ∀ rows,
      joinRelevantRows db' rows fromHeight toHeight = joinRelevantRows db rows fromHeight toHeight := by
    intro rows
    unfold joinRelevantRows
    rw [h.chain.blockTransactions_eq, h.chain.regularTransactions]
  show sortBy _ (joinRelevantRows db' _ fromHeight toHeight) = sortBy _ (joinRelevantRows db _ fromHeight toHeight)
  rw [hjoin]
  refine sortBy_eq_of_perm _ (perm_joinRelevantRows db (h.perm_sessionRelevantTransactions hmaps) fromHeight toHeight)
    fun a ha b hb hkey => relevantTxRow_eq_of_txId_eq ha hb ?_
  exact congrArg (fun key : Int ×ₗ Int => (ofLex key).2) hkey

end SameSession

/-! ## The response -/

namespace SameSession
variable {sessionId : Bytes} {db db' : Database} (h : SameSession sessionId db db')
include h

theorem fetchDustEvents_eq {args : AssemblyArgs} (hlocal : args.localSessionId = sessionId)
    (fromHeight toHeight : Int) :
    fetchDustEvents db' args fromHeight toHeight = fetchDustEvents db args fromHeight toHeight := by
  subst hlocal
  unfold fetchDustEvents getAllDustEvents
  rw [h.chain.dustEventsWhere_eq, h.chain.getDustEvents_eq h.dustPublicKey_eq]

theorem fetchWindow_eq {args : AssemblyArgs} (hlocal : args.localSessionId = sessionId)
    (hmaps : MapsTo db sessionId args.upstreamSessionId) (fromHeight toHeight : Int) :
    fetchWindow db' args fromHeight toHeight = fetchWindow db args fromHeight toHeight := by
  have hunshielded := h.chain.getUnshieldedUtxoEvents_eq h.mem_sessionAddresses fromHeight toHeight
  rw [← hlocal] at hunshielded
  simp only [fetchWindow, h.getRelevantTransactions_eq hmaps, h.fetchDustEvents_eq hlocal, hunshielded,
    h.chain.getZswapEventsForTxs_eq, h.chain.getContractActionsForTxs_eq, h.chain.getTransactionMetadata_eq,
    h.chain.getAllZswapInputEventsInRange_eq]

theorem resolveArgs_eq {query : FeedQuery} (hquery : parseSessionId query.sessionId = .ok sessionId) :
    resolveArgs db' query sessionId = resolveArgs db query sessionId := by
  have hnullifier : getSessionNullifierStreaming db' query.sessionId =
      getSessionNullifierStreaming db query.sessionId := by
    unfold getSessionNullifierStreaming
    rw [hquery]
    show Except.ok _ = Except.ok _
    rw [h.find?_profile]
  simp only [resolveArgs, hnullifier, h.getUpstreamSessionId_eq, h.chain.detectIdentifiersSource_eq]

theorem feedPage_eq {args : AssemblyArgs} (hlocal : args.localSessionId = sessionId)
    (hmaps : MapsTo db sessionId args.upstreamSessionId) (watermarks : Watermarks) (fromCursor : Option SequenceKey)
    (fromHeight limitBlocks readyHeight : Int) :
    feedPage db' args watermarks fromCursor fromHeight limitBlocks readyHeight =
      feedPage db args watermarks fromCursor fromHeight limitBlocks readyHeight := by
  unfold feedPage
  dsimp only
  rw [h.chain.getBlocksInRange_eq, h.chain.getBlockHashAtHeight_eq, h.fetchWindow_eq hlocal hmaps]

end SameSession

theorem resolveArgs_session {db : Database} {query : FeedQuery} {sessionId : Bytes} {args : AssemblyArgs}
    (h : resolveArgs db query sessionId = .ok args) :
    args.localSessionId = sessionId ∧ MapsTo db sessionId args.upstreamSessionId := by
  obtain ⟨nullifierMode, upstreamSessionId, -, hupstream, rfl⟩ := resolveArgs_ok h
  exact ⟨rfl, SameSession.mapsTo_of_getUpstreamSessionId hupstream⟩

/-- **Feed isolation.** The response to a request of a session is the same over two databases that agree on the chain,
on the rows of the session, and on the wallet of its upstream session and that wallet's relevant transactions. -/
theorem getFeed_isolated {sessionId : Bytes} {db db' : Database} (h : SameSession sessionId db db') {query : FeedQuery}
    (hquery : parseSessionId query.sessionId = .ok sessionId) (limitBlocksMax : Nat) :
    getFeed limitBlocksMax db' query = getFeed limitBlocksMax db query := by
  unfold getFeed
  rw [hquery]
  simp only [bind, Except.bind, h.resolveArgs_eq hquery, h.chain.getChainHead_eq]
  cases parseFromCursor query.fromCursor with
  | error e => rfl
  | ok fromCursor =>
    cases hargs : resolveArgs db query sessionId with
    | error e => rfl
    | ok args =>
      obtain ⟨hlocal, hmaps⟩ := resolveArgs_session hargs
      simp only [h.computeWalletReadyHeight_eq hmaps, h.feedPage_eq hlocal hmaps]

/-! ## A second wallet -/

namespace Sample

def otherSession : Bytes := List.replicate SESSION_ID_BYTES 7

/-- One block with a transaction that is relevant for one of two wallets, a dust event and a UTXO. -/
def sharedTables : Tables :=
  { tables [block 0 1 0] [transaction 1 0] [utxo 1 1 none] with
    ledgerEvents := [⟨1, 1, .dust, .other "DustInitialUtxo", [9]⟩]
    relevantTransactions := [⟨1, 1⟩] }

def alone : Database := ⟨sharedTables, by decide⟩

/-- The same chain and the same wallet, with a second wallet that maps to its own upstream session, has registered the
same address and a dust key, and finds the same transaction relevant. -/
def withOther : Database :=
  ⟨{ sharedTables with
      wallets := [⟨2, otherSession, some 5⟩, ⟨1, sessionId, some 100⟩]
      relevantTransactions := [⟨2, 1⟩, ⟨1, 1⟩]
      sessionProfile := [⟨otherSession, some otherSession, some [9], "disabled"⟩,
        ⟨sessionId, some sessionId, none, "enabled"⟩]
      sessionUnshieldedAddress := [⟨otherSession, address⟩, ⟨otherSession, [2]⟩, ⟨sessionId, address⟩] }, by decide⟩

theorem sameSession_withOther : SameSession sessionId alone withOther where
  chain := ⟨rfl, rfl, rfl, rfl, rfl, rfl, rfl, rfl⟩
  profile := by decide
  addresses := by decide
  wallets := by
    rintro u ⟨p, hp, -, hu⟩
    obtain rfl : p = ⟨sessionId, some sessionId, none, "enabled"⟩ := List.mem_singleton.mp hp
    obtain rfl : sessionId = u := Option.some.inj hu
    decide
  relevantTransactions := by
    rintro u - w hw -
    obtain rfl : w = ⟨1, sessionId, some 100⟩ := List.mem_singleton.mp hw
    decide

end Sample

/-- The feed of a wallet, with its relevant transaction and its UTXO, next to a wallet that reads the same chain. -/
theorem getFeed_isolated_withOther :
    ((getFeed 100 Sample.alone Sample.query).toOption.map (·.blocks.map (·.items.map (·.sequence)))) =
        some [["0:1:0:1", "0:1:2:1"]] ∧
      getFeed 100 Sample.withOther Sample.query = getFeed 100 Sample.alone Sample.query :=
  ⟨by decide, getFeed_isolated Sample.sameSession_withOther (by decide) 100⟩

end NocyWalletFeed
