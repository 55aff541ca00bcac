import NocyWalletFeed.Readiness
import Mathlib.Logic.Relation

/-!
# Served data is final

The database evolves by two kinds of steps: the chain indexer appends a block, and the wallet indexer moves a wallet's
`last_indexed_transaction_id` forward together with the `relevant_transactions` rows it finds on the way.

* `BlockAppend`, `WalletIndex`, `Step`, `Evolves` : the steps and their runs;
* `Extends` : what a step leaves alone, seen from a session;
* `Settled` : the wallet indexer has looked at every transaction of a height (`Settled.step` : it stays that way);
* `Extends.fetchWindow_eq` : a step cannot touch a settled height.
-/

namespace NocyWalletFeed
open Codec Relational OrderBy

/-! ## Steps -/

/-- The rows the chain indexer adds with a block; `spend u` is the new transaction that spends `u`, if one does. -/
structure BlockAppend where
  block : BlockRow
  transactions : List TransactionRow
  regularTransactions : List RegularTransactionRow
  transactionIdentifiers : List TransactionIdentifierRow
  ledgerEvents : List LedgerEventRow
  contractActions : List ContractActionRow
  createdUtxos : List UnshieldedUtxoRow
  spend : UnshieldedUtxoRow → Option Int

namespace BlockAppend
variable (a : BlockAppend)

def IsNew (txId : Int) : Prop := ∃ t ∈ a.transactions, t.id = txId

instance (txId : Int) : Decidable (a.IsNew txId) := inferInstanceAs (Decidable (∃ t ∈ a.transactions, t.id = txId))

/-- Only a UTXO that has not been spent yet is spent. -/
def spendUtxo (u : UnshieldedUtxoRow) : UnshieldedUtxoRow :=
  if u.spendingTransactionId = none then { u with spendingTransactionId := a.spend u } else u

/-- A block at head + 1 with transactions above every existing one, and rows of these transactions only. -/
structure Valid (db : Database) : Prop where
  height : a.block.height = getChainHead db + 1
  transactions : ∀ t ∈ a.transactions, t.blockId = a.block.id ∧ ∀ t' ∈ db.transactions, t'.id < t.id
  owned : ∀ t ∈ db.transactions, t.blockId ≠ a.block.id
  regularTransactions : ∀ reg ∈ a.regularTransactions, a.IsNew reg.id
  transactionIdentifiers : ∀ row ∈ a.transactionIdentifiers, a.IsNew row.transactionId
  ledgerEvents : ∀ le ∈ a.ledgerEvents, a.IsNew le.transactionId
  contractActions : ∀ ca ∈ a.contractActions, a.IsNew ca.transactionId
  createdUtxos : ∀ u ∈ a.createdUtxos, a.IsNew u.creatingTransactionId ∧
    ∀ txId ∈ u.spendingTransactionId, a.IsNew txId
  spend : ∀ u, ∀ txId ∈ a.spend u, a.IsNew txId

/-- The tables with the new rows and the spends. -/
def apply (t : Tables) : Tables :=
  { t with
    blocks := t.blocks ++ [a.block]
    transactions := t.transactions ++ a.transactions
    regularTransactions := t.regularTransactions ++ a.regularTransactions
    transactionIdentifiers := t.transactionIdentifiers.map (· ++ a.transactionIdentifiers)
    ledgerEvents := t.ledgerEvents ++ a.ledgerEvents
    contractActions := t.contractActions ++ a.contractActions
    unshieldedUtxos := t.unshieldedUtxos.map a.spendUtxo ++ a.createdUtxos }

end BlockAppend

/-- The wallet indexer moves a wallet to `upTo` and adds the relevant rows it found. -/
structure WalletIndex where
  wallet : WalletRow
  upTo : Int
  relevantTransactions : List RelevantTransactionRow

namespace WalletIndex
variable (x : WalletIndex)

/-- A `NULL` counts as 0: transaction ids start at 1. -/
structure Valid (db : Database) : Prop where
  wallet : x.wallet ∈ db.wallets
  forward : x.wallet.lastIndexedTransactionId.getD 0 ≤ x.upTo
  relevantTransactions : ∀ row ∈ x.relevantTransactions, row.walletId = x.wallet.id ∧
    x.wallet.lastIndexedTransactionId.getD 0 < row.transactionId ∧ row.transactionId ≤ x.upTo

def advance (w : WalletRow) : WalletRow :=
  if w.id = x.wallet.id then { w with lastIndexedTransactionId := some x.upTo } else w

def apply (t : Tables) : Tables :=
  { t with
    wallets := t.wallets.map x.advance
    relevantTransactions := t.relevantTransactions ++ x.relevantTransactions }

end WalletIndex

inductive Step (db db' : Database) : Prop where
  | append (a : BlockAppend) (valid : a.Valid db) (tables : db'.toTables = a.apply db.toTables)
  | index (x : WalletIndex) (valid : x.Valid db) (tables : db'.toTables = x.apply db.toTables)

/-- Any number of steps. -/
abbrev Evolves : Database → Database → Prop := Relation.ReflTransGen Step

/-! ## What a step leaves alone -/

/-- `db'` extends `db` with rows of transactions that satisfy `isNew`, and with relevant rows of the session above its
last indexed transaction. -/
structure Extends (db db' : Database) (sessionId : Bytes) (isNew : Int → Prop)
    (spendUtxo : UnshieldedUtxoRow → UnshieldedUtxoRow) : Prop where
  old : ∀ t ∈ db.transactions, ¬ isNew t.id
  blocks : ∃ rows, db'.blocks = db.blocks ++ rows ∧
    ∀ b ∈ rows, getChainHead db < b.height ∧ ∀ t ∈ db.transactions, t.blockId ≠ b.id
  transactions : ∃ rows, db'.transactions = db.transactions ++ rows ∧
    ∀ t ∈ rows, isNew t.id ∧ ∀ b ∈ db.blocks, t.blockId ≠ b.id
  regularTransactions : ∃ rows, db'.regularTransactions = db.regularTransactions ++ rows ∧ ∀ reg ∈ rows, isNew reg.id
  transactionIdentifiers : ∃ rows, db'.transactionIdentifiers = db.transactionIdentifiers.map (· ++ rows) ∧
    ∀ row ∈ rows, isNew row.transactionId
  ledgerEvents : ∃ rows, db'.ledgerEvents = db.ledgerEvents ++ rows ∧ ∀ le ∈ rows, isNew le.transactionId
  contractActions : ∃ rows, db'.contractActions = db.contractActions ++ rows ∧ ∀ ca ∈ rows, isNew ca.transactionId
  unshieldedUtxos : ∃ rows, db'.unshieldedUtxos = db.unshieldedUtxos.map spendUtxo ++ rows ∧
    ∀ u ∈ rows, isNew u.creatingTransactionId ∧ ∀ txId ∈ u.spendingTransactionId, isNew txId
  spendUtxo : ∀ u, spendUtxo u = u ∨
    u.spendingTransactionId = none ∧ ∃ txId, isNew txId ∧ spendUtxo u = { u with spendingTransactionId := some txId }
  relevant : ∃ rows, sessionRelevantTransactions db' sessionId = sessionRelevantTransactions db sessionId ++ rows ∧
    ∀ row ∈ rows, lastIndexed db sessionId < row.transactionId
  lastIndexed : lastIndexed db sessionId ≤ lastIndexed db' sessionId
  hasIdentifiersColumn : db'.hasIdentifiersColumn = db.hasIdentifiersColumn
  sessionProfile : db'.sessionProfile = db.sessionProfile
  sessionUnshieldedAddress : db'.sessionUnshieldedAddress = db.sessionUnshieldedAddress

theorem BlockAppend.extends_db {a : BlockAppend} {db db' : Database} (hvalid : a.Valid db)
    (htables : db'.toTables = a.apply db.toTables) (sessionId : Bytes) :
    Extends db db' sessionId a.IsNew a.spendUtxo := by
  have hblocks : db'.blocks = db.blocks ++ [a.block] := congrArg Tables.blocks htables
  have hwallets : db'.wallets = db.wallets := by simp only [htables, BlockAppend.apply]
  have hrelevant : db'.relevantTransactions = db.relevantTransactions := by simp only [htables, BlockAppend.apply]
  have hid : ∀ b ∈ db.blocks, a.block.id ≠ b.id := by
    intro b hb heq
    have hnodup := db'.constraints.blockIds
    rw [hblocks, List.map_append, List.map_singleton, List.nodup_append] at hnodup
    exact hnodup.2.2 b.id (List.mem_map_of_mem hb) a.block.id List.mem_cons_self heq.symm
  have hinfo : getWalletInfo db' sessionId = getWalletInfo db sessionId := by rw [getWalletInfo, hwallets]; rfl
  refine
    { old := ?_
      blocks := ⟨[a.block], hblocks, ?_⟩
      transactions := ⟨a.transactions, congrArg Tables.transactions htables, ?_⟩
      regularTransactions := ⟨_, congrArg Tables.regularTransactions htables, hvalid.regularTransactions⟩
      transactionIdentifiers := ⟨_, congrArg Tables.transactionIdentifiers htables, hvalid.transactionIdentifiers⟩
      ledgerEvents := ⟨_, congrArg Tables.ledgerEvents htables, hvalid.ledgerEvents⟩
      contractActions := ⟨_, congrArg Tables.contractActions htables, hvalid.contractActions⟩
      unshieldedUtxos := ⟨_, congrArg Tables.unshieldedUtxos htables, hvalid.createdUtxos⟩
      spendUtxo := ?_
      relevant := ⟨[], ?_, by simp⟩
      lastIndexed := by rw [lastIndexed, lastIndexed, hinfo]
      hasIdentifiersColumn := by simp only [htables, BlockAppend.apply]
      sessionProfile := by simp only [htables, BlockAppend.apply]
      sessionUnshieldedAddress := by simp only [htables, BlockAppend.apply] }
  · rintro t ht ⟨t', ht', heq⟩
    have := (hvalid.transactions t' ht').2 t ht
    omega
  · intro b hb
    obtain rfl := List.mem_singleton.mp hb
    exact ⟨by rw [hvalid.height]; omega, hvalid.owned⟩
  · exact fun t ht => ⟨⟨t, ht, rfl⟩, fun b hb => by rw [(hvalid.transactions t ht).1]; exact hid b hb⟩
  · intro u
    unfold BlockAppend.spendUtxo
    split_ifs with hnone
    · cases hspend : a.spend u with
      | none => exact Or.inl (by rw [← hnone])
      | some txId => exact Or.inr ⟨hnone, txId, hvalid.spend u txId hspend, rfl⟩
    · exact Or.inl rfl
  · rw [sessionRelevantTransactions, hrelevant, hwallets, List.append_nil]
    rfl

namespace WalletIndex
variable {x : WalletIndex}

@[simp] theorem advance_id (w : WalletRow) : (x.advance w).id = w.id := by
  unfold advance
  split_ifs <;> rfl

@[simp] theorem advance_sessionId (w : WalletRow) : (x.advance w).sessionId = w.sessionId := by
  unfold advance
  split_ifs <;> rfl

theorem filter_map_advance (wallets : List WalletRow) (sessionId : Bytes) :
    (wallets.map x.advance).filter (fun w => w.sessionId = sessionId) =
      (wallets.filter (fun w => w.sessionId = sessionId)).map x.advance := by
  rw [List.filter_map]
  refine congrArg _ (List.filter_congr fun w _ => ?_)
  simp

variable {db db' : Database} {sessionId : Bytes}

theorem getWalletInfo_eq (htables : db'.toTables = x.apply db.toTables) :
    getWalletInfo db' sessionId = (db.wallets.find? (fun w => w.sessionId = sessionId)).map
      (fun w => ⟨(x.advance w).lastIndexedTransactionId⟩) := by
  have hwallets : db'.wallets = db.wallets.map x.advance := congrArg Tables.wallets htables
  rw [getWalletInfo, hwallets, List.find?_map, Option.map_map]
  simp [Function.comp_def]

/-- The rows the wallet indexer adds are above the last transaction it had looked at. -/
theorem exists_relevant_append (hvalid : x.Valid db) (htables : db'.toTables = x.apply db.toTables) :
    ∃ rows, sessionRelevantTransactions db' sessionId = sessionRelevantTransactions db sessionId ++ rows ∧
      ∀ row ∈ rows, lastIndexed db sessionId < row.transactionId := by
  have hwallets : db'.wallets = db.wallets.map x.advance := congrArg Tables.wallets htables
  have hrelevant : db'.relevantTransactions = db.relevantTransactions ++ x.relevantTransactions :=
    congrArg Tables.relevantTransactions htables
  have hmap : ∀ l : List RelevantTransactionRow,
      (join (fun rt w => rt.walletId = w.id) l
        ((db.wallets.filter (fun w => w.sessionId = sessionId)).map x.advance)).map (·.1) =
        (join (fun rt w => rt.walletId = w.id) l (db.wallets.filter (fun w => w.sessionId = sessionId))).map
        (·.1) := by
    intro l
    simp [join, List.map_flatMap, List.filter_map, Function.comp_def]
  refine ⟨(join (fun rt w => rt.walletId = w.id) x.relevantTransactions
    (db.wallets.filter (fun w => w.sessionId = sessionId))).map (·.1), ?_, ?_⟩
  · rw [sessionRelevantTransactions, hrelevant, hwallets, filter_map_advance, hmap, join_append_left, List.map_append]
    rfl
  · intro row hrow
    obtain ⟨⟨_, w⟩, hjoin, rfl⟩ := List.mem_map.mp hrow
    obtain ⟨hmem, hw, hon⟩ := mem_join.mp hjoin
    obtain ⟨hwallet, hlast, -⟩ := hvalid.relevantTransactions _ hmem
    obtain ⟨hw, hsession⟩ := List.mem_filter.mp hw
    obtain rfl : w = x.wallet := Relational.eq_of_key_eq db.constraints.walletIds hw hvalid.wallet
      ((of_decide_eq_true hon).symm.trans hwallet)
    have hfind : db.wallets.find? (fun w => w.sessionId = sessionId) = some x.wallet :=
      Relational.find?_key db.constraints.walletSessions hw (of_decide_eq_true hsession)
    rw [lastIndexed, getWalletInfo, hfind]
    exact hlast

theorem le_advance (hvalid : x.Valid db) {w : WalletRow} (hw : w ∈ db.wallets) :
    w.lastIndexedTransactionId.getD 0 ≤ (x.advance w).lastIndexedTransactionId.getD 0 := by
  unfold advance
  split_ifs with hid
  · rw [Relational.eq_of_key_eq db.constraints.walletIds hw hvalid.wallet hid]
    exact hvalid.forward
  · exact le_rfl

theorem lastIndexed_le (hvalid : x.Valid db) (htables : db'.toTables = x.apply db.toTables) :
    NocyWalletFeed.lastIndexed db sessionId ≤ NocyWalletFeed.lastIndexed db' sessionId := by
  rw [NocyWalletFeed.lastIndexed, NocyWalletFeed.lastIndexed, getWalletInfo_eq htables, getWalletInfo]
  cases hf : db.wallets.find? (fun w => w.sessionId = sessionId) with
  | none => exact le_rfl
  | some w => exact le_advance hvalid (List.mem_of_find?_eq_some hf)

theorem extends_db (hvalid : x.Valid db) (htables : db'.toTables = x.apply db.toTables) (sessionId : Bytes) :
    Extends db db' sessionId (fun _ => False) id where
  old := fun _ _ h => h
  blocks := ⟨[], by simp [htables, apply], by simp⟩
  transactions := ⟨[], by simp [htables, apply], by simp⟩
  regularTransactions := ⟨[], by simp [htables, apply], by simp⟩
  transactionIdentifiers := ⟨[], by simp [htables, apply], by simp⟩
  ledgerEvents := ⟨[], by simp [htables, apply], by simp⟩
  contractActions := ⟨[], by simp [htables, apply], by simp⟩
  unshieldedUtxos := ⟨[], by simp [htables, apply], by simp⟩
  spendUtxo := fun _ => Or.inl rfl
  relevant := exists_relevant_append hvalid htables
  lastIndexed := lastIndexed_le hvalid htables
  hasIdentifiersColumn := by simp only [htables, apply]
  sessionProfile := by simp only [htables, apply]
  sessionUnshieldedAddress := by simp only [htables, apply]

end WalletIndex

theorem Step.extends_db {db db' : Database} (h : Step db db') (sessionId : Bytes) :
    ∃ isNew spendUtxo, Extends db db' sessionId isNew spendUtxo := by
  cases h with
  | append a hvalid htables => exact ⟨_, _, BlockAppend.extends_db hvalid htables sessionId⟩
  | index x hvalid htables => exact ⟨_, _, WalletIndex.extends_db hvalid htables sessionId⟩

/-! ## Settled heights -/

/-- The wallet indexer of a session has looked at every transaction of a height on the chain. -/
structure Settled (db : Database) (sessionId : Bytes) (height : Int) : Prop where
  blocks : db.blocks ≠ []
  below : height ≤ getChainHead db
  indexed : ∀ txId, InBlock db txId height → txId ≤ lastIndexed db sessionId

theorem WalletReady.settledAt {db : Database} {sessionId : Bytes} {readyHeight height : Int}
    (h : WalletReady db sessionId readyHeight) (hblocks : db.blocks ≠ []) (hle : height ≤ readyHeight) :
    Settled db sessionId height :=
  ⟨hblocks, hle.trans h.le_getChainHead, fun _ hblock => h.settled hblock hle⟩

namespace Extends
variable {db db' : Database} {sessionId : Bytes} {isNew : Int → Prop}
  {spendUtxo : UnshieldedUtxoRow → UnshieldedUtxoRow} (h : Extends db db' sessionId isNew spendUtxo)
include h

theorem getChainHead_le (hblocks : db.blocks ≠ []) : getChainHead db ≤ getChainHead db' := by
  obtain ⟨b, hb, heq⟩ := exists_height_eq_getChainHead hblocks
  obtain ⟨rows, hrows, -⟩ := h.blocks
  rw [← heq]
  exact height_le_getChainHead (hrows ▸ List.mem_append_left rows hb)

/-- A step adds no transaction to a height that is on the chain. -/
theorem blockTransactions_eq {height : Int} (hbelow : height ≤ getChainHead db) :
    blockTransactions db' height height = blockTransactions db height height := by
  obtain ⟨newBlocks, hblocks, hnewBlocks⟩ := h.blocks
  obtain ⟨newTxs, htxs, hnewTxs⟩ := h.transactions
  have hrange : (db.blocks ++ newBlocks).filter (fun b => b.height ≥ height ∧ b.height ≤ height) =
      db.blocks.filter (fun b => b.height ≥ height ∧ b.height ≤ height) := by
    refine filter_append_of_forall _ fun b hb => ?_
    have := (hnewBlocks b hb).1
    simp
    omega
  unfold blockTransactions
  rw [filter_join_snd _ (fun b : BlockRow => b.height ≥ height ∧ b.height ≤ height),
    filter_join_snd _ (fun b : BlockRow => b.height ≥ height ∧ b.height ≤ height), hblocks, htxs, hrange]
  refine join_append _ fun t ht b hb => decide_eq_false ?_
  exact (hnewTxs t ht).2 b (List.mem_of_mem_filter hb)

theorem inBlock_iff {height : Int} (hbelow : height ≤ getChainHead db) {txId : Int} :
    InBlock db' txId height ↔ InBlock db txId height := by
  rw [InBlock, InBlock, h.blockTransactions_eq hbelow]

theorem leftJoin_regularTransactions {α : Type*} (txId : α → Int) {l : List α}
    (hl : ∀ a ∈ l, ¬ isNew (txId a)) :
    leftJoin (fun a reg => reg.id = txId a) l db'.regularTransactions =
      leftJoin (fun a reg => reg.id = txId a) l db.regularTransactions := by
  obtain ⟨rows, hrows, hnew⟩ := h.regularTransactions
  rw [hrows]
  refine leftJoin_append_right _ fun a ha reg hreg => decide_eq_false fun heq => ?_
  exact hl a ha (heq ▸ hnew reg hreg)

theorem not_isNew_of_mem {fromHeight toHeight : Int} {tb : TransactionRow × BlockRow}
    (hmem : tb ∈ blockTransactions db fromHeight toHeight) : ¬ isNew tb.1.id :=
  h.old _ (mem_blockTransactions.mp hmem).1

variable {height : Int}

theorem getRelevantTransactions_eq (hs : Settled db sessionId height) :
    getRelevantTransactions db' sessionId height height = getRelevantTransactions db sessionId height height := by
  obtain ⟨rows, hrows, hlast⟩ := h.relevant
  have hjoin : join (fun rt tb => rt.transactionId = tb.1.id) (sessionRelevantTransactions db' sessionId)
      (blockTransactions db' height height) = join (fun rt tb => rt.transactionId = tb.1.id)
      (sessionRelevantTransactions db sessionId) (blockTransactions db height height) := by
    rw [h.blockTransactions_eq hs.below, hrows]
    refine join_append _ fun row hrow tb htb => decide_eq_false fun heq => ?_
    have hindexed := hs.indexed _ ⟨tb, htb, rfl⟩
    have hnew := hlast row hrow
    omega
  unfold getRelevantTransactions
  rw [hjoin]
  dsimp only
  rw [h.leftJoin_regularTransactions (fun tb : TransactionRow × BlockRow => tb.1.id)]
  intro tb htb
  obtain ⟨⟨rt, tb⟩, hmem, rfl⟩ := List.mem_map.mp htb
  exact h.not_isNew_of_mem (mem_join.mp hmem).2.1

theorem ledgerEventsInRange_eq (select : LedgerEventRow → Bool) (hbelow : height ≤ getChainHead db) :
    ledgerEventsInRange db' select height height = ledgerEventsInRange db select height height := by
  obtain ⟨rows, hrows, hnew⟩ := h.ledgerEvents
  unfold ledgerEventsInRange
  rw [h.blockTransactions_eq hbelow, hrows, List.filter_append]
  congr 1
  refine join_append _ fun le hle tb htb => decide_eq_false fun heq => ?_
  exact h.not_isNew_of_mem htb (heq ▸ hnew le (List.mem_of_mem_filter hle))

theorem fetchDustEvents_eq (args : AssemblyArgs) (hbelow : height ≤ getChainHead db) :
    fetchDustEvents db' args height height = fetchDustEvents db args height height := by
  have hkey : dustPublicKey db' args.localSessionId = dustPublicKey db args.localSessionId := by
    rw [dustPublicKey, h.sessionProfile]
    rfl
  have hwhere : ∀ select, dustEventsWhere db' select height height = dustEventsWhere db select height height := by
    intro select
    rw [dustEventsWhere, h.ledgerEventsInRange_eq _ hbelow, dustEventsWhere]
  simp only [fetchDustEvents, getAllDustEvents, getDustEvents, hkey, hwhere]

theorem unshieldedUtxoRows_eq (addresses : List Bytes) (isCreate : Bool) {txId : UnshieldedUtxoRow → Option Int}
    (hbelow : height ≤ getChainHead db)
    (htxId : ∀ u, ∀ id, ¬ isNew id → (txId (spendUtxo u) = some id ↔ txId u = some id))
    (hnew : ∀ rows, db'.unshieldedUtxos = db.unshieldedUtxos.map spendUtxo ++ rows →
      (∀ u ∈ rows, isNew u.creatingTransactionId ∧ ∀ id ∈ u.spendingTransactionId, isNew id) →
      ∀ u ∈ rows, ∀ id ∈ txId u, isNew id) :
    unshieldedUtxoRows db' addresses isCreate txId height height =
      unshieldedUtxoRows db addresses isCreate txId height height := by
  obtain ⟨rows, hrows, hfresh⟩ := h.unshieldedUtxos
  have howner : ∀ u, (spendUtxo u).owner = u.owner := by
    intro u
    rcases h.spendUtxo u with heq | ⟨-, _, -, heq⟩ <;> rw [heq]
  have hfilter : db'.unshieldedUtxos.filter (fun uu => uu.owner ∈ addresses) =
      (db.unshieldedUtxos.filter (fun uu => uu.owner ∈ addresses)).map spendUtxo ++
        rows.filter (fun uu => uu.owner ∈ addresses) := by
    rw [hrows, List.filter_append, List.filter_map]
    simp [Function.comp_def, howner]
  have hjoin : join (fun uu tb => txId uu = some tb.1.id) (db'.unshieldedUtxos.filter (fun uu => uu.owner ∈ addresses))
      (blockTransactions db' height height) =
      (join (fun uu tb => txId uu = some tb.1.id) (db.unshieldedUtxos.filter (fun uu => uu.owner ∈ addresses))
        (blockTransactions db height height)).map (Prod.map spendUtxo id) := by
    rw [h.blockTransactions_eq hbelow, hfilter, join_append, join_map_left]
    · refine congrArg _ (join_congr_on fun u _ tb htb => ?_)
      rw [decide_eq_decide]
      exact htxId u _ (h.not_isNew_of_mem htb)
    · intro u hu tb htb
      refine decide_eq_false fun heq => ?_
      exact h.not_isNew_of_mem htb (hnew rows hrows hfresh u (List.mem_of_mem_filter hu) _ heq)
  have hrow : ∀ row : (UnshieldedUtxoRow × TransactionRow × BlockRow) × Option RegularTransactionRow,
      toUnshieldedUtxoEventRow isCreate (Prod.map (Prod.map spendUtxo id) id row) =
        toUnshieldedUtxoEventRow isCreate row := by
    rintro ⟨⟨u, tb⟩, reg⟩
    rcases h.spendUtxo u with heq | ⟨-, _, -, heq⟩
    · simp [toUnshieldedUtxoEventRow, heq]
    · simp [toUnshieldedUtxoEventRow, heq]
  have hold : ∀ row ∈ join (fun uu tb => txId uu = some tb.1.id)
      (db.unshieldedUtxos.filter (fun uu => uu.owner ∈ addresses)) (blockTransactions db height height),
      ¬ isNew row.2.1.id := fun row hmem => h.not_isNew_of_mem (mem_join.mp hmem).2.1
  unfold unshieldedUtxoRows
  dsimp only
  rw [hjoin, leftJoin_map_left, List.map_map]
  congr 1
  refine (List.map_congr_left fun row _ => hrow row).trans ?_
  exact congrArg _ (h.leftJoin_regularTransactions
    (fun row : UnshieldedUtxoRow × TransactionRow × BlockRow => row.2.1.id) hold)

theorem getUnshieldedUtxoEvents_eq (localSessionId : Bytes) (hbelow : height ≤ getChainHead db) :
    getUnshieldedUtxoEvents db' localSessionId height height =
      getUnshieldedUtxoEvents db localSessionId height height := by
  have haddr : sessionAddresses db' localSessionId = sessionAddresses db localSessionId := by
    rw [sessionAddresses, h.sessionUnshieldedAddress]
    rfl
  have hcreate : ∀ addresses, unshieldedUtxoRows db' addresses true (fun uu => some uu.creatingTransactionId) height
      height = unshieldedUtxoRows db addresses true (fun uu => some uu.creatingTransactionId) height height := by
    intro addresses
    refine h.unshieldedUtxoRows_eq addresses true hbelow (fun u id _ => ?_) fun rows _ hfresh u hu id hid => ?_
    · rcases h.spendUtxo u with heq | ⟨-, _, -, heq⟩ <;> rw [heq]
    · exact Option.some.inj hid ▸ (hfresh u hu).1
  have hspend : ∀ addresses, unshieldedUtxoRows db' addresses false (·.spendingTransactionId) height height =
      unshieldedUtxoRows db addresses false (·.spendingTransactionId) height height := by
    intro addresses
    refine h.unshieldedUtxoRows_eq addresses false hbelow (fun u id hid => ?_) fun rows _ hfresh u hu id hid => ?_
    · rcases h.spendUtxo u with heq | ⟨hnone, txId, hnew, heq⟩
      · rw [heq]
      · have hne : txId ≠ id := fun h => hid (h ▸ hnew)
        simp [heq, hnone, hne]
    · exact (hfresh u hu).2 id hid
  simp only [getUnshieldedUtxoEvents, haddr, hcreate, hspend]

/-! Rows that are looked up by transaction id. -/

theorem filter_transactions {txIds : List Int} (hids : ∀ id ∈ txIds, ¬ isNew id) :
    db'.transactions.filter (fun t => t.id ∈ txIds) = db.transactions.filter (fun t => t.id ∈ txIds) := by
  obtain ⟨rows, hrows, hnew⟩ := h.transactions
  rw [hrows]
  exact filter_append_of_forall _ fun t ht => decide_eq_false fun hmem => hids _ hmem (hnew t ht).1

theorem getZswapEventsForTxs_eq {txIds : List Int} (hids : ∀ id ∈ txIds, ¬ isNew id) :
    getZswapEventsForTxs db' txIds = getZswapEventsForTxs db txIds := by
  obtain ⟨rows, hrows, hnew⟩ := h.ledgerEvents
  have hjoin : join (fun le t => le.transactionId = t.id) (db'.ledgerEvents.filter (fun le => le.grouping = .zswap))
      (db'.transactions.filter (fun t => t.id ∈ txIds)) =
      join (fun le t => le.transactionId = t.id) (db.ledgerEvents.filter (fun le => le.grouping = .zswap))
      (db.transactions.filter (fun t => t.id ∈ txIds)) := by
    rw [h.filter_transactions hids, hrows, List.filter_append]
    refine join_append _ fun le hle t ht => decide_eq_false fun heq => ?_
    exact h.old t (List.mem_of_mem_filter ht) (heq ▸ hnew le (List.mem_of_mem_filter hle))
  simp only [getZswapEventsForTxs, hjoin]

theorem getContractActionsForTxs_eq {txIds : List Int} (hids : ∀ id ∈ txIds, ¬ isNew id) :
    getContractActionsForTxs db' txIds = getContractActionsForTxs db txIds := by
  obtain ⟨rows, hrows, hnew⟩ := h.contractActions
  have hjoin : join (fun ca t => ca.transactionId = t.id) db'.contractActions
      (db'.transactions.filter (fun t => t.id ∈ txIds)) =
      join (fun ca t => ca.transactionId = t.id) db.contractActions
      (db.transactions.filter (fun t => t.id ∈ txIds)) := by
    rw [h.filter_transactions hids, hrows]
    refine join_append _ fun ca hca t ht => decide_eq_false fun heq => ?_
    exact h.old t (List.mem_of_mem_filter ht) (heq ▸ hnew ca hca)
  simp only [getContractActionsForTxs, hjoin]

theorem getTransactionMetadata_eq {txIds : List Int} (hids : ∀ id ∈ txIds, ¬ isNew id)
    (includeRaw includeIdentifiers : Bool) (identifiersSource : IdentifiersSource) :
    getTransactionMetadata db' txIds includeRaw includeIdentifiers identifiersSource =
      getTransactionMetadata db txIds includeRaw includeIdentifiers identifiersSource := by
  obtain ⟨newBlocks, hblocks, hnewBlocks⟩ := h.blocks
  obtain ⟨newRows, hrows, hnewRows⟩ := h.transactionIdentifiers
  have hjoin : join (fun t b => t.blockId = b.id) (db'.transactions.filter (fun t => t.id ∈ txIds)) db'.blocks =
      join (fun t b => t.blockId = b.id) (db.transactions.filter (fun t => t.id ∈ txIds)) db.blocks := by
    rw [h.filter_transactions hids, hblocks]
    exact join_append_right _ fun t ht b hb => decide_eq_false
      ((hnewBlocks b hb).2 t (List.mem_of_mem_filter ht))
  have hold : ∀ tb ∈ join (fun t b => t.blockId = b.id) (db.transactions.filter (fun t => t.id ∈ txIds)) db.blocks,
      ¬ isNew tb.1.id := fun tb hmem => h.old _ (List.mem_of_mem_filter (mem_join.mp hmem).1)
  have hleft := h.leftJoin_regularTransactions (fun tb : TransactionRow × BlockRow => tb.1.id) hold
  have hidentifiers : (db'.transactionIdentifiers.getD []).filter (fun row => row.transactionId ∈ txIds) =
      (db.transactionIdentifiers.getD []).filter (fun row => row.transactionId ∈ txIds) := by
    rw [hrows]
    cases db.transactionIdentifiers with
    | none => rfl
    | some rows =>
      exact filter_append_of_forall rows fun row hrow => decide_eq_false fun hmem =>
        hids _ hmem (hnewRows row hrow)
  simp only [getTransactionMetadata, hjoin, hleft, hidentifiers]

/-- **A step cannot touch a settled height**: every query for it returns what it returned before. -/
theorem fetchWindow_eq {args : AssemblyArgs} (hargs : args.upstreamSessionId = sessionId)
    (hs : Settled db sessionId height) : fetchWindow db' args height height = fetchWindow db args height height := by
  subst hargs
  have hids : ∀ id ∈ walletTxIds (getRelevantTransactions db args.upstreamSessionId height height)
      (getUnshieldedUtxoEvents db args.localSessionId height height) (fetchDustEvents db args height height),
      ¬ isNew id := by
    intro id hid
    have hwindow : id ∈ (fetchWindow db args height height).txIds := hid
    obtain ⟨height', tb, hmem, rfl⟩ := exists_inBlock_of_mem_txIds hwindow
    exact h.not_isNew_of_mem hmem
  have hshielded : ∀ id ∈ (getRelevantTransactions db args.upstreamSessionId height height).map (·.txId),
      ¬ isNew id := by
    intro id hid
    obtain ⟨row, hrow, rfl⟩ := List.mem_map.mp hid
    obtain ⟨tb, hmem, heq⟩ := inBlock_of_mem_relevant hrow
    exact heq ▸ h.not_isNew_of_mem hmem
  have hzswap : getAllZswapInputEventsInRange db' height height = getAllZswapInputEventsInRange db height height := by
    rw [getAllZswapInputEventsInRange, h.ledgerEventsInRange_eq _ hs.below, getAllZswapInputEventsInRange]
  simp only [fetchWindow, h.getRelevantTransactions_eq hs, h.getUnshieldedUtxoEvents_eq _ hs.below,
    h.fetchDustEvents_eq args hs.below, h.getZswapEventsForTxs_eq hshielded, h.getContractActionsForTxs_eq hids,
    h.getTransactionMetadata_eq hids, hzswap]

theorem settled (hs : Settled db sessionId height) : Settled db' sessionId height where
  blocks := by
    obtain ⟨rows, hrows, -⟩ := h.blocks
    rw [hrows]
    exact List.append_ne_nil_of_left_ne_nil hs.blocks rows
  below := hs.below.trans (h.getChainHead_le hs.blocks)
  indexed txId hblock := (hs.indexed txId ((h.inBlock_iff hs.below).mp hblock)).trans h.lastIndexed

theorem resolveArgs_eq (query : FeedQuery) (localSessionId : Bytes) :
    resolveArgs db' query localSessionId = resolveArgs db query localSessionId := by
  obtain ⟨rows, hrows, -⟩ := h.transactionIdentifiers
  have hsource : detectIdentifiersSource db' = detectIdentifiersSource db := by
    simp [detectIdentifiersSource, h.hasIdentifiersColumn, hrows]
  have hupstream : getUpstreamSessionId db' localSessionId = getUpstreamSessionId db localSessionId := by
    simp only [getUpstreamSessionId, h.sessionProfile]
  have hnullifier : getSessionNullifierStreaming db' query.sessionId =
      getSessionNullifierStreaming db query.sessionId := by
    simp only [getSessionNullifierStreaming, h.sessionProfile]
  simp only [resolveArgs, hsource, hupstream, hnullifier]

end Extends

/-! ## Finality -/

/-- Over a run of steps the window of a settled height never changes. -/
theorem Evolves.fetchWindow_eq {db db' : Database} (h : Evolves db db') {args : AssemblyArgs} {height : Int}
    (hs : Settled db args.upstreamSessionId height) :
    fetchWindow db' args height height = fetchWindow db args height height ∧
      Settled db' args.upstreamSessionId height := by
  induction h with
  | refl => exact ⟨rfl, hs⟩
  | tail _ hstep ih =>
    obtain ⟨isNew, spendUtxo, hext⟩ := hstep.extends_db args.upstreamSessionId
    exact ⟨(hext.fetchWindow_eq rfl ih.2).trans ih.1, hext.settled ih.2⟩

theorem Evolves.resolveArgs_eq {db db' : Database} (h : Evolves db db') (query : FeedQuery) (localSessionId : Bytes) :
    resolveArgs db' query localSessionId = resolveArgs db query localSessionId := by
  induction h with
  | refl => rfl
  | tail _ hstep ih =>
    obtain ⟨isNew, spendUtxo, hext⟩ := hstep.extends_db []
    exact (hext.resolveArgs_eq query localSessionId).trans ih

/-- **Served data is final.** At or below the ready height computed before an evolution, a block's items are the same in
every window of every later snapshot. -/
theorem blockItems_final {db db' : Database} (hblocks : db.blocks ≠ []) (hevolves : Evolves db db')
    {query : FeedQuery} {localSessionId : Bytes} {args : AssemblyArgs} {readyHeight : Int}
    (hargs : resolveArgs db query localSessionId = .ok args)
    (hready : WalletReady db args.upstreamSessionId readyHeight) :
    resolveArgs db' query localSessionId = .ok args ∧
      ∀ height ≤ readyHeight, ∀ from₁ to₁ from₂ to₂, from₁ ≤ height → height ≤ to₁ → from₂ ≤ height → height ≤ to₂ →
        (fetchWindow db' args from₂ to₂).feedItems height = (fetchWindow db args from₁ to₁).feedItems height := by
  refine ⟨(hevolves.resolveArgs_eq query localSessionId).trans hargs, ?_⟩
  intro height hle from₁ to₁ from₂ to₂ hlo₁ hhi₁ hlo₂ hhi₂
  have hwindow := (hevolves.fetchWindow_eq (hready.settledAt hblocks hle)).1
  rw [feedItems_fetchWindow db' args hlo₂ hhi₂, feedItems_fetchWindow db args hlo₁ hhi₁, blockItems, hwindow,
    blockItems]

namespace Sample

theorem evolves_longChain : Evolves shortChain longChain := by
  refine Relation.ReflTransGen.single (Step.append ⟨block 1 2 1, [transaction 2 1], [], [], [], [], [], fun _ => none⟩
    ?_ rfl)
  exact ⟨by decide, by decide, by decide, by decide, by decide, by decide, by decide, by decide,
    fun _ _ h => by cases h⟩

end Sample

/-- The first block of a chain keeps its items when a second one is appended. -/
theorem blockItems_final_append : resolveArgs Sample.longChain Sample.query Sample.sessionId = .ok Sample.args ∧
    ∀ height ≤ 0, ∀ from₁ to₁ from₂ to₂, from₁ ≤ height → height ≤ to₁ → from₂ ≤ height → height ≤ to₂ →
      (fetchWindow Sample.longChain Sample.args from₂ to₂).feedItems height =
        (fetchWindow Sample.shortChain Sample.args from₁ to₁).feedItems height :=
  blockItems_final (by decide) Sample.evolves_longChain rfl (by decide)

end NocyWalletFeed
