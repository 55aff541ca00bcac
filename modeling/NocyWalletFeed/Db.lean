import NocyWalletFeed.Database
import Mathlib.Data.List.Infix

/-!
# Queries (`db.rs`)

The queries the feed runs, each over one snapshot. A `JOIN … ON` is `Relational.join`, an `ORDER BY` is
`OrderBy.sortBy`, `fetch_optional` takes the first row. The range condition on `b.height` that most queries share
selects the rows of `transactions t JOIN blocks b ON t.block_id = b.id` (`blockTransactions`) before the other tables
are joined to them. `record_db_query` only measures and is left out.
-/

namespace NocyWalletFeed
open Codec Relational OrderBy

inductive IdentifiersSource where
  | inline
  | table
  | none
  deriving DecidableEq, Repr

/-- Detect where transaction identifiers are stored (inline column vs table). -/
def detectIdentifiersSource (db : Database) : IdentifiersSource :=
  if db.hasIdentifiersColumn then .inline
  else if db.transactionIdentifiers.isSome then .table
  else .none

/-! ## Sessions and wallets -/

/-- Wallet information relevant for feed readiness calculations. -/
structure WalletInfo where
  lastIndexedTransactionId : Option Int
  deriving DecidableEq, Repr

/-- Fetch wallet info for a session, returning `none` if not found. -/
def getWalletInfo (db : Database) (sessionId : Bytes) : Option WalletInfo :=
  (db.wallets.find? (fun w => w.sessionId = sessionId)).map (fun w => ⟨w.lastIndexedTransactionId⟩)

/-- The upstream wallet-indexer session ID of a local sidecar session. -/
def getUpstreamSessionId (db : Database) (localSessionId : Bytes) : Except AppError Bytes :=
  match (db.sessionProfile.find? (fun p => p.sessionId = localSessionId)).map (·.upstreamSessionId) with
  | none => .error (.notFound "Session not found. Use /v1/session/bootstrap to create a session first.")
  | some none => .error (.notFound "Session missing upstream mapping. Re-run /v1/session/bootstrap.")
  | some (some upstreamSessionId) =>
    if upstreamSessionId.length ≠ 32 then
      .error (.internalError ("Invalid upstream_session_id length: expected 32 bytes, got " ++
        toString upstreamSessionId.length))
    else .ok upstreamSessionId

/-! ## Chain state -/

/-- `SELECT COALESCE(MAX(height), 0) FROM blocks` -/
def getChainHead (db : Database) : Int :=
  match db.blocks.map (·.height) with
  | [] => 0
  | h :: hs => hs.foldl max h

/-- The heights of the blocks that hold a transaction with an id above `lastIndexed`. -/
def blockingHeights (db : Database) (lastIndexed : Int) : List Int :=
  ((join (fun b t => t.blockId = b.id) db.blocks db.transactions).filter (fun bt => bt.2.id > lastIndexed)).map
    (fun bt => bt.1.height)

/-- The highest block height up to which the wallet-indexer has processed all transactions: one below the first block
that holds a transaction it has not looked at, and `none` if that is the block at height 0. -/
def computeWalletReadyHeight (db : Database) (sessionId : Bytes) (chainHead : Int) : Except AppError (Option Int) :=
  match getWalletInfo db sessionId with
  | none => .error (.notFound "Wallet not found for session")
  | some walletInfo =>
    let lastIndexed := walletInfo.lastIndexedTransactionId.getD 0
    match (sortBy id (blockingHeights db lastIndexed)).head? with
    | some blockingHeight => if blockingHeight = 0 then .ok none else .ok (some (blockingHeight - 1))
    | none => .ok (some chainHead)

def getBlockHashAtHeight (db : Database) (blockHeight : Int) : Option String :=
  (db.blocks.find? (fun b => b.height = blockHeight)).map (fun b => hexEncode b.hash)

def BlockRow.toMeta (b : BlockRow) : BlockMeta :=
  ⟨b.height, hexEncode b.hash, hexEncode b.parentHash, b.timestamp⟩

def getBlocksInRange (db : Database) (fromHeight toHeight : Int) : List BlockMeta :=
  (sortBy (·.height) (db.blocks.filter (fun b => b.height ≥ fromHeight ∧ b.height ≤ toHeight))).map BlockRow.toMeta

/-! ## Rows by block range -/

/-- `transactions t JOIN blocks b ON t.block_id = b.id WHERE b.height >= fromHeight AND b.height <= toHeight` -/
def blockTransactions (db : Database) (fromHeight toHeight : Int) : List (TransactionRow × BlockRow) :=
  (join (fun t b => t.blockId = b.id) db.transactions db.blocks).filter
    (fun tb => tb.2.height ≥ fromHeight ∧ tb.2.height ≤ toHeight)

/-- Relevant transaction data for feed assembly. -/
structure RelevantTxRow where
  txId : Int
  txHash : Bytes
  blockHeight : Int
  paidFees : Option Bytes
  startIndex : Option Int
  endIndex : Option Int
  deriving DecidableEq, Repr

/-- The columns selected from a transaction, its block and its row of `regular_transactions`. -/
def toRelevantTxRow (row : (TransactionRow × BlockRow) × Option RegularTransactionRow) : RelevantTxRow :=
  { txId := row.1.1.id, txHash := row.1.1.hash, blockHeight := row.1.2.height, paidFees := row.2.bind (·.paidFees),
    startIndex := row.2.bind (·.startIndex), endIndex := row.2.bind (·.endIndex) }

/-- `relevant_transactions rt JOIN wallets w ON rt.wallet_id = w.id WHERE w.session_id = sessionId` -/
def sessionRelevantTransactions (db : Database) (sessionId : Bytes) : List RelevantTransactionRow :=
  (join (fun rt w => rt.walletId = w.id) db.relevantTransactions
    (db.wallets.filter (fun w => w.sessionId = sessionId))).map (·.1)

/-- Query relevant transactions for an upstream session in a block range. -/
def getRelevantTransactions (db : Database) (sessionId : Bytes) (fromHeight toHeight : Int) : List RelevantTxRow :=
  let rows := join (fun rt tb => rt.transactionId = tb.1.id) (sessionRelevantTransactions db sessionId)
    (blockTransactions db fromHeight toHeight)
  let rows := leftJoin (fun tb reg => reg.id = tb.1.id) (rows.map (·.2)) db.regularTransactions
  sortBy (fun row => toLex (row.blockHeight, row.txId)) (rows.map toRelevantTxRow)

structure ZswapInputEventRow where
  txId : Int
  txHash : Bytes
  ledgerEventId : Int
  blockHeight : Int
  raw : Bytes
  deriving DecidableEq, Repr

/-- The selected ledger events with their transaction and block, `ORDER BY b.height, t.id, le.id`. -/
def ledgerEventsInRange (db : Database) (select : LedgerEventRow → Bool) (fromHeight toHeight : Int) :
    List (LedgerEventRow × TransactionRow × BlockRow) :=
  sortBy (fun row => toLex (row.2.2.height, toLex (row.2.1.id, row.1.id)))
    (join (fun le tb => le.transactionId = tb.1.id) (db.ledgerEvents.filter select)
      (blockTransactions db fromHeight toHeight))

/-- Query ALL zswap input events in a block range (global nullifiers). -/
def getAllZswapInputEventsInRange (db : Database) (fromHeight toHeight : Int) : List ZswapInputEventRow :=
  (ledgerEventsInRange db (fun le => le.grouping = .zswap ∧ le.variant = .zswapInput) fromHeight toHeight).map
    fun (le, t, b) => ⟨t.id, t.hash, le.id, b.height, le.raw⟩

structure DustEventRow where
  txId : Int
  ledgerEventId : Int
  blockHeight : Int
  raw : Bytes
  deriving DecidableEq, Repr

/-- The dust ledger events that a further condition selects. -/
def dustEventsWhere (db : Database) (select : LedgerEventRow → Bool) (fromHeight toHeight : Int) : List DustEventRow :=
  (ledgerEventsInRange db (fun le => le.grouping = .dust ∧ select le) fromHeight toHeight).map
    fun (le, t, b) => ⟨t.id, le.id, b.height, le.raw⟩

def dustPublicKey (db : Database) (sessionId : Bytes) : Option Bytes :=
  (db.sessionProfile.find? (fun p => p.sessionId = sessionId ∧ p.dustPublicKey.isSome)).bind (·.dustPublicKey)

/-- Query dust ledger events for a session in a block range: those whose raw payload contains the session's dust key,
and every `DustSpendProcessed`. -/
def getDustEvents (db : Database) (sessionId : Bytes) (fromHeight toHeight : Int) : List DustEventRow :=
  match dustPublicKey db sessionId with
  | none => []
  | some key =>
    dustEventsWhere db (fun le => key <:+: le.raw ∨ le.variant = .dustSpendProcessed) fromHeight toHeight

/-- Get ALL dust ledger events for a block range (not filtered by wallet). -/
def getAllDustEvents (db : Database) (fromHeight toHeight : Int) : List DustEventRow :=
  dustEventsWhere db (fun _ => true) fromHeight toHeight

/-- Unshielded UTXO event data. -/
structure UnshieldedUtxoEventRow where
  utxoId : Int
  txId : Int
  txHash : Bytes
  blockHeight : Int
  isCreate : Bool
  address : Bytes
  intentHash : Bytes
  outputIndex : Int
  tokenType : Bytes
  valueBytes : Bytes
  initialNonce : Bytes
  registeredForDustGeneration : Bool
  ctime : Option Int
  paidFees : Option Bytes
  deriving DecidableEq, Repr

/-- The columns selected from a UTXO, its transaction and block, and the row of `regular_transactions`. -/
def toUnshieldedUtxoEventRow (isCreate : Bool)
    (row : (UnshieldedUtxoRow × TransactionRow × BlockRow) × Option RegularTransactionRow) : UnshieldedUtxoEventRow :=
  { utxoId := row.1.1.id, txId := row.1.2.1.id, txHash := row.1.2.1.hash, blockHeight := row.1.2.2.height,
    isCreate := isCreate, address := row.1.1.owner, intentHash := row.1.1.intentHash,
    outputIndex := row.1.1.outputIndex, tokenType := row.1.1.tokenType, valueBytes := row.1.1.value,
    initialNonce := row.1.1.initialNonce, registeredForDustGeneration := row.1.1.registeredForDustGeneration,
    ctime := row.1.1.ctime, paidFees := row.2.bind (·.paidFees) }

/-- The create rows and the spend rows: `txId` is the transaction column the UTXO is joined on. -/
def unshieldedUtxoRows (db : Database) (addresses : List Bytes) (isCreate : Bool)
    (txId : UnshieldedUtxoRow → Option Int) (fromHeight toHeight : Int) : List UnshieldedUtxoEventRow :=
  let utxos := db.unshieldedUtxos.filter (fun uu => uu.owner ∈ addresses)
  let rows := join (fun uu tb => txId uu = some tb.1.id) utxos (blockTransactions db fromHeight toHeight)
  let rows := leftJoin (fun row reg => reg.id = row.2.1.id) rows db.regularTransactions
  sortBy (fun row => toLex (row.blockHeight, toLex (row.txId, row.utxoId)))
    (rows.map (toUnshieldedUtxoEventRow isCreate))

def sessionAddresses (db : Database) (sessionId : Bytes) : List Bytes :=
  (db.sessionUnshieldedAddress.filter (fun a => a.sessionId = sessionId)).map (·.address)

/-- Query unshielded UTXO create/spend events for a session in a block range. A `bool` compares `false < true`. -/
def getUnshieldedUtxoEvents (db : Database) (sessionId : Bytes) (fromHeight toHeight : Int) :
    List UnshieldedUtxoEventRow :=
  let addresses := sessionAddresses db sessionId
  if addresses.isEmpty then []
  else
    let createRows := unshieldedUtxoRows db addresses true (fun uu => some uu.creatingTransactionId) fromHeight toHeight
    let spendRows := unshieldedUtxoRows db addresses false (·.spendingTransactionId) fromHeight toHeight
    sortBy (fun row => toLex (row.blockHeight, toLex (row.txId, toLex (row.utxoId, row.isCreate))))
      (createRows ++ spendRows)

/-! ## Rows by transaction id -/

structure ZswapEventRow where
  txId : Int
  ledgerEventId : Int
  raw : Bytes
  deriving DecidableEq, Repr

/-- Query zswap ledger events for a list of transaction IDs. -/
def getZswapEventsForTxs (db : Database) (txIds : List Int) : List ZswapEventRow :=
  if txIds.isEmpty then []
  else
    let rows := join (fun le t => le.transactionId = t.id) (db.ledgerEvents.filter (fun le => le.grouping = .zswap))
      (db.transactions.filter (fun t => t.id ∈ txIds))
    sortBy (fun row => toLex (row.txId, row.ledgerEventId)) (rows.map fun (le, t) => ⟨t.id, le.id, le.raw⟩)

/-- Query contract actions for a list of transaction IDs. -/
def getContractActionsForTxs (db : Database) (txIds : List Int) : List (Int × ContractActionSummary) :=
  if txIds.isEmpty then []
  else
    let rows := join (fun ca t => ca.transactionId = t.id) db.contractActions
      (db.transactions.filter (fun t => t.id ∈ txIds))
    (sortBy (fun row => toLex (row.2.id, row.1.id)) rows).map fun (ca, t) =>
      (t.id, ⟨hexEncode ca.address, ca.variant, ca.entryPoint⟩)

structure TransactionMetaRow where
  txId : Int
  txHash : Bytes
  blockHeight : Int
  protocolVersion : Int
  transactionResult : Option JsonText
  merkleTreeRoot : Option Bytes
  startIndex : Option Int
  endIndex : Option Int
  paidFees : Option Bytes
  estimatedFees : Option Bytes
  raw : Option Bytes
  identifiers : Option (List Bytes)
  deriving DecidableEq, Repr

/-- The columns selected from a transaction, its block and its row of `regular_transactions`; `rt.identifiers` is
selected only where the identifiers are stored inline. -/
def toTransactionMetaRow (includeRaw inlineIdentifiers : Bool)
    (row : (TransactionRow × BlockRow) × Option RegularTransactionRow) : TransactionMetaRow :=
  { txId := row.1.1.id, txHash := row.1.1.hash, blockHeight := row.1.2.height,
    protocolVersion := row.1.1.protocolVersion, transactionResult := row.2.bind (·.transactionResult),
    merkleTreeRoot := row.2.bind (·.merkleTreeRoot), startIndex := row.2.bind (·.startIndex),
    endIndex := row.2.bind (·.endIndex), paidFees := row.2.bind (·.paidFees),
    estimatedFees := row.2.bind (·.estimatedFees), raw := if includeRaw then some row.1.1.raw else none,
    identifiers := if inlineIdentifiers then row.2.bind (·.identifiers) else none }

/-- `if row.identifiers.is_none() { row.identifiers = identifiers_by_tx.remove(&row.tx_id) }`, row after row. -/
def fillIdentifiers (identifiersByTx : Int → Option (List Bytes)) : List TransactionMetaRow → List TransactionMetaRow
  | [] => []
  | row :: rows =>
    if row.identifiers.isNone then
      { row with identifiers := identifiersByTx row.txId } ::
        fillIdentifiers (fun txId => if txId = row.txId then none else identifiersByTx txId) rows
    else row :: fillIdentifiers identifiersByTx rows

/-- The map of `entry(tx_id).or_default().push(identifier)`: a transaction without rows has no entry. -/
def identifiersMap (idRows : List TransactionIdentifierRow) (txId : Int) : Option (List Bytes) :=
  match groupBy (idRows.map (fun row => (row.transactionId, row.identifier))) txId with
  | [] => none
  | identifiers => some identifiers

/-- Query transaction metadata for a list of tx_ids. -/
def getTransactionMetadata (db : Database) (txIds : List Int) (includeRaw includeIdentifiers : Bool)
    (identifiersSource : IdentifiersSource) : List TransactionMetaRow :=
  if txIds.isEmpty then []
  else
    let rows := join (fun t b => t.blockId = b.id) (db.transactions.filter (fun t => t.id ∈ txIds)) db.blocks
    let rows := leftJoin (fun tb rt => rt.id = tb.1.id) rows db.regularTransactions
    let results := rows.map (toTransactionMetaRow includeRaw (includeIdentifiers ∧ identifiersSource = .inline))
    if includeIdentifiers ∧ identifiersSource = .table then
      let idRows := (db.transactionIdentifiers.getD []).filter (fun row => row.transactionId ∈ txIds)
      fillIdentifiers (identifiersMap idRows) results
    else results

end NocyWalletFeed
