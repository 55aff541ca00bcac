import NocyWalletFeed.Db
import NocyWalletFeed.Routes.Session

/-!
# Assembling the items of a block

`get_feed` (`routes/feed.rs`) and `build_block_bundles_tx` (`routes/subscribe.rs`) run the same queries over a window
of heights and turn their rows into the items of each block with the same code, written out twice. It is modelled once:

* `fetchWindow` : the rows of a window;
* `shieldedItem`, `transactionMetaItems`, `zswapInputItems`, `dustItems`, `unshieldedItems` : the items of one block;
* `assembleItems` : the items of one block in sequence order, around the shielded items the caller supplies;
* `retainAfter` : the cursor filter;
* `validateBlocks` : the gap and parent-hash check over a batch of blocks.
-/

namespace NocyWalletFeed
open Codec Relational OrderBy

def PHASE_TX : Int := 0
def PHASE_LEDGER_EVENT : Int := 1
def PHASE_UNSHIELDED : Int := 2
def PHASE_CONTROL : Int := -1

/-! ## Amounts -/

/-- `u128::from_be_bytes` of at most the first 16 bytes, padded on the left with zeros. -/
def decodeU128Value (bytes : Bytes) : Nat := (bytes.take 16).foldl (fun value b => value * 256 + b.toNat) 0

def decodeFeeString : Option Bytes → String
  | some (b :: raw) => toString (decodeU128Value (b :: raw))
  | _ => "0"

def decodeFeeOption : Option Bytes → Option String
  | some (b :: raw) => some (toString (decodeU128Value (b :: raw)))
  | some [] => some "0"
  | none => none

/-! ## The rows of a window -/

/-- The session and the flags an assembly depends on, resolved from a request. -/
structure AssemblyArgs where
  localSessionId : Bytes
  upstreamSessionId : Bytes
  nullifierMode : NullifierStreaming
  includeTxMeta : Bool
  includeRawTx : Bool
  includeIdentifiers : Bool
  includeAllDust : Bool
  identifiersSource : IdentifiersSource
  deriving DecidableEq, Repr

/-- The rows fetched for a window of heights; the maps are total, with `[]` for a missing entry. -/
structure WindowRows where
  relevantTxs : List RelevantTxRow
  zswapByTx : Int → List String
  dustEvents : List DustEventRow
  unshieldedEvents : List UnshieldedUtxoEventRow
  actionsByTx : Int → List ContractActionSummary
  txMetaRows : List TransactionMetaRow
  globalZswapInputs : List ZswapInputEventRow

/-- The dust events of a window: all of them, or those of the session. -/
def fetchDustEvents (db : Database) (args : AssemblyArgs) (fromHeight toHeight : Int) : List DustEventRow :=
  if args.includeAllDust then getAllDustEvents db fromHeight toHeight
  else getDustEvents db args.localSessionId fromHeight toHeight

/-- The transactions that metadata and contract actions are fetched for. -/
def walletTxIds (relevantTxs : List RelevantTxRow) (unshieldedEvents : List UnshieldedUtxoEventRow)
    (dustEvents : List DustEventRow) : List Int :=
  relevantTxs.map (·.txId) ++ unshieldedEvents.map (·.txId) ++ dustEvents.map (·.txId)

/-- Fetch the rows of the window `[fromHeight, toHeight]`. -/
def fetchWindow (db : Database) (args : AssemblyArgs) (fromHeight toHeight : Int) : WindowRows :=
  let relevantTxs := getRelevantTransactions db args.upstreamSessionId fromHeight toHeight
  let zswapEvents := getZswapEventsForTxs db (relevantTxs.map (·.txId))
  let dustEvents := fetchDustEvents db args fromHeight toHeight
  let unshieldedEvents := getUnshieldedUtxoEvents db args.localSessionId fromHeight toHeight
  let txIds := walletTxIds relevantTxs unshieldedEvents dustEvents
  { relevantTxs := relevantTxs
    zswapByTx := groupBy (zswapEvents.map (fun event => (event.txId, hexEncode event.raw)))
    dustEvents := dustEvents
    unshieldedEvents := unshieldedEvents
    actionsByTx := groupBy (getContractActionsForTxs db txIds)
    txMetaRows :=
      if args.includeTxMeta then
        getTransactionMetadata db txIds args.includeRawTx args.includeIdentifiers args.identifiersSource
      else []
    globalZswapInputs :=
      match args.nullifierMode with
      | .disabled => []
      | .enabled => getAllZswapInputEventsInRange db fromHeight toHeight }

/-! ## The items of a block -/

namespace WindowRows
variable (w : WindowRows) (height : Int)

/-- Transaction metadata for the wallet-relevant transactions of a block. -/
def transactionMetaItems : List SortableFeedItem :=
  (w.txMetaRows.filter (fun row => row.blockHeight = height)).map fun row =>
    { sequence := ⟨height, row.txId, PHASE_TX, 0⟩
      item := .transactionMeta
        { txId := row.txId
          txHash := hexEncode row.txHash
          blockHeight := height
          protocolVersion := row.protocolVersion
          transactionResult := row.transactionResult
          identifiers := row.identifiers.map (·.map hexEncode)
          fees := ⟨decodeFeeOption row.paidFees, decodeFeeOption row.estimatedFees⟩
          merkle := ⟨row.merkleTreeRoot.map hexEncode, row.startIndex, row.endIndex⟩
          contractActions := w.actionsByTx row.txId
          raw := row.raw.map hexEncode } }

def shieldedItem (row : RelevantTxRow) : SortableFeedItem :=
  { sequence := ⟨height, row.txId, PHASE_TX, 1⟩
    item := .shieldedRelevantTx
      { txId := row.txId
        txHash := hexEncode row.txHash
        blockHeight := height
        zswapEvents := w.zswapByTx row.txId
        contractActions := w.actionsByTx row.txId
        feesPaid := decodeFeeString row.paidFees } }

def relevantAt : List RelevantTxRow := w.relevantTxs.filter (fun row => row.blockHeight = height)

/-- The zswap inputs of a block, those of every wallet. -/
def zswapInputItems : List SortableFeedItem :=
  (w.globalZswapInputs.filter (fun event => event.blockHeight = height)).map fun event =>
    { sequence := ⟨height, event.txId, PHASE_LEDGER_EVENT, event.ledgerEventId⟩
      item := .zswapInputRaw
        ⟨event.txId, hexEncode event.txHash, event.ledgerEventId, height, hexEncode event.raw⟩ }

def dustItems : List SortableFeedItem :=
  (w.dustEvents.filter (fun event => event.blockHeight = height)).map fun event =>
    { sequence := ⟨height, event.txId, PHASE_LEDGER_EVENT, event.ledgerEventId⟩
      item := .dustLedgerEvent ⟨event.txId, event.ledgerEventId, height, hexEncode event.raw⟩ }

/-- The unshielded UTXO events of a block. -/
def unshieldedItems : List SortableFeedItem :=
  (w.unshieldedEvents.filter (fun event => event.blockHeight = height)).map fun event =>
    { sequence := ⟨height, event.txId, PHASE_UNSHIELDED, event.utxoId⟩
      item := .unshieldedUtxo
        { txId := event.txId
          txHash := hexEncode event.txHash
          blockHeight := height
          isCreate := event.isCreate
          address := hexEncode event.address
          intentHash := hexEncode event.intentHash
          outputIndex := event.outputIndex
          tokenType := hexEncode event.tokenType
          value := toString (decodeU128Value event.valueBytes)
          initialNonce := hexEncode event.initialNonce
          registeredForDustGeneration := event.registeredForDustGeneration
          ctime := event.ctime
          feesPaid := decodeFeeString event.paidFees
          contractActions := w.actionsByTx event.txId } }

/-- The items of a block in sequence order: `shielded` stands where the caller pushes the relevant transactions. -/
def assembleItems (shielded : List SortableFeedItem) : List SortableFeedItem :=
  sortBy (·.sequence) (w.transactionMetaItems height ++ shielded ++ w.zswapInputItems height ++ w.dustItems height ++
    w.unshieldedItems height)

end WindowRows

/-- The cursor filter: `parse_cursor(&item.sequence).map(|sequence| sequence > cursor).unwrap_or(true)`. -/
def retainAfter (cursor : SequenceKey) (items : List OrderedFeedItem) : List OrderedFeedItem :=
  items.filter fun item =>
    match parseCursor item.sequence with
    | .ok sequence => sequence > cursor
    | .error _ => true

def startHeight (fromCursor : Option SequenceKey) (fromHeight : Option Int) : Int :=
  max ((fromCursor.map (·.blockHeight)).getD (fromHeight.getD 0)) 0

/-! ## Validation -/

/-- Check a batch for height gaps and parent hash mismatches, block after block; the reset event of the first defect. -/
def validateBlocks (expectedHeight : Int) (prevHash : Option String) : List BlockMeta → Option ControlEvent
  | [] => none
  | block :: blocks =>
    if block.height ≠ expectedHeight then
      some (.resetRequiredAt (max (expectedHeight - 1) 0)
        ("Block gap detected: expected height " ++ toString expectedHeight ++ ", got " ++ toString block.height))
    else if prevHash.any (fun expectedParent => block.parentHash ≠ expectedParent) then
      some (.resetRequiredAt (max (block.height - 1) 0)
        ("Reorg detected at height " ++ toString block.height ++ ": parent hash mismatch"))
    else validateBlocks (expectedHeight + 1) (some block.hash) blocks

end NocyWalletFeed
