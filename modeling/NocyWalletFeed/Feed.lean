import NocyWalletFeed.Sequence

/-!
# Feed items and responses (`feed.rs`)

The payload of every item kind, the block bundle and the polling response. Heights, ids and indices are the `i64`
fields of the program; `Wire` prints them as decimal strings. A JSONB value is passed through unread, so it is its text.
-/

namespace NocyWalletFeed

/-- A JSONB value, passed through as its text. -/
abbrev JsonText := String

def API_VERSION : String := "v1"

/-- Watermarks indicating chain and wallet sync state. -/
structure Watermarks where
  chainHead : Int
  walletReadyHeight : Option Int
  finalizedHeight : Option Int
  deriving DecidableEq, Repr

/-- Block metadata included in feed responses; the hashes are hex encoded. -/
structure BlockMeta where
  height : Int
  hash : String
  parentHash : String
  timestamp : Int
  deriving DecidableEq, Repr

structure TransactionFees where
  paid : Option String
  estimated : Option String
  deriving DecidableEq, Repr

structure TransactionMerkle where
  root : Option String
  startIndex : Option Int
  endIndex : Option Int
  deriving DecidableEq, Repr

structure ContractActionSummary where
  contractAddress : String
  actionType : String
  entryPoint : Option String
  deriving DecidableEq, Repr

/-- Transaction metadata, emitted once per transaction. -/
structure TransactionMeta where
  txId : Int
  txHash : String
  blockHeight : Int
  protocolVersion : Int
  transactionResult : Option JsonText
  identifiers : Option (List String)
  fees : TransactionFees
  merkle : TransactionMerkle
  contractActions : List ContractActionSummary
  raw : Option String
  deriving DecidableEq, Repr

structure ShieldedRelevantTx where
  txId : Int
  txHash : String
  blockHeight : Int
  zswapEvents : List String
  contractActions : List ContractActionSummary
  feesPaid : String
  deriving DecidableEq, Repr

/-- Raw `ZswapInput` ledger event for global spend detection. -/
structure ZswapInputRaw where
  txId : Int
  txHash : String
  ledgerEventId : Int
  blockHeight : Int
  raw : String
  deriving DecidableEq, Repr

structure DustLedgerEventRaw where
  txId : Int
  ledgerEventId : Int
  blockHeight : Int
  raw : String
  deriving DecidableEq, Repr

structure UnshieldedDelta where
  txId : Int
  blockHeight : Int
  address : String
  delta : String
  deriving DecidableEq, Repr

/-- Unshielded UTXO event for a registered address (create or spend). -/
structure UnshieldedUtxoEvent where
  txId : Int
  txHash : String
  blockHeight : Int
  isCreate : Bool
  address : String
  intentHash : String
  outputIndex : Int
  tokenType : String
  value : String
  initialNonce : String
  registeredForDustGeneration : Bool
  ctime : Option Int
  feesPaid : String
  contractActions : List ContractActionSummary
  deriving DecidableEq, Repr

/-- Collapsed merkle tree update, `startIndex` and `endIndex` both inclusive. -/
structure MerkleCollapsedUpdate where
  startIndex : Int
  endIndex : Int
  update : String
  protocolVersion : Nat
  deriving DecidableEq, Repr

inductive ControlEvent where
  | resetRequired (safeRestartHeight : String) (reason : String)
  deriving DecidableEq, Repr

def ControlEvent.resetRequiredAt (safeRestartHeight : Int) (reason : String) : ControlEvent :=
  .resetRequired (toString safeRestartHeight) reason

inductive FeedItem where
  | transactionMeta (data : TransactionMeta)
  | merkleCollapsedUpdate (data : MerkleCollapsedUpdate)
  | shieldedRelevantTx (data : ShieldedRelevantTx)
  | zswapInputRaw (data : ZswapInputRaw)
  | dustLedgerEvent (data : DustLedgerEventRaw)
  | unshieldedDelta (data : UnshieldedDelta)
  | unshieldedUtxo (data : UnshieldedUtxoEvent)
  | control (event : ControlEvent)
  deriving DecidableEq, Repr

structure SortableFeedItem where
  sequence : SequenceKey
  item : FeedItem
  deriving DecidableEq, Repr

structure OrderedFeedItem where
  sequence : String
  item : FeedItem
  deriving DecidableEq, Repr

def SortableFeedItem.toOrdered (s : SortableFeedItem) : OrderedFeedItem := ⟨s.sequence.toCursor, s.item⟩

/-- A block bundle containing all feed items for a single block. -/
structure BlockBundle where
  blockMeta : BlockMeta
  items : List OrderedFeedItem
  deriving DecidableEq, Repr

/-- Response for `GET /v1/feed`. -/
structure FeedResponse where
  apiVersion : String
  watermarks : Watermarks
  blocks : List BlockBundle
  nextHeight : Option Int
  nextCursor : Option String
  deriving DecidableEq, Repr

/-- A response with the given watermarks, no blocks and nothing to continue from. -/
def FeedResponse.new (watermarks : Watermarks) : FeedResponse := ⟨API_VERSION, watermarks, [], none, none⟩

def FeedResponse.empty (watermarks : Watermarks) : FeedResponse := FeedResponse.new watermarks

/-- Application errors, by HTTP status (`error.rs`). -/
inductive AppError where
  | badRequest (message : String)
  | notFound (message : String)
  | upstreamError (message : String)
  | internalError (message : String)
  | serviceUnavailable (message : String)
  deriving DecidableEq, Repr

end NocyWalletFeed
