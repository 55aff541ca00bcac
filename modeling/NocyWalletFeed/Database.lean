import NocyWalletFeed.Feed
import NocyWalletFeed.Library.Relational
import NocyWalletFeed.Library.OrderBy

/-!
# The database

The rows of the tables the feed reads: the upstream schema (`blocks` to `relevantTransactions`) and the sidecar's own
(`sessionProfile`, `sessionUnshieldedAddress`), with the columns its queries select. A `BIGINT` column is an `Int` and a
`BYTEA` column a list of bytes.

A `Database` carries the keys of its tables: primary keys, the uniqueness of block heights and of wallet sessions, and
the `i64` range of every column that becomes part of a sequence key.
-/

namespace NocyWalletFeed
open Codec

/-! ## Rows -/

structure BlockRow where
  id : Int
  height : Int
  hash : Bytes
  parentHash : Bytes
  timestamp : Int
  deriving DecidableEq, Repr

structure TransactionRow where
  id : Int
  blockId : Int
  hash : Bytes
  protocolVersion : Int
  raw : Bytes
  deriving DecidableEq, Repr

/-- `id` is the primary key and references `transactions.id`. -/
structure RegularTransactionRow where
  id : Int
  transactionResult : Option JsonText
  merkleTreeRoot : Option Bytes
  startIndex : Option Int
  endIndex : Option Int
  paidFees : Option Bytes
  estimatedFees : Option Bytes
  identifiers : Option (List Bytes)
  deriving DecidableEq, Repr

structure TransactionIdentifierRow where
  transactionId : Int
  identifier : Bytes
  deriving DecidableEq, Repr

inductive LedgerEventGrouping where
  | zswap
  | dust
  deriving DecidableEq, Repr

/-- The `variant` enum: the two variants the queries name, and any other. -/
inductive LedgerEventVariant where
  | zswapInput
  | dustSpendProcessed
  | other (name : String)
  deriving DecidableEq, Repr

structure LedgerEventRow where
  id : Int
  transactionId : Int
  grouping : LedgerEventGrouping
  variant : LedgerEventVariant
  raw : Bytes
  deriving DecidableEq, Repr

/-- `entryPoint` is the column expression `attributes->'Call'->>'entry_point'`. -/
structure ContractActionRow where
  id : Int
  transactionId : Int
  address : Bytes
  variant : String
  entryPoint : Option String
  deriving DecidableEq, Repr

structure UnshieldedUtxoRow where
  id : Int
  creatingTransactionId : Int
  spendingTransactionId : Option Int
  owner : Bytes
  intentHash : Bytes
  outputIndex : Int
  tokenType : Bytes
  value : Bytes
  initialNonce : Bytes
  registeredForDustGeneration : Bool
  ctime : Option Int
  deriving DecidableEq, Repr

structure WalletRow where
  id : Int
  sessionId : Bytes
  lastIndexedTransactionId : Option Int
  deriving DecidableEq, Repr

structure RelevantTransactionRow where
  walletId : Int
  transactionId : Int
  deriving DecidableEq, Repr

structure SessionProfileRow where
  sessionId : Bytes
  upstreamSessionId : Option Bytes
  dustPublicKey : Option Bytes
  nullifierStreaming : String
  deriving DecidableEq, Repr

structure SessionUnshieldedAddressRow where
  sessionId : Bytes
  address : Bytes
  deriving DecidableEq, Repr

/-! ## Tables and their keys -/

/-- `hasIdentifiersColumn` tells whether `regular_transactions.identifiers` exists and `transactionIdentifiers` is
`none` where that table does not. -/
structure Tables where
  blocks : List BlockRow := []
  transactions : List TransactionRow := []
  regularTransactions : List RegularTransactionRow := []
  hasIdentifiersColumn : Bool := true
  transactionIdentifiers : Option (List TransactionIdentifierRow) := none
  ledgerEvents : List LedgerEventRow := []
  contractActions : List ContractActionRow := []
  unshieldedUtxos : List UnshieldedUtxoRow := []
  wallets : List WalletRow := []
  relevantTransactions : List RelevantTransactionRow := []
  sessionProfile : List SessionProfileRow := []
  sessionUnshieldedAddress : List SessionUnshieldedAddressRow := []
  deriving DecidableEq, Repr

/-- The keys of the tables and the ranges of the columns that go into sequence keys. -/
structure Constraints (t : Tables) : Prop where
  blockIds : (t.blocks.map (·.id)).Nodup
  blockHeights : (t.blocks.map (·.height)).Nodup
  transactionIds : (t.transactions.map (·.id)).Nodup
  regularTransactionIds : (t.regularTransactions.map (·.id)).Nodup
  ledgerEventIds : (t.ledgerEvents.map (·.id)).Nodup
  contractActionIds : (t.contractActions.map (·.id)).Nodup
  unshieldedUtxoIds : (t.unshieldedUtxos.map (·.id)).Nodup
  walletIds : (t.wallets.map (·.id)).Nodup
  walletSessions : (t.wallets.map (·.sessionId)).Nodup
  profileSessions : (t.sessionProfile.map (·.sessionId)).Nodup
  addresses : t.sessionUnshieldedAddress.Nodup
  blockHeightWide : ∀ b ∈ t.blocks, InI64 b.height
  transactionIdWide : ∀ tx ∈ t.transactions, InI64 tx.id
  ledgerEventIdWide : ∀ e ∈ t.ledgerEvents, InI64 e.id
  unshieldedUtxoIdWide : ∀ u ∈ t.unshieldedUtxos, InI64 u.id

instance (t : Tables) : Decidable (Constraints t) :=
  decidable_of_iff ((t.blocks.map (·.id)).Nodup ∧ (t.blocks.map (·.height)).Nodup ∧ (t.transactions.map (·.id)).Nodup ∧
      (t.regularTransactions.map (·.id)).Nodup ∧ (t.ledgerEvents.map (·.id)).Nodup ∧
      (t.contractActions.map (·.id)).Nodup ∧ (t.unshieldedUtxos.map (·.id)).Nodup ∧ (t.wallets.map (·.id)).Nodup ∧
      (t.wallets.map (·.sessionId)).Nodup ∧ (t.sessionProfile.map (·.sessionId)).Nodup ∧
      t.sessionUnshieldedAddress.Nodup ∧ (∀ b ∈ t.blocks, InI64 b.height) ∧ (∀ tx ∈ t.transactions, InI64 tx.id) ∧
      (∀ e ∈ t.ledgerEvents, InI64 e.id) ∧ ∀ u ∈ t.unshieldedUtxos, InI64 u.id)
    ⟨fun ⟨a, b, c, d, e, f, g, h, i, j, k, l, m, n, o⟩ => ⟨a, b, c, d, e, f, g, h, i, j, k, l, m, n, o⟩,
      fun ⟨a, b, c, d, e, f, g, h, i, j, k, l, m, n, o⟩ => ⟨a, b, c, d, e, f, g, h, i, j, k, l, m, n, o⟩⟩

/-- A state of the database. -/
structure Database extends Tables where
  constraints : Constraints toTables

namespace Database

theorem block_eq_of_id_eq (db : Database) {a b : BlockRow} (ha : a ∈ db.blocks) (hb : b ∈ db.blocks)
    (h : a.id = b.id) : a = b := Relational.eq_of_key_eq db.constraints.blockIds ha hb h

theorem transaction_eq_of_id_eq (db : Database) {a b : TransactionRow} (ha : a ∈ db.transactions)
    (hb : b ∈ db.transactions) (h : a.id = b.id) : a = b :=
  Relational.eq_of_key_eq db.constraints.transactionIds ha hb h

end Database

end NocyWalletFeed
