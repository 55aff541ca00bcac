import NocyWalletFeed.Db
import NocyWalletFeed.Snapshot

/-!
# `GET /v1/zswap/first-free` and `GET /v1/zswap/collapsed-update` (`routes/zswap.rs`)

Both answer from the cached snapshot; `getFirstFree` falls back to the database. A `LatestState` is what a call meets.
-/

namespace NocyWalletFeed
open Codec OrderBy Relational

/-- The database, or why a query fails, the snapshot client, and the time. -/
structure LatestState where
  db : Except String Database
  snapshotClient : SnapshotClient
  now : Nat

/-! ## The first free index -/

/-- Response for `GET /v1/zswap/first-free`; `source` is `snapshot` or `db`. -/
structure FirstFreeResponse where
  firstFreeIndex : String
  blockHeight : Int
  source : String
  deriving DecidableEq, Repr

def asU64 (value : Int) : Nat := (value % 2 ^ 64).toNat

/-- `regular_transactions rt JOIN transactions t ON rt.id = t.id JOIN blocks b ON t.block_id = b.id` -/
def placedTransactions (db : Database) : List ((RegularTransactionRow × TransactionRow) × BlockRow) :=
  join (fun rt b => rt.2.blockId = b.id) (join (fun rt t => rt.id = t.id) db.regularTransactions db.transactions)
    db.blocks

/-- The end index and the height of the latest regular transaction: `ORDER BY t.id DESC LIMIT 1`. -/
def latestEndIndex (db : Database) : Option (Option Int × Int) :=
  (sortBy (fun row => -row.1.2.id) (placedTransactions db)).head?.map fun row => (row.1.1.endIndex, row.2.height)

/-- How a column that is `NULL` fails to be read. -/
def unexpectedNull : String :=
  "error occurred while decoding column 0: unexpected null; try decoding as an `Option`"

def firstFreeFailed (e : String) : AppError := .internalError ("Failed to query first-free from DB: " ++ e)

def getFirstFreeFromDb : Except String Database → Except AppError (Nat × Int)
  | .error e => .error (firstFreeFailed e)
  | .ok db =>
    match latestEndIndex db with
    | some (some endIndex, height) => .ok (asU64 endIndex, height)
    | some (none, _) => .error (firstFreeFailed unexpectedNull)
    | none => .ok (0, 0)

/-- `GET /v1/zswap/first-free` -/
def getFirstFree (state : LatestState) : Except AppError FirstFreeResponse :=
  match state.snapshotClient.getCachedSnapshot state.now with
  | some snapshot => .ok ⟨toString snapshot.firstFreeIndex, snapshot.blockHeight, "snapshot"⟩
  | none => (getFirstFreeFromDb state.db).map fun row => ⟨toString row.1, row.2, "db"⟩

/-! ## The collapsed update -/

/-- Query parameters for `GET /v1/zswap/collapsed-update`. -/
structure CollapsedUpdateQuery where
  fromHeight : Int
  toHeight : Int
  protocolVersion : Nat
  deriving DecidableEq, Repr

/-- Response for `GET /v1/zswap/collapsed-update`. -/
structure CollapsedUpdateResponse where
  blockHeight : Int
  protocolVersion : Nat
  merkleRoot : String
  firstFreeIndex : String
  commitmentCount : String
  timestampMs : Int
  deriving DecidableEq, Repr

def LedgerStateSnapshot.toResponse (s : LedgerStateSnapshot) : CollapsedUpdateResponse :=
  ⟨s.blockHeight, s.protocolVersion, s.merkleRoot, toString s.firstFreeIndex, toString s.commitmentCount, s.timestampMs⟩

def headMismatch (toHeight blockHeight : Int) : String :=
  "toHeight (" ++ toString toHeight ++ ") must equal current chain head (" ++ toString blockHeight ++
    "); collapsed updates only available for latest state"

def versionMismatch (requested actual : Nat) : String :=
  "Protocol version mismatch: requested " ++ toString requested ++ " but chain is at " ++ toString actual

/-- `GET /v1/zswap/collapsed-update` -/
def getCollapsedUpdate (state : LatestState) (query : CollapsedUpdateQuery) :
    Except AppError CollapsedUpdateResponse :=
  if query.fromHeight ≥ query.toHeight then .error (.badRequest "fromHeight must be less than toHeight")
  else if query.fromHeight < 0 then .error (.badRequest "fromHeight must be non-negative")
  else
    match state.snapshotClient.getCachedSnapshot state.now with
    | none => .error (.serviceUnavailable "Ledger state snapshot not available")
    | some snapshot =>
      if query.toHeight ≠ snapshot.blockHeight then
        .error (.badRequest (headMismatch query.toHeight snapshot.blockHeight))
      else if query.protocolVersion ≠ snapshot.protocolVersion then
        .error (.badRequest (versionMismatch query.protocolVersion snapshot.protocolVersion))
      else .ok snapshot.toResponse

end NocyWalletFeed
