import NocyWalletFeed.Library.Ddl

/-!
# The schema (`schema.rs`, `migrations/`)

The sidecar creates its tables when it starts, with statements that can be repeated. The migrations create the same
tables, and are not run by the sidecar: a database may have been through any of them, up or down.

* `ensureSchema` : the statements of `ensure_schema`, up to the first that fails;
* `migrationsUp`, `migrationsDown` : the migrations;
* `SchemaTurn`, `schemaStep` : what happens to the schema, a statement at a time.
-/

namespace NocyWalletFeed
open Ddl

/-! ## Columns and constraints -/

def column (name : String) (type : SqlType) : Column := ⟨name, type, false, none⟩
def requiredColumn (name : String) (type : SqlType) : Column := ⟨name, type, true, none⟩
def defaultColumn (name : String) (type : SqlType) (default : Default) : Column := ⟨name, type, true, some default⟩

/-- The name of a constraint that is not given one, and that of a check within a column. -/
def primaryKeyOf (table : String) (columns : List String) : Constraint := ⟨table ++ "_pkey", .primaryKey columns⟩

def columnCheck (table : String) (check : Check) : Constraint :=
  ⟨table ++ "_" ++ check.column ++ "_check", .check check⟩

def foreignKeyOf (table column references referenced : String) : Constraint :=
  ⟨table ++ "_" ++ column ++ "_fkey", .foreignKey [column] references [referenced]⟩

def sessionProfile : String := "session_profile"
def sessionUnshieldedAddress : String := "session_unshielded_address"
def blockMaxRegularTx : String := "block_max_regular_tx"
def collapsedMerkleCache : String := "collapsed_merkle_cache"
def merkleCacheState : String := "merkle_cache_state"
def zswapInputNullifiers : String := "zswap_input_nullifiers"
def zswapNullifierCacheMarker : String := "zswap_nullifier_cache_marker"

def sessionIdLength : Check := .octetLength "session_id" 32

/-- `nullifier_streaming IN ('enabled', 'disabled')` -/
def nullifierStreamingCheck : Check := .textIn "nullifier_streaming" ["enabled", "disabled"]

def sessionIdColumn : Column := requiredColumn "session_id" .bytea
def dustPublicKeyColumn : Column := column "dust_public_key" .bytea
def updatedAtColumn : Column := defaultColumn "updated_at" .timestamptz .now
def upstreamSessionIdColumn : Column := column "upstream_session_id" .bytea
def nullifierStreamingColumn : Column :=
  defaultColumn "nullifier_streaming" (.varchar 16) (.literal (.text "enabled"))

/-! ## Tables and indexes -/

def profileConstraints : List Constraint :=
  [primaryKeyOf sessionProfile ["session_id"], columnCheck sessionProfile sessionIdLength]

def nullifierStreamingConstraint : Constraint :=
  ⟨"session_profile_nullifier_streaming_check", .check nullifierStreamingCheck⟩

def profileTable : TableDef where
  name := sessionProfile
  columns :=
    [sessionIdColumn, upstreamSessionIdColumn, dustPublicKeyColumn, nullifierStreamingColumn, updatedAtColumn]
  constraints := profileConstraints ++ [nullifierStreamingConstraint]

def unshieldedAddressTable : TableDef where
  name := sessionUnshieldedAddress
  columns := [requiredColumn "session_id" .bytea, requiredColumn "address" .bytea]
  constraints :=
    [columnCheck sessionUnshieldedAddress sessionIdLength,
      primaryKeyOf sessionUnshieldedAddress ["session_id", "address"],
      foreignKeyOf sessionUnshieldedAddress "session_id" sessionProfile "session_id"]

def blockMaxRegularTxTable : TableDef where
  name := blockMaxRegularTx
  columns := [requiredColumn "block_height" .bigint, column "max_regular_tx_id" .bigint]
  constraints := [primaryKeyOf blockMaxRegularTx ["block_height"]]

def collapsedMerkleCacheTable : TableDef where
  name := collapsedMerkleCache
  columns :=
    [requiredColumn "start_index" .bigint, requiredColumn "end_index" .bigint, requiredColumn "update_bytes" .bytea,
      requiredColumn "protocol_version" .int, defaultColumn "created_at" .timestamptz .now]
  constraints := [primaryKeyOf collapsedMerkleCache ["start_index", "end_index"]]

def merkleCacheStateTable : TableDef where
  name := merkleCacheState
  columns :=
    [defaultColumn "id" .int (.literal (.int 1)), defaultColumn "highest_end_index" .bigint (.literal (.int 0)),
      column "session_id" .text, column "viewing_key" .text, defaultColumn "last_updated_at" .timestamptz .now]
  constraints := [primaryKeyOf merkleCacheState ["id"], columnCheck merkleCacheState (.intEq "id" 1)]

def zswapInputNullifiersTable : TableDef where
  name := zswapInputNullifiers
  columns :=
    [requiredColumn "ledger_event_id" .bigint, requiredColumn "transaction_id" .bigint,
      requiredColumn "block_height" .bigint, requiredColumn "tx_hash" .bytea, requiredColumn "nullifier" .bytea,
      column "contract_address" .bytea]
  constraints := [primaryKeyOf zswapInputNullifiers ["ledger_event_id", "nullifier"]]

def zswapNullifierCacheMarkerTable : TableDef where
  name := zswapNullifierCacheMarker
  columns :=
    [requiredColumn "ledger_event_id" .bigint, requiredColumn "nullifier_count" .int,
      defaultColumn "cached_at" .timestamptz .now]
  constraints := [primaryKeyOf zswapNullifierCacheMarker ["ledger_event_id"]]

def index (name table column : String) : Index := ⟨name, table, [column], none⟩

def updatedAtIndex : Index := index "idx_session_profile_updated_at" sessionProfile "updated_at"

def upstreamSessionIdIndex : Index :=
  ⟨"idx_session_profile_upstream_session_id", sessionProfile, ["upstream_session_id"], some "upstream_session_id"⟩

def unshieldedAddressIndex : Index :=
  index "idx_session_unshielded_address_session_id" sessionUnshieldedAddress "session_id"

def collapsedMerkleCacheIndex : Index :=
  index "idx_collapsed_merkle_cache_end_index" collapsedMerkleCache "end_index"

def nullifierIndexes : List Index :=
  [index "idx_zswap_input_nullifiers_block_height" zswapInputNullifiers "block_height",
    index "idx_zswap_input_nullifiers_tx_hash" zswapInputNullifiers "tx_hash",
    index "idx_zswap_input_nullifiers_transaction_id" zswapInputNullifiers "transaction_id"]

def nullifierCacheMarkerIndex : Index :=
  index "idx_nullifier_cache_marker_event" zswapNullifierCacheMarker "ledger_event_id"

def stateValues : Row := [("id", .int 1), ("highest_end_index", .int 0)]

/-! ## `ensure_schema` -/

/-- A step of `ensure_schema`: a statement, or a constraint added if it is missing. -/
inductive EnsureStep where
  | run (stmt : Statement)
  | addIfMissing (table name : String) (check : Check)
  deriving DecidableEq, Repr

def ensureSteps : List EnsureStep :=
  [.run .createSchema,
    .run (.createTable true profileTable),
    -- For older deployments: add missing upstream mapping column (no-op if already present).
    .run (.addColumn true sessionProfile upstreamSessionIdColumn []),
    -- For older deployments: add missing column (no-op if already present).
    .run (.addColumn true sessionProfile nullifierStreamingColumn []),
    -- Add the CHECK constraint if missing (Postgres has no `ADD CONSTRAINT IF NOT EXISTS`).
    .addIfMissing sessionProfile "session_profile_nullifier_streaming_check" nullifierStreamingCheck,
    .run (.createIndex true updatedAtIndex),
    .run (.createIndex true upstreamSessionIdIndex),
    .run (.createTable true unshieldedAddressTable),
    .run (.createIndex true unshieldedAddressIndex),
    .run (.createTable true blockMaxRegularTxTable),
    .run (.createTable true collapsedMerkleCacheTable),
    .run (.createIndex true collapsedMerkleCacheIndex),
    .run (.createTable true merkleCacheStateTable),
    .run (.insert true merkleCacheState stateValues)]

/-- The `SELECT EXISTS` on `pg_constraint`; an error where there is no such table. -/
def constraintExists (c : Catalog) (table name : String) : Option Bool := (c.table? table).map (·.hasConstraint name)

def addConstraintIfMissing (table name : String) (check : Check) (c : Catalog) : Option Catalog :=
  match constraintExists c table name with
  | none => none
  | some true => some c
  | some false => c.addConstraint table name check

def EnsureStep.exec (now : Int) (c : Catalog) : EnsureStep → Option Catalog
  | .run stmt => Ddl.exec now stmt c
  | .addIfMissing table name check => addConstraintIfMissing table name check c

/-- Some steps, each on its own: those before one that fails stay done. -/
def runEnsure (now : Int) : List EnsureStep → Catalog → Catalog × Bool
  | [], c => (c, true)
  | step :: steps, c =>
    match step.exec now c with
    | some c' => runEnsure now steps c'
    | none => (c, false)

/-- The schema after `ensure_schema`, and whether it has succeeded. -/
def ensureSchema (now : Int) (c : Catalog) : Catalog × Bool := runEnsure now ensureSteps c

/-! ## Migrations -/

def migrationsUp : List (List Statement) :=
  [[.createSchema,
      .createTable false
        ⟨sessionProfile, [sessionIdColumn, dustPublicKeyColumn, updatedAtColumn], profileConstraints⟩,
      .createIndex false updatedAtIndex, .comment sessionProfile none],
    [.createTable false unshieldedAddressTable, .createIndex false unshieldedAddressIndex],
    .createTable false zswapInputNullifiersTable :: nullifierIndexes.map (.createIndex false),
    [.createTable false blockMaxRegularTxTable],
    [.createTable true zswapNullifierCacheMarkerTable, .createIndex true nullifierCacheMarkerIndex],
    [.addColumn true sessionProfile nullifierStreamingColumn [columnCheck sessionProfile nullifierStreamingCheck],
      .comment sessionProfile (some "nullifier_streaming")],
    [.dropTable zswapInputNullifiers, .dropTable zswapNullifierCacheMarker],
    [.createTable false collapsedMerkleCacheTable, .createIndex false collapsedMerkleCacheIndex,
      .createTable false merkleCacheStateTable, .insert false merkleCacheState stateValues,
      .comment collapsedMerkleCache none, .comment merkleCacheState none],
    [.addColumn false sessionProfile upstreamSessionIdColumn [], .createIndex false upstreamSessionIdIndex,
      .comment sessionProfile (some "upstream_session_id")]]

def migrationsDown : List (List Statement) :=
  [[.dropTable sessionProfile, .dropSchema],
    [.dropTable sessionUnshieldedAddress],
    [.dropTable zswapInputNullifiers],
    [.dropTable blockMaxRegularTx],
    [.dropTable zswapNullifierCacheMarker],
    [.dropColumn sessionProfile "nullifier_streaming"],
    .createTable true zswapInputNullifiersTable :: nullifierIndexes.map (.createIndex true) ++
      [.createTable true zswapNullifierCacheMarkerTable, .createIndex true nullifierCacheMarkerIndex],
    [.dropTable merkleCacheState, .dropTable collapsedMerkleCache],
    [.dropIndex "idx_session_profile_upstream_session_id", .dropColumn sessionProfile "upstream_session_id"]]

def migrationStatements : List Statement := (migrationsUp ++ migrationsDown).flatten

/-! ## What happens to the schema -/

/-- The rows the program writes: to `session_profile`, with one of the two values of the preference. -/
def WritesRow (row : Row) : Prop := nullifierStreamingCheck.passes row = true

instance (row : Row) : Decidable (WritesRow row) := inferInstanceAs (Decidable (_ = true))

/-- A statement of a migration, a step of `ensure_schema`, whether in its turn or not, or rows written to a table. -/
inductive SchemaTurn where
  | migrate (now : Int) (stmt : Statement)
  | ensure (now : Int) (step : EnsureStep)
  | write (table : String) (rows : List Row)

/-- A turn; a statement that fails changes nothing. -/
def schemaStep (c : Catalog) : SchemaTurn → Catalog
  | .migrate now stmt => if stmt ∈ migrationStatements then (Ddl.exec now stmt c).getD c else c
  | .ensure now step => if step ∈ ensureSteps then (step.exec now c).getD c else c
  | .write table rows => if ∀ row ∈ rows, WritesRow row then c.modify table (fun t => { t with rows := rows }) else c

/-- The schema of a database that was empty, after some turns. -/
def schemaAfter (turns : List SchemaTurn) : Catalog := turns.foldl schemaStep .empty

end NocyWalletFeed
