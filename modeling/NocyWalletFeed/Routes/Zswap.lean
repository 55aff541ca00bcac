import NocyWalletFeed.GraphqlWs
import NocyWalletFeed.MerkleCache
import NocyWalletFeed.Db
import NocyWalletFeed.Routes.Session

/-!
# `GET /v1/zswap/merkle-update` (`routes/zswap.rs`)

`getMerkleUpdate` answers from the merkle cache where it covers the range, and from the upstream otherwise. What a call
meets is its input, a `ZswapState`; besides its answer it returns the statements with which it stores the updates of the
upstream, whose failures are only logged.
-/

namespace NocyWalletFeed
open Codec

/-- Query parameters for `GET /v1/zswap/merkle-update`. -/
structure MerkleUpdateQuery where
  sessionId : String
  fromIndex : Int
  toIndex : Int
  deriving DecidableEq, Repr

/-- A single collapsed merkle tree update; `update` is hex encoded. -/
structure MerkleUpdateItem where
  startIndex : Int
  endIndex : Int
  update : String
  protocolVersion : Nat
  deriving DecidableEq, Repr

/-- Response for `GET /v1/zswap/merkle-update`. -/
structure MerkleUpdateResponse where
  updates : List MerkleUpdateItem
  deriving DecidableEq, Repr

/-- The database as the session lookup meets it, and the merkle cache and the upstream, where they are configured. -/
structure ZswapState where
  db : Except AppError Database
  merkleCacheManager : Option (Except AppError (List CachedMerkleUpdate))
  subscriptionManager : Option UpstreamConversation

def CachedMerkleUpdate.toItem (u : CachedMerkleUpdate) : MerkleUpdateItem :=
  ⟨u.startIndex, u.endIndex, u.updateHex, asU32 u.protocolVersion⟩

def CollapsedMerkleUpdate.toItem (u : CollapsedMerkleUpdate) : MerkleUpdateItem :=
  ⟨u.startIndex, u.endIndex, u.update, u.protocolVersion⟩

/-- Resolve the upstream session and validate bounds. -/
def checkRequest (state : ZswapState) (query : MerkleUpdateQuery) : Except AppError Bytes := do
  let localSessionId ← parseSessionId query.sessionId
  let db ← state.db
  let upstreamSessionId ← getUpstreamSessionId db localSessionId
  if query.fromIndex ≥ query.toIndex then throw (.badRequest "fromIndex must be less than toIndex")
  if query.fromIndex < 0 then throw (.badRequest "fromIndex must be non-negative")
  pure upstreamSessionId

/-- The updates of the cache, if they cover the range. -/
def servedFromCache (cache : Option (Except AppError (List CachedMerkleUpdate))) (fromIndex toIndex : Int) :
    Option (List CachedMerkleUpdate) :=
  match cache with
  | some (.ok rows) =>
    let updates := getCachedUpdates rows fromIndex toIndex
    if coversRange updates fromIndex toIndex then some updates else none
  | some (.error _) => none
  | none => none

def servedFromUpstream (manager : Option UpstreamConversation) (fromIndex toIndex : Int) :
    Except AppError (List CollapsedMerkleUpdate) :=
  match manager with
  | none => .error (.serviceUnavailable
      "Merkle update service not configured (no cache or upstream WebSocket available)")
  | some upstream => fetchMerkleUpdates upstream fromIndex toIndex

/-- `GET /v1/zswap/merkle-update`, and the statements that store what came from the upstream. -/
def getMerkleUpdate (state : ZswapState) (query : MerkleUpdateQuery) :
    Except AppError MerkleUpdateResponse × List CacheStatement :=
  match checkRequest state query with
  | .error e => (.error e, [])
  | .ok _ =>
    match servedFromCache state.merkleCacheManager query.fromIndex query.toIndex with
    | some updates => (.ok ⟨updates.map (·.toItem)⟩, [])
    | none =>
      match servedFromUpstream state.subscriptionManager query.fromIndex query.toIndex with
      | .error e => (.error e, [])
      | .ok updates =>
        (.ok ⟨updates.map (·.toItem)⟩, if state.merkleCacheManager.isSome then storeUpdates updates else [])

end NocyWalletFeed
