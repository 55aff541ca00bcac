import NocyWalletFeed.Assembly
import NocyWalletFeed.MerkleCache
import NocyWalletFeed.Library.Machine

/-!
# `GET /v1/feed/subscribe` (`routes/subscribe.rs`)

`streamStep` is one iteration of the loop of `run_stream`. What the iteration meets is its input, an `Iteration`: the
snapshot it reads or the failure of one of its statements, the merkle cache and the upstream at each of its requests,
and how many sends the client still takes. A write to the cache after an upstream answer is part of what the next
request meets. A failing statement ends the stream before anything of the iteration is sent, whichever statement it is.

The actions of an iteration are the events that reach the client and a mark for each block that is passed over without
one.
-/

namespace NocyWalletFeed
open Codec Machine

/-! ## Events -/

inductive SseEvent where
  | block (bundle : BlockBundle)
  | heartbeat (watermarks : Watermarks) (currentHeight : String)
  | control (event : ControlEvent)
  deriving DecidableEq, Repr

/-- An event sent, or a block whose bundle was empty. -/
inductive StreamAction where
  | sent (event : SseEvent)
  | skipped (blockMeta : BlockMeta)
  deriving DecidableEq, Repr

def BACKLOG_BATCH_SIZE : Int := 50

/-! ## Inline merkle updates -/

/-- The merkle cache, where one is configured, and the upstream, as one request for a range meets them. -/
structure MerkleSources where
  cache : Option (Except AppError (List CachedMerkleUpdate))
  upstream : UpstreamConversation

/-- The updates of the cache, if they cover the range. -/
def cachedInlineUpdates (cache : Option (Except AppError (List CachedMerkleUpdate))) (fromIndex toIndex : Int) :
    Option (List MerkleCollapsedUpdate) :=
  match cache with
  | some (.ok rows) =>
    let updates := getCachedUpdates rows fromIndex toIndex
    if coversRange updates fromIndex toIndex then
      some (updates.map fun update =>
        ⟨update.startIndex, update.endIndex, update.updateHex, asU32 update.protocolVersion⟩)
    else none
  | some (.error _) => none
  | none => none

/-- The updates injected for a gap `[fromIndex, toIndex)`: from the cache, else from the upstream, else none. -/
def inlineUpdates (sources : MerkleSources) (fromIndex toIndex : Int) : List MerkleCollapsedUpdate :=
  match cachedInlineUpdates sources.cache fromIndex toIndex with
  | some updates => updates
  | none =>
    match fetchMerkleUpdates sources.upstream fromIndex toIndex with
    | .ok updates =>
      updates.map fun update => ⟨update.startIndex, update.endIndex, update.update, update.protocolVersion⟩
    | .error _ => []

/-- The merkle position of a stream and the number of requests it has made in this iteration. -/
structure MerklePosition where
  lastMerkleEndIndex : Int
  requests : Nat
  deriving DecidableEq, Repr

/-- What each request of an iteration meets. -/
abbrev MerkleBehaviour := Nat → Int → Int → MerkleSources

/-- Whether a transaction starts after the current merkle position; `-1` stands for a fresh sync. -/
def needUpdate (lastMerkleEndIndex txStartIndex : Int) : Bool :=
  if lastMerkleEndIndex < 0 then txStartIndex > 0 else txStartIndex > lastMerkleEndIndex

def gapStart (lastMerkleEndIndex : Int) : Int := if lastMerkleEndIndex < 0 then 0 else lastMerkleEndIndex

/-- The updates to inject before a relevant transaction and the position after it. -/
def injectUpdates (merkle : MerkleBehaviour) (position : MerklePosition) (row : RelevantTxRow) :
    List MerkleCollapsedUpdate × MerklePosition :=
  match row.startIndex, row.endIndex with
  | some txStartIndex, some txEndIndex =>
    if needUpdate position.lastMerkleEndIndex txStartIndex then
      let fromIndex := gapStart position.lastMerkleEndIndex
      (inlineUpdates (merkle position.requests fromIndex txStartIndex) fromIndex txStartIndex,
        ⟨txEndIndex, position.requests + 1⟩)
    else ([], ⟨txEndIndex, position.requests⟩)
  | _, _ => ([], position)

/-- The items of injected updates: before the transaction's own, in order. -/
def updateItems (height txId : Int) (updates : List MerkleCollapsedUpdate) : List SortableFeedItem :=
  updates.mapIdx fun idx update =>
    ⟨⟨height, txId, PHASE_TX, -(updates.length : Int) + idx⟩, .merkleCollapsedUpdate update⟩

/-- The relevant transactions of a block, each after the updates injected for it. -/
def streamShieldedItems (w : WindowRows) (height : Int) (merkle : MerkleBehaviour) :
    MerklePosition → List RelevantTxRow → List SortableFeedItem × MerklePosition
  | position, [] => ([], position)
  | position, row :: rows =>
    let injected := injectUpdates merkle position row
    let rest := streamShieldedItems w height merkle injected.2 rows
    (updateItems height row.txId injected.1 ++ w.shieldedItem height row :: rest.1, rest.2)

/-! ## Block bundles -/

/-- The bundle of one block and the merkle position after it. -/
def streamBundle (w : WindowRows) (merkle : MerkleBehaviour) (position : MerklePosition) (blockMeta : BlockMeta) :
    BlockBundle × MerklePosition :=
  let shielded := streamShieldedItems w blockMeta.height merkle position (w.relevantAt blockMeta.height)
  (⟨blockMeta, (w.assembleItems blockMeta.height shielded.1).map SortableFeedItem.toOrdered⟩, shielded.2)

/-- The bundles of a batch, with the merkle position threaded through its blocks. -/
def streamBundles (w : WindowRows) (merkle : MerkleBehaviour) :
    MerklePosition → List BlockMeta → List BlockBundle × MerklePosition
  | position, [] => ([], position)
  | position, blockMeta :: blocksMeta =>
    let bundle := streamBundle w merkle position blockMeta
    let rest := streamBundles w merkle bundle.2 blocksMeta
    (bundle.1 :: rest.1, rest.2)

/-- Build block bundles for a range of blocks; returns the bundles and the updated merkle position. -/
def buildBlockBundles (db : Database) (args : AssemblyArgs) (merkle : MerkleBehaviour) (blocksMeta : List BlockMeta)
    (lastMerkleEndIndex : Int) : List BlockBundle × Int :=
  match blocksMeta.head?, blocksMeta.getLast? with
  | some first, some last =>
    let built := streamBundles (fetchWindow db args first.height last.height) merkle ⟨lastMerkleEndIndex, 0⟩ blocksMeta
    (built.1, built.2.lastMerkleEndIndex)
  | _, _ => ([], lastMerkleEndIndex)

/-! ## The stream -/

/-- What one iteration of the loop meets. -/
structure Iteration where
  isClosed : Bool
  snapshot : Except AppError Database
  heartbeatDue : Bool
  merkle : MerkleBehaviour
  sends : Nat

/-- The variables of the loop. -/
structure StreamState where
  currentHeight : Int
  fromCursor : Option SequenceKey
  lastMerkleEndIndex : Int
  lastBlockHash : Option String
  deriving DecidableEq, Repr

def StreamState.initial (fromHeight : Int) (fromCursor : Option SequenceKey) : StreamState :=
  ⟨fromHeight, fromCursor, -1, none⟩

/-- Why a stream ended: the client left or a reset was sent, or a failure. -/
abbrev StreamEnd := Except AppError Unit

/-- Apply the cursor to the bundle of its own block, once. -/
def applyCursor (fromCursor : Option SequenceKey) (bundle : BlockBundle) :
    List OrderedFeedItem × Option SequenceKey :=
  match fromCursor with
  | none => (bundle.items, none)
  | some cursor =>
    if bundle.blockMeta.height = cursor.blockHeight then (retainAfter cursor bundle.items, none)
    else (bundle.items, some cursor)

/-- Send the bundles of a batch; `none` when the client stops taking events. -/
def sendBundles : Nat → Int → Option SequenceKey → List BlockBundle →
    List StreamAction × Option (Int × Option SequenceKey)
  | _, currentHeight, fromCursor, [] => ([], some (currentHeight, fromCursor))
  | sends, _, fromCursor, bundle :: bundles =>
    let applied := applyCursor fromCursor bundle
    if applied.1.isEmpty then
      let rest := sendBundles sends (bundle.blockMeta.height + 1) applied.2 bundles
      (.skipped bundle.blockMeta :: rest.1, rest.2)
    else
      match sends with
      | 0 => ([], none)
      | sends + 1 =>
        let rest := sendBundles sends (bundle.blockMeta.height + 1) applied.2 bundles
        (.sent (.block ⟨bundle.blockMeta, applied.1⟩) :: rest.1, rest.2)

def heartbeatAndWait (e : Iteration) (s : StreamState) (watermarks : Watermarks) :
    List StreamAction × Flow StreamState StreamEnd :=
  if e.heartbeatDue then
    match e.sends with
    | 0 => ([], .halt (.ok ()))
    | _ + 1 => ([.sent (.heartbeat watermarks (toString s.currentHeight))], .next s)
  else ([], .next s)

/-- The hash the first block of a batch is checked against: that of the last block processed, or on the first batch
that of the block below. -/
def boundaryHash (db : Database) (s : StreamState) : Option String :=
  if s.lastBlockHash.isNone ∧ s.currentHeight > 0 then getBlockHashAtHeight db (s.currentHeight - 1)
  else s.lastBlockHash

/-- Validate, build and send a non-empty batch. -/
def processBatch (args : AssemblyArgs) (e : Iteration) (s : StreamState) (db : Database)
    (blocksMeta : List BlockMeta) : List StreamAction × Flow StreamState StreamEnd :=
  match validateBlocks s.currentHeight (boundaryHash db s) blocksMeta with
  | some control => ([StreamAction.sent (.control control)].take e.sends, .halt (.ok ()))
  | none =>
    let built := buildBlockBundles db args e.merkle blocksMeta s.lastMerkleEndIndex
    match sendBundles e.sends s.currentHeight s.fromCursor built.1 with
    | (actions, none) => (actions, .halt (.ok ()))
    | (actions, some (currentHeight, fromCursor)) =>
      (actions, .next ⟨currentHeight, fromCursor, built.2, blocksMeta.getLast?.map (·.hash)⟩)

/-- The batch an iteration fetches: up to `BACKLOG_BATCH_SIZE` heights, not beyond the ready height. -/
def fetchBatch (db : Database) (s : StreamState) (readyHeight : Int) : List BlockMeta :=
  getBlocksInRange db s.currentHeight (min (s.currentHeight + BACKLOG_BATCH_SIZE - 1) readyHeight)

def streamStep (args : AssemblyArgs) (s : StreamState) (e : Iteration) :
    List StreamAction × Flow StreamState StreamEnd :=
  if e.isClosed then ([], .halt (.ok ()))
  else
    match e.snapshot with
    | .error failure => ([], .halt (.error failure))
    | .ok db =>
      let chainHead := getChainHead db
      match computeWalletReadyHeight db args.upstreamSessionId chainHead with
      | .error failure => ([], .halt (.error failure))
      | .ok none => heartbeatAndWait e s ⟨chainHead, none, some chainHead⟩
      | .ok (some readyHeight) =>
        if s.currentHeight > readyHeight then
          heartbeatAndWait e s ⟨chainHead, some readyHeight, some chainHead⟩
        else
          match fetchBatch db s readyHeight with
          | [] => ([], .next s)
          | first :: rest => processBatch args e s db (first :: rest)

def runStream (args : AssemblyArgs) (s : StreamState) (iterations : List Iteration) :
    List (Visit StreamState Iteration StreamAction) := visits (streamStep args) s iterations

/-! ## Subscribing -/

/-- Query parameters for `GET /v1/feed/subscribe`; the defaults are those of the deserializer. -/
structure SubscribeQuery where
  sessionId : String
  fromHeight : Option Int := none
  fromCursor : Option String := none
  includeNullifiers : Bool := true
  includeTxMeta : Bool := true
  includeRawTx : Bool := false
  includeIdentifiers : Bool := true
  includeAllDust : Bool := false
  deriving DecidableEq, Repr

structure Subscription where
  args : AssemblyArgs
  start : StreamState
  deriving DecidableEq, Repr

/-- A subscription that does not begin: an `error` event with the text of an error or a message, or a failure of the
producer that is only logged. -/
inductive SubscribeError where
  | rejected (error : AppError)
  | invalidCursor (message : String)
  | failed (error : AppError)
  deriving DecidableEq, Repr

/-- `GET /v1/feed/subscribe` up to the loop of `run_stream`. -/
def subscribeFeed (db : Database) (query : SubscribeQuery) : Except SubscribeError Subscription := do
  let localSessionId ← (parseSessionId query.sessionId).mapError .rejected
  let upstreamSessionId ← (getUpstreamSessionId db localSessionId).mapError .rejected
  let fromCursor ← (query.fromCursor.mapM parseCursor).mapError .invalidCursor
  let nullifierMode ←
    if !query.includeNullifiers then pure .disabled
    else (getSessionNullifierStreaming db query.sessionId).mapError .failed
  let identifiersSource :=
    if query.includeTxMeta && query.includeIdentifiers then detectIdentifiersSource db else .none
  pure
    { args :=
        { localSessionId := localSessionId
          upstreamSessionId := upstreamSessionId
          nullifierMode := nullifierMode
          includeTxMeta := query.includeTxMeta
          includeRawTx := query.includeRawTx
          includeIdentifiers := query.includeIdentifiers
          includeAllDust := query.includeAllDust
          identifiersSource := identifiersSource }
      start := .initial (startHeight fromCursor query.fromHeight) fromCursor }

end NocyWalletFeed
