import NocyWalletFeed.Assembly

/-!
# `GET /v1/feed` (`routes/feed.rs`)

`getFeed limitBlocksMax db query` is one request against the snapshot `db`. Heights are computed without overflow; the
metrics and the log lines are left out.
-/

namespace NocyWalletFeed
open Codec

/-- Query parameters for `GET /v1/feed`; the defaults are those of the deserializer. -/
structure FeedQuery where
  sessionId : String
  fromHeight : Option Int := none
  fromCursor : Option String := none
  limitBlocks : Option Int := none
  includeNullifiers : Bool := true
  includeTxMeta : Bool := true
  includeRawTx : Bool := false
  includeIdentifiers : Bool := true
  includeAllDust : Bool := false
  deriving DecidableEq, Repr

/-- Default blocks per request if not specified. -/
def DEFAULT_LIMIT_BLOCKS : Int := 50

/-- The limit of a request: at most the configured ceiling, at least one. -/
def clampLimit (limitBlocksMax : Nat) (limitBlocks : Option Int) : Int :=
  max (min (limitBlocks.getD DEFAULT_LIMIT_BLOCKS) limitBlocksMax) 1

/-- `from_cursor.map(parse_cursor)`, with a parse error as a bad request. -/
def parseFromCursor : Option String → Except AppError (Option SequenceKey)
  | none => .ok none
  | some cursor =>
    match parseCursor cursor with
    | .ok key => .ok (some key)
    | .error message => .error (.badRequest message)

def resolveArgs (db : Database) (query : FeedQuery) (localSessionId : Bytes) : Except AppError AssemblyArgs := do
  let nullifierMode ←
    if !query.includeNullifiers then pure .disabled else getSessionNullifierStreaming db query.sessionId
  let identifiersSource :=
    if query.includeTxMeta && query.includeIdentifiers then detectIdentifiersSource db else .none
  let upstreamSessionId ← getUpstreamSessionId db localSessionId
  pure
    { localSessionId := localSessionId
      upstreamSessionId := upstreamSessionId
      nullifierMode := nullifierMode
      includeTxMeta := query.includeTxMeta
      includeRawTx := query.includeRawTx
      includeIdentifiers := query.includeIdentifiers
      includeAllDust := query.includeAllDust
      identifiersSource := identifiersSource }

/-- The items of a block as `get_feed` assembles them, before the cursor filter. -/
def WindowRows.feedItems (w : WindowRows) (height : Int) : List OrderedFeedItem :=
  (w.assembleItems height ((w.relevantAt height).map (w.shieldedItem height))).map SortableFeedItem.toOrdered

/-- The cursor filter of a request, applied to the cursor's own block only. -/
def filterCursorBlock (fromCursor : Option SequenceKey) (height : Int) (items : List OrderedFeedItem) :
    List OrderedFeedItem :=
  match fromCursor with
  | none => items
  | some cursor => if cursor.blockHeight = height then retainAfter cursor items else items

/-- The block bundles of a page, without those that have no items. -/
def buildBundles (w : WindowRows) (fromCursor : Option SequenceKey) (blocksMeta : List BlockMeta) :
    List BlockBundle :=
  (blocksMeta.map fun blockMeta =>
    (⟨blockMeta, filterCursorBlock fromCursor blockMeta.height (w.feedItems blockMeta.height)⟩ : BlockBundle)).filter
    (fun bundle => !bundle.items.isEmpty)

/-- The response of a failed validation: the first block of the range with the reset event as its only item. -/
def resetResponse (watermarks : Watermarks) (first : BlockMeta) (event : ControlEvent) : FeedResponse :=
  { FeedResponse.new watermarks with
    blocks := [⟨first, [⟨(⟨first.height, -1, PHASE_CONTROL, 0⟩ : SequenceKey).toCursor, .control event⟩]⟩] }

def pageResponse (watermarks : Watermarks) (readyHeight toHeight : Int) (blockBundles : List BlockBundle) :
    FeedResponse :=
  { apiVersion := API_VERSION
    watermarks := watermarks
    blocks := blockBundles
    nextHeight := if toHeight < readyHeight then some (toHeight + 1) else none
    nextCursor := (blockBundles.getLast?.bind (·.items.getLast?)).map (·.sequence) }

/-- The page from `fromHeight` on: at most `limitBlocks` heights, not beyond the ready height. -/
def feedPage (db : Database) (args : AssemblyArgs) (watermarks : Watermarks) (fromCursor : Option SequenceKey)
    (fromHeight limitBlocks readyHeight : Int) : FeedResponse :=
  let toHeight := min (fromHeight + limitBlocks - 1) readyHeight
  match getBlocksInRange db fromHeight toHeight with
  | [] => FeedResponse.empty watermarks
  | first :: rest =>
    let boundaryPrevHash := if fromHeight > 0 then getBlockHashAtHeight db (fromHeight - 1) else none
    match validateBlocks fromHeight boundaryPrevHash (first :: rest) with
    | some event => resetResponse watermarks first event
    | none =>
      pageResponse watermarks readyHeight toHeight
        (buildBundles (fetchWindow db args fromHeight toHeight) fromCursor (first :: rest))

/-- `GET /v1/feed`: fetch feed blocks with watermarks. -/
def getFeed (limitBlocksMax : Nat) (db : Database) (query : FeedQuery) : Except AppError FeedResponse := do
  let localSessionId ← parseSessionId query.sessionId
  let fromCursor ← parseFromCursor query.fromCursor
  let fromHeight := startHeight fromCursor query.fromHeight
  let limitBlocks := clampLimit limitBlocksMax query.limitBlocks
  let args ← resolveArgs db query localSessionId
  let chainHead := getChainHead db
  let walletReadyHeight ← computeWalletReadyHeight db args.upstreamSessionId chainHead
  let watermarks : Watermarks := ⟨chainHead, walletReadyHeight, some chainHead⟩
  match walletReadyHeight with
  | none => pure (FeedResponse.empty watermarks)
  | some readyHeight =>
    if fromHeight > readyHeight then pure (FeedResponse.empty watermarks)
    else pure (feedPage db args watermarks fromCursor fromHeight limitBlocks readyHeight)

end NocyWalletFeed
