import NocyWalletFeed.MerkleCache
import NocyWalletFeed.Upstream
import NocyWalletFeed.Library.Machine

/-!
# The background subscription of the merkle cache (`merkle_cache.rs`)

`subscriptionStep` is one iteration of `subscription_loop`: one run of `run_subscription`, and the wait after it. What
an iteration meets is its input: the statements that fail, the keys it generates and the replies to them, the result of
opening the socket (connect, init, ack, subscribe), and the frames read afterwards.
-/

namespace NocyWalletFeed
open Machine

/-! ## The session -/

/-- The tables of the cache, and the two session columns of `nocy_sidecar.merkle_cache_state`. -/
structure CacheManagerState where
  sessionId : Option String
  viewingKey : Option String
  cache : MerkleCache
  deriving DecidableEq, Repr

/-- The tables as the schema creates them. -/
def CacheManagerState.initial : CacheManagerState := ⟨none, none, .empty⟩

/-- The stored session, if both of its columns hold a text that is not empty. -/
def CacheManagerState.stored (s : CacheManagerState) : Option (String × String) :=
  match s.sessionId, s.viewingKey with
  | some sessionId, some viewingKey =>
    if sessionId ≠ "" ∧ viewingKey ≠ "" then some (sessionId, viewingKey) else none
  | _, _ => none

/-- What `ensure_session` meets: its statements that fail, and each random viewing key with the reply to it. -/
structure SessionEnv where
  queryFails : Option String
  attempts : Nat → String × GraphqlReply String
  storeFails : Option String

/-- The session of a run, and whether the run has created and stored it. -/
structure EnsuredSession where
  sessionId : String
  viewingKey : String
  created : Bool
  deriving DecidableEq, Repr

/-- The first of five attempts to connect that succeeds: the session and its viewing key. -/
def firstConnected (attempts : Nat → String × GraphqlReply String) : Option (String × String) :=
  (List.range 5).findSome? fun attempt =>
    match UpstreamClient.connect (attempts attempt).2 with
    | .ok sessionId => some (sessionId, (attempts attempt).1)
    | .error _ => none

/-- Create an upstream session with a random viewing key and store it. -/
def createSession (env : SessionEnv) (s : CacheManagerState) : Except AppError EnsuredSession × CacheManagerState :=
  match firstConnected env.attempts with
  | none => (.error (.upstreamError "Failed to create upstream session for merkle cache"), s)
  | some (sessionId, viewingKey) =>
    if sessionId = "" ∨ viewingKey = "" then
      (.error (.upstreamError "Failed to create upstream session for merkle cache"), s)
    else
      match env.storeFails with
      | some e => (.error (.internalError ("Failed to store session: " ++ e)), s)
      | none =>
        (.ok ⟨sessionId, viewingKey, true⟩, { s with sessionId := some sessionId, viewingKey := some viewingKey })

/-- Get or create a session. A stored one is returned as it is. -/
def ensureSession (env : SessionEnv) (s : CacheManagerState) : Except AppError EnsuredSession × CacheManagerState :=
  match env.queryFails with
  | some e => (.error (.internalError ("Failed to query merkle cache state: " ++ e)), s)
  | none =>
    match s.stored with
    | some (sessionId, viewingKey) => (.ok ⟨sessionId, viewingKey, false⟩, s)
    | none => createSession env s

/-! ## One run -/

/-- A frame as the message loop meets it: whether a shutdown has been requested, and how many statements of the
`cache_update` call it may lead to succeed. -/
structure SubscriptionFrame where
  shutdown : Bool
  frame : UpstreamFrame
  writes : Nat
  deriving DecidableEq, Repr

inductive SubscriptionEndReason where
  | completed
  | webSocketClosed
  | streamEnded
  | shutdown
  deriving DecidableEq, Repr

/-- How the message loop ends. The upstream rejects a subscription with the errors of a `next` or an `error` message. -/
inductive MessageLoopEnd where
  | ended (reason : SubscriptionEndReason)
  | rejected (messages : List String)
  | readFailed (message : String)
  deriving DecidableEq, Repr

structure MessageLoop where
  cache : MerkleCache
  updatesCached : Nat
  loopEnd : MessageLoopEnd
  deriving DecidableEq, Repr

/-- `cache_update`, up to the first statement that fails, and whether it succeeds. -/
def cacheTree (cache : MerkleCache) (writes : Nat) (tree : CollapsedMerkleTree) : MerkleCache × Bool :=
  let statements := cacheUpdate tree
  ((statements.take writes).foldl CacheStatement.exec cache, !statements.isEmpty && statements.length ≤ writes)

/-- Process incoming updates until the connection drops or a shutdown is requested. -/
def messageLoop : MerkleCache → Nat → List SubscriptionFrame → MessageLoop
  | cache, updatesCached, [] => ⟨cache, updatesCached, .ended .streamEnded⟩
  | cache, updatesCached, f :: frames =>
    if f.shutdown then ⟨cache, updatesCached, .ended .shutdown⟩
    else
      match f.frame with
      | .next (some errors) _ => ⟨cache, updatesCached, .rejected errors⟩
      | .next none (some (.relevantTransaction _ (some tree))) =>
        let cached := cacheTree cache f.writes tree
        messageLoop cached.1 (if cached.2 then updatesCached + 1 else updatesCached) frames
      | .next none (some (.relevantTransaction _ none)) => messageLoop cache updatesCached frames
      | .next none (some .shieldedTransactionsProgress) => messageLoop cache updatesCached frames
      | .next none none => messageLoop cache updatesCached frames
      | .complete => ⟨cache, updatesCached, .ended .completed⟩
      | .error payload => ⟨cache, updatesCached, .rejected payload⟩
      | .ping => messageLoop cache updatesCached frames
      | .ignored => messageLoop cache updatesCached frames
      | .close => ⟨cache, updatesCached, .ended .webSocketClosed⟩
      | .readError message => ⟨cache, updatesCached, .readFailed message⟩

structure RunEnv where
  session : SessionEnv
  indexFails : Option String
  opening : Except AppError Unit
  frames : List SubscriptionFrame

/-- A run of `run_subscription`: how far it got, and how it ended. -/
inductive RunReport where
  | noSession (error : AppError)
  | notSubscribed (session : EnsuredSession) (error : AppError)
  | subscribed (session : EnsuredSession) (startIndex : Int) (updatesCached : Nat) (loopEnd : MessageLoopEnd)
  deriving DecidableEq, Repr

def runSubscription (env : RunEnv) (s : CacheManagerState) : RunReport × CacheManagerState :=
  match ensureSession env.session s with
  | (.error e, s') => (.noSession e, s')
  | (.ok session, s') =>
    match env.indexFails with
    | some e => (.notSubscribed session (.internalError ("Failed to query highest index: " ++ e)), s')
    | none =>
      match env.opening with
      | .error e => (.notSubscribed session e, s')
      | .ok () =>
        let loop := messageLoop s'.cache 0 env.frames
        (.subscribed session s'.cache.highestEndIndex loop.updatesCached loop.loopEnd, { s' with cache := loop.cache })

structure SubscriptionOutcome where
  updatesCached : Nat
  endReason : SubscriptionEndReason
  deriving DecidableEq, Repr

/-- What `run_subscription` returns. -/
def RunReport.result : RunReport → Except AppError SubscriptionOutcome
  | noSession error => .error error
  | notSubscribed _ error => .error error
  | subscribed _ _ updatesCached (.ended reason) => .ok ⟨updatesCached, reason⟩
  | subscribed _ _ _ (.rejected messages) =>
    .error (.upstreamError ("GraphQL subscription error: " ++ "; ".intercalate messages))
  | subscribed _ _ _ (.readFailed message) => .error (.upstreamError ("WebSocket error: " ++ message))

/-! ## The loop -/

/-- The tables and the two delays, in seconds. -/
structure LoopState where
  manager : CacheManagerState
  errorDelay : Nat
  idleDelay : Nat
  deriving DecidableEq, Repr

def LoopState.initial (manager : CacheManagerState) : LoopState := ⟨manager, 1, 5⟩

/-- What an iteration meets: whether a shutdown has been requested before the run and after it. -/
structure LoopIteration where
  shutdownBefore : Bool
  run : RunEnv
  shutdownAfter : Bool

inductive LoopAction where
  | ran (report : RunReport)
  | slept (seconds : Nat)
  deriving DecidableEq, Repr

def subscriptionStep (s : LoopState) (e : LoopIteration) : List LoopAction × Flow LoopState Unit :=
  if e.shutdownBefore then ([], .halt ())
  else
    let run := runSubscription e.run s.manager
    match run.1.result with
    | .ok outcome =>
      if e.shutdownAfter ∨ outcome.endReason = .shutdown then ([.ran run.1], .halt ())
      else if outcome.updatesCached = 0 then
        ([.ran run.1, .slept s.idleDelay], .next ⟨run.2, 1, min (s.idleDelay * 2) 60⟩)
      else ([.ran run.1, .slept 1], .next ⟨run.2, 1, 5⟩)
    | .error _ =>
      if e.shutdownAfter then ([.ran run.1], .halt ())
      else ([.ran run.1, .slept s.errorDelay], .next ⟨run.2, min (s.errorDelay * 2) 60, 5⟩)

/-- `subscription_loop` over the iterations it meets. -/
def subscriptionLoop (s : LoopState) (iterations : List LoopIteration) :
    List (Visit LoopState LoopIteration LoopAction) := visits subscriptionStep s iterations

def LoopAction.report : LoopAction → Option RunReport
  | ran report => some report
  | slept _ => none

def runReports (loop : List (Visit LoopState LoopIteration LoopAction)) : List RunReport :=
  (outputs loop).filterMap LoopAction.report

end NocyWalletFeed
