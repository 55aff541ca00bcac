import NocyWalletFeed.Feed
import NocyWalletFeed.Library.Codec
import Mathlib.Data.Finset.Basic

/-!
# The upstream indexer and the keepalive tasks (`upstream.rs`, `keepalive.rs`)

* `GraphqlReply`, `GraphqlReply.data` : what a request of the client gets back, and what the client makes of it;
* `KeepaliveTasks.start`, `KeepaliveTasks.stop` : the task map. A task runs as long as its handle is in the map: its
  loop ends by itself only for an id that is no hex text, and a session is only started with one that is.

The upstream itself is not part of the program: `Upstreams` is the set of the sessions it has connected.
-/

namespace NocyWalletFeed
open Codec

/-! ## Requests -/

/-- What a GraphQL request gets back: no response, one with an error status, one that is no GraphQL response, or one
with its data and the messages of its errors. -/
inductive GraphqlReply (δ : Type) where
  | sendFailed (error : String)
  | failed (status body : String)
  | undecodable (error : String)
  | response (data : Option δ) (errors : Option (List String))
  deriving DecidableEq, Repr

/-- The data of a reply; `failure` is the text for a request that was not answered. -/
def GraphqlReply.data {δ : Type} (failure : String) : GraphqlReply δ → Except AppError δ
  | .sendFailed error => .error (.upstreamError (failure ++ ": " ++ error))
  | .failed status body => .error (.upstreamError ("Upstream returned " ++ status ++ ": " ++ body))
  | .undecodable error => .error (.upstreamError ("Invalid response: " ++ error))
  | .response _ (some errors) => .error (.upstreamError ("Upstream GraphQL error: " ++ String.intercalate "; " errors))
  | .response none none => .error (.upstreamError "Upstream GraphQL response missing data")
  | .response (some data) none => .ok data

namespace UpstreamClient

/-- Connect with a viewing key: the id of the upstream session, as text. -/
def connect (reply : GraphqlReply String) : Except AppError String := reply.data "Connection failed"

def disconnect (reply : GraphqlReply Unit) : Except AppError Bool := (reply.data "Disconnect failed").map fun _ => true

end UpstreamClient

abbrev Upstreams := Finset Bytes

/-- The upstream drops the session an id names. -/
def Upstreams.disconnect (sessionId : String) (connected : Upstreams) : Upstreams :=
  match hexDecode sessionId with
  | some bytes => Finset.erase connected bytes
  | none => connected

theorem Upstreams.disconnect_of_hexDecode {sessionId : String} {bytes : Bytes} (h : hexDecode sessionId = some bytes)
    (connected : Upstreams) : Upstreams.disconnect sessionId connected = Finset.erase connected bytes := by
  rw [Upstreams.disconnect, h]

@[simp] theorem Upstreams.disconnect_hexEncode (bytes : Bytes) (connected : Upstreams) :
    Upstreams.disconnect (hexEncode bytes) connected = Finset.erase connected bytes :=
  disconnect_of_hexDecode (hexDecode_hexEncode bytes) connected

/-! ## Keepalive tasks -/

abbrev KeepaliveTasks := Finset String

namespace KeepaliveTasks

/-- Start a keepalive task for a session, in place of the one it has. -/
def start (sessionId : String) (tasks : KeepaliveTasks) : KeepaliveTasks :=
  insert sessionId (Finset.erase tasks sessionId)

def stop (sessionId : String) (tasks : KeepaliveTasks) : KeepaliveTasks := Finset.erase tasks sessionId

@[simp] theorem mem_start {sessionId text : String} {tasks : KeepaliveTasks} :
    text ∈ start sessionId tasks ↔ text = sessionId ∨ text ∈ tasks := by
  rw [start, Finset.mem_insert, Finset.mem_erase]
  by_cases h : text = sessionId
  · simp [h]
  · simp [h]

@[simp] theorem mem_stop {sessionId text : String} {tasks : KeepaliveTasks} :
    text ∈ stop sessionId tasks ↔ text ≠ sessionId ∧ text ∈ tasks := by
  rw [stop, Finset.mem_erase]

/-- A task runs for an upstream session: there is one under a text of its id. -/
def RunsFor (tasks : KeepaliveTasks) (upstreamSessionId : Bytes) : Prop :=
  ∃ text ∈ tasks, hexDecode text = some upstreamSessionId

instance (tasks : KeepaliveTasks) (upstreamSessionId : Bytes) : Decidable (RunsFor tasks upstreamSessionId) :=
  inferInstanceAs (Decidable (∃ text ∈ tasks, hexDecode text = some upstreamSessionId))

end KeepaliveTasks

end NocyWalletFeed
