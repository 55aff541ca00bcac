import NocyWalletFeed.MerkleUpdates
import NocyWalletFeed.RejectedSessions

/-!
# The handshake of the WebSocket clients (`graphql_ws.rs`, `merkle_cache.rs`)

Both clients open a connection, send `connection_init`, read one message and subscribe. The socket is an input, a
`Connection`; besides its result a client has a log of the messages it has received and sent.

* `handshake` : up to the subscribe message, the same code in both clients;
* `fetchOver`, `runOver` : the whole connection; `fetchOver_result`, `runOver_report` : their results are those of
  `fetchMerkleUpdates` and `runSubscription`;
* `SubscribesAfterAck` : every subscribe message of a log comes after a `connection_ack`;
* `subscribesAfterAck_iff` : it does exactly when the first message is no WebSocket frame other than a text.
-/

namespace NocyWalletFeed

/-! ## Messages -/

inductive ServerMessage where
  | connectionAck
  | next (id : String) (errors : Option (List String)) (data : Option ShieldedTransactionsEvent)
  | error (id : String) (payload : List String)
  | complete (id : String)
  | ping
  | pong
  deriving DecidableEq, Repr

/-- A WebSocket message; a text is the message it parses to, or the error of parsing it. -/
inductive Message where
  | text (parsed : Except String ServerMessage)
  | binary
  | ping
  | pong
  | close
  deriving DecidableEq

def Message.isText : Message → Bool
  | text _ => true
  | _ => false

inductive ClientMessage where
  | connectionInit
  | subscribe (id sessionId : String) (index : Int)
  | pong
  | complete (id : String)
  deriving DecidableEq, Repr

inductive ConnectionEvent where
  | received (message : Message)
  | sent (message : ClientMessage)
  deriving DecidableEq

/-- One item of the socket's stream: a message, or a read error. -/
abbrev SocketRead := Except String Message

/-- What the message loops make of an item. -/
def toFrame : SocketRead → UpstreamFrame
  | .error e => .readError e
  | .ok (.text (.ok (.next _ errors data))) => .next errors data
  | .ok (.text (.ok (.error _ payload))) => .error payload
  | .ok (.text (.ok (.complete _))) => .complete
  | .ok (.text (.ok .ping)) => .ping
  | .ok .close => .close
  | .ok _ => .ignored

/-! ## The handshake -/

/-- What a connection meets: the URL may be invalid, connecting and the sends may fail, the read of the ack may time
out, and the items of the stream, up to its end or the collect timeout. -/
structure Connection where
  invalidUrl : Option (String × String)
  connectFails : Option String
  initFails : Option String
  ackTimesOut : Bool
  subscribeFails : Option String
  reads : List SocketRead

/-- The check of the message read for the ack; only a text is looked at. -/
def checkAck : Message → Except AppError Unit
  | .text (.error e) => .error (.upstreamError ("Failed to parse ack: " ++ e))
  | .text (.ok .connectionAck) => .ok ()
  | .text (.ok _) => .error (.upstreamError "Expected connection_ack")
  | _ => .ok ()

/-- Connect, send `connection_init`, wait for the ack and subscribe; the result is the rest of the stream. -/
def handshake (subscribe : ClientMessage) (c : Connection) : List ConnectionEvent × Except AppError (List SocketRead) :=
  match c.invalidUrl with
  | some (url, e) => ([], .error (.upstreamError ("Invalid WebSocket URL '" ++ url ++ "': " ++ e)))
  | none =>
    match c.connectFails with
    | some e => ([], .error (.upstreamError ("WebSocket connection failed: " ++ e)))
    | none =>
      match c.initFails with
      | some e => ([], .error (.upstreamError ("Failed to send init: " ++ e)))
      | none =>
        if c.ackTimesOut then ([.sent .connectionInit], .error (.upstreamError "Connection ack timeout"))
        else
          match c.reads with
          | [] => ([.sent .connectionInit], .error (.upstreamError "Connection closed before ack"))
          | .error e :: _ => ([.sent .connectionInit], .error (.upstreamError ("WebSocket read error: " ++ e)))
          | .ok message :: reads =>
            match checkAck message with
            | .error e => ([.sent .connectionInit, .received message], .error e)
            | .ok () =>
              match c.subscribeFails with
              | some e =>
                ([.sent .connectionInit, .received message],
                  .error (.upstreamError ("Failed to send subscribe: " ++ e)))
              | none => ([.sent .connectionInit, .received message, .sent subscribe], .ok reads)

/-- What a loop receives and sends at an item: a `ping` is answered. -/
def readEvents : SocketRead → List ConnectionEvent
  | .error _ => []
  | .ok (.text (.ok .ping)) => [.received (.text (.ok .ping)), .sent .pong]
  | .ok message => [.received message]

/-! ## `fetch_merkle_updates` -/

def collectEvents : List SocketRead → List ConnectionEvent
  | [] => []
  | read :: reads => readEvents read ++ if (toFrame read).isSkipped then collectEvents reads else []

/-- `fetch_merkle_updates` over a connection. -/
def fetchOver (sessionId : String) (fromIndex toIndex : Int) (c : Connection) :
    List ConnectionEvent × Except AppError (List CollapsedMerkleUpdate) :=
  if fromIndex ≥ toIndex then ([], .ok [])
  else
    match handshake (.subscribe "merkle-fetch-1" sessionId fromIndex) c with
    | (log, .error e) => (log, .error e)
    | (log, .ok reads) =>
      (log ++ collectEvents reads ++ [.sent (.complete "merkle-fetch-1")],
        collectUpdates fromIndex toIndex (reads.map toFrame))

/-! ## `run_subscription` -/

/-- What a run of the background subscription meets: besides the connection, the item at which it first sees a shutdown,
and how many statements of the write that an item leads to succeed. -/
structure BackgroundEnv where
  session : SessionEnv
  indexFails : Option String
  connection : Connection
  shutdownAt : Nat → Bool
  writes : Nat → Nat

def BackgroundEnv.frames (env : BackgroundEnv) (reads : List SocketRead) : List SubscriptionFrame :=
  reads.mapIdx fun position read => ⟨env.shutdownAt position, toFrame read, env.writes position⟩

/-- The events of the message loop: an item read after a shutdown is dropped. -/
def messageEvents : List (SocketRead × SubscriptionFrame) → List ConnectionEvent
  | [] => []
  | (read, frame) :: rest =>
    if frame.shutdown then (readEvents read).take 1
    else readEvents read ++ if frame.ends then [] else messageEvents rest

/-- `run_subscription` over a connection. -/
def runOver (env : BackgroundEnv) (s : CacheManagerState) : List ConnectionEvent × RunReport × CacheManagerState :=
  match ensureSession env.session s with
  | (.error e, s') => ([], .noSession e, s')
  | (.ok session, s') =>
    match env.indexFails with
    | some e => ([], .notSubscribed session (.internalError ("Failed to query highest index: " ++ e)), s')
    | none =>
      match handshake (.subscribe "merkle-cache-bg" session.sessionId s'.cache.highestEndIndex) env.connection with
      | (log, .error e) => (log, .notSubscribed session e, s')
      | (log, .ok reads) =>
        let loop := messageLoop s'.cache 0 (env.frames reads)
        let goodbye := match loop.loopEnd with
          | .ended _ => [.sent (.complete "merkle-cache-bg")]
          | _ => []
        (log ++ messageEvents (reads.zip (env.frames reads)) ++ goodbye,
          .subscribed session s'.cache.highestEndIndex loop.updatesCached loop.loopEnd, { s' with cache := loop.cache })

/-! ## What the handshake leads to -/

/-- The client gets to the read of the ack, and its sends succeed. -/
structure Connection.Works (c : Connection) : Prop where
  url : c.invalidUrl = none
  connected : c.connectFails = none
  init : c.initFails = none
  read : c.ackTimesOut = false
  subscribe : c.subscribeFails = none

/-- The first message is a WebSocket frame that is no text: a binary, ping, pong or close frame. -/
def Connection.SkipsAck (c : Connection) : Prop :=
  c.Works ∧ ∃ message reads, c.reads = .ok message :: reads ∧ message.isText = false

def ConnectionEvent.isSubscribe : ConnectionEvent → Bool
  | sent (.subscribe _ _ _) => true
  | _ => false

/-- No subscribe message of a log comes before the first `connection_ack`. -/
def SubscribesAfterAck (log : List ConnectionEvent) : Prop :=
  ∀ event ∈ log.takeWhile (· ≠ .received (.text (.ok .connectionAck))), event.isSubscribe = false

instance (log : List ConnectionEvent) : Decidable (SubscribesAfterAck log) :=
  inferInstanceAs (Decidable (∀ event ∈ _, _))

theorem subscribesAfterAck_of_forall {log : List ConnectionEvent} (h : ∀ event ∈ log, event.isSubscribe = false) :
    SubscribesAfterAck log :=
  fun event hevent => h event ((List.takeWhile_sublist _).subset hevent)

theorem subscribesAfterAck_nil : SubscribesAfterAck [] := subscribesAfterAck_of_forall fun _ h => nomatch h

section Handshake
variable {c : Connection}

theorem checkAck_cases (message : Message) :
    (checkAck message = .ok () ∧ (message = .text (.ok .connectionAck) ∨ message.isText = false)) ∨
      ((∃ e, checkAck message = .error e) ∧ message.isText = true) := by
  match message with
  | .text (.error e) => exact Or.inr ⟨⟨_, rfl⟩, rfl⟩
  | .text (.ok .connectionAck) => exact Or.inl ⟨rfl, Or.inl rfl⟩
  | .text (.ok (.next _ _ _)) => exact Or.inr ⟨⟨_, rfl⟩, rfl⟩
  | .text (.ok (.error _ _)) => exact Or.inr ⟨⟨_, rfl⟩, rfl⟩
  | .text (.ok (.complete _)) => exact Or.inr ⟨⟨_, rfl⟩, rfl⟩
  | .text (.ok .ping) => exact Or.inr ⟨⟨_, rfl⟩, rfl⟩
  | .text (.ok .pong) => exact Or.inr ⟨⟨_, rfl⟩, rfl⟩
  | .binary => exact Or.inl ⟨rfl, Or.inr rfl⟩
  | .ping => exact Or.inl ⟨rfl, Or.inr rfl⟩
  | .pong => exact Or.inl ⟨rfl, Or.inr rfl⟩
  | .close => exact Or.inl ⟨rfl, Or.inr rfl⟩

/-- How a handshake ends: it fails before the subscribe message, or the message follows the first one received. -/
inductive HandshakeEnds (c : Connection) : Prop where
  | failed (log : List ConnectionEvent) (error : AppError)
      (result : ∀ subscribe, handshake subscribe c = (log, .error error))
      (silent : ∀ event ∈ log, event.isSubscribe = false) (checked : ¬ c.SkipsAck)
  | subscribed (message : Message) (reads : List SocketRead) (works : c.Works) (read : c.reads = .ok message :: reads)
      (accepted : message = .text (.ok .connectionAck) ∨ message.isText = false)
      (result : ∀ subscribe, handshake subscribe c =
        ([.sent .connectionInit, .received message, .sent subscribe], .ok reads))

theorem handshake_ends (c : Connection) : HandshakeEnds c := by
  obtain ⟨invalidUrl, connectFails, initFails, ackTimesOut, subscribeFails, reads⟩ := c
  cases invalidUrl with
  | some url => exact .failed _ _ (fun _ => rfl) (by simp) fun h => nomatch h.1.url
  | none =>
    cases connectFails with
    | some e => exact .failed _ _ (fun _ => rfl) (by simp) fun h => nomatch h.1.connected
    | none =>
      cases initFails with
      | some e => exact .failed _ _ (fun _ => rfl) (by simp) fun h => nomatch h.1.init
      | none =>
        cases ackTimesOut with
        | true => exact .failed _ _ (fun _ => rfl) (by simp [ConnectionEvent.isSubscribe]) fun h => nomatch h.1.read
        | false =>
          cases reads with
          | nil => exact .failed _ _ (fun _ => rfl) (by simp [ConnectionEvent.isSubscribe]) fun h => nomatch h.2
          | cons read reads =>
            cases read with
            | error e => exact .failed _ _ (fun _ => rfl) (by simp [ConnectionEvent.isSubscribe]) fun h => nomatch h.2
            | ok message =>
              rcases checkAck_cases message with ⟨hok, haccepted⟩ | ⟨⟨e, he⟩, htext⟩
              · cases subscribeFails with
                | some e =>
                  refine .failed [.sent .connectionInit, .received message]
                    (.upstreamError ("Failed to send subscribe: " ++ e)) (fun _ => ?_) ?_ fun h => nomatch h.1.subscribe
                  · simp only [handshake, hok]
                    rfl
                  · simp [ConnectionEvent.isSubscribe]
                | none =>
                  refine .subscribed message reads ⟨rfl, rfl, rfl, rfl, rfl⟩ rfl haccepted fun _ => ?_
                  simp only [handshake, hok]
                  rfl
              · refine .failed [.sent .connectionInit, .received message] e (fun _ => ?_) ?_ ?_
                · simp only [handshake, he]
                  rfl
                · simp [ConnectionEvent.isSubscribe]
                · rintro ⟨-, message', reads', hread, hskips⟩
                  obtain rfl := Except.ok.inj (List.cons.inj hread).1
                  rw [htext] at hskips
                  cases hskips

/-- After the subscribe message no other one is sent, so that the first message decides. -/
theorem subscribesAfterAck_subscribed_iff {message : Message} {reads : List SocketRead} (hworks : c.Works)
    (hread : c.reads = .ok message :: reads)
    (haccepted : message = .text (.ok .connectionAck) ∨ message.isText = false) {subscribe : ClientMessage}
    (hsubscribe : (ConnectionEvent.sent subscribe).isSubscribe = true) (rest : List ConnectionEvent) :
    SubscribesAfterAck ([.sent .connectionInit, .received message, .sent subscribe] ++ rest) ↔ ¬ c.SkipsAck := by
  rcases haccepted with rfl | hskips
  · refine iff_of_true ?_ ?_
    · simp [SubscribesAfterAck, ConnectionEvent.isSubscribe]
    · rintro ⟨-, message', reads', hread', hskips⟩
      obtain rfl := Except.ok.inj (List.cons.inj (hread.symm.trans hread')).1
      cases hskips
  · refine iff_of_false (fun h => ?_) fun h => h ⟨hworks, message, reads, hread, hskips⟩
    have hack : message ≠ .text (.ok .connectionAck) := by
      rintro rfl
      cases hskips
    have hsent := h (.sent subscribe) (by simp [hack])
    rw [hsubscribe] at hsent
    cases hsent

theorem subscribesAfterAck_handshake_iff (c : Connection) (subscribe : ClientMessage) {log : List ConnectionEvent}
    (hsubscribe : (ConnectionEvent.sent subscribe).isSubscribe = true)
    (hfailed : ∀ opening e, handshake subscribe c = (opening, .error e) → log = opening)
    (hsubscribed : ∀ opening reads, handshake subscribe c = (opening, .ok reads) → ∃ rest, log = opening ++ rest) :
    SubscribesAfterAck log ↔ ¬ c.SkipsAck := by
  cases handshake_ends c with
  | failed opening e hresult hsilent hchecked =>
    obtain rfl := hfailed opening e (hresult subscribe)
    exact iff_of_true (subscribesAfterAck_of_forall hsilent) hchecked
  | subscribed message reads hworks hread haccepted hresult =>
    obtain ⟨rest, rfl⟩ := hsubscribed _ reads (hresult subscribe)
    exact subscribesAfterAck_subscribed_iff hworks hread haccepted hsubscribe rest

end Handshake

/-! ## The two clients -/

/-- The socket as `fetch_merkle_updates` and `run_subscription` meet it once a handshake has been made. -/
def Connection.conversation (c : Connection) : UpstreamConversation :=
  ⟨(handshake .connectionInit c).2.map fun _ => (), c.reads.tail.map toFrame⟩

/-- Over a connection `fetch_merkle_updates` returns what it returns for the conversation. -/
theorem fetchOver_result (sessionId : String) (fromIndex toIndex : Int) (c : Connection) :
    (fetchOver sessionId fromIndex toIndex c).2 = fetchMerkleUpdates c.conversation fromIndex toIndex := by
  unfold fetchOver fetchMerkleUpdates Connection.conversation
  split_ifs with hge
  · rfl
  · cases handshake_ends c with
    | failed log e hresult hsilent hchecked =>
      rw [hresult, hresult]
      rfl
    | subscribed message reads hworks hread haccepted hresult =>
      rw [hresult, hresult, hread]
      rfl

def BackgroundEnv.toRunEnv (env : BackgroundEnv) : RunEnv :=
  ⟨env.session, env.indexFails, env.connection.conversation.opening, env.frames env.connection.reads.tail⟩

theorem runOver_report (env : BackgroundEnv) (s : CacheManagerState) :
    (runOver env s).2 = runSubscription env.toRunEnv s := by
  unfold runOver runSubscription
  show _ = match ensureSession env.session s with
    | (.error e, s') => _
    | (.ok session, s') => _
  rcases ensureSession env.session s with ⟨e | session, s'⟩
  · rfl
  · dsimp only [BackgroundEnv.toRunEnv]
    cases env.indexFails with
    | some e => rfl
    | none =>
      dsimp only [Connection.conversation]
      cases handshake_ends env.connection with
      | failed log e hresult hsilent hchecked =>
        rw [hresult, hresult]
        rfl
      | subscribed message reads hworks hread haccepted hresult =>
        rw [hresult, hresult, hread]
        rfl

theorem subscribesAfterAck_fetchOver (sessionId : String) (fromIndex toIndex : Int) (c : Connection) :
    SubscribesAfterAck (fetchOver sessionId fromIndex toIndex c).1 ↔ ¬ (fromIndex < toIndex ∧ c.SkipsAck) := by
  unfold fetchOver
  split_ifs with hge
  · exact iff_of_true subscribesAfterAck_nil fun h => absurd h.1 (not_lt.mpr hge)
  · rw [and_iff_right (not_le.mp hge)]
    refine subscribesAfterAck_handshake_iff c (.subscribe "merkle-fetch-1" sessionId fromIndex) rfl ?_ ?_
    · intro opening e h
      rw [h]
    · intro opening reads h
      rw [h]
      exact ⟨_, List.append_assoc _ _ _⟩

theorem subscribesAfterAck_runOver (env : BackgroundEnv) (s : CacheManagerState) :
    SubscribesAfterAck (runOver env s).1 ↔
      ¬ (env.session.Succeeds s ∧ env.indexFails = none ∧ env.connection.SkipsAck) := by
  unfold runOver
  rcases ensureSession_spec env.session s with ⟨hsucceeds, session, hsession, -⟩ | ⟨hfails, e, he⟩
  · rw [and_iff_right hsucceeds, ← Prod.mk.eta (p := ensureSession env.session s), hsession]
    dsimp only
    cases env.indexFails with
    | some e => exact iff_of_true subscribesAfterAck_nil fun h => nomatch h.1
    | none =>
      rw [and_iff_right rfl]
      dsimp only
      refine subscribesAfterAck_handshake_iff env.connection
        (.subscribe "merkle-cache-bg" session.sessionId (ensureSession env.session s).2.cache.highestEndIndex) rfl ?_ ?_
      · intro opening e h
        rw [h]
      · intro opening reads h
        rw [h]
        exact ⟨_, List.append_assoc _ _ _⟩
  · rw [← Prod.mk.eta (p := ensureSession env.session s), he]
    exact iff_of_true subscribesAfterAck_nil fun h => hfails h.1

/-- **Subscribing after the ack.** Over every connection both clients subscribe only after a `connection_ack`, exactly
where they do not get as far as the check of a first message that is no text. -/
theorem subscribesAfterAck_iff (sessionId : String) (fromIndex toIndex : Int) (c : Connection) (env : BackgroundEnv)
    (s : CacheManagerState) :
    (SubscribesAfterAck (fetchOver sessionId fromIndex toIndex c).1 ↔ ¬ (fromIndex < toIndex ∧ c.SkipsAck)) ∧
      (SubscribesAfterAck (runOver env s).1 ↔
        ¬ (env.session.Succeeds s ∧ env.indexFails = none ∧ env.connection.SkipsAck)) :=
  ⟨subscribesAfterAck_fetchOver sessionId fromIndex toIndex c, subscribesAfterAck_runOver env s⟩

namespace Sample

/-- A server that sends a WebSocket ping first, and its ack after that. -/
def pingFirst : Connection := ⟨none, none, none, false, none, [.ok .ping, .ok (.text (.ok .connectionAck))]⟩

/-- A run with a stored session over that connection. -/
def pingFirstRun : BackgroundEnv :=
  ⟨⟨none, fun _ => ("", .sendFailed ""), none⟩, none, pingFirst, fun _ => false, fun _ => 0⟩

end Sample

/-- After the ping both clients subscribe, before the ack. -/
theorem not_subscribesAfterAck_pingFirst :
    ¬ SubscribesAfterAck (fetchOver "aa" 0 5 Sample.pingFirst).1 ∧
      ¬ SubscribesAfterAck (runOver Sample.pingFirstRun ⟨some "aa", some "bb", .empty⟩).1 := by
  decide

end NocyWalletFeed
