import NocyWalletFeed.SessionTables
import NocyWalletFeed.Upstream

/-!
# `POST /v1/session/bootstrap` and `/disconnect` (`routes/session.rs`)

A handler is a function of the `World` it finds: the database, the keepalive tasks and the sessions the upstream has
connected. It returns its result and the world it leaves. What it meets on the way is its input: what the upstream
answers and which statements fail. The libraries it calls (bech32, BLAKE3) and the upstream session of a viewing key are
fields of `SessionState`.
-/

namespace NocyWalletFeed
open Codec

/-! ## Credentials -/

/-- The `bech32` functions; `encode` is that of the variant `Bech32m`. -/
structure Bech32 where
  toBase32 : Bytes → List (Fin 32)
  fromBase32 : List (Fin 32) → Option Bytes
  encode : String → List (Fin 32) → Option String
  decode : String → Option (String × List (Fin 32) × Bool)

def VIEWING_KEY_HRP_UNDEPLOYED : String := "mn_shield-esk_undeployed"

/-- The characters `str::trim` drops at either end. -/
def isWhiteSpace (c : Char) : Bool :=
  let n := c.toNat
  (9 ≤ n && n ≤ 13) || n == 0x20 || n == 0x85 || n == 0xa0 || n == 0x1680 || (0x2000 ≤ n && n ≤ 0x200a) ||
    n == 0x2028 || n == 0x2029 || n == 0x202f || n == 0x205f || n == 0x3000

/-- `str::trim` -/
def trim (text : String) : String :=
  String.ofList ((text.toList.dropWhile isWhiteSpace).reverse.dropWhile isWhiteSpace).reverse

/-- `strip_prefix("0x").unwrap_or(value)` -/
def strip0x (value : String) : String :=
  match value.toList with
  | '0' :: 'x' :: rest => String.ofList rest
  | _ => value

def isHex32Bytes (value : String) : Bool :=
  (strip0x value).utf8ByteSize == 64 && (strip0x value).toList.all (fun c => (hexValue c).isSome)

/-- Normalize a viewing key for the undeployed network: bech32m, or 32 bytes of hex with an optional `0x`. -/
def normalizeViewingKey (bech32 : Bech32) (viewingKey : String) : Except AppError String :=
  let viewingKey := trim viewingKey
  if viewingKey.isEmpty then .error (.badRequest "viewing_key is required")
  else if isHex32Bytes viewingKey then
    match hexDecode (strip0x viewingKey) with
    | none => .error (.badRequest "viewing_key must be valid hex")
    | some bytes =>
      if bytes.length ≠ 32 then .error (.badRequest "viewing_key must be 32 bytes (64 hex chars)")
      else
        match bech32.encode VIEWING_KEY_HRP_UNDEPLOYED (bech32.toBase32 bytes) with
        | none => .error (.badRequest "viewing_key must be bech32m or 32-byte hex")
        | some encoded => .ok encoded
  else
    match bech32.decode viewingKey with
    | none => .error (.badRequest "viewing_key must be bech32m or 32-byte hex")
    | some (hrp, data, isBech32m) =>
      if hrp.map Char.toLower ≠ VIEWING_KEY_HRP_UNDEPLOYED then
        .error (.badRequest ("viewing_key HRP must be '" ++ VIEWING_KEY_HRP_UNDEPLOYED ++ "'"))
      else if !isBech32m then .error (.badRequest "viewing_key must be bech32m")
      else
        match bech32.fromBase32 data with
        | none => .error (.badRequest "viewing_key must be bech32m")
        | some bytes =>
          match bech32.encode VIEWING_KEY_HRP_UNDEPLOYED (bech32.toBase32 bytes) with
          | none => .error (.badRequest "viewing_key must be bech32m")
          | some encoded => .ok encoded

/-- Validate and decode a hex-encoded field of `size` bytes. -/
def validateHexField (field : String) (size : Nat) (text : String) : Except AppError Bytes :=
  match hexDecode text with
  | none => .error (.badRequest (field ++ " must be valid hex"))
  | some bytes =>
    if bytes.length ≠ size then
      .error (.badRequest (field ++ " must be " ++ toString size ++ " bytes (" ++ toString (size * 2) ++
        " hex chars), got " ++ toString bytes.length ++ " bytes"))
    else .ok bytes

/-- Expected dust public key length in bytes. -/
def DUST_PUBLIC_KEY_BYTES : Nat := 32

/-- Expected unshielded address length in bytes. -/
def UNSHIELDED_ADDRESS_BYTES : Nat := 32

def validateDustPublicKey (dustKey : String) : Except AppError Bytes :=
  validateHexField "dust_public_key" DUST_PUBLIC_KEY_BYTES dustKey

def validateUnshieldedAddress (address : String) : Except AppError Bytes :=
  validateHexField "unshielded address" UNSHIELDED_ADDRESS_BYTES address

/-! ## Session ids -/

/-- BLAKE3 in keyed mode. -/
structure Blake3 where
  keyedHash : Bytes → Bytes → Bytes
  length_keyedHash : ∀ key message, (keyedHash key message).length = SESSION_ID_BYTES

/-- What the handlers share, with the libraries they call; `upstream` is the session the upstream has for a viewing
key. -/
structure SessionState where
  bech32 : Bech32
  blake3 : Blake3
  hexError : String → String
  serverSecret : Bytes
  upstream : String → Bytes

/-- A field of the hashed message: a presence marker and the value. -/
def markedField : Option Bytes → Bytes
  | some value => 1 :: value
  | none => [0]

/-- Generate a deterministic session ID from wallet credentials and server secret. -/
def generateSessionId (state : SessionState) (viewingKey : String) (dustPublicKey unshieldedAddress : Option Bytes) :
    Bytes :=
  state.blake3.keyedHash state.serverSecret
    (viewingKey.toUTF8.data.toList ++ markedField dustPublicKey ++ markedField unshieldedAddress)

/-! ## Bootstrap -/

structure BootstrapRequest where
  viewingKey : String
  dustPublicKey : String
  unshieldedAddress : String
  nullifierStreaming : Option NullifierStreaming
  deriving DecidableEq, Repr

def NullifierStreaming.asDbStr : NullifierStreaming → String
  | .enabled => "enabled"
  | .disabled => "disabled"

structure Credentials where
  viewingKey : String
  dustPublicKey : Bytes
  unshieldedAddress : Bytes
  deriving DecidableEq, Repr

/-- Step 1: validate all credentials. -/
def validateCredentials (state : SessionState) (req : BootstrapRequest) : Except AppError Credentials := do
  let viewingKey ← normalizeViewingKey state.bech32 req.viewingKey
  let dustPublicKey ← validateDustPublicKey req.dustPublicKey
  let unshieldedAddress ← validateUnshieldedAddress req.unshieldedAddress
  pure ⟨viewingKey, dustPublicKey, unshieldedAddress⟩

/-- Step 2: the session of the credentials. -/
def Credentials.sessionId (state : SessionState) (c : Credentials) : Bytes :=
  generateSessionId state c.viewingKey (some c.dustPublicKey) (some c.unshieldedAddress)

/-- What a handler finds and leaves. -/
structure World where
  db : Database
  tasks : KeepaliveTasks
  connected : Upstreams

/-- What a call of `bootstrap` meets: the reply to the connect request, whether the upstream has carried the request out
where the reply does not tell, the statements that fail, and whether a `COMMIT` that fails has been carried out all the
same: its reply may be what is lost. -/
structure BootstrapEnv where
  connect : GraphqlReply String
  connectTakesEffect : Bool
  beginFails : Option String
  upsertFails : Option String
  insertFails : Option String
  commitFails : Option String
  commitTakesEffect : Bool
  deriving DecidableEq, Repr

def BootstrapEnv.success (upstreamSessionId : String) : BootstrapEnv :=
  ⟨.response (some upstreamSessionId) none, true, none, none, none, none, true⟩

def decodeUpstreamSessionId (state : SessionState) (upstreamSessionId : String) : Except AppError Bytes :=
  match hexDecode upstreamSessionId with
  | none => .error (.upstreamError ("Upstream returned invalid session_id hex: " ++ state.hexError upstreamSessionId))
  | some bytes =>
    if bytes.length ≠ SESSION_ID_BYTES then
      .error (.upstreamError ("Upstream returned invalid session_id length: expected " ++ toString SESSION_ID_BYTES ++
        " bytes, got " ++ toString bytes.length))
    else .ok bytes

/-- The upsert of `bootstrap`: every column but the key is overwritten. -/
def upsertBootstrapProfile (db : Database) (row : SessionProfileRow) : Database :=
  db.upsertProfile row
    (fun p => { p with
      upstreamSessionId := row.upstreamSessionId
      dustPublicKey := row.dustPublicKey
      nullifierStreaming := row.nullifierStreaming })
    (fun _ => rfl)

def persistBootstrap (state : SessionState) (c : Credentials) (upstreamSessionId : Bytes)
    (preference : NullifierStreaming) (db : Database) : Database :=
  (upsertBootstrapProfile db
    ⟨c.sessionId state, some upstreamSessionId, some c.dustPublicKey, preference.asDbStr⟩).insertAddress
    (c.sessionId state) c.unshieldedAddress

/-- The world after the connect request: an answer with data means that the session is connected. -/
def World.connect (state : SessionState) (viewingKey : String) (env : BootstrapEnv) (w : World) : World :=
  match UpstreamClient.connect env.connect with
  | .ok _ => { w with connected := insert (state.upstream viewingKey) w.connected }
  | .error _ =>
    if env.connectTakesEffect then { w with connected := insert (state.upstream viewingKey) w.connected } else w

/-- Bootstrap a new session with all wallet credentials; the result is the local session id. -/
def bootstrap (state : SessionState) (req : BootstrapRequest) (env : BootstrapEnv) (w : World) :
    Except AppError String × World :=
  match validateCredentials state req with
  | .error e => (.error e, w)
  | .ok c =>
    let w := w.connect state c.viewingKey env
    match UpstreamClient.connect env.connect with
    | .error e => (.error e, w)
    | .ok upstreamSessionId =>
      match decodeUpstreamSessionId state upstreamSessionId with
      | .error e => (.error e, w)
      | .ok upstreamSessionIdBytes =>
        match env.beginFails with
        | some e => (.error (.internalError ("Failed to start transaction: " ++ e)), w)
        | none =>
          match env.upsertFails with
          -- the only failure that disconnects what the call has connected
          | some e => (.error (.internalError ("Failed to persist session profile: " ++ e)),
              { w with connected := Upstreams.disconnect upstreamSessionId w.connected })
          | none =>
            match env.insertFails with
            | some e => (.error (.internalError ("Failed to persist unshielded address: " ++ e)), w)
            | none =>
              let db := persistBootstrap state c upstreamSessionIdBytes (req.nullifierStreaming.getD default) w.db
              match env.commitFails with
              | some e => (.error (.internalError ("Failed to commit transaction: " ++ e)),
                  if env.commitTakesEffect then { w with db := db } else w)
              | none =>
                (.ok (hexEncode (c.sessionId state)),
                  { w with db := db, tasks := KeepaliveTasks.start upstreamSessionId w.tasks })

/-! ## Disconnect -/

/-- What a call of `disconnect` meets: the lookup may fail, and the upstream replies. -/
structure DisconnectEnv where
  lookupFails : Option String
  reply : GraphqlReply Unit
  deriving DecidableEq, Repr

def DisconnectEnv.success : DisconnectEnv := ⟨none, .response (some ()) none⟩

/-- Stop the keepalive of an upstream session and disconnect it. -/
def World.release (upstreamSessionId : String) (w : World) : World :=
  { w with
    tasks := KeepaliveTasks.stop upstreamSessionId w.tasks
    connected := Upstreams.disconnect upstreamSessionId w.connected }

/-- Disconnect a session from the sidecar and upstream indexer; the result is `success`. -/
def disconnect (sessionId : String) (env : DisconnectEnv) (w : World) : Except AppError Bool × World :=
  match parseSessionId sessionId with
  | .error e => (.error e, w)
  | .ok sessionIdBytes =>
    match env.lookupFails with
    | some e => (.error (.internalError ("Failed to look up upstream session: " ++ e)), w)
    | none =>
      match (profileOf w.db sessionIdBytes).map (·.upstreamSessionId) with
      | some (some upstreamSessionId) =>
        if upstreamSessionId.length ≠ SESSION_ID_BYTES then (.ok true, w)
        else (UpstreamClient.disconnect env.reply, w.release (hexEncode upstreamSessionId))
      | some none => (.ok true, w)
      | none => (.ok true, w)

end NocyWalletFeed
