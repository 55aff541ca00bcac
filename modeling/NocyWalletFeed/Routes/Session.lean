import NocyWalletFeed.Database

/-!
# Session parameters (`routes/session.rs`)

The part of the session module the feed depends on: parsing a session id and the nullifier streaming preference.
-/

namespace NocyWalletFeed
open Codec

/-- Session ID is a 32-byte SHA256 hash, hex-encoded (64 chars). -/
def SESSION_ID_BYTES : Nat := 32

/-- Parse and validate a session ID (hex-encoded 32 bytes). -/
def parseSessionId (sessionId : String) : Except AppError Bytes :=
  match hexDecode sessionId with
  | none => .error (.badRequest "session_id must be valid hex")
  | some bytes =>
    if bytes.length ≠ SESSION_ID_BYTES then
      .error (.badRequest ("session_id must be " ++ toString SESSION_ID_BYTES ++ " bytes (" ++
        toString (SESSION_ID_BYTES * 2) ++ " hex chars), got " ++ toString bytes.length ++ " bytes"))
    else .ok bytes

inductive NullifierStreaming where
  | enabled
  | disabled
  deriving DecidableEq, Repr

/-- The `#[default]` of the enum. -/
instance : Inhabited NullifierStreaming := ⟨.enabled⟩

def NullifierStreaming.fromDbStr : String → Option NullifierStreaming
  | "enabled" => some .enabled
  | "disabled" => some .disabled
  | _ => none

/-- The preference stored for a session, `enabled` where there is none. -/
def getSessionNullifierStreaming (db : Database) (sessionId : String) : Except AppError NullifierStreaming := do
  let sessionIdBytes ← parseSessionId sessionId
  let result := (db.sessionProfile.find? (fun p => p.sessionId = sessionIdBytes)).map (·.nullifierStreaming)
  pure ((result.bind NullifierStreaming.fromDbStr).getD default)

theorem parseSessionId_hexEncode {bytes : Bytes} (h : bytes.length = SESSION_ID_BYTES) :
    parseSessionId (hexEncode bytes) = .ok bytes := by
  simp [parseSessionId, hexDecode_hexEncode, h]

end NocyWalletFeed
