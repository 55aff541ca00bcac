import NocyWalletFeed.Routes.Bootstrap

/-!
# `PUT /v1/session/{sessionId}/profile` (`routes/session.rs`)

`updateProfile` changes the dust key, the addresses and the nullifier preference of a session in one transaction, reads
the preference back and reports whether the addresses changed. The statements of the transaction are a list, so that a
failure is the position of a statement in it.
-/

namespace NocyWalletFeed
open Codec

structure UpdateProfileRequest where
  dustPublicKey : Option String
  unshieldedAddresses : Option (List String)
  nullifierStreaming : Option NullifierStreaming
  deriving DecidableEq, Repr

structure UpdateProfileResponse where
  success : Bool
  addressesChanged : Bool
  restartFromHeight : Option Int
  nullifierStreaming : NullifierStreaming
  deriving DecidableEq, Repr

/-- What a call meets: the statements that fail outside the transaction, and the position and the error of one that
fails inside. -/
structure UpdateEnv where
  existsFails : Option String
  beginFails : Option String
  statementFails : Option (Nat × String)
  commitFails : Option String
  readBackFails : Option String
  deriving DecidableEq, Repr

def UpdateEnv.success : UpdateEnv := ⟨none, none, none, none, none⟩

/-! ## Validation -/

structure ProfileChanges where
  dustPublicKey : Option Bytes
  unshieldedAddresses : Option (List Bytes)
  nullifierStreaming : Option NullifierStreaming
  deriving DecidableEq, Repr

def requireSessionExists (env : UpdateEnv) (db : Database) (sessionId : Bytes) : Except AppError Unit :=
  match env.existsFails with
  | some e => .error (.internalError ("Failed to check session existence: " ++ e))
  | none =>
    if (profileOf db sessionId).isNone then
      .error (.notFound ("Session " ++ hexEncode sessionId ++
        " not found. Use /bootstrap to create a session first."))
    else .ok ()

def validateChanges (req : UpdateProfileRequest) : Except AppError ProfileChanges := do
  let dustPublicKey ← req.dustPublicKey.mapM validateDustPublicKey
  let unshieldedAddresses ← req.unshieldedAddresses.mapM (·.mapM validateUnshieldedAddress)
  pure ⟨dustPublicKey, unshieldedAddresses, req.nullifierStreaming⟩

/-! ## The transaction -/

inductive ProfileStatement where
  | upsertDustKey (dustPublicKey : Bytes)
  | fetchAddresses
  | deleteAddresses
  | insertAddress (address : Bytes)
  | setNullifierStreaming (preference : NullifierStreaming)
  deriving DecidableEq, Repr

def profileStatements (c : ProfileChanges) : List ProfileStatement :=
  (c.dustPublicKey.map .upsertDustKey).toList ++
    (c.unshieldedAddresses.map fun addresses =>
      .fetchAddresses :: .deleteAddresses :: addresses.map .insertAddress).getD [] ++
    (c.nullifierStreaming.map .setNullifierStreaming).toList

def ProfileStatement.failure : ProfileStatement → String
  | .upsertDustKey _ => "Failed to upsert session profile: "
  | .fetchAddresses => "Failed to fetch existing addresses: "
  | .deleteAddresses => "Failed to delete existing addresses: "
  | .insertAddress _ => "Failed to insert unshielded address: "
  | .setNullifierStreaming _ => "Failed to update nullifier_streaming: "

/-- The upsert of `update_profile`: a row that exists keeps every column but the dust key. -/
def upsertDustPublicKey (db : Database) (sessionId dustPublicKey : Bytes) : Database :=
  db.upsertProfile ⟨sessionId, none, some dustPublicKey, "enabled"⟩
    (fun p => { p with dustPublicKey := some dustPublicKey }) (fun _ => rfl)

def ProfileStatement.exec (sessionId : Bytes) (db : Database) : ProfileStatement → Database
  | .upsertDustKey dustPublicKey => upsertDustPublicKey db sessionId dustPublicKey
  | .fetchAddresses => db
  | .deleteAddresses => db.deleteAddresses sessionId
  | .insertAddress address => db.insertAddress sessionId address
  | .setNullifierStreaming preference => db.setNullifierStreaming sessionId preference.asDbStr

def failingStatement (statements : List ProfileStatement) (fails : Option (Nat × String)) :
    Option (ProfileStatement × String) :=
  fails.bind fun (position, e) => statements[position]?.map fun statement => (statement, e)

/-- `existing_set != new_set` -/
def addressesDiffer (existing addresses : List Bytes) : Bool :=
  !(existing.all addresses.contains && addresses.all existing.contains)

def readBack (env : UpdateEnv) (db : Database) (sessionId : Bytes) : Except AppError NullifierStreaming :=
  match env.readBackFails with
  | some e => .error (.internalError ("Failed to fetch nullifier_streaming: " ++ e))
  | none =>
    match profileOf db sessionId with
    | none =>
      .error (.internalError ("Failed to fetch nullifier_streaming: " ++
        "no rows returned by a query that expected to return at least one row"))
    | some p => .ok ((NullifierStreaming.fromDbStr p.nullifierStreaming).getD default)

/-- The response of a call that has found `existing` addresses. -/
def updateResponse (c : ProfileChanges) (existing : List Bytes) (preference : NullifierStreaming) :
    UpdateProfileResponse :=
  let addressesChanged := (c.unshieldedAddresses.map (addressesDiffer existing)).getD false
  ⟨true, addressesChanged, if addressesChanged then some 0 else none, preference⟩

def applyChanges (sessionId : Bytes) (c : ProfileChanges) (db : Database) : Database :=
  (profileStatements c).foldl (ProfileStatement.exec sessionId) db

/-- Update session profile: upsert the dust key and replace the unshielded addresses. -/
def updateProfile (env : UpdateEnv) (db : Database) (sessionId : String) (req : UpdateProfileRequest) :
    Except AppError UpdateProfileResponse × Database :=
  match parseSessionId sessionId with
  | .error e => (.error e, db)
  | .ok sessionIdBytes =>
    match requireSessionExists env db sessionIdBytes with
    | .error e => (.error e, db)
    | .ok () =>
      match validateChanges req with
      | .error e => (.error e, db)
      | .ok c =>
        match env.beginFails with
        | some e => (.error (.internalError ("Failed to start transaction: " ++ e)), db)
        | none =>
          match failingStatement (profileStatements c) env.statementFails with
          | some (statement, e) => (.error (.internalError (statement.failure ++ e)), db)
          | none =>
            match env.commitFails with
            | some e => (.error (.internalError ("Failed to commit transaction: " ++ e)), db)
            | none =>
              let db' := applyChanges sessionIdBytes c db
              -- the changes are committed; a failure from here on does not undo them
              match readBack env db' sessionIdBytes with
              | .error e => (.error e, db')
              | .ok preference => (.ok (updateResponse c (sessionAddresses db sessionIdBytes) preference), db')

end NocyWalletFeed
