import NocyWalletFeed.Routes.Session
import NocyWalletFeed.Db

/-!
# Writes to the session tables (`routes/session.rs`)

The statements that change `session_profile` and `session_unshielded_address`. Each keeps the keys of the two tables, so
it leads from one `Database` to another, with every other table left alone.

* `upsertProfile` : `INSERT … ON CONFLICT (session_id) DO UPDATE`;
* `insertAddress` : `INSERT … ON CONFLICT (session_id, address) DO NOTHING`;
* `deleteAddresses` : `DELETE … WHERE session_id = …`;
* `setNullifierStreaming` : `UPDATE … SET nullifier_streaming = … WHERE session_id = …`.
-/

namespace NocyWalletFeed
open Codec Relational

/-- The row of a session, where there is one. -/
def profileOf (db : Database) (sessionId : Bytes) : Option SessionProfileRow :=
  db.sessionProfile.find? (fun p => p.sessionId = sessionId)

theorem dustPublicKey_eq_profileOf (db : Database) (sessionId : Bytes) :
    dustPublicKey db sessionId = (profileOf db sessionId).bind (·.dustPublicKey) := by
  have hle := length_filter_key_le_one (p := fun p : SessionProfileRow => p.sessionId = sessionId)
    db.constraints.profileSessions (fun _ _ _ _ ha hb => (of_decide_eq_true ha).trans (of_decide_eq_true hb).symm)
  have hselect : db.sessionProfile.find? (fun p => p.sessionId = sessionId ∧ p.dustPublicKey.isSome) =
      (db.sessionProfile.filter (fun p => p.sessionId = sessionId)).find? (fun p => p.dustPublicKey.isSome) := by
    rw [List.find?_filter]
    simp only [decide_eq_true_eq]
  have hprofile : profileOf db sessionId =
      (db.sessionProfile.filter (fun p => p.sessionId = sessionId)).head? := List.head?_filter.symm
  unfold dustPublicKey
  rw [hselect, hprofile]
  cases hrows : db.sessionProfile.filter (fun p => p.sessionId = sessionId) with
  | nil => rfl
  | cons p rows =>
    rw [hrows, List.length_cons] at hle
    obtain rfl : rows = [] := List.length_eq_zero_iff.mp (by omega)
    cases hkey : p.dustPublicKey <;> simp [hkey]

/-! ## Rows -/

def updateRows (sessionId : Bytes) (update : SessionProfileRow → SessionProfileRow) (rows : List SessionProfileRow) :
    List SessionProfileRow :=
  rows.map (fun p => if p.sessionId = sessionId then update p else p)

/-- A row that conflicts is updated, else the new one is inserted. -/
def upsertRows (inserted : SessionProfileRow) (update : SessionProfileRow → SessionProfileRow)
    (rows : List SessionProfileRow) : List SessionProfileRow :=
  if rows.any (fun p => p.sessionId = inserted.sessionId) then updateRows inserted.sessionId update rows
  else rows ++ [inserted]

section Rows
variable {sessionId : Bytes} {inserted : SessionProfileRow} {update : SessionProfileRow → SessionProfileRow}
  {rows : List SessionProfileRow}

theorem map_sessionId_updateRows (hupdate : ∀ p, (update p).sessionId = p.sessionId) :
    (updateRows sessionId update rows).map (·.sessionId) = rows.map (·.sessionId) := by
  rw [updateRows, List.map_map]
  refine List.map_congr_left fun p _ => ?_
  show (if p.sessionId = sessionId then update p else p).sessionId = p.sessionId
  split_ifs with h
  · exact hupdate p
  · rfl

theorem nodup_updateRows (hupdate : ∀ p, (update p).sessionId = p.sessionId) (h : (rows.map (·.sessionId)).Nodup) :
    ((updateRows sessionId update rows).map (·.sessionId)).Nodup := by
  rw [map_sessionId_updateRows hupdate]
  exact h

theorem nodup_upsertRows (hupdate : ∀ p, (update p).sessionId = p.sessionId) (h : (rows.map (·.sessionId)).Nodup) :
    ((upsertRows inserted update rows).map (·.sessionId)).Nodup := by
  unfold upsertRows
  split_ifs with hany
  · exact nodup_updateRows hupdate h
  · rw [List.map_append]
    refine h.append (List.nodup_singleton _) fun id hid hid' => hany ?_
    obtain ⟨p, hp, rfl⟩ := List.mem_map.mp hid
    exact List.any_eq_true.mpr ⟨p, hp, decide_eq_true (List.mem_singleton.mp hid')⟩

theorem find?_updateRows (hupdate : ∀ p, (update p).sessionId = p.sessionId) (id : Bytes) :
    (updateRows sessionId update rows).find? (fun p => p.sessionId = id) =
      (rows.find? (fun p => p.sessionId = id)).map (fun p => if id = sessionId then update p else p) := by
  induction rows with
  | nil => rfl
  | cons p rows ih =>
    show ((if p.sessionId = sessionId then update p else p) :: updateRows sessionId update rows).find? _ = _
    have hid : (if p.sessionId = sessionId then update p else p).sessionId = p.sessionId := by
      split_ifs
      · exact hupdate p
      · rfl
    rw [List.find?_cons, List.find?_cons, hid, ih]
    by_cases h : p.sessionId = id
    · simp [h]
    · simp [h]

theorem find?_upsertRows (hupdate : ∀ p, (update p).sessionId = p.sessionId) (id : Bytes) :
    (upsertRows inserted update rows).find? (fun p => p.sessionId = id) =
      if id = inserted.sessionId then some (((rows.find? (fun p => p.sessionId = id)).map update).getD inserted)
      else rows.find? (fun p => p.sessionId = id) := by
  unfold upsertRows
  split_ifs with hany hid hid
  · subst hid
    obtain ⟨p, hp, heq⟩ := List.any_eq_true.mp hany
    obtain ⟨q, hq⟩ : ∃ q, rows.find? (fun p => p.sessionId = inserted.sessionId) = some q :=
      Option.isSome_iff_exists.mp (List.find?_isSome.mpr ⟨p, hp, heq⟩)
    rw [find?_updateRows hupdate, hq]
    simp
  · rw [find?_updateRows hupdate]
    simp [hid]
  · subst hid
    have hnone : rows.find? (fun p => p.sessionId = inserted.sessionId) = none := by
      rw [List.find?_eq_none]
      exact fun p hp heq => hany (List.any_eq_true.mpr ⟨p, hp, heq⟩)
    rw [List.find?_append, hnone]
    simp
  · rw [List.find?_append]
    simp [Ne.symm hid]

end Rows

/-! ## Statements -/

namespace Database

/-- The same tables with other session rows. -/
def withSessions (db : Database) (profiles : List SessionProfileRow) (addresses : List SessionUnshieldedAddressRow)
    (hprofiles : (profiles.map (·.sessionId)).Nodup) (haddresses : addresses.Nodup) : Database where
  toTables := { db.toTables with sessionProfile := profiles, sessionUnshieldedAddress := addresses }
  constraints :=
    { blockIds := db.constraints.blockIds
      blockHeights := db.constraints.blockHeights
      transactionIds := db.constraints.transactionIds
      regularTransactionIds := db.constraints.regularTransactionIds
      ledgerEventIds := db.constraints.ledgerEventIds
      contractActionIds := db.constraints.contractActionIds
      unshieldedUtxoIds := db.constraints.unshieldedUtxoIds
      walletIds := db.constraints.walletIds
      walletSessions := db.constraints.walletSessions
      profileSessions := hprofiles
      addresses := haddresses
      blockHeightWide := db.constraints.blockHeightWide
      transactionIdWide := db.constraints.transactionIdWide
      ledgerEventIdWide := db.constraints.ledgerEventIdWide
      unshieldedUtxoIdWide := db.constraints.unshieldedUtxoIdWide }

variable (db : Database)

theorem withSessions_eq_self {profiles : List SessionProfileRow} {addresses : List SessionUnshieldedAddressRow}
    {hprofiles : (profiles.map (·.sessionId)).Nodup} {haddresses : addresses.Nodup} (h : profiles = db.sessionProfile)
    (h' : addresses = db.sessionUnshieldedAddress) : db.withSessions profiles addresses hprofiles haddresses = db := by
  subst h h'
  rfl

def upsertProfile (inserted : SessionProfileRow) (update : SessionProfileRow → SessionProfileRow)
    (hupdate : ∀ p, (update p).sessionId = p.sessionId) : Database :=
  db.withSessions (upsertRows inserted update db.sessionProfile) db.sessionUnshieldedAddress
    (nodup_upsertRows hupdate db.constraints.profileSessions) db.constraints.addresses

def setNullifierStreaming (sessionId : Bytes) (preference : String) : Database :=
  db.withSessions (updateRows sessionId (fun p => { p with nullifierStreaming := preference }) db.sessionProfile)
    db.sessionUnshieldedAddress (nodup_updateRows (fun _ => rfl) db.constraints.profileSessions)
    db.constraints.addresses

def deleteAddresses (sessionId : Bytes) : Database :=
  db.withSessions db.sessionProfile (db.sessionUnshieldedAddress.filter (fun a => a.sessionId ≠ sessionId))
    db.constraints.profileSessions (db.constraints.addresses.filter _)

def insertAddress (sessionId address : Bytes) : Database :=
  if h : ⟨sessionId, address⟩ ∈ db.sessionUnshieldedAddress then db
  else
    db.withSessions db.sessionProfile (db.sessionUnshieldedAddress ++ [⟨sessionId, address⟩])
      db.constraints.profileSessions
      (db.constraints.addresses.append (List.nodup_singleton _) fun _ ha ha' => h (List.mem_singleton.mp ha' ▸ ha))

/-! What each statement changes. -/

@[simp] theorem sessionProfile_insertAddress (sessionId address : Bytes) :
    (db.insertAddress sessionId address).sessionProfile = db.sessionProfile := by
  unfold insertAddress
  split_ifs <;> rfl

@[simp] theorem sessionProfile_deleteAddresses (sessionId : Bytes) :
    (db.deleteAddresses sessionId).sessionProfile = db.sessionProfile := rfl

@[simp] theorem profileOf_insertAddress (sessionId address id : Bytes) :
    profileOf (db.insertAddress sessionId address) id = profileOf db id := by
  rw [profileOf, sessionProfile_insertAddress, profileOf]

@[simp] theorem profileOf_deleteAddresses (sessionId id : Bytes) :
    profileOf (db.deleteAddresses sessionId) id = profileOf db id := rfl

theorem profileOf_upsertProfile (inserted : SessionProfileRow) {update : SessionProfileRow → SessionProfileRow}
    (hupdate : ∀ p, (update p).sessionId = p.sessionId) (id : Bytes) :
    profileOf (db.upsertProfile inserted update hupdate) id =
      if id = inserted.sessionId then some (((profileOf db id).map update).getD inserted) else profileOf db id :=
  find?_upsertRows hupdate id

/-- An upsert that finds its row as it would leave it changes nothing. -/
theorem upsertProfile_eq_self {inserted : SessionProfileRow} {update : SessionProfileRow → SessionProfileRow}
    {hupdate : ∀ p, (update p).sessionId = p.sessionId} {p : SessionProfileRow}
    (hp : profileOf db inserted.sessionId = some p) (hsame : update p = p) :
    db.upsertProfile inserted update hupdate = db := by
  refine db.withSessions_eq_self ?_ rfl
  have hid : p.sessionId = inserted.sessionId := by simpa using List.find?_some hp
  have hmem : p ∈ db.sessionProfile := List.mem_of_find?_eq_some hp
  have hany : db.sessionProfile.any (fun p => p.sessionId = inserted.sessionId) = true :=
    List.any_eq_true.mpr ⟨p, hmem, decide_eq_true hid⟩
  rw [upsertRows, if_pos hany, updateRows]
  refine (List.map_congr_left fun q hq => ?_).trans (List.map_id _)
  split_ifs with hq'
  · obtain rfl : q = p := eq_of_key_eq db.constraints.profileSessions hq hmem (hq'.trans hid.symm)
    exact hsame
  · rfl

theorem profileOf_setNullifierStreaming (sessionId : Bytes) (preference : String) (id : Bytes) :
    profileOf (db.setNullifierStreaming sessionId preference) id =
      (profileOf db id).map (fun p => if id = sessionId then { p with nullifierStreaming := preference } else p) :=
  find?_updateRows (by intro p; rfl) id

end Database

theorem mem_sessionAddresses {db : Database} {sessionId a : Bytes} :
    a ∈ sessionAddresses db sessionId ↔ ⟨sessionId, a⟩ ∈ db.sessionUnshieldedAddress := by
  unfold sessionAddresses
  constructor
  · intro h
    obtain ⟨⟨id, address⟩, hrow, rfl⟩ := List.mem_map.mp h
    obtain ⟨hmem, hid⟩ := List.mem_filter.mp hrow
    obtain rfl : id = sessionId := of_decide_eq_true hid
    exact hmem
  · exact fun h => List.mem_map.mpr ⟨_, List.mem_filter.mpr ⟨h, decide_eq_true rfl⟩, rfl⟩

namespace Database
variable (db : Database)

@[simp] theorem mem_sessionAddresses_insertAddress {sessionId address id a : Bytes} :
    a ∈ sessionAddresses (db.insertAddress sessionId address) id ↔
      a ∈ sessionAddresses db id ∨ (id = sessionId ∧ a = address) := by
  rw [mem_sessionAddresses, mem_sessionAddresses]
  unfold insertAddress
  split_ifs with h
  · constructor
    · exact Or.inl
    · rintro (hmem | ⟨rfl, rfl⟩)
      · exact hmem
      · exact h
  · show _ ∈ db.sessionUnshieldedAddress ++ [_] ↔ _
    rw [List.mem_append, List.mem_singleton, SessionUnshieldedAddressRow.mk.injEq]

@[simp] theorem mem_sessionAddresses_deleteAddresses {sessionId id a : Bytes} :
    a ∈ sessionAddresses (db.deleteAddresses sessionId) id ↔ a ∈ sessionAddresses db id ∧ id ≠ sessionId := by
  rw [mem_sessionAddresses, mem_sessionAddresses]
  show _ ∈ db.sessionUnshieldedAddress.filter _ ↔ _
  rw [List.mem_filter, decide_eq_true_eq]

end Database

end NocyWalletFeed
