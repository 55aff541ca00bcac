import NocyWalletFeed.Credentials
import NocyWalletFeed.RestartSignal

/-!
# A profile update replaces what it was asked to

* `OnlySession` : two databases differ at most in the profile and the addresses of one session;
* `onlySession_exec`, `onlySession_applyChanges` : a statement, and the transaction, keep to their session;
* `validateChanges_ok` : the changes of a request, from its texts;
* `ReplacesProfile`, `updateProfile_replaces` : what a call that succeeds returns and leaves.
-/

namespace NocyWalletFeed
open Codec

/-! ## Frames -/

/-- The databases differ at most in the rows of one session. -/
structure OnlySession (sessionId : Bytes) (db db' : Database) : Prop where
  tables : db'.toTables = { db.toTables with
    sessionProfile := db'.sessionProfile
    sessionUnshieldedAddress := db'.sessionUnshieldedAddress }
  profiles : db'.sessionProfile.filter (fun p => p.sessionId ≠ sessionId) =
    db.sessionProfile.filter (fun p => p.sessionId ≠ sessionId)
  addresses : db'.sessionUnshieldedAddress.filter (fun a => a.sessionId ≠ sessionId) =
    db.sessionUnshieldedAddress.filter (fun a => a.sessionId ≠ sessionId)

section Frames
variable {sessionId : Bytes} {db db' db'' : Database}

theorem OnlySession.refl (sessionId : Bytes) (db : Database) : OnlySession sessionId db db := ⟨rfl, rfl, rfl⟩

theorem OnlySession.trans (h : OnlySession sessionId db db') (h' : OnlySession sessionId db' db'') :
    OnlySession sessionId db db'' where
  tables := by rw [h'.tables, h.tables]
  profiles := h'.profiles.trans h.profiles
  addresses := h'.addresses.trans h.addresses

theorem filter_updateRows {update : SessionProfileRow → SessionProfileRow}
    (hupdate : ∀ p, (update p).sessionId = p.sessionId) (rows : List SessionProfileRow) :
    (updateRows sessionId update rows).filter (fun p => p.sessionId ≠ sessionId) =
      rows.filter (fun p => p.sessionId ≠ sessionId) := by
  induction rows with
  | nil => rfl
  | cons p rows ih =>
    show ((if p.sessionId = sessionId then update p else p) :: updateRows sessionId update rows).filter _ = _
    by_cases h : p.sessionId = sessionId
    · rw [if_pos h, List.filter_cons_of_neg (by simp [hupdate, h]), List.filter_cons_of_neg (by simp [h]), ih]
    · rw [if_neg h, List.filter_cons_of_pos (by simp [h]), List.filter_cons_of_pos (by simp [h]), ih]

theorem filter_upsertRows (inserted : SessionProfileRow) {update : SessionProfileRow → SessionProfileRow}
    (hupdate : ∀ p, (update p).sessionId = p.sessionId) (rows : List SessionProfileRow) :
    (upsertRows inserted update rows).filter (fun p => p.sessionId ≠ inserted.sessionId) =
      rows.filter (fun p => p.sessionId ≠ inserted.sessionId) := by
  unfold upsertRows
  split_ifs with hany
  · exact filter_updateRows hupdate rows
  · simp

theorem onlySession_insertAddress (address : Bytes) :
    OnlySession sessionId db (db.insertAddress sessionId address) := by
  unfold Database.insertAddress
  split_ifs
  · exact OnlySession.refl sessionId db
  · refine ⟨rfl, rfl, ?_⟩
    show (db.sessionUnshieldedAddress ++ [_]).filter _ = _
    simp

theorem onlySession_exec (statement : ProfileStatement) : OnlySession sessionId db (statement.exec sessionId db) := by
  cases statement with
  | upsertDustKey dustPublicKey =>
    exact ⟨rfl, filter_upsertRows ⟨sessionId, none, some dustPublicKey, "enabled"⟩ (by intro p; rfl)
      db.sessionProfile, rfl⟩
  | fetchAddresses => exact OnlySession.refl sessionId db
  | deleteAddresses =>
    refine ⟨rfl, rfl, ?_⟩
    show (db.sessionUnshieldedAddress.filter _).filter _ = _
    rw [List.filter_filter]
    simp
  | insertAddress address => exact onlySession_insertAddress address
  | setNullifierStreaming preference => exact ⟨rfl, filter_updateRows (by intro p; rfl) db.sessionProfile, rfl⟩

theorem onlySession_applyChanges (c : ProfileChanges) : OnlySession sessionId db (applyChanges sessionId c db) := by
  unfold applyChanges
  induction profileStatements c generalizing db with
  | nil => exact OnlySession.refl sessionId db
  | cons statement statements ih => exact (onlySession_exec statement).trans ih

end Frames

/-! ## Requests -/

theorem mem_of_mapM_validateUnshieldedAddress {texts : List String} {addresses : List Bytes}
    (h : texts.mapM validateUnshieldedAddress = .ok addresses) (a : Bytes) :
    a ∈ addresses ↔ ∃ text ∈ texts, hexDecode text = some a := by
  induction texts generalizing addresses with
  | nil =>
    obtain rfl := Except.ok.inj h
    simp
  | cons text texts ih =>
    rw [List.mapM_cons] at h
    obtain ⟨address, htext, h⟩ := bind_ok h
    obtain ⟨addresses', htexts, h⟩ := bind_ok h
    obtain rfl := Except.ok.inj h
    have hdecode := (validateHexField_ok htext).1
    rw [List.mem_cons, ih htexts]
    simp only [List.mem_cons, exists_eq_or_imp, hdecode, Option.some.injEq]
    exact or_congr_left eq_comm

theorem mapM_ok_cases {α β : Type} {f : α → Except AppError β} {field : Option α} {result : Option β}
    (h : field.mapM f = .ok result) :
    (field = none ∧ result = none) ∨ ∃ x y, field = some x ∧ f x = .ok y ∧ result = some y := by
  cases field with
  | none => exact Or.inl ⟨rfl, (Except.ok.inj h).symm⟩
  | some x =>
    rw [Option.mapM_some] at h
    obtain ⟨y, hx, h⟩ := bind_ok h
    exact Or.inr ⟨x, y, rfl, hx, (Except.ok.inj h).symm⟩

/-- What a request asks for: the values of the fields it has, and the present ones for the others. -/
theorem validateChanges_ok {req : UpdateProfileRequest} {c : ProfileChanges} (h : validateChanges req = .ok c) :
    (∀ key, c.dustPublicKey.or key = (req.dustPublicKey.map hexDecode).getD key) ∧
      (∀ (addresses : List Bytes) (a : Bytes), a ∈ c.unshieldedAddresses.getD addresses ↔
        (req.unshieldedAddresses.map fun texts => ∃ text ∈ texts, hexDecode text = some a).getD (a ∈ addresses)) ∧
      c.nullifierStreaming = req.nullifierStreaming := by
  obtain ⟨dust, hdust, h⟩ := bind_ok h
  obtain ⟨addresses, haddresses, h⟩ := bind_ok h
  obtain rfl := Except.ok.inj h
  refine ⟨fun key => ?_, fun current a => ?_, rfl⟩
  · rcases mapM_ok_cases hdust with ⟨hnone, rfl⟩ | ⟨text, bytes, hsome, hok, rfl⟩
    · rw [hnone]
      rfl
    · rw [hsome]
      exact (validateHexField_ok hok).1.symm
  · rcases mapM_ok_cases haddresses with ⟨hnone, rfl⟩ | ⟨texts, listed, hsome, hok, rfl⟩
    · rw [hnone]
      rfl
    · rw [hsome]
      exact mem_of_mapM_validateUnshieldedAddress hok a

/-! ## A call -/

/-- **What was asked for, and nothing else.** The addresses are those listed, the dust key and the nullifier preference
those given; what is not given stays, and so do the upstream session and the rows of every other session. The signal
tells whether the addresses differ from those before. -/
structure ReplacesProfile (sessionId : Bytes) (req : UpdateProfileRequest) (response : UpdateProfileResponse)
    (db db' : Database) : Prop where
  addresses : ∀ a, a ∈ sessionAddresses db' sessionId ↔
    (req.unshieldedAddresses.map fun texts => ∃ text ∈ texts, hexDecode text = some a).getD
      (a ∈ sessionAddresses db sessionId)
  profile : ∃ p p', profileOf db sessionId = some p ∧ profileOf db' sessionId = some p' ∧
    p'.dustPublicKey = (req.dustPublicKey.map hexDecode).getD p.dustPublicKey ∧
    p'.nullifierStreaming = (req.nullifierStreaming.map NullifierStreaming.asDbStr).getD p.nullifierStreaming ∧
    p'.upstreamSessionId = p.upstreamSessionId
  others : OnlySession sessionId db db'
  addressesChanged : response.addressesChanged = true ↔ ¬ SameAddresses sessionId db db'
  restartFromHeight : response.restartFromHeight = some 0 ↔ ¬ SameAddresses sessionId db db'

/-- The height a response names follows from its flag. -/
theorem restartFromHeight_updateResponse (c : ProfileChanges) (existing : List Bytes)
    (preference : NullifierStreaming) : (updateResponse c existing preference).restartFromHeight = some 0 ↔
      (updateResponse c existing preference).addressesChanged = true := by
  unfold updateResponse
  dsimp only
  split_ifs with h
  · exact iff_of_true rfl h
  · exact iff_of_false (by simp) h

section Call
variable {sessionId : String} {id : Bytes} {req : UpdateProfileRequest} {db : Database}

theorem exists_updateProfile_success (hid : parseSessionId sessionId = .ok id)
    (hexists : (profileOf db id).isSome = true) (hvalid : (validateChanges req).isOk = true) :
    ∃ response db', updateProfile .success db sessionId req = (.ok response, db') := by
  obtain ⟨p, hp⟩ := Option.isSome_iff_exists.mp hexists
  cases hc : validateChanges req with
  | error e =>
    rw [hc] at hvalid
    cases hvalid
  | ok c =>
    have hcommits : Commits .success db sessionId req id c :=
      ⟨hid, by simp [requireSessionExists, UpdateEnv.success, hp], hc, rfl, rfl, rfl⟩
    rcases updateProfile_cases .success db sessionId req with ⟨e, -, hnone⟩ | ⟨id', c', hcommits', heq⟩
    · exact absurd hcommits (hnone id c)
    · rcases hcommits'.readBack_cases with ⟨-, preference, hok⟩ | ⟨hfails, -⟩
      · rw [hok] at heq
        exact ⟨_, _, heq⟩
      · exact absurd rfl hfails

theorem replacesProfile_of_ok (hid : parseSessionId sessionId = .ok id) {env : UpdateEnv}
    {response : UpdateProfileResponse} {db' : Database}
    (h : updateProfile env db sessionId req = (.ok response, db')) : ReplacesProfile id req response db db' := by
  obtain ⟨id', c, preference, hcommits, -, rfl, rfl⟩ := updateProfile_ok_cases h
  obtain rfl : id' = id := Except.ok.inj (hcommits.parsed.symm.trans hid)
  obtain ⟨p, hp⟩ := exists_profile_of_requireSessionExists hcommits.found
  obtain ⟨hdust, haddresses, hpreference⟩ := validateChanges_ok hcommits.validated
  have hchanged : (updateResponse c (sessionAddresses db id') preference).addressesChanged = true ↔
      ¬ SameAddresses id' db (applyChanges id' c db) := by
    rw [addressesChanged_updateResponse hcommits.validated, sameAddresses_applyChanges_iff hcommits.validated]
  exact
    { addresses := fun a => mem_sessionAddresses_applyChanges.trans (haddresses _ a)
      profile := ⟨p, c.apply p, hp, profileOf_applyChanges hp, hdust _, by rw [← hpreference]; rfl, rfl⟩
      others := onlySession_applyChanges c
      addressesChanged := hchanged
      restartFromHeight := (restartFromHeight_updateResponse _ _ _).trans hchanged }

end Call

/-- **A profile update replaces exactly what was asked.** A valid request for a session that exists succeeds where no
statement fails; and every call that succeeds leaves and reports what `ReplacesProfile` says. -/
theorem updateProfile_replaces {sessionId : String} {id : Bytes} (hid : parseSessionId sessionId = .ok id)
    (req : UpdateProfileRequest) (db : Database) :
    ((profileOf db id).isSome = true → (validateChanges req).isOk = true →
      ∃ response db', updateProfile .success db sessionId req = (.ok response, db')) ∧
    ∀ env response db', updateProfile env db sessionId req = (.ok response, db') →
      ReplacesProfile id req response db db' :=
  ⟨exists_updateProfile_success hid, fun _ _ _ => replacesProfile_of_ok hid⟩

namespace Sample

def duplicateRequest : UpdateProfileRequest :=
  ⟨some (hexEncode dustKey),
    some [hexEncode (List.replicate 32 2), hexEncode (List.replicate 32 4), hexEncode (List.replicate 32 2)], none⟩

end Sample

/-- A list with a duplicate, while another session has an address of the table. -/
theorem updateProfile_replaces_duplicates : ∃ response db',
    updateProfile .success Sample.withOther (hexEncode Sample.sessionId) Sample.duplicateRequest =
        (.ok response, db') ∧
      ReplacesProfile Sample.sessionId Sample.duplicateRequest response Sample.withOther db' := by
  have hid : parseSessionId (hexEncode Sample.sessionId) = .ok Sample.sessionId := parseSessionId_hexEncode (by decide)
  have hreplaces := updateProfile_replaces hid Sample.duplicateRequest Sample.withOther
  obtain ⟨response, db', hcall⟩ := hreplaces.1 (by decide) (by decide)
  exact ⟨response, db', hcall, hreplaces.2 _ _ _ hcall⟩

end NocyWalletFeed
