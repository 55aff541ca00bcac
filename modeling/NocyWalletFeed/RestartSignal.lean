import NocyWalletFeed.ProfileUpdates

/-!
# The restart signal of a profile update

A client restarts its feed when an update tells it to. The signal compares the addresses a call finds with those of its
list, so it is lost when an earlier attempt has committed the list and then failed; and it says nothing of the dust key.

* `SameSettings` : what an update may change is the same; `updateProfile_error_cases`, `updateProfile_ok_cases`;
* `Retries` : a client that sends a request until it succeeds; `retries_changed_iff` : what it is told in the end;
* `updateProfile_retries_iff` : when a failed call has changed nothing and a client is told of a change;
* `restartSignal_covers` : what stays the same where a client need not restart.
-/

namespace NocyWalletFeed
open Codec

/-! ## Settings -/

def SameAddresses (sessionId : Bytes) (db db' : Database) : Prop :=
  ∀ a, a ∈ sessionAddresses db' sessionId ↔ a ∈ sessionAddresses db sessionId

/-- The same dust key, nullifier preference and addresses. -/
structure SameSettings (sessionId : Bytes) (db db' : Database) : Prop where
  dustPublicKey : dustPublicKey db' sessionId = dustPublicKey db sessionId
  nullifierStreaming : (profileOf db' sessionId).map (·.nullifierStreaming) =
    (profileOf db sessionId).map (·.nullifierStreaming)
  addresses : SameAddresses sessionId db db'

/-- A request has no list of addresses, or that of the session. -/
def KeepsAddresses (db : Database) (sessionId : Bytes) (req : UpdateProfileRequest) : Prop :=
  ∀ c, validateChanges req = .ok c → ∀ addresses ∈ c.unshieldedAddresses,
    ∀ a, a ∈ addresses ↔ a ∈ sessionAddresses db sessionId

/-- A request has no dust key, or that of the session. -/
def KeepsDustKey (db : Database) (sessionId : Bytes) (req : UpdateProfileRequest) : Prop :=
  ∀ c, validateChanges req = .ok c → ∀ key ∈ c.dustPublicKey, dustPublicKey db sessionId = some key

/-- A request has no nullifier preference, or that of the session. -/
def KeepsPreference (db : Database) (sessionId : Bytes) (req : UpdateProfileRequest) : Prop :=
  ∀ c, validateChanges req = .ok c → ∀ preference ∈ c.nullifierStreaming,
    (profileOf db sessionId).map (·.nullifierStreaming) = some preference.asDbStr

section Changes
variable {sessionId : Bytes} {db : Database} {req : UpdateProfileRequest} {c : ProfileChanges}

theorem sameAddresses_applyChanges_iff (hc : validateChanges req = .ok c) :
    SameAddresses sessionId db (applyChanges sessionId c db) ↔ KeepsAddresses db sessionId req := by
  unfold SameAddresses KeepsAddresses
  simp only [mem_sessionAddresses_applyChanges, hc, Except.ok.injEq, forall_eq']
  cases c.unshieldedAddresses with
  | none => simp
  | some addresses => simp

theorem dustPublicKey_applyChanges {p : SessionProfileRow} (hp : profileOf db sessionId = some p) :
    dustPublicKey (applyChanges sessionId c db) sessionId = c.dustPublicKey.or (dustPublicKey db sessionId) := by
  rw [dustPublicKey_eq_profileOf, dustPublicKey_eq_profileOf, profileOf_applyChanges hp, hp]
  rfl

theorem dustPublicKey_applyChanges_eq_iff {p : SessionProfileRow} (hp : profileOf db sessionId = some p)
    (hc : validateChanges req = .ok c) :
    dustPublicKey (applyChanges sessionId c db) sessionId = dustPublicKey db sessionId ↔
      KeepsDustKey db sessionId req := by
  unfold KeepsDustKey
  simp only [hc, Except.ok.injEq, forall_eq']
  rw [dustPublicKey_applyChanges hp]
  cases c.dustPublicKey with
  | none => simp
  | some key =>
    simp only [Option.some_or, Option.mem_some_iff, forall_eq']
    exact eq_comm

theorem nullifierStreaming_applyChanges_eq_iff {p : SessionProfileRow} (hp : profileOf db sessionId = some p)
    (hc : validateChanges req = .ok c) :
    (profileOf (applyChanges sessionId c db) sessionId).map (·.nullifierStreaming) =
        (profileOf db sessionId).map (·.nullifierStreaming) ↔ KeepsPreference db sessionId req := by
  unfold KeepsPreference
  simp only [hc, Except.ok.injEq, forall_eq', profileOf_applyChanges hp, hp, Option.map_some, Option.some.injEq,
    ProfileChanges.apply]
  cases c.nullifierStreaming with
  | none => simp
  | some preference =>
    simp only [Option.map_some, Option.getD_some, Option.mem_some_iff, forall_eq']
    exact eq_comm

theorem sameSettings_applyChanges_iff {p : SessionProfileRow} (hp : profileOf db sessionId = some p)
    (hc : validateChanges req = .ok c) :
    SameSettings sessionId db (applyChanges sessionId c db) ↔
      KeepsDustKey db sessionId req ∧ KeepsPreference db sessionId req ∧ KeepsAddresses db sessionId req := by
  rw [← dustPublicKey_applyChanges_eq_iff hp hc, ← nullifierStreaming_applyChanges_eq_iff hp hc,
    ← sameAddresses_applyChanges_iff hc]
  exact ⟨fun h => ⟨h.dustPublicKey, h.nullifierStreaming, h.addresses⟩, fun h => ⟨h.1, h.2.1, h.2.2⟩⟩

end Changes

/-! ## One call -/

/-- A call commits, and the statement that reads the preference back fails. -/
def EndsAtReadBack (env : UpdateEnv) (db : Database) (sessionId : String) (req : UpdateProfileRequest) : Prop :=
  env.readBackFails ≠ none ∧ ∃ sessionIdBytes c, Commits env db sessionId req sessionIdBytes c

section Call
variable {env : UpdateEnv} {db db' : Database} {sessionId : String} {req : UpdateProfileRequest}

/-- A call that fails has changed nothing, or has committed. -/
theorem updateProfile_error_cases {e : AppError} (h : updateProfile env db sessionId req = (.error e, db')) :
    (¬ EndsAtReadBack env db sessionId req ∧ db' = db) ∨
      ∃ sessionIdBytes c, Commits env db sessionId req sessionIdBytes c ∧ env.readBackFails ≠ none ∧
        db' = applyChanges sessionIdBytes c db := by
  rcases updateProfile_cases env db sessionId req with ⟨e', heq, hnone⟩ | ⟨id, c, hcommits, heq⟩
  · rw [heq] at h
    refine Or.inl ⟨?_, (congrArg Prod.snd h).symm⟩
    rintro ⟨-, id, c, hcommits⟩
    exact hnone id c hcommits
  · rcases hcommits.readBack_cases with ⟨-, preference, hok⟩ | ⟨hfails, -⟩
    · rw [heq, hok] at h
      cases congrArg Prod.fst h
    · rw [heq] at h
      exact Or.inr ⟨id, c, hcommits, hfails, (congrArg Prod.snd h).symm⟩

theorem updateProfile_ok_cases {response : UpdateProfileResponse}
    (h : updateProfile env db sessionId req = (.ok response, db')) :
    ∃ sessionIdBytes c preference, Commits env db sessionId req sessionIdBytes c ∧ env.readBackFails = none ∧
      response = updateResponse c (sessionAddresses db sessionIdBytes) preference ∧
      db' = applyChanges sessionIdBytes c db := by
  rcases updateProfile_cases env db sessionId req with ⟨e', heq, -⟩ | ⟨id, c, hcommits, heq⟩
  · rw [heq] at h
    cases congrArg Prod.fst h
  · rcases hcommits.readBack_cases with ⟨hsucceeds, preference, hok⟩ | ⟨-, e, herror⟩
    · rw [heq, hok] at h
      obtain ⟨hresponse, hdb⟩ := Prod.mk.inj h
      exact ⟨id, c, preference, hcommits, hsucceeds, (Except.ok.inj hresponse).symm, hdb.symm⟩
    · rw [heq, herror] at h
      cases congrArg Prod.fst h

theorem addressesDiffer_eq_true_iff {existing addresses : List Bytes} :
    addressesDiffer existing addresses = true ↔ ¬ ∀ a, a ∈ addresses ↔ a ∈ existing := by
  unfold addressesDiffer
  rw [Bool.not_eq_true', Bool.eq_false_iff, ne_eq, Bool.and_eq_true, List.all_eq_true, List.all_eq_true, not_iff_not]
  simp only [List.contains_iff_mem]
  exact ⟨fun h a => ⟨h.2 a, h.1 a⟩, fun h => ⟨fun a => (h a).mpr, fun a => (h a).mp⟩⟩

theorem addressesChanged_updateResponse {id : Bytes} {c : ProfileChanges} (hc : validateChanges req = .ok c)
    (preference : NullifierStreaming) :
    (updateResponse c (sessionAddresses db id) preference).addressesChanged = true ↔ ¬ KeepsAddresses db id req := by
  unfold updateResponse KeepsAddresses
  simp only [hc, Except.ok.injEq, forall_eq']
  cases c.unshieldedAddresses with
  | none => simp
  | some addresses =>
    simp only [Option.map_some, Option.getD_some, Option.mem_some_iff, forall_eq']
    exact addressesDiffer_eq_true_iff

end Call

/-! ## Attempts -/

/-- A client sends a request until it succeeds: what its calls meet, the last response, and the rows in the end. -/
inductive Retries (sessionId : String) (req : UpdateProfileRequest) :
    List UpdateEnv → Database → UpdateProfileResponse → Database → Prop
  | succeeds {env : UpdateEnv} {db db' : Database} {response : UpdateProfileResponse}
      (h : updateProfile env db sessionId req = (.ok response, db')) : Retries sessionId req [env] db response db'
  | again {env : UpdateEnv} {envs : List UpdateEnv} {db db₁ db' : Database} {e : AppError}
      {response : UpdateProfileResponse} (h : updateProfile env db sessionId req = (.error e, db₁))
      (rest : Retries sessionId req envs db₁ response db') : Retries sessionId req (env :: envs) db response db'

section Retries
variable {sessionId : String} {req : UpdateProfileRequest} {id : Bytes} {db db' : Database} {envs : List UpdateEnv}
  {response : UpdateProfileResponse}

/-- The addresses a client ends with, and what it is told of them. -/
theorem retries_changed_iff (h : Retries sessionId req envs db response db') (hid : parseSessionId sessionId = .ok id) :
    (SameAddresses id db db' ↔ KeepsAddresses db id req) ∧
      (response.addressesChanged = true ↔
        (¬ ∃ env ∈ envs, EndsAtReadBack env db sessionId req) ∧ ¬ KeepsAddresses db id req) := by
  induction h with
  | @succeeds env db db' response h =>
    obtain ⟨id', c, preference, hcommits, hsucceeds, rfl, rfl⟩ := updateProfile_ok_cases h
    obtain rfl : id' = id := Except.ok.inj (hcommits.parsed.symm.trans hid)
    refine ⟨sameAddresses_applyChanges_iff hcommits.validated, ?_⟩
    rw [addressesChanged_updateResponse hcommits.validated, iff_and_self]
    rintro - ⟨env', henv', hends⟩
    obtain rfl := List.mem_singleton.mp henv'
    exact hends.1 hsucceeds
  | @again env envs db db₁ db' e response h rest ih =>
    simp only [List.mem_cons, exists_eq_or_imp]
    rcases updateProfile_error_cases h with ⟨hends, rfl⟩ | ⟨id', c, hcommits, hfails, rfl⟩
    · simpa only [hends, false_or] using ih
    · -- the list is committed, and the next attempt finds it
      obtain rfl : id' = id := Except.ok.inj (hcommits.parsed.symm.trans hid)
      have hkeeps : KeepsAddresses (applyChanges id' c db) id' req := by
        intro c' hc' addresses haddresses a
        obtain rfl : c = c' := Except.ok.inj (hcommits.validated.symm.trans hc')
        rw [mem_sessionAddresses_applyChanges, haddresses, Option.getD_some]
      obtain ⟨hsame, hchanged⟩ := ih
      refine ⟨?_, iff_of_false (fun htold => (hchanged.mp htold).2 hkeeps) fun hnone => hnone.1 (Or.inl ?_)⟩
      · rw [← sameAddresses_applyChanges_iff hcommits.validated]
        exact forall_congr' fun a => iff_congr (hsame.mpr hkeeps a) Iff.rfl
      · exact ⟨hfails, id', c, hcommits⟩

end Retries

/-- **When a failed call has changed nothing, and when a client that tries again is told of a change**: a call loses the
signal exactly when it ends at the read-back and the request asks for something new. -/
theorem updateProfile_retries_iff {sessionId : String} {id : Bytes} (hid : parseSessionId sessionId = .ok id)
    (req : UpdateProfileRequest) (db : Database) :
    (∀ env, (∀ e, (updateProfile env db sessionId req).1 = .error e →
        SameSettings id db (updateProfile env db sessionId req).2) ↔
      (EndsAtReadBack env db sessionId req →
        KeepsDustKey db id req ∧ KeepsPreference db id req ∧ KeepsAddresses db id req)) ∧
    ∀ envs response db', Retries sessionId req envs db response db' →
      ((response.addressesChanged = true ↔ ¬ SameAddresses id db db') ↔
        ((∃ env ∈ envs, EndsAtReadBack env db sessionId req) → KeepsAddresses db id req)) := by
  refine ⟨fun env => ?_, fun envs response db' h => ?_⟩
  · cases hcall : updateProfile env db sessionId req with
    | mk result db' =>
      cases result with
      | ok response =>
        obtain ⟨-, -, -, -, hsucceeds, -⟩ := updateProfile_ok_cases hcall
        refine iff_of_true (fun e he => ?_) fun hends => absurd hsucceeds hends.1
        cases he
      | error e =>
        have hany : (∀ e', (Except.error e : Except AppError UpdateProfileResponse) = .error e' →
            SameSettings id db db') ↔ SameSettings id db db' := ⟨fun h => h e rfl, fun h _ _ => h⟩
        rw [hany]
        rcases updateProfile_error_cases hcall with ⟨hends, rfl⟩ | ⟨id', c, hcommits, hfails, rfl⟩
        · exact iff_of_true ⟨rfl, rfl, fun _ => Iff.rfl⟩ fun h => absurd h hends
        · obtain rfl : id' = id := Except.ok.inj (hcommits.parsed.symm.trans hid)
          obtain ⟨p, hp⟩ := exists_profile_of_requireSessionExists hcommits.found
          rw [sameSettings_applyChanges_iff hp hcommits.validated, forall_prop_of_true ⟨hfails, id', c, hcommits⟩]
  · obtain ⟨hsame, hchanged⟩ := retries_changed_iff h hid
    rw [hsame, hchanged]
    by_cases hkeeps : KeepsAddresses db id req
    · simp [hkeeps]
    · simp only [hkeeps, not_false_eq_true, and_true, iff_true, imp_false]

namespace Sample

/-- A list with another address than the session has. -/
def otherAddress : UpdateProfileRequest := ⟨none, some [hexEncode (List.replicate 32 2)], none⟩

def failedReadBack : UpdateEnv := { UpdateEnv.success with readBackFails := some "timeout" }

def failedUpdateCommit : UpdateEnv := { UpdateEnv.success with commitFails := some "timeout" }

/-- The rows with the other address. -/
def changed : Database := applyChanges sessionId ⟨none, some [List.replicate 32 2], none⟩ alone

theorem retries_failedUpdateCommit :
    Retries (hexEncode sessionId) otherAddress [failedUpdateCommit, .success] alone ⟨true, true, some 0, .enabled⟩
      changed :=
  .again (e := .internalError "Failed to commit transaction: timeout") rfl (.succeeds rfl)

theorem retries_failedReadBack :
    Retries (hexEncode sessionId) otherAddress [failedReadBack, .success] alone ⟨true, false, none, .enabled⟩
      (applyChanges sessionId ⟨none, some [List.replicate 32 2], none⟩ changed) :=
  .again (e := .internalError "Failed to fetch nullifier_streaming: timeout") rfl (.succeeds rfl)

end Sample

/-- A client whose first commit has failed is told of its new address. -/
theorem updateProfile_retries_failedCommit :
    Retries (hexEncode Sample.sessionId) Sample.otherAddress [Sample.failedUpdateCommit, .success] Sample.alone
        ⟨true, true, some 0, .enabled⟩ Sample.changed ∧
      ¬ SameAddresses Sample.sessionId Sample.alone Sample.changed := by
  have hnone : ¬ ∃ env ∈ [Sample.failedUpdateCommit, .success],
      EndsAtReadBack env Sample.alone (hexEncode Sample.sessionId) Sample.otherAddress := by
    rintro ⟨env, henv, hends⟩
    rcases List.mem_cons.mp henv with rfl | henv
    · exact hends.1 rfl
    · obtain rfl := List.mem_singleton.mp henv
      exact hends.1 rfl
  have htold := ((updateProfile_retries_iff (parseSessionId_hexEncode (by decide)) Sample.otherAddress Sample.alone).2
    _ _ _ Sample.retries_failedUpdateCommit).mpr fun hends => absurd hends hnone
  exact ⟨Sample.retries_failedUpdateCommit, htold.mp rfl⟩

/-- A call that fails at the read-back has replaced the address of the session, and a second attempt says that nothing
has changed. -/
theorem not_updateProfile_retries :
    ((updateProfile Sample.failedReadBack Sample.alone (hexEncode Sample.sessionId) Sample.otherAddress).1.isOk =
        false ∧
      ¬ SameSettings Sample.sessionId Sample.alone
        (updateProfile Sample.failedReadBack Sample.alone (hexEncode Sample.sessionId) Sample.otherAddress).2) ∧
    ∃ response db', Retries (hexEncode Sample.sessionId) Sample.otherAddress [Sample.failedReadBack, .success]
        Sample.alone response db' ∧
      response.addressesChanged = false ∧ ¬ SameAddresses Sample.sessionId Sample.alone db' := by
  have hmem : Sample.address ∈ sessionAddresses Sample.alone Sample.sessionId := by decide
  refine ⟨⟨rfl, fun hsame => ?_⟩, _, _, Sample.retries_failedReadBack, rfl, fun hsame => ?_⟩
  · exact absurd ((hsame.addresses Sample.address).mpr hmem) (by decide)
  · exact absurd ((hsame Sample.address).mpr hmem) (by decide)

/-! ## What the signal covers -/

/-- **Where a client need not restart**, the UTXO events of its session are those from before the update, for every
range of blocks; so are the dust events, unless the request has another dust key than the session. -/
theorem restartSignal_covers {env : UpdateEnv} {db db' : Database} {sessionId : String} {req : UpdateProfileRequest}
    {response : UpdateProfileResponse} (h : updateProfile env db sessionId req = (.ok response, db'))
    (hrestart : response.restartFromHeight = none) {id : Bytes} (hid : parseSessionId sessionId = .ok id)
    (fromHeight toHeight : Int) :
    getUnshieldedUtxoEvents db' id fromHeight toHeight = getUnshieldedUtxoEvents db id fromHeight toHeight ∧
      (KeepsDustKey db id req →
        getDustEvents db' id fromHeight toHeight = getDustEvents db id fromHeight toHeight) := by
  obtain ⟨id', c, preference, hcommits, -, rfl, rfl⟩ := updateProfile_ok_cases h
  obtain rfl : id' = id := Except.ok.inj (hcommits.parsed.symm.trans hid)
  obtain ⟨p, hp⟩ := exists_profile_of_requireSessionExists hcommits.found
  have hkeeps : KeepsAddresses db id' req := by
    by_contra hchanges
    have htold := (addressesChanged_updateResponse hcommits.validated preference).mpr hchanges
    unfold updateResponse at htold hrestart
    dsimp only at htold hrestart
    rw [htold] at hrestart
    cases hrestart
  refine ⟨?_, fun hkey => ?_⟩
  · exact sameChain_applyChanges.getUnshieldedUtxoEvents_eq
      ((sameAddresses_applyChanges_iff hcommits.validated).mpr hkeeps) fromHeight toHeight
  · exact sameChain_applyChanges.getDustEvents_eq
      ((dustPublicKey_applyChanges_eq_iff hp hcommits.validated).mpr hkey) fromHeight toHeight

namespace Sample

def dustKey : Bytes := List.replicate 32 3

/-- A block with a dust event of the key. -/
def dustChain : Database :=
  ⟨{ tables [block 0 1 0] [transaction 1 0] [] with
      ledgerEvents := [⟨1, 1, .dust, .other "DustInitialUtxo", dustKey⟩] }, by decide⟩

/-- A request that only registers the dust key. -/
def dustRequest : UpdateProfileRequest := ⟨some (hexEncode dustKey), none, none⟩

end Sample

/-- After a change of the preference the client need not restart. -/
theorem restartSignal_covers_preference :
    (updateProfile .success Sample.alone (hexEncode Sample.sessionId) ⟨none, none, some .disabled⟩).1 =
        .ok ⟨true, false, none, .disabled⟩ ∧
      getUnshieldedUtxoEvents
          (updateProfile .success Sample.alone (hexEncode Sample.sessionId) ⟨none, none, some .disabled⟩).2
          Sample.sessionId 0 0 = getUnshieldedUtxoEvents Sample.alone Sample.sessionId 0 0 := by
  have hcall : updateProfile .success Sample.alone (hexEncode Sample.sessionId) ⟨none, none, some .disabled⟩ =
      (.ok ⟨true, false, none, .disabled⟩,
        (updateProfile .success Sample.alone (hexEncode Sample.sessionId) ⟨none, none, some .disabled⟩).2) := rfl
  exact ⟨rfl, (restartSignal_covers hcall rfl (parseSessionId_hexEncode (by decide)) 0 0).1⟩

/-- An update that registers a dust key does not tell the client to restart, and its dust events change. -/
theorem not_restartSignal_covers :
    (updateProfile .success Sample.dustChain (hexEncode Sample.sessionId) Sample.dustRequest).1 =
        .ok ⟨true, false, none, .enabled⟩ ∧
      getDustEvents (updateProfile .success Sample.dustChain (hexEncode Sample.sessionId) Sample.dustRequest).2
        Sample.sessionId 0 0 ≠ getDustEvents Sample.dustChain Sample.sessionId 0 0 := by
  refine ⟨rfl, ?_⟩
  decide

end NocyWalletFeed
