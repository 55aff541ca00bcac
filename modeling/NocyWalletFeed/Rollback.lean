import NocyWalletFeed.LiveSessions

/-!
# Failed bootstraps

What a bootstrap leaves behind when it fails, whatever it fails at. The keepalive tasks are those from before the call,
and so are the rows, unless a `COMMIT` is carried out whose reply is lost. The connection it has made upstream is taken
back after one of the failures only, and then also where it was there before the call.

* `failsAtUpsert` : the statement that fails is the profile upsert;
* `bootstrap_error_cases` : the world after a failure;
* `Unharmed` : when the failure leaves the connections as they were; `bootstrap_restores_iff`.
-/

namespace NocyWalletFeed
open Codec

/-- The upstream has answered with a well-formed id, the transaction is open, and the profile upsert fails. -/
def BootstrapEnv.failsAtUpsert (state : SessionState) (env : BootstrapEnv) (upstreamSessionId : String) : Bool :=
  (decodeUpstreamSessionId state upstreamSessionId).isOk && env.beginFails.isNone && env.upsertFails.isSome

/-- The `COMMIT` is carried out and its reply is lost. -/
def BootstrapEnv.losesCommit (env : BootstrapEnv) : Bool :=
  env.beginFails.isNone && env.upsertFails.isNone && env.insertFails.isNone && env.commitFails.isSome &&
    env.commitTakesEffect

/-- The rows of a bootstrap are there as it writes them. -/
def Persisted (state : SessionState) (c : Credentials) (upstreamSessionId : Bytes) (preference : NullifierStreaming)
    (db : Database) : Prop :=
  profileOf db (c.sessionId state) =
      some ⟨c.sessionId state, some upstreamSessionId, some c.dustPublicKey, preference.asDbStr⟩ ∧
    c.unshieldedAddress ∈ sessionAddresses db (c.sessionId state)

theorem persistBootstrap_eq_self_iff {state : SessionState} {c : Credentials} {upstreamSessionId : Bytes}
    {preference : NullifierStreaming} {db : Database} :
    persistBootstrap state c upstreamSessionId preference db = db ↔
      Persisted state c upstreamSessionId preference db := by
  constructor
  · intro h
    refine ⟨?_, ?_⟩
    · rw [← h, persistBootstrap, Database.profileOf_insertAddress, upsertBootstrapProfile,
        Database.profileOf_upsertProfile, if_pos rfl]
      cases hp : profileOf db (c.sessionId state) with
      | none => rfl
      | some p =>
        have hid : p.sessionId = c.sessionId state := by simpa using List.find?_some hp
        rw [← hid]
        rfl
    · rw [← h, persistBootstrap, Database.mem_sessionAddresses_insertAddress]
      exact Or.inr ⟨rfl, rfl⟩
  · rintro ⟨hprofile, haddress⟩
    have hupsert : upsertBootstrapProfile db
        ⟨c.sessionId state, some upstreamSessionId, some c.dustPublicKey, preference.asDbStr⟩ = db :=
      db.upsertProfile_eq_self hprofile rfl
    rw [persistBootstrap, hupsert, Database.insertAddress, dif_pos (mem_sessionAddresses.mp haddress)]

section Failure
variable {state : SessionState} {req : BootstrapRequest} {env : BootstrapEnv} {w : World}

/-- **What a failed bootstrap leaves**: the connections may differ, and the rows where the reply to the `COMMIT` is
lost. -/
theorem bootstrap_error_cases {e : AppError} (h : (bootstrap state req env w).1 = .error e) :
    ((validateCredentials state req).isOk = false ∧ (bootstrap state req env w).2 = w) ∨
      ∃ c, validateCredentials state req = .ok c ∧
        (((UpstreamClient.connect env.connect).isOk = false ∧
            (bootstrap state req env w).2 = w.connect state c.viewingKey env) ∨
          ∃ text, UpstreamClient.connect env.connect = .ok text ∧
            (((∀ bytes, decodeUpstreamSessionId state text = .ok bytes → env.losesCommit = false) ∧
                (bootstrap state req env w).2 = { w with
                  connected :=
                    bif env.failsAtUpsert state text then
                      Upstreams.disconnect text (insert (state.upstream c.viewingKey) w.connected)
                    else insert (state.upstream c.viewingKey) w.connected }) ∨
              ∃ bytes, decodeUpstreamSessionId state text = .ok bytes ∧ env.losesCommit = true ∧
                env.failsAtUpsert state text = false ∧ (bootstrap state req env w).2 = { w with
                  db := persistBootstrap state c bytes (req.nullifierStreaming.getD default) w.db
                  connected := insert (state.upstream c.viewingKey) w.connected })) := by
  unfold bootstrap at h ⊢
  cases hcredentials : validateCredentials state req with
  | error e => exact Or.inl ⟨rfl, rfl⟩
  | ok c =>
    refine Or.inr ⟨c, rfl, ?_⟩
    simp only [hcredentials] at h ⊢
    cases hconnect : UpstreamClient.connect env.connect with
    | error e => exact Or.inl ⟨rfl, rfl⟩
    | ok text =>
      refine Or.inr ⟨text, rfl, ?_⟩
      have hworld : w.connect state c.viewingKey env =
          { w with connected := insert (state.upstream c.viewingKey) w.connected } := by
        rw [World.connect, hconnect]
      simp only [hconnect, hworld, BootstrapEnv.failsAtUpsert, BootstrapEnv.losesCommit] at h ⊢
      cases hbytes : decodeUpstreamSessionId state text with
      | error e => exact Or.inl ⟨fun _ hok => (by cases hok), rfl⟩
      | ok bytes =>
        cases hbegin : env.beginFails with
        | some e => exact Or.inl ⟨fun _ _ => rfl, rfl⟩
        | none =>
          cases hupsert : env.upsertFails with
          | some e => exact Or.inl ⟨fun _ _ => rfl, rfl⟩
          | none =>
            cases hinsert : env.insertFails with
            | some e => exact Or.inl ⟨fun _ _ => rfl, rfl⟩
            | none =>
              cases hcommit : env.commitFails with
              | some e =>
                cases heffect : env.commitTakesEffect with
                | false => exact Or.inl ⟨fun _ _ => rfl, rfl⟩
                | true => exact Or.inr ⟨bytes, rfl, rfl, rfl, rfl⟩
              | none =>
                rw [hbytes, hbegin, hupsert, hinsert, hcommit] at h
                cases h

/-- Where a failure leaves the rows and the connections as they were: the validation fails; or the connect fails, and
has had no effect or nothing to do; or the session was connected before and a later step than the connect fails, but not
the upsert; or it was not, and the upsert fails. Where the reply to the `COMMIT` is lost the rows were there as well. -/
def Unharmed (state : SessionState) (req : BootstrapRequest) (env : BootstrapEnv) (w : World) : Prop :=
  ∀ c, validateCredentials state req = .ok c →
    ((UpstreamClient.connect env.connect).isOk = false →
      env.connectTakesEffect = true → state.upstream c.viewingKey ∈ w.connected) ∧
    ∀ text, UpstreamClient.connect env.connect = .ok text →
      (state.upstream c.viewingKey ∈ w.connected ↔ env.failsAtUpsert state text = false) ∧
      ∀ bytes, decodeUpstreamSessionId state text = .ok bytes → env.losesCommit = true →
        Persisted state c bytes (req.nullifierStreaming.getD default) w.db

theorem unharmed_iff {c : Credentials} (hcredentials : validateCredentials state req = .ok c) :
    Unharmed state req env w ↔ ((UpstreamClient.connect env.connect).isOk = false →
        env.connectTakesEffect = true → state.upstream c.viewingKey ∈ w.connected) ∧
      ∀ text, UpstreamClient.connect env.connect = .ok text →
        (state.upstream c.viewingKey ∈ w.connected ↔ env.failsAtUpsert state text = false) ∧
        ∀ bytes, decodeUpstreamSessionId state text = .ok bytes → env.losesCommit = true →
          Persisted state c bytes (req.nullifierStreaming.getD default) w.db := by
  constructor
  · exact fun hall => hall c hcredentials
  · intro hc c' hc'
    obtain rfl : c = c' := Except.ok.inj (hcredentials.symm.trans hc')
    exact hc

theorem unharmed_iff_of_connect {c : Credentials} (hcredentials : validateCredentials state req = .ok c) {text : String}
    (hconnect : UpstreamClient.connect env.connect = .ok text) :
    Unharmed state req env w ↔ (state.upstream c.viewingKey ∈ w.connected ↔ env.failsAtUpsert state text = false) ∧
      ∀ bytes, decodeUpstreamSessionId state text = .ok bytes → env.losesCommit = true →
        Persisted state c bytes (req.nullifierStreaming.getD default) w.db := by
  rw [unharmed_iff hcredentials, hconnect]
  constructor
  · rintro ⟨-, h⟩
    exact h text rfl
  · intro h
    refine ⟨fun hfailed => Bool.noConfusion hfailed, fun text' htext => ?_⟩
    obtain rfl : text = text' := Except.ok.inj htext
    exact h

theorem World.with_connected_eq_iff (w : World) (connected : Upstreams) :
    ({ w with connected := connected } : World) = w ↔ connected = w.connected := by
  constructor
  · exact fun h => congrArg World.connected h
  · rintro rfl
    rfl

theorem World.with_db_connected_eq_iff (w : World) (db : Database) (connected : Upstreams) :
    ({ w with db := db, connected := connected } : World) = w ↔ db = w.db ∧ connected = w.connected := by
  constructor
  · exact fun h => ⟨congrArg World.db h, congrArg World.connected h⟩
  · rintro ⟨rfl, rfl⟩
    rfl

theorem connected_eq_iff (env : BootstrapEnv) {c : Credentials} {text : String}
    (hhonest : ∀ bytes, decodeUpstreamSessionId state text = .ok bytes → bytes = state.upstream c.viewingKey) :
    (bif env.failsAtUpsert state text then
        Upstreams.disconnect text (insert (state.upstream c.viewingKey) w.connected)
      else insert (state.upstream c.viewingKey) w.connected) = w.connected ↔
      (state.upstream c.viewingKey ∈ w.connected ↔ env.failsAtUpsert state text = false) := by
  cases hupsert : env.failsAtUpsert state text with
  | true =>
    -- the connection is taken back
    obtain ⟨bytes, hbytes⟩ : ∃ bytes, decodeUpstreamSessionId state text = .ok bytes := by
      cases hdecode : decodeUpstreamSessionId state text with
      | error e => simp [BootstrapEnv.failsAtUpsert, hdecode, Except.isOk, Except.toBool] at hupsert
      | ok bytes => exact ⟨bytes, rfl⟩
    rw [Upstreams.disconnect_of_hexDecode (hexDecode_of_decodeUpstreamSessionId hbytes).1, hhonest bytes hbytes,
      cond_true, Finset.erase_insert_eq_erase, Finset.erase_eq_self]
    simp
  | false =>
    rw [cond_false, Finset.insert_eq_self]
    simp

/-- **A failed bootstrap leaves the world as it was exactly when it is unharmed.** A well-formed id names the upstream
session of the viewing key. -/
theorem bootstrap_restores_iff {e : AppError} (h : (bootstrap state req env w).1 = .error e)
    (hhonest : ∀ c text bytes, validateCredentials state req = .ok c → UpstreamClient.connect env.connect = .ok text →
      decodeUpstreamSessionId state text = .ok bytes → bytes = state.upstream c.viewingKey) :
    (bootstrap state req env w).2 = w ↔ Unharmed state req env w := by
  rcases bootstrap_error_cases h with
    ⟨hinvalid, hworld⟩ | ⟨c, hcredentials, ⟨hfailed, hworld⟩ | ⟨text, hconnect, hrest⟩⟩
  · refine iff_of_true hworld fun c hc => ?_
    rw [hc] at hinvalid
    cases hinvalid
  · rw [unharmed_iff hcredentials]
    cases hconnect : UpstreamClient.connect env.connect with
    | ok text =>
      rw [hconnect] at hfailed
      cases hfailed
    | error e =>
      rw [hworld, World.connect, hconnect]
      cases heffect : env.connectTakesEffect with
      | false => simp
      | true =>
        simp only [if_true]
        rw [World.with_connected_eq_iff, Finset.insert_eq_self]
        simp [Except.isOk, Except.toBool]
  · have hconnected := connected_eq_iff (w := w) env fun bytes => hhonest c text bytes hcredentials hconnect
    rw [unharmed_iff_of_connect hcredentials hconnect]
    rcases hrest with ⟨hkept, hworld⟩ | ⟨bytes, hbytes, hlost, hupsert, hworld⟩
    · rw [hworld, World.with_connected_eq_iff, hconnected]
      refine (and_iff_left fun bytes hbytes hlost => ?_).symm
      rw [hkept bytes hbytes] at hlost
      cases hlost
    · rw [hupsert, cond_false] at hconnected
      rw [hworld, World.with_db_connected_eq_iff, hconnected, hupsert, persistBootstrap_eq_self_iff, and_comm]
      refine and_congr_right fun _ => ⟨fun hthere bytes' hbytes' _ => ?_, fun hall => hall bytes hbytes hlost⟩
      obtain rfl : bytes = bytes' := Except.ok.inj (hbytes.symm.trans hbytes')
      exact hthere

theorem bootstrap_commitFails {text : String} {c : Credentials} {bytes : Bytes}
    (hcredentials : validateCredentials state req = .ok c) (hbytes : decodeUpstreamSessionId state text = .ok bytes)
    (e : String) (w : World) :
    bootstrap state req { BootstrapEnv.success text with commitFails := some e, commitTakesEffect := false } w =
      (.error (.internalError ("Failed to commit transaction: " ++ e)),
        { w with connected := insert (state.upstream c.viewingKey) w.connected }) := by
  unfold bootstrap
  simp only [hcredentials, BootstrapEnv.success, UpstreamClient.connect, GraphqlReply.data, World.connect, hbytes,
    Bool.false_eq_true, if_false]

/-- A commit whose reply is lost leaves the rows as well. -/
theorem bootstrap_losesCommit {text : String} {c : Credentials} {bytes : Bytes}
    (hcredentials : validateCredentials state req = .ok c) (hbytes : decodeUpstreamSessionId state text = .ok bytes)
    (e : String) (w : World) :
    bootstrap state req { BootstrapEnv.success text with commitFails := some e } w =
      (.error (.internalError ("Failed to commit transaction: " ++ e)),
        { w with
          db := persistBootstrap state c bytes (req.nullifierStreaming.getD default) w.db
          connected := insert (state.upstream c.viewingKey) w.connected }) := by
  unfold bootstrap
  simp only [hcredentials, BootstrapEnv.success, UpstreamClient.connect, GraphqlReply.data, World.connect, hbytes,
    if_true]

/-- A profile upsert that fails takes the connection back. -/
theorem bootstrap_upsertFails {text : String} {c : Credentials} {bytes : Bytes}
    (hcredentials : validateCredentials state req = .ok c) (hbytes : decodeUpstreamSessionId state text = .ok bytes)
    (e : String) (w : World) :
    bootstrap state req { BootstrapEnv.success text with upsertFails := some e } w =
      (.error (.internalError ("Failed to persist session profile: " ++ e)),
        { w with connected := (insert (state.upstream c.viewingKey) w.connected).erase bytes }) := by
  unfold bootstrap
  simp only [hcredentials, BootstrapEnv.success, UpstreamClient.connect, GraphqlReply.data, World.connect, hbytes,
    Upstreams.disconnect_of_hexDecode (hexDecode_of_decodeUpstreamSessionId hbytes).1]

end Failure

namespace Sample

def failedCommit : BootstrapEnv :=
  { BootstrapEnv.success upstreamText with commitFails := some "timeout", commitTakesEffect := false }

/-- A call whose commit is carried out, with its reply lost. -/
def lostCommit : BootstrapEnv := { BootstrapEnv.success upstreamText with commitFails := some "timeout" }

def failedUpsert : BootstrapEnv := { BootstrapEnv.success upstreamText with upsertFails := some "timeout" }

/-- A world in which the upstream session of every viewing key is connected, or none is. -/
def worldWith (connected : Upstreams) : World := ⟨noSessions, {upstreamText}, connected⟩

theorem bootstrap_failedCommit (connected : Upstreams) :
    bootstrap state (bootstrapOf 1) failedCommit (worldWith connected) =
      (.error (.internalError ("Failed to commit transaction: " ++ "timeout")),
        worldWith (insert (List.replicate 32 9) connected)) := by
  obtain ⟨viewingKey, hcredentials⟩ := validateCredentials_bootstrapOf 1
  exact bootstrap_commitFails hcredentials decodeUpstreamSessionId_upstreamText "timeout" (worldWith connected)

theorem bootstrap_failedUpsert (connected : Upstreams) :
    bootstrap state (bootstrapOf 1) failedUpsert (worldWith connected) =
      (.error (.internalError ("Failed to persist session profile: " ++ "timeout")),
        worldWith (connected.erase (List.replicate 32 9))) := by
  obtain ⟨viewingKey, hcredentials⟩ := validateCredentials_bootstrapOf 1
  have hcall := bootstrap_upsertFails hcredentials decodeUpstreamSessionId_upstreamText "timeout" (worldWith connected)
  have hconnected : (insert (List.replicate 32 9) connected).erase (List.replicate 32 9) =
      connected.erase (List.replicate 32 9) := Finset.erase_insert_eq_erase _ _
  rw [← hconnected]
  exact hcall

end Sample

/-- A failed commit, where the session was connected before. -/
theorem bootstrap_restores_failedCommit :
    (bootstrap Sample.state (Sample.bootstrapOf 1) Sample.failedCommit (Sample.worldWith {List.replicate 32 9})).2 =
      Sample.worldWith {List.replicate 32 9} := by
  have hdecode : hexDecode Sample.upstreamText = some (List.replicate 32 9) := hexDecode_hexEncode _
  refine (bootstrap_restores_iff (by rw [Sample.bootstrap_failedCommit]) fun c text bytes _ htext hbytes => ?_).mpr
    fun c _ => ⟨fun hfailed => absurd hfailed (by decide), fun text htext => ?_⟩
  · obtain rfl : Sample.upstreamText = text := Except.ok.inj htext
    exact Option.some.inj ((hexDecode_of_decodeUpstreamSessionId hbytes).1.symm.trans hdecode)
  · exact ⟨iff_of_true (Finset.mem_singleton_self _) (Bool.and_false _), fun _ _ hlost => absurd hlost (by decide)⟩

/-- A failed commit leaves the session of a new viewing key connected, a failed upsert disconnects the session of a
viewing key in use, and a commit whose reply is lost leaves the rows. -/
theorem not_bootstrap_restores :
    ((bootstrap Sample.state (Sample.bootstrapOf 1) Sample.failedCommit (Sample.worldWith ∅)).1.isOk = false ∧
      (bootstrap Sample.state (Sample.bootstrapOf 1) Sample.failedCommit (Sample.worldWith ∅)).2 ≠ Sample.worldWith ∅) ∧
    ((bootstrap Sample.state (Sample.bootstrapOf 1) Sample.failedUpsert
        (Sample.worldWith {List.replicate 32 9})).1.isOk = false ∧
      (bootstrap Sample.state (Sample.bootstrapOf 1) Sample.failedUpsert (Sample.worldWith {List.replicate 32 9})).2 ≠
        Sample.worldWith {List.replicate 32 9}) ∧
    (bootstrap Sample.state (Sample.bootstrapOf 1) Sample.lostCommit (Sample.worldWith {List.replicate 32 9})).1.isOk =
        false ∧
      (bootstrap Sample.state (Sample.bootstrapOf 1) Sample.lostCommit (Sample.worldWith {List.replicate 32 9})).2 ≠
        Sample.worldWith {List.replicate 32 9} := by
  obtain ⟨viewingKey, hcredentials⟩ := Sample.validateCredentials_bootstrapOf 1
  have hlost := bootstrap_losesCommit hcredentials Sample.decodeUpstreamSessionId_upstreamText "timeout"
    (Sample.worldWith {List.replicate 32 9})
  rw [Sample.bootstrap_failedCommit, Sample.bootstrap_failedUpsert, Sample.lostCommit, hlost]
  refine ⟨⟨rfl, fun h => ?_⟩, ⟨rfl, fun h => ?_⟩, rfl, fun h => ?_⟩
  · have hconnected : insert (List.replicate 32 9) ∅ = (∅ : Upstreams) := congrArg World.connected h
    exact Finset.insert_ne_empty _ _ hconnected
  · have hconnected : ({List.replicate 32 9} : Upstreams).erase (List.replicate 32 9) = {List.replicate 32 9} :=
      congrArg World.connected h
    simp at hconnected
  · -- there was no row
    have hrows : persistBootstrap Sample.state ⟨viewingKey, List.replicate 32 6, List.replicate 32 1⟩
        (List.replicate 32 9) ((Sample.bootstrapOf 1).nullifierStreaming.getD default) Sample.noSessions =
          Sample.noSessions := congrArg World.db h
    obtain ⟨hprofile, -⟩ := persistBootstrap_eq_self_iff.mp hrows
    cases hprofile

end NocyWalletFeed
