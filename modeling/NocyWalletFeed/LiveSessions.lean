import NocyWalletFeed.Routes.Bootstrap
import NocyWalletFeed.Library.Walk

/-!
# Keepalive tasks and live sessions

Bootstrap and disconnect calls one after another, each of them successful. A local session is live from its bootstrap to
its disconnect. Local sessions are derived from the viewing key, the dust key and the address; the keepalive tasks and
the connections belong to the upstream session, which depends on the viewing key alone.

* `SessionRun` : the world with the live sessions; `SessionCall`, `SessionRun.step`;
* `Matches` : an upstream session is connected and kept alive exactly while a live session maps to it;
* `Alone` : a disconnected session is the only live one of its upstream session;
* `keepalive_matches_iff` : a run keeps `Matches` exactly when every call is `Alone`.
-/

namespace NocyWalletFeed
open Codec Walk

/-- The upstream session in the profile row of a local session. -/
def upstreamOf (db : Database) (sessionId : Bytes) : Option Bytes :=
  (profileOf db sessionId).bind (·.upstreamSessionId)

/-- The upstream session a disconnect acts on, if any. -/
def lookUpUpstream (db : Database) (sessionId : Bytes) : Option Bytes :=
  (upstreamOf db sessionId).filter (fun upstreamSessionId => upstreamSessionId.length = SESSION_ID_BYTES)

/-! ## Calls -/

/-- A call; a bootstrap with the id the upstream answers. -/
inductive SessionCall where
  | bootstrap (req : BootstrapRequest) (upstreamSessionId : String)
  | disconnect (sessionId : String)
  deriving DecidableEq, Repr

/-- The world, and the sessions bootstrapped and not disconnected since. -/
structure SessionRun where
  world : World
  live : Finset Bytes

namespace SessionRun

/-- No keepalive tasks, no connections and no live sessions. -/
def initial (db : Database) : SessionRun := ⟨⟨db, ∅, ∅⟩, ∅⟩

/-- Make a call; a bootstrap makes its session live and a disconnect ends its session. -/
def step (state : SessionState) (run : SessionRun) : SessionCall → SessionRun
  | .bootstrap req upstreamSessionId =>
    let result := bootstrap state req (.success upstreamSessionId) run.world
    ⟨result.2, ((result.1.toOption.bind hexDecode).map (insert · run.live)).getD run.live⟩
  | .disconnect sessionId =>
    let result := disconnect sessionId .success run.world
    ⟨result.2, ((parseSessionId sessionId).toOption.map (run.live.erase ·)).getD run.live⟩

/-- The call succeeds, and the upstream answers a connect with the session of the viewing key. -/
def Possible (state : SessionState) (run : SessionRun) : SessionCall → Prop
  | .bootstrap req upstreamSessionId =>
    (bootstrap state req (.success upstreamSessionId) run.world).1.isOk = true ∧
      ∀ c, validateCredentials state req = .ok c → hexDecode upstreamSessionId = some (state.upstream c.viewingKey)
  | .disconnect sessionId => (disconnect sessionId .success run.world).1.isOk = true

/-- A live session maps to an upstream session. -/
def Serves (run : SessionRun) (upstreamSessionId : Bytes) : Prop :=
  ∃ sessionId ∈ run.live, upstreamOf run.world.db sessionId = some upstreamSessionId

/-- A live session other than the given one maps to an upstream session. -/
def ServesBesides (run : SessionRun) (sessionId upstreamSessionId : Bytes) : Prop :=
  ∃ other ∈ run.live, other ≠ sessionId ∧ upstreamOf run.world.db other = some upstreamSessionId

instance (run : SessionRun) (upstreamSessionId : Bytes) : Decidable (run.Serves upstreamSessionId) :=
  inferInstanceAs (Decidable (∃ sessionId ∈ run.live, _))

instance (run : SessionRun) (sessionId upstreamSessionId : Bytes) :
    Decidable (run.ServesBesides sessionId upstreamSessionId) :=
  inferInstanceAs (Decidable (∃ other ∈ run.live, _))

/-- **A keepalive task runs for an upstream session, and it is connected, exactly when a live session maps to it.** -/
def Matches (run : SessionRun) : Prop :=
  ∀ upstreamSessionId, (run.world.tasks.RunsFor upstreamSessionId ↔ run.Serves upstreamSessionId) ∧
    (upstreamSessionId ∈ run.world.connected ↔ run.Serves upstreamSessionId)

/-- A disconnected session is the only live one of its upstream session, and the keepalive tasks of this upstream
session run under the text of its id that is stopped. A live session that a bootstrap maps to another upstream session
leaves the former one to another live session; it takes two viewing keys with the same session id to get there. -/
def Alone (state : SessionState) (run : SessionRun) : SessionCall → Prop
  | .bootstrap req _ => ∀ c, validateCredentials state req = .ok c → c.sessionId state ∈ run.live →
      ∀ former, upstreamOf run.world.db (c.sessionId state) = some former → former ≠ state.upstream c.viewingKey →
        run.ServesBesides (c.sessionId state) former
  | .disconnect sessionId => ∀ id, parseSessionId sessionId = .ok id →
      ∀ upstreamSessionId, upstreamOf run.world.db id = some upstreamSessionId →
        ¬ run.ServesBesides id upstreamSessionId ∧
          ∀ text ∈ run.world.tasks, hexDecode text = some upstreamSessionId → text = hexEncode upstreamSessionId

/-- Every upstream session in the table has the length of an id. -/
def Mapped (run : SessionRun) : Prop :=
  ∀ sessionId upstreamSessionId, upstreamOf run.world.db sessionId = some upstreamSessionId →
    upstreamSessionId.length = SESSION_ID_BYTES

end SessionRun

/-! ## What a call does -/

theorem hexDecode_of_decodeUpstreamSessionId {state : SessionState} {text : String} {bytes : Bytes}
    (h : decodeUpstreamSessionId state text = .ok bytes) :
    hexDecode text = some bytes ∧ bytes.length = SESSION_ID_BYTES := by
  unfold decodeUpstreamSessionId at h
  cases hdecode : hexDecode text with
  | none =>
    rw [hdecode] at h
    cases h
  | some decoded =>
    simp only [hdecode] at h
    split_ifs at h with hlength
    obtain rfl := Except.ok.inj h
    exact ⟨rfl, not_not.mp hlength⟩

theorem upstreamOf_persistBootstrap (state : SessionState) (c : Credentials) (upstreamSessionId : Bytes)
    (preference : NullifierStreaming) (db : Database) (id : Bytes) :
    upstreamOf (persistBootstrap state c upstreamSessionId preference db) id =
      if id = c.sessionId state then some upstreamSessionId else upstreamOf db id := by
  unfold upstreamOf persistBootstrap upsertBootstrapProfile
  rw [Database.profileOf_insertAddress, Database.profileOf_upsertProfile]
  dsimp only
  split_ifs with hid
  · cases profileOf db id with
    | none => rfl
    | some p => rfl
  · rfl

theorem bootstrap_of_credentials {state : SessionState} {req : BootstrapRequest} {text : String} {c : Credentials}
    {bytes : Bytes} (hcredentials : validateCredentials state req = .ok c)
    (hbytes : decodeUpstreamSessionId state text = .ok bytes) (w : World) :
    bootstrap state req (.success text) w = (.ok (hexEncode (c.sessionId state)),
      ⟨persistBootstrap state c bytes (req.nullifierStreaming.getD default) w.db, KeepaliveTasks.start text w.tasks,
        insert (state.upstream c.viewingKey) w.connected⟩) := by
  unfold bootstrap
  simp only [hcredentials, BootstrapEnv.success, UpstreamClient.connect, GraphqlReply.data, World.connect, hbytes]

theorem bootstrap_success {state : SessionState} {req : BootstrapRequest} {text : String} {w : World}
    (h : (bootstrap state req (.success text) w).1.isOk = true) : ∃ c bytes, validateCredentials state req = .ok c ∧
      hexDecode text = some bytes ∧ bytes.length = SESSION_ID_BYTES ∧
      bootstrap state req (.success text) w = (.ok (hexEncode (c.sessionId state)),
        ⟨persistBootstrap state c bytes (req.nullifierStreaming.getD default) w.db, KeepaliveTasks.start text w.tasks,
          insert (state.upstream c.viewingKey) w.connected⟩) := by
  cases hcredentials : validateCredentials state req with
  | error e =>
    unfold bootstrap at h
    rw [hcredentials] at h
    cases h
  | ok c =>
    cases hbytes : decodeUpstreamSessionId state text with
    | error e =>
      unfold bootstrap at h
      simp only [hcredentials, BootstrapEnv.success, UpstreamClient.connect, GraphqlReply.data, hbytes] at h
      cases h
    | ok bytes =>
      obtain ⟨hdecode, hlength⟩ := hexDecode_of_decodeUpstreamSessionId hbytes
      exact ⟨c, bytes, rfl, hdecode, hlength, bootstrap_of_credentials hcredentials hbytes w⟩

theorem disconnect_success {sessionId : String} {id : Bytes} (h : parseSessionId sessionId = .ok id) (w : World) :
    (disconnect sessionId .success w).1.isOk = true ∧ (disconnect sessionId .success w).2 =
      ((lookUpUpstream w.db id).map fun upstreamSessionId => w.release (hexEncode upstreamSessionId)).getD w := by
  unfold disconnect lookUpUpstream upstreamOf
  rw [h]
  cases hp : profileOf w.db id with
  | none => simp [DisconnectEnv.success, Except.isOk, Except.toBool, hp]
  | some p =>
    cases hrow : p.upstreamSessionId with
    | none => simp [DisconnectEnv.success, Except.isOk, Except.toBool, hp, hrow]
    | some u =>
      by_cases hlength : u.length = SESSION_ID_BYTES
      · simp [DisconnectEnv.success, UpstreamClient.disconnect, GraphqlReply.data, Except.isOk, Except.toBool,
          Except.map, hp, hrow, hlength, Option.filter_some]
      · simp [DisconnectEnv.success, Except.isOk, Except.toBool, hp, hrow, hlength, Option.filter_some]

/-! ## The condition -/

namespace SessionRun
variable {state : SessionState} {run : SessionRun}

theorem step_bootstrap {req : BootstrapRequest} {text : String} (h : run.Possible state (.bootstrap req text)) :
    ∃ c, validateCredentials state req = .ok c ∧ hexDecode text = some (state.upstream c.viewingKey) ∧
      (state.upstream c.viewingKey).length = SESSION_ID_BYTES ∧
      (run.step state (.bootstrap req text)).live = insert (c.sessionId state) run.live ∧
      (run.step state (.bootstrap req text)).world.tasks = KeepaliveTasks.start text run.world.tasks ∧
      (run.step state (.bootstrap req text)).world.connected =
        insert (state.upstream c.viewingKey) run.world.connected ∧
      ∀ id, upstreamOf (run.step state (.bootstrap req text)).world.db id =
        if id = c.sessionId state then some (state.upstream c.viewingKey) else upstreamOf run.world.db id := by
  obtain ⟨hok, hhonest⟩ := h
  obtain ⟨c, bytes, hcredentials, hdecode, hlength, hresult⟩ := bootstrap_success hok
  have hbytes : state.upstream c.viewingKey = bytes := Option.some.inj ((hhonest c hcredentials).symm.trans hdecode)
  have hstep : run.step state (.bootstrap req text) =
      ⟨⟨persistBootstrap state c bytes (req.nullifierStreaming.getD default) run.world.db,
        KeepaliveTasks.start text run.world.tasks, insert (state.upstream c.viewingKey) run.world.connected⟩,
        insert (c.sessionId state) run.live⟩ := by
    unfold step
    dsimp only
    rw [hresult]
    show SessionRun.mk _ (((hexDecode (hexEncode _)).map _).getD _) = _
    rw [hexDecode_hexEncode]
    rfl
  refine ⟨c, hcredentials, hhonest c hcredentials, hbytes ▸ hlength, ?_⟩
  rw [hstep, hbytes]
  exact ⟨rfl, rfl, rfl, fun id => upstreamOf_persistBootstrap state c bytes _ _ id⟩

theorem step_disconnect {sessionId : String} (h : run.Possible state (.disconnect sessionId)) (hmapped : run.Mapped) :
    ∃ id, parseSessionId sessionId = .ok id ∧ (run.step state (.disconnect sessionId)).live = run.live.erase id ∧
      (run.step state (.disconnect sessionId)).world.db = run.world.db ∧
      (∀ upstreamSessionId, upstreamOf run.world.db id = some upstreamSessionId →
        (run.step state (.disconnect sessionId)).world = run.world.release (hexEncode upstreamSessionId)) ∧
      (upstreamOf run.world.db id = none → (run.step state (.disconnect sessionId)).world = run.world) := by
  obtain ⟨id, hid⟩ : ∃ id, parseSessionId sessionId = .ok id := by
    cases hid : parseSessionId sessionId with
    | error e =>
      have hok : (disconnect sessionId .success run.world).1.isOk = true := h
      unfold disconnect at hok
      rw [hid] at hok
      cases hok
    | ok id => exact ⟨id, rfl⟩
  have hworld : (run.step state (.disconnect sessionId)).world =
      ((upstreamOf run.world.db id).map fun u => run.world.release (hexEncode u)).getD run.world := by
    show (disconnect sessionId .success run.world).2 = _
    have hlookUp : lookUpUpstream run.world.db id = upstreamOf run.world.db id := by
      unfold lookUpUpstream
      cases hu : upstreamOf run.world.db id with
      | none => rfl
      | some u => exact Option.filter_some_pos (decide_eq_true (hmapped id u hu))
    rw [(disconnect_success hid run.world).2, hlookUp]
  refine ⟨id, hid, ?_, ?_, fun u hu => ?_, fun hnone => ?_⟩
  · unfold step
    dsimp only
    rw [hid]
    rfl
  · rw [hworld]
    cases upstreamOf run.world.db id with
    | none => rfl
    | some u => rfl
  · rw [hworld, hu]
    rfl
  · rw [hworld, hnone]
    rfl

theorem mapped_step {call : SessionCall} (hmapped : run.Mapped) (h : run.Possible state call) :
    (run.step state call).Mapped := by
  cases call with
  | bootstrap req text =>
    obtain ⟨c, -, -, hlength, -, -, -, hdb⟩ := step_bootstrap h
    intro id u hu
    rw [hdb] at hu
    split_ifs at hu
    · rw [← Option.some.inj hu, hlength]
    · exact hmapped id u hu
  | disconnect sessionId =>
    obtain ⟨id, -, -, hdb, -⟩ := step_disconnect h hmapped
    intro id u hu
    rw [hdb] at hu
    exact hmapped id u hu

theorem serves_iff (id upstreamSessionId : Bytes) : run.Serves upstreamSessionId ↔
    run.ServesBesides id upstreamSessionId ∨ (id ∈ run.live ∧ upstreamOf run.world.db id = some upstreamSessionId) := by
  constructor
  · rintro ⟨other, hmem, hu⟩
    by_cases heq : other = id
    · exact Or.inr (heq ▸ ⟨hmem, hu⟩)
    · exact Or.inl ⟨other, hmem, heq, hu⟩
  · rintro (⟨other, hmem, -, hu⟩ | ⟨hmem, hu⟩)
    · exact ⟨other, hmem, hu⟩
    · exact ⟨id, hmem, hu⟩

theorem runsFor_start {text : String} {u v : Bytes} {tasks : KeepaliveTasks} (h : hexDecode text = some u) :
    (KeepaliveTasks.start text tasks).RunsFor v ↔ v = u ∨ tasks.RunsFor v := by
  unfold KeepaliveTasks.RunsFor
  constructor
  · rintro ⟨t, ht, hv⟩
    rcases KeepaliveTasks.mem_start.mp ht with rfl | ht
    · exact Or.inl (Option.some.inj (hv.symm.trans h))
    · exact Or.inr ⟨t, ht, hv⟩
  · rintro (rfl | ⟨t, ht, hv⟩)
    · exact ⟨text, KeepaliveTasks.mem_start.mpr (Or.inl rfl), h⟩
    · exact ⟨t, KeepaliveTasks.mem_start.mpr (Or.inr ht), hv⟩

/-- A stop leaves the tasks of the other upstream sessions alone. -/
theorem runsFor_stop_of_ne {u v : Bytes} {tasks : KeepaliveTasks} (hne : v ≠ u) :
    (KeepaliveTasks.stop (hexEncode u) tasks).RunsFor v ↔ tasks.RunsFor v := by
  unfold KeepaliveTasks.RunsFor
  refine exists_congr fun t => ?_
  rw [KeepaliveTasks.mem_stop, and_assoc]
  refine and_iff_right_of_imp ?_
  rintro ⟨-, hv⟩ rfl
  exact hne (Option.some.inj (hv.symm.trans (hexDecode_hexEncode u)))

/-- A stop ends the keepalive of its upstream session where that runs under the text that is stopped. -/
theorem not_runsFor_stop_iff {u : Bytes} {tasks : KeepaliveTasks} :
    ¬ (KeepaliveTasks.stop (hexEncode u) tasks).RunsFor u ↔
      ∀ text ∈ tasks, hexDecode text = some u → text = hexEncode u := by
  constructor
  · intro hstopped text htext hdecode
    by_contra hne
    exact hstopped ⟨text, KeepaliveTasks.mem_stop.mpr ⟨hne, htext⟩, hdecode⟩
  · rintro hcanonical ⟨text, htext, hdecode⟩
    obtain ⟨hne, hmem⟩ := KeepaliveTasks.mem_stop.mp htext
    exact hne (hcanonical text hmem hdecode)

theorem servesBesides_iff_of_ne {id upstreamSessionId : Bytes}
    (h : upstreamOf run.world.db id ≠ some upstreamSessionId) :
    run.ServesBesides id upstreamSessionId ↔ run.Serves upstreamSessionId := by
  rw [serves_iff id upstreamSessionId, or_iff_left]
  exact fun hheld => h hheld.2

/-- One call keeps `Matches` exactly when it is `Alone`: a bootstrap. -/
theorem matches_bootstrap_iff {req : BootstrapRequest} {text : String} (h : run.Possible state (.bootstrap req text))
    (hmatches : run.Matches) :
    (run.step state (.bootstrap req text)).Matches ↔ run.Alone state (.bootstrap req text) := by
  obtain ⟨c, hcredentials, hdecode, -, hlive, htasks, hconnected, hdb⟩ := step_bootstrap h
  -- only the equations of the step are used from here on
  generalize run.step state (.bootstrap req text) = run' at hlive htasks hconnected hdb ⊢
  have hserves : ∀ v, run'.Serves v ↔
      v = state.upstream c.viewingKey ∨ run.ServesBesides (c.sessionId state) v := by
    intro v
    unfold Serves ServesBesides
    constructor
    · rintro ⟨id, hmem, hv⟩
      rw [hdb] at hv
      split_ifs at hv with hid
      · exact Or.inl (Option.some.inj hv).symm
      · rw [hlive] at hmem
        exact Or.inr ⟨id, (Finset.mem_insert.mp hmem).resolve_left hid, hid, hv⟩
    · rintro (rfl | ⟨id, hmem, hid, hv⟩)
      · exact ⟨c.sessionId state, hlive ▸ Finset.mem_insert_self _ _, by rw [hdb, if_pos rfl]⟩
      · exact ⟨id, hlive ▸ Finset.mem_insert_of_mem hmem, by rw [hdb, if_neg hid, hv]⟩
  have hrest : ∀ v, run.Serves v ↔ run.ServesBesides (c.sessionId state) v ∨
      (c.sessionId state ∈ run.live ∧ upstreamOf run.world.db (c.sessionId state) = some v) := serves_iff _
  constructor
  · intro hafter c' hcredentials' hmem former hformer hne
    obtain rfl : c = c' := Except.ok.inj (hcredentials.symm.trans hcredentials')
    have hbefore := ((hmatches former).2.trans (hrest former)).mpr (Or.inr ⟨hmem, hformer⟩)
    have hstill : former ∈ run'.world.connected := by
      rw [hconnected]
      exact Finset.mem_insert_of_mem hbefore
    exact ((hserves former).mp ((hafter former).2.mp hstill)).resolve_left hne
  · intro halone v
    have hother : v = state.upstream c.viewingKey ∨ run.ServesBesides (c.sessionId state) v ↔
        v = state.upstream c.viewingKey ∨ run.Serves v := by
      rw [hrest v]
      by_cases hv : v = state.upstream c.viewingKey
      · simp [hv]
      · have hformer := fun hheld : c.sessionId state ∈ run.live ∧ _ =>
          halone c hcredentials hheld.1 v hheld.2 hv
        simp only [hv, false_or]
        exact ⟨Or.inl, fun hor => hor.elim id hformer⟩
    rw [hserves, hother, htasks, hconnected, runsFor_start hdecode, Finset.mem_insert, (hmatches v).1, (hmatches v).2]
    exact ⟨Iff.rfl, Iff.rfl⟩

theorem matches_disconnect_iff {sessionId : String} (h : run.Possible state (.disconnect sessionId))
    (hmapped : run.Mapped) (hmatches : run.Matches) :
    (run.step state (.disconnect sessionId)).Matches ↔ run.Alone state (.disconnect sessionId) := by
  obtain ⟨id, hid, hlive, hdb, hrow, hnone⟩ := step_disconnect h hmapped
  generalize run.step state (.disconnect sessionId) = run' at hlive hdb hrow hnone ⊢
  have hserves : ∀ v, run'.Serves v ↔ run.ServesBesides id v := by
    intro v
    unfold Serves ServesBesides
    rw [hlive, hdb]
    refine exists_congr fun other => ?_
    rw [Finset.mem_erase]
    tauto
  cases hu : upstreamOf run.world.db id with
  | none =>
    -- no row: the world stays, and the session was not live for any upstream session
    constructor
    · rintro - id' hid' u hu'
      obtain rfl : id = id' := Except.ok.inj (hid.symm.trans hid')
      rw [hu] at hu'
      cases hu'
    · rintro - v
      rw [hnone hu, hserves, servesBesides_iff_of_ne (by simp [hu])]
      exact hmatches v
  | some u =>
    have hworld := hrow u hu
    have htasks : run'.world.tasks = KeepaliveTasks.stop (hexEncode u) run.world.tasks := by rw [hworld]; rfl
    have hconnected : run'.world.connected = run.world.connected.erase u := by
      rw [hworld]
      exact Upstreams.disconnect_hexEncode u _
    constructor
    · rintro hafter id' hid' u' hu'
      obtain rfl : id = id' := Except.ok.inj (hid.symm.trans hid')
      obtain rfl : u = u' := Option.some.inj (hu.symm.trans hu')
      have hgone : ¬ run.ServesBesides id u := by
        rw [← hserves, ← (hafter u).2, hconnected]
        exact Finset.notMem_erase u _
      refine ⟨hgone, not_runsFor_stop_iff.mp ?_⟩
      rw [← htasks, (hafter u).1, hserves]
      exact hgone
    · intro halone v
      obtain ⟨hgone, hcanonical⟩ := halone id hid u hu
      rw [hserves, htasks, hconnected]
      by_cases hv : v = u
      · subst hv
        exact ⟨iff_of_false (not_runsFor_stop_iff.mpr hcanonical) hgone, iff_of_false (Finset.notMem_erase v _) hgone⟩
      · rw [servesBesides_iff_of_ne (by simp [hu, Ne.symm hv]), runsFor_stop_of_ne hv, Finset.mem_erase, (hmatches v).1,
          (hmatches v).2]
        exact ⟨Iff.rfl, and_iff_right hv⟩

/-- **Step.** -/
theorem matches_step_iff {call : SessionCall} (hmapped : run.Mapped) (h : run.Possible state call)
    (hmatches : run.Matches) : (run.step state call).Matches ↔ run.Alone state call := by
  cases call with
  | bootstrap req text => exact matches_bootstrap_iff h hmatches
  | disconnect sessionId => exact matches_disconnect_iff h hmapped hmatches

end SessionRun

open SessionRun in
/-- **From a state with no sessions, the keepalive tasks and the connections match the live sessions after every call
exactly when every disconnected session is the only live one of its upstream session.** -/
theorem keepalive_matches_iff (state : SessionState) {db : Database} (hnone : db.sessionProfile = [])
    (calls : List SessionCall) (hpossible : Along (Possible state) (step state) (.initial db) calls) :
    Always Matches (step state) (.initial db) calls ↔ Along (Alone state) (step state) (.initial db) calls := by
  refine always_iff_along (fun _ _ hside hvalid _ _ => mapped_step hside hvalid)
    (fun _ _ hside hvalid hinv => matches_step_iff hside hvalid hinv) ?_ ?_ hpossible
  · intro id u hu
    simp [initial, upstreamOf, profileOf, hnone] at hu
  · intro u
    have hserves : ¬ (initial db).Serves u := by
      rintro ⟨id, hid, -⟩
      exact absurd hid (Finset.notMem_empty id)
    refine ⟨iff_of_false ?_ hserves, iff_of_false (Finset.notMem_empty u) hserves⟩
    rintro ⟨text, htext, -⟩
    exact absurd htext (Finset.notMem_empty text)

/-! ## Two sessions of one viewing key -/

namespace Sample
open SessionRun

/-- Letters in place of the base-32 alphabet, and the end of the message in place of its hash. -/
def state : SessionState :=
  { bech32 :=
      { toBase32 := fun bytes => bytes.flatMap fun b => [Fin.ofNat 32 (b.toNat / 32), Fin.ofNat 32 (b.toNat % 32)]
        fromBase32 := fun _ => none
        encode := fun hrp data => some (hrp ++ "1" ++ String.ofList (data.map fun d => Char.ofNat (97 + d.val)))
        decode := fun _ => none }
    blake3 :=
      { keyedHash := fun _ message => (message.reverse ++ List.replicate 32 0).take 32
        length_keyedHash := fun _ message => by simp [SESSION_ID_BYTES] }
    hexError := fun _ => "Odd number of digits"
    serverSecret := []
    upstream := fun _ => List.replicate 32 9 }

/-- The upstream session of every viewing key, as the upstream writes it. -/
def upstreamText : String := hexEncode (List.replicate 32 9)

/-- A bootstrap with one viewing key, one dust key and an address. -/
def bootstrapOf (address : UInt8) : BootstrapRequest :=
  ⟨hexEncode (List.replicate 32 5), hexEncode (List.replicate 32 6), hexEncode (List.replicate 32 address), none⟩

def sessionOf (address : UInt8) : Bytes := List.replicate 32 address

theorem validateCredentials_bootstrapOf (address : UInt8) : ∃ viewingKey,
    validateCredentials state (bootstrapOf address) =
      .ok ⟨viewingKey, List.replicate 32 6, List.replicate 32 address⟩ := by
  have hkey : (normalizeViewingKey state.bech32 (hexEncode (List.replicate 32 5))).isOk = true := by decide
  have hfield : ∀ field (b : UInt8), validateHexField field 32 (hexEncode (List.replicate 32 b)) =
      .ok (List.replicate 32 b) := by
    intro field b
    simp [validateHexField, hexDecode_hexEncode]
  cases hnormalized : normalizeViewingKey state.bech32 (hexEncode (List.replicate 32 5)) with
  | error e =>
    rw [hnormalized] at hkey
    cases hkey
  | ok viewingKey =>
    refine ⟨viewingKey, ?_⟩
    simp only [validateCredentials, bootstrapOf, hnormalized, validateDustPublicKey, validateUnshieldedAddress,
      DUST_PUBLIC_KEY_BYTES, UNSHIELDED_ADDRESS_BYTES, hfield]
    rfl

theorem sessionId_eq (viewingKey : String) (dustPublicKey : Bytes) (address : UInt8) :
    (⟨viewingKey, dustPublicKey, List.replicate 32 address⟩ : Credentials).sessionId state = sessionOf address := by
  simp [Credentials.sessionId, generateSessionId, state, markedField, sessionOf]

theorem decodeUpstreamSessionId_upstreamText :
    decodeUpstreamSessionId state upstreamText = .ok (List.replicate 32 9) := by
  unfold decodeUpstreamSessionId upstreamText
  rw [hexDecode_hexEncode]
  rfl

theorem possible_bootstrapOf (run : SessionRun) (address : UInt8) :
    run.Possible state (.bootstrap (bootstrapOf address) upstreamText) := by
  obtain ⟨viewingKey, hcredentials⟩ := validateCredentials_bootstrapOf address
  refine ⟨?_, fun c _ => hexDecode_hexEncode _⟩
  rw [bootstrap_of_credentials hcredentials decodeUpstreamSessionId_upstreamText]
  rfl

theorem step_bootstrapOf (run : SessionRun) (address : UInt8) :
    (run.step state (.bootstrap (bootstrapOf address) upstreamText)).live = insert (sessionOf address) run.live ∧
      (run.step state (.bootstrap (bootstrapOf address) upstreamText)).world.tasks =
        KeepaliveTasks.start upstreamText run.world.tasks ∧
      ∀ id, upstreamOf (run.step state (.bootstrap (bootstrapOf address) upstreamText)).world.db id =
        if id = sessionOf address then some (List.replicate 32 9) else upstreamOf run.world.db id := by
  obtain ⟨viewingKey, hcredentials⟩ := validateCredentials_bootstrapOf address
  obtain ⟨c, hc, -, -, hlive, htasks, -, hdb⟩ := step_bootstrap (possible_bootstrapOf run address)
  obtain rfl := Except.ok.inj (hcredentials.symm.trans hc)
  rw [sessionId_eq] at hlive
  simp only [sessionId_eq] at hdb
  exact ⟨hlive, htasks, hdb⟩

/-- The sidecar's tables before the first session. -/
def noSessions : Database := ⟨{ wallets := [⟨1, List.replicate 32 9, none⟩] }, by decide⟩

/-- A session that is bootstrapped and disconnected. -/
def oneSession : List SessionCall :=
  [.bootstrap (bootstrapOf 1) upstreamText, .disconnect (hexEncode (sessionOf 1))]

/-- Two sessions with one viewing key and different addresses; the first one is disconnected. -/
def sharedKey : List SessionCall :=
  [.bootstrap (bootstrapOf 1) upstreamText, .bootstrap (bootstrapOf 2) upstreamText,
    .disconnect (hexEncode (sessionOf 1))]

end Sample

open SessionRun in
/-- A session alone is kept alive until it is disconnected. -/
theorem keepalive_matches_oneSession :
    Always Matches (step Sample.state) (.initial Sample.noSessions) Sample.oneSession := by
  have hparse : parseSessionId (hexEncode (Sample.sessionOf 1)) = .ok (Sample.sessionOf 1) :=
    parseSessionId_hexEncode rfl
  obtain ⟨hlive, htasks, hdb⟩ := Sample.step_bootstrapOf (initial Sample.noSessions) 1
  refine (keepalive_matches_iff Sample.state rfl Sample.oneSession
    ⟨Sample.possible_bootstrapOf _ 1, (disconnect_success hparse _).1, trivial⟩).mpr ⟨?_, ?_, trivial⟩
  · intro c _ hmem
    exact absurd hmem (Finset.notMem_empty _)
  · intro id hid u hu
    obtain rfl : Sample.sessionOf 1 = id := Except.ok.inj (hparse.symm.trans hid)
    rw [hdb, if_pos rfl] at hu
    obtain rfl := Option.some.inj hu
    refine ⟨?_, fun text htext _ => ?_⟩
    · rintro ⟨other, hmem, hne, -⟩
      rw [hlive] at hmem
      exact hne (Finset.mem_singleton.mp hmem)
    · rw [htasks] at htext
      exact (KeepaliveTasks.mem_start.mp htext).resolve_right (Finset.notMem_empty _)

open SessionRun in
/-- Disconnecting the first session stops the keepalive of the second one, which is live. -/
theorem not_matches_sharedKey :
    Along (Possible Sample.state) (step Sample.state) (.initial Sample.noSessions) Sample.sharedKey ∧
      ¬ Always Matches (step Sample.state) (.initial Sample.noSessions) Sample.sharedKey := by
  have hparse : parseSessionId (hexEncode (Sample.sessionOf 1)) = .ok (Sample.sessionOf 1) :=
    parseSessionId_hexEncode rfl
  have hfirst := Sample.possible_bootstrapOf (initial Sample.noSessions) 1
  have hsecond := Sample.possible_bootstrapOf
    ((initial Sample.noSessions).step Sample.state (.bootstrap (Sample.bootstrapOf 1) Sample.upstreamText)) 2
  refine ⟨⟨hfirst, hsecond, (disconnect_success hparse _).1, trivial⟩, fun h => ?_⟩
  obtain ⟨-, -, hmatches, hafter⟩ := h
  have hmapped : (initial Sample.noSessions).Mapped := by
    intro id u hu
    cases hu
  obtain ⟨-, -, hdb₁⟩ := Sample.step_bootstrapOf (initial Sample.noSessions) 1
  obtain ⟨hlive, -, hdb⟩ := Sample.step_bootstrapOf
    ((initial Sample.noSessions).step Sample.state (.bootstrap (Sample.bootstrapOf 1) Sample.upstreamText)) 2
  have halone := (matches_disconnect_iff ((disconnect_success hparse _).1)
    (mapped_step (mapped_step hmapped hfirst) hsecond) hmatches).mp hafter.head
  refine (halone (Sample.sessionOf 1) hparse (List.replicate 32 9) ?_).1 ⟨Sample.sessionOf 2, ?_, by decide, ?_⟩
  · rw [hdb, if_neg (by decide), hdb₁, if_pos rfl]
  · rw [hlive, Finset.mem_insert]
    exact Or.inl rfl
  · rw [hdb, if_pos rfl]

end NocyWalletFeed
