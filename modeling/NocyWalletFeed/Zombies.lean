import NocyWalletFeed.LiveSessions
import NocyWalletFeed.Library.EventLog

/-!
# A bootstrap among disconnects of its session

One bootstrap and any number of disconnects of the same local session, step by step: a bootstrap connects, commits its
rows and starts the keepalive; a disconnect looks its upstream session up, stops the keepalive and disconnects. The
handlers share no lock, so their steps come in any order.

* `BootstrapPoint`, `DisconnectPoint`, `Handlers` : where each handler stands, with a log of the steps made;
* `Handlers.step` : the next step of one handler; `bootstrap_eq_steps`, `disconnect_eq_steps` : its steps in one go are
  the handler;
* `Consistent` : the tasks and the connections, read off the log;
* `keepalive_iff_connected_iff` : when all have finished, the keepalive runs exactly while the session is connected,
  or not.
-/

namespace NocyWalletFeed
open Codec EventLog

/-! ## Steps -/

/-- A bootstrap of a session: its validated credentials and the id the upstream answers for their viewing key. -/
structure BootstrapCall (state : SessionState) where
  credentials : Credentials
  preference : NullifierStreaming
  upstreamSessionId : String
  decoded : hexDecode upstreamSessionId = some (state.upstream credentials.viewingKey)

inductive BootstrapPoint where
  | connect
  | persist
  | start
  | done
  deriving DecidableEq, Repr

/-- The next step of a disconnect, with the id it has looked up. -/
inductive DisconnectPoint where
  | lookUp
  | stop (upstreamSessionId : Bytes)
  | disconnect (upstreamSessionId : Bytes)
  | done
  deriving DecidableEq, Repr

/-- A step made; an id is the text the step was made with. -/
inductive SessionEvent where
  | connected
  | persisted
  | started
  | lookedUp
  | stopped (upstreamSessionId : String)
  | disconnected (upstreamSessionId : String)
  deriving DecidableEq, Repr

/-- The world, the handlers, and the steps made so far. -/
structure Handlers where
  world : World
  bootstrap : BootstrapPoint
  disconnects : List DisconnectPoint
  log : List SessionEvent

/-- Whose step comes next. -/
inductive Turn where
  | bootstrap
  | disconnect (call : Nat)
  deriving DecidableEq, Repr

namespace Handlers
variable {state : SessionState} (call : BootstrapCall state)

def initial (world : World) (disconnects : Nat) : Handlers :=
  ⟨world, .connect, List.replicate disconnects .lookUp, []⟩

/-- Every handler has finished. -/
def Finished (h : Handlers) : Prop := h.bootstrap = .done ∧ ∀ point ∈ h.disconnects, point = .done

instance (h : Handlers) : Decidable h.Finished :=
  inferInstanceAs (Decidable (h.bootstrap = .done ∧ ∀ point ∈ h.disconnects, point = .done))

def stepBootstrap (h : Handlers) : Handlers :=
  match h.bootstrap with
  | .connect =>
    { h with
      world := { h.world with connected := insert (state.upstream call.credentials.viewingKey) h.world.connected }
      bootstrap := .persist
      log := h.log ++ [.connected] }
  | .persist =>
    { h with
      world :=
        { h.world with
          db := persistBootstrap state call.credentials (state.upstream call.credentials.viewingKey) call.preference
            h.world.db }
      bootstrap := .start
      log := h.log ++ [.persisted] }
  | .start =>
    { h with
      world := { h.world with tasks := KeepaliveTasks.start call.upstreamSessionId h.world.tasks }
      bootstrap := .done
      log := h.log ++ [.started] }
  | .done => h

def stepDisconnect (h : Handlers) (i : Nat) : Handlers :=
  match h.disconnects[i]? with
  | some .lookUp =>
    { h with
      disconnects := h.disconnects.set i
        (((lookUpUpstream h.world.db (call.credentials.sessionId state)).map .stop).getD .done)
      log := h.log ++ [.lookedUp] }
  | some (.stop upstreamSessionId) =>
    { h with
      world := { h.world with tasks := KeepaliveTasks.stop (hexEncode upstreamSessionId) h.world.tasks }
      disconnects := h.disconnects.set i (.disconnect upstreamSessionId)
      log := h.log ++ [.stopped (hexEncode upstreamSessionId)] }
  | some (.disconnect upstreamSessionId) =>
    { h with
      world :=
        { h.world with connected := Upstreams.disconnect (hexEncode upstreamSessionId) h.world.connected }
      disconnects := h.disconnects.set i .done
      log := h.log ++ [.disconnected (hexEncode upstreamSessionId)] }
  | some .done => h
  | none => h

def step (h : Handlers) : Turn → Handlers
  | .bootstrap => h.stepBootstrap call
  | .disconnect i => h.stepDisconnect call i

/-! ## The steps of a handler in one go -/

/-- The steps of a bootstrap on its own are those of `bootstrap` without a failure. -/
theorem bootstrap_eq_steps {req : BootstrapRequest}
    (hcredentials : validateCredentials state req = .ok call.credentials)
    (hpreference : req.nullifierStreaming.getD default = call.preference)
    (hlength : (state.upstream call.credentials.viewingKey).length = SESSION_ID_BYTES) (w : World) :
    (NocyWalletFeed.bootstrap state req (.success call.upstreamSessionId) w).2 =
      (List.foldl (step call) (initial w 0) [.bootstrap, .bootstrap, .bootstrap]).world := by
  simp [NocyWalletFeed.bootstrap, hcredentials, BootstrapEnv.success, UpstreamClient.connect, GraphqlReply.data,
    World.connect, decodeUpstreamSessionId, call.decoded, hlength, hpreference, step, stepBootstrap, initial]

/-- The steps of a disconnect on its own are those of `disconnect` without a failure. -/
theorem disconnect_eq_steps {sessionId : String}
    (hparse : parseSessionId sessionId = .ok (call.credentials.sessionId state))
    (w : World) : (NocyWalletFeed.disconnect sessionId .success w).2 =
      (List.foldl (step call) (initial w 1) [.disconnect 0, .disconnect 0, .disconnect 0]).world := by
  rw [(disconnect_success hparse w).2]
  cases hlookUp : lookUpUpstream w.db (call.credentials.sessionId state) with
  | none => simp [step, stepDisconnect, initial, hlookUp]
  | some u => simp [step, stepDisconnect, initial, hlookUp, World.release]

/-! ## What the log says -/

/-- The keepalive tasks and the connection of a bootstrap, read off the log and the tasks before it. -/
structure Consistent (before : KeepaliveTasks) (h : Handlers) : Prop where
  connected_mem : .connected ∈ h.log ↔ h.bootstrap ≠ .connect
  started_mem : .started ∈ h.log ↔ h.bootstrap = .done
  stopped_text : ∀ text, .stopped text ∈ h.log → ∃ upstreamSessionId, text = hexEncode upstreamSessionId
  task : .started ∈ h.log →
    (call.upstreamSessionId ∈ h.world.tasks ↔ ¬ Precedes .started (.stopped call.upstreamSessionId) h.log)
  others : ∀ text, text ≠ call.upstreamSessionId → (text ∈ h.world.tasks ↔ text ∈ before ∧ .stopped text ∉ h.log)
  connection : .connected ∈ h.log → (state.upstream call.credentials.viewingKey ∈ h.world.connected ↔
    ¬ Precedes .connected (.disconnected (hexEncode (state.upstream call.credentials.viewingKey))) h.log)
  released : Precedes .started (.stopped (hexEncode (state.upstream call.credentials.viewingKey))) h.log →
    Precedes .connected (.disconnected (hexEncode (state.upstream call.credentials.viewingKey))) h.log ∨
      .disconnect (state.upstream call.credentials.viewingKey) ∈ h.disconnects

theorem mem_set_of_ne {α : Type} {l : List α} {i : Nat} {x y z : α} (hx : x ∈ l) (hy : l[i]? = some y) (hne : x ≠ y) :
    x ∈ l.set i z := by
  obtain ⟨j, hj⟩ := List.mem_iff_getElem?.mp hx
  have hij : i ≠ j := by
    rintro rfl
    exact hne (Option.some.inj (hj.symm.trans hy))
  exact List.mem_iff_getElem?.mpr ⟨j, by rw [List.getElem?_set_ne hij, hj]⟩

variable {call} {before : KeepaliveTasks}

theorem consistent_initial (w : World) (disconnects : Nat) : Consistent call w.tasks (initial w disconnects) where
  connected_mem := by simp [initial]
  started_mem := by simp [initial]
  stopped_text := by simp [initial]
  task := by simp [initial]
  others := by simp [initial]
  connection := by simp [initial]
  released := by simp [initial]

/-- **Step** of the bootstrap. -/
theorem consistent_stepBootstrap {h : Handlers} (hcons : Consistent call before h) :
    Consistent call before (h.stepBootstrap call) := by
  have hnot : ∀ {a b : SessionEvent}, a ∉ h.log → ¬ Precedes a b h.log := fun ha hp => ha hp.left_mem
  unfold stepBootstrap
  cases hpoint : h.bootstrap with
  | connect =>
    have hconnected : .connected ∉ h.log := fun hmem => hcons.connected_mem.mp hmem hpoint
    have hstarted : .started ∉ h.log := fun hmem => by simpa [hpoint] using hcons.started_mem.mp hmem
    exact
      { connected_mem := by simp
        started_mem := by simpa using hstarted
        stopped_text := by simpa using hcons.stopped_text
        task := fun hmem => absurd hmem (by simpa using hstarted)
        others := by simpa using hcons.others
        connection := fun _ => by simp [precedes_concat, hnot hconnected]
        released := fun hp => absurd hp (by simp [precedes_concat, hnot hstarted]) }
  | persist =>
    have hconnected : .connected ∈ h.log := hcons.connected_mem.mpr (by simp [hpoint])
    have hstarted : .started ∉ h.log := fun hmem => by simpa [hpoint] using hcons.started_mem.mp hmem
    exact
      { connected_mem := by simpa using hconnected
        started_mem := by simpa using hstarted
        stopped_text := by simpa using hcons.stopped_text
        task := fun hmem => absurd hmem (by simpa using hstarted)
        others := by simpa using hcons.others
        connection := fun _ => by simpa [precedes_concat] using hcons.connection hconnected
        released := fun hp => absurd hp (by simp [precedes_concat, hnot hstarted]) }
  | start =>
    have hconnected : .connected ∈ h.log := hcons.connected_mem.mpr (by simp [hpoint])
    have hstarted : .started ∉ h.log := fun hmem => by simpa [hpoint] using hcons.started_mem.mp hmem
    exact
      { connected_mem := by simpa using hconnected
        started_mem := by simp
        stopped_text := by simpa using hcons.stopped_text
        task := fun _ => by simp [precedes_concat, hnot hstarted]
        others := fun text hne => by simpa [KeepaliveTasks.mem_start, hne] using hcons.others text hne
        connection := fun _ => by simpa [precedes_concat] using hcons.connection hconnected
        released := fun hp => absurd hp (by simp [precedes_concat, hnot hstarted]) }
  | done => exact hcons

theorem Consistent.lookUp {h : Handlers} (hcons : Consistent call before h) {i : Nat}
    (hpoint : h.disconnects[i]? = some .lookUp) : Consistent call before (h.stepDisconnect call i) := by
  unfold stepDisconnect
  rw [hpoint]
  exact
    { connected_mem := by simpa using hcons.connected_mem
      started_mem := by simpa using hcons.started_mem
      stopped_text := by simpa using hcons.stopped_text
      task := by simpa [precedes_concat] using hcons.task
      others := by simpa using hcons.others
      connection := by simpa [precedes_concat] using hcons.connection
      released := fun hp => by
        refine (hcons.released (by simpa [precedes_concat] using hp)).imp (fun hp => ?_) fun hmem => ?_
        · exact precedes_concat.mpr (Or.inl hp)
        · exact mem_set_of_ne hmem hpoint (by simp) }

theorem Consistent.stop {h : Handlers} (hcons : Consistent call before h) {i : Nat} {u : Bytes}
    (hpoint : h.disconnects[i]? = some (.stop u)) : Consistent call before (h.stepDisconnect call i) := by
  unfold stepDisconnect
  rw [hpoint]
  exact
    { connected_mem := by simpa using hcons.connected_mem
      started_mem := by simpa using hcons.started_mem
      stopped_text := by
        intro text hmem
        rcases List.mem_append.mp hmem with hmem | hmem
        · exact hcons.stopped_text text hmem
        · exact ⟨u, SessionEvent.stopped.inj (List.mem_singleton.mp hmem)⟩
      task := fun hmem => by
        have hstarted : SessionEvent.started ∈ h.log := by simpa using hmem
        simp only [KeepaliveTasks.mem_stop, hcons.task hstarted, precedes_concat, hstarted, true_and,
          SessionEvent.stopped.injEq, not_or, eq_comm]
        exact and_comm
      others := fun text hne => by
        simp only [KeepaliveTasks.mem_stop, hcons.others text hne, List.mem_append, List.mem_singleton,
          SessionEvent.stopped.injEq, not_or]
        exact and_rotate
      connection := by simpa [precedes_concat] using hcons.connection
      released := fun hp => by
        rcases precedes_concat.mp hp with hp | ⟨-, heq⟩
        · refine (hcons.released hp).imp (fun hp => ?_) fun hmem => ?_
          · exact precedes_concat.mpr (Or.inl hp)
          · exact mem_set_of_ne hmem hpoint (by simp)
        · rw [hexEncode_injective (SessionEvent.stopped.inj heq)]
          exact Or.inr (List.mem_iff_getElem?.mpr ⟨i, by
            rw [List.getElem?_set_self (List.getElem?_eq_some_iff.mp hpoint).1]⟩) }

theorem Consistent.disconnect {h : Handlers} (hcons : Consistent call before h) {i : Nat} {u : Bytes}
    (hpoint : h.disconnects[i]? = some (.disconnect u)) : Consistent call before (h.stepDisconnect call i) := by
  unfold stepDisconnect
  rw [hpoint]
  exact
    { connected_mem := by simpa using hcons.connected_mem
      started_mem := by simpa using hcons.started_mem
      stopped_text := by simpa using hcons.stopped_text
      task := by simpa [precedes_concat] using hcons.task
      others := by simpa using hcons.others
      connection := fun hmem => by
        have hconnected : SessionEvent.connected ∈ h.log := by simpa using hmem
        have hinj : hexEncode u = hexEncode (state.upstream call.credentials.viewingKey) ↔
            state.upstream call.credentials.viewingKey = u := by
          rw [hexEncode_injective.eq_iff, eq_comm]
        simp only [Upstreams.disconnect_hexEncode, Finset.mem_erase, hcons.connection hconnected, precedes_concat,
          hconnected, true_and, SessionEvent.disconnected.injEq, not_or, hinj]
        exact and_comm
      released := fun hp => by
        have hstarted := hp.left_mem
        have hp' : Precedes .started (.stopped (hexEncode (state.upstream call.credentials.viewingKey))) h.log := by
          simpa [precedes_concat] using hp
        have hconnected : .connected ∈ h.log :=
          hcons.connected_mem.mpr (by simp [hcons.started_mem.mp hp'.left_mem])
        rcases hcons.released hp' with hp | hmem
        · exact Or.inl (precedes_concat.mpr (Or.inl hp))
        · by_cases hu : state.upstream call.credentials.viewingKey = u
          · exact Or.inl (precedes_concat.mpr (Or.inr ⟨hconnected, by rw [hu]⟩))
          · exact Or.inr (mem_set_of_ne hmem hpoint (by simpa using hu)) }

/-- **Step** of a disconnect. -/
theorem consistent_stepDisconnect {h : Handlers} (hcons : Consistent call before h) (i : Nat) :
    Consistent call before (h.stepDisconnect call i) := by
  cases hpoint : h.disconnects[i]? with
  | none =>
    unfold stepDisconnect
    rw [hpoint]
    exact hcons
  | some point =>
    cases point with
    | lookUp => exact hcons.lookUp hpoint
    | stop u => exact hcons.stop hpoint
    | disconnect u => exact hcons.disconnect hpoint
    | done =>
      unfold stepDisconnect
      rw [hpoint]
      exact hcons

theorem consistent_step (h : Handlers) (turn : Turn) (hcons : Consistent call before h) :
    Consistent call before (h.step call turn) := by
  cases turn with
  | bootstrap => exact consistent_stepBootstrap hcons
  | disconnect i => exact consistent_stepDisconnect hcons i

theorem Consistent.runsFor_iff {h : Handlers} (hcons : Consistent call before h) (hstarted : .started ∈ h.log) :
    h.world.tasks.RunsFor (state.upstream call.credentials.viewingKey) ↔
      ¬ (Precedes .started (.stopped call.upstreamSessionId) h.log ∧
        ∀ text ∈ before, hexDecode text = some (state.upstream call.credentials.viewingKey) →
          text = call.upstreamSessionId ∨ .stopped text ∈ h.log) := by
  constructor
  · rintro ⟨text, htext, hdecode⟩ ⟨hstopped, hall⟩
    by_cases heq : text = call.upstreamSessionId
    · rw [heq] at htext
      exact (hcons.task hstarted).mp htext hstopped
    · obtain ⟨hmem, hrunning⟩ := (hcons.others text heq).mp htext
      exact hrunning ((hall text hmem hdecode).resolve_left heq)
  · intro hnot
    by_cases htask : call.upstreamSessionId ∈ h.world.tasks
    · exact ⟨call.upstreamSessionId, htask, call.decoded⟩
    · -- the task of the bootstrap has been stopped, so another one is left
      have hstopped := not_not.mp ((hcons.task hstarted).not.mp htask)
      by_contra hnone
      refine hnot ⟨hstopped, fun text hmem hdecode => ?_⟩
      by_contra hleft
      obtain ⟨heq, hrunning⟩ := not_or.mp hleft
      exact hnone ⟨text, (hcons.others text heq).mpr ⟨hmem, hrunning⟩, hdecode⟩

end Handlers

/-! ## When all have finished -/

open Handlers in
/-- **When a bootstrap and disconnects of its session have finished, in whatever order they made their steps, a
keepalive task runs for the upstream session exactly while the session is connected, exactly when this holds of the
order: if the session was disconnected after the bootstrap had connected it, the task that the bootstrap started was
stopped after that, under its own text, and every task of the session from before runs under that text or was stopped
too.** -/
theorem keepalive_iff_connected_iff {state : SessionState} (call : BootstrapCall state) (world : World)
    (disconnects : Nat) (turns : List Turn) {h : Handlers}
    (hrun : h = turns.foldl (step call) (initial world disconnects)) (hfinished : h.Finished) :
    (h.world.tasks.RunsFor (state.upstream call.credentials.viewingKey) ↔
        state.upstream call.credentials.viewingKey ∈ h.world.connected) ↔
      (Precedes .connected (.disconnected (hexEncode (state.upstream call.credentials.viewingKey))) h.log →
        Precedes .started (.stopped call.upstreamSessionId) h.log ∧
          ∀ text ∈ world.tasks, hexDecode text = some (state.upstream call.credentials.viewingKey) →
            text = call.upstreamSessionId ∨ .stopped text ∈ h.log) := by
  have hcons : Handlers.Consistent call world.tasks h := by
    rw [hrun]
    exact turns.foldlRecOn (step call) (Handlers.consistent_initial world disconnects)
      fun h hcons turn _ => Handlers.consistent_step h turn hcons
  have hstarted : SessionEvent.started ∈ h.log := hcons.started_mem.mpr hfinished.1
  have hconnected : SessionEvent.connected ∈ h.log := hcons.connected_mem.mpr (by simp [hfinished.1])
  -- a stop after the start has its own disconnect after the connect
  have hreleased : Precedes .started (.stopped call.upstreamSessionId) h.log →
      Precedes .connected (.disconnected (hexEncode (state.upstream call.credentials.viewingKey))) h.log := by
    intro hp
    obtain ⟨u, hu⟩ := hcons.stopped_text _ hp.right_mem
    have hsame : u = state.upstream call.credentials.viewingKey := by
      have hdecoded := call.decoded
      rw [hu, hexDecode_hexEncode] at hdecoded
      exact Option.some.inj hdecoded
    rw [hu, hsame] at hp
    refine (hcons.released hp).resolve_right fun hmem => ?_
    exact absurd (hfinished.2 _ hmem) (by simp)
  rw [hcons.runsFor_iff hstarted, hcons.connection hconnected, not_iff_not]
  exact ⟨fun hiff => hiff.mpr, fun himp => ⟨fun hstopped => hreleased hstopped.1, himp⟩⟩

namespace Sample
open Handlers

def bootstrapCall : BootstrapCall state :=
  ⟨⟨"", List.replicate 32 6, sessionOf 1⟩, .enabled, upstreamText, hexDecode_hexEncode _⟩

/-- The disconnect comes as a whole after the bootstrap. -/
def inTurn : List Turn := [.bootstrap, .bootstrap, .bootstrap, .disconnect 0, .disconnect 0, .disconnect 0]

/-- The disconnect stops the keepalive before the bootstrap starts it, and disconnects after that. -/
def stoppedTooSoon : List Turn := [.bootstrap, .bootstrap, .disconnect 0, .disconnect 0, .bootstrap, .disconnect 0]

def handlers (turns : List Turn) : Handlers := turns.foldl (step bootstrapCall) (initial ⟨noSessions, ∅, ∅⟩ 1)

end Sample

/-- One after the other, the two leave neither a keepalive nor a connection. -/
theorem keepalive_iff_connected_inTurn :
    (Sample.handlers Sample.inTurn).world.tasks.RunsFor (List.replicate 32 9) ↔
      List.replicate 32 9 ∈ (Sample.handlers Sample.inTurn).world.connected :=
  (keepalive_iff_connected_iff Sample.bootstrapCall ⟨Sample.noSessions, ∅, ∅⟩ 1 Sample.inTurn rfl (by decide)).mpr
    fun _ => ⟨by decide, fun _ hmem => absurd hmem (Finset.notMem_empty _)⟩

/-- A keepalive task is left for a session that is not connected. -/
theorem not_keepalive_iff_connected_stoppedTooSoon : (Sample.handlers Sample.stoppedTooSoon).Finished ∧
    ¬ ((Sample.handlers Sample.stoppedTooSoon).world.tasks.RunsFor (List.replicate 32 9) ↔
      List.replicate 32 9 ∈ (Sample.handlers Sample.stoppedTooSoon).world.connected) := by
  refine ⟨by decide, fun hiff => ?_⟩
  have hruns : (Sample.handlers Sample.stoppedTooSoon).world.tasks.RunsFor (List.replicate 32 9) :=
    ⟨Sample.upstreamText, by decide, hexDecode_hexEncode _⟩
  exact absurd (hiff.mp hruns) (by decide)

end NocyWalletFeed
