import NocyWalletFeed.Library.Walk
import NocyWalletFeed.Upstream
import NocyWalletFeed.Library.Register
import Mathlib.Data.List.Induction
import Mathlib.Logic.Function.Basic

/-!
# The keepalive tasks in time (`keepalive.rs`)

The manager with its loops, the rows they update and a clock in milliseconds. A loop sleeps, sends an UPDATE and waits
for its reply; the runtime resumes it when it likes, the database executes what was sent when it likes, and an abort
leaves a query that was sent where it is.

* `KeepaliveLoop`, `KeepaliveManager`, `KeepaliveEvent`, `KeepaliveManager.step` : one step of any party;
* `LoopStep`, `DataStep` : what a step does to a task, and to the rows and the queries;
* `mem_taskMap` : the task map of a run is that of `KeepaliveTasks`;
* `pings_spaced` : whenever a ping is sent, its session was neither started, stopped nor pinged for a whole interval;
* `staysActive_iff` : how old `last_active` gets while a task runs, with the worst case;
* `executions_stopped` : the pings that still reach a session that was stopped.
-/

namespace NocyWalletFeed
open Codec Register Walk

/-- The keepalive interval, in milliseconds. -/
def KEEPALIVE_INTERVAL : Nat := 30000

/-! ## The program -/

/-- Where a `keepalive_loop` stands: not run yet, returned because its id is no hex text, asleep until a deadline, or
waiting for the reply to a query it has sent. -/
inductive KeepaliveLoop where
  | spawned (since : Nat)
  | returned
  | sleeping (sessionIdBytes : Bytes) (due : Nat)
  | pinging (sessionIdBytes : Bytes) (sent query : Nat)
  deriving DecidableEq, Repr

/-- What the UPDATE sees of a row of `wallets`. -/
structure ActivityRow where
  sessionId : Bytes
  active : Bool
  lastActive : Nat
  deriving DecidableEq, Repr

/-- An UPDATE on its way to the database. -/
structure PingQuery where
  id : Nat
  sessionId : Bytes
  deriving DecidableEq, Repr

/-- The task map, the rows, the queries that were sent and are not executed, and how many there have been. -/
structure KeepaliveManager where
  now : Nat
  tasks : String → Option KeepaliveLoop
  wallets : List ActivityRow
  inFlight : List PingQuery
  queries : Nat

/-- A step: time passes, a call of the manager, the runtime resumes a task, the database executes a query, a task gets
the reply to its query, or the upstream connects a session and adds its row. -/
inductive KeepaliveEvent where
  | wait (duration : Nat)
  | start (sessionId : String)
  | stop (sessionId : String)
  | stopAll
  | resume (sessionId : String)
  | execute (query : Nat)
  | reply (sessionId : String) (ok : Bool)
  | connected (sessionId : Bytes)
  deriving DecidableEq, Repr

/-- `UPDATE wallets SET active = true, last_active = NOW() WHERE session_id = sessionId` -/
def ActivityRow.ping (now : Nat) (sessionId : Bytes) (w : ActivityRow) : ActivityRow :=
  if w.sessionId = sessionId then { w with active := true, lastActive := now } else w

namespace KeepaliveManager

def new (now : Nat) (wallets : List ActivityRow) : KeepaliveManager := ⟨now, fun _ => none, wallets, [], 0⟩

/-- A task is now somewhere else, or gone. -/
def setTask (m : KeepaliveManager) (sessionId : String) (loop : Option KeepaliveLoop) : KeepaliveManager :=
  { m with tasks := Function.update m.tasks sessionId loop }

/-- Start a keepalive task for a session; the one it has is aborted. -/
def start (sessionId : String) (m : KeepaliveManager) : KeepaliveManager := m.setTask sessionId (some (.spawned m.now))

def stop (sessionId : String) (m : KeepaliveManager) : KeepaliveManager := m.setTask sessionId none

def stopAll (m : KeepaliveManager) : KeepaliveManager := { m with tasks := fun _ => none }

/-- Send the UPDATE of a session. -/
def sendPing (sessionId : String) (sessionIdBytes : Bytes) (m : KeepaliveManager) : KeepaliveManager :=
  { m.setTask sessionId (some (.pinging sessionIdBytes m.now m.queries)) with
    inFlight := m.inFlight ++ [⟨m.queries, sessionIdBytes⟩]
    queries := m.queries + 1 }

/-- The runtime resumes a task: a new one parses its id and goes to sleep, and one that is due sends its query. -/
def resume (sessionId : String) (m : KeepaliveManager) : KeepaliveManager :=
  match m.tasks sessionId with
  | some (.spawned _) =>
    match hexDecode sessionId with
    | some bytes => m.setTask sessionId (some (.sleeping bytes (m.now + KEEPALIVE_INTERVAL)))
    | none => m.setTask sessionId (some .returned)
  | some (.sleeping bytes due) => if due ≤ m.now then m.sendPing sessionId bytes else m
  | _ => m

def queryOf (m : KeepaliveManager) (query : Nat) : Option PingQuery := m.inFlight.find? (fun q => q.id = query)

def execute (query : Nat) (m : KeepaliveManager) : KeepaliveManager :=
  match m.queryOf query with
  | some q => { m with wallets := m.wallets.map (·.ping m.now q.sessionId), inFlight := m.inFlight.erase q }
  | none => m

/-- The reply a task takes: a query is only answered when it has been executed, and may fail at any time. -/
def replyTaken (sessionId : String) (m : KeepaliveManager) : KeepaliveEvent → Option Bool
  | .reply text ok =>
    match m.tasks text with
    | some (.pinging _ _ query) => if text = sessionId ∧ (ok = true → m.queryOf query = none) then some ok else none
    | _ => none
  | _ => none

/-- A task gets its reply, which it logs, and goes to sleep. -/
def reply (sessionId : String) (ok : Bool) (m : KeepaliveManager) : KeepaliveManager :=
  match m.tasks sessionId with
  | some (.pinging bytes _ query) =>
    if ok = true → m.queryOf query = none then
      m.setTask sessionId (some (.sleeping bytes (m.now + KEEPALIVE_INTERVAL)))
    else m
  | _ => m

def step (m : KeepaliveManager) : KeepaliveEvent → KeepaliveManager
  | .wait duration => { m with now := m.now + duration }
  | .start sessionId => m.start sessionId
  | .stop sessionId => m.stop sessionId
  | .stopAll => m.stopAll
  | .resume sessionId => m.resume sessionId
  | .execute query => m.execute query
  | .reply sessionId ok => m.reply sessionId ok
  | .connected sessionId => { m with wallets := m.wallets ++ [⟨sessionId, true, m.now⟩] }

end KeepaliveManager

/-! ## The task map -/

namespace KeepaliveManager

@[simp] theorem tasks_setTask_self (m : KeepaliveManager) (sessionId : String) (loop : Option KeepaliveLoop) :
    (m.setTask sessionId loop).tasks sessionId = loop := Function.update_self ..

theorem tasks_setTask_of_ne (m : KeepaliveManager) {sessionId text : String} (loop : Option KeepaliveLoop)
    (h : text ≠ sessionId) : (m.setTask sessionId loop).tasks text = m.tasks text := Function.update_of_ne h ..

theorem tasks_sendPing_self (m : KeepaliveManager) (sessionId : String) (bytes : Bytes) :
    (m.sendPing sessionId bytes).tasks sessionId = some (.pinging bytes m.now m.queries) :=
  tasks_setTask_self m sessionId _

end KeepaliveManager

/-- The task map after a step, as the calls of the manager change it. -/
def KeepaliveEvent.taskMap (tasks : KeepaliveTasks) : KeepaliveEvent → KeepaliveTasks
  | .start sessionId => KeepaliveTasks.start sessionId tasks
  | .stop sessionId => KeepaliveTasks.stop sessionId tasks
  | .stopAll => ∅
  | _ => tasks

/-- The step starts or stops the task of a session. -/
def KeepaliveEvent.Controls (sessionId : String) : KeepaliveEvent → Prop
  | .start text | .stop text => text = sessionId
  | .stopAll => True
  | _ => False

instance (sessionId : String) (e : KeepaliveEvent) : Decidable (e.Controls sessionId) := by
  unfold KeepaliveEvent.Controls
  split <;> infer_instance

namespace KeepaliveManager

/-- Where a step that is no start and no stop leaves a task. -/
inductive LoopStep (m : KeepaliveManager) (sessionId : String) : KeepaliveEvent → KeepaliveLoop → KeepaliveLoop → Prop
  | stays {e : KeepaliveEvent} (loop : KeepaliveLoop) (h : replyTaken sessionId m e = none) :
    LoopStep m sessionId e loop loop
  | slept (since : Nat) {bytes : Bytes} (h : hexDecode sessionId = some bytes) :
    LoopStep m sessionId (.resume sessionId) (.spawned since) (.sleeping bytes (m.now + KEEPALIVE_INTERVAL))
  | returned (since : Nat) (h : hexDecode sessionId = none) :
    LoopStep m sessionId (.resume sessionId) (.spawned since) .returned
  | pinged (bytes : Bytes) {due : Nat} (h : due ≤ m.now) :
    LoopStep m sessionId (.resume sessionId) (.sleeping bytes due) (.pinging bytes m.now m.queries)
  | replied (bytes : Bytes) (sent : Nat) {query : Nat} {ok : Bool} (h : ok = true → m.queryOf query = none) :
    LoopStep m sessionId (.reply sessionId ok) (.pinging bytes sent query)
      (.sleeping bytes (m.now + KEEPALIVE_INTERVAL))

theorem resume_of_due {m : KeepaliveManager} {sessionId : String} {bytes : Bytes} {due : Nat}
    (h : m.tasks sessionId = some (.sleeping bytes due)) (hdue : due ≤ m.now) :
    m.resume sessionId = m.sendPing sessionId bytes := by
  rw [resume, h]
  exact if_pos hdue

theorem loopStep_resume {m : KeepaliveManager} {sessionId text : String} {loop : KeepaliveLoop}
    (h : m.tasks sessionId = some loop) :
    ∃ loop', (m.resume text).tasks sessionId = some loop' ∧ LoopStep m sessionId (.resume text) loop loop' := by
  by_cases htext : sessionId = text
  · subst htext
    by_cases hdue : ∃ bytes due, loop = .sleeping bytes due ∧ due ≤ m.now
    · obtain ⟨bytes, due, rfl, hle⟩ := hdue
      rw [resume_of_due h hle]
      exact ⟨_, tasks_sendPing_self m sessionId bytes, .pinged bytes hle⟩
    · unfold resume
      rw [h]
      cases loop with
      | spawned since =>
        cases hbytes : hexDecode sessionId with
        | some bytes => exact ⟨_, tasks_setTask_self m sessionId _, .slept since hbytes⟩
        | none => exact ⟨_, tasks_setTask_self m sessionId _, .returned since hbytes⟩
      | returned => exact ⟨_, h, .stays _ rfl⟩
      | sleeping bytes due =>
        have hearly : ¬ due ≤ m.now := fun hle => hdue ⟨bytes, due, rfl, hle⟩
        simp only [hearly, if_false]
        exact ⟨_, h, .stays _ rfl⟩
      | pinging bytes sent query => exact ⟨_, h, .stays _ rfl⟩
  · refine ⟨loop, ?_, .stays _ rfl⟩
    rw [← h]
    unfold resume
    split
    · split
      · exact tasks_setTask_of_ne m _ htext
      · exact tasks_setTask_of_ne m _ htext
    · split
      · exact tasks_setTask_of_ne m _ htext
      · rfl
    · rfl

theorem loopStep_reply {m : KeepaliveManager} {sessionId text : String} {ok : Bool} {loop : KeepaliveLoop}
    (h : m.tasks sessionId = some loop) :
    ∃ loop', (m.reply text ok).tasks sessionId = some loop' ∧ LoopStep m sessionId (.reply text ok) loop loop' := by
  unfold reply
  split
  next bytes sent query htext =>
    split
    next hok =>
      by_cases heq : sessionId = text
      · subst heq
        obtain rfl : loop = .pinging bytes sent query := Option.some.inj (h.symm.trans htext)
        exact ⟨_, tasks_setTask_self m sessionId _, .replied bytes sent hok⟩
      · refine ⟨loop, (tasks_setTask_of_ne m _ heq).trans h, .stays _ ?_⟩
        simp [replyTaken, htext, Ne.symm heq]
    next hok =>
      refine ⟨loop, h, .stays _ ?_⟩
      simp only [replyTaken, htext, hok, and_false, if_false]
  next hnone =>
    refine ⟨loop, h, .stays _ ?_⟩
    simp only [replyTaken]

@[simp] theorem tasks_execute (query : Nat) (m : KeepaliveManager) : (m.execute query).tasks = m.tasks := by
  unfold execute
  split <;> rfl

theorem loopStep {m : KeepaliveManager} {sessionId : String} {e : KeepaliveEvent} {loop : KeepaliveLoop}
    (hcontrols : ¬ e.Controls sessionId) (h : m.tasks sessionId = some loop) :
    ∃ loop', (m.step e).tasks sessionId = some loop' ∧ LoopStep m sessionId e loop loop' := by
  cases e with
  | wait duration => exact ⟨loop, h, .stays _ rfl⟩
  | start text => exact ⟨loop, (tasks_setTask_of_ne m _ (Ne.symm hcontrols)).trans h, .stays _ rfl⟩
  | stop text => exact ⟨loop, (tasks_setTask_of_ne m _ (Ne.symm hcontrols)).trans h, .stays _ rfl⟩
  | stopAll => exact absurd trivial hcontrols
  | resume text => exact loopStep_resume h
  | execute query => exact ⟨loop, (congrFun (tasks_execute query m) sessionId).trans h, .stays _ rfl⟩
  | reply text ok => exact loopStep_reply h
  | connected text => exact ⟨loop, h, .stays _ rfl⟩

/-- No step but a start brings up a task. -/
theorem tasks_step_none {m : KeepaliveManager} {sessionId : String} {e : KeepaliveEvent} (he : e ≠ .start sessionId)
    (h : m.tasks sessionId = none) : (m.step e).tasks sessionId = none := by
  cases e with
  | wait duration => exact h
  | start text => exact (tasks_setTask_of_ne m _ fun heq => he (by rw [heq])).trans h
  | stop text =>
    by_cases heq : sessionId = text
    · exact heq ▸ tasks_setTask_self m text none
    · exact (tasks_setTask_of_ne m _ heq).trans h
  | stopAll => rfl
  | resume text =>
    show (m.resume text).tasks sessionId = none
    unfold resume
    split
    next since htext =>
      have hne : sessionId ≠ text := fun heq => by rw [heq, htext] at h; cases h
      split
      · exact (tasks_setTask_of_ne m _ hne).trans h
      · exact (tasks_setTask_of_ne m _ hne).trans h
    next bytes due htext =>
      have hne : sessionId ≠ text := fun heq => by rw [heq, htext] at h; cases h
      split
      · exact (tasks_setTask_of_ne m _ hne).trans h
      · exact h
    next => exact h
  | execute query => exact (congrFun (tasks_execute query m) sessionId).trans h
  | reply text ok =>
    show (m.reply text ok).tasks sessionId = none
    unfold reply
    split
    next bytes sent query htext =>
      have hne : sessionId ≠ text := fun heq => by rw [heq, htext] at h; cases h
      split
      · exact (tasks_setTask_of_ne m _ hne).trans h
      · exact h
    next => exact h
  | connected text => exact h

/-- A task after a step is a new one, or was there before. -/
theorem loopStep_cases {m : KeepaliveManager} {sessionId : String} {e : KeepaliveEvent} {loop' : KeepaliveLoop}
    (h : (m.step e).tasks sessionId = some loop') :
    loop' = .spawned m.now ∨ ∃ loop, m.tasks sessionId = some loop ∧ LoopStep m sessionId e loop loop' := by
  by_cases hcontrols : e.Controls sessionId
  · cases e with
    | start text =>
      obtain rfl : text = sessionId := hcontrols
      exact .inl (Option.some.inj (h.symm.trans (tasks_setTask_self m text _)))
    | stop text =>
      obtain rfl : text = sessionId := hcontrols
      cases h.symm.trans (tasks_setTask_self m text none)
    | stopAll => cases h
    | _ => exact hcontrols.elim
  · cases hloop : m.tasks sessionId with
    | none =>
      rw [tasks_step_none (fun heq => hcontrols (by rw [heq]; rfl)) hloop] at h
      cases h
    | some loop =>
      obtain ⟨loop'', hstep, hcase⟩ := loopStep hcontrols hloop
      obtain rfl : loop'' = loop' := Option.some.inj (hstep.symm.trans h)
      exact .inr ⟨loop, rfl, hcase⟩

theorem mem_taskMap {m : KeepaliveManager} {tasks : KeepaliveTasks}
    (h : ∀ sessionId, sessionId ∈ tasks ↔ (m.tasks sessionId).isSome) (events : List KeepaliveEvent)
    (sessionId : String) : sessionId ∈ events.foldl KeepaliveEvent.taskMap tasks ↔
      ((events.foldl step m).tasks sessionId).isSome := by
  induction events generalizing m tasks with
  | nil => exact h sessionId
  | cons e events ih =>
    refine ih fun text => ?_
    by_cases hcontrols : e.Controls text
    · cases e with
      | start started =>
        obtain rfl : started = text := hcontrols
        simp [KeepaliveEvent.taskMap, step, start]
      | stop stopped =>
        obtain rfl : stopped = text := hcontrols
        simp [KeepaliveEvent.taskMap, step, stop]
      | stopAll => simp [KeepaliveEvent.taskMap, step, stopAll]
      | _ => exact hcontrols.elim
    · have hmap : text ∈ e.taskMap tasks ↔ text ∈ tasks := by
        cases e with
        | start started =>
          exact KeepaliveTasks.mem_start.trans (or_iff_right fun heq => hcontrols heq.symm)
        | stop stopped =>
          exact KeepaliveTasks.mem_stop.trans (and_iff_right fun heq => hcontrols heq.symm)
        | stopAll => exact absurd trivial hcontrols
        | _ => exact Iff.rfl
      rw [hmap, h]
      cases hloop : m.tasks text with
      | none => rw [tasks_step_none (fun heq => hcontrols (by rw [heq]; rfl)) hloop]
      | some loop =>
        obtain ⟨loop', hloop', -⟩ := loopStep hcontrols hloop
        rw [hloop']
        exact iff_of_true rfl rfl

end KeepaliveManager

/-! ## The rows and the queries -/

namespace KeepaliveManager

inductive DataStep (m m' : KeepaliveManager) : Prop
  | kept (now : m.now ≤ m'.now) (wallets : m'.wallets = m.wallets) (inFlight : m'.inFlight = m.inFlight)
    (queries : m'.queries = m.queries)
  | sent (bytes : Bytes) (now : m'.now = m.now) (wallets : m'.wallets = m.wallets)
    (inFlight : m'.inFlight = m.inFlight ++ [⟨m.queries, bytes⟩]) (queries : m'.queries = m.queries + 1)
  | executed (q : PingQuery) (mem : q ∈ m.inFlight) (now : m'.now = m.now)
    (wallets : m'.wallets = m.wallets.map (·.ping m.now q.sessionId)) (inFlight : m'.inFlight = m.inFlight.erase q)
    (queries : m'.queries = m.queries)
  | connected (sessionId : Bytes) (now : m'.now = m.now)
    (wallets : m'.wallets = m.wallets ++ [⟨sessionId, true, m.now⟩]) (inFlight : m'.inFlight = m.inFlight)
    (queries : m'.queries = m.queries)

theorem DataStep.refl (m : KeepaliveManager) : DataStep m m := .kept le_rfl rfl rfl rfl

theorem DataStep.setTask (m : KeepaliveManager) (sessionId : String) (loop : Option KeepaliveLoop) :
    DataStep m (m.setTask sessionId loop) := .kept le_rfl rfl rfl rfl

theorem dataStep (m : KeepaliveManager) (e : KeepaliveEvent) : DataStep m (m.step e) := by
  cases e with
  | wait duration => exact .kept (Nat.le_add_right _ _) rfl rfl rfl
  | start text => exact .setTask m text _
  | stop text => exact .setTask m text _
  | stopAll => exact .kept le_rfl rfl rfl rfl
  | resume text =>
    show DataStep m (m.resume text)
    unfold resume
    split
    · split
      · exact .setTask m text _
      · exact .setTask m text _
    next bytes due _ =>
      split
      · exact .sent bytes rfl rfl rfl rfl
      · exact .refl m
    · exact .refl m
  | execute query =>
    show DataStep m (m.execute query)
    unfold execute
    split
    next q hq => exact .executed q (List.mem_of_find?_eq_some hq) rfl rfl rfl rfl
    next => exact .refl m
  | reply text ok =>
    show DataStep m (m.reply text ok)
    unfold reply
    split
    · split
      · exact .setTask m text _
      · exact .refl m
    · exact .refl m
  | connected sessionId => exact .connected sessionId rfl rfl rfl rfl

theorem DataStep.now_le {m m' : KeepaliveManager} (h : DataStep m m') : m.now ≤ m'.now := by
  cases h with
  | kept now => exact now
  | sent _ now | executed _ _ now | connected _ now => exact now.ge

theorem DataStep.queries_le {m m' : KeepaliveManager} (h : DataStep m m') : m.queries ≤ m'.queries := by
  cases h with
  | kept _ _ _ queries | executed _ _ _ _ _ queries | connected _ _ _ _ queries => exact queries.ge
  | sent _ _ _ _ queries => exact queries.symm ▸ Nat.le_succ _

/-! ## Spacing -/

/-- The task of a session sends its query when it is resumed. -/
def Due (sessionId : String) (m : KeepaliveManager) : Prop :=
  match m.tasks sessionId with
  | some (.sleeping _ due) => due ≤ m.now
  | _ => False

instance (sessionId : String) (m : KeepaliveManager) : Decidable (m.Due sessionId) := by
  unfold Due
  split <;> infer_instance

/-- The step starts, stops or pings a session. -/
def Touches (sessionId : String) (m : KeepaliveManager) (e : KeepaliveEvent) : Prop :=
  e.Controls sessionId ∨ e = .resume sessionId ∧ m.Due sessionId

theorem due_iff {sessionId : String} {m : KeepaliveManager} :
    m.Due sessionId ↔ ∃ bytes due, m.tasks sessionId = some (.sleeping bytes due) ∧ due ≤ m.now := by
  unfold Due
  split
  next bytes due h =>
    constructor
    · intro hdue
      exact ⟨bytes, due, h, hdue⟩
    · rintro ⟨bytes', due', h', hdue⟩
      cases h.symm.trans h'
      exact hdue
  next h =>
    refine iff_of_false not_false ?_
    rintro ⟨bytes, due, h', -⟩
    exact h bytes due h'

/-- A session that was touched at a time is not due before an interval has passed since. -/
structure QuietSince (sessionId : String) (touched : Nat) (m : KeepaliveManager) : Prop where
  past : touched ≤ m.now
  due : ∀ bytes due, m.tasks sessionId = some (.sleeping bytes due) → touched + KEEPALIVE_INTERVAL ≤ due

theorem QuietSince.of_touches {sessionId : String} {m : KeepaliveManager} {e : KeepaliveEvent}
    (h : m.Touches sessionId e) : QuietSince sessionId m.now (m.step e) := by
  refine ⟨(dataStep m e).now_le, fun bytes due hloop => ?_⟩
  rcases h with hcontrols | ⟨rfl, hdue⟩
  · cases e with
    | start text =>
      obtain rfl : text = sessionId := hcontrols
      simp [step, start] at hloop
    | stop text =>
      obtain rfl : text = sessionId := hcontrols
      simp [step, stop] at hloop
    | stopAll => cases hloop
    | _ => exact hcontrols.elim
  · obtain ⟨bytes', due', hasleep, hle⟩ := due_iff.mp hdue
    rw [step, resume_of_due hasleep hle, tasks_sendPing_self] at hloop
    cases hloop

theorem QuietSince.step {sessionId : String} {touched : Nat} {m : KeepaliveManager} (e : KeepaliveEvent)
    (h : QuietSince sessionId touched m) : QuietSince sessionId touched (m.step e) := by
  refine ⟨h.past.trans ((dataStep m e).now_le), fun bytes due hloop' => ?_⟩
  rcases loopStep_cases hloop' with hspawned | ⟨loop, hloop, hcase⟩
  · cases hspawned
  · cases hcase with
    | stays => exact h.due bytes due hloop
    | slept => exact Nat.add_le_add_right h.past _
    | replied => exact Nat.add_le_add_right h.past _

/-- **Spacing.** Whenever a ping is sent, its session was neither started nor stopped nor pinged for a whole interval,
whatever the order of the steps; a session that is started again sooner each time is never pinged. -/
theorem pings_spaced {m : KeepaliveManager} {sessionId : String} {pre mid : List KeepaliveEvent} {e : KeepaliveEvent}
    (htouches : (pre.foldl step m).Touches sessionId e) (hdue : ((pre ++ e :: mid).foldl step m).Due sessionId) :
    (pre.foldl step m).now + KEEPALIVE_INTERVAL ≤ ((pre ++ e :: mid).foldl step m).now := by
  have hquiet : QuietSince sessionId (pre.foldl step m).now ((pre ++ e :: mid).foldl step m) := by
    rw [List.foldl_append, List.foldl_cons]
    exact mid.foldlRecOn step (QuietSince.of_touches htouches) fun _ hquiet e _ => hquiet.step e
  obtain ⟨bytes, due, hloop, hle⟩ := due_iff.mp hdue
  exact (hquiet.due bytes due hloop).trans hle

/-- No tasks, and a row that was never written since the clock started. -/
def Sample.idle : KeepaliveManager := new 0 [⟨[0], true, 0⟩]

/-- A session started again after two thirds of an interval is pinged a whole interval later. -/
theorem pings_spaced_restarted :
    (List.foldl step Sample.idle [.start "00", .resume "00", .wait 20000]).now + KEEPALIVE_INTERVAL ≤
      (List.foldl step Sample.idle
        ([.start "00", .resume "00", .wait 20000] ++ .start "00" :: [.resume "00", .wait 30000])).now :=
  pings_spaced (e := .start "00") (.inl rfl) (by decide)

end KeepaliveManager

/-! ## What holds of every manager -/

def KeepaliveLoop.parsedId : KeepaliveLoop → Option Bytes
  | .sleeping bytes _ | .pinging bytes _ _ => some bytes
  | _ => none

/-! ## How old `last_active` gets -/

/-- The longest time from one attempt to the next: an interval, and the lag of the reply and of the runtime. -/
def pingPeriod (lag : Nat) : Nat := KEEPALIVE_INTERVAL + 2 * lag

/-- How old `last_active` gets when the last `failures` pings have failed. -/
def longestSilence (lag failures : Nat) : Nat := KEEPALIVE_INTERVAL + 3 * lag + failures * pingPeriod lag

/-- How many replies at the end are failures. -/
def failuresInARow (replies : List Bool) : Nat := replies.foldl (fun n ok => if ok then 0 else n + 1) 0

@[simp] theorem failuresInARow_concat (replies : List Bool) (ok : Bool) :
    failuresInARow (replies ++ [ok]) = if ok then 0 else failuresInARow replies + 1 := by
  rw [failuresInARow, List.foldl_append]
  rfl

namespace KeepaliveManager

/-- The runtime runs a new task, wakes one that is due and hands over a reply within `lag`. -/
def Prompt (lag : Nat) (sessionId : String) (m : KeepaliveManager) : Prop :=
  match m.tasks sessionId with
  | some (.spawned since) => m.now ≤ since + lag
  | some (.sleeping _ due) => m.now ≤ due + lag
  | some (.pinging _ sent _) => m.now ≤ sent + lag
  | _ => True

instance (lag : Nat) (sessionId : String) (m : KeepaliveManager) : Decidable (m.Prompt lag sessionId) := by
  unfold Prompt
  split <;> infer_instance

/-- The manager has seen nothing from the future, and its tasks have the ids their texts stand for. -/
structure Sound (m : KeepaliveManager) : Prop where
  wallets : ∀ w ∈ m.wallets, w.lastActive ≤ m.now
  inFlight : ∀ q ∈ m.inFlight, q.id < m.queries
  spawned : ∀ sessionId since, m.tasks sessionId = some (.spawned since) → since ≤ m.now
  sleeping : ∀ sessionId bytes due, m.tasks sessionId = some (.sleeping bytes due) → due ≤ m.now + KEEPALIVE_INTERVAL
  pinging : ∀ sessionId bytes sent query, m.tasks sessionId = some (.pinging bytes sent query) →
    sent ≤ m.now ∧ query < m.queries
  parsed : ∀ sessionId loop bytes, m.tasks sessionId = some loop → loop.parsedId = some bytes →
    hexDecode sessionId = some bytes

/-! ### Nothing from the future -/

theorem Sound.new {now : Nat} {wallets : List ActivityRow} (h : ∀ w ∈ wallets, w.lastActive ≤ now) :
    (new now wallets).Sound where
  wallets := h
  inFlight := fun _ hq => nomatch hq
  spawned := fun _ _ hloop => nomatch hloop
  sleeping := fun _ _ _ hloop => nomatch hloop
  pinging := fun _ _ _ _ hloop => nomatch hloop
  parsed := fun _ _ _ hloop => nomatch hloop

theorem Sound.step {m : KeepaliveManager} (h : m.Sound) (e : KeepaliveEvent) : (m.step e).Sound where
  wallets := by
    intro w hw
    cases dataStep m e with
    | kept now wallets => exact (h.wallets w (wallets ▸ hw)).trans now
    | sent bytes now wallets => exact (h.wallets w (wallets ▸ hw)).trans now.ge
    | executed q mem now wallets =>
      rw [wallets, List.mem_map] at hw
      obtain ⟨w, hw, rfl⟩ := hw
      rw [now, ActivityRow.ping]
      split
      · exact le_rfl
      · exact h.wallets w hw
    | connected sessionId now wallets =>
      rw [wallets, List.mem_append, List.mem_singleton] at hw
      rw [now]
      rcases hw with hw | rfl
      · exact h.wallets w hw
      · exact le_rfl
  inFlight := by
    intro q hq
    cases dataStep m e with
    | kept _ _ inFlight queries => exact queries ▸ h.inFlight q (inFlight ▸ hq)
    | sent bytes _ _ inFlight queries =>
      rw [inFlight, List.mem_append, List.mem_singleton] at hq
      rw [queries]
      rcases hq with hq | rfl
      · exact Nat.lt_succ_of_lt (h.inFlight q hq)
      · exact Nat.lt_succ_self m.queries
    | executed q' _ _ _ inFlight queries =>
      rw [inFlight] at hq
      exact queries ▸ h.inFlight q (List.mem_of_mem_erase hq)
    | connected _ _ _ inFlight queries => exact queries ▸ h.inFlight q (inFlight ▸ hq)
  spawned := by
    intro sessionId since hloop'
    rcases loopStep_cases hloop' with hnew | ⟨loop, hloop, hcase⟩
    · cases hnew
      exact (dataStep m e).now_le
    · cases hcase with
      | stays => exact (h.spawned sessionId since hloop).trans (dataStep m e).now_le
  sleeping := by
    intro sessionId bytes due hloop'
    rcases loopStep_cases hloop' with hnew | ⟨loop, hloop, hcase⟩
    · cases hnew
    · cases hcase with
      | stays =>
        exact (h.sleeping sessionId bytes due hloop).trans (Nat.add_le_add_right (dataStep m e).now_le _)
      | slept | replied => exact Nat.add_le_add_right (dataStep m _).now_le _
  pinging := by
    intro sessionId bytes sent query hloop'
    rcases loopStep_cases hloop' with hnew | ⟨loop, hloop, hcase⟩
    · cases hnew
    · cases hcase with
      | stays =>
        have hbefore := h.pinging sessionId bytes sent query hloop
        exact ⟨hbefore.1.trans (dataStep m e).now_le, hbefore.2.trans_le (dataStep m e).queries_le⟩
      | pinged bytes hdue =>
        refine ⟨(dataStep m _).now_le, ?_⟩
        show m.queries < (m.resume sessionId).queries
        rw [resume_of_due hloop hdue]
        exact Nat.lt_succ_self m.queries
  parsed := by
    intro sessionId loop' bytes hloop' hparsed
    rcases loopStep_cases hloop' with rfl | ⟨loop, hloop, hcase⟩
    · cases hparsed
    · cases hcase with
      | stays => exact h.parsed sessionId _ bytes hloop hparsed
      | returned => cases hparsed
      | slept since hdecode => exact hdecode.trans hparsed
      | pinged | replied => exact h.parsed sessionId _ bytes hloop hparsed

end KeepaliveManager

/-! ### A task that is kept -/

/-- The loop runs, for the session with the given id. -/
def KeepaliveLoop.RunsFor (sessionIdBytes : Bytes) : KeepaliveLoop → Prop
  | .spawned _ => True
  | .returned => False
  | .sleeping bytes _ | .pinging bytes _ _ => bytes = sessionIdBytes

/-- How far the loop has got since `reached`: that is when it was started, or when the row was last written. -/
def KeepaliveLoop.Reached (lag failures reached : Nat) : KeepaliveLoop → Prop
  | .spawned since => since ≤ reached
  | .returned => False
  | .sleeping _ due => due ≤ reached + (KEEPALIVE_INTERVAL + lag) + failures * pingPeriod lag
  | .pinging _ sent _ => sent ≤ reached + (KEEPALIVE_INTERVAL + 2 * lag) + failures * pingPeriod lag

theorem KeepaliveLoop.Reached.mono {lag failures reached reached' : Nat} {loop : KeepaliveLoop}
    (h : loop.Reached lag failures reached) (hle : reached ≤ reached') : loop.Reached lag failures reached' := by
  cases loop with
  | spawned since => exact le_trans h hle
  | returned => exact h
  | sleeping bytes due =>
    simp only [KeepaliveLoop.Reached] at h ⊢
    omega
  | pinging bytes sent query =>
    simp only [KeepaliveLoop.Reached] at h ⊢
    omega

namespace KeepaliveManager

/-- No loop is further than the clock lets it be. -/
theorem Sound.reached {m : KeepaliveManager} (h : m.Sound) {sessionId : String} {bytes : Bytes} {loop : KeepaliveLoop}
    (hloop : m.tasks sessionId = some loop) (hruns : loop.RunsFor bytes) (lag failures : Nat) :
    loop.Reached lag failures m.now := by
  cases loop with
  | spawned since => exact h.spawned sessionId since hloop
  | returned => exact hruns.elim
  | sleeping bytes due =>
    have hdue := h.sleeping sessionId bytes due hloop
    simp only [KeepaliveLoop.Reached]
    omega
  | pinging bytes sent query =>
    have hsent := (h.pinging sessionId bytes sent query hloop).1
    simp only [KeepaliveLoop.Reached]
    omega

/-- The task of a session that was started at a time and is kept since, `failures` pings having failed in a row: where
it stands for each row of the session, and that its query is its own and leaves its time in the row. -/
structure Kept (sessionId : String) (sessionIdBytes : Bytes) (started lag failures : Nat) (m : KeepaliveManager)
    (loop : KeepaliveLoop) : Prop where
  task : m.tasks sessionId = some loop
  runs : loop.RunsFor sessionIdBytes
  reached : ∀ w ∈ m.wallets, w.sessionId = sessionIdBytes → loop.Reached lag failures (max started w.lastActive)
  own : ∀ bytes sent query, loop = .pinging bytes sent query → ∀ q ∈ m.inFlight, q.id = query →
    q.sessionId = sessionIdBytes
  answered : ∀ bytes sent query, loop = .pinging bytes sent query → m.queryOf query = none →
    ∀ w ∈ m.wallets, w.sessionId = sessionIdBytes → sent ≤ w.lastActive

theorem queryOf_eq_none {m : KeepaliveManager} {query : Nat} :
    m.queryOf query = none ↔ ∀ q ∈ m.inFlight, q.id ≠ query := by
  simp [queryOf]

theorem DataStep.row {m m' : KeepaliveManager} (h : DataStep m m') {w' : ActivityRow} (hw' : w' ∈ m'.wallets) :
    (∃ w ∈ m.wallets, w.sessionId = w'.sessionId ∧ w.lastActive ≤ w'.lastActive) ∨ m.now ≤ w'.lastActive := by
  cases h with
  | kept _ wallets | sent _ _ wallets => exact .inl ⟨w', wallets ▸ hw', rfl, le_rfl⟩
  | executed q _ _ wallets =>
    rw [wallets, List.mem_map] at hw'
    obtain ⟨w, hw, rfl⟩ := hw'
    rw [ActivityRow.ping]
    split
    · exact .inr le_rfl
    · exact .inl ⟨w, hw, rfl, le_rfl⟩
  | connected sessionId _ wallets =>
    rw [wallets, List.mem_append, List.mem_singleton] at hw'
    rcases hw' with hw' | rfl
    · exact .inl ⟨w', hw', rfl, le_rfl⟩
    · exact .inr le_rfl

theorem DataStep.reached {m m' : KeepaliveManager} (h : DataStep m m') {loop : KeepaliveLoop} {sessionIdBytes : Bytes}
    {started lag failures : Nat}
    (hrows : ∀ w ∈ m.wallets, w.sessionId = sessionIdBytes → loop.Reached lag failures (max started w.lastActive))
    (hnow : loop.Reached lag failures m.now) :
    ∀ w ∈ m'.wallets, w.sessionId = sessionIdBytes → loop.Reached lag failures (max started w.lastActive) := by
  intro w' hw' hid
  rcases h.row hw' with ⟨w, hw, hsame, hle⟩ | hle
  · exact (hrows w hw (hsame.trans hid)).mono (max_le_max_left started hle)
  · exact hnow.mono (hle.trans (le_max_right ..))

section Steps
variable {sessionId : String} {sessionIdBytes : Bytes} {started lag failures : Nat} {m : KeepaliveManager}
  {loop : KeepaliveLoop}

theorem Kept.stays (h : Kept sessionId sessionIdBytes started lag failures m loop) (hsound : m.Sound)
    {m' : KeepaliveManager} (htask : m'.tasks sessionId = some loop) (hdata : DataStep m m') :
    Kept sessionId sessionIdBytes started lag failures m' loop where
  task := htask
  runs := h.runs
  reached := hdata.reached h.reached (hsound.reached h.task h.runs lag failures)
  own := by
    intro bytes sent query hloop q hq hquery
    have hbefore := h.own bytes sent query hloop q
    cases hdata with
    | kept _ _ inFlight | connected _ _ _ inFlight => exact hbefore (inFlight ▸ hq) hquery
    | executed q' _ _ _ inFlight => exact hbefore (List.mem_of_mem_erase (inFlight ▸ hq)) hquery
    | sent bytes' _ _ inFlight =>
      rw [inFlight, List.mem_append, List.mem_singleton] at hq
      rcases hq with hq | rfl
      · exact hbefore hq hquery
      · subst hloop
        exact absurd hquery (hsound.pinging sessionId bytes sent query h.task).2.ne'
  answered := by
    intro bytes sent query hloop hnone w' hw' hid
    have hpast : sent ≤ m.now := (hsound.pinging sessionId bytes sent query (hloop ▸ h.task)).1
    rcases hdata.row hw' with ⟨w, hw, hsame, hle⟩ | hnow
    · -- The query is still gone, or was executed in this step and left its time in every row of the session.
      by_cases hbefore : m.queryOf query = none
      · exact (h.answered bytes sent query hloop hbefore w hw (hsame.trans hid)).trans hle
      · rw [queryOf_eq_none] at hbefore hnone
        push Not at hbefore
        obtain ⟨q, hq, hquery⟩ := hbefore
        cases hdata with
        | kept _ _ inFlight | connected _ _ _ inFlight => exact absurd hquery (hnone q (inFlight.symm ▸ hq))
        | sent _ _ _ inFlight => exact absurd hquery (hnone q (inFlight.symm ▸ List.mem_append_left _ hq))
        | executed q' _ _ wallets inFlight =>
          have heq : q = q' := by
            by_contra hne
            exact hnone q (inFlight.symm ▸ (List.mem_erase_of_ne hne).mpr hq) hquery
          rw [wallets, List.mem_map] at hw'
          obtain ⟨w'', -, rfl⟩ := hw'
          rw [← heq, h.own bytes sent query hloop q hq hquery] at hid ⊢
          rw [ActivityRow.ping] at hid ⊢
          split
          · exact hpast
          next hother =>
            rw [if_neg hother] at hid
            exact absurd hid hother
    · exact hpast.trans hnow

/-- The failures in a row after a step. -/
def failuresAfter (sessionId : String) (m : KeepaliveManager) (e : KeepaliveEvent) (failures : Nat) : Nat :=
  (replyTaken sessionId m e).elim failures fun ok => if ok then 0 else failures + 1

theorem replyTaken_reply {bytes : Bytes} {sent query : Nat} {ok : Bool}
    (htask : m.tasks sessionId = some (.pinging bytes sent query)) (hok : ok = true → m.queryOf query = none) :
    replyTaken sessionId m (.reply sessionId ok) = some ok := by
  simp only [replyTaken, htask, true_and]
  exact if_pos hok

theorem Kept.sleeping {m' : KeepaliveManager} {due : Nat} (hdata : DataStep m m')
    (htask : m'.tasks sessionId = some (.sleeping sessionIdBytes due))
    (hrows : ∀ w ∈ m.wallets, w.sessionId = sessionIdBytes →
      (KeepaliveLoop.sleeping sessionIdBytes due).Reached lag failures (max started w.lastActive))
    (hdue : due ≤ m.now + KEEPALIVE_INTERVAL) :
    Kept sessionId sessionIdBytes started lag failures m' (.sleeping sessionIdBytes due) where
  task := htask
  runs := rfl
  reached := hdata.reached hrows (by simp only [KeepaliveLoop.Reached]; omega)
  own := fun _ _ _ hloop => nomatch hloop
  answered := fun _ _ _ hloop => nomatch hloop

theorem Kept.pinging (hsound : m.Sound)
    (hrows : ∀ w ∈ m.wallets, w.sessionId = sessionIdBytes →
      (KeepaliveLoop.pinging sessionIdBytes m.now m.queries).Reached lag failures (max started w.lastActive)) :
    Kept sessionId sessionIdBytes started lag failures (m.sendPing sessionId sessionIdBytes)
      (.pinging sessionIdBytes m.now m.queries) where
  task := tasks_sendPing_self m sessionId sessionIdBytes
  runs := rfl
  reached := hrows
  own := by
    intro bytes sent query hloop q hq hquery
    cases hloop
    rcases List.mem_append.mp hq with hq | hq
    · exact absurd hquery (hsound.inFlight q hq).ne
    · exact congrArg PingQuery.sessionId (List.mem_singleton.mp hq)
  answered := by
    intro bytes sent query hloop hnone
    cases hloop
    exact absurd rfl (queryOf_eq_none.mp hnone _ (List.mem_append_right _ (List.mem_singleton_self _)))

/-- A prompt task that is neither started nor stopped is kept by every step. -/
theorem Kept.step (h : Kept sessionId sessionIdBytes started lag failures m loop)
    (hdecode : hexDecode sessionId = some sessionIdBytes) (hsound : m.Sound) (hprompt : m.Prompt lag sessionId)
    {e : KeepaliveEvent} (hcontrols : ¬ e.Controls sessionId) :
    ∃ loop', Kept sessionId sessionIdBytes started lag (failuresAfter sessionId m e failures) (m.step e) loop' := by
  obtain ⟨loop', htask, hcase⟩ := loopStep hcontrols h.task
  have hdata := dataStep m e
  have hruns := h.runs
  have hreached := h.reached
  rw [Prompt, h.task] at hprompt
  cases hcase with
  | stays loop hnone =>
    rw [failuresAfter, hnone]
    exact ⟨loop, h.stays hsound htask hdata⟩
  | returned since hnone => cases hnone.symm.trans hdecode
  | slept since hsome =>
    cases hsome.symm.trans hdecode
    refine ⟨_, Kept.sleeping hdata htask (fun w hw hid => ?_) le_rfl⟩
    have hsince : since ≤ max started w.lastActive := hreached w hw hid
    simp only [KeepaliveLoop.Reached]
    omega
  | @pinged bytes due hdue =>
    obtain rfl : bytes = sessionIdBytes := hruns
    rw [step, resume_of_due h.task hdue]
    refine ⟨_, Kept.pinging hsound fun w hw hid => ?_⟩
    have hreach := hreached w hw hid
    simp only [KeepaliveLoop.Reached, failuresAfter, replyTaken, Option.elim_none] at hreach ⊢
    omega
  | @replied bytes sent query ok hok =>
    obtain rfl : bytes = sessionIdBytes := hruns
    rw [failuresAfter, replyTaken_reply h.task hok]
    refine ⟨_, Kept.sleeping hdata htask (fun w hw hid => ?_) le_rfl⟩
    have hsent := hreached w hw hid
    simp only [KeepaliveLoop.Reached, Option.elim_some] at hsent ⊢
    cases ok with
    | true =>
      have hwritten := h.answered bytes sent query rfl (hok rfl) w hw hid
      simp only [if_true]
      omega
    | false =>
      simp only [Bool.false_eq_true, if_false, Nat.succ_mul, pingPeriod] at hsent ⊢
      omega

end Steps

/-! ### Runs -/

/-- The replies a task takes in a run from its start, the oldest first. -/
def repliesFrom (sessionId : String) (m : KeepaliveManager) (events : List KeepaliveEvent) : List Bool :=
  writes step (replyTaken sessionId) m events

/-- A session is kept for some steps from its start: no step starts or stops it, and its task is prompt throughout. -/
structure KeptFor (lag : Nat) (sessionId : String) (m : KeepaliveManager) (events : List KeepaliveEvent) : Prop where
  untouched : ∀ e ∈ events, ¬ e.Controls sessionId
  prompt : Always (Prompt lag sessionId) step m events

/-- The rows of a session are never silent for longer than a time, once its task has run that long and while no more
than some number of its last pings have failed. -/
def StaysActive (lag failures ttl : Nat) : Prop :=
  ∀ (m : KeepaliveManager), m.Sound → ∀ (sessionId : String) (sessionIdBytes : Bytes),
    hexDecode sessionId = some sessionIdBytes → ∀ events, KeptFor lag sessionId (m.start sessionId) events →
      failuresInARow (repliesFrom sessionId (m.start sessionId) events) ≤ failures →
        let now := (events.foldl step (m.start sessionId)).now
        m.now + ttl < now → ∀ w ∈ (events.foldl step (m.start sessionId)).wallets, w.sessionId = sessionIdBytes →
          now ≤ w.lastActive + ttl

theorem sound_foldl {m : KeepaliveManager} (h : m.Sound) (events : List KeepaliveEvent) :
    (events.foldl step m).Sound :=
  events.foldlRecOn step h fun _ hm e _ => hm.step e

theorem failuresAfter_eq (sessionId : String) (m : KeepaliveManager) (e : KeepaliveEvent) (replies : List Bool) :
    failuresAfter sessionId m e (failuresInARow replies) =
      failuresInARow (replies ++ (replyTaken sessionId m e).toList) := by
  cases h : replyTaken sessionId m e with
  | none => rw [failuresAfter, h, Option.toList_none, List.append_nil, Option.elim_none]
  | some ok => rw [failuresAfter, h, Option.toList_some, failuresInARow_concat, Option.elim_some]

section Runs
variable {sessionId : String} {sessionIdBytes : Bytes} {lag failures ttl : Nat} {m : KeepaliveManager}
  {events : List KeepaliveEvent}

theorem kept_start (sessionId : String) (sessionIdBytes : Bytes) (lag failures : Nat) (m : KeepaliveManager) :
    Kept sessionId sessionIdBytes m.now lag failures (m.start sessionId) (.spawned m.now) where
  task := tasks_setTask_self m sessionId _
  runs := trivial
  reached := fun _ _ _ => le_max_left ..
  own := fun _ _ _ hloop => nomatch hloop
  answered := fun _ _ _ hloop => nomatch hloop

theorem KeptFor.exists_kept (h : KeptFor lag sessionId (m.start sessionId) events) (hsound : m.Sound)
    (hdecode : hexDecode sessionId = some sessionIdBytes) :
    ∃ loop, Kept sessionId sessionIdBytes m.now lag (failuresInARow (repliesFrom sessionId (m.start sessionId) events))
      (events.foldl step (m.start sessionId)) loop := by
  obtain ⟨huntouched, hprompt⟩ := h
  have hstart : (m.start sessionId).Sound := hsound.step (.start sessionId)
  induction events using List.reverseRecOn with
  | nil => exact ⟨_, kept_start sessionId sessionIdBytes lag 0 m⟩
  | append_singleton events e ih =>
    rw [always_append] at hprompt
    obtain ⟨loop, hkept⟩ := ih (fun e' he' => huntouched e' (List.mem_append_left _ he')) hprompt.1
    have hcontrols := huntouched e (List.mem_append_right _ (List.mem_singleton_self e))
    have hnext := hkept.step hdecode (sound_foldl hstart events) hprompt.1.last hcontrols
    rw [failuresAfter_eq, repliesFrom, ← writes_concat] at hnext
    rw [List.foldl_concat]
    exact hnext

/-- How old `last_active` is for a task that is kept and prompt. -/
theorem Kept.now_le {started : Nat} {loop : KeepaliveLoop}
    (h : Kept sessionId sessionIdBytes started lag failures m loop) (hprompt : m.Prompt lag sessionId) {w : ActivityRow}
    (hw : w ∈ m.wallets) (hid : w.sessionId = sessionIdBytes) :
    m.now ≤ max started w.lastActive + longestSilence lag failures := by
  have hreached := h.reached w hw hid
  rw [Prompt, h.task] at hprompt
  unfold longestSilence
  cases loop with
  | spawned since =>
    simp only [KeepaliveLoop.Reached] at hreached hprompt
    omega
  | returned => exact h.runs.elim
  | sleeping bytes due =>
    simp only [KeepaliveLoop.Reached] at hreached hprompt
    omega
  | pinging bytes sent query =>
    simp only [KeepaliveLoop.Reached] at hreached hprompt
    omega

theorem longestSilence_mono (lag : Nat) {failures failures' : Nat} (h : failures ≤ failures') :
    longestSilence lag failures ≤ longestSilence lag failures' :=
  Nat.add_le_add_left (Nat.mul_le_mul_right _ h) _

theorem staysActive_of_longestSilence_le (h : longestSilence lag failures ≤ ttl) : StaysActive lag failures ttl := by
  intro m hsound sessionId sessionIdBytes hdecode events hkeptFor hfailures now hup w hw hid
  obtain ⟨loop, hkept⟩ := hkeptFor.exists_kept hsound hdecode
  have hnow := hkept.now_le hkeptFor.prompt.last hw hid
  have hmono := (longestSilence_mono lag hfailures).trans h
  show now ≤ w.lastActive + ttl
  omega

end Runs

/-! ### The worst case -/

section WorstCase

/-- An attempt as late as it may be: the task wakes late, and its reply is still to come. -/
def Sample.lateAttempt (lag : Nat) : List KeepaliveEvent :=
  [.wait (KEEPALIVE_INTERVAL + lag), .resume "00", .wait lag]

/-- A late attempt that fails. -/
def Sample.failedAttempt (lag : Nat) : List KeepaliveEvent := Sample.lateAttempt lag ++ [.reply "00" false]

/-- Some late attempts that fail, and one more. -/
def Sample.lateRun (lag failures : Nat) : List KeepaliveEvent :=
  [.wait lag, .resume "00"] ++ ((List.replicate failures (Sample.failedAttempt lag)).flatten ++ Sample.lateAttempt lag)

/-- At a time, the task has just gone to sleep and the row is as it was. -/
structure Asleep (time : Nat) (m : KeepaliveManager) : Prop where
  now : m.now = time
  task : m.tasks "00" = some (.sleeping [0] (time + KEEPALIVE_INTERVAL))
  wallets : m.wallets = [⟨[0], true, 0⟩]

variable {time : Nat} {m : KeepaliveManager}

structure Attempted (lag time : Nat) (m : KeepaliveManager) : Prop where
  now : ((Sample.lateAttempt lag).foldl step m).now = time + pingPeriod lag
  task : ∃ query, ((Sample.lateAttempt lag).foldl step m).tasks "00" =
    some (.pinging [0] (time + KEEPALIVE_INTERVAL + lag) query)
  wallets : ((Sample.lateAttempt lag).foldl step m).wallets = [⟨[0], true, 0⟩]
  prompt : Always (Prompt lag "00") step m (Sample.lateAttempt lag)
  silent : repliesFrom "00" m (Sample.lateAttempt lag) = []

theorem Asleep.attempt (lag : Nat) (h : Asleep time m) : Attempted lag time m := by
  have hwake : (m.step (.wait (KEEPALIVE_INTERVAL + lag))).now = time + KEEPALIVE_INTERVAL + lag := by
    rw [step, h.now, Nat.add_assoc]
  have hasleep : (m.step (.wait (KEEPALIVE_INTERVAL + lag))).tasks "00" =
      some (.sleeping [0] (time + KEEPALIVE_INTERVAL)) := h.task
  have hresume : (m.step (.wait (KEEPALIVE_INTERVAL + lag))).step (.resume "00") =
      (m.step (.wait (KEEPALIVE_INTERVAL + lag))).sendPing "00" [0] :=
    resume_of_due hasleep (by rw [hwake]; exact Nat.le_add_right _ _)
  have htask : ((m.step (.wait (KEEPALIVE_INTERVAL + lag))).step (.resume "00")).tasks "00" =
      some (.pinging [0] (time + KEEPALIVE_INTERVAL + lag) m.queries) := by
    rw [hresume, tasks_sendPing_self, hwake]
    rfl
  have hnow : ((Sample.lateAttempt lag).foldl step m).now = time + pingPeriod lag := by
    show ((m.step (.wait (KEEPALIVE_INTERVAL + lag))).step (.resume "00")).now + lag = _
    rw [hresume, pingPeriod]
    show (m.step (.wait (KEEPALIVE_INTERVAL + lag))).now + lag = _
    rw [hwake]
    omega
  refine ⟨hnow, ⟨m.queries, htask⟩, ?_, ⟨?_, ?_, ?_, ?_⟩, rfl⟩
  · show ((m.step (.wait (KEEPALIVE_INTERVAL + lag))).step (.resume "00")).wallets = _
    rw [hresume]
    exact h.wallets
  · rw [Prompt, h.task, h.now]
    simp only
    omega
  · rw [Prompt, hasleep, hwake]
  · rw [Prompt, htask, hresume]
    show (m.step (.wait (KEEPALIVE_INTERVAL + lag))).now ≤ _
    rw [hwake]
    exact Nat.le_add_right _ _
  · show Prompt lag "00" ((Sample.lateAttempt lag).foldl step m)
    rw [Prompt, show ((Sample.lateAttempt lag).foldl step m).tasks "00" = _ from htask, hnow, pingPeriod]
    simp only
    omega

theorem Asleep.fail (lag : Nat) (h : Asleep time m) :
    Asleep (time + pingPeriod lag) ((Sample.failedAttempt lag).foldl step m) ∧
      Always (Prompt lag "00") step m (Sample.failedAttempt lag) ∧
      repliesFrom "00" m (Sample.failedAttempt lag) = [false] := by
  obtain ⟨hnow, ⟨query, htask⟩, hwallets, hprompt, hsilent⟩ := h.attempt lag
  have hreply : (Sample.failedAttempt lag).foldl step m = ((Sample.lateAttempt lag).foldl step m).setTask "00"
      (some (.sleeping [0] (time + pingPeriod lag + KEEPALIVE_INTERVAL))) := by
    rw [Sample.failedAttempt, List.foldl_concat, step, reply, htask, ← hnow]
    exact if_pos fun hok => nomatch hok
  have hasleep : Asleep (time + pingPeriod lag) ((Sample.failedAttempt lag).foldl step m) := by
    rw [hreply]
    exact ⟨hnow, tasks_setTask_self _ "00" _, hwallets⟩
  have hlast : Prompt lag "00" ((Sample.failedAttempt lag).foldl step m) := by
    rw [Prompt, hasleep.task, hasleep.now]
    simp only
    omega
  have hfailed : replyTaken "00" ((Sample.lateAttempt lag).foldl step m) (.reply "00" false) = some false :=
    replyTaken_reply htask fun hok => absurd hok Bool.false_ne_true
  refine ⟨hasleep, always_append.mpr ⟨hprompt, hprompt.last, hlast⟩, ?_⟩
  rw [repliesFrom] at hsilent ⊢
  rw [Sample.failedAttempt, writes_concat, hsilent, hfailed]
  rfl

theorem Asleep.failAll (lag failures : Nat) (h : Asleep time m) :
    let events := (List.replicate failures (Sample.failedAttempt lag)).flatten
    Asleep (time + failures * pingPeriod lag) (events.foldl step m) ∧ Always (Prompt lag "00") step m events ∧
      repliesFrom "00" m events = List.replicate failures false := by
  induction failures generalizing time m with
  | zero =>
    refine ⟨by rwa [Nat.zero_mul], ?_, rfl⟩
    show Prompt lag "00" m
    rw [Prompt, h.task, h.now]
    simp only
    omega
  | succ failures ih =>
    obtain ⟨hfirst, hpromptFirst, hrepliesFirst⟩ := h.fail lag
    obtain ⟨hrest, hpromptRest, hrepliesRest⟩ := ih hfirst
    simp only [List.replicate_succ, List.flatten_cons, List.foldl_append, repliesFrom, writes_append] at *
    refine ⟨?_, always_append.mpr ⟨hpromptFirst, hpromptRest⟩, ?_⟩
    · rwa [Nat.succ_mul, Nat.add_comm (failures * _), ← Nat.add_assoc]
    · rw [hrepliesFirst, hrepliesRest]
      rfl

theorem failuresInARow_replicate (failures : Nat) : failuresInARow (List.replicate failures false) = failures := by
  induction failures with
  | zero => rfl
  | succ failures ih => rw [List.replicate_succ', failuresInARow_concat, ih, if_neg Bool.false_ne_true]

theorem not_controls_lateRun (lag failures : Nat) : ∀ e ∈ Sample.lateRun lag failures, ¬ e.Controls "00" := by
  have hspawned : ∀ e ∈ [.wait lag, .resume "00"], ¬ KeepaliveEvent.Controls "00" e := by
    simp [KeepaliveEvent.Controls]
  have hlate : ∀ e ∈ Sample.lateAttempt lag, ¬ e.Controls "00" := by simp [Sample.lateAttempt, KeepaliveEvent.Controls]
  have hfailed : ∀ e ∈ Sample.failedAttempt lag, ¬ e.Controls "00" := by
    simp [Sample.failedAttempt, Sample.lateAttempt, KeepaliveEvent.Controls]
  intro e he
  rcases List.mem_append.mp he with hfirst | hrest
  · exact hspawned e hfirst
  · rcases List.mem_append.mp hrest with hfailing | hlast
    · obtain ⟨attempt, hattempt, he⟩ := List.mem_flatten.mp hfailing
      rw [List.eq_of_mem_replicate hattempt] at he
      exact hfailed e he
    · exact hlate e hlast

/-- **The worst case.** The row is silent for as long as it may be when every step is as late as it may be, the last
query was sent and not yet executed, and those before it failed. -/
theorem longestSilence_le_of_staysActive {lag failures ttl : Nat} (h : StaysActive lag failures ttl) :
    longestSilence lag failures ≤ ttl := by
  have hstart : Asleep lag (List.foldl step (Sample.idle.start "00") [.wait lag, .resume "00"]) :=
    ⟨Nat.zero_add lag, congrArg (fun time => some (KeepaliveLoop.sleeping [0] (time + KEEPALIVE_INTERVAL)))
      (Nat.zero_add lag), rfl⟩
  obtain ⟨hasleep, hprompt, hreplies⟩ := hstart.failAll lag failures
  obtain ⟨hnow, -, hwallets, hpromptLate, hsilent⟩ := hasleep.attempt lag
  have hfinal : (Sample.lateRun lag failures).foldl step (Sample.idle.start "00") =
      (Sample.lateAttempt lag).foldl step ((List.replicate failures (Sample.failedAttempt lag)).flatten.foldl step
        (List.foldl step (Sample.idle.start "00") [.wait lag, .resume "00"])) := by
    rw [Sample.lateRun, List.foldl_append, List.foldl_append]
  have hkept : KeptFor lag "00" (Sample.idle.start "00") (Sample.lateRun lag failures) := by
    refine ⟨not_controls_lateRun lag failures, ?_⟩
    refine always_append.mpr ⟨⟨?_, ?_, hprompt.head⟩, always_append.mpr ⟨hprompt, hpromptLate⟩⟩
    · exact Nat.zero_le _
    · exact le_rfl
  have hfailures :
      failuresInARow (repliesFrom "00" (Sample.idle.start "00") (Sample.lateRun lag failures)) = failures := by
    rw [repliesFrom] at hreplies hsilent ⊢
    rw [Sample.lateRun, writes_append, writes_append, hreplies, hsilent, List.append_nil]
    exact failuresInARow_replicate failures
  have hsound : Sample.idle.Sound := Sound.new (by simp)
  have hage := h Sample.idle hsound "00" [0] (by decide) (Sample.lateRun lag failures) hkept hfailures.le
  rw [hfinal, hnow, hwallets] at hage
  have htotal : lag + failures * pingPeriod lag + pingPeriod lag = longestSilence lag failures := by
    rw [longestSilence, pingPeriod]
    omega
  by_contra hlt
  have hsilent := hage (by rw [htotal]; exact (Nat.zero_add ttl).symm ▸ not_le.mp hlt) _ (List.mem_singleton_self _) rfl
  rw [htotal, Nat.zero_add] at hsilent
  exact hlt hsilent

end WorstCase

/-- **Activity.** While a task runs and the last `failures` of its pings have failed, `last_active` is never older than
the interval, three times the lag and another interval and twice the lag for each failure; no shorter time will do. -/
theorem staysActive_iff (lag failures ttl : Nat) : StaysActive lag failures ttl ↔ longestSilence lag failures ≤ ttl :=
  ⟨longestSilence_le_of_staysActive, staysActive_of_longestSilence_le⟩

end KeepaliveManager

/-! ## Stopped sessions -/

namespace KeepaliveManager

/-- The step executes a query of a session: the time it leaves in the rows. -/
def executed (sessionIdBytes : Bytes) (m : KeepaliveManager) : KeepaliveEvent → Option Nat
  | .execute query =>
    match m.queryOf query with
    | some q => if q.sessionId = sessionIdBytes then some m.now else none
    | none => none
  | _ => none

/-- The queries of a session that are on their way. -/
def unexecuted (sessionIdBytes : Bytes) (m : KeepaliveManager) : Nat :=
  m.inFlight.countP (fun q => q.sessionId = sessionIdBytes)

/-- No task runs for a session, under any text of its id. -/
def Stopped (sessionIdBytes : Bytes) (m : KeepaliveManager) : Prop :=
  ∀ sessionId, hexDecode sessionId = some sessionIdBytes → m.tasks sessionId = none

theorem Stopped.step {sessionIdBytes : Bytes} {m : KeepaliveManager} {e : KeepaliveEvent}
    (h : m.Stopped sessionIdBytes)
    (hstart : ∀ sessionId, e = .start sessionId → hexDecode sessionId ≠ some sessionIdBytes) :
    (m.step e).Stopped sessionIdBytes :=
  fun sessionId hdecode => tasks_step_none (fun heq => hstart sessionId heq hdecode) (h sessionId hdecode)

theorem inFlight_reply (m : KeepaliveManager) (sessionId : String) (ok : Bool) :
    (m.reply sessionId ok).inFlight = m.inFlight := by
  unfold reply
  split
  · split <;> rfl
  · rfl

theorem inFlight_resume (m : KeepaliveManager) (sessionId : String) :
    (m.resume sessionId).inFlight = m.inFlight ∨ ∃ bytes due, m.tasks sessionId = some (.sleeping bytes due) ∧
      (m.resume sessionId).inFlight = m.inFlight ++ [⟨m.queries, bytes⟩] := by
  by_cases hdue : m.Due sessionId
  · obtain ⟨bytes, due, htask, hle⟩ := due_iff.mp hdue
    refine .inr ⟨bytes, due, htask, ?_⟩
    rw [resume_of_due htask hle]
    rfl
  · refine .inl ?_
    unfold resume
    split
    · split <;> rfl
    next bytes due htask =>
      have hearly : ¬ due ≤ m.now := fun hle => hdue (due_iff.mpr ⟨bytes, due, htask, hle⟩)
      rw [if_neg hearly]
    · rfl

/-- A step executes a query of a stopped session that was on its way, and sends none. -/
theorem Stopped.executed_add_unexecuted_le {sessionIdBytes : Bytes} {m : KeepaliveManager}
    (h : m.Stopped sessionIdBytes) (hsound : m.Sound) (e : KeepaliveEvent) :
    (executed sessionIdBytes m e).toList.length + (m.step e).unexecuted sessionIdBytes ≤
      m.unexecuted sessionIdBytes := by
  cases e with
  | resume sessionId =>
    show 0 + (m.resume sessionId).unexecuted sessionIdBytes ≤ _
    rw [Nat.zero_add, unexecuted, unexecuted]
    rcases inFlight_resume m sessionId with hsame | ⟨bytes, due, htask, hsent⟩
    · rw [hsame]
    · have hother : bytes ≠ sessionIdBytes := by
        rintro rfl
        have hnone := h sessionId (hsound.parsed sessionId _ bytes htask rfl)
        cases hnone.symm.trans htask
      rw [hsent, List.countP_append]
      simp [hother]
  | execute query =>
    simp only [executed, KeepaliveManager.step, execute, unexecuted]
    cases hquery : m.queryOf query with
    | none => exact (Nat.zero_add _).le
    | some q =>
      have hmem : q ∈ m.inFlight := List.mem_of_find?_eq_some hquery
      have hcount := (List.perm_cons_erase hmem).countP_eq (fun q => q.sessionId = sessionIdBytes)
      rw [List.countP_cons] at hcount
      by_cases hsession : q.sessionId = sessionIdBytes
      · simp only [hsession, decide_true, if_true, Option.toList_some, List.length_singleton] at hcount ⊢
        omega
      · simp only [hsession, decide_false, Bool.false_eq_true, if_false, Option.toList_none, List.length_nil]
          at hcount ⊢
        omega
  | reply sessionId ok =>
    show 0 + (m.reply sessionId ok).unexecuted sessionIdBytes ≤ _
    rw [Nat.zero_add, unexecuted, inFlight_reply, unexecuted]
  | _ => exact (Nat.zero_add _).le

/-- **Stopped sessions.** Once no task runs for a session, and as long as none is started for it under any text of its
id, the pings that still reach its rows are at most those that were on their way. -/
theorem executions_stopped {sessionIdBytes : Bytes} {m : KeepaliveManager} (hsound : m.Sound)
    (hstopped : m.Stopped sessionIdBytes) {events : List KeepaliveEvent}
    (hstart : ∀ sessionId, .start sessionId ∈ events → hexDecode sessionId ≠ some sessionIdBytes) :
    (writes step (executed sessionIdBytes) m events).length + (events.foldl step m).unexecuted sessionIdBytes ≤
      m.unexecuted sessionIdBytes := by
  induction events generalizing m with
  | nil => exact (Nat.zero_add _).le
  | cons e events ih =>
    have hnext : (m.step e).Stopped sessionIdBytes :=
      hstopped.step fun sessionId heq => hstart sessionId (heq ▸ List.mem_cons_self)
    have hrest := ih (hsound.step e) hnext fun sessionId hmem => hstart sessionId (List.mem_cons_of_mem e hmem)
    have hone := hstopped.executed_add_unexecuted_le hsound e
    rw [writes_cons, List.length_append, List.foldl_cons]
    omega

/-- The tasks are stopped with a ping on its way. -/
def Sample.stoppedInFlight : KeepaliveManager :=
  List.foldl step Sample.idle [.start "00", .resume "00", .wait 30000, .resume "00", .stopAll]

/-- The ping on its way is executed after all. -/
theorem executions_stopped_inFlight :
    (writes step (executed [0]) Sample.stoppedInFlight [.wait 1, .execute 0]).length +
      (List.foldl step Sample.stoppedInFlight [.wait 1, .execute 0]).unexecuted [0] ≤
      Sample.stoppedInFlight.unexecuted [0] :=
  executions_stopped (sound_foldl (Sound.new (by simp)) _) (fun _ _ => rfl) (by simp)

end KeepaliveManager

end NocyWalletFeed
