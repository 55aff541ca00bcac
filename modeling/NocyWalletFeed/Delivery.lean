import NocyWalletFeed.Stream
import NocyWalletFeed.StreamWire
import NocyWalletFeed.Library.Channel

/-!
# Delivery of the stream (`routes/subscribe.rs`)

`run_stream` is a task of its own: it hands its events to the response through a channel of `CHANNEL_BUFFER_SIZE`, with
a timeout for clients that do not keep up, and it looks at the top of its loop whether the client has left.

* `Delivery.step` : the producer, the channel and the client, in any order;
* `streamStep_limit` : the sends a client takes cut the actions of an iteration short, and nothing else;
* `delivery_refines` : what has been sent is what a run of the loop sends, whose iterations meet what the producer met.
-/

namespace NocyWalletFeed
open OrderBy Machine

def CHANNEL_BUFFER_SIZE : Nat := 32

/-! ## The producer, the channel and the client -/

/-- What the producer meets in an iteration, apart from the client. -/
structure Encounter where
  snapshot : Except AppError Database
  heartbeatDue : Bool
  merkle : MerkleBehaviour

/-- An iteration with a client that is there and takes some sends. -/
def Encounter.iteration (w : Encounter) (sends : Nat) : Iteration :=
  ⟨false, w.snapshot, w.heartbeatDue, w.merkle, sends⟩

def Iteration.encounter (e : Iteration) : Encounter := ⟨e.snapshot, e.heartbeatDue, e.merkle⟩

/-- More than the events of an iteration: one for each block of the snapshot, or a heartbeat or a reset. -/
def Encounter.patience (w : Encounter) : Nat :=
  match w.snapshot with
  | .ok db => db.blocks.length + 1
  | .error _ => 0

/-- The producer: at the top of its loop, sending the events of an iteration, or done. The events of an iteration are
built before the first of them is sent. -/
inductive Producer where
  | looping (s : StreamState)
  | sending (actions : List StreamAction) (after : Flow StreamState StreamEnd)
  | done

structure Delivery where
  producer : Producer
  channel : Channel SseEvent

/-- What happens next: the producer goes on with its loop or its sends, a send times out, the client takes an event or
leaves. -/
inductive DeliveryTurn where
  | iterate (w : Encounter)
  | send
  | timeout
  | receive
  | hangUp

def DeliveryTurn.encounters : DeliveryTurn → List Encounter
  | .iterate w => [w]
  | .send => []
  | .timeout => []
  | .receive => []
  | .hangUp => []

namespace Delivery

def initial (s : StreamState) : Delivery := ⟨.looping s, .empty CHANNEL_BUFFER_SIZE⟩

/-- An iteration up to its first send. -/
def iterate (args : AssemblyArgs) (d : Delivery) (w : Encounter) : Delivery :=
  match d.producer with
  | .looping s =>
    if d.channel.receiverOpen then
      let step := streamStep args s (w.iteration w.patience)
      { d with producer := .sending step.1 step.2 }
    else { d with producer := .done }
  | .sending _ _ => d
  | .done => d

/-- The next action of an iteration: a send waits for room, and fails when the client has left. -/
def send (d : Delivery) : Delivery :=
  match d.producer with
  | .sending [] (.next s) => { d with producer := .looping s }
  | .sending [] (.halt _) => { d with producer := .done }
  | .sending (.skipped _ :: actions) after => { d with producer := .sending actions after }
  | .sending (.sent event :: actions) after =>
    if d.channel.CanSend then { producer := .sending actions after, channel := d.channel.send event }
    else if d.channel.receiverOpen then d
    else { d with producer := .done }
  | .looping _ => d
  | .done => d

/-- A send that has waited too long. -/
def timeout (d : Delivery) : Delivery :=
  match d.producer with
  | .sending (.sent _ :: _) _ => if d.channel.Full then { d with producer := .done } else d
  | _ => d

/-- The client takes the oldest event. -/
def receive (d : Delivery) : Delivery :=
  if d.channel.receiverOpen then { d with channel := d.channel.receive } else d

def step (args : AssemblyArgs) (d : Delivery) : DeliveryTurn → Delivery
  | .iterate w => d.iterate args w
  | .send => d.send
  | .timeout => d.timeout
  | .receive => d.receive
  | .hangUp => { d with channel := d.channel.hangUp }

def run (args : AssemblyArgs) (s : StreamState) (turns : List DeliveryTurn) : Delivery :=
  turns.foldl (step args) (initial s)

end Delivery

/-! ## Limited sends -/

/-- The actions up to the last send that is taken. -/
def takeSends : Nat → List StreamAction → List StreamAction
  | _, [] => []
  | k, .skipped blockMeta :: actions => .skipped blockMeta :: takeSends k actions
  | 0, .sent _ :: _ => []
  | k + 1, .sent event :: actions => .sent event :: takeSends k actions

/-- What an iteration does with a client that takes `k` sends, from what it does with one that takes them all. -/
def limitSends (k : Nat) (step : List StreamAction × Flow StreamState StreamEnd) :
    List StreamAction × Flow StreamState StreamEnd :=
  if (sentEvents step.1).length ≤ k then step else (takeSends k step.1, .halt (.ok ()))

theorem sentEvents_append (a b : List StreamAction) : sentEvents (a ++ b) = sentEvents a ++ sentEvents b :=
  List.filterMap_append

@[simp] theorem sentEvents_cons_skipped (blockMeta : BlockMeta) (actions : List StreamAction) :
    sentEvents (.skipped blockMeta :: actions) = sentEvents actions := rfl

@[simp] theorem sentEvents_cons_sent (event : SseEvent) (actions : List StreamAction) :
    sentEvents (.sent event :: actions) = event :: sentEvents actions := rfl

theorem sentEvents_takeSends (k : Nat) (actions : List StreamAction) :
    sentEvents (takeSends k actions) = (sentEvents actions).take k := by
  fun_induction takeSends k actions with
  | case1 k => exact List.take_nil.symm
  | case2 k blockMeta actions ih => exact ih
  | case3 event actions => rfl
  | case4 k event actions ih => rw [sentEvents_cons_sent, sentEvents_cons_sent, ih, List.take_succ_cons]

section Bundles
variable {fromCursor : Option SequenceKey} {bundle : BlockBundle} {bundles : List BlockBundle}

def bundleEvent (fromCursor : Option SequenceKey) (bundle : BlockBundle) : SseEvent :=
  .block ⟨bundle.blockMeta, (applyCursor fromCursor bundle).1⟩

/-- The sends of the bundles after one that has been passed over or sent. -/
def sendRest (sends : Nat) (fromCursor : Option SequenceKey) (bundle : BlockBundle) (bundles : List BlockBundle) :
    List StreamAction × Option (Int × Option SequenceKey) :=
  sendBundles sends (bundle.blockMeta.height + 1) (applyCursor fromCursor bundle).2 bundles

theorem sendBundles_skip (h : (applyCursor fromCursor bundle).1.isEmpty = true) (sends : Nat) (currentHeight : Int) :
    sendBundles sends currentHeight fromCursor (bundle :: bundles) =
      (.skipped bundle.blockMeta :: (sendRest sends fromCursor bundle bundles).1,
        (sendRest sends fromCursor bundle bundles).2) := by
  unfold sendBundles
  rw [if_pos h]
  rfl

theorem sendBundles_stop (h : ¬ (applyCursor fromCursor bundle).1.isEmpty = true) (currentHeight : Int) :
    sendBundles 0 currentHeight fromCursor (bundle :: bundles) = ([], none) := by
  unfold sendBundles
  rw [if_neg h]

theorem sendBundles_send (h : ¬ (applyCursor fromCursor bundle).1.isEmpty = true) (sends : Nat) (currentHeight : Int) :
    sendBundles (sends + 1) currentHeight fromCursor (bundle :: bundles) =
      (.sent (bundleEvent fromCursor bundle) :: (sendRest sends fromCursor bundle bundles).1,
        (sendRest sends fromCursor bundle bundles).2) := by
  unfold sendBundles
  rw [if_neg h]
  rfl

end Bundles

theorem sendBundles_limit (k : Nat) (currentHeight : Int) (fromCursor : Option SequenceKey)
    (bundles : List BlockBundle) : ∃ actions after,
      (∀ n, bundles.length ≤ n → sendBundles n currentHeight fromCursor bundles = (actions, some after)) ∧
      sendBundles k currentHeight fromCursor bundles =
        if (sentEvents actions).length ≤ k then (actions, some after) else (takeSends k actions, none) := by
  induction bundles generalizing k currentHeight fromCursor with
  | nil => exact ⟨[], (currentHeight, fromCursor), fun n _ => by unfold sendBundles; rfl, by unfold sendBundles; rfl⟩
  | cons bundle bundles ih =>
    by_cases hempty : (applyCursor fromCursor bundle).1.isEmpty = true
    · obtain ⟨actions, after, hall, hk⟩ := ih k (bundle.blockMeta.height + 1) (applyCursor fromCursor bundle).2
      refine ⟨.skipped bundle.blockMeta :: actions, after, fun n hn => ?_, ?_⟩
      · rw [sendBundles_skip hempty, sendRest, hall n (Nat.le_of_succ_le hn)]
      · rw [sendBundles_skip hempty, sendRest, hk, sentEvents_cons_skipped, takeSends]
        split_ifs <;> rfl
    · obtain ⟨actions, after, hall, hk⟩ := ih (k - 1) (bundle.blockMeta.height + 1) (applyCursor fromCursor bundle).2
      refine ⟨.sent (bundleEvent fromCursor bundle) :: actions, after, fun n hn => ?_, ?_⟩
      · obtain ⟨n, rfl⟩ := Nat.exists_eq_add_one_of_ne_zero (Nat.ne_zero_of_lt hn)
        rw [sendBundles_send hempty, sendRest, hall n (Nat.le_of_succ_le_succ hn)]
      · rw [sentEvents_cons_sent, List.length_cons]
        cases k with
        | zero => rw [sendBundles_stop hempty, if_neg (Nat.not_succ_le_zero _), takeSends]
        | succ k =>
          rw [Nat.add_sub_cancel] at hk
          rw [sendBundles_send hempty, sendRest, hk]
          by_cases hle : (sentEvents actions).length ≤ k
          · rw [if_pos hle, if_pos (Nat.succ_le_succ hle)]
          · rw [if_neg hle, if_neg fun h => hle (Nat.le_of_succ_le_succ h)]
            rfl

theorem limitSends_of_le {k : Nat} {step : List StreamAction × Flow StreamState StreamEnd}
    (h : (sentEvents step.1).length ≤ k) : limitSends k step = step := if_pos h

theorem limitSends_of_lt {k : Nat} {step : List StreamAction × Flow StreamState StreamEnd}
    (h : k < (sentEvents step.1).length) : limitSends k step = (takeSends k step.1, .halt (.ok ())) :=
  if_neg (Nat.not_le.mpr h)

theorem limitSends_zero_single (event : SseEvent) (flow : Flow StreamState StreamEnd) :
    limitSends 0 ([.sent event], flow) = ([], .halt (.ok ())) :=
  limitSends_of_lt (show 0 < (sentEvents [.sent event]).length from Nat.one_pos)

theorem limitSends_succ_single (k : Nat) (event : SseEvent) (flow : Flow StreamState StreamEnd) :
    limitSends (k + 1) ([.sent event], flow) = ([.sent event], flow) :=
  limitSends_of_le (show (sentEvents [.sent event]).length ≤ k + 1 from Nat.succ_le_succ (Nat.zero_le k))

theorem heartbeatAndWait_limit (w : Encounter) (s : StreamState) (watermarks : Watermarks) {n : Nat} (hn : 1 ≤ n)
    (k : Nat) : heartbeatAndWait (w.iteration k) s watermarks =
      limitSends k (heartbeatAndWait (w.iteration n) s watermarks) := by
  obtain ⟨n, rfl⟩ := Nat.exists_eq_add_one_of_ne_zero (Nat.pos_iff_ne_zero.mp hn)
  unfold heartbeatAndWait Encounter.iteration
  dsimp only
  by_cases hdue : w.heartbeatDue = true
  · rw [if_pos hdue, if_pos hdue]
    cases k with
    | zero => exact (limitSends_zero_single _ _).symm
    | succ k => exact (limitSends_succ_single k _ _).symm
  · rw [if_neg hdue, if_neg hdue]
    exact (limitSends_of_le (Nat.zero_le k)).symm

theorem processBatch_limit (args : AssemblyArgs) (w : Encounter) (s : StreamState) (db : Database)
    (batch : List BlockMeta) {n : Nat} (hn : 1 ≤ n) (hlength : batch.length ≤ n) (k : Nat) :
    processBatch args (w.iteration k) s db batch = limitSends k (processBatch args (w.iteration n) s db batch) := by
  unfold processBatch
  cases hvalid : validateBlocks s.currentHeight (boundaryHash db s) batch with
  | some control =>
    obtain ⟨n, rfl⟩ := Nat.exists_eq_add_one_of_ne_zero (Nat.pos_iff_ne_zero.mp hn)
    show ([StreamAction.sent (.control control)].take k, .halt (.ok ())) =
      limitSends k ([StreamAction.sent (.control control)].take (n + 1), .halt (.ok ()))
    rw [List.take_succ_cons, List.take_nil]
    cases k with
    | zero => exact (limitSends_zero_single _ _).symm
    | succ k =>
      rw [List.take_succ_cons, List.take_nil]
      exact (limitSends_succ_single k _ _).symm
  | none =>
    have hbuilt := congrArg List.length (buildBlockBundles_metas db args w.merkle batch s.lastMerkleEndIndex)
    rw [List.length_map] at hbuilt
    obtain ⟨actions, after, hall, hk⟩ := sendBundles_limit k s.currentHeight s.fromCursor
      (buildBlockBundles db args w.merkle batch s.lastMerkleEndIndex).1
    have hn := hall n (hbuilt.trans_le hlength)
    simp only [Encounter.iteration, hn, hk]
    by_cases hle : (sentEvents actions).length ≤ k
    · rw [if_pos hle, limitSends_of_le hle]
    · rw [if_neg hle, limitSends_of_lt (Nat.not_le.mp hle)]

theorem length_fetchBatch_le (db : Database) (s : StreamState) (readyHeight : Int) :
    (fetchBatch db s readyHeight).length ≤ db.blocks.length := by
  rw [fetchBatch, getBlocksInRange, List.length_map, length_sortBy]
  exact List.length_filter_le _ _

/-- **Limited sends.** A client that takes `k` sends cuts an iteration short after them, and changes nothing else. -/
theorem streamStep_limit (args : AssemblyArgs) (s : StreamState) (w : Encounter) (k : Nat) :
    streamStep args s (w.iteration k) = limitSends k (streamStep args s (w.iteration w.patience)) := by
  have hquiet : ∀ flow : Flow StreamState StreamEnd, ([], flow) = limitSends k ([], flow) := fun flow =>
    (limitSends_of_le (Nat.zero_le k)).symm
  unfold streamStep
  simp only [Encounter.iteration, Bool.false_eq_true, if_false]
  cases hsnapshot : w.snapshot with
  | error failure => exact hquiet _
  | ok db =>
    dsimp only
    have hpatience : w.patience = db.blocks.length + 1 := by rw [Encounter.patience, hsnapshot]
    cases hready : computeWalletReadyHeight db args.upstreamSessionId (getChainHead db) with
    | error failure => exact hquiet _
    | ok ready =>
      cases ready with
      | none => exact heartbeatAndWait_limit w s _ (by omega) k
      | some readyHeight =>
        dsimp only
        by_cases hle : s.currentHeight > readyHeight
        · rw [if_pos hle, if_pos hle]
          exact heartbeatAndWait_limit w s _ (by omega) k
        · rw [if_neg hle, if_neg hle]
          have hlength := length_fetchBatch_le db s readyHeight
          cases hbatch : fetchBatch db s readyHeight with
          | nil => exact hquiet _
          | cons first rest =>
            rw [hbatch] at hlength
            exact processBatch_limit args w s db (first :: rest) (by omega) (by omega) k

/-! ## Refinement -/

section Refinement
variable {args : AssemblyArgs} {s : StreamState}

/-- The events sent by a run of the loop. -/
def runEvents (args : AssemblyArgs) (s : StreamState) (iterations : List Iteration) : List SseEvent :=
  sentEvents (outputs (runStream args s iterations))

variable (args s) in
/-- Where a producer that has met some things is, and what it has sent: all events of a run that goes on, those and the
first of an iteration that is under way, or all events of a run. -/
inductive Accounted : List Encounter → Producer → List SseEvent → Prop where
  | looping {iterations : List Iteration} {s' : StreamState} (h : Continues (streamStep args) s iterations s') :
    Accounted (iterations.map Iteration.encounter) (.looping s') (runEvents args s iterations)
  | sending {iterations : List Iteration} {s' : StreamState} (h : Continues (streamStep args) s iterations s')
    (w : Encounter) (sent : List StreamAction) {actions : List StreamAction} {after : Flow StreamState StreamEnd}
    (hstep : streamStep args s' (w.iteration w.patience) = (sent ++ actions, after)) :
    Accounted (iterations.map Iteration.encounter ++ [w]) (.sending actions after)
      (runEvents args s iterations ++ sentEvents sent)
  | done (iterations : List Iteration) :
    Accounted (iterations.map Iteration.encounter) .done (runEvents args s iterations)

theorem runEvents_snoc {iterations : List Iteration} {s' : StreamState}
    (h : Continues (streamStep args) s iterations s') (e : Iteration) :
    runEvents args s (iterations ++ [e]) = runEvents args s iterations ++ sentEvents (streamStep args s' e).1 := by
  rw [runEvents, runStream, h.outputs_snoc, sentEvents_append]
  rfl

theorem encounters_snoc (iterations : List Iteration) (w : Encounter) (sends : Nat) :
    (iterations ++ [w.iteration sends]).map Iteration.encounter = iterations.map Iteration.encounter ++ [w] := by
  rw [List.map_append]
  rfl

/-- An iteration cut short after some of its actions has sent their events. -/
theorem sentEvents_cut {w : Encounter} {s' : StreamState} {sent actions : List StreamAction}
    {after : Flow StreamState StreamEnd}
    (hstep : streamStep args s' (w.iteration w.patience) = (sent ++ actions, after)) :
    sentEvents (streamStep args s' (w.iteration (sentEvents sent).length)).1 = sentEvents sent := by
  rw [streamStep_limit, hstep]
  have hsplit := sentEvents_append sent actions
  by_cases hle : (sentEvents (sent ++ actions)).length ≤ (sentEvents sent).length
  · rw [limitSends_of_le hle, hsplit]
    rw [hsplit, List.length_append] at hle
    rw [List.length_eq_zero_iff.mp (by omega : (sentEvents actions).length = 0), List.append_nil]
  · rw [limitSends_of_lt (Nat.not_le.mp hle), sentEvents_takeSends, hsplit, List.take_left]

theorem Accounted.runEvents {ws : List Encounter} {producer : Producer} {sent : List SseEvent}
    (h : Accounted args s ws producer sent) :
    ∃ iterations : List Iteration, iterations.map Iteration.encounter = ws ∧ sent = runEvents args s iterations := by
  cases h with
  | looping h => exact ⟨_, rfl, rfl⟩
  | @sending iterations s' h w sent actions after hstep =>
    refine ⟨iterations ++ [w.iteration (sentEvents sent).length], encounters_snoc _ _ _, ?_⟩
    rw [runEvents_snoc h, sentEvents_cut hstep]
  | done iterations => exact ⟨iterations, rfl, rfl⟩

theorem Accounted.stop {ws : List Encounter} {producer : Producer} {sent : List SseEvent}
    (h : Accounted args s ws producer sent) : Accounted args s ws .done sent := by
  obtain ⟨iterations, rfl, rfl⟩ := h.runEvents
  exact .done iterations

theorem Accounted.begin {ws : List Encounter} {s' : StreamState} {sent : List SseEvent}
    (h : Accounted args s ws (.looping s') sent) (w : Encounter) :
    Accounted args s (ws ++ [w]) (.sending (streamStep args s' (w.iteration w.patience)).1
      (streamStep args s' (w.iteration w.patience)).2) sent := by
  cases h with
  | looping h =>
    have := Accounted.sending h w [] rfl
    rwa [show sentEvents [] = [] from rfl, List.append_nil] at this

theorem Accounted.act {ws : List Encounter} {action : StreamAction} {actions : List StreamAction}
    {after : Flow StreamState StreamEnd} {sent : List SseEvent}
    (h : Accounted args s ws (.sending (action :: actions) after) sent) :
    Accounted args s ws (.sending actions after) (sent ++ sentEvents [action]) := by
  cases h with
  | sending h w done hstep =>
    have := Accounted.sending h w (done ++ [action]) (hstep.trans (by rw [List.append_assoc, List.singleton_append]))
    rwa [sentEvents_append, ← List.append_assoc] at this

theorem Accounted.finish {ws : List Encounter} {s' : StreamState} {sent : List SseEvent}
    (h : Accounted args s ws (.sending [] (.next s')) sent) : Accounted args s ws (.looping s') sent := by
  cases h with
  | @sending iterations s'' h w done _ _ hstep =>
    rw [List.append_nil] at hstep
    have hnext : (streamStep args s'' (w.iteration w.patience)).2 = .next s' := by rw [hstep]
    have := Accounted.looping (h.next hnext)
    rwa [encounters_snoc, runEvents_snoc h, hstep] at this

/-! ## Turns -/

structure Delivery.Inv (args : AssemblyArgs) (s : StreamState) (ws : List Encounter) (d : Delivery) : Prop where
  accounted : Accounted args s ws d.producer d.channel.sent
  fair : d.channel.Fair
  capacity_eq : d.channel.capacity = CHANNEL_BUFFER_SIZE

variable (args s) in
theorem Delivery.inv_initial : Delivery.Inv args s [] (.initial s) where
  accounted := .looping .start
  fair := Channel.fair_empty _
  capacity_eq := rfl

variable {ws : List Encounter} {d : Delivery}

theorem Delivery.Inv.iterate (h : d.Inv args s ws) (w : Encounter) :
    ∃ ws', ws'.Sublist (ws ++ [w]) ∧ (d.iterate args w).Inv args s ws' := by
  have haccounted := h.accounted
  unfold Delivery.iterate
  cases hproducer : d.producer with
  | looping s' =>
    rw [hproducer] at haccounted
    dsimp only
    split_ifs
    · exact ⟨ws ++ [w], List.Sublist.refl _, haccounted.begin w, h.fair, h.capacity_eq⟩
    · exact ⟨ws, List.sublist_append_left _ _, haccounted.stop, h.fair, h.capacity_eq⟩
  | sending actions after => exact ⟨ws, List.sublist_append_left _ _, h⟩
  | done => exact ⟨ws, List.sublist_append_left _ _, h⟩

theorem Delivery.Inv.send (h : d.Inv args s ws) : d.send.Inv args s ws := by
  have haccounted := h.accounted
  unfold Delivery.send
  split
  next s' hproducer =>
    rw [hproducer] at haccounted
    exact ⟨haccounted.finish, h.fair, h.capacity_eq⟩
  next reason hproducer => exact ⟨haccounted.stop, h.fair, h.capacity_eq⟩
  next blockMeta actions after hproducer =>
    rw [hproducer] at haccounted
    have := haccounted.act
    rw [sentEvents_cons_skipped, show sentEvents [] = [] from rfl, List.append_nil] at this
    exact ⟨this, h.fair, h.capacity_eq⟩
  next event actions after hproducer =>
    rw [hproducer] at haccounted
    split_ifs with hroom
    · exact ⟨haccounted.act, h.fair.send hroom event, h.capacity_eq⟩
    · exact h
    · exact ⟨haccounted.stop, h.fair, h.capacity_eq⟩
  next s' hproducer => exact h
  next hproducer => exact h

theorem Delivery.Inv.timeout (h : d.Inv args s ws) : d.timeout.Inv args s ws := by
  unfold Delivery.timeout
  split
  next event actions after hproducer =>
    split_ifs
    · exact ⟨h.accounted.stop, h.fair, h.capacity_eq⟩
    · exact h
  next => exact h

theorem Delivery.Inv.receive (h : d.Inv args s ws) : d.receive.Inv args s ws := by
  unfold Delivery.receive
  split_ifs with hopen
  · refine ⟨?_, h.fair.receive hopen, ?_⟩
    · rw [Channel.sent_receive]
      exact h.accounted
    · rw [Channel.capacity_receive]
      exact h.capacity_eq
  · exact h

/-- **Step.** Every turn keeps the invariant. -/
theorem Delivery.Inv.step (h : d.Inv args s ws) (turn : DeliveryTurn) :
    ∃ ws', ws'.Sublist (ws ++ turn.encounters) ∧ (d.step args turn).Inv args s ws' := by
  have hsame : ws.Sublist (ws ++ []) := List.sublist_append_left _ _
  cases turn with
  | iterate w => exact h.iterate w
  | send => exact ⟨ws, hsame, h.send⟩
  | timeout => exact ⟨ws, hsame, h.timeout⟩
  | receive => exact ⟨ws, hsame, h.receive⟩
  | hangUp => exact ⟨ws, hsame, h.accounted, h.fair.hangUp, h.capacity_eq⟩

/-- **Run.** The invariant holds after any turns. -/
theorem Delivery.Inv.turns (h : d.Inv args s ws) (turns : List DeliveryTurn) :
    ∃ ws', ws'.Sublist (ws ++ turns.flatMap DeliveryTurn.encounters) ∧
      (turns.foldl (Delivery.step args) d).Inv args s ws' := by
  induction turns generalizing d ws with
  | nil => exact ⟨ws, List.sublist_append_left _ _, h⟩
  | cons turn turns ih =>
    obtain ⟨ws', hsub, hstep⟩ := h.step turn
    obtain ⟨ws'', hsub', hrest⟩ := ih hstep
    refine ⟨ws'', hsub'.trans ?_, hrest⟩
    rw [List.flatMap_cons, ← List.append_assoc]
    exact hsub.append_right _

end Refinement

/-- After any turns, the events of a run of the loop have been sent through a fair channel. -/
theorem Delivery.exists_runEvents (args : AssemblyArgs) (s : StreamState) (turns : List DeliveryTurn) :
    let ch := (Delivery.run args s turns).channel
    ∃ iterations : List Iteration,
      (iterations.map Iteration.encounter).Sublist (turns.flatMap DeliveryTurn.encounters) ∧
        ch.sent = runEvents args s iterations ∧ ch.Fair ∧ ch.capacity = CHANNEL_BUFFER_SIZE := by
  obtain ⟨ws, hsub, hinv⟩ := (Delivery.inv_initial args s).turns turns
  obtain ⟨iterations, rfl, hsent⟩ := hinv.accounted.runEvents
  exact ⟨iterations, hsub, hsent, hinv.fair, hinv.capacity_eq⟩

/-- **Delivery.** Whatever the order of turns, what has been sent are the events of a run of the loop, whose iterations
meet in order what the producer met; what the client has taken is the beginning of that; and while the client is there,
the rest is in the buffer, which never holds more than `CHANNEL_BUFFER_SIZE` events. -/
theorem delivery_refines (args : AssemblyArgs) (s : StreamState) (turns : List DeliveryTurn) :
    let ch := (Delivery.run args s turns).channel
    (∃ iterations : List Iteration,
      (iterations.map Iteration.encounter).Sublist (turns.flatMap DeliveryTurn.encounters) ∧
        ch.sent = runEvents args s iterations) ∧
      ch.received <+: ch.sent ∧ (ch.receiverOpen = true → ch.received ++ ch.buffer = ch.sent) ∧
        ch.buffer.length ≤ CHANNEL_BUFFER_SIZE := by
  obtain ⟨iterations, hsub, hsent, hfair, hcapacity⟩ := Delivery.exists_runEvents args s turns
  refine ⟨⟨iterations, hsub, hsent⟩, hfair.received_prefix, hfair.nothing_lost, ?_⟩
  have hbounded := hfair.bounded
  rwa [hcapacity] at hbounded

end NocyWalletFeed
