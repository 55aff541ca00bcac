import NocyWalletFeed.Delivery

/-!
# What the client gets

* `ascending_heights`, `resetLast_runEvents` : the events of a run, by block and by reset;
* `received_body` : what a client makes of a response that breaks off anywhere;
* `takeTurns_sending`, `received_all` : a client that keeps taking events misses none.
-/

namespace NocyWalletFeed
open Machine EventStream

/-! ## Blocks -/

def SseEvent.blockMeta? : SseEvent → Option BlockMeta
  | .block bundle => some bundle.blockMeta
  | .heartbeat _ _ => none
  | .control _ => none

/-- The heights of the blocks among some events. -/
def eventHeights (events : List SseEvent) : List Int := (events.filterMap SseEvent.blockMeta?).map (·.height)

/-- The blocks that are sent are among those that are processed. -/
theorem sentBlocks_sublist (actions : List StreamAction) :
    ((sentEvents actions).filterMap SseEvent.blockMeta?).Sublist (processedBlocks actions) := by
  induction actions with
  | nil => exact List.Sublist.refl _
  | cons action actions ih =>
    cases action with
    | skipped blockMeta => exact ih.cons blockMeta
    | sent event =>
      cases event with
      | block bundle => exact ih.cons_cons bundle.blockMeta
      | heartbeat watermarks currentHeight => exact ih
      | control event => exact ih

section Heights
variable (args : AssemblyArgs) (fromHeight : Int) (fromCursor : Option SequenceKey) (iterations : List Iteration)

theorem eventHeights_sublist :
    (eventHeights (runEvents args (.initial fromHeight fromCursor) iterations)).Sublist
      (Int.range fromHeight
        (fromHeight + (processedBy (streamRun args fromHeight fromCursor iterations)).length)) := by
  rw [← (linked_processedBy args fromHeight fromCursor iterations).map_height]
  exact (sentBlocks_sublist _).map _

theorem ascending_heights :
    (eventHeights (runEvents args (.initial fromHeight fromCursor) iterations)).Pairwise (· < ·) :=
  (IntRange.pairwise_range _ _).sublist (eventHeights_sublist args fromHeight fromCursor iterations)

theorem fromHeight_le_of_mem {height : Int}
    (h : height ∈ eventHeights (runEvents args (.initial fromHeight fromCursor) iterations)) : fromHeight ≤ height :=
  (Int.mem_range_iff.mp ((eventHeights_sublist args fromHeight fromCursor iterations).subset h)).1

end Heights

/-! ## Resets -/

def NoReset (events : List SseEvent) : Prop := ∀ control, SseEvent.control control ∉ events

/-- Nothing comes after a reset. -/
def ResetLast (events : List SseEvent) : Prop :=
  ∀ pre control post, events = pre ++ SseEvent.control control :: post → post = []

theorem NoReset.resetLast {events : List SseEvent} (h : NoReset events) : ResetLast events := by
  rintro pre control post rfl
  exact absurd (List.mem_append_right pre List.mem_cons_self) (h control)

theorem NoReset.append {a b : List SseEvent} (ha : NoReset a) (hb : NoReset b) : NoReset (a ++ b) := by
  intro control hmem
  rcases List.mem_append.mp hmem with hmem | hmem
  · exact ha control hmem
  · exact hb control hmem

theorem NoReset.append_resetLast {a b : List SseEvent} (ha : NoReset a) (hb : ResetLast b) :
    ResetLast (a ++ b) := by
  intro pre control post h
  rcases List.append_eq_append_iff.mp h with ⟨rest, -, hrest⟩ | ⟨rest, hsplit, hrest⟩
  · exact hb rest control post hrest
  · cases rest with
    | nil => exact hb [] control post hrest.symm
    | cons event rest =>
      obtain ⟨rfl, -⟩ := List.cons.inj hrest
      rw [hsplit] at ha
      exact absurd (List.mem_append_right pre List.mem_cons_self) (ha control)

theorem ResetLast.of_isPrefix {a b : List SseEvent} (h : ResetLast b) (hinit : a <+: b) : ResetLast a := by
  rintro pre control post rfl
  obtain ⟨rest, hrest⟩ := hinit
  rw [List.append_assoc, List.cons_append] at hrest
  exact (List.append_eq_nil_iff.mp (h pre control (post ++ rest) hrest.symm)).1

section Step
variable {args : AssemblyArgs} {fromHeight : Int} {fromCursor : Option SequenceKey} {processed : List BlockMeta}
  {s : StreamState}

theorem noReset_of_quiet {actions : List StreamAction} (h : Quiet actions) : NoReset (sentEvents actions) := by
  intro control hmem
  obtain ⟨action, haction, hevent⟩ := List.mem_filterMap.mp hmem
  obtain ⟨watermarks, height, rfl⟩ := h action haction
  cases hevent

theorem noReset_map_blockAction (bundles : List BlockBundle) :
    NoReset (sentEvents (bundles.map (blockAction fromCursor))) := by
  intro control hmem
  obtain ⟨action, haction, hevent⟩ := List.mem_filterMap.mp hmem
  obtain ⟨bundle, -, rfl⟩ := List.mem_map.mp haction
  unfold blockAction at hevent
  dsimp only at hevent
  split_ifs at hevent
  cases hevent

theorem resetLast_take_control (control : ControlEvent) (sends : Nat) :
    ResetLast (sentEvents ([StreamAction.sent (.control control)].take sends)) := by
  cases sends with
  | zero => exact fun pre control' post h => absurd h.symm (List.append_ne_nil_of_right_ne_nil _ (List.cons_ne_nil _ _))
  | succ sends =>
    rw [List.take_succ_cons, List.take_nil]
    intro pre control' post h
    have hlength := congrArg List.length h
    rw [List.length_append, List.length_cons] at hlength
    have : post.length = 0 := by
      have : (sentEvents [StreamAction.sent (.control control)]).length = 1 := rfl
      omega
    exact List.length_eq_zero_iff.mp this

variable (e : Iteration)

theorem StreamInv.resetLast (h : StreamInv fromHeight fromCursor processed s) :
    ResetLast (sentEvents (streamStep args s e).1) := by
  rcases h.output_cases args e with hquiet | ⟨_, _, _, -, ⟨-, control, heq⟩ | ⟨-, sent, -, heq⟩⟩
  · exact (noReset_of_quiet hquiet).resetLast
  · rw [heq]
    exact resetLast_take_control control e.sends
  · rw [heq]
    exact (noReset_map_blockAction sent).resetLast

theorem StreamInv.noReset (h : StreamInv fromHeight fromCursor processed s) {s' : StreamState}
    (hnext : (streamStep args s e).2 = .next s') : NoReset (sentEvents (streamStep args s e).1) := by
  rcases h.output_cases args e with hquiet | ⟨db, _, batch, hfetched, ⟨hlinked, -⟩ | ⟨-, sent, -, heq⟩⟩
  · exact noReset_of_quiet hquiet
  · obtain ⟨control, -, heq⟩ := processBatch_reset args e db hlinked
    rw [hfetched.streamStep_eq, heq] at hnext
    cases hnext
  · rw [heq]
    exact noReset_map_blockAction sent

end Step

/-- A reset is the last event of a run. -/
theorem resetLast_runEvents (args : AssemblyArgs) (fromHeight : Int) (fromCursor : Option SequenceKey)
    (iterations : List Iteration) : ResetLast (runEvents args (.initial fromHeight fromCursor) iterations) := by
  refine visits_rule
    (fun hist s => StreamInv fromHeight fromCursor (processedBy hist) s ∧ NoReset (sentEvents (outputs hist)))
    (fun hist => ResetLast (sentEvents (outputs hist))) ?_ (fun hist s hinv => hinv.2.resetLast) ?_
    ⟨streamInv_initial fromHeight fromCursor, fun control hmem => nomatch hmem⟩
  · intro hist s e _ s' hinv hnext
    refine ⟨streamInv_next args fromHeight fromCursor hist s e s' hinv.1 hnext, ?_⟩
    rw [outputs_append, sentEvents_append, outputs_cons, outputs_nil, List.append_nil]
    exact hinv.2.append (hinv.1.noReset e hnext)
  · intro hist s e _ _ hinv _
    rw [outputs_append, sentEvents_append, outputs_cons, outputs_nil, List.append_nil]
    exact hinv.2.append_resetLast (hinv.1.resetLast e)

/-! ## The response -/

theorem bodyEvents_intersperse (events : List SseEvent) :
    bodyEvents ((events.map BodyPart.event).intersperse .keepAlive) = events := by
  induction events with
  | nil => rfl
  | cons event events ih =>
    cases events with
    | nil => rfl
    | cons next events => exact congrArg (event :: ·) ih

/-- **The response.** A response carries the events that the client has taken, with comments between them. However the
producer, the channel and the client take turns, and wherever the response breaks off, a reader makes whole events of
it: the first events of a run of the loop, blocks at ascending heights from the first one on and a reset only at the
end. -/
theorem received_body (jsonb : JsonText → Json.Value) (args : AssemblyArgs) (fromHeight : Int)
    (fromCursor : Option SequenceKey) (turns : List DeliveryTurn) (parts : List BodyPart) (cut : List Char)
    (hparts : bodyEvents parts = (Delivery.run args (.initial fromHeight fromCursor) turns).channel.received)
    (hcut : cut <+: bodyText jsonb parts) :
    ∃ iterations : List Iteration,
      (iterations.map Iteration.encounter).Sublist (turns.flatMap DeliveryTurn.encounters) ∧
      ∃ events, events <+: runEvents args (.initial fromHeight fromCursor) iterations ∧
        read cut = events.map (SseEvent.message jsonb) ∧ (eventHeights events).Pairwise (· < ·) ∧
          (∀ height ∈ eventHeights events, fromHeight ≤ height) ∧ ResetLast events := by
  obtain ⟨iterations, hsub, hsent, hfair, -⟩ :=
    Delivery.exists_runEvents args (.initial fromHeight fromCursor) turns
  obtain ⟨events, hinit, hread⟩ := read_cut_bodyText jsonb hcut
  rw [hparts] at hinit
  have hevents := hinit.trans hfair.received_prefix
  rw [hsent] at hevents
  have hheights : (eventHeights events).Sublist
      (eventHeights (runEvents args (.initial fromHeight fromCursor) iterations)) :=
    (hevents.sublist.filterMap _).map _
  exact ⟨iterations, hsub, events, hevents, hread,
    (ascending_heights args fromHeight fromCursor iterations).sublist hheights,
    fun height hmem => fromHeight_le_of_mem args fromHeight fromCursor iterations (hheights.subset hmem),
    (resetLast_runEvents args fromHeight fromCursor iterations).of_isPrefix hevents⟩

/-- Two blocks on their way to a client that has taken both, with a keep-alive between them, cut off in the data of the
second: the reader gets the first. -/
theorem received_body_spentNext :
    let w : Encounter := (Sample.iteration Sample.spentNext).encounter
    let turns : List DeliveryTurn := [.iterate w, .send, .send, .receive, .receive]
    let received := (Delivery.run Sample.args (.initial 0 none) turns).channel.received
    let body := bodyText Json.Value.str ((received.map BodyPart.event).intersperse .keepAlive)
    received.length = 2 ∧ (read (body.take 600)).length = 1 ∧
    ∃ iterations : List Iteration,
      (iterations.map Iteration.encounter).Sublist (turns.flatMap DeliveryTurn.encounters) ∧
      ∃ events, events <+: runEvents Sample.args (.initial 0 none) iterations ∧
        read (body.take 600) = events.map (SseEvent.message Json.Value.str) ∧
          (eventHeights events).Pairwise (· < ·) ∧ (∀ height ∈ eventHeights events, 0 ≤ height) ∧ ResetLast events := by
  intro w turns received body
  refine ⟨by decide +kernel, by decide +kernel,
    received_body Json.Value.str Sample.args 0 none turns _ (body.take 600) ?_ (List.take_prefix _ _)⟩
  exact bodyEvents_intersperse _

/-! ## A client that keeps up -/

def Producer.resume : Flow StreamState StreamEnd → Producer
  | .next s => .looping s
  | .halt _ => .done

/-- The client takes an event after each turn of the producer. -/
def takeTurns (n : Nat) : List DeliveryTurn := (List.replicate n [DeliveryTurn.send, DeliveryTurn.receive]).flatten

theorem encounters_takeTurns (n : Nat) : (takeTurns n).flatMap DeliveryTurn.encounters = [] := by
  induction n with
  | zero => rfl
  | succ n ih => exact ih

/-- What the producer meets in an iteration of a client that takes all events. -/
def Encounter.patient (w : Encounter) : Iteration := w.iteration w.patience

section KeepsUp
variable {events : List SseEvent} {ch : Channel SseEvent}

theorem receive_upToDate (h : ch.UpToDate events) (producer : Producer) :
    (Delivery.mk producer ch).receive = ⟨producer, ch⟩ := by
  rw [Delivery.receive, if_pos h.there, h.receive_eq]

theorem receive_send (h : ch.UpToDate events) (producer : Producer) (event : SseEvent) :
    (Delivery.mk producer (ch.send event)).receive = ⟨producer, (ch.send event).receive⟩ := if_pos h.there

theorem send_upToDate (h : ch.UpToDate events) (event : SseEvent) (actions : List StreamAction)
    (after : Flow StreamState StreamEnd) :
    (Delivery.mk (.sending (.sent event :: actions) after) ch).send = ⟨.sending actions after, ch.send event⟩ :=
  if_pos h.canSend

variable (args : AssemblyArgs)

/-- A client that is up to date takes the events of an iteration. -/
theorem takeTurns_sending (h : ch.UpToDate events) (actions : List StreamAction)
    (after : Flow StreamState StreamEnd) : ∃ ch' : Channel SseEvent, ch'.UpToDate (events ++ sentEvents actions) ∧
      (takeTurns (actions.length + 1)).foldl (Delivery.step args) ⟨.sending actions after, ch⟩ =
        ⟨.resume after, ch'⟩ := by
  induction actions generalizing ch events with
  | nil =>
    refine ⟨ch, ?_, ?_⟩
    · rwa [show sentEvents [] = [] from rfl, List.append_nil]
    · cases after with
      | next s => exact receive_upToDate h (.looping s)
      | halt reason => exact receive_upToDate h .done
  | cons action actions ih =>
    cases action with
    | skipped blockMeta =>
      obtain ⟨ch', hch', hrest⟩ := ih h
      refine ⟨ch', hch', ?_⟩
      have hturn : (Delivery.mk (.sending (.skipped blockMeta :: actions) after) ch).send.receive =
          ⟨.sending actions after, ch⟩ := receive_upToDate h _
      rw [← hrest, ← hturn]
      rfl
    | sent event =>
      obtain ⟨ch', hch', hrest⟩ := ih (h.deliver event)
      refine ⟨ch', ?_, ?_⟩
      · rwa [sentEvents_cons_sent, List.append_cons]
      · have hturn : (Delivery.mk (.sending (.sent event :: actions) after) ch).send.receive =
            ⟨.sending actions after, (ch.send event).receive⟩ := by
          rw [send_upToDate h, receive_send h]
        rw [← hrest, ← hturn]
        rfl

theorem iterate_done (ws : List Encounter) :
    (ws.map DeliveryTurn.iterate).foldl (Delivery.step args) ⟨.done, ch⟩ = ⟨.done, ch⟩ := by
  induction ws with
  | nil => rfl
  | cons w ws ih => exact ih

theorem encounters_iterate (ws : List Encounter) :
    (ws.map DeliveryTurn.iterate).flatMap DeliveryTurn.encounters = ws := by
  induction ws with
  | nil => rfl
  | cons w ws ih => exact congrArg (w :: ·) ih

theorem upToDate_run (h : ch.UpToDate events) (s : StreamState) (ws : List Encounter) :
    ∃ turns : List DeliveryTurn, turns.flatMap DeliveryTurn.encounters = ws ∧
      (turns.foldl (Delivery.step args) ⟨.looping s, ch⟩).channel.received =
        events ++ runEvents args s (ws.map Encounter.patient) := by
  induction ws generalizing s ch events with
  | nil =>
    refine ⟨[], rfl, ?_⟩
    rw [List.foldl_nil, h.received_eq]
    exact (List.append_nil events).symm
  | cons w ws ih =>
    obtain ⟨ch', hch', hturns⟩ :=
      takeTurns_sending args h (streamStep args s w.patient).1 (streamStep args s w.patient).2
    have hbegin : Delivery.step args ⟨.looping s, ch⟩ (.iterate w) =
        ⟨.sending (streamStep args s w.patient).1 (streamStep args s w.patient).2, ch⟩ := if_pos h.there
    cases hafter : (streamStep args s w.patient).2 with
    | next s' =>
      rw [hafter] at hturns hbegin
      obtain ⟨turns, hws, hreceived⟩ := ih hch' s'
      refine ⟨.iterate w :: (takeTurns ((streamStep args s w.patient).1.length + 1) ++ turns), ?_, ?_⟩
      · rw [List.flatMap_cons, List.flatMap_append, encounters_takeTurns, List.nil_append, hws]
        rfl
      · rw [List.foldl_cons, hbegin, List.foldl_append, hturns, Producer.resume, hreceived, List.append_assoc,
          runEvents, runEvents, runStream, runStream, List.map_cons, visits_cons_next _ hafter, outputs_cons,
          sentEvents_append, visit_output]
    | halt reason =>
      rw [hafter] at hturns hbegin
      refine ⟨.iterate w :: (takeTurns ((streamStep args s w.patient).1.length + 1) ++ ws.map .iterate), ?_, ?_⟩
      · rw [List.flatMap_cons, List.flatMap_append, encounters_takeTurns, List.nil_append, encounters_iterate]
        rfl
      · rw [List.foldl_cons, hbegin, List.foldl_append, hturns, Producer.resume, iterate_done, hch'.received_eq,
          runEvents, runStream, List.map_cons, visits_cons_halt _ hafter, outputs_cons, outputs_nil, List.append_nil,
          visit_output]

end KeepsUp

/-- **Nothing is missed.** Whatever the loop meets, a client that takes each event as it comes gets all events of the
run. -/
theorem received_all (args : AssemblyArgs) (s : StreamState) (ws : List Encounter) :
    ∃ turns : List DeliveryTurn, turns.flatMap DeliveryTurn.encounters = ws ∧
      (Delivery.run args s turns).channel.received = runEvents args s (ws.map Encounter.patient) :=
  upToDate_run args (Channel.upToDate_empty (by decide)) s ws

end NocyWalletFeed
