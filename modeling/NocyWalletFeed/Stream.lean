import NocyWalletFeed.Blocks
import NocyWalletFeed.Readiness
import NocyWalletFeed.Routes.Feed
import NocyWalletFeed.Routes.Subscribe

/-!
# Runs of the stream

* `Fetched`, `streamStep_cases` : an iteration fetches a batch, or is quiet and leaves the state as it is;
* `blockAction`, `sendBundles_cases` : what becomes of the bundles of a batch;
* `processBatch_reset`, `processBatch_linked` : a batch is reset or processed;
* `StreamInv`, `streamInv_before` : where a run is before each of its iterations;
* `stream_continuity` : the blocks a run processes, their events, and its resets.
-/

namespace NocyWalletFeed
open Codec Machine

/-! ## Processed blocks -/

/-- The block an action processes: one sent, or one passed over. -/
def StreamAction.processed : StreamAction → Option BlockMeta
  | .sent (.block bundle) => some bundle.blockMeta
  | .sent (.heartbeat _ _) => none
  | .sent (.control _) => none
  | .skipped blockMeta => some blockMeta

def processedBlocks (actions : List StreamAction) : List BlockMeta := actions.filterMap StreamAction.processed

/-- The blocks processed by a run. -/
abbrev processedBy (vs : List (Visit StreamState Iteration StreamAction)) : List BlockMeta :=
  processedBlocks (outputs vs)

theorem processedBlocks_append (a b : List StreamAction) :
    processedBlocks (a ++ b) = processedBlocks a ++ processedBlocks b := List.filterMap_append

theorem processedBy_snoc (vs : List (Visit StreamState Iteration StreamAction))
    (v : Visit StreamState Iteration StreamAction) :
    processedBy (vs ++ [v]) = processedBy vs ++ processedBlocks v.output := by
  rw [processedBy, outputs_append, processedBlocks_append, outputs_cons, outputs_nil, List.append_nil]

theorem processedBlocks_take_control (event : ControlEvent) (sends : Nat) :
    processedBlocks ([StreamAction.sent (.control event)].take sends) = [] := by
  refine List.filterMap_eq_nil_iff.mpr fun action hmem => ?_
  rw [List.mem_singleton.mp (List.mem_of_mem_take hmem)]
  rfl

/-! ## One iteration -/

/-- An iteration fetches a batch: the client is there, the wallet is ready and the query returns blocks. -/
structure Fetched (args : AssemblyArgs) (s : StreamState) (e : Iteration) (db : Database) (readyHeight : Int)
    (batch : List BlockMeta) : Prop where
  connected : e.isClosed = false
  snapshot : e.snapshot = .ok db
  ready : WalletReady db args.upstreamSessionId readyHeight
  le_ready : s.currentHeight ≤ readyHeight
  batch_eq : fetchBatch db s readyHeight = batch
  nonempty : batch ≠ []

/-- Heartbeats only. -/
def Quiet (actions : List StreamAction) : Prop :=
  ∀ action ∈ actions, ∃ watermarks height, action = .sent (.heartbeat watermarks height)

theorem Quiet.processedBlocks {actions : List StreamAction} (h : Quiet actions) : processedBlocks actions = [] := by
  refine List.filterMap_eq_nil_iff.mpr fun action hmem => ?_
  obtain ⟨_, _, rfl⟩ := h action hmem
  rfl

theorem quiet_nil : Quiet [] := fun _ h => nomatch h

section Step
variable {args : AssemblyArgs} {s : StreamState} {e : Iteration}

theorem Fetched.streamStep_eq {db : Database} {readyHeight : Int} {batch : List BlockMeta}
    (h : Fetched args s e db readyHeight batch) : streamStep args s e = processBatch args e s db batch := by
  have hready : computeWalletReadyHeight db args.upstreamSessionId (getChainHead db) = .ok (some readyHeight) := h.ready
  have hbatch := h.batch_eq
  simp only [streamStep, h.connected, h.snapshot, hready, if_neg (not_lt.mpr h.le_ready), Bool.false_eq_true, if_false]
  cases batch with
  | nil => exact absurd rfl h.nonempty
  | cons first rest => rw [hbatch]

theorem heartbeatAndWait_cases (watermarks : Watermarks) : Quiet (heartbeatAndWait e s watermarks).1 ∧
    ∀ s', (heartbeatAndWait e s watermarks).2 = .next s' → s' = s := by
  unfold heartbeatAndWait
  split_ifs
  · cases e.sends with
    | zero => exact ⟨quiet_nil, fun s' h => nomatch h⟩
    | succ n =>
      refine ⟨fun action hmem => ?_, fun s' h => (Flow.next.inj h).symm⟩
      exact ⟨_, _, List.mem_singleton.mp hmem⟩
  · exact ⟨quiet_nil, fun s' h => (Flow.next.inj h).symm⟩

variable (args s e)

/-- **An iteration** fetches a batch and processes it, or sends heartbeats at most and keeps the state. -/
theorem streamStep_cases :
    (∃ db readyHeight batch, Fetched args s e db readyHeight batch) ∨
      (Quiet (streamStep args s e).1 ∧ ∀ s', (streamStep args s e).2 = .next s' → s' = s) := by
  unfold streamStep
  cases hclosed : e.isClosed with
  | true => exact Or.inr ⟨quiet_nil, fun s' h => nomatch h⟩
  | false =>
    rw [if_neg Bool.false_ne_true]
    cases hsnapshot : e.snapshot with
    | error failure => exact Or.inr ⟨quiet_nil, fun s' h => nomatch h⟩
    | ok db =>
      dsimp only
      cases hready : computeWalletReadyHeight db args.upstreamSessionId (getChainHead db) with
      | error failure => exact Or.inr ⟨quiet_nil, fun s' h => nomatch h⟩
      | ok ready =>
        cases ready with
        | none => exact Or.inr (heartbeatAndWait_cases _)
        | some readyHeight =>
          dsimp only
          split_ifs with hle
          · exact Or.inr (heartbeatAndWait_cases _)
          · cases hbatch : fetchBatch db s readyHeight with
            | nil => exact Or.inr ⟨quiet_nil, fun s' h => (Flow.next.inj h).symm⟩
            | cons first rest =>
              exact Or.inl ⟨db, readyHeight, first :: rest, hclosed, hsnapshot, hready, not_lt.mp hle, hbatch,
                List.cons_ne_nil first rest⟩

end Step

/-! ## Sending a batch -/

/-- The action for a bundle: its items after the cursor filter, or a skip where none are left. -/
def blockAction (fromCursor : Option SequenceKey) (bundle : BlockBundle) : StreamAction :=
  let items := filterCursorBlock fromCursor bundle.blockMeta.height bundle.items
  if items.isEmpty then .skipped bundle.blockMeta else .sent (.block ⟨bundle.blockMeta, items⟩)

@[simp] theorem processed_blockAction (fromCursor : Option SequenceKey) (bundle : BlockBundle) :
    (blockAction fromCursor bundle).processed = some bundle.blockMeta := by
  unfold blockAction
  dsimp only
  split_ifs <;> rfl

theorem processedBlocks_map_blockAction (fromCursor : Option SequenceKey) (bundles : List BlockBundle) :
    processedBlocks (bundles.map (blockAction fromCursor)) = bundles.map (·.blockMeta) := by
  rw [processedBlocks, List.filterMap_map]
  have : StreamAction.processed ∘ blockAction fromCursor = some ∘ (·.blockMeta) :=
    funext fun bundle => processed_blockAction fromCursor bundle
  rw [this, List.filterMap_eq_map]

/-- The cursor of a stream that started at `fromHeight` and is at `currentHeight`: dropped once its block is passed. -/
def pendingCursor (fromCursor : Option SequenceKey) (fromHeight currentHeight : Int) : Option SequenceKey :=
  fromCursor.filter fun cursor => cursor.blockHeight < fromHeight ∨ currentHeight ≤ cursor.blockHeight

/-- The cursor of a stream filters the cursor's own block and no other. -/
theorem applyCursor_pendingCursor (fromCursor : Option SequenceKey) {fromHeight : Int} {bundle : BlockBundle}
    (hlo : fromHeight ≤ bundle.blockMeta.height) :
    applyCursor (pendingCursor fromCursor fromHeight bundle.blockMeta.height) bundle =
      (filterCursorBlock fromCursor bundle.blockMeta.height bundle.items,
        pendingCursor fromCursor fromHeight (bundle.blockMeta.height + 1)) := by
  cases fromCursor with
  | none => rfl
  | some cursor =>
    rcases lt_trichotomy cursor.blockHeight bundle.blockMeta.height with hlt | heq | hgt
    · by_cases hbefore : cursor.blockHeight < fromHeight
      · simp [pendingCursor, Option.filter, applyCursor, filterCursorBlock, hbefore, hlt.ne, hlt.ne']
      · simp [pendingCursor, Option.filter, applyCursor, filterCursorBlock, hbefore, hlt.ne, not_le.mpr hlt,
          not_le.mpr (hlt.trans (lt_add_one _))]
    · have hbefore : ¬ cursor.blockHeight < fromHeight := by omega
      have hpast : ¬ cursor.blockHeight + 1 ≤ cursor.blockHeight := by omega
      simp [pendingCursor, Option.filter, applyCursor, filterCursorBlock, ← heq, hbefore]
    · have hnext : bundle.blockMeta.height + 1 ≤ cursor.blockHeight := by omega
      simp [pendingCursor, Option.filter, applyCursor, filterCursorBlock, hgt.le, hgt.ne, hgt.ne', hnext]

/-- **Sending.** The client takes the actions of some bundles of the batch; of all of them, unless the stream ends. -/
theorem sendBundles_cases (fromCursor : Option SequenceKey) {fromHeight currentHeight : Int} {prevHash : Option String}
    {bundles : List BlockBundle} (hlinked : Linked currentHeight prevHash (bundles.map (·.blockMeta)))
    (hlo : fromHeight ≤ currentHeight) (sends : Nat) :
    sendBundles sends currentHeight (pendingCursor fromCursor fromHeight currentHeight) bundles =
        (bundles.map (blockAction fromCursor),
          some (currentHeight + bundles.length, pendingCursor fromCursor fromHeight (currentHeight + bundles.length))) ∨
      ∃ sent, sent <+: bundles ∧ sends < bundles.length ∧
        sendBundles sends currentHeight (pendingCursor fromCursor fromHeight currentHeight) bundles =
          (sent.map (blockAction fromCursor), none) := by
  induction bundles generalizing currentHeight prevHash sends with
  | nil => exact Or.inl (by simp [sendBundles])
  | cons bundle bundles ih =>
    obtain ⟨hheight, -, hrest⟩ := hlinked
    have hheight : bundle.blockMeta.height = currentHeight := hheight
    subst hheight
    have hlen : bundle.blockMeta.height + ((bundle :: bundles).length : Int) =
        bundle.blockMeta.height + 1 + bundles.length := by
      rw [List.length_cons]
      omega
    have happly := applyCursor_pendingCursor fromCursor hlo
    have ih := fun sends => ih hrest (by omega) sends
    rw [hlen]
    unfold sendBundles
    rw [happly]
    dsimp only
    split_ifs with hempty
    · have haction : blockAction fromCursor bundle = .skipped bundle.blockMeta := by simp [blockAction, hempty]
      rcases ih sends with h | ⟨sent, hprefix, hfew, h⟩
      · rw [h, ← haction]
        exact Or.inl rfl
      · rw [h, ← haction]
        exact Or.inr ⟨bundle :: sent, List.cons_prefix_cons.mpr ⟨rfl, hprefix⟩, hfew.trans (Nat.lt_succ_self _), rfl⟩
    · have haction : blockAction fromCursor bundle = .sent (.block ⟨bundle.blockMeta,
          filterCursorBlock fromCursor bundle.blockMeta.height bundle.items⟩) := by simp [blockAction, hempty]
      cases sends with
      | zero => exact Or.inr ⟨[], List.nil_prefix, Nat.succ_pos _, rfl⟩
      | succ sends =>
        dsimp only
        rcases ih sends with h | ⟨sent, hprefix, hfew, h⟩
        · rw [h, ← haction]
          exact Or.inl rfl
        · rw [h, ← haction]
          exact Or.inr ⟨bundle :: sent, List.cons_prefix_cons.mpr ⟨rfl, hprefix⟩, Nat.succ_lt_succ hfew, rfl⟩

/-! ## Sent items -/

def sentItems (actions : List StreamAction) : List OrderedFeedItem := actions.flatMap fun
  | .sent (.block bundle) => bundle.items
  | .sent (.heartbeat _ _) => []
  | .sent (.control _) => []
  | .skipped _ => []

theorem sentItems_append (a b : List StreamAction) : sentItems (a ++ b) = sentItems a ++ sentItems b :=
  List.flatMap_append

/-- The items of a bundle that are sent are those the cursor filter leaves. -/
theorem sentItems_map_blockAction (fromCursor : Option SequenceKey) (bundles : List BlockBundle) :
    sentItems (bundles.map (blockAction fromCursor)) =
      bundles.flatMap (fun bundle => filterCursorBlock fromCursor bundle.blockMeta.height bundle.items) := by
  rw [sentItems, List.flatMap_map]
  refine List.flatMap_congr fun bundle _ => ?_
  unfold blockAction
  dsimp only
  split_ifs with hempty
  · exact (List.isEmpty_iff.mp hempty).symm
  · rfl

theorem sentItems_map_blockAction_none (bundles : List BlockBundle) :
    sentItems (bundles.map (blockAction none)) = bundles.flatMap (·.items) := sentItems_map_blockAction none bundles

theorem sentItems_of_quiet {actions : List StreamAction} (h : Quiet actions) : sentItems actions = [] := by
  refine List.flatMap_eq_nil_iff.mpr fun action hmem => ?_
  obtain ⟨_, _, rfl⟩ := h action hmem
  rfl

theorem sentItems_take_control (event : ControlEvent) (sends : Nat) :
    sentItems ([StreamAction.sent (.control event)].take sends) = [] := by
  refine List.flatMap_eq_nil_iff.mpr fun action hmem => ?_
  rw [List.mem_singleton.mp (List.mem_of_mem_take hmem)]

/-! ## Processing a batch -/

theorem streamBundles_metas (w : WindowRows) (merkle : MerkleBehaviour) (position : MerklePosition)
    (blocksMeta : List BlockMeta) : (streamBundles w merkle position blocksMeta).1.map (·.blockMeta) = blocksMeta := by
  induction blocksMeta generalizing position with
  | nil => rfl
  | cons blockMeta rest ih => exact congrArg (blockMeta :: ·) (ih _)

theorem buildBlockBundles_metas (db : Database) (args : AssemblyArgs) (merkle : MerkleBehaviour)
    (blocksMeta : List BlockMeta) (lastMerkleEndIndex : Int) :
    (buildBlockBundles db args merkle blocksMeta lastMerkleEndIndex).1.map (·.blockMeta) = blocksMeta := by
  cases blocksMeta with
  | nil => rfl
  | cons first rest =>
    rw [buildBlockBundles, List.head?_cons, List.getLast?_eq_some_getLast (List.cons_ne_nil first rest)]
    exact streamBundles_metas _ _ _ _

def builtBundles (args : AssemblyArgs) (s : StreamState) (e : Iteration) (db : Database) (batch : List BlockMeta) :
    List BlockBundle := (buildBlockBundles db args e.merkle batch s.lastMerkleEndIndex).1

def stateAfter (args : AssemblyArgs) (s : StreamState) (e : Iteration) (db : Database) (batch : List BlockMeta)
    (fromCursor : Option SequenceKey) : StreamState :=
  ⟨s.currentHeight + batch.length, fromCursor, (buildBlockBundles db args e.merkle batch s.lastMerkleEndIndex).2,
    lastHash s.lastBlockHash batch⟩

theorem Linked.weaken {expectedHeight : Int} {prevHash : Option String} {blocks : List BlockMeta}
    (h : Linked expectedHeight prevHash blocks) : Linked expectedHeight none blocks := by
  cases blocks with
  | nil => trivial
  | cons block blocks => exact ⟨h.1, (fun hash hmem => nomatch hmem), h.2.2⟩

/-- A batch that passes the boundary check continues the block processed last. -/
theorem Linked.of_boundaryHash {db : Database} {s : StreamState} {batch : List BlockMeta}
    (h : Linked s.currentHeight (boundaryHash db s) batch) : Linked s.currentHeight s.lastBlockHash batch := by
  cases hlast : s.lastBlockHash with
  | none => exact h.weaken
  | some hash =>
    rw [boundaryHash, hlast] at h
    simpa using h

theorem linked_append {expectedHeight : Int} {prevHash : Option String} {pre post : List BlockMeta} :
    Linked expectedHeight prevHash (pre ++ post) ↔ Linked expectedHeight prevHash pre ∧
      Linked (expectedHeight + pre.length) (lastHash prevHash pre) post := by
  induction pre generalizing expectedHeight prevHash with
  | nil => simp [Linked]
  | cons block pre ih =>
    have hlen : expectedHeight + ((block :: pre).length : Int) = expectedHeight + 1 + pre.length := by
      rw [List.length_cons]
      omega
    rw [List.cons_append, Linked, Linked, ih, lastHash_cons, hlen]
    simp only [and_assoc]

theorem lastHash_append (prevHash : Option String) (pre post : List BlockMeta) :
    lastHash prevHash (pre ++ post) = lastHash (lastHash prevHash pre) post := by
  induction pre generalizing prevHash with
  | nil => rfl
  | cons block pre ih => rw [List.cons_append, lastHash_cons, lastHash_cons, ih]

section Batch
variable (args : AssemblyArgs) {s : StreamState} (e : Iteration) (db : Database) {batch : List BlockMeta}

/-- A batch with a defect is answered with a reset. -/
theorem processBatch_reset (h : ¬ Linked s.currentHeight (boundaryHash db s) batch) :
    ∃ event, validateBlocks s.currentHeight (boundaryHash db s) batch = some event ∧
      processBatch args e s db batch = ([StreamAction.sent (.control event)].take e.sends, .halt (.ok ())) := by
  cases hvalid : validateBlocks s.currentHeight (boundaryHash db s) batch with
  | none => exact absurd (validateBlocks_eq_none_iff.mp hvalid) h
  | some event =>
    refine ⟨event, rfl, ?_⟩
    rw [processBatch, hvalid]

/-- A batch without a defect is processed, in whole unless the client leaves. -/
theorem processBatch_linked {fromCursor : Option SequenceKey} {fromHeight : Int} (hlo : fromHeight ≤ s.currentHeight)
    (hcursor : s.fromCursor = pendingCursor fromCursor fromHeight s.currentHeight) (hne : batch ≠ [])
    (h : Linked s.currentHeight (boundaryHash db s) batch) :
    processBatch args e s db batch = ((builtBundles args s e db batch).map (blockAction fromCursor),
        .next (stateAfter args s e db batch (pendingCursor fromCursor fromHeight (s.currentHeight + batch.length)))) ∨
      ∃ sent, sent <+: builtBundles args s e db batch ∧ e.sends < batch.length ∧
        processBatch args e s db batch = (sent.map (blockAction fromCursor), .halt (.ok ())) := by
  have hmetas := buildBlockBundles_metas db args e.merkle batch s.lastMerkleEndIndex
  have hlen : (buildBlockBundles db args e.merkle batch s.lastMerkleEndIndex).1.length = batch.length := by
    rw [← List.length_map, hmetas]
  have hlast : batch.getLast?.map (·.hash) = lastHash s.lastBlockHash batch := by
    rw [lastHash, List.getLast?_eq_some_getLast hne]
    rfl
  have hsend := sendBundles_cases fromCursor (by rwa [hmetas]) hlo e.sends
  rw [← hcursor, hlen] at hsend
  unfold processBatch
  rw [validateBlocks_eq_none_iff.mpr h]
  dsimp only
  rcases hsend with hsend | ⟨sent, hprefix, hfew, hsend⟩
  · rw [hsend]
    dsimp only
    rw [hlast]
    exact Or.inl rfl
  · rw [hsend]
    exact Or.inr ⟨sent, hprefix, hfew, rfl⟩

end Batch

/-! ## Runs -/

/-- Where a run is after it has processed some blocks. -/
structure StreamInv (fromHeight : Int) (fromCursor : Option SequenceKey) (processed : List BlockMeta)
    (s : StreamState) : Prop where
  height : s.currentHeight = fromHeight + processed.length
  linked : Linked fromHeight none processed
  hash : s.lastBlockHash = lastHash none processed
  cursor : s.fromCursor = pendingCursor fromCursor fromHeight s.currentHeight

theorem streamInv_initial (fromHeight : Int) (fromCursor : Option SequenceKey) :
    StreamInv fromHeight fromCursor [] (.initial fromHeight fromCursor) where
  height := by simp [StreamState.initial]
  linked := trivial
  hash := rfl
  cursor := by
    cases fromCursor with
    | none => rfl
    | some cursor =>
      have : cursor.blockHeight < fromHeight ∨ fromHeight ≤ cursor.blockHeight := lt_or_ge _ _
      simp [StreamState.initial, pendingCursor, Option.filter, this]

section Runs
variable {args : AssemblyArgs} {fromHeight : Int} {fromCursor : Option SequenceKey} {processed : List BlockMeta}
  {s : StreamState} {e : Iteration}

theorem StreamInv.fromHeight_le (h : StreamInv fromHeight fromCursor processed s) : fromHeight ≤ s.currentHeight := by
  have := h.height
  omega

/-- The blocks of a batch that passes validation continue the blocks processed so far. -/
theorem StreamInv.linked_batch (h : StreamInv fromHeight fromCursor processed s) {db : Database}
    {batch : List BlockMeta} (hbatch : Linked s.currentHeight (boundaryHash db s) batch) :
    Linked fromHeight none (processed ++ batch) := by
  refine linked_append.mpr ⟨h.linked, ?_⟩
  rw [← h.height, ← h.hash]
  exact hbatch.of_boundaryHash

variable (args e) in
theorem StreamInv.output_cases (h : StreamInv fromHeight fromCursor processed s) :
    Quiet (streamStep args s e).1 ∨ ∃ db readyHeight batch, Fetched args s e db readyHeight batch ∧
      ((¬ Linked s.currentHeight (boundaryHash db s) batch ∧ ∃ event,
          (streamStep args s e).1 = [StreamAction.sent (.control event)].take e.sends) ∨
        (Linked s.currentHeight (boundaryHash db s) batch ∧ ∃ sent, sent <+: builtBundles args s e db batch ∧
          (streamStep args s e).1 = sent.map (blockAction fromCursor))) := by
  rcases streamStep_cases args s e with ⟨db, readyHeight, batch, hfetched⟩ | ⟨hquiet, -⟩
  · refine Or.inr ⟨db, readyHeight, batch, hfetched, ?_⟩
    rw [hfetched.streamStep_eq]
    by_cases hlinked : Linked s.currentHeight (boundaryHash db s) batch
    · refine Or.inr ⟨hlinked, ?_⟩
      rcases processBatch_linked args e db h.fromHeight_le h.cursor hfetched.nonempty hlinked with
        heq | ⟨sent, hprefix, -, heq⟩
      · exact ⟨_, List.prefix_refl _, by rw [heq]⟩
      · exact ⟨sent, hprefix, by rw [heq]⟩
    · obtain ⟨event, -, heq⟩ := processBatch_reset args e db hlinked
      exact Or.inl ⟨hlinked, event, by rw [heq]⟩
  · exact Or.inl hquiet

/-- **Step.** An iteration after which the loop goes on keeps the invariant. -/
theorem StreamInv.next (h : StreamInv fromHeight fromCursor processed s) {s' : StreamState}
    (hnext : (streamStep args s e).2 = .next s') :
    StreamInv fromHeight fromCursor (processed ++ processedBlocks (streamStep args s e).1) s' := by
  rcases streamStep_cases args s e with ⟨db, readyHeight, batch, hfetched⟩ | ⟨hquiet, hkeep⟩
  · rw [hfetched.streamStep_eq] at hnext ⊢
    by_cases hlinked : Linked s.currentHeight (boundaryHash db s) batch
    · rcases processBatch_linked args e db h.fromHeight_le h.cursor hfetched.nonempty hlinked with
        heq | ⟨sent, -, -, heq⟩
      · rw [heq] at hnext ⊢
        obtain rfl := Flow.next.inj hnext
        have hprocessed : processedBlocks ((builtBundles args s e db batch).map (blockAction fromCursor)) = batch := by
          rw [processedBlocks_map_blockAction, builtBundles, buildBlockBundles_metas]
        rw [hprocessed]
        refine ⟨?_, h.linked_batch hlinked, ?_, rfl⟩
        · have := h.height
          rw [stateAfter, List.length_append]
          push_cast
          omega
        · rw [stateAfter, lastHash_append, ← h.hash]
      · rw [heq] at hnext
        cases hnext
    · obtain ⟨event, -, heq⟩ := processBatch_reset args e db hlinked
      rw [heq] at hnext
      cases hnext
  · rw [hquiet.processedBlocks, List.append_nil, hkeep s' hnext]
    exact h

variable (args e) in
theorem StreamInv.linked_output (h : StreamInv fromHeight fromCursor processed s) :
    Linked fromHeight none (processed ++ processedBlocks (streamStep args s e).1) := by
  rcases h.output_cases args e with hquiet | ⟨db, _, batch, -, ⟨-, event, heq⟩ | ⟨hlinked, sent, hprefix, heq⟩⟩
  · rw [hquiet.processedBlocks, List.append_nil]
    exact h.linked
  · rw [heq, processedBlocks_take_control, List.append_nil]
    exact h.linked
  · obtain ⟨rest, hrest⟩ := hprefix
    have hbatch : batch = sent.map (·.blockMeta) ++ rest.map (·.blockMeta) := by
      rw [← List.map_append, hrest, builtBundles, buildBlockBundles_metas]
    rw [heq, processedBlocks_map_blockAction]
    have := h.linked_batch hlinked
    rw [hbatch, ← List.append_assoc] at this
    exact (linked_append.mp this).1

end Runs

/-- A run of the stream from its first state. -/
abbrev streamRun (args : AssemblyArgs) (fromHeight : Int) (fromCursor : Option SequenceKey)
    (iterations : List Iteration) : List (Visit StreamState Iteration StreamAction) :=
  runStream args (.initial fromHeight fromCursor) iterations

section StreamRun
variable (args : AssemblyArgs) (fromHeight : Int) (fromCursor : Option SequenceKey) (iterations : List Iteration)

theorem streamInv_next (hist : List (Visit StreamState Iteration StreamAction)) (s : StreamState) (e : Iteration)
    (s' : StreamState) (hinv : StreamInv fromHeight fromCursor (processedBy hist) s)
    (hnext : (streamStep args s e).2 = .next s') :
    StreamInv fromHeight fromCursor (processedBy (hist ++ [visit (streamStep args) s e])) s' := by
  rw [processedBy_snoc]
  exact hinv.next hnext

variable {args fromHeight fromCursor iterations}

theorem streamInv_before {pre post : List (Visit StreamState Iteration StreamAction)}
    {v : Visit StreamState Iteration StreamAction}
    (h : streamRun args fromHeight fromCursor iterations = pre ++ v :: post) :
    StreamInv fromHeight fromCursor (processedBy pre) v.before :=
  invariant_before (fun hist s => StreamInv fromHeight fromCursor (processedBy hist) s)
    (fun hist s e _ s' => streamInv_next args fromHeight fromCursor hist s e s')
    (streamInv_initial fromHeight fromCursor) h

theorem streamRun_output {pre post : List (Visit StreamState Iteration StreamAction)}
    {v : Visit StreamState Iteration StreamAction}
    (h : streamRun args fromHeight fromCursor iterations = pre ++ v :: post) :
    v.output = (streamStep args v.before v.input).1 := by
  have hmem : v ∈ streamRun args fromHeight fromCursor iterations := by
    rw [h]
    exact List.mem_append_right pre List.mem_cons_self
  exact congrArg Visit.output (eq_visit_of_mem hmem)

variable (args fromHeight fromCursor iterations) in
/-- The processed blocks of a run have consecutive heights, and each names the one before as its parent. -/
theorem linked_processedBy :
    Linked fromHeight none (processedBy (streamRun args fromHeight fromCursor iterations)) := by
  refine visits_rule (fun hist s => StreamInv fromHeight fromCursor (processedBy hist) s)
    (fun hist => Linked fromHeight none (processedBy hist))
    (fun hist s e _ s' => streamInv_next args fromHeight fromCursor hist s e s')
    (fun hist s hinv => hinv.linked) ?_ (streamInv_initial fromHeight fromCursor)
  intro hist s e _ _ hinv _
  rw [processedBy_snoc]
  exact hinv.linked_output args e

end StreamRun

/-- An iteration of a connected client, without merkle sources. -/
def Sample.iteration (db : Database) : Iteration := ⟨false, .ok db, false, fun _ _ _ => ⟨none, .ok (), []⟩, 10⟩

/-- An action processes a block of a fetched batch, with the event or the skip that the items of its bundle call for. -/
def Processes (args : AssemblyArgs) (fromCursor : Option SequenceKey) (v : Visit StreamState Iteration StreamAction)
    (action : StreamAction) (blockMeta : BlockMeta) : Prop :=
  ∃ db readyHeight batch, Fetched args v.before v.input db readyHeight batch ∧ blockMeta.height ≤ readyHeight ∧
    db.metaAt blockMeta.height = some blockMeta ∧
    ∃ bundle ∈ builtBundles args v.before v.input db batch, bundle.blockMeta = blockMeta ∧
      action = blockAction fromCursor bundle

/-- **Continuity of the stream.** Over any run, from any height and with any cursor: the processed blocks have
consecutive heights from `fromHeight` and each names the one before as its parent; each is read from a snapshot in which
the wallet is ready up to it, and is sent exactly when its items, after the cursor filter of the cursor's own block, are
not empty; and an iteration whose batch does not continue the processed blocks processes none of them, sends one control
event, if the client takes it, and is the last. -/
theorem stream_continuity (args : AssemblyArgs) (fromHeight : Int) (fromCursor : Option SequenceKey)
    (iterations : List Iteration) :
    Linked fromHeight none (processedBy (streamRun args fromHeight fromCursor iterations)) ∧
    ∀ pre v post, streamRun args fromHeight fromCursor iterations = pre ++ v :: post →
      (∀ action ∈ v.output, ∀ blockMeta ∈ action.processed, Processes args fromCursor v action blockMeta) ∧
      ∀ db readyHeight batch, Fetched args v.before v.input db readyHeight batch →
        ¬ Linked (fromHeight + (processedBy pre).length) (lastHash none (processedBy pre)) batch →
        processedBlocks v.output = [] ∧
          (∃ event, v.output = [StreamAction.sent (.control event)].take v.input.sends) ∧ post = [] := by
  refine ⟨linked_processedBy args fromHeight fromCursor iterations, fun pre v post h => ⟨?_, ?_⟩⟩
  · intro action hmem blockMeta hprocessed
    have hinv := streamInv_before h
    rw [streamRun_output h] at hmem
    rcases hinv.output_cases args v.input with hquiet | ⟨db, readyHeight, batch, hfetched, ⟨-, event, heq⟩ |
      ⟨hlinked, sent, hprefix, heq⟩⟩
    · obtain ⟨_, _, rfl⟩ := hquiet action hmem
      cases hprocessed
    · rw [heq] at hmem
      rw [List.mem_singleton.mp (List.mem_of_mem_take hmem)] at hprocessed
      cases hprocessed
    · rw [heq] at hmem
      obtain ⟨bundle, hbundle, rfl⟩ := List.mem_map.mp hmem
      obtain rfl := Option.some.inj ((processed_blockAction fromCursor bundle).symm.trans hprocessed)
      have hbuilt := hprefix.subset hbundle
      have hbatch : bundle.blockMeta ∈ fetchBatch db v.before readyHeight := by
        rw [hfetched.batch_eq, ← buildBlockBundles_metas db args v.input.merkle batch v.before.lastMerkleEndIndex]
        exact List.mem_map_of_mem hbuilt
      obtain ⟨-, hhi, hmeta⟩ := mem_getBlocksInRange.mp hbatch
      exact ⟨db, readyHeight, batch, hfetched, hhi.trans (min_le_right _ _), hmeta, bundle, hbuilt, rfl, rfl⟩
  · intro db readyHeight batch hfetched hdefect
    have hinv := streamInv_before h
    rw [← hinv.height, ← hinv.hash] at hdefect
    obtain ⟨event, -, heq⟩ := processBatch_reset args v.input db (mt Linked.of_boundaryHash hdefect)
    rw [← hfetched.streamStep_eq] at heq
    have houtput : v.output = [StreamAction.sent (.control event)].take v.input.sends := by
      rw [streamRun_output h, heq]
    refine ⟨?_, ⟨event, houtput⟩, eq_nil_of_halt h (by rw [heq])⟩
    rw [houtput, processedBlocks_take_control]

end NocyWalletFeed
