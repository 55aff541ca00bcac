import NocyWalletFeed.Ranges
import NocyWalletFeed.StreamFeed

/-!
# The stream is self-contained

The ranges that a run delivers increase where those of the relevant transactions do, in whatever snapshots the run
meets them.

* `RangesOrdered` : the ranges of the relevant transactions of all snapshots;
* `Ascends`, `ascends_streamBundle` : what some steps deliver lies behind what has been delivered before;
* `stream_selfContained` : every update of a run starts at the current position, and every transaction does unless
  neither the cache nor the upstream has an answer for the gap before it.
-/

namespace NocyWalletFeed
open Codec Machine OrderBy Walk

/-! ## The rows of the snapshots -/

/-- An iteration of a run reads a snapshot. -/
def Met (iterations : List Iteration) (db : Database) : Prop := ∃ e ∈ iterations, e.snapshot = .ok db

/-- The range of one transaction ends before that of another begins, where both have one. -/
def RangeBefore (row row' : RelevantTxRow) : Prop :=
  ∀ range ∈ row.range, ∀ range' ∈ row'.range, range.2 ≤ range'.1

instance (row row' : RelevantTxRow) : Decidable (RangeBefore row row') := by
  unfold RangeBefore
  infer_instance

/-- The relevant transactions of the snapshots have well-formed index ranges that do not overlap, and increase with the
id in a block and with the height from block to block, also from one snapshot to another. -/
structure RangesOrdered (args : AssemblyArgs) (iterations : List Iteration) : Prop where
  wellFormed : ∀ db, Met iterations db → ∀ height, ∀ row ∈ relevantRows db args height, ∀ range ∈ row.range,
    0 ≤ range.1 ∧ range.1 ≤ range.2
  block : ∀ db, Met iterations db → ∀ height, (relevantRows db args height).Pairwise RangeBefore
  blocks : ∀ db db', Met iterations db → Met iterations db' → ∀ height height', height < height' →
    ∀ row ∈ relevantRows db args height, ∀ row' ∈ relevantRows db' args height', RangeBefore row row'

theorem RangesOrdered.of_snapshot {args : AssemblyArgs} {db : Database} {iteration : Iteration}
    (hsnapshot : iteration.snapshot = .ok db) (height : Int) (hheights : ∀ b ∈ db.blocks, b.height = height)
    (hwf : ∀ row ∈ relevantRows db args height, ∀ range ∈ row.range, 0 ≤ range.1 ∧ range.1 ≤ range.2)
    (hordered : (relevantRows db args height).Pairwise RangeBefore) : RangesOrdered args [iteration] := by
  have hmet : ∀ db', Met [iteration] db' → db' = db := by
    rintro db' ⟨e, he, hdb'⟩
    rw [List.mem_singleton.mp he, hsnapshot] at hdb'
    exact (Except.ok.inj hdb').symm
  have hrows : ∀ height' : Int, ∀ row ∈ relevantRows db args height', height' = height := by
    intro height' row hrow
    obtain ⟨b, hb, hheight⟩ := (inBlock_of_mem_relevant (List.mem_filter.mp hrow).1).exists_block
    have hrowHeight : row.blockHeight = height' := of_decide_eq_true (List.mem_filter.mp hrow).2
    rw [← hrowHeight, ← hheight, hheights b hb]
  refine ⟨fun db' hdb' height' row hrow => ?_, fun db' hdb' height' => ?_, ?_⟩
  · obtain rfl := hmet db' hdb'
    obtain rfl := hrows height' row hrow
    exact hwf row hrow
  · obtain rfl := hmet db' hdb'
    by_cases heq : height' = height
    · rwa [heq]
    · rw [List.eq_nil_iff_forall_not_mem.mpr fun row hrow => heq (hrows height' row hrow)]
      exact .nil
  · intro db' db'' hdb' hdb'' height' height'' hlt row hrow row' hrow'
    obtain rfl := hmet db' hdb'
    obtain rfl := hmet db'' hdb''
    have hheight := hrows height' row hrow
    have hheight' := hrows height'' row' hrow'
    omega

/-- The relevant transactions from a height on begin behind an index. -/
def BeginFrom (args : AssemblyArgs) (iterations : List Iteration) (height txEnd : Int) : Prop :=
  ∀ db, Met iterations db → ∀ height' ≥ height, ∀ row ∈ relevantRows db args height', ∀ range ∈ row.range,
    txEnd ≤ range.1

/-! ## Steps behind those before them -/

def endAfter (txEnd : Int) (steps : List MerkleStep) : Int :=
  (steps.filterMap MerkleStep.range).foldl (fun _ range => range.2) txEnd

/-- Steps from the blocks at `height` to `height' - 1` keep the ranges in order. -/
def Ascends (args : AssemblyArgs) (iterations : List Iteration) (height : Int) (steps : List MerkleStep)
    (height' : Int) : Prop :=
  ∀ txEnd, BeginFrom args iterations height txEnd →
    RangesIncrease txEnd steps ∧ BeginFrom args iterations height' (endAfter txEnd steps)

section Ascends
variable {args : AssemblyArgs} {iterations : List Iteration} {height height' height'' : Int}
  {steps steps' : List MerkleStep}

theorem Ascends.nil (hle : height ≤ height') : Ascends args iterations height [] height' :=
  fun _ hbegin => ⟨trivial, fun db hdb _ hge => hbegin db hdb _ (hle.trans hge)⟩

theorem Ascends.append (h : Ascends args iterations height steps height')
    (h' : Ascends args iterations height' steps' height'') :
    Ascends args iterations height (steps ++ steps') height'' := by
  intro txEnd hbegin
  obtain ⟨hranges, hbegin⟩ := h txEnd hbegin
  obtain ⟨hranges', hbegin⟩ := h' _ hbegin
  rw [endAfter, List.filterMap_append, List.foldl_append]
  refine ⟨?_, hbegin⟩
  rw [RangesIncrease, List.filterMap_append, along_append]
  exact ⟨hranges, hranges'⟩

/-- Ranges in order are walked through, to the end of one of them. -/
theorem along_follows {ranges : List (Int × Int)} (hordered : ranges.Pairwise (fun range range' => range.2 ≤ range'.1))
    (hwf : ∀ range ∈ ranges, range.1 ≤ range.2) {txEnd : Int} (hbegin : ∀ range ∈ ranges, txEnd ≤ range.1) :
    Along Follows (fun _ range => range.2) txEnd ranges ∧
      (ranges.foldl (fun _ range => range.2) txEnd = txEnd ∨
        ∃ range ∈ ranges, ranges.foldl (fun _ range => range.2) txEnd = range.2) := by
  induction ranges generalizing txEnd with
  | nil => exact ⟨trivial, Or.inl rfl⟩
  | cons range ranges ih =>
    obtain ⟨hnext, hordered⟩ := List.pairwise_cons.mp hordered
    obtain ⟨hwalk, hend⟩ := ih hordered (fun range' hmem => hwf range' (List.mem_cons_of_mem range hmem)) hnext
    refine ⟨⟨⟨hbegin range List.mem_cons_self, hwf range List.mem_cons_self⟩, hwalk⟩, Or.inr ?_⟩
    rcases hend with hend | ⟨range', hmem, hend⟩
    · exact ⟨range, List.mem_cons_self, hend⟩
    · exact ⟨range', List.mem_cons_of_mem range hmem, hend⟩

end Ascends

/-! ## Blocks and batches -/

section Bundle
variable {db : Database} {args : AssemblyArgs} {fromHeight toHeight : Int} {merkle : MerkleBehaviour}

theorem ranges_streamShieldedItems (w : WindowRows) (height : Int) (position : MerklePosition)
    {rows : List RelevantTxRow} (h : ∀ row ∈ rows, txRange db row.txId = row.range) :
    (itemSteps db ((streamShieldedItems w height merkle position rows).1.map (·.item))).filterMap MerkleStep.range =
      rows.filterMap RelevantTxRow.range := by
  induction rows generalizing position with
  | nil => rfl
  | cons row rows ih =>
    have hupdates : ∀ updates : List MerkleCollapsedUpdate, (updateSteps updates).filterMap MerkleStep.range = [] :=
      fun updates => by
        rw [updateSteps, List.filterMap_map]
        exact List.filterMap_eq_nil_iff.mpr fun _ _ => rfl
    rw [streamShieldedItems_cons, List.map_append, itemSteps_append, List.filterMap_append,
      ih _ fun row' hmem => h row' (List.mem_cons_of_mem row hmem),
      itemSteps_rowItems w height merkle position (h row List.mem_cons_self), List.filterMap_append, hupdates,
      List.nil_append]
    cases hrange : row.range with
    | none =>
      rw [List.filterMap_cons_none hrange]
      rfl
    | some range =>
      rw [List.filterMap_cons_some hrange]
      rfl

variable {iterations : List Iteration} (hrows : RangesOrdered args iterations) (hdb : Met iterations db)
include hrows hdb

/-- The bundle of a block delivers the ranges of its relevant transactions. -/
theorem ascends_streamBundle {blockMeta : BlockMeta} (hlo : fromHeight ≤ blockMeta.height)
    (hhi : blockMeta.height ≤ toHeight) (position : MerklePosition) :
    Ascends args iterations blockMeta.height
      (bundleSteps db (streamBundle (fetchWindow db args fromHeight toHeight) merkle position blockMeta).1)
      (blockMeta.height + 1) := by
  have hrelevant : (fetchWindow db args fromHeight toHeight).relevantAt blockMeta.height =
      relevantRows db args blockMeta.height := (fetchWindow_agreeAt db args hlo hhi).relevantTxs
  have hwf := hrows.wellFormed db hdb blockMeta.height
  have hordered := rowsOrdered_relevantAt db args fromHeight toHeight (by rwa [hrelevant])
  have hranges : (bundleSteps db
      (streamBundle (fetchWindow db args fromHeight toHeight) merkle position blockMeta).1).filterMap MerkleStep.range =
        (relevantRows db args blockMeta.height).filterMap RelevantTxRow.range := by
    rw [bundleSteps_streamBundle db args fromHeight toHeight merkle position blockMeta hordered,
      ranges_streamShieldedItems _ _ _ fun row hrow => txRange_of_mem_relevantAt db args fromHeight toHeight hrow,
      hrelevant]
  intro txEnd hbegin
  have hpairs : ((relevantRows db args blockMeta.height).filterMap RelevantTxRow.range).Pairwise
      (fun range range' => range.2 ≤ range'.1) :=
    List.pairwise_filterMap.mpr (hrows.block db hdb blockMeta.height)
  have hmem : ∀ range ∈ (relevantRows db args blockMeta.height).filterMap RelevantTxRow.range,
      ∃ row ∈ relevantRows db args blockMeta.height, row.range = some range := fun range h => List.mem_filterMap.mp h
  obtain ⟨hwalk, hend⟩ := along_follows hpairs
    (fun range h => by
      obtain ⟨row, hrow, hrange⟩ := hmem range h
      exact (hwf row hrow range hrange).2)
    (fun range h => by
      obtain ⟨row, hrow, hrange⟩ := hmem range h
      exact hbegin db hdb _ le_rfl row hrow range hrange)
  rw [RangesIncrease, endAfter, hranges]
  refine ⟨hwalk, fun db' hdb' height' hge row' hrow' range' hrange' => ?_⟩
  rcases hend with hend | ⟨range, h, hend⟩
  · rw [hend]
    exact hbegin db' hdb' height' (by omega) row' hrow' range' hrange'
  · obtain ⟨row, hrow, hrange⟩ := hmem range h
    rw [hend]
    have hlt : blockMeta.height < height' := by omega
    exact hrows.blocks db db' hdb hdb' blockMeta.height height' hlt row hrow row' hrow' range hrange range' hrange'

theorem ascends_streamBundles {blocksMeta : List BlockMeta} {height : Int} {prevHash : Option String}
    (hlinked : Linked height prevHash blocksMeta)
    (hbounds : ∀ blockMeta ∈ blocksMeta, fromHeight ≤ blockMeta.height ∧ blockMeta.height ≤ toHeight)
    (position : MerklePosition) {sent : List BlockBundle}
    (h : sent <+: (streamBundles (fetchWindow db args fromHeight toHeight) merkle position blocksMeta).1) :
    Ascends args iterations height (bundlesSteps db sent) (height + sent.length) := by
  induction blocksMeta generalizing height prevHash position sent with
  | nil =>
    obtain rfl := List.prefix_nil.mp h
    exact .nil (by simp)
  | cons blockMeta blocksMeta ih =>
    cases sent with
    | nil => exact .nil (by simp)
    | cons bundle sent =>
      obtain ⟨rfl, hprefix⟩ := List.cons_prefix_cons.mp h
      obtain ⟨rfl, -, hlinked⟩ := hlinked
      obtain ⟨hlo, hhi⟩ := hbounds blockMeta List.mem_cons_self
      have hrest := ih hlinked (fun blockMeta' hmem => hbounds blockMeta' (List.mem_cons_of_mem _ hmem)) _ hprefix
      have hlength : blockMeta.height + 1 + (sent.length : Int) =
          blockMeta.height + ((streamBundle (fetchWindow db args fromHeight toHeight) merkle position blockMeta).1 ::
            sent).length := by
        rw [List.length_cons]
        omega
      exact hlength ▸ (ascends_streamBundle hrows hdb hlo hhi position).append hrest

end Bundle

/-! ## Runs -/

section Run
variable {args : AssemblyArgs} {iterations : List Iteration} {fromHeight : Int} {processed : List BlockMeta}
  {s : StreamState} {e : Iteration}

theorem ascends_builtBundles (hrows : RangesOrdered args iterations) (he : e ∈ iterations) {db : Database}
    {readyHeight : Int} {batch : List BlockMeta} (hfetched : Fetched args s e db readyHeight batch)
    (hlinked : Linked s.currentHeight (boundaryHash db s) batch) {sent : List BlockBundle}
    (h : sent <+: builtBundles args s e db batch) :
    Ascends args iterations s.currentHeight (bundlesSteps db sent) (s.currentHeight + sent.length) := by
  obtain ⟨lo, hi, hhead, hlast, heq⟩ := buildBlockBundles_eq db args e.merkle hfetched.nonempty s.lastMerkleEndIndex
  rw [builtBundles, heq] at h
  have hsorted : (batch.map (·.height)).Pairwise (· ≤ ·) := by
    rw [← hfetched.batch_eq]
    exact pairwise_getBlocksInRange _ _ _
  exact ascends_streamBundles hrows ⟨e, he, hfetched.snapshot⟩ hlinked
    (fun blockMeta hmem => bounds_of_pairwise hsorted hhead hlast (List.mem_map_of_mem hmem)) _ h

theorem ascends_iteration (height : Int) (merkle : MerkleBehaviour) :
    Ascends args iterations height [.iteration merkle] height := fun _ hbegin => ⟨trivial, hbegin⟩

/-- **Step.** What an iteration delivers lies behind what has been delivered before. -/
theorem StreamInv.ascends (hinv : StreamInv fromHeight none processed s) (hrows : RangesOrdered args iterations)
    (he : e ∈ iterations) : ∃ height',
      Ascends args iterations s.currentHeight (visitSteps (visit (streamStep args) s e)) height' ∧
        ∀ s', (streamStep args s e).2 = .next s' → s'.currentHeight = height' := by
  suffices houtput : ∃ height',
      Ascends args iterations s.currentHeight (outputSteps e.snapshot (streamStep args s e).1) height' ∧
        ∀ s', (streamStep args s e).2 = .next s' → s'.currentHeight = height' by
    obtain ⟨height', hascends, hnext⟩ := houtput
    exact ⟨height', (ascends_iteration s.currentHeight e.merkle).append hascends, hnext⟩
  rcases streamStep_cases args s e with ⟨db, readyHeight, batch, hfetched⟩ | ⟨hquiet, hkeep⟩
  · rw [hfetched.streamStep_eq, hfetched.snapshot, outputSteps]
    by_cases hlinked : Linked s.currentHeight (boundaryHash db s) batch
    · rcases processBatch_linked args e db hinv.fromHeight_le hinv.cursor hfetched.nonempty hlinked with
        heq | ⟨sent, hprefix, -, heq⟩
      · have hascends := ascends_builtBundles hrows he hfetched hlinked
          (List.prefix_refl (builtBundles args s e db batch))
        have hlength : (builtBundles args s e db batch).length = batch.length := by
          rw [← List.length_map, builtBundles, buildBlockBundles_metas]
        rw [heq, sentItems_map_blockAction_none, itemSteps_flatMap_items]
        refine ⟨_, hascends, fun s' hnext => ?_⟩
        rw [← Flow.next.inj hnext, hlength, stateAfter]
      · rw [heq, sentItems_map_blockAction_none, itemSteps_flatMap_items]
        exact ⟨_, ascends_builtBundles hrows he hfetched hlinked hprefix, fun s' hnext => by cases hnext⟩
    · obtain ⟨event, -, heq⟩ := processBatch_reset args e db hlinked
      rw [heq, sentItems_take_control]
      exact ⟨s.currentHeight, .nil le_rfl, fun s' hnext => by cases hnext⟩
  · refine ⟨s.currentHeight, ?_, fun s' hnext => by rw [hkeep s' hnext]⟩
    unfold outputSteps
    rw [sentItems_of_quiet hquiet]
    cases e.snapshot with
    | ok db => exact .nil le_rfl
    | error failure => exact .nil le_rfl

/-- **The ranges a run delivers increase.** -/
theorem rangesIncrease_streamRun (fromHeight : Int) (hrows : RangesOrdered args iterations) :
    RangesIncrease 0 (merkleSteps (streamRun args fromHeight none iterations)) := by
  have hbegin : BeginFrom args iterations fromHeight 0 := fun db hdb height _ row hrow range hrange =>
    (hrows.wellFormed db hdb height row hrow range hrange).1
  suffices hrun : ∃ height', Ascends args iterations fromHeight
      (merkleSteps (streamRun args fromHeight none iterations)) height' by
    obtain ⟨height', hascends⟩ := hrun
    exact (hascends 0 hbegin).1
  refine visits_rule (fun hist s => StreamInv fromHeight none (processedBy hist) s ∧
      Ascends args iterations fromHeight (merkleSteps hist) s.currentHeight)
    (fun hist => ∃ height', Ascends args iterations fromHeight (merkleSteps hist) height') ?_ ?_ ?_
    ⟨streamInv_initial fromHeight none, .nil le_rfl⟩
  · rintro hist s e he s' ⟨hinv, hhist⟩ hnext
    obtain ⟨height', hascends, hheight⟩ := hinv.ascends hrows he
    refine ⟨streamInv_next args fromHeight none hist s e s' hinv hnext, ?_⟩
    rw [merkleSteps_snoc, hheight s' hnext]
    exact hhist.append hascends
  · rintro hist s ⟨-, hhist⟩
    exact ⟨_, hhist⟩
  · rintro hist s e he - ⟨hinv, hhist⟩ -
    obtain ⟨height', hascends, -⟩ := hinv.ascends hrows he
    rw [merkleSteps_snoc]
    exact ⟨height', hhist.append hascends⟩

end Run

/-- **The stream and the commitment tree.** Over any run without a cursor, with any merkle cache and any behaviour of
the upstream, on snapshots whose relevant transactions have ranges that do not overlap and increase: every update starts
at the current position, and so does every transaction but one behind a gap that neither the cache nor the upstream has
an answer for. -/
theorem stream_selfContained (args : AssemblyArgs) (fromHeight : Int) (iterations : List Iteration)
    (h : RangesOrdered args iterations) : FilledAlong .zero (merkleSteps (streamRun args fromHeight none iterations)) :=
  filledAlong_streamRun args fromHeight iterations (rangesIncrease_streamRun fromHeight h)

/-- The gap before the transaction is filled by the one update of the upstream. -/
theorem stream_selfContained_answered :
    (sentItems (outputs (streamRun Sample.args 0 none [Sample.answeredIteration]))).map (·.sequence) =
        ["0:1:0:-1", "0:1:0:1"] ∧
      FilledAlong .zero (merkleSteps (streamRun Sample.args 0 none [Sample.answeredIteration])) :=
  ⟨by decide +kernel, stream_selfContained Sample.args 0 [Sample.answeredIteration]
    (.of_snapshot rfl 0 (by decide) (by decide) (by decide))⟩

/-- An upstream that closes without an update leaves the gap open. -/
theorem not_selfContained_unanswered :
    RangesOrdered Sample.args [Sample.iteration Sample.treeGap] ∧
      ¬ SelfContained (merkleSteps (streamRun Sample.args 0 none [Sample.iteration Sample.treeGap])) :=
  ⟨.of_snapshot rfl 0 (by decide) (by decide) (by decide), by decide +kernel⟩

end NocyWalletFeed
