import NocyWalletFeed.Merkle
import NocyWalletFeed.Pages

/-!
# The stream over one snapshot

* `MerkleAnswer`, `Attentive` : merkle sources that answer every request with one update, and a client that stays;
* `pushedItems`, `blockStream` : the items of a block as a function of the index reached before it;
* `streamItems` : the items of a range of heights, with the cursor filter;
* `sentItems_streamRun` : a run over a chain delivers these items, once it is long enough.
-/

namespace NocyWalletFeed
open Codec OrderBy Machine

/-! ## Answered requests -/

/-- One update for every range `[fromIndex, toIndex)`; its protocol version fits the `u32` it has in the program. -/
structure MerkleAnswer where
  update : Int → Int → MerkleCollapsedUpdate
  startIndex_eq : ∀ fromIndex toIndex, (update fromIndex toIndex).startIndex = fromIndex
  endIndex_eq : ∀ fromIndex toIndex, (update fromIndex toIndex).endIndex = toIndex - 1
  protocolVersion_lt : ∀ fromIndex toIndex, (update fromIndex toIndex).protocolVersion < 2 ^ 32

/-- Every request for a range gets its one update. -/
def Answers (answer : MerkleAnswer) (merkle : MerkleBehaviour) : Prop :=
  ∀ request fromIndex toIndex, fromIndex < toIndex →
    inlineUpdates (merkle request fromIndex toIndex) fromIndex toIndex = [answer.update fromIndex toIndex]

/-- An upstream that gives the answer, without a cache. -/
def MerkleAnswer.merkle (answer : MerkleAnswer) : MerkleBehaviour := fun _ fromIndex toIndex =>
  { cache := none
    upstream :=
      { opening := .ok ()
        frames := [.next none (some (.relevantTransaction toIndex (some
          ⟨fromIndex, toIndex - 1, (answer.update fromIndex toIndex).update,
            (answer.update fromIndex toIndex).protocolVersion⟩)))] } }

theorem MerkleAnswer.update_eq (answer : MerkleAnswer) (fromIndex toIndex : Int) : answer.update fromIndex toIndex =
    ⟨fromIndex, toIndex - 1, (answer.update fromIndex toIndex).update,
      (answer.update fromIndex toIndex).protocolVersion⟩ := by
  have hstart := answer.startIndex_eq fromIndex toIndex
  have hend := answer.endIndex_eq fromIndex toIndex
  generalize answer.update fromIndex toIndex = update at hstart hend
  cases update
  rw [MerkleCollapsedUpdate.mk.injEq]
  exact ⟨hstart, hend, rfl, rfl⟩

theorem MerkleAnswer.answers_merkle (answer : MerkleAnswer) : Answers answer answer.merkle := by
  intro request fromIndex toIndex hlt
  have hversion : asU32 (answer.update fromIndex toIndex).protocolVersion =
      (answer.update fromIndex toIndex).protocolVersion := by
    have := answer.protocolVersion_lt fromIndex toIndex
    rw [asU32]
    omega
  rw [answer.update_eq, inlineUpdates, fetchMerkleUpdates, if_neg (not_le.mpr hlt), merkle]
  simp [cachedInlineUpdates, collectUpdates, relevantTransactionUpdates, hversion]

/-- An iteration against a snapshot, of a client that takes every event. -/
structure Attentive (answer : MerkleAnswer) (db : Database) (e : Iteration) : Prop where
  connected : e.isClosed = false
  snapshot : e.snapshot = .ok db
  answers : Answers answer e.merkle
  takes : BACKLOG_BATCH_SIZE ≤ e.sends

/-! ## The items of a block -/

section Block
variable (db : Database) (args : AssemblyArgs) (answer : MerkleAnswer)

/-- The update before a transaction that starts behind the index reached. -/
def gapItems (height index : Int) (row : RelevantTxRow) : List SortableFeedItem :=
  match row.range with
  | none => []
  | some range =>
    if index < range.1 then
      [⟨⟨height, row.txId, PHASE_TX, -1⟩, .merkleCollapsedUpdate (answer.update index range.1)⟩]
    else []

def indexAfter (index : Int) (row : RelevantTxRow) : Int :=
  match row.range with
  | none => index
  | some range => gapStart range.2

def pushedItems (w : WindowRows) (height : Int) : Int → List RelevantTxRow → List SortableFeedItem
  | _, [] => []
  | index, row :: rows =>
    gapItems answer height index row ++ w.shieldedItem height row :: pushedItems w height (indexAfter index row) rows

/-- The relevant transactions of the block at a height. -/
def relevantRows (height : Int) : List RelevantTxRow := (fetchWindow db args height height).relevantAt height

/-- The items of the block at a height with their keys, from the index reached before it. -/
def blockStream (index height : Int) : List SortableFeedItem :=
  (fetchWindow db args height height).assembleItems height
    (pushedItems answer (fetchWindow db args height height) height index (relevantRows db args height))

def indexAfterBlock (index height : Int) : Int := (relevantRows db args height).foldl indexAfter index

/-- The items of the blocks at some heights with their keys. -/
def streamSortables : Int → List Int → List SortableFeedItem
  | _, [] => []
  | index, height :: heights =>
    blockStream db args answer index height ++ streamSortables (indexAfterBlock db args index height) heights

/-- The items of the blocks at some heights, after the filter of a cursor. -/
def streamItems (fromCursor : Option SequenceKey) : Int → List Int → List OrderedFeedItem
  | _, [] => []
  | index, height :: heights =>
    filterCursorBlock fromCursor height ((blockStream db args answer index height).map SortableFeedItem.toOrdered) ++
      streamItems fromCursor (indexAfterBlock db args index height) heights

variable {db args answer}

theorem streamItems_append (fromCursor : Option SequenceKey) (index : Int) (heights heights' : List Int) :
    streamItems db args answer fromCursor index (heights ++ heights') =
      streamItems db args answer fromCursor index heights ++
        streamItems db args answer fromCursor (heights.foldl (indexAfterBlock db args) index) heights' := by
  induction heights generalizing index with
  | nil => rfl
  | cons height heights ih => rw [List.cons_append, streamItems, streamItems, ih, List.append_assoc, List.foldl_cons]

theorem streamSortables_append (index : Int) (heights heights' : List Int) :
    streamSortables db args answer index (heights ++ heights') =
      streamSortables db args answer index heights ++
        streamSortables db args answer (heights.foldl (indexAfterBlock db args) index) heights' := by
  induction heights generalizing index with
  | nil => rfl
  | cons height heights ih =>
    rw [List.cons_append, streamSortables, streamSortables, ih, List.append_assoc, List.foldl_cons]

theorem streamItems_none (index : Int) (heights : List Int) : streamItems db args answer none index heights =
    (streamSortables db args answer index heights).map SortableFeedItem.toOrdered := by
  induction heights generalizing index with
  | nil => rfl
  | cons height heights ih =>
    rw [streamItems, streamSortables, ih, List.map_append]
    rfl

/-! ## Bundles -/

variable {merkle : MerkleBehaviour}

/-- The index after a transaction is that of its range, whatever is injected for it. -/
theorem gapStart_injectUpdates (merkle : MerkleBehaviour) (position : MerklePosition) (row : RelevantTxRow) :
    gapStart (injectUpdates merkle position row).2.lastMerkleEndIndex =
      indexAfter (gapStart position.lastMerkleEndIndex) row := by
  unfold indexAfter
  cases hrange : row.range with
  | none => rw [injectUpdates_of_range_eq_none hrange]
  | some range => rw [injectUpdates_lastMerkleEndIndex (hrange : row.range = some (range.1, range.2))]

theorem gapStart_streamShieldedItems (w : WindowRows) (height : Int) (merkle : MerkleBehaviour)
    (position : MerklePosition) (rows : List RelevantTxRow) :
    gapStart (streamShieldedItems w height merkle position rows).2.lastMerkleEndIndex =
      rows.foldl indexAfter (gapStart position.lastMerkleEndIndex) := by
  induction rows generalizing position with
  | nil => rfl
  | cons row rows ih => rw [streamShieldedItems_cons, List.foldl_cons, ← gapStart_injectUpdates merkle, ← ih]

variable (db args merkle) in
theorem gapStart_streamBundle {fromHeight toHeight : Int} {blockMeta : BlockMeta}
    (hlo : fromHeight ≤ blockMeta.height) (hhi : blockMeta.height ≤ toHeight) (position : MerklePosition) :
    gapStart (streamBundle (fetchWindow db args fromHeight toHeight) merkle position blockMeta).2.lastMerkleEndIndex =
      indexAfterBlock db args (gapStart position.lastMerkleEndIndex) blockMeta.height := by
  rw [streamBundle, indexAfterBlock, relevantRows, ← (fetchWindow_agreeAt db args hlo hhi).relevantTxs]
  exact gapStart_streamShieldedItems _ _ _ _ _

theorem injectUpdates_answered (hanswers : Answers answer merkle) (height : Int) (position : MerklePosition)
    (row : RelevantTxRow) :
    updateItems height row.txId (injectUpdates merkle position row).1 =
      gapItems answer height (gapStart position.lastMerkleEndIndex) row := by
  unfold gapItems
  cases hrange : row.range with
  | none =>
    rw [injectUpdates_of_range_eq_none hrange]
    rfl
  | some range =>
    rw [injectUpdates_of_range_eq_some (hrange : row.range = some (range.1, range.2))]
    dsimp only
    split_ifs with hlt
    · rw [hanswers _ _ _ hlt]
      rfl
    · rfl

theorem streamShieldedItems_answered (hanswers : Answers answer merkle) (w : WindowRows) (height : Int)
    (position : MerklePosition) (rows : List RelevantTxRow) :
    (streamShieldedItems w height merkle position rows).1 =
      pushedItems answer w height (gapStart position.lastMerkleEndIndex) rows := by
  induction rows generalizing position with
  | nil => rfl
  | cons row rows ih =>
    rw [streamShieldedItems_cons, pushedItems, ← gapStart_injectUpdates merkle,
      ← injectUpdates_answered hanswers height position row, ← ih, rowItems, List.append_assoc]
    rfl

theorem pushedItems_congr {w w' : WindowRows} {height : Int} {rows : List RelevantTxRow}
    (h : ∀ row ∈ rows, w.shieldedItem height row = w'.shieldedItem height row) (index : Int) :
    pushedItems answer w height index rows = pushedItems answer w' height index rows := by
  induction rows generalizing index with
  | nil => rfl
  | cons row rows ih =>
    rw [pushedItems, pushedItems, h row List.mem_cons_self, ih fun row' hmem => h row' (List.mem_cons_of_mem row hmem)]

variable (args) in
theorem streamBundle_answered (hanswers : Answers answer merkle) {fromHeight toHeight : Int} {blockMeta : BlockMeta}
    (hlo : fromHeight ≤ blockMeta.height) (hhi : blockMeta.height ≤ toHeight) (position : MerklePosition) :
    (streamBundle (fetchWindow db args fromHeight toHeight) merkle position blockMeta).1 =
      ⟨blockMeta, (blockStream db args answer (gapStart position.lastMerkleEndIndex) blockMeta.height).map
        SortableFeedItem.toOrdered⟩ := by
  have hagree := fetchWindow_agreeAt db args hlo hhi
  rw [streamBundle]
  dsimp only
  rw [streamShieldedItems_answered hanswers, hagree.assembleItems_eq,
    pushedItems_congr fun row hrow => hagree.shieldedItem_eq hrow, hagree.relevantTxs]
  rfl

variable (args) in
theorem streamBundles_answered (hanswers : Answers answer merkle) (fromCursor : Option SequenceKey)
    {fromHeight toHeight : Int} {blocksMeta : List BlockMeta}
    (h : ∀ blockMeta ∈ blocksMeta, fromHeight ≤ blockMeta.height ∧ blockMeta.height ≤ toHeight)
    (position : MerklePosition) :
    (streamBundles (fetchWindow db args fromHeight toHeight) merkle position blocksMeta).1.flatMap
        (fun bundle => filterCursorBlock fromCursor bundle.blockMeta.height bundle.items) =
        streamItems db args answer fromCursor (gapStart position.lastMerkleEndIndex) (blocksMeta.map (·.height)) ∧
      gapStart
          (streamBundles (fetchWindow db args fromHeight toHeight) merkle position blocksMeta).2.lastMerkleEndIndex =
        (blocksMeta.map (·.height)).foldl (indexAfterBlock db args) (gapStart position.lastMerkleEndIndex) := by
  induction blocksMeta generalizing position with
  | nil => exact ⟨rfl, rfl⟩
  | cons blockMeta blocksMeta ih =>
    obtain ⟨hlo, hhi⟩ := h blockMeta List.mem_cons_self
    obtain ⟨hrest, hlast⟩ := ih (fun m hmem => h m (List.mem_cons_of_mem blockMeta hmem))
      (streamBundle (fetchWindow db args fromHeight toHeight) merkle position blockMeta).2
    rw [streamBundles, List.map_cons, streamItems, List.foldl_cons,
      ← gapStart_streamBundle db args merkle hlo hhi position, ← hrest, ← hlast]
    dsimp only
    rw [List.flatMap_cons, streamBundle_answered args hanswers hlo hhi position]
    exact ⟨rfl, rfl⟩

end Block

/-! ## Runs over a chain -/

theorem Database.ChainUpTo.map_height {db : Database} {top : Int} (h : db.ChainUpTo top) {fromHeight toHeight : Int}
    (hlo : 0 ≤ fromHeight) (hhi : toHeight ≤ top) :
    (getBlocksInRange db fromHeight toHeight).map (·.height) = Int.range fromHeight (toHeight + 1) := by
  have hmeta : ∀ height ∈ Int.range fromHeight (toHeight + 1),
      (db.metaAt height).map (·.height) = some height := by
    intro height hmem
    obtain ⟨hlo', hhi'⟩ := Int.mem_range_iff.mp hmem
    obtain ⟨b, hb⟩ := h.present height (by omega) (by omega)
    rw [Database.metaAt, hb]
    exact congrArg some (Database.height_of_blockAt hb)
  rw [getBlocksInRange_eq, List.map_filterMap, List.filterMap_congr hmeta, List.filterMap_some]

/-- The hash a stream remembers is that of the block below its current height. -/
def Remembers (db : Database) (s : StreamState) : Prop :=
  ∀ hash ∈ s.lastBlockHash, 0 < s.currentHeight ∧ getBlockHashAtHeight db (s.currentHeight - 1) = some hash

section Chain
variable {db : Database} {args : AssemblyArgs} {answer : MerkleAnswer} {readyHeight fromHeight : Int}
  {fromCursor : Option SequenceKey} {processed : List BlockMeta} {s : StreamState} {e : Iteration}

def batchEnd (s : StreamState) (readyHeight : Int) : Int := min (s.currentHeight + BACKLOG_BATCH_SIZE - 1) readyHeight

theorem le_batchEnd (hle : s.currentHeight ≤ readyHeight) : s.currentHeight ≤ batchEnd s readyHeight := by
  refine le_min ?_ hle
  rw [BACKLOG_BATCH_SIZE]
  omega

theorem linked_fetchBatch (hchain : db.ChainUpTo readyHeight) (h0 : 0 ≤ s.currentHeight)
    (hle : s.currentHeight ≤ readyHeight) (hremembers : Remembers db s) :
    Linked s.currentHeight (boundaryHash db s) (fetchBatch db s readyHeight) := by
  refine hchain.linked_getBlocksInRange h0 (min_le_right _ _) fun b hash hb hhash => ?_
  have hbelow : 0 < s.currentHeight ∧ getBlockHashAtHeight db (s.currentHeight - 1) = some hash := by
    unfold boundaryHash at hhash
    split_ifs at hhash with hfirst
    · exact ⟨hfirst.2, hhash⟩
    · exact hremembers hash hhash
  obtain ⟨hpos, hbelow⟩ := hbelow
  rw [getBlockHashAtHeight_eq] at hbelow
  obtain ⟨b', hb', rfl⟩ := Option.map_eq_some_iff.mp hbelow
  rw [hchain.linked (s.currentHeight - 1) b' b (by omega) (by omega) hb' (by rwa [sub_add_cancel])]

theorem map_height_fetchBatch (hchain : db.ChainUpTo readyHeight) (h0 : 0 ≤ s.currentHeight) :
    (fetchBatch db s readyHeight).map (·.height) = Int.range s.currentHeight (batchEnd s readyHeight + 1) :=
  hchain.map_height h0 (min_le_right _ _)

theorem fetched_of_attentive (hready : WalletReady db args.upstreamSessionId readyHeight)
    (hchain : db.ChainUpTo readyHeight) (he : Attentive answer db e) (h0 : 0 ≤ s.currentHeight)
    (hle : s.currentHeight ≤ readyHeight) :
    Fetched args s e db readyHeight (fetchBatch db s readyHeight) := by
  refine ⟨he.connected, he.snapshot, hready, hle, rfl, fun hnil => ?_⟩
  have hheights := map_height_fetchBatch (s := s) hchain h0
  have hend : s.currentHeight < batchEnd s readyHeight + 1 := by
    have := le_batchEnd hle
    omega
  rw [hnil, IntRange.range_cons hend] at hheights
  cases hheights

theorem length_fetchBatch (hchain : db.ChainUpTo readyHeight) (h0 : 0 ≤ s.currentHeight)
    (hle : s.currentHeight ≤ readyHeight) :
    s.currentHeight + (fetchBatch db s readyHeight).length = batchEnd s readyHeight + 1 ∧
      (fetchBatch db s readyHeight).length ≤ BACKLOG_BATCH_SIZE := by
  have hlength := congrArg List.length (map_height_fetchBatch (s := s) hchain h0)
  rw [List.length_map, IntRange.length_range] at hlength
  have hend := le_batchEnd hle
  have hmax : batchEnd s readyHeight ≤ s.currentHeight + BACKLOG_BATCH_SIZE - 1 := min_le_left _ _
  rw [hlength]
  omega

theorem remembers_stateAfter (hchain : db.ChainUpTo readyHeight) (h0 : 0 ≤ s.currentHeight)
    (hle : s.currentHeight ≤ readyHeight) (args : AssemblyArgs) (e : Iteration) (fromCursor : Option SequenceKey) :
    Remembers db (stateAfter args s e db (fetchBatch db s readyHeight) fromCursor) := by
  obtain ⟨hlength, -⟩ := length_fetchBatch hchain h0 hle
  have hend := le_batchEnd hle
  obtain ⟨b, hb⟩ := hchain.present (batchEnd s readyHeight) (by omega) (min_le_right _ _)
  have hlast : (fetchBatch db s readyHeight).getLast? = some b.toMeta := by
    have hrange : fetchBatch db s readyHeight =
        (Int.range s.currentHeight (batchEnd s readyHeight + 1)).filterMap db.metaAt := getBlocksInRange_eq db _ _
    rw [hrange, IntRange.range_snoc hend, List.filterMap_append, List.filterMap_cons_some (b := b.toMeta) ?_,
      List.filterMap_nil, List.getLast?_concat]
    rw [Database.metaAt, hb]
    rfl
  intro hash hhash
  have hheight : (stateAfter args s e db (fetchBatch db s readyHeight) fromCursor).currentHeight =
      batchEnd s readyHeight + 1 := hlength
  have hhash' : lastHash s.lastBlockHash (fetchBatch db s readyHeight) = some hash := hhash
  rw [lastHash, hlast] at hhash'
  rw [hheight, add_sub_cancel_right, getBlockHashAtHeight_eq, hb]
  exact ⟨by omega, hhash'⟩

/-- **Step.** An iteration of an attentive client below the ready height delivers the items of its batch. -/
theorem streamStep_attentive (hready : WalletReady db args.upstreamSessionId readyHeight)
    (hchain : db.ChainUpTo readyHeight) (he : Attentive answer db e) (h0 : 0 ≤ fromHeight)
    (hinv : StreamInv fromHeight fromCursor processed s) (hremembers : Remembers db s)
    (hle : s.currentHeight ≤ readyHeight) : ∃ s', (streamStep args s e).2 = .next s' ∧
      s'.currentHeight = batchEnd s readyHeight + 1 ∧ Remembers db s' ∧
      sentItems (streamStep args s e).1 = streamItems db args answer fromCursor (gapStart s.lastMerkleEndIndex)
        (Int.range s.currentHeight (batchEnd s readyHeight + 1)) ∧
      gapStart s'.lastMerkleEndIndex = (Int.range s.currentHeight (batchEnd s readyHeight + 1)).foldl
        (indexAfterBlock db args) (gapStart s.lastMerkleEndIndex) := by
  have h0' : 0 ≤ s.currentHeight := h0.trans hinv.fromHeight_le
  have hfetched := fetched_of_attentive hready hchain he h0' hle
  have hheights := map_height_fetchBatch (s := s) hchain h0'
  obtain ⟨hlength, hsize⟩ := length_fetchBatch hchain h0' hle
  have hlinked := linked_fetchBatch hchain h0' hle hremembers
  rcases processBatch_linked args e db hinv.fromHeight_le hinv.cursor hfetched.nonempty hlinked with
    heq | ⟨_, _, hfew, _⟩
  · rw [hfetched.streamStep_eq, heq, sentItems_map_blockAction]
    refine ⟨_, rfl, hlength, remembers_stateAfter hchain h0' hle args e _, ?_⟩
    obtain ⟨lo, hi, hfirst, hlast, hbuilt⟩ :=
      buildBlockBundles_eq db args e.merkle hfetched.nonempty s.lastMerkleEndIndex
    rw [hheights] at hfirst hlast
    have hbounds : ∀ blockMeta ∈ fetchBatch db s readyHeight, lo ≤ blockMeta.height ∧ blockMeta.height ≤ hi := by
      intro blockMeta hmem
      have hheight : blockMeta.height ∈ Int.range s.currentHeight (batchEnd s readyHeight + 1) := by
        rw [← hheights]
        exact List.mem_map_of_mem hmem
      exact bounds_of_pairwise ((IntRange.pairwise_range _ _).imp le_of_lt) hfirst hlast hheight
    obtain ⟨hitems, hindex⟩ := streamBundles_answered args he.answers fromCursor hbounds
      ⟨s.lastMerkleEndIndex, 0⟩
    rw [builtBundles, stateAfter, hbuilt]
    dsimp only
    rw [hitems, hindex, hheights]
    exact ⟨rfl, rfl⟩
  · have := he.takes
    omega

variable (args) in
/-- Above the ready height nothing is delivered. -/
theorem streamStep_caughtUp (hready : WalletReady db args.upstreamSessionId readyHeight) (he : Attentive answer db e)
    (hgt : readyHeight < s.currentHeight) :
    Quiet (streamStep args s e).1 ∧ ∀ s', (streamStep args s e).2 = .next s' → s' = s := by
  rcases streamStep_cases args s e with ⟨db', readyHeight', batch, hfetched⟩ | hquiet
  · obtain rfl := Except.ok.inj (he.snapshot.symm.trans hfetched.snapshot)
    have heq : readyHeight = readyHeight' := Option.some.inj (Except.ok.inj (hready.symm.trans hfetched.ready))
    have := hfetched.le_ready
    omega
  · exact hquiet

/-- **Run.** The items of enough iterations of an attentive client. -/
theorem sentItems_visits (hready : WalletReady db args.upstreamSessionId readyHeight)
    (hchain : db.ChainUpTo readyHeight) (h0 : 0 ≤ fromHeight) {iterations : List Iteration}
    (hits : ∀ e ∈ iterations, Attentive answer db e) (hinv : StreamInv fromHeight fromCursor processed s)
    (hremembers : Remembers db s)
    (hmany : readyHeight + 1 - s.currentHeight ≤ iterations.length) :
    sentItems (outputs (visits (streamStep args) s iterations)) =
      streamItems db args answer fromCursor (gapStart s.lastMerkleEndIndex)
        (Int.range s.currentHeight (readyHeight + 1)) := by
  induction iterations generalizing s processed with
  | nil =>
    rw [List.length_nil] at hmany
    rw [IntRange.range_eq_nil (by omega)]
    rfl
  | cons e iterations ih =>
    have he := hits e List.mem_cons_self
    have hits' := fun e' hmem => hits e' (List.mem_cons_of_mem e hmem)
    rw [List.length_cons] at hmany
    rcases (by omega : readyHeight < s.currentHeight ∨ s.currentHeight ≤ readyHeight) with hgt | hle'
    · obtain ⟨hquiet, hkeep⟩ := streamStep_caughtUp args hready he hgt
      have hnil := sentItems_of_quiet hquiet
      cases hnext : (streamStep args s e).2 with
      | halt reason =>
        rw [visits_cons_halt iterations hnext, outputs_cons, outputs_nil, List.append_nil, visit_output, hnil,
          IntRange.range_eq_nil (by omega)]
        rfl
      | next s' =>
        obtain rfl := hkeep s' hnext
        rw [visits_cons_next iterations hnext, outputs_cons, sentItems_append, visit_output, hnil, List.nil_append]
        exact ih hits' hinv hremembers (by omega)
    · obtain ⟨s', hnext, hheight, hremembers', hitems, hindex⟩ :=
        streamStep_attentive hready hchain he h0 hinv hremembers hle'
      have hend := le_batchEnd hle'
      have hend' : batchEnd s readyHeight ≤ readyHeight := min_le_right _ _
      rw [visits_cons_next iterations hnext, outputs_cons, sentItems_append, visit_output, hitems,
        ih hits' (hinv.next hnext) hremembers' (by omega), hheight, hindex, ← streamItems_append,
        IntRange.range_append (by omega) (by omega)]

/-- **The items of a stream** over a chain, from any height and with any cursor. -/
theorem sentItems_streamRun (hready : WalletReady db args.upstreamSessionId readyHeight)
    (hchain : db.ChainUpTo readyHeight) (h0 : 0 ≤ fromHeight)
    (fromCursor : Option SequenceKey) {iterations : List Iteration} (hits : ∀ e ∈ iterations, Attentive answer db e)
    (hmany : readyHeight + 1 - fromHeight ≤ iterations.length) :
    sentItems (outputs (streamRun args fromHeight fromCursor iterations)) =
      streamItems db args answer fromCursor 0 (Int.range fromHeight (readyHeight + 1)) :=
  sentItems_visits hready hchain h0 hits (streamInv_initial fromHeight fromCursor) (fun _ hmem => nomatch hmem) hmany

end Chain

end NocyWalletFeed
