import NocyWalletFeed.CacheLookup
import NocyWalletFeed.Ranges
import NocyWalletFeed.StreamFeed

/-!
# Injected updates fit the gap

The updates injected before a relevant transaction come from the cache or from the upstream. Their keys are those of the
transaction with negative ordinals; where they stand in a block is decided by the sort.

* `injectUpdates_tileGap` : what is injected for a transaction tiles the gap before it;
* `injectedItems_streamShieldedItems` : a transaction with a well-formed range is injected for once, however often it is
  listed;
* `split_assembleItems` : the sort of a block keeps injected items together and in place;
* `injections_fit` : both, for every block of a batch.
-/

namespace NocyWalletFeed
open Codec OrderBy Relational Tiling

/-! ## The gap -/

/-- Updates whose inclusive ranges tile `[fromIndex, toIndex)`. -/
def TileGap (fromIndex toIndex : Int) (updates : List MerkleCollapsedUpdate) : Prop :=
  Tiles (fun update : MerkleCollapsedUpdate => update.startIndex) (fun update => update.endIndex) fromIndex updates ∧
    tilesEnd (fun update : MerkleCollapsedUpdate => update.endIndex) fromIndex updates = toIndex

instance (fromIndex toIndex : Int) (updates : List MerkleCollapsedUpdate) :
    Decidable (TileGap fromIndex toIndex updates) := by
  unfold TileGap Tiles
  infer_instance

/-- A chain of cached rows and a single upstream update tile the gap alike. -/
theorem inlineUpdates_tileGap (sources : MerkleSources) {fromIndex toIndex : Int} (hlt : fromIndex < toIndex)
    (hne : inlineUpdates sources fromIndex toIndex ≠ []) :
    TileGap fromIndex toIndex (inlineUpdates sources fromIndex toIndex) := by
  rcases inlineUpdates_cases sources fromIndex toIndex with hnil | ⟨rows, hcovers, heq⟩ | ⟨update, heq, hstart, hend⟩
  · exact absurd hnil hne
  · have htiles := (cachedChain_spec rows (toIndex - 1) fromIndex).1
    have hrowsEnd := (coversRange_iff hlt).mp hcovers
    rw [heq, getCachedUpdates, if_neg (not_le.mpr hlt)]
    exact ⟨(tiles_map _).mpr htiles, (tilesEnd_map _ _ _).trans hrowsEnd⟩
  · rw [heq]
    refine ⟨⟨⟨hstart, ?_⟩, trivial⟩, ?_⟩
    · show update.startIndex ≤ update.endIndex
      omega
    · show update.endIndex + 1 = toIndex
      omega

section Inject
variable {merkle : MerkleBehaviour} {position : MerklePosition} {row row' : RelevantTxRow} {range : Int × Int}

theorem injectUpdates_tileGap (hrange : row.range = some range) (hne : (injectUpdates merkle position row).1 ≠ []) :
    TileGap (gapStart position.lastMerkleEndIndex) range.1 (injectUpdates merkle position row).1 := by
  have hrange' : row.range = some (range.1, range.2) := hrange
  rw [injectUpdates_of_range_eq_some hrange'] at hne ⊢
  split_ifs at hne ⊢ with hlt
  · exact inlineUpdates_tileGap _ hlt hne
  · exact absurd rfl hne

theorem injectUpdates_congr (h : row.range = row'.range) :
    injectUpdates merkle position row = injectUpdates merkle position row' := by
  cases hrange : row'.range with
  | none => rw [injectUpdates_of_range_eq_none (h.trans hrange), injectUpdates_of_range_eq_none hrange]
  | some range =>
    have hrange' : row'.range = some (range.1, range.2) := hrange
    rw [injectUpdates_of_range_eq_some (h.trans hrange'), injectUpdates_of_range_eq_some hrange']

end Inject

/-! ## The items injected for a transaction -/

def injectedItems (txId : Int) (items : List SortableFeedItem) : List SortableFeedItem :=
  items.filter (fun s => s.item.isUpdate = true ∧ s.sequence.txId = txId)

theorem injectedItems_append (txId : Int) (items items' : List SortableFeedItem) :
    injectedItems txId (items ++ items') = injectedItems txId items ++ injectedItems txId items' :=
  List.filter_append ..

theorem injectedItems_updateItems (height txId : Int) (updates : List MerkleCollapsedUpdate) :
    injectedItems txId (updateItems height txId updates) = updateItems height txId updates := by
  refine List.filter_eq_self.mpr fun s hs => ?_
  obtain ⟨i, hi, rfl⟩ := List.mem_mapIdx.mp hs
  exact decide_eq_true ⟨rfl, rfl⟩

section Rows
variable (w : WindowRows) (height : Int) (merkle : MerkleBehaviour) {position : MerklePosition} {range : Int × Int}

theorem injectedItems_shieldedItem (txId : Int) (row : RelevantTxRow) :
    injectedItems txId [w.shieldedItem height row] = [] := by
  refine List.filter_eq_nil_iff.mpr fun s hs hinjected => ?_
  rw [List.mem_singleton.mp hs] at hinjected
  cases (of_decide_eq_true hinjected).1

theorem injectedItems_rowItems (position : MerklePosition) (row : RelevantTxRow) :
    injectedItems row.txId (rowItems w height merkle position row) =
      updateItems height row.txId (injectUpdates merkle position row).1 := by
  rw [rowItems, injectedItems_append, injectedItems_updateItems, injectedItems_shieldedItem, List.append_nil]

theorem injectedItems_of_ne {rows : List RelevantTxRow} {txId : Int} (h : ∀ row ∈ rows, row.txId ≠ txId)
    (position : MerklePosition) : injectedItems txId (streamShieldedItems w height merkle position rows).1 = [] := by
  refine List.filter_eq_nil_iff.mpr fun s hs hinjected => ?_
  obtain ⟨row, hrow, ordinal, hkey⟩ := exists_row_of_mem w height merkle hs
  have hid := (of_decide_eq_true hinjected).2
  rw [hkey] at hid
  exact h row hrow hid

theorem injectedItems_of_le {rows : List RelevantTxRow} (hrows : ∀ row ∈ rows, row.range = some range)
    (hwf : range.1 ≤ range.2) (hle : range.1 ≤ gapStart position.lastMerkleEndIndex) (txId : Int) :
    injectedItems txId (streamShieldedItems w height merkle position rows).1 = [] := by
  induction rows generalizing position with
  | nil => rfl
  | cons row rows ih =>
    have hrange := hrows row List.mem_cons_self
    have hpassed : range.1 ≤ gapStart (injectUpdates merkle position row).2.lastMerkleEndIndex :=
      le_gapStart_injectUpdates hrange hwf
    have hrest := ih (fun row' hrow' => hrows row' (List.mem_cons_of_mem row hrow')) hpassed
    rw [streamShieldedItems_cons]
    show injectedItems txId (_ ++ _) = []
    rw [injectedItems_append, hrest, rowItems, injectUpdates_of_le hrange hle, injectedItems_append,
      injectedItems_shieldedItem]
    rfl

theorem injectedItems_same {row : RelevantTxRow} {rows : List RelevantTxRow}
    (hrows : ∀ row' ∈ rows, row'.range = some range) (hrange : row.range = some range)
    (honce : rows = [] ∨ range.1 ≤ range.2) (position : MerklePosition) :
    injectedItems row.txId (streamShieldedItems w height merkle position (row :: rows)).1 =
      updateItems height row.txId (injectUpdates merkle position row).1 := by
  rw [streamShieldedItems_cons]
  show injectedItems row.txId (_ ++ _) = _
  rw [injectedItems_append, injectedItems_rowItems]
  rcases honce with rfl | hwf
  · exact List.append_nil _
  · rw [injectedItems_of_le w height merkle hrows hwf (le_gapStart_injectUpdates hrange hwf), List.append_nil]

/-- **The items pushed for a transaction** that is listed once or has a well-formed range: the updates injected at the
position after the transactions before it. -/
theorem injectedItems_streamShieldedItems {rows : List RelevantTxRow} {row : RelevantTxRow}
    (hsorted : rows.Pairwise (fun row row' => row.txId ≤ row'.txId))
    (hsame : ∀ row' ∈ rows, row'.txId = row.txId → row'.range = row.range) (hrow : row ∈ rows)
    (hrange : row.range = some range)
    (honce : (rows.filter (fun row' => row'.txId = row.txId)).length ≤ 1 ∨ range.1 ≤ range.2)
    (position : MerklePosition) : ∃ position' : MerklePosition,
      gapStart position'.lastMerkleEndIndex =
        (rows.filter (fun row' => row'.txId < row.txId)).foldl indexAfter (gapStart position.lastMerkleEndIndex) ∧
      injectedItems row.txId (streamShieldedItems w height merkle position rows).1 =
        updateItems height row.txId (injectUpdates merkle position' row).1 := by
  have hsplit := filter_key_append hsorted row.txId
  have hown : row ∈ rows.filter (fun row' => row'.txId = row.txId) :=
    List.mem_filter.mpr ⟨hrow, decide_eq_true rfl⟩
  have hbefore : ∀ row' ∈ rows.filter (fun row' => row'.txId < row.txId), row'.txId ≠ row.txId :=
    fun row' hmem => (of_decide_eq_true (List.mem_filter.mp hmem).2).ne
  have hafter : ∀ row' ∈ rows.filter (fun row' => row.txId < row'.txId), row'.txId ≠ row.txId :=
    fun row' hmem => (of_decide_eq_true (List.mem_filter.mp hmem).2).ne'
  generalize rows.filter (fun row' => row'.txId < row.txId) = before at hsplit hbefore ⊢
  generalize rows.filter (fun row' => row.txId < row'.txId) = after at hsplit hafter
  refine ⟨_, gapStart_streamShieldedItems w height merkle position before, ?_⟩
  cases hlisted : rows.filter (fun row' => row'.txId = row.txId) with
  | nil =>
    rw [hlisted] at hown
    cases hown
  | cons first more =>
    have hsame' : ∀ row' ∈ first :: more, row'.txId = row.txId ∧ row'.range = some range := fun row' hmem => by
      obtain ⟨hmem, hid⟩ := List.mem_filter.mp (hlisted ▸ hmem)
      exact ⟨of_decide_eq_true hid, (hsame row' hmem (of_decide_eq_true hid)).trans hrange⟩
    obtain ⟨hid, hfirst⟩ := hsame' first List.mem_cons_self
    have honce' : more = [] ∨ range.1 ≤ range.2 := honce.imp_left fun hle => by
      rw [hlisted, List.length_cons] at hle
      exact List.length_eq_zero_iff.mp (by omega)
    rw [hlisted] at hsplit
    rw [← hsplit, streamShieldedItems_append, streamShieldedItems_append]
    dsimp only
    rw [injectedItems_append, injectedItems_append, injectedItems_of_ne w height merkle hbefore,
      injectedItems_of_ne w height merkle hafter, ← hid,
      injectedItems_same w height merkle (fun row' hmem => (hsame' row' (List.mem_cons_of_mem first hmem)).2) hfirst
        honce', injectUpdates_congr (hfirst.trans hrange.symm), List.nil_append, List.append_nil]

end Rows

/-! ## The sorted block -/

def FeedItem.collapsedUpdate : FeedItem → Option MerkleCollapsedUpdate
  | .merkleCollapsedUpdate update => some update
  | _ => none

/-- What is injected for a transaction, if anything is, tiles the gap before it, and stands together in the block: after
all items of earlier transactions and before all others of its own. -/
structure InjectionFits (items : List SortableFeedItem) (txId fromIndex toIndex : Int) : Prop where
  tiles : injectedItems txId items ≠ [] →
    TileGap fromIndex toIndex ((injectedItems txId items).filterMap (·.item.collapsedUpdate))
  placed : ∃ before after, items = before ++ (injectedItems txId items ++ after) ∧
    (∀ s ∈ before, s.sequence.txId < txId) ∧ ∀ s ∈ after, txId ≤ s.sequence.txId

theorem filterMap_collapsedUpdate_updateItems (height txId : Int) (updates : List MerkleCollapsedUpdate) :
    (updateItems height txId updates).filterMap (·.item.collapsedUpdate) = updates := by
  have hmap := congrArg (List.filterMap FeedItem.collapsedUpdate) (map_item_updateItems height txId updates)
  rw [List.filterMap_map, List.filterMap_map] at hmap
  exact hmap.trans List.filterMap_some

section Block
variable {w : WindowRows} {height : Int} {merkle : MerkleBehaviour} {position : MerklePosition}
  {rows : List RelevantTxRow}

/-- Of the items pushed for relevant transactions, the updates are those with a negative ordinal. -/
theorem sequence_of_mem_streamShieldedItems {s : SortableFeedItem}
    (h : s ∈ (streamShieldedItems w height merkle position rows).1) :
    ∃ txId ordinal, s.sequence = ⟨height, txId, PHASE_TX, ordinal⟩ ∧ (s.item.isUpdate = true ↔ ordinal < 0) := by
  induction rows generalizing position with
  | nil => cases h
  | cons row rows ih =>
    rw [streamShieldedItems_cons] at h
    rcases List.mem_append.mp h with h | h
    · rcases List.mem_append.mp h with h | h
      · obtain ⟨i, hi, rfl⟩ := List.mem_mapIdx.mp h
        exact ⟨_, _, rfl, ⟨fun _ => by omega, fun _ => rfl⟩⟩
      · rw [List.mem_singleton.mp h]
        exact ⟨_, 1, rfl, ⟨fun hupdate => Bool.noConfusion hupdate, fun hlt => by omega⟩⟩
    · exact ih h

theorem lt_metadata_iff {txId phase ordinal : Int} :
    (⟨height, txId, phase, ordinal⟩ : SequenceKey) < ⟨height, txId, PHASE_TX, 0⟩ ↔
      phase < PHASE_TX ∨ phase = PHASE_TX ∧ ordinal < 0 := by
  simp [SequenceKey.lt_iff]

/-- The updates of a block are the items below the metadata of their transaction. -/
theorem isUpdate_iff_lt {s : SortableFeedItem}
    (h : s ∈ w.assembleItems height (streamShieldedItems w height merkle position rows).1) :
    s.sequence.blockHeight = height ∧
      (s.item.isUpdate = true ↔ s.sequence < ⟨height, s.sequence.txId, PHASE_TX, 0⟩) := by
  have hother : ∀ {sequence : SequenceKey} {item : FeedItem}, item.isUpdate = false →
      ¬ sequence < ⟨height, sequence.txId, PHASE_TX, 0⟩ →
      (item.isUpdate = true ↔ sequence < ⟨height, sequence.txId, PHASE_TX, 0⟩) :=
    fun hitem hlt => iff_of_false (by rw [hitem]; decide) hlt
  rcases WindowRows.mem_assembleItems.mp h with h | h | h | h | h
  · obtain ⟨row, -, rfl⟩ := List.mem_map.mp h
    exact ⟨rfl, hother rfl (lt_irrefl _)⟩
  · obtain ⟨txId, ordinal, hkey, hupdate⟩ := sequence_of_mem_streamShieldedItems h
    rw [hkey, hupdate, lt_metadata_iff]
    exact ⟨rfl, ⟨fun hlt => Or.inr ⟨rfl, hlt⟩, fun hlt => (hlt.resolve_left (lt_irrefl _)).2⟩⟩
  · obtain ⟨row, -, rfl⟩ := List.mem_map.mp h
    exact ⟨rfl, hother rfl (lt_metadata_iff.not.mpr (by simp [PHASE_TX, PHASE_LEDGER_EVENT]))⟩
  · obtain ⟨row, -, rfl⟩ := List.mem_map.mp h
    exact ⟨rfl, hother rfl (lt_metadata_iff.not.mpr (by simp [PHASE_TX, PHASE_LEDGER_EVENT]))⟩
  · obtain ⟨row, -, rfl⟩ := List.mem_map.mp h
    exact ⟨rfl, hother rfl (lt_metadata_iff.not.mpr (by simp [PHASE_TX, PHASE_UNSHIELDED]))⟩

/-- Where an item of a block stands with respect to what is injected for a transaction. -/
def injectionRank (txId : Int) (s : SortableFeedItem) : Nat :=
  if s.sequence.txId < txId then 0 else if s.item.isUpdate = true ∧ s.sequence.txId = txId then 1 else 2

theorem injectionRank_le {s s' : SortableFeedItem}
    (hs : s ∈ w.assembleItems height (streamShieldedItems w height merkle position rows).1)
    (hs' : s' ∈ w.assembleItems height (streamShieldedItems w height merkle position rows).1)
    (hle : s.sequence ≤ s'.sequence) (txId : Int) : injectionRank txId s ≤ injectionRank txId s' := by
  obtain ⟨hheight, hupdate⟩ := isUpdate_iff_lt hs
  obtain ⟨hheight', hupdate'⟩ := isUpdate_iff_lt hs'
  have hids : s.sequence.txId ≤ s'.sequence.txId := by
    rcases SequenceKey.le_iff.mp hle with hlt | ⟨-, hlt | ⟨heq, -⟩⟩
    · omega
    · exact hlt.le
    · exact heq.le
  unfold injectionRank
  by_cases hbefore : s.sequence.txId < txId
  · rw [if_pos hbefore]
    exact Nat.zero_le _
  · rw [if_neg hbefore, if_neg (by omega : ¬ s'.sequence.txId < txId)]
    by_cases hinjected : s'.item.isUpdate = true ∧ s'.sequence.txId = txId
    · have hid : s.sequence.txId = s'.sequence.txId := by omega
      have hlt := hle.trans_lt (hupdate'.mp hinjected.1)
      rw [← hid] at hlt
      rw [if_pos ⟨hupdate.mpr hlt, hid.trans hinjected.2⟩, if_pos hinjected]
    · rw [if_neg hinjected]
      split_ifs <;> omega

/-- **The sort of a block keeps what is injected for a transaction together**, after all items of earlier transactions
and before all others of its own. -/
theorem split_assembleItems {items : List SortableFeedItem}
    (hitems : items = w.assembleItems height (streamShieldedItems w height merkle position rows).1) (txId : Int) :
    ∃ before after, items = before ++ (injectedItems txId items ++ after) ∧
      (∀ s ∈ before, s.sequence.txId < txId) ∧ ∀ s ∈ after, txId ≤ s.sequence.txId := by
  have hranks : items.Pairwise (fun s s' => injectionRank txId s ≤ injectionRank txId s') := by
    rw [hitems]
    exact (pairwise_sortBy _ _).imp_of_mem fun hs hs' hle => injectionRank_le hs hs' hle txId
  refine ⟨items.filter fun s => injectionRank txId s < 1, items.filter fun s => 1 < injectionRank txId s, ?_, ?_, ?_⟩
  · have hinjected : items.filter (fun s => injectionRank txId s = 1) = injectedItems txId items := by
      refine List.filter_congr fun s _ => ?_
      unfold injectionRank
      split_ifs with hbefore hinjected
      · simp [hbefore.ne]
      · simp [hinjected]
      · simpa using hinjected
    rw [← hinjected, filter_key_append hranks 1]
  · intro s hs
    have hrank := of_decide_eq_true (List.mem_filter.mp hs).2
    unfold injectionRank at hrank
    split_ifs at hrank with hbefore
    · exact hbefore
    · omega
    · omega
  · intro s hs
    have hrank := of_decide_eq_true (List.mem_filter.mp hs).2
    unfold injectionRank at hrank
    split_ifs at hrank with hbefore
    · omega
    · omega
    · exact not_lt.mp hbefore

/-- The sort leaves the injected items in the order in which they are pushed. -/
theorem injectedItems_assembleItems {shielded : List SortableFeedItem} {row : RelevantTxRow}
    (h : injectedItems row.txId shielded = updateItems height row.txId (injectUpdates merkle position row).1) :
    injectedItems row.txId (w.assembleItems height shielded) =
      updateItems height row.txId (injectUpdates merkle position row).1 := by
  have hother : ∀ s : SortableFeedItem, s.item.isTreeItem = false →
      decide (s.item.isUpdate = true ∧ s.sequence.txId = row.txId) = false := by
    intro s hs
    cases hitem : s.item with
    | merkleCollapsedUpdate update => rw [hitem] at hs; cases hs
    | _ => simp [FeedItem.isUpdate]
  rw [injectedItems, filter_assembleItems_of_tree w height shielded hother]
  show sortBy _ (injectedItems row.txId shielded) = _
  rw [h]
  exact sortBy_eq_self _ (List.pairwise_append.mp (pairwise_rowItems w height merkle position row)).1

end Block

/-! ## The blocks of a batch -/

/-- A transaction is listed once for the wallet of a session. -/
def ListedOnce (db : Database) (sessionId : Bytes) (txId : Int) : Prop :=
  ((sessionRelevantTransactions db sessionId).map (·.transactionId)).count txId = 1

instance (db : Database) (sessionId : Bytes) (txId : Int) : Decidable (ListedOnce db sessionId txId) :=
  inferInstanceAs (Decidable (_ = _))

section Batch
variable (db : Database) (args : AssemblyArgs) (merkle : MerkleBehaviour)

/-- The merkle position before a transaction of a block, after the relevant transactions before it in a batch that
starts at a height. -/
def indexBefore (fromHeight lastMerkleEndIndex height txId : Int) : Int :=
  ((relevantRows db args height).filter (fun row => row.txId < txId)).foldl indexAfter
    ((Int.range fromHeight height).foldl (indexAfterBlock db args) (gapStart lastMerkleEndIndex))

variable {db args}

theorem length_filter_relevantRows {height txId : Int} (h : ListedOnce db args.upstreamSessionId txId) :
    ((relevantRows db args height).filter (fun row => row.txId = txId)).length ≤ 1 := by
  have hcount : ((relevantRows db args height).filter (fun row => row.txId = txId)).length =
      ((relevantRows db args height).map (·.txId)).count txId := by
    rw [List.count, List.countP_map, List.countP_eq_length_filter]
    refine congrArg List.length (List.filter_congr fun row _ => ?_)
    simp [beq_eq_decide]
  rw [hcount, relevantRows, relevantAt_fetchWindow,
    (perm_relevantTxIds db args.upstreamSessionId height).count_eq txId]
  exact (List.filter_sublist.count_le txId).trans_eq h

theorem injectionFits_assembleItems {fromHeight toHeight height : Int} (hlo : fromHeight ≤ height)
    (hhi : height ≤ toHeight) (position : MerklePosition) {row : RelevantTxRow}
    (hrow : row ∈ relevantRows db args height) {range : Int × Int} (hrange : row.range = some range)
    (honce : ListedOnce db args.upstreamSessionId row.txId ∨ range.1 ≤ range.2) :
    InjectionFits ((fetchWindow db args fromHeight toHeight).assembleItems height
        (streamShieldedItems (fetchWindow db args fromHeight toHeight) height merkle position
          ((fetchWindow db args fromHeight toHeight).relevantAt height)).1) row.txId
      (((relevantRows db args height).filter (fun row' => row'.txId < row.txId)).foldl indexAfter
        (gapStart position.lastMerkleEndIndex)) range.1 := by
  have hrows : (fetchWindow db args fromHeight toHeight).relevantAt height = relevantRows db args height :=
    (fetchWindow_agreeAt db args hlo hhi).relevantTxs
  have hsorted : (relevantRows db args height).Pairwise (fun row row' => row.txId ≤ row'.txId) :=
    sorted_relevantAt db args height height height
  have hranges : ∀ row' ∈ relevantRows db args height, txRange db row'.txId = row'.range :=
    fun row' hrow' => txRange_of_mem_relevantAt db args _ _ hrow'
  obtain ⟨position', hindex, hinjected⟩ := injectedItems_streamShieldedItems
    (fetchWindow db args fromHeight toHeight) height merkle hsorted
    (fun row' hrow' hid => by rw [← hranges row' hrow', ← hranges row hrow, hid]) hrow hrange
    (honce.imp_left length_filter_relevantRows) position
  rw [← hindex, hrows]
  refine ⟨fun hne => ?_, split_assembleItems rfl row.txId⟩
  rw [injectedItems_assembleItems hinjected] at hne ⊢
  rw [filterMap_collapsedUpdate_updateItems]
  refine injectUpdates_tileGap hrange fun hnil => hne ?_
  rw [hnil]
  rfl

theorem indexAfterBlock_of_metaAt_none {height : Int} (h : db.metaAt height = none) (index : Int) :
    indexAfterBlock db args index height = index := by
  have hnil : relevantRows db args height = [] := by
    refine List.eq_nil_iff_forall_not_mem.mpr fun row hrow => ?_
    obtain ⟨hmem, hheight⟩ := List.mem_filter.mp hrow
    have hblock := inBlock_of_mem_relevant hmem
    rw [of_decide_eq_true hheight] at hblock
    exact not_inBlock_of_metaAt_none h hblock
  rw [indexAfterBlock, hnil, List.foldl_nil]

theorem exists_position_of_mem_streamBundles {fromHeight toHeight : Int} {heights : List Int}
    (hbounds : ∀ blockMeta ∈ heights.filterMap db.metaAt,
      fromHeight ≤ blockMeta.height ∧ blockMeta.height ≤ toHeight) {position : MerklePosition} {bundle : BlockBundle}
    (h : bundle ∈ (streamBundles (fetchWindow db args fromHeight toHeight) merkle position
      (heights.filterMap db.metaAt)).1) : ∃ before after position',
      heights = before ++ bundle.blockMeta.height :: after ∧
      bundle = (streamBundle (fetchWindow db args fromHeight toHeight) merkle position' bundle.blockMeta).1 ∧
      gapStart position'.lastMerkleEndIndex =
        before.foldl (indexAfterBlock db args) (gapStart position.lastMerkleEndIndex) := by
  induction heights generalizing position with
  | nil => cases h
  | cons height heights ih =>
    cases hmeta : db.metaAt height with
    | none =>
      rw [List.filterMap_cons_none hmeta] at h hbounds
      obtain ⟨before, after, position', rfl, hbundle, hposition⟩ := ih hbounds h
      refine ⟨height :: before, after, position', rfl, hbundle, ?_⟩
      rw [hposition, List.foldl_cons, indexAfterBlock_of_metaAt_none hmeta]
    | some blockMeta =>
      rw [List.filterMap_cons_some hmeta] at h hbounds
      obtain ⟨hlo, hhi⟩ := hbounds blockMeta List.mem_cons_self
      have hheight : blockMeta.height = height := Database.metaAt_height hmeta
      rcases List.mem_cons.mp h with rfl | h
      · exact ⟨[], heights, position, by rw [← hheight]; rfl, rfl, rfl⟩
      · obtain ⟨before, after, position', rfl, hbundle, hposition⟩ :=
          ih (fun m hm => hbounds m (List.mem_cons_of_mem blockMeta hm)) h
        refine ⟨height :: before, after, position', rfl, hbundle, ?_⟩
        rw [hposition, gapStart_streamBundle db args merkle hlo hhi, List.foldl_cons, hheight]

end Batch

/-- **Injected updates fit the gap.** Over every cache and every behaviour of the upstream, from every merkle position,
whatever is injected for a relevant transaction of the range `[startIndex, endIndex)` tiles
`[position, startIndex)` and stands together in the sorted block, after all items of earlier transactions and before all
others of its own; given that the transaction is listed once or does not end before it starts. -/
theorem injections_fit (db : Database) (args : AssemblyArgs) (merkle : MerkleBehaviour)
    (fromHeight toHeight lastMerkleEndIndex : Int) :
    ∀ bundle ∈ (buildBlockBundles db args merkle (getBlocksInRange db fromHeight toHeight) lastMerkleEndIndex).1,
      ∃ items : List SortableFeedItem, bundle.items = items.map SortableFeedItem.toOrdered ∧
        ∀ row ∈ relevantRows db args bundle.blockMeta.height, ∀ startIndex endIndex,
          row.range = some (startIndex, endIndex) →
          ListedOnce db args.upstreamSessionId row.txId ∨ startIndex ≤ endIndex →
          InjectionFits items row.txId
            (indexBefore db args fromHeight lastMerkleEndIndex bundle.blockMeta.height row.txId) startIndex := by
  intro bundle hbundle
  obtain ⟨first, last, hbounds, hbundle⟩ := exists_window_of_mem_streamed hbundle
  obtain ⟨hlo, hhi⟩ := hbounds bundle.blockMeta (filter_of_mem_streamBundles hbundle).1
  rw [getBlocksInRange_eq] at hbundle hbounds
  obtain ⟨before, after, position, hsplit, heq, hposition⟩ :=
    exists_position_of_mem_streamBundles merkle hbounds hbundle
  refine ⟨_, congrArg BlockBundle.items heq, fun row hrow startIndex endIndex hrange honce => ?_⟩
  rw [indexBefore, ← IntRange.eq_range_of_append hsplit, ← hposition]
  exact injectionFits_assembleItems merkle hlo hhi position hrow hrange honce

theorem toOrdered_injective : Function.Injective SortableFeedItem.toOrdered := by
  intro s s' h
  obtain ⟨hsequence, hitem⟩ := OrderedFeedItem.mk.inj h
  exact congrArg₂ SortableFeedItem.mk (SequenceKey.toCursor_injective hsequence) hitem

namespace Sample

/-- An upstream that answers every request with an update of its range. -/
def exactMerkle : MerkleBehaviour := fun _ fromIndex toIndex =>
  ⟨none, .ok (), [.next none (some (.relevantTransaction toIndex (some ⟨fromIndex, toIndex - 1, "aa", 1⟩)))]⟩

/-- A block whose relevant transaction has the inverted range `[5, 2)` and is listed twice. -/
def listedTwice : Database :=
  ⟨{ tables [block 0 1 0] [transaction 1 0] [] with
      relevantTransactions := [⟨1, 1⟩, ⟨1, 1⟩]
      regularTransactions := [⟨1, none, none, some 5, some 2, none, none, none⟩] }, by decide⟩

/-- The items of the block: the updates `[0, 4]` and `[2, 4]`, and the transaction twice. -/
def listedTwiceItems : List SortableFeedItem :=
  (fetchWindow listedTwice args 0 0).assembleItems 0
    (streamShieldedItems (fetchWindow listedTwice args 0 0) 0 exactMerkle ⟨-1, 0⟩
      ((fetchWindow listedTwice args 0 0).relevantAt 0)).1

end Sample

/-- One update fills the gap `[0, 5)` before a transaction. -/
theorem injections_fit_treeGap :
    ∃ bundle ∈ (buildBlockBundles Sample.treeGap Sample.args Sample.exactMerkle
        (getBlocksInRange Sample.treeGap 0 0) (-1)).1,
      bundle.items.map (·.sequence) = ["0:1:0:-1", "0:1:0:1"] ∧
        ∃ items : List SortableFeedItem, bundle.items = items.map SortableFeedItem.toOrdered ∧
          InjectionFits items 1 0 5 := by
  refine ⟨_, List.head_mem (by decide), by decide, ?_⟩
  obtain ⟨items, hitems, hfits⟩ := injections_fit Sample.treeGap Sample.args Sample.exactMerkle 0 0 (-1) _
    (List.head_mem (by decide))
  have hrow : (⟨1, [], 0, none, some 5, some 7⟩ : RelevantTxRow) ∈ relevantRows Sample.treeGap Sample.args 0 := by
    decide
  exact ⟨items, hitems, hfits _ hrow 5 7 rfl (Or.inr (by decide))⟩

theorem not_injections_fit_listedTwice :
    ¬ ∀ bundle ∈ (buildBlockBundles Sample.listedTwice Sample.args
        Sample.exactMerkle (getBlocksInRange Sample.listedTwice 0 0) (-1)).1,
      ∃ items : List SortableFeedItem, bundle.items = items.map SortableFeedItem.toOrdered ∧
        ∀ row ∈ relevantRows Sample.listedTwice Sample.args bundle.blockMeta.height, ∀ startIndex endIndex,
          row.range = some (startIndex, endIndex) →
          InjectionFits items row.txId
            (indexBefore Sample.listedTwice Sample.args 0 (-1) bundle.blockMeta.height row.txId) startIndex := by
  intro h
  have hmem : ⟨⟨0, "01", "00", 0⟩, Sample.listedTwiceItems.map SortableFeedItem.toOrdered⟩ ∈
      (buildBlockBundles Sample.listedTwice Sample.args Sample.exactMerkle
        (getBlocksInRange Sample.listedTwice 0 0) (-1)).1 := by decide
  obtain ⟨items, hitems, hfits⟩ := h _ hmem
  obtain rfl := List.map_injective_iff.mpr toOrdered_injective hitems
  have hrow : (⟨1, [], 0, none, some 5, some 2⟩ : RelevantTxRow) ∈ relevantRows Sample.listedTwice Sample.args 0 := by
    decide
  have htiles := (hfits _ hrow 5 2 rfl).tiles (by decide)
  -- the updates `[0, 4]` and `[2, 4]`, from the position 0
  exact absurd htiles (by decide)

end NocyWalletFeed
