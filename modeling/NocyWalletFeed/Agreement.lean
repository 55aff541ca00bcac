import NocyWalletFeed.Merkle

/-!
# Polling and streaming agree

`get_feed` and `build_block_bundles_tx` differ in one point: the stream pushes merkle updates before the relevant
transactions of a block. The items of a block without its updates are those `get_feed` assembles for it, whatever the
windows the two are taken from:

* `filter_streamShieldedItems` : without the updates, the items pushed are those of `get_feed`;
* `filter_assembleItems_isUpdate` : dropping the updates after the stable sort or before it is the same;
* `filter_streamBundle` : the items of a bundle;
* `polled_eq_streamed` : the items of the bundles of a batch, before and after the cursor filters.
-/

namespace NocyWalletFeed
open OrderBy

def FeedItem.isUpdate : FeedItem → Bool
  | .merkleCollapsedUpdate _ => true
  | _ => false

/-- The items of a bundle without the merkle updates. -/
def withoutUpdates (items : List OrderedFeedItem) : List OrderedFeedItem :=
  items.filter (fun item => !item.item.isUpdate)

/-! ## Dropping the updates of a block -/

theorem filter_updateItems (height txId : Int) (updates : List MerkleCollapsedUpdate) :
    (updateItems height txId updates).filter (fun s => !s.item.isUpdate) = [] := by
  refine List.filter_eq_nil_iff.mpr fun s hs => ?_
  obtain ⟨i, hi, rfl⟩ := List.mem_mapIdx.mp hs
  simp [FeedItem.isUpdate]

theorem filter_rowItems (w : WindowRows) (height : Int) (merkle : MerkleBehaviour) (position : MerklePosition)
    (row : RelevantTxRow) :
    (rowItems w height merkle position row).filter (fun s => !s.item.isUpdate) = [w.shieldedItem height row] := by
  rw [rowItems, List.filter_append, filter_updateItems, List.nil_append]
  rfl

theorem filter_streamShieldedItems (w : WindowRows) (height : Int) (merkle : MerkleBehaviour)
    (position : MerklePosition) (rows : List RelevantTxRow) :
    (streamShieldedItems w height merkle position rows).1.filter (fun s => !s.item.isUpdate) =
      rows.map (w.shieldedItem height) := by
  induction rows generalizing position with
  | nil => rfl
  | cons row rows ih =>
    rw [streamShieldedItems_cons]
    show (_ ++ _ : List SortableFeedItem).filter _ = _
    rw [List.filter_append, filter_rowItems, ih, List.map_cons, List.singleton_append]

/-- The sort is stable and the filter does not look at the keys, so the two commute. -/
theorem filter_assembleItems_isUpdate (w : WindowRows) (height : Int) (shielded : List SortableFeedItem) :
    (w.assembleItems height shielded).filter (fun s => !s.item.isUpdate) =
      w.assembleItems height (shielded.filter (fun s => !s.item.isUpdate)) := by
  have hmeta : (w.transactionMetaItems height).filter (fun s => !s.item.isUpdate) = w.transactionMetaItems height :=
    Relational.filter_map_eq_self (fun _ => rfl) _
  have hzswap : (w.zswapInputItems height).filter (fun s => !s.item.isUpdate) = w.zswapInputItems height :=
    Relational.filter_map_eq_self (fun _ => rfl) _
  have hdust : (w.dustItems height).filter (fun s => !s.item.isUpdate) = w.dustItems height :=
    Relational.filter_map_eq_self (fun _ => rfl) _
  have hunshielded : (w.unshieldedItems height).filter (fun s => !s.item.isUpdate) = w.unshieldedItems height :=
    Relational.filter_map_eq_self (fun _ => rfl) _
  rw [WindowRows.assembleItems, filter_sortBy]
  simp only [List.filter_append, hmeta, hzswap, hdust, hunshielded]
  rfl

theorem withoutUpdates_map_toOrdered (items : List SortableFeedItem) :
    withoutUpdates (items.map SortableFeedItem.toOrdered) =
      (items.filter (fun s => !s.item.isUpdate)).map SortableFeedItem.toOrdered := by
  rw [withoutUpdates, List.filter_map]
  rfl

/-! ## The bundles of a batch -/

theorem filter_streamBundle (w : WindowRows) (merkle : MerkleBehaviour) (position : MerklePosition)
    (blockMeta : BlockMeta) :
    withoutUpdates (streamBundle w merkle position blockMeta).1.items = w.feedItems blockMeta.height := by
  show withoutUpdates (List.map _ (w.assembleItems _ _)) = _
  rw [withoutUpdates_map_toOrdered, filter_assembleItems_isUpdate, filter_streamShieldedItems]
  rfl

theorem filter_of_mem_streamBundles {w : WindowRows} {merkle : MerkleBehaviour} {blocksMeta : List BlockMeta}
    {position : MerklePosition} {bundle : BlockBundle} (h : bundle ∈ (streamBundles w merkle position blocksMeta).1) :
    bundle.blockMeta ∈ blocksMeta ∧ withoutUpdates bundle.items = w.feedItems bundle.blockMeta.height := by
  induction blocksMeta generalizing position with
  | nil => cases h
  | cons blockMeta blocksMeta ih =>
    rcases List.mem_cons.mp h with rfl | h
    · exact ⟨List.mem_cons_self, filter_streamBundle w merkle position blockMeta⟩
    · obtain ⟨hmem, hitems⟩ := ih h
      exact ⟨List.mem_cons_of_mem blockMeta hmem, hitems⟩

theorem withoutUpdates_applyCursor (fromCursor : Option SequenceKey) (bundle : BlockBundle) :
    withoutUpdates (applyCursor fromCursor bundle).1 =
      filterCursorBlock fromCursor bundle.blockMeta.height (withoutUpdates bundle.items) := by
  cases fromCursor with
  | none => rfl
  | some cursor =>
    unfold applyCursor filterCursorBlock
    dsimp only
    by_cases hblock : bundle.blockMeta.height = cursor.blockHeight
    · rw [if_pos hblock, if_pos hblock.symm]
      unfold withoutUpdates retainAfter
      rw [List.filter_filter, List.filter_filter]
      exact List.filter_congr fun item _ => Bool.and_comm _ _
    · rw [if_neg hblock, if_neg (Ne.symm hblock)]

variable (db : Database) (args : AssemblyArgs) (merkle : MerkleBehaviour) {blocksMeta : List BlockMeta}
  (lastMerkleEndIndex : Int)

/-- **Polling and streaming agree.** The stream builds one bundle for each block of a batch of contiguous blocks; for
any page `[fromHeight, toHeight]` that contains the block, the bundle without its merkle updates holds the items of the
page for it, before and after the filter of one cursor. -/
theorem polled_eq_streamed {lo hi : Int} (hcontiguous : blocksMeta.map (·.height) = Int.range lo hi) :
    (buildBlockBundles db args merkle blocksMeta lastMerkleEndIndex).1.map (·.blockMeta) = blocksMeta ∧
      ∀ bundle ∈ (buildBlockBundles db args merkle blocksMeta lastMerkleEndIndex).1, ∀ fromHeight toHeight,
        fromHeight ≤ bundle.blockMeta.height → bundle.blockMeta.height ≤ toHeight →
        withoutUpdates bundle.items = (fetchWindow db args fromHeight toHeight).feedItems bundle.blockMeta.height ∧
          ∀ fromCursor, withoutUpdates (applyCursor fromCursor bundle).1 =
            filterCursorBlock fromCursor bundle.blockMeta.height
              ((fetchWindow db args fromHeight toHeight).feedItems bundle.blockMeta.height) := by
  refine ⟨buildBlockBundles_metas db args merkle blocksMeta lastMerkleEndIndex,
    fun bundle hbundle fromHeight toHeight hlo hhi => ?_⟩
  have hitems : withoutUpdates bundle.items =
      (fetchWindow db args fromHeight toHeight).feedItems bundle.blockMeta.height := by
    have hne : blocksMeta ≠ [] := by
      intro hnil
      rw [hnil] at hbundle
      cases hbundle
    obtain ⟨first, last, hfirst, hlast, hbuilt⟩ := buildBlockBundles_eq db args merkle hne lastMerkleEndIndex
    rw [hbuilt] at hbundle
    obtain ⟨hmem, hwindow⟩ := filter_of_mem_streamBundles hbundle
    have hsorted : (blocksMeta.map (·.height)).Pairwise (· ≤ ·) :=
      hcontiguous ▸ (IntRange.pairwise_range lo hi).imp le_of_lt
    obtain ⟨hle, hge⟩ := bounds_of_pairwise hsorted hfirst hlast (List.mem_map_of_mem hmem)
    rw [hwindow, feedItems_fetchWindow db args hle hge, feedItems_fetchWindow db args hlo hhi]
  exact ⟨hitems, fun fromCursor => by rw [withoutUpdates_applyCursor, hitems]⟩

/-- A block whose bundle starts with an injected update: the pages that contain it hold the transaction alone. -/
theorem polled_eq_streamed_treeGap :
    ((buildBlockBundles Sample.treeGap Sample.args Sample.answeredIteration.merkle
        (getBlocksInRange Sample.treeGap 0 0) (-1)).1.flatMap (·.items)).map (·.sequence) = ["0:1:0:-1", "0:1:0:1"] ∧
      ∀ bundle ∈ (buildBlockBundles Sample.treeGap Sample.args Sample.answeredIteration.merkle
          (getBlocksInRange Sample.treeGap 0 0) (-1)).1, ∀ fromHeight toHeight,
        fromHeight ≤ bundle.blockMeta.height → bundle.blockMeta.height ≤ toHeight → withoutUpdates bundle.items =
          (fetchWindow Sample.treeGap Sample.args fromHeight toHeight).feedItems bundle.blockMeta.height := by
  have hblocks : (getBlocksInRange Sample.treeGap 0 0).map (·.height) = Int.range 0 1 := by decide
  refine ⟨by decide, fun bundle hbundle fromHeight toHeight hlo hhi => ?_⟩
  exact ((polled_eq_streamed _ _ _ _ hblocks).2 bundle hbundle fromHeight toHeight hlo hhi).1

end NocyWalletFeed
