import NocyWalletFeed.Agreement
import NocyWalletFeed.Pages

/-!
# The items of a range

Both assemblies of a range of heights take the blocks of the range as they are stored, with or without gaps:

* `flatMap_items_polled` : the bundles of `get_feed` hold the items of the blocks of the range, in block order;
* `withoutUpdates_streamed` : so do those of `build_block_bundles_tx`, apart from their merkle updates;
* `items_of_mem_polled`, `items_of_mem_streamed` : bundle by bundle.
-/

namespace NocyWalletFeed
open OrderBy

variable {db : Database} {args : AssemblyArgs} {fromHeight toHeight height : Int}

theorem not_inBlock_of_metaAt_none (h : db.metaAt height = none) {txId : Int} : ¬ InBlock db txId height := by
  intro hin
  obtain ⟨b, hb, hheight⟩ := hin.exists_block
  have hblock : db.blockAt height = none := Option.map_eq_none_iff.mp h
  rw [Database.blockAt_eq_some_iff.mpr ⟨hb, hheight⟩] at hblock
  cases hblock

theorem blockItems_of_metaAt_none (h : db.metaAt height = none) : blockItems db args height = [] := by
  refine not_not.mp fun hne => ?_
  have hsort : blockSortables db args height ≠ [] := by
    intro hnil
    rw [blockItems_eq, hnil] at hne
    exact hne rfl
  obtain ⟨s, hs⟩ := List.exists_mem_of_ne_nil _ hsort
  exact absurd (inBlock_of_mem_blockSortables hs).2 (not_inBlock_of_metaAt_none h)

theorem flatMap_blockItems_getBlocksInRange (db : Database) (args : AssemblyArgs) (fromHeight toHeight : Int) :
    (getBlocksInRange db fromHeight toHeight).flatMap (fun blockMeta => blockItems db args blockMeta.height) =
      feedItems db args fromHeight (toHeight + 1) := by
  rw [getBlocksInRange_eq, feedItems]
  induction Int.range fromHeight (toHeight + 1) with
  | nil => rfl
  | cons height heights ih =>
    rw [List.flatMap_cons, ← ih]
    cases hm : db.metaAt height with
    | none => rw [List.filterMap_cons_none hm, blockItems_of_metaAt_none hm, List.nil_append]
    | some blockMeta => rw [List.filterMap_cons_some hm, List.flatMap_cons, Database.metaAt_height hm]

/-! ## Bundle by bundle -/

theorem items_of_mem_polled {bundle : BlockBundle}
    (h : bundle ∈ buildBundles (fetchWindow db args fromHeight toHeight) none
      (getBlocksInRange db fromHeight toHeight)) :
    bundle.items = blockItems db args bundle.blockMeta.height := by
  obtain ⟨blockMeta, hblock, rfl⟩ := List.mem_map.mp (List.mem_of_mem_filter h)
  obtain ⟨hlo, hhi, -⟩ := mem_getBlocksInRange.mp hblock
  exact feedItems_fetchWindow db args hlo hhi

theorem pairwise_getBlocksInRange (db : Database) (fromHeight toHeight : Int) :
    ((getBlocksInRange db fromHeight toHeight).map (·.height)).Pairwise (· ≤ ·) := by
  have hheights : (getBlocksInRange db fromHeight toHeight).map (·.height) =
      (sortBy (·.height) (db.blocks.filter (fun b => b.height ≥ fromHeight ∧ b.height ≤ toHeight))).map (·.height) := by
    rw [getBlocksInRange, List.map_map]
    rfl
  rw [hheights, List.pairwise_map]
  exact pairwise_sortBy _ _

/-- The bundles of a stream are built from a window that contains the blocks of the range. -/
theorem exists_window_of_mem_streamed {merkle : MerkleBehaviour} {lastMerkleEndIndex : Int} {bundle : BlockBundle}
    (h : bundle ∈ (buildBlockBundles db args merkle (getBlocksInRange db fromHeight toHeight) lastMerkleEndIndex).1) :
    ∃ first last, (∀ blockMeta ∈ getBlocksInRange db fromHeight toHeight,
        first ≤ blockMeta.height ∧ blockMeta.height ≤ last) ∧
      bundle ∈ (streamBundles (fetchWindow db args first last) merkle ⟨lastMerkleEndIndex, 0⟩
        (getBlocksInRange db fromHeight toHeight)).1 := by
  have hne : getBlocksInRange db fromHeight toHeight ≠ [] := by
    intro hnil
    rw [hnil] at h
    cases h
  obtain ⟨first, last, hfirst, hlast, hbuilt⟩ := buildBlockBundles_eq db args merkle hne lastMerkleEndIndex
  rw [hbuilt] at h
  refine ⟨first, last, fun blockMeta hmem => ?_, h⟩
  exact bounds_of_pairwise (pairwise_getBlocksInRange db fromHeight toHeight) hfirst hlast (List.mem_map_of_mem hmem)

theorem items_of_mem_streamed (merkle : MerkleBehaviour) (lastMerkleEndIndex : Int) {bundle : BlockBundle}
    (h : bundle ∈ (buildBlockBundles db args merkle (getBlocksInRange db fromHeight toHeight) lastMerkleEndIndex).1) :
    withoutUpdates bundle.items = blockItems db args bundle.blockMeta.height := by
  obtain ⟨first, last, hbounds, hmem⟩ := exists_window_of_mem_streamed h
  obtain ⟨hblock, hwindow⟩ := filter_of_mem_streamBundles hmem
  rw [hwindow, feedItems_fetchWindow db args (hbounds _ hblock).1 (hbounds _ hblock).2]

/-! ## The range as one list -/

/-- The bundles of `get_feed` hold the items of the range. -/
theorem flatMap_items_polled (db : Database) (args : AssemblyArgs) (fromHeight toHeight : Int) :
    (buildBundles (fetchWindow db args fromHeight toHeight) none (getBlocksInRange db fromHeight toHeight)).flatMap
        (·.items) = feedItems db args fromHeight (toHeight + 1) := by
  rw [buildBundles_eq, feedItems]
  induction Int.range fromHeight (toHeight + 1) with
  | nil => rfl
  | cons height heights ih =>
    rw [List.flatMap_cons, ← ih]
    cases hm : db.metaAt height with
    | none =>
      have hbundle : bundleAt db args none height = none := by rw [bundleAt, hm]; rfl
      rw [List.filterMap_cons_none hbundle, blockItems_of_metaAt_none hm, List.nil_append]
    | some blockMeta =>
      by_cases hnil : (blockItems db args height).isEmpty = true
      · have hbundle : bundleAt db args none height = none := by
          rw [bundleAt, hm]
          exact if_pos hnil
        rw [List.filterMap_cons_none hbundle, List.isEmpty_iff.mp hnil, List.nil_append]
      · have hbundle : bundleAt db args none height = some ⟨blockMeta, blockItems db args height⟩ := by
          rw [bundleAt, hm]
          exact if_neg hnil
        rw [List.filterMap_cons_some hbundle, List.flatMap_cons]

theorem withoutUpdates_flatMap (bundles : List BlockBundle) :
    withoutUpdates (bundles.flatMap (·.items)) = bundles.flatMap (fun bundle => withoutUpdates bundle.items) :=
  Relational.filter_flatMap _ _ _

/-- The bundles of the stream hold the items of the range and merkle updates. -/
theorem withoutUpdates_streamed (db : Database) (args : AssemblyArgs) (merkle : MerkleBehaviour)
    (fromHeight toHeight lastMerkleEndIndex : Int) :
    withoutUpdates ((buildBlockBundles db args merkle (getBlocksInRange db fromHeight toHeight)
      lastMerkleEndIndex).1.flatMap (·.items)) = feedItems db args fromHeight (toHeight + 1) := by
  rw [withoutUpdates_flatMap, ← flatMap_blockItems_getBlocksInRange]
  calc (buildBlockBundles db args merkle (getBlocksInRange db fromHeight toHeight) lastMerkleEndIndex).1.flatMap
        (fun bundle => withoutUpdates bundle.items)
      = (buildBlockBundles db args merkle (getBlocksInRange db fromHeight toHeight) lastMerkleEndIndex).1.flatMap
        (fun bundle => blockItems db args bundle.blockMeta.height) :=
        List.flatMap_congr fun bundle hbundle => items_of_mem_streamed merkle lastMerkleEndIndex hbundle
    _ = ((buildBlockBundles db args merkle (getBlocksInRange db fromHeight toHeight) lastMerkleEndIndex).1.map
          (·.blockMeta)).flatMap (fun blockMeta => blockItems db args blockMeta.height) := by
        rw [List.flatMap_map]
    _ = _ := by rw [buildBlockBundles_metas]

end NocyWalletFeed
