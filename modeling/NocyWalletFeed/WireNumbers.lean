import NocyWalletFeed.Pages
import NocyWalletFeed.Agreement
import NocyWalletFeed.StreamWire

/-!
# Numbers on the wire

JavaScript reads a JSON number as a double. Everything that is 64 bits wide travels as a decimal string, so the only
numbers are the protocol versions of merkle updates, which are `u32`, and those inside transaction results.

* `versionFits_of_mem_inlineUpdates`, `versionFits_of_mem_streamBundles` : the updates a stream injects;
* `numbers_small` : the numbers of the events of a run and of the answers of `get_feed`.
-/

namespace NocyWalletFeed
open Json Machine

/-- The numbers of an item that are not in its transaction result fit a `u32`. -/
def FeedItem.VersionFits (item : FeedItem) : Prop := ∀ n ∈ item.ownNumbers, 0 ≤ n ∧ n < 2 ^ 32

theorem ownNumbers_of_not_isUpdate {item : FeedItem} (h : item.isUpdate = false) : item.ownNumbers = [] := by
  cases item with
  | merkleCollapsedUpdate data => cases h
  | _ data => rfl

theorem versionFits_of_not_isUpdate {item : FeedItem} (h : item.isUpdate = false) : item.VersionFits := by
  intro n hn
  rw [ownNumbers_of_not_isUpdate h] at hn
  cases hn

theorem versionFits_update {update : MerkleCollapsedUpdate} (h : update.protocolVersion < 2 ^ 32) :
    (FeedItem.merkleCollapsedUpdate update).VersionFits := by
  intro n hn
  rw [List.mem_singleton.mp hn]
  omega

/-! ## Injected updates -/

theorem versionFits_of_mem_inlineUpdates {sources : MerkleSources} {fromIndex toIndex : Int}
    {update : MerkleCollapsedUpdate} (h : update ∈ inlineUpdates sources fromIndex toIndex) :
    update.protocolVersion < 2 ^ 32 := by
  unfold inlineUpdates at h
  cases hcache : cachedInlineUpdates sources.cache fromIndex toIndex with
  | some updates =>
    rw [hcache] at h
    unfold cachedInlineUpdates at hcache
    split at hcache
    · dsimp only at hcache
      split_ifs at hcache
      obtain rfl := Option.some.inj hcache
      obtain ⟨row, -, rfl⟩ := List.mem_map.mp h
      exact asU32_lt row.protocolVersion
    · cases hcache
    · cases hcache
  | none =>
    rw [hcache] at h
    cases hfetch : fetchMerkleUpdates sources.upstream fromIndex toIndex with
    | error e =>
      rw [hfetch] at h
      cases h
    | ok updates =>
      rw [hfetch] at h
      obtain ⟨fetched, hfetched, rfl⟩ := List.mem_map.mp h
      rcases fetchMerkleUpdates_cases hfetch with rfl | ⟨only, rfl, -, -, hversion⟩
      · cases hfetched
      · rw [List.mem_singleton.mp hfetched]
        exact hversion

theorem mem_injectUpdates {merkle : MerkleBehaviour} {position : MerklePosition} {row : RelevantTxRow}
    {update : MerkleCollapsedUpdate} (h : update ∈ (injectUpdates merkle position row).1) :
    ∃ sources fromIndex toIndex, update ∈ inlineUpdates sources fromIndex toIndex := by
  unfold injectUpdates at h
  split at h
  · split_ifs at h
    · exact ⟨_, _, _, h⟩
    · cases h
  · cases h

theorem versionFits_of_mem_streamShieldedItems (w : WindowRows) (height : Int) (merkle : MerkleBehaviour)
    {position : MerklePosition} {rows : List RelevantTxRow} {s : SortableFeedItem}
    (h : s ∈ (streamShieldedItems w height merkle position rows).1) : s.item.VersionFits := by
  induction rows generalizing position with
  | nil => cases h
  | cons row rows ih =>
    rw [streamShieldedItems_cons] at h
    rcases List.mem_append.mp h with h | h
    · rcases List.mem_append.mp h with h | h
      · obtain ⟨i, hi, rfl⟩ := List.mem_mapIdx.mp h
        obtain ⟨sources, fromIndex, toIndex, hmem⟩ := mem_injectUpdates (List.getElem_mem hi)
        exact versionFits_update (versionFits_of_mem_inlineUpdates hmem)
      · rw [List.mem_singleton.mp h]
        exact versionFits_of_not_isUpdate rfl
    · exact ih h

/-- The items around the pushed ones are no updates. -/
theorem versionFits_of_mem_assembleItems {w : WindowRows} {height : Int} {shielded : List SortableFeedItem}
    (hshielded : ∀ s ∈ shielded, s.item.VersionFits) {s : SortableFeedItem} (h : s ∈ w.assembleItems height shielded) :
    s.item.VersionFits := by
  rcases WindowRows.mem_assembleItems.mp h with h | h | h | h | h
  · obtain ⟨row, -, rfl⟩ := List.mem_map.mp h
    exact versionFits_of_not_isUpdate rfl
  · exact hshielded s h
  all_goals
    obtain ⟨row, -, rfl⟩ := List.mem_map.mp h
    exact versionFits_of_not_isUpdate rfl

theorem versionFits_of_mem_streamBundles {w : WindowRows} {merkle : MerkleBehaviour} {blocksMeta : List BlockMeta}
    {position : MerklePosition} {bundle : BlockBundle} (h : bundle ∈ (streamBundles w merkle position blocksMeta).1)
    {o : OrderedFeedItem} (ho : o ∈ bundle.items) : o.item.VersionFits := by
  induction blocksMeta generalizing position with
  | nil => cases h
  | cons blockMeta blocksMeta ih =>
    rcases List.mem_cons.mp h with rfl | h
    · obtain ⟨s, hs, rfl⟩ := List.mem_map.mp ho
      exact versionFits_of_mem_assembleItems
        (fun s hs => versionFits_of_mem_streamShieldedItems w blockMeta.height merkle hs) hs
    · exact ih h

theorem versionFits_of_mem_builtBundles {args : AssemblyArgs} {s : StreamState} {e : Iteration} {db : Database}
    {batch : List BlockMeta} (hne : batch ≠ []) {bundle : BlockBundle} (h : bundle ∈ builtBundles args s e db batch)
    {o : OrderedFeedItem} (ho : o ∈ bundle.items) : o.item.VersionFits := by
  obtain ⟨lo, hi, -, -, hbuilt⟩ := buildBlockBundles_eq db args e.merkle hne s.lastMerkleEndIndex
  rw [builtBundles, hbuilt] at h
  exact versionFits_of_mem_streamBundles h ho

/-! ## Runs and pages -/

theorem versionFits_of_mem_streamRun {args : AssemblyArgs} {fromHeight : Int} {fromCursor : Option SequenceKey}
    {iterations : List Iteration} {event : SseEvent}
    (h : event ∈ sentEvents (outputs (streamRun args fromHeight fromCursor iterations))) {o : OrderedFeedItem}
    (ho : o ∈ event.items) : o.item.VersionFits := by
  obtain ⟨action, haction, hevent⟩ := List.mem_filterMap.mp h
  obtain ⟨v, hv, houtput⟩ := List.mem_flatMap.mp haction
  obtain ⟨pre, post, hsplit⟩ := List.append_of_mem hv
  rw [streamRun_output hsplit] at houtput
  have hblock : ∃ bundle, event = .block bundle := by
    cases event with
    | block bundle => exact ⟨bundle, rfl⟩
    | heartbeat watermarks currentHeight => cases ho
    | control control => cases ho
  obtain ⟨bundle, rfl⟩ := hblock
  rcases (streamInv_before hsplit).output_cases args v.input with hquiet | ⟨db, readyHeight, batch, hfetched,
    ⟨-, control, heq⟩ | ⟨-, sent, hinit, heq⟩⟩
  · obtain ⟨watermarks, currentHeight, rfl⟩ := hquiet action houtput
    cases hevent
  · rw [heq] at houtput
    rw [List.mem_singleton.mp (List.mem_of_mem_take houtput)] at hevent
    cases hevent
  · rw [heq] at houtput
    obtain ⟨built, hbuilt, rfl⟩ := List.mem_map.mp houtput
    unfold blockAction at hevent
    dsimp only at hevent
    split_ifs at hevent
    · cases hevent
      exact versionFits_of_mem_builtBundles hfetched.nonempty (hinit.subset hbuilt) (mem_filterCursorBlock ho)

theorem isUpdate_of_mem_getFeed {limitBlocksMax : Nat} {db : Database} {query : FeedQuery} {response : FeedResponse}
    (h : getFeed limitBlocksMax db query = .ok response) {bundle : BlockBundle} (hbundle : bundle ∈ response.blocks)
    {o : OrderedFeedItem} (ho : o ∈ bundle.items) : o.item.isUpdate = false := by
  rcases getFeed_ok_cases h with ⟨hnil, -⟩ | ⟨args, readyHeight, fromCursor, -, -, hle, rfl⟩
  · rw [hnil] at hbundle
    cases hbundle
  rw [page_eq db args fromCursor _ hle] at hbundle
  split at hbundle
  · cases hbundle
  · split at hbundle
    · rw [List.mem_singleton.mp hbundle] at ho
      rw [List.mem_singleton.mp ho]
      rfl
    · obtain ⟨blockMeta, -, rfl⟩ := List.mem_map.mp (List.mem_of_mem_filter hbundle)
      obtain ⟨s, hs, rfl⟩ := List.mem_map.mp (mem_filterCursorBlock ho)
      rcases WindowRows.mem_assembleItems.mp hs with hs | hs | hs | hs | hs
      all_goals
        obtain ⟨row, -, rfl⟩ := List.mem_map.mp hs
        rfl

/-- **Numbers on the wire.** In every event a run of the stream sends, a JSON number is a `u32` or stands in a
transaction result; in every answer of `get_feed`, all of them stand in transaction results. -/
theorem numbers_small (jsonb : JsonText → Value) :
    (∀ args fromHeight fromCursor iterations,
      ∀ event ∈ sentEvents (outputs (streamRun args fromHeight fromCursor iterations)),
        ∀ n ∈ (event.toJson jsonb).numbers,
          (0 ≤ n ∧ n < 2 ^ 32) ∨ ∃ result ∈ event.results, n ∈ (jsonb result).numbers) ∧
    ∀ limitBlocksMax db query response, getFeed limitBlocksMax db query = .ok response →
      ∀ n ∈ (response.toJson jsonb).numbers,
        ∃ bundle ∈ response.blocks, ∃ o ∈ bundle.items, ∃ result ∈ o.item.results, n ∈ (jsonb result).numbers := by
  refine ⟨fun args fromHeight fromCursor iterations event hevent n hn => ?_,
    fun limitBlocksMax db query response h n hn => ?_⟩
  · rw [numbers_sseEvent] at hn
    obtain ⟨o, ho, hn⟩ := List.mem_flatMap.mp hn
    rcases List.mem_append.mp hn with hown | hresult
    · exact Or.inl (versionFits_of_mem_streamRun hevent ho n hown)
    · obtain ⟨result, hresult, hn⟩ := List.mem_flatMap.mp hresult
      exact Or.inr ⟨result, List.mem_flatMap.mpr ⟨o, ho, hresult⟩, hn⟩
  · rw [numbers_feedResponse] at hn
    obtain ⟨bundle, hbundle, hn⟩ := List.mem_flatMap.mp hn
    obtain ⟨o, ho, hn⟩ := List.mem_flatMap.mp hn
    have hnone : o.item.ownNumbers = [] := ownNumbers_of_not_isUpdate (isUpdate_of_mem_getFeed h hbundle ho)
    rw [FeedItem.numbers, hnone, List.nil_append] at hn
    obtain ⟨result, hresult, hn⟩ := List.mem_flatMap.mp hn
    exact ⟨bundle, hbundle, o, ho, result, hresult, hn⟩

end NocyWalletFeed
