import NocyWalletFeed.Blocks
import NocyWalletFeed.Keys
import NocyWalletFeed.Readiness
import NocyWalletFeed.Library.Pager

/-!
# Pages of the feed

* `Served`, `getFeed_eq` : what a request of a served session returns;
* `bundleAt`, `page_chain` : a page of a chain is the non-empty bundles of its heights;
* `feedItems` : the feed as one list, with `pairwise_feedSortables` and `nodup_feedSortables_iff`;
* `Position`, `fetchPage` : the requests of a client that follows `nextHeight` or `nextCursor`;
* `heightPages_of_chain` : following `nextHeight` over a chain.
-/

namespace NocyWalletFeed
open Codec OrderBy Pager

/-! ## One request -/

/-- The session of a query resolves in a snapshot, and its wallet is ready up to a height. -/
structure Served (db : Database) (query : FeedQuery) (args : AssemblyArgs) (readyHeight : Int) : Prop where
  resolved : ∃ localSessionId, parseSessionId query.sessionId = .ok localSessionId ∧
    resolveArgs db query localSessionId = .ok args
  ready : WalletReady db args.upstreamSessionId readyHeight

/-- Where a page starts: at a height, or after a cursor. -/
inductive Position where
  | height (fromHeight : Int)
  | cursor (fromCursor : String)
  deriving DecidableEq, Repr

def FeedQuery.startingAt (query : FeedQuery) (limitBlocks : Option Int) : Position → FeedQuery
  | .height fromHeight => { query with fromHeight := some fromHeight, fromCursor := none, limitBlocks := limitBlocks }
  | .cursor fromCursor => { query with fromCursor := some fromCursor, limitBlocks := limitBlocks }

def watermarksOf (db : Database) (readyHeight : Int) : Watermarks :=
  ⟨getChainHead db, some readyHeight, some (getChainHead db)⟩

/-- The answer to a request of a served session. -/
def page (db : Database) (args : AssemblyArgs) (readyHeight : Int) (fromCursor : Option SequenceKey)
    (fromHeight limitBlocks : Int) : FeedResponse :=
  if fromHeight > readyHeight then FeedResponse.empty (watermarksOf db readyHeight)
  else feedPage db args (watermarksOf db readyHeight) fromCursor fromHeight limitBlocks readyHeight

theorem resolveArgs_ok {db : Database} {query : FeedQuery} {localSessionId : Bytes} {args : AssemblyArgs}
    (h : resolveArgs db query localSessionId = .ok args) : ∃ nullifierMode upstreamSessionId,
      (if query.includeNullifiers then getSessionNullifierStreaming db query.sessionId else .ok .disabled) =
        .ok nullifierMode ∧
      getUpstreamSessionId db localSessionId = .ok upstreamSessionId ∧
      args = ⟨localSessionId, upstreamSessionId, nullifierMode, query.includeTxMeta, query.includeRawTx,
        query.includeIdentifiers, query.includeAllDust,
        if query.includeTxMeta && query.includeIdentifiers then detectIdentifiersSource db else .none⟩ := by
  unfold resolveArgs at h
  dsimp only at h
  by_cases hnullifiers : query.includeNullifiers = true
  · rw [hnullifiers] at h ⊢
    obtain ⟨nullifierMode, hmode, h⟩ := bind_ok h
    obtain ⟨upstreamSessionId, hupstream, h⟩ := bind_ok h
    exact ⟨nullifierMode, upstreamSessionId, hmode, hupstream, (Except.ok.inj h).symm⟩
  · rw [Bool.not_eq_true] at hnullifiers
    rw [hnullifiers] at h ⊢
    obtain ⟨nullifierMode, hmode, h⟩ := bind_ok h
    obtain ⟨upstreamSessionId, hupstream, h⟩ := bind_ok h
    exact ⟨nullifierMode, upstreamSessionId, hmode, hupstream, (Except.ok.inj h).symm⟩

theorem one_le_clampLimit (limitBlocksMax : Nat) (limitBlocks : Option Int) :
    1 ≤ clampLimit limitBlocksMax limitBlocks := le_max_right _ _

section Request
variable {db : Database} {query : FeedQuery} {args : AssemblyArgs} {readyHeight : Int}

theorem getFeed_eq (limitBlocksMax : Nat) {q : FeedQuery} (h : Served db q args readyHeight)
    {fromCursor : Option SequenceKey} (hcursor : parseFromCursor q.fromCursor = .ok fromCursor) :
    getFeed limitBlocksMax db q = .ok (page db args readyHeight fromCursor (startHeight fromCursor q.fromHeight)
      (clampLimit limitBlocksMax q.limitBlocks)) := by
  obtain ⟨localSessionId, hparse, hresolve⟩ := h.resolved
  have hready : computeWalletReadyHeight db args.upstreamSessionId (getChainHead db) = .ok (some readyHeight) := h.ready
  unfold getFeed page
  rw [hparse]
  simp only [Except.bind, bind, hcursor, hresolve, hready]
  split_ifs <;> rfl

theorem getFeed_ok_cases {limitBlocksMax : Nat} {q : FeedQuery} {response : FeedResponse}
    (h : getFeed limitBlocksMax db q = .ok response) :
    (response.blocks = [] ∧ response.nextHeight = none) ∨
      ∃ args readyHeight fromCursor, Served db q args readyHeight ∧ parseFromCursor q.fromCursor = .ok fromCursor ∧
        startHeight fromCursor q.fromHeight ≤ readyHeight ∧
        response = page db args readyHeight fromCursor (startHeight fromCursor q.fromHeight)
          (clampLimit limitBlocksMax q.limitBlocks) := by
  have hget := h
  unfold getFeed at h
  obtain ⟨localSessionId, hparse, h⟩ := bind_ok h
  obtain ⟨fromCursor, hcursor, h⟩ := bind_ok h
  obtain ⟨args, hresolve, h⟩ := bind_ok h
  obtain ⟨walletReadyHeight, hready, h⟩ := bind_ok h
  cases walletReadyHeight with
  | none =>
    obtain rfl := Except.ok.inj h
    exact Or.inl ⟨rfl, rfl⟩
  | some readyHeight =>
    have hserved : Served db q args readyHeight := ⟨⟨localSessionId, hparse, hresolve⟩, hready⟩
    rw [getFeed_eq limitBlocksMax hserved hcursor] at hget
    have hpage := (Except.ok.inj hget).symm
    by_cases hle : startHeight fromCursor q.fromHeight ≤ readyHeight
    · exact Or.inr ⟨args, readyHeight, fromCursor, hserved, hcursor, hle, hpage⟩
    · rw [page, if_pos (not_le.mp hle)] at hpage
      rw [hpage]
      exact Or.inl ⟨rfl, rfl⟩

theorem Served.startingAt (h : Served db query args readyHeight) (limitBlocks : Option Int) (position : Position) :
    Served db (query.startingAt limitBlocks position) args readyHeight := by
  obtain ⟨localSessionId, hparse, hresolve⟩ := h.resolved
  cases position with
  | height fromHeight => exact ⟨⟨localSessionId, hparse, hresolve⟩, h.ready⟩
  | cursor fromCursor => exact ⟨⟨localSessionId, hparse, hresolve⟩, h.ready⟩

theorem getFeed_height (limitBlocksMax : Nat) (h : Served db query args readyHeight) (limitBlocks : Option Int)
    {fromHeight : Int} (h0 : 0 ≤ fromHeight) :
    getFeed limitBlocksMax db (query.startingAt limitBlocks (.height fromHeight)) =
      .ok (page db args readyHeight none fromHeight (clampLimit limitBlocksMax limitBlocks)) := by
  have hstart : startHeight none (some fromHeight) = fromHeight := max_eq_left h0
  have hparse : parseFromCursor none = .ok none := rfl
  rw [getFeed_eq limitBlocksMax (h.startingAt limitBlocks (.height fromHeight)) hparse]
  exact congrArg (fun f => Except.ok (page db args readyHeight none f _)) hstart

theorem getFeed_cursor (limitBlocksMax : Nat) (h : Served db query args readyHeight) (limitBlocks : Option Int)
    {cursor : SequenceKey} (hwide : cursor.Wide) (h0 : 0 ≤ cursor.blockHeight) :
    getFeed limitBlocksMax db (query.startingAt limitBlocks (.cursor cursor.toCursor)) =
      .ok (page db args readyHeight (some cursor) cursor.blockHeight (clampLimit limitBlocksMax limitBlocks)) := by
  have hparse : parseFromCursor (some cursor.toCursor) = .ok (some cursor) := by
    rw [parseFromCursor, parseCursor_toCursor hwide]
  have hstart : startHeight (some cursor) query.fromHeight = cursor.blockHeight := max_eq_left h0
  rw [getFeed_eq limitBlocksMax (h.startingAt limitBlocks (.cursor cursor.toCursor)) hparse]
  exact congrArg (fun f => Except.ok (page db args readyHeight (some cursor) f _)) hstart

end Request

/-! ## The bundles of a page -/

section Bundles
variable (db : Database) (args : AssemblyArgs)

/-- The bundle of the block at a height, unless it has no items left after the cursor filter. -/
def bundleAt (fromCursor : Option SequenceKey) (height : Int) : Option BlockBundle :=
  (db.metaAt height).bind fun blockMeta =>
    let items := filterCursorBlock fromCursor height (blockItems db args height)
    if items.isEmpty then none else some ⟨blockMeta, items⟩

/-- The bundles of a window are the bundles of its heights. -/
theorem buildBundles_eq (fromCursor : Option SequenceKey) (fromHeight toHeight : Int) :
    buildBundles (fetchWindow db args fromHeight toHeight) fromCursor (getBlocksInRange db fromHeight toHeight) =
      (Int.range fromHeight (toHeight + 1)).filterMap (bundleAt db args fromCursor) := by
  rw [buildBundles, getBlocksInRange_eq, List.map_filterMap, List.filter_filterMap]
  refine List.filterMap_congr fun height hmem => ?_
  obtain ⟨hlo, hhi⟩ := Int.mem_range_iff.mp hmem
  unfold bundleAt
  cases hm : db.metaAt height with
  | none => rfl
  | some blockMeta =>
    have hheight := Database.metaAt_height hm
    simp only [Option.map_some, Option.bind_some, hheight,
      feedItems_fetchWindow db args hlo (by omega : height ≤ toHeight)]
    by_cases hnil : (filterCursorBlock fromCursor height (blockItems db args height)).isEmpty = true
    · simp [hnil, Option.filter]
    · simp [hnil, Option.filter]

variable {db args}

theorem bundleAt_height {fromCursor : Option SequenceKey} {height : Int} {bundle : BlockBundle}
    (h : bundleAt db args fromCursor height = some bundle) : bundle.blockMeta.height = height := by
  obtain ⟨blockMeta, hm, hbundle⟩ := Option.bind_eq_some_iff.mp h
  dsimp only at hbundle
  split_ifs at hbundle
  obtain rfl := Option.some.inj hbundle
  exact Database.metaAt_height hm

/-- The items of the bundles of a chain are the items of its blocks. -/
theorem flatMap_items_filterMap {top : Int} (hchain : db.ChainUpTo top) (fromCursor : Option SequenceKey)
    {heights : List Int} (h : ∀ height ∈ heights, 0 ≤ height ∧ height ≤ top) :
    (heights.filterMap (bundleAt db args fromCursor)).flatMap (·.items) =
      heights.flatMap (fun height => filterCursorBlock fromCursor height (blockItems db args height)) := by
  induction heights with
  | nil => rfl
  | cons height heights ih =>
    obtain ⟨hlo, hhi⟩ := h height List.mem_cons_self
    obtain ⟨b, hb⟩ := hchain.present height hlo hhi
    have hmeta : db.metaAt height = some b.toMeta := by rw [Database.metaAt, hb]; rfl
    rw [List.flatMap_cons, ← ih fun height' hmem => h height' (List.mem_cons_of_mem _ hmem), List.filterMap_cons,
      bundleAt, hmeta, Option.bind_some]
    by_cases hnil : (filterCursorBlock fromCursor height (blockItems db args height)).isEmpty = true
    · simp [List.isEmpty_iff.mp hnil]
    · simp [hnil]

theorem getLast?_bundles_items {fromCursor : Option SequenceKey} (heights : List Int) :
    ((heights.filterMap (bundleAt db args fromCursor)).getLast?.bind (·.items.getLast?)) =
      ((heights.filterMap (bundleAt db args fromCursor)).flatMap (·.items)).getLast? := by
  have hne : ∀ bundle ∈ heights.filterMap (bundleAt db args fromCursor), bundle.items ≠ [] := by
    intro bundle hmem hnil
    obtain ⟨height, -, hbundle⟩ := List.mem_filterMap.mp hmem
    obtain ⟨blockMeta, -, hsome⟩ := Option.bind_eq_some_iff.mp hbundle
    dsimp only at hsome
    split_ifs at hsome with hempty
    obtain rfl := Option.some.inj hsome
    exact hempty (List.isEmpty_iff.mpr hnil)
  generalize heights.filterMap (bundleAt db args fromCursor) = bundles at hne
  rcases List.eq_nil_or_concat bundles with rfl | ⟨init, bundle, rfl⟩
  · rfl
  · have hlast := hne bundle (by simp)
    simp [List.getLast?_append, List.flatMap_append, List.getLast?_eq_some_getLast hlast]

end Bundles

/-! ## Pages of a chain -/

def pageEnd (fromHeight limitBlocks readyHeight : Int) : Int := min (fromHeight + limitBlocks - 1) readyHeight

def pageBundles (db : Database) (args : AssemblyArgs) (fromCursor : Option SequenceKey) (fromHeight toHeight : Int) :
    List BlockBundle := (Int.range fromHeight (toHeight + 1)).filterMap (bundleAt db args fromCursor)

/-- What a page of a chain holds: the bundles of its heights, and where to go on. -/
structure PageSpec (db : Database) (args : AssemblyArgs) (readyHeight : Int) (fromCursor : Option SequenceKey)
    (fromHeight toHeight : Int) (response : FeedResponse) : Prop where
  from_le : fromHeight ≤ toHeight
  le_ready : toHeight ≤ readyHeight
  blocks : response.blocks = pageBundles db args fromCursor fromHeight toHeight
  nextHeight : response.nextHeight = if toHeight < readyHeight then some (toHeight + 1) else none
  nextCursor : response.nextCursor =
    ((pageBundles db args fromCursor fromHeight toHeight).flatMap (·.items)).getLast?.map (·.sequence)

theorem page_eq (db : Database) (args : AssemblyArgs) {readyHeight : Int} (fromCursor : Option SequenceKey)
    {fromHeight : Int} (limitBlocks : Int) (hle : fromHeight ≤ readyHeight) :
    page db args readyHeight fromCursor fromHeight limitBlocks =
      match getBlocksInRange db fromHeight (pageEnd fromHeight limitBlocks readyHeight) with
      | [] => FeedResponse.empty (watermarksOf db readyHeight)
      | first :: rest =>
        match validateBlocks fromHeight
            (if fromHeight > 0 then getBlockHashAtHeight db (fromHeight - 1) else none) (first :: rest) with
        | some event => resetResponse (watermarksOf db readyHeight) first event
        | none =>
          pageResponse (watermarksOf db readyHeight) readyHeight (pageEnd fromHeight limitBlocks readyHeight)
            (buildBundles (fetchWindow db args fromHeight (pageEnd fromHeight limitBlocks readyHeight)) fromCursor
              (first :: rest)) := by
  rw [page, if_neg (not_lt.mpr hle)]
  rfl

theorem page_valid {db : Database} {args : AssemblyArgs} {readyHeight : Int} (fromCursor : Option SequenceKey)
    {fromHeight limitBlocks : Int} (hle : fromHeight ≤ readyHeight) (hlimit : 1 ≤ limitBlocks)
    (hne : getBlocksInRange db fromHeight (pageEnd fromHeight limitBlocks readyHeight) ≠ [])
    (hvalid : validateBlocks fromHeight (if fromHeight > 0 then getBlockHashAtHeight db (fromHeight - 1) else none)
      (getBlocksInRange db fromHeight (pageEnd fromHeight limitBlocks readyHeight)) = none) :
    PageSpec db args readyHeight fromCursor fromHeight (pageEnd fromHeight limitBlocks readyHeight)
      (page db args readyHeight fromCursor fromHeight limitBlocks) := by
  have hend : fromHeight ≤ pageEnd fromHeight limitBlocks readyHeight := le_min (by omega) hle
  have hend' : pageEnd fromHeight limitBlocks readyHeight ≤ readyHeight := min_le_right _ _
  have hbundles := buildBundles_eq db args fromCursor fromHeight (pageEnd fromHeight limitBlocks readyHeight)
  rw [page_eq db args fromCursor limitBlocks hle]
  cases hrange : getBlocksInRange db fromHeight (pageEnd fromHeight limitBlocks readyHeight) with
  | nil => exact absurd hrange hne
  | cons first rest =>
    rw [hrange] at hvalid hbundles
    simp only [hvalid, hbundles]
    exact ⟨hend, hend', rfl, rfl, congrArg (Option.map OrderedFeedItem.sequence) (getLast?_bundles_items _)⟩

/-- **A page of a chain** is the bundles of its heights. -/
theorem page_chain {db : Database} {args : AssemblyArgs} {readyHeight : Int} (hchain : db.ChainUpTo readyHeight)
    (fromCursor : Option SequenceKey) {fromHeight limitBlocks : Int} (h0 : 0 ≤ fromHeight)
    (hle : fromHeight ≤ readyHeight) (hlimit : 1 ≤ limitBlocks) :
    PageSpec db args readyHeight fromCursor fromHeight (pageEnd fromHeight limitBlocks readyHeight)
      (page db args readyHeight fromCursor fromHeight limitBlocks) := by
  have hend : fromHeight ≤ pageEnd fromHeight limitBlocks readyHeight := le_min (by omega) hle
  have hend' : pageEnd fromHeight limitBlocks readyHeight ≤ readyHeight := min_le_right _ _
  obtain ⟨b, -, hcons⟩ := hchain.getBlocksInRange_cons h0 hend hend'
  refine page_valid fromCursor hle hlimit ?_ (validateBlocks_chain hchain h0 hend' hend)
  rw [hcons]
  exact List.cons_ne_nil _ _

/-! ## The feed as one list -/

section Feed
variable (db : Database) (args : AssemblyArgs)

/-- The items of the blocks of `[fromHeight, toHeight)` with their keys. -/
def feedSortables (fromHeight toHeight : Int) : List SortableFeedItem :=
  (Int.range fromHeight toHeight).flatMap (blockSortables db args)

/-- The items of the blocks of `[fromHeight, toHeight)`. -/
def feedItems (fromHeight toHeight : Int) : List OrderedFeedItem :=
  (Int.range fromHeight toHeight).flatMap (blockItems db args)

theorem feedItems_eq_map (fromHeight toHeight : Int) :
    feedItems db args fromHeight toHeight =
      (feedSortables db args fromHeight toHeight).map SortableFeedItem.toOrdered := by
  rw [feedItems, feedSortables, List.map_flatMap]
  rfl

theorem feedItems_append {fromHeight middle toHeight : Int}
    (h : fromHeight ≤ middle) (h' : middle ≤ toHeight) :
    feedItems db args fromHeight middle ++ feedItems db args middle toHeight =
      feedItems db args fromHeight toHeight := by
  rw [feedItems, feedItems, ← List.flatMap_append, IntRange.range_append h h', feedItems]

variable {db args} {fromHeight toHeight : Int}

theorem mem_feedSortables {s : SortableFeedItem} : s ∈ feedSortables db args fromHeight toHeight ↔
    fromHeight ≤ s.sequence.blockHeight ∧ s.sequence.blockHeight < toHeight ∧
      s ∈ blockSortables db args s.sequence.blockHeight := by
  rw [feedSortables, List.mem_flatMap]
  constructor
  · rintro ⟨height, hmem, hs⟩
    obtain rfl := (sequence_of_mem_blockSortables hs).1
    obtain ⟨hlo, hhi⟩ := Int.mem_range_iff.mp hmem
    exact ⟨hlo, hhi, hs⟩
  · rintro ⟨hlo, hhi, hs⟩
    exact ⟨s.sequence.blockHeight, Int.mem_range_iff.mpr ⟨hlo, hhi⟩, hs⟩

theorem wide_of_mem_feedSortables {s : SortableFeedItem} (h : s ∈ feedSortables db args fromHeight toHeight) :
    s.sequence.Wide := (sequence_of_mem_blockSortables (mem_feedSortables.mp h).2.2).2

theorem lt_of_blockHeight_lt {k k' : SequenceKey} (h : k.blockHeight < k'.blockHeight) : k < k' :=
  SequenceKey.lt_iff.mpr (Or.inl h)

/-- **The feed is in sequence order.** -/
theorem pairwise_feedSortables (db : Database) (args : AssemblyArgs) (fromHeight toHeight : Int) :
    (feedSortables db args fromHeight toHeight).Pairwise (fun a b => a.sequence ≤ b.sequence) := by
  refine List.pairwise_flatMap.mpr ⟨fun height _ => pairwise_blockSortables db args height, ?_⟩
  refine (IntRange.pairwise_range fromHeight toHeight).imp fun {h h'} hlt a ha b hb => ?_
  refine (lt_of_blockHeight_lt ?_).le
  rw [(sequence_of_mem_blockSortables ha).1, (sequence_of_mem_blockSortables hb).1]
  exact hlt

/-- Keys that name the height they are listed at are distinct over a range when they are at each height. -/
theorem nodup_flatMap_range {α : Type*} (key : α → SequenceKey) {rows : Int → List α}
    (h : ∀ height, ∀ a ∈ rows height, (key a).blockHeight = height) (fromHeight toHeight : Int) :
    (((Int.range fromHeight toHeight).flatMap rows).map key).Nodup ↔
      ∀ height, fromHeight ≤ height → height < toHeight → ((rows height).map key).Nodup := by
  rw [List.map_flatMap, List.nodup_flatMap]
  constructor
  · rintro ⟨hblock, -⟩ height hlo hhi
    exact hblock height (Int.mem_range_iff.mpr ⟨hlo, hhi⟩)
  · intro hblock
    refine ⟨fun height hmem => ?_, (IntRange.pairwise_range fromHeight toHeight).imp fun {h₁ h₂} hlt k hk hk' => ?_⟩
    · obtain ⟨hlo, hhi⟩ := Int.mem_range_iff.mp hmem
      exact hblock height hlo hhi
    · obtain ⟨a, ha, rfl⟩ := List.mem_map.mp hk
      obtain ⟨b, hb, heq⟩ := List.mem_map.mp hk'
      have hha := h h₁ a ha
      have hhb := h h₂ b hb
      rw [heq] at hhb
      omega

/-- The keys of the feed are distinct exactly when those of each block are. -/
theorem nodup_feedSortables_iff : ((feedSortables db args fromHeight toHeight).map (·.sequence)).Nodup ↔
    ∀ height, fromHeight ≤ height → height < toHeight → KeysDistinct db args height := by
  rw [feedSortables, nodup_flatMap_range _ fun height s hs => (sequence_of_mem_blockSortables hs).1]
  simp only [nodup_blockSortables_iff]

/-- The cursor filter on the items of a block at or above the cursor's own. -/
theorem filterCursorBlock_map_toOrdered {cursor : SequenceKey} {height : Int} {items : List SortableFeedItem}
    (h : ∀ s ∈ items, s.sequence.blockHeight = height ∧ s.sequence.Wide) (hle : cursor.blockHeight ≤ height) :
    filterCursorBlock (some cursor) height (items.map SortableFeedItem.toOrdered) =
      (items.filter (fun s => cursor < s.sequence)).map SortableFeedItem.toOrdered := by
  rw [filterCursorBlock]
  split_ifs with heq
  · exact retainAfter_map_toOrdered cursor fun s hs => (h s hs).2
  · have hall : items.filter (fun s => cursor < s.sequence) = items := by
      refine List.filter_eq_self.mpr fun s hs => decide_eq_true (lt_of_blockHeight_lt ?_)
      rw [(h s hs).1]
      omega
    rw [hall]

/-- The cursor filter on the first block of a range, seen over the whole range. -/
theorem flatMap_filterCursorBlock (cursor : SequenceKey) (toHeight : Int) :
    (Int.range cursor.blockHeight toHeight).flatMap
        (fun height => filterCursorBlock (some cursor) height (blockItems db args height)) =
      ((feedSortables db args cursor.blockHeight toHeight).filter (fun s => cursor < s.sequence)).map
        SortableFeedItem.toOrdered := by
  rw [feedSortables, Relational.filter_flatMap, List.map_flatMap]
  refine List.flatMap_congr fun height hmem => ?_
  rw [blockItems_eq]
  exact filterCursorBlock_map_toOrdered (fun s hs => sequence_of_mem_blockSortables hs) (Int.mem_range_iff.mp hmem).1

end Feed

/-! ## Following `nextHeight` -/

/-- Request number `k` of a client, against the snapshot of its time and with a limit of its own. -/
def fetchPage (limitBlocksMax : Nat) (dbs : Nat → Database) (query : FeedQuery) (limits : Nat → Option Int) (k : Nat)
    (position : Position) : Except AppError FeedResponse :=
  getFeed limitBlocksMax (dbs k) (query.startingAt (limits k) position)

/-- Continue at `nextHeight`. -/
def byHeight (response : FeedResponse) : Option Position := response.nextHeight.map .height

/-- Continue after `nextCursor`. -/
def byCursor (response : FeedResponse) : Option Position := response.nextCursor.map .cursor

/-- How many heights a position leaves to fetch. -/
def Position.heightsLeft (readyHeight : Int) : Position → Nat
  | .height fromHeight => (readyHeight + 1 - fromHeight).toNat
  | .cursor _ => 0

/-- A client whose pages name greater and greater heights, up to the ready height, comes to an end. -/
theorem exists_pages_byHeight {fetch : Nat → Position → Except AppError FeedResponse} {readyHeight : Int}
    (hfetch : ∀ k fromHeight, 0 ≤ fromHeight → fromHeight ≤ readyHeight →
      ∃ response, fetch k (.height fromHeight) = .ok response ∧ ∀ position, byHeight response = some position →
        ∃ nextHeight, position = .height nextHeight ∧ fromHeight < nextHeight ∧ nextHeight ≤ readyHeight)
    {k : Nat} {fromHeight : Int} (h0 : 0 ≤ fromHeight) (hle : fromHeight ≤ readyHeight) :
    ∃ visited, Pages fetch byHeight k (.height fromHeight) visited := by
  refine exists_pages (fun position => ∃ f, position = .height f ∧ 0 ≤ f ∧ f ≤ readyHeight)
    (Position.heightsLeft readyHeight) ?_ ⟨fromHeight, rfl, h0, hle⟩
  rintro k _ ⟨f, rfl, hf0, hfle⟩
  obtain ⟨response, hok, hnext⟩ := hfetch k f hf0 hfle
  refine ⟨response, hok, fun position hposition => ?_⟩
  obtain ⟨f', rfl, hlt, hle'⟩ := hnext position hposition
  refine ⟨⟨f', rfl, by omega, hle'⟩, ?_⟩
  rw [Position.heightsLeft, Position.heightsLeft]
  omega

/-- A response contains a control item. -/
def FeedResponse.HasControl (response : FeedResponse) : Prop :=
  ∃ bundle ∈ response.blocks, ∃ item ∈ bundle.items, ∃ event, item.item = .control event

def FeedItem.controlEvent : FeedItem → Option ControlEvent
  | .control event => some event
  | _ => none

theorem FeedItem.controlEvent_isSome_iff (item : FeedItem) :
    item.controlEvent.isSome ↔ ∃ event, item = .control event := by
  cases item <;> simp [FeedItem.controlEvent]

instance (response : FeedResponse) : Decidable response.HasControl :=
  decidable_of_iff (∃ bundle ∈ response.blocks, ∃ item ∈ bundle.items, item.item.controlEvent.isSome = true) (by
    simp only [FeedItem.controlEvent_isSome_iff]
    rfl)

def bundlesOf (visited : List (Position × FeedResponse)) : List BlockBundle := (responses visited).flatMap (·.blocks)

def itemsOf (visited : List (Position × FeedResponse)) : List OrderedFeedItem := (bundlesOf visited).flatMap (·.items)

@[simp] theorem bundlesOf_cons (p : Position × FeedResponse) (visited : List (Position × FeedResponse)) :
    bundlesOf (p :: visited) = p.2.blocks ++ bundlesOf visited := rfl

@[simp] theorem bundlesOf_nil : bundlesOf [] = [] := rfl

theorem itemsOf_cons (p : Position × FeedResponse) (visited : List (Position × FeedResponse)) :
    itemsOf (p :: visited) = p.2.blocks.flatMap (·.items) ++ itemsOf visited := by
  rw [itemsOf, bundlesOf_cons, List.flatMap_append, itemsOf]

theorem pageBundles_append (db : Database) (args : AssemblyArgs) {fromHeight middle toHeight : Int}
    (h : fromHeight ≤ middle + 1) (h' : middle ≤ toHeight) :
    pageBundles db args none fromHeight middle ++ pageBundles db args none (middle + 1) toHeight =
      pageBundles db args none fromHeight toHeight := by
  rw [pageBundles, pageBundles, ← List.filterMap_append, IntRange.range_append h (by omega), pageBundles]

section Chain
variable {db : Database} {query : FeedQuery} {args : AssemblyArgs} {readyHeight : Int} (limitBlocksMax : Nat)
  (limits : Nat → Option Int) (hserved : Served db query args readyHeight) (hchain : db.ChainUpTo readyHeight)
include hserved hchain

theorem fetchPage_height (k : Nat) {fromHeight : Int} (h0 : 0 ≤ fromHeight) (hle : fromHeight ≤ readyHeight) :
    ∃ response, fetchPage limitBlocksMax (fun _ => db) query limits k (.height fromHeight) = .ok response ∧
      PageSpec db args readyHeight none fromHeight
        (pageEnd fromHeight (clampLimit limitBlocksMax (limits k)) readyHeight) response :=
  ⟨_, getFeed_height limitBlocksMax hserved (limits k) h0,
    page_chain hchain none h0 hle (one_le_clampLimit limitBlocksMax (limits k))⟩

theorem fetchPage_cursor (k : Nat) {cursor : SequenceKey} (hwide : cursor.Wide) (h0 : 0 ≤ cursor.blockHeight)
    (hle : cursor.blockHeight ≤ readyHeight) :
    ∃ response, fetchPage limitBlocksMax (fun _ => db) query limits k (.cursor cursor.toCursor) = .ok response ∧
      PageSpec db args readyHeight (some cursor) cursor.blockHeight
        (pageEnd cursor.blockHeight (clampLimit limitBlocksMax (limits k)) readyHeight) response :=
  ⟨_, getFeed_cursor limitBlocksMax hserved (limits k) hwide h0,
    page_chain hchain (some cursor) h0 hle (one_le_clampLimit limitBlocksMax (limits k))⟩

omit hserved hchain in
theorem PageSpec.byHeight_eq_none {fromCursor : Option SequenceKey} {fromHeight toHeight : Int}
    {response : FeedResponse} (h : PageSpec db args readyHeight fromCursor fromHeight toHeight response)
    (hnext : byHeight response = none) : toHeight = readyHeight := by
  have hnone := Option.map_eq_none_iff.mp hnext
  rw [h.nextHeight] at hnone
  have := h.le_ready
  split_ifs at hnone
  omega

omit hserved hchain in
theorem PageSpec.byHeight_eq_some {fromCursor : Option SequenceKey} {fromHeight toHeight : Int}
    {response : FeedResponse} (h : PageSpec db args readyHeight fromCursor fromHeight toHeight response)
    {position : Position} (hnext : byHeight response = some position) :
    toHeight < readyHeight ∧ position = .height (toHeight + 1) := by
  obtain ⟨n, hn, rfl⟩ := Option.map_eq_some_iff.mp hnext
  rw [h.nextHeight] at hn
  split_ifs at hn with hlt
  exact ⟨hlt, by rw [Option.some.inj hn]⟩

/-- **The pages of a client that follows `nextHeight`** are together the bundles of all heights from its start. -/
theorem bundlesOf_heightPages {k : Nat} {fromHeight : Int} (h0 : 0 ≤ fromHeight) (hle : fromHeight ≤ readyHeight)
    {visited : List (Position × FeedResponse)}
    (h : Pages (fetchPage limitBlocksMax (fun _ => db) query limits) byHeight k (.height fromHeight) visited) :
    bundlesOf visited = pageBundles db args none fromHeight readyHeight := by
  generalize hposition : Position.height fromHeight = position at h
  induction h generalizing fromHeight with
  | @last k position response hok hnext =>
    subst hposition
    obtain ⟨_, hok', hspec⟩ := fetchPage_height limitBlocksMax limits hserved hchain k h0 hle
    obtain rfl := Except.ok.inj (hok.symm.trans hok')
    rw [bundlesOf_cons, hspec.blocks, hspec.byHeight_eq_none hnext, bundlesOf_nil, List.append_nil]
  | @more k position position' response visited hok hnext _ ih =>
    subst hposition
    obtain ⟨_, hok', hspec⟩ := fetchPage_height limitBlocksMax limits hserved hchain k h0 hle
    obtain rfl := Except.ok.inj (hok.symm.trans hok')
    obtain ⟨hlt, rfl⟩ := hspec.byHeight_eq_some hnext
    have hlo := hspec.from_le
    rw [bundlesOf_cons, hspec.blocks, ih (by omega) (by omega) rfl, pageBundles_append db args (by omega) hlt.le]

theorem exists_heightPages (k : Nat) {fromHeight : Int} (h0 : 0 ≤ fromHeight) (hle : fromHeight ≤ readyHeight) :
    ∃ visited, Pages (fetchPage limitBlocksMax (fun _ => db) query limits) byHeight k (.height fromHeight) visited := by
  refine exists_pages_byHeight (fun k f hf0 hfle => ?_) h0 hle
  obtain ⟨response, hok, hspec⟩ := fetchPage_height limitBlocksMax limits hserved hchain k hf0 hfle
  refine ⟨response, hok, fun position hposition => ?_⟩
  obtain ⟨hlt, rfl⟩ := hspec.byHeight_eq_some hposition
  have hlo := hspec.from_le
  exact ⟨_, rfl, by omega, by omega⟩

theorem heightPages_page {k : Nat} {fromHeight : Int} (h0 : 0 ≤ fromHeight) (hle : fromHeight ≤ readyHeight)
    {visited : List (Position × FeedResponse)}
    (h : Pages (fetchPage limitBlocksMax (fun _ => db) query limits) byHeight k (.height fromHeight) visited)
    {i : Nat} {position : Position} {response : FeedResponse} (hi : visited[i]? = some (position, response)) :
    ∃ start, position = .height start ∧ 0 ≤ start ∧ PageSpec db args readyHeight none start
      (pageEnd start (clampLimit limitBlocksMax (limits (k + i))) readyHeight) response := by
  generalize hposition : Position.height fromHeight = start at h
  induction h generalizing fromHeight i with
  | @last k start response' hok hnext =>
    subst hposition
    obtain ⟨_, hok', hspec⟩ := fetchPage_height limitBlocksMax limits hserved hchain k h0 hle
    obtain rfl := Except.ok.inj (hok.symm.trans hok')
    cases i with
    | zero =>
      obtain ⟨rfl, rfl⟩ := Prod.mk.inj (Option.some.inj hi)
      exact ⟨fromHeight, rfl, h0, hspec⟩
    | succ i => cases hi
  | @more k start position' response' visited hok hnext _ ih =>
    subst hposition
    obtain ⟨_, hok', hspec⟩ := fetchPage_height limitBlocksMax limits hserved hchain k h0 hle
    obtain rfl := Except.ok.inj (hok.symm.trans hok')
    cases i with
    | zero =>
      obtain ⟨rfl, rfl⟩ := Prod.mk.inj (Option.some.inj hi)
      exact ⟨fromHeight, rfl, h0, hspec⟩
    | succ i =>
      obtain ⟨hlt, rfl⟩ := hspec.byHeight_eq_some hnext
      have hlo := hspec.from_le
      have hk : k + (i + 1) = k + 1 + i := by omega
      rw [hk]
      exact ih (by omega) (by omega) hi rfl

end Chain

/-! ## Items of a page -/

theorem not_control_of_mem_blockSortables {db : Database} {args : AssemblyArgs} {height : Int} {s : SortableFeedItem}
    (h : s ∈ blockSortables db args height) (event : ControlEvent) : s.item ≠ .control event := by
  rcases WindowRows.mem_assembleItems.mp h with h | h | h | h | h
  all_goals
    obtain ⟨row, -, rfl⟩ := List.mem_map.mp h
    exact fun heq => FeedItem.noConfusion heq

theorem mem_retainAfter {cursor : SequenceKey} {items : List OrderedFeedItem} {item : OrderedFeedItem}
    (h : item ∈ retainAfter cursor items) : item ∈ items := List.mem_of_mem_filter h

theorem mem_filterCursorBlock {fromCursor : Option SequenceKey} {height : Int} {items : List OrderedFeedItem}
    {item : OrderedFeedItem} (h : item ∈ filterCursorBlock fromCursor height items) : item ∈ items := by
  unfold filterCursorBlock at h
  cases fromCursor with
  | none => exact h
  | some cursor =>
    dsimp only at h
    split_ifs at h
    · exact mem_retainAfter h
    · exact h

theorem not_control_of_mem_pageBundles {db : Database} {args : AssemblyArgs} {fromCursor : Option SequenceKey}
    {fromHeight toHeight : Int} {bundle : BlockBundle} (h : bundle ∈ pageBundles db args fromCursor fromHeight toHeight)
    {item : OrderedFeedItem} (hitem : item ∈ bundle.items) (event : ControlEvent) : item.item ≠ .control event := by
  obtain ⟨height, -, hbundle⟩ := List.mem_filterMap.mp h
  obtain ⟨blockMeta, -, hsome⟩ := Option.bind_eq_some_iff.mp hbundle
  dsimp only at hsome
  split_ifs at hsome
  obtain rfl := Option.some.inj hsome
  have hmem := mem_filterCursorBlock hitem
  rw [blockItems_eq] at hmem
  obtain ⟨s, hs, rfl⟩ := List.mem_map.mp hmem
  exact not_control_of_mem_blockSortables hs event

theorem mem_pageBundles_height {db : Database} {args : AssemblyArgs} {fromCursor : Option SequenceKey}
    {fromHeight toHeight : Int} {bundle : BlockBundle}
    (h : bundle ∈ pageBundles db args fromCursor fromHeight toHeight) :
    fromHeight ≤ bundle.blockMeta.height ∧ bundle.blockMeta.height ≤ toHeight := by
  obtain ⟨height, hmem, hbundle⟩ := List.mem_filterMap.mp h
  obtain ⟨hlo, hhi⟩ := Int.mem_range_iff.mp hmem
  rw [bundleAt_height hbundle]
  omega

theorem flatMap_items_pageBundles {db : Database} {args : AssemblyArgs} {top : Int} (hchain : db.ChainUpTo top)
    {fromHeight toHeight : Int} (h0 : 0 ≤ fromHeight) (hle : toHeight ≤ top) :
    (pageBundles db args none fromHeight toHeight).flatMap (·.items) = feedItems db args fromHeight (toHeight + 1) := by
  rw [pageBundles, flatMap_items_filterMap hchain none]
  · rfl
  · intro height hmem
    obtain ⟨hlo, hhi⟩ := Int.mem_range_iff.mp hmem
    omega

theorem map_parseCursor_feedItems (db : Database) (args : AssemblyArgs) (fromHeight toHeight : Int) :
    (feedItems db args fromHeight toHeight).map (fun item => parseCursor item.sequence) =
      ((feedSortables db args fromHeight toHeight).map (·.sequence)).map .ok := by
  rw [feedItems_eq_map, List.map_map, List.map_map]
  exact List.map_congr_left fun s hs => parseCursor_toCursor (wide_of_mem_feedSortables hs)

/-- **Height pagination is exact.** Over a chain, following `nextHeight` from any height with any sequence of limits
comes to an end, meets no control item, covers at most the clamped limit of heights with each page, and delivers the
non-empty item lists of the blocks up to the ready height, each once and in order, with non-decreasing keys. -/
theorem heightPages_of_chain (limitBlocksMax : Nat) {db : Database} {query : FeedQuery} {args : AssemblyArgs}
    {readyHeight : Int} (hserved : Served db query args readyHeight) (hchain : db.ChainUpTo readyHeight)
    (limits : Nat → Option Int) {fromHeight : Int} (h0 : 0 ≤ fromHeight) (hle : fromHeight ≤ readyHeight) :
    ∃ visited, Pages (fetchPage limitBlocksMax (fun _ => db) query limits) byHeight 0 (.height fromHeight) visited ∧
      (∀ response ∈ responses visited, ¬ response.HasControl) ∧
      (∀ (k : Nat) position response, visited[k]? = some (position, response) → ∃ start,
        position = .height start ∧
        (∀ bundle ∈ response.blocks, start ≤ bundle.blockMeta.height ∧
          bundle.blockMeta.height < start + clampLimit limitBlocksMax (limits k)) ∧
        ∀ next ∈ response.nextHeight, start < next ∧ next ≤ start + clampLimit limitBlocksMax (limits k)) ∧
      bundlesOf visited = (Int.range fromHeight (readyHeight + 1)).filterMap (bundleAt db args none) ∧
      ∃ keys : List SequenceKey, (itemsOf visited).map (fun item => parseCursor item.sequence) = keys.map .ok ∧
        keys.Pairwise (· ≤ ·) := by
  obtain ⟨visited, hpages⟩ := exists_heightPages limitBlocksMax limits hserved hchain 0 h0 hle
  have hbundles := bundlesOf_heightPages limitBlocksMax limits hserved hchain h0 hle hpages
  refine ⟨visited, hpages, ?_, ?_, hbundles,
    (feedSortables db args fromHeight (readyHeight + 1)).map (·.sequence), ?_, ?_⟩
  · rintro response hmem ⟨bundle, hbundle, item, hitem, event, hcontrol⟩
    have hmem' : bundle ∈ bundlesOf visited := List.mem_flatMap.mpr ⟨response, hmem, hbundle⟩
    rw [hbundles] at hmem'
    exact not_control_of_mem_pageBundles hmem' hitem event hcontrol
  · intro k position response hk
    obtain ⟨start, hstart, -, hspec⟩ := heightPages_page limitBlocksMax limits hserved hchain h0 hle hpages hk
    rw [Nat.zero_add] at hspec
    have hlo := hspec.from_le
    have hlimit : pageEnd start (clampLimit limitBlocksMax (limits k)) readyHeight ≤
      start + clampLimit limitBlocksMax (limits k) - 1 := min_le_left _ _
    refine ⟨start, hstart, fun bundle hbundle => ?_, fun next hmem => ?_⟩
    · rw [hspec.blocks] at hbundle
      obtain ⟨hb, hb'⟩ := mem_pageBundles_height hbundle
      omega
    · rw [hspec.nextHeight] at hmem
      split_ifs at hmem with hlt
      · obtain rfl := Option.some.inj hmem
        omega
      · cases hmem
  · rw [itemsOf, hbundles, flatMap_items_pageBundles hchain h0 le_rfl, map_parseCursor_feedItems]
  · exact List.pairwise_map.mpr (pairwise_feedSortables db args fromHeight (readyHeight + 1))

theorem Sample.served {db : Database} {readyHeight : Int}
    (hargs : resolveArgs db query sessionId = .ok args) (hready : WalletReady db sessionId readyHeight) :
    Served db query args readyHeight :=
  ⟨⟨sessionId, parseSessionId_hexEncode (by decide), hargs⟩, hready⟩

/-- Two pages of one block each; the second block has no items. -/
theorem heightPages_longChain : ∃ visited,
    Pages (fetchPage 100 (fun _ => Sample.longChain) Sample.query (fun _ => some 1)) byHeight 0 (.height 0) visited ∧
      (bundlesOf visited).map (fun bundle => (bundle.blockMeta.height, bundle.items.map (·.sequence))) =
        [(0, ["0:1:2:1"])] := by
  obtain ⟨visited, hpages, -, -, hbundles, -⟩ := heightPages_of_chain 100 (Sample.served rfl (by decide))
    (by decide : Sample.longChain.ChainUpTo 1) (fun _ => some 1) le_rfl (by decide)
  refine ⟨visited, hpages, ?_⟩
  rw [hbundles]
  decide

end NocyWalletFeed
