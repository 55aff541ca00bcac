import NocyWalletFeed.Pages

/-!
# Resuming the feed from a cursor

* `itemsOf_resume` : a client that resumes from a cursor and follows `nextHeight` gets the items above the cursor;
* `resumeExact_iff` : resuming from every item is exact just when no two items of a block share a key;
* `IsLastKey`, `CursorReach` : a client that follows `nextCursor` stops at the first window without new items;
* `cursorPages_complete_iff` : when such a client has received the whole feed.
-/

namespace NocyWalletFeed
open Codec OrderBy Pager

/-! ## Resuming by height -/

section Resume
variable {db : Database} {query : FeedQuery} {args : AssemblyArgs} {readyHeight : Int} (limitBlocksMax : Nat)
  (limits : Nat → Option Int)

/-- Above the cursor's own block the cursor filter does nothing. -/
theorem pageBundles_cursor_append {cursor : SequenceKey} {middle toHeight : Int} (h : cursor.blockHeight ≤ middle)
    (h' : middle ≤ toHeight) : pageBundles db args (some cursor) cursor.blockHeight middle ++
      pageBundles db args none (middle + 1) toHeight =
        pageBundles db args (some cursor) cursor.blockHeight toHeight := by
  have hrest : pageBundles db args none (middle + 1) toHeight =
      (Int.range (middle + 1) (toHeight + 1)).filterMap (bundleAt db args (some cursor)) := by
    refine List.filterMap_congr fun height hmem => ?_
    have hne : ¬ cursor.blockHeight = height := by
      have := (Int.mem_range_iff.mp hmem).1
      omega
    have hfilter : filterCursorBlock (some cursor) height (blockItems db args height) =
        filterCursorBlock none height (blockItems db args height) := if_neg hne
    rw [bundleAt, bundleAt, hfilter]
  rw [hrest, pageBundles, ← List.filterMap_append, IntRange.range_append (by omega) (by omega), pageBundles]

variable (hserved : Served db query args readyHeight) (hchain : db.ChainUpTo readyHeight)
include hserved hchain

theorem bundlesOf_resume {k : Nat} {cursor : SequenceKey} (hwide : cursor.Wide) (h0 : 0 ≤ cursor.blockHeight)
    (hle : cursor.blockHeight ≤ readyHeight) {visited : List (Position × FeedResponse)}
    (h : Pages (fetchPage limitBlocksMax (fun _ => db) query limits) byHeight k (.cursor cursor.toCursor) visited) :
    bundlesOf visited = pageBundles db args (some cursor) cursor.blockHeight readyHeight := by
  obtain ⟨_, hok', hspec⟩ := fetchPage_cursor limitBlocksMax limits hserved hchain k hwide h0 hle
  cases h with
  | last hok hnext =>
    obtain rfl := Except.ok.inj (hok.symm.trans hok')
    rw [bundlesOf_cons, hspec.blocks, hspec.byHeight_eq_none hnext, bundlesOf_nil, List.append_nil]
  | more hok hnext rest =>
    obtain rfl := Except.ok.inj (hok.symm.trans hok')
    obtain ⟨hlt, rfl⟩ := hspec.byHeight_eq_some hnext
    have hlo := hspec.from_le
    rw [bundlesOf_cons, hspec.blocks,
      bundlesOf_heightPages limitBlocksMax limits hserved hchain (by omega) (by omega) rest,
      pageBundles_cursor_append hlo hlt.le]

theorem exists_resumePages (k : Nat) {cursor : SequenceKey} (hwide : cursor.Wide) (h0 : 0 ≤ cursor.blockHeight)
    (hle : cursor.blockHeight ≤ readyHeight) : ∃ visited,
      Pages (fetchPage limitBlocksMax (fun _ => db) query limits) byHeight k (.cursor cursor.toCursor) visited := by
  obtain ⟨response, hok, hspec⟩ := fetchPage_cursor limitBlocksMax limits hserved hchain k hwide h0 hle
  cases hnext : byHeight response with
  | none => exact ⟨_, .last hok hnext⟩
  | some position =>
    obtain ⟨hlt, rfl⟩ := hspec.byHeight_eq_some hnext
    have hlo := hspec.from_le
    obtain ⟨visited, hrest⟩ := exists_heightPages limitBlocksMax limits hserved hchain (k + 1)
      (by omega : 0 ≤ pageEnd cursor.blockHeight (clampLimit limitBlocksMax (limits k)) readyHeight + 1) (by omega)
    exact ⟨_, .more hok hnext hrest⟩

omit hserved in
/-- The items of the blocks from a cursor's own on, after the cursor filter, are those of the feed above the cursor. -/
theorem flatMap_items_cursor {cursor : SequenceKey} (h0 : 0 ≤ cursor.blockHeight)
    (hle : cursor.blockHeight ≤ readyHeight + 1) :
    (pageBundles db args (some cursor) cursor.blockHeight readyHeight).flatMap (·.items) =
      ((feedSortables db args 0 (readyHeight + 1)).filter (fun s => cursor < s.sequence)).map
        SortableFeedItem.toOrdered := by
  have hbelow : (feedSortables db args 0 cursor.blockHeight).filter (fun s => cursor < s.sequence) = [] := by
    refine List.filter_eq_nil_iff.mpr fun s hs => ?_
    have hlt := lt_of_blockHeight_lt (mem_feedSortables.mp hs).2.1
    simpa using hlt.le
  have hsplit : feedSortables db args 0 (readyHeight + 1) =
      feedSortables db args 0 cursor.blockHeight ++ feedSortables db args cursor.blockHeight (readyHeight + 1) := by
    rw [feedSortables, ← IntRange.range_append h0 hle, List.flatMap_append]
    rfl
  rw [hsplit, List.filter_append, hbelow, List.nil_append, ← flatMap_filterCursorBlock, pageBundles,
    flatMap_items_filterMap hchain (some cursor)]
  intro height hmem
  obtain ⟨hlo, hhi⟩ := Int.mem_range_iff.mp hmem
  omega

/-- **Resuming.** A client that resumes from a cursor gets the items of the feed above it. -/
theorem itemsOf_resume {k : Nat} {cursor : SequenceKey} (hwide : cursor.Wide) (h0 : 0 ≤ cursor.blockHeight)
    (hle : cursor.blockHeight ≤ readyHeight) {visited : List (Position × FeedResponse)}
    (h : Pages (fetchPage limitBlocksMax (fun _ => db) query limits) byHeight k (.cursor cursor.toCursor) visited) :
    itemsOf visited = ((feedSortables db args 0 (readyHeight + 1)).filter (fun s => cursor < s.sequence)).map
      SortableFeedItem.toOrdered := by
  rw [itemsOf, bundlesOf_resume limitBlocksMax limits hserved hchain hwide h0 hle h,
    flatMap_items_cursor hchain h0 (by omega)]

end Resume

/-! ## Exact resumption -/

/-- Requesting the feed after any of its items, and following `nextHeight`, delivers the items that come after it. -/
def ResumeExact (limitBlocksMax : Nat) (db : Database) (query : FeedQuery) (args : AssemblyArgs) (readyHeight : Int) :
    Prop :=
  ∀ (limits : Nat → Option Int) pre item post, feedItems db args 0 (readyHeight + 1) = pre ++ item :: post →
    ∃ visited, Pages (fetchPage limitBlocksMax (fun _ => db) query limits) byHeight 0 (.cursor item.sequence) visited ∧
      itemsOf visited = post

theorem eq_of_map_toOrdered {l l' : List SortableFeedItem} (h : ∀ s ∈ l, s.sequence.Wide)
    (h' : ∀ s ∈ l', s.sequence.Wide) (heq : l.map SortableFeedItem.toOrdered = l'.map SortableFeedItem.toOrdered) :
    l = l' := by
  have hdecode : ∀ {l : List SortableFeedItem}, (∀ s ∈ l, s.sequence.Wide) →
      (l.map SortableFeedItem.toOrdered).map (fun o => (parseCursor o.sequence, o.item)) =
        l.map (fun s => (Except.ok s.sequence, s.item)) := by
    intro l hl
    rw [List.map_map]
    exact List.map_congr_left fun s hs => Prod.ext (parseCursor_toCursor (hl s hs)) rfl
  have hinj : Function.Injective (fun s : SortableFeedItem => ((Except.ok s.sequence : Except String _), s.item)) := by
    rintro ⟨k, i⟩ ⟨k', i'⟩ hp
    obtain ⟨hk, hi⟩ := Prod.mk.inj hp
    rw [SortableFeedItem.mk.injEq]
    exact ⟨Except.ok.inj hk, hi⟩
  refine List.map_injective_iff.mpr hinj ?_
  rw [← hdecode h, heq, hdecode h']

section Exact
variable {db : Database} {query : FeedQuery} {args : AssemblyArgs} {readyHeight : Int} (limitBlocksMax : Nat)
  (hserved : Served db query args readyHeight) (hchain : db.ChainUpTo readyHeight)
include hserved hchain

/-- Resuming from every item is exact when the items above each one are those that follow it. -/
theorem resumeExact_iff_filter : ResumeExact limitBlocksMax db query args readyHeight ↔
    ∀ pre s post, feedSortables db args 0 (readyHeight + 1) = pre ++ s :: post →
      (feedSortables db args 0 (readyHeight + 1)).filter (fun t => s.sequence < t.sequence) = post := by
  have hresume : ∀ {s}, s ∈ feedSortables db args 0 (readyHeight + 1) → ∀ limits : Nat → Option Int, ∃ visited,
      Pages (fetchPage limitBlocksMax (fun _ => db) query limits) byHeight 0 (.cursor s.sequence.toCursor) visited ∧
        itemsOf visited = ((feedSortables db args 0 (readyHeight + 1)).filter
          (fun t => s.sequence < t.sequence)).map SortableFeedItem.toOrdered := by
    intro s hs limits
    have hwide := wide_of_mem_feedSortables hs
    obtain ⟨hlo, hhi, -⟩ := mem_feedSortables.mp hs
    obtain ⟨visited, hpages⟩ := exists_resumePages limitBlocksMax limits hserved hchain 0 hwide hlo (by omega)
    exact ⟨visited, hpages, itemsOf_resume limitBlocksMax limits hserved hchain hwide hlo (by omega) hpages⟩
  have hwides : ∀ {l}, l ⊆ feedSortables db args 0 (readyHeight + 1) → ∀ s ∈ l, s.sequence.Wide :=
    fun hsub s hs => wide_of_mem_feedSortables (hsub hs)
  constructor
  · intro hexact pre s post heq
    have hsplit : feedItems db args 0 (readyHeight + 1) =
        pre.map SortableFeedItem.toOrdered ++ s.toOrdered :: post.map SortableFeedItem.toOrdered := by
      rw [feedItems_eq_map, heq, List.map_append, List.map_cons]
    obtain ⟨visited, hpages, hitems⟩ := hexact (fun _ => none) _ _ _ hsplit
    obtain ⟨visited', hpages', hitems'⟩ := hresume (by rw [heq]; simp : s ∈ _) (fun _ => none)
    obtain rfl := hpages.unique hpages'
    refine eq_of_map_toOrdered (hwides (List.filter_subset_self _)) (hwides ?_) (hitems'.symm.trans hitems)
    rw [heq]
    exact fun t ht => List.mem_append_right _ (List.mem_cons_of_mem _ ht)
  · intro hfilter limits pre item post heq
    rw [feedItems_eq_map] at heq
    obtain ⟨pre', rest, hfeed, rfl, hrest⟩ := List.map_eq_append_iff.mp heq
    obtain ⟨s, post', rfl, rfl, rfl⟩ := List.map_eq_cons_iff.mp hrest
    obtain ⟨visited, hpages, hitems⟩ := hresume (by rw [hfeed]; simp : s ∈ _) limits
    exact ⟨visited, hpages, by rw [hitems, hfilter pre' s post' hfeed]⟩

/-- **Resuming from any item is exact just when no block holds two items with one key**: no transaction is listed twice
for the wallet, and no UTXO of a registered address is created and spent by one transaction. -/
theorem resumeExact_iff : ResumeExact limitBlocksMax db query args readyHeight ↔
    ∀ height, 0 ≤ height → height ≤ readyHeight → RelevantOnce db args.upstreamSessionId height ∧
      ¬ CreatedAndSpent db args.localSessionId height := by
  refine (resumeExact_iff_filter limitBlocksMax hserved hchain).trans
    ((filter_lt_eq_iff_nodup SortableFeedItem.sequence (pairwise_feedSortables db args 0 (readyHeight + 1))).trans
      (nodup_feedSortables_iff.trans ?_))
  constructor
  · exact fun h height hlo hhi => h height hlo (by omega)
  · exact fun h height hlo hhi => h height hlo (by omega)

end Exact

/-- Without such a block, the feed resumes after each of its items. -/
theorem resumeExact_longChain : ResumeExact 100 Sample.longChain Sample.query Sample.args 1 :=
  (resumeExact_iff 100 (Sample.served rfl (by decide)) (by decide)).mpr (by decide)

/-- The create and the spend of a UTXO in one transaction share a key: resuming after the create loses the spend. -/
theorem not_resumeExact_sameTxSpend : Served Sample.sameTxSpend Sample.query Sample.args 0 ∧
    Sample.sameTxSpend.ChainUpTo 0 ∧ ¬ ResumeExact 100 Sample.sameTxSpend Sample.query Sample.args 0 := by
  have hserved : Served Sample.sameTxSpend Sample.query Sample.args 0 := Sample.served rfl (by decide)
  have hchain : Sample.sameTxSpend.ChainUpTo 0 := by decide
  refine ⟨hserved, hchain, fun hexact => ?_⟩
  have hfilter := (resumeExact_iff_filter 100 hserved hchain).mp hexact []
    ((feedSortables Sample.sameTxSpend Sample.args 0 1).get ⟨0, by decide⟩)
    (feedSortables Sample.sameTxSpend Sample.args 0 1).tail (by decide)
  exact absurd hfilter (by decide)

/-! ## Following `nextCursor` -/

section Cursor
variable {db : Database} {query : FeedQuery} {args : AssemblyArgs} {readyHeight : Int}

def IsLastKey (db : Database) (args : AssemblyArgs) (height : Int) (key : SequenceKey) : Prop :=
  ∃ s, (blockSortables db args height).getLast? = some s ∧ s.sequence = key

theorem IsLastKey.mem {height : Int} {key : SequenceKey} (h : IsLastKey db args height key) :
    ∃ s ∈ blockSortables db args height, s.sequence = key := by
  obtain ⟨s, hs, hkey⟩ := h
  exact ⟨s, List.mem_of_getLast? hs, hkey⟩

theorem IsLastKey.blockHeight {height : Int} {key : SequenceKey} (h : IsLastKey db args height key) :
    key.blockHeight = height ∧ key.Wide := by
  obtain ⟨s, hs, rfl⟩ := h.mem
  exact sequence_of_mem_blockSortables hs

theorem IsLastKey.le {height : Int} {key : SequenceKey} (h : IsLastKey db args height key) {s : SortableFeedItem}
    (hs : s ∈ blockSortables db args height) : s.sequence ≤ key := by
  obtain ⟨last, hlast, rfl⟩ := h
  obtain ⟨init, hinit⟩ := List.getLast?_eq_some_iff.mp hlast
  have hsorted := pairwise_blockSortables db args height
  rw [hinit] at hs hsorted
  rcases List.mem_append.mp hs with hs | hs
  · exact (List.pairwise_append.mp hsorted).2.2 s hs last List.mem_cons_self
  · rw [List.mem_singleton.mp hs]

/-- After the last key of a block, the feed goes on with the next block. -/
theorem filter_after_lastKey {height toHeight : Int} {key : SequenceKey} (h : IsLastKey db args height key)
    (hlt : height < toHeight) : (feedSortables db args height toHeight).filter (fun s => key < s.sequence) =
      feedSortables db args (height + 1) toHeight := by
  have hblock : (blockSortables db args height).filter (fun s => key < s.sequence) = [] :=
    List.filter_eq_nil_iff.mpr fun s hs => by simpa using h.le hs
  have hrest : (feedSortables db args (height + 1) toHeight).filter (fun s => key < s.sequence) =
      feedSortables db args (height + 1) toHeight := by
    refine List.filter_eq_self.mpr fun s hs => decide_eq_true (lt_of_blockHeight_lt ?_)
    have := (mem_feedSortables.mp hs).1
    have := h.blockHeight.1
    omega
  rw [feedSortables, IntRange.range_cons hlt, List.flatMap_cons, List.filter_append, hblock, List.nil_append]
  exact hrest

theorem blockItems_ne_nil_iff {height : Int} : blockItems db args height ≠ [] ↔ HasRows db args height := by
  rw [← blockSortables_ne_nil_iff, blockItems_eq, ne_eq, List.map_eq_nil_iff]

/-- Where a range of the feed ends: nowhere, or with the last item of its last block that has items. -/
theorem feedItems_last (db : Database) (args : AssemblyArgs) (fromHeight toHeight : Int) :
    ((∀ height, fromHeight ≤ height → height < toHeight → ¬ HasRows db args height) ∧
        feedItems db args fromHeight toHeight = []) ∨
      ∃ last key, fromHeight ≤ last ∧ last < toHeight ∧ HasRows db args last ∧
        (∀ height, last < height → height < toHeight → ¬ HasRows db args height) ∧ IsLastKey db args last key ∧
        feedItems db args fromHeight toHeight = feedItems db args fromHeight (last + 1) ∧
        (feedItems db args fromHeight toHeight).getLast?.map (·.sequence) = some key.toCursor := by
  obtain ⟨n, hn⟩ : ∃ n : Nat, (toHeight - fromHeight).toNat = n := ⟨_, rfl⟩
  induction n generalizing toHeight with
  | zero =>
    refine Or.inl ⟨fun height hlo hhi => by omega, ?_⟩
    rw [feedItems, IntRange.range_eq_nil (by omega)]
    rfl
  | succ n ih =>
    obtain ⟨top, rfl⟩ : ∃ top, toHeight = top + 1 := ⟨toHeight - 1, by omega⟩
    have hsnoc : feedItems db args fromHeight (top + 1) =
        feedItems db args fromHeight top ++ blockItems db args top := by
      rw [feedItems, IntRange.range_snoc (by omega), List.flatMap_append, List.flatMap_singleton]
      rfl
    by_cases hrows : HasRows db args top
    · obtain ⟨s, hs⟩ : ∃ s, (blockSortables db args top).getLast? = some s :=
        ⟨_, List.getLast?_eq_some_getLast (blockSortables_ne_nil_iff.mpr hrows)⟩
      refine Or.inr ⟨top, s.sequence, by omega, by omega, hrows, fun h hlo hhi => by omega, ⟨s, hs, rfl⟩, rfl, ?_⟩
      rw [hsnoc, List.getLast?_append, blockItems_eq, List.getLast?_map, hs]
      rfl
    · have hnil : blockItems db args top = [] := by
        by_contra hne
        exact hrows (blockItems_ne_nil_iff.mp hne)
      rw [hnil, List.append_nil] at hsnoc
      rcases ih top (by omega) with ⟨hnone, hempty⟩ | ⟨last, key, hlo, hhi, hlast, hnone, hkey, hitems, hcursor⟩
      · refine Or.inl ⟨fun height hlo hhi => ?_, hsnoc.trans hempty⟩
        rcases (by omega : height < top ∨ height = top) with hlt | rfl
        · exact hnone height hlo hlt
        · exact hrows
      · refine Or.inr ⟨last, key, hlo, by omega, hlast, fun height hlo' hhi' => ?_, hkey, hsnoc.trans hitems, ?_⟩
        · rcases (by omega : height < top ∨ height = top) with hlt | rfl
          · exact hnone height hlo' hlt
          · exact hrows
        · rw [hsnoc, hcursor]

/-- A client that has the items up to a block with items stops at `stop`: the windows on the way each held a block with
items, and the window from `stop` holds no further one. -/
structure CursorReach (db : Database) (args : AssemblyArgs) (limit readyHeight start stop : Int) : Prop where
  start_le : start ≤ stop
  le_ready : stop ≤ readyHeight
  hasRows : HasRows db args stop
  stuck : ∀ height, stop < height → height ≤ pageEnd stop limit readyHeight → ¬ HasRows db args height
  reached : ∀ height, start < height → height ≤ stop → HasRows db args height →
    ∃ below, start ≤ below ∧ below < height ∧ height < below + limit ∧ HasRows db args below

section Walk
variable (limitBlocksMax : Nat) (limits : Nat → Option Int) (hserved : Served db query args readyHeight)
  (hchain : db.ChainUpTo readyHeight)
include hserved hchain

theorem fetchPage_afterBlock (k : Nat) {block : Int} {key : SequenceKey} (hkey : IsLastKey db args block key)
    (h0 : 0 ≤ block) (hle : block ≤ readyHeight) :
    ∃ toHeight, toHeight = pageEnd block (clampLimit limitBlocksMax (limits k)) readyHeight ∧ block ≤ toHeight ∧
      toHeight ≤ readyHeight ∧ ∃ response,
        fetchPage limitBlocksMax (fun _ => db) query limits k (.cursor key.toCursor) = .ok response ∧
        response.blocks.flatMap (·.items) = feedItems db args (block + 1) (toHeight + 1) ∧
        response.nextCursor = (feedItems db args (block + 1) (toHeight + 1)).getLast?.map (·.sequence) := by
  obtain ⟨hblock, hwide⟩ := hkey.blockHeight
  subst hblock
  obtain ⟨response, hok, hspec⟩ := fetchPage_cursor limitBlocksMax limits hserved hchain k hwide h0 hle
  have hlo := hspec.from_le
  have hitems : (pageBundles db args (some key) key.blockHeight
      (pageEnd key.blockHeight (clampLimit limitBlocksMax (limits k)) readyHeight)).flatMap (·.items) =
      feedItems db args (key.blockHeight + 1)
        (pageEnd key.blockHeight (clampLimit limitBlocksMax (limits k)) readyHeight + 1) := by
    rw [pageBundles, flatMap_items_filterMap (hchain.mono hspec.le_ready) (some key), flatMap_filterCursorBlock,
      filter_after_lastKey hkey (by omega), feedItems_eq_map]
    intro height hmem
    obtain ⟨hmem, hmem'⟩ := Int.mem_range_iff.mp hmem
    omega
  refine ⟨_, rfl, hlo, hspec.le_ready, response, hok, ?_, ?_⟩
  · rw [hspec.blocks, hitems]
  · rw [hspec.nextCursor, hitems]

/-- Where a client that follows `nextCursor` from a block stops, and what it has received. -/
theorem cursorPages_afterBlock {limitBlocks : Option Int} {k : Nat} {block : Int} {key : SequenceKey}
    (hkey : IsLastKey db args block key) (hrows : HasRows db args block) (h0 : 0 ≤ block) (hle : block ≤ readyHeight)
    {visited : List (Position × FeedResponse)}
    (h : Pages (fetchPage limitBlocksMax (fun _ => db) query (fun _ => limitBlocks)) byCursor k
      (.cursor key.toCursor) visited) :
    ∃ stop, CursorReach db args (clampLimit limitBlocksMax limitBlocks) readyHeight block stop ∧
      itemsOf visited = feedItems db args (block + 1) (stop + 1) := by
  generalize hposition : Position.cursor key.toCursor = position at h
  induction h generalizing block key with
  | @last k position response hok hnext =>
    subst hposition
    obtain ⟨toHeight, htop, hlo, hhi, _, hok', hitems, hcursor⟩ :=
      fetchPage_afterBlock limitBlocksMax (fun _ => limitBlocks) hserved hchain k hkey h0 hle
    obtain rfl := Except.ok.inj (hok.symm.trans hok')
    have hnone := Option.map_eq_none_iff.mp hnext
    rcases feedItems_last db args (block + 1) (toHeight + 1) with ⟨hempty, hnil⟩ | ⟨_, _, _, _, _, _, _, _, hsome⟩
    · refine ⟨block, ⟨le_rfl, hle, hrows, ?_, fun height h₁ h₂ => by omega⟩, ?_⟩
      · rw [← htop]
        exact fun height h₁ h₂ => hempty height (by omega) (by omega)
      · rw [itemsOf_cons, hitems, hnil, feedItems, IntRange.range_eq_nil le_rfl]
        rfl
    · rw [hcursor, hsome] at hnone
      cases hnone
  | @more k position position' response visited hok hnext _ ih =>
    subst hposition
    obtain ⟨toHeight, htop, hlo, hhi, _, hok', hitems, hcursor⟩ :=
      fetchPage_afterBlock limitBlocksMax (fun _ => limitBlocks) hserved hchain k hkey h0 hle
    obtain rfl := Except.ok.inj (hok.symm.trans hok')
    obtain ⟨text, htext, rfl⟩ := Option.map_eq_some_iff.mp hnext
    rcases feedItems_last db args (block + 1) (toHeight + 1) with
      ⟨-, hnil⟩ | ⟨last, lastKey, hfrom, hto, hlast, -, hlastKey, hprefix, hsome⟩
    · rw [hcursor, hnil] at htext
      cases htext
    · rw [hcursor, hsome] at htext
      obtain ⟨stop, hreach, hrest⟩ := ih hlastKey hlast (by omega) (by omega) (congrArg _ (Option.some.inj htext))
      have hstart := hreach.start_le
      refine ⟨stop, ⟨by omega, hreach.le_ready, hreach.hasRows, hreach.stuck, fun height h₁ h₂ hheight => ?_⟩, ?_⟩
      · by_cases hwindow : height ≤ last
        · have : toHeight ≤ block + clampLimit limitBlocksMax limitBlocks - 1 := htop ▸ min_le_left _ _
          exact ⟨block, le_rfl, h₁, by omega, hrows⟩
        · obtain ⟨below, h₃, h₄, h₅, h₆⟩ := hreach.reached height (by omega) h₂ hheight
          exact ⟨below, by omega, h₄, h₅, h₆⟩
      · rw [itemsOf_cons, hitems, hprefix, hrest, feedItems_append db args (by omega) (by omega)]

theorem exists_cursorPages (limitBlocks : Option Int) (k : Nat) {block : Int} {key : SequenceKey}
    (hkey : IsLastKey db args block key) (h0 : 0 ≤ block) (hle : block ≤ readyHeight) :
    ∃ visited, Pages (fetchPage limitBlocksMax (fun _ => db) query (fun _ => limitBlocks)) byCursor k
      (.cursor key.toCursor) visited := by
  obtain ⟨n, hn⟩ : ∃ n : Nat, (readyHeight - block).toNat ≤ n := ⟨_, le_rfl⟩
  induction n generalizing k block key with
  | zero =>
    obtain ⟨toHeight, -, hlo, hhi, response, hok, -, hcursor⟩ :=
      fetchPage_afterBlock limitBlocksMax (fun _ => limitBlocks) hserved hchain k hkey h0 hle
    have hnil : feedItems db args (block + 1) (toHeight + 1) = [] := by
      rw [feedItems, IntRange.range_eq_nil (by omega)]
      rfl
    rw [hnil] at hcursor
    exact ⟨_, .last hok (by rw [byCursor, hcursor]; rfl)⟩
  | succ n ih =>
    obtain ⟨toHeight, -, hlo, hhi, response, hok, -, hcursor⟩ :=
      fetchPage_afterBlock limitBlocksMax (fun _ => limitBlocks) hserved hchain k hkey h0 hle
    rcases feedItems_last db args (block + 1) (toHeight + 1) with
      ⟨-, hnil⟩ | ⟨last, lastKey, hfrom, hto, -, -, hlastKey, -, hsome⟩
    · rw [hnil] at hcursor
      exact ⟨_, .last hok (by rw [byCursor, hcursor]; rfl)⟩
    · rw [hsome] at hcursor
      obtain ⟨visited, hrest⟩ := ih (k + 1) hlastKey (by omega) (by omega) (by omega)
      exact ⟨_, .more hok (by rw [byCursor, hcursor]; rfl) hrest⟩

theorem fetchPage_zero (k : Nat) (h0 : 0 ≤ readyHeight) :
    ∃ toHeight, toHeight = pageEnd 0 (clampLimit limitBlocksMax (limits k)) readyHeight ∧ 0 ≤ toHeight ∧
      toHeight ≤ readyHeight ∧ ∃ response,
        fetchPage limitBlocksMax (fun _ => db) query limits k (.height 0) = .ok response ∧
        response.blocks.flatMap (·.items) = feedItems db args 0 (toHeight + 1) ∧
        response.nextCursor = (feedItems db args 0 (toHeight + 1)).getLast?.map (·.sequence) := by
  obtain ⟨response, hok, hspec⟩ := fetchPage_height limitBlocksMax limits hserved hchain k le_rfl h0
  have hitems : (pageBundles db args none 0 (pageEnd 0 (clampLimit limitBlocksMax (limits k)) readyHeight)).flatMap
      (·.items) = _ := flatMap_items_pageBundles (hchain.mono hspec.le_ready) le_rfl le_rfl
  refine ⟨_, rfl, hspec.from_le, hspec.le_ready, response, hok, ?_, ?_⟩
  · rw [hspec.blocks, hitems]
  · rw [hspec.nextCursor, hitems]

end Walk

/-- Every block with items is within a window of the start, or of another block with items below it. -/
def WindowsConnected (db : Database) (args : AssemblyArgs) (limit readyHeight : Int) : Prop :=
  ∀ height, 0 ≤ height → height ≤ readyHeight → HasRows db args height → height < limit ∨
    ∃ below, 0 ≤ below ∧ below < height ∧ height < below + limit ∧ HasRows db args below

/-- The feed is complete up to `stop` exactly when no block with items follows. -/
theorem feedItems_eq_iff_of_stop {stop : Int} (h : 0 ≤ stop + 1) (hle : stop ≤ readyHeight) :
    feedItems db args 0 (stop + 1) = feedItems db args 0 (readyHeight + 1) ↔
      ∀ height, stop < height → height ≤ readyHeight → ¬ HasRows db args height := by
  rw [← feedItems_append db args h (by omega : stop + 1 ≤ readyHeight + 1), List.self_eq_append_right]
  constructor
  · intro hnil height hlo hhi hrows
    refine blockItems_ne_nil_iff.mpr hrows (List.flatMap_eq_nil_iff.mp hnil height ?_)
    exact Int.mem_range_iff.mpr ⟨by omega, by omega⟩
  · intro hnone
    refine List.flatMap_eq_nil_iff.mpr fun height hmem => ?_
    obtain ⟨hlo, hhi⟩ := Int.mem_range_iff.mp hmem
    by_contra hne
    exact hnone height (by omega) (by omega) (blockItems_ne_nil_iff.mp hne)

/-- Among the blocks with items above `stop`, the first one is out of reach of all blocks up to `stop`. -/
theorem exists_first_hasRows {stop height : Int} (hlt : stop < height) (hrows : HasRows db args height) :
    ∃ first, stop < first ∧ first ≤ height ∧ HasRows db args first ∧
      ∀ h, stop < h → h < first → ¬ HasRows db args h := by
  obtain ⟨n, hn⟩ : ∃ n : Nat, (height - stop).toNat ≤ n := ⟨_, le_rfl⟩
  induction n generalizing height with
  | zero => omega
  | succ n ih =>
    by_cases hbelow : ∃ h, stop < h ∧ h < height ∧ HasRows db args h
    · obtain ⟨h, h₁, h₂, h₃⟩ := hbelow
      obtain ⟨first, h₄, h₅, h₆, h₇⟩ := ih h₁ h₃ (by omega)
      exact ⟨first, h₄, by omega, h₆, h₇⟩
    · exact ⟨height, hlt, le_rfl, hrows, fun h h₁ h₂ h₃ => hbelow ⟨h, h₁, h₂, h₃⟩⟩

/-- A first page without items is never left. -/
theorem windowsConnected_iff_of_empty {limit : Int}
    (hempty : ∀ height, 0 ≤ height → height ≤ pageEnd 0 limit readyHeight → ¬ HasRows db args height) :
    WindowsConnected db args limit readyHeight ↔
      ∀ height, -1 < height → height ≤ readyHeight → ¬ HasRows db args height := by
  constructor
  · intro hconnected height h₁ h₂ h₃
    obtain ⟨first, h₄, h₅, h₆, h₇⟩ := exists_first_hasRows h₁ h₃
    have hout : ¬ first ≤ pageEnd 0 limit readyHeight := fun hle => hempty first (by omega) hle h₆
    rcases hconnected first (by omega) (by omega) h₆ with hwindow | ⟨below, h₈, h₉, -, h₁₀⟩
    · exact hout (le_min (by omega) (by omega))
    · exact h₇ below (by omega) h₉ h₁₀
  · exact fun hnone height h₁ h₂ h₃ => absurd h₃ (hnone height (by omega) h₂)

/-- A client that has stopped has seen every block within reach. -/
theorem windowsConnected_iff_of_reach {limit last stop : Int} (h0 : 0 ≤ last) (hlast : last < limit)
    (hreach : CursorReach db args limit readyHeight last stop) : WindowsConnected db args limit readyHeight ↔
      ∀ height, stop < height → height ≤ readyHeight → ¬ HasRows db args height := by
  have hstart := hreach.start_le
  constructor
  · intro hconnected height h₁ h₂ h₃
    obtain ⟨first, h₄, h₅, h₆, h₇⟩ := exists_first_hasRows h₁ h₃
    have hout : ¬ first ≤ stop + limit - 1 := fun hle => hreach.stuck first h₄ (le_min hle (by omega)) h₆
    rcases hconnected first (by omega) (by omega) h₆ with hwindow | ⟨below, h₈, h₉, h₁₀, h₁₁⟩
    · omega
    · exact h₇ below (by omega) h₉ h₁₁
  · intro hnone height h₁ h₂ h₃
    have hle : height ≤ stop := not_lt.mp fun hlt => hnone height hlt h₂ h₃
    by_cases hfirst : height ≤ last
    · exact Or.inl (by omega)
    · obtain ⟨below, h₄, h₅, h₆, h₇⟩ := hreach.reached height (by omega) hle h₃
      exact Or.inr ⟨below, by omega, h₅, h₆, h₇⟩

/-- **Cursor pagination.** A client that starts at height 0 and follows `nextCursor` comes to an end, and it has then
received the whole feed exactly when every block with items is within a window of the start, or of another block with
items below it. -/
theorem cursorPages_complete_iff (limitBlocksMax : Nat) (limitBlocks : Option Int)
    (hserved : Served db query args readyHeight) (hchain : db.ChainUpTo readyHeight) :
    ∃ visited, Pages (fetchPage limitBlocksMax (fun _ => db) query (fun _ => limitBlocks)) byCursor 0 (.height 0)
        visited ∧
      (itemsOf visited = feedItems db args 0 (readyHeight + 1) ↔
        WindowsConnected db args (clampLimit limitBlocksMax limitBlocks) readyHeight) := by
  by_cases hready : 0 ≤ readyHeight
  · obtain ⟨toHeight, htop, hlo, hhi, response, hok, hitems, hcursor⟩ :=
      fetchPage_zero limitBlocksMax (fun _ => limitBlocks) hserved hchain 0 hready
    rcases feedItems_last db args 0 (toHeight + 1) with
      ⟨hempty, hnil⟩ | ⟨last, lastKey, hfrom, hto, hlast, -, hlastKey, hprefix, hsome⟩
    · rw [hnil] at hcursor hitems
      refine ⟨[(.height 0, response)], .last hok (by rw [byCursor, hcursor]; rfl), ?_⟩
      have hall : itemsOf [(.height 0, response)] = feedItems db args 0 (-1 + 1) := by
        rw [itemsOf_cons, hitems, feedItems, IntRange.range_eq_nil (by omega)]
        rfl
      rw [hall, feedItems_eq_iff_of_stop (by omega) (by omega), windowsConnected_iff_of_empty]
      rw [← htop]
      exact fun height h₁ h₂ => hempty height h₁ (by omega)
    · rw [hsome] at hcursor
      obtain ⟨visited, hrest⟩ := exists_cursorPages limitBlocksMax hserved hchain limitBlocks 1
        hlastKey hfrom (by omega)
      obtain ⟨stop, hreach, hstop⟩ := cursorPages_afterBlock limitBlocksMax hserved hchain hlastKey hlast hfrom
        (by omega) hrest
      have hstart := hreach.start_le
      have hwindow : toHeight ≤ 0 + clampLimit limitBlocksMax limitBlocks - 1 := htop ▸ min_le_left _ _
      refine ⟨_, .more hok (by rw [byCursor, hcursor]; rfl) hrest, ?_⟩
      rw [itemsOf_cons, hitems, hprefix, hstop, feedItems_append db args (by omega) (by omega),
        feedItems_eq_iff_of_stop (by omega) hreach.le_ready, windowsConnected_iff_of_reach hfrom (by omega) hreach]
  · have hpage : page db args readyHeight none 0 (clampLimit limitBlocksMax limitBlocks) =
        FeedResponse.empty (watermarksOf db readyHeight) := if_pos (not_le.mp hready)
    have hok : fetchPage limitBlocksMax (fun _ => db) query (fun _ => limitBlocks) 0 (.height 0) =
        .ok (FeedResponse.empty (watermarksOf db readyHeight)) :=
      (getFeed_height limitBlocksMax hserved limitBlocks le_rfl).trans (congrArg _ hpage)
    refine ⟨_, .last hok rfl, iff_of_true ?_ fun height h₁ h₂ => by omega⟩
    rw [feedItems, IntRange.range_eq_nil (by omega)]
    rfl

end Cursor

namespace Sample

/-- Three blocks, the middle one without items. -/
def sparseChain : Database :=
  ⟨tables [block 0 1 0, block 1 2 1, block 2 3 2] [transaction 1 0, transaction 2 2] [utxo 1 1 none, utxo 2 2 none],
    by decide⟩

end Sample

/-- With windows of one block, the client of a chain whose only items are in its first block misses nothing. -/
theorem cursorPages_longChain : ∃ visited,
    Pages (fetchPage 100 (fun _ => Sample.longChain) Sample.query (fun _ => some 1)) byCursor 0 (.height 0) visited ∧
      itemsOf visited = feedItems Sample.longChain Sample.args 0 2 := by
  obtain ⟨visited, hpages, hiff⟩ := cursorPages_complete_iff 100 (some 1) (Sample.served rfl (by decide))
    (by decide : Sample.longChain.ChainUpTo 1)
  refine ⟨visited, hpages, hiff.mpr fun height h₀ h₁ hrows => ?_⟩
  rcases (by omega : height = 0 ∨ height = 1) with rfl | rfl
  · exact Or.inl (by decide)
  · exact absurd hrows (by decide)

/-- With windows of two blocks, the client never gets past the block without items: it stops with the items of block 0,
and those of block 2 are lost. -/
theorem cursorPages_sparseChain : Served Sample.sparseChain Sample.query Sample.args 2 ∧
    Sample.sparseChain.ChainUpTo 2 ∧
    (∃ visited, Pages (fetchPage 100 (fun _ => Sample.sparseChain) Sample.query (fun _ => some 2)) byCursor 0
      (.height 0) visited ∧ (itemsOf visited).map (·.sequence) = ["0:1:2:1"]) ∧
    (feedItems Sample.sparseChain Sample.args 0 3).map (·.sequence) = ["0:1:2:1", "2:2:2:2"] :=
  ⟨Sample.served rfl (by decide), by decide, exists_pages_of_follow 2 (by decide), by decide⟩

end NocyWalletFeed
