import NocyWalletFeed.StreamFeed
import NocyWalletFeed.Resume

/-!
# Resuming a stream from a cursor

* `ResumesExactly` : subscribing after any item of a stream delivers the items that come after it;
* `perm_streamSortables` : a stream is the feed of its blocks and the updates before its relevant transactions;
* `GapKept` : resuming in a block asks for the same range before the next transaction of the commitment tree;
* `resumesExactly_iff` : resuming is exact just when the keys are distinct and the gap is kept in every block.
-/

namespace NocyWalletFeed
open Codec OrderBy Machine

/-! ## Two subscriptions -/

def SubscribeQuery.fromZero (query : SubscribeQuery) : SubscribeQuery :=
  { query with fromHeight := some 0, fromCursor := none }

def SubscribeQuery.after (query : SubscribeQuery) (fromCursor : String) : SubscribeQuery :=
  { query with fromCursor := some fromCursor }

def delivered (db : Database) (query : SubscribeQuery) (iterations : List Iteration) :
    Except SubscribeError (List OrderedFeedItem) := do
  let subscription ← subscribeFeed db query
  pure (sentItems (outputs (runStream subscription.args subscription.start iterations)))

/-- A subscription from height 0 begins, and the wallet of its session is ready up to a height. -/
structure Subscribed (db : Database) (query : SubscribeQuery) (args : AssemblyArgs) (readyHeight : Int) : Prop where
  begins : ∃ start, subscribeFeed db query.fromZero = .ok ⟨args, start⟩
  ready : WalletReady db args.upstreamSessionId readyHeight

/-- Iterations of an attentive client, enough to reach the ready height. -/
structure Reaches (answer : MerkleAnswer) (db : Database) (readyHeight : Int) (iterations : List Iteration) : Prop where
  attentive : ∀ e ∈ iterations, Attentive answer db e
  enough : readyHeight + 1 ≤ iterations.length

/-- Subscribing after any item of the stream from height 0 delivers the items that come after it. -/
def ResumesExactly (answer : MerkleAnswer) (db : Database) (query : SubscribeQuery) (readyHeight : Int) : Prop :=
  ∀ iterations iterations', Reaches answer db readyHeight iterations → Reaches answer db readyHeight iterations' →
    ∀ pre item post, delivered db query.fromZero iterations = .ok (pre ++ item :: post) →
      delivered db (query.after item.sequence) iterations' = .ok post

theorem exists_reaches (answer : MerkleAnswer) (db : Database) (readyHeight : Int) :
    ∃ iterations, Reaches answer db readyHeight iterations := by
  refine ⟨List.replicate (readyHeight + 1).toNat ⟨false, .ok db, false, answer.merkle, 50⟩, fun e hmem => ?_, ?_⟩
  · rw [List.eq_of_mem_replicate hmem]
    exact ⟨rfl, rfl, answer.answers_merkle, le_rfl⟩
  · rw [List.length_replicate]
    omega

/-! ## How a subscription begins -/

/-- The arguments of a query that a subscription resolves, wherever it starts. -/
structure SubscribeArgs (db : Database) (query : SubscribeQuery) (args : AssemblyArgs) : Prop where
  localSession : parseSessionId query.sessionId = .ok args.localSessionId
  upstreamSession : getUpstreamSessionId db args.localSessionId = .ok args.upstreamSessionId
  nullifiers : (if !query.includeNullifiers then .ok .disabled else getSessionNullifierStreaming db query.sessionId) =
    .ok args.nullifierMode
  includeTxMeta : args.includeTxMeta = query.includeTxMeta
  includeRawTx : args.includeRawTx = query.includeRawTx
  includeIdentifiers : args.includeIdentifiers = query.includeIdentifiers
  includeAllDust : args.includeAllDust = query.includeAllDust
  identifiersSource : args.identifiersSource =
    if query.includeTxMeta && query.includeIdentifiers then detectIdentifiersSource db else .none

theorem mapError_eq_ok {α ε ε' : Type} {x : Except ε α} {f : ε → ε'} {a : α} : x.mapError f = .ok a ↔ x = .ok a := by
  cases x <;> simp [Except.mapError]

section Begin
variable {db : Database} {query : SubscribeQuery} {args : AssemblyArgs} {readyHeight : Int}

theorem subscribeFeed_eq_ok {subscription : Subscription} : subscribeFeed db query = .ok subscription ↔
    SubscribeArgs db query subscription.args ∧ ∃ fromCursor, query.fromCursor.mapM parseCursor = .ok fromCursor ∧
      subscription.start = .initial (startHeight fromCursor query.fromHeight) fromCursor := by
  constructor
  · intro h
    unfold subscribeFeed at h
    obtain ⟨localSessionId, hlocal, h⟩ := bind_ok h
    obtain ⟨upstreamSessionId, hupstream, h⟩ := bind_ok h
    obtain ⟨fromCursor, hcursor, h⟩ := bind_ok h
    rw [mapError_eq_ok] at hlocal hupstream hcursor
    by_cases hmode : (!query.includeNullifiers) = true
    · rw [if_pos hmode] at h
      obtain rfl := Except.ok.inj h
      exact ⟨⟨hlocal, hupstream, if_pos hmode, rfl, rfl, rfl, rfl, rfl⟩, fromCursor, hcursor, rfl⟩
    · rw [if_neg hmode] at h
      obtain ⟨nullifierMode, hnullifiers, h⟩ := bind_ok h
      rw [mapError_eq_ok] at hnullifiers
      obtain rfl := Except.ok.inj h
      exact ⟨⟨hlocal, hupstream, (if_neg hmode).trans hnullifiers, rfl, rfl, rfl, rfl, rfl⟩, fromCursor, hcursor, rfl⟩
  · obtain ⟨args, start⟩ := subscription
    rintro ⟨h, fromCursor, hcursor, hstart⟩
    obtain ⟨localSessionId, upstreamSessionId, nullifierMode, _, _, _, _, _⟩ := args
    obtain ⟨hlocal, hupstream, hnullifiers, hmeta, hraw, hidentifiers, hdust, hsource⟩ := h
    dsimp only at *
    subst hmeta hraw hidentifiers hdust hsource hstart
    unfold subscribeFeed
    by_cases hmode : (!query.includeNullifiers) = true
    · rw [if_pos hmode] at hnullifiers
      obtain rfl := Except.ok.inj hnullifiers
      simp only [hlocal, hupstream, hcursor, bind, Except.bind, Except.mapError]
      rw [if_pos hmode]
      rfl
    · rw [if_neg hmode] at hnullifiers
      simp only [hlocal, hupstream, hcursor, bind, Except.bind, Except.mapError]
      rw [if_neg hmode, hnullifiers]
      rfl

theorem Subscribed.fromZero (h : Subscribed db query args readyHeight) :
    subscribeFeed db query.fromZero = .ok ⟨args, .initial 0 none⟩ := by
  obtain ⟨start, hbegin⟩ := h.begins
  obtain ⟨-, fromCursor, hcursor, hstart⟩ := subscribeFeed_eq_ok.mp hbegin
  obtain rfl : none = fromCursor := Except.ok.inj hcursor
  obtain rfl : start = .initial 0 none := hstart
  exact hbegin

theorem Subscribed.after (h : Subscribed db query args readyHeight) {cursor : SequenceKey} (hwide : cursor.Wide)
    (h0 : 0 ≤ cursor.blockHeight) : subscribeFeed db (query.after cursor.toCursor) =
      .ok ⟨args, .initial cursor.blockHeight (some cursor)⟩ := by
  have hargs := (subscribeFeed_eq_ok.mp h.fromZero).1
  have hparse : (some cursor.toCursor).mapM parseCursor = .ok (some cursor) := by
    rw [Option.mapM_some, parseCursor_toCursor hwide]
    rfl
  have hstart : startHeight (some cursor) query.fromHeight = cursor.blockHeight := max_eq_left h0
  refine subscribeFeed_eq_ok.mpr ⟨⟨hargs.localSession, hargs.upstreamSession, hargs.nullifiers, hargs.includeTxMeta,
    hargs.includeRawTx, hargs.includeIdentifiers, hargs.includeAllDust, hargs.identifiersSource⟩, some cursor, hparse,
    ?_⟩
  exact congrArg (StreamState.initial · (some cursor)) hstart.symm

end Begin

/-! ## Updates and the items of the feed -/

section Updates
variable (db : Database) (args : AssemblyArgs) (answer : MerkleAnswer)

def updateKey (row : RelevantTxRow) : SequenceKey := ⟨row.blockHeight, row.txId, PHASE_TX, -1⟩

/-- The updates pushed before relevant transactions, from the index reached before them. -/
def treeUpdates : Int → List RelevantTxRow → List SortableFeedItem
  | _, [] => []
  | index, row :: rows => gapItems answer row.blockHeight index row ++ treeUpdates (indexAfter index row) rows

/-- The relevant transactions of the blocks of `[fromHeight, toHeight)`. -/
def rowsBetween (fromHeight toHeight : Int) : List RelevantTxRow :=
  (Int.range fromHeight toHeight).flatMap (relevantRows db args)

variable {db args answer} {height : Int}

theorem treeUpdates_append (index : Int) (rows rows' : List RelevantTxRow) : treeUpdates answer index (rows ++ rows') =
    treeUpdates answer index rows ++ treeUpdates answer (rows.foldl indexAfter index) rows' := by
  induction rows generalizing index with
  | nil => rfl
  | cons row rows ih => rw [List.cons_append, treeUpdates, treeUpdates, ih, List.append_assoc, List.foldl_cons]

theorem map_sequence_treeUpdates (index : Int) (rows : List RelevantTxRow) :
    ((treeUpdates answer index rows).map (·.sequence)).Sublist (rows.map updateKey) := by
  induction rows generalizing index with
  | nil => exact List.Sublist.refl _
  | cons row rows ih =>
    have hrow : ((gapItems answer row.blockHeight index row).map (·.sequence)).Sublist [updateKey row] := by
      unfold gapItems
      cases row.range with
      | none => exact List.nil_sublist _
      | some range =>
        dsimp only
        split_ifs
        · exact List.Sublist.refl _
        · exact List.nil_sublist _
    rw [treeUpdates, List.map_append]
    exact hrow.append (ih _)

theorem blockHeight_of_mem_relevantRows {row : RelevantTxRow} (h : row ∈ relevantRows db args height) :
    row.blockHeight = height := of_decide_eq_true (List.mem_filter.mp h).2

/-- The items pushed for relevant transactions are the transactions and the updates before them. -/
theorem perm_pushedItems (w : WindowRows) (index : Int) {rows : List RelevantTxRow}
    (h : ∀ row ∈ rows, row.blockHeight = height) : (pushedItems answer w height index rows).Perm
      (treeUpdates answer index rows ++ rows.map (w.shieldedItem height)) := by
  induction rows generalizing index with
  | nil => exact List.Perm.refl _
  | cons row rows ih =>
    have hrest := ih (indexAfter index row) fun row' hmem => h row' (List.mem_cons_of_mem row hmem)
    rw [pushedItems, treeUpdates, h row List.mem_cons_self, List.append_assoc, List.map_cons]
    exact ((hrest.cons _).trans List.perm_middle.symm).append_left _

theorem perm_blockStream (db : Database) (args : AssemblyArgs) (answer : MerkleAnswer) (index height : Int) :
    (blockStream db args answer index height).Perm
      (treeUpdates answer index (relevantRows db args height) ++ blockSortables db args height) := by
  have hpushed : (pushedItems answer (fetchWindow db args height height) height index
      (relevantRows db args height)).Perm _ :=
    perm_pushedItems _ index fun row hrow => blockHeight_of_mem_relevantRows hrow
  refine (perm_sortBy _ _).trans (List.Perm.trans ?_ ((perm_sortBy _ _).append_left _).symm)
  simp only [List.append_assoc]
  refine ((hpushed.append_right _).append_left _).trans ?_
  rw [List.append_assoc]
  exact List.perm_append_comm_assoc _ _ _

/-- The stream is the feed and the updates before the relevant transactions. -/
theorem perm_streamSortables (db : Database) (args : AssemblyArgs) (answer : MerkleAnswer) (index : Int)
    (heights : List Int) : (streamSortables db args answer index heights).Perm
      (treeUpdates answer index (heights.flatMap (relevantRows db args)) ++
        heights.flatMap (blockSortables db args)) := by
  induction heights generalizing index with
  | nil => exact List.Perm.refl _
  | cons height heights ih =>
    rw [streamSortables, List.flatMap_cons, List.flatMap_cons, treeUpdates_append, List.append_assoc]
    refine ((perm_blockStream db args answer index height).append (ih _)).trans ?_
    rw [List.append_assoc]
    exact (List.perm_append_comm_assoc _ _ _).append_left _

/-! ## The order of a stream -/

theorem mem_blockStream {index : Int} {s : SortableFeedItem} : s ∈ blockStream db args answer index height ↔
    s ∈ treeUpdates answer index (relevantRows db args height) ∨ s ∈ blockSortables db args height :=
  (perm_blockStream db args answer index height).mem_iff.trans List.mem_append

theorem mem_treeUpdates {index : Int} {rows : List RelevantTxRow} {s : SortableFeedItem}
    (h : s ∈ treeUpdates answer index rows) : ∃ row ∈ rows, s.sequence = updateKey row := by
  have hkey : s.sequence ∈ (treeUpdates answer index rows).map (·.sequence) := List.mem_map_of_mem h
  obtain ⟨row, hrow, heq⟩ := List.mem_map.mp ((map_sequence_treeUpdates index rows).subset hkey)
  exact ⟨row, hrow, heq.symm⟩

theorem sequence_of_mem_blockStream {index : Int} {s : SortableFeedItem}
    (h : s ∈ blockStream db args answer index height) : s.sequence.blockHeight = height ∧ s.sequence.Wide := by
  rcases mem_blockStream.mp h with hupdate | hitem
  · obtain ⟨row, hrow, heq⟩ := mem_treeUpdates hupdate
    have hheight := blockHeight_of_mem_relevantRows hrow
    have hblock := (inBlock_of_mem_relevant (List.mem_of_mem_filter hrow)).inI64
    have hphase : InI64 PHASE_TX ∧ InI64 (-1) := by decide
    rw [heq]
    exact ⟨hheight, hblock.2, hblock.1, hphase.1, hphase.2⟩
  · exact sequence_of_mem_blockSortables hitem

theorem sequence_of_mem_streamSortables {index : Int} {heights : List Int} {s : SortableFeedItem}
    (h : s ∈ streamSortables db args answer index heights) : s.sequence.blockHeight ∈ heights ∧ s.sequence.Wide := by
  induction heights generalizing index with
  | nil => cases h
  | cons height heights ih =>
    rcases List.mem_append.mp h with hblock | hrest
    · obtain ⟨hheight, hwide⟩ := sequence_of_mem_blockStream hblock
      exact ⟨hheight ▸ List.mem_cons_self, hwide⟩
    · exact ⟨List.mem_cons_of_mem _ (ih hrest).1, (ih hrest).2⟩

/-- **The stream is in sequence order.** -/
theorem pairwise_streamSortables (index : Int) {heights : List Int} (h : heights.Pairwise (· < ·)) :
    (streamSortables db args answer index heights).Pairwise (fun a b => a.sequence ≤ b.sequence) := by
  induction heights generalizing index with
  | nil => exact List.Pairwise.nil
  | cons height heights ih =>
    refine List.pairwise_append.mpr ⟨pairwise_sortBy _ _, ih _ h.of_cons, fun a ha b hb => ?_⟩
    refine (lt_of_blockHeight_lt ?_).le
    rw [(sequence_of_mem_blockStream ha).1]
    exact List.rel_of_pairwise_cons h (sequence_of_mem_streamSortables hb).1

/-- The items of a block that are not updates come after every update of their transaction. -/
theorem updateKey_lt {row : RelevantTxRow} {s : SortableFeedItem} (h : s ∈ blockSortables db args height)
    (hheight : row.blockHeight = height) (hle : row.txId ≤ s.sequence.txId) : updateKey row < s.sequence := by
  have hphase : s.sequence.phase = PHASE_TX ∧ 0 ≤ s.sequence.ordinal ∨ PHASE_TX < s.sequence.phase := by
    rcases WindowRows.mem_assembleItems.mp h with h | h | h | h | h
    all_goals obtain ⟨row', -, rfl⟩ := List.mem_map.mp h
    · exact Or.inl ⟨rfl, le_rfl⟩
    · exact Or.inl ⟨rfl, zero_le_one⟩
    · exact Or.inr (by decide : PHASE_TX < PHASE_LEDGER_EVENT)
    · exact Or.inr (by decide : PHASE_TX < PHASE_LEDGER_EVENT)
    · exact Or.inr (by decide : PHASE_TX < PHASE_UNSHIELDED)
  have hblock := (sequence_of_mem_blockSortables h).1
  rw [SequenceKey.lt_iff, updateKey]
  dsimp only
  omega

/-! ## Distinct keys -/

variable {fromHeight toHeight : Int}

theorem mem_rowsBetween {row : RelevantTxRow} : row ∈ rowsBetween db args fromHeight toHeight ↔
    fromHeight ≤ row.blockHeight ∧ row.blockHeight < toHeight ∧ row ∈ relevantRows db args row.blockHeight := by
  rw [rowsBetween, List.mem_flatMap]
  constructor
  · rintro ⟨height, hmem, hrow⟩
    obtain rfl := blockHeight_of_mem_relevantRows hrow
    obtain ⟨hlo, hhi⟩ := Int.mem_range_iff.mp hmem
    exact ⟨hlo, hhi, hrow⟩
  · rintro ⟨hlo, hhi, hrow⟩
    exact ⟨row.blockHeight, Int.mem_range_iff.mpr ⟨hlo, hhi⟩, hrow⟩

theorem nodup_rowsBetween
    (h : ∀ height, fromHeight ≤ height → height < toHeight → RelevantOnce db args.upstreamSessionId height) :
    ((rowsBetween db args fromHeight toHeight).map updateKey).Nodup := by
  rw [rowsBetween, nodup_flatMap_range _ fun height row hrow => blockHeight_of_mem_relevantRows hrow]
  intro height hlo hhi
  refine nodup_map_key updateKey (·.txId) ?_
  have honce := ((perm_relevantTxIds db args.upstreamSessionId height).nodup_iff).mpr (h height hlo hhi)
  rwa [← relevantAt_fetchWindow] at honce

theorem nodup_streamSortables_iff {index : Int} :
    ((streamSortables db args answer index (Int.range fromHeight toHeight)).map (·.sequence)).Nodup ↔
      ∀ height, fromHeight ≤ height → height < toHeight → KeysDistinct db args height := by
  have hperm := (perm_streamSortables db args answer index (Int.range fromHeight toHeight)).map (·.sequence)
  rw [hperm.nodup_iff, List.map_append, List.nodup_append, ← nodup_feedSortables_iff]
  refine ⟨fun h => h.2.1, fun h => ⟨?_, h, ?_⟩⟩
  · have hdistinct := nodup_feedSortables_iff.mp h
    exact (nodup_rowsBetween fun height hlo hhi => (hdistinct height hlo hhi).1).sublist (map_sequence_treeUpdates _ _)
  · intro k hk k' hk' heq
    obtain ⟨u, hu, rfl⟩ := List.mem_map.mp hk
    obtain ⟨s, hs, rfl⟩ := List.mem_map.mp hk'
    obtain ⟨row, hrow, hkey⟩ := mem_treeUpdates hu
    rw [hkey] at heq
    obtain ⟨-, -, hmem⟩ := mem_feedSortables.mp hs
    have hheight : row.blockHeight = s.sequence.blockHeight := congrArg SequenceKey.blockHeight heq
    exact absurd heq (updateKey_lt hmem hheight (congrArg SequenceKey.txId heq).le).ne

end Updates

/-! ## The next transaction of the tree -/

/-- A relevant transaction with its index range, if it has one. -/
def treeRow (row : RelevantTxRow) : Option (RelevantTxRow × Int × Int) := row.range.map fun range => (row, range)

/-- The relevant transactions of the blocks of `[fromHeight, toHeight)` with an index range, with the range. -/
def treeRows (db : Database) (args : AssemblyArgs) (fromHeight toHeight : Int) : List (RelevantTxRow × Int × Int) :=
  (rowsBetween db args fromHeight toHeight).filterMap treeRow

/-- The index reached after some transactions is the end of the last one with a range. -/
theorem foldl_indexAfter (index : Int) (rows : List RelevantTxRow) : rows.foldl indexAfter index =
    ((rows.filterMap treeRow).getLast?.map fun last => gapStart last.2.2).getD index := by
  induction rows generalizing index with
  | nil => rfl
  | cons row rows ih =>
    rw [List.foldl_cons, ih]
    cases hrange : row.range with
    | none => rw [List.filterMap_cons_none (by rw [treeRow, hrange]; rfl), indexAfter, hrange]
    | some range =>
      rw [List.filterMap_cons_some (b := (row, range)) (by rw [treeRow, hrange]; rfl), indexAfter, hrange,
        List.getLast?_cons, Option.map_some, Option.getD_some]
      cases (rows.filterMap treeRow).getLast? <;> rfl

/-- Of the updates, only the one before the first transaction with a range depends on the index before. -/
theorem treeUpdates_cases (answer : MerkleAnswer) (rows : List RelevantTxRow) :
    (rows.filterMap treeRow = [] ∧ ∀ index, treeUpdates answer index rows = []) ∨
      ∃ next rest, next.1 ∈ rows ∧ next.1.range = some next.2 ∧ (rows.filterMap treeRow).head? = some next ∧
        ∀ index, treeUpdates answer index rows = gapItems answer next.1.blockHeight index next.1 ++ rest := by
  induction rows with
  | nil => exact Or.inl ⟨rfl, fun _ => rfl⟩
  | cons row rows ih =>
    cases hrange : row.range with
    | none =>
      have hrow : treeRow row = none := by rw [treeRow, hrange]; rfl
      have hskip : ∀ index, treeUpdates answer index (row :: rows) = treeUpdates answer index rows := by
        intro index
        rw [treeUpdates, gapItems, indexAfter, hrange]
        rfl
      rw [List.filterMap_cons_none hrow]
      simp only [hskip]
      rcases ih with hnone | ⟨next, rest, hmem, hnext⟩
      · exact Or.inl hnone
      · exact Or.inr ⟨next, rest, List.mem_cons_of_mem row hmem, hnext⟩
    | some range =>
      have hrow : treeRow row = some (row, range) := by rw [treeRow, hrange]; rfl
      refine Or.inr ⟨(row, range), treeUpdates answer (gapStart range.2) rows, List.mem_cons_self, hrange, ?_, ?_⟩
      · rw [List.filterMap_cons_some hrow, List.head?_cons]
      · intro index
        rw [treeUpdates, indexAfter, hrange]

section Gap
variable {db : Database} {args : AssemblyArgs} {answer : MerkleAnswer} {fromHeight toHeight : Int}

theorem pairwise_lt_streamSortables (index : Int)
    (h : ∀ height, fromHeight ≤ height → height < toHeight → KeysDistinct db args height) :
    (streamSortables db args answer index (Int.range fromHeight toHeight)).Pairwise
      (fun a b => a.sequence < b.sequence) :=
  pairwise_lt_of_nodup _ (pairwise_streamSortables index (IntRange.pairwise_range _ _))
    (nodup_streamSortables_iff.mpr h)

/-- The update before a transaction, above a key, from index 0 and from any index. -/
theorem perm_filter_gapItems_iff {index : Int} (h0 : 0 ≤ index) {row : RelevantTxRow} {range : Int × Int}
    (hrange : row.range = some range) (key : SequenceKey) :
    ((gapItems answer row.blockHeight 0 row).filter (fun s => key < s.sequence)).Perm
        ((gapItems answer row.blockHeight index row).filter (fun s => key < s.sequence)) ↔
      range.1 ≤ 0 ∨ index = 0 ∨ updateKey row ≤ key := by
  have hfilter : ∀ index, (gapItems answer row.blockHeight index row).filter (fun s => key < s.sequence) =
      if index < range.1 ∧ key < updateKey row then
        [⟨updateKey row, .merkleCollapsedUpdate (answer.update index range.1)⟩]
      else [] := by
    intro index
    rw [gapItems, hrange, ite_and]
    dsimp only
    split_ifs with hlt hkey
    · exact List.filter_cons_of_pos (decide_eq_true hkey)
    · exact List.filter_cons_of_neg fun h => hkey (of_decide_eq_true h)
    · rfl
  rw [hfilter, hfilter]
  constructor
  · intro hperm
    by_contra hcond
    simp only [not_or, not_le] at hcond
    obtain ⟨hpos, hindex, hkey⟩ := hcond
    rw [if_pos ⟨hpos, hkey⟩] at hperm
    split_ifs at hperm
    · have hitem := List.singleton_inj.mp (List.perm_singleton.mp hperm)
      have hupdate := FeedItem.merkleCollapsedUpdate.inj (SortableFeedItem.mk.inj hitem).2
      have hstart := congrArg MerkleCollapsedUpdate.startIndex hupdate
      rw [answer.startIndex_eq, answer.startIndex_eq] at hstart
      exact hindex hstart.symm
    · exact List.cons_ne_nil _ _ hperm.eq_nil
  · rintro (hneg | rfl | hle)
    · rw [if_neg fun h => by omega, if_neg fun h => by omega]
    · exact List.Perm.refl _
    · rw [if_neg fun h => absurd hle (not_le.mpr h.2), if_neg fun h => absurd hle (not_le.mpr h.2)]

/-- **The gap.** Two streams over one range, one from index 0, have the same items above a key exactly when the update
before the next transaction of the tree is the same, or not above the key. -/
theorem filter_streamSortables_eq_iff {index : Int} (h0 : 0 ≤ index)
    (hdistinct : ∀ height, fromHeight ≤ height → height < toHeight → KeysDistinct db args height) (key : SequenceKey) :
    (streamSortables db args answer 0 (Int.range fromHeight toHeight)).filter (fun s => key < s.sequence) =
        (streamSortables db args answer index (Int.range fromHeight toHeight)).filter (fun s => key < s.sequence) ↔
      ∀ next ∈ (treeRows db args fromHeight toHeight).head?,
        next.2.1 ≤ 0 ∨ index = 0 ∨ updateKey next.1 ≤ key := by
  have hperm : ∀ index, ((streamSortables db args answer index (Int.range fromHeight toHeight)).filter
      (fun s => key < s.sequence)).Perm
        ((treeUpdates answer index (rowsBetween db args fromHeight toHeight)).filter (fun s => key < s.sequence) ++
          (feedSortables db args fromHeight toHeight).filter (fun s => key < s.sequence)) := by
    intro index
    rw [← List.filter_append]
    exact (perm_streamSortables db args answer index _).filter _
  have hupdates :
      (streamSortables db args answer 0 (Int.range fromHeight toHeight)).filter (fun s => key < s.sequence) =
        (streamSortables db args answer index (Int.range fromHeight toHeight)).filter (fun s => key < s.sequence) ↔
      ((treeUpdates answer 0 (rowsBetween db args fromHeight toHeight)).filter (fun s => key < s.sequence)).Perm
        ((treeUpdates answer index (rowsBetween db args fromHeight toHeight)).filter (fun s => key < s.sequence)) := by
    rw [← List.perm_append_right_iff ((feedSortables db args fromHeight toHeight).filter (fun s => key < s.sequence))]
    constructor
    · exact fun heq => ((hperm 0).symm.trans (List.Perm.of_eq heq)).trans (hperm index)
    · exact fun hsame => eq_of_sorted_of_mem_iff (fun s : SortableFeedItem => s.sequence)
        ((pairwise_lt_streamSortables 0 hdistinct).filter _) ((pairwise_lt_streamSortables index hdistinct).filter _)
        fun s => (((hperm 0).trans hsame).trans (hperm index).symm).mem_iff
  rw [hupdates, treeRows]
  rcases treeUpdates_cases answer (rowsBetween db args fromHeight toHeight) with
    ⟨hnil, hnone⟩ | ⟨next, rest, -, hrange, hhead, hnext⟩
  · rw [hnil, hnone, hnone]
    exact iff_of_true (List.Perm.refl _) fun next hmem => nomatch hmem
  · rw [hhead, hnext, hnext, List.filter_append, List.filter_append, List.perm_append_right_iff,
      perm_filter_gapItems_iff h0 hrange]
    simp only [Option.mem_some_iff, forall_eq']

/-! ## The gap before a block -/

/-- The index a stream from height 0 has reached before the block at a height. -/
def treeIndex (db : Database) (args : AssemblyArgs) (height : Int) : Int :=
  (Int.range 0 height).foldl (indexAfterBlock db args) 0

theorem treeIndex_eq (db : Database) (args : AssemblyArgs) (height : Int) : treeIndex db args height =
    (((treeRows db args 0 height).getLast?.map fun last => gapStart last.2.2).getD 0) := by
  rw [treeRows, ← foldl_indexAfter, rowsBetween, List.foldl_flatMap]
  rfl

theorem treeIndex_nonneg (db : Database) (args : AssemblyArgs) (height : Int) : 0 ≤ treeIndex db args height := by
  rw [treeIndex_eq]
  cases (treeRows db args 0 height).getLast? with
  | none => exact le_rfl
  | some last => exact gapStart_nonneg _

theorem treeIndex_eq_zero_iff {height : Int} : treeIndex db args height = 0 ↔
    ∀ last ∈ (treeRows db args 0 height).getLast?, last.2.2 ≤ 0 := by
  rw [treeIndex_eq]
  cases (treeRows db args 0 height).getLast? with
  | none => exact iff_of_true rfl fun last hmem => nomatch hmem
  | some last =>
    rw [Option.map_some, Option.getD_some, gapStart]
    simp only [Option.mem_some_iff, forall_eq']
    split_ifs <;> omega

/-- A stream from height 0, from a block on. -/
theorem streamSortables_split {height readyHeight : Int} (h0 : 0 ≤ height) (hle : height ≤ readyHeight + 1) :
    streamSortables db args answer 0 (Int.range 0 (readyHeight + 1)) =
      streamSortables db args answer 0 (Int.range 0 height) ++
        streamSortables db args answer (treeIndex db args height) (Int.range height (readyHeight + 1)) := by
  rw [← IntRange.range_append h0 hle, streamSortables_append]
  rfl

/-- A stream that resumes in a block asks for the same range as one from height 0 before the next transaction of the
tree: that transaction starts at index 0, or no transaction of the tree below the block ends above index 0, or it is in
the block and no item of the block has a smaller transaction id. -/
def GapKept (db : Database) (args : AssemblyArgs) (readyHeight height : Int) : Prop :=
  ∀ next ∈ (treeRows db args height (readyHeight + 1)).head?, next.2.1 ≤ 0 ∨
    (∀ last ∈ (treeRows db args 0 height).getLast?, last.2.2 ≤ 0) ∨
    next.1.blockHeight = height ∧ ∀ s ∈ blockSortables db args height, next.1.txId ≤ s.sequence.txId

instance (readyHeight height : Int) : Decidable (GapKept db args readyHeight height) :=
  inferInstanceAs (Decidable (∀ next ∈ (treeRows db args height (readyHeight + 1)).head?, _))

theorem mem_streamSortables_zero {readyHeight : Int} {s : SortableFeedItem} :
    s ∈ streamSortables db args answer 0 (Int.range 0 (readyHeight + 1)) ↔ 0 ≤ s.sequence.blockHeight ∧
      s.sequence.blockHeight ≤ readyHeight ∧
      s ∈ blockStream db args answer (treeIndex db args s.sequence.blockHeight) s.sequence.blockHeight := by
  have hsplit : ∀ h0 : 0 ≤ s.sequence.blockHeight, ∀ hle : s.sequence.blockHeight ≤ readyHeight,
      (s ∈ streamSortables db args answer 0 (Int.range 0 (readyHeight + 1)) ↔
        s ∈ blockStream db args answer (treeIndex db args s.sequence.blockHeight) s.sequence.blockHeight) := by
    intro h0 hle
    rw [streamSortables_split h0 (by omega), IntRange.range_cons (by omega : s.sequence.blockHeight < readyHeight + 1),
      streamSortables, List.mem_append, List.mem_append]
    constructor
    · rintro (hbelow | hblock | habove)
      · have := (Int.mem_range_iff.mp (sequence_of_mem_streamSortables hbelow).1).2
        omega
      · exact hblock
      · have := (Int.mem_range_iff.mp (sequence_of_mem_streamSortables habove).1).1
        omega
    · exact fun hblock => Or.inr (Or.inl hblock)
  constructor
  · intro hs
    obtain ⟨hlo, hhi⟩ := Int.mem_range_iff.mp (sequence_of_mem_streamSortables hs).1
    exact ⟨hlo, by omega, (hsplit hlo (by omega)).mp hs⟩
  · rintro ⟨hlo, hhi, hblock⟩
    exact (hsplit hlo hhi).mpr hblock

/-- Above a key, a stream from height 0 is a stream from the block of the key on. -/
theorem filter_streamSortables_zero {readyHeight : Int} {key : SequenceKey} (h0 : 0 ≤ key.blockHeight)
    (hle : key.blockHeight ≤ readyHeight + 1) :
    (streamSortables db args answer 0 (Int.range 0 (readyHeight + 1))).filter (fun s => key < s.sequence) =
      (streamSortables db args answer (treeIndex db args key.blockHeight)
        (Int.range key.blockHeight (readyHeight + 1))).filter (fun s => key < s.sequence) := by
  have hbelow : (streamSortables db args answer 0 (Int.range 0 key.blockHeight)).filter
      (fun s => key < s.sequence) = [] := by
    refine List.filter_eq_nil_iff.mpr fun s hs => ?_
    have hlt := lt_of_blockHeight_lt (Int.mem_range_iff.mp (sequence_of_mem_streamSortables hs).1).2
    simpa using hlt.le
  rw [streamSortables_split h0 hle, List.filter_append, hbelow, List.nil_append]

theorem shieldedItem_mem_blockSortables {height : Int} {row : RelevantTxRow} (h : row ∈ relevantRows db args height) :
    (fetchWindow db args height height).shieldedItem height row ∈ blockSortables db args height :=
  WindowRows.mem_assembleItems.mpr (Or.inr (Or.inl (List.mem_map_of_mem h)))

theorem hasRows_of_mem_blockStream {index height : Int} {s : SortableFeedItem}
    (h : s ∈ blockStream db args answer index height) : HasRows db args height := by
  refine blockSortables_ne_nil_iff.mp ?_
  rcases mem_blockStream.mp h with hupdate | hitem
  · obtain ⟨row, hrow, -⟩ := mem_treeUpdates hupdate
    exact List.ne_nil_of_mem (shieldedItem_mem_blockSortables hrow)
  · exact List.ne_nil_of_mem hitem

/-- The gap is kept in a block when resuming after each of its items asks for the same update. -/
theorem gapKept_iff (answer : MerkleAnswer) {readyHeight height : Int} :
    (HasRows db args height → GapKept db args readyHeight height) ↔
      ∀ s ∈ blockStream db args answer (treeIndex db args height) height,
        ∀ next ∈ (treeRows db args height (readyHeight + 1)).head?,
          next.2.1 ≤ 0 ∨ treeIndex db args height = 0 ∨ updateKey next.1 ≤ s.sequence := by
  constructor
  · intro h s hs next hnext
    rcases h (hasRows_of_mem_blockStream hs) next hnext with hneg | hlast | ⟨hheight, hfirst⟩
    · exact Or.inl hneg
    · exact Or.inr (Or.inl (treeIndex_eq_zero_iff.mpr hlast))
    · refine Or.inr (Or.inr ?_)
      rcases mem_blockStream.mp hs with hupdate | hitem
      · obtain ⟨row, hrow, hkey⟩ := mem_treeUpdates hupdate
        have hle : next.1.txId ≤ row.txId := hfirst _ (shieldedItem_mem_blockSortables hrow)
        rw [hkey, SequenceKey.le_iff, updateKey, updateKey, hheight, blockHeight_of_mem_relevantRows hrow]
        dsimp only
        omega
      · exact (updateKey_lt hitem hheight (hfirst s hitem)).le
  · intro h hrows next hnext
    by_cases hneg : next.2.1 ≤ 0
    · exact Or.inl hneg
    by_cases hindex : treeIndex db args height = 0
    · exact Or.inr (Or.inl (treeIndex_eq_zero_iff.mp hindex))
    have hle : ∀ s ∈ blockSortables db args height, updateKey next.1 ≤ s.sequence := fun s hs =>
      ((h s (mem_blockStream.mpr (Or.inr hs)) next hnext).resolve_left hneg).resolve_left hindex
    have hfrom : height ≤ next.1.blockHeight := by
      obtain ⟨row, hrow, hsome⟩ := List.mem_filterMap.mp (List.mem_of_head? hnext)
      obtain ⟨range, -, rfl⟩ := Option.map_eq_some_iff.mp hsome
      exact (mem_rowsBetween.mp hrow).1
    have hsplit : ∀ s ∈ blockSortables db args height,
        next.1.blockHeight = height ∧ next.1.txId ≤ s.sequence.txId := by
      intro s hs
      have hkey := hle s hs
      have hblock := (sequence_of_mem_blockSortables hs).1
      rw [SequenceKey.le_iff, updateKey] at hkey
      dsimp only at hkey
      omega
    obtain ⟨s, hs⟩ := List.exists_mem_of_ne_nil _ (blockSortables_ne_nil_iff.mpr hrows)
    exact Or.inr (Or.inr ⟨(hsplit s hs).1, fun s hs => (hsplit s hs).2⟩)

end Gap

/-! ## Exact resumption -/

section Exact
variable {db : Database} {query : SubscribeQuery} {args : AssemblyArgs} {answer : MerkleAnswer} {readyHeight : Int}

/-- The cursor filter over the blocks from the cursor's own on. -/
theorem streamItems_some {cursor : SequenceKey} (index : Int) {heights : List Int}
    (h : ∀ height ∈ heights, cursor.blockHeight ≤ height) : streamItems db args answer (some cursor) index heights =
      ((streamSortables db args answer index heights).filter (fun s => cursor < s.sequence)).map
        SortableFeedItem.toOrdered := by
  induction heights generalizing index with
  | nil => rfl
  | cons height heights ih =>
    rw [streamItems, streamSortables, ih _ fun height' hmem => h height' (List.mem_cons_of_mem height hmem),
      List.filter_append, List.map_append, filterCursorBlock_map_toOrdered
        (fun s hs => sequence_of_mem_blockStream hs) (h height List.mem_cons_self)]

variable (hsubscribed : Subscribed db query args readyHeight) (hchain : db.ChainUpTo readyHeight)
include hsubscribed hchain

theorem delivered_fromZero {iterations : List Iteration} (h : Reaches answer db readyHeight iterations) :
    delivered db query.fromZero iterations =
      .ok ((streamSortables db args answer 0 (Int.range 0 (readyHeight + 1))).map SortableFeedItem.toOrdered) := by
  have hitems := sentItems_streamRun hsubscribed.ready hchain le_rfl none h.attentive (by simpa using h.enough)
  rw [streamItems_none] at hitems
  rw [delivered, hsubscribed.fromZero, ← hitems]
  rfl

theorem delivered_after {iterations : List Iteration} (h : Reaches answer db readyHeight iterations)
    {cursor : SequenceKey} (hwide : cursor.Wide) (h0 : 0 ≤ cursor.blockHeight) :
    delivered db (query.after cursor.toCursor) iterations =
      .ok (((streamSortables db args answer 0 (Int.range cursor.blockHeight (readyHeight + 1))).filter
        (fun s => cursor < s.sequence)).map SortableFeedItem.toOrdered) := by
  have henough := h.enough
  have hitems := sentItems_streamRun hsubscribed.ready hchain h0 (some cursor) h.attentive (by omega)
  rw [streamItems_some 0 fun height hmem => (Int.mem_range_iff.mp hmem).1] at hitems
  rw [delivered, hsubscribed.after hwide h0, ← hitems]
  rfl

/-- Resuming is exact when what a stream from the block of each item has above the item is what follows it. -/
theorem resumesExactly_iff_filter : ResumesExactly answer db query readyHeight ↔
    ∀ pre s post, streamSortables db args answer 0 (Int.range 0 (readyHeight + 1)) = pre ++ s :: post →
      (streamSortables db args answer 0 (Int.range s.sequence.blockHeight (readyHeight + 1))).filter
        (fun t => s.sequence < t.sequence) = post := by
  have hkeys : ∀ {s}, s ∈ streamSortables db args answer 0 (Int.range 0 (readyHeight + 1)) →
      0 ≤ s.sequence.blockHeight ∧ s.sequence.Wide := fun hs =>
    ⟨(Int.mem_range_iff.mp (sequence_of_mem_streamSortables hs).1).1, (sequence_of_mem_streamSortables hs).2⟩
  constructor
  · intro hexact pre s post heq
    obtain ⟨iterations, hreaches⟩ := exists_reaches answer db readyHeight
    obtain ⟨h0, hwide⟩ := hkeys (by rw [heq]; simp : s ∈ _)
    have hfirst := delivered_fromZero hsubscribed hchain hreaches
    rw [heq, List.map_append, List.map_cons] at hfirst
    have hpost := hexact iterations iterations hreaches hreaches _ _ _ hfirst
    rw [SortableFeedItem.toOrdered, delivered_after hsubscribed hchain hreaches hwide h0] at hpost
    refine eq_of_map_toOrdered (fun t ht => (sequence_of_mem_streamSortables (List.mem_of_mem_filter ht)).2) ?_
      (Except.ok.inj hpost)
    exact fun t ht => (hkeys (by rw [heq]; simp [ht] : t ∈ _)).2
  · intro hfilter iterations iterations' hreaches hreaches' pre item post hdelivered
    have hfirst := delivered_fromZero hsubscribed hchain hreaches
    obtain ⟨pre', rest, hstream, rfl, hrest⟩ := List.map_eq_append_iff.mp (Except.ok.inj (hfirst.symm.trans hdelivered))
    obtain ⟨s, post', rfl, rfl, rfl⟩ := List.map_eq_cons_iff.mp hrest
    obtain ⟨h0, hwide⟩ := hkeys (by rw [hstream]; simp : s ∈ _)
    rw [SortableFeedItem.toOrdered, delivered_after hsubscribed hchain hreaches' hwide h0,
      hfilter pre' s post' hstream]

/-- **Resuming a stream.** With a merkle source that answers every request with one update, subscribing after any item
of the stream from height 0 delivers what follows it, exactly when the keys of every block are distinct and the gap is
kept in every block with items. -/
theorem resumesExactly_iff : ResumesExactly answer db query readyHeight ↔
    ∀ height, 0 ≤ height → height ≤ readyHeight →
      KeysDistinct db args height ∧ (HasRows db args height → GapKept db args readyHeight height) := by
  have hafter : (∀ height, 0 ≤ height → height ≤ readyHeight → KeysDistinct db args height) →
      ∀ pre s post, streamSortables db args answer 0 (Int.range 0 (readyHeight + 1)) = pre ++ s :: post →
        ((streamSortables db args answer 0 (Int.range s.sequence.blockHeight (readyHeight + 1))).filter
            (fun t => s.sequence < t.sequence) = post ↔
          ∀ next ∈ (treeRows db args s.sequence.blockHeight (readyHeight + 1)).head?,
            next.2.1 ≤ 0 ∨ treeIndex db args s.sequence.blockHeight = 0 ∨ updateKey next.1 ≤ s.sequence) := by
    intro hdistinct pre s post heq
    have hs : s ∈ streamSortables db args answer 0 (Int.range 0 (readyHeight + 1)) := by rw [heq]; simp
    obtain ⟨hlo, hhi, -⟩ := mem_streamSortables_zero.mp hs
    have hstrict : (streamSortables db args answer 0 (Int.range 0 (readyHeight + 1))).Pairwise
        (fun a b => a.sequence < b.sequence) :=
      pairwise_lt_streamSortables 0 fun height h₁ h₂ => hdistinct height h₁ (by omega)
    rw [heq] at hstrict
    have hpost := filter_lt_of_pairwise_lt (fun t : SortableFeedItem => t.sequence) hstrict
    rw [← heq, filter_streamSortables_zero hlo (by omega)] at hpost
    rw [← filter_streamSortables_eq_iff (treeIndex_nonneg db args _)
      (fun height h₁ h₂ => hdistinct height (by omega) (by omega)) s.sequence, hpost]
  rw [resumesExactly_iff_filter hsubscribed hchain]
  constructor
  · intro hfilter
    have hstrict : (streamSortables db args answer 0 (Int.range 0 (readyHeight + 1))).Pairwise
        (fun a b => a.sequence < b.sequence) := by
      refine pairwise_of_forall_after fun pre s post heq t ht => ?_
      rw [← hfilter pre s post heq] at ht
      exact of_decide_eq_true (List.mem_filter.mp ht).2
    have hdistinct := nodup_streamSortables_iff.mp (List.pairwise_map.mpr (hstrict.imp ne_of_lt))
    refine fun height h0 hle => ⟨hdistinct height h0 (by omega), (gapKept_iff answer).mpr fun s hs => ?_⟩
    obtain rfl := (sequence_of_mem_blockStream hs).1
    obtain ⟨pre, post, heq⟩ := List.append_of_mem (mem_streamSortables_zero.mpr ⟨h0, hle, hs⟩)
    exact (hafter (fun height h₁ h₂ => hdistinct height h₁ (by omega)) pre s post heq).mp (hfilter pre s post heq)
  · intro h pre s post heq
    have hs : s ∈ streamSortables db args answer 0 (Int.range 0 (readyHeight + 1)) := by rw [heq]; simp
    obtain ⟨hlo, hhi, hblock⟩ := mem_streamSortables_zero.mp hs
    refine (hafter (fun height h₁ h₂ => (h height h₁ h₂).1) pre s post heq).mpr ?_
    exact (gapKept_iff answer).mp (h _ hlo hhi).2 s hblock

end Exact

namespace Sample

def subscribeQuery : SubscribeQuery :=
  { sessionId := hexEncode sessionId, includeNullifiers := false, includeTxMeta := false }

/-- The update `[fromIndex, toIndex - 1]` for every range. -/
def answer : MerkleAnswer :=
  ⟨fun fromIndex toIndex => ⟨fromIndex, toIndex - 1, "aa", 1⟩, fun _ _ => rfl, fun _ _ => rfl,
    fun _ _ => (by decide : 1 < 2 ^ 32)⟩

/-- Two blocks: a relevant transaction of the index range `[0, 2)` in the first one, and in the second one a transaction
that creates a UTXO and then a relevant transaction of the range `[5, 7)`. -/
def treeChain : Database :=
  ⟨{ tables [block 0 1 0, block 1 2 1] [transaction 1 0, transaction 2 1, transaction 3 1] [utxo 1 2 none] with
      relevantTransactions := [⟨1, 1⟩, ⟨1, 3⟩]
      regularTransactions := [⟨1, none, none, some 0, some 2, none, none, none⟩,
        ⟨3, none, none, some 5, some 7, none, none, none⟩] }, by decide⟩

/-- The same chain without the UTXO. -/
def treeOnly : Database :=
  ⟨{ tables [block 0 1 0, block 1 2 1] [transaction 1 0, transaction 3 1] [] with
      relevantTransactions := [⟨1, 1⟩, ⟨1, 3⟩]
      regularTransactions := [⟨1, none, none, some 0, some 2, none, none, none⟩,
        ⟨3, none, none, some 5, some 7, none, none, none⟩] }, by decide⟩

/-- An iteration of a client that takes every event, with an upstream that answers every request. -/
def attentiveIteration (db : Database) : Iteration := ⟨false, .ok db, false, answer.merkle, 50⟩

theorem reaches (db : Database) : Reaches answer db 1 [attentiveIteration db, attentiveIteration db] := by
  refine ⟨fun e hmem => ?_, (by decide : (1 : Int) + 1 ≤ 2)⟩
  have heq : e = attentiveIteration db := by simpa using hmem
  rw [heq]
  exact ⟨rfl, rfl, answer.answers_merkle, le_rfl⟩

theorem subscribed {db : Database} {readyHeight : Int}
    (hbegin : subscribeFeed db subscribeQuery.fromZero = .ok ⟨args, .initial 0 none⟩)
    (hready : WalletReady db sessionId readyHeight) : Subscribed db subscribeQuery args readyHeight :=
  ⟨⟨_, hbegin⟩, hready⟩

end Sample

/-- Where every block with items starts with its relevant transaction, the stream resumes after each of its items. -/
theorem resumesExactly_treeOnly : ResumesExactly Sample.answer Sample.treeOnly Sample.subscribeQuery 1 := by
  refine (resumesExactly_iff (Sample.subscribed rfl (by decide)) (by decide)).mpr fun height h0 h1 => ?_
  rcases (by omega : height = 0 ∨ height = 1) with rfl | rfl
  · decide
  · decide

/-- After the UTXO of the second block, the first stream goes on with the update `[2, 4]` and the resumed one with
`[0, 4]`. -/
theorem not_resumesExactly_treeChain : Subscribed Sample.treeChain Sample.subscribeQuery Sample.args 1 ∧
    Sample.treeChain.ChainUpTo 1 ∧ ¬ ResumesExactly Sample.answer Sample.treeChain Sample.subscribeQuery 1 := by
  refine ⟨Sample.subscribed rfl (by decide), by decide, fun hexact => ?_⟩
  have hpost := hexact _ _ (Sample.reaches _) (Sample.reaches _) _ _ _ (rfl : _ = Except.ok ([_] ++ _ :: [_, _]))
  exact absurd hpost (by decide)

end NocyWalletFeed
