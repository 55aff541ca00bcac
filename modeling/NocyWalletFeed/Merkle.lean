import NocyWalletFeed.Stream
import NocyWalletFeed.Library.Walk

/-!
# The merkle positions of a stream

* `txRange`, `MerkleStep` : what an item of the stream covers of the commitment tree;
* `inlineUpdates_along` : the updates injected for a gap fill it, where there are any;
* `streamShieldedItems_advances` : the items pushed for the relevant transactions of a block, in the order they are
  pushed;
* `bundleSteps_streamBundle` : sorting a bundle keeps that order;
* `filledAlong_streamRun` : where the ranges delivered increase, every update of a run starts at the current position,
  and so does every transaction unless the request for the gap before it has no answer.
-/

namespace NocyWalletFeed
open Codec OrderBy Relational Machine Walk

/-! ## Index ranges -/

/-- The index range `[start, end)` of a transaction. -/
def txRange (db : Database) (txId : Int) : Option (Int × Int) :=
  (db.regularTransactions.find? (fun reg => reg.id = txId)).bind fun reg =>
    reg.startIndex.bind fun startIndex => reg.endIndex.map fun endIndex => (startIndex, endIndex)

/-- The index range of a relevant transaction, as its row has it. -/
def RelevantTxRow.range (row : RelevantTxRow) : Option (Int × Int) :=
  row.startIndex.bind fun startIndex => row.endIndex.map fun endIndex => (startIndex, endIndex)

theorem txRange_of_mem_relevant {db : Database} {sessionId : Bytes} {fromHeight toHeight : Int} {row : RelevantTxRow}
    (h : row ∈ getRelevantTransactions db sessionId fromHeight toHeight) : txRange db row.txId = row.range := by
  obtain ⟨⟨tb, reg⟩, hjoined, rfl⟩ := List.mem_map.mp ((mem_sortBy _).mp h)
  rcases mem_leftJoin hjoined with ⟨reg, hreg, hon, rfl⟩ | ⟨rfl, hnone⟩
  · have hid : reg.id = tb.1.id := by simpa using hon
    have hfind : db.regularTransactions.find? (fun r => r.id = tb.1.id) = some reg :=
      find?_key db.constraints.regularTransactionIds hreg hid
    rw [txRange, toRelevantTxRow, hfind]
    rfl
  · have hfind : db.regularTransactions.find? (fun r => r.id = tb.1.id) = none :=
      List.find?_eq_none.mpr fun reg hreg => by simpa using hnone reg hreg
    rw [txRange, toRelevantTxRow, hfind]
    rfl

/-! ## Steps over the tree -/

/-- What moves the position of a client: the start of an iteration, with the merkle sources its requests meet, an
update, with both ends of its range included, or a relevant transaction, with the end of its range excluded. -/
inductive MerkleStep where
  | iteration (merkle : MerkleBehaviour)
  | update (startIndex endIndex : Int)
  | tx (startIndex endIndex : Int)

/-- A client's position: the index after the last update or transaction, the index after the last transaction, and the
number of gaps between transactions so far in the iteration. -/
structure TreePosition where
  index : Int
  txEnd : Int
  requests : Nat
  merkle : MerkleBehaviour

/-- The position of a client that has received nothing. -/
def TreePosition.zero : TreePosition := ⟨0, 0, 0, fun _ _ _ => ⟨none, .ok (), []⟩⟩

def TreePosition.move (p : TreePosition) : MerkleStep → TreePosition
  | .iteration merkle => ⟨p.index, p.txEnd, 0, merkle⟩
  | .update _ endIndex => { p with index := endIndex + 1 }
  | .tx startIndex endIndex =>
    ⟨endIndex, endIndex, if p.txEnd < startIndex then p.requests + 1 else p.requests, p.merkle⟩

/-- An update or a transaction starts at the current index. -/
def StartsAt (p : TreePosition) : MerkleStep → Prop
  | .iteration _ => True
  | .update startIndex _ => startIndex = p.index
  | .tx startIndex _ => startIndex = p.index

/-- Neither source answers a request for a range: the cache is not there, cannot be read or does not cover it, and the
upstream fails or has no update. -/
structure MerkleSources.Unanswered (sources : MerkleSources) (fromIndex toIndex : Int) : Prop where
  cache : ∀ rows, sources.cache = some (.ok rows) →
    coversRange (getCachedUpdates rows fromIndex toIndex) fromIndex toIndex = false
  upstream : ∀ updates, fetchMerkleUpdates sources.upstream fromIndex toIndex = .ok updates → updates = []

/-- The same, but a transaction may lie behind a gap that neither source has an answer for. -/
def Filled (p : TreePosition) : MerkleStep → Prop
  | .iteration _ => True
  | .update startIndex _ => startIndex = p.index
  | .tx startIndex _ => startIndex = p.index ∨
      (p.index < startIndex ∧ (p.merkle p.requests p.index startIndex).Unanswered p.index startIndex)

def MerkleStep.range : MerkleStep → Option (Int × Int)
  | iteration _ => none
  | update _ _ => none
  | tx startIndex endIndex => some (startIndex, endIndex)

/-- A range that starts at or after the end of the one before, and does not end before it starts. -/
def Follows (txEnd : Int) (range : Int × Int) : Prop := txEnd ≤ range.1 ∧ range.1 ≤ range.2

instance (p : TreePosition) (step : MerkleStep) : Decidable (StartsAt p step) := by
  cases step <;> unfold StartsAt <;> infer_instance

instance (txEnd : Int) (range : Int × Int) : Decidable (Follows txEnd range) := inferInstanceAs (Decidable (_ ∧ _))

/-- The transactions of some steps have ranges that do not overlap and increase, from an index on. -/
def RangesIncrease (txEnd : Int) (steps : List MerkleStep) : Prop :=
  Along Follows (fun _ range => range.2) txEnd (steps.filterMap MerkleStep.range)

instance (txEnd : Int) (steps : List MerkleStep) : Decidable (RangesIncrease txEnd steps) :=
  inferInstanceAs (Decidable (Along _ _ _ _))

/-- Every update and every transaction starts at the position the steps before it lead to. -/
def SelfContained (steps : List MerkleStep) : Prop := Along StartsAt TreePosition.move .zero steps

instance (steps : List MerkleStep) : Decidable (SelfContained steps) := inferInstanceAs (Decidable (Along _ _ _ _))

/-- The same, but for the transactions whose request has no answer. -/
def FilledAlong (p : TreePosition) (steps : List MerkleStep) : Prop := Along Filled TreePosition.move p steps

/-! ## Advancing -/

/-- Steps lead from one position to another, given that the ranges of their transactions increase. -/
def Advances (p q : TreePosition) (steps : List MerkleStep) : Prop :=
  RangesIncrease p.txEnd steps → FilledAlong p steps ∧ steps.foldl TreePosition.move p = q

theorem foldl_move_txEnd (p : TreePosition) (steps : List MerkleStep) :
    (steps.foldl TreePosition.move p).txEnd =
      (steps.filterMap MerkleStep.range).foldl (fun _ range => range.2) p.txEnd := by
  induction steps generalizing p with
  | nil => rfl
  | cons step steps ih =>
    rw [List.foldl_cons, ih]
    cases step <;> rfl

theorem rangesIncrease_append {txEnd : Int} {p : TreePosition} {steps steps' : List MerkleStep} (h : p.txEnd = txEnd) :
    RangesIncrease txEnd (steps ++ steps') ↔
      RangesIncrease txEnd steps ∧ RangesIncrease (steps.foldl TreePosition.move p).txEnd steps' := by
  rw [RangesIncrease, List.filterMap_append, along_append, foldl_move_txEnd, h]
  rfl

theorem Advances.nil (p : TreePosition) : Advances p p [] := fun _ => ⟨trivial, rfl⟩

theorem Advances.append {p q r : TreePosition} {steps steps' : List MerkleStep} (h : Advances p q steps)
    (h' : Advances q r steps') : Advances p r (steps ++ steps') := by
  intro hranges
  obtain ⟨hranges, hranges'⟩ := (rangesIncrease_append rfl).mp hranges
  obtain ⟨hfilled, hfinish⟩ := h hranges
  rw [hfinish] at hranges'
  obtain ⟨hfilled', hfinish'⟩ := h' hranges'
  exact ⟨along_append.mpr ⟨hfilled, by rwa [hfinish]⟩, by rw [List.foldl_append, hfinish, hfinish']⟩

theorem Advances.of_rangesIncrease {p q : TreePosition} {steps : List MerkleStep}
    (h : RangesIncrease p.txEnd steps → Advances p q steps) : Advances p q steps := fun hranges => h hranges hranges

theorem advances_iteration (p : TreePosition) (merkle : MerkleBehaviour) :
    Advances p ⟨p.index, p.txEnd, 0, merkle⟩ [.iteration merkle] := fun _ => ⟨⟨trivial, trivial⟩, rfl⟩

theorem RangesIncrease.wellFormed {txEnd : Int} {steps : List MerkleStep} (h : RangesIncrease txEnd steps)
    (h0 : 0 ≤ txEnd) {startIndex endIndex : Int} (hmem : .tx startIndex endIndex ∈ steps) :
    0 ≤ startIndex ∧ startIndex ≤ endIndex := by
  have hrange : (startIndex, endIndex) ∈ steps.filterMap MerkleStep.range := List.mem_filterMap.mpr ⟨_, hmem, rfl⟩
  have hmove : ∀ txEnd range, 0 ≤ txEnd → Follows txEnd range → 0 ≤ range.2 :=
    fun txEnd range hp hfollows => (hp.trans hfollows.1).trans hfollows.2
  have hwalk : Along Follows (fun _ range => range.2) txEnd (steps.filterMap MerkleStep.range) := h
  obtain ⟨q, hq, hfollows⟩ := hwalk.exists_of_mem (fun txEnd => 0 ≤ txEnd) hmove h0 hrange
  exact ⟨hq.trans hfollows.1, hfollows.2⟩

/-! ## Injected updates -/

def updateSteps (updates : List MerkleCollapsedUpdate) : List MerkleStep :=
  updates.map fun update => .update update.startIndex update.endIndex

theorem filledAlong_of_chainEnd {updates : List CachedMerkleUpdate} {p : TreePosition} {toIndex : Int}
    (h : chainEnd p.index updates = some toIndex) :
    FilledAlong p (updates.map fun update => .update update.startIndex update.endIndex) ∧
      List.foldl TreePosition.move p (updates.map fun update => .update update.startIndex update.endIndex) =
        { p with index := toIndex } := by
  induction updates generalizing p with
  | nil =>
    obtain rfl := Option.some.inj h
    exact ⟨trivial, rfl⟩
  | cons update updates ih =>
    unfold chainEnd at h
    split_ifs at h with hstart hend
    obtain ⟨hfilled, hfinish⟩ := ih (p := p.move (.update update.startIndex update.endIndex)) h
    exact ⟨⟨not_not.mp hstart, hfilled⟩, hfinish⟩

theorem chainEnd_of_coversRange {updates : List CachedMerkleUpdate} {fromIndex toIndex : Int}
    (hlt : fromIndex < toIndex) (h : coversRange updates fromIndex toIndex = true) :
    chainEnd fromIndex updates = some toIndex := by
  unfold coversRange at h
  rw [if_neg (not_le.mpr hlt)] at h
  cases updates with
  | nil => cases h
  | cons first rest =>
    dsimp only at h
    split_ifs at h
    cases hchain : chainEnd fromIndex (first :: rest) with
    | none =>
      rw [hchain] at h
      cases h
    | some expectedStart =>
      rw [hchain] at h
      have heq : expectedStart = toIndex - 1 + 1 := of_decide_eq_true h
      rw [heq, sub_add_cancel]

theorem filledAlong_single {p : TreePosition} {startIndex endIndex toIndex : Int} (hstart : startIndex = p.index)
    (hend : endIndex = toIndex - 1) : FilledAlong p [.update startIndex endIndex] ∧
      List.foldl TreePosition.move p [.update startIndex endIndex] = { p with index := toIndex } := by
  refine ⟨⟨hstart, trivial⟩, ?_⟩
  rw [List.foldl_cons, List.foldl_nil, TreePosition.move, hend, sub_add_cancel]

/-- The updates injected for a range: none, cached ones that cover it, or a single one that is exactly the range. -/
theorem inlineUpdates_cases (sources : MerkleSources) (fromIndex toIndex : Int) :
    inlineUpdates sources fromIndex toIndex = [] ∨
      (∃ rows, coversRange (getCachedUpdates rows fromIndex toIndex) fromIndex toIndex = true ∧
        inlineUpdates sources fromIndex toIndex = (getCachedUpdates rows fromIndex toIndex).map fun update =>
          ⟨update.startIndex, update.endIndex, update.updateHex, asU32 update.protocolVersion⟩) ∨
      ∃ update, inlineUpdates sources fromIndex toIndex = [update] ∧ update.startIndex = fromIndex ∧
        update.endIndex = toIndex - 1 := by
  unfold inlineUpdates
  cases hcache : cachedInlineUpdates sources.cache fromIndex toIndex with
  | some updates =>
    unfold cachedInlineUpdates at hcache
    match hrows : sources.cache with
    | some (.ok rows) =>
      rw [hrows] at hcache
      dsimp only at hcache
      split_ifs at hcache with hcovers
      exact Or.inr (Or.inl ⟨rows, hcovers, (Option.some.inj hcache).symm⟩)
    | some (.error e) =>
      rw [hrows] at hcache
      cases hcache
    | none =>
      rw [hrows] at hcache
      cases hcache
  | none =>
    cases hfetch : fetchMerkleUpdates sources.upstream fromIndex toIndex with
    | error e => exact Or.inl rfl
    | ok updates =>
      rcases fetchMerkleUpdates_cases hfetch with rfl | ⟨update, rfl, hstart, hend, -⟩
      · exact Or.inl rfl
      · exact Or.inr (Or.inr ⟨_, rfl, hstart, hend⟩)

/-- Nothing is injected only where neither source has an answer. -/
theorem unanswered_of_inlineUpdates {sources : MerkleSources} {fromIndex toIndex : Int} (hlt : fromIndex < toIndex)
    (h : inlineUpdates sources fromIndex toIndex = []) : sources.Unanswered fromIndex toIndex := by
  have hmiss : ∀ rows, sources.cache = some (.ok rows) →
      coversRange (getCachedUpdates rows fromIndex toIndex) fromIndex toIndex = false := by
    intro rows hrows
    by_contra hcovers
    rw [Bool.not_eq_false] at hcovers
    rw [inlineUpdates, hrows, cachedInlineUpdates, if_pos hcovers] at h
    rw [List.map_eq_nil_iff.mp h, coversRange, if_neg (not_le.mpr hlt)] at hcovers
    cases hcovers
  have hcached : cachedInlineUpdates sources.cache fromIndex toIndex = none := by
    match hrows : sources.cache with
    | none => rfl
    | some (.error e) => rfl
    | some (.ok rows) => rw [cachedInlineUpdates, if_neg (Bool.eq_false_iff.mp (hmiss rows hrows))]
  refine ⟨hmiss, fun updates hfetch => ?_⟩
  rw [inlineUpdates, hcached, hfetch] at h
  exact List.map_eq_nil_iff.mp h

/-- **The updates injected for a gap fill it exactly**, where there are any. -/
theorem inlineUpdates_along (sources : MerkleSources) {p : TreePosition} {toIndex : Int} (hlt : p.index < toIndex) :
    inlineUpdates sources p.index toIndex = [] ∨
      (FilledAlong p (updateSteps (inlineUpdates sources p.index toIndex)) ∧
        (updateSteps (inlineUpdates sources p.index toIndex)).foldl TreePosition.move p =
          { p with index := toIndex }) := by
  rcases inlineUpdates_cases sources p.index toIndex with hnil | ⟨rows, hcovers, heq⟩ | ⟨update, heq, hstart, hend⟩
  · exact Or.inl hnil
  · rw [heq, updateSteps, List.map_map]
    exact Or.inr (filledAlong_of_chainEnd (chainEnd_of_coversRange hlt hcovers))
  · rw [heq]
    exact Or.inr (filledAlong_single hstart hend)

theorem needUpdate_iff (lastMerkleEndIndex txStartIndex : Int) :
    needUpdate lastMerkleEndIndex txStartIndex = true ↔ gapStart lastMerkleEndIndex < txStartIndex := by
  unfold needUpdate gapStart
  split_ifs <;> simp

theorem gapStart_nonneg (lastMerkleEndIndex : Int) : 0 ≤ gapStart lastMerkleEndIndex := by
  unfold gapStart
  split_ifs <;> omega

theorem gapStart_of_nonneg {lastMerkleEndIndex : Int} (h : 0 ≤ lastMerkleEndIndex) :
    gapStart lastMerkleEndIndex = lastMerkleEndIndex := if_neg (not_lt.mpr h)

section Inject
variable {merkle : MerkleBehaviour} {position : MerklePosition} {row : RelevantTxRow}

theorem injectUpdates_of_range_eq_none (h : row.range = none) : injectUpdates merkle position row = ([], position) := by
  unfold RelevantTxRow.range at h
  unfold injectUpdates
  cases hstart : row.startIndex with
  | none => rfl
  | some startIndex =>
    cases hend : row.endIndex with
    | none => rfl
    | some endIndex =>
      rw [hstart, hend] at h
      cases h

/-- A transaction with a range moves the position to its end, and asks for the gap before it if there is one. -/
theorem injectUpdates_of_range_eq_some {startIndex endIndex : Int} (h : row.range = some (startIndex, endIndex)) :
    injectUpdates merkle position row =
      if gapStart position.lastMerkleEndIndex < startIndex then
        (inlineUpdates (merkle position.requests (gapStart position.lastMerkleEndIndex) startIndex)
          (gapStart position.lastMerkleEndIndex) startIndex, ⟨endIndex, position.requests + 1⟩)
      else ([], ⟨endIndex, position.requests⟩) := by
  unfold RelevantTxRow.range at h
  unfold injectUpdates
  cases hstart : row.startIndex with
  | none =>
    rw [hstart] at h
    cases h
  | some startIndex' =>
    cases hend : row.endIndex with
    | none =>
      rw [hstart, hend] at h
      cases h
    | some endIndex' =>
      rw [hstart, hend] at h
      obtain ⟨rfl, rfl⟩ := Prod.mk.inj (Option.some.inj h)
      simp only [needUpdate_iff]

theorem injectUpdates_lastMerkleEndIndex {startIndex endIndex : Int} (h : row.range = some (startIndex, endIndex)) :
    (injectUpdates merkle position row).2.lastMerkleEndIndex = endIndex := by
  rw [injectUpdates_of_range_eq_some h]
  split_ifs <;> rfl

theorem injectUpdates_of_le {range : Int × Int} (h : row.range = some range)
    (hle : range.1 ≤ gapStart position.lastMerkleEndIndex) : (injectUpdates merkle position row).1 = [] := by
  have h' : row.range = some (range.1, range.2) := h
  rw [injectUpdates_of_range_eq_some h', if_neg (not_lt.mpr hle)]

theorem le_gapStart_injectUpdates {range : Int × Int} (h : row.range = some range) (hle : range.1 ≤ range.2) :
    range.1 ≤ gapStart (injectUpdates merkle position row).2.lastMerkleEndIndex := by
  have h' : row.range = some (range.1, range.2) := h
  rw [injectUpdates_lastMerkleEndIndex h']
  unfold gapStart
  split_ifs <;> omega

end Inject

/-! ## Items -/

/-- The step an item makes a client take. -/
def merkleStep (db : Database) : FeedItem → Option MerkleStep
  | .merkleCollapsedUpdate update => some (.update update.startIndex update.endIndex)
  | .shieldedRelevantTx tx => (txRange db tx.txId).map fun range => .tx range.1 range.2
  | _ => none

def itemSteps (db : Database) (items : List FeedItem) : List MerkleStep := items.filterMap (merkleStep db)

theorem itemSteps_append (db : Database) (items items' : List FeedItem) :
    itemSteps db (items ++ items') = itemSteps db items ++ itemSteps db items' := List.filterMap_append

theorem map_item_updateItems (height txId : Int) (updates : List MerkleCollapsedUpdate) :
    (updateItems height txId updates).map (·.item) = updates.map .merkleCollapsedUpdate := by
  rw [updateItems, List.mapIdx_eq_zipIdx_map, List.map_map]
  conv_rhs => rw [← List.zipIdx_map_fst 0 updates, List.map_map]
  rfl

theorem itemSteps_updates (db : Database) (updates : List MerkleCollapsedUpdate) :
    itemSteps db (updates.map .merkleCollapsedUpdate) = updateSteps updates := by
  rw [itemSteps, List.filterMap_map, updateSteps, ← List.filterMap_eq_map]
  rfl

def TreePosition.ofStream (merkle : MerkleBehaviour) (position : MerklePosition) : TreePosition :=
  ⟨gapStart position.lastMerkleEndIndex, gapStart position.lastMerkleEndIndex, position.requests, merkle⟩

/-! ## One transaction -/

section Tx
variable (merkle : MerkleBehaviour) (position : MerklePosition) {startIndex endIndex : Int}

theorem RangesIncrease.last {txEnd : Int} {updates : List MerkleCollapsedUpdate}
    (h : RangesIncrease txEnd (updateSteps updates ++ [.tx startIndex endIndex])) :
    Follows txEnd (startIndex, endIndex) := by
  have hnone : (updateSteps updates).filterMap MerkleStep.range = [] := by
    rw [updateSteps, List.filterMap_map]
    exact List.filterMap_eq_nil_iff.mpr fun _ _ => rfl
  rw [RangesIncrease, List.filterMap_append, hnone] at h
  exact h.1

theorem Follows.gapStart_eq {lastMerkleEndIndex : Int}
    (h : Follows (gapStart lastMerkleEndIndex) (startIndex, endIndex)) : gapStart endIndex = endIndex :=
  gapStart_of_nonneg (((gapStart_nonneg lastMerkleEndIndex).trans h.1).trans h.2)

theorem advances_gap (hlt : gapStart position.lastMerkleEndIndex < startIndex) :
    Advances (.ofStream merkle position) (.ofStream merkle ⟨endIndex, position.requests + 1⟩)
      (updateSteps (inlineUpdates (merkle position.requests (gapStart position.lastMerkleEndIndex) startIndex)
        (gapStart position.lastMerkleEndIndex) startIndex) ++ [.tx startIndex endIndex]) := by
  intro hranges
  have hend := hranges.last.gapStart_eq
  rcases inlineUpdates_along (merkle position.requests (gapStart position.lastMerkleEndIndex) startIndex)
    (p := .ofStream merkle position) hlt with hnil | ⟨hfilled, hfinish⟩
  · dsimp only [TreePosition.ofStream] at hnil ⊢
    rw [hnil]
    refine ⟨⟨Or.inr ⟨hlt, unanswered_of_inlineUpdates hlt hnil⟩, trivial⟩, ?_⟩
    simp [updateSteps, TreePosition.move, hend, hlt]
  · dsimp only [TreePosition.ofStream] at hfilled hfinish ⊢
    refine ⟨along_append.mpr ⟨hfilled, ?_⟩, ?_⟩
    · rw [hfinish]
      exact ⟨Or.inl rfl, trivial⟩
    · rw [List.foldl_append, hfinish]
      simp [TreePosition.move, hend, hlt]

theorem advances_noGap (hlt : ¬ gapStart position.lastMerkleEndIndex < startIndex) :
    Advances (.ofStream merkle position) (.ofStream merkle ⟨endIndex, position.requests⟩)
      [.tx startIndex endIndex] := by
  intro hranges
  have hfollows : Follows (gapStart position.lastMerkleEndIndex) (startIndex, endIndex) := hranges.1
  have hstart : startIndex = gapStart position.lastMerkleEndIndex := le_antisymm (not_lt.mp hlt) hfollows.1
  refine ⟨⟨Or.inl hstart, trivial⟩, ?_⟩
  simp [TreePosition.move, TreePosition.ofStream, hfollows.gapStart_eq, hlt]

end Tx

section Rows
variable {db : Database} (w : WindowRows) (height : Int) (merkle : MerkleBehaviour)

def rowItems (position : MerklePosition) (row : RelevantTxRow) : List SortableFeedItem :=
  updateItems height row.txId (injectUpdates merkle position row).1 ++ [w.shieldedItem height row]

theorem streamShieldedItems_cons (position : MerklePosition) (row : RelevantTxRow) (rows : List RelevantTxRow) :
    streamShieldedItems w height merkle position (row :: rows) =
      (rowItems w height merkle position row ++
          (streamShieldedItems w height merkle (injectUpdates merkle position row).2 rows).1,
        (streamShieldedItems w height merkle (injectUpdates merkle position row).2 rows).2) := by
  rw [rowItems, List.append_assoc]
  rfl

theorem streamShieldedItems_append (position : MerklePosition) (rows rows' : List RelevantTxRow) :
    streamShieldedItems w height merkle position (rows ++ rows') =
      ((streamShieldedItems w height merkle position rows).1 ++
          (streamShieldedItems w height merkle (streamShieldedItems w height merkle position rows).2 rows').1,
        (streamShieldedItems w height merkle (streamShieldedItems w height merkle position rows).2 rows').2) := by
  induction rows generalizing position with
  | nil => rfl
  | cons row rows ih =>
    rw [List.cons_append, streamShieldedItems_cons, streamShieldedItems_cons, ih]
    dsimp only
    rw [List.append_assoc]

theorem itemSteps_rowItems (position : MerklePosition) {row : RelevantTxRow} (h : txRange db row.txId = row.range) :
    itemSteps db ((rowItems w height merkle position row).map (·.item)) =
      updateSteps (injectUpdates merkle position row).1 ++ (row.range.map fun range => .tx range.1 range.2).toList := by
  rw [rowItems, List.map_append, itemSteps_append, map_item_updateItems, itemSteps_updates, ← h]
  congr 1

theorem advances_rowItems (position : MerklePosition) {row : RelevantTxRow} (h : txRange db row.txId = row.range) :
    Advances (.ofStream merkle position) (.ofStream merkle (injectUpdates merkle position row).2)
      (itemSteps db ((rowItems w height merkle position row).map (·.item))) := by
  rw [itemSteps_rowItems w height merkle position h]
  cases hrange : row.range with
  | none =>
    rw [injectUpdates_of_range_eq_none hrange]
    exact Advances.nil _
  | some range =>
    obtain ⟨startIndex, endIndex⟩ := range
    rw [injectUpdates_of_range_eq_some hrange]
    split_ifs with hlt
    · exact advances_gap merkle position hlt
    · exact advances_noGap merkle position hlt

theorem streamShieldedItems_advances (position : MerklePosition) {rows : List RelevantTxRow}
    (h : ∀ row ∈ rows, txRange db row.txId = row.range) :
    Advances (.ofStream merkle position) (.ofStream merkle (streamShieldedItems w height merkle position rows).2)
      (itemSteps db ((streamShieldedItems w height merkle position rows).1.map (·.item))) := by
  induction rows generalizing position with
  | nil => exact Advances.nil _
  | cons row rows ih =>
    rw [streamShieldedItems_cons, List.map_append, itemSteps_append]
    exact (advances_rowItems w height merkle position (h row List.mem_cons_self)).append
      (ih _ fun row' hmem => h row' (List.mem_cons_of_mem row hmem))

/-! ## The order of a bundle -/

/-- The key of an item pushed for a relevant transaction: updates come before the transaction. -/
theorem sequence_of_mem_rowItems {position : MerklePosition} {row : RelevantTxRow} {s : SortableFeedItem}
    (h : s ∈ rowItems w height merkle position row) : ∃ ordinal, s.sequence = ⟨height, row.txId, PHASE_TX, ordinal⟩ ∧
      ordinal ≤ 1 ∧ ((injectUpdates merkle position row).1 = [] → ordinal = 1) := by
  rcases List.mem_append.mp h with h | h
  · obtain ⟨i, hi, rfl⟩ := List.mem_mapIdx.mp h
    refine ⟨_, rfl, by omega, fun hnil => ?_⟩
    rw [hnil] at hi
    exact absurd hi (Nat.not_lt_zero i)
  · rw [List.mem_singleton.mp h]
    exact ⟨1, rfl, le_rfl, fun _ => rfl⟩

theorem pairwise_rowItems (position : MerklePosition) (row : RelevantTxRow) :
    (rowItems w height merkle position row).Pairwise (fun s s' => s.sequence ≤ s'.sequence) := by
  refine List.pairwise_append.mpr ⟨?_, List.pairwise_singleton _ _, fun s hs s' hs' => ?_⟩
  · rw [List.pairwise_iff_getElem]
    intro i j hi hj hlt
    simp only [updateItems, List.getElem_mapIdx]
    exact SequenceKey.le_iff.mpr (Or.inr ⟨rfl, Or.inr ⟨rfl, Or.inr ⟨rfl, by dsimp only; omega⟩⟩⟩)
  · obtain ⟨ordinal, hkey, hle, -⟩ := sequence_of_mem_rowItems w height merkle (List.mem_append_left _ hs)
    rw [List.mem_singleton.mp hs', hkey]
    exact SequenceKey.le_iff.mpr (Or.inr ⟨rfl, Or.inr ⟨rfl, Or.inr ⟨rfl, hle⟩⟩⟩)

theorem exists_row_of_mem {position : MerklePosition} {rows : List RelevantTxRow} {s : SortableFeedItem}
    (h : s ∈ (streamShieldedItems w height merkle position rows).1) :
    ∃ row ∈ rows, ∃ ordinal, s.sequence = ⟨height, row.txId, PHASE_TX, ordinal⟩ := by
  induction rows generalizing position with
  | nil => cases h
  | cons row rows ih =>
    rw [streamShieldedItems_cons] at h
    rcases List.mem_append.mp h with h | h
    · obtain ⟨ordinal, hkey, -⟩ := sequence_of_mem_rowItems w height merkle h
      exact ⟨row, List.mem_cons_self, ordinal, hkey⟩
    · obtain ⟨row', hmem, hkey⟩ := ih h
      exact ⟨row', List.mem_cons_of_mem row hmem, hkey⟩

/-- Rows in the order of their transactions, a transaction always with the same range, and a well-formed one. -/
structure RowsOrdered (rows : List RelevantTxRow) : Prop where
  sorted : rows.Pairwise (fun row row' => row.txId ≤ row'.txId)
  same : ∀ row ∈ rows, ∀ row' ∈ rows, row.txId = row'.txId → row.range = row'.range
  wellFormed : ∀ row ∈ rows, ∀ range ∈ row.range, 0 ≤ range.1 ∧ range.1 ≤ range.2

theorem RowsOrdered.tail {row : RelevantTxRow} {rows : List RelevantTxRow} (h : RowsOrdered (row :: rows)) :
    RowsOrdered rows where
  sorted := (List.pairwise_cons.mp h.sorted).2
  same := fun a ha b hb => h.same a (List.mem_cons_of_mem row ha) b (List.mem_cons_of_mem row hb)
  wellFormed := fun a ha => h.wellFormed a (List.mem_cons_of_mem row ha)

omit w height merkle in
/-- A further row of the same transaction starts at or below the position after the first. -/
theorem RowsOrdered.le_gapStart {row row' : RelevantTxRow} {rows : List RelevantTxRow} (h : RowsOrdered (row :: rows))
    (merkle : MerkleBehaviour) (position : MerklePosition) (hmem : row' ∈ rows) (hid : row.txId = row'.txId)
    {range : Int × Int} (hrange : row'.range = some range) :
    range.1 ≤ gapStart (injectUpdates merkle position row).2.lastMerkleEndIndex := by
  have hrow : row.range = some range :=
    (h.same row List.mem_cons_self row' (List.mem_cons_of_mem row hmem) hid).trans hrange
  exact le_gapStart_injectUpdates hrow (h.wellFormed row List.mem_cons_self range hrow).2

/-- Nothing is injected for a transaction that the stream has passed. -/
theorem ordinal_of_passed {rows : List RelevantTxRow} (h : RowsOrdered rows) (position : MerklePosition) (txId : Int)
    (hpassed : ∀ row ∈ rows, row.txId = txId → ∀ range ∈ row.range, range.1 ≤ gapStart position.lastMerkleEndIndex)
    {s : SortableFeedItem} (hs : s ∈ (streamShieldedItems w height merkle position rows).1)
    (hid : s.sequence.txId = txId) (hle : ∀ row ∈ rows, txId ≤ row.txId) : s.sequence.ordinal = 1 := by
  induction rows generalizing position with
  | nil => cases hs
  | cons row rows ih =>
    rw [streamShieldedItems_cons] at hs
    rcases List.mem_append.mp hs with hs | hs
    · obtain ⟨ordinal, hkey, -, hordinal⟩ := sequence_of_mem_rowItems w height merkle hs
      rw [hkey] at hid ⊢
      refine hordinal ?_
      cases hrange : row.range with
      | none => rw [injectUpdates_of_range_eq_none hrange]
      | some range => exact injectUpdates_of_le hrange (hpassed row List.mem_cons_self hid range hrange)
    · refine ih h.tail _ (fun row' hmem hid' range hrange => ?_) hs
        fun row' hmem => hle row' (List.mem_cons_of_mem row hmem)
      have hle' := List.rel_of_pairwise_cons h.sorted hmem
      have heq : row.txId = row'.txId := le_antisymm hle' (by rw [hid']; exact hle row List.mem_cons_self)
      exact h.le_gapStart merkle position hmem heq hrange

/-- **The items pushed for the relevant transactions of a block are in sequence order.** -/
theorem pairwise_streamShieldedItems {rows : List RelevantTxRow} (h : RowsOrdered rows) (position : MerklePosition) :
    (streamShieldedItems w height merkle position rows).1.Pairwise (fun s s' => s.sequence ≤ s'.sequence) := by
  induction rows generalizing position with
  | nil => exact List.Pairwise.nil
  | cons row rows ih =>
    rw [streamShieldedItems_cons]
    refine List.pairwise_append.mpr ⟨pairwise_rowItems w height merkle position row, ih h.tail _, fun s hs s' hs' => ?_⟩
    obtain ⟨ordinal, hkey, hone, -⟩ := sequence_of_mem_rowItems w height merkle hs
    obtain ⟨row', hmem, ordinal', hkey'⟩ := exists_row_of_mem w height merkle hs'
    have hle := List.rel_of_pairwise_cons h.sorted hmem
    rw [hkey, hkey', SequenceKey.le_iff]
    rcases hle.lt_or_eq with hlt | heq
    · exact Or.inr ⟨rfl, Or.inl hlt⟩
    · refine Or.inr ⟨rfl, Or.inr ⟨heq, Or.inr ⟨rfl, ?_⟩⟩⟩
      have hpassed := ordinal_of_passed w height merkle h.tail (injectUpdates merkle position row).2 row.txId
        (fun row₂ hmem₂ hid range hrange => h.le_gapStart merkle position hmem₂ hid.symm hrange) hs'
        (by rw [hkey', heq]) fun row₂ hmem₂ => List.rel_of_pairwise_cons h.sorted hmem₂
      rw [hkey'] at hpassed
      exact hone.trans_eq hpassed.symm

end Rows

/-! ## Bundles -/

def FeedItem.isTreeItem : FeedItem → Bool
  | .merkleCollapsedUpdate _ => true
  | .shieldedRelevantTx _ => true
  | _ => false

theorem merkleStep_of_not_isTreeItem (db : Database) {item : FeedItem} (h : item.isTreeItem = false) :
    merkleStep db item = none := by
  cases item with
  | merkleCollapsedUpdate update => cases h
  | shieldedRelevantTx tx => cases h
  | _ => rfl

theorem itemSteps_filter (db : Database) (l : List SortableFeedItem) :
    itemSteps db ((l.filter (·.item.isTreeItem)).map (·.item)) = itemSteps db (l.map (·.item)) := by
  rw [itemSteps, itemSteps, List.filterMap_map, List.filterMap_map, List.filterMap_filter]
  refine List.filterMap_congr fun s _ => ?_
  cases htree : s.item.isTreeItem with
  | true => rfl
  | false => exact (merkleStep_of_not_isTreeItem db htree).symm

theorem filter_assembleItems_of_tree (w : WindowRows) (height : Int) (shielded : List SortableFeedItem)
    {p : SortableFeedItem → Bool} (h : ∀ s, s.item.isTreeItem = false → p s = false) :
    (w.assembleItems height shielded).filter p = sortBy (·.sequence) (shielded.filter p) := by
  have hmeta : (w.transactionMetaItems height).filter p = [] := filter_map_eq_nil (fun _ => h _ rfl) _
  have hzswap : (w.zswapInputItems height).filter p = [] := filter_map_eq_nil (fun _ => h _ rfl) _
  have hdust : (w.dustItems height).filter p = [] := filter_map_eq_nil (fun _ => h _ rfl) _
  have hunshielded : (w.unshieldedItems height).filter p = [] := filter_map_eq_nil (fun _ => h _ rfl) _
  rw [WindowRows.assembleItems, filter_sortBy]
  simp only [List.filter_append, hmeta, hzswap, hdust, hunshielded, List.nil_append, List.append_nil]

/-- The tree items of a block are the pushed ones, in sequence order. -/
theorem filter_assembleItems (w : WindowRows) (height : Int) {shielded : List SortableFeedItem}
    (htree : ∀ s ∈ shielded, s.item.isTreeItem = true)
    (hsorted : shielded.Pairwise (fun s s' => s.sequence ≤ s'.sequence)) :
    (w.assembleItems height shielded).filter (·.item.isTreeItem) = shielded := by
  rw [filter_assembleItems_of_tree w height shielded fun _ h => h, List.filter_eq_self.mpr htree,
    sortBy_eq_self _ hsorted]

theorem isTreeItem_of_mem_streamShieldedItems (w : WindowRows) (height : Int) (merkle : MerkleBehaviour)
    {position : MerklePosition} {rows : List RelevantTxRow} {s : SortableFeedItem}
    (h : s ∈ (streamShieldedItems w height merkle position rows).1) : s.item.isTreeItem = true := by
  induction rows generalizing position with
  | nil => cases h
  | cons row rows ih =>
    rw [streamShieldedItems_cons] at h
    rcases List.mem_append.mp h with h | h
    · rcases List.mem_append.mp h with h | h
      · obtain ⟨i, hi, rfl⟩ := List.mem_mapIdx.mp h
        rfl
      · rw [List.mem_singleton.mp h]
        rfl
    · exact ih h

theorem shieldedItem_mem_streamShieldedItems (w : WindowRows) (height : Int) (merkle : MerkleBehaviour)
    (position : MerklePosition) {rows : List RelevantTxRow} {row : RelevantTxRow} (h : row ∈ rows) :
    w.shieldedItem height row ∈ (streamShieldedItems w height merkle position rows).1 := by
  induction rows generalizing position with
  | nil => cases h
  | cons row' rows ih =>
    rw [streamShieldedItems_cons]
    rcases List.mem_cons.mp h with rfl | h
    · exact List.mem_append_left _ (List.mem_append_right _ (List.mem_singleton_self _))
    · exact List.mem_append_right _ (ih _ h)

section Bundle
variable (db : Database) (args : AssemblyArgs) (fromHeight toHeight : Int) (merkle : MerkleBehaviour)

theorem txRange_of_mem_relevantAt {height : Int} {row : RelevantTxRow}
    (h : row ∈ (fetchWindow db args fromHeight toHeight).relevantAt height) : txRange db row.txId = row.range :=
  txRange_of_mem_relevant (List.mem_filter.mp h).1

theorem sorted_relevantAt (height : Int) : ((fetchWindow db args fromHeight toHeight).relevantAt height).Pairwise
    (fun row row' => row.txId ≤ row'.txId) := by
  have hsorted := (pairwise_sortBy (fun row : RelevantTxRow => toLex (row.blockHeight, row.txId)) _).filter
    (l := getRelevantTransactions db args.upstreamSessionId fromHeight toHeight) (fun row => row.blockHeight = height)
  refine hsorted.imp_of_mem fun {row row'} hrow hrow' hle => ?_
  have hheight : row.blockHeight = height := of_decide_eq_true (List.mem_filter.mp hrow).2
  have hheight' : row'.blockHeight = height := of_decide_eq_true (List.mem_filter.mp hrow').2
  rcases Prod.Lex.toLex_le_toLex.mp hle with hlt | ⟨-, hle⟩
  · dsimp only at hlt
    omega
  · exact hle

def bundleSteps (bundle : BlockBundle) : List MerkleStep := itemSteps db (bundle.items.map (·.item))

def bundlesSteps (bundles : List BlockBundle) : List MerkleStep := bundles.flatMap (bundleSteps db)

theorem tx_mem_itemSteps {w : WindowRows} {height : Int} {position : MerklePosition} {row : RelevantTxRow}
    {range : Int × Int} (hrow : row ∈ w.relevantAt height) (hrange : txRange db row.txId = some range) :
    .tx range.1 range.2 ∈ itemSteps db ((w.assembleItems height
      (streamShieldedItems w height merkle position (w.relevantAt height)).1).map (·.item)) := by
  have hmem : w.shieldedItem height row ∈ w.assembleItems height
      (streamShieldedItems w height merkle position (w.relevantAt height)).1 := by
    have := shieldedItem_mem_streamShieldedItems w height merkle position hrow
    rw [WindowRows.assembleItems, mem_sortBy]
    simp [this]
  refine List.mem_filterMap.mpr ⟨_, List.mem_map_of_mem hmem, ?_⟩
  rw [WindowRows.shieldedItem, merkleStep, hrange]
  rfl

theorem itemSteps_bundle (position : MerklePosition) (blockMeta : BlockMeta) :
    bundleSteps db (streamBundle (fetchWindow db args fromHeight toHeight) merkle position blockMeta).1 =
      itemSteps db (((fetchWindow db args fromHeight toHeight).assembleItems blockMeta.height
        (streamShieldedItems (fetchWindow db args fromHeight toHeight) blockMeta.height merkle position
          ((fetchWindow db args fromHeight toHeight).relevantAt blockMeta.height)).1).map (·.item)) := by
  rw [bundleSteps, streamBundle, List.map_map]
  rfl

/-- **Sorting a bundle keeps the order of its updates and relevant transactions.** -/
theorem bundleSteps_streamBundle (position : MerklePosition) (blockMeta : BlockMeta)
    (hordered : RowsOrdered ((fetchWindow db args fromHeight toHeight).relevantAt blockMeta.height)) :
    bundleSteps db (streamBundle (fetchWindow db args fromHeight toHeight) merkle position blockMeta).1 =
      itemSteps db ((streamShieldedItems (fetchWindow db args fromHeight toHeight) blockMeta.height merkle position
        ((fetchWindow db args fromHeight toHeight).relevantAt blockMeta.height)).1.map (·.item)) := by
  have hpushed := filter_assembleItems (fetchWindow db args fromHeight toHeight) blockMeta.height
    (fun s hs => isTreeItem_of_mem_streamShieldedItems _ _ _ hs)
    (pairwise_streamShieldedItems (fetchWindow db args fromHeight toHeight) blockMeta.height merkle hordered position)
  rw [itemSteps_bundle, ← itemSteps_filter, hpushed]

theorem rowsOrdered_relevantAt {height : Int}
    (hwf : ∀ row ∈ (fetchWindow db args fromHeight toHeight).relevantAt height, ∀ range ∈ row.range,
      0 ≤ range.1 ∧ range.1 ≤ range.2) : RowsOrdered ((fetchWindow db args fromHeight toHeight).relevantAt height) where
  sorted := sorted_relevantAt db args fromHeight toHeight height
  same row hrow row' hrow' hid := by
    rw [← txRange_of_mem_relevantAt db args fromHeight toHeight hrow,
      ← txRange_of_mem_relevantAt db args fromHeight toHeight hrow', hid]
  wellFormed := hwf

theorem advances_streamBundle (position : MerklePosition) (blockMeta : BlockMeta) :
    Advances (.ofStream merkle position)
      (.ofStream merkle (streamBundle (fetchWindow db args fromHeight toHeight) merkle position blockMeta).2)
      (bundleSteps db (streamBundle (fetchWindow db args fromHeight toHeight) merkle position blockMeta).1) := by
  have hrange : ∀ row ∈ (fetchWindow db args fromHeight toHeight).relevantAt blockMeta.height,
      txRange db row.txId = row.range := fun row hrow => txRange_of_mem_relevantAt db args fromHeight toHeight hrow
  have hposition : (streamBundle (fetchWindow db args fromHeight toHeight) merkle position blockMeta).2 =
      (streamShieldedItems (fetchWindow db args fromHeight toHeight) blockMeta.height merkle position
        ((fetchWindow db args fromHeight toHeight).relevantAt blockMeta.height)).2 := by
    rw [streamBundle]
  rw [hposition]
  refine Advances.of_rangesIncrease fun hranges => ?_
  have hordered := rowsOrdered_relevantAt db args fromHeight toHeight fun row hrow range hmem => by
    rw [itemSteps_bundle] at hranges
    exact hranges.wellFormed (gapStart_nonneg _) (tx_mem_itemSteps db merkle hrow ((hrange row hrow).trans hmem))
  rw [bundleSteps_streamBundle db args fromHeight toHeight merkle position blockMeta hordered]
  exact streamShieldedItems_advances _ _ merkle position hrange

theorem advances_streamBundles (position : MerklePosition) (blocksMeta : List BlockMeta) {sent : List BlockBundle}
    (h : sent <+: (streamBundles (fetchWindow db args fromHeight toHeight) merkle position blocksMeta).1) :
    ∃ position', Advances (.ofStream merkle position) (.ofStream merkle position') (bundlesSteps db sent) ∧
      (sent = (streamBundles (fetchWindow db args fromHeight toHeight) merkle position blocksMeta).1 →
        position' = (streamBundles (fetchWindow db args fromHeight toHeight) merkle position blocksMeta).2) := by
  induction blocksMeta generalizing position sent with
  | nil =>
    obtain rfl := List.prefix_nil.mp h
    exact ⟨position, Advances.nil _, fun _ => rfl⟩
  | cons blockMeta blocksMeta ih =>
    cases sent with
    | nil => exact ⟨position, Advances.nil _, fun hnil => nomatch hnil⟩
    | cons bundle sent =>
      obtain ⟨rfl, hprefix⟩ := List.cons_prefix_cons.mp h
      obtain ⟨position', hadvances, hall⟩ := ih _ hprefix
      refine ⟨position', ?_, fun heq => hall (List.cons.inj heq).2⟩
      exact (advances_streamBundle db args fromHeight toHeight merkle position blockMeta).append hadvances

end Bundle

/-! ## Runs -/

/-- The steps of what an iteration sends, which depend on the snapshot it reads. -/
def outputSteps (snapshot : Except AppError Database) (output : List StreamAction) : List MerkleStep :=
  match snapshot with
  | .ok db => itemSteps db ((sentItems output).map (·.item))
  | .error _ => []

def visitSteps (v : Visit StreamState Iteration StreamAction) : List MerkleStep :=
  .iteration v.input.merkle :: outputSteps v.input.snapshot v.output

/-- The steps of a run, in the order of delivery. -/
def merkleSteps (vs : List (Visit StreamState Iteration StreamAction)) : List MerkleStep := vs.flatMap visitSteps

theorem merkleSteps_snoc (vs : List (Visit StreamState Iteration StreamAction))
    (v : Visit StreamState Iteration StreamAction) : merkleSteps (vs ++ [v]) = merkleSteps vs ++ visitSteps v := by
  rw [merkleSteps, List.flatMap_append, List.flatMap_singleton]
  rfl

theorem itemSteps_flatMap_items (db : Database) (bundles : List BlockBundle) :
    itemSteps db ((bundles.flatMap (·.items)).map (·.item)) = bundlesSteps db bundles := by
  rw [itemSteps, List.map_flatMap, List.filterMap_flatMap]
  rfl

/-- A batch is built from the window between its first and its last block. -/
theorem buildBlockBundles_eq (db : Database) (args : AssemblyArgs) (merkle : MerkleBehaviour) {batch : List BlockMeta}
    (hne : batch ≠ []) (lastMerkleEndIndex : Int) : ∃ fromHeight toHeight,
      (batch.map (·.height)).head? = some fromHeight ∧ (batch.map (·.height)).getLast? = some toHeight ∧
      buildBlockBundles db args merkle batch lastMerkleEndIndex =
        ((streamBundles (fetchWindow db args fromHeight toHeight) merkle ⟨lastMerkleEndIndex, 0⟩ batch).1,
          (streamBundles (fetchWindow db args fromHeight toHeight) merkle
            ⟨lastMerkleEndIndex, 0⟩ batch).2.lastMerkleEndIndex) := by
  cases batch with
  | nil => exact absurd rfl hne
  | cons first rest =>
    refine ⟨first.height, ((first :: rest).getLast hne).height, rfl, ?_, ?_⟩
    · rw [List.getLast?_map, List.getLast?_eq_some_getLast hne]
      rfl
    · rw [buildBlockBundles, List.head?_cons, List.getLast?_eq_some_getLast hne]

section Run
variable (args : AssemblyArgs) {fromHeight : Int} {processed : List BlockMeta} {s : StreamState} (e : Iteration)

theorem advances_builtBundles (db : Database) {batch : List BlockMeta} (hne : batch ≠ []) {sent : List BlockBundle}
    (h : sent <+: builtBundles args s e db batch) : ∃ position,
      Advances (.ofStream e.merkle ⟨s.lastMerkleEndIndex, 0⟩) (.ofStream e.merkle position) (bundlesSteps db sent) ∧
        (sent = builtBundles args s e db batch →
          position.lastMerkleEndIndex = (buildBlockBundles db args e.merkle batch s.lastMerkleEndIndex).2) := by
  obtain ⟨lo, hi, -, -, heq⟩ := buildBlockBundles_eq db args e.merkle hne s.lastMerkleEndIndex
  rw [builtBundles, heq] at h
  obtain ⟨position, hadvances, hall⟩ := advances_streamBundles db args lo hi e.merkle ⟨s.lastMerkleEndIndex, 0⟩ batch h
  refine ⟨position, hadvances, fun hsent => ?_⟩
  rw [builtBundles, heq] at hsent
  rw [hall hsent, heq]

/-- **Step.** The items of an iteration, from the position of its first state. -/
theorem StreamInv.advances (hinv : StreamInv fromHeight none processed s) : ∃ position : MerklePosition,
    Advances (.ofStream e.merkle ⟨s.lastMerkleEndIndex, 0⟩) (.ofStream e.merkle position)
      (outputSteps e.snapshot (streamStep args s e).1) ∧
      ∀ s', (streamStep args s e).2 = .next s' → s'.lastMerkleEndIndex = position.lastMerkleEndIndex := by
  rcases streamStep_cases args s e with ⟨db, readyHeight, batch, hfetched⟩ | ⟨hquiet, hkeep⟩
  · rw [hfetched.streamStep_eq, hfetched.snapshot, outputSteps]
    by_cases hlinked : Linked s.currentHeight (boundaryHash db s) batch
    · rcases processBatch_linked args e db hinv.fromHeight_le hinv.cursor hfetched.nonempty hlinked with
        heq | ⟨sent, hprefix, -, heq⟩
      · obtain ⟨position, hadvances, hall⟩ := advances_builtBundles args e db hfetched.nonempty
          (List.prefix_refl (builtBundles args s e db batch))
        rw [heq, sentItems_map_blockAction_none, itemSteps_flatMap_items]
        refine ⟨position, hadvances, fun s' hnext => ?_⟩
        rw [← Flow.next.inj hnext, hall rfl, stateAfter]
      · obtain ⟨position, hadvances, -⟩ := advances_builtBundles args e db hfetched.nonempty hprefix
        rw [heq, sentItems_map_blockAction_none, itemSteps_flatMap_items]
        exact ⟨position, hadvances, fun s' hnext => by cases hnext⟩
    · obtain ⟨event, -, heq⟩ := processBatch_reset args e db hlinked
      rw [heq, sentItems_take_control]
      exact ⟨⟨s.lastMerkleEndIndex, 0⟩, Advances.nil _, fun s' hnext => by cases hnext⟩
  · refine ⟨⟨s.lastMerkleEndIndex, 0⟩, ?_, fun s' hnext => by rw [hkeep s' hnext]⟩
    unfold outputSteps
    rw [sentItems_of_quiet hquiet]
    cases e.snapshot with
    | ok db => exact Advances.nil _
    | error failure => exact Advances.nil _

/-- A run is where its first state and the items sent so far say. -/
def MerkleInv (hist : List (Visit StreamState Iteration StreamAction)) (s : StreamState) : Prop :=
  ∃ requests merkle, Advances .zero ⟨gapStart s.lastMerkleEndIndex, gapStart s.lastMerkleEndIndex, requests, merkle⟩
    (merkleSteps hist)

theorem MerkleInv.snoc {hist : List (Visit StreamState Iteration StreamAction)}
    (hinv : StreamInv fromHeight none (processedBy hist) s) (h : MerkleInv hist s) : ∃ position : MerklePosition,
      Advances .zero (.ofStream e.merkle position) (merkleSteps (hist ++ [visit (streamStep args) s e])) ∧
        ∀ s', (streamStep args s e).2 = .next s' → s'.lastMerkleEndIndex = position.lastMerkleEndIndex := by
  obtain ⟨requests, merkle, hadvances⟩ := h
  obtain ⟨position, hvisit, hnext⟩ := hinv.advances args e
  refine ⟨position, ?_, hnext⟩
  rw [merkleSteps_snoc, visitSteps, List.append_cons]
  exact (hadvances.append (advances_iteration _ e.merkle)).append hvisit

end Run

theorem filledAlong_streamRun (args : AssemblyArgs) (fromHeight : Int) (iterations : List Iteration)
    (h : RangesIncrease 0 (merkleSteps (streamRun args fromHeight none iterations))) :
    FilledAlong .zero (merkleSteps (streamRun args fromHeight none iterations)) := by
  have hrun : ∃ position, Advances .zero position (merkleSteps (streamRun args fromHeight none iterations)) := by
    refine visits_rule (fun hist s => StreamInv fromHeight none (processedBy hist) s ∧ MerkleInv hist s)
      (fun hist => ∃ position, Advances .zero position (merkleSteps hist)) ?_ ?_ ?_
      ⟨streamInv_initial fromHeight none, 0, _, Advances.nil _⟩
    · rintro hist s e - s' ⟨hinv, hmerkle⟩ hnext
      obtain ⟨position, hadvances, hposition⟩ := MerkleInv.snoc args e hinv hmerkle
      refine ⟨streamInv_next args fromHeight none hist s e s' hinv hnext, position.requests, e.merkle, ?_⟩
      rw [hposition s' hnext]
      exact hadvances
    · rintro hist s ⟨-, requests, merkle, hadvances⟩
      exact ⟨_, hadvances⟩
    · rintro hist s e - - ⟨hinv, hmerkle⟩ -
      obtain ⟨position, hadvances, -⟩ := MerkleInv.snoc args e hinv hmerkle
      exact ⟨_, hadvances⟩
  obtain ⟨position, hadvances⟩ := hrun
  exact (hadvances h).1

namespace Sample

/-- One block with a relevant transaction of the index range `[5, 7)`. -/
def treeGap : Database :=
  ⟨{ tables [block 0 1 0] [transaction 1 0] [] with
      relevantTransactions := [⟨1, 1⟩]
      regularTransactions := [⟨1, none, none, some 5, some 7, none, none, none⟩] }, by decide⟩

/-- An upstream that answers with the update `[0, 4]`. -/
def answeredIteration : Iteration :=
  { iteration treeGap with
    merkle := fun _ _ _ => ⟨none, .ok (), [.next none (some (.relevantTransaction 5 (some ⟨0, 4, "aa", 1⟩)))]⟩ }

end Sample

end NocyWalletFeed
