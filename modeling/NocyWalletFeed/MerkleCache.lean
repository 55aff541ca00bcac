import NocyWalletFeed.Feed
import NocyWalletFeed.GraphqlWs
import NocyWalletFeed.Library.OrderBy
import NocyWalletFeed.Library.Codec

/-!
# The merkle cache (`merkle_cache.rs`)

The lookup of a chain of cached updates and the check that it covers a range, over the rows of
`nocy_sidecar.collapsed_merkle_cache`; and the statements that write an update, those of `cache_update` and of
`store_updates`, which also raise `highest_end_index` of `nocy_sidecar.merkle_cache_state`.
-/

namespace NocyWalletFeed
open Codec OrderBy

structure CachedMerkleUpdate where
  startIndex : Int
  endIndex : Int
  updateBytes : Bytes
  protocolVersion : Int
  deriving DecidableEq, Repr

/-- Convert update bytes to a hex string for the API response. -/
def CachedMerkleUpdate.updateHex (u : CachedMerkleUpdate) : String := hexEncode u.updateBytes

/-- The longest row that starts at an index and ends at `requiredEnd` at the latest. -/
def longestFrom (rows : List CachedMerkleUpdate) (currentStart requiredEnd : Int) : Option CachedMerkleUpdate :=
  (sortBy (fun row => -row.endIndex)
    (rows.filter (fun row => row.startIndex = currentStart ∧ row.endIndex ≤ requiredEnd))).head?

theorem longestFrom_startIndex {rows : List CachedMerkleUpdate} {currentStart requiredEnd : Int}
    {row : CachedMerkleUpdate} (h : longestFrom rows currentStart requiredEnd = some row) :
    row.startIndex = currentStart ∧ row.endIndex ≤ requiredEnd := by
  have hmem := List.mem_of_mem_head? h
  simpa using (List.mem_filter.mp ((mem_sortBy _).mp hmem)).2

/-- The loop of `get_cached_updates`: row after row from `currentStart`, until there is none or the end is reached. -/
def cachedChain (rows : List CachedMerkleUpdate) (requiredEnd currentStart : Int) : List CachedMerkleUpdate :=
  if currentStart ≤ requiredEnd then
    match h : longestFrom rows currentStart requiredEnd with
    | none => []
    | some row =>
      if row.endIndex < row.startIndex then []
      else row :: cachedChain rows requiredEnd (row.endIndex + 1)
  else []
termination_by (requiredEnd + 1 - currentStart).toNat
decreasing_by
  have := longestFrom_startIndex h
  omega

/-- The best-effort chain of cached updates for `[fromIndex, toIndex)`. -/
def getCachedUpdates (rows : List CachedMerkleUpdate) (fromIndex toIndex : Int) : List CachedMerkleUpdate :=
  if fromIndex ≥ toIndex then [] else cachedChain rows (toIndex - 1) fromIndex

/-- The loop of `covers_range`: where the next update is expected after a gapless chain. -/
def chainEnd (expectedStart : Int) : List CachedMerkleUpdate → Option Int
  | [] => some expectedStart
  | update :: updates =>
    if update.startIndex ≠ expectedStart then none
    else if update.endIndex < update.startIndex then none
    else chainEnd (update.endIndex + 1) updates

/-- Check that cached updates cover `[fromIndex, toIndex)` without gaps and without overshoot. -/
def coversRange (updates : List CachedMerkleUpdate) (fromIndex toIndex : Int) : Bool :=
  if fromIndex ≥ toIndex then true
  else
    match updates with
    | [] => false
    | first :: _ =>
      if first.startIndex ≠ fromIndex then false
      else
        match chainEnd fromIndex updates with
        | none => false
        | some expectedStart => expectedStart = toIndex - 1 + 1

/-! ## Writing -/

/-- The two tables of the cache. -/
structure MerkleCache where
  rows : List CachedMerkleUpdate
  highestEndIndex : Int
  deriving DecidableEq, Repr

/-- The tables as the schema creates them. -/
def MerkleCache.empty : MerkleCache := ⟨[], 0⟩

/-- Two rows with the same primary key `(start_index, end_index)`. -/
def CachedMerkleUpdate.SameRange (row row' : CachedMerkleUpdate) : Prop :=
  row.startIndex = row'.startIndex ∧ row.endIndex = row'.endIndex

instance (row row' : CachedMerkleUpdate) : Decidable (row.SameRange row') := inferInstanceAs (Decidable (_ ∧ _))

/-- `INSERT … ON CONFLICT (start_index, end_index) DO NOTHING` -/
def MerkleCache.insertRow (cache : MerkleCache) (row : CachedMerkleUpdate) : MerkleCache :=
  if cache.rows.any (fun row' => row'.SameRange row) then cache else { cache with rows := cache.rows ++ [row] }

/-- `SET highest_end_index = GREATEST(highest_end_index, $1)` -/
def MerkleCache.raiseHighest (cache : MerkleCache) (row : CachedMerkleUpdate) : MerkleCache :=
  { cache with highestEndIndex := max cache.highestEndIndex row.endIndex }

/-- The statements that write an update. -/
inductive CacheStatement where
  | insert (row : CachedMerkleUpdate)
  | raise (row : CachedMerkleUpdate)
  deriving DecidableEq, Repr

def CacheStatement.exec (cache : MerkleCache) : CacheStatement → MerkleCache
  | insert row => cache.insertRow row
  | raise row => cache.raiseHighest row

def writeRow (row : CachedMerkleUpdate) : List CacheStatement := [.insert row, .raise row]

/-- The row of an update of the background subscription; `none` where its hex text does not decode. -/
def CollapsedMerkleTree.toRow (tree : CollapsedMerkleTree) : Option CachedMerkleUpdate :=
  (hexDecode tree.update).map fun bytes => ⟨tree.startIndex, tree.endIndex, bytes, tree.protocolVersion⟩

/-- The statements of `cache_update`: none where the hex text does not decode. -/
def cacheUpdate (tree : CollapsedMerkleTree) : List CacheStatement := (tree.toRow.map writeRow).getD []

/-- `value as i32` of a `u32`. -/
def asI32 (value : Nat) : Int := if value % 2 ^ 32 < 2 ^ 31 then value % 2 ^ 32 else (value % 2 ^ 32 : Nat) - 2 ^ 32

def CollapsedMerkleUpdate.toRow (update : CollapsedMerkleUpdate) : Option CachedMerkleUpdate :=
  (hexDecode update.update).map fun bytes => ⟨update.startIndex, update.endIndex, bytes, asI32 update.protocolVersion⟩

/-- The statements of `store_updates`, up to the first update whose hex text does not decode. -/
def storeUpdates : List CollapsedMerkleUpdate → List CacheStatement
  | [] => []
  | update :: updates =>
    match update.toRow with
    | none => []
    | some row => writeRow row ++ storeUpdates updates

@[simp] theorem insertRow_highestEndIndex (cache : MerkleCache) (row : CachedMerkleUpdate) :
    (cache.insertRow row).highestEndIndex = cache.highestEndIndex := by
  unfold MerkleCache.insertRow
  split_ifs <;> rfl

theorem mem_insertRow (cache : MerkleCache) (row : CachedMerkleUpdate) :
    (∃ row' ∈ (cache.insertRow row).rows, row'.SameRange row) ∧
      ∀ row' ∈ cache.rows, row' ∈ (cache.insertRow row).rows := by
  unfold MerkleCache.insertRow
  split_ifs with hany
  · obtain ⟨row', hmem, hrange⟩ := List.any_eq_true.mp hany
    exact ⟨⟨row', hmem, of_decide_eq_true hrange⟩, fun _ h => h⟩
  · exact ⟨⟨row, List.mem_append_right _ List.mem_cons_self, rfl, rfl⟩, fun _ h => List.mem_append_left _ h⟩

theorem toRow_range {tree : CollapsedMerkleTree} {row : CachedMerkleUpdate} (h : tree.toRow = some row) :
    row.startIndex = tree.startIndex ∧ row.endIndex = tree.endIndex := by
  obtain ⟨bytes, -, rfl⟩ := Option.map_eq_some_iff.mp h
  exact ⟨rfl, rfl⟩

end NocyWalletFeed
