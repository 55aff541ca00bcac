import NocyWalletFeed.CacheLookup
import NocyWalletFeed.Routes.Subscribe
import NocyWalletFeed.Routes.Zswap

/-!
# The write-through cache

An answer of the upstream is a single update, and it is stored. From then on the cache answers the same range with it.

* `Sole` : a row is the only one of its range; `sole_exec` : no statement of a writer changes that;
* `getCachedUpdates_of_sole` : the lookup of its range then finds the row and nothing else;
* `not_covered` : where the lookup of a range fails, the table has no row of exactly that range;
* `writeThrough_agrees` : the cache and the upstream answer alike, in every later state.
-/

namespace NocyWalletFeed
open Codec Tiling

/-- An update of the upstream as a row of the cache: the same indices, the same bytes, the same version. -/
structure CollapsedMerkleUpdate.CachedAs (update : CollapsedMerkleUpdate) (row : CachedMerkleUpdate) : Prop where
  startIndex : row.startIndex = update.startIndex
  endIndex : row.endIndex = update.endIndex
  updateBytes : hexDecode update.update = some row.updateBytes
  protocolVersion : asU32 row.protocolVersion = update.protocolVersion

/-- Two items of a response that differ at most in the case of their hex digits. -/
def MerkleUpdateItem.Alike (item item' : MerkleUpdateItem) : Prop :=
  item.startIndex = item'.startIndex ∧ item.endIndex = item'.endIndex ∧
    hexDecode item.update = hexDecode item'.update ∧ item.protocolVersion = item'.protocolVersion

def MerkleCollapsedUpdate.Alike (update update' : MerkleCollapsedUpdate) : Prop :=
  update.startIndex = update'.startIndex ∧ update.endIndex = update'.endIndex ∧
    hexDecode update.update = hexDecode update'.update ∧ update.protocolVersion = update'.protocolVersion

theorem asU32_asI32 {value : Nat} (h : value < 2 ^ 32) : asU32 (asI32 value) = value := by
  unfold asU32 asI32
  rw [Nat.mod_eq_of_lt h]
  split_ifs with hsign
  · omega
  · omega

/-! ## The row of a range -/

/-- A row is in the table, and no other row has its range. -/
def Sole (rows : List CachedMerkleUpdate) (row : CachedMerkleUpdate) : Prop :=
  row ∈ rows ∧ ∀ row' ∈ rows, row'.SameRange row → row' = row

section Row
variable {cache : MerkleCache} {rows : List CachedMerkleUpdate} {row : CachedMerkleUpdate} {fromIndex toIndex : Int}

theorem longestFrom_of_mem (hmem : row ∈ rows) (hstart : row.startIndex = fromIndex)
    (hend : row.endIndex = toIndex - 1) :
    ∃ found ∈ rows, longestFrom rows fromIndex (toIndex - 1) = some found ∧ found.SameRange row := by
  obtain ⟨found, hfound⟩ := exists_longestFrom hmem hstart hend.le
  obtain ⟨hfoundMem, hfoundStart, hfoundEnd, hlongest⟩ := longestFrom_spec hfound
  have hle := hlongest row hmem hstart hend.le
  exact ⟨found, hfoundMem, hfound, hfoundStart.trans hstart.symm, by omega⟩

theorem getCachedUpdates_of_longest (hlt : fromIndex < toIndex)
    (hlongest : longestFrom rows fromIndex (toIndex - 1) = some row) (hend : row.endIndex = toIndex - 1) :
    getCachedUpdates rows fromIndex toIndex = [row] := by
  have hstart := (longestFrom_startIndex hlongest).1
  rw [getCachedUpdates, if_neg (not_le.mpr hlt), cachedChain_of_some hlongest (by omega),
    cachedChain_of_lt (by omega)]

theorem coversRange_singleton (hlt : fromIndex < toIndex) (hstart : row.startIndex = fromIndex)
    (hend : row.endIndex = toIndex - 1) : coversRange [row] fromIndex toIndex = true := by
  unfold coversRange
  rw [if_neg (not_le.mpr hlt)]
  dsimp only
  rw [if_neg (not_not.mpr hstart), chainEnd, if_neg (not_not.mpr hstart), if_neg (by omega)]
  simp [chainEnd, hend]

/-- Where a lookup does not cover its range, no row of the table has exactly that range. -/
theorem not_covered (hlt : fromIndex < toIndex)
    (hmiss : coversRange (getCachedUpdates rows fromIndex toIndex) fromIndex toIndex = false)
    (hmem : row ∈ rows) (hstart : row.startIndex = fromIndex) : row.endIndex ≠ toIndex - 1 := by
  intro hend
  obtain ⟨found, -, hfound, hrange⟩ := longestFrom_of_mem hmem hstart hend
  have hfoundEnd : found.endIndex = toIndex - 1 := hrange.2.trans hend
  rw [getCachedUpdates_of_longest hlt hfound hfoundEnd,
    coversRange_singleton hlt (hrange.1.trans hstart) hfoundEnd] at hmiss
  cases hmiss

theorem getCachedUpdates_of_sole (hlt : fromIndex < toIndex) (h : Sole rows row) (hstart : row.startIndex = fromIndex)
    (hend : row.endIndex = toIndex - 1) : getCachedUpdates rows fromIndex toIndex = [row] := by
  obtain ⟨found, hfoundMem, hfound, hrange⟩ := longestFrom_of_mem h.1 hstart hend
  obtain rfl : found = row := h.2 found hfoundMem hrange
  exact getCachedUpdates_of_longest hlt hfound hend

/-! ## Later states -/

theorem sole_insertRow_self (h : ∀ row' ∈ cache.rows, ¬ row'.SameRange row) : Sole (cache.insertRow row).rows row := by
  have hany : ¬ (cache.rows.any fun row' => row'.SameRange row) = true := by
    rw [List.any_eq_true]
    rintro ⟨row', hrow', hrange⟩
    exact h row' hrow' (of_decide_eq_true hrange)
  rw [MerkleCache.insertRow, if_neg hany]
  refine ⟨List.mem_append_right _ List.mem_cons_self, fun row' hrow' hrange => ?_⟩
  rcases List.mem_append.mp hrow' with hold | hnew
  · exact absurd hrange (h row' hold)
  · exact List.mem_singleton.mp hnew

/-- `ON CONFLICT DO NOTHING` keeps the only row of a range the only one. -/
theorem sole_insertRow (h : Sole cache.rows row) (row' : CachedMerkleUpdate) :
    Sole (cache.insertRow row').rows row := by
  unfold MerkleCache.insertRow
  split_ifs with hany
  · exact h
  · refine ⟨List.mem_append_left _ h.1, fun other hother hrange => ?_⟩
    rcases List.mem_append.mp hother with hold | hnew
    · exact h.2 other hold hrange
    · obtain rfl := List.mem_singleton.mp hnew
      exact absurd (List.any_eq_true.mpr ⟨row, h.1, decide_eq_true ⟨hrange.1.symm, hrange.2.symm⟩⟩) hany

/-- Neither a further insert nor a raised mark touches the only row of a range. -/
theorem sole_exec (h : Sole cache.rows row) (statement : CacheStatement) :
    Sole (CacheStatement.exec cache statement).rows row := by
  cases statement with
  | insert row' => exact sole_insertRow h row'
  | raise row' => exact h

theorem sole_run (h : Sole cache.rows row) (statements : List CacheStatement) :
    Sole (statements.foldl CacheStatement.exec cache).rows row := by
  induction statements generalizing cache with
  | nil => exact h
  | cons statement statements ih => exact ih (sole_exec h statement)

/-- The statements of an update leave its row, where the table has none of its range. -/
theorem sole_writeRow (h : ∀ row' ∈ cache.rows, ¬ row'.SameRange row) :
    Sole ((writeRow row).foldl CacheStatement.exec cache).rows row := by
  show Sole (([.raise row] : List CacheStatement).foldl CacheStatement.exec (cache.insertRow row)).rows row
  exact sole_run (sole_insertRow_self h) [.raise row]

end Row

/-! ## The stored answer -/

/-- The rows after updates have been stored and further writers have executed statements. -/
def rowsAfter (cache : MerkleCache) (updates : List CollapsedMerkleUpdate) (later : List CacheStatement) :
    List CachedMerkleUpdate :=
  (later.foldl CacheStatement.exec ((storeUpdates updates).foldl CacheStatement.exec cache)).rows

def MerkleUpdateQuery.For (query : MerkleUpdateQuery) (fromIndex toIndex : Int) : Prop :=
  query.fromIndex = fromIndex ∧ query.toIndex = toIndex

instance (query : MerkleUpdateQuery) (fromIndex toIndex : Int) : Decidable (query.For fromIndex toIndex) :=
  inferInstanceAs (Decidable (_ ∧ _))

section Answer
variable {cache : MerkleCache} {rows : List CachedMerkleUpdate} {upstream : UpstreamConversation}
  {fromIndex toIndex : Int} {update : CollapsedMerkleUpdate} {row : CachedMerkleUpdate}

theorem cachedAs_of_toRow (h : update.toRow = some row) (hversion : update.protocolVersion < 2 ^ 32) :
    update.CachedAs row := by
  obtain ⟨bytes, hbytes, rfl⟩ := Option.map_eq_some_iff.mp h
  exact ⟨rfl, rfl, hbytes, asU32_asI32 hversion⟩

theorem CollapsedMerkleUpdate.CachedAs.hexDecode_eq (h : update.CachedAs row) :
    hexDecode update.update = hexDecode row.updateHex := by
  rw [h.updateBytes, CachedMerkleUpdate.updateHex, hexDecode_hexEncode]

/-- The answer of the upstream is one update, and its row is what the lookup finds from then on. -/
theorem exists_storedRow (hlt : fromIndex < toIndex)
    (hmiss : coversRange (getCachedUpdates cache.rows fromIndex toIndex) fromIndex toIndex = false)
    {updates : List CollapsedMerkleUpdate} (hfetch : fetchMerkleUpdates upstream fromIndex toIndex = .ok updates)
    (hne : updates ≠ []) (hstored : ∀ update ∈ updates, update.toRow.isSome) (later : List CacheStatement) :
    ∃ update row, updates = [update] ∧ update.CachedAs row ∧
      getCachedUpdates (rowsAfter cache updates later) fromIndex toIndex = [row] ∧
      coversRange [row] fromIndex toIndex = true := by
  obtain ⟨update, rfl, hstart, hend, hversion⟩ := (fetchMerkleUpdates_cases hfetch).resolve_left hne
  obtain ⟨row, hrow⟩ := Option.isSome_iff_exists.mp (hstored update List.mem_cons_self)
  have hcached := cachedAs_of_toRow hrow hversion
  have hrowStart : row.startIndex = fromIndex := hcached.startIndex.trans hstart
  have hrowEnd : row.endIndex = toIndex - 1 := hcached.endIndex.trans hend
  have hfresh : ∀ row' ∈ cache.rows, ¬ row'.SameRange row := fun row' hrow' hrange =>
    not_covered hlt hmiss hrow' (hrange.1.trans hrowStart) (hrange.2.trans hrowEnd)
  have hstatements : storeUpdates [update] = writeRow row := by
    rw [storeUpdates, hrow]
    rfl
  have hsole : Sole (rowsAfter cache [update] later) row := by
    rw [rowsAfter, hstatements]
    exact sole_run (sole_writeRow hfresh) later
  exact ⟨update, row, rfl, hcached, getCachedUpdates_of_sole hlt hsole hrowStart hrowEnd,
    coversRange_singleton hlt hrowStart hrowEnd⟩

section Users
variable (hmiss : coversRange (getCachedUpdates cache.rows fromIndex toIndex) fromIndex toIndex = false)
  (hfetch : fetchMerkleUpdates upstream fromIndex toIndex = .ok [update]) (hcached : update.CachedAs row)
  (hlookup : getCachedUpdates rows fromIndex toIndex = [row]) (hcovers : coversRange [row] fromIndex toIndex = true)
include hmiss hfetch hcached hlookup hcovers

theorem inlineUpdates_alike (upstream' : UpstreamConversation) : List.Forall₂ MerkleCollapsedUpdate.Alike
    (inlineUpdates ⟨some (.ok cache.rows), upstream⟩ fromIndex toIndex)
    (inlineUpdates ⟨some (.ok rows), upstream'⟩ fromIndex toIndex) := by
  have hfrom : inlineUpdates ⟨some (.ok cache.rows), upstream⟩ fromIndex toIndex =
      [⟨update.startIndex, update.endIndex, update.update, update.protocolVersion⟩] := by
    simp [inlineUpdates, cachedInlineUpdates, hmiss, hfetch]
  have hto : inlineUpdates ⟨some (.ok rows), upstream'⟩ fromIndex toIndex =
      [⟨row.startIndex, row.endIndex, row.updateHex, asU32 row.protocolVersion⟩] := by
    simp [inlineUpdates, cachedInlineUpdates, hlookup, hcovers]
  rw [hfrom, hto]
  exact .cons ⟨hcached.startIndex.symm, hcached.endIndex.symm, hcached.hexDecode_eq, hcached.protocolVersion.symm⟩ .nil

theorem getMerkleUpdate_alike {query : MerkleUpdateQuery} (hquery : query.For fromIndex toIndex)
    {db : Except AppError Database} {upstreamSessionId : Bytes} {manager : Option UpstreamConversation}
    (hchecked : checkRequest ⟨db, some (.ok cache.rows), some upstream⟩ query = .ok upstreamSessionId) :
    ∃ items items', (getMerkleUpdate ⟨db, some (.ok cache.rows), some upstream⟩ query).1 = .ok ⟨items⟩ ∧
      (getMerkleUpdate ⟨db, some (.ok rows), manager⟩ query).1 = .ok ⟨items'⟩ ∧
      List.Forall₂ MerkleUpdateItem.Alike items items' := by
  obtain ⟨rfl, rfl⟩ := hquery
  have hchecked' : checkRequest ⟨db, some (.ok rows), manager⟩ query = .ok upstreamSessionId := hchecked
  refine ⟨[update.toItem], [row.toItem], ?_, ?_, ?_⟩
  · simp [getMerkleUpdate, hchecked, servedFromCache, hmiss, servedFromUpstream, hfetch]
  · simp [getMerkleUpdate, hchecked', servedFromCache, hlookup, hcovers]
  · exact .cons ⟨hcached.startIndex.symm, hcached.endIndex.symm, hcached.hexDecode_eq, hcached.protocolVersion.symm⟩
      .nil

end Users

end Answer

/-- **Write-through.** Where the cache does not cover a range, the upstream answers it with updates and these are
stored, the lookup of that range finds exactly these updates from then on, whatever statements of further writers
follow; and both users of the cache answer it as they have from the upstream. -/
theorem writeThrough_agrees (cache : MerkleCache) (upstream : UpstreamConversation) {fromIndex toIndex : Int}
    (hlt : fromIndex < toIndex)
    (hmiss : coversRange (getCachedUpdates cache.rows fromIndex toIndex) fromIndex toIndex = false)
    {updates : List CollapsedMerkleUpdate} (hfetch : fetchMerkleUpdates upstream fromIndex toIndex = .ok updates)
    (hne : updates ≠ []) (hstored : ∀ update ∈ updates, update.toRow.isSome)
    (later : List CacheStatement) :
    coversRange (getCachedUpdates (rowsAfter cache updates later) fromIndex toIndex) fromIndex toIndex = true ∧
      List.Forall₂ CollapsedMerkleUpdate.CachedAs updates
        (getCachedUpdates (rowsAfter cache updates later) fromIndex toIndex) ∧
      (∀ upstream', List.Forall₂ MerkleCollapsedUpdate.Alike
        (inlineUpdates ⟨some (.ok cache.rows), upstream⟩ fromIndex toIndex)
        (inlineUpdates ⟨some (.ok (rowsAfter cache updates later)), upstream'⟩ fromIndex toIndex)) ∧
      ∀ query : MerkleUpdateQuery, query.For fromIndex toIndex → ∀ db upstreamSessionId manager,
        checkRequest ⟨db, some (.ok cache.rows), some upstream⟩ query = .ok upstreamSessionId →
        ∃ items items', (getMerkleUpdate ⟨db, some (.ok cache.rows), some upstream⟩ query).1 = .ok ⟨items⟩ ∧
          (getMerkleUpdate ⟨db, some (.ok (rowsAfter cache updates later)), manager⟩ query).1 = .ok ⟨items'⟩ ∧
          List.Forall₂ MerkleUpdateItem.Alike items items' := by
  obtain ⟨update, row, rfl, hcached, hlookup, hcovers⟩ := exists_storedRow hlt hmiss hfetch hne hstored later
  refine ⟨hlookup ▸ hcovers, hlookup ▸ .cons hcached .nil, fun upstream' => ?_,
    fun query hquery db upstreamSessionId manager hchecked => ?_⟩
  · exact inlineUpdates_alike hmiss hfetch hcached hlookup hcovers upstream'
  · exact getMerkleUpdate_alike hmiss hfetch hcached hlookup hcovers hquery hchecked

namespace Sample

/-- An upstream that answers `[0, 5)` with upper-case hex digits. -/
def upperCaseUpstream : UpstreamConversation :=
  ⟨.ok (), [.ping, .next none (some (.relevantTransaction 5 (some ⟨0, 4, "AB", -1⟩)))]⟩

/-- Two writers that come later, of which one has an update of the same range. -/
def laterWrites : List CacheStatement := writeRow ⟨0, 3, [1], 1⟩ ++ writeRow ⟨0, 4, [2], 2⟩

end Sample

/-- The row of the answer stays: its bytes and its version, `-1` as an `i32`. -/
theorem writeThrough_laterWrites :
    ∃ row, getCachedUpdates (rowsAfter .empty [⟨0, 4, "AB", 4294967295⟩] Sample.laterWrites) 0 5 = [row] ∧
      hexDecode "AB" = some row.updateBytes ∧ asU32 row.protocolVersion = 4294967295 := by
  have hmiss : coversRange (getCachedUpdates MerkleCache.empty.rows 0 5) 0 5 = false := by
    rw [getCachedUpdates, if_neg (by decide), cachedChain_of_none (by decide)]
    rfl
  have hfetch : fetchMerkleUpdates Sample.upperCaseUpstream 0 5 = .ok [⟨0, 4, "AB", 4294967295⟩] := by decide
  obtain ⟨-, hcached, -⟩ := writeThrough_agrees .empty Sample.upperCaseUpstream (by decide) hmiss hfetch
    (List.cons_ne_nil _ _) (by decide) Sample.laterWrites
  obtain ⟨row, rows, hrow, hrows, heq⟩ := List.forall₂_cons_left_iff.mp hcached
  rw [List.forall₂_nil_left_iff.mp hrows] at heq
  exact ⟨row, heq, hrow.updateBytes, hrow.protocolVersion⟩

end NocyWalletFeed
