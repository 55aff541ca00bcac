import NocyWalletFeed.MerkleCache
import NocyWalletFeed.Library.Relational
import NocyWalletFeed.Library.Tiling
import NocyWalletFeed.Sequence

/-!
# The cache lookup

* `cachedChain_spec`, `coversRange_iff` : what the lookup finds, as a tiling;
* `coversRange_iff_exists_tiling` : it finds the whole range exactly when longest rows tile it;
* `Lookup`, `lookup` : the loop of `get_cached_updates` with its queries counted and its `i64` arithmetic checked;
* `lookup_bounded` : it ends after a bounded number of queries, with a chain of rows;
* `lookup_eq_getCachedUpdates` : on a table that does not change it returns `getCachedUpdates`.
-/

namespace NocyWalletFeed
open Codec OrderBy Tiling

/-! ## The lookup as a tiling -/

/-- Cached updates tile the tree from an index on. -/
abbrev RowTiles (a : Int) (rows : List CachedMerkleUpdate) : Prop :=
  Tiles CachedMerkleUpdate.startIndex CachedMerkleUpdate.endIndex a rows

/-- The index after them. -/
abbrev rowsEnd (a : Int) (rows : List CachedMerkleUpdate) : Int := tilesEnd CachedMerkleUpdate.endIndex a rows

section Lookup
variable {rows rows' : List CachedMerkleUpdate} {requiredEnd requiredEnd' currentStart : Int} {row : CachedMerkleUpdate}

/-- The row found starts at the position, ends in time, and is the longest such row. -/
theorem longestFrom_spec (h : longestFrom rows currentStart requiredEnd = some row) :
    row ∈ rows ∧ row.startIndex = currentStart ∧ row.endIndex ≤ requiredEnd ∧
      ∀ row' ∈ rows, row'.startIndex = currentStart → row'.endIndex ≤ requiredEnd → row'.endIndex ≤ row.endIndex := by
  obtain ⟨hstart, hend⟩ := longestFrom_startIndex h
  obtain ⟨hmem, hleast⟩ := head?_sortBy _ h
  refine ⟨List.mem_of_mem_filter hmem, hstart, hend, fun row' hrow' hstart' hend' => ?_⟩
  have hle := hleast row' (List.mem_filter.mpr ⟨hrow', by simp [hstart', hend']⟩)
  exact neg_le_neg_iff.mp hle

theorem mem_of_longestFrom (h : longestFrom rows currentStart requiredEnd = some row) : row ∈ rows :=
  (longestFrom_spec h).1

theorem exists_longestFrom (hmem : row ∈ rows) (hstart : row.startIndex = currentStart)
    (hend : row.endIndex ≤ requiredEnd) : ∃ found, longestFrom rows currentStart requiredEnd = some found := by
  have hrow : row ∈ rows.filter (fun row => row.startIndex = currentStart ∧ row.endIndex ≤ requiredEnd) :=
    List.mem_filter.mpr ⟨hmem, by simp [hstart, hend]⟩
  unfold longestFrom
  cases hsort : sortBy (fun row => -row.endIndex)
      (rows.filter (fun row => row.startIndex = currentStart ∧ row.endIndex ≤ requiredEnd)) with
  | nil =>
    rw [sortBy_eq_nil] at hsort
    rw [hsort] at hrow
    cases hrow
  | cons found rest => exact ⟨found, rfl⟩

theorem longestFrom_eq_none (h : ∀ row ∈ rows, row.startIndex ≠ currentStart) :
    longestFrom rows currentStart requiredEnd = none := by
  have hnil : rows.filter (fun row => row.startIndex = currentStart ∧ row.endIndex ≤ requiredEnd) = [] :=
    List.filter_eq_nil_iff.mpr fun row hrow => by simp [h row hrow]
  rw [longestFrom, hnil]
  rfl

theorem longestFrom_append {new : CachedMerkleUpdate} (hne : new.startIndex ≠ currentStart)
    (hrows : ∀ row ∈ rows, row.endIndex ≤ requiredEnd) (hle : requiredEnd ≤ requiredEnd') :
    longestFrom (rows ++ [new]) currentStart requiredEnd' = longestFrom rows currentStart requiredEnd := by
  unfold longestFrom
  rw [Relational.filter_append_of_forall rows (fun row hrow => by simp [List.mem_singleton.mp hrow, hne])]
  congr 2
  refine List.filter_congr fun row hrow => ?_
  rw [decide_eq_decide]
  exact and_congr_right fun _ => ⟨fun _ => hrows row hrow, fun h => h.trans hle⟩

theorem longestFrom_new {new : CachedMerkleUpdate}
    (hrows : ∀ row ∈ rows, row.startIndex = new.startIndex → row.endIndex < new.endIndex)
    (hle : new.endIndex ≤ requiredEnd) : longestFrom (rows ++ [new]) new.startIndex requiredEnd = some new := by
  have hnew : new ∈ rows ++ [new] := List.mem_append_right _ List.mem_cons_self
  obtain ⟨row, hrow⟩ := exists_longestFrom hnew rfl hle
  obtain ⟨hmem, hstart, -, hlongest⟩ := longestFrom_spec hrow
  have hlonger := hlongest new hnew rfl hle
  rcases List.mem_append.mp hmem with hold | hsame
  · have := hrows row hold hstart
    omega
  · rw [hrow, List.mem_singleton.mp hsame]

theorem cachedChain_of_lt (h : requiredEnd < currentStart) : cachedChain rows requiredEnd currentStart = [] := by
  rw [cachedChain, if_neg (not_le.mpr h)]

theorem cachedChain_of_none (h : longestFrom rows currentStart requiredEnd = none) :
    cachedChain rows requiredEnd currentStart = [] := by
  rw [cachedChain]
  split_ifs
  · split
    · rfl
    · next hsome => rw [h] at hsome; cases hsome
  · rfl

theorem cachedChain_of_inverted (h : longestFrom rows currentStart requiredEnd = some row)
    (hinverted : row.endIndex < row.startIndex) : cachedChain rows requiredEnd currentStart = [] := by
  rw [cachedChain]
  split_ifs
  · split
    · rfl
    · next row' hsome =>
      rw [h] at hsome
      obtain rfl := Option.some.inj hsome
      rw [if_pos hinverted]
  · rfl

theorem cachedChain_of_some (h : longestFrom rows currentStart requiredEnd = some row)
    (hrange : row.startIndex ≤ row.endIndex) :
    cachedChain rows requiredEnd currentStart = row :: cachedChain rows requiredEnd (row.endIndex + 1) := by
  have hrow := longestFrom_startIndex h
  rw [cachedChain, if_pos (by omega)]
  split
  · next hnone => rw [h] at hnone; cases hnone
  · next row' hsome =>
    rw [h] at hsome
    obtain rfl := Option.some.inj hsome
    rw [if_neg (not_lt.mpr hrange)]

/-- The lookup finds a tiling by rows of the table, each the longest one from its start. -/
theorem cachedChain_spec (rows : List CachedMerkleUpdate) (requiredEnd currentStart : Int) :
    RowTiles currentStart (cachedChain rows requiredEnd currentStart) ∧
      ∀ row ∈ cachedChain rows requiredEnd currentStart, longestFrom rows row.startIndex requiredEnd = some row := by
  fun_induction cachedChain rows requiredEnd currentStart with
  | case1 currentStart hle hnone => exact ⟨tiles_nil _, fun row hrow => by cases hrow⟩
  | case2 currentStart hle row hsome hlt => exact ⟨tiles_nil _, fun row hrow => by cases hrow⟩
  | case3 currentStart hle row hsome hlt ih =>
    have hstart := (longestFrom_startIndex hsome).1
    refine ⟨tiles_cons.mpr ⟨⟨hstart, not_lt.mp hlt⟩, ih.1⟩, fun row' hrow' => ?_⟩
    rcases List.mem_cons.mp hrow' with rfl | hrow'
    · rw [hstart]
      exact hsome
    · exact ih.2 row' hrow'
  | case4 currentStart hle => exact ⟨tiles_nil _, fun row hrow => by cases hrow⟩

/-- The lookup follows a tiling by rows that are the longest from their starts. -/
theorem cachedChain_append {chain : List CachedMerkleUpdate} (htiles : RowTiles currentStart chain)
    (hlongest : ∀ row ∈ chain, longestFrom rows row.startIndex requiredEnd = some row) :
    cachedChain rows requiredEnd currentStart =
      chain ++ cachedChain rows requiredEnd (rowsEnd currentStart chain) := by
  induction chain generalizing currentStart with
  | nil => rfl
  | cons row chain ih =>
    obtain ⟨⟨hstart, hrange⟩, hrest⟩ := tiles_cons.mp htiles
    have hrow := hlongest row List.mem_cons_self
    rw [hstart] at hrow
    rw [cachedChain_of_some hrow hrange, ih hrest fun row' hrow' => hlongest row' (List.mem_cons_of_mem _ hrow')]
    rfl

theorem chainEnd_of_tiles {chain : List CachedMerkleUpdate} (h : RowTiles currentStart chain) :
    chainEnd currentStart chain = some (rowsEnd currentStart chain) := by
  induction chain generalizing currentStart with
  | nil => rfl
  | cons row chain ih =>
    obtain ⟨⟨hstart, hrange⟩, hrest⟩ := tiles_cons.mp h
    rw [chainEnd, if_neg (not_not.mpr hstart), if_neg (not_lt.mpr hrange), ih hrest]
    rfl

theorem coversRange_iff {fromIndex toIndex : Int} (hlt : fromIndex < toIndex) :
    coversRange (getCachedUpdates rows fromIndex toIndex) fromIndex toIndex = true ↔
      rowsEnd fromIndex (cachedChain rows (toIndex - 1) fromIndex) = toIndex := by
  have htiles := (cachedChain_spec rows (toIndex - 1) fromIndex).1
  rw [getCachedUpdates, if_neg (not_le.mpr hlt)]
  unfold coversRange
  rw [if_neg (not_le.mpr hlt)]
  cases hchain : cachedChain rows (toIndex - 1) fromIndex with
  | nil => exact ⟨fun h => Bool.noConfusion h, fun h => absurd h hlt.ne⟩
  | cons row chain =>
    rw [hchain] at htiles
    have hstart : row.startIndex = fromIndex := (tiles_cons.mp htiles).1.1
    dsimp only
    rw [if_neg (not_not.mpr hstart), chainEnd_of_tiles htiles]
    simp

end Lookup

/-! ## Completeness -/

/-- Rows of the table that tile `[fromIndex, toIndex)`. -/
def TiledBy (rows : List CachedMerkleUpdate) (fromIndex toIndex : Int) (chain : List CachedMerkleUpdate) : Prop :=
  (∀ row ∈ chain, row ∈ rows) ∧ RowTiles fromIndex chain ∧ rowsEnd fromIndex chain = toIndex

/-- A row is the longest of those with its start that end below an index. -/
def LongestBelow (rows : List CachedMerkleUpdate) (toIndex : Int) (row : CachedMerkleUpdate) : Prop :=
  ∀ row' ∈ rows, row'.startIndex = row.startIndex → row'.endIndex < toIndex → row'.endIndex ≤ row.endIndex

section Complete
variable {rows : List CachedMerkleUpdate} {fromIndex toIndex : Int}

theorem rowsEnd_cachedChain {chain : List CachedMerkleUpdate} (htiled : TiledBy rows fromIndex toIndex chain)
    (hlongest : ∀ row ∈ chain, LongestBelow rows toIndex row) :
    rowsEnd fromIndex (cachedChain rows (toIndex - 1) fromIndex) = toIndex := by
  induction chain generalizing fromIndex with
  | nil =>
    have hend : fromIndex = toIndex := htiled.2.2
    rw [cachedChain_of_lt (by omega)]
    exact hend
  | cons row chain ih =>
    obtain ⟨hrows, htiles, hend⟩ := htiled
    have hbelow : row.endIndex < toIndex := hend ▸ (htiles.bounds List.mem_cons_self).2.2
    obtain ⟨⟨hstart, hrange⟩, hrest⟩ := tiles_cons.mp htiles
    have hmem := hrows row List.mem_cons_self
    -- the row found ends where the row of the tiling does: each is at least as long as the other
    obtain ⟨found, hfound⟩ := exists_longestFrom hmem hstart (show row.endIndex ≤ toIndex - 1 by omega)
    obtain ⟨hfoundMem, hfoundStart, hfoundEnd, hmax⟩ := longestFrom_spec hfound
    have hge := hmax row hmem hstart (by omega)
    have hle := hlongest row List.mem_cons_self found hfoundMem (by omega) (by omega)
    have hsame : found.endIndex = row.endIndex := le_antisymm hle hge
    rw [cachedChain_of_some hfound (by omega), hsame]
    show tilesEnd _ (found.endIndex + 1) _ = toIndex
    rw [hsame]
    exact ih ⟨fun row' h => hrows row' (List.mem_cons_of_mem _ h), hrest, hend⟩
      fun row' h => hlongest row' (List.mem_cons_of_mem _ h)

/-- **Completeness of the lookup.** The cached updates found for a range cover it exactly when rows of the table tile it
that are each the longest of those with their start that end inside the range. -/
theorem coversRange_iff_exists_tiling (hlt : fromIndex < toIndex) :
    coversRange (getCachedUpdates rows fromIndex toIndex) fromIndex toIndex = true ↔
      ∃ chain, TiledBy rows fromIndex toIndex chain ∧ ∀ row ∈ chain, LongestBelow rows toIndex row := by
  rw [coversRange_iff hlt]
  constructor
  · intro hend
    obtain ⟨htiles, hfound⟩ := cachedChain_spec rows (toIndex - 1) fromIndex
    refine ⟨_, ⟨fun row hrow => mem_of_longestFrom (hfound row hrow), htiles, hend⟩, ?_⟩
    intro row hrow row' hmem hstart hbelow
    exact (longestFrom_spec (hfound row hrow)).2.2.2 row' hmem hstart (by omega)
  · rintro ⟨chain, htiled, hlongest⟩
    exact rowsEnd_cachedChain htiled hlongest

end Complete

namespace Sample

/-- Rows with one start and two ends, of which the shorter one leads on. -/
def overlappingRows : List CachedMerkleUpdate := [⟨0, 4, [], 1⟩, ⟨0, 2, [], 1⟩, ⟨3, 9, [], 1⟩]

end Sample

/-- The lookup takes `[0, 4]` and stops at 5, though `[0, 2]` and `[3, 9]` tile the range. -/
theorem coversRange_overlappingRows :
    (∃ chain, TiledBy Sample.overlappingRows 0 10 chain) ∧
      coversRange (getCachedUpdates Sample.overlappingRows 0 10) 0 10 = false := by
  refine ⟨⟨[⟨0, 2, [], 1⟩, ⟨3, 9, [], 1⟩], by decide, ⟨by decide, by decide, trivial⟩, rfl⟩, ?_⟩
  have hfirst : longestFrom Sample.overlappingRows 0 9 = some ⟨0, 4, [], 1⟩ := by decide
  have hnext : longestFrom Sample.overlappingRows 5 9 = none := by decide
  have hchain : cachedChain Sample.overlappingRows 9 0 = [⟨0, 4, [], 1⟩] := by
    rw [cachedChain_of_some hfirst (by decide)]
    exact congrArg _ (cachedChain_of_none hnext)
  have hlookup : getCachedUpdates Sample.overlappingRows 0 10 = [⟨0, 4, [], 1⟩] := by
    rw [getCachedUpdates, if_neg (by decide)]
    exact hchain
  rw [hlookup]
  decide

theorem coversRange_overlappingRows_end :
    coversRange (getCachedUpdates Sample.overlappingRows 0 5) 0 5 = true ↔
      ∃ chain, TiledBy Sample.overlappingRows 0 5 chain ∧ ∀ row ∈ chain, LongestBelow Sample.overlappingRows 5 row :=
  coversRange_iff_exists_tiling (by decide)

/-! ## The loop -/

/-- The value of an `i64` expression; `none` where it overflows. -/
def checkedI64 (value : Int) : Option Int := if InI64 value then some value else none

theorem checkedI64_of_inI64 {value : Int} (h : InI64 value) : checkedI64 value = some value := if_pos h

/-- How a call of `get_cached_updates` ends. `unfinished` is a loop that has not ended within the rounds it is given. -/
inductive LookupEnd where
  | returned (chain : List CachedMerkleUpdate)
  | failed (error : AppError)
  | overflowed
  | unfinished
  deriving DecidableEq, Repr

/-- A call and the number of queries it has made. -/
structure Lookup where
  queries : Nat
  result : LookupEnd
  deriving DecidableEq, Repr

/-- What each query of a call meets: the rows of the table, or the failure of the query. The call is not a transaction,
so that other calls may write to the table between two queries. -/
abbrev TableBehaviour := Nat → Except String (List CachedMerkleUpdate)

/-- The `while` loop of `get_cached_updates`, for a number of rounds. -/
def lookupLoop (table : TableBehaviour) (requiredEnd : Int) : Nat → List CachedMerkleUpdate → Int → Nat → Lookup
  | 0, _, _, queries => ⟨queries, .unfinished⟩
  | rounds + 1, chain, currentStart, queries =>
    if currentStart ≤ requiredEnd then
      match table queries with
      | .error e => ⟨queries + 1, .failed (.internalError ("Failed to query cache: " ++ e))⟩
      | .ok rows =>
        match longestFrom rows currentStart requiredEnd with
        | none => ⟨queries + 1, .returned chain⟩
        | some row =>
          if row.endIndex < row.startIndex then ⟨queries + 1, .returned chain⟩
          else
            match checkedI64 (row.endIndex + 1) with
            | none => ⟨queries + 1, .overflowed⟩
            | some next => lookupLoop table requiredEnd rounds (chain ++ [row]) next (queries + 1)
    else ⟨queries, .returned chain⟩

/-- `get_cached_updates`, with its loop cut off after a number of rounds. -/
def lookup (table : TableBehaviour) (rounds : Nat) (fromIndex toIndex : Int) : Lookup :=
  if fromIndex ≥ toIndex then ⟨0, .returned []⟩
  else
    match checkedI64 (toIndex - 1) with
    | none => ⟨0, .overflowed⟩
    | some requiredEnd => lookupLoop table requiredEnd rounds [] fromIndex 0

/-- A chain found by the queries of a call: rows of the table as one of the queries met it, that tile a part of the
range from its start. -/
def FoundChain (table : TableBehaviour) (fromIndex requiredEnd : Int) (chain : List CachedMerkleUpdate) : Prop :=
  RowTiles fromIndex chain ∧
    ∀ row ∈ chain, row.endIndex ≤ requiredEnd ∧ ∃ query rows, table query = .ok rows ∧ row ∈ rows

section Loop
variable {table : TableBehaviour} {requiredEnd : Int}

theorem FoundChain.cons {currentStart : Int} {query : Nat} {rows chain : List CachedMerkleUpdate}
    {row : CachedMerkleUpdate} (hrows : table query = .ok rows)
    (hrow : longestFrom rows currentStart requiredEnd = some row) (hrange : row.startIndex ≤ row.endIndex)
    (h : FoundChain table (row.endIndex + 1) requiredEnd chain) :
    FoundChain table currentStart requiredEnd (row :: chain) := by
  obtain ⟨hmem, hstart, hend, -⟩ := longestFrom_spec hrow
  refine ⟨tiles_cons.mpr ⟨⟨hstart, hrange⟩, h.1⟩, fun row' hrow' => ?_⟩
  rcases List.mem_cons.mp hrow' with rfl | hlater
  · exact ⟨hend, query, rows, hrows, hmem⟩
  · exact h.2 row' hlater

theorem FoundChain.nil (currentStart : Int) : FoundChain table currentStart requiredEnd [] :=
  ⟨tiles_nil _, fun row hrow => by cases hrow⟩

/-- What the loop comes to from a position: within as many queries as there are indices left, a query has failed or the
chain has been continued as far as possible. -/
def Bounded (table : TableBehaviour) (requiredEnd currentStart : Int) (chain : List CachedMerkleUpdate) (queries : Nat)
    (call : Lookup) : Prop :=
  ∃ made : Nat, (made : Int) ≤ max 0 (requiredEnd + 1 - currentStart) ∧
    ((∃ e query, table query = .error e ∧
        call = ⟨queries + made, .failed (.internalError ("Failed to query cache: " ++ e))⟩) ∨
      ∃ found, FoundChain table currentStart requiredEnd found ∧ call = ⟨queries + made, .returned (chain ++ found)⟩)

theorem Bounded.last {currentStart : Int} (hle : currentStart ≤ requiredEnd) (chain : List CachedMerkleUpdate)
    (queries : Nat) : Bounded table requiredEnd currentStart chain queries ⟨queries + 1, .returned chain⟩ := by
  refine ⟨1, by omega, Or.inr ⟨[], .nil _, ?_⟩⟩
  rw [List.append_nil]

/-- A query after which the loop goes on behind the row it has found. -/
theorem Bounded.next {currentStart : Int} {query queries : Nat} {rows chain : List CachedMerkleUpdate}
    {row : CachedMerkleUpdate} {call : Lookup} (hrows : table query = .ok rows)
    (hrow : longestFrom rows currentStart requiredEnd = some row) (hrange : row.startIndex ≤ row.endIndex)
    (h : Bounded table requiredEnd (row.endIndex + 1) (chain ++ [row]) (queries + 1) call) :
    Bounded table requiredEnd currentStart chain queries call := by
  obtain ⟨-, hstart, hend, -⟩ := longestFrom_spec hrow
  obtain ⟨made, hmade, hresult⟩ := h
  have hqueries : queries + 1 + made = queries + (made + 1) := by omega
  rw [hqueries] at hresult
  refine ⟨made + 1, by omega, hresult.imp_right ?_⟩
  rintro ⟨found, hfound, hcall⟩
  refine ⟨row :: found, hfound.cons hrows hrow hrange, ?_⟩
  rw [hcall, List.append_assoc, List.singleton_append]

theorem lookupLoop_bounded (hend : requiredEnd < 2 ^ 63 - 1) {rounds : Nat} {currentStart : Int}
    (hstart : -2 ^ 63 ≤ currentStart) (hrounds : max 0 (requiredEnd + 1 - currentStart) < rounds)
    (chain : List CachedMerkleUpdate) (queries : Nat) :
    Bounded table requiredEnd currentStart chain queries
      (lookupLoop table requiredEnd rounds chain currentStart queries) := by
  induction rounds generalizing currentStart chain queries with
  | zero => omega
  | succ rounds ih =>
    unfold lookupLoop
    by_cases hle : currentStart ≤ requiredEnd
    · rw [if_pos hle]
      cases hrows : table queries with
      | error e => exact ⟨1, by omega, Or.inl ⟨e, queries, hrows, rfl⟩⟩
      | ok rows =>
        dsimp only
        cases hrow : longestFrom rows currentStart requiredEnd with
        | none => exact .last hle chain queries
        | some row =>
          dsimp only
          by_cases hinverted : row.endIndex < row.startIndex
          · rw [if_pos hinverted]
            exact .last hle chain queries
          · -- the row ends between its start and the bound, so the next position is further on and in range
            obtain ⟨-, hrowStart, hrowEnd, -⟩ := longestFrom_spec hrow
            have hnext : InI64 (row.endIndex + 1) := ⟨by omega, by omega⟩
            rw [if_neg hinverted, checkedI64_of_inI64 hnext]
            exact .next hrows hrow (not_lt.mp hinverted) (ih hnext.1 (by omega) _ _)
    · rw [if_neg hle]
      refine ⟨0, by omega, Or.inr ⟨[], .nil _, ?_⟩⟩
      rw [List.append_nil]
      rfl

theorem lookupLoop_of_const {rows : List CachedMerkleUpdate} {rounds : Nat} {currentStart : Int}
    (hend : requiredEnd < 2 ^ 63 - 1) (hstart : -2 ^ 63 ≤ currentStart)
    (hrounds : max 0 (requiredEnd + 1 - currentStart) < rounds) (chain : List CachedMerkleUpdate) (queries : Nat) :
    (lookupLoop (fun _ => .ok rows) requiredEnd rounds chain currentStart queries).result =
      .returned (chain ++ cachedChain rows requiredEnd currentStart) := by
  induction rounds generalizing currentStart chain queries with
  | zero => omega
  | succ rounds ih =>
    unfold lookupLoop
    by_cases hle : currentStart ≤ requiredEnd
    · rw [if_pos hle]
      dsimp only
      cases hrow : longestFrom rows currentStart requiredEnd with
      | none => rw [cachedChain_of_none hrow, List.append_nil]
      | some row =>
        obtain ⟨-, hrowStart, hrowEnd, -⟩ := longestFrom_spec hrow
        dsimp only
        by_cases hinverted : row.endIndex < row.startIndex
        · rw [if_pos hinverted, cachedChain_of_inverted hrow hinverted, List.append_nil]
        · have hnext : InI64 (row.endIndex + 1) := ⟨by omega, by omega⟩
          rw [if_neg hinverted, checkedI64_of_inI64 hnext]
          dsimp only
          rw [ih hnext.1 (by omega), cachedChain_of_some hrow (not_lt.mp hinverted), List.append_assoc,
            List.singleton_append]
    · rw [if_neg hle, cachedChain_of_lt (not_le.mp hle), List.append_nil]

end Loop

section Call
variable (table : TableBehaviour) (fromIndex toIndex : Int64) (extra : Nat)

/-- As many rounds as there are indices in a range, and one more. -/
def lookupRounds (fromIndex toIndex : Int) : Nat := (max 0 (toIndex - fromIndex) + 1).toNat

theorem lookup_of_lt (rounds : Nat) (hlt : fromIndex.toInt < toIndex.toInt) :
    lookup table rounds fromIndex.toInt toIndex.toInt =
      lookupLoop table (toIndex.toInt - 1) rounds [] fromIndex.toInt 0 := by
  have hfrom := fromIndex.le_toInt
  have hto := toIndex.toInt_lt
  have hend : InI64 (toIndex.toInt - 1) := ⟨by omega, by omega⟩
  rw [lookup, if_neg (not_le.mpr hlt), checkedI64_of_inI64 hend]

/-- **A lookup terminates and is sound.** Whatever its queries meet, a lookup makes at most one more query than there
are indices in its range, no addition overflows, and what it returns is a chain of rows from the start of the range that
does not reach beyond its end; it fails only where a query has failed. -/
theorem lookup_bounded :
    ∃ queries : Nat, (queries : Int) ≤ max 0 (toIndex.toInt - fromIndex.toInt) + 1 ∧
      ((∃ e query, table query = .error e ∧
          lookup table (lookupRounds fromIndex.toInt toIndex.toInt + extra) fromIndex.toInt toIndex.toInt =
            ⟨queries, .failed (.internalError ("Failed to query cache: " ++ e))⟩) ∨
        ∃ chain, FoundChain table fromIndex.toInt (toIndex.toInt - 1) chain ∧
          lookup table (lookupRounds fromIndex.toInt toIndex.toInt + extra) fromIndex.toInt toIndex.toInt =
            ⟨queries, .returned chain⟩) := by
  by_cases hlt : fromIndex.toInt < toIndex.toInt
  · have hto := toIndex.toInt_lt
    have hbounded : Bounded table (toIndex.toInt - 1) fromIndex.toInt [] 0
        (lookupLoop table (toIndex.toInt - 1) (lookupRounds fromIndex.toInt toIndex.toInt + extra) []
          fromIndex.toInt 0) :=
      lookupLoop_bounded (by omega) fromIndex.le_toInt (by unfold lookupRounds; omega) [] 0
    obtain ⟨made, hmade, hresult⟩ := hbounded
    rw [lookup_of_lt table fromIndex toIndex _ hlt]
    rw [Nat.zero_add] at hresult
    exact ⟨made, by omega, hresult⟩
  · refine ⟨0, by omega, Or.inr ⟨[], .nil _, ?_⟩⟩
    rw [lookup, if_pos (not_lt.mp hlt)]

/-- On a table that does not change a lookup returns `getCachedUpdates`. -/
theorem lookup_eq_getCachedUpdates (rows : List CachedMerkleUpdate) :
    (lookup (fun _ => .ok rows) (lookupRounds fromIndex.toInt toIndex.toInt + extra) fromIndex.toInt
      toIndex.toInt).result = .returned (getCachedUpdates rows fromIndex.toInt toIndex.toInt) := by
  by_cases hlt : fromIndex.toInt < toIndex.toInt
  · have hto := toIndex.toInt_lt
    rw [lookup_of_lt _ _ _ _ hlt, getCachedUpdates, if_neg (not_le.mpr hlt),
      lookupLoop_of_const (by omega) fromIndex.le_toInt (by unfold lookupRounds; omega), List.nil_append]
  · rw [lookup, if_pos (not_lt.mp hlt), getCachedUpdates, if_pos (not_lt.mp hlt)]

end Call

end NocyWalletFeed
