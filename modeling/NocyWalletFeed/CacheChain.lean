import NocyWalletFeed.CacheLookup
import NocyWalletFeed.CacheWriters

/-!
# Reconnects and the chain of cached updates

The background subscription alone, with every write taking effect: it caches the updates it receives, and may at any
time be cut and started again at `highest_end_index`.

* `Chainable` : the cached updates cover `[0, highest_end_index + 1)`;
* `ResumesAtEnd` : an update that starts at the mark does not follow a longer update that ends there;
* `cache_chainable_iff` : in every run, the first holds throughout exactly when the second holds at every step.
-/

namespace NocyWalletFeed
open Codec OrderBy Walk Tiling

/-! ## Reconnects -/

/-- The cache and the index of the next update of the subscription. -/
structure CacheRun where
  cache : MerkleCache
  nextIndex : Int
  deriving DecidableEq, Repr

/-- The first run of the subscription on a fresh schema. -/
def CacheRun.initial : CacheRun := ⟨.empty, 0⟩

/-- `run_subscription` starts again at `highest_end_index`, or the next update is received and cached. -/
inductive CacheEvent where
  | resume
  | cached (tree : CollapsedMerkleTree)
  deriving DecidableEq, Repr

namespace CacheRun

def step (run : CacheRun) : CacheEvent → CacheRun
  | .resume => ⟨run.cache, run.cache.highestEndIndex⟩
  | .cached tree => ⟨(cacheUpdate tree).foldl CacheStatement.exec run.cache, tree.endIndex + 1⟩

/-- No write fails, and the updates of a run tile the tree from the index it was started at. -/
def Possible (run : CacheRun) : CacheEvent → Prop
  | .resume => True
  | .cached tree => tree.toRow.isSome ∧
      Tiling.StartsAt CollapsedMerkleTree.startIndex CollapsedMerkleTree.endIndex run.nextIndex tree

instance (run : CacheRun) (event : CacheEvent) : Decidable (run.Possible event) := by
  cases event <;> unfold Possible <;> infer_instance

end CacheRun

/-- The cached updates chain from index 0 to the highest one. -/
def Chainable (cache : MerkleCache) : Prop :=
  cache.rows ≠ [] → coversRange (getCachedUpdates cache.rows 0 (cache.highestEndIndex + 1)) 0
    (cache.highestEndIndex + 1) = true

instance (cache : MerkleCache) : Decidable (Chainable cache) := inferInstanceAs (Decidable (_ → _))

/-- An update that starts at `highest_end_index` and ends beyond it is cached while no longer update ends there. -/
def ResumesAtEnd (run : CacheRun) : CacheEvent → Prop
  | .resume => True
  | .cached tree => tree.startIndex = run.cache.highestEndIndex → tree.startIndex < tree.endIndex →
      ∀ row ∈ run.cache.rows, row.endIndex = run.cache.highestEndIndex → row.startIndex = row.endIndex

instance (run : CacheRun) (event : CacheEvent) : Decidable (ResumesAtEnd run event) := by
  cases event <;> unfold ResumesAtEnd <;> infer_instance

/-- What holds in every state whose cached updates chain. -/
structure Rowed (run : CacheRun) : Prop where
  nonneg : 0 ≤ run.cache.highestEndIndex
  range : ∀ row ∈ run.cache.rows, row.startIndex ≤ row.endIndex ∧ row.endIndex ≤ run.cache.highestEndIndex
  next : run.nextIndex = run.cache.highestEndIndex ∨
    run.nextIndex = run.cache.highestEndIndex + 1 ∧ run.cache.rows ≠ []
  empty : run.cache.rows = [] → run.cache.highestEndIndex = 0
  last : ∀ row ∈ run.cache.rows, row.startIndex < row.endIndex → row.endIndex = run.cache.highestEndIndex →
    row ∈ cachedChain run.cache.rows run.cache.highestEndIndex 0

theorem rowed_initial : Rowed .initial where
  nonneg := Int.le_refl 0
  range := by simp [CacheRun.initial, MerkleCache.empty]
  next := Or.inl rfl
  empty := fun _ => rfl
  last := by simp [CacheRun.initial, MerkleCache.empty]

theorem chainable_iff {cache : MerkleCache} (h0 : 0 ≤ cache.highestEndIndex) : Chainable cache ↔ (cache.rows ≠ [] →
    rowsEnd 0 (cachedChain cache.rows cache.highestEndIndex 0) = cache.highestEndIndex + 1) := by
  unfold Chainable
  rw [coversRange_iff (by omega), add_sub_cancel_right]

section Append
variable {rows : List CachedMerkleUpdate} {highest : Int} {row : CachedMerkleUpdate}
  (hrange : ∀ row' ∈ rows, row'.startIndex ≤ row'.endIndex ∧ row'.endIndex ≤ highest)
include hrange

/-- The rows found before are found again, with a new row and a wider bound, unless the new one starts with them. -/
theorem longestFrom_kept (hle : highest ≤ row.endIndex) {row' : CachedMerkleUpdate}
    (hmem : row' ∈ cachedChain rows highest 0) (hne : row'.startIndex ≠ row.startIndex) :
    longestFrom (rows ++ [row]) row'.startIndex row.endIndex = some row' := by
  rw [longestFrom_append hne.symm (fun r hr => (hrange r hr).2) hle]
  exact (cachedChain_spec rows highest 0).2 row' hmem

theorem cachedChain_new (hlt : highest < row.endIndex) (hrow : row.startIndex ≤ row.endIndex) :
    cachedChain (rows ++ [row]) row.endIndex row.startIndex = [row] := by
  have hfound : longestFrom (rows ++ [row]) row.startIndex row.endIndex = some row :=
    longestFrom_new (fun r hr _ => lt_of_le_of_lt (hrange r hr).2 hlt) (le_refl row.endIndex)
  rw [cachedChain_of_some hfound hrow, cachedChain_of_lt (lt_add_one _)]

/-- A chain that is kept and ends where a new update starts continues with it. -/
theorem rowsEnd_of_kept {chain : List CachedMerkleUpdate} (htiles : RowTiles 0 chain)
    (hkept : ∀ row' ∈ chain, longestFrom (rows ++ [row]) row'.startIndex row.endIndex = some row')
    (hreach : rowsEnd 0 chain = row.startIndex) (hlt : highest < row.endIndex) (hrow : row.startIndex ≤ row.endIndex) :
    rowsEnd 0 (cachedChain (rows ++ [row]) row.endIndex 0) = row.endIndex + 1 := by
  rw [cachedChain_append htiles hkept, hreach, cachedChain_new hrange hlt hrow]
  unfold rowsEnd
  rw [tilesEnd_append, tilesEnd_cons, tilesEnd_nil]

theorem rowsEnd_next (hchain : rowsEnd 0 (cachedChain rows highest 0) = highest + 1)
    (hstart : row.startIndex = highest + 1) (hrow : row.startIndex ≤ row.endIndex) :
    rowsEnd 0 (cachedChain (rows ++ [row]) row.endIndex 0) = row.endIndex + 1 := by
  have htiles := (cachedChain_spec rows highest 0).1
  refine rowsEnd_of_kept hrange htiles (fun row' hmem => ?_) (hchain.trans hstart.symm) (by omega) hrow
  have hbound := htiles.bounds hmem
  exact longestFrom_kept hrange (by omega) hmem (by unfold rowsEnd at hchain; omega)

/-- With an update that starts at the mark, a chain without an update that starts there ends as before. -/
theorem rowsEnd_of_passed (hchain : rowsEnd 0 (cachedChain rows highest 0) = highest + 1)
    (hstart : row.startIndex = highest) (hlt : highest < row.endIndex)
    (hne : ∀ row' ∈ cachedChain rows highest 0, row'.startIndex ≠ highest) :
    rowsEnd 0 (cachedChain (rows ++ [row]) row.endIndex 0) = highest + 1 := by
  have hnone : longestFrom (rows ++ [row]) (highest + 1) row.endIndex = none := by
    refine longestFrom_eq_none fun x hx => ?_
    rcases List.mem_append.mp hx with hin | hin
    · have := hrange x hin
      omega
    · rw [List.mem_singleton.mp hin]
      omega
  rw [cachedChain_append (cachedChain_spec rows highest 0).1 fun row' hrow' =>
      longestFrom_kept hrange hlt.le hrow' (hstart.symm ▸ hne row' hrow'),
    hchain, cachedChain_of_none hnone, List.append_nil, hchain]

/-- With an update that starts at the mark and goes beyond it, the chain continues exactly when it has reached the mark
by the update of this one index. -/
theorem rowsEnd_resumed_iff (h0 : 0 ≤ highest) (hchain : rowsEnd 0 (cachedChain rows highest 0) = highest + 1)
    (hlast : ∀ row' ∈ rows, row'.startIndex < row'.endIndex → row'.endIndex = highest →
      row' ∈ cachedChain rows highest 0) (hstart : row.startIndex = highest) (hlt : highest < row.endIndex) :
    rowsEnd 0 (cachedChain (rows ++ [row]) row.endIndex 0) = row.endIndex + 1 ↔
      ∀ row' ∈ rows, row'.endIndex = highest → row'.startIndex = row'.endIndex := by
  have hspec := cachedChain_spec rows highest 0
  obtain ⟨pre, last, hpre, hend, hpos⟩ := hspec.1.exists_last (by unfold rowsEnd at hchain; omega)
  have hendIndex : last.endIndex = highest := by unfold rowsEnd at hchain; omega
  have hmem : last ∈ cachedChain rows highest 0 := by rw [hpre]; exact List.mem_append_right _ List.mem_cons_self
  have htiles : RowTiles 0 pre := (tiles_append.mp (hpre ▸ hspec.1)).1
  have hlastRange := hrange last (mem_of_longestFrom (hspec.2 last hmem))
  have hbefore : ∀ row' ∈ pre, row'.startIndex ≤ row'.endIndex ∧ row'.endIndex < last.startIndex := by
    intro row' hrow'
    have := htiles.bounds hrow'
    omega
  constructor
  · intro hreached row' hrow' hat
    by_contra hlonger
    have hchained := hlast row' hrow' (lt_of_le_of_ne (hrange row' hrow').1 hlonger) hat
    -- the row that ends at the mark is the last one of the chain, so no row of the chain starts there
    have hshort : last.startIndex < highest := by
      have := (hrange row' hrow').1
      rw [hpre] at hchained
      rcases List.mem_append.mp hchained with hin | hin
      · have := hbefore row' hin
        omega
      · rw [← List.mem_singleton.mp hin]
        omega
    have hpassed := rowsEnd_of_passed hrange hchain hstart hlt fun x hx => by
      rw [hpre] at hx
      rcases List.mem_append.mp hx with hin | hin
      · have := hbefore x hin
        omega
      · rw [List.mem_singleton.mp hin]
        omega
    omega
  · intro hsingle
    have hat : last.startIndex = highest :=
      (hsingle last (mem_of_longestFrom (hspec.2 last hmem)) hendIndex).trans hendIndex
    have hreach : rowsEnd 0 pre = row.startIndex := by
      unfold rowsEnd
      omega
    refine rowsEnd_of_kept hrange htiles (fun x hx => ?_) hreach hlt (by omega)
    have := hbefore x hx
    exact longestFrom_kept hrange hlt.le (by rw [hpre]; exact List.mem_append_left _ hx) (by omega)

end Append

/-- What caching an update may be: the next one of a run, the first one of all, one that ends where it starts, at the
mark, or one that starts at the mark and goes beyond it. -/
inductive CachesRow (cache : MerkleCache) (row : CachedMerkleUpdate) : MerkleCache → Prop where
  | next (hrows : cache.rows ≠ []) (hstart : row.startIndex = cache.highestEndIndex + 1) :
      CachesRow cache row ⟨cache.rows ++ [row], row.endIndex⟩
  | first (hrows : cache.rows = []) (hstart : row.startIndex = 0) (hmark : cache.highestEndIndex = 0) :
      CachesRow cache row ⟨[row], row.endIndex⟩
  | single (hrows : cache.rows ≠ []) (hstart : row.startIndex = cache.highestEndIndex)
      (hend : row.endIndex = cache.highestEndIndex) : CachesRow cache row (cache.insertRow row)
  | resumed (hrows : cache.rows ≠ []) (hstart : row.startIndex = cache.highestEndIndex)
      (hend : cache.highestEndIndex < row.endIndex) : CachesRow cache row ⟨cache.rows ++ [row], row.endIndex⟩

theorem insertRow_of_lt {cache : MerkleCache} {row : CachedMerkleUpdate}
    (h : ∀ row' ∈ cache.rows, row'.endIndex < row.endIndex) :
    (cache.insertRow row).raiseHighest row = ⟨cache.rows ++ [row], max cache.highestEndIndex row.endIndex⟩ := by
  have hany : ¬ cache.rows.any (fun row' => row'.SameRange row) = true := by
    rw [List.any_eq_true]
    rintro ⟨row', hmem, hsame⟩
    exact (h row' hmem).ne (of_decide_eq_true hsame).2
  rw [MerkleCache.insertRow, if_neg hany]
  rfl

theorem step_cases {run : CacheRun} {event : CacheEvent} (h : Rowed run) (hpossible : run.Possible event) :
    (event = .resume ∧ run.step event = ⟨run.cache, run.cache.highestEndIndex⟩) ∨
      ∃ tree row cache', event = .cached tree ∧ row.startIndex = tree.startIndex ∧ row.endIndex = tree.endIndex ∧
        row.startIndex ≤ row.endIndex ∧ CachesRow run.cache row cache' ∧
        run.step event = ⟨cache', row.endIndex + 1⟩ := by
  cases event with
  | resume => exact Or.inl ⟨rfl, rfl⟩
  | cached tree =>
    obtain ⟨hsome, hnext, hle⟩ := hpossible
    obtain ⟨row, hrow⟩ := Option.isSome_iff_exists.mp hsome
    obtain ⟨hstart, hend⟩ := toRow_range hrow
    have hstep : run.step (.cached tree) = ⟨(run.cache.insertRow row).raiseHighest row, row.endIndex + 1⟩ := by
      rw [CacheRun.step, cacheUpdate, hrow, hend]
      rfl
    have happend : run.cache.highestEndIndex < row.endIndex →
        (run.cache.insertRow row).raiseHighest row = ⟨run.cache.rows ++ [row], row.endIndex⟩ := by
      intro hlt
      rw [insertRow_of_lt fun row' hmem => lt_of_le_of_lt (h.range row' hmem).2 hlt, max_eq_right hlt.le]
    refine Or.inr ⟨tree, row, (run.cache.insertRow row).raiseHighest row, rfl, hstart, hend, by omega, ?_, hstep⟩
    rcases h.next with hat | ⟨hafter, hrows⟩
    · by_cases hnil : run.cache.rows = []
      · have hmark := h.empty hnil
        have hinsert : (run.cache.insertRow row).raiseHighest row = ⟨[row], row.endIndex⟩ := by
          rw [insertRow_of_lt (by simp [hnil]), hnil, hmark, max_eq_right (by omega)]
          rfl
        rw [hinsert]
        exact .first hnil (by omega) hmark
      · rcases eq_or_lt_of_le (show run.cache.highestEndIndex ≤ row.endIndex by omega) with heq | hlt
        · have hinsert : (run.cache.insertRow row).raiseHighest row = run.cache.insertRow row := by
            rw [MerkleCache.raiseHighest, insertRow_highestEndIndex, ← heq, max_self]
            conv => lhs; rw [← insertRow_highestEndIndex run.cache row]
          rw [hinsert]
          exact .single hnil (by omega) heq.symm
        · rw [happend hlt]
          exact .resumed hnil (by omega) hlt
    · rw [happend (by omega)]
      exact .next hrows (by omega)

theorem cachedChain_insertRow {cache : MerkleCache} {row : CachedMerkleUpdate}
    (hrange : ∀ row' ∈ cache.rows, row'.startIndex ≤ row'.endIndex ∧ row'.endIndex ≤ cache.highestEndIndex)
    (hchain : rowsEnd 0 (cachedChain cache.rows cache.highestEndIndex 0) = cache.highestEndIndex + 1)
    (hstart : row.startIndex = cache.highestEndIndex) (hend : row.endIndex = cache.highestEndIndex) :
    cachedChain (cache.insertRow row).rows cache.highestEndIndex 0 =
      cachedChain cache.rows cache.highestEndIndex 0 := by
  unfold MerkleCache.insertRow
  split_ifs with hany
  · rfl
  · have hspec := cachedChain_spec cache.rows cache.highestEndIndex 0
    have hkept : ∀ row' ∈ cachedChain cache.rows cache.highestEndIndex 0,
        longestFrom (cache.rows ++ [row]) row'.startIndex cache.highestEndIndex = some row' := by
      intro row' hmem
      have hrow' := mem_of_longestFrom (hspec.2 row' hmem)
      have hne : row'.startIndex ≠ row.startIndex := by
        intro hsame
        have := hrange row' hrow'
        exact hany (List.any_eq_true.mpr ⟨row', hrow', decide_eq_true ⟨hsame, by omega⟩⟩)
      have hkept := longestFrom_kept hrange hend.ge hmem hne
      rwa [hend] at hkept
    rw [cachedChain_append hspec.1 hkept, hchain, cachedChain_of_lt (lt_add_one _), List.append_nil]

/-- One event keeps the cached updates a chain exactly when it resumes at the end of an update. -/
theorem chainable_step_iff {run : CacheRun} {event : CacheEvent} (h : Rowed run) (hpossible : run.Possible event)
    (hchainable : Chainable run.cache) : Chainable (run.step event).cache ↔ ResumesAtEnd run event := by
  rw [chainable_iff h.nonneg] at hchainable
  rcases step_cases h hpossible with ⟨rfl, hstep⟩ | ⟨tree, row, cache', rfl, hstart, hend, hle, hcaches, hstep⟩
  · rw [hstep, chainable_iff h.nonneg]
    exact ⟨fun _ => trivial, fun _ => hchainable⟩
  · rw [hstep]
    show Chainable cache' ↔ (tree.startIndex = run.cache.highestEndIndex → tree.startIndex < tree.endIndex → _)
    rw [← hstart, ← hend]
    have h0 := h.nonneg
    cases hcaches with
    | next hrows hafter =>
      have hreached := rowsEnd_next h.range (hchainable hrows) hafter hle
      rw [chainable_iff (show 0 ≤ row.endIndex by omega)]
      exact ⟨fun _ hat => by omega, fun _ _ => hreached⟩
    | first hrows hzero hmark =>
      have hnone : ∀ row' ∈ ([] : List CachedMerkleUpdate), row'.startIndex ≤ row'.endIndex ∧ row'.endIndex ≤ -1 := by
        simp
      have hfound := cachedChain_new hnone (by omega) hle
      rw [hzero] at hfound
      rw [chainable_iff (show 0 ≤ row.endIndex by omega)]
      refine ⟨fun _ _ _ row' hrow' => ?_, fun _ _ => ?_⟩
      · rw [hrows] at hrow'
        cases hrow'
      · exact congrArg (rowsEnd 0) hfound
    | single hrows hat hsingle =>
      have hsame := cachedChain_insertRow h.range (hchainable hrows) hat hsingle
      rw [chainable_iff (h0.trans (insertRow_highestEndIndex _ _).ge), insertRow_highestEndIndex, hsame]
      exact ⟨fun _ _ hlonger => by omega, fun _ _ => hchainable hrows⟩
    | resumed hrows hat hbeyond =>
      have hiff := rowsEnd_resumed_iff h.range h0 (hchainable hrows) h.last hat hbeyond
      rw [chainable_iff (show 0 ≤ row.endIndex by omega)]
      exact ⟨fun hcovers _ _ => hiff.mp (hcovers (by simp)), fun hcond _ => hiff.mpr (hcond hat (by omega))⟩

/-- The row that ends last is found by a lookup that reaches the mark. -/
theorem mem_cachedChain_of_last {rows : List CachedMerkleUpdate} {row : CachedMerkleUpdate} (h0 : 0 ≤ row.endIndex)
    (hother : ∀ row' ∈ rows, row'.endIndex = row.endIndex → row' = row)
    (hchain : rowsEnd 0 (cachedChain rows row.endIndex 0) = row.endIndex + 1) :
    row ∈ cachedChain rows row.endIndex 0 := by
  have hspec := cachedChain_spec rows row.endIndex 0
  obtain ⟨pre, last, hpre, hend, -⟩ := hspec.1.exists_last (by unfold rowsEnd at hchain; omega)
  have hmem : last ∈ cachedChain rows row.endIndex 0 := by
    rw [hpre]
    exact List.mem_append_right _ List.mem_cons_self
  have hlast := hother last (mem_of_longestFrom (hspec.2 last hmem)) (by unfold rowsEnd at hchain; omega)
  rwa [← hlast] at hmem ⊢

theorem rowed_append {rows : List CachedMerkleUpdate} {row : CachedMerkleUpdate} (h0 : 0 ≤ row.endIndex)
    (hrange : ∀ row' ∈ rows, row'.startIndex ≤ row'.endIndex ∧ row'.endIndex < row.endIndex)
    (hle : row.startIndex ≤ row.endIndex) (hchainable : Chainable ⟨rows ++ [row], row.endIndex⟩) :
    Rowed ⟨⟨rows ++ [row], row.endIndex⟩, row.endIndex + 1⟩ where
  nonneg := h0
  range := by
    intro row' hrow'
    rcases List.mem_append.mp hrow' with hold | hnew
    · exact ⟨(hrange row' hold).1, (hrange row' hold).2.le⟩
    · rw [List.mem_singleton.mp hnew]
      exact ⟨hle, le_rfl⟩
  next := Or.inr ⟨rfl, by simp⟩
  empty := by simp
  last := by
    intro row' hrow' _ hend
    have hreached := (chainable_iff h0).mp hchainable (by simp)
    have hother : ∀ r ∈ rows ++ [row], r.endIndex = row.endIndex → r = row := by
      intro r hr hsame
      rcases List.mem_append.mp hr with hold | hnew
      · exact absurd hsame (hrange r hold).2.ne
      · exact List.mem_singleton.mp hnew
    rw [hother row' hrow' hend]
    exact mem_cachedChain_of_last h0 hother hreached

theorem mem_insertRow_cases {cache : MerkleCache} {row row' : CachedMerkleUpdate}
    (h : row' ∈ (cache.insertRow row).rows) : row' ∈ cache.rows ∨ row' = row := by
  unfold MerkleCache.insertRow at h
  split_ifs at h with hany
  · exact Or.inl h
  · exact (List.mem_append.mp h).imp_right List.mem_singleton.mp

theorem rowed_step {run : CacheRun} {event : CacheEvent} (h : Rowed run) (hpossible : run.Possible event)
    (hchainable : Chainable run.cache) (hchainable' : Chainable (run.step event).cache) : Rowed (run.step event) := by
  have h0 := h.nonneg
  have hbelow : ∀ {endIndex}, run.cache.highestEndIndex < endIndex →
      ∀ row' ∈ run.cache.rows, row'.startIndex ≤ row'.endIndex ∧ row'.endIndex < endIndex :=
    fun hlt row' hrow' => ⟨(h.range row' hrow').1, lt_of_le_of_lt (h.range row' hrow').2 hlt⟩
  rcases step_cases h hpossible with ⟨rfl, hstep⟩ | ⟨tree, row, cache', rfl, hstart, hend, hle, hcaches, hstep⟩
  · rw [hstep]
    exact ⟨h0, h.range, Or.inl rfl, h.empty, h.last⟩
  · rw [hstep] at hchainable' ⊢
    cases hcaches with
    | next hrows hafter => exact rowed_append (by omega) (hbelow (by omega)) hle hchainable'
    | first hrows hzero hmark =>
      have hnone : ∀ row' ∈ ([] : List CachedMerkleUpdate),
          row'.startIndex ≤ row'.endIndex ∧ row'.endIndex < row.endIndex := by simp
      exact rowed_append (by omega) hnone hle hchainable'
    | single hrows hat hsingle =>
      have hreached := (chainable_iff h0).mp hchainable hrows
      have hmark := insertRow_highestEndIndex run.cache row
      refine ⟨h0.trans hmark.ge, fun row' hrow' => ?_, Or.inr ⟨?_, ?_⟩, fun hnil => ?_,
        fun row' hrow' hlonger hat' => ?_⟩
      · show _ ∧ row'.endIndex ≤ (run.cache.insertRow row).highestEndIndex
        rw [hmark]
        rcases mem_insertRow_cases hrow' with hold | rfl
        · exact h.range row' hold
        · exact ⟨hle, hsingle.le⟩
      · show row.endIndex + 1 = (run.cache.insertRow row).highestEndIndex + 1
        rw [hmark, hsingle]
      · obtain ⟨row', hrow', -⟩ := (mem_insertRow run.cache row).1
        exact List.ne_nil_of_mem hrow'
      · obtain ⟨row', hrow', -⟩ := (mem_insertRow run.cache row).1
        exact absurd hnil (List.ne_nil_of_mem hrow')
      · have hold : row' ∈ run.cache.rows := (mem_insertRow_cases hrow').resolve_right (by rintro rfl; omega)
        show row' ∈ cachedChain (run.cache.insertRow row).rows (run.cache.insertRow row).highestEndIndex 0
        rw [hmark, cachedChain_insertRow h.range hreached hat hsingle]
        exact h.last row' hold hlonger (hat'.trans hmark)
    | resumed hrows hat hbeyond => exact rowed_append (by omega) (hbelow hbeyond) hle hchainable'

/-- **In every run of subscriptions, the cached updates chain throughout exactly when no subscription is resumed at the
end of a longer update and caches an update beyond it.** -/
theorem cache_chainable_iff (events : List CacheEvent)
    (hpossible : Along CacheRun.Possible CacheRun.step .initial events) :
    Always (fun run => Chainable run.cache) CacheRun.step .initial events ↔
      Along ResumesAtEnd CacheRun.step .initial events :=
  always_iff_along (fun _ _ hside hvalid hinv hinv' => rowed_step hside hvalid hinv hinv')
    (fun _ _ hside hvalid hinv => chainable_step_iff hside hvalid hinv) rowed_initial (fun hrows => absurd rfl hrows)
    hpossible

namespace Sample

/-- The updates `[0, 3]` and `[4, 4]`, a reconnect, and the update `[4, 7]`. -/
def resumedAtSingle : List CacheEvent :=
  [.resume, .cached ⟨0, 3, "aa", 1⟩, .cached ⟨4, 4, "bb", 1⟩, .resume, .cached ⟨4, 7, "cc", 1⟩]

/-- The update `[0, 4]`, a reconnect, and the update `[4, 7]`. -/
def resumedInside : List CacheEvent := [.resume, .cached ⟨0, 4, "aa", 1⟩, .resume, .cached ⟨4, 7, "cc", 1⟩]

end Sample

theorem cache_chainable_resumedAtSingle :
    Along CacheRun.Possible CacheRun.step .initial Sample.resumedAtSingle ∧
      Always (fun run => Chainable run.cache) CacheRun.step .initial Sample.resumedAtSingle := by
  have hpossible : Along CacheRun.Possible CacheRun.step .initial Sample.resumedAtSingle := by decide
  exact ⟨hpossible, (cache_chainable_iff Sample.resumedAtSingle hpossible).mpr (by decide)⟩

/-- After the reconnect the rows are `[0, 4]` and `[4, 7]`, which do not chain. -/
theorem not_chainable_resumedInside : Along CacheRun.Possible CacheRun.step .initial Sample.resumedInside ∧
    ¬ Always (fun run => Chainable run.cache) CacheRun.step .initial Sample.resumedInside := by
  refine ⟨by decide, fun h => ?_⟩
  have hchainable : Chainable ⟨[⟨0, 4, [170], 1⟩, ⟨4, 7, [204], 1⟩], 7⟩ := h.2.2.2.2
  have hreached := (chainable_iff (by decide)).mp hchainable (by simp)
  have hfound : longestFrom [⟨0, 4, [170], 1⟩, ⟨4, 7, [204], 1⟩] 0 7 = some ⟨0, 4, [170], 1⟩ := by decide
  have hnone : longestFrom [⟨0, 4, [170], 1⟩, ⟨4, 7, [204], 1⟩] (4 + 1) 7 = none := by decide
  rw [cachedChain_of_some hfound (by decide), cachedChain_of_none hnone] at hreached
  exact absurd hreached (by decide)

end NocyWalletFeed
