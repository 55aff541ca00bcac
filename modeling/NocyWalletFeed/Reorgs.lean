import NocyWalletFeed.Pages

/-!
# Reorgs between requests

A client follows `nextHeight` while the chain is replaced between its requests.

* `Database.IsChain` : a contiguous, hash-linked chain;
* `not_hasControl_of_chain` : no request against a chain meets a reset;
* `boundary_linked_iff` : when the first block of a page continues the last block of the page before.
-/

namespace NocyWalletFeed
open Codec Pager

/-! ## Chains -/

/-- The blocks are contiguous and hash-linked from height 0 up to every block. -/
def Database.IsChain (db : Database) : Prop := ∀ b ∈ db.blocks, db.ChainUpTo b.height

instance (db : Database) : Decidable db.IsChain := inferInstanceAs (Decidable (∀ b ∈ db.blocks, _))

namespace Database.IsChain
variable {db : Database}

theorem chainUpTo (h : db.IsChain) (hne : db.blocks ≠ []) {top : Int} (hle : top ≤ getChainHead db) :
    db.ChainUpTo top := by
  obtain ⟨b, hb, hhead⟩ := exists_height_eq_getChainHead hne
  exact (h b hb).mono (by omega)

end Database.IsChain

theorem page_of_chain {db : Database} (hchain : db.IsChain) {limitBlocksMax : Nat} {query : FeedQuery}
    {response : FeedResponse} (h : getFeed limitBlocksMax db query = .ok response) :
    (response.blocks = [] ∧ response.nextHeight = none) ∨ ∃ args readyHeight fromCursor fromHeight toHeight,
      0 ≤ fromHeight ∧ Served db query args readyHeight ∧ db.ChainUpTo readyHeight ∧
      PageSpec db args readyHeight fromCursor fromHeight toHeight response := by
  rcases getFeed_ok_cases h with hempty | ⟨args, readyHeight, fromCursor, hserved, -, hle, rfl⟩
  · exact Or.inl hempty
  · have h0 : 0 ≤ startHeight fromCursor query.fromHeight := le_max_right _ _
    by_cases hne : db.blocks = []
    · have hrange : ∀ toHeight, getBlocksInRange db (startHeight fromCursor query.fromHeight) toHeight = [] := by
        intro toHeight
        rw [getBlocksInRange, hne]
        rfl
      rw [page_eq db args fromCursor _ hle, hrange]
      exact Or.inl ⟨rfl, rfl⟩
    · have hready := hchain.chainUpTo hne hserved.ready.le_getChainHead
      exact Or.inr ⟨args, readyHeight, fromCursor, _, _, h0, hserved, hready,
        page_chain hready fromCursor h0 hle (one_le_clampLimit limitBlocksMax query.limitBlocks)⟩

theorem not_hasControl_of_chain {db : Database} (hchain : db.IsChain) {limitBlocksMax : Nat} {query : FeedQuery}
    {response : FeedResponse} (h : getFeed limitBlocksMax db query = .ok response) : ¬ response.HasControl := by
  rcases page_of_chain hchain h with ⟨hblocks, -⟩ | ⟨_, _, _, _, _, -, -, -, hspec⟩
  · rintro ⟨bundle, hbundle, -⟩
    rw [hblocks] at hbundle
    cases hbundle
  · rintro ⟨bundle, hbundle, item, hitem, event, hcontrol⟩
    rw [hspec.blocks] at hbundle
    exact not_control_of_mem_pageBundles hbundle hitem event hcontrol

/-! ## Page boundaries -/

/-- The range of a request for a height has a block: the session's wallet is ready up to it. -/
def RangeStarts (db : Database) (query : FeedQuery) (fromHeight : Int) : Prop :=
  ∃ args readyHeight, Served db query args readyHeight ∧ fromHeight ≤ readyHeight

/-- The block at the start of the later page's range names the block below it of the earlier page's snapshot. -/
def BoundaryLinked (earlier later : Database) (query : FeedQuery) : Position → Prop
  | .cursor _ => False
  | .height fromHeight => RangeStarts later query fromHeight →
    ∃ last first, earlier.blockAt (fromHeight - 1) = some last ∧ later.blockAt fromHeight = some first ∧
      first.parentHash = last.hash

/-- The last block of the earlier page's range has the same hash in both snapshots. -/
def BoundaryKept (earlier later : Database) (query : FeedQuery) : Position → Prop
  | .cursor _ => False
  | .height fromHeight => RangeStarts later query fromHeight →
    (earlier.blockAt (fromHeight - 1)).map (·.hash) = (later.blockAt (fromHeight - 1)).map (·.hash)

/-- One boundary: the earlier page's snapshot is a chain up to the height below it. -/
theorem boundaryLinked_iff {earlier later : Database} {query : FeedQuery} {fromHeight : Int}
    (hearlier : earlier.ChainUpTo (fromHeight - 1)) (hlater : later.IsChain) (hpos : 0 < fromHeight) :
    BoundaryLinked earlier later query (.height fromHeight) ↔
      BoundaryKept earlier later query (.height fromHeight) := by
  obtain ⟨last, hlast⟩ := hearlier.present (fromHeight - 1) (by omega) le_rfl
  refine forall_congr' fun hstarts => ?_
  obtain ⟨args, readyHeight, hserved, hle⟩ := hstarts
  have hne : later.blocks ≠ [] := by
    intro hnil
    have hhead : getChainHead later = 0 := by rw [getChainHead, hnil]; rfl
    have := hserved.ready.le_getChainHead
    omega
  have hready := hlater.chainUpTo hne (hle.trans hserved.ready.le_getChainHead)
  obtain ⟨below, hbelow⟩ := hready.present (fromHeight - 1) (by omega) (by omega)
  obtain ⟨first, hfirst⟩ := hready.present fromHeight (by omega) le_rfl
  have hlink := hready.linked (fromHeight - 1) below first (by omega) (by omega) hbelow (by rwa [sub_add_cancel])
  rw [hlast, hbelow, Option.map_some, Option.map_some, Option.some.injEq]
  constructor
  · rintro ⟨last', first', hlast', hfirst', heq⟩
    obtain rfl := Option.some.inj hlast'
    obtain rfl := Option.some.inj (hfirst.symm.trans hfirst')
    rw [← heq, hlink]
  · intro heq
    exact ⟨last, first, rfl, hfirst, hlink.trans heq.symm⟩

section Run
variable {limitBlocksMax : Nat} {dbs : Nat → Database} {query : FeedQuery} {limits : Nat → Option Int} {n : Nat}
  {position : Nat → Position} {response : Nat → FeedResponse}

theorem position_succ (hchain : ∀ k, (dbs k).IsChain)
    (hrun : Run (fetchPage limitBlocksMax dbs query limits) byHeight n position response) {k : Nat} (hk : k + 1 < n) :
    ∃ fromHeight, position (k + 1) = .height fromHeight ∧ 0 < fromHeight ∧ (dbs k).ChainUpTo (fromHeight - 1) := by
  have hnext := hrun.continued k hk
  rcases page_of_chain (hchain k) (hrun.ok k (by omega)) with ⟨-, hnone⟩ |
    ⟨_, readyHeight, _, fromHeight, toHeight, h0, -, hready, hspec⟩
  · rw [byHeight, hnone] at hnext
    cases hnext
  · obtain ⟨hlt, hposition⟩ := hspec.byHeight_eq_some hnext
    have hlo := hspec.from_le
    refine ⟨toHeight + 1, hposition, by omega, ?_⟩
    rw [add_sub_cancel_right]
    exact hready.mono (by omega)

/-- **Polling and reorgs.** Over snapshots that are chains, no response contains a reset; consecutive pages link to each
other exactly when the last block of each page's range still has its hash at the next request. -/
theorem boundary_linked_iff (hchain : ∀ k, (dbs k).IsChain)
    (hrun : Run (fetchPage limitBlocksMax dbs query limits) byHeight n position response) :
    ((∀ k < n, ¬ (response k).HasControl) →
        ∀ k, k + 1 < n → BoundaryLinked (dbs k) (dbs (k + 1)) query (position (k + 1))) ↔
      ∀ k, k + 1 < n → BoundaryKept (dbs k) (dbs (k + 1)) query (position (k + 1)) := by
  have hcontrol : ∀ k < n, ¬ (response k).HasControl := fun k hk => not_hasControl_of_chain (hchain k) (hrun.ok k hk)
  rw [forall_prop_of_true hcontrol]
  refine forall_congr' fun k => forall_congr' fun hk => ?_
  obtain ⟨fromHeight, hposition, hpos, hearlier⟩ := position_succ hchain hrun hk
  rw [hposition]
  exact boundaryLinked_iff hearlier (hchain (k + 1)) hpos

end Run

/-- A chain of three blocks. -/
def Sample.chainBefore : Database :=
  ⟨tables [block 0 1 0, block 1 2 1, block 2 3 2] [transaction 1 0] [utxo 1 1 none], by decide⟩

/-- The same chain with its last two blocks replaced. -/
def Sample.chainAfter : Database :=
  ⟨tables [block 0 1 0, block 1 5 1, block 2 6 5] [transaction 1 0] [utxo 1 1 none], by decide⟩

/-- The replacement happens after the first request. -/
def Sample.replacedChain : Nat → Database
  | 0 => chainBefore
  | _ + 1 => chainAfter

theorem Sample.isChain_replacedChain (k : Nat) : (replacedChain k).IsChain := by
  cases k with
  | zero => decide
  | succ k =>
    show chainAfter.IsChain
    decide

theorem Sample.served_replacedChain (k : Nat) : Served (replacedChain k) query args 2 := by
  cases k with
  | zero => exact served rfl (by decide)
  | succ k =>
    show Served chainAfter query args 2
    exact served rfl (by decide)

/-- The blocks above the first page are replaced after the first of three requests. -/
theorem boundary_linked_replacedAbove : ∃ position response,
    Run (fetchPage 100 Sample.replacedChain Sample.query (fun _ => some 1)) byHeight 3 position response ∧
      ((∀ k < 3, ¬ (response k).HasControl) → ∀ k, k + 1 < 3 →
        BoundaryLinked (Sample.replacedChain k) (Sample.replacedChain (k + 1)) Sample.query (position (k + 1))) := by
  have hrun : Run (fetchPage 100 Sample.replacedChain Sample.query (fun _ => some 1)) byHeight 3
      (fun k => .height k) (fun k => page (Sample.replacedChain k) Sample.args 2 none k 1) := by
    refine ⟨fun k _ => getFeed_height 100 (Sample.served_replacedChain k) (some 1) (Int.natCast_nonneg k),
      fun k hk => ?_⟩
    obtain rfl | rfl : k = 0 ∨ k = 1 := by omega
    · decide
    · decide
  refine ⟨_, _, hrun, (boundary_linked_iff Sample.isChain_replacedChain hrun).mpr fun k hk _ => ?_⟩
  obtain rfl | rfl : k = 0 ∨ k = 1 := by omega
  · rfl
  · rfl

/-- The second request compares block 2 with the new block 1, and not with the block 1 of the first page. -/
theorem replacedChain_not_linked : (∀ k, (Sample.replacedChain k).IsChain) ∧ ∃ position response,
    Run (fetchPage 100 Sample.replacedChain Sample.query (fun _ => some 2)) byHeight 2 position response ∧
      (∀ k < 2, ¬ (response k).HasControl) ∧
      ¬ ∀ k, k + 1 < 2 →
        BoundaryLinked (Sample.replacedChain k) (Sample.replacedChain (k + 1)) Sample.query (position (k + 1)) := by
  have hrun : Run (fetchPage 100 Sample.replacedChain Sample.query (fun _ => some 2)) byHeight 2
      (fun k => .height (2 * k)) (fun k => page (Sample.replacedChain k) Sample.args 2 none (2 * k) 2) := by
    refine ⟨fun k _ => getFeed_height 100 (Sample.served_replacedChain k) (some 2) (by omega), fun k hk => ?_⟩
    obtain rfl : k = 0 := by omega
    decide
  refine ⟨Sample.isChain_replacedChain, _, _, hrun,
    fun k hk => not_hasControl_of_chain (Sample.isChain_replacedChain k) (hrun.ok k hk), fun h => ?_⟩
  obtain ⟨last, first, hlast, hfirst, heq⟩ := h 0 (by decide) ⟨Sample.args, 2, Sample.served_replacedChain 1, by decide⟩
  cases hlast
  cases hfirst
  exact absurd heq (by decide)

end NocyWalletFeed
