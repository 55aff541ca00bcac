import NocyWalletFeed.Reorgs
import NocyWalletFeed.Evolution
import NocyWalletFeed.Library.Walk

/-!
# Polling a chain that grows

A wallet keeps asking for the next page while the indexers go on writing. Its requests meet one snapshot after another,
and some of its answers are lost on the way.

* `Growing` : snapshots of a chain, each grown from the one before;
* `Follower.poll` : one request; the client goes on at `nextHeight`, or above the wallet-ready height;
* `Follower.Inv` : what the client has is the feed up to where it goes on, and is final;
* `Follower.Inv.poll`, `Follower.poll_fromHeight` : so it stays, and an answer takes the client on.
-/

namespace NocyWalletFeed
open Codec Pager Walk

/-! ## Snapshots -/

/-- A chain that an earlier snapshot has grown to. -/
structure GrownFrom (db db' : Database) : Prop where
  evolves : Evolves db db'
  chain : db'.IsChain
  blocks : db'.blocks ≠ []

/-- Snapshots of a chain, each grown from the one before. -/
abbrev Growing (db : Database) (snapshots : List Database) : Prop := Along GrownFrom (fun _ db' => db') db snapshots

/-- The last snapshot, or the one before all. -/
abbrev lastSnapshot (db : Database) (snapshots : List Database) : Database := snapshots.foldl (fun _ db' => db') db

theorem Growing.evolves {db : Database} {snapshots : List Database} (h : Growing db snapshots) :
    Evolves db (lastSnapshot db snapshots) := by
  induction snapshots generalizing db with
  | nil => exact .refl
  | cons db' snapshots ih => exact h.1.evolves.trans (ih h.2)

theorem Growing.sublist {db : Database} {snapshots snapshots' : List Database} (h : Growing db snapshots)
    (hsub : snapshots'.Sublist snapshots) :
    Growing db snapshots' ∧ Evolves (lastSnapshot db snapshots') (lastSnapshot db snapshots) := by
  induction hsub generalizing db with
  | slnil => exact ⟨h, .refl⟩
  | cons db' hsub ih =>
    obtain ⟨hrest, hlast⟩ := ih h.2
    rename_i rest _
    cases rest with
    | nil => exact ⟨trivial, h.1.evolves.trans hlast⟩
    | cons db'' rest => exact ⟨⟨⟨h.1.evolves.trans hrest.1.evolves, hrest.1.chain, hrest.1.blocks⟩, hrest.2⟩, hlast⟩
  | cons_cons db' hsub ih =>
    obtain ⟨hrest, hlast⟩ := ih h.2
    exact ⟨⟨h.1, hrest⟩, hlast⟩

/-! ## The client -/

/-- A request of the client: the snapshot it meets, its limit, and whether the answer is lost. -/
structure Poll where
  db : Database
  limitBlocks : Option Int
  lost : Bool

/-- A client: the height it asks for next, and the items it has received. -/
structure Follower where
  fromHeight : Int
  items : List OrderedFeedItem
  deriving DecidableEq, Repr

def Follower.initial : Follower := ⟨0, []⟩

/-- Where a client goes on: at `nextHeight`, or above the height the wallet is ready for. -/
def FeedResponse.resumeAt (response : FeedResponse) (fromHeight : Int) : Int :=
  match response.nextHeight, response.watermarks.walletReadyHeight with
  | some nextHeight, _ => nextHeight
  | none, some readyHeight => max fromHeight (readyHeight + 1)
  | none, none => fromHeight

def Follower.poll (limitBlocksMax : Nat) (query : FeedQuery) (p : Follower) (poll : Poll) : Follower :=
  if poll.lost then p
  else
    match getFeed limitBlocksMax poll.db (query.startingAt poll.limitBlocks (.height p.fromHeight)) with
    | .ok response => ⟨response.resumeAt p.fromHeight, p.items ++ response.blocks.flatMap (·.items)⟩
    | .error _ => p

/-! ## One request -/

section Request
variable {limitBlocksMax : Nat} {db : Database} {query : FeedQuery} {localSessionId : Bytes} {args : AssemblyArgs}

theorem page_watermarks (db : Database) (args : AssemblyArgs) (readyHeight : Int) (fromCursor : Option SequenceKey)
    (fromHeight limitBlocks : Int) :
    (page db args readyHeight fromCursor fromHeight limitBlocks).watermarks = watermarksOf db readyHeight := by
  by_cases hle : fromHeight ≤ readyHeight
  · rw [page_eq db args fromCursor limitBlocks hle]
    split
    · rfl
    · split <;> rfl
  · rw [page, if_pos (not_le.mp hle)]
    rfl

theorem getFeed_startingAt (limitBlocksMax : Nat) (hsession : parseSessionId query.sessionId = .ok localSessionId)
    (hargs : resolveArgs db query localSessionId = .ok args) (limitBlocks : Option Int) {fromHeight : Int}
    (h0 : 0 ≤ fromHeight) :
    getFeed limitBlocksMax db (query.startingAt limitBlocks (.height fromHeight)) =
      (computeWalletReadyHeight db args.upstreamSessionId (getChainHead db)).map fun ready =>
        match ready with
        | none => FeedResponse.empty ⟨getChainHead db, none, some (getChainHead db)⟩
        | some readyHeight =>
          page db args readyHeight none fromHeight (clampLimit limitBlocksMax limitBlocks) := by
  have hsession' : parseSessionId (query.startingAt limitBlocks (.height fromHeight)).sessionId = .ok localSessionId :=
    hsession
  have hcursor : parseFromCursor (query.startingAt limitBlocks (.height fromHeight)).fromCursor = .ok none := rfl
  have hargs' : resolveArgs db (query.startingAt limitBlocks (.height fromHeight)) localSessionId = .ok args := hargs
  have hstart : startHeight none (query.startingAt limitBlocks (.height fromHeight)).fromHeight = fromHeight :=
    max_eq_left h0
  unfold getFeed
  simp only [hsession', hcursor, hargs', hstart, bind, Except.bind]
  cases computeWalletReadyHeight db args.upstreamSessionId (getChainHead db) with
  | error e => rfl
  | ok ready =>
    cases ready with
    | none => rfl
    | some readyHeight =>
      simp only [Except.map, page]
      split_ifs <;> rfl

end Request

/-! ## What the client has -/

/-- The client has the feed up to where it goes on, and all of it is settled. -/
structure Follower.Inv (db : Database) (args : AssemblyArgs) (p : Follower) : Prop where
  nonneg : 0 ≤ p.fromHeight
  items : p.items = feedItems db args 0 p.fromHeight
  settled : ∀ height, 0 ≤ height → height < p.fromHeight → Settled db args.upstreamSessionId height

section Inv
variable {limitBlocksMax : Nat} {db db' : Database} {query : FeedQuery} {localSessionId : Bytes} {args : AssemblyArgs}
  {p : Follower}

theorem Follower.inv_initial (db : Database) (args : AssemblyArgs) : Follower.initial.Inv db args where
  nonneg := le_rfl
  items := rfl
  settled _ hlo hhi := absurd hhi (not_lt.mpr hlo)

theorem Follower.Inv.evolve (h : p.Inv db args) (hevolves : Evolves db db') : p.Inv db' args where
  nonneg := h.nonneg
  items := by
    rw [h.items]
    refine List.flatMap_congr fun height hmem => ?_
    obtain ⟨hlo, hhi⟩ := Int.mem_range_iff.mp hmem
    rw [blockItems, blockItems, (hevolves.fetchWindow_eq (h.settled height hlo hhi)).1]
  settled height hlo hhi := (hevolves.fetchWindow_eq (h.settled height hlo hhi)).2

theorem resumeAt_page (hchain : db.IsChain) (hblocks : db.blocks ≠ []) {readyHeight : Int}
    (hready : WalletReady db args.upstreamSessionId readyHeight) {fromHeight limitBlocks : Int} (h0 : 0 ≤ fromHeight)
    (hlimit : 1 ≤ limitBlocks) :
    let response := page db args readyHeight none fromHeight limitBlocks
    response.resumeAt fromHeight = max fromHeight (min (fromHeight + limitBlocks) (readyHeight + 1)) ∧
      response.blocks.flatMap (·.items) = feedItems db args fromHeight (response.resumeAt fromHeight) := by
  intro response
  have hwatermarks : response.watermarks.walletReadyHeight = some readyHeight :=
    congrArg Watermarks.walletReadyHeight (page_watermarks db args readyHeight none fromHeight limitBlocks)
  by_cases hle : fromHeight ≤ readyHeight
  · have hready := hchain.chainUpTo hblocks hready.le_getChainHead
    have hspec : PageSpec db args readyHeight none fromHeight (pageEnd fromHeight limitBlocks readyHeight) response :=
      page_chain hready none h0 hle hlimit
    have hend : pageEnd fromHeight limitBlocks readyHeight = min (fromHeight + limitBlocks - 1) readyHeight := rfl
    have hresume : response.resumeAt fromHeight = pageEnd fromHeight limitBlocks readyHeight + 1 := by
      unfold FeedResponse.resumeAt
      rw [hspec.nextHeight, hwatermarks]
      have hle' := hspec.le_ready
      have hfrom := hspec.from_le
      split_ifs with hlt
      · rfl
      · dsimp only
        omega
    refine ⟨by omega, ?_⟩
    rw [hresume, hspec.blocks, flatMap_items_pageBundles hready h0 hspec.le_ready]
  · have hpage : response = FeedResponse.empty (watermarksOf db readyHeight) := if_pos (not_le.mp hle)
    have hresume : response.resumeAt fromHeight = fromHeight := by
      rw [hpage]
      exact max_eq_left (by omega)
    refine ⟨by omega, ?_⟩
    rw [hresume, hpage, feedItems, IntRange.range_eq_nil le_rfl]
    rfl

/-- **Step.** A request against a chain keeps the invariant. -/
theorem Follower.Inv.poll (h : p.Inv db args) (hsession : parseSessionId query.sessionId = .ok localSessionId)
    (hargs : resolveArgs db query localSessionId = .ok args) {poll : Poll} (hdb : poll.db = db) (hchain : db.IsChain)
    (hblocks : db.blocks ≠ []) : (p.poll limitBlocksMax query poll).Inv db args := by
  unfold Follower.poll
  rw [hdb]
  by_cases hlost : poll.lost = true
  · rwa [if_pos hlost]
  · rw [if_neg hlost]
    rw [getFeed_startingAt limitBlocksMax hsession hargs poll.limitBlocks h.nonneg]
    cases hready : computeWalletReadyHeight db args.upstreamSessionId (getChainHead db) with
    | error e => exact h
    | ok ready =>
      cases ready with
      | none =>
        refine ⟨h.nonneg, ?_, h.settled⟩
        exact (List.append_nil _).trans h.items
      | some readyHeight =>
        obtain ⟨hresume, hitems⟩ := resumeAt_page hchain hblocks hready h.nonneg
          (one_le_clampLimit limitBlocksMax poll.limitBlocks)
        have hle : p.fromHeight ≤ (page db args readyHeight none p.fromHeight
            (clampLimit limitBlocksMax poll.limitBlocks)).resumeAt p.fromHeight := by
          rw [hresume]
          exact le_max_left _ _
        refine ⟨h.nonneg.trans hle, ?_, fun height hlo hhi => ?_⟩
        · show p.items ++ _ = _
          rw [hitems, h.items]
          exact feedItems_append db args h.nonneg hle
        · by_cases hold : height < p.fromHeight
          · exact h.settled height hlo hold
          · have hhi : height < FeedResponse.resumeAt _ p.fromHeight := hhi
            rw [hresume] at hhi
            exact WalletReady.settledAt hready hblocks (by omega)

/-- **Progress.** A request that is answered takes the client on by its limit, up to the ready height. -/
theorem Follower.Inv.poll_fromHeight (h : p.Inv db args)
    (hsession : parseSessionId query.sessionId = .ok localSessionId)
    (hargs : resolveArgs db query localSessionId = .ok args) {poll : Poll} (hdb : poll.db = db) (hchain : db.IsChain)
    (hblocks : db.blocks ≠ []) (hlost : poll.lost = false) {readyHeight : Int}
    (hready : WalletReady db args.upstreamSessionId readyHeight) :
    (p.poll limitBlocksMax query poll).fromHeight =
      max p.fromHeight (min (p.fromHeight + clampLimit limitBlocksMax poll.limitBlocks) (readyHeight + 1)) := by
  have hserved : Served db query args readyHeight := ⟨⟨localSessionId, hsession, hargs⟩, hready⟩
  unfold Follower.poll
  rw [hdb, hlost, if_neg Bool.false_ne_true, getFeed_height limitBlocksMax hserved poll.limitBlocks h.nonneg]
  exact (resumeAt_page hchain hblocks hready h.nonneg (one_le_clampLimit limitBlocksMax poll.limitBlocks)).1

end Inv

end NocyWalletFeed
