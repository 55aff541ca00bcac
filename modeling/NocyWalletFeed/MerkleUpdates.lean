import NocyWalletFeed.CacheLookup
import NocyWalletFeed.Readiness
import NocyWalletFeed.Routes.Zswap

/-!
# What a merkle-update response covers

* `CoversRequest` : the updates of a response tile the range of the request;
* `decidingFrame` : the frame at which the subscription to the upstream ends;
* `AnswersInFull` : no range is answered by an upstream that has no update for it;
* `merkleUpdate_covers_iff` : every successful response covers the request exactly under that condition.
-/

namespace NocyWalletFeed
open Codec Tiling

/-- The updates, as ranges with both ends included, tile the range of the request. -/
def CoversRequest (query : MerkleUpdateQuery) (response : MerkleUpdateResponse) : Prop :=
  Tiles MerkleUpdateItem.startIndex MerkleUpdateItem.endIndex query.fromIndex response.updates ∧
    tilesEnd MerkleUpdateItem.endIndex query.fromIndex response.updates = query.toIndex

instance (query : MerkleUpdateQuery) (response : MerkleUpdateResponse) : Decidable (CoversRequest query response) :=
  inferInstanceAs (Decidable (Walk.Along _ _ _ _ ∧ _))

/-! ## The frames of the upstream -/

def UpstreamFrame.isSkipped : UpstreamFrame → Bool
  | next none none => true
  | next none (some .shieldedTransactionsProgress) => true
  | ping => true
  | ignored => true
  | _ => false

/-- The frame at which the loop ends; `none` where the connection ends or the timeout strikes first. -/
def decidingFrame (frames : List UpstreamFrame) : Option UpstreamFrame := frames.find? (fun frame => !frame.isSkipped)

/-- A frame with which the upstream reports an error, or a transaction at the end of the range with the update of
exactly the range. -/
def AnswersRange (fromIndex toIndex : Int) : Option UpstreamFrame → Prop
  | some (.next (some _) _) => True
  | some (.next none (some (.relevantTransaction startIndex (some tree)))) =>
    startIndex = toIndex ∧ tree.startIndex = fromIndex ∧ tree.endIndex = toIndex - 1
  | some (.error _) => True
  | some (.readError _) => True
  | _ => False

/-- The request is turned down, the cache covers the range, no upstream is configured or it cannot be subscribed to, or
its subscription ends with an error or the update of the range. -/
def AnswersInFull (state : ZswapState) (query : MerkleUpdateQuery) : Prop :=
  (checkRequest state query).isOk = false ∨
    (servedFromCache state.merkleCacheManager query.fromIndex query.toIndex).isSome ∨
    ∀ upstream, state.subscriptionManager = some upstream →
      upstream.opening.isOk = false ∨
        AnswersRange query.fromIndex query.toIndex (decidingFrame upstream.frames)

section Upstream
variable {fromIndex toIndex : Int}

def UpdatesTile (fromIndex toIndex : Int) (updates : List CollapsedMerkleUpdate) : Prop :=
  Tiles CollapsedMerkleUpdate.startIndex CollapsedMerkleUpdate.endIndex fromIndex updates ∧
    tilesEnd CollapsedMerkleUpdate.endIndex fromIndex updates = toIndex

theorem not_updatesTile_nil (hlt : fromIndex < toIndex) : ¬ UpdatesTile fromIndex toIndex [] :=
  fun h => hlt.ne h.2

/-- The answer to a relevant transaction tiles the range exactly when it is the update of the range. -/
theorem updatesTile_relevantTransaction (hlt : fromIndex < toIndex) (startIndex : Int) (tree : CollapsedMerkleTree) :
    UpdatesTile fromIndex toIndex (relevantTransactionUpdates fromIndex toIndex startIndex (some tree)) ↔
      startIndex = toIndex ∧ tree.startIndex = fromIndex ∧ tree.endIndex = toIndex - 1 := by
  rw [relevantTransactionUpdates]
  split_ifs with hstart htree hend
  · exact iff_of_false (not_updatesTile_nil hlt) (fun h => hstart h.1)
  · exact iff_of_false (not_updatesTile_nil hlt) (fun h => htree h.2.1)
  · exact iff_of_false (not_updatesTile_nil hlt) (fun h => hend h.2.2)
  · have heq := not_not.mp hstart
    have hfrom := not_not.mp htree
    have hto := not_not.mp hend
    refine iff_of_true ⟨tiles_cons.mpr ⟨⟨hfrom, ?_⟩, tiles_nil _⟩, ?_⟩ ⟨heq, hfrom, hto⟩
    · show tree.startIndex ≤ tree.endIndex
      omega
    · show tree.endIndex + 1 = toIndex
      omega

/-- What the loop collects tiles the range exactly when the frame at which it ends answers it. -/
theorem collectUpdates_tile_iff (hlt : fromIndex < toIndex) (frames : List UpstreamFrame) :
    (∀ updates, collectUpdates fromIndex toIndex frames = .ok updates → UpdatesTile fromIndex toIndex updates) ↔
      AnswersRange fromIndex toIndex (decidingFrame frames) := by
  have hempty : (∀ updates, (Except.ok [] : Except AppError (List CollapsedMerkleUpdate)) = .ok updates →
      UpdatesTile fromIndex toIndex updates) ↔ False :=
    ⟨fun h => not_updatesTile_nil hlt (h [] rfl), False.elim⟩
  induction frames with
  | nil => exact hempty
  | cons frame frames ih =>
    cases frame with
    | next errors data =>
      cases errors with
      | some errors => exact ⟨fun _ => trivial, fun _ updates h => by cases h⟩
      | none =>
        cases data with
        | none => exact ih
        | some event =>
          cases event with
          | shieldedTransactionsProgress => exact ih
          | relevantTransaction startIndex tree =>
            cases tree with
            | none => exact hempty
            | some tree =>
              refine Iff.trans ⟨fun h => h _ rfl, fun h updates hok => ?_⟩
                (updatesTile_relevantTransaction hlt startIndex tree)
              exact Except.ok.inj hok ▸ h
    | error payload => exact ⟨fun _ => trivial, fun _ updates h => by cases h⟩
    | complete => exact hempty
    | ping => exact ih
    | ignored => exact ih
    | close => exact hempty
    | readError message => exact ⟨fun _ => trivial, fun _ updates h => by cases h⟩

end Upstream

/-! ## The response -/

section Response
variable {state : ZswapState} {query : MerkleUpdateQuery}

theorem coversRequest_map_cached (updates : List CachedMerkleUpdate) :
    CoversRequest query ⟨updates.map (·.toItem)⟩ ↔
      RowTiles query.fromIndex updates ∧ rowsEnd query.fromIndex updates = query.toIndex := by
  unfold CoversRequest
  rw [tiles_map, tilesEnd_map]
  rfl

theorem coversRequest_map_collapsed (updates : List CollapsedMerkleUpdate) :
    CoversRequest query ⟨updates.map (·.toItem)⟩ ↔ UpdatesTile query.fromIndex query.toIndex updates := by
  unfold CoversRequest
  rw [tiles_map, tilesEnd_map]
  rfl

theorem coversRequest_of_servedFromCache (hlt : query.fromIndex < query.toIndex) {updates : List CachedMerkleUpdate}
    (h : servedFromCache state.merkleCacheManager query.fromIndex query.toIndex = some updates) :
    CoversRequest query ⟨updates.map (·.toItem)⟩ := by
  rw [coversRequest_map_cached]
  unfold servedFromCache at h
  cases hcache : state.merkleCacheManager with
  | none =>
    rw [hcache] at h
    cases h
  | some content =>
    rw [hcache] at h
    cases content with
    | error e => cases h
    | ok rows =>
      dsimp only at h
      split_ifs at h with hcovers
      obtain rfl := Option.some.inj h
      have hend := (coversRange_iff hlt).mp hcovers
      rw [getCachedUpdates, if_neg (not_le.mpr hlt)]
      exact ⟨(cachedChain_spec rows (query.toIndex - 1) query.fromIndex).1, hend⟩

/-- A call that gets as far as the upstream covers the request exactly when the upstream answers it. -/
theorem upstream_covers_iff (hlt : query.fromIndex < query.toIndex) (upstream : UpstreamConversation) :
    (∀ updates, fetchMerkleUpdates upstream query.fromIndex query.toIndex = .ok updates →
        CoversRequest query ⟨updates.map (·.toItem)⟩) ↔
      (upstream.opening.isOk = false ∨ AnswersRange query.fromIndex query.toIndex (decidingFrame upstream.frames)) := by
  simp only [coversRequest_map_collapsed]
  unfold fetchMerkleUpdates
  rw [if_neg (not_le.mpr hlt)]
  cases upstream.opening with
  | error e => exact ⟨fun _ => Or.inl rfl, fun _ updates h => by cases h⟩
  | ok _ =>
    rw [← collectUpdates_tile_iff hlt]
    exact ⟨Or.inr, fun h => h.resolve_left (by simp [Except.isOk, Except.toBool])⟩

theorem getMerkleUpdate_of_upstream {upstreamSessionId : Bytes} {upstream : UpstreamConversation}
    (hcheck : checkRequest state query = .ok upstreamSessionId)
    (hcache : servedFromCache state.merkleCacheManager query.fromIndex query.toIndex = none)
    (hmanager : state.subscriptionManager = some upstream) :
    (getMerkleUpdate state query).1 =
      (fetchMerkleUpdates upstream query.fromIndex query.toIndex).map fun updates => ⟨updates.map (·.toItem)⟩ := by
  unfold getMerkleUpdate
  rw [hcheck, hcache, hmanager]
  dsimp only [servedFromUpstream]
  cases fetchMerkleUpdates upstream query.fromIndex query.toIndex <;> rfl

/-- **Merkle-update responses.** Every successful response to a request covers it exactly when the request is not left
to an upstream that has no update for its range. -/
theorem merkleUpdate_covers_iff (hlt : query.fromIndex < query.toIndex) :
    (∀ response, (getMerkleUpdate state query).1 = .ok response → CoversRequest query response) ↔
      AnswersInFull state query := by
  unfold AnswersInFull
  cases hcheck : checkRequest state query with
  | error e =>
    refine iff_of_true (fun response h => ?_) (Or.inl rfl)
    rw [getMerkleUpdate, hcheck] at h
    cases h
  | ok upstreamSessionId =>
    cases hcache : servedFromCache state.merkleCacheManager query.fromIndex query.toIndex with
    | some updates =>
      refine iff_of_true (fun response h => ?_) (Or.inr (Or.inl rfl))
      rw [getMerkleUpdate, hcheck, hcache] at h
      obtain rfl := Except.ok.inj h
      exact coversRequest_of_servedFromCache hlt hcache
    | none =>
      cases hmanager : state.subscriptionManager with
      | none =>
        refine iff_of_true (fun response h => ?_) (Or.inr (Or.inr fun _ h => by cases h))
        rw [getMerkleUpdate, hcheck, hcache, hmanager] at h
        cases h
      | some upstream =>
        rw [getMerkleUpdate_of_upstream hcheck hcache hmanager]
        have hiff := upstream_covers_iff hlt upstream
        constructor
        · intro h
          refine Or.inr (Or.inr ?_)
          intro upstream' heq
          obtain rfl := Option.some.inj heq
          exact hiff.mp fun updates hok => h _ (by rw [hok]; rfl)
        · rintro (hrejected | hserved | hanswers) response hresponse
          · cases hrejected
          · cases hserved
          · cases hfetch : fetchMerkleUpdates upstream query.fromIndex query.toIndex with
            | error e =>
              rw [hfetch] at hresponse
              cases hresponse
            | ok updates =>
              rw [hfetch] at hresponse
              obtain rfl := Except.ok.inj hresponse
              exact hiff.mpr (hanswers upstream rfl) updates hfetch

end Response

namespace Sample

/-- A session, no cache, and an upstream that sends the given frames. -/
def zswapState (frames : List UpstreamFrame) : ZswapState := ⟨.ok shortChain, none, some ⟨.ok (), frames⟩⟩

def merkleUpdateQuery : MerkleUpdateQuery := ⟨hexEncode sessionId, 0, 5⟩

theorem checkRequest_zswapState (frames : List UpstreamFrame) :
    checkRequest (zswapState frames) merkleUpdateQuery = .ok sessionId := by
  have hsession : getUpstreamSessionId shortChain sessionId = .ok sessionId := by decide
  unfold checkRequest merkleUpdateQuery zswapState
  rw [parseSessionId_hexEncode (by decide)]
  dsimp only [bind, Except.bind]
  rw [hsession]
  rfl

end Sample

/-- The upstream completes the subscription without an update, and the response is empty. -/
theorem merkleUpdate_not_covered :
    (getMerkleUpdate (Sample.zswapState [.complete]) Sample.merkleUpdateQuery).1 = .ok ⟨[]⟩ ∧
      ¬ CoversRequest Sample.merkleUpdateQuery ⟨[]⟩ := by
  refine ⟨?_, by decide⟩
  rw [getMerkleUpdate_of_upstream (Sample.checkRequest_zswapState _) rfl rfl]
  rfl

/-- The same request is covered where the upstream sends a progress event and then the update. -/
theorem merkleUpdate_covered :
    (getMerkleUpdate (Sample.zswapState [.next none (some .shieldedTransactionsProgress),
        .next none (some (.relevantTransaction 5 (some ⟨0, 4, "00", 1⟩)))]) Sample.merkleUpdateQuery).1 =
      .ok ⟨[⟨0, 4, "00", 1⟩]⟩ ∧ CoversRequest Sample.merkleUpdateQuery ⟨[⟨0, 4, "00", 1⟩]⟩ := by
  have hresponse : (getMerkleUpdate (Sample.zswapState [.next none (some .shieldedTransactionsProgress),
      .next none (some (.relevantTransaction 5 (some ⟨0, 4, "00", 1⟩)))]) Sample.merkleUpdateQuery).1 =
        .ok ⟨[⟨0, 4, "00", 1⟩]⟩ := by
    rw [getMerkleUpdate_of_upstream (Sample.checkRequest_zswapState _) rfl rfl]
    rfl
  refine ⟨hresponse, (merkleUpdate_covers_iff (by decide)).mpr (Or.inr (Or.inr fun upstream h => Or.inr ?_)) _
    hresponse⟩
  obtain rfl := Option.some.inj h
  exact ⟨rfl, rfl, rfl⟩

end NocyWalletFeed
