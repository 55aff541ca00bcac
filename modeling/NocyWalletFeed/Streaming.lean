import NocyWalletFeed.Polling
import NocyWalletFeed.Ranges
import NocyWalletFeed.Received
import NocyWalletFeed.StreamResume

/-!
# Streaming a chain that grows

A wallet that subscribes takes the blocks as they come. When the stream ends or its response breaks off, it subscribes
again above the last block it has got, or polls from there; the indexers go on writing all the while.

* `Faithful` : an action of the stream accounts for the block of a height;
* `streamStep_faithful`, `along_visits` : so do all actions of a run, over snapshots of a growing chain;
* `Follower.UpTo` : a client has the feed up to a position of the stream;
* `follower_items` : what a client has after any requests is the feed, each item once and in order;
* `follower_catchesUp` : it can always get the rest.
-/

namespace NocyWalletFeed
open Codec Machine Walk

/-! ## The client of a stream -/

/-- The items without the updates are those a client that polls would get; a reset makes it start over. -/
def Follower.take (p : Follower) : SseEvent → Follower
  | .block bundle => ⟨bundle.blockMeta.height + 1, p.items ++ withoutUpdates bundle.items⟩
  | .heartbeat _ _ => p
  | .control _ => .initial

/-- A connection: the snapshot in which it begins, the turns of its delivery, and how many of the events that the client
has taken it reads before the response breaks off. -/
structure FeedConnection where
  db : Database
  turns : List DeliveryTurn
  events : Nat

def SubscribeQuery.startingAt (query : SubscribeQuery) (fromHeight : Int) : SubscribeQuery :=
  { query with fromHeight := some fromHeight, fromCursor := none }

def FeedConnection.received (c : FeedConnection) (query : SubscribeQuery) (fromHeight : Int) : List SseEvent :=
  match subscribeFeed c.db (query.startingAt fromHeight) with
  | .ok subscription => (Delivery.run subscription.args subscription.start c.turns).channel.received.take c.events
  | .error _ => []

def Follower.connect (query : SubscribeQuery) (p : Follower) (c : FeedConnection) : Follower :=
  (c.received query p.fromHeight).foldl Follower.take p

/-- The client polls or connects. -/
inductive FeedRequest where
  | poll (request : Poll)
  | connect (c : FeedConnection)

def Follower.request (limitBlocksMax : Nat) (query : FeedQuery) (subscribeQuery : SubscribeQuery) (p : Follower) :
    FeedRequest → Follower
  | .poll request => p.poll limitBlocksMax query request
  | .connect c => p.connect subscribeQuery c

/-- The client after some requests. -/
def Follower.run (limitBlocksMax : Nat) (query : FeedQuery) (subscribeQuery : SubscribeQuery)
    (requests : List FeedRequest) : Follower :=
  requests.foldl (Follower.request limitBlocksMax query subscribeQuery) .initial

/-! ## Snapshots that are met -/

def Encounter.snapshots (w : Encounter) : List Database :=
  match w.snapshot with
  | .ok db => [db]
  | .error _ => []

def FeedConnection.snapshots (c : FeedConnection) : List Database :=
  c.db :: (c.turns.flatMap DeliveryTurn.encounters).flatMap Encounter.snapshots

def FeedRequest.snapshots : FeedRequest → List Database
  | .poll request => [request.db]
  | .connect c => c.snapshots

/-! ## What the actions of a stream account for -/

def StreamAction.heightAfter (height : Int) (action : StreamAction) : Int :=
  match action.processed with
  | some _ => height + 1
  | none => height

/-- An action at a height is right: its block is that of the height, its items are those of the feed and settled, and
it is passed over only if there are none. No action is a reset. -/
def Faithful (db : Database) (args : AssemblyArgs) (height : Int) : StreamAction → Prop
  | .sent (.block bundle) => bundle.blockMeta.height = height ∧
      withoutUpdates bundle.items = blockItems db args height ∧ Settled db args.upstreamSessionId height
  | .skipped _ => blockItems db args height = [] ∧ Settled db args.upstreamSessionId height
  | .sent (.heartbeat _ _) => True
  | .sent (.control _) => False

theorem foldl_heightAfter (height : Int) (actions : List StreamAction) :
    actions.foldl StreamAction.heightAfter height = height + (processedBlocks actions).length := by
  induction actions generalizing height with
  | nil => exact (add_zero height).symm
  | cons action actions ih =>
    rw [List.foldl_cons, ih, StreamAction.heightAfter, processedBlocks, processedBlocks]
    cases haction : action.processed with
    | none => rw [List.filterMap_cons_none haction]
    | some blockMeta =>
      rw [List.filterMap_cons_some haction, List.length_cons]
      push_cast
      ring

section Actions
variable {db db' : Database} {args : AssemblyArgs}

/-- What is settled stays as it is while the chain grows. -/
theorem Faithful.evolve (hevolves : Evolves db db') {height : Int} {action : StreamAction}
    (h : Faithful db args height action) : Faithful db' args height action := by
  have hkeep : Settled db args.upstreamSessionId height →
      blockItems db' args height = blockItems db args height ∧ Settled db' args.upstreamSessionId height := by
    intro hsettled
    obtain ⟨hwindow, hsettled'⟩ := hevolves.fetchWindow_eq hsettled
    exact ⟨by rw [blockItems, blockItems, hwindow], hsettled'⟩
  cases action with
  | skipped blockMeta =>
    obtain ⟨hitems, hsettled⟩ := hkeep h.2
    exact ⟨hitems.trans h.1, hsettled⟩
  | sent event =>
    cases event with
    | block bundle =>
      obtain ⟨hitems, hsettled⟩ := hkeep h.2.2
      exact ⟨h.1, h.2.1.trans hitems.symm, hsettled⟩
    | heartbeat watermarks currentHeight => trivial
    | control event => exact h

theorem along_map_blockAction {bundles : List BlockBundle} {height : Int} {prevHash : Option String}
    (hlinked : Linked height prevHash (bundles.map (·.blockMeta)))
    (hitems : ∀ bundle ∈ bundles, withoutUpdates bundle.items = blockItems db args bundle.blockMeta.height ∧
      Settled db args.upstreamSessionId bundle.blockMeta.height) :
    Along (Faithful db args) StreamAction.heightAfter height (bundles.map (blockAction none)) := by
  induction bundles generalizing height prevHash with
  | nil => trivial
  | cons bundle bundles ih =>
    obtain ⟨hheight, -, hrest⟩ := hlinked
    have hheight : bundle.blockMeta.height = height := hheight
    obtain ⟨hbundle, hsettled⟩ := hitems bundle List.mem_cons_self
    rw [hheight] at hbundle hsettled
    refine ⟨?_, ?_⟩
    · show Faithful db args height (blockAction none bundle)
      unfold blockAction
      dsimp only [filterCursorBlock]
      split_ifs with hempty
      · rw [List.isEmpty_iff.mp hempty] at hbundle
        exact ⟨hbundle.symm, hsettled⟩
      · exact ⟨hheight, hbundle, hsettled⟩
    · rw [StreamAction.heightAfter, processed_blockAction]
      exact ih hrest fun bundle' hmem => hitems bundle' (List.mem_cons_of_mem bundle hmem)

/-- Heartbeats account for no block. -/
theorem Quiet.along {actions : List StreamAction} (h : Quiet actions) (height : Int) :
    Along (Faithful db args) StreamAction.heightAfter height actions := by
  induction actions with
  | nil => trivial
  | cons action actions ih =>
    obtain ⟨watermarks, currentHeight, rfl⟩ := h action List.mem_cons_self
    exact ⟨trivial, ih fun action' hmem => h action' (List.mem_cons_of_mem _ hmem)⟩

end Actions

/-! ## Runs of the loop -/

section Runs
variable {db db' : Database} {args : AssemblyArgs} {fromHeight : Int} {processed : List BlockMeta} {s : StreamState}

theorem Evolves.blockAt_eq (h : Evolves db db') {height : Int} {b : BlockRow} (hb : db.blockAt height = some b) :
    db'.blockAt height = some b := by
  induction h with
  | refl => exact hb
  | tail _ hstep ih =>
    obtain ⟨_, _, hext⟩ := hstep.extends_db []
    obtain ⟨rows, hrows, -⟩ := hext.blocks
    rw [Database.blockAt, hrows, List.find?_append, ← Database.blockAt, ih]
    rfl

theorem Remembers.evolve (h : Remembers db s) (hevolves : Evolves db db') : Remembers db' s := by
  intro hash hhash
  obtain ⟨hpos, hbelow⟩ := h hash hhash
  refine ⟨hpos, ?_⟩
  rw [getBlockHashAtHeight_eq] at hbelow ⊢
  obtain ⟨b, hb, rfl⟩ := Option.map_eq_some_iff.mp hbelow
  rw [hevolves.blockAt_eq hb]
  rfl

variable (args) in
/-- **Step.** An iteration that meets a chain accounts for the blocks of its batch, and remembers the last of them. -/
theorem streamStep_faithful (hchain : db.IsChain) (hblocks : db.blocks ≠ []) (h0 : 0 ≤ fromHeight)
    (hinv : StreamInv fromHeight none processed s) (hremembers : Remembers db s) {e : Iteration}
    (hsnapshot : e.snapshot = .ok db) :
    Along (Faithful db args) StreamAction.heightAfter s.currentHeight (streamStep args s e).1 ∧
      ∀ s', (streamStep args s e).2 = .next s' → Remembers db s' := by
  have h0' : 0 ≤ s.currentHeight := h0.trans hinv.fromHeight_le
  rcases streamStep_cases args s e with ⟨db', readyHeight, batch, hfetched⟩ | ⟨hquiet, hkeep⟩
  · obtain rfl := Except.ok.inj (hsnapshot.symm.trans hfetched.snapshot)
    obtain rfl := hfetched.batch_eq
    have hupTo := hchain.chainUpTo hblocks hfetched.ready.le_getChainHead
    have hlinked := linked_fetchBatch hupTo h0' hfetched.le_ready hremembers
    have hbuilt : ∀ bundle ∈ builtBundles args s e db (fetchBatch db s readyHeight),
        withoutUpdates bundle.items = blockItems db args bundle.blockMeta.height ∧
          Settled db args.upstreamSessionId bundle.blockMeta.height := by
      intro bundle hmem
      have hbatch : bundle.blockMeta ∈ fetchBatch db s readyHeight := by
        rw [← buildBlockBundles_metas db args e.merkle (fetchBatch db s readyHeight) s.lastMerkleEndIndex]
        exact List.mem_map_of_mem hmem
      obtain ⟨-, hhi, -⟩ := mem_getBlocksInRange.mp hbatch
      exact ⟨items_of_mem_streamed e.merkle s.lastMerkleEndIndex hmem,
        WalletReady.settledAt hfetched.ready hblocks (hhi.trans (min_le_right _ _))⟩
    have halong : Along (Faithful db args) StreamAction.heightAfter s.currentHeight
        ((builtBundles args s e db (fetchBatch db s readyHeight)).map (blockAction none)) := by
      have hmetas : Linked s.currentHeight (boundaryHash db s)
          ((builtBundles args s e db (fetchBatch db s readyHeight)).map (·.blockMeta)) := by
        rwa [builtBundles, buildBlockBundles_metas]
      exact along_map_blockAction hmetas hbuilt
    rw [hfetched.streamStep_eq]
    rcases processBatch_linked args e db hinv.fromHeight_le hinv.cursor hfetched.nonempty hlinked with
      heq | ⟨sent, ⟨rest, hrest⟩, -, heq⟩
    · rw [heq]
      refine ⟨halong, fun s' hnext => ?_⟩
      obtain rfl := Flow.next.inj hnext
      exact remembers_stateAfter hupTo h0' hfetched.le_ready args e _
    · rw [heq]
      rw [← hrest, List.map_append, along_append] at halong
      exact ⟨halong.1, fun s' hnext => by cases hnext⟩
  · exact ⟨hquiet.along _, fun s' hnext => (hkeep s' hnext).symm ▸ hremembers⟩

theorem StreamInv.foldl_eq (hinv : StreamInv fromHeight none processed s) {e : Iteration} {s' : StreamState}
    (hnext : (streamStep args s e).2 = .next s') :
    (streamStep args s e).1.foldl StreamAction.heightAfter s.currentHeight = s'.currentHeight := by
  rw [foldl_heightAfter, hinv.height, (hinv.next hnext).height, List.length_append]
  push_cast
  ring

variable (args s) in
theorem streamStep_error {e : Iteration} {failure : AppError} (h : e.snapshot = .error failure) :
    ∃ reason, streamStep args s e = ([], .halt reason) := by
  unfold streamStep
  rw [h]
  split_ifs
  · exact ⟨_, rfl⟩
  · exact ⟨_, rfl⟩

/-- **Run.** A run over snapshots of a growing chain accounts for one block after the other. -/
theorem along_visits {iterations : List Iteration}
    (hgrowing : Growing db (iterations.flatMap fun e => e.encounter.snapshots)) (h0 : 0 ≤ fromHeight)
    (hinv : StreamInv fromHeight none processed s) (hremembers : Remembers db s)
    (hlater : Evolves (lastSnapshot db (iterations.flatMap fun e => e.encounter.snapshots)) db') :
    Along (Faithful db' args) StreamAction.heightAfter s.currentHeight
      (outputs (visits (streamStep args) s iterations)) := by
  induction iterations generalizing db processed s with
  | nil => trivial
  | cons e iterations ih =>
    rw [List.flatMap_cons, Encounter.snapshots] at hgrowing hlater
    cases hsnapshot : e.snapshot with
    | error failure =>
      obtain ⟨reason, hhalt⟩ := streamStep_error args s hsnapshot
      have hflow : (streamStep args s e).2 = .halt reason := by rw [hhalt]
      rw [visits_cons_halt iterations hflow, outputs_cons, outputs_nil, List.append_nil, visit_output, hhalt]
      trivial
    | ok db₁ =>
      have hencounter : e.encounter.snapshot = .ok db₁ := hsnapshot
      rw [hencounter] at hgrowing hlater
      obtain ⟨hgrown, hgrowing⟩ := hgrowing
      obtain ⟨hactions, hnext⟩ := streamStep_faithful args hgrown.chain hgrown.blocks h0 hinv
        (hremembers.evolve hgrown.evolves) hsnapshot
      have hactions' := hactions.imp fun height action => Faithful.evolve ((Growing.evolves hgrowing).trans hlater)
      cases hflow : (streamStep args s e).2 with
      | halt reason =>
        rwa [visits_cons_halt iterations hflow, outputs_cons, outputs_nil, List.append_nil, visit_output]
      | next s' =>
        rw [visits_cons_next iterations hflow, outputs_cons, visit_output, along_append, hinv.foldl_eq hflow]
        exact ⟨hactions', ih hgrowing (hinv.next hflow) (hnext s' hflow) hlater⟩

end Runs

/-! ## What a client has -/

/-- The client has the feed up to a height: what is left between where it goes on and that height is settled and has no
items. -/
structure Follower.UpTo (db : Database) (args : AssemblyArgs) (height : Int) (p : Follower) : Prop where
  inv : p.Inv db args
  fromHeight_le : p.fromHeight ≤ height
  rest : ∀ height', p.fromHeight ≤ height' → height' < height →
    blockItems db args height' = [] ∧ Settled db args.upstreamSessionId height'

section UpTo
variable {db db' : Database} {args : AssemblyArgs} {height : Int} {p : Follower}

theorem Follower.Inv.upTo (h : p.Inv db args) : p.UpTo db args p.fromHeight where
  inv := h
  fromHeight_le := le_rfl
  rest _ hlo hhi := absurd hhi (not_lt.mpr hlo)

theorem Follower.UpTo.items_eq (h : p.UpTo db args height) : p.items = feedItems db args 0 height := by
  have hempty : feedItems db args p.fromHeight height = [] := by
    refine List.flatMap_eq_nil_iff.mpr fun height' hmem => ?_
    obtain ⟨hlo, hhi⟩ := Int.mem_range_iff.mp hmem
    exact (h.rest height' hlo hhi).1
  rw [h.inv.items, ← feedItems_append db args h.inv.nonneg h.fromHeight_le, hempty, List.append_nil]

theorem Follower.UpTo.settled (h : p.UpTo db args height) {height' : Int} (hlo : 0 ≤ height') (hhi : height' < height) :
    Settled db args.upstreamSessionId height' := by
  by_cases hbelow : height' < p.fromHeight
  · exact h.inv.settled height' hlo hbelow
  · exact (h.rest height' (not_lt.mp hbelow) hhi).2

theorem Follower.UpTo.take_block (h : p.UpTo db args height) {bundle : BlockBundle}
    (hblock : Faithful db args height (.sent (.block bundle))) :
    (p.take (.block bundle)).UpTo db args (height + 1) := by
  obtain ⟨hheight, hitems, hsettled⟩ := hblock
  have h0 : 0 ≤ height := h.inv.nonneg.trans h.fromHeight_le
  have hnext : (p.take (.block bundle)).fromHeight = height + 1 := congrArg (· + 1) hheight
  have hinv : (p.take (.block bundle)).Inv db args := by
    refine ⟨by omega, ?_, fun height' hlo hhi => ?_⟩
    · show p.items ++ withoutUpdates bundle.items = _
      rw [hnext, h.items_eq, hitems, feedItems, feedItems, IntRange.range_snoc h0, List.flatMap_append]
      simp
    · rw [hnext] at hhi
      rcases eq_or_lt_of_le (Int.lt_add_one_iff.mp hhi) with rfl | hbelow
      · exact hsettled
      · exact h.settled hlo hbelow
  have hupTo := hinv.upTo
  rwa [hnext] at hupTo

theorem Follower.UpTo.skip (h : p.UpTo db args height) {blockMeta : BlockMeta}
    (hblock : Faithful db args height (.skipped blockMeta)) : p.UpTo db args (height + 1) where
  inv := h.inv
  fromHeight_le := h.fromHeight_le.trans (by omega)
  rest height' hlo hhi := by
    rcases eq_or_lt_of_le (Int.lt_add_one_iff.mp hhi) with rfl | hbelow
    · exact hblock
    · exact h.rest height' hlo hbelow

/-- The events of some actions take the client on, and none is a reset. -/
theorem Follower.UpTo.foldl_take {actions : List StreamAction} (h : p.UpTo db args height)
    (hactions : Along (Faithful db args) StreamAction.heightAfter height actions) :
    ((sentEvents actions).foldl Follower.take p).UpTo db args (actions.foldl StreamAction.heightAfter height) ∧
      NoReset (sentEvents actions) := by
  induction actions generalizing p height with
  | nil => exact ⟨h, fun control hmem => nomatch hmem⟩
  | cons action actions ih =>
    obtain ⟨haction, hrest⟩ := hactions
    cases action with
    | skipped blockMeta => exact ih (h.skip haction) hrest
    | sent event =>
      cases event with
      | block bundle =>
        obtain ⟨hupTo, hreset⟩ := ih (h.take_block haction) hrest
        exact ⟨hupTo, NoReset.append (a := [.block bundle]) (fun control hmem => by simp at hmem) hreset⟩
      | heartbeat watermarks currentHeight =>
        obtain ⟨hupTo, hreset⟩ := ih h hrest
        exact ⟨hupTo, NoReset.append (a := [.heartbeat watermarks currentHeight]) (fun control hmem => by simp at hmem)
          hreset⟩
      | control event => exact haction.elim

theorem exists_isPrefix_sentEvents {actions : List StreamAction} {events : List SseEvent}
    (h : events <+: sentEvents actions) : ∃ done, done <+: actions ∧ sentEvents done = events := by
  induction actions generalizing events with
  | nil => exact ⟨[], List.nil_prefix, (List.prefix_nil.mp h).symm⟩
  | cons action actions ih =>
    cases action with
    | skipped blockMeta =>
      obtain ⟨done, hdone, rfl⟩ := ih h
      exact ⟨.skipped blockMeta :: done, List.cons_prefix_cons.mpr ⟨rfl, hdone⟩, rfl⟩
    | sent event =>
      rcases List.prefix_cons_iff.mp h with rfl | ⟨events', rfl, hrest⟩
      · exact ⟨[], List.nil_prefix, rfl⟩
      · obtain ⟨done, hdone, rfl⟩ := ih hrest
        exact ⟨.sent event :: done, List.cons_prefix_cons.mpr ⟨rfl, hdone⟩, rfl⟩

/-- Events that break off leave the client with the feed up to where it goes on. -/
theorem Follower.Inv.foldl_take {actions : List StreamAction} (h : p.Inv db args)
    (hactions : Along (Faithful db args) StreamAction.heightAfter p.fromHeight actions) {events : List SseEvent}
    (hevents : events <+: sentEvents actions) : (events.foldl Follower.take p).Inv db args ∧ NoReset events := by
  obtain ⟨done, ⟨rest, rfl⟩, rfl⟩ := exists_isPrefix_sentEvents hevents
  obtain ⟨hupTo, hreset⟩ := h.upTo.foldl_take (along_append.mp hactions).1
  exact ⟨hupTo.inv, hreset⟩

end UpTo

/-! ## Requests -/

/-- The arguments that the polls and the subscriptions of a session resolve. -/
structure Following (db : Database) (query : FeedQuery) (subscribeQuery : SubscribeQuery) (args : AssemblyArgs) :
    Prop where
  polls : ∃ localSessionId, parseSessionId query.sessionId = .ok localSessionId ∧
    resolveArgs db query localSessionId = .ok args
  subscribes : SubscribeArgs db subscribeQuery args

section Arguments
variable {db db' : Database} {query : FeedQuery} {subscribeQuery : SubscribeQuery} {args : AssemblyArgs}

theorem Extends.subscribeArgs {sessionId : Bytes} {isNew : Int → Prop}
    {spendUtxo : UnshieldedUtxoRow → UnshieldedUtxoRow} (h : Extends db db' sessionId isNew spendUtxo)
    (hargs : SubscribeArgs db subscribeQuery args) : SubscribeArgs db' subscribeQuery args := by
  obtain ⟨rows, hrows, -⟩ := h.transactionIdentifiers
  have hsource : detectIdentifiersSource db' = detectIdentifiersSource db := by
    simp [detectIdentifiersSource, h.hasIdentifiersColumn, hrows]
  have hupstream : getUpstreamSessionId db' args.localSessionId = getUpstreamSessionId db args.localSessionId := by
    simp only [getUpstreamSessionId, h.sessionProfile]
  have hnullifiers : getSessionNullifierStreaming db' subscribeQuery.sessionId =
      getSessionNullifierStreaming db subscribeQuery.sessionId := by
    simp only [getSessionNullifierStreaming, h.sessionProfile]
  refine { hargs with upstreamSession := ?_, nullifiers := ?_, identifiersSource := ?_ }
  · rw [hupstream, hargs.upstreamSession]
  · rw [hnullifiers, hargs.nullifiers]
  · rw [hsource, hargs.identifiersSource]

theorem Following.evolve (h : Following db query subscribeQuery args) (hevolves : Evolves db db') :
    Following db' query subscribeQuery args where
  polls := by
    obtain ⟨localSessionId, hsession, hargs⟩ := h.polls
    exact ⟨localSessionId, hsession, (hevolves.resolveArgs_eq query localSessionId).trans hargs⟩
  subscribes := by
    induction hevolves with
    | refl => exact h.subscribes
    | tail _ hstep ih =>
      obtain ⟨_, _, hext⟩ := hstep.extends_db []
      exact hext.subscribeArgs ih

theorem SubscribeArgs.subscribeFeed_eq (h : SubscribeArgs db subscribeQuery args) {fromHeight : Int}
    (h0 : 0 ≤ fromHeight) :
    subscribeFeed db (subscribeQuery.startingAt fromHeight) = .ok ⟨args, .initial fromHeight none⟩ := by
  have hstart : startHeight none (subscribeQuery.startingAt fromHeight).fromHeight = fromHeight := max_eq_left h0
  refine subscribeFeed_eq_ok.mpr ⟨⟨h.localSession, h.upstreamSession, h.nullifiers, h.includeTxMeta, h.includeRawTx,
    h.includeIdentifiers, h.includeAllDust, h.identifiersSource⟩, none, rfl, ?_⟩
  exact congrArg (StreamState.initial · none) hstart.symm

end Arguments

section Requests
variable {limitBlocksMax : Nat} {db : Database} {query : FeedQuery} {subscribeQuery : SubscribeQuery}
  {args : AssemblyArgs} {p : Follower}

/-- **Step.** A connection leaves the client with the feed up to where it goes on, and sends no reset. -/
theorem Follower.Inv.connect (h : p.Inv db args) (hargs : Following db query subscribeQuery args) {c : FeedConnection}
    (hgrowing : Growing db c.snapshots) :
    (p.connect subscribeQuery c).Inv (lastSnapshot db c.snapshots) args ∧
      NoReset (c.received subscribeQuery p.fromHeight) := by
  have hevolves := hgrowing.evolves
  obtain ⟨hgrown, hgrowing⟩ := hgrowing
  have hbegin := (hargs.evolve hgrown.evolves).subscribes.subscribeFeed_eq h.nonneg
  have hreceived : c.received subscribeQuery p.fromHeight =
      (Delivery.run args (.initial p.fromHeight none) c.turns).channel.received.take c.events := by
    rw [FeedConnection.received, hbegin]
  obtain ⟨iterations, hsub, hsent, hfair, -⟩ := Delivery.exists_runEvents args (.initial p.fromHeight none) c.turns
  have hsnapshots : (iterations.flatMap fun e => e.encounter.snapshots).Sublist
      ((c.turns.flatMap DeliveryTurn.encounters).flatMap Encounter.snapshots) := by
    have := hsub.flatMap Encounter.snapshots
    rwa [List.flatMap_map] at this
  obtain ⟨hmet, hlater⟩ := Growing.sublist hgrowing hsnapshots
  have halong : Along (Faithful (lastSnapshot db c.snapshots) args) StreamAction.heightAfter p.fromHeight
      (outputs (runStream args (.initial p.fromHeight none) iterations)) :=
    along_visits hmet h.nonneg (streamInv_initial p.fromHeight none) (fun _ hmem => nomatch hmem) hlater
  have hevents : c.received subscribeQuery p.fromHeight <+:
      sentEvents (outputs (runStream args (.initial p.fromHeight none) iterations)) := by
    rw [hreceived]
    refine (List.take_prefix _ _).trans (hfair.received_prefix.trans ?_)
    rw [hsent]
    exact List.prefix_rfl
  exact (h.evolve hevolves).foldl_take halong hevents

/-- **Step.** A request keeps the invariant. -/
theorem Follower.Inv.request (h : p.Inv db args) (hargs : Following db query subscribeQuery args)
    {request : FeedRequest} (hgrowing : Growing db request.snapshots) :
    (p.request limitBlocksMax query subscribeQuery request).Inv (lastSnapshot db request.snapshots) args := by
  cases request with
  | poll poll =>
    obtain ⟨hgrown, -⟩ := hgrowing
    obtain ⟨localSessionId, hsession, hargs⟩ := (hargs.evolve hgrown.evolves).polls
    exact (h.evolve hgrown.evolves).poll hsession hargs rfl hgrown.chain hgrown.blocks
  | connect c => exact (h.connect hargs hgrowing).1

/-- **Run.** So do any requests. -/
theorem Follower.Inv.requests (h : p.Inv db args) (hargs : Following db query subscribeQuery args)
    {requests : List FeedRequest} (hgrowing : Growing db (requests.flatMap FeedRequest.snapshots)) :
    (requests.foldl (Follower.request limitBlocksMax query subscribeQuery) p).Inv
      (lastSnapshot db (requests.flatMap FeedRequest.snapshots)) args := by
  induction requests generalizing db p with
  | nil => exact h
  | cons request requests ih =>
    rw [List.flatMap_cons, Growing, along_append] at hgrowing
    rw [List.flatMap_cons, lastSnapshot, List.foldl_append]
    exact ih (h.request hargs hgrowing.1) (hargs.evolve (Growing.evolves hgrowing.1)) hgrowing.2

end Requests

/-- **Following a chain that grows.** Whatever snapshots the requests of a session meet while the chain grows, polls or
connections, with whatever limits, however the turns of each connection fall, and wherever its response breaks off: the
client has the items of the blocks up to where it goes on, each once and in order, as any later snapshot has them. And
no connection sends it a reset. -/
theorem follower_items (limitBlocksMax : Nat) {db : Database} {query : FeedQuery} {subscribeQuery : SubscribeQuery}
    {args : AssemblyArgs} (hargs : Following db query subscribeQuery args) (requests : List FeedRequest)
    (hgrowing : Growing db (requests.flatMap FeedRequest.snapshots)) :
    let p := Follower.run limitBlocksMax query subscribeQuery requests
    let db' := lastSnapshot db (requests.flatMap FeedRequest.snapshots)
    0 ≤ p.fromHeight ∧
    (∀ db'', Evolves db' db'' → p.items = feedItems db'' args 0 p.fromHeight) ∧
    ∀ c : FeedConnection, Growing db' c.snapshots → NoReset (c.received subscribeQuery p.fromHeight) := by
  intro p db'
  have h : p.Inv db' args := (Follower.inv_initial db args).requests hargs hgrowing
  exact ⟨h.nonneg, fun db'' hevolves => (h.evolve hevolves).items,
    fun c hc => (h.connect (hargs.evolve hgrowing.evolves) hc).2⟩

/-! ## Catching up -/

section CatchUp
variable {db : Database} {args : AssemblyArgs} {readyHeight fromHeight : Int} {processed : List BlockMeta}
  {s : StreamState} {w : Encounter}

/-- **Progress.** An iteration of a client that takes all events gets to the end of its batch. -/
theorem streamStep_patient (hready : WalletReady db args.upstreamSessionId readyHeight)
    (hchain : db.ChainUpTo readyHeight) (hw : w.snapshot = .ok db) (h0 : 0 ≤ fromHeight)
    (hinv : StreamInv fromHeight none processed s) (hremembers : Remembers db s) (hle : s.currentHeight ≤ readyHeight) :
    ∃ s', (streamStep args s w.patient).2 = .next s' ∧ s'.currentHeight = batchEnd s readyHeight + 1 := by
  have h0' : 0 ≤ s.currentHeight := h0.trans hinv.fromHeight_le
  obtain ⟨hlength, -⟩ := length_fetchBatch hchain h0' hle
  have hend := le_batchEnd hle
  have hne : fetchBatch db s readyHeight ≠ [] := by
    intro hnil
    rw [hnil, List.length_nil] at hlength
    omega
  have hfetched : Fetched args s w.patient db readyHeight (fetchBatch db s readyHeight) :=
    ⟨rfl, hw, hready, hle, rfl, hne⟩
  rcases processBatch_linked args w.patient db hinv.fromHeight_le hinv.cursor hne
    (linked_fetchBatch hchain h0' hle hremembers) with heq | ⟨_, _, hfew, _⟩
  · rw [hfetched.streamStep_eq, heq]
    exact ⟨_, rfl, hlength⟩
  · have hpatience : w.patient.sends = db.blocks.length + 1 := by
      show w.patience = _
      rw [Encounter.patience, hw]
    have := length_fetchBatch_le db s readyHeight
    omega

theorem streamStep_above {e : Iteration} (hready : WalletReady db args.upstreamSessionId readyHeight)
    (hsnapshot : e.snapshot = .ok db) (hgt : readyHeight < s.currentHeight) :
    Quiet (streamStep args s e).1 ∧ ∀ s', (streamStep args s e).2 = .next s' → s' = s := by
  rcases streamStep_cases args s e with ⟨_, readyHeight', _, hfetched⟩ | hquiet
  · obtain rfl := Except.ok.inj (hsnapshot.symm.trans hfetched.snapshot)
    have heq := Option.some.inj (Except.ok.inj (hready.symm.trans hfetched.ready))
    have := hfetched.le_ready
    omega
  · exact hquiet

theorem foldl_visits_patient (hready : WalletReady db args.upstreamSessionId readyHeight) (hchain : db.IsChain)
    (hblocks : db.blocks ≠ []) (h0 : 0 ≤ fromHeight) {ws : List Encounter} (hws : ∀ w ∈ ws, w.snapshot = .ok db)
    (hinv : StreamInv fromHeight none processed s) (hremembers : Remembers db s)
    (hmany : readyHeight + 1 - s.currentHeight ≤ ws.length) :
    (outputs (visits (streamStep args) s (ws.map Encounter.patient))).foldl StreamAction.heightAfter s.currentHeight =
      max s.currentHeight (readyHeight + 1) := by
  induction ws generalizing s processed with
  | nil =>
    rw [List.length_nil] at hmany
    show s.currentHeight = _
    exact (max_eq_left (by omega)).symm
  | cons w ws ih =>
    have hw : w.patient.snapshot = .ok db := hws w List.mem_cons_self
    have hws' := fun w' hmem => hws w' (List.mem_cons_of_mem w hmem)
    have hremembers' := (streamStep_faithful args hchain hblocks h0 hinv hremembers hw).2
    rw [List.length_cons] at hmany
    rw [List.map_cons]
    by_cases hle : s.currentHeight ≤ readyHeight
    · obtain ⟨s', hnext, hheight⟩ :=
        streamStep_patient hready (hchain.chainUpTo hblocks hready.le_getChainHead) hw h0 hinv hremembers hle
      have hend := le_batchEnd hle
      have hend' : batchEnd s readyHeight ≤ readyHeight := min_le_right _ _
      rw [visits_cons_next _ hnext, outputs_cons, visit_output, List.foldl_append, hinv.foldl_eq hnext,
        ih hws' (hinv.next hnext) (hremembers' s' hnext) (by omega)]
      omega
    · obtain ⟨hquiet, hkeep⟩ := streamStep_above hready hw (not_le.mp hle)
      cases hflow : (streamStep args s w.patient).2 with
      | next s' =>
        rw [visits_cons_next _ hflow, outputs_cons, visit_output, List.foldl_append, hinv.foldl_eq hflow]
        obtain rfl := hkeep s' hflow
        exact ih hws' (hinv.next hflow) hremembers (by omega)
      | halt reason =>
        rw [visits_cons_halt _ hflow, outputs_cons, outputs_nil, List.append_nil, visit_output, foldl_heightAfter,
          hquiet.processedBlocks]
        exact (add_zero _).trans (max_eq_left (by omega)).symm

theorem growing_of_forall_eq (hchain : db.IsChain) (hblocks : db.blocks ≠ []) {snapshots : List Database}
    (h : ∀ db' ∈ snapshots, db' = db) : Growing db snapshots ∧ lastSnapshot db snapshots = db := by
  induction snapshots with
  | nil => exact ⟨trivial, rfl⟩
  | cons db' snapshots ih =>
    obtain rfl := h db' List.mem_cons_self
    obtain ⟨hgrowing, hlast⟩ := ih fun db'' hmem => h db'' (List.mem_cons_of_mem _ hmem)
    exact ⟨⟨⟨.refl, hchain, hblocks⟩, hgrowing⟩, hlast⟩

/-- A client that takes all events of enough iterations has the feed up to the ready height. -/
theorem Follower.Inv.catchesUp {subscribeQuery : SubscribeQuery} {p : Follower} (h : p.Inv db args)
    (hargs : SubscribeArgs db subscribeQuery args) (hchain : db.IsChain) (hblocks : db.blocks ≠ [])
    (hready : WalletReady db args.upstreamSessionId readyHeight) {ws : List Encounter}
    (hws : ∀ w ∈ ws, w.snapshot = .ok db) (hmany : readyHeight + 1 - p.fromHeight ≤ ws.length) :
    ∃ c : FeedConnection, c.db = db ∧ c.turns.flatMap DeliveryTurn.encounters = ws ∧
      (p.connect subscribeQuery c).items = feedItems db args 0 (max p.fromHeight (readyHeight + 1)) := by
  have hfull : 0 < CHANNEL_BUFFER_SIZE := by decide
  obtain ⟨turns, hturns, hreceived⟩ :=
    upToDate_run args (Channel.upToDate_empty hfull) (.initial p.fromHeight none) ws
  rw [List.nil_append] at hreceived
  have hsnapshots : ∀ db' ∈ (ws.map Encounter.patient).flatMap (fun e => e.encounter.snapshots), db' = db := by
    intro db' hmem
    rw [List.flatMap_map] at hmem
    obtain ⟨w, hw, hdb⟩ := List.mem_flatMap.mp hmem
    have hdb : db' ∈ w.snapshots := hdb
    rw [Encounter.snapshots, hws w hw] at hdb
    exact List.mem_singleton.mp hdb
  obtain ⟨hgrowing, hlast⟩ := growing_of_forall_eq hchain hblocks hsnapshots
  have halong : Along (Faithful db args) StreamAction.heightAfter p.fromHeight
      (outputs (runStream args (.initial p.fromHeight none) (ws.map Encounter.patient))) :=
    along_visits hgrowing h.nonneg (streamInv_initial p.fromHeight none) (fun _ hmem => nomatch hmem)
      (hlast.symm ▸ .refl)
  have hfinish : List.foldl StreamAction.heightAfter p.fromHeight
      (outputs (runStream args (.initial p.fromHeight none) (ws.map Encounter.patient))) =
        max p.fromHeight (readyHeight + 1) :=
    foldl_visits_patient hready hchain hblocks h.nonneg hws (streamInv_initial p.fromHeight none)
      (fun _ hmem => nomatch hmem) hmany
  refine ⟨⟨db, turns, (runEvents args (.initial p.fromHeight none) (ws.map Encounter.patient)).length⟩, rfl, hturns, ?_⟩
  have hupTo := (h.upTo.foldl_take halong).1
  rw [hfinish] at hupTo
  rw [← hupTo.items_eq, Follower.connect, FeedConnection.received, hargs.subscribeFeed_eq h.nonneg]
  dsimp only
  rw [Delivery.run, Delivery.initial, hreceived, List.take_length, runEvents]

end CatchUp

/-- **A client can always get the rest.** After any requests over a growing chain, a poll that is answered takes the
client on by its limit, up to the ready height; and over any iterations of the loop, as many as there are heights left,
there are turns after which a connection has given it everything up to the ready height. -/
theorem follower_catchesUp (limitBlocksMax : Nat) {db : Database} {query : FeedQuery} {subscribeQuery : SubscribeQuery}
    {args : AssemblyArgs} (hargs : Following db query subscribeQuery args) (requests : List FeedRequest)
    (hgrowing : Growing db (requests.flatMap FeedRequest.snapshots)) {db' : Database}
    (hgrown : GrownFrom (lastSnapshot db (requests.flatMap FeedRequest.snapshots)) db') {readyHeight : Int}
    (hready : WalletReady db' args.upstreamSessionId readyHeight) :
    let p := Follower.run limitBlocksMax query subscribeQuery requests
    (∀ limitBlocks, (p.poll limitBlocksMax query ⟨db', limitBlocks, false⟩).fromHeight =
      max p.fromHeight (min (p.fromHeight + clampLimit limitBlocksMax limitBlocks) (readyHeight + 1))) ∧
    ∀ ws : List Encounter, (∀ w ∈ ws, w.snapshot = .ok db') → readyHeight + 1 - p.fromHeight ≤ ws.length →
      ∃ c : FeedConnection, c.db = db' ∧ c.turns.flatMap DeliveryTurn.encounters = ws ∧
        (p.connect subscribeQuery c).items = feedItems db' args 0 (max p.fromHeight (readyHeight + 1)) := by
  intro p
  have h : p.Inv db' args := ((Follower.inv_initial db args).requests hargs hgrowing).evolve hgrown.evolves
  have hargs' := hargs.evolve (hgrowing.evolves.trans hgrown.evolves)
  refine ⟨fun limitBlocks => ?_, fun ws hws hmany => ?_⟩
  · obtain ⟨localSessionId, hsession, hresolved⟩ := hargs'.polls
    exact h.poll_fromHeight hsession hresolved rfl hgrown.chain hgrown.blocks rfl hready
  · exact h.catchesUp hargs'.subscribes hgrown.chain hgrown.blocks hready hws hmany

namespace Sample

/-- What the loop meets over a chain, without merkle sources. -/
def encounter (db : Database) : Encounter := (iteration db).encounter

/-- A connection to a chain of one block, and then polls of the chain of two; the first answer is lost. -/
def growingRequests : List FeedRequest :=
  [.connect ⟨shortChain, [.iterate (encounter shortChain), .send, .receive], 1⟩, .poll ⟨longChain, none, true⟩,
    .poll ⟨longChain, none, false⟩]

theorem following : Following shortChain query subscribeQuery args where
  polls := ⟨sessionId, parseSessionId_hexEncode (by decide), rfl⟩
  subscribes := ⟨parseSessionId_hexEncode (by decide), rfl, rfl, rfl, rfl, rfl, rfl, rfl⟩

theorem growing_growingRequests : Growing shortChain (growingRequests.flatMap FeedRequest.snapshots) :=
  ⟨⟨.refl, by decide, by decide⟩, ⟨.refl, by decide, by decide⟩, ⟨evolves_longChain, by decide, by decide⟩,
    ⟨.refl, by decide, by decide⟩, trivial⟩

end Sample

theorem follower_items_growingRequests :
    let p := Follower.run 100 Sample.query Sample.subscribeQuery Sample.growingRequests
    (p.fromHeight = 2 ∧ p.items.map (·.sequence) = ["0:1:2:1"]) ∧
      ∀ db', Evolves Sample.longChain db' → p.items = feedItems db' Sample.args 0 p.fromHeight := by
  intro p
  have h := follower_items 100 Sample.following Sample.growingRequests Sample.growing_growingRequests
  exact ⟨⟨by decide +kernel, by decide +kernel⟩, h.2.1⟩

theorem follower_catchesUp_longChain :
    ∃ c : FeedConnection, c.db = Sample.longChain ∧
      c.turns.flatMap DeliveryTurn.encounters = [Sample.encounter Sample.longChain, Sample.encounter Sample.longChain] ∧
        (Follower.initial.connect Sample.subscribeQuery c).items = feedItems Sample.longChain Sample.args 0 2 := by
  have h := follower_catchesUp 100 Sample.following [] trivial ⟨Sample.evolves_longChain, by decide, by decide⟩
    (by decide : WalletReady Sample.longChain Sample.sessionId 1)
  refine h.2 _ (fun w hw => ?_) (by decide)
  have hw : w = Sample.encounter Sample.longChain := by simpa using hw
  rw [hw]
  rfl

end NocyWalletFeed
