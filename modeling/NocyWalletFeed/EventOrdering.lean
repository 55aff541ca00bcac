import Mathlib.Data.List.Dedup
import NocyWalletFeed.Ranges

/-!
# The order of ledger events (`validate_event_ordering`, `routes/subscribe.rs`)

While a stream assembles the bundle of a block, it looks for gaps in the ids of the ledger events of each transaction
and records those it finds. It looks at the events of the bundle, not at those that are stored.

* `validateEventOrdering` : the gaps in the items of a block; `buildBlockBundlesGaps` : those recorded for a batch;
* `validateEventOrdering_eq_nil_iff` : no gap is recorded when no id between two others is missing;
* `LetThrough` : the ledger events that get into a bundle; `mem_ledgerEvents_blockSortables`;
* `noFalseAlarms_iff` : events stored without gaps raise no alarm exactly where a bundle leaves none out between two
  others.
-/

namespace NocyWalletFeed
open Codec Relational OrderBy IntRange

/-! ## The check -/

def FeedItem.ledgerEvent : FeedItem → Option (Int × Int)
  | .zswapInputRaw event => some (event.txId, event.ledgerEventId)
  | .dustLedgerEvent event => some (event.txId, event.ledgerEventId)
  | _ => none

structure LedgerEventGap where
  blockHeight : Int
  txId : Int
  expectedEventId : Int
  actualEventId : Int
  gapSize : Int
  deriving DecidableEq, Repr

def gapsOfTransaction (blockHeight txId : Int) (eventIds : List Int) : List LedgerEventGap :=
  if eventIds.length < 2 then []
  else
    ((windows (sortBy id eventIds)).filter fun w => w.2 ≠ w.1 + 1).map fun w =>
      ⟨blockHeight, txId, w.1 + 1, w.2, w.2 - w.1 - 1⟩

def realEvents (events : List (Int × Int)) : List (Int × Int) := events.filter fun event => event.2 > 0

/-- The gaps in ledger events, transaction after transaction. -/
def gapsOfEvents (events : List (Int × Int)) (blockHeight : Int) : List LedgerEventGap :=
  ((realEvents events).map Prod.fst).dedup.flatMap fun txId =>
    gapsOfTransaction blockHeight txId (groupBy (realEvents events) txId)

/-- Validate event ordering within a block and detect gaps in the sequences of ledger event ids. -/
def validateEventOrdering (items : List SortableFeedItem) (blockHeight : Int) : List LedgerEventGap :=
  gapsOfEvents (items.filterMap (·.item.ledgerEvent)) blockHeight

/-- The items of a bundle before their keys become cursors. -/
def bundleSortables (w : WindowRows) (merkle : MerkleBehaviour) (position : MerklePosition) (blockMeta : BlockMeta) :
    List SortableFeedItem :=
  w.assembleItems blockMeta.height
    (streamShieldedItems w blockMeta.height merkle position (w.relevantAt blockMeta.height)).1

theorem items_streamBundle (w : WindowRows) (merkle : MerkleBehaviour) (position : MerklePosition)
    (blockMeta : BlockMeta) : (streamBundle w merkle position blockMeta).1.items =
      (bundleSortables w merkle position blockMeta).map SortableFeedItem.toOrdered := rfl

/-- The gaps recorded while the bundles of a batch are built. -/
def streamGaps (w : WindowRows) (merkle : MerkleBehaviour) : MerklePosition → List BlockMeta → List LedgerEventGap
  | _, [] => []
  | position, blockMeta :: blocksMeta =>
    validateEventOrdering (bundleSortables w merkle position blockMeta) blockMeta.height ++
      streamGaps w merkle (streamBundle w merkle position blockMeta).2 blocksMeta

def buildBlockBundlesGaps (db : Database) (args : AssemblyArgs) (merkle : MerkleBehaviour) (blocksMeta : List BlockMeta)
    (lastMerkleEndIndex : Int) : List LedgerEventGap :=
  match blocksMeta.head?, blocksMeta.getLast? with
  | some first, some last =>
    streamGaps (fetchWindow db args first.height last.height) merkle ⟨lastMerkleEndIndex, 0⟩ blocksMeta
  | _, _ => []

/-! ## Gaps in a set of ids -/

theorem gapsOfTransaction_eq_nil_iff (blockHeight txId : Int) {eventIds : List Int} (h : eventIds.Nodup) :
    gapsOfTransaction blockHeight txId eventIds = [] ↔
      ∀ a ∈ eventIds, ∀ b ∈ eventIds, ∀ n, a < n → n < b → n ∈ eventIds := by
  have hsorted : (sortBy id eventIds).Pairwise (· < ·) := pairwise_lt_sortBy id (by rwa [List.map_id])
  have hwindows := forall_windows_iff hsorted
  simp only [mem_sortBy] at hwindows
  rw [← hwindows]
  unfold gapsOfTransaction
  split_ifs with hshort
  · rw [windows_of_length_lt (by rwa [length_sortBy])]
    exact iff_of_true rfl fun w hw => by cases hw
  · rw [List.map_eq_nil_iff, List.filter_eq_nil_iff]
    simp

/-- **No gap is recorded exactly when no id between two others of its transaction is missing.** -/
theorem gapsOfEvents_eq_nil_iff {events : List (Int × Int)} (h : (events.map Prod.snd).Nodup) (blockHeight : Int) :
    gapsOfEvents events blockHeight = [] ↔ ∀ txId a b n, (txId, a) ∈ events → (txId, b) ∈ events → 0 < a → a < n →
      n < b → (txId, n) ∈ events := by
  have hmem : ∀ txId n, n ∈ groupBy (realEvents events) txId ↔ (txId, n) ∈ events ∧ 0 < n := by
    intro txId n
    rw [groupBy_eq, List.mem_map]
    constructor
    · rintro ⟨⟨txId', n'⟩, hgroup, rfl⟩
      obtain ⟨hreal, hid⟩ := List.mem_filter.mp hgroup
      obtain ⟨hevent, hpos⟩ := List.mem_filter.mp hreal
      obtain rfl : txId' = txId := of_decide_eq_true hid
      exact ⟨hevent, of_decide_eq_true hpos⟩
    · rintro ⟨hevent, hpos⟩
      have hreal : (txId, n) ∈ realEvents events := List.mem_filter.mpr ⟨hevent, decide_eq_true hpos⟩
      exact ⟨(txId, n), List.mem_filter.mpr ⟨hreal, decide_eq_true rfl⟩, rfl⟩
  have hnodup : ∀ txId, (groupBy (realEvents events) txId).Nodup := by
    intro txId
    rw [groupBy_eq]
    exact h.sublist ((List.filter_sublist.trans List.filter_sublist).map Prod.snd)
  unfold gapsOfEvents
  rw [List.flatMap_eq_nil_iff]
  simp only [List.mem_dedup, gapsOfTransaction_eq_nil_iff _ _ (hnodup _), hmem]
  constructor
  · intro hgaps txId a b n ha hb hpos hlo hhi
    have htx : txId ∈ (realEvents events).map Prod.fst :=
      List.mem_map.mpr ⟨(txId, a), List.mem_filter.mpr ⟨ha, decide_eq_true hpos⟩, rfl⟩
    exact (hgaps txId htx a ⟨ha, hpos⟩ b ⟨hb, by omega⟩ n hlo hhi).1
  · rintro hevents txId - a ⟨ha, hpos⟩ b ⟨hb, -⟩ n hlo hhi
    exact ⟨hevents txId a b n ha hb hpos hlo hhi, by omega⟩

/-! ## The events of a block -/

/-- A ledger event that gets into a bundle: a zswap input while nullifiers are streamed, or a dust event that the dust
query selects. -/
def LetThrough (db : Database) (args : AssemblyArgs) (le : LedgerEventRow) : Prop :=
  (args.nullifierMode = .enabled ∧ le.grouping = .zswap ∧ le.variant = .zswapInput) ∨
    (le.grouping = .dust ∧ (args.includeAllDust = true ∨
      ∃ key ∈ dustPublicKey db args.localSessionId, key <:+: le.raw ∨ le.variant = .dustSpendProcessed))

section Events
variable {db : Database} {args : AssemblyArgs} {height : Int}

theorem mem_ledgerEventPairs (select : LedgerEventRow → Bool) (txId n : Int) :
    (∃ row ∈ ledgerEventsInRange db select height height, row.2.1.id = txId ∧ row.1.id = n) ↔
      ∃ le ∈ db.ledgerEvents, select le = true ∧ le.transactionId = txId ∧ le.id = n ∧ InBlock db txId height := by
  constructor
  · rintro ⟨row, hrow, rfl, rfl⟩
    obtain ⟨hle, hselect, htb, hid⟩ := mem_ledgerEventsInRange.mp hrow
    exact ⟨row.1, hle, hselect, hid, rfl, row.2, htb, rfl⟩
  · rintro ⟨le, hle, hselect, rfl, rfl, tb, htb, hid⟩
    exact ⟨(le, tb), mem_ledgerEventsInRange.mpr ⟨hle, hselect, htb, hid.symm⟩, hid, rfl⟩

theorem mem_zswapEvents {txId n : Int} : (txId, n) ∈ (getAllZswapInputEventsInRange db height height).map
    (fun event => (event.txId, event.ledgerEventId)) ↔ ∃ le ∈ db.ledgerEvents,
      (le.grouping = .zswap ∧ le.variant = .zswapInput) ∧ le.transactionId = txId ∧ le.id = n ∧
        InBlock db txId height := by
  rw [getAllZswapInputEventsInRange, List.map_map, List.mem_map]
  simp only [Function.comp_apply, Prod.mk.injEq]
  rw [mem_ledgerEventPairs]
  simp only [decide_eq_true_eq]

theorem mem_dustEventsWhere_pairs {select : LedgerEventRow → Bool} {txId n : Int} :
    (txId, n) ∈ (dustEventsWhere db select height height).map (fun event => (event.txId, event.ledgerEventId)) ↔
      ∃ le ∈ db.ledgerEvents, (le.grouping = .dust ∧ select le = true) ∧ le.transactionId = txId ∧ le.id = n ∧
        InBlock db txId height := by
  rw [dustEventsWhere, List.map_map, List.mem_map]
  simp only [Function.comp_apply, Prod.mk.injEq]
  rw [mem_ledgerEventPairs]
  simp only [decide_eq_true_eq]

theorem mem_dustEvents {txId n : Int} : (txId, n) ∈ (fetchDustEvents db args height height).map
    (fun event => (event.txId, event.ledgerEventId)) ↔ ∃ le ∈ db.ledgerEvents,
      (le.grouping = .dust ∧ (args.includeAllDust = true ∨
        ∃ key ∈ dustPublicKey db args.localSessionId, key <:+: le.raw ∨ le.variant = .dustSpendProcessed)) ∧
        le.transactionId = txId ∧ le.id = n ∧ InBlock db txId height := by
  unfold fetchDustEvents getAllDustEvents getDustEvents
  by_cases hall : args.includeAllDust = true
  · rw [if_pos hall, mem_dustEventsWhere_pairs]
    simp [hall]
  · rw [if_neg hall]
    cases dustPublicKey db args.localSessionId with
    | none => simp [hall]
    | some key =>
      rw [mem_dustEventsWhere_pairs]
      simp [hall]

variable (db args height)

/-- The items of a block that carry a ledger event are its zswap inputs and its dust events. -/
theorem perm_ledgerEvents_blockSortables : ((blockSortables db args height).filterMap (·.item.ledgerEvent)).Perm
    ((if args.nullifierMode = .enabled then getAllZswapInputEventsInRange db height height else []).map
        (fun event => (event.txId, event.ledgerEventId)) ++
      (fetchDustEvents db args height height).map (fun event => (event.txId, event.ledgerEventId))) := by
  let w := fetchWindow db args height height
  have hmeta : (w.transactionMetaItems height).filterMap (·.item.ledgerEvent) = [] :=
    filterMap_map_eq_nil (fun _ => rfl) _
  have hshielded : ((w.relevantAt height).map (w.shieldedItem height)).filterMap (·.item.ledgerEvent) = [] :=
    filterMap_map_eq_nil (fun _ => rfl) _
  have hunshielded : (w.unshieldedItems height).filterMap (·.item.ledgerEvent) = [] :=
    filterMap_map_eq_nil (fun _ => rfl) _
  have hinputs : w.globalZswapInputs.filter (fun event => event.blockHeight = height) =
      if args.nullifierMode = .enabled then getAllZswapInputEventsInRange db height height else [] := by
    rw [globalZswapInputs_fetchWindow]
    split_ifs
    · exact filter_getAllZswapInputEventsInRange le_rfl le_rfl
    · rfl
  have hdusts : w.dustEvents.filter (fun event => event.blockHeight = height) = fetchDustEvents db args height height :=
    filter_fetchDustEvents args le_rfl le_rfl
  have hzswap : (w.zswapInputItems height).filterMap (·.item.ledgerEvent) =
      (if args.nullifierMode = .enabled then getAllZswapInputEventsInRange db height height else []).map
        (fun event => (event.txId, event.ledgerEventId)) := by
    rw [← hinputs]
    refine filterMap_map_eq_map (fun event => ?_) _
    rfl
  have hdust : (w.dustItems height).filterMap (·.item.ledgerEvent) =
      (fetchDustEvents db args height height).map (fun event => (event.txId, event.ledgerEventId)) := by
    rw [← hdusts]
    refine filterMap_map_eq_map (fun event => ?_) _
    rfl
  refine (WindowRows.perm_filterMap_assembleItems _ _).trans (List.Perm.of_eq ?_)
  rw [hmeta, hshielded, hzswap, hdust, hunshielded, List.append_nil]
  rfl

/-- **The ledger events of a block are those that are let through.** -/
theorem mem_ledgerEvents_blockSortables {txId n : Int} :
    (txId, n) ∈ (blockSortables db args height).filterMap (·.item.ledgerEvent) ↔
      ∃ le ∈ db.ledgerEvents, LetThrough db args le ∧ le.transactionId = txId ∧ le.id = n ∧ InBlock db txId height := by
  rw [(perm_ledgerEvents_blockSortables db args height).mem_iff, List.mem_append, mem_dustEvents]
  by_cases hmode : args.nullifierMode = .enabled
  · rw [if_pos hmode, mem_zswapEvents]
    constructor
    · rintro (⟨le, hle, hinput, hplace⟩ | ⟨le, hle, hdust, hplace⟩)
      · exact ⟨le, hle, Or.inl ⟨hmode, hinput⟩, hplace⟩
      · exact ⟨le, hle, Or.inr hdust, hplace⟩
    · rintro ⟨le, hle, ⟨-, hinput⟩ | hdust, hplace⟩
      · exact Or.inl ⟨le, hle, hinput, hplace⟩
      · exact Or.inr ⟨le, hle, hdust, hplace⟩
  · rw [if_neg hmode]
    constructor
    · rintro (hnil | ⟨le, hle, hdust, hplace⟩)
      · cases hnil
      · exact ⟨le, hle, Or.inr hdust, hplace⟩
    · rintro ⟨le, hle, ⟨henabled, -⟩ | hdust, hplace⟩
      · exact absurd henabled hmode
      · exact Or.inr ⟨le, hle, hdust, hplace⟩

theorem nodup_ledgerEvents_blockSortables :
    (((blockSortables db args height).filterMap (·.item.ledgerEvent)).map Prod.snd).Nodup := by
  rw [((perm_ledgerEvents_blockSortables db args height).map Prod.snd).nodup_iff, List.map_append, List.map_map,
    List.map_map, List.nodup_append]
  refine ⟨?_, nodup_dustEventIds args height height, ?_⟩
  · split_ifs
    · exact nodup_zswapEventIds height height
    · exact List.nodup_nil
  · -- a stored event is a zswap event or a dust event
    rintro n hzswap _ hdust rfl
    obtain ⟨event, hevent, hid⟩ := List.mem_map.mp hdust
    obtain ⟨le, hle, heq, hgroup⟩ := mem_fetchDustEvents hevent
    split_ifs at hzswap
    · obtain ⟨event', hevent', hid'⟩ := List.mem_map.mp hzswap
      obtain ⟨⟨le', hle', heq', hgroup'⟩, -⟩ := mem_getAllZswapInputEventsInRange hevent'
      have hids : le.id = le'.id := by rw [heq, heq']; exact hid.trans hid'.symm
      obtain rfl := eq_of_key_eq db.constraints.ledgerEventIds hle hle' hids
      rw [hgroup] at hgroup'
      cases hgroup'
    · cases hzswap

end Events

/-! ## The events of a bundle -/

theorem ledgerEvents_bundleSortables (w : WindowRows) (merkle : MerkleBehaviour) (position : MerklePosition)
    (blockMeta : BlockMeta) : (bundleSortables w merkle position blockMeta).filterMap (·.item.ledgerEvent) =
      (w.feedSortables blockMeta.height).filterMap (·.item.ledgerEvent) := by
  have hsortables : (bundleSortables w merkle position blockMeta).filter (fun s => !s.item.isUpdate) =
      w.feedSortables blockMeta.height := by
    rw [bundleSortables, filter_assembleItems_isUpdate, filter_streamShieldedItems]
    rfl
  rw [← hsortables, List.filterMap_filter]
  refine List.filterMap_congr fun s _ => ?_
  cases hitem : s.item <;> rfl

theorem streamGaps_eq (w : WindowRows) (merkle : MerkleBehaviour) (position : MerklePosition)
    (blocksMeta : List BlockMeta) : streamGaps w merkle position blocksMeta =
      blocksMeta.flatMap fun blockMeta =>
        validateEventOrdering (w.feedSortables blockMeta.height) blockMeta.height := by
  induction blocksMeta generalizing position with
  | nil => rfl
  | cons blockMeta blocksMeta ih =>
    rw [streamGaps, ih, List.flatMap_cons, validateEventOrdering, ledgerEvents_bundleSortables]
    rfl

theorem validateEventOrdering_fetchWindow (db : Database) (args : AssemblyArgs) {fromHeight toHeight height : Int}
    (hlo : fromHeight ≤ height) (hhi : height ≤ toHeight) :
    validateEventOrdering ((fetchWindow db args fromHeight toHeight).feedSortables height) height =
      validateEventOrdering (blockSortables db args height) height := by
  have hitems : ((fetchWindow db args fromHeight toHeight).feedSortables height).map SortableFeedItem.toOrdered =
      (blockSortables db args height).map SortableFeedItem.toOrdered := feedItems_fetchWindow db args hlo hhi
  have hevents := congrArg (List.filterMap fun o : OrderedFeedItem => o.item.ledgerEvent) hitems
  rw [List.filterMap_map, List.filterMap_map] at hevents
  exact congrArg (gapsOfEvents · height) hevents

/-- The gaps recorded for a range are those of its blocks. -/
theorem buildBlockBundlesGaps_eq (db : Database) (args : AssemblyArgs) (merkle : MerkleBehaviour)
    (fromHeight toHeight lastMerkleEndIndex : Int) :
    buildBlockBundlesGaps db args merkle (getBlocksInRange db fromHeight toHeight) lastMerkleEndIndex =
      (getBlocksInRange db fromHeight toHeight).flatMap fun blockMeta =>
        validateEventOrdering (blockSortables db args blockMeta.height) blockMeta.height := by
  have hsorted := pairwise_getBlocksInRange db fromHeight toHeight
  generalize getBlocksInRange db fromHeight toHeight = blocksMeta at hsorted
  unfold buildBlockBundlesGaps
  cases hfirst : blocksMeta.head? with
  | none =>
    obtain rfl := List.head?_eq_none_iff.mp hfirst
    rfl
  | some first =>
    cases hlast : blocksMeta.getLast? with
    | none =>
      obtain rfl := List.getLast?_eq_none_iff.mp hlast
      rfl
    | some last =>
      dsimp only
      rw [streamGaps_eq]
      refine List.flatMap_congr fun blockMeta hblock => ?_
      have hfirst' : (blocksMeta.map (·.height)).head? = some first.height := by rw [List.head?_map, hfirst]; rfl
      have hlast' : (blocksMeta.map (·.height)).getLast? = some last.height := by rw [List.getLast?_map, hlast]; rfl
      obtain ⟨hlo, hhi⟩ := bounds_of_pairwise hsorted hfirst' hlast' (List.mem_map_of_mem hblock)
      exact validateEventOrdering_fetchWindow db args hlo hhi

/-! ## Alarms -/

/-- The stored ids of the ledger events of each transaction are consecutive. -/
def ConsecutiveEvents (db : Database) : Prop :=
  ∀ a ∈ db.ledgerEvents, ∀ b ∈ db.ledgerEvents, a.transactionId = b.transactionId → ∀ n, a.id < n → n < b.id →
    ∃ c ∈ db.ledgerEvents, c.transactionId = a.transactionId ∧ c.id = n

/-- No ledger event of a block is left out of its bundle while an earlier and a later one of its transaction are not. -/
def LeavesNoneOut (db : Database) (args : AssemblyArgs) (height : Int) : Prop :=
  ∀ a ∈ db.ledgerEvents, ∀ b ∈ db.ledgerEvents, ∀ c ∈ db.ledgerEvents, a.transactionId = b.transactionId →
    b.transactionId = c.transactionId → InBlock db b.transactionId height → 0 < a.id → a.id < b.id → b.id < c.id →
    LetThrough db args a → LetThrough db args c → LetThrough db args b

theorem validateEventOrdering_eq_nil_iff {db : Database} (h : ConsecutiveEvents db) (args : AssemblyArgs)
    (height : Int) : validateEventOrdering (blockSortables db args height) height = [] ↔
      LeavesNoneOut db args height := by
  rw [validateEventOrdering, gapsOfEvents_eq_nil_iff (nodup_ledgerEvents_blockSortables db args height)]
  simp only [mem_ledgerEvents_blockSortables]
  constructor
  · rintro hgaps a ha b hb c hc hab hbc hblock hpos hlo hhi hthrough hthrough'
    obtain ⟨b', hb', hthrough'', -, hid, -⟩ := hgaps b.transactionId a.id c.id b.id
      ⟨a, ha, hthrough, hab, rfl, hblock⟩ ⟨c, hc, hthrough', hbc.symm, rfl, hblock⟩ hpos hlo hhi
    obtain rfl := eq_of_key_eq db.constraints.ledgerEventIds hb' hb hid
    exact hthrough''
  · rintro hnone txId _ _ n ⟨a, ha, hthrough, rfl, rfl, hblock⟩ ⟨c, hc, hthrough', htx, rfl, -⟩ hpos hlo hhi
    obtain ⟨b, hb, hab, rfl⟩ := h a ha c hc htx.symm n hlo hhi
    exact ⟨b, hb, hnone a ha b hb c hc hab.symm (hab.trans htx.symm) (hab ▸ hblock) hpos hlo hhi hthrough hthrough',
      hab, rfl, hblock⟩

/-- **Events stored without gaps raise no alarm exactly** where no bundle leaves out an event between two others. -/
theorem noFalseAlarms_iff {db : Database} (h : ConsecutiveEvents db) (args : AssemblyArgs) (merkle : MerkleBehaviour)
    (fromHeight toHeight lastMerkleEndIndex : Int) :
    buildBlockBundlesGaps db args merkle (getBlocksInRange db fromHeight toHeight) lastMerkleEndIndex = [] ↔
      ∀ height, fromHeight ≤ height → height ≤ toHeight → LeavesNoneOut db args height := by
  rw [buildBlockBundlesGaps_eq, List.flatMap_eq_nil_iff]
  simp only [validateEventOrdering_eq_nil_iff h]
  constructor
  · intro hblocks height hlo hhi a ha b hb c hc hab hbc hblock
    cases hmeta : db.metaAt height with
    | none => exact absurd hblock (not_inBlock_of_metaAt_none hmeta)
    | some blockMeta =>
      obtain rfl := Database.metaAt_height hmeta
      exact hblocks blockMeta (mem_getBlocksInRange.mpr ⟨hlo, hhi, hmeta⟩) a ha b hb c hc hab hbc hblock
  · intro hheights blockMeta hblock
    obtain ⟨hlo, hhi, -⟩ := mem_getBlocksInRange.mp hblock
    exact hheights blockMeta.height hlo hhi

namespace Sample

def threeEvents (second : LedgerEventVariant) : Tables :=
  { blocks := [block 0 1 0]
    transactions := [transaction 1 0]
    ledgerEvents := [⟨1, 1, .zswap, .zswapInput, []⟩, ⟨2, 1, .zswap, second, []⟩, ⟨3, 1, .zswap, .zswapInput, []⟩] }

def threeInputs : Database := ⟨threeEvents .zswapInput, by decide⟩

/-- A zswap output between two inputs. -/
def outputBetweenInputs : Database := ⟨threeEvents (.other "ZswapOutput"), by decide⟩

def streamedNullifiers : AssemblyArgs := { args with nullifierMode := .enabled }

theorem consecutive_threeEvents {second : LedgerEventVariant} {db : Database}
    (h : db.ledgerEvents = (threeEvents second).ledgerEvents) : ConsecutiveEvents db := by
  have hbounds : ∀ le ∈ (threeEvents second).ledgerEvents, 1 ≤ le.id ∧ le.id ≤ 3 ∧ le.transactionId = 1 := by
    simp [threeEvents]
  rintro a ha b hb - n hlo hhi
  rw [h] at ha hb ⊢
  obtain ⟨hfirst, -, htx⟩ := hbounds a ha
  obtain ⟨-, hlast, -⟩ := hbounds b hb
  obtain rfl : n = 2 := by omega
  exact ⟨⟨2, 1, .zswap, second, []⟩, by simp [threeEvents], htx.symm, rfl⟩

end Sample

/-- Three inputs in a row raise no alarm. -/
theorem noFalseAlarms_threeInputs : buildBlockBundlesGaps Sample.threeInputs Sample.streamedNullifiers
    Sample.answeredIteration.merkle (getBlocksInRange Sample.threeInputs 0 0) (-1) = [] := by
  refine (noFalseAlarms_iff (Sample.consecutive_threeEvents rfl) Sample.streamedNullifiers
    Sample.answeredIteration.merkle 0 0 (-1)).mpr ?_
  have hinputs : ∀ le ∈ Sample.threeInputs.ledgerEvents, le.grouping = .zswap ∧ le.variant = .zswapInput := by decide
  rintro height - - a - b hb c - - - - - - - - -
  exact Or.inl ⟨rfl, hinputs b hb⟩

/-- The bundle leaves the output between two inputs out, and its stored id is reported as missing. -/
theorem not_noFalseAlarms_outputBetweenInputs : ConsecutiveEvents Sample.outputBetweenInputs ∧
    buildBlockBundlesGaps Sample.outputBetweenInputs Sample.streamedNullifiers Sample.answeredIteration.merkle
      (getBlocksInRange Sample.outputBetweenInputs 0 0) (-1) = [⟨0, 1, 2, 3, 1⟩] := by
  refine ⟨Sample.consecutive_threeEvents rfl, ?_⟩
  rw [buildBlockBundlesGaps_eq]
  decide

end NocyWalletFeed
