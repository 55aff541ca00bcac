import NocyWalletFeed.Wallet

/-!
# Unshielded deltas (`db.rs`)

`get_unshielded_deltas` is the older form of the UTXO query: the same rows without the transaction data. It sorts
without `is_create`, and its sort is stable, so that here a creation comes before the spend by the same transaction.

* `getUnshieldedDeltas` : the query;
* `getUnshieldedDeltas_perm` : its rows are those of `getUnshieldedUtxoEvents`;
* `pairwise_deltas` : no spend comes before the creation;
* `perm_replay_deltas` : the deltas up to a height leave exactly what is unspent there.
-/

namespace NocyWalletFeed
open Codec Relational OrderBy Holdings

/-! ## The query -/

structure UnshieldedDeltaRow where
  utxoId : Int
  txId : Int
  blockHeight : Int
  address : Bytes
  valueBytes : Bytes
  isCreate : Bool
  deriving DecidableEq, Repr

/-- The columns selected from a UTXO, its transaction and block. -/
def toUnshieldedDeltaRow (isCreate : Bool) (row : UnshieldedUtxoRow × TransactionRow × BlockRow) : UnshieldedDeltaRow :=
  { utxoId := row.1.id, txId := row.2.1.id, blockHeight := row.2.2.height, address := row.1.owner,
    valueBytes := row.1.value, isCreate := isCreate }

def UnshieldedDeltaRow.sortKey (row : UnshieldedDeltaRow) : Int ×ₗ Int ×ₗ Int :=
  toLex (row.blockHeight, toLex (row.txId, row.utxoId))

/-- The create rows and the spend rows: `txId` is the transaction column the UTXO is joined on. -/
def unshieldedDeltaRows (db : Database) (addresses : List Bytes) (isCreate : Bool)
    (txId : UnshieldedUtxoRow → Option Int) (fromHeight toHeight : Int) : List UnshieldedDeltaRow :=
  let utxos := db.unshieldedUtxos.filter (fun uu => addresses.contains uu.owner)
  let rows := join (fun uu tb => txId uu = some tb.1.id) utxos (blockTransactions db fromHeight toHeight)
  sortBy (·.sortKey) (rows.map (toUnshieldedDeltaRow isCreate))

/-- Query unshielded deltas for a session in a block range. The source makes the three statements on the pool, outside
a transaction; here they read one snapshot. -/
def getUnshieldedDeltas (db : Database) (sessionId : Bytes) (fromHeight toHeight : Int) : List UnshieldedDeltaRow :=
  let addressList := sessionAddresses db sessionId
  if addressList.isEmpty then []
  else
    let createRows :=
      unshieldedDeltaRows db addressList true (fun uu => some uu.creatingTransactionId) fromHeight toHeight
    let spendRows := unshieldedDeltaRows db addressList false (·.spendingTransactionId) fromHeight toHeight
    sortBy (·.sortKey) (createRows ++ spendRows)

/-! ## The rows -/

/-- The delta of a row of the UTXO query. -/
def UnshieldedUtxoEventRow.delta (event : UnshieldedUtxoEventRow) : UnshieldedDeltaRow :=
  ⟨event.utxoId, event.txId, event.blockHeight, event.address, event.valueBytes, event.isCreate⟩

section Rows
variable {db : Database} {sessionId : Bytes} {fromHeight toHeight top : Int}

theorem unshieldedDeltaRows_eq (addresses : List Bytes) (isCreate : Bool) (txId : UnshieldedUtxoRow → Option Int) :
    unshieldedDeltaRows db addresses isCreate txId fromHeight toHeight =
      (unshieldedUtxoRows db addresses isCreate txId fromHeight toHeight).map UnshieldedUtxoEventRow.delta := by
  have hleft := map_fst_leftJoin (fun (row : UnshieldedUtxoRow × TransactionRow × BlockRow)
    (reg : RegularTransactionRow) => reg.id = row.2.1.id) (fun row => row.2.1.id)
    (join (fun uu tb => txId uu = some tb.1.id) (db.unshieldedUtxos.filter (fun uu => uu.owner ∈ addresses))
      (blockTransactions db fromHeight toHeight))
    db.constraints.regularTransactionIds (fun _ _ h => of_decide_eq_true h)
  refine Eq.trans ?_ (sortBy_map UnshieldedDeltaRow.sortKey
    (fun row : UnshieldedUtxoEventRow => toLex (row.blockHeight, toLex (row.txId, row.utxoId)))
    UnshieldedUtxoEventRow.delta _ (fun _ _ _ _ => Iff.rfl))
  have howned : (fun uu : UnshieldedUtxoRow => addresses.contains uu.owner) = fun uu => decide (uu.owner ∈ addresses) :=
    funext fun uu => List.contains_eq_mem uu.owner addresses
  unfold unshieldedDeltaRows
  dsimp only
  rw [howned, ← hleft, List.map_map, List.map_map, hleft]
  rfl

theorem getUnshieldedDeltas_perm (db : Database) (sessionId : Bytes) (fromHeight toHeight : Int) :
    (getUnshieldedDeltas db sessionId fromHeight toHeight).Perm
      ((getUnshieldedUtxoEvents db sessionId fromHeight toHeight).map UnshieldedUtxoEventRow.delta) := by
  unfold getUnshieldedDeltas getUnshieldedUtxoEvents
  dsimp only
  split_ifs
  · exact List.Perm.refl _
  · refine (perm_sortBy _ _).trans ?_
    rw [unshieldedDeltaRows_eq, unshieldedDeltaRows_eq, ← List.map_append]
    exact ((perm_sortBy _ _).map _).symm

theorem pairwise_sortKey_deltas (db : Database) (sessionId : Bytes) (fromHeight toHeight : Int) :
    (getUnshieldedDeltas db sessionId fromHeight toHeight).Pairwise (fun a b => a.sortKey ≤ b.sortKey) := by
  unfold getUnshieldedDeltas
  dsimp only
  split_ifs
  · exact List.Pairwise.nil
  · exact pairwise_sortBy _ _

/-- Of two deltas with one key, the creation is the first. -/
theorem pairwise_isCreate_deltas (db : Database) (sessionId : Bytes) (fromHeight toHeight : Int) :
    (getUnshieldedDeltas db sessionId fromHeight toHeight).Pairwise
      (fun a b => a.sortKey = b.sortKey → ¬ (a.isCreate = false ∧ b.isCreate = true)) := by
  unfold getUnshieldedDeltas
  dsimp only
  split_ifs
  · exact List.Pairwise.nil
  · refine pairwise_sortBy_of_pairwise _ ?_
    have hkind : ∀ isCreate txId,
        ∀ row ∈ unshieldedDeltaRows db (sessionAddresses db sessionId) isCreate txId fromHeight toHeight,
          row.isCreate = isCreate := by
      intro isCreate txId row hrow
      obtain ⟨joined, -, rfl⟩ := List.mem_map.mp ((mem_sortBy _).mp hrow)
      rfl
    refine List.pairwise_append.mpr ⟨?_, ?_, ?_⟩
    · refine List.pairwise_of_forall_mem_list fun a ha b _ h => ?_
      exact Bool.false_ne_true (h.1.symm.trans (hkind _ _ a ha))
    · refine List.pairwise_of_forall_mem_list fun a _ b hb h => ?_
      exact Bool.false_ne_true ((hkind _ _ b hb).symm.trans h.2)
    · intro a ha b _ h
      exact Bool.false_ne_true (h.1.symm.trans (hkind _ _ a ha))

end Rows

/-! ## The order -/

/-- What a delta changes: a UTXO with its address and its value. -/
def UnshieldedDeltaRow.change (row : UnshieldedDeltaRow) : Change Int (Bytes × Bytes) :=
  if row.isCreate then .gain row.utxoId (row.address, row.valueBytes) else .lose row.utxoId

/-- What the deltas leave for a UTXO. -/
def UnshieldedUtxoRow.entry (u : UnshieldedUtxoRow) : Int × Bytes × Bytes := (u.id, u.owner, u.value)

theorem UnshieldedDeltaRow.change_eq_lose {row : UnshieldedDeltaRow} {id : Int} :
    row.change = .lose id ↔ row.isCreate = false ∧ row.utxoId = id := by
  unfold UnshieldedDeltaRow.change
  cases row.isCreate <;> simp

theorem UnshieldedDeltaRow.change_eq_gain {row : UnshieldedDeltaRow} {id : Int} {value : Bytes × Bytes} :
    row.change = .gain id value ↔ row.isCreate = true ∧ (row.utxoId, row.address, row.valueBytes) = (id, value) := by
  unfold UnshieldedDeltaRow.change
  cases row.isCreate <;> simp

section Order
variable {db : Database} {sessionId : Bytes} {fromHeight toHeight top : Int}

/-- A delta is about a UTXO of a registered address, in the block of the transaction that creates or spends it. -/
theorem utxo_of_mem_deltas {row : UnshieldedDeltaRow} (h : row ∈ getUnshieldedDeltas db sessionId fromHeight toHeight) :
    ∃ u ∈ db.unshieldedUtxos, u.owner ∈ sessionAddresses db sessionId ∧ (row.utxoId, row.address, row.valueBytes) =
      u.entry ∧ InBlock db row.txId row.blockHeight ∧ InRange db row.txId fromHeight toHeight ∧
        (row.isCreate = true → row.txId = u.creatingTransactionId) ∧
          (row.isCreate = false → u.spendingTransactionId = some row.txId) := by
  obtain ⟨event, hevent, rfl⟩ := List.mem_map.mp ((getUnshieldedDeltas_perm _ _ _ _).mem_iff.mp h)
  obtain ⟨hlo, hhi⟩ := blockHeight_of_mem_unshielded hevent
  have hrow : ∀ isCreate txId, event ∈ unshieldedUtxoRows db (sessionAddresses db sessionId) isCreate txId fromHeight
      toHeight → ∃ u ∈ db.unshieldedUtxos, u.owner ∈ sessionAddresses db sessionId ∧
        (event.utxoId, event.address, event.valueBytes) = u.entry := by
    intro isCreate txId hmem
    obtain ⟨joined, hjoined, rfl⟩ := List.mem_map.mp ((mem_sortBy _).mp hmem)
    obtain ⟨hu, -, -⟩ := mem_join.mp (mem_leftJoin_fst hjoined)
    obtain ⟨hu, howner⟩ := List.mem_filter.mp hu
    exact ⟨joined.1.1, hu, of_decide_eq_true howner, rfl⟩
  have hutxo : ∃ u ∈ db.unshieldedUtxos, u.owner ∈ sessionAddresses db sessionId ∧
      (event.utxoId, event.address, event.valueBytes) = u.entry := by
    rcases mem_getUnshieldedUtxoEvents.mp hevent with hmem | hmem
    · exact hrow _ _ hmem
    · exact hrow _ _ hmem
  obtain ⟨u, hu, howner, hentry⟩ := hutxo
  obtain ⟨hblock, hcreate, hspend⟩ := row_of_utxoEvent hu hevent (congrArg Prod.fst hentry)
  exact ⟨u, hu, howner, hentry, hblock, inRange_iff.mpr ⟨event.blockHeight, hlo, hhi, hblock⟩, hcreate, hspend⟩

theorem exists_delta_iff {id : Int} (isCreate : Bool) :
    (∃ row ∈ getUnshieldedDeltas db sessionId fromHeight toHeight, row.isCreate = isCreate ∧ row.utxoId = id) ↔
      (id, isCreate) ∈ (getUnshieldedUtxoEvents db sessionId fromHeight toHeight).map (·.utxoEvent) := by
  constructor
  · rintro ⟨row, hrow, hkind, hid⟩
    obtain ⟨event, hevent, rfl⟩ := List.mem_map.mp ((getUnshieldedDeltas_perm _ _ _ _).mem_iff.mp hrow)
    exact List.mem_map.mpr ⟨event, hevent, Prod.ext hid hkind⟩
  · intro hmem
    obtain ⟨event, hevent, heq⟩ := List.mem_map.mp hmem
    obtain ⟨hid, hkind⟩ := Prod.mk.inj heq
    exact ⟨event.delta, (getUnshieldedDeltas_perm _ _ _ _).mem_iff.mpr (List.mem_map_of_mem hevent), hkind, hid⟩

/-- **Creations first.** No delta that spends a UTXO comes before the one that creates it. -/
theorem pairwise_deltas (hcreated : CreatedFirst db sessionId) :
    ((getUnshieldedDeltas db sessionId fromHeight toHeight).map UnshieldedDeltaRow.change).Pairwise
      fun c c' => ∀ id value, ¬ (c = .lose id ∧ c' = .gain id value) := by
  rw [List.pairwise_map]
  refine List.Pairwise.imp_of_mem (fun {spend create} hs hc h => ?_)
    ((pairwise_sortKey_deltas db sessionId fromHeight toHeight).and
      (pairwise_isCreate_deltas db sessionId fromHeight toHeight))
  rintro id value ⟨hlose, hgain⟩
  obtain ⟨hskind, hsid⟩ := UnshieldedDeltaRow.change_eq_lose.mp hlose
  obtain ⟨hckind, hcid⟩ := UnshieldedDeltaRow.change_eq_gain.mp hgain
  have hcid : create.utxoId = id := congrArg Prod.fst hcid
  obtain ⟨u, hu, howner, hsentry, hsblock, -, -, hspent⟩ := utxo_of_mem_deltas hs
  obtain ⟨u', hu', -, hcentry, hcblock, -, hcreator, -⟩ := utxo_of_mem_deltas hc
  have hids : u.id = u'.id :=
    (congrArg Prod.fst hsentry).symm.trans (hsid.trans (hcid.symm.trans (congrArg Prod.fst hcentry)))
  obtain rfl := eq_of_key_eq db.constraints.unshieldedUtxoIds hu hu' hids
  have hspent := hspent hskind
  have hcreator := hcreator hckind
  rcases hcreated u hu howner spend.txId hspent with hsame | ⟨hlt, hheights⟩
  · -- one transaction: the keys are equal, and the stable sort has left the creation first
    have htx : create.txId = spend.txId := hcreator.trans hsame
    have hheight : create.blockHeight = spend.blockHeight := (htx ▸ hcblock).unique hsblock
    refine h.2 ?_ ⟨hskind, hckind⟩
    rw [UnshieldedDeltaRow.sortKey, UnshieldedDeltaRow.sortKey, hheight, htx, hsid, hcid]
  · -- a later transaction: the key of the creation is smaller
    have hle : create.blockHeight ≤ spend.blockHeight := by
      obtain ⟨block, hblock, hheight⟩ := hsblock.exists_block
      obtain ⟨block', hblock', hheight'⟩ := hcblock.exists_block
      have hall := hheights block' hblock' block hblock
      rw [hheight, hheight', ← hcreator] at hall
      exact hall hcblock hsblock
    refine h.1.not_gt ?_
    simp only [UnshieldedDeltaRow.sortKey, Prod.Lex.toLex_lt_toLex]
    omega

theorem nodup_gained_deltas (db : Database) (sessionId : Bytes) (fromHeight toHeight : Int) :
    ((((getUnshieldedDeltas db sessionId fromHeight toHeight).map UnshieldedDeltaRow.change).filterMap
      Change.gained).map Prod.fst).Nodup := by
  have hperm := (((getUnshieldedDeltas_perm db sessionId fromHeight toHeight).map UnshieldedDeltaRow.change).filterMap
    Change.gained).map Prod.fst
  rw [hperm.nodup_iff]
  have hgained : (((getUnshieldedUtxoEvents db sessionId fromHeight toHeight).map
      UnshieldedUtxoEventRow.change).filterMap Change.gained).map Prod.fst =
      ((((getUnshieldedUtxoEvents db sessionId fromHeight toHeight).map
        UnshieldedUtxoEventRow.delta).map UnshieldedDeltaRow.change).filterMap Change.gained).map Prod.fst := by
    rw [List.map_map, List.filterMap_map, List.filterMap_map, List.map_filterMap, List.map_filterMap]
    refine List.filterMap_congr fun event _ => ?_
    unfold Function.comp UnshieldedUtxoEventRow.change UnshieldedDeltaRow.change UnshieldedUtxoEventRow.delta
    cases event.isCreate <;> rfl
  rw [← hgained]
  exact nodup_gained db sessionId fromHeight toHeight

/-- **Deltas.** The deltas up to a height leave exactly the UTXOs that are unspent there, each with its address and its
value. -/
theorem perm_replay_deltas (hcreated : CreatedFirst db sessionId) (top : Int) :
    (replay ((getUnshieldedDeltas db sessionId 0 top).map UnshieldedDeltaRow.change)).Perm
      ((utxosWhere db (Unspent db sessionId top)).map UnshieldedUtxoRow.entry) := by
  refine (List.perm_ext_iff_of_nodup ?_ ?_).mpr ?_
  · exact (nodup_replay (nodup_gained_deltas db sessionId 0 top)).of_map Prod.fst
  · refine List.Nodup.of_map Prod.fst ?_
    rw [List.map_map]
    exact db.constraints.unshieldedUtxoIds.sublist (List.filter_sublist.map _)
  · rintro ⟨id, value⟩
    rw [mem_replay_of_gainFirst (pairwise_deltas hcreated), List.mem_map, List.mem_map, List.mem_map]
    constructor
    · rintro ⟨⟨create, hc, hgain⟩, hlose⟩
      obtain ⟨hckind, hcid⟩ := UnshieldedDeltaRow.change_eq_gain.mp hgain
      obtain ⟨u, hu, howner, hentry, -, hrange, hcreator, -⟩ := utxo_of_mem_deltas hc
      refine ⟨u, List.mem_filter.mpr ⟨hu, decide_eq_true ⟨howner, hcreator hckind ▸ hrange, fun hspent => ?_⟩⟩,
        hentry.symm.trans hcid⟩
      obtain ⟨spend, hs, hskind, hsid⟩ :=
        (exists_delta_iff false).mpr ((mem_utxoEvents_iff 0 top hu howner).2.mpr hspent)
      refine hlose ⟨spend, hs, UnshieldedDeltaRow.change_eq_lose.mpr ⟨hskind, ?_⟩⟩
      rw [hsid]
      exact congrArg Prod.fst (hentry.symm.trans hcid)
    · rintro ⟨u, hmem, hentry⟩
      obtain ⟨hu, hunspent⟩ := List.mem_filter.mp hmem
      obtain ⟨howner, hrange, hunspent⟩ := of_decide_eq_true hunspent
      obtain rfl : u.id = id := congrArg Prod.fst hentry
      refine ⟨?_, ?_⟩
      · obtain ⟨create, hc, hckind, hcid⟩ :=
          (exists_delta_iff true).mpr ((mem_utxoEvents_iff 0 top hu howner).1.mpr hrange)
        obtain ⟨u', hu', -, hentry', -⟩ := utxo_of_mem_deltas hc
        obtain rfl := eq_of_key_eq db.constraints.unshieldedUtxoIds hu hu'
          (hcid.symm.trans (congrArg Prod.fst hentry'))
        exact ⟨create, hc, UnshieldedDeltaRow.change_eq_gain.mpr ⟨hckind, hentry'.trans hentry⟩⟩
      · rintro ⟨spend, hs, hlose⟩
        obtain ⟨hskind, hsid⟩ := UnshieldedDeltaRow.change_eq_lose.mp hlose
        exact hunspent ((mem_utxoEvents_iff 0 top hu howner).2.mp
          ((exists_delta_iff false).mp ⟨spend, hs, hskind, hsid⟩))

end Order

/-- A UTXO created and spent by one transaction: the deltas leave nothing, and a wallet that follows the feed holds
it. -/
theorem perm_replay_deltas_sameTxSpend :
    (replay ((getUnshieldedDeltas Sample.sameTxSpend Sample.sessionId 0 0).map UnshieldedDeltaRow.change)).Perm
        ((utxosWhere Sample.sameTxSpend (Unspent Sample.sameTxSpend Sample.sessionId 0)).map UnshieldedUtxoRow.entry) ∧
      utxosWhere Sample.sameTxSpend (Unspent Sample.sameTxSpend Sample.sessionId 0) = [] ∧
      walletOf (feedItems Sample.sameTxSpend Sample.args 0 1) = [(1, "", 5)] :=
  ⟨perm_replay_deltas (by decide) 0, by decide, by decide +kernel⟩

end NocyWalletFeed
