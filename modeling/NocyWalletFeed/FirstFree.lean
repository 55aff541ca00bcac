import NocyWalletFeed.Routes.Latest
import NocyWalletFeed.Evolution
import Mathlib.Order.Bounds.Basic

/-!
# The first free index and the collapsed update

* `collapsedUpdate_iff` : after any run of the snapshot client, a collapsed update is an answer from the last snapshot
  accepted, and `first-free` answers from the same one;
* `Indexed` : how the chain indexer assigns commitment indexes;
* `firstFreeFromDb_spec` : what the database answers without a snapshot bounds the ranges of all that is served, and
  does not go back.
-/

namespace NocyWalletFeed
open Codec OrderBy Relational Register

/-! ## Answers from the snapshots -/

section Snapshots
variable (fromSlice : Bytes → Option Json.Value) (cacheTtl : Nat) (turns : List (Nat × SnapshotEvent)) (now : Nat)

def snapshotClientAfter : SnapshotClient :=
  (turns.foldl (snapshotStep fromSlice) (.initial (.withCacheTtl cacheTtl))).client

/-- The last snapshot accepted in a run, if that is less than its lifetime ago: a step on the way accepts it, and no
later step accepts another. -/
def LastAccepted (snapshot : LedgerStateSnapshot) : Prop :=
  let initial := SnapshotState.initial (.withCacheTtl cacheTtl)
  ∃ pre turn post, WritesAt (snapshotStep fromSlice) (accepted fromSlice) initial turns pre turn post
      ⟨snapshot, turn.1⟩ ∧
    Silent (snapshotStep fromSlice) (accepted fromSlice)
      ((pre ++ [turn]).foldl (snapshotStep fromSlice) initial) post ∧
    now - turn.1 < cacheTtl

variable {fromSlice cacheTtl turns now}

theorem getCachedSnapshot_after {snapshot : LedgerStateSnapshot} :
    (snapshotClientAfter fromSlice cacheTtl turns).getCachedSnapshot now = some snapshot ↔
      LastAccepted fromSlice cacheTtl turns now snapshot :=
  getCachedSnapshot_iff cacheTtl turns now snapshot

theorem LastAccepted.inRange {snapshot : LedgerStateSnapshot}
    (h : LastAccepted fromSlice cacheTtl turns now snapshot) : snapshot.InRange := by
  obtain ⟨pre, ⟨time, event⟩, post, hat, -, -⟩ := h
  have hwrite := hat.write
  unfold accepted at hwrite
  split_ifs at hwrite
  obtain ⟨offered, hoffer, heq⟩ := Option.map_eq_some_iff.mp hwrite
  obtain rfl : offered = snapshot := congrArg CachedSnapshot.snapshot heq
  have hparse : ∀ payload, SnapshotClient.parseSnapshot fromSlice payload = some offered → offered.InRange := by
    intro payload hpayload
    obtain ⟨value, -, hvalue⟩ := Option.bind_eq_some_iff.mp hpayload
    exact LedgerStateSnapshot.deserialize_inRange hvalue
  cases event with
  | message reply payload =>
    have hupdate : snapshotUpdate fromSlice reply payload = some offered := hoffer
    unfold snapshotUpdate at hupdate
    split_ifs at hupdate
    exact hparse payload hupdate
  | fetched response =>
    obtain ⟨payload, -, hpayload⟩ := Option.bind_eq_some_iff.mp hoffer
    exact hparse payload hpayload
  | subscribe ok => cases hoffer
  | ended => cases hoffer

structure CollapsedUpdateQuery.Meets (query : CollapsedUpdateQuery) (snapshot : LedgerStateSnapshot) : Prop where
  nonneg : 0 ≤ query.fromHeight
  lt : query.fromHeight < query.toHeight
  head : query.toHeight = snapshot.blockHeight
  version : query.protocolVersion = snapshot.protocolVersion

theorem getCollapsedUpdate_eq_ok {state : LatestState} {query : CollapsedUpdateQuery}
    {response : CollapsedUpdateResponse} : getCollapsedUpdate state query = .ok response ↔
      ∃ snapshot, state.snapshotClient.getCachedSnapshot state.now = some snapshot ∧ query.Meets snapshot ∧
        response = snapshot.toResponse := by
  unfold getCollapsedUpdate
  constructor
  · intro h
    split_ifs at h with hle hneg
    split at h
    next => cases h
    next snapshot hsnapshot =>
      split_ifs at h with hhead hversion
      refine ⟨snapshot, hsnapshot, ⟨?_, ?_, not_not.mp hhead, not_not.mp hversion⟩, (Except.ok.inj h).symm⟩
      · omega
      · omega
  · rintro ⟨snapshot, hsnapshot, ⟨hnonneg, hlt, hhead, hversion⟩, rfl⟩
    rw [if_neg (by omega), if_neg (by omega), hsnapshot]
    dsimp only
    rw [if_neg (not_not.mpr hhead), if_neg (not_not.mpr hversion)]

theorem getCollapsedUpdate_eq_unavailable {state : LatestState} {query : CollapsedUpdateQuery} {message : String} :
    getCollapsedUpdate state query = .error (.serviceUnavailable message) ↔
      0 ≤ query.fromHeight ∧ query.fromHeight < query.toHeight ∧
        state.snapshotClient.getCachedSnapshot state.now = none ∧ message = "Ledger state snapshot not available" := by
  unfold getCollapsedUpdate
  constructor
  · intro h
    split_ifs at h with hle hneg
    · cases h
    · cases h
    · split at h
      next hnone =>
        cases h
        exact ⟨by omega, by omega, hnone, rfl⟩
      next snapshot hsnapshot =>
        split_ifs at h
        · cases h
        · cases h
  · rintro ⟨hnonneg, hlt, hnone, rfl⟩
    rw [if_neg (by omega), if_neg (by omega), hnone]

/-- **Answers from a run.** Whatever the snapshot client has been through, `collapsed-update` answers exactly from the
last snapshot accepted, less than the lifetime ago, if that has the height and the protocol version asked for; at that
moment `first-free` answers from the same snapshot, whatever the database says. A request in bounds finds no snapshot
exactly when there is none. -/
theorem collapsedUpdate_iff (fromSlice : Bytes → Option Json.Value) (cacheTtl : Nat)
    (turns : List (Nat × SnapshotEvent)) (db : Except String Database) (now : Nat) (query : CollapsedUpdateQuery) :
    let state : LatestState := ⟨db, snapshotClientAfter fromSlice cacheTtl turns, now⟩
    (∀ response, getCollapsedUpdate state query = .ok response ↔
      ∃ snapshot, LastAccepted fromSlice cacheTtl turns now snapshot ∧ query.Meets snapshot ∧
        response = snapshot.toResponse) ∧
    (∀ response, getCollapsedUpdate state query = .ok response →
      getFirstFree state = .ok ⟨response.firstFreeIndex, response.blockHeight, "snapshot"⟩) ∧
    (∀ message, getCollapsedUpdate state query = .error (.serviceUnavailable message) →
      (¬ ∃ snapshot, LastAccepted fromSlice cacheTtl turns now snapshot) ∧
        getFirstFree state = (getFirstFreeFromDb db).map fun row => ⟨toString row.1, row.2, "db"⟩) ∧
    ∀ snapshot, LastAccepted fromSlice cacheTtl turns now snapshot → snapshot.InRange := by
  intro state
  refine ⟨fun response => ?_, fun response hok => ?_, fun message herror => ?_, fun snapshot => LastAccepted.inRange⟩
  · rw [getCollapsedUpdate_eq_ok]
    exact exists_congr fun snapshot => and_congr getCachedSnapshot_after Iff.rfl
  · obtain ⟨snapshot, hsnapshot, -, rfl⟩ := getCollapsedUpdate_eq_ok.mp hok
    unfold getFirstFree
    rw [hsnapshot]
    rfl
  · obtain ⟨-, -, hnone, -⟩ := getCollapsedUpdate_eq_unavailable.mp herror
    refine ⟨?_, ?_⟩
    · rintro ⟨snapshot, hlast⟩
      rw [getCachedSnapshot_after.mpr hlast] at hnone
      cases hnone
    · unfold getFirstFree
      rw [hnone]

end Snapshots

/-! ## Answers from the database -/

/-- How the chain indexer assigns indexes: a regular transaction is in a block, it has an end index, and the end indexes
do not decrease with the ids. -/
structure Indexed (db : Database) : Prop where
  placed : ∀ reg ∈ db.regularTransactions, ∃ t ∈ db.transactions, t.id = reg.id ∧ ∃ b ∈ db.blocks, t.blockId = b.id
  ended : ∀ reg ∈ db.regularTransactions, ∃ endIndex ∈ reg.endIndex, 0 ≤ endIndex ∧ endIndex < 2 ^ 63
  increasing : ∀ reg ∈ db.regularTransactions, ∀ reg' ∈ db.regularTransactions, reg.id < reg'.id →
    ∀ endIndex ∈ reg.endIndex, ∀ endIndex' ∈ reg'.endIndex, endIndex ≤ endIndex'

/-- Where the commitments of the regular transactions end, and the start of the tree. -/
def endIndexes (db : Database) : Set Int := {e | e = 0 ∨ ∃ reg ∈ db.regularTransactions, reg.endIndex = some e}

/-- A regular transaction with its block, of the greatest id. -/
structure IsLatest (db : Database) (reg : RegularTransactionRow) (t : TransactionRow) (b : BlockRow) : Prop where
  reg_mem : reg ∈ db.regularTransactions
  t_mem : t ∈ db.transactions
  b_mem : b ∈ db.blocks
  reg_id : t.id = reg.id
  b_id : t.blockId = b.id
  latest : ∀ reg' ∈ db.regularTransactions, reg'.id ≤ reg.id

section Indexed
variable {db : Database}

theorem asU64_of_nonneg {value : Int} (hnonneg : 0 ≤ value) (hlt : value < 2 ^ 63) : (asU64 value : Int) = value := by
  unfold asU64
  omega

theorem mem_placedTransactions {reg : RegularTransactionRow} {t : TransactionRow} {b : BlockRow} :
    ((reg, t), b) ∈ placedTransactions db ↔
      (reg ∈ db.regularTransactions ∧ t ∈ db.transactions ∧ reg.id = t.id) ∧ b ∈ db.blocks ∧ t.blockId = b.id := by
  unfold placedTransactions
  rw [mem_join, mem_join, decide_eq_true_eq, decide_eq_true_eq]

theorem Indexed.exists_placed (h : Indexed db) {reg : RegularTransactionRow} (hreg : reg ∈ db.regularTransactions) :
    ∃ t b, ((reg, t), b) ∈ placedTransactions db := by
  obtain ⟨t, ht, hid, b, hb, hblock⟩ := h.placed reg hreg
  exact ⟨t, b, mem_placedTransactions.mpr ⟨⟨hreg, ht, hid.symm⟩, hb, hblock⟩⟩

theorem Indexed.latestEndIndex_cases (h : Indexed db) :
    (db.regularTransactions = [] ∧ latestEndIndex db = none) ∨
      ∃ reg t b, IsLatest db reg t b ∧ latestEndIndex db = some (reg.endIndex, b.height) := by
  unfold latestEndIndex
  cases hhead : (sortBy (fun row => -row.1.2.id) (placedTransactions db)).head? with
  | none =>
    refine Or.inl ⟨?_, rfl⟩
    have hnil := (sortBy_eq_nil _).mp (List.head?_eq_none_iff.mp hhead)
    refine List.eq_nil_iff_forall_not_mem.mpr fun reg hreg => ?_
    obtain ⟨t, b, hplaced⟩ := h.exists_placed hreg
    rw [hnil] at hplaced
    cases hplaced
  | some row =>
    obtain ⟨⟨reg, t⟩, b⟩ := row
    obtain ⟨hmem, hleast⟩ := head?_sortBy _ hhead
    obtain ⟨⟨hreg, ht, hid⟩, hb, hblock⟩ := mem_placedTransactions.mp hmem
    refine Or.inr ⟨reg, t, b, ⟨hreg, ht, hb, hid.symm, hblock, fun reg' hreg' => ?_⟩, rfl⟩
    obtain ⟨t', b', hplaced'⟩ := h.exists_placed hreg'
    have hid' := (mem_placedTransactions.mp hplaced').1.2.2
    have hle : -t.id ≤ -t'.id := hleast _ hplaced'
    omega

theorem Indexed.isGreatest (h : Indexed db) {reg : RegularTransactionRow} {t : TransactionRow} {b : BlockRow}
    (hlatest : IsLatest db reg t b) {endIndex : Int} (hend : reg.endIndex = some endIndex) (hnonneg : 0 ≤ endIndex) :
    IsGreatest (endIndexes db) endIndex := by
  refine ⟨Or.inr ⟨reg, hlatest.reg_mem, hend⟩, ?_⟩
  rintro e (rfl | ⟨reg', hreg', hend'⟩)
  · exact hnonneg
  · rcases (hlatest.latest reg' hreg').lt_or_eq with hlt | heq
    · exact h.increasing reg' hreg' reg hlatest.reg_mem hlt e hend' endIndex hend
    · obtain rfl := eq_of_key_eq db.constraints.regularTransactionIds hreg' hlatest.reg_mem heq
      rw [hend] at hend'
      exact (Option.some.inj hend').ge

theorem Indexed.getFirstFreeFromDb_eq (h : Indexed db) : ∃ n height,
    getFirstFreeFromDb (.ok db) = .ok (n, height) ∧ IsGreatest (endIndexes db) (n : Int) ∧
      ∀ reg t b, IsLatest db reg t b → height = b.height := by
  unfold getFirstFreeFromDb
  dsimp only
  rcases h.latestEndIndex_cases with ⟨hnil, hnone⟩ | ⟨reg, t, b, hlatest, hsome⟩
  · rw [hnone]
    refine ⟨0, 0, rfl, ⟨Or.inl rfl, ?_⟩, fun reg t b hlatest => ?_⟩
    · rintro e (rfl | ⟨reg, hreg, -⟩)
      · exact le_rfl
      · rw [hnil] at hreg
        cases hreg
    · have hreg := hlatest.reg_mem
      rw [hnil] at hreg
      cases hreg
  · obtain ⟨endIndex, hend, hnonneg, hlt⟩ := h.ended reg hlatest.reg_mem
    rw [hsome, show reg.endIndex = some endIndex from hend]
    refine ⟨asU64 endIndex, b.height, rfl, ?_, fun reg' t' b' hlatest' => ?_⟩
    · rw [asU64_of_nonneg hnonneg hlt]
      exact h.isGreatest hlatest hend hnonneg
    · have hid : reg.id = reg'.id :=
        le_antisymm (hlatest'.latest reg hlatest.reg_mem) (hlatest.latest reg' hlatest'.reg_mem)
      obtain rfl : t = t' := db.transaction_eq_of_id_eq hlatest.t_mem hlatest'.t_mem
        (by rw [hlatest.reg_id, hlatest'.reg_id, hid])
      obtain rfl : b = b' := db.block_eq_of_id_eq hlatest.b_mem hlatest'.b_mem
        (by rw [← hlatest.b_id, ← hlatest'.b_id])
      rfl

theorem endIndex_mem_endIndexes {sessionId : Bytes} {fromHeight toHeight : Int} {row : RelevantTxRow}
    (hrow : row ∈ getRelevantTransactions db sessionId fromHeight toHeight) {e : Int} (he : e ∈ row.endIndex) :
    e ∈ endIndexes db := by
  obtain ⟨⟨tb, reg⟩, hjoined, rfl⟩ := List.mem_map.mp ((mem_sortBy _).mp hrow)
  rcases mem_leftJoin hjoined with ⟨reg, hreg, -, rfl⟩ | ⟨rfl, -⟩
  · exact Or.inr ⟨reg, hreg, he⟩
  · cases he

theorem endIndexes_subset_of_step {db' : Database} (h : Step db db') : endIndexes db ⊆ endIndexes db' := by
  obtain ⟨isNew, spendUtxo, hext⟩ := h.extends_db []
  obtain ⟨rows, hrows, -⟩ := hext.regularTransactions
  rintro e (rfl | ⟨reg, hreg, hend⟩)
  · exact Or.inl rfl
  · refine Or.inr ⟨reg, ?_, hend⟩
    rw [hrows]
    exact List.mem_append_left rows hreg

/-- While the database evolves, no end index is lost. -/
theorem endIndexes_subset {db' : Database} (h : Evolves db db') : endIndexes db ⊆ endIndexes db' := by
  induction h with
  | refl => exact subset_rfl
  | tail _ hstep ih => exact ih.trans (endIndexes_subset_of_step hstep)

end Indexed

/-- **Answers from the database.** Without a snapshot, the answer is the greatest end index of all regular transactions,
with the height of the last one's block. No transaction a session is served reaches beyond it, and it does not go back
while the database evolves. -/
theorem firstFreeFromDb_spec {db db' : Database} (h : Indexed db) (h' : Indexed db') (hevolves : Evolves db db') :
    ∃ n height n' height', getFirstFreeFromDb (.ok db) = .ok (n, height) ∧
      getFirstFreeFromDb (.ok db') = .ok (n', height') ∧ IsGreatest (endIndexes db) (n : Int) ∧
      (∀ reg t b, IsLatest db reg t b → height = b.height) ∧
      (∀ sessionId fromHeight toHeight, ∀ row ∈ getRelevantTransactions db sessionId fromHeight toHeight,
        ∀ e ∈ row.endIndex, e ≤ n) ∧ n ≤ n' := by
  obtain ⟨n, height, hok, hgreatest, hheight⟩ := h.getFirstFreeFromDb_eq
  obtain ⟨n', height', hok', hgreatest', -⟩ := h'.getFirstFreeFromDb_eq
  refine ⟨n, height, n', height', hok, hok', hgreatest, hheight,
    fun sessionId fromHeight toHeight row hrow e he => ?_, ?_⟩
  · exact hgreatest.2 (endIndex_mem_endIndexes hrow he)
  · have hle : (n : Int) ≤ n' := hgreatest.mono hgreatest' (endIndexes_subset hevolves)
    omega

namespace Sample

/-- A chain of one block whose transaction has three commitments. -/
def indexedChain : Database :=
  ⟨{ tables [block 0 1 0] [transaction 1 0] [] with
      regularTransactions := [⟨1, none, none, some 0, some 3, none, none, none⟩] }, by decide⟩

/-- The same chain with a second block. -/
def indexedLonger : Database :=
  ⟨{ tables [block 0 1 0, block 1 2 1] [transaction 1 0, transaction 2 1] [] with
      regularTransactions := [⟨1, none, none, some 0, some 3, none, none, none⟩,
        ⟨2, none, none, some 3, some 5, none, none, none⟩] }, by decide⟩

theorem evolves_indexedLonger : Evolves indexedChain indexedLonger := by
  refine Relation.ReflTransGen.single (.append ⟨block 1 2 1, [transaction 2 1],
    [⟨2, none, none, some 3, some 5, none, none, none⟩], [], [], [], [], fun _ => none⟩ ?_ rfl)
  exact ⟨by decide, by decide, by decide, by decide, by decide, by decide, by decide, by decide,
    fun _ _ h => by cases h⟩

end Sample

theorem firstFreeFromDb_spec_indexedChain : ∃ n height n' height',
    getFirstFreeFromDb (.ok Sample.indexedChain) = .ok (n, height) ∧
      getFirstFreeFromDb (.ok Sample.indexedLonger) = .ok (n', height') ∧
      IsGreatest (endIndexes Sample.indexedChain) (n : Int) ∧
      (∀ reg t b, IsLatest Sample.indexedChain reg t b → height = b.height) ∧
      (∀ sessionId fromHeight toHeight,
        ∀ row ∈ getRelevantTransactions Sample.indexedChain sessionId fromHeight toHeight, ∀ e ∈ row.endIndex, e ≤ n) ∧
      n ≤ n' := by
  exact firstFreeFromDb_spec ⟨by decide, by decide, by decide⟩ ⟨by decide, by decide, by decide⟩
    Sample.evolves_indexedLonger

end NocyWalletFeed
