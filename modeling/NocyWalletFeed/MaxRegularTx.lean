import Mathlib.Data.Fintype.EquivFin
import NocyWalletFeed.FirstFree
import NocyWalletFeed.Library.Memo

/-!
# The greatest regular transaction of a block (`db.rs`)

`get_block_max_regular_tx_id` keeps what it computes in `nocy_sidecar.block_max_regular_tx`. Its calls are a memo table
over the database: they run side by side, and the indexers write between their statements.

* `maxRegularTxStep` : the calls, statement by statement;
* `final_iff_reached` : the maximum of a height is final just when the chain has reached it;
* `maxRegularTx_right` : when all that is stored and returned is right for good;
* `maxRegularTx_askedTooEarly` : a height asked for before its block is there has no maximum ever after.
-/

namespace NocyWalletFeed
open Codec Relational Walk Memo

/-! ## Calls -/

/-- `SELECT MAX(rt.id) FROM regular_transactions rt JOIN transactions t … JOIN blocks b … WHERE b.height = $1` -/
def maxRegularTxId (db : Database) (blockHeight : Int) : Option Int :=
  (((placedTransactions db).filter (fun row => row.2.height = blockHeight)).map (·.1.1.id)).max?

/-- The database, the rows of `block_max_regular_tx` and the calls of `get_block_max_regular_tx_id`. -/
abbrev MaxRegularTxCalls := Memo.State Database Int (Option Int) String

/-- The insert is `ON CONFLICT (block_height) DO NOTHING`. -/
abbrev maxRegularTxStep : MaxRegularTxCalls → Memo.Turn Database Int String → MaxRegularTxCalls :=
  Memo.step maxRegularTxId

def maxRegularTxError : Memo.Stage → String → AppError
  | .look, e => .internalError ("Failed to fetch cached max_regular_tx: " ++ e)
  | .compute, e => .internalError ("Failed to compute max_regular_tx_id: " ++ e)
  | .store, e => .internalError ("Failed to cache max_regular_tx_id: " ++ e)

def maxRegularTxResult : Memo.Call Int (Option Int) String → Option (Except AppError (Option Int))
  | .answered _ maxTxId => some (.ok maxTxId)
  | .failed stage _ e => some (.error (maxRegularTxError stage e))
  | .looking _ => none
  | .computing _ => none
  | .storing _ _ => none

/-! ## Heights that the chain has reached -/

/-- There is a block at the height or above. -/
def Database.HasReached (db : Database) (height : Int) : Prop := ∃ b ∈ db.blocks, height ≤ b.height

instance (db : Database) (height : Int) : Decidable (db.HasReached height) :=
  inferInstanceAs (Decidable (∃ b ∈ db.blocks, height ≤ b.height))

/-- The greatest of some numbers depends on which they are, not on their order. -/
theorem max?_eq_of_mem_iff {l l' : List Int} (h : ∀ n, n ∈ l ↔ n ∈ l') : l.max? = l'.max? := by
  cases hmax : l.max? with
  | none =>
    obtain rfl := List.max?_eq_none_iff.mp hmax
    have hnil : l' = [] := List.eq_nil_iff_forall_not_mem.mpr fun n hn => nomatch (h n).mpr hn
    rw [hnil, List.max?_nil]
  | some n =>
    obtain ⟨hmem, hgreatest⟩ := List.max?_eq_some_iff.mp hmax
    exact (List.max?_eq_some_iff.mpr ⟨(h n).mp hmem, fun n' hn' => hgreatest n' ((h n').mpr hn')⟩).symm

section Reached
variable {db db' : Database} {height : Int}

theorem mem_maxRegularTxId {id : Int} :
    id ∈ ((placedTransactions db).filter (fun row => row.2.height = height)).map (·.1.1.id) ↔
      ∃ reg ∈ db.regularTransactions, ∃ t ∈ db.transactions, ∃ b ∈ db.blocks,
        reg.id = t.id ∧ t.blockId = b.id ∧ b.height = height ∧ reg.id = id := by
  rw [List.mem_map]
  constructor
  · rintro ⟨⟨⟨reg, t⟩, b⟩, hrow, rfl⟩
    obtain ⟨hplaced, hheight⟩ := List.mem_filter.mp hrow
    obtain ⟨⟨hreg, ht, hid⟩, hb, hblock⟩ := mem_placedTransactions.mp hplaced
    exact ⟨reg, hreg, t, ht, b, hb, hid, hblock, of_decide_eq_true hheight, rfl⟩
  · rintro ⟨reg, hreg, t, ht, b, hb, hid, hblock, hheight, rfl⟩
    exact ⟨((reg, t), b), List.mem_filter.mpr ⟨mem_placedTransactions.mpr ⟨⟨hreg, ht, hid⟩, hb, hblock⟩,
      decide_eq_true hheight⟩, rfl⟩

/-- A step adds no regular transaction to a height that the chain has reached. -/
theorem Extends.maxRegularTxId_eq {sessionId : Codec.Bytes} {isNew : Int → Prop}
    {spendUtxo : UnshieldedUtxoRow → UnshieldedUtxoRow} (h : Extends db db' sessionId isNew spendUtxo)
    (hreached : db.HasReached height) : maxRegularTxId db' height = maxRegularTxId db height := by
  obtain ⟨top, htop, hle⟩ := hreached
  have hhead := hle.trans (height_le_getChainHead htop)
  obtain ⟨newBlocks, hblocks, hnewBlocks⟩ := h.blocks
  obtain ⟨newTxs, htxs, hnewTxs⟩ := h.transactions
  obtain ⟨newRegs, hregs, hnewRegs⟩ := h.regularTransactions
  refine max?_eq_of_mem_iff fun id => ?_
  rw [mem_maxRegularTxId, mem_maxRegularTxId, hblocks, htxs, hregs]
  constructor
  · rintro ⟨reg, hreg, t, ht, b, hb, hid, hblock, hheight, rfl⟩
    have hb : b ∈ db.blocks := by
      rcases List.mem_append.mp hb with hb | hb
      · exact hb
      · have := (hnewBlocks b hb).1
        omega
    have ht : t ∈ db.transactions := by
      rcases List.mem_append.mp ht with ht | ht
      · exact ht
      · exact absurd hblock ((hnewTxs t ht).2 b hb)
    have hreg : reg ∈ db.regularTransactions := by
      rcases List.mem_append.mp hreg with hreg | hreg
      · exact hreg
      · exact absurd (hid ▸ hnewRegs reg hreg) (h.old t ht)
    exact ⟨reg, hreg, t, ht, b, hb, hid, hblock, hheight, rfl⟩
  · rintro ⟨reg, hreg, t, ht, b, hb, hrest⟩
    exact ⟨reg, List.mem_append_left _ hreg, t, List.mem_append_left _ ht, b, List.mem_append_left _ hb, hrest⟩

/-- The maximum of a height that the chain has reached does not change any more. -/
theorem final_of_reached (hreached : db.HasReached height) : Memo.Final maxRegularTxId Evolves db height := by
  intro db' hevolves
  have hkeep : db'.HasReached height ∧ maxRegularTxId db' height = maxRegularTxId db height := by
    induction hevolves with
    | refl => exact ⟨hreached, rfl⟩
    | tail _ hstep ih =>
      obtain ⟨⟨b, hb, hle⟩, heq⟩ := ih
      obtain ⟨_, _, hext⟩ := hstep.extends_db []
      obtain ⟨rows, hrows, -⟩ := hext.blocks
      exact ⟨⟨b, hrows ▸ List.mem_append_left rows hb, hle⟩, (hext.maxRegularTxId_eq ⟨b, hb, hle⟩).trans heq⟩
  exact hkeep.2

theorem maxRegularTxId_of_not_reached (h : ¬ db.HasReached height) : maxRegularTxId db height = none := by
  refine List.max?_eq_none_iff.mpr (List.eq_nil_iff_forall_not_mem.mpr fun id hmem => h ?_)
  obtain ⟨_, -, _, -, b, hb, -, -, hheight, -⟩ := mem_maxRegularTxId.mp hmem
  exact ⟨b, hb, hheight.ge⟩

end Reached

/-! ## Heights that the chain has not reached -/

def Database.HasFreeId (db : Database) : Prop :=
  ∃ txId, InI64 txId ∧ (∀ t ∈ db.transactions, t.id < txId) ∧ ∀ reg ∈ db.regularTransactions, reg.id < txId

structure FreshIds (db : Database) (txIds : List Int) : Prop where
  nodup : txIds.Nodup
  wide : ∀ txId ∈ txIds, InI64 txId
  transactions : ∀ txId ∈ txIds, ∀ t ∈ db.transactions, t.id < txId
  regularTransactions : ∀ txId ∈ txIds, ∀ reg ∈ db.regularTransactions, reg.id < txId

theorem freshIds_nil (db : Database) : FreshIds db [] :=
  ⟨List.nodup_nil, List.forall_mem_nil _, List.forall_mem_nil _, List.forall_mem_nil _⟩

theorem Database.HasFreeId.exists_freshIds {db : Database} (h : db.HasFreeId) : ∃ txId, FreshIds db [txId] := by
  obtain ⟨txId, hid, htxs, hregs⟩ := h
  exact ⟨txId, List.nodup_singleton txId, List.forall_mem_singleton.mpr hid, List.forall_mem_singleton.mpr htxs,
    List.forall_mem_singleton.mpr hregs⟩

/-- A block at the next height with regular transactions of the given ids and nothing else. -/
def nextBlock (db : Database) (blockId : Int) (txIds : List Int) : BlockAppend where
  block := ⟨blockId, getChainHead db + 1, [], [], 0⟩
  transactions := txIds.map fun txId => ⟨txId, blockId, [], 0, []⟩
  regularTransactions := txIds.map fun txId => ⟨txId, none, none, none, none, none, none, none⟩
  transactionIdentifiers := []
  ledgerEvents := []
  contractActions := []
  createdUtxos := []
  spend := fun _ => none

section NextBlock
variable {db : Database} {blockId : Int} {txIds : List Int}

theorem spendUtxo_nextBlock (u : UnshieldedUtxoRow) : (nextBlock db blockId txIds).spendUtxo u = u := by
  unfold BlockAppend.spendUtxo nextBlock
  split_ifs with h
  · rw [← h]
  · rfl

theorem constraints_nextBlock (hblock : ∀ b ∈ db.blocks, b.id ≠ blockId) (hhead : InI64 (getChainHead db + 1))
    (hfresh : FreshIds db txIds) : Constraints ((nextBlock db blockId txIds).apply db.toTables) := by
  have hold := db.constraints
  have hspend : ((nextBlock db blockId txIds).apply db.toTables).unshieldedUtxos = db.unshieldedUtxos := by
    show db.unshieldedUtxos.map (nextBlock db blockId txIds).spendUtxo ++ [] = db.unshieldedUtxos
    rw [List.append_nil, funext spendUtxo_nextBlock, List.map_id']
  refine { hold with
    blockIds := ?_, blockHeights := ?_, transactionIds := ?_, regularTransactionIds := ?_, ledgerEventIds := ?_,
    contractActionIds := ?_, unshieldedUtxoIds := ?_, blockHeightWide := ?_, transactionIdWide := ?_,
    ledgerEventIdWide := ?_, unshieldedUtxoIdWide := ?_ }
  · exact nodup_key_append hold.blockIds (List.nodup_singleton _)
      (fun b hb b' hb' => List.mem_singleton.mp hb' ▸ hblock b hb)
  · refine nodup_key_append hold.blockHeights (List.nodup_singleton _) fun b hb b' hb' => ?_
    obtain rfl := List.mem_singleton.mp hb'
    have := height_le_getChainHead hb
    show b.height ≠ getChainHead db + 1
    omega
  · refine nodup_key_append hold.transactionIds ?_ fun t ht t' ht' => ?_
    · simpa [nextBlock, Function.comp_def] using hfresh.nodup
    · obtain ⟨txId, hmem, rfl⟩ := List.mem_map.mp ht'
      exact (hfresh.transactions txId hmem t ht).ne
  · refine nodup_key_append hold.regularTransactionIds ?_ fun reg hreg reg' hreg' => ?_
    · simpa [nextBlock, Function.comp_def] using hfresh.nodup
    · obtain ⟨txId, hmem, rfl⟩ := List.mem_map.mp hreg'
      exact (hfresh.regularTransactions txId hmem reg hreg).ne
  · simpa [BlockAppend.apply, nextBlock] using hold.ledgerEventIds
  · simpa [BlockAppend.apply, nextBlock] using hold.contractActionIds
  · rw [hspend]
    exact hold.unshieldedUtxoIds
  · intro b hb
    rcases List.mem_append.mp hb with hb | hb
    · exact hold.blockHeightWide b hb
    · obtain rfl := List.mem_singleton.mp hb
      exact hhead
  · intro t ht
    rcases List.mem_append.mp ht with ht | ht
    · exact hold.transactionIdWide t ht
    · obtain ⟨txId, hmem, rfl⟩ := List.mem_map.mp ht
      exact hfresh.wide txId hmem
  · simpa [BlockAppend.apply, nextBlock] using hold.ledgerEventIdWide
  · rw [hspend]
    exact hold.unshieldedUtxoIdWide

theorem valid_nextBlock (howned : ∀ t ∈ db.transactions, t.blockId ≠ blockId)
    (hfresh : FreshIds db txIds) : (nextBlock db blockId txIds).Valid db where
  height := rfl
  transactions t ht := by
    obtain ⟨txId, hmem, rfl⟩ := List.mem_map.mp ht
    exact ⟨rfl, hfresh.transactions txId hmem⟩
  owned := howned
  regularTransactions reg hreg := by
    obtain ⟨txId, hmem, rfl⟩ := List.mem_map.mp hreg
    exact ⟨_, List.mem_map_of_mem hmem, rfl⟩
  transactionIdentifiers _ h := by cases h
  ledgerEvents _ h := by cases h
  contractActions _ h := by cases h
  createdUtxos _ h := by cases h
  spend _ _ h := by cases h

theorem exists_step_nextBlock (hhead : InI64 (getChainHead db + 1)) (hfresh : FreshIds db txIds) :
    ∃ db' blockId, Step db db' ∧ db'.toTables = (nextBlock db blockId txIds).apply db.toTables := by
  obtain ⟨blockId, hnew⟩ :=
    Infinite.exists_notMem_finset ((db.blocks.map (·.id) ++ db.transactions.map (·.blockId)).toFinset)
  have hblock : ∀ b ∈ db.blocks, b.id ≠ blockId := by
    rintro b hb rfl
    exact hnew (List.mem_toFinset.mpr (List.mem_append_left _ (List.mem_map_of_mem hb)))
  have howned : ∀ t ∈ db.transactions, t.blockId ≠ blockId := by
    rintro t ht rfl
    exact hnew (List.mem_toFinset.mpr (List.mem_append_right _ (List.mem_map_of_mem ht)))
  have hconstraints := constraints_nextBlock hblock hhead hfresh
  exact ⟨⟨_, hconstraints⟩, blockId, .append _ (valid_nextBlock howned hfresh) rfl, rfl⟩

end NextBlock

section NotReached
variable {db : Database} {height : Int}

theorem exists_evolves_of_not_reached (hblocks : db.blocks ≠ []) (hfree : db.HasFreeId) (hwide : InI64 height)
    (h : ¬ db.HasReached height) : ∃ db', Evolves db db' ∧ maxRegularTxId db' height ≠ none := by
  -- On the number of blocks that are still to come.
  obtain ⟨n, hn⟩ : ∃ n : Nat, height ≤ getChainHead db + n := ⟨(height - getChainHead db).toNat, by omega⟩
  induction n generalizing db with
  | zero =>
    obtain ⟨b, hb, hhead⟩ := exists_height_eq_getChainHead hblocks
    exact absurd ⟨b, hb, by omega⟩ h
  | succ n ih =>
    obtain ⟨b, hb, hhead⟩ := exists_height_eq_getChainHead hblocks
    have hlt : getChainHead db < height := by
      by_contra hle
      exact h ⟨b, hb, by omega⟩
    have hnext : InI64 (getChainHead db + 1) := by
      have hhead64 := hhead ▸ db.constraints.blockHeightWide b hb
      unfold InI64 at *
      omega
    by_cases hlast : height = getChainHead db + 1
    · obtain ⟨txId, hfresh⟩ := hfree.exists_freshIds
      obtain ⟨db', blockId, hstep, htables⟩ := exists_step_nextBlock hnext hfresh
      refine ⟨db', .single hstep, fun hnone => ?_⟩
      have hmem : txId ∈ ((placedTransactions db').filter (fun row => row.2.height = height)).map (·.1.1.id) := by
        rw [mem_maxRegularTxId, htables]
        exact ⟨_, List.mem_append_right _ List.mem_cons_self, _, List.mem_append_right _ List.mem_cons_self,
          _, List.mem_append_right _ List.mem_cons_self, rfl, rfl, hlast.symm, rfl⟩
      rw [List.max?_eq_none_iff.mp hnone] at hmem
      cases hmem
    · obtain ⟨db', blockId, hstep, htables⟩ := exists_step_nextBlock hnext (freshIds_nil db)
      have hblocks' : db'.blocks = db.blocks ++ [(nextBlock db blockId []).block] := by
        rw [htables]
        rfl
      have htop : (nextBlock db blockId []).block ∈ db'.blocks := hblocks' ▸ List.mem_append_right _ List.mem_cons_self
      have hfree' : db'.HasFreeId := by
        obtain ⟨txId, hid, htxs, hregs⟩ := hfree
        refine ⟨txId, hid, ?_, ?_⟩
        · simpa [htables, BlockAppend.apply, nextBlock] using htxs
        · simpa [htables, BlockAppend.apply, nextBlock] using hregs
      have h' : ¬ db'.HasReached height := by
        rintro ⟨b', hb', hle⟩
        rw [hblocks'] at hb'
        rcases List.mem_append.mp hb' with hb' | hb'
        · exact h ⟨b', hb', hle⟩
        · obtain rfl := List.mem_singleton.mp hb'
          have hheight : height ≤ getChainHead db + 1 := hle
          omega
      have hn' : height ≤ getChainHead db' + n := by
        have hnew : getChainHead db + 1 ≤ getChainHead db' := height_le_getChainHead htop
        omega
      obtain ⟨db'', hevolves, hmax⟩ := ih (List.ne_nil_of_mem htop) hfree' h' hn'
      exact ⟨db'', hevolves.head hstep, hmax⟩

/-- The maximum of a height is final just when the chain has reached it. -/
theorem final_iff_reached (hblocks : db.blocks ≠ []) (hfree : db.HasFreeId) (hwide : InI64 height) :
    Memo.Final maxRegularTxId Evolves db height ↔ db.HasReached height := by
  refine ⟨fun hfinal => ?_, final_of_reached⟩
  by_contra h
  obtain ⟨db', hevolves, hmax⟩ := exists_evolves_of_not_reached hblocks hfree hwide h
  exact hmax ((hfinal db' hevolves).trans (maxRegularTxId_of_not_reached h))

end NotReached

/-! ## Runs -/

/-- The indexers go on writing a chain that has begun, and have transaction ids left; a height is an `i64`. -/
structure IndexersWrite (m : MaxRegularTxCalls) (turn : Memo.Turn Database Int String) : Prop where
  valid : turn.Valid Evolves m
  blocks : m.world.blocks ≠ []
  freeId : m.world.HasFreeId
  heights : ∀ c ∈ m.calls, InI64 c.key

/-- A maximum is only computed for a height that the chain has reached. -/
def ComputesReached (m : MaxRegularTxCalls) : Memo.Turn Database Int String → Prop
  | .run i => ∀ height, m.calls[i]? = some (.computing height) → m.world.HasReached height
  | .change _ => True
  | .call _ => True
  | .fail _ _ _ => True

theorem IndexersWrite.computesReached_iff {m : MaxRegularTxCalls} {turn : Memo.Turn Database Int String}
    (h : IndexersWrite m turn) : turn.Final maxRegularTxId Evolves m ↔ ComputesReached m turn := by
  cases turn with
  | run i =>
    refine forall_congr' fun height => forall_congr' fun hcall => ?_
    have hwide : InI64 height := h.heights _ (List.mem_of_getElem? hcall)
    exact final_iff_reached h.blocks h.freeId hwide
  | change db => exact Iff.rfl
  | call height => exact Iff.rfl
  | fail i executed error => exact Iff.rfl

/-- **The cache.** Over any run of calls, with their statements and the indexers' writes in any order, from a table that
is right: all that is stored, computed and returned is right for good exactly when maxima are only computed for heights
that the chain has reached; and then what a call returns is the maximum of its block in this and in every later
snapshot. -/
theorem maxRegularTx_right {m : MaxRegularTxCalls} (hright : Memo.Inv maxRegularTxId Evolves m)
    {turns : List (Memo.Turn Database Int String)} (hwrites : Along IndexersWrite maxRegularTxStep m turns) :
    (Always (Memo.Inv maxRegularTxId Evolves) maxRegularTxStep m turns ↔
      Along ComputesReached maxRegularTxStep m turns) ∧
    (Along ComputesReached maxRegularTxStep m turns →
      ∀ c ∈ (turns.foldl maxRegularTxStep m).calls, ∀ maxTxId, maxRegularTxResult c = some (.ok maxTxId) →
        ∀ db', Evolves (turns.foldl maxRegularTxStep m).world db' → maxRegularTxId db' c.key = maxTxId) := by
  have hvalid : Along (fun m turn => turn.Valid Evolves m) maxRegularTxStep m turns :=
    hwrites.imp fun _ _ hturn => hturn.valid
  have hiff := (always_inv_iff (fun _ _ _ => Relation.ReflTransGen.trans) hright hvalid).trans
    (hwrites.congr fun _ _ hturn => hturn.computesReached_iff)
  refine ⟨hiff, fun hreached c hc maxTxId hresult db' hevolves => ?_⟩
  have hcall := (hiff.mpr hreached).last.calls c hc
  cases c with
  | answered height maxTxId' =>
    obtain rfl : maxTxId' = maxTxId := Except.ok.inj (Option.some.inj hresult)
    exact hcall db' hevolves
  | failed stage height error => cases hresult
  | looking height => cases hresult
  | computing height => cases hresult
  | storing height maxTxId' => cases hresult

namespace Sample

/-- A call for height 0, with a block appended before it stores the maximum. -/
def maxRegularTxTurns : List (Memo.Turn Database Int String) :=
  [.call 0, .run 0, .run 0, .change indexedLonger, .run 0]

end Sample

theorem maxRegularTx_right_indexedChain :
    (Sample.maxRegularTxTurns.foldl maxRegularTxStep ⟨Sample.indexedChain, [], []⟩).calls = [.answered 0 (some 1)] ∧
      ∀ db', Evolves Sample.indexedLonger db' → maxRegularTxId db' 0 = some 1 := by
  have hempty : Memo.Inv maxRegularTxId Evolves (⟨Sample.indexedChain, [], []⟩ : MaxRegularTxCalls) :=
    ⟨List.forall_mem_nil _, List.forall_mem_nil _⟩
  have hfree : Sample.indexedChain.HasFreeId := ⟨3, by decide, by decide, by decide⟩
  have hfree' : Sample.indexedLonger.HasFreeId := ⟨3, by decide, by decide, by decide⟩
  have hwrites : Along IndexersWrite maxRegularTxStep ⟨Sample.indexedChain, [], []⟩ Sample.maxRegularTxTurns :=
    ⟨⟨trivial, by decide, hfree, by decide⟩, ⟨trivial, by decide, hfree, by decide⟩,
      ⟨trivial, by decide, hfree, by decide⟩, ⟨Sample.evolves_indexedLonger, by decide, hfree, by decide⟩,
      ⟨trivial, by decide, hfree', by decide⟩, trivial⟩
  have hreached : Along ComputesReached maxRegularTxStep ⟨Sample.indexedChain, [], []⟩ Sample.maxRegularTxTurns := by
    refine ⟨trivial, fun height hcall => ?_, fun height hcall => ?_, trivial, fun height hcall => ?_, trivial⟩
    · cases hcall
    · obtain rfl : 0 = height := Memo.Call.computing.inj (Option.some.inj hcall)
      decide
    · cases hcall
  have hcalls : (Sample.maxRegularTxTurns.foldl maxRegularTxStep ⟨Sample.indexedChain, [], []⟩).calls =
      [.answered 0 (some 1)] := by decide
  have hmem : Memo.Call.answered 0 (some 1) ∈
      (Sample.maxRegularTxTurns.foldl maxRegularTxStep ⟨Sample.indexedChain, [], []⟩).calls :=
    hcalls ▸ List.mem_singleton_self _
  exact ⟨hcalls, (maxRegularTx_right hempty hwrites).2 hreached _ hmem (some 1) rfl⟩

/-- **Too early.** Once a call has computed the maximum of a height that the chain had not reached and has stored it,
with any turns of others between the two, every call for the height that begins returns that there is none, or fails to
look, whatever the indexers have written since. -/
theorem maxRegularTx_askedTooEarly {m : MaxRegularTxCalls} {i : Nat} {height : Int}
    (hcall : m.calls[i]? = some (.computing height)) (hearly : ¬ m.world.HasReached height)
    {between : List (Memo.Turn Database Int String)} (hothers : ∀ turn ∈ between, turn.Spares i)
    (hrow : Memo.lookup (List.foldl maxRegularTxStep m (.run i :: between)).table height = none)
    (turns : List (Memo.Turn Database Int String)) :
    ∀ j c, (List.foldl maxRegularTxStep m (.run i :: between)).calls.length ≤ j →
      (List.foldl maxRegularTxStep m (.run i :: between ++ .run i :: turns)).calls[j]? = some c → c.key = height →
        ∀ result, maxRegularTxResult c = some result →
          result = .ok none ∨ ∃ e, result = .error (maxRegularTxError .look e) := by
  intro j c hj hc hkey result hresult
  have hcomputed : (m.run maxRegularTxId i).calls[i]? = some (.storing height none) := by
    obtain ⟨hi, -⟩ := List.getElem?_eq_some_iff.mp hcall
    rw [Memo.State.run_eq _ hcall, Memo.Call.next, maxRegularTxId_of_not_reached hearly]
    exact List.getElem?_set_self hi
  rw [List.foldl_append] at hc
  -- What the others have done by the time it is stored.
  generalize hm : List.foldl maxRegularTxStep m (.run i :: between) = m' at hj hc hrow
  have hstoring : m'.calls[i]? = some (.storing height none) := by
    rw [← hm, List.foldl_cons]
    exact Memo.getElem?_foldl hothers hcomputed
  have hlookup : Memo.lookup (m'.run maxRegularTxId i).table height = some none := by
    rw [Memo.State.run_eq _ hstoring]
    exact Memo.lookup_insertNew_self hrow
  have hbegun : (m'.run maxRegularTxId i).calls.length ≤ j := by rwa [Memo.State.length_run]
  cases (answers_stored hlookup turns).calls j c hbegun hc with
  | other hother => exact absurd hkey hother
  | looking => cases hresult
  | answered => exact Or.inl (Option.some.inj hresult).symm
  | failed e => exact Or.inr ⟨e, (Option.some.inj hresult).symm⟩

/-- The maximum of height 1 is computed just before its block is there, and stored just after it. -/
theorem maxRegularTx_askedTooEarly_indexedChain :
    maxRegularTxId Sample.indexedLonger 1 = some 2 ∧
      ∀ turns j c, 1 ≤ j → (List.foldl maxRegularTxStep ⟨Sample.indexedChain, [], [.computing 1]⟩
        (.run 0 :: .change Sample.indexedLonger :: .run 0 :: turns)).calls[j]? = some c → c.key = 1 →
          ∀ result, maxRegularTxResult c = some result →
            result = .ok none ∨ ∃ e, result = .error (maxRegularTxError .look e) := by
  refine ⟨by decide, ?_⟩
  let m : MaxRegularTxCalls := ⟨Sample.indexedChain, [], [.computing 1]⟩
  have hcall : m.calls[0]? = some (.computing 1) := rfl
  have hearly : ¬ m.world.HasReached 1 := by decide
  let between : List (Memo.Turn Database Int String) := [.change Sample.indexedLonger]
  have hothers : ∀ turn ∈ between, turn.Spares 0 := List.forall_mem_singleton.mpr trivial
  exact maxRegularTx_askedTooEarly hcall hearly hothers rfl

end NocyWalletFeed
