import NocyWalletFeed.Windows

/-!
# The wallet-ready height

* `height_le_getChainHead`, `exists_height_eq_getChainHead` : the chain head is the highest block;
* `WalletReady` : the ready height of a session in a snapshot;
* `WalletReady.settled` : every transaction at or below the ready height has been looked at by the wallet indexer.
-/

namespace NocyWalletFeed
open Codec Relational OrderBy

/-! ## The chain head -/

theorem le_foldl_max (l : List Int) (a : Int) : a ≤ l.foldl max a ∧ ∀ x ∈ l, x ≤ l.foldl max a := by
  induction l generalizing a with
  | nil => exact ⟨le_rfl, by simp⟩
  | cons b l ih =>
    obtain ⟨hacc, hmem⟩ := ih (max a b)
    refine ⟨(le_max_left a b).trans hacc, fun x hx => ?_⟩
    rcases List.mem_cons.mp hx with rfl | hx
    · exact (le_max_right a x).trans hacc
    · exact hmem x hx

theorem foldl_max_mem (l : List Int) (a : Int) : l.foldl max a = a ∨ l.foldl max a ∈ l := by
  induction l generalizing a with
  | nil => exact Or.inl rfl
  | cons b l ih =>
    rw [List.foldl_cons]
    rcases ih (max a b) with h | h
    · rcases max_choice a b with hab | hab
      · exact Or.inl (h.trans hab)
      · exact Or.inr (by rw [h, hab]; exact List.mem_cons_self)
    · exact Or.inr (List.mem_cons_of_mem _ h)

theorem height_le_getChainHead {db : Database} {b : BlockRow} (h : b ∈ db.blocks) : b.height ≤ getChainHead db := by
  have hmem : b.height ∈ db.blocks.map (·.height) := List.mem_map_of_mem h
  unfold getChainHead
  cases hblocks : db.blocks.map (·.height) with
  | nil => rw [hblocks] at hmem; cases hmem
  | cons x xs =>
    rw [hblocks] at hmem
    rcases List.mem_cons.mp hmem with heq | htail
    · rw [heq]
      exact (le_foldl_max xs x).1
    · exact (le_foldl_max xs x).2 _ htail

theorem exists_height_eq_getChainHead {db : Database} (h : db.blocks ≠ []) :
    ∃ b ∈ db.blocks, b.height = getChainHead db := by
  unfold getChainHead
  cases hblocks : db.blocks.map (·.height) with
  | nil => exact absurd (List.map_eq_nil_iff.mp hblocks) h
  | cons x xs =>
    have hmem : xs.foldl max x ∈ db.blocks.map (·.height) := by
      rw [hblocks]
      rcases foldl_max_mem xs x with heq | hmem
      · rw [heq]
        exact List.mem_cons_self
      · exact List.mem_cons_of_mem _ hmem
    obtain ⟨b, hb, heq⟩ := List.mem_map.mp hmem
    exact ⟨b, hb, heq⟩

/-! ## The ready height -/

/-- The wallet-ready height a request against a snapshot computes. -/
def WalletReady (db : Database) (sessionId : Bytes) (readyHeight : Int) : Prop :=
  computeWalletReadyHeight db sessionId (getChainHead db) = .ok (some readyHeight)

instance (db : Database) (sessionId : Bytes) (readyHeight : Int) : Decidable (WalletReady db sessionId readyHeight) :=
  inferInstanceAs (Decidable (_ = _))

/-- The last transaction the wallet indexer of a session has looked at, with `NULL` as 0. -/
def lastIndexed (db : Database) (sessionId : Bytes) : Int :=
  ((getWalletInfo db sessionId).bind (·.lastIndexedTransactionId)).getD 0

theorem mem_blockingHeights {db : Database} {last height : Int} :
    height ∈ blockingHeights db last ↔ ∃ txId, InBlock db txId height ∧ last < txId := by
  unfold blockingHeights
  simp only [List.mem_map, List.mem_filter]
  constructor
  · rintro ⟨⟨b, t⟩, ⟨hjoin, hlast⟩, rfl⟩
    obtain ⟨hb, ht, hid⟩ := mem_join.mp hjoin
    refine ⟨t.id, ⟨(t, b), mem_blockTransactions.mpr ?_, rfl⟩, by simpa using hlast⟩
    exact ⟨ht, hb, by simpa using hid, le_rfl, le_rfl⟩
  · rintro ⟨_, ⟨⟨t, b⟩, hmem, rfl⟩, hlast⟩
    obtain ⟨ht, hb, hid, hlo, hhi⟩ := mem_blockTransactions.mp hmem
    exact ⟨(b, t), ⟨mem_join.mpr ⟨hb, ht, by simpa using hid⟩, by simpa using hlast⟩, le_antisymm hhi hlo⟩

namespace WalletReady
variable {db : Database} {sessionId : Bytes} {readyHeight : Int}

/-- The ready height is one below the lowest blocking block, or the chain head. -/
theorem cases (h : WalletReady db sessionId readyHeight) :
    (∃ info, getWalletInfo db sessionId = some info) ∧
      ((blockingHeights db (lastIndexed db sessionId) = [] ∧ readyHeight = getChainHead db) ∨
        (readyHeight + 1 ∈ blockingHeights db (lastIndexed db sessionId) ∧
          ∀ x ∈ blockingHeights db (lastIndexed db sessionId), readyHeight + 1 ≤ x)) := by
  unfold WalletReady computeWalletReadyHeight at h
  cases hinfo : getWalletInfo db sessionId with
  | none => rw [hinfo] at h; cases h
  | some info =>
    have hlast : lastIndexed db sessionId = info.lastIndexedTransactionId.getD 0 := by rw [lastIndexed, hinfo]; rfl
    rw [hinfo] at h
    refine ⟨⟨info, rfl⟩, ?_⟩
    rw [hlast]
    cases hhead : (sortBy id (blockingHeights db (info.lastIndexedTransactionId.getD 0))).head? with
    | none =>
      simp only [hhead] at h
      have hnil := List.head?_eq_none_iff.mp hhead
      rw [sortBy_eq_nil] at hnil
      exact Or.inl ⟨hnil, (Option.some.inj (Except.ok.inj h)).symm⟩
    | some m =>
      simp only [hhead] at h
      split_ifs at h with hm
      · exact absurd (Except.ok.inj h) (by simp)
      · have hready := Option.some.inj (Except.ok.inj h)
        obtain rfl : readyHeight + 1 = m := by omega
        exact Or.inr (head?_sortBy id hhead)

/-- **Settled transactions.** At or below the ready height the wallet indexer has looked at every transaction. -/
theorem settled (h : WalletReady db sessionId readyHeight) {txId height : Int} (hblock : InBlock db txId height)
    (hle : height ≤ readyHeight) : txId ≤ lastIndexed db sessionId := by
  by_contra hlt
  have hmem := mem_blockingHeights.mpr ⟨txId, hblock, not_le.mp hlt⟩
  rcases h.cases.2 with ⟨hnil, -⟩ | ⟨-, hmin⟩
  · rw [hnil] at hmem
    cases hmem
  · have := hmin height hmem
    omega

theorem le_getChainHead (h : WalletReady db sessionId readyHeight) : readyHeight ≤ getChainHead db := by
  rcases h.cases.2 with ⟨-, rfl⟩ | ⟨hmem, -⟩
  · exact le_rfl
  · obtain ⟨txId, ⟨tb, htb, -⟩, -⟩ := mem_blockingHeights.mp hmem
    obtain ⟨-, hb, -, hlo, -⟩ := mem_blockTransactions.mp htb
    have := height_le_getChainHead hb
    omega

end WalletReady

/-! ## A wallet that has seen everything -/

namespace Sample

def sessionId : Bytes := List.replicate SESSION_ID_BYTES 0

def address : Bytes := [1]

def query : FeedQuery := { sessionId := hexEncode sessionId, includeNullifiers := false, includeTxMeta := false }

def args : AssemblyArgs :=
  { localSessionId := sessionId, upstreamSessionId := sessionId, nullifierMode := .disabled, includeTxMeta := false,
    includeRawTx := false, includeIdentifiers := true, includeAllDust := false, identifiersSource := .none }

/-- A block with one-byte hashes. -/
def block (height : Int) (hash parentHash : UInt8) : BlockRow := ⟨height + 1, height, [hash], [parentHash], 0⟩

def transaction (id height : Int) : TransactionRow := ⟨id, height + 1, [], 1, []⟩

/-- A UTXO of the registered address. -/
def utxo (id creatingTransactionId : Int) (spendingTransactionId : Option Int) : UnshieldedUtxoRow :=
  ⟨id, creatingTransactionId, spendingTransactionId, address, [], 0, [], [5], [], false, none⟩

/-- One wallet, with its session and address, that has indexed the transactions up to 100. -/
def tables (blocks : List BlockRow) (transactions : List TransactionRow) (utxos : List UnshieldedUtxoRow) : Tables :=
  { blocks := blocks
    transactions := transactions
    unshieldedUtxos := utxos
    wallets := [⟨1, sessionId, some 100⟩]
    sessionProfile := [⟨sessionId, some sessionId, none, "enabled"⟩]
    sessionUnshieldedAddress := [⟨sessionId, address⟩] }

/-- One block, with a UTXO created in it. -/
def shortChain : Database := ⟨tables [block 0 1 0] [transaction 1 0] [utxo 1 1 none], by decide⟩

/-- The same chain with a second block appended. -/
def longChain : Database :=
  ⟨tables [block 0 1 0, block 1 2 1] [transaction 1 0, transaction 2 1] [utxo 1 1 none], by decide⟩

/-- A chain of two blocks, with a UTXO created in the first and spent in the second. -/
def spentNext : Database :=
  ⟨tables [block 0 1 0, block 1 2 1] [transaction 1 0, transaction 2 1] [utxo 1 1 (some 2)], by decide⟩

/-- A chain of one block, with a UTXO that one transaction creates and spends. -/
def sameTxSpend : Database := ⟨tables [block 0 1 0] [transaction 1 0] [utxo 1 1 (some 1)], by decide⟩

end Sample

end NocyWalletFeed
