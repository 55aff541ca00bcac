import NocyWalletFeed.Evolution
import Mathlib.Order.Bounds.Defs

/-!
# The ready height is exact and monotone

* `Unindexed`, `Processed` : the transactions above a wallet's last indexed one, by height;
* `IsReady` : the greatest processed height on the chain, or none where block 0 is not processed;
* `computeWalletReadyHeight_isReady` : what is computed for a wallet;
* `ReadyStep` : a block is appended at head + 1, or wallets are moved forward;
* `walletReadyHeight_exact_monotone` : the height is exact, and no run of steps makes it smaller.
-/

namespace NocyWalletFeed
open Codec Relational OrderBy Relation

/-! ## Exactness -/

/-- The block at a height holds a transaction above an id. -/
def Unindexed (db : Database) (last height : Int) : Prop := ∃ txId, InBlock db txId height ∧ last < txId

/-- No transaction of a block up to a height is above an id. -/
def Processed (db : Database) (last height : Int) : Prop :=
  ∀ txId height', InBlock db txId height' → height' ≤ height → txId ≤ last

/-- The greatest height on the chain up to which every transaction is at most `last`; none where block 0 holds one that
is not. -/
def IsReady (db : Database) (last : Int) : Option Int → Prop
  | some readyHeight => ¬ Unindexed db last 0 ∧
      IsGreatest {height | height ≤ getChainHead db ∧ Processed db last height} readyHeight
  | none => Unindexed db last 0

/-- No block is below height 0. -/
def HeightsNonneg (db : Database) : Prop := ∀ b ∈ db.blocks, 0 ≤ b.height

instance (db : Database) : Decidable (HeightsNonneg db) := inferInstanceAs (Decidable (∀ b ∈ db.blocks, _))

theorem getChainHead_nonneg {db : Database} (h : HeightsNonneg db) : 0 ≤ getChainHead db := by
  by_cases hblocks : db.blocks = []
  · rw [getChainHead, hblocks]
    exact le_rfl
  · obtain ⟨b, hb, hheight⟩ := exists_height_eq_getChainHead hblocks
    exact hheight ▸ h b hb

theorem getWalletInfo_of_mem {db : Database} {w : WalletRow} (hw : w ∈ db.wallets) :
    getWalletInfo db w.sessionId = some ⟨w.lastIndexedTransactionId⟩ := by
  rw [getWalletInfo, find?_key db.constraints.walletSessions hw rfl]
  rfl

section Exact
variable {db : Database} {last : Int}

theorem processed_of_forall_lt {height : Int} (h : ∀ x ∈ blockingHeights db last, height < x) :
    Processed db last height := by
  intro txId height' hblock hle
  by_contra hlt
  have := h height' (mem_blockingHeights.mpr ⟨txId, hblock, not_le.mp hlt⟩)
  omega

/-- Without a blocking block the chain head is ready. -/
theorem isReady_getChainHead (h : blockingHeights db last = []) : IsReady db last (some (getChainHead db)) := by
  have hmem : ∀ x, x ∉ blockingHeights db last := fun x => by rw [h]; exact List.not_mem_nil
  refine ⟨fun h0 => hmem 0 (mem_blockingHeights.mpr h0), ⟨le_rfl, ?_⟩, fun height hheight => hheight.1⟩
  exact processed_of_forall_lt fun x hx => absurd hx (hmem x)

/-- One below the first blocking block is ready. -/
theorem isReady_pred (hnonneg : HeightsNonneg db) {first : Int} (hfirst : first ∈ blockingHeights db last)
    (hleast : ∀ x ∈ blockingHeights db last, first ≤ x) (hne : first ≠ 0) : IsReady db last (some (first - 1)) := by
  obtain ⟨txId, hblock, hlast⟩ := mem_blockingHeights.mp hfirst
  obtain ⟨b, hb, hheight⟩ := hblock.exists_block
  have hpos : 0 ≤ first := hheight ▸ hnonneg b hb
  have hhead : first ≤ getChainHead db := hheight ▸ height_le_getChainHead hb
  refine ⟨fun h0 => ?_, ⟨by omega, ?_⟩, fun height hheight => ?_⟩
  · have := hleast 0 (mem_blockingHeights.mpr h0)
    omega
  · exact processed_of_forall_lt fun x hx => by
      have := hleast x hx
      omega
  · by_contra hlt
    have := hheight.2 txId first hblock (by omega)
    omega

/-- **The ready height of a wallet is exact.** -/
theorem computeWalletReadyHeight_isReady (hnonneg : HeightsNonneg db) {w : WalletRow} (hw : w ∈ db.wallets) :
    ∃ result, computeWalletReadyHeight db w.sessionId (getChainHead db) = .ok result ∧
      IsReady db (w.lastIndexedTransactionId.getD 0) result := by
  unfold computeWalletReadyHeight
  rw [getWalletInfo_of_mem hw]
  dsimp only
  cases hhead : (sortBy id (blockingHeights db (w.lastIndexedTransactionId.getD 0))).head? with
  | none =>
    have hnil := List.head?_eq_none_iff.mp hhead
    rw [sortBy_eq_nil] at hnil
    exact ⟨_, rfl, isReady_getChainHead hnil⟩
  | some first =>
    obtain ⟨hfirst, hleast⟩ := head?_sortBy id hhead
    dsimp only
    by_cases hzero : first = 0
    · rw [if_pos hzero]
      exact ⟨none, rfl, mem_blockingHeights.mp (hzero ▸ hfirst)⟩
    · rw [if_neg hzero]
      exact ⟨_, rfl, isReady_pred hnonneg hfirst hleast hzero⟩

end Exact

/-! ## Steps -/

/-- One step: a block at head + 1 comes with transactions above every existing one, or the wallets move forward. The
rows of the other tables are arbitrary. -/
inductive ReadyStep (db db' : Database) : Prop where
  | append (block : BlockRow) (transactions : List TransactionRow) (blocks : db'.blocks = db.blocks ++ [block])
      (txs : db'.transactions = db.transactions ++ transactions) (wallets : db'.wallets = db.wallets)
      (height : block.height = getChainHead db + 1)
      (new : ∀ t ∈ transactions, t.blockId = block.id ∧ ∀ t' ∈ db.transactions, t'.id < t.id)
  | index (blocks : db'.blocks = db.blocks) (txs : db'.transactions = db.transactions)
      (wallets : ∀ w ∈ db.wallets, ∃ w' ∈ db'.wallets, w'.sessionId = w.sessionId ∧
        w.lastIndexedTransactionId.getD 0 ≤ w'.lastIndexedTransactionId.getD 0)

theorem Step.readyStep {db db' : Database} (h : Step db db') : ReadyStep db db' := by
  cases h with
  | append a hvalid htables =>
    exact .append a.block a.transactions (congrArg Tables.blocks htables) (congrArg Tables.transactions htables)
      (by simp only [htables, BlockAppend.apply]) hvalid.height hvalid.transactions
  | index x hvalid htables =>
    refine .index (by simp only [htables, WalletIndex.apply]) (by simp only [htables, WalletIndex.apply]) fun w hw => ?_
    have hwallets : db'.wallets = db.wallets.map x.advance := congrArg Tables.wallets htables
    exact ⟨x.advance w, hwallets ▸ List.mem_map_of_mem hw, x.advance_sessionId w, x.le_advance hvalid hw⟩

namespace ReadyStep
variable {db db' : Database} (h : ReadyStep db db')
include h

theorem exists_wallet {w : WalletRow} (hw : w ∈ db.wallets) : ∃ w' ∈ db'.wallets, w'.sessionId = w.sessionId ∧
    w.lastIndexedTransactionId.getD 0 ≤ w'.lastIndexedTransactionId.getD 0 := by
  cases h with
  | append block transactions hblocks htxs hwallets hheight hnew => exact ⟨w, hwallets ▸ hw, rfl, le_rfl⟩
  | index hblocks htxs hwallets => exact hwallets w hw

theorem mem_blocks {b : BlockRow} (hb : b ∈ db'.blocks) : b ∈ db.blocks ∨ b.height = getChainHead db + 1 := by
  cases h with
  | append block transactions hblocks htxs hwallets hheight hnew =>
    rw [hblocks] at hb
    refine (List.mem_append.mp hb).imp_right fun hnewBlock => ?_
    rw [List.mem_singleton.mp hnewBlock, hheight]
  | index hblocks htxs hwallets => exact Or.inl (hblocks ▸ hb)

theorem heightsNonneg (hnonneg : HeightsNonneg db) : HeightsNonneg db' := by
  intro b hb
  have := getChainHead_nonneg hnonneg
  rcases h.mem_blocks hb with hold | hnext
  · exact hnonneg b hold
  · omega

theorem getChainHead_le : getChainHead db ≤ getChainHead db' := by
  cases h with
  | append block transactions hblocks htxs hwallets hheight hnew =>
    have hmem : block ∈ db'.blocks := hblocks ▸ List.mem_append_right _ List.mem_cons_self
    have := height_le_getChainHead hmem
    omega
  | index hblocks htxs hwallets => rw [getChainHead, getChainHead, hblocks]

theorem inBlock {txId height : Int} (hle : height ≤ getChainHead db) (hblock : InBlock db' txId height) :
    InBlock db txId height := by
  obtain ⟨⟨t, b⟩, hmem, hid⟩ := hblock
  obtain ⟨ht, hb, hon, hlo, hhi⟩ := mem_blockTransactions.mp hmem
  have hheight : b.height = height := le_antisymm hhi hlo
  have hold : b ∈ db.blocks := (h.mem_blocks hb).resolve_right (by omega)
  refine ⟨(t, b), mem_blockTransactions.mpr ⟨?_, hold, hon, hlo, hhi⟩, hid⟩
  cases h with
  | append block transactions hblocks htxs hwallets hnext hnew =>
    rw [htxs] at ht
    refine (List.mem_append.mp ht).resolve_right fun hnewTx => ?_
    have hsame : block = b :=
      db'.block_eq_of_id_eq (hblocks ▸ List.mem_append_right _ List.mem_cons_self) hb
        ((hnew t hnewTx).1.symm.trans hon)
    rw [hsame] at hnext
    omega
  | index hblocks htxs hwallets => exact htxs ▸ ht

theorem processed {last last' height : Int} (hlast : last ≤ last') (hle : height ≤ getChainHead db)
    (hprocessed : Processed db last height) : Processed db' last' height :=
  fun txId height' hblock hle' => (hprocessed txId height' (h.inBlock (hle'.trans hle) hblock) hle').trans hlast

end ReadyStep

/-! ## Runs -/

/-- No height below one is ready any more; none is below every height. -/
def ReadyLe (r r' : Option Int) : Prop := ∀ height ∈ r, ∃ height' ∈ r', height ≤ height'

theorem ReadyLe.refl (r : Option Int) : ReadyLe r r := fun height h => ⟨height, h, le_rfl⟩

theorem ReadyLe.trans {r r' r'' : Option Int} (h : ReadyLe r r') (h' : ReadyLe r' r'') : ReadyLe r r'' := by
  intro height hr
  obtain ⟨height', hr', hle⟩ := h height hr
  obtain ⟨height'', hr'', hle'⟩ := h' height' hr'
  exact ⟨height'', hr'', hle.trans hle'⟩

theorem IsReady.nonneg {db : Database} {last readyHeight : Int} (h : IsReady db last (some readyHeight))
    (hnonneg : HeightsNonneg db) : 0 ≤ readyHeight := by
  refine h.2.2 ⟨getChainHead_nonneg hnonneg, fun txId height hblock hle => ?_⟩
  obtain ⟨b, hb, hheight⟩ := hblock.exists_block
  obtain rfl : height = 0 := le_antisymm hle (hheight ▸ hnonneg b hb)
  exact not_lt.mp fun hlt => h.1 ⟨txId, hblock, hlt⟩

theorem ReadyStep.readyLe {db db' : Database} (h : ReadyStep db db') (hnonneg : HeightsNonneg db) {last last' : Int}
    (hlast : last ≤ last') {r r' : Option Int} (hr : IsReady db last r) (hr' : IsReady db' last' r') :
    ReadyLe r r' := by
  rintro height rfl
  have hpos := hr.nonneg hnonneg
  obtain ⟨-, ⟨hhead, hprocessed⟩, -⟩ := hr
  have hkept := h.processed hlast hhead hprocessed
  cases r' with
  | none =>
    obtain ⟨txId, hblock, hlt⟩ := hr'
    exact absurd (hkept txId 0 hblock hpos) (not_le.mpr hlt)
  | some height' => exact ⟨height', rfl, hr'.2.2 ⟨hhead.trans h.getChainHead_le, hkept⟩⟩

theorem readyLe_of_steps {db db' : Database} (h : ReflTransGen ReadyStep db db') (hnonneg : HeightsNonneg db)
    {w : WalletRow} (hw : w ∈ db.wallets) {r : Option Int}
    (hr : computeWalletReadyHeight db w.sessionId (getChainHead db) = .ok r) :
    HeightsNonneg db' ∧ ∃ w' ∈ db'.wallets, w'.sessionId = w.sessionId ∧
      ∃ r', computeWalletReadyHeight db' w.sessionId (getChainHead db') = .ok r' ∧ ReadyLe r r' := by
  induction h with
  | refl => exact ⟨hnonneg, w, hw, rfl, r, hr, .refl r⟩
  | @tail db₁ db₂ _ hstep ih =>
    obtain ⟨hnonneg₁, w₁, hw₁, hsession₁, r₁, hr₁, hle₁⟩ := ih
    obtain ⟨r₁', hcomputed₁, hready₁⟩ := computeWalletReadyHeight_isReady hnonneg₁ hw₁
    obtain rfl : r₁' = r₁ := Except.ok.inj (hcomputed₁.symm.trans (hsession₁ ▸ hr₁))
    obtain ⟨w₂, hw₂, hsession₂, hforward⟩ := hstep.exists_wallet hw₁
    have hnonneg₂ := hstep.heightsNonneg hnonneg₁
    obtain ⟨r₂, hr₂, hready₂⟩ := computeWalletReadyHeight_isReady hnonneg₂ hw₂
    have hsession := hsession₂.trans hsession₁
    exact ⟨hnonneg₂, w₂, hw₂, hsession, r₂, hsession ▸ hr₂,
      hle₁.trans (hstep.readyLe hnonneg₁ hforward hready₁ hready₂)⟩

/-- **Wallet readiness.** What is computed for a wallet is the greatest height on the chain up to which every
transaction is at most its last indexed one, or none where block 0 holds one that is not; and it never decreases along a
run. -/
theorem walletReadyHeight_exact_monotone {db : Database} (hnonneg : HeightsNonneg db) {w : WalletRow}
    (hw : w ∈ db.wallets) :
    (∃ r, computeWalletReadyHeight db w.sessionId (getChainHead db) = .ok r ∧
        IsReady db (w.lastIndexedTransactionId.getD 0) r) ∧
      ∀ db₁ db₂, ReflTransGen ReadyStep db db₁ → ReflTransGen ReadyStep db₁ db₂ →
        ∃ r₁ r₂, computeWalletReadyHeight db₁ w.sessionId (getChainHead db₁) = .ok r₁ ∧
          computeWalletReadyHeight db₂ w.sessionId (getChainHead db₂) = .ok r₂ ∧ ReadyLe r₁ r₂ := by
  obtain ⟨r, hr, hready⟩ := computeWalletReadyHeight_isReady hnonneg hw
  refine ⟨⟨r, hr, hready⟩, fun db₁ db₂ hrun hrun' => ?_⟩
  obtain ⟨hnonneg₁, w₁, hw₁, hsession₁, r₁, hr₁, -⟩ := readyLe_of_steps hrun hnonneg hw hr
  obtain ⟨-, w₂, -, -, r₂, hr₂, hle⟩ := readyLe_of_steps hrun' hnonneg₁ hw₁ (hsession₁.symm ▸ hr₁)
  exact ⟨r₁, r₂, hr₁, hsession₁ ▸ hr₂, hle⟩

/-- A chain of four blocks; a transaction of the third is not indexed yet, while the one of the fourth is. -/
def Sample.blockedChain : Database :=
  ⟨tables [block 0 1 0, block 1 2 1, block 2 3 2, block 3 4 3]
    [transaction 1 0, transaction 50 1, transaction 101 2, transaction 60 3] [], by decide⟩

theorem walletReadyHeight_blockedChain :
    computeWalletReadyHeight Sample.blockedChain Sample.sessionId (getChainHead Sample.blockedChain) = .ok (some 1) ∧
      (∃ r, computeWalletReadyHeight Sample.blockedChain Sample.sessionId (getChainHead Sample.blockedChain) = .ok r ∧
        IsReady Sample.blockedChain 100 r) ∧
      ∀ db₁ db₂, ReflTransGen ReadyStep Sample.blockedChain db₁ → ReflTransGen ReadyStep db₁ db₂ →
        ∃ r₁ r₂, computeWalletReadyHeight db₁ Sample.sessionId (getChainHead db₁) = .ok r₁ ∧
          computeWalletReadyHeight db₂ Sample.sessionId (getChainHead db₂) = .ok r₂ ∧ ReadyLe r₁ r₂ :=
  ⟨by decide +kernel,
    walletReadyHeight_exact_monotone (w := ⟨1, Sample.sessionId, some 100⟩) (by decide) List.mem_cons_self⟩

end NocyWalletFeed
