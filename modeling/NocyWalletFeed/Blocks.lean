import NocyWalletFeed.Assembly
import NocyWalletFeed.Library.IntRange

/-!
# Blocks by height

* `Database.blockAt` : the block at a height;
* `getBlocksInRange_eq` : a range query is the blocks of its heights, in order;
* `Linked`, `validateBlocks_eq_none_iff` : what a batch without a defect looks like;
* `validateBlocks_eq_some_iff` : the reset event belongs to the first defect;
* `Database.ChainUpTo` : contiguous, hash-linked blocks up to a height; they pass validation (`validateBlocks_chain`).
-/

namespace NocyWalletFeed
open Codec OrderBy

/-! ## Blocks of a snapshot -/

def Database.blockAt (db : Database) (height : Int) : Option BlockRow := db.blocks.find? (fun b => b.height = height)

namespace Database
variable {db : Database}

theorem blockAt_eq_some_iff {height : Int} {b : BlockRow} :
    db.blockAt height = some b ↔ b ∈ db.blocks ∧ b.height = height := by
  constructor
  · intro h
    exact ⟨List.mem_of_find?_eq_some h, by simpa using List.find?_some h⟩
  · rintro ⟨hb, hheight⟩
    exact Relational.find?_key db.constraints.blockHeights hb hheight

theorem height_of_blockAt {height : Int} {b : BlockRow} (h : db.blockAt height = some b) : b.height = height :=
  (blockAt_eq_some_iff.mp h).2

end Database

@[simp] theorem BlockRow.toMeta_height (b : BlockRow) : b.toMeta.height = b.height := rfl
@[simp] theorem BlockRow.toMeta_hash (b : BlockRow) : b.toMeta.hash = hexEncode b.hash := rfl
@[simp] theorem BlockRow.toMeta_parentHash (b : BlockRow) : b.toMeta.parentHash = hexEncode b.parentHash := rfl

theorem getBlockHashAtHeight_eq (db : Database) (height : Int) :
    getBlockHashAtHeight db height = (db.blockAt height).map (fun b => hexEncode b.hash) := rfl

def Database.metaAt (db : Database) (height : Int) : Option BlockMeta := (db.blockAt height).map BlockRow.toMeta

theorem Database.metaAt_height {db : Database} {height : Int} {m : BlockMeta} (h : db.metaAt height = some m) :
    m.height = height := by
  obtain ⟨b, hb, rfl⟩ := Option.map_eq_some_iff.mp h
  exact Database.height_of_blockAt hb

/-- **A range query returns the blocks of its heights, in ascending order.** -/
theorem getBlocksInRange_eq (db : Database) (fromHeight toHeight : Int) :
    getBlocksInRange db fromHeight toHeight = (Int.range fromHeight (toHeight + 1)).filterMap db.metaAt := by
  have hrows : sortBy (·.height) (db.blocks.filter (fun b => b.height ≥ fromHeight ∧ b.height ≤ toHeight)) =
      (Int.range fromHeight (toHeight + 1)).filterMap db.blockAt := by
    refine eq_of_sorted_of_mem_iff (·.height) (pairwise_lt_sortBy _ ?_) ?_ fun b => ?_
    · exact db.constraints.blockHeights.sublist (List.filter_sublist.map _)
    · refine List.Pairwise.filterMap _ ?_ (IntRange.pairwise_range _ _)
      intro h h' hlt b hb b' hb'
      rw [Database.height_of_blockAt hb, Database.height_of_blockAt hb']
      exact hlt
    · simp only [mem_sortBy, List.mem_filter, List.mem_filterMap, Int.mem_range_iff, Database.blockAt_eq_some_iff]
      constructor
      · rintro ⟨hb, hrange⟩
        have hrange : fromHeight ≤ b.height ∧ b.height ≤ toHeight := by simpa using hrange
        exact ⟨b.height, ⟨hrange.1, by omega⟩, hb, rfl⟩
      · rintro ⟨h, ⟨hlo, hhi⟩, hb, rfl⟩
        exact ⟨hb, by simp; omega⟩
  rw [getBlocksInRange, hrows, List.map_filterMap]
  rfl

theorem mem_getBlocksInRange {db : Database} {fromHeight toHeight : Int} {m : BlockMeta} :
    m ∈ getBlocksInRange db fromHeight toHeight ↔
      fromHeight ≤ m.height ∧ m.height ≤ toHeight ∧ db.metaAt m.height = some m := by
  rw [getBlocksInRange_eq, List.mem_filterMap]
  constructor
  · rintro ⟨h, hmem, hm⟩
    obtain rfl := Database.metaAt_height hm
    have := Int.mem_range_iff.mp hmem
    exact ⟨this.1, by omega, hm⟩
  · rintro ⟨hlo, hhi, hm⟩
    exact ⟨m.height, Int.mem_range_iff.mpr ⟨hlo, by omega⟩, hm⟩

section Range
variable {db : Database} {fromHeight toHeight : Int}

theorem getBlocksInRange_of_none (h : db.blockAt fromHeight = none) :
    getBlocksInRange db fromHeight toHeight = getBlocksInRange db (fromHeight + 1) toHeight := by
  rw [getBlocksInRange_eq, getBlocksInRange_eq]
  by_cases hle : fromHeight ≤ toHeight
  · rw [IntRange.range_cons (by omega : fromHeight < toHeight + 1),
      List.filterMap_cons_none (by rw [Database.metaAt, h]; rfl)]
  · rw [IntRange.range_eq_nil (by omega), IntRange.range_eq_nil (by omega)]

theorem getBlocksInRange_of_some {b : BlockRow} (h : db.blockAt fromHeight = some b) (hle : fromHeight ≤ toHeight) :
    getBlocksInRange db fromHeight toHeight = b.toMeta :: getBlocksInRange db (fromHeight + 1) toHeight := by
  rw [getBlocksInRange_eq, getBlocksInRange_eq, IntRange.range_cons (by omega : fromHeight < toHeight + 1),
    List.filterMap_cons_some (by rw [Database.metaAt, h]; rfl)]

end Range

/-! ## Validation -/

/-- Consecutive heights from `expectedHeight`, each block naming the hash of the one before as its parent. -/
def Linked (expectedHeight : Int) (prevHash : Option String) : List BlockMeta → Prop
  | [] => True
  | block :: blocks =>
    block.height = expectedHeight ∧ (∀ hash ∈ prevHash, block.parentHash = hash) ∧
      Linked (expectedHeight + 1) (some block.hash) blocks

/-- The hash the next block is checked against after some blocks have passed. -/
def lastHash (prevHash : Option String) (blocks : List BlockMeta) : Option String :=
  match blocks.getLast? with
  | none => prevHash
  | some block => some block.hash

@[simp] theorem lastHash_nil (prevHash : Option String) : lastHash prevHash [] = prevHash := rfl

theorem lastHash_cons (prevHash : Option String) (block : BlockMeta) (blocks : List BlockMeta) :
    lastHash prevHash (block :: blocks) = lastHash (some block.hash) blocks := by
  cases blocks with
  | nil => rfl
  | cons b bs =>
    rw [lastHash, lastHash, List.getLast?_cons_cons, List.getLast?_eq_some_getLast (List.cons_ne_nil b bs)]

/-- A block that is not at the expected height, or does not name the expected parent. -/
def Defective (expectedHeight : Int) (prevHash : Option String) (block : BlockMeta) : Prop :=
  block.height ≠ expectedHeight ∨ ∃ hash ∈ prevHash, block.parentHash ≠ hash

def defectEvent (expectedHeight : Int) (block : BlockMeta) : ControlEvent :=
  if block.height ≠ expectedHeight then
    .resetRequiredAt (max (expectedHeight - 1) 0)
      ("Block gap detected: expected height " ++ toString expectedHeight ++ ", got " ++ toString block.height)
  else
    .resetRequiredAt (max (block.height - 1) 0)
      ("Reorg detected at height " ++ toString block.height ++ ": parent hash mismatch")

theorem any_parentHash_iff {prevHash : Option String} {block : BlockMeta} :
    prevHash.any (fun expectedParent => block.parentHash ≠ expectedParent) = true ↔
      ∃ hash ∈ prevHash, block.parentHash ≠ hash := by
  cases prevHash <;> simp

theorem validateBlocks_cons_defective {expectedHeight : Int} {prevHash : Option String} {block : BlockMeta}
    (blocks : List BlockMeta) (h : Defective expectedHeight prevHash block) :
    validateBlocks expectedHeight prevHash (block :: blocks) = some (defectEvent expectedHeight block) := by
  by_cases hheight : block.height = expectedHeight
  · have hany := any_parentHash_iff.mpr (h.resolve_left (not_not.mpr hheight))
    rw [validateBlocks, if_neg (not_not.mpr hheight), if_pos hany, defectEvent, if_neg (not_not.mpr hheight)]
  · rw [validateBlocks, if_pos hheight, defectEvent, if_pos hheight]

theorem validateBlocks_cons_ok {expectedHeight : Int} {prevHash : Option String} {block : BlockMeta}
    (blocks : List BlockMeta) (h : ¬ Defective expectedHeight prevHash block) :
    validateBlocks expectedHeight prevHash (block :: blocks) =
      validateBlocks (expectedHeight + 1) (some block.hash) blocks := by
  have hheight : ¬ block.height ≠ expectedHeight := fun hne => h (Or.inl hne)
  have hany : ¬ prevHash.any (fun expectedParent => block.parentHash ≠ expectedParent) = true :=
    fun hany => h (Or.inr (any_parentHash_iff.mp hany))
  rw [validateBlocks, if_neg hheight, if_neg hany]

theorem not_defective_iff {expectedHeight : Int} {prevHash : Option String} {block : BlockMeta} :
    ¬ Defective expectedHeight prevHash block ↔
      block.height = expectedHeight ∧ ∀ hash ∈ prevHash, block.parentHash = hash := by
  simp [Defective]

/-- **Validation passes exactly on linked batches.** -/
theorem validateBlocks_eq_none_iff {expectedHeight : Int} {prevHash : Option String} {blocks : List BlockMeta} :
    validateBlocks expectedHeight prevHash blocks = none ↔ Linked expectedHeight prevHash blocks := by
  induction blocks generalizing expectedHeight prevHash with
  | nil => simp [validateBlocks, Linked]
  | cons block blocks ih =>
    by_cases h : Defective expectedHeight prevHash block
    · rw [validateBlocks_cons_defective blocks h, Linked, ← and_assoc, ← not_defective_iff]
      simp [h]
    · rw [validateBlocks_cons_ok blocks h, ih, Linked, ← and_assoc, ← not_defective_iff]
      simp [h]

/-- **A reset reports the first defective block**, after a linked part that may be empty. -/
theorem validateBlocks_eq_some_iff {expectedHeight : Int} {prevHash : Option String} {blocks : List BlockMeta}
    {event : ControlEvent} :
    validateBlocks expectedHeight prevHash blocks = some event ↔
      ∃ pre block post, blocks = pre ++ block :: post ∧ Linked expectedHeight prevHash pre ∧
        Defective (expectedHeight + pre.length) (lastHash prevHash pre) block ∧
        event = defectEvent (expectedHeight + pre.length) block := by
  induction blocks generalizing expectedHeight prevHash with
  | nil => simp [validateBlocks]
  | cons block blocks ih =>
    by_cases h : Defective expectedHeight prevHash block
    · rw [validateBlocks_cons_defective blocks h, Option.some.injEq]
      constructor
      · rintro rfl
        exact ⟨[], block, blocks, rfl, trivial, by simpa using h, by simp⟩
      · rintro ⟨pre, block', post, heq, hlinked, -, rfl⟩
        cases pre with
        | nil =>
          obtain ⟨rfl, rfl⟩ := List.cons.inj heq
          simp
        | cons b pre =>
          obtain ⟨rfl, rfl⟩ := List.cons.inj heq
          exact absurd h (not_defective_iff.mpr ⟨hlinked.1, hlinked.2.1⟩)
    · rw [validateBlocks_cons_ok blocks h, ih]
      constructor
      · rintro ⟨pre, block', post, rfl, hlinked, hdef, rfl⟩
        have hlen : expectedHeight + 1 + (pre.length : Int) = expectedHeight + ((block :: pre).length : Int) := by
          rw [List.length_cons]
          omega
        obtain ⟨hheight, hparent⟩ := not_defective_iff.mp h
        refine ⟨block :: pre, block', post, rfl, ⟨hheight, hparent, hlinked⟩, ?_, by rw [hlen]⟩
        rwa [lastHash_cons, ← hlen]
      · rintro ⟨pre, block', post, heq, hlinked, hdef, rfl⟩
        cases pre with
        | nil =>
          obtain ⟨rfl, rfl⟩ := List.cons.inj heq
          exact absurd (by simpa using hdef) h
        | cons b pre =>
          obtain ⟨rfl, rfl⟩ := List.cons.inj heq
          have hlen : expectedHeight + ((block :: pre).length : Int) = expectedHeight + 1 + (pre.length : Int) := by
            rw [List.length_cons]
            omega
          rw [lastHash_cons, hlen] at hdef
          exact ⟨pre, block', post, rfl, hlinked.2.2, hdef, by rw [hlen]⟩

theorem Linked.map_height {expectedHeight : Int} {prevHash : Option String} {blocks : List BlockMeta}
    (h : Linked expectedHeight prevHash blocks) :
    blocks.map (·.height) = Int.range expectedHeight (expectedHeight + blocks.length) := by
  induction blocks generalizing expectedHeight prevHash with
  | nil => simp [IntRange.range_eq_nil]
  | cons block blocks ih =>
    have hlen : expectedHeight + ((block :: blocks).length : Int) = expectedHeight + 1 + blocks.length := by
      rw [List.length_cons]
      omega
    rw [List.map_cons, ih h.2.2, h.1, hlen, IntRange.range_cons (a := expectedHeight) (by omega)]

/-! ## Chains -/

/-- Contiguous, hash-linked blocks from height 0 up to `top`. -/
structure Database.ChainUpTo (db : Database) (top : Int) : Prop where
  present : ∀ height, 0 ≤ height → height ≤ top → ∃ b, db.blockAt height = some b
  linked : ∀ height b b', 0 ≤ height → height < top → db.blockAt height = some b →
    db.blockAt (height + 1) = some b' → b'.parentHash = b.hash

instance (db : Database) (top : Int) : Decidable (db.ChainUpTo top) :=
  decidable_of_iff ((∀ height, 0 ≤ height → height ≤ top → (db.blockAt height).isSome = true) ∧
      ∀ height, 0 ≤ height → height < top → ∀ b ∈ db.blockAt height, ∀ b' ∈ db.blockAt (height + 1),
        b'.parentHash = b.hash)
    ⟨fun ⟨h, h'⟩ => ⟨fun height h₁ h₂ => Option.isSome_iff_exists.mp (h height h₁ h₂),
        fun height b b' h₁ h₂ hb hb' => h' height h₁ h₂ b hb b' hb'⟩,
      fun h => ⟨fun height h₁ h₂ => Option.isSome_iff_exists.mpr (h.present height h₁ h₂),
        fun height h₁ h₂ b hb b' hb' => h.linked height b b' h₁ h₂ hb hb'⟩⟩

namespace Database.ChainUpTo
variable {db : Database} {top : Int}

theorem mono (h : db.ChainUpTo top) {top' : Int} (hle : top' ≤ top) : db.ChainUpTo top' where
  present height hlo hhi := h.present height hlo (by omega)
  linked height b b' hlo hhi := h.linked height b b' hlo (by omega)

theorem getBlocksInRange_cons (h : db.ChainUpTo top) {fromHeight toHeight : Int} (hlo : 0 ≤ fromHeight)
    (hle : fromHeight ≤ toHeight) (hhi : toHeight ≤ top) : ∃ b, db.blockAt fromHeight = some b ∧
      getBlocksInRange db fromHeight toHeight = b.toMeta :: getBlocksInRange db (fromHeight + 1) toHeight := by
  obtain ⟨b, hb⟩ := h.present fromHeight hlo (by omega)
  exact ⟨b, hb, getBlocksInRange_of_some hb hle⟩

theorem linked_getBlocksInRange (h : db.ChainUpTo top) {fromHeight toHeight : Int} (hlo : 0 ≤ fromHeight)
    (hhi : toHeight ≤ top) {prevHash : Option String}
    (hprev : ∀ b hash, db.blockAt fromHeight = some b → hash ∈ prevHash → hexEncode b.parentHash = hash) :
    Linked fromHeight prevHash (getBlocksInRange db fromHeight toHeight) := by
  obtain ⟨n, hn⟩ : ∃ n : Nat, (toHeight + 1 - fromHeight).toNat = n := ⟨_, rfl⟩
  induction n generalizing fromHeight prevHash with
  | zero =>
    rw [getBlocksInRange_eq, IntRange.range_eq_nil (by omega)]
    trivial
  | succ n ih =>
    obtain ⟨b, hb, hcons⟩ := h.getBlocksInRange_cons hlo (by omega : fromHeight ≤ toHeight) hhi
    rw [hcons]
    refine ⟨Database.height_of_blockAt hb, fun hash hhash => hprev b hash hb hhash, ?_⟩
    by_cases hend : fromHeight = toHeight
    · rw [getBlocksInRange_eq, IntRange.range_eq_nil (by omega)]
      trivial
    · refine ih (by omega) ?_ (by omega)
      intro b' hash hb' hhash
      rw [h.linked fromHeight b b' hlo (by omega) hb hb']
      simpa using hhash

end Database.ChainUpTo

/-- **A chain passes validation**, with the boundary hash read from the same snapshot. -/
theorem validateBlocks_chain {db : Database} {top : Int} (h : db.ChainUpTo top) {fromHeight toHeight : Int}
    (hlo : 0 ≤ fromHeight) (hhi : toHeight ≤ top) (hle : fromHeight ≤ toHeight) :
    validateBlocks fromHeight (if fromHeight > 0 then getBlockHashAtHeight db (fromHeight - 1) else none)
      (getBlocksInRange db fromHeight toHeight) = none := by
  refine validateBlocks_eq_none_iff.mpr (h.linked_getBlocksInRange hlo hhi fun b hash hb hhash => ?_)
  split_ifs at hhash with hpos
  · rw [getBlockHashAtHeight_eq] at hhash
    obtain ⟨b', hb', rfl⟩ := Option.map_eq_some_iff.mp hhash
    rw [h.linked (fromHeight - 1) b' b (by omega) (by omega) hb' (by rwa [sub_add_cancel])]
  · cases hhash

end NocyWalletFeed
