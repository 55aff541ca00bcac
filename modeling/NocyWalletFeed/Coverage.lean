import NocyWalletFeed.CacheLookup

/-!
# What `covers_range` accepts

The check that opens the cache path, over any list of updates.

* `chainEndI64`, `coversRangeI64` : the check with its `i64` arithmetic checked; `coversRangeI64_eq` : below `i64::MAX`
  nothing overflows;
* `chainEnd_eq_some_iff`, `coversRange_iff_tiles` : it accepts the tilings of the range;
* `coversRange_exact` : those are the lists whose indices, one update after the other, are the range.
-/

namespace NocyWalletFeed
open Tiling

/-! ## Arithmetic -/

/-- The loop of `covers_range`; the outer `none` is an overflow, the inner one a `return false`. -/
def chainEndI64 (expectedStart : Int) : List CachedMerkleUpdate → Option (Option Int)
  | [] => some (some expectedStart)
  | update :: updates =>
    if update.startIndex ≠ expectedStart then some none
    else if update.endIndex < update.startIndex then some none
    else
      match checkedI64 (update.endIndex + 1) with
      | none => none
      | some next => chainEndI64 next updates

/-- `covers_range` with its arithmetic checked; `none` is an overflow. -/
def coversRangeI64 (updates : List CachedMerkleUpdate) (fromIndex toIndex : Int) : Option Bool :=
  if fromIndex ≥ toIndex then some true
  else
    match updates with
    | [] => some false
    | first :: _ =>
      match checkedI64 (toIndex - 1) with
      | none => none
      | some requiredEnd =>
        if first.startIndex ≠ fromIndex then some false
        else
          match chainEndI64 fromIndex updates with
          | none => none
          | some none => some false
          | some (some expectedStart) => (checkedI64 (requiredEnd + 1)).map fun after => expectedStart = after

/-- An index of an update that is below `i64::MAX`. -/
def BelowMax (index : Int) : Prop := -2 ^ 63 ≤ index ∧ index < 2 ^ 63 - 1

instance (index : Int) : Decidable (BelowMax index) := inferInstanceAs (Decidable (_ ∧ _))

section Arithmetic
variable {updates : List CachedMerkleUpdate}

theorem chainEndI64_eq (h : ∀ update ∈ updates, BelowMax update.endIndex) (expectedStart : Int) :
    chainEndI64 expectedStart updates = some (chainEnd expectedStart updates) := by
  induction updates generalizing expectedStart with
  | nil => rfl
  | cons update updates ih =>
    obtain ⟨hupdate, hrest⟩ := List.forall_mem_cons.mp h
    have hnext : InI64 (update.endIndex + 1) := by
      unfold BelowMax at hupdate
      exact ⟨by omega, by omega⟩
    rw [chainEndI64, chainEnd, checkedI64_of_inI64 hnext]
    dsimp only
    rw [ih hrest]
    split_ifs <;> rfl

/-- Below `i64::MAX` no operation of the check overflows. -/
theorem coversRangeI64_eq (h : ∀ update ∈ updates, BelowMax update.endIndex) (fromIndex toIndex : Int64) :
    coversRangeI64 updates fromIndex.toInt toIndex.toInt =
      some (coversRange updates fromIndex.toInt toIndex.toInt) := by
  unfold coversRangeI64 coversRange
  split_ifs with hge
  · rfl
  · have hfrom := fromIndex.le_toInt
    have hto := toIndex.toInt_lt
    cases updates with
    | nil => rfl
    | cons first updates =>
      have hend : InI64 (toIndex.toInt - 1) := ⟨by omega, by omega⟩
      have hafter : InI64 (toIndex.toInt - 1 + 1) := ⟨by omega, by omega⟩
      dsimp only
      rw [checkedI64_of_inI64 hend, chainEndI64_eq h]
      dsimp only
      rw [checkedI64_of_inI64 hafter]
      split_ifs with hstart
      · rfl
      · cases chainEnd fromIndex.toInt (first :: updates) <;> rfl

end Arithmetic

/-! ## Tilings -/

section Tilings
variable {updates : List CachedMerkleUpdate} {fromIndex toIndex expectedStart : Int}

theorem chainEnd_eq_some_iff : chainEnd fromIndex updates = some expectedStart ↔
    RowTiles fromIndex updates ∧ rowsEnd fromIndex updates = expectedStart := by
  constructor
  · intro h
    induction updates generalizing fromIndex with
    | nil => exact ⟨tiles_nil _, Option.some.inj h⟩
    | cons update updates ih =>
      rw [chainEnd] at h
      split_ifs at h with hstart hrange
      obtain ⟨htiles, hend⟩ := ih h
      exact ⟨tiles_cons.mpr ⟨⟨not_not.mp hstart, not_lt.mp hrange⟩, htiles⟩, hend⟩
  · rintro ⟨htiles, rfl⟩
    exact chainEnd_of_tiles htiles

theorem coversRange_iff_tiles (hlt : fromIndex < toIndex) :
    coversRange updates fromIndex toIndex = true ↔
      RowTiles fromIndex updates ∧ rowsEnd fromIndex updates = toIndex := by
  unfold coversRange
  rw [if_neg (not_le.mpr hlt), ← chainEnd_eq_some_iff]
  cases updates with
  | nil =>
    constructor
    · exact fun h => Bool.noConfusion h
    · exact fun h => absurd (Option.some.inj h) hlt.ne
  | cons first updates =>
    dsimp only
    by_cases hstart : first.startIndex = fromIndex
    · rw [if_neg (not_not.mpr hstart)]
      cases hchain : chainEnd fromIndex (first :: updates) with
      | none => simp
      | some expectedStart => simp
    · rw [if_pos hstart, chainEnd, if_pos hstart]
      simp

end Tilings

/-- **`covers_range` accepts exactly the range.** Of updates with indices below `i64::MAX` the check computes, without
an overflow, whether there is any, none is inverted, and their indices, one update after the other, are
`fromIndex, …, toIndex - 1`. -/
theorem coversRange_exact (updates : List CachedMerkleUpdate) (fromIndex toIndex : Int64)
    (hlt : fromIndex.toInt < toIndex.toInt)
    (hindices : ∀ update ∈ updates, BelowMax update.startIndex ∧ BelowMax update.endIndex) :
    ∃ covers, coversRangeI64 updates fromIndex.toInt toIndex.toInt = some covers ∧
      coversRange updates fromIndex.toInt toIndex.toInt = covers ∧
      (covers = true ↔ updates ≠ [] ∧ (∀ update ∈ updates, update.startIndex ≤ update.endIndex) ∧
        updates.flatMap (fun update => Int.range update.startIndex (update.endIndex + 1)) =
          Int.range fromIndex.toInt toIndex.toInt) := by
  refine ⟨_, coversRangeI64_eq (fun update hupdate => (hindices update hupdate).2) fromIndex toIndex, rfl, ?_⟩
  rw [coversRange_iff_tiles hlt, tiles_iff_flatMap_range hlt.le]
  constructor
  · rintro ⟨hranges, hcover⟩
    refine ⟨?_, hranges, hcover⟩
    rintro rfl
    rw [List.flatMap_nil, IntRange.range_cons hlt] at hcover
    cases hcover
  · exact fun h => h.2

namespace Sample

def threeUpdates : List CachedMerkleUpdate := [⟨0, 9, [], 2⟩, ⟨10, 19, [], 2⟩, ⟨20, 29, [], 2⟩]

end Sample

theorem coversRange_threeUpdates :
    ∃ covers, coversRangeI64 Sample.threeUpdates 0 30 = some covers ∧ covers = true := by
  obtain ⟨covers, heq, -, hiff⟩ := coversRange_exact Sample.threeUpdates 0 30 (by decide) (by decide)
  exact ⟨covers, heq, hiff.mpr (by decide)⟩

end NocyWalletFeed
