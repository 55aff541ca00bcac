import NocyWalletFeed.Assembly

/-!
# Amounts

Fees and values are `BYTEA` columns with a big-endian number. `decode_u128_value`, which both routes have a copy of,
pads up to sixteen bytes on the left, and of more bytes it keeps the first sixteen.

* `decodeU128Value_eq_div` : what it reads, for any number of bytes;
* `ReadsBigEndian` : the amounts of some bytes are the number they write, also after zero bytes;
* `readsBigEndian_iff` : exactly when.
-/

namespace NocyWalletFeed
open Codec

/-! ## What is read -/

theorem decodeU128Value_eq_div (bytes : Bytes) :
    decodeU128Value bytes = bigEndian bytes / 256 ^ (bytes.length - 16) := by
  rw [decodeU128Value, foldl_eq_bigEndian, bigEndian_take]

theorem decodeFeeString_some (bytes : Bytes) : decodeFeeString (some bytes) = toString (decodeU128Value bytes) := by
  cases bytes with
  | nil => rfl
  | cons b bytes => rfl

theorem decodeFeeOption_some (bytes : Bytes) :
    decodeFeeOption (some bytes) = some (toString (decodeU128Value bytes)) := by
  cases bytes with
  | nil => rfl
  | cons b bytes => rfl

/-- The value of a UTXO event. -/
def FeedItem.utxoValue : FeedItem → Option String
  | .unshieldedUtxo data => some data.value
  | _ => none

/-! ## Big-endian values -/

/-- The value, the fees and the value of a UTXO event are the number that the bytes write, and zero bytes before them do
not change it. -/
structure ReadsBigEndian (bytes : Bytes) (zeros : Nat) : Prop where
  value : decodeU128Value bytes = bigEndian bytes
  feeString : decodeFeeString (some bytes) = toString (bigEndian bytes)
  feeOption : decodeFeeOption (some bytes) = some (toString (bigEndian bytes))
  utxoValue : ∀ (w : WindowRows) (height : Int),
    List.Forall₂ (fun event s => event.valueBytes = bytes →
        s.item.utxoValue = some (toString (bigEndian bytes)))
      (w.unshieldedEvents.filter (fun event => event.blockHeight = height)) (w.unshieldedItems height)
  prefixed : decodeU128Value (List.replicate zeros 0 ++ bytes) = decodeU128Value bytes

theorem readsBigEndian_of_eq {bytes : Bytes} {zeros : Nat} (h : decodeU128Value bytes = bigEndian bytes)
    (hprefixed : decodeU128Value (List.replicate zeros 0 ++ bytes) = decodeU128Value bytes) :
    ReadsBigEndian bytes zeros where
  value := h
  feeString := by rw [decodeFeeString_some, h]
  feeOption := by rw [decodeFeeOption_some, h]
  utxoValue w height := by
    unfold WindowRows.unshieldedItems
    rw [List.forall₂_map_right_iff, List.forall₂_same]
    intro event _ hbytes
    rw [← h, ← hbytes]
    rfl
  prefixed := hprefixed

/-- A number is its own quotient by a power of 256 only where there is no digit to drop, or nothing at all. -/
theorem div_pow_eq_self_iff {n k : Nat} : n / 256 ^ k = n ↔ k = 0 ∨ n = 0 := by
  cases k with
  | zero => simp
  | succ k =>
    have hpow : 1 < 256 ^ (k + 1) := Nat.one_lt_pow (Nat.succ_ne_zero k) (by decide)
    constructor
    · intro h
      by_contra hn
      have hlt := Nat.div_lt_self (Nat.pos_of_ne_zero fun hzero => hn (Or.inr hzero)) hpow
      omega
    · rintro (hk | rfl)
      · exact absurd hk (Nat.succ_ne_zero k)
      · exact Nat.zero_div _

/-- **Amounts are big-endian values exactly** where the bytes, with the zero bytes before them, are at most sixteen, or
write zero. -/
theorem readsBigEndian_iff (bytes : Bytes) (zeros : Nat) :
    ReadsBigEndian bytes zeros ↔ bytes.length + zeros ≤ 16 ∨ bigEndian bytes = 0 := by
  have hvalue : decodeU128Value bytes = bigEndian bytes ↔ bytes.length ≤ 16 ∨ bigEndian bytes = 0 := by
    rw [decodeU128Value_eq_div, div_pow_eq_self_iff, Nat.sub_eq_zero_iff_le]
  have hprefixed : decodeU128Value (List.replicate zeros 0 ++ bytes) = bigEndian bytes ↔
      bytes.length + zeros ≤ 16 ∨ bigEndian bytes = 0 := by
    rw [decodeU128Value_eq_div, bigEndian_zeros_append, div_pow_eq_self_iff, Nat.sub_eq_zero_iff_le,
      List.length_append, List.length_replicate, Nat.add_comm zeros]
  constructor
  · intro h
    exact hprefixed.mp (h.prefixed.trans h.value)
  · intro h
    have hshort : decodeU128Value bytes = bigEndian bytes := hvalue.mpr (h.imp_left (by omega))
    exact readsBigEndian_of_eq hshort ((hprefixed.mpr h).trans hshort.symm)

/-- Sixteen zero bytes and a one write one, and are read as zero. -/
theorem not_readsBigEndian_seventeenBytes : bigEndian (List.replicate 16 0 ++ [1]) < 2 ^ 128 ∧
    decodeU128Value (List.replicate 16 0 ++ [1]) = 0 ∧ decodeU128Value [1] = 1 ∧
    ¬ ReadsBigEndian (List.replicate 16 0 ++ [1]) 0 ∧ ¬ ReadsBigEndian [1] 16 :=
  ⟨by decide, by decide, by decide, fun h => absurd h.value (by decide), fun h => absurd h.prefixed (by decide)⟩

end NocyWalletFeed
