import NocyWalletFeed.Library.Codec
import Mathlib.Data.List.Basic

/-!
# Bech32 and bech32m

Texts of a human-readable part, a separator `1` and base-32 digits that end with a checksum.

* `toBase32`, `fromBase32` : bytes as base-32 digits, the last one padded with zero bits; `fromBase32_toBase32`;
* `checksum` : the six checksum digits of a variant;
* `encode`, `decode` : bech32m texts, and texts of either variant and either case; `decode_encode`;
* `encode_text`, `decode_text` : what a text consists of.
-/

namespace Bech32m
open Codec

/-! ## Base 32 -/

abbrev Digit := Fin 32

/-- The lowest five bits of a number. -/
def digitOfNat (n : Nat) : Digit := ⟨n % 32, Nat.mod_lt n (by decide)⟩

def digitBits (d : Digit) : List Bool :=
  [d.val.testBit 4, d.val.testBit 3, d.val.testBit 2, d.val.testBit 1, d.val.testBit 0]

def byteBits (b : UInt8) : List Bool :=
  [b.toNat.testBit 7, b.toNat.testBit 6, b.toNat.testBit 5, b.toNat.testBit 4, b.toNat.testBit 3, b.toNat.testBit 2,
    b.toNat.testBit 1, b.toNat.testBit 0]

/-- The number that bits write, the highest first. -/
def ofBits (bits : List Bool) : Nat := bits.foldl (fun n bit => 2 * n + bit.toNat) 0

/-- Groups of five bits, the last one padded. -/
def packDigits : List Bool → List Digit
  | [] => []
  | [a] => [digitOfNat (ofBits [a, false, false, false, false])]
  | [a, b] => [digitOfNat (ofBits [a, b, false, false, false])]
  | [a, b, c] => [digitOfNat (ofBits [a, b, c, false, false])]
  | [a, b, c, d] => [digitOfNat (ofBits [a, b, c, d, false])]
  | a :: b :: c :: d :: e :: bits => digitOfNat (ofBits [a, b, c, d, e]) :: packDigits bits

/-- Groups of eight bits; what is left over must be less than a digit, and zero. -/
def packBytes : List Bool → Option Bytes
  | a :: b :: c :: d :: e :: f :: g :: h :: bits =>
    (packBytes bits).map fun bytes => UInt8.ofNat (ofBits [a, b, c, d, e, f, g, h]) :: bytes
  | bits => if bits.length < 5 ∧ bits.all (! ·) then some [] else none

def toBase32 (bytes : Bytes) : List Digit := packDigits (bytes.flatMap byteBits)

def fromBase32 (digits : List Digit) : Option Bytes := packBytes (digits.flatMap digitBits)

theorem digitBits_ofBits (a b c d e : Bool) : digitBits (digitOfNat (ofBits [a, b, c, d, e])) = [a, b, c, d, e] := by
  revert a b c d e
  decide

theorem ofBits_byteBits (b : UInt8) : UInt8.ofNat (ofBits (byteBits b)) = b := by
  have hall : ∀ n < 256, ofBits (byteBits (UInt8.ofNat n)) = n := by decide +kernel
  have hb := hall b.toNat b.toNat_lt
  rw [UInt8.ofNat_toNat] at hb
  rw [hb, UInt8.ofNat_toNat]

/-- The digits of bits are the bits, and less than a digit of padding. -/
theorem flatMap_packDigits (bits : List Bool) :
    ∃ padding : Nat, padding < 5 ∧ (packDigits bits).flatMap digitBits = bits ++ List.replicate padding false := by
  fun_induction packDigits bits with
  | case1 => exact ⟨0, by omega, rfl⟩
  | case2 a => exact ⟨4, by omega, by rw [List.flatMap_singleton, digitBits_ofBits]; rfl⟩
  | case3 a b => exact ⟨3, by omega, by rw [List.flatMap_singleton, digitBits_ofBits]; rfl⟩
  | case4 a b c => exact ⟨2, by omega, by rw [List.flatMap_singleton, digitBits_ofBits]; rfl⟩
  | case5 a b c d => exact ⟨1, by omega, by rw [List.flatMap_singleton, digitBits_ofBits]; rfl⟩
  | case6 a b c d e bits ih =>
    obtain ⟨padding, hpadding, hbits⟩ := ih
    exact ⟨padding, hpadding, by rw [List.flatMap_cons, digitBits_ofBits, hbits]; rfl⟩

theorem packBytes_padding {padding : Nat} (h : padding < 5) : packBytes (List.replicate padding false) = some [] := by
  obtain rfl | rfl | rfl | rfl | rfl : padding = 0 ∨ padding = 1 ∨ padding = 2 ∨ padding = 3 ∨ padding = 4 := by omega
  all_goals rfl

theorem packBytes_flatMap (bytes : Bytes) {padding : Nat} (h : padding < 5) :
    packBytes (bytes.flatMap byteBits ++ List.replicate padding false) = some bytes := by
  induction bytes with
  | nil => exact packBytes_padding h
  | cons b bytes ih =>
    have hbyte : UInt8.ofNat (ofBits [b.toNat.testBit 7, b.toNat.testBit 6, b.toNat.testBit 5, b.toNat.testBit 4,
      b.toNat.testBit 3, b.toNat.testBit 2, b.toNat.testBit 1, b.toNat.testBit 0]) = b := ofBits_byteBits b
    simp only [List.flatMap_cons, byteBits, List.cons_append, List.nil_append, packBytes]
    rw [hbyte]
    exact congrArg (Option.map (b :: ·)) ih

/-- **Base-32 digits are the bytes they were made of.** -/
theorem fromBase32_toBase32 (bytes : Bytes) : fromBase32 (toBase32 bytes) = some bytes := by
  obtain ⟨padding, hpadding, hbits⟩ := flatMap_packDigits (bytes.flatMap byteBits)
  rw [fromBase32, toBase32, hbits, packBytes_flatMap bytes hpadding]

/-! ## Checksums -/

/-- The two variants; `bech32m` is the one that is written. -/
inductive Variant where
  | bech32
  | bech32m
  deriving DecidableEq, Repr

def Variant.constant : Variant → Nat
  | bech32 => 1
  | bech32m => 0x2bc830a3

def generators : List Nat := [0x3b6a57b2, 0x26508e6d, 0x1ea119fa, 0x3d4233dd, 0x2a1462b3]

def polymodStep (state value : Nat) : Nat :=
  (generators.zipIdx.filter (fun g => (state >>> 25).testBit g.2)).foldl (fun state g => state ^^^ g.1)
    (((state &&& 0x1ffffff) <<< 5) ^^^ value)

/-- The human-readable part as the checksum reads it. -/
def expandHrp (hrp : List Char) : List Nat := hrp.map (·.toNat >>> 5) ++ 0 :: hrp.map (·.toNat &&& 31)

/-- The six checksum digits of a human-readable part and a payload. -/
def checksum (variant : Variant) (hrp : List Char) (data : List Digit) : List Digit :=
  let polymod := (expandHrp hrp ++ data.map Fin.val ++ List.replicate 6 0).foldl polymodStep 1 ^^^ variant.constant
  [25, 20, 15, 10, 5, 0].map fun shift => digitOfNat (polymod >>> shift)

/-! ## Texts -/

def charset : List Char := "qpzry9x8gf2tvdw0s3jn54khce6mua7l".toList

def symbol (d : Digit) : Char := charset.getD d.val 'q'

def digitOf (c : Char) : Option Digit := (List.finRange 32).find? (fun d => symbol d = c)

/-- A human-readable part in lower case, of visible characters. -/
def ValidHrp (hrp : List Char) : Prop :=
  1 ≤ hrp.length ∧ hrp.length ≤ 83 ∧ ∀ c ∈ hrp, 33 ≤ c.toNat ∧ c.toNat ≤ 126 ∧ c.isUpper = false

instance (hrp : List Char) : Decidable (ValidHrp hrp) :=
  @instDecidableAnd _ _ _ (@instDecidableAnd _ _ _ (List.decidableBAll _ hrp))

/-- The bech32m text of a payload. -/
def encode (hrp : List Char) (data : List Digit) : Option (List Char) :=
  if ValidHrp hrp then some (hrp ++ '1' :: (data ++ checksum .bech32m hrp data).map symbol) else none

/-- The variant whose checksum the digits end with. -/
def variantOf (hrp : List Char) (data check : List Digit) : Option Variant :=
  if check = checksum .bech32m hrp data then some .bech32m
  else if check = checksum .bech32 hrp data then some .bech32
  else none

/-- Read a text in lower case: the last `1` is the separator. -/
def decodeLower (text : List Char) : Option (List Char × List Digit × Variant) :=
  match text.reverse.dropWhile (· ≠ '1') with
  | [] => none
  | _ :: hrp =>
    if ValidHrp hrp.reverse then do
      let digits ← (text.reverse.takeWhile (· ≠ '1')).reverse.mapM digitOf
      if digits.length < 6 then none
      else
        let data := digits.take (digits.length - 6)
        let variant ← variantOf hrp.reverse data (digits.drop (digits.length - 6))
        pure (hrp.reverse, data, variant)
    else none

def decode (text : List Char) : Option (List Char × List Digit × Variant) :=
  if text.any Char.isLower ∧ text.any Char.isUpper then none else decodeLower (text.map Char.toLower)

/-! ## Laws -/

theorem digitOf_symbol : ∀ d : Digit, digitOf (symbol d) = some d := by decide

theorem symbol_spec : ∀ d : Digit, symbol d ≠ '1' ∧ 33 ≤ (symbol d).toNat ∧ (symbol d).toNat ≤ 126 ∧
    (symbol d).isUpper = false := by decide

theorem mapM_digitOf_symbol (digits : List Digit) : (digits.map symbol).mapM digitOf = some digits := by
  induction digits with
  | nil => rfl
  | cons d digits ih => rw [List.map_cons, List.mapM_cons, digitOf_symbol, ih]; rfl

theorem toLower_of_not_isUpper {c : Char} (h : c.isUpper = false) : c.toLower = c := dif_neg (of_decide_eq_false h)

theorem split_at_separator (hrp : List Char) (digits : List Digit) :
    (hrp ++ '1' :: digits.map symbol).reverse.takeWhile (· ≠ '1') = (digits.map symbol).reverse ∧
      (hrp ++ '1' :: digits.map symbol).reverse.dropWhile (· ≠ '1') = '1' :: hrp.reverse := by
  have hdigits : ∀ c ∈ (digits.map symbol).reverse, decide (c ≠ '1') = true := by
    intro c hc
    obtain ⟨d, -, rfl⟩ := List.mem_map.mp (List.mem_reverse.mp hc)
    exact decide_eq_true (symbol_spec d).1
  rw [List.reverse_append, List.reverse_cons, List.append_assoc]
  constructor
  · rw [List.takeWhile_append_of_pos hdigits]
    simp
  · rw [List.dropWhile_append_of_pos hdigits]
    simp

/-- What is written: the human-readable part, the separator, and visible characters that are no upper-case letters. -/
theorem encode_eq_some {hrp text : List Char} {data : List Digit} (h : encode hrp data = some text) :
    ValidHrp hrp ∧ text = hrp ++ '1' :: (data ++ checksum .bech32m hrp data).map symbol := by
  unfold encode at h
  split_ifs at h with hvalid
  exact ⟨hvalid, (Option.some.inj h).symm⟩

/-- **Decoding inverts encoding.** -/
theorem decode_encode {hrp text : List Char} {data : List Digit} (h : encode hrp data = some text) :
    decode text = some (hrp, data, .bech32m) := by
  obtain ⟨hvalid, rfl⟩ := encode_eq_some h
  generalize hdigits : data ++ checksum .bech32m hrp data = digits
  have hupper : ∀ c ∈ hrp ++ '1' :: digits.map symbol, c.isUpper = false := by
    intro c hc
    rcases List.mem_append.mp hc with hc | hc
    · exact (hvalid.2.2 c hc).2.2
    · rcases List.mem_cons.mp hc with rfl | hc
      · rfl
      · obtain ⟨d, -, rfl⟩ := List.mem_map.mp hc
        exact (symbol_spec d).2.2.2
  have hlower : (hrp ++ '1' :: digits.map symbol).map Char.toLower = hrp ++ '1' :: digits.map symbol :=
    (List.map_congr_left fun c hc => toLower_of_not_isUpper (hupper c hc)).trans (List.map_id' _)
  have hany : (hrp ++ '1' :: digits.map symbol).any Char.isUpper = false := by
    rw [List.any_eq_false]
    exact fun c hc => by rw [hupper c hc]; exact Bool.false_ne_true
  have hlength : digits.length - 6 = data.length := by
    rw [← hdigits, List.length_append]
    exact Nat.add_sub_cancel data.length 6
  obtain ⟨htake, hdrop⟩ := split_at_separator hrp digits
  rw [decode, if_neg (by simp [hany]), hlower, decodeLower, hdrop, htake]
  dsimp only
  rw [List.reverse_reverse, List.reverse_reverse, if_pos hvalid, mapM_digitOf_symbol]
  show (if digits.length < 6 then none else _) = _
  have hlong : ¬ digits.length < 6 := by
    rw [← hdigits, List.length_append]
    show ¬ data.length + 6 < 6
    omega
  rw [if_neg hlong, hlength, ← hdigits, List.take_left, List.drop_left, variantOf, if_pos rfl]
  rfl

theorem encode_text {hrp text : List Char} {data : List Digit} (h : encode hrp data = some text) :
    (∃ rest, text = hrp ++ '1' :: rest) ∧ ∀ c ∈ text, 33 ≤ c.toNat ∧ c.toNat ≤ 126 := by
  obtain ⟨hvalid, rfl⟩ := encode_eq_some h
  refine ⟨⟨_, rfl⟩, fun c hc => ?_⟩
  rcases List.mem_append.mp hc with hc | hc
  · obtain ⟨hlo, hhi, -⟩ := hvalid.2.2 c hc
    exact ⟨hlo, hhi⟩
  · rcases List.mem_cons.mp hc with rfl | hc
    · decide
    · obtain ⟨d, -, rfl⟩ := List.mem_map.mp hc
      obtain ⟨-, hlo, hhi, -⟩ := symbol_spec d
      exact ⟨hlo, hhi⟩

theorem map_toLower_of_validHrp {hrp : List Char} (h : ValidHrp hrp) : hrp.map Char.toLower = hrp :=
  (List.map_congr_left fun c hc => toLower_of_not_isUpper (h.2.2 c hc).2.2).trans (List.map_id' hrp)

theorem decode_text {hrp text : List Char} {data : List Digit} {variant : Variant}
    (h : decode text = some (hrp, data, variant)) :
    ValidHrp hrp ∧ ∃ rest, text.map Char.toLower = hrp ++ '1' :: rest := by
  unfold decode at h
  split_ifs at h
  unfold decodeLower at h
  have hsplit := List.takeWhile_append_dropWhile (p := (· ≠ '1')) (l := (text.map Char.toLower).reverse)
  cases hdrop : (text.map Char.toLower).reverse.dropWhile (· ≠ '1') with
  | nil =>
    rw [hdrop] at h
    cases h
  | cons separator rest =>
    have hseparator : separator = '1' := by
      have hhead := List.head?_dropWhile_not (fun c => decide (c ≠ '1')) (text.map Char.toLower).reverse
      rw [hdrop] at hhead
      simpa using hhead
    have hhrp : ValidHrp rest.reverse ∧ rest.reverse = hrp := by
      rw [hdrop] at h
      dsimp only at h
      split_ifs at h with hvalid
      obtain ⟨digits, -, h⟩ := Option.bind_eq_some_iff.mp h
      split_ifs at h
      obtain ⟨variant', -, h⟩ := Option.bind_eq_some_iff.mp h
      exact ⟨hvalid, congrArg Prod.fst (Option.some.inj h)⟩
    obtain ⟨hvalid, rfl⟩ := hhrp
    refine ⟨hvalid, ((text.map Char.toLower).reverse.takeWhile (· ≠ '1')).reverse, ?_⟩
    rw [hdrop, hseparator] at hsplit
    have htext := congrArg List.reverse hsplit
    rw [List.reverse_reverse, List.reverse_append, List.reverse_cons, List.append_assoc] at htext
    exact htext.symm

end Bech32m
