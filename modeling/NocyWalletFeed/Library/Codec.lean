import Mathlib.Data.Nat.Digits.Defs
import Mathlib.Tactic.Ring

/-!
# Text and numbers of bytes

* `hexEncode`, `hexDecode` : lower-case hex, decoding digits of either case; `hexDecode_hexEncode`,
  `hexEncode_injective`;
* `parseInt` : an optional sign and at least one decimal digit; `parseInt_toString`;
* `bigEndian` : the number bytes write; `bigEndian_append`, `bigEndian_lt`, `bigEndian_take`.
-/

namespace Codec

abbrev Bytes := List UInt8

/-! ## Hex -/

def hexDigit (d : Nat) : Char := if d < 10 then Char.ofNat (48 + d) else Char.ofNat (87 + d)

def hexValue (c : Char) : Option Nat :=
  let n := c.toNat
  if 48 ≤ n ∧ n ≤ 57 then some (n - 48)
  else if 97 ≤ n ∧ n ≤ 102 then some (n - 87)
  else if 65 ≤ n ∧ n ≤ 70 then some (n - 55)
  else none

def hexChars (bytes : Bytes) : List Char :=
  bytes.flatMap (fun b => [hexDigit (b.toNat / 16), hexDigit (b.toNat % 16)])

def hexEncode (bytes : Bytes) : String := String.ofList (hexChars bytes)

def hexBytes : List Char → Option Bytes
  | [] => some []
  | [_] => none
  | hi :: lo :: rest => do
    let h ← hexValue hi
    let l ← hexValue lo
    let bytes ← hexBytes rest
    pure (UInt8.ofNat (16 * h + l) :: bytes)

/-- `none` on an odd number of digits or a character that is no hex digit. -/
def hexDecode (text : String) : Option Bytes := hexBytes text.toList

theorem hexValue_hexDigit : ∀ d < 16, hexValue (hexDigit d) = some d := by decide

theorem hexBytes_hexChars (bytes : Bytes) : hexBytes (hexChars bytes) = some bytes := by
  induction bytes with
  | nil => rfl
  | cons b bytes ih =>
    have hb := b.toNat_lt
    have hhi := hexValue_hexDigit (b.toNat / 16) (by omega)
    have hlo := hexValue_hexDigit (b.toNat % 16) (by omega)
    have hjoin : UInt8.ofNat (16 * (b.toNat / 16) + b.toNat % 16) = b := by
      rw [Nat.div_add_mod]
      exact UInt8.ofNat_toNat
    show hexBytes (hexDigit _ :: hexDigit _ :: hexChars bytes) = _
    rw [hexBytes, hhi, hlo, ih]
    show some (UInt8.ofNat (16 * (b.toNat / 16) + b.toNat % 16) :: bytes) = some (b :: bytes)
    rw [hjoin]

theorem hexDecode_hexEncode (bytes : Bytes) : hexDecode (hexEncode bytes) = some bytes := by
  rw [hexDecode, hexEncode, String.toList_ofList, hexBytes_hexChars]

theorem hexEncode_injective : Function.Injective hexEncode := by
  intro a b h
  have ha := hexDecode_hexEncode a
  rw [h, hexDecode_hexEncode] at ha
  exact (Option.some.inj ha).symm

/-! ## Decimal integers -/

/-- One decimal digit or more. -/
def parseNat (digits : List Char) : Option Nat :=
  if digits ≠ [] ∧ digits.all Char.isDigit then some (Nat.ofDigitChars 10 digits 0) else none

/-- An optional sign, then `parseNat`. -/
def parseInt : List Char → Option Int
  | '-' :: digits => (parseNat digits).map (fun n => -(n : Int))
  | '+' :: digits => (parseNat digits).map (fun n => (n : Int))
  | digits => (parseNat digits).map (fun n => (n : Int))

theorem parseNat_toDigits (n : Nat) : parseNat (Nat.toDigits 10 n) = some n := by
  have hdigits : (Nat.toDigits 10 n).all Char.isDigit = true :=
    List.all_eq_true.mpr (fun c hc => Nat.isDigit_of_mem_toDigits (by decide) (by decide) hc)
  rw [parseNat, if_pos ⟨Nat.toDigits_ne_nil, hdigits⟩, Nat.ofDigitChars_ten_toDigits]

theorem parseInt_of_isDigit {c : Char} (hc : c.isDigit = true) (cs : List Char) :
    parseInt (c :: cs) = (parseNat (c :: cs)).map (fun n => (n : Int)) := by
  have hm : c ≠ '-' := by rintro rfl; exact absurd hc (by decide)
  have hp : c ≠ '+' := by rintro rfl; exact absurd hc (by decide)
  unfold parseInt
  split
  · rename_i h; exact absurd (List.cons.inj h).1 hm
  · rename_i h; exact absurd (List.cons.inj h).1 hp
  · rfl

theorem toList_toString_natCast (n : Nat) : (toString (n : Int)).toList = Nat.toDigits 10 n := Nat.toList_repr

theorem toList_toString_negSucc (n : Nat) :
    (toString (Int.negSucc n)).toList = '-' :: Nat.toDigits 10 (n + 1) := by
  show ("-" ++ (n + 1).repr).toList = _
  rw [String.toList_append, Nat.toList_repr]
  rfl

theorem parseInt_toString (n : Int) : parseInt (toString n).toList = some n := by
  cases n with
  | ofNat n =>
    rw [Int.ofNat_eq_natCast, toList_toString_natCast]
    cases h : Nat.toDigits 10 n with
    | nil => exact absurd h Nat.toDigits_ne_nil
    | cons c cs =>
      have hc : c.isDigit = true :=
        Nat.isDigit_of_mem_toDigits (b := 10) (n := n) (by decide) (by decide) (by rw [h]; exact List.mem_cons_self)
      rw [parseInt_of_isDigit hc, ← h, parseNat_toDigits]
      rfl
  | negSucc n =>
    rw [toList_toString_negSucc, parseInt, parseNat_toDigits]
    rfl

theorem toString_int_injective {a b : Int} (h : toString a = toString b) : a = b := by
  have ha := parseInt_toString a
  rw [h, parseInt_toString b] at ha
  exact (Option.some.inj ha).symm

theorem isDigit_or_minus_of_mem_toString {n : Int} {c : Char} (hc : c ∈ (toString n).toList) :
    c.isDigit = true ∨ c = '-' := by
  cases n with
  | ofNat n =>
    rw [Int.ofNat_eq_natCast, toList_toString_natCast] at hc
    exact Or.inl (Nat.isDigit_of_mem_toDigits (by decide) (by decide) hc)
  | negSucc n =>
    rw [toList_toString_negSucc] at hc
    rcases List.mem_cons.mp hc with rfl | hc
    · exact Or.inr rfl
    · exact Or.inl (Nat.isDigit_of_mem_toDigits (by decide) (by decide) hc)

/-! ## Big-endian numbers -/

/-- The number that bytes write in base 256, the most significant first. -/
def bigEndian (bytes : Bytes) : Nat := Nat.ofDigits 256 (bytes.reverse.map UInt8.toNat)

@[simp] theorem bigEndian_nil : bigEndian [] = 0 := rfl

theorem bigEndian_append (front back : Bytes) :
    bigEndian (front ++ back) = bigEndian front * 256 ^ back.length + bigEndian back := by
  rw [bigEndian, List.reverse_append, List.map_append, Nat.ofDigits_append, List.length_map, List.length_reverse]
  rw [bigEndian, bigEndian]
  ring

theorem bigEndian_lt (bytes : Bytes) : bigEndian bytes < 256 ^ bytes.length := by
  have hdigits : ∀ d ∈ bytes.reverse.map UInt8.toNat, d < 256 := by
    intro d hd
    obtain ⟨b, -, rfl⟩ := List.mem_map.mp hd
    exact b.toNat_lt
  have hlt := Nat.ofDigits_lt_base_pow_length (by decide) hdigits
  rwa [List.length_map, List.length_reverse] at hlt

theorem bigEndian_zeros_append (zeros : Nat) (bytes : Bytes) :
    bigEndian (List.replicate zeros 0 ++ bytes) = bigEndian bytes := by
  have hzero : bigEndian (List.replicate zeros 0) = 0 := by
    rw [bigEndian, List.reverse_replicate, List.map_replicate]
    exact Nat.ofDigits_replicate_zero
  rw [bigEndian_append, hzero, Nat.zero_mul, Nat.zero_add]

/-- The first bytes are what is left of the number without the digits of the others. -/
theorem bigEndian_take (size : Nat) (bytes : Bytes) :
    bigEndian (bytes.take size) = bigEndian bytes / 256 ^ (bytes.length - size) := by
  have hsplit := bigEndian_append (bytes.take size) (bytes.drop size)
  have hlt := bigEndian_lt (bytes.drop size)
  rw [List.take_append_drop, List.length_drop] at hsplit
  rw [List.length_drop] at hlt
  rw [hsplit, Nat.mul_comm, Nat.mul_add_div (Nat.pow_pos (by decide)), Nat.div_eq_of_lt hlt, Nat.add_zero]

theorem foldl_eq_bigEndian_add (bytes : Bytes) (read : Nat) :
    bytes.foldl (fun value b => value * 256 + b.toNat) read = read * 256 ^ bytes.length + bigEndian bytes := by
  induction bytes generalizing read with
  | nil => simp
  | cons b bytes ih =>
    have hcons : bigEndian (b :: bytes) = b.toNat * 256 ^ bytes.length + bigEndian bytes := by
      have happend := bigEndian_append [b] bytes
      simpa [bigEndian] using happend
    rw [List.foldl_cons, ih, hcons, List.length_cons, pow_succ]
    ring

theorem foldl_eq_bigEndian (bytes : Bytes) :
    bytes.foldl (fun value b => value * 256 + b.toNat) 0 = bigEndian bytes := by
  rw [foldl_eq_bigEndian_add, Nat.zero_mul, Nat.zero_add]

end Codec
