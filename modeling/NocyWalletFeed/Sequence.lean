import Mathlib.Data.List.Basic
import Mathlib.Data.Prod.Lex
import NocyWalletFeed.Library.Codec

/-!
# Sequence cursors (`sequence.rs`)

* `SequenceKey` : the ordering key of a feed item, compared field by field;
* `SequenceKey.toCursor`, `parseCursor` : the text form `blockHeight:txId:phase:ordinal`;
* `parseCursor_toCursor` : a rendered key parses back to itself;
* `parseCursor_eq_ok_iff` : what is accepted, and as which key; `cursorCodec`.
-/

namespace NocyWalletFeed
open Codec

/-! ## The key -/

def InI64 (n : Int) : Prop := -2 ^ 63 ≤ n ∧ n < 2 ^ 63

instance (n : Int) : Decidable (InI64 n) := inferInstanceAs (Decidable (_ ∧ _))

/-- Ordering key for feed items. -/
structure SequenceKey where
  blockHeight : Int
  txId : Int
  phase : Int
  ordinal : Int
  deriving DecidableEq, Repr

namespace SequenceKey

/-- The fields in the order the derived `Ord` compares them. -/
def fields (k : SequenceKey) : Int ×ₗ Int ×ₗ Int ×ₗ Int :=
  toLex (k.blockHeight, toLex (k.txId, toLex (k.phase, k.ordinal)))

theorem fields_injective : Function.Injective fields := by
  rintro ⟨h, t, p, o⟩ ⟨h', t', p', o'⟩ heq
  simpa [fields] using heq

instance : LinearOrder SequenceKey := LinearOrder.lift' fields fields_injective

theorem lt_iff {k k' : SequenceKey} : k < k' ↔ k.blockHeight < k'.blockHeight ∨
    k.blockHeight = k'.blockHeight ∧ (k.txId < k'.txId ∨
      k.txId = k'.txId ∧ (k.phase < k'.phase ∨ k.phase = k'.phase ∧ k.ordinal < k'.ordinal)) := by
  show fields k < fields k' ↔ _
  simp [fields, Prod.Lex.toLex_lt_toLex]

theorem le_iff {k k' : SequenceKey} : k ≤ k' ↔ k.blockHeight < k'.blockHeight ∨
    k.blockHeight = k'.blockHeight ∧ (k.txId < k'.txId ∨
      k.txId = k'.txId ∧ (k.phase < k'.phase ∨ k.phase = k'.phase ∧ k.ordinal ≤ k'.ordinal)) := by
  show fields k ≤ fields k' ↔ _
  simp [fields, Prod.Lex.toLex_le_toLex]

/-- Every field fits the `i64` it has in the program. -/
structure Wide (k : SequenceKey) : Prop where
  blockHeight : InI64 k.blockHeight
  txId : InI64 k.txId
  phase : InI64 k.phase
  ordinal : InI64 k.ordinal

/-- Render to cursor string format `blockHeight:txId:phase:ordinal`. -/
def toCursor (k : SequenceKey) : String :=
  toString k.blockHeight ++ ":" ++ toString k.txId ++ ":" ++ toString k.phase ++ ":" ++ toString k.ordinal

end SequenceKey

/-! ## Parsing -/

/-- `str::parse::<i64>`: a decimal integer that fits. -/
def parseI64 (digits : List Char) : Option Int := (parseInt digits).filter (fun n => decide (InI64 n))

def cursorField (name : String) (part : List Char) : Except String Int :=
  match parseI64 part with
  | some n => .ok n
  | none => .error ("cursor " ++ name ++ " must be a valid integer")

/-- Parse a cursor string into a sequence key. -/
def parseCursor (cursor : String) : Except String SequenceKey :=
  match cursor.toList.splitOn ':' with
  | [height, tx, ph, ord] => do
    let blockHeight ← cursorField "blockHeight" height
    let txId ← cursorField "txId" tx
    let phase ← cursorField "phase" ph
    let ordinal ← cursorField "ordinal" ord
    pure ⟨blockHeight, txId, phase, ordinal⟩
  | _ => .error "cursor must have 4 colon-separated parts"

theorem parseI64_toString {n : Int} (h : InI64 n) : parseI64 (toString n).toList = some n := by
  rw [parseI64, parseInt_toString]
  simp [h]

theorem cursorField_toString {n : Int} (h : InI64 n) (name : String) :
    cursorField name (toString n).toList = .ok n := by
  rw [cursorField, parseI64_toString h]

theorem colon_notMem_toString (n : Int) : ':' ∉ (toString n).toList := by
  intro h
  rcases isDigit_or_minus_of_mem_toString h with h | h
  · exact absurd h (by decide)
  · exact absurd h (by decide)

theorem splitOn_toString (n : Int) (rest : List Char) :
    ((toString n).toList ++ ':' :: rest).splitOn ':' = (toString n).toList :: rest.splitOn ':' := by
  rw [List.splitOn_eq_splitOnP, List.splitOn_eq_splitOnP,
    List.splitOnP_append_cons_of_forall_mem _ _ (by decide)]
  intro c hc
  exact beq_eq_false_iff_ne.mpr (fun h => colon_notMem_toString n (h ▸ hc))

theorem splitOn_toCursor (k : SequenceKey) : k.toCursor.toList.splitOn ':' =
    [(toString k.blockHeight).toList, (toString k.txId).toList, (toString k.phase).toList,
      (toString k.ordinal).toList] := by
  have htext : k.toCursor.toList = (toString k.blockHeight).toList ++ ':' :: ((toString k.txId).toList ++
      ':' :: ((toString k.phase).toList ++ ':' :: (toString k.ordinal).toList)) := by
    simp [SequenceKey.toCursor, String.toList_append]
  rw [htext, splitOn_toString, splitOn_toString, splitOn_toString,
    List.splitOn_eq_singleton (colon_notMem_toString _)]

theorem toString_toList_injective {m n : Int} (h : (toString m).toList = (toString n).toList) : m = n := by
  refine Option.some.inj ?_
  rw [← parseInt_toString m, h, parseInt_toString]

theorem SequenceKey.toCursor_injective : Function.Injective SequenceKey.toCursor := by
  intro k k' h
  have hparts := splitOn_toCursor k
  rw [h, splitOn_toCursor k'] at hparts
  injection hparts with hheight hparts
  injection hparts with htx hparts
  injection hparts with hphase hparts
  injection hparts with hordinal _
  rw [SequenceKey.mk.injEq]
  exact ⟨(toString_toList_injective hheight).symm, (toString_toList_injective htx).symm,
    (toString_toList_injective hphase).symm, (toString_toList_injective hordinal).symm⟩

/-- **A rendered key parses back to itself.** -/
theorem parseCursor_toCursor {k : SequenceKey} (h : k.Wide) : parseCursor k.toCursor = .ok k := by
  rw [parseCursor, splitOn_toCursor]
  simp only [cursorField_toString h.blockHeight, cursorField_toString h.txId, cursorField_toString h.phase,
    cursorField_toString h.ordinal]
  rfl

example : parseCursor "100:12345:-1:0" = .ok ⟨100, 12345, -1, 0⟩ := by decide

/-! ## What is accepted -/

theorem bind_ok {α β ε : Type} {x : Except ε α} {f : α → Except ε β} {b : β} (h : x >>= f = .ok b) :
    ∃ a, x = .ok a ∧ f a = .ok b := by
  cases x with
  | error e => cases h
  | ok a => exact ⟨a, rfl, h⟩

theorem inI64_of_parseI64 {digits : List Char} {n : Int} (h : parseI64 digits = some n) : InI64 n :=
  of_decide_eq_true (Option.filter_eq_some_iff.mp h).2

theorem cursorField_eq_ok_iff {name : String} {part : List Char} {n : Int} :
    cursorField name part = .ok n ↔ parseI64 part = some n := by
  rw [cursorField]
  cases parseI64 part with
  | none => simp
  | some m => simp

theorem parseCursor_eq_ok_iff {cursor : String} {k : SequenceKey} : parseCursor cursor = .ok k ↔
    ∃ height tx ph ord, cursor.toList.splitOn ':' = [height, tx, ph, ord] ∧ parseI64 height = some k.blockHeight ∧
      parseI64 tx = some k.txId ∧ parseI64 ph = some k.phase ∧ parseI64 ord = some k.ordinal := by
  constructor
  · intro h
    unfold parseCursor at h
    split at h
    · rename_i height tx ph ord hparts
      obtain ⟨blockHeight, hheight, h⟩ := bind_ok h
      obtain ⟨txId, htx, h⟩ := bind_ok h
      obtain ⟨phase, hphase, h⟩ := bind_ok h
      obtain ⟨ordinal, hordinal, h⟩ := bind_ok h
      obtain rfl := Except.ok.inj h
      exact ⟨height, tx, ph, ord, hparts, cursorField_eq_ok_iff.mp hheight, cursorField_eq_ok_iff.mp htx,
        cursorField_eq_ok_iff.mp hphase, cursorField_eq_ok_iff.mp hordinal⟩
    · cases h
  · rintro ⟨height, tx, ph, ord, hparts, hheight, htx, hphase, hordinal⟩
    rw [parseCursor, hparts]
    simp only [cursorField_eq_ok_iff.mpr hheight, cursorField_eq_ok_iff.mpr htx, cursorField_eq_ok_iff.mpr hphase,
      cursorField_eq_ok_iff.mpr hordinal]
    rfl

theorem wide_of_parseCursor {cursor : String} {k : SequenceKey} (h : parseCursor cursor = .ok k) : k.Wide := by
  obtain ⟨_, _, _, _, -, hheight, htx, hphase, hordinal⟩ := parseCursor_eq_ok_iff.mp h
  exact ⟨inI64_of_parseI64 hheight, inI64_of_parseI64 htx, inI64_of_parseI64 hphase, inI64_of_parseI64 hordinal⟩

theorem exists_parseCursor_iff {cursor : String} : (∃ k, parseCursor cursor = .ok k) ↔
    (cursor.toList.splitOn ':').length = 4 ∧ ∀ part ∈ cursor.toList.splitOn ':', (parseI64 part).isSome := by
  simp only [parseCursor_eq_ok_iff]
  constructor
  · rintro ⟨k, height, tx, ph, ord, hparts, hheight, htx, hphase, hordinal⟩
    rw [hparts]
    simp [hheight, htx, hphase, hordinal]
  · rintro ⟨hlength, hparts⟩
    obtain ⟨height, tx, ph, ord, heq⟩ := List.length_eq_four.mp hlength
    rw [heq] at hparts
    simp only [List.forall_mem_cons, Option.isSome_iff_exists] at hparts
    obtain ⟨⟨blockHeight, hheight⟩, ⟨txId, htx⟩, ⟨phase, hphase⟩, ⟨ordinal, hordinal⟩, -⟩ := hparts
    exact ⟨⟨blockHeight, txId, phase, ordinal⟩, height, tx, ph, ord, heq, hheight, htx, hphase, hordinal⟩

/-- **Cursor codec.** A key of 64-bit fields survives its text, so that different keys have different texts; what is
accepted is four integers; and what is accepted renders to a text of the same key. -/
theorem cursorCodec :
    (∀ k : SequenceKey, k.Wide → parseCursor k.toCursor = .ok k) ∧
    (∀ k k' : SequenceKey, k.Wide → k'.Wide → k ≠ k' → k.toCursor ≠ k'.toCursor) ∧
    (∀ cursor, (∃ k, parseCursor cursor = .ok k) ↔
      (cursor.toList.splitOn ':').length = 4 ∧ ∀ part ∈ cursor.toList.splitOn ':', (parseI64 part).isSome) ∧
    ∀ cursor k, parseCursor cursor = .ok k → parseCursor k.toCursor = .ok k :=
  ⟨fun _ hk => parseCursor_toCursor hk, fun _ _ _ _ hne heq => hne (SequenceKey.toCursor_injective heq),
    fun _ => exists_parseCursor_iff, fun _ _ h => parseCursor_toCursor (wide_of_parseCursor h)⟩

/-- Both extremes survive. -/
theorem cursorCodec_extremes :
    parseCursor (SequenceKey.toCursor ⟨-2 ^ 63, 2 ^ 63 - 1, -1, 0⟩) = .ok ⟨-2 ^ 63, 2 ^ 63 - 1, -1, 0⟩ :=
  cursorCodec.1 _ ⟨by decide, by decide, by decide, by decide⟩

end NocyWalletFeed
