import Mathlib.Data.List.Forall2
import NocyWalletFeed.Library.Codec

/-!
# JSON texts

`Json.Value` are JSON values whose numbers are integers and whose members keep their order.

* `Value.render` : the compact text, control characters escaped; `readValue`, `parse` : its reader;
* `parse_render`, `render_injective` : a rendered value reads back to itself;
* `printable_render` : a rendered value has no control characters.
-/

namespace Json
open Codec

inductive Value where
  | null
  | bool (value : Bool)
  | num (value : Int)
  | str (value : String)
  | arr (items : List Value)
  | obj (members : List (String × Value))

/-! ## Strings -/

def quote : Char := '\"'
def backslash : Char := '\\'

/-- The control characters with an escape of two characters, and its letter. -/
def escapeLetter : Nat → Option Char
  | 8 => some 'b'
  | 9 => some 't'
  | 10 => some 'n'
  | 12 => some 'f'
  | 13 => some 'r'
  | _ => none

/-- What an escape of two characters stands for. -/
def unescapeLetter : Char → Option Nat
  | 'b' => some 8
  | 't' => some 9
  | 'n' => some 10
  | 'f' => some 12
  | 'r' => some 13
  | _ => none

def escape (c : Char) : List Char :=
  if c = quote ∨ c = backslash then [backslash, c]
  else
    match escapeLetter c.toNat with
    | some letter => [backslash, letter]
    | none =>
      if c.toNat < 32 then [backslash, 'u', '0', '0', hexDigit (c.toNat / 16), hexDigit (c.toNat % 16)] else [c]

def renderString (text : String) : List Char := quote :: (text.toList.flatMap escape ++ [quote])

/-- Four hex digits, after the `u` of an escape. -/
def readHex : List Char → Option (Char × List Char)
  | h₃ :: h₂ :: h₁ :: h₀ :: rest => do
    let d₃ ← hexValue h₃
    let d₂ ← hexValue h₂
    let d₁ ← hexValue h₁
    let d₀ ← hexValue h₀
    some (Char.ofNat (((d₃ * 16 + d₂) * 16 + d₁) * 16 + d₀), rest)
  | _ => none

def readEscape : List Char → Option (Char × List Char)
  | [] => none
  | c :: rest =>
    if c = quote ∨ c = backslash then some (c, rest)
    else if c = 'u' then readHex rest
    else (unescapeLetter c).map fun n => (Char.ofNat n, rest)

def readChar : List Char → Option (Char × List Char)
  | [] => none
  | c :: rest =>
    if c = backslash then readEscape rest
    else if c.toNat < 32 then none
    else some (c, rest)

/-- The characters up to the closing quote, and what follows it. -/
def readChars : Nat → List Char → Option (List Char × List Char)
  | 0, _ => none
  | _ + 1, [] => none
  | fuel + 1, c :: rest =>
    if c = quote then some ([], rest)
    else do
      let (char, rest) ← readChar (c :: rest)
      let (chars, rest) ← readChars fuel rest
      some (char :: chars, rest)

def readString (fuel : Nat) : List Char → Option (String × List Char)
  | [] => none
  | c :: rest =>
    if c = quote then (readChars fuel rest).map fun read => (String.ofList read.1, read.2) else none

theorem unescapeLetter_of_escapeLetter {n : Nat} {letter : Char} (h : escapeLetter n = some letter) :
    unescapeLetter letter = some n ∧ letter ≠ quote ∧ letter ≠ backslash ∧ letter ≠ 'u' := by
  unfold escapeLetter at h
  split at h <;> cases h <;> decide

theorem readHex_control {c : Char} (hc : c.toNat < 32) (rest : List Char) :
    readHex ('0' :: '0' :: hexDigit (c.toNat / 16) :: hexDigit (c.toNat % 16) :: rest) = some (c, rest) := by
  have hzero : hexValue '0' = some 0 := by decide
  have hhi := hexValue_hexDigit (c.toNat / 16) (by omega)
  have hlo := hexValue_hexDigit (c.toNat % 16) (by omega)
  have hjoin : ((0 * 16 + 0) * 16 + c.toNat / 16) * 16 + c.toNat % 16 = c.toNat := by omega
  rw [readHex, hzero, hhi, hlo]
  show some (Char.ofNat (((0 * 16 + 0) * 16 + c.toNat / 16) * 16 + c.toNat % 16), rest) = _
  rw [hjoin, Char.ofNat_toNat]

/-- **Characters.** An escaped character reads back to itself. -/
theorem readChar_escape (c : Char) (rest : List Char) : readChar (escape c ++ rest) = some (c, rest) := by
  unfold escape
  by_cases hself : c = quote ∨ c = backslash
  · rw [if_pos hself]
    show readChar (backslash :: c :: rest) = _
    rw [readChar, if_pos rfl, readEscape, if_pos hself]
  rw [if_neg hself]
  cases hletter : escapeLetter c.toNat with
  | some letter =>
    obtain ⟨hback, hquote, hslash, hu⟩ := unescapeLetter_of_escapeLetter hletter
    show readChar (backslash :: letter :: rest) = _
    rw [readChar, if_pos rfl, readEscape, if_neg (not_or.mpr ⟨hquote, hslash⟩), if_neg hu, hback]
    show some (Char.ofNat c.toNat, rest) = _
    rw [Char.ofNat_toNat]
  | none =>
    by_cases hc : c.toNat < 32
    · simp only [if_pos hc]
      show readChar (backslash :: 'u' :: '0' :: '0' :: hexDigit _ :: hexDigit _ :: rest) = _
      rw [readChar, if_pos rfl, readEscape, if_neg (by decide), if_pos rfl, readHex_control hc]
    · simp only [if_neg hc]
      show readChar (c :: rest) = _
      rw [readChar, if_neg fun h => hself (Or.inr h), if_neg hc]

theorem escape_eq_cons (c : Char) : ∃ first rest, escape c = first :: rest ∧ first ≠ quote := by
  unfold escape
  by_cases hself : c = quote ∨ c = backslash
  · rw [if_pos hself]
    exact ⟨_, _, rfl, by decide⟩
  rw [if_neg hself]
  cases escapeLetter c.toNat with
  | some letter => exact ⟨_, _, rfl, by decide⟩
  | none =>
    by_cases hc : c.toNat < 32
    · simp only [if_pos hc]
      exact ⟨_, _, rfl, by decide⟩
    · simp only [if_neg hc]
      exact ⟨_, _, rfl, fun h => hself (Or.inl h)⟩

theorem readChars_escape (chars rest : List Char) {fuel : Nat} (hfuel : chars.length < fuel) :
    readChars fuel (chars.flatMap escape ++ quote :: rest) = some (chars, rest) := by
  induction chars generalizing fuel with
  | nil =>
    obtain ⟨fuel, rfl⟩ := Nat.exists_eq_add_one_of_ne_zero (Nat.pos_iff_ne_zero.mp hfuel)
    show readChars (fuel + 1) (quote :: rest) = _
    rw [readChars, if_pos rfl]
  | cons c chars ih =>
    obtain ⟨fuel, rfl⟩ := Nat.exists_eq_add_one_of_ne_zero (Nat.ne_zero_of_lt hfuel)
    obtain ⟨first, others, hescape, hquote⟩ := escape_eq_cons c
    have hread := readChar_escape c (chars.flatMap escape ++ quote :: rest)
    have hrest := ih (Nat.lt_of_succ_lt_succ hfuel)
    rw [hescape] at hread
    rw [List.flatMap_cons, List.append_assoc, hescape, List.cons_append, readChars, if_neg hquote]
    rw [List.cons_append] at hread
    rw [hread]
    show (readChars fuel (chars.flatMap escape ++ quote :: rest)).bind (fun read => some (c :: read.1, read.2)) = _
    rw [hrest]
    rfl

theorem length_le_length_flatMap_escape (chars : List Char) : chars.length ≤ (chars.flatMap escape).length := by
  induction chars with
  | nil => exact Nat.le_refl 0
  | cons c chars ih =>
    obtain ⟨first, others, hescape, -⟩ := escape_eq_cons c
    rw [List.flatMap_cons, List.length_append, hescape, List.length_cons, List.length_cons]
    omega

/-- **Strings.** A rendered string reads back to itself, whatever follows it. -/
theorem readString_renderString (text : String) (rest : List Char) {fuel : Nat}
    (hfuel : (renderString text).length ≤ fuel + 1) :
    readString fuel (renderString text ++ rest) = some (text, rest) := by
  have hlength := length_le_length_flatMap_escape text.toList
  have hfuel' : text.toList.length < fuel := by
    rw [renderString, List.length_cons, List.length_append, List.length_singleton] at hfuel
    omega
  have hread := readChars_escape text.toList rest hfuel'
  show readString fuel (quote :: (text.toList.flatMap escape ++ [quote] ++ rest)) = _
  rw [readString, if_pos rfl, List.append_assoc, List.singleton_append, hread]
  show some (String.ofList text.toList, rest) = _
  rw [String.ofList_toList]

/-! ## Integers -/

def isNumeral (c : Char) : Bool := c.isDigit || c == '-'

def renderInt (n : Int) : List Char := (toString n).toList

/-- The longest run of digits and minus signs, as an integer. -/
def readInt (text : List Char) : Option (Int × List Char) :=
  (parseInt (text.takeWhile isNumeral)).map fun n => (n, text.dropWhile isNumeral)

theorem isNumeral_of_mem_renderInt {n : Int} {c : Char} (hc : c ∈ renderInt n) : isNumeral c = true := by
  rcases isDigit_or_minus_of_mem_toString hc with h | rfl
  · rw [isNumeral, h, Bool.true_or]
  · rfl

theorem renderInt_ne_nil (n : Int) : renderInt n ≠ [] := by
  intro h
  have hparse := parseInt_toString n
  rw [show (toString n).toList = [] from h] at hparse
  exact absurd hparse (by simp [parseInt, parseNat])

/-- **Integers.** A rendered integer reads back to itself, unless more of a numeral follows. -/
theorem readInt_renderInt (n : Int) {rest : List Char} (hrest : ∀ c ∈ rest.head?, isNumeral c = false) :
    readInt (renderInt n ++ rest) = some (n, rest) := by
  have hnumeral : ∀ c ∈ renderInt n, isNumeral c = true := fun c hc => isNumeral_of_mem_renderInt hc
  have htake : rest.takeWhile isNumeral = [] := by
    cases rest with
    | nil => rfl
    | cons c rest => rw [List.takeWhile_cons_of_neg (by rw [hrest c rfl]; decide)]
  have hdrop : rest.dropWhile isNumeral = rest := by
    cases rest with
    | nil => rfl
    | cons c rest => rw [List.dropWhile_cons_of_neg (by rw [hrest c rfl]; decide)]
  rw [readInt, List.takeWhile_append_of_pos hnumeral, List.dropWhile_append_of_pos hnumeral, htake, hdrop,
    List.append_nil]
  show (parseInt (toString n).toList).map _ = _
  rw [parseInt_toString]
  rfl

/-! ## Sequences -/

/-- Rendered items up to a closing bracket, separated by commas. -/
def renderSeq (close : Char) : List (List Char) → List Char
  | [] => [close]
  | [item] => item ++ [close]
  | item :: items => item ++ ',' :: renderSeq close items

/-- Items up to a closing bracket, separated by commas, at least one. -/
def readItems {α : Type*} (item : List Char → Option (α × List Char)) (close : Char) :
    Nat → List Char → Option (List α × List Char)
  | 0, _ => none
  | fuel + 1, text => do
    let (x, rest) ← item text
    match rest with
    | [] => none
    | c :: rest =>
      if c = close then some ([x], rest)
      else if c = ',' then (readItems item close fuel rest).map fun read => (x :: read.1, read.2)
      else none

/-- Items up to a closing bracket, separated by commas. -/
def readSeq {α : Type*} (item : List Char → Option (α × List Char)) (close : Char) (fuel : Nat) :
    List Char → Option (List α × List Char)
  | [] => none
  | c :: rest => if c = close then some ([], rest) else readItems item close fuel (c :: rest)

section Sequences
variable {α : Type*} {item : List Char → Option (α × List Char)} {close : Char}

/-- An item reads back from its text, before a comma or the closing bracket. -/
def ReadsBack (item : List Char → Option (α × List Char)) (close : Char) (x : α) (text : List Char) : Prop :=
  ∀ c rest, c = ',' ∨ c = close → item (text ++ c :: rest) = some (x, c :: rest)

theorem readItems_renderSeq (hclose : close ≠ ',') {xs : List α} {texts : List (List Char)}
    (hitems : List.Forall₂ (ReadsBack item close) xs texts) (hne : xs ≠ []) (rest : List Char) {fuel : Nat}
    (hfuel : xs.length ≤ fuel) : readItems item close fuel (renderSeq close texts ++ rest) = some (xs, rest) := by
  induction hitems generalizing fuel with
  | nil => exact absurd rfl hne
  | @cons x text xs texts hx hxs ih =>
    obtain ⟨fuel, rfl⟩ := Nat.exists_eq_add_one_of_ne_zero (Nat.ne_zero_of_lt hfuel)
    cases hxs with
    | nil =>
      show (item ((text ++ [close]) ++ rest)).bind _ = _
      rw [List.append_assoc, List.singleton_append, hx close rest (Or.inr rfl)]
      show (if close = close then _ else _) = _
      rw [if_pos rfl]
    | @cons y text' ys texts' hy hys =>
      have htail := ih (List.cons_ne_nil y ys) (Nat.le_of_succ_le_succ hfuel)
      show (item ((text ++ ',' :: renderSeq close (text' :: texts')) ++ rest)).bind _ = _
      rw [List.append_assoc, List.cons_append, hx ',' _ (Or.inl rfl)]
      show (if ',' = close then _ else if ',' = ',' then _ else _) = _
      rw [if_neg hclose.symm, if_pos rfl, htail]
      rfl

/-- **Sequences.** Rendered items read back, if each of them does and none starts with the closing bracket. -/
theorem readSeq_renderSeq (hclose : close ≠ ',') {xs : List α} {texts : List (List Char)}
    (hitems : List.Forall₂ (ReadsBack item close) xs texts)
    (hfirst : ∀ text ∈ texts, ∃ c rest, text = c :: rest ∧ c ≠ close) (rest : List Char) {fuel : Nat}
    (hfuel : xs.length ≤ fuel) : readSeq item close fuel (renderSeq close texts ++ rest) = some (xs, rest) := by
  cases hitems with
  | nil =>
    show readSeq item close fuel (close :: rest) = _
    rw [readSeq, if_pos rfl]
  | @cons x text xs texts hx hxs =>
    have hread := readItems_renderSeq hclose (.cons hx hxs) (List.cons_ne_nil x xs) rest hfuel
    obtain ⟨c, others, rfl, hc⟩ := hfirst text List.mem_cons_self
    have hshape : ∃ more, renderSeq close ((c :: others) :: texts) = c :: more := by
      cases texts with
      | nil => exact ⟨_, rfl⟩
      | cons text texts => exact ⟨_, rfl⟩
    obtain ⟨more, hmore⟩ := hshape
    rw [hmore] at hread ⊢
    rw [List.cons_append, readSeq, if_neg hc, ← List.cons_append, hread]

end Sequences

/-! ## Values -/

mutual

def Value.render : Value → List Char
  | .null => "null".toList
  | .bool true => "true".toList
  | .bool false => "false".toList
  | .num n => renderInt n
  | .str text => renderString text
  | .arr items => '[' :: renderSeq ']' (renderItems items)
  | .obj members => '{' :: renderSeq '}' (renderMembers members)

def renderItems : List Value → List (List Char)
  | [] => []
  | value :: values => value.render :: renderItems values

def renderMembers : List (String × Value) → List (List Char)
  | [] => []
  | (key, value) :: members => (renderString key ++ ':' :: value.render) :: renderMembers members

end

/-- A member of an object: its key, a colon and its value. -/
def readMember (value : List Char → Option (Value × List Char)) (fuel : Nat) (text : List Char) :
    Option ((String × Value) × List Char) := do
  let (key, rest) ← readString fuel text
  match rest with
  | ':' :: rest => (value rest).map fun read => ((key, read.1), read.2)
  | _ => none

def readLiteral : List Char → Option (Value × List Char)
  | 'n' :: 'u' :: 'l' :: 'l' :: rest => some (.null, rest)
  | 't' :: 'r' :: 'u' :: 'e' :: rest => some (.bool true, rest)
  | 'f' :: 'a' :: 'l' :: 's' :: 'e' :: rest => some (.bool false, rest)
  | _ => none

def readValue : Nat → List Char → Option (Value × List Char)
  | 0, _ => none
  | _ + 1, [] => none
  | fuel + 1, c :: rest =>
    if c = quote then (readString fuel (c :: rest)).map fun read => (.str read.1, read.2)
    else if c = '[' then (readSeq (readValue fuel) ']' fuel rest).map fun read => (.arr read.1, read.2)
    else if c = '{' then
      (readSeq (readMember (readValue fuel) fuel) '}' fuel rest).map fun read => (.obj read.1, read.2)
    else if isNumeral c then (readInt (c :: rest)).map fun read => (.num read.1, read.2)
    else readLiteral (c :: rest)

def parse (text : List Char) : Option Value :=
  match readValue text.length text with
  | some (value, []) => some value
  | _ => none

theorem length_le_renderSeq (close : Char) (texts : List (List Char)) :
    texts.length ≤ (renderSeq close texts).length := by
  fun_induction renderSeq close texts with
  | case1 => exact Nat.zero_le _
  | case2 text => simp
  | case3 text texts hne ih =>
    simp only [List.length_cons, List.length_append]
    omega

theorem length_le_renderSeq_of_mem (close : Char) {texts : List (List Char)} {text : List Char} (h : text ∈ texts) :
    text.length ≤ (renderSeq close texts).length := by
  fun_induction renderSeq close texts with
  | case1 => cases h
  | case2 item =>
    rw [List.mem_singleton.mp h, List.length_append]
    omega
  | case3 item items hne ih =>
    rw [List.length_append, List.length_cons]
    rcases List.mem_cons.mp h with rfl | h
    · omega
    · have := ih h
      omega

theorem isNumeral_ne {c : Char} (h : isNumeral c = true) : c ≠ quote ∧ c ≠ '[' ∧ c ≠ '{' ∧ c ≠ ']' := by
  refine ⟨?_, ?_, ?_, ?_⟩ <;>
  · rintro rfl
    exact absurd h (by decide)

theorem renderInt_eq_cons (n : Int) : ∃ c rest, renderInt n = c :: rest ∧ isNumeral c = true := by
  obtain ⟨c, rest, h⟩ := List.exists_cons_of_ne_nil (renderInt_ne_nil n)
  exact ⟨c, rest, h, isNumeral_of_mem_renderInt (by rw [h]; exact List.mem_cons_self)⟩

theorem render_eq_cons (value : Value) : ∃ c rest, value.render = c :: rest ∧ c ≠ ']' := by
  cases value with
  | null => exact ⟨_, _, rfl, by decide⟩
  | bool b => cases b <;> exact ⟨_, _, rfl, by decide⟩
  | num n =>
    obtain ⟨c, rest, h, hc⟩ := renderInt_eq_cons n
    exact ⟨c, rest, h, (isNumeral_ne hc).2.2.2⟩
  | str text => exact ⟨_, _, rfl, by decide⟩
  | arr items => exact ⟨_, _, rfl, by decide⟩
  | obj members => exact ⟨_, _, rfl, by decide⟩

theorem renderItems_eq_map (values : List Value) : renderItems values = values.map Value.render := by
  induction values with
  | nil => rfl
  | cons value values ih => rw [renderItems, ih, List.map_cons]

theorem renderMembers_eq_map (members : List (String × Value)) :
    renderMembers members = members.map fun member => renderString member.1 ++ ':' :: member.2.render := by
  induction members with
  | nil => rfl
  | cons member members ih => rw [renderMembers, ih, List.map_cons]

theorem readValue_num (n : Int) {rest : List Char} (hrest : ∀ c ∈ rest.head?, isNumeral c = false) (fuel : Nat) :
    readValue (fuel + 1) (renderInt n ++ rest) = some (.num n, rest) := by
  have hread := readInt_renderInt n hrest
  obtain ⟨c, others, h, hc⟩ := renderInt_eq_cons n
  obtain ⟨hquote, harr, hobj, -⟩ := isNumeral_ne hc
  rw [h, List.cons_append] at hread
  rw [h, List.cons_append, readValue, if_neg hquote, if_neg harr, if_neg hobj, if_pos hc, hread]
  rfl

theorem readValue_str (text : String) (rest : List Char) {fuel : Nat} (hfuel : (renderString text).length ≤ fuel + 1) :
    readValue (fuel + 1) (renderString text ++ rest) = some (.str text, rest) := by
  have hread := readString_renderString text rest hfuel
  rw [renderString, List.cons_append] at hread ⊢
  rw [readValue, if_pos rfl, hread]
  rfl

mutual

/-- **Values.** A rendered value reads back to itself, unless more of a numeral follows. -/
theorem readValue_render (value : Value) (fuel : Nat) (rest : List Char) (hfuel : value.render.length ≤ fuel)
    (hrest : ∀ c ∈ rest.head?, isNumeral c = false) : readValue fuel (value.render ++ rest) = some (value, rest) := by
  match value, fuel with
  | value, 0 =>
    obtain ⟨c, others, h, -⟩ := render_eq_cons value
    rw [h] at hfuel
    exact absurd hfuel (Nat.not_succ_le_zero _)
  | .null, fuel + 1 => rfl
  | .bool true, fuel + 1 => rfl
  | .bool false, fuel + 1 => rfl
  | .num n, fuel + 1 => exact readValue_num n hrest fuel
  | .str text, fuel + 1 => exact readValue_str text rest hfuel
  | .arr items, fuel + 1 =>
    have hlength : (renderSeq ']' (renderItems items)).length ≤ fuel := Nat.le_of_succ_le_succ hfuel
    have hitems := readsBack_renderItems items fuel fun text h => (length_le_renderSeq_of_mem ']' h).trans hlength
    have hcount : items.length ≤ fuel := by
      rw [hitems.length_eq]
      exact (length_le_renderSeq ']' _).trans hlength
    have hfirst : ∀ text ∈ renderItems items, ∃ c rest, text = c :: rest ∧ c ≠ ']' := fun text h => by
      rw [renderItems_eq_map] at h
      obtain ⟨item, -, rfl⟩ := List.mem_map.mp h
      exact render_eq_cons item
    show readValue (fuel + 1) ('[' :: (renderSeq ']' (renderItems items) ++ rest)) = _
    rw [readValue, if_neg (by decide), if_pos rfl, readSeq_renderSeq (by decide) hitems hfirst rest hcount]
    rfl
  | .obj members, fuel + 1 =>
    have hlength : (renderSeq '}' (renderMembers members)).length ≤ fuel := Nat.le_of_succ_le_succ hfuel
    have hmembers := readsBack_renderMembers members fuel fun text h =>
      (length_le_renderSeq_of_mem '}' h).trans hlength
    have hcount : members.length ≤ fuel := by
      rw [hmembers.length_eq]
      exact (length_le_renderSeq '}' _).trans hlength
    have hfirst : ∀ text ∈ renderMembers members, ∃ c rest, text = c :: rest ∧ c ≠ '}' := fun text h => by
      rw [renderMembers_eq_map] at h
      obtain ⟨member, -, rfl⟩ := List.mem_map.mp h
      exact ⟨_, _, rfl, by decide⟩
    show readValue (fuel + 1) ('{' :: (renderSeq '}' (renderMembers members) ++ rest)) = _
    rw [readValue, if_neg (by decide), if_neg (by decide), if_pos rfl,
      readSeq_renderSeq (by decide) hmembers hfirst rest hcount]
    rfl

theorem readsBack_renderItems (values : List Value) (fuel : Nat)
    (hfuel : ∀ text ∈ renderItems values, text.length ≤ fuel) :
    List.Forall₂ (ReadsBack (readValue fuel) ']') values (renderItems values) := by
  match values with
  | [] => exact .nil
  | value :: values =>
    refine .cons ?_ (readsBack_renderItems values fuel fun text h => hfuel text (List.mem_cons_of_mem _ h))
    intro c rest hc
    refine readValue_render value fuel (c :: rest) (hfuel _ List.mem_cons_self) fun d hd => ?_
    cases hd
    rcases hc with rfl | rfl <;> decide

theorem readsBack_renderMembers (members : List (String × Value)) (fuel : Nat)
    (hfuel : ∀ text ∈ renderMembers members, text.length ≤ fuel) :
    List.Forall₂ (ReadsBack (readMember (readValue fuel) fuel) '}') members (renderMembers members) := by
  match members with
  | [] => exact .nil
  | (key, value) :: members =>
    refine .cons ?_ (readsBack_renderMembers members fuel fun text h => hfuel text (List.mem_cons_of_mem _ h))
    intro c rest hc
    have hlength := hfuel _ List.mem_cons_self
    rw [List.length_append, List.length_cons] at hlength
    have hfits : (renderString key).length ≤ fuel + 1 := by omega
    have hkey := readString_renderString key (':' :: (value.render ++ c :: rest)) hfits
    have hvalue := readValue_render value fuel (c :: rest) (by omega) fun d hd => by
      cases hd
      rcases hc with rfl | rfl <;> decide
    rw [List.append_assoc, List.cons_append, readMember, hkey]
    show (readValue fuel (value.render ++ c :: rest)).map _ = _
    rw [hvalue]
    rfl

end

/-- **Texts.** A rendered value parses to itself. -/
theorem parse_render (value : Value) : parse value.render = some value := by
  have hread := readValue_render value value.render.length [] le_rfl (fun c hc => by cases hc)
  rw [List.append_nil] at hread
  rw [parse, hread]

theorem render_injective : Function.Injective Value.render := by
  intro value value' h
  have hparse := parse_render value
  rw [h, parse_render] at hparse
  exact (Option.some.inj hparse).symm

/-! ## Control characters -/

/-- No control character. -/
def Printable (c : Char) : Prop := 32 ≤ c.toNat

instance (c : Char) : Decidable (Printable c) := inferInstanceAs (Decidable (_ ≤ _))

theorem printable_of_all {text : List Char} (h : (text.all fun c => decide (Printable c)) = true) :
    ∀ c ∈ text, Printable c :=
  fun c hc => of_decide_eq_true (List.all_eq_true.mp h c hc)

theorem printable_hexDigit : ∀ d < 16, Printable (hexDigit d) := by decide

theorem printable_escape (c : Char) : ∀ d ∈ escape c, Printable d := by
  unfold escape
  by_cases hself : c = quote ∨ c = backslash
  · rw [if_pos hself]
    rcases hself with rfl | rfl <;> exact printable_of_all (by decide)
  rw [if_neg hself]
  cases hletter : escapeLetter c.toNat with
  | some letter =>
    have hprintable : Printable letter := by
      unfold escapeLetter at hletter
      split at hletter <;> cases hletter <;> decide
    exact List.forall_mem_cons.mpr ⟨by decide, List.forall_mem_singleton.mpr hprintable⟩
  | none =>
    by_cases hc : c.toNat < 32
    · simp only [if_pos hc]
      have hhi := printable_hexDigit (c.toNat / 16) (by omega)
      have hlo := printable_hexDigit (c.toNat % 16) (by omega)
      intro d hd
      rcases List.mem_append.mp (show d ∈ [backslash, 'u', '0', '0'] ++ [_, _] from hd) with hd | hd
      · exact printable_of_all (by decide) d hd
      · rcases List.mem_cons.mp hd with rfl | hd
        · exact hhi
        · rw [List.mem_singleton.mp hd]
          exact hlo
    · simp only [if_neg hc]
      exact List.forall_mem_singleton.mpr (Nat.le_of_not_lt hc)

theorem printable_renderString (text : String) : ∀ c ∈ renderString text, Printable c := by
  refine List.forall_mem_cons.mpr ⟨by decide, fun c hc => ?_⟩
  rcases List.mem_append.mp hc with hc | hc
  · obtain ⟨d, -, hd⟩ := List.mem_flatMap.mp hc
    exact printable_escape d c hd
  · exact printable_of_all (by decide) c hc

theorem printable_of_isNumeral {c : Char} (h : isNumeral c = true) : Printable c := by
  rcases Bool.or_eq_true_iff.mp h with h | h
  · exact le_trans (by decide) (Char.isDigit_iff_toNat.mp h).1
  · rw [beq_iff_eq.mp h]
    decide

theorem mem_renderSeq {close : Char} {texts : List (List Char)} {c : Char} (h : c ∈ renderSeq close texts) :
    c = close ∨ c = ',' ∨ ∃ text ∈ texts, c ∈ text := by
  fun_induction renderSeq close texts with
  | case1 => exact Or.inl (List.mem_singleton.mp h)
  | case2 item =>
    rcases List.mem_append.mp h with h | h
    · exact Or.inr (Or.inr ⟨item, List.mem_cons_self, h⟩)
    · exact Or.inl (List.mem_singleton.mp h)
  | case3 item items hne ih =>
    rcases List.mem_append.mp h with h | h
    · exact Or.inr (Or.inr ⟨item, List.mem_cons_self, h⟩)
    rcases List.mem_cons.mp h with rfl | h
    · exact Or.inr (Or.inl rfl)
    rcases ih h with h | h | ⟨text, htext, h⟩
    · exact Or.inl h
    · exact Or.inr (Or.inl h)
    · exact Or.inr (Or.inr ⟨text, List.mem_cons_of_mem _ htext, h⟩)

theorem printable_renderSeq {opening close : Char} (hopening : Printable opening) (hclose : Printable close)
    {texts : List (List Char)} (htexts : ∀ text ∈ texts, ∀ c ∈ text, Printable c) :
    ∀ c ∈ opening :: renderSeq close texts, Printable c := by
  refine List.forall_mem_cons.mpr ⟨hopening, fun c hc => ?_⟩
  rcases mem_renderSeq hc with rfl | rfl | ⟨text, htext, hc⟩
  · exact hclose
  · decide
  · exact htexts text htext c hc

mutual

/-- **Control characters.** A rendered value has none. -/
theorem printable_render (value : Value) : ∀ c ∈ value.render, Printable c := by
  match value with
  | .null => exact printable_of_all (by decide)
  | .bool true => exact printable_of_all (by decide)
  | .bool false => exact printable_of_all (by decide)
  | .num n => exact fun c hc => printable_of_isNumeral (isNumeral_of_mem_renderInt hc)
  | .str text => exact printable_renderString text
  | .arr items => exact printable_renderSeq (by decide) (by decide) (printable_renderItems items)
  | .obj members => exact printable_renderSeq (by decide) (by decide) (printable_renderMembers members)

theorem printable_renderItems (values : List Value) : ∀ text ∈ renderItems values, ∀ c ∈ text, Printable c := by
  match values with
  | [] => exact fun text h => by cases h
  | value :: values => exact List.forall_mem_cons.mpr ⟨printable_render value, printable_renderItems values⟩

theorem printable_renderMembers (members : List (String × Value)) :
    ∀ text ∈ renderMembers members, ∀ c ∈ text, Printable c := by
  match members with
  | [] => exact fun text h => by cases h
  | (key, value) :: members =>
    refine List.forall_mem_cons.mpr ⟨fun c hc => ?_, printable_renderMembers members⟩
    rcases List.mem_append.mp hc with hc | hc
    · exact printable_renderString key c hc
    rcases List.mem_cons.mp hc with rfl | hc
    · decide
    · exact printable_render value c hc

end

/-! ## Parts -/

mutual

/-- A value and everything inside it. -/
def Value.parts : Value → List Value
  | .null => [.null]
  | .bool b => [.bool b]
  | .num n => [.num n]
  | .str text => [.str text]
  | .arr items => .arr items :: itemParts items
  | .obj members => .obj members :: memberParts members

def itemParts : List Value → List Value
  | [] => []
  | value :: values => value.parts ++ itemParts values

def memberParts : List (String × Value) → List Value
  | [] => []
  | (_, value) :: members => value.parts ++ memberParts members

end

def Value.numbers (value : Value) : List Int := value.parts.flatMap fun
  | .num n => [n]
  | _ => []

theorem itemParts_eq_flatMap (values : List Value) : itemParts values = values.flatMap Value.parts := by
  induction values with
  | nil => rfl
  | cons value values ih => rw [itemParts, ih, List.flatMap_cons]

theorem memberParts_eq_flatMap (members : List (String × Value)) :
    memberParts members = members.flatMap fun member => member.2.parts := by
  induction members with
  | nil => rfl
  | cons member members ih => rw [memberParts, ih, List.flatMap_cons]

@[simp] theorem numbers_null : Value.null.numbers = [] := rfl
@[simp] theorem numbers_bool (b : Bool) : (Value.bool b).numbers = [] := rfl
@[simp] theorem numbers_num (n : Int) : (Value.num n).numbers = [n] := rfl
@[simp] theorem numbers_str (text : String) : (Value.str text).numbers = [] := rfl

@[simp] theorem numbers_arr (values : List Value) : (Value.arr values).numbers = values.flatMap Value.numbers := by
  rw [Value.numbers, Value.parts, List.flatMap_cons, List.nil_append, itemParts_eq_flatMap, List.flatMap_assoc]
  rfl

@[simp] theorem numbers_obj (members : List (String × Value)) :
    (Value.obj members).numbers = members.flatMap fun member => member.2.numbers := by
  rw [Value.numbers, Value.parts, List.flatMap_cons, List.nil_append, memberParts_eq_flatMap, List.flatMap_assoc]
  rfl

end Json
