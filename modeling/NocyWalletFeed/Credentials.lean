import NocyWalletFeed.LiveSessions
import NocyWalletFeed.Library.Bech32m

/-!
# What a session id is made of

A viewing key comes as bech32m or as hex, an address and a dust key as hex; the id is a keyed hash of the canonical
viewing key and of the bytes of the two others.

* `LawfulBech32` : what is assumed of the bech32 library; `crateBech32`, `lawful_crateBech32` : a codec with these laws;
* `DenotesKey`, `BootstrapRequest.Denotes` : the bytes a request stands for, whatever its texts;
* `normalizeViewingKey_canonical`, `IsCanonical.normalizeViewingKey_eq` : a canonical key is left as it is;
* `Credentials.hashedMessage`, `hashedMessage_eq_iff_denotes` : equal messages are equal bytes.
-/

namespace NocyWalletFeed
open Codec

/-! ## The bech32 library -/

/-- Decoding inverts encoding, and a text is its human-readable part, a separator and visible characters. -/
structure LawfulBech32 (bech32 : Bech32) : Prop where
  fromBase32_toBase32 : ∀ bytes, bech32.fromBase32 (bech32.toBase32 bytes) = some bytes
  decode_encode : ∀ data text, bech32.encode VIEWING_KEY_HRP_UNDEPLOYED data = some text →
    bech32.decode text = some (VIEWING_KEY_HRP_UNDEPLOYED, data, true)
  encode_text : ∀ data text, bech32.encode VIEWING_KEY_HRP_UNDEPLOYED data = some text →
    (∃ rest, text.toList = VIEWING_KEY_HRP_UNDEPLOYED.toList ++ '1' :: rest) ∧
      ∀ c ∈ text.toList, 33 ≤ c.toNat ∧ c.toNat ≤ 126
  decode_text : ∀ text hrp data isBech32m, bech32.decode text = some (hrp, data, isBech32m) →
    ∃ rest, (text.map Char.toLower).toList = (hrp.map Char.toLower).toList ++ '1' :: rest

/-- The bech32m codec over strings. -/
def crateBech32 : Bech32 where
  toBase32 := Bech32m.toBase32
  fromBase32 := Bech32m.fromBase32
  encode hrp data := (Bech32m.encode hrp.toList data).map String.ofList
  decode text := (Bech32m.decode text.toList).map fun (hrp, data, variant) =>
    (String.ofList hrp, data, decide (variant = .bech32m))

theorem crateBech32_encode {hrp text : String} {data : List (Fin 32)}
    (h : crateBech32.encode hrp data = some text) : Bech32m.encode hrp.toList data = some text.toList := by
  obtain ⟨chars, hencode, rfl⟩ := Option.map_eq_some_iff.mp h
  rw [hencode, String.toList_ofList]

theorem lawful_crateBech32 : LawfulBech32 crateBech32 where
  fromBase32_toBase32 := Bech32m.fromBase32_toBase32
  decode_encode data text h := by
    have hdecode := Bech32m.decode_encode (crateBech32_encode h)
    simp only [crateBech32, hdecode, Option.map_some, String.ofList_toList, decide_true]
  encode_text data text h := Bech32m.encode_text (crateBech32_encode h)
  decode_text text hrp data isBech32m h := by
    obtain ⟨⟨chars, digits, variant⟩, hdecode, heq⟩ := Option.map_eq_some_iff.mp h
    obtain ⟨rfl, -⟩ := Prod.mk.inj heq
    obtain ⟨hvalid, rest, htext⟩ := Bech32m.decode_text hdecode
    refine ⟨rest, ?_⟩
    rw [String.toList_map, String.toList_map, String.toList_ofList, Bech32m.map_toLower_of_validHrp hvalid]
    exact htext

/-! ## What the texts stand for -/

/-- A text of a viewing key stands for these bytes: in hex, or in bech32m. -/
inductive DenotesKey (bech32 : Bech32) (text : String) (bytes : Bytes) : Prop where
  | hex (hdecode : hexDecode (strip0x (trim text)) = some bytes) (hlength : bytes.length = 32)
  | bech32m (hrp : String) (data : List (Fin 32)) (hdecode : bech32.decode (trim text) = some (hrp, data, true))
    (hhrp : hrp.map Char.toLower = VIEWING_KEY_HRP_UNDEPLOYED) (hdata : bech32.fromBase32 data = some bytes)

@[ext] structure KeyBytes where
  viewingKey : Bytes
  dustPublicKey : Bytes
  unshieldedAddress : Bytes
  deriving DecidableEq, Repr

/-- The bytes a request stands for. -/
structure BootstrapRequest.Denotes (bech32 : Bech32) (req : BootstrapRequest) (keys : KeyBytes) : Prop where
  viewingKey : DenotesKey bech32 req.viewingKey keys.viewingKey
  dustPublicKey : hexDecode req.dustPublicKey = some keys.dustPublicKey
  unshieldedAddress : hexDecode req.unshieldedAddress = some keys.unshieldedAddress

/-- The one text of a viewing key that is hashed. -/
def IsCanonical (bech32 : Bech32) (key : String) (bytes : Bytes) : Prop :=
  bech32.encode VIEWING_KEY_HRP_UNDEPLOYED (bech32.toBase32 bytes) = some key

/-! ## Texts -/

theorem isWhiteSpace_of_visible {c : Char} (h : 33 ≤ c.toNat ∧ c.toNat ≤ 126) : isWhiteSpace c = false := by
  simp only [isWhiteSpace, Bool.or_eq_false_iff, Bool.and_eq_false_iff, decide_eq_false_iff_not, beq_eq_false_iff_ne]
  omega

theorem dropWhile_eq_self_of_forall {p : Char → Bool} {chars : List Char} (h : ∀ c ∈ chars, p c = false) :
    chars.dropWhile p = chars := by
  cases chars with
  | nil => rfl
  | cons c chars =>
    have hc : ¬ p c = true := by
      rw [h c List.mem_cons_self]
      exact Bool.false_ne_true
    rw [List.dropWhile_cons_of_neg hc]

theorem trim_eq_self {text : String} (h : ∀ c ∈ text.toList, isWhiteSpace c = false) : trim text = text := by
  have hreverse : ∀ c ∈ text.toList.reverse, isWhiteSpace c = false := fun c hc => h c (List.mem_reverse.mp hc)
  rw [trim, dropWhile_eq_self_of_forall h, dropWhile_eq_self_of_forall hreverse, List.reverse_reverse,
    String.ofList_toList]

/-- A text that begins with another digit than a zero has no `0x` to strip. -/
theorem strip0x_eq_self {text : String} {c : Char} {rest : List Char} (h : text.toList = c :: rest) (hc : c ≠ '0') :
    strip0x text = text := by
  unfold strip0x
  rw [h]
  split
  · rename_i heq
    exact absurd (List.cons.inj heq).1 hc
  · rfl

theorem hexValue_of_toLower_eq {c : Char} (h : c.toLower = 'm') : hexValue c = none := by
  have hall : ∀ n < 103, (Char.ofNat n).toLower ≠ 'm' ∨ hexValue (Char.ofNat n) = none := by decide
  by_cases hsmall : c.toNat < 103
  · have hc := hall c.toNat hsmall
    rw [Char.ofNat_toNat] at hc
    exact hc.resolve_left (not_not_intro h)
  · unfold hexValue
    dsimp only
    rw [if_neg (by omega), if_neg (by omega), if_neg (by omega)]

/-- Hex cannot begin with the letter that the human-readable part begins with. -/
theorem hexDecode_of_toLower_eq {text : String} {c : Char} {rest : List Char} (h : text.toList = c :: rest)
    (hc : c.toLower = 'm') : hexDecode text = none := by
  rw [hexDecode, h]
  cases rest with
  | nil => rfl
  | cons lo rest => rw [hexBytes, hexValue_of_toLower_eq hc]; rfl

theorem toList_hrp : VIEWING_KEY_HRP_UNDEPLOYED.toList = 'm' :: "n_shield-esk_undeployed".toList := by decide

theorem map_toLower_hrp : VIEWING_KEY_HRP_UNDEPLOYED.map Char.toLower = VIEWING_KEY_HRP_UNDEPLOYED := by
  rw [← String.toList_inj, String.toList_map]
  decide

/-! ## Canonical keys -/

theorem normalizeViewingKey_of_decode {bech32 : Bech32} {text key : String} {data : List (Fin 32)} {bytes : Bytes}
    (hempty : (trim text).isEmpty = false) (hhex : isHex32Bytes (trim text) = false)
    (hdecode : bech32.decode (trim text) = some (VIEWING_KEY_HRP_UNDEPLOYED, data, true))
    (hdata : bech32.fromBase32 data = some bytes) (hkey : IsCanonical bech32 key bytes) :
    normalizeViewingKey bech32 text = .ok key := by
  unfold IsCanonical at hkey
  simp only [normalizeViewingKey, hempty, hhex, hdecode, map_toLower_hrp, hdata, hkey, Bool.false_eq_true, if_false,
    ne_eq, not_true_eq_false, Bool.not_true]

section Lawful
variable {bech32 : Bech32} (lawful : LawfulBech32 bech32)

theorem isCanonical_of_encode {bytes : Bytes} {key : String} {e : AppError}
    (h : (match bech32.encode VIEWING_KEY_HRP_UNDEPLOYED (bech32.toBase32 bytes) with
      | none => .error e
      | some encoded => .ok encoded : Except AppError String) = .ok key) : IsCanonical bech32 key bytes := by
  unfold IsCanonical
  cases hencode : bech32.encode VIEWING_KEY_HRP_UNDEPLOYED (bech32.toBase32 bytes) with
  | none =>
    rw [hencode] at h
    cases h
  | some encoded =>
    rw [hencode] at h
    exact congrArg some (Except.ok.inj h)

theorem normalizeViewingKey_canonical {text key : String} (h : normalizeViewingKey bech32 text = .ok key) :
    ∃ bytes, DenotesKey bech32 text bytes ∧ IsCanonical bech32 key bytes := by
  unfold normalizeViewingKey at h
  dsimp only at h
  split_ifs at h with hempty hhex
  · cases hdecode : hexDecode (strip0x (trim text)) with
    | none =>
      rw [hdecode] at h
      cases h
    | some bytes =>
      simp only [hdecode] at h
      split_ifs at h with hlength
      exact ⟨bytes, .hex hdecode (not_not.mp hlength), isCanonical_of_encode h⟩
  · cases hdecode : bech32.decode (trim text) with
    | none =>
      rw [hdecode] at h
      cases h
    | some decoded =>
      obtain ⟨hrp, data, isBech32m⟩ := decoded
      simp only [hdecode] at h
      split_ifs at h with hhrp hvariant
      cases hdata : bech32.fromBase32 data with
      | none =>
        rw [hdata] at h
        cases h
      | some bytes =>
        simp only [hdata] at h
        obtain rfl : isBech32m = true := by simpa using hvariant
        exact ⟨bytes, .bech32m hrp data hdecode (not_not.mp hhrp) hdata, isCanonical_of_encode h⟩

include lawful

/-- **The two forms do not overlap**: a text stands for at most one string of bytes. -/
theorem DenotesKey.unique {text : String} {bytes bytes' : Bytes} (h : DenotesKey bech32 text bytes)
    (h' : DenotesKey bech32 text bytes') : bytes = bytes' := by
  have hdisjoint : ∀ hrp data, bech32.decode (trim text) = some (hrp, data, true) →
      hrp.map Char.toLower = VIEWING_KEY_HRP_UNDEPLOYED → hexDecode (strip0x (trim text)) = none := by
    intro hrp data hdecode hhrp
    obtain ⟨rest, htext⟩ := lawful.decode_text _ _ _ _ hdecode
    rw [hhrp, toList_hrp, String.toList_map] at htext
    obtain ⟨c, chars, hchars, hc, -⟩ := List.map_eq_cons_iff.mp htext
    have hzero : c ≠ '0' := by
      rintro rfl
      exact absurd hc (by decide)
    rw [strip0x_eq_self hchars hzero]
    exact hexDecode_of_toLower_eq hchars hc
  cases h with
  | hex hdecode hlength =>
    cases h' with
    | hex hdecode' hlength' => exact Option.some.inj (hdecode.symm.trans hdecode')
    | bech32m hrp' data' hdecode' hhrp' hdata' =>
      rw [hdisjoint hrp' data' hdecode' hhrp'] at hdecode
      cases hdecode
  | bech32m hrp data hdecode hhrp hdata =>
    cases h' with
    | hex hdecode' hlength' =>
      rw [hdisjoint hrp data hdecode hhrp] at hdecode'
      cases hdecode'
    | bech32m hrp' data' hdecode' hhrp' hdata' =>
      rw [hdecode] at hdecode'
      obtain ⟨-, hsame⟩ := Prod.mk.inj (Option.some.inj hdecode')
      obtain ⟨rfl, -⟩ := Prod.mk.inj hsame
      exact Option.some.inj (hdata.symm.trans hdata')

theorem IsCanonical.bytes_eq {key : String} {bytes bytes' : Bytes} (h : IsCanonical bech32 key bytes)
    (h' : IsCanonical bech32 key bytes') : bytes = bytes' := by
  have hdecode := lawful.decode_encode _ _ h
  rw [lawful.decode_encode _ _ h'] at hdecode
  obtain ⟨-, hdata⟩ := Prod.mk.inj (Option.some.inj hdecode)
  obtain ⟨hdata, -⟩ := Prod.mk.inj hdata
  have hbytes := lawful.fromBase32_toBase32 bytes
  rw [← hdata, lawful.fromBase32_toBase32] at hbytes
  exact (Option.some.inj hbytes).symm

/-- **A canonical text is left as it is.** -/
theorem IsCanonical.normalizeViewingKey_eq {key : String} {bytes : Bytes} (h : IsCanonical bech32 key bytes) :
    normalizeViewingKey bech32 key = .ok key := by
  obtain ⟨⟨rest, htext⟩, hvisible⟩ := lawful.encode_text _ _ h
  rw [toList_hrp] at htext
  have htrim : trim key = key := trim_eq_self fun c hc => isWhiteSpace_of_visible (hvisible c hc)
  have hempty : key.isEmpty = false := by
    rw [String.isEmpty_eq_false_iff]
    rintro rfl
    cases htext
  have hhex : isHex32Bytes key = false := by
    have hm : (hexValue 'm').isSome = false := by decide
    rw [isHex32Bytes, strip0x_eq_self htext (by decide), htext, List.cons_append, List.all_cons, hm]
    simp
  rw [← htrim] at hempty hhex
  exact normalizeViewingKey_of_decode hempty hhex ((congrArg _ htrim).trans (lawful.decode_encode _ _ h))
    (lawful.fromBase32_toBase32 bytes) h

end Lawful

/-! ## The hashed message -/

/-- The bytes the keyed hasher is fed. -/
def Credentials.hashedMessage (c : Credentials) : Bytes :=
  c.viewingKey.toUTF8.data.toList ++ markedField (some c.dustPublicKey) ++ markedField (some c.unshieldedAddress)

theorem Credentials.sessionId_eq (state : SessionState) (c : Credentials) :
    c.sessionId state = state.blake3.keyedHash state.serverSecret c.hashedMessage := rfl

attribute [ext] Credentials

theorem toUTF8_toList_inj {text text' : String} (h : text.toUTF8.data.toList = text'.toUTF8.data.toList) :
    text = text' :=
  String.toByteArray_inj.mp (ByteArray.ext (Array.toList_inj.mp h))

/-- The two last fields have fixed lengths, so that the message is read back from its end. -/
theorem Credentials.eq_of_hashedMessage_eq {c c' : Credentials}
    (hdust : c.dustPublicKey.length = c'.dustPublicKey.length)
    (haddress : c.unshieldedAddress.length = c'.unshieldedAddress.length)
    (h : c.hashedMessage = c'.hashedMessage) : c = c' := by
  obtain ⟨hfront, hlast⟩ := List.append_inj' h (congrArg Nat.succ haddress)
  obtain ⟨hkey, hmiddle⟩ := List.append_inj' hfront (congrArg Nat.succ hdust)
  exact Credentials.ext (toUTF8_toList_inj hkey) (List.cons.inj hmiddle).2 (List.cons.inj hlast).2

theorem validateHexField_ok {field text : String} {size : Nat} {bytes : Bytes}
    (h : validateHexField field size text = .ok bytes) : hexDecode text = some bytes ∧ bytes.length = size := by
  unfold validateHexField at h
  cases hdecode : hexDecode text with
  | none =>
    rw [hdecode] at h
    cases h
  | some decoded =>
    simp only [hdecode] at h
    split_ifs at h with hlength
    obtain rfl := Except.ok.inj h
    exact ⟨rfl, not_not.mp hlength⟩

/-- The credentials of an accepted request: the canonical key of the bytes it stands for, and the bytes of the two hex
fields. -/
theorem validateCredentials_ok {state : SessionState} {req : BootstrapRequest} {c : Credentials}
    (h : validateCredentials state req = .ok c) : ∃ keys : KeyBytes, req.Denotes state.bech32 keys ∧
      IsCanonical state.bech32 c.viewingKey keys.viewingKey ∧ c.dustPublicKey = keys.dustPublicKey ∧
      c.unshieldedAddress = keys.unshieldedAddress ∧ c.dustPublicKey.length = DUST_PUBLIC_KEY_BYTES ∧
      c.unshieldedAddress.length = UNSHIELDED_ADDRESS_BYTES := by
  obtain ⟨viewingKey, hkey, h⟩ := bind_ok h
  obtain ⟨dust, hdust, h⟩ := bind_ok h
  obtain ⟨address, haddress, h⟩ := bind_ok h
  obtain rfl := Except.ok.inj h
  obtain ⟨bytes, hdenotes, hcanonical⟩ := normalizeViewingKey_canonical hkey
  obtain ⟨hdust, hdustLength⟩ := validateHexField_ok hdust
  obtain ⟨haddress, haddressLength⟩ := validateHexField_ok haddress
  exact ⟨⟨bytes, dust, address⟩, ⟨hdenotes, hdust, haddress⟩, hcanonical, rfl, rfl, hdustLength, haddressLength⟩

theorem BootstrapRequest.Denotes.unique {bech32 : Bech32} (lawful : LawfulBech32 bech32) {req : BootstrapRequest}
    {keys keys' : KeyBytes} (h : req.Denotes bech32 keys) (h' : req.Denotes bech32 keys') : keys = keys' := by
  have hkey := h.viewingKey.unique lawful h'.viewingKey
  have hdust := Option.some.inj (h.dustPublicKey.symm.trans h'.dustPublicKey)
  have haddress := Option.some.inj (h.unshieldedAddress.symm.trans h'.unshieldedAddress)
  exact KeyBytes.ext hkey hdust haddress

/-- **Session ids are canonical and collision-free before hashing.** Every accepted request stands for one viewing key,
one dust key and one address; the messages hashed for two of them are equal exactly when these bytes are. Normalizing a
viewing key twice is normalizing it once. -/
theorem hashedMessage_eq_iff_denotes (state : SessionState) (lawful : LawfulBech32 state.bech32) :
    (∀ req req' c c', validateCredentials state req = .ok c → validateCredentials state req' = .ok c' →
      ∃ keys keys', (∀ other, req.Denotes state.bech32 other ↔ other = keys) ∧
        (∀ other, req'.Denotes state.bech32 other ↔ other = keys') ∧
        (c.hashedMessage = c'.hashedMessage ↔ keys = keys')) ∧
      (∀ c : Credentials, c.sessionId state = state.blake3.keyedHash state.serverSecret c.hashedMessage) ∧
      ∀ text key, normalizeViewingKey state.bech32 text = .ok key →
        normalizeViewingKey state.bech32 key = .ok key := by
  refine ⟨fun req req' c c' h h' => ?_, Credentials.sessionId_eq state, fun text key h => ?_⟩
  · obtain ⟨keys, hdenotes, hcanonical, hdust, haddress, hdustLength, haddressLength⟩ := validateCredentials_ok h
    obtain ⟨keys', hdenotes', hcanonical', hdust', haddress', hdustLength', haddressLength'⟩ :=
      validateCredentials_ok h'
    refine ⟨keys, keys', fun other => ⟨fun ho => ho.unique lawful hdenotes, fun ho => ho ▸ hdenotes⟩,
      fun other => ⟨fun ho => ho.unique lawful hdenotes', fun ho => ho ▸ hdenotes'⟩, fun hmessage => ?_, ?_⟩
    · obtain rfl := Credentials.eq_of_hashedMessage_eq (hdustLength.trans hdustLength'.symm)
        (haddressLength.trans haddressLength'.symm) hmessage
      have hkey := hcanonical.bytes_eq lawful hcanonical'
      exact KeyBytes.ext hkey (hdust.symm.trans hdust') (haddress.symm.trans haddress')
    · rintro rfl
      have hkey : c.viewingKey = c'.viewingKey := Option.some.inj (hcanonical.symm.trans hcanonical')
      rw [Credentials.hashedMessage, Credentials.hashedMessage, hkey, hdust, hdust', haddress, haddress']
  · obtain ⟨bytes, -, hcanonical⟩ := normalizeViewingKey_canonical h
    exact hcanonical.normalizeViewingKey_eq lawful

namespace Sample

/-- The handler's state with the bech32m codec. -/
def crateState : SessionState := { state with bech32 := crateBech32 }

def keyBytes : KeyBytes := ⟨List.replicate 32 0xab, List.replicate 32 0xcd, List.replicate 32 0xef⟩

/-- The viewing key in hex of upper case, between blanks. -/
def hexRequest : BootstrapRequest :=
  ⟨" 0xABABABABABABABABABABABABABABABABABABABABABABABABABABABABABABABAB\n", hexEncode keyBytes.dustPublicKey,
    hexEncode keyBytes.unshieldedAddress, none⟩

/-- The viewing key in bech32m of upper case. -/
def bech32mRequest : BootstrapRequest :=
  ⟨"MN_SHIELD-ESK_UNDEPLOYED14W46H2AT4W46H2AT4W46H2AT4W46H2AT4W46H2AT4W46H2AT4W4SE3VFDQ",
    hexEncode keyBytes.dustPublicKey, hexEncode keyBytes.unshieldedAddress, none⟩

def keyCredentials : Credentials :=
  ⟨"mn_shield-esk_undeployed14w46h2at4w46h2at4w46h2at4w46h2at4w46h2at4w46h2at4w4se3vfdq", keyBytes.dustPublicKey,
    keyBytes.unshieldedAddress⟩

theorem isCanonical_keyCredentials : IsCanonical crateBech32 keyCredentials.viewingKey keyBytes.viewingKey := by
  unfold IsCanonical
  decide +kernel

theorem decode_bech32mRequest : crateBech32.decode (trim bech32mRequest.viewingKey) =
    some (VIEWING_KEY_HRP_UNDEPLOYED, crateBech32.toBase32 keyBytes.viewingKey, true) := by
  decide +kernel

theorem denotes_hexRequest : hexRequest.Denotes crateBech32 keyBytes :=
  ⟨.hex (by decide) (by decide), hexDecode_hexEncode _, hexDecode_hexEncode _⟩

theorem denotes_bech32mRequest : bech32mRequest.Denotes crateBech32 keyBytes :=
  ⟨.bech32m _ _ decode_bech32mRequest map_toLower_hrp (Bech32m.fromBase32_toBase32 _), hexDecode_hexEncode _,
    hexDecode_hexEncode _⟩

theorem validateCredentials_hexRequest : validateCredentials crateState hexRequest = .ok keyCredentials := by
  decide +kernel

theorem validateCredentials_bech32mRequest :
    validateCredentials crateState bech32mRequest = .ok keyCredentials := by
  have hkey : normalizeViewingKey crateState.bech32 bech32mRequest.viewingKey = .ok keyCredentials.viewingKey :=
    normalizeViewingKey_of_decode (by decide) (by decide) decode_bech32mRequest
      (Bech32m.fromBase32_toBase32 keyBytes.viewingKey) isCanonical_keyCredentials
  unfold validateCredentials
  rw [hkey]
  decide +kernel

end Sample

theorem hashedMessage_hex_bech32m :
    (∀ other, Sample.hexRequest.Denotes crateBech32 other ↔ other = Sample.keyBytes) ∧
      (∀ other, Sample.bech32mRequest.Denotes crateBech32 other ↔ other = Sample.keyBytes) := by
  obtain ⟨keys, keys', hkeys, hkeys', -⟩ :=
    (hashedMessage_eq_iff_denotes Sample.crateState lawful_crateBech32).1 _ _ _ _
      Sample.validateCredentials_hexRequest Sample.validateCredentials_bech32mRequest
  obtain rfl := (hkeys _).mp Sample.denotes_hexRequest
  obtain rfl := (hkeys' _).mp Sample.denotes_bech32mRequest
  exact ⟨hkeys, hkeys'⟩

end NocyWalletFeed
