import NocyWalletFeed.Feed
import NocyWalletFeed.Library.Json

/-!
# The JSON of the feed (`feed.rs`)

Heights, ids and indices travel as decimal strings. A `JSONB` value is read into a JSON value by the database driver,
which is a parameter, and written as it was read.

* `toJson` of each type of the feed, under the names the serializer gives its fields;
* `FeedResponse.canonical` : what a reader gets of a response, each transaction result as the compact text of its value;
* `feedResponse_toJson_eq_iff` : two responses have the same JSON exactly when a reader gets the same from both.
-/

namespace NocyWalletFeed
open Json

/-! ## Scalars and lists -/

/-- Serialize `i64` as a decimal string for JavaScript compatibility. -/
def serializeI64AsString (value : Int) : Value := .str (toString value)

/-- An `Option`, with `null` for `None`. -/
def optionJson {α : Type} (toJson : α → Value) : Option α → Value
  | some value => toJson value
  | none => .null

/-- Serialize `Option<i64>` as a decimal string for JavaScript compatibility. -/
def serializeOptionI64AsString : Option Int → Value := optionJson serializeI64AsString

def stringsJson (texts : List String) : Value := .arr (texts.map .str)

/-- A member that is left out for `None`. -/
def optionMember {α : Type} (key : String) (toJson : α → Value) : Option α → List (String × Value)
  | some value => [(key, toJson value)]
  | none => []

/-- A list that is left out when it is empty. -/
def listMember {α : Type} (key : String) (toJson : List α → Value) : List α → List (String × Value)
  | [] => []
  | values => [(key, toJson values)]

/-! ## Types without transaction results -/

def Watermarks.toJson (w : Watermarks) : Value := .obj
  [("chainHead", serializeI64AsString w.chainHead),
    ("walletReadyHeight", serializeOptionI64AsString w.walletReadyHeight),
    ("finalizedHeight", serializeOptionI64AsString w.finalizedHeight)]

def BlockMeta.toJson (m : BlockMeta) : Value := .obj
  [("height", serializeI64AsString m.height), ("hash", .str m.hash), ("parentHash", .str m.parentHash),
    ("timestamp", serializeI64AsString m.timestamp)]

def TransactionFees.toJson (f : TransactionFees) : Value := .obj
  [("paid", optionJson .str f.paid), ("estimated", optionJson .str f.estimated)]

def TransactionMerkle.toJson (m : TransactionMerkle) : Value := .obj
  [("root", optionJson .str m.root), ("startIndex", serializeOptionI64AsString m.startIndex),
    ("endIndex", serializeOptionI64AsString m.endIndex)]

def ContractActionSummary.toJson (a : ContractActionSummary) : Value := .obj
  ([("contractAddress", .str a.contractAddress), ("actionType", .str a.actionType)] ++
    optionMember "entryPoint" .str a.entryPoint)

def contractActionsJson (actions : List ContractActionSummary) : Value := .arr (actions.map (·.toJson))

def ShieldedRelevantTx.toJson (t : ShieldedRelevantTx) : Value := .obj
  [("txId", serializeI64AsString t.txId), ("txHash", .str t.txHash),
    ("blockHeight", serializeI64AsString t.blockHeight), ("zswapEvents", stringsJson t.zswapEvents),
    ("contractActions", contractActionsJson t.contractActions), ("feesPaid", .str t.feesPaid)]

def ZswapInputRaw.toJson (e : ZswapInputRaw) : Value := .obj
  [("txId", serializeI64AsString e.txId), ("txHash", .str e.txHash),
    ("ledgerEventId", serializeI64AsString e.ledgerEventId), ("blockHeight", serializeI64AsString e.blockHeight),
    ("raw", .str e.raw)]

def DustLedgerEventRaw.toJson (e : DustLedgerEventRaw) : Value := .obj
  [("txId", serializeI64AsString e.txId), ("ledgerEventId", serializeI64AsString e.ledgerEventId),
    ("blockHeight", serializeI64AsString e.blockHeight), ("raw", .str e.raw)]

def UnshieldedDelta.toJson (d : UnshieldedDelta) : Value := .obj
  [("txId", serializeI64AsString d.txId), ("blockHeight", serializeI64AsString d.blockHeight),
    ("address", .str d.address), ("delta", .str d.delta)]

def UnshieldedUtxoEvent.toJson (e : UnshieldedUtxoEvent) : Value := .obj
  [("txId", serializeI64AsString e.txId), ("txHash", .str e.txHash),
    ("blockHeight", serializeI64AsString e.blockHeight), ("isCreate", .bool e.isCreate), ("address", .str e.address),
    ("intentHash", .str e.intentHash), ("outputIndex", serializeI64AsString e.outputIndex),
    ("tokenType", .str e.tokenType), ("value", .str e.value), ("initialNonce", .str e.initialNonce),
    ("registeredForDustGeneration", .bool e.registeredForDustGeneration),
    ("ctime", serializeOptionI64AsString e.ctime), ("feesPaid", .str e.feesPaid),
    ("contractActions", contractActionsJson e.contractActions)]

def MerkleCollapsedUpdate.toJson (u : MerkleCollapsedUpdate) : Value := .obj
  [("startIndex", serializeI64AsString u.startIndex), ("endIndex", serializeI64AsString u.endIndex),
    ("update", .str u.update), ("protocolVersion", .num u.protocolVersion)]

def ControlEvent.toJson : ControlEvent → Value
  | .resetRequired safeRestartHeight reason => .obj
    [("type", .str "resetRequired"), ("safeRestartHeight", .str safeRestartHeight), ("reason", .str reason)]

/-! ## Types with transaction results -/

section Results
variable (jsonb : JsonText → Value)

def TransactionMeta.toJson (m : TransactionMeta) : Value := .obj
  ([("txId", serializeI64AsString m.txId), ("txHash", .str m.txHash),
    ("blockHeight", serializeI64AsString m.blockHeight),
    ("protocolVersion", serializeI64AsString m.protocolVersion),
    ("transactionResult", optionJson jsonb m.transactionResult),
    ("identifiers", optionJson stringsJson m.identifiers), ("fees", m.fees.toJson), ("merkle", m.merkle.toJson)] ++
    listMember "contractActions" contractActionsJson m.contractActions ++ [("raw", optionJson .str m.raw)])

def FeedItem.tagged : FeedItem → String × Value
  | .transactionMeta data => ("transactionMeta", data.toJson jsonb)
  | .merkleCollapsedUpdate data => ("merkleCollapsedUpdate", data.toJson)
  | .shieldedRelevantTx data => ("shieldedRelevantTx", data.toJson)
  | .zswapInputRaw data => ("zswapInputRaw", data.toJson)
  | .dustLedgerEvent data => ("dustLedgerEvent", data.toJson)
  | .unshieldedDelta data => ("unshieldedDelta", data.toJson)
  | .unshieldedUtxo data => ("unshieldedUtxo", data.toJson)
  | .control event => ("control", event.toJson)

/-- Adjacently tagged: the members of an object with a `type` and `data`. -/
def taggedMembers (tagged : String × Value) : List (String × Value) := [("type", .str tagged.1), ("data", tagged.2)]

/-- The item is flattened into the object. -/
def OrderedFeedItem.toJson (o : OrderedFeedItem) : Value := .obj
  (("sequence", .str o.sequence) :: taggedMembers (o.item.tagged jsonb))

def BlockBundle.toJson (b : BlockBundle) : Value := .obj
  [("meta", b.blockMeta.toJson), ("items", .arr (b.items.map (·.toJson jsonb)))]

def FeedResponse.toJson (r : FeedResponse) : Value := .obj
  ([("apiVersion", .str r.apiVersion), ("watermarks", r.watermarks.toJson),
    ("blocks", .arr (r.blocks.map (·.toJson jsonb))), ("nextHeight", serializeOptionI64AsString r.nextHeight)] ++
    optionMember "nextCursor" .str r.nextCursor)

end Results

/-! ## What a reader gets -/

/-- The compact text of a transaction result; nothing for `null`. -/
def resultText : Value → Option JsonText
  | .null => none
  | value => some (String.ofList value.render)

section Canonical
variable (jsonb : JsonText → Value)

/-- A transaction result that is no value is the same as one whose value is `null`. -/
def TransactionMeta.canonical (m : TransactionMeta) : TransactionMeta :=
  { m with transactionResult := resultText (optionJson jsonb m.transactionResult) }

def FeedItem.canonical : FeedItem → FeedItem
  | .transactionMeta data => .transactionMeta (data.canonical jsonb)
  | item => item

def OrderedFeedItem.canonical (o : OrderedFeedItem) : OrderedFeedItem := { o with item := o.item.canonical jsonb }

def BlockBundle.canonical (b : BlockBundle) : BlockBundle := { b with items := b.items.map (·.canonical jsonb) }

def FeedResponse.canonical (r : FeedResponse) : FeedResponse := { r with blocks := r.blocks.map (·.canonical jsonb) }

end Canonical

/-! ## Scalars, members and lists apart -/

@[simp] theorem serializeI64AsString_inj {n n' : Int} :
    serializeI64AsString n = serializeI64AsString n' ↔ n = n' := by
  rw [serializeI64AsString, serializeI64AsString, Value.str.injEq]
  exact ⟨Codec.toString_int_injective, congrArg toString⟩

theorem optionJson_injective {α : Type} {toJson : α → Value} (hinj : Function.Injective toJson)
    (hnull : ∀ value, toJson value ≠ .null) : Function.Injective (optionJson toJson) := by
  intro o o' h
  cases o with
  | none =>
    cases o' with
    | none => rfl
    | some value' => exact absurd h.symm (hnull value')
  | some value =>
    cases o' with
    | none => exact absurd h (hnull value)
    | some value' => rw [hinj h]

@[simp] theorem serializeOptionI64AsString_inj {o o' : Option Int} :
    serializeOptionI64AsString o = serializeOptionI64AsString o' ↔ o = o' :=
  (optionJson_injective (fun _ _ => serializeI64AsString_inj.mp) fun _ => nofun).eq_iff

@[simp] theorem optionJson_str_inj {o o' : Option String} : optionJson .str o = optionJson .str o' ↔ o = o' :=
  (optionJson_injective (fun _ _ => Value.str.inj) fun _ => nofun).eq_iff

theorem stringsJson_injective : Function.Injective stringsJson := fun _ _ h =>
  List.map_injective_iff.mpr (fun _ _ => Value.str.inj) (Value.arr.inj h)

@[simp] theorem stringsJson_inj {texts texts' : List String} :
    stringsJson texts = stringsJson texts' ↔ texts = texts' := stringsJson_injective.eq_iff

@[simp] theorem optionJson_stringsJson_inj {o o' : Option (List String)} :
    optionJson stringsJson o = optionJson stringsJson o' ↔ o = o' :=
  (optionJson_injective stringsJson_injective fun _ => nofun).eq_iff

@[simp] theorem optionMember_str_inj {key : String} {o o' : Option String} :
    optionMember key .str o = optionMember key .str o' ↔ o = o' := by
  cases o <;> cases o' <;> simp [optionMember]

theorem listMember_inj {α : Type} {key : String} {toJson : List α → Value} (hinj : Function.Injective toJson)
    {values values' : List α} : listMember key toJson values = listMember key toJson values' ↔ values = values' := by
  cases values <;> cases values' <;> simp [listMember, hinj.eq_iff]

@[simp] theorem Watermarks.toJson_inj {w w' : Watermarks} : w.toJson = w'.toJson ↔ w = w' := by
  cases w
  cases w'
  simp [Watermarks.toJson]

@[simp] theorem BlockMeta.toJson_inj {m m' : BlockMeta} : m.toJson = m'.toJson ↔ m = m' := by
  cases m
  cases m'
  simp [BlockMeta.toJson]

@[simp] theorem TransactionFees.toJson_inj {f f' : TransactionFees} : f.toJson = f'.toJson ↔ f = f' := by
  cases f
  cases f'
  simp [TransactionFees.toJson]

@[simp] theorem TransactionMerkle.toJson_inj {m m' : TransactionMerkle} : m.toJson = m'.toJson ↔ m = m' := by
  cases m
  cases m'
  simp [TransactionMerkle.toJson]

@[simp] theorem ContractActionSummary.toJson_inj {a a' : ContractActionSummary} : a.toJson = a'.toJson ↔ a = a' := by
  cases a
  cases a'
  simp [ContractActionSummary.toJson]

theorem contractActionsJson_injective : Function.Injective contractActionsJson := fun _ _ h =>
  List.map_injective_iff.mpr (fun _ _ => ContractActionSummary.toJson_inj.mp) (Value.arr.inj h)

@[simp] theorem contractActionsJson_inj {actions actions' : List ContractActionSummary} :
    contractActionsJson actions = contractActionsJson actions' ↔ actions = actions' :=
  contractActionsJson_injective.eq_iff

@[simp] theorem ShieldedRelevantTx.toJson_inj {t t' : ShieldedRelevantTx} : t.toJson = t'.toJson ↔ t = t' := by
  cases t
  cases t'
  simp [ShieldedRelevantTx.toJson]

@[simp] theorem ZswapInputRaw.toJson_inj {e e' : ZswapInputRaw} : e.toJson = e'.toJson ↔ e = e' := by
  cases e
  cases e'
  simp [ZswapInputRaw.toJson]

@[simp] theorem DustLedgerEventRaw.toJson_inj {e e' : DustLedgerEventRaw} : e.toJson = e'.toJson ↔ e = e' := by
  cases e
  cases e'
  simp [DustLedgerEventRaw.toJson]

@[simp] theorem UnshieldedDelta.toJson_inj {d d' : UnshieldedDelta} : d.toJson = d'.toJson ↔ d = d' := by
  cases d
  cases d'
  simp [UnshieldedDelta.toJson]

@[simp] theorem UnshieldedUtxoEvent.toJson_inj {e e' : UnshieldedUtxoEvent} : e.toJson = e'.toJson ↔ e = e' := by
  cases e
  cases e'
  simp [UnshieldedUtxoEvent.toJson]

@[simp] theorem MerkleCollapsedUpdate.toJson_inj {u u' : MerkleCollapsedUpdate} : u.toJson = u'.toJson ↔ u = u' := by
  cases u
  cases u'
  simp [MerkleCollapsedUpdate.toJson]

@[simp] theorem ControlEvent.toJson_inj {e e' : ControlEvent} : e.toJson = e'.toJson ↔ e = e' := by
  cases e
  cases e'
  simp [ControlEvent.toJson]

/-! ## Responses apart -/

theorem resultText_eq_some {value : Value} (h : value ≠ .null) :
    resultText value = some (String.ofList value.render) := by
  cases value with
  | null => exact absurd rfl h
  | _ => rfl

theorem resultText_injective : Function.Injective resultText := by
  intro value value' h
  by_cases hnull : value = .null
  · by_cases hnull' : value' = .null
    · rw [hnull, hnull']
    · rw [hnull, resultText_eq_some hnull'] at h
      cases h
  · by_cases hnull' : value' = .null
    · rw [hnull', resultText_eq_some hnull] at h
      cases h
    · rw [resultText_eq_some hnull, resultText_eq_some hnull'] at h
      exact render_injective (String.ofList_injective (Option.some.inj h))

theorem map_eq_map_iff_map_eq_map {α β γ : Type} {f : α → β} {g : α → γ} (h : ∀ a a', f a = f a' ↔ g a = g a')
    {l l' : List α} : l.map f = l'.map f ↔ l.map g = l'.map g := by
  induction l generalizing l' with
  | nil =>
    cases l' with
    | nil => exact iff_of_true rfl rfl
    | cons a' l' => exact ⟨nofun, nofun⟩
  | cons a l ih =>
    cases l' with
    | nil => exact ⟨nofun, nofun⟩
    | cons a' l' =>
      rw [List.map_cons, List.map_cons, List.map_cons, List.map_cons, List.cons.injEq, List.cons.injEq, h, ih]

section Canonical
variable (jsonb : JsonText → Value)

theorem transactionMeta_toJson_eq_iff (m m' : TransactionMeta) :
    m.toJson jsonb = m'.toJson jsonb ↔ m.canonical jsonb = m'.canonical jsonb := by
  cases m
  cases m'
  simp [TransactionMeta.toJson, TransactionMeta.canonical, listMember_inj contractActionsJson_injective,
    resultText_injective.eq_iff]

theorem feedItem_tagged_eq_iff (item item' : FeedItem) :
    item.tagged jsonb = item'.tagged jsonb ↔ item.canonical jsonb = item'.canonical jsonb := by
  cases item <;> cases item' <;> simp [FeedItem.tagged, FeedItem.canonical, transactionMeta_toJson_eq_iff]

theorem orderedFeedItem_toJson_eq_iff (o o' : OrderedFeedItem) :
    o.toJson jsonb = o'.toJson jsonb ↔ o.canonical jsonb = o'.canonical jsonb := by
  have htagged := feedItem_tagged_eq_iff jsonb o.item o'.item
  rw [Prod.ext_iff] at htagged
  cases o
  cases o'
  simp only [OrderedFeedItem.toJson, OrderedFeedItem.canonical, taggedMembers, OrderedFeedItem.mk.injEq] at htagged ⊢
  simp [htagged]

theorem blockBundle_toJson_eq_iff (b b' : BlockBundle) :
    b.toJson jsonb = b'.toJson jsonb ↔ b.canonical jsonb = b'.canonical jsonb := by
  have hitems : b.items.map (·.toJson jsonb) = b'.items.map (·.toJson jsonb) ↔
      b.items.map (·.canonical jsonb) = b'.items.map (·.canonical jsonb) :=
    map_eq_map_iff_map_eq_map (orderedFeedItem_toJson_eq_iff jsonb)
  cases b
  cases b'
  simp only [BlockBundle.toJson, BlockBundle.canonical, BlockBundle.mk.injEq] at hitems ⊢
  simp [hitems]

theorem feedResponse_toJson_eq_iff (r r' : FeedResponse) :
    r.toJson jsonb = r'.toJson jsonb ↔ r.canonical jsonb = r'.canonical jsonb := by
  have hblocks : r.blocks.map (·.toJson jsonb) = r'.blocks.map (·.toJson jsonb) ↔
      r.blocks.map (·.canonical jsonb) = r'.blocks.map (·.canonical jsonb) :=
    map_eq_map_iff_map_eq_map (blockBundle_toJson_eq_iff jsonb)
  cases r
  cases r'
  simp only [FeedResponse.toJson, FeedResponse.canonical, FeedResponse.mk.injEq] at hblocks ⊢
  simp [hblocks]

end Canonical

/-! ## Numbers -/

def FeedItem.results : FeedItem → List JsonText
  | .transactionMeta data => data.transactionResult.toList
  | _ => []

def FeedItem.ownNumbers : FeedItem → List Int
  | .merkleCollapsedUpdate data => [data.protocolVersion]
  | _ => []

def FeedItem.numbers (jsonb : JsonText → Value) (item : FeedItem) : List Int :=
  item.ownNumbers ++ item.results.flatMap fun result => (jsonb result).numbers

@[simp] theorem numbers_serializeI64AsString (n : Int) : (serializeI64AsString n).numbers = [] := rfl

theorem numbers_optionJson {α : Type} (toJson : α → Value) (o : Option α) :
    (optionJson toJson o).numbers = o.toList.flatMap fun value => (toJson value).numbers := by
  cases o with
  | none => rfl
  | some value => simp [optionJson]

theorem numbers_optionMember {α : Type} (key : String) (toJson : α → Value) (o : Option α) :
    ((optionMember key toJson o).flatMap fun member => member.2.numbers) =
      o.toList.flatMap fun value => (toJson value).numbers := by
  cases o with
  | none => rfl
  | some value => simp [optionMember]

@[simp] theorem numbers_serializeOptionI64AsString (o : Option Int) : (serializeOptionI64AsString o).numbers = [] := by
  simp [serializeOptionI64AsString, numbers_optionJson]

@[simp] theorem numbers_stringsJson (texts : List String) : (stringsJson texts).numbers = [] := by
  simp [stringsJson, List.flatMap_map]

@[simp] theorem numbers_contractActionSummary (a : ContractActionSummary) : a.toJson.numbers = [] := by
  simp [ContractActionSummary.toJson, numbers_optionMember]

@[simp] theorem numbers_contractActionsJson (actions : List ContractActionSummary) :
    (contractActionsJson actions).numbers = [] := by
  simp [contractActionsJson, List.flatMap_map]

@[simp] theorem numbers_contractActionsMember (actions : List ContractActionSummary) :
    ((listMember "contractActions" contractActionsJson actions).flatMap fun member => member.2.numbers) = [] := by
  cases actions with
  | nil => rfl
  | cons action actions => simp [listMember]

@[simp] theorem numbers_watermarks (w : Watermarks) : w.toJson.numbers = [] := by simp [Watermarks.toJson]

@[simp] theorem numbers_blockMeta (m : BlockMeta) : m.toJson.numbers = [] := by simp [BlockMeta.toJson]

@[simp] theorem numbers_controlEvent (e : ControlEvent) : e.toJson.numbers = [] := by
  cases e
  simp [ControlEvent.toJson]

section Numbers
variable (jsonb : JsonText → Value)

theorem numbers_tagged (item : FeedItem) : (item.tagged jsonb).2.numbers = item.numbers jsonb := by
  cases item with
  | transactionMeta data =>
    simp [FeedItem.tagged, FeedItem.numbers, FeedItem.ownNumbers, FeedItem.results, TransactionMeta.toJson,
      TransactionFees.toJson, TransactionMerkle.toJson, List.flatMap_append, numbers_optionJson]
  | control event => simp [FeedItem.tagged, FeedItem.numbers, FeedItem.ownNumbers, FeedItem.results]
  | _ data =>
    simp [FeedItem.tagged, FeedItem.numbers, FeedItem.ownNumbers, FeedItem.results, MerkleCollapsedUpdate.toJson,
      ShieldedRelevantTx.toJson, ZswapInputRaw.toJson, DustLedgerEventRaw.toJson, UnshieldedDelta.toJson,
      UnshieldedUtxoEvent.toJson]

theorem numbers_blockBundle (b : BlockBundle) :
    (b.toJson jsonb).numbers = b.items.flatMap fun o => o.item.numbers jsonb := by
  simp [BlockBundle.toJson, OrderedFeedItem.toJson, taggedMembers, List.flatMap_map, numbers_tagged]

theorem numbers_feedResponse (r : FeedResponse) : (r.toJson jsonb).numbers =
    r.blocks.flatMap fun b => b.items.flatMap fun o => o.item.numbers jsonb := by
  simp [FeedResponse.toJson, List.flatMap_map, numbers_optionMember, numbers_blockBundle]

end Numbers

end NocyWalletFeed
