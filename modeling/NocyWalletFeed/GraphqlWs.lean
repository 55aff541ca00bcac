import NocyWalletFeed.Feed

/-!
# The upstream subscription (`graphql_ws.rs`)

`fetchMerkleUpdates` reads the frames of one temporary `shieldedTransactions` subscription. The socket is an input: the
result of opening it (connect, init, ack, subscribe) and the frames read afterwards, up to the close of the connection
or the collect timeout.
-/

namespace NocyWalletFeed

/-- Collapsed merkle tree update data; `update` is hex encoded. -/
structure CollapsedMerkleUpdate where
  startIndex : Int
  endIndex : Int
  update : String
  protocolVersion : Nat
  deriving DecidableEq, Repr

/-- `value as u32` of an `i32`. -/
def asU32 (value : Int) : Nat := (value % 2 ^ 32).toNat

theorem asU32_lt (value : Int) : asU32 value < 2 ^ 32 := by
  unfold asU32
  omega

structure CollapsedMerkleTree where
  startIndex : Int
  endIndex : Int
  update : String
  protocolVersion : Int
  deriving DecidableEq, Repr

inductive ShieldedTransactionsEvent where
  | relevantTransaction (transactionStartIndex : Int) (collapsedMerkleTree : Option CollapsedMerkleTree)
  | shieldedTransactionsProgress
  deriving DecidableEq, Repr

/-- One item of the socket's stream: a text message of the protocol, or what else it may yield. `ignored` is a frame the
loop skips (an unparsable text, a pong, a second ack, a binary frame). -/
inductive UpstreamFrame where
  | next (errors : Option (List String)) (data : Option ShieldedTransactionsEvent)
  | error (payload : List String)
  | complete
  | ping
  | ignored
  | close
  | readError (message : String)
  deriving DecidableEq, Repr

/-- The behaviour of the upstream over one subscription. -/
structure UpstreamConversation where
  opening : Except AppError Unit
  frames : List UpstreamFrame

/-- The answer to a relevant transaction: its collapsed tree, if that is exactly `[fromIndex, toIndex)`. -/
def relevantTransactionUpdates (fromIndex toIndex transactionStartIndex : Int) :
    Option CollapsedMerkleTree → List CollapsedMerkleUpdate
  | none => []
  | some tree =>
    if transactionStartIndex ≠ toIndex then []
    else if tree.startIndex ≠ fromIndex then []
    else if tree.endIndex ≠ toIndex - 1 then []
    else [⟨tree.startIndex, tree.endIndex, tree.update, asU32 tree.protocolVersion⟩]

def collectUpdates (fromIndex toIndex : Int) : List UpstreamFrame → Except AppError (List CollapsedMerkleUpdate)
  | [] => .ok []
  | .next (some errors) _ :: _ => .error (.upstreamError ("GraphQL subscription error: " ++ "; ".intercalate errors))
  | .next none (some (.relevantTransaction transactionStartIndex tree)) :: _ =>
    .ok (relevantTransactionUpdates fromIndex toIndex transactionStartIndex tree)
  | .error payload :: _ => .error (.upstreamError ("GraphQL subscription error: " ++ "; ".intercalate payload))
  | .complete :: _ => .ok []
  | .close :: _ => .ok []
  | .readError message :: _ => .error (.upstreamError ("WebSocket error: " ++ message))
  | .next none (some .shieldedTransactionsProgress) :: frames => collectUpdates fromIndex toIndex frames
  | .next none none :: frames => collectUpdates fromIndex toIndex frames
  | .ping :: frames => collectUpdates fromIndex toIndex frames
  | .ignored :: frames => collectUpdates fromIndex toIndex frames

/-- Fetch collapsed merkle updates for `[fromIndex, toIndex)` over a temporary subscription. -/
def fetchMerkleUpdates (upstream : UpstreamConversation) (fromIndex toIndex : Int) :
    Except AppError (List CollapsedMerkleUpdate) :=
  if fromIndex ≥ toIndex then .ok []
  else
    match upstream.opening with
    | .error e => .error e
    | .ok () => collectUpdates fromIndex toIndex upstream.frames

theorem relevantTransactionUpdates_cases (fromIndex toIndex start : Int) (tree : Option CollapsedMerkleTree) :
    relevantTransactionUpdates fromIndex toIndex start tree = [] ∨
      ∃ u, relevantTransactionUpdates fromIndex toIndex start tree = [u] ∧ u.startIndex = fromIndex ∧
        u.endIndex = toIndex - 1 ∧ u.protocolVersion < 2 ^ 32 := by
  cases tree with
  | none => exact Or.inl rfl
  | some tree =>
    by_cases h₁ : start = toIndex
    · by_cases h₂ : tree.startIndex = fromIndex
      · by_cases h₃ : tree.endIndex = toIndex - 1
        · refine Or.inr ⟨⟨tree.startIndex, tree.endIndex, tree.update, asU32 tree.protocolVersion⟩, ?_, h₂, h₃,
            asU32_lt tree.protocolVersion⟩
          simp [relevantTransactionUpdates, h₁, h₂, h₃]
        · exact Or.inl (by simp [relevantTransactionUpdates, h₃])
      · exact Or.inl (by simp [relevantTransactionUpdates, h₂])
    · exact Or.inl (by simp [relevantTransactionUpdates, h₁])

/-- What one subscription yields: an error, nothing, or a single update that is exactly the requested range, with a
`u32` version. -/
theorem collectUpdates_cases (fromIndex toIndex : Int) (frames : List UpstreamFrame)
    {updates : List CollapsedMerkleUpdate} (h : collectUpdates fromIndex toIndex frames = .ok updates) :
    updates = [] ∨ ∃ u, updates = [u] ∧ u.startIndex = fromIndex ∧ u.endIndex = toIndex - 1 ∧
      u.protocolVersion < 2 ^ 32 := by
  induction frames with
  | nil => exact Or.inl (Except.ok.inj h).symm
  | cons frame frames ih =>
    match frame with
    | .next (some errors) _ => cases h
    | .next none (some (.relevantTransaction start tree)) =>
      obtain rfl := Except.ok.inj h
      exact relevantTransactionUpdates_cases fromIndex toIndex start tree
    | .next none (some .shieldedTransactionsProgress) => exact ih h
    | .next none none => exact ih h
    | .error payload => cases h
    | .complete => exact Or.inl (Except.ok.inj h).symm
    | .close => exact Or.inl (Except.ok.inj h).symm
    | .readError message => cases h
    | .ping => exact ih h
    | .ignored => exact ih h

/-- **An upstream answer is an error, empty, or one update that is exactly the requested range.** -/
theorem fetchMerkleUpdates_cases {upstream : UpstreamConversation} {fromIndex toIndex : Int}
    {updates : List CollapsedMerkleUpdate} (h : fetchMerkleUpdates upstream fromIndex toIndex = .ok updates) :
    updates = [] ∨ ∃ u, updates = [u] ∧ u.startIndex = fromIndex ∧ u.endIndex = toIndex - 1 ∧
      u.protocolVersion < 2 ^ 32 := by
  unfold fetchMerkleUpdates at h
  split_ifs at h with hle
  · exact Or.inl (Except.ok.inj h).symm
  · cases hopen : upstream.opening with
    | error e => rw [hopen] at h; cases h
    | ok u => rw [hopen] at h; exact collectUpdates_cases fromIndex toIndex _ h

end NocyWalletFeed
