import Mathlib.Data.List.Induction
import NocyWalletFeed.Library.Json
import NocyWalletFeed.Library.Register
import NocyWalletFeed.Sequence

/-!
# The ledger state snapshots (`snapshot.rs`)

The client keeps the last snapshot it got, with the time it got it, and answers from it while it is fresh. Times are
milliseconds.

* `LedgerStateSnapshot.deserialize` : a snapshot from its JSON value;
* `SnapshotClient` : the cache, its lifetime, and the requests that fill it;
* `snapshotStep` : the background loop and the requests, one event a step;
* `getCachedSnapshot_iff` : what a run leaves in the cache is the last snapshot accepted, while it is fresh.
-/

namespace NocyWalletFeed
open Codec Register

/-! ## Snapshots -/

structure LedgerStateSnapshot where
  blockHeight : Int
  protocolVersion : Nat
  merkleRoot : String
  firstFreeIndex : Nat
  commitmentCount : Nat
  timestampMs : Int
  deriving DecidableEq, Repr

/-- The numbers of a snapshot fit their types. -/
structure LedgerStateSnapshot.InRange (s : LedgerStateSnapshot) : Prop where
  blockHeight : InI64 s.blockHeight
  protocolVersion : s.protocolVersion < 2 ^ 32
  firstFreeIndex : s.firstFreeIndex < 2 ^ 64
  commitmentCount : s.commitmentCount < 2 ^ 64
  timestampMs : InI64 s.timestampMs

namespace LedgerStateSnapshot

def asI64 : Json.Value → Option Int
  | .num n => if InI64 n then some n else none
  | _ => none

def asUnsigned (bits : Nat) : Json.Value → Option Nat
  | .num n => if 0 ≤ n ∧ n < 2 ^ bits then some n.toNat else none
  | _ => none

def asString : Json.Value → Option String
  | .str s => some s
  | _ => none

/-- The value of a field: it must be there, and once. -/
def field (members : List (String × Json.Value)) (name : String) : Option Json.Value :=
  match members.filter (fun m => m.1 = name) with
  | [m] => some m.2
  | _ => none

def ofFields (height version root firstFree count timestamp : Json.Value) : Option LedgerStateSnapshot := do
  let blockHeight ← asI64 height
  let protocolVersion ← asUnsigned 32 version
  let merkleRoot ← asString root
  let firstFreeIndex ← asUnsigned 64 firstFree
  let commitmentCount ← asUnsigned 64 count
  let timestampMs ← asI64 timestamp
  some { blockHeight, protocolVersion, merkleRoot, firstFreeIndex, commitmentCount, timestampMs }

/-- The derived reader: an object with the fields in camel case, in any order and among others, or an array of the
fields in their order. -/
def deserialize : Json.Value → Option LedgerStateSnapshot
  | .obj members => do
    ofFields (← field members "blockHeight") (← field members "protocolVersion") (← field members "merkleRoot")
      (← field members "firstFreeIndex") (← field members "commitmentCount") (← field members "timestampMs")
  | .arr [height, version, root, firstFree, count, timestamp] => ofFields height version root firstFree count timestamp
  | _ => none

theorem asI64_eq_some {v : Json.Value} {n : Int} (h : asI64 v = some n) : InI64 n := by
  cases v with
  | num m =>
    obtain ⟨hm, rfl⟩ : InI64 m ∧ m = n := by simpa [asI64] using h
    exact hm
  | _ => cases h

theorem asUnsigned_eq_some {bits : Nat} {v : Json.Value} {n : Nat} (h : asUnsigned bits v = some n) : n < 2 ^ bits := by
  cases v with
  | num m =>
    obtain ⟨⟨hpos, hlt⟩, rfl⟩ : (0 ≤ m ∧ m < 2 ^ bits) ∧ m.toNat = n := by simpa [asUnsigned] using h
    have : ((m.toNat : Int)) < ((2 ^ bits : Nat) : Int) := by
      rw [Int.toNat_of_nonneg hpos]
      exact_mod_cast hlt
    exact_mod_cast this
  | _ => cases h

theorem ofFields_inRange {height version root firstFree count timestamp : Json.Value} {s : LedgerStateSnapshot}
    (h : ofFields height version root firstFree count timestamp = some s) : s.InRange := by
  obtain ⟨blockHeight, hheight, h⟩ := Option.bind_eq_some_iff.mp h
  obtain ⟨protocolVersion, hversion, h⟩ := Option.bind_eq_some_iff.mp h
  obtain ⟨merkleRoot, -, h⟩ := Option.bind_eq_some_iff.mp h
  obtain ⟨firstFreeIndex, hfirst, h⟩ := Option.bind_eq_some_iff.mp h
  obtain ⟨commitmentCount, hcount, h⟩ := Option.bind_eq_some_iff.mp h
  obtain ⟨timestampMs, htimestamp, h⟩ := Option.bind_eq_some_iff.mp h
  obtain rfl := Option.some.inj h
  exact ⟨asI64_eq_some hheight, asUnsigned_eq_some hversion, asUnsigned_eq_some hfirst, asUnsigned_eq_some hcount,
    asI64_eq_some htimestamp⟩

theorem deserialize_inRange {v : Json.Value} {s : LedgerStateSnapshot} (h : deserialize v = some s) : s.InRange := by
  unfold deserialize at h
  split at h
  next members =>
    obtain ⟨height, -, h⟩ := Option.bind_eq_some_iff.mp h
    obtain ⟨version, -, h⟩ := Option.bind_eq_some_iff.mp h
    obtain ⟨root, -, h⟩ := Option.bind_eq_some_iff.mp h
    obtain ⟨firstFree, -, h⟩ := Option.bind_eq_some_iff.mp h
    obtain ⟨count, -, h⟩ := Option.bind_eq_some_iff.mp h
    obtain ⟨timestamp, -, h⟩ := Option.bind_eq_some_iff.mp h
    exact ofFields_inRange h
  next => exact ofFields_inRange h
  next => cases h

end LedgerStateSnapshot

/-! ## The client -/

structure CachedSnapshot where
  snapshot : LedgerStateSnapshot
  fetchedAt : Nat
  deriving DecidableEq, Repr

/-- The time a snapshot has been in the cache is within the lifetime. -/
def CachedSnapshot.Fresh (cached : CachedSnapshot) (cacheTtl now : Nat) : Prop := now - cached.fetchedAt < cacheTtl

instance (cached : CachedSnapshot) (cacheTtl now : Nat) : Decidable (cached.Fresh cacheTtl now) :=
  inferInstanceAs (Decidable (_ < _))

structure SnapshotClient where
  cache : Option CachedSnapshot
  cacheTtl : Nat
  deriving DecidableEq, Repr

def defaultCacheTtl : Nat := 30000

/-- How long the background loop waits before it subscribes again. -/
def reconnectDelay : Nat := 5000

namespace SnapshotClient

/-- Create a new snapshot client with custom cache TTL. -/
def withCacheTtl (cacheTtl : Nat) : SnapshotClient := ⟨none, cacheTtl⟩

def new : SnapshotClient := withCacheTtl defaultCacheTtl

/-- The latest cached snapshot, only if it is still fresh. -/
def getCachedSnapshot (client : SnapshotClient) (now : Nat) : Option LedgerStateSnapshot :=
  match client.cache with
  | some cached => if cached.Fresh client.cacheTtl now then some cached.snapshot else none
  | none => none

def store (client : SnapshotClient) (now : Nat) (snapshot : LedgerStateSnapshot) : SnapshotClient :=
  { client with cache := some ⟨snapshot, now⟩ }

/-- `fromSlice` is the JSON reader; it may read a number that is no integer as `null`, which no field accepts either. -/
def parseSnapshot (fromSlice : Bytes → Option Json.Value) (payload : Bytes) : Option LedgerStateSnapshot :=
  (fromSlice payload).bind LedgerStateSnapshot.deserialize

section Requests
variable (fromSlice : Bytes → Option Json.Value) (client : SnapshotClient) (now : Nat) (response : Option Bytes)

/-- Fetch a fresh snapshot and update the cache; there is no response to a request that failed or timed out. -/
def fetchAndCacheSnapshot : Option LedgerStateSnapshot × SnapshotClient :=
  match response.bind (parseSnapshot fromSlice) with
  | some snapshot => (some snapshot, client.store now snapshot)
  | none => (none, client)

def refresh : Option LedgerStateSnapshot × SnapshotClient := client.fetchAndCacheSnapshot fromSlice now response

end Requests

end SnapshotClient

/-! ## The background loop -/

/-- Where the background loop is: it subscribes next, at a time, or it reads the messages of its subscription. -/
inductive Subscriber where
  | waiting (wake : Nat)
  | subscribed
  deriving DecidableEq, Repr

structure SnapshotState where
  client : SnapshotClient
  subscriber : Subscriber
  deriving DecidableEq, Repr

/-- What happens to the client: an attempt to subscribe, a message, the end of the subscription, or the response to a
request. -/
inductive SnapshotEvent where
  | subscribe (ok : Bool)
  | message (reply : Option String) (payload : Bytes)
  | ended
  | fetched (response : Option Bytes)
  deriving DecidableEq, Repr

section Loop
variable (fromSlice : Bytes → Option Json.Value)

/-- The update in a message: request messages, which have a reply subject, and empty payloads are ignored. -/
def snapshotUpdate (reply : Option String) (payload : Bytes) : Option LedgerStateSnapshot :=
  if reply.isSome || payload.isEmpty then none else SnapshotClient.parseSnapshot fromSlice payload

/-- One event. The loop meets only the events of the place where it is. -/
def snapshotStep (s : SnapshotState) (turn : Nat × SnapshotEvent) : SnapshotState :=
  match turn.2, s.subscriber with
  | .subscribe ok, .waiting wake =>
    if turn.1 < wake then s
    else { s with subscriber := if ok then .subscribed else .waiting (turn.1 + reconnectDelay) }
  | .message reply payload, .subscribed =>
    match snapshotUpdate fromSlice reply payload with
    | some snapshot => { s with client := s.client.store turn.1 snapshot }
    | none => s
  | .ended, .subscribed => { s with subscriber := .waiting (turn.1 + reconnectDelay) }
  | .fetched response, _ => { s with client := (s.client.refresh fromSlice turn.1 response).2 }
  | _, _ => s

/-- The start of the program: nothing is cached, and the loop subscribes at once. -/
def SnapshotState.initial (client : SnapshotClient) : SnapshotState := ⟨client, .waiting 0⟩

def SnapshotEvent.offer : SnapshotEvent → Option LedgerStateSnapshot
  | .message reply payload => snapshotUpdate fromSlice reply payload
  | .fetched response => response.bind (SnapshotClient.parseSnapshot fromSlice)
  | .subscribe _ => none
  | .ended => none

/-- The client takes the event in: a message only while the loop is subscribed. -/
def Heard (s : SnapshotState) : SnapshotEvent → Bool
  | .message _ _ => s.subscriber = .subscribed
  | .fetched _ => true
  | .subscribe _ => false
  | .ended => false

def accepted (s : SnapshotState) (turn : Nat × SnapshotEvent) : Option CachedSnapshot :=
  if Heard s turn.2 then (turn.2.offer fromSlice).map fun snapshot => ⟨snapshot, turn.1⟩ else none

end Loop

section Runs
variable {fromSlice : Bytes → Option Json.Value}

/-- **Step.** What a step leaves in the cache. -/
theorem cache_snapshotStep (s : SnapshotState) (turn : Nat × SnapshotEvent) :
    (snapshotStep fromSlice s turn).client =
      { s.client with cache := (accepted fromSlice s turn).or s.client.cache } := by
  obtain ⟨client, subscriber⟩ := s
  obtain ⟨now, event⟩ := turn
  cases event with
  | subscribe ok =>
    cases subscriber with
    | waiting wake =>
      unfold snapshotStep
      dsimp only
      split_ifs <;> rfl
    | subscribed => rfl
  | message reply payload =>
    cases subscriber with
    | waiting wake => rfl
    | subscribed =>
      unfold snapshotStep accepted SnapshotEvent.offer
      dsimp only
      cases snapshotUpdate fromSlice reply payload with
      | some snapshot => rfl
      | none => rfl
  | ended =>
    cases subscriber with
    | waiting wake => rfl
    | subscribed => rfl
  | fetched response =>
    have hstep : (snapshotStep fromSlice ⟨client, subscriber⟩ (now, .fetched response)).client =
        (client.fetchAndCacheSnapshot fromSlice now response).2 := by
      cases subscriber <;> rfl
    rw [hstep]
    unfold SnapshotClient.fetchAndCacheSnapshot accepted SnapshotEvent.offer
    dsimp only
    cases response.bind (SnapshotClient.parseSnapshot fromSlice) with
    | some snapshot => rfl
    | none => rfl

/-- **Run.** A run leaves the last accepted snapshot in the cache. -/
theorem cache_after (s : SnapshotState) (turns : List (Nat × SnapshotEvent)) :
    (turns.foldl (snapshotStep fromSlice) s).client = { s.client with
      cache := (writes (snapshotStep fromSlice) (accepted fromSlice) s turns).getLast?.or s.client.cache } := by
  induction turns using List.reverseRecOn with
  | nil => rfl
  | append_singleton turns turn ih =>
    rw [List.foldl_concat, cache_snapshotStep, ih, writes_concat, List.getLast?_append, Option.or_assoc]
    cases accepted fromSlice (turns.foldl (snapshotStep fromSlice) s) turn with
    | some cached => rfl
    | none => rfl

theorem getCachedSnapshot_eq_some {client : SnapshotClient} {now : Nat} {snapshot : LedgerStateSnapshot} :
    client.getCachedSnapshot now = some snapshot ↔
      ∃ cached, client.cache = some cached ∧ cached.Fresh client.cacheTtl now ∧ cached.snapshot = snapshot := by
  unfold SnapshotClient.getCachedSnapshot
  cases client.cache with
  | none => simp
  | some cached => simp

/-- **Runs.** The client answers with the last snapshot accepted in a run, if that was within its lifetime. -/
theorem getCachedSnapshot_iff (cacheTtl : Nat) (turns : List (Nat × SnapshotEvent)) (now : Nat)
    (snapshot : LedgerStateSnapshot) :
    let initial := SnapshotState.initial (.withCacheTtl cacheTtl)
    (turns.foldl (snapshotStep fromSlice) initial).client.getCachedSnapshot now = some snapshot ↔
      ∃ pre turn post, WritesAt (snapshotStep fromSlice) (accepted fromSlice) initial turns pre turn post
          ⟨snapshot, turn.1⟩ ∧
        Silent (snapshotStep fromSlice) (accepted fromSlice)
          ((pre ++ [turn]).foldl (snapshotStep fromSlice) initial) post ∧
        now - turn.1 < cacheTtl := by
  intro initial
  rw [cache_after, getCachedSnapshot_eq_some]
  have hnone : initial.client.cache = none := rfl
  rw [hnone, Option.or_none]
  constructor
  · rintro ⟨cached, hcache, hfresh, rfl⟩
    obtain ⟨pre, turn, post, hat, hsilent⟩ := getLast?_writes.mp hcache
    have htime : cached = ⟨cached.snapshot, turn.1⟩ := by
      have hwrite := hat.write
      unfold accepted at hwrite
      split_ifs at hwrite
      obtain ⟨snapshot, -, rfl⟩ := Option.map_eq_some_iff.mp hwrite
      rfl
    refine ⟨pre, turn, post, htime ▸ hat, hsilent, ?_⟩
    rw [htime] at hfresh
    exact hfresh
  · rintro ⟨pre, turn, post, hat, hsilent, hfresh⟩
    exact ⟨⟨snapshot, turn.1⟩, getLast?_writes.mpr ⟨pre, turn, post, hat, hsilent⟩, hfresh, rfl⟩

end Runs

end NocyWalletFeed
