import NocyWalletFeed.MerkleCache
import NocyWalletFeed.Library.Tiling

/-!
# The writers of the merkle cache

`run_subscription` and any number of `store_updates` calls write to the cache, statement by statement, and each
statement may fail. A failure ends a `store_updates` call; the subscription logs it and goes on with its next update.

* `CacheSystem`, `CacheAction` : the cache, the subscription and the calls in flight, and what may happen next;
* `NoHole` : every index below `highest_end_index`, where the next subscription resumes, lies in a row;
* `Gapless` : a statement does not raise `highest_end_index` over an index without a row;
* `cache_noHole_iff` : in every run, the first holds throughout exactly when the second holds at every step.
-/

namespace NocyWalletFeed
open Codec Walk Tiling

/-! ## The system -/

/-- A run of `run_subscription`: the index it was started from, the updates received so far, and what is left of the
`cache_update` call for the last of them. -/
structure CacheSubscription where
  startIndex : Int
  received : List CollapsedMerkleTree
  pending : List CacheStatement
  deriving DecidableEq, Repr

/-- The index after the last update received. -/
def CacheSubscription.nextIndex (sub : CacheSubscription) : Int :=
  tilesEnd CollapsedMerkleTree.endIndex sub.startIndex sub.received

/-- `stores` holds what is left of each `store_updates` call. -/
structure CacheSystem where
  cache : MerkleCache
  subscription : Option CacheSubscription
  stores : List (List CacheStatement)
  deriving DecidableEq, Repr

def CacheSystem.initial : CacheSystem := ⟨.empty, none, []⟩

inductive CacheAction where
  | subscribe
  | receive (tree : CollapsedMerkleTree)
  | subscriptionStatement (fails : Bool)
  | disconnect
  | store (updates : List CollapsedMerkleUpdate)
  | storeStatement (call : Nat) (fails : Bool)
  | restart
  deriving DecidableEq, Repr

/-- Execute the next statement of a call; a failure ends the call. -/
def execNext (cache : MerkleCache) (fails : Bool) : List CacheStatement → MerkleCache × List CacheStatement
  | [] => (cache, [])
  | statement :: rest => if fails then (cache, []) else (statement.exec cache, rest)

namespace CacheSystem

def step (sys : CacheSystem) : CacheAction → CacheSystem
  | .subscribe => { sys with subscription := some ⟨sys.cache.highestEndIndex, [], []⟩ }
  | .receive tree =>
    { sys with
      subscription := sys.subscription.map fun sub =>
        { sub with received := sub.received ++ [tree], pending := cacheUpdate tree } }
  | .subscriptionStatement fails =>
    match sys.subscription with
    | none => sys
    | some sub =>
      let executed := execNext sys.cache fails sub.pending
      { sys with cache := executed.1, subscription := some { sub with pending := executed.2 } }
  | .disconnect => { sys with subscription := none }
  | .store updates => { sys with stores := sys.stores ++ [storeUpdates updates] }
  | .storeStatement call fails =>
    match sys.stores[call]? with
    | none => sys
    | some pending =>
      let executed := execNext sys.cache fails pending
      { sys with cache := executed.1, stores := sys.stores.set call executed.2 }
  | .restart => { sys with subscription := none, stores := [] }

/-- One subscription at a time; it reads its next update after the `cache_update` call for the one before, and its
updates tile the tree from the index it was started at. A `store_updates` call stores what a fetch has returned. -/
def Possible (sys : CacheSystem) : CacheAction → Prop
  | .subscribe => sys.subscription = none
  | .receive tree => ∃ sub ∈ sys.subscription, sub.pending = [] ∧
      Tiling.StartsAt CollapsedMerkleTree.startIndex CollapsedMerkleTree.endIndex sub.nextIndex tree
  | .store updates => ∃ upstream fromIndex toIndex, fetchMerkleUpdates upstream fromIndex toIndex = .ok updates
  | _ => True

end CacheSystem

/-! ## Holes -/

def Covered (rows : List CachedMerkleUpdate) (i : Int) : Prop := ∃ row ∈ rows, row.startIndex ≤ i ∧ i ≤ row.endIndex

instance (rows : List CachedMerkleUpdate) (i : Int) : Decidable (Covered rows i) :=
  inferInstanceAs (Decidable (∃ row ∈ rows, _))

/-- Every index below the one the next subscription is started from lies in a row. -/
def NoHole (cache : MerkleCache) : Prop := ∀ i, 0 ≤ i → i < cache.highestEndIndex → Covered cache.rows i

/-- The row with which the next statement of a call raises `highest_end_index`, where it does. -/
def raisesTo (cache : MerkleCache) : List CacheStatement → Option CachedMerkleUpdate
  | .raise row :: _ => if cache.highestEndIndex < row.endIndex then some row else none
  | _ => none

/-- A statement that succeeds does not raise `highest_end_index` over an index without a row: of a `store_updates` call,
over one between the old value and the start of the range it stores; of the subscription, over one of an update received
in the same run, whose row was lost. -/
def Gapless (sys : CacheSystem) : CacheAction → Prop
  | .subscriptionStatement false => ∀ sub ∈ sys.subscription, (raisesTo sys.cache sub.pending).isSome →
      ∀ tree ∈ sub.received, ∀ i, sys.cache.highestEndIndex ≤ i → tree.startIndex ≤ i → i ≤ tree.endIndex →
        Covered sys.cache.rows i
  | .storeStatement call false => ∀ pending ∈ sys.stores[call]?, ∀ row ∈ raisesTo sys.cache pending,
      ∀ i, sys.cache.highestEndIndex ≤ i → i < row.startIndex → Covered sys.cache.rows i
  | _ => True

/-! ## Calls in flight -/

def CacheStatement.row : CacheStatement → CachedMerkleUpdate
  | insert row => row
  | raise row => row

/-- What is left of a call: whole updates, or an update whose row is in the table already, and whole updates. -/
def Prepared (cache : MerkleCache) (pending : List CacheStatement) : Prop :=
  (∃ rows : List CachedMerkleUpdate, pending = rows.flatMap writeRow) ∨
    ∃ row, ∃ rows : List CachedMerkleUpdate, pending = .raise row :: rows.flatMap writeRow ∧
      ∃ row' ∈ cache.rows, row'.SameRange row

theorem storeUpdates_eq (updates : List CollapsedMerkleUpdate) :
    ∃ rows : List CachedMerkleUpdate, storeUpdates updates = rows.flatMap writeRow := by
  induction updates with
  | nil => exact ⟨[], rfl⟩
  | cons update updates ih =>
    unfold storeUpdates
    cases update.toRow with
    | none => exact ⟨[], rfl⟩
    | some row =>
      obtain ⟨rows, hrows⟩ := ih
      exact ⟨row :: rows, by rw [List.flatMap_cons, ← hrows]⟩

theorem storeUpdates_range {upstream : UpstreamConversation} {fromIndex toIndex : Int}
    {updates : List CollapsedMerkleUpdate} (h : fetchMerkleUpdates upstream fromIndex toIndex = .ok updates)
    {statement : CacheStatement} (hmem : statement ∈ storeUpdates updates) :
    statement.row.startIndex ≤ statement.row.endIndex := by
  rcases fetchMerkleUpdates_cases h with rfl | ⟨update, rfl, hstart, hend, -⟩
  · cases hmem
  · have hlt : fromIndex < toIndex := by
      by_contra hle
      rw [fetchMerkleUpdates, if_pos (not_lt.mp hle)] at h
      cases h
    unfold storeUpdates at hmem
    cases hrow : update.toRow with
    | none => rw [hrow] at hmem; cases hmem
    | some row =>
      rw [hrow] at hmem
      obtain ⟨bytes, -, rfl⟩ := Option.map_eq_some_iff.mp hrow
      have hrange : update.startIndex ≤ update.endIndex := by omega
      rcases List.mem_cons.mp hmem with rfl | hmem
      · exact hrange
      · rw [List.mem_singleton.mp hmem]
        exact hrange

theorem cacheUpdate_eq (tree : CollapsedMerkleTree) :
    cacheUpdate tree = [] ∨ ∃ row, tree.toRow = some row ∧ cacheUpdate tree = writeRow row := by
  unfold cacheUpdate
  cases hrow : tree.toRow with
  | none => exact Or.inl rfl
  | some row => exact Or.inr ⟨row, rfl, rfl⟩

theorem prepared_cacheUpdate (cache : MerkleCache) (tree : CollapsedMerkleTree) :
    Prepared cache (cacheUpdate tree) := by
  rcases cacheUpdate_eq tree with h | ⟨row, -, h⟩
  · exact Or.inl ⟨[], h⟩
  · exact Or.inl ⟨[row], by rw [h]; rfl⟩

section Exec
variable {cache : MerkleCache} {pending : List CacheStatement} (fails : Bool)

theorem Covered.mono {rows rows' : List CachedMerkleUpdate} (hsub : ∀ row ∈ rows, row ∈ rows') {i : Int}
    (h : Covered rows i) : Covered rows' i := by
  obtain ⟨row, hmem, hrange⟩ := h
  exact ⟨row, hsub row hmem, hrange⟩

theorem Prepared.mono {cache' : MerkleCache} (hsub : ∀ row ∈ cache.rows, row ∈ cache'.rows)
    (h : Prepared cache pending) : Prepared cache' pending := by
  rcases h with h | ⟨row, rows, heq, row', hmem, hrange⟩
  · exact Or.inl h
  · exact Or.inr ⟨row, rows, heq, row', hsub row' hmem, hrange⟩

/-- Executing a statement keeps the rows, does not lower `highest_end_index`, and leaves a call prepared. -/
theorem execNext_spec (h : Prepared cache pending) :
    (∀ row ∈ cache.rows, row ∈ (execNext cache fails pending).1.rows) ∧
      cache.highestEndIndex ≤ (execNext cache fails pending).1.highestEndIndex ∧
      Prepared (execNext cache fails pending).1 (execNext cache fails pending).2 := by
  have hend : Prepared cache [] := Or.inl ⟨[], rfl⟩
  cases fails with
  | true => cases pending <;> exact ⟨fun _ hrow => hrow, Int.le_refl _, hend⟩
  | false =>
    rcases h with ⟨rows, rfl⟩ | ⟨row, rows, rfl, -⟩
    · cases rows with
      | nil => exact ⟨fun _ hrow => hrow, Int.le_refl _, hend⟩
      | cons row rows =>
        obtain ⟨hexists, hsub⟩ := mem_insertRow cache row
        exact ⟨hsub, (insertRow_highestEndIndex cache row).ge, Or.inr ⟨row, rows, rfl, hexists⟩⟩
    · exact ⟨fun _ hrow => hrow, Int.le_max_left _ _, Or.inl ⟨rows, rfl⟩⟩

theorem mem_pending_execNext {statement : CacheStatement}
    (h : statement ∈ (execNext cache fails pending).2) : statement ∈ pending := by
  cases pending with
  | nil => exact h
  | cons first rest =>
    cases fails with
    | true => cases h
    | false => exact List.mem_cons_of_mem _ h

theorem Prepared.raisesTo_covered (h : Prepared cache pending) {row : CachedMerkleUpdate}
    (hraises : row ∈ raisesTo cache pending) : cache.highestEndIndex < row.endIndex ∧
      ∃ rest, pending = .raise row :: rest ∧
        ∀ i, row.startIndex ≤ i → i ≤ row.endIndex → Covered cache.rows i := by
  rcases h with ⟨rows, rfl⟩ | ⟨row', rows, rfl, row'', hmem, hstart, hend⟩
  · cases rows <;> cases hraises
  · simp only [raisesTo, Option.mem_def, Option.ite_none_right_eq_some, Option.some.injEq] at hraises
    obtain ⟨hlt, rfl⟩ := hraises
    exact ⟨hlt, _, rfl, fun i hlo hhi => ⟨row'', hmem, by omega, by omega⟩⟩

/-- A statement keeps the cache without holes exactly when the indices it raises `highest_end_index` over lie in
rows. -/
theorem noHole_execNext_iff (hprep : Prepared cache pending) (h0 : 0 ≤ cache.highestEndIndex) (h : NoHole cache) :
    NoHole (execNext cache fails pending).1 ↔ (fails = false → ∀ row ∈ raisesTo cache pending,
      ∀ i, cache.highestEndIndex ≤ i → i < row.endIndex → Covered cache.rows i) := by
  cases fails with
  | true =>
    have hsame : (execNext cache true pending).1 = cache := by cases pending <;> rfl
    rw [hsame]
    exact ⟨fun _ hfails => Bool.noConfusion hfails, fun _ => h⟩
  | false =>
    rcases hprep with ⟨rows, rfl⟩ | ⟨row, rows, rfl, -⟩
    · cases rows with
      | nil =>
        refine ⟨fun _ _ row hraises => ?_, fun _ => h⟩
        cases hraises
      | cons row rows =>
        refine ⟨fun _ _ row hraises => ?_, fun _ i hi hlt => ?_⟩
        · cases hraises
        · rw [show (execNext cache false _).1 = cache.insertRow row from rfl, insertRow_highestEndIndex] at hlt
          exact (h i hi hlt).mono (mem_insertRow cache row).2
    · have hexec : (execNext cache false (.raise row :: rows.flatMap writeRow)).1 = cache.raiseHighest row := rfl
      rw [hexec]
      constructor
      · intro hnext _ row' hraises i hlo hhi
        simp only [raisesTo, Option.mem_def, Option.ite_none_right_eq_some, Option.some.injEq] at hraises
        obtain ⟨hlt, rfl⟩ := hraises
        exact hnext i (by omega) (lt_of_lt_of_le hhi (le_max_right _ _))
      · intro hcond i hi hlt
        rcases lt_or_ge i cache.highestEndIndex with hold | hnew
        · exact h i hi hold
        · have hrow : i < row.endIndex := (lt_max_iff.mp hlt).resolve_left (not_lt.mpr hnew)
          have hraises : row ∈ raisesTo cache (.raise row :: rows.flatMap writeRow) := by
            simp only [raisesTo, Option.mem_def, Option.ite_none_right_eq_some, and_true]
            omega
          exact hcond rfl row hraises i hnew hrow

end Exec

/-! ## Consistency -/

/-- What holds in every state of the system, holes or not. -/
structure Consistent (sys : CacheSystem) : Prop where
  nonneg : 0 ≤ sys.cache.highestEndIndex
  stores : ∀ pending ∈ sys.stores, Prepared sys.cache pending
  ranges : ∀ pending ∈ sys.stores, ∀ statement ∈ pending, statement.row.startIndex ≤ statement.row.endIndex
  startIndex : ∀ sub ∈ sys.subscription, sub.startIndex ≤ sys.cache.highestEndIndex
  received : ∀ sub ∈ sys.subscription,
    Tiles CollapsedMerkleTree.startIndex CollapsedMerkleTree.endIndex sub.startIndex sub.received
  pending : ∀ sub ∈ sys.subscription, Prepared sys.cache sub.pending
  last : ∀ sub ∈ sys.subscription, ∀ statement ∈ sub.pending,
    statement.row.startIndex ≤ statement.row.endIndex ∧ statement.row.endIndex + 1 = sub.nextIndex

theorem consistent_initial : Consistent .initial where
  nonneg := Int.le_refl 0
  stores := by simp [CacheSystem.initial]
  ranges := by simp [CacheSystem.initial]
  startIndex := by simp [CacheSystem.initial]
  received := by simp [CacheSystem.initial]
  pending := by simp [CacheSystem.initial]
  last := by simp [CacheSystem.initial]

section Step
variable {sys : CacheSystem}

theorem step_receive {sub : CacheSubscription} (hsub : sub ∈ sys.subscription) (tree : CollapsedMerkleTree) :
    sys.step (.receive tree) =
      { sys with
        subscription := some { sub with received := sub.received ++ [tree], pending := cacheUpdate tree } } := by
  simp [CacheSystem.step, Option.mem_def.mp hsub]

theorem step_subscriptionStatement {sub : CacheSubscription} (hsub : sub ∈ sys.subscription) (fails : Bool) :
    sys.step (.subscriptionStatement fails) =
      { sys with
        cache := (execNext sys.cache fails sub.pending).1
        subscription := some { sub with pending := (execNext sys.cache fails sub.pending).2 } } := by
  simp [CacheSystem.step, Option.mem_def.mp hsub]

theorem step_subscriptionStatement_of_none (hsub : sys.subscription = none) (fails : Bool) :
    sys.step (.subscriptionStatement fails) = sys := by
  simp [CacheSystem.step, hsub]

theorem step_storeStatement {call : Nat} {pending : List CacheStatement} (hcall : sys.stores[call]? = some pending)
    (fails : Bool) :
    sys.step (.storeStatement call fails) =
      { sys with
        cache := (execNext sys.cache fails pending).1
        stores := sys.stores.set call (execNext sys.cache fails pending).2 } := by
  simp [CacheSystem.step, hcall]

theorem step_storeStatement_of_none {call : Nat} (hcall : sys.stores[call]? = none) (fails : Bool) :
    sys.step (.storeStatement call fails) = sys := by
  simp [CacheSystem.step, hcall]

theorem row_of_mem_cacheUpdate {tree : CollapsedMerkleTree} {statement : CacheStatement}
    (h : statement ∈ cacheUpdate tree) :
    statement.row.startIndex = tree.startIndex ∧ statement.row.endIndex = tree.endIndex := by
  rcases cacheUpdate_eq tree with hnil | ⟨row, hrow, hwrite⟩
  · rw [hnil] at h
    cases h
  · rw [hwrite] at h
    have hstatement : statement.row = row := by
      rcases List.mem_cons.mp h with rfl | h
      · rfl
      · rw [List.mem_singleton.mp h]
        rfl
    rw [hstatement]
    exact toRow_range hrow

theorem Consistent.receive (h : Consistent sys) {tree : CollapsedMerkleTree}
    (hpossible : sys.Possible (.receive tree)) : Consistent (sys.step (.receive tree)) := by
  obtain ⟨sub, hsub, -, htree⟩ := hpossible
  rw [step_receive hsub]
  refine ⟨h.nonneg, h.stores, h.ranges, ?_, ?_, ?_, ?_⟩
  all_goals rintro sub' ⟨⟩
  · exact h.startIndex sub hsub
  · exact tiles_append.mpr ⟨h.received sub hsub, htree, trivial⟩
  · exact prepared_cacheUpdate _ _
  · intro statement hmem
    have hnext : tilesEnd CollapsedMerkleTree.endIndex sub.startIndex (sub.received ++ [tree]) = tree.endIndex + 1 := by
      rw [tilesEnd_append, tilesEnd_cons, tilesEnd_nil]
    rw [(row_of_mem_cacheUpdate hmem).1, (row_of_mem_cacheUpdate hmem).2]
    exact ⟨htree.2, hnext.symm⟩

theorem Consistent.subscriptionStatement (h : Consistent sys) (fails : Bool) :
    Consistent (sys.step (.subscriptionStatement fails)) := by
  cases hsub : sys.subscription with
  | none =>
    rw [step_subscriptionStatement_of_none hsub]
    exact h
  | some sub =>
    obtain ⟨hrows, hmark, hprep⟩ := execNext_spec fails (h.pending sub hsub)
    rw [step_subscriptionStatement hsub]
    refine ⟨h.nonneg.trans hmark, fun pending hmem => (h.stores pending hmem).mono hrows, h.ranges, ?_, ?_, ?_, ?_⟩
    all_goals rintro sub' ⟨⟩
    · exact (h.startIndex sub hsub).trans hmark
    · exact h.received sub hsub
    · exact hprep
    · exact fun statement hmem => h.last sub hsub statement (mem_pending_execNext fails hmem)

theorem Consistent.store (h : Consistent sys) {updates : List CollapsedMerkleUpdate}
    (hpossible : sys.Possible (.store updates)) : Consistent (sys.step (.store updates)) := by
  obtain ⟨upstream, fromIndex, toIndex, hfetch⟩ := hpossible
  refine ⟨h.nonneg, fun pending hmem => ?_, fun pending hmem => ?_, h.startIndex, h.received, h.pending, h.last⟩
  · rcases List.mem_append.mp hmem with hmem | hmem
    · exact h.stores pending hmem
    · rw [List.mem_singleton.mp hmem]
      exact Or.inl (storeUpdates_eq updates)
  · rcases List.mem_append.mp hmem with hmem | hmem
    · exact h.ranges pending hmem
    · rw [List.mem_singleton.mp hmem]
      exact fun statement => storeUpdates_range hfetch

theorem Consistent.storeStatement (h : Consistent sys) (call : Nat) (fails : Bool) :
    Consistent (sys.step (.storeStatement call fails)) := by
  cases hcall : sys.stores[call]? with
  | none =>
    rw [step_storeStatement_of_none hcall]
    exact h
  | some pending =>
    have hpending : pending ∈ sys.stores := List.mem_of_getElem? hcall
    obtain ⟨hrows, hmark, hprep⟩ := execNext_spec fails (h.stores pending hpending)
    rw [step_storeStatement hcall]
    refine ⟨h.nonneg.trans hmark, fun pending' hmem => ?_, fun pending' hmem => ?_,
      fun sub hsub => (h.startIndex sub hsub).trans hmark, h.received,
      fun sub hsub => (h.pending sub hsub).mono hrows, h.last⟩
    · rcases List.mem_or_eq_of_mem_set hmem with hmem | rfl
      · exact (h.stores pending' hmem).mono hrows
      · exact hprep
    · rcases List.mem_or_eq_of_mem_set hmem with hmem | rfl
      · exact h.ranges pending' hmem
      · exact fun statement hstatement => h.ranges pending hpending statement (mem_pending_execNext fails hstatement)

theorem consistent_step {action : CacheAction} (h : Consistent sys) (hpossible : sys.Possible action) :
    Consistent (sys.step action) := by
  cases action with
  | subscribe =>
    refine ⟨h.nonneg, h.stores, h.ranges, ?_, ?_, ?_, ?_⟩
    all_goals rintro sub ⟨⟩
    · exact Int.le_refl _
    · exact tiles_nil _
    · exact Or.inl ⟨[], rfl⟩
    · exact fun statement hmem => by cases hmem
  | receive tree => exact h.receive hpossible
  | subscriptionStatement fails => exact h.subscriptionStatement fails
  | disconnect =>
    refine ⟨h.nonneg, h.stores, h.ranges, ?_, ?_, ?_, ?_⟩
    all_goals rintro sub ⟨⟩
  | store updates => exact h.store hpossible
  | storeStatement call fails => exact h.storeStatement call fails
  | restart =>
    refine ⟨h.nonneg, ?_, ?_, ?_, ?_, ?_, ?_⟩
    · exact fun pending hmem => absurd hmem List.not_mem_nil
    · exact fun pending hmem => absurd hmem List.not_mem_nil
    all_goals rintro sub ⟨⟩

end Step

/-! ## The condition -/

/-- For the subscription, the indices below the end of the update being written are those of the updates received. -/
theorem subscription_raise_iff {sys : CacheSystem} (h : Consistent sys) {sub : CacheSubscription}
    (hsub : sub ∈ sys.subscription) :
    (∀ row ∈ raisesTo sys.cache sub.pending, ∀ i, sys.cache.highestEndIndex ≤ i → i < row.endIndex →
        Covered sys.cache.rows i) ↔
      ((raisesTo sys.cache sub.pending).isSome → ∀ tree ∈ sub.received, ∀ i, sys.cache.highestEndIndex ≤ i →
        tree.startIndex ≤ i → i ≤ tree.endIndex → Covered sys.cache.rows i) := by
  cases hraises : raisesTo sys.cache sub.pending with
  | none => simp
  | some row =>
    obtain ⟨hlt, rest, hpending, hcovered⟩ := (h.pending sub hsub).raisesTo_covered hraises
    obtain ⟨hrange, hnext⟩ : row.startIndex ≤ row.endIndex ∧ row.endIndex + 1 = sub.nextIndex :=
      h.last sub hsub (.raise row) (by rw [hpending]; exact List.mem_cons_self)
    unfold CacheSubscription.nextIndex at hnext
    have htiles := h.received sub hsub
    constructor
    · intro hbelow _ tree htree i hmark _ hhi
      have hbound := (htiles.bounds htree).2.2
      rcases lt_or_ge i row.endIndex with hlast | hlast
      · exact hbelow row rfl i hmark hlast
      · exact hcovered i (hrange.trans hlast) (by omega)
    · rintro hreceived row' ⟨⟩ i hmark hhi
      obtain ⟨tree, htree, hlo, hhi'⟩ := htiles.exists_piece ((h.startIndex sub hsub).trans hmark) (by omega)
      exact hreceived rfl tree htree i hmark hlo hhi'

/-- For a `store_updates` call, only the indices before the range it stores are in question. -/
theorem store_raise_iff {sys : CacheSystem} (h : Consistent sys) {pending : List CacheStatement}
    (hpending : pending ∈ sys.stores) :
    (∀ row ∈ raisesTo sys.cache pending, ∀ i, sys.cache.highestEndIndex ≤ i → i < row.endIndex →
        Covered sys.cache.rows i) ↔
      ∀ row ∈ raisesTo sys.cache pending, ∀ i, sys.cache.highestEndIndex ≤ i → i < row.startIndex →
        Covered sys.cache.rows i := by
  refine forall₂_congr fun row hraises => ?_
  obtain ⟨hlt, rest, heq, hcovered⟩ := (h.stores pending hpending).raisesTo_covered hraises
  have hrange : row.startIndex ≤ row.endIndex :=
    h.ranges pending hpending (.raise row) (by rw [heq]; exact List.mem_cons_self)
  constructor
  · exact fun hbelow i hmark hhi => hbelow i hmark (lt_of_lt_of_le hhi hrange)
  · intro hbelow i hmark hhi
    rcases lt_or_ge i row.startIndex with hstart | hstart
    · exact hbelow i hmark hstart
    · exact hcovered i hstart hhi.le

/-- One step keeps the cache without holes exactly when it is gapless. -/
theorem noHole_step_iff {sys : CacheSystem} (h : Consistent sys) (hnoHole : NoHole sys.cache) (action : CacheAction) :
    NoHole (sys.step action).cache ↔ Gapless sys action := by
  cases action with
  | subscriptionStatement fails =>
    cases hsub : sys.subscription with
    | none =>
      rw [step_subscriptionStatement_of_none hsub]
      cases fails <;> simp [Gapless, hsub, hnoHole]
    | some sub =>
      rw [step_subscriptionStatement hsub, noHole_execNext_iff fails (h.pending sub hsub) h.nonneg hnoHole,
        subscription_raise_iff h hsub]
      cases fails <;> simp [Gapless, hsub]
  | storeStatement call fails =>
    cases hcall : sys.stores[call]? with
    | none =>
      rw [step_storeStatement_of_none hcall]
      cases fails <;> simp [Gapless, hcall, hnoHole]
    | some pending =>
      have hpending : pending ∈ sys.stores := List.mem_of_getElem? hcall
      rw [step_storeStatement hcall, noHole_execNext_iff fails (h.stores pending hpending) h.nonneg hnoHole,
        store_raise_iff h hpending]
      cases fails <;> simp [Gapless, hcall]
  | subscribe => exact ⟨fun _ => trivial, fun _ => hnoHole⟩
  | receive tree => exact ⟨fun _ => trivial, fun _ => hnoHole⟩
  | disconnect => exact ⟨fun _ => trivial, fun _ => hnoHole⟩
  | store updates => exact ⟨fun _ => trivial, fun _ => hnoHole⟩
  | restart => exact ⟨fun _ => trivial, fun _ => hnoHole⟩

/-- **In every run of the writers, the index the next subscription resumes at is never past a hole exactly when no
statement raises it over an index without a row.** -/
theorem cache_noHole_iff (actions : List CacheAction)
    (hpossible : Along CacheSystem.Possible CacheSystem.step .initial actions) :
    Always (fun sys => NoHole sys.cache) CacheSystem.step .initial actions ↔
      Along Gapless CacheSystem.step .initial actions :=
  always_iff_along (fun _ _ hside hvalid _ _ => consistent_step hside hvalid)
    (fun _ action hside _ hinv => noHole_step_iff hside hinv action) consistent_initial
    (fun _ h0 hlt => absurd hlt (not_lt.mpr h0)) hpossible

namespace Sample

/-- A subscription that caches the update `[0, 4]`. -/
def backgroundRun : List CacheAction :=
  [.subscribe, .receive ⟨0, 4, "aa", 1⟩, .subscriptionStatement false, .subscriptionStatement false]

/-- A `store_updates` call with the range `[5, 6]` of a wallet, before the subscription has cached anything. -/
def storedAhead : List CacheAction :=
  [.store [⟨5, 6, "aa", 1⟩], .storeStatement 0 false, .storeStatement 0 false]

theorem possible_storedAhead : Along CacheSystem.Possible CacheSystem.step .initial storedAhead :=
  ⟨⟨⟨.ok (), [.next none (some (.relevantTransaction 7 (some ⟨5, 6, "aa", 1⟩)))]⟩, 5, 7, by decide⟩,
    trivial, trivial, trivial⟩

end Sample

/-- A subscription that loses nothing leaves no hole. -/
theorem cache_noHole_backgroundRun :
    Always (fun sys => NoHole sys.cache) CacheSystem.step .initial Sample.backgroundRun := by
  refine (cache_noHole_iff Sample.backgroundRun
    ⟨rfl, ⟨⟨0, [], []⟩, rfl, rfl, by decide⟩, trivial, trivial, trivial⟩).mpr ⟨trivial, trivial, ?_, ?_, trivial⟩
  · rintro sub ⟨⟩ hraises
    cases hraises
  · rintro sub ⟨⟩ - tree htree i - hlo hhi
    obtain rfl : tree = ⟨0, 4, "aa", 1⟩ := List.mem_singleton.mp htree
    exact ⟨⟨0, 4, [170], 1⟩, by decide, hlo, hhi⟩

/-- The stored range raises `highest_end_index` to 6 while no row holds the indices 0 to 4. -/
theorem not_noHole_storedAhead : Along CacheSystem.Possible CacheSystem.step .initial Sample.storedAhead ∧
    ¬ Always (fun sys => NoHole sys.cache) CacheSystem.step .initial Sample.storedAhead := by
  refine ⟨Sample.possible_storedAhead, fun h => ?_⟩
  have hcovered : Covered [⟨5, 6, [170], 1⟩] 0 := h.2.2.2 0 (by decide) (by decide)
  exact absurd hcovered (by decide)

end NocyWalletFeed
