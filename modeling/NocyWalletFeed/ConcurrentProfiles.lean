import NocyWalletFeed.ProfileUpdates
import NocyWalletFeed.Library.ReadCommitted

/-!
# Two profile updates at once

The transactions of two calls for one session, statement by statement in any order, over the addresses of the session
under READ COMMITTED.

* `ProfileStep`, `profileSteps` : the statements of a transaction and its commit;
* `addressesAfter` : the addresses a run leaves; `mem_addressesAfter_alone` : on its own a call leaves what
  `applyChanges` says;
* `concurrentUpdates_iff` : when two calls leave the list of one of them.
-/

namespace NocyWalletFeed
open Codec ReadCommitted EventLog

inductive ProfileStep where
  | statement (statement : ProfileStatement)
  | commit
  deriving DecidableEq, Repr

/-- The transaction of a call that succeeds. -/
def profileSteps (c : ProfileChanges) : List ProfileStep := (profileStatements c).map .statement ++ [.commit]

def ProfileStep.action : ProfileStep → Action Bytes
  | .statement (.upsertDustKey _) => .other
  | .statement .fetchAddresses => .other
  | .statement .deleteAddresses => .deleteAll
  | .statement (.insertAddress address) => .insert address
  | .statement (.setNullifierStreaming _) => .other
  | .commit => .commit

/-- The addresses of the session after a run. -/
def addressesAfter {τ : Type*} [DecidableEq τ] (before : List Bytes) (run : List (τ × ProfileStep)) : List Bytes :=
  ((Store.initial before).run (run.map (Prod.map id ProfileStep.action))).rows

theorem ProfileStep.eq_of_action_eq_deleteAll {step : ProfileStep} (h : step.action = .deleteAll) :
    step = .statement .deleteAddresses := by
  cases step with
  | statement statement => cases statement <;> first | rfl | cases h
  | commit => cases h

theorem ProfileStep.eq_of_action_eq_commit {step : ProfileStep} (h : step.action = .commit) : step = .commit := by
  cases step with
  | statement statement => cases statement <;> cases h
  | commit => rfl

/-! ## One call -/

theorem alone_step {τ : Type*} [DecidableEq τ] {t : τ} {s : Store τ Bytes} {sessionId : Bytes} {db : Database}
    (h : Alone t s) (hsame : ∀ a, Holds s a ↔ a ∈ sessionAddresses db sessionId) (statement : ProfileStatement) :
    Alone t (s.step (t, (ProfileStep.statement statement).action)) ∧
      ∀ a, Holds (s.step (t, (ProfileStep.statement statement).action)) a ↔
        a ∈ sessionAddresses (statement.exec sessionId db) sessionId := by
  simp only [mem_sessionAddresses_exec]
  cases statement with
  | upsertDustKey dustPublicKey => exact ⟨h, hsame⟩
  | fetchAddresses => exact ⟨h, hsame⟩
  | deleteAddresses => exact ⟨h.deleteAll, fun a => iff_of_false h.not_holds_deleteAll id⟩
  | insertAddress address => exact ⟨h.insert, fun a => Store.holds_insert.trans (or_congr_left (hsame a))⟩
  | setNullifierStreaming preference => exact ⟨h, hsame⟩

theorem mem_addressesAfter_alone {τ : Type*} [DecidableEq τ] (t : τ) (sessionId : Bytes) (c : ProfileChanges)
    (db : Database) {a : Bytes} :
    a ∈ addressesAfter (sessionAddresses db sessionId) ((profileSteps c).map fun step => (t, step)) ↔
      a ∈ sessionAddresses (applyChanges sessionId c db) sessionId := by
  have hrun : ∀ (statements : List ProfileStatement) (s : Store τ Bytes) (db : Database), Alone t s →
      (∀ a, Holds s a ↔ a ∈ sessionAddresses db sessionId) →
      Alone t (s.run (statements.map fun statement => (t, (ProfileStep.statement statement).action))) ∧
        ∀ a, Holds (s.run (statements.map fun statement => (t, (ProfileStep.statement statement).action))) a ↔
          a ∈ sessionAddresses (statements.foldl (ProfileStatement.exec sessionId) db) sessionId := by
    intro statements
    induction statements with
    | nil => exact fun s db h hsame => ⟨h, hsame⟩
    | cons statement statements ih =>
      intro s db h hsame
      obtain ⟨h', hsame'⟩ := alone_step h hsame statement
      exact ih _ _ h' hsame'
  obtain ⟨halone, hsame⟩ := hrun (profileStatements c) (Store.initial (sessionAddresses db sessionId)) db
    (alone_initial _) fun a => holds_initial
  have hsteps : ((profileSteps c).map fun step => (t, step)).map (Prod.map id ProfileStep.action) =
      (profileStatements c).map (fun statement => (t, (ProfileStep.statement statement).action)) ++ [(t, .commit)] := by
    simp [profileSteps, ProfileStep.action]
  unfold addressesAfter
  rw [hsteps, Store.run_concat, halone.mem_rows_commit, hsame]
  rfl

/-! ## Two calls -/

theorem replaces_profileSteps {c : ProfileChanges} {addresses : List Bytes}
    (h : c.unshieldedAddresses = some addresses) : Replaces addresses ((profileSteps c).map ProfileStep.action) := by
  refine ⟨((c.dustPublicKey.map ProfileStatement.upsertDustKey).toList.map ProfileStep.statement ++
      [ProfileStep.statement .fetchAddresses]).map ProfileStep.action,
    ((c.nullifierStreaming.map ProfileStatement.setNullifierStreaming).toList.map ProfileStep.statement).map
      ProfileStep.action, ?_, ?_⟩
  · intro act hact
    rcases List.mem_append.mp hact with hpre | hpost
    · obtain ⟨step, hstep, rfl⟩ := List.mem_map.mp hpre
      rcases List.mem_append.mp hstep with hkey | hfetch
      · obtain ⟨statement, hstatement, rfl⟩ := List.mem_map.mp hkey
        obtain ⟨key, -, rfl⟩ := Option.map_eq_some_iff.mp (Option.mem_toList.mp hstatement)
        rfl
      · rw [List.mem_singleton.mp hfetch]
        rfl
    · obtain ⟨step, hstep, rfl⟩ := List.mem_map.mp hpost
      obtain ⟨statement, hstatement, rfl⟩ := List.mem_map.mp hstep
      obtain ⟨preference, -, rfl⟩ := Option.map_eq_some_iff.mp (Option.mem_toList.mp hstatement)
      rfl
  · simp [profileSteps, profileStatements, h, ProfileStep.action, Function.comp_def]

/-- **Two calls at once leave the list of one of them exactly when** one deletes after the other has committed, or one
list contains the other. -/
theorem concurrentUpdates_iff {changes : Bool → ProfileChanges} {lists : Bool → List Bytes}
    (hlists : ∀ t, (changes t).unshieldedAddresses = some (lists t)) {run : List (Bool × ProfileStep)}
    (hrun : ∀ t, programOf t run = profileSteps (changes t)) (before : List Bytes) :
    (∃ t, ∀ a, a ∈ addressesAfter before run ↔ a ∈ lists t) ↔
      (∃ t, Precedes (t, .commit) (!t, .statement .deleteAddresses) run) ∨ ∃ t, lists t ⊆ lists (!t) := by
  have hprograms : ∀ t, Replaces (lists t) (programOf t (run.map (Prod.map id ProfileStep.action))) := by
    intro t
    rw [programOf_map, hrun]
    exact replaces_profileSteps (hlists t)
  have hturn : ∀ t, InTurn t (run.map (Prod.map id ProfileStep.action)) ↔
      Precedes (t, .commit) (!t, .statement .deleteAddresses) run := by
    intro t
    refine precedes_map (f := Prod.map id ProfileStep.action) (a := (t, ProfileStep.commit))
      (b := (!t, ProfileStep.statement .deleteAddresses)) ?_ ?_
    · rintro ⟨t', step⟩ h
      obtain ⟨rfl, haction⟩ := Prod.mk.inj h
      rw [ProfileStep.eq_of_action_eq_commit haction]
      rfl
    · rintro ⟨t', step⟩ h
      obtain ⟨rfl, haction⟩ := Prod.mk.inj h
      rw [ProfileStep.eq_of_action_eq_deleteAll haction]
      rfl
  simp only [← hturn]
  exact rows_eq_iff hprograms

namespace Sample

def addressOf (t : Bool) : Bytes := List.replicate 32 (if t then 1 else 2)

def addressRequest (t : Bool) : UpdateProfileRequest := ⟨none, some [hexEncode (addressOf t)], none⟩

def addressChanges (t : Bool) : ProfileChanges := ⟨none, some [addressOf t], none⟩

def inTurnRun : List (Bool × ProfileStep) :=
  (profileSteps (addressChanges true)).map (fun step => (true, step)) ++
    (profileSteps (addressChanges false)).map (fun step => (false, step))

/-- Both transactions delete before either one commits. -/
def interleavedRun : List (Bool × ProfileStep) :=
  [(true, .statement .fetchAddresses), (false, .statement .fetchAddresses), (true, .statement .deleteAddresses),
    (false, .statement .deleteAddresses), (true, .statement (.insertAddress (addressOf true))), (true, .commit),
    (false, .statement (.insertAddress (addressOf false))), (false, .commit)]

theorem validateChanges_addressRequest (t : Bool) : validateChanges (addressRequest t) = .ok (addressChanges t) := by
  cases t <;> decide

end Sample

/-- The second of two calls in turn replaces the address of the first one. -/
theorem concurrentUpdates_inTurn : ∃ t, ∀ a, a ∈ addressesAfter [] Sample.inTurnRun ↔ a ∈ [Sample.addressOf t] :=
  (concurrentUpdates_iff
    (show ∀ t, (Sample.addressChanges t).unshieldedAddresses = some [Sample.addressOf t] from fun _ => rfl) (by decide)
    []).mpr (Or.inl ⟨true, by decide⟩)

/-- Two calls with one address each, the first ones of a session, leave both addresses. -/
theorem concurrentUpdates_merge :
    (∀ t, validateChanges (Sample.addressRequest t) = .ok (Sample.addressChanges t)) ∧
      (∀ t, programOf t Sample.interleavedRun = profileSteps (Sample.addressChanges t)) ∧
      ¬ ∃ t, ∀ a, a ∈ addressesAfter [] Sample.interleavedRun ↔ a ∈ [Sample.addressOf t] := by
  refine ⟨Sample.validateChanges_addressRequest, by decide, ?_⟩
  rintro ⟨t, ht⟩
  have hother : Sample.addressOf (!t) ∈ addressesAfter [] Sample.interleavedRun := by
    cases t <;> decide
  have hmem := (ht _).mp hother
  cases t <;> exact absurd hmem (by decide)

end NocyWalletFeed
