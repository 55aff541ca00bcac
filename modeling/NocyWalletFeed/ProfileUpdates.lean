import NocyWalletFeed.Isolation
import NocyWalletFeed.Routes.Profile

/-!
# What a profile update does

* `mem_sessionAddresses_applyChanges`, `profileOf_applyChanges`, `sameChain_applyChanges` : the rows after the
  statements of a call, in terms of what it changes;
* `Commits` : a call gets as far as its commit; `updateProfile_cases` : what it returns and leaves.
-/

namespace NocyWalletFeed
open Codec

def ProfileChanges.apply (c : ProfileChanges) (p : SessionProfileRow) : SessionProfileRow :=
  { p with
    dustPublicKey := c.dustPublicKey.or p.dustPublicKey
    nullifierStreaming := (c.nullifierStreaming.map NullifierStreaming.asDbStr).getD p.nullifierStreaming }

/-! ## Statements -/

section Statements
variable {sessionId : Bytes} {db : Database}

theorem SameChain.refl (db : Database) : SameChain db db := ⟨rfl, rfl, rfl, rfl, rfl, rfl, rfl, rfl⟩

theorem SameChain.trans {db db' db'' : Database} (h : SameChain db db') (h' : SameChain db' db'') :
    SameChain db db'' where
  blocks := h'.blocks.trans h.blocks
  transactions := h'.transactions.trans h.transactions
  regularTransactions := h'.regularTransactions.trans h.regularTransactions
  hasIdentifiersColumn := h'.hasIdentifiersColumn.trans h.hasIdentifiersColumn
  transactionIdentifiers := h'.transactionIdentifiers.trans h.transactionIdentifiers
  ledgerEvents := h'.ledgerEvents.trans h.ledgerEvents
  contractActions := h'.contractActions.trans h.contractActions
  unshieldedUtxos := h'.unshieldedUtxos.trans h.unshieldedUtxos

theorem sameChain_insertAddress (address : Bytes) : SameChain db (db.insertAddress sessionId address) := by
  unfold Database.insertAddress
  split_ifs
  · exact SameChain.refl db
  · exact ⟨rfl, rfl, rfl, rfl, rfl, rfl, rfl, rfl⟩

theorem sameChain_exec (statement : ProfileStatement) : SameChain db (statement.exec sessionId db) := by
  cases statement with
  | upsertDustKey dustPublicKey => exact ⟨rfl, rfl, rfl, rfl, rfl, rfl, rfl, rfl⟩
  | fetchAddresses => exact SameChain.refl db
  | deleteAddresses => exact ⟨rfl, rfl, rfl, rfl, rfl, rfl, rfl, rfl⟩
  | insertAddress address => exact sameChain_insertAddress address
  | setNullifierStreaming preference => exact ⟨rfl, rfl, rfl, rfl, rfl, rfl, rfl, rfl⟩

def ProfileStatement.Leaves (addresses : Bytes → Prop) : ProfileStatement → Bytes → Prop
  | .deleteAddresses, _ => False
  | .insertAddress address, a => addresses a ∨ a = address
  | .upsertDustKey _, a => addresses a
  | .fetchAddresses, a => addresses a
  | .setNullifierStreaming _, a => addresses a

theorem mem_sessionAddresses_exec (statement : ProfileStatement) {a : Bytes} :
    a ∈ sessionAddresses (statement.exec sessionId db) sessionId ↔
      statement.Leaves (· ∈ sessionAddresses db sessionId) a := by
  cases statement with
  | upsertDustKey dustPublicKey => exact Iff.rfl
  | fetchAddresses => exact Iff.rfl
  | deleteAddresses => simp [ProfileStatement.exec, ProfileStatement.Leaves]
  | insertAddress address => simp [ProfileStatement.exec, ProfileStatement.Leaves]
  | setNullifierStreaming preference => exact Iff.rfl

theorem profileOf_upsertDustPublicKey {dustPublicKey : Bytes} {p : SessionProfileRow}
    (hp : profileOf db sessionId = some p) :
    profileOf (upsertDustPublicKey db sessionId dustPublicKey) sessionId =
      some { p with dustPublicKey := some dustPublicKey } := by
  unfold upsertDustPublicKey
  rw [Database.profileOf_upsertProfile, if_pos rfl, hp]
  rfl

end Statements

/-! ## The transaction -/

section Transaction
variable {sessionId : Bytes} {db : Database} {c : ProfileChanges}

theorem sameChain_applyChanges : SameChain db (applyChanges sessionId c db) := by
  unfold applyChanges
  induction profileStatements c generalizing db with
  | nil => exact SameChain.refl db
  | cons statement statements ih => exact (sameChain_exec statement).trans ih

theorem mem_sessionAddresses_inserted (addresses : List Bytes) {a : Bytes} :
    a ∈ sessionAddresses ((addresses.map .insertAddress).foldl (ProfileStatement.exec sessionId) db) sessionId ↔
      a ∈ sessionAddresses db sessionId ∨ a ∈ addresses := by
  induction addresses generalizing db with
  | nil => simp
  | cons address addresses ih =>
    rw [List.map_cons, List.foldl_cons, ih, mem_sessionAddresses_exec, List.mem_cons, ← or_assoc]
    rfl

theorem profileOf_inserted (addresses : List Bytes) (id : Bytes) :
    profileOf ((addresses.map .insertAddress).foldl (ProfileStatement.exec sessionId) db) id = profileOf db id := by
  induction addresses generalizing db with
  | nil => rfl
  | cons address addresses ih =>
    rw [List.map_cons, List.foldl_cons, ih]
    exact db.profileOf_insertAddress sessionId address id

theorem mem_sessionAddresses_applyChanges {a : Bytes} :
    a ∈ sessionAddresses (applyChanges sessionId c db) sessionId ↔
      a ∈ c.unshieldedAddresses.getD (sessionAddresses db sessionId) := by
  have hset : ∀ db' : Database, a ∈ sessionAddresses (((c.nullifierStreaming.map
      ProfileStatement.setNullifierStreaming).toList).foldl (ProfileStatement.exec sessionId) db') sessionId ↔
      a ∈ sessionAddresses db' sessionId := by
    intro db'
    cases c.nullifierStreaming with
    | none => exact Iff.rfl
    | some preference => exact Iff.rfl
  have hkey : ∀ db' : Database, a ∈ sessionAddresses (((c.dustPublicKey.map
      ProfileStatement.upsertDustKey).toList).foldl (ProfileStatement.exec sessionId) db') sessionId ↔
      a ∈ sessionAddresses db' sessionId := by
    intro db'
    cases c.dustPublicKey with
    | none => exact Iff.rfl
    | some key => exact Iff.rfl
  unfold applyChanges profileStatements
  rw [List.foldl_append, List.foldl_append, hset]
  cases c.unshieldedAddresses with
  | none => exact hkey db
  | some addresses =>
    simp only [Option.map_some, Option.getD_some, List.foldl_cons]
    rw [mem_sessionAddresses_inserted, mem_sessionAddresses_exec]
    exact or_iff_right id

theorem profileOf_applyChanges {p : SessionProfileRow} (hp : profileOf db sessionId = some p) :
    profileOf (applyChanges sessionId c db) sessionId = some (c.apply p) := by
  have haddresses : ∀ db' : Database, profileOf ((((c.unshieldedAddresses.map fun addresses =>
      ProfileStatement.fetchAddresses :: .deleteAddresses :: addresses.map .insertAddress)).getD []).foldl
      (ProfileStatement.exec sessionId) db') sessionId = profileOf db' sessionId := by
    intro db'
    cases c.unshieldedAddresses with
    | none => rfl
    | some addresses => exact profileOf_inserted addresses sessionId
  have hkey : profileOf (((c.dustPublicKey.map ProfileStatement.upsertDustKey).toList).foldl
      (ProfileStatement.exec sessionId) db) sessionId =
      some { p with dustPublicKey := c.dustPublicKey.or p.dustPublicKey } := by
    cases c.dustPublicKey with
    | none => exact hp
    | some key => exact profileOf_upsertDustPublicKey hp
  unfold applyChanges profileStatements ProfileChanges.apply
  rw [List.foldl_append, List.foldl_append]
  cases c.nullifierStreaming with
  | none => exact (haddresses _).trans hkey
  | some preference =>
    show profileOf (Database.setNullifierStreaming _ sessionId preference.asDbStr) sessionId = _
    rw [Database.profileOf_setNullifierStreaming, haddresses, hkey]
    simp

end Transaction

/-! ## The handler -/

structure Commits (env : UpdateEnv) (db : Database) (sessionId : String) (req : UpdateProfileRequest)
    (sessionIdBytes : Bytes) (c : ProfileChanges) : Prop where
  parsed : parseSessionId sessionId = .ok sessionIdBytes
  found : requireSessionExists env db sessionIdBytes = .ok ()
  validated : validateChanges req = .ok c
  begun : env.beginFails = none
  executed : failingStatement (profileStatements c) env.statementFails = none
  committed : env.commitFails = none

section Handler
variable {env : UpdateEnv} {db : Database} {sessionId : String} {req : UpdateProfileRequest}

theorem exists_profile_of_requireSessionExists {sessionId : Bytes}
    (h : requireSessionExists env db sessionId = .ok ()) : ∃ p, profileOf db sessionId = some p := by
  unfold requireSessionExists at h
  cases hfails : env.existsFails with
  | some e =>
    rw [hfails] at h
    cases h
  | none =>
    cases hp : profileOf db sessionId with
    | none =>
      rw [hfails, hp] at h
      cases h
    | some p => exact ⟨p, rfl⟩

/-- **What a call returns and leaves**: it fails and changes nothing, or it commits and then reads back. -/
theorem updateProfile_cases (env : UpdateEnv) (db : Database) (sessionId : String) (req : UpdateProfileRequest) :
    (∃ e, updateProfile env db sessionId req = (.error e, db) ∧
        ∀ sessionIdBytes c, ¬ Commits env db sessionId req sessionIdBytes c) ∨
      ∃ sessionIdBytes c, Commits env db sessionId req sessionIdBytes c ∧
        updateProfile env db sessionId req =
          ((readBack env (applyChanges sessionIdBytes c db) sessionIdBytes).map
              (updateResponse c (sessionAddresses db sessionIdBytes)),
            applyChanges sessionIdBytes c db) := by
  unfold updateProfile
  cases hparsed : parseSessionId sessionId with
  | error e => exact Or.inl ⟨e, rfl, fun id c h => by cases hparsed.symm.trans h.parsed⟩
  | ok id =>
    have hid : ∀ {id' c}, Commits env db sessionId req id' c → id' = id := fun h =>
      Except.ok.inj (h.parsed.symm.trans hparsed)
    dsimp only
    cases hfound : requireSessionExists env db id with
    | error e =>
      refine Or.inl ⟨e, rfl, fun id' c h => ?_⟩
      rw [hid h] at h
      cases hfound.symm.trans h.found
    | ok u =>
      cases hvalidated : validateChanges req with
      | error e => exact Or.inl ⟨e, rfl, fun id' c h => by cases hvalidated.symm.trans h.validated⟩
      | ok c =>
        dsimp only
        cases hbegun : env.beginFails with
        | some e => exact Or.inl ⟨_, rfl, fun id' c h => by cases hbegun.symm.trans h.begun⟩
        | none =>
          dsimp only
          cases hexecuted : failingStatement (profileStatements c) env.statementFails with
          | some failure =>
            refine Or.inl ⟨_, rfl, fun id' c' h => ?_⟩
            obtain rfl : c' = c := Except.ok.inj (h.validated.symm.trans hvalidated)
            cases hexecuted.symm.trans h.executed
          | none =>
            dsimp only
            cases hcommitted : env.commitFails with
            | some e => exact Or.inl ⟨_, rfl, fun id' c h => by cases hcommitted.symm.trans h.committed⟩
            | none =>
              refine Or.inr ⟨id, c, ⟨hparsed, hfound, hvalidated, hbegun, hexecuted, hcommitted⟩, ?_⟩
              dsimp only
              cases readBack env (applyChanges id c db) id with
              | error e => rfl
              | ok preference => rfl

theorem Commits.unique {id id' : Bytes} {c c' : ProfileChanges} (h : Commits env db sessionId req id c)
    (h' : Commits env db sessionId req id' c') : id = id' ∧ c = c' :=
  ⟨Except.ok.inj (h.parsed.symm.trans h'.parsed), Except.ok.inj (h.validated.symm.trans h'.validated)⟩

/-- After a commit the read-back finds the session: it fails only where its statement does. -/
theorem Commits.readBack_cases {id : Bytes} {c : ProfileChanges} (h : Commits env db sessionId req id c) :
    (env.readBackFails = none ∧ ∃ preference, readBack env (applyChanges id c db) id = .ok preference) ∨
      (env.readBackFails ≠ none ∧ ∃ e, readBack env (applyChanges id c db) id = .error e) := by
  obtain ⟨p, hp⟩ := exists_profile_of_requireSessionExists h.found
  unfold readBack
  cases env.readBackFails with
  | some e => exact Or.inr ⟨Option.some_ne_none e, _, rfl⟩
  | none =>
    rw [profileOf_applyChanges hp]
    exact Or.inl ⟨rfl, _, rfl⟩

end Handler

end NocyWalletFeed
