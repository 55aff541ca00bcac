import NocyWalletFeed.Library.EventLog
import Mathlib.Data.List.Induction

/-!
# A table of values under READ COMMITTED

Transactions delete every row, insert values that are not there (`ON CONFLICT DO NOTHING`) and commit. A row is a
version with the transaction that has inserted it and those that have deleted it; a statement sees the versions
committed before it starts and what its own transaction has written. Every transaction of a run commits in the end, so
that a conflict with one still running is decided by what that one has written so far.

* `Store.step`, `Store.run` : the statements of any number of transactions, in any order;
* `Holds` : the values of the table; `mem_versions_insert` : what an insertion adds;
* `Alone` : one transaction on its own;
* `Replaces` : a transaction that deletes every row and inserts a list of values;
* `mem_rows_iff` : what two such transactions leave;
* `rows_eq_iff` : they leave one of the two lists exactly when one starts after the other has committed, or one list
  contains the other.
-/

namespace ReadCommitted
open EventLog

/-- A row, with the transactions that have inserted and deleted it; `none` stands for one from before the run. -/
structure Version (τ α : Type*) where
  value : α
  insertedBy : Option τ
  deletedBy : List τ
  deriving DecidableEq, Repr

/-- The versions of a table and the transactions that have committed. -/
structure Store (τ α : Type*) where
  versions : List (Version τ α)
  committed : List τ
  deriving DecidableEq, Repr

/-- A statement; `other` is one that leaves the table alone. -/
inductive Action (α : Type*) where
  | deleteAll
  | insert (value : α)
  | other
  | commit
  deriving DecidableEq, Repr

variable {τ α : Type*}

/-- A version is seen by whoever sees the effects of the transactions `sees`. -/
def Version.Seen (sees : List τ) (v : Version τ α) : Prop :=
  (∀ t ∈ v.insertedBy, t ∈ sees) ∧ ∀ t ∈ v.deletedBy, t ∉ sees

instance Version.decidableSeen [DecidableEq τ] (sees : List τ) (v : Version τ α) : Decidable (v.Seen sees) :=
  inferInstanceAs (Decidable (_ ∧ _))

/-- A version nobody has deleted, committed or not. -/
def Version.Live (v : Version τ α) : Prop := v.deletedBy = []

instance Version.decidableLive [DecidableEq τ] (v : Version τ α) : Decidable v.Live :=
  inferInstanceAs (Decidable (v.deletedBy = []))

def Holds (s : Store τ α) (a : α) : Prop := ∃ v ∈ s.versions, v.value = a ∧ v.Live

namespace Store

def initial (values : List α) : Store τ α := ⟨values.map fun a => ⟨a, none, []⟩, []⟩

section Seen
variable [DecidableEq τ]

def rows (s : Store τ α) : List α := (s.versions.filter fun v => v.Seen s.committed).map (·.value)

/-- A version is deleted by a transaction that sees it. -/
def mark (s : Store τ α) (t : τ) (v : Version τ α) : Version τ α :=
  if v.Seen (t :: s.committed) then { v with deletedBy := t :: v.deletedBy } else v

theorem mem_rows {s : Store τ α} {a : α} : a ∈ s.rows ↔ ∃ v ∈ s.versions, v.value = a ∧ v.Seen s.committed := by
  unfold rows
  simp only [List.mem_map, List.mem_filter, decide_eq_true_eq]
  constructor
  · rintro ⟨v, ⟨hv, hseen⟩, hvalue⟩
    exact ⟨v, hv, hvalue, hseen⟩
  · rintro ⟨v, hv, hvalue, hseen⟩
    exact ⟨v, ⟨hv, hseen⟩, hvalue⟩

@[simp] theorem value_mark (s : Store τ α) (t : τ) (v : Version τ α) : (s.mark t v).value = v.value := by
  unfold mark
  split_ifs <;> rfl

@[simp] theorem insertedBy_mark (s : Store τ α) (t : τ) (v : Version τ α) :
    (s.mark t v).insertedBy = v.insertedBy := by
  unfold mark
  split_ifs <;> rfl

/-- A version survives a deletion when nobody has deleted it and the transaction does not see who has inserted it. -/
theorem live_mark_iff {s : Store τ α} {t : τ} {v : Version τ α} :
    (s.mark t v).Live ↔ v.Live ∧ ∃ t' ∈ v.insertedBy, t' ≠ t ∧ t' ∉ s.committed := by
  unfold mark Version.Live
  split_ifs with hseen
  · have hinserted := hseen.1
    simp only [List.mem_cons] at hinserted
    constructor
    · intro h
      cases h
    · rintro ⟨-, t', ht', hne, hcommitted⟩
      exact absurd (hinserted t' ht') (not_or.mpr ⟨hne, hcommitted⟩)
  · constructor
    · intro hlive
      refine ⟨hlive, ?_⟩
      by_contra hnone
      refine hseen ⟨fun t' ht' => ?_, fun t' ht' => ?_⟩
      · by_contra hmem
        rw [List.mem_cons, not_or] at hmem
        exact hnone ⟨t', ht', hmem⟩
      · rw [hlive] at ht'
        cases ht'
    · exact And.left

end Seen

variable [DecidableEq τ] [DecidableEq α]

def step (s : Store τ α) : τ × Action α → Store τ α
  | (t, .deleteAll) => { s with versions := s.versions.map (s.mark t) }
  | (t, .insert a) =>
    if ∃ v ∈ s.versions, v.value = a ∧ v.Live then s else { s with versions := s.versions ++ [⟨a, some t, []⟩] }
  | (_, .other) => s
  | (t, .commit) => { s with committed := t :: s.committed }

def run (s : Store τ α) (log : List (τ × Action α)) : Store τ α := log.foldl step s

@[simp] theorem run_concat (s : Store τ α) (log : List (τ × Action α)) (e : τ × Action α) :
    s.run (log ++ [e]) = (s.run log).step e := by
  rw [run, List.foldl_append]
  rfl

/-! What an insertion changes. -/

@[simp] theorem committed_insert (s : Store τ α) (t : τ) (a : α) :
    (s.step (t, .insert a)).committed = s.committed := by
  rw [step]
  split_ifs <;> rfl

theorem mem_versions_insert {s : Store τ α} {t : τ} {a : α} {v : Version τ α} :
    v ∈ (s.step (t, .insert a)).versions ↔ v ∈ s.versions ∨ (¬ Holds s a ∧ v = ⟨a, some t, []⟩) := by
  rw [step]
  split_ifs with hconflict
  · exact (or_iff_left fun h => h.1 hconflict).symm
  · rw [List.mem_append, List.mem_singleton]
    exact or_congr_right (and_iff_right hconflict).symm

theorem holds_insert {s : Store τ α} {t : τ} {a b : α} :
    Holds (s.step (t, .insert a)) b ↔ Holds s b ∨ b = a := by
  constructor
  · rintro ⟨v, hv, hvalue, hlive⟩
    rcases mem_versions_insert.mp hv with hv | ⟨-, rfl⟩
    · exact Or.inl ⟨v, hv, hvalue, hlive⟩
    · exact Or.inr hvalue.symm
  · rintro (⟨v, hv, hvalue, hlive⟩ | rfl)
    · exact ⟨v, mem_versions_insert.mpr (Or.inl hv), hvalue, hlive⟩
    · by_cases hb : Holds s b
      · obtain ⟨v, hv, hvalue, hlive⟩ := hb
        exact ⟨v, mem_versions_insert.mpr (Or.inl hv), hvalue, hlive⟩
      · exact ⟨⟨b, some t, []⟩, mem_versions_insert.mpr (Or.inr ⟨hb, rfl⟩), rfl, rfl⟩

end Store

/-! ## Replacing the rows -/

/-- A transaction that deletes every row, inserts `values` and commits, among statements that leave the table alone. -/
def Replaces (values : List α) (program : List (Action α)) : Prop :=
  ∃ pre post, (∀ act ∈ pre ++ post, act = .other) ∧
    program = pre ++ .deleteAll :: (values.map .insert ++ post ++ [.commit])

namespace Replaces
variable {values : List α} {program q : List (Action α)} {act : Action α}

theorem commit_mem (h : Replaces values program) : Action.commit ∈ program := by
  obtain ⟨pre, post, -, rfl⟩ := h
  simp

theorem deleteAll_mem (h : Replaces values program) : Action.deleteAll ∈ program := by
  obtain ⟨pre, post, -, rfl⟩ := h
  simp

theorem insert_mem_iff (h : Replaces values program) {a : α} : Action.insert a ∈ program ↔ a ∈ values := by
  obtain ⟨pre, post, hother, rfl⟩ := h
  have hpre : Action.insert a ∉ pre := by
    intro hmem
    cases hother _ (List.mem_append_left _ hmem)
  have hpost : Action.insert a ∉ post := by
    intro hmem
    cases hother _ (List.mem_append_right _ hmem)
  simp [hpre, hpost]

theorem commit_notMem (h : Replaces values program) (hq : q ++ [act] <+: program) : Action.commit ∉ q := by
  obtain ⟨pre, post, hother, rfl⟩ := h
  intro hmem
  have hpre : q <+: pre ++ .deleteAll :: (values.map .insert ++ post) := by
    have hlt := hq.length_le
    refine List.prefix_of_prefix_length_le ((List.prefix_append q [act]).trans hq) ?_ ?_
    · exact ⟨[.commit], by simp⟩
    · simp only [List.length_append, List.length_cons, List.length_nil] at hlt ⊢
      omega
  have hcommit := hpre.subset hmem
  simp only [List.mem_append, List.mem_cons, List.mem_map, reduceCtorEq, and_false, exists_false, false_or] at hcommit
  cases hother _ (List.mem_append.mpr hcommit)

theorem deleteAll_mem_of_insert (h : Replaces values program) {a : α} (hq : q ++ [.insert a] <+: program) :
    Action.deleteAll ∈ q := by
  obtain ⟨pre, post, hother, rfl⟩ := h
  obtain ⟨rest, hrest⟩ := hq
  rw [List.append_assoc] at hrest
  rcases List.append_eq_append_iff.mp hrest with ⟨mid, hpre, heq⟩ | ⟨mid, rfl, heq⟩
  · cases mid with
    | nil => cases heq
    | cons act mid =>
      obtain ⟨rfl, -⟩ := List.cons.inj heq
      have hmem : Action.insert a ∈ pre := by simp [hpre]
      cases hother _ (List.mem_append_left _ hmem)
  · cases mid with
    | nil => cases heq
    | cons act mid =>
      obtain ⟨rfl, -⟩ := List.cons.inj heq
      simp

theorem insert_notMem_of_deleteAll (h : Replaces values program) (hq : q ++ [.deleteAll] <+: program) {a : α} :
    Action.insert a ∉ q := by
  obtain ⟨pre, post, hother, rfl⟩ := h
  obtain ⟨rest, hrest⟩ := hq
  have hpost : Action.deleteAll ∉ values.map .insert ++ post ++ [.commit] := by
    simp only [List.mem_append, List.mem_map, List.mem_singleton, reduceCtorEq, and_false, exists_false, false_or,
      or_false]
    intro hmem
    cases hother _ (List.mem_append_right _ hmem)
  have hpre : Action.insert a ∉ pre := by
    intro hmem
    cases hother _ (List.mem_append_left _ hmem)
  intro hmem
  rw [List.append_assoc] at hrest
  rcases List.append_eq_append_iff.mp hrest with ⟨mid, rfl, -⟩ | ⟨mid, rfl, heq⟩
  · exact hpre (List.mem_append_left _ hmem)
  · cases mid with
    | nil => exact hpre (by simpa using hmem)
    | cons act mid =>
      rw [(List.cons.inj heq).2] at hpost
      exact hpost (by simp)

end Replaces

def programOf {β : Type*} [DecidableEq τ] (t : τ) (log : List (τ × β)) : List β :=
  (log.filter fun e => e.1 = t).map (·.2)

section ProgramOf
variable {β γ : Type*} [DecidableEq τ] {t : τ} {b : β} {p log : List (τ × β)}

theorem mem_programOf : b ∈ programOf t log ↔ (t, b) ∈ log := by
  unfold programOf
  simp only [List.mem_map, List.mem_filter, decide_eq_true_eq, Prod.exists, exists_eq_right]

theorem programOf_prefix (hp : p ++ [(t, b)] <+: log) : programOf t p ++ [b] <+: programOf t log := by
  have hmap := (hp.filter fun e => decide (e.1 = t)).map (·.2)
  simpa [programOf] using hmap

theorem programOf_map (f : β → γ) : programOf t (log.map (Prod.map id f)) = (programOf t log).map f := by
  unfold programOf
  rw [List.filter_map, List.map_map, List.map_map]
  rfl

end ProgramOf

/-! ## One transaction on its own -/

/-- Nothing but the statements of one running transaction has touched the table. -/
structure Alone (t : τ) (s : Store τ α) : Prop where
  committed : s.committed = []
  insertedBy : ∀ v ∈ s.versions, ∀ t' ∈ v.insertedBy, t' = t
  deletedBy : ∀ v ∈ s.versions, ∀ t' ∈ v.deletedBy, t' = t

section Alone
variable {t : τ} {s : Store τ α} {a b : α}

theorem alone_initial (values : List α) : Alone t (Store.initial values) where
  committed := rfl
  insertedBy v hv t' ht' := by
    obtain ⟨a, -, rfl⟩ := List.mem_map.mp hv
    cases ht'
  deletedBy v hv t' ht' := by
    obtain ⟨a, -, rfl⟩ := List.mem_map.mp hv
    cases ht'

theorem holds_initial {values : List α} : Holds (Store.initial values : Store τ α) a ↔ a ∈ values := by
  unfold Holds Store.initial
  simp [Version.Live]

variable [DecidableEq τ]

theorem Alone.deleteAll (h : Alone t s) : Alone t { s with versions := s.versions.map (s.mark t) } where
  committed := h.committed
  insertedBy v' hv' t' ht' := by
    obtain ⟨v, hv, rfl⟩ := List.mem_map.mp hv'
    rw [Store.insertedBy_mark] at ht'
    exact h.insertedBy v hv t' ht'
  deletedBy v' hv' t' ht' := by
    obtain ⟨v, hv, rfl⟩ := List.mem_map.mp hv'
    unfold Store.mark at ht'
    split_ifs at ht'
    · exact (List.mem_cons.mp ht').elim id (h.deletedBy v hv t')
    · exact h.deletedBy v hv t' ht'

theorem Alone.not_holds_deleteAll (h : Alone t s) : ¬ Holds { s with versions := s.versions.map (s.mark t) } a := by
  rintro ⟨v', hv', -, hlive⟩
  obtain ⟨v, hv, rfl⟩ := List.mem_map.mp hv'
  obtain ⟨-, t', ht', hne, -⟩ := Store.live_mark_iff.mp hlive
  exact hne (h.insertedBy v hv t' ht')

variable [DecidableEq α]

theorem Alone.insert (h : Alone t s) : Alone t (s.step (t, .insert a)) where
  committed := (s.committed_insert t a).trans h.committed
  insertedBy v hv t' ht' := by
    rcases Store.mem_versions_insert.mp hv with hv | ⟨-, rfl⟩
    · exact h.insertedBy v hv t' ht'
    · exact (Option.some.inj ht').symm
  deletedBy v hv t' ht' := by
    rcases Store.mem_versions_insert.mp hv with hv | ⟨-, rfl⟩
    · exact h.deletedBy v hv t' ht'
    · cases ht'

theorem Alone.mem_rows_commit (h : Alone t s) : a ∈ (s.step (t, .commit)).rows ↔ Holds s a := by
  rw [Store.mem_rows]
  refine exists_congr fun v => and_congr_right fun hv => and_congr_right fun _ => ?_
  show v.Seen (t :: s.committed) ↔ _
  rw [h.committed]
  constructor
  · intro hseen
    refine List.eq_nil_iff_forall_not_mem.mpr fun t' ht' => hseen.2 t' ht' ?_
    exact List.mem_singleton.mpr (h.deletedBy v hv t' ht')
  · intro hlive
    refine ⟨fun t' ht' => List.mem_singleton.mpr (h.insertedBy v hv t' ht'), fun t' ht' => ?_⟩
    rw [hlive] at ht'
    cases ht'

end Alone

/-! ## Two replacements -/

section Two
variable {values : Bool → List α} {before : List α} {log p : List (Bool × Action α)}

/-- A transaction has committed before the other one deletes. -/
def InTurn (t : Bool) (log : List (Bool × Action α)) : Prop := Precedes (t, .commit) (!t, .deleteAll) log

theorem inTurn_concat {t : Bool} {e : Bool × Action α} :
    InTurn t (p ++ [e]) ↔ InTurn t p ∨ ((t, .commit) ∈ p ∧ e = (!t, .deleteAll)) := precedes_concat

theorem inTurn_concat_of_ne {t : Bool} {e : Bool × Action α} (he : e.2 ≠ .deleteAll) :
    InTurn t (p ++ [e]) ↔ InTurn t p := by
  rw [inTurn_concat, or_iff_left]
  rintro ⟨-, rfl⟩
  exact he rfl

/-- The versions, read off the statements executed so far. -/
structure Recorded (p : List (Bool × Action α)) (s : Store Bool α) : Prop where
  committed : ∀ t, t ∈ s.committed ↔ (t, .commit) ∈ p
  deleted : ∀ t a, (t, .insert a) ∈ p → (t, .deleteAll) ∈ p
  /-- One deletion is enough for the rows from before the run. -/
  old : ∀ v ∈ s.versions, v.insertedBy = none → v.Live → ∀ t, (t, .deleteAll) ∉ p
  /-- A transaction's version comes from its insertion, and is deleted by the other one once it is committed. -/
  new : ∀ v ∈ s.versions, ∀ t ∈ v.insertedBy, (t, .insert v.value) ∈ p ∧ (v.Live ↔ ¬ InTurn t p)
  /-- An inserted value is there, unless the other transaction has found it committed. -/
  inserted : ∀ t a, (t, .insert a) ∈ p → ¬ InTurn t p → Holds s a
  exclusive : ∀ t, InTurn t p → ¬ InTurn (!t) p

theorem recorded_initial : Recorded [] (Store.initial before) where
  committed t := by simp [Store.initial]
  deleted t a hmem := by cases hmem
  old v hv hnone hlive t := List.not_mem_nil
  new v hv t ht := by
    obtain ⟨a, -, rfl⟩ := List.mem_map.mp hv
    cases ht
  inserted t a hmem := by cases hmem
  exclusive t h := by cases h

section Steps
variable {s s' : Store Bool α} {t : Bool} {act : Action α}

theorem mem_concat_of_ne {t' : Bool} {act' : Action α} (hne : act' ≠ act) :
    (t', act') ∈ p ++ [(t, act)] ↔ (t', act') ∈ p := by
  rw [List.mem_append, List.mem_singleton, or_iff_left]
  rintro ⟨⟩
  exact hne rfl

/-- A statement that leaves the versions alone. -/
theorem Recorded.of_versions_eq (h : Recorded p s) (hdelete : act ≠ .deleteAll) (hinsert : ∀ a, act ≠ .insert a)
    (hversions : s'.versions = s.versions) (hcommitted : ∀ t', t' ∈ s'.committed ↔ (t', .commit) ∈ p ++ [(t, act)]) :
    Recorded (p ++ [(t, act)]) s' := by
  have hturn : ∀ t', InTurn t' (p ++ [(t, act)]) ↔ InTurn t' p := fun t' => inTurn_concat_of_ne hdelete
  constructor
  · exact hcommitted
  · intro t' a
    rw [mem_concat_of_ne (hinsert a).symm, mem_concat_of_ne hdelete.symm]
    exact h.deleted t' a
  · intro v hv hnone hlive t'
    rw [mem_concat_of_ne hdelete.symm]
    exact h.old v (hversions ▸ hv) hnone hlive t'
  · intro v hv t' ht'
    rw [mem_concat_of_ne (hinsert v.value).symm, hturn]
    exact h.new v (hversions ▸ hv) t' ht'
  · intro t' a
    rw [mem_concat_of_ne (hinsert a).symm, hturn]
    unfold Holds
    rw [hversions]
    exact h.inserted t' a
  · intro t'
    rw [hturn, hturn]
    exact h.exclusive t'

/-- A transaction that has not committed cannot be in turn before the other one, and its deletion is in turn after the
commit of the other one only. -/
theorem exclusive_concat_deleteAll (hcommit : (t, .commit) ∉ p) (h : ∀ t', InTurn t' p → ¬ InTurn (!t') p) (t' : Bool)
    (hturn : InTurn t' (p ++ [(t, .deleteAll)])) : ¬ InTurn (!t') (p ++ [(t, .deleteAll)]) := by
  intro hturn'
  rw [inTurn_concat] at hturn hturn'
  rcases hturn with hturn | ⟨hmem, heq⟩
  · rcases hturn' with hturn' | ⟨-, heq'⟩
    · exact h t' hturn hturn'
    · rw [Bool.not_not] at heq'
      obtain rfl : t = t' := congrArg Prod.fst heq'
      exact hcommit hturn.left_mem
  · obtain rfl : t = !t' := congrArg Prod.fst heq
    rcases hturn' with hturn' | ⟨hmem', -⟩
    · exact hcommit hturn'.left_mem
    · exact hcommit hmem'

theorem Recorded.deleteAll (h : Recorded p s) (hcommit : (t, .commit) ∉ p) (hinsert : ∀ a, (t, .insert a) ∉ p) :
    Recorded (p ++ [(t, .deleteAll)]) { s with versions := s.versions.map (s.mark t) } := by
  -- the transaction of an insertion is the other one
  have hother : ∀ {t' a}, (t', .insert a) ∈ p → t = !t' := by
    intro t' a hmem'
    rw [Bool.eq_not]
    rintro rfl
    exact hinsert a hmem'
  have hturn : ∀ {t'}, t = !t' → (InTurn t' (p ++ [(t, .deleteAll)]) ↔ InTurn t' p ∨ (t', .commit) ∈ p) := by
    rintro t' rfl
    rw [inTurn_concat, and_iff_left rfl]
  constructor
  · intro t'
    rw [mem_concat_of_ne (by simp)]
    exact h.committed t'
  · intro t' a hinserted
    rw [mem_concat_of_ne (by simp)] at hinserted
    exact List.mem_append_left _ (h.deleted t' a hinserted)
  · intro v' hv' hnone hlive
    obtain ⟨v, -, rfl⟩ := List.mem_map.mp hv'
    rw [Store.insertedBy_mark] at hnone
    obtain ⟨-, t', ht', -⟩ := Store.live_mark_iff.mp hlive
    rw [hnone] at ht'
    cases ht'
  · intro v' hv' t' ht'
    obtain ⟨v, hv, rfl⟩ := List.mem_map.mp hv'
    rw [Store.insertedBy_mark] at ht'
    obtain ⟨hinserted, hlive⟩ := h.new v hv t' ht'
    have hne : t' ≠ t := (Bool.eq_not.mp (hother hinserted)).symm
    rw [Store.value_mark, mem_concat_of_ne (by simp), Store.live_mark_iff, hlive, hturn (hother hinserted), not_or,
      ← h.committed]
    refine ⟨hinserted, and_congr_right fun _ => ⟨?_, fun hcommitted => ⟨t', ht', hne, hcommitted⟩⟩⟩
    rintro ⟨t'', ht'', -, hcommitted⟩
    rwa [Option.mem_unique ht' ht'']
  · intro t' a hinserted hafter
    rw [mem_concat_of_ne (by simp)] at hinserted
    rw [hturn (hother hinserted), not_or] at hafter
    obtain ⟨v, hv, hvalue, hlive⟩ := h.inserted t' a hinserted hafter.1
    refine ⟨s.mark t v, List.mem_map_of_mem hv, by rw [Store.value_mark, hvalue], Store.live_mark_iff.mpr ⟨hlive, ?_⟩⟩
    cases hby : v.insertedBy with
    | none => exact absurd (h.deleted t' a hinserted) (h.old v hv hby hlive t')
    | some t'' =>
      have hother' := hother (h.new v hv t'' hby).1
      obtain rfl : t'' = t' := Bool.not_inj (hother'.symm.trans (hother hinserted))
      exact ⟨t'', rfl, (Bool.eq_not.mp hother').symm, fun hcommitted => hafter.2 ((h.committed t'').mp hcommitted)⟩
  · exact exclusive_concat_deleteAll hcommit h.exclusive

theorem Recorded.insert {a : α} [DecidableEq α] (h : Recorded p s) (hcommit : (t, .commit) ∉ p)
    (hdelete : (t, .deleteAll) ∈ p) : Recorded (p ++ [(t, .insert a)]) (s.step (t, .insert a)) := by
  have hturn : ∀ t', InTurn t' (p ++ [(t, .insert a)]) ↔ InTurn t' p := fun t' => inTurn_concat_of_ne (by simp)
  constructor
  · intro t'
    rw [Store.committed_insert, mem_concat_of_ne (by simp)]
    exact h.committed t'
  · intro t' b hinserted
    rw [mem_concat_of_ne (by simp)]
    rcases List.mem_append.mp hinserted with hinserted | hinserted
    · exact h.deleted t' b hinserted
    · obtain rfl : t' = t := congrArg Prod.fst (List.mem_singleton.mp hinserted)
      exact hdelete
  · intro v hv hnone hlive t'
    rw [mem_concat_of_ne (by simp)]
    rcases Store.mem_versions_insert.mp hv with hv | ⟨-, rfl⟩
    · exact h.old v hv hnone hlive t'
    · cases hnone
  · intro v hv t' ht'
    rw [hturn]
    rcases Store.mem_versions_insert.mp hv with hv | ⟨-, rfl⟩
    · obtain ⟨hinserted, hlive⟩ := h.new v hv t' ht'
      exact ⟨List.mem_append_left _ hinserted, hlive⟩
    · obtain rfl : t = t' := Option.some.inj ht'
      exact ⟨List.mem_append_right _ (List.mem_singleton_self _), iff_of_true rfl fun hturn' => hcommit hturn'.left_mem⟩
  · intro t' b hinserted
    rw [hturn]
    intro hafter
    rcases List.mem_append.mp hinserted with hinserted | hinserted
    · exact Store.holds_insert.mpr (Or.inl (h.inserted t' b hinserted hafter))
    · obtain rfl : b = a := by simpa using congrArg Prod.snd (List.mem_singleton.mp hinserted)
      exact Store.holds_insert.mpr (Or.inr rfl)
  · intro t'
    rw [hturn, hturn]
    exact h.exclusive t'

end Steps

variable [DecidableEq α]

/-- Every prefix of a run of two replacements is recorded. -/
theorem recorded_run (before : List α) (hprograms : ∀ t, Replaces (values t) (programOf t log)) (hp : p <+: log) :
    Recorded p ((Store.initial before).run p) := by
  induction p using List.reverseRecOn with
  | nil => exact recorded_initial
  | append_singleton p e ih =>
    obtain ⟨t, act⟩ := e
    have h := ih ((List.prefix_append p _).trans hp)
    have hprogram := programOf_prefix hp
    have hcommit : (t, .commit) ∉ p := mem_programOf.not.mp ((hprograms t).commit_notMem hprogram)
    rw [Store.run_concat]
    cases act with
    | deleteAll =>
      exact h.deleteAll hcommit fun a => mem_programOf.not.mp ((hprograms t).insert_notMem_of_deleteAll hprogram)
    | insert a => exact h.insert hcommit (mem_programOf.mp ((hprograms t).deleteAll_mem_of_insert hprogram))
    | other =>
      refine h.of_versions_eq (by simp) (by simp) rfl fun t' => ?_
      rw [List.mem_append, or_iff_left (by simp)]
      exact h.committed t'
    | commit =>
      refine h.of_versions_eq (by simp) (by simp) rfl fun t' => ?_
      show t' ∈ t :: _ ↔ _
      rw [List.mem_cons, h.committed, List.mem_append, List.mem_singleton, Prod.mk.injEq, and_iff_left rfl, or_comm]

/-- **What two replacements leave**: the values of each that the other one has not found committed. -/
theorem mem_rows_iff (hprograms : ∀ t, Replaces (values t) (programOf t log)) {a : α} :
    a ∈ ((Store.initial before).run log).rows ↔ ∃ t, a ∈ values t ∧ ¬ InTurn t log := by
  have h := recorded_run before hprograms (List.prefix_refl log)
  have hdeleted : ∀ t, (t, Action.deleteAll) ∈ log := fun t => mem_programOf.mp (hprograms t).deleteAll_mem
  have hcommitted : ∀ t, t ∈ ((Store.initial before).run log).committed := fun t =>
    (h.committed t).mpr (mem_programOf.mp (hprograms t).commit_mem)
  have hvalues : ∀ {t b}, (t, Action.insert b) ∈ log ↔ b ∈ values t := fun {t b} =>
    mem_programOf.symm.trans (hprograms t).insert_mem_iff
  have hseen : ∀ v : Version Bool α, v.Seen ((Store.initial before).run log).committed ↔ v.Live := by
    intro v
    constructor
    · intro hv
      exact List.eq_nil_iff_forall_not_mem.mpr fun t ht => hv.2 t ht (hcommitted t)
    · intro hlive
      refine ⟨fun t _ => hcommitted t, fun t ht => ?_⟩
      rw [hlive] at ht
      cases ht
  rw [Store.mem_rows]
  constructor
  · rintro ⟨v, hv, rfl, hlive⟩
    rw [hseen] at hlive
    cases hby : v.insertedBy with
    | none => exact absurd (hdeleted true) (h.old v hv hby hlive true)
    | some t =>
      obtain ⟨hinserted, hturn⟩ := h.new v hv t hby
      exact ⟨t, hvalues.mp hinserted, hturn.mp hlive⟩
  · rintro ⟨t, hmem, hturn⟩
    obtain ⟨v, hv, hvalue, hlive⟩ := h.inserted t a (hvalues.mpr hmem) hturn
    exact ⟨v, hv, hvalue, (hseen v).mpr hlive⟩

/-- **Two replacements leave the values of one of them exactly when** one deletes after the other has committed, or one
list contains the other. -/
theorem rows_eq_iff (hprograms : ∀ t, Replaces (values t) (programOf t log)) :
    (∃ t, ∀ a, a ∈ ((Store.initial before).run log).rows ↔ a ∈ values t) ↔
      (∃ t, InTurn t log) ∨ ∃ t, values t ⊆ values (!t) := by
  have hexclusive := (recorded_run before hprograms (List.prefix_refl log)).exclusive
  have hrows : ∀ a, a ∈ ((Store.initial before).run log).rows ↔ ∃ t, a ∈ values t ∧ ¬ InTurn t log := fun a =>
    mem_rows_iff hprograms
  by_cases hturn : ∃ t, InTurn t log
  · obtain ⟨t, ht⟩ := hturn
    refine iff_of_true ⟨!t, fun a => (hrows a).trans ⟨?_, fun ha => ⟨!t, ha, hexclusive t ht⟩⟩⟩ (Or.inl ⟨t, ht⟩)
    rintro ⟨t', ha, ht'⟩
    have hne : t' ≠ t := by
      rintro rfl
      exact ht' ht
    rwa [← Bool.eq_not.mpr hne]
  · -- no transaction finds the other one committed, and both lists stay
    have hunion : ∀ t a, a ∈ ((Store.initial before).run log).rows ↔ a ∈ values t ∨ a ∈ values (!t) := by
      intro t a
      rw [hrows a]
      constructor
      · rintro ⟨t', ha, -⟩
        by_cases hsame : t' = t
        · exact Or.inl (hsame ▸ ha)
        · exact Or.inr (Bool.eq_not.mpr hsame ▸ ha)
      · rintro (ha | ha)
        · exact ⟨t, ha, fun ht => hturn ⟨t, ht⟩⟩
        · exact ⟨!t, ha, fun ht => hturn ⟨!t, ht⟩⟩
    rw [or_iff_right hturn]
    constructor
    · rintro ⟨t, ht⟩
      refine ⟨!t, fun a ha => ?_⟩
      rw [Bool.not_not]
      exact (ht a).mp ((hunion t a).mpr (Or.inr ha))
    · rintro ⟨t, hsubset⟩
      exact ⟨!t, fun a => (hunion t a).trans (or_iff_right_of_imp fun ha => hsubset ha)⟩

end Two

end ReadCommitted
