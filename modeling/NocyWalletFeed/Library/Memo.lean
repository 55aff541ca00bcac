import NocyWalletFeed.Library.Walk

/-!
# Memo tables

Calls share a table of values of a world that changes. A call looks its key up; where there is no row it computes the
value, stores it, unless there is a row by then, and answers what it has computed. Each of these is a statement of its
own: other calls go on and the world changes between them, and each may fail, executed or not.

* `Memo.step` : the calls and the world, in any order;
* `always_inv_iff` : all values are right for good just when each computed one was final;
* `answers_stored` : a row stays, and is what later calls answer;
* `getElem?_foldl` : turns leave the calls as they are that they do not run.
-/

namespace Memo
open Walk

/-! ## Tables -/

section Table
variable {κ υ : Type*} [DecidableEq κ]

def lookup (table : List (κ × υ)) (key : κ) : Option υ := (table.find? (fun row => row.1 = key)).map (·.2)

/-- A row is only added where there is none for its key. -/
def insertNew (table : List (κ × υ)) (key : κ) (value : υ) : List (κ × υ) :=
  if (lookup table key).isSome then table else table ++ [(key, value)]

variable {table : List (κ × υ)} {key key' : κ} {v v' : υ}

theorem mem_of_lookup (h : lookup table key = some v) : (key, v) ∈ table := by
  obtain ⟨row, hrow, rfl⟩ := Option.map_eq_some_iff.mp h
  obtain rfl : row.1 = key := by simpa using List.find?_some hrow
  exact List.mem_of_find?_eq_some hrow

theorem mem_insertNew {row : κ × υ} (h : row ∈ insertNew table key v) : row ∈ table ∨ row = (key, v) := by
  unfold insertNew at h
  split_ifs at h
  · exact Or.inl h
  · simpa using h

theorem lookup_insertNew (h : lookup table key = some v) : lookup (insertNew table key' v') key = some v := by
  unfold insertNew
  split_ifs
  · exact h
  · obtain ⟨row, hrow, rfl⟩ := Option.map_eq_some_iff.mp h
    rw [lookup, List.find?_append, hrow]
    rfl

theorem lookup_insertNew_self (h : lookup table key = none) : lookup (insertNew table key v) key = some v := by
  have hnone : table.find? (fun row => row.1 = key) = none := Option.map_eq_none_iff.mp h
  rw [insertNew, h, if_neg (by simp), lookup, List.find?_append, hnone]
  simp

end Table

/-! ## Calls -/

inductive Stage where
  | look
  | compute
  | store
  deriving DecidableEq, Repr

inductive Call (κ υ ε : Type*) where
  | looking (key : κ)
  | computing (key : κ)
  | storing (key : κ) (value : υ)
  | answered (key : κ) (value : υ)
  | failed (stage : Stage) (key : κ) (error : ε)
  deriving DecidableEq, Repr

/-- A world, the table and the calls, the first call first. -/
structure State (ω κ υ ε : Type*) where
  world : ω
  table : List (κ × υ)
  calls : List (Call κ υ ε)

/-- What happens next: the world changes, a call begins, or the next statement of a call succeeds or fails. -/
inductive Turn (ω κ ε : Type*) where
  | change (world : ω)
  | call (key : κ)
  | run (i : Nat)
  | fail (i : Nat) (executed : Bool) (error : ε)

variable {ω κ υ ε : Type*}

def Call.key : Call κ υ ε → κ
  | .looking key => key
  | .computing key => key
  | .storing key _ => key
  | .answered key _ => key
  | .failed _ key _ => key

def Call.fail (error : ε) : Call κ υ ε → Call κ υ ε
  | .looking key => .failed .look key error
  | .computing key => .failed .compute key error
  | .storing key _ => .failed .store key error
  | .answered key value => .answered key value
  | .failed stage key error' => .failed stage key error'

variable [DecidableEq κ] (value : ω → κ → υ)

def Call.next (world : ω) (table : List (κ × υ)) : Call κ υ ε → Call κ υ ε
  | .looking key =>
    match lookup table key with
    | some v => .answered key v
    | none => .computing key
  | .computing key => .storing key (value world key)
  | .storing key v => .answered key v
  | .answered key v => .answered key v
  | .failed stage key error => .failed stage key error

def Call.tableAfter (table : List (κ × υ)) : Call κ υ ε → List (κ × υ)
  | .storing key v => insertNew table key v
  | .looking _ => table
  | .computing _ => table
  | .answered _ _ => table
  | .failed _ _ _ => table

/-- The next statement of a call succeeds. -/
def State.run (m : State ω κ υ ε) (i : Nat) : State ω κ υ ε :=
  match m.calls[i]? with
  | some c => { m with table := c.tableAfter m.table, calls := m.calls.set i (c.next value m.world m.table) }
  | none => m

theorem State.run_eq {m : State ω κ υ ε} {i : Nat} {c : Call κ υ ε} (h : m.calls[i]? = some c) : m.run value i =
    { m with table := c.tableAfter m.table, calls := m.calls.set i (c.next value m.world m.table) } := by
  rw [State.run, h]

@[simp] theorem State.length_run (m : State ω κ υ ε) (i : Nat) : (m.run value i).calls.length = m.calls.length := by
  unfold State.run
  cases m.calls[i]? with
  | none => rfl
  | some c => exact List.length_set

def State.fail (m : State ω κ υ ε) (i : Nat) (executed : Bool) (error : ε) : State ω κ υ ε :=
  match m.calls[i]? with
  | some c =>
    { m with table := if executed then c.tableAfter m.table else m.table, calls := m.calls.set i (c.fail error) }
  | none => m

def step (m : State ω κ υ ε) : Turn ω κ ε → State ω κ υ ε
  | .change world => { m with world := world }
  | .call key => { m with calls := m.calls ++ [.looking key] }
  | .run i => m.run value i
  | .fail i executed error => m.fail i executed error

/-! ## Values that are right for good -/

section Right
variable (later : ω → ω → Prop)

/-- The value of a key in every later world. -/
def Right (world : ω) (key : κ) (v : υ) : Prop := ∀ world', later world world' → value world' key = v

/-- The value of a key does not change any more. -/
abbrev Final (world : ω) (key : κ) : Prop := Right value later world key (value world key)

def Call.Right (world : ω) : Call κ υ ε → Prop
  | .storing key v => Memo.Right value later world key v
  | .answered key v => Memo.Right value later world key v
  | .looking _ => True
  | .computing _ => True
  | .failed _ _ _ => True

/-- All values stored, computed and answered are right for good. -/
structure Inv (m : State ω κ υ ε) : Prop where
  rows : ∀ row ∈ m.table, Right value later m.world row.1 row.2
  calls : ∀ c ∈ m.calls, c.Right value later m.world

/-- The world only changes to later ones. -/
def Turn.Valid (m : State ω κ υ ε) : Turn ω κ ε → Prop
  | .change world => later m.world world
  | .call _ => True
  | .run _ => True
  | .fail _ _ _ => True

def Turn.Final (m : State ω κ υ ε) : Turn ω κ ε → Prop
  | .run i => ∀ key, m.calls[i]? = some (.computing key) → Memo.Final value later m.world key
  | .change _ => True
  | .call _ => True
  | .fail _ _ _ => True

variable {value later} {m : State ω κ υ ε}

omit [DecidableEq κ] in
theorem Right.of_later (htrans : ∀ a b c, later a b → later b c → later a c) {world world' : ω} {key : κ} {v : υ}
    (h : Right value later world key v) (hlater : later world world') : Right value later world' key v :=
  fun world'' hlater' => h world'' (htrans world world' world'' hlater hlater')

omit [DecidableEq κ] in
theorem Call.Right.fail {world : ω} {c : Call κ υ ε} (h : c.Right value later world) (error : ε) :
    (c.fail error).Right value later world := by
  cases c with
  | answered key v => exact h
  | looking key => trivial
  | computing key => trivial
  | storing key v => trivial
  | failed stage key error' => trivial

theorem Inv.tableAfter (h : Inv value later m) {c : Call κ υ ε} (hc : c ∈ m.calls) :
    ∀ row ∈ c.tableAfter m.table, Right value later m.world row.1 row.2 := by
  cases c with
  | storing key v =>
    intro row hrow
    rcases mem_insertNew hrow with hrow | rfl
    · exact h.rows row hrow
    · exact h.calls _ hc
  | looking key => exact h.rows
  | computing key => exact h.rows
  | answered key v => exact h.rows
  | failed stage key error => exact h.rows

/-- What a call has after a statement is right just when a value it has computed is final. -/
theorem Inv.right_next_iff (h : Inv value later m) {c : Call κ υ ε} (hc : c ∈ m.calls) :
    (c.next value m.world m.table).Right value later m.world ↔
      ∀ key, c = .computing key → Memo.Final value later m.world key := by
  cases c with
  | looking key =>
    refine iff_of_true ?_ fun key' heq => by cases heq
    show (match lookup m.table key with
      | some v => Call.answered key v
      | none => Call.computing key).Right value later m.world
    cases hrow : lookup m.table key with
    | none => trivial
    | some v => exact h.rows _ (mem_of_lookup hrow)
  | computing key =>
    constructor
    · rintro hright key' heq
      obtain rfl := Call.computing.inj heq
      exact hright
    · intro hfinal
      exact hfinal key rfl
  | storing key v =>
    have hright : Right value later m.world key v := h.calls _ hc
    exact iff_of_true hright fun key' heq => by cases heq
  | answered key v =>
    have hright : Right value later m.world key v := h.calls _ hc
    exact iff_of_true hright fun key' heq => by cases heq
  | failed stage key error => exact iff_of_true trivial fun key' heq => by cases heq

/-- **Step.** A turn keeps all values right just when a value it computes is final. -/
theorem Inv.step_iff (htrans : ∀ a b c, later a b → later b c → later a c) (h : Inv value later m)
    {turn : Turn ω κ ε} (hvalid : turn.Valid later m) :
    Inv value later (step value m turn) ↔ turn.Final value later m := by
  cases turn with
  | change world =>
    refine iff_of_true ⟨fun row hrow => (h.rows row hrow).of_later htrans hvalid, fun c hc => ?_⟩ trivial
    have hright := h.calls c hc
    cases c with
    | storing key v => exact Right.of_later htrans hright hvalid
    | answered key v => exact Right.of_later htrans hright hvalid
    | looking key => trivial
    | computing key => trivial
    | failed stage key error => trivial
  | call key =>
    refine iff_of_true ⟨h.rows, fun c hc => ?_⟩ trivial
    rcases List.mem_append.mp hc with hc | hc
    · exact h.calls c hc
    · rw [List.mem_singleton.mp hc]
      trivial
  | run i =>
    show Inv value later (m.run value i) ↔
      ∀ key, m.calls[i]? = some (.computing key) → Memo.Final value later m.world key
    unfold State.run
    cases hcall : m.calls[i]? with
    | none => exact iff_of_true h fun key heq => by cases heq
    | some c =>
      have hc := List.mem_of_getElem? hcall
      have hiff := h.right_next_iff hc
      constructor
      · intro hinv key heq
        obtain ⟨hi, -⟩ := List.getElem?_eq_some_iff.mp hcall
        exact hiff.mp (hinv.calls _ (List.mem_set hi _)) key (Option.some.inj heq)
      · intro hfinal
        refine ⟨h.tableAfter hc, fun c' hc' => ?_⟩
        rcases List.mem_or_eq_of_mem_set hc' with hc' | rfl
        · exact h.calls c' hc'
        · exact hiff.mpr fun key heq => hfinal key (congrArg some heq)
  | fail i executed error =>
    refine iff_of_true ?_ trivial
    show Inv value later (m.fail i executed error)
    unfold State.fail
    cases hcall : m.calls[i]? with
    | none => exact h
    | some c =>
      have hc := List.mem_of_getElem? hcall
      refine ⟨fun row hrow => ?_, fun c' hc' => ?_⟩
      · cases executed with
        | true => exact h.tableAfter hc row hrow
        | false => exact h.rows row hrow
      · rcases List.mem_or_eq_of_mem_set hc' with hc' | rfl
        · exact h.calls c' hc'
        · exact (h.calls c hc).fail error

/-- **Exact condition.** Throughout a run all values are right for good just when each value is final when it is
computed. -/
theorem always_inv_iff (htrans : ∀ a b c, later a b → later b c → later a c) (h : Inv value later m)
    {turns : List (Turn ω κ ε)} (hvalid : Along (fun m turn => turn.Valid later m) (step value) m turns) :
    Always (Inv value later) (step value) m turns ↔
      Along (fun m turn => turn.Final value later m) (step value) m turns := by
  have hside : ∀ (m : State ω κ υ ε) (turn : Turn ω κ ε), True → turn.Valid later m → Inv value later m →
      Inv value later (step value m turn) → True := fun _ _ _ _ _ _ => trivial
  have hstep : ∀ (m : State ω κ υ ε) (turn : Turn ω κ ε), True → turn.Valid later m → Inv value later m →
      (Inv value later (step value m turn) ↔ turn.Final value later m) :=
    fun _ _ _ hvalid hinv => hinv.step_iff htrans hvalid
  exact always_iff_along hside hstep trivial h hvalid

end Right

/-! ## Rows that stay -/

section Stored
variable {value : ω → κ → υ} {m : State ω κ υ ε} {key : κ} {v : υ}

theorem Call.lookup_tableAfter {table : List (κ × υ)} (h : lookup table key = some v) (c : Call κ υ ε) :
    lookup (c.tableAfter table) key = some v := by
  cases c with
  | storing key' v' => exact lookup_insertNew h
  | looking key' => exact h
  | computing key' => exact h
  | answered key' v' => exact h
  | failed stage key' error => exact h

@[simp] theorem Call.key_next (world : ω) (table : List (κ × υ)) (c : Call κ υ ε) :
    (c.next value world table).key = c.key := by
  cases c with
  | looking key' =>
    show (match lookup table key' with
      | some v => Call.answered key' v
      | none => Call.computing key').key = key'
    cases lookup table key' with
    | none => rfl
    | some v' => rfl
  | computing key' => rfl
  | storing key' v' => rfl
  | answered key' v' => rfl
  | failed stage key' error => rfl

omit [DecidableEq κ] in
@[simp] theorem Call.key_fail (c : Call κ υ ε) (error : ε) : (c.fail error).key = c.key := by
  cases c with
  | looking key' => rfl
  | computing key' => rfl
  | storing key' v' => rfl
  | answered key' v' => rfl
  | failed stage key' error' => rfl

/-- A call for a key that has a row, begun since: it has not looked yet, has answered the row, or has failed to look. -/
inductive Call.Answers (key : κ) (v : υ) : Call κ υ ε → Prop where
  | other {c : Call κ υ ε} (h : c.key ≠ key) : Answers key v c
  | looking : Answers key v (.looking key)
  | answered : Answers key v (.answered key v)
  | failed (error : ε) : Answers key v (.failed .look key error)

theorem Call.Answers.next {world : ω} {table : List (κ × υ)} {c : Call κ υ ε} (h : c.Answers key v)
    (hrow : lookup table key = some v) : (c.next value world table).Answers key v := by
  cases h with
  | other hkey => exact .other (by rwa [Call.key_next])
  | looking =>
    rw [Call.next, hrow]
    exact .answered
  | answered => exact .answered
  | failed error => exact .failed error

omit [DecidableEq κ] in
theorem Call.Answers.fail {c : Call κ υ ε} (h : c.Answers key v) (error : ε) : (c.fail error).Answers key v := by
  cases h with
  | other hkey => exact .other (by rwa [Call.key_fail])
  | looking => exact .failed error
  | answered => exact .answered
  | failed error' => exact .failed error'

/-- A key has a row, and the calls from the `n`-th on have begun since. -/
structure Stored (n : Nat) (key : κ) (v : υ) (m : State ω κ υ ε) : Prop where
  row : lookup m.table key = some v
  begun : n ≤ m.calls.length
  calls : ∀ i c, n ≤ i → m.calls[i]? = some c → c.Answers key v

theorem stored_of_lookup (h : lookup m.table key = some v) : Stored m.calls.length key v m where
  row := h
  begun := Nat.le_refl _
  calls i c hi hcall := by
    rw [List.getElem?_eq_none hi] at hcall
    cases hcall

variable {n : Nat}

theorem Stored.set (h : Stored n key v m) {i : Nat} {c c' : Call κ υ ε} (hcall : m.calls[i]? = some c)
    {table : List (κ × υ)} (htable : lookup table key = some v) (hanswers : c.Answers key v → c'.Answers key v) :
    Stored n key v { m with table := table, calls := m.calls.set i c' } where
  row := htable
  begun := by
    rw [List.length_set]
    exact h.begun
  calls j d hj hd := by
    by_cases hij : i = j
    · subst hij
      obtain ⟨hi, -⟩ := List.getElem?_eq_some_iff.mp hcall
      obtain rfl : c' = d := by simpa [List.getElem?_set, hi] using hd
      exact hanswers (h.calls i c hj hcall)
    · have hd : m.calls[j]? = some d := by simpa [List.getElem?_set, hij] using hd
      exact h.calls j d hj hd

/-- **Step.** A row stays, and the calls begun since answer it. -/
theorem Stored.step (h : Stored n key v m) (turn : Turn ω κ ε) : Stored n key v (step value m turn) := by
  cases turn with
  | change world => exact ⟨h.row, h.begun, h.calls⟩
  | call key' =>
    refine ⟨h.row, ?_, fun i c hi hcall => ?_⟩
    · show n ≤ (m.calls ++ [Call.looking key']).length
      rw [List.length_append]
      exact Nat.le_trans h.begun (Nat.le_add_right _ _)
    · have hcall : (m.calls ++ [Call.looking key'])[i]? = some c := hcall
      by_cases hlt : i < m.calls.length
      · rw [List.getElem?_append_left hlt] at hcall
        exact h.calls i c hi hcall
      · rw [List.getElem?_append_right (Nat.not_lt.mp hlt)] at hcall
        obtain rfl := List.mem_singleton.mp (List.mem_of_getElem? hcall)
        by_cases hkey : key' = key
        · rw [hkey]
          exact .looking
        · exact .other hkey
  | run i =>
    show Stored n key v (m.run value i)
    unfold State.run
    cases hcall : m.calls[i]? with
    | none => exact h
    | some c => exact h.set hcall (Call.lookup_tableAfter h.row c) fun hanswers => hanswers.next h.row
  | fail i executed error =>
    show Stored n key v (m.fail i executed error)
    unfold State.fail
    cases hcall : m.calls[i]? with
    | none => exact h
    | some c =>
      refine h.set hcall ?_ fun hanswers => hanswers.fail error
      cases executed with
      | true => exact Call.lookup_tableAfter h.row c
      | false => exact h.row

/-- **Run.** Once a key has a row, every call that begins answers it or fails to look, whatever the world is. -/
theorem answers_stored (h : lookup m.table key = some v) (turns : List (Turn ω κ ε)) :
    Stored m.calls.length key v (turns.foldl (step value) m) :=
  turns.foldlRecOn (step value) (stored_of_lookup h) fun _ hstored turn _ => hstored.step turn

end Stored

/-! ## Statements of other calls -/

/-- Not a statement of the `i`-th call. -/
def Turn.Spares (i : Nat) : Turn ω κ ε → Prop
  | .run j => j ≠ i
  | .fail j _ _ => j ≠ i
  | .change _ => True
  | .call _ => True

section Spares
variable {value : ω → κ → υ} {m : State ω κ υ ε} {i : Nat} {c : Call κ υ ε}

theorem getElem?_step {turn : Turn ω κ ε} (h : turn.Spares i) (hcall : m.calls[i]? = some c) :
    (step value m turn).calls[i]? = some c := by
  cases turn with
  | change world => exact hcall
  | call key =>
    obtain ⟨hi, -⟩ := List.getElem?_eq_some_iff.mp hcall
    exact (List.getElem?_append_left hi).trans hcall
  | run j =>
    show (m.run value j).calls[i]? = some c
    unfold State.run
    cases m.calls[j]? with
    | none => exact hcall
    | some d => exact (List.getElem?_set_ne h).trans hcall
  | fail j executed error =>
    show (m.fail j executed error).calls[i]? = some c
    unfold State.fail
    cases m.calls[j]? with
    | none => exact hcall
    | some d => exact (List.getElem?_set_ne h).trans hcall

theorem getElem?_foldl {turns : List (Turn ω κ ε)} (h : ∀ turn ∈ turns, turn.Spares i)
    (hcall : m.calls[i]? = some c) : (turns.foldl (step value) m).calls[i]? = some c := by
  induction turns generalizing m with
  | nil => exact hcall
  | cons turn turns ih =>
    have hstep : (step value m turn).calls[i]? = some c := getElem?_step (h turn List.mem_cons_self) hcall
    exact ih (fun turn' hmem => h turn' (List.mem_cons_of_mem turn hmem)) hstep

end Spares

end Memo
