import Mathlib.Data.List.Basic

/-!
# The order of events in a log

A log is the list of the events of a run, the oldest first.

* `Precedes a b log` : some occurrence of `a` has an occurrence of `b` after it;
* `precedes_concat` : what one more event adds;
* `precedes_map` : the order of two events under a map of the log.
-/

namespace EventLog

variable {ε : Type*} {a b : ε}

/-- Some occurrence of `a` has an occurrence of `b` after it. -/
def Precedes (a b : ε) : List ε → Prop
  | [] => False
  | e :: log => (e = a ∧ b ∈ log) ∨ Precedes a b log

instance decidablePrecedes [DecidableEq ε] (a b : ε) : ∀ log : List ε, Decidable (Precedes a b log)
  | [] => .isFalse id
  | _ :: log =>
    have : Decidable (Precedes a b log) := decidablePrecedes a b log
    inferInstanceAs (Decidable (_ ∨ _))

@[simp] theorem not_precedes_nil : ¬ Precedes a b [] := id

@[simp] theorem precedes_cons {e : ε} {log : List ε} :
    Precedes a b (e :: log) ↔ (e = a ∧ b ∈ log) ∨ Precedes a b log := Iff.rfl

/-- One more event: it is the later one, or nothing changes. -/
theorem precedes_concat {e : ε} {log : List ε} :
    Precedes a b (log ++ [e]) ↔ Precedes a b log ∨ (a ∈ log ∧ e = b) := by
  induction log with
  | nil => simp
  | cons e' log ih =>
    rw [List.cons_append, precedes_cons, precedes_cons, ih, List.mem_append, List.mem_singleton, List.mem_cons,
      eq_comm (a := b), eq_comm (a := a)]
    tauto

theorem Precedes.left_mem {log : List ε} (h : Precedes a b log) : a ∈ log := by
  induction log with
  | nil => cases h
  | cons e log ih =>
    rcases h with ⟨rfl, -⟩ | h
    · exact List.mem_cons_self
    · exact List.mem_cons_of_mem e (ih h)

theorem Precedes.right_mem {log : List ε} (h : Precedes a b log) : b ∈ log := by
  induction log with
  | nil => cases h
  | cons e log ih =>
    rcases h with ⟨-, h⟩ | h
    · exact List.mem_cons_of_mem e h
    · exact List.mem_cons_of_mem e (ih h)

theorem precedes_map {ε' : Type*} {f : ε → ε'} (ha : ∀ e, f e = f a → e = a) (hb : ∀ e, f e = f b → e = b)
    {log : List ε} : Precedes (f a) (f b) (log.map f) ↔ Precedes a b log := by
  induction log with
  | nil => exact Iff.rfl
  | cons e log ih =>
    rw [List.map_cons, precedes_cons, precedes_cons, ih]
    have hea : f e = f a ↔ e = a := ⟨ha e, congrArg f⟩
    have hmem : f b ∈ log.map f ↔ b ∈ log := by
      constructor
      · intro h
        obtain ⟨e', he', heq⟩ := List.mem_map.mp h
        rwa [← hb e' heq]
      · exact List.mem_map_of_mem
    rw [hea, hmem]

end EventLog
