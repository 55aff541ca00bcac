import Mathlib.Data.List.Basic

/-!
# Registers written by the steps of a run

Some steps of a run write a value to a register, and others leave it alone.

* `writes step write s inputs` : the values written, the oldest first;
* `WritesAt` : a step of the run writes a value, after some inputs and before others;
* `Silent` : no step of a run writes;
* `getLast?_writes` : the last value written, by the step that wrote it.
-/

namespace Register

variable {σ ι ω : Type*} (step : σ → ι → σ) (write : σ → ι → Option ω)

/-- The values written in a run, the oldest first. -/
def writes : σ → List ι → List ω
  | _, [] => []
  | s, i :: inputs => (write s i).toList ++ writes (step s i) inputs

/-- Of a run over `inputs`, the step on `i`, after `pre` and before `post`, writes `w`. -/
structure WritesAt (s : σ) (inputs pre : List ι) (i : ι) (post : List ι) (w : ω) : Prop where
  split : inputs = pre ++ i :: post
  write : write (pre.foldl step s) i = some w

def Silent (s : σ) (inputs : List ι) : Prop := writes step write s inputs = []

variable {step write}

@[simp] theorem writes_nil (s : σ) : writes step write s [] = [] := rfl

theorem writes_cons (s : σ) (i : ι) (inputs : List ι) :
    writes step write s (i :: inputs) = (write s i).toList ++ writes step write (step s i) inputs := rfl

theorem writes_append (s : σ) (inputs more : List ι) :
    writes step write s (inputs ++ more) =
      writes step write s inputs ++ writes step write (inputs.foldl step s) more := by
  induction inputs generalizing s with
  | nil => rfl
  | cons i inputs ih => rw [List.cons_append, writes_cons, writes_cons, ih, List.foldl_cons, List.append_assoc]

theorem writes_concat (s : σ) (inputs : List ι) (i : ι) :
    writes step write s (inputs ++ [i]) = writes step write s inputs ++ (write (inputs.foldl step s) i).toList := by
  rw [writes_append, writes_cons, writes_nil, List.append_nil]

/-- A value written splits the run, and with it the values, at the step that writes it. -/
theorem exists_writesAt {s : σ} {inputs : List ι} {front back : List ω} {w : ω}
    (h : writes step write s inputs = front ++ w :: back) :
    ∃ pre i post, WritesAt step write s inputs pre i post w ∧ writes step write s pre = front ∧
      writes step write ((pre ++ [i]).foldl step s) post = back := by
  induction inputs generalizing s front with
  | nil =>
    rw [writes_nil] at h
    exact absurd h.symm (by simp)
  | cons i inputs ih =>
    rw [writes_cons] at h
    have hlater : ∀ front', writes step write (step s i) inputs = front' ++ w :: back →
        (write s i).toList ++ front' = front → ∃ pre j post, WritesAt step write s (i :: inputs) pre j post w ∧
          writes step write s pre = front ∧ writes step write ((pre ++ [j]).foldl step s) post = back := by
      intro front' htail hfront
      obtain ⟨pre, j, post, hat, hpre, hpost⟩ := ih htail
      refine ⟨i :: pre, j, post, ⟨?_, hat.write⟩, ?_, hpost⟩
      · rw [hat.split, List.cons_append]
      · rw [writes_cons, hpre, hfront]
    cases hw : write s i with
    | none =>
      rw [hw] at h hlater
      exact hlater front h rfl
    | some v =>
      rw [hw] at h hlater
      cases front with
      | nil =>
        obtain ⟨rfl, hback⟩ := List.cons.inj h
        exact ⟨[], i, inputs, ⟨rfl, hw⟩, rfl, hback⟩
      | cons v' front =>
        obtain ⟨rfl, htail⟩ := List.cons.inj h
        exact hlater front htail rfl

theorem WritesAt.writes_eq {s : σ} {inputs pre post : List ι} {i : ι} {w : ω}
    (h : WritesAt step write s inputs pre i post w) : writes step write s inputs =
      writes step write s pre ++ w :: writes step write ((pre ++ [i]).foldl step s) post := by
  rw [h.split, writes_append, writes_cons, h.write, List.foldl_concat]
  rfl

/-- **The last write.** The last value written is that of a step after which none writes. -/
theorem getLast?_writes {s : σ} {inputs : List ι} {w : ω} :
    (writes step write s inputs).getLast? = some w ↔
      ∃ pre i post, WritesAt step write s inputs pre i post w ∧
        Silent step write ((pre ++ [i]).foldl step s) post := by
  constructor
  · intro h
    obtain ⟨front, hfront⟩ := List.getLast?_eq_some_iff.mp h
    obtain ⟨pre, i, post, hat, -, hpost⟩ := exists_writesAt hfront
    exact ⟨pre, i, post, hat, hpost⟩
  · rintro ⟨pre, i, post, hat, hsilent⟩
    rw [hat.writes_eq, hsilent, List.getLast?_append, List.getLast?_singleton, Option.some_or]

end Register
