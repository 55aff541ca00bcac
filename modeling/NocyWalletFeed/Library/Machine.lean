import Mathlib.Data.List.Basic

/-!
# Runs of a step function

A step reads an input in a state, yields outputs, and either continues in a new state or halts.

* `visits step s inputs` : the steps a run takes, with the state before each one;
* `invariant_before` : an invariant of history and state holds before every step of a run;
* `visits_rule` : a property of the whole history, from an invariant and the halting steps;
* `eq_nil_of_halt` : no step follows a halting one;
* `Continues` : a run that has read all its inputs and goes on.
-/

namespace Machine

inductive Flow (σ ε : Type*) where
  | next (state : σ)
  | halt (reason : ε)

def Flow.nextState {σ ε : Type*} : Flow σ ε → Option σ
  | .next state => some state
  | .halt _ => none

theorem Flow.eq_next_of_nextState {σ ε : Type*} {flow : Flow σ ε} {s : σ} (h : flow.nextState = some s) :
    flow = .next s := by
  cases flow with
  | next state => exact congrArg Flow.next (Option.some.inj h)
  | halt reason => cases h

structure Visit (σ ι ω : Type*) where
  before : σ
  input : ι
  output : List ω

variable {σ ι ω ε : Type*} (step : σ → ι → List ω × Flow σ ε)

/-- The step taken in a state on an input. -/
def visit (s : σ) (i : ι) : Visit σ ι ω := ⟨s, i, (step s i).1⟩

/-- The steps of a run over the given inputs, up to the first that halts. -/
def visits : σ → List ι → List (Visit σ ι ω)
  | _, [] => []
  | s, i :: inputs =>
    visit step s i ::
      match (step s i).2 with
      | .next s' => visits s' inputs
      | .halt _ => []

def outputs (vs : List (Visit σ ι ω)) : List ω := vs.flatMap (·.output)

variable {step}

@[simp] theorem visit_before (s : σ) (i : ι) : (visit step s i).before = s := rfl
@[simp] theorem visit_input (s : σ) (i : ι) : (visit step s i).input = i := rfl
@[simp] theorem visit_output (s : σ) (i : ι) : (visit step s i).output = (step s i).1 := rfl

@[simp] theorem visits_nil (s : σ) : visits step s [] = [] := rfl

theorem visits_cons_next {s s' : σ} {i : ι} (inputs : List ι) (h : (step s i).2 = .next s') :
    visits step s (i :: inputs) = visit step s i :: visits step s' inputs := by
  rw [visits, h]

theorem visits_cons_halt {s : σ} {i : ι} {e : ε} (inputs : List ι) (h : (step s i).2 = .halt e) :
    visits step s (i :: inputs) = [visit step s i] := by
  rw [visits, h]

theorem visits_pair {s s' : σ} {i j : ι} (h : (step s i).2.nextState = some s') :
    visits step s [i, j] = [visit step s i, visit step s' j] := by
  rw [visits_cons_next [j] (Flow.eq_next_of_nextState h)]
  cases hf : (step s' j).2 with
  | next s'' => rw [visits_cons_next [] hf, visits_nil]
  | halt e => rw [visits_cons_halt [] hf]

@[simp] theorem outputs_nil : outputs ([] : List (Visit σ ι ω)) = [] := rfl

@[simp] theorem outputs_cons (v : Visit σ ι ω) (vs : List (Visit σ ι ω)) :
    outputs (v :: vs) = v.output ++ outputs vs := rfl

theorem outputs_append (vs ws : List (Visit σ ι ω)) : outputs (vs ++ ws) = outputs vs ++ outputs ws :=
  List.flatMap_append

theorem eq_visit_of_mem {s : σ} {inputs : List ι} {v : Visit σ ι ω} (h : v ∈ visits step s inputs) :
    v = visit step v.before v.input := by
  induction inputs generalizing s with
  | nil => cases h
  | cons i inputs ih =>
    cases hf : (step s i).2 with
    | next s' =>
      rw [visits_cons_next inputs hf] at h
      rcases List.mem_cons.mp h with rfl | h
      · rfl
      · exact ih h
    | halt e =>
      rw [visits_cons_halt inputs hf, List.mem_singleton] at h
      rw [h]
      rfl

theorem eq_nil_of_halt {s : σ} {inputs : List ι} {pre post : List (Visit σ ι ω)} {v : Visit σ ι ω} {e : ε}
    (h : visits step s inputs = pre ++ v :: post) (hv : (step v.before v.input).2 = .halt e) : post = [] := by
  induction inputs generalizing s pre with
  | nil => cases pre <;> cases h
  | cons i inputs ih =>
    cases hf : (step s i).2 with
    | next s' =>
      rw [visits_cons_next inputs hf] at h
      cases pre with
      | nil =>
        obtain ⟨rfl, -⟩ := List.cons.inj h
        rw [visit_before, visit_input, hf] at hv
        cases hv
      | cons w pre => exact ih (List.cons.inj h).2
    | halt e' =>
      rw [visits_cons_halt inputs hf] at h
      cases pre with
      | nil => exact (List.cons.inj h).2.symm
      | cons w pre => exact absurd (List.cons.inj h).2.symm (by simp)

section Invariants
variable (Inv : List (Visit σ ι ω) → σ → Prop) (Q : List (Visit σ ι ω) → Prop) {inputs : List ι}
  (hstep : ∀ hist s, ∀ i ∈ inputs, ∀ s', Inv hist s → (step s i).2 = .next s' → Inv (hist ++ [visit step s i]) s')
include hstep

theorem invariant_before_append {hist : List (Visit σ ι ω)} {s : σ} (hinv : Inv hist s)
    {pre post : List (Visit σ ι ω)} {v : Visit σ ι ω} (h : visits step s inputs = pre ++ v :: post) :
    Inv (hist ++ pre) v.before := by
  induction inputs generalizing hist s pre with
  | nil => cases pre <;> cases h
  | cons i inputs ih =>
    cases pre with
    | nil =>
      obtain ⟨rfl, -⟩ : visit step s i = v ∧ _ := List.cons.inj h
      simpa using hinv
    | cons w pre =>
      cases hf : (step s i).2 with
      | next s' =>
        rw [visits_cons_next inputs hf] at h
        obtain ⟨rfl, htail⟩ := List.cons.inj h
        have hinv' := hstep hist s i List.mem_cons_self s' hinv hf
        have := ih (fun hist s j hj => hstep hist s j (List.mem_cons_of_mem _ hj)) hinv' htail
        rwa [List.append_assoc] at this
      | halt e =>
        rw [visits_cons_halt inputs hf] at h
        exact absurd (List.cons.inj h).2.symm (by simp)

/-- **Invariants.** What every continuing step preserves holds before every step of a run. -/
theorem invariant_before {s : σ} (hinv : Inv [] s) {pre post : List (Visit σ ι ω)} {v : Visit σ ι ω}
    (h : visits step s inputs = pre ++ v :: post) : Inv pre v.before := by
  have := invariant_before_append Inv hstep hinv h
  rwa [List.nil_append] at this

theorem visits_rule_append (hinv : ∀ hist s, Inv hist s → Q hist)
    (hhalt : ∀ hist s, ∀ i ∈ inputs, ∀ e, Inv hist s → (step s i).2 = .halt e → Q (hist ++ [visit step s i]))
    {hist : List (Visit σ ι ω)} {s : σ} (h : Inv hist s) : Q (hist ++ visits step s inputs) := by
  induction inputs generalizing hist s with
  | nil => simpa using hinv hist s h
  | cons i inputs ih =>
    cases hf : (step s i).2 with
    | next s' =>
      have := ih (fun hist s j hj => hstep hist s j (List.mem_cons_of_mem _ hj))
        (fun hist s j hj => hhalt hist s j (List.mem_cons_of_mem _ hj))
        (hstep hist s i List.mem_cons_self s' h hf)
      rwa [visits_cons_next inputs hf, List.append_cons]
    | halt e =>
      rw [visits_cons_halt inputs hf]
      exact hhalt hist s i List.mem_cons_self e h hf

/-- **Histories.** A property of the history that follows from the invariant, and that a halting step keeps, holds of
a whole run. -/
theorem visits_rule (hinv : ∀ hist s, Inv hist s → Q hist)
    (hhalt : ∀ hist s, ∀ i ∈ inputs, ∀ e, Inv hist s → (step s i).2 = .halt e → Q (hist ++ [visit step s i])) {s : σ}
    (h : Inv [] s) : Q (visits step s inputs) := by
  have := visits_rule_append Inv Q hstep hinv hhalt h
  rwa [List.nil_append] at this

end Invariants

/-! ## Runs that go on -/

variable (step) in
/-- The inputs are read to the last, and the run then goes on in a state. -/
inductive Continues (s : σ) : List ι → σ → Prop where
  | start : Continues s [] s
  | next {inputs : List ι} {s' s'' : σ} {i : ι} (h : Continues s inputs s') (hstep : (step s' i).2 = .next s'') :
    Continues s (inputs ++ [i]) s''

/-- A run that goes on is the beginning of every longer one. -/
theorem Continues.visits_append {s s' : σ} {inputs : List ι} (h : Continues step s inputs s') (more : List ι) :
    visits step s (inputs ++ more) = visits step s inputs ++ visits step s' more := by
  induction h generalizing more with
  | start => rfl
  | @next inputs s' s'' i h hstep ih =>
    rw [List.append_assoc, List.singleton_append, ih, ih, visits_cons_next more hstep, visits_cons_next [] hstep,
      visits_nil, List.append_assoc, List.singleton_append]

theorem visits_singleton (s : σ) (i : ι) : visits step s [i] = [visit step s i] := by
  cases hf : (step s i).2 with
  | next s' => rw [visits_cons_next [] hf, visits_nil]
  | halt e => rw [visits_cons_halt [] hf]

theorem Continues.outputs_snoc {s s' : σ} {inputs : List ι} (h : Continues step s inputs s') (i : ι) :
    outputs (visits step s (inputs ++ [i])) = outputs (visits step s inputs) ++ (step s' i).1 := by
  rw [h.visits_append, outputs_append, visits_singleton, outputs_cons, outputs_nil, List.append_nil, visit_output]

end Machine
