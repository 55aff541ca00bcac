import Mathlib.Data.List.Basic

/-!
# Clients that follow a continuation

A client asks for a page, finds in the response where the next page starts, and asks again until a response names no
next page. `fetch k position` is its request number `k`.

* `Pages fetch next k position visited` : the complete sequence of pages from request `k` on, with their positions;
* `Pages.unique` : there is at most one;
* `Run fetch next n position response` : the first `n` pages of a client that may go on;
* `exists_pages` : there is one when every page moves a measure down;
* `follow`, `pages_of_follow` : the client as a program with a bound on the number of pages.
-/

namespace Pager

variable {κ ρ ε : Type*} (fetch : Nat → κ → Except ε ρ) (next : ρ → Option κ)

/-- The pages a client visits from a position, up to the first that names no next one. -/
inductive Pages : Nat → κ → List (κ × ρ) → Prop where
  | last {k : Nat} {position : κ} {response : ρ} (h : fetch k position = .ok response)
      (hnext : next response = none) : Pages k position [(position, response)]
  | more {k : Nat} {position position' : κ} {response : ρ} {visited : List (κ × ρ)}
      (h : fetch k position = .ok response) (hnext : next response = some position')
      (rest : Pages (k + 1) position' visited) : Pages k position ((position, response) :: visited)

/-- The first `n` pages of a client, which may never see the last one. -/
structure Run (n : Nat) (position : Nat → κ) (response : Nat → ρ) : Prop where
  ok : ∀ k < n, fetch k (position k) = .ok (response k)
  continued : ∀ k, k + 1 < n → next (response k) = some (position (k + 1))

variable {fetch next}

def responses (visited : List (κ × ρ)) : List ρ := visited.map Prod.snd

/-- A client has one sequence of pages at most. -/
theorem Pages.unique {k : Nat} {position : κ} {visited visited' : List (κ × ρ)}
    (h : Pages fetch next k position visited) (h' : Pages fetch next k position visited') : visited = visited' := by
  induction h generalizing visited' with
  | last hfetch hnext =>
    cases h' with
    | last hfetch' _ => rw [Except.ok.inj (hfetch.symm.trans hfetch')]
    | more hfetch' hnext' _ =>
      rw [← Except.ok.inj (hfetch.symm.trans hfetch'), hnext] at hnext'
      cases hnext'
  | more hfetch hnext _ ih =>
    cases h' with
    | last hfetch' hnext' =>
      rw [← Except.ok.inj (hfetch.symm.trans hfetch'), hnext] at hnext'
      cases hnext'
    | more hfetch' hnext' rest' =>
      obtain rfl := Except.ok.inj (hfetch.symm.trans hfetch')
      obtain rfl := Option.some.inj (hnext.symm.trans hnext')
      rw [ih rest']

/-- **Termination.** Pages that keep an invariant and move a measure down come to an end. -/
theorem exists_pages (Inv : κ → Prop) (measure : κ → Nat) (hfetch : ∀ k position, Inv position →
      ∃ response, fetch k position = .ok response ∧
        ∀ position', next response = some position' → Inv position' ∧ measure position' < measure position)
    {k : Nat} {position : κ} (h : Inv position) : ∃ visited, Pages fetch next k position visited := by
  obtain ⟨n, hn⟩ : ∃ n, measure position ≤ n := ⟨_, Nat.le_refl _⟩
  induction n generalizing k position with
  | zero =>
    obtain ⟨response, hok, hstep⟩ := hfetch k position h
    cases hnext : next response with
    | none => exact ⟨_, .last hok hnext⟩
    | some position' =>
      have := (hstep position' hnext).2
      omega
  | succ n ih =>
    obtain ⟨response, hok, hstep⟩ := hfetch k position h
    cases hnext : next response with
    | none => exact ⟨_, .last hok hnext⟩
    | some position' =>
      obtain ⟨hinv, hlt⟩ := hstep position' hnext
      obtain ⟨visited, hvisited⟩ := ih (k := k + 1) hinv (by omega)
      exact ⟨_, .more hok hnext hvisited⟩

/-- The client as a program: `none` when it has not come to an end after `fuel` pages, or met an error. -/
def follow (fetch : Nat → κ → Except ε ρ) (next : ρ → Option κ) : Nat → Nat → κ → Option (List (κ × ρ))
  | 0, _, _ => none
  | fuel + 1, k, position =>
    match fetch k position with
    | .error _ => none
    | .ok response =>
      match next response with
      | none => some [(position, response)]
      | some position' =>
        (follow fetch next fuel (k + 1) position').map (fun visited => (position, response) :: visited)

theorem pages_of_follow {fuel k : Nat} {position : κ} {visited : List (κ × ρ)}
    (h : follow fetch next fuel k position = some visited) : Pages fetch next k position visited := by
  induction fuel generalizing k position visited with
  | zero => cases h
  | succ fuel ih =>
    unfold follow at h
    cases hfetch : fetch k position with
    | error e => rw [hfetch] at h; cases h
    | ok response =>
      rw [hfetch] at h
      cases hnext : next response with
      | none =>
        simp only [hnext] at h
        obtain rfl := Option.some.inj h
        exact .last hfetch hnext
      | some position' =>
        simp only [hnext] at h
        obtain ⟨rest, hrest, rfl⟩ := Option.map_eq_some_iff.mp h
        exact .more hfetch hnext (ih hrest)

theorem exists_pages_of_follow {β : Type*} (fuel : Nat) {k : Nat} {position : κ} {f : List (κ × ρ) → β} {b : β}
    (h : (follow fetch next fuel k position).map f = some b) :
    ∃ visited, Pages fetch next k position visited ∧ f visited = b := by
  obtain ⟨visited, hvisited, hf⟩ := Option.map_eq_some_iff.mp h
  exact ⟨visited, pages_of_follow hvisited, hf⟩

end Pager
