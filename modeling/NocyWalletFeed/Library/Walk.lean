import Mathlib.Data.List.Basic

/-!
# Positions threaded through a list

Each entry of a list is judged at a position and moves it; `l.foldl move p` is the position after all entries.

* `Along Ok move p l` : every entry is right at its position, where an entry `s` moves the position `p` to `move p s`;
* `along_append`, `Along.exists_of_mem` : how walks compose, and what a walk says of one entry;
* `Always Inv move p l` : a property holds at every position of a walk;
* `always_iff_along` : it does exactly when every entry meets the condition under which it preserves the property.
-/

namespace Walk

variable {π σ : Type*} (Ok : π → σ → Prop) (move : π → σ → π)

/-- Every entry is right at the position the entries before it have led to. -/
def Along : π → List σ → Prop
  | _, [] => True
  | p, s :: rest => Ok p s ∧ Along (move p s) rest

instance decidableAlong [∀ p s, Decidable (Ok p s)] : ∀ (p : π) (l : List σ), Decidable (Along Ok move p l)
  | _, [] => .isTrue trivial
  | p, s :: rest =>
    have : Decidable (Along Ok move (move p s) rest) := decidableAlong (move p s) rest
    inferInstanceAs (Decidable (_ ∧ _))

variable {Ok move}

@[simp] theorem along_nil (p : π) : Along Ok move p [] := trivial

@[simp] theorem along_cons {p : π} {s : σ} {rest : List σ} :
    Along Ok move p (s :: rest) ↔ Ok p s ∧ Along Ok move (move p s) rest := Iff.rfl

theorem along_append {p : π} {l l' : List σ} :
    Along Ok move p (l ++ l') ↔ Along Ok move p l ∧ Along Ok move (l.foldl move p) l' := by
  induction l generalizing p with
  | nil => simp
  | cons s l ih => rw [List.cons_append, along_cons, along_cons, List.foldl_cons, ih, and_assoc]

theorem Along.imp {Ok' : π → σ → Prop} (himp : ∀ p s, Ok p s → Ok' p s) {p : π} {l : List σ}
    (h : Along Ok move p l) : Along Ok' move p l := by
  induction l generalizing p with
  | nil => trivial
  | cons s l ih => exact ⟨himp p s h.1, ih h.2⟩

theorem Along.congr {A B : π → σ → Prop} (hiff : ∀ p s, Ok p s → (A p s ↔ B p s)) {p : π} {l : List σ}
    (h : Along Ok move p l) : Along A move p l ↔ Along B move p l := by
  induction l generalizing p with
  | nil => exact Iff.rfl
  | cons s l ih => exact and_congr (hiff p s h.1) (ih h.2)

/-- Every entry of a walk is right at some position that satisfies an invariant of the walk. -/
theorem Along.exists_of_mem (Inv : π → Prop) (hmove : ∀ p s, Inv p → Ok p s → Inv (move p s)) {p : π} {l : List σ}
    (h : Along Ok move p l) (hp : Inv p) {s : σ} (hs : s ∈ l) : ∃ q, Inv q ∧ Ok q s := by
  induction l generalizing p with
  | nil => cases hs
  | cons s' l ih =>
    rcases List.mem_cons.mp hs with rfl | hs
    · exact ⟨p, hp, h.1⟩
    · exact ih h.2 (hmove p s' hp h.1) hs

/-! ## Properties of every position -/

/-- A property of the first position and of the position after each entry. -/
def Always (Inv : π → Prop) (move : π → σ → π) : π → List σ → Prop
  | p, [] => Inv p
  | p, s :: rest => Inv p ∧ Always Inv move (move p s) rest

theorem Always.head {Inv : π → Prop} {p : π} {l : List σ} (h : Always Inv move p l) : Inv p := by
  cases l with
  | nil => exact h
  | cons s l => exact h.1

theorem always_append {Inv : π → Prop} {p : π} {l l' : List σ} :
    Always Inv move p (l ++ l') ↔ Always Inv move p l ∧ Always Inv move (l.foldl move p) l' := by
  induction l generalizing p with
  | nil => exact ⟨fun h => ⟨h.head, h⟩, And.right⟩
  | cons s l ih => rw [List.cons_append, Always, Always, ih, List.foldl_cons, and_assoc]

theorem Always.last {Inv : π → Prop} {p : π} {l : List σ} (h : Always Inv move p l) : Inv (l.foldl move p) := by
  rw [← List.append_nil l, always_append] at h
  exact h.2

/-- **Exact conditions.** Where `Side` holds and an entry preserves `Inv` exactly when it is `Ok`, a walk keeps `Inv`
throughout exactly when all its entries are `Ok`. -/
theorem always_iff_along {Valid : π → σ → Prop} {Side Inv : π → Prop}
    (hside : ∀ p s, Side p → Valid p s → Inv p → Inv (move p s) → Side (move p s))
    (hstep : ∀ p s, Side p → Valid p s → Inv p → (Inv (move p s) ↔ Ok p s)) {p : π} {l : List σ} (hp : Side p)
    (hinv : Inv p) (hvalid : Along Valid move p l) : Always Inv move p l ↔ Along Ok move p l := by
  induction l generalizing p with
  | nil => exact ⟨fun _ => trivial, fun _ => hinv⟩
  | cons s l ih =>
    have hiff := hstep p s hp hvalid.1 hinv
    constructor
    · rintro ⟨-, hrest⟩
      have hinv' := hrest.head
      exact ⟨hiff.mp hinv', (ih (hside p s hp hvalid.1 hinv hinv') hinv' hvalid.2).mp hrest⟩
    · rintro ⟨hok, hrest⟩
      have hinv' := hiff.mpr hok
      exact ⟨hinv, (ih (hside p s hp hvalid.1 hinv hinv') hinv' hvalid.2).mpr hrest⟩

end Walk
