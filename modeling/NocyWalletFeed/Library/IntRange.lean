import Mathlib.Data.Int.Range
import Mathlib.Data.List.Basic
import Mathlib.Order.Basic

/-!
# Integer ranges as lists

Facts about `Int.range a b`, the integers of `[a, b)` in ascending order.

* `range_cons`, `range_append`, `range_eq_nil` : how a range splits;
* `eq_range_of_append` : what comes before an integer of a range;
* `pairwise_range` : it is strictly ascending;
* `length_range` : its length;
* `windows` : the neighbours in a list; `forall_windows_iff` : when they are one apart.
-/

namespace IntRange

theorem range_eq_nil {a b : Int} (h : b ≤ a) : Int.range a b = [] := by
  have : (b - a).toNat = 0 := by omega
  rw [Int.range, this]
  rfl

theorem range_cons {a b : Int} (h : a < b) : Int.range a b = a :: Int.range (a + 1) b := by
  obtain ⟨n, hn⟩ : ∃ n, (b - a).toNat = n + 1 := ⟨(b - a).toNat - 1, by omega⟩
  have hn' : (b - (a + 1)).toNat = n := by omega
  rw [Int.range, Int.range, hn, hn', List.range_succ_eq_map, List.map_cons, List.map_map]
  congr 1
  · simp
  · refine List.map_congr_left fun i _ => ?_
    simp only [Function.comp_apply]
    omega

theorem range_append {a b c : Int} (h : a ≤ b) (h' : b ≤ c) : Int.range a b ++ Int.range b c = Int.range a c := by
  obtain ⟨n, rfl⟩ : ∃ n : Nat, b = a + n := ⟨(b - a).toNat, by omega⟩
  induction n generalizing a with
  | zero =>
    have hzero : a + ((0 : Nat) : Int) = a := by omega
    rw [hzero, range_eq_nil le_rfl, List.nil_append]
  | succ n ih =>
    have hstep : a + ((n + 1 : Nat) : Int) = a + 1 + n := by omega
    have hrest := ih (a := a + 1) (by omega) (by omega)
    rw [hstep, range_cons (a := a) (b := a + 1 + n) (by omega), List.cons_append, hrest,
      range_cons (a := a) (b := c) (by omega)]

theorem range_snoc {a b : Int} (h : a ≤ b) : Int.range a (b + 1) = Int.range a b ++ [b] := by
  rw [← range_append h (by omega : b ≤ b + 1), range_cons (by omega : b < b + 1), range_eq_nil le_rfl]

theorem eq_range_of_append {a b c : Int} {before after : List Int} (h : Int.range a b = before ++ c :: after) :
    before = Int.range a c := by
  have hlt : a < b := by
    refine not_le.mp fun hle => ?_
    rw [range_eq_nil hle] at h
    exact List.append_ne_nil_of_right_ne_nil _ (List.cons_ne_nil _ _) h.symm
  induction before generalizing a with
  | nil =>
    rw [range_cons hlt] at h
    obtain ⟨rfl, -⟩ := List.cons.inj h
    rw [range_eq_nil le_rfl]
  | cons d before ih =>
    rw [range_cons hlt] at h
    obtain ⟨rfl, hrest⟩ := List.cons.inj h
    have hmem : c ∈ Int.range (a + 1) b := by
      rw [hrest]
      exact List.mem_append_right before List.mem_cons_self
    obtain ⟨hle, hlt'⟩ := Int.mem_range_iff.mp hmem
    rw [range_cons (by omega : a < c), ← ih hrest (by omega)]

theorem pairwise_range (a b : Int) : (Int.range a b).Pairwise (· < ·) := by
  rw [Int.range, List.pairwise_map]
  exact List.pairwise_lt_range.imp (fun h => by omega)

@[simp] theorem length_range (a b : Int) : (Int.range a b).length = (b - a).toNat := by
  rw [Int.range, List.length_map, List.length_range]

/-! ## Neighbours -/

def windows {α : Type*} : List α → List (α × α)
  | prev :: curr :: rest => (prev, curr) :: windows (curr :: rest)
  | _ => []

theorem windows_of_length_lt {α : Type*} {l : List α} (h : l.length < 2) : windows l = [] := by
  match l, h with
  | [], _ => rfl
  | [_], _ => rfl

/-- Nothing is missing behind the first element of an ascending list, and the second one is the number behind it. -/
theorem forall_between_cons_cons_iff {a b : Int} {l : List Int} (h : (a :: b :: l).Pairwise (· < ·)) :
    (∀ x ∈ a :: b :: l, ∀ y ∈ a :: b :: l, ∀ n, x < n → n < y → n ∈ a :: b :: l) ↔
      b = a + 1 ∧ ∀ x ∈ b :: l, ∀ y ∈ b :: l, ∀ n, x < n → n < y → n ∈ b :: l := by
  obtain ⟨hfirst, hrest⟩ := List.pairwise_cons.mp h
  obtain ⟨hb, -⟩ := List.pairwise_cons.mp hrest
  have hlt := hfirst b List.mem_cons_self
  constructor
  · intro hbetween
    constructor
    · by_contra hgap
      have hmem := hbetween a List.mem_cons_self b (List.mem_cons_of_mem a List.mem_cons_self) (a + 1) (by omega)
        (by omega)
      rcases List.mem_cons.mp hmem with heq | hmem
      · omega
      · rcases List.mem_cons.mp hmem with heq | hmem
        · exact hgap heq.symm
        · have := hb _ hmem
          omega
    · intro x hx y hy n hlo hhi
      have hmem := hbetween x (List.mem_cons_of_mem a hx) y (List.mem_cons_of_mem a hy) n hlo hhi
      rcases List.mem_cons.mp hmem with rfl | hmem
      · have := hfirst x hx
        omega
      · exact hmem
  · rintro ⟨hnext, hbetween⟩ x hx y hy n hlo hhi
    have hle : a ≤ x := by
      rcases List.mem_cons.mp hx with rfl | hx
      · exact le_rfl
      · exact (hfirst x hx).le
    have hy' : y ∈ b :: l := by
      rcases List.mem_cons.mp hy with rfl | hy
      · omega
      · exact hy
    refine List.mem_cons_of_mem a ?_
    rcases (show n = b ∨ b < n by omega) with rfl | hn
    · exact List.mem_cons_self
    · exact hbetween b List.mem_cons_self y hy' n hn hhi

/-- In an ascending list the neighbours are one apart exactly when nothing between two elements is missing. -/
theorem forall_windows_iff {l : List Int} (h : l.Pairwise (· < ·)) :
    (∀ w ∈ windows l, w.2 = w.1 + 1) ↔ ∀ a ∈ l, ∀ b ∈ l, ∀ n, a < n → n < b → n ∈ l := by
  induction l with
  | nil => simp [windows]
  | cons a l ih =>
    cases l with
    | nil =>
      refine iff_of_true (fun w hw => by cases hw) fun x hx y hy n hlo hhi => ?_
      obtain rfl := List.mem_singleton.mp hx
      obtain rfl := List.mem_singleton.mp hy
      omega
    | cons b l =>
      rw [forall_between_cons_cons_iff h, ← ih (List.pairwise_cons.mp h).2]
      exact List.forall_mem_cons

end IntRange
