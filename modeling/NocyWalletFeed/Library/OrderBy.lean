import Mathlib.Data.List.Sort
import Mathlib.Data.Prod.Lex

/-!
# Stable sorting by a key

`sortBy key l` is the stable sort of `l` by ascending `key`: the `ORDER BY` of a query and the `sort_by` of a program.

* `perm_sortBy`, `pairwise_sortBy` : a permutation of `l`, ascending in `key`;
* `head?_sortBy` : it begins with an element of the least key;
* `bounds_of_pairwise` : its first and its last element bound the others;
* `rel_of_key_lt` : an element with a smaller key comes before one with a greater key;
* `filter_sortBy` : a stable sort commutes with a filter;
* `filter_append_of_pairwise`, `filter_key_append` : a part that comes first is a prefix, and a sorted list splits at a
  key;
* `sortBy_map` : a stable sort commutes with a map that keeps the order;
* `sublist_sortBy` : a stable sort of fewer elements leaves those elements in place;
* `sortBy_eq_self` : a sorted list is left alone;
* `pairwise_sortBy_of_pairwise` : elements with equal keys stay in order;
* `pairwise_lt_sortBy` : with distinct keys the result is strictly ascending;
* `sortBy_eq_of_perm` : where equal keys mean equal elements, the order before the sort does not matter;
* `eq_of_sorted_of_mem_iff` : a strictly ascending list is determined by its members;
* `filter_lt_eq_iff_nodup` : in a sorted list, what is above each element is what follows it, exactly when no key
  repeats.
-/

namespace OrderBy

variable {α β κ : Type*} [LinearOrder κ]

/-- Insert `a` before the first element whose key is not below its own. -/
def insertBy (key : α → κ) (a : α) (l : List α) : List α := l.orderedInsert (fun a b => key a ≤ key b) a

/-- The stable sort of `l` by ascending `key`. -/
def sortBy (key : α → κ) (l : List α) : List α := l.insertionSort (fun a b => key a ≤ key b)

section Order
variable (key : α → κ)

instance keyTotal : Std.Total (fun a b => key a ≤ key b) := ⟨fun a b => le_total (key a) (key b)⟩

instance keyTrans : IsTrans α (fun a b => key a ≤ key b) := ⟨fun _ _ _ h₁ h₂ => le_trans h₁ h₂⟩

@[simp] theorem insertBy_nil (a : α) : insertBy key a [] = [a] := rfl

theorem insertBy_cons_of_le {a b : α} (l : List α) (h : key a ≤ key b) :
    insertBy key a (b :: l) = a :: b :: l := if_pos h

theorem insertBy_cons_of_not_le {a b : α} (l : List α) (h : ¬ key a ≤ key b) :
    insertBy key a (b :: l) = b :: insertBy key a l := if_neg h

@[simp] theorem sortBy_nil : sortBy key [] = [] := rfl

theorem sortBy_cons (a : α) (l : List α) : sortBy key (a :: l) = insertBy key a (sortBy key l) := rfl

theorem perm_sortBy (l : List α) : (sortBy key l).Perm l := List.perm_insertionSort _ l

@[simp] theorem mem_sortBy {l : List α} {a : α} : a ∈ sortBy key l ↔ a ∈ l := (perm_sortBy key l).mem_iff

@[simp] theorem length_sortBy (l : List α) : (sortBy key l).length = l.length := (perm_sortBy key l).length_eq

@[simp] theorem sortBy_eq_nil {l : List α} : sortBy key l = [] ↔ l = [] := by
  rw [← List.length_eq_zero_iff, length_sortBy, List.length_eq_zero_iff]

theorem pairwise_sortBy (l : List α) : (sortBy key l).Pairwise (fun a b => key a ≤ key b) :=
  List.pairwise_insertionSort _ l

theorem sortBy_eq_self {l : List α} (h : l.Pairwise (fun a b => key a ≤ key b)) : sortBy key l = l :=
  h.insertionSort_eq

theorem head?_sortBy {l : List α} {a : α} (h : (sortBy key l).head? = some a) : a ∈ l ∧ ∀ b ∈ l, key a ≤ key b := by
  obtain ⟨rest, hsort⟩ := List.head?_eq_some_iff.mp h
  have hsorted := pairwise_sortBy key l
  rw [hsort] at hsorted
  refine ⟨(mem_sortBy key).mp (hsort ▸ List.mem_cons_self), fun b hb => ?_⟩
  have hb : b ∈ a :: rest := hsort ▸ (mem_sortBy key).mpr hb
  rcases List.mem_cons.mp hb with rfl | hlater
  · exact le_rfl
  · exact List.rel_of_pairwise_cons hsorted hlater

end Order

theorem bounds_of_pairwise {l : List κ} (h : l.Pairwise (· ≤ ·)) {first last x : κ} (hfirst : l.head? = some first)
    (hlast : l.getLast? = some last) (hx : x ∈ l) : first ≤ x ∧ x ≤ last := by
  constructor
  · obtain ⟨rest, rfl⟩ := List.head?_eq_some_iff.mp hfirst
    rcases List.mem_cons.mp hx with rfl | hx
    · exact le_rfl
    · exact List.rel_of_pairwise_cons h hx
  · obtain ⟨front, rfl⟩ := List.getLast?_eq_some_iff.mp hlast
    rcases List.mem_append.mp hx with hx | hx
    · exact (List.pairwise_append.mp h).2.2 x hx last (List.mem_singleton_self last)
    · exact (List.mem_singleton.mp hx).le

theorem rel_of_key_lt {key : α → κ} {r : α → α → Prop} {l : List α} (hl : l.Pairwise (fun a b => key a ≤ key b))
    (hr : l.Pairwise r) {a b : α} (ha : a ∈ l) (hb : b ∈ l) (h : key a < key b) : r a b := by
  have hself : ∀ x ∈ l, key x < key x → r x x := fun x _ hlt => absurd hlt (lt_irrefl _)
  have hback : l.Pairwise (flip fun a b => key a < key b → r a b) := hl.imp fun hle hlt => absurd hlt hle.not_gt
  have hforth : l.Pairwise (fun a b => key a < key b → r a b) := by
    refine hr.imp ?_
    intro a b hab _
    exact hab
  exact List.Pairwise.forall_of_forall_of_flip hself hforth hback ha hb h

/-! ## Filters -/

theorem insertBy_of_forall_le (key : α → κ) (a : α) {l : List α} (h : ∀ b ∈ l, key a ≤ key b) :
    insertBy key a l = a :: l := by
  cases l with
  | nil => rfl
  | cons b l => exact insertBy_cons_of_le key l (h b List.mem_cons_self)

theorem filter_insertBy (key : α → κ) (p : α → Bool) (a : α) {l : List α}
    (hl : l.Pairwise (fun a b => key a ≤ key b)) :
    (insertBy key a l).filter p = if p a then insertBy key a (l.filter p) else l.filter p := by
  induction l with
  | nil => cases h : p a <;> simp [h]
  | cons b l ih =>
    by_cases hab : key a ≤ key b
    · have hle : ∀ c ∈ (b :: l).filter p, key a ≤ key c := by
        intro c hc
        rcases List.mem_cons.mp (List.mem_of_mem_filter hc) with rfl | hc
        · exact hab
        · exact le_trans hab (List.rel_of_pairwise_cons hl hc)
      rw [insertBy_cons_of_le key l hab, List.filter_cons, insertBy_of_forall_le key a hle]
    · rw [insertBy_cons_of_not_le key l hab, List.filter_cons, List.filter_cons, ih hl.of_cons]
      by_cases hb : p b
      · rw [if_pos hb, if_pos hb, insertBy_cons_of_not_le key _ hab]
        by_cases ha : p a
        · rw [if_pos ha, if_pos ha]
        · rw [if_neg ha, if_neg ha]
      · rw [if_neg hb, if_neg hb]

/-- A stable sort commutes with a filter. -/
theorem filter_sortBy (key : α → κ) (p : α → Bool) (l : List α) :
    (sortBy key l).filter p = sortBy key (l.filter p) := by
  induction l with
  | nil => rfl
  | cons a l ih =>
    rw [sortBy_cons, filter_insertBy key p a (pairwise_sortBy key l), ih, List.filter_cons]
    by_cases ha : p a
    · rw [if_pos ha, if_pos ha, sortBy_cons]
    · rw [if_neg ha, if_neg ha]

theorem filter_append_of_pairwise {p : α → Bool} {l : List α} (h : l.Pairwise (fun a b => p b = true → p a = true)) :
    l.filter p ++ l.filter (fun a => !p a) = l := by
  induction l with
  | nil => rfl
  | cons a l ih =>
    obtain ⟨ha, hl⟩ := List.pairwise_cons.mp h
    cases hp : p a with
    | true => rw [List.filter_cons_of_pos hp, List.filter_cons_of_neg (by simp [hp]), List.cons_append, ih hl]
    | false =>
      have hnone : l.filter p = [] := by
        refine List.filter_eq_nil_iff.mpr fun b hb hpb => ?_
        rw [ha b hb hpb] at hp
        cases hp
      have hrest := ih hl
      rw [hnone, List.nil_append] at hrest
      rw [List.filter_cons_of_neg (by simp [hp]), hnone, List.nil_append, List.filter_cons_of_pos (by simp [hp]), hrest]

theorem filter_key_append {key : α → κ} {l : List α} (h : l.Pairwise (fun a b => key a ≤ key b)) (k : κ) :
    l.filter (fun a => key a < k) ++ (l.filter (fun a => key a = k) ++ l.filter (fun a => k < key a)) = l := by
  have hbelow := filter_append_of_pairwise (p := fun a => decide (key a < k)) (l := l)
    (h.imp fun hle hlt => decide_eq_true (hle.trans_lt (of_decide_eq_true hlt)))
  have hown := filter_append_of_pairwise (p := fun a => decide (key a = k)) (l := l.filter fun a => !decide (key a < k))
    ((h.filter _).imp_of_mem fun {a b} ha _ hle heq => by
      have hge : k ≤ key a := by simpa using (List.mem_filter.mp ha).2
      exact decide_eq_true (le_antisymm (hle.trans_eq (of_decide_eq_true heq)) hge))
  rw [List.filter_filter, List.filter_filter] at hown
  conv_rhs => rw [← hbelow, ← hown]
  congr 2
  · refine List.filter_congr fun a _ => ?_
    by_cases heq : key a = k
    · simp [heq]
    · simp [heq]
  · refine List.filter_congr fun a _ => ?_
    rcases lt_trichotomy (key a) k with hlt | heq | hgt
    · simp [hlt, hlt.not_gt]
    · simp [heq]
    · simp [hgt, hgt.ne', hgt.le]

/-! ## Maps -/

theorem sortBy_map {κ' : Type*} [LinearOrder κ'] (key : β → κ) (key' : α → κ') (f : α → β) (l : List α)
    (h : ∀ a ∈ l, ∀ b ∈ l, key' a ≤ key' b ↔ key (f a) ≤ key (f b)) :
    sortBy key (l.map f) = (sortBy key' l).map f :=
  (List.map_insertionSort _ _ f l h).symm

/-! ## Stability -/

theorem sublist_sortBy (key : α → κ) {l l' : List α} (h : l.Sublist l') :
    (sortBy key l).Sublist (sortBy key l') := by
  induction h with
  | slnil => exact List.Sublist.refl _
  | cons a _ ih => exact ih.trans (List.sublist_orderedInsert a _)
  | cons_cons a _ ih => exact List.Sublist.orderedInsert_sublist a ih (pairwise_sortBy key _)

/-! ## Distinct keys -/

theorem pairwise_lt_of_nodup (key : α → κ) {l : List α} (h : l.Pairwise (fun a b => key a ≤ key b))
    (hnodup : (l.map key).Nodup) : l.Pairwise (fun a b => key a < key b) :=
  (h.and (List.pairwise_map.mp hnodup)).imp fun ⟨hle, hne⟩ => lt_of_le_of_ne hle hne

theorem pairwise_lt_sortBy (key : α → κ) {l : List α} (h : (l.map key).Nodup) :
    (sortBy key l).Pairwise (fun a b => key a < key b) :=
  pairwise_lt_of_nodup key (pairwise_sortBy key l) ((((perm_sortBy key l).map key).nodup_iff).mpr h)

/-- Where equal keys mean equal elements, two arrangements of one list sort to the same list. -/
theorem sortBy_eq_of_perm (key : α → κ) {l l' : List α} (h : l.Perm l')
    (hkey : ∀ a ∈ l, ∀ b ∈ l, key a = key b → a = b) : sortBy key l = sortBy key l' := by
  have hperm : (sortBy key l).Perm (sortBy key l') := (perm_sortBy key l).trans (h.trans (perm_sortBy key l').symm)
  refine hperm.eq_of_pairwise (fun a b ha hb hab hba => ?_) (pairwise_sortBy key l) (pairwise_sortBy key l')
  exact hkey a ((mem_sortBy key).mp ha) b (h.mem_iff.mpr ((mem_sortBy key).mp hb)) (le_antisymm hab hba)

/-- A stable sort keeps the order of elements with equal keys. -/
theorem pairwise_sortBy_of_pairwise (key : α → κ) {r : α → α → Prop} {l : List α} (h : l.Pairwise r) :
    (sortBy key l).Pairwise (fun a b => key a = key b → r a b) := by
  refine List.pairwise_iff_forall_sublist.mpr fun {a b} hab heq => ?_
  have hfilter := hab.filter (fun c => decide (key c = key a))
  have hpair : [a, b].filter (fun c => decide (key c = key a)) = [a, b] := by simp [heq]
  have hsorted : (l.filter fun c => decide (key c = key a)).Pairwise (fun c d => key c ≤ key d) := by
    refine List.pairwise_of_forall_mem_list fun c hc d hd => ?_
    rw [of_decide_eq_true (List.mem_filter.mp hc).2, of_decide_eq_true (List.mem_filter.mp hd).2]
  rw [hpair, filter_sortBy, sortBy_eq_self key hsorted] at hfilter
  exact List.pairwise_iff_forall_sublist.mp h (hfilter.trans List.filter_sublist)

theorem eq_of_sorted_of_mem_iff (key : α → κ) {l₁ l₂ : List α} (h₁ : l₁.Pairwise (fun a b => key a < key b))
    (h₂ : l₂.Pairwise (fun a b => key a < key b)) (h : ∀ a, a ∈ l₁ ↔ a ∈ l₂) : l₁ = l₂ := by
  have hirr : Std.Irrefl (fun a b : α => key a < key b) := ⟨fun _ h => lt_irrefl _ h⟩
  have hasymm : Std.Asymm (fun a b : α => key a < key b) := ⟨fun _ _ h h' => lt_asymm h h'⟩
  exact h₁.eq_of_mem_iff h₂ (fun {a} => h a)

/-! ## After an element -/

theorem filter_lt_of_pairwise_lt (key : α → κ) {pre post : List α} {a : α}
    (h : (pre ++ a :: post).Pairwise (fun a b => key a < key b)) :
    (pre ++ a :: post).filter (fun b => key a < key b) = post := by
  obtain ⟨-, hpost, hcross⟩ := List.pairwise_append.mp h
  have hpre : pre.filter (fun b => key a < key b) = [] := by
    refine List.filter_eq_nil_iff.mpr fun b hb => ?_
    simpa using (hcross b hb a List.mem_cons_self).le
  rw [List.filter_append, hpre, List.nil_append, List.filter_cons_of_neg (by simp), List.filter_eq_self]
  intro b hb
  simpa using List.rel_of_pairwise_cons hpost hb

theorem pairwise_of_forall_after {r : α → α → Prop} {l : List α}
    (h : ∀ pre a post, l = pre ++ a :: post → ∀ b ∈ post, r a b) : l.Pairwise r := by
  induction l with
  | nil => exact List.Pairwise.nil
  | cons a l ih =>
    refine List.Pairwise.cons (h [] a l rfl) (ih fun pre b post heq => h (a :: pre) b post ?_)
    rw [heq, List.cons_append]

/-- **Ties.** In a list sorted by key, the elements above each element are those that follow it exactly when no key
occurs twice. -/
theorem filter_lt_eq_iff_nodup (key : α → κ) {l : List α} (h : l.Pairwise (fun a b => key a ≤ key b)) :
    (∀ pre a post, l = pre ++ a :: post → l.filter (fun b => key a < key b) = post) ↔ (l.map key).Nodup := by
  constructor
  · intro hafter
    have hlt : l.Pairwise (fun a b => key a < key b) := by
      refine pairwise_of_forall_after fun pre a post heq b hb => ?_
      rw [← hafter pre a post heq] at hb
      simpa using (List.mem_filter.mp hb).2
    exact List.pairwise_map.mpr (hlt.imp ne_of_lt)
  · intro hnodup pre a post heq
    have hlt := pairwise_lt_of_nodup key h hnodup
    subst heq
    exact filter_lt_of_pairwise_lt key hlt

end OrderBy
