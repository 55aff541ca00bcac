import Mathlib.Data.List.Flatten
import Mathlib.Data.List.Nodup

/-!
# Tables, joins and groups

Rows are list elements and a table is the list of its rows.

* `join on l r`, `leftJoin on l r` : the inner and the left outer join;
* `filter_join_fst`, `filter_join_snd`, `filter_leftJoin_fst` : selections move into a join;
* `join_append`, `leftJoin_congr` : rows that match nothing change nothing;
* `join_sublist`, `leftJoin_sublist`, `join_perm`, `leftJoin_perm` : the order of the left rows carries over;
* `map_fst_join_sublist` : joining to a unique key keeps every left row at most once;
* `eq_of_key_eq`, `filter_key`, `filter_eq_of_perm` : a unique key determines its row, and a selection by it has no
  order;
* `join_singleton` : a join to one row;
* `groupBy key rows` : the values of each key in row order, as a loop over a hash map collects them (`groupBy_eq`).
-/

namespace Relational

variable {α β κ ν : Type*}

/-! ## Joins -/

/-- `l JOIN r ON on`. -/
def join (on : α → β → Bool) (l : List α) (r : List β) : List (α × β) :=
  l.flatMap (fun a => (r.filter (on a)).map (fun b => (a, b)))

/-- The right-hand sides of one row in a left join: its matches, or one `NULL`. -/
def leftMatches (on : α → β → Bool) (r : List β) (a : α) : List (Option β) :=
  match r.filter (on a) with
  | [] => [none]
  | b :: bs => (b :: bs).map some

/-- `l LEFT JOIN r ON on`. -/
def leftJoin (on : α → β → Bool) (l : List α) (r : List β) : List (α × Option β) :=
  l.flatMap (fun a => (leftMatches on r a).map (fun b => (a, b)))

theorem mem_join {on : α → β → Bool} {l : List α} {r : List β} {a : α} {b : β} :
    (a, b) ∈ join on l r ↔ a ∈ l ∧ b ∈ r ∧ on a b = true := by
  simp [join, List.mem_flatMap]

theorem mem_leftJoin_fst {on : α → β → Bool} {l : List α} {r : List β} {p : α × Option β}
    (h : p ∈ leftJoin on l r) : p.1 ∈ l := by
  obtain ⟨a, ha, hp⟩ := List.mem_flatMap.mp h
  obtain ⟨b, -, rfl⟩ := List.mem_map.mp hp
  exact ha

theorem mem_leftJoin {on : α → β → Bool} {l : List α} {r : List β} {a : α} {o : Option β}
    (h : (a, o) ∈ leftJoin on l r) : (∃ b ∈ r, on a b = true ∧ o = some b) ∨ (o = none ∧ ∀ b ∈ r, on a b = false) := by
  obtain ⟨a', -, hp⟩ := List.mem_flatMap.mp h
  obtain ⟨o', ho', heq⟩ := List.mem_map.mp hp
  obtain ⟨rfl, rfl⟩ := Prod.mk.inj heq
  unfold leftMatches at ho'
  cases hfilter : r.filter (on a') with
  | nil =>
    rw [hfilter] at ho'
    exact Or.inr ⟨List.mem_singleton.mp ho', fun b hb => by simpa using List.filter_eq_nil_iff.mp hfilter b hb⟩
  | cons b bs =>
    rw [hfilter] at ho'
    obtain ⟨b', hb', rfl⟩ := List.mem_map.mp ho'
    rw [← hfilter] at hb'
    exact Or.inl ⟨b', (List.mem_filter.mp hb').1, (List.mem_filter.mp hb').2, rfl⟩

theorem leftMatches_ne_nil (on : α → β → Bool) (r : List β) (a : α) : leftMatches on r a ≠ [] := by
  unfold leftMatches
  split <;> simp

/-- A left join drops no row of its left side. -/
theorem exists_mem_leftJoin (on : α → β → Bool) {l : List α} (r : List β) {a : α} (h : a ∈ l) :
    ∃ b, (a, b) ∈ leftJoin on l r := by
  obtain ⟨b, hb⟩ := List.exists_mem_of_ne_nil _ (leftMatches_ne_nil on r a)
  exact ⟨b, List.mem_flatMap.mpr ⟨a, h, List.mem_map.mpr ⟨b, hb, rfl⟩⟩⟩

theorem filter_map_eq_nil {p : β → Bool} {f : α → β} (h : ∀ a, p (f a) = false) (l : List α) :
    (l.map f).filter p = [] := by
  refine List.filter_eq_nil_iff.mpr fun b hb => ?_
  obtain ⟨a, -, rfl⟩ := List.mem_map.mp hb
  simp [h a]

theorem filter_map_eq_self {p : β → Bool} {f : α → β} (h : ∀ a, p (f a) = true) (l : List α) :
    (l.map f).filter p = l.map f := by
  refine List.filter_eq_self.mpr fun b hb => ?_
  obtain ⟨a, -, rfl⟩ := List.mem_map.mp hb
  exact h a

theorem filterMap_map_eq_nil {γ : Type*} {f : α → β} {g : β → Option γ} (h : ∀ a, g (f a) = none) (l : List α) :
    (l.map f).filterMap g = [] := by
  refine List.filterMap_eq_nil_iff.mpr fun b hb => ?_
  obtain ⟨a, -, rfl⟩ := List.mem_map.mp hb
  exact h a

theorem filterMap_map_eq_map {γ : Type*} {f : α → β} {g : β → Option γ} {k : α → γ} (h : ∀ a, g (f a) = some (k a))
    (l : List α) : (l.map f).filterMap g = l.map k := by
  rw [List.filterMap_map, ← List.filterMap_eq_map]
  exact List.filterMap_congr fun a _ => h a

theorem filter_flatMap {γ : Type*} (p : γ → Bool) (f : α → List γ) (l : List α) :
    (l.flatMap f).filter p = l.flatMap (fun a => (f a).filter p) := by
  induction l with
  | nil => rfl
  | cons a l ih => rw [List.flatMap_cons, List.filter_append, ih, List.flatMap_cons]

theorem filter_join_snd (on : α → β → Bool) (p : β → Bool) (l : List α) (r : List β) :
    (join on l r).filter (fun ab => p ab.2) = join on l (r.filter p) := by
  unfold join
  rw [filter_flatMap]
  refine List.flatMap_congr fun a _ => ?_
  rw [List.filter_map, List.filter_filter, List.filter_filter]
  exact congrArg _ (List.filter_congr fun b _ => Bool.and_comm _ _)

theorem filter_flatMap_fst {γ : Type*} (p : α → Bool) (f : α → List γ) (l : List α) :
    (l.flatMap (fun a => (f a).map (fun c => (a, c)))).filter (fun ac => p ac.1) =
      (l.filter p).flatMap (fun a => (f a).map (fun c => (a, c))) := by
  induction l with
  | nil => rfl
  | cons a l ih =>
    rw [List.flatMap_cons, List.filter_append, ih, List.filter_map]
    cases ha : p a with
    | false =>
      rw [List.filter_cons_of_neg (by simp [ha])]
      simp [Function.comp_def, ha]
    | true =>
      rw [List.filter_cons_of_pos ha, List.flatMap_cons]
      simp [Function.comp_def, ha]

theorem filter_join_fst (on : α → β → Bool) (p : α → Bool) (l : List α) (r : List β) :
    (join on l r).filter (fun ab => p ab.1) = join on (l.filter p) r :=
  filter_flatMap_fst p (fun a => r.filter (on a)) l

theorem filter_leftJoin_fst (on : α → β → Bool) (p : α → Bool) (l : List α) (r : List β) :
    (leftJoin on l r).filter (fun ab => p ab.1) = leftJoin on (l.filter p) r :=
  filter_flatMap_fst p (leftMatches on r) l

/-! ## Rows that match nothing -/

theorem join_append_left (on : α → β → Bool) (l l' : List α) (r : List β) :
    join on (l ++ l') r = join on l r ++ join on l' r := List.flatMap_append

theorem join_eq_nil {on : α → β → Bool} {l : List α} {r : List β}
    (h : ∀ a ∈ l, ∀ b ∈ r, on a b = false) : join on l r = [] := by
  refine List.eq_nil_iff_forall_not_mem.mpr fun ab hab => ?_
  obtain ⟨ha, hb, hon⟩ := mem_join.mp hab
  rw [h _ ha _ hb] at hon
  exact Bool.false_ne_true hon

theorem join_append {on : α → β → Bool} (l : List α) {l' : List α} {r : List β}
    (h : ∀ a ∈ l', ∀ b ∈ r, on a b = false) : join on (l ++ l') r = join on l r := by
  rw [join_append_left, join_eq_nil h, List.append_nil]

theorem join_congr {on : α → β → Bool} {l : List α} {r r' : List β}
    (h : ∀ a ∈ l, r.filter (on a) = r'.filter (on a)) : join on l r = join on l r' :=
  List.flatMap_congr fun a ha => by rw [h a ha]

theorem leftJoin_congr {on : α → β → Bool} {l : List α} {r r' : List β}
    (h : ∀ a ∈ l, r.filter (on a) = r'.filter (on a)) : leftJoin on l r = leftJoin on l r' :=
  List.flatMap_congr fun a ha => by simp only [leftMatches, h a ha]

theorem filter_append_of_forall {p : α → Bool} (l : List α) {l' : List α} (h : ∀ a ∈ l', p a = false) :
    (l ++ l').filter p = l.filter p := by
  have hnil : l'.filter p = [] := List.filter_eq_nil_iff.mpr (fun a ha => by simp [h a ha])
  rw [List.filter_append, hnil, List.append_nil]

theorem join_append_right {on : α → β → Bool} {l : List α} (r : List β) {r' : List β}
    (h : ∀ a ∈ l, ∀ b ∈ r', on a b = false) : join on l (r ++ r') = join on l r :=
  join_congr fun a ha => filter_append_of_forall r (h a ha)

theorem leftJoin_append_right {on : α → β → Bool} {l : List α} (r : List β) {r' : List β}
    (h : ∀ a ∈ l, ∀ b ∈ r', on a b = false) : leftJoin on l (r ++ r') = leftJoin on l r :=
  leftJoin_congr fun a ha => filter_append_of_forall r (h a ha)

theorem join_map_left {γ : Type*} (g : γ → α) (on : α → β → Bool) (l : List γ) (r : List β) :
    join on (l.map g) r = (join (fun c => on (g c)) l r).map (Prod.map g id) := by
  simp [join, List.flatMap_map, List.map_flatMap, Function.comp_def]

theorem leftJoin_map_left {γ : Type*} (g : γ → α) (on : α → β → Bool) (l : List γ) (r : List β) :
    leftJoin on (l.map g) r = (leftJoin (fun c => on (g c)) l r).map (Prod.map g id) := by
  have hmatches : ∀ c, leftMatches on r (g c) = leftMatches (fun c => on (g c)) r c := fun _ => rfl
  simp [leftJoin, hmatches, List.flatMap_map, List.map_flatMap, Function.comp_def]

theorem leftJoin_map_right {γ : Type*} (g : γ → β) (on : α → β → Bool) (l : List α) (r : List γ) :
    leftJoin on l (r.map g) = (leftJoin (fun a c => on a (g c)) l r).map (Prod.map id (Option.map g)) := by
  have hmatches : ∀ a, leftMatches on (r.map g) a = (leftMatches (fun a c => on a (g c)) r a).map (Option.map g) := by
    intro a
    unfold leftMatches
    rw [List.filter_map]
    show (match (r.filter (fun c => on a (g c))).map g with | [] => _ | b :: bs => _) = _
    cases r.filter (fun c => on a (g c)) with
    | nil => rfl
    | cons c cs => simp
  simp [leftJoin, hmatches, List.map_flatMap, Function.comp_def]

theorem join_congr_on {on on' : α → β → Bool} {l : List α} {r : List β}
    (h : ∀ a ∈ l, ∀ b ∈ r, on a b = on' a b) : join on l r = join on' l r :=
  List.flatMap_congr fun a ha => by rw [List.filter_congr (h a ha)]

/-! ## The order of rows -/

theorem join_sublist (on : α → β → Bool) {l l' : List α} (r : List β) (h : l.Sublist l') :
    (join on l r).Sublist (join on l' r) := h.flatMap _

theorem leftJoin_sublist (on : α → β → Bool) {l l' : List α} (r : List β) (h : l.Sublist l') :
    (leftJoin on l r).Sublist (leftJoin on l' r) := h.flatMap _

theorem join_perm (on : α → β → Bool) {l l' : List α} (r : List β) (h : l.Perm l') :
    (join on l r).Perm (join on l' r) := h.flatMap_right _

theorem leftJoin_perm (on : α → β → Bool) {l l' : List α} (r : List β) (h : l.Perm l') :
    (leftJoin on l r).Perm (leftJoin on l' r) := h.flatMap_right _

/-! ## Unique keys -/

/-- Two rows of a table with the same unique key are one row. -/
theorem eq_of_key_eq {key : α → κ} {rows : List α} (h : (rows.map key).Nodup) {a b : α} (ha : a ∈ rows)
    (hb : b ∈ rows) (hab : key a = key b) : a = b := List.inj_on_of_nodup_map h ha hb hab

theorem nodup_key_append {key : α → κ} {rows rows' : List α} (h : (rows.map key).Nodup) (h' : (rows'.map key).Nodup)
    (hne : ∀ a ∈ rows, ∀ b ∈ rows', key a ≠ key b) : ((rows ++ rows').map key).Nodup := by
  rw [List.map_append]
  refine List.nodup_append.mpr ⟨h, h', fun x hx y hy => ?_⟩
  obtain ⟨a, ha, rfl⟩ := List.mem_map.mp hx
  obtain ⟨b, hb, rfl⟩ := List.mem_map.mp hy
  exact hne a ha b hb

theorem find?_key {κ : Type*} [DecidableEq κ] {key : α → κ} {rows : List α} (h : (rows.map key).Nodup) {a : α}
    (ha : a ∈ rows) {k : κ} (hk : key a = k) : rows.find? (fun b => key b = k) = some a := by
  cases hfind : rows.find? (fun b => key b = k) with
  | none => exact absurd hk (by simpa using List.find?_eq_none.mp hfind a ha)
  | some b =>
    have hb : key b = k := by simpa using List.find?_some hfind
    rw [eq_of_key_eq h (List.mem_of_find?_eq_some hfind) ha (hb.trans hk.symm)]

theorem filter_key {κ : Type*} [DecidableEq κ] {key : α → κ} {rows : List α} (h : (rows.map key).Nodup) {a : α}
    (ha : a ∈ rows) : rows.filter (fun b => key b = key a) = [a] := by
  obtain ⟨pre, post, rfl⟩ := List.append_of_mem ha
  have hne : ∀ b ∈ pre ++ post, ¬ key b = key a := by
    intro b hb hab
    rw [List.map_append, List.map_cons] at h
    refine (List.nodup_cons.mp (List.nodup_middle.mp h)).1 ?_
    rw [← hab, ← List.map_append]
    exact List.mem_map_of_mem hb
  have hnil : ∀ l : List α, (∀ b ∈ l, ¬ key b = key a) → l.filter (fun b => key b = key a) = [] := fun l hl =>
    List.filter_eq_nil_iff.mpr fun b hb => by simpa using hl b hb
  rw [List.filter_append, hnil pre fun b hb => hne b (List.mem_append_left _ hb), List.nil_append,
    List.filter_cons_of_pos (by simp), hnil post fun b hb => hne b (List.mem_append_right _ hb)]

theorem join_singleton (on : α → β → Bool) (l : List α) (b : β) :
    join on l [b] = (l.filter (fun a => on a b)).map (fun a => (a, b)) := by
  induction l with
  | nil => rfl
  | cons a l ih =>
    show ([b].filter (on a)).map _ ++ join on l [b] = _
    rw [ih, List.filter_cons, List.filter_cons]
    cases on a b <;> rfl

theorem length_filter_key_le_one {key : α → κ} {rows : List α} (h : (rows.map key).Nodup) {p : α → Bool}
    (hp : ∀ a ∈ rows, ∀ b ∈ rows, p a = true → p b = true → key a = key b) : (rows.filter p).length ≤ 1 := by
  have hnodup : (rows.filter p).Nodup := (h.of_map _).filter _
  match hl : rows.filter p with
  | [] => simp
  | [_] => simp
  | a :: b :: _ =>
    have ha : a ∈ rows.filter p := by simp [hl]
    have hb : b ∈ rows.filter p := by simp [hl]
    have hab := eq_of_key_eq h (List.mem_of_mem_filter ha) (List.mem_of_mem_filter hb)
      (hp a (List.mem_of_mem_filter ha) b (List.mem_of_mem_filter hb) (List.mem_filter.mp ha).2
        (List.mem_filter.mp hb).2)
    rw [hl, hab] at hnodup
    simp at hnodup

/-- A selection by a unique key has at most one row, so no order. -/
theorem filter_eq_of_perm {key : α → κ} {rows rows' : List α} (h : (rows.map key).Nodup) {p : α → Bool}
    (hp : ∀ a ∈ rows, ∀ b ∈ rows, p a = true → p b = true → key a = key b)
    (hperm : (rows.filter p).Perm (rows'.filter p)) : rows.filter p = rows'.filter p := by
  have hle := length_filter_key_le_one h hp
  match hl : rows.filter p with
  | [] => exact (List.nil_perm.mp (hl ▸ hperm)).symm
  | [a] => exact List.singleton_perm.mp (hl ▸ hperm)
  | _ :: _ :: _ => simp [hl] at hle

theorem map_fst_flatMap_sublist {γ : Type*} (f : α → List γ) {l : List α} (h : ∀ a ∈ l, (f a).length ≤ 1) :
    ((l.flatMap (fun a => (f a).map (fun c => (a, c)))).map Prod.fst).Sublist l := by
  induction l with
  | nil => simp
  | cons a l ih =>
    have ih' := ih (fun x hx => h x (List.mem_cons_of_mem _ hx))
    rw [List.flatMap_cons, List.map_append]
    match hf : f a with
    | [] => simpa using ih'.cons a
    | [c] => simpa using ih'
    | _ :: _ :: _ => simpa [hf] using h a List.mem_cons_self

/-- Joining to a table on its unique key keeps every left row at most once. -/
theorem map_fst_join_sublist (on : α → β → Bool) (fk : α → κ) {key : β → κ} (l : List α) {r : List β}
    (hr : (r.map key).Nodup) (hon : ∀ a b, on a b = true → key b = fk a) :
    ((join on l r).map Prod.fst).Sublist l :=
  map_fst_flatMap_sublist _ fun a _ =>
    length_filter_key_le_one hr fun _ _ _ _ hb hb' => (hon a _ hb).trans (hon a _ hb').symm

theorem map_fst_join (on : α → β → Bool) (fk : α → κ) {key : β → κ} (l : List α) {r : List β}
    (hr : (r.map key).Nodup) (hon : ∀ a b, on a b = true → key b = fk a) :
    (join on l r).map Prod.fst = l.filter (fun a => r.any (on a)) := by
  induction l with
  | nil => rfl
  | cons a l ih =>
    have hle := length_filter_key_le_one (p := on a) hr fun _ _ _ _ hb hb' => (hon a _ hb).trans (hon a _ hb').symm
    show ((r.filter (on a)).map _ ++ join on l r).map Prod.fst = _
    rw [List.map_append, ih, List.filter_cons]
    match hf : r.filter (on a) with
    | [] =>
      have hany : r.any (on a) = false := List.any_eq_false.mpr (List.filter_eq_nil_iff.mp hf)
      simp [hany]
    | [b] =>
      have hb : b ∈ r.filter (on a) := by simp [hf]
      have hany : r.any (on a) = true := List.any_eq_true.mpr ⟨b, List.mem_filter.mp hb⟩
      simp [hany]
    | _ :: _ :: _ => simp [hf] at hle

theorem map_fst_leftJoin (on : α → β → Bool) (fk : α → κ) {key : β → κ} (l : List α) {r : List β}
    (hr : (r.map key).Nodup) (hon : ∀ a b, on a b = true → key b = fk a) :
    (leftJoin on l r).map Prod.fst = l := by
  induction l with
  | nil => rfl
  | cons a l ih =>
    have hle := length_filter_key_le_one (p := on a) hr fun _ _ _ _ hb hb' =>
      (hon a _ hb).trans (hon a _ hb').symm
    show ((leftMatches on r a).map _ ++ leftJoin on l r).map Prod.fst = _
    rw [List.map_append, ih]
    unfold leftMatches
    match hf : r.filter (on a) with
    | [] => rfl
    | [_] => rfl
    | _ :: _ :: _ => simp [hf] at hle

/-! ## Groups -/

section Group
variable [DecidableEq κ]

/-- `map.entry(k).or_default().push(v)` -/
def pushEntry (map : κ → List ν) (entry : κ × ν) : κ → List ν :=
  fun k => if k = entry.1 then map k ++ [entry.2] else map k

/-- The values of each key in row order. -/
def groupBy (entries : List (κ × ν)) : κ → List ν := entries.foldl pushEntry (fun _ => [])

theorem foldl_pushEntry (entries : List (κ × ν)) (map : κ → List ν) (k : κ) :
    entries.foldl pushEntry map k = map k ++ (entries.filter (fun e => e.1 = k)).map Prod.snd := by
  induction entries generalizing map with
  | nil => simp
  | cons e entries ih =>
    rw [List.foldl_cons, ih]
    by_cases h : k = e.1
    · simp [pushEntry, h]
    · simp [pushEntry, h, Ne.symm h]

theorem groupBy_eq (entries : List (κ × ν)) (k : κ) :
    groupBy entries k = (entries.filter (fun e => e.1 = k)).map Prod.snd := by
  rw [groupBy, foldl_pushEntry, List.nil_append]

end Group

end Relational
