import Mathlib.Data.List.Induction
import Mathlib.Data.List.Nodup
import Mathlib.Data.List.Perm.Basic

/-!
# Holdings from gains and losses

Entries are gained under an id and lost by it; holdings are what a list of such changes leaves.

* `Change`, `replay` : the changes, and their replay from nothing;
* `mem_replay` : an entry is held exactly when a gain of it is followed by no loss of its id;
* `mem_replay_of_gainFirst` : where gains come first, when it is gained and not lost;
* `nodup_replay` : ids that are gained once are held once;
* `total` : the sum of a weight over some entries, and how it splits at a predicate.
-/

namespace Holdings

variable {ι α : Type*} [DecidableEq ι]

inductive Change (ι α : Type*) where
  | gain (id : ι) (value : α)
  | lose (id : ι)
  deriving DecidableEq

def apply (held : List (ι × α)) : Change ι α → List (ι × α)
  | .gain id value => held ++ [(id, value)]
  | .lose id => held.filter (fun e => e.1 ≠ id)

def replay (changes : List (Change ι α)) : List (ι × α) := changes.foldl apply []

def Change.gained : Change ι α → Option (ι × α)
  | .gain id value => some (id, value)
  | .lose _ => none

@[simp] theorem replay_nil : replay ([] : List (Change ι α)) = [] := rfl

theorem replay_concat (changes : List (Change ι α)) (c : Change ι α) :
    replay (changes ++ [c]) = apply (replay changes) c := List.foldl_append

/-- **Replay.** An entry is held exactly when a gain of it is followed by no loss of its id. -/
theorem mem_replay {changes : List (Change ι α)} {id : ι} {value : α} : (id, value) ∈ replay changes ↔
    ∃ pre post, changes = pre ++ .gain id value :: post ∧ .lose id ∉ post := by
  induction changes using List.reverseRecOn with
  | nil => simp
  | append_singleton changes c ih =>
    rw [replay_concat]
    constructor
    · intro h
      cases c with
      | gain id' value' =>
        rcases List.mem_append.mp h with h | h
        · obtain ⟨pre, post, hsplit, hlose⟩ := ih.mp h
          refine ⟨pre, post ++ [.gain id' value'], ?_, ?_⟩
          · rw [hsplit, List.append_assoc, List.cons_append]
          · simpa using hlose
        · obtain ⟨rfl, rfl⟩ := Prod.mk.inj (List.mem_singleton.mp h)
          exact ⟨changes, [], rfl, List.not_mem_nil⟩
      | lose id' =>
        obtain ⟨hmem, hne⟩ := List.mem_filter.mp h
        obtain ⟨pre, post, hsplit, hlose⟩ := ih.mp hmem
        refine ⟨pre, post ++ [.lose id'], ?_, ?_⟩
        · rw [hsplit, List.append_assoc, List.cons_append]
        · have hne : id ≠ id' := of_decide_eq_true hne
          simp [hlose, hne]
    · rintro ⟨pre, post, hsplit, hlose⟩
      rcases List.eq_nil_or_concat post with rfl | ⟨post, c', rfl⟩
      · obtain ⟨-, hc⟩ := List.append_inj' hsplit rfl
        obtain rfl := (List.cons.inj hc).1
        exact List.mem_append_right _ (List.mem_singleton_self _)
      · rw [List.concat_eq_append] at hsplit hlose
        have hsplit : changes ++ [c] = (pre ++ .gain id value :: post) ++ [c'] := by
          rw [hsplit, List.append_assoc, List.cons_append]
        obtain ⟨hchanges, hc⟩ := List.append_inj' hsplit rfl
        obtain rfl := (List.cons.inj hc).1
        obtain ⟨hpost, hlast⟩ := not_or.mp (mt List.mem_append.mpr hlose)
        have hmem := ih.mpr ⟨pre, post, hchanges, hpost⟩
        cases c with
        | gain id' value' => exact List.mem_append_left _ hmem
        | lose id' =>
          refine List.mem_filter.mpr ⟨hmem, decide_eq_true fun heq => hlast ?_⟩
          dsimp only at heq
          rw [heq]
          exact List.mem_singleton_self _

/-- Where no gain follows a loss of its id, an entry is held exactly when it is gained and its id is not lost. -/
theorem mem_replay_of_gainFirst {changes : List (Change ι α)}
    (h : changes.Pairwise fun c c' => ∀ id value, ¬ (c = .lose id ∧ c' = .gain id value)) {id : ι} {value : α} :
    (id, value) ∈ replay changes ↔ .gain id value ∈ changes ∧ .lose id ∉ changes := by
  rw [mem_replay]
  constructor
  · rintro ⟨pre, post, rfl, hlose⟩
    refine ⟨List.mem_append_right _ List.mem_cons_self, fun hmem => ?_⟩
    rcases List.mem_append.mp hmem with hpre | hrest
    · exact (List.pairwise_append.mp h).2.2 _ hpre _ List.mem_cons_self id value ⟨rfl, rfl⟩
    · rcases List.mem_cons.mp hrest with heq | hpost
      · cases heq
      · exact hlose hpost
  · rintro ⟨hgain, hlose⟩
    obtain ⟨pre, post, rfl⟩ := List.append_of_mem hgain
    exact ⟨pre, post, rfl, fun hpost => hlose (List.mem_append_right _ (List.mem_cons_of_mem _ hpost))⟩

theorem replay_sublist (changes : List (Change ι α)) : (replay changes).Sublist (changes.filterMap Change.gained) := by
  induction changes using List.reverseRecOn with
  | nil => exact List.Sublist.refl _
  | append_singleton changes c ih =>
    rw [replay_concat, List.filterMap_append]
    cases c with
    | gain id value => exact ih.append_right _
    | lose id =>
      refine List.Sublist.trans List.filter_sublist ?_
      rwa [List.filterMap_cons_none (by rfl), List.filterMap_nil, List.append_nil]

theorem nodup_replay {changes : List (Change ι α)} (h : ((changes.filterMap Change.gained).map Prod.fst).Nodup) :
    ((replay changes).map Prod.fst).Nodup :=
  h.sublist ((replay_sublist changes).map Prod.fst)

/-! ## Totals -/

/-- The sum of a weight over a list. -/
def total (weight : α → Nat) : List α → Nat
  | [] => 0
  | a :: l => weight a + total weight l

theorem total_cons (weight : α → Nat) (a : α) (l : List α) : total weight (a :: l) = weight a + total weight l := rfl

theorem total_perm {weight : α → Nat} {l l' : List α} (h : l.Perm l') : total weight l = total weight l' := by
  induction h with
  | nil => rfl
  | cons a _ ih => rw [total_cons, total_cons, ih]
  | swap a b l => exact Nat.add_left_comm _ _ _
  | trans _ _ ih ih' => exact ih.trans ih'

theorem total_map {β : Type*} (weight : β → Nat) (f : α → β) (l : List α) :
    total weight (l.map f) = total (fun a => weight (f a)) l := by
  induction l with
  | nil => rfl
  | cons a l ih => rw [List.map_cons, total_cons, total_cons, ih]

theorem total_congr {weight weight' : α → Nat} {l : List α} (h : ∀ a ∈ l, weight a = weight' a) :
    total weight l = total weight' l := by
  induction l with
  | nil => rfl
  | cons a l ih =>
    obtain ⟨ha, hl⟩ := List.forall_mem_cons.mp h
    rw [total_cons, total_cons, ha, ih hl]

theorem total_eq_zero_iff {weight : α → Nat} {l : List α} : total weight l = 0 ↔ ∀ a ∈ l, weight a = 0 := by
  induction l with
  | nil => simp [total]
  | cons a l ih => rw [total_cons, Nat.add_eq_zero_iff, ih, List.forall_mem_cons]

theorem total_filter_cons (weight : α → Nat) (p : α → Bool) (a : α) (l : List α) :
    total weight ((a :: l).filter p) = (if p a then weight a else 0) + total weight (l.filter p) := by
  cases hp : p a with
  | true => rw [List.filter_cons_of_pos hp, total_cons, if_pos rfl]
  | false =>
    rw [List.filter_cons_of_neg (by rw [hp]; exact Bool.false_ne_true), if_neg Bool.false_ne_true, Nat.zero_add]

theorem total_filter_or (weight : α → Nat) {p q : α → Bool} {l : List α} (h : ∀ a ∈ l, ¬ (p a = true ∧ q a = true)) :
    total weight (l.filter fun a => p a || q a) = total weight (l.filter p) + total weight (l.filter q) := by
  induction l with
  | nil => rfl
  | cons a l ih =>
    obtain ⟨ha, hl⟩ := List.forall_mem_cons.mp h
    have hweight : (if (p a || q a) = true then weight a else 0) =
        (if p a then weight a else 0) + if q a then weight a else 0 := by
      cases hp : p a with
      | true =>
        have hq : q a = false := Bool.eq_false_iff.mpr fun hq => ha ⟨hp, hq⟩
        rw [hq]
        rfl
      | false => rw [Bool.false_or, if_neg Bool.false_ne_true, Nat.zero_add]
    rw [total_filter_cons, total_filter_cons, total_filter_cons, ih hl, hweight]
    omega

end Holdings
