import Mathlib.Data.List.DropRight
import Mathlib.Data.List.Infix

/-!
# Replacing a pattern

Every occurrence of a pattern is replaced, from the left and without overlaps; a pattern is not empty.

* `replace` : one pass over the text; `replace_append_left`, `replace_cons`, `replace_induction` : its steps;
* `replace_eq_self` : a text without the pattern;
* `getLast?_replace`, `suffix_of_suffix_replace` : the end of the result;
* `Straddles`, `replace_append` : a text is replaced part by part, unless the pattern lies across the parts;
* `trimEnd`, `trimEnd_append_replicate` : a text without the symbols at its end.
-/

namespace Replace

variable {α : Type*} [DecidableEq α]

/-! ## One pass -/

/-- Replace behind `skip` symbols of an occurrence that is replaced already. -/
def replaceFrom (pattern replacement : List α) : Nat → List α → List α
  | _, [] => []
  | skip + 1, _ :: text => replaceFrom pattern replacement skip text
  | 0, c :: text =>
    if pattern <+: c :: text then replacement ++ replaceFrom pattern replacement (pattern.length - 1) text
    else c :: replaceFrom pattern replacement 0 text

def replace (pattern replacement text : List α) : List α := replaceFrom pattern replacement 0 text

section Steps
variable {pattern replacement : List α}

@[simp] theorem replace_nil : replace pattern replacement [] = [] := rfl

theorem replaceFrom_eq_replace_drop (skip : Nat) (text : List α) :
    replaceFrom pattern replacement skip text = replace pattern replacement (text.drop skip) := by
  induction text generalizing skip with
  | nil => cases skip <;> rfl
  | cons c text ih =>
    cases skip with
    | zero => rfl
    | succ skip => exact ih skip

theorem replace_append_left (hpattern : pattern ≠ []) (text : List α) :
    replace pattern replacement (pattern ++ text) = replacement ++ replace pattern replacement text := by
  obtain ⟨c, pattern', rfl⟩ := List.exists_cons_of_ne_nil hpattern
  have hprefix : c :: pattern' <+: c :: (pattern' ++ text) := List.prefix_append (c :: pattern') text
  rw [List.cons_append, replace, replaceFrom, if_pos hprefix, replaceFrom_eq_replace_drop]
  simp

theorem replace_cons {c : α} {text : List α} (h : ¬ pattern <+: c :: text) :
    replace pattern replacement (c :: text) = c :: replace pattern replacement text := by
  rw [replace, replaceFrom, if_neg h]
  rfl

/-- A text is empty, or begins with the pattern, or with a symbol where the pattern does not begin. -/
theorem replace_induction {motive : List α → Prop} (hpattern : pattern ≠ []) (nil : motive [])
    (occurrence : ∀ text, motive text → motive (pattern ++ text))
    (cons : ∀ c text, ¬ pattern <+: c :: text → motive text → motive (c :: text)) (text : List α) : motive text := by
  induction h : text.length using Nat.strong_induction_on generalizing text with
  | _ n ih =>
    cases text with
    | nil => exact nil
    | cons c text =>
      by_cases hprefix : pattern <+: c :: text
      · obtain ⟨rest, hrest⟩ := hprefix
        rw [← hrest]
        have hlength := congrArg List.length hrest
        have hpos := List.length_pos_iff.mpr hpattern
        rw [List.length_append, h] at hlength
        exact occurrence rest (ih rest.length (by omega) rest rfl)
      · rw [List.length_cons] at h
        exact cons c text hprefix (ih text.length (by omega) text rfl)

end Steps

/-! ## What is left of a text -/

section Texts
variable {pattern replacement : List α}

theorem replace_eq_self {text : List α} (h : ¬ pattern <:+: text) : replace pattern replacement text = text := by
  induction text with
  | nil => rfl
  | cons c text ih =>
    rw [replace_cons fun hprefix => h hprefix.isInfix, ih fun hinfix => h (List.infix_cons hinfix)]

variable (hpattern : pattern ≠ [])
include hpattern

/-- The last symbol stays where the replacement ends like the pattern. -/
theorem getLast?_replace (hlast : replacement.getLast? = pattern.getLast?) (text : List α) :
    (replace pattern replacement text).getLast? = text.getLast? := by
  induction text using replace_induction hpattern with
  | nil => rfl
  | occurrence text ih => rw [replace_append_left hpattern, List.getLast?_append, List.getLast?_append, ih, hlast]
  | cons c text hprefix ih => rw [replace_cons hprefix, List.getLast?_cons, List.getLast?_cons, ih]

theorem replace_eq_self_of_not_mem {c : α} (hc : c ∈ replacement) {text : List α}
    (h : c ∉ replace pattern replacement text) : replace pattern replacement text = text := by
  induction text using replace_induction hpattern with
  | nil => rfl
  | occurrence text ih =>
    rw [replace_append_left hpattern] at h
    exact absurd (List.mem_append_left _ hc) h
  | cons d text hprefix ih =>
    rw [replace_cons hprefix] at h ⊢
    rw [ih fun hmem => h (List.mem_cons_of_mem d hmem)]

/-- An end of the result without the last symbol of the replacement is an end of the text. -/
theorem suffix_of_suffix_replace {front : List α} {c : α} {ending text : List α} (hc : c ∉ ending)
    (h : ending <:+ replace pattern (front ++ [c]) text) : ending <:+ text := by
  induction text using replace_induction hpattern with
  | nil => exact h
  | occurrence text ih =>
    rw [replace_append_left hpattern] at h
    have hshort : ending <:+ replace pattern (front ++ [c]) text := by
      rcases List.suffix_or_suffix_of_suffix h (List.suffix_append _ _) with hsuffix | ⟨reach, rfl⟩
      · exact hsuffix
      · -- an ending that reaches into the replacement has its last symbol
        rcases List.suffix_concat_iff.mp (List.suffix_append_self_iff.mp h) with rfl | ⟨reach', rfl, -⟩
        · exact List.suffix_rfl
        · exact absurd (by simp) hc
    exact (ih hshort).trans (List.suffix_append _ _)
  | cons d text hprefix ih =>
    rw [replace_cons hprefix] at h
    rcases List.suffix_cons_iff.mp h with rfl | h
    · have hmem : c ∈ front ++ [c] := List.mem_append_right front List.mem_cons_self
      rw [replace_eq_self_of_not_mem hpattern hmem fun hin => hc (List.mem_cons_of_mem d hin)]
    · exact (ih h).trans (List.suffix_cons d text)

/-! ## Parts of a text -/

omit [DecidableEq α] hpattern in
/-- The pattern lies across two parts of a text. -/
def Straddles (pattern front back : List α) : Prop :=
  ∃ left right, left ≠ [] ∧ right ≠ [] ∧ pattern = left ++ right ∧ left <:+ front ∧ right <+: back

omit [DecidableEq α] hpattern in
theorem not_straddles_of_head {front back : List α} {c : α} (hc : c ∉ pattern.tail) :
    ¬ Straddles pattern front (c :: back) := by
  rintro ⟨left, right, hleft, hright, rfl, -, hback⟩
  obtain ⟨d, left', rfl⟩ := List.exists_cons_of_ne_nil hleft
  obtain ⟨e, right', rfl⟩ := List.exists_cons_of_ne_nil hright
  obtain ⟨rfl, -⟩ := List.cons_prefix_cons.mp hback
  exact hc (by simp)

theorem replace_append {front back : List α} (h : ¬ Straddles pattern front back) :
    replace pattern replacement (front ++ back) =
      replace pattern replacement front ++ replace pattern replacement back := by
  induction front using replace_induction hpattern with
  | nil => rfl
  | occurrence front ih =>
    have hrest : ¬ Straddles pattern front back := by
      rintro ⟨left, right, hleft, hright, heq, hfront, hback⟩
      exact h ⟨left, right, hleft, hright, heq, hfront.trans (List.suffix_append _ _), hback⟩
    rw [List.append_assoc, replace_append_left hpattern, replace_append_left hpattern, ih hrest, List.append_assoc]
  | cons c front hprefix ih =>
    have hrest : ¬ Straddles pattern front back := by
      rintro ⟨left, right, hleft, hright, heq, hfront, hback⟩
      exact h ⟨left, right, hleft, hright, heq, hfront.trans (List.suffix_cons c front), hback⟩
    have hacross : ¬ pattern <+: c :: (front ++ back) := by
      intro hin
      rcases List.prefix_or_prefix_of_prefix hin (List.prefix_append (c :: front) back) with hshort | ⟨right, rfl⟩
      · exact hprefix hshort
      · cases right with
        | nil => exact hprefix (by simp)
        | cons d right =>
          rw [← List.cons_append, List.prefix_append_right_inj] at hin
          exact h ⟨c :: front, d :: right, List.cons_ne_nil c front, List.cons_ne_nil d right, rfl, List.suffix_rfl,
            hin⟩
    rw [List.cons_append, replace_cons hacross, replace_cons hprefix, ih hrest, List.cons_append]

end Texts

/-! ## Symbols at the end -/

/-- A text without a symbol at its end, as often as it stands there. -/
def trimEnd (c : α) (text : List α) : List α := text.rdropWhile (· = c)

section Trim
variable {c : α}

theorem trimEnd_append_replicate (text : List α) (n : Nat) :
    trimEnd c (text ++ List.replicate n c) = trimEnd c text := by
  induction n with
  | zero => simp
  | succ n ih =>
    rw [List.replicate_succ', ← List.append_assoc, trimEnd, List.rdropWhile_concat_pos _ _ _ (by simp)]
    exact ih

theorem trimEnd_eq_self {text : List α} (h : text.getLast? ≠ some c) : trimEnd c text = text := by
  rw [trimEnd, List.rdropWhile_eq_self_iff]
  intro hne hlast
  rw [List.getLast?_eq_getLast_of_ne_nil hne, of_decide_eq_true hlast] at h
  exact h rfl

theorem exists_trimEnd (c : α) (text : List α) :
    (∃ n, text = trimEnd c text ++ List.replicate n c) ∧ (trimEnd c text).getLast? ≠ some c := by
  constructor
  · refine ⟨(text.rtakeWhile (· = c)).length, ?_⟩
    have hall : ∀ d ∈ text.rtakeWhile (· = c), d = c := by
      intro d hd
      simpa using List.mem_rtakeWhile_imp hd
    rw [← List.eq_replicate_of_mem hall]
    exact List.rdropWhile_append_rtakeWhile.symm
  · intro hlast
    have hne : trimEnd c text ≠ [] := by
      intro hnil
      rw [hnil] at hlast
      cases hlast
    have hnot := List.rdropWhile_last_not (fun d => decide (d = c)) text hne
    rw [List.getLast?_eq_getLast_of_ne_nil hne] at hlast
    exact hnot (decide_eq_true (Option.some.inj hlast))

end Trim

end Replace
