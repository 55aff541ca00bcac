import NocyWalletFeed.Bootstrap

/-!
# Concurrent starts

Several sidecars start on one database, each with its own run of `ensure_schema`. Their statements interleave, and so do
the look of a statement for what it creates and the creation: `IF NOT EXISTS` takes no lock on what is not there yet.

* `EnsureStep.look`, `EnsureStep.create` : the two halves of a statement;
* `Start.step`, `Fleet.run` : one sidecar a turn, in any order;
* `StepEnds`, `stepEnds` : how a turn of a start ends;
* `fleet_starts` : a start that comes to its end leaves the schema complete, and one fails only when another creates
  something between its look and its own attempt.
-/

namespace NocyWalletFeed
open Ddl

/-! ## Looking and creating -/

/-- The step creates a schema, a table, an index or a constraint. A column and a row are added under a lock on the
table, which is taken before the look. -/
def EnsureStep.looks : EnsureStep → Bool
  | .run .createSchema => true
  | .run (.createTable ifNotExists _) => ifNotExists
  | .run (.createIndex ifNotExists _) => ifNotExists
  | .run _ => false
  | .addIfMissing _ _ _ => true

/-- What the step finds of what it creates; `none` is an error. -/
def EnsureStep.look (c : Catalog) : EnsureStep → Option Bool
  | .run .createSchema => some c.schema
  | .run (.createTable _ d) => some (c.hasRelation d.name)
  | .run (.createIndex _ index) => some (c.hasRelation index.name)
  | .run _ => some false
  | .addIfMissing table name _ => constraintExists c table name

/-- The creation by itself, which violates a unique index of the system catalogs where another start has got there
first. -/
def EnsureStep.create (now : Int) (c : Catalog) : EnsureStep → Option Catalog
  | .run .createSchema => if c.schema then none else Ddl.exec now .createSchema c
  | .run (.createTable _ d) => Ddl.exec now (.createTable false d) c
  | .run (.createIndex _ index) => Ddl.exec now (.createIndex false index) c
  | .run stmt => Ddl.exec now stmt c
  | .addIfMissing table name check => c.addConstraint table name check

/-- The step looks, and finds nothing. -/
def EnsureStep.Missing (c : Catalog) (step : EnsureStep) : Prop := step.looks = true ∧ step.look c = some false

/-! ## The fleet -/

/-- Where a start is: the steps left, whether it has looked for the first of them and found nothing, and whether it has
failed. -/
structure Start where
  remaining : List EnsureStep
  missing : Bool
  failed : Bool
  deriving DecidableEq, Repr

def Start.initial : Start := ⟨ensureSteps, false, false⟩

/-- What a turn has come to: the start goes on, or fails with the schema as it was. -/
def Start.after (c : Catalog) (s : Start) (rest : List EnsureStep) : Option Catalog → Catalog × Start
  | some c' => (c', ⟨rest, false, s.failed⟩)
  | none => (c, { s with failed := true })

/-- The next turn of a start: a look, or a statement at once. -/
def Start.step (now : Int) (c : Catalog) (s : Start) : Catalog × Start :=
  if s.failed then (c, s)
  else
    match s.remaining with
    | [] => (c, s)
    | step :: rest =>
      if step.looks && !s.missing then
        match step.look c with
        | none => (c, { s with failed := true })
        | some true => (c, { s with remaining := rest })
        | some false => (c, { s with missing := true })
      else s.after c rest (step.create now c)

structure Fleet where
  catalog : Catalog
  starts : Nat → Start

namespace Fleet

def initial (c : Catalog) : Fleet := ⟨c, fun _ => .initial⟩

/-- The next turn of sidecar `i`. -/
def step (f : Fleet) (turn : Nat × Int) : Fleet :=
  let result := (f.starts turn.1).step turn.2 f.catalog
  ⟨result.1, Function.update f.starts turn.1 result.2⟩

def run (c : Catalog) (schedule : List (Nat × Int)) : Fleet := schedule.foldl step (initial c)

end Fleet

/-- A start has come to its end. -/
def Start.Done (s : Start) : Prop := s.remaining = [] ∧ s.failed = false

instance (s : Start) : Decidable s.Done := inferInstanceAs (Decidable (_ ∧ _))

/-! ## One turn -/

section Create
variable {c c' : Catalog} {step : EnsureStep} {now : Int}

theorem addConstraint_eq_none {table name : String} {check : Check} (h : constraintExists c table name = some true) :
    c.addConstraint table name check = none := by
  obtain ⟨t, ht, hconstraint⟩ := Option.map_eq_some_iff.mp h
  unfold Catalog.addConstraint
  rw [ht]
  dsimp only
  rw [hconstraint]
  rfl

/-- The creation fails where the look finds something. -/
theorem create_eq_none (hlooks : step.looks = true) (hlook : step.look c = some true) : step.create now c = none := by
  cases step with
  | addIfMissing table name check => exact addConstraint_eq_none hlook
  | run stmt =>
    cases stmt with
    | createSchema => exact if_pos (Option.some.inj hlook)
    | createTable ifNotExists d => exact createTable_false_eq_none (Option.some.inj hlook)
    | createIndex ifNotExists index => exact createIndex_false_eq_none (Option.some.inj hlook)
    | _ => cases hlooks

/-- A step that looks does nothing where it finds something, and creates where it does not. -/
theorem exec_of_looks (hlooks : step.looks = true) (hexec : step.exec now c = some c') :
    (step.look c = some true ∧ c' = c) ∨ (step.look c = some false ∧ step.create now c = some c') := by
  cases step with
  | addIfMissing table name check => exact addConstraintIfMissing_cases hexec
  | run stmt =>
    cases stmt with
    | createSchema =>
      obtain ⟨schema, tables, indexes⟩ := c
      have hexec : some (Catalog.mk true tables indexes) = some c' := hexec
      cases schema with
      | true => exact Or.inl ⟨rfl, (Option.some.inj hexec).symm⟩
      | false => exact Or.inr ⟨rfl, hexec⟩
    | createTable ifNotExists d =>
      obtain rfl : ifNotExists = true := hlooks
      have hexec : c.createTable true d = some c' := hexec
      rcases createTable_cases hexec with ⟨hrelation, rfl⟩ | ⟨hrelation, -⟩
      · exact Or.inl ⟨congrArg some hrelation, rfl⟩
      · exact Or.inr ⟨congrArg some hrelation, (createTable_false hrelation).trans hexec⟩
    | createIndex ifNotExists index =>
      obtain rfl : ifNotExists = true := hlooks
      have hexec : c.createIndex true index = some c' := hexec
      obtain ⟨-, -, ⟨hrelation, rfl⟩ | ⟨hrelation, -⟩⟩ := createIndex_cases hexec
      · exact Or.inl ⟨congrArg some hrelation, rfl⟩
      · exact Or.inr ⟨congrArg some hrelation, (createIndex_false hrelation).trans hexec⟩
    | _ => cases hlooks

theorem create_of_not_looks (hlooks : step.looks = false) : step.create now c = step.exec now c := by
  cases step with
  | addIfMissing table name check => cases hlooks
  | run stmt =>
    cases stmt with
    | createSchema => cases hlooks
    | createTable ifNotExists d =>
      obtain rfl : ifNotExists = false := hlooks
      rfl
    | createIndex ifNotExists index =>
      obtain rfl : ifNotExists = false := hlooks
      rfl
    | _ => rfl

end Create

/-- A start has done some steps of `ensure_schema` and has the others before it; one that has found something missing is
about to create it. -/
structure Start.Placed (c : Catalog) (s : Start) : Prop where
  split : ∃ pre, ensureSteps = pre ++ s.remaining ∧ ∀ step ∈ pre, step.Achieved c
  creating : s.missing = true → ∃ step rest, s.remaining = step :: rest ∧ step.looks = true

theorem Start.Placed.grows {c c' : Catalog} {s : Start} (h : s.Placed c) (hgrows : Grows c c') : s.Placed c' := by
  obtain ⟨⟨pre, hsplit, hpre⟩, hcreating⟩ := h
  exact ⟨⟨pre, hsplit, fun step hstep => (hpre step hstep).grows hgrows⟩, hcreating⟩

theorem placed_initial (c : Catalog) : Start.initial.Placed c := ⟨⟨[], rfl, nofun⟩, nofun⟩

/-- How a turn ends: the step is achieved, something is found missing, or a start that has found it missing fails
because it is there. -/
inductive StepEnds (c : Catalog) (s : Start) : Catalog × Start → Prop where
  | idle : StepEnds c s (c, s)
  | achieved {c' : Catalog} {step : EnsureStep} {rest : List EnsureStep} (hremaining : s.remaining = step :: rest)
    (hexec : ∃ now, step.exec now c = some c') (hachieved : step.Achieved c') :
    StepEnds c s (c', ⟨rest, false, s.failed⟩)
  | looked {step : EnsureStep} {rest : List EnsureStep} (hremaining : s.remaining = step :: rest)
    (hmissing : step.Missing c) : StepEnds c s (c, { s with missing := true })
  | refused {step : EnsureStep} {rest : List EnsureStep} (hremaining : s.remaining = step :: rest)
    (hlooked : s.missing = true) (hthere : ¬ step.Missing c) : StepEnds c s (c, { s with failed := true })

section Step
variable {c : Catalog} {s : Start}

theorem Start.Placed.exec (hs : s.Placed c) (h : Known c) {step : EnsureStep} {rest : List EnsureStep}
    (hremaining : s.remaining = step :: rest) (now : Int) : step ∈ ensureSteps ∧
      ∃ c', step.exec now c = some c' ∧ step.Achieved c' := by
  obtain ⟨pre, hsplit, hpre⟩ := hs.split
  rw [hremaining] at hsplit
  have hmem : step ∈ ensureSteps := by
    rw [hsplit]
    exact List.mem_append_right pre List.mem_cons_self
  exact ⟨hmem, exec_of_needs h hmem (fun other hother => hpre other (needs_subset hsplit hother)) now⟩

/-- **Step.** How a turn of a start ends. -/
theorem stepEnds (h : Known c) (hs : s.Placed c) (now : Int) : StepEnds c s (s.step now c) := by
  unfold Start.step
  by_cases hfailed : s.failed = true
  · rw [if_pos hfailed]
    exact .idle
  · rw [if_neg hfailed]
    split
    next => exact .idle
    next step rest hremaining =>
      obtain ⟨-, c', hexec, hachieved⟩ := hs.exec h hremaining now
      have hends : StepEnds c s (c', ⟨rest, false, s.failed⟩) := .achieved hremaining ⟨now, hexec⟩ hachieved
      cases hlooks : step.looks with
      | false =>
        rw [Bool.false_and, if_neg Bool.false_ne_true, create_of_not_looks hlooks, hexec]
        exact hends
      | true =>
        rw [Bool.true_and]
        cases hmissing : s.missing with
        | true =>
          rw [Bool.not_true, if_neg Bool.false_ne_true]
          rcases exec_of_looks hlooks hexec with ⟨hthere, -⟩ | ⟨-, hcreate⟩
          · rw [create_eq_none hlooks hthere]
            refine .refused hremaining hmissing fun hnot => ?_
            cases hthere.symm.trans hnot.2
          · rw [hcreate]
            exact hends
        | false =>
          rw [Bool.not_false, if_pos rfl]
          rcases exec_of_looks hlooks hexec with ⟨hthere, rfl⟩ | ⟨hnot, -⟩
          · rw [hthere]
            exact hends
          · rw [hnot]
            exact .looked hremaining ⟨hlooks, hnot⟩

end Step

/-! ## What is missing -/

/-- The constraint is not on the table, though the table is there. -/
def ConstraintMissing (c : Catalog) : Prop :=
  constraintExists c sessionProfile nullifierStreamingConstraint.name = some false

def Statement.creates (name : String) : Statement → Bool
  | .createTable _ d => d.name = name
  | _ => false

/-- A table that is not there is made by `CREATE TABLE` only. -/
theorem table?_exec {now : Int} {c c' : Catalog} {name : String} (hnone : c.table? name = none) (stmt : Statement)
    (hadditive : stmt.additive = true) (hcreates : Statement.creates name stmt = false)
    (h : EnsureStep.exec now c (.run stmt) = some c') : c'.table? name = none := by
  have h : exec now stmt c = some c' := h
  have hmodify : ∀ (table : String) (f : Table → Table), (∀ t, (f t).name = t.name) →
      (c.modify table f).table? name = none := by
    intro table f hf
    rw [Catalog.table?_modify hf]
    split_ifs with heq
    · rw [← heq, hnone]
      rfl
    · exact hnone
  cases stmt with
  | createSchema =>
    obtain rfl := Option.some.inj h
    exact hnone
  | createTable ifNotExists d =>
    rcases createTable_cases h with ⟨-, rfl⟩ | ⟨-, -, -, rfl⟩
    · exact hnone
    · rw [Catalog.table?_append, hnone]
      exact if_neg (of_decide_eq_false hcreates)
  | addColumn ifNotExists table column checks =>
    obtain ⟨t, -, ⟨-, rfl⟩ | ⟨-, -, rfl⟩⟩ := addColumn_cases h
    · exact hnone
    · exact hmodify table _ fun _ => rfl
  | addConstraint table constraintName check =>
    obtain ⟨t, -, -, -, -, rfl⟩ := addConstraint_cases h
    exact hmodify table _ fun _ => rfl
  | createIndex ifNotExists index =>
    obtain ⟨t, -, ⟨-, rfl⟩ | ⟨-, rfl⟩⟩ := createIndex_cases h
    · exact hnone
    · exact hnone
  | insert onConflictDoNothing table values =>
    obtain ⟨t, -, -, ⟨-, rfl⟩ | rfl⟩ := insert_cases h
    · exact hnone
    · exact hmodify table _ fun _ => rfl
  | comment table column =>
    rw [comment_eq h]
    exact hnone
  | dropSchema => cases hadditive
  | dropTable table => cases hadditive
  | dropColumn table column => cases hadditive
  | dropIndex table => cases hadditive

theorem not_constraintMissing_of_none {c : Catalog} (h : c.table? sessionProfile = none) : ¬ ConstraintMissing c := by
  intro hmissing
  rw [ConstraintMissing, constraintExists, h] at hmissing
  cases hmissing

theorem not_constraintMissing_of_profile {c : Catalog} (h : c.table? sessionProfile = some ⟨profileTable, []⟩) :
    ¬ ConstraintMissing c := by
  intro hmissing
  rw [ConstraintMissing, constraintExists, h] at hmissing
  exact absurd hmissing (by decide)

/-- No step of `ensure_schema` makes the constraint go missing: not where the table is there, and a table that the step
makes has it. -/
theorem constraintMissing_of_exec {c c' : Catalog} {step : EnsureStep} (hstep : step ∈ ensureSteps) {now : Int}
    (hexec : step.exec now c = some c') (hmissing : ConstraintMissing c') : ConstraintMissing c := by
  cases hc : c.table? sessionProfile with
  | some t =>
    obtain ⟨t', ht', hgrows⟩ := (grows_ensureStep hstep hexec).tables sessionProfile t hc
    rw [ConstraintMissing, constraintExists, ht', Option.map_some, Option.some_inj] at hmissing
    rw [ConstraintMissing, constraintExists, hc, Option.map_some, Option.some_inj]
    refine Bool.eq_false_iff.mpr fun hthere => ?_
    rw [hasConstraint_mono hgrows.constraints hthere] at hmissing
    cases hmissing
  | none =>
    refine absurd hmissing ?_
    rcases mem_ensureSteps_cases hstep with rfl | ⟨d, hd, rfl⟩ | ⟨column, -, rfl⟩ | rfl | ⟨index, -, rfl⟩ | rfl
    · exact not_constraintMissing_of_none (table?_exec hc _ rfl rfl hexec)
    · by_cases hname : d.name = sessionProfile
      · have hprofile : ∀ d ∈ ensuredTables, d.name = sessionProfile → d = profileTable := by decide
        obtain rfl := hprofile d hd hname
        rcases createTable_cases hexec with ⟨-, rfl⟩ | ⟨-, -, -, rfl⟩
        · exact not_constraintMissing_of_none hc
        · refine not_constraintMissing_of_profile ?_
          rw [Catalog.table?_append, hc]
          rfl
      · exact not_constraintMissing_of_none (table?_exec hc (.createTable true d) rfl (decide_eq_false hname) hexec)
    · exact not_constraintMissing_of_none (table?_exec hc _ rfl rfl hexec)
    · rcases addConstraintIfMissing_cases hexec with ⟨-, rfl⟩ | ⟨-, hadd⟩
      · exact not_constraintMissing_of_none hc
      · obtain ⟨t, ht, -⟩ := addConstraint_cases hadd
        rw [hc] at ht
        cases ht
    · exact not_constraintMissing_of_none (table?_exec hc _ rfl rfl hexec)
    · exact not_constraintMissing_of_none (table?_exec hc _ rfl rfl hexec)

/-- No step of `ensure_schema` makes anything go missing. -/
theorem missing_of_exec {c c' : Catalog} {step other : EnsureStep} (hstep : step ∈ ensureSteps) {now : Int}
    (hexec : step.exec now c = some c') (hother : other ∈ ensureSteps) (hmissing : other.Missing c') :
    other.Missing c := by
  obtain ⟨hlooks, hlook⟩ := hmissing
  have hgrows := grows_ensureStep hstep hexec
  have hfalse : ∀ {b b' : Bool}, (b = true → b' = true) → some b' = some false → some b = some false := by decide
  refine ⟨hlooks, ?_⟩
  rcases mem_ensureSteps_cases hother with rfl | ⟨d, -, rfl⟩ | ⟨column, -, rfl⟩ | rfl | ⟨index, -, rfl⟩ | rfl
  · exact hfalse hgrows.schema hlook
  · exact hfalse (hasRelation_mono hgrows) hlook
  · cases hlooks
  · exact constraintMissing_of_exec hstep hexec hlook
  · exact hfalse (hasRelation_mono hgrows) hlook
  · cases hlooks

/-! ## Runs -/

/-- Something that the database did not have at first is what a start looks for. -/
def LookedFor (c₀ : Catalog) : Prop := ∃ step ∈ ensureSteps, step.Missing c₀

/-- The invariant of start `i` in a fleet that started on `c₀`, after turns of some sidecars. -/
structure Start.Inv (c₀ : Catalog) (ids : List Nat) (c : Catalog) (i : Nat) (s : Start) : Prop where
  placed : s.Placed c
  looked : s.missing = true → LookedFor c₀ ∧
    ((∀ step rest, s.remaining = step :: rest → step.Missing c) ∨ ∃ j ∈ ids, j ≠ i)
  failed : s.failed = true → LookedFor c₀ ∧ ∃ j ∈ ids, j ≠ i

structure Fleet.Inv (c₀ : Catalog) (ids : List Nat) (f : Fleet) : Prop where
  known : Known f.catalog
  grows : Grows c₀ f.catalog
  missing : ∀ step ∈ ensureSteps, step.Missing f.catalog → step.Missing c₀
  starts : ∀ i, (f.starts i).Inv c₀ ids f.catalog i

theorem Fleet.inv_initial {c₀ : Catalog} (h : Known c₀) : (Fleet.initial c₀).Inv c₀ [] where
  known := h
  grows := .refl c₀
  missing _ _ := id
  starts _ := ⟨placed_initial c₀, nofun, nofun⟩

section Runs
variable {c₀ : Catalog} {ids : List Nat} {f : Fleet}

theorem exists_mem_append {P : Nat → Prop} (h : ∃ j ∈ ids, P j) (i : Nat) : ∃ j ∈ ids ++ [i], P j := by
  obtain ⟨j, hj, hP⟩ := h
  exact ⟨j, List.mem_append_left _ hj, hP⟩

theorem Start.Inv.more {c : Catalog} {i : Nat} {s : Start} (h : s.Inv c₀ ids c i) (j : Nat) :
    s.Inv c₀ (ids ++ [j]) c i where
  placed := h.placed
  looked hmissing := (h.looked hmissing).imp id (Or.imp id fun hother => exists_mem_append hother j)
  failed hfailed := (h.failed hfailed).imp id fun hother => exists_mem_append hother j

theorem Start.Inv.other {c c' : Catalog} {i j : Nat} {s : Start} (h : s.Inv c₀ ids c i) (hne : i ≠ j)
    (hgrows : Grows c c') : s.Inv c₀ (ids ++ [j]) c' i where
  placed := h.placed.grows hgrows
  looked hmissing :=
    ⟨(h.looked hmissing).1, Or.inr ⟨j, List.mem_append_right _ (List.mem_singleton_self j), hne.symm⟩⟩
  failed := (h.more j).failed

theorem Start.Inv.rest {c c' : Catalog} {i : Nat} {s : Start} {step : EnsureStep} {rest : List EnsureStep}
    (h : s.Inv c₀ ids c i) (hremaining : s.remaining = step :: rest) (hgrows : Grows c c')
    (hachieved : step.Achieved c') : (Start.mk rest false s.failed).Inv c₀ (ids ++ [i]) c' i := by
  obtain ⟨pre, hsplit, hpre⟩ := h.placed.split
  refine ⟨⟨⟨pre ++ [step], ?_, fun other hother => ?_⟩, nofun⟩, nofun, (h.more i).failed⟩
  · rw [hsplit, hremaining, List.append_assoc, List.singleton_append]
  · rcases List.mem_append.mp hother with hother | hother
    · exact (hpre other hother).grows hgrows
    · rwa [List.mem_singleton.mp hother]

/-- A turn that has left the schema as it was. -/
theorem Fleet.Inv.update (h : f.Inv c₀ ids) {i : Nat} {s : Start} (hs : s.Inv c₀ (ids ++ [i]) f.catalog i) :
    (Fleet.mk f.catalog (Function.update f.starts i s)).Inv c₀ (ids ++ [i]) where
  known := h.known
  grows := h.grows
  missing := h.missing
  starts := (Function.forall_update_iff f.starts fun j s => s.Inv c₀ (ids ++ [i]) f.catalog j).mpr
    ⟨hs, fun j _ => (h.starts j).more i⟩

/-- **Step.** A turn of any sidecar keeps the invariant. -/
theorem Fleet.Inv.step (h : f.Inv c₀ ids) (turn : Nat × Int) : (f.step turn).Inv c₀ (ids ++ [turn.1]) := by
  obtain ⟨i, now⟩ := turn
  have hs := h.starts i
  have hends := stepEnds h.known hs.placed now
  unfold Fleet.step
  dsimp only
  generalize (f.starts i).step now f.catalog = result at hends
  cases hends with
  | idle => exact h.update (hs.more i)
  | @achieved c' step rest hremaining hexec hachieved =>
    obtain ⟨later, hexec⟩ := hexec
    have hmem := (hs.placed.exec h.known hremaining later).1
    have hgrows := grows_ensureStep hmem hexec
    exact
      { known := known_ensureStep (List.all_eq_true.mp listed_ensure step hmem) h.known hexec
        grows := h.grows.trans hgrows
        missing := fun other hother hmissing =>
          h.missing other hother (missing_of_exec hmem hexec hother hmissing)
        starts := (Function.forall_update_iff f.starts fun j s => s.Inv c₀ (ids ++ [i]) c' j).mpr
          ⟨hs.rest hremaining hgrows hachieved, fun j hne => (h.starts j).other hne hgrows⟩ }
  | @looked step rest hremaining hmissing =>
    have hmem := (hs.placed.exec h.known hremaining now).1
    refine h.update ⟨⟨hs.placed.split, fun _ => ⟨step, rest, hremaining, hmissing.1⟩⟩, fun _ => ?_,
      (hs.more i).failed⟩
    refine ⟨⟨step, hmem, h.missing step hmem hmissing⟩, Or.inl fun other more hother => ?_⟩
    obtain ⟨rfl, -⟩ := List.cons.inj (hremaining.symm.trans hother)
    exact hmissing
  | refused hremaining hlooked hthere =>
    obtain ⟨hfirst, hother⟩ := hs.looked hlooked
    exact h.update ⟨⟨hs.placed.split, hs.placed.creating⟩, (hs.more i).looked, fun _ =>
      ⟨hfirst, exists_mem_append (hother.resolve_left fun hmissing => hthere (hmissing _ _ hremaining)) i⟩⟩

/-- **Run.** The invariant holds after any turns. -/
theorem Fleet.Inv.run (h : f.Inv c₀ ids) (schedule : List (Nat × Int)) :
    (schedule.foldl Fleet.step f).Inv c₀ (ids ++ schedule.map Prod.fst) := by
  induction schedule generalizing f ids with
  | nil => rwa [List.map_nil, List.append_nil]
  | cons turn schedule ih =>
    have := ih (h.step turn)
    rwa [List.append_assoc, List.singleton_append] at this

end Runs

/-! ## Ends -/

def EnsureStep.turns (step : EnsureStep) : Nat := if step.looks then 2 else 1

def turnsOf : List EnsureStep → Nat
  | [] => 0
  | step :: rest => step.turns + turnsOf rest

/-- The most turns a start still has before it. -/
def Start.left (s : Start) : Nat :=
  if s.failed then 0 else turnsOf s.remaining - s.missing.toNat

theorem left_cons (step : EnsureStep) (rest : List EnsureStep) (missing : Bool) :
    (Start.mk (step :: rest) missing false).left =
      step.turns + turnsOf rest - missing.toNat := rfl

theorem left_after_le (c : Catalog) (s : Start) (rest : List EnsureStep) (result : Option Catalog) :
    (s.after c rest result).2.left ≤ turnsOf rest := by
  cases result with
  | none => exact Nat.zero_le _
  | some c' =>
    unfold Start.after Start.left
    dsimp only
    split_ifs
    · exact Nat.zero_le _
    · exact Nat.sub_le _ _

theorem left_step {c : Catalog} {s : Start} (hs : s.Placed c) (now : Int) : (s.step now c).2.left ≤ s.left - 1 := by
  obtain ⟨remaining, missing, failed⟩ := s
  cases failed with
  | true => exact Nat.zero_le _
  | false =>
    cases remaining with
    | nil =>
      have hnil : (Start.mk [] missing false).left = 0 := Nat.zero_sub _
      exact Nat.le_trans (Nat.le_of_eq hnil) (Nat.zero_le _)
    | cons step rest =>
      rw [left_cons, EnsureStep.turns]
      unfold Start.step
      dsimp only
      rw [if_neg Bool.false_ne_true]
      cases hlooks : step.looks with
      | false =>
        have hmissing : missing = false := by
          refine Bool.eq_false_iff.mpr fun hmissing => ?_
          obtain ⟨other, more, heq, hother⟩ := hs.creating hmissing
          obtain ⟨rfl, -⟩ := List.cons.inj heq
          cases hlooks.symm.trans hother
        rw [hmissing, Bool.false_and, if_neg Bool.false_ne_true, if_neg Bool.false_ne_true, Bool.toNat_false]
        refine Nat.le_trans (left_after_le c _ rest _) ?_
        omega
      | true =>
        rw [Bool.true_and, if_pos rfl]
        cases missing with
        | true =>
          rw [Bool.not_true, if_neg Bool.false_ne_true, Bool.toNat_true]
          refine Nat.le_trans (left_after_le c _ rest _) ?_
          omega
        | false =>
          rw [Bool.not_false, if_pos rfl, Bool.toNat_false]
          cases step.look c with
          | none => exact Nat.zero_le _
          | some found =>
            cases found with
            | true =>
              show turnsOf rest - 0 ≤ _
              omega
            | false =>
              show (Start.mk (step :: rest) true false).left ≤ _
              rw [left_cons, EnsureStep.turns, hlooks, if_pos rfl, Bool.toNat_true]
              omega

theorem left_run {c₀ : Catalog} {ids : List Nat} {f : Fleet} (h : f.Inv c₀ ids) (schedule : List (Nat × Int))
    (i : Nat) :
    ((schedule.foldl Fleet.step f).starts i).left ≤ (f.starts i).left - (schedule.map Prod.fst).count i := by
  induction schedule generalizing f ids with
  | nil => exact Nat.le_refl _
  | cons turn schedule ih =>
    refine Nat.le_trans (ih (h.step turn)) ?_
    rw [List.map_cons, List.count_cons]
    rcases eq_or_ne turn.1 i with rfl | hne
    · have hstep : ((f.step turn).starts turn.1).left ≤ (f.starts turn.1).left - 1 := by
        unfold Fleet.step
        dsimp only
        rw [Function.update_self]
        exact left_step (h.starts turn.1).placed turn.2
      rw [if_pos (beq_self_eq_true turn.1)]
      omega
    · have hstep : (f.step turn).starts i = f.starts i := Function.update_of_ne hne.symm _ _
      have hcount : (if (turn.1 == i) = true then 1 else 0) = 0 := if_neg (by simpa using hne)
      rw [hstep, hcount]
      omega

theorem Start.ended {c : Catalog} {s : Start} (hs : s.Placed c) (h : s.left = 0) : s.Done ∨ s.failed = true := by
  obtain ⟨remaining, missing, failed⟩ := s
  cases failed with
  | true => exact Or.inr rfl
  | false =>
    cases remaining with
    | nil => exact Or.inl ⟨rfl, rfl⟩
    | cons step rest =>
      exfalso
      rw [left_cons, EnsureStep.turns] at h
      cases missing with
      | true =>
        obtain ⟨other, more, heq, hlooks⟩ := hs.creating rfl
        obtain ⟨rfl, -⟩ := List.cons.inj heq
        rw [hlooks, if_pos rfl, Bool.toNat_true] at h
        omega
      | false =>
        rw [Bool.toNat_false] at h
        split_ifs at h <;> omega

theorem Fleet.Inv.complete {c₀ : Catalog} {ids : List Nat} {f : Fleet} (h : f.Inv c₀ ids) {i : Nat}
    (hdone : (f.starts i).Done) : Complete f.catalog := by
  obtain ⟨pre, hsplit, hpre⟩ := (h.starts i).placed.split
  rw [hdone.1, List.append_nil] at hsplit
  refine complete_of_achieved h.known fun step hstep => hpre step ?_
  rwa [← hsplit]

/-- **Concurrent starts.** On a database that has been through anything, let any number of sidecars start, their looks
and their statements in any order. No row is lost. Whoever has had 25 turns has come to the end or has failed. Whoever
comes to the end leaves the schema complete. Whoever fails does so because the database was without something that a
start looks for, and another sidecar has been at work; and after that `ensure_schema` by itself succeeds. -/
theorem fleet_starts (turns : List SchemaTurn) (schedule : List (Nat × Int)) :
    let f := Fleet.run (schemaAfter turns) schedule
    Grows (schemaAfter turns) f.catalog ∧
    (∀ i, 25 ≤ (schedule.map Prod.fst).count i → (f.starts i).Done ∨ (f.starts i).failed = true) ∧
    (∀ i, (f.starts i).Done → Complete f.catalog) ∧
    (∀ i, (f.starts i).failed = true → (∃ step ∈ ensureSteps, step.Missing (schemaAfter turns)) ∧
      ∃ j ∈ schedule.map Prod.fst, j ≠ i) ∧
    ∀ now, ∃ c', ensureSchema now f.catalog = (c', true) ∧ Grows f.catalog c' ∧ Complete c' := by
  have hinitial := Fleet.inv_initial (known_schemaAfter turns)
  have h := hinitial.run schedule
  rw [List.nil_append] at h
  refine ⟨h.grows, fun i hcount => ?_, fun i => h.complete, fun i => (h.starts i).failed, fun now => ?_⟩
  · have hleft : ((Fleet.run (schemaAfter turns) schedule).starts i).left ≤
        25 - (schedule.map Prod.fst).count i := left_run hinitial schedule i
    exact Start.ended (h.starts i).placed (Nat.le_zero.mp (by omega))
  · obtain ⟨c', hrun, hknown, hgrows, hall⟩ := runEnsure_ok now [] ensureSteps rfl h.known nofun
    exact ⟨c', hrun, hgrows, complete_of_achieved hknown hall⟩

/-- Two sidecars on an empty database: both look for the schema before either creates it. -/
example : ((Fleet.run .empty [(0, 0), (1, 0), (1, 0), (0, 0)]).starts 0).failed = true := by decide +kernel

end NocyWalletFeed
