import NocyWalletFeed.Pages

/-!
# Holes and reorgs under polling

* `WindowDefect`, `validateBlocks_window_iff` : the defects of the chain a page can see;
* `reset_iff` : the pages of a client contain a reset exactly when a page it reaches sees a defect;
* `noReset_intact_iff` : when the absence of a reset means that the chain is intact;
* `boundary_linked_iff` : when consecutive pages link, over snapshots that change between requests.
-/

namespace NocyWalletFeed
open Codec OrderBy Pager

/-! ## What a page sees -/

/-- A window shows a missing height below a present one, or a block that does not name its predecessor. -/
def WindowDefect (db : Database) (fromHeight toHeight : Int) : Prop :=
  (∃ missing present, fromHeight ≤ missing ∧ missing < present ∧ present ≤ toHeight ∧
      db.blockAt missing = none ∧ db.blockAt present ≠ none) ∨
    ∃ height b b', fromHeight ≤ height ∧ height ≤ toHeight ∧ 0 < height ∧ db.blockAt (height - 1) = some b ∧
      db.blockAt height = some b' ∧ b'.parentHash ≠ b.hash

def WindowEmpty (db : Database) (fromHeight toHeight : Int) : Prop :=
  ∀ height, fromHeight ≤ height → height ≤ toHeight → db.blockAt height = none

section Window
variable {db : Database} {fromHeight toHeight : Int}

theorem getBlocksInRange_eq_nil_iff :
    getBlocksInRange db fromHeight toHeight = [] ↔ WindowEmpty db fromHeight toHeight := by
  rw [getBlocksInRange_eq, List.filterMap_eq_nil_iff]
  constructor
  · intro h height hlo hhi
    exact Option.map_eq_none_iff.mp (h height (Int.mem_range_iff.mpr ⟨hlo, by omega⟩))
  · intro h height hmem
    obtain ⟨hlo, hhi⟩ := Int.mem_range_iff.mp hmem
    exact Option.map_eq_none_iff.mpr (h height hlo (by omega))

/-- No present block of a window has a missing one below it, the first one names a hash that is given from before, and
every other one names its predecessor. -/
structure WindowLinked (db : Database) (fromHeight toHeight : Int) (prevHash : Option String) : Prop where
  noGap : ∀ missing present, fromHeight ≤ missing → missing < present → present ≤ toHeight →
    db.blockAt missing = none → db.blockAt present = none
  first : fromHeight ≤ toHeight → ∀ b hash, db.blockAt fromHeight = some b → hash ∈ prevHash →
    hexEncode b.parentHash = hash
  links : ∀ height b b', fromHeight ≤ height → height < toHeight → db.blockAt height = some b →
    db.blockAt (height + 1) = some b' → b'.parentHash = b.hash

theorem windowLinked_of_none {prevHash : Option String} (h : db.blockAt fromHeight = none) :
    WindowLinked db fromHeight toHeight prevHash ↔ WindowEmpty db (fromHeight + 1) toHeight := by
  constructor
  · exact fun hlinked height hlo hhi => hlinked.noGap fromHeight height le_rfl (by omega) hhi h
  · intro hempty
    refine ⟨fun missing present h₁ h₂ h₃ _ => hempty present (by omega) h₃, fun _ b hash hb => ?_,
      fun height b b' h₁ h₂ _ hb' => ?_⟩
    · rw [h] at hb
      cases hb
    · rw [hempty (height + 1) (by omega) (by omega)] at hb'
      cases hb'

theorem windowLinked_of_some {prevHash : Option String} {b : BlockRow} (h : db.blockAt fromHeight = some b)
    (hle : fromHeight ≤ toHeight) : WindowLinked db fromHeight toHeight prevHash ↔
      (∀ hash ∈ prevHash, hexEncode b.parentHash = hash) ∧
        WindowLinked db (fromHeight + 1) toHeight (some (hexEncode b.hash)) := by
  constructor
  · intro hlinked
    refine ⟨fun hash hhash => hlinked.first hle b hash h hhash,
      fun missing present h₁ => hlinked.noGap missing present (by omega), fun hle' b' hash hb' hhash => ?_,
      fun height b₁ b₂ h₁ => hlinked.links height b₁ b₂ (by omega)⟩
    rw [← Option.some.inj hhash, hlinked.links fromHeight b b' le_rfl (by omega) h hb']
  · rintro ⟨hprev, hlinked⟩
    refine ⟨fun missing present h₁ h₂ h₃ hnone => ?_, fun _ b₀ hash hb₀ hhash => ?_,
      fun height b₁ b₂ h₁ h₂ hb₁ hb₂ => ?_⟩
    · rcases (by omega : missing = fromHeight ∨ fromHeight + 1 ≤ missing) with rfl | hlo
      · rw [h] at hnone
        cases hnone
      · exact hlinked.noGap missing present hlo h₂ h₃ hnone
    · obtain rfl := Option.some.inj (h.symm.trans hb₀)
      exact hprev hash hhash
    · rcases (by omega : height = fromHeight ∨ fromHeight + 1 ≤ height) with rfl | hlo
      · obtain rfl := Option.some.inj (h.symm.trans hb₁)
        exact hexEncode_injective (hlinked.first (by omega) b₂ _ hb₂ rfl)
      · exact hlinked.links height b₁ b₂ hlo h₂ hb₁ hb₂

theorem linked_above_iff {expectedHeight : Int} {prevHash : Option String} (h : expectedHeight < fromHeight) :
    Linked expectedHeight prevHash (getBlocksInRange db fromHeight toHeight) ↔ WindowEmpty db fromHeight toHeight := by
  rw [← getBlocksInRange_eq_nil_iff]
  cases hrange : getBlocksInRange db fromHeight toHeight with
  | nil => exact iff_of_true trivial rfl
  | cons m rest =>
    have hm : m ∈ getBlocksInRange db fromHeight toHeight := by rw [hrange]; exact List.mem_cons_self
    have hlo := (mem_getBlocksInRange.mp hm).1
    refine iff_of_false (fun hlinked => ?_) (List.cons_ne_nil m rest)
    have := hlinked.1
    omega

theorem linked_getBlocksInRange_iff {prevHash : Option String} :
    Linked fromHeight prevHash (getBlocksInRange db fromHeight toHeight) ↔
      WindowLinked db fromHeight toHeight prevHash := by
  obtain ⟨n, hn⟩ : ∃ n : Nat, (toHeight + 1 - fromHeight).toNat = n := ⟨_, rfl⟩
  induction n generalizing fromHeight prevHash with
  | zero =>
    have hempty : getBlocksInRange db fromHeight toHeight = [] :=
      getBlocksInRange_eq_nil_iff.mpr fun height hlo hhi => by omega
    rw [hempty]
    exact iff_of_true trivial ⟨fun _ _ _ _ _ => by omega, fun _ => by omega, fun _ _ _ _ _ => by omega⟩
  | succ n ih =>
    cases hb : db.blockAt fromHeight with
    | none => rw [getBlocksInRange_of_none hb, linked_above_iff (by omega), windowLinked_of_none hb]
    | some b =>
      rw [getBlocksInRange_of_some hb (by omega), Linked, ih (by omega), windowLinked_of_some hb (by omega)]
      exact and_iff_right (Database.height_of_blockAt hb)

/-- **A page's validation fails exactly when its window shows a defect.** -/
theorem validateBlocks_window_iff (h0 : 0 ≤ fromHeight) (hle : fromHeight ≤ toHeight) :
    validateBlocks fromHeight (if fromHeight > 0 then getBlockHashAtHeight db (fromHeight - 1) else none)
      (getBlocksInRange db fromHeight toHeight) = none ↔ ¬ WindowDefect db fromHeight toHeight := by
  rw [validateBlocks_eq_none_iff, linked_getBlocksInRange_iff]
  constructor
  · rintro ⟨hgap, hfirst, hlinks⟩
      (⟨missing, present, h₁, h₂, h₃, hnone, hsome⟩ | ⟨height, b, b', h₁, h₂, hpos, hb, hb', hne⟩)
    · exact hsome (hgap missing present h₁ h₂ h₃ hnone)
    · rcases (by omega : height = fromHeight ∨ fromHeight ≤ height - 1) with rfl | hlo
      · refine hne (hexEncode_injective (hfirst hle b' (hexEncode b.hash) hb' ?_))
        rw [if_pos hpos, getBlockHashAtHeight_eq, hb]
        rfl
      · exact hne (hlinks (height - 1) b b' hlo (by omega) hb (by rwa [sub_add_cancel]))
  · intro h
    refine ⟨fun missing present h₁ h₂ h₃ hnone => ?_, fun _ b' hash hb' hhash => ?_, fun height b b' h₁ h₂ hb hb' => ?_⟩
    · by_contra hsome
      exact h (Or.inl ⟨missing, present, h₁, h₂, h₃, hnone, hsome⟩)
    · split_ifs at hhash with hpos
      · rw [getBlockHashAtHeight_eq] at hhash
        obtain ⟨b, hb, rfl⟩ := Option.map_eq_some_iff.mp hhash
        by_contra hne
        exact h (Or.inr ⟨fromHeight, b, b', le_rfl, hle, hpos, hb, hb', fun heq => hne (congrArg hexEncode heq)⟩)
      · cases hhash
    · by_contra hne
      refine h (Or.inr ⟨height + 1, b, b', by omega, by omega, by omega, ?_, hb', hne⟩)
      rwa [add_sub_cancel_right]

theorem WindowDefect.not_empty (h : WindowDefect db fromHeight toHeight) : ¬ WindowEmpty db fromHeight toHeight := by
  intro hempty
  rcases h with ⟨missing, present, h₁, h₂, h₃, -, hsome⟩ | ⟨height, b, b', h₁, h₂, -, -, hb', -⟩
  · exact hsome (hempty present (by omega) h₃)
  · rw [hempty height h₁ h₂] at hb'
    cases hb'

theorem WindowDefect.le (h : WindowDefect db fromHeight toHeight) : fromHeight ≤ toHeight := by
  rcases h with ⟨_, _, h₁, h₂, h₃, -, -⟩ | ⟨_, _, _, h₁, h₂, -⟩
  · omega
  · omega

end Window

/-! ## One page over any snapshot -/

/-- What a page holds over a snapshot with missing or relinked blocks. -/
inductive WindowPage (db : Database) (args : AssemblyArgs) (readyHeight fromHeight toHeight : Int)
    (response : FeedResponse) : Prop where
  | empty (h : WindowEmpty db fromHeight toHeight) (hblocks : response.blocks = []) (hnext : response.nextHeight = none)
  | reset (h : WindowDefect db fromHeight toHeight) (hcontrol : response.HasControl)
      (hnext : response.nextHeight = none)
  | served (h : ¬ WindowEmpty db fromHeight toHeight) (hdefect : ¬ WindowDefect db fromHeight toHeight)
      (hspec : PageSpec db args readyHeight none fromHeight toHeight response)

theorem resetResponse_hasControl (watermarks : Watermarks) (first : BlockMeta) (event : ControlEvent) :
    (resetResponse watermarks first event).HasControl :=
  ⟨_, List.mem_singleton_self _, _, List.mem_singleton_self _, event, rfl⟩

theorem page_window (db : Database) (args : AssemblyArgs) {readyHeight fromHeight limitBlocks : Int}
    (h0 : 0 ≤ fromHeight) (hle : fromHeight ≤ readyHeight) (hlimit : 1 ≤ limitBlocks) :
    WindowPage db args readyHeight fromHeight (pageEnd fromHeight limitBlocks readyHeight)
      (page db args readyHeight none fromHeight limitBlocks) := by
  have hend : fromHeight ≤ pageEnd fromHeight limitBlocks readyHeight := le_min (by omega) hle
  by_cases hempty : WindowEmpty db fromHeight (pageEnd fromHeight limitBlocks readyHeight)
  · rw [page_eq db args none limitBlocks hle, getBlocksInRange_eq_nil_iff.mpr hempty]
    exact .empty hempty rfl rfl
  · have hne := mt getBlocksInRange_eq_nil_iff.mp hempty
    cases hvalid : validateBlocks fromHeight
        (if fromHeight > 0 then getBlockHashAtHeight db (fromHeight - 1) else none)
        (getBlocksInRange db fromHeight (pageEnd fromHeight limitBlocks readyHeight)) with
    | none =>
      exact .served hempty ((validateBlocks_window_iff h0 hend).mp hvalid) (page_valid none hle hlimit hne hvalid)
    | some event =>
      have hdefect : WindowDefect db fromHeight (pageEnd fromHeight limitBlocks readyHeight) := by
        by_contra h
        rw [(validateBlocks_window_iff h0 hend).mpr h] at hvalid
        cases hvalid
      rw [page_eq db args none limitBlocks hle]
      cases hrange : getBlocksInRange db fromHeight (pageEnd fromHeight limitBlocks readyHeight) with
      | nil => exact absurd hrange hne
      | cons first rest =>
        rw [hrange] at hvalid
        simp only [hvalid]
        exact .reset hdefect (resetResponse_hasControl _ first event) rfl

/-! ## The pages of a client over any snapshot -/

/-- A page reached from `fromHeight`, with `limitBlocks` heights a page, shows a defect. -/
def DefectSeen (db : Database) (readyHeight fromHeight limitBlocks : Int) : Prop :=
  ∃ j : Nat,
    (∀ i < j, ¬ WindowEmpty db (fromHeight + i * limitBlocks)
      (pageEnd (fromHeight + i * limitBlocks) limitBlocks readyHeight)) ∧
    WindowDefect db (fromHeight + j * limitBlocks) (pageEnd (fromHeight + j * limitBlocks) limitBlocks readyHeight)

section Seen
variable {db : Database} {readyHeight fromHeight limitBlocks : Int}

theorem zero_mul_window : fromHeight + ((0 : Nat) : Int) * limitBlocks = fromHeight := by simp

theorem succ_mul_window (j : Nat) :
    fromHeight + ((j + 1 : Nat) : Int) * limitBlocks = fromHeight + limitBlocks + j * limitBlocks := by
  push_cast
  ring

theorem not_defectSeen_of_empty (h : WindowEmpty db fromHeight (pageEnd fromHeight limitBlocks readyHeight)) :
    ¬ DefectSeen db readyHeight fromHeight limitBlocks := by
  rintro ⟨j, hne, hdefect⟩
  cases j with
  | zero =>
    rw [zero_mul_window] at hdefect
    exact hdefect.not_empty h
  | succ j =>
    have := hne 0 (Nat.succ_pos j)
    rw [zero_mul_window] at this
    exact this h

theorem defectSeen_of_windowDefect (h : WindowDefect db fromHeight (pageEnd fromHeight limitBlocks readyHeight)) :
    DefectSeen db readyHeight fromHeight limitBlocks := by
  refine ⟨0, fun i hi => absurd hi (Nat.not_lt_zero i), ?_⟩
  rwa [zero_mul_window]

/-- Past a page without a defect the client is at the next window. -/
theorem defectSeen_next_iff (hne : ¬ WindowEmpty db fromHeight (pageEnd fromHeight limitBlocks readyHeight))
    (hdefect : ¬ WindowDefect db fromHeight (pageEnd fromHeight limitBlocks readyHeight)) :
    DefectSeen db readyHeight fromHeight limitBlocks ↔
      DefectSeen db readyHeight (fromHeight + limitBlocks) limitBlocks := by
  constructor
  · rintro ⟨j, hwindows, hj⟩
    cases j with
    | zero =>
      rw [zero_mul_window] at hj
      exact absurd hj hdefect
    | succ j =>
      refine ⟨j, fun i hi => ?_, by rwa [← succ_mul_window]⟩
      have := hwindows (i + 1) (Nat.succ_lt_succ hi)
      rwa [succ_mul_window] at this
  · rintro ⟨j, hwindows, hj⟩
    refine ⟨j + 1, fun i hi => ?_, by rwa [succ_mul_window]⟩
    cases i with
    | zero => rwa [zero_mul_window]
    | succ i =>
      rw [succ_mul_window]
      exact hwindows i (Nat.lt_of_succ_lt_succ hi)

theorem not_defectSeen_of_lt (hlimit : 1 ≤ limitBlocks) (h : readyHeight < fromHeight) :
    ¬ DefectSeen db readyHeight fromHeight limitBlocks := by
  rintro ⟨j, -, hdefect⟩
  have hle := hdefect.le
  have hend : pageEnd (fromHeight + j * limitBlocks) limitBlocks readyHeight ≤ readyHeight := min_le_right _ _
  have : (0 : Int) ≤ j * limitBlocks := mul_nonneg (Int.natCast_nonneg j) (by omega)
  omega

end Seen

section PageCases
variable {db : Database} {args : AssemblyArgs} {readyHeight fromHeight : Int} {response : FeedResponse}

theorem WindowPage.byHeight_eq_some {toHeight : Int}
    (h : WindowPage db args readyHeight fromHeight toHeight response) {position : Position}
    (hnext : byHeight response = some position) : ¬ WindowEmpty db fromHeight toHeight ∧
      ¬ WindowDefect db fromHeight toHeight ∧ PageSpec db args readyHeight none fromHeight toHeight response := by
  have hnone : response.nextHeight ≠ none := by
    intro hnone
    rw [byHeight, hnone] at hnext
    cases hnext
  cases h with
  | empty _ _ h => exact absurd h hnone
  | reset _ _ h => exact absurd h hnone
  | served hne hdefect hspec => exact ⟨hne, hdefect, hspec⟩

theorem PageSpec.not_hasControl {fromCursor : Option SequenceKey} {toHeight : Int}
    (h : PageSpec db args readyHeight fromCursor fromHeight toHeight response) : ¬ response.HasControl := by
  rintro ⟨bundle, hbundle, item, hitem, event, hcontrol⟩
  rw [h.blocks] at hbundle
  exact not_control_of_mem_pageBundles hbundle hitem event hcontrol

theorem hasControl_or_iff {limitBlocks : Int} {P : Prop}
    (hpage : WindowPage db args readyHeight fromHeight
      (pageEnd fromHeight limitBlocks readyHeight) response)
    (hrest : PageSpec db args readyHeight none fromHeight
        (pageEnd fromHeight limitBlocks readyHeight) response →
      (P ↔ DefectSeen db readyHeight (fromHeight + limitBlocks)
        limitBlocks))
    (hstop : response.nextHeight = none → ¬ P) :
    response.HasControl ∨ P ↔ DefectSeen db readyHeight fromHeight limitBlocks := by
  cases hpage with
  | empty hempty hblocks hnext =>
    refine iff_of_false ?_ (not_defectSeen_of_empty hempty)
    rintro (⟨bundle, hbundle, -⟩ | hp)
    · rw [hblocks] at hbundle
      cases hbundle
    · exact hstop hnext hp
  | reset hdefect hcontrol _ => exact iff_of_true (Or.inl hcontrol) (defectSeen_of_windowDefect hdefect)
  | served hne hdefect hspec =>
    rw [defectSeen_next_iff hne hdefect, ← hrest hspec]
    exact or_iff_right hspec.not_hasControl

end PageCases

section Polling
variable (limitBlocksMax : Nat) {db : Database} {query : FeedQuery} {args : AssemblyArgs} {readyHeight : Int}
  (limitBlocks : Option Int) (hserved : Served db query args readyHeight)
include hserved

theorem fetchPage_window (k : Nat) {fromHeight : Int} (h0 : 0 ≤ fromHeight) (hle : fromHeight ≤ readyHeight) :
    ∃ response,
      fetchPage limitBlocksMax (fun _ => db) query (fun _ => limitBlocks) k (.height fromHeight) = .ok response ∧
      WindowPage db args readyHeight fromHeight
        (pageEnd fromHeight (clampLimit limitBlocksMax limitBlocks) readyHeight) response :=
  ⟨_, getFeed_height limitBlocksMax hserved limitBlocks h0,
    page_window db args h0 hle (one_le_clampLimit limitBlocksMax limitBlocks)⟩

theorem exists_pollingPages (k : Nat) {fromHeight : Int} (h0 : 0 ≤ fromHeight) (hle : fromHeight ≤ readyHeight) :
    ∃ visited, Pages (fetchPage limitBlocksMax (fun _ => db) query (fun _ => limitBlocks)) byHeight k
      (.height fromHeight) visited := by
  refine exists_pages_byHeight (fun k f hf0 hfle => ?_) h0 hle
  obtain ⟨response, hok, hpage⟩ := fetchPage_window limitBlocksMax limitBlocks hserved k hf0 hfle
  refine ⟨response, hok, fun position hposition => ?_⟩
  obtain ⟨-, -, hspec⟩ := hpage.byHeight_eq_some hposition
  obtain ⟨hlt, rfl⟩ := hspec.byHeight_eq_some hposition
  have hlo := hspec.from_le
  exact ⟨_, rfl, by omega, by omega⟩

/-- **Resets.** The pages of a client contain a control item exactly when a page it reaches shows a defect. -/
theorem reset_iff {k : Nat} {fromHeight : Int} (h0 : 0 ≤ fromHeight) (hle : fromHeight ≤ readyHeight)
    {visited : List (Position × FeedResponse)}
    (h : Pages (fetchPage limitBlocksMax (fun _ => db) query (fun _ => limitBlocks)) byHeight k (.height fromHeight)
      visited) : (∃ response ∈ responses visited, response.HasControl) ↔
        DefectSeen db readyHeight fromHeight (clampLimit limitBlocksMax limitBlocks) := by
  have hlimit := one_le_clampLimit limitBlocksMax limitBlocks
  generalize hposition : Position.height fromHeight = position at h
  induction h generalizing fromHeight with
  | @last k position response hok hnext =>
    subst hposition
    obtain ⟨_, hok', hpage⟩ := fetchPage_window limitBlocksMax limitBlocks hserved k h0 hle
    obtain rfl := Except.ok.inj (hok.symm.trans hok')
    have := hasControl_or_iff (P := False) hpage (fun hspec => ?_) (fun _ => not_false)
    · simpa [responses] using this
    · have hend := hspec.byHeight_eq_none hnext
      have : pageEnd fromHeight (clampLimit limitBlocksMax limitBlocks) readyHeight ≤
        fromHeight + clampLimit limitBlocksMax limitBlocks - 1 := min_le_left _ _
      exact iff_of_false not_false (not_defectSeen_of_lt hlimit (by omega))
  | @more k position position' response visited hok hnext _ ih =>
    subst hposition
    obtain ⟨_, hok', hpage⟩ := fetchPage_window limitBlocksMax limitBlocks hserved k h0 hle
    obtain rfl := Except.ok.inj (hok.symm.trans hok')
    obtain ⟨-, -, hspec⟩ := hpage.byHeight_eq_some hnext
    obtain ⟨hlt, rfl⟩ := hspec.byHeight_eq_some hnext
    have hend : pageEnd fromHeight (clampLimit limitBlocksMax limitBlocks) readyHeight =
        fromHeight + clampLimit limitBlocksMax limitBlocks - 1 := by
      unfold pageEnd at hlt ⊢
      omega
    have hnext' : pageEnd fromHeight (clampLimit limitBlocksMax limitBlocks) readyHeight + 1 =
        fromHeight + clampLimit limitBlocksMax limitBlocks := by omega
    have := hasControl_or_iff
      (P := ∃ response ∈ responses visited, response.HasControl) hpage (fun _ => ?_) (fun hnone => ?_)
    · simpa [responses] using this
    · rw [← hnext']
      exact ih (by omega) (by omega) rfl
    · rw [byHeight, hnone] at hnext
      cases hnext

end Polling

/-! ## Intact chains -/

/-- Every height of a range is present and names the block one below it, where there is one. -/
structure Intact (db : Database) (fromHeight toHeight : Int) : Prop where
  present : ∀ height, fromHeight ≤ height → height ≤ toHeight → db.blockAt height ≠ none
  linked : ∀ height b b', fromHeight ≤ height → height ≤ toHeight → db.blockAt (height - 1) = some b →
    db.blockAt height = some b' → b'.parentHash = b.hash

/-- No height of a range is missing, and the block at height 0, which no page compares with a block below it, has none
below it or names it. -/
structure Comparable (db : Database) (fromHeight toHeight : Int) : Prop where
  present : ∀ height, fromHeight ≤ height → height ≤ toHeight → db.blockAt height ≠ none
  genesis : fromHeight = 0 → ∀ b b', db.blockAt (-1) = some b → db.blockAt 0 = some b' → b'.parentHash = b.hash

section Intact
variable {db : Database} {fromHeight readyHeight limitBlocks : Int}

theorem Intact.comparable (h : Intact db fromHeight readyHeight) (hle : fromHeight ≤ readyHeight) :
    Comparable db fromHeight readyHeight where
  present := h.present
  genesis := by
    rintro rfl b b' hb hb'
    exact h.linked 0 b b' le_rfl hle hb hb'

/-- Where no height is missing, a block that does not name the one below is seen by the page it is on. -/
theorem defectSeen_of_mismatch (hlimit : 1 ≤ limitBlocks)
    (hpresent : ∀ height, fromHeight ≤ height → height ≤ readyHeight → db.blockAt height ≠ none)
    {height : Int} {b b' : BlockRow} (hlo : fromHeight ≤ height) (hhi : height ≤ readyHeight) (hpos : 0 < height)
    (hb : db.blockAt (height - 1) = some b) (hb' : db.blockAt height = some b') (hne : b'.parentHash ≠ b.hash) :
    DefectSeen db readyHeight fromHeight limitBlocks := by
  obtain ⟨j, hj⟩ : ∃ j : Nat, (j : Int) = (height - fromHeight) / limitBlocks :=
    ⟨_, Int.toNat_of_nonneg (Int.ediv_nonneg (by omega) (by omega))⟩
  have hdiv := Int.mul_ediv_add_emod (height - fromHeight) limitBlocks
  have hmod := Int.emod_nonneg (height - fromHeight) (by omega : limitBlocks ≠ 0)
  have hmod' := Int.emod_lt_of_pos (height - fromHeight) (by omega : 0 < limitBlocks)
  rw [← hj, mul_comm] at hdiv
  refine ⟨j, fun i hi hempty => ?_, Or.inr ⟨height, b, b', by omega, ?_, hpos, hb, hb', hne⟩⟩
  · have hstart : (0 : Int) ≤ i * limitBlocks := mul_nonneg (Int.natCast_nonneg i) (by omega)
    have hij : (i : Int) * limitBlocks ≤ j * limitBlocks := mul_le_mul_of_nonneg_right (by omega) (by omega)
    refine hpresent (fromHeight + i * limitBlocks) (by omega) (by omega)
      (hempty _ le_rfl (le_min (by omega) (by omega)))
  · exact le_min (by omega) hhi

/-- **What the absence of a visible defect means.** -/
theorem defectSeen_or_intact_iff (h0 : 0 ≤ fromHeight) (hle : fromHeight ≤ readyHeight) (hlimit : 1 ≤ limitBlocks) :
    (¬ DefectSeen db readyHeight fromHeight limitBlocks → Intact db fromHeight readyHeight) ↔
      Comparable db fromHeight readyHeight ∨ DefectSeen db readyHeight fromHeight limitBlocks := by
  constructor
  · intro h
    by_cases hseen : DefectSeen db readyHeight fromHeight limitBlocks
    · exact Or.inr hseen
    · exact Or.inl ((h hseen).comparable hle)
  · rintro (hcomp | hseen) hnot
    · refine ⟨hcomp.present, fun height b b' hlo hhi hb hb' => ?_⟩
      rcases (by omega : height = 0 ∨ 0 < height) with rfl | hpos
      · exact hcomp.genesis (by omega) b b' hb hb'
      · by_contra hne
        exact hnot (defectSeen_of_mismatch hlimit hcomp.present hlo hhi hpos hb hb' hne)
    · exact absurd hseen hnot

end Intact

/-- **Polling and holes.** The absence of resets means an intact chain exactly when no height is missing, or when a page
the client reaches shows a missing height below a present one or a block that does not name its predecessor. -/
theorem noReset_intact_iff (limitBlocksMax : Nat) {db : Database} {query : FeedQuery} {args : AssemblyArgs}
    {readyHeight : Int} (hserved : Served db query args readyHeight) (limitBlocks : Option Int) {fromHeight : Int}
    (h0 : 0 ≤ fromHeight) (hle : fromHeight ≤ readyHeight) :
    ∃ visited, Pages (fetchPage limitBlocksMax (fun _ => db) query (fun _ => limitBlocks)) byHeight 0
        (.height fromHeight) visited ∧
      (((∀ response ∈ responses visited, ¬ response.HasControl) → Intact db fromHeight readyHeight) ↔
        Comparable db fromHeight readyHeight ∨
          DefectSeen db readyHeight fromHeight (clampLimit limitBlocksMax limitBlocks)) := by
  obtain ⟨visited, hpages⟩ := exists_pollingPages limitBlocksMax limitBlocks hserved 0 h0 hle
  refine ⟨visited, hpages, ?_⟩
  rw [← defectSeen_or_intact_iff h0 hle (one_le_clampLimit limitBlocksMax limitBlocks),
    ← reset_iff limitBlocksMax limitBlocks hserved h0 hle hpages]
  simp only [not_exists, not_and]

/-- The long chain, in pages of one block. -/
theorem noReset_intact_longChain : ∃ visited,
    Pages (fetchPage 100 (fun _ => Sample.longChain) Sample.query (fun _ => some 1)) byHeight 0 (.height 0) visited ∧
      ((∀ response ∈ responses visited, ¬ response.HasControl) → Intact Sample.longChain 0 1) := by
  obtain ⟨visited, hpages, hiff⟩ := noReset_intact_iff 100 (Sample.served rfl (by decide) : Served Sample.longChain
    Sample.query Sample.args 1) (some 1) le_rfl (by decide)
  refine ⟨visited, hpages, hiff.mpr (Or.inl ⟨fun height h₀ h₁ => ?_, fun _ b b' hb => ?_⟩)⟩
  · rcases (by omega : height = 0 ∨ height = 1) with rfl | rfl <;> decide
  · cases hb

/-- A chain from which block 1 is missing. -/
def Sample.gappedChain : Database := ⟨tables [block 0 1 0, block 2 3 2] [transaction 1 0] [utxo 1 1 none], by decide⟩

/-- The missing block is the last of the first page: the next page has no block to compare its first block with. -/
theorem gappedChain_noReset : Served Sample.gappedChain Sample.query Sample.args 2 ∧
    (∃ visited, Pages (fetchPage 100 (fun _ => Sample.gappedChain) Sample.query (fun _ => some 2)) byHeight 0
      (.height 0) visited ∧ (∀ response ∈ responses visited, ¬ response.HasControl)) ∧
    ¬ Intact Sample.gappedChain 0 2 := by
  refine ⟨Sample.served rfl (by decide), ?_, fun h => h.present 1 (by decide) (by decide) (by decide)⟩
  have hfollow : (follow (fetchPage 100 (fun _ => Sample.gappedChain) Sample.query (fun _ => some 2)) byHeight 2 0
      (.height 0)).map (fun visited => decide (∀ response ∈ responses visited, ¬ response.HasControl)) = some true := by
    decide
  obtain ⟨visited, hpages, hcontrol⟩ := exists_pages_of_follow 2 hfollow
  exact ⟨visited, hpages, of_decide_eq_true hcontrol⟩

end NocyWalletFeed
