import NocyWalletFeed.Library.IntRange
import NocyWalletFeed.Library.Walk
import Mathlib.Order.Basic

/-!
# Tilings

Pieces with inclusive ends, each starting where the one before it ended.

* `Tiles lo hi a pieces` : the pieces tile the integers from `a` on;
* `tilesEnd hi a pieces` : the first integer after them;
* `tiles_append`, `tiles_map` : how tilings compose;
* `Tiles.exists_piece` : every integer in between lies in a piece;
* `Tiles.bounds` : no piece reaches beyond the ends;
* `Tiles.exists_last` : a tiling that is not empty ends with its last piece;
* `tiles_iff_flatMap_range` : pieces tile `[a, b)` when their integers, in order, are those of `[a, b)`.
-/

namespace Tiling
open Walk IntRange

variable {α : Type*} (lo hi : α → Int)

/-- A piece starts at the position and is not empty. -/
def StartsAt (a : Int) (piece : α) : Prop := lo piece = a ∧ lo piece ≤ hi piece

instance (a : Int) (piece : α) : Decidable (StartsAt lo hi a piece) := inferInstanceAs (Decidable (_ ∧ _))

def Tiles (a : Int) (pieces : List α) : Prop := Along (StartsAt lo hi) (fun _ piece => hi piece + 1) a pieces

/-- The first integer after the pieces. -/
def tilesEnd (a : Int) (pieces : List α) : Int := pieces.foldl (fun _ piece => hi piece + 1) a

variable {lo hi}

@[simp] theorem tiles_nil (a : Int) : Tiles lo hi a [] := trivial

@[simp] theorem tilesEnd_nil (a : Int) : tilesEnd hi a [] = a := rfl

theorem tiles_cons {a : Int} {piece : α} {pieces : List α} :
    Tiles lo hi a (piece :: pieces) ↔ StartsAt lo hi a piece ∧ Tiles lo hi (hi piece + 1) pieces := Iff.rfl

@[simp] theorem tilesEnd_cons (a : Int) (piece : α) (pieces : List α) :
    tilesEnd hi a (piece :: pieces) = tilesEnd hi (hi piece + 1) pieces := rfl

theorem tilesEnd_append (a : Int) (l l' : List α) : tilesEnd hi a (l ++ l') = tilesEnd hi (tilesEnd hi a l) l' :=
  List.foldl_append

theorem tiles_append {a : Int} {l l' : List α} :
    Tiles lo hi a (l ++ l') ↔ Tiles lo hi a l ∧ Tiles lo hi (tilesEnd hi a l) l' := along_append

theorem tiles_map {β : Type*} (f : β → α) {a : Int} {l : List β} :
    Tiles lo hi a (l.map f) ↔ Tiles (fun b => lo (f b)) (fun b => hi (f b)) a l := by
  induction l generalizing a with
  | nil => rfl
  | cons b l ih =>
    rw [List.map_cons, tiles_cons, tiles_cons, ih]
    rfl

theorem tilesEnd_map {β : Type*} (f : β → α) (a : Int) (l : List β) :
    tilesEnd hi a (l.map f) = tilesEnd (fun b => hi (f b)) a l := by
  induction l generalizing a with
  | nil => rfl
  | cons b l ih => exact ih (hi (f b) + 1)

theorem Tiles.le_tilesEnd {a : Int} {pieces : List α} (h : Tiles lo hi a pieces) : a ≤ tilesEnd hi a pieces := by
  induction pieces generalizing a with
  | nil => exact Int.le_refl a
  | cons piece pieces ih =>
    obtain ⟨⟨hlo, hle⟩, hrest⟩ := tiles_cons.mp h
    have := ih hrest
    rw [tilesEnd_cons]
    omega

theorem Tiles.bounds {a : Int} {pieces : List α} (h : Tiles lo hi a pieces) {piece : α} (hmem : piece ∈ pieces) :
    a ≤ lo piece ∧ lo piece ≤ hi piece ∧ hi piece < tilesEnd hi a pieces := by
  induction pieces generalizing a with
  | nil => cases hmem
  | cons first pieces ih =>
    obtain ⟨⟨hlo, hle⟩, hrest⟩ := tiles_cons.mp h
    have hend := hrest.le_tilesEnd
    rw [tilesEnd_cons]
    rcases List.mem_cons.mp hmem with rfl | hmem
    · omega
    · have := ih hrest hmem
      omega

theorem Tiles.exists_piece {a : Int} {pieces : List α} (h : Tiles lo hi a pieces) {i : Int} (hlo : a ≤ i)
    (hhi : i < tilesEnd hi a pieces) : ∃ piece ∈ pieces, lo piece ≤ i ∧ i ≤ hi piece := by
  induction pieces generalizing a with
  | nil => exact absurd hhi (Int.not_lt.mpr hlo)
  | cons first pieces ih =>
    obtain ⟨⟨hstart, hle⟩, hrest⟩ := tiles_cons.mp h
    rcases Int.lt_or_le (hi first) i with hout | hin
    · obtain ⟨piece, hmem, hpiece⟩ := ih hrest hout hhi
      exact ⟨piece, List.mem_cons_of_mem _ hmem, hpiece⟩
    · exact ⟨first, List.mem_cons_self, by omega, hin⟩

/-- A tiling that covers anything ends with a last piece, and the pieces before it end where it starts. -/
theorem Tiles.exists_last {a : Int} {pieces : List α} (h : Tiles lo hi a pieces) (hlt : a < tilesEnd hi a pieces) :
    ∃ pre last, pieces = pre ++ [last] ∧ hi last + 1 = tilesEnd hi a pieces ∧ lo last = tilesEnd hi a pre := by
  rcases List.eq_nil_or_concat pieces with rfl | ⟨pre, last, rfl⟩
  · exact absurd hlt (Int.lt_irrefl a)
  · rw [List.concat_eq_append] at h ⊢
    obtain ⟨-, hlast, -⟩ := tiles_append.mp h
    exact ⟨pre, last, rfl, by rw [tilesEnd_append, tilesEnd_cons, tilesEnd_nil], hlast.1⟩

/-- **A tiling is its integers.** Pieces tile `[a, b)` exactly when none is empty and their integers, one piece after
the other, are `a, …, b - 1`. -/
theorem tiles_iff_flatMap_range {a b : Int} (h : a ≤ b) {pieces : List α} :
    Tiles lo hi a pieces ∧ tilesEnd hi a pieces = b ↔
      (∀ piece ∈ pieces, lo piece ≤ hi piece) ∧
        pieces.flatMap (fun piece => Int.range (lo piece) (hi piece + 1)) = Int.range a b := by
  induction pieces generalizing a with
  | nil =>
    rw [List.flatMap_nil, tilesEnd_nil]
    constructor
    · rintro ⟨-, rfl⟩
      exact ⟨fun piece hpiece => absurd hpiece List.not_mem_nil, (range_eq_nil (Int.le_refl a)).symm⟩
    · rintro ⟨-, hnil⟩
      refine ⟨trivial, ?_⟩
      by_contra hne
      rw [range_cons (by omega : a < b)] at hnil
      cases hnil
  | cons first pieces ih =>
    rw [tiles_cons, tilesEnd_cons, List.flatMap_cons]
    constructor
    · rintro ⟨⟨⟨hstart, hle⟩, hrest⟩, hend⟩
      have hnext : hi first + 1 ≤ b := hend ▸ hrest.le_tilesEnd
      obtain ⟨hnonempty, hrange⟩ := (ih hnext).mp ⟨hrest, hend⟩
      refine ⟨List.forall_mem_cons.mpr ⟨hle, hnonempty⟩, ?_⟩
      rw [hrange, hstart, range_append (by omega) hnext]
    · rintro ⟨hnonempty, hrange⟩
      obtain ⟨hle, hnonempty⟩ := List.forall_mem_cons.mp hnonempty
      -- the integers of the first piece open the range, so the piece starts where the range does
      have hlt : a < b := by
        by_contra hge
        rw [range_eq_nil (Int.not_lt.mp hge), range_cons (by omega : lo first < hi first + 1)] at hrange
        cases hrange
      have hstart : lo first = a := by
        rw [range_cons (by omega : lo first < hi first + 1), range_cons hlt] at hrange
        exact (List.cons.inj hrange).1
      have hlast : hi first ∈ Int.range a b := by
        rw [← hrange]
        exact List.mem_append_left _ (Int.mem_range_iff.mpr ⟨hle, by omega⟩)
      have hnext : hi first + 1 ≤ b := by
        have := (Int.mem_range_iff.mp hlast).2
        omega
      rw [hstart, ← range_append (by omega : a ≤ hi first + 1) hnext] at hrange
      obtain ⟨htiles, hend⟩ := (ih hnext).mpr ⟨hnonempty, List.append_cancel_left hrange⟩
      exact ⟨⟨⟨hstart, hle⟩, htiles⟩, hend⟩

end Tiling
