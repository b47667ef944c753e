/-
Drawing on a grid whose points are the cells of a linear memory.

A drawing operation is the list of the dots it makes, each with the point it is meant for, the
cell it goes to, and the value.  What a drawing covers is a question about the points; what the
memory holds afterwards is one about the cells.  The two meet where every dot goes to the cell
of its point.
-/
import Mathlib.Logic.Function.Basic
import Mathlib.Algebra.Group.Int.Defs
import Mathlib.Data.Int.Order.Basic
import Mathlib.Data.List.Range

namespace Raster

/-! ### Areas -/

/-- A rectangle of points, empty when a side of it is not positive. -/
structure Area where
  x : Int
  y : Int
  width : Int
  height : Int
  deriving DecidableEq, Repr

namespace Area

variable {r s : Area} {px py qx qy : Int}

def Has (r : Area) (px py : Int) : Prop :=
  r.x ≤ px ∧ px < r.x + r.width ∧ r.y ≤ py ∧ py < r.y + r.height

instance : Decidable (r.Has px py) :=
  inferInstanceAs (Decidable (r.x ≤ px ∧ px < r.x + r.width ∧ r.y ≤ py ∧ py < r.y + r.height))

/-- Every point of the area is one of the other. -/
def Inside (r s : Area) : Prop := ∀ px py, r.Has px py → s.Has px py

/-- The common part of two areas. -/
def inter (r s : Area) : Area where
  x := max r.x s.x
  y := max r.y s.y
  width := min (r.x + r.width) (s.x + s.width) - max r.x s.x
  height := min (r.y + r.height) (s.y + s.height) - max r.y s.y

/-- What lies between two points of an area is in it. -/
theorem Has.between (hp : r.Has px py) (hq : r.Has qx qy) {a b : Int}
    (ha : min px qx ≤ a ∧ a ≤ max px qx) (hb : min py qy ≤ b ∧ b ≤ max py qy) : r.Has a b := by
  obtain ⟨h₁, h₂, h₃, h₄⟩ := hp
  obtain ⟨k₁, k₂, k₃, k₄⟩ := hq
  exact ⟨by omega, by omega, by omega, by omega⟩

/-- An area that is not empty is covered by another as soon as its corners are. -/
theorem corners_iff (hwidth : 0 < r.width) (hheight : 0 < r.height) :
    r.Inside s ↔ s.Has r.x r.y ∧ s.Has (r.x + r.width - 1) (r.y + r.height - 1) := by
  constructor
  · intro hall
    exact ⟨hall _ _ ⟨by omega, by omega, by omega, by omega⟩,
      hall _ _ ⟨by omega, by omega, by omega, by omega⟩⟩
  · rintro ⟨hfirst, hlast⟩ px py ⟨h₁, h₂, h₃, h₄⟩
    exact hfirst.between hlast ⟨by omega, by omega⟩ ⟨by omega, by omega⟩

end Area

/-! ### Dots -/

variable {α : Type}

structure Dot (α : Type) where
  x : Int
  y : Int
  cell : Int
  value : α
  deriving DecidableEq, Repr

/-- One of the dots is meant for the point. -/
def Covers (dots : List (Dot α)) (px py : Int) : Prop := ∃ d ∈ dots, d.x = px ∧ d.y = py

section Covers

variable {dots dots' : List (Dot α)} {px py : Int}

@[simp] theorem covers_nil : Covers ([] : List (Dot α)) px py ↔ False := by simp [Covers]

@[simp] theorem covers_append :
    Covers (dots ++ dots') px py ↔ Covers dots px py ∨ Covers dots' px py := by
  simp only [Covers, List.mem_append, or_and_right, exists_or]

theorem covers_flatMap {β : Type} {l : List β} {f : β → List (Dot α)} :
    Covers (l.flatMap f) px py ↔ ∃ b ∈ l, Covers (f b) px py := by
  simp only [Covers, List.mem_flatMap]
  constructor
  · rintro ⟨d, ⟨b, hb, hd⟩, hat⟩
    exact ⟨b, hb, d, hd, hat⟩
  · rintro ⟨b, hb, d, hd, hat⟩
    exact ⟨d, ⟨b, hb, hd⟩, hat⟩

/-- The points of the grid that a loop over a number of steps comes to. -/
theorem covers_range {n : Nat} {f : Nat → Dot α} :
    Covers ((List.range n).map f) px py ↔ ∃ i, i < n ∧ (f i).x = px ∧ (f i).y = py := by
  simp [Covers]

end Covers

/-! ### The memory -/

/-- The memory after the dots, in their order. -/
def paint (m : Int → α) (dots : List (Dot α)) : Int → α :=
  dots.foldl (fun m d => Function.update m d.cell d.value) m

section Paint

variable {m m' : Int → α} {dots dots' : List (Dot α)} {o : Int}

theorem paint_cons {d : Dot α} :
    paint m (d :: dots) = paint (Function.update m d.cell d.value) dots := rfl

/-- Cells of no dot keep their value. -/
theorem paint_other (hnone : ∀ d ∈ dots, d.cell ≠ o) : paint m dots o = m o := by
  induction dots generalizing m with
  | nil => rfl
  | cons d rest ih =>
      have hrest : ∀ e ∈ rest, e.cell ≠ o := fun e he => hnone e (List.mem_cons_of_mem d he)
      have hne : o ≠ d.cell := (hnone d (List.mem_cons_self ..)).symm
      rw [paint_cons, ih hrest, Function.update_of_ne hne]

/-- Two memories that agree at a cell agree there after the same dots. -/
theorem paint_congr (hsame : m o = m' o) : paint m dots o = paint m' dots o := by
  induction dots generalizing m m' with
  | nil => exact hsame
  | cons d rest ih =>
      rw [paint_cons, paint_cons]
      refine ih ?_
      by_cases heq : o = d.cell
      · rw [heq, Function.update_self, Function.update_self]
      · rw [Function.update_of_ne heq, Function.update_of_ne heq, hsame]

/-- A cell that dots of one value go to has that value. -/
theorem paint_value {v : α} (hvalue : ∀ d ∈ dots, d.value = v) (hsome : ∃ d ∈ dots, d.cell = o) :
    paint m dots o = v := by
  induction dots generalizing m with
  | nil =>
      obtain ⟨d, hd, -⟩ := hsome
      exact absurd hd List.not_mem_nil
  | cons d rest ih =>
      have hrest : ∀ e ∈ rest, e.value = v := fun e he => hvalue e (List.mem_cons_of_mem d he)
      by_cases hlater : ∃ e ∈ rest, e.cell = o
      · exact ih hrest hlater
      · have hnone : ∀ e ∈ rest, e.cell ≠ o := fun e he heq => hlater ⟨e, he, heq⟩
        obtain ⟨e, he, hcell⟩ := hsome
        rcases List.mem_cons.mp he with rfl | he
        · rw [paint_cons, paint_other hnone, hcell, Function.update_self]
          exact hvalue e (List.mem_cons_self ..)
        · exact absurd hcell (hnone e he)

/-- **Dots of one value paint the same memory in any order and number.** -/
theorem paint_same_cells {v : α} (hvalue : ∀ d ∈ dots, d.value = v)
    (hvalue' : ∀ d ∈ dots', d.value = v)
    (hcells : ∀ o, (∃ d ∈ dots, d.cell = o) ↔ ∃ d ∈ dots', d.cell = o) :
    paint m dots = paint m dots' := by
  funext o
  by_cases hsome : ∃ d ∈ dots, d.cell = o
  · rw [paint_value hvalue hsome, paint_value hvalue' ((hcells o).mp hsome)]
  · have hsome' : ¬ ∃ d ∈ dots', d.cell = o := fun h => hsome ((hcells o).mpr h)
    rw [paint_other fun d hd heq => hsome ⟨d, hd, heq⟩,
      paint_other fun d hd heq => hsome' ⟨d, hd, heq⟩]

end Paint

/-! ### Dots at their cells -/

/-- Every dot goes to the cell of its point. -/
def AtCells (cell : Int → Int → Int) (dots : List (Dot α)) : Prop :=
  ∀ d ∈ dots, d.cell = cell d.x d.y

section AtCells

variable {cell : Int → Int → Int} {m : Int → α} {dots dots' : List (Dot α)} {o : Int}

theorem AtCells.cell_iff (h : AtCells cell dots) :
    (∃ d ∈ dots, d.cell = o) ↔ ∃ px py, Covers dots px py ∧ cell px py = o := by
  constructor
  · rintro ⟨d, hd, heq⟩
    exact ⟨d.x, d.y, ⟨d, hd, rfl, rfl⟩, (h d hd).symm.trans heq⟩
  · rintro ⟨px, py, ⟨d, hd, rfl, rfl⟩, heq⟩
    exact ⟨d, hd, (h d hd).trans heq⟩

/-- **Two drawings in one value that cover the same points paint the same memory.** -/
theorem paint_same_points {v : α} (hdots : AtCells cell dots) (hdots' : AtCells cell dots')
    (hvalue : ∀ d ∈ dots, d.value = v) (hvalue' : ∀ d ∈ dots', d.value = v)
    (hpoints : ∀ px py, Covers dots px py ↔ Covers dots' px py) :
    paint m dots = paint m dots' := by
  refine paint_same_cells hvalue hvalue' fun o => ?_
  rw [hdots.cell_iff, hdots'.cell_iff]
  simp only [hpoints]

end AtCells

end Raster
