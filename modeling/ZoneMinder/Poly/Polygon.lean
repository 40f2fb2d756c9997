import Mathlib.Data.Rat.Floor
import ZoneMinder.Lib.Pairs
import ZoneMinder.Lib.Rounding

namespace ZoneMinder.Poly

open Lib

@[ext] structure Vector2 where
  x : ℤ
  y : ℤ
  deriving DecidableEq

namespace Vector2

def inf : Vector2 := ⟨2147483647, 2147483647⟩

instance : Add Vector2 := ⟨fun v w ↦ ⟨v.x + w.x, v.y + w.y⟩⟩

instance : Sub Vector2 := ⟨fun v w ↦ ⟨v.x - w.x, v.y - w.y⟩⟩

/-- The product with a number, rounded. -/
def scale (v : Vector2) (t : ℚ) : Vector2 := ⟨roundAway (v.x * t), roundAway (v.y * t)⟩

def determinant (v w : Vector2) : ℤ := v.x * w.y - v.y * w.x

@[simp] theorem add_x (v w : Vector2) : (v + w).x = v.x + w.x := rfl
@[simp] theorem add_y (v w : Vector2) : (v + w).y = v.y + w.y := rfl
@[simp] theorem sub_x (v w : Vector2) : (v - w).x = v.x - w.x := rfl
@[simp] theorem sub_y (v w : Vector2) : (v - w).y = v.y - w.y := rfl
@[simp] theorem scale_x (v : Vector2) (t : ℚ) : (v.scale t).x = roundAway (v.x * t) := rfl
@[simp] theorem scale_y (v : Vector2) (t : ℚ) : (v.scale t).y = roundAway (v.y * t) := rfl

theorem scale_one (v : Vector2) : v.scale 1 = v := by ext <;> simp

end Vector2

structure LineSegment where
  start : Vector2
  end_ : Vector2

structure Box where
  lo : Vector2
  hi : Vector2
  deriving DecidableEq

namespace Box

variable (box : Box)

/-- Counter-clockwise. -/
def edges : List LineSegment :=
  let v₀ := box.lo
  let v₁ : Vector2 := ⟨box.hi.x, box.lo.y⟩
  let v₂ := box.hi
  let v₃ : Vector2 := ⟨box.lo.x, box.hi.y⟩
  [⟨v₀, v₁⟩, ⟨v₁, v₂⟩, ⟨v₂, v₃⟩, ⟨v₃, v₀⟩]

def contains (coord : Vector2) : Bool :=
  decide (box.lo.x ≤ coord.x) && decide (coord.x ≤ box.hi.x) && decide (box.lo.y ≤ coord.y) &&
    decide (coord.y ≤ box.hi.y)

/-- The sizes are unsigned: of a box that is turned around they wrap. -/
def width : ℤ := (box.hi.x - box.lo.x) % 2 ^ 32

def height : ℤ := (box.hi.y - box.lo.y) % 2 ^ 32

theorem contains_iff {box : Box} {coord : Vector2} : box.contains coord = true ↔
    (box.lo.x ≤ coord.x ∧ coord.x ≤ box.hi.x) ∧ box.lo.y ≤ coord.y ∧ coord.y ≤ box.hi.y := by
  simp only [contains, Bool.and_eq_true, decide_eq_true_eq, and_assoc]

end Box

structure Polygon where
  vertices : List Vector2 := []
  extent : Box := ⟨⟨0, 0⟩, ⟨0, 0⟩⟩
  area : ℤ := 0
  deriving DecidableEq

/-- The edges in the order of the loops with `j = i++`: each vertex with the one before it, the
last of the list for the first. -/
def edges (vertices : List Vector2) : List (Vector2 × Vector2) :=
  (vertices.rotate (vertices.length - 1)).zip vertices

namespace Polygon

variable (p : Polygon)

/-- The maxima start at zero, the minima at the first vertex. -/
def updateExtent : Polygon :=
  match p.vertices with
  | [] => p
  | v :: _ =>
    { p with
      extent :=
        ⟨⟨p.vertices.foldl (fun m w ↦ min m w.x) v.x, p.vertices.foldl (fun m w ↦ min m w.y) v.y⟩,
          ⟨p.vertices.foldl (fun m w ↦ max m w.x) 0, p.vertices.foldl (fun m w ↦ max m w.y) 0⟩⟩ }

def trapArea (edge : Vector2 × Vector2) : ℚ :=
  (edge.2.x - edge.1.x) * (edge.2.y + edge.1.y) / 2

def updateArea : Polygon :=
  { p with area := roundAway |((edges p.vertices).map trapArea).sum| }

/-- The constructor; the centre is left out. -/
def ofVertices (vertices : List Vector2) : Polygon :=
  ({ vertices } : Polygon).updateExtent.updateArea

@[simp] theorem vertices_updateExtent : p.updateExtent.vertices = p.vertices := by
  rw [updateExtent]
  split <;> rfl

@[simp] theorem vertices_updateArea : p.updateArea.vertices = p.vertices := by
  rw [updateArea]

@[simp] theorem vertices_ofVertices (vertices : List Vector2) :
    (ofVertices vertices).vertices = vertices := by
  rw [ofVertices, vertices_updateArea, vertices_updateExtent]

end Polygon

section

variable {α : Type*} (f : α → ℤ)

theorem foldl_min_le (l : List α) (m : ℤ) : l.foldl (fun m a ↦ min m (f a)) m ≤ m ∧
    ∀ a ∈ l, l.foldl (fun m a ↦ min m (f a)) m ≤ f a := by
  induction l generalizing m with
  | nil => exact ⟨Int.le_refl m, fun _ h ↦ absurd h List.not_mem_nil⟩
  | cons a l ih =>
    obtain ⟨hm, hl⟩ := ih (min m (f a))
    rw [List.foldl_cons, List.forall_mem_cons]
    exact ⟨hm.trans (min_le_left _ _), hm.trans (min_le_right _ _), hl⟩

theorem le_foldl_min {l : List α} {b m : ℤ} (hm : b ≤ m) (hl : ∀ a ∈ l, b ≤ f a) :
    b ≤ l.foldl (fun m a ↦ min m (f a)) m := by
  induction l generalizing m with
  | nil => exact hm
  | cons a l ih =>
    rw [List.forall_mem_cons] at hl
    exact ih (le_min hm hl.1) hl.2

theorem le_foldl_max (l : List α) (m : ℤ) : m ≤ l.foldl (fun m a ↦ max m (f a)) m ∧
    ∀ a ∈ l, f a ≤ l.foldl (fun m a ↦ max m (f a)) m := by
  induction l generalizing m with
  | nil => exact ⟨Int.le_refl m, fun _ h ↦ absurd h List.not_mem_nil⟩
  | cons a l ih =>
    obtain ⟨hm, hl⟩ := ih (max m (f a))
    rw [List.foldl_cons, List.forall_mem_cons]
    exact ⟨(le_max_left _ _).trans hm, (le_max_right _ _).trans hm, hl⟩

end

namespace Polygon

theorem extent_ofVertices {vertices : List Vector2} {v : Vector2} (hv : v ∈ vertices) :
    (ofVertices vertices).extent.lo.y ≤ v.y ∧ v.y ≤ (ofVertices vertices).extent.hi.y := by
  cases vertices with
  | nil => exact absurd hv List.not_mem_nil
  | cons w vertices =>
    exact ⟨(foldl_min_le Vector2.y _ _).2 v hv, (le_foldl_max Vector2.y _ _).2 v hv⟩

theorem extent_nonneg {vertices : List Vector2} (h : ∀ v ∈ vertices, 0 ≤ v.y) :
    0 ≤ (ofVertices vertices).extent.lo.y := by
  cases vertices with
  | nil => exact Int.le_refl 0
  | cons v vertices => exact le_foldl_min Vector2.y (h v List.mem_cons_self) h

end Polygon

theorem edges_eq {vertices : List Vector2} :
    edges vertices = cyclicPairs (vertices.rotate (vertices.length - 1)) := by
  have hround : (vertices.rotate (vertices.length - 1)).rotate 1 = vertices := by
    rcases vertices.eq_nil_or_concat with rfl | ⟨vs, v, rfl⟩
    · simp
    · have hlength : (vs.concat v).length = vs.length + 1 := List.length_concat
      rw [List.rotate_rotate, hlength, Nat.add_sub_cancel, ← hlength, List.rotate_length]
  rw [edges, cyclicPairs, hround]

theorem mem_of_mem_edges {vertices : List Vector2} {edge : Vector2 × Vector2}
    (h : edge ∈ edges vertices) : edge.1 ∈ vertices ∧ edge.2 ∈ vertices := by
  rw [edges_eq] at h
  have hmem := mem_of_mem_cyclicPairs h
  exact ⟨List.mem_rotate.mp hmem.1, List.mem_rotate.mp hmem.2⟩

/-- A closed outline comes back from wherever it goes. -/
theorem two_le_countP_edges {vertices : List Vector2} (p : Vector2 → Bool) {v w : Vector2}
    (hv : v ∈ vertices) (hw : w ∈ vertices) (hne : p v ≠ p w) :
    2 ≤ (edges vertices).countP fun e ↦ p e.1 != p e.2 := by
  rw [edges_eq]
  exact two_le_countP_ne (List.mem_rotate.mpr hv) (List.mem_rotate.mpr hw) hne

end ZoneMinder.Poly
