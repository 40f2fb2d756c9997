import Mathlib.Tactic.FieldSimp
import Mathlib.Tactic.Linarith
import ZoneMinder.Poly.Polygon

namespace ZoneMinder.Poly

open Lib

structure Line where
  position : Vector2
  direction : Vector2

namespace Line

def through (p₁ p₂ : Vector2) : Line := ⟨p₁, p₂ - p₁⟩

def ofSegment (segment : LineSegment) : Line := through segment.start segment.end_

def isPointLeftOfOrColinear (line : Line) (p : Vector2) : Bool :=
  decide (0 ≤ line.direction.determinant (p - line.position))

def intersection (self line : Line) : Vector2 :=
  let det := self.direction.determinant line.direction
  if det = 0 then Vector2.inf
  else
    let c := line.position - self.position
    let t : ℚ := c.determinant line.direction / det
    self.position + self.direction.scale t

end Line

/-- What a pass puts on its list: a vertex, or the intersection of a line with that of the pass. -/
inductive Corner
  | vertex (v : Vector2)
  | intersection (line clipLine : Line)

namespace Corner

def point : Corner → Vector2
  | vertex v => v
  | intersection line clipLine => line.intersection clipLine

def lines : Corner → Option (Line × Line)
  | vertex _ => none
  | intersection line clipLine => some (line, clipLine)

end Corner

def corners (clipLine : Line) (vert₁ vert₂ : Vector2) : List Corner :=
  let vert₁Left := clipLine.isPointLeftOfOrColinear vert₁
  let vert₂Left := clipLine.isPointLeftOfOrColinear vert₂
  if vert₂Left then
    (if vert₁Left then [] else [.intersection (.through vert₁ vert₂) clipLine]) ++ [.vertex vert₂]
  else if vert₁Left then [.intersection (.through vert₁ vert₂) clipLine]
  else []

/-- The vertices so far, and the lines of each call of Intersection. -/
structure Clipping where
  vertices : List Vector2
  intersected : List (Line × Line) := []

def Clipping.pass (c : Clipping) (clipEdge : LineSegment) : Clipping :=
  let clipped := (cyclicPairs c.vertices).flatMap fun (vert₁, vert₂) ↦
    corners (.ofSegment clipEdge) vert₁ vert₂
  { vertices := clipped.map Corner.point
    intersected := c.intersected ++ clipped.filterMap Corner.lines }

def clipping (boundary : Box) (vertices : List Vector2) : Clipping :=
  boundary.edges.foldl Clipping.pass { vertices }

def Polygon.clip (p : Polygon) (boundary : Box) : Polygon :=
  ({ p with vertices := (clipping boundary p.vertices).vertices } : Polygon).updateExtent.updateArea

section

variable {line clipLine : Line} {v w u : Vector2} {vertices : List Vector2} {f : Vector2 → ℤ}
  {b k : ℤ} {boundary : Box} {p : Polygon}

/-- How far a point is to the left of a line. -/
def Line.side (line : Line) (v : Vector2) : ℤ := line.direction.determinant (v - line.position)

theorem Line.left_iff : line.isPointLeftOfOrColinear v = true ↔ 0 ≤ line.side v := decide_eq_true_iff

theorem determinant_through (v w : Vector2) (line : Line) :
    (Line.through v w).direction.determinant line.direction = line.side v - line.side w := by
  simp only [Line.through, Line.side, Vector2.determinant, Vector2.sub_x, Vector2.sub_y]
  ring

/-- Only a line that crosses the line of the pass is intersected with it. -/
theorem side_ne (h : line.isPointLeftOfOrColinear v ≠ line.isPointLeftOfOrColinear w) :
    line.side v - line.side w ≠ 0 := by
  intro heq
  rw [ne_eq, Bool.eq_iff_iff, Line.left_iff, Line.left_iff, sub_eq_zero.mp heq] at h
  exact h Iff.rfl

theorem intersection_eq
    (h : line.isPointLeftOfOrColinear v ≠ line.isPointLeftOfOrColinear w) :
    (Line.through v w).intersection line =
      v + (w - v).scale (line.side v / (line.side v - line.side w : ℤ)) := by
  have hc : (line.position - v).determinant line.direction = line.side v := by
    simp only [Line.side, Vector2.determinant, Vector2.sub_x, Vector2.sub_y]
    ring
  rw [Line.intersection, determinant_through, if_neg (side_ne h)]
  rw [← hc]
  rfl

/-- A coordinate, or its negative. -/
def Axis (f : Vector2 → ℤ) : Prop :=
  ∀ (v w : Vector2) (t : ℚ), f (v + (w - v).scale t) = f v + roundAway ((f w - f v : ℤ) * t)

theorem axis_x : Axis Vector2.x := fun _ _ _ ↦ rfl

theorem axis_y : Axis Vector2.y := fun _ _ _ ↦ rfl

theorem Axis.neg (h : Axis f) : Axis fun v ↦ -f v := by
  intro v w t
  have hneg : ((-f w - -f v : ℤ) : ℚ) * t = -((f w - f v : ℤ) * t) := by
    push_cast
    ring
  change -f (v + (w - v).scale t) = -f v + roundAway (((-f w - -f v : ℤ) : ℚ) * t)
  rw [h, neg_add, hneg, roundAway_neg]

theorem le_intersection (hf : Axis f)
    (h : line.isPointLeftOfOrColinear v ≠ line.isPointLeftOfOrColinear w) (hv : b ≤ f v)
    (hw : b ≤ f w) : b ≤ f ((Line.through v w).intersection line) := by
  rw [intersection_eq h, hf]
  have ht : (0 : ℚ) ≤ line.side v / (line.side v - line.side w : ℤ) ∧
      (line.side v / (line.side v - line.side w : ℤ) : ℚ) ≤ 1 := by
    have hne := side_ne h
    rw [ne_eq, Bool.eq_iff_iff, Line.left_iff, Line.left_iff] at h
    rcases lt_or_ge (line.side v) 0 with hneg | hnonneg
    · have hw' : 0 ≤ line.side w := by
        by_contra hw'
        exact h (iff_of_false (not_le.mpr hneg) hw')
      have hden : ((line.side v - line.side w : ℤ) : ℚ) < 0 := Int.cast_lt_zero.mpr (by omega)
      refine ⟨div_nonneg_of_nonpos (Int.cast_nonpos.mpr hneg.le) hden.le, ?_⟩
      rw [div_le_one_of_neg hden]
      exact_mod_cast (by omega : line.side v - line.side w ≤ line.side v)
    · have hw' : line.side w < 0 := by
        by_contra hw'
        exact h (iff_of_true hnonneg (not_lt.mp hw'))
      have hden : (0 : ℚ) < (line.side v - line.side w : ℤ) := Int.cast_pos.mpr (by omega)
      refine ⟨div_nonneg (Int.cast_nonneg hnonneg) hden.le, ?_⟩
      rw [div_le_one hden]
      exact_mod_cast (by omega : line.side v ≤ line.side v - line.side w)
  rcases le_total (f v) (f w) with hle | hle
  · have hround : 0 ≤ roundAway (((f w - f v : ℤ) : ℚ) *
        (line.side v / (line.side v - line.side w : ℤ))) := by
      apply le_roundAway
      rw [Int.cast_zero]
      exact mul_nonneg (Int.cast_nonneg (by omega)) ht.1
    omega
  · have hround : f w - f v ≤ roundAway (((f w - f v : ℤ) : ℚ) *
        (line.side v / (line.side v - line.side w : ℤ))) := by
      apply le_roundAway
      have hd : ((f w - f v : ℤ) : ℚ) ≤ 0 := Int.cast_nonpos.mpr (by omega)
      linarith [mul_le_mul_of_nonpos_left ht.2 hd]
    omega

theorem intersection_on (hf : Axis f) (hline : ∀ v, line.side v = k * (f v - b))
    (h : line.isPointLeftOfOrColinear v ≠ line.isPointLeftOfOrColinear w) :
    f ((Line.through v w).intersection line) = b := by
  have hne := side_ne h
  have hden : ((line.side v - line.side w : ℤ) : ℚ) ≠ 0 := Int.cast_ne_zero.mpr hne
  have hprod : ((f w - f v : ℤ) : ℚ) * (line.side v / (line.side v - line.side w : ℤ)) =
      (b - f v : ℤ) := by
    rw [mul_div_assoc', div_eq_iff hden, ← Int.cast_mul, ← Int.cast_mul, Int.cast_inj, hline, hline]
    ring
  rw [intersection_eq h, hf, hprod, roundAway_intCast]
  omega

/-- The vertices that one pass leaves. -/
def passed (clipLine : Line) (vertices : List Vector2) : List Vector2 :=
  ((cyclicPairs vertices).flatMap fun (vert₁, vert₂) ↦ corners clipLine vert₁ vert₂).map Corner.point

theorem mem_corners {corner : Corner} : corner ∈ corners line v w ↔
    corner = .vertex w ∧ line.isPointLeftOfOrColinear w = true ∨
      corner = .intersection (.through v w) line ∧
        line.isPointLeftOfOrColinear v ≠ line.isPointLeftOfOrColinear w := by
  rw [corners]
  cases line.isPointLeftOfOrColinear v <;> cases line.isPointLeftOfOrColinear w <;>
    simp [or_comm]

theorem mem_passed : u ∈ passed line vertices ↔
    u ∈ vertices ∧ line.isPointLeftOfOrColinear u = true ∨
      ∃ e ∈ cyclicPairs vertices,
        line.isPointLeftOfOrColinear e.1 ≠ line.isPointLeftOfOrColinear e.2 ∧
          u = (Line.through e.1 e.2).intersection line := by
  rw [passed, List.mem_map]
  simp only [List.mem_flatMap, mem_corners]
  constructor
  · rintro ⟨_, ⟨e, he, ⟨rfl, hleft⟩ | ⟨rfl, hside⟩⟩, rfl⟩
    · exact Or.inl ⟨(mem_of_mem_cyclicPairs he).2, hleft⟩
    · exact Or.inr ⟨e, he, hside, rfl⟩
  · rintro (⟨hu, hleft⟩ | ⟨e, he, hside, rfl⟩)
    · obtain ⟨e, he, rfl⟩ := exists_mem_cyclicPairs hu
      exact ⟨_, ⟨e, he, Or.inl ⟨rfl, hleft⟩⟩, rfl⟩
    · exact ⟨_, ⟨e, he, Or.inr ⟨rfl, hside⟩⟩, rfl⟩

theorem passed_of_left (h : ∀ v ∈ vertices, line.isPointLeftOfOrColinear v = true) :
    passed line vertices = vertices.rotate 1 := by
  have hcorners : (cyclicPairs vertices).flatMap (fun (v, w) ↦ corners line v w) =
      (cyclicPairs vertices).map fun e ↦ Corner.vertex e.2 := by
    rw [List.map_eq_flatMap]
    apply List.flatMap_congr
    intro e he
    obtain ⟨h₁, h₂⟩ := mem_of_mem_cyclicPairs he
    simp [corners, h _ h₁, h _ h₂]
  rw [passed, hcorners, List.map_map, ← map_snd_cyclicPairs]
  rfl

theorem le_of_mem_passed (line : Line) (hf : Axis f) (h : ∀ v ∈ vertices, b ≤ f v) :
    ∀ v ∈ passed line vertices, b ≤ f v := by
  intro u hu
  rcases mem_passed.mp hu with ⟨hmem, -⟩ | ⟨e, he, hside, rfl⟩
  · exact h u hmem
  · obtain ⟨h₁, h₂⟩ := mem_of_mem_cyclicPairs he
    exact le_intersection hf hside (h _ h₁) (h _ h₂)

theorem within_of_mem_passed (hf : Axis f) (hk : 0 < k) (hline : ∀ v, line.side v = k * (f v - b)) :
    ∀ v ∈ passed line vertices, b ≤ f v := by
  intro u hu
  rcases mem_passed.mp hu with ⟨-, hleft⟩ | ⟨e, he, hside, rfl⟩
  · rw [Line.left_iff, hline] at hleft
    exact sub_nonneg.mp (nonneg_of_mul_nonneg_right hleft hk)
  · exact (intersection_on hf hline hside).ge

theorem mem_passed_of_le (hk : 0 < k) (hline : ∀ v, line.side v = k * (f v - b))
    (h : ∀ v ∈ vertices, f v ≤ b) : u ∈ passed line vertices ↔ u ∈ vertices ∧ f u = b := by
  have hleft {v : Vector2} (hv : v ∈ vertices) : line.isPointLeftOfOrColinear v = true ↔ f v = b := by
    rw [Line.left_iff, hline, mul_nonneg_iff_of_pos_left hk, sub_nonneg]
    exact ⟨fun hle ↦ (h v hv).antisymm hle, fun heq ↦ heq.ge⟩
  have hzero {v : Vector2} (hv : f v = b) : line.side v = 0 := by
    rw [hline, hv, sub_self, mul_zero]
  rw [mem_passed]
  constructor
  · rintro (⟨hmem, hl⟩ | ⟨e, he, hside, rfl⟩)
    · exact ⟨hmem, (hleft hmem).mp hl⟩
    · obtain ⟨h₁, h₂⟩ := mem_of_mem_cyclicPairs he
      -- one end is on the line, and the intersection is there
      have hone : f e.1 = b ∨ f e.2 = b := by
        by_contra hnone
        rw [not_or] at hnone
        rw [ne_eq, Bool.eq_iff_iff, hleft h₁, hleft h₂] at hside
        exact hside (iff_of_false hnone.1 hnone.2)
      have hne := side_ne hside
      rw [intersection_eq hside]
      rcases hone with hb | hb
      · have heq : e.1 + (e.2 - e.1).scale (line.side e.1 / (line.side e.1 - line.side e.2 : ℤ)) =
            e.1 := by
          ext <;> simp [hzero hb]
        rw [heq]
        exact ⟨h₁, hb⟩
      · have heq : e.1 + (e.2 - e.1).scale (line.side e.1 / (line.side e.1 - line.side e.2 : ℤ)) =
            e.2 := by
          rw [hzero hb, sub_zero] at hne ⊢
          rw [div_self (Int.cast_ne_zero.mpr hne), Vector2.scale_one]
          ext <;> simp
        rw [heq]
        exact ⟨h₂, hb⟩
  · rintro ⟨hmem, heq⟩
    exact Or.inl ⟨hmem, (hleft hmem).mpr heq⟩

end

namespace Box

variable (boundary : Box)

def bottom : Line := .through boundary.lo ⟨boundary.hi.x, boundary.lo.y⟩
def right : Line := .through ⟨boundary.hi.x, boundary.lo.y⟩ boundary.hi
def top : Line := .through boundary.hi ⟨boundary.lo.x, boundary.hi.y⟩
def left : Line := .through ⟨boundary.lo.x, boundary.hi.y⟩ boundary.lo

/-- The line on which a box lies that has no height, or no width. -/
def span : Line := if boundary.lo.x < boundary.hi.x then boundary.bottom else boundary.right

/-- A polygon that meets the line of such a box in the box only; a box without either has no line,
and every vertex counts. -/
def MeetsWithin (vertices : List Vector2) : Prop :=
  (∀ v ∈ vertices, boundary.span.side v = 0 → boundary.contains v = true) ∧
    ∀ e ∈ cyclicPairs vertices, boundary.span.isPointLeftOfOrColinear e.1 ≠
      boundary.span.isPointLeftOfOrColinear e.2 →
        boundary.contains ((Line.through e.1 e.2).intersection boundary.span) = true

end Box

/-- What is expected of a clipping. -/
structure ClipSound (p : Polygon) (boundary : Box) : Prop where
  contained : ∀ v ∈ (p.clip boundary).vertices, boundary.contains v = true
  /-- Intersection never sees parallel lines. -/
  crossing : ∀ l ∈ (clipping boundary p.vertices).intersected,
    l.1.direction.determinant l.2.direction ≠ 0
  idempotent : ((p.clip boundary).clip boundary).vertices ~r (p.clip boundary).vertices
  keeps : (∀ v ∈ p.vertices, boundary.contains v = true) → (p.clip boundary).vertices ~r p.vertices

section

variable {line : Line} {v : Vector2} {vertices : List Vector2} {f : Vector2 → ℤ} {b k : ℤ}
  {boundary : Box} {p : Polygon}

theorem side_bottom :
    boundary.bottom.side v = (boundary.hi.x - boundary.lo.x) * (v.y - boundary.lo.y) := by
  simp [Box.bottom, Line.side, Line.through, Vector2.determinant]

theorem side_right :
    boundary.right.side v = (boundary.hi.y - boundary.lo.y) * (-v.x - -boundary.hi.x) := by
  simp only [Box.right, Line.side, Line.through, Vector2.determinant, Vector2.sub_x, Vector2.sub_y]
  ring

theorem side_top :
    boundary.top.side v = (boundary.hi.x - boundary.lo.x) * (-v.y - -boundary.hi.y) := by
  simp only [Box.top, Line.side, Line.through, Vector2.determinant, Vector2.sub_x, Vector2.sub_y]
  ring

theorem side_left :
    boundary.left.side v = (boundary.hi.y - boundary.lo.y) * (v.x - boundary.lo.x) := by
  simp only [Box.left, Line.side, Line.through, Vector2.determinant, Vector2.sub_x, Vector2.sub_y]
  ring

theorem clip_vertices : (p.clip boundary).vertices =
    passed boundary.left (passed boundary.top (passed boundary.right
      (passed boundary.bottom p.vertices))) := by
  rw [Polygon.clip, Polygon.vertices_updateArea, Polygon.vertices_updateExtent]
  rfl

theorem intersected_pass {c : Clipping} {segment : LineSegment}
    (h : ∀ l ∈ c.intersected, l.1.direction.determinant l.2.direction ≠ 0) :
    ∀ l ∈ (c.pass segment).intersected, l.1.direction.determinant l.2.direction ≠ 0 := by
  intro l hl
  rcases List.mem_append.mp hl with hl | hl
  · exact h l hl
  · obtain ⟨corner, hcorner, hlines⟩ := List.mem_filterMap.mp hl
    obtain ⟨e, -, hcorner⟩ := List.mem_flatMap.mp hcorner
    rcases mem_corners.mp hcorner with ⟨rfl, -⟩ | ⟨rfl, hside⟩
    · exact absurd hlines (Option.some_ne_none l).symm
    · obtain rfl := Option.some.inj hlines
      rw [determinant_through]
      exact side_ne hside

theorem intersected_clipping : ∀ l ∈ (clipping boundary vertices).intersected,
    l.1.direction.determinant l.2.direction ≠ 0 := by
  have hrun (segments : List LineSegment) (c : Clipping)
      (h : ∀ l ∈ c.intersected, l.1.direction.determinant l.2.direction ≠ 0) :
      ∀ l ∈ (segments.foldl Clipping.pass c).intersected,
        l.1.direction.determinant l.2.direction ≠ 0 := by
    induction segments generalizing c with
    | nil => exact h
    | cons segment segments ih => exact ih _ (intersected_pass h)
  exact hrun boundary.edges _ (List.forall_mem_nil _)

theorem passed_of_side (h : ∀ v, line.side v = 0) : passed line vertices = vertices.rotate 1 :=
  passed_of_left fun v _ ↦ Line.left_iff.mpr (h v).ge

/-- What the four passes ask of a vertex; those along a side of length zero ask nothing. -/
def Box.Settled (boundary : Box) (vertices : List Vector2) : Prop :=
  ∀ v ∈ vertices,
    (boundary.lo.x < boundary.hi.x → boundary.lo.y ≤ v.y ∧ v.y ≤ boundary.hi.y) ∧
      (boundary.lo.y < boundary.hi.y → boundary.lo.x ≤ v.x ∧ v.x ≤ boundary.hi.x)

theorem settled_of_contains (h : ∀ v ∈ vertices, boundary.contains v = true) :
    boundary.Settled vertices :=
  fun v hv ↦ ⟨fun _ ↦ (Box.contains_iff.mp (h v hv)).2, fun _ ↦ (Box.contains_iff.mp (h v hv)).1⟩

theorem settled_clip : boundary.Settled (p.clip boundary).vertices := by
  intro v hv
  rw [clip_vertices] at hv
  constructor
  · intro hx
    have hk : 0 < boundary.hi.x - boundary.lo.x := by omega
    have hbottom : ∀ v ∈ passed boundary.bottom p.vertices, boundary.lo.y ≤ v.y :=
      within_of_mem_passed axis_y hk fun _ ↦ side_bottom
    have hlo := le_of_mem_passed boundary.left axis_y
      (le_of_mem_passed boundary.top axis_y
        (le_of_mem_passed boundary.right axis_y hbottom)) v hv
    have hhi := le_of_mem_passed boundary.left axis_y.neg
      (within_of_mem_passed axis_y.neg hk fun _ ↦ side_top) v hv
    exact ⟨hlo, neg_le_neg_iff.mp hhi⟩
  · intro hy
    have hk : 0 < boundary.hi.y - boundary.lo.y := by omega
    have hlo := within_of_mem_passed axis_x hk (fun _ ↦ side_left) v hv
    have hhi := le_of_mem_passed boundary.left axis_x.neg
      (le_of_mem_passed boundary.top axis_x.neg
        (within_of_mem_passed axis_x.neg hk fun _ ↦ side_right)) v hv
    exact ⟨hlo, neg_le_neg_iff.mp hhi⟩

/-- Four passes that clip nothing go round four times. -/
theorem clip_of_settled (hx : boundary.lo.x ≤ boundary.hi.x) (hy : boundary.lo.y ≤ boundary.hi.y)
    (h : boundary.Settled p.vertices) : (p.clip boundary).vertices ~r p.vertices := by
  have hleft {line : Line} {k : ℤ} (f : Vector2 → ℤ) (hk : 0 ≤ k) (hline : ∀ v, line.side v = k * f v)
      (hf : ∀ v ∈ p.vertices, 0 < k → 0 ≤ f v) (n : ℕ) :
      passed line (p.vertices.rotate n) = p.vertices.rotate (n + 1) := by
    rw [passed_of_left, List.rotate_rotate]
    intro v hv
    rw [Line.left_iff, hline]
    rcases hk.eq_or_lt with hzero | hpos
    · rw [← hzero, zero_mul]
    · exact mul_nonneg hk (hf v (List.mem_rotate.mp hv) hpos)
  have hw : 0 ≤ boundary.hi.x - boundary.lo.x := by omega
  have hh : 0 ≤ boundary.hi.y - boundary.lo.y := by omega
  have hzero : p.vertices = p.vertices.rotate 0 := (List.rotate_zero _).symm
  rw [clip_vertices, hzero,
    hleft _ hw (fun _ ↦ side_bottom) fun v hv hpos ↦ by have := (h v hv).1 (by omega); omega,
    hleft _ hh (fun _ ↦ side_right) fun v hv hpos ↦ by have := (h v hv).2 (by omega); omega,
    hleft _ hw (fun _ ↦ side_top) fun v hv hpos ↦ by have := (h v hv).1 (by omega); omega,
    hleft _ hh (fun _ ↦ side_left) fun v hv hpos ↦ by have := (h v hv).2 (by omega); omega,
    List.rotate_zero]
  exact List.IsRotated.symm ⟨_, rfl⟩

theorem forall_passed_on (vertices : List Vector2) (P : Vector2 → Prop) (hf : Axis f) (hk : 0 < k)
    (hline : ∀ v, line.side v = k * (f v - b)) :
    (∀ v ∈ passed line vertices, f v = b → P v) ↔
      (∀ v ∈ vertices, line.side v = 0 → P v) ∧
        ∀ e ∈ cyclicPairs vertices,
          line.isPointLeftOfOrColinear e.1 ≠ line.isPointLeftOfOrColinear e.2 →
            P ((Line.through e.1 e.2).intersection line) := by
  have hon (v : Vector2) : line.side v = 0 ↔ f v = b := by
    rw [hline, mul_eq_zero, or_iff_right hk.ne', sub_eq_zero]
  constructor
  · intro h
    refine ⟨fun v hv hside ↦ ?_, fun e he hside ↦ ?_⟩
    · exact h v (mem_passed.mpr (Or.inl ⟨hv, Line.left_iff.mpr hside.ge⟩)) ((hon v).mp hside)
    · exact h _ (mem_passed.mpr (Or.inr ⟨e, he, hside, rfl⟩)) (intersection_on hf hline hside)
  · rintro ⟨hvertices, hcross⟩ v hv hb
    rcases mem_passed.mp hv with ⟨hmem, -⟩ | ⟨e, he, hside, rfl⟩
    · exact hvertices v hmem ((hon v).mpr hb)
    · exact hcross e he hside

theorem mem_passed_back {u : Vector2} {back : Line} (hf : Axis f) (hk : 0 < k)
    (hline : ∀ v, line.side v = k * (f v - b)) (hback : ∀ v, back.side v = k * (-f v - -b)) :
    u ∈ passed back ((passed line vertices).rotate 1) ↔ u ∈ passed line vertices ∧ f u = b := by
  rw [mem_passed_of_le hk hback, List.mem_rotate, neg_inj]
  intro v hv
  exact neg_le_neg (within_of_mem_passed hf hk hline v (List.mem_rotate.mp hv))

/-- Without height or without width. -/
theorem contained_iff (hx : boundary.lo.x ≤ boundary.hi.x) (hy : boundary.lo.y ≤ boundary.hi.y)
    (hflat : ¬ (boundary.lo.x < boundary.hi.x ∧ boundary.lo.y < boundary.hi.y)) :
    (∀ v ∈ (p.clip boundary).vertices, boundary.contains v = true) ↔
      boundary.MeetsWithin p.vertices := by
  rw [clip_vertices, Box.MeetsWithin]
  by_cases hwidth : boundary.lo.x < boundary.hi.x
  · have hheight : boundary.hi.y = boundary.lo.y := by omega
    have hk : 0 < boundary.hi.x - boundary.lo.x := by omega
    have hright (v : Vector2) : boundary.right.side v = 0 := by simp [side_right, hheight]
    have hleft (v : Vector2) : boundary.left.side v = 0 := by simp [side_left, hheight]
    have hspan : boundary.span = boundary.bottom := if_pos hwidth
    have htop (v : Vector2) :
        boundary.top.side v = (boundary.hi.x - boundary.lo.x) * (-v.y - -boundary.lo.y) := by
      rw [side_top, hheight]
    rw [hspan, ← forall_passed_on _ _ axis_y hk fun _ ↦ side_bottom, passed_of_side hleft,
      passed_of_side hright]
    simp only [List.mem_rotate, mem_passed_back axis_y hk (fun _ ↦ side_bottom) htop, and_imp]
  · have hwidth' : boundary.hi.x = boundary.lo.x := by omega
    have hbottom (v : Vector2) : boundary.bottom.side v = 0 := by simp [side_bottom, hwidth']
    have htop (v : Vector2) : boundary.top.side v = 0 := by simp [side_top, hwidth']
    have hspan : boundary.span = boundary.right := if_neg hwidth
    rw [hspan, passed_of_side hbottom, passed_of_side htop]
    by_cases hheight : boundary.lo.y < boundary.hi.y
    · have hk : 0 < boundary.hi.y - boundary.lo.y := by omega
      have hleft (v : Vector2) :
          boundary.left.side v = (boundary.hi.y - boundary.lo.y) * (- -v.x - - -boundary.hi.x) := by
        rw [side_left, hwidth', neg_neg, neg_neg]
      have hmem := forall_passed_on (p.vertices.rotate 1)
        (fun v ↦ boundary.contains v = true) axis_x.neg hk fun _ ↦ side_right
      simp only [List.mem_rotate, cyclicPairs_rotate] at hmem
      rw [← hmem]
      simp only [mem_passed_back axis_x.neg hk (fun _ ↦ side_right) hleft, and_imp]
    · have hheight' : boundary.hi.y = boundary.lo.y := by omega
      have hright (v : Vector2) : boundary.right.side v = 0 := by simp [side_right, hheight']
      have hleft (v : Vector2) : boundary.left.side v = 0 := by simp [side_left, hheight']
      have hnone (v w : Vector2) : boundary.right.isPointLeftOfOrColinear v =
          boundary.right.isPointLeftOfOrColinear w := by
        rw [Bool.eq_iff_iff, Line.left_iff, Line.left_iff, hright, hright]
      rw [passed_of_side hright, passed_of_side hleft]
      simp only [List.mem_rotate]
      constructor
      · intro h
        exact ⟨fun v hv _ ↦ h v hv, fun e _ hside ↦ absurd (hnone e.1 e.2) hside⟩
      · intro h v hv
        exact h.1 v hv (hright v)

/-- Exactly when Clip clips to the box. -/
theorem clip_sound_iff (p : Polygon) (boundary : Box) (hx : boundary.lo.x ≤ boundary.hi.x)
    (hy : boundary.lo.y ≤ boundary.hi.y) :
    ClipSound p boundary ↔
      boundary.lo.x < boundary.hi.x ∧ boundary.lo.y < boundary.hi.y ∨
        boundary.MeetsWithin p.vertices := by
  have hcontained : (∀ v ∈ (p.clip boundary).vertices, boundary.contains v = true) ↔
      boundary.lo.x < boundary.hi.x ∧ boundary.lo.y < boundary.hi.y ∨
        boundary.MeetsWithin p.vertices := by
    by_cases hflat : boundary.lo.x < boundary.hi.x ∧ boundary.lo.y < boundary.hi.y
    · refine iff_of_true ?_ (Or.inl hflat)
      intro v hv
      obtain ⟨h₁, h₂⟩ := settled_clip v hv
      exact Box.contains_iff.mpr ⟨h₂ hflat.2, h₁ hflat.1⟩
    · rw [contained_iff hx hy hflat, or_iff_right hflat]
  rw [← hcontained]
  constructor
  · exact ClipSound.contained
  · intro h
    exact {
      contained := h
      crossing := intersected_clipping
      idempotent := clip_of_settled hx hy settled_clip
      keeps := fun hinside ↦ clip_of_settled hx hy (settled_of_contains hinside) }

theorem clip_sound_iff_square :
    ((Polygon.ofVertices [⟨-5, 2⟩, ⟨5, -5⟩, ⟨15, 12⟩]).clip ⟨⟨0, 0⟩, ⟨10, 10⟩⟩).vertices =
      [⟨10, 9⟩, ⟨0, 4⟩, ⟨0, 0⟩, ⟨8, 0⟩, ⟨10, 3⟩] ∧
    ClipSound (.ofVertices [⟨-5, 2⟩, ⟨5, -5⟩, ⟨15, 12⟩]) ⟨⟨0, 0⟩, ⟨10, 10⟩⟩ :=
  ⟨by decide +kernel,
    (clip_sound_iff _ ⟨⟨0, 0⟩, ⟨10, 10⟩⟩ (by decide) (by decide)).mpr (.inl (by decide))⟩

/-- A box without width keeps what is above and below it. -/
theorem clip_not_sound : ¬ ClipSound (.ofVertices [⟨0, -5⟩, ⟨5, 0⟩, ⟨0, 5⟩]) ⟨⟨0, 0⟩, ⟨0, 10⟩⟩ := by
  intro h
  have hmeets := (contained_iff (by decide) (by decide) (by decide)).mp h.contained
  have hmem : (⟨0, -5⟩ : Vector2) ∈
      (Polygon.ofVertices [⟨0, -5⟩, ⟨5, 0⟩, ⟨0, 5⟩]).vertices := by
    rw [Polygon.ofVertices, Polygon.vertices_updateArea, Polygon.vertices_updateExtent]
    decide
  exact absurd (hmeets.1 _ hmem (by decide)) (by decide)

end

end ZoneMinder.Poly
