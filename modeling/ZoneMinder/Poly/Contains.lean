import Mathlib.Algebra.Ring.Parity
import Mathlib.Tactic.FieldSimp
import Mathlib.Tactic.Linarith
import ZoneMinder.Poly.Polygon

namespace ZoneMinder.Poly

open Lib

section

variable (coord : Vector2) (edge : Vector2 × Vector2)

/-- One end of the edge is above the point's row, the other is not. -/
def straddles : Prop :=
  edge.2.y ≤ coord.y ∧ coord.y < edge.1.y ∨ edge.1.y ≤ coord.y ∧ coord.y < edge.2.y

instance : Decidable (straddles coord edge) := by unfold straddles; infer_instance

/-- The condition in Contains, with `j` before `i`; the division truncates. -/
def leftOfEdge : Bool :=
  let (j, i) := edge
  decide (straddles coord edge) &&
    decide (coord.x < ((j.x - i.x) * (coord.y - i.y)).tdiv (j.y - i.y) + i.x)

end

def Polygon.contains (p : Polygon) (coord : Vector2) : Bool :=
  (edges p.vertices).foldl (fun inside edge ↦ if leftOfEdge coord edge then !inside else inside)
    false

/-- Where the edge meets the point's row. -/
def crossingX (coord : Vector2) (edge : Vector2 × Vector2) : ℚ :=
  edge.1.x + (edge.2.x - edge.1.x) * (coord.y - edge.1.y) / (edge.2.y - edge.1.y)

/-- The even-odd rule: the edges to the right of a point are odd in number. -/
def EvenOdd (vertices : List Vector2) (coord : Vector2) : Prop :=
  Odd ((cyclicPairs vertices).countP fun edge ↦ straddles coord edge ∧ coord.x < crossingX coord edge)

/-- A point less than a pixel to the left of an edge, which meets its row between two pixels. -/
def Grazes (coord : Vector2) (edge : Vector2 × Vector2) : Prop :=
  straddles coord edge ∧ coord.x < crossingX coord edge ∧ crossingX coord edge < coord.x + 1

instance (coord : Vector2) (edge : Vector2 × Vector2) : Decidable (Grazes coord edge) := by
  unfold Grazes; infer_instance

/-- How many edges a point grazes along which x falls, in the order of the list. -/
def grazedFalling (vertices : List Vector2) (coord : Vector2) : ℕ :=
  (cyclicPairs vertices).countP fun edge ↦ Grazes coord edge ∧ edge.2.x < edge.1.x

def grazedRising (vertices : List Vector2) (coord : Vector2) : ℕ :=
  (cyclicPairs vertices).countP fun edge ↦ Grazes coord edge ∧ edge.1.x < edge.2.x

section

variable {vertices : List Vector2} {coord : Vector2} {edge : Vector2 × Vector2} {p : Polygon}

theorem straddles_swap : straddles coord edge.swap ↔ straddles coord edge := by
  rw [straddles, straddles, Prod.fst_swap, Prod.snd_swap]
  exact Or.comm

theorem straddles.ne (h : straddles coord edge) : edge.1.y - edge.2.y ≠ 0 := by
  unfold straddles at h
  omega

/-- From whichever end it is computed. -/
theorem crossingX_swap (h : straddles coord edge) :
    crossingX coord edge.swap = crossingX coord edge := by
  have hne : ((edge.1.y : ℚ) - edge.2.y) ≠ 0 := by exact_mod_cast h.ne
  have hne' : ((edge.2.y : ℚ) - edge.1.y) ≠ 0 := by rwa [← neg_ne_zero, neg_sub]
  rw [crossingX, crossingX, Prod.fst_swap, Prod.snd_swap]
  field_simp
  ring

theorem grazes_swap : Grazes coord edge.swap ↔ Grazes coord edge := by
  rw [Grazes, Grazes, straddles_swap]
  apply and_congr_right
  intro h
  rw [crossingX_swap h]

/-- The part of the edge up to the point's row. -/
theorem straddles.share_nonneg (h : straddles coord edge) :
    (0 : ℚ) ≤ (coord.y - edge.2.y) / (edge.1.y - edge.2.y) := by
  rcases h with ⟨h₁, h₂⟩ | ⟨h₁, h₂⟩
  · have h₁' : (edge.2.y : ℚ) ≤ coord.y := by exact_mod_cast h₁
    have h₂' : (coord.y : ℚ) < edge.1.y := by exact_mod_cast h₂
    exact div_nonneg (by linarith) (by linarith)
  · have h₁' : (edge.1.y : ℚ) ≤ coord.y := by exact_mod_cast h₁
    have h₂' : (coord.y : ℚ) < edge.2.y := by exact_mod_cast h₂
    exact div_nonneg_of_nonpos (by linarith) (by linarith)

/-- Truncation takes a point off the edge to its right when x falls along the edge. -/
theorem leftOfEdge_iff : leftOfEdge coord edge = true ↔
    straddles coord edge ∧ coord.x < crossingX coord edge ∧
      ¬ (Grazes coord edge ∧ edge.2.x < edge.1.x) := by
  obtain ⟨j, i⟩ := edge
  rw [leftOfEdge, Bool.and_eq_true, decide_eq_true_eq, decide_eq_true_eq]
  apply and_congr_right
  intro h
  have hne : j.y - i.y ≠ 0 := h.ne
  have hnonneg : (0 : ℚ) ≤ (coord.y - i.y) / (j.y - i.y) := h.share_nonneg
  obtain ⟨q, hq⟩ : ∃ q : ℚ, q = ((j.x - i.x) * (coord.y - i.y) : ℤ) / (j.y - i.y : ℤ) := ⟨_, rfl⟩
  have hcross : crossingX coord (j, i) = i.x + q := by
    rw [← crossingX_swap h, hq]
    push_cast
    rfl
  have hshare : q = (j.x - i.x) * ((coord.y - i.y) / (j.y - i.y)) := by
    rw [hq]
    push_cast
    rw [mul_div_assoc]
  rw [← sub_lt_iff_lt_add, lt_tdiv_iff (K := ℚ) hne, Grazes, hcross, ← hq, Int.cast_sub,
    sub_lt_iff_lt_add']
  apply and_congr_right
  intro hleft
  rw [not_iff_not]
  constructor
  · rintro ⟨hpos, hlt⟩
    refine ⟨⟨h, hleft, by linarith⟩, ?_⟩
    rw [hshare] at hpos
    have hx := pos_of_mul_pos_left hpos hnonneg
    exact_mod_cast sub_pos.mp hx
  · rintro ⟨⟨-, -, hlt⟩, hx⟩
    have hx' : (0 : ℚ) ≤ j.x - i.x := by
      rw [sub_nonneg]
      exact_mod_cast hx.le
    have hq' : 0 ≤ q := by
      rw [hshare]
      exact mul_nonneg hx' hnonneg
    refine ⟨hq'.lt_of_ne' ?_, by linarith⟩
    -- the crossing is between two pixels
    intro hzero
    rw [hzero, add_zero] at hleft hlt
    have h₁ : coord.x < i.x := by exact_mod_cast hleft
    have h₂ : i.x < coord.x + 1 := by exact_mod_cast hlt
    omega

theorem foldl_toggle {α : Type*} (f : α → Bool) (l : List α) (b : Bool) :
    l.foldl (fun inside a ↦ if f a then !inside else inside) b =
      xor b (decide (Odd (l.countP f))) := by
  induction l generalizing b with
  | nil => simp
  | cons a l ih =>
    rw [List.foldl_cons, ih, List.countP_cons]
    cases f a with
    | true =>
      by_cases hodd : Odd (l.countP f) <;> cases b <;> simp [hodd, Nat.odd_add_one]
    | false => simp

theorem contains_eq : p.contains coord =
    decide (Odd ((cyclicPairs p.vertices).countP (leftOfEdge coord))) := by
  rw [Polygon.contains, foldl_toggle, edges_eq, cyclicPairs_rotate,
    (List.rotate_perm _ _).countP_eq, Bool.false_xor]

theorem contains_ofVertices : (Polygon.ofVertices vertices).contains coord =
    decide (Odd ((cyclicPairs vertices).countP (leftOfEdge coord))) := by
  rw [contains_eq, Polygon.ofVertices, Polygon.vertices_updateArea, Polygon.vertices_updateExtent]

theorem countP_cyclicPairs_reverse (f : Vector2 × Vector2 → Bool) :
    (cyclicPairs vertices.reverse).countP f = (cyclicPairs vertices).countP (f ∘ Prod.swap) := by
  rw [cyclicPairs_reverse, (List.rotate_perm _ _).countP_eq, List.countP_reverse, List.countP_map]

theorem countP_right (coord : Vector2) (l : List (Vector2 × Vector2)) :
    l.countP (fun edge ↦ straddles coord edge ∧ coord.x < crossingX coord edge) =
      l.countP (leftOfEdge coord) +
        l.countP (fun edge ↦ Grazes coord edge ∧ edge.2.x < edge.1.x) := by
  induction l with
  | nil => rfl
  | cons edge l ih =>
    rw [List.countP_cons, List.countP_cons, List.countP_cons, ih]
    simp only [decide_eq_true_eq, leftOfEdge_iff]
    by_cases hslip : Grazes coord edge ∧ edge.2.x < edge.1.x
    · have hright : straddles coord edge ∧ coord.x < crossingX coord edge :=
        ⟨hslip.1.1, hslip.1.2.1⟩
      simp only [hslip, hright, not_true_eq_false, and_true, and_false, if_true, if_false]
      omega
    · simp only [hslip, not_false_eq_true, and_true, if_false]
      omega

theorem countP_right_reverse :
    (cyclicPairs vertices.reverse).countP
      (fun edge ↦ straddles coord edge ∧ coord.x < crossingX coord edge) =
    (cyclicPairs vertices).countP
      (fun edge ↦ straddles coord edge ∧ coord.x < crossingX coord edge) := by
  rw [countP_cyclicPairs_reverse]
  apply List.countP_congr
  intro edge _
  simp only [Function.comp_apply, decide_eq_true_eq, straddles_swap]
  apply and_congr_right
  intro h
  rw [crossingX_swap h]

theorem grazedFalling_reverse :
    grazedFalling vertices.reverse coord = grazedRising vertices coord := by
  rw [grazedFalling, grazedRising, countP_cyclicPairs_reverse]
  apply List.countP_congr
  intro edge _
  simp only [Function.comp_apply, decide_eq_true_eq, grazes_swap, Prod.fst_swap, Prod.snd_swap]

theorem contains_rotate (n : ℕ) : (Polygon.ofVertices (vertices.rotate n)).contains coord =
    (Polygon.ofVertices vertices).contains coord := by
  rw [contains_ofVertices, contains_ofVertices, cyclicPairs_rotate,
    (List.rotate_perm _ _).countP_eq]

/-- How Contains depends on the order of the vertices. -/
theorem contains_listed_iff (vertices : List Vector2) (coord : Vector2) :
    ((∀ n, (Polygon.ofVertices (vertices.rotate n)).contains coord =
        (Polygon.ofVertices vertices).contains coord) ∧
      (Polygon.ofVertices vertices.reverse).contains coord =
        (Polygon.ofVertices vertices).contains coord ∧
      ((Polygon.ofVertices vertices).contains coord = true ↔ EvenOdd vertices coord)) ↔
    Even (grazedFalling vertices coord) ∧ Even (grazedRising vertices coord) := by
  have hfalling := countP_right coord (cyclicPairs vertices)
  have hrising := countP_right coord (cyclicPairs vertices.reverse)
  change _ = _ + grazedFalling vertices coord at hfalling
  change _ = _ + grazedFalling vertices.reverse coord at hrising
  rw [countP_right_reverse, grazedFalling_reverse] at hrising
  rw [and_iff_right contains_rotate, contains_ofVertices, contains_ofVertices, EvenOdd,
    decide_eq_decide, decide_eq_true_eq, hfalling]
  simp only [Nat.odd_iff, Nat.even_iff]
  omega

/-- An edge to the right of the point, which is lost when the list is read backwards. -/
theorem contains_not_listed :
    ¬ ((Polygon.ofVertices [⟨0, 0⟩, ⟨1, 2⟩, ⟨-3, 2⟩].reverse).contains ⟨0, 1⟩ =
      (Polygon.ofVertices [⟨0, 0⟩, ⟨1, 2⟩, ⟨-3, 2⟩]).contains ⟨0, 1⟩) := by
  rw [contains_ofVertices, contains_ofVertices]
  decide

end

end ZoneMinder.Poly
