import Mathlib.Data.List.Sort
import ZoneMinder.Lib.Pairs
import ZoneMinder.Poly.Contains

namespace ZoneMinder.Poly

open Lib

/-- Where the edges meet a row, from left to right. An edge meets the rows from its upper end on,
but not the one of its lower end. -/
def crossings (vertices : List Vector2) (y : ℤ) : List ℚ :=
  (((edges vertices).filter fun edge ↦ straddles ⟨0, y⟩ edge).map
    (crossingX ⟨0, y⟩)).mergeSort (· ≤ ·)

/-- From a first crossing to a second, from a third to a fourth, and so on. -/
def Between (l : List ℚ) (x : ℤ) : Prop :=
  ∃ k, ∃ a ∈ l[2 * k]?, ∃ b ∈ l[2 * k + 1]?, ⌊a⌋ ≤ x ∧ x ≤ ⌊b⌋

section

variable {vertices vertices' : List Vector2} {coord : Vector2} {edge : Vector2 × Vector2}
  {l : List ℚ} {x y : ℤ} {lo hi : ℤ}

theorem between_iff : Between l x ↔ ∃ p ∈ pairs l, ⌊p.1⌋ ≤ x ∧ x ≤ ⌊p.2⌋ := by
  constructor
  · rintro ⟨k, a, ha, b, hb, hx⟩
    exact ⟨(a, b), mem_pairs.mpr ⟨k, ha, hb⟩, hx⟩
  · rintro ⟨⟨a, b⟩, hp, hx⟩
    obtain ⟨k, ha, hb⟩ := mem_pairs.mp hp
    exact ⟨k, a, ha, b, hb, hx⟩

theorem crossings_perm :
    (((edges vertices).filter fun edge ↦ straddles ⟨0, y⟩ edge).map (crossingX ⟨0, y⟩)).Perm
      (crossings vertices y) :=
  (List.mergeSort_perm _ _).symm

theorem pairwise_crossings : (crossings vertices y).Pairwise (· ≤ ·) :=
  List.pairwise_mergeSort' (· ≤ ·) _

theorem crossings_eq_of_perm (h : l.Perm (crossings vertices y)) :
    l.mergeSort (· ≤ ·) = crossings vertices y :=
  ((List.mergeSort_perm _ _).trans h).eq_of_pairwise' (List.pairwise_mergeSort' (· ≤ ·) _)
    pairwise_crossings

/-- The edges of an outline, in whatever order and direction. -/
theorem crossings_congr (h : (edges vertices).Perm (edges vertices') ∨
    (edges vertices).Perm ((edges vertices').map Prod.swap)) :
    crossings vertices y = crossings vertices' y := by
  refine crossings_eq_of_perm (.trans ?_ crossings_perm)
  rcases h with h | h
  · exact (h.filter _).map _
  · refine ((h.filter _).map _).trans (.of_eq ?_)
    rw [List.filter_map, List.map_map]
    have hfilter : ((fun edge ↦ decide (straddles ⟨0, y⟩ edge)) ∘ Prod.swap) =
        fun edge ↦ decide (straddles ⟨0, y⟩ edge) := by
      funext edge
      exact decide_eq_decide.mpr straddles_swap
    rw [hfilter]
    refine List.map_congr_left fun edge hedge ↦ ?_
    exact crossingX_swap (of_decide_eq_true (List.mem_filter.mp hedge).2)

theorem edges_perm : (edges vertices).Perm (cyclicPairs vertices) := by
  rw [edges_eq, cyclicPairs_rotate]
  exact List.rotate_perm _ _

/-- Neither where the list starts nor its direction makes a difference. -/
theorem crossings_listed (h : vertices' ~r vertices ∨ vertices' ~r vertices.reverse) :
    crossings vertices' y = crossings vertices y := by
  have hrotated {l l' : List Vector2} (h : l' ~r l) : (cyclicPairs l').Perm (cyclicPairs l) := by
    obtain ⟨n, rfl⟩ := h.symm
    rw [cyclicPairs_rotate]
    exact List.rotate_perm _ _
  apply crossings_congr
  rcases h with h | h
  · left
    exact edges_perm.trans ((hrotated h).trans edges_perm.symm)
  · right
    refine edges_perm.trans ((hrotated h).trans ?_)
    rw [cyclicPairs_reverse]
    exact (List.rotate_perm _ _).trans
      ((List.reverse_perm _).trans (edges_perm.symm.map Prod.swap))

theorem countP_crossings (coord : Vector2) (p : ℚ → Bool) :
    (crossings vertices coord.y).countP p =
      (cyclicPairs vertices).countP fun edge ↦
        decide (straddles coord edge) && p (crossingX coord edge) := by
  rw [← crossings_perm.countP_eq, List.countP_map, List.countP_filter, edges_perm.countP_eq]
  apply List.countP_congr
  intro edge _
  rw [Bool.and_comm]
  rfl

theorem even_length_crossings : Even (crossings vertices y).length := by
  have hcross : (crossings vertices y).length =
      (cyclicPairs vertices).countP fun edge ↦
        decide (edge.1.y ≤ y) != decide (edge.2.y ≤ y) := by
    rw [← List.countP_true, countP_crossings ⟨0, y⟩]
    apply List.countP_congr
    intro edge _
    rw [Bool.and_true, decide_eq_true_eq, bne_iff_ne, Ne, decide_eq_decide, straddles]
    dsimp only
    omega
  rw [hcross]
  exact even_countP_ne fun v : Vector2 ↦ decide (v.y ≤ y)

theorem mem_crossings {q : ℚ} : q ∈ crossings vertices y ↔
    ∃ edge ∈ edges vertices, straddles ⟨0, y⟩ edge ∧ crossingX ⟨0, y⟩ edge = q := by
  rw [← crossings_perm.mem_iff, List.mem_map]
  simp only [List.mem_filter, decide_eq_true_eq, and_assoc]

/-- A crossing as it is reached from the upper end of its edge. -/
theorem crossingX_from_top (h : straddles coord edge) :
    ((if edge.1.y < edge.2.y then edge.1.x else edge.2.x : ℤ) : ℚ) +
      (coord.y - (min edge.1.y edge.2.y : ℤ)) *
        ((edge.2.x - edge.1.x : ℤ) / (edge.2.y - edge.1.y : ℤ)) = crossingX coord edge := by
  by_cases hdown : edge.1.y < edge.2.y
  · rw [if_pos hdown, min_eq_left hdown.le, crossingX]
    push_cast
    ring
  · have hturn : ((edge.2.x - edge.1.x : ℤ) / (edge.2.y - edge.1.y : ℤ) : ℚ) =
        (edge.1.x - edge.2.x) / (edge.1.y - edge.2.y) := by
      push_cast
      rw [← neg_div_neg_eq, neg_sub, neg_sub]
    rw [if_neg hdown, min_eq_right (not_lt.mp hdown), hturn, ← crossingX_swap h, crossingX,
      Prod.fst_swap, Prod.snd_swap]
    ring

/-- An edge does not leave the columns between its ends. -/
theorem le_crossingX (h : straddles coord edge) (h₁ : lo ≤ edge.1.x) (h₂ : lo ≤ edge.2.x) :
    (lo : ℚ) ≤ crossingX coord edge := by
  have h₁' : (lo : ℚ) ≤ edge.1.x := by exact_mod_cast h₁
  have h₂' : (lo : ℚ) ≤ edge.2.x := by exact_mod_cast h₂
  have hne : ((edge.2.y : ℚ) - edge.1.y) ≠ 0 := by
    rw [← neg_ne_zero, neg_sub]
    exact_mod_cast h.ne
  have hshare : (0 : ℚ) ≤ (coord.y - edge.1.y) / (edge.2.y - edge.1.y) :=
    (straddles_swap.mpr h).share_nonneg
  have hrest := h.share_nonneg
  have hsum : (coord.y - edge.2.y : ℚ) / (edge.1.y - edge.2.y) =
      1 - (coord.y - edge.1.y) / (edge.2.y - edge.1.y) := by
    rw [← neg_div_neg_eq, neg_sub, neg_sub, eq_sub_iff_add_eq, ← add_div,
      sub_add_sub_cancel, div_self hne]
  have hcross : crossingX coord edge =
      lo + ((edge.1.x - lo) * ((coord.y - edge.2.y) / (edge.1.y - edge.2.y)) +
        (edge.2.x - lo) * ((coord.y - edge.1.y) / (edge.2.y - edge.1.y))) := by
    rw [hsum, crossingX, mul_div_assoc]
    ring
  rw [hcross]
  exact le_add_of_nonneg_right (add_nonneg (mul_nonneg (sub_nonneg.mpr h₁') hrest)
    (mul_nonneg (sub_nonneg.mpr h₂') hshare))

theorem crossingX_le (h : straddles coord edge) (h₁ : edge.1.x ≤ hi) (h₂ : edge.2.x ≤ hi) :
    crossingX coord edge ≤ hi := by
  -- the edge in a mirror
  have hmirror : ((-hi : ℤ) : ℚ) ≤
      crossingX coord (⟨-edge.1.x, edge.1.y⟩, ⟨-edge.2.x, edge.2.y⟩) :=
    le_crossingX h (neg_le_neg h₁) (neg_le_neg h₂)
  have hcross : crossingX coord (⟨-edge.1.x, edge.1.y⟩, ⟨-edge.2.x, edge.2.y⟩) =
      -crossingX coord edge := by
    rw [crossingX, crossingX]
    push_cast
    ring
  rw [hcross, Int.cast_neg] at hmirror
  exact neg_le_neg_iff.mp hmirror

theorem crossings_nonneg {q : ℚ} (hq : q ∈ crossings vertices y)
    (hv : ∀ v ∈ vertices, 0 ≤ v.x) : 0 ≤ q := by
  obtain ⟨edge, hedge, hacross, rfl⟩ := mem_crossings.mp hq
  obtain ⟨h₁, h₂⟩ := mem_of_mem_edges hedge
  have hle : ((0 : ℤ) : ℚ) ≤ crossingX ⟨0, y⟩ edge := le_crossingX hacross (hv _ h₁) (hv _ h₂)
  rwa [Int.cast_zero] at hle

/-- An outline within a rectangle has nothing between its crossings outside of it. -/
theorem Between.inside {w h : ℤ} (hx : Between (crossings vertices y) x)
    (hv : ∀ v ∈ vertices, (0 ≤ v.x ∧ v.x < w) ∧ 0 ≤ v.y ∧ v.y < h) :
    (0 ≤ x ∧ x < w) ∧ 0 ≤ y ∧ y < h := by
  obtain ⟨k, a, ha, b, hb, hlo, hhi⟩ := hx
  have hleft : 0 ≤ ⌊a⌋ := Int.floor_nonneg.mpr
    (crossings_nonneg (List.mem_of_getElem? ha) fun v hmem ↦ (hv v hmem).1.1)
  obtain ⟨edge, hedge, hacross, rfl⟩ := mem_crossings.mp (List.mem_of_getElem? hb)
  obtain ⟨h₁, h₂⟩ := mem_of_mem_edges hedge
  have hright : ⌊crossingX ⟨0, y⟩ edge⌋ ≤ w - 1 := by
    have hmono := Int.floor_le_floor (crossingX_le hacross
      (Int.le_sub_one_of_lt (hv _ h₁).1.2) (Int.le_sub_one_of_lt (hv _ h₂).1.2))
    rwa [Int.floor_intCast] at hmono
  have hy₁ := (hv _ h₁).2
  have hy₂ := (hv _ h₂).2
  rw [straddles] at hacross
  dsimp only at hacross
  omega

/-- An edge that is lost to the left of a point ends a pair there. -/
theorem between_of_grazes (hedge : edge ∈ cyclicPairs vertices) (h : Grazes coord edge) :
    Between (crossings vertices coord.y) coord.x := by
  obtain ⟨hacross, hlo, hhi⟩ := h
  have hfloor : ⌊crossingX coord edge⌋ = coord.x := Int.floor_eq_iff.mpr ⟨hlo.le, hhi⟩
  have hmem : crossingX coord edge ∈ crossings vertices coord.y :=
    mem_crossings.mpr ⟨edge, edges_perm.mem_iff.mpr hedge, hacross, rfl⟩
  obtain ⟨p, hp, hle, hge⟩ := exists_pair_of_mem pairwise_crossings even_length_crossings hmem
  refine between_iff.mpr ⟨p, hp, ?_, ?_⟩
  · rw [← hfloor]
    exact Int.floor_le_floor hle
  · rw [← hfloor]
    exact Int.floor_le_floor hge

theorem between_of_contains {p : Polygon} (h : p.contains coord = true) :
    Between (crossings p.vertices coord.y) coord.x := by
  rw [contains_eq, decide_eq_true_eq] at h
  have hright := countP_right coord (cyclicPairs p.vertices)
  by_cases hodd : Odd ((crossings p.vertices coord.y).countP fun q ↦ decide ((coord.x : ℚ) < q))
  · obtain ⟨q, hq, hle, hlt⟩ :=
      exists_pair_of_odd pairwise_crossings even_length_crossings hodd
    refine between_iff.mpr ⟨q, hq, ?_, Int.le_floor.mpr hlt.le⟩
    have hmono := Int.floor_le_floor hle
    rwa [Int.floor_intCast] at hmono
  · -- an even number of edges is to the right, so one of them was lost
    rw [countP_crossings] at hodd
    simp only [Bool.decide_and] at hright
    rw [hright, Nat.odd_iff] at hodd
    rw [Nat.odd_iff] at h
    have hpos : 0 < (cyclicPairs p.vertices).countP fun edge ↦
        decide (Grazes coord edge) && decide (edge.2.x < edge.1.x) := by omega
    obtain ⟨edge, hedge, hlost⟩ := List.countP_pos_iff.mp hpos
    rw [Bool.and_eq_true, decide_eq_true_eq] at hlost
    exact between_of_grazes hedge hlost.1

end

end ZoneMinder.Poly
