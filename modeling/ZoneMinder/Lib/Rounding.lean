import Mathlib.Algebra.Order.Round
import Mathlib.Tactic.Linarith

namespace Lib

variable {K : Type*} [Field K] [LinearOrder K] [IsStrictOrderedRing K] [FloorRing K] {x y : K}

/-- The nearest integer, halfway cases away from zero. -/
def roundAway (x : K) : ℤ := if 0 ≤ x then round x else -round (-x)

@[simp] theorem roundAway_intCast (n : ℤ) : roundAway (n : K) = n := by
  rw [roundAway]
  split
  · exact round_intCast n
  · rw [← Int.cast_neg, round_intCast, neg_neg]

@[simp] theorem roundAway_zero : roundAway (0 : K) = 0 := by
  have h := roundAway_intCast (K := K) 0
  rwa [Int.cast_zero] at h

theorem roundAway_neg (x : K) : roundAway (-x) = -roundAway x := by
  rcases lt_trichotomy x 0 with h | rfl | h
  · rw [roundAway, roundAway, if_pos (neg_nonneg.mpr h.le), if_neg h.not_ge, neg_neg]
  · simp
  · rw [roundAway, roundAway, if_neg (by linarith), if_pos h.le, neg_neg]

theorem abs_sub_roundAway (x : K) : |x - roundAway x| ≤ 1 / 2 := by
  rw [roundAway]
  split
  · exact abs_sub_round x
  · have h := abs_sub_round (-x)
    rwa [← abs_neg, neg_sub, sub_neg_eq_add, add_comm, ← sub_neg_eq_add, ← Int.cast_neg] at h

theorem round_mono (h : x ≤ y) : round x ≤ round y := by
  rw [round_eq, round_eq]
  exact Int.floor_le_floor (by linarith)

theorem roundAway_mono (h : x ≤ y) : roundAway x ≤ roundAway y := by
  by_cases hx : 0 ≤ x
  · rw [roundAway, roundAway, if_pos hx, if_pos (hx.trans h)]
    exact round_mono h
  · rw [roundAway, if_neg hx]
    by_cases hy : 0 ≤ y
    · -- the signs differ: zero lies between
      rw [roundAway, if_pos hy]
      have h₁ := round_mono (show (0 : K) ≤ -x by linarith)
      have h₂ := round_mono hy
      rw [round_zero] at h₁ h₂
      omega
    · rw [roundAway, if_neg hy]
      exact neg_le_neg (round_mono (neg_le_neg h))

theorem le_roundAway {n : ℤ} (h : (n : K) ≤ x) : n ≤ roundAway x := by
  have hn := roundAway_mono h
  rwa [roundAway_intCast] at hn

omit [FloorRing K] in
theorem lt_tdiv_iff_of_pos {a b n : ℤ} (hb : 0 < b) :
    n < a.tdiv b ↔ (n : K) < a / b ∧ ¬ (0 < (a / b : K) ∧ (a / b : K) < n + 1) := by
  have hbK : (0 : K) < b := Int.cast_pos.mpr hb
  have hone : ((n : K) + 1) = ((n + 1 : ℤ) : K) := by push_cast; rfl
  rw [lt_div_iff₀ hbK, hone, div_lt_iff₀ hbK, div_pos_iff_of_pos_right hbK, Int.cast_pos]
  norm_cast
  rcases le_total 0 a with ha | ha
  · rw [Int.tdiv_eq_ediv_of_nonneg ha, Int.lt_iff_add_one_le, Int.le_ediv_iff_mul_le hb]
    constructor
    · intro h
      exact ⟨by linarith, fun h' ↦ absurd h'.2 h.not_gt⟩
    · intro h
      rcases ha.eq_or_lt with rfl | hpos
      · -- nothing to truncate
        have hn : n < 0 := by
          by_contra hn
          linarith [mul_nonneg (not_lt.mp hn) hb.le]
        exact mul_nonpos_of_nonpos_of_nonneg (by omega) hb.le
      · by_contra hlt
        exact h.2 ⟨hpos, not_le.mp hlt⟩
  · have hneg : a.tdiv b = -(-a / b) := by
      rw [← Int.tdiv_eq_ediv_of_nonneg (neg_nonneg.mpr ha), Int.neg_tdiv, neg_neg]
    rw [hneg, lt_neg, Int.ediv_lt_iff_lt_mul hb, neg_mul, neg_lt_neg_iff]
    exact ⟨fun h ↦ ⟨h, fun h' ↦ absurd h'.1 ha.not_gt⟩, And.left⟩

omit [FloorRing K] in
/-- A quotient is truncated towards zero. -/
theorem lt_tdiv_iff {a b n : ℤ} (hb : b ≠ 0) :
    n < a.tdiv b ↔ (n : K) < a / b ∧ ¬ (0 < (a / b : K) ∧ (a / b : K) < n + 1) := by
  rcases hb.lt_or_gt with hneg | hpos
  · have h := lt_tdiv_iff_of_pos (K := K) (a := -a) (n := n) (neg_pos.mpr hneg)
    rwa [Int.neg_tdiv_neg, Int.cast_neg, Int.cast_neg, neg_div_neg_eq] at h
  · exact lt_tdiv_iff_of_pos hpos

/-- Towards zero. -/
def trunc (x : K) : ℤ := if 0 ≤ x then ⌊x⌋ else ⌈x⌉

@[simp] theorem trunc_intCast (n : ℤ) : trunc (n : K) = n := by
  rw [trunc]
  split
  · exact Int.floor_intCast n
  · exact Int.ceil_intCast n

theorem trunc_div {b : ℤ} (a : ℤ) (hb : 0 < b) : trunc ((a : K) / b) = a.tdiv b := by
  have hfloor (n : ℤ) : ⌊(n : K) / b⌋ = n / b := by
    rw [Int.floor_div_cast_of_nonneg hb.le, Int.floor_intCast]
  have hbK : (0 : K) < b := Int.cast_pos.mpr hb
  rw [trunc]
  rcases le_or_gt 0 a with ha | ha
  · rw [if_pos (div_nonneg (Int.cast_nonneg ha) hbK.le), hfloor, Int.tdiv_eq_ediv_of_nonneg ha]
  · have hneg : -⌈(a : K) / b⌉ = -a / b := by
      rw [← Int.floor_neg, ← neg_div, ← Int.cast_neg, hfloor]
    rw [if_neg (not_le.mpr (div_neg_of_neg_of_pos (Int.cast_lt_zero.mpr ha) hbK)), ← neg_inj,
      hneg, ← Int.neg_tdiv, Int.tdiv_eq_ediv_of_nonneg (neg_nonneg.mpr ha.le)]

end Lib
