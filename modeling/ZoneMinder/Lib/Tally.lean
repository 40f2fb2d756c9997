import Mathlib.Algebra.BigOperators.Group.List.Basic
import Mathlib.Algebra.Order.BigOperators.Group.List
import Mathlib.Algebra.Order.Ring.Int
import Mathlib.Tactic.Ring

namespace Lib

variable {ρ ι : Type*} [DecidableEq ι] (owner : ρ → ι) (w : ρ → ℤ) (i : ι)

/-- The weight of the rows that one owner has in a table. -/
def tally (rows : List ρ) : ℤ := ((rows.filter (fun r ↦ owner r = i)).map w).sum

@[simp]
theorem tally_nil : tally owner w i [] = 0 := rfl

theorem tally_cons (r : ρ) (rows : List ρ) :
    tally owner w i (r :: rows) = (if owner r = i then w r else 0) + tally owner w i rows := by
  by_cases h : owner r = i <;> simp [tally, h]

@[simp]
theorem tally_append (rows rows' : List ρ) :
    tally owner w i (rows ++ rows') = tally owner w i rows + tally owner w i rows' := by
  simp [tally]

theorem tally_one (rows : List ρ) :
    tally owner (fun _ ↦ 1) i rows = (rows.filter (fun r ↦ owner r = i)).length := by
  simp [tally]

variable {owner w i}

theorem tally_nonneg (hw : ∀ r, 0 ≤ w r) (rows : List ρ) : 0 ≤ tally owner w i rows := by
  induction rows with
  | nil => simp
  | cons r rows ih =>
    rw [tally_cons]
    split_ifs
    · exact add_nonneg (hw r) ih
    · simpa using ih

theorem tally_filter_le (hw : ∀ r, 0 ≤ w r) (p : ρ → Bool) (rows : List ρ) :
    tally owner w i (rows.filter p) ≤ tally owner w i rows := by
  induction rows with
  | nil => simp
  | cons r rows ih =>
    have hr := hw r
    by_cases hp : p r
    · rw [List.filter_cons_of_pos hp, tally_cons, tally_cons]
      omega
    · rw [List.filter_cons_of_neg hp, tally_cons]
      split_ifs <;> omega

/-- Rows of one owner and one weight are taken out. -/
theorem tally_filter_not {p : ρ → Bool} {o : ι} {v : ℤ} {rows : List ρ}
    (h : ∀ r ∈ rows, p r → owner r = o ∧ w r = v) :
    tally owner w i (rows.filter (fun r ↦ !p r)) =
      tally owner w i rows - if o = i then rows.countP p * v else 0 := by
  induction rows with
  | nil => simp
  | cons r rows ih =>
    have hrows := ih (fun r hr ↦ h r (List.mem_cons_of_mem _ hr))
    by_cases hp : p r
    · obtain ⟨ho, hv⟩ := h r List.mem_cons_self hp
      rw [List.filter_cons_of_neg (by simp [hp]), hrows, tally_cons, ho, hv,
        List.countP_cons_of_pos hp]
      split_ifs
      · push_cast
        ring
      · ring
    · rw [List.filter_cons_of_pos (by simp [hp]), tally_cons, tally_cons, hrows,
        List.countP_cons_of_neg hp]
      ring

/-- Rows of one owner become heavier by the same weight. -/
theorem tally_map_ite {p : ρ → Bool} {g : ρ → ρ} {o : ι} {d : ℤ} {rows : List ρ}
    (hg : ∀ r, owner (g r) = owner r)
    (h : ∀ r ∈ rows, p r → owner r = o ∧ w (g r) = w r + d) :
    tally owner w i (rows.map (fun r ↦ if p r then g r else r)) =
      tally owner w i rows + if o = i then rows.countP p * d else 0 := by
  induction rows with
  | nil => simp
  | cons r rows ih =>
    have hrows := ih (fun r hr ↦ h r (List.mem_cons_of_mem _ hr))
    by_cases hp : p r
    · obtain ⟨ho, hd⟩ := h r List.mem_cons_self hp
      rw [List.map_cons, if_pos hp, tally_cons, tally_cons, hrows, hg, ho, hd,
        List.countP_cons_of_pos hp]
      split_ifs
      · push_cast
        ring
      · ring
    · rw [List.map_cons, if_neg hp, tally_cons, tally_cons, hrows, List.countP_cons_of_neg hp]
      ring

end Lib
