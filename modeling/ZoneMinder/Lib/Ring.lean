import Mathlib.Algebra.Order.Ring.Int

namespace Lib

variable {i delta n : ℤ}

/-- A position on a ring of `n` slots, moved by `delta` with the remainder that C computes. -/
def modAdd (i delta n : ℤ) : ℤ := (i + n + delta).tmod n

theorem modAdd_eq (h : 0 ≤ i + delta + n) : modAdd i delta n = (i + delta) % n := by
  have hsum : i + n + delta = i + delta + n := by omega
  rw [modAdd, hsum, Int.tmod_eq_emod_of_nonneg h, Int.add_emod_right]

theorem modAdd_range (hn : 0 < n) (h : 0 ≤ i + delta + n) :
    0 ≤ modAdd i delta n ∧ modAdd i delta n < n := by
  rw [modAdd_eq h]
  exact ⟨Int.emod_nonneg _ hn.ne', Int.emod_lt_of_pos _ hn⟩

/-- The end of the ring stands for its beginning. -/
theorem modAdd_zero (hn : 0 < n) (hi : 0 ≤ i) (h : i ≤ n) :
    modAdd i 0 n = if i = n then 0 else i := by
  rw [modAdd_eq (by omega), add_zero]
  split_ifs with hend
  · rw [hend, Int.emod_self]
  · exact Int.emod_eq_of_lt hi (by omega)

theorem modAdd_one (hn : 0 < n) (hi : 0 ≤ i) (h : i < n) :
    modAdd i 1 n = if i + 1 = n then 0 else i + 1 := by
  rw [modAdd_eq (by omega)]
  split_ifs with hend
  · rw [hend, Int.emod_self]
  · exact Int.emod_eq_of_lt (by omega) (by omega)

theorem modAdd_one_end (hn : 0 < n) : modAdd n 1 n = if n = 1 then 0 else 1 := by
  rw [modAdd_eq (by omega), Int.add_emod_left]
  split_ifs with hone
  · rw [hone, Int.emod_self]
  · exact Int.emod_eq_of_lt (by omega) (by omega)

theorem modAdd_neg_one (hn : 0 < n) (hi : 0 ≤ i) (h : i ≤ n) :
    modAdd i (-1) n = if i = 0 then n - 1 else i - 1 := by
  rw [modAdd_eq (by omega)]
  split_ifs with hzero
  · rw [hzero, ← Int.add_emod_right, Int.emod_eq_of_lt (by omega) (by omega)]
    omega
  · exact Int.emod_eq_of_lt (by omega) (by omega)

/-- A step that is taken back leads to the slot that it was taken from. -/
theorem modAdd_modAdd (hn : 0 < n) {delta' : ℤ} (hi : 0 ≤ i) (h : 0 ≤ i + delta + n)
    (h' : delta + delta' = 0) (hdelta : -n ≤ delta') :
    modAdd (modAdd i delta n) delta' n = modAdd i 0 n := by
  have hrange := modAdd_range hn h
  rw [modAdd_eq (by omega : 0 ≤ modAdd i delta n + delta' + n), modAdd_eq h,
    modAdd_eq (by omega), Int.emod_add_emod, add_assoc, h']

theorem tmod_end (hi : 0 ≤ i) (h : i ≤ n) : i.tmod n = if i = n then 0 else i := by
  rw [Int.tmod_eq_emod_of_nonneg hi]
  split_ifs with hend
  · rw [hend, Int.emod_self]
  · exact Int.emod_eq_of_lt hi (by omega)

end Lib
