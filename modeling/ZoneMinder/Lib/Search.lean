import Mathlib.Data.List.Basic
import Mathlib.Data.List.Infix

namespace Lib

variable {α : Type} {p : α → Bool} {l u v w : List α} {a b : α} {i pos : ℕ}

/-- The first position from `pos` on of an element that `p` holds of. -/
def findFrom (p : α → Bool) (l : List α) (pos : ℕ) : Option ℕ :=
  ((l.drop pos).findIdx? p).map (pos + ·)

/-- The last position up to `pos` of an element that `p` holds of. -/
def findLast (p : α → Bool) (l : List α) : ℕ → Option ℕ
  | 0 => if l[0]?.any p then some 0 else none
  | pos + 1 => if l[pos + 1]?.any p then some (pos + 1) else findLast p l pos

/-- The first position at which a word stands. -/
def findWord [BEq α] (w : List α) : List α → Option ℕ
  | [] => if w.isEmpty then some 0 else none
  | a :: l => if w.isPrefixOf (a :: l) then some 0 else (findWord w l).map (· + 1)

/-- What stands from one position up to another or, with `none`, up to the end. No position lies
past the end. -/
def slice (l : List α) (pos : ℕ) : Option ℕ → Option (List α)
  | none => if pos ≤ l.length then some (l.drop pos) else none
  | some stop => if pos ≤ l.length then some ((l.drop pos).take (stop - pos)) else none

/-- One element written over what stands from one position up to another. -/
def overwriteAll (a : α) (l : List α) (pos stop : ℕ) : Option (List α) :=
  if pos ≤ stop ∧ stop ≤ l.length then
    some (l.take pos ++ List.replicate (stop - pos) a ++ l.drop stop)
  else none

theorem findFrom_eq_none : findFrom p (u ++ v) u.length = none ↔ ∀ a ∈ v, p a = false := by
  rw [findFrom, List.drop_left, Option.map_eq_none_iff, List.findIdx?_eq_none_iff]

theorem findFrom_append (hv : ∀ a ∈ v, p a = false) (ha : p a) :
    findFrom p (u ++ v ++ a :: w) u.length = some (u.length + v.length) := by
  have hfirst : v.findIdx? p = none := List.findIdx?_eq_none_iff.mpr hv
  rw [findFrom, List.append_assoc, List.drop_left, List.findIdx?_append, hfirst]
  simp [List.findIdx?_cons, ha]

theorem findFrom_zero_eq_none : findFrom p v 0 = none ↔ ∀ a ∈ v, p a = false :=
  findFrom_eq_none (u := [])

theorem findFrom_zero_append (hv : ∀ a ∈ v, p a = false) (ha : p a) :
    findFrom p (v ++ a :: w) 0 = some v.length := by
  simpa using findFrom_append (u := []) (w := w) hv ha

theorem exists_of_findFrom (h : findFrom p l pos = some i) :
    pos ≤ i ∧ ∃ a, l[i]? = some a ∧ p a := by
  obtain ⟨j, hj, rfl⟩ := Option.map_eq_some_iff.mp h
  obtain ⟨hlt, hp, -⟩ := List.findIdx?_eq_some_iff_getElem.mp hj
  refine ⟨Nat.le_add_right pos j, _, ?_, hp⟩
  rw [← List.getElem?_drop, List.getElem?_eq_getElem hlt]

theorem findLast_eq_none : findLast p l pos = none ↔ ∀ a ∈ l.take (pos + 1), p a = false := by
  induction pos with
  | zero => cases l <;> simp [findLast]
  | succ pos ih =>
    rw [findLast, List.take_add_one]
    cases hget : l[pos + 1]? with
    | none => simp [ih]
    | some a =>
      by_cases ha : p a
      · simp [ha]
      · simp [ha, ih, or_imp, forall_and]

theorem findLast_append (ha : p a) (hv : ∀ b ∈ v, p b = false) :
    findLast p (u ++ a :: v ++ w) (u.length + v.length) = some u.length := by
  induction v using List.reverseRecOn generalizing w with
  | nil =>
    have hget : (u ++ [a] ++ w)[u.length]? = some a := by simp
    rw [List.length_nil, Nat.add_zero]
    cases hlen : u.length with
    | zero =>
      rw [hlen] at hget
      rw [findLast, hget]
      simp [ha]
    | succ n =>
      rw [hlen] at hget
      rw [findLast, hget]
      simp [ha]
  | append_singleton v b ih =>
    have hb : p b = false := hv b (by simp)
    have hget : (u ++ a :: (v ++ [b]) ++ w)[u.length + v.length + 1]? = some b := by
      have hassoc : u ++ a :: (v ++ [b]) ++ w = (u ++ a :: v) ++ b :: w := by simp
      have hlen : u.length + v.length + 1 = (u ++ a :: v).length := by
        simp
        omega
      rw [hassoc, hlen, List.getElem?_append_right (by omega)]
      simp
    have hassoc : u ++ a :: (v ++ [b]) ++ w = u ++ a :: v ++ b :: w := by simp
    rw [List.length_append, List.length_singleton, ← Nat.add_assoc, findLast, hget]
    simp only [Option.any_some, hb, Bool.false_eq_true, if_false]
    rw [hassoc]
    exact ih fun c hc ↦ hv c (by simp [hc])

theorem of_findLast (h : findLast p l pos = some i) : i ≤ pos ∧ ∃ a, l[i]? = some a ∧ p a := by
  induction pos with
  | zero =>
    rw [findLast] at h
    split_ifs at h with hany
    obtain rfl := Option.some.inj h
    exact ⟨le_rfl, (Option.any_eq_true _ _).mp hany⟩
  | succ pos ih =>
    rw [findLast] at h
    split_ifs at h with hany
    · obtain rfl := Option.some.inj h
      exact ⟨le_rfl, (Option.any_eq_true _ _).mp hany⟩
    · obtain ⟨hle, hget⟩ := ih h
      exact ⟨Nat.le_succ_of_le hle, hget⟩

/-- The search does not go past an element that is there. -/
theorem exists_findLast (ha : l[i]? = some a) (hp : p a) (hi : i ≤ pos) :
    ∃ j b, findLast p l pos = some j ∧ i ≤ j ∧ l[j]? = some b ∧ p b := by
  induction pos with
  | zero =>
    obtain rfl : i = 0 := by omega
    exact ⟨0, a, by simp [findLast, ha, hp], le_rfl, ha, hp⟩
  | succ pos ih =>
    rw [findLast]
    split_ifs with h
    · obtain ⟨b, hb, hpb⟩ := (Option.any_eq_true _ _).mp h
      exact ⟨pos + 1, b, rfl, hi, hb, hpb⟩
    · refine ih ?_
      by_contra hlt
      obtain rfl : i = pos + 1 := by omega
      exact h (by simp [ha, hp])

section Word

variable [BEq α] [LawfulBEq α]

theorem findWord_eq_none (w l : List α) : findWord w l = none ↔ ¬w <:+: l := by
  induction l with
  | nil => cases w <;> simp [findWord]
  | cons a l ih =>
    rw [findWord, List.infix_cons_iff, not_or, ← ih, ← List.isPrefixOf_iff_prefix]
    split_ifs with hw
    · simp [hw]
    · simp [hw]

theorem exists_of_findWord (h : findWord w l = some i) : ∃ u v, l = u ++ w ++ v ∧ u.length = i := by
  induction l generalizing i with
  | nil =>
    rw [findWord] at h
    split_ifs at h with hw
    obtain rfl := Option.some.inj h
    exact ⟨[], [], by simpa using (List.isEmpty_iff.mp hw).symm, rfl⟩
  | cons a l ih =>
    rw [findWord] at h
    split_ifs at h with hw
    · obtain rfl := Option.some.inj h
      obtain ⟨v, hv⟩ := List.isPrefixOf_iff_prefix.mp hw
      exact ⟨[], v, by simp [hv], rfl⟩
    · obtain ⟨j, hj, rfl⟩ := Option.map_eq_some_iff.mp h
      obtain ⟨u, v, rfl, rfl⟩ := ih hj
      exact ⟨a :: u, v, by simp, rfl⟩

/-- Where the second element of a word does not stand, the word does not begin. -/
theorem findWord_append (hu : b ∉ u) (hv : b ∉ v.head?) :
    findWord (a :: b :: w) (u ++ v) = (findWord (a :: b :: w) v).map (u.length + ·) := by
  induction u with
  | nil => simp
  | cons c u ih =>
    have hnext : b ∉ (u ++ v).head? := by
      cases u with
      | nil => exact hv
      | cons d u => simpa [eq_comm] using fun h : b = d ↦ hu (by simp [h])
    have hnot : (a :: b :: w).isPrefixOf (c :: (u ++ v)) = false := by
      cases huv : u ++ v with
      | nil => simp [List.isPrefixOf]
      | cons d m =>
        have hd : b ≠ d := by
          rintro rfl
          exact hnext (by simp [huv])
        simp [List.isPrefixOf, hd]
    rw [List.cons_append, findWord, hnot, ih fun h ↦ hu (List.mem_cons_of_mem c h)]
    cases findWord (a :: b :: w) v with
    | none => rfl
    | some i =>
      simp
      omega

theorem findWord_prefix (h : w ≠ []) : findWord w (w ++ v) = some 0 := by
  cases w with
  | nil => exact absurd rfl h
  | cons a w =>
    have hpre : (a :: w).isPrefixOf (a :: (w ++ v)) := by
      rw [List.isPrefixOf_iff_prefix]
      exact ⟨v, rfl⟩
    rw [List.cons_append, findWord, if_pos hpre]

end Word

@[simp] theorem slice_none_append : slice (u ++ v) u.length none = some v := by
  simp [slice]

theorem slice_some_append :
    slice (u ++ v ++ w) u.length (some (u.length + v.length)) = some v := by
  simp [slice, List.append_assoc]

theorem overwriteAll_append :
    overwriteAll a (u ++ v ++ w) u.length (u.length + v.length) =
      some (u ++ List.replicate v.length a ++ w) := by
  have htake : (u ++ v ++ w).take u.length = u := by simp
  have hdrop : (u ++ v ++ w).drop (u.length + v.length) = w := by
    rw [← List.length_append, List.drop_left]
  rw [overwriteAll, if_pos (by simp), htake, hdrop, Nat.add_sub_cancel_left]

end Lib
