import Mathlib.Data.List.Basic

namespace Lib

variable {α : Type}

/-- What single writes, each a value and where it goes, make of a list. -/
def written (l : List α) (ws : List (α × ℕ)) : List α :=
  ws.foldl (fun l w ↦ l.set w.2 w.1) l

/-- An old list with its first `n` elements replaced by those of a new one. -/
def torn (old new : List α) (n : ℕ) : List α := new.take n ++ old.drop n

variable {l a b c old new : List α} {ws vs : List (α × ℕ)} {k : ℕ}

theorem written_append : written l (ws ++ vs) = written (written l ws) vs :=
  List.foldl_append

@[simp] theorem written_length : (written l ws).length = l.length := by
  induction ws generalizing l with
  | nil => rfl
  | cons w ws ih => exact ih.trans List.length_set

theorem written_zipIdx (h : new.length ≤ b.length) :
    written (a ++ (b ++ c)) (new.zipIdx a.length) = a ++ ((new ++ b.drop new.length) ++ c) := by
  induction new generalizing a b with
  | nil => rfl
  | cons x new ih =>
    cases b with
    | nil => simp at h
    | cons y b =>
      have hstep : (a ++ (y :: b ++ c)).set a.length x = (a ++ [x]) ++ (b ++ c) := by
        simp [List.set_append_right]
      have hlen : a.length + 1 = (a ++ [x]).length := by simp
      rw [List.zipIdx_cons, written, List.foldl_cons, hstep, hlen]
      exact (ih (Nat.le_of_succ_le_succ h)).trans (by simp)

theorem written_take (h : b.length = new.length) :
    written (a ++ (b ++ c)) ((new.zipIdx a.length).take k) = a ++ (torn b new k ++ c) := by
  have htake : (new.zipIdx a.length).take k = (new.take k).zipIdx a.length := by
    refine List.ext_getElem? fun i ↦ ?_
    rw [List.getElem?_take, List.getElem?_zipIdx, List.getElem?_zipIdx, List.getElem?_take]
    split <;> rfl
  have hdrop : b.drop (new.take k).length = b.drop k := by
    rw [List.length_take]
    rcases Nat.le_total k new.length with hk | hk
    · rw [Nat.min_eq_left hk]
    · rw [Nat.min_eq_right hk, List.drop_of_length_le (Nat.le_of_eq h),
        List.drop_of_length_le (h ▸ hk)]
  rw [htake, written_zipIdx (by rw [List.length_take]; omega), hdrop, torn]

theorem torn_length (h : old.length = new.length) (n : ℕ) : (torn old new n).length = old.length := by
  rw [torn, List.length_append, List.length_take, List.length_drop]
  omega

@[simp] theorem torn_zero : torn old new 0 = old := rfl

theorem torn_all (h : old.length = new.length) (hk : new.length ≤ k) : torn old new k = new := by
  rw [torn, List.take_of_length_le hk, List.drop_of_length_le (h ▸ hk), List.append_nil]

theorem countP_zip_eq_zero [DecidableEq α] (h : old.length = new.length) :
    (old.zip new).countP (fun p ↦ p.1 ≠ p.2) = 0 ↔ old = new := by
  induction old generalizing new with
  | nil =>
    obtain rfl := List.length_eq_zero_iff.mp h.symm
    simp
  | cons x old ih =>
    cases new with
    | nil => contradiction
    | cons y new =>
      rw [List.zip_cons_cons, List.countP_cons, Nat.add_eq_zero_iff, ih (Nat.succ.inj h),
        List.cons.injEq]
      simp [and_comm]

/-- A replacement cut short is always the old or the new list exactly if at most one element
changes. -/
theorem torn_iff [DecidableEq α] (h : old.length = new.length) :
    (∀ n, torn old new n = old ∨ torn old new n = new) ↔
      (old.zip new).countP (fun p ↦ p.1 ≠ p.2) ≤ 1 := by
  induction old generalizing new with
  | nil =>
    obtain rfl := List.length_eq_zero_iff.mp h.symm
    simp [torn]
  | cons x old ih =>
    cases new with
    | nil => contradiction
    | cons y new =>
      have hlen : old.length = new.length := Nat.succ.inj h
      rw [List.zip_cons_cons, List.countP_cons]
      by_cases hxy : x = y
      · -- the element stays, and the rest decides
        subst hxy
        rw [if_neg (by simp), Nat.add_zero, ← ih hlen]
        constructor
        · intro hall n
          exact (hall (n + 1)).imp (fun he ↦ (List.cons.inj he).2) fun he ↦ (List.cons.inj he).2
        · intro hall n
          cases n with
          | zero => exact .inl rfl
          | succ n => exact (hall n).imp (congrArg (x :: ·)) (congrArg (x :: ·))
      · rw [if_pos (by simpa using hxy)]
        constructor
        · intro hall
          rcases hall 1 with he | he
          · exact absurd (List.cons.inj he).1.symm hxy
          · obtain rfl : old = new := (List.cons.inj he).2
            exact Nat.le_of_eq (congrArg (· + 1) ((countP_zip_eq_zero rfl).mpr rfl))
        · intro hone n
          obtain rfl := (countP_zip_eq_zero hlen).mp (by omega)
          cases n with
          | zero => exact .inl rfl
          | succ n =>
            refine .inr ?_
            rw [torn, List.take_succ_cons, List.drop_succ_cons, List.cons_append,
              List.take_append_drop]

section Block

variable {l new : List α} {pos n : ℕ}

/-- What is read of a block of memory, none where that reaches beyond it. -/
def span (l : List α) (pos n : ℕ) : Option (List α) :=
  if pos + n ≤ l.length then some ((l.drop pos).take n) else none

/-- A block with new elements written over the old, none where they reach beyond it. -/
def put (l : List α) (pos : ℕ) (new : List α) : Option (List α) :=
  if pos + new.length ≤ l.length then some (l.take pos ++ new ++ l.drop (pos + new.length))
  else none

theorem span_of_le (h : pos + n ≤ l.length) : span l pos n = some ((l.drop pos).take n) := if_pos h

theorem put_length {l' : List α} (h : put l pos new = some l') : l'.length = l.length := by
  obtain ⟨hle, heq⟩ := Option.ite_none_right_eq_some.mp h
  rw [← Option.some.inj heq]
  simp only [List.length_append, List.length_take, List.length_drop]
  omega

theorem exists_put (h : pos + new.length ≤ l.length) :
    ∃ l', put l pos new = some l' ∧ l'.length = l.length :=
  ⟨_, if_pos h, put_length (if_pos h)⟩

theorem put_nil (h : pos ≤ l.length) : put l pos [] = some l := by
  have hsame : l.take pos ++ [] ++ l.drop (pos + 0) = l := by
    rw [List.append_nil, Nat.add_zero, List.take_append_drop]
  exact (if_pos h).trans (congrArg some hsame)

/-- What stands before is as it was, and the new elements follow. -/
theorem drop_put {l' : List α} (h : put l pos new = some l') (hn : n ≤ pos) :
    (l'.drop n).take (pos - n + new.length) = (l.drop n).take (pos - n) ++ new := by
  obtain ⟨hle, heq⟩ := Option.ite_none_right_eq_some.mp h
  rw [← Option.some.inj heq]
  have hlength : (l.take pos).length = pos := by
    rw [List.length_take]
    omega
  have hbefore : ((l.take pos).drop n).length = pos - n := by
    rw [List.length_drop, hlength]
  rw [List.append_assoc, List.drop_append_of_le_length (by omega), ← hbefore,
    List.take_length_add_append, List.take_left, hbefore, List.drop_take]

/-- What stands behind the new elements is as it was. -/
theorem drop_put_of_le {l' : List α} (h : put l pos new = some l') (hn : pos + new.length ≤ n) :
    l'.drop n = l.drop n := by
  obtain ⟨hle, heq⟩ := Option.ite_none_right_eq_some.mp h
  have hlength : (l.take pos ++ new).length = pos + new.length := by
    rw [List.length_append, List.length_take]
    omega
  have hsum : n = pos + new.length + (n - (pos + new.length)) := by omega
  rw [← Option.some.inj heq, List.drop_append, List.drop_of_length_le (by omega), List.nil_append,
    hlength, List.drop_drop, ← hsum]

theorem take_put {l' : List α} (h : put l 0 new = some l') : l'.take new.length = new := by
  simpa using drop_put h (Nat.le_refl 0)

end Block

end Lib
