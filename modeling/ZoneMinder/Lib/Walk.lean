import Mathlib.Data.List.Basic
import Mathlib.Data.List.Count

namespace Lib

variable {α : Type}

/-- A list being walked backwards has the current element at its head and its front
element last. Elements that are `hidden` end the walk like the front does. -/
def atFront (hidden : α → Bool) : List α → Bool
  | _ :: b :: _ => hidden b
  | _ => true

/-- Walk back over `n` counted elements; what is left of `n` and where the walk stands. -/
def countBack (counted hidden : α → Bool) : ℕ → List α → ℕ × List α
  | n + 1, a :: b :: l =>
    if hidden b then (n + 1, a :: b :: l)
    else countBack counted hidden (if counted a then n else n + 1) (b :: l)
  | n, l => (n, l)

/-- Walk back to an element where `stop` holds. -/
def backUntil (stop hidden : α → Bool) : List α → List α
  | a :: b :: l => if hidden b || stop a then a :: b :: l else backUntil stop hidden (b :: l)
  | l => l

/-- What is left when `n` counted elements have been passed. -/
def dropCounted (counted : α → Bool) : ℕ → List α → List α
  | n + 1, a :: l => dropCounted counted (if counted a then n else n + 1) l
  | _, l => l

/-- The elements passed until `n` counted ones are among them. -/
def takeCounted (counted : α → Bool) : ℕ → List α → List α
  | n + 1, a :: l => a :: takeCounted counted (if counted a then n else n + 1) l
  | _, _ => []

variable {counted stop hidden hidden' : α → Bool} {n : ℕ} {a b : α} {l u low : List α}

@[simp] theorem countBack_zero (l : List α) : countBack counted hidden 0 l = (0, l) := by
  cases l with
  | nil => rfl
  | cons a l => cases l <;> rfl

@[simp] theorem countBack_singleton (n : ℕ) (a : α) :
    countBack counted hidden n [a] = (n, [a]) := by
  cases n <;> rfl

theorem countBack_cons (n : ℕ) (a b : α) (l : List α) :
    countBack counted hidden (n + 1) (a :: b :: l) =
      if hidden b then (n + 1, a :: b :: l)
      else countBack counted hidden (if counted a then n else n + 1) (b :: l) := rfl

theorem counted_le (h : n + 1 ≤ (a :: u).countP counted) :
    (if counted a then n else n + 1) ≤ u.countP counted := by
  rw [List.countP_cons] at h
  by_cases ha : counted a = true
  · simp only [ha, if_true] at h ⊢
    omega
  · simp only [ha, Bool.false_eq_true, if_false] at h ⊢
    omega

theorem counted_lt (h : (a :: u).countP counted < n + 1) :
    u.countP counted < if counted a then n else n + 1 := by
  rw [List.countP_cons] at h
  by_cases ha : counted a = true
  · simp only [ha, if_true] at h ⊢
    omega
  · simp only [ha, Bool.false_eq_true, if_false] at h ⊢
    omega

theorem exists_next (u : List α) (b : α) (low : List α) : ∃ c r, u ++ b :: low = c :: r ∧
    ((∀ a ∈ u, hidden a = false) → hidden b = false → hidden c = false) := by
  cases u with
  | nil => exact ⟨b, low, rfl, fun _ hb ↦ hb⟩
  | cons d u => exact ⟨d, u ++ b :: low, rfl, fun hu _ ↦ hu d List.mem_cons_self⟩

theorem countBack_suffix (n : ℕ) (l : List α) :
    ∃ u, l = u ++ (countBack counted hidden n l).2 ∧
      n = (countBack counted hidden n l).1 + u.countP counted := by
  induction l generalizing n with
  | nil => exact ⟨[], by cases n <;> rfl, by cases n <;> rfl⟩
  | cons a l ih =>
    cases n with
    | zero => exact ⟨[], by simp, by simp⟩
    | succ n =>
      cases l with
      | nil => exact ⟨[], by simp, by simp⟩
      | cons b l =>
        rw [countBack_cons]
        by_cases hb : hidden b = true
        · rw [if_pos hb]
          exact ⟨[], by simp, by simp⟩
        · rw [if_neg hb]
          obtain ⟨u, hu, hn⟩ := ih (if counted a then n else n + 1)
          refine ⟨a :: u, congrArg (a :: ·) hu, ?_⟩
          rw [List.countP_cons]
          by_cases ha : counted a = true
          · simp only [ha, if_true] at hn ⊢
            omega
          · simp only [ha, Bool.false_eq_true, if_false] at hn ⊢
            omega

theorem countBack_ne_nil (h : l ≠ []) : (countBack counted hidden n l).2 ≠ [] := by
  induction l generalizing n with
  | nil => contradiction
  | cons a l ih =>
    cases n with
    | zero => simp
    | succ n =>
      cases l with
      | nil => simp
      | cons b l =>
        rw [countBack_cons]
        by_cases hb : hidden b = true
        · simp [hb]
        · rw [if_neg hb]
          exact ih (List.cons_ne_nil b l)

theorem countBack_visible (ha : hidden a = false)
    (hb : (countBack counted hidden n (a :: l)).2 = b :: u) : hidden b = false := by
  induction l generalizing n a with
  | nil =>
    rw [countBack_singleton] at hb
    rwa [← (List.cons.inj hb).1]
  | cons c l ih =>
    cases n with
    | zero =>
      rw [countBack_zero] at hb
      rwa [← (List.cons.inj hb).1]
    | succ n =>
      rw [countBack_cons] at hb
      split at hb
      · rwa [← (List.cons.inj hb).1]
      · next hc => exact ih (by simpa using hc) hb

/-- With enough to count before `b`, a walk never gets behind `b`, hidden elements or not. -/
theorem countBack_stays (hn : n ≤ u.countP counted ∨ atFront hidden (b :: low) = true) :
    ∃ v, v <:+ u ∧ (countBack counted hidden n (u ++ b :: low)).2 = v ++ b :: low := by
  induction u generalizing n with
  | nil =>
    refine ⟨[], List.suffix_rfl, ?_⟩
    rcases hn with hn | hn
    · obtain rfl : n = 0 := Nat.le_zero.mp hn
      simp
    · cases n with
      | zero => simp
      | succ n =>
        cases low with
        | nil => simp
        | cons c low =>
          rw [List.nil_append, countBack_cons, if_pos (show hidden c = true from hn)]
  | cons a u ih =>
    cases n with
    | zero => exact ⟨a :: u, List.suffix_rfl, by simp⟩
    | succ n =>
      obtain ⟨c, r, hc, -⟩ := @exists_next _ hidden u b low
      rw [List.cons_append, hc, countBack_cons]
      by_cases hh : hidden c = true
      · rw [if_pos hh]
        exact ⟨a :: u, List.suffix_rfl, by rw [List.cons_append, hc]⟩
      · rw [if_neg hh, ← hc]
        obtain ⟨v, hv, he⟩ := ih (hn.imp_left counted_le)
        exact ⟨v, hv.trans (List.suffix_cons a u), he⟩

theorem countBack_append (hn : n ≤ u.countP counted) (hu : ∀ a ∈ u, hidden a = false)
    (hb : hidden b = false) :
    countBack counted hidden n (u ++ b :: low) = (0, dropCounted counted n u ++ b :: low) := by
  induction u generalizing n with
  | nil =>
    obtain rfl : n = 0 := Nat.le_zero.mp hn
    simp [dropCounted]
  | cons a u ih =>
    cases n with
    | zero => simp [dropCounted]
    | succ n =>
      obtain ⟨c, r, hc, hh⟩ := @exists_next _ hidden u b low
      have hu' : ∀ x ∈ u, hidden x = false := fun x hx ↦ hu x (List.mem_cons_of_mem a hx)
      rw [List.cons_append, hc, countBack_cons, if_neg (by simp [hh hu' hb]), ← hc,
        ih (counted_le hn) hu']
      rfl

/-- With too little to count before and at `b`, and nothing hidden there, a walk passes `b`. -/
theorem countBack_passes {c : α} (hn : u.countP counted < n) (hu : ∀ a ∈ u, hidden a = false)
    (hb : hidden b = false) (hc : hidden c = false) :
    ∃ v, v ≠ [] ∧ v <:+ c :: low ∧ (countBack counted hidden n (u ++ b :: c :: low)).2 = v := by
  induction u generalizing n with
  | nil =>
    cases n with
    | zero => simp at hn
    | succ n =>
      rw [List.nil_append, countBack_cons, if_neg (by simp [hc])]
      obtain ⟨w, hw, -⟩ := @countBack_suffix _ counted hidden (if counted b then n else n + 1)
        (c :: low)
      exact ⟨_, countBack_ne_nil (List.cons_ne_nil c low), ⟨w, hw.symm⟩, rfl⟩
  | cons a u ih =>
    cases n with
    | zero => simp at hn
    | succ n =>
      obtain ⟨d, r, hd, hh⟩ := @exists_next _ hidden u b (c :: low)
      have hu' : ∀ x ∈ u, hidden x = false := fun x hx ↦ hu x (List.mem_cons_of_mem a hx)
      rw [List.cons_append, hd, countBack_cons, if_neg (by simp [hh hu' hb]), ← hd]
      exact ih (counted_lt hn) hu'

theorem backUntil_cons (a b : α) (l : List α) : backUntil stop hidden (a :: b :: l) =
    if hidden b || stop a then a :: b :: l else backUntil stop hidden (b :: l) := rfl

theorem backUntil_suffix (l : List α) : backUntil stop hidden l <:+ l := by
  induction l with
  | nil => exact List.suffix_rfl
  | cons a l ih =>
    cases l with
    | nil => exact List.suffix_rfl
    | cons b l =>
      rw [backUntil_cons]
      split
      · exact List.suffix_rfl
      · exact ih.trans (List.suffix_cons a _)

theorem backUntil_ne_nil (h : l ≠ []) : backUntil stop hidden l ≠ [] := by
  induction l with
  | nil => contradiction
  | cons a l ih =>
    cases l with
    | nil => exact h
    | cons b l =>
      rw [backUntil_cons]
      split
      · exact h
      · exact ih (List.cons_ne_nil b l)

theorem backUntil_done (h : backUntil stop hidden l = a :: u) :
    stop a = true ∨ atFront hidden (a :: u) = true := by
  induction l with
  | nil => simp [backUntil] at h
  | cons c l ih =>
    cases l with
    | nil =>
      obtain ⟨rfl, rfl⟩ := List.cons.inj h
      exact .inr rfl
    | cons b l =>
      rw [backUntil_cons] at h
      split at h
      · next hs =>
        obtain ⟨rfl, rfl⟩ := List.cons.inj h
        exact (Bool.or_eq_true_iff.mp hs).symm
      · exact ih h

/-- A search that meets `b`, with nothing hidden on the way, ends there at the latest. -/
theorem backUntil_append (hu : ∀ a ∈ u, hidden a = false) (hb : hidden b = false)
    (hs : stop b = true) :
    backUntil stop hidden (u ++ b :: low) = u.dropWhile (fun a ↦ !stop a) ++ b :: low := by
  induction u with
  | nil =>
    cases low with
    | nil => rfl
    | cons c low => simp [backUntil_cons, hs]
  | cons a u ih =>
    obtain ⟨c, r, hc, hh⟩ := @exists_next _ hidden u b low
    have hu' : ∀ x ∈ u, hidden x = false := fun x hx ↦ hu x (List.mem_cons_of_mem a hx)
    rw [List.cons_append, hc, backUntil_cons, hh hu' hb, Bool.false_or, ← hc]
    cases ha : stop a with
    | true => simp [ha]
    | false =>
      rw [if_neg (by simp), ih hu']
      simp [ha]

section Congr

variable (h : ∀ a ∈ l, hidden a = hidden' a)

include h

theorem atFront_congr : atFront hidden l = atFront hidden' l := by
  match l with
  | [] => rfl
  | [_] => rfl
  | _ :: b :: _ => exact h b (by simp)

theorem countBack_congr (n : ℕ) : countBack counted hidden n l = countBack counted hidden' n l := by
  induction l generalizing n with
  | nil => cases n <;> rfl
  | cons a l ih =>
    cases n with
    | zero => simp
    | succ n =>
      cases l with
      | nil => simp
      | cons b l =>
        rw [countBack_cons, countBack_cons, h b (by simp),
          ih fun x hx ↦ h x (List.mem_cons_of_mem a hx)]

theorem backUntil_congr : backUntil stop hidden l = backUntil stop hidden' l := by
  induction l with
  | nil => rfl
  | cons a l ih =>
    cases l with
    | nil => rfl
    | cons b l =>
      rw [backUntil_cons, backUntil_cons, h b (by simp),
        ih fun x hx ↦ h x (List.mem_cons_of_mem a hx)]

end Congr

theorem dropCounted_suffix (n : ℕ) (l : List α) : dropCounted counted n l <:+ l := by
  induction l generalizing n with
  | nil => cases n <;> exact List.suffix_rfl
  | cons a l ih =>
    cases n with
    | zero => exact List.suffix_rfl
    | succ n => exact (ih _).trans (List.suffix_cons a l)

end Lib
