import Mathlib.Algebra.BigOperators.Group.List.Basic
import Mathlib.Data.List.Basic
import Mathlib.Data.List.Induction
import Mathlib.Data.List.Infix

namespace Lib

section

variable {α : Type} [DecidableEq α] {start stop : α} {before after : Bool} {l l' : List α}

/-- Goes through a list in which every `stop` closes the `start` before it and no two of a
kind follow each other. The flag says whether one is open; none is a breach. -/
def brackets (start stop : α) : Bool → List α → Option Bool
  | isOpen, [] => some isOpen
  | isOpen, a :: l =>
    if a = start then if isOpen then none else brackets start stop true l
    else if a = stop then if isOpen then brackets start stop false l else none
    else brackets start stop isOpen l

theorem brackets_append (h : brackets start stop before l = some after) (l' : List α) :
    brackets start stop before (l ++ l') = brackets start stop after l' := by
  induction l generalizing before with
  | nil =>
    obtain rfl : before = after := Option.some.inj h
    rfl
  | cons a l ih =>
    rw [brackets] at h
    rw [List.cons_append, brackets]
    split at h
    · next hstart =>
      rw [if_pos hstart]
      split at h
      · contradiction
      · next hopen =>
        rw [if_neg hopen]
        exact ih h
    · next hstart =>
      rw [if_neg hstart]
      split at h
      · next hstop =>
        rw [if_pos hstop]
        split at h
        · next hopen =>
          rw [if_pos hopen]
          exact ih h
        · contradiction
      · next hstop =>
        rw [if_neg hstop]
        exact ih h

theorem brackets_start (h : brackets start stop before l = some false) :
    brackets start stop before (l ++ [start]) = some true := by
  rw [brackets_append h, brackets, if_pos rfl]
  rfl

theorem brackets_stop (hne : stop ≠ start) (h : brackets start stop before l = some true) :
    brackets start stop before (l ++ [stop]) = some false := by
  rw [brackets_append h, brackets, if_neg hne, if_pos rfl]
  rfl

theorem brackets_other {a : α} (hstart : a ≠ start) (hstop : a ≠ stop)
    (h : brackets start stop before l = some after) :
    brackets start stop before (l ++ [a]) = some after := by
  rw [brackets_append h, brackets, if_neg hstart, if_neg hstop]
  rfl

end

/-- What a text does to the brackets around it: it closes so many that were open before, and
leaves so many open. -/
@[ext]
structure Nest where
  closes : ℕ
  opens : ℕ
  deriving DecidableEq

namespace Nest

instance : One Nest := ⟨⟨0, 0⟩⟩

instance : Mul Nest :=
  ⟨fun a b ↦ ⟨a.closes + (b.closes - a.opens), b.opens + (a.opens - b.closes)⟩⟩

variable (a b : Nest)

@[simp] theorem closes_one : (1 : Nest).closes = 0 := rfl

@[simp] theorem opens_one : (1 : Nest).opens = 0 := rfl

theorem closes_mul : (a * b).closes = a.closes + (b.closes - a.opens) := rfl

theorem opens_mul : (a * b).opens = b.opens + (a.opens - b.closes) := rfl

instance : Monoid Nest where
  one_mul a := Nest.ext (by simp [closes_mul]) (by simp [opens_mul])
  mul_one a := Nest.ext (by simp [closes_mul]) (by simp [opens_mul])
  mul_assoc a b c := by
    apply Nest.ext
    · simp only [closes_mul, opens_mul]
      omega
    · simp only [closes_mul, opens_mul]
      omega

end Nest

variable {α : Type} [DecidableEq α] {opening closing : α} {l l' : List α}

def bracketNest (opening closing a : α) : Nest :=
  if a = opening then ⟨0, 1⟩ else if a = closing then ⟨1, 0⟩ else 1

theorem bracketNest_cases (opening closing a : α) :
    (bracketNest opening closing a).closes = 0 ∨
      (bracketNest opening closing a).closes = 1 ∧ (bracketNest opening closing a).opens = 0 := by
  unfold bracketNest
  split_ifs <;> simp

def nest (opening closing : α) (l : List α) : Nest :=
  (l.map (bracketNest opening closing)).prod

@[simp] theorem nest_nil : nest opening closing [] = 1 := rfl

@[simp] theorem nest_cons (a : α) :
    nest opening closing (a :: l) = bracketNest opening closing a * nest opening closing l := rfl

@[simp] theorem nest_append :
    nest opening closing (l ++ l') = nest opening closing l * nest opening closing l' := by
  simp [nest]

/-- A text without brackets. -/
theorem nest_of_free (h : ∀ a ∈ l, a ≠ opening ∧ a ≠ closing) : nest opening closing l = 1 := by
  apply List.prod_eq_one
  intro b hb
  obtain ⟨a, ha, rfl⟩ := List.mem_map.mp hb
  obtain ⟨hopening, hclosing⟩ := h a ha
  rw [bracketNest, if_neg hopening, if_neg hclosing]

/-- No prefix closes more than it opens, and the whole opens as often as it closes. -/
def Balanced (opening closing : α) (l : List α) : Prop :=
  (∀ i, (l.take i).count closing ≤ (l.take i).count opening) ∧ l.count opening = l.count closing

theorem nest_counts (hne : closing ≠ opening) (l : List α) :
    (nest opening closing l).opens + l.count closing =
      (nest opening closing l).closes + l.count opening := by
  induction l using List.reverseRecOn with
  | nil => rfl
  | append_singleton l a ih =>
    rw [nest_append, nest_cons, nest_nil, mul_one, Nest.opens_mul, Nest.closes_mul,
      List.count_append, List.count_append, bracketNest]
    by_cases hopening : a = opening
    · subst hopening
      simp [hne.symm]
      omega
    · by_cases hclosing : a = closing
      · subst hclosing
        simp [hne]
        omega
      · simp [hopening, hclosing]
        omega

theorem nest_closes_eq_zero_iff (hne : closing ≠ opening) (l : List α) :
    (nest opening closing l).closes = 0 ↔
      ∀ i, (l.take i).count closing ≤ (l.take i).count opening := by
  induction l using List.reverseRecOn with
  | nil => simp
  | append_singleton l a ih =>
    have hcounts := @nest_counts _ _ opening closing hne l
    have hlast := @nest_counts _ _ opening closing hne (l ++ [a])
    constructor
    · intro h i
      have hl : (nest opening closing l).closes = 0 := by
        rw [nest_append, Nest.closes_mul] at h
        omega
      by_cases hi : i ≤ l.length
      · rw [List.take_append_of_le_length hi]
        exact ih.mp hl i
      · rw [List.take_of_length_le (by simp; omega)]
        omega
    · intro h
      have hl : (nest opening closing l).closes = 0 := by
        apply ih.mpr
        intro i
        by_cases hi : i ≤ l.length
        · have hprefix := h i
          rwa [List.take_append_of_le_length hi] at hprefix
        · have hwhole := h l.length
          rw [List.take_append_of_le_length le_rfl, List.take_length] at hwhole
          rwa [List.take_of_length_le (by omega)]
      have hwhole := h (l ++ [a]).length
      rw [List.take_length] at hwhole
      rw [nest_append, nest_cons, nest_nil, mul_one, Nest.opens_mul, Nest.closes_mul] at hlast
      rw [nest_append, nest_cons, nest_nil, mul_one, Nest.closes_mul]
      rcases bracketNest_cases opening closing a with ha | ⟨ha, ha'⟩ <;> omega

theorem balanced_iff_nest (hne : closing ≠ opening) (l : List α) :
    Balanced opening closing l ↔ nest opening closing l = 1 := by
  have hcounts := @nest_counts _ _ opening closing hne l
  rw [Balanced, ← nest_closes_eq_zero_iff hne]
  constructor
  · rintro ⟨hcloses, hcount⟩
    apply Nest.ext
    · exact hcloses
    · rw [Nest.opens_one]
      omega
  · intro h
    rw [h, Nest.opens_one, Nest.closes_one] at hcounts
    exact ⟨by rw [h, Nest.closes_one], by omega⟩

end Lib
