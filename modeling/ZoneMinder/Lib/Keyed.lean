import Mathlib.Data.List.Basic
import Mathlib.Data.List.Pairwise
import Mathlib.Data.List.TakeWhile

namespace Lib

section

variable {α : Type} {p : α → Bool}

/-- `Thins p l l'`: the list `l'` is `l` without some of its elements, and no
element satisfying `p` is missing. -/
inductive Thins (p : α → Bool) : List α → List α → Prop
  | nil : Thins p [] []
  | keep (a : α) {l l' : List α} : Thins p l l' → Thins p (a :: l) (a :: l')
  | drop (a : α) {l l' : List α} : p a = false → Thins p l l' → Thins p (a :: l) l'

namespace Thins

variable {l l' k k' : List α} {a : α}

theorem refl (l : List α) : Thins p l l := by
  induction l with
  | nil => exact .nil
  | cons a l ih => exact .keep a ih

theorem append (h : Thins p l l') (h' : Thins p k k') : Thins p (l ++ k) (l' ++ k') := by
  induction h with
  | nil => exact h'
  | keep a h ih => exact .keep a ih
  | drop a ha h ih => exact .drop a ha ih

theorem trans {m : List α} (h : Thins p l k) (h' : Thins p k m) : Thins p l m := by
  induction h generalizing m with
  | nil => exact h'
  | keep a h ih =>
    cases h' with
    | keep _ h' => exact .keep a (ih h')
    | drop _ ha h' => exact .drop a ha (ih h')
  | drop a ha h ih => exact .drop a ha (ih h')

theorem snoc (h : Thins p l l') (a : α) : Thins p (l ++ [a]) (l' ++ [a]) := h.append (refl [a])

theorem snoc_drop (h : Thins p l l') (ha : p a = false) : Thins p (l ++ [a]) l' := by
  simpa only [List.append_nil] using h.append (.drop a ha .nil)

theorem sublist (h : Thins p l l') : l'.Sublist l := by
  induction h with
  | nil => exact .slnil
  | keep a h ih => exact ih.cons_cons a
  | drop a ha h ih => exact ih.cons a

theorem mem (h : Thins p l l') (ha : p a = true) (hm : a ∈ l) : a ∈ l' := by
  induction h with
  | nil => exact hm
  | keep b h ih =>
    rcases List.mem_cons.mp hm with rfl | hm
    · exact List.mem_cons_self
    · exact List.mem_cons_of_mem b (ih hm)
  | drop b hb h ih =>
    rcases List.mem_cons.mp hm with rfl | hm
    · rw [ha] at hb; contradiction
    · exact ih hm

/-- Nothing satisfying a predicate stronger than `p` is missing, and no order is changed. -/
theorem filter_eq (h : Thins p l l') {q : α → Bool} (hq : ∀ a, q a = true → p a = true) :
    l'.filter q = l.filter q := by
  induction h with
  | nil => rfl
  | keep a h ih => simp only [List.filter_cons, ih]
  | drop a ha h ih =>
    have hqa : q a = false := by
      cases hqa : q a
      · rfl
      · rw [hq a hqa] at ha; contradiction
    simpa only [List.filter_cons, hqa, Bool.false_eq_true, if_false] using ih

theorem split {l : List α} (h : Thins p l (k ++ a :: k')) :
    ∃ m m', l = m ++ a :: m' ∧ Thins p m k ∧ Thins p m' k' := by
  generalize hn : k ++ a :: k' = n at h
  induction h generalizing k with
  | nil => simp at hn
  | @keep b l l' h ih =>
    cases k with
    | nil =>
      obtain ⟨rfl, rfl⟩ : a = b ∧ k' = l' := by simpa using hn
      exact ⟨[], l, rfl, .nil, h⟩
    | cons c k =>
      obtain ⟨rfl, hk⟩ : c = b ∧ k ++ a :: k' = l' := by simpa using hn
      obtain ⟨m, m', rfl, hm, hm'⟩ := ih hk
      exact ⟨c :: m, m', rfl, .keep c hm, hm'⟩
  | drop b hb h ih =>
    obtain ⟨m, m', rfl, hm, hm'⟩ := ih hn
    exact ⟨b :: m, m', rfl, .drop b hb hm, hm'⟩

theorem eraseP (l : List α) : Thins p l (l.eraseP fun a ↦ !p a) := by
  induction l with
  | nil => exact .nil
  | cons a l ih =>
    cases ha : p a
    · simpa [List.eraseP_cons, ha] using Thins.drop a ha (refl l)
    · simpa [List.eraseP_cons, ha] using Thins.keep a ih

end Thins

end

variable {α : Type} (key : α → ℕ)

/-- A list whose elements carry strictly increasing keys. -/
def Increasing (l : List α) : Prop := l.Pairwise fun a b ↦ key a < key b

variable {key} {l lo hi : List α} {a b : α} {i : ℕ}

namespace Increasing

theorem sublist {l' : List α} (h : Increasing key l) (hs : l'.Sublist l) : Increasing key l' :=
  List.Pairwise.sublist hs h

theorem snoc (h : Increasing key l) (ha : ∀ b ∈ l, key b < key a) : Increasing key (l ++ [a]) :=
  List.pairwise_append.mpr ⟨h, List.pairwise_singleton _ a,
    fun b hb c hc ↦ by rw [List.mem_singleton.mp hc]; exact ha b hb⟩

theorem head_le (h : Increasing key (a :: l)) (hb : b ∈ a :: l) : key a ≤ key b := by
  rcases List.mem_cons.mp hb with rfl | hb
  · exact le_rfl
  · exact ((List.pairwise_cons.mp h).1 b hb).le

theorem lt_of_append (h : Increasing key (lo ++ a :: hi)) :
    (∀ b ∈ lo, key b < key a) ∧ ∀ b ∈ hi, key a < key b := by
  obtain ⟨-, hhi, hlo⟩ := List.pairwise_append.mp h
  exact ⟨fun b hb ↦ hlo b hb a List.mem_cons_self, (List.pairwise_cons.mp hhi).1⟩

theorem takeWhile_ne (h : Increasing key (lo ++ a :: hi)) :
    (lo ++ a :: hi).takeWhile (fun b ↦ key b ≠ key a) = lo := by
  have hlo := h.lt_of_append.1
  rw [List.takeWhile_append_of_pos fun b hb ↦ by simpa using (hlo b hb).ne]
  simp

theorem dropWhile_ne (h : Increasing key (lo ++ a :: hi)) :
    (lo ++ a :: hi).dropWhile (fun b ↦ key b ≠ key a) = a :: hi := by
  have hlo := h.lt_of_append.1
  rw [List.dropWhile_append_of_pos fun b hb ↦ by simpa using (hlo b hb).ne]
  simp

theorem exists_split (h : Increasing key l) (m : ℕ) :
    ∃ lo hi, l = lo ++ hi ∧ (∀ a ∈ lo, key a < m) ∧ ∀ a ∈ hi, m ≤ key a := by
  induction l with
  | nil => exact ⟨[], [], rfl, by simp, by simp⟩
  | cons a l ih =>
    by_cases ha : key a < m
    · obtain ⟨lo, hi, rfl, hlo, hhi⟩ := ih (List.pairwise_cons.mp h).2
      refine ⟨a :: lo, hi, rfl, fun b hb ↦ ?_, hhi⟩
      rcases List.mem_cons.mp hb with rfl | hb
      · exact ha
      · exact hlo b hb
    · exact ⟨[], a :: l, rfl, by simp, fun b hb ↦ (not_lt.mp ha).trans (h.head_le hb)⟩

theorem mem_takeWhile_lt (h : Increasing key l) (m : ℕ) :
    a ∈ l.takeWhile (fun b ↦ key b < m) ↔ a ∈ l ∧ key a < m := by
  obtain ⟨lo, hi, rfl, hlo, hhi⟩ := h.exists_split m
  have htake : (lo ++ hi).takeWhile (fun b ↦ decide (key b < m)) = lo := by
    rw [List.takeWhile_append_of_pos fun b hb ↦ decide_eq_true (hlo b hb)]
    cases hi with
    | nil => simp
    | cons b hi =>
      have := hhi b List.mem_cons_self
      simp [Nat.not_lt.mpr this]
  rw [htake]
  constructor
  · intro ha
    exact ⟨List.mem_append_left _ ha, hlo a ha⟩
  · rintro ⟨ha, hlt⟩
    refine (List.mem_append.mp ha).resolve_right fun hm ↦ ?_
    have := hhi a hm
    omega

theorem mem_suffix {l' : List α} (h : Increasing key l) (hs : l' <:+ l) (hb : b ∈ l') (ha : a ∈ l)
    (hle : key b ≤ key a) : a ∈ l' := by
  obtain ⟨t, rfl⟩ := hs
  rcases List.mem_append.mp ha with ha | ha
  · exact absurd ((List.pairwise_append.mp h).2.2 a ha b hb) (by omega)
  · exact ha

end Increasing

end Lib
