import Mathlib.Data.List.Basic
import Mathlib.Data.List.Defs
import Mathlib.Data.List.Forall2

namespace Lib

open List

section

variable {α β : Type}

/-- Consecutive runs of `n` elements, the last of which may be shorter. -/
def chunks (n : ℕ) (l : List α) : List (List α) := (l.toChunksAux (n - 1) 0).2

theorem toChunksAux_flatten (n k : ℕ) (l : List α) :
    (l.toChunksAux n k).1 ++ (l.toChunksAux n k).2.flatten = l := by
  induction l generalizing k with
  | nil => rfl
  | cons a l ih =>
    cases k with
    | zero => exact congrArg (a :: ·) (ih n)
    | succ k => exact congrArg (a :: ·) (ih k)

theorem toChunksAux_length (n k : ℕ) (l : List α) :
    (l.toChunksAux n k).2.length = (l.length - k + n) / (n + 1) := by
  induction l generalizing k with
  | nil =>
    rw [List.toChunksAux, List.length_nil, List.length_nil, Nat.zero_sub, Nat.zero_add,
      Nat.div_eq_of_lt (Nat.lt_succ_self n)]
  | cons a l ih =>
    cases k with
    | zero =>
      rw [List.toChunksAux, List.length_cons, List.length_cons, ih n]
      rw [Nat.sub_zero, show l.length + 1 + n = l.length + (n + 1) by omega,
        Nat.add_div_right _ n.succ_pos]
      rcases Nat.lt_or_ge l.length n with h | h
      · rw [Nat.sub_eq_zero_of_le (Nat.le_of_lt h), Nat.zero_add,
          Nat.div_eq_of_lt (Nat.lt_succ_self n), Nat.div_eq_of_lt (Nat.lt_succ_of_lt h)]
      · rw [Nat.sub_add_cancel h]
    | succ k =>
      rw [List.toChunksAux, ih k, List.length_cons, Nat.add_sub_add_right]

theorem toChunksAux_ne_nil (n k : ℕ) (l : List α) : ∀ g ∈ (l.toChunksAux n k).2, g ≠ [] := by
  induction l generalizing k with
  | nil => intro g hg; contradiction
  | cons a l ih =>
    cases k with
    | zero =>
      intro g hg
      rcases List.mem_cons.mp hg with rfl | hg
      · exact List.cons_ne_nil _ _
      · exact ih n g hg
    | succ k => exact ih k

theorem chunks_flatten (n : ℕ) (l : List α) : (chunks n l).flatten = l := by
  have h := toChunksAux_flatten (n - 1) 0 l
  cases l with
  | nil => rfl
  | cons a l => exact h

theorem chunks_ne_nil (n : ℕ) (l : List α) : ∀ g ∈ chunks n l, g ≠ [] :=
  toChunksAux_ne_nil _ _ l

theorem chunks_length {n : ℕ} (hn : 0 < n) (l : List α) :
    (chunks n l).length = (l.length + n - 1) / n := by
  rw [chunks, toChunksAux_length, Nat.sub_zero, Nat.sub_add_cancel hn, Nat.add_sub_assoc hn]

theorem chunks_length_le {limit n : ℕ} (hn : 0 < n) {l : List α}
    (h : l.length ≤ limit * n) : (chunks n l).length ≤ limit := by
  rw [chunks_length hn, Nat.div_le_iff_le_mul_add_pred hn]
  rw [Nat.mul_comm] at h
  omega

end

variable {α β γ : Type*} {R : α → β → Prop} {S : β → γ → Prop} {T : α → γ → Prop}
  {l : List α} {l' : List β} {l'' : List γ} {a : α} {b : β} {i : ℕ}

/-- Whatever is on the right of a pointwise relation has its like on the left. -/
theorem exists_left_of_forall₂ (h : Forall₂ R l l') (hb : b ∈ l') : ∃ a ∈ l, R a b := by
  induction h with
  | nil => exact absurd hb not_mem_nil
  | cons hab _ ih =>
    rcases mem_cons.mp hb with rfl | hb
    · exact ⟨_, mem_cons_self, hab⟩
    · obtain ⟨a, ha, hR⟩ := ih hb
      exact ⟨a, mem_cons_of_mem _ ha, hR⟩

theorem getElem?_of_forall₂ (h : Forall₂ R l l') (ha : l[i]? = some a) :
    ∃ b, l'[i]? = some b ∧ R a b := by
  induction h generalizing i with
  | nil => cases ha
  | cons hab _ ih =>
    cases i with
    | zero =>
      obtain rfl := Option.some.inj ha
      exact ⟨_, rfl, hab⟩
    | succ i => exact ih ha

theorem forall₂_comp (hT : ∀ a b c, R a b → S b c → T a c) (h : Forall₂ R l l')
    (h' : Forall₂ S l' l'') : Forall₂ T l l'' := by
  induction h generalizing l'' with
  | nil =>
    cases h'
    exact .nil
  | cons hab _ ih =>
    cases h' with
    | cons hbc h' => exact .cons (hT _ _ _ hab hbc) (ih h')

theorem any_of_forall₂ {f : α → Bool} {g : β → Bool} (hR : ∀ a b, R a b → g b = f a)
    (h : Forall₂ R l l') : l'.any g = l.any f := by
  induction h with
  | nil => rfl
  | cons hab _ ih => rw [any_cons, any_cons, hR _ _ hab, ih]

end Lib
