import Mathlib.Data.List.Basic
import Mathlib.Logic.Function.Basic

namespace Lib

/-- A stretch of memory that may be read and written, and no further. -/
structure Cells (α : Type) where
  content : ℕ → α
  size : ℕ

section Rows

/-- A place in rows is in one row only. -/
theorem row_unique {L y y' r r' : ℕ} (hr : r < L) (hr' : r' < L) (h : y * L + r = y' * L + r') :
    y = y' ∧ r = r' := by
  have hL : 0 < L := Nat.zero_lt_of_lt hr
  have hdiv : (y * L + r) / L = (y' * L + r') / L := congrArg (· / L) h
  rw [Nat.mul_comm, Nat.mul_add_div hL, Nat.div_eq_of_lt hr, Nat.mul_comm y' L, Nat.mul_add_div hL,
    Nat.div_eq_of_lt hr', Nat.add_zero, Nat.add_zero] at hdiv
  subst hdiv
  exact ⟨rfl, Nat.add_left_cancel h⟩

theorem row_lt {L rows y r : ℕ} (hy : y < rows) (hr : r < L) : y * L + r < L * rows := by
  have hle : (y + 1) * L ≤ rows * L := Nat.mul_le_mul_right L hy
  rw [Nat.succ_mul, Nat.mul_comm rows] at hle
  omega

end Rows

namespace Cells

variable {α : Type} {c d : Cells α} {pos n i : ℕ} {g : ℕ → Option α} {v : ℕ → α}

def read (c : Cells α) (i : ℕ) : Option α := if i < c.size then some (c.content i) else none

def write (c : Cells α) (i : ℕ) (a : α) : Option (Cells α) :=
  if i < c.size then some { c with content := Function.update c.content i a } else none

/-- Cells written one after the other, with what has to be computed for each. -/
def fill (c : Cells α) (pos n : ℕ) (g : ℕ → Option α) : Option (Cells α) :=
  (List.range n).foldlM (fun d k ↦ (g k).bind fun a ↦ d.write (pos + k) a) c

/-- The cells with `n` of them replaced. -/
def overwrite (c : Cells α) (pos n : ℕ) (v : ℕ → α) : Cells α :=
  { c with content := fun i ↦ if pos ≤ i ∧ i < pos + n then v (i - pos) else c.content i }

@[simp] theorem overwrite_size : (c.overwrite pos n v).size = c.size := rfl

theorem overwrite_content : (c.overwrite pos n v).content i =
    if pos ≤ i ∧ i < pos + n then v (i - pos) else c.content i := rfl

theorem eq_of_content (hs : c.size = d.size) (hc : ∀ i, c.content i = d.content i) : c = d := by
  cases c
  cases d
  congr
  exact funext hc

theorem overwrite_zero : c.overwrite pos 0 v = c := by
  refine eq_of_content rfl fun i ↦ ?_
  rw [overwrite_content, if_neg (by omega)]

theorem read_of_lt (h : i < c.size) : c.read i = some (c.content i) := if_pos h

theorem write_of_lt {a : α} (h : i < c.size) :
    c.write i a = some { c with content := Function.update c.content i a } := if_pos h

/-- Two stretches, the second right behind the first. -/
theorem overwrite_overwrite {k : ℕ} {w : ℕ → α} (hw : ∀ i < k, w i = v (n + i)) :
    (c.overwrite pos n v).overwrite (pos + n) k w = c.overwrite pos (n + k) v := by
  refine eq_of_content rfl fun i ↦ ?_
  simp only [overwrite_content]
  by_cases h : pos + n ≤ i ∧ i < pos + n + k
  · rw [if_pos h, if_pos (by omega), hw _ (by omega)]
    congr 1
    omega
  · rw [if_neg h]
    by_cases h' : pos ≤ i ∧ i < pos + n
    · rw [if_pos h', if_pos (by omega)]
    · rw [if_neg h', if_neg (by omega)]

/-- Two stretches, the second right before the first. -/
theorem overwrite_behind {k : ℕ} {w : ℕ → α} (hw : ∀ i < k, w i = v (n + i)) :
    (c.overwrite (pos + n) k w).overwrite pos n v = c.overwrite pos (n + k) v := by
  rw [← overwrite_overwrite hw]
  refine eq_of_content rfl fun i ↦ ?_
  simp only [overwrite_content]
  split_ifs <;> first | rfl | omega

theorem update_eq_overwrite {a : α} (ha : v 0 = a) :
    { c with content := Function.update c.content pos a } = c.overwrite pos 1 v := by
  refine eq_of_content rfl fun i ↦ ?_
  simp only [overwrite_content, Function.update_apply]
  by_cases h : i = pos
  · subst i
    rw [if_pos rfl, if_pos (by omega), Nat.sub_self, ha]
  · rw [if_neg h, if_neg (by omega)]

theorem fill_eq (hg : ∀ k < n, g k = some (v k)) (hsize : pos + n ≤ c.size) :
    c.fill pos n g = some (c.overwrite pos n v) := by
  induction n with
  | zero => rw [overwrite_zero]; rfl
  | succ n ih =>
    have h := ih (fun k hk ↦ hg k (by omega)) (by omega)
    have hlast : (c.overwrite pos n v).write (pos + n) (v n) =
        some (c.overwrite pos (n + 1) v) := by
      rw [write_of_lt (by rw [overwrite_size]; omega),
        update_eq_overwrite (a := v n) (v := fun i ↦ v (n + i)) rfl,
        overwrite_overwrite fun _ _ ↦ rfl]
    unfold fill at h ⊢
    rw [List.range_succ, List.foldlM_append, h]
    simp only [List.foldlM_cons, List.foldlM_nil, Option.bind_eq_bind, Option.bind_some,
      hg n (by omega), hlast]
    rfl

/-- What was written had been computed. -/
theorem of_fill (h : c.fill pos n g = some d) : ∀ k < n, (g k).isSome := by
  induction n generalizing d with
  | zero => exact fun k hk ↦ absurd hk (Nat.not_lt_zero k)
  | succ n ih =>
    unfold fill at h
    rw [List.range_succ, List.foldlM_append] at h
    obtain ⟨c', hc', hlast⟩ := Option.bind_eq_some_iff.mp h
    rw [List.foldlM_cons] at hlast
    obtain ⟨c'', hc'', -⟩ := Option.bind_eq_some_iff.mp hlast
    obtain ⟨a, ha, -⟩ := Option.bind_eq_some_iff.mp hc''
    intro k hk
    rcases Nat.lt_succ_iff_lt_or_eq.mp hk with hk | rfl
    · exact ih hc' k hk
    · exact Option.isSome_of_eq_some ha

/-- A run that writes the cells of `P`, with values that do not depend on what the cells hold. -/
def Paints (run : Cells α → Option (Cells α)) (size : ℕ) (P : ℕ → Prop) : Prop :=
  ∃ v : ℕ → α, ∀ c : Cells α, c.size = size → ∃ d, run c = some d ∧ d.size = size ∧
    ∀ i, (P i → d.content i = v i) ∧ (¬ P i → d.content i = c.content i)

namespace Paints

variable {run next : Cells α → Option (Cells α)} {size : ℕ} {P Q : ℕ → Prop}

theorem congr (h : Paints run size P) (hPQ : ∀ i, P i ↔ Q i) : Paints run size Q := by
  obtain rfl : P = Q := funext fun i ↦ propext (hPQ i)
  exact h

theorem skip [Inhabited α] : Paints (some : Cells α → _) size fun _ ↦ False :=
  ⟨fun _ ↦ default, fun c hc ↦ ⟨c, rfl, hc, fun _ ↦ ⟨False.elim, fun _ ↦ rfl⟩⟩⟩

theorem bind (h : Paints run size P) (hnext : Paints next size Q) :
    Paints (fun c ↦ (run c).bind next) size fun i ↦ P i ∨ Q i := by
  classical
  obtain ⟨v, hv⟩ := h
  obtain ⟨w, hw⟩ := hnext
  refine ⟨fun i ↦ if Q i then w i else v i, fun c hc ↦ ?_⟩
  obtain ⟨d, hd, hdsize, hdi⟩ := hv c hc
  obtain ⟨e, he, hesize, hei⟩ := hw d hdsize
  have hrun : (run c).bind next = some e := by rw [hd, Option.bind_some, he]
  refine ⟨e, hrun, hesize, fun i ↦ ⟨fun hi ↦ ?_, fun hi ↦ ?_⟩⟩
  · by_cases hQ : Q i
    · rw [(hei i).1 hQ]
      exact (if_pos hQ).symm
    · rw [(hei i).2 hQ, (hdi i).1 (hi.resolve_right hQ)]
      exact (if_neg hQ).symm
  · rw [(hei i).2 fun hQ ↦ hi (.inr hQ), (hdi i).2 fun hP ↦ hi (.inl hP)]

theorem fill (hg : ∀ k < n, g k = some (v k)) (hsize : pos + n ≤ size) :
    Paints (fun c ↦ c.fill pos n g) size fun i ↦ pos ≤ i ∧ i < pos + n := by
  refine ⟨fun i ↦ v (i - pos), fun c hc ↦ ⟨_, fill_eq hg (hc ▸ hsize), hc, fun i ↦ ?_⟩⟩
  rw [overwrite_content]
  exact ⟨fun hi ↦ if_pos hi, fun hi ↦ if_neg hi⟩

theorem write {a : α} (hsize : pos < size) : Paints (fun c ↦ c.write pos a) size (· = pos) := by
  refine ⟨fun _ ↦ a, fun c hc ↦ ⟨_, write_of_lt (hc ▸ hsize), hc, fun i ↦ ⟨?_, ?_⟩⟩⟩
  · rintro rfl
    exact Function.update_self ..
  · exact fun hi ↦ Function.update_of_ne hi ..

theorem foldlM [Inhabited α] {β : Type} {l : List β} {f : Cells α → β → Option (Cells α)}
    {P : β → ℕ → Prop} (h : ∀ b ∈ l, Paints (f · b) size (P b)) :
    Paints (fun c ↦ l.foldlM f c) size fun i ↦ ∃ b ∈ l, P b i := by
  induction l with
  | nil => exact skip.congr fun i ↦ by simp
  | cons b l ih =>
    have hrest := ih fun b' hb' ↦ h b' (List.mem_cons_of_mem b hb')
    refine ((h b List.mem_cons_self).bind hrest).congr fun i ↦ ?_
    simp

end Paints

/-- The last of the rounds of a loop that has something. -/
def last {β : Type} (n : ℕ) (m : ℕ → Option β) : Option β := (List.range n).reverse.findSome? m

section Last

variable {β γ : Type} {m m' : ℕ → Option β} {k : ℕ}

theorem last_succ (n : ℕ) (m : ℕ → Option β) : last (n + 1) m = (m n).or (last n m) := by
  rw [last, List.range_succ, List.reverse_append, List.reverse_singleton, List.singleton_append,
    List.findSome?_cons]
  cases m n <;> rfl

theorem last_eq_none_iff : last n m = none ↔ ∀ k < n, m k = none := by
  simp [last]

theorem exists_of_last {b : β} (h : last n m = some b) : ∃ k < n, m k = some b := by
  obtain ⟨k, hk, hb⟩ := List.exists_of_findSome?_eq_some h
  exact ⟨k, List.mem_range.mp (List.mem_reverse.mp hk), hb⟩

theorem last_congr (h : ∀ k < n, m k = m' k) : last n m = last n m' := by
  induction n with
  | zero => rfl
  | succ n ih =>
    rw [last_succ, last_succ, h n (Nat.lt_succ_self n), ih fun k hk ↦ h k (by omega)]

theorem last_map (f : β → γ) : last n (fun k ↦ (m k).map f) = (last n m).map f := by
  induction n with
  | zero => rfl
  | succ n ih =>
    rw [last_succ, last_succ, ih]
    cases m n <;> rfl

/-- Only one round has something. -/
theorem last_eq (hk : k < n) (h : ∀ j < n, j ≠ k → m j = none) : last n m = m k := by
  induction n with
  | zero => exact absurd hk (Nat.not_lt_zero k)
  | succ n ih =>
    rw [last_succ]
    rcases Nat.lt_succ_iff_lt_or_eq.mp hk with hlt | rfl
    · rw [h n (Nat.lt_succ_self n) (Nat.ne_of_gt hlt), ih hlt fun j hj ↦ h j (by omega)]
      rfl
    · rw [last_eq_none_iff.mpr fun j hj ↦ h j (by omega) (Nat.ne_of_lt hj), Option.or_none]

end Last

/-- A run that replaces what `w` has, and leaves the rest. -/
def Sets (run : Cells α → Option (Cells α)) (size : ℕ) (w : ℕ → Option α) : Prop :=
  ∀ c : Cells α, c.size = size → run c = some ⟨fun i ↦ (w i).getD (c.content i), size⟩

namespace Sets

variable {run next : Cells α → Option (Cells α)} {size : ℕ} {w w' : ℕ → Option α}

theorem congr (h : Sets run size w) (hw : ∀ i, w i = w' i) : Sets run size w' := by
  obtain rfl : w = w' := funext hw
  exact h

theorem of_eq (h : Sets run size w) (hrun : ∀ c, c.size = size → next c = run c) :
    Sets next size w := fun c hc ↦ (hrun c hc).trans (h c hc)

theorem skip : Sets (some : Cells α → _) size fun _ ↦ none := by
  rintro c rfl
  rfl

theorem ite {p : Prop} [Decidable p] (h : p → Sets run size w) :
    Sets (fun c ↦ if p then run c else some c) size fun i ↦ if p then w i else none := by
  intro c hc
  by_cases hp : p
  · simp only [if_pos hp]
    exact h hp c hc
  · simp only [if_neg hp]
    exact skip c hc

theorem bind (h : Sets run size w) (hnext : Sets next size w') :
    Sets (fun c ↦ (run c).bind next) size fun i ↦ (w' i).or (w i) := by
  intro c hc
  dsimp only
  rw [h c hc, Option.bind_some, hnext _ rfl]
  congr 2
  funext i
  cases w' i <;> rfl

theorem write {a : α} (hsize : pos < size) :
    Sets (fun c ↦ c.write pos a) size fun i ↦ if i = pos then some a else none := by
  rintro c rfl
  dsimp only
  rw [write_of_lt hsize]
  congr 2
  funext i
  rw [Function.update_apply]
  split_ifs <;> rfl

theorem fill (hg : ∀ k < n, g k = some (v k)) (hsize : pos + n ≤ size) :
    Sets (fun c ↦ c.fill pos n g) size
      fun i ↦ if pos ≤ i ∧ i < pos + n then some (v (i - pos)) else none := by
  rintro c rfl
  dsimp only
  rw [fill_eq hg hsize, overwrite]
  congr 2
  funext i
  split_ifs <;> rfl

/-- A later round is seen where it replaces something. -/
theorem range {f : ℕ → Cells α → Option (Cells α)} {w : ℕ → ℕ → Option α}
    (h : ∀ k < n, Sets (f k) size (w k)) :
    Sets (fun c ↦ (List.range n).foldlM (fun c k ↦ f k c) c) size fun i ↦ last n (w · i) := by
  induction n with
  | zero => exact skip
  | succ n ih =>
    have hrest := ih fun k hk ↦ h k (by omega)
    refine ((hrest.bind (h n (Nat.lt_succ_self n))).congr
      fun i ↦ (last_succ n (w · i)).symm).of_eq fun c _ ↦ ?_
    rw [List.range_succ, List.foldlM_append]
    refine congrArg _ (funext fun d ↦ ?_)
    rw [List.foldlM_cons]
    cases f n d <;> rfl

end Sets

end Cells

end Lib
