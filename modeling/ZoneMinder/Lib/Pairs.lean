import Mathlib.Algebra.Ring.Parity
import Mathlib.Data.List.Rotate
import Mathlib.Data.List.Zip
import Mathlib.Order.Lattice

namespace Lib

section

variable {α : Type*} {l : List α} {p : α × α} {n : ℕ}

/-- Each element of a cyclic list with the one that follows it. -/
def cyclicPairs (l : List α) : List (α × α) := l.zip (l.rotate 1)

theorem cyclicPairs_rotate : cyclicPairs (l.rotate n) = (cyclicPairs l).rotate n := by
  rw [cyclicPairs, cyclicPairs, List.rotate_rotate, Nat.add_comm, ← List.rotate_rotate]
  exact (List.zipWith_rotate_distrib Prod.mk l (l.rotate 1) n (List.length_rotate l 1).symm).symm

theorem rotate_one_reverse (l : List α) : (l.rotate 1).reverse.rotate 1 = l.reverse := by
  cases l with
  | nil => rfl
  | cons a l => simp

/-- The list read backwards has its pairs turned round. -/
theorem cyclicPairs_reverse :
    cyclicPairs l.reverse = (((cyclicPairs l).map Prod.swap).reverse).rotate 1 := by
  have hlength : (l.rotate 1).length = l.length := List.length_rotate l 1
  calc cyclicPairs l.reverse = ((l.rotate 1).reverse.rotate 1).zip (l.reverse.rotate 1) := by
        rw [cyclicPairs, rotate_one_reverse]
    _ = ((l.rotate 1).reverse.zip l.reverse).rotate 1 :=
        (List.zipWith_rotate_distrib Prod.mk _ _ 1 (by simp)).symm
    _ = (((cyclicPairs l).map Prod.swap).reverse).rotate 1 := by
        rw [cyclicPairs, List.zip_swap, List.zip_eq_zipWith, List.zip_eq_zipWith,
          List.reverse_zipWith hlength]

theorem map_snd_cyclicPairs : (cyclicPairs l).map Prod.snd = l.rotate 1 :=
  List.map_snd_zip (List.length_rotate l 1).le

theorem mem_of_mem_cyclicPairs (h : p ∈ cyclicPairs l) : p.1 ∈ l ∧ p.2 ∈ l :=
  ⟨(List.of_mem_zip h).1, List.mem_rotate.mp (List.of_mem_zip h).2⟩

theorem exists_mem_cyclicPairs {a : α} (h : a ∈ l) : ∃ p ∈ cyclicPairs l, p.2 = a := by
  rw [← List.mem_rotate (n := 1), ← map_snd_cyclicPairs] at h
  exact List.mem_map.mp h

theorem countP_fst_cyclicPairs (p : α → Bool) :
    (cyclicPairs l).countP (fun e ↦ p e.1) = l.countP p := by
  have hmap : (cyclicPairs l).map Prod.fst = l := List.map_fst_zip (List.length_rotate l 1).ge
  calc (cyclicPairs l).countP (fun e ↦ p e.1) = ((cyclicPairs l).map Prod.fst).countP p :=
        List.countP_map.symm
    _ = l.countP p := by rw [hmap]

theorem countP_snd_cyclicPairs (p : α → Bool) :
    (cyclicPairs l).countP (fun e ↦ p e.2) = l.countP p := by
  calc (cyclicPairs l).countP (fun e ↦ p e.2) = ((cyclicPairs l).map Prod.snd).countP p :=
        List.countP_map.symm
    _ = (l.rotate 1).countP p := by rw [map_snd_cyclicPairs]
    _ = l.countP p := (List.rotate_perm l 1).countP_eq p

theorem countP_ne_add (p : α → Bool) (pairs : List (α × α)) :
    pairs.countP (fun e ↦ p e.1 != p e.2) + 2 * pairs.countP (fun e ↦ p e.1 && p e.2) =
      pairs.countP (fun e ↦ p e.1) + pairs.countP fun e ↦ p e.2 := by
  induction pairs with
  | nil => rfl
  | cons e pairs ih =>
    simp only [List.countP_cons]
    cases p e.1 <;> cases p e.2 <;> simp <;> omega

/-- Once round a cyclic list a property changes an even number of times. -/
theorem even_countP_ne (p : α → Bool) : Even ((cyclicPairs l).countP fun e ↦ p e.1 != p e.2) := by
  have h := countP_ne_add p (cyclicPairs l)
  rw [countP_fst_cyclicPairs, countP_snd_cyclicPairs] at h
  rw [Nat.even_iff]
  omega

theorem eq_of_zip_concat {p : α → Bool} {a c : α} {t : List α}
    (h : ∀ e ∈ (a :: t).zip (t ++ [c]), p e.1 = p e.2) : ∀ b ∈ a :: t, p b = p c := by
  induction t generalizing a with
  | nil =>
    intro b hb
    rw [List.mem_singleton.mp hb]
    exact h (a, c) (List.mem_singleton_self _)
  | cons b t ih =>
    rw [List.cons_append, List.zip_cons_cons, List.forall_mem_cons] at h
    have hrest := ih h.2
    rw [List.forall_mem_cons]
    exact ⟨h.1.trans (hrest b List.mem_cons_self), hrest⟩

/-- Where a property holds of one element and not of another, it changes twice at least. -/
theorem two_le_countP_ne {p : α → Bool} {a b : α} (ha : a ∈ l) (hb : b ∈ l) (hab : p a ≠ p b) :
    2 ≤ (cyclicPairs l).countP fun e ↦ p e.1 != p e.2 := by
  have heven := even_countP_ne (l := l) p
  have hpos : (cyclicPairs l).countP (fun e ↦ p e.1 != p e.2) ≠ 0 := by
    intro hzero
    rw [List.countP_eq_zero] at hzero
    cases l with
    | nil => cases ha
    | cons c t =>
      have hpairs : cyclicPairs (c :: t) = (c :: t).zip (t ++ [c]) := by
        rw [cyclicPairs, List.rotate_cons_succ, List.rotate_zero]
      have hall : ∀ e ∈ (c :: t).zip (t ++ [c]), p e.1 = p e.2 := by
        intro e he
        rw [← hpairs] at he
        by_contra hne
        exact hzero e he (bne_iff_ne.mpr hne)
      have hsame := eq_of_zip_concat hall
      exact hab ((hsame a ha).trans (hsame b hb).symm)
  rw [Nat.even_iff] at heven
  omega

end

section

variable {α : Type*}

/-- The elements of a list two by two. -/
def pairs : List α → List (α × α)
  | a :: b :: l => (a, b) :: pairs l
  | _ => []

theorem mem_pairs {l : List α} {a b : α} :
    (a, b) ∈ pairs l ↔ ∃ k, a ∈ l[2 * k]? ∧ b ∈ l[2 * k + 1]? := by
  fun_induction pairs l with
  | case1 c d l ih =>
    rw [List.mem_cons, ih]
    constructor
    · rintro (h | ⟨k, ha, hb⟩)
      · obtain ⟨rfl, rfl⟩ := Prod.mk.inj h
        exact ⟨0, rfl, rfl⟩
      · exact ⟨k + 1, ha, hb⟩
    · rintro ⟨k, ha, hb⟩
      cases k with
      | zero =>
        obtain rfl := Option.some.inj ha
        obtain rfl := Option.some.inj hb
        exact .inl rfl
      | succ k => exact .inr ⟨k, ha, hb⟩
  | case2 l hl =>
    refine ⟨fun h ↦ absurd h List.not_mem_nil, ?_⟩
    rintro ⟨k, -, hb⟩
    obtain ⟨hlt, -⟩ := List.getElem?_eq_some_iff.mp hb
    match l, hl with
    | [], _ => exact absurd hlt (Nat.not_lt_zero _)
    | [_], _ =>
      rw [List.length_singleton] at hlt
      omega
    | c :: d :: l, hl => exact absurd rfl (hl c d l)

theorem mem_of_mem_pairs {l : List α} {p : α × α} (h : p ∈ pairs l) : p.1 ∈ l ∧ p.2 ∈ l := by
  obtain ⟨k, ha, hb⟩ := mem_pairs.mp h
  exact ⟨List.mem_of_getElem? ha, List.mem_of_getElem? hb⟩

theorem exists_pair {l : List α} {k : ℕ} (heven : Even l.length) (hk : 2 * k < l.length) :
    ∃ a b, (a ∈ l[2 * k]? ∧ b ∈ l[2 * k + 1]?) ∧ (a, b) ∈ pairs l := by
  have hk' : 2 * k + 1 < l.length := by
    rw [Nat.even_iff] at heven
    omega
  have hmem : l[2 * k] ∈ l[2 * k]? ∧ l[2 * k + 1] ∈ l[2 * k + 1]? :=
    ⟨List.getElem?_eq_getElem hk, List.getElem?_eq_getElem hk'⟩
  exact ⟨_, _, hmem, mem_pairs.mpr ⟨k, hmem⟩⟩

end

section

variable {α : Type*} [LinearOrder α] {l : List α} {a x : α} {i : ℕ}

/-- In order, the elements up to a bound come first. -/
theorem le_iff_lt_countP (hl : l.Pairwise (· ≤ ·)) (ha : a ∈ l[i]?) :
    a ≤ x ↔ i < l.countP fun b ↦ decide (b ≤ x) := by
  induction l generalizing i with
  | nil => cases ha
  | cons d l ih =>
    obtain ⟨hd, hl⟩ := List.pairwise_cons.mp hl
    by_cases hdx : d ≤ x
    · rw [List.countP_cons_of_pos (p := fun b ↦ decide (b ≤ x)) (decide_eq_true hdx)]
      cases i with
      | zero =>
        obtain rfl := Option.some.inj ha
        exact iff_of_true hdx (Nat.succ_pos _)
      | succ i => exact (ih hl ha).trans (Nat.succ_lt_succ_iff).symm
    · have hnone : (d :: l).countP (fun b ↦ decide (b ≤ x)) = 0 := by
        refine List.countP_eq_zero.mpr fun b hb ↦ ?_
        rw [decide_eq_true_eq]
        rcases List.mem_cons.mp hb with rfl | hb
        · exact hdx
        · exact fun hbx ↦ hdx (le_trans (hd b hb) hbx)
      rw [hnone]
      refine iff_of_false ?_ (Nat.not_lt_zero i)
      rcases List.mem_cons.mp (List.mem_of_getElem? ha) with rfl | ha
      · exact hdx
      · exact fun hax ↦ hdx (le_trans (hd a ha) hax)

/-- Where an odd number of elements is beyond a bound, it lies within a pair. -/
theorem exists_pair_of_odd (hl : l.Pairwise (· ≤ ·)) (heven : Even l.length)
    (hodd : Odd (l.countP fun b ↦ decide (x < b))) : ∃ p ∈ pairs l, p.1 ≤ x ∧ x < p.2 := by
  have hsplit : l.length = l.countP (fun b ↦ decide (b ≤ x)) + l.countP fun b ↦ decide (x < b) := by
    rw [List.length_eq_countP_add_countP fun b ↦ decide (b ≤ x)]
    simp only [decide_eq_true_eq, not_le]
  have hcount : Odd (l.countP fun b ↦ decide (b ≤ x)) := by
    rw [Nat.even_iff] at heven
    rw [Nat.odd_iff] at hodd ⊢
    omega
  obtain ⟨k, hk⟩ := hcount
  obtain ⟨a, b, ⟨ha, hb⟩, hpair⟩ := exists_pair (k := k) heven (by omega)
  refine ⟨(a, b), hpair, (le_iff_lt_countP hl ha).mpr (by omega), ?_⟩
  rw [← not_le, le_iff_lt_countP hl hb]
  omega

theorem exists_pair_of_mem (hl : l.Pairwise (· ≤ ·)) (heven : Even l.length) (hx : x ∈ l) :
    ∃ p ∈ pairs l, p.1 ≤ x ∧ x ≤ p.2 := by
  obtain ⟨i, hi, rfl⟩ := List.getElem_of_mem hx
  obtain ⟨a, b, ⟨ha, hb⟩, hpair⟩ := exists_pair (k := i / 2) heven (by omega)
  refine ⟨(a, b), hpair, ?_⟩
  have hle {j k : ℕ} {d e : α} (hd : d ∈ l[j]?) (he : e ∈ l[k]?) (hjk : j ≤ k) : d ≤ e := by
    obtain ⟨hj, rfl⟩ := List.getElem?_eq_some_iff.mp hd
    obtain ⟨hk, rfl⟩ := List.getElem?_eq_some_iff.mp he
    rcases Nat.eq_or_lt_of_le hjk with rfl | hlt
    · exact le_rfl
    · exact List.pairwise_iff_getElem.mp hl j k hj hk hlt
  have hmem : l[i] ∈ l[i]? := List.getElem?_eq_getElem hi
  exact ⟨hle ha hmem (by omega), hle hmem hb (by omega)⟩

end

end Lib
