import Mathlib.Data.List.DropRight
import Mathlib.Order.Lattice
import ZoneMinder.Lib.Run

namespace Lib

section Stable

variable {α κ : Type*} [LinearOrder κ] {key : α → κ} {l s s' : List α} {a : α}

/-- A list in the order of its keys, with the elements of one key as they come in another list. -/
structure StableSort (key : α → κ) (l s : List α) : Prop where
  sorted : s.Pairwise fun x y ↦ key x ≤ key y
  same : ∀ k, s.filter (key · = k) = l.filter (key · = k)

theorem eq_of_filter_eq (hs : s.Pairwise fun x y ↦ key x ≤ key y)
    (hs' : s'.Pairwise fun x y ↦ key x ≤ key y)
    (h : ∀ k, s.filter (key · = k) = s'.filter (key · = k)) : s = s' := by
  induction s generalizing s' with
  | nil =>
    cases s' with
    | nil => rfl
    | cons b t => simpa using h (key b)
  | cons a r ih =>
    cases s' with
    | nil => simpa using h (key a)
    | cons b t =>
      obtain ⟨ha, hr⟩ := List.pairwise_cons.mp hs
      obtain ⟨hb, ht⟩ := List.pairwise_cons.mp hs'
      have hab : key b ≤ key a := by
        have hmem : a ∈ (b :: t).filter (key · = key a) := by
          rw [← h]
          simp
        rcases List.mem_cons.mp (List.mem_of_mem_filter hmem) with rfl | hat
        · exact le_rfl
        · exact hb a hat
      have hba : key a ≤ key b := by
        have hmem : b ∈ (a :: r).filter (key · = key b) := by
          rw [h]
          simp
        rcases List.mem_cons.mp (List.mem_of_mem_filter hmem) with rfl | hbr
        · exact le_rfl
        · exact ha b hbr
      have hkey : key a = key b := le_antisymm hba hab
      obtain rfl : a = b := by
        have hhead := h (key a)
        rw [List.filter_cons_of_pos (by simp), List.filter_cons_of_pos (by simp [hkey])] at hhead
        exact (List.cons.inj hhead).1
      rw [ih hr ht fun k ↦ ?_]
      have htail := h k
      rw [List.filter_cons, List.filter_cons] at htail
      split at htail
      · exact (List.cons.inj htail).2
      · exact htail

theorem stableSort_mergeSort (key : α → κ) (l : List α) :
    StableSort key l (l.mergeSort fun x y ↦ key x ≤ key y) := by
  have htrans : ∀ x y z : α, decide (key x ≤ key y) = true → decide (key y ≤ key z) = true →
      decide (key x ≤ key z) = true := by
    intro x y z hxy hyz
    exact decide_eq_true ((of_decide_eq_true hxy).trans (of_decide_eq_true hyz))
  have htotal : ∀ x y : α, (decide (key x ≤ key y) || decide (key y ≤ key x)) = true := by
    intro x y
    simpa using le_total (key x) (key y)
  constructor
  · simpa using List.pairwise_mergeSort htrans htotal l
  · intro k
    -- the elements of a key are in order, and sorting leaves them so
    have hequal : (l.filter (key · = k)).Pairwise fun x y ↦ decide (key x ≤ key y) = true := by
      rw [List.pairwise_iff_forall_sublist]
      intro x y hxy
      have hx := List.of_mem_filter (hxy.subset (List.mem_cons_self ..))
      have hy := List.of_mem_filter (hxy.subset (List.mem_cons_of_mem _ (List.mem_cons_self ..)))
      simp only [decide_eq_true_eq] at hx hy ⊢
      rw [hx, hy]
    have hsub := (List.sublist_mergeSort htrans htotal hequal List.filter_sublist).filter (key · = k)
    simp only [List.filter_filter, Bool.and_self] at hsub
    exact (hsub.eq_of_length ((List.mergeSort_perm l _).filter _).length_eq.symm).symm

theorem StableSort.eq_mergeSort (h : StableSort key l s) :
    s = l.mergeSort fun x y ↦ key x ≤ key y :=
  have hsort := stableSort_mergeSort key l
  eq_of_filter_eq h.sorted hsort.sorted fun k ↦ (h.same k).trans (hsort.same k).symm

end Stable

variable {α : Type*} {larger : α → α → Bool} {size : ℕ} {a : α} {q l : List α}

/-- An element goes in front of those at the end that are larger than it. -/
def insertBack (larger : α → α → Bool) (a : α) (q : List α) : List α :=
  q.rdropWhile (larger a) ++ a :: q.rtakeWhile (larger a)

/-- A queue that is held to a size, with what it has handed on. -/
structure Delayed (α : Type*) where
  handed : List α := []
  queue : List α := []

def Delayed.push (larger : α → α → Bool) (size : ℕ) (d : Delayed α) (a : α) : Delayed α :=
  let queue := insertBack larger a d.queue
  if size < queue.length then ⟨d.handed ++ queue.head?.toList, queue.tail⟩ else ⟨d.handed, queue⟩

/-- What has come so far, first that which has been handed on. -/
def Delayed.all (d : Delayed α) : List α := d.handed ++ d.queue

def delay (larger : α → α → Bool) (size : ℕ) (l : List α) : Delayed α :=
  l.foldl (Delayed.push larger size) {}

theorem insertBack_perm (larger : α → α → Bool) (a : α) (q : List α) :
    (insertBack larger a q).Perm (a :: q) := by
  have hq : q.rdropWhile (larger a) ++ q.rtakeWhile (larger a) = q :=
    List.rdropWhile_append_rtakeWhile
  have hmiddle : (insertBack larger a q).Perm
      (a :: (q.rdropWhile (larger a) ++ q.rtakeWhile (larger a))) := List.perm_middle
  rwa [hq] at hmiddle

theorem insertBack_length (larger : α → α → Bool) (a : α) (q : List α) :
    (insertBack larger a q).length = q.length + 1 := (insertBack_perm larger a q).length_eq

theorem head_append_tail (q : List α) : q.head?.toList ++ q.tail = q := by
  cases q <;> rfl

theorem Delayed.push_all (d : Delayed α) :
    (d.push larger size a).all = d.handed ++ insertBack larger a d.queue := by
  rw [push]
  split
  · rw [all, List.append_assoc, head_append_tail]
  · rfl

theorem delay_concat : delay larger size (l ++ [a]) = (delay larger size l).push larger size a :=
  List.foldl_append

theorem delay_perm (larger : α → α → Bool) (size : ℕ) (l : List α) :
    (delay larger size l).all.Perm l := by
  induction l using List.reverseRecOn with
  | nil => exact .nil
  | append_singleton l a ih =>
    rw [delay_concat, Delayed.push_all]
    have hfront : ((delay larger size l).handed ++ a :: (delay larger size l).queue).Perm (a :: l) :=
      List.perm_middle.trans (ih.cons a)
    exact (((insertBack_perm ..).append_left _).trans hfront).trans (List.perm_append_singleton a l).symm

theorem Delayed.push_length (d : Delayed α) : (d.push larger size a).queue.length =
    if size < d.queue.length + 1 then d.queue.length else d.queue.length + 1 := by
  have hlength := insertBack_length larger a d.queue
  rw [push, ← hlength]
  split
  · rw [List.length_tail, hlength]
    rfl
  · rfl

theorem delay_length : (delay larger size l).queue.length = min l.length size := by
  induction l using List.reverseRecOn with
  | nil => exact (Nat.zero_min size).symm
  | append_singleton l a ih =>
    rw [delay_concat, Delayed.push_length, ih, List.length_append, List.length_singleton]
    split <;> omega

/-- The queue is full once something has been handed on. -/
theorem delay_full (h : (delay larger size l).handed ≠ []) :
    (delay larger size l).queue.length = size := by
  have hhanded := List.length_pos_iff.mpr h
  have hall := (delay_perm larger size l).length_eq
  have hqueue := @delay_length _ larger size l
  rw [Delayed.all, List.length_append] at hall
  omega

theorem insertBack_congr {larger' : α → α → Bool} (h : ∀ b ∈ q, larger a b = larger' a b) :
    insertBack larger a q = insertBack larger' a q := by
  rw [insertBack, insertBack]
  congr 1
  · induction q using List.reverseRecOn with
    | nil => rfl
    | append_singleton q b ih =>
      rw [List.rdropWhile_concat, List.rdropWhile_concat, h b (by simp),
        ih fun c hc ↦ h c (List.mem_append_left _ hc)]
  · congr 1
    induction q using List.reverseRecOn with
    | nil => rfl
    | append_singleton q b ih =>
      rw [List.rtakeWhile_concat, List.rtakeWhile_concat, h b (by simp),
        ih fun c hc ↦ h c (List.mem_append_left _ hc)]

theorem delay_congr {larger' : α → α → Bool} (h : ∀ a ∈ l, ∀ b ∈ l, larger a b = larger' a b) :
    delay larger size l = delay larger' size l := by
  induction l using List.reverseRecOn with
  | nil => rfl
  | append_singleton l a ih =>
    have hinsert : insertBack larger a (delay larger size l).queue =
        insertBack larger' a (delay larger size l).queue := by
      apply insertBack_congr
      intro b hb
      have hb : b ∈ l := (delay_perm larger size l).mem_iff.mp (List.mem_append_right _ hb)
      exact h a (by simp) b (List.mem_append_left _ hb)
    rw [delay_concat, delay_concat, Delayed.push, hinsert,
      ih fun x hx y hy ↦ h x (List.mem_append_left _ hx) y (List.mem_append_left _ hy)]
    rfl

section Sorts

variable {κ : Type*} [LinearOrder κ] {key : α → κ} {handed : List α}

theorem rdropWhile_le (hq : q.Pairwise fun x y ↦ key x ≤ key y) {b : α}
    (hb : b ∈ q.rdropWhile (fun x ↦ decide (key a < key x))) : key b ≤ key a := by
  have hne := List.ne_nil_of_mem hb
  have hlast := List.rdropWhile_last_not _ _ hne
  obtain ⟨init, last, heq⟩ := (List.eq_nil_or_concat' _).resolve_left hne
  have hsorted := hq.sublist (List.rdropWhile_prefix (fun x ↦ decide (key a < key x)) q).sublist
  rw [heq] at hsorted hb
  simp only [heq, List.getLast_append_singleton, decide_eq_true_eq, not_lt] at hlast
  rcases List.mem_append.mp hb with hb | hb
  · exact ((List.pairwise_append.mp hsorted).2.2 b hb last (List.mem_singleton_self last)).trans hlast
  · rwa [List.mem_singleton.mp hb]

/-- An element that is no smaller than what has been handed on finds its place in the queue. -/
theorem StableSort.insert (h : StableSort key l (handed ++ q))
    (hhanded : ∀ x ∈ handed, key x ≤ key a) :
    StableSort key (l ++ [a])
      (handed ++ insertBack (fun x y ↦ decide (key x < key y)) a q) := by
  obtain ⟨hfront, hq, hcross⟩ := List.pairwise_append.mp h.sorted
  have hsplit : q.rdropWhile (fun x ↦ decide (key a < key x)) ++
      q.rtakeWhile (fun x ↦ decide (key a < key x)) = q := List.rdropWhile_append_rtakeWhile
  have hlow := fun b ↦ rdropWhile_le (a := a) (b := b) hq
  have hhigh : ∀ b ∈ q.rtakeWhile (fun x ↦ decide (key a < key x)), key a < key b :=
    fun b hb ↦ of_decide_eq_true (List.mem_rtakeWhile_imp (p := fun x ↦ decide (key a < key x)) hb)
  rw [insertBack]
  generalize q.rdropWhile (fun x ↦ decide (key a < key x)) = low at hsplit hlow
  generalize q.rtakeWhile (fun x ↦ decide (key a < key x)) = high at hsplit hhigh
  subst hsplit
  obtain ⟨hlows, hhighs, hlowhigh⟩ := List.pairwise_append.mp hq
  constructor
  · simp only [List.pairwise_append, List.pairwise_cons, List.mem_append, List.mem_cons]
    refine ⟨hfront, ⟨hlows, ⟨fun b hb ↦ (hhigh b hb).le, hhighs⟩, ?_⟩, ?_⟩
    · rintro b hb c (rfl | hc)
      · exact hlow b hb
      · exact hlowhigh b hb c hc
    · rintro b hb c (hc | rfl | hc)
      · exact hcross b hb c (List.mem_append_left _ hc)
      · exact hhanded b hb
      · exact hcross b hb c (List.mem_append_right _ hc)
  · intro k
    rw [@List.filter_append _ _ l, ← h.same k]
    simp only [List.filter_append, List.filter_cons, List.filter_nil]
    by_cases hk : key a = k
    · have hnone : high.filter (key · = k) = [] := by
        rw [List.filter_eq_nil_iff]
        intro b hb
        simp only [decide_eq_true_eq]
        exact fun heq ↦ absurd (hhigh b hb) (by rw [heq, hk]; exact lt_irrefl k)
      simp [hk, hnone]
    · simp [hk]

/-- Where no more than `size` elements are late behind any other, the delay sorts. -/
theorem delay_sorts
    (hlate : Along (fun before a ↦ before.countP (fun x ↦ decide (key a < key x)) ≤ size) l) :
    StableSort key l (delay (fun x y ↦ decide (key x < key y)) size l).all := by
  induction l using List.reverseRecOn with
  | nil => exact ⟨.nil, fun _ ↦ rfl⟩
  | append_singleton l a ih =>
    obtain ⟨hbefore, ha⟩ := along_concat.mp hlate
    have hsort := ih hbefore
    rw [delay_concat, Delayed.push_all]
    apply hsort.insert
    intro x hx
    by_contra hlt
    -- what has been handed on is followed by a full queue, all of it larger
    have hfull := delay_full (List.ne_nil_of_mem hx)
    obtain ⟨-, -, hcross⟩ := List.pairwise_append.mp hsort.sorted
    have hqueue : (delay (fun x y ↦ decide (key x < key y)) size l).queue.countP
        (fun y ↦ decide (key a < key y)) = size := by
      rw [List.countP_eq_length.mpr, hfull]
      intro y hy
      exact decide_eq_true ((not_le.mp hlt).trans_le (hcross x hx y hy))
    have hhanded : 0 < (delay (fun x y ↦ decide (key x < key y)) size l).handed.countP
        (fun y ↦ decide (key a < key y)) :=
      List.countP_pos_iff.mpr ⟨x, hx, decide_eq_true (not_le.mp hlt)⟩
    rw [← (delay_perm (fun x y ↦ decide (key x < key y)) size l).countP_eq, Delayed.all,
      List.countP_append, hqueue] at ha
    omega

end Sorts

end Lib
