import Mathlib.Data.Finset.Image
import Mathlib.Data.Finset.Union
import Mathlib.Data.Fintype.EquivFin
import Mathlib.Logic.Equiv.Basic
import Mathlib.Logic.Relation

namespace Lib

variable {α ι : Type}

/-- From one point of a set to another by way of adjacent points of the set. -/
def Linked (adj : α → α → Prop) (W : Finset α) : α → α → Prop :=
  Relation.ReflTransGen fun a b ↦ a ∈ W ∧ b ∈ W ∧ adj a b

open Classical in
noncomputable def region (adj : α → α → Prop) (W : Finset α) (p : α) : Finset α :=
  {q ∈ W | Linked adj W p q}

open Classical in
/-- The connected components of a set of points. -/
noncomputable def regions (adj : α → α → Prop) (W : Finset α) : Finset (Finset α) :=
  W.image (region adj W)

/-- The parts, some of them empty, are the connected components of `W`, each once. -/
structure Splits (adj : α → α → Prop) (W : Finset α) (parts : ι → Finset α) : Prop where
  subset : ∀ i, parts i ⊆ W
  cover : ∀ p ∈ W, ∃ i, p ∈ parts i
  disjoint : ∀ {i j p}, p ∈ parts i → p ∈ parts j → i = j
  linked : ∀ {i p q}, p ∈ parts i → q ∈ parts i → Linked adj W p q
  apart : ∀ {i j p q}, p ∈ parts i → q ∈ parts j → adj p q → i = j

variable {adj : α → α → Prop} {W : Finset α} {parts : ι → Finset α} {i t s : ι} {p q : α}
  {F : Finset α}

theorem Linked.mono {V : Finset α} (hWV : W ⊆ V) (h : Linked adj W p q) : Linked adj V p q := by
  have hle : (fun a b ↦ a ∈ W ∧ b ∈ W ∧ adj a b) ≤ fun a b ↦ a ∈ V ∧ b ∈ V ∧ adj a b :=
    fun a b hab ↦ ⟨hWV hab.1, hWV hab.2.1, hab.2.2⟩
  exact Relation.ReflTransGen.mono hle p q h

theorem mem_region : q ∈ region adj W p ↔ q ∈ W ∧ Linked adj W p q := by
  simp only [region, Finset.mem_filter]

theorem mem_regions : F ∈ regions adj W ↔ ∃ p ∈ W, region adj W p = F := by
  simp only [regions, Finset.mem_image]

theorem subset_of_mem_regions (hF : F ∈ regions adj W) : F ⊆ W := by
  obtain ⟨r, -, rfl⟩ := mem_regions.mp hF
  intro q hq
  exact (mem_region.mp hq).1

/-- A point that touches no other is a component. -/
theorem eq_singleton_of_mem_regions (hF : F ∈ regions adj W) (hp : p ∈ F)
    (halone : ∀ q ∈ W, ¬ adj p q ∧ ¬ adj q p) : F = {p} := by
  obtain ⟨r, -, rfl⟩ := mem_regions.mp hF
  have hr : r = p := by
    rcases Relation.ReflTransGen.cases_tail (mem_region.mp hp).2 with rfl | ⟨b, -, hb⟩
    · rfl
    · exact ((halone b hb.1).2 hb.2.2).elim
  subst r
  refine Finset.eq_singleton_iff_unique_mem.mpr ⟨hp, fun q hq ↦ ?_⟩
  rcases Relation.ReflTransGen.cases_head (mem_region.mp hq).2 with rfl | ⟨b, hb, -⟩
  · rfl
  · exact ((halone b hb.2.1).1 hb.2.2).elim

namespace Splits

theorem empty : Splits adj ∅ fun _ : ι ↦ (∅ : Finset α) where
  subset _ := by simp
  cover p hp := by simp at hp
  disjoint h := by simp at h
  linked h := by simp at h
  apart h := by simp at h

theorem mem_of_linked (h : Splits adj W parts) (hp : p ∈ parts i) (hl : Linked adj W p q) :
    q ∈ parts i := by
  induction hl with
  | refl => exact hp
  | tail _ hab ih =>
    obtain ⟨j, hj⟩ := h.cover _ hab.2.1
    rw [h.apart ih hj hab.2.2]
    exact hj

theorem region_eq (h : Splits adj W parts) (hp : p ∈ parts i) : region adj W p = parts i := by
  ext q
  rw [mem_region]
  constructor
  · rintro ⟨-, hl⟩
    exact h.mem_of_linked hp hl
  · intro hq
    exact ⟨h.subset i hq, h.linked hp hq⟩

theorem mem_regions (h : Splits adj W parts) :
    F ∈ regions adj W ↔ ∃ i, parts i = F ∧ F.Nonempty := by
  rw [Lib.mem_regions]
  constructor
  · rintro ⟨p, hp, rfl⟩
    obtain ⟨i, hi⟩ := h.cover p hp
    rw [h.region_eq hi]
    exact ⟨i, rfl, p, hi⟩
  · rintro ⟨i, rfl, p, hp⟩
    exact ⟨p, h.subset i hp, h.region_eq hp⟩

theorem eq_of_parts_eq (h : Splits adj W parts) {j : ι} (hi : (parts i).Nonempty)
    (he : parts i = parts j) : i = j := by
  obtain ⟨p, hp⟩ := hi
  exact h.disjoint hp (he ▸ hp)

/-- The parts in another order. -/
theorem comp_equiv (h : Splits adj W parts) (e : ι ≃ ι) : Splits adj W fun i ↦ parts (e i) where
  subset i := h.subset (e i)
  cover p hp := by
    obtain ⟨i, hi⟩ := h.cover p hp
    exact ⟨e.symm i, by rwa [e.apply_symm_apply]⟩
  disjoint hi hj := e.injective (h.disjoint hi hj)
  linked hp hq := h.linked hp hq
  apart hp hq ha := e.injective (h.apart hp hq ha)

theorem exists_empty [Infinite ι] (h : Splits adj W parts) (avoid : Finset ι) :
    ∃ i ∉ avoid, parts i = ∅ := by
  classical
  choose f hf using h.cover
  obtain ⟨i, hi⟩ := Infinite.exists_notMem_finset 
    (avoid ∪ W.attach.image fun p : {p // p ∈ W} ↦ f p.1 p.2)
  rw [Finset.mem_union, not_or] at hi
  refine ⟨i, hi.1, Finset.eq_empty_iff_forall_notMem.mpr fun p hp ↦ hi.2 ?_⟩
  have hW := h.subset i hp
  rw [h.disjoint hp (hf p hW)]
  exact Finset.mem_image_of_mem (fun p : {p // p ∈ W} ↦ f p.1 p.2) (Finset.mem_attach W ⟨p, hW⟩)

/-- A part gets an index outside of a finite set, in exchange for its own. -/
theorem move [Infinite ι] [DecidableEq ι] (h : Splits adj W parts) (live : Finset ι)
    (t : ι) : ∃ d parts', d ∉ live ∧ Splits adj W parts' ∧ parts' t = ∅ ∧ parts' d = parts t ∧
      parts d = ∅ ∧ ∀ i, i ≠ t → i ≠ d → parts' i = parts i := by
  obtain ⟨d, hd, hnone⟩ := h.exists_empty live
  refine ⟨d, fun i ↦ parts (Equiv.swap t d i), hd, h.comp_equiv _, ?_, ?_, hnone, ?_⟩
  · simpa only [Equiv.swap_apply_left] using hnone
  · simp only [Equiv.swap_apply_right]
  · intro i hit hid
    simp only [Equiv.swap_apply_of_ne_of_ne hit hid]

end Splits

section Joined

variable [DecidableEq α]

/-- What a part that the new point touches has in common with it. -/
theorem Splits.linked_new (h : Splits adj W parts) (hadj : ∀ {a b}, adj a b → adj b a)
    (hnear : (parts i).Nonempty → ∃ q ∈ parts i, adj p q) (hq : q ∈ parts i) :
    Linked adj (insert p W) q p ∧ Linked adj (insert p W) p q := by
  obtain ⟨r, hr, hpr⟩ := hnear ⟨q, hq⟩
  have hW := h.subset i hr
  have hsub : W ⊆ insert p W := Finset.subset_insert p W
  constructor
  · apply ((h.linked hq hr).mono hsub).tail
    exact ⟨hsub hW, Finset.mem_insert_self p W, hadj hpr⟩
  · apply Relation.ReflTransGen.head _ ((h.linked hr hq).mono hsub)
    exact ⟨Finset.mem_insert_self p W, hsub hW, hpr⟩

variable [DecidableEq ι]

/-- A point and the two parts next to it become one. -/
def joined (parts : ι → Finset α) (t s : ι) (p : α) : ι → Finset α :=
  Function.update (Function.update parts s ∅) t (insert p (parts t ∪ parts s))

theorem joined_self : joined parts t s p t = insert p (parts t ∪ parts s) := by
  simp [joined]

theorem joined_of_ne (ht : i ≠ t) (hs : i ≠ s) : joined parts t s p i = parts i := by
  simp [joined, ht, hs]

theorem joined_other (h : s ≠ t) : joined parts t s p s = ∅ := by
  simp [joined, h]

theorem mem_joined : q ∈ joined parts t s p i ↔
    i = t ∧ (q = p ∨ q ∈ parts t ∨ q ∈ parts s) ∨ (i ≠ t ∧ i ≠ s) ∧ q ∈ parts i := by
  by_cases ht : i = t
  · subst i
    simp [joined_self]
  · by_cases hs : i = s
    · subst i
      simp [joined_other ht, ht]
    · simp [joined_of_ne ht hs, ht, hs]

theorem biUnion_joined {live : Finset ι} (ht : t ∈ live) (hs : s ∈ live) :
    live.biUnion (joined parts t s p) = insert p (live.biUnion parts) := by
  ext q
  simp only [Finset.mem_biUnion, mem_joined, Finset.mem_insert]
  constructor
  · rintro ⟨i, hi, ⟨rfl, rfl | hq | hq⟩ | ⟨-, hq⟩⟩
    · exact .inl rfl
    · exact .inr ⟨_, ht, hq⟩
    · exact .inr ⟨_, hs, hq⟩
    · exact .inr ⟨i, hi, hq⟩
  · rintro (rfl | ⟨i, hi, hq⟩)
    · exact ⟨t, ht, .inl ⟨rfl, .inl rfl⟩⟩
    · by_cases hit : i = t
      · exact ⟨t, ht, .inl ⟨rfl, .inr (.inl (hit ▸ hq))⟩⟩
      · by_cases his : i = s
        · exact ⟨t, ht, .inl ⟨rfl, .inr (.inr (his ▸ hq))⟩⟩
        · exact ⟨i, hi, .inr ⟨⟨hit, his⟩, hq⟩⟩

section Emptied

variable {live : Finset ι} {parts' : ι → Finset α}

omit [DecidableEq α] in
/-- A part that is emptied is one part less. -/
theorem card_nonempty_emptied (ht : t ∈ live) (hn : (parts t).Nonempty) (hempty : parts' t = ∅)
    (hsame : ∀ i ∈ live, i ≠ t → ((parts i).Nonempty ↔ (parts' i).Nonempty)) :
    {i ∈ live | (parts i).Nonempty}.card = {i ∈ live | (parts' i).Nonempty}.card + 1 := by
  have hone : {i ∈ live | (parts i).Nonempty} =
      insert t {i ∈ live | (parts' i).Nonempty} := by
    ext i
    simp only [Finset.mem_filter, Finset.mem_insert]
    by_cases hit : i = t
    · subst i
      exact iff_of_true ⟨ht, hn⟩ (.inl rfl)
    · rw [or_iff_right hit, and_congr_right_iff]
      exact fun hi ↦ hsame i hi hit
  rw [hone, Finset.card_insert_of_notMem (by simp [hempty])]

theorem biUnion_emptied (ht : t ∈ live) (hempty : parts' t = ∅)
    (hsame : ∀ i ∈ live, i ≠ t → parts' i = parts i) :
    live.biUnion parts = live.biUnion parts' ∪ parts t := by
  ext q
  simp only [Finset.mem_biUnion, Finset.mem_union]
  constructor
  · rintro ⟨i, hi, hq⟩
    by_cases hit : i = t
    · exact .inr (hit ▸ hq)
    · exact .inl ⟨i, hi, by rwa [hsame i hi hit]⟩
  · rintro (⟨i, hi, hq⟩ | hq)
    · by_cases hit : i = t
      · subst i
        rw [hempty] at hq
        exact absurd hq (Finset.notMem_empty q)
      · exact ⟨i, hi, by rwa [hsame i hi hit] at hq⟩
    · exact ⟨t, ht, hq⟩

end Emptied

namespace Splits

theorem join (h : Splits adj W parts) (hadj : ∀ {a b}, adj a b → adj b a) (hp : p ∉ W)
    (hnear : ∀ q ∈ W, adj p q → q ∈ parts t ∨ q ∈ parts s)
    (ht : (parts t).Nonempty → ∃ q ∈ parts t, adj p q)
    (hs : (parts s).Nonempty → ∃ q ∈ parts s, adj p q) :
    Splits adj (insert p W) (joined parts t s p) := by
  have hnot : ∀ i, p ∉ parts i := fun i hi ↦ hp (h.subset i hi)
  have hlink : ∀ q, q = p ∨ q ∈ parts t ∨ q ∈ parts s →
      Linked adj (insert p W) q p ∧ Linked adj (insert p W) p q := by
    rintro q (rfl | hq | hq)
    · exact ⟨.refl, .refl⟩
    · exact h.linked_new hadj ht hq
    · exact h.linked_new hadj hs hq
  -- a part that is not joined has no neighbour among what is
  have hapart : ∀ {i a b}, i ≠ t → i ≠ s → a ∈ parts i → (b = p ∨ b ∈ parts t ∨ b ∈ parts s) →
      ¬ adj a b ∧ ¬ adj b a := by
    intro i a b hit his ha hb
    suffices hs : ¬ adj a b from ⟨hs, fun hba ↦ hs (hadj hba)⟩
    intro hab
    rcases hb with rfl | hb | hb
    · rcases hnear a (h.subset i ha) (hadj hab) with hq | hq
      · exact hit (h.disjoint ha hq)
      · exact his (h.disjoint ha hq)
    · exact hit (h.apart ha hb hab)
    · exact his (h.apart ha hb hab)
  constructor
  · intro i q hq
    rw [mem_joined] at hq
    rcases hq with ⟨-, rfl | hq | hq⟩ | ⟨-, hq⟩
    · exact Finset.mem_insert_self _ W
    all_goals exact Finset.mem_insert_of_mem (h.subset _ hq)
  · intro q hq
    rw [Finset.mem_insert] at hq
    rcases hq with rfl | hq
    · exact ⟨t, mem_joined.mpr (.inl ⟨rfl, .inl rfl⟩)⟩
    · obtain ⟨i, hi⟩ := h.cover q hq
      by_cases hit : i = t
      · exact ⟨t, mem_joined.mpr (.inl ⟨rfl, .inr (.inl (hit ▸ hi))⟩)⟩
      · by_cases his : i = s
        · exact ⟨t, mem_joined.mpr (.inl ⟨rfl, .inr (.inr (his ▸ hi))⟩)⟩
        · exact ⟨i, mem_joined.mpr (.inr ⟨⟨hit, his⟩, hi⟩)⟩
  · intro i j q hi hj
    rw [mem_joined] at hi hj
    rcases hi with ⟨rfl, hi⟩ | ⟨hne, hi⟩ <;> rcases hj with ⟨rfl, hj⟩ | ⟨hne', hj⟩
    · rfl
    · rcases hi with rfl | hi | hi
      · exact (hnot _ hj).elim
      · exact h.disjoint hi hj
      · exact (hne'.2 (h.disjoint hj hi)).elim
    · rcases hj with rfl | hj | hj
      · exact (hnot _ hi).elim
      · exact h.disjoint hi hj
      · exact (hne.2 (h.disjoint hi hj)).elim
    · exact h.disjoint hi hj
  · intro i a b ha hb
    rw [mem_joined] at ha hb
    rcases ha with ⟨rfl, ha⟩ | ⟨hne, ha⟩ <;> rcases hb with ⟨he, hb⟩ | ⟨hne', hb⟩
    · exact (hlink a ha).1.trans (hlink b hb).2
    · exact (hne'.1 rfl).elim
    · exact (hne.1 he).elim
    · exact (h.linked ha hb).mono (Finset.subset_insert p W)
  · intro i j a b ha hb hab
    rw [mem_joined] at ha hb
    rcases ha with ⟨rfl, ha⟩ | ⟨hne, ha⟩ <;> rcases hb with ⟨he, hb⟩ | ⟨hne', hb⟩
    · exact he.symm
    · exact ((hapart hne'.1 hne'.2 hb ha).2 hab).elim
    · exact ((hapart hne.1 hne.2 ha hb).1 hab).elim
    · exact h.apart ha hb hab

end Splits

end Joined

end Lib
