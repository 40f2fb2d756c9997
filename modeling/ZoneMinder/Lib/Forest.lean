import Mathlib.Data.Finset.Card
import Mathlib.Data.Finset.Filter
import Mathlib.Logic.Relation

namespace Lib

namespace Forest

variable {α β : Type}

/-- `d` is `a` or lies somewhere below it. -/
def Below (children : α → List α) : α → α → Prop :=
  Relation.ReflTransGen (fun a b ↦ b ∈ children a)

def Acyclic (children : α → List α) : Prop :=
  ∀ a b, b ∈ children a → ¬Below children b a

/-- An item of the node or of anything below it. -/
def Under (children : α → List α) (items : α → List β) (a : α) (x : β) : Prop :=
  ∃ d, Below children a d ∧ x ∈ items d

/-- The items of a node and of everything below it, as a recursion over the children finds them. -/
def collect (children : α → List α) (items : α → List β) : ℕ → α → List β
  | 0, _ => []
  | fuel + 1, a => items a ++ (children a).flatMap (collect children items fuel)

variable {children : α → List α} {items : α → List β} {a b d : α} {x : β}

theorem Below.refl (children : α → List α) (a : α) : Below children a a :=
  Relation.ReflTransGen.refl

theorem Below.child (h : b ∈ children a) : Below children a b := .single h

theorem Below.trans (h : Below children a b) (h' : Below children b d) : Below children a d :=
  Relation.ReflTransGen.trans h h'

theorem Below.mono {children' : α → List α} (hc : ∀ a b, b ∈ children a → b ∈ children' a)
    (h : Below children a d) : Below children' a d :=
  Relation.ReflTransGen.mono hc a d h

/-- A node is reached at once or through one of the children. -/
theorem below_iff : Below children a d ↔ a = d ∨ ∃ b ∈ children a, Below children b d := by
  constructor
  · intro h
    rcases h.cases_head with rfl | ⟨b, hb, hd⟩
    · exact .inl rfl
    · exact .inr ⟨b, hb, hd⟩
  · rintro (rfl | ⟨b, hb, hd⟩)
    · exact Below.refl _ _
    · exact (Below.child hb).trans hd

/-- Where only the edges into `e` are new, a new path is an old one or goes through `e`. -/
theorem Below.through_moved {children' : α → List α} {e : α}
    (he : ∀ a b, b ≠ e → b ∈ children' a → b ∈ children a) (h : Below children' a d) :
    Below children a d ∨
      (a = e ∨ ∃ c, Below children a c ∧ e ∈ children' c) ∧ Below children e d := by
  induction h with
  | refl => exact .inl (Below.refl _ _)
  | @tail b c hab hbc ih =>
    by_cases hc : c = e
    · subst hc
      right
      refine ⟨?_, Below.refl _ _⟩
      rcases ih with ih | ⟨ih, -⟩
      · exact .inr ⟨b, ih, hbc⟩
      · exact ih
    · have hchild : Below children b c := Below.child (he b c hc hbc)
      rcases ih with ih | ⟨hthrough, ih⟩
      · exact .inl (ih.trans hchild)
      · exact .inr ⟨hthrough, ih.trans hchild⟩

/-- Where only the edges into `e` are new, a new path avoids `e` or goes on from it as before. -/
theorem Below.of_moved {children' : α → List α} {e : α}
    (he : ∀ a b, b ≠ e → b ∈ children' a → b ∈ children a) (h : Below children' a d) :
    Below children a d ∨ Below children e d :=
  (h.through_moved he).imp id And.right

/-- What lies below `e` stays there when only edges into `e` go. -/
theorem Below.of_kept {children' : α → List α} {e : α}
    (he : ∀ a b, b ≠ e → b ∈ children a → b ∈ children' a) (h : Below children e d) :
    Below children' e d := by
  induction h with
  | refl => exact Below.refl _ _
  | @tail b c hab hbc ih =>
    by_cases hc : c = e
    · rw [hc]
      exact Below.refl _ _
    · exact ih.trans (Below.child (he b c hc hbc))

/-- A node may be moved to a place that is not below it. -/
theorem Acyclic.of_moved {children' : α → List α} {e : α} (hac : Acyclic children)
    (he : ∀ a b, b ≠ e → b ∈ children' a → b ∈ children a)
    (hplace : ∀ a, e ∈ children' a → ¬Below children e a) : Acyclic children' := by
  intro a b hab hba
  by_cases hb : b = e
  · subst hb
    rcases hba.of_moved he with hba | hba
    · exact hplace a hab hba
    · exact hplace a hab hba
  · have hold : b ∈ children a := he a b hb hab
    rcases hba.through_moved he with hba | ⟨hthrough, hea⟩
    · exact hac a b hold hba
    · rcases hthrough with rfl | ⟨c, hbc, hc⟩
      · exact hb rfl
      · exact hplace c hc ((hea.trans (Below.child hold)).trans hbc)

theorem under_of_mem_collect {fuel : ℕ} (h : x ∈ collect children items fuel a) :
    Under children items a x := by
  induction fuel generalizing a with
  | zero => simp [collect] at h
  | succ fuel ih =>
    rcases List.mem_append.mp h with hx | hx
    · exact ⟨a, Below.refl _ _, hx⟩
    · obtain ⟨b, hb, hxb⟩ := List.mem_flatMap.mp hx
      obtain ⟨d, hd, hxd⟩ := ih hxb
      exact ⟨d, (Below.child hb).trans hd, hxd⟩

open Classical in
/-- The nodes strictly below `a`, among finitely many. -/
noncomputable def descendants (children : α → List α) (nodes : Finset α) (a : α) : Finset α :=
  nodes.filter (fun d ↦ ∃ b ∈ children a, Below children b d)

theorem descendants_ssubset {nodes : Finset α} (hac : Acyclic children) (hb : b ∈ children a)
    (hn : b ∈ nodes) : descendants children nodes b ⊂ descendants children nodes a := by
  classical
  rw [Finset.ssubset_iff_of_subset]
  · refine ⟨b, ?_, ?_⟩
    · simp only [descendants, Finset.mem_filter]
      exact ⟨hn, b, hb, Below.refl _ _⟩
    · simp only [descendants, Finset.mem_filter, not_and]
      rintro - ⟨c, hc, hcb⟩
      exact hac b c hc hcb
  · intro d hd
    simp only [descendants, Finset.mem_filter] at hd ⊢
    obtain ⟨hdn, c, hc, hcd⟩ := hd
    exact ⟨hdn, b, hb, (Below.child hc).trans hcd⟩

theorem mem_collect_of_below {nodes : Finset α} (hac : Acyclic children)
    (hnodes : ∀ a b, b ∈ children a → b ∈ nodes) {fuel : ℕ}
    (hf : (descendants children nodes a).card < fuel) (hd : Below children a d)
    (hx : x ∈ items d) : x ∈ collect children items fuel a := by
  induction fuel generalizing a with
  | zero => omega
  | succ fuel ih =>
    rw [collect, List.mem_append]
    rcases below_iff.mp hd with rfl | ⟨b, hb, hbd⟩
    · exact .inl hx
    · right
      have hlt : (descendants children nodes b).card < (descendants children nodes a).card :=
        Finset.card_lt_card (descendants_ssubset hac hb (hnodes a b hb))
      exact List.mem_flatMap.mpr ⟨b, hb, ih (by omega) hbd⟩

/-- Where no node lies below itself, a recursion as deep as there are nodes finds everything. -/
theorem mem_collect_iff {nodes : Finset α} (hac : Acyclic children)
    (hnodes : ∀ a b, b ∈ children a → b ∈ nodes) {fuel : ℕ} (hf : nodes.card < fuel) :
    x ∈ collect children items fuel a ↔ Under children items a x := by
  classical
  refine ⟨under_of_mem_collect, ?_⟩
  rintro ⟨d, hd, hx⟩
  have hle : (descendants children nodes a).card ≤ nodes.card :=
    Finset.card_le_card (Finset.filter_subset _ _)
  exact mem_collect_of_below hac hnodes (by omega) hd hx

section Expand

/-- The recursion as a program runs it, merging what it finds; `none` while it is not done. -/
def expand (children : α → List α) (items : α → List β) (merge : List β → List β → List β) :
    ℕ → α → Option (List β)
  | 0, _ => none
  | fuel + 1, a =>
    (children a).foldlM (fun l b ↦ (expand children items merge fuel b).map (merge l)) (items a)

variable {merge : List β → List β → List β} {find : α → Option (List β)} {cs : List α}
  {l l' : List β} {fuel : ℕ}

theorem isSome_foldlM (hfind : ∀ b ∈ cs, (find b).isSome) :
    (cs.foldlM (fun l b ↦ (find b).map (merge l)) l).isSome := by
  induction cs generalizing l with
  | nil => rfl
  | cons c cs ih =>
    obtain ⟨found, hc⟩ := Option.isSome_iff_exists.mp (hfind c List.mem_cons_self)
    rw [List.foldlM_cons, hc]
    exact ih (fun b hb ↦ hfind b (List.mem_cons_of_mem c hb))

theorem isSome_of_foldlM (h : cs.foldlM (fun l b ↦ (find b).map (merge l)) l = some l') :
    ∀ b ∈ cs, (find b).isSome := by
  induction cs generalizing l with
  | nil => simp
  | cons c cs ih =>
    rw [List.foldlM_cons] at h
    obtain ⟨next, hnext, h⟩ := Option.bind_eq_some_iff.mp h
    obtain ⟨found, hc, -⟩ := Option.map_eq_some_iff.mp hnext
    exact List.forall_mem_cons.mpr ⟨by rw [hc]; rfl, ih h⟩

/-- A merge that keeps the members of both lists keeps all that is found. -/
theorem mem_of_foldlM (hmerge : ∀ l l', x ∈ merge l l' ↔ x ∈ l ∨ x ∈ l')
    (h : cs.foldlM (fun l b ↦ (find b).map (merge l)) l = some l') :
    x ∈ l' ↔ x ∈ l ∨ ∃ b ∈ cs, ∃ found, find b = some found ∧ x ∈ found := by
  induction cs generalizing l with
  | nil =>
    obtain rfl : l = l' := by simpa using h
    simp
  | cons c cs ih =>
    rw [List.foldlM_cons] at h
    obtain ⟨next, hnext, h⟩ := Option.bind_eq_some_iff.mp h
    obtain ⟨found, hc, rfl⟩ := Option.map_eq_some_iff.mp hnext
    rw [ih h, hmerge]
    simp [hc, or_assoc]

theorem foldlM_congr {find' : α → Option (List β)} (h : ∀ b ∈ cs, find b = find' b) :
    cs.foldlM (fun l b ↦ (find b).map (merge l)) l =
      cs.foldlM (fun l b ↦ (find' b).map (merge l)) l := by
  induction cs generalizing l with
  | nil => rfl
  | cons c cs ih =>
    obtain ⟨hc, hcs⟩ := List.forall_mem_cons.mp h
    rw [List.foldlM_cons, List.foldlM_cons, hc]
    exact congrArg _ (funext fun l ↦ ih hcs)

theorem foldlM_eq_foldl {f : α → List β} (h : ∀ b ∈ cs, find b = some (f b)) :
    cs.foldlM (fun l b ↦ (find b).map (merge l)) l =
      some (cs.foldl (fun l b ↦ merge l (f b)) l) := by
  induction cs generalizing l with
  | nil => rfl
  | cons c cs ih =>
    obtain ⟨hc, hcs⟩ := List.forall_mem_cons.mp h
    rw [List.foldlM_cons, hc]
    exact ih hcs

theorem isSome_expand_succ (h : (expand children items merge fuel a).isSome) :
    (expand children items merge (fuel + 1) a).isSome := by
  induction fuel generalizing a with
  | zero => simp [expand] at h
  | succ fuel ih =>
    obtain ⟨l, hl⟩ := Option.isSome_iff_exists.mp h
    exact isSome_foldlM fun b hb ↦ ih (isSome_of_foldlM hl b hb)

theorem isSome_expand_of_below (h : (expand children items merge fuel a).isSome)
    (hd : Below children a d) : (expand children items merge fuel d).isSome := by
  induction hd with
  | refl => exact h
  | tail hab hbc ih =>
    obtain ⟨l, hl⟩ := Option.isSome_iff_exists.mp ih
    cases fuel with
    | zero => simp [expand] at hl
    | succ fuel => exact isSome_expand_succ (isSome_of_foldlM hl _ hbc)

/-- Where the recursion ends, the node is not below itself. -/
theorem not_below_of_expand (h : (expand children items merge fuel a).isSome)
    (hb : b ∈ children a) : ¬Below children b a := by
  intro hba
  induction fuel with
  | zero => simp [expand] at h
  | succ fuel ih =>
    obtain ⟨l, hl⟩ := Option.isSome_iff_exists.mp h
    exact ih (isSome_expand_of_below (isSome_of_foldlM hl b hb) hba)

theorem isSome_expand_of_descendants {nodes : Finset α} (hac : Acyclic children)
    (hnodes : ∀ a b, b ∈ children a → b ∈ nodes)
    (hf : (descendants children nodes a).card < fuel) :
    (expand children items merge fuel a).isSome := by
  induction fuel generalizing a with
  | zero => omega
  | succ fuel ih =>
    refine isSome_foldlM fun b hb ↦ ih ?_
    have hlt : (descendants children nodes b).card < (descendants children nodes a).card :=
      Finset.card_lt_card (descendants_ssubset hac hb (hnodes a b hb))
    omega

theorem isSome_expand {nodes : Finset α} (hac : Acyclic children)
    (hnodes : ∀ a b, b ∈ children a → b ∈ nodes) (hf : nodes.card < fuel) :
    (expand children items merge fuel a).isSome := by
  classical
  have hle : (descendants children nodes a).card ≤ nodes.card :=
    Finset.card_le_card (Finset.filter_subset _ _)
  exact isSome_expand_of_descendants hac hnodes (by omega)

/-- A recursion that is cut off at a depth returns the same, where that is deep enough. -/
theorem expand_eq {cut : ℕ → α → List β}
    (hcut : ∀ fuel a,
      cut (fuel + 1) a = (children a).foldl (fun l b ↦ merge l (cut fuel b)) (items a))
    (h : (expand children items merge fuel a).isSome) :
    expand children items merge fuel a = some (cut fuel a) := by
  induction fuel generalizing a with
  | zero => simp [expand] at h
  | succ fuel ih =>
    obtain ⟨l, hl⟩ := Option.isSome_iff_exists.mp h
    rw [hcut]
    exact foldlM_eq_foldl fun b hb ↦ ih (isSome_of_foldlM hl b hb)

/-- What is returned is what is under the node. -/
theorem mem_expand (hmerge : ∀ l l', x ∈ merge l l' ↔ x ∈ l ∨ x ∈ l')
    (h : expand children items merge fuel a = some l) : x ∈ l ↔ Under children items a x := by
  induction fuel generalizing a l with
  | zero => simp [expand] at h
  | succ fuel ih =>
    rw [mem_of_foldlM hmerge h]
    constructor
    · rintro (hx | ⟨b, hb, found, hfound, hx⟩)
      · exact ⟨a, Below.refl _ _, hx⟩
      · obtain ⟨d, hd, hx⟩ := (ih hfound).mp hx
        exact ⟨d, (Below.child hb).trans hd, hx⟩
    · rintro ⟨d, hd, hx⟩
      rcases below_iff.mp hd with rfl | ⟨b, hb, hbd⟩
      · exact .inl hx
      · obtain ⟨found, hfound⟩ := Option.isSome_iff_exists.mp (isSome_of_foldlM h b hb)
        exact .inr ⟨b, hb, found, hfound, (ih hfound).mpr ⟨d, hbd, hx⟩⟩

end Expand

section Changes

variable {children' : α → List α} {items' : α → List β} {e : α}

end Changes

end Forest

end Lib
