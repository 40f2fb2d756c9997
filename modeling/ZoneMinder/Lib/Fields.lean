import Mathlib.Data.List.DropRight
import Mathlib.Data.List.TakeWhile

namespace Lib

variable {α : Type} {p q : α → Bool} {l m u v w : List α}

/-- A list without what `p` holds of at its two ends. -/
def trim (p : α → Bool) (l : List α) : List α := (l.dropWhile p).rdropWhile p

/-- What stands between the delimiters, where something does. -/
def pieces (p : α → Bool) (l : List α) : List (List α) :=
  (l.splitOnP p).filter (fun w ↦ !w.isEmpty)

theorem exists_trim (p : α → Bool) (l : List α) :
    ∃ u v, l = u ++ trim p l ++ v ∧ (∀ a ∈ u, p a) ∧ ∀ a ∈ v, p a := by
  refine ⟨l.takeWhile p, (l.dropWhile p).rtakeWhile p, ?_, ?_, ?_⟩
  · rw [List.append_assoc, trim, List.rdropWhile_append_rtakeWhile, List.takeWhile_append_dropWhile]
  · intro a ha
    exact List.mem_takeWhile_imp ha
  · intro a ha
    exact List.mem_rtakeWhile_imp ha

theorem rdropWhile_append_of_all (hv : ∀ a ∈ v, p a) :
    (m ++ v).rdropWhile p = m.rdropWhile p := by
  have hv' : ∀ a ∈ v.reverse, p a := by simpa using hv
  rw [List.rdropWhile, List.rdropWhile, List.reverse_append, List.dropWhile_append_of_pos hv']

theorem rdropWhile_append_cons {a : α} (ha : ¬p a) :
    (u ++ a :: v).rdropWhile p = u ++ a :: v.rdropWhile p := by
  induction v using List.reverseRecOn with
  | nil => simp [List.rdropWhile_concat_neg, ha]
  | append_singleton v b ih =>
    have hassoc : u ++ a :: (v ++ [b]) = (u ++ a :: v) ++ [b] := by simp
    by_cases hb : p b
    · rw [hassoc, List.rdropWhile_concat_pos _ _ _ hb, ih, List.rdropWhile_concat_pos _ _ _ hb]
    · rw [hassoc, List.rdropWhile_concat_neg _ _ _ hb, List.rdropWhile_concat_neg _ _ _ hb, hassoc]

/-- A list that `p` does not hold of ends in an element it fails on and what it holds of. -/
theorem exists_last_not (h : ¬∀ a ∈ l, p a) :
    ∃ u a v, l = u ++ a :: v ∧ ¬p a ∧ ∀ b ∈ v, p b := by
  induction l using List.reverseRecOn with
  | nil => simp at h
  | append_singleton l b ih =>
    by_cases hb : p b
    · have hl : ¬∀ a ∈ l, p a := by
        intro hl
        apply h
        simpa [or_imp, forall_and, hb] using hl
      obtain ⟨u, a, v, rfl, ha, hv⟩ := ih hl
      refine ⟨u, a, v ++ [b], by simp, ha, ?_⟩
      simpa [or_imp, forall_and, hb] using hv
    · exact ⟨l, b, [], rfl, hb, by simp⟩

theorem rdropWhile_of_last {a : α} (ha : ¬p a) (hv : ∀ b ∈ v, p b) :
    (u ++ a :: v).rdropWhile p = u ++ [a] := by
  rw [rdropWhile_append_cons ha, List.rdropWhile_eq_nil_iff.mpr hv]

/-- What `p` holds of at the ends makes no difference. -/
theorem trim_append (hu : ∀ a ∈ u, p a) (hv : ∀ a ∈ v, p a) : trim p (u ++ m ++ v) = trim p m := by
  rw [trim, trim, List.append_assoc, List.dropWhile_append_of_pos hu]
  by_cases hm : m.dropWhile p = []
  · have hall : ∀ a ∈ m ++ v, p a := by
      intro a ha
      rcases List.mem_append.mp ha with ha | ha
      · exact List.dropWhile_eq_nil_iff.mp hm a ha
      · exact hv a ha
    rw [hm, List.dropWhile_eq_nil_iff.mpr hall]
  · rw [List.dropWhile_append, if_neg (by simpa using hm), rdropWhile_append_of_all hv]

/-- Trimming less before does not change the result. -/
theorem trim_trim (h : ∀ a, q a → p a) (l : List α) : trim p (trim q l) = trim p l := by
  obtain ⟨u, v, hl, hu, hv⟩ := exists_trim q l
  conv_rhs => rw [hl]
  exact (trim_append (fun a ha ↦ h a (hu a ha)) (fun a ha ↦ h a (hv a ha))).symm

/-- What is cut off at an element that is not trimmed is the same of the trimmed list. -/
theorem trim_takeWhile_trim (h : ∀ a, p a → q a) (l : List α) :
    trim p ((trim p l).takeWhile q) = trim p (l.takeWhile q) := by
  obtain ⟨u, v, hl, hu, hv⟩ := exists_trim p l
  have hu' : ∀ a ∈ u, q a := fun a ha ↦ h a (hu a ha)
  have hv' : v.takeWhile q = v := List.takeWhile_eq_self_iff.mpr fun a ha ↦ h a (hv a ha)
  conv_rhs => rw [hl, List.append_assoc, List.takeWhile_append_of_pos hu', List.takeWhile_append]
  split_ifs with hall
  · have htake : (trim p l).takeWhile q = trim p l :=
      (List.takeWhile_prefix q).eq_of_length hall
    rw [htake, hv', ← List.append_assoc, trim_append hu hv]
  · rw [← trim_append hu (v := []) (by simp), List.append_nil]

theorem trim_eq_self (h : ∀ a ∈ l, p a = false) : trim p l = l := by
  have hdrop : ∀ m : List α, (∀ a ∈ m, p a = false) → m.dropWhile p = m := by
    intro m hm
    cases m with
    | nil => rfl
    | cons a m => simp [hm a (by simp)]
  have hrev : ∀ a ∈ l.reverse, p a = false := by simpa using h
  rw [trim, hdrop l h, List.rdropWhile, hdrop _ hrev, List.reverse_reverse]

theorem mem_trim_of_neg {a : α} (h : a ∈ l) (ha : ¬p a) : a ∈ trim p l := by
  obtain ⟨u, v, hl, hu, hv⟩ := exists_trim p l
  rw [hl, List.mem_append, List.mem_append] at h
  rcases h with (h | h) | h
  · exact absurd (hu a h) ha
  · exact h
  · exact absurd (hv a h) ha

/-- Trimming takes nothing from what is filtered. -/
theorem filter_trim (h : ∀ a, p a → q a = false) (l : List α) :
    (trim p l).filter q = l.filter q := by
  obtain ⟨u, v, hl, hu, hv⟩ := exists_trim p l
  have hnil : ∀ m : List α, (∀ a ∈ m, p a) → m.filter q = [] := by
    intro m hm
    exact List.filter_eq_nil_iff.mpr fun a ha ↦ by simp [h a (hm a ha)]
  conv_rhs => rw [hl]
  simp [hnil u hu, hnil v hv]

theorem filter_dropWhile (h : ∀ a, p a → q a = false) (l : List α) :
    (l.dropWhile p).filter q = l.filter q := by
  have hnil : (l.takeWhile p).filter q = [] :=
    List.filter_eq_nil_iff.mpr fun a ha ↦ by simp [h a (List.mem_takeWhile_imp ha)]
  conv_rhs => rw [← List.takeWhile_append_dropWhile (p := p) (l := l)]
  rw [List.filter_append, hnil, List.nil_append]

theorem filter_rdropWhile (h : ∀ a, p a → q a = false) (l : List α) :
    (l.rdropWhile p).filter q = l.filter q := by
  have hnil : (l.rtakeWhile p).filter q = [] :=
    List.filter_eq_nil_iff.mpr fun a ha ↦ by simp [h a (List.mem_rtakeWhile_imp ha)]
  conv_rhs => rw [← @List.rdropWhile_append_rtakeWhile _ p l]
  rw [List.filter_append, hnil, List.append_nil]

theorem mem_of_mem_trim {a : α} (h : a ∈ trim p l) : a ∈ l := by
  obtain ⟨u, v, hl, -, -⟩ := exists_trim p l
  rw [hl]
  simp [h]

/-- What stands in a field comes from the list and is no delimiter. -/
theorem mem_field {a : α} (hw : w ∈ l.splitOnP p) (ha : a ∈ w) : a ∈ l ∧ p a = false := by
  induction l generalizing w with
  | nil =>
    obtain rfl : w = [] := by simpa using hw
    simp at ha
  | cons b l ih =>
    obtain ⟨first, others, hsplit⟩ := List.exists_cons_of_ne_nil (List.splitOnP_ne_nil p l)
    have hold : ∀ v ∈ l.splitOnP p, a ∈ v → a ∈ b :: l ∧ p a = false :=
      fun v hv hav ↦ ⟨List.mem_cons_of_mem b (ih hv hav).1, (ih hv hav).2⟩
    rw [List.splitOnP_cons_eq_if_modifyHead] at hw
    by_cases hb : p b
    · rw [if_pos hb, List.mem_cons] at hw
      rcases hw with rfl | hw
      · simp at ha
      · exact hold w hw ha
    · rw [if_neg hb, hsplit, List.modifyHead_cons, List.mem_cons] at hw
      rw [hsplit] at hold
      rcases hw with rfl | hw
      · by_cases hab : a = b
        · exact ⟨by simp [hab], by simpa [hab] using hb⟩
        · exact hold first List.mem_cons_self ((List.mem_cons.mp ha).resolve_left hab)
      · exact hold w (List.mem_cons_of_mem first hw) ha

theorem pieces_cons_of_pos {a : α} (h : p a) : pieces p (a :: l) = pieces p l := by
  simp [pieces, List.splitOnP_cons_eq_if_modifyHead, h]

theorem pieces_dropWhile (p : α → Bool) (l : List α) : pieces p (l.dropWhile p) = pieces p l := by
  induction l with
  | nil => rfl
  | cons a l ih =>
    by_cases h : p a
    · rw [List.dropWhile_cons_of_pos h, ih, pieces_cons_of_pos h]
    · rw [List.dropWhile_cons_of_neg h]

theorem pieces_of_none (h : ∀ a ∈ l, p a = false) : pieces p l = if l = [] then [] else [l] := by
  rw [pieces, List.splitOnP_eq_singleton h]
  cases l <;> simp

theorem pieces_append_cons {a : α} (h : ∀ a ∈ w, p a = false) (ha : p a) :
    pieces p (w ++ a :: l) = (if w = [] then [] else [w]) ++ pieces p l := by
  rw [pieces, List.splitOnP_append_cons_of_forall_mem h a ha, List.filter_cons, pieces]
  cases w <;> simp

theorem takeWhile_append_stop {a : α} (ha : ¬p a) (l m : List α) :
    (l ++ a :: m).takeWhile p = l.takeWhile p := by
  induction l with
  | nil => simp [ha]
  | cons b l ih =>
    rw [List.cons_append, List.takeWhile_cons, List.takeWhile_cons, ih]

theorem dropWhile_append_stop {a : α} (ha : ¬p a) (l m : List α) :
    (l ++ a :: m).dropWhile p = l.dropWhile p ++ a :: m := by
  induction l with
  | nil => simp [ha]
  | cons b l ih =>
    rw [List.cons_append, List.dropWhile_cons, List.dropWhile_cons, ih]
    split_ifs <;> rfl

theorem drop_length_takeWhile (p : α → Bool) (l : List α) :
    l.drop (l.takeWhile p).length = l.dropWhile p := by
  conv_lhs =>
    arg 2
    rw [← List.takeWhile_append_dropWhile (p := p) (l := l)]
  exact List.drop_left

/-- What begins with a stop, or is empty, makes no difference before it. -/
theorem takeWhile_append_head (hm : ∀ a ∈ m.head?, p a = false) (l : List α) :
    (l ++ m).takeWhile p = l.takeWhile p := by
  cases m with
  | nil => rw [List.append_nil]
  | cons a m => exact takeWhile_append_stop (by simp [hm a rfl]) l m

theorem dropWhile_append_head (hm : ∀ a ∈ m.head?, p a = false) (l : List α) :
    (l ++ m).dropWhile p = l.dropWhile p ++ m := by
  cases m with
  | nil => rw [List.append_nil, List.append_nil]
  | cons a m => exact dropWhile_append_stop (by simp [hm a rfl]) l m

theorem takeWhile_ne_nil (hne : l ≠ []) (hhead : ∀ a ∈ l.head?, p a = false) :
    l.takeWhile (fun a ↦ !p a) ≠ [] := by
  cases l with
  | nil => exact absurd rfl hne
  | cons a l => simp [hhead a rfl]

/-- The first field of a list that starts with one. -/
theorem pieces_eq_cons (hne : l ≠ []) (hhead : ∀ a ∈ l.head?, p a = false) :
    pieces p l = l.takeWhile (fun a ↦ !p a) :: pieces p (l.dropWhile (fun a ↦ !p a)) := by
  have hfirst : ∀ a ∈ l.takeWhile (fun a ↦ !p a), p a = false := by
    intro a ha
    simpa using List.mem_takeWhile_imp ha
  have hfield := takeWhile_ne_nil hne hhead
  conv_lhs => rw [← List.takeWhile_append_dropWhile (p := fun a ↦ !p a) (l := l)]
  cases hdrop : l.dropWhile (fun a ↦ !p a) with
  | nil =>
    rw [List.append_nil, pieces_of_none hfirst, if_neg hfield]
    rfl
  | cons a m =>
    have ha : p a = true := by
      have hnot := List.head_dropWhile_not (fun a ↦ !p a) (l := l) (by simp [hdrop])
      simpa [hdrop] using hnot
    rw [pieces_append_cons hfirst ha, if_neg hfield, pieces_cons_of_pos ha]
    rfl

theorem head_dropWhile {a : α} (h : a ∈ (l.dropWhile p).head?) : p a = false := by
  cases hdrop : l.dropWhile p with
  | nil => simp [hdrop] at h
  | cons b m =>
    have hnot := List.head_dropWhile_not p (l := l) (by simp [hdrop])
    rw [hdrop] at h
    obtain rfl : b = a := by simpa using h
    simpa [hdrop] using hnot

/-- A list up to the first place where an element stands. -/
theorem exists_takeWhile_append [DecidableEq α] {a : α} (h : a ∈ l) :
    ∃ v, l = l.takeWhile (fun b ↦ b ≠ a) ++ a :: v := by
  have hne : l.dropWhile (fun b ↦ b ≠ a) ≠ [] := by
    intro hnil
    simpa using List.dropWhile_eq_nil_iff.mp hnil a h
  obtain ⟨b, v, hv⟩ := List.exists_cons_of_ne_nil hne
  have hhead : b ∈ (l.dropWhile (fun b ↦ b ≠ a)).head? := by
    rw [hv]
    rfl
  obtain rfl : b = a := by simpa using head_dropWhile hhead
  exact ⟨v, by rw [← hv, List.takeWhile_append_dropWhile]⟩

theorem head_trim {a : α} (h : a ∈ (trim p l).head?) : p a = false := by
  obtain ⟨m, hm⟩ := List.rdropWhile_prefix p (l.dropWhile p)
  refine head_dropWhile (l := l) ?_
  rw [← hm]
  exact List.mem_head?_append_of_mem_head? h

theorem pieces_eq_nil : pieces p l = [] ↔ ∀ a ∈ l, p a := by
  rw [← pieces_dropWhile, ← List.dropWhile_eq_nil_iff]
  constructor
  · intro h
    by_contra hne
    rw [pieces_eq_cons hne fun a ha ↦ head_dropWhile ha] at h
    cases h
  · intro h
    rw [h]
    rfl

theorem mem_pieces (h : w ∈ pieces p l) : w ≠ [] ∧ ∀ a ∈ w, p a = false := by
  obtain ⟨hmem, hne⟩ := List.mem_filter.mp h
  exact ⟨by simpa using hne, fun a ha ↦ (mem_field hmem ha).2⟩

theorem pieces_congr (h : ∀ a ∈ l, p a = q a) : pieces p l = pieces q l := by
  have hsplit : l.splitOnP p = l.splitOnP q := by
    induction l with
    | nil => rfl
    | cons a l ih =>
      rw [List.splitOnP_cons_eq_if_modifyHead, List.splitOnP_cons_eq_if_modifyHead,
        h a (by simp), ih (fun b hb ↦ h b (by simp [hb]))]
  rw [pieces, pieces, hsplit]

theorem exists_of_mapM {β γ : Type} {f : β → Option γ} {bs : List β} {cs : List γ}
    (h : bs.mapM f = some cs) : ∀ b ∈ bs, ∃ c, f b = some c := by
  induction bs generalizing cs with
  | nil => simp
  | cons b bs ih =>
    rw [List.mapM_cons] at h
    obtain ⟨c, hc, h⟩ := Option.bind_eq_some_iff.mp h
    obtain ⟨cs', hcs, -⟩ := Option.bind_eq_some_iff.mp h
    exact List.forall_mem_cons.mpr ⟨⟨c, hc⟩, ih hcs⟩

theorem mem_of_lookup {α β : Type} [BEq α] [LawfulBEq α] {l : List (α × β)} {a : α} {b : β}
    (h : l.lookup a = some b) : (a, b) ∈ l := by
  obtain ⟨before, after, rfl, -⟩ := List.lookup_eq_some_iff.mp h
  simp

theorem mem_intersperse {a b : α} (h : a ∈ l.intersperse b) : a ∈ l ∨ a = b := by
  induction l with
  | nil => cases h
  | cons c l ih =>
    cases l with
    | nil => exact .inl h
    | cons d l =>
      rw [List.intersperse_cons_cons, List.mem_cons, List.mem_cons] at h
      rcases h with rfl | rfl | h
      · exact .inl List.mem_cons_self
      · exact .inr rfl
      · exact (ih h).imp_left (List.mem_cons_of_mem c)

/-- Fields of what `p` does not hold of, where it holds of what separates them. -/
inductive Spaced (p : α → Bool) : List α → List (List α) → Prop
  | blank {u : List α} : (∀ a ∈ u, p a) → Spaced p u []
  | field {u w l : List α} {ws : List (List α)} : (∀ a ∈ u, p a) → w ≠ [] →
      (∀ a ∈ w, p a = false) → (∀ a ∈ l.head?, p a) → Spaced p l ws →
      Spaced p (u ++ w ++ l) (w :: ws)

theorem pieces_append_of_all (hu : ∀ a ∈ u, p a) : pieces p (u ++ l) = pieces p l := by
  rw [← pieces_dropWhile, List.dropWhile_append_of_pos hu, pieces_dropWhile]

theorem pieces_append_of_head (hw : w ≠ []) (hfield : ∀ a ∈ w, p a = false)
    (hl : ∀ a ∈ l.head?, p a) : pieces p (w ++ l) = w :: pieces p l := by
  cases l with
  | nil =>
    rw [List.append_nil, pieces_of_none hfield, if_neg hw]
    rfl
  | cons a l =>
    have ha : p a = true := hl a rfl
    rw [pieces_append_cons hfield ha, if_neg hw, pieces_cons_of_pos ha]
    rfl

theorem spaced_iff {ws : List (List α)} : Spaced p l ws ↔ pieces p l = ws := by
  constructor
  · intro h
    induction h with
    | blank hu => exact pieces_eq_nil.mpr hu
    | field hu hw hfield hhead _ ih =>
      rw [List.append_assoc, pieces_append_of_all hu, pieces_append_of_head hw hfield hhead, ih]
  · intro h
    induction ws generalizing l with
    | nil => exact .blank (pieces_eq_nil.mp h)
    | cons w ws ih =>
      have hne : l.dropWhile p ≠ [] := by
        intro hnil
        rw [← pieces_dropWhile, hnil] at h
        cases h
      rw [← pieces_dropWhile, pieces_eq_cons hne fun a ha ↦ head_dropWhile ha] at h
      obtain ⟨hw, hrest⟩ := List.cons.inj h
      have hl : l = l.takeWhile p ++ w ++ (l.dropWhile p).dropWhile (fun a ↦ !p a) := by
        rw [← hw, List.append_assoc, List.takeWhile_append_dropWhile,
          List.takeWhile_append_dropWhile]
      rw [hl]
      refine .field (fun a ha ↦ List.mem_takeWhile_imp ha) ?_ ?_ ?_ (ih hrest)
      · rw [← hw]
        exact takeWhile_ne_nil hne fun a ha ↦ head_dropWhile ha
      · intro a ha
        rw [← hw] at ha
        simpa using List.mem_takeWhile_imp ha
      · intro a ha
        simpa using head_dropWhile ha

/-- What `item` allows, once or more, with `a` between. -/
inductive Listed (a : α) (item : List α → Prop) : List α → Prop
  | one {w : List α} : item w → Listed a item w
  | cons {w l : List α} : item w → Listed a item l → Listed a item (w ++ a :: l)

theorem listed_intercalate {a : α} {item : List α → Prop} {ws : List (List α)} (hne : ws ≠ [])
    (h : ∀ w ∈ ws, item w) : Listed a item ([a].intercalate ws) := by
  induction ws with
  | nil => exact absurd rfl hne
  | cons w ws ih =>
    have hw := h w List.mem_cons_self
    cases ws with
    | nil => simpa using Listed.one hw
    | cons v ws =>
      have hrest := ih (by simp) fun x hx ↦ h x (List.mem_cons_of_mem w hx)
      simpa [List.intercalate_cons_cons] using hrest.cons hw

/-- A list is one of allowed items where splitting it at the separator gives no other. -/
theorem listed_iff [DecidableEq α] {a : α} {item : List α → Prop} (hitem : ∀ w, item w → a ∉ w) :
    Listed a item l ↔ ∀ w ∈ l.splitOn a, item w := by
  constructor
  · intro h
    induction h with
    | one hw =>
      rw [List.splitOn_eq_singleton (hitem _ hw)]
      simpa using hw
    | cons hw _ ih =>
      rw [List.splitOn_append_cons_self_of_not_mem (hitem _ hw)]
      simpa using ⟨hw, ih⟩
  · intro h
    rw [← @List.intercalate_splitOn _ l _ _ a]
    exact listed_intercalate (List.splitOn_ne_nil a l) h

theorem pieces_append_sep {b : α} (hb : p b) (u v : List α) :
    pieces p (u ++ b :: v) = pieces p u ++ pieces p v := by
  rw [pieces, List.splitOnP_append_cons _ _ hb, List.filter_append]
  rfl

theorem pieces_append_right (hv : ∀ a ∈ v, p a) : pieces p (l ++ v) = pieces p l := by
  cases v with
  | nil => rw [List.append_nil]
  | cons b v =>
    rw [List.forall_mem_cons] at hv
    rw [pieces_append_sep hv.1, pieces_eq_nil.mpr hv.2, List.append_nil]

/-- Taking off what separates the pieces, and nothing else, changes none of them. -/
theorem pieces_trim (h : ∀ a ∈ l, q a → p a) : pieces p (trim q l) = pieces p l := by
  obtain ⟨u, v, hl, hu, hv⟩ := exists_trim q l
  have hu' : ∀ a ∈ u, p a := by
    intro a ha
    refine h a ?_ (hu a ha)
    rw [hl]
    simp [ha]
  have hv' : ∀ a ∈ v, p a := by
    intro a ha
    refine h a ?_ (hv a ha)
    rw [hl]
    simp [ha]
  conv_rhs => rw [hl]
  rw [pieces_append_right hv', pieces_append_of_all hu']

theorem pieces_intercalate {b : α} {ws : List (List α)} (hb : p b)
    (h : ∀ w ∈ ws, w ≠ [] ∧ ∀ a ∈ w, p a = false) : pieces p ([b].intercalate ws) = ws := by
  induction ws with
  | nil => rfl
  | cons w ws ih =>
    rw [List.forall_mem_cons] at h
    obtain ⟨⟨hne, hw⟩, hws⟩ := h
    cases ws with
    | nil => rw [List.intercalate_singleton, pieces_of_none hw, if_neg hne]
    | cons v ws =>
      rw [List.intercalate_cons_cons, List.append_assoc, List.singleton_append,
        pieces_append_sep hb, pieces_of_none hw, if_neg hne, ih hws, List.singleton_append]

/-- What is in a list stands in one of its pieces or separates them. -/
theorem mem_or_mem_pieces {a : α} (h : a ∈ l) : p a ∨ ∃ w ∈ pieces p l, a ∈ w := by
  obtain ⟨ws, hws⟩ : ∃ ws, Spaced p l ws := ⟨_, spaced_iff.mpr rfl⟩
  rw [spaced_iff.mp hws]
  induction hws with
  | blank hu => exact .inl (hu a h)
  | field hu _ _ _ _ ih =>
    rcases List.mem_append.mp h with h | h
    · rcases List.mem_append.mp h with h | h
      · exact .inl (hu a h)
      · exact .inr ⟨_, List.mem_cons_self, h⟩
    · rcases ih h with h | ⟨w, hw, ha⟩
      · exact .inl h
      · exact .inr ⟨w, List.mem_cons_of_mem _ hw, ha⟩

/-- What is in a list stands between its separators or is one. -/
theorem mem_splitOn [DecidableEq α] {b : α} (a : α) (h : b ∈ l) :
    b = a ∨ ∃ w ∈ l.splitOn a, b ∈ w := by
  rw [← @List.intercalate_splitOn _ l _ _ a, List.intercalate, List.mem_flatten] at h
  obtain ⟨w, hw, hb⟩ := h
  rcases mem_intersperse hw with hw | rfl
  · exact .inr ⟨w, hw, hb⟩
  · exact .inl (List.mem_singleton.mp hb)

theorem notMem_of_splitOn [DecidableEq α] {a : α} (h : w ∈ l.splitOn a) : a ∉ w := by
  intro ha
  rw [List.splitOn_eq_splitOnP] at h
  simpa using (mem_field h ha).2

theorem splitOn_eq_pair [DecidableEq α] {a : α} :
    l.splitOn a = [u, v] ↔ l = u ++ a :: v ∧ a ∉ u ∧ a ∉ v := by
  constructor
  · intro h
    refine ⟨?_, notMem_of_splitOn (l := l) (by simp [h]), notMem_of_splitOn (l := l) (by simp [h])⟩
    rw [← @List.intercalate_splitOn _ l _ _ a, h]
    simp [List.intercalate]
  · rintro ⟨rfl, hu, hv⟩
    rw [List.splitOn_append_cons_self_of_not_mem hu, List.splitOn_eq_singleton hv]

end Lib
