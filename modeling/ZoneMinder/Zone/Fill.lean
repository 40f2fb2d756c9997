import ZoneMinder.Lib.Cells
import ZoneMinder.Poly.Crossings
import ZoneMinder.Zone.Raster

namespace ZoneMinder.Zone

open Lib ZoneMinder.Poly

namespace GrayImage

def Inside (image : GrayImage) (x y : ℤ) : Prop :=
  (0 ≤ x ∧ x < image.width) ∧ 0 ≤ y ∧ y < image.height

instance (image : GrayImage) (x y : ℤ) : Decidable (image.Inside x y) := by
  unfold Inside; infer_instance

/-- One image painted over another in some pixels, and nowhere else in its buffer. -/
structure Painted (colour : UInt8) (pixels : ℤ → ℤ → Prop) (image image' : GrayImage) : Prop where
  width : image'.width = image.width
  height : image'.height = image.height
  linesize : image'.linesize = image.linesize
  painted : ∀ x y, pixels x y → image'.buffer (image.index x y) = colour
  kept : ∀ i, (∀ x y, pixels x y → image.index x y ≠ i) → image'.buffer i = image.buffer i

section

variable {image image' image'' : GrayImage} {colour : UInt8} {p q : ℤ → ℤ → Prop}
  {x y x' y' : ℤ}

/-- The rows do not overlap. -/
theorem index_inj (hline : image.width ≤ image.linesize) (h : image.Inside x y)
    (h' : image.Inside x' y') (heq : image.index x y = image.index x' y') : x = x' ∧ y = y' := by
  obtain ⟨⟨hx, hxw⟩, hy, -⟩ := h
  obtain ⟨⟨hx', hxw'⟩, hy', -⟩ := h'
  lift x to ℕ using hx
  lift x' to ℕ using hx'
  lift y to ℕ using hy
  lift y' to ℕ using hy'
  rw [index, index] at heq
  norm_cast at heq
  obtain ⟨rfl, rfl⟩ := row_unique (by omega) (by omega) heq
  exact ⟨rfl, rfl⟩

namespace Painted

theorem congr (h : Painted colour p image image') (hpq : ∀ x y, p x y ↔ q x y) :
    Painted colour q image image' := by
  obtain rfl : p = q := funext fun x ↦ funext fun y ↦ propext (hpq x y)
  exact h

theorem refl (image : GrayImage) : Painted colour (fun _ _ ↦ False) image image :=
  ⟨rfl, rfl, rfl, fun _ _ ↦ False.elim, fun _ _ ↦ rfl⟩

theorem set (x y : ℤ) :
    Painted colour (fun x' y' ↦ x' = x ∧ y' = y) image (image.set x y colour) where
  width := rfl
  height := rfl
  linesize := rfl
  painted := by
    rintro x y ⟨rfl, rfl⟩
    exact Function.update_self ..
  kept := fun i hi ↦ Function.update_of_ne (hi x y ⟨rfl, rfl⟩).symm ..

theorem trans (h : Painted colour p image image') (h' : Painted colour q image' image'') :
    Painted colour (fun x y ↦ p x y ∨ q x y) image image'' := by
  have hindex (x y : ℤ) : image'.index x y = image.index x y := by rw [index, index, h.linesize]
  refine ⟨h'.width.trans h.width, h'.height.trans h.height, h'.linesize.trans h.linesize, ?_, ?_⟩
  · intro x y hxy
    by_cases hover : ∃ x' y', q x' y' ∧ image'.index x' y' = image.index x y
    · obtain ⟨x', y', hq, heq⟩ := hover
      rw [← heq]
      exact h'.painted x' y' hq
    · have hq : ¬ q x y := fun hq ↦ hover ⟨x, y, hq, hindex x y⟩
      rw [h'.kept _ fun x' y' hq heq ↦ hover ⟨x', y', hq, heq⟩]
      exact h.painted x y (hxy.resolve_right hq)
  · intro i hi
    rw [h'.kept i fun x y hq ↦ hindex x y ▸ hi x y (.inr hq)]
    exact h.kept i fun x y hp ↦ hi x y (.inl hp)

theorem foldl {α : Type*} {f : GrayImage → α → GrayImage} {pixels : α → ℤ → ℤ → Prop}
    (h : ∀ image a, Painted colour (pixels a) image (f image a)) (l : List α)
    (image : GrayImage) :
    Painted colour (fun x y ↦ ∃ a ∈ l, pixels a x y) image (l.foldl f image) := by
  induction l generalizing image with
  | nil => exact (refl image).congr fun x y ↦ by simp
  | cons a l ih => exact ((h image a).trans (ih _)).congr fun x y ↦ by simp

/-- It tells all of the image. -/
theorem unique (h : Painted colour p image image') (h' : Painted colour p image image'') :
    image' = image'' := by
  have hbuffer : image'.buffer = image''.buffer := by
    funext i
    by_cases hi : ∃ x y, p x y ∧ image.index x y = i
    · obtain ⟨x, y, hp, rfl⟩ := hi
      rw [h.painted x y hp, h'.painted x y hp]
    · have hnot : ∀ x y, p x y → image.index x y ≠ i := fun x y hp heq ↦ hi ⟨x, y, hp, heq⟩
      rw [h.kept i hnot, h'.kept i hnot]
  have hwidth := h.width.trans h'.width.symm
  have hheight := h.height.trans h'.height.symm
  have hlinesize := h.linesize.trans h'.linesize.symm
  cases image'
  cases image''
  congr

end Painted

end

end GrayImage

section

variable {D : Doubles}

namespace FillEdge

/-- Where an edge is in a row, after a step for each row that it has come down. -/
def place (e : FillEdge D) (y : ℤ) : D.Double :=
  (fun x ↦ D.add x e.invM)^[(y - e.minY).toNat] e.minX

def moved (e : FillEdge D) (y : ℤ) : FillEdge D := { e with minX := e.place y }

variable {e : FillEdge D} {y : ℤ}

theorem moved_minY (e : FillEdge D) : e.moved e.minY = e := by
  rw [moved, place, Int.sub_self]
  rfl

theorem add_place (h : e.minY < y) : D.add (e.place (y - 1)) e.invM = e.place y := by
  have hrows : (y - e.minY).toNat = (y - 1 - e.minY).toNat + 1 := by omega
  rw [place, place, hrows, Function.iterate_succ_apply']

end FillEdge

/-- Where the active edges of a row are, from left to right. -/
def places (all : List (FillEdge D)) (y : ℤ) : List D.Double :=
  ((all.filter (·.spans y)).map (·.place y)).mergeSort (· ≤ ·)

/-- The pixels of a row between a first edge and a second, a third and a fourth, and so on. -/
def Covers (density : ℤ) (all : List (FillEdge D)) (x y : ℤ) : Prop :=
  y.tmod density = 0 ∧ ∃ p ∈ pairs (places all y),
    x.tmod density = 0 ∧ D.toInt p.1 ≤ x ∧ x ≤ D.toInt p.2

namespace Filling

/-- The condition on which the loop ends. -/
def ended (s : Filling D) : Bool := s.globalEdges.isEmpty && s.activeEdges.isEmpty

/-- The states that the loop comes to. -/
inductive Reaches (density : ℤ) (colour : UInt8) (s : Filling D) : Filling D → Prop
  | start : Reaches density colour s s
  | round {t : Filling D} : Reaches density colour s t → t.ended = false →
      Reaches density colour s (t.round density colour)

/-- Where the loop comes to a row, with the active edges where they were in the row before. -/
structure Follows (all : List (FillEdge D)) (s : Filling D) : Prop extends Sweeps all s where
  moved : s.activeEdges.Perm
    ((all.filter fun e ↦ e.minY < s.scanLine ∧ s.scanLine ≤ e.maxY).map (·.moved (s.scanLine - 1)))

variable {density : ℤ} {colour : UInt8} {s t : Filling D} {all : List (FillEdge D)}
  {image image' : GrayImage}

theorem pairs_eq (l : List (FillEdge D)) :
    (pairs l).map (fun p ↦ (p.1.minX, p.2.minX)) = Lib.pairs (l.map (·.minX)) := by
  fun_induction pairs l with
  | case1 e₁ e₂ l ih =>
    rw [List.map_cons, ih]
    rfl
  | case2 l hl =>
    match l, hl with
    | [], _ => rfl
    | [_], _ => rfl
    | e₁ :: e₂ :: l, hl => exact absurd rfl (hl e₁ e₂ l)

/-- The edges that go on into the row. -/
theorem Follows.kept (h : s.Follows all) :
    ((s.activeEdges.filter fun e ↦ !decide (s.scanLine ≥ e.maxY)).map fun e ↦
      { e with minX := D.add e.minX e.invM }).Perm
      (((all.filter (·.spans s.scanLine)).filter fun e ↦ e.minY < s.scanLine).map
        (·.moved s.scanLine)) := by
  refine ((h.moved.filter _).map _).trans (.of_eq ?_)
  rw [List.filter_map, List.map_map, List.filter_filter, List.filter_filter]
  have hfilter : (all.filter fun e ↦
      ((fun e : FillEdge D ↦ !decide (s.scanLine ≥ e.maxY)) ∘ (·.moved (s.scanLine - 1))) e &&
        decide (e.minY < s.scanLine ∧ s.scanLine ≤ e.maxY)) =
      all.filter fun e ↦ decide (e.minY < s.scanLine) && e.spans s.scanLine := by
    refine List.filter_congr fun e _ ↦ ?_
    rw [FillEdge.spans, Bool.eq_iff_iff]
    simp only [Function.comp_apply, FillEdge.moved, Bool.and_eq_true, Bool.not_eq_true',
      decide_eq_true_eq, decide_eq_false_iff_not]
    omega
  rw [hfilter]
  refine List.map_congr_left fun e he ↦ ?_
  obtain ⟨-, he⟩ := List.mem_filter.mp he
  rw [Bool.and_eq_true, decide_eq_true_eq] at he
  exact congrArg (fun x ↦ { e with minX := x }) (FillEdge.add_place he.1)

/-- The edges that start in the row. -/
theorem Sweeps.entering (h : s.Sweeps all) (hall : ∀ e ∈ all, e.minY < e.maxY) :
    (s.globalEdges.filter fun e ↦ e.minY = s.scanLine) =
      ((all.filter (·.spans s.scanLine)).filter fun e ↦ !decide (e.minY < s.scanLine)).map
        (·.moved s.scanLine) := by
  rw [h.waiting, List.filter_filter, List.filter_filter]
  have hfilter : (all.filter fun e ↦
      decide (e.minY = s.scanLine) && decide (s.scanLine ≤ e.minY)) =
      all.filter fun e ↦ !decide (e.minY < s.scanLine) && e.spans s.scanLine := by
    refine List.filter_congr fun e he ↦ ?_
    have hlt := hall e he
    rw [FillEdge.spans, Bool.eq_iff_iff]
    simp only [Bool.and_eq_true, Bool.not_eq_true', decide_eq_true_eq, decide_eq_false_iff_not]
    omega
  rw [hfilter]
  refine (List.map_id _).symm.trans (List.map_congr_left fun e he ↦ ?_)
  obtain ⟨-, he⟩ := List.mem_filter.mp he
  rw [FillEdge.spans, Bool.and_eq_true, Bool.not_eq_true', decide_eq_true_eq,
    decide_eq_false_iff_not] at he
  have hrow : s.scanLine = e.minY := by omega
  rw [hrow, FillEdge.moved_minY]
  rfl

/-- In a round every active edge is where it meets the row. -/
theorem Follows.current (h : s.Follows all) (hall : ∀ e ∈ all, e.minY < e.maxY) :
    s.current.Perm ((all.filter (·.spans s.scanLine)).map (·.moved s.scanLine)) := by
  rw [Filling.current, h.toSweeps.entering hall]
  refine (h.kept.append_right _).trans ?_
  rw [← List.map_append]
  exact (List.filter_append_perm _ _).map _

theorem Follows.places (h : s.Follows all) (hall : ∀ e ∈ all, e.minY < e.maxY) :
    (s.current.mergeSort fun e₁ e₂ ↦ !FillEdge.compareX e₂ e₁).map (·.minX) =
      places all s.scanLine := by
  have hle (e₁ e₂ : FillEdge D) : (!FillEdge.compareX e₂ e₁) = decide (e₁.minX ≤ e₂.minX) := by
    rw [FillEdge.compareX, ← decide_not, decide_eq_decide, not_lt]
  rw [Zone.places]
  refine (((List.mergeSort_perm _ _).trans (h.current hall)).map _).trans ?_ |>.eq_of_pairwise'
    ?_ (List.pairwise_mergeSort' (· ≤ ·) _)
  · rw [List.map_map]
    exact (List.mergeSort_perm _ _).symm
  · rw [List.pairwise_map]
    simp only [hle]
    exact List.pairwise_mergeSort' (fun e₁ e₂ : FillEdge D ↦ e₁.minX ≤ e₂.minX) _

theorem span_painted (density : ℤ) (colour : UInt8) (scanLine : ℤ) (image : GrayImage)
    (pair : FillEdge D × FillEdge D) :
    image.Painted colour (fun x y ↦ y = scanLine ∧ x.tmod density = 0 ∧
      D.toInt pair.1.minX ≤ x ∧ x ≤ D.toInt pair.2.minX)
      (span density colour scanLine image pair) := by
  rw [span]
  have hpixel (image : GrayImage) (x : ℤ) : image.Painted colour
      (fun x' y' ↦ x.tmod density = 0 ∧ x' = x ∧ y' = scanLine)
      (if x.tmod density = 0 then image.set x scanLine colour else image) := by
    split
    · next h => exact (GrayImage.Painted.set x scanLine).congr fun x' y' ↦ by simp [h]
    · next h => exact (GrayImage.Painted.refl image).congr fun x' y' ↦ by simp [h]
  refine (GrayImage.Painted.foldl hpixel _ image).congr fun x y ↦ ?_
  constructor
  · rintro ⟨x', hx', hmod, rfl, rfl⟩
    exact ⟨rfl, hmod, mem_upto.mp hx'⟩
  · rintro ⟨rfl, hmod, hx⟩
    exact ⟨x, mem_upto.mpr hx, hmod, rfl, rfl⟩

theorem Sweeps.not_ended (h : s.Sweeps all) (hall : ∀ e ∈ all, e.minY < e.maxY)
    (hcross : 2 ≤ all.countP (·.spans s.scanLine)) : s.ended = false := by
  rw [← h.length_current hall] at hcross
  by_contra hended
  rw [Bool.not_eq_false, ended, Bool.and_eq_true, List.isEmpty_iff, List.isEmpty_iff] at hended
  rw [Filling.current, hended.1, hended.2] at hcross
  exact absurd hcross (Nat.not_succ_le_zero 1)

/-- A round fills its row. -/
theorem Follows.row_painted (density : ℤ) (colour : UInt8) (h : s.Follows all)
    (hall : ∀ e ∈ all, e.minY < e.maxY) (hcross : 2 ≤ all.countP (·.spans s.scanLine)) :
    s.image.Painted colour (fun x y ↦ y = s.scanLine ∧ Covers density all x y)
      (s.round density colour).image := by
  rw [round_eq, if_neg (by rw [h.length_current hall]; omega)]
  dsimp only
  split
  · next hrow =>
    refine (GrayImage.Painted.foldl (span_painted density colour s.scanLine) _ _).congr fun x y ↦ ?_
    rw [Covers]
    constructor
    · rintro ⟨pair, hpair, rfl, hx⟩
      refine ⟨rfl, hrow, (pair.1.minX, pair.2.minX), ?_, hx⟩
      rw [← h.places hall, ← pairs_eq]
      exact List.mem_map_of_mem hpair
    · rintro ⟨rfl, -, p, hp, hx⟩
      rw [← h.places hall, ← pairs_eq] at hp
      obtain ⟨pair, hpair, rfl⟩ := List.mem_map.mp hp
      exact ⟨pair, hpair, rfl, hx⟩
  · next hrow =>
    refine (GrayImage.Painted.refl s.image).congr fun x y ↦ ⟨False.elim, ?_⟩
    rintro ⟨rfl, hmod, -⟩
    exact hrow hmod

theorem Follows.round (density : ℤ) (colour : UInt8) (h : s.Follows all)
    (hall : ∀ e ∈ all, e.minY < e.maxY) (hcross : 2 ≤ all.countP (·.spans s.scanLine)) :
    (s.round density colour).Follows all ∧
      (s.round density colour).scanLine = s.scanLine + 1 := by
  obtain ⟨hsweeps, hline⟩ := h.toSweeps.round density colour hall hcross
  refine ⟨⟨hsweeps, ?_⟩, hline⟩
  have hactive : (s.round density colour).activeEdges.Perm s.current := by
    rw [round_eq, if_neg (by rw [h.length_current hall]; omega)]
    exact List.mergeSort_perm _ _
  rw [hline, Int.add_sub_cancel]
  refine (hactive.trans (h.current hall)).trans (.of_eq ?_)
  congr 1
  refine List.filter_congr fun e _ ↦ ?_
  rw [FillEdge.spans, decide_eq_decide]
  omega

theorem not_covers {x y : ℤ} (hnone : ∀ e ∈ all, e.spans y = false) :
    ¬ Covers density all x y := by
  rintro ⟨-, p, hp, -⟩
  have hempty : all.filter (·.spans y) = [] :=
    List.filter_eq_nil_iff.mpr fun e he ↦ Bool.eq_false_iff.mp (hnone e he)
  rw [Zone.places, hempty, List.map_nil, List.mergeSort_nil] at hp
  exact List.not_mem_nil hp

theorem Follows.run {lo hi : ℤ} (density : ℤ) (colour : UInt8) (h : s.Follows all)
    (hclosed : FillEdge.Closed all lo hi) (hlo : lo ≤ s.scanLine) :
    ∃ image', s.run density colour ((hi - s.scanLine).toNat + 2) = some image' ∧
      s.image.Painted colour (fun x y ↦ s.scanLine ≤ y ∧ Covers density all x y) image' := by
  induction hn : (hi - s.scanLine).toNat generalizing s with
  | zero =>
    have hend : hi ≤ s.scanLine := by omega
    refine ⟨s.image, h.toSweeps.run_end hclosed.upright
      (fun e he ↦ (hclosed.above e he).trans hend) 0, (GrayImage.Painted.refl _).congr fun x y ↦ ?_⟩
    refine ⟨False.elim, fun hxy ↦ not_covers (fun e he ↦ decide_eq_false ?_) hxy.2⟩
    have hle := hclosed.above e he
    omega
  | succ n ih =>
    have hcross := hclosed.crossed s.scanLine hlo (by omega)
    obtain ⟨hnext, hline⟩ := h.round density colour hclosed.upright hcross
    have hpainted := h.row_painted density colour hclosed.upright hcross
    obtain ⟨image', hrun, hrest⟩ := ih hnext (by omega) (by omega)
    have hgoes : (s.globalEdges.isEmpty && s.activeEdges.isEmpty) = false :=
      h.toSweeps.not_ended hclosed.upright hcross
    rw [Filling.run, hgoes]
    refine ⟨image', hrun, (hpainted.trans hrest).congr fun x y ↦ ?_⟩
    rw [hline, ← or_and_right]
    apply and_congr_left
    intro _
    omega

theorem Follows.first {lo hi : ℤ} (hclosed : FillEdge.Closed all lo hi) (image : GrayImage) :
    Follows all ⟨lo, all, [], image⟩ := by
  refine ⟨.first hclosed image, .of_eq ?_⟩
  have hnone : (all.filter fun e ↦ e.minY < lo ∧ lo ≤ e.maxY) = [] := by
    refine List.filter_eq_nil_iff.mpr fun e he ↦ ?_
    have hle := hclosed.below e he
    rw [decide_eq_true_eq]
    omega
  dsimp only
  rw [hnone]
  rfl

/-- The loop goes through the rows, and ends behind the last of them. -/
theorem Follows.reaches {lo hi : ℤ} (h : s.Follows all) (hclosed : FillEdge.Closed all lo hi)
    (hrow : lo ≤ s.scanLine ∧ s.scanLine ≤ hi) (hreaches : s.Reaches density colour t) :
    t.ended = true ∨ t.Follows all ∧ lo ≤ t.scanLine ∧ t.scanLine ≤ hi := by
  induction hreaches with
  | start => exact .inr ⟨h, hrow⟩
  | @round t hreaches hended ih =>
    obtain ⟨h, hlo, hhi⟩ := ih.resolve_left (Bool.eq_false_iff.mp hended)
    rcases hhi.lt_or_eq with hlt | heq
    · obtain ⟨hnext, hline⟩ := h.round density colour hclosed.upright (hclosed.crossed _ hlo hlt)
      exact .inr ⟨hnext, by omega⟩
    · left
      rw [h.toSweeps.round_end density colour hclosed.upright fun e he ↦ heq ▸ hclosed.above e he]
      rfl

/-- With fewer than two active edges the loop is behind the last. -/
theorem Follows.skip_ends {lo hi : ℤ} (h : s.Follows all) (hclosed : FillEdge.Closed all lo hi)
    (hrow : lo ≤ s.scanLine ∧ s.scanLine ≤ hi) (hreaches : s.Reaches density colour t)
    (hended : t.ended = false) (hfew : t.current.length < 2) :
    (t.round density colour).ended = true := by
  obtain ⟨h, hlo, hhi⟩ :=
    (h.reaches hclosed hrow hreaches).resolve_left (Bool.eq_false_iff.mp hended)
  rw [h.length_current hclosed.upright] at hfew
  have hend : hi ≤ t.scanLine := by
    by_contra hlt
    exact absurd (hclosed.crossed _ hlo (not_le.mp hlt)) (by omega)
  rw [h.toSweeps.round_end density colour hclosed.upright
    fun e he ↦ (hclosed.above e he).trans hend]
  rfl

/-- Where the loop starts. -/
def start (D : Doubles) (polygon : Polygon) (image : GrayImage) : Filling D :=
  ⟨((edgeTable D polygon).head?.map (·.minY)).getD 0, edgeTable D polygon, [], image⟩

theorem start_of_cons {polygon : Polygon} {first : FillEdge D} {rest : List (FillEdge D)}
    (htable : edgeTable D polygon = first :: rest) :
    start D polygon image = ⟨first.minY, first :: rest, [], image⟩ := by
  rw [start, htable]
  rfl

theorem start_skip_ends {polygon : Polygon}
    (hreaches : (start D polygon image).Reaches density colour t)
    (hended : t.ended = false) (hfew : t.current.length < 2) :
    (t.round density colour).ended = true := by
  cases htable : edgeTable D polygon with
  | nil =>
    -- there is no round
    have hstart : (start D polygon image).ended = true := by
      rw [start, htable]
      rfl
    have hsame : t = start D polygon image := by
      clear hended hfew
      induction hreaches with
      | start => rfl
      | round _ hended ih =>
        rw [ih, hstart] at hended
        cases hended
    rw [hsame, hstart] at hended
    cases hended
  | cons first rest =>
    have hclosed := closed_edgeTable htable
    rw [start_of_cons htable] at hreaches
    exact (Follows.first hclosed image).skip_ends hclosed
      ⟨le_rfl, (hclosed.upright first List.mem_cons_self).le.trans
        (hclosed.above first List.mem_cons_self)⟩ hreaches hended hfew

end Filling

theorem fill_of_nil {polygon : Polygon} (htable : edgeTable D polygon = []) (density : ℤ)
    (colour : UInt8) (image : GrayImage) : fill D density colour polygon image = some image := by
  rw [edgeTable] at htable
  rw [fill, htable, ite_self]

theorem fill_of_cons {polygon : Polygon} {first : FillEdge D} {rest : List (FillEdge D)}
    (h : 3 ≤ polygon.vertices.length) (htable : edgeTable D polygon = first :: rest)
    (density : ℤ) (colour : UInt8) (image : GrayImage) :
    fill D density colour polygon image =
      (Filling.start D polygon image).run density colour
        ((rest.foldl (fun m e ↦ max m e.maxY) first.maxY - first.minY).toNat + 2) := by
  rw [Filling.start_of_cons htable]
  rw [edgeTable] at htable
  rw [fill, if_neg (Nat.not_lt.mpr h), htable]

/-- What a fill paints, on numbers of whatever precision. -/
theorem fill_painted (D : Doubles) (density : ℤ) (colour : UInt8) {polygon : Polygon}
    (h : 3 ≤ polygon.vertices.length) (image : GrayImage) :
    ∃ image', fill D density colour polygon image = some image' ∧
      image.Painted colour (Covers density (edgeTable D polygon)) image' := by
  cases htable : edgeTable D polygon with
  | nil =>
    refine ⟨image, fill_of_nil htable density colour image, (GrayImage.Painted.refl image).congr ?_⟩
    refine fun x y ↦ ⟨False.elim, Filling.not_covers fun e he ↦ absurd he List.not_mem_nil⟩
  | cons first rest =>
    have hclosed := closed_edgeTable htable
    obtain ⟨image', hrun, hpainted⟩ :=
      (Filling.Follows.first hclosed image).run density colour hclosed le_rfl
    refine ⟨image', ?_, hpainted.congr fun x y ↦ and_iff_right_of_imp fun hcovers ↦ ?_⟩
    · rw [fill_of_cons h htable, Filling.start_of_cons htable]
      exact hrun
    · by_contra hy
      refine Filling.not_covers (fun e he ↦ decide_eq_false ?_) hcovers
      have hle := hclosed.below e he
      dsimp only at hy
      omega

section Exact

variable {polygon : Polygon} {image : GrayImage} {x y : ℤ} {edge : Vector2 × Vector2}

theorem toInt_exact {q : ℚ} (h : 0 ≤ q) : exactDoubles.toInt q = ⌊q⌋ :=
  (Int.tdiv_eq_ediv_of_nonneg (Rat.num_nonneg.mpr h)).trans (Rat.floor_def q).symm

theorem place_exact {e : FillEdge exactDoubles} {a m : ℚ} (ha : e.minX = a) (hm : e.invM = m)
    (h : e.minY ≤ y) : e.place y = (a + (y - e.minY) * m : ℚ) := by
  have hsteps (n : ℕ) : (fun x : ℚ ↦ x + m)^[n] a = a + n * m := by
    rw [add_right_iterate, nsmul_eq_mul]
  have hrows : (((y - e.minY).toNat : ℤ) : ℚ) = ((y - e.minY : ℤ) : ℚ) := by
    rw [Int.toNat_of_nonneg (by omega)]
  rw [Int.cast_natCast, Int.cast_sub] at hrows
  rw [FillEdge.place, ha, hm, ← hrows]
  exact hsteps _

theorem spans_ofEdge {D : Doubles} {e : FillEdge D} (h : FillEdge.ofEdge edge = some e) :
    e.spans y = decide (straddles ⟨0, y⟩ edge) := by
  obtain ⟨-, hmin, hmax⟩ := FillEdge.ofEdge_minY h
  rw [FillEdge.spans, hmin, hmax, decide_eq_decide, straddles]
  dsimp only
  omega

theorem not_straddles_of_ofEdge {D : Doubles} (h : FillEdge.ofEdge (D := D) edge = none) :
    ¬ straddles ⟨0, y⟩ edge := by
  intro hacross
  rw [FillEdge.ofEdge] at h
  split at h
  · next heq => exact hacross.ne (sub_eq_zero.mpr heq)
  · cases h

theorem ofEdge_exact {e : FillEdge exactDoubles} (h : FillEdge.ofEdge edge = some e) :
    e.minX = ((if edge.1.y < edge.2.y then edge.1.x else edge.2.x : ℤ) : ℚ) ∧
      e.invM = ((edge.2.x - edge.1.x : ℤ) / (edge.2.y - edge.1.y : ℤ) : ℚ) := by
  rw [FillEdge.ofEdge] at h
  split at h
  · cases h
  · obtain rfl := Option.some.inj h
    exact ⟨rfl, rfl⟩

/-- Step by step an edge comes to where it meets the row. -/
theorem place_ofEdge {e : FillEdge exactDoubles} (h : FillEdge.ofEdge edge = some e)
    (hy : e.spans y = true) : e.place y = crossingX ⟨0, y⟩ edge := by
  have hacross : straddles ⟨0, y⟩ edge := by
    rw [spans_ofEdge h] at hy
    exact of_decide_eq_true hy
  rw [FillEdge.spans, decide_eq_true_eq] at hy
  obtain ⟨hx, hm⟩ := ofEdge_exact h
  obtain ⟨-, hmin, -⟩ := FillEdge.ofEdge_minY h
  refine (place_exact hx hm hy.1).trans ?_
  rw [hmin]
  exact crossingX_from_top hacross

theorem places_exact (polygon : Polygon) (y : ℤ) :
    places (edgeTable exactDoubles polygon) y = crossings polygon.vertices y := by
  have htable (l : List (Vector2 × Vector2)) :
      ((l.filterMap (FillEdge.ofEdge (D := exactDoubles))).filter (·.spans y)).map (·.place y) =
        (l.filter fun edge ↦ straddles ⟨0, y⟩ edge).map (crossingX ⟨0, y⟩) := by
    induction l with
    | nil => rfl
    | cons edge l ih =>
      cases h : FillEdge.ofEdge (D := exactDoubles) edge with
      | none =>
        rw [List.filterMap_cons_none h, ih, List.filter_cons_of_neg]
        rw [decide_eq_true_eq]
        exact not_straddles_of_ofEdge h
      | some e =>
        rw [List.filterMap_cons_some h, List.filter_cons, List.filter_cons, ← spans_ofEdge h]
        split
        · next hy =>
          rw [List.map_cons, List.map_cons, ih, place_ofEdge h hy]
          rfl
        · exact ih
  have hperm : (places (edgeTable exactDoubles polygon) y).Perm (crossings polygon.vertices y) := by
    refine (List.mergeSort_perm _ _).trans ((((edgeTable_perm _ _).filter _).map _).trans ?_)
    rw [htable]
    exact crossings_perm
  exact hperm.eq_of_pairwise' (List.pairwise_mergeSort' (· ≤ ·) _) pairwise_crossings

theorem covers_exact (hinside : ∀ v ∈ polygon.vertices, image.Inside v.x v.y) :
    Covers 1 (edgeTable exactDoubles polygon) x y ↔ Between (crossings polygon.vertices y) x := by
  have hfloor {q : ℚ} (hq : q ∈ crossings polygon.vertices y) : exactDoubles.toInt q = ⌊q⌋ :=
    toInt_exact (crossings_nonneg hq fun v hv ↦ (hinside v hv).1.1)
  rw [Covers, places_exact, Int.tmod_one, Int.tmod_one, between_iff]
  constructor
  · rintro ⟨-, p, hp, -, hx⟩
    obtain ⟨h₁, h₂⟩ := mem_of_mem_pairs hp
    rw [hfloor h₁, hfloor h₂] at hx
    exact ⟨p, hp, hx⟩
  · rintro ⟨p, hp, hx⟩
    obtain ⟨h₁, h₂⟩ := mem_of_mem_pairs hp
    rw [← hfloor h₁, ← hfloor h₂] at hx
    exact ⟨rfl, p, hp, rfl, hx⟩

/-- What a fill with exact numbers comes to: the loop skips no row but the one behind the last
edge, and the pixels between the crossings of each row get the colour. -/
theorem fill_exact (polygon : Polygon) (image : GrayImage) (colour : UInt8)
    (hthree : 3 ≤ polygon.vertices.length)
    (hinside : ∀ v ∈ polygon.vertices, image.Inside v.x v.y)
    (hline : image.width ≤ image.linesize) :
    (∀ s, (Filling.start exactDoubles polygon image).Reaches 1 colour s → s.ended = false →
      s.current.length < 2 → (s.round 1 colour).ended = true) ∧
    ∃ image', fill exactDoubles 1 colour polygon image = some image' ∧
      (∀ i, (∀ x y, image.Inside x y → image.index x y ≠ i) →
        image'.buffer i = image.buffer i) ∧
      (∀ x y, Between (crossings polygon.vertices y) x →
        image.Inside x y ∧ image'.pixel x y = colour) ∧
      (∀ x y, image.Inside x y → ¬ Between (crossings polygon.vertices y) x →
        image'.pixel x y = image.pixel x y) ∧
      (∀ polygon' : Polygon, polygon'.vertices ~r polygon.vertices ∨
          polygon'.vertices ~r polygon.vertices.reverse →
        fill exactDoubles 1 colour polygon' image = some image') ∧
      ∀ coord, polygon.contains coord = true →
        image.Inside coord.x coord.y ∧ image'.pixel coord.x coord.y = colour := by
  refine ⟨fun s ↦ Filling.start_skip_ends, ?_⟩
  obtain ⟨image', hfill, hcovered⟩ := fill_painted exactDoubles 1 colour hthree image
  have hpainted := hcovered.congr fun x y ↦ covers_exact hinside
  have hin {x y : ℤ} (h : Between (crossings polygon.vertices y) x) : image.Inside x y :=
    h.inside hinside
  have hpixel (x y : ℤ) : image'.pixel x y = image'.buffer (image.index x y) := by
    rw [GrayImage.pixel, GrayImage.index, GrayImage.index, hpainted.linesize]
  have hon (x y : ℤ) (h : Between (crossings polygon.vertices y) x) :
      image.Inside x y ∧ image'.pixel x y = colour :=
    ⟨hin h, (hpixel x y).trans (hpainted.painted x y h)⟩
  refine ⟨image', hfill, ?_, hon, ?_, ?_, fun coord h ↦ hon _ _ (between_of_contains h)⟩
  · exact fun i hi ↦ hpainted.kept i fun x y h ↦ hi x y (hin h)
  · intro x y hxy hnot
    rw [hpixel]
    refine hpainted.kept _ fun x' y' h heq ↦ hnot ?_
    obtain ⟨rfl, rfl⟩ := GrayImage.index_inj hline (hin h) hxy heq
    exact h
  · intro polygon' hlisted
    have hperm : ∀ v, v ∈ polygon'.vertices ↔ v ∈ polygon.vertices := by
      intro v
      rcases hlisted with h | h
      · exact h.mem_iff
      · rw [h.mem_iff, List.mem_reverse]
    have hlength : polygon'.vertices.length = polygon.vertices.length := by
      rcases hlisted with h | h
      · exact h.perm.length_eq
      · rw [h.perm.length_eq, List.length_reverse]
    have hinside' : ∀ v ∈ polygon'.vertices, image.Inside v.x v.y :=
      fun v hv ↦ hinside v ((hperm v).mp hv)
    obtain ⟨image'', hfill', hcovered'⟩ :=
      fill_painted exactDoubles 1 colour (hlength ▸ hthree) image
    have hpainted' := hcovered'.congr fun x y ↦ covers_exact hinside'
    simp only [crossings_listed hlisted] at hpainted'
    rw [hfill', hpainted'.unique hpainted]

theorem fill_exact_bowtie : ∃ image',
    fill exactDoubles 1 255 { vertices := [⟨0, 0⟩, ⟨3, 2⟩, ⟨3, 0⟩, ⟨0, 2⟩] } (.clear 4 3) =
        some image' ∧
      fill exactDoubles 1 255 { vertices := [⟨0, 2⟩, ⟨3, 0⟩, ⟨3, 2⟩, ⟨0, 0⟩] } (.clear 4 3) =
        some image' ∧
      image'.pixel 2 1 = 255 := by
  obtain ⟨-, image', hfill, -, -, -, hlisted, hcontains⟩ :=
    fill_exact { vertices := [⟨0, 0⟩, ⟨3, 2⟩, ⟨3, 0⟩, ⟨0, 2⟩] } (.clear 4 3) 255 (by decide)
      (by decide) (by decide)
  refine ⟨image', hfill, hlisted _ (.inr (List.IsRotated.refl _)), ?_⟩
  exact (hcontains ⟨2, 1⟩ (by decide)).2

end Exact

end

end ZoneMinder.Zone
