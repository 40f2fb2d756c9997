import ZoneMinder.Zone.Coords
import ZoneMinder.Zone.Mask

namespace ZoneMinder.Zone

open Lib ZoneMinder.Poly

/-- The doubles but for NaN. The integers of 32 bits are among them. -/
structure Doubles where
  Double : Type
  [order : LinearOrder Double]
  ofInt : ℤ → Double
  add : Double → Double → Double
  mul : Double → Double → Double
  div : Double → Double → Double
  /-- A cast to int, which truncates. -/
  toInt : Double → ℤ
  round : Double → ℤ
  toInt_ofInt : ∀ n : ℤ, |n| < 2 ^ 31 → toInt (ofInt n) = n
  round_ofInt : ∀ n : ℤ, |n| < 2 ^ 31 → round (ofInt n) = n

attribute [instance] Doubles.order

theorem truncate_intCast (n : ℤ) : (n : ℚ).num.tdiv (n : ℚ).den = n := by
  rw [Rat.num_intCast, Rat.den_intCast]
  exact Int.tdiv_one n

/-- Numbers that are all exact. -/
def exactDoubles : Doubles where
  Double := ℚ
  ofInt n := n
  add a b := a + b
  mul a b := a * b
  div a b := a / b
  toInt q := q.num.tdiv q.den
  round := roundAway
  toInt_ofInt n _ := truncate_intCast n
  round_ofInt n _ := roundAway_intCast n

/-- FFALIGN to 32. -/
def alignedTo32 (n : ℕ) : ℕ := (n + 31) / 32 * 32

/-- An image of one byte a pixel, its rows `linesize` bytes apart. -/
structure GrayImage where
  width : ℕ
  height : ℕ
  linesize : ℕ
  buffer : ℤ → UInt8

namespace GrayImage

/-- `Buffer(x, y)` -/
def index (image : GrayImage) (x y : ℤ) : ℤ := y * image.linesize + x

def pixel (image : GrayImage) (x y : ℤ) : UInt8 := image.buffer (image.index x y)

/-- A new image, cleared. -/
def clear (width height : ℕ) : GrayImage := ⟨width, height, alignedTo32 width, fun _ ↦ 0⟩

def set (image : GrayImage) (x y : ℤ) (colour : UInt8) : GrayImage :=
  { image with buffer := Function.update image.buffer (image.index x y) colour }

end GrayImage

section

variable (D : Doubles) (colour : UInt8)

/-- A loop that draws a line: `n` steps of `inc` along one axis and of `grad` along the other. -/
def drawLine (plot : GrayImage → ℤ → ℤ → GrayImage) (inc : ℤ) (grad : D.Double) :
    ℕ → ℤ → D.Double → GrayImage → GrayImage
  | 0, _, _, image => image
  | n + 1, major, minor, image =>
    drawLine plot inc grad n (major + inc) (D.add minor grad)
      (plot image major (D.round minor))

/-- The line from one vertex to the next, its last pixel left to the line from there. -/
def outlineEdge (image : GrayImage) (edge : Vector2 × Vector2) : GrayImage :=
  let x₁ := clamp edge.1.x 0 (image.width - 1)
  let x₂ := clamp edge.2.x 0 (image.width - 1)
  let y₁ := clamp edge.1.y 0 (image.height - 1)
  let y₂ := clamp edge.2.y 0 (image.height - 1)
  let dx := x₂ - x₁
  let dy := y₂ - y₁
  if |dx| ≤ |dy| then
    let grad := if y₁ ≠ y₂ then D.div (D.ofInt dx) (D.ofInt dy) else D.ofInt image.width
    let yinc := if y₁ < y₂ then 1 else -1
    drawLine D (fun image y x ↦ image.set x y colour) yinc (D.mul grad (D.ofInt yinc)) dy.natAbs y₁
      (D.ofInt x₁) image
  else
    let grad := if x₁ ≠ x₂ then D.div (D.ofInt dy) (D.ofInt dx) else D.ofInt image.height
    let xinc := if x₁ < x₂ then 1 else -1
    drawLine D (fun image x y ↦ image.set x y colour) xinc (D.mul grad (D.ofInt xinc)) dx.natAbs x₁
      (D.ofInt y₁) image

def outline (polygon : Polygon) (image : GrayImage) : GrayImage :=
  (edges polygon.vertices).foldl (outlineEdge D colour) image

end

/-- An edge of the scan-line fill; `invM` is how far x moves from row to row. -/
structure FillEdge (D : Doubles) where
  minY : ℤ
  maxY : ℤ
  minX : D.Double
  invM : D.Double

namespace FillEdge

variable {D : Doubles}

def compareYX (e₁ e₂ : FillEdge D) : Bool :=
  if e₁.minY = e₂.minY then decide (e₁.minX < e₂.minX) else decide (e₁.minY < e₂.minY)

def compareX (e₁ e₂ : FillEdge D) : Bool := decide (e₁.minX < e₂.minX)

/-- Horizontal edges are left out. -/
def ofEdge (edge : Vector2 × Vector2) : Option (FillEdge D) :=
  let (p₁, p₂) := edge
  if p₁.y = p₂.y then none
  else some
    { minY := min p₁.y p₂.y
      maxY := max p₁.y p₂.y
      minX := D.ofInt (if p₁.y < p₂.y then p₁.x else p₂.x)
      invM := D.div (D.ofInt (p₂.x - p₁.x)) (D.ofInt (p₂.y - p₁.y)) }

end FillEdge

structure Filling (D : Doubles) where
  scanLine : ℤ
  globalEdges : List (FillEdge D)
  activeEdges : List (FillEdge D)
  image : GrayImage

namespace Filling

variable {D : Doubles}

/-- Fill between two active edges. -/
def span (density : ℤ) (colour : UInt8) (scanLine : ℤ) (image : GrayImage)
    (pair : FillEdge D × FillEdge D) : GrayImage :=
  (upto (D.toInt pair.1.minX) (D.toInt pair.2.minX)).foldl
    (fun image x ↦ if x.tmod density = 0 then image.set x scanLine colour else image) image

/-- The edges two by two. -/
def pairs : List (FillEdge D) → List (FillEdge D × FillEdge D)
  | e₁ :: e₂ :: es => (e₁, e₂) :: pairs es
  | _ => []

/-- A round of the loop; with fewer than two active edges it stays on its row. -/
def round (density : ℤ) (colour : UInt8) (s : Filling D) : Filling D :=
  let active : List (FillEdge D) := (s.activeEdges.filter fun e ↦ !decide (s.scanLine ≥ e.maxY)).map fun e ↦
    { e with minX := D.add e.minX e.invM }
  let active := active ++ s.globalEdges.filter fun e ↦ e.minY = s.scanLine
  let global := s.globalEdges.filter fun e ↦ e.minY ≠ s.scanLine
  if active.length < 2 then { s with globalEdges := global, activeEdges := active }
  else
    -- std::sort may swap edges of one x, which the spans do not tell apart
    let active := active.mergeSort fun e₁ e₂ ↦ !FillEdge.compareX e₂ e₁
    { scanLine := s.scanLine + 1
      globalEdges := global
      activeEdges := active
      image :=
        if s.scanLine.tmod density = 0 then
          (pairs active).foldl (span density colour s.scanLine) s.image
        else s.image }

/-- none when the rounds do not end the loop. -/
def run (density : ℤ) (colour : UInt8) : ℕ → Filling D → Option GrayImage
  | 0, _ => none
  | rounds + 1, s =>
    if s.globalEdges.isEmpty && s.activeEdges.isEmpty then some s.image
    else run density colour rounds (s.round density colour)

end Filling

/-- One round for each row from the first edge to the end of the last, and one to see it out. -/
def fill (D : Doubles) (density : ℤ) (colour : UInt8) (polygon : Polygon) (image : GrayImage) :
    Option GrayImage :=
  if polygon.vertices.length < 3 then some image
  else
    match ((edges polygon.vertices).filterMap (FillEdge.ofEdge (D := D))).mergeSort
      fun e₁ e₂ ↦ !FillEdge.compareYX e₂ e₁ with
    | [] => some image
    | first :: rest =>
      let maxY := rest.foldl (fun m e ↦ max m e.maxY) first.maxY
      Filling.run density colour ((maxY - first.minY).toNat + 2)
        ⟨first.minY, first :: rest, [], image⟩

/-- An image with more painted on it. -/
structure GrayImage.Within (image image' : GrayImage) : Prop where
  width : image'.width = image.width
  height : image'.height = image.height
  linesize : image'.linesize = image.linesize
  painted : ∀ i, image.buffer i ≠ 0 → image'.buffer i ≠ 0

section

variable {D : Doubles} {colour : UInt8} {image image' image'' : GrayImage} {density : ℤ}
  {polygon : Polygon} {s : Filling D}

namespace GrayImage.Within

theorem refl (image : GrayImage) : image.Within image := ⟨rfl, rfl, rfl, fun _ ↦ id⟩

theorem trans (h : image.Within image') (h' : image'.Within image'') : image.Within image'' where
  width := h'.width.trans h.width
  height := h'.height.trans h.height
  linesize := h'.linesize.trans h.linesize
  painted := fun i hi ↦ h'.painted i (h.painted i hi)

theorem of_set (hcolour : colour ≠ 0) (x y : ℤ) : image.Within (image.set x y colour) where
  width := rfl
  height := rfl
  linesize := rfl
  painted := by
    intro i hi
    change Function.update image.buffer (image.index x y) colour i ≠ 0
    rw [Function.update_apply]
    split
    · exact hcolour
    · exact hi

theorem of_foldl {α : Type*} {f : GrayImage → α → GrayImage}
    (hf : ∀ (image : GrayImage) a, image.Within (f image a))
    (l : List α) (image : GrayImage) : image.Within (l.foldl f image) := by
  induction l generalizing image with
  | nil => exact refl image
  | cons a l ih => exact (hf image a).trans (ih _)

theorem of_drawLine {plot : GrayImage → ℤ → ℤ → GrayImage}
    (hplot : ∀ (image : GrayImage) major minor, image.Within (plot image major minor))
    (inc : ℤ) (grad : D.Double)
    (n : ℕ) (major : ℤ) (minor : D.Double) (image : GrayImage) :
    image.Within (drawLine D plot inc grad n major minor image) := by
  induction n generalizing major minor image with
  | zero => exact refl image
  | succ n ih => exact (hplot _ _ _).trans (ih _ _ _)

theorem of_outlineEdge (hcolour : colour ≠ 0) (image : GrayImage) (edge : Vector2 × Vector2) :
    image.Within (outlineEdge D colour image edge) := by
  rw [outlineEdge]
  dsimp only
  split
  · exact of_drawLine (fun _ _ _ ↦ of_set hcolour _ _) _ _ _ _ _ _
  · exact of_drawLine (fun _ _ _ ↦ of_set hcolour _ _) _ _ _ _ _ _

theorem of_round (hcolour : colour ≠ 0) : s.image.Within (s.round density colour).image := by
  rw [Filling.round]
  dsimp only
  split
  · exact refl _
  · dsimp only
    split
    · refine of_foldl (fun image pair ↦ of_foldl (fun image x ↦ ?_) _ _) _ _
      split
      · exact of_set hcolour _ _
      · exact refl _
    · exact refl _

theorem of_run (hcolour : colour ≠ 0) {rounds : ℕ} (h : s.run density colour rounds = some image) :
    s.image.Within image := by
  induction rounds generalizing s with
  | zero => cases h
  | succ rounds ih =>
    rw [Filling.run] at h
    split at h
    · obtain rfl := Option.some.inj h
      exact refl _
    · exact (of_round hcolour).trans (ih h)

theorem of_fill (hcolour : colour ≠ 0) (h : fill D density colour polygon image = some image') :
    image.Within image' := by
  rw [fill] at h
  split at h
  · obtain rfl := Option.some.inj h
    exact refl _
  split at h
  · obtain rfl := Option.some.inj h
    exact refl _
  · exact of_run hcolour h

end GrayImage.Within

theorem clamp_eq {v hi : ℤ} (h : 0 ≤ v ∧ v ≤ hi) : clamp v 0 hi = v := by
  rw [clamp, if_neg (by omega), if_neg (by omega)]

theorem outlineEdge_start (D : Doubles) (image : GrayImage) (hcolour : colour ≠ 0)
    {p₁ p₂ : Vector2} (hne : p₁ ≠ p₂)
    (hsize : image.width ≤ 2 ^ 31 ∧ image.height ≤ 2 ^ 31)
    (h₁ : (0 ≤ p₁.x ∧ p₁.x ≤ image.width - 1) ∧ 0 ≤ p₁.y ∧ p₁.y ≤ image.height - 1)
    (h₂ : (0 ≤ p₂.x ∧ p₂.x ≤ image.width - 1) ∧ 0 ≤ p₂.y ∧ p₂.y ≤ image.height - 1) :
    (outlineEdge D colour image (p₁, p₂)).buffer (image.index p₁.x p₁.y) ≠ 0 := by
  have hstart (plot : GrayImage → ℤ → ℤ → GrayImage) (inc : ℤ) (grad : D.Double) {n : ℕ} (hn : n ≠ 0)
      (major : ℤ) {minor : ℤ} (hminor : |minor| < 2 ^ 31)
      (hplot : ∀ (image : GrayImage) major minor, image.Within (plot image major minor))
      (hpixel : (plot image major minor).buffer (image.index p₁.x p₁.y) ≠ 0) :
      (drawLine D plot inc grad n major (D.ofInt minor) image).buffer (image.index p₁.x p₁.y) ≠
        0 := by
    obtain ⟨n, rfl⟩ := Nat.exists_eq_succ_of_ne_zero hn
    rw [drawLine, D.round_ofInt minor hminor]
    exact (GrayImage.Within.of_drawLine hplot _ _ _ _ _ _).painted _ hpixel
  have hset (x y : ℤ) : (image.set x y colour).buffer (image.index x y) ≠ 0 := by
    change Function.update image.buffer (image.index x y) colour (image.index x y) ≠ 0
    rw [Function.update_self]
    exact hcolour
  rw [outlineEdge]
  dsimp only
  rw [clamp_eq h₁.1, clamp_eq h₂.1, clamp_eq h₁.2, clamp_eq h₂.2]
  split
  · next hsteep =>
    refine hstart _ _ _ ?_ _ ?_ (fun _ _ _ ↦ .of_set hcolour _ _) (hset _ _)
    · intro hzero
      have hy := Int.natAbs_eq_zero.mp hzero
      rw [hy, abs_zero] at hsteep
      have hx := abs_nonpos_iff.mp hsteep
      exact hne (Vector2.ext (by omega) (by omega))
    · rw [abs_lt]
      omega
  · next hflat =>
    refine hstart _ _ _ ?_ _ ?_ (fun _ _ _ ↦ .of_set hcolour _ _) (hset _ _)
    · intro hzero
      have hx := Int.natAbs_eq_zero.mp hzero
      rw [hx, abs_zero] at hflat
      exact hflat (abs_nonneg _)
    · rw [abs_lt]
      omega

theorem outlineEdge_self (image : GrayImage) (p : Vector2) :
    outlineEdge D colour image (p, p) = image := by
  rw [outlineEdge]
  simp [drawLine]

end

namespace FillEdge

variable {D : Doubles} {e₁ e₂ e₃ : FillEdge D} {edge : Vector2 × Vector2} {y : ℤ}

theorem not_compareYX_iff : (!compareYX e₂ e₁) = true ↔
    e₁.minY < e₂.minY ∨ e₁.minY = e₂.minY ∧ e₁.minX ≤ e₂.minX := by
  rw [compareYX, Bool.not_eq_true']
  split
  · next heq =>
    rw [decide_eq_false_iff_not, not_lt]
    exact ⟨fun h ↦ Or.inr ⟨heq.symm, h⟩, fun h ↦ h.elim (fun hlt ↦ absurd heq hlt.ne') And.right⟩
  · next hne =>
    rw [decide_eq_false_iff_not]
    omega

theorem not_compareYX_trans (h₁ : (!compareYX e₂ e₁) = true) (h₂ : (!compareYX e₃ e₂) = true) :
    (!compareYX e₃ e₁) = true := by
  rw [not_compareYX_iff] at *
  rcases h₁ with h₁ | ⟨h₁, h₁'⟩
  · left
    omega
  · rcases h₂ with h₂ | ⟨h₂, h₂'⟩
    · left
      omega
    · exact Or.inr ⟨h₁.trans h₂, h₁'.trans h₂'⟩

theorem not_compareYX_total (e₁ e₂ : FillEdge D) :
    ((!compareYX e₂ e₁) || !compareYX e₁ e₂) = true := by
  rw [Bool.or_eq_true, not_compareYX_iff, not_compareYX_iff]
  rcases lt_trichotomy e₁.minY e₂.minY with h | h | h
  · exact Or.inl (Or.inl h)
  · rcases le_total e₁.minX e₂.minX with h' | h'
    · exact Or.inl (Or.inr ⟨h, h'⟩)
    · exact Or.inr (Or.inr ⟨h.symm, h'⟩)
  · exact Or.inr (Or.inl h)

/-- Whether an edge is active in a row. -/
def spans (e : FillEdge D) (y : ℤ) : Bool := decide (e.minY ≤ y ∧ y < e.maxY)

theorem ofEdge_minY {e : FillEdge D} (h : ofEdge edge = some e) :
    e.minY < e.maxY ∧ e.minY = min edge.1.y edge.2.y ∧ e.maxY = max edge.1.y edge.2.y := by
  rw [ofEdge] at h
  split at h
  · cases h
  · obtain rfl := Option.some.inj h
    dsimp only
    omega

/-- The edges active in a row are those that the row crosses. -/
theorem countP_spans (l : List (Vector2 × Vector2)) :
    (l.filterMap (ofEdge (D := D))).countP (·.spans y) =
      l.countP fun e ↦ decide (e.1.y ≤ y) != decide (e.2.y ≤ y) := by
  induction l with
  | nil => rfl
  | cons edge l ih =>
    rw [List.countP_cons, ← ih]
    cases h : ofEdge (D := D) edge with
    | none =>
      have heq : edge.1.y = edge.2.y := by
        rw [ofEdge] at h
        split at h
        · assumption
        · cases h
      rw [List.filterMap_cons_none h, heq, bne_self_eq_false, if_neg Bool.false_ne_true, add_zero]
    | some e =>
      obtain ⟨-, hmin, hmax⟩ := ofEdge_minY h
      have hcross : e.spans y = (decide (edge.1.y ≤ y) != decide (edge.2.y ≤ y)) := by
        rw [spans, hmin, hmax]
        by_cases h₁ : edge.1.y ≤ y <;> by_cases h₂ : edge.2.y ≤ y <;> simp [h₁, h₂] <;> omega
      rw [List.filterMap_cons_some h, List.countP_cons, hcross]

end FillEdge

section

variable {D : Doubles} {density : ℤ} {colour : UInt8} {s : Filling D} {all : List (FillEdge D)}

/-- Where the loop comes to a row: the edges from there on wait, and those that were active in the
row before are active. -/
structure Filling.Sweeps (all : List (FillEdge D)) (s : Filling D) : Prop where
  waiting : s.globalEdges = all.filter fun e ↦ s.scanLine ≤ e.minY
  active : ∀ p : ℤ → Bool, s.activeEdges.countP (fun e ↦ p e.maxY) =
    all.countP fun e ↦ decide (e.minY < s.scanLine ∧ s.scanLine ≤ e.maxY) && p e.maxY

/-- The edges that are active in the row of a round. -/
def Filling.current (s : Filling D) : List (FillEdge D) :=
  ((s.activeEdges.filter fun e ↦ !decide (s.scanLine ≥ e.maxY)).map fun e ↦
    { e with minX := D.add e.minX e.invM }) ++ s.globalEdges.filter fun e ↦ e.minY = s.scanLine

theorem countP_add_disjoint {α : Type*} {p q r : α → Bool} {l : List α}
    (h : ∀ a ∈ l, r a = (p a || q a) ∧ ¬(p a = true ∧ q a = true)) :
    l.countP r = l.countP p + l.countP q := by
  induction l with
  | nil => rfl
  | cons a l ih =>
    rw [List.forall_mem_cons] at h
    rw [List.countP_cons, List.countP_cons, List.countP_cons, ih h.2, h.1.1]
    have hnot := h.1.2
    cases hp : p a <;> cases hq : q a <;> simp_all <;> omega

theorem Filling.Sweeps.countP_current (h : s.Sweeps all) (hall : ∀ e ∈ all, e.minY < e.maxY)
    (p : ℤ → Bool) : s.current.countP (fun e ↦ p e.maxY) =
      all.countP fun e ↦ e.spans s.scanLine && p e.maxY := by
  have hkept : ((s.activeEdges.filter fun e ↦ !decide (s.scanLine ≥ e.maxY)).map fun e ↦
      { e with minX := D.add e.minX e.invM }).countP (fun e ↦ p e.maxY) =
      all.countP fun e ↦ decide (e.minY < s.scanLine ∧ s.scanLine ≤ e.maxY) &&
        (p e.maxY && !decide (s.scanLine ≥ e.maxY)) := by
    rw [List.countP_map, List.countP_filter,
      ← h.active fun maxY ↦ p maxY && !decide (s.scanLine ≥ maxY)]
    rfl
  have hnew : (s.globalEdges.filter fun e ↦ e.minY = s.scanLine).countP (fun e ↦ p e.maxY) =
      all.countP fun e ↦ (p e.maxY && decide (e.minY = s.scanLine)) && decide (s.scanLine ≤ e.minY) := by
    rw [h.waiting, List.countP_filter, List.countP_filter]
  rw [Filling.current, List.countP_append, hkept, hnew]
  refine (countP_add_disjoint fun e he ↦ ?_).symm
  have hlt := hall e he
  rw [FillEdge.spans]
  cases p e.maxY with
  | false => simp
  | true =>
    rw [Bool.eq_iff_iff]
    simp only [Bool.and_true, Bool.true_and, Bool.and_eq_true, Bool.not_eq_true', ge_iff_le,
      decide_eq_true_eq, decide_eq_false_iff_not, Bool.or_eq_true]
    omega

theorem Filling.round_eq : s.round density colour =
    if s.current.length < 2 then
      { s with
        globalEdges := s.globalEdges.filter fun e ↦ e.minY ≠ s.scanLine, activeEdges := s.current }
    else
      { scanLine := s.scanLine + 1
        globalEdges := s.globalEdges.filter fun e ↦ e.minY ≠ s.scanLine
        activeEdges := s.current.mergeSort fun e₁ e₂ ↦ !FillEdge.compareX e₂ e₁
        image :=
          if s.scanLine.tmod density = 0 then
            (pairs (s.current.mergeSort fun e₁ e₂ ↦ !FillEdge.compareX e₂ e₁)).foldl
              (span density colour s.scanLine) s.image
          else s.image } := rfl

theorem Filling.Sweeps.length_current (h : s.Sweeps all) (hall : ∀ e ∈ all, e.minY < e.maxY) :
    s.current.length = all.countP (·.spans s.scanLine) := by
  have hcount := h.countP_current hall fun _ ↦ true
  rw [List.countP_true] at hcount
  rw [hcount]
  simp only [Bool.and_true]

theorem Filling.Sweeps.round (density : ℤ) (colour : UInt8) (h : s.Sweeps all)
    (hall : ∀ e ∈ all, e.minY < e.maxY)
    (hcross : 2 ≤ all.countP (·.spans s.scanLine)) :
    (s.round density colour).Sweeps all ∧
      (s.round density colour).scanLine = s.scanLine + 1 := by
  rw [Filling.round_eq, if_neg (by rw [h.length_current hall]; omega)]
  refine ⟨⟨?_, ?_⟩, rfl⟩
  · change s.globalEdges.filter _ = _
    rw [h.waiting, List.filter_filter]
    apply List.filter_congr
    intro e _
    rw [Bool.eq_iff_iff]
    simp only [decide_not, Bool.and_eq_true, Bool.not_eq_true', decide_eq_true_eq,
      decide_eq_false_iff_not]
    omega
  · intro p
    change (s.current.mergeSort _).countP _ = _
    rw [(List.mergeSort_perm _ _).countP_eq, h.countP_current hall]
    apply List.countP_congr
    intro e _
    rw [FillEdge.spans, Bool.and_eq_true, Bool.and_eq_true, decide_eq_true_eq, decide_eq_true_eq]
    apply and_congr_left
    intro _
    dsimp only
    omega

/-- The row behind the last edge has nothing to fill, and leaves nothing. -/
theorem Filling.Sweeps.round_end (density : ℤ) (colour : UInt8) (h : s.Sweeps all)
    (hall : ∀ e ∈ all, e.minY < e.maxY) (hbehind : ∀ e ∈ all, e.maxY ≤ s.scanLine) :
    s.round density colour = ⟨s.scanLine, [], [], s.image⟩ := by
  have hnone : s.current = [] := by
    apply List.eq_nil_of_length_eq_zero
    rw [h.length_current hall, List.countP_eq_zero]
    intro e he
    have hle := hbehind e he
    rw [FillEdge.spans, decide_eq_true_eq]
    omega
  have hglobal : s.globalEdges.filter (fun e ↦ e.minY ≠ s.scanLine) = [] := by
    rw [h.waiting, List.filter_filter, List.filter_eq_nil_iff]
    intro e he
    have hlt := hall e he
    have hle := hbehind e he
    simp only [Bool.and_eq_true, decide_eq_true_eq]
    omega
  rw [Filling.round_eq, hnone, hglobal]
  rfl

theorem Filling.Sweeps.run_end (h : s.Sweeps all) (hall : ∀ e ∈ all, e.minY < e.maxY)
    (hbehind : ∀ e ∈ all, e.maxY ≤ s.scanLine) (rounds : ℕ) :
    s.run density colour (rounds + 2) = some s.image := by
  rw [Filling.run]
  split
  · rfl
  · rw [Filling.run, h.round_end density colour hall hbehind]
    rfl

theorem Filling.Sweeps.run (h : s.Sweeps all) (hall : ∀ e ∈ all, e.minY < e.maxY) {maxY : ℤ}
    (hmax : ∀ e ∈ all, e.maxY ≤ maxY)
    (hcross : ∀ y, s.scanLine ≤ y → y < maxY → 2 ≤ all.countP (·.spans y)) :
    (s.run density colour ((maxY - s.scanLine).toNat + 2)).isSome := by
  induction hn : (maxY - s.scanLine).toNat generalizing s with
  | zero =>
    rw [Nat.zero_add, h.run_end hall (fun e he ↦ (hmax e he).trans (by omega)) 0]
    rfl
  | succ n ih =>
    obtain ⟨hnext, hline⟩ := h.round density colour hall
      (hcross s.scanLine (Int.le_refl _) (by omega))
    rw [Filling.run]
    split
    · rfl
    · exact ih hnext (fun y hy ↦ hcross y (by omega)) (by omega)

theorem foldl_max_mem (l : List (FillEdge D)) (first : FillEdge D) :
    ∃ e ∈ first :: l, e.maxY = l.foldl (fun m e ↦ max m e.maxY) first.maxY := by
  induction l generalizing first with
  | nil => exact ⟨first, List.mem_cons_self, rfl⟩
  | cons e l ih =>
    rw [List.foldl_cons]
    rcases max_choice first.maxY e.maxY with h | h
    · obtain ⟨e', hmem, he'⟩ := ih first
      rw [h]
      refine ⟨e', ?_, he'⟩
      rcases List.mem_cons.mp hmem with rfl | hmem
      · exact List.mem_cons_self
      · exact List.mem_cons_of_mem _ (List.mem_cons_of_mem _ hmem)
    · obtain ⟨e', hmem, he'⟩ := ih e
      rw [h]
      exact ⟨e', List.mem_cons_of_mem _ hmem, he'⟩

/-- The edge table in the order in which the loop comes to its edges. -/
def edgeTable (D : Doubles) (polygon : Polygon) : List (FillEdge D) :=
  ((edges polygon.vertices).filterMap FillEdge.ofEdge).mergeSort fun e₁ e₂ ↦
    !FillEdge.compareYX e₂ e₁

/-- The edges of a closed outline from one row to another. -/
structure FillEdge.Closed (all : List (FillEdge D)) (lo hi : ℤ) : Prop where
  upright : ∀ e ∈ all, e.minY < e.maxY
  below : ∀ e ∈ all, lo ≤ e.minY
  above : ∀ e ∈ all, e.maxY ≤ hi
  crossed : ∀ y, lo ≤ y → y < hi → 2 ≤ all.countP (·.spans y)

theorem edgeTable_perm (D : Doubles) (polygon : Polygon) :
    (edgeTable D polygon).Perm ((edges polygon.vertices).filterMap FillEdge.ofEdge) :=
  List.mergeSort_perm _ _

/-- As an outline is closed, every row from its first to its last crosses two edges at least. -/
theorem closed_edgeTable {polygon : Polygon} {first : FillEdge D} {rest : List (FillEdge D)}
    (heq : edgeTable D polygon = first :: rest) :
    FillEdge.Closed (first :: rest) first.minY
      (rest.foldl (fun m e ↦ max m e.maxY) first.maxY) := by
  have hperm := edgeTable_perm D polygon
  have hsorted := List.pairwise_mergeSort (fun _ _ _ ↦ FillEdge.not_compareYX_trans)
    FillEdge.not_compareYX_total
    ((edges polygon.vertices).filterMap (FillEdge.ofEdge (D := D)))
  change (edgeTable D polygon).Pairwise _ at hsorted
  rw [heq] at hperm hsorted
  have hedge : ∀ e ∈ first :: rest, ∃ edge ∈ edges polygon.vertices,
      FillEdge.ofEdge edge = some e := by
    intro e he
    exact List.mem_filterMap.mp (hperm.mem_iff.mp he)
  constructor
  · intro e he
    obtain ⟨edge, -, hof⟩ := hedge e he
    exact (FillEdge.ofEdge_minY hof).1
  · rw [List.forall_mem_cons]
    refine ⟨le_rfl, fun e he ↦ ?_⟩
    have hle := FillEdge.not_compareYX_iff.mp ((List.pairwise_cons.mp hsorted).1 e he)
    omega
  · rw [List.forall_mem_cons]
    exact le_foldl_max FillEdge.maxY rest first.maxY
  · intro y hlow hhigh
    rw [hperm.countP_eq, FillEdge.countP_spans]
    -- the first edge starts at or above the row, another ends below it
    obtain ⟨edge, hmem, hof⟩ := hedge first List.mem_cons_self
    obtain ⟨-, hmin, -⟩ := FillEdge.ofEdge_minY hof
    obtain ⟨last, hlast, hmax⟩ := foldl_max_mem rest first
    obtain ⟨edge', hmem', hof'⟩ := hedge last hlast
    obtain ⟨-, -, hmax'⟩ := FillEdge.ofEdge_minY hof'
    have hbehind : y < last.maxY := by
      rw [hmax]
      exact hhigh
    obtain ⟨h₁, h₂⟩ := mem_of_mem_edges hmem
    obtain ⟨h₁', h₂'⟩ := mem_of_mem_edges hmem'
    have hlow' : ∃ v ∈ polygon.vertices, v.y ≤ y := by
      rcases min_choice edge.1.y edge.2.y with h | h
      · exact ⟨edge.1, h₁, by omega⟩
      · exact ⟨edge.2, h₂, by omega⟩
    have hhigh' : ∃ v ∈ polygon.vertices, y < v.y := by
      rcases max_choice edge'.1.y edge'.2.y with h | h
      · exact ⟨edge'.1, h₁', by omega⟩
      · exact ⟨edge'.2, h₂', by omega⟩
    obtain ⟨v, hv, hvy⟩ := hlow'
    obtain ⟨w, hw, hwy⟩ := hhigh'
    refine two_le_countP_edges (fun v ↦ decide (v.y ≤ y)) hv hw ?_
    rw [decide_eq_true hvy, decide_eq_false (not_le.mpr hwy)]
    exact Bool.false_ne_true.symm

/-- At its first row the loop has all of the table before it. -/
theorem Filling.Sweeps.first {lo hi : ℤ} (h : FillEdge.Closed all lo hi) (image : GrayImage) :
    Filling.Sweeps all ⟨lo, all, [], image⟩ := by
  constructor
  · refine (List.filter_eq_self.mpr fun e he ↦ ?_).symm
    exact decide_eq_true (h.below e he)
  · intro p
    refine (List.countP_eq_zero.mpr fun e he ↦ ?_).symm
    have hle := h.below e he
    rw [Bool.and_eq_true, decide_eq_true_eq]
    dsimp only
    omega

/-- The loop ends for every polygon. -/
theorem fill_isSome (D : Doubles) (density : ℤ) (colour : UInt8) (polygon : Polygon)
    (image : GrayImage) : (fill D density colour polygon image).isSome := by
  rw [fill]
  split
  · rfl
  split
  · rfl
  next first rest heq =>
    have hclosed := closed_edgeTable heq
    exact (Filling.Sweeps.first hclosed image).run hclosed.upright hclosed.above hclosed.crossed

end

end ZoneMinder.Zone
