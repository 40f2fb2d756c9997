import Mathlib.Order.Nat
import ZoneMinder.Lib.Cells

namespace Lib

/-- A rectangle of pixels in memory, each of so many bytes, in rows that are so far apart. -/
structure Raster where
  base : ℕ
  stride : ℕ
  bytes : ℕ
  width : ℕ
  height : ℕ
  deriving DecidableEq

/-- What is shown at some of the pixels: the bytes of each. -/
abbrev Shade (α : Type) := ℕ → ℕ → Option (ℕ → α)

namespace Raster

variable {α : Type} {g g' : Raster} {x y k x' y' k' size n : ℕ} {m m' : Shade α}

def place (g : Raster) (x y k : ℕ) : ℕ := g.base + (y * g.stride + (x * g.bytes + k))

/-- A byte of one of the pixels. -/
def Holds (g : Raster) (i : ℕ) : Prop :=
  ∃ x < g.width, ∃ y < g.height, ∃ k < g.bytes, i = g.place x y k

/-- A rectangle inside of memory of a size, whose rows do not overlap. -/
structure Within (g : Raster) (size : ℕ) : Prop where
  row : g.width * g.bytes ≤ g.stride
  rows : ∀ y < g.height, g.base + (y * g.stride + g.width * g.bytes) ≤ size

theorem pixel_lt (hx : x < g.width) (hk : k < g.bytes) :
    x * g.bytes + k < g.width * g.bytes := by
  rw [Nat.mul_comm g.width]
  exact row_lt hx hk

theorem Within.place_lt (h : g.Within size) (hx : x < g.width) (hy : y < g.height)
    (hk : k < g.bytes) : g.place x y k < size := by
  have hrow := h.rows y hy
  have hpixel := pixel_lt hx hk
  rw [place]
  omega

/-- Some bytes of a pixel. -/
theorem Within.pixel_le {first count : ℕ} (h : g.Within size) (hx : x < g.width) (hy : y < g.height)
    (hcount : first + count ≤ g.bytes) : g.place x y first + count ≤ size := by
  have hrow := h.rows y hy
  have hpixel : (x + 1) * g.bytes ≤ g.width * g.bytes := Nat.mul_le_mul_right _ hx
  rw [Nat.succ_mul] at hpixel
  rw [place]
  omega

theorem Within.lt_of_holds {i : ℕ} (h : g.Within size) (hi : g.Holds i) : i < size := by
  obtain ⟨x, hx, y, hy, k, hk, rfl⟩ := hi
  exact h.place_lt hx hy hk

theorem Within.place_inj (h : g.Within size) (hx : x < g.width) (hk : k < g.bytes)
    (hx' : x' < g.width) (hk' : k' < g.bytes) (heq : g.place x y k = g.place x' y' k') :
    x = x' ∧ y = y' ∧ k = k' := by
  have hrow := pixel_lt hx hk
  have hrow' := pixel_lt hx' hk'
  obtain ⟨hy, hpixel⟩ := row_unique (hrow.trans_le h.row) (hrow'.trans_le h.row)
    (Nat.add_left_cancel heq)
  obtain ⟨hx, hk⟩ := row_unique hk hk' hpixel
  exact ⟨hx, hy, hk⟩

theorem place_eq (g : Raster) (x y k : ℕ) :
    g.place x y k = g.place 0 y 0 + (x * g.bytes + k) := by
  simp only [place]
  omega

theorem place_add (g : Raster) (x y k j : ℕ) : g.place x y k + j = g.place x y (k + j) := by
  simp only [place]
  omega

/-- What is between bytes of a pixel is of that pixel. -/
theorem Within.eq_of_between {first count : ℕ} (h : g.Within size) (hx : x < g.width)
    (hk : k < g.bytes) (hx' : x' < g.width) (hcount : first + count ≤ g.bytes)
    (hle : g.place x' y' first ≤ g.place x y k)
    (hlt : g.place x y k < g.place x' y' first + count) : x' = x ∧ y' = y := by
  have hplace : g.place x y k = g.place x' y' (first + (g.place x y k - g.place x' y' first)) := by
    rw [← place_add]
    omega
  have hsame := h.place_inj hx hk hx' (by omega) hplace
  exact ⟨hsame.1.symm, hsame.2.1.symm⟩

/-- A byte of a row is one of a pixel. -/
theorem exists_place {i : ℕ} (hle : g.place 0 y 0 ≤ i)
    (hlt : i < g.place 0 y 0 + g.width * g.bytes) :
    ∃ x < g.width, ∃ k < g.bytes, i = g.place x y k := by
  have hlt' : i - g.place 0 y 0 < g.width * g.bytes := by omega
  have hbytes : 0 < g.bytes := Nat.pos_of_ne_zero fun hzero ↦ by simp [hzero] at hlt'
  refine ⟨(i - g.place 0 y 0) / g.bytes, (Nat.div_lt_iff_lt_mul hbytes).mpr hlt',
    (i - g.place 0 y 0) % g.bytes, Nat.mod_lt _ hbytes, ?_⟩
  rw [place_eq, Nat.mul_comm, Nat.div_add_mod]
  omega

theorem Within.mono {size' : ℕ} (h : g.Within size) (hle : size ≤ size') : g.Within size' :=
  ⟨h.row, fun y hy ↦ (h.rows y hy).trans hle⟩

section Pixels

variable {β γ : Type} {width height : ℕ} {f : ℕ → ℕ → Cells α → Option (Cells α)}
  {w : ℕ → ℕ → ℕ → Option α} {p : ℕ → ℕ → Option β}

/-- The loops over the pixels of a rectangle, row by row. -/
def eachPixel (width height : ℕ) (f : (x y : ℕ) → Cells α → Option (Cells α)) (c : Cells α) :
    Option (Cells α) :=
  (List.range height).foldlM (fun c y ↦ (List.range width).foldlM (fun c x ↦ f x y c) c) c

/-- The last of the pixels that has something. -/
def lastPixel (width height : ℕ) (p : ℕ → ℕ → Option β) : Option β :=
  Cells.last height fun y ↦ Cells.last width (p · y)

theorem eachPixel_sets (h : ∀ x < width, ∀ y < height, Cells.Sets (f x y) size (w x y)) :
    Cells.Sets (eachPixel width height f) size
      fun i ↦ lastPixel width height fun x y ↦ w x y i :=
  .range fun y hy ↦ .range fun x hx ↦ h x hx y hy

theorem lastPixel_eq_none_iff :
    lastPixel width height p = none ↔ ∀ x < width, ∀ y < height, p x y = none := by
  rw [lastPixel, Cells.last_eq_none_iff]
  simp only [Cells.last_eq_none_iff]
  exact ⟨fun h x hx y hy ↦ h y hy x hx, fun h y hy x hx ↦ h x hx y hy⟩

theorem exists_of_lastPixel {b : β} (h : lastPixel width height p = some b) :
    ∃ x < width, ∃ y < height, p x y = some b := by
  obtain ⟨y, hy, hrow⟩ := Cells.exists_of_last h
  obtain ⟨x, hx, hb⟩ := Cells.exists_of_last hrow
  exact ⟨x, hx, y, hy, hb⟩

theorem lastPixel_congr {p' : ℕ → ℕ → Option β}
    (h : ∀ x < width, ∀ y < height, p x y = p' x y) :
    lastPixel width height p = lastPixel width height p' :=
  Cells.last_congr fun y hy ↦ Cells.last_congr fun x hx ↦ h x hx y hy

theorem lastPixel_map (g : β → γ) :
    lastPixel width height (fun x y ↦ (p x y).map g) = (lastPixel width height p).map g := by
  simp only [lastPixel, Cells.last_map]

/-- Only one pixel has something. -/
theorem lastPixel_eq (hx : x < width) (hy : y < height)
    (h : ∀ x' < width, ∀ y' < height, ¬(x' = x ∧ y' = y) → p x' y' = none) :
    lastPixel width height p = p x y := by
  have hrow : Cells.last width (p · y) = p x y :=
    Cells.last_eq hx fun x' hx' hne ↦ h x' hx' y hy fun heq ↦ hne heq.1
  rw [← hrow]
  refine Cells.last_eq hy fun y' hy' hne ↦ ?_
  exact Cells.last_eq_none_iff.mpr fun x' hx' ↦ h x' hx' y' hy' fun heq ↦ hne heq.2

end Pixels

/-- A run that shows `m` on a rectangle, leaves its other pixels and all the other memory, and does
not depend on what they are. -/
def Draws (g : Raster) (run : Cells α → Option (Cells α)) (size : ℕ) (m : Shade α) : Prop :=
  ∀ c : Cells α, c.size = size → ∃ d, run c = some d ∧ d.size = size ∧
    (∀ x < g.width, ∀ y < g.height, ∀ k < g.bytes,
      d.content (g.place x y k) = (m x y).elim (c.content (g.place x y k)) (· k)) ∧
    ∀ i, ¬ g.Holds i → d.content i = c.content i

namespace Draws

variable {run next : Cells α → Option (Cells α)}

theorem congr (h : g.Draws run size m) (hm : ∀ x < g.width, ∀ y < g.height, m x y = m' x y) :
    g.Draws run size m' := by
  intro c hc
  obtain ⟨d, hd, hsize, hshown, hrest⟩ := h c hc
  refine ⟨d, hd, hsize, fun x hx y hy k hk ↦ ?_, hrest⟩
  rw [hshown x hx y hy k hk, hm x hx y hy]

theorem of_eq (h : g.Draws run size m) (hrun : ∀ c, c.size = size → next c = run c) :
    g.Draws next size m := by
  intro c hc
  rw [hrun c hc]
  exact h c hc

theorem skip : g.Draws (some : Cells α → _) size fun _ _ ↦ none :=
  fun c hc ↦ ⟨c, rfl, hc, fun _ _ _ _ _ _ ↦ rfl, fun _ _ ↦ rfl⟩

/-- The later run is seen where it shows something, the earlier one elsewhere. -/
theorem bind (h : g.Draws run size m) (hnext : g.Draws next size m') :
    g.Draws (fun c ↦ (run c).bind next) size fun x y ↦ (m' x y).or (m x y) := by
  intro c hc
  obtain ⟨d, hd, hdsize, hdshown, hdrest⟩ := h c hc
  obtain ⟨e, he, hesize, heshown, herest⟩ := hnext d hdsize
  have hrun : (run c).bind next = some e := by rw [hd, Option.bind_some, he]
  refine ⟨e, hrun, hesize, fun x hx y hy k hk ↦ ?_, fun i hi ↦ ?_⟩
  · rw [heshown x hx y hy k hk, hdshown x hx y hy k hk]
    dsimp only
    cases m' x y <;> rfl
  · rw [herest i hi, hdrest i hi]

/-- One pixel. -/
theorem plot {f : ℕ → Option α} {v : ℕ → α} (hg : g.Within size) (hx : x < g.width)
    (hy : y < g.height) (hf : ∀ k < g.bytes, f k = some (v k)) :
    g.Draws (fun c ↦ c.fill (g.place x y 0) g.bytes f) size
      fun x' y' ↦ if x' = x ∧ y' = y then some v else none := by
  have hplace (k : ℕ) : g.place x y k = g.place x y 0 + k := by
    simp only [place]
    omega
  have hend : g.place x y 0 + g.bytes ≤ size := hg.pixel_le hx hy (Nat.zero_add _).le
  intro c hc
  refine ⟨_, Cells.fill_eq hf (hc ▸ hend), hc, fun x' hx' y' hy' k hk ↦ ?_, fun i hi ↦ ?_⟩
  · simp only [Cells.overwrite_content]
    by_cases heq : x' = x ∧ y' = y
    · obtain ⟨rfl, rfl⟩ := heq
      rw [hplace k, if_pos (by omega), Nat.add_sub_cancel_left, if_pos ⟨rfl, rfl⟩]
      rfl
    · have hout : ¬(g.place x y 0 ≤ g.place x' y' k ∧
          g.place x' y' k < g.place x y 0 + g.bytes) := by
        rintro ⟨hle, hlt⟩
        have hk' : g.place x' y' k - g.place x y 0 < g.bytes := by omega
        have hplace' : g.place x' y' k = g.place x y (g.place x' y' k - g.place x y 0) := by
          rw [hplace (_ - _)]
          omega
        have hsame := hg.place_inj hx' hk hx hk' hplace'
        exact heq ⟨hsame.1, hsame.2.1⟩
      rw [if_neg hout, if_neg heq]
      rfl
  · refine if_neg ?_
    rintro ⟨hle, hlt⟩
    exact hi ⟨x, hx, y, hy, i - g.place x y 0, by omega, by rw [hplace (_ - _)]; omega⟩

/-- The pixels of a row at once. -/
theorem row {f : ℕ → Option α} {v : ℕ → α} (hg : g.Within size) (hy : y < g.height)
    (hf : ∀ k < g.width * g.bytes, f k = some (v k)) :
    g.Draws (fun c ↦ c.fill (g.place 0 y 0) (g.width * g.bytes) f) size
      fun x' y' ↦ if y' = y then some fun k ↦ v (x' * g.bytes + k) else none := by
  have hend : g.place 0 y 0 + g.width * g.bytes ≤ size := by
    have hrow := hg.rows y hy
    rw [place]
    omega
  intro c hc
  refine ⟨_, Cells.fill_eq hf (hc ▸ hend), hc, fun x' hx' y' hy' k hk ↦ ?_, fun i hi ↦ ?_⟩
  · simp only [Cells.overwrite_content]
    by_cases heq : y' = y
    · have hpixel := pixel_lt hx' hk
      rw [heq, place_eq g x' y k, if_pos (by omega), Nat.add_sub_cancel_left, if_pos rfl]
      rfl
    · have hout : ¬(g.place 0 y 0 ≤ g.place x' y' k ∧
          g.place x' y' k < g.place 0 y 0 + g.width * g.bytes) := by
        rintro ⟨hle, hlt⟩
        obtain ⟨x, hx, k', hk', hplace⟩ := exists_place hle hlt
        exact heq (hg.place_inj hx' hk hx hk' hplace).2.1
      rw [if_neg hout, if_neg heq]
      rfl
  · refine if_neg ?_
    rintro ⟨hle, hlt⟩
    obtain ⟨x, hx, k, hk, rfl⟩ := exists_place hle hlt
    exact hi ⟨x, hx, y, hy, k, hk, rfl⟩

/-- A loop whose rounds show each what is of a key. -/
theorem range {f : ℕ → Cells α → Option (Cells α)} (key : ℕ → ℕ → ℕ)
    (h : ∀ k < n, g.Draws (f k) size fun x y ↦ if key x y = k then m x y else none) :
    g.Draws (fun c ↦ (List.range n).foldlM (fun c k ↦ f k c) c) size
      fun x y ↦ if key x y < n then m x y else none := by
  induction n with
  | zero => exact skip
  | succ n ih =>
    have hrest := ih fun k hk ↦ h k (by omega)
    refine ((hrest.bind (h n (Nat.lt_succ_self n))).of_eq fun c _ ↦ ?_).congr fun x _ y _ ↦ ?_
    · rw [List.range_succ, List.foldlM_append]
      refine congrArg _ (funext fun d ↦ ?_)
      rw [List.foldlM_cons]
      cases f n d <;> rfl
    · rcases lt_trichotomy (key x y) n with hlt | heq | hgt
      · rw [if_neg hlt.ne, if_pos hlt, if_pos (by omega)]
        rfl
      · rw [if_pos heq, if_neg heq.not_lt, if_pos (by omega)]
        cases m x y <;> rfl
      · rw [if_neg hgt.ne', if_neg hgt.not_gt, if_neg (by omega)]
        rfl

/-- Rectangles that are apart from each other, one after the other. -/
theorem planes {rasters : ℕ → Raster} {f : ℕ → Cells α → Option (Cells α)} {m : ℕ → Shade α}
    (h : ∀ p < n, (rasters p).Draws (f p) size (m p))
    (hapart : ∀ p < n, ∀ q < n, p ≠ q → ∀ i, (rasters p).Holds i → ¬ (rasters q).Holds i)
    {c : Cells α} (hc : c.size = size) :
    ∃ d, (List.range n).foldlM (fun c p ↦ f p c) c = some d ∧ d.size = size ∧
      (∀ p < n, ∀ x < (rasters p).width, ∀ y < (rasters p).height, ∀ k < (rasters p).bytes,
        d.content ((rasters p).place x y k) =
          (m p x y).elim (c.content ((rasters p).place x y k)) (· k)) ∧
      ∀ i, (∀ p < n, ¬ (rasters p).Holds i) → d.content i = c.content i := by
  induction n with
  | zero => exact ⟨c, rfl, hc, fun p hp ↦ absurd hp (Nat.not_lt_zero p), fun _ _ ↦ rfl⟩
  | succ n ih =>
    obtain ⟨d, hd, hdsize, hdshown, hdrest⟩ := ih (fun p hp ↦ h p (by omega)) fun p hp q hq ↦
      hapart p (by omega) q (by omega)
    obtain ⟨e, he, hesize, heshown, herest⟩ := h n (Nat.lt_succ_self n) d hdsize
    refine ⟨e, ?_, hesize, fun p hp x hx y hy k hk ↦ ?_, fun i hi ↦ ?_⟩
    · rw [List.range_succ, List.foldlM_append, hd, Option.bind_eq_bind, Option.bind_some,
        List.foldlM_cons, he]
      rfl
    · have hholds : (rasters p).Holds ((rasters p).place x y k) := ⟨x, hx, y, hy, k, hk, rfl⟩
      rcases Nat.lt_succ_iff_lt_or_eq.mp hp with hlt | rfl
      · rw [herest _ (hapart p hp n (Nat.lt_succ_self n) hlt.ne _ hholds),
          hdshown p hlt x hx y hy k hk]
      · rw [heshown x hx y hy k hk, hdrest _ fun q hq ↦ hapart p hp q (by omega) hq.ne' _ hholds]
    · rw [herest i (hi n (Nat.lt_succ_self n)), hdrest i fun p hp ↦ hi p (by omega)]

end Draws

end Raster

end Lib
