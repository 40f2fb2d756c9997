import ZoneMinder.Poly.Polygon

namespace ZoneMinder.StreamBase

open Lib ZoneMinder.Poly

section

/-- ZM_SCALE_BASE -/
def scaleBase : ℤ := 100

/-- What the commands set and a frame reads, once. -/
structure Controls where
  zoom : ℤ := scaleBase
  scale : ℤ := scaleBase
  x : ℤ := 0
  y : ℤ := 0
  deriving DecidableEq

/-- What one frame leaves for the next. -/
structure View where
  lastScale : ℤ := scaleBase
  lastZoom : ℤ := scaleBase
  lastCrop : Box := ⟨⟨0, 0⟩, ⟨0, 0⟩⟩
  lastCropWidth : ℤ := 0
  lastCropHeight : ℤ := 0
  lastX : ℤ := 0
  lastY : ℤ := 0
  deriving DecidableEq

/-- What is done to the image, in order. -/
inductive ImageOp
  | crop (limits : Box)
  | resize (width height : ℤ)
  | scale (factor : ℤ)
  deriving DecidableEq

/-- An edge that is out of the blown-up image is moved in, and the other axis is to shrink in
proportion. -/
structure Clamped where
  amountToShrink : ℤ
  lo : ℤ
  hi : ℤ
  deriving DecidableEq

def clampAxis (lo hi zoomed own other : ℤ) : Clamped :=
  if lo < 0 then ⟨(-1 * lo * other).tdiv own, 0, hi⟩
  else if hi ≥ zoomed then ⟨((hi - zoomed) * other).tdiv own, lo, zoomed - 1⟩
  else ⟨0, lo, hi⟩

def halfOf (amountToShrink : ℤ) : ℤ :=
  if amountToShrink ≠ 0 then amountToShrink.tdiv 2 else 0

section Crop

variable (c : Controls) (width height : ℤ)

/-- The crop that a frame starts from: none was set, or it is one of frames of another size. -/
def startCrop (view : View) : Box :=
  if view.lastCrop.hi.x = 0 ∧ view.lastCrop.hi.y = 0 then ⟨⟨0, 0⟩, ⟨width, height⟩⟩
  else if view.lastCropWidth ≠ 0 ∧
      (view.lastCropWidth ≠ width ∨ view.lastCropHeight ≠ height) then
    ⟨⟨(view.lastCrop.lo.x * width).tdiv view.lastCropWidth,
      (view.lastCrop.lo.y * height).tdiv view.lastCropHeight⟩,
     ⟨(view.lastCrop.hi.x * width).tdiv view.lastCropWidth,
      (view.lastCrop.hi.y * height).tdiv view.lastCropHeight⟩⟩
  else view.lastCrop

/-- The region to show, in the blown-up image. -/
def zoomedRegion (crop : Box) : Box :=
  let xPercent : ℚ := (c.x * scaleBase : ℤ) / (width : ℤ)
  let yPercent : ℚ := (c.y * scaleBase : ℤ) / (height : ℤ)
  -- the click in base image units
  let cropX := trunc ((crop.lo.x : ℚ) + xPercent * crop.width / scaleBase)
  let cropY := trunc ((crop.lo.y : ℚ) + yPercent * crop.height / scaleBase)
  let zoomImageWidth := (width * c.zoom).tdiv scaleBase
  let zoomImageHeight := (height * c.zoom).tdiv scaleBase
  let clickX := (cropX * c.zoom).tdiv scaleBase
  let clickY := (cropY * c.zoom).tdiv scaleBase
  let leftDist := trunc ((width : ℚ) * xPercent / scaleBase)
  let topDist := trunc ((height : ℚ) * yPercent / scaleBase)
  let loX := clickX - leftDist
  let loY := clickY - topDist
  let clampedX := clampAxis loX (loX + width) zoomImageWidth width height
  let shrinkY := halfOf clampedX.amountToShrink
  let clampedY :=
    clampAxis (loY + shrinkY) (loY + height - shrinkY) zoomImageHeight height width
  let shrinkX := halfOf clampedY.amountToShrink
  ⟨⟨clampedX.lo + shrinkX, clampedY.lo⟩, ⟨clampedX.hi - shrinkX, clampedY.hi⟩⟩

/-- The region back in base image units. -/
def nextCrop (crop : Box) : Box :=
  let region := zoomedRegion c width height crop
  ⟨⟨(region.lo.x * scaleBase).tdiv c.zoom, (region.lo.y * scaleBase).tdiv c.zoom⟩,
   ⟨(region.hi.x * scaleBase).tdiv c.zoom, (region.hi.y * scaleBase).tdiv c.zoom⟩⟩

end Crop

def prepareImage (view : View) (c : Controls) (width height preScaledBy : ℤ) :
    View × List ImageOp :=
  if preScaledBy ≠ 0 then
    ({ view with lastScale := preScaledBy, lastZoom := scaleBase }, [])
  else
    let rendered : View :=
      { view with lastScale := c.scale, lastZoom := c.zoom, lastX := c.x, lastY := c.y }
    if c.zoom ≠ scaleBase then
      let crop := nextCrop c width height (startCrop width height view)
      ({ rendered with lastCrop := crop, lastCropWidth := width, lastCropHeight := height },
        [.crop crop,
          .resize ((width * c.scale).tdiv scaleBase) ((height * c.scale).tdiv scaleBase)])
    else if c.scale ≠ scaleBase then (rendered, [.scale c.scale])
    else (rendered, [])

variable {view : View} {c : Controls} {width height preScaledBy : ℤ}

theorem prepareImage_of_preScaled (h : preScaledBy ≠ 0) :
    prepareImage view c width height preScaledBy =
      ({ view with lastScale := preScaledBy, lastZoom := scaleBase }, []) := by
  rw [prepareImage, if_pos h]

theorem prepareImage_of_zoom (h : c.zoom ≠ scaleBase) :
    prepareImage view c width height 0 =
      ({ lastScale := c.scale, lastZoom := c.zoom
         lastCrop := nextCrop c width height (startCrop width height view)
         lastCropWidth := width, lastCropHeight := height, lastX := c.x, lastY := c.y },
        [.crop (nextCrop c width height (startCrop width height view)),
          .resize ((width * c.scale).tdiv scaleBase) ((height * c.scale).tdiv scaleBase)]) := by
  rw [prepareImage, if_neg (by simp)]
  simp only [if_pos h]

/-- Without a zoom nothing is cut, and the view keeps its crop. -/
theorem prepareImage_of_not_zoom (view : View) (width height : ℤ) (h : c.zoom = scaleBase) :
    ∃ ops, (∀ limits, .crop limits ∉ ops) ∧
      prepareImage view c width height 0 =
        ({ view with lastScale := c.scale, lastZoom := c.zoom, lastX := c.x, lastY := c.y },
          ops) := by
  rw [prepareImage, if_neg (by simp)]
  simp only [if_neg (not_not.mpr h)]
  split
  · exact ⟨_, by simp, rfl⟩
  · exact ⟨_, by simp, rfl⟩

end

variable {c : Controls} {width height : ℤ} {crop : Box}

/-- Where a frame of the image's size starts in the blown-up image, along one axis, so that the
click in it is the click in the crop. -/
def corner (zoom size click lo extent : ℤ) : ℤ :=
  ((lo * size + click * extent).tdiv size * zoom).tdiv scaleBase - click

/-- How far an interval sticks out of the blown-up image, below it or else above it. -/
def overhang (lo hi zoomed : ℤ) : ℤ := if lo < 0 then -lo else max 0 (hi - zoomed)

/-- The upper end of what is left of an interval in the blown-up image. -/
def keptHi (lo hi zoomed : ℤ) : ℤ := if lo < 0 then hi else min hi (zoomed - 1)

theorem clampAxis_eq (lo hi zoomed own other : ℤ) :
    clampAxis lo hi zoomed own other =
      ⟨(overhang lo hi zoomed * other).tdiv own, max 0 lo, keptHi lo hi zoomed⟩ := by
  unfold clampAxis overhang keptHi
  by_cases hlo : lo < 0
  · simp [hlo, max_eq_left hlo.le]
  · have hlo' : max 0 lo = lo := max_eq_right (by omega)
    by_cases hhi : hi ≥ zoomed
    · have hmin : min hi (zoomed - 1) = zoomed - 1 := min_eq_right (by omega)
      simp [hlo, hhi, hlo', hmin]
    · have hmax : max 0 (hi - zoomed) = 0 := max_eq_left (by omega)
      have hmin : min hi (zoomed - 1) = hi := min_eq_left (by omega)
      simp [hlo, hhi, hlo', hmax, hmin]

theorem halfOf_eq (amountToShrink : ℤ) : halfOf amountToShrink = amountToShrink.tdiv 2 := by
  unfold halfOf
  split_ifs with h
  · rfl
  · simp [not_not.mp h]

theorem trunc_click {size click lo extent : ℤ} (hsize : 0 < size) :
    trunc ((lo : ℚ) + ((click * scaleBase : ℤ) : ℚ) / size * extent / scaleBase) =
      (lo * size + click * extent).tdiv size := by
  have hsizeQ : (size : ℚ) ≠ 0 := Int.cast_ne_zero.mpr hsize.ne'
  rw [← trunc_div (K := ℚ) _ hsize]
  congr 1
  simp only [scaleBase]
  push_cast
  field_simp

theorem trunc_dist {size click : ℤ} (hsize : 0 < size) :
    trunc ((size : ℚ) * (((click * scaleBase : ℤ) : ℚ) / size) / scaleBase) = click := by
  have hsizeQ : (size : ℚ) ≠ 0 := Int.cast_ne_zero.mpr hsize.ne'
  have hclick : (size : ℚ) * (((click * scaleBase : ℤ) : ℚ) / size) / scaleBase = click := by
    simp only [scaleBase]
    push_cast
    field_simp
  rw [hclick, trunc_intCast]

section Axes

variable (c : Controls) (width height : ℤ) (crop : Box)

def left : ℤ := corner c.zoom width c.x crop.lo.x crop.width

def top : ℤ := corner c.zoom height c.y crop.lo.y crop.height

def zoomedWidth : ℤ := (width * c.zoom).tdiv scaleBase

def zoomedHeight : ℤ := (height * c.zoom).tdiv scaleBase

/-- What both ends of the vertical axis lose to what sticks out on the horizontal one. -/
def lossY : ℤ :=
  ((overhang (left c width crop) (left c width crop + width) (zoomedWidth c width) * height).tdiv
    width).tdiv 2

def lossX : ℤ :=
  ((overhang (top c height crop + lossY c width height crop)
    (top c height crop + height - lossY c width height crop) (zoomedHeight c height) *
      width).tdiv height).tdiv 2

end Axes

theorem zoomedRegion_eq (hw : 0 < width) (hh : 0 < height) :
    zoomedRegion c width height crop =
      ⟨⟨max 0 (left c width crop) + lossX c width height crop,
        max 0 (top c height crop + lossY c width height crop)⟩,
       ⟨keptHi (left c width crop) (left c width crop + width) (zoomedWidth c width) -
          lossX c width height crop,
        keptHi (top c height crop + lossY c width height crop)
          (top c height crop + height - lossY c width height crop) (zoomedHeight c height)⟩⟩ := by
  simp only [zoomedRegion, trunc_click hw, trunc_click hh, trunc_dist hw, trunc_dist hh,
    clampAxis_eq, halfOf_eq]
  rfl

theorem corner_bounds {zoom size click lo extent : ℤ} (hsize : 0 < size) (hzoom : 100 ≤ zoom)
    (hclick : 0 ≤ click) (hlo : 0 ≤ lo) (hextent : 0 ≤ extent)
    (hin : lo * size + click * extent < size * size) :
    0 ≤ corner zoom size click lo extent + click ∧
      corner zoom size click lo extent + click < (size * zoom).tdiv scaleBase := by
  have hnum : 0 ≤ lo * size + click * extent :=
    add_nonneg (mul_nonneg hlo hsize.le) (mul_nonneg hclick hextent)
  rw [corner, Int.tdiv_eq_ediv_of_nonneg hnum, scaleBase]
  have hpos : 0 ≤ (lo * size + click * extent) / size := Int.ediv_nonneg hnum hsize.le
  have hlt : (lo * size + click * extent) / size < size := Int.ediv_lt_of_lt_mul hsize hin
  generalize (lo * size + click * extent) / size = pos at hpos hlt
  have hstep : pos * zoom + zoom ≤ size * zoom := by nlinarith
  have hpos' : 0 ≤ pos * zoom := mul_nonneg hpos (by omega)
  rw [Int.tdiv_eq_ediv_of_nonneg hpos', Int.tdiv_eq_ediv_of_nonneg (by omega)]
  omega

theorem overhang_bounds {corner size click zoomed : ℤ} (hsize : click < size)
    (hclick : 0 ≤ click) (hlo : 0 ≤ corner + click) (hhi : corner + click < zoomed) :
    0 ≤ overhang corner (corner + size) zoomed ∧
      overhang corner (corner + size) zoomed < size := by
  unfold overhang
  split_ifs with h
  · omega
  · exact ⟨le_max_left _ _, max_lt (by omega) (by omega)⟩

theorem overhang_nonneg (lo hi zoomed : ℤ) : 0 ≤ overhang lo hi zoomed := by
  unfold overhang
  split_ifs with h
  · omega
  · exact le_max_left _ _

theorem loss_bounds {out own other : ℤ} (hout : 0 ≤ out) (hlt : out < own)
    (hother : 0 < other) :
    0 ≤ ((out * other).tdiv own).tdiv 2 ∧ 2 * ((out * other).tdiv own).tdiv 2 < other := by
  have hown : 0 < own := by omega
  have hmul : 0 ≤ out * other := mul_nonneg hout hother.le
  rw [Int.tdiv_eq_ediv_of_nonneg hmul]
  have hpos : 0 ≤ out * other / own := Int.ediv_nonneg hmul hown.le
  have hlt' : out * other / own < other := by
    apply Int.ediv_lt_of_lt_mul hown
    rw [mul_comm other own]
    exact mul_lt_mul_of_pos_right hlt hother
  rw [Int.tdiv_eq_ediv_of_nonneg hpos]
  omega

/-- A crop is a region of an image. -/
def Within (crop : Box) (width height : ℤ) : Prop :=
  (0 ≤ crop.lo.x ∧ crop.lo.x ≤ crop.hi.x ∧ crop.hi.x < width) ∧
    0 ≤ crop.lo.y ∧ crop.lo.y ≤ crop.hi.y ∧ crop.hi.y < height

instance (crop : Box) (width height : ℤ) : Decidable (Within crop width height) :=
  inferInstanceAs (Decidable (_ ∧ _))

/-- A size is a positive int and the click is in the image. -/
structure Clicked (c : Controls) (width height : ℤ) : Prop where
  width_pos : 0 < width
  width_lt : width < 2 ^ 31
  height_pos : 0 < height
  height_lt : height < 2 ^ 31
  x_nonneg : 0 ≤ c.x
  x_lt : c.x < width
  y_nonneg : 0 ≤ c.y
  y_lt : c.y < height

/-- Along one axis, a crop that lies in the image or is all of it has the click in the image. -/
theorem extent_bounds {lo hi size click : ℤ} (hsize : size < 2 ^ 31) (hclick : 0 ≤ click)
    (hlt : click < size) (h : 0 ≤ lo ∧ lo ≤ hi ∧ hi < size ∨ lo = 0 ∧ hi = size) :
    0 ≤ lo ∧ 0 ≤ (hi - lo) % 2 ^ 32 ∧
      lo * size + click * ((hi - lo) % 2 ^ 32) < size * size := by
  have hextent : (hi - lo) % 2 ^ 32 = hi - lo := Int.emod_eq_of_lt (by omega) (by omega)
  rw [hextent]
  rcases h with ⟨hlo, hle, hhi⟩ | ⟨rfl, rfl⟩
  · refine ⟨hlo, by omega, ?_⟩
    have hmul : click * (hi - lo) ≤ size * (hi - lo) :=
      mul_le_mul_of_nonneg_right hlt.le (by omega)
    have hsq : hi * size < size * size := mul_lt_mul_of_pos_right hhi (by omega)
    linarith [mul_comm size (hi - lo), sub_mul hi lo size]
  · refine ⟨le_rfl, by omega, ?_⟩
    rw [zero_mul, zero_add, sub_zero]
    exact mul_lt_mul_of_pos_right hlt (by omega)

/-- Two edges in the blown-up image fall in one pixel of the image. -/
def SamePixel (zoom lo hi : ℤ) : Prop := (lo * scaleBase).tdiv zoom = (hi * scaleBase).tdiv zoom

instance (zoom lo hi : ℤ) : Decidable (SamePixel zoom lo hi) := inferInstanceAs (Decidable (_ = _))

/-- The region that is cut has its edges in order: half of what sticks out on one axis takes no
more off the other than is left of it, but for what rounding hides. -/
structure Upright (c : Controls) (width height : ℤ) (crop : Box) : Prop where
  across :
    2 * lossX c width height crop ≤
        keptHi (left c width crop) (left c width crop + width) (zoomedWidth c width) -
          max 0 (left c width crop) ∨
      SamePixel c.zoom (max 0 (left c width crop) + lossX c width height crop)
        (keptHi (left c width crop) (left c width crop + width) (zoomedWidth c width) -
          lossX c width height crop)
  down :
    lossY c width height crop ≤ top c height crop + height ∧
        top c height crop + lossY c width height crop < zoomedHeight c height ∨
      SamePixel c.zoom (max 0 (top c height crop + lossY c width height crop))
        (keptHi (top c height crop + lossY c width height crop)
          (top c height crop + height - lossY c width height crop) (zoomedHeight c height))

/-- Back in base image units the edges are in order if they were, or are in one pixel. -/
theorem unzoom_le_iff {zoom lo hi : ℤ} (hzoom : 0 < zoom) :
    (lo * scaleBase).tdiv zoom ≤ (hi * scaleBase).tdiv zoom ↔
      lo ≤ hi ∨ SamePixel zoom lo hi := by
  constructor
  · intro h
    rcases le_or_gt lo hi with hle | hlt
    · exact .inl hle
    · have hmul : hi * scaleBase ≤ lo * scaleBase :=
        mul_le_mul_of_nonneg_right hlt.le (by decide)
      exact .inr (le_antisymm h (Int.tdiv_le_tdiv hzoom hmul))
  · rintro (hle | hsame)
    · exact Int.tdiv_le_tdiv hzoom (mul_le_mul_of_nonneg_right hle (by decide))
    · exact hsame.le

/-- Back in base image units an edge is in the image. -/
theorem unzoom_lt {size zoom hi : ℤ} (hzoom : 0 < zoom) (hsize : 0 < size)
    (hhi : hi < (size * zoom).tdiv scaleBase) : (hi * scaleBase).tdiv zoom < size := by
  rw [scaleBase] at *
  have hmul : 0 ≤ size * zoom := mul_nonneg hsize.le hzoom.le
  rw [Int.tdiv_eq_ediv_of_nonneg hmul] at hhi
  rcases le_or_gt 0 hi with hpos | hneg
  · rw [Int.tdiv_eq_ediv_of_nonneg (by omega)]
    exact Int.ediv_lt_of_lt_mul hzoom (by omega)
  · have hle := Int.tdiv_le_tdiv hzoom (show hi * 100 ≤ 0 by omega)
    rw [Int.zero_tdiv] at hle
    exact hle.trans_lt hsize

theorem le_zoomed {size zoom : ℤ} (hsize : 0 < size) (hzoom : 100 ≤ zoom) :
    size ≤ (size * zoom).tdiv scaleBase := by
  have hmul : size * 100 ≤ size * zoom := mul_le_mul_of_nonneg_left hzoom hsize.le
  rw [scaleBase, Int.tdiv_eq_ediv_of_nonneg (by omega)]
  omega

theorem keptHi_lt (corner : ℤ) {size zoomed loss : ℤ} (hloss : 0 ≤ loss) (hle : size ≤ zoomed) :
    keptHi (corner + loss) (corner + size - loss) zoomed < zoomed := by
  unfold keptHi
  split_ifs with h
  · omega
  · exact (min_le_right _ _).trans_lt (by omega)

theorem max_le_keptHi_iff (corner : ℤ) {size zoomed loss : ℤ} (hloss : 2 * loss < size)
    (hzoomed : 0 < zoomed) :
    max 0 (corner + loss) ≤ keptHi (corner + loss) (corner + size - loss) zoomed ↔
      loss ≤ corner + size ∧ corner + loss < zoomed := by
  unfold keptHi
  split_ifs with h
  · rw [max_eq_left h.le]
    omega
  · rw [max_eq_right (by omega), le_min_iff]
    omega

theorem lossX_nonneg (c : Controls) (crop : Box) (hw : 0 < width) (hh : 0 < height) :
    0 ≤ lossX c width height crop :=
  Int.tdiv_nonneg (Int.tdiv_nonneg (mul_nonneg (overhang_nonneg _ _ _) hw.le) hh.le) (by decide)

/-- Along each axis, a crop that lies in the image or is all of it. -/
theorem axes_of_within (h : crop = ⟨⟨0, 0⟩, ⟨width, height⟩⟩ ∨ Within crop width height) :
    (0 ≤ crop.lo.x ∧ crop.lo.x ≤ crop.hi.x ∧ crop.hi.x < width ∨
      crop.lo.x = 0 ∧ crop.hi.x = width) ∧
    (0 ≤ crop.lo.y ∧ crop.lo.y ≤ crop.hi.y ∧ crop.hi.y < height ∨
      crop.lo.y = 0 ∧ crop.hi.y = height) := by
  rcases h with rfl | h
  · exact ⟨.inr ⟨rfl, rfl⟩, .inr ⟨rfl, rfl⟩⟩
  · exact ⟨.inl h.1, .inl h.2⟩

theorem left_bounds (hc : Clicked c width height) (hzoom : 100 ≤ c.zoom)
    (hcrop : crop = ⟨⟨0, 0⟩, ⟨width, height⟩⟩ ∨ Within crop width height) :
    0 ≤ left c width crop + c.x ∧ left c width crop + c.x < zoomedWidth c width := by
  obtain ⟨hlo, hextent, hin⟩ :=
    extent_bounds hc.width_lt hc.x_nonneg hc.x_lt (axes_of_within hcrop).1
  exact corner_bounds hc.width_pos hzoom hc.x_nonneg hlo hextent hin

theorem lossY_bounds (hc : Clicked c width height) (hzoom : 100 ≤ c.zoom)
    (hcrop : crop = ⟨⟨0, 0⟩, ⟨width, height⟩⟩ ∨ Within crop width height) :
    0 ≤ lossY c width height crop ∧ 2 * lossY c width height crop < height := by
  obtain ⟨hlo, hhi⟩ := left_bounds hc hzoom hcrop
  obtain ⟨hover, hlt⟩ := overhang_bounds hc.x_lt hc.x_nonneg hlo hhi
  exact loss_bounds hover hlt hc.height_pos

/-- What a frame cuts from a crop that lies in the image, or is all of it, is in the image but
for the order of its edges. -/
theorem nextCrop_within_iff (hc : Clicked c width height) (hzoom : 100 ≤ c.zoom)
    (hcrop : crop = ⟨⟨0, 0⟩, ⟨width, height⟩⟩ ∨ Within crop width height) :
    Within (nextCrop c width height crop) width height ↔ Upright c width height crop := by
  have hzoom' : 0 < c.zoom := by omega
  obtain ⟨hlossY, hlossY'⟩ := lossY_bounds hc hzoom hcrop
  have hlossX := lossX_nonneg c crop hc.width_pos hc.height_pos
  have hright := keptHi_lt (left c width crop) le_rfl (le_zoomed hc.width_pos hzoom)
  rw [add_zero, sub_zero] at hright
  have hbottom := keptHi_lt (top c height crop) hlossY (le_zoomed hc.height_pos hzoom)
  have horder := max_le_keptHi_iff (top c height crop) hlossY'
    (hc.height_pos.trans_le (le_zoomed hc.height_pos hzoom))
  have hacross : max 0 (left c width crop) + lossX c width height crop ≤
        keptHi (left c width crop) (left c width crop + width) (zoomedWidth c width) -
          lossX c width height crop ↔
      2 * lossX c width height crop ≤
        keptHi (left c width crop) (left c width crop + width) (zoomedWidth c width) -
          max 0 (left c width crop) := by omega
  rw [nextCrop, zoomedRegion_eq hc.width_pos hc.height_pos]
  simp only [Within, unzoom_le_iff hzoom', hacross]
  constructor
  · rintro ⟨⟨-, hx, -⟩, -, hy, -⟩
    exact ⟨hx, hy.imp_left horder.mp⟩
  · intro hup
    refine ⟨⟨?_, hup.across, ?_⟩, ?_, hup.down.imp_left horder.mpr, ?_⟩
    · exact Int.tdiv_nonneg (mul_nonneg (add_nonneg (le_max_left _ _) hlossX) (by decide)) hzoom'.le
    · exact unzoom_lt hzoom' hc.width_pos ((sub_le_self _ hlossX).trans_lt hright)
    · exact Int.tdiv_nonneg (mul_nonneg (le_max_left _ _) (by decide)) hzoom'.le
    · exact unzoom_lt hzoom' hc.height_pos hbottom

end ZoneMinder.StreamBase
