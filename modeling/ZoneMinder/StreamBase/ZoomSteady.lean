import ZoneMinder.StreamBase.ZoomCrop

namespace ZoneMinder.StreamBase

open ZoneMinder.Poly

/-- A frame at the given controls. -/
def render (c : Controls) (width height : ℤ) (view : View) : View :=
  (prepareImage view c width height 0).1

/-- The crop a frame goes by where the last one was of an image of the same size. -/
def sameStart (width height : ℤ) (crop : Box) : Box :=
  if crop.hi.x = 0 ∧ crop.hi.y = 0 then ⟨⟨0, 0⟩, ⟨width, height⟩⟩ else crop

/-- Where the click in a crop is in the image, along one axis. -/
def place (size click lo extent : ℤ) : ℤ := (lo * size + click * extent).tdiv size

/-- A click whose frame does not stick out of the blown-up image. -/
structure Inside (zoom size click place : ℤ) : Prop where
  below : click * 100 ≤ place * zoom
  above : place * zoom / 100 - click + size < size * zoom / 100

/-- Such a click that loses nothing to the divisions: the frame and the click in it are whole pixels
of the image, or the click is on its edge, and the click's place or the one before is a whole pixel
of the blown-up image. -/
structure Exact (zoom size click place : ℤ) : Prop extends Inside zoom size click place where
  whole : click = 0 ∨ zoom ∣ size * 100 ∧ zoom ∣ click * 100
  pixel : 100 ∣ place * zoom ∨ 100 ∣ (place - 1) * zoom ∧ size * 100 % zoom < zoom % 100

/-- A click whose frame is some pixels of the image away from the first one. -/
structure Clear (zoom size click place : ℤ) : Prop extends Inside zoom size click place where
  away : click * 100 + zoom * 3 + 200 ≤ place * zoom

/-- What holds along both axes of the crop that a frame starts from. -/
structure OnAxes (P : (zoom size click place : ℤ) → Prop) (c : Controls) (width height : ℤ)
    (start : Box) : Prop where
  x : P c.zoom width c.x (place width c.x start.lo.x start.width)
  y : P c.zoom height c.y (place height c.y start.lo.y start.height)

section Axis

variable {zoom size click lo hi extent k p p' : ℤ}

/-- A frame along one axis: its crop is of the pixels of the image that its edges fall in. -/
structure Cuts (zoom size click place lo hi : ℤ) : Prop where
  lo_le : lo * zoom ≤ place * zoom - place * zoom % 100 - click * 100
  lo_lt : place * zoom - place * zoom % 100 - click * 100 < lo * zoom + zoom
  hi_le : hi * zoom ≤ place * zoom - place * zoom % 100 - click * 100 + size * 100
  hi_lt : place * zoom - place * zoom % 100 - click * 100 + size * 100 < hi * zoom + zoom

theorem corner_eq (hplace : 0 ≤ place size click lo extent * zoom) :
    corner zoom size click lo extent = place size click lo extent * zoom / 100 - click := by
  rw [← Int.tdiv_eq_ediv_of_nonneg hplace]
  rfl

theorem tdiv_eq_iff {a : ℤ} (hzoom : 0 < zoom) (ha : 0 ≤ a) :
    a.tdiv zoom = k ↔ k * zoom ≤ a ∧ a < k * zoom + zoom := by
  rw [Int.tdiv_eq_ediv_of_nonneg ha, Int.ediv_eq_iff_of_pos hzoom]

/-- Where an edge of the frame falls in the image. -/
theorem cuts_iff (hzoom : 0 < zoom) (hsize : 0 ≤ size)
    (hplace : 0 ≤ place size click lo extent * zoom)
    (hcorner : 0 ≤ corner zoom size click lo extent) {lo' hi' : ℤ} :
    Cuts zoom size click (place size click lo extent) lo' hi' ↔
      (corner zoom size click lo extent * scaleBase).tdiv zoom = lo' ∧
        ((corner zoom size click lo extent + size) * scaleBase).tdiv zoom = hi' := by
  have hmul : corner zoom size click lo extent * 100 = place size click lo extent * zoom -
      place size click lo extent * zoom % 100 - click * 100 := by
    rw [corner_eq hplace]
    omega
  rw [scaleBase, tdiv_eq_iff hzoom (by omega), tdiv_eq_iff hzoom (by omega), add_mul, hmul]
  constructor
  · exact fun h ↦ ⟨⟨h.lo_le, h.lo_lt⟩, h.hi_le, h.hi_lt⟩
  · rintro ⟨hlo, hhi⟩
    exact ⟨hlo.1, hlo.2, hhi.1, hhi.2⟩

/-- The crop of such a frame is a part of the image. -/
theorem Inside.cuts_bounds (h : Inside zoom size click p) (hzoom : 0 < zoom) (hsize : 0 < size)
    (hcuts : Cuts zoom size click p lo hi) : 0 ≤ lo ∧ lo ≤ hi ∧ hi < size := by
  obtain ⟨hbelow, habove⟩ := h
  obtain ⟨hlo, hlo', hhi, hhi'⟩ := hcuts
  have hrest : p * zoom % 100 ≤ p * zoom - click * 100 := by omega
  refine ⟨?_, ?_, ?_⟩
  · have hlow : (-1) * zoom < lo * zoom := by linarith
    have hlow := lt_of_mul_lt_mul_right hlow hzoom.le
    omega
  · have hle : lo * zoom < (hi + 1) * zoom := by
      rw [add_mul, one_mul]
      linarith
    have hle := lt_of_mul_lt_mul_right hle hzoom.le
    omega
  · apply lt_of_mul_lt_mul_right _ hzoom.le
    omega

/-- Where the click is in a crop that is a part of the image. -/
theorem place_of_le (hsize : 0 < size) (hlt : size < 2 ^ 31) (hclick : 0 ≤ click) (hlo : 0 ≤ lo)
    (hle : lo ≤ hi) (hhi : hi < size) :
    place size click lo ((hi - lo) % 2 ^ 32) = lo + click * (hi - lo) / size := by
  have hextent : (hi - lo) % 2 ^ 32 = hi - lo := Int.emod_eq_of_lt (by omega) (by omega)
  have hmul : 0 ≤ click * (hi - lo) := mul_nonneg hclick (by omega)
  have hnum : 0 ≤ lo * size + click * (hi - lo) := add_nonneg (mul_nonneg hlo hsize.le) hmul
  rw [hextent, place, Int.tdiv_eq_ediv_of_nonneg hnum, add_comm,
    Int.add_mul_ediv_right _ _ hsize.ne', add_comm]

/-- A frame that cuts the crop it starts from loses nothing. -/
theorem Cuts.settled (hzoom : 0 < zoom) (hclick : 0 ≤ click) (hlt : click < size)
    (hk : k * size ≤ click * (hi - lo)) (h : Cuts zoom size click (lo + k) lo hi) :
    (lo + k) * zoom % 100 = 0 ∧ k * zoom = click * 100 ∧ (hi - lo) * zoom ≤ size * 100 ∧
      (click = 0 ∨ (hi - lo) * zoom = size * 100) := by
  obtain ⟨hlo, -, hhi, -⟩ := h
  have hrest : 0 ≤ (lo + k) * zoom % 100 := Int.emod_nonneg _ (by decide)
  generalize (lo + k) * zoom % 100 = rest at hlo hhi hrest ⊢
  obtain ⟨extra, hextra⟩ : ∃ extra, k * zoom = extra + rest + click * 100 :=
    ⟨k * zoom - rest - click * 100, by ring⟩
  rw [add_mul, hextra] at hlo hhi
  have hextra_nonneg : 0 ≤ extra := by linarith
  have hextent : (hi - lo) * zoom ≤ extra + size * 100 := by
    rw [sub_mul]
    linarith
  -- the click in the crop is no further in than the click in the frame
  have hle : size * (extra + rest + click * 100) ≤ click * (extra + size * 100) := by
    have hscaled := mul_le_mul_of_nonneg_right hk hzoom.le
    have hclicked := mul_le_mul_of_nonneg_left hextent hclick
    linarith [mul_right_comm k size zoom, congrArg (· * size) hextra,
      mul_assoc click (hi - lo) zoom, mul_comm size (extra + rest + click * 100)]
  have hspare : 0 ≤ (size - click - 1) * extra := mul_nonneg (by omega) hextra_nonneg
  have hwhole : 0 ≤ (size - 1) * rest := mul_nonneg (by omega) hrest
  have hsum : extra + rest ≤ 0 := by linarith
  obtain ⟨rfl, rfl⟩ : extra = 0 ∧ rest = 0 := by omega
  refine ⟨rfl, by linarith, by linarith, ?_⟩
  rcases eq_or_lt_of_le hclick with hzero | hpos
  · exact .inl hzero.symm
  · refine .inr (le_antisymm (by linarith) (le_of_mul_le_mul_left ?_ hpos))
    have hscaled := mul_le_mul_of_nonneg_right hk hzoom.le
    linarith [mul_right_comm k size zoom, congrArg (· * size) hextra,
      mul_assoc click (hi - lo) zoom]

/-- Where the click is in the crop of the next frame. -/
theorem Cuts.place_eq (hzoom : 100 < zoom) (h : Cuts zoom size click p lo hi)
    (hk : k * zoom = click * 100) : lo + k = if p * zoom % 100 = 0 then p else p - 1 := by
  obtain ⟨hle, hlt, -, -⟩ := h
  have hrest : 0 ≤ p * zoom % 100 ∧ p * zoom % 100 < 100 := by omega
  have hsub : (p - lo - k) * zoom = p * zoom - lo * zoom - click * 100 := by
    rw [← hk]
    ring
  split_ifs with hzero
  · have hlow : (-1) * zoom < (p - lo - k) * zoom := by linarith
    have hhigh : (p - lo - k) * zoom < 1 * zoom := by linarith
    have hlow := lt_of_mul_lt_mul_right hlow (by omega)
    have hhigh := lt_of_mul_lt_mul_right hhigh (by omega)
    omega
  · have hpos : 0 < p * zoom % 100 := by omega
    have hlow : 0 * zoom < (p - lo - k) * zoom := by linarith
    have hhigh : (p - lo - k) * zoom < 2 * zoom := by linarith
    have hlow := lt_of_mul_lt_mul_right hlow (by omega)
    have hhigh := lt_of_mul_lt_mul_right hhigh (by omega)
    omega

/-- What the click's place leaves over where the one before it is a whole pixel. -/
theorem rest_eq (h : (p - 1) * zoom % 100 = 0) : p * zoom % 100 = zoom % 100 := by
  rw [sub_mul, one_mul] at h
  omega

theorem Cuts.exact (hzoom : 100 < zoom) (hclick : 0 ≤ click) (hlt : click < size)
    (hinside : Inside zoom size click p) (h : Cuts zoom size click p lo hi)
    (hk : k * size ≤ click * (hi - lo)) (hnext : Cuts zoom size click (lo + k) lo hi) :
    Exact zoom size click p := by
  obtain ⟨hwhole, hoffset, hextent, hclicked⟩ := hnext.settled (by omega) hclick hlt hk
  have hplace := h.place_eq hzoom hoffset
  refine ⟨hinside, hclicked.imp_right fun heq ↦ ⟨?_, ?_⟩, ?_⟩
  · exact ⟨hi - lo, by rw [← heq, mul_comm]⟩
  · exact ⟨k, by rw [← hoffset, mul_comm]⟩
  · rw [hplace] at hwhole
    split_ifs at hwhole hplace with hzero
    · exact .inl (Int.dvd_of_emod_eq_zero hzero)
    refine .inr ⟨Int.dvd_of_emod_eq_zero hwhole, ?_⟩
    rw [← rest_eq hwhole]
    -- as many whole pixels fit the frame as the crop has
    have hpixels : hi - lo ≤ size * 100 / zoom := (Int.le_ediv_iff_mul_le (by omega)).mpr hextent
    have hmul : (hi - lo) * zoom ≤ size * 100 / zoom * zoom :=
      mul_le_mul_of_nonneg_right hpixels (by omega)
    have hmod := Int.emod_add_mul_ediv (size * 100) zoom
    have hplaces : (lo + k) * zoom = (p - 1) * zoom := by rw [hplace]
    have hhi := h.hi_lt
    linarith [mul_comm zoom (size * 100 / zoom)]

/-- The click in the crop that an exact one has made is as far in as the click in the frame. -/
theorem Exact.offset (hzoom : 0 < zoom) (hclick : 0 ≤ click) (hlt : click < size)
    (h : Exact zoom size click p) (hcuts : Cuts zoom size click p lo hi) :
    click * (hi - lo) / size * zoom = click * 100 ∧
      (click = 0 ∨ (hi - lo) * zoom = size * 100) := by
  rcases h.whole with rfl | ⟨⟨extent, hextent⟩, offset, hoffset⟩
  · simp
  have hpixels : hi - lo = extent := by
    have hlow : (-1) * zoom < (hi - lo - extent) * zoom := by
      linarith [hcuts.lo_le, hcuts.hi_lt, mul_comm zoom extent]
    have hhigh : (hi - lo - extent) * zoom < 1 * zoom := by
      linarith [hcuts.lo_lt, hcuts.hi_le, mul_comm zoom extent]
    have hlow := lt_of_mul_lt_mul_right hlow hzoom.le
    have hhigh := lt_of_mul_lt_mul_right hhigh hzoom.le
    omega
  have hmul : click * extent = offset * size := by
    apply mul_right_cancel₀ hzoom.ne'
    calc click * extent * zoom = click * (zoom * extent) := by ring
      _ = size * (click * 100) := by rw [← hextent]; ring
      _ = offset * size * zoom := by rw [hoffset]; ring
  rw [hpixels, hmul, Int.mul_ediv_cancel _ (by omega)]
  exact ⟨by rw [hoffset, mul_comm], .inr (by rw [hextent, mul_comm])⟩

/-- On the edge of the image the crop has as many pixels as fit the frame. -/
theorem Exact.extent_of_edge (hzoom : 100 < zoom) (h : Exact zoom size 0 p)
    (hcuts : Cuts zoom size 0 p lo hi) :
    (hi - lo) * zoom ≤ size * 100 ∧ size * 100 < (hi - lo) * zoom + zoom := by
  have hplace := hcuts.place_eq (k := 0) hzoom (by omega)
  obtain ⟨-, -, hle, hlt⟩ := hcuts
  rw [add_zero] at hplace
  split_ifs at hplace with hzero
  · rw [hplace, sub_mul]
    exact ⟨by linarith, by linarith⟩
  · have hpixel : 100 ∣ (p - 1) * zoom ∧ size * 100 % zoom < zoom % 100 :=
      h.pixel.resolve_left fun hdvd ↦ hzero (Int.emod_eq_zero_of_dvd hdvd)
    have hrest := rest_eq (Int.emod_eq_zero_of_dvd hpixel.1)
    have hrest' : p * zoom % 100 < 100 := Int.emod_lt_of_pos _ (by decide)
    have hmod := Int.emod_add_mul_ediv (size * 100) zoom
    have hpixels : (hi - lo) * zoom < (size * 100 / zoom + 1) * zoom := by
      rw [hplace, sub_mul, sub_mul, add_mul, one_mul]
      linarith [hpixel.2, mul_comm zoom (size * 100 / zoom)]
    have hpixels := lt_of_mul_lt_mul_right hpixels (by omega)
    constructor
    · exact (Int.le_ediv_iff_mul_le (by omega)).mp (by omega)
    · rw [hplace, sub_mul, sub_mul, one_mul]
      linarith

/-- The next frame cuts the crop that an exact click has made. -/
theorem Exact.cuts_next (hzoom : 100 < zoom) (hclick : 0 ≤ click) (hlt : click < size)
    (h : Exact zoom size click p) (hcuts : Cuts zoom size click p lo hi) :
    Cuts zoom size click (lo + click * (hi - lo) / size) lo hi := by
  obtain ⟨hoffset, hclicked⟩ := h.offset (by omega) hclick hlt hcuts
  have hplace := hcuts.place_eq hzoom hoffset
  generalize click * (hi - lo) / size = k at hoffset hplace ⊢
  have hsum : (lo + k) * zoom = lo * zoom + click * 100 := by rw [add_mul, hoffset]
  have hwhole : (lo + k) * zoom % 100 = 0 := by
    rw [hplace]
    split_ifs with hzero
    · exact hzero
    · rcases h.pixel with hpixel | ⟨hpixel, -⟩
      · exact absurd (Int.emod_eq_zero_of_dvd hpixel) hzero
      · exact Int.emod_eq_zero_of_dvd hpixel
  have hextent : (hi - lo) * zoom ≤ size * 100 ∧ size * 100 < (hi - lo) * zoom + zoom := by
    rcases hclicked with rfl | heq
    · exact h.extent_of_edge hzoom hcuts
    · omega
  rw [sub_mul] at hextent
  exact ⟨by rw [hwhole]; linarith, by rw [hwhole]; linarith, by rw [hwhole]; linarith,
    by rw [hwhole]; linarith⟩

/-- The view never moves to the right, or down. -/
theorem Cuts.next_le (hzoom : 0 < zoom) (hclick : 0 ≤ click) (hlt : click < size)
    (hk : k * size ≤ click * (hi - lo)) (h : Cuts zoom size click p lo hi) :
    (lo + k) * zoom ≤ p * zoom - p * zoom % 100 := by
  obtain ⟨hlo, -, hhi, -⟩ := h
  obtain ⟨extra, hextra⟩ : ∃ extra, p * zoom - p * zoom % 100 - click * 100 = lo * zoom + extra :=
    ⟨p * zoom - p * zoom % 100 - click * 100 - lo * zoom, by ring⟩
  have hextent : (hi - lo) * zoom ≤ extra + size * 100 := by
    rw [sub_mul]
    linarith
  have hscaled := mul_le_mul_of_nonneg_right hk hzoom.le
  have hclicked := mul_le_mul_of_nonneg_left hextent hclick
  have hspare : 0 ≤ (size - click) * extra := mul_nonneg (by omega) (by linarith)
  have hle : (k * zoom - click * 100) * size ≤ extra * size := by
    linarith [mul_right_comm k size zoom, mul_assoc click (hi - lo) zoom]
  have hle := le_of_mul_le_mul_right hle (by omega)
  rw [add_mul]
  linarith

/-- It moves by less than three pixels of the image. -/
theorem Cuts.le_next (hzoom : 0 < zoom) (hclick : 0 ≤ click) (hlt : click < size)
    (hk : click * (hi - lo) < k * size + size) (h : Cuts zoom size click p lo hi) :
    p * zoom - p * zoom % 100 < (lo + k) * zoom + zoom * 3 := by
  obtain ⟨hle, hlo, -, hhi⟩ := h
  have hextent : size * 100 - zoom ≤ (hi - lo) * zoom := by
    rw [sub_mul]
    linarith
  have hscaled := mul_le_mul_of_nonneg_right hk.le hzoom.le
  have hclicked := mul_le_mul_of_nonneg_left hextent hclick
  have hspare : 0 ≤ (size - click) * zoom := mul_nonneg (by omega) hzoom.le
  have hle' : click * 100 * size ≤ (k * zoom + zoom * 2) * size := by
    linarith [mul_right_comm k size zoom, mul_assoc click (hi - lo) zoom, mul_comm size zoom]
  have hle' := le_of_mul_le_mul_right hle' (by omega)
  rw [add_mul]
  linarith

theorem Inside.next (hzoom : 0 < zoom) (hclick : 0 ≤ click) (hlt : click < size)
    (hk : k * size ≤ click * (hi - lo)) (hcuts : Cuts zoom size click p lo hi)
    (hbelow : click * 100 ≤ (lo + k) * zoom) (h : Inside zoom size click p) :
    Inside zoom size click (lo + k) := by
  have hle := hcuts.next_le hzoom hclick hlt hk
  have habove := h.above
  exact ⟨hbelow, by omega⟩

theorem Exact.next (hzoom : 100 < zoom) (hclick : 0 ≤ click) (hlt : click < size)
    (h : Exact zoom size click p) (hcuts : Cuts zoom size click p lo hi) (hlo : 0 ≤ lo) :
    Inside zoom size click (lo + click * (hi - lo) / size) := by
  have hk : click * (hi - lo) / size * size ≤ click * (hi - lo) := Int.ediv_mul_le _ (by omega)
  refine h.toInside.next (by omega) hclick hlt hk hcuts ?_
  have hoffset := (h.offset (by omega) hclick hlt hcuts).1
  have hmul : 0 ≤ lo * zoom := mul_nonneg hlo (by omega)
  rw [add_mul]
  omega

theorem Clear.next (hzoom : 100 < zoom) (hclick : 0 ≤ click) (hlt : click < size)
    (h : Clear zoom size click p) (hcuts : Cuts zoom size click p lo hi) :
    0 < lo ∧ Inside zoom size click (lo + click * (hi - lo) / size) := by
  have hk : click * (hi - lo) / size * size ≤ click * (hi - lo) := Int.ediv_mul_le _ (by omega)
  have hk' : click * (hi - lo) < click * (hi - lo) / size * size + size :=
    ((Int.ediv_eq_iff_of_pos (by omega)).mp rfl).2
  have haway := h.away
  have hnext := hcuts.le_next (by omega) hclick hlt hk'
  constructor
  · have hrest : p * zoom % 100 < 100 := Int.emod_lt_of_pos _ (by decide)
    have hlow : 0 * zoom < lo * zoom := by linarith [hcuts.lo_lt]
    exact lt_of_mul_lt_mul_right hlow (by omega)
  · exact h.toInside.next (by omega) hclick hlt hk hcuts (by omega)

end Axis

variable {c : Controls} {width height : ℤ} {view : View} {crop start : Box}

theorem OnAxes.imp {P Q : (zoom size click place : ℤ) → Prop}
    (hPQ : ∀ zoom size click place, P zoom size click place → Q zoom size click place)
    (h : OnAxes P c width height start) : OnAxes Q c width height start :=
  ⟨hPQ _ _ _ _ h.x, hPQ _ _ _ _ h.y⟩

theorem Inside.corner_bounds {zoom size click lo extent : ℤ} (hclick : 0 ≤ click)
    (h : Inside zoom size click (place size click lo extent)) :
    0 ≤ place size click lo extent * zoom ∧ 0 ≤ corner zoom size click lo extent ∧
      corner zoom size click lo extent + size < size * zoom / 100 := by
  obtain ⟨hbelow, habove⟩ := h
  have hplace : 0 ≤ place size click lo extent * zoom := by omega
  rw [corner_eq hplace]
  exact ⟨hplace, by omega, habove⟩

/-- Nothing sticks out of the blown-up image, so the crop is of the pixels that the edges of the
frame fall in. -/
theorem nextCrop_eq_iff (h : Clicked c width height) (hzoom : 100 < c.zoom)
    (hinside : OnAxes Inside c width height start) :
    nextCrop c width height start = crop ↔
      Cuts c.zoom width c.x (place width c.x start.lo.x start.width) crop.lo.x crop.hi.x ∧
        Cuts c.zoom height c.y (place height c.y start.lo.y start.height) crop.lo.y crop.hi.y := by
  obtain ⟨hxplace, hxlo, hxhi⟩ := hinside.x.corner_bounds h.x_nonneg
  obtain ⟨hyplace, hylo, hyhi⟩ := hinside.y.corner_bounds h.y_nonneg
  have hzero : 0 ≤ c.zoom := by omega
  have hw : zoomedWidth c width = width * c.zoom / 100 :=
    Int.tdiv_eq_ediv_of_nonneg (mul_nonneg h.width_pos.le hzero)
  have hh : zoomedHeight c height = height * c.zoom / 100 :=
    Int.tdiv_eq_ediv_of_nonneg (mul_nonneg h.height_pos.le hzero)
  have hoverhang {lo size zoomed : ℤ} (hlo : 0 ≤ lo) (hhi : lo + size < zoomed) :
      overhang lo (lo + size) zoomed = 0 ∧ keptHi lo (lo + size) zoomed = lo + size ∧
        max 0 lo = lo := by
    rw [overhang, keptHi, if_neg hlo.not_gt, if_neg hlo.not_gt]
    omega
  have hx := hoverhang hxlo hxhi
  have hy := hoverhang hylo hyhi
  have hlossY : lossY c width height start = 0 := by
    rw [lossY, hw, left, hx.1, zero_mul, Int.zero_tdiv, Int.zero_tdiv]
  have hlossX : lossX c width height start = 0 := by
    rw [lossX, hlossY, hh, top, add_zero, sub_zero, hy.1, zero_mul, Int.zero_tdiv, Int.zero_tdiv]
  obtain ⟨⟨lox, loy⟩, hix, hiy⟩ := crop
  rw [nextCrop, zoomedRegion_eq h.width_pos h.height_pos, hlossX, hlossY, hw, hh, left, top]
  simp only [add_zero, sub_zero, hx.2.1, hx.2.2, hy.2.1, hy.2.2, Box.mk.injEq, Vector2.mk.injEq]
  rw [cuts_iff (by omega) h.width_pos.le hxplace hxlo,
    cuts_iff (by omega) h.height_pos.le hyplace hylo]
  tauto

/-- What the next frame makes of a crop that is a part of the image. -/
theorem nextCrop_sameStart_iff (h : Clicked c width height) (hzoom : 100 < c.zoom)
    (hx : 0 ≤ crop.lo.x ∧ crop.lo.x ≤ crop.hi.x ∧ crop.hi.x < width)
    (hy : 0 ≤ crop.lo.y ∧ crop.lo.y ≤ crop.hi.y ∧ crop.hi.y < height)
    (hset : crop.hi.x = 0 → crop.hi.y = 0 → c.x = 0 ∧ c.y = 0)
    (hxinside : Inside c.zoom width c.x
      (crop.lo.x + c.x * (crop.hi.x - crop.lo.x) / width))
    (hyinside : Inside c.zoom height c.y
      (crop.lo.y + c.y * (crop.hi.y - crop.lo.y) / height)) :
    nextCrop c width height (sameStart width height crop) = crop ↔
      Cuts c.zoom width c.x (crop.lo.x + c.x * (crop.hi.x - crop.lo.x) / width)
          crop.lo.x crop.hi.x ∧
        Cuts c.zoom height c.y (crop.lo.y + c.y * (crop.hi.y - crop.lo.y) / height)
          crop.lo.y crop.hi.y := by
  have hplace : place width c.x (sameStart width height crop).lo.x
        (sameStart width height crop).width =
          crop.lo.x + c.x * (crop.hi.x - crop.lo.x) / width ∧
      place height c.y (sameStart width height crop).lo.y
        (sameStart width height crop).height =
          crop.lo.y + c.y * (crop.hi.y - crop.lo.y) / height := by
    rw [sameStart]
    split_ifs with hnone
    · obtain ⟨hcx, hcy⟩ := hset hnone.1 hnone.2
      have hlox : crop.lo.x = 0 := by omega
      have hloy : crop.lo.y = 0 := by omega
      simp [hcx, hcy, hlox, hloy, place]
    · exact ⟨place_of_le h.width_pos h.width_lt h.x_nonneg hx.1 hx.2.1 hx.2.2,
        place_of_le h.height_pos h.height_lt h.y_nonneg hy.1 hy.2.1 hy.2.2⟩
  rw [nextCrop_eq_iff h hzoom ⟨hplace.1 ▸ hxinside, hplace.2 ▸ hyinside⟩, hplace.1, hplace.2]

theorem OnAxes.bounds (h : Clicked c width height) (hzoom : 100 < c.zoom)
    (hinside : OnAxes Inside c width height start) :
    (0 ≤ (nextCrop c width height start).lo.x ∧
      (nextCrop c width height start).lo.x ≤ (nextCrop c width height start).hi.x ∧
      (nextCrop c width height start).hi.x < width) ∧
    0 ≤ (nextCrop c width height start).lo.y ∧
      (nextCrop c width height start).lo.y ≤ (nextCrop c width height start).hi.y ∧
      (nextCrop c width height start).hi.y < height := by
  obtain ⟨hx, hy⟩ := (nextCrop_eq_iff h hzoom hinside).mp rfl
  exact ⟨hinside.x.cuts_bounds (by omega) h.width_pos hx,
    hinside.y.cuts_bounds (by omega) h.height_pos hy⟩

/-- After an exact click the next frame leaves the crop. -/
theorem nextCrop_of_exact (h : Clicked c width height) (hzoom : 100 < c.zoom)
    (hexact : OnAxes Exact c width height start) :
    nextCrop c width height (sameStart width height (nextCrop c width height start)) =
      nextCrop c width height start := by
  have hinside : OnAxes Inside c width height start :=
    hexact.imp fun _ _ _ _ hexact ↦ hexact.toInside
  obtain ⟨hx, hy⟩ := (nextCrop_eq_iff h hzoom hinside).mp rfl
  obtain ⟨hxbounds, hybounds⟩ := hinside.bounds h hzoom
  have hset (hxzero : (nextCrop c width height start).hi.x = 0)
      (hyzero : (nextCrop c width height start).hi.y = 0) : c.x = 0 ∧ c.y = 0 := by
    have hxoffset := (hexact.x.offset (by omega) h.x_nonneg h.x_lt hx).1
    have hyoffset := (hexact.y.offset (by omega) h.y_nonneg h.y_lt hy).1
    have hlox : (nextCrop c width height start).lo.x = 0 := by omega
    have hloy : (nextCrop c width height start).lo.y = 0 := by omega
    rw [hxzero, hlox, sub_zero, mul_zero, Int.zero_ediv, zero_mul] at hxoffset
    rw [hyzero, hloy, sub_zero, mul_zero, Int.zero_ediv, zero_mul] at hyoffset
    omega
  exact (nextCrop_sameStart_iff h hzoom hxbounds hybounds hset
    (hexact.x.next hzoom h.x_nonneg h.x_lt hx hxbounds.1)
    (hexact.y.next hzoom h.y_nonneg h.y_lt hy hybounds.1)).mpr
      ⟨hexact.x.cuts_next hzoom h.x_nonneg h.x_lt hx, hexact.y.cuts_next hzoom h.y_nonneg h.y_lt hy⟩

/-- Away from the first pixels of the image only an exact click is left so. -/
theorem exact_of_nextCrop (h : Clicked c width height) (hzoom : 100 < c.zoom)
    (hclear : OnAxes Clear c width height start)
    (hstays : nextCrop c width height (sameStart width height (nextCrop c width height start)) =
      nextCrop c width height start) : OnAxes Exact c width height start := by
  have hinside : OnAxes Inside c width height start :=
    hclear.imp fun _ _ _ _ hclear ↦ hclear.toInside
  obtain ⟨hx, hy⟩ := (nextCrop_eq_iff h hzoom hinside).mp rfl
  obtain ⟨hxbounds, hybounds⟩ := hinside.bounds h hzoom
  obtain ⟨hxpos, hxnext⟩ := hclear.x.next hzoom h.x_nonneg h.x_lt hx
  obtain ⟨-, hynext⟩ := hclear.y.next hzoom h.y_nonneg h.y_lt hy
  obtain ⟨hxcuts, hycuts⟩ := (nextCrop_sameStart_iff h hzoom hxbounds hybounds
    (fun hxzero _ ↦ by omega) hxnext hynext).mp hstays
  have hk (size click lo hi : ℤ) (hsize : 0 < size) :
      click * (hi - lo) / size * size ≤ click * (hi - lo) := Int.ediv_mul_le _ hsize.ne'
  exact ⟨hx.exact hzoom h.x_nonneg h.x_lt hinside.x (hk _ _ _ _ h.width_pos) hxcuts,
    hy.exact hzoom h.y_nonneg h.y_lt hinside.y (hk _ _ _ _ h.height_pos) hycuts⟩

theorem render_eq (hzoom : c.zoom ≠ scaleBase) :
    render c width height view =
      { lastScale := c.scale, lastZoom := c.zoom
        lastCrop := nextCrop c width height (startCrop width height view)
        lastCropWidth := width, lastCropHeight := height, lastX := c.x, lastY := c.y } :=
  congrArg Prod.fst (prepareImage_of_zoom hzoom)

/-- After a frame the next one starts from its crop. -/
theorem startCrop_render (hzoom : c.zoom ≠ scaleBase) :
    startCrop width height (render c width height view) =
      sameStart width height (render c width height view).lastCrop := by
  rw [render_eq hzoom]
  simp [startCrop, sameStart]

/-- A frame that leaves the crop of the one before leaves all of the view. -/
theorem render_render_eq (hzoom : c.zoom ≠ scaleBase)
    (h : (render c width height (render c width height view)).lastCrop =
      (render c width height view).lastCrop) :
    render c width height (render c width height view) = render c width height view := by
  have hcrop := (congrArg View.lastCrop (render_eq hzoom)).symm.trans h
  have hview : render c width height view = _ := render_eq hzoom
  simp only at hcrop
  rw [render_eq hzoom, hcrop, hview]

theorem lastCrop_render_eq_iff (hzoom : c.zoom ≠ scaleBase) :
    (render c width height (render c width height view)).lastCrop =
        (render c width height view).lastCrop ↔
      nextCrop c width height (sameStart width height
          (nextCrop c width height (startCrop width height view))) =
        nextCrop c width height (startCrop width height view) := by
  have hlast : (render c width height view).lastCrop =
      nextCrop c width height (startCrop width height view) :=
    congrArg View.lastCrop (render_eq hzoom)
  rw [← hlast, ← startCrop_render hzoom]
  exact Eq.congr_left (congrArg View.lastCrop (render_eq hzoom))

/-- The view stays at what one frame has made of an exact click, and away from the first pixels of
the image at that of no other. -/
theorem lastCrop_iterate (c : Controls) (width height : ℤ) (view : View)
    (h : Clicked c width height) (hzoom : 100 < c.zoom) :
    (OnAxes Exact c width height (startCrop width height view) →
      ∀ n, ((render c width height)^[n] (render c width height view)).lastCrop =
        (render c width height view).lastCrop) ∧
    (OnAxes Clear c width height (startCrop width height view) →
      ((∀ n, ((render c width height)^[n] (render c width height view)).lastCrop =
          (render c width height view).lastCrop) ↔
        OnAxes Exact c width height (startCrop width height view))) := by
  have hne : c.zoom ≠ scaleBase := hzoom.ne'
  have hstays (hexact : OnAxes Exact c width height (startCrop width height view)) (n : ℕ) :
      ((render c width height)^[n] (render c width height view)).lastCrop =
        (render c width height view).lastCrop := by
    have hkept := (lastCrop_render_eq_iff hne).mpr (nextCrop_of_exact h hzoom hexact)
    rw [Function.iterate_fixed (render_render_eq hne hkept)]
  refine ⟨hstays, fun hclear ↦ ⟨fun hall ↦ ?_, hstays⟩⟩
  exact exact_of_nextCrop h hzoom hclear ((lastCrop_render_eq_iff hne).mp (hall 1))

def twofold : Controls := ⟨200, 100, 320, 240⟩

theorem lastCrop_iterate_twofold :
    (render twofold 640 480 {}).lastCrop = ⟨⟨160, 120⟩, ⟨480, 360⟩⟩ ∧
      (∀ n, ((render twofold 640 480)^[n] (render twofold 640 480 {})).lastCrop =
        (render twofold 640 480 {}).lastCrop) := by
  have hclicked : Clicked twofold 640 480 := ⟨by decide, by decide, by decide, by decide,
    by decide, by decide, by decide, by decide⟩
  have hexact : OnAxes Exact twofold 640 480 (startCrop 640 480 {}) :=
    ⟨⟨⟨by decide, by decide⟩, by decide, by decide⟩, ⟨by decide, by decide⟩, by decide, by decide⟩
  refine ⟨by decide +kernel, ?_⟩
  exact (lastCrop_iterate twofold 640 480 {} hclicked (by decide)).1 hexact

def halfAgain : Controls := ⟨150, 100, 320, 240⟩

/-- The first frame shows 106..533, the next one 105..532. -/
theorem not_lastCrop_iterate :
    ¬∀ (c : Controls) (width height : ℤ) (view : View), 0 < width → 0 < height → 100 < c.zoom →
      (0 ≤ c.x ∧ c.x < width) → (0 ≤ c.y ∧ c.y < height) →
        ∀ n, ((render c width height)^[n] (render c width height view)).lastCrop =
          (render c width height view).lastCrop := by
  intro h
  have hstays := h halfAgain 640 480 {} (by decide) (by decide) (by decide) (by decide)
    (by decide) 1
  revert hstays
  decide +kernel

end ZoneMinder.StreamBase
