import ZoneMinder.Image.Delta
import ZoneMinder.Lib.Words

namespace ZoneMinder.Image

open Lib

namespace PixelFormat

/-- `zm_is_rgb32` -/
def isRgb32 (f : PixelFormat) : Bool := f = .rgba || f = .bgra || f = .argb || f = .abgr

/-- `zm_is_rgb24` -/
def isRgb24 (f : PixelFormat) : Bool := f = .rgb24 || f = .bgr24

/-- `zm_is_yuv420` -/
def isYuv420 (f : PixelFormat) : Bool := f = .yuv420p || f = .yuvj420p

end PixelFormat

/-- The bytes of a colour as they lie in memory, once they are in an order. -/
def rgbConvert (colour : UInt32) (subpixorder : ℕ) : List UInt8 :=
  let r := byteOf colour 0
  let g := byteOf colour 1
  let b := byteOf colour 2
  if subpixorder = 5 ∨ subpixorder = 7 then [b, g, r, 0]
  else if subpixorder = 10 then [0, r, g, b]
  else if subpixorder = 9 then [0, b, g, r]
  else if subpixorder = 2 then [r, 0, 0, 0]
  else [r, g, b, byteOf colour 3]

/-- Where `av_image_fill_arrays` puts the second and the third plane in a buffer. -/
structure Planes where
  uPlane : ℕ
  vPlane : ℕ
  uStride : ℕ
  vStride : ℕ

/-- What MaskPrivacy reads of an image. -/
structure Maskable where
  width : ℕ
  height : ℕ
  linesize : ℕ
  colours : ℕ
  subpixelorder : ℕ
  imagePixFormat : PixelFormat

namespace Maskable

variable (a : Maskable)

/-- What is written over a pixel, and how far it is to the next one; none where there is a panic. -/
def pixelBytes (colour : UInt32) : Option (List UInt8 × ℕ) :=
  if a.imagePixFormat.bytesPerPixel = 1 then some ([byteOf colour 0], 1)
  else if a.imagePixFormat.isRgb24 then
    some ([byteOf colour 0, byteOf colour 1, byteOf colour 2], a.colours)
  else if a.imagePixFormat.isRgb32 then some (rgbConvert colour a.subpixelorder, a.colours)
  else none

/-- A row from `ptr` and from bit `i` on. -/
def maskRow (bitmask : Plane) (bytes : List UInt8) (step : ℕ) :
    (n ptr i : ℕ) → Plane → Option Plane
  | 0, _, _, buffer => some buffer
  | n + 1, ptr, i, buffer =>
    (bitmask.read i).bind fun bit ↦
      (if bit ≠ 0 then buffer.fill ptr bytes.length (bytes[·]?) else some buffer).bind
        (maskRow bitmask bytes step n (ptr + step) (i + 1))

def cHeight : ℕ := if a.imagePixFormat.isYuv420 then (a.height + 1) / 2 else a.height

def cWidth : ℕ := (a.width + 1) / 2

/-- Whether one of two neighbours in a row is masked. -/
def rowHit (bitmask : Plane) (x y : ℕ) : Option Bool := do
  let first ← bitmask.read (y * a.width + x)
  if first ≠ 0 then some true
  else if x + 1 < a.width then (bitmask.read (y * a.width + (x + 1))).map (· ≠ 0)
  else some false

def maskHit (bitmask : Plane) (cx cy : ℕ) : Option Bool := do
  let top := if a.imagePixFormat.isYuv420 then cy * 2 else cy
  let bottom := if a.imagePixFormat.isYuv420 then top + 1 else top
  let hit ← a.rowHit bitmask (cx * 2) top
  if a.imagePixFormat.isYuv420 ∧ hit = false ∧ bottom < a.height then
    a.rowHit bitmask (cx * 2) bottom
  else some hit

def maskSample (planes : Planes) (bitmask : Plane) (cx cy : ℕ) (buffer : Plane) : Option Plane := do
  let hit ← a.maskHit bitmask cx cy
  if hit then
    let buffer ← buffer.write (planes.uPlane + cy * planes.uStride + cx) 128
    buffer.write (planes.vPlane + cy * planes.vStride + cx) 128
  else some buffer

/-- `fillArrays` is none where `av_image_fill_arrays` fails. -/
def maskPrivacy (fillArrays : PixelFormat → (width height : ℕ) → Option Planes) (bitmask : Plane)
    (colour : UInt32) (buffer : Plane) : Option Plane := do
  let buffer ← (List.range a.height).foldlM (fun buffer y ↦
    (a.pixelBytes colour).bind fun pixel ↦
      -- the rows above have had that many pixels
      maskRow bitmask pixel.1 pixel.2 a.width (y * a.linesize) (y * a.width) buffer) buffer
  if a.imagePixFormat.planar then
    match fillArrays a.imagePixFormat a.width a.height with
    | none => some buffer
    | some planes =>
      (List.range a.cHeight).foldlM (fun buffer cy ↦
        (List.range a.cWidth).foldlM (fun buffer cx ↦ a.maskSample planes bitmask cx cy buffer)
          buffer) buffer
  else some buffer

def Masked (bitmask : Plane) (x y : ℕ) : Prop := bitmask.content (y * a.width + x) ≠ 0

/-- The bytes of a pixel, in the first plane. -/
def PixelByte (x y i : ℕ) : Prop :=
  ∃ k < a.imagePixFormat.bytesPerPixel,
    i = y * a.linesize + (x * a.imagePixFormat.bytesPerPixel + k)

/-- The chroma of a sample, in the second and the third plane. -/
def SampleByte (planes : Planes) (cx cy i : ℕ) : Prop :=
  i = planes.uPlane + cy * planes.uStride + cx ∨ i = planes.vPlane + cy * planes.vStride + cx

def Covers (cx cy x y : ℕ) : Prop :=
  x / 2 = cx ∧ (if a.imagePixFormat.isYuv420 then y / 2 else y) = cy

/-- A sample that covers a masked pixel. -/
def HiddenSample (bitmask : Plane) (cx cy : ℕ) : Prop :=
  ∃ x < a.width, ∃ y < a.height, a.Covers cx cy x y ∧ a.Masked bitmask x y

/-- What the mask hides: masked pixels, and samples that cover one. -/
def Hidden (planes : Planes) (bitmask : Plane) (i : ℕ) : Prop :=
  (∃ y < a.height, ∃ x < a.width, a.Masked bitmask x y ∧ a.PixelByte x y i) ∨
    (a.imagePixFormat.planar ∧ ∃ cy < a.cHeight, ∃ cx < a.cWidth,
      a.HiddenSample bitmask cx cy ∧ SampleByte planes cx cy i)

/-- What an image shows: its pixels, and the samples of its other planes. -/
def Shown (planes : Planes) (i : ℕ) : Prop :=
  (∃ y < a.height, ∃ x < a.width, a.PixelByte x y i) ∨
    (a.imagePixFormat.planar ∧ ∃ cy < a.cHeight, ∃ cx < a.cWidth, SampleByte planes cx cy i)

/-- An image of a supported format in a buffer of a size: its rows, and behind them the other
planes one after the other. -/
structure Laid (fillArrays : PixelFormat → (width height : ℕ) → Option Planes) (planes : Planes)
    (size : ℕ) : Prop where
  format : a.imagePixFormat ≠ .none
  colours : a.colours = a.imagePixFormat.bytesPerPixel
  row : a.width * a.imagePixFormat.bytesPerPixel ≤ a.linesize
  rows : a.linesize * a.height ≤ size
  arrays : a.imagePixFormat.planar →
    fillArrays a.imagePixFormat a.width a.height = some planes ∧
    a.cWidth ≤ planes.uStride ∧ a.cWidth ≤ planes.vStride ∧
    a.linesize * a.height ≤ planes.uPlane ∧
    planes.uPlane + planes.uStride * a.cHeight ≤ planes.vPlane ∧
    planes.vPlane + planes.vStride * a.cHeight ≤ size

section Painting

variable {a} {fillArrays : PixelFormat → (width height : ℕ) → Option Planes} {planes : Planes}
  {bitmask c d : Plane} {colour : UInt32} {bytes : List UInt8} {x y cx cy i n ptr step size : ℕ}

theorem rgbConvert_length (colour : UInt32) (subpixorder : ℕ) :
    (rgbConvert colour subpixorder).length = 4 := by
  rw [rgbConvert]
  split_ifs <;> rfl

theorem Laid.pixelBytes (h : a.Laid fillArrays planes size) (colour : UInt32) :
    ∃ bytes, a.pixelBytes colour = some (bytes, a.imagePixFormat.bytesPerPixel) ∧
      bytes.length = a.imagePixFormat.bytesPerPixel := by
  have hcolours := h.colours
  have hformat := h.format
  rw [Maskable.pixelBytes]
  cases hf : a.imagePixFormat <;> rw [hf] at hcolours hformat <;>
    simp [PixelFormat.bytesPerPixel, PixelFormat.isRgb24, PixelFormat.isRgb32, hcolours,
      rgbConvert_length] at hformat ⊢

theorem maskRow_paints (hbits : ∀ k < n, i + k < bitmask.size)
    (hsize : ptr + n * step ≤ size) (hbytes : bytes.length = step) :
    Cells.Paints (maskRow bitmask bytes step n ptr i) size fun j ↦
      ∃ k < n, bitmask.content (i + k) ≠ 0 ∧ ∃ m < step, j = ptr + k * step + m := by
  induction n generalizing ptr i with
  | zero =>
    have hrun : maskRow bitmask bytes step 0 ptr i = some := funext fun _ ↦ rfl
    rw [hrun]
    exact Cells.Paints.skip.congr fun j ↦ by simp
  | succ n ih =>
    rw [Nat.succ_mul] at hsize
    have hbit := hbits 0 (Nat.succ_pos n)
    rw [Nat.add_zero] at hbit
    have hrest := @ih (i + 1) (ptr + step) (fun k hk ↦ by
      have hk' := hbits (k + 1) (Nat.succ_lt_succ hk)
      omega) (by omega)
    have hpixel : Cells.Paints (fun buffer : Plane ↦
        if bitmask.content i ≠ 0 then buffer.fill ptr bytes.length (bytes[·]?) else some buffer) size
        fun j ↦ bitmask.content i ≠ 0 ∧ ptr ≤ j ∧ j < ptr + step := by
      by_cases hmasked : bitmask.content i ≠ 0
      · simp only [hmasked, not_false_eq_true, if_true, ne_eq, true_and]
        rw [← hbytes]
        refine Cells.Paints.fill (v := fun k ↦ bytes.getD k 0) (fun k hk ↦ ?_) (by omega)
        rw [List.getElem?_eq_getElem hk, List.getD_eq_getElem _ _ hk]
      · simp only [hmasked, if_false, false_and]
        exact Cells.Paints.skip
    have hrun : maskRow bitmask bytes step (n + 1) ptr i = fun buffer ↦
        (if bitmask.content i ≠ 0 then buffer.fill ptr bytes.length (bytes[·]?)
          else some buffer).bind (maskRow bitmask bytes step n (ptr + step) (i + 1)) := by
      funext buffer
      rw [maskRow, Cells.read_of_lt hbit]
      rfl
    rw [hrun]
    refine (hpixel.bind hrest).congr fun j ↦ ?_
    constructor
    · rintro (⟨hmasked, hle, hlt⟩ | ⟨k, hk, hmasked, m, hm, rfl⟩)
      · exact ⟨0, Nat.succ_pos n, hmasked, j - ptr, by omega, by omega⟩
      · rw [Nat.add_assoc, Nat.add_comm 1] at hmasked
        exact ⟨k + 1, Nat.succ_lt_succ hk, hmasked, m, hm, by rw [Nat.succ_mul]; omega⟩
    · rintro ⟨k, hk, hmasked, m, hm, rfl⟩
      cases k with
      | zero => exact .inl ⟨hmasked, by omega, by omega⟩
      | succ k =>
        rw [Nat.add_comm k, ← Nat.add_assoc] at hmasked
        exact .inr ⟨k, Nat.lt_of_succ_lt_succ hk, hmasked, m, hm, by rw [Nat.succ_mul]; omega⟩

/-- Of a row a sample covers two pixels, or one where the row ends with it. -/
theorem exists_rowHit (hmask : bitmask.size = a.width * a.height) (hcx : cx < a.cWidth)
    (hy : y < a.height) : ∃ hit, a.rowHit bitmask (cx * 2) y = some hit ∧
      (hit ↔ ∃ x < a.width, x / 2 = cx ∧ a.Masked bitmask x y) := by
  have hread {x : ℕ} (hx : x < a.width) : bitmask.read (y * a.width + x) =
      some (bitmask.content (y * a.width + x)) := Cells.read_of_lt (hmask ▸ row_lt hy hx)
  have hx : cx * 2 < a.width := by
    rw [cWidth] at hcx
    omega
  have hcases (hfirst : ¬ a.Masked bitmask (cx * 2) y) {x : ℕ} (hcover : x / 2 = cx)
      (hmasked : a.Masked bitmask x y) : x = cx * 2 + 1 := by
    rcases (show x = cx * 2 ∨ x = cx * 2 + 1 by omega) with rfl | rfl
    · exact absurd hmasked hfirst
    · rfl
  rw [rowHit, hread hx]
  simp only [Option.bind_eq_bind, Option.bind_some]
  by_cases hfirst : bitmask.content (y * a.width + cx * 2) ≠ 0
  · refine ⟨true, if_pos hfirst, fun _ ↦ ⟨cx * 2, hx, by omega, hfirst⟩, fun _ ↦ rfl⟩
  · rw [if_neg hfirst]
    by_cases hnext : cx * 2 + 1 < a.width
    · rw [if_pos hnext, hread hnext]
      refine ⟨_, rfl, ?_⟩
      rw [decide_eq_true_iff]
      refine ⟨fun hmasked ↦ ⟨cx * 2 + 1, hnext, by omega, hmasked⟩, ?_⟩
      rintro ⟨x, -, hcover, hmasked⟩
      obtain rfl := hcases hfirst hcover hmasked
      exact hmasked
    · refine ⟨false, if_neg hnext, fun hhit ↦ Bool.noConfusion hhit, ?_⟩
      rintro ⟨x, hx, hcover, hmasked⟩
      exact absurd (hcases hfirst hcover hmasked ▸ hx) hnext

theorem exists_maskHit (hmask : bitmask.size = a.width * a.height) (hcx : cx < a.cWidth)
    (hcy : cy < a.cHeight) : ∃ hit, a.maskHit bitmask cx cy = some hit ∧
      (hit ↔ a.HiddenSample bitmask cx cy) := by
  rw [cHeight] at hcy
  rw [maskHit]
  simp only [HiddenSample, Covers, Option.bind_eq_bind]
  cases hyuv : a.imagePixFormat.isYuv420 with
  | false =>
    rw [hyuv, if_neg Bool.false_ne_true] at hcy
    obtain ⟨hit, hhit, hiff⟩ := exists_rowHit hmask hcx hcy
    simp only [Bool.false_eq_true, if_false, false_and, hhit, Option.bind_some]
    refine ⟨hit, rfl, hiff.trans ?_⟩
    constructor
    · rintro ⟨x, hx, hcover, hmasked⟩
      exact ⟨x, hx, cy, hcy, ⟨hcover, rfl⟩, hmasked⟩
    · rintro ⟨x, hx, _, _, ⟨hcover, rfl⟩, hmasked⟩
      exact ⟨x, hx, hcover, hmasked⟩
  | true =>
    rw [hyuv, if_pos rfl] at hcy
    obtain ⟨hit, hhit, hiff⟩ := @exists_rowHit a bitmask (cy * 2) cx hmask hcx (by omega)
    simp only [if_true, true_and, hhit, Option.bind_some]
    cases hit with
    | true =>
      obtain ⟨x, hx, hcover, hmasked⟩ := hiff.mp rfl
      exact ⟨true, by simp, fun _ ↦ ⟨x, hx, cy * 2, by omega, ⟨hcover, by omega⟩, hmasked⟩,
        fun _ ↦ rfl⟩
    | false =>
      have hnone {x : ℕ} (hx : x < a.width) (hcover : x / 2 = cx) :
          ¬ a.Masked bitmask x (cy * 2) := fun hmasked ↦
        Bool.false_ne_true (hiff.mpr ⟨x, hx, hcover, hmasked⟩)
      have hcases {x y : ℕ} (hx : x < a.width) (hcover : x / 2 = cx) (hrow : y / 2 = cy)
          (hmasked : a.Masked bitmask x y) : y = cy * 2 + 1 := by
        rcases (show y = cy * 2 ∨ y = cy * 2 + 1 by omega) with rfl | rfl
        · exact absurd hmasked (hnone hx hcover)
        · rfl
      by_cases hbottom : cy * 2 + 1 < a.height
      · obtain ⟨hit, hhit, hiff⟩ := exists_rowHit hmask hcx hbottom
        refine ⟨hit, by simp [hbottom, hhit], hiff.trans ?_⟩
        constructor
        · rintro ⟨x, hx, hcover, hmasked⟩
          exact ⟨x, hx, cy * 2 + 1, hbottom, ⟨hcover, by omega⟩, hmasked⟩
        · rintro ⟨x, hx, y, -, ⟨hcover, hrow⟩, hmasked⟩
          obtain rfl := hcases hx hcover hrow hmasked
          exact ⟨x, hx, hcover, hmasked⟩
      · refine ⟨false, by simp [hbottom], fun hhit ↦ Bool.noConfusion hhit, ?_⟩
        rintro ⟨x, hx, y, hy, ⟨hcover, hrow⟩, hmasked⟩
        exact absurd (hcases hx hcover hrow hmasked ▸ hy) hbottom

theorem Laid.maskSample_paints (h : a.Laid fillArrays planes size)
    (hplanar : a.imagePixFormat.planar) (hmask : bitmask.size = a.width * a.height)
    (hcx : cx < a.cWidth) (hcy : cy < a.cHeight) :
    Cells.Paints (a.maskSample planes bitmask cx cy) size fun i ↦
      a.HiddenSample bitmask cx cy ∧ SampleByte planes cx cy i := by
  obtain ⟨-, huStride, hvStride, -, hu, hv⟩ := h.arrays hplanar
  have hucx := row_lt hcy (hcx.trans_le huStride)
  have hvcx := row_lt hcy (hcx.trans_le hvStride)
  obtain ⟨hit, hhit, hiff⟩ := exists_maskHit hmask hcx hcy
  cases hit with
  | false =>
    have hrun : a.maskSample planes bitmask cx cy = some := by
      funext buffer
      rw [maskSample, hhit]
      rfl
    rw [hrun]
    exact Cells.Paints.skip.congr fun i ↦ ⟨False.elim, fun hi ↦ Bool.false_ne_true (hiff.mpr hi.1)⟩
  | true =>
    have hrun : a.maskSample planes bitmask cx cy = fun buffer ↦
        (buffer.write (planes.uPlane + cy * planes.uStride + cx) 128).bind fun buffer ↦
          buffer.write (planes.vPlane + cy * planes.vStride + cx) 128 := by
      funext buffer
      rw [maskSample, hhit]
      rfl
    rw [hrun]
    refine ((Cells.Paints.write ?_).bind (Cells.Paints.write ?_)).congr fun i ↦ ?_
    · omega
    · omega
    · exact ⟨fun hi ↦ ⟨hiff.mp rfl, hi⟩, fun hi ↦ hi.2⟩

theorem Laid.maskRow_paints (h : a.Laid fillArrays planes size)
    (hmask : bitmask.size = a.width * a.height) (colour : UInt32) (hy : y < a.height) :
    Cells.Paints (fun buffer ↦ (a.pixelBytes colour).bind fun pixel ↦
      maskRow bitmask pixel.1 pixel.2 a.width (y * a.linesize) (y * a.width) buffer) size
      fun i ↦ ∃ x < a.width, a.Masked bitmask x y ∧ a.PixelByte x y i := by
  obtain ⟨bytes, hpixel, hbytes⟩ := h.pixelBytes colour
  simp only [hpixel, Option.bind_some]
  have hend : y * a.linesize + a.linesize ≤ a.linesize * a.height := by
    rw [← Nat.succ_mul, Nat.mul_comm a.linesize]
    exact Nat.mul_le_mul_right _ hy
  have hrow := h.row
  have hrows := h.rows
  refine (Maskable.maskRow_paints (fun k hk ↦ hmask ▸ row_lt hy hk) (by omega) hbytes).congr
    fun i ↦ ?_
  simp only [PixelByte, Masked, Nat.add_assoc]

theorem Laid.maskPrivacy_paints (h : a.Laid fillArrays planes size)
    (hmask : bitmask.size = a.width * a.height) (colour : UInt32) :
    Cells.Paints (a.maskPrivacy fillArrays bitmask colour) size (a.Hidden planes bitmask) := by
  have hrows := Cells.Paints.foldlM (l := List.range a.height) fun y hy ↦
    h.maskRow_paints hmask colour (List.mem_range.mp hy)
  have hplanes : Cells.Paints (fun buffer ↦ if a.imagePixFormat.planar then
      match fillArrays a.imagePixFormat a.width a.height with
      | none => some buffer
      | some planes =>
        (List.range a.cHeight).foldlM (fun buffer cy ↦
          (List.range a.cWidth).foldlM (fun buffer cx ↦ a.maskSample planes bitmask cx cy buffer)
            buffer) buffer
      else some buffer) size fun i ↦ a.imagePixFormat.planar ∧ ∃ cy < a.cHeight, ∃ cx < a.cWidth,
        a.HiddenSample bitmask cx cy ∧ SampleByte planes cx cy i := by
    by_cases hplanar : a.imagePixFormat.planar
    · simp only [hplanar, if_true, (h.arrays hplanar).1, true_and]
      have hsamples := Cells.Paints.foldlM (l := List.range a.cHeight) fun cy hcy ↦
        Cells.Paints.foldlM (l := List.range a.cWidth) fun cx hcx ↦
          h.maskSample_paints hplanar hmask (List.mem_range.mp hcx) (List.mem_range.mp hcy)
      exact hsamples.congr fun i ↦ by simp only [List.mem_range]
    · simp only [hplanar, Bool.false_eq_true, if_false, false_and]
      exact Cells.Paints.skip
  exact (hrows.bind hplanes).congr fun i ↦ by simp only [Hidden, List.mem_range]

theorem Laid.pixel_lt (h : a.Laid fillArrays planes size) {k : ℕ} (hx : x < a.width)
    (hk : k < a.imagePixFormat.bytesPerPixel) :
    x * a.imagePixFormat.bytesPerPixel + k < a.linesize := by
  have hrow := h.row
  rw [Nat.mul_comm] at hrow
  exact (row_lt hx hk).trans_le hrow

/-- A pixel's bytes are its own. -/
theorem Laid.not_hidden_pixel (h : a.Laid fillArrays planes size) (hx : x < a.width)
    (hy : y < a.height) (hmasked : ¬ a.Masked bitmask x y) (hi : a.PixelByte x y i) :
    ¬ a.Hidden planes bitmask i := by
  obtain ⟨k, hk, rfl⟩ := hi
  rintro (⟨y', hy', x', hx', hmasked', k', hk', heq⟩ | ⟨hplanar, cy, hcy, cx, hcx, -, hsample⟩)
  · obtain ⟨rfl, hrow⟩ := row_unique (h.pixel_lt hx hk) (h.pixel_lt hx' hk') heq
    obtain ⟨rfl, -⟩ := row_unique hk hk' hrow
    exact hmasked hmasked'
  · obtain ⟨-, -, -, hrows, hu, -⟩ := h.arrays hplanar
    have hlt := row_lt hy (h.pixel_lt hx hk)
    rcases hsample with heq | heq <;> omega

/-- The samples' bytes are their own. -/
theorem Laid.not_hidden_sample (h : a.Laid fillArrays planes size)
    (hplanar : a.imagePixFormat.planar) (hcx : cx < a.cWidth) (hcy : cy < a.cHeight)
    (hmasked : ¬ a.HiddenSample bitmask cx cy) (hi : SampleByte planes cx cy i) :
    ¬ a.Hidden planes bitmask i := by
  obtain ⟨-, huStride, hvStride, hrows, hu, -⟩ := h.arrays hplanar
  have hucx := row_lt hcy (hcx.trans_le huStride)
  rintro (⟨y, hy, x, hx, -, k, hk, heq⟩ | ⟨-, cy', hcy', cx', hcx', hmasked', hsample⟩)
  · have hlt := row_lt hy (h.pixel_lt hx hk)
    rcases hi with hi | hi <;> omega
  · have hucx' := row_lt hcy' (hcx'.trans_le huStride)
    have hsame : cy = cy' ∧ cx = cx' := by
      rcases hi with hi | hi <;> rcases hsample with heq | heq
      · exact row_unique (hcx.trans_le huStride) (hcx'.trans_le huStride) (by omega)
      · omega
      · omega
      · exact row_unique (hcx.trans_le hvStride) (hcx'.trans_le hvStride) (by omega)
    obtain ⟨rfl, rfl⟩ := hsame
    exact hmasked hmasked'

/-- The mask hides what is under it, and changes nothing else: of two images that show the same
but for it the results show the same; pixels that are not masked, samples that cover none, and
what is outside the planes, are as they were. -/
theorem maskPrivacy_hides (h : a.Laid fillArrays planes size)
    (hmask : bitmask.size = a.width * a.height) (hc : c.size = size) (hd : d.size = size)
    (hsame : ∀ i, a.Shown planes i → ¬ a.Hidden planes bitmask i → c.content i = d.content i) :
    ∃ c' d', a.maskPrivacy fillArrays bitmask colour c = some c' ∧
      a.maskPrivacy fillArrays bitmask colour d = some d' ∧
      (∀ i, a.Shown planes i → c'.content i = d'.content i) ∧
      (∀ y < a.height, ∀ x < a.width, ¬ a.Masked bitmask x y → ∀ i, a.PixelByte x y i →
        c'.content i = c.content i) ∧
      (a.imagePixFormat.planar → ∀ cy < a.cHeight, ∀ cx < a.cWidth,
        ¬ a.HiddenSample bitmask cx cy → ∀ i, SampleByte planes cx cy i →
          c'.content i = c.content i) ∧
      c'.size = size ∧ ∀ i, ¬ a.Shown planes i → c'.content i = c.content i := by
  obtain ⟨v, hv⟩ := h.maskPrivacy_paints hmask colour
  obtain ⟨c', hc', hsize, hci⟩ := hv c hc
  obtain ⟨d', hd', -, hdi⟩ := hv d hd
  have hshown (i : ℕ) (hi : ¬ a.Shown planes i) : ¬ a.Hidden planes bitmask i := by
    rintro (⟨y, hy, x, hx, -, hbyte⟩ | ⟨hplanar, cy, hcy, cx, hcx, -, hbyte⟩)
    · exact hi (.inl ⟨y, hy, x, hx, hbyte⟩)
    · exact hi (.inr ⟨hplanar, cy, hcy, cx, hcx, hbyte⟩)
  refine ⟨c', d', hc', hd', fun i hi ↦ ?_, ?_, ?_, hsize, fun i hi ↦ (hci i).2 (hshown i hi)⟩
  · by_cases hhidden : a.Hidden planes bitmask i
    · rw [(hci i).1 hhidden, (hdi i).1 hhidden]
    · rw [(hci i).2 hhidden, (hdi i).2 hhidden, hsame i hi hhidden]
  · exact fun y hy x hx hmasked i hi ↦ (hci i).2 (h.not_hidden_pixel hx hy hmasked hi)
  · exact fun hplanar cy hcy cx hcx hmasked i hi ↦
      (hci i).2 (h.not_hidden_sample hplanar hcx hcy hmasked hi)

/-- The planes of a format with two samples in a row and two rows of them, in steps of 32. -/
def planes420 (_ : PixelFormat) (width height : ℕ) : Option Planes :=
  let stride := ((width + 1) / 2 + 31) / 32 * 32
  let uPlane := (width + 31) / 32 * 32 * height
  some ⟨uPlane, uPlane + stride * ((height + 1) / 2), stride, stride⟩

theorem maskPrivacy_hides_corner :
    let a : Maskable := ⟨3, 3, 32, 1, 11, .yuv420p⟩
    let bitmask : Plane := ⟨fun i ↦ if i = 8 then 255 else 0, 9⟩
    ∃ c' d', a.maskPrivacy planes420 bitmask 0 ⟨fun _ ↦ 7, 224⟩ = some c' ∧
      a.maskPrivacy planes420 bitmask 0 ⟨fun i ↦ if i = 66 then 9 else 7, 224⟩ = some d' ∧
      c'.content 66 = d'.content 66 := by
  have hlaid : Laid ⟨3, 3, 32, 1, 11, .yuv420p⟩ planes420 ⟨96, 160, 32, 32⟩ 224 :=
    ⟨by decide, rfl, by decide, by decide, fun _ ↦ ⟨rfl, by decide, by decide, by decide, by decide,
      by decide⟩⟩
  have hsame : ∀ i, Shown ⟨3, 3, 32, 1, 11, .yuv420p⟩ ⟨96, 160, 32, 32⟩ i →
      ¬ Hidden ⟨3, 3, 32, 1, 11, .yuv420p⟩ ⟨96, 160, 32, 32⟩
        ⟨fun i ↦ if i = 8 then 255 else 0, 9⟩ i → (7 : UInt8) = if i = 66 then 9 else 7 := by
    intro i _ hhidden
    refine (if_neg ?_).symm
    rintro rfl
    have hmasked : (255 : UInt8) ≠ 0 := by decide
    exact hhidden (.inl ⟨2, by decide, 2, by decide, hmasked, 0, by decide, rfl⟩)
  obtain ⟨c', d', hc, hd, hequal, -⟩ := @maskPrivacy_hides _ _ _
    ⟨fun i ↦ if i = 8 then 255 else 0, 9⟩ ⟨fun _ ↦ 7, 224⟩ ⟨fun i ↦ if i = 66 then 9 else 7, 224⟩
    0 _ hlaid rfl rfl rfl hsame
  exact ⟨c', d', hc, hd, hequal 66 (.inl ⟨2, by decide, 2, by decide, 0, by decide, rfl⟩)⟩

end Painting

end Maskable

end ZoneMinder.Image
