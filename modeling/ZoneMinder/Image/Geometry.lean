import ZoneMinder.Image.MaskPrivacy
import ZoneMinder.Lib.Raster

namespace ZoneMinder.Image

open Lib

namespace PixelFormat

/-- `log2_chroma_w` and `log2_chroma_h` -/
def log2Chroma : PixelFormat → ℕ × ℕ
  | .yuv420p | .yuvj420p => (1, 1)
  | .yuv422p | .yuvj422p => (1, 0)
  | _ => (0, 0)

def planeCount (f : PixelFormat) : ℕ := if f.planar then 3 else 1

end PixelFormat

def ceilRshift (a shift : ℕ) : ℕ := (a + 2 ^ shift - 1) >>> shift

/-- Where the planes of an image begin in a buffer, and how far their rows are apart. -/
structure Arrays where
  base : ℕ → ℕ
  stride : ℕ → ℕ

/-- How many columns and rows a plane has; those after the first are of the colours. -/
def planeSize (f : PixelFormat) (width height p : ℕ) : ℕ × ℕ :=
  if p = 0 then (width, height)
  else (ceilRshift width f.log2Chroma.1, ceilRshift height f.log2Chroma.2)

def Arrays.plane (arrays : Arrays) (f : PixelFormat) (width height p : ℕ) : Raster where
  base := arrays.base p
  stride := arrays.stride p
  bytes := if f.planar then 1 else f.bytesPerPixel
  width := (planeSize f width height p).1
  height := (planeSize f width height p).2

/-- `FFALIGN` to 32 bytes, of a size that is not negative. -/
def align32 (n : ℕ) : ℕ := (n + 31) / 32 * 32

/-- The functions of FFmpeg that lay out an image in rows of multiples of 32 bytes, none where they
fail, and the one that copies rows. An image that is laid out has its first plane at the beginning
and its planes apart from each other and inside of the size that it takes, which is an `int`, what
is no wider and no higher takes no more, and whether an image is too large does not depend on which
side is its width. -/
structure AvImage where
  getBufferSize : PixelFormat → (width height : ℕ) → Option ℕ
  getLinesize : PixelFormat → (width : ℕ) → ℕ
  fillArrays : PixelFormat → (width height : ℕ) → Option Arrays
  copyPlane : (src : Plane) → (srcPos srcStride dstPos dstStride bytewidth height : ℕ) → Plane →
    Option Plane
  begins : ∀ f w h arrays, fillArrays f w h = some arrays → arrays.base 0 = 0
  fill : ∀ f w h, (fillArrays f w h).isSome = (getBufferSize f w h).isSome
  stride : ∀ f w h arrays, fillArrays f w h = some arrays →
    arrays.stride 0 = align32 (getLinesize f w)
  within : ∀ f w h size arrays, getBufferSize f w h = some size → fillArrays f w h = some arrays →
    ∀ p < f.planeCount, (arrays.plane f w h p).Within size
  size_lt : ∀ f w h size, getBufferSize f w h = some size → size < 2 ^ 31
  apart : ∀ f w h arrays, fillArrays f w h = some arrays → ∀ p < f.planeCount,
    ∀ q < f.planeCount, p ≠ q → ∀ i, (arrays.plane f w h p).Holds i →
      ¬ (arrays.plane f w h q).Holds i
  swap : ∀ f w h, (getBufferSize f w h).isSome = (getBufferSize f h w).isSome
  smaller : ∀ f w h w' h' size, getBufferSize f w h = some size → 0 < w' → w' ≤ w → 0 < h' →
    h' ≤ h → ∃ size' ≤ size, getBufferSize f w' h' = some size'
  copy : ∀ src srcPos srcStride dstPos dstStride bytewidth height dst,
    copyPlane src srcPos srcStride dstPos dstStride bytewidth height dst =
      (List.range height).foldlM (fun dst y ↦ dst.fill (dstPos + y * dstStride) bytewidth
        fun k ↦ src.read (srcPos + y * srcStride + k)) dst

/-- An image with its buffer, which has the size of the allocation. -/
structure Picture extends Shape where
  linesize : ℕ
  imagePixFormat : PixelFormat
  buffer : Plane
  holdBuffer : Bool

/-- The pixels of a plane one after the other, each to another place. -/
def copyPixels (src : Plane) (s d : Raster) (target : ℕ → ℕ → ℕ × ℕ) (dst : Plane) : Option Plane :=
  (List.range s.height).foldlM (fun dst sy ↦ (List.range s.width).foldlM (fun dst sx ↦
    dst.fill (d.place (target sx sy).1 (target sx sy).2 0) s.bytes fun b ↦
      src.read (s.place sx sy b)) dst) dst

def rotatePlane (angle : ℤ) (src : Plane) (s d : Raster) : Plane → Option Plane :=
  if angle = 90 then copyPixels src s d fun sx sy ↦ (s.height - 1 - sy, sx)
  else if angle = 180 then
    copyPixels src s d fun sx sy ↦ (s.width - 1 - sx, s.height - 1 - sy)
  else if angle = 270 then copyPixels src s d fun sx sy ↦ (sy, s.width - 1 - sx)
  else some

def flipPlane (leftright : Bool) (src : Plane) (s d : Raster) (dst : Plane) : Option Plane :=
  if leftright then copyPixels src s d (fun x y ↦ (s.width - 1 - x, y)) dst
  else (List.range s.height).foldlM (fun dst y ↦
    dst.fill (d.place 0 (s.height - 1 - y) 0) (s.width * s.bytes) fun k ↦
      src.read (s.place 0 y 0 + k)) dst

namespace Picture

variable (av : AvImage) (img : Picture)

def reshape (shape : Shape) (buffer : Plane) : Picture :=
  { img with
    toShape := shape, linesize := align32 (av.getLinesize shape.pixFormat shape.width)
    imagePixFormat := shape.pixFormat, buffer := buffer }

/-- An error leaves the image as it was. A buffer that is held is kept, and written over. -/
def assignDirect (shape : Shape) (newBuffer : Plane) : Picture :=
  if shape.height = 0 ∨ shape.width = 0 ∨ shape.pixFormat = .none then img
  else
    match av.getBufferSize shape.pixFormat shape.width shape.height with
    | none => img
    | some size =>
      if newBuffer.size < size then img
      else if img.holdBuffer then
        if img.buffer.size < size then img
        else img.reshape av shape ⟨fun i ↦ if i < size then newBuffer.content i
          else img.buffer.content i, img.buffer.size⟩
      else img.reshape av shape newBuffer

/-- The planes of an image, the first of which has the stride of its own rows. -/
def plane (arrays : Arrays) : ℕ → Raster :=
  { arrays with stride := Function.update arrays.stride 0 img.linesize : Arrays }.plane
    img.imagePixFormat img.width img.height

/-- What Rotate, Flip and Crop have in common: the planes are drawn into a new buffer, whatever was
in its memory, and the image takes that. False where FFmpeg has no layout. -/
def redraw (fresh : ℕ → UInt8) (newWidth newHeight : ℕ)
    (drawPlane : (p : ℕ) → (s d : Raster) → Plane → Option Plane) : Option (Bool × Picture) :=
  match av.getBufferSize img.imagePixFormat newWidth newHeight with
  | none => some (false, img)
  | some newSize =>
    match av.fillArrays img.imagePixFormat img.width img.height,
        av.fillArrays img.imagePixFormat newWidth newHeight with
    | some srcArrays, some dstArrays =>
      ((List.range img.imagePixFormat.planeCount).foldlM (fun newBuffer p ↦
        drawPlane p (img.plane srcArrays p)
          (dstArrays.plane img.imagePixFormat newWidth newHeight p) newBuffer)
        ⟨fresh, newSize⟩).map fun newBuffer ↦
          (true,
            img.assignDirect av ⟨newWidth, newHeight, img.colours, img.subpixelorder⟩ newBuffer)
    | _, _ => some (false, img)

def rotate (fresh : ℕ → UInt8) (angle : ℤ) : Option Picture :=
  let angle := angle.tmod 360
  if angle = 0 ∨ angle.tmod 90 ≠ 0 then some img
  else if (angle = 90 ∨ angle = 270) ∧
      (img.imagePixFormat = .yuv422p ∨ img.imagePixFormat = .yuvj422p) then some img
  else
    let newWidth := if angle = 180 then img.width else img.height
    let newHeight := if angle = 180 then img.height else img.width
    (img.redraw av fresh newWidth newHeight fun _ ↦ rotatePlane angle img.buffer).map Prod.snd

def flip (fresh : ℕ → UInt8) (leftright : Bool) : Option Picture :=
  (img.redraw av fresh img.width img.height fun _ ↦ flipPlane leftright img.buffer).map Prod.snd

/-- The rows of a plane from a place on. -/
def cropPlane (loX loY p : ℕ) (s d : Raster) : Plane → Option Plane :=
  let shiftW := if img.imagePixFormat.planar ∧ p ≠ 0 then img.imagePixFormat.log2Chroma.1 else 0
  let shiftH := if img.imagePixFormat.planar ∧ p ≠ 0 then img.imagePixFormat.log2Chroma.2 else 0
  av.copyPlane img.buffer (s.place (loX >>> shiftW) (loY >>> shiftH) 0) s.stride (d.place 0 0 0)
    d.stride (d.width * d.bytes) d.height

/-- The window of a planar image is moved back to where a sample of its colours begins. -/
def crop (fresh : ℕ → UInt8) (loX loY hiX hiY : ℕ) : Option (Bool × Picture) :=
  let newWidth := hiX - loX + 1
  let newHeight := hiY - loY + 1
  if loX > hiX ∨ loY > hiY then some (false, img)
  else if hiX > img.width - 1 ∨ hiY > img.height - 1 then some (false, img)
  else if newWidth = img.width ∧ newHeight = img.height then some (true, img)
  else
    let offX := if img.imagePixFormat.planar then loX % 2 ^ img.imagePixFormat.log2Chroma.1 else 0
    let offY := if img.imagePixFormat.planar then loY % 2 ^ img.imagePixFormat.log2Chroma.2 else 0
    img.redraw av fresh newWidth newHeight (img.cropPlane av (loX - offX) (loY - offY))

variable {av img}

/-- A buffer that is held and too small is kept as it is. -/
theorem assignDirect_of_held (shape : Shape) {size : ℕ}
    (hsize : av.getBufferSize shape.pixFormat shape.width shape.height = some size)
    (hhold : img.holdBuffer) (hsmall : img.buffer.size < size) (newBuffer : Plane) :
    img.assignDirect av shape newBuffer = img := by
  rw [assignDirect]
  simp only [hsize, hhold, if_true, if_pos hsmall, ite_self]

/-- A new buffer is taken, or copied into the one that is held. -/
theorem exists_assignDirect (shape : Shape) (hwidth : 0 < shape.width) (hheight : 0 < shape.height)
    (hformat : shape.pixFormat ≠ .none) {size : ℕ}
    (hsize : av.getBufferSize shape.pixFormat shape.width shape.height = some size)
    (hroom : img.holdBuffer → size ≤ img.buffer.size) {newBuffer : Plane}
    (hbuffer : newBuffer.size = size) :
    ∃ buffer : Plane, img.assignDirect av shape newBuffer = img.reshape av shape buffer ∧
      size ≤ buffer.size ∧ (buffer.size = if img.holdBuffer then img.buffer.size else size) ∧
      ∀ i < size, buffer.content i = newBuffer.content i := by
  have hvalid : ¬(shape.height = 0 ∨ shape.width = 0 ∨ shape.pixFormat = .none) := by
    rintro (hzero | hzero | hnone)
    · exact hheight.ne' hzero
    · exact hwidth.ne' hzero
    · exact hformat hnone
  rw [assignDirect, if_neg hvalid]
  simp only [hsize, if_neg hbuffer.not_lt]
  cases hhold : img.holdBuffer with
  | false => exact ⟨newBuffer, rfl, hbuffer.ge, hbuffer, fun _ _ ↦ rfl⟩
  | true =>
    simp only [if_true, if_neg (hroom hhold).not_gt]
    exact ⟨_, rfl, hroom hhold, rfl, fun i hi ↦ if_pos hi⟩

end Picture

section Planes

variable {src : Plane} {s d : Raster} {size : ℕ} {target source : ℕ → ℕ → ℕ × ℕ}

/-- The pixels of a plane, each from another place. -/
def pixelsOf (src : Plane) (s : Raster) (source : ℕ → ℕ → ℕ × ℕ) : Shade UInt8 :=
  fun x y ↦ some fun k ↦ src.content (s.place (source x y).1 (source x y).2 k)

/-- Two maps between the pixels of two planes that undo each other. -/
structure Inverse (s d : Raster) (target source : ℕ → ℕ → ℕ × ℕ) : Prop where
  there : ∀ x < s.width, ∀ y < s.height,
    ((target x y).1 < d.width ∧ (target x y).2 < d.height) ∧
      source (target x y).1 (target x y).2 = (x, y)
  back : ∀ x < d.width, ∀ y < d.height,
    ((source x y).1 < s.width ∧ (source x y).2 < s.height) ∧
      target (source x y).1 (source x y).2 = (x, y)

theorem copyPixels_draws (hs : s.Within src.size) (hd : d.Within size) (hbytes : d.bytes = s.bytes)
    (hinverse : Inverse s d target source) :
    d.Draws (copyPixels src s d target) size (pixelsOf src s source) := by
  have hpixel (sy : ℕ) (hsy : sy < s.height) (sx : ℕ) (hsx : sx < s.width) :
      d.Draws (fun dst ↦ dst.fill (d.place (target sx sy).1 (target sx sy).2 0) s.bytes
        fun b ↦ src.read (s.place sx sy b)) size fun x y ↦ if (source x y).1 = sx then
          if (source x y).2 = sy then pixelsOf src s source x y else none else none := by
    obtain ⟨⟨hx, hy⟩, hsource⟩ := hinverse.there sx hsx sy hsy
    rw [← hbytes]
    refine (Raster.Draws.plot (v := fun b ↦ src.content (s.place sx sy b)) hd hx hy
      fun b hb ↦ ?_).congr fun x hx y hy ↦ ?_
    · exact Cells.read_of_lt (hs.place_lt hsx hsy (hbytes ▸ hb))
    · by_cases hplace : x = (target sx sy).1 ∧ y = (target sx sy).2
      · obtain ⟨rfl, rfl⟩ := hplace
        rw [if_pos ⟨rfl, rfl⟩, hsource, if_pos rfl, if_pos rfl, pixelsOf, hsource]
      · have hback := (hinverse.back x hx y hy).2
        rw [if_neg hplace]
        split_ifs with hx' hy'
        · rw [hx', hy'] at hback
          exact absurd ⟨congrArg Prod.fst hback.symm, congrArg Prod.snd hback.symm⟩ hplace
        · rfl
        · rfl
  have hrow (sy : ℕ) (hsy : sy < s.height) :
      d.Draws (fun dst ↦ (List.range s.width).foldlM (fun dst sx ↦
        dst.fill (d.place (target sx sy).1 (target sx sy).2 0) s.bytes
          fun b ↦ src.read (s.place sx sy b)) dst) size fun x y ↦
        if (source x y).2 = sy then pixelsOf src s source x y else none := by
    have hloop := Raster.Draws.range (fun x y ↦ (source x y).1) (hpixel sy hsy)
    refine hloop.congr fun x hx y hy ↦ ?_
    rw [if_pos (hinverse.back x hx y hy).1.1]
  have hloop := Raster.Draws.range (fun x y ↦ (source x y).2) hrow
  refine hloop.congr fun x hx y hy ↦ ?_
  rw [if_pos (hinverse.back x hx y hy).1.2]

/-- Where the pixels of a plane come from that has been turned. -/
def rotateSource (angle : ℤ) (size : ℕ × ℕ) (x y : ℕ) : ℕ × ℕ :=
  if angle = 90 then (y, size.2 - 1 - x)
  else if angle = 180 then (size.1 - 1 - x, size.2 - 1 - y)
  else (size.1 - 1 - y, x)

def flipSource (leftright : Bool) (size : ℕ × ℕ) (x y : ℕ) : ℕ × ℕ :=
  if leftright then (size.1 - 1 - x, y) else (x, size.2 - 1 - y)

theorem rotatePlane_draws {angle : ℤ} (hs : s.Within src.size) (hd : d.Within size)
    (hbytes : d.bytes = s.bytes) (hangle : angle = 90 ∨ angle = 180 ∨ angle = 270)
    (hwidth : d.width = if angle = 180 then s.width else s.height)
    (hheight : d.height = if angle = 180 then s.height else s.width) :
    d.Draws (rotatePlane angle src s d) size
      (pixelsOf src s (rotateSource angle (s.width, s.height))) := by
  rcases hangle with rfl | rfl | rfl
  · have hsource : rotateSource 90 (s.width, s.height) = fun x y ↦ (y, s.height - 1 - x) := rfl
    rw [if_neg (by decide)] at hwidth hheight
    rw [hsource]
    exact copyPixels_draws hs hd hbytes (by constructor <;> intro x hx y hy <;> grind)
  · have hsource : rotateSource 180 (s.width, s.height) =
        fun x y ↦ (s.width - 1 - x, s.height - 1 - y) := rfl
    rw [if_pos rfl] at hwidth hheight
    rw [hsource]
    exact copyPixels_draws hs hd hbytes (by constructor <;> intro x hx y hy <;> grind)
  · have hsource : rotateSource 270 (s.width, s.height) = fun x y ↦ (s.width - 1 - y, x) := rfl
    rw [if_neg (by decide)] at hwidth hheight
    rw [hsource]
    exact copyPixels_draws hs hd hbytes (by constructor <;> intro x hx y hy <;> grind)

/-- A row that is copied as a whole, from a pixel of another plane on. -/
theorem copyRow_draws {x y y' : ℕ} (hs : s.Within src.size) (hd : d.Within size)
    (hbytes : d.bytes = s.bytes) (hx : x + d.width ≤ s.width) (hy : y < s.height)
    (hy' : y' < d.height) :
    d.Draws (fun dst ↦ dst.fill (d.place 0 y' 0) (d.width * d.bytes) fun k ↦
      src.read (s.place x y 0 + k)) size fun x'' y'' ↦
      if y'' = y' then some fun k ↦ src.content (s.place (x'' + x) y k) else none := by
  have hplace (k : ℕ) : s.place x y 0 + k = s.place 0 y 0 + (x * s.bytes + k) := by
    rw [Raster.place_eq s x y 0]
    omega
  have hend : (x + d.width) * s.bytes ≤ s.width * s.bytes := Nat.mul_le_mul_right _ hx
  have hrows := hs.rows y hy
  refine (Raster.Draws.row (v := fun k ↦ src.content (s.place x y 0 + k)) hd hy'
    fun k hk ↦ ?_).congr fun x'' _ y'' _ ↦ ?_
  · refine Cells.read_of_lt ?_
    rw [hbytes] at hk
    rw [Nat.add_mul] at hend
    rw [hplace, Raster.place]
    omega
  · split_ifs
    · refine congrArg some (funext fun k ↦ congrArg src.content ?_)
      rw [hplace, Raster.place_eq s (x'' + x), hbytes, Nat.add_mul]
      omega
    · rfl

theorem flipPlane_draws (leftright : Bool) (hs : s.Within src.size) (hd : d.Within size)
    (hbytes : d.bytes = s.bytes) (hwidth : d.width = s.width) (hheight : d.height = s.height) :
    d.Draws (flipPlane leftright src s d) size
      (pixelsOf src s (flipSource leftright (s.width, s.height))) := by
  cases leftright with
  | true =>
    have hsource : flipSource true (s.width, s.height) = fun x y ↦ (s.width - 1 - x, y) := rfl
    rw [hsource]
    exact copyPixels_draws hs hd hbytes (by constructor <;> intro x hx y hy <;> grind)
  | false =>
    have hrow (y : ℕ) (hy : y < s.height) : d.Draws (fun dst ↦
        dst.fill (d.place 0 (s.height - 1 - y) 0) (s.width * s.bytes) fun k ↦
          src.read (s.place 0 y 0 + k)) size fun x' y' ↦
        if s.height - 1 - y' = y then
          pixelsOf src s (flipSource false (s.width, s.height)) x' y' else none := by
      have hrow' : s.height - 1 - y < d.height := by omega
      have hcopy := copyRow_draws (x := 0) hs hd hbytes (by omega) hy hrow'
      rw [hwidth, hbytes] at hcopy
      refine hcopy.congr fun x' _ y' hy' ↦ ?_
      by_cases heq : y' = s.height - 1 - y
      · have hy'' : s.height - 1 - y' = y := by omega
        rw [if_pos heq, if_pos hy'', pixelsOf, flipSource, if_neg Bool.false_ne_true, hy'']
        rfl
      · rw [if_neg heq, if_neg (by omega)]
    refine (Raster.Draws.range (fun _ y ↦ s.height - 1 - y) hrow).congr fun x hx y hy ↦ ?_
    rw [if_pos (by omega)]

theorem copyPlane_draws (av : AvImage) {x y : ℕ} (hs : s.Within src.size) (hd : d.Within size)
    (hbytes : d.bytes = s.bytes) (hx : x + d.width ≤ s.width) (hy : y + d.height ≤ s.height) :
    d.Draws (av.copyPlane src (s.place x y 0) s.stride (d.place 0 0 0) d.stride
      (d.width * d.bytes) d.height) size (pixelsOf src s fun x' y' ↦ (x' + x, y' + y)) := by
  have hrow (y' : ℕ) (hy' : y' < d.height) : d.Draws (fun dst ↦
      dst.fill (d.place 0 0 0 + y' * d.stride) (d.width * d.bytes) fun k ↦
        src.read (s.place x y 0 + y' * s.stride + k)) size fun x'' y'' ↦
      if y'' = y' then pixelsOf src s (fun x' y' ↦ (x' + x, y' + y)) x'' y'' else none := by
    have hsrc : s.place x y 0 + y' * s.stride = s.place x (y' + y) 0 := by
      rw [Raster.place, Raster.place, Nat.add_mul]
      omega
    have hdst : d.place 0 0 0 + y' * d.stride = d.place 0 y' 0 := by
      rw [Raster.place, Raster.place]
      omega
    rw [hsrc, hdst]
    refine (copyRow_draws hs hd hbytes hx (by omega) hy').congr fun x'' _ y'' _ ↦ ?_
    split_ifs with heq
    · rw [heq]
      rfl
    · rfl
  refine ((Raster.Draws.range (fun _ y ↦ y) hrow).of_eq fun dst _ ↦ ?_).congr fun x' _ y' hy' ↦ ?_
  · exact av.copy ..
  · rw [if_pos hy']

end Planes

end ZoneMinder.Image
