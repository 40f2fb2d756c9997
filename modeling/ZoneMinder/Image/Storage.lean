import ZoneMinder.Lib.Blocks
import ZoneMinder.Lib.Run
import Mathlib.Algebra.Order.Ring.Int

namespace ZoneMinder.Image

open Lib

inductive PixelFormat
  | none | gray8 | yuv420p | yuvj420p | yuv422p | yuvj422p | rgb24 | bgr24 | rgba | bgra | argb
  | abgr
  deriving DecidableEq

/-- The numbers are `ZM_COLOUR_` and `ZM_SUBPIX_ORDER_`. -/
def zmPixformatFromColours (colours subpixelorder : ℕ) : PixelFormat :=
  if colours = 1 then
    if subpixelorder = 11 then .yuv420p
    else if subpixelorder = 12 then .yuvj420p
    else if subpixelorder = 13 then .yuv422p
    else if subpixelorder = 14 then .yuvj422p
    else .gray8
  else if colours = 3 then
    if subpixelorder = 5 then .bgr24 else .rgb24
  else if colours = 4 then
    if subpixelorder = 10 then .argb
    else if subpixelorder = 9 then .abgr
    else if subpixelorder = 7 then .bgra
    else .rgba
  else .none

def PixelFormat.planar : PixelFormat → Bool
  | .yuv420p | .yuvj420p | .yuv422p | .yuvj422p => true
  | _ => false

/-- `ZM_BUFTYPE_` -/
inductive BufType
  | dontFree | malloc | new | avMalloc | zm
  deriving DecidableEq

/-- `FFALIGN` to 32 bytes. -/
def ffalign (x : ℤ) : ℤ := (x + 31) / 32 * 32

/-- An int kept as an unsigned int. -/
def toUnsigned (x : ℤ) : ℕ := (x % 2 ^ 32).toNat

/-- The functions of FFmpeg that lay out an image, negative where they fail. `copied` is how far a
copy of the planes gets in an image that is aligned so. -/
structure Av where
  getBufferSize : PixelFormat → ℕ → ℕ → ℕ → ℤ
  getLinesize : PixelFormat → ℕ → ℤ
  fillArrays : PixelFormat → ℕ → ℕ → ℕ → ℤ
  copied : PixelFormat → ℕ → ℕ → ℕ → ℕ
  bufferSize_lt : ∀ f w h a, getBufferSize f w h a < 2 ^ 31
  linesize : ∀ f w h, 0 ≤ getBufferSize f w h 32 → 0 ≤ getLinesize f w
  rows : ∀ f w h, 0 ≤ getBufferSize f w h 32 →
    ffalign (getLinesize f w) * h ≤ getBufferSize f w h 32
  fill : ∀ f w h a, 0 ≤ getBufferSize f w h a → 0 ≤ fillArrays f w h a
  copied_le : ∀ f w h a, 0 ≤ getBufferSize f w h a → copied f w h a ≤ getBufferSize f w h a

/-- Memory whose blocks are owned by images, which have numbers. -/
abbrev Mem := Memory BufType ℕ

structure Shape where
  width : ℕ
  height : ℕ
  colours : ℕ
  subpixelorder : ℕ
  deriving DecidableEq

def Shape.pixFormat (shape : Shape) : PixelFormat :=
  zmPixformatFromColours shape.colours shape.subpixelorder

/-- Where a shape of more than one colour has no order, it is that of RGBA. -/
def Shape.defaulted (shape : Shape) : Shape :=
  if shape.subpixelorder = 0 ∧ 1 < shape.colours then { shape with subpixelorder := 8 } else shape

end Image

structure Image extends Image.Shape where
  linesize : ℕ
  pixels : ℕ
  padding : ℕ
  size : ℕ
  allocation : ℕ
  imagePixFormat : Image.PixelFormat
  buffer : Option ℕ
  bufferType : Image.BufType
  holdBuffer : Bool
  blendBuffer : Option ℕ
  blendBufferSize : ℕ
  deriving DecidableEq

namespace Image

/-- The functions that an image may have for blending. -/
inductive BlendFunction
  | stdBlend | stdFastblend | sse2Fastblend | neonFastblend
  deriving DecidableEq

/-- How many bytes of a buffer the rounds of a function come over; none where they go on without
end. -/
def BlendFunction.reach (count : ℕ) : BlendFunction → Option ℕ
  | .stdBlend => some count
  -- Rounds of 16 bytes, as long as there is one left.
  | .stdFastblend => some ((count + 15) / 16 * 16)
  -- Rounds of 16 bytes, until what is left is zero exactly.
  | .sse2Fastblend => if 0 < count ∧ count % 16 = 0 then some count else none
  | .neonFastblend => if 0 < count ∧ count % 64 = 0 then some count else none

/-- What a function touches of a buffer of a capacity. -/
def BlendFunction.extent (function : BlendFunction) (count capacity : ℕ) : ℕ :=
  (function.reach count).getD (capacity + 1)

/-- What an operation on an image leaves, and whether it reports an error. -/
structure Outcome where
  image : Image
  memory : Mem
  error : Bool := false

def dumpBuffer (m : Mem) (i : ℕ) : Option ℕ → BufType → Mem
  | none, _ | some _, .dontFree | some _, .avMalloc => m
  | some b, bufType => m.free i bufType b

section Operations

variable (av : Av) (m : Mem) (i : ℕ) (img image : Image)

def dumpImgBuffer : Image × Mem :=
  ({ img with bufferType := .dontFree, buffer := none, allocation := 0 },
    dumpBuffer m i img.buffer img.bufferType)

/-- The number of the new block is the next one. -/
def allocImgBuffer (size : ℕ) : Image × Mem :=
  let (img, m) := if img.buffer.isSome then dumpImgBuffer m i img else (img, m)
  ({ img with buffer := some m.next, bufferType := .zm, allocation := size },
    m.add ⟨size, .zm, .owner i⟩)

/-- The image as it takes a shape of a size and a stride. -/
def reshape (shape : Shape) (linesize size : ℕ) : Image :=
  { img with
    toShape := shape, linesize := linesize, size := size
    pixels := shape.width * shape.height % 2 ^ 32, imagePixFormat := shape.pixFormat }

/-- What the constructors begin with. -/
def blank (shape : Shape) (padding : ℕ) : Image where
  toShape := shape.defaulted
  linesize := 0
  pixels := shape.width * shape.height % 2 ^ 32
  padding := padding
  size := 0
  allocation := 0
  imagePixFormat := shape.defaulted.pixFormat
  buffer := none
  bufferType := .dontFree
  holdBuffer := false
  blendBuffer := none
  blendBufferSize := 0

/-- An image over a buffer that it borrows. -/
def borrow (b allocation : ℕ) : Image :=
  { img with buffer := some b, bufferType := .dontFree, allocation := allocation }

/-- The constructor that is told how much memory there is. -/
def constructAllocated (shape : Shape) (buffer : Option ℕ) (allocation padding : ℕ) :
    Image × Mem :=
  let img := blank shape padding
  let img := { img with
    linesize := toUnsigned (ffalign (av.getLinesize img.imagePixFormat shape.width))
    size := toUnsigned (av.getBufferSize img.imagePixFormat shape.width shape.height 32) }
  match buffer with
  | some b => (img.borrow b (if allocation = 0 then img.size else allocation), m)
  | none => allocImgBuffer m i img img.size

def construct (shape : Shape) (buffer : Option ℕ) (padding : ℕ) : Image × Mem :=
  let img := blank shape padding
  match buffer with
  | some b =>
    let linesize := shape.width * shape.colours % 2 ^ 32
    let size := (linesize * shape.height + padding) % 2 ^ 32
    (({ img with linesize := linesize, size := size } : Image).borrow b size, m)
  | none =>
    let img := { img with
      linesize := toUnsigned (ffalign (av.getLinesize img.imagePixFormat shape.width))
      size := toUnsigned (av.getBufferSize img.imagePixFormat shape.width shape.height 32) }
    allocImgBuffer m i img img.size

/-- The constructor that is told the stride of the rows. -/
def constructStrided (shape : Shape) (linesize : ℕ) (buffer : Option ℕ) (padding : ℕ) :
    Image × Mem :=
  let img := { blank shape padding with
    linesize := linesize, size := (linesize * shape.height + padding) % 2 ^ 32 }
  match buffer with
  | some b => (img.borrow b img.size, m)
  | none => allocImgBuffer m i img img.size

/-- The constructor from another image. -/
def copyConstruct : Image × Mem :=
  let img := { image with
    padding := 0, buffer := none, bufferType := .dontFree, allocation := 0, holdBuffer := false
    blendBuffer := none, blendBufferSize := 0 }
  let (img, m) := allocImgBuffer m i img img.size
  (img, (m.touch image.buffer image.size).touch img.buffer image.size)

def destroy : Mem :=
  let (img, m) := dumpImgBuffer m i img
  dumpBuffer m i img.blendBuffer .zm

def writeBuffer (shape : Shape) : Outcome :=
  if shape.pixFormat = .none ∨ ¬(0 < shape.height ∧ 0 < shape.width) then ⟨img, m, true⟩
  else if shape ≠ img.toShape then
    let size := av.getBufferSize shape.pixFormat shape.width shape.height 32
    let linesize := ffalign (av.getLinesize shape.pixFormat shape.width)
    if size < 0 ∨ linesize < 0 then ⟨img, m, true⟩
    else if img.buffer.isNone then
      let (img, m) := allocImgBuffer m i img size.toNat
      ⟨img.reshape shape linesize.toNat size.toNat, m, false⟩
    else if img.allocation < size.toNat then
      if img.holdBuffer then ⟨img, m, true⟩
      else
        let (img, m) := allocImgBuffer m i img size.toNat
        ⟨img.reshape shape linesize.toNat size.toNat, m, false⟩
    else ⟨img.reshape shape linesize.toNat size.toNat, m, false⟩
  else ⟨img, m, false⟩

/-- A buffer that the image is to free is handed over with it. -/
def assignDirect (shape : Shape) (newBuffer : Option ℕ) (bufferSize : ℕ) (bufType : BufType) :
    Outcome :=
  match newBuffer with
  | none => ⟨img, m, true⟩
  | some b =>
    if shape.height = 0 ∨ shape.width = 0 ∨ shape.pixFormat = .none then ⟨img, m, true⟩
    else
      let size := av.getBufferSize shape.pixFormat shape.width shape.height 32
      let linesize := ffalign (av.getLinesize shape.pixFormat shape.width)
      if size < 0 ∨ linesize < 0 ∨ bufferSize < size.toNat then ⟨img, m, true⟩
      else if img.holdBuffer ∧ img.buffer.isSome then
        if img.allocation < size.toNat then ⟨img, m, true⟩
        else
          let m :=
            if some b ≠ img.buffer then (m.touch (some b) size.toNat).touch img.buffer size.toNat
            else m
          let m := if bufType = .dontFree then m else m.give i b
          ⟨img.reshape shape linesize.toNat size.toNat, dumpBuffer m i (some b) bufType, false⟩
      else
        let (img, m) := dumpImgBuffer m i img
        let m := if bufType = .dontFree then m else m.give i b
        let img := { img with buffer := some b, bufferType := bufType, allocation := bufferSize }
        ⟨img.reshape shape linesize.toNat size.toNat, m, false⟩

/-- The copy of the planes of a packed buffer into the image. -/
def copyPlanes (shape : Shape) (b : ℕ) : Outcome :=
  if some b ≠ img.buffer then
    if av.fillArrays shape.pixFormat shape.width shape.height 1 < 0 ∨
        av.fillArrays shape.pixFormat shape.width shape.height 32 < 0 then ⟨img, m, true⟩
    else
      let m := m.touch (some b) (av.copied shape.pixFormat shape.width shape.height 1)
      ⟨img, m.touch img.buffer (av.copied shape.pixFormat shape.width shape.height 32), false⟩
  else ⟨img, m, false⟩

def assignBuffer (shape : Shape) (newBuffer : Option ℕ) (bufferSize : ℕ) : Outcome :=
  match newBuffer with
  | none => ⟨img, m, true⟩
  | some b =>
    if shape.height = 0 ∨ shape.width = 0 ∨ shape.pixFormat = .none then ⟨img, m, true⟩
    else
      let packed := av.getBufferSize shape.pixFormat shape.width shape.height 1
      let size := av.getBufferSize shape.pixFormat shape.width shape.height 32
      let linesize := toUnsigned (ffalign (av.getLinesize shape.pixFormat shape.width))
      if packed < 0 ∨ size < 0 ∨ bufferSize < packed.toNat then ⟨img, m, true⟩
      else if img.buffer.isNone ∨ shape ≠ img.toShape then
        if img.holdBuffer ∧ img.buffer.isSome then
          if img.allocation < size.toNat then ⟨img, m, true⟩
          else copyPlanes av m (img.reshape shape linesize size.toNat) shape b
        else if img.allocation < size.toNat ∨ img.buffer.isNone then
          let (img, m) := dumpImgBuffer m i img
          let (img, m) := allocImgBuffer m i img size.toNat
          copyPlanes av m (img.reshape shape linesize size.toNat) shape b
        else copyPlanes av m (img.reshape shape linesize size.toNat) shape b
      else copyPlanes av m img shape b

/-- How far a copy row by row gets, with the stride of the image that it walks. -/
def rowsExtent (height stride bytes : ℕ) : ℕ :=
  if height = 0 then 0 else (height - 1) * stride + bytes

/-- The copy of the pixels of another image. -/
def copyImage : Outcome :=
  if image.buffer ≠ img.buffer then
    if image.linesize ≠ img.linesize then
      if image.imagePixFormat.planar then ⟨img, m, true⟩
      else
        let bytes := min image.linesize img.linesize
        let m := m.touch image.buffer (rowsExtent image.height image.linesize bytes)
        ⟨img, m.touch img.buffer (rowsExtent image.height img.linesize bytes), false⟩
    else ⟨img, (m.touch image.buffer img.size).touch img.buffer img.size, false⟩
  else ⟨img, m, false⟩

/-- The shape and the layout of another image. -/
def takeLayout : Image :=
  { img with
    toShape := image.toShape, linesize := image.linesize, size := image.size
    pixels := image.width * image.height % 2 ^ 32, imagePixFormat := image.imagePixFormat }

def assign : Outcome :=
  if image.buffer.isNone ∨ image.imagePixFormat = .none then ⟨img, m, true⟩
  else if img.buffer.isNone ∨ image.toShape ≠ img.toShape then
    if img.holdBuffer ∧ img.buffer.isSome then
      if img.allocation < image.size then ⟨img, m, true⟩
      else copyImage m (img.takeLayout image) image
    else if img.allocation < image.size ∨ img.buffer.isNone then
      let (img, m) := allocImgBuffer m i img image.size
      copyImage m (img.takeLayout image) image
    else copyImage m (img.takeLayout image) image
  else copyImage m img image

/-- The second buffer, where it is too small for a blend. -/
def growBlendBuffer : Image × Mem :=
  if img.blendBufferSize < img.size then
    let m := dumpBuffer m i img.blendBuffer .zm
    ({ img with blendBuffer := some m.next, blendBufferSize := img.size },
      m.add ⟨img.size, .zm, .owner i⟩)
  else (img, m)

def blend (function : BlendFunction) (transparency : ℤ) : Outcome :=
  if img.toShape ≠ image.toShape then ⟨img, m, true⟩
  else if transparency ≤ 0 then ⟨img, m, false⟩
  else
    let (img, m) := growBlendBuffer m i img
    let m := m.touch img.buffer (function.extent img.size (m.capacity img.buffer))
    let m := m.touch image.buffer (function.extent img.size (m.capacity image.buffer))
    let m := m.touch img.blendBuffer (function.extent img.size (m.capacity img.blendBuffer))
    if img.holdBuffer then
      ⟨img, (m.touch img.blendBuffer img.size).touch img.buffer img.size, false⟩
    else
      let img := { img with buffer := img.blendBuffer, blendBuffer := img.buffer, bufferType := .zm }
      ⟨img, m, false⟩

end Operations

/-- Images, numbered as they come, and the memory that they share with the callers. -/
structure State where
  images : List (Option Image)
  memory : Mem
  error : Bool := false

inductive Op
  /-- A caller gets itself memory. -/
  | obtain (capacity : ℕ) (bufType : BufType)
  | constructAllocated (shape : Shape) (buffer : Option ℕ) (allocation padding : ℕ)
  | construct (shape : Shape) (buffer : Option ℕ) (padding : ℕ)
  | constructStrided (shape : Shape) (linesize : ℕ) (buffer : Option ℕ) (padding : ℕ)
  | copyConstruct (j : ℕ)
  | destroy (i : ℕ)
  | holdBuffer (i : ℕ) (tohold : Bool)
  | writeBuffer (i : ℕ) (shape : Shape)
  | assignDirect (i : ℕ) (shape : Shape) (newBuffer : Option ℕ) (bufferSize : ℕ) (bufType : BufType)
  | assignBuffer (i : ℕ) (shape : Shape) (newBuffer : Option ℕ) (bufferSize : ℕ)
  | assign (i j : ℕ)
  /-- With the function that the image has at the time. -/
  | blend (i j : ℕ) (function : BlendFunction) (transparency : ℤ)

/-- No image, and no memory yet. -/
def State.empty : State where
  images := []
  memory := ⟨fun _ ↦ ⟨0, .dontFree, .gone⟩, 0, []⟩

def State.image (s : State) (i : ℕ) : Option Image := s.images.getD i none

/-- The number of the next image. -/
def State.number (s : State) : ℕ := s.images.length

def State.make (s : State) (r : Image × Mem) : State :=
  ⟨s.images ++ [some r.1], r.2, false⟩

def State.leave (s : State) (i : ℕ) (r : Outcome) : State :=
  ⟨s.images.set i (some r.image), r.memory, r.error⟩

def step (av : Av) (s : State) : Op → Option State
  | .obtain capacity bufType =>
    some { s with memory := s.memory.add ⟨capacity, bufType, .caller⟩, error := false }
  | .constructAllocated shape buffer allocation padding =>
    some (s.make (constructAllocated av s.memory s.number shape buffer allocation padding))
  | .construct shape buffer padding =>
    some (s.make (construct av s.memory s.number shape buffer padding))
  | .constructStrided shape linesize buffer padding =>
    some (s.make (constructStrided s.memory s.number shape linesize buffer padding))
  | .copyConstruct j => do
    let image ← s.image j
    return s.make (copyConstruct s.memory s.number image)
  | .destroy i => do
    let img ← s.image i
    return ⟨s.images.set i none, destroy s.memory i img, false⟩
  | .holdBuffer i tohold => do
    let img ← s.image i
    return s.leave i ⟨{ img with holdBuffer := tohold }, s.memory, false⟩
  | .writeBuffer i shape => do
    let img ← s.image i
    return s.leave i (writeBuffer av s.memory i img shape)
  | .assignDirect i shape newBuffer bufferSize bufType => do
    let img ← s.image i
    return s.leave i (assignDirect av s.memory i img shape newBuffer bufferSize bufType)
  | .assignBuffer i shape newBuffer bufferSize => do
    let img ← s.image i
    return s.leave i (assignBuffer av s.memory i img shape newBuffer bufferSize)
  | .assign i j => do
    let img ← s.image i
    let image ← s.image j
    return s.leave i (assign s.memory i img image)
  | .blend i j function transparency => do
    let img ← s.image i
    let image ← s.image j
    return s.leave i (blend s.memory i img image function transparency)

end Image

end ZoneMinder
