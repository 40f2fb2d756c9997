import ZoneMinder.Image.DeltaRows
import ZoneMinder.Image.GeometryLaws

namespace ZoneMinder.Image

open Lib

/-- A pixel over another: where one of some bytes of it marks it, bytes of the other become bytes of
it. -/
def overPixel (src : Plane) (marks : List ℕ) (first count : ℕ) (value : ℕ → ℕ) (psrc pdest : ℕ)
    (dst : Plane) : Option Plane :=
  (marks.anyM fun k ↦ (src.read (psrc + k)).map (· ≠ 0)).bind fun marked ↦
    if marked then dst.fill (pdest + first) count fun k ↦ src.read (psrc + value k) else some dst

def lumaOverLuma (src : Plane) : (psrc pdest : ℕ) → Plane → Option Plane :=
  overPixel src [0] 0 1 id

def rgb24OverRgb24 (src : Plane) : (psrc pdest : ℕ) → Plane → Option Plane :=
  overPixel src [0, 1, 2] 0 3 id

def rgb32OverRgb32 (alphaLast : Bool) (src : Plane) : (psrc pdest : ℕ) → Plane → Option Plane :=
  overPixel src (if alphaLast then [0, 1, 2] else [3, 2, 1]) 0 4 id

def lumaOverRgb24 (src : Plane) : (psrc pdest : ℕ) → Plane → Option Plane :=
  overPixel src [0] 0 3 fun _ ↦ 0

/-- Where the alpha is last only the first byte is written. -/
def lumaOverRgb32 (alphaLast : Bool) (src : Plane) : (psrc pdest : ℕ) → Plane → Option Plane :=
  if alphaLast then overPixel src [0] 0 1 fun _ ↦ 0 else overPixel src [0] 1 3 fun _ ↦ 0

def packRgb (r g b : UInt8) : UInt32 := r.toUInt32 ||| g.toUInt32 <<< 8 ||| b.toUInt32 <<< 16

/-- The sample of the colours that a pixel shares with others is written for each of them. -/
def rgbOverYuv420 (brgToYuv : UInt32 → UInt32) (src : Plane) (offsets : ℕ × ℕ × ℕ)
    (d : ℕ → Raster) (psrc x y : ℕ) (dst : Plane) : Option Plane := do
  let r ← src.read (psrc + offsets.1)
  let g ← src.read (psrc + offsets.2.1)
  let b ← src.read (psrc + offsets.2.2)
  if r ≠ 0 ∨ g ≠ 0 ∨ b ≠ 0 then
    let yuv := brgToYuv (packRgb r g b)
    let dst ← dst.write ((d 0).place x y 0) (byteOf yuv 2)
    let dst ← dst.write ((d 1).place (x / 2) (y / 2) 0) (byteOf yuv 1)
    dst.write ((d 2).place (x / 2) (y / 2) 0) (byteOf yuv 0)
  else some dst

/-- Whether one of the pixels that share a sample of the colours is marked. -/
def blockMarked (src : Plane) (s : Raster) (width height cx cy : ℕ) : Option Bool :=
  [0, 1].anyM fun dy ↦
    if cy * 2 + dy < height then
      [0, 1].anyM fun dx ↦
        if cx * 2 + dx < width then
          (src.read (s.place (cx * 2 + dx) (cy * 2 + dy) 0)).map (· ≠ 0)
        else some false
    else some false

def chromaOverChroma (src : Plane) (s d : ℕ → Raster) (width height cx cy : ℕ) (dst : Plane) :
    Option Plane :=
  (blockMarked src (s 0) width height cx cy).bind fun marked ↦
    if marked then do
      let u ← src.read ((s 1).place cx cy 0)
      let dst ← dst.write ((d 1).place cx cy 0) u
      let v ← src.read ((s 2).place cx cy 0)
      dst.write ((d 2).place cx cy 0) v
    else some dst

def yuv420OverYuv420 (src : Plane) (s d : ℕ → Raster) (width height : ℕ) (dst : Plane) :
    Option Plane := do
  let dst ← Raster.eachPixel width height (fun x y ↦
    lumaOverLuma src ((s 0).place x y 0) ((d 0).place x y 0)) dst
  Raster.eachPixel ((width + 1) / 2) ((height + 1) / 2)
    (chromaOverChroma src s d width height) dst

/-- A pixel of four bytes, the least significant first, with a grey in three of them. -/
def greyPixel (alphaFirst : Bool) (subpixel : UInt8) : UInt32 :=
  let newpixel := subpixel.toUInt32
  let newpixel := newpixel <<< 8 ||| subpixel.toUInt32
  let newpixel := newpixel <<< 8 ||| subpixel.toUInt32
  if alphaFirst then newpixel <<< 8 else newpixel

namespace Picture

variable (av : AvImage) (brgToYuv : UInt32 → UInt32) (fresh : ℕ → UInt8) (img : Picture)

/-- The rows of an image, of pixels of so many bytes. -/
def rows (bytes : ℕ) : Raster := ⟨0, img.linesize, bytes, img.width, img.height⟩

/-- The pixels of a new buffer, each from the grey at its place. -/
def fillGrey (fmt : PixelFormat) (pixel : UInt8 → ℕ → UInt8) (newSize : ℕ) : Option Plane :=
  let dst : Raster :=
    ⟨0, align32 (av.getLinesize fmt img.width), fmt.bytesPerPixel, img.width, img.height⟩
  Raster.eachPixel img.width img.height (fun x y newBuffer ↦
    newBuffer.fill (dst.place x y 0) dst.bytes fun k ↦
      (img.buffer.read ((img.rows 1).place x y 0)).map (pixel · k)) ⟨fresh, newSize⟩

/-- Errors and warnings leave the image as it was. -/
def colourise (reqColours reqSubpixelorder : ℕ) : Option Picture :=
  let reqPixfmt := zmPixformatFromColours reqColours reqSubpixelorder
  if img.imagePixFormat ≠ .gray8 then some img
  else
    match av.getBufferSize reqPixfmt img.width img.height with
    | none => some img
    | some newSize =>
      let assign := fun newBuffer ↦
        img.assignDirect av ⟨img.width, img.height, reqColours, reqSubpixelorder⟩ newBuffer
      if reqPixfmt.isRgb32 then
        (img.fillGrey av fresh reqPixfmt (fun v k ↦
          byteOf (greyPixel (reqPixfmt = .abgr || reqPixfmt = .argb) v) (UInt32.ofNat k))
          newSize).map assign
      else if reqPixfmt.isRgb24 then
        (img.fillGrey av fresh reqPixfmt (fun v _ ↦ v) newSize).map assign
      else some img

/-- The pixels of an image over those of another, row by row. -/
def overRows (image : Picture) (srcBytes dstBytes : ℕ)
    (body : (psrc pdest : ℕ) → Plane → Option Plane) : Option Picture :=
  (Raster.eachPixel img.width img.height (fun x y ↦
    body ((image.rows srcBytes).place x y 0) ((img.rows dstBytes).place x y 0)) img.buffer).map
      fun buffer ↦ { img with buffer := buffer }

/-- None where there is a panic, or memory outside of the buffers is read or written. The pairs that
an error is logged for leave the image as it was. -/
def overlay (image : Picture) : Option Picture :=
  let alphaLast := fun fmt : PixelFormat ↦ fmt = .rgba || fmt = .bgra
  if ¬(img.width = image.width ∧ img.height = image.height) then none
  else if img.imagePixFormat.isYuv420 ∧ image.imagePixFormat.isYuv420 then
    match av.fillArrays img.imagePixFormat img.width img.height,
        av.fillArrays image.imagePixFormat img.width img.height with
    | some d, some s =>
      (yuv420OverYuv420 image.buffer (s.plane image.imagePixFormat img.width img.height)
        (d.plane img.imagePixFormat img.width img.height) img.width img.height img.buffer).map
          fun buffer ↦ { img with buffer := buffer }
    | _, _ => some img
  else if img.imagePixFormat.bytesPerPixel = 1 ∧ image.imagePixFormat.bytesPerPixel = 1 then
    img.overRows image 1 1 (lumaOverLuma image.buffer)
  else if img.imagePixFormat = .gray8 ∧ image.imagePixFormat.isRgb24 then
    (img.colourise av fresh image.colours image.subpixelorder).bind fun img ↦
      img.overRows image 3 3 (rgb24OverRgb24 image.buffer)
  else if img.imagePixFormat = .gray8 ∧ image.imagePixFormat.isRgb32 then
    (img.colourise av fresh image.colours image.subpixelorder).bind fun img ↦
      img.overRows image 4 4 (rgb32OverRgb32 (alphaLast img.imagePixFormat) image.buffer)
  else if img.imagePixFormat.isYuv420 ∧
      (image.imagePixFormat.isRgb24 ∨ image.imagePixFormat.isRgb32) then
    match av.fillArrays img.imagePixFormat img.width img.height with
    | some d =>
      (Raster.eachPixel img.width img.height (fun x y ↦
        rgbOverYuv420 brgToYuv image.buffer image.imagePixFormat.channels
          (d.plane img.imagePixFormat img.width img.height)
          ((image.rows image.imagePixFormat.bytesPerPixel).place x y 0) x y) img.buffer).map
            fun buffer ↦ { img with buffer := buffer }
    | none => some img
  else if img.imagePixFormat.isRgb24 ∧ image.imagePixFormat.bytesPerPixel = 1 then
    img.overRows image 1 3 (lumaOverRgb24 image.buffer)
  else if img.imagePixFormat.isRgb24 ∧ image.imagePixFormat.isRgb24 then
    img.overRows image 3 3 (rgb24OverRgb24 image.buffer)
  else if img.imagePixFormat.isRgb24 ∧ image.imagePixFormat.isRgb32 then some img
  else if img.imagePixFormat.isRgb32 ∧ image.imagePixFormat.bytesPerPixel = 1 then
    img.overRows image 1 4 (lumaOverRgb32 (alphaLast img.imagePixFormat) image.buffer)
  else if img.imagePixFormat.isRgb32 ∧ image.imagePixFormat.isRgb24 then some img
  else if img.imagePixFormat.isRgb32 ∧ image.imagePixFormat.isRgb32 then
    img.overRows image 4 4 (rgb32OverRgb32 (alphaLast image.imagePixFormat) image.buffer)
  else some img

/-- What a pixel shows: its luma, or the values of its three colours. -/
inductive Colour
  | luma (v : UInt8)
  | rgb (r g b : UInt8)
  deriving DecidableEq

/-- The colour as a format shows it: a grey has three colours alike, and the luma of three colours
is what they convert into. -/
def Colour.shown (brgToYuv : UInt32 → UInt32) (f : PixelFormat) : Colour → Colour
  | .luma v => if f.bytesPerPixel = 1 then .luma v else .rgb v v v
  | .rgb r g b =>
    if f.bytesPerPixel = 1 then .luma (byteOf (brgToYuv (packRgb r g b)) 2) else .rgb r g b

def byte (x y k : ℕ) : UInt8 :=
  img.buffer.content ((img.rows img.imagePixFormat.bytesPerPixel).place x y k)

/-- The three colours of a pixel, read in the order of a format. -/
def rgbAs (f : PixelFormat) (x y : ℕ) : Colour :=
  .rgb (img.byte x y f.channels.1) (img.byte x y f.channels.2.1) (img.byte x y f.channels.2.2)

def colour (x y : ℕ) : Colour :=
  if img.imagePixFormat.bytesPerPixel = 1 then .luma (img.byte x y 0)
  else img.rgbAs img.imagePixFormat x y

/-- The pixel is not transparent: it has a luma, or one of the three colours. -/
def Marked (x y : ℕ) : Prop := img.colour x y ≠ .luma 0 ∧ img.colour x y ≠ .rgb 0 0 0

instance (x y : ℕ) : Decidable (img.Marked x y) := inferInstanceAs (Decidable (_ ∧ _))

/-- The two samples of the colours at a place of their planes. -/
def sample (cx cy : ℕ) : UInt8 × UInt8 :=
  match av.fillArrays img.imagePixFormat img.width img.height with
  | some arrays =>
    let plane := arrays.plane img.imagePixFormat img.width img.height
    (img.buffer.content ((plane 1).place cx cy 0), img.buffer.content ((plane 2).place cx cy 0))
  | none => (0, 0)

/-- The chroma of a pixel: what is sampled for it, or what its three colours convert into. That of a
grey image is whatever greys are taken to have, if any. -/
def chroma (grey : Option (UInt8 × UInt8)) (x y : ℕ) : Option (UInt8 × UInt8) :=
  if img.imagePixFormat.planar then
    some (img.sample av (x / 2 ^ img.imagePixFormat.log2Chroma.1)
      (y / 2 ^ img.imagePixFormat.log2Chroma.2))
  else
    match img.colour x y with
    | .luma _ => grey
    | .rgb r g b =>
      some (byteOf (brgToYuv (packRgb r g b)) 1, byteOf (brgToYuv (packRgb r g b)) 0)

/-- A marked pixel that shares a sample of the colours. -/
def MarkedIn (cx cy x y : ℕ) : Prop :=
  (x < img.width ∧ y < img.height) ∧ (x / 2 = cx ∧ y / 2 = cy) ∧ img.Marked x y

/-- The marked pixels of an image are shown, and nothing else is changed. -/
structure Overlaid (grey : Option (UInt8 × UInt8)) (image result : Picture) : Prop where
  width : result.width = img.width
  height : result.height = img.height
  imagePixFormat : result.imagePixFormat =
    if img.imagePixFormat = .gray8 ∧ image.imagePixFormat.bytesPerPixel ≠ 1 then
      image.imagePixFormat
    else img.imagePixFormat
  kept : ∀ x < img.width, ∀ y < img.height, ¬ image.Marked x y →
    result.colour x y = (img.colour x y).shown brgToYuv result.imagePixFormat
  shown : ∀ x < img.width, ∀ y < img.height, image.Marked x y →
    result.colour x y = (image.colour x y).shown brgToYuv result.imagePixFormat
  chroma_kept : img.imagePixFormat.isYuv420 → ∀ cx < (img.width + 1) / 2,
    ∀ cy < (img.height + 1) / 2, (∀ x y, ¬ image.MarkedIn cx cy x y) →
      result.sample av cx cy = img.sample av cx cy
  chroma_shown : img.imagePixFormat.isYuv420 → ∀ cx < (img.width + 1) / 2,
    ∀ cy < (img.height + 1) / 2, (∃ x y, image.MarkedIn cx cy x y) →
      ∃ x y, image.MarkedIn cx cy x y ∧
        ∀ c, image.chroma av brgToYuv grey x y = some c → result.sample av cx cy = c

/-- When an image is shown as it should be: the orders of the bytes of two RGB images agree on the
marked pixels, a grey over RGBA or BGRA finds the two bytes that are not written as they should be,
a grey image has room for the format it is turned into, and where only the luma is written the
chroma is right already. -/
structure Suits (grey : Option (UInt8 × UInt8)) (image : Picture) : Prop where
  orders : img.imagePixFormat.isRgb24 ∧ image.imagePixFormat.isRgb24 ∨
      img.imagePixFormat.isRgb32 ∧ image.imagePixFormat.isRgb32 →
    ∀ x < img.width, ∀ y < img.height, image.Marked x y →
      image.rgbAs img.imagePixFormat x y = image.rgbAs image.imagePixFormat x y
  alphaLast : img.imagePixFormat = .rgba ∨ img.imagePixFormat = .bgra →
    image.imagePixFormat.bytesPerPixel = 1 →
    ∀ x < img.width, ∀ y < img.height, image.Marked x y →
      img.byte x y 1 = image.byte x y 0 ∧ img.byte x y 2 = image.byte x y 0
  room : img.imagePixFormat = .gray8 → image.imagePixFormat.bytesPerPixel ≠ 1 →
    ∃ size, av.getBufferSize image.imagePixFormat img.width img.height = some size ∧
      (img.holdBuffer → size ≤ img.buffer.size)
  chroma : img.imagePixFormat.isYuv420 → image.imagePixFormat.bytesPerPixel = 1 →
    ¬ image.imagePixFormat.isYuv420 → ∀ cx < (img.width + 1) / 2, ∀ cy < (img.height + 1) / 2,
      (∃ x y, image.MarkedIn cx cy x y) → ∃ x y, image.MarkedIn cx cy x y ∧
        ∀ c, image.chroma av brgToYuv grey x y = some c → img.sample av cx cy = c

/-- An image of a supported format whose rows are inside of its buffer, whose size is of 32 bits. -/
structure Stored : Prop where
  format : img.imagePixFormat = img.pixFormat
  supported : img.imagePixFormat ≠ .none
  width_pos : 0 < img.width
  height_pos : 0 < img.height
  size_lt : img.buffer.size < 2 ^ 32
  within : (img.rows img.imagePixFormat.bytesPerPixel).Within img.buffer.size

/-- The planes of an image are where FFmpeg has them, the first with rows of the image's own. -/
structure Layered : Prop where
  linesize : img.linesize = align32 (av.getLinesize img.imagePixFormat img.width)
  planes : ∃ arrays, av.fillArrays img.imagePixFormat img.width img.height = some arrays ∧
    ∀ p < 3, (arrays.plane img.imagePixFormat img.width img.height p).Within img.buffer.size

end Picture

end ZoneMinder.Image
