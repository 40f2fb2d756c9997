import Mathlib.Tactic.Ring
import ZoneMinder.Image.Storage
import ZoneMinder.Lib.Cells

namespace ZoneMinder.Image

open Lib

abbrev Plane := Cells UInt8

/-- `zm_bytes_per_pixel` -/
def PixelFormat.bytesPerPixel : PixelFormat → ℕ
  | .none => 0
  | .gray8 | .yuv420p | .yuvj420p | .yuv422p | .yuvj422p => 1
  | .rgb24 | .bgr24 => 3
  | .rgba | .bgra | .argb | .abgr => 4

def absDiff (a b : UInt8) : ℕ := ((a.toNat : ℤ) - b.toNat).natAbs

def weigh (r g b : ℕ) : UInt8 := UInt8.ofNat ((r + r + b + g + g + g + g + g) >>> 3)

def deltaGray (col1 col2 : Plane) (p1 p2 : ℕ) : Option UInt8 := do
  let a ← col1.read p1
  let b ← col2.read p2
  some (UInt8.ofNat (absDiff a b))

/-- The pixel at two places, with its red, green and blue so many bytes into it. -/
def deltaColour (red green blue : ℕ) (col1 col2 : Plane) (p1 p2 : ℕ) : Option UInt8 := do
  let r1 ← col1.read (p1 + red)
  let r2 ← col2.read (p2 + red)
  let g1 ← col1.read (p1 + green)
  let g2 ← col2.read (p2 + green)
  let b1 ← col1.read (p1 + blue)
  let b2 ← col2.read (p2 + blue)
  some (weigh (absDiff r1 r2) (absDiff g1 g2) (absDiff b1 b2))

/-- The loop of the helpers, `n` pixels a round. -/
def unrolled (pixel : ℕ → ℕ → Option UInt8) (stride n : ℕ) (hn : 0 < n) (maxPtr p1 p2 result : ℕ)
    (dst : Plane) : Option Plane :=
  if result < maxPtr then
    (dst.fill result n fun k ↦ pixel (p1 + k * stride) (p2 + k * stride)).bind fun dst ↦
      unrolled pixel stride n hn maxPtr (p1 + n * stride) (p2 + n * stride) (result + n) dst
  else some dst
termination_by maxPtr - result

/-- A helper gets two places to read from, one to write to and a number of pixels. -/
abbrev DeltaHelper := Plane → Plane → (p1 p2 result count : ℕ) → Plane → Option Plane

def gray8Helper (n : ℕ) (hn : 0 < n) : DeltaHelper := fun col1 col2 p1 p2 result count ↦
  unrolled (deltaGray col1 col2) 1 n hn (result + count) p1 p2 result

def colourHelper (red green blue stride n : ℕ) (hn : 0 < n) : DeltaHelper :=
  fun col1 col2 p1 p2 result count ↦
    unrolled (deltaColour red green blue col1 col2) stride n hn (result + count) p1 p2 result

def stdDelta8Gray8 : DeltaHelper := gray8Helper 1 Nat.one_pos
def fastDelta8Gray8 : DeltaHelper := gray8Helper 16 (by decide)
def stdDelta8Rgb : DeltaHelper := colourHelper 0 1 2 3 1 Nat.one_pos
def stdDelta8Bgr : DeltaHelper := colourHelper 2 1 0 3 1 Nat.one_pos
def stdDelta8Rgba : DeltaHelper := colourHelper 0 1 2 4 1 Nat.one_pos
def fastDelta8Rgba : DeltaHelper := colourHelper 0 1 2 4 4 (by decide)
def stdDelta8Bgra : DeltaHelper := colourHelper 2 1 0 4 1 Nat.one_pos
def fastDelta8Bgra : DeltaHelper := colourHelper 2 1 0 4 4 (by decide)
def stdDelta8Argb : DeltaHelper := colourHelper 1 2 3 4 1 Nat.one_pos
def fastDelta8Argb : DeltaHelper := colourHelper 1 2 3 4 4 (by decide)
def stdDelta8Abgr : DeltaHelper := colourHelper 3 2 1 4 1 Nat.one_pos
def fastDelta8Abgr : DeltaHelper := colourHelper 3 2 1 4 4 (by decide)

def pmaxub (a b : UInt8) : UInt8 := if a ≤ b then b else a
def pminub (a b : UInt8) : UInt8 := if a ≤ b then a else b

/-- The SSE2 loop, from the end. An address that is no multiple of 16 is a fault of `movdqa` and
`movntdq`; the buffers themselves are aligned to 64. A count that passes zero goes on before the
place it has started at, until that is outside. -/
def sse2Iter (col1 col2 : Plane) (p1 p2 result : ℕ) (count : ℤ) (dst : Plane) : Option Plane :=
  if h : (16 ≤ p1 + count ∧ 16 ≤ p2 + count ∧ 16 ≤ result + count) ∧
      (p1 + count) % 16 = 0 ∧ (p2 + count) % 16 = 0 ∧ (result + count) % 16 = 0 then
    (dst.fill (result + count - 16).toNat 16 fun k ↦ do
      let a ← col1.read ((p1 + count - 16).toNat + k)
      let b ← col2.read ((p2 + count - 16).toNat + k)
      some (pmaxub a b - pminub a b)).bind fun dst ↦
        if count - 16 = 0 then some dst
        else sse2Iter col1 col2 p1 p2 result (count - 16) dst
  else none
termination_by (p1 + count).toNat

def sse2Delta8Gray8 : DeltaHelper := fun col1 col2 p1 p2 result count ↦
  sse2Iter col1 col2 p1 p2 result count

structure DeltaPointers where
  rgb : DeltaHelper
  bgr : DeltaHelper
  rgba : DeltaHelper
  bgra : DeltaHelper
  argb : DeltaHelper
  abgr : DeltaHelper
  gray8 : DeltaHelper

def stdPointers : DeltaPointers where
  rgb := stdDelta8Rgb
  bgr := stdDelta8Bgr
  rgba := stdDelta8Rgba
  bgra := stdDelta8Bgra
  argb := stdDelta8Argb
  abgr := stdDelta8Abgr
  gray8 := stdDelta8Gray8

/-- The helpers for 32 bits that come with SSE2 or SSSE3. -/
structure WideHelpers where
  rgba : DeltaHelper
  bgra : DeltaHelper
  argb : DeltaHelper
  abgr : DeltaHelper

/-- What Initialise assigns, without CPU extensions or with SSE2 and better. -/
def initialise : Option WideHelpers → DeltaPointers
  | none =>
    { rgb := stdDelta8Rgb, bgr := stdDelta8Bgr, rgba := fastDelta8Rgba, bgra := fastDelta8Bgra
      argb := fastDelta8Argb, abgr := fastDelta8Abgr, gray8 := fastDelta8Gray8 }
  | some wide =>
    { rgb := stdDelta8Rgb, bgr := stdDelta8Bgr, rgba := wide.rgba, bgra := wide.bgra
      argb := wide.argb, abgr := wide.abgr, gray8 := sse2Delta8Gray8 }

def updateFunctionPointers (fptr : DeltaPointers) (pixels : ℕ) : DeltaPointers :=
  if pixels % 4 ≠ 0 then stdPointers else fptr

/-- The helper for a format; Delta panics where there is none. -/
def DeltaPointers.select (d : DeltaPointers) : PixelFormat → Option DeltaHelper
  | .bgr24 => some d.bgr
  | .rgb24 => some d.rgb
  | .argb => some d.argb
  | .abgr => some d.abgr
  | .bgra => some d.bgra
  | .rgba => some d.rgba
  | .gray8 | .yuv420p | .yuvj420p | .yuv422p | .yuvj422p => some d.gray8
  | .none => none

/-- What Delta reads of an image. -/
structure Frame where
  width : ℕ
  height : ℕ
  colours : ℕ
  subpixelorder : ℕ
  linesize : ℕ
  buffer : Option Plane

def Frame.format (a : Frame) : PixelFormat := zmPixformatFromColours a.colours a.subpixelorder

inductive DeltaResult
  | refused
  | panic
  | fault
  | done (target : Plane)

/-- Delta row by row. The target is as WriteBuffer leaves it, without a buffer where that fails. -/
def Frame.delta (fptr : DeltaPointers) (this image target : Frame) : DeltaResult :=
  if ¬ (this.width = image.width ∧ this.height = image.height ∧ this.colours = image.colours ∧
      this.subpixelorder = image.subpixelorder) then .refused
  else
    match this.buffer, image.buffer, target.buffer with
    | some buffer, some imageBuffer, some pdiff =>
      match (updateFunctionPointers fptr (this.width * this.height)).select this.format with
      | none => .panic
      | some fn =>
        match (List.range this.height).foldlM (fun dst y ↦ fn buffer imageBuffer
            (y * this.linesize) (y * image.linesize) (y * target.linesize) this.width dst) pdiff with
        | some dst => .done dst
        | none => .fault
    | _, _, _ => .refused

end ZoneMinder.Image
