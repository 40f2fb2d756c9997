import ZoneMinder.Image.Geometry

namespace ZoneMinder.Image

open Lib

namespace Picture

/-- An image of a supported format whose planes are inside of its buffer, whose size is of 32 bits.
The first one has rows of the image's own stride, the others are where FFmpeg puts them. -/
structure Laid (av : AvImage) (img : Picture) : Prop where
  format : img.imagePixFormat = img.pixFormat
  supported : img.imagePixFormat ≠ .none
  width_pos : 0 < img.width
  height_pos : 0 < img.height
  size_lt : img.buffer.size < 2 ^ 32
  inside : ∀ arrays, av.fillArrays img.imagePixFormat img.width img.height = some arrays →
    ∀ p < img.imagePixFormat.planeCount, (img.plane arrays p).Within img.buffer.size
  arrays : img.imagePixFormat.planar →
    (av.fillArrays img.imagePixFormat img.width img.height).isSome

/-- What is seen at a place of a plane. -/
def pixel (av : AvImage) (img : Picture) (p x y k : ℕ) : UInt8 :=
  match av.fillArrays img.imagePixFormat img.width img.height with
  | some arrays => img.buffer.content ((img.plane arrays p).place x y k)
  | none => 0

/-- How many columns and rows of a plane are seen. -/
def extent (img : Picture) (p : ℕ) : ℕ × ℕ := planeSize img.imagePixFormat img.width img.height p

def bytes (img : Picture) : ℕ :=
  if img.imagePixFormat.planar then 1 else img.imagePixFormat.bytesPerPixel

/-- An image of another size that shows pixels of this one, and lies in a buffer of its own where
this one's is not held. -/
structure Moved (av : AvImage) (img img' : Picture) (width height : ℕ)
    (source : ℕ → ℕ → ℕ → ℕ × ℕ) : Prop where
  width : img'.width = width
  height : img'.height = height
  colours : img'.colours = img.colours
  subpixelorder : img'.subpixelorder = img.subpixelorder
  imagePixFormat : img'.imagePixFormat = img.imagePixFormat
  holdBuffer : img'.holdBuffer = img.holdBuffer
  room : img.holdBuffer → img'.buffer.size = img.buffer.size
  laid : img'.Laid av
  inside : ∀ p < img.imagePixFormat.planeCount, ∀ x < (img'.extent p).1, ∀ y < (img'.extent p).2,
    (source p x y).1 < (img.extent p).1 ∧ (source p x y).2 < (img.extent p).2
  pixel : ∀ p < img.imagePixFormat.planeCount, ∀ x < (img'.extent p).1, ∀ y < (img'.extent p).2,
    ∀ k < img.bytes,
      img'.pixel av p x y k = img.pixel av p (source p x y).1 (source p x y).2 k

/-- Two images that show the same. -/
structure Alike (av : AvImage) (img img' : Picture) : Prop where
  width : img.width = img'.width
  height : img.height = img'.height
  imagePixFormat : img.imagePixFormat = img'.imagePixFormat
  pixel : ∀ p < img.imagePixFormat.planeCount, ∀ x < (img.extent p).1, ∀ y < (img.extent p).2,
    ∀ k < img.bytes, img.pixel av p x y k = img'.pixel av p x y k

/-- A buffer that is held has room for the image, and for it turned by 90 degrees. -/
def Roomy (av : AvImage) (img : Picture) : Prop :=
  img.holdBuffer → ∀ size,
    av.getBufferSize img.imagePixFormat img.width img.height = some size ∨
      av.getBufferSize img.imagePixFormat img.height img.width = some size →
    size ≤ img.buffer.size

/-- A buffer that is held has no room for an image of these sides. -/
def Cramped (av : AvImage) (img : Picture) (width height : ℕ) : Prop :=
  img.holdBuffer ∧ ∃ size, av.getBufferSize img.imagePixFormat width height = some size ∧
    img.buffer.size < size

/-- The memory between the planes of an image, and after them, is as it was when it was new. -/
def Untouched (av : AvImage) (fresh : ℕ → UInt8) (img : Picture) : Prop :=
  ∀ arrays size, av.fillArrays img.imagePixFormat img.width img.height = some arrays →
    av.getBufferSize img.imagePixFormat img.width img.height = some size → ∀ i < size,
      (∀ p < img.imagePixFormat.planeCount, ¬ (img.plane arrays p).Holds i) →
      img.buffer.content i = fresh i

/-- All the memory that the image takes is as it was when it was new. -/
def Blank (av : AvImage) (fresh : ℕ → UInt8) (img : Picture) : Prop :=
  ∀ size, av.getBufferSize img.imagePixFormat img.width img.height = some size → ∀ i < size,
    img.buffer.content i = fresh i

/-- What an operation leaves: the image as it was, or one each of whose pixels is from the same
plane of it, and that has nothing written beside its planes, or (of a negative angle) one that has
nothing written at all. -/
def Confined (av : AvImage) (fresh : ℕ → UInt8) (img img' : Picture) : Prop :=
  img' = img ∨ img'.Blank av fresh ∨
    (∃ width height source, Moved av img img' width height source) ∧ img'.Untouched av fresh

/-- An image that is not too large for FFmpeg. -/
structure Sized (av : AvImage) (img : Picture) : Prop extends Laid av img where
  sized : (av.getBufferSize img.imagePixFormat img.width img.height).isSome

/-- An image of which operations make others. -/
structure Ready (av : AvImage) (img : Picture) : Prop extends Sized av img where
  roomy : img.Roomy av

variable {av : AvImage} {img img' img'' : Picture} {newWidth newHeight width height size : ℕ}
  {source source' : ℕ → ℕ → ℕ → ℕ × ℕ} {fresh : ℕ → UInt8}

theorem plane_eq (hlinesize : img.linesize = align32 (av.getLinesize img.imagePixFormat img.width))
    {arrays : Arrays}
    (harrays : av.fillArrays img.imagePixFormat img.width img.height = some arrays) :
    img.plane arrays = arrays.plane img.imagePixFormat img.width img.height := by
  have hstride : Function.update arrays.stride 0 img.linesize = arrays.stride := by
    rw [hlinesize, ← av.stride _ _ _ _ harrays, Function.update_eq_self]
  rw [plane, hstride]

/-- An image whose rows are as far apart as FFmpeg has them, in a buffer with room for them. -/
theorem Laid.of_linesize (hformat : img.imagePixFormat = img.pixFormat)
    (hsupported : img.imagePixFormat ≠ .none) (hwidth : 0 < img.width) (hheight : 0 < img.height)
    (hlt : img.buffer.size < 2 ^ 32)
    (hlinesize : img.linesize = align32 (av.getLinesize img.imagePixFormat img.width))
    (hsize : av.getBufferSize img.imagePixFormat img.width img.height = some size)
    (hle : size ≤ img.buffer.size) : img.Laid av := by
  refine ⟨hformat, hsupported, hwidth, hheight, hlt, fun arrays harrays p hp ↦ ?_, fun _ ↦ ?_⟩
  · rw [plane_eq hlinesize harrays]
    exact (av.within _ _ _ _ _ hsize harrays p hp).mono hle
  · exact (av.fill ..).trans (Option.isSome_of_eq_some hsize)

theorem Cramped.lt (h : img.Cramped av newWidth newHeight)
    (hsize : av.getBufferSize img.imagePixFormat newWidth newHeight = some size) :
    img.buffer.size < size := by
  obtain ⟨-, size', hsize', hlt⟩ := h
  rw [hsize] at hsize'
  exact Option.some.inj hsize' ▸ hlt

theorem le_of_not_cramped (h : ¬ img.Cramped av newWidth newHeight)
    (hsize : av.getBufferSize img.imagePixFormat newWidth newHeight = some size)
    (hheld : img.holdBuffer) : size ≤ img.buffer.size :=
  not_lt.mp fun hlt ↦ h ⟨hheld, size, hsize, hlt⟩

theorem redraw_eq (hsize : av.getBufferSize img.imagePixFormat newWidth newHeight = some size)
    (drawPlane : (p : ℕ) → (s d : Raster) → Plane → Option Plane) {srcArrays dstArrays : Arrays}
    (hsrc : av.fillArrays img.imagePixFormat img.width img.height = some srcArrays)
    (hdst : av.fillArrays img.imagePixFormat newWidth newHeight = some dstArrays)
    {newBuffer : Plane}
    (hrun : (List.range img.imagePixFormat.planeCount).foldlM (fun newBuffer p ↦
      drawPlane p (img.plane srcArrays p)
        (dstArrays.plane img.imagePixFormat newWidth newHeight p) newBuffer)
      ⟨fresh, size⟩ = some newBuffer) :
    Picture.redraw av img fresh newWidth newHeight drawPlane = some (true,
      img.assignDirect av ⟨newWidth, newHeight, img.colours, img.subpixelorder⟩ newBuffer) := by
  rw [Picture.redraw, hsize]
  simp only [hsrc, hdst]
  rw [hrun, Option.map_some]

theorem Laid.assignDirect_of_cramped (h : img.Laid av)
    (hcramped : img.Cramped av newWidth newHeight) (newBuffer : Plane) :
    img.assignDirect av ⟨newWidth, newHeight, img.colours, img.subpixelorder⟩ newBuffer = img := by
  obtain ⟨hheld, size, hsize, hlt⟩ := hcramped
  have hformat : Shape.pixFormat ⟨newWidth, newHeight, img.colours, img.subpixelorder⟩ =
      img.imagePixFormat := h.format.symm
  exact assignDirect_of_held _ (hformat ▸ hsize) hheld hlt newBuffer

theorem Laid.exists_assignDirect (h : img.Laid av) (hwidth : 0 < newWidth)
    (hheight : 0 < newHeight)
    (hsize : av.getBufferSize img.imagePixFormat newWidth newHeight = some size)
    (hcramped : ¬ img.Cramped av newWidth newHeight) {newBuffer : Plane}
    (hbuffer : newBuffer.size = size) :
    ∃ buffer : Plane,
      img.assignDirect av ⟨newWidth, newHeight, img.colours, img.subpixelorder⟩ newBuffer =
        img.reshape av ⟨newWidth, newHeight, img.colours, img.subpixelorder⟩ buffer ∧
      size ≤ buffer.size ∧ (buffer.size = if img.holdBuffer then img.buffer.size else size) ∧
      ∀ i < size, buffer.content i = newBuffer.content i := by
  have hformat : Shape.pixFormat ⟨newWidth, newHeight, img.colours, img.subpixelorder⟩ =
      img.imagePixFormat := h.format.symm
  exact Picture.exists_assignDirect _ hwidth hheight (hformat ▸ h.supported) (hformat ▸ hsize)
    (le_of_not_cramped hcramped hsize) hbuffer

section Reshape

variable {buffer : Plane} {srcArrays dstArrays : Arrays} (h : img.Laid av)
  (hreshape : img' = img.reshape av ⟨newWidth, newHeight, img.colours, img.subpixelorder⟩ buffer)

include h hreshape

theorem Laid.reshape_format : img'.imagePixFormat = img.imagePixFormat := by
  rw [hreshape]
  exact h.format.symm

theorem Laid.fillArrays_reshape
    (hdst : av.fillArrays img.imagePixFormat newWidth newHeight = some dstArrays) :
    av.fillArrays img'.imagePixFormat img'.width img'.height = some dstArrays := by
  rw [h.reshape_format hreshape, hreshape]
  exact hdst

theorem Laid.reshape_plane
    (hdst : av.fillArrays img.imagePixFormat newWidth newHeight = some dstArrays) :
    img'.plane dstArrays = dstArrays.plane img.imagePixFormat newWidth newHeight := by
  rw [plane_eq (by rw [hreshape]; rfl) (h.fillArrays_reshape hreshape hdst),
    h.reshape_format hreshape, hreshape]
  rfl

theorem Laid.reshape_extent (p : ℕ) :
    img'.extent p = planeSize img.imagePixFormat newWidth newHeight p := by
  rw [extent, h.reshape_format hreshape, hreshape]
  rfl

theorem Laid.reshape_laid (hwidth : 0 < newWidth) (hheight : 0 < newHeight)
    (hsize : av.getBufferSize img.imagePixFormat newWidth newHeight = some size)
    (hle : size ≤ buffer.size)
    (hbuffer : buffer.size = if img.holdBuffer then img.buffer.size else size) : img'.Laid av := by
  have hlt : buffer.size < 2 ^ 32 := by
    have hsizeLt := av.size_lt _ _ _ _ hsize
    rw [hbuffer]
    split_ifs
    · exact h.size_lt
    · omega
  have hformat := h.reshape_format hreshape
  subst hreshape
  exact .of_linesize rfl (hformat ▸ h.supported) hwidth hheight hlt rfl (hformat ▸ hsize) hle

/-- An image in a new shape whose buffer holds the pixels of the old one. -/
theorem Laid.moved_reshape (hlaid : img'.Laid av)
    (hroom : img.holdBuffer → buffer.size = img.buffer.size)
    (hsrc : av.fillArrays img.imagePixFormat img.width img.height = some srcArrays)
    (hdst : av.fillArrays img.imagePixFormat newWidth newHeight = some dstArrays)
    (hsource : ∀ p < img.imagePixFormat.planeCount,
      ∀ x < (planeSize img.imagePixFormat newWidth newHeight p).1,
      ∀ y < (planeSize img.imagePixFormat newWidth newHeight p).2,
        (source p x y).1 < (img.extent p).1 ∧ (source p x y).2 < (img.extent p).2)
    (hshown : ∀ p < img.imagePixFormat.planeCount,
      ∀ x < (planeSize img.imagePixFormat newWidth newHeight p).1,
      ∀ y < (planeSize img.imagePixFormat newWidth newHeight p).2, ∀ k < img.bytes,
        buffer.content ((dstArrays.plane img.imagePixFormat newWidth newHeight p).place x y k) =
          img.buffer.content ((img.plane srcArrays p).place (source p x y).1 (source p x y).2 k)) :
    Moved av img img' newWidth newHeight source := by
  have hextent := h.reshape_extent hreshape
  have harrays := h.fillArrays_reshape hreshape hdst
  have hplane := h.reshape_plane hreshape hdst
  have hformat := h.reshape_format hreshape
  subst hreshape
  refine ⟨rfl, rfl, rfl, rfl, hformat, rfl, hroom, hlaid, ?_, ?_⟩
  · intro p hp x hx y hy
    rw [hextent] at hx hy
    exact hsource p hp x hx y hy
  · intro p hp x hx y hy k hk
    rw [hextent] at hx hy
    simp only [pixel, harrays, hsrc]
    rw [hplane]
    exact hshown p hp x hx y hy k hk

theorem Laid.untouched_reshape
    (hsize : av.getBufferSize img.imagePixFormat newWidth newHeight = some size)
    (hdst : av.fillArrays img.imagePixFormat newWidth newHeight = some dstArrays)
    (hrest : ∀ i < size, (∀ p < img.imagePixFormat.planeCount,
      ¬ (dstArrays.plane img.imagePixFormat newWidth newHeight p).Holds i) →
        buffer.content i = fresh i) : img'.Untouched av fresh := by
  intro arrays size' harrays hsize' i hi hout
  obtain rfl := Option.some.inj ((h.fillArrays_reshape hreshape hdst).symm.trans harrays)
  rw [h.reshape_plane hreshape hdst, h.reshape_format hreshape] at hout
  rw [h.reshape_format hreshape] at hsize'
  subst hreshape
  obtain rfl : size = size' := Option.some.inj (hsize.symm.trans hsize')
  exact hrest i hi hout

end Reshape

/-- What is drawn into the new buffer is what is seen afterwards, unless the image has no room. -/
theorem Sized.redraw (h : img.Sized av) (fresh : ℕ → UInt8) (hwidth : 0 < newWidth)
    (hheight : 0 < newHeight)
    (hsize : av.getBufferSize img.imagePixFormat newWidth newHeight = some size)
    (drawPlane : (p : ℕ) → (s d : Raster) → Plane → Option Plane)
    (source : ℕ → ℕ → ℕ → ℕ × ℕ)
    (hdraw : ∀ p < img.imagePixFormat.planeCount, ∀ s d : Raster, s.Within img.buffer.size →
      d.Within size → d.bytes = s.bytes → (s.width, s.height) = img.extent p →
      (d.width, d.height) = planeSize img.imagePixFormat newWidth newHeight p →
      d.Draws (drawPlane p s d) size (pixelsOf img.buffer s (source p)))
    (hsource : ∀ p < img.imagePixFormat.planeCount,
      ∀ x < (planeSize img.imagePixFormat newWidth newHeight p).1,
      ∀ y < (planeSize img.imagePixFormat newWidth newHeight p).2,
        (source p x y).1 < (img.extent p).1 ∧ (source p x y).2 < (img.extent p).2) :
    ∃ img', Picture.redraw av img fresh newWidth newHeight drawPlane = some (true, img') ∧
      img.Confined av fresh img' ∧ (img.Cramped av newWidth newHeight → img' = img) ∧
      (¬ img.Cramped av newWidth newHeight → Moved av img img' newWidth newHeight source) := by
  obtain ⟨srcArrays, hsrc⟩ := Option.isSome_iff_exists.mp ((av.fill ..).trans h.sized)
  obtain ⟨dstArrays, hdst⟩ := Option.isSome_iff_exists.mp
    ((av.fill ..).trans (Option.isSome_of_eq_some hsize))
  have hwithin := av.within _ _ _ _ _ hsize hdst
  have hdraws (p : ℕ) (hp : p < img.imagePixFormat.planeCount) :=
    hdraw p hp (img.plane srcArrays p) (dstArrays.plane img.imagePixFormat newWidth newHeight p)
      (h.inside srcArrays hsrc p hp) (hwithin p hp) rfl rfl rfl
  obtain ⟨newBuffer, hrun, hnewSize, hshown, hrest⟩ := Raster.Draws.planes
    (c := ⟨fresh, size⟩) hdraws (av.apart _ _ _ _ hdst) rfl
  have hredraw := redraw_eq hsize drawPlane hsrc hdst hrun
  by_cases hcramped : img.Cramped av newWidth newHeight
  · rw [h.assignDirect_of_cramped hcramped] at hredraw
    exact ⟨img, hredraw, .inl rfl, fun _ ↦ rfl, absurd hcramped⟩
  obtain ⟨buffer, hassign, hle, hbuffer, hcontent⟩ :=
    h.exists_assignDirect hwidth hheight hsize hcramped hnewSize
  rw [hassign] at hredraw
  have hlaid := h.reshape_laid rfl hwidth hheight hsize hle hbuffer
  have hmoved := h.moved_reshape rfl hlaid (fun hhold ↦ hbuffer.trans (if_pos hhold)) hsrc hdst
    hsource fun p hp x hx y hy k hk ↦
      (hcontent _ ((hwithin p hp).place_lt hx hy hk)).trans (hshown p hp x hx y hy k hk)
  have huntouched := h.untouched_reshape rfl hsize hdst fun i hi hout ↦
    (hcontent i hi).trans (hrest i hout)
  exact ⟨_, hredraw, .inr (.inr ⟨⟨_, _, _, hmoved⟩, huntouched⟩),
    fun hfull ↦ absurd hfull hcramped, fun _ ↦ hmoved⟩

theorem foldlM_some {α β : Type} (c : α) (l : List β) : l.foldlM (fun c _ ↦ some c) c = some c := by
  induction l with
  | nil => rfl
  | cons b l ih => exact ih

/-- Nothing is drawn. -/
theorem Sized.redraw_blank (h : img.Sized av) (fresh : ℕ → UInt8) (hwidth : 0 < newWidth)
    (hheight : 0 < newHeight)
    (hsize : av.getBufferSize img.imagePixFormat newWidth newHeight = some size) :
    ∃ img', Picture.redraw av img fresh newWidth newHeight (fun _ _ _ ↦ some) =
      some (true, img') ∧ img.Confined av fresh img' := by
  obtain ⟨srcArrays, hsrc⟩ := Option.isSome_iff_exists.mp ((av.fill ..).trans h.sized)
  obtain ⟨dstArrays, hdst⟩ := Option.isSome_iff_exists.mp
    ((av.fill ..).trans (Option.isSome_of_eq_some hsize))
  have hredraw := redraw_eq hsize (fun _ _ _ ↦ some) hsrc hdst
    (foldlM_some (⟨fresh, size⟩ : Plane) _)
  by_cases hcramped : img.Cramped av newWidth newHeight
  · rw [h.assignDirect_of_cramped hcramped] at hredraw
    exact ⟨img, hredraw, .inl rfl⟩
  obtain ⟨buffer, hassign, -, -, hcontent⟩ :=
    h.exists_assignDirect hwidth hheight hsize hcramped (rfl : (⟨fresh, size⟩ : Plane).size = size)
  rw [hassign] at hredraw
  refine ⟨_, hredraw, .inr (.inl fun size' hsize' i hi ↦ hcontent i ?_)⟩
  obtain rfl : size = size' := Option.some.inj (hsize.symm.trans (h.format ▸ hsize'))
  exact hi

theorem Moved.extent (h : Moved av img img' newWidth newHeight source) (p : ℕ) :
    img'.extent p = planeSize img.imagePixFormat newWidth newHeight p := by
  rw [Picture.extent, h.imagePixFormat, h.width, h.height]

theorem Moved.bytes (h : Moved av img img' newWidth newHeight source) : img'.bytes = img.bytes := by
  rw [Picture.bytes, Picture.bytes, h.imagePixFormat]

theorem Moved.refl (h : img.Laid av) :
    Moved av img img img.width img.height fun _ x y ↦ (x, y) :=
  ⟨rfl, rfl, rfl, rfl, rfl, rfl, fun _ ↦ rfl, h, fun _ _ _ hx _ hy ↦ ⟨hx, hy⟩,
    fun _ _ _ _ _ _ _ _ ↦ rfl⟩

theorem Moved.trans (h : Moved av img img' newWidth newHeight source)
    (h' : Moved av img' img'' width height source') :
    Moved av img img'' width height fun p x y ↦
      source p (source' p x y).1 (source' p x y).2 where
  width := h'.width
  height := h'.height
  colours := h'.colours.trans h.colours
  subpixelorder := h'.subpixelorder.trans h.subpixelorder
  imagePixFormat := h'.imagePixFormat.trans h.imagePixFormat
  holdBuffer := h'.holdBuffer.trans h.holdBuffer
  room hheld := (h'.room (h.holdBuffer ▸ hheld)).trans (h.room hheld)
  laid := h'.laid
  inside p hp x hx y hy := by
    have hinside := h'.inside p (h.imagePixFormat ▸ hp) x hx y hy
    exact h.inside p hp _ hinside.1 _ hinside.2
  pixel p hp x hx y hy k hk := by
    have hinside := h'.inside p (h.imagePixFormat ▸ hp) x hx y hy
    rw [h'.pixel p (h.imagePixFormat ▸ hp) x hx y hy k (h.bytes ▸ hk),
      h.pixel p hp _ hinside.1 _ hinside.2 k hk]

/-- Images that show the same pixels of another one are alike. -/
theorem Moved.alike (h : Moved av img img' newWidth newHeight source)
    (h' : Moved av img img'' newWidth newHeight source')
    (hsource : ∀ p < img.imagePixFormat.planeCount, ∀ x < (img'.extent p).1,
      ∀ y < (img'.extent p).2, source p x y = source' p x y) : Alike av img' img'' where
  width := h.width.trans h'.width.symm
  height := h.height.trans h'.height.symm
  imagePixFormat := h.imagePixFormat.trans h'.imagePixFormat.symm
  pixel p hp x hx y hy k hk := by
    have hp' := h.imagePixFormat ▸ hp
    have hextent : img''.extent p = img'.extent p := (h'.extent p).trans (h.extent p).symm
    rw [h.pixel p hp' x hx y hy k (h.bytes ▸ hk),
      h'.pixel p hp' x (hextent ▸ hx) y (hextent ▸ hy) k (h.bytes ▸ hk), hsource p hp' x hx y hy]

theorem Alike.refl : Alike av img img := ⟨rfl, rfl, rfl, fun _ _ _ _ _ _ _ _ ↦ rfl⟩

/-- What is no larger has a layout. -/
theorem Sized.exists_size (h : img.Sized av) (hwidth : 0 < newWidth) (hheight : 0 < newHeight)
    (hle : newWidth ≤ img.width ∧ newHeight ≤ img.height ∨
      newWidth ≤ img.height ∧ newHeight ≤ img.width) :
    ∃ size whole, av.getBufferSize img.imagePixFormat newWidth newHeight = some size ∧
      (av.getBufferSize img.imagePixFormat img.width img.height = some whole ∨
        av.getBufferSize img.imagePixFormat img.height img.width = some whole) ∧ size ≤ whole := by
  rcases hle with hle | hle
  · obtain ⟨whole, hwhole⟩ := Option.isSome_iff_exists.mp h.sized
    obtain ⟨size, hsize, hsome⟩ := av.smaller _ _ _ _ _ _ hwhole hwidth hle.1 hheight hle.2
    exact ⟨size, whole, hsome, .inl hwhole, hsize⟩
  · obtain ⟨whole, hwhole⟩ := Option.isSome_iff_exists.mp ((av.swap ..).symm.trans h.sized)
    obtain ⟨size, hsize, hsome⟩ := av.smaller _ _ _ _ _ _ hwhole hwidth hle.1 hheight hle.2
    exact ⟨size, whole, hsome, .inr hwhole, hsize⟩

theorem Ready.not_cramped (h : img.Ready av) (hwidth : 0 < newWidth) (hheight : 0 < newHeight)
    (hle : newWidth ≤ img.width ∧ newHeight ≤ img.height ∨
      newWidth ≤ img.height ∧ newHeight ≤ img.width) : ¬ img.Cramped av newWidth newHeight := by
  intro hcramped
  obtain ⟨size, whole, hsize, hwhole, hsizele⟩ := h.exists_size hwidth hheight hle
  exact absurd (hsizele.trans (h.roomy hcramped.1 whole hwhole)) (hcramped.lt hsize).not_ge

theorem Moved.sized (hmoved : Moved av img img' newWidth newHeight source) (h : img.Sized av)
    (hle : newWidth ≤ img.width ∧ newHeight ≤ img.height ∨
      newWidth ≤ img.height ∧ newHeight ≤ img.width) : img'.Sized av := by
  have hwidth := hmoved.width ▸ hmoved.laid.width_pos
  have hheight := hmoved.height ▸ hmoved.laid.height_pos
  obtain ⟨size, -, hsome, -, -⟩ := h.exists_size hwidth hheight hle
  refine ⟨hmoved.laid, ?_⟩
  rw [hmoved.imagePixFormat, hmoved.width, hmoved.height, hsome]
  rfl

/-- A buffer that is held stays the same. -/
theorem Moved.cramped_iff (hmoved : Moved av img img' newWidth newHeight source) :
    img'.Cramped av width height ↔ img.Cramped av width height := by
  rw [Cramped, Cramped, hmoved.holdBuffer, hmoved.imagePixFormat]
  exact and_congr_right fun hheld ↦ by rw [hmoved.room hheld]

theorem Moved.ready (hmoved : Moved av img img' newWidth newHeight source) (h : img.Ready av)
    (hle : newWidth ≤ img.width ∧ newHeight ≤ img.height ∨
      newWidth ≤ img.height ∧ newHeight ≤ img.width) : img'.Ready av := by
  have hwidth := hmoved.width ▸ hmoved.laid.width_pos
  have hheight := hmoved.height ▸ hmoved.laid.height_pos
  refine ⟨hmoved.sized h.toSized hle, fun hheld size hsize ↦ ?_⟩
  rw [hmoved.width, hmoved.height] at hsize
  rcases hsize with hsize | hsize
  · have hroom := h.not_cramped hwidth hheight hle
    exact le_of_not_cramped (hmoved.cramped_iff.not.mpr hroom) hsize hheld
  · have hroom := h.not_cramped hheight hwidth (by tauto)
    exact le_of_not_cramped (hmoved.cramped_iff.not.mpr hroom) hsize hheld

/-- Its chroma is sampled alike in both directions. -/
def Rotatable (img : Picture) : Prop :=
  img.imagePixFormat ≠ .yuv422p ∧ img.imagePixFormat ≠ .yuvj422p

theorem Rotatable.log2Chroma (h : img.Rotatable) :
    img.imagePixFormat.log2Chroma.1 = img.imagePixFormat.log2Chroma.2 := by
  obtain ⟨hformat, hformat'⟩ := h
  revert hformat hformat'
  cases img.imagePixFormat <;> simp [PixelFormat.log2Chroma]

theorem rotate_eq {angle : ℤ} (hangle : angle = 90 ∨ angle = 180 ∨ angle = 270)
    (hformat : angle = 180 ∨ img.Rotatable) :
    img.rotate av fresh angle =
      (Picture.redraw av img fresh (if angle = 180 then img.width else img.height)
        (if angle = 180 then img.height else img.width)
        fun _ ↦ rotatePlane angle img.buffer).map Prod.snd := by
  have hangle' : angle.tmod 360 = angle ∧ angle ≠ 0 ∧ angle.tmod 90 = 0 := by
    rcases hangle with rfl | rfl | rfl <;> decide
  have hrefused : ¬((angle = 90 ∨ angle = 270) ∧
      (img.imagePixFormat = .yuv422p ∨ img.imagePixFormat = .yuvj422p)) := by
    rintro ⟨hquarter, h422⟩
    rcases hformat with rfl | hformat
    · exact absurd hquarter (by decide)
    · exact h422.elim hformat.1 hformat.2
  simp only [rotate, hangle'.1, hangle'.2.1, hangle'.2.2, hrefused, ne_eq, not_true_eq_false,
    or_self, if_false]

theorem Sized.rotate (h : img.Sized av) (fresh : ℕ → UInt8) (angle : ℤ)
    (hangle : angle = 90 ∨ angle = 180 ∨ angle = 270) (hformat : angle = 180 ∨ img.Rotatable) :
    ∃ img', img.rotate av fresh angle = some img' ∧ img.Confined av fresh img' ∧
      (img.Cramped av (if angle = 180 then img.width else img.height)
        (if angle = 180 then img.height else img.width) → img' = img) ∧
      (¬ img.Cramped av (if angle = 180 then img.width else img.height)
          (if angle = 180 then img.height else img.width) →
        Moved av img img' (if angle = 180 then img.width else img.height)
          (if angle = 180 then img.height else img.width)
          (fun p ↦ rotateSource angle (img.extent p))) := by
  have hwidth : 0 < if angle = 180 then img.width else img.height := by
    split_ifs
    · exact h.width_pos
    · exact h.height_pos
  have hheight : 0 < if angle = 180 then img.height else img.width := by
    split_ifs
    · exact h.height_pos
    · exact h.width_pos
  have hle : (if angle = 180 then img.width else img.height) ≤ img.width ∧
      (if angle = 180 then img.height else img.width) ≤ img.height ∨
      (if angle = 180 then img.width else img.height) ≤ img.height ∧
      (if angle = 180 then img.height else img.width) ≤ img.width := by
    split_ifs <;> simp
  have hextent (p : ℕ) : planeSize img.imagePixFormat
      (if angle = 180 then img.width else img.height)
      (if angle = 180 then img.height else img.width) p =
      (if angle = 180 then (img.extent p).1 else (img.extent p).2,
        if angle = 180 then (img.extent p).2 else (img.extent p).1) := by
    rcases hformat with rfl | hformat
    · rfl
    · rw [extent, planeSize, planeSize, hformat.log2Chroma]
      split_ifs <;> rfl
  obtain ⟨size, -, hsize, -, -⟩ := h.exists_size hwidth hheight hle
  obtain ⟨img', hrun, hrest⟩ := h.redraw fresh hwidth hheight hsize
    (fun _ ↦ rotatePlane angle img.buffer) (fun p ↦ rotateSource angle (img.extent p))
    (fun p _ s d hs hd hbytes hsextent hdextent ↦ by
      rw [hextent, ← hsextent] at hdextent
      rw [← hsextent]
      exact rotatePlane_draws hs hd hbytes hangle (congrArg Prod.fst hdextent)
        (congrArg Prod.snd hdextent))
    fun p _ x hx y hy ↦ by
      rw [hextent] at hx hy
      rcases hangle with rfl | rfl | rfl <;> grind [rotateSource]
  refine ⟨img', ?_, hrest⟩
  rw [rotate_eq hangle hformat, hrun]
  rfl

theorem Sized.flip (h : img.Sized av) (fresh : ℕ → UInt8) (leftright : Bool) :
    ∃ img', img.flip av fresh leftright = some img' ∧ img.Confined av fresh img' ∧
      (img.Cramped av img.width img.height → img' = img) ∧
      (¬ img.Cramped av img.width img.height →
        Moved av img img' img.width img.height (fun p ↦ flipSource leftright (img.extent p))) := by
  obtain ⟨size, hsize⟩ := Option.isSome_iff_exists.mp h.sized
  obtain ⟨img', hrun, hrest⟩ := h.redraw fresh h.width_pos h.height_pos hsize
    (fun _ ↦ flipPlane leftright img.buffer) (fun p ↦ flipSource leftright (img.extent p))
    (fun p _ s d hs hd hbytes hsextent hdextent ↦ by
      rw [← hsextent]
      have hsize := hdextent.trans hsextent.symm
      exact flipPlane_draws leftright hs hd hbytes (congrArg Prod.fst hsize)
        (congrArg Prod.snd hsize))
    fun p _ x hx y hy ↦ by
      change x < (img.extent p).1 at hx
      change y < (img.extent p).2 at hy
      cases leftright <;> grind [flipSource]
  refine ⟨img', ?_, hrest⟩
  rw [Picture.flip, hrun]
  rfl

/-- Where a window begins along one side of a plane, that is moved back to where a sample of the
chroma begins. -/
def windowStart (shift lo p : ℕ) : ℕ := if p = 0 then lo - lo % 2 ^ shift else lo / 2 ^ shift

theorem windowStart_zero (shift p : ℕ) : windowStart shift 0 p = 0 := by
  rw [windowStart]
  split_ifs <;> simp

theorem planarShift_eq (f : PixelFormat) {shift p : ℕ} (hshift : ¬ f.planar → shift = 0)
    (hp : p < f.planeCount) (lo : ℕ) :
    (lo - if f.planar then lo % 2 ^ shift else 0) >>> (if f.planar ∧ p ≠ 0 then shift else 0) =
      windowStart shift lo p := by
  rw [windowStart]
  by_cases hplanar : f.planar
  · by_cases hp0 : p = 0
    · simp [hplanar, hp0]
    · have hmul : lo - lo % 2 ^ shift = 2 ^ shift * (lo / 2 ^ shift) := by
        have hdiv := Nat.div_add_mod lo (2 ^ shift)
        omega
      rw [if_pos hplanar, if_pos ⟨hplanar, hp0⟩, if_neg hp0, Nat.shiftRight_eq_div_pow, hmul,
        Nat.mul_div_cancel_left _ (Nat.two_pow_pos shift)]
  · have hp0 : p = 0 := by
      rw [PixelFormat.planeCount, if_neg hplanar] at hp
      omega
    simp [hplanar, hp0, hshift hplanar, Nat.mod_one]

theorem ceilRshift_add_le {shift lo hi size : ℕ} (hle : lo ≤ hi) (hlt : hi < size) :
    lo / 2 ^ shift + ceilRshift (hi - lo + 1) shift ≤ ceilRshift size shift := by
  have hdiv := Nat.mul_div_le lo (2 ^ shift)
  have hpos := Nat.two_pow_pos shift
  rw [ceilRshift, ceilRshift, Nat.shiftRight_eq_div_pow, Nat.shiftRight_eq_div_pow,
    Nat.add_comm, ← Nat.add_mul_div_left _ _ (Nat.two_pow_pos shift)]
  exact Nat.div_le_div_right (by omega)

theorem log2Chroma_of_packed {f : PixelFormat} (h : ¬ f.planar) : f.log2Chroma = (0, 0) := by
  revert h
  cases f <;> decide

/-- The window of a plane is inside of it. -/
theorem windowStart_fits (f : PixelFormat) {loX loY hiX hiY : ℕ} (hx : loX ≤ hiX)
    (hxlt : hiX < width) (hy : loY ≤ hiY) (hylt : hiY < height) (p : ℕ) :
    windowStart f.log2Chroma.1 loX p + (planeSize f (hiX - loX + 1) (hiY - loY + 1) p).1 ≤
        (planeSize f width height p).1 ∧
      windowStart f.log2Chroma.2 loY p + (planeSize f (hiX - loX + 1) (hiY - loY + 1) p).2 ≤
        (planeSize f width height p).2 := by
  rw [windowStart, windowStart, planeSize, planeSize]
  by_cases hp : p = 0
  · simp only [if_pos hp]
    omega
  · simp only [if_neg hp]
    exact ⟨ceilRshift_add_le hx hxlt, ceilRshift_add_le hy hylt⟩

theorem Sized.crop (h : img.Sized av) (fresh : ℕ → UInt8) {loX loY hiX hiY : ℕ} (hx : loX ≤ hiX)
    (hxlt : hiX < img.width) (hy : loY ≤ hiY) (hylt : hiY < img.height) :
    ∃ img', img.crop av fresh loX loY hiX hiY = some (true, img') ∧ img.Confined av fresh img' ∧
      (¬ img.Cramped av (hiX - loX + 1) (hiY - loY + 1) →
        Moved av img img' (hiX - loX + 1) (hiY - loY + 1) fun p x y ↦
          (x + windowStart img.imagePixFormat.log2Chroma.1 loX p,
            y + windowStart img.imagePixFormat.log2Chroma.2 loY p)) := by
  have hinvalid : ¬(loX > hiX ∨ loY > hiY) := by omega
  have houtside : ¬(hiX > img.width - 1 ∨ hiY > img.height - 1) := by omega
  by_cases hwhole : hiX - loX + 1 = img.width ∧ hiY - loY + 1 = img.height
  · obtain ⟨rfl, rfl⟩ : loX = 0 ∧ loY = 0 := by omega
    have hmoved := Moved.refl h.toLaid
    simp only [windowStart_zero]
    rw [← hwhole.1, ← hwhole.2] at hmoved
    refine ⟨img, ?_, .inl rfl, fun _ ↦ hmoved⟩
    simp only [Picture.crop, if_neg hinvalid, if_neg houtside, if_pos hwhole]
  · have hle : hiX - loX + 1 ≤ img.width ∧ hiY - loY + 1 ≤ img.height := by omega
    have hfits := windowStart_fits img.imagePixFormat hx hxlt hy hylt
    have hwidth : 0 < hiX - loX + 1 := Nat.succ_pos _
    have hheight : 0 < hiY - loY + 1 := Nat.succ_pos _
    obtain ⟨size, -, hsize, -, -⟩ := h.exists_size hwidth hheight (.inl hle)
    obtain ⟨img', hrun, hconfined, -, hmoved⟩ := h.redraw fresh hwidth hheight hsize
      (img.cropPlane av
        (loX - if img.imagePixFormat.planar then loX % 2 ^ img.imagePixFormat.log2Chroma.1 else 0)
        (loY - if img.imagePixFormat.planar then loY % 2 ^ img.imagePixFormat.log2Chroma.2 else 0))
      (fun p x y ↦ (x + windowStart img.imagePixFormat.log2Chroma.1 loX p,
        y + windowStart img.imagePixFormat.log2Chroma.2 loY p))
      (fun p hp s d hs hd hbytes hsextent hdextent ↦ by
        have hpacked (hplanar : ¬ img.imagePixFormat.planar) :=
          log2Chroma_of_packed hplanar
        have hwindow := hfits p
        rw [← hdextent, ← Picture.extent, ← hsextent] at hwindow
        unfold cropPlane
        dsimp only
        rw [planarShift_eq _ (fun hplanar ↦ congrArg Prod.fst (hpacked hplanar)) hp,
          planarShift_eq _ (fun hplanar ↦ congrArg Prod.snd (hpacked hplanar)) hp]
        exact copyPlane_draws av hs hd hbytes (by omega) (by omega))
      fun p _ x hx y hy ↦ by
        have hwindow := hfits p
        rw [Picture.extent]
        omega
    refine ⟨img', ?_, hconfined, hmoved⟩
    simp only [Picture.crop, if_neg hinvalid, if_neg houtside, if_neg hwhole]
    exact hrun

theorem Ready.crop (h : img.Ready av) (fresh : ℕ → UInt8) {loX loY hiX hiY : ℕ} (hx : loX ≤ hiX)
    (hxlt : hiX < img.width) (hy : loY ≤ hiY) (hylt : hiY < img.height) :
    ∃ img', img.crop av fresh loX loY hiX hiY = some (true, img') ∧
      Moved av img img' (hiX - loX + 1) (hiY - loY + 1) (fun p x y ↦
        (x + windowStart img.imagePixFormat.log2Chroma.1 loX p,
          y + windowStart img.imagePixFormat.log2Chroma.2 loY p)) ∧
      img'.Ready av := by
  have hle : hiX - loX + 1 ≤ img.width ∧ hiY - loY + 1 ≤ img.height := by omega
  obtain ⟨img', hrun, -, hmoved⟩ := h.toSized.crop fresh hx hxlt hy hylt
  have hmoved := hmoved (h.not_cramped (Nat.succ_pos _) (Nat.succ_pos _) (.inl hle))
  exact ⟨img', hrun, hmoved, hmoved.ready h (.inl hle)⟩

section TooLarge

variable (hnone : av.getBufferSize img.imagePixFormat img.width img.height = none)

include hnone

theorem redraw_of_none (drawPlane : (p : ℕ) → (s d : Raster) → Plane → Option Plane) :
    Picture.redraw av img fresh newWidth newHeight drawPlane = some (false, img) := by
  have hfill : av.fillArrays img.imagePixFormat img.width img.height = none := by
    rw [← Option.not_isSome_iff_eq_none, av.fill, hnone]
    exact Bool.false_ne_true
  rw [Picture.redraw]
  cases av.getBufferSize img.imagePixFormat newWidth newHeight with
  | none => rfl
  | some size => simp only [hfill]

theorem rotate_of_none (angle : ℤ) : img.rotate av fresh angle = some img := by
  simp only [Picture.rotate, redraw_of_none hnone, Option.map_some, ite_self]

theorem flip_of_none (leftright : Bool) : img.flip av fresh leftright = some img := by
  rw [Picture.flip, redraw_of_none hnone]
  rfl

theorem exists_crop_of_none (fresh : ℕ → UInt8) (loX loY hiX hiY : ℕ) :
    ∃ r, img.crop av fresh loX loY hiX hiY = some (r, img) := by
  simp only [Picture.crop, redraw_of_none hnone]
  split_ifs <;> exact ⟨_, rfl⟩

end TooLarge

theorem Laid.sized_or_none (h : img.Laid av) :
    img.Sized av ∨ av.getBufferSize img.imagePixFormat img.width img.height = none := by
  cases hsize : av.getBufferSize img.imagePixFormat img.width img.height with
  | none => exact .inr rfl
  | some size => exact .inl ⟨h, Option.isSome_of_eq_some hsize⟩

theorem Laid.sized_of_planar (h : img.Laid av) (hplanar : img.imagePixFormat.planar) :
    img.Sized av :=
  ⟨h, (av.fill ..).symm.trans (h.arrays hplanar)⟩

theorem Rotatable.of_packed (h : ¬ img.imagePixFormat.planar) : img.Rotatable := by
  constructor <;> rintro heq <;> rw [heq] at h <;> exact h rfl

theorem Moved.rotatable (hmoved : Moved av img img' newWidth newHeight source)
    (h : img.Rotatable) : img'.Rotatable := by
  rw [Rotatable, hmoved.imagePixFormat]
  exact h

theorem Moved.extent_swap (hmoved : Moved av img img' img.height img.width source)
    (h : img.Rotatable) (p : ℕ) : img'.extent p = (img.extent p).swap := by
  rw [hmoved.extent, Picture.extent, planeSize, planeSize, h.log2Chroma]
  split_ifs <;> rfl

/-- A turn by a quarter. -/
theorem Ready.turn (h : img.Ready av) (hrotatable : img.Rotatable) (fresh : ℕ → UInt8) {angle : ℤ}
    (hangle : angle = 90 ∨ angle = 270) :
    ∃ img', img.rotate av fresh angle = some img' ∧
      Moved av img img' img.height img.width (fun p ↦ rotateSource angle (img.extent p)) ∧
      img'.Ready av ∧ img'.Rotatable := by
  have hhalf : angle ≠ 180 := by omega
  obtain ⟨img', hrun, -, -, hmoved⟩ := h.toSized.rotate fresh angle (by omega) (.inr hrotatable)
  rw [if_neg hhalf, if_neg hhalf] at hmoved
  have hmoved := hmoved (h.not_cramped h.height_pos h.width_pos (.inr ⟨le_rfl, le_rfl⟩))
  have hready := hmoved.ready h (.inr ⟨le_rfl, le_rfl⟩)
  exact ⟨img', hrun, hmoved, hready, hmoved.rotatable hrotatable⟩

/-- A window that a crop can be asked for. -/
structure Window (img : Picture) (loX loY hiX hiY : ℕ) : Prop where
  x_le : loX ≤ hiX
  x_lt : hiX < img.width
  y_le : loY ≤ hiY
  y_lt : hiY < img.height

/-- What a crop of a planar image shows: the samples of the chroma from the one on that covers the
first pixel asked for, and the pixels that these cover. -/
structure Cropped (av : AvImage) (img img' : Picture) (loX loY hiX hiY : ℕ) : Prop where
  width : img'.width = hiX - loX + 1
  height : img'.height = hiY - loY + 1
  imagePixFormat : img'.imagePixFormat = img.imagePixFormat
  luma : ∀ x < (img'.extent 0).1, ∀ y < (img'.extent 0).2,
    (loX - loX % 2 ^ img.imagePixFormat.log2Chroma.1 + x < (img.extent 0).1 ∧
      loY - loY % 2 ^ img.imagePixFormat.log2Chroma.2 + y < (img.extent 0).2) ∧
    img'.pixel av 0 x y 0 =
      img.pixel av 0 (loX - loX % 2 ^ img.imagePixFormat.log2Chroma.1 + x)
        (loY - loY % 2 ^ img.imagePixFormat.log2Chroma.2 + y) 0
  chroma : ∀ p, p = 1 ∨ p = 2 → ∀ cx < (img'.extent p).1, ∀ cy < (img'.extent p).2,
    (loX / 2 ^ img.imagePixFormat.log2Chroma.1 + cx < (img.extent p).1 ∧
      loY / 2 ^ img.imagePixFormat.log2Chroma.2 + cy < (img.extent p).2) ∧
    img'.pixel av p cx cy 0 =
      img.pixel av p (loX / 2 ^ img.imagePixFormat.log2Chroma.1 + cx)
        (loY / 2 ^ img.imagePixFormat.log2Chroma.2 + cy) 0

/-- The geometry that keeps the sides of an image, and that nothing is read or written outside of
the planes, whatever is in the memory of the buffers that are made. -/
structure Bounded (av : AvImage) (img : Picture) : Prop where
  flip_twice : ∀ leftright fresh fresh', ∃ img',
    (img.flip av fresh leftright).bind (flip av · fresh' leftright) = some img' ∧
      Alike av img img'
  rotate_half : ∀ fresh fresh' fresh'', ∃ turned flipped, img.rotate av fresh 180 = some turned ∧
    (img.flip av fresh' true).bind (flip av · fresh'' false) = some flipped ∧
      Alike av turned flipped
  rotate_inside : ∀ fresh angle, ∃ img', img.rotate av fresh angle = some img' ∧
    img.Confined av fresh img'
  flip_inside : ∀ fresh leftright, ∃ img', img.flip av fresh leftright = some img' ∧
    img.Confined av fresh img'
  crop_inside : ∀ fresh loX loY hiX hiY, ∃ r img',
    img.crop av fresh loX loY hiX hiY = some (r, img') ∧ img.Confined av fresh img'

/-- The geometry of Rotate, Flip and Crop. -/
structure Geometric (av : AvImage) (img : Picture) : Prop extends Bounded av img where
  rotate_four : img.Rotatable → ∀ fresh : ℕ → ℕ → UInt8, ∃ img',
    (List.range 4).foldlM (fun img i ↦ img.rotate av (fresh i) 90) img = some img' ∧
      Alike av img img'
  rotate_back : img.Rotatable → ∀ fresh fresh', ∃ img',
    (img.rotate av fresh 90).bind (rotate av · fresh' 270) = some img' ∧ Alike av img img'
  crop_rotate : ¬ img.imagePixFormat.planar → ∀ loX loY hiX hiY, img.Window loX loY hiX hiY →
    ∀ fresh : ℕ → ℕ → UInt8, ∃ img₁ img₂,
      (img.crop av (fresh 0) loX loY hiX hiY).bind (rotate av ·.2 (fresh 1) 90) = some img₁ ∧
      ((img.rotate av (fresh 2) 90).bind fun turned ↦ (turned.crop av (fresh 3)
        (img.height - 1 - hiY) loX (img.height - 1 - loY) hiX).map Prod.snd) = some img₂ ∧
      Alike av img₁ img₂
  crop_planar : img.imagePixFormat.planar → ∀ loX loY hiX hiY, img.Window loX loY hiX hiY →
    ∀ fresh, ∃ img', img.crop av fresh loX loY hiX hiY = some (true, img') ∧
      img.Cropped av img' loX loY hiX hiY

theorem Ready.rotate_four (h : img.Ready av) (hrotatable : img.Rotatable)
    (fresh : ℕ → ℕ → UInt8) : ∃ img',
    (List.range 4).foldlM (fun img i ↦ img.rotate av (fresh i) 90) img = some img' ∧
      Alike av img img' := by
  obtain ⟨r₁, h₁, hm₁, hready₁, hrot₁⟩ := h.turn hrotatable (fresh 0) (.inl rfl)
  obtain ⟨r₂, h₂, hm₂, hready₂, hrot₂⟩ := hready₁.turn hrot₁ (fresh 1) (.inl rfl)
  obtain ⟨r₃, h₃, hm₃, hready₃, hrot₃⟩ := hready₂.turn hrot₂ (fresh 2) (.inl rfl)
  obtain ⟨r₄, h₄, hm₄, -, -⟩ := hready₃.turn hrot₃ (fresh 3) (.inl rfl)
  have hmoved := ((hm₁.trans hm₂).trans hm₃).trans hm₄
  rw [hm₃.height, hm₂.width, hm₁.height, hm₃.width, hm₂.height, hm₁.width] at hmoved
  refine ⟨r₄, ?_, (Moved.refl h.toLaid).alike hmoved fun p _ x hx y hy ↦ ?_⟩
  · have hrange : List.range 4 = [0, 1, 2, 3] := rfl
    simp only [hrange, List.foldlM_cons, List.foldlM_nil, h₁, h₂, h₃, h₄, Option.bind_eq_bind,
      Option.bind_some]
    rfl
  · have hsize₁ := hm₁.extent_swap hrotatable p
    have hsize₂ := hm₂.extent_swap hrot₁ p
    have hsize₃ := hm₃.extent_swap hrot₂ p
    simp only [rotateSource, if_true, hsize₃, hsize₂, hsize₁, Prod.fst_swap, Prod.snd_swap]
    grind

theorem Ready.rotate_back (h : img.Ready av) (hrotatable : img.Rotatable)
    (fresh fresh' : ℕ → UInt8) : ∃ img',
    (img.rotate av fresh 90).bind (Picture.rotate av · fresh' 270) = some img' ∧
      Alike av img img' := by
  obtain ⟨r₁, h₁, hm₁, hready₁, hrot₁⟩ := h.turn hrotatable fresh (.inl rfl)
  obtain ⟨r₂, h₂, hm₂, -, -⟩ := hready₁.turn hrot₁ fresh' (.inr rfl)
  have hmoved := hm₁.trans hm₂
  rw [hm₁.height, hm₁.width] at hmoved
  refine ⟨r₂, ?_, (Moved.refl h.toLaid).alike hmoved fun p _ x hx y hy ↦ ?_⟩
  · rw [h₁, Option.bind_some, h₂]
  · have hsize₁ := hm₁.extent_swap hrotatable p
    have h90 : ¬ (270 : ℤ) = 90 := by decide
    have h180 : ¬ (270 : ℤ) = 180 := by decide
    simp only [rotateSource, if_true, if_neg h90, if_neg h180, hsize₁, Prod.fst_swap, Prod.snd_swap]
    grind

theorem Sized.flip_twice (h : img.Sized av) (leftright : Bool) (fresh fresh' : ℕ → UInt8) :
    ∃ img', (img.flip av fresh leftright).bind (Picture.flip av · fresh' leftright) = some img' ∧
      Alike av img img' := by
  obtain ⟨r₁, h₁, -, hkept₁, hm₁⟩ := h.flip fresh leftright
  by_cases hcramped : img.Cramped av img.width img.height
  · obtain ⟨r₂, h₂, -, hkept₂, -⟩ := h.flip fresh' leftright
    obtain rfl := hkept₁ hcramped
    obtain rfl := hkept₂ hcramped
    exact ⟨r₂, by rw [h₁, Option.bind_some, h₂], .refl⟩
  have hm₁ := hm₁ hcramped
  obtain ⟨r₂, h₂, -, -, hm₂⟩ := (hm₁.sized h (.inl ⟨le_rfl, le_rfl⟩)).flip fresh' leftright
  rw [hm₁.cramped_iff, hm₁.height, hm₁.width] at hm₂
  have hmoved := hm₁.trans (hm₂ hcramped)
  refine ⟨r₂, ?_, (Moved.refl h.toLaid).alike hmoved fun p _ x hx y hy ↦ ?_⟩
  · rw [h₁, Option.bind_some, h₂]
  · have hsize₁ : r₁.extent p = img.extent p := hm₁.extent p
    cases leftright <;> grind [flipSource]

theorem Sized.rotate_half (h : img.Sized av) (fresh fresh' fresh'' : ℕ → UInt8) :
    ∃ turned flipped, img.rotate av fresh 180 = some turned ∧
      (img.flip av fresh' true).bind (Picture.flip av · fresh'' false) = some flipped ∧
      Alike av turned flipped := by
  obtain ⟨turned, hturn, -, hturnedKept, hturned⟩ :=
    h.rotate fresh 180 (.inr (.inl rfl)) (.inl rfl)
  obtain ⟨r₁, h₁, -, hkept₁, hm₁⟩ := h.flip fresh' true
  rw [if_pos rfl, if_pos rfl] at hturnedKept hturned
  by_cases hcramped : img.Cramped av img.width img.height
  · obtain ⟨flipped, h₂, -, hkept₂, -⟩ := h.flip fresh'' false
    obtain rfl := hturnedKept hcramped
    obtain rfl := hkept₁ hcramped
    obtain rfl := hkept₂ hcramped
    exact ⟨flipped, flipped, hturn, by rw [h₁, Option.bind_some, h₂], .refl⟩
  have hm₁ := hm₁ hcramped
  obtain ⟨flipped, h₂, -, -, hm₂⟩ := (hm₁.sized h (.inl ⟨le_rfl, le_rfl⟩)).flip fresh'' false
  rw [hm₁.cramped_iff, hm₁.height, hm₁.width] at hm₂
  have hmoved := hm₁.trans (hm₂ hcramped)
  refine ⟨turned, flipped, hturn, ?_, (hturned hcramped).alike hmoved fun p _ x hx y hy ↦ ?_⟩
  · rw [h₁, Option.bind_some, h₂]
  · have hsize₁ : r₁.extent p = img.extent p := hm₁.extent p
    grind [rotateSource, flipSource]

/-- The window turned by a quarter is one of the turned image. -/
theorem Ready.crop_rotate (h : img.Ready av) (hpacked : ¬ img.imagePixFormat.planar)
    {loX loY hiX hiY : ℕ} (hw : img.Window loX loY hiX hiY) (fresh : ℕ → ℕ → UInt8) :
    ∃ img₁ img₂,
      (img.crop av (fresh 0) loX loY hiX hiY).bind (Picture.rotate av ·.2 (fresh 1) 90) =
        some img₁ ∧
      ((img.rotate av (fresh 2) 90).bind fun turned ↦ (turned.crop av (fresh 3)
        (img.height - 1 - hiY) loX (img.height - 1 - loY) hiX).map Prod.snd) = some img₂ ∧
      Alike av img₁ img₂ := by
  obtain ⟨hx, hxlt, hy, hylt⟩ := hw
  have hrotatable := Rotatable.of_packed hpacked
  obtain ⟨c, hc, hmc, hreadyc⟩ := h.crop (fresh 0) hx hxlt hy hylt
  obtain ⟨r₁, h₁, hm₁, -, -⟩ := hreadyc.turn (hmc.rotatable hrotatable) (fresh 1) (.inl rfl)
  obtain ⟨t, ht, hmt, hreadyt, -⟩ := h.turn hrotatable (fresh 2) (.inl rfl)
  have hx' : img.height - 1 - hiY ≤ img.height - 1 - loY := by omega
  have hxlt' : img.height - 1 - loY < t.width := by
    rw [hmt.width]
    omega
  obtain ⟨r₂, h₂, hm₂, -⟩ := hreadyt.crop (fresh 3) hx' hxlt' hx (hmt.height ▸ hxlt)
  have hmoved₁ := hmc.trans hm₁
  have hmoved₂ := hmt.trans hm₂
  have hwidth : img.height - 1 - loY - (img.height - 1 - hiY) + 1 = hiY - loY + 1 := by omega
  rw [hmc.height, hmc.width] at hmoved₁
  rw [hwidth] at hmoved₂
  refine ⟨r₁, r₂, ?_, ?_, hmoved₁.alike hmoved₂ fun p hp x hpx y hpy ↦ ?_⟩
  · rw [hc, Option.bind_some, h₁]
  · rw [ht, Option.bind_some, h₂]
    rfl
  · have hp0 : p = 0 := by
      rw [PixelFormat.planeCount, if_neg hpacked] at hp
      omega
    subst hp0
    have hformat := log2Chroma_of_packed hpacked
    have hcextent : c.extent 0 = (hiX - loX + 1, hiY - loY + 1) := hmc.extent 0
    have hrextent := (hm₁.extent_swap (hmc.rotatable hrotatable) 0).trans (congrArg _ hcextent)
    have hextent : img.extent 0 = (img.width, img.height) := rfl
    rw [hrextent] at hpx hpy
    simp only [rotateSource, if_true, windowStart, hmt.imagePixFormat, hformat, hcextent, hextent,
      pow_zero, Nat.mod_one, Nat.sub_zero, Prod.fst_swap, Prod.snd_swap, Prod.mk.injEq,
      true_and] at hpx hpy ⊢
    omega

theorem Ready.crop_planar (h : img.Ready av) (hplanar : img.imagePixFormat.planar)
    {loX loY hiX hiY : ℕ} (hw : img.Window loX loY hiX hiY) (fresh : ℕ → UInt8) :
    ∃ img', img.crop av fresh loX loY hiX hiY = some (true, img') ∧
      img.Cropped av img' loX loY hiX hiY := by
  obtain ⟨img', hrun, hmoved, -⟩ := h.crop fresh hw.x_le hw.x_lt hw.y_le hw.y_lt
  have hcount : img.imagePixFormat.planeCount = 3 := by rw [PixelFormat.planeCount, if_pos hplanar]
  have hbytes : 0 < img.bytes := by
    rw [bytes, if_pos hplanar]
    exact Nat.one_pos
  refine ⟨img', hrun, hmoved.width, hmoved.height, hmoved.imagePixFormat,
    fun x hx y hy ↦ ?_, fun p hp cx hcx cy hcy ↦ ?_⟩
  · have hp : 0 < img.imagePixFormat.planeCount := by omega
    have hinside := hmoved.inside 0 hp x hx y hy
    have hpixel := hmoved.pixel 0 hp x hx y hy 0 hbytes
    simp only [windowStart, if_true, Nat.add_comm x, Nat.add_comm y] at hinside hpixel
    exact ⟨hinside, hpixel⟩
  · have hp0 : p ≠ 0 := by omega
    have hplane : p < img.imagePixFormat.planeCount := by omega
    have hinside := hmoved.inside p hplane cx hcx cy hcy
    have hpixel := hmoved.pixel p hplane cx hcx cy hcy 0 hbytes
    simp only [windowStart, if_neg hp0, Nat.add_comm cx, Nat.add_comm cy] at hinside hpixel
    exact ⟨hinside, hpixel⟩

/-- A negative angle is none of those that a plane is turned by. -/
theorem rotate_negative {turn : ℤ} (hturn : turn = -90 ∨ turn = -180 ∨ turn = -270) :
    img.rotate av fresh turn =
      (Picture.redraw av img fresh img.height img.width fun _ _ _ ↦ some).map Prod.snd := by
  have hplane (src : Plane) : rotatePlane turn src = fun _ _ ↦ some := by
    funext s d
    rcases hturn with rfl | rfl | rfl <;> rfl
  rcases hturn with rfl | rfl | rfl <;> rw [Picture.rotate, ← hplane img.buffer] <;> rfl

theorem Sized.rotate_inside (h : img.Sized av) (fresh : ℕ → UInt8) (angle : ℤ) :
    ∃ img', img.rotate av fresh angle = some img' ∧ img.Confined av fresh img' := by
  have hbelow := Nat.mod_lt angle.natAbs (by decide : 0 < 360)
  have hmod : (angle.tmod 360).natAbs = angle.natAbs % 360 := Int.natAbs_tmod angle 360
  have hmod' : ((angle.tmod 360).tmod 90).natAbs = (angle.tmod 360).natAbs % 90 :=
    Int.natAbs_tmod (angle.tmod 360) 90
  have hrotate : img.rotate av fresh angle = img.rotate av fresh (angle.tmod 360) := by
    simp only [Picture.rotate, Int.tmod_tmod]
  by_cases hnothing : angle.tmod 360 = 0 ∨ (angle.tmod 360).tmod 90 ≠ 0
  · exact ⟨img, by simp only [Picture.rotate, if_pos hnothing], .inl rfl⟩
  obtain ⟨hne, hzero⟩ := not_or.mp hnothing
  rw [not_not.mp hzero] at hmod'
  rw [hrotate]
  obtain hturn | hturn : (angle.tmod 360 = 90 ∨ angle.tmod 360 = 180 ∨ angle.tmod 360 = 270) ∨
      (angle.tmod 360 = -90 ∨ angle.tmod 360 = -180 ∨ angle.tmod 360 = -270) := by
    generalize angle.tmod 360 = turn at hmod hmod' hne ⊢
    omega
  · by_cases hformat : angle.tmod 360 = 180 ∨ img.Rotatable
    · obtain ⟨img', hrun, hconfined, -, -⟩ := h.rotate fresh _ hturn hformat
      exact ⟨img', hrun, hconfined⟩
    · obtain ⟨hhalf, h422⟩ := not_or.mp hformat
      have hrefused : (angle.tmod 360 = 90 ∨ angle.tmod 360 = 270) ∧
          (img.imagePixFormat = .yuv422p ∨ img.imagePixFormat = .yuvj422p) := by
        rw [Rotatable] at h422
        tauto
      exact ⟨img, by simp only [Picture.rotate, Int.tmod_tmod, if_neg hnothing, if_pos hrefused],
        .inl rfl⟩
  · obtain ⟨size, hsize⟩ := Option.isSome_iff_exists.mp ((av.swap ..).symm.trans h.sized)
    obtain ⟨img', hrun, hconfined⟩ := h.redraw_blank fresh h.height_pos h.width_pos hsize
    exact ⟨img', by rw [rotate_negative hturn, hrun, Option.map_some], hconfined⟩

theorem Sized.crop_inside (h : img.Sized av) (fresh : ℕ → UInt8) (loX loY hiX hiY : ℕ) :
    ∃ r img', img.crop av fresh loX loY hiX hiY = some (r, img') ∧ img.Confined av fresh img' := by
  by_cases hinvalid : loX > hiX ∨ loY > hiY
  · exact ⟨false, img, by rw [Picture.crop, if_pos hinvalid], .inl rfl⟩
  by_cases houtside : hiX > img.width - 1 ∨ hiY > img.height - 1
  · exact ⟨false, img, by rw [Picture.crop, if_neg hinvalid, if_pos houtside], .inl rfl⟩
  have hwidth := h.width_pos
  have hheight := h.height_pos
  have hx : loX ≤ hiX ∧ hiX < img.width := by omega
  have hy : loY ≤ hiY ∧ hiY < img.height := by omega
  obtain ⟨img', hrun, hconfined, -⟩ := h.crop fresh hx.1 hx.2 hy.1 hy.2
  exact ⟨true, img', hrun, hconfined⟩

/-- An image that is too large is left as it is. -/
theorem bounded_of_none
    (hnone : av.getBufferSize img.imagePixFormat img.width img.height = none) :
    img.Bounded av where
  flip_twice leftright fresh fresh' :=
    ⟨img, by rw [flip_of_none hnone, Option.bind_some, flip_of_none hnone], .refl⟩
  rotate_half fresh fresh' fresh'' :=
    ⟨img, img, rotate_of_none hnone 180,
      by rw [flip_of_none hnone, Option.bind_some, flip_of_none hnone], .refl⟩
  rotate_inside fresh angle := ⟨img, rotate_of_none hnone angle, .inl rfl⟩
  flip_inside fresh leftright := ⟨img, flip_of_none hnone leftright, .inl rfl⟩
  crop_inside fresh loX loY hiX hiY := by
    obtain ⟨r, hcrop⟩ := exists_crop_of_none hnone fresh loX loY hiX hiY
    exact ⟨r, img, hcrop, .inl rfl⟩

theorem geometric_of_none
    (hnone : av.getBufferSize img.imagePixFormat img.width img.height = none)
    (hplanar : img.imagePixFormat.planar →
      (av.getBufferSize img.imagePixFormat img.width img.height).isSome) : img.Geometric av where
  toBounded := bounded_of_none hnone
  rotate_four _ fresh := by
    have hrange : List.range 4 = [0, 1, 2, 3] := rfl
    refine ⟨img, ?_, .refl⟩
    simp only [hrange, List.foldlM_cons, List.foldlM_nil, rotate_of_none hnone,
      Option.bind_eq_bind, Option.bind_some]
    rfl
  rotate_back _ fresh fresh' :=
    ⟨img, by rw [rotate_of_none hnone, Option.bind_some, rotate_of_none hnone], .refl⟩
  crop_rotate hpacked loX loY hiX hiY hw fresh := by
    obtain ⟨r, hcrop⟩ := exists_crop_of_none hnone (fresh 0) loX loY hiX hiY
    refine ⟨img, img, ?_, ?_, .refl⟩
    · rw [hcrop, Option.bind_some, rotate_of_none hnone]
    · rw [rotate_of_none hnone, Option.bind_some]
      obtain ⟨r', hcrop'⟩ := exists_crop_of_none hnone (fresh 3) (img.height - 1 - hiY) loX
        (img.height - 1 - loY) hiX
      rw [hcrop', Option.map_some]
  crop_planar hplane := by
    have hsome := hplanar hplane
    rw [hnone] at hsome
    cases hsome

theorem Laid.bounded (h : img.Laid av) : img.Bounded av := by
  rcases h.sized_or_none with h | hnone
  · exact
      { flip_twice := h.flip_twice
        rotate_half := h.rotate_half
        rotate_inside := h.rotate_inside
        flip_inside fresh leftright := by
          obtain ⟨img', hrun, hconfined, -, -⟩ := h.flip fresh leftright
          exact ⟨img', hrun, hconfined⟩
        crop_inside := h.crop_inside }
  · exact bounded_of_none hnone

theorem Laid.geometric_of_roomy (h : img.Laid av) (hroomy : img.Roomy av) : img.Geometric av := by
  have hplanar := h.sized_of_planar
  have hbounded := h.bounded
  rcases h.sized_or_none with h | hnone
  · have hready : img.Ready av := ⟨h, hroomy⟩
    exact
      { toBounded := hbounded
        rotate_four := hready.rotate_four
        rotate_back := hready.rotate_back
        crop_rotate hpacked loX loY hiX hiY hw := hready.crop_rotate hpacked hw
        crop_planar hplanar loX loY hiX hiY hw := hready.crop_planar hplanar hw }
  · exact geometric_of_none hnone fun hplane ↦ (hplanar hplane).sized

/-- Rotate, Flip and Crop stay inside of the planes and form the expected geometry, where they
change the sides of an image only with room for it. -/
theorem Laid.geometric (h : img.Laid av) :
    img.Bounded av ∧ (img.Roomy av → img.Geometric av) :=
  ⟨h.bounded, h.geometric_of_roomy⟩

end Picture

namespace AvImage

variable {f : PixelFormat} {w h w' h' : ℕ}

def rowStride (f : PixelFormat) (w p : ℕ) : ℕ :=
  align32 ((planeSize f w 0 p).1 * if f.planar then 1 else f.bytesPerPixel)

/-- The planes are one after the other. -/
def planeBase (f : PixelFormat) (w h : ℕ) : ℕ → ℕ
  | 0 => 0
  | p + 1 => planeBase f w h p + rowStride f w p * (planeSize f w h p).2

/-- `av_image_check_size` -/
def FitsInt (f : PixelFormat) (w h : ℕ) : Prop :=
  f ≠ .none ∧ 0 < w ∧ 0 < h ∧ 8 * (w + 128) * (h + 128) < 2 ^ 31 - 1

instance (f : PixelFormat) (w h : ℕ) : Decidable (FitsInt f w h) := by
  unfold FitsInt
  infer_instance

theorem le_align32 (n : ℕ) : n ≤ align32 n ∧ align32 n ≤ n + 31 := by
  rw [align32]
  omega

theorem align32_mono {m n : ℕ} (h : m ≤ n) : align32 m ≤ align32 n := by
  rw [align32, align32]
  omega

theorem ceilRshift_mono {m n : ℕ} (shift : ℕ) (h : m ≤ n) :
    ceilRshift m shift ≤ ceilRshift n shift := by
  rw [ceilRshift, ceilRshift, Nat.shiftRight_eq_div_pow, Nat.shiftRight_eq_div_pow]
  exact Nat.div_le_div_right (by omega)

theorem planeSize_mono (hw : w' ≤ w) (hh : h' ≤ h) (p : ℕ) :
    (planeSize f w' h' p).1 ≤ (planeSize f w h p).1 ∧
      (planeSize f w' h' p).2 ≤ (planeSize f w h p).2 := by
  rw [planeSize, planeSize]
  split_ifs
  · exact ⟨hw, hh⟩
  · exact ⟨ceilRshift_mono _ hw, ceilRshift_mono _ hh⟩

theorem ceilRshift_le (n shift : ℕ) : ceilRshift n shift ≤ n + 1 := by
  have hpos := Nat.two_pow_pos shift
  have hmul := Nat.le_mul_of_pos_left n hpos
  rw [ceilRshift, Nat.shiftRight_eq_div_pow]
  refine Nat.div_le_of_le_mul ?_
  rw [Nat.mul_succ]
  omega

theorem planeSize_le (f : PixelFormat) (w h p : ℕ) :
    (planeSize f w h p).1 ≤ w + 1 ∧ (planeSize f w h p).2 ≤ h + 1 := by
  rw [planeSize]
  split_ifs
  · exact ⟨Nat.le_succ w, Nat.le_succ h⟩
  · exact ⟨ceilRshift_le .., ceilRshift_le ..⟩

theorem le_rowStride (f : PixelFormat) (w h p : ℕ) :
    (planeSize f w h p).1 * (if f.planar then 1 else f.bytesPerPixel) ≤ rowStride f w p := by
  have hwidth : (planeSize f w h p).1 = (planeSize f w 0 p).1 := by
    rw [planeSize, planeSize]
    split_ifs <;> rfl
  rw [hwidth]
  exact (le_align32 _).1

theorem planeBase_mono_size (hw : w' ≤ w) (hh : h' ≤ h) (p : ℕ) :
    planeBase f w' h' p ≤ planeBase f w h p := by
  induction p with
  | zero => exact le_rfl
  | succ p ih =>
    have hsize := planeSize_mono (f := f) hw hh p
    have hstride : rowStride f w' p ≤ rowStride f w p :=
      align32_mono (Nat.mul_le_mul_right _ (planeSize_mono hw le_rfl p).1)
    exact Nat.add_le_add ih (Nat.mul_le_mul hstride hsize.2)

theorem planeBase_mono (f : PixelFormat) (w h : ℕ) : Monotone (planeBase f w h) :=
  monotone_nat_of_le_succ fun _ ↦ Nat.le_add_right ..

/-- A row of a plane ends before the next plane begins. -/
theorem planeBase_row {p y : ℕ} (hy : y < (planeSize f w h p).2) :
    planeBase f w h p + (y * rowStride f w p + (planeSize f w h p).1 *
      if f.planar then 1 else f.bytesPerPixel) ≤ planeBase f w h (p + 1) := by
  have hrow := le_rowStride f w h p
  have hrows : (y + 1) * rowStride f w p ≤ (planeSize f w h p).2 * rowStride f w p :=
    Nat.mul_le_mul_right _ hy
  rw [Nat.succ_mul] at hrows
  rw [planeBase, Nat.mul_comm (rowStride f w p)]
  omega

theorem planeBase_lt (hfits : FitsInt f w h) : planeBase f w h f.planeCount < 2 ^ 31 := by
  obtain ⟨-, -, -, hlt⟩ := hfits
  refine lt_of_le_of_lt ?_ (hlt.trans (by decide))
  have hplane (p : ℕ) : rowStride f w p * (planeSize f w h p).2 ≤
      ((w + 1) * (if f.planar then 1 else f.bytesPerPixel) + 31) * (h + 1) :=
    Nat.mul_le_mul ((le_align32 _).2.trans (Nat.add_le_add_right
      (Nat.mul_le_mul_right _ (planeSize_le f w 0 p).1) _)) (planeSize_le f w h p).2
  by_cases hplanar : f.planar
  · have hcount : f.planeCount = 3 := if_pos hplanar
    simp only [hplanar, if_true, Nat.mul_one] at hplane
    have h₀ := hplane 0
    have h₁ := hplane 1
    have h₂ := hplane 2
    have hle : (w + 1 + 31) * (h + 1) ≤ (w + 128) * (h + 128) :=
      Nat.mul_le_mul (by omega) (by omega)
    rw [hcount, Nat.mul_assoc]
    simp only [planeBase]
    omega
  · have hcount : f.planeCount = 1 := if_neg hplanar
    have hbytes : f.bytesPerPixel ≤ 4 := by cases f <;> decide
    have h₀ := hplane 0
    rw [if_neg hplanar] at h₀
    have hrow : (w + 1) * f.bytesPerPixel ≤ (w + 1) * 4 := Nat.mul_le_mul_left _ hbytes
    have hle : ((w + 1) * f.bytesPerPixel + 31) * (h + 1) ≤ 8 * (w + 128) * (h + 128) :=
      Nat.mul_le_mul (by omega) (by omega)
    rw [hcount]
    simp only [planeBase]
    omega

theorem FitsInt.swap (hfits : FitsInt f w h) : FitsInt f h w := by
  obtain ⟨hformat, hw, hh, hlt⟩ := hfits
  rw [Nat.mul_right_comm] at hlt
  exact ⟨hformat, hh, hw, hlt⟩

theorem between_of_holds {p i : ℕ}
    (hi : (Arrays.plane ⟨planeBase f w h, rowStride f w⟩ f w h p).Holds i) :
    planeBase f w h p ≤ i ∧ i < planeBase f w h (p + 1) := by
  obtain ⟨x, hx, y, hy, k, hk, rfl⟩ := hi
  have hrow := planeBase_row hy
  have hpixel := Raster.pixel_lt hx hk
  simp only [Raster.place, Arrays.plane] at hpixel ⊢
  omega

/-- The functions of FFmpeg, as they lay out the formats of the images here. -/
def ffmpeg : AvImage where
  getBufferSize f w h := if FitsInt f w h then some (planeBase f w h f.planeCount) else none
  getLinesize f w := w * if f.planar then 1 else f.bytesPerPixel
  fillArrays f w h := if FitsInt f w h then some ⟨planeBase f w h, rowStride f w⟩ else none
  copyPlane src srcPos srcStride dstPos dstStride bytewidth height dst :=
    (List.range height).foldlM (fun dst y ↦ dst.fill (dstPos + y * dstStride) bytewidth
      fun k ↦ src.read (srcPos + y * srcStride + k)) dst
  begins f w h arrays harrays := by
    split_ifs at harrays
    rw [← Option.some.inj harrays]
    rfl
  fill f w h := by split_ifs <;> rfl
  stride f w h arrays harrays := by
    split_ifs at harrays
    rw [← Option.some.inj harrays]
    rfl
  within f w h size arrays hsize harrays p hp := by
    split_ifs at hsize harrays
    rw [← Option.some.inj harrays, ← Option.some.inj hsize]
    exact ⟨le_rowStride f w h p, fun y hy ↦
      (planeBase_row hy).trans (planeBase_mono f w h (Nat.succ_le_of_lt hp))⟩
  size_lt f w h size hsize := by
    split_ifs at hsize with hfits
    exact Option.some.inj hsize ▸ planeBase_lt hfits
  apart f w h arrays harrays p hp q hq hne i hi hi' := by
    split_ifs at harrays
    obtain rfl := Option.some.inj harrays
    have hp := between_of_holds hi
    have hq := between_of_holds hi'
    rcases Nat.lt_or_gt_of_ne hne with hlt | hgt
    · have hle := planeBase_mono f w h (show p + 1 ≤ q from hlt)
      omega
    · have hle := planeBase_mono f w h (show q + 1 ≤ p from hgt)
      omega
  swap f w h := by
    simp only [show FitsInt f w h ↔ FitsInt f h w from ⟨FitsInt.swap, FitsInt.swap⟩]
    split_ifs <;> rfl
  smaller f w h w' h' size hsize hw hwle hh hhle := by
    split_ifs at hsize with hfits
    obtain rfl := Option.some.inj hsize
    obtain ⟨hformat, -, -, hlt⟩ := hfits
    have hle : 8 * (w' + 128) * (h' + 128) ≤ 8 * (w + 128) * (h + 128) :=
      Nat.mul_le_mul (Nat.mul_le_mul_left 8 (by omega)) (by omega)
    exact ⟨_, planeBase_mono_size hwle hhle _, if_pos ⟨hformat, hw, hh, hle.trans_lt hlt⟩⟩
  copy _ _ _ _ _ _ _ _ := rfl

end AvImage

namespace Picture

/-- A row of 33 pixels, in a buffer that is held. -/
def heldRow : Picture where
  width := 33
  height := 1
  colours := 1
  subpixelorder := 2
  linesize := 64
  imagePixFormat := .gray8
  buffer := ⟨fun _ ↦ 0, 64⟩
  holdBuffer := true

theorem heldRow_laid : heldRow.Laid .ffmpeg where
  format := rfl
  supported := by decide
  width_pos := by decide
  height_pos := by decide
  size_lt := by decide
  inside arrays harrays p hp := by
    obtain rfl := Option.some.inj harrays
    obtain rfl : p = 0 := Nat.lt_one_iff.mp hp
    exact ⟨by decide, by decide⟩
  arrays _ := rfl

/-- The row turned by 90 degrees has no room, so it is not turned. -/
theorem not_heldRow_geometric : heldRow.Laid .ffmpeg ∧ ¬ heldRow.Geometric .ffmpeg := by
  refine ⟨heldRow_laid, fun h ↦ ?_⟩
  obtain ⟨img₁, img₂, h₁, h₂, halike⟩ := h.crop_rotate (by decide) 0 0 1 0
    ⟨by decide, by decide, by decide, by decide⟩ fun _ _ ↦ 0
  have hwidth₁ : img₁.width = 1 := by
    have hrun : ((heldRow.crop .ffmpeg (fun _ ↦ 0) 0 0 1 0).bind
        (rotate .ffmpeg ·.2 (fun _ ↦ 0) 90)).map (fun img ↦ img.width) = some 1 := by decide
    rw [h₁] at hrun
    exact Option.some.inj hrun
  have hwidth₂ : img₂.width = 33 := by
    have hrun : ((heldRow.rotate .ffmpeg (fun _ ↦ 0) 90).bind fun turned ↦
        (turned.crop .ffmpeg (fun _ ↦ 0) 0 0 0 1).map Prod.snd).map (fun img ↦ img.width) =
          some 33 := by decide
    exact Option.some.inj ((congrArg (Option.map fun img : Picture ↦ img.width) h₂).symm.trans hrun)
  rw [halike.width, hwidth₂] at hwidth₁
  exact absurd hwidth₁ (by decide)

/-- An image with a last row and a last column that have samples of the chroma of their own. -/
def oddFrame : Picture where
  width := 3
  height := 3
  colours := 1
  subpixelorder := 11
  linesize := 32
  imagePixFormat := .yuv420p
  buffer := ⟨fun i ↦ UInt8.ofNat i, 224⟩
  holdBuffer := false

theorem oddFrame_geometric :
    oddFrame.Bounded .ffmpeg ∧ oddFrame.Geometric .ffmpeg ∧ heldRow.Bounded .ffmpeg := by
  have hsize : AvImage.ffmpeg.getBufferSize .yuv420p 3 3 = some 224 := by decide
  obtain ⟨hbounded, hgeometric⟩ := Laid.geometric (.of_linesize rfl (by decide) (by decide)
    (by decide) (by decide) (by decide) hsize le_rfl : oddFrame.Laid .ffmpeg)
  exact ⟨hbounded, hgeometric nofun, (Laid.geometric heldRow_laid).1⟩

end Picture

end ZoneMinder.Image
