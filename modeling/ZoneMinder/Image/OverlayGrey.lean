import ZoneMinder.Image.OverlayPixels

namespace ZoneMinder.Image

open Lib

namespace Picture

variable {av : AvImage} {brgToYuv : UInt32 → UInt32} {fresh : ℕ → UInt8}
  {grey : Option (UInt8 × UInt8)} {img image result : Picture} {marks : List ℕ}
  {first count x y : ℕ} {value : ℕ → ℕ}

theorem marks_luma {f : PixelFormat} (h : f.bytesPerPixel = 1) : Marks f [0] := by
  intro k
  rw [if_pos h, List.mem_singleton]

theorem marks_rgb24 {f : PixelFormat} (h : f.bytesPerPixel = 3) : Marks f [0, 1, 2] := by
  intro k
  rw [← isRgb24_iff, PixelFormat.isRgb24] at h
  simp only [Bool.or_eq_true, decide_eq_true_eq] at h
  rcases h with h | h <;> subst h <;> simp [PixelFormat.bytesPerPixel, PixelFormat.channels]
  omega

theorem marks_rgb32 {f : PixelFormat} (h : f.bytesPerPixel = 4) :
    Marks f (if (f = .rgba || f = .bgra) then [0, 1, 2] else [3, 2, 1]) := by
  intro k
  rw [← isRgb32_iff, PixelFormat.isRgb32] at h
  simp only [Bool.or_eq_true, decide_eq_true_eq] at h
  rcases h with ((h | h) | h) | h <;> subst h <;>
    simp [PixelFormat.bytesPerPixel, PixelFormat.channels] <;> omega

section Pairs

variable (himg : img.Stored) (himage : image.Stored) (hwidth : image.width = img.width)
  (hheight : image.height = img.height)

include himg himage hwidth hheight

theorem overlay_luma (hlayers : img.imagePixFormat.planar → img.Layered av)
    (hone : img.imagePixFormat.bytesPerPixel = 1) (hone' : image.imagePixFormat.bytesPerPixel = 1)
    (hyuv : ¬(img.imagePixFormat.isYuv420 ∧ image.imagePixFormat.isYuv420)) :
    ∃ result, img.overlay av brgToYuv fresh image = some result ∧
      (img.Overlaid av brgToYuv grey image result ↔ img.Suits av brgToYuv grey image) := by
  obtain ⟨result, hrun, hpainted⟩ := exists_over 0 1 id himg.within himage hwidth hheight
    (marks_luma hone') (fun k hk ↦ hone' ▸ hk) hone.ge hlayers
  rw [hone, hone'] at hrun
  refine ⟨result, ?_, hpainted.luma_iff himg.supported hone hone' hyuv⟩
  rw [overlay, if_neg (not_not.mpr ⟨hwidth.symm, hheight.symm⟩), if_neg hyuv, if_pos ⟨hone, hone'⟩]
  exact hrun

theorem overlay_rgb24 (hthree : img.imagePixFormat.bytesPerPixel = 3)
    (hthree' : image.imagePixFormat.bytesPerPixel = 3) :
    ∃ result, img.overlay av brgToYuv fresh image = some result ∧
      (img.Overlaid av brgToYuv grey image result ↔ img.Suits av brgToYuv grey image) := by
  have hone : img.imagePixFormat.bytesPerPixel ≠ 1 := by omega
  obtain ⟨result, hrun, hpainted⟩ := exists_over 0 3 id himg.within himage hwidth hheight
    (marks_rgb24 hthree') (fun k hk ↦ hthree' ▸ hk) hthree.ge
    fun hplanar ↦ absurd hplanar (not_planar hone)
  rw [hthree, hthree'] at hrun
  rw [← hthree] at hpainted
  replace hrun : img.overRows image 3 3 (rgb24OverRgb24 image.buffer) = some result := hrun
  refine ⟨result, ?_, hpainted.rgb_iff himg.supported hone (hthree'.trans hthree.symm)⟩
  simpa [overlay, hwidth, hheight, not_yuv420 hone, ne_gray8 hone, isRgb24_iff, hthree, hthree']
    using hrun

theorem overlay_rgb32 (hfour : img.imagePixFormat.bytesPerPixel = 4)
    (hfour' : image.imagePixFormat.bytesPerPixel = 4) :
    ∃ result, img.overlay av brgToYuv fresh image = some result ∧
      (img.Overlaid av brgToYuv grey image result ↔ img.Suits av brgToYuv grey image) := by
  have hone : img.imagePixFormat.bytesPerPixel ≠ 1 := by omega
  obtain ⟨result, hrun, hpainted⟩ := exists_over 0 4 id himg.within himage hwidth hheight
    (marks_rgb32 hfour') (fun k hk ↦ hfour' ▸ hk) hfour.ge
    fun hplanar ↦ absurd hplanar (not_planar hone)
  rw [hfour, hfour'] at hrun
  rw [← hfour] at hpainted
  replace hrun : img.overRows image 4 4 (rgb32OverRgb32
      (image.imagePixFormat = .rgba || image.imagePixFormat = .bgra) image.buffer) =
    some result := hrun
  refine ⟨result, ?_, hpainted.rgb_iff himg.supported hone (hfour'.trans hfour.symm)⟩
  simpa [overlay, hwidth, hheight, not_yuv420 hone, ne_gray8 hone, isRgb24_iff, isRgb32_iff, hfour,
    hfour'] using hrun

theorem overlay_grey_rgb24 (hthree : img.imagePixFormat.bytesPerPixel = 3)
    (hone' : image.imagePixFormat.bytesPerPixel = 1) :
    ∃ result, img.overlay av brgToYuv fresh image = some result ∧
      (img.Overlaid av brgToYuv grey image result ↔ img.Suits av brgToYuv grey image) := by
  have hone : img.imagePixFormat.bytesPerPixel ≠ 1 := by omega
  obtain ⟨result, hrun, hpainted⟩ := exists_over 0 3 (fun _ ↦ 0) himg.within himage hwidth hheight
    (marks_luma hone') (fun _ _ ↦ hone' ▸ Nat.one_pos) hthree.ge
    fun hplanar ↦ absurd hplanar (not_planar hone)
  rw [hthree, hone'] at hrun
  replace hrun : img.overRows image 1 3 (lumaOverRgb24 image.buffer) = some result := hrun
  refine ⟨result, ?_, hpainted.grey_iff himg.supported hone hone' fun x y ↦ ?_⟩
  · simpa [overlay, hwidth, hheight, not_yuv420 hone, ne_gray8 hone, isRgb24_iff, hthree, hone']
      using hrun
  · have hchannels := channels_lt himg.supported hone
    refine iff_of_true (fun k hk ↦ .inl ?_) fun halpha ↦ ?_
    · omega
    · have hfour := bytesPerPixel_of_alphaLast halpha
      omega

theorem overlay_grey_rgb32 (hfour : img.imagePixFormat.bytesPerPixel = 4)
    (hone' : image.imagePixFormat.bytesPerPixel = 1) :
    ∃ result, img.overlay av brgToYuv fresh image = some result ∧
      (img.Overlaid av brgToYuv grey image result ↔ img.Suits av brgToYuv grey image) := by
  have hone : img.imagePixFormat.bytesPerPixel ≠ 1 := by omega
  have hover (result : Picture) (hrun : img.overRows image 1 4 (lumaOverRgb32
      (img.imagePixFormat = .rgba || img.imagePixFormat = .bgra) image.buffer) = some result) :
      img.overlay av brgToYuv fresh image = some result := by
    simpa [overlay, hwidth, hheight, not_yuv420 hone, ne_gray8 hone, isRgb24_iff, isRgb32_iff,
      hfour, hone'] using hrun
  by_cases halpha : img.imagePixFormat = .rgba ∨ img.imagePixFormat = .bgra
  · obtain ⟨result, hrun, hpainted⟩ := exists_over 0 1 (fun _ ↦ 0) himg.within himage hwidth hheight
      (marks_luma hone') (fun _ _ ↦ hone' ▸ Nat.one_pos) (by omega)
      fun hplanar ↦ absurd hplanar (not_planar hone)
    rw [hfour, hone'] at hrun
    refine ⟨result, hover result ?_, hpainted.grey_iff himg.supported hone hone' fun x y ↦ ?_⟩
    · rw [lumaOverRgb32, if_pos (by simpa using halpha)]
      exact hrun
    · rcases halpha with heq | heq <;> rw [heq] <;> simp [PixelFormat.channels, and_comm]
  · obtain ⟨result, hrun, hpainted⟩ := exists_over 1 3 (fun _ ↦ 0) himg.within himage hwidth hheight
      (marks_luma hone') (fun _ _ ↦ hone' ▸ Nat.one_pos) (by omega)
      fun hplanar ↦ absurd hplanar (not_planar hone)
    rw [hfour, hone'] at hrun
    refine ⟨result, hover result ?_, hpainted.grey_iff himg.supported hone hone' fun x y ↦ ?_⟩
    · rw [lumaOverRgb32, if_neg (by simpa using halpha)]
      exact hrun
    · have hformat : img.imagePixFormat = .argb ∨ img.imagePixFormat = .abgr := by
        revert halpha hfour
        cases img.imagePixFormat <;> decide
      rcases hformat with heq | heq <;> rw [heq] <;> simp [PixelFormat.channels]

end Pairs

section Grey

variable {f : PixelFormat} {reqColours reqSubpixelorder size : ℕ}

theorem byteOf_greyPixel : ∀ v : UInt8,
    byteOf (greyPixel false v) 0 = v ∧ byteOf (greyPixel false v) 1 = v ∧
      byteOf (greyPixel false v) 2 = v ∧ byteOf (greyPixel true v) 1 = v ∧
      byteOf (greyPixel true v) 2 = v ∧ byteOf (greyPixel true v) 3 = v :=
  byte_induction (by decide +kernel)

/-- The rows of an image in a format, as FFmpeg lays them out. -/
def rowsIn (av : AvImage) (img : Picture) (f : PixelFormat) : Raster :=
  ⟨0, align32 (av.getLinesize f img.width), f.bytesPerPixel, img.width, img.height⟩

theorem rowsIn_within (hplanar : ¬ f.planar)
    (hsize : av.getBufferSize f img.width img.height = some size) :
    (rowsIn av img f).Within size := by
  obtain ⟨arrays, harrays⟩ := Option.isSome_iff_exists.mp
    ((av.fill f img.width img.height).trans (Option.isSome_of_eq_some hsize))
  have hwithin := av.within _ _ _ _ _ hsize harrays 0 (by
    rw [PixelFormat.planeCount, if_neg hplanar]
    exact Nat.one_pos)
  rw [plane_zero harrays, if_neg hplanar] at hwithin
  exact hwithin

theorem exists_fillGrey (fresh : ℕ → UInt8) (himg : img.Stored)
    (hgray : img.imagePixFormat = .gray8) (hplanar : ¬ f.planar)
    (hsize : av.getBufferSize f img.width img.height = some size)
    (pixel : UInt8 → ℕ → UInt8) :
    ∃ newBuffer : Plane, img.fillGrey av fresh f pixel size = some newBuffer ∧
      newBuffer.size = size ∧ ∀ x < img.width, ∀ y < img.height, ∀ k < f.bytesPerPixel,
        newBuffer.content ((rowsIn av img f).place x y k) = pixel (img.byte x y 0) k := by
  have hwithin := rowsIn_within hplanar hsize
  have himgWithin : (img.rows 1).Within img.buffer.size := by
    have hrows := himg.within
    rw [hgray] at hrows
    exact hrows
  have hbyte (x y k : ℕ) : img.byte x y k = img.buffer.content ((img.rows 1).place x y k) := by
    rw [byte, hgray]
    rfl
  have hpixel (x : ℕ) (hx : x < img.width) (y : ℕ) (hy : y < img.height) :
      Cells.Sets (fun newBuffer : Plane ↦ newBuffer.fill ((rowsIn av img f).place x y 0)
        f.bytesPerPixel fun k ↦ (img.buffer.read ((img.rows 1).place x y 0)).map (pixel · k)) size
        fun i ↦ if (rowsIn av img f).place x y 0 ≤ i ∧
            i < (rowsIn av img f).place x y 0 + f.bytesPerPixel then
          some (pixel (img.byte x y 0) (i - (rowsIn av img f).place x y 0)) else none := by
    refine .fill (fun k _ ↦ ?_) ?_
    · rw [Cells.read_of_lt (himgWithin.place_lt hx hy Nat.one_pos), Option.map_some, hbyte]
    · exact hwithin.pixel_le hx hy (Nat.zero_add _).le
  refine ⟨_, Raster.eachPixel_sets hpixel ⟨fresh, size⟩ rfl, rfl, fun x hx y hy k hk ↦ ?_⟩
  dsimp only
  rw [Raster.lastPixel_eq hx hy]
  · have hin : (rowsIn av img f).place x y 0 ≤ (rowsIn av img f).place x y k ∧
        (rowsIn av img f).place x y k < (rowsIn av img f).place x y 0 + f.bytesPerPixel := by
      simp only [Raster.place]
      omega
    have hsub : (rowsIn av img f).place x y k - (rowsIn av img f).place x y 0 = k := by
      simp only [Raster.place]
      omega
    rw [if_pos hin, hsub, Option.getD_some]
  · intro x' hx' y' _ hne
    refine if_neg fun hin ↦ hne ?_
    exact hwithin.eq_of_between hx hk hx' (Nat.zero_add _).le hin.1 hin.2

/-- The bytes of a grey pixel in an RGB format. -/
def greyIn (f : PixelFormat) (v : UInt8) (k : ℕ) : UInt8 :=
  if f.isRgb32 then byteOf (greyPixel (f = .abgr || f = .argb) v) (UInt32.ofNat k) else v

theorem greyIn_channels (v : UInt8) (hnone : f ≠ .none)
    (hone : f.bytesPerPixel ≠ 1) :
    greyIn f v f.channels.1 = v ∧ greyIn f v f.channels.2.1 = v ∧
      greyIn f v f.channels.2.2 = v := by
  obtain ⟨h₀, h₁, h₂, h₁', h₂', h₃'⟩ := byteOf_greyPixel v
  cases f with
  | none => exact absurd rfl hnone
  | gray8 | yuv420p | yuvj420p | yuv422p | yuvj422p => exact absurd rfl hone
  | rgb24 | bgr24 => exact ⟨rfl, rfl, rfl⟩
  | rgba => exact ⟨h₀, h₁, h₂⟩
  | bgra => exact ⟨h₂, h₁, h₀⟩
  | argb => exact ⟨h₁', h₂', h₃'⟩
  | abgr => exact ⟨h₃', h₂', h₁'⟩

theorem colourise_eq (hgray : img.imagePixFormat = .gray8)
    (hformat : zmPixformatFromColours reqColours reqSubpixelorder = f) (hnone : f ≠ .none)
    (hone : f.bytesPerPixel ≠ 1)
    (hsize : av.getBufferSize f img.width img.height = some size) :
    img.colourise av fresh reqColours reqSubpixelorder =
      (img.fillGrey av fresh f (greyIn f) size).map fun newBuffer ↦
        img.assignDirect av ⟨img.width, img.height, reqColours, reqSubpixelorder⟩ newBuffer := by
  have hrgb : f.isRgb32 ∨ ¬ f.isRgb32 ∧ f.isRgb24 := by
    revert hnone hone
    cases f <;> decide
  simp only [colourise, hformat, hgray, ne_eq, not_true_eq_false, if_false, hsize]
  rcases hrgb with hrgb | ⟨hrgb, hrgb'⟩
  · have hgrey : greyIn f = fun v k ↦
        byteOf (greyPixel (f = .abgr || f = .argb) v) (UInt32.ofNat k) := by
      funext v k
      exact if_pos hrgb
    rw [if_pos hrgb, hgrey]
  · have hgrey : greyIn f = fun v _ ↦ v := by
      funext v k
      exact if_neg hrgb
    rw [if_neg hrgb, if_pos hrgb', hgrey]

/-- A grey image in an RGB format. -/
theorem exists_colourise (fresh : ℕ → UInt8) (himg : img.Stored)
    (hgray : img.imagePixFormat = .gray8)
    (hformat : zmPixformatFromColours reqColours reqSubpixelorder = f) (hnone : f ≠ .none)
    (hone : f.bytesPerPixel ≠ 1) (hplanar : ¬ f.planar)
    (hsize : av.getBufferSize f img.width img.height = some size)
    (hroom : img.holdBuffer → size ≤ img.buffer.size) :
    ∃ img', img.colourise av fresh reqColours reqSubpixelorder = some img' ∧
      (img'.width = img.width ∧ img'.height = img.height ∧ img'.imagePixFormat = f) ∧
      (img'.rows f.bytesPerPixel).Within img'.buffer.size ∧
      ∀ x < img.width, ∀ y < img.height,
        img'.colour x y = .rgb (img.byte x y 0) (img.byte x y 0) (img.byte x y 0) := by
  subst hformat
  set f := zmPixformatFromColours reqColours reqSubpixelorder
  have hwithin := rowsIn_within hplanar hsize
  obtain ⟨newBuffer, hfill, hnewSize, hbytes⟩ :=
    exists_fillGrey fresh himg hgray hplanar hsize (greyIn f)
  obtain ⟨buffer, hassign, hle, -, hcontent⟩ := exists_assignDirect
    ⟨img.width, img.height, reqColours, reqSubpixelorder⟩ himg.width_pos himg.height_pos hnone hsize
    hroom hnewSize
  refine ⟨img.reshape av ⟨img.width, img.height, reqColours, reqSubpixelorder⟩ buffer, ?_,
    ⟨rfl, rfl, rfl⟩, hwithin.mono hle, fun x hx y hy ↦ ?_⟩
  · rw [colourise_eq hgray rfl hnone hone hsize, hfill, Option.map_some, hassign]
  · have hbyte (k : ℕ) (hk : k < f.bytesPerPixel) :
        (img.reshape av ⟨img.width, img.height, reqColours, reqSubpixelorder⟩ buffer).byte x y k =
          greyIn f (img.byte x y 0) k := by
      have hplace : (rowsIn av img f).place x y k < size := hwithin.place_lt hx hy hk
      exact (hcontent _ hplace).trans (hbytes x hx y hy k hk)
    obtain ⟨hr, hg, hb⟩ := channels_lt hnone hone
    obtain ⟨hr', hg', hb'⟩ := greyIn_channels (img.byte x y 0) hnone hone
    refine (if_neg hone).trans ?_
    refine (congr (congrArg₂ Colour.rgb (hbyte _ hr) (hbyte _ hg)) (hbyte _ hb)).trans ?_
    rw [hr', hg', hb']

/-- A grey image that has no room for the format stays as it is. -/
theorem colourise_of_not_room (fresh : ℕ → UInt8) (himg : img.Stored)
    (hgray : img.imagePixFormat = .gray8)
    (hformat : zmPixformatFromColours reqColours reqSubpixelorder = f) (hnone : f ≠ .none)
    (hone : f.bytesPerPixel ≠ 1) (hplanar : ¬ f.planar)
    (hroom : ¬∃ size, av.getBufferSize f img.width img.height = some size ∧
      (img.holdBuffer → size ≤ img.buffer.size)) :
    img.colourise av fresh reqColours reqSubpixelorder = some img := by
  cases hsize : av.getBufferSize f img.width img.height with
  | none => simp only [colourise, hformat, hgray, ne_eq, not_true_eq_false, if_false, hsize]
  | some size =>
    obtain ⟨newBuffer, hfill, hnewSize, -⟩ :=
      exists_fillGrey fresh himg hgray hplanar hsize (greyIn f)
    obtain ⟨hhold, hsmall⟩ := Classical.not_imp.mp fun h ↦ hroom ⟨size, hsize, h⟩
    rw [colourise_eq hgray hformat hnone hone hsize, hfill, Option.map_some]
    subst hformat
    exact congrArg some (assignDirect_of_held
      ⟨img.width, img.height, reqColours, reqSubpixelorder⟩ hsize hhold (not_le.mp hsmall) _)

variable (himg : img.Stored) (himage : image.Stored) (hwidth : image.width = img.width)
  (hheight : image.height = img.height)

include himage hwidth hheight

/-- The grey image takes the format first. -/
theorem overlay_grey (brgToYuv : UInt32 → UInt32) (fresh : ℕ → UInt8)
    (hgray : img.imagePixFormat = .gray8)
    (hone' : image.imagePixFormat.bytesPerPixel ≠ 1) :
    ∃ body : PixelFormat → ℕ → ℕ → Plane → Option Plane,
      (img.overlay av brgToYuv fresh image =
        (img.colourise av fresh image.colours image.subpixelorder).bind fun img' ↦
          img'.overRows image image.imagePixFormat.bytesPerPixel image.imagePixFormat.bytesPerPixel
            (body img'.imagePixFormat)) ∧
      ∃ marks, Marks image.imagePixFormat marks ∧ body image.imagePixFormat =
        overPixel image.buffer marks 0 image.imagePixFormat.bytesPerPixel id := by
  have hyuv : ¬ PixelFormat.gray8.isYuv420 := by decide
  have hone : PixelFormat.gray8.bytesPerPixel = 1 := rfl
  obtain hthree | hfour := (bytesPerPixel_cases himage.supported).resolve_left hone'
  · refine ⟨fun _ ↦ rgb24OverRgb24 image.buffer, ?_, _, marks_rgb24 hthree, hthree ▸ rfl⟩
    simp [overlay, hwidth, hheight, hgray, hyuv, hone, isRgb24_iff, hthree]
  · refine ⟨fun f ↦ rgb32OverRgb32 (f = .rgba || f = .bgra) image.buffer, ?_, _,
      marks_rgb32 hfour, hfour ▸ rfl⟩
    simp [overlay, hwidth, hheight, hgray, hyuv, hone, isRgb24_iff, isRgb32_iff, hfour]

include himg

theorem overlay_grey_iff (hgray : img.imagePixFormat = .gray8)
    (hone' : image.imagePixFormat.bytesPerPixel ≠ 1) :
    (∃ result, img.overlay av brgToYuv fresh image = some result ∧
      img.Overlaid av brgToYuv grey image result) ↔ img.Suits av brgToYuv grey image := by
  obtain ⟨body, hoverlay, marks, hmarks, hbody⟩ := overlay_grey himage hwidth hheight
    brgToYuv fresh hgray hone'
  have hformat : zmPixformatFromColours image.colours image.subpixelorder =
      image.imagePixFormat := himage.format.symm
  have hplanar := not_planar hone'
  have hyuv : ¬ img.imagePixFormat.isYuv420 := by
    rw [hgray]
    decide
  by_cases hroom : ∃ size, av.getBufferSize image.imagePixFormat img.width img.height = some size ∧
      (img.holdBuffer → size ≤ img.buffer.size)
  · have hsuits : img.Suits av brgToYuv grey image := by
      refine ⟨fun horders ↦ ?_, fun halpha ↦ ?_, fun _ _ ↦ hroom, fun himg ↦ absurd himg hyuv⟩
      · rw [hgray] at horders
        exact horders.elim (fun h ↦ absurd h.1 (by decide)) fun h ↦ absurd h.1 (by decide)
      · rw [hgray] at halpha
        exact absurd halpha (by decide)
    obtain ⟨size, hsize, hheld⟩ := hroom
    obtain ⟨img', hcolourise, ⟨hw', hh', hf'⟩, hwithin, hcolour⟩ := exists_colourise fresh
      himg hgray hformat himage.supported hone' hplanar hsize hheld
    rw [← hf'] at hwithin hplanar
    obtain ⟨result, hrun, hpainted⟩ := exists_over 0 image.imagePixFormat.bytesPerPixel id
      hwithin himage (hwidth.trans hw'.symm) (hheight.trans hh'.symm) hmarks
      (fun _ hk ↦ hk) (by rw [hf', Nat.zero_add]) fun hplane ↦ absurd hplane hplanar
    have hone : img'.imagePixFormat.bytesPerPixel ≠ 1 := hf' ▸ hone'
    have hsuits' : img'.Suits av brgToYuv grey image := by
      refine ⟨fun _ x _ y _ _ ↦ by rw [hf'], fun _ hone ↦ absurd hone hone',
        fun hgray' ↦ absurd hgray' (ne_gray8 hone), fun hyuv ↦ absurd hyuv (not_yuv420 hone)⟩
    rw [hf'] at hrun
    have hoverlaid := (Painted.rgb_iff (hf'.symm ▸ hpainted) (hf' ▸ himage.supported) hone
      (congrArg _ hf'.symm)).mpr hsuits'
    refine iff_of_true ⟨result, ?_, ?_⟩ hsuits
    · rw [hoverlay, hcolourise, Option.bind_some, hf', hbody]
      exact hrun
    · have hresult : result.imagePixFormat = image.imagePixFormat :=
        hpainted.imagePixFormat.trans hf'
      have hone := hresult ▸ hone'
      refine ⟨hoverlaid.width.trans hw', hoverlaid.height.trans hh',
        hresult.trans (if_pos ⟨hgray, hone'⟩).symm, fun x hx y hy hmarked ↦ ?_,
        fun x hx y hy hmarked ↦ hoverlaid.shown x (hw' ▸ hx) y (hh' ▸ hy) hmarked,
        fun himg ↦ absurd himg hyuv, fun himg ↦ absurd himg hyuv⟩
      have hluma : img.colour x y = .luma (img.byte x y 0) := by
        rw [colour, hgray]
        rfl
      rw [hoverlaid.kept x (hw' ▸ hx) y (hh' ▸ hy) hmarked, hcolour x hx y hy, hluma]
      simp only [Colour.shown, if_neg hone]
  · have hcolourise := colourise_of_not_room fresh himg hgray hformat himage.supported
      hone' hplanar hroom
    refine iff_of_false ?_ fun hsuits ↦ hroom (hsuits.room hgray hone')
    rintro ⟨result, hrun, hoverlaid⟩
    rw [hoverlay, hcolourise, Option.bind_some, overRows] at hrun
    obtain ⟨buffer, -, rfl⟩ := Option.map_eq_some_iff.mp hrun
    have hsame : img.imagePixFormat = image.imagePixFormat :=
      hoverlaid.imagePixFormat.trans (if_pos ⟨hgray, hone'⟩)
    rw [← hsame, hgray] at hone'
    exact hone' rfl

end Grey

end Picture

end ZoneMinder.Image
