import ZoneMinder.Image.Overlay

namespace ZoneMinder.Image

open Lib

section Pixels

variable {src : Plane} {s d : Raster} {marks : List ℕ} {first count size : ℕ} {value : ℕ → ℕ}

theorem anyM_eq {α : Type} {l : List α} {f : α → Option Bool} {g : α → Bool}
    (h : ∀ a ∈ l, f a = some (g a)) : l.anyM f = some (l.any g) := by
  induction l with
  | nil => rfl
  | cons a l ih =>
    rw [List.anyM, h a List.mem_cons_self, ih fun b hb ↦ h b (List.mem_cons_of_mem a hb),
      List.any_cons]
    cases g a <;> rfl

theorem overPixel_sets {x y : ℕ} (hs : s.Within src.size) (hd : d.Within size)
    (hsx : x < s.width) (hsy : y < s.height) (hdx : x < d.width) (hdy : y < d.height)
    (hmarks : ∀ k ∈ marks, k < s.bytes) (hvalue : ∀ k < count, value k < s.bytes)
    (hcount : first + count ≤ d.bytes) :
    Cells.Sets (overPixel src marks first count value (s.place x y 0) (d.place x y 0)) size
      fun i ↦ if ∃ k ∈ marks, src.content (s.place x y k) ≠ 0 then
        if d.place x y first ≤ i ∧ i < d.place x y first + count then
          some (src.content (s.place x y (value (i - d.place x y first)))) else none
      else none := by
  have hread (k : ℕ) (hk : k < s.bytes) :
      src.read (s.place x y 0 + k) = some (src.content (s.place x y k)) := by
    rw [Raster.place_add, Nat.zero_add]
    exact Cells.read_of_lt (hs.place_lt hsx hsy hk)
  have hany : (marks.anyM fun k ↦ (src.read (s.place x y 0 + k)).map (· ≠ 0)) =
      some (marks.any fun k ↦ src.content (s.place x y k) ≠ 0) :=
    anyM_eq fun k hk ↦ by rw [hread k (hmarks k hk), Option.map_some]
  have hmarked : (marks.any fun k ↦ src.content (s.place x y k) ≠ 0) = true ↔
      ∃ k ∈ marks, src.content (s.place x y k) ≠ 0 := by
    simp [List.any_eq_true]
  refine (Cells.Sets.ite fun _ ↦ Cells.Sets.fill (fun k hk ↦ hread _ (hvalue k hk))
    (hd.pixel_le hdx hdy hcount)).of_eq fun dst _ ↦ ?_
  rw [overPixel, hany, Option.bind_some, Raster.place_add, Nat.zero_add]
  simp only [hmarked]

variable (marks first count value) in
/-- All the pixels of an image over those of another: each byte is written once at most. -/
theorem overPixels_sets (hs : s.Within src.size) (hd : d.Within size) (hwidth : s.width = d.width)
    (hheight : s.height = d.height) (hmarks : ∀ k ∈ marks, k < s.bytes)
    (hvalue : ∀ k < count, value k < s.bytes) (hcount : first + count ≤ d.bytes) {c : Plane}
    (hc : c.size = size) :
    ∃ c' : Plane, Raster.eachPixel d.width d.height (fun x y ↦
        overPixel src marks first count value (s.place x y 0) (d.place x y 0)) c = some c' ∧
      c'.size = size ∧ (∀ x < d.width, ∀ y < d.height, ∀ k < d.bytes,
        c'.content (d.place x y k) =
          if (∃ m ∈ marks, src.content (s.place x y m) ≠ 0) ∧ first ≤ k ∧ k < first + count then
            src.content (s.place x y (value (k - first)))
          else c.content (d.place x y k)) ∧
      ∀ i, ¬ d.Holds i → c'.content i = c.content i := by
  have hrun := Raster.eachPixel_sets (fun x hx y hy ↦ overPixel_sets hs hd (hwidth ▸ hx)
    (hheight ▸ hy) hx hy hmarks hvalue hcount) c hc
  refine ⟨_, hrun, rfl, fun x hx y hy k hk ↦ ?_, fun i hi ↦ ?_⟩
  · dsimp only
    rw [Raster.lastPixel_eq hx hy]
    · have hbetween : (d.place x y first ≤ d.place x y k ∧
          d.place x y k < d.place x y first + count) ↔ first ≤ k ∧ k < first + count := by
        simp only [Raster.place]
        omega
      have hsub : d.place x y k - d.place x y first = k - first := by
        simp only [Raster.place]
        omega
      simp only [hbetween, hsub]
      by_cases hmark : ∃ m ∈ marks, src.content (s.place x y m) ≠ 0
      · by_cases hin : first ≤ k ∧ k < first + count
        · rw [if_pos hmark, if_pos hin, if_pos ⟨hmark, hin⟩, Option.getD_some]
        · rw [if_pos hmark, if_neg hin, if_neg fun h ↦ hin h.2, Option.getD_none]
      · rw [if_neg hmark, if_neg fun h ↦ hmark h.1, Option.getD_none]
    · intro x' hx' y' _ hne
      split_ifs with _ hbetween
      · exact absurd (hd.eq_of_between hx hk hx' hcount hbetween.1 hbetween.2) hne
      · rfl
      · rfl
  · dsimp only
    rw [Raster.lastPixel_eq_none_iff.mpr, Option.getD_none]
    intro x hx y hy
    split_ifs with _ hbetween
    · refine absurd ⟨x, hx, y, hy, first + (i - d.place x y first), by omega, ?_⟩ hi
      rw [← Raster.place_add]
      omega
    · rfl
    · rfl

end Pixels

namespace Picture

variable {av : AvImage} {brgToYuv : UInt32 → UInt32} {fresh : ℕ → UInt8}
  {grey : Option (UInt8 × UInt8)} {img image result : Picture} {marks : List ℕ}
  {first count x y : ℕ} {value : ℕ → ℕ}

section Formats

variable {f : PixelFormat}

theorem isRgb24_iff : f.isRgb24 ↔ f.bytesPerPixel = 3 := by
  cases f <;> decide

theorem isRgb32_iff : f.isRgb32 ↔ f.bytesPerPixel = 4 := by
  cases f <;> decide

theorem bytesPerPixel_pos (hnone : f ≠ .none) : 0 < f.bytesPerPixel := by
  revert hnone
  cases f <;> decide

theorem bytesPerPixel_cases (hnone : f ≠ .none) :
    f.bytesPerPixel = 1 ∨ f.bytesPerPixel = 3 ∨ f.bytesPerPixel = 4 := by
  revert hnone
  cases f <;> decide

theorem channels_lt (hnone : f ≠ .none) (hone : f.bytesPerPixel ≠ 1) :
    f.channels.1 < f.bytesPerPixel ∧ f.channels.2.1 < f.bytesPerPixel ∧
      f.channels.2.2 < f.bytesPerPixel := by
  revert hnone hone
  cases f <;> decide

theorem bytesPerPixel_of_yuv420 (h : f.isYuv420) : f.bytesPerPixel = 1 := by
  revert h
  cases f <;> decide

theorem bytesPerPixel_of_alphaLast (h : f = .rgba ∨ f = .bgra) :
    f.bytesPerPixel = 4 := by
  rcases h with rfl | rfl <;> rfl

theorem not_yuv420 (h : f.bytesPerPixel ≠ 1) : ¬ f.isYuv420 :=
  fun hyuv ↦ h (bytesPerPixel_of_yuv420 hyuv)

theorem not_planar (h : f.bytesPerPixel ≠ 1) : ¬ f.planar := by
  revert h
  cases f <;> decide

theorem ne_gray8 (h : f.bytesPerPixel ≠ 1) : f ≠ .gray8 := by
  rintro rfl
  exact h rfl

theorem planar_of_yuv420 (h : f.isYuv420) : f.planar := by
  revert h
  cases f <;> decide

end Formats

/-- The image is as it was, but for bytes of the pixels that are marked. -/
structure Painted (av : AvImage) (img image result : Picture) (first count : ℕ) (value : ℕ → ℕ) :
    Prop where
  width : result.width = img.width
  height : result.height = img.height
  imagePixFormat : result.imagePixFormat = img.imagePixFormat
  byte : ∀ x < img.width, ∀ y < img.height, ∀ k < img.imagePixFormat.bytesPerPixel,
    result.byte x y k =
      if image.Marked x y ∧ first ≤ k ∧ k < first + count then
        image.byte x y (value (k - first))
      else img.byte x y k
  sample : img.imagePixFormat.planar → ∀ cx < (img.width + 1) / 2, ∀ cy < (img.height + 1) / 2,
    result.sample av cx cy = img.sample av cx cy

/-- The bytes of a pixel that mark it. -/
def Marks (f : PixelFormat) (marks : List ℕ) : Prop :=
  ∀ k, k ∈ marks ↔ if f.bytesPerPixel = 1 then k = 0
    else k = f.channels.1 ∨ k = f.channels.2.1 ∨ k = f.channels.2.2

theorem marked_iff (hmarks : Marks img.imagePixFormat marks) :
    (∃ k ∈ marks, img.byte x y k ≠ 0) ↔ img.Marked x y := by
  simp only [show ∀ k, k ∈ marks ↔ _ from hmarks, Marked, colour, rgbAs]
  split_ifs
  · simp
  · simp only [ne_eq, reduceCtorEq, not_false_eq_true, true_and, Colour.rgb.injEq]
    constructor
    · rintro ⟨k, rfl | rfl | rfl, hk⟩ <;> tauto
    · intro h
      by_contra hnone
      push Not at hnone
      exact h ⟨hnone _ (.inl rfl), hnone _ (.inr (.inl rfl)), hnone _ (.inr (.inr rfl))⟩

/-- The first plane has the rows of the image. -/
theorem plane_zero {arrays : Arrays} {width height : ℕ} {f : PixelFormat}
    (harrays : av.fillArrays f width height = some arrays) :
    arrays.plane f width height 0 =
      ⟨0, align32 (av.getLinesize f width), if f.planar then 1 else f.bytesPerPixel, width,
        height⟩ := by
  rw [Arrays.plane, av.begins _ _ _ _ harrays, av.stride _ _ _ _ harrays]
  rfl

theorem Layered.exists_arrays (h : img.Layered av) (hplanar : img.imagePixFormat.planar) :
    ∃ arrays, av.fillArrays img.imagePixFormat img.width img.height = some arrays ∧
      arrays.plane img.imagePixFormat img.width img.height 0 = img.rows 1 ∧
      ∀ p < 3, (arrays.plane img.imagePixFormat img.width img.height p).Within img.buffer.size := by
  obtain ⟨arrays, harrays, hwithin⟩ := h.planes
  refine ⟨arrays, harrays, ?_, hwithin⟩
  rw [plane_zero harrays, if_pos hplanar, rows, h.linesize]

/-- An image that samples its colours, in a buffer with room for its planes. -/
theorem Layered.of_linesize {size : ℕ} (hplanar : img.imagePixFormat.planar)
    (hlinesize : img.linesize = align32 (av.getLinesize img.imagePixFormat img.width))
    (hsize : av.getBufferSize img.imagePixFormat img.width img.height = some size)
    (hle : size ≤ img.buffer.size) : img.Layered av := by
  obtain ⟨arrays, harrays⟩ := Option.isSome_iff_exists.mp
    ((av.fill img.imagePixFormat img.width img.height).trans (Option.isSome_of_eq_some hsize))
  have hcount : img.imagePixFormat.planeCount = 3 := if_pos hplanar
  exact ⟨hlinesize, arrays, harrays, fun p hp ↦
    (av.within _ _ _ _ _ hsize harrays p (hcount ▸ hp)).mono hle⟩

/-- A place of one of the planes of the colours. -/
theorem chroma_inside {f : PixelFormat} (hplanar : f.planar) (arrays : Arrays)
    {width height p cx cy : ℕ} (hp : p ≠ 0) (hcx : cx < (width + 1) / 2)
    (hcy : cy < (height + 1) / 2) :
    cx < (arrays.plane f width height p).width ∧ cy < (arrays.plane f width height p).height ∧
      0 < (arrays.plane f width height p).bytes := by
  have hchroma : f.log2Chroma.1 = 1 ∧ (f.log2Chroma.2 = 1 ∨ f.log2Chroma.2 = 0) := by
    revert hplanar
    cases f <;> decide
  have hsize : cx < (planeSize f width height p).1 ∧ cy < (planeSize f width height p).2 := by
    rw [planeSize, if_neg hp, hchroma.1]
    simp only [ceilRshift, Nat.shiftRight_eq_div_pow]
    rcases hchroma.2 with heq | heq <;> rw [heq] <;> omega
  have hbytes : 0 < (arrays.plane f width height p).bytes := by
    rw [Arrays.plane, if_pos hplanar]
    exact Nat.one_pos
  exact ⟨hsize.1, hsize.2, hbytes⟩

theorem chroma_holds {f : PixelFormat} (hplanar : f.planar) (arrays : Arrays)
    {width height p cx cy : ℕ} (hp : p ≠ 0) (hcx : cx < (width + 1) / 2)
    (hcy : cy < (height + 1) / 2) :
    (arrays.plane f width height p).Holds ((arrays.plane f width height p).place cx cy 0) := by
  obtain ⟨hx, hy, hbytes⟩ := chroma_inside hplanar arrays hp hcx hcy
  exact ⟨cx, hx, cy, hy, 0, hbytes, rfl⟩

theorem exists_over (first count : ℕ) (value : ℕ → ℕ)
    (himg : (img.rows img.imagePixFormat.bytesPerPixel).Within img.buffer.size)
    (himage : image.Stored) (hwidth : image.width = img.width)
    (hheight : image.height = img.height) (hmarks : Marks image.imagePixFormat marks)
    (hvalue : ∀ k < count, value k < image.imagePixFormat.bytesPerPixel)
    (hcount : first + count ≤ img.imagePixFormat.bytesPerPixel)
    (hplanes : img.imagePixFormat.planar → img.Layered av) :
    ∃ result, img.overRows image image.imagePixFormat.bytesPerPixel img.imagePixFormat.bytesPerPixel
        (overPixel image.buffer marks first count value) = some result ∧
      Painted av img image result first count value := by
  have hmark (x y : ℕ) : (∃ k ∈ marks, image.byte x y k ≠ 0) ↔ image.Marked x y :=
    marked_iff hmarks
  have hlt (k : ℕ) (hk : k ∈ marks) : k < image.imagePixFormat.bytesPerPixel := by
    have hk' := (hmarks k).mp hk
    split_ifs at hk' with hone
    · omega
    · have hchannels := channels_lt himage.supported hone
      rcases hk' with rfl | rfl | rfl <;> tauto
  obtain ⟨buffer, hrun, -, hbytes, hrest⟩ := overPixels_sets marks first count value himage.within
    himg hwidth hheight hlt hvalue hcount rfl
  refine ⟨{ img with buffer := buffer }, ?_, rfl, rfl, rfl, fun x hx y hy k hk ↦ ?_,
    fun hplanar cx hcx cy hcy ↦ ?_⟩
  · rw [overRows]
    exact congrArg _ hrun
  · have hmarked := hmark x y
    refine (hbytes x hx y hy k hk).trans ?_
    simp only [← hmarked]
    rfl
  · obtain ⟨arrays, harrays, hfirst, -⟩ := (hplanes hplanar).exists_arrays hplanar
    have hcount : img.imagePixFormat.planeCount = 3 := if_pos hplanar
    have hone : img.imagePixFormat.bytesPerPixel = 1 := by
      revert hplanar
      cases img.imagePixFormat <;> decide
    have hsame (p : ℕ) (hp : p < 3) (hp0 : p ≠ 0) :
        buffer.content ((arrays.plane img.imagePixFormat img.width img.height p).place cx cy 0) =
          img.buffer.content
            ((arrays.plane img.imagePixFormat img.width img.height p).place cx cy 0) := by
      refine hrest _ fun hholds ↦ ?_
      rw [hone, ← hfirst] at hholds
      exact av.apart _ _ _ _ harrays p (hcount ▸ hp) 0 (by omega) hp0 _
        (chroma_holds hplanar arrays hp0 hcx hcy) hholds
    simp only [Picture.sample, harrays]
    rw [hsame 1 (by decide) (by decide), hsame 2 (by decide) (by decide)]

/-- A colour depends on the bytes of the pixel only. -/
theorem colour_congr (hnone : img.imagePixFormat ≠ .none)
    (hformat : result.imagePixFormat = img.imagePixFormat)
    (hbyte : ∀ k < img.imagePixFormat.bytesPerPixel, result.byte x y k = img.byte x y k) :
    result.colour x y = img.colour x y := by
  rw [colour, colour, hformat]
  split_ifs with hone
  · rw [hbyte 0 (bytesPerPixel_pos hnone)]
  · obtain ⟨hr, hg, hb⟩ := channels_lt hnone hone
    rw [rgbAs, rgbAs, hbyte _ hr, hbyte _ hg, hbyte _ hb]

theorem shown_colour (img : Picture) (x y : ℕ) :
    (img.colour x y).shown brgToYuv img.imagePixFormat = img.colour x y := by
  rw [colour]
  split_ifs with hone
  · exact if_pos hone
  · exact if_neg hone

/-- What is left to be shown: the marked pixels, and their chroma. -/
theorem Painted.overlaid_iff (h : Painted av img image result first count value)
    (hnone : img.imagePixFormat ≠ .none)
    (hformats : ¬(img.imagePixFormat = .gray8 ∧ image.imagePixFormat.bytesPerPixel ≠ 1)) :
    img.Overlaid av brgToYuv grey image result ↔
      (∀ x < img.width, ∀ y < img.height, image.Marked x y →
        result.colour x y = (image.colour x y).shown brgToYuv img.imagePixFormat) ∧
      (img.imagePixFormat.isYuv420 → ∀ cx < (img.width + 1) / 2, ∀ cy < (img.height + 1) / 2,
        (∃ x y, image.MarkedIn cx cy x y) → ∃ x y, image.MarkedIn cx cy x y ∧
          ∀ c, image.chroma av brgToYuv grey x y = some c → img.sample av cx cy = c) := by
  have hplanar (hyuv : img.imagePixFormat.isYuv420) : img.imagePixFormat.planar := by
    revert hyuv
    cases img.imagePixFormat <;> decide
  constructor
  · intro ho
    refine ⟨fun x hx y hy hmarked ↦ h.imagePixFormat ▸ ho.shown x hx y hy hmarked,
      fun hyuv cx hcx cy hcy hex ↦ ?_⟩
    rw [← h.sample (hplanar hyuv) cx hcx cy hcy]
    exact ho.chroma_shown hyuv cx hcx cy hcy hex
  · rintro ⟨hshown, hchroma⟩
    refine ⟨h.width, h.height, h.imagePixFormat.trans (if_neg hformats).symm,
      fun x hx y hy hmarked ↦ ?_, fun x hx y hy hmarked ↦ ?_, fun hyuv cx hcx cy hcy _ ↦ ?_,
      fun hyuv cx hcx cy hcy hex ↦ ?_⟩
    · rw [h.imagePixFormat, shown_colour]
      refine colour_congr hnone h.imagePixFormat fun k hk ↦ ?_
      rw [h.byte x hx y hy k hk, if_neg fun hand ↦ hmarked hand.1]
    · rw [h.imagePixFormat]
      exact hshown x hx y hy hmarked
    · exact h.sample (hplanar hyuv) cx hcx cy hcy
    · rw [h.sample (hplanar hyuv) cx hcx cy hcy]
      exact hchroma hyuv cx hcx cy hcy hex

/-- The marked pixel of an RGB image. -/
theorem Painted.colour_rgb (h : Painted av img image result first count value)
    (hnone : img.imagePixFormat ≠ .none) (hone : img.imagePixFormat.bytesPerPixel ≠ 1)
    (hx : x < img.width) (hy : y < img.height) (hmarked : image.Marked x y) :
    result.colour x y =
      let byte := fun k ↦ if first ≤ k ∧ k < first + count then image.byte x y (value (k - first))
        else img.byte x y k
      .rgb (byte img.imagePixFormat.channels.1) (byte img.imagePixFormat.channels.2.1)
        (byte img.imagePixFormat.channels.2.2) := by
  obtain ⟨hr, hg, hb⟩ := channels_lt hnone hone
  rw [colour, h.imagePixFormat, if_neg hone, rgbAs, h.byte x hx y hy _ hr, h.byte x hx y hy _ hg,
    h.byte x hx y hy _ hb]
  simp only [hmarked, true_and]

/-- A luma over a luma. -/
theorem Painted.luma_iff (h : Painted av img image result 0 1 id)
    (hnone : img.imagePixFormat ≠ .none) (hone : img.imagePixFormat.bytesPerPixel = 1)
    (himage : image.imagePixFormat.bytesPerPixel = 1)
    (hyuv : ¬(img.imagePixFormat.isYuv420 ∧ image.imagePixFormat.isYuv420)) :
    img.Overlaid av brgToYuv grey image result ↔ img.Suits av brgToYuv grey image := by
  rw [h.overlaid_iff hnone fun hformats ↦ hformats.2 himage]
  have hshown (x : ℕ) (hx : x < img.width) (y : ℕ) (hy : y < img.height)
      (hmarked : image.Marked x y) :
      result.colour x y = (image.colour x y).shown brgToYuv img.imagePixFormat := by
    rw [colour, colour, if_pos (h.imagePixFormat ▸ hone), if_pos himage, Colour.shown, if_pos hone,
      h.byte x hx y hy 0 (hone ▸ Nat.one_pos), if_pos ⟨hmarked, le_rfl, Nat.one_pos⟩]
    rfl
  constructor
  · rintro ⟨-, hchroma⟩
    refine ⟨fun horders ↦ ?_, fun halpha ↦ ?_, fun _ hrgb ↦ absurd himage hrgb,
      fun hyuv _ _ ↦ hchroma hyuv⟩
    · rw [isRgb24_iff, isRgb24_iff, isRgb32_iff, isRgb32_iff] at horders
      omega
    · have hfour := bytesPerPixel_of_alphaLast halpha
      omega
  · intro hsuits
    exact ⟨hshown, fun himg ↦ hsuits.chroma himg himage fun hboth ↦ hyuv ⟨himg, hboth⟩⟩

/-- Two RGB images, the bytes of whose pixels are copied as they are. -/
theorem Painted.rgb_iff (h : Painted av img image result 0 img.imagePixFormat.bytesPerPixel id)
    (hnone : img.imagePixFormat ≠ .none) (hone : img.imagePixFormat.bytesPerPixel ≠ 1)
    (hsame : image.imagePixFormat.bytesPerPixel = img.imagePixFormat.bytesPerPixel) :
    img.Overlaid av brgToYuv grey image result ↔ img.Suits av brgToYuv grey image := by
  have hgray : img.imagePixFormat ≠ .gray8 := fun heq ↦ hone (by rw [heq]; rfl)
  have hyuv : ¬ img.imagePixFormat.isYuv420 := fun hyuv ↦ hone (bytesPerPixel_of_yuv420 hyuv)
  obtain ⟨hr, hg, hb⟩ := channels_lt hnone hone
  have hcolour (x : ℕ) (hx : x < img.width) (y : ℕ) (hy : y < img.height)
      (hmarked : image.Marked x y) : result.colour x y = image.rgbAs img.imagePixFormat x y := by
    rw [h.colour_rgb hnone hone hx hy hmarked]
    simp only [Nat.zero_le, Nat.zero_add, hr, hg, hb, and_self, if_true]
    rfl
  have hwant (x y : ℕ) : (image.colour x y).shown brgToYuv img.imagePixFormat =
      image.rgbAs image.imagePixFormat x y := by
    rw [colour, if_neg (hsame ▸ hone)]
    exact if_neg hone
  rw [h.overlaid_iff hnone fun hformats ↦ hgray hformats.1]
  constructor
  · rintro ⟨hshown, -⟩
    refine ⟨fun _ x hx y hy hmarked ↦ ?_, fun _ himage ↦ absurd (hsame.symm.trans himage) hone,
      fun himg ↦ absurd himg hgray, fun himg ↦ absurd himg hyuv⟩
    rw [← hcolour x hx y hy hmarked, ← hwant]
    exact hshown x hx y hy hmarked
  · intro hsuits
    have hbytes := bytesPerPixel_cases hnone
    refine ⟨fun x hx y hy hmarked ↦ ?_, fun himg ↦ absurd himg hyuv⟩
    rw [hcolour x hx y hy hmarked, hwant]
    refine hsuits.orders ?_ x hx y hy hmarked
    rw [isRgb24_iff, isRgb24_iff, isRgb32_iff, isRgb32_iff]
    omega

/-- A grey over an RGB image is right where the bytes that are not written are, and that they are is
asked for of no other images. -/
theorem Painted.grey_iff (h : Painted av img image result first count fun _ ↦ 0)
    (hnone : img.imagePixFormat ≠ .none) (hone : img.imagePixFormat.bytesPerPixel ≠ 1)
    (himage : image.imagePixFormat.bytesPerPixel = 1)
    (hright : ∀ x y, (∀ k, k = img.imagePixFormat.channels.1 ∨
        k = img.imagePixFormat.channels.2.1 ∨ k = img.imagePixFormat.channels.2.2 →
        first ≤ k ∧ k < first + count ∨ img.byte x y k = image.byte x y 0) ↔
      (img.imagePixFormat = .rgba ∨ img.imagePixFormat = .bgra →
        img.byte x y 1 = image.byte x y 0 ∧ img.byte x y 2 = image.byte x y 0)) :
    img.Overlaid av brgToYuv grey image result ↔ img.Suits av brgToYuv grey image := by
  have hgray : img.imagePixFormat ≠ .gray8 := fun heq ↦ hone (by rw [heq]; rfl)
  have hyuv : ¬ img.imagePixFormat.isYuv420 := fun hyuv ↦ hone (bytesPerPixel_of_yuv420 hyuv)
  have hpixel (x : ℕ) (hx : x < img.width) (y : ℕ) (hy : y < img.height)
      (hmarked : image.Marked x y) :
      result.colour x y = (image.colour x y).shown brgToYuv img.imagePixFormat ↔
        (img.imagePixFormat = .rgba ∨ img.imagePixFormat = .bgra →
          img.byte x y 1 = image.byte x y 0 ∧ img.byte x y 2 = image.byte x y 0) := by
    rw [h.colour_rgb hnone hone hx hy hmarked, colour, if_pos himage, Colour.shown, if_neg hone,
      ← hright]
    simp only [Colour.rgb.injEq, forall_eq_or_imp, forall_eq]
    grind
  rw [h.overlaid_iff hnone fun hformats ↦ hformats.2 himage]
  constructor
  · rintro ⟨hshown, -⟩
    refine ⟨fun horders ↦ ?_, fun halpha _ x hx y hy hmarked ↦ ?_,
      fun himg ↦ absurd himg hgray, fun himg ↦ absurd himg hyuv⟩
    · rw [isRgb24_iff, isRgb24_iff, isRgb32_iff, isRgb32_iff] at horders
      omega
    · exact (hpixel x hx y hy hmarked).mp (hshown x hx y hy hmarked) halpha
  · intro hsuits
    exact ⟨fun x hx y hy hmarked ↦ (hpixel x hx y hy hmarked).mpr fun halpha ↦
      hsuits.alphaLast halpha himage x hx y hy hmarked, fun himg ↦ absurd himg hyuv⟩

end Picture

end ZoneMinder.Image
