import ZoneMinder.Image.OverlayGrey

namespace ZoneMinder.Image

open Lib

namespace Picture

variable {av : AvImage} {brgToYuv : UInt32 → UInt32} {fresh : ℕ → UInt8}
  {grey : Option (UInt8 × UInt8)} {img image result : Picture} {marks : List ℕ}
  {first count x y : ℕ} {value : ℕ → ℕ}

section Sampled

variable {arrays srcArrays : Arrays} {cx cy : ℕ}

theorem suits_of_sampled (hyuv : img.imagePixFormat.isYuv420)
    (himage : image.imagePixFormat.bytesPerPixel = 1 → image.imagePixFormat.isYuv420) :
    img.Suits av brgToYuv grey image := by
  have hone := bytesPerPixel_of_yuv420 hyuv
  refine ⟨fun horders ↦ ?_, fun halpha ↦ ?_, fun hgray ↦ ?_,
    fun _ hone' hyuv' ↦ absurd (himage hone') hyuv'⟩
  · rw [isRgb24_iff, isRgb24_iff, isRgb32_iff, isRgb32_iff] at horders
    omega
  · have hfour := bytesPerPixel_of_alphaLast halpha
    omega
  · rw [hgray] at hyuv
    cases hyuv

/-- The planes of an image that samples its colours, apart from each other in its buffer. -/
structure Sampling (planes : ℕ → Raster) (img : Picture) : Prop where
  rows : planes 0 = img.rows 1
  within : ∀ p < 3, (planes p).Within img.buffer.size
  apart : ∀ p < 3, ∀ q < 3, p ≠ q → ∀ i, (planes p).Holds i → ¬ (planes q).Holds i
  inside : ∀ p < 3, p ≠ 0 → ∀ cx < (img.width + 1) / 2, ∀ cy < (img.height + 1) / 2,
    cx < (planes p).width ∧ cy < (planes p).height ∧ 0 < (planes p).bytes

theorem Layered.exists_sampling (h : img.Layered av) (hplanar : img.imagePixFormat.planar) :
    ∃ arrays, av.fillArrays img.imagePixFormat img.width img.height = some arrays ∧
      Sampling (arrays.plane img.imagePixFormat img.width img.height) img := by
  obtain ⟨arrays, harrays, hrows, hwithin⟩ := h.exists_arrays hplanar
  have hcount : img.imagePixFormat.planeCount = 3 := if_pos hplanar
  exact ⟨arrays, harrays, hrows, hwithin, hcount ▸ av.apart _ _ _ _ harrays,
    fun p _ hp cx hcx cy hcy ↦ chroma_inside hplanar arrays hp hcx hcy⟩

section Planes

variable {planes : ℕ → Raster} {p : ℕ}

theorem Sampling.holds (h : Sampling planes img) (hp : p < 3) (hp0 : p ≠ 0)
    (hcx : cx < (img.width + 1) / 2) (hcy : cy < (img.height + 1) / 2) :
    (planes p).Holds ((planes p).place cx cy 0) := by
  obtain ⟨hx, hy, hbytes⟩ := h.inside p hp hp0 cx hcx cy hcy
  exact ⟨cx, hx, cy, hy, 0, hbytes, rfl⟩

theorem Sampling.luma_holds (h : Sampling planes img) (hx : x < img.width) (hy : y < img.height) :
    (planes 0).Holds ((planes 0).place x y 0) := by
  rw [h.rows]
  exact ⟨x, hx, y, hy, 0, Nat.one_pos, rfl⟩

/-- Places of two planes are never the same. -/
theorem Sampling.place_ne (h : Sampling planes img) (hp : p < 3) {q : ℕ} (hq : q < 3) (hpq : p ≠ q)
    {i j : ℕ} (hi : (planes p).Holds i) (hj : (planes q).Holds j) : i ≠ j := by
  rintro rfl
  exact h.apart p hp q hq hpq _ hi hj

/-- Two samples are at the same place only if they are the same. -/
theorem Sampling.place_iff (h : Sampling planes img) (hp : p < 3) (hp0 : p ≠ 0)
    (hcx : cx < (img.width + 1) / 2) (hcy : cy < (img.height + 1) / 2) {cx' cy' : ℕ}
    (hcx' : cx' < (img.width + 1) / 2) (hcy' : cy' < (img.height + 1) / 2) :
    (planes p).place cx cy 0 = (planes p).place cx' cy' 0 ↔ cx' = cx ∧ cy' = cy := by
  obtain ⟨hx, -, hbytes⟩ := h.inside p hp hp0 cx hcx cy hcy
  obtain ⟨hx', -⟩ := h.inside p hp hp0 cx' hcx' cy' hcy'
  constructor
  · intro heq
    have hsame := (h.within p hp).place_inj hx hbytes hx' hbytes heq
    exact ⟨hsame.1.symm, hsame.2.1.symm⟩
  · rintro ⟨rfl, rfl⟩
    rfl

theorem Sampling.luma_place_iff (h : Sampling planes img) (hx : x < img.width) {x' y' : ℕ}
    (hx' : x' < img.width) :
    (planes 0).place x y 0 = (planes 0).place x' y' 0 ↔ x' = x ∧ y' = y := by
  have hwithin := h.within 0 (by decide)
  rw [h.rows] at hwithin ⊢
  constructor
  · intro heq
    have hsame := hwithin.place_inj hx Nat.one_pos hx' Nat.one_pos heq
    exact ⟨hsame.1.symm, hsame.2.1.symm⟩
  · rintro ⟨rfl, rfl⟩
    rfl

end Planes

/-- What the colours of a pixel convert into. -/
def yuvOf (brgToYuv : UInt32 → UInt32) (image : Picture) (x y : ℕ) : UInt32 :=
  brgToYuv (packRgb (image.byte x y image.imagePixFormat.channels.1)
    (image.byte x y image.imagePixFormat.channels.2.1)
    (image.byte x y image.imagePixFormat.channels.2.2))

theorem rgbOverYuv420_sets (himage : image.Stored) (hwidth : image.width = img.width)
    (hheight : image.height = img.height) (hone : image.imagePixFormat.bytesPerPixel ≠ 1)
    {planes : ℕ → Raster} (hplanes : Sampling planes img) (hx : x < img.width)
    (hy : y < img.height) :
    Cells.Sets (rgbOverYuv420 brgToYuv image.buffer image.imagePixFormat.channels planes
        ((image.rows image.imagePixFormat.bytesPerPixel).place x y 0) x y) img.buffer.size fun i ↦
      if image.Marked x y then
        if i = (planes 2).place (x / 2) (y / 2) 0 then some (byteOf (yuvOf brgToYuv image x y) 0)
        else if i = (planes 1).place (x / 2) (y / 2) 0 then
          some (byteOf (yuvOf brgToYuv image x y) 1)
        else if i = (planes 0).place x y 0 then some (byteOf (yuvOf brgToYuv image x y) 2)
        else none
      else none := by
  obtain ⟨hr, hg, hb⟩ := channels_lt himage.supported hone
  have hread (k : ℕ) (hk : k < image.imagePixFormat.bytesPerPixel) :
      image.buffer.read ((image.rows image.imagePixFormat.bytesPerPixel).place x y 0 + k) =
        some (image.byte x y k) := by
    rw [Raster.place_add, Nat.zero_add]
    exact Cells.read_of_lt (himage.within.place_lt (hx.trans_eq hwidth.symm)
      (hy.trans_eq hheight.symm) hk)
  have hmarked : (image.byte x y image.imagePixFormat.channels.1 ≠ 0 ∨
      image.byte x y image.imagePixFormat.channels.2.1 ≠ 0 ∨
      image.byte x y image.imagePixFormat.channels.2.2 ≠ 0) ↔ image.Marked x y := by
    rw [Marked, colour, if_neg hone, rgbAs]
    simp only [ne_eq, reduceCtorEq, not_false_eq_true, true_and, Colour.rgb.injEq]
    tauto
  have hlt (p : ℕ) (hp : p < 3) (hp0 : p ≠ 0) :
      (planes p).place (x / 2) (y / 2) 0 < img.buffer.size :=
    (hplanes.within p hp).lt_of_holds (hplanes.holds hp hp0 (by omega) (by omega))
  have hluma : (planes 0).place x y 0 < img.buffer.size :=
    (hplanes.within 0 (by decide)).lt_of_holds (hplanes.luma_holds hx hy)
  have hwrites := ((Cells.Sets.write (a := byteOf (yuvOf brgToYuv image x y) 2) hluma).bind
    (.write (a := byteOf (yuvOf brgToYuv image x y) 1) (hlt 1 (by decide) (by decide)))).bind
    (.write (a := byteOf (yuvOf brgToYuv image x y) 0) (hlt 2 (by decide) (by decide)))
  refine ((Cells.Sets.ite (p := image.Marked x y) fun _ ↦ hwrites).of_eq
    fun dst _ ↦ ?_).congr fun i ↦ ?_
  · simp only [rgbOverYuv420, hread _ hr, hread _ hg, hread _ hb, Option.bind_eq_bind,
      Option.bind_some, hmarked, Option.bind_assoc]
    rfl
  · split_ifs <;> rfl

/-- The last of the marked pixels that share a sample. -/
def lastMarked (image : Picture) (width height cx cy : ℕ) : Option (ℕ × ℕ) :=
  Raster.lastPixel width height fun x y ↦
    if image.Marked x y ∧ x / 2 = cx ∧ y / 2 = cy then some (x, y) else none

theorem markedIn_of_lastMarked (hwidth : image.width = img.width)
    (hheight : image.height = img.height) {p : ℕ × ℕ}
    (h : lastMarked image img.width img.height cx cy = some p) :
    image.MarkedIn cx cy p.1 p.2 := by
  obtain ⟨x, hx, y, hy, hp⟩ := Raster.exists_of_lastPixel h
  split_ifs at hp with hmarked
  obtain rfl := Option.some.inj hp
  exact ⟨⟨hx.trans_eq hwidth.symm, hy.trans_eq hheight.symm⟩, hmarked.2, hmarked.1⟩

/-- What an image leaves in the planes of another: lumas where its pixels are marked, and in each
sample that some of them share what there is for the last of these. -/
structure Drawn (planes : ℕ → Raster) (img image : Picture) (value : ℕ → ℕ → UInt8)
    (sampled : ℕ → ℕ × ℕ → UInt8) (buffer : Plane) : Prop where
  luma : ∀ x < img.width, ∀ y < img.height, buffer.content ((planes 0).place x y 0) =
    if image.Marked x y then value x y else img.buffer.content ((planes 0).place x y 0)
  chroma : ∀ p, (p = 1 ∨ p = 2) → ∀ cx < (img.width + 1) / 2, ∀ cy < (img.height + 1) / 2,
    buffer.content ((planes p).place cx cy 0) =
      match lastMarked image img.width img.height cx cy with
      | some q => sampled p q
      | none => img.buffer.content ((planes p).place cx cy 0)

theorem rgbOverYuv420_drawn (brgToYuv : UInt32 → UInt32) (himage : image.Stored)
    (hwidth : image.width = img.width) (hheight : image.height = img.height)
    (hone : image.imagePixFormat.bytesPerPixel ≠ 1) {planes : ℕ → Raster}
    (hplanes : Sampling planes img) :
    ∃ buffer : Plane, Raster.eachPixel img.width img.height (fun x y ↦
        rgbOverYuv420 brgToYuv image.buffer image.imagePixFormat.channels planes
          ((image.rows image.imagePixFormat.bytesPerPixel).place x y 0) x y) img.buffer =
            some buffer ∧
      Drawn planes img image (fun x y ↦ byteOf (yuvOf brgToYuv image x y) 2)
        (fun p q ↦ byteOf (yuvOf brgToYuv image q.1 q.2) (if p = 1 then 1 else 0)) buffer := by
  refine ⟨_, Raster.eachPixel_sets (fun x hx y hy ↦
    rgbOverYuv420_sets himage hwidth hheight hone hplanes hx hy) img.buffer rfl,
    fun x hx y hy ↦ ?_, fun p hp cx hcx cy hcy ↦ ?_⟩
  · have hchroma (p : ℕ) (hp : p < 3) (hp0 : p ≠ 0) (x' : ℕ) (hx' : x' < img.width) (y' : ℕ)
        (hy' : y' < img.height) :
        (planes 0).place x y 0 ≠ (planes p).place (x' / 2) (y' / 2) 0 :=
      hplanes.place_ne (by decide) hp hp0.symm (hplanes.luma_holds hx hy)
        (hplanes.holds hp hp0 (by omega) (by omega))
    dsimp only
    rw [Raster.lastPixel_eq hx hy]
    · rw [if_neg (hchroma 2 (by decide) (by decide) x hx y hy),
        if_neg (hchroma 1 (by decide) (by decide) x hx y hy), if_pos rfl]
      split_ifs <;> rfl
    · intro x' hx' y' hy' hne
      rw [if_neg (hchroma 2 (by decide) (by decide) x' hx' y' hy'),
        if_neg (hchroma 1 (by decide) (by decide) x' hx' y' hy'),
        if_neg (mt (hplanes.luma_place_iff hx hx').mp hne), ite_self]
  · have hp3 : p < 3 := by omega
    have hp0 : p ≠ 0 := by omega
    have hholds := hplanes.holds hp3 hp0 hcx hcy
    have hpixel : (Raster.lastPixel img.width img.height fun x y ↦
        if image.Marked x y then
          if (planes p).place cx cy 0 = (planes 2).place (x / 2) (y / 2) 0 then
            some (byteOf (yuvOf brgToYuv image x y) 0)
          else if (planes p).place cx cy 0 = (planes 1).place (x / 2) (y / 2) 0 then
            some (byteOf (yuvOf brgToYuv image x y) 1)
          else if (planes p).place cx cy 0 = (planes 0).place x y 0 then
            some (byteOf (yuvOf brgToYuv image x y) 2)
          else none
        else none) = (lastMarked image img.width img.height cx cy).map fun q ↦
          byteOf (yuvOf brgToYuv image q.1 q.2) (if p = 1 then 1 else 0) := by
      rw [lastMarked, ← Raster.lastPixel_map]
      refine Raster.lastPixel_congr fun x hx y hy ↦ ?_
      have hluma : (planes p).place cx cy 0 ≠ (planes 0).place x y 0 :=
        hplanes.place_ne hp3 (by decide) hp0 hholds (hplanes.luma_holds hx hy)
      have hother (q : ℕ) (hq : q < 3) (hq0 : q ≠ 0) (hpq : p ≠ q) :
          (planes p).place cx cy 0 ≠ (planes q).place (x / 2) (y / 2) 0 :=
        hplanes.place_ne hp3 hq hpq hholds (hplanes.holds hq hq0 (by omega) (by omega))
      have hsame : (planes p).place cx cy 0 = (planes p).place (x / 2) (y / 2) 0 ↔
          x / 2 = cx ∧ y / 2 = cy :=
        hplanes.place_iff hp3 hp0 hcx hcy (by omega) (by omega)
      rw [if_neg hluma]
      rcases hp with rfl | rfl
      · rw [if_neg (hother 2 (by decide) (by decide) (by decide))]
        simp only [hsame]
        split_ifs <;> first | rfl | tauto
      · rw [if_neg (hother 1 (by decide) (by decide) (by decide))]
        simp only [hsame]
        split_ifs <;> first | rfl | tauto
    dsimp only
    rw [hpixel]
    cases lastMarked image img.width img.height cx cy <;> rfl

theorem isSome_lastMarked_iff (hwidth : image.width = img.width)
    (hheight : image.height = img.height) :
    (lastMarked image img.width img.height cx cy).isSome ↔ ∃ x y, image.MarkedIn cx cy x y := by
  constructor
  · intro h
    obtain ⟨p, hlast⟩ := Option.isSome_iff_exists.mp h
    exact ⟨p.1, p.2, markedIn_of_lastMarked hwidth hheight hlast⟩
  · rintro ⟨x, y, ⟨hx, hy⟩, hblock, hmarked⟩
    rw [Option.isSome_iff_ne_none]
    intro hnone
    have hpixel := Raster.lastPixel_eq_none_iff.mp hnone x (hwidth ▸ hx) y (hheight ▸ hy)
    rw [if_pos ⟨hmarked, hblock⟩] at hpixel
    cases hpixel

theorem blockMarked_eq (himage : image.Stored) (hwidth : image.width = img.width)
    (hheight : image.height = img.height) (hone : image.imagePixFormat.bytesPerPixel = 1)
    (cx cy : ℕ) :
    blockMarked image.buffer (image.rows 1) img.width img.height cx cy =
      some (lastMarked image img.width img.height cx cy).isSome := by
  have hmark (x y : ℕ) : image.byte x y 0 ≠ 0 ↔ image.Marked x y := by
    rw [← marked_iff (marks_luma hone)]
    simp
  have hread (x y : ℕ) (hx : x < img.width) (hy : y < img.height) :
      image.buffer.read ((image.rows 1).place x y 0) = some (image.byte x y 0) := by
    have hwithin := himage.within
    rw [hone] at hwithin
    rw [byte, hone]
    exact Cells.read_of_lt (hwithin.place_lt (hx.trans_eq hwidth.symm) (hy.trans_eq hheight.symm)
      Nat.one_pos)
  have hblock : blockMarked image.buffer (image.rows 1) img.width img.height cx cy =
      some ([0, 1].any fun dy ↦ [0, 1].any fun dx ↦ (cx * 2 + dx < img.width ∧
        cy * 2 + dy < img.height) ∧ image.Marked (cx * 2 + dx) (cy * 2 + dy)) := by
    refine anyM_eq fun dy _ ↦ ?_
    split_ifs with hy
    · refine anyM_eq fun dx _ ↦ ?_
      split_ifs with hx
      · rw [hread _ _ hx hy, Option.map_some]
        simp only [hx, hy, hmark, and_self, true_and]
      · simp only [hx, false_and, decide_false]
    · simp only [hy, and_false, false_and, decide_false, List.any_cons, List.any_nil, Bool.or_self]
  rw [hblock, Option.some_inj, Bool.eq_iff_iff, isSome_lastMarked_iff hwidth hheight]
  simp only [List.any_eq_true, decide_eq_true_eq]
  constructor
  · rintro ⟨dy, hdy, dx, hdx, ⟨hx, hy⟩, hmarked⟩
    simp only [List.mem_cons, List.not_mem_nil, or_false] at hdx hdy
    exact ⟨_, _, ⟨hx.trans_eq hwidth.symm, hy.trans_eq hheight.symm⟩, by omega, hmarked⟩
  · rintro ⟨x, y, ⟨hx, hy⟩, hplace, hmarked⟩
    have hx' : cx * 2 + x % 2 = x := by omega
    have hy' : cy * 2 + y % 2 = y := by omega
    refine ⟨y % 2, ?_, x % 2, ?_, ?_⟩
    · rcases Nat.mod_two_eq_zero_or_one y with h | h <;> simp [h]
    · rcases Nat.mod_two_eq_zero_or_one x with h | h <;> simp [h]
    · rw [hx', hy']
      exact ⟨⟨hx.trans_eq hwidth, hy.trans_eq hheight⟩, hmarked⟩

section Chroma

variable {planes srcPlanes : ℕ → Raster} (himage : image.Stored)
  (hwidth : image.width = img.width) (hheight : image.height = img.height)
  (hone : image.imagePixFormat.bytesPerPixel = 1) (hplanes : Sampling planes img)
  (hsrc : Sampling srcPlanes image)

include himage hwidth hheight hone hplanes hsrc

theorem chromaOverChroma_sets (hcx : cx < (img.width + 1) / 2) (hcy : cy < (img.height + 1) / 2) :
    Cells.Sets (chromaOverChroma image.buffer srcPlanes planes img.width img.height cx cy)
      img.buffer.size fun i ↦
      if (lastMarked image img.width img.height cx cy).isSome then
        if i = (planes 2).place cx cy 0 then
          some (image.buffer.content ((srcPlanes 2).place cx cy 0))
        else if i = (planes 1).place cx cy 0 then
          some (image.buffer.content ((srcPlanes 1).place cx cy 0))
        else none
      else none := by
  have hread (p : ℕ) (hp : p < 3) (hp0 : p ≠ 0) :
      image.buffer.read ((srcPlanes p).place cx cy 0) =
        some (image.buffer.content ((srcPlanes p).place cx cy 0)) :=
    Cells.read_of_lt ((hsrc.within p hp).lt_of_holds (hsrc.holds hp hp0 (by omega) (by omega)))
  have hlt (p : ℕ) (hp : p < 3) (hp0 : p ≠ 0) : (planes p).place cx cy 0 < img.buffer.size :=
    (hplanes.within p hp).lt_of_holds (hplanes.holds hp hp0 hcx hcy)
  have hwrites := (Cells.Sets.write (a := image.buffer.content ((srcPlanes 1).place cx cy 0))
    (hlt 1 (by decide) (by decide))).bind
    (.write (a := image.buffer.content ((srcPlanes 2).place cx cy 0))
      (hlt 2 (by decide) (by decide)))
  refine ((Cells.Sets.ite (p := (lastMarked image img.width img.height cx cy).isSome)
    fun _ ↦ hwrites).of_eq fun dst _ ↦ ?_).congr fun i ↦ ?_
  · simp only [chromaOverChroma, hsrc.rows, blockMarked_eq himage hwidth hheight hone,
      Option.bind_some, hread 1 (by decide) (by decide), hread 2 (by decide) (by decide),
      Option.bind_eq_bind]
  · split_ifs <;> rfl

theorem yuv420OverYuv420_drawn :
    ∃ buffer : Plane, yuv420OverYuv420 image.buffer srcPlanes planes img.width img.height
        img.buffer = some buffer ∧
      Drawn planes img image (image.byte · · 0)
        (fun p q ↦ image.buffer.content ((srcPlanes p).place (q.1 / 2) (q.2 / 2) 0)) buffer := by
  have hwithin := hplanes.within 0 (by decide)
  have hsrcWithin := hsrc.within 0 (by decide)
  obtain ⟨middle, hfirst, hsize, hluma, hrest⟩ := overPixels_sets [0] 0 1 id hsrcWithin hwithin
    (by rw [hsrc.rows, hplanes.rows]; exact hwidth) (by rw [hsrc.rows, hplanes.rows]; exact hheight)
    (by rw [hsrc.rows]; simp [rows]) (by rw [hsrc.rows]; simp [rows])
    (by rw [hplanes.rows]; exact le_rfl) (rfl : img.buffer.size = _)
  have hsecond := Raster.eachPixel_sets (fun cx hcx cy hcy ↦
    chromaOverChroma_sets himage hwidth hheight hone hplanes hsrc hcx hcy) middle hsize
  have hrun : yuv420OverYuv420 image.buffer srcPlanes planes img.width img.height img.buffer =
      (some middle).bind (Raster.eachPixel ((img.width + 1) / 2) ((img.height + 1) / 2) fun cx cy ↦
        chromaOverChroma image.buffer srcPlanes planes img.width img.height cx cy) := by
    rw [yuv420OverYuv420, ← hfirst, hplanes.rows]
    rfl
  refine ⟨_, hrun.trans hsecond, fun x hx y hy ↦ ?_, fun p hp cx hcx cy hcy ↦ ?_⟩
  · have hholds := hplanes.luma_holds hx hy
    have hmarked : (∃ k ∈ [0], image.buffer.content ((srcPlanes 0).place x y k) ≠ 0) ↔
        image.Marked x y := by
      rw [← marked_iff (marks_luma hone), hsrc.rows]
      simp only [byte, hone]
    have hpixel := hluma x (by rwa [hplanes.rows]) y (by rwa [hplanes.rows]) 0
      (by rw [hplanes.rows]; exact Nat.one_pos)
    have hbyte : image.byte x y 0 = image.buffer.content ((srcPlanes 0).place x y 0) := by
      rw [byte, hone, hsrc.rows]
    dsimp only
    rw [Raster.lastPixel_eq_none_iff.mpr, Option.getD_none, hpixel, hbyte]
    · simp only [hmarked, Nat.le_refl, Nat.zero_add, Nat.one_pos, and_self, and_true, id,
        Nat.sub_self]
    · intro cx hcx cy hcy
      have hne (p : ℕ) (hp : p < 3) (hp0 : p ≠ 0) :
          (planes 0).place x y 0 ≠ (planes p).place cx cy 0 :=
        hplanes.place_ne (by decide) hp hp0.symm hholds (hplanes.holds hp hp0 hcx hcy)
      rw [if_neg (hne 2 (by decide) (by decide)), if_neg (hne 1 (by decide) (by decide)), ite_self]
  · have hp3 : p < 3 := by omega
    have hp0 : p ≠ 0 := by omega
    have hholds := hplanes.holds hp3 hp0 hcx hcy
    have hmiddle : middle.content ((planes p).place cx cy 0) =
        img.buffer.content ((planes p).place cx cy 0) :=
      hrest _ fun hi ↦ hplanes.apart p hp3 0 (by decide) hp0 _ hholds hi
    have hother (q : ℕ) (hq : q < 3) (hq0 : q ≠ 0) (hpq : p ≠ q) (cx' : ℕ)
        (hcx' : cx' < (img.width + 1) / 2) (cy' : ℕ) (hcy' : cy' < (img.height + 1) / 2) :
        (planes p).place cx cy 0 ≠ (planes q).place cx' cy' 0 :=
      hplanes.place_ne hp3 hq hpq hholds (hplanes.holds hq hq0 hcx' hcy')
    have hpixel (cx' : ℕ) (hcx' : cx' < (img.width + 1) / 2) (cy' : ℕ)
        (hcy' : cy' < (img.height + 1) / 2) :
        (if (planes p).place cx cy 0 = (planes 2).place cx' cy' 0 then
          some (image.buffer.content ((srcPlanes 2).place cx' cy' 0))
        else if (planes p).place cx cy 0 = (planes 1).place cx' cy' 0 then
          some (image.buffer.content ((srcPlanes 1).place cx' cy' 0))
        else none) = if (planes p).place cx cy 0 = (planes p).place cx' cy' 0 then
          some (image.buffer.content ((srcPlanes p).place cx' cy' 0)) else none := by
      rcases hp with rfl | rfl
      · rw [if_neg (hother 2 (by decide) (by decide) (by decide) cx' hcx' cy' hcy')]
      · rw [if_neg (hother 1 (by decide) (by decide) (by decide) cx' hcx' cy' hcy')]
    dsimp only
    rw [Raster.lastPixel_eq hcx hcy, hpixel cx hcx cy hcy, if_pos rfl, hmiddle]
    · cases hlast : lastMarked image img.width img.height cx cy with
      | none => rfl
      | some q =>
        obtain ⟨hblock, hblock'⟩ := (markedIn_of_lastMarked hwidth hheight hlast).2.1
        dsimp only
        rw [hblock, hblock']
        rfl
    · intro cx' hcx' cy' hcy' hne
      rw [hpixel cx' hcx' cy' hcy',
        if_neg (mt (hplanes.place_iff hp3 hp0 hcx hcy hcx' hcy').mp hne), ite_self]

end Chroma

theorem sample_eq (harrays : av.fillArrays img.imagePixFormat img.width img.height = some arrays)
    (buffer : Plane) : sample av { img with buffer := buffer } cx cy =
      (buffer.content ((arrays.plane img.imagePixFormat img.width img.height 1).place cx cy 0),
        buffer.content
          ((arrays.plane img.imagePixFormat img.width img.height 2).place cx cy 0)) := by
  simp only [sample, harrays]

theorem Drawn.overlaid {value : ℕ → ℕ → UInt8} {sampled : ℕ → ℕ × ℕ → UInt8} {buffer : Plane}
    (harrays : av.fillArrays img.imagePixFormat img.width img.height = some arrays)
    (hplanes : Sampling (arrays.plane img.imagePixFormat img.width img.height) img)
    (h : Drawn (arrays.plane img.imagePixFormat img.width img.height) img image value sampled
      buffer)
    (hwidth : image.width = img.width) (hheight : image.height = img.height)
    (hyuv : img.imagePixFormat.isYuv420)
    (hvalue : ∀ x y,
      (image.colour x y).shown brgToYuv img.imagePixFormat = .luma (value x y))
    (hsampled : ∀ x y,
      image.chroma av brgToYuv grey x y = some (sampled 1 (x, y), sampled 2 (x, y))) :
    img.Overlaid av brgToYuv grey image { img with buffer := buffer } := by
  have hone := bytesPerPixel_of_yuv420 hyuv
  have hgray : img.imagePixFormat ≠ .gray8 := by
    rintro heq
    rw [heq] at hyuv
    cases hyuv
  have hcolour (x : ℕ) (hx : x < img.width) (y : ℕ) (hy : y < img.height) :
      colour { img with buffer := buffer } x y =
        .luma (if image.Marked x y then value x y else img.byte x y 0) := by
    have hluma := h.luma x hx y hy
    rw [hplanes.rows] at hluma
    have hbyte : byte { img with buffer := buffer } x y 0 =
        buffer.content ((img.rows 1).place x y 0) := by
      rw [byte, hone]
      rfl
    rw [colour, if_pos hone, hbyte, hluma, byte, hone]
  have hsample (cx : ℕ) (hcx : cx < (img.width + 1) / 2) (cy : ℕ)
      (hcy : cy < (img.height + 1) / 2) : sample av { img with buffer := buffer } cx cy =
        match lastMarked image img.width img.height cx cy with
        | some q => (sampled 1 q, sampled 2 q)
        | none => img.sample av cx cy := by
    rw [sample_eq harrays, h.chroma 1 (.inl rfl) cx hcx cy hcy, h.chroma 2 (.inr rfl) cx hcx cy hcy]
    cases lastMarked image img.width img.height cx cy with
    | none => exact (sample_eq harrays img.buffer).symm
    | some q => rfl
  refine ⟨rfl, rfl, (if_neg fun h ↦ hgray h.1).symm, fun x hx y hy hmarked ↦ ?_,
    fun x hx y hy hmarked ↦ ?_, fun _ cx hcx cy hcy hunmarked ↦ ?_,
    fun _ cx hcx cy hcy hmarked ↦ ?_⟩
  · rw [hcolour x hx y hy, if_neg hmarked]
    refine Eq.trans ?_ (shown_colour img x y).symm
    rw [colour, if_pos hone]
  · rw [hcolour x hx y hy, if_pos hmarked]
    exact (hvalue x y).symm
  · have hlast : lastMarked image img.width img.height cx cy = none := by
      rw [← Option.not_isSome_iff_eq_none, isSome_lastMarked_iff hwidth hheight]
      rintro ⟨x, y, hmarked⟩
      exact hunmarked x y hmarked
    rw [hsample cx hcx cy hcy, hlast]
  · obtain ⟨q, hlast⟩ := Option.isSome_iff_exists.mp
      ((isSome_lastMarked_iff hwidth hheight).mpr hmarked)
    refine ⟨q.1, q.2, markedIn_of_lastMarked hwidth hheight hlast, fun c hc ↦ ?_⟩
    rw [hsampled] at hc
    rw [hsample cx hcx cy hcy, hlast]
    exact Option.some.inj hc

theorem chroma_rgb (hone : image.imagePixFormat.bytesPerPixel ≠ 1) :
    image.chroma av brgToYuv grey x y =
      some (byteOf (yuvOf brgToYuv image x y) 1, byteOf (yuvOf brgToYuv image x y) 0) := by
  rw [chroma, if_neg (not_planar hone), colour, if_neg hone]
  rfl

section Overlays

variable (himg : img.Stored) (himage : image.Stored) (hwidth : image.width = img.width)
  (hheight : image.height = img.height)

include himage hwidth hheight

theorem overlay_rgb_yuv420 (hlayers : img.Layered av) (hyuv : img.imagePixFormat.isYuv420)
    (hone : image.imagePixFormat.bytesPerPixel ≠ 1) :
    ∃ result, img.overlay av brgToYuv fresh image = some result ∧
      (img.Overlaid av brgToYuv grey image result ↔ img.Suits av brgToYuv grey image) := by
  obtain ⟨arrays, harrays, hplanes⟩ := hlayers.exists_sampling (planar_of_yuv420 hyuv)
  obtain ⟨buffer, hrun, hdrawn⟩ :=
    rgbOverYuv420_drawn brgToYuv himage hwidth hheight hone hplanes
  have hgray : img.imagePixFormat ≠ .gray8 := by
    intro heq
    rw [heq] at hyuv
    cases hyuv
  have hrgb : image.imagePixFormat.isRgb24 ∨ image.imagePixFormat.isRgb32 := by
    rw [isRgb24_iff, isRgb32_iff]
    exact (bytesPerPixel_cases himage.supported).resolve_left hone
  refine ⟨{ img with buffer := buffer }, ?_, iff_of_true ?_ ?_⟩
  · have hsizes : ¬¬(img.width = image.width ∧ img.height = image.height) :=
      not_not.mpr ⟨hwidth.symm, hheight.symm⟩
    rw [overlay, if_neg hsizes, if_neg fun h ↦ not_yuv420 hone h.2, if_neg fun h ↦ hone h.2,
      if_neg fun h ↦ hgray h.1, if_neg fun h ↦ hgray h.1, if_pos ⟨hyuv, hrgb⟩, harrays]
    dsimp only
    rw [hrun]
    rfl
  · refine hdrawn.overlaid harrays hplanes hwidth hheight hyuv (fun x y ↦ ?_) fun x y ↦ ?_
    · rw [colour, if_neg hone]
      exact if_pos (bytesPerPixel_of_yuv420 hyuv)
    · exact chroma_rgb hone
  · exact suits_of_sampled hyuv fun hone' ↦ absurd hone' hone

theorem overlay_yuv420 (hlayers : img.Layered av) (hlayers' : image.Layered av)
    (hyuv : img.imagePixFormat.isYuv420) (hyuv' : image.imagePixFormat.isYuv420) :
    ∃ result, img.overlay av brgToYuv fresh image = some result ∧
      (img.Overlaid av brgToYuv grey image result ↔ img.Suits av brgToYuv grey image) := by
  have hone' := bytesPerPixel_of_yuv420 hyuv'
  obtain ⟨arrays, harrays, hplanes⟩ := hlayers.exists_sampling (planar_of_yuv420 hyuv)
  obtain ⟨srcArrays, hsrcArrays, hsrc⟩ := hlayers'.exists_sampling (planar_of_yuv420 hyuv')
  obtain ⟨buffer, hrun, hdrawn⟩ :=
    yuv420OverYuv420_drawn himage hwidth hheight hone' hplanes hsrc
  refine ⟨{ img with buffer := buffer }, ?_, iff_of_true ?_ ?_⟩
  · have hsizes : ¬¬(img.width = image.width ∧ img.height = image.height) :=
      not_not.mpr ⟨hwidth.symm, hheight.symm⟩
    rw [hwidth, hheight] at hsrcArrays hrun
    rw [overlay, if_neg hsizes, if_pos ⟨hyuv, hyuv'⟩, harrays, hsrcArrays]
    dsimp only
    rw [hrun]
    rfl
  · refine hdrawn.overlaid harrays hplanes hwidth hheight hyuv (fun x y ↦ ?_) fun x y ↦ ?_
    · rw [colour, if_pos hone']
      exact if_pos (bytesPerPixel_of_yuv420 hyuv)
    · have hchroma : image.imagePixFormat.log2Chroma = (1, 1) := by
        revert hyuv'
        cases image.imagePixFormat <;> decide
      rw [hwidth, hheight] at hsrcArrays
      rw [chroma, if_pos (planar_of_yuv420 hyuv'), hchroma, sample, hwidth, hheight, hsrcArrays]
      rfl
  · exact suits_of_sampled hyuv fun _ ↦ hyuv'

include himg

/-- Over a grey image, one that samples its colours, or an RGB one. The order of the colours of two
RGB images is not taken into account, nor are two of the three bytes of a grey over one whose alpha
is last, and whoever samples its colours otherwise shows its lumas only. -/
theorem overlay_iff (hlayers : img.imagePixFormat.planar → img.Layered av)
    (hlayers' : img.imagePixFormat.isYuv420 → image.imagePixFormat.isYuv420 → image.Layered av)
    (htarget : img.imagePixFormat = .gray8 ∨ img.imagePixFormat.isYuv420 ∨
      img.imagePixFormat.isRgb24 ∨ img.imagePixFormat.isRgb32)
    (hpair : ¬(img.imagePixFormat.isRgb24 ∧ image.imagePixFormat.isRgb32) ∧
      ¬(img.imagePixFormat.isRgb32 ∧ image.imagePixFormat.isRgb24)) :
    (∃ result, img.overlay av brgToYuv fresh image = some result ∧
      img.Overlaid av brgToYuv grey image result) ↔ img.Suits av brgToYuv grey image := by
  have hone_of (h : ∃ result, img.overlay av brgToYuv fresh image = some result ∧
      (img.Overlaid av brgToYuv grey image result ↔ img.Suits av brgToYuv grey image)) :
      (∃ result, img.overlay av brgToYuv fresh image = some result ∧
        img.Overlaid av brgToYuv grey image result) ↔ img.Suits av brgToYuv grey image := by
    obtain ⟨result, hrun, hiff⟩ := h
    rw [hrun, ← hiff]
    exact ⟨fun ⟨_, hsame, h⟩ ↦ Option.some.inj hsame ▸ h, fun h ↦ ⟨result, rfl, h⟩⟩
  rw [isRgb24_iff, isRgb32_iff] at htarget
  rw [isRgb24_iff, isRgb32_iff, isRgb32_iff, isRgb24_iff] at hpair
  have hbytes := bytesPerPixel_cases himage.supported
  by_cases hone' : image.imagePixFormat.bytesPerPixel = 1
  · by_cases hone : img.imagePixFormat.bytesPerPixel = 1
    · by_cases hyuv : img.imagePixFormat.isYuv420 ∧ image.imagePixFormat.isYuv420
      · exact hone_of (overlay_yuv420 himage hwidth hheight (hlayers (planar_of_yuv420 hyuv.1))
          (hlayers' hyuv.1 hyuv.2) hyuv.1 hyuv.2)
      · exact hone_of (overlay_luma himg himage hwidth hheight hlayers hone hone' hyuv)
    · rcases htarget with hgray | hyuv | hthree | hfour
      · exact absurd hgray (ne_gray8 hone)
      · exact absurd hyuv (not_yuv420 hone)
      · exact hone_of (overlay_grey_rgb24 himg himage hwidth hheight hthree hone')
      · exact hone_of (overlay_grey_rgb32 himg himage hwidth hheight hfour hone')
  · rcases htarget with hgray | hyuv | hthree | hfour
    · exact overlay_grey_iff himg himage hwidth hheight hgray hone'
    · exact hone_of (overlay_rgb_yuv420 himage hwidth hheight
        (hlayers (planar_of_yuv420 hyuv)) hyuv hone')
    · exact hone_of (overlay_rgb24 himg himage hwidth hheight hthree (by omega))
    · exact hone_of (overlay_rgb32 himg himage hwidth hheight hfour (by omega))

end Overlays

end Sampled

/-- A highlight of one pixel, over the planes of an odd frame. -/
def oddMark : Picture :=
  { oddFrame with buffer := ⟨fun i ↦ if i = 33 then 200 else if i = 96 then 84 else 0, 224⟩ }

theorem oddFrame_overlaid : ∃ result,
    oddFrame.overlay .ffmpeg (fun _ ↦ 0) (fun _ ↦ 0) oddMark = some result ∧
      oddFrame.Overlaid .ffmpeg (fun _ ↦ 0) none oddMark result := by
  have hsize : AvImage.ffmpeg.getBufferSize .yuv420p 3 3 = some 224 := by decide
  have hrows : (oddFrame.rows 1).Within 224 := ⟨by decide, by decide⟩
  have hframe : oddFrame.Stored := ⟨rfl, by decide, by decide, by decide, by decide, hrows⟩
  have hmark : oddMark.Stored := ⟨rfl, by decide, by decide, by decide, by decide, hrows⟩
  have hlayers : oddFrame.Layered .ffmpeg := .of_linesize rfl (by decide) hsize le_rfl
  have hlayers' : oddMark.Layered .ffmpeg := .of_linesize rfl (by decide) hsize le_rfl
  have hsuits : oddFrame.Suits .ffmpeg (fun _ ↦ 0) none oddMark :=
    suits_of_sampled rfl fun _ ↦ rfl
  exact (overlay_iff hframe hmark rfl rfl (fun _ ↦ hlayers) (fun _ _ ↦ hlayers') (.inr (.inl rfl))
    (by decide)).mpr hsuits

/-- A pixel that is black, in three bytes. -/
def blackPixel : Picture where
  width := 1
  height := 1
  colours := 3
  subpixelorder := 6
  linesize := 32
  imagePixFormat := .rgb24
  buffer := ⟨fun _ ↦ 0, 32⟩
  holdBuffer := false

/-- A pixel that is blue, in the other order. -/
def bluePixel : Picture :=
  { blackPixel with
    subpixelorder := 5, imagePixFormat := .bgr24, buffer := ⟨fun i ↦ if i = 0 then 255 else 0, 32⟩ }

/-- It is shown as a red one. -/
theorem not_blackPixel_overlaid : blackPixel.Stored ∧ bluePixel.Stored ∧
    ¬∃ result, blackPixel.overlay .ffmpeg (fun _ ↦ 0) (fun _ ↦ 0) bluePixel = some result ∧
      blackPixel.Overlaid .ffmpeg (fun _ ↦ 0) none bluePixel result := by
  refine ⟨⟨by decide, by decide, by decide, by decide, by decide, ⟨by decide, by decide⟩⟩,
    ⟨by decide, by decide, by decide, by decide, by decide, ⟨by decide, by decide⟩⟩, ?_⟩
  rintro ⟨result, hrun, hoverlaid⟩
  have hred : (blackPixel.overlay .ffmpeg (fun _ ↦ 0) (fun _ ↦ 0) bluePixel).map
      (fun result ↦ result.colour 0 0) = some (.rgb 255 0 0) := by decide
  rw [hrun, Option.map_some, Option.some_inj, hoverlaid.shown 0 (by decide) 0 (by decide)
    (by decide), hoverlaid.imagePixFormat] at hred
  exact absurd hred (by decide)

end Picture

end ZoneMinder.Image
