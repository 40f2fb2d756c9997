import ZoneMinder.Image.Delta

namespace ZoneMinder.Image

open Lib Cells

/-- Where the bytes of red, green and blue are in a pixel. -/
def PixelFormat.channels : PixelFormat → ℕ × ℕ × ℕ
  | .bgr24 | .bgra => (2, 1, 0)
  | .argb => (1, 2, 3)
  | .abgr => (3, 2, 1)
  | _ => (0, 1, 2)

/-- What the std helper of a format computes from two pixels. -/
def PixelFormat.stdDelta (f : PixelFormat) (col1 col2 : ℕ → UInt8) (p1 p2 : ℕ) : UInt8 :=
  let diff := fun k ↦ absDiff (col1 (p1 + k)) (col2 (p2 + k))
  if f.bytesPerPixel = 1 then UInt8.ofNat (diff 0)
  else weigh (diff f.channels.1) (diff f.channels.2.1) (diff f.channels.2.2)

/-- The bytes of a row, rounded up to 32. -/
def PixelFormat.lineSize (f : PixelFormat) (width : ℕ) : ℕ := (width * f.bytesPerPixel + 31) / 32 * 32

/-- Image's own layout. -/
structure Frame.Laid (a : Frame) (p : Plane) : Prop where
  linesize : a.linesize = a.format.lineSize a.width
  buffer : a.buffer = some p
  size : a.linesize * a.height ≤ p.size

variable {col1 col2 dst : Plane} {pixel : ℕ → ℕ → Option UInt8} {v : ℕ → UInt8}
  {stride n m maxPtr p1 p2 result width height : ℕ} {f : PixelFormat} {fn : DeltaHelper}

theorem unrolled_eq {hn : 0 < n}
    (hpixel : ∀ k < m * n, pixel (p1 + k * stride) (p2 + k * stride) = some (v k))
    (hle : maxPtr ≤ result + m * n) (hlt : result + m * n < maxPtr + n)
    (hsize : result + m * n ≤ dst.size) :
    unrolled pixel stride n hn maxPtr p1 p2 result dst = some (dst.overwrite result (m * n) v) := by
  induction m generalizing p1 p2 result dst v with
  | zero =>
    rw [unrolled, if_neg (by omega), Nat.zero_mul, overwrite_zero]
  | succ m ih =>
    rw [Nat.succ_mul] at hle hlt hsize hpixel
    have hfill : dst.fill result n _ = some (dst.overwrite result n v) :=
      fill_eq (fun k hk ↦ hpixel k (by omega)) (by omega)
    have hrest := @ih (dst.overwrite result n v) (fun k ↦ v (n + k)) (p1 + n * stride)
      (p2 + n * stride) (result + n) (fun k hk ↦ by
        rw [← hpixel (n + k) (by omega)]
        congr 1 <;> ring) (by omega) (by omega) (by rw [overwrite_size]; omega)
    rw [unrolled, if_pos (by omega), hfill, Option.bind_some, hrest,
      overwrite_overwrite fun _ _ ↦ rfl, Nat.succ_mul, Nat.add_comm n]

theorem deltaGray_eq (h1 : p1 < col1.size) (h2 : p2 < col2.size) (hf : f.bytesPerPixel = 1) :
    deltaGray col1 col2 p1 p2 = some (f.stdDelta col1.content col2.content p1 p2) := by
  simp [deltaGray, read_of_lt h1, read_of_lt h2, PixelFormat.stdDelta, hf]

theorem deltaColour_eq (h1 : p1 + f.bytesPerPixel ≤ col1.size)
    (h2 : p2 + f.bytesPerPixel ≤ col2.size) (hf : 3 ≤ f.bytesPerPixel) :
    deltaColour f.channels.1 f.channels.2.1 f.channels.2.2 col1 col2 p1 p2 =
      some (f.stdDelta col1.content col2.content p1 p2) := by
  have hch : f.channels.1 < f.bytesPerPixel ∧ f.channels.2.1 < f.bytesPerPixel ∧
      f.channels.2.2 < f.bytesPerPixel := by
    cases f <;> simp [PixelFormat.channels, PixelFormat.bytesPerPixel] at hf ⊢
  have hr : ∀ {k}, k < f.bytesPerPixel → col1.read (p1 + k) = some (col1.content (p1 + k)) ∧
      col2.read (p2 + k) = some (col2.content (p2 + k)) := fun hk ↦
    ⟨read_of_lt (by omega), read_of_lt (by omega)⟩
  simp only [deltaColour, hr hch.1, hr hch.2.1, hr hch.2.2, PixelFormat.stdDelta,
    if_neg (show ¬ f.bytesPerPixel = 1 by omega), Option.bind_eq_bind, Option.bind_some]

/-- A helper is right for a width when it writes what the std helper computes, from rows that begin
at multiples of 32 and are as long as they are in Image's own layout, and nothing beyond the row. -/
def Right (fn : DeltaHelper) (f : PixelFormat) (width : ℕ) : Prop :=
  ∀ (col1 col2 dst : Plane) (p1 p2 result : ℕ), p1 % 32 = 0 → p2 % 32 = 0 → result % 32 = 0 →
    p1 + f.lineSize width ≤ col1.size → p2 + f.lineSize width ≤ col2.size →
    result + PixelFormat.gray8.lineSize width ≤ dst.size →
    ∃ n v, width ≤ n ∧ n ≤ PixelFormat.gray8.lineSize width ∧
      (∀ k < width, v k = f.stdDelta col1.content col2.content (p1 + k * f.bytesPerPixel)
        (p2 + k * f.bytesPerPixel)) ∧
      fn col1 col2 p1 p2 result width dst = some (dst.overwrite result n v)

theorem PixelFormat.lineSize_eq (hf : f.bytesPerPixel = 1) :
    f.lineSize width = (width + 31) / 32 * 32 := by
  rw [lineSize, hf, Nat.mul_one]

theorem right_unrolled {pixel : Plane → Plane → ℕ → ℕ → Option UInt8} (hn : 0 < n)
    (hpixel : ∀ {col1 col2 p1 p2}, p1 + f.bytesPerPixel ≤ col1.size →
      p2 + f.bytesPerPixel ≤ col2.size →
      pixel col1 col2 p1 p2 = some (f.stdDelta col1.content col2.content p1 p2))
    (hrow : (width + n - 1) / n * n * f.bytesPerPixel ≤ f.lineSize width)
    (hdst : (width + n - 1) / n * n ≤ PixelFormat.gray8.lineSize width) :
    Right (fun col1 col2 p1 p2 result count ↦
      unrolled (pixel col1 col2) f.bytesPerPixel n hn (result + count) p1 p2 result) f width := by
  intro col1 col2 dst p1 p2 result _ _ _ h1 h2 hd
  have hmod := Nat.div_add_mod (width + n - 1) n
  have hlt := Nat.mod_lt (width + n - 1) hn
  rw [Nat.mul_comm] at hmod
  refine ⟨_, _, by omega, hdst, fun _ _ ↦ rfl, unrolled_eq (fun k hk ↦ ?_) ?_ ?_ ?_⟩
  · -- the last pixel of the last round ends with the round
    have hk' : (k + 1) * f.bytesPerPixel ≤ (width + n - 1) / n * n * f.bytesPerPixel :=
      Nat.mul_le_mul_right _ hk
    rw [Nat.succ_mul] at hk'
    exact hpixel (by omega) (by omega)
  · omega
  · omega
  · omega

theorem right_gray8Helper (hn : n = 1 ∨ n = 16) (hpos : 0 < n) (hf : f.bytesPerPixel = 1) :
    Right (gray8Helper n hpos) f width := by
  have h := @right_unrolled n width f deltaGray hpos
    (fun h1 h2 ↦ deltaGray_eq (by omega) (by omega) hf)
  rw [hf] at h
  apply h
  · simp only [PixelFormat.lineSize, hf]
    rcases hn with rfl | rfl <;> omega
  · simp only [PixelFormat.lineSize, PixelFormat.bytesPerPixel]
    rcases hn with rfl | rfl <;> omega

theorem right_colourHelper {red green blue : ℕ} (hn : 0 < n)
    (hc : f.channels = (red, green, blue))
    (hf : f.bytesPerPixel = 3 ∧ n = 1 ∨ f.bytesPerPixel = 4 ∧ (n = 1 ∨ n = 4)) :
    Right (colourHelper red green blue f.bytesPerPixel n hn) f width := by
  apply right_unrolled hn
  · intro col1 col2 p1 p2 h1 h2
    have h := deltaColour_eq (f := f) h1 h2 (by omega)
    rwa [hc] at h
  · simp only [PixelFormat.lineSize]
    rcases hf with ⟨hb, rfl⟩ | ⟨hb, rfl | rfl⟩ <;> rw [hb] <;> omega
  · simp only [PixelFormat.lineSize, PixelFormat.bytesPerPixel]
    rcases hf with ⟨-, rfl⟩ | ⟨-, rfl | rfl⟩ <;> omega

theorem pmaxub_sub_pminub (a b : UInt8) : pmaxub a b - pminub a b = UInt8.ofNat (absDiff a b) := by
  apply UInt8.toNat_inj.mp
  have ha := a.toNat_lt
  have hb := b.toNat_lt
  unfold pmaxub pminub absDiff
  split_ifs with h
  · rw [UInt8.toNat_sub_of_le _ _ h]
    simp only [UInt8.toNat_ofNat']
    rw [UInt8.le_iff_toNat_le] at h
    omega
  · have h' : b ≤ a := by
      rw [UInt8.le_iff_toNat_le] at h ⊢
      omega
    rw [UInt8.toNat_sub_of_le _ _ h']
    simp only [UInt8.toNat_ofNat']
    rw [UInt8.le_iff_toNat_le] at h'
    omega

/-- The SSE2 loop over as many blocks as there are. -/
theorem sse2Iter_eq (h1 : p1 % 16 = 0) (h2 : p2 % 16 = 0) (h : result % 16 = 0) (hm : 0 < m)
    (hs1 : p1 + m * 16 ≤ col1.size) (hs2 : p2 + m * 16 ≤ col2.size)
    (hs : result + m * 16 ≤ dst.size) :
    sse2Iter col1 col2 p1 p2 result (m * 16 : ℕ) dst = some (dst.overwrite result (m * 16)
      fun k ↦ UInt8.ofNat (absDiff (col1.content (p1 + k)) (col2.content (p2 + k)))) := by
  induction m generalizing dst with
  | zero => omega
  | succ m ih =>
    rw [Nat.succ_mul] at hs1 hs2 hs
    have hfill : dst.fill (result + m * 16) 16 _ = _ := fill_eq (g := fun k ↦ do
        let a ← col1.read (p1 + m * 16 + k)
        let b ← col2.read (p2 + m * 16 + k)
        some (pmaxub a b - pminub a b))
      (v := fun k ↦ UInt8.ofNat (absDiff (col1.content (p1 + (m * 16 + k)))
        (col2.content (p2 + (m * 16 + k))))) (fun k hk ↦ by
        rw [Nat.add_assoc p1, Nat.add_assoc p2, read_of_lt (by omega), read_of_lt (by omega),
          ← pmaxub_sub_pminub]
        rfl) (by omega)
    rw [sse2Iter, dif_pos ⟨⟨by omega, by omega, by omega⟩, by omega, by omega, by omega⟩]
    have e1 : ((p1 : ℤ) + ((m + 1) * 16 : ℕ) - 16).toNat = p1 + m * 16 := by omega
    have e2 : ((p2 : ℤ) + ((m + 1) * 16 : ℕ) - 16).toNat = p2 + m * 16 := by omega
    have e3 : ((result : ℤ) + ((m + 1) * 16 : ℕ) - 16).toNat = result + m * 16 := by omega
    rw [e1, e2, e3, hfill, Option.bind_some]
    by_cases hz : m = 0
    · subst m
      rw [if_pos (by omega)]
      simp
    · rw [if_neg (by omega), show (((m + 1) * 16 : ℕ) : ℤ) - 16 = (m * 16 : ℕ) by omega,
        ih (by omega) (by omega) (by omega) (by rw [overwrite_size]; omega), Nat.succ_mul]
      exact congrArg some (overwrite_behind fun _ _ ↦ rfl)

theorem right_sse2 (hf : f.bytesPerPixel = 1) (hw : 0 < width) (h16 : width % 16 = 0) :
    Right sse2Delta8Gray8 f width := by
  intro col1 col2 dst p1 p2 result h1 h2 h hs1 hs2 hs
  obtain ⟨m, rfl⟩ : ∃ m, width = m * 16 := ⟨width / 16, by omega⟩
  rw [PixelFormat.lineSize_eq hf] at hs1 hs2
  rw [PixelFormat.lineSize_eq rfl] at hs
  rw [PixelFormat.lineSize_eq rfl, hf]
  refine ⟨m * 16, _, le_rfl, by omega, fun k _ ↦ ?_, sse2Iter_eq (by omega) (by omega) (by omega)
    (by omega) (by omega) (by omega) (by omega)⟩
  simp [PixelFormat.stdDelta, hf]

/-- A row that is no whole number of blocks is a fault at the first of them. -/
theorem sse2_fault (h1 : p1 % 32 = 0) (h16 : width % 16 ≠ 0) :
    sse2Delta8Gray8 col1 col2 p1 p2 result width dst = none := by
  rw [sse2Delta8Gray8, sse2Iter, dif_neg]
  omega

/-- Row after row: a row that is written later leaves the earlier ones alone. -/
theorem rows_eq (hfn : Right fn f width)
    (h1 : f.lineSize width * height ≤ col1.size) (h2 : f.lineSize width * height ≤ col2.size)
    (h : PixelFormat.gray8.lineSize width * height ≤ dst.size) :
    ∃ d, (List.range height).foldlM (fun dst y ↦ fn col1 col2 (y * f.lineSize width)
        (y * f.lineSize width) (y * PixelFormat.gray8.lineSize width) width dst) dst = some d ∧
      d.size = dst.size ∧ ∀ y < height, ∀ x < width,
        d.content (y * PixelFormat.gray8.lineSize width + x) =
          f.stdDelta col1.content col2.content (y * f.lineSize width + x * f.bytesPerPixel)
            (y * f.lineSize width + x * f.bytesPerPixel) := by
  induction height with
  | zero => exact ⟨dst, rfl, rfl, by simp⟩
  | succ height ih =>
    rw [Nat.mul_succ] at h1 h2 h
    obtain ⟨d, hd, hsize, hrows⟩ := ih (by omega) (by omega) (by omega)
    have hmod : ∀ f : PixelFormat, height * f.lineSize width % 32 = 0 := fun f ↦ by
      unfold PixelFormat.lineSize
      rw [← Nat.mul_assoc]
      exact Nat.mul_mod_left _ _
    obtain ⟨n, v, hn, hn', hv, hrow⟩ := hfn col1 col2 d _ _ _ (hmod f) (hmod f) (hmod .gray8)
      (by rw [Nat.mul_comm height]; omega) (by rw [Nat.mul_comm height]; omega)
      (by rw [Nat.mul_comm height]; omega)
    refine ⟨d.overwrite (height * PixelFormat.gray8.lineSize width) n v, ?_, hsize, ?_⟩
    · rw [List.range_succ, List.foldlM_append, hd]
      simp only [List.foldlM_cons, List.foldlM_nil, Option.bind_eq_bind, Option.bind_some, hrow]
      rfl
    · intro y hy x hx
      rw [overwrite_content]
      by_cases he : y = height
      · subst y
        rw [if_pos (by omega), Nat.add_sub_cancel_left, hv x hx]
      · have hle : (y + 1) * PixelFormat.gray8.lineSize width ≤
            height * PixelFormat.gray8.lineSize width := Nat.mul_le_mul_right _ (by omega)
        rw [Nat.succ_mul] at hle
        rw [if_neg (by omega), hrows y (by omega) x hx]

/-- Whether the helper for a format is one of those that are to agree: for 32 bits there are others
with CPU extensions. -/
def Covered (extensions : Option WideHelpers) (f : PixelFormat) (pixels : ℕ) : Prop :=
  f.bytesPerPixel = 4 → pixels % 4 = 0 → extensions = none

theorem select_right {extensions : Option WideHelpers} (hw : 0 < width)
    (hcov : Covered extensions f (width * height)) (hf : f.bytesPerPixel ≠ 0)
    (hgood : ¬ (f.bytesPerPixel = 1 ∧ extensions ≠ none ∧ width * height % 4 = 0 ∧
      width % 16 ≠ 0)) :
    ∃ fn, (updateFunctionPointers (initialise extensions) (width * height)).select f = some fn ∧
      Right fn f width := by
  unfold updateFunctionPointers
  split_ifs with hp
  · cases f with
    | none => exact (hf rfl).elim
    | rgb24 => exact ⟨_, rfl, right_colourHelper Nat.one_pos rfl (.inl ⟨rfl, rfl⟩)⟩
    | bgr24 => exact ⟨_, rfl, right_colourHelper Nat.one_pos rfl (.inl ⟨rfl, rfl⟩)⟩
    | rgba | bgra | argb | abgr =>
      exact ⟨_, rfl, right_colourHelper Nat.one_pos rfl (.inr ⟨rfl, .inl rfl⟩)⟩
    | gray8 | yuv420p | yuvj420p | yuv422p | yuvj422p =>
      exact ⟨_, rfl, right_gray8Helper (.inl rfl) Nat.one_pos rfl⟩
  · rw [not_not] at hp
    cases extensions with
    | none =>
      cases f with
      | none => exact (hf rfl).elim
      | rgb24 => exact ⟨_, rfl, right_colourHelper Nat.one_pos rfl (.inl ⟨rfl, rfl⟩)⟩
      | bgr24 => exact ⟨_, rfl, right_colourHelper Nat.one_pos rfl (.inl ⟨rfl, rfl⟩)⟩
      | rgba | bgra | argb | abgr =>
        exact ⟨_, rfl, right_colourHelper (by decide) rfl (.inr ⟨rfl, .inr rfl⟩)⟩
      | gray8 | yuv420p | yuvj420p | yuv422p | yuvj422p =>
        exact ⟨_, rfl, right_gray8Helper (.inr rfl) (by decide) rfl⟩
    | some wide =>
      have h16 : f.bytesPerPixel = 1 → width % 16 = 0 := fun hb ↦ by
        by_contra h
        exact hgood ⟨hb, by simp, hp, h⟩
      cases f with
      | none => exact (hf rfl).elim
      | rgb24 => exact ⟨_, rfl, right_colourHelper Nat.one_pos rfl (.inl ⟨rfl, rfl⟩)⟩
      | bgr24 => exact ⟨_, rfl, right_colourHelper Nat.one_pos rfl (.inl ⟨rfl, rfl⟩)⟩
      | rgba | bgra | argb | abgr => exact absurd (hcov rfl hp) (by simp)
      | gray8 | yuv420p | yuvj420p | yuv422p | yuvj422p =>
        exact ⟨_, rfl, right_sse2 rfl hw (h16 rfl)⟩

/-- Delta comes to what the std helpers compute, except for rows of no whole number of SSE2 blocks in
an image whose number of pixels passes the test. -/
theorem delta_std_iff {extensions : Option WideHelpers} {this image target : Frame}
    {buffer imageBuffer pdiff : Plane} (h1 : this.Laid buffer) (h2 : image.Laid imageBuffer)
    (hd : target.Laid pdiff)
    (hsame : this.width = image.width ∧ this.height = image.height ∧
      this.colours = image.colours ∧ this.subpixelorder = image.subpixelorder)
    (htarget : target.width = this.width ∧ target.height = this.height ∧ target.format = .gray8)
    (hw : 0 < this.width) (hh : 0 < this.height) (hf : this.format.bytesPerPixel ≠ 0)
    (hcov : Covered extensions this.format (this.width * this.height)) :
    (∃ d, this.delta (initialise extensions) image target = .done d ∧
      ∀ y < this.height, ∀ x < this.width, d.content (y * target.linesize + x) =
        this.format.stdDelta buffer.content imageBuffer.content
          (y * this.linesize + x * this.format.bytesPerPixel)
          (y * image.linesize + x * this.format.bytesPerPixel)) ↔
    ¬ (this.format.bytesPerPixel = 1 ∧ extensions ≠ none ∧ this.width * this.height % 4 = 0 ∧
      this.width % 16 ≠ 0) := by
  have hformat : image.format = this.format := by
    unfold Frame.format
    rw [hsame.2.2.1, hsame.2.2.2]
  have hl1 := h1.linesize
  have hl2 := h2.linesize
  have hld := hd.linesize
  have hs1 := h1.size
  have hs2 := h2.size
  have hsd := hd.size
  rw [hformat, ← hsame.1] at hl2
  rw [htarget.2.2, htarget.1] at hld
  rw [hl1] at hs1
  rw [hl2, ← hsame.2.1] at hs2
  rw [hld, htarget.2.1] at hsd
  constructor
  · rintro ⟨d, hdone, -⟩ ⟨hb, hext, hp, h16⟩
    obtain ⟨height, hheight⟩ := Nat.exists_eq_succ_of_ne_zero hh.ne'
    obtain ⟨wide, rfl⟩ := Option.ne_none_iff_exists'.mp hext
    have hsel : (updateFunctionPointers (initialise (some wide))
        (this.width * this.height)).select this.format = some sse2Delta8Gray8 := by
      rw [updateFunctionPointers, if_neg (not_not.mpr hp)]
      cases hfm : this.format <;> rw [hfm] at hb <;> first | rfl | cases hb
    have hrows : (List.range this.height).foldlM (fun dst y ↦ sse2Delta8Gray8 buffer imageBuffer
        (y * this.linesize) (y * image.linesize) (y * target.linesize) this.width dst) pdiff =
        none := by
      rw [hheight, List.range_succ_eq_map, List.foldlM_cons]
      rw [sse2_fault (by simp) h16]
      rfl
    simp only [Frame.delta, hsame, and_self, not_true, if_false, h1.buffer, h2.buffer,
      hd.buffer] at hdone
    simp only [← hsame.1, ← hsame.2.1, hsel, hrows] at hdone
    cases hdone
  · intro hgood
    obtain ⟨fn, hsel, hright⟩ := select_right hw hcov hf hgood
    obtain ⟨d, hrows, -, hcontent⟩ := rows_eq hright hs1 hs2 hsd
    rw [← hld, ← hl1] at hrows hcontent
    refine ⟨d, ?_, ?_⟩
    · rw [Frame.delta, if_neg (not_not.mpr hsame), h1.buffer, h2.buffer, hd.buffer]
      simp only [hsel, hl2, ← hl1, hrows]
    · rw [hl2, ← hl1]
      exact hcontent

def grayFrame (content : ℕ → UInt8) (width height : ℕ) : Frame where
  width := width
  height := height
  colours := 1
  subpixelorder := 2
  linesize := PixelFormat.gray8.lineSize width
  buffer := some ⟨content, PixelFormat.gray8.lineSize width * height⟩

theorem grayFrame_laid (content : ℕ → UInt8) (width height : ℕ) :
    (grayFrame content width height).Laid
      ⟨content, PixelFormat.gray8.lineSize width * height⟩ :=
  ⟨rfl, rfl, le_rfl⟩

def stdWide : WideHelpers := ⟨stdDelta8Rgba, stdDelta8Bgra, stdDelta8Argb, stdDelta8Abgr⟩

/-- Two ramps, one of which goes down. -/
def rising (i : ℕ) : UInt8 := 7 * UInt8.ofNat i

def falling (i : ℕ) : UInt8 := 250 - UInt8.ofNat i

theorem delta_std_iff_blocks : ∃ d, (grayFrame rising 16 2).delta (initialise (some stdWide))
      (grayFrame falling 16 2) (grayFrame (fun _ ↦ 0) 16 2) = .done d ∧
    (∀ y < 2, ∀ x < 16, d.content (y * 32 + x) =
      PixelFormat.gray8.stdDelta rising falling (y * 32 + x * 1) (y * 32 + x * 1)) ∧
    d.content 5 = 210 ∧ d.content 37 = 210 := by
  obtain ⟨d, hdone, hcontent⟩ := (@delta_std_iff (some stdWide) _ _ _ _ _ _
    (grayFrame_laid rising 16 2) (grayFrame_laid falling 16 2) (grayFrame_laid (fun _ ↦ 0) 16 2)
    ⟨rfl, rfl, rfl, rfl⟩ ⟨rfl, rfl, rfl⟩ (by decide) (by decide) (by decide)
    (fun h ↦ absurd h (by decide))).mpr (by decide)
  exact ⟨d, hdone, hcontent, (hcontent 0 (by decide) 5 (by decide)).trans (by decide),
    (hcontent 1 (by decide) 5 (by decide)).trans (by decide)⟩

/-- A row of 20 pixels in gray: the first block would be the bytes from 4 on. -/
theorem delta_not_std :
    ¬ ∀ (extensions : Option WideHelpers) (this image target : Frame)
      (buffer imageBuffer pdiff : Plane), this.Laid buffer → image.Laid imageBuffer →
      target.Laid pdiff →
      (this.width = image.width ∧ this.height = image.height ∧ this.colours = image.colours ∧
        this.subpixelorder = image.subpixelorder) →
      (target.width = this.width ∧ target.height = this.height ∧ target.format = .gray8) →
      0 < this.width → 0 < this.height → this.format.bytesPerPixel ≠ 0 →
      Covered extensions this.format (this.width * this.height) →
      ∃ d, this.delta (initialise extensions) image target = .done d := by
  intro h
  obtain ⟨d, hd⟩ := h (some stdWide) _ _ _ _ _ _ (grayFrame_laid (fun _ ↦ 0) 20 1)
    (grayFrame_laid (fun _ ↦ 0) 20 1) (grayFrame_laid (fun _ ↦ 0) 20 1) ⟨rfl, rfl, rfl, rfl⟩ ⟨rfl, rfl, rfl⟩ (by decide) (by decide) (by decide)
    (fun h ↦ absurd h (by decide))
  have hfault : (grayFrame (fun _ ↦ 0) 20 1).delta (initialise (some stdWide))
      (grayFrame (fun _ ↦ 0) 20 1) (grayFrame (fun _ ↦ 0) 20 1) = .fault := by
    have hrow := @sse2_fault ⟨fun _ ↦ 0, 32⟩ ⟨fun _ ↦ 0, 32⟩ ⟨fun _ ↦ 0, 32⟩ 0 0 0 20 rfl (by decide)
    have hsel : (updateFunctionPointers (initialise (some stdWide)) 20).select .gray8 =
        some sse2Delta8Gray8 := rfl
    simp [Frame.delta, grayFrame, Frame.format, zmPixformatFromColours, hsel, hrow,
      PixelFormat.lineSize, PixelFormat.bytesPerPixel]
  rw [hfault] at hd
  cases hd

end ZoneMinder.Image
