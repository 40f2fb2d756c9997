import ZoneMinder.Image.Exchange

namespace ZoneMinder.Image

open Lib

variable {av : Av} {m : Mem} {i j b : ℕ} {img image : Image} {shape : Shape}

/-- What a constructor leaves. -/
structure Made (m : Mem) (i : ℕ) (r : Image × Mem) : Prop where
  leaves : Leaves m i none r
  laid : r.1.Laid

/-- A buffer that a caller lends, as far as that. -/
structure Lent (m : Mem) (b extent : ℕ) : Prop where
  caller : m.holder b = .caller
  capacity : extent ≤ m.capacity (some b)

/-- An image that has nothing yet borrows a buffer. -/
theorem borrow_made {allocation : ℕ} (hm : m.Sound) (hholds : m.Holds i [])
    (hblend : img.blendBuffer = none) (hlent : Lent m b allocation) (hsize : img.size ≤ allocation)
    (hrows : img.linesize * img.height ≤ img.size)
    (hformat : img.imagePixFormat = img.toShape.pixFormat) :
    Made m i (img.borrow b allocation, m) where
  leaves := by
    refine ⟨hm, ⟨hlent.capacity, ?_, fun h ↦ absurd rfl h, ?_, ?_⟩, .refl i none m⟩
    · intro _ c hc
      obtain rfl := Option.some.inj hc
      exact hlent.caller
    · intro c hc
      have hc : img.blendBuffer = some c := hc
      rw [hblend] at hc
      cases hc
    · rw [blocks, borrow]
      dsimp only
      rw [hblend, if_pos rfl]
      exact hholds
  laid := ⟨hsize, hrows, hformat⟩

/-- An image that has nothing yet gets itself a buffer of its size. -/
theorem allocImgBuffer_made (hm : m.Sound) (hholds : m.Holds i []) (hbuffer : img.buffer = none)
    (hblend : img.blendBuffer = none) (hrows : img.linesize * img.height ≤ img.size)
    (hformat : img.imagePixFormat = img.toShape.pixFormat) :
    Made m i (allocImgBuffer m i img img.size) where
  leaves := by
    apply allocImgBuffer_leaves hm
    refine .inr ⟨hbuffer, ?_, ?_⟩
    · rw [hblend]
      exact hholds
    · intro c hc
      rw [hblend] at hc
      cases hc
  laid := by
    have hallocated : (allocImgBuffer m i img img.size).1 = _ := allocImgBuffer_eq img.size
    rw [hallocated]
    exact ⟨le_rfl, hrows, hformat⟩

theorem defaulted_height : shape.defaulted.height = shape.height := by
  rw [Shape.defaulted]
  split
  · rfl
  · rfl

/-- The size of the memory that goes with a shape. -/
def alignedSize (av : Av) (shape : Shape) : ℤ :=
  av.getBufferSize shape.defaulted.pixFormat shape.width shape.height 32

section Sized

variable (hsize : 0 ≤ alignedSize av shape)

include hsize

theorem toUnsigned_alignedSize : toUnsigned (alignedSize av shape) = (alignedSize av shape).toNat :=
  toUnsigned_bufferSize hsize

theorem aligned_rows :
    toUnsigned (ffalign (av.getLinesize shape.defaulted.pixFormat shape.width)) *
      shape.defaulted.height ≤ toUnsigned (alignedSize av shape) := by
  rw [toUnsigned_alignedSize hsize, defaulted_height]
  exact rows_le av hsize (toUnsigned_le (ffalign_nonneg (av.linesize _ _ _ hsize)))

theorem constructAllocated_made {buffer : Option ℕ} {allocation padding : ℕ} (hm : m.Sound)
    (hholds : m.Holds i [])
    (hlent : ∀ b, buffer = some b →
      Lent m b (if allocation = 0 then (alignedSize av shape).toNat else allocation) ∧
      (alignedSize av shape).toNat ≤
        if allocation = 0 then (alignedSize av shape).toNat else allocation) :
    Made m i (constructAllocated av m i shape buffer allocation padding) := by
  have hrows := aligned_rows hsize
  cases buffer with
  | none =>
    rw [constructAllocated]
    exact allocImgBuffer_made hm hholds rfl rfl hrows rfl
  | some b =>
    obtain ⟨hlent, hfits⟩ := hlent b rfl
    rw [← toUnsigned_alignedSize hsize] at hlent hfits
    rw [constructAllocated]
    exact borrow_made hm hholds rfl hlent hfits hrows rfl

end Sized

/-- The rows and the padding of a stride do not wrap around. -/
theorem strided_rows {linesize height padding : ℕ} (h : linesize * height + padding < 2 ^ 32) :
    linesize * height ≤ (linesize * height + padding) % 2 ^ 32 := by
  rw [Nat.mod_eq_of_lt h]
  exact Nat.le_add_right _ _

theorem construct_made {buffer : Option ℕ} {padding : ℕ} (hm : m.Sound) (hholds : m.Holds i [])
    (howned : buffer = none → 0 ≤ alignedSize av shape)
    (hlent : ∀ b, buffer = some b →
      shape.width * shape.colours * shape.height + padding < 2 ^ 32 ∧
      Lent m b (shape.width * shape.colours * shape.height + padding)) :
    Made m i (construct av m i shape buffer padding) := by
  cases buffer with
  | none =>
    rw [construct]
    exact allocImgBuffer_made hm hholds rfl rfl (aligned_rows (howned rfl)) rfl
  | some b =>
    obtain ⟨hsmall, hcaller, hcapacity⟩ := hlent b rfl
    have hstride : shape.width * shape.colours % 2 ^ 32 * shape.height + padding ≤
        shape.width * shape.colours * shape.height + padding :=
      Nat.add_le_add_right (Nat.mul_le_mul_right _ (Nat.mod_le _ _)) _
    have hwraps := hstride.trans_lt hsmall
    rw [construct]
    refine borrow_made hm hholds rfl ⟨hcaller, ?_⟩ le_rfl ?_ rfl
    · exact (Nat.mod_le _ _).trans (hstride.trans hcapacity)
    · change _ * shape.defaulted.height ≤ _
      rw [defaulted_height]
      exact strided_rows hwraps

theorem constructStrided_made {linesize padding : ℕ} {buffer : Option ℕ} (hm : m.Sound)
    (hholds : m.Holds i []) (hsmall : linesize * shape.height + padding < 2 ^ 32)
    (hlent : ∀ b, buffer = some b → Lent m b (linesize * shape.height + padding)) :
    Made m i (constructStrided m i shape linesize buffer padding) := by
  have hrows : linesize * shape.defaulted.height ≤
      (linesize * shape.height + padding) % 2 ^ 32 := by
    rw [defaulted_height]
    exact strided_rows hsmall
  cases buffer with
  | none =>
    rw [constructStrided]
    exact allocImgBuffer_made hm hholds rfl rfl hrows rfl
  | some b =>
    obtain ⟨hcaller, hcapacity⟩ := hlent b rfl
    rw [constructStrided]
    exact borrow_made hm hholds rfl ⟨hcaller, (Nat.mod_le _ _).trans hcapacity⟩ le_rfl hrows rfl

theorem copyConstruct_made (hm : m.Sound) (hholds : m.Holds i []) (himage : image.Fits m j) :
    Made m i (copyConstruct m i image) := by
  have hread : image.size ≤ (m.add ⟨image.size, .zm, .owner i⟩).capacity image.buffer := by
    rw [Memory.capacity_add]
    · exact himage.capacity
    · intro hnext
      exact hm.ne_next (himage.stored.buffer_ne_gone hnext) rfl
  have hwrite : image.size ≤ (m.add ⟨image.size, .zm, .owner i⟩).capacity (some m.next) := by
    rw [Memory.capacity_add_next]
  rw [copyConstruct]
  change Made m i (_, ((m.add ⟨image.size, .zm, .owner i⟩).touch image.buffer image.size).touch
    (some m.next) image.size)
  rw [Memory.touch_eq hread, Memory.touch_eq hwrite]
  let fresh : Image := { image with
    padding := 0, buffer := none, bufferType := .dontFree, allocation := 0, holdBuffer := false
    blendBuffer := none, blendBufferSize := 0 }
  have hmade : Made m i (allocImgBuffer m i fresh fresh.size) :=
    allocImgBuffer_made hm hholds rfl rfl himage.laid.rows himage.laid.format
  exact hmade

/-- An image that is destroyed leaves nothing of its own, and frees each of its blocks once. -/
theorem destroy_frees (hm : m.Sound) (h : img.Stored m i) :
    (destroy m i img).Sound ∧ (destroy m i img).Holds i [] ∧
      Memory.Keeps i none m (destroy m i img) := by
  obtain ⟨hm', hholds, hkind, hkeeps⟩ := h.dump hm
  have hblend : (dumpImgBuffer m i img).2.Holds i ([] ++ img.blendBuffer.toList) := hholds
  obtain ⟨hm'', hholds, hkeeps', -⟩ := dumpBlend hm' hblend hkind
  exact ⟨hm'', hholds, hkeeps.trans hkeeps'⟩

end ZoneMinder.Image
