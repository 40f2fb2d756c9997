import ZoneMinder.Image.Sound

namespace ZoneMinder.Image

open Lib

variable {m m' : Mem} {i j b n : ℕ} {img image : Image}

theorem rowsExtent_le (height : ℕ) {stride bytes : ℕ} (h : bytes ≤ stride) :
    rowsExtent height stride bytes ≤ stride * height := by
  cases height with
  | zero => exact Nat.zero_le _
  | succ height =>
    rw [rowsExtent, if_neg (Nat.succ_ne_zero height), Nat.add_sub_cancel, Nat.mul_succ,
      Nat.mul_comm]
    exact Nat.add_le_add_left h _

/-- A copy that stays inside both buffers changes neither the image nor what is known of the
memory. -/
theorem copyImage_eq (hheight : image.height = img.height)
    (hsource : image.linesize * image.height ≤ m.capacity image.buffer)
    (hrows : img.linesize * img.height ≤ m.capacity img.buffer)
    (hsize : image.buffer ≠ img.buffer → image.linesize = img.linesize →
      img.size ≤ m.capacity image.buffer)
    (hfits : img.size ≤ m.capacity img.buffer) :
    ∃ error, copyImage m img image = ⟨img, m, error⟩ ∧
      (image.linesize = img.linesize → error = false) := by
  rw [copyImage]
  split
  · split
    next hstride =>
      split
      · exact ⟨true, rfl, fun h ↦ absurd h hstride⟩
      · have hread := (rowsExtent_le image.height
          (min_le_left image.linesize img.linesize)).trans hsource
        have hwrite := (rowsExtent_le img.height
          (min_le_right image.linesize img.linesize)).trans hrows
        dsimp only
        rw [Memory.touch_eq hread, hheight, Memory.touch_eq hwrite]
        exact ⟨false, rfl, fun _ ↦ rfl⟩
    next hother hstride =>
      rw [Memory.touch_eq (hsize hother (not_not.mp hstride)), Memory.touch_eq hfits]
      exact ⟨false, rfl, fun _ ↦ rfl⟩
  · exact ⟨false, rfl, fun _ ↦ rfl⟩

theorem Stored.takeLayout (h : img.Stored m i) (image : Image) :
    (img.takeLayout image).Stored m i :=
  ⟨h.capacity, h.lent, h.bufferKind, h.blendKind, h.holds⟩

/-- An image over its own memory: it is stored and its layout fits. -/
structure Fits (img : Image) (m : Mem) (i : ℕ) : Prop where
  stored : img.Stored m i
  laid : img.Laid

theorem Fits.capacity (h : img.Fits m i) : img.size ≤ m.capacity img.buffer :=
  h.laid.size.trans h.stored.capacity

/-- The layout of another image goes into an image that has room for it. -/
theorem Fits.takeLayout (h : image.Fits m' j) (himg : img.Stored m i)
    (hroom : image.size ≤ img.allocation) : (img.takeLayout image).Fits m i where
  stored := himg.takeLayout image
  laid := ⟨hroom, h.laid.rows, h.laid.format⟩

/-- The copy of the pixels into an image that has taken the layout. -/
theorem Fits.copyImage_eq (h : (img.takeLayout image).Fits m i)
    (hsource : image.size ≤ m.capacity image.buffer) (hrows : image.linesize * image.height ≤ image.size) :
    copyImage m (img.takeLayout image) image = ⟨img.takeLayout image, m, false⟩ := by
  have hbuffer := h.capacity
  obtain ⟨error, heq, herror⟩ : ∃ error,
      copyImage m (img.takeLayout image) image = ⟨img.takeLayout image, m, error⟩ ∧
        (image.linesize = (img.takeLayout image).linesize → error = false) := Image.copyImage_eq
    rfl (hrows.trans hsource) (h.laid.rows.trans hbuffer) (fun _ _ ↦ hsource) hbuffer
  rw [heq, herror rfl]

/-- What an image has is not freed with the buffer of another one. -/
theorem Stored.not_own (h : img.Stored m i) (himage : image.Stored m j) (hij : i ≠ j)
    (hb : image.buffer = some b) (hbuffer : img.buffer = some b) :
    img.bufferType = .dontFree := by
  by_contra hlent
  have howner := h.buffer_owner hlent hbuffer
  by_cases hlent' : image.bufferType = .dontFree
  · rw [himage.lent hlent' b hb] at howner
    cases howner
  · rw [himage.buffer_owner hlent' hb] at howner
    exact hij (Holder.owner.inj howner).symm

/-- What `Assign` needs of another image: where the layout is not taken over, that its buffer
reaches as far as the copy does. -/
def Reaches (m : Mem) (img image : Image) : Prop :=
  img.buffer.isSome → image.buffer.isSome → image.imagePixFormat ≠ .none →
    image.toShape = img.toShape → image.buffer ≠ img.buffer → image.linesize = img.linesize →
      img.size ≤ m.capacity image.buffer

theorem assign_ok (hm : m.Sound) (h : img.Fits m i) (himage : image.Fits m j)
    (hij : i = j → img = image) (hreaches : Reaches m img image) :
    (assign m i img image).Ok m i none img := by
  have hsource := himage.capacity
  have hrows := himage.laid.rows
  have htaken : ∀ {img' : Image} {m' : Mem}, img'.Stored m' i → image.size ≤ img'.allocation →
      image.size ≤ m'.capacity image.buffer → m'.Sound → Memory.Keeps i none m m' →
      (copyImage m' (img'.takeLayout image) image).Ok m i none img := by
    intro img' m' hstored hroom hread hm' hkeeps
    have hfits := himage.takeLayout hstored hroom
    rw [hfits.copyImage_eq hread hrows]
    exact ⟨⟨hm', hfits.stored, hkeeps⟩, hfits.laid, fun h ↦ by (cases h)⟩
  rw [assign]
  split
  · exact h.stored.same hm h.laid
  next hformat =>
  obtain ⟨hsome, hformat⟩ := not_or.mp hformat
  obtain ⟨b, hb⟩ := Option.isSome_iff_exists.mp (isSome_of_not_isNone hsome)
  split
  next hother =>
    split
    · split
      · exact h.stored.same hm h.laid
      next hroom =>
      exact htaken h.stored (not_lt.mp hroom) hsource hm (.refl i none m)
    split
    · have halloc := allocImgBuffer_leaves hm (.inl h.stored) image.size
      have hne : i ≠ j := by
        intro heq
        rw [hij heq, hb] at hother
        simp at hother
      have hblock := h.stored.block_allocImgBuffer hm (himage.stored.buffer_ne_gone hb)
        (h.stored.not_own himage.stored hne hb) image.size
      have hread : image.size ≤ (allocImgBuffer m i img image.size).2.capacity image.buffer := by
        rw [hb, Memory.capacity, hblock]
        rw [hb] at hsource
        exact hsource
      exact htaken halloc.stored (allocImgBuffer_allocation image.size).ge hread halloc.memory
        halloc.keeps
    next hroom =>
    exact htaken h.stored (not_lt.mp (not_or.mp hroom).1) hsource hm (.refl i none m)
  next hsame =>
    obtain ⟨hbuffer, hshape⟩ := not_or.mp hsame
    have hshape := not_not.mp hshape
    obtain ⟨error, heq, -⟩ := copyImage_eq (congrArg Shape.height hshape) (hrows.trans hsource)
      (h.laid.rows.trans h.capacity)
      (hreaches (isSome_of_not_isNone hbuffer) (isSome_of_not_isNone hsome) hformat hshape)
      h.capacity
    rw [heq]
    exact h.stored.same hm h.laid

/-- The second buffer is not the buffer of an image. -/
theorem Stored.ne_blend (h : img.Stored m i) (himage : image.Stored m j)
    (hij : i = j → img = image) (hb : image.buffer = some b) : img.blendBuffer ≠ some b := by
  intro hblend
  have howner := h.blend_owner hblend
  by_cases hlent : image.bufferType = .dontFree
  · rw [himage.lent hlent b hb] at howner
    cases howner
  · have himageOwner := himage.buffer_owner hlent hb
    rw [howner] at himageOwner
    obtain rfl := hij (Holder.owner.inj himageOwner)
    have hnodup := h.holds.nodup
    rw [blocks, if_neg hlent, hb, hblend] at hnodup
    simp at hnodup

theorem dumpBlend {p : Option ℕ} {rest : List ℕ} (hm : m.Sound)
    (hholds : m.Holds i (rest ++ p.toList)) (hkind : ∀ b, p = some b → m.kind b = .zm) :
    (dumpBuffer m i p .zm).Sound ∧ (dumpBuffer m i p .zm).Holds i rest ∧
      Memory.Keeps i none m (dumpBuffer m i p .zm) ∧
      ∀ b, p ≠ some b → (dumpBuffer m i p .zm).block b = m.block b := by
  cases p with
  | none =>
    rw [Option.toList_none, List.append_nil] at hholds
    exact ⟨hm, hholds, .refl i none m, fun _ _ ↦ rfl⟩
  | some b =>
    have hkind := hkind b rfl
    have hperm : (rest ++ [b]).Perm (b :: rest) := List.perm_append_singleton b rest
    have hholds := hholds.perm hperm
    have howner := (hholds.mem b).mpr List.mem_cons_self
    refine ⟨hm.free howner hkind, hholds.free hkind, Memory.keeps_free howner hkind, ?_⟩
    intro c hc
    have hne : c ≠ b := fun heq ↦ hc (congrArg some heq.symm)
    exact (Memory.block_free howner hkind).trans (if_neg hne)

/-- How much a second buffer holds that is used again, or is made where it is too small. -/
def secondCapacity (m : Mem) (img : Image) : ℕ :=
  if img.blendBufferSize < img.size then img.size else m.capacity img.blendBuffer

theorem growBlendBuffer_leaves (hm : m.Sound) (h : img.Stored m i) :
    Leaves m i none (growBlendBuffer m i img) ∧
    (∀ b, m.holder b ≠ .gone → img.blendBuffer ≠ some b →
      (growBlendBuffer m i img).2.block b = m.block b) ∧
    (growBlendBuffer m i img).2.capacity (growBlendBuffer m i img).1.blendBuffer =
      secondCapacity m img := by
  rw [growBlendBuffer, secondCapacity]
  split
  · obtain ⟨hm', hholds, hkeeps, hblock⟩ := dumpBlend hm h.holds h.blendKind
    dsimp only
    generalize dumpBuffer m i img.blendBuffer .zm = m' at hm' hholds hkeeps hblock
    have hsame : ∀ b, m.holder b ≠ .gone → img.blendBuffer ≠ some b →
        (m'.add ⟨img.size, .zm, .owner i⟩).block b = m.block b := by
      intro b hb hne
      have hb' : m'.holder b ≠ .gone := by
        rw [Memory.holder, hblock b hne]
        exact hb
      rw [Memory.block_add, if_neg (hm'.ne_next hb'), hblock b hne]
    have hbuffer : ∀ b, img.buffer = some b →
        (m'.add ⟨img.size, .zm, .owner i⟩).block b = m.block b :=
      fun b hb ↦ hsame b (h.buffer_ne_gone hb) (h.ne_blend h (fun _ ↦ rfl) hb)
    refine ⟨⟨hm'.add _, ⟨?_, ?_, ?_, ?_, ?_⟩, hkeeps.trans (hm'.keeps_add i img.size .zm)⟩, hsame,
      Memory.capacity_add_next⟩
    · rw [Memory.capacity_congr hbuffer]
      exact h.capacity
    · intro hlent b hb
      rw [Memory.holder, hbuffer b hb]
      exact h.lent hlent b hb
    · intro hlent b hb
      rw [Memory.kind, hbuffer b hb]
      exact h.bufferKind hlent b hb
    · intro b hb
      obtain rfl := Option.some.inj hb
      rw [Memory.kind_add, if_pos rfl]
    · exact (hholds.add hm' img.size .zm).perm (List.perm_append_singleton _ _).symm
  · exact ⟨⟨hm, h, .refl i none m⟩, fun _ _ _ ↦ rfl, rfl⟩

theorem growBlendBuffer_eq : (growBlendBuffer m i img).1 = { img with
    blendBuffer := (growBlendBuffer m i img).1.blendBuffer
    blendBufferSize := (growBlendBuffer m i img).1.blendBufferSize } := by
  rw [growBlendBuffer]
  split
  · rfl
  · rfl

theorem Stored.swap (h : img.Stored m i) (htype : img.buffer.isSome → img.bufferType = .zm)
    (hallocation : img.allocation ≤ m.capacity img.blendBuffer) :
    ({ img with buffer := img.blendBuffer, blendBuffer := img.buffer, bufferType := .zm } :
      Image).Stored m i where
  capacity := hallocation
  lent := fun h ↦ by (cases h)
  bufferKind _ b hb := ⟨h.blendKind b hb, fun h ↦ by (cases h)⟩
  blendKind b hb := by
    have hzm : img.bufferType = .zm := htype (Option.isSome_iff_exists.mpr ⟨b, hb⟩)
    have hkind := (h.bufferKind (fun h ↦ by rw [hzm] at h; cases h) b hb).1
    rwa [hzm] at hkind
  holds := by
    have hholds := h.holds
    have hblocks : img.blocks = img.buffer.toList ++ img.blendBuffer.toList := by
      rw [blocks]
      split
      next hlent =>
        cases hbuffer : img.buffer with
        | none => rfl
        | some b =>
          have hzm := htype (Option.isSome_iff_exists.mpr ⟨b, hbuffer⟩)
          rw [hlent] at hzm
          cases hzm
      · rfl
    rw [hblocks] at hholds
    exact hholds.perm List.perm_append_comm

theorem BlendFunction.le_of_extent_le {function : BlendFunction} {count capacity : ℕ}
    (h : function.extent count capacity ≤ capacity) : count ≤ capacity := by
  rw [extent] at h
  cases hreach : function.reach count with
  | none =>
    rw [hreach, Option.getD_none] at h
    exact absurd h (Nat.not_succ_le_self capacity)
  | some n =>
    rw [hreach, Option.getD_some] at h
    refine le_trans ?_ h
    cases function with
    | stdBlend => exact (Option.some.inj hreach).le
    | stdFastblend =>
      have hn : (count + 15) / 16 * 16 = n := Option.some.inj hreach
      omega
    | sse2Fastblend =>
      rw [reach] at hreach
      split at hreach
      · exact (Option.some.inj hreach).le
      · cases hreach
    | neonFastblend =>
      rw [reach] at hreach
      split at hreach
      · exact (Option.some.inj hreach).le
      · cases hreach

/-- What `Blend` needs: the function touches no more than there is of the buffer of the image, that
of the other one and the second buffer, and where the buffers change places the second one holds
the allocation and the first one is of its kind. -/
structure Blends (m : Mem) (img image : Image) (function : BlendFunction) : Prop where
  own : function.extent img.size (m.capacity img.buffer) ≤ m.capacity img.buffer
  source : function.extent img.size (m.capacity image.buffer) ≤ m.capacity image.buffer
  second : function.extent img.size (secondCapacity m img) ≤ secondCapacity m img
  swap : img.holdBuffer = false → (img.buffer.isSome → img.bufferType = .zm) ∧
    img.allocation ≤ secondCapacity m img

theorem blend_ok {function : BlendFunction} {transparency : ℤ} (hm : m.Sound) (h : img.Fits m i)
    (himage : image.Fits m j) (hij : i = j → img = image)
    (hblends : img.toShape = image.toShape → 0 < transparency → Blends m img image function) :
    (blend m i img image function transparency).Ok m i none img := by
  rw [blend]
  split
  · exact h.stored.same hm h.laid
  next hshape =>
  split
  · exact h.stored.same hm h.laid
  next hpositive =>
  have hblends := hblends (not_not.mp hshape) (not_le.mp hpositive)
  obtain ⟨hleaves, hblock, hcapacity⟩ := growBlendBuffer_leaves hm h.stored
  have hgrown : (growBlendBuffer m i img).1 = _ := growBlendBuffer_eq
  generalize growBlendBuffer m i img = r at hleaves hblock hcapacity hgrown
  obtain ⟨img', m'⟩ := r
  obtain ⟨hm', hstored, hkeeps⟩ := hleaves
  dsimp only at hm' hstored hkeeps hblock hcapacity hgrown ⊢
  have hsize : img'.size = img.size := by rw [hgrown]
  have hhold : img'.holdBuffer = img.holdBuffer := by rw [hgrown]
  have hbuffer : img'.buffer = img.buffer := by rw [hgrown]
  have htype : img'.bufferType = img.bufferType := by rw [hgrown]
  have hallocation : img'.allocation = img.allocation := by rw [hgrown]
  have hlaid : img'.Laid := by
    rw [hgrown]
    exact ⟨h.laid.size, h.laid.rows, h.laid.format⟩
  have hown : function.extent img'.size (m'.capacity img'.buffer) ≤ m'.capacity img'.buffer := by
    rw [hsize, hbuffer, Memory.capacity_congr]
    · exact hblends.own
    · intro b hb
      exact hblock b (h.stored.buffer_ne_gone hb) (h.stored.ne_blend h.stored (fun _ ↦ rfl) hb)
  have hsource : function.extent img'.size (m'.capacity image.buffer) ≤
      m'.capacity image.buffer := by
    rw [hsize, Memory.capacity_congr]
    · exact hblends.source
    · intro b hb
      exact hblock b (himage.stored.buffer_ne_gone hb) (h.stored.ne_blend himage.stored hij hb)
  have hsecond : function.extent img'.size (m'.capacity img'.blendBuffer) ≤
      m'.capacity img'.blendBuffer := by
    rw [hcapacity, hsize]
    exact hblends.second
  rw [Memory.touch_eq hown, Memory.touch_eq hsource, Memory.touch_eq hsecond,
    Memory.touch_eq (BlendFunction.le_of_extent_le hsecond),
    Memory.touch_eq (hlaid.size.trans hstored.capacity)]
  split
  · exact ⟨⟨hm', hstored, hkeeps⟩, hlaid, fun h ↦ by (cases h)⟩
  next hheld =>
  rw [hhold] at hheld
  obtain ⟨hzm, hroom⟩ := hblends.swap (Bool.eq_false_of_not_eq_true hheld)
  refine ⟨⟨hm', hstored.swap ?_ ?_, hkeeps⟩, ⟨hlaid.size, hlaid.rows, hlaid.format⟩, fun h ↦ by (cases h)⟩
  · rw [hbuffer, htype]
    exact hzm
  · rw [hallocation, hcapacity]
    exact hroom

end ZoneMinder.Image
