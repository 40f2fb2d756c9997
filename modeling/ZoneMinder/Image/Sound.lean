import ZoneMinder.Image.Storage

namespace ZoneMinder.Image

open Lib

/-- The blocks that an image is to free. -/
def blocks (img : Image) : List ℕ :=
  (if img.bufferType = .dontFree then [] else img.buffer.toList) ++ img.blendBuffer.toList

/-- The storage of an image: its allocation is there, a borrowed buffer is its lender's, and what it
is to free is its own and nothing else is. -/
structure Stored (img : Image) (m : Mem) (i : ℕ) : Prop where
  capacity : img.allocation ≤ m.capacity img.buffer
  lent : img.bufferType = .dontFree → ∀ b, img.buffer = some b → m.holder b = .caller
  bufferKind : img.bufferType ≠ .dontFree → ∀ b, img.buffer = some b →
    m.kind b = img.bufferType ∧ img.bufferType ≠ .avMalloc
  blendKind : ∀ b, img.blendBuffer = some b → m.kind b = .zm
  holds : m.Holds i img.blocks

/-- The layout of an image fits its storage. -/
structure Laid (img : Image) : Prop where
  size : img.size ≤ img.allocation
  rows : img.linesize * img.height ≤ img.size
  format : img.imagePixFormat = img.toShape.pixFormat

/-- An image that has no buffer, its second buffer apart. -/
structure Bare (img : Image) (m : Mem) (i : ℕ) : Prop where
  holds : m.Holds i img.blendBuffer.toList
  blendKind : ∀ b, img.blendBuffer = some b → m.kind b = .zm

variable {av : Av} {m m' : Mem} {i j b n : ℕ} {img image : Image} {given : Option ℕ}
  {shape : Shape}

theorem Stored.bare (h : img.Stored m i) (hbuffer : img.buffer = none) : img.Bare m i where
  holds := by
    have hholds := h.holds
    rw [blocks, hbuffer, Option.toList_none, ite_self, List.nil_append] at hholds
    exact hholds
  blendKind := h.blendKind

theorem dumpBuffer_free {k : BufType} (hk : k ≠ .dontFree) (hav : k ≠ .avMalloc) :
    dumpBuffer m i (some b) k = m.free i k b := by
  cases k with
  | dontFree => contradiction
  | avMalloc => contradiction
  | malloc | new | zm => rfl

/-- Dumping the buffer frees it if it is the image's own. -/
theorem Stored.dump (h : img.Stored m i) (hm : m.Sound) :
    (dumpBuffer m i img.buffer img.bufferType).Sound ∧
    (dumpBuffer m i img.buffer img.bufferType).Holds i img.blendBuffer.toList ∧
    (∀ b, img.blendBuffer = some b → (dumpBuffer m i img.buffer img.bufferType).kind b = .zm) ∧
    Memory.Keeps i none m (dumpBuffer m i img.buffer img.bufferType) := by
  have hholds := h.holds
  rw [blocks] at hholds
  by_cases hlent : img.bufferType = .dontFree
  · rw [if_pos hlent, List.nil_append] at hholds
    have hsame : dumpBuffer m i img.buffer img.bufferType = m := by
      rw [hlent]
      cases img.buffer
      · rfl
      · rfl
    rw [hsame]
    exact ⟨hm, hholds, h.blendKind, .refl i none m⟩
  rw [if_neg hlent] at hholds
  cases hbuffer : img.buffer with
  | none =>
    rw [hbuffer] at hholds
    exact ⟨hm, hholds, h.blendKind, .refl i none m⟩
  | some b =>
    rw [hbuffer] at hholds
    obtain ⟨hkind, hav⟩ := h.bufferKind hlent b hbuffer
    have howner : m.holder b = .owner i := (hholds.mem b).mpr List.mem_cons_self
    rw [dumpBuffer_free hlent hav]
    refine ⟨hm.free howner hkind, hholds.free hkind, ?_, Memory.keeps_free howner hkind⟩
    intro c hc
    have hne : c ≠ b := by
      rintro rfl
      refine (List.nodup_cons.mp hholds.nodup).1 ?_
      simp [hc]
    rw [Memory.kind, Memory.block_free howner hkind, if_neg hne]
    exact h.blendKind c hc

/-- A new buffer of the image's own. -/
theorem Bare.alloc (h : img.Bare m i) (hm : m.Sound) (size : ℕ) :
    ({ img with buffer := some m.next, bufferType := .zm, allocation := size } : Image).Stored
      (m.add ⟨size, .zm, .owner i⟩) i where
  capacity := by
    rw [Memory.capacity_add_next]
  lent := fun h ↦ by (cases h)
  bufferKind _ b hb := by
    obtain rfl := Option.some.inj hb
    rw [Memory.kind_add, if_pos rfl]
    exact ⟨rfl, fun h ↦ by (cases h)⟩
  blendKind b hb := by
    rw [Memory.kind_add]
    split
    · rfl
    · exact h.blendKind b hb
  holds := h.holds.add hm size .zm

/-- What an operation leaves of the memory and the storage of its image. -/
structure Leaves (m : Mem) (i : ℕ) (given : Option ℕ) (r : Image × Mem) : Prop where
  memory : r.2.Sound
  stored : r.1.Stored r.2 i
  keeps : Memory.Keeps i given m r.2

theorem allocImgBuffer_leaves (hm : m.Sound)
    (h : img.Stored m i ∨ img.buffer = none ∧ img.Bare m i) (size : ℕ) :
    Leaves m i none (allocImgBuffer m i img size) := by
  cases hbuffer : img.buffer with
  | none =>
    have hbare : img.Bare m i := by
      rcases h with h | ⟨-, h⟩
      · exact h.bare hbuffer
      · exact h
    simp only [allocImgBuffer, hbuffer, Option.isSome_none, Bool.false_eq_true, if_false]
    exact ⟨hm.add _, hbare.alloc hm size, hm.keeps_add i size .zm⟩
  | some b =>
    have hstored : img.Stored m i := by
      rcases h with h | ⟨hnone, -⟩
      · exact h
      · rw [hbuffer] at hnone
        contradiction
    obtain ⟨hm', hholds, hkind, hkeeps⟩ := hstored.dump hm
    have hbare : ({ img with bufferType := .dontFree, buffer := none, allocation := 0 } :
        Image).Bare (dumpBuffer m i img.buffer img.bufferType) i := ⟨hholds, hkind⟩
    simp only [allocImgBuffer, dumpImgBuffer, hbuffer, Option.isSome_some, if_true]
    rw [hbuffer] at hm' hbare hkeeps
    exact ⟨hm'.add _, hbare.alloc hm' size, hkeeps.trans (hm'.keeps_add i size .zm)⟩

theorem allocImgBuffer_eq (size : ℕ) :
    (allocImgBuffer m i img size).1 = { img with
      buffer := (allocImgBuffer m i img size).1.buffer, bufferType := .zm, allocation := size } := by
  cases hbuffer : img.buffer with
  | none => simp [allocImgBuffer, hbuffer]
  | some b => simp [allocImgBuffer, hbuffer, dumpImgBuffer]

theorem ffalign_nonneg {x : ℤ} (h : 0 ≤ x) : 0 ≤ ffalign x := by
  rw [ffalign]
  omega

theorem toUnsigned_le {x : ℤ} (h : 0 ≤ x) : toUnsigned x ≤ x.toNat := by
  rw [toUnsigned]
  omega

theorem toUnsigned_bufferSize {f : PixelFormat} {w h a : ℕ} (hsize : 0 ≤ av.getBufferSize f w h a) :
    toUnsigned (av.getBufferSize f w h a) = (av.getBufferSize f w h a).toNat := by
  have hlt := av.bufferSize_lt f w h a
  rw [toUnsigned, Int.emod_eq_of_lt hsize (by omega)]

/-- The rows of the stride that goes with a format and a width. -/
theorem rows_le (av : Av) {f : PixelFormat} {w h linesize : ℕ}
    (hsize : 0 ≤ av.getBufferSize f w h 32)
    (hlinesize : linesize ≤ (ffalign (av.getLinesize f w)).toNat) :
    linesize * h ≤ (av.getBufferSize f w h 32).toNat := by
  have hnonneg := ffalign_nonneg (av.linesize f w h hsize)
  have hrows := av.rows f w h hsize
  calc
    linesize * h ≤ (ffalign (av.getLinesize f w)).toNat * h := Nat.mul_le_mul_right h hlinesize
    _ ≤ (av.getBufferSize f w h 32).toNat := by
      apply Int.ofNat_le.mp
      rw [Int.natCast_mul, Int.toNat_of_nonneg hnonneg, Int.toNat_of_nonneg hsize]
      exact hrows

theorem Stored.reshape (h : img.Stored m i) (shape : Shape) (linesize size : ℕ) :
    (img.reshape shape linesize size).Stored m i :=
  ⟨h.capacity, h.lent, h.bufferKind, h.blendKind, h.holds⟩

theorem reshape_laid (av : Av) {linesize : ℕ}
    (hsize : 0 ≤ av.getBufferSize shape.pixFormat shape.width shape.height 32)
    (hlinesize : linesize ≤ (ffalign (av.getLinesize shape.pixFormat shape.width)).toNat)
    (hallocation :
      (av.getBufferSize shape.pixFormat shape.width shape.height 32).toNat ≤ img.allocation) :
    (img.reshape shape linesize
      (av.getBufferSize shape.pixFormat shape.width shape.height 32).toNat).Laid where
  size := hallocation
  rows := rows_le av hsize hlinesize
  format := rfl

/-- What comes of an operation on an image. -/
structure Outcome.Ok (r : Outcome) (m : Mem) (i : ℕ) (given : Option ℕ) (img : Image) : Prop where
  leaves : Leaves m i given (r.image, r.memory)
  laid : r.image.Laid
  unchanged : r.error = true → r.image = img ∧ r.memory = m

theorem Stored.same (h : img.Stored m i) (hm : m.Sound) (hl : img.Laid) {error : Bool} :
    Outcome.Ok ⟨img, m, error⟩ m i given img :=
  ⟨⟨hm, h, .refl i given m⟩, hl, fun _ ↦ ⟨rfl, rfl⟩⟩

theorem allocImgBuffer_allocation (size : ℕ) : (allocImgBuffer m i img size).1.allocation = size :=
  congrArg Image.allocation (allocImgBuffer_eq size)

section Reshape

variable {linesize : ℕ} (hsize : 0 ≤ av.getBufferSize shape.pixFormat shape.width shape.height 32)
  (hlinesize : linesize ≤ (ffalign (av.getLinesize shape.pixFormat shape.width)).toNat)

include hsize hlinesize

/-- The shape goes into the buffer that is there. -/
theorem Stored.kept (h : img.Stored m i) (hm : m.Sound)
    (hallocation :
      (av.getBufferSize shape.pixFormat shape.width shape.height 32).toNat ≤ img.allocation) :
    Outcome.Ok ⟨img.reshape shape linesize
      (av.getBufferSize shape.pixFormat shape.width shape.height 32).toNat, m, false⟩ m i given img :=
  ⟨⟨hm, h.reshape _ _ _, .refl i given m⟩, reshape_laid av hsize hlinesize hallocation,
    fun h ↦ by (cases h)⟩

/-- The shape goes into a new buffer of its size. -/
theorem Stored.replaced (h : img.Stored m i) (hm : m.Sound) :
    let size := (av.getBufferSize shape.pixFormat shape.width shape.height 32).toNat
    Outcome.Ok ⟨(allocImgBuffer m i img size).1.reshape shape linesize size,
      (allocImgBuffer m i img size).2, false⟩ m i none img := by
  intro size
  have halloc := allocImgBuffer_leaves hm (.inl h) size
  refine ⟨⟨halloc.memory, halloc.stored.reshape _ _ _, halloc.keeps⟩, ?_, fun h ↦ by (cases h)⟩
  exact reshape_laid av hsize hlinesize (allocImgBuffer_allocation size).ge

end Reshape

theorem writeBuffer_ok (hm : m.Sound) (h : img.Stored m i) (hl : img.Laid) :
    (writeBuffer av m i img shape).Ok m i none img := by
  rw [writeBuffer]
  split
  · exact h.same hm hl
  split
  · dsimp only
    split
    · exact h.same hm hl
    next hsize =>
    rw [not_or, not_lt, not_lt] at hsize
    split
    · exact h.replaced hsize.1 le_rfl hm
    split
    · split
      · exact h.same hm hl
      · exact h.replaced hsize.1 le_rfl hm
    next hfits =>
    exact h.kept hsize.1 le_rfl hm (not_lt.mp hfits)
  · exact h.same hm hl

/-- Memory in which the blocks of an image are what they were stores it. -/
theorem Stored.of_block (h : img.Stored m i)
    (hbuffer : ∀ b, img.buffer = some b → m'.block b = m.block b)
    (hblend : ∀ b, img.blendBuffer = some b → m'.block b = m.block b)
    (hholds : m'.Holds i img.blocks) : img.Stored m' i where
  capacity := by
    rw [Memory.capacity_congr hbuffer]
    exact h.capacity
  lent hlent b hb := by
    rw [Memory.holder, hbuffer b hb]
    exact h.lent hlent b hb
  bufferKind hlent b hb := by
    rw [Memory.kind, hbuffer b hb]
    exact h.bufferKind hlent b hb
  blendKind b hb := by
    rw [Memory.kind, hblend b hb]
    exact h.blendKind b hb
  holds := hholds

/-- A second buffer is the image's own. -/
theorem Stored.blend_owner (h : img.Stored m i) (hb : img.blendBuffer = some b) :
    m.holder b = .owner i := by
  apply (h.holds.mem b).mpr
  rw [blocks, hb]
  exact List.mem_append_right _ List.mem_cons_self

theorem Stored.buffer_owner (h : img.Stored m i) (hlent : img.bufferType ≠ .dontFree)
    (hb : img.buffer = some b) : m.holder b = .owner i := by
  apply (h.holds.mem b).mpr
  rw [blocks, if_neg hlent, hb]
  exact List.mem_append_left _ List.mem_cons_self

/-- A buffer is there. -/
theorem Stored.buffer_ne_gone (h : img.Stored m i) (hb : img.buffer = some b) :
    m.holder b ≠ .gone := by
  by_cases hlent : img.bufferType = .dontFree
  · rw [h.lent hlent b hb]
    exact fun h ↦ by (cases h)
  · rw [h.buffer_owner hlent hb]
    exact fun h ↦ by (cases h)

/-- A block that is handed over and freed at once is gone, and the image stays as it was. -/
theorem Stored.handed {k : BufType} (h : img.Stored m i) (hm : m.Sound)
    (hcaller : m.holder b = .caller) (hk : m.kind b = k) (hother : img.buffer ≠ some b) :
    ((m.give i b).free i k b).Sound ∧ img.Stored ((m.give i b).free i k b) i ∧
      Memory.Keeps i (some b) m ((m.give i b).free i k b) := by
  have howner : (m.give i b).holder b = .owner i := by
    rw [Memory.holder_give, if_pos rfl]
  have hkind : (m.give i b).kind b = k := by
    rw [Memory.kind_give]
    exact hk
  have hgive : (m.give i b).Sound := hm.give (fun h ↦ by rw [hcaller] at h; cases h) i
  have hsame : ∀ c, c ≠ b → ((m.give i b).free i k b).block c = m.block c := by
    intro c hc
    rw [Memory.block_free howner hkind, if_neg hc, Memory.block_give, if_neg hc]
  refine ⟨hgive.free howner hkind, ?_, ?_⟩
  · apply h.of_block
    · intro c hc
      apply hsame
      rintro rfl
      exact hother hc
    · intro c hc
      apply hsame
      rintro rfl
      rw [h.blend_owner hc] at hcaller
      cases hcaller
    · exact (h.holds.give hcaller).free hkind
  · exact Memory.keeps_give.trans (Memory.keeps_free howner hkind).mono

/-- What the caller of `AssignDirect` promises: the memory is there and is its own, and where it is
handed over it is of the kind that is said and the image does not have it already. -/
structure Lends (m : Mem) (img : Image) (b bufferSize : ℕ) (bufType : BufType) : Prop where
  caller : m.holder b = .caller
  capacity : bufferSize ≤ m.capacity (some b)
  handed : bufType ≠ .dontFree → m.kind b = bufType ∧ bufType ≠ .avMalloc ∧ img.buffer ≠ some b

/-- The block that is handed over. -/
def handedOver (newBuffer : Option ℕ) (bufType : BufType) : Option ℕ :=
  if bufType = .dontFree then none else newBuffer

/-- A new buffer takes the place of the one that is there. -/
theorem Stored.adopt {bufferSize : ℕ} {bufType : BufType} (h : img.Stored m i) (hm : m.Sound)
    (hlends : Lends m img b bufferSize bufType) :
    Leaves m i (handedOver (some b) bufType)
      ({ img with buffer := some b, bufferType := bufType, allocation := bufferSize },
        if bufType = .dontFree then dumpBuffer m i img.buffer img.bufferType
        else (dumpBuffer m i img.buffer img.bufferType).give i b) := by
  obtain ⟨hm', hholds, hkind, hkeeps⟩ := h.dump hm
  have hblock : (dumpBuffer m i img.buffer img.bufferType).block b = m.block b := by
    apply hkeeps.block
    · rw [hlends.caller]
      exact fun h ↦ by (cases h)
    · rw [hlends.caller]
      exact fun h ↦ by (cases h)
    · exact fun h ↦ by (cases h)
  generalize dumpBuffer m i img.buffer img.bufferType = m' at hm' hholds hkind hkeeps hblock
  have hcapacity : bufferSize ≤ m'.capacity (some b) := by
    rw [Memory.capacity, hblock]
    exact hlends.capacity
  have hcaller : m'.holder b = .caller := by
    rw [Memory.holder, hblock]
    exact hlends.caller
  by_cases hlent : bufType = .dontFree
  · rw [if_pos hlent]
    refine ⟨hm', ⟨hcapacity, ?_, fun h ↦ absurd hlent h, hkind, ?_⟩, hkeeps.mono⟩
    · intro _ c hc
      obtain rfl := Option.some.inj hc
      exact hcaller
    · rw [blocks, if_pos hlent]
      exact hholds
  rw [if_neg hlent, handedOver, if_neg hlent]
  obtain ⟨hbkind, hav, -⟩ := hlends.handed hlent
  refine ⟨?_, ⟨?_, fun h ↦ absurd h hlent, ?_, ?_, ?_⟩, hkeeps.mono.trans Memory.keeps_give⟩
  · apply hm'.give
    rw [hcaller]
    exact fun h ↦ by (cases h)
  · rw [Memory.capacity_give]
    exact hcapacity
  · intro _ c hc
    obtain rfl := Option.some.inj hc
    rw [Memory.kind_give, Memory.kind, hblock]
    exact ⟨hbkind, hav⟩
  · intro c hc
    rw [Memory.kind_give]
    exact hkind c hc
  · rw [blocks, if_neg hlent]
    exact hholds.give hcaller

theorem assignDirect_ok {newBuffer : Option ℕ} {bufferSize : ℕ} {bufType : BufType} (hm : m.Sound)
    (h : img.Stored m i) (hl : img.Laid)
    (hlends : ∀ b, newBuffer = some b → Lends m img b bufferSize bufType) :
    (assignDirect av m i img shape newBuffer bufferSize bufType).Ok m i
      (handedOver newBuffer bufType) img := by
  cases newBuffer with
  | none => exact h.same hm hl
  | some b =>
  have hlends := hlends b rfl
  rw [assignDirect]
  split
  · exact h.same hm hl
  dsimp only
  split
  · exact h.same hm hl
  next hsize =>
  rw [not_or, not_or, not_lt, not_lt, not_lt] at hsize
  obtain ⟨hsize, -, hlarge⟩ := hsize
  have hsource := hlarge.trans hlends.capacity
  split
  · split
    · exact h.same hm hl
    next hfits =>
    have hfits := not_lt.mp hfits
    have hkept : Outcome.Ok _ m i (handedOver (some b) bufType) img :=
      h.kept hsize le_rfl hm hfits
    rw [Memory.touch_eq hsource, Memory.touch_eq (hfits.trans h.capacity), ite_self]
    by_cases hlent : bufType = .dontFree
    · rw [if_pos hlent, hlent]
      rw [hlent] at hkept
      exact hkept
    · obtain ⟨hkind, hav, hother⟩ := hlends.handed hlent
      obtain ⟨hm', hstored, hkeeps⟩ := h.handed hm hlends.caller hkind hother
      rw [if_neg hlent, dumpBuffer_free hlent hav, handedOver, if_neg hlent]
      exact ⟨⟨hm', hstored.reshape _ _ _, hkeeps⟩, hkept.laid, fun h ↦ by (cases h)⟩
  · have hadopt := h.adopt hm hlends
    exact ⟨⟨hadopt.memory, hadopt.stored.reshape _ _ _, hadopt.keeps⟩,
      reshape_laid av hsize le_rfl hlarge, fun h ↦ by (cases h)⟩

theorem allocImgBuffer_dumped (size : ℕ) :
    allocImgBuffer (dumpImgBuffer m i img).2 i (dumpImgBuffer m i img).1 size =
      allocImgBuffer m i img size := by
  cases hbuffer : img.buffer with
  | none => simp [allocImgBuffer, dumpImgBuffer, dumpBuffer, hbuffer]
  | some b => simp [allocImgBuffer, dumpImgBuffer, hbuffer]

/-- A block that is not the image's own buffer outlives that buffer. -/
theorem Stored.block_allocImgBuffer (h : img.Stored m i) (hm : m.Sound) (hb : m.holder b ≠ .gone)
    (hown : img.buffer = some b → img.bufferType = .dontFree) (size : ℕ) :
    (allocImgBuffer m i img size).2.block b = m.block b := by
  have hadd : ∀ {m' : Mem}, m'.Sound → m'.block b = m.block b →
      (m'.add ⟨size, .zm, .owner i⟩).block b = m.block b := by
    intro m' hm' hsame
    have hb' : m'.holder b ≠ .gone := by
      rw [Memory.holder, hsame]
      exact hb
    rw [Memory.block_add, if_neg (hm'.ne_next hb')]
    exact hsame
  cases hbuffer : img.buffer with
  | none =>
    simp only [allocImgBuffer, hbuffer, Option.isSome_none, Bool.false_eq_true, if_false]
    exact hadd hm rfl
  | some c =>
    simp only [allocImgBuffer, dumpImgBuffer, hbuffer, Option.isSome_some, if_true]
    have hdump := (h.dump hm).1
    rw [hbuffer] at hdump hown
    apply hadd hdump
    by_cases hlent : img.bufferType = .dontFree
    · rw [hlent]
      rfl
    · obtain ⟨hkind, hav⟩ := h.bufferKind hlent c hbuffer
      have hne : b ≠ c := fun heq ↦ hlent (hown (congrArg some heq.symm))
      rw [dumpBuffer_free hlent hav, Memory.block_free (h.buffer_owner hlent hbuffer) hkind,
        if_neg hne]

theorem copied_le (av : Av) {f : PixelFormat} {w h a : ℕ} (hsize : 0 ≤ av.getBufferSize f w h a) :
    av.copied f w h a ≤ (av.getBufferSize f w h a).toNat :=
  (Int.le_toNat hsize).mpr (av.copied_le f w h a hsize)

/-- What `Assign` needs of a packed buffer: that it is there, where it is large enough also after the
image has got itself another buffer, and that the planes fit the image where that keeps its
layout. -/
structure Copies (av : Av) (m : Mem) (img : Image) (shape : Shape) (b bufferSize : ℕ) : Prop where
  there : m.holder b ≠ .gone
  capacity : bufferSize ≤ m.capacity (some b)
  own : (av.getBufferSize shape.pixFormat shape.width shape.height 1).toNat ≤ bufferSize →
    img.buffer = some b → img.bufferType ≠ .dontFree → img.holdBuffer = false →
    shape ≠ img.toShape →
    (av.getBufferSize shape.pixFormat shape.width shape.height 32).toNat ≤ img.allocation
  planes : (av.getBufferSize shape.pixFormat shape.width shape.height 1).toNat ≤ bufferSize →
    img.buffer.isSome → shape = img.toShape → some b ≠ img.buffer →
    av.copied shape.pixFormat shape.width shape.height 32 ≤ m.capacity img.buffer

section Planes

variable (hpacked : 0 ≤ av.getBufferSize shape.pixFormat shape.width shape.height 1)
  (hsize : 0 ≤ av.getBufferSize shape.pixFormat shape.width shape.height 32)

include hpacked hsize

theorem copyPlanes_eq
    (hsource : av.copied shape.pixFormat shape.width shape.height 1 ≤ m.capacity (some b))
    (hplanes : some b ≠ img.buffer →
      av.copied shape.pixFormat shape.width shape.height 32 ≤ m.capacity img.buffer) :
    copyPlanes av m img shape b = ⟨img, m, false⟩ := by
  rw [copyPlanes]
  split
  next hother =>
    have hfill := av.fill shape.pixFormat shape.width shape.height 1 hpacked
    have hfill' := av.fill shape.pixFormat shape.width shape.height 32 hsize
    rw [if_neg (by omega)]
    dsimp only
    rw [Memory.touch_eq hsource, Memory.touch_eq (hplanes hother)]
  · rfl

/-- The planes go into an image of their layout. -/
theorem Stored.copyPlanes_eq (h : img.Stored m i)
    (hsource : av.copied shape.pixFormat shape.width shape.height 1 ≤ m.capacity (some b))
    (hfits : (av.getBufferSize shape.pixFormat shape.width shape.height 32).toNat ≤ img.allocation) :
    copyPlanes av m img shape b = ⟨img, m, false⟩ :=
  Image.copyPlanes_eq hpacked hsize hsource
    fun _ ↦ (copied_le av hsize).trans (hfits.trans h.capacity)

end Planes

theorem isSome_of_not_isNone {p : Option ℕ} (h : ¬p.isNone) : p.isSome :=
  Option.isNone_eq_false_iff.mp (Bool.eq_false_of_not_eq_true h)

theorem assignBuffer_ok {newBuffer : Option ℕ} {bufferSize : ℕ} (hm : m.Sound)
    (h : img.Stored m i) (hl : img.Laid)
    (hcopies : ∀ b, newBuffer = some b → Copies av m img shape b bufferSize) :
    (assignBuffer av m i img shape newBuffer bufferSize).Ok m i none img := by
  cases newBuffer with
  | none => exact h.same hm hl
  | some b =>
  have hcopies := hcopies b rfl
  rw [assignBuffer]
  split
  · exact h.same hm hl
  dsimp only
  split
  · exact h.same hm hl
  next hsize =>
  rw [not_or, not_or, not_lt, not_lt, not_lt] at hsize
  obtain ⟨hpacked, hsize, hlarge⟩ := hsize
  have hsource := (copied_le av hpacked).trans (hlarge.trans hcopies.capacity)
  have hlinesize := toUnsigned_le (ffalign_nonneg (av.linesize _ _ _ hsize))
  split
  next hother =>
    have hkept : _ → Outcome.Ok _ m i none img := fun hfits ↦ h.kept hsize hlinesize hm hfits
    split
    · split
      · exact h.same hm hl
      next hfits =>
      have hfits := not_lt.mp hfits
      rw [(h.reshape _ _ _).copyPlanes_eq hpacked hsize hsource hfits]
      exact hkept hfits
    next hheld =>
    split
    next hsmall =>
      have hreplaced := h.replaced hsize hlinesize hm
      have hown : img.buffer = some b → img.bufferType = .dontFree := by
        intro hb
        by_contra hlent
        have hshape : shape ≠ img.toShape := by
          rw [hb] at hother
          simpa using hother
        have hnot : img.holdBuffer = false := by
          rw [hb] at hheld
          simpa using hheld
        have hfits := hcopies.own hlarge hb hlent hnot hshape
        rw [hb] at hsmall
        simp at hsmall
        omega
      have hblock := h.block_allocImgBuffer hm hcopies.there hown
        (av.getBufferSize shape.pixFormat shape.width shape.height 32).toNat
      have hallocation : (allocImgBuffer m i img _).1.allocation = _ := allocImgBuffer_allocation
        (av.getBufferSize shape.pixFormat shape.width shape.height 32).toNat
      have hfits := hallocation.ge
      have hstored := (allocImgBuffer_leaves hm (.inl h)
        (av.getBufferSize shape.pixFormat shape.width shape.height 32).toNat).stored
      change (copyPlanes av (allocImgBuffer _ i (dumpImgBuffer m i img).1 _).2
        (Image.reshape (allocImgBuffer _ i (dumpImgBuffer m i img).1 _).1 _ _ _) shape b).Ok _ _ _ _
      rw [allocImgBuffer_dumped, (hstored.reshape _ _ _).copyPlanes_eq hpacked hsize _ hfits]
      · exact hreplaced
      · rw [Memory.capacity, hblock]
        exact hsource
    next hlarge =>
      have hfits := not_lt.mp (not_or.mp hlarge).1
      rw [(h.reshape _ _ _).copyPlanes_eq hpacked hsize hsource hfits]
      exact hkept hfits
  next hsame =>
    rw [not_or, not_not] at hsame
    rw [copyPlanes_eq hpacked hsize hsource]
    · exact h.same hm hl
    · apply hcopies.planes hlarge
      · exact isSome_of_not_isNone hsame.1
      · exact hsame.2

end ZoneMinder.Image
