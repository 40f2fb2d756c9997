import ZoneMinder.Image.Lifetime
import Mathlib.Data.List.GetD

namespace ZoneMinder.Image

open Lib

variable {av : Av} {s t : State} {i j b : ℕ} {img image : Image} {given : Option ℕ} {op : Op}

/-- Every image fits the memory that it has, and what is not there has none. -/
structure State.Sound (s : State) : Prop where
  memory : s.memory.Sound
  images : ∀ i img, s.image i = some img → img.Fits s.memory i
  others : ∀ i, s.image i = none → s.memory.Holds i []

/-- What an operation needs, beyond what it checks. -/
def Careful (av : Av) (s : State) : Op → Prop
  | .constructAllocated shape buffer allocation _ =>
    0 ≤ alignedSize av shape ∧ ∀ b ∈ buffer,
      Lent s.memory b (if allocation = 0 then (alignedSize av shape).toNat else allocation) ∧
      (alignedSize av shape).toNat ≤
        if allocation = 0 then (alignedSize av shape).toNat else allocation
  | .construct shape buffer padding =>
    (buffer = none → 0 ≤ alignedSize av shape) ∧ ∀ b ∈ buffer,
      shape.width * shape.colours * shape.height + padding < 2 ^ 32 ∧
      Lent s.memory b (shape.width * shape.colours * shape.height + padding)
  | .constructStrided shape linesize buffer padding =>
    linesize * shape.height + padding < 2 ^ 32 ∧
      ∀ b ∈ buffer, Lent s.memory b (linesize * shape.height + padding)
  | .assignDirect i _ newBuffer bufferSize bufType =>
    ∀ img ∈ s.image i, ∀ b ∈ newBuffer, Lends s.memory img b bufferSize bufType ∧
      (bufType ≠ .dontFree → ∀ o ∈ s.images, ∀ image ∈ o, image.buffer ≠ some b)
  | .assignBuffer i shape newBuffer bufferSize =>
    ∀ img ∈ s.image i, ∀ b ∈ newBuffer, Copies av s.memory img shape b bufferSize
  | .assign i j => ∀ img ∈ s.image i, ∀ image ∈ s.image j, Reaches s.memory img image
  | .blend i j function transparency => ∀ img ∈ s.image i, ∀ image ∈ s.image j,
      img.toShape = image.toShape → 0 < transparency → Blends s.memory img image function
  | _ => True

instance (m : Mem) (b extent : ℕ) : Decidable (Lent m b extent) :=
  decidable_of_iff (m.holder b = .caller ∧ extent ≤ m.capacity (some b))
    ⟨fun ⟨h, h'⟩ ↦ ⟨h, h'⟩, fun ⟨h, h'⟩ ↦ ⟨h, h'⟩⟩

instance (m : Mem) (img : Image) (b bufferSize : ℕ) (bufType : BufType) :
    Decidable (Lends m img b bufferSize bufType) :=
  decidable_of_iff (m.holder b = .caller ∧ bufferSize ≤ m.capacity (some b) ∧
      (bufType ≠ .dontFree → m.kind b = bufType ∧ bufType ≠ .avMalloc ∧ img.buffer ≠ some b))
    ⟨fun ⟨h, h', h''⟩ ↦ ⟨h, h', h''⟩, fun ⟨h, h', h''⟩ ↦ ⟨h, h', h''⟩⟩

instance (m : Mem) (img image : Image) : Decidable (Reaches m img image) :=
  inferInstanceAs (Decidable (_ → _ → _ → _ → _ → _ → _))

instance (m : Mem) (img image : Image) (function : BlendFunction) :
    Decidable (Blends m img image function) :=
  decidable_of_iff
    (function.extent img.size (m.capacity img.buffer) ≤ m.capacity img.buffer ∧
      function.extent img.size (m.capacity image.buffer) ≤ m.capacity image.buffer ∧
      function.extent img.size (secondCapacity m img) ≤ secondCapacity m img ∧
      (img.holdBuffer = false → (img.buffer.isSome → img.bufferType = .zm) ∧
        img.allocation ≤ secondCapacity m img))
    ⟨fun ⟨hown, hsource, hsecond, hswap⟩ ↦ ⟨hown, hsource, hsecond, hswap⟩,
      fun ⟨hown, hsource, hsecond, hswap⟩ ↦ ⟨hown, hsource, hsecond, hswap⟩⟩

instance (av : Av) (m : Mem) (img : Image) (shape : Shape) (b bufferSize : ℕ) :
    Decidable (Copies av m img shape b bufferSize) :=
  decidable_of_iff (m.holder b ≠ .gone ∧ bufferSize ≤ m.capacity (some b) ∧
      ((av.getBufferSize shape.pixFormat shape.width shape.height 1).toNat ≤ bufferSize →
        (img.buffer = some b → img.bufferType ≠ .dontFree → img.holdBuffer = false →
          shape ≠ img.toShape →
          (av.getBufferSize shape.pixFormat shape.width shape.height 32).toNat ≤ img.allocation) ∧
        (img.buffer.isSome → shape = img.toShape → some b ≠ img.buffer →
          av.copied shape.pixFormat shape.width shape.height 32 ≤ m.capacity img.buffer)))
    ⟨fun ⟨h, h', hle⟩ ↦ ⟨h, h', fun hn ↦ (hle hn).1, fun hn ↦ (hle hn).2⟩,
      fun ⟨h, h', hown, hplanes⟩ ↦ ⟨h, h', fun hn ↦ ⟨hown hn, hplanes hn⟩⟩⟩

instance (av : Av) (s : State) : (op : Op) → Decidable (Careful av s op)
  | .constructAllocated .. => by
    dsimp only [Careful]
    infer_instance
  | .construct .. => by
    dsimp only [Careful]
    infer_instance
  | .constructStrided .. => by
    dsimp only [Careful]
    infer_instance
  | .assignDirect .. => by
    dsimp only [Careful]
    infer_instance
  | .assignBuffer .. => by
    dsimp only [Careful]
    infer_instance
  | .assign .. => by
    dsimp only [Careful]
    infer_instance
  | .blend .. => by
    dsimp only [Careful]
    infer_instance
  | .obtain .. | .copyConstruct _ | .destroy _ | .holdBuffer .. | .writeBuffer .. => .isTrue trivial

theorem image_set (o : Option Image) (hi : i < s.images.length) :
    (s.images.set i o).getD j none = if j = i then o else s.image j := by
  rw [State.image, List.getD_eq_getElem?_getD, List.getD_eq_getElem?_getD, List.getElem?_set]
  by_cases hij : i = j
  · rw [if_pos hij, if_pos hij.symm, if_pos hi]
    rfl
  · rw [if_neg hij, if_neg (Ne.symm hij)]

theorem image_lt (h : s.image i = some img) : i < s.images.length := by
  by_contra hge
  rw [State.image, List.getD_eq_default _ _ (not_lt.mp hge)] at h
  cases h

theorem image_same (himg : s.image i = some img) (himage : s.image j = some image) (hij : i = j) :
    img = image := by
  rw [hij, himage] at himg
  exact (Option.some.inj himg).symm

theorem image_leave (r : Outcome) (h : s.image i = some img) :
    (s.leave i r).image j = if j = i then some r.image else s.image j :=
  image_set (some r.image) (image_lt h)

theorem image_number : s.image s.number = none :=
  List.getD_eq_default _ _ le_rfl

theorem image_make (r : Image × Mem) :
    (s.make r).image j = if j = s.number then some r.1 else s.image j := by
  rw [State.image, State.make, State.image, State.number, List.getD_eq_getElem?_getD,
    List.getD_eq_getElem?_getD]
  dsimp only
  rcases lt_trichotomy j s.images.length with hlt | rfl | hgt
  · rw [if_neg hlt.ne, List.getElem?_append_left hlt]
  · rw [if_pos rfl, List.getElem?_concat_length]
    rfl
  · rw [if_neg hgt.ne', List.getElem?_eq_none, List.getElem?_eq_none hgt.le]
    rw [List.length_append]
    exact hgt

/-- The memory of the other images is theirs whatever happens to one of them. -/
theorem Fits.of_keeps {m m' : Mem} (h : img.Fits m j) (hkeeps : Memory.Keeps i given m m')
    (hij : j ≠ i) (hcaller : ∀ b, given = some b → m.holder b = .caller)
    (hother : ∀ b, given = some b → img.buffer ≠ some b) : img.Fits m' j where
  laid := h.laid
  stored := by
    apply h.stored.of_block
    · intro b hb
      apply hkeeps.block
      · exact h.stored.buffer_ne_gone hb
      · by_cases hlent : img.bufferType = .dontFree
        · rw [h.stored.lent hlent b hb]
          exact fun h ↦ by (cases h)
        · rw [h.stored.buffer_owner hlent hb]
          exact fun h ↦ hij (Holder.owner.inj h)
      · exact fun hgiven ↦ hother b hgiven hb
    · intro b hb
      have howner := h.stored.blend_owner hb
      apply hkeeps.block
      · rw [howner]
        exact fun h ↦ by (cases h)
      · rw [howner]
        exact fun h ↦ hij (Holder.owner.inj h)
      · intro hgiven
        rw [hcaller b hgiven] at howner
        cases howner
    · exact h.stored.holds.of_keeps hkeeps hij hcaller

/-- A step that changes one image, and in the memory only what that may change. -/
theorem State.Sound.update (hs : s.Sound) (hm : t.memory.Sound)
    (hkeeps : Memory.Keeps i given s.memory t.memory)
    (hgiven : ∀ b, given = some b → s.memory.holder b = .caller ∧
      ∀ j image, s.image j = some image → image.buffer ≠ some b)
    (hothers : ∀ j, j ≠ i → t.image j = s.image j)
    (himage : ∀ img, t.image i = some img → img.Fits t.memory i)
    (hnone : t.image i = none → t.memory.Holds i []) : t.Sound where
  memory := hm
  images j img hj := by
    by_cases hij : j = i
    · rw [hij] at hj ⊢
      exact himage img hj
    · rw [hothers j hij] at hj
      exact (hs.images j img hj).of_keeps hkeeps hij (fun b hb ↦ (hgiven b hb).1)
        (fun b hb ↦ (hgiven b hb).2 j img hj)
  others j hj := by
    by_cases hij : j = i
    · rw [hij] at hj ⊢
      exact hnone hj
    · rw [hothers j hij] at hj
      exact (hs.others j hj).of_keeps hkeeps hij (fun b hb ↦ (hgiven b hb).1)

/-- A step keeps what is sound, and an error leaves everything as it was. -/
structure Steps (s t : State) : Prop where
  sound : t.Sound
  unchanged : t.error = true → t.memory = s.memory ∧ ∀ i, t.image i = s.image i

theorem State.Sound.leave (hs : s.Sound) {r : Outcome} (h : s.image i = some img)
    (hr : r.Ok s.memory i given img)
    (hgiven : ∀ b, given = some b → s.memory.holder b = .caller ∧
      ∀ j image, s.image j = some image → image.buffer ≠ some b) :
    Steps s (s.leave i r) where
  sound := by
    have hthis : (s.leave i r).image i = some r.image := by
      rw [image_leave r h, if_pos rfl]
    apply hs.update hr.leaves.memory hr.leaves.keeps hgiven
    · intro j hij
      rw [image_leave r h, if_neg hij]
    · intro img' himg'
      rw [hthis] at himg'
      obtain rfl := Option.some.inj himg'
      exact ⟨hr.leaves.stored, hr.laid⟩
    · intro hnone
      rw [hthis] at hnone
      cases hnone
  unchanged herror := by
    obtain ⟨himage, hmemory⟩ := hr.unchanged herror
    refine ⟨hmemory, ?_⟩
    intro j
    rw [image_leave r h]
    split
    next hij => rw [hij, himage, h]
    · rfl

theorem State.Sound.make (hs : s.Sound) {r : Image × Mem} (hr : Made s.memory s.number r) :
    Steps s (s.make r) where
  sound := by
    have hthis : (s.make r).image s.number = some r.1 := by
      rw [image_make, if_pos rfl]
    apply hs.update hr.leaves.memory hr.leaves.keeps (fun _ h ↦ by (cases h))
    · intro j hij
      rw [image_make, if_neg hij]
    · intro img' himg'
      rw [hthis] at himg'
      obtain rfl := Option.some.inj himg'
      exact ⟨hr.leaves.stored, hr.laid⟩
    · intro hnone
      rw [hthis] at hnone
      cases hnone
  unchanged herror := by cases herror

theorem State.Sound.fresh (hs : s.Sound) : s.memory.Holds s.number [] :=
  hs.others s.number image_number

/-- A caller's memory is nobody else's. -/
theorem State.Sound.obtain (hs : s.Sound) (capacity : ℕ) (bufType : BufType) :
    ({ s with memory := s.memory.add ⟨capacity, bufType, .caller⟩, error := false } :
      State).Sound where
  memory := hs.memory.add _
  images j img hj := by
    have h := hs.images j img hj
    have hblock : ∀ b, s.memory.holder b ≠ .gone →
        (s.memory.add ⟨capacity, bufType, .caller⟩).block b = s.memory.block b := by
      intro b hb
      rw [Memory.block_add, if_neg (hs.memory.ne_next hb)]
    refine ⟨h.stored.of_block ?_ ?_ ?_, h.laid⟩
    · exact fun b hb ↦ hblock b (h.stored.buffer_ne_gone hb)
    · intro b hb
      apply hblock
      rw [h.stored.blend_owner hb]
      exact fun h ↦ by (cases h)
    · exact h.stored.holds.add_other hs.memory (fun h ↦ by (cases h))
  others j hj := (hs.others j hj).add_other hs.memory (fun h ↦ by (cases h))

theorem State.Sound.destroy (hs : s.Sound) (h : s.image i = some img) :
    (⟨s.images.set i none, Image.destroy s.memory i img, false⟩ : State).Sound := by
  obtain ⟨hm, hholds, hkeeps⟩ := destroy_frees hs.memory (hs.images i img h).stored
  have himage : ∀ j, (⟨s.images.set i none, Image.destroy s.memory i img, false⟩ : State).image j =
      if j = i then none else s.image j := fun j ↦ image_set none (image_lt h)
  apply hs.update hm hkeeps (fun _ h ↦ by (cases h))
  · intro j hij
    rw [himage, if_neg hij]
  · intro img' himg'
    rw [himage, if_pos rfl] at himg'
    cases himg'
  · exact fun _ ↦ hholds

theorem step_ok (hs : s.Sound) (hop : Careful av s op) (hstep : step av s op = some t) :
    Steps s t := by
  have hm := hs.memory
  cases op with
  | obtain capacity bufType =>
    obtain rfl := Option.some.inj hstep
    exact ⟨hs.obtain capacity bufType, fun h ↦ by (cases h)⟩
  | constructAllocated shape buffer allocation padding =>
    obtain rfl := Option.some.inj hstep
    exact hs.make (constructAllocated_made hop.1 hm hs.fresh hop.2)
  | construct shape buffer padding =>
    obtain rfl := Option.some.inj hstep
    exact hs.make (construct_made hm hs.fresh hop.1 hop.2)
  | constructStrided shape linesize buffer padding =>
    obtain rfl := Option.some.inj hstep
    exact hs.make (constructStrided_made hm hs.fresh hop.1 hop.2)
  | copyConstruct j =>
    obtain ⟨image, himage, heq⟩ := Option.bind_eq_some_iff.mp hstep
    obtain rfl := Option.some.inj heq
    exact hs.make (copyConstruct_made hm hs.fresh (hs.images j image himage))
  | destroy i =>
    obtain ⟨img, himg, heq⟩ := Option.bind_eq_some_iff.mp hstep
    obtain rfl := Option.some.inj heq
    exact ⟨hs.destroy himg, fun h ↦ by (cases h)⟩
  | holdBuffer i tohold =>
    obtain ⟨img, himg, heq⟩ := Option.bind_eq_some_iff.mp hstep
    obtain rfl := Option.some.inj heq
    obtain ⟨⟨hcapacity, hlent, hkind, hblend, hholds⟩, hsize, hrows, hformat⟩ := hs.images i img himg
    refine hs.leave himg ⟨⟨hm, ?_, .refl i none _⟩, ?_, fun h ↦ by (cases h)⟩
      (fun b (h : (none : Option ℕ) = some b) ↦ by (cases h))
    · exact ⟨hcapacity, hlent, hkind, hblend, hholds⟩
    · exact ⟨hsize, hrows, hformat⟩
  | writeBuffer i shape =>
    obtain ⟨img, himg, heq⟩ := Option.bind_eq_some_iff.mp hstep
    obtain rfl := Option.some.inj heq
    have h := hs.images i img himg
    exact hs.leave himg (writeBuffer_ok hm h.stored h.laid) (fun _ h ↦ by (cases h))
  | assignDirect i shape newBuffer bufferSize bufType =>
    obtain ⟨img, himg, heq⟩ := Option.bind_eq_some_iff.mp hstep
    obtain rfl := Option.some.inj heq
    have h := hs.images i img himg
    have hop := hop img himg
    refine hs.leave himg (assignDirect_ok hm h.stored h.laid (fun b hb ↦ (hop b hb).1)) ?_
    intro b hb
    rw [handedOver] at hb
    split at hb
    · cases hb
    next hlent =>
    obtain ⟨hlends, hothers⟩ := hop b hb
    refine ⟨hlends.caller, ?_⟩
    intro j image himage
    have hmem : some image ∈ s.images := by
      rw [State.image, List.getD_eq_getElem _ _ (image_lt himage)] at himage
      rw [← himage]
      exact List.getElem_mem _
    exact hothers hlent (some image) hmem image rfl
  | assignBuffer i shape newBuffer bufferSize =>
    obtain ⟨img, himg, heq⟩ := Option.bind_eq_some_iff.mp hstep
    obtain rfl := Option.some.inj heq
    have h := hs.images i img himg
    exact hs.leave himg (assignBuffer_ok hm h.stored h.laid (hop img himg))
      (fun _ h ↦ by (cases h))
  | assign i j =>
    obtain ⟨img, himg, heq⟩ := Option.bind_eq_some_iff.mp hstep
    obtain ⟨image, himage, heq⟩ := Option.bind_eq_some_iff.mp heq
    obtain rfl := Option.some.inj heq
    exact hs.leave himg (assign_ok hm (hs.images i img himg) (hs.images j image himage)
      (image_same himg himage)
      (hop img himg image himage)) (fun _ h ↦ by (cases h))
  | blend i j function transparency =>
    obtain ⟨img, himg, heq⟩ := Option.bind_eq_some_iff.mp hstep
    obtain ⟨image, himage, heq⟩ := Option.bind_eq_some_iff.mp heq
    obtain rfl := Option.some.inj heq
    exact hs.leave himg (blend_ok hm (hs.images i img himg) (hs.images j image himage)
      (image_same himg himage)
      (hop img himg image himage)) (fun _ h ↦ by (cases h))

theorem empty_sound : State.empty.Sound where
  memory := ⟨rfl, fun _ _ ↦ rfl⟩
  images := fun _ _ h ↦ by (cases h)
  others := fun _ _ ↦ ⟨List.nodup_nil, fun _ ↦ ⟨fun h ↦ by (cases h), fun h ↦ by (cases h)⟩⟩

/-- The bytes of a row of the first plane. -/
def PixelFormat.rowBytes (f : PixelFormat) (width : ℕ) : ℕ :=
  match f with
  | .none => 0
  | .gray8 | .yuv420p | .yuvj420p | .yuv422p | .yuvj422p => width
  | .rgb24 | .bgr24 => 3 * width
  | .rgba | .bgra | .argb | .abgr => 4 * width

/-- The rows of the two planes of colour. -/
def PixelFormat.chromaRows (f : PixelFormat) (height : ℕ) : ℕ :=
  match f with
  | .yuv420p | .yuvj420p => (height + 1) / 2
  | .yuv422p | .yuvj422p => height
  | _ => 0

def alignUp (n align : ℕ) : ℕ := (n + align - 1) / align * align

/-- Planes one after the other, in rows that are aligned. -/
def planeBytes (f : PixelFormat) (width height align : ℕ) : ℕ :=
  alignUp (f.rowBytes width) align * height +
    2 * (alignUp ((width + 1) / 2) align * f.chromaRows height)

/-- How far the rows of the last plane get. -/
def planesExtent (f : PixelFormat) (width height align : ℕ) : ℕ :=
  let luma := alignUp (f.rowBytes width) align
  let chroma := alignUp ((width + 1) / 2) align
  if f.planar then
    min (luma * height + chroma * f.chromaRows height +
      rowsExtent (f.chromaRows height) chroma ((width + 1) / 2)) (planeBytes f width height align)
  else min (rowsExtent height luma (f.rowBytes width)) (planeBytes f width height align)

def imageBytes (f : PixelFormat) (width height align : ℕ) : ℤ :=
  if f = .none ∨ width = 0 ∨ height = 0 ∨ 2 ^ 31 ≤ planeBytes f width height align then -22
  else planeBytes f width height align

theorem imageBytes_lt (f : PixelFormat) (w h a : ℕ) : imageBytes f w h a < 2 ^ 31 := by
  rw [imageBytes]
  split
  · decide
  · omega

theorem imageBytes_of_nonneg {f : PixelFormat} {w h a : ℕ} (hsize : 0 ≤ imageBytes f w h a) :
    f ≠ .none ∧ imageBytes f w h a = planeBytes f w h a := by
  rw [imageBytes] at hsize ⊢
  split at hsize
  · omega
  next hsome =>
  exact ⟨(not_or.mp hsome).1, if_neg hsome⟩

theorem linesize_nonneg (f : PixelFormat) (w h : ℕ) (hsize : 0 ≤ imageBytes f w h 32) :
    0 ≤ if f = .none then (-22 : ℤ) else f.rowBytes w := by
  rw [if_neg (imageBytes_of_nonneg hsize).1]
  exact Int.natCast_nonneg _

theorem linesize_mul_le (f : PixelFormat) (w h : ℕ) (hsize : 0 ≤ imageBytes f w h 32) :
    ffalign (if f = .none then -22 else f.rowBytes w) * h ≤ imageBytes f w h 32 := by
  obtain ⟨hsome, heq⟩ := imageBytes_of_nonneg hsize
  have halign : ffalign (f.rowBytes w) = (alignUp (f.rowBytes w) 32 : ℕ) := by
    rw [ffalign, alignUp]
    omega
  rw [heq, if_neg hsome, halign, ← Int.natCast_mul]
  exact Int.ofNat_le.mpr (Nat.le_add_right _ _)

theorem planesExtent_le (f : PixelFormat) (w h a : ℕ) (hsize : 0 ≤ imageBytes f w h a) :
    planesExtent f w h a ≤ imageBytes f w h a := by
  rw [(imageBytes_of_nonneg hsize).2]
  apply Int.ofNat_le.mpr
  rw [planesExtent]
  split
  · exact min_le_right _ _
  · exact min_le_right _ _

/-- The functions of FFmpeg for the formats that images have. -/
def ffmpeg : Av where
  getBufferSize := imageBytes
  getLinesize f width := if f = .none then -22 else f.rowBytes width
  fillArrays := imageBytes
  copied := planesExtent
  bufferSize_lt := imageBytes_lt
  linesize := linesize_nonneg
  rows := linesize_mul_le
  fill _ _ _ _ hsize := hsize
  copied_le := planesExtent_le

/-- Where every operation is careful, the memory of the images stays sound over the whole run, and
an operation that reports an error leaves everything as it was. -/
theorem storage_sound {ops : List Op} (hrun : Run (step av) (Careful av) State.empty ops s) :
    s.Sound ∧ ∀ op t, Careful av s op → step av s op = some t → t.error = true →
      t.memory = s.memory ∧ ∀ i, t.image i = s.image i := by
  have hs : s.Sound :=
    hrun.invariant (fun _ _ _ hs hop hstep ↦ (step_ok hs hop hstep).sound) empty_sound
  refine ⟨hs, ?_⟩
  intro op t hop hstep
  exact (step_ok hs hop hstep).unchanged

/-- An image over a borrowed buffer is copied from, grows, takes another one and is blended with it
and destroyed; and the other one, held, refuses what is too large for it. -/
theorem storage_sound_blended : ∃ s t, s.Sound ∧ s.image 0 = none ∧
    step ffmpeg s (.writeBuffer 1 ⟨100, 100, 3, 6⟩) = some t ∧ t.error = true ∧
    t.memory = s.memory ∧ ∀ i, t.image i = s.image i := by
  obtain ⟨s, hrun, hs⟩ := Run.exists_of_any (step ffmpeg) (Careful ffmpeg) State.empty
    [.obtain 100 .malloc, .constructStrided ⟨3, 2, 1, 2⟩ 3 (some 0) 0,
      .construct ⟨3, 2, 1, 2⟩ none 0, .assign 1 0, .writeBuffer 1 ⟨6, 2, 3, 6⟩, .assign 0 1,
      .blend 0 1 .sse2Fastblend 5, .destroy 0, .holdBuffer 1 true]
    (fun s ↦ s.image 0 = none ∧
      (step ffmpeg s (.writeBuffer 1 ⟨100, 100, 3, 6⟩)).any (fun t ↦ t.error) = true) (by decide)
  obtain ⟨hgone, hany⟩ := of_decide_eq_true hs
  obtain ⟨t, hstep, herror⟩ := (Option.any_eq_true _ _).mp hany
  obtain ⟨hsound, hunchanged⟩ := storage_sound hrun
  exact ⟨s, t, hsound, hgone, hstep, herror, hunchanged (.writeBuffer 1 _) t trivial hstep herror⟩

/-- Without the care, `Blend` puts a borrowed buffer in the second place, from where it is freed;
after an image has become smaller, `Blend` leaves it an allocation that is not there; it reads and
writes 16 bytes of images of 12; and `Assign` into a packed buffer of the same shape writes beyond
it. -/
theorem storage_unsound :
    (∃ s ops, Run (step ffmpeg) (fun _ _ ↦ True) State.empty ops s ∧
      .freed 0 ∈ s.memory.faults) ∧
    (∃ s ops, Run (step ffmpeg) (fun _ _ ↦ True) State.empty ops s ∧
      ∃ img, s.image 0 = some img ∧ s.memory.capacity img.buffer < img.allocation) ∧
    (∃ s ops, Run (step ffmpeg) (fun _ _ ↦ True) State.empty ops s ∧
      .outside 16 12 ∈ s.memory.faults) ∧
    ∃ s ops, Run (step ffmpeg) (fun _ _ ↦ True) State.empty ops s ∧
      .outside 35 6 ∈ s.memory.faults := by
  refine ⟨?_, ?_, ?_, ?_⟩
  · obtain ⟨s, hrun, hs⟩ := Run.exists_of_any (step ffmpeg) (fun _ _ ↦ True) State.empty
      [.obtain 64 .malloc, .construct ⟨32, 2, 1, 2⟩ (some 0) 0, .construct ⟨32, 2, 1, 2⟩ none 0,
        .blend 0 1 .stdFastblend 5, .destroy 0]
      (fun s ↦ .freed 0 ∈ s.memory.faults) (by decide)
    exact ⟨s, _, hrun, of_decide_eq_true hs⟩
  · obtain ⟨s, hrun, hs⟩ := Run.exists_of_any (step ffmpeg) (fun _ _ ↦ True) State.empty
      [.construct ⟨32, 4, 1, 2⟩ none 0, .writeBuffer 0 ⟨32, 2, 1, 2⟩,
        .construct ⟨32, 2, 1, 2⟩ none 0, .blend 0 1 .stdFastblend 5]
      (fun s ↦ (s.image 0).any fun img ↦ s.memory.capacity img.buffer < img.allocation)
      (by decide)
    obtain ⟨img, himg, hcapacity⟩ := (Option.any_eq_true _ _).mp hs
    exact ⟨s, _, hrun, img, himg, of_decide_eq_true hcapacity⟩
  · obtain ⟨s, hrun, hs⟩ := Run.exists_of_any (step ffmpeg) (fun _ _ ↦ True) State.empty
      [.constructStrided ⟨3, 4, 1, 2⟩ 3 none 0, .constructStrided ⟨3, 4, 1, 2⟩ 3 none 0,
        .blend 0 1 .stdFastblend 5]
      (fun s ↦ .outside 16 12 ∈ s.memory.faults) (by decide)
    exact ⟨s, _, hrun, of_decide_eq_true hs⟩
  · obtain ⟨s, hrun, hs⟩ := Run.exists_of_any (step ffmpeg) (fun _ _ ↦ True) State.empty
      [.obtain 6 .malloc, .construct ⟨3, 2, 1, 2⟩ (some 0) 0, .obtain 6 .malloc,
        .assignBuffer 0 ⟨3, 2, 1, 2⟩ (some 1) 6]
      (fun s ↦ .outside 35 6 ∈ s.memory.faults) (by decide)
    exact ⟨s, _, hrun, of_decide_eq_true hs⟩

end ZoneMinder.Image
