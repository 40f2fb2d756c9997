import Mathlib.Algebra.Order.Floor.Ring
import Mathlib.Data.Rat.Floor
import ZoneMinder.Image.DeltaRows

namespace ZoneMinder.Image

open Lib Cells

/-- The statics of `std_fastblend`. -/
structure FastBlend where
  divider : ℕ
  currentBlendpercent : ℚ

def FastBlend.init : FastBlend := ⟨0, 0⟩

def dividerFor (blendpercent : ℚ) : ℕ :=
  if blendpercent < 2.34375 then 6
  else if blendpercent < 4.6875 then 5
  else if blendpercent < 9.375 then 4
  else if blendpercent < 18.75 then 3
  else if blendpercent < 37.5 then 2
  else 1

def FastBlend.call (s : FastBlend) (blendpercent : ℚ) : FastBlend :=
  if s.currentBlendpercent ≠ blendpercent then ⟨dividerFor blendpercent, blendpercent⟩ else s

/-- The shift is that of an `int`, towards minus infinity. -/
def fastBlendByte (divider : ℕ) (a b : UInt8) : UInt8 :=
  UInt8.ofNat (((((b.toNat : ℤ) - a.toNat) >>> divider) + a.toNat).toNat)

/-- The value is cut off to a byte; none where no byte has it. -/
def blendByte (blendpercent : ℚ) (a b : UInt8) : Option UInt8 :=
  let divide := blendpercent / 100
  let opacity := 1 - divide
  let value := a.toNat * opacity + b.toNat * divide
  if -1 < value ∧ value < 256 then some (UInt8.ofNat ⌊value⌋.toNat) else none

/-- Two bytes read and mixed. -/
def mixAt (mix : UInt8 → UInt8 → Option UInt8) (col1 col2 : Plane) (p1 p2 : ℕ) : Option UInt8 := do
  let a ← col1.read p1
  let b ← col2.read p2
  mix a b

/-- `std_fastblend` after the calls there were, or `std_blend`. -/
inductive BlendHelper
  | stdFastblend (earlier : List ℚ)
  | stdBlend

namespace BlendHelper

def mix (blendpercent : ℚ) : BlendHelper → UInt8 → UInt8 → Option UInt8
  | stdFastblend earlier, a, b =>
    some (fastBlendByte ((earlier.foldl FastBlend.call .init).call blendpercent).divider a b)
  | stdBlend, a, b => blendByte blendpercent a b

/-- How many bytes a round of the loop does. -/
def round : BlendHelper → ℕ
  | stdFastblend _ => 16
  | stdBlend => 1

theorem round_pos : (f : BlendHelper) → 0 < f.round
  | stdFastblend _ => Nat.succ_pos 15
  | stdBlend => Nat.one_pos

def run (f : BlendHelper) (col1 col2 result : Plane) (count : ℕ) (blendpercent : ℚ) :
    Option Plane :=
  unrolled (mixAt (f.mix blendpercent) col1 col2) 1 f.round f.round_pos count 0 0 0 result

end BlendHelper

/-- What Blend reads of an image. Behind its rows are the padding, or more planes. -/
structure Blended where
  width : ℕ
  linesize : ℕ
  height : ℕ
  colours : ℕ
  subpixelorder : ℕ
  behind : ℕ
  buffer : Plane
  row_le : width * colours ≤ linesize

namespace Blended

def size (a : Blended) : ℕ := a.linesize * a.height + a.behind

/-- The image with such bytes in its rows, and none that may be read behind them. -/
def holding (a : Blended) (content : ℕ → UInt8) : Blended :=
  { a with buffer := ⟨content, a.linesize * a.height⟩ }

def SameShape (a b : Blended) : Prop :=
  a.width = b.width ∧ a.height = b.height ∧ a.colours = b.colours ∧
    a.subpixelorder = b.subpixelorder

instance (a b : Blended) : Decidable (a.SameShape b) := inferInstanceAs (Decidable (_ ∧ _))

/-- The new buffer and the new blend buffer. -/
def blend (f : BlendHelper) (holdbuffer : Bool) (blendBuffer : Plane) (this image : Blended)
    (transparency : ℤ) : Option (Plane × Plane) :=
  if ¬ this.SameShape image then some (this.buffer, blendBuffer)
  else if transparency ≤ 0 then some (this.buffer, blendBuffer)
  else
    let blendBuffer : Plane :=
      if blendBuffer.size < this.size then ⟨fun _ ↦ 0, this.size⟩ else blendBuffer
    (f.run this.buffer image.buffer blendBuffer this.size transparency).bind fun blendBuffer ↦
      if holdbuffer then
        (this.buffer.fill 0 this.size blendBuffer.read).map fun buffer ↦ (buffer, blendBuffer)
      else some (blendBuffer, this.buffer)

/-- Nothing is mixed of what is not transparent. -/
def formula (f : BlendHelper) (transparency : ℤ) (a b : UInt8) : Option UInt8 :=
  if transparency ≤ 0 then some a else f.mix transparency a b

/-- Every byte of a pixel is mixed with that byte of the pixel at the same place, and nothing
behind the rows is read. -/
def Mixes (f : BlendHelper) (holdbuffer : Bool) (blendBuffer : Plane) (transparency : ℤ)
    (this image : Blended) : Prop :=
  ∀ old new : ℕ → UInt8, ∃ buffer blendBuffer',
    (this.holding old).blend f holdbuffer blendBuffer (image.holding new) transparency =
      some (buffer, blendBuffer') ∧
    ∀ y < this.height, ∀ x < this.width, ∀ k < this.colours,
      formula f transparency (old (y * this.linesize + (x * this.colours + k)))
        (new (y * image.linesize + (x * image.colours + k))) =
      some (buffer.content (y * this.linesize + (x * this.colours + k)))

end Blended

section Loops

variable {pixel : ℕ → ℕ → Option UInt8} {stride n maxPtr p1 p2 result k : ℕ} {dst d : Plane}
  {a b : UInt8} {t : ℤ}

/-- What the loop went over had been computed, to the end of the last round. -/
theorem of_unrolled {hn : 0 < n} (h : unrolled pixel stride n hn maxPtr p1 p2 result dst = some d)
    (hk : result + k / n * n < maxPtr) : (pixel (p1 + k * stride) (p2 + k * stride)).isSome := by
  induction hm : k / n generalizing p1 p2 result dst k with
  | zero =>
    have hlt : k < n := by simpa [Nat.div_eq_zero_iff, hn.ne'] using hm
    rw [unrolled, if_pos (by omega)] at h
    obtain ⟨d', hd', -⟩ := Option.bind_eq_some_iff.mp h
    exact of_fill hd' k hlt
  | succ m ih =>
    have hle : n ≤ k := by
      by_contra hlt
      rw [Nat.div_eq_of_lt (not_le.mp hlt)] at hm
      exact absurd hm (Nat.succ_ne_zero m).symm
    have hdiv : (k - n) / n = m := by
      have hsucc := Nat.add_div_left (k - n) hn
      rw [Nat.add_sub_cancel' hle, hm] at hsucc
      exact (Nat.succ.inj hsucc).symm
    rw [hm, Nat.succ_mul] at hk
    rw [unrolled, if_pos (by omega)] at h
    obtain ⟨d', -, hrest⟩ := Option.bind_eq_some_iff.mp h
    have hpixel := ih hrest (by rw [hdiv]; omega) hdiv
    have hsum (p : ℕ) : p + n * stride + (k - n) * stride = p + k * stride := by
      rw [Nat.add_assoc, ← Nat.add_mul, Nat.add_sub_cancel' hle]
    rwa [hsum, hsum] at hpixel

theorem mixAt_eq {mix : UInt8 → UInt8 → Option UInt8} {col1 col2 : Plane} (h1 : p1 < col1.size)
    (h2 : p2 < col2.size) : mixAt mix col1 col2 p1 p2 = mix (col1.content p1) (col2.content p2) := by
  simp [mixAt, read_of_lt h1, read_of_lt h2]

theorem of_mixAt {mix : UInt8 → UInt8 → Option UInt8} {col1 col2 : Plane}
    (h : (mixAt mix col1 col2 p1 p2).isSome) : p1 < col1.size ∧ p2 < col2.size := by
  obtain ⟨c, hc⟩ := Option.isSome_iff_exists.mp h
  obtain ⟨a, ha, hc⟩ := Option.bind_eq_some_iff.mp hc
  obtain ⟨b, hb, -⟩ := Option.bind_eq_some_iff.mp hc
  exact ⟨(Option.ite_none_right_eq_some.mp ha).1, (Option.ite_none_right_eq_some.mp hb).1⟩

/-- The statics are right for a percentage that is not zero, whatever came before. -/
theorem divider_call (earlier : List ℚ) (ht : 0 < t) :
    ((earlier.foldl FastBlend.call .init).call t).divider = dividerFor t := by
  have hinv : ∀ s : FastBlend, (s.currentBlendpercent = 0 ∨ s.divider = dividerFor
      s.currentBlendpercent) → ((earlier.foldl FastBlend.call s).currentBlendpercent = 0 ∨
      (earlier.foldl FastBlend.call s).divider =
        dividerFor (earlier.foldl FastBlend.call s).currentBlendpercent) := by
    induction earlier with
    | nil => exact fun s hs ↦ hs
    | cons p earlier ih =>
      intro s hs
      refine ih _ ?_
      rw [FastBlend.call]
      split_ifs
      · exact .inr rfl
      · exact hs
  have hs := hinv .init (.inl rfl)
  rw [FastBlend.call]
  split_ifs with heq
  · rfl
  · rw [not_not.mp heq] at hs
    exact hs.resolve_left (Int.cast_ne_zero.mpr ht.ne')

theorem dividerFor_le (p : ℚ) : 1 ≤ dividerFor p ∧ dividerFor p ≤ 6 := by
  rw [dividerFor]
  split_ifs <;> decide

theorem blendByte_isSome (ht : 0 < t) (hle : t ≤ 100) (a b : UInt8) : (blendByte t a b).isSome := by
  have ha : (a.toNat : ℚ) ≤ 255 := by exact_mod_cast Nat.le_of_lt_succ a.toNat_lt
  have hb : (b.toNat : ℚ) ≤ 255 := by exact_mod_cast Nat.le_of_lt_succ b.toNat_lt
  have hpos : (0 : ℚ) < t / 100 := by positivity
  have hone : (t : ℚ) / 100 ≤ 1 := by
    rw [div_le_one (by norm_num)]
    exact_mod_cast hle
  have hopacity : 0 ≤ 1 - (t : ℚ) / 100 := sub_nonneg.mpr hone
  have hlow : 0 ≤ (a.toNat : ℚ) * (1 - t / 100) + b.toNat * (t / 100) := by positivity
  have hhigh : (a.toNat : ℚ) * (1 - t / 100) + b.toNat * (t / 100) ≤ 255 := by
    calc (a.toNat : ℚ) * (1 - t / 100) + b.toNat * (t / 100)
        ≤ 255 * (1 - t / 100) + 255 * (t / 100) :=
          add_le_add (mul_le_mul_of_nonneg_right ha hopacity) (mul_le_mul_of_nonneg_right hb hpos.le)
      _ = 255 := by ring
  rw [blendByte, if_pos ⟨by linarith only [hlow], by linarith only [hhigh]⟩]
  rfl

theorem blendByte_eq_none (ht : 100 < t) : blendByte t 255 0 = none := by
  have hgt : (101 : ℚ) ≤ t := by exact_mod_cast ht
  have hwhite : ((255 : UInt8).toNat : ℚ) = 255 := rfl
  have hblack : ((0 : UInt8).toNat : ℚ) = 0 := rfl
  rw [blendByte]
  refine if_neg fun h ↦ ?_
  have hlow := h.1
  rw [hwhite, hblack] at hlow
  linarith only [hlow, hgt]

theorem fastBlendByte_zero {divider : ℕ} (h : 1 ≤ divider ∧ divider ≤ 6) :
    fastBlendByte divider 0 255 ≠ fastBlendByte divider 0 0 := by
  have hall : ∀ d < 7, 1 ≤ d → fastBlendByte d 0 255 ≠ fastBlendByte d 0 0 := by decide
  exact hall divider (by omega) h.1

theorem blendByte_zero (ht : 0 < t) (hle : t ≤ 100) : blendByte t 0 255 ≠ blendByte t 0 0 := by
  have hwhite : ((255 : UInt8).toNat : ℚ) = 255 := rfl
  have hblack : ((0 : UInt8).toNat : ℚ) = 0 := rfl
  have hone : (1 : ℚ) ≤ t := by exact_mod_cast ht
  have hhundred : (t : ℚ) ≤ 100 := by exact_mod_cast hle
  have hnone : blendByte t 0 0 = some 0 := by
    simp only [blendByte, hblack, zero_mul, add_zero]
    rw [if_pos (by norm_num), Int.floor_zero]
    rfl
  have hsome : blendByte t 0 255 = some (UInt8.ofNat ⌊(255 : ℚ) * (t / 100)⌋.toNat) := by
    simp only [blendByte, hblack, hwhite, zero_mul, zero_add]
    refine if_pos ⟨?_, ?_⟩
    · linarith only [hone]
    · linarith only [hhundred]
  have hlow : 2 ≤ ⌊(255 : ℚ) * (t / 100)⌋ := by
    refine Int.le_floor.mpr ?_
    push_cast
    linarith only [hone]
  have hhigh : ⌊(255 : ℚ) * (t / 100)⌋ < 256 := by
    refine Int.floor_lt.mpr ?_
    push_cast
    linarith only [hhundred]
  rw [hnone, hsome]
  intro heq
  have hnat := congrArg UInt8.toNat (Option.some.inj heq)
  rw [UInt8.toNat_ofNat'] at hnat
  change _ = 0 at hnat
  omega

end Loops

section Run

variable {f : BlendHelper} {a b blendBuffer : Plane} {old new : ℕ → UInt8} {size count : ℕ} {t : ℤ}

theorem BlendHelper.mix_isSome (ht : 0 < t) (hle : f = .stdBlend → t ≤ 100) (x y : UInt8) :
    (f.mix t x y).isSome := by
  cases f with
  | stdFastblend earlier => rfl
  | stdBlend => exact blendByte_isSome ht (hle rfl) x y

theorem BlendHelper.mix_zero (ht : 0 < t) (hle : f = .stdBlend → t ≤ 100) :
    f.mix t 0 255 ≠ f.mix t 0 0 := by
  cases f with
  | stdFastblend earlier =>
    intro heq
    rw [mix, mix, divider_call earlier ht] at heq
    exact fastBlendByte_zero (dividerFor_le t) (Option.some.inj heq)
  | stdBlend => exact blendByte_zero ht (hle rfl)

/-- The bytes that the loop goes over. -/
def BlendHelper.touched (f : BlendHelper) (count : ℕ) : ℕ :=
  (count + f.round - 1) / f.round * f.round

theorem BlendHelper.le_touched (f : BlendHelper) (count : ℕ) :
    count ≤ f.touched count ∧ f.touched count < count + f.round := by
  cases f <;> simp only [touched, round] <;> omega

theorem BlendHelper.run_eq (ha : f.touched count ≤ a.size) (hb : f.touched count ≤ b.size)
    (hsize : f.touched count ≤ blendBuffer.size)
    (hmix : ∀ k < f.touched count, (f.mix t (a.content k) (b.content k)).isSome) :
    f.run a b blendBuffer count t = some (blendBuffer.overwrite 0 (f.touched count) fun k ↦
      (f.mix t (a.content k) (b.content k)).getD 0) := by
  obtain ⟨hle, hlt⟩ := f.le_touched count
  refine unrolled_eq (fun k hk ↦ ?_) ?_ ?_ ?_
  · have hk' : k < f.touched count := hk
    simp only [Nat.mul_one, Nat.zero_add]
    rw [mixAt_eq (by omega) (by omega)]
    obtain ⟨c, hc⟩ := Option.isSome_iff_exists.mp (hmix k hk')
    rw [hc, Option.getD_some]
  · rw [Nat.zero_add]
    exact hle
  · rw [Nat.zero_add]
    exact hlt
  · rw [Nat.zero_add]
    exact hsize

theorem BlendHelper.of_run {d : Plane} (h : f.run a b blendBuffer count t = some d) :
    f.touched count ≤ a.size ∧ f.touched count ≤ b.size ∧
      ∀ k < count, (f.mix t (a.content k) (b.content k)).isSome := by
  have hpixel {k : ℕ} (hk : k / f.round * f.round < count) :
      (mixAt (f.mix t) a b k k).isSome := by
    have hpixel := of_unrolled h (k := k) (by rw [Nat.zero_add]; exact hk)
    simpa only [Nat.mul_one, Nat.zero_add] using hpixel
  have hround {k : ℕ} (hk : k < f.touched count) : k / f.round * f.round < count := by
    cases f <;> simp only [touched, round] at hk ⊢ <;> omega
  refine ⟨?_, ?_, fun k hk ↦ ?_⟩
  · by_contra hlt
    exact absurd (of_mixAt (hpixel (hround (not_le.mp hlt)))).1 (lt_irrefl _)
  · by_contra hlt
    exact absurd (of_mixAt (hpixel (hround (not_le.mp hlt)))).2 (lt_irrefl _)
  · have hmix := hpixel (hround (hk.trans_le (f.le_touched count).1))
    obtain ⟨ha, hb⟩ := of_mixAt hmix
    rwa [mixAt_eq ha hb] at hmix

end Run

namespace Blended

variable {f : BlendHelper} {holdbuffer : Bool} {blendBuffer : Plane} {this image : Blended}
  {old new : ℕ → UInt8} {t : ℤ}

/-- What Blend makes of two images that the loop stays within: byte by byte, in the order of the
bytes. -/
theorem exists_blend
    (hsame : this.SameShape image) (ht : 0 < t)
    (hthis : f.touched this.size ≤ this.linesize * this.height)
    (himage : f.touched this.size ≤ image.linesize * image.height)
    (hmix : ∀ k < this.size, (f.mix t (old k) (new k)).isSome) :
    ∃ buffer blendBuffer', (this.holding old).blend f holdbuffer blendBuffer (image.holding new) t =
      some (buffer, blendBuffer') ∧
      ∀ i < this.size, f.mix t (old i) (new i) = some (buffer.content i) := by
  have htouched : f.touched this.size = this.size :=
    le_antisymm (hthis.trans (Nat.le_add_right _ _)) (f.le_touched _).1
  obtain ⟨result, hresult⟩ : ∃ result : Plane, (if blendBuffer.size < this.size then
    (⟨fun _ ↦ 0, this.size⟩ : Plane) else blendBuffer) = result := ⟨_, rfl⟩
  have hsize : this.size ≤ result.size := by
    rw [← hresult]
    split_ifs with hlt
    · exact le_rfl
    · exact not_lt.mp hlt
  have hrun := @BlendHelper.run_eq f ⟨old, this.linesize * this.height⟩
    ⟨new, image.linesize * image.height⟩ result this.size t hthis himage (by rwa [htouched])
    (by rwa [htouched])
  rw [htouched] at hrun
  have hcontent (i : ℕ) (hi : i < this.size) : f.mix t (old i) (new i) =
      some ((result.overwrite 0 this.size fun k ↦ (f.mix t (old k) (new k)).getD 0).content i) := by
    obtain ⟨c, hc⟩ := Option.isSome_iff_exists.mp (hmix i hi)
    rw [overwrite_content, if_pos ⟨Nat.zero_le i, by rwa [Nat.zero_add]⟩, Nat.sub_zero, hc]
    rfl
  have hsame' : (this.holding old).SameShape (image.holding new) := hsame
  rw [blend, if_neg (not_not.mpr hsame'), if_neg (not_le.mpr ht)]
  simp only [show (this.holding old).size = this.size from rfl, hresult]
  rw [show f.run (this.holding old).buffer (image.holding new).buffer result this.size t = _ from hrun,
    Option.bind_some]
  cases holdbuffer with
  | false => exact ⟨_, _, rfl, hcontent⟩
  | true =>
    have hfill := @fill_eq _ (this.holding old).buffer 0 this.size
      (result.overwrite 0 this.size fun k ↦ (f.mix t (old k) (new k)).getD 0).read
      (result.overwrite 0 this.size fun k ↦ (f.mix t (old k) (new k)).getD 0).content
      (fun k hk ↦ read_of_lt (hk.trans_le hsize)) (by
        rw [Nat.zero_add, ← htouched]
        exact hthis)
    rw [if_pos rfl, hfill]
    refine ⟨_, _, rfl, fun i hi ↦ ?_⟩
    rw [overwrite_content, if_pos ⟨Nat.zero_le i, by rwa [Nat.zero_add]⟩, Nat.sub_zero]
    exact hcontent i hi

theorem of_blend {r : Plane × Plane} (hsame : this.SameShape image) (ht : 0 < t)
    (h : (this.holding old).blend f holdbuffer blendBuffer (image.holding new) t = some r) :
    f.touched this.size ≤ this.linesize * this.height ∧
      f.touched this.size ≤ image.linesize * image.height ∧
      ∀ k < this.size, (f.mix t (old k) (new k)).isSome := by
  have hsame' : (this.holding old).SameShape (image.holding new) := hsame
  rw [blend, if_neg (not_not.mpr hsame'), if_neg (not_le.mpr ht)] at h
  obtain ⟨d, hrun, -⟩ := Option.bind_eq_some_iff.mp h
  exact BlendHelper.of_run hrun

/-- A byte of a row is one of the rows' bytes. -/
theorem index_lt {x y k : ℕ} (hy : y < this.height) (hx : x < this.width) (hk : k < this.colours) :
    y * this.linesize + (x * this.colours + k) < this.linesize * this.height := by
  have hrow := this.row_le
  rw [Nat.mul_comm] at hrow
  exact row_lt hy ((row_lt hx hk).trans_le hrow)

/-- What was mixed has its bytes in the images, and the table has no entry beyond 100. -/
theorem Mixes.inside (hsame : this.SameShape image) (ht : 0 < t)
    (h : Mixes f holdbuffer blendBuffer t this image) :
    (f.touched this.size ≤ this.linesize * this.height ∧
      f.touched this.size ≤ image.linesize * image.height) ∧
        (f = .stdBlend → t ≤ 100 ∨ this.size = 0) := by
  obtain ⟨buffer, blendBuffer', hblend, -⟩ := h (fun _ ↦ 0) (fun _ ↦ 0)
  obtain ⟨hthis, himage, -⟩ := of_blend hsame ht hblend
  refine ⟨⟨hthis, himage⟩, ?_⟩
  rintro rfl
  by_contra hnot
  obtain ⟨hgt, hsize⟩ := not_or.mp hnot
  obtain ⟨buffer, blendBuffer', hblend, -⟩ := h (fun _ ↦ 255) (fun _ ↦ 0)
  have hmix := (of_blend hsame ht hblend).2.2 0 (Nat.pos_of_ne_zero hsize)
  rw [BlendHelper.mix, blendByte_eq_none (not_le.mp hgt)] at hmix
  cases hmix

theorem Mixes.rows (hsame : this.SameShape image) (ht : 0 < t)
    (h : Mixes f holdbuffer blendBuffer t this image) :
    this.linesize = image.linesize ∨ this.height ≤ 1 ∨ this.width * this.colours = 0 := by
  obtain ⟨⟨hthis, himage⟩, hle⟩ := h.inside hsame ht
  by_contra hnot
  simp only [not_or, not_le] at hnot
  obtain ⟨hlinesize, hheight, hrow⟩ := hnot
  obtain ⟨hwidth, hcolours⟩ := Nat.mul_ne_zero_iff.mp hrow
  have hindex := index_lt hheight (Nat.pos_of_ne_zero hwidth) (Nat.pos_of_ne_zero hcolours)
  rw [Nat.one_mul, Nat.zero_mul, Nat.add_zero] at hindex
  have hlt : this.linesize < this.size := hindex.trans_le (Nat.le_add_right _ _)
  have hle' : f = .stdBlend → t ≤ 100 := fun hf ↦ (hle hf).resolve_right (by omega)
  -- the first byte of the second row of the image is the only one that is not 0
  obtain ⟨buffer, _, hblend, hmixed⟩ :=
    h (fun _ ↦ 0) (fun i ↦ if i = image.linesize then 255 else 0)
  obtain ⟨buffer', _, hblend', hbyte⟩ := @exists_blend f holdbuffer blendBuffer this image
    (fun _ ↦ 0) (fun i ↦ if i = image.linesize then 255 else 0) t hsame ht hthis himage
    fun k _ ↦ f.mix_isSome ht hle' _ _
  obtain ⟨rfl, -⟩ := Prod.mk.inj (Option.some.inj (hblend.symm.trans hblend'))
  have hsecond := hmixed 1 hheight 0 (Nat.pos_of_ne_zero hwidth) 0 (Nat.pos_of_ne_zero hcolours)
  have hfirst := hbyte this.linesize hlt
  simp only [Nat.one_mul, Nat.zero_mul, Nat.add_zero, if_true, formula, if_neg (not_le.mpr ht)]
    at hsecond
  simp only [if_neg hlinesize] at hfirst
  exact f.mix_zero ht hle' (hsecond.trans hfirst.symm)

theorem mixes_of_not_pos (hsame : this.SameShape image) (ht : t ≤ 0) :
    Mixes f holdbuffer blendBuffer t this image := by
  intro old new
  have hsame' : (this.holding old).SameShape (image.holding new) := hsame
  refine ⟨_, _, by rw [blend, if_neg (not_not.mpr hsame'), if_pos ht], fun y _ x _ k _ ↦ ?_⟩
  rw [formula, if_pos ht]
  rfl

theorem mixes_of_rows (hsame : this.SameShape image) (ht : 0 < t)
    (hthis : f.touched this.size ≤ this.linesize * this.height)
    (himage : f.touched this.size ≤ image.linesize * image.height)
    (hrows : this.linesize = image.linesize ∨ this.height ≤ 1 ∨ this.width * this.colours = 0)
    (hle : f = .stdBlend → t ≤ 100 ∨ this.size = 0) :
    Mixes f holdbuffer blendBuffer t this image := by
  intro old new
  have hmix : ∀ k < this.size, (f.mix t (old k) (new k)).isSome := fun k hk ↦
    f.mix_isSome ht (fun hf ↦ (hle hf).resolve_right (by omega)) _ _
  obtain ⟨buffer, blendBuffer', hblend, hbyte⟩ := @exists_blend f holdbuffer blendBuffer this
    image old new t hsame ht hthis himage hmix
  refine ⟨buffer, blendBuffer', hblend, fun y hy x hx k hk ↦ ?_⟩
  have hlt := (index_lt hy hx hk).trans_le (Nat.le_add_right _ this.behind)
  have hplace : y * image.linesize + (x * image.colours + k) =
      y * this.linesize + (x * this.colours + k) := by
    rw [← hsame.2.2.1]
    rcases hrows with hlinesize | hheight | hempty
    · rw [hlinesize]
    · obtain rfl : y = 0 := by omega
      rw [Nat.zero_mul, Nat.zero_mul]
    · rcases Nat.mul_eq_zero.mp hempty with hzero | hzero <;> omega
  rw [formula, if_neg (not_le.mpr ht), hplace]
  exact hbyte _ hlt

/-- Blend mixes the pixels at the same places exactly if no byte behind the rows is touched and the
rows of the two images begin at the same places. -/
theorem mixes_iff (hsame : this.SameShape image) :
    Mixes f holdbuffer blendBuffer t this image ↔
      t ≤ 0 ∨ f.touched this.size ≤ this.linesize * this.height ∧
        f.touched this.size ≤ image.linesize * image.height ∧
        (this.linesize = image.linesize ∨ this.height ≤ 1 ∨ this.width * this.colours = 0) ∧
        (f = .stdBlend → t ≤ 100 ∨ this.size = 0) := by
  by_cases ht : t ≤ 0
  · exact iff_of_true (mixes_of_not_pos hsame ht) (.inl ht)
  · rw [or_iff_right ht]
    replace ht := not_le.mp ht
    constructor
    · intro h
      obtain ⟨⟨hthis, himage⟩, hle⟩ := h.inside hsame ht
      exact ⟨hthis, himage, h.rows hsame ht, hle⟩
    · rintro ⟨hthis, himage, hrows, hle⟩
      exact mixes_of_rows hsame ht hthis himage hrows hle

/-- Two rows of gray pixels, with a row of so many bytes. -/
def grayRows (width linesize : ℕ) (h : width ≤ linesize) : Blended where
  width := width
  linesize := linesize
  height := 2
  colours := 1
  subpixelorder := 2
  behind := 0
  buffer := ⟨fun _ ↦ 0, linesize * 2⟩
  row_le := by rwa [Nat.mul_one]

theorem mixes_iff_rows : Mixes (.stdFastblend []) false ⟨fun _ ↦ 0, 0⟩ 50
    (grayRows 20 32 (by decide)) (grayRows 20 32 (by decide)) :=
  (mixes_iff ⟨rfl, rfl, rfl, rfl⟩).mpr (.inr ⟨by decide, by decide, .inl rfl, by simp⟩)

/-- Rows of 32 bytes, and of 64 in the plane of a decoder. -/
theorem not_mixes_rows : ¬ Mixes (.stdFastblend []) false ⟨fun _ ↦ 0, 0⟩ 50
    (grayRows 20 32 (by decide)) (grayRows 20 64 (by decide)) := by
  intro h
  obtain ⟨buffer, _, hblend, hmixed⟩ := h (fun _ ↦ 0) (fun i ↦ if i = 64 then 255 else 0)
  obtain ⟨buffer', _, hblend', hbyte⟩ := @exists_blend (.stdFastblend []) false ⟨fun _ ↦ 0, 0⟩
    (grayRows 20 32 (by decide)) (grayRows 20 64 (by decide)) (fun _ ↦ 0)
    (fun i ↦ if i = 64 then 255 else 0) 50 ⟨rfl, rfl, rfl, rfl⟩ (by decide) (by decide) (by decide)
    fun _ _ ↦ rfl
  obtain ⟨rfl, -⟩ := Prod.mk.inj (Option.some.inj (hblend.symm.trans hblend'))
  have hsecond := hmixed 1 (by decide) 0 (by decide) 0 (by decide)
  have hfirst := hbyte 32 (by decide)
  have hzero := @BlendHelper.mix_zero (.stdFastblend []) 50 (by decide) (by simp)
  exact hzero (hsecond.trans hfirst.symm)

end Blended

end ZoneMinder.Image
