import Mathlib.Algebra.BigOperators.Group.List.Basic
import Mathlib.Algebra.Ring.Int.Defs
import Mathlib.Data.Finset.Card
import Mathlib.Order.Bounds.Basic
import Mathlib.Order.Interval.Finset.Nat
import ZoneMinder.Zone.Mask

namespace ZoneMinder.Zone

structure BlobStats where
  tag : ℕ := 0
  count : ℕ := 0
  loX : ℤ := 0
  hiX : ℤ := 0
  loY : ℤ := 0
  hiY : ℤ := 0
  deriving DecidableEq

/-- What of a zone, of its monitor and of the configuration the blobs depend on. -/
structure Settings where
  minBlobPixels : ℤ
  maxBlobPixels : ℤ
  optSaveJPEGs : ℤ
  recordDiagImages : Bool
  weightedAlarmCentres : Bool

/-- The buffer and the statistics while the blobs are looked for; `stopped` when there is no label
left, and `aborted` when CheckAlarms exits. -/
structure Scan where
  buff : Buffer
  blobs : ℕ → BlobStats := fun _ ↦ {}
  alarmBlobs : ℤ := 0
  alarmBlobPixels : ℤ := 0
  stopped : Bool := false
  aborted : Bool := false

/-- The labels of blobs. -/
def labels : Finset ℕ := Finset.Ico 1 kWhite

def Settings.erases (c : Settings) : Bool := decide (c.optSaveJPEGs > 1) || c.recordDiagImages

/-- Whether a blob of a size is under the minimum or over the maximum, zero being no limit. -/
def Settings.eliminates (c : Settings) (count : ℕ) : Bool :=
  decide (c.minBlobPixels ≠ 0 ∧ count < c.minBlobPixels) ||
    decide (c.maxBlobPixels ≠ 0 ∧ count > c.maxBlobPixels)

def repaintPixel (old new : ℕ) (s : Buffer × ℕ) (p : Pixel) : Buffer × ℕ :=
  if s.1 p = old then (Function.update s.1 p new, s.2 + 1) else s

/-- A loop that gives the pixels of one value another, and counts them. -/
def repaint (old new : ℕ) (buff : Buffer) (pixels : List Pixel) : Buffer × ℕ :=
  pixels.foldl (repaintPixel old new) (buff, 0)

def BlobStats.box (bs : BlobStats) : List Pixel :=
  (upto bs.loY bs.hiY).flatMap fun sy ↦ (upto bs.loX bs.hiX).map fun sx ↦ (sx, sy)

/-- The bounding box, each row of it cut to the range of the row. -/
def Rows.clipped (z : Rows) (bs : BlobStats) : List Pixel :=
  (upto bs.loY bs.hiY).flatMap fun sy ↦
    (upto (max bs.loX (z.ranges sy).loX) (min bs.hiX (z.ranges sy).hiX)).map fun sx ↦ (sx, sy)

namespace Scan

/-- Add to the blob of one of the neighbours. -/
def extend (s : Scan) (t : ℕ) (p : Pixel) : Scan :=
  let bs := s.blobs t
  { s with
    buff := Function.update s.buff p t
    blobs := Function.update s.blobs t
      { bs with count := bs.count + 1, hiX := max bs.hiX p.1, hiY := max bs.hiY p.2 }
    alarmBlobPixels := s.alarmBlobPixels + 1 }

/-- Aggregate two blobs: the slave's pixels become the master's. -/
def mergeInto (z : Rows) (s : Scan) (master slave : ℕ) (p : Pixel) : Scan :=
  let bsm := s.blobs master
  let bss := s.blobs slave
  let r := repaint bss.tag bsm.tag s.buff (z.clipped bss)
  if r.2 = 0 then { s with aborted := true }
  else
    { s with
      buff := Function.update r.1 p bsm.tag
      blobs := Function.update (Function.update s.blobs master
        { bsm with
          count := bsm.count + (bss.count + 1)
          loX := min bsm.loX bss.loX
          hiX := max (max bsm.hiX p.1) bss.hiX
          loY := min bsm.loY bss.loY
          hiY := max (max bsm.hiY p.2) bss.hiY }) slave {}
      alarmBlobs := s.alarmBlobs - 1
      alarmBlobPixels := s.alarmBlobPixels + 1 }

/-- The larger blob is the master, the left one of two as large. -/
def merge (z : Rows) (s : Scan) (lastX lastY : ℕ) (p : Pixel) : Scan :=
  if (s.blobs lastX).count ≥ (s.blobs lastY).count then s.mergeInto z lastX lastY p
  else s.mergeInto z lastY lastX p

def eliminate (c : Settings) (s : Scan) (t : ℕ) : Scan :=
  let bs := s.blobs t
  { s with
    buff := if c.erases then (repaint bs.tag kBlack s.buff bs.box).1 else s.buff
    blobs := Function.update s.blobs t {}
    alarmBlobs := s.alarmBlobs - 1
    alarmBlobPixels := s.alarmBlobPixels - bs.count }

/-- A blob is recycled if it is at least two rows up. -/
def recycle (c : Settings) (s : Scan) (t : ℕ) (p : Pixel) : Scan :=
  let bs := s.blobs t
  if (bs.count ≠ 0 ∧ bs.hiY < p.2 - 1) ∧ c.eliminates bs.count = true then s.eliminate c t else s

/-- The loop for the label of a new blob, from `i` down. -/
def create (c : Settings) (p : Pixel) : ℕ → Scan → Scan
  | 0, s => { s with stopped := true }
  | i + 1, s =>
    let s' := s.recycle c (i + 1) p
    if (s'.blobs (i + 1)).count = 0 then
      { s' with
        buff := Function.update s'.buff p (i + 1)
        blobs := Function.update s'.blobs (i + 1) ⟨i + 1, 1, p.1, p.1, p.2, p.2⟩
        alarmBlobs := s'.alarmBlobs + 1
        alarmBlobPixels := s'.alarmBlobPixels + 1 }
    else create c p i s'

def lastX (z : Rows) (s : Scan) (p : Pixel) : ℕ :=
  if p.1 > 0 ∧ p.1 - 1 ≥ (z.ranges p.2).loX then s.buff (p.1 - 1, p.2) else 0

def lastY (z : Rows) (s : Scan) (p : Pixel) : ℕ :=
  if p.2 > 0 ∧ p.2 - 1 ≥ z.loY ∧ (z.ranges (p.2 - 1)).loX ≤ p.1 ∧ (z.ranges (p.2 - 1)).hiX ≥ p.1
  then s.buff (p.1, p.2 - 1) else 0

def visit (z : Rows) (c : Settings) (s : Scan) (p : Pixel) : Scan :=
  if s.stopped || s.aborted then s
  else if s.buff p = kWhite then
    if s.lastX z p ≠ 0 then
      if s.lastY z p ≠ 0 then
        if s.lastX z p = s.lastY z p then s.extend (s.lastX z p) p
        else s.merge z (s.lastX z p) (s.lastY z p) p
      else s.extend (s.lastX z p) p
    else if s.lastY z p ≠ 0 then s.extend (s.lastY z p) p
    else create c p (kWhite - 1) s
  else s

end Scan

/-- The scan for blobs, over the pixels that the filter has left. -/
def Rows.scanBlobs (z : Rows) (c : Settings) (buff : Buffer) : Scan :=
  z.pixels.foldl (Scan.visit z c) { buff }

structure BlobCheck extends Scan where
  minBlobSize : ℕ := 0
  maxBlobSize : ℕ := 0

/-- Eliminate a blob under the threshold, or have its size counted. -/
def BlobCheck.settle (c : Settings) (s : BlobCheck) (t : ℕ) : BlobCheck :=
  let count := (s.blobs t).count
  if count = 0 then s
  else if c.eliminates count = true then { s with toScan := s.toScan.eliminate c t }
  else
    { s with
      minBlobSize := if s.minBlobSize = 0 ∨ count < s.minBlobSize then count else s.minBlobSize
      maxBlobSize := if s.maxBlobSize = 0 ∨ count > s.maxBlobSize then count else s.maxBlobSize }

/-- The stage of the blobs up to the end of the elimination. -/
def Rows.checkBlobs (z : Rows) (c : Settings) (buff : Buffer) : BlobCheck :=
  let s := z.scanBlobs c buff
  if s.alarmBlobs = 0 then { s with }
  else (List.range' 1 (kWhite - 1)).foldl (BlobCheck.settle c) { s with }

/-- The middle of the alarm as computed for a blob. -/
def Scan.alarmMid (c : Settings) (s : Scan) (t : ℕ) : Pixel :=
  let bs := s.blobs t
  if c.weightedAlarmCentres then
    let tagged := bs.box.filter fun p ↦ s.buff p = bs.tag
    ((tagged.map Prod.fst).sum / bs.count, (tagged.map Prod.snd).sum / bs.count)
  else ((bs.hiX + bs.loX + 1) / 2, (bs.hiY + bs.loY + 1) / 2)

/-- The labels an alarm centre is computed for. -/
def BlobCheck.largest (s : BlobCheck) : Finset ℕ :=
  {t ∈ labels | (s.blobs t).count ≠ 0 ∧ (s.blobs t).count = s.maxBlobSize}

theorem mem_labels {t : ℕ} : t ∈ labels ↔ 1 ≤ t ∧ t < kWhite := Finset.mem_Ico

/-- The pixels that share a side. -/
def Adjacent (p q : Pixel) : Prop :=
  p.2 = q.2 ∧ (p.1 = q.1 + 1 ∨ q.1 = p.1 + 1) ∨ p.1 = q.1 ∧ (p.2 = q.2 + 1 ∨ q.2 = p.2 + 1)

instance : DecidableRel Adjacent := fun _ _ ↦ inferInstanceAs (Decidable (_ ∨ _))

theorem Adjacent.symm {p q : Pixel} (h : Adjacent p q) : Adjacent q p := by
  unfold Adjacent at *
  omega

/-- The statistics of a blob are those of its pixels, and the box is tight around them. -/
structure BlobStats.Of (bs : BlobStats) (t : ℕ) (F : Finset Pixel) : Prop where
  tag : bs.tag = t
  count : bs.count = F.card
  loX : IsLeast (Prod.fst '' (F : Set Pixel)) bs.loX
  hiX : IsGreatest (Prod.fst '' (F : Set Pixel)) bs.hiX
  loY : IsLeast (Prod.snd '' (F : Set Pixel)) bs.loY
  hiY : IsGreatest (Prod.snd '' (F : Set Pixel)) bs.hiY

theorem insert_above {S : Set ℤ} {a b v : ℤ} (h : IsLeast S a) (hb : b ∈ S) (hv : b ≤ v) :
    IsLeast (insert v S) a := by
  refine ⟨.inr h.1, ?_⟩
  rintro w (rfl | hw)
  · exact (h.2 hb).trans hv
  · exact h.2 hw

theorem insert_max {S : Set ℤ} {a : ℤ} (h : IsGreatest S a) (v : ℤ) :
    IsGreatest (insert v S) (max a v) := by
  rw [max_comm]
  exact h.insert v

namespace BlobStats

variable {bs bss : BlobStats} {t t' : ℕ} {F G : Finset Pixel} {p q : Pixel}

theorem mem_box : p ∈ bs.box ↔
    (bs.loY ≤ p.2 ∧ p.2 ≤ bs.hiY) ∧ bs.loX ≤ p.1 ∧ p.1 ≤ bs.hiX := by
  obtain ⟨x, y⟩ := p
  simp only [box, List.mem_flatMap, List.mem_map, mem_upto, Prod.mk.injEq]
  constructor
  · rintro ⟨sy, hy, sx, hx, rfl, rfl⟩
    exact ⟨hy, hx⟩
  · rintro ⟨hy, hx⟩
    exact ⟨y, hy, x, hx, rfl, rfl⟩

namespace Of

theorem mem_box (h : bs.Of t F) (hp : p ∈ F) : p ∈ bs.box := by
  have hx : p.1 ∈ Prod.fst '' (F : Set Pixel) := ⟨p, hp, rfl⟩
  have hy : p.2 ∈ Prod.snd '' (F : Set Pixel) := ⟨p, hp, rfl⟩
  rw [BlobStats.mem_box]
  exact ⟨⟨h.loY.2 hy, h.hiY.2 hy⟩, h.loX.2 hx, h.hiX.2 hx⟩

theorem mem_clipped {z : Rows} (h : bs.Of t F) (hp : p ∈ F) (hz : p ∈ z.pixels) :
    p ∈ z.clipped bs := by
  have hb := BlobStats.mem_box.mp (h.mem_box hp)
  rw [Rows.mem_pixels] at hz
  simp only [Rows.clipped, List.mem_flatMap, List.mem_map, mem_upto]
  exact ⟨p.2, hb.1, p.1, by omega, rfl⟩

theorem single (t : ℕ) (p : Pixel) : BlobStats.Of ⟨t, 1, p.1, p.1, p.2, p.2⟩ t {p} := by
  constructor <;> simp

theorem extended (h : bs.Of t F) (hp : p ∉ F) (hx : ∃ q ∈ F, q.1 ≤ p.1 ∧ q.2 ≤ p.2) :
    BlobStats.Of { bs with count := bs.count + 1, hiX := max bs.hiX p.1, hiY := max bs.hiY p.2 }
      t (insert p F) := by
  obtain ⟨q, hq, hqx, hqy⟩ := hx
  have hset : ∀ f : Pixel → ℤ, f '' ((insert p F : Finset Pixel) : Set Pixel) =
      insert (f p) (f '' (F : Set Pixel)) := fun f ↦ by
    rw [Finset.coe_insert, Set.image_insert_eq]
  refine ⟨h.tag, ?_, ?_, ?_, ?_, ?_⟩
  · rw [Finset.card_insert_of_notMem hp, ← h.count]
  · rw [hset]
    exact insert_above h.loX ⟨q, hq, rfl⟩ hqx
  · rw [hset]
    exact insert_max h.hiX p.1
  · rw [hset]
    exact insert_above h.loY ⟨q, hq, rfl⟩ hqy
  · rw [hset]
    exact insert_max h.hiY p.2

/-- Two blobs and a pixel to the right of the first or below it. -/
theorem aggregated (h : bs.Of t F) (h' : bss.Of t' G) (hp : p ∉ F ∪ G) (hd : Disjoint F G)
    (hx : ∃ q ∈ F, q.1 ≤ p.1 ∧ q.2 ≤ p.2) :
    BlobStats.Of
      { bs with
        count := bs.count + (bss.count + 1)
        loX := min bs.loX bss.loX
        hiX := max (max bs.hiX p.1) bss.hiX
        loY := min bs.loY bss.loY
        hiY := max (max bs.hiY p.2) bss.hiY } t (insert p (F ∪ G)) := by
  rw [Finset.notMem_union] at hp
  have he := h.extended hp.1 hx
  have hset : ∀ f : Pixel → ℤ, f '' ((insert p (F ∪ G) : Finset Pixel) : Set Pixel) =
      f '' ((insert p F : Finset Pixel) : Set Pixel) ∪ f '' (G : Set Pixel) := fun f ↦ by
    rw [← Finset.insert_union, Finset.coe_union, Set.image_union]
  refine ⟨h.tag, ?_, ?_, ?_, ?_, ?_⟩
  · rw [Finset.card_insert_of_notMem (by simpa using hp), Finset.card_union_of_disjoint hd,
      ← h.count, ← h'.count, add_assoc]
  · rw [hset]
    exact he.loX.union h'.loX
  · rw [hset]
    exact he.hiX.union h'.hiX
  · rw [hset]
    exact he.loY.union h'.loY
  · rw [hset]
    exact he.hiY.union h'.hiY

end Of

end BlobStats

section Repaint

variable {old new : ℕ} {buff : Buffer} {l : List Pixel} {n : ℕ} {p : Pixel}

theorem foldl_repaintPixel : (l.foldl (repaintPixel old new) (buff, n)).1 p =
    if p ∈ l ∧ buff p = old then new else buff p := by
  induction l generalizing buff n with
  | nil => simp
  | cons q l ih =>
    rw [List.foldl_cons, repaintPixel]
    split_ifs with hq hp hp
    · rw [ih]
      by_cases he : p = q
      · subst p
        simp
      · simp_all
    · rw [ih]
      have he : p ≠ q := by
        rintro rfl
        exact hp ⟨List.mem_cons_self .., hq⟩
      simp_all
    · rw [ih]
      have he : p ≠ q := by
        rintro rfl
        exact hq hp.2
      simp_all
    · rw [ih]
      simp_all

theorem foldl_repaintPixel_count : (l.foldl (repaintPixel old new) (buff, n)).2 = 0 →
    n = 0 ∧ ∀ p ∈ l, buff p ≠ old := by
  induction l generalizing buff n with
  | nil => simp
  | cons q l ih =>
    rw [List.foldl_cons, repaintPixel]
    split_ifs with hq
    · intro h
      have := (ih h).1
      omega
    · intro h
      obtain ⟨hn, hl⟩ := ih h
      simp_all

theorem repaint_fst : (repaint old new buff l).1 p = if p ∈ l ∧ buff p = old then new else buff p :=
  foldl_repaintPixel

theorem repaint_changes (hp : p ∈ l) (hb : buff p = old) : (repaint old new buff l).2 ≠ 0 :=
  fun h ↦ (foldl_repaintPixel_count h).2 p hp hb

end Repaint

end ZoneMinder.Zone
