import Mathlib.Data.Set.Card
import Mathlib.Tactic.SplitIfs
import ZoneMinder.Zone.Mask

namespace ZoneMinder.Zone

structure Filtered where
  buff : Buffer
  alarmFilterPixels : ℕ

/-- Whether one of the windows of the size of the filter box is without a black pixel. -/
def Rows.inBlock (z : Rows) (filterBox : Pixel) (buff : Buffer) (p : Pixel) : Bool :=
  let loX := (z.ranges p.2).loX
  let hiX := (z.ranges p.2).hiX
  let bx1 := filterBox.1 - 1
  let by1 := filterBox.2 - 1
  let ldx := if p.1 ≥ loX + bx1 then -bx1 else loX - p.1
  let hdx := if p.1 ≤ hiX - bx1 then 0 else (hiX - p.1) - bx1
  let ldy := if p.2 ≥ z.loY + by1 then -by1 else z.loY - p.2
  let hdy := if p.2 ≤ z.hiY - by1 then 0 else (z.hiY - p.2) - by1
  (upto ldy hdy).any fun dy ↦ (upto ldx hdx).any fun dx ↦
    (upto 0 by1).all fun dy2 ↦ (upto 0 bx1).all fun dx2 ↦
      buff (p.1 + dx + dx2, p.2 + dy + dy2) != kBlack

def Rows.filterPixel (z : Rows) (filterBox : Pixel) (s : Filtered) (p : Pixel) : Filtered :=
  if s.buff p = kWhite then
    if z.inBlock filterBox s.buff p then { s with alarmFilterPixels := s.alarmFilterPixels + 1 }
    else { s with buff := Function.update s.buff p kBlack }
  else s

/-- The stage of the filtered pixels, from the alarmed pixels and their number. -/
def Rows.filterPixels (z : Rows) (filterBox : Pixel) (alarmPixels : ℕ) (buff : Buffer) :
    Filtered :=
  if filterBox.1 > 1 ∨ filterBox.2 > 1 then
    z.pixels.foldl (z.filterPixel filterBox) ⟨buff, 0⟩
  else ⟨buff, alarmPixels⟩

/-- The rectangle of a size that has its first pixel at a corner. -/
def rectangle (size corner : Pixel) : Set Pixel :=
  {q | (corner.1 ≤ q.1 ∧ q.1 < corner.1 + size.1) ∧ corner.2 ≤ q.2 ∧ q.2 < corner.2 + size.2}

/-- The morphological opening of a set of pixels by rectangles of a size. -/
def opening (size : Pixel) (white : Set Pixel) : Set Pixel :=
  {p | ∃ corner, p ∈ rectangle size corner ∧ rectangle size corner ⊆ white}

variable {z : Rows} {m : Mask z} {filterBox p q : Pixel} {buff : Buffer} {s : Filtered}
  {before after : List Pixel} {alarmPixels : ℕ}

theorem mem_rectangle {size corner : Pixel} : q ∈ rectangle size corner ↔
    (corner.1 ≤ q.1 ∧ q.1 < corner.1 + size.1) ∧ corner.2 ≤ q.2 ∧ q.2 < corner.2 + size.2 :=
  Iff.rfl

theorem opening_subset {white : Set Pixel} : opening filterBox white ⊆ white := by
  rintro p ⟨corner, hp, hc⟩
  exact hc hp

/-- The windows that are looked at are all rectangles that fit, as those that contain the pixel and
leave its row's range are not white. -/
theorem inBlock_iff (hlow : ∀ q ∈ opening filterBox (m.white : Set Pixel), buff q ≠ kBlack)
    (hup : ∀ q, buff q ≠ kBlack → q ∈ m.white) :
    z.inBlock filterBox buff p = true ↔ p ∈ opening filterBox (m.white : Set Pixel) := by
  simp only [Rows.inBlock, List.any_eq_true, List.all_eq_true, mem_upto, bne_iff_ne]
  constructor
  · rintro ⟨dy, hdy, dx, hdx, hall⟩
    refine ⟨(p.1 + dx, p.2 + dy), ?_, ?_⟩
    · rw [mem_rectangle]
      split_ifs at hdx hdy <;> omega
    · rintro ⟨qx, qy⟩ hq
      rw [mem_rectangle] at hq
      have h := hall (qy - (p.2 + dy)) (by omega) (qx - (p.1 + dx)) (by omega)
      rw [add_sub_cancel, add_sub_cancel] at h
      exact hup _ h
  · rintro ⟨corner, hp, hc⟩
    have hin : ∀ q, q ∈ rectangle filterBox corner → q ∈ z.pixels := fun q hq ↦ m.inside q (hc hq)
    simp only [mem_rectangle, Rows.mem_pixels] at hp hin
    -- the ends of the rectangle in the row of the pixel and in its column
    have hl := hin (corner.1, p.2) (by omega)
    have hr := hin (corner.1 + (filterBox.1 - 1), p.2) (by omega)
    have ht := hin (p.1, corner.2) (by omega)
    have hb := hin (p.1, corner.2 + (filterBox.2 - 1)) (by omega)
    dsimp only at hl hr ht hb
    refine ⟨corner.2 - p.2, ?_, corner.1 - p.1, ?_, ?_⟩
    · split_ifs <;> omega
    · split_ifs <;> omega
    · intro dy2 hdy2 dx2 hdx2
      rw [add_sub_cancel, add_sub_cancel]
      apply hlow
      refine ⟨corner, ?_, hc⟩
      rw [mem_rectangle]
      omega

open Classical in
/-- Behind the loops only what is not in the opening is erased. -/
structure Opens (m : Mask z) (filterBox : Pixel) (before : List Pixel) (s : Filtered) : Prop where
  buff : ∀ q, s.buff q = if q ∈ m.white ∧ (q ∈ before → q ∈ opening filterBox (m.white : Set Pixel))
    then kWhite else kBlack
  count : s.alarmFilterPixels =
    {q ∈ m.white | q ∈ before ∧ q ∈ opening filterBox (m.white : Set Pixel)}.card

namespace Opens

theorem initial : Opens m filterBox [] ⟨m.buffer, 0⟩ where
  buff q := by simp [Mask.buffer]
  count := by simp

theorem white_iff (h : Opens m filterBox before s) : s.buff q = kWhite ↔
    q ∈ m.white ∧ (q ∈ before → q ∈ opening filterBox (m.white : Set Pixel)) := by
  rw [h.buff]
  split <;> simp_all [kWhite, kBlack]

theorem black_iff (h : Opens m filterBox before s) : s.buff q ≠ kBlack ↔
    q ∈ m.white ∧ (q ∈ before → q ∈ opening filterBox (m.white : Set Pixel)) := by
  rw [h.buff]
  split <;> simp_all [kWhite, kBlack]

theorem inBlock (h : Opens m filterBox before s) :
    z.inBlock filterBox s.buff p = true ↔ p ∈ opening filterBox (m.white : Set Pixel) := by
  apply inBlock_iff
  · intro q hq
    rw [h.black_iff]
    exact ⟨opening_subset hq, fun _ ↦ hq⟩
  · intro q hq
    exact (h.black_iff.mp hq).1

open Classical in
theorem keep (h : Opens m filterBox before s)
    (hp : p ∈ m.white → p ∈ opening filterBox (m.white : Set Pixel)) (q : Pixel) :
    s.buff q = if q ∈ m.white ∧ (q ∈ before ++ [p] → q ∈ opening filterBox (m.white : Set Pixel))
      then kWhite else kBlack := by
  rw [h.buff q]
  by_cases hq : q = p
  · subst q
    by_cases hw : p ∈ m.white
    · simp [hw, hp hw]
    · simp [hw]
  · simp [hq]

open Classical in
theorem skip (h : Opens m filterBox before s)
    (hp : p ∈ m.white → p ∉ opening filterBox (m.white : Set Pixel)) :
    s.alarmFilterPixels =
      {q ∈ m.white | q ∈ before ++ [p] ∧ q ∈ opening filterBox (m.white : Set Pixel)}.card := by
  rw [h.count]
  congr 1
  apply Finset.filter_congr
  intro q hq
  by_cases he : q = p
  · subst q
    simp [hp hq]
  · simp [he]

theorem step (h : Opens m filterBox before s) (hp : p ∉ before) :
    Opens m filterBox (before ++ [p]) (z.filterPixel filterBox s p) := by
  classical
  have hwhite : s.buff p = kWhite ↔ p ∈ m.white := by
    rw [h.white_iff]
    exact and_iff_left fun hb ↦ (hp hb).elim
  simp only [Rows.filterPixel, hwhite, h.inBlock]
  split_ifs with hw ho
  · refine ⟨h.keep fun _ ↦ ho, ?_⟩
    dsimp only
    rw [h.count, ← Finset.card_insert_of_notMem (a := p) (by simp [hp])]
    congr 1
    ext q
    by_cases hq : q = p
    · subst q
      simp [hw, ho]
    · simp [hq]
  · refine ⟨fun q ↦ ?_, h.skip fun _ ↦ ho⟩
    by_cases hq : q = p
    · subst q
      simp [ho]
    · simp [hq, h.buff q]
  · exact ⟨h.keep fun h ↦ (hw h).elim, h.skip fun h ↦ (hw h).elim⟩

theorem run (h : Opens m filterBox before s) (hn : (before ++ after).Nodup) :
    Opens m filterBox (before ++ after) (after.foldl (z.filterPixel filterBox) s) := by
  induction after generalizing before s with
  | nil => simpa using h
  | cons p after ih =>
    have hp : p ∉ before := by
      rw [List.nodup_append] at hn
      intro hb
      exact hn.2.2 p hb p (List.mem_cons_self ..) rfl
    rw [List.append_cons] at hn ⊢
    exact ih (h.step hp) hn

end Opens

/-- The filter stage opens the mask, and counts what is left. -/
theorem filterPixels_opening (m : Mask z) (filterBox : Pixel) (alarmPixels : ℕ)
    (hbox : filterBox.1 > 1 ∨ filterBox.2 > 1) :
    (∀ p, (z.filterPixels filterBox alarmPixels m.buffer).buff p ≠ kBlack ↔
      m.buffer p ≠ kBlack ∧ p ∈ opening filterBox {q | m.buffer q ≠ kBlack}) ∧
    (z.filterPixels filterBox alarmPixels m.buffer).alarmFilterPixels =
      {p | m.buffer p ≠ kBlack ∧ p ∈ opening filterBox {q | m.buffer q ≠ kBlack}}.ncard := by
  classical
  have hset : {q | m.buffer q ≠ kBlack} = (m.white : Set Pixel) := by
    ext q
    simp [Mask.buffer, kWhite, kBlack]
  have hmem : ∀ p, m.buffer p ≠ kBlack ↔ p ∈ m.white := fun p ↦ Set.ext_iff.mp hset p
  have h : Opens m filterBox z.pixels (z.pixels.foldl (z.filterPixel filterBox) ⟨m.buffer, 0⟩) :=
    Opens.initial.run z.nodup_pixels
  rw [Rows.filterPixels, if_pos hbox, hset]
  constructor
  · intro p
    rw [h.black_iff, hmem]
    constructor
    · rintro ⟨hp, ho⟩
      exact ⟨hp, ho (m.inside p hp)⟩
    · rintro ⟨hp, ho⟩
      exact ⟨hp, fun _ ↦ ho⟩
  · rw [h.count, ← Set.ncard_coe_finset]
    congr 1
    ext p
    simp only [Finset.coe_filter, Set.mem_ofPred_eq, hmem]
    constructor
    · rintro ⟨hp, -, ho⟩
      exact ⟨hp, ho⟩
    · rintro ⟨hp, ho⟩
      exact ⟨hp, m.inside p hp, ho⟩

/-- Two rows of two pixels: the square stays, and so does all of the mask. -/
theorem filterPixels_opening_square :
    let z : Rows := ⟨fun _ ↦ ⟨0, 1⟩, 0, 1, Int.le_refl 0⟩
    ∃ m : Mask z, (2, 2).1 > (1 : ℤ) ∧
      (∀ p, (z.filterPixels (2, 2) 4 m.buffer).buff p ≠ kBlack ↔
        m.buffer p ≠ kBlack ∧ p ∈ opening (2, 2) {q | m.buffer q ≠ kBlack}) ∧
      (z.filterPixels (2, 2) 4 m.buffer).alarmFilterPixels = 4 := by
  intro z
  let m : Mask z := ⟨{(0, 0), (1, 0), (0, 1), (1, 1)}, by decide⟩
  exact ⟨m, by decide, (filterPixels_opening m (2, 2) 4 (.inl (by decide))).1, by decide⟩

end ZoneMinder.Zone
