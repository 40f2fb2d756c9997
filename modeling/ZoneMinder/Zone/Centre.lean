import Mathlib.Algebra.BigOperators.Group.Finset.Basic
import Mathlib.Algebra.Order.BigOperators.Group.Finset
import ZoneMinder.Zone.Components

namespace ZoneMinder.Zone

open Lib

/-- The integer mean of some pixels. -/
def mean (F : Finset Pixel) : Pixel := ((∑ p ∈ F, p.1) / F.card, (∑ p ∈ F, p.2) / F.card)

/-- The pixels in the box of a blob that carry its label without being of it. -/
def Scan.strays (s : Scan) (t : ℕ) (F : Finset Pixel) : Finset Pixel :=
  {p ∈ (s.blobs t).box.toFinset | s.buff p = (s.blobs t).tag ∧ p ∉ F}

/-- What the divisions leave has room for the strays, so that the mean is still that of `F`. -/
def Scan.Unmoved (s : Scan) (t : ℕ) (F : Finset Pixel) : Prop :=
  (∑ p ∈ F, p.1) % F.card + ∑ p ∈ s.strays t F, p.1 < F.card ∧
    (∑ p ∈ F, p.2) % F.card + ∑ p ∈ s.strays t F, p.2 < F.card

variable {z : Rows} {m : Mask z} {c : Settings} {p q : Pixel} {s : Scan} {W F : Finset Pixel}
  {parts : ℕ → Finset Pixel} {t : ℕ}

theorem BlobStats.nodup_box (bs : BlobStats) : bs.box.Nodup := by
  apply nodup_of_pairwise
  apply pairwise_flatMap _ _ fun y ↦ pairwise_map _ _ y
  intro y p hp
  obtain ⟨x, -, rfl⟩ := List.mem_map.mp hp
  rfl

theorem add_ediv_eq_iff {a b n : ℤ} (hb : 0 ≤ b) (hn : 0 < n) :
    (a + b) / n = a / n ↔ a % n + b < n := by
  have ha := Int.emod_add_mul_ediv a n
  have hab := Int.emod_add_mul_ediv (a + b) n
  have hpos := Int.emod_nonneg (a + b) hn.ne'
  have hlt := Int.emod_lt_of_pos (a + b) hn
  constructor
  · intro h
    rw [h] at hab
    omega
  · intro h
    have hd : a + b = a % n + b + n * (a / n) := by omega
    have h0 := Int.emod_nonneg a hn.ne'
    rw [hd, Int.add_mul_ediv_left _ _ hn.ne', Int.ediv_eq_zero_of_lt (by omega) h, zero_add]

namespace Blobs

/-- Strays are left over from blobs that were eliminated without being erased. -/
theorem of_stray (h : Blobs m c s W parts) (ht : t ∈ labels) (hn : (parts t).Nonempty)
    (hp : p ∈ s.strays t (parts t)) :
    c.erases = false ∧ p ∈ W ∧ ∃ k, p ∈ parts k ∧ ¬ c.Within (parts k).card := by
  rw [Scan.strays, Finset.mem_filter, (h.blobs t ht hn).tag] at hp
  obtain ⟨-, hb, hnot⟩ := hp
  have hlt := mem_labels.mp ht
  have hW : p ∈ W := by
    by_contra hW
    exact buffer_ne_label ht p (h.unseen p hW ▸ hb)
  obtain ⟨k, hk⟩ := h.splits.cover p hW
  have hkl : k ∉ labels := by
    intro hkl
    have hkt : k = t := (h.painted k hkl p hk).symm.trans hb
    exact hnot (hkt ▸ hk)
  refine ⟨?_, hW, k, hk, eliminates_iff.mp (h.eliminated k hkl ⟨p, hk⟩)⟩
  by_contra he
  rw [(h.remains k hkl p hk).2 (Bool.not_eq_false _ ▸ he), kBlack] at hb
  omega

theorem sum_tagged (h : Blobs m c s W parts) (ht : t ∈ labels) (hn : (parts t).Nonempty)
    (f : Pixel → ℤ) :
    (((s.blobs t).box.filter fun p ↦ s.buff p = (s.blobs t).tag).map f).sum =
      ∑ p ∈ parts t, f p + ∑ p ∈ s.strays t (parts t), f p := by
  have hof := h.blobs t ht hn
  rw [← List.sum_toFinset f ((BlobStats.nodup_box _).filter _), ← Finset.sum_union]
  · apply Finset.sum_congr _ fun _ _ ↦ rfl
    ext p
    simp only [Scan.strays, List.mem_toFinset, List.mem_filter, Finset.mem_union,
      Finset.mem_filter, decide_eq_true_eq]
    constructor
    · rintro ⟨hb, hp⟩
      by_cases hF : p ∈ parts t
      · exact .inl hF
      · exact .inr ⟨hb, hp, hF⟩
    · rintro (hF | ⟨hb, hp, -⟩)
      · exact ⟨hof.mem_box hF, by rw [h.painted t ht p hF, hof.tag]⟩
      · exact ⟨hb, hp⟩
  · rw [Finset.disjoint_left]
    intro p hF hs
    exact (Finset.mem_filter.mp hs).2.2 hF

theorem alarmMid_iff (h : Blobs m c s W parts) (ht : t ∈ labels) (hn : (parts t).Nonempty)
    (hw : c.weightedAlarmCentres = true) :
    s.alarmMid c t = mean (parts t) ↔ s.Unmoved t (parts t) := by
  have hcard : (0 : ℤ) < (parts t).card := by exact_mod_cast Finset.card_pos.mpr hn
  have hin : ∀ p ∈ s.strays t (parts t), 0 ≤ p.1 ∧ 0 ≤ p.2 := by
    intro p hp
    have hz := z.mem_pixels.mp (m.inside p (h.white (h.of_stray ht hn hp).2.1))
    have := z.inImage
    omega
  simp only [Scan.alarmMid, hw, if_true, mean, Prod.mk.injEq, h.sum_tagged ht hn,
    (h.blobs t ht hn).count, Scan.Unmoved]
  rw [add_ediv_eq_iff (Finset.sum_nonneg fun p hp ↦ (hin p hp).1) hcard,
    add_ediv_eq_iff (Finset.sum_nonneg fun p hp ↦ (hin p hp).2) hcard]

end Blobs

/-- Each alarm centre is the mean of its own blob exactly when the strays are too few to move it:
there are none where what is eliminated is erased, or where no component of a size that is not kept
comes into the box. -/
theorem alarmMid_mean_iff (m : Mask z) (c : Settings) (hw : c.weightedAlarmCentres = true)
    (ht : t ∈ (z.checkBlobs c m.buffer).largest) :
    ∃ F ∈ regions Adjacent (z.reached c m), ((z.checkBlobs c m.buffer).blobs t).Of t F ∧
      ((z.checkBlobs c m.buffer).alarmMid c t = mean F ↔
        (z.checkBlobs c m.buffer).Unmoved t F) ∧
      ∀ p ∈ (z.checkBlobs c m.buffer).strays t F, c.erases = false ∧
        ∃ G ∈ regions Adjacent (z.reached c m), p ∈ G ∧ ¬ c.Within G.card := by
  obtain ⟨parts, h⟩ := checkBlobs_settled m c
  rw [BlobCheck.largest, Finset.mem_filter] at ht
  obtain ⟨htl, hc, -⟩ := ht
  have hn : (parts t).Nonempty := by
    rw [Finset.nonempty_iff_ne_empty]
    exact fun h0 ↦ hc (h.free t htl h0)
  refine ⟨parts t, h.splits.mem_regions.mpr ⟨t, rfl, hn⟩, h.blobs t htl hn,
    h.alarmMid_iff htl hn hw, fun p hp ↦ ?_⟩
  obtain ⟨he, -, k, hk, hsize⟩ := h.of_stray htl hn hp
  exact ⟨he, parts k, h.splits.mem_regions.mpr ⟨k, rfl, p, hk⟩, hk, hsize⟩

def hookRows : Rows := ⟨fun _ ↦ ⟨10, 13⟩, 0, 2, le_rfl⟩

/-- The hook of six pixels gets the label of the pixel beside it. -/
def hook : Mask hookRows :=
  ⟨{(11, 0), (13, 0), (13, 1), (10, 2), (11, 2), (12, 2), (13, 2)}, by decide⟩

def hookSettings (diag : Bool) : Settings := ⟨3, 0, 0, diag, true⟩

/-- Erased, that pixel is no stray. -/
theorem alarmMid_mean_iff_hook :
    254 ∈ (hookRows.checkBlobs (hookSettings true) hook.buffer).largest ∧
      ∃ F ∈ regions Adjacent (hookRows.reached (hookSettings true) hook),
        (hookRows.checkBlobs (hookSettings true) hook.buffer).strays 254 F = ∅ := by
  have ht : 254 ∈ (hookRows.checkBlobs (hookSettings true) hook.buffer).largest := by
    decide +kernel
  obtain ⟨F, hF, -, -, hstray⟩ := alarmMid_mean_iff hook (hookSettings true) rfl ht
  refine ⟨ht, F, hF, Finset.eq_empty_of_forall_notMem fun p hp ↦ ?_⟩
  exact absurd (hstray p hp).1 (by decide)

theorem alarmMid_not_mean :
    ¬ ∀ (z : Rows) (m : Mask z) (c : Settings), c.weightedAlarmCentres = true →
      ∀ t ∈ (z.checkBlobs c m.buffer).largest, ∃ F ∈ regions Adjacent m.white,
        ((z.checkBlobs c m.buffer).blobs t).Of t F ∧
          (z.checkBlobs c m.buffer).alarmMid c t = mean F := by
  intro h
  obtain ⟨F, hF, hof, hmid⟩ := h _ hook (hookSettings false) rfl 254 (by decide +kernel)
  have hcount : F.card = 6 := by
    rw [← hof.count]
    decide +kernel
  have hnot : (11, 0) ∉ F := by
    intro hp
    rw [eq_singleton_of_mem_regions hF hp (by decide)] at hcount
    simp at hcount
  have heq : F = hook.white.erase (11, 0) := by
    apply Finset.eq_of_subset_of_card_le
    · exact Finset.subset_erase.mpr ⟨subset_of_mem_regions hF, hnot⟩
    · rw [hcount]
      decide
  rw [heq] at hmid
  revert hmid
  decide +kernel

end ZoneMinder.Zone
