import Mathlib.Algebra.Ring.Int.Defs
import Mathlib.Data.Finset.Card
import Mathlib.Data.Nat.Cast.Basic
import ZoneMinder.Lib.Regions
import ZoneMinder.Zone.Blobs

namespace ZoneMinder.Zone

open Lib Scan

/-- Of the mask the white pixels `W` have been seen. They are split into the blobs under their labels
and, under other numbers, those that were eliminated. -/
structure Blobs {z : Rows} (m : Mask z) (c : Settings) (s : Scan) (W : Finset Pixel)
    (parts : ℕ → Finset Pixel) : Prop where
  white : W ⊆ m.white
  splits : Splits Adjacent W parts
  unseen : ∀ p ∉ W, s.buff p = m.buffer p
  painted : ∀ t ∈ labels, ∀ p ∈ parts t, s.buff p = t
  free : ∀ t ∈ labels, parts t = ∅ → (s.blobs t).count = 0
  blobs : ∀ t ∈ labels, (parts t).Nonempty → (s.blobs t).Of t (parts t)
  eliminated : ∀ k ∉ labels, (parts k).Nonempty → c.eliminates (parts k).card = true
  remains : ∀ k ∉ labels, ∀ p ∈ parts k,
    s.buff p ≠ kWhite ∧ (c.erases = true → s.buff p = kBlack)
  alarmBlobs : s.alarmBlobs = ({t ∈ labels | (parts t).Nonempty}.card : ℤ)
  alarmBlobPixels : s.alarmBlobPixels = ((labels.biUnion parts).card : ℤ)
  running : s.aborted = false

/-- The scan with the pixels in `rest` still before it. What was eliminated is too far up for any of
them to touch it. -/
structure Labels {z : Rows} (m : Mask z) (c : Settings) (rest : List Pixel) (s : Scan)
    (W : Finset Pixel) (parts : ℕ → Finset Pixel) : Prop extends Blobs m c s W parts where
  seen : ∀ p, p ∈ W ↔ p ∈ m.white ∧ p ∉ rest
  above : ∀ k ∉ labels, ∀ p ∈ parts k, ∀ q ∈ rest, p.2 + 1 < q.2

variable {z : Rows} {m : Mask z} {c : Settings} {before rest : List Pixel} {p q : Pixel}
  {s s' : Scan} {W : Finset Pixel} {parts : ℕ → Finset Pixel} {t u i : ℕ}

theorem Labels.initial (m : Mask z) (c : Settings) :
    Labels m c z.pixels { buff := m.buffer } ∅ fun _ ↦ ∅ where
  white := by simp
  splits := .empty
  unseen _ _ := rfl
  painted t _ p hp := by simp at hp
  free _ _ _ := rfl
  blobs t _ h := by simp at h
  eliminated k _ h := by simp at h
  remains k _ p hp := by simp at hp
  alarmBlobs := by simp
  alarmBlobPixels := by rw [Finset.card_eq_zero.mpr (by ext; simp), Nat.cast_zero]
  running := rfl
  seen p := by simpa using m.inside p
  above k _ p hp := by simp at hp

theorem buffer_ne_label (ht : t ∈ labels) (p : Pixel) : m.buffer p ≠ t := by
  rw [mem_labels] at ht
  unfold Mask.buffer
  split <;> simp only [kBlack, kWhite] at * <;> omega

theorem Blobs.white_of_mem (h : Blobs m c s W parts) (hp : p ∈ parts i) : p ∈ m.white :=
  h.white (h.splits.subset i hp)

namespace Labels

theorem skip (h : Labels m c (p :: rest) s W parts) (hp : p ∉ m.white) :
    Labels m c rest s W parts where
  toBlobs := h.toBlobs
  seen q := by
    rw [h.seen, List.mem_cons, not_or]
    constructor
    · rintro ⟨hq, -, hr⟩
      exact ⟨hq, hr⟩
    · rintro ⟨hq, hr⟩
      exact ⟨hq, fun he ↦ hp (he ▸ hq), hr⟩
  above k hk p hp q hq := h.above k hk p hp q (List.mem_cons_of_mem _ hq)

/-- The pixel the scan is at joins the blob `t`, and the blob `u` with it. -/
theorem join (h : Labels m c (p :: rest) s W parts) (hp : p ∈ m.white)
    (hr : p ∉ rest) (ht : t ∈ labels) (hu : u ∈ labels)
    (hnear : ∀ q ∈ W, Adjacent p q → q ∈ parts t ∨ q ∈ parts u)
    (htouch : (parts t).Nonempty → ∃ q ∈ parts t, Adjacent p q)
    (hutouch : (parts u).Nonempty → ∃ q ∈ parts u, Adjacent p q)
    (hpaint : ∀ q, q = p ∨ q ∈ parts t ∨ q ∈ parts u → s'.buff q = t)
    (hkeep : ∀ q, q ≠ p → s'.buff q = s.buff q ∨ s.buff q = u ∧ s'.buff q = t)
    (hof : (s'.blobs t).Of t (insert p (parts t ∪ parts u)))
    (hfree : u ≠ t → (s'.blobs u).count = 0)
    (hblobs : ∀ i, i ≠ t → i ≠ u → s'.blobs i = s.blobs i)
    (halarm : s'.alarmBlobs = ({i ∈ labels | (joined parts t u p i).Nonempty}.card : ℤ))
    (hpixels : s'.alarmBlobPixels = s.alarmBlobPixels + 1) (hrun : s'.aborted = false) :
    Labels m c rest s' (insert p W) (joined parts t u p) := by
  have hpW : p ∉ W := fun hW ↦ ((h.seen p).mp hW).2 (List.mem_cons_self ..)
  have hsame : ∀ q, q ≠ p → s.buff q ≠ u → s'.buff q = s.buff q := fun q hq hb ↦
    (hkeep q hq).resolve_right fun hc ↦ hb hc.1
  have hother : ∀ i ∉ labels, joined parts t u p i = parts i := fun i hi ↦
    joined_of_ne (fun he ↦ hi (he ▸ ht)) (fun he ↦ hi (he ▸ hu))
  refine ⟨⟨?_, ?_, ?_, ?_, ?_, ?_, ?_, ?_, halarm, ?_, hrun⟩, ?_, ?_⟩
  · exact Finset.insert_subset hp h.white
  · exact h.splits.join Adjacent.symm hpW hnear htouch hutouch
  · intro q hq
    rw [Finset.mem_insert, not_or] at hq
    have hb := h.unseen q hq.2
    rw [hsame q hq.1 (hb ▸ buffer_ne_label hu q), hb]
  · intro i hi q hq
    rw [mem_joined] at hq
    rcases hq with ⟨rfl, hq⟩ | ⟨hne, hq⟩
    · exact hpaint q hq
    · have hb := h.painted i hi q hq
      rw [hsame q (fun he ↦ hpW (he ▸ h.splits.subset i hq)) (hb ▸ hne.2), hb]
  · intro i hi he
    by_cases hit : i = t
    · subst i
      rw [joined_self] at he
      simp at he
    · by_cases hiu : i = u
      · subst i
        exact hfree hit
      · rw [joined_of_ne hit hiu] at he
        rw [hblobs i hit hiu]
        exact h.free i hi he
  · intro i hi hn
    by_cases hit : i = t
    · subst i
      rw [joined_self]
      exact hof
    · by_cases hiu : i = u
      · subst i
        rw [joined_other hit] at hn
        simp at hn
      · rw [joined_of_ne hit hiu] at hn ⊢
        rw [hblobs i hit hiu]
        exact h.blobs i hi hn
  · intro k hk hn
    rw [hother k hk] at hn ⊢
    exact h.eliminated k hk hn
  · intro k hk q hq
    rw [hother k hk] at hq
    have hlt := mem_labels.mp ht
    have hlu := mem_labels.mp hu
    obtain ⟨hb, he⟩ := h.remains k hk q hq
    rcases hkeep q (fun he ↦ hpW (he ▸ h.splits.subset k hq)) with hs | ⟨hs, hs'⟩
    · rw [hs]
      exact ⟨hb, he⟩
    · refine ⟨by omega, fun hc ↦ ?_⟩
      have := he hc
      unfold kBlack at this
      omega
  · have hnot : p ∉ labels.biUnion parts := by
      simp only [Finset.mem_biUnion, not_exists, not_and]
      exact fun i _ hi ↦ hpW (h.splits.subset i hi)
    rw [biUnion_joined ht hu, Finset.card_insert_of_notMem hnot, hpixels, h.alarmBlobPixels, Nat.cast_add,
      Nat.cast_one]
  · intro q
    rw [Finset.mem_insert, h.seen, List.mem_cons, not_or]
    by_cases hq : q = p
    · subst q
      simp [hp, hr]
    · simp [hq]
  · intro k hk q hq r hr
    rw [hother k hk] at hq
    exact h.above k hk q hq r (List.mem_cons_of_mem _ hr)

theorem notMem (h : Labels m c (p :: rest) s W parts) : p ∉ W :=
  fun hW ↦ ((h.seen p).mp hW).2 (List.mem_cons_self ..)

theorem extend (h : Labels m c (p :: rest) s W parts) (hp : p ∈ m.white) (hr : p ∉ rest)
    (ht : t ∈ labels) (hnear : ∀ q ∈ W, Adjacent p q → q ∈ parts t)
    (htouch : ∃ q ∈ parts t, Adjacent p q ∧ q.1 ≤ p.1 ∧ q.2 ≤ p.2) :
    Labels m c rest (s.extend t p) (insert p W) (joined parts t t p) := by
  obtain ⟨q, hq, hpq, hle⟩ := htouch
  have hpt : p ∉ parts t := fun hpt ↦ h.notMem (h.splits.subset t hpt)
  have hof := (h.blobs t ht ⟨q, hq⟩).extended hpt ⟨q, hq, hle⟩
  refine h.join hp hr ht ht (fun q hW ha ↦ .inl (hnear q hW ha)) (fun _ ↦ ⟨q, hq, hpq⟩)
    (fun _ ↦ ⟨q, hq, hpq⟩) ?_ ?_ ?_ (fun hne ↦ (hne rfl).elim) ?_ ?_ rfl h.running
  · intro r hr
    by_cases he : r = p
    · subst r
      simp [Scan.extend]
    · simp only [Scan.extend, Function.update_of_ne he]
      exact h.painted t ht r (by tauto)
  · intro r he
    simp [Scan.extend, he]
  · simpa [Scan.extend] using hof
  · intro i hi _
    simp [Scan.extend, hi]
  · have hsame : {i ∈ labels | (joined parts t t p i).Nonempty} =
        {i ∈ labels | (parts i).Nonempty} := by
      apply Finset.filter_congr
      intro i _
      by_cases hi : i = t
      · subst i
        rw [joined_self]
        exact iff_of_true ⟨q, by simp [hq]⟩ ⟨q, hq⟩
      · rw [joined_of_ne hi hi]
    rw [hsame]
    exact h.alarmBlobs

theorem mergeInto (h : Labels m c (p :: rest) s W parts) (hp : p ∈ m.white) (hr : p ∉ rest)
    (ht : t ∈ labels) (hu : u ∈ labels) (hne : u ≠ t)
    (hnear : ∀ q ∈ W, Adjacent p q → q ∈ parts t ∨ q ∈ parts u)
    (htouch : ∃ q ∈ parts t, Adjacent p q ∧ q.1 ≤ p.1 ∧ q.2 ≤ p.2)
    (hutouch : ∃ q ∈ parts u, Adjacent p q) :
    Labels m c rest (s.mergeInto z t u p) (insert p W) (joined parts t u p) := by
  obtain ⟨q, hq, hpq, hle⟩ := htouch
  obtain ⟨r, hr', hpr⟩ := hutouch
  have hbt := h.blobs t ht ⟨q, hq⟩
  have hbu := h.blobs u hu ⟨r, hr'⟩
  have hnot : ∀ i, p ∉ parts i := fun i hi ↦ h.notMem (h.splits.subset i hi)
  have hclip : ∀ r ∈ parts u, r ∈ z.clipped (s.blobs u) := fun r hr ↦
    hbu.mem_clipped hr (m.inside r (h.white_of_mem hr))
  -- the neighbour in the slave is among the pixels that change
  have hchanged : (repaint (s.blobs u).tag (s.blobs t).tag s.buff (z.clipped (s.blobs u))).2 ≠ 0 :=
    repaint_changes (hclip r hr') (by rw [h.painted u hu r hr', hbu.tag])
  have hdisj : Disjoint (parts t) (parts u) := Finset.disjoint_left.mpr fun a hat hau ↦
    hne (h.splits.disjoint hau hat)
  have hof := hbt.aggregated hbu (by simp [hnot]) hdisj ⟨q, hq, hle⟩
  simp only [Scan.mergeInto, if_neg hchanged]
  refine h.join hp hr ht hu hnear (fun _ ↦ ⟨q, hq, hpq⟩) (fun _ ↦ ⟨r, hr', hpr⟩)
    ?_ ?_ ?_ ?_ ?_ ?_ rfl h.running
  · intro a ha
    dsimp only
    by_cases he : a = p
    · subst a
      simp [hbt.tag]
    · rw [Function.update_of_ne he, repaint_fst, hbt.tag, hbu.tag]
      rcases ha with ha | ha | ha
      · exact (he ha).elim
      · have hb := h.painted t ht a ha
        rw [if_neg fun hc ↦ hne (by rw [← hc.2, hb]), hb]
      · rw [if_pos ⟨hclip a ha, h.painted u hu a ha⟩]
  · intro a he
    dsimp only
    rw [Function.update_of_ne he, repaint_fst, hbu.tag, hbt.tag]
    split_ifs with hc
    · exact .inr ⟨hc.2, rfl⟩
    · exact .inl rfl
  · simpa [hne.symm] using hof
  · simp
  · intro i hit hiu
    simp [hit, hiu]
  · have hstay : ∀ i ∈ labels, i ≠ u →
        ((parts i).Nonempty ↔ (joined parts t u p i).Nonempty) := by
      intro i _ hiu
      by_cases hit : i = t
      · subst i
        rw [joined_self]
        exact iff_of_true ⟨q, hq⟩ ⟨q, by simp [hq]⟩
      · rw [joined_of_ne hit hiu]
    have hcard := h.alarmBlobs
    rw [card_nonempty_emptied hu ⟨r, hr'⟩ (joined_other hne) hstay, Nat.cast_add] at hcard
    simp only [hcard, Nat.cast_one, add_sub_cancel_right]

theorem start (h : Labels m c (p :: rest) s W parts) (hp : p ∈ m.white) (hr : p ∉ rest)
    (ht : t ∈ labels) (hfree : (s.blobs t).count = 0) (hnear : ∀ q ∈ W, ¬ Adjacent p q) :
    Labels m c rest
      { s with
        buff := Function.update s.buff p t
        blobs := Function.update s.blobs t ⟨t, 1, p.1, p.1, p.2, p.2⟩
        alarmBlobs := s.alarmBlobs + 1
        alarmBlobPixels := s.alarmBlobPixels + 1 } (insert p W) (joined parts t t p) := by
  have hnone : parts t = ∅ := by
    by_contra hne
    have hn := Finset.nonempty_iff_ne_empty.mpr hne
    have hcount := (h.blobs t ht hn).count
    rw [hfree] at hcount
    exact hne (Finset.card_eq_zero.mp hcount.symm)
  refine h.join hp hr ht ht (fun q hW ha ↦ (hnear q hW ha).elim) ?_ ?_ ?_ ?_ ?_
    (fun hne ↦ (hne rfl).elim) ?_ ?_ rfl h.running
  · simp [hnone]
  · simp [hnone]
  · intro a ha
    rw [hnone] at ha
    simp only [Finset.notMem_empty, or_false] at ha
    subst a
    simp
  · intro a he
    simp [he]
  · simpa [hnone] using BlobStats.Of.single t p
  · intro i hi _
    simp [hi]
  · have hself : (joined parts t t p t).Nonempty := ⟨p, by simp [joined_self]⟩
    rw [card_nonempty_emptied ht hself hnone fun i _ hi ↦ by rw [joined_of_ne hi hi], Nat.cast_add,
      Nat.cast_one, h.alarmBlobs]

end Labels

/-- What is eliminated goes to a number that is no label. -/
theorem Blobs.eliminate (h : Blobs m c s W parts) (ht : t ∈ labels)
    (hcount : (s.blobs t).count ≠ 0) (he : c.eliminates (s.blobs t).count = true) :
    ∃ parts', Blobs m c (s.eliminate c t) W parts' ∧ parts' t = ∅ ∧
      (∀ i ∈ labels, i ≠ t → parts' i = parts i) ∧
      ∀ k ∉ labels, ∀ p ∈ parts' k, p ∈ parts k ∨ p ∈ parts t := by
  obtain ⟨d, parts', hd, hsplits, htd, hdt, hnone, hsame⟩ := h.splits.move labels t
  have hn : (parts t).Nonempty := by
    by_contra hn
    exact hcount (h.free t ht (Finset.not_nonempty_iff_eq_empty.mp hn))
  have hof := h.blobs t ht hn
  have hlab : ∀ i ∈ labels, i ≠ t → parts' i = parts i := by
    intro i hi hit
    apply hsame i hit
    rintro rfl
    exact hd hi
  have hdead : ∀ k ∉ labels, k ≠ d → parts' k = parts k := by
    intro k hk hkd
    apply hsame k _ hkd
    rintro rfl
    exact hk ht
  -- only what carries the label can change
  have hkeep : ∀ q, s.buff q ≠ t → (s.eliminate c t).buff q = s.buff q := by
    intro q hq
    dsimp only [Scan.eliminate]
    split_ifs
    · rw [repaint_fst, hof.tag, if_neg fun hc ↦ hq hc.2]
    · rfl
  refine ⟨parts', ⟨h.white, hsplits, ?_, ?_, ?_, ?_, ?_, ?_, ?_, ?_, h.running⟩, htd, hlab, ?_⟩
  · intro q hq
    have hb := h.unseen q hq
    rw [hkeep q (hb ▸ buffer_ne_label ht q), hb]
  · intro i hi q hq
    by_cases hit : i = t
    · subst i
      rw [htd] at hq
      simp at hq
    · rw [hlab i hi hit] at hq
      have hb := h.painted i hi q hq
      rw [hkeep q (hb ▸ hit), hb]
  · intro i hi hn
    by_cases hit : i = t
    · subst i
      simp [Scan.eliminate]
    · rw [hlab i hi hit] at hn
      simpa [Scan.eliminate, hit] using h.free i hi hn
  · intro i hi hn
    by_cases hit : i = t
    · subst i
      rw [htd] at hn
      simp at hn
    · rw [hlab i hi hit] at hn ⊢
      simpa [Scan.eliminate, hit] using h.blobs i hi hn
  · intro k hk hn
    by_cases hkd : k = d
    · subst k
      rwa [hdt, ← hof.count]
    · rw [hdead k hk hkd] at hn ⊢
      exact h.eliminated k hk hn
  · intro k hk q hq
    have hlt := mem_labels.mp ht
    by_cases hkd : k = d
    · subst k
      rw [hdt] at hq
      have hb := h.painted t ht q hq
      simp only [Scan.eliminate]
      split_ifs with hc
      · rw [repaint_fst, if_pos ⟨hof.mem_box hq, by rw [hb, hof.tag]⟩]
        exact ⟨by decide, fun _ ↦ rfl⟩
      · exact ⟨by omega, fun hc' ↦ (hc hc').elim⟩
    · rw [hdead k hk hkd] at hq
      obtain ⟨hb, hb'⟩ := h.remains k hk q hq
      dsimp only [Scan.eliminate]
      split_ifs with hc
      · rw [repaint_fst, hb' hc, ite_self]
        exact ⟨by decide, fun _ ↦ rfl⟩
      · exact ⟨hb, fun hc' ↦ (hc hc').elim⟩
  · have hcard := h.alarmBlobs
    rw [card_nonempty_emptied ht hn htd fun i hi hit ↦ by rw [hlab i hi hit], Nat.cast_add] at hcard
    simp only [Scan.eliminate, hcard, Nat.cast_one, add_sub_cancel_right]
  · have hdisj : Disjoint (labels.biUnion parts') (parts t) := by
      rw [Finset.disjoint_left]
      intro q hq hqt
      obtain ⟨i, hi, hq⟩ := Finset.mem_biUnion.mp hq
      rw [← hdt] at hqt
      exact hd (hsplits.disjoint hqt hq ▸ hi)
    have hcard := h.alarmBlobPixels
    rw [biUnion_emptied ht htd hlab, Finset.card_union_of_disjoint hdisj, Nat.cast_add] at hcard
    simp only [Scan.eliminate, hcard, hof.count, add_sub_cancel_right]
  · intro k hk q hq
    by_cases hkd : k = d
    · subst k
      exact .inr (hdt ▸ hq)
    · exact .inl (hdead k hk hkd ▸ hq)

namespace Labels

theorem recycle (h : Labels m c (p :: rest) s W parts) (ht : t ∈ labels)
    (hrow : ∀ q ∈ rest, p.2 ≤ q.2) :
    ∃ parts', Labels m c (p :: rest) (s.recycle c t p) W parts' := by
  unfold Scan.recycle
  dsimp only
  split_ifs with hc
  · obtain ⟨⟨hcount, hhi⟩, he⟩ := hc
    obtain ⟨parts', hb, -, -, hdead⟩ := h.eliminate ht hcount he
    refine ⟨parts', hb, h.seen, fun k hk r hr q hq ↦ ?_⟩
    rcases hdead k hk r hr with hr | hr
    · exact h.above k hk r hr q hq
    · have hbox := BlobStats.mem_box.mp ((h.blobs t ht ⟨r, hr⟩).mem_box hr)
      rcases List.mem_cons.mp hq with rfl | hq
      · omega
      · have := hrow q hq
        omega
  · exact ⟨parts, h⟩

/-- A new blob, unless all labels are taken. -/
theorem create (h : Labels m c (p :: rest) s W parts) (hp : p ∈ m.white) (hr : p ∉ rest)
    (hrow : ∀ q ∈ rest, p.2 ≤ q.2) (hnear : ∀ q ∈ W, ¬ Adjacent p q) (hi : i < kWhite)
    (hs : s.stopped = false) :
    (∃ W' parts', Labels m c rest (create c p i s) W' parts' ∧
      (create c p i s).stopped = false) ∨
    ∃ parts', Labels m c (p :: rest) (create c p i s) W parts' ∧
      (create c p i s).stopped = true := by
  induction i generalizing s parts with
  | zero => exact .inr ⟨parts, ⟨⟨h.white, h.splits, h.unseen, h.painted, h.free, h.blobs,
      h.eliminated, h.remains, h.alarmBlobs, h.alarmBlobPixels, h.running⟩, h.seen, h.above⟩, rfl⟩
  | succ i ih =>
    have ht : i + 1 ∈ labels := mem_labels.mpr ⟨by omega, hi⟩
    obtain ⟨parts', h'⟩ := h.recycle ht hrow
    have hs' : (s.recycle c (i + 1) p).stopped = false := by
      unfold Scan.recycle
      dsimp only
      split_ifs
      · exact hs
      · exact hs
    unfold Scan.create
    dsimp only
    split_ifs with hfree
    · exact .inl ⟨_, _, h'.start hp hr ht hfree hnear, hs'⟩
    · exact ih h' (by omega) hs'

end Labels

end ZoneMinder.Zone
