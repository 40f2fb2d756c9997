import Mathlib.Algebra.BigOperators.Ring.Finset
import ZoneMinder.Zone.Labelling

namespace ZoneMinder.Zone

open Lib Scan

variable {z : Rows} {m : Mask z} {c : Settings} {before rest : List Pixel} {p q : Pixel}
  {s : Scan} {W : Finset Pixel} {parts : ℕ → Finset Pixel} {t u : ℕ}

theorem mergeInto_stopped : (s.mergeInto z t u p).stopped = s.stopped := by
  unfold mergeInto
  dsimp only
  split_ifs <;> rfl

theorem foldl_visit_of_stopped (hs : s.stopped = true) : rest.foldl (Scan.visit z c) s = s := by
  induction rest with
  | nil => rfl
  | cons p rest ih =>
    rw [List.foldl_cons]
    have hp : s.visit z c p = s := by simp [Scan.visit, hs]
    rw [hp]
    exact ih

namespace Labels

/-- A pixel next to the one the scan is at, before it: under a label if it is white. -/
theorem label_of_white (h : Labels m c (p :: rest) s W parts)
    (hz : z.pixels = before ++ p :: rest) (hq : q ∈ m.white) (hb : Before q p)
    (hrow : p.2 ≤ q.2 + 1) : s.buff q ∈ labels ∧ q ∈ parts (s.buff q) := by
  have hbefore : q ∈ before := (Rows.mem_visited hz).mpr ⟨m.inside q hq, hb⟩
  have hn := z.nodup_pixels
  rw [hz, List.nodup_append] at hn
  have hW : q ∈ W := (h.seen q).mpr ⟨hq, fun hr ↦ hn.2.2 q hbefore q hr rfl⟩
  obtain ⟨t, ht⟩ := h.splits.cover q hW
  have htl : t ∈ labels := by
    by_contra hk
    have := h.above t hk q ht p (List.mem_cons_self ..)
    omega
  rw [h.painted t htl q ht]
  exact ⟨htl, ht⟩

theorem black (h : Labels m c rest s W parts) (hq : q ∉ m.white) : s.buff q = 0 ∧ q ∉ W := by
  have hW : q ∉ W := fun hW ↦ hq ((h.seen q).mp hW).1
  rw [h.unseen q hW, Mask.buffer, if_neg hq]
  exact ⟨rfl, hW⟩

theorem lastX (h : Labels m c (p :: rest) s W parts) (hz : z.pixels = before ++ p :: rest) :
    (p.1 - 1, p.2) ∈ m.white ∧ s.lastX z p ∈ labels ∧ (p.1 - 1, p.2) ∈ parts (s.lastX z p) ∨
      (p.1 - 1, p.2) ∉ W ∧ s.lastX z p = 0 := by
  unfold Scan.lastX
  by_cases hq : (p.1 - 1, p.2) ∈ m.white
  · have hin := z.mem_pixels.mp (m.inside _ hq)
    dsimp only at hin
    rw [if_pos ⟨by omega, by omega⟩]
    exact .inl ⟨hq, h.label_of_white hz hq (.inr ⟨rfl, by dsimp only; omega⟩) (by dsimp only; omega)⟩
  · obtain ⟨hb, hW⟩ := h.black hq
    right
    refine ⟨hW, ?_⟩
    split_ifs
    · exact hb
    · rfl

theorem lastY (h : Labels m c (p :: rest) s W parts) (hz : z.pixels = before ++ p :: rest) :
    (p.1, p.2 - 1) ∈ m.white ∧ s.lastY z p ∈ labels ∧ (p.1, p.2 - 1) ∈ parts (s.lastY z p) ∨
      (p.1, p.2 - 1) ∉ W ∧ s.lastY z p = 0 := by
  unfold Scan.lastY
  by_cases hq : (p.1, p.2 - 1) ∈ m.white
  · have hin := z.mem_pixels.mp (m.inside _ hq)
    have htop := z.inImage
    dsimp only at hin
    rw [if_pos ⟨by omega, by omega, by omega, by omega⟩]
    exact .inl ⟨hq, h.label_of_white hz hq (.inl (by dsimp only; omega)) (by dsimp only; omega)⟩
  · obtain ⟨hb, hW⟩ := h.black hq
    right
    refine ⟨hW, ?_⟩
    split_ifs
    · exact hb
    · rfl

/-- Of the neighbours the scan has seen the one on the left and the one above. -/
theorem neighbour (h : Labels m c (p :: rest) s W parts) (hz : z.pixels = before ++ p :: rest)
    (hq : q ∈ W) (ha : Adjacent p q) : q = (p.1 - 1, p.2) ∨ q = (p.1, p.2 - 1) := by
  obtain ⟨hwhite, hr⟩ := (h.seen q).mp hq
  have hin := m.inside q hwhite
  have hb : q ∈ before := by
    rw [hz, List.mem_append] at hin
    exact hin.resolve_right hr
  have hlt := ((Rows.mem_visited hz).mp hb).2
  unfold Before at hlt
  unfold Adjacent at ha
  simp only [Prod.ext_iff]
  omega

theorem visit (h : Labels m c (p :: rest) s W parts) (hz : z.pixels = before ++ p :: rest)
    (hs : s.stopped = false) :
    (∃ W' parts', Labels m c rest (s.visit z c p) W' parts' ∧ (s.visit z c p).stopped = false) ∨
      ∃ parts', Labels m c (p :: rest) (s.visit z c p) W parts' ∧ (s.visit z c p).stopped = true := by
  have hn := z.nodup_pixels
  rw [hz, List.nodup_append, List.nodup_cons] at hn
  have hr := hn.2.1.1
  have hrow : ∀ q ∈ rest, p.2 ≤ q.2 := by
    intro q hq
    have hw := z.pairwise_pixels
    rw [hz, List.pairwise_append, List.pairwise_cons] at hw
    have := hw.2.1.1 q hq
    unfold Before at this
    omega
  have hwhite : s.buff p = kWhite ↔ p ∈ m.white := by
    rw [h.unseen p h.notMem, Mask.buffer]
    split_ifs with hp <;> simp [hp, kWhite, kBlack]
  have hpos : ∀ {t}, t ∈ labels → t ≠ 0 := fun ht ↦ by
    rw [mem_labels] at ht
    omega
  have hleft : Adjacent p (p.1 - 1, p.2) := .inl ⟨rfl, .inl (by simp)⟩
  have habove : Adjacent p (p.1, p.2 - 1) := .inr ⟨rfl, .inl (by simp)⟩
  have hleftle : (p.1 - 1, p.2).1 ≤ p.1 ∧ (p.1 - 1, p.2).2 ≤ p.2 := ⟨by dsimp only; omega, le_rfl⟩
  have habovele : (p.1, p.2 - 1).1 ≤ p.1 ∧ (p.1, p.2 - 1).2 ≤ p.2 := ⟨le_rfl, by dsimp only; omega⟩
  unfold Scan.visit
  simp only [hs, h.running, Bool.or_self, Bool.false_eq_true, if_false, hwhite]
  by_cases hp : p ∈ m.white
  swap
  · rw [if_neg hp]
    exact .inl ⟨W, parts, h.skip hp, hs⟩
  rw [if_pos hp]
  rcases h.lastX hz with ⟨-, hxl, hxp⟩ | ⟨hxW, hx⟩ <;>
    rcases h.lastY hz with ⟨-, hyl, hyp⟩ | ⟨hyW, hy⟩
  · rw [if_pos (hpos hxl), if_pos (hpos hyl)]
    split_ifs with heq
    · refine .inl ⟨_, _, h.extend hp hr hxl ?_ ⟨_, hxp, hleft, hleftle⟩, hs⟩
      intro q hq ha
      rcases h.neighbour hz hq ha with rfl | rfl
      · exact hxp
      · exact heq ▸ hyp
    · have hnear : ∀ q ∈ W, Adjacent p q → q ∈ parts (s.lastX z p) ∨ q ∈ parts (s.lastY z p) := by
        intro q hq ha
        rcases h.neighbour hz hq ha with rfl | rfl
        · exact .inl hxp
        · exact .inr hyp
      unfold merge
      split_ifs
      · have hm := h.mergeInto hp hr hxl hyl (Ne.symm heq) hnear ⟨_, hxp, hleft, hleftle⟩
          ⟨_, hyp, habove⟩
        exact .inl ⟨_, _, hm, mergeInto_stopped.trans hs⟩
      · have hm := h.mergeInto hp hr hyl hxl heq (fun q hq ha ↦ (hnear q hq ha).symm)
          ⟨_, hyp, habove, habovele⟩ ⟨_, hxp, hleft⟩
        exact .inl ⟨_, _, hm, mergeInto_stopped.trans hs⟩
  · rw [if_pos (hpos hxl), if_neg (not_not.mpr hy)]
    refine .inl ⟨_, _, h.extend hp hr hxl ?_ ⟨_, hxp, hleft, hleftle⟩, hs⟩
    intro q hq ha
    rcases h.neighbour hz hq ha with rfl | rfl
    · exact hxp
    · exact (hyW hq).elim
  · rw [if_neg (not_not.mpr hx), if_pos (hpos hyl)]
    refine .inl ⟨_, _, h.extend hp hr hyl ?_ ⟨_, hyp, habove, habovele⟩, hs⟩
    intro q hq ha
    rcases h.neighbour hz hq ha with rfl | rfl
    · exact (hxW hq).elim
    · exact hyp
  · rw [if_neg (not_not.mpr hx), if_neg (not_not.mpr hy)]
    refine h.create hp hr hrow ?_ (by decide) hs
    intro q hq ha
    rcases h.neighbour hz hq ha with rfl | rfl
    · exact hxW hq
    · exact hyW hq

theorem run (h : Labels m c rest s W parts) (hz : z.pixels = before ++ rest)
    (hs : s.stopped = false) :
    ∃ rest' W' parts', Labels m c rest' (rest.foldl (Scan.visit z c) s) W' parts' ∧
      ((rest.foldl (Scan.visit z c) s).stopped = false → rest' = []) := by
  induction rest generalizing before s W parts with
  | nil => exact ⟨[], W, parts, h, fun _ ↦ rfl⟩
  | cons p rest ih =>
    rw [List.foldl_cons]
    rcases h.visit hz hs with ⟨W', parts', h', hs'⟩ | ⟨parts', h', hs'⟩
    · rw [List.append_cons] at hz
      exact ih h' hz hs'
    · rw [foldl_visit_of_stopped hs', hs']
      exact ⟨p :: rest, W, parts', h', by simp⟩

end Labels

theorem scanBlobs_labels (m : Mask z) (c : Settings) :
    ∃ rest W parts, Labels m c rest (z.scanBlobs c m.buffer) W parts ∧
      ((z.scanBlobs c m.buffer).stopped = false → rest = []) :=
  (Labels.initial m c).run (List.nil_append _).symm rfl

theorem scanBlobs_never_aborts (m : Mask z) (c : Settings) :
    (z.scanBlobs c m.buffer).aborted = false := by
  obtain ⟨rest, W, parts, h, -⟩ := scanBlobs_labels m c
  exact h.running

end ZoneMinder.Zone

namespace ZoneMinder.Zone

open Lib

/-- The white pixels that the scan has given a label. -/
def Rows.reached (z : Rows) (c : Settings) (m : Mask z) : Finset Pixel :=
  {p ∈ m.white | (z.scanBlobs c m.buffer).buff p ≠ kWhite}

/-- The sizes that are kept, a limit of zero being none. -/
def Settings.Within (c : Settings) (n : ℕ) : Prop :=
  (c.minBlobPixels = 0 ∨ c.minBlobPixels ≤ n) ∧ (c.maxBlobPixels = 0 ∨ n ≤ c.maxBlobPixels)

/-- The least and the greatest of some sizes, zero if there are none. -/
def Extremes (least greatest : ℕ) (sizes : Set ℕ) : Prop :=
  sizes = ∅ ∧ least = 0 ∧ greatest = 0 ∨ IsLeast sizes least ∧ IsGreatest sizes greatest

open Classical in
/-- The connected components of the mask of a size that is kept. -/
noncomputable def Mask.kept {z : Rows} (m : Mask z) (c : Settings) : Finset (Finset Pixel) :=
  {F ∈ regions Adjacent m.white | c.Within F.card}

variable {z : Rows} {m : Mask z} {c : Settings} {rest : List Pixel} {p q : Pixel}
  {s : Scan} {W : Finset Pixel} {parts : ℕ → Finset Pixel} {t n least greatest : ℕ}
  {sizes : Set ℕ} {r : BlobCheck} {l : List ℕ}

theorem eliminates_iff : c.eliminates n = true ↔ ¬ c.Within n := by
  simp only [Settings.eliminates, Settings.Within, Bool.or_eq_true, decide_eq_true_eq]
  omega

theorem Extremes.insert (h : Extremes least greatest sizes) (hpos : ∀ k ∈ sizes, 0 < k) (n : ℕ) :
    Extremes (if least = 0 ∨ n < least then n else least)
      (if greatest = 0 ∨ n > greatest then n else greatest) (insert n sizes) := by
  rcases h with ⟨rfl, rfl, rfl⟩ | ⟨hl, hg⟩
  · right
    simp
  · have h1 := hpos _ hl.1
    have h2 := hpos _ hg.1
    have hmin : (if least = 0 ∨ n < least then n else least) = min n least := by
      split_ifs <;> omega
    have hmax : (if greatest = 0 ∨ n > greatest then n else greatest) = max n greatest := by
      split_ifs <;> omega
    rw [hmin, hmax]
    exact .inr ⟨hl.insert n, hg.insert n⟩

namespace Blobs

theorem count_eq_zero (h : Blobs m c s W parts) (ht : t ∈ labels) :
    (s.blobs t).count = 0 ↔ parts t = ∅ := by
  refine ⟨fun hc ↦ ?_, h.free t ht⟩
  by_contra hne
  have hn := Finset.nonempty_iff_ne_empty.mpr hne
  rw [(h.blobs t ht hn).count, Finset.card_eq_zero] at hc
  exact hne hc

end Blobs

/-- The sizes of the blobs under some labels. -/
def sizesOf (parts : ℕ → Finset Pixel) (done : Finset ℕ) : Set ℕ :=
  {n | ∃ t ∈ done, (parts t).Nonempty ∧ (parts t).card = n}

/-- The elimination pass when it has settled some of the labels. -/
structure Settled {z : Rows} (m : Mask z) (c : Settings) (done : Finset ℕ) (r : BlobCheck)
    (W : Finset Pixel) (parts : ℕ → Finset Pixel) : Prop extends Blobs m c r.toScan W parts where
  within : ∀ t ∈ done, (parts t).Nonempty → c.Within (parts t).card
  extremes : Extremes r.minBlobSize r.maxBlobSize (sizesOf parts done)

namespace Settled

variable {done : Finset ℕ}

theorem sizesOf_insert_of_empty {parts' : ℕ → Finset Pixel} (ht : parts' t = ∅)
    (hsame : ∀ i ∈ done, parts' i = parts i) : sizesOf parts' (insert t done) = sizesOf parts done := by
  ext n
  constructor
  · rintro ⟨i, hi, hne, hn⟩
    rcases Finset.mem_insert.mp hi with rfl | hi
    · simp [ht] at hne
    · rw [hsame i hi] at hne hn
      exact ⟨i, hi, hne, hn⟩
  · rintro ⟨i, hi, hne, hn⟩
    rw [← hsame i hi] at hne hn
    exact ⟨i, Finset.mem_insert_of_mem hi, hne, hn⟩

theorem sizesOf_insert (ht : (parts t).Nonempty) :
    sizesOf parts (insert t done) = insert (parts t).card (sizesOf parts done) := by
  ext n
  simp only [sizesOf, Finset.mem_insert, Set.mem_insert_iff]
  constructor
  · rintro ⟨i, rfl | hi, hne, hn⟩
    · exact .inl hn.symm
    · exact .inr ⟨i, hi, hne, hn⟩
  · rintro (rfl | ⟨i, hi, hne, hn⟩)
    · exact ⟨t, .inl rfl, ht, rfl⟩
    · exact ⟨i, .inr hi, hne, hn⟩

theorem settle (h : Settled m c done r W parts) (hd : done ⊆ labels) (ht : t ∈ labels)
    (hnot : t ∉ done) :
    ∃ parts', Settled m c (insert t done) (r.settle c t) W parts' := by
  have hne : ∀ i ∈ done, i ≠ t := fun i hi hit ↦ hnot (hit ▸ hi)
  unfold BlobCheck.settle
  by_cases hc : (r.blobs t).count = 0
  · simp only [if_pos hc]
    have hnone := (h.count_eq_zero ht).mp hc
    refine ⟨parts, h.toBlobs, ?_, ?_⟩
    · rw [Finset.forall_mem_insert]
      exact ⟨by simp [hnone], h.within⟩
    · rw [sizesOf_insert_of_empty hnone fun _ _ ↦ rfl]
      exact h.extremes
  by_cases hel : c.eliminates (r.blobs t).count = true
  · simp only [if_neg hc, if_pos hel]
    obtain ⟨parts', hb, hnone, hsame, -⟩ := h.eliminate ht hc hel
    have hdone : ∀ i ∈ done, parts' i = parts i := fun i hi ↦ hsame i (hd hi) (hne i hi)
    refine ⟨parts', hb, ?_, ?_⟩
    · rw [Finset.forall_mem_insert]
      refine ⟨by simp [hnone], fun i hi hn ↦ ?_⟩
      rw [hdone i hi] at hn ⊢
      exact h.within i hi hn
    · rw [sizesOf_insert_of_empty hnone hdone]
      exact h.extremes
  · simp only [if_neg hc, if_neg hel]
    have hn : (parts t).Nonempty := by
      rw [Finset.nonempty_iff_ne_empty]
      exact fun h0 ↦ hc (h.free t ht h0)
    have hcount := (h.blobs t ht hn).count
    have hpos : ∀ k ∈ sizesOf parts done, 0 < k := by
      rintro _ ⟨i, -, hi, rfl⟩
      exact Finset.card_pos.mpr hi
    refine ⟨parts, ⟨h.white, h.splits, h.unseen, h.painted, h.free, h.blobs, h.eliminated,
      h.remains, h.alarmBlobs, h.alarmBlobPixels, h.running⟩, ?_, ?_⟩
    · rw [Finset.forall_mem_insert]
      refine ⟨fun _ ↦ ?_, h.within⟩
      rw [hcount, eliminates_iff, not_not] at hel
      exact hel
    · rw [sizesOf_insert hn, hcount]
      exact h.extremes.insert hpos _

theorem run (h : Settled m c done r W parts) (hd : done ⊆ labels) (hl : ∀ t ∈ l, t ∈ labels ∧ t ∉ done)
    (hn : l.Nodup) :
    ∃ parts', Settled m c (l.toFinset ∪ done) (l.foldl (BlobCheck.settle c) r) W parts' := by
  induction l generalizing r done parts with
  | nil => exact ⟨parts, by simpa using h⟩
  | cons t l ih =>
    rw [List.forall_mem_cons] at hl
    rw [List.nodup_cons] at hn
    obtain ⟨parts', h'⟩ := h.settle hd hl.1.1 hl.1.2
    have := ih h' (Finset.insert_subset hl.1.1 hd) (by
      intro i hi
      rw [Finset.mem_insert, not_or]
      exact ⟨(hl.2 i hi).1, fun he ↦ hn.1 (he ▸ hi), (hl.2 i hi).2⟩) hn.2
    simpa only [List.foldl_cons, List.toFinset_cons, Finset.insert_union, Finset.union_insert]
      using this

end Settled

theorem Labels.eq_reached (h : Labels m c rest (z.scanBlobs c m.buffer) W parts) :
    W = z.reached c m := by
  ext p
  simp only [Rows.reached, Finset.mem_filter]
  constructor
  · intro hp
    refine ⟨h.white hp, ?_⟩
    obtain ⟨k, hk⟩ := h.splits.cover p hp
    by_cases hl : k ∈ labels
    · rw [h.painted k hl p hk]
      exact (mem_labels.mp hl).2.ne
    · exact (h.remains k hl p hk).1
  · rintro ⟨hp, hb⟩
    by_contra hW
    rw [h.unseen p hW, Mask.buffer, if_pos hp] at hb
    exact hb rfl

theorem reached_eq (hs : (z.scanBlobs c m.buffer).stopped = false) : z.reached c m = m.white := by
  obtain ⟨rest, W, parts, h, hr⟩ := scanBlobs_labels m c
  obtain rfl := hr hs
  rw [← h.eq_reached]
  ext p
  simp [h.seen]

theorem mem_range'_labels : t ∈ List.range' 1 (kWhite - 1) ↔ t ∈ labels := by
  rw [List.mem_range'_1, mem_labels, kWhite]

/-- What the stage of the blobs leaves when the elimination is done. -/
theorem checkBlobs_settled (m : Mask z) (c : Settings) :
    ∃ parts, Settled m c labels (z.checkBlobs c m.buffer) (z.reached c m) parts := by
  obtain ⟨rest, W, parts, h, -⟩ := scanBlobs_labels m c
  obtain rfl := h.eq_reached
  unfold Rows.checkBlobs
  dsimp only
  split_ifs with hz
  · -- no blob at all: the stage returns before the pass
    have hnone : ∀ t ∈ labels, ¬ (parts t).Nonempty := by
      have hcard := h.alarmBlobs
      rw [hz, eq_comm, Nat.cast_eq_zero, Finset.card_eq_zero] at hcard
      exact Finset.filter_eq_empty_iff.mp hcard
    refine ⟨parts, h.toBlobs, fun t ht hn ↦ (hnone t ht hn).elim, .inl ⟨?_, rfl, rfl⟩⟩
    ext n
    refine iff_of_false ?_ (Set.notMem_empty n)
    rintro ⟨t, ht, hn, -⟩
    exact hnone t ht hn
  · have h₀ : Settled m c ∅ { toScan := z.scanBlobs c m.buffer } (z.reached c m) parts :=
      ⟨h.toBlobs, by simp, .inl ⟨by ext; simp [sizesOf], rfl, rfl⟩⟩
    obtain ⟨parts', h'⟩ := h₀.run (Finset.empty_subset _) (l := List.range' 1 (kWhite - 1))
      (fun t ht ↦ ⟨mem_range'_labels.mp ht, by simp⟩) List.nodup_range'
    have hl : (List.range' 1 (kWhite - 1)).toFinset ∪ ∅ = labels := by
      ext t
      rw [Finset.union_empty, List.mem_toFinset, mem_range'_labels]
    exact ⟨parts', hl ▸ h'⟩

namespace Settled

/-- The blobs that are left are the components of a size that is kept, each under one label. -/
theorem kept_eq [DecidableEq (Finset Pixel)] (h : Settled m c labels r m.white parts) :
    m.kept c = {t ∈ labels | (parts t).Nonempty}.image parts := by
  ext F
  simp only [Mask.kept, Finset.mem_filter, h.splits.mem_regions, Finset.mem_image]
  constructor
  · rintro ⟨⟨k, rfl, hn⟩, hw⟩
    by_cases hk : k ∈ labels
    · exact ⟨k, ⟨hk, hn⟩, rfl⟩
    · exact (eliminates_iff.mp (h.eliminated k hk hn) hw).elim
  · rintro ⟨t, ⟨ht, hn⟩, rfl⟩
    exact ⟨⟨t, rfl, hn⟩, h.within t ht hn⟩

theorem injOn (h : Blobs m c s W parts) :
    Set.InjOn parts ({t ∈ labels | (parts t).Nonempty} : Finset ℕ) := by
  intro i hi j _ he
  exact h.splits.eq_of_parts_eq (Finset.mem_filter.mp hi).2 he

end Settled

/-- Blob labelling finds the connected components, whatever is recycled while it goes. -/
theorem checkBlobs_components (m : Mask z) (c : Settings)
    (hs : (z.scanBlobs c m.buffer).stopped = false) :
    (z.checkBlobs c m.buffer).alarmBlobs = (m.kept c).card ∧
    (z.checkBlobs c m.buffer).alarmBlobPixels = ∑ F ∈ m.kept c, (F.card : ℤ) ∧
    Extremes (z.checkBlobs c m.buffer).minBlobSize (z.checkBlobs c m.buffer).maxBlobSize
      (Finset.card '' (m.kept c : Set (Finset Pixel))) ∧
    (∀ t ∈ labels, ((z.checkBlobs c m.buffer).blobs t).count ≠ 0 →
      ∃ F ∈ m.kept c, ((z.checkBlobs c m.buffer).blobs t).Of t F) ∧
    ∀ F ∈ m.kept c, ∃ t ∈ labels, ((z.checkBlobs c m.buffer).blobs t).Of t F := by
  classical
  obtain ⟨parts, h⟩ := checkBlobs_settled m c
  rw [reached_eq hs] at h
  have hinj := Settled.injOn h.toBlobs
  rw [h.kept_eq]
  refine ⟨?_, ?_, ?_, ?_, ?_⟩
  · rw [h.alarmBlobs, Finset.card_image_of_injOn hinj]
  · rw [h.alarmBlobPixels, Finset.sum_image hinj, Finset.card_biUnion, Nat.cast_sum]
    · symm
      apply Finset.sum_subset (Finset.filter_subset _ _)
      intro t ht hn
      rw [Finset.mem_filter, not_and] at hn
      rw [Finset.not_nonempty_iff_eq_empty.mp (hn ht), Finset.card_empty, Nat.cast_zero]
    · intro i _ j _ hij
      apply Finset.disjoint_left.mpr
      intro p hpi hpj
      exact hij (h.splits.disjoint hpi hpj)
  · convert h.extremes using 1
    ext n
    simp only [sizesOf, Set.mem_image, Finset.mem_coe, Finset.mem_image, Finset.mem_filter]
    constructor
    · rintro ⟨F, ⟨t, ⟨ht, hn⟩, rfl⟩, rfl⟩
      exact ⟨t, ht, hn, rfl⟩
    · rintro ⟨t, ht, hn, rfl⟩
      exact ⟨parts t, ⟨t, ⟨ht, hn⟩, rfl⟩, rfl⟩
  · intro t ht hc
    have hn : (parts t).Nonempty := by
      rw [Finset.nonempty_iff_ne_empty]
      exact fun h0 ↦ hc (h.free t ht h0)
    exact ⟨parts t, Finset.mem_image_of_mem _ (Finset.mem_filter.mpr ⟨ht, hn⟩), h.blobs t ht hn⟩
  · intro F hF
    obtain ⟨t, ht, rfl⟩ := Finset.mem_image.mp hF
    rw [Finset.mem_filter] at ht
    exact ⟨t, ht.1, h.blobs t ht.1 ht.2⟩

/-- Two pixels that touch at a corner, where single pixels are no blobs. -/
theorem checkBlobs_components_corner :
    let z : Rows := ⟨fun _ ↦ ⟨0, 2⟩, 0, 2, Int.le_refl 0⟩
    let c : Settings := ⟨2, 0, 0, false, true⟩
    ∃ m : Mask z, (z.scanBlobs c m.buffer).stopped = false ∧
      (z.checkBlobs c m.buffer).alarmBlobs = 1 ∧
      (z.checkBlobs c m.buffer).alarmBlobs = (m.kept c).card := by
  intro z c
  let m : Mask z := ⟨{(0, 0), (2, 2), (2, 1)}, by decide⟩
  have hs : (z.scanBlobs c m.buffer).stopped = false := by decide +kernel
  exact ⟨m, hs, by decide +kernel, (checkBlobs_components m c hs).1⟩

end ZoneMinder.Zone
