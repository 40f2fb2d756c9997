import ZoneMinder.PacketQueue.Invariant

namespace ZoneMinder.PacketQueue

open Lib Queue

variable {s s' t : Queue} {p q b add start : Packet} {rest l low : List Packet} {op : Op}

/-- What releaseDecoded's two marks say about the release lists so far. -/
structure Marked (s : Queue) : Prop where
  released : s.releasedBefore ≤ s.nextQueueIndex
  capped : s.cappedBefore ≤ s.nextQueueIndex
  list : ∀ i ∈ s.history.released, i < s.nextQueueIndex
  marks : ∀ p ∈ s.pktQueue, p.queueIndex ∈ s.history.released ↔
    p.queueIndex < s.releasedBefore ∨ p.queueIndex < s.cappedBefore

theorem Marked.of_subset (h : Marked s) (hq : s'.pktQueue ⊆ s.pktQueue)
    (hr : s'.releasedBefore = s.releasedBefore) (hc : s'.cappedBefore = s.cappedBefore)
    (hn : s'.nextQueueIndex = s.nextQueueIndex)
    (hl : s'.history.released = s.history.released) : Marked s' := by
  refine ⟨?_, ?_, ?_, fun p hp ↦ ?_⟩
  · rw [hr, hn]
    exact h.released
  · rw [hc, hn]
    exact h.capped
  · rw [hl, hn]
    exact h.list
  · rw [hl, hr, hc]
    exact h.marks p (hq hp)

theorem Marked.pushes (h : Marked s) (hp : Pushes add s t) : Marked t := by
  refine ⟨?_, ?_, ?_, fun p hm ↦ ?_⟩
  · rw [hp.released, hp.next]
    exact Nat.le_succ_of_le h.released
  · rw [hp.capped, hp.next]
    exact Nat.le_succ_of_le h.capped
  · rw [hp.history, hp.next]
    exact fun i hi ↦ Nat.lt_succ_of_lt (h.list i hi)
  · rw [hp.history, hp.released, hp.capped]
    rw [hp.packets] at hm
    rcases List.mem_append.mp hm with hm | hm
    · exact h.marks p hm
    · have hidx := hp.index
      have hreleased := h.released
      have hcapped := h.capped
      rw [List.mem_singleton.mp hm]
      refine iff_of_false (fun hi ↦ ?_) (by omega)
      have hlt := h.list _ hi
      omega

theorem mem_release (i : ℕ) (l : List Packet) (s : Queue) :
    i ∈ (release l s).history.released ↔ i ∈ s.history.released ∨
      ∃ p ∈ l, ¬(p.queueIndex < s.releasedBefore ∨ p.queueIndex < s.cappedBefore) ∧
        p.queueIndex = i := by
  simp [release, and_assoc]

theorem Marked.release_lt (h : Marked s) {m : ℕ} (hm : m ≤ s.nextQueueIndex)
    (hl : ∀ p, p ∈ l ↔ p ∈ s.pktQueue ∧ p.queueIndex < m) :
    (∀ i ∈ (release l s).history.released, i < s.nextQueueIndex) ∧
    ∀ p ∈ s.pktQueue, p.queueIndex ∈ (release l s).history.released ↔
      (p.queueIndex < s.releasedBefore ∨ p.queueIndex < s.cappedBefore) ∨ p.queueIndex < m := by
  refine ⟨fun i hi ↦ ?_, fun p hp ↦ ?_⟩
  · rcases (mem_release i l s).mp hi with hi | ⟨p, hp, -, rfl⟩
    · exact h.list i hi
    · exact ((hl p).mp hp).2.trans_le hm
  · rw [mem_release, h.marks p hp]
    constructor
    · rintro (hmark | ⟨q, hq, -, he⟩)
      · exact .inl hmark
      · exact .inr (he ▸ ((hl q).mp hq).2)
    · rintro (hmark | hlt)
      · exact .inl hmark
      · by_cases hmark : p.queueIndex < s.releasedBefore ∨ p.queueIndex < s.cappedBefore
        · exact .inl hmark
        · exact .inr ⟨p, (hl p).mpr ⟨hp, hlt⟩, hmark, rfl⟩

theorem mem_before (h : Sound s) (hb : b ∈ s.pktQueue) :
    p ∈ s.pktQueue.takeWhile (·.position ≠ b.position) ↔
      p ∈ s.pktQueue ∧ p.queueIndex < b.queueIndex := by
  obtain ⟨lo, hi, hq⟩ := List.append_of_mem hb
  have hinc := h.increasing
  rw [hq] at hinc ⊢
  have htake := hinc.takeWhile_ne
  simp only [ne_eq, ← position_inj] at htake
  simp only [ne_eq]
  rw [htake]
  obtain ⟨hlo, hhi⟩ := hinc.lt_of_append
  constructor
  · intro hp
    exact ⟨List.mem_append_left _ hp, hlo p hp⟩
  · rintro ⟨hp, hlt⟩
    refine (List.mem_append.mp hp).resolve_right fun hm ↦ ?_
    rcases List.mem_cons.mp hm with rfl | hm
    · omega
    · have := hhi p hm
      omega

theorem releaseWindow_packets (b : Packet) (s : Queue) :
    (releaseWindow b s).pktQueue = s.pktQueue := by
  unfold releaseWindow
  split <;> rfl

theorem releaseWindow_sound (h : Sound s) : Sound (releaseWindow b s) := by
  unfold releaseWindow
  split
  · exact h.of_marks _ _ _
  · exact h

theorem Marked.window (h : Marked s) (hs : Sound s) (hb : b ∈ s.pktQueue) :
    Marked (releaseWindow b s) := by
  unfold releaseWindow
  split
  · next hlt =>
    have hnext := (hs.below b hb).le
    obtain ⟨hlist, hmarks⟩ := h.release_lt hnext fun p ↦ mem_before hs hb
    refine ⟨hnext, h.capped, hlist, fun p hp ↦ (hmarks p hp).trans ?_⟩
    change _ ↔ p.queueIndex < b.queueIndex ∨ p.queueIndex < s.cappedBefore
    omega
  · exact h

theorem Marked.cap (h : Marked s) (hs : Sound s) (hb : b ∈ s.pktQueue) :
    Marked (releaseCap b.queueIndex s) := by
  unfold releaseCap
  split
  · dsimp only
    split
    · split
      · exact h
      · next oldest _ =>
        split
        · next hlt =>
          have hnext : min oldest.queueIndex b.queueIndex ≤ s.nextQueueIndex :=
            (Nat.min_le_right _ _).trans (hs.below b hb).le
          obtain ⟨hlist, hmarks⟩ :=
            h.release_lt hnext fun p ↦ hs.increasing.mem_takeWhile_lt _
          refine ⟨h.released, hnext, hlist, fun p hp ↦ (hmarks p hp).trans ?_⟩
          change _ ↔ p.queueIndex < s.releasedBefore ∨
            p.queueIndex < min oldest.queueIndex b.queueIndex
          omega
        · exact h
    · exact h
  · exact h

/-- The walk of releaseDecoded ended on `boundary`: at least the pre-event window lies
between it and the earliest iterator. -/
def Window (s : Queue) (boundary : Packet) : Prop :=
  ∃ low window newer, s.pktQueue = low ++ boundary :: (window ++ newer) ∧
    s.preEventVideoPacketCount.toNat ≤ window.countP s.isVideo ∧
    (∀ p ∈ boundary :: window, p.position ≤ s.minIterator) ∧
    (s.keepKeyframes = true → s.isVideoKeyframe boundary = true ∨ low = [])

theorem Window.mem (h : Window s b) : b ∈ s.pktQueue := by
  obtain ⟨low, window, newer, hq, -⟩ := h
  rw [hq]
  exact List.mem_append_right _ List.mem_cons_self

theorem le_minIterator {a : WithTop ℕ} (h : ∀ it ∈ s.iterators, a ≤ it.position) :
    a ≤ s.minIterator := by
  unfold minIterator
  generalize s.iterators = its at h
  induction its with
  | nil => exact le_top
  | cons it its ih =>
    exact le_min (h it List.mem_cons_self) (ih fun x hx ↦ h x (List.mem_cons_of_mem it hx))

theorem front_le_minIterator (h : Sound s) (hq : s.pktQueue = p :: rest) :
    p.position ≤ s.minIterator := by
  refine le_minIterator fun it hit ↦ ?_
  rcases h.placed it hit with htop | ⟨q, hm, hpos⟩
  · rw [htop]
    exact le_top
  · rw [hpos, position_le]
    have hinc := h.increasing
    rw [hq] at hinc hm
    exact hinc.head_le hm

theorem exists_walk_start (h : Sound s) (hne : s.pktQueue ≠ []) : ∃ newer x older,
    backUntil (fun p ↦ p.position ≤ s.minIterator) nothing s.pktQueue.reverse = x :: older ∧
    s.pktQueue.reverse = newer ++ x :: older ∧
    ∀ p ∈ x :: older, p.position ≤ s.minIterator := by
  have hne' : s.pktQueue.reverse ≠ [] := by simpa using hne
  obtain ⟨x, older, hb⟩ := List.exists_cons_of_ne_nil
    (@backUntil_ne_nil _ (fun p ↦ decide (p.position ≤ s.minIterator)) nothing _ hne')
  obtain ⟨newer, hsuffix⟩ := @backUntil_suffix _
    (fun p ↦ decide (p.position ≤ s.minIterator)) nothing s.pktQueue.reverse
  rw [hb] at hsuffix
  have hq : s.pktQueue = older.reverse ++ x :: newer.reverse := by
    rw [← List.reverse_reverse s.pktQueue, ← hsuffix]
    simp
  have hx : x.position ≤ s.minIterator := by
    rcases backUntil_done hb with hstop | hfront
    · exact of_decide_eq_true hstop
    · cases older with
      | nil => exact front_le_minIterator h hq
      | cons y older => simp [atFront, nothing] at hfront
  refine ⟨newer, x, older, hb, hsuffix.symm, fun p hp ↦ le_trans ?_ hx⟩
  rcases List.mem_cons.mp hp with rfl | hp
  · exact le_rfl
  · have hinc := h.increasing
    rw [hq] at hinc
    exact position_le.mpr (hinc.lt_of_append.1 p (List.mem_reverse.mpr hp)).le

theorem exists_boundary (s : Queue) (start : Packet) (low : List Packet) : ∃ w b older,
    start :: low = w ++ b :: older ∧
    (if s.keepKeyframes then backUntil s.isVideoKeyframe nothing (start :: low)
      else start :: low).headD start = b ∧
    (s.keepKeyframes = true → s.isVideoKeyframe b = true ∨ older = []) := by
  cases s.keepKeyframes with
  | false => exact ⟨[], start, low, rfl, rfl, fun hk ↦ by contradiction⟩
  | true =>
    obtain ⟨b, older, hb⟩ := List.exists_cons_of_ne_nil
      (@backUntil_ne_nil _ s.isVideoKeyframe nothing _ (List.cons_ne_nil start low))
    obtain ⟨w, hw⟩ := @backUntil_suffix _ s.isVideoKeyframe nothing (start :: low)
    rw [hb] at hw
    refine ⟨w, b, older, hw.symm, by rw [if_pos rfl, hb]; rfl, fun _ ↦ ?_⟩
    refine (backUntil_done hb).imp_right fun hfront ↦ ?_
    cases older with
    | nil => rfl
    | cons y older => simp [atFront, nothing] at hfront

theorem releaseDecoded_cases (h : Sound s) :
    (∃ e, s.releaseDecoded = { s with history := { s.history with earliest := e } }) ∨
    ∃ start b, start ∈ s.pktQueue ∧ Window s b ∧ s.releaseDecoded =
      releaseCap start.queueIndex (releaseWindow b { s with
        history := { s.history with earliest := s.minIterator } }) := by
  unfold releaseDecoded
  split
  · exact .inl ⟨_, rfl⟩
  next hgo =>
  have hne : s.pktQueue ≠ [] := (not_or.mp (not_or.mp hgo).2).1
  dsimp only
  split
  · next start low hw =>
    obtain ⟨newer, x, older, hb, hq, hle⟩ := exists_walk_start h hne
    obtain ⟨u, hu, hcount⟩ := @countBack_suffix _ s.isVideo nothing
      s.preEventVideoPacketCount.toNat (x :: older)
    have hw' : countBack s.isVideo nothing s.preEventVideoPacketCount.toNat (x :: older) =
        (0, start :: low) := hb ▸ hw
    rw [hw'] at hu hcount
    obtain ⟨w, b, low', hsplit, hhead, hkey⟩ := exists_boundary s start low
    rw [hsplit] at hu
    have hqueue : s.pktQueue = low'.reverse ++ b :: ((u ++ w).reverse ++ newer.reverse) := by
      rw [← List.reverse_reverse s.pktQueue, hq, hu]
      simp
    have hstart : start ∈ s.pktQueue := by
      have hm : start ∈ w ++ b :: low' := hsplit ▸ List.mem_cons_self
      rw [← List.mem_reverse, hq, hu]
      exact List.mem_append_right _ (List.mem_append_right _ hm)
    refine .inr ⟨start, b, hstart, ⟨low'.reverse, (u ++ w).reverse, newer.reverse, hqueue, ?_, ?_,
      fun hk ↦ (hkey hk).imp_right fun hl ↦ by rw [hl]; rfl⟩,
      congrArg (fun b ↦ releaseCap start.queueIndex (releaseWindow b _)) hhead⟩
    · rw [List.countP_reverse, List.countP_append]
      omega
    · intro p hp
      refine hle p (hu ▸ ?_)
      simp only [List.mem_cons, List.mem_reverse, List.mem_append] at hp ⊢
      tauto
  · exact .inl ⟨_, rfl⟩

theorem init_marked : Marked .init :=
  ⟨le_rfl, le_rfl, fun _ hi ↦ by contradiction, fun _ hp ↦ by contradiction⟩

theorem Effect.marked (h : Effect s op s') (hs : Sound s) (hm : Marked s) : Marked s' := by
  cases h with
  | steady hst =>
    exact hm.of_subset (hst.packets ▸ List.Subset.refl _) hst.released hst.capped hst.next
      (by rw [hst.history])
  | emptied he =>
    exact hm.of_subset (he.packets ▸ List.nil_subset _) he.released he.capped he.next
      he.releasedList
  | queued _ hpush hcut =>
    exact (hm.pushes hpush).of_subset hcut.suffix.subset hcut.keeps.released hcut.keeps.capped
      hcut.keeps.next (by rw [hcut.keeps.history])
  | cleared hcut =>
    exact hm.of_subset hcut.suffix.subset hcut.keeps.released hcut.keeps.capped hcut.keeps.next
      (by rw [hcut.keeps.history])
  | released =>
    rcases releaseDecoded_cases hs with ⟨e, he⟩ | ⟨start, b, hstart, hwindow, he⟩
    · rw [he]
      exact ⟨hm.1, hm.2, hm.3, hm.4⟩
    · rw [he]
      have hs' : Sound { s with history := { s.history with earliest := s.minIterator } } :=
        hs.of_marks _ _ _
      have hm' : Marked { s with history := { s.history with earliest := s.minIterator } } :=
        ⟨hm.1, hm.2, hm.3, hm.4⟩
      refine Marked.cap (hm'.window hs' hwindow.mem) (releaseWindow_sound hs') ?_
      rwa [releaseWindow_packets]

end ZoneMinder.PacketQueue
