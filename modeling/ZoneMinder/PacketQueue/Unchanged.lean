import ZoneMinder.PacketQueue.Marks

namespace ZoneMinder.PacketQueue

open Lib Queue

variable {s s' t : Queue} {p x b add : Packet} {lo hi l : List Packet} {op : Op}
  {position position' : WithTop ℕ} {k : Bool} {N : ℤ} {n : ℕ}

def sameWindow (k : Bool) (N : ℤ) (s : Queue) (op : Op) : Bool :=
  op ≠ .releaseDecoded || s.keepKeyframes = k && s.preEventVideoPacketCount = N

def ahead (s : Queue) (position : WithTop ℕ) : ℕ :=
  s.pktQueue.countP fun p ↦ s.isVideo p && decide (s.releasedBefore < p.queueIndex) &&
    decide (p.position ≤ position)

/-- Behind `position` the window ends before anything the mark covers: the marked packet is
queued, a whole window lies between, and passthrough finds a keyframe there. -/
def Covers (k : Bool) (N : ℤ) (s : Queue) (position : WithTop ℕ) : Prop :=
  ∀ q ∈ s.pktQueue, q.queueIndex < s.releasedBefore → ∃ b ∈ s.pktQueue,
    b.queueIndex = s.releasedBefore ∧ b.position ≤ position ∧
    (k = true → s.isVideoKeyframe b = true) ∧ N.toNat ≤ ahead s position

/-- Every iterator handed out before the mark last moved is covered. -/
structure Covered (k : Bool) (N : ℤ) (s : Queue) : Prop where
  fresh : s.history.releases = 0 → s.releasedBefore = 0
  since : ∀ it ∈ s.iterators, it.since ≤ s.history.releases
  covers : ∀ it ∈ s.iterators, it.since < s.history.releases → Covers k N s it.position

theorem countP_le_ahead (hsub : l.Sublist s'.pktQueue) (hv : s'.videoStreamId = s.videoStreamId)
    (hr : s'.releasedBefore = s.releasedBefore)
    (hle : ∀ p ∈ l, p.position ≤ position → p.position ≤ position') :
    l.countP (fun p ↦ s.isVideo p && decide (s.releasedBefore < p.queueIndex) &&
      decide (p.position ≤ position)) ≤ ahead s' position' := by
  rw [ahead, hr]
  refine le_trans (List.countP_mono_left fun p hp hcond ↦ ?_) hsub.countP_le
  simp only [isVideo, hv, Bool.and_eq_true, decide_eq_true_eq] at hcond ⊢
  exact ⟨hcond.1, hle p hp hcond.2⟩

theorem Covers.grows (h : Covers k N s position) (hsub : s.pktQueue.Sublist s'.pktQueue)
    (hnew : ∀ p ∈ s'.pktQueue, p ∈ s.pktQueue ∨ s.releasedBefore ≤ p.queueIndex)
    (hv : s'.videoStreamId = s.videoStreamId) (hr : s'.releasedBefore = s.releasedBefore)
    (hle : ∀ p ∈ s.pktQueue, p.position ≤ position → p.position ≤ position') :
    Covers k N s' position' := by
  intro q hm hlt
  rw [hr] at hlt
  have hold : q ∈ s.pktQueue := (hnew q hm).resolve_right (not_le.mpr hlt)
  obtain ⟨b, hb, hidx, hpos, hkey, hcount⟩ := h q hold hlt
  refine ⟨b, hsub.subset hb, hr ▸ hidx, hle b hb hpos, fun hk ↦ ?_,
    hcount.trans (countP_le_ahead hsub hv hr hle)⟩
  simpa only [isVideoKeyframe, isVideo, hv] using hkey hk

theorem Covers.trims (h : Covers k N s position) (ht : Trims s s') (hs : Sound s)
    (hle : position ≤ position') : Covers k N s' position' := by
  intro q hq hlt
  rw [ht.keeps.released] at hlt
  obtain ⟨b, hb, hidx, hpos, hkey, hcount⟩ := h q (ht.suffix.subset hq) hlt
  obtain ⟨gone, hgone⟩ := ht.suffix
  refine ⟨b, hs.increasing.mem_suffix ht.suffix hq hb (hidx ▸ hlt.le), ht.keeps.released ▸ hidx,
    hpos.trans hle, fun hk ↦ ?_, hcount.trans ?_⟩
  · simpa only [isVideoKeyframe, isVideo, ht.keeps.video] using hkey hk
  · -- what was trimmed lies before the mark
    have hzero : gone.countP (fun p ↦ s.isVideo p && decide (s.releasedBefore < p.queueIndex) &&
        decide (p.position ≤ position)) = 0 := by
      refine List.countP_eq_zero.mpr fun p hp hcond ↦ ?_
      have hinc := hs.increasing
      rw [← hgone] at hinc
      have hpq := (List.pairwise_append.mp hinc).2.2 p hp q hq
      simp only [Bool.and_eq_true, decide_eq_true_eq] at hcond
      omega
    rw [ahead, ← hgone, List.countP_append, hzero, Nat.zero_add]
    exact countP_le_ahead (.refl _) ht.keeps.video ht.keeps.released fun p _ hp ↦ hp.trans hle

/-- Whatever the earliest iterator has reached is covered when the mark moves to the end of
the window. -/
theorem Window.covers (h : Window s b) (hs : Sound s) (hk : s.keepKeyframes = k)
    (hN : s.preEventVideoPacketCount = N) (hpos : s.minIterator ≤ position)
    (hq : t.pktQueue = s.pktQueue) (hv : t.videoStreamId = s.videoStreamId)
    (hr : t.releasedBefore = b.queueIndex) : Covers k N t position := by
  obtain ⟨low, window, newer, hsplit, hcount, hle, hkey⟩ := h
  have hinc := hs.increasing
  rw [hsplit] at hinc
  obtain ⟨hlow, hhigh⟩ := hinc.lt_of_append
  intro q hm hlt
  rw [hq, hsplit] at hm
  have hne : low ≠ [] := by
    rintro rfl
    have := hinc.head_le hm
    omega
  refine ⟨b, ?_, hr.symm, (hle b List.mem_cons_self).trans hpos, fun hk' ↦ ?_, ?_⟩
  · rw [hq, hsplit]
    exact List.mem_append_right _ List.mem_cons_self
  · simpa only [isVideoKeyframe, isVideo, hv] using (hkey (hk.trans hk')).resolve_right hne
  · have hsub : window.Sublist t.pktQueue := by
      rw [hq, hsplit]
      exact ((List.sublist_append_left window newer).cons b).trans (List.sublist_append_right low _)
    rw [← hN]
    refine hcount.trans (le_trans (List.countP_mono_left fun p hp hvideo ↦ ?_) hsub.countP_le)
    have hpb := hhigh p (List.mem_append_left _ hp)
    simp only [isVideo, hv, hr, Bool.and_eq_true, decide_eq_true_eq] at hvideo ⊢
    exact ⟨⟨hvideo, hpb⟩, (hle p (List.mem_cons_of_mem b hp)).trans hpos⟩

theorem Covered.releaseDecoded (h : Covered k N s) (hs : Sound s) (hk : s.keepKeyframes = k)
    (hN : s.preEventVideoPacketCount = N) : Covered k N s.releaseDecoded := by
  rcases releaseDecoded_cases hs with ⟨e, he⟩ | ⟨start, b, -, hwindow, he⟩
  · rw [he]
    exact ⟨h.fresh, h.since, h.covers⟩
  · obtain ⟨c, r, hcap⟩ := releaseCap_eq start.queueIndex (releaseWindow b { s with
      history := { s.history with earliest := s.minIterator } })
    rw [he, hcap]
    unfold releaseWindow
    split
    · refine ⟨fun hz ↦ by contradiction, fun it hit ↦ Nat.le_succ_of_le (h.since it hit),
        fun it hit _ ↦ ?_⟩
      exact hwindow.covers hs hk hN (minIterator_le hit) rfl rfl rfl
    · exact ⟨h.fresh, h.since, h.covers⟩

theorem Covered.steady (h : Covered k N s) (hst : Steady s s') : Covered k N s' := by
  refine ⟨fun hz ↦ ?_, fun it' hit' ↦ ?_, fun it' hit' hlt ↦ ?_⟩
  · rw [hst.released]
    exact h.fresh (hst.history ▸ hz)
  · rw [hst.history]
    rcases hst.iterators it' hit' with hnew | ⟨it, hit, hsince, -⟩
    · exact hnew.le
    · exact hsince ▸ h.since it hit
  · rw [hst.history] at hlt
    rcases hst.iterators it' hit' with hnew | ⟨it, hit, hsince, hle⟩
    · omega
    · exact (h.covers it hit (hsince ▸ hlt)).grows (hst.packets ▸ .refl _)
        (fun p hp ↦ .inl (hst.packets ▸ hp)) hst.video hst.released fun p _ hp ↦ hp.trans hle

theorem Covered.pushes (h : Covered k N s) (hm : Marked s) (hp : Pushes add s t) :
    Covered k N t := by
  refine ⟨fun hz ↦ ?_, fun it' hit' ↦ ?_, fun it' hit' hlt ↦ ?_⟩
  · rw [hp.released]
    exact h.fresh (by simpa [hp.history] using hz)
  · obtain ⟨it, hit, hsince, -⟩ := hp.iterators it' hit'
    rw [hp.history, ← hsince]
    exact h.since it hit
  · obtain ⟨it, hit, hsince, hle⟩ := hp.iterators it' hit'
    rw [hp.history, ← hsince] at hlt
    refine (h.covers it hit hlt).grows (hp.packets ▸ List.sublist_append_left _ _) (fun p hmem ↦ ?_)
      hp.video hp.released hle
    rw [hp.packets] at hmem
    refine (List.mem_append.mp hmem).imp_right fun hadd ↦ ?_
    rw [List.mem_singleton.mp hadd, hp.index]
    exact hm.released

theorem Covered.trims (h : Covered k N s) (hs : Sound s) (ht : Trims s s') : Covered k N s' := by
  refine ⟨fun hz ↦ ?_, fun it' hit' ↦ ?_, fun it' hit' hlt ↦ ?_⟩
  · rw [ht.keeps.released]
    exact h.fresh (ht.keeps.history ▸ hz)
  · obtain ⟨it, hit, hsince, -⟩ := ht.iterators it' hit'
    rw [ht.keeps.history, ← hsince]
    exact h.since it hit
  · obtain ⟨it, hit, hsince, hle⟩ := ht.iterators it' hit'
    rw [ht.keeps.history, ← hsince] at hlt
    exact (h.covers it hit hlt).trims ht hs hle

theorem Covered.empties (h : Covered k N s) (he : Empties s s') : Covered k N s' := by
  refine ⟨fun hz ↦ ?_, fun it' hit' ↦ ?_, fun it' _ _ q hq ↦ ?_⟩
  · rw [he.released]
    exact h.fresh (he.releases ▸ hz)
  · obtain ⟨it, hit, hsince⟩ := he.iterators it' hit'
    rw [he.releases, ← hsince]
    exact h.since it hit
  · simp [he.packets] at hq

theorem Effect.covered (h : Effect s op s') (hc : Covered k N s) (hs : Sound s) (hm : Marked s)
    (hw : sameWindow k N s op = true) : Covered k N s' := by
  cases h with
  | steady hst => exact hc.steady hst
  | emptied he => exact hc.empties he
  | queued _ hpush hcut => exact (hc.pushes hm hpush).trims hpush.sound hcut.toTrims
  | cleared hcut => exact hc.trims hs hcut.toTrims
  | released =>
    obtain ⟨hk, hN⟩ : s.keepKeyframes = k ∧ s.preEventVideoPacketCount = N := by
      simpa [sameWindow] using hw
    exact hc.releaseDecoded hs hk hN

theorem run_covered {ops : List Op} (h : Run step (fun s op ↦ sameWindow k N s op = true) .init ops s) :
    Sound s ∧ Covered k N s := by
  have hinit : Covered k N .init :=
    ⟨fun _ ↦ rfl, fun _ hit ↦ by contradiction, fun _ hit ↦ by contradiction⟩
  obtain ⟨hs, -, hc⟩ := run_invariant h (J := fun s ↦ Marked s ∧ Covered k N s)
    ⟨init_marked, hinit⟩ fun s op s' hs ⟨hm, hc⟩ hw he ↦
      ⟨he.marked hs hm, he.covered hc hs hm hw⟩
  exact ⟨hs, hc⟩

theorem keyframeFrom_unmarked (r : ℕ) (snapshot : WithTop ℕ) (l : List Packet) :
    keyframeFrom s snapshot l = keyframeFrom { s with releasedBefore := r } snapshot l := by
  induction l with
  | nil => rfl
  | cons p l ih =>
    rw [keyframeFrom, keyframeFrom, ih]
    rfl

theorem startOnKeyframe_unmarked (r : ℕ) (p : Packet) (snapshot : WithTop ℕ) :
    s.startOnKeyframe p snapshot =
      ({ s with releasedBefore := r } : Queue).startOnKeyframe p snapshot := by
  rw [startOnKeyframe, keyframeFrom_unmarked r]
  rfl

theorem keyframeBefore_unmarked {r : ℕ} {snapshot : WithTop ℕ}
    (h : ∀ p ∈ l, s.isReleased p = ({ s with releasedBefore := r } : Queue).isReleased p) :
    s.keyframeBefore snapshot l = ({ s with releasedBefore := r } : Queue).keyframeBefore snapshot l := by
  have hsuffix := @backUntil_suffix _ s.isVideoKeyframe s.isReleased l
  unfold keyframeBefore
  rw [show backUntil ({ s with releasedBefore := r } : Queue).isVideoKeyframe
    ({ s with releasedBefore := r } : Queue).isReleased l = backUntil s.isVideoKeyframe s.isReleased l
    from (backUntil_congr h).symm]
  cases hb : backUntil s.isVideoKeyframe s.isReleased l with
  | nil => rfl
  | cons it low =>
    rw [hb] at hsuffix
    dsimp only
    rw [atFront_congr fun p hp ↦ h p (hsuffix.subset hp), startOnKeyframe_unmarked r]

/-- Marks behind everything queued do not matter to an event start. -/
theorem eventStart_unmarked (h : ∀ p ∈ s.pktQueue, s.releasedBefore ≤ p.queueIndex)
    (snapshot : WithTop ℕ) (n : ℕ) :
    s.eventStart snapshot n = ({ s with releasedBefore := 0 } : Queue).eventStart snapshot n := by
  have hsame : ∀ p ∈ s.pktQueue,
      s.isReleased p = ({ s with releasedBefore := 0 } : Queue).isReleased p := by
    intro p hp
    simpa [isReleased] using h p hp
  unfold eventStart
  change (s.back? _).bind _ = (s.back? _).bind _
  cases hb : s.back? (if snapshot = ⊤ then front s.pktQueue else snapshot) with
  | none => rfl
  | some back =>
    have hback : back ⊆ s.pktQueue := back?_subset hb
    rw [Option.bind_some, Option.bind_some]
    rw [show countBack ({ s with releasedBefore := 0 } : Queue).isVideo
      ({ s with releasedBefore := 0 } : Queue).isReleased n back =
        countBack s.isVideo s.isReleased n back
      from (countBack_congr (fun p hp ↦ hsame p (hback hp)) n).symm]
    obtain ⟨u, hu, -⟩ := @countBack_suffix _ s.isVideo s.isReleased n back
    generalize countBack s.isVideo s.isReleased n back = r at hu
    obtain ⟨left, l⟩ := r
    cases l with
    | nil => rfl
    | cons it low =>
      have hl : ∀ p ∈ it :: low, p ∈ s.pktQueue := fun p hp ↦
        hback (hu ▸ List.mem_append_right u hp)
      unfold eventAt
      dsimp only
      rw [keyframeBefore_unmarked fun p hp ↦ hsame p (hl p hp), startOnKeyframe_unmarked 0]
      rfl

theorem exists_window_split (hs : Sound s) (hq : s.pktQueue = lo ++ x :: hi) (hb : b ∈ s.pktQueue)
    (hidx : b.queueIndex = s.releasedBefore) (hle : b.position ≤ x.position) :
    ∃ low up, lo ++ [x] = low ++ b :: up ∧ (∀ p ∈ up, s.releasedBefore < p.queueIndex) ∧
      ahead s x.position ≤ up.countP s.isVideo := by
  have hinc := hs.increasing
  have hq' : s.pktQueue = (lo ++ [x]) ++ hi := by simp [hq]
  obtain ⟨-, hhi⟩ := (hq ▸ hinc : Increasing _ (lo ++ x :: hi)).lt_of_append
  have hmem : b ∈ lo ++ [x] := by
    rw [hq'] at hb
    refine (List.mem_append.mp hb).resolve_right fun hm ↦ ?_
    have hlt := hhi b hm
    rw [position_le] at hle
    omega
  obtain ⟨low, up, hsplit⟩ := List.append_of_mem hmem
  have hincs : Increasing Packet.queueIndex (low ++ b :: up) :=
    hinc.sublist (hq' ▸ hsplit ▸ List.sublist_append_left _ hi)
  obtain ⟨hlow, hup⟩ := hincs.lt_of_append
  refine ⟨low, up, hsplit, fun p hp ↦ hidx ▸ hup p hp, ?_⟩
  rw [ahead, hq', hsplit, List.countP_append, List.countP_append, List.countP_cons]
  have hzlow : low.countP (fun p ↦ s.isVideo p && decide (s.releasedBefore < p.queueIndex) &&
      decide (p.position ≤ x.position)) = 0 := by
    refine List.countP_eq_zero.mpr fun p hp hcond ↦ ?_
    have hlt := hlow p hp
    simp only [Bool.and_eq_true, decide_eq_true_eq] at hcond
    omega
  have hzhi : hi.countP (fun p ↦ s.isVideo p && decide (s.releasedBefore < p.queueIndex) &&
      decide (p.position ≤ x.position)) = 0 := by
    refine List.countP_eq_zero.mpr fun p hp hcond ↦ ?_
    have hlt := hhi p hp
    simp only [Bool.and_eq_true, decide_eq_true_eq, position_le] at hcond
    omega
  rw [hzlow, hzhi, if_neg (by simp [hidx])]
  simp only [Nat.zero_add, Nat.add_zero]
  refine List.countP_mono_left fun p _ hcond ↦ ?_
  simp only [Bool.and_eq_true] at hcond
  exact hcond.1.1

theorem Covers.mono (h : Covers k N s position) (hle : position ≤ position') :
    Covers k N s position' :=
  h.grows (.refl _) (fun _ hp ↦ .inl hp) rfl rfl fun _ _ hp ↦ hp.trans hle

theorem headD_mem (hl : l ⊆ lo) : l.headD b ∈ b :: lo := by
  cases l with
  | nil => exact List.mem_cons_self
  | cons p l => exact List.mem_cons_of_mem b (hl List.mem_cons_self)

/-- While the window is unchanged, an event starts where it would without any release, and
on a packet the mark does not cover. -/
theorem release_invisible {ops : List Op}
    (h : Run step (fun s op ↦ sameWindow k N s op = true) .init ops s) (hk : s.keepKeyframes = k)
    {it first : Iterator} (hit : it ∈ s.iterators) (hend : it.position ≠ ⊤)
    (hfirst : first ∈ s.iterators) (hle : first.position ≤ it.position)
    (hsince : first.since < s.history.releases ∨ s.history.releases = 0) (hn : n ≤ N) :
    ∃ p, s.eventStart it.position n = some p ∧
      ({ s with releasedBefore := 0 } : Queue).eventStart it.position n = some p ∧
      s.releasedBefore ≤ p.queueIndex := by
  obtain ⟨hs, hc⟩ := run_covered h
  obtain ⟨x, hx, hpos⟩ := (hs.placed it hit).resolve_left hend
  obtain ⟨lo, hi, hq⟩ := List.append_of_mem hx
  have hcovers : Covers k N s it.position := by
    rcases hsince with hlt | hz
    · exact (hc.covers first hfirst hlt).mono hle
    · intro q _ hlt
      rw [hc.fresh hz] at hlt
      exact absurd hlt (Nat.not_lt_zero _)
  rw [hpos] at hcovers ⊢
  by_cases hmark : ∃ q ∈ s.pktQueue, q.queueIndex < s.releasedBefore
  · obtain ⟨q, hqm, hlt⟩ := hmark
    obtain ⟨b, hb, hidx, hle, hkey, hcount⟩ := hcovers q hqm hlt
    obtain ⟨low, up, hsplit, hup, hahead⟩ := exists_window_split hs hq hb hidx hle
    have hcounted : n ≤ up.countP s.isVideo := by omega
    have hrange : ∀ p ∈ b :: up, s.releasedBefore ≤ p.queueIndex := by
      intro p hp
      rcases List.mem_cons.mp hp with rfl | hp
      · exact hidx.ge
      · exact (hup p hp).le
    have hkey' : s.keepKeyframes = true → s.isVideoKeyframe b = true := fun hk' ↦ hkey (hk ▸ hk')
    have hstart := eventStart_window hs hq hsplit
      (fun p hp ↦ by simpa [isReleased] using hrange p hp) hcounted hkey'
    have hs0 : Sound { s with releasedBefore := 0 } := hs.of_marks 0 _ _
    have hstart0 := eventStart_window hs0 hq hsplit (fun p _ ↦ by simp [isReleased]) hcounted hkey'
    refine ⟨_, hstart, hstart0, hrange _ ?_⟩
    have hleft : dropCounted s.isVideo n up.reverse ⊆ up := fun p hp ↦
      List.mem_reverse.mp ((dropCounted_suffix _ _).subset hp)
    split
    · exact headD_mem fun p hp ↦ hleft ((List.dropWhile_sublist _).subset hp)
    · exact headD_mem hleft
  · have hall : ∀ p ∈ s.pktQueue, s.releasedBefore ≤ p.queueIndex := by
      intro p hp
      by_contra hlt
      exact hmark ⟨p, hp, not_le.mp hlt⟩
    obtain ⟨p, hp⟩ := eventStart_some hs hx n
    exact ⟨p, hp, (eventStart_unmarked hall x.position n).symm.trans hp, hall p (eventStart_mem hp)⟩

def releasedPrefix : List Op :=
  [.addStream, .setPreEventVideoPackets 1, .getVideoIt false, .queuePacket ⟨0, 0, true, 0⟩ false,
    .queuePacket ⟨0, 0, false, 1⟩ false, .queuePacket ⟨0, 0, false, 2⟩ false,
    .queuePacket ⟨0, 0, false, 3⟩ false, .incrementIt 0 false, .incrementIt 0 false,
    .incrementIt 0 false, .releaseDecoded]

theorem release_invisible_prefix : ∃ (s : Queue) (p : Packet), s.releasedBefore = 2 ∧
    s.eventStart (3 : ℕ) 1 = some p ∧
    ({ s with releasedBefore := 0 } : Queue).eventStart (3 : ℕ) 1 = some p ∧
    2 ≤ p.queueIndex := by
  obtain ⟨s, hrun, hs⟩ := Run.exists_of_any step (fun s op ↦ sameWindow false 1 s op = true) .init
    releasedPrefix
    (fun s ↦ s.releasedBefore = 2 ∧ s.keepKeyframes = false ∧
      (⟨0, (3 : ℕ), false, 0⟩ : Iterator) ∈ s.iterators ∧ s.history.releases = 1) (by decide)
  obtain ⟨hmark, hk, hit, hreleases⟩ := of_decide_eq_true hs
  obtain ⟨p, hp, hp0, hle⟩ := release_invisible (n := 1) hrun hk hit WithTop.coe_ne_top hit
    le_rfl (.inl (by simp [hreleases])) le_rfl
  exact ⟨s, p, hmark, hp, hp0, hmark ▸ hle⟩

/-- An iterator registered afterwards starts at the first keyframe, and its event on a packet
that was released; so does one that was there before once it has gone on to end(), where
get_event_start_packet_it takes begin(). -/
theorem uncovered_iterators : (∃ (s : Queue) (it : Iterator) (p : Packet),
    Run step (fun s op ↦ sameWindow false 1 s op = true) .init
      (releasedPrefix ++ [.getVideoIt false]) s ∧
    s.keepKeyframes = false ∧ s.preEventVideoPacketCount = 1 ∧ it ∈ s.iterators ∧
    it.waiting = false ∧ it.position ≠ ⊤ ∧ s.eventStart it.position 1 = some p ∧
    p.queueIndex < s.releasedBefore) ∧
    ∃ (s : Queue) (it : Iterator) (p : Packet),
    Run step (fun s op ↦ sameWindow false 1 s op = true) .init
      (releasedPrefix ++ [.incrementIt 0 false]) s ∧
    s.keepKeyframes = false ∧ s.preEventVideoPacketCount = 1 ∧ it ∈ s.iterators ∧
    it.since < s.history.releases ∧ it.position = ⊤ ∧ s.eventStart it.position 1 = some p ∧
    p.queueIndex < s.releasedBefore := by
  constructor
  · obtain ⟨s, hrun, hs⟩ := Run.exists_of_any step (fun s op ↦ sameWindow false 1 s op = true) .init
      (releasedPrefix ++ [.getVideoIt false])
      (fun s ↦ s.keepKeyframes = false ∧ s.preEventVideoPacketCount = 1 ∧
        (⟨1, (0 : ℕ), false, 1⟩ : Iterator) ∈ s.iterators ∧
        s.eventStart (0 : ℕ) 1 = some ⟨0, 0, true, 0⟩ ∧ s.releasedBefore = 2) (by decide)
    obtain ⟨hk, hN, hit, hp, hmark⟩ := of_decide_eq_true hs
    exact ⟨s, _, _, hrun, hk, hN, hit, rfl, WithTop.coe_ne_top, hp, hmark ▸ Nat.zero_lt_two⟩
  · obtain ⟨s, hrun, hs⟩ := Run.exists_of_any step (fun s op ↦ sameWindow false 1 s op = true) .init
      (releasedPrefix ++ [.incrementIt 0 false])
      (fun s ↦ s.keepKeyframes = false ∧ s.preEventVideoPacketCount = 1 ∧
        (⟨0, ⊤, false, 0⟩ : Iterator) ∈ s.iterators ∧ s.history.releases = 1 ∧
        s.eventStart ⊤ 1 = some ⟨0, 0, true, 0⟩ ∧ s.releasedBefore = 2) (by decide)
    obtain ⟨hk, hN, hit, hreleases, hp, hmark⟩ := of_decide_eq_true hs
    exact ⟨s, _, _, hrun, hk, hN, hit, hreleases ▸ Nat.zero_lt_one, rfl, hp,
      hmark ▸ Nat.zero_lt_two⟩

end ZoneMinder.PacketQueue
