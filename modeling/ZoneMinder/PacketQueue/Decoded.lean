import ZoneMinder.PacketQueue.Marks

namespace ZoneMinder.PacketQueue

open Lib Queue

variable {s s' : Queue} {p x o c : Packet} {lo hi l : List Packet} {snapshot : WithTop ℕ} {n : ℕ}

def decodedAhead (s : Queue) (x : Packet) : ℕ :=
  (s.pktQueue.filter fun p ↦ s.cappedBefore ≤ p.queueIndex ∧ p.queueIndex ≤ x.queueIndex).tail.countP
    s.isVideo

/-- The walk over `n` video packets back from `x` stays where decoded data is left. -/
def StaysDecoded (s : Queue) (x : Packet) (n : ℕ) : Prop :=
  s.releasedBefore ≤ x.queueIndex ∧ s.cappedBefore ≤ x.queueIndex ∧
    ((∀ p ∈ s.pktQueue, p.queueIndex < s.cappedBefore → p.queueIndex < s.releasedBefore) ∨
      n ≤ decodedAhead s x)

instance (s : Queue) (x : Packet) (n : ℕ) : Decidable (StaysDecoded s x n) :=
  inferInstanceAs (Decidable (_ ∧ _ ∧ (_ ∨ _)))

theorem reachable_marked (h : Reachable step .init s) : Sound s ∧ Marked s := by
  obtain ⟨ops, hrun⟩ := h
  exact run_invariant hrun init_marked fun s op s' hs hm _ he ↦ he.marked hs hm

theorem exists_cap_split (h : Sound s) (hq : s.pktQueue = lo ++ x :: hi)
    (hx : s.cappedBefore ≤ x.queueIndex) : ∃ low o ahead, lo ++ [x] = low ++ o :: ahead ∧
    (∀ p ∈ low, p.queueIndex < s.cappedBefore) ∧
    (∀ p ∈ o :: ahead, s.cappedBefore ≤ p.queueIndex) ∧
    decodedAhead s x = ahead.countP s.isVideo := by
  have hinc := h.increasing
  have hq' : s.pktQueue = (lo ++ [x]) ++ hi := by simp [hq]
  obtain ⟨hlo, hhi⟩ := (hq ▸ hinc : Increasing _ (lo ++ x :: hi)).lt_of_append
  have hpre : Increasing Packet.queueIndex (lo ++ [x]) :=
    hinc.sublist (hq' ▸ List.sublist_append_left (lo ++ [x]) hi)
  obtain ⟨low, kept, hsplit, hlow, hkept⟩ := hpre.exists_split s.cappedBefore
  cases kept with
  | nil =>
    have hm : x ∈ low := by
      rw [List.append_nil] at hsplit
      rw [← hsplit]
      exact List.mem_append_right _ (List.mem_singleton_self x)
    have := hlow x hm
    omega
  | cons o ahead =>
    refine ⟨low, o, ahead, hsplit, hlow, hkept, ?_⟩
    have hfilter : s.pktQueue.filter (fun p ↦
        decide (s.cappedBefore ≤ p.queueIndex ∧ p.queueIndex ≤ x.queueIndex)) = o :: ahead := by
      have hle : ∀ p ∈ o :: ahead, p.queueIndex ≤ x.queueIndex := by
        intro p hp
        have hm : p ∈ lo ++ [x] := hsplit ▸ List.mem_append_right low hp
        rcases List.mem_append.mp hm with hm | hm
        · exact (hlo p hm).le
        · rw [List.mem_singleton.mp hm]
      have hbelow : low.filter (fun p ↦ decide (s.cappedBefore ≤ p.queueIndex ∧
          p.queueIndex ≤ x.queueIndex)) = [] := by
        refine List.filter_eq_nil_iff.mpr fun p hp ↦ ?_
        have := hlow p hp
        simp only [decide_eq_true_eq]
        omega
      have hbehind : hi.filter (fun p ↦ decide (s.cappedBefore ≤ p.queueIndex ∧
          p.queueIndex ≤ x.queueIndex)) = [] := by
        refine List.filter_eq_nil_iff.mpr fun p hp ↦ ?_
        have := hhi p hp
        simp only [decide_eq_true_eq]
        omega
      rw [hq', hsplit, List.filter_append, List.filter_append, hbelow, hbehind, List.nil_append,
        List.append_nil, List.filter_eq_self]
      exact fun p hp ↦ decide_eq_true ⟨hkept p hp, hle p hp⟩
    rw [decodedAhead, hfilter, List.tail_cons]

section

variable {low ahead : List Packet} {q : Packet}

/-- A walk that is short enough, or finds nothing below the cap, ends at or behind it. -/
theorem walk_stays (hkept : ∀ p ∈ o :: ahead, s.cappedBefore ≤ p.queueIndex)
    (hp : (countBack s.isVideo s.isReleased n (ahead.reverse ++ o :: low.reverse)).2 = p :: l)
    (hn : n ≤ ahead.countP s.isVideo ∨ atFront s.isReleased (o :: low.reverse) = true) :
    s.cappedBefore ≤ p.queueIndex := by
  rw [← List.countP_reverse] at hn
  obtain ⟨v, hv, he⟩ := countBack_stays hn
  rw [he] at hp
  apply hkept
  cases v with
  | nil =>
    rw [(List.cons.inj hp).1]
    exact List.mem_cons_self
  | cons a v =>
    rw [← (List.cons.inj hp).1]
    exact List.mem_cons_of_mem o (List.mem_reverse.mp (hv.subset List.mem_cons_self))

/-- A walk over more packets than are left behind the cap ends below it, if a packet there can
still be seen. -/
theorem walk_passes (hlow : Increasing Packet.queueIndex low)
    (hkept : ∀ p ∈ o :: ahead, s.cappedBefore ≤ p.queueIndex)
    (hp : (countBack s.isVideo s.isReleased n (ahead.reverse ++ o :: low.reverse)).2 = p :: l)
    (hn : ahead.countP s.isVideo < n) (hq : q ∈ low) (hqc : q.queueIndex < s.cappedBefore)
    (hqr : s.releasedBefore ≤ q.queueIndex) : p ∈ low := by
  obtain ⟨c, low', hc⟩ := List.exists_cons_of_ne_nil (List.ne_nil_of_mem (List.mem_reverse.mpr hq))
  have hlow' : low = low'.reverse ++ [c] := by
    rw [← List.reverse_reverse low, hc, List.reverse_cons]
  have hqle : q.queueIndex ≤ c.queueIndex := by
    rw [hlow'] at hlow hq
    rcases List.mem_append.mp hq with hm | hm
    · exact (hlow.lt_of_append.1 q hm).le
    · rw [List.mem_singleton.mp hm]
  have hvisible (y : Packet) (hy : s.releasedBefore ≤ y.queueIndex) : s.isReleased y = false := by
    rw [isReleased, decide_eq_false_iff_not]
    omega
  have hseen (y : Packet) (hy : y ∈ o :: ahead) : s.isReleased y = false := by
    apply hvisible
    have hcap := hkept y hy
    omega
  rw [hc] at hp
  obtain ⟨v, hne, hv, he⟩ := @countBack_passes _ s.isVideo s.isReleased n o ahead.reverse low' c
    (by rwa [List.countP_reverse])
    (fun y hy ↦ hseen y (List.mem_cons_of_mem o (List.mem_reverse.mp hy)))
    (hseen o List.mem_cons_self) (hvisible c (by omega))
  rw [he] at hp
  rw [← List.mem_reverse, hc]
  exact hv.subset (hp ▸ List.mem_cons_self)

end

/-- Where the first walk of get_event_start_packet_it ends: not below either mark exactly
under `StaysDecoded`. -/
theorem walk_decoded_iff (h : Sound s) (hq : s.pktQueue = lo ++ x :: hi)
    (hp : (countBack s.isVideo s.isReleased n (x :: lo.reverse)).2 = p :: l) :
    s.releasedBefore ≤ p.queueIndex ∧ s.cappedBefore ≤ p.queueIndex ↔ StaysDecoded s x n := by
  have hinc := h.increasing
  obtain ⟨hlo, hhi⟩ := (hq ▸ hinc : Increasing _ (lo ++ x :: hi)).lt_of_append
  obtain ⟨u, hu, -⟩ := @countBack_suffix _ s.isVideo s.isReleased n (x :: lo.reverse)
  have hpx : p.queueIndex ≤ x.queueIndex := by
    have hm : p ∈ x :: lo.reverse := by
      rw [hu, hp]
      exact List.mem_append_right u List.mem_cons_self
    rcases List.mem_cons.mp hm with rfl | hm
    · exact le_rfl
    · exact (hlo p (List.mem_reverse.mp hm)).le
  by_cases hx : s.releasedBefore ≤ x.queueIndex ∧ s.cappedBefore ≤ x.queueIndex
  swap
  · refine iff_of_false (fun hmarks ↦ hx (by omega)) fun hstay ↦ hx ⟨hstay.1, hstay.2.1⟩
  obtain ⟨hxr, hxc⟩ := hx
  have hpr : s.releasedBefore ≤ p.queueIndex := by
    have hvisible : s.isReleased x = false := by simpa [isReleased] using hxr
    simpa [isReleased] using countBack_visible hvisible hp
  obtain ⟨low, o, ahead, hsplit, hlow, hkept, hcount⟩ := exists_cap_split h hq hxc
  have hqueue : s.pktQueue = low ++ o :: ahead ++ hi := by
    rw [← hsplit, hq, List.append_assoc, List.singleton_append]
  have hback : x :: lo.reverse = ahead.reverse ++ o :: low.reverse := by
    simpa using congrArg List.reverse hsplit
  rw [hback] at hp
  constructor
  · rintro ⟨-, hpc⟩
    refine ⟨hxr, hxc, ?_⟩
    by_contra hnot
    obtain ⟨hex, hn⟩ := not_or.mp hnot
    obtain ⟨q, hmem, hqc, hqr⟩ : ∃ q ∈ s.pktQueue, q.queueIndex < s.cappedBefore ∧
        s.releasedBefore ≤ q.queueIndex := by simpa using hex
    have hqlow : q ∈ low := by
      rw [hqueue] at hmem
      rcases List.mem_append.mp hmem with hm | hm
      · refine (List.mem_append.mp hm).resolve_right fun hm ↦ ?_
        have := hkept q hm
        omega
      · have := hhi q hm
        omega
    have hinclow : Increasing Packet.queueIndex low := by
      rw [hqueue, List.append_assoc] at hinc
      exact hinc.sublist (List.sublist_append_left low _)
    have hplow := walk_passes hinclow hkept hp (by omega) hqlow hqc hqr
    have hbelow := hlow p hplow
    omega
  · rintro ⟨-, -, hall | hn⟩
    · refine ⟨hpr, walk_stays hkept hp (.inr ?_)⟩
      cases hc : low.reverse with
      | nil => rfl
      | cons c low' =>
        have hmem : c ∈ low := by
          rw [← List.mem_reverse, hc]
          exact List.mem_cons_self
        have hcq : c ∈ s.pktQueue := by
          rw [hqueue, List.append_assoc]
          exact List.mem_append_left _ hmem
        exact decide_eq_true (hall c hcq (hlow c hmem))
    · exact ⟨hpr, walk_stays hkept hp (.inl (hcount ▸ hn))⟩

/-- Exactly when an encode-mode event starts on a packet that releaseDecoded has not put on
a release list: from a snapshot behind both marks, with enough video packets behind the cap
or no packet between the marks. -/
theorem event_decoded_iff (h : Reachable step .init s) (hk : s.keepKeyframes = false)
    (hx : x ∈ s.pktQueue)
    (hsnapshot : snapshot = x.position ∨ snapshot = ⊤ ∧ s.pktQueue.head? = some x) :
    ∃ p, s.eventStart snapshot n = some p ∧
      (p.queueIndex ∉ s.history.released ↔ StaysDecoded s x n) := by
  obtain ⟨hs, hm⟩ := reachable_marked h
  have hstart : (if snapshot = ⊤ then front s.pktQueue else snapshot) = x.position := by
    rcases hsnapshot with rfl | ⟨rfl, hhead⟩
    · exact if_neg position_ne_top
    · rw [if_pos rfl]
      cases hq : s.pktQueue with
      | nil => simp [hq] at hhead
      | cons y rest =>
        rw [hq] at hhead
        rw [← Option.some.inj hhead]
        rfl
  obtain ⟨lo, hi, hq⟩ := List.append_of_mem hx
  have hback := back?_of_split hs hq
  obtain ⟨p, l, hp⟩ := List.exists_cons_of_ne_nil
    (@countBack_ne_nil _ s.isVideo s.isReleased n _ (List.cons_ne_nil x lo.reverse))
  refine ⟨p, ?_, ?_⟩
  · rw [eventStart, hstart, hback, Option.bind_eq_bind, Option.bind_some, eventAt_encode hk, hp]
    rfl
  · have hmem : p ∈ s.pktQueue := by
      obtain ⟨u, hu, -⟩ := @countBack_suffix _ s.isVideo s.isReleased n (x :: lo.reverse)
      have hpm : p ∈ x :: lo.reverse := by
        rw [hu, hp]
        exact List.mem_append_right u List.mem_cons_self
      rw [hq]
      simp only [List.mem_append, List.mem_cons, List.mem_reverse] at hpm ⊢
      tauto
    rw [hm.marks p hmem, not_or, not_lt, not_lt]
    exact walk_decoded_iff hs hq hp

/-- A passthrough GOP longer than the cap, released up to packet 4, then a reload to encode
mode with a window of four frames. -/
def cappedGop : List Op :=
  [.addStream, .setKeepKeyframes true, .setMaxVideoPackets 2, .setPreEventVideoPackets 1,
    .getVideoIt false, .queuePacket ⟨0, 0, true, 0⟩ false, .queuePacket ⟨0, 0, false, 1⟩ false,
    .queuePacket ⟨0, 0, false, 2⟩ false, .queuePacket ⟨0, 0, false, 3⟩ false,
    .queuePacket ⟨0, 0, false, 4⟩ false, .queuePacket ⟨0, 0, false, 5⟩ false,
    .incrementIt 0 false, .incrementIt 0 false, .incrementIt 0 false, .incrementIt 0 false,
    .incrementIt 0 false, .releaseDecoded, .setKeepKeyframes false, .setPreEventVideoPackets 4]

/-- An event with one pre-event frame starts on decoded data after the reload. -/
theorem event_decoded_iff_capped : ∃ (s : Queue) (x p : Packet), x ∈ s.pktQueue ∧
    s.eventStart x.position 1 = some p ∧ StaysDecoded s x 1 ∧
    p.queueIndex ∉ s.history.released := by
  obtain ⟨s, hrun, hs⟩ := Run.exists_of_any step (fun _ _ ↦ True) .init cappedGop
    (fun s ↦ s.keepKeyframes = false ∧ (⟨5, 0, false, 5⟩ : Packet) ∈ s.pktQueue ∧
      StaysDecoded s ⟨5, 0, false, 5⟩ 1) (by decide)
  obtain ⟨hk, hx, hstay⟩ := of_decide_eq_true hs
  obtain ⟨p, hp, hiff⟩ := event_decoded_iff ⟨_, hrun⟩ hk hx (.inl rfl)
  exact ⟨s, ⟨5, 0, false, 5⟩, p, hx, hp, hstay, hiff.mpr hstay⟩

/-- One with four starts on packet 1, which was released under the cap. -/
theorem capped_event : ∃ (s : Queue) (it : Iterator) (p : Packet),
    Run step (fun _ _ ↦ True) .init cappedGop s ∧ s.keepKeyframes = false ∧
    it ∈ s.iterators ∧ s.history.earliest ≤ it.position ∧
    s.eventStart it.position 4 = some p ∧ p.queueIndex ∈ s.history.released := by
  obtain ⟨s, hrun, hs⟩ := Run.exists_of_any step (fun _ _ ↦ True) .init cappedGop
    (fun s ↦ s.keepKeyframes = false ∧ (⟨0, (5 : ℕ), false, 0⟩ : Iterator) ∈ s.iterators ∧
      s.history.earliest ≤ ((5 : ℕ) : WithTop ℕ) ∧
      s.eventStart (5 : ℕ) 4 = some ⟨1, 0, false, 1⟩ ∧ 1 ∈ s.history.released) (by decide)
  obtain ⟨hk, hit, hle, hp, hmem⟩ := of_decide_eq_true hs
  exact ⟨s, _, _, hrun, hk, hit, hle, hp, hmem⟩

end ZoneMinder.PacketQueue
