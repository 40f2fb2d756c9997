import ZoneMinder.PacketQueue.Machine

namespace ZoneMinder.PacketQueue

open Lib Queue Function

structure Sound (s : Queue) : Prop where
  increasing : Increasing Packet.queueIndex s.pktQueue
  below : ∀ p ∈ s.pktQueue, p.queueIndex < s.nextQueueIndex
  counts : ∀ i, 0 ≤ i → i ≤ s.maxStreamId →
    s.packetCounts i = s.pktQueue.countP (·.streamIndex = i)
  streams : ∀ p ∈ s.pktQueue, 0 ≤ p.streamIndex ∧ p.streamIndex ≤ s.maxStreamId
  placed : ∀ it ∈ s.iterators, it.position = ⊤ ∨ ∃ p ∈ s.pktQueue, it.position = p.position
  videoStream : s.maxStreamId = -1 ∨ 0 ≤ s.videoStreamId ∧ s.videoStreamId ≤ s.maxStreamId

structure Keeps (s s' : Queue) : Prop where
  video : s'.videoStreamId = s.videoStreamId
  streams : s'.maxStreamId = s.maxStreamId
  keep : s'.keepKeyframes = s.keepKeyframes
  released : s'.releasedBefore = s.releasedBefore
  capped : s'.cappedBefore = s.cappedBefore
  next : s'.nextQueueIndex = s.nextQueueIndex
  history : s'.history = s.history

structure Trims (s s' : Queue) : Prop where
  sound : Sound s'
  suffix : s'.pktQueue <:+ s.pktQueue
  iterators : ∀ it' ∈ s'.iterators, ∃ it ∈ s.iterators,
    it.since = it'.since ∧ it.position ≤ it'.position
  keeps : Keeps s s'

variable {s s' s'' : Queue} {p q add target : Packet} {rest l : List Packet} {it it' : Iterator}

@[simp] theorem position_inj : p.position = q.position ↔ p.queueIndex = q.queueIndex :=
  WithTop.coe_inj

@[simp] theorem position_le : p.position ≤ q.position ↔ p.queueIndex ≤ q.queueIndex :=
  WithTop.coe_le_coe

@[simp] theorem position_lt : p.position < q.position ↔ p.queueIndex < q.queueIndex :=
  WithTop.coe_lt_coe

@[simp] theorem position_ne_top : p.position ≠ ⊤ := WithTop.coe_ne_top

/-- The invariant does not mention what releaseDecoded changes. -/
theorem Sound.of_marks (h : Sound s) (r c : ℕ) (history : History) :
    Sound { s with releasedBefore := r, cappedBefore := c, history := history } :=
  ⟨h.increasing, h.below, h.counts, h.streams, h.placed, h.videoStream⟩

theorem Keeps.refl (s : Queue) : Keeps s s := ⟨rfl, rfl, rfl, rfl, rfl, rfl, rfl⟩

theorem Keeps.trans (h : Keeps s s') (h' : Keeps s' s'') : Keeps s s'' :=
  ⟨h'.1.trans h.1, h'.2.trans h.2, h'.3.trans h.3, h'.4.trans h.4, h'.5.trans h.5, h'.6.trans h.6,
    h'.7.trans h.7⟩

namespace Trims

theorem refl (h : Sound s) : Trims s s :=
  ⟨h, List.suffix_rfl, fun it hit ↦ ⟨it, hit, rfl, le_rfl⟩, .refl s⟩

theorem trans (h : Trims s s') (h' : Trims s' s'') : Trims s s'' where
  sound := h'.sound
  suffix := h'.suffix.trans h.suffix
  iterators it'' hit'' := by
    obtain ⟨it', hit', hs', hp'⟩ := h'.iterators it'' hit''
    obtain ⟨it, hit, hs, hp⟩ := h.iterators it' hit'
    exact ⟨it, hit, hs.trans hs', hp.trans hp'⟩
  keeps := h.keeps.trans h'.keeps

end Trims

theorem count?_eq (h : 0 ≤ s.videoStreamId) (h' : s.videoStreamId ≤ s.maxStreamId) :
    s.count? s.videoStreamId = some (s.packetCounts s.videoStreamId) := if_pos ⟨h, h'⟩

theorem Sound.video_count (h : Sound s) {video : ℤ} (hv : s.count? s.videoStreamId = some video) :
    video = s.pktQueue.countP s.isVideo := by
  unfold count? at hv
  split at hv
  · next hr =>
    rw [← Option.some.inj hv, h.counts _ hr.1 hr.2]
    rfl
  · contradiction

section Pop

variable (h : Sound s) (hq : s.pktQueue = p :: rest)

include h hq

theorem pop_counts (i : ℤ) (hi : 0 ≤ i) (hi' : i ≤ s.maxStreamId) :
    update s.packetCounts p.streamIndex (s.packetCounts p.streamIndex + -1) i =
      (rest.countP (·.streamIndex = i) : ℕ) := by
  have hc := h.counts i hi hi'
  rw [hq, List.countP_cons] at hc
  by_cases hp : i = p.streamIndex
  · subst hp
    simp only [decide_true, if_true] at hc
    rw [update_self, hc]
    push_cast
    omega
  · rw [update_of_ne hp, hc]
    simp [Ne.symm hp]

theorem pop_trims {its : List Iterator} (hs : popFront p rest { s with iterators := its } = some s')
    (hits : ∀ it' ∈ its, ∃ it ∈ s.iterators, it.since = it'.since ∧ it.position ≤ it'.position)
    (hplaced : ∀ it ∈ its, it.position = ⊤ ∨ ∃ p ∈ rest, it.position = p.position) :
    Trims s s' ∧ s'.pktQueue = rest ∧ s'.iterators = its := by
  unfold popFront addCount at hs
  split at hs
  · obtain rfl := Option.some.inj hs
    have hinc := h.increasing
    have hbelow := h.below
    have hstreams := h.streams
    rw [hq] at hinc hbelow hstreams
    refine ⟨⟨⟨hinc.sublist (List.sublist_cons_self ..), ?_, pop_counts h hq, ?_, hplaced,
      h.videoStream⟩, ?_, hits,
      ⟨rfl, rfl, rfl, rfl, rfl, rfl, rfl⟩⟩, rfl, rfl⟩
    · exact fun q hq ↦ hbelow q (List.mem_cons_of_mem p hq)
    · exact fun q hq ↦ hstreams q (List.mem_cons_of_mem p hq)
    · rw [hq]
      exact List.suffix_cons p rest
  · contradiction

theorem pop_some (its : List Iterator) :
    ∃ s', popFront p rest { s with iterators := its } = some s' := by
  refine ⟨_, if_pos ?_⟩
  exact h.streams p (hq ▸ List.mem_cons_self)

theorem placed_rest (hit : it ∈ s.iterators) (hp : it.position ≠ p.position) :
    it.position = ⊤ ∨ ∃ q ∈ rest, it.position = q.position := by
  refine (h.placed it hit).imp_right ?_
  rintro ⟨q, hm, he⟩
  rw [hq] at hm
  rcases List.mem_cons.mp hm with rfl | hm
  · exact absurd he hp
  · exact ⟨q, hm, he⟩

end Pop

theorem front_placed (l : List Packet) : front l = ⊤ ∨ ∃ q ∈ l, front l = q.position := by
  cases l with
  | nil => exact .inl rfl
  | cons q l => exact .inr ⟨q, List.mem_cons_self, rfl⟩

theorem position_lt_front (h : Increasing Packet.queueIndex (p :: rest)) :
    p.position < front rest := by
  cases rest with
  | nil => exact WithTop.coe_lt_top _
  | cons q rest => exact position_lt.mpr ((List.pairwise_cons.mp h).1 q List.mem_cons_self)

theorem deletePacket_trims (h : Sound s) (hq : s.pktQueue = p :: rest)
    (hs : deletePacket p rest s = some s') : Trims s s' ∧ s'.pktQueue = rest := by
  unfold deletePacket at hs
  split at hs
  · contradiction
  · have hlt := position_lt_front (hq ▸ h.increasing)
    refine (fun ⟨ht, hr, _⟩ ↦ ⟨ht, hr⟩) (pop_trims h hq hs (fun it' hit' ↦ ?_) fun it' hit' ↦ ?_)
    · obtain ⟨it, hit, rfl⟩ := List.mem_map.mp hit'
      refine ⟨it, hit, ?_⟩
      split
      · next he => exact ⟨rfl, he ▸ hlt.le⟩
      · exact ⟨rfl, le_rfl⟩
    · obtain ⟨it, hit, rfl⟩ := List.mem_map.mp hit'
      split
      · exact front_placed rest
      · next he => exact placed_rest h hq hit he

theorem deleteUntil_trims (h : Sound s) (hq : s.pktQueue = l)
    (hs : deleteUntil target l s = some s') :
    Trims s s' ∧ s'.pktQueue.head? = some target := by
  induction l generalizing s with
  | nil => contradiction
  | cons p rest ih =>
    unfold deleteUntil at hs
    split at hs
    · next hp =>
      obtain rfl := Option.some.inj hs
      exact ⟨.refl h, by rw [hq, hp, List.head?_cons]⟩
    · obtain ⟨t, ht, hs⟩ := Option.bind_eq_some_iff.mp hs
      obtain ⟨htrim, hr⟩ := deletePacket_trims h hq ht
      obtain ⟨htrim', hhead⟩ := ih htrim.sound hr hs
      exact ⟨htrim.trans htrim', hhead⟩

theorem popUntil_trims (h : Sound s) (hq : s.pktQueue = l) (ht : target ∈ l)
    (hit : ∀ it ∈ s.iterators, target.position ≤ it.position) :
    ∃ s', popUntil target l s = some s' ∧ Trims s s' ∧ s'.pktQueue.head? = some target := by
  induction l generalizing s with
  | nil => contradiction
  | cons p rest ih =>
    unfold popUntil
    split
    · next hp => exact ⟨s, rfl, .refl h, by rw [hq, hp, List.head?_cons]⟩
    · next hp =>
      have hmem : target ∈ rest := (List.mem_cons.mp ht).resolve_left (Ne.symm hp)
      have hlt : p.position < target.position :=
        position_lt.mpr ((List.pairwise_cons.mp (hq ▸ h.increasing)).1 target hmem)
      obtain ⟨t, hpop⟩ := pop_some h hq s.iterators
      obtain ⟨htrim, hr, hits⟩ := pop_trims h hq hpop (fun it hm ↦ ⟨it, hm, rfl, le_rfl⟩)
        fun it hm ↦ placed_rest h hq hm (hlt.trans_le (hit it hm)).ne'
      obtain ⟨s', hs', htrim', hhead⟩ := ih htrim.sound hr hmem (hits ▸ hit)
      exact ⟨s', by rw [hpop]; exact hs', htrim.trans htrim', hhead⟩

theorem minIterator_le (hit : it ∈ s.iterators) : s.minIterator ≤ it.position := by
  unfold minIterator
  generalize s.iterators = its at hit ⊢
  induction its with
  | nil => contradiction
  | cons x l ih =>
    rcases List.mem_cons.mp hit with rfl | hit
    · exact min_le_left _ _
    · exact (min_le_right _ _).trans (ih hit)

theorem dropOld_trims {limit : ℤ} {earliest : WithTop ℕ} {n : ℕ} (h : Sound s)
    (hq : s.pktQueue = l) (hit : ∀ it ∈ s.iterators, earliest ≤ it.position)
    (hd : dropOld add limit earliest l s = some (n, s')) : Trims s s' := by
  induction l generalizing s n with
  | nil => contradiction
  | cons p rest ih =>
    unfold dropOld at hd
    split at hd
    · obtain ⟨-, rfl⟩ := Prod.mk.inj (Option.some.inj hd)
      exact .refl h
    · obtain ⟨video, -, hd⟩ := Option.bind_eq_some_iff.mp hd
      split at hd
      · obtain ⟨-, rfl⟩ := Prod.mk.inj (Option.some.inj hd)
        exact .refl h
      · next hguard =>
        obtain ⟨t, hpop, hd⟩ := Option.bind_eq_some_iff.mp hd
        obtain ⟨⟨m, u⟩, hrec, he⟩ := Option.bind_eq_some_iff.mp hd
        obtain ⟨-, rfl⟩ := Prod.mk.inj (Option.some.inj he)
        have hlt : p.position < earliest := not_le.mp fun hle ↦ hguard (.inr hle)
        obtain ⟨htrim, hr, hits⟩ := pop_trims h hq hpop (fun it hm ↦ ⟨it, hm, rfl, le_rfl⟩)
          fun it hm ↦ placed_rest h hq hm (hlt.trans_le (hit it hm)).ne'
        exact htrim.trans (ih htrim.sound hr (hits ▸ hit) hrec)

/-- The walk over the GOPs proposes video keyframes that no iterator has passed. -/
theorem walkGops_target {video limit : ℤ} {earliest : WithTop ℕ} {toDelete : ℤ} {interval m m' : ℕ}
    {nextFront : Option Packet}
    (hw : walkGops s add video limit earliest l toDelete interval nextFront m =
      some (some target, m')) :
    nextFront = some target ∨
      target ∈ l ∧ s.isVideoKeyframe target = true ∧ target.position ≤ earliest := by
  induction l generalizing toDelete interval nextFront m with
  | nil => contradiction
  | cons p rest ih =>
    unfold walkGops at hw
    split at hw
    · exact .inl (Prod.mk.inj (Option.some.inj hw)).1
    split at hw
    · exact .inl (Prod.mk.inj (Option.some.inj hw)).1
    next hle =>
    have hlater {r : Packet} (hr : r ∈ rest ∧ s.isVideoKeyframe r = true ∧ r.position ≤ earliest) :
        r ∈ p :: rest ∧ s.isVideoKeyframe r = true ∧ r.position ≤ earliest :=
      ⟨List.mem_cons_of_mem p hr.1, hr.2⟩
    split at hw
    · next hv =>
      have hnew : (if p.keyframe then some p else nextFront) = some target →
          nextFront = some target ∨
            target ∈ p :: rest ∧ s.isVideoKeyframe target = true ∧ target.position ≤ earliest := by
        intro ht
        split at ht
        · next hk =>
          obtain rfl := Option.some.inj ht
          exact .inr ⟨List.mem_cons_self, by simp [isVideoKeyframe, hv, hk], not_lt.mp hle⟩
        · exact .inl ht
      dsimp only at hw
      split at hw
      · exact hnew (Prod.mk.inj (Option.some.inj hw)).1
      · rcases ih hw with ht | ht
        · exact hnew ht
        · exact .inr (hlater ht)
    · exact (ih hw).imp_right hlater

theorem dropOld_ne_nil {limit : ℤ} {earliest : WithTop ℕ} {n : ℕ} (hq : s.pktQueue = l)
    (hd : dropOld add limit earliest l s = some (n, s')) : s'.pktQueue ≠ [] := by
  induction l generalizing s n with
  | nil => contradiction
  | cons p rest ih =>
    have hne : s.pktQueue ≠ [] := by simp [hq]
    unfold dropOld at hd
    split at hd
    · rwa [← (Prod.mk.inj (Option.some.inj hd)).2]
    · obtain ⟨video, -, hd⟩ := Option.bind_eq_some_iff.mp hd
      split at hd
      · rwa [← (Prod.mk.inj (Option.some.inj hd)).2]
      · obtain ⟨t, hpop, hd⟩ := Option.bind_eq_some_iff.mp hd
        obtain ⟨⟨m, u⟩, hrec, he⟩ := Option.bind_eq_some_iff.mp hd
        obtain ⟨-, rfl⟩ := Prod.mk.inj (Option.some.inj he)
        refine ih ?_ hrec
        unfold popFront addCount at hpop
        split at hpop
        · rw [← Option.some.inj hpop]
        · contradiction

structure Cuts (s s' : Queue) : Prop extends Trims s s' where
  nonempty : s.pktQueue ≠ [] → s'.pktQueue ≠ []
  onKeyframe : s.keepKeyframes = true → ∀ p, s'.pktQueue.head? = some p →
    s.pktQueue.head? = some p ∨ s.isVideoKeyframe p = true

namespace Cuts

theorem refl (h : Sound s) : Cuts s s := ⟨.refl h, fun h ↦ h, fun _ _ hp ↦ .inl hp⟩

theorem trans (h : Cuts s s') (h' : Cuts s' s'') : Cuts s s'' where
  toTrims := h.toTrims.trans h'.toTrims
  nonempty hne := h'.nonempty (h.nonempty hne)
  onKeyframe hk p hp := by
    rcases h'.onKeyframe (h.keeps.keep.trans hk) p hp with hhead | hkey
    · exact h.onKeyframe hk p hhead
    · simp only [isVideoKeyframe, isVideo, h.keeps.video] at hkey
      exact .inr hkey

theorem of_head (h : Trims s s') (hhead : s'.pktQueue.head? = some target)
    (hkey : s.isVideoKeyframe target = true) : Cuts s s' := by
  refine ⟨h, fun _ hn ↦ by simp [hn] at hhead, fun _ p hp ↦ .inr ?_⟩
  rwa [← Option.some.inj (hhead.symm.trans hp)]

theorem of_flags (h : Cuts s s') (m : ℕ) (b b' : Bool) (w : ℕ) : Cuts s { s' with
    maxKeyframeInterval := m, clearPacketsPending := b, zmTerminate := b', warnedCount := w } :=
  ⟨⟨⟨h.sound.1, h.sound.2, h.sound.3, h.sound.4, h.sound.5, h.sound.6⟩, h.suffix, h.iterators,
    ⟨h.keeps.1, h.keeps.2, h.keeps.3, h.keeps.4, h.keeps.5, h.keeps.6, h.keeps.7⟩⟩, h.nonempty,
    h.onKeyframe⟩

end Cuts

/-- All that the trimming to a keyframe can do: nothing but to note that it is still to be done, or
to remove everything before the packet that the walk found. -/
theorem clearGops_cases {video : ℤ} {b : Bool}
    (hc : clearGops add p rest video s = some (b, s')) :
    ((p = add ∨ s.minIterator ≤ p.position) ∧
        ∃ pending, s' = { s with clearPacketsPending := pending }) ∨
      p.position < s.minIterator ∧ ∃ nextFront m,
        walkGops s add video (s.preEventVideoPacketCount + s.tailCount add) s.minIterator rest 0 0
          none s.maxKeyframeInterval = some (nextFront, m) ∧
        (nextFront = none ∧
            s' = { s with maxKeyframeInterval := m, clearPacketsPending := true } ∨
          ∃ target t, nextFront = some target ∧
            popUntil target (p :: rest) { s with maxKeyframeInterval := m } = some t ∧
            s' = { t with clearPacketsPending := false }) := by
  unfold clearGops at hc
  dsimp only at hc
  split at hc
  next hadd =>
    obtain ⟨-, rfl⟩ := Prod.mk.inj (Option.some.inj hc)
    exact .inl ⟨.inl hadd, s.clearPacketsPending, rfl⟩
  split at hc
  next hearly =>
    obtain ⟨-, rfl⟩ := Prod.mk.inj (Option.some.inj hc)
    exact .inl ⟨.inr hearly, true, rfl⟩
  next hearly =>
  obtain ⟨⟨nextFront, m⟩, hw, hc⟩ := Option.bind_eq_some_iff.mp hc
  refine .inr ⟨not_le.mp hearly, nextFront, m, hw, ?_⟩
  cases nextFront with
  | none =>
    obtain ⟨-, rfl⟩ := Prod.mk.inj (Option.some.inj hc)
    exact .inl ⟨rfl, rfl⟩
  | some target =>
    obtain ⟨t, ht, hc⟩ := Option.bind_eq_some_iff.mp hc
    obtain ⟨-, rfl⟩ := Prod.mk.inj (Option.some.inj hc)
    exact .inr ⟨target, t, rfl, ht, rfl⟩

theorem clearGops_cuts {video : ℤ} {b : Bool} (h : Sound s) (hq : s.pktQueue = p :: rest)
    (hc : clearGops add p rest video s = some (b, s')) : Cuts s s' := by
  have hflags (m : ℕ) (b : Bool) := (Cuts.refl h).of_flags m b s.zmTerminate s.warnedCount
  obtain ⟨-, pending, rfl⟩ | ⟨-, nextFront, m, hw, ⟨-, rfl⟩ | ⟨target, t, rfl, ht, rfl⟩⟩ :=
    clearGops_cases hc
  · exact hflags _ _
  · exact hflags _ _
  · obtain ⟨hmem, hkey, hle⟩ := (walkGops_target hw).resolve_left (by simp)
    have hm := hflags m s.clearPacketsPending
    obtain ⟨u, hu, htrim, hhead⟩ := popUntil_trims hm.sound hq (List.mem_cons_of_mem p hmem)
      fun it hit ↦ hle.trans (minIterator_le hit)
    obtain rfl : u = t := Option.some.inj (hu.symm.trans ht)
    exact (Cuts.of_head (hm.toTrims.trans htrim) hhead hkey).of_flags _ _ _ _

theorem clearPackets_cuts {b : Bool} (h : Sound s) (hc : clearPackets add s = some (b, s')) :
    Cuts s s' := by
  unfold clearPackets at hc
  split at hc
  · obtain ⟨-, rfl⟩ := Prod.mk.inj (Option.some.inj hc)
    exact .refl h
  obtain ⟨video, -, hc⟩ := Option.bind_eq_some_iff.mp hc
  split at hc
  · split at hc
    · contradiction
    · next p rest hq =>
      split at hc
      · exact clearGops_cuts h hq hc
      · obtain ⟨-, rfl⟩ := Prod.mk.inj (Option.some.inj hc)
        exact .refl h
  · next hkeep =>
    obtain ⟨⟨n, t⟩, hd, hc⟩ := Option.bind_eq_some_iff.mp hc
    obtain ⟨-, rfl⟩ := Prod.mk.inj (Option.some.inj hc)
    have hcut : Cuts s t := ⟨dropOld_trims h rfl (fun it hit ↦ minIterator_le hit) hd,
      fun _ ↦ dropOld_ne_nil rfl hd, fun hk ↦ absurd hk hkeep⟩
    exact hcut.of_flags t.maxKeyframeInterval _ t.zmTerminate t.warnedCount

theorem findKeyframe_target (hf : findKeyframe s add l = some (some target)) :
    s.isVideoKeyframe target = true := by
  induction l with
  | nil => contradiction
  | cons p rest ih =>
    unfold findKeyframe at hf
    split at hf
    · exact absurd (Option.some.inj hf) (by simp)
    split at hf
    · next hk => rwa [← Option.some.inj (Option.some.inj hf)]
    · exact ih hf

theorem trimGop_cuts {interrupted : Bool} (h : Sound s)
    (ht : trimGop add interrupted s = some s') : Cuts s s' := by
  unfold trimGop at ht
  split at ht
  · obtain rfl := Option.some.inj ht
    exact (Cuts.refl h).of_flags s.maxKeyframeInterval s.clearPacketsPending true s.warnedCount
  · obtain ⟨target, hf, ht⟩ := Option.bind_eq_some_iff.mp ht
    cases target with
    | none =>
      obtain rfl := Option.some.inj ht
      exact .refl h
    | some target =>
      obtain ⟨htrim, hhead⟩ := deleteUntil_trims h rfl ht
      exact .of_head htrim hhead (findKeyframe_target hf)

end ZoneMinder.PacketQueue
