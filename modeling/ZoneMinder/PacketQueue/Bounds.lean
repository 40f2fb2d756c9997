import ZoneMinder.PacketQueue.Invariant

namespace ZoneMinder.PacketQueue

open Lib Queue

section

variable {s s' : Queue} {p q add target : Packet} {rest l : List Packet} {op : Op}

/-- As long as something was queued since the last clear(), something is queued. -/
def Stocked (s : Queue) : Prop := s.history.accepted ≠ [] → s.pktQueue ≠ []

theorem Effect.stocked (h : Effect s op s') (hs : Stocked s) : Stocked s' := by
  intro hne
  cases h with
  | steady hst =>
    rw [hst.packets]
    exact hs (hst.history ▸ hne)
  | emptied he =>
    rcases he.accepted with hnil | ⟨hq, hsame⟩
    · exact absurd hnil hne
    · exact absurd hq (hs (hsame ▸ hne))
  | queued _ hpush hcut => exact hcut.nonempty (by simp [hpush.packets])
  | cleared hcut => exact hcut.nonempty (hs (hcut.keeps.history ▸ hne))
  | released =>
    obtain ⟨r, c, k, n, e, he⟩ := releaseDecoded_eq s
    rw [he] at hne ⊢
    exact hs hne

theorem reachable_stocked (h : Reachable step .init s) : Sound s ∧ Stocked s := by
  obtain ⟨ops, hrun⟩ := h
  exact run_invariant hrun (fun hne ↦ absurd rfl hne) fun s op s' _ hst _ he ↦ he.stocked hst

theorem video_valid (h : Sound s) (hq : s.pktQueue ≠ []) :
    0 ≤ s.videoStreamId ∧ s.videoStreamId ≤ s.maxStreamId := by
  obtain ⟨p, hp⟩ := List.exists_mem_of_ne_nil _ hq
  have hstream := h.streams p hp
  rcases h.videoStream with hmax | hvideo
  · omega
  · exact hvideo

/-- The loop without keep_keyframes leaves a video packet, so it always finds a front. -/
theorem dropOld_some {limit : ℤ} {earliest : WithTop ℕ} (h : Sound s) (hq : s.pktQueue = l)
    (hne : l ≠ []) (hlimit : 1 ≤ limit) (hit : ∀ it ∈ s.iterators, earliest ≤ it.position) :
    ∃ r, dropOld add limit earliest l s = some r := by
  induction l generalizing s with
  | nil => contradiction
  | cons p rest ih =>
    unfold dropOld
    split
    · exact ⟨_, rfl⟩
    · obtain ⟨hv, hv'⟩ := video_valid h (hq ▸ hne)
      have hcount := h.video_count (count?_eq hv hv')
      rw [count?_eq hv hv', Option.bind_eq_bind, Option.bind_some]
      split
      · exact ⟨_, rfl⟩
      · next hguard =>
        obtain ⟨hmore, hlt⟩ := not_or.mp hguard
        have hlt : p.position < earliest := not_le.mp hlt
        obtain ⟨t, hpop⟩ := pop_some h hq s.iterators
        obtain ⟨htrim, hr, hits⟩ := pop_trims h hq hpop (fun it hm ↦ ⟨it, hm, rfl, le_rfl⟩)
          fun it hm ↦ placed_rest h hq hm (hlt.trans_le (hit it hm)).ne'
        have hrest : rest ≠ [] := by
          rintro rfl
          rw [hcount, hq, List.countP_singleton] at hmore
          split at hmore <;> omega
        obtain ⟨⟨m, u⟩, hu⟩ := ih htrim.sound hr hrest (hits ▸ hit)
        have hpop' : popFront p rest s = some t := hpop
        exact ⟨(m + 1, u), by simp only [hpop', Option.bind_eq_bind, Option.bind_some, hu]; rfl⟩

theorem walkGops_some {video limit : ℤ} {earliest : WithTop ℕ} {toDelete : ℤ} {interval m : ℕ}
    {nextFront : Option Packet}
    (hstop : add ∈ l ∨ (∃ p ∈ l, s.isVideo p = true) ∧ video ≤ limit) (hd : 0 ≤ toDelete) :
    ∃ r, walkGops s add video limit earliest l toDelete interval nextFront m = some r := by
  induction l generalizing toDelete interval nextFront m with
  | nil => simp at hstop
  | cons p rest ih =>
    unfold walkGops
    split
    · exact ⟨_, rfl⟩
    next hp =>
    have hadd : add ∈ p :: rest → add ∈ rest := fun hm ↦
      (List.mem_cons.mp hm).resolve_left (Ne.symm hp)
    split
    · exact ⟨_, rfl⟩
    split
    · dsimp only
      split
      · exact ⟨_, rfl⟩
      · next hmore =>
        refine ih (.inl ?_) (by omega)
        rcases hstop with hm | ⟨-, hle⟩
        · exact hadd hm
        · omega
    · next hv =>
      refine ih (hstop.imp hadd ?_) hd
      rintro ⟨⟨q, hq, hqv⟩, hle⟩
      refine ⟨⟨q, (List.mem_cons.mp hq).resolve_left ?_, hqv⟩, hle⟩
      rintro rfl
      exact hv hqv

theorem tailCount_eq (hadd : add ∉ s.pktQueue) : s.tailCount add = s.pktQueue.countP s.isVideo := by
  have hall : ∀ p ∈ s.pktQueue.reverse, decide (p ≠ add) = true := by
    intro p hp
    refine decide_eq_true ?_
    rintro rfl
    exact hadd (List.mem_reverse.mp hp)
  rw [tailCount, List.takeWhile_eq_self_iff.mpr hall, List.countP_reverse]

theorem clearGops_some {video : ℤ} (h : Sound s) (hq : s.pktQueue = p :: rest)
    (hvideo : video = s.pktQueue.countP s.isVideo) (hpre : 1 ≤ s.preEventVideoPacketCount)
    (hmore : s.preEventVideoPacketCount < video) :
    ∃ r, clearGops add p rest video s = some r := by
  unfold clearGops
  dsimp only
  split
  · exact ⟨_, rfl⟩
  next hp =>
  split
  · exact ⟨_, rfl⟩
  have hstop : add ∈ rest ∨ (∃ q ∈ rest, s.isVideo q = true) ∧
      video ≤ s.preEventVideoPacketCount + s.tailCount add := by
    by_cases hadd : add ∈ s.pktQueue
    · rw [hq] at hadd
      exact .inl ((List.mem_cons.mp hadd).resolve_left (Ne.symm hp))
    · -- trimmed under the caller: every video packet counts as tail
      refine .inr ⟨List.countP_pos_iff.mp ?_, by rw [tailCount_eq hadd, ← hvideo]; omega⟩
      rw [hvideo, hq, List.countP_cons] at hmore
      split at hmore <;> omega
  obtain ⟨⟨nextFront, m⟩, hw⟩ := walkGops_some hstop le_rfl
  rw [hw]
  cases nextFront with
  | none => exact ⟨_, rfl⟩
  | some target =>
    obtain ⟨hmem, -, hle⟩ := (walkGops_target hw).resolve_left (by simp)
    have hm := ((Cuts.refl h).of_flags m s.clearPacketsPending s.zmTerminate s.warnedCount).sound
    obtain ⟨t, ht, -⟩ := popUntil_trims hm hq (List.mem_cons_of_mem p hmem)
      fun it hit ↦ hle.trans (minIterator_le hit)
    exact ⟨_, by simp only [Option.bind_eq_bind, Option.bind_some, ht]; rfl⟩

/-- clearPackets never reads past the queue once something was queued, whatever became of
the packet it is called with. -/
theorem clearPackets_safe (h : Reachable step .init s) (hpre : 1 ≤ s.preEventVideoPacketCount)
    (hqueued : s.history.accepted ≠ []) (add : Packet) : ∃ r, clearPackets add s = some r := by
  obtain ⟨hs, hst⟩ := reachable_stocked h
  have hne := hst hqueued
  obtain ⟨hv, hv'⟩ := video_valid hs hne
  have hcount := hs.video_count (count?_eq hv hv')
  unfold clearPackets
  split
  · exact ⟨_, rfl⟩
  rw [count?_eq hv hv', Option.bind_eq_bind, Option.bind_some]
  split
  · cases hq : s.pktQueue with
    | nil => exact absurd hq hne
    | cons p rest =>
      dsimp only
      split
      · next hmay =>
        refine clearGops_some hs hq hcount hpre ?_
        simp only [mayClear, Bool.and_eq_true, decide_eq_true_eq] at hmay
        exact hmay.1.2
      · exact ⟨_, rfl⟩
  · obtain ⟨⟨n, t⟩, hd⟩ := dropOld_some hs rfl hne
      (show 1 ≤ s.preEventVideoPacketCount + (s.tailCount add : ℤ) by omega)
      (fun it hit ↦ minIterator_le hit)
    exact ⟨_, by dsimp only; rw [hd]; rfl⟩

theorem clearPackets_safe_trimmed : ∃ (s : Queue) (r : Bool × Queue),
    (⟨0, 0, true, 0⟩ : Packet) ∈ s.history.accepted ∧
    (⟨0, 0, true, 0⟩ : Packet) ∉ s.pktQueue ∧ clearPackets ⟨0, 0, true, 0⟩ s = some r := by
  obtain ⟨s, hrun, hs⟩ := Run.exists_of_any step (fun _ _ ↦ True) .init
    [.addStream, .setKeepKeyframes true, .setMaxVideoPackets 2, .setPreEventVideoPackets 1,
      .getVideoIt false, .queuePacket ⟨0, 0, true, 0⟩ false, .queuePacket ⟨0, 0, true, 1⟩ false,
      .queuePacket ⟨0, 0, false, 2⟩ false]
    (fun s ↦ (⟨0, 0, true, 0⟩ : Packet) ∈ s.history.accepted ∧
      (⟨0, 0, true, 0⟩ : Packet) ∉ s.pktQueue ∧ 1 ≤ s.preEventVideoPacketCount) (by decide)
  obtain ⟨haccepted, hgone, hpre⟩ := of_decide_eq_true hs
  obtain ⟨r, hr⟩ := clearPackets_safe ⟨_, hrun⟩ hpre (List.ne_nil_of_mem haccepted) ⟨0, 0, true, 0⟩
  exact ⟨s, r, haccepted, hgone, hr⟩

end

/-- keep_keyframes is set before the first packet is queued and stays set. -/
def passthrough (s : Queue) : Op → Bool
  | .queuePacket _ _ => s.keepKeyframes
  | _ => s.keepKeyframes || s.nextQueueIndex = 0

/-- A packet taken onto an empty queue is one of the video stream. -/
def videoFirst (s : Queue) : Op → Bool
  | .queuePacket packet _ => s.pktQueue ≠ [] || s.admits packet ≠ some true || s.isVideo packet
  | _ => true

def FrontKeyframe (s : Queue) : Prop := ∀ p, s.pktQueue.head? = some p → s.isVideoKeyframe p = true

variable {s s' t : Queue} {p add packet : Packet} {op : Op}

theorem FrontKeyframe.cuts (h : FrontKeyframe s) (hc : Cuts s s') (hk : s.keepKeyframes = true) :
    FrontKeyframe s' := by
  intro p hp
  have hkey : s.isVideoKeyframe p = true := (hc.onKeyframe hk p hp).elim (h p) id
  simpa only [isVideoKeyframe, isVideo, hc.keeps.video] using hkey

theorem keyframe_of_admits (h : Sound s) (hq : s.pktQueue = [])
    (ha : s.admits packet = some true) : packet.keyframe = true := by
  unfold admits at ha
  split at ha
  · contradiction
  split at ha
  · contradiction
  · obtain ⟨video, hv, hk⟩ := Option.map_eq_some_iff.mp ha
    have hcount := h.video_count hv
    rw [hq, List.countP_nil] at hcount
    simpa [hcount] using hk

theorem FrontKeyframe.pushes (h : FrontKeyframe s)
    (hp : Pushes add s t) (hadd : s.pktQueue = [] → s.isVideoKeyframe add = true) :
    FrontKeyframe t := by
  intro p hhead
  have hkey : s.isVideoKeyframe p = true := by
    cases hq : s.pktQueue with
    | nil =>
      rw [hp.packets, hq] at hhead
      rw [← Option.some.inj hhead]
      exact hadd hq
    | cons q rest =>
      rw [hp.packets, hq] at hhead
      exact h p (by rw [hq]; exact hhead)
  simpa only [isVideoKeyframe, isVideo, hp.video] using hkey

theorem keep_of_nonempty (h : Sound s) (hp : passthrough s op = true) (hq : s.pktQueue ≠ []) :
    s.keepKeyframes = true := by
  cases hk : s.keepKeyframes with
  | true => rfl
  | false =>
    obtain ⟨p, hm⟩ := List.exists_mem_of_ne_nil _ hq
    have hlt := h.below p hm
    have hnext : s.nextQueueIndex = 0 := by cases op <;> simp_all [passthrough]
    omega

theorem effect_front (hs : Sound s) (h : FrontKeyframe s) (hp : passthrough s op = true)
    (hv : videoFirst s op = true) (he : Effect s op s') : FrontKeyframe s' := by
  cases he with
  | steady hst =>
    intro p hhead
    have hkey := h p (hst.packets ▸ hhead)
    simpa only [isVideoKeyframe, isVideo, hst.video] using hkey
  | emptied he =>
    intro p hhead
    simp [he.packets] at hhead
  | @queued packet interrupted t _ hadm hpush hcut =>
    have hkeep : s.keepKeyframes = true := hp
    refine (h.pushes hpush fun hq ↦ ?_).cuts hcut (hpush.keep.trans hkeep)
    have hkey := keyframe_of_admits hs hq hadm
    have hvideo : s.isVideo packet = true := by simpa [videoFirst, hq, hadm] using hv
    simpa [isVideoKeyframe, isVideo, hkey] using hvideo
  | cleared hcut =>
    by_cases hq : s.pktQueue = []
    · intro p hhead
      have hnil : s'.pktQueue = [] := List.suffix_nil.mp (hq ▸ hcut.suffix)
      simp [hnil] at hhead
    · exact h.cuts hcut (keep_of_nonempty hs hp hq)
  | released =>
    obtain ⟨r, c, k, n, e, he⟩ := releaseDecoded_eq s
    rw [he]
    exact h

/-- A nonempty queue starts with a video keyframe, in every run that takes no other packet
onto an empty queue. -/
theorem front_keyframe {ops : List Op}
    (h : Run step (fun s op ↦ passthrough s op = true ∧ videoFirst s op = true) .init ops s) :
    ∀ p, s.pktQueue.head? = some p → s.isVideo p = true ∧ p.keyframe = true := by
  obtain ⟨-, hfront⟩ := run_invariant h (J := FrontKeyframe) (fun p hp ↦ by contradiction)
    fun s op s' hs hf ⟨hp, hv⟩ he ↦ effect_front hs hf hp hv he
  intro p hp
  have hkey := hfront p hp
  simpa only [isVideoKeyframe, Bool.and_eq_true] using hkey

/-- An audio packet is queued behind the keyframe, and the keyframe's GOP is trimmed. -/
theorem front_keyframe_trim : ∃ (s : Queue) (p : Packet),
    s.pktQueue.head? = some p ∧ p.queueIndex = 2 ∧ s.isVideo p = true ∧ p.keyframe = true := by
  obtain ⟨s, hrun, hs⟩ := Run.exists_of_any step
    (fun s op ↦ passthrough s op = true ∧ videoFirst s op = true) .init
    [.addStream, .addStream, .setKeepKeyframes true, .setMaxVideoPackets 2, .getVideoIt false,
      .queuePacket ⟨0, 0, true, 0⟩ false, .queuePacket ⟨0, 1, true, 0⟩ false,
      .queuePacket ⟨0, 0, true, 1⟩ false, .queuePacket ⟨0, 0, false, 2⟩ false]
    (fun s ↦ s.pktQueue.head?.any fun p ↦ p.queueIndex = 2) (by decide)
  obtain ⟨p, hp, hidx⟩ := (Option.any_eq_true _ _).mp hs
  exact ⟨s, p, hp, of_decide_eq_true hidx, front_keyframe hrun p hp⟩

/-- The admission test does not look at the stream of a keyframe. -/
theorem audio_front : ∃ (s : Queue) (p : Packet),
    Run step (fun s op ↦ passthrough s op = true) .init
      [.addStream, .addStream, .setKeepKeyframes true, .setPreEventVideoPackets 1,
        .getVideoIt false, .queuePacket ⟨0, 1, true, 0⟩ false] s ∧
    s.pktQueue.head? = some p ∧ s.isVideo p = false := by
  obtain ⟨s, hrun, hs⟩ := Run.exists_of_any step (fun s op ↦ passthrough s op = true) .init
    [.addStream, .addStream, .setKeepKeyframes true, .setPreEventVideoPackets 1,
      .getVideoIt false, .queuePacket ⟨0, 1, true, 0⟩ false]
    (fun s ↦ s.pktQueue.head?.any fun p ↦ s.isVideo p = false) (by decide)
  obtain ⟨p, hp, hvideo⟩ := (Option.any_eq_true _ _).mp hs
  exact ⟨s, p, hrun, hp, of_decide_eq_true hvideo⟩

end ZoneMinder.PacketQueue
