import ZoneMinder.PacketQueue.EventStart

namespace ZoneMinder.PacketQueue

open Lib Queue Function

variable {s s' s'' : Queue} {p q add target : Packet} {rest l : List Packet} {it it' : Iterator}

structure Steady (s s' : Queue) : Prop where
  packets : s'.pktQueue = s.pktQueue
  counts : s'.packetCounts = s.packetCounts
  streams : s'.maxStreamId = s.maxStreamId
  video : s'.videoStreamId = s.videoStreamId
  released : s'.releasedBefore = s.releasedBefore
  capped : s'.cappedBefore = s.cappedBefore
  next : s'.nextQueueIndex = s.nextQueueIndex
  history : s'.history = s.history
  iterators : ∀ it' ∈ s'.iterators, it'.since = s.history.releases ∨
    ∃ it ∈ s.iterators, it.since = it'.since ∧ it.position ≤ it'.position
  placed : ∀ it' ∈ s'.iterators, it'.position = ⊤ ∨ ∃ p ∈ s.pktQueue, it'.position = p.position

theorem Sound.steady (h : Sound s) {its : List Iterator} (hits : s'.iterators = its)
    (hsub : its ⊆ s.iterators)
    (heq : s' = { s with
      iterators := its, deleting := s'.deleting, keepKeyframes := s'.keepKeyframes,
      zmTerminate := s'.zmTerminate, maxVideoPacketCount := s'.maxVideoPacketCount,
      preEventVideoPacketCount := s'.preEventVideoPacketCount,
      keyframeIntervalOverLimit := s'.keyframeIntervalOverLimit }) : Steady s s' := by
  have hmem : ∀ it ∈ s'.iterators, it ∈ s.iterators := fun it hit ↦ hsub (hits ▸ hit)
  refine ⟨?_, ?_, ?_, ?_, ?_, ?_, ?_, ?_, fun it hit ↦ .inr ⟨it, hmem it hit, rfl, le_rfl⟩,
    fun it hit ↦ h.placed it (hmem it hit)⟩ <;> rw [heq]

theorem Steady.refl (h : Sound s) : Steady s s := h.steady rfl (List.Subset.refl _) rfl

theorem Steady.sound (h : Steady s s') (hs : Sound s) : Sound s' := by
  obtain ⟨hinc, hbelow, hcounts, hstreams, -, hvideo⟩ := hs
  have hplaced := h.placed
  refine ⟨?_, ?_, ?_, ?_, ?_, ?_⟩ <;>
    simp only [h.packets, h.counts, h.streams, h.next, h.video] <;> assumption

theorem notes_eq (add : Packet) (s : Queue) : ∃ o m f b, noteKeyframe add (noteOrder add s) = { s with
    hasOutOfOrderPackets := o, maxKeyframeInterval := m, framesSinceLastKeyframe := f,
    keyframeIntervalOverLimit := b } := by
  have horder : ∃ o, noteOrder add s = { s with hasOutOfOrderPackets := o } := by
    unfold noteOrder
    split
    · exact ⟨_, rfl⟩
    · exact ⟨s.hasOutOfOrderPackets, rfl⟩
  obtain ⟨o, ho⟩ := horder
  rw [ho]
  unfold noteKeyframe
  split
  · exact ⟨o, s.maxKeyframeInterval, s.framesSinceLastKeyframe, s.keyframeIntervalOverLimit, rfl⟩
  split
  · exact ⟨o, _, _, _, rfl⟩
  · exact ⟨o, _, _, s.keyframeIntervalOverLimit, rfl⟩

structure Pushes (add : Packet) (s s' : Queue) : Prop where
  sound : Sound s'
  index : add.queueIndex = s.nextQueueIndex
  packets : s'.pktQueue = s.pktQueue ++ [add]
  iterators : ∀ it' ∈ s'.iterators, ∃ it ∈ s.iterators, it.since = it'.since ∧
    ∀ p ∈ s.pktQueue, p.position ≤ it.position → p.position ≤ it'.position
  keep : s'.keepKeyframes = s.keepKeyframes
  video : s'.videoStreamId = s.videoStreamId
  streams : s'.maxStreamId = s.maxStreamId
  released : s'.releasedBefore = s.releasedBefore
  capped : s'.cappedBefore = s.cappedBefore
  next : s'.nextQueueIndex = s.nextQueueIndex + 1
  history : s'.history = { s.history with accepted := s.history.accepted ++ [add] }

theorem pushBack_pushes (h : Sound s) (ha : add.queueIndex = s.nextQueueIndex)
    (hp : pushBack add (noteKeyframe add (noteOrder add s)) = some s') : Pushes add s s' := by
  obtain ⟨o, m, f, b, he⟩ := notes_eq add s
  rw [he] at hp
  unfold pushBack addCount at hp
  split at hp
  · next hr =>
    obtain rfl := Option.some.inj hp
    have hbelow (p : Packet) (hm : p ∈ s.pktQueue ++ [add]) :
        p ∈ s.pktQueue ∧ p.queueIndex < s.nextQueueIndex ∨ p = add := by
      rcases List.mem_append.mp hm with hm | hm
      · exact .inl ⟨hm, h.below p hm⟩
      · exact .inr (List.mem_singleton.mp hm)
    have hits (it' : Iterator) (hm : it' ∈ s.iterators.map fun it ↦
          if it.position = ⊤ then { it with position := add.position } else it) :
        ∃ it ∈ s.iterators, it.since = it'.since ∧
          (it'.position = add.position ∨ it' = it ∧ ∃ p ∈ s.pktQueue, it.position = p.position) := by
      obtain ⟨it, hit, rfl⟩ := List.mem_map.mp hm
      refine ⟨it, hit, ?_⟩
      split
      · exact ⟨rfl, .inl rfl⟩
      · next hpos => exact ⟨rfl, .inr ⟨rfl, (h.placed it hit).resolve_left hpos⟩⟩
    refine ⟨⟨h.increasing.snoc fun p hm ↦ ha ▸ h.below p hm, fun p hm ↦ ?_, fun i hi hi' ↦ ?_,
      fun p hm ↦ ?_, fun it' hm ↦ ?_, h.videoStream⟩, ha, rfl, fun it' hm ↦ ?_, rfl, rfl, rfl, rfl, rfl, rfl, rfl⟩
    · rcases hbelow p hm with ⟨-, hlt⟩ | rfl
      · exact Nat.lt_succ_of_lt hlt
      · exact ha ▸ Nat.lt_succ_self _
    · change update s.packetCounts _ _ i = ((s.pktQueue ++ [add]).countP _ : ℕ)
      rw [List.countP_append, List.countP_singleton]
      by_cases hs : i = add.streamIndex
      · subst hs
        simp [h.counts _ hi hi']
      · rw [update_of_ne hs, h.counts i hi hi']
        simp [Ne.symm hs]
    · rcases List.mem_append.mp hm with hm | hm
      · exact h.streams p hm
      · rw [List.mem_singleton.mp hm]
        exact hr
    · obtain ⟨it, -, -, hpos | ⟨rfl, p, hp, hpos⟩⟩ := hits it' hm
      · exact .inr ⟨add, List.mem_append_right _ (List.mem_singleton_self add), hpos⟩
      · exact .inr ⟨p, List.mem_append_left _ hp, hpos⟩
    · obtain ⟨it, hit, hsince, hpos | ⟨rfl, -⟩⟩ := hits it' hm
      · refine ⟨it, hit, hsince, fun p hp _ ↦ ?_⟩
        rw [hpos, position_le, ha]
        exact (h.below p hp).le
      · exact ⟨_, hit, rfl, fun _ _ hle ↦ hle⟩
  · contradiction

theorem queuePacket_cases {packet : Packet} {interrupted b : Bool} (h : Sound s)
    (hq : queuePacket packet interrupted s = some (b, s')) :
    s' = s ∨ s.admits packet = some true ∧ ∃ t,
      Pushes { packet with queueIndex := s.nextQueueIndex } s t ∧ Cuts t s' := by
  obtain ⟨admitted, hadm, hq⟩ := Option.bind_eq_some_iff.mp hq
  cases admitted with
  | false =>
    obtain ⟨-, rfl⟩ := Prod.mk.inj (Option.some.inj hq)
    exact .inl rfl
  | true =>
    obtain ⟨t, ht, hq⟩ := Option.bind_eq_some_iff.mp hq
    have hpush := pushBack_pushes h rfl ht
    refine .inr ⟨hadm, t, hpush, ?_⟩
    have hflags (w : ℕ) :=
      (Cuts.refl hpush.sound).of_flags t.maxKeyframeInterval t.clearPacketsPending t.zmTerminate w
    split at hq
    · obtain ⟨u, hu, hq⟩ := Option.bind_eq_some_iff.mp hq
      obtain ⟨-, rfl⟩ := Prod.mk.inj (Option.some.inj hq)
      exact (hflags _).trans (trimGop_cuts (hflags _).sound hu)
    · obtain ⟨-, rfl⟩ := Prod.mk.inj (Option.some.inj hq)
      exact hflags _

theorem onIterator_steady {id : ℕ} {f : Iterator → Option Iterator} (h : Sound s)
    (hf : ∀ it ∈ s.iterators, ∀ it', f it = some it' →
      (it'.since = s.history.releases ∨ it'.since = it.since ∧ it.position ≤ it'.position) ∧
      (it'.position = ⊤ ∨ ∃ p ∈ s.pktQueue, it'.position = p.position))
    (hs : onIterator id f s = some s') : Steady s s' := by
  obtain ⟨it, hfind, hs⟩ := Option.bind_eq_some_iff.mp hs
  obtain ⟨it', hit', hs⟩ := Option.bind_eq_some_iff.mp hs
  obtain rfl := Option.some.inj hs
  have hit := List.mem_of_find?_eq_some hfind
  obtain ⟨hsince, hplaced⟩ := hf it hit it' hit'
  refine ⟨rfl, rfl, rfl, rfl, rfl, rfl, rfl, rfl, fun x hx ↦ ?_, fun x hx ↦ ?_⟩
  · obtain ⟨y, hy, rfl⟩ := List.mem_map.mp hx
    split
    · exact hsince.imp_right fun ⟨hs, hp⟩ ↦ ⟨it, hit, hs.symm, hp⟩
    · exact .inr ⟨y, hy, rfl, le_rfl⟩
  · obtain ⟨y, hy, rfl⟩ := List.mem_map.mp hx
    split
    · exact hplaced
    · exact h.placed y hy

theorem advance_steady {id : ℕ} {next : List Packet → WithTop ℕ} (h : Sound s)
    (hnext : ∀ p rest, Increasing Packet.queueIndex (p :: rest) →
      p.position ≤ next rest ∧ (next rest = ⊤ ∨ ∃ q ∈ rest, next rest = q.position))
    (hs : advance id next s = some s') : Steady s s' := by
  refine onIterator_steady h (fun it hit it' hf ↦ ?_) hs
  dsimp only at hf
  split at hf
  · contradiction
  split at hf
  · obtain rfl := Option.some.inj hf
    exact ⟨.inr ⟨rfl, le_rfl⟩, h.placed it hit⟩
  · obtain ⟨⟨p, rest⟩, hfrom, rfl⟩ := Option.map_eq_some_iff.mp hf
    obtain ⟨lo, hq, hpos⟩ := from?_split hfrom
    have hinc : Increasing Packet.queueIndex (p :: rest) :=
      h.increasing.sublist (hq ▸ List.sublist_append_right lo (p :: rest))
    obtain ⟨hle, hmem⟩ := hnext p rest hinc
    refine ⟨.inr ⟨rfl, hpos ▸ hle⟩, hmem.imp_right ?_⟩
    rintro ⟨q, hq', he⟩
    exact ⟨q, hq ▸ List.mem_append_right _ (List.mem_cons_of_mem p hq'), he⟩

theorem front_next (h : Increasing Packet.queueIndex (p :: rest)) (hl : l.Sublist rest) :
    p.position ≤ front l ∧ (front l = ⊤ ∨ ∃ q ∈ rest, front l = q.position) :=
  ⟨(position_lt_front (h.sublist (hl.cons_cons p))).le,
    (front_placed l).imp_right fun ⟨q, hq, he⟩ ↦ ⟨q, hl.subset hq, he⟩⟩

theorem register_steady {n id : ℕ} {position : WithTop ℕ} {waiting : Bool} (h : Sound s)
    (hp : position = ⊤ ∨ ∃ p ∈ s.pktQueue, position = p.position) : Steady s { s with
      iterators := s.iterators ++ [⟨id, position, waiting, s.history.releases⟩]
      nextIterator := n } := by
  refine ⟨rfl, rfl, rfl, rfl, rfl, rfl, rfl, rfl, fun it hit ↦ ?_, fun it hit ↦ ?_⟩
  · rcases List.mem_append.mp hit with hit | hit
    · exact .inr ⟨it, hit, rfl, le_rfl⟩
    · rw [List.mem_singleton.mp hit]
      exact .inl rfl
  · rcases List.mem_append.mp hit with hit | hit
    · exact h.placed it hit
    · rw [List.mem_singleton.mp hit]
      exact hp

theorem firstKeyframe_placed (s : Queue) :
    s.firstKeyframe = ⊤ ∨ ∃ p ∈ s.pktQueue, s.firstKeyframe = p.position :=
  (front_placed _).imp_right fun ⟨p, hp, he⟩ ↦ ⟨p, (List.dropWhile_sublist _).subset hp, he⟩

theorem releaseWindow_eq (p : Packet) (s : Queue) : ∃ r k n, releaseWindow p s = { s with
    releasedBefore := r, history := { s.history with released := k, releases := n } } := by
  unfold releaseWindow
  split
  · exact ⟨_, _, _, rfl⟩
  · exact ⟨_, _, _, rfl⟩

theorem releaseCap_eq (i : ℕ) (s : Queue) : ∃ c k, releaseCap i s = { s with
    cappedBefore := c, history := { s.history with released := k } } := by
  have hsame : ∃ c k, s = { s with cappedBefore := c, history := { s.history with released := k } } :=
    ⟨_, _, rfl⟩
  unfold releaseCap
  split
  · dsimp only
    split
    · split
      · exact hsame
      · split
        · exact ⟨_, _, rfl⟩
        · exact hsame
    · exact hsame
  · exact hsame

theorem releaseDecoded_eq (s : Queue) : ∃ r c k n e, s.releaseDecoded = { s with
    releasedBefore := r, cappedBefore := c, history := ⟨k, n, e, s.history.accepted⟩ } := by
  unfold releaseDecoded
  split
  · exact ⟨_, _, _, _, _, rfl⟩
  · dsimp only
    split
    · next start low _ =>
      obtain ⟨r, k, n, hw⟩ := releaseWindow_eq
        ((if s.keepKeyframes then backUntil s.isVideoKeyframe nothing (start :: low)
          else start :: low).headD start) { s with history := { s.history with earliest := s.minIterator } }
      obtain ⟨c, k', hc⟩ := releaseCap_eq start.queueIndex { s with
        releasedBefore := r, history := ⟨k, n, s.minIterator, s.history.accepted⟩ }
      refine ⟨r, c, k', n, s.minIterator, ?_⟩
      exact (congrArg (releaseCap start.queueIndex) hw).trans hc
    · exact ⟨_, _, _, _, _, rfl⟩

theorem releaseDecoded_sound (h : Sound s) : Sound s.releaseDecoded := by
  obtain ⟨r, c, k, n, e, he⟩ := releaseDecoded_eq s
  rw [he]
  exact h.of_marks r c _

theorem getVideoIt_steady {wait : Bool} (h : Sound s) : Steady s (getVideoIt wait s) := by
  unfold getVideoIt
  split
  · exact .refl h
  dsimp only
  split
  · exact register_steady h (.inl rfl)
  · exact register_steady h (firstKeyframe_placed s)

theorem wakeVideoIt_steady {id : ℕ} (h : Sound s) (hs : wakeVideoIt id s = some s') :
    Steady s s' := by
  obtain ⟨it, -, hs⟩ := Option.bind_eq_some_iff.mp hs
  split at hs
  · contradiction
  split at hs
  · obtain rfl := Option.some.inj hs
    exact h.steady rfl (List.filter_subset_self _) rfl
  split at hs
  · obtain rfl := Option.some.inj hs
    exact .refl h
  · refine onIterator_steady h (fun x _ it' hit' ↦ ?_) hs
    obtain rfl := Option.some.inj hit'
    exact ⟨.inl rfl, firstKeyframe_placed s⟩

/-- clear() and addStream() leave an empty queue, and only clear() forgets what was queued. -/
structure Empties (s s' : Queue) : Prop where
  sound : Sound s'
  packets : s'.pktQueue = []
  iterators : ∀ it' ∈ s'.iterators, ∃ it ∈ s.iterators, it.since = it'.since
  released : s'.releasedBefore = s.releasedBefore
  capped : s'.cappedBefore = s.cappedBefore
  next : s'.nextQueueIndex = s.nextQueueIndex
  releasedList : s'.history.released = s.history.released
  releases : s'.history.releases = s.history.releases
  accepted : s'.history.accepted = [] ∨
    s.pktQueue = [] ∧ s'.history.accepted = s.history.accepted

theorem addStream_empties (h : Sound s) (hs : s.addStream = some s') : Empties s s' := by
  unfold addStream at hs
  split at hs
  · contradiction
  · next hne =>
    have hq : s.pktQueue = [] := not_not.mp hne
    obtain rfl := Option.some.inj hs
    refine ⟨⟨h.increasing, h.below, fun i _ _ ↦ by simp [hq], by simp [hq], h.placed, .inr ?_⟩, hq,
      fun it hit ↦ ⟨it, hit, rfl⟩, rfl, rfl, rfl, rfl, rfl, .inr ⟨hq, rfl⟩⟩
    have hvideo := h.videoStream
    dsimp only
    split <;> omega

theorem clear_empties (h : Sound s) : Empties s s.clear := by
  unfold clear
  dsimp only
  split
  · next hmax =>
    have hq : s.pktQueue = [] := by
      refine List.eq_nil_iff_forall_not_mem.mpr fun p hp ↦ ?_
      have := h.streams p hp
      omega
    exact ⟨⟨h.1, h.2, h.3, h.4, h.5, h.6⟩, hq, fun it hit ↦ ⟨it, hit, rfl⟩, rfl, rfl, rfl, rfl, rfl,
      .inl rfl⟩
  · refine ⟨⟨.nil, by simp, by simp, by simp, fun it hit ↦ ?_, .inl rfl⟩, rfl, fun it hit ↦ ?_,
      rfl, rfl, rfl, rfl, rfl, .inl rfl⟩
    · obtain ⟨x, -, rfl⟩ := List.mem_map.mp hit
      exact .inl rfl
    · obtain ⟨x, hx, rfl⟩ := List.mem_map.mp hit
      exact ⟨x, hx, rfl⟩

inductive Effect (s : Queue) : Op → Queue → Prop
  | steady {op : Op} {s' : Queue} : Steady s s' → Effect s op s'
  | emptied {op : Op} {s' : Queue} : Empties s s' → Effect s op s'
  | queued {packet : Packet} {interrupted : Bool} {t s' : Queue} :
      s.admits packet = some true → Pushes { packet with queueIndex := s.nextQueueIndex } s t →
      Cuts t s' → Effect s (.queuePacket packet interrupted) s'
  | cleared {add : Packet} {s' : Queue} : Cuts s s' → Effect s (.clearPackets add) s'
  | released : Effect s .releaseDecoded s.releaseDecoded

theorem step_effect {op : Op} (h : Sound s) (hs : step s op = some s') : Effect s op s' := by
  cases op with
  | addStream => exact .emptied (addStream_empties h hs)
  | queuePacket packet interrupted =>
    obtain ⟨⟨b, t⟩, hq, rfl⟩ := Option.map_eq_some_iff.mp hs
    obtain rfl | ⟨hadm, u, hpush, hcut⟩ := queuePacket_cases h hq
    · exact .steady (.refl h)
    · exact .queued hadm hpush hcut
  | clearPackets add =>
    obtain ⟨⟨b, t⟩, hc, rfl⟩ := Option.map_eq_some_iff.mp hs
    exact .cleared (clearPackets_cuts h hc)
  | releaseDecoded =>
    rw [← Option.some.inj hs]
    exact .released
  | getVideoIt wait =>
    rw [← Option.some.inj hs]
    exact .steady (getVideoIt_steady h)
  | wakeVideoIt id => exact .steady (wakeVideoIt_steady h hs)
  | incrementIt id wait =>
    change incrementIt id wait s = some s' at hs
    unfold incrementIt at hs
    split at hs
    · rw [← Option.some.inj hs]
      exact .steady (.refl h)
    · exact .steady (advance_steady h (fun p rest hinc ↦ front_next hinc (.refl rest)) hs)
  | incrementItStream id stream =>
    exact .steady (advance_steady h (fun p rest hinc ↦ front_next hinc (List.dropWhile_sublist _)) hs)
  | getPacketAndIncrementIt id locked =>
    change getPacketAndIncrementIt id locked s = some s' at hs
    unfold getPacketAndIncrementIt at hs
    split at hs
    · rw [← Option.some.inj hs]
      exact .steady (.refl h)
    · exact .steady (advance_steady h (fun p rest hinc ↦ front_next hinc (.refl rest)) hs)
  | freeIt id =>
    rw [← Option.some.inj hs]
    exact .steady (h.steady rfl List.eraseP_subset rfl)
  | getEventStartPacketIt snapshot n =>
    obtain ⟨⟨id, t⟩, hg, rfl⟩ := Option.map_eq_some_iff.mp hs
    obtain ⟨it, hit, hg⟩ := Option.bind_eq_some_iff.mp hg
    obtain ⟨-, rfl⟩ := Prod.mk.inj (Option.some.inj hg)
    exact .steady (register_steady h (.inr ⟨it, eventStart_mem hit, rfl⟩))
  | clear =>
    rw [← Option.some.inj hs]
    exact .emptied (clear_empties h)
  | stop | setMaxVideoPackets | setPreEventVideoPackets | setKeepKeyframes | terminate =>
    obtain rfl := Option.some.inj hs
    exact .steady (h.steady rfl (List.Subset.refl _) rfl)

theorem Effect.sound {op : Op} (h : Effect s op s') (hs : Sound s) : Sound s' := by
  cases h with
  | steady hst => exact hst.sound hs
  | emptied he => exact he.sound
  | queued _ _ hcut => exact hcut.sound
  | cleared hcut => exact hcut.sound
  | released => exact releaseDecoded_sound hs

theorem init_sound : Sound .init :=
  ⟨.nil, fun _ hp ↦ by contradiction, fun _ _ _ ↦ rfl, fun _ hp ↦ by contradiction,
    fun _ hit ↦ by contradiction, .inl rfl⟩

theorem run_invariant {P : Queue → Op → Prop} {J : Queue → Prop} {ops : List Op}
    (h : Run step P .init ops s) (hinit : J .init)
    (hstep : ∀ s op s', Sound s → J s → P s op → Effect s op s' → J s') : Sound s ∧ J s := by
  refine h.invariant (I := fun s ↦ Sound s ∧ J s) (fun s op s' ⟨hs, hj⟩ hp ht ↦ ?_)
    ⟨init_sound, hinit⟩
  have he := step_effect hs ht
  exact ⟨he.sound hs, hstep s op s' hs hj hp he⟩

theorem reachable_sound (h : Reachable step .init s) : Sound s := by
  obtain ⟨ops, hrun⟩ := h
  exact (run_invariant (J := fun _ ↦ True) hrun trivial fun _ _ _ _ _ _ _ ↦ trivial).1

/-- The queue's indices, counters and iterators in every reachable state. -/
theorem queue_indexed (h : Reachable step .init s) :
    s.pktQueue.Pairwise (fun p q ↦ p.queueIndex < q.queueIndex) ∧
    (∀ stream, 0 ≤ stream → stream ≤ s.maxStreamId →
      s.packetCounts stream = s.pktQueue.countP (·.streamIndex = stream)) ∧
    ∀ it ∈ s.iterators, it.position = ⊤ ∨ ∃ p ∈ s.pktQueue, it.position = p.position :=
  have hs := reachable_sound h
  ⟨hs.increasing, hs.counts, hs.placed⟩

theorem queue_indexed_trim : ∃ s : Queue,
    s.pktQueue.map (·.queueIndex) = [2, 3] ∧ s.iterators.map (·.position) = [((2 : ℕ) : WithTop ℕ), ⊤] ∧
    s.pktQueue.Pairwise (fun p q ↦ p.queueIndex < q.queueIndex) ∧
    (∀ stream, 0 ≤ stream → stream ≤ s.maxStreamId →
      s.packetCounts stream = s.pktQueue.countP (·.streamIndex = stream)) ∧
    ∀ it ∈ s.iterators, it.position = ⊤ ∨ ∃ p ∈ s.pktQueue, it.position = p.position := by
  obtain ⟨s, hrun, hs⟩ := Run.exists_of_any step (fun _ _ ↦ True) .init
    [.addStream, .addStream, .setMaxVideoPackets 2, .getVideoIt false,
      .queuePacket ⟨0, 0, true, 0⟩ false, .queuePacket ⟨0, 1, true, 0⟩ false,
      .queuePacket ⟨0, 0, true, 1⟩ false, .queuePacket ⟨0, 0, false, 2⟩ false,
      .getVideoIt true, .incrementIt 1 false, .incrementIt 1 false]
    (fun s ↦ s.pktQueue.map (·.queueIndex) = [2, 3] ∧ s.iterators.map (·.position) = [((2 : ℕ) : WithTop ℕ), ⊤])
    (by decide)
  obtain ⟨hq, hits⟩ := of_decide_eq_true hs
  exact ⟨s, hq, hits, queue_indexed ⟨_, hrun⟩⟩

end ZoneMinder.PacketQueue
